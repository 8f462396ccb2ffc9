import Mathlib.Data.Finset.Basic
import Mathlib.Data.Finset.Insert
import Mathlib.Tactic.Simps.Basic
import Caprock.Handle
import Caprock.Slab

/-! # Thread control blocks

The data of one core's scheduler and of the thread directory.  A thread may run when its
set of blocking reasons is empty; an exhausted budget is a property of its account and is
kept beside the set.  The ready lists are chained through the control blocks.

Not modelled are the thread pointer, the handler binding and the cycle account: no
scheduling decision reads them.
-/

namespace Caprock.Sched

/-- `NPRIO`: the number of priorities; higher is more important. -/
def nprio : Nat := 8

/-- A reason not to run, with its own waker (the bits of `BlockReasons`). -/
inductive Grund where
  | ipc
  | budget
  | pause
  | park
  | handler
  | load
  | debug
  | freeze
  deriving DecidableEq, Repr

/-- `BlockReasons`: why a thread may not run; empty means runnable. -/
abbrev BlockReasons : Type := Finset Grund

structure Tcb where
  used : Bool
  gid : Nat
  gen : Nat
  /-- Saved stack pointer while the thread does not run. -/
  sp : Nat
  priority : Nat
  reasons : BlockReasons
  stackBase : Nat
  stackLen : Nat
  /-- Absolute deadline in ticks, `0` for none. -/
  frist : Nat
  /-- The one reason the deadline may remove. -/
  fristGrund : Option Grund
  /-- The priority of the ready list the thread is linked in. -/
  queued : Option Nat
  admitted : Bool
  qnext : Option Nat
  qprev : Option Nat
  /-- Ticks per period, `0` for no bound. -/
  budget : Nat
  period : Nat
  remaining : Nat
  nextRefill : Nat
  depleted : Bool
  parkWake : Bool
  /-- The account this thread is charged to, if it is not its own. -/
  scDonor : Option Nat
  /-- The thread that was last lent this account. -/
  scDonee : Option Nat
  deriving DecidableEq

def Tcb.empty : Tcb where
  used := false
  gid := u32Max
  gen := 0
  sp := 0
  priority := 0
  reasons := ∅
  stackBase := 0
  stackLen := 0
  frist := 0
  fristGrund := none
  queued := none
  admitted := false
  qnext := none
  qprev := none
  budget := 0
  period := 0
  remaining := 0
  nextRefill := 0
  depleted := false
  parkWake := false
  scDonor := none
  scDonee := none

def Tcb.neu (gid gen sp priority : Nat) : Tcb :=
  { Tcb.empty with used := true, gid := gid, gen := gen, sp := sp, priority := priority }

def Tcb.mitQueued (t : Tcb) (q : Option Nat) : Tcb := { t with queued := q }

theorem Tcb.mitQueued_self {t : Tcb} {q : Option Nat} (h : t.queued = q) : t.mitQueued q = t := by
  subst h
  rfl

def Tcb.ohneLinks (t : Tcb) : Tcb := { t with qnext := none, qprev := none }

/-- `reasons.enthaelt(frist_grund)`: does the guarded reason still stand? -/
def Tcb.fristGrundSteht (t : Tcb) : Bool :=
  match t.fristGrund with
  | none => false
  | some g => decide (g ∈ t.reasons)

/-- A thread between two cores. -/
structure Migrant where
  tcb : Tcb
  wasReady : Bool

/-- What is left of an ended thread until it is reaped. -/
structure Zombie where
  base : Nat
  len : Nat
  gid : Nat

def Zombie.empty : Zombie := ⟨0, 0, u32Max⟩

/-- Head of an intrusive ready list. -/
structure ListHead where
  head : Option Nat
  tail : Option Nat
  count : Nat

def ListHead.empty : ListHead := ⟨none, none, 0⟩

/-- A directory entry, `used | gen | core | local` in the source. -/
structure DirEntry where
  used : Bool
  gen : Nat
  core : Nat
  lokal : Nat

/-- `pack_dir`: 31 bits of generation, 16 bits each of core and local index. -/
def packDir (used : Bool) (gen core lokal : Nat) : DirEntry :=
  ⟨used, gen % 2 ^ 31, core % 2 ^ 16, lokal % 2 ^ 16⟩

/-- `DIRECTORY` and `GID_FREE`, shared by all cores. -/
structure Verzeichnis where
  directory : Slab DirEntry
  gidFree : FreeList

/-- `attach_directory`. -/
def Verzeichnis.attach (capacity : Nat) : Verzeichnis where
  directory := Slab.attach capacity fun _ => ⟨false, 0, 0, 0⟩
  gidFree := FreeList.attach capacity

/-- Store an entry; a `gid` outside the directory is skipped. -/
def Verzeichnis.store (v : Verzeichnis) (gid : Nat) (e : DirEntry) : Verzeichnis :=
  if gid < v.directory.len then { v with directory := v.directory.set gid e } else v

theorem Verzeichnis.get_store {v : Verzeichnis} {gid : Nat} {e e' : DirEntry}
    (h : (v.store gid e).directory.get gid = some e') : e' = e := by
  unfold store at h
  split at h
  · next hgid => simpa [Slab.get, hgid, eq_comm] using h
  · next hgid => simp [Slab.get, hgid] at h

def Verzeichnis.releaseGid (v : Verzeichnis) (gid : Nat) : Verzeichnis :=
  { v with gidFree := v.gidFree.free gid }

inductive FristBefund where
  | zukunft
  | freigeben
  | aufschieben
  | signalGewann
  deriving DecidableEq, Repr

/-- `frist_befund`: future before capacity before the race with the signal. -/
def fristBefund (jetzt frist : Nat) (grundNochDa ausgabeVoll : Bool) : FristBefund :=
  if jetzt < frist then .zukunft
  else if ausgabeVoll then .aufschieben
  else if !grundNochDa then .signalGewann
  else .freigeben

theorem fristBefund_spec (jetzt frist : Nat) (grundNochDa ausgabeVoll : Bool) :
    match fristBefund jetzt frist grundNochDa ausgabeVoll with
    | .zukunft => jetzt < frist
    | .aufschieben => frist ≤ jetzt ∧ ausgabeVoll = true
    | .signalGewann => frist ≤ jetzt ∧ ausgabeVoll = false ∧ grundNochDa = false
    | .freigeben => frist ≤ jetzt ∧ ausgabeVoll = false ∧ grundNochDa = true := by
  unfold fristBefund
  by_cases hfuture : jetzt < frist
  · simp only [if_pos hfuture]
    exact hfuture
  · simp only [if_neg hfuture]
    have hdue : frist ≤ jetzt := Nat.le_of_not_lt hfuture
    cases ausgabeVoll <;> cases grundNochDa <;> simp [hdue]

end Caprock.Sched
