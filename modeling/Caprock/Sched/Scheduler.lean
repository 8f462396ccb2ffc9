import Caprock.Lib.Run
import Caprock.Sched.Tcb

/-! # The scheduler of one core

A table of control blocks with one ready list per priority, a bitmap of the non-empty
lists, the running thread and a ring of ended threads.  Functions that look threads up
read the shared directory; those that create or end threads write it.

`none` as the outer result is a panic: no running thread, no ready thread left, an
invalid switch target or a priority without a list.  Where the source itself returns an
`Option`, that is said at the function.  Loops over the table are runs over its indices.
-/

namespace Caprock.Sched

open Execution

/-- The scheduler of one core.  Its clock `now` and the refill times are `u64` in the source and do
not wrap here, while a deadline stops at `2 ^ 64 - 1`: runs of `2 ^ 64` ticks are left out. -/
structure Scheduler where
  core : Nat
  tcbs : Slab Tcb
  free : FreeList
  current : Option Nat
  queues : Nat → ListHead
  /-- Bit `p` is set when list `p` is not empty. -/
  bitmap : BitVec 32
  zombies : Slab Zombie
  zhead : Nat
  ztail : Nat
  zcount : Nat
  now : Nat
  depletions : Nat
  refills : Nat
  used : Nat
  depletedCount : Nat
  fristenUeberlauf : Nat
  /-- The earliest deadline or an earlier time; `2 ^ 64 - 1` for none. -/
  naechsteFrist : Nat
  budgetBlockedCount : Nat
  migrationsOut : Nat
  migrationsIn : Nat

namespace Scheduler

/-- `new` and `attach_storage` for `capacity` threads. -/
def attached (core capacity : Nat) : Scheduler where
  core := core
  tcbs := Slab.attach capacity fun _ => Tcb.empty
  free := FreeList.attach capacity
  current := none
  queues := fun _ => ListHead.empty
  bitmap := 0
  zombies := Slab.attach capacity fun _ => Zombie.empty
  zhead := 0
  ztail := 0
  zcount := 0
  now := 0
  depletions := 0
  refills := 0
  used := 0
  depletedCount := 0
  fristenUeberlauf := 0
  naechsteFrist := 2 ^ 64 - 1
  budgetBlockedCount := 0
  migrationsOut := 0
  migrationsIn := 0

def tcb (s : Scheduler) (i : Nat) : Tcb := s.tcbs.cell i

def modifyTcb (s : Scheduler) (i : Nat) (f : Tcb → Tcb) : Scheduler :=
  { s with tcbs := s.tcbs.modify i f }

def setSp (s : Scheduler) (i v : Nat) : Scheduler := s.modifyTcb i fun t => { t with sp := v }

def setAdmitted (s : Scheduler) (i : Nat) : Scheduler :=
  s.modifyTcb i fun t => { t with admitted := true }

def setParkWake (s : Scheduler) (i : Nat) (v : Bool) : Scheduler :=
  s.modifyTcb i fun t => { t with parkWake := v }

def setFrist (s : Scheduler) (i frist : Nat) (grund : Option Grund) : Scheduler :=
  s.modifyTcb i fun t => { t with frist := frist, fristGrund := grund }

def setStack (s : Scheduler) (i base len : Nat) : Scheduler :=
  s.modifyTcb i fun t => { t with stackBase := base, stackLen := len }

def setScDonor (s : Scheduler) (i : Nat) (v : Option Nat) : Scheduler :=
  s.modifyTcb i fun t => { t with scDonor := v }

def setScDonee (s : Scheduler) (i : Nat) (v : Option Nat) : Scheduler :=
  s.modifyTcb i fun t => { t with scDonee := v }

def setRemaining (s : Scheduler) (i v : Nat) : Scheduler :=
  s.modifyTcb i fun t => { t with remaining := v }

def insertReason (s : Scheduler) (i : Nat) (g : Grund) : Scheduler :=
  s.modifyTcb i fun t => { t with reasons := insert g t.reasons }

def removeReason (s : Scheduler) (i : Nat) (g : Grund) : Scheduler :=
  s.modifyTcb i fun t => { t with reasons := t.reasons.erase g }

def setCurrent (s : Scheduler) (i : Nat) : Scheduler := { s with current := some i }

def modifyQueue (s : Scheduler) (p : Nat) (f : ListHead → ListHead) : Scheduler :=
  { s with queues := Function.update s.queues p (f (s.queues p)) }

/-- The handle of the thread in slot `i`. -/
def id (s : Scheduler) (i : Nat) : ThreadId := ⟨(s.tcb i).gid, (s.tcb i).gen⟩

/-- The slot of a thread on this core; `none` when it ended or moved away. -/
def resolve (s : Scheduler) (v : Verzeichnis) (tid : ThreadId) : Option Nat :=
  match v.directory.get tid.slot with
  | none => none
  | some e =>
      if e.used = false then none
      else if e.gen ≠ tid.gen then none
      else if e.core ≠ s.core then none
      else
        match s.tcbs.get e.lokal with
        | none => none
        | some t => if t.used = true ∧ t.gen = tid.gen then some e.lokal else none

/-- Link a thread at the end of the list of its priority, unless it is linked already. -/
def enqueueReady (s : Scheduler) (i : Nat) : Option Scheduler :=
  match (s.tcb i).queued with
  | some _ => some s
  | none =>
      let p := (s.tcb i).priority
      if nprio ≤ p then none
      else
        let tail := (s.queues p).tail
        let s := s.modifyTcb i fun t => { t with qprev := tail, qnext := none, queued := some p }
        let s :=
          match tail with
          | none => s.modifyQueue p fun q => { q with head := some i }
          | some l => s.modifyTcb l fun t => { t with qnext := some i }
        let s := s.modifyQueue p fun q => { q with tail := some i, count := q.count + 1 }
        some { s with bitmap := s.bitmap ||| BitVec.twoPow 32 p }

/-- Link the neighbours `prev` and `next` of a thread in list `p` with each other. -/
def umgehen (s : Scheduler) (p : Nat) (prev next : Option Nat) : Scheduler :=
  let s :=
    match prev with
    | none => s.modifyQueue p fun q => { q with head := next }
    | some v => s.modifyTcb v fun t => { t with qnext := next }
  match next with
  | none => s.modifyQueue p fun q => { q with tail := prev }
  | some n => s.modifyTcb n fun t => { t with qprev := prev }

def removeFromReady (s : Scheduler) (i : Nat) : Scheduler :=
  match (s.tcb i).queued with
  | none => s
  | some p =>
      let s := s.umgehen p (s.tcb i).qprev (s.tcb i).qnext
      let s := s.modifyTcb i fun t => { t with qnext := none, qprev := none, queued := none }
      let s := s.modifyQueue p fun q => { q with count := q.count - 1 }
      { s with
        bitmap := if (s.queues p).count = 0 then s.bitmap &&& ~~~ BitVec.twoPow 32 p else s.bitmap }

/-- The first thread of the highest non-empty list; `31 - leading_zeros` is the binary
logarithm. -/
def hoechster (s : Scheduler) : Option Nat :=
  if s.bitmap = 0 then none else (s.queues (Nat.log2 s.bitmap.toNat)).head

/-- Take that thread out; the source's `None` when no thread is ready. -/
def dequeueHighest (s : Scheduler) : Option (Nat × Scheduler) :=
  match s.hoechster with
  | none => none
  | some i => some (i, s.removeFromReady i)

/-- Dispatch the next ready thread and return its stack pointer. -/
def wechseln (s : Scheduler) : Option (Nat × Scheduler) :=
  match s.dequeueHighest with
  | none => none
  | some (next, s) => some ((s.tcb next).sp, s.setCurrent next)

/-- The way back into the ready lists: only without a reason, with budget, not running. -/
def weckeFallsLauffaehig (s : Scheduler) (i : Nat) : Option Scheduler :=
  if (s.tcb i).reasons = ∅ ∧ (s.tcb i).depleted = false ∧ s.current ≠ some i then
    s.enqueueReady i
  else some s

/-- The counter moves only when the reason really changes. -/
def setBudgetBlocked (s : Scheduler) (i : Nat) (an : Bool) : Scheduler :=
  if decide (Grund.budget ∈ (s.tcb i).reasons) = an then s
  else if an then
    { s.insertReason i .budget with budgetBlockedCount := s.budgetBlockedCount + 1 }
  else
    { s.removeReason i .budget with budgetBlockedCount := s.budgetBlockedCount - 1 }

def publishDir (s : Scheduler) (v : Verzeichnis) (i : Nat) : Verzeichnis :=
  v.store (s.tcb i).gid (packDir true (s.tcb i).gen s.core i)

/-- Thread `t` takes slot `i`. -/
def belegen (s : Scheduler) (i : Nat) (free : FreeList) (t : Tcb) : Scheduler :=
  { s with free := free, tcbs := s.tcbs.set i t, used := s.used + 1 }

/-- Take a free slot and a free `gid`.  The source's `None` when either is missing; what
was taken is then given back. -/
def allocTcb (s : Scheduler) (v : Verzeichnis) (sp priority : Nat) :
    Option (Nat × Scheduler × Verzeichnis) :=
  match s.free.alloc with
  | none => none
  | some (i, free) =>
      match v.gidFree.alloc with
      | none => none
      | some (gid, gidFree) =>
          match v.directory.get gid with
          | none => none
          | some e =>
              let s := s.belegen i free (Tcb.neu gid e.gen sp priority)
              some (i, s, s.publishDir { v with gidFree := gidFree } i)

/-- The boot context becomes the idle thread; the source's `None` without a free slot. -/
def initCore (s : Scheduler) (v : Verzeichnis) (priority : Nat) :
    Option (Nat × Scheduler × Verzeichnis) :=
  match s.allocTcb v 0 priority with
  | none => none
  | some (idle, s, v) => some (idle, s.setCurrent idle, v)

/-- Create a thread that may not run yet.  `sp` is what `init_thread_frame` returns. -/
def spawnParked (s : Scheduler) (v : Verzeichnis) (sp stackBase stackLen priority : Nat) :
    Option (Nat × Scheduler × Verzeichnis) :=
  match s.allocTcb v sp priority with
  | none => none
  | some (t, s, v) => some (t, s.setStack t stackBase stackLen, v)

/-- The region that is freed at the thread's end is given apart from the stack. -/
def spawnUserAtParked (s : Scheduler) (v : Verzeichnis) (sp reapBase reapLen priority : Nat) :
    Option (Nat × Scheduler × Verzeichnis) :=
  s.spawnParked v sp reapBase reapLen priority

/-- `admit`: let a thread run from here on. -/
def admitThread (s : Scheduler) (v : Verzeichnis) (tid : ThreadId) : Option (Bool × Scheduler) :=
  match s.resolve v tid with
  | none => some (false, s)
  | some t =>
      ((s.setAdmitted t).enqueueReady t).map fun s => (true, s)

/-- Release one borrower of the account of `i`, and wake it if only that account held it. -/
def spendeLoesen (i : Nat) (s : Scheduler) (d : Nat) : Option Scheduler :=
  if d ≠ i ∧ (s.tcb d).used = true ∧ (s.tcb d).scDonor = some i then
    let s := s.setScDonor d none
    if Grund.budget ∈ (s.tcb d).reasons then
      (s.setBudgetBlocked d false).weckeFallsLauffaehig d
    else some s
  else some s

def zombieAblegen (s : Scheduler) (z : Zombie) : Scheduler :=
  if s.zcount < s.zombies.len then
    { s with
      zombies := s.zombies.set s.ztail z
      ztail := (s.ztail + 1) % s.zombies.len
      zcount := s.zcount + 1 }
  else s

/-- Free slot `i`; the counters follow the flags of the thread that leaves. -/
def slotLeeren (s : Scheduler) (i : Nat) : Scheduler :=
  { s with
    depletedCount := if (s.tcb i).depleted then s.depletedCount - 1 else s.depletedCount
    budgetBlockedCount :=
      if Grund.budget ∈ (s.tcb i).reasons then s.budgetBlockedCount - 1 else s.budgetBlockedCount
    tcbs := s.tcbs.set i Tcb.empty
    free := s.free.free i
    used := s.used - 1 }

/-- Clear the entry of the account that names `i` as its borrower. -/
def doneeAustragen (s : Scheduler) (i : Nat) : Scheduler :=
  match (s.tcb i).scDonor with
  | none => s
  | some a =>
      if (s.tcb a).scDonee = some i then s.setScDonee a none else s

/-- End a thread: loosen its donations, free its slot, invalidate its handle. -/
def recordZombie (s : Scheduler) (v : Verzeichnis) (i : Nat) : Option (Scheduler × Verzeichnis) :=
  match run (spendeLoesen i) s (List.range s.tcbs.len) with
  | none => none
  | some s =>
      let s := (s.doneeAustragen i).removeFromReady i
      let t := s.tcb i
      let v := v.store t.gid (packDir false (t.gen + 1) 0 0)
      some ((s.slotLeeren i).zombieAblegen ⟨t.stackBase, t.stackLen, t.gid⟩, v)

/-- The running thread ends; the next stack pointer. -/
def exitCurrent (s : Scheduler) (v : Verzeichnis) : Option (Nat × Scheduler × Verzeichnis) :=
  match s.current with
  | none => none
  | some cur =>
      match s.recordZombie v cur with
      | none => none
      | some (s, v) => s.wechseln.map fun r => (r.1, r.2, v)

def kill (s : Scheduler) (v : Verzeichnis) (tid : ThreadId) :
    Option (Bool × Scheduler × Verzeichnis) :=
  match s.resolve v tid with
  | none => some (false, s, v)
  | some i =>
      if s.current = some i then some (false, s, v)
      else ((s.removeFromReady i).recordZombie v i).map fun r => (true, r.1, r.2)

/-- Collect an ended thread; the source's `None` when there is none. -/
def reap (s : Scheduler) : Option (Zombie × Scheduler) :=
  if s.zcount = 0 then none
  else some (s.zombies.cell s.zhead,
    { s with zhead := (s.zhead + 1) % s.zombies.len, zcount := s.zcount - 1 })

theorem reap_eq_some {s s' : Scheduler} {z : Zombie} (h : s.reap = some (z, s')) :
    s.zcount ≠ 0 ∧ z = s.zombies.cell s.zhead ∧
      s' = { s with zhead := (s.zhead + 1) % s.zombies.len, zcount := s.zcount - 1 } := by
  unfold reap at h
  split at h
  · cases h
  · next hcount =>
    cases h
    exact ⟨hcount, rfl, rfl⟩

/-- `spawn` and `spawn_user_at`: create a thread and let it run at once. -/
def spawn (s : Scheduler) (v : Verzeichnis) (sp stackBase stackLen priority : Nat) :
    Option (Option ThreadId × Scheduler × Verzeichnis) :=
  match s.spawnParked v sp stackBase stackLen priority with
  | none => some (none, s, v)
  | some (t, s, v) => (s.admitThread v (s.id t)).map fun r => (some (s.id t), r.2, v)

/-- Save the frame of a running thread and hold it for a reason. -/
def blockieren (s : Scheduler) (cur frame : Nat) (grund : Grund) : Scheduler :=
  (s.setSp cur frame).insertReason cur grund

/-- Block the running thread for a reason and dispatch the next one. -/
def blockCurrentMit (s : Scheduler) (frame : Nat) (grund : Grund) : Option (Nat × Scheduler) :=
  match s.current with
  | none => none
  | some cur =>
      (s.blockieren cur frame grund).wechseln

def blockCurrent (s : Scheduler) (frame : Nat) : Option (Nat × Scheduler) :=
  s.blockCurrentMit frame .ipc

def blockForHandler (s : Scheduler) (frame : Nat) : Option (Nat × Scheduler) :=
  s.blockCurrentMit frame .handler

def blockForLoad (s : Scheduler) (frame : Nat) : Option (Nat × Scheduler) :=
  s.blockCurrentMit frame .load

/-- Park the running thread, unless a wake mark is there: it is used up and the thread
goes on. -/
def parkCurrent (s : Scheduler) (frame : Nat) : Option (Option Nat × Scheduler) :=
  match s.current with
  | none => none
  | some cur =>
      if (s.tcb cur).parkWake then
        some (none, s.setParkWake cur false)
      else (s.blockCurrentMit frame .park).map fun r => (some r.1, r.2)

/-- Lend an account to thread `t`. -/
def verleihen (s : Scheduler) (t account : Nat) : Scheduler :=
  (s.setScDonor t (some account)).setScDonee account (some t)

/-- Block the running thread and run `target`, which is lent the account.  A target that
is held for another reason only gets its message. -/
def switchTo (s : Scheduler) (v : Verzeichnis) (frame : Nat) (target : ThreadId) :
    Option (Nat × Scheduler) :=
  match s.current with
  | none => none
  | some cur =>
      let s := s.blockieren cur frame .ipc
      match s.resolve v target with
      | none => none
      | some t =>
          let s := s.removeReason t .ipc
          if (s.tcb t).reasons ≠ ∅ then s.wechseln
          else
            let s := s.removeFromReady t
            let account := (s.tcb cur).scDonor.getD cur
            let s := s.verleihen t account
            some ((s.tcb t).sp, s.setCurrent t)

def grundAufheben (s : Scheduler) (v : Verzeichnis) (tid : ThreadId) (g : Grund) :
    Option (Bool × Scheduler) :=
  match s.resolve v tid with
  | none => some (false, s)
  | some i => ((s.removeReason i g).weckeFallsLauffaehig i).map fun s => (true, s)

def resume (s : Scheduler) (v : Verzeichnis) (tid : ThreadId) : Option (Bool × Scheduler) :=
  s.grundAufheben v tid .pause

def handlerReply (s : Scheduler) (v : Verzeichnis) (tid : ThreadId) : Option (Bool × Scheduler) :=
  s.grundAufheben v tid .handler

def loadReply (s : Scheduler) (v : Verzeichnis) (tid : ThreadId) : Option (Bool × Scheduler) :=
  s.grundAufheben v tid .load

def gesetztenGrundAufheben (s : Scheduler) (v : Verzeichnis) (tid : ThreadId) (g : Grund) :
    Option (Bool × Scheduler) :=
  match s.resolve v tid with
  | none => some (false, s)
  | some i =>
      if g ∈ (s.tcb i).reasons then s.grundAufheben v tid g else some (false, s)

def debugContinue (s : Scheduler) (v : Verzeichnis) (tid : ThreadId) :
    Option (Bool × Scheduler) :=
  s.gesetztenGrundAufheben v tid .debug

def thawGroup (s : Scheduler) (v : Verzeichnis) (tid : ThreadId) : Option (Bool × Scheduler) :=
  s.gesetztenGrundAufheben v tid .freeze

/-- Hold a thread from outside: the reason is set and the thread leaves its list. -/
def anhalten (s : Scheduler) (v : Verzeichnis) (tid : ThreadId) (g : Grund) : Bool × Scheduler :=
  match s.resolve v tid with
  | none => (false, s)
  | some i => (true, (s.insertReason i g).removeFromReady i)

def pause (s : Scheduler) (v : Verzeichnis) (tid : ThreadId) : Bool × Scheduler :=
  s.anhalten v tid .pause

def markHandlerWait (s : Scheduler) (v : Verzeichnis) (tid : ThreadId) : Bool × Scheduler :=
  s.anhalten v tid .handler

def einmalAnhalten (s : Scheduler) (v : Verzeichnis) (tid : ThreadId) (g : Grund) :
    Bool × Scheduler :=
  match s.resolve v tid with
  | none => (false, s)
  | some i => if g ∈ (s.tcb i).reasons then (false, s) else s.anhalten v tid g

def debugStop (s : Scheduler) (v : Verzeichnis) (tid : ThreadId) : Bool × Scheduler :=
  s.einmalAnhalten v tid .debug

def freezeGroup (s : Scheduler) (v : Verzeichnis) (tid : ThreadId) : Bool × Scheduler :=
  s.einmalAnhalten v tid .freeze

/-- Remove the IPC reason, and it alone.  On an empty borrowed account the budget reason
takes its place. -/
def unblock (s : Scheduler) (v : Verzeichnis) (tid : ThreadId) : Option (Bool × Scheduler) :=
  match s.resolve v tid with
  | none => some (false, s)
  | some i =>
      if (s.tcb i).reasons = ∅ then some (true, s)
      else
        let acct := (s.tcb i).scDonor.getD i
        if acct ≠ i ∧ (s.tcb acct).depleted = true then
          some (true, (s.removeReason i .ipc).setBudgetBlocked i true)
        else
          let s := s.removeReason i .ipc
          if (s.tcb i).reasons = ∅ ∧ (s.tcb i).depleted = false then
            (s.enqueueReady i).map fun s => (true, s)
          else some (true, s)

/-- The mark is set in any case, and used up at once by a thread that sleeps. -/
def unpark (s : Scheduler) (v : Verzeichnis) (tid : ThreadId) : Option (Bool × Scheduler) :=
  match s.resolve v tid with
  | none => some (false, s)
  | some i =>
      let s := s.setParkWake i true
      if Grund.park ∈ (s.tcb i).reasons then
        let s := s.setParkWake i false
        ((s.removeReason i .park).weckeFallsLauffaehig i).map fun s => (true, s)
      else some (true, s)

/-- One slot of `debug_release_pd`. -/
def debugFreigeben (pdOf : ThreadId → Option Nat) (pd : Nat) (r : Nat × Scheduler) (i : Nat) :
    Option (Nat × Scheduler) :=
  if (r.2.tcb i).used = false ∨ Grund.debug ∉ (r.2.tcb i).reasons then some r
  else if pdOf (r.2.id i) ≠ some pd then some r
  else ((r.2.removeReason i .debug).weckeFallsLauffaehig i).map fun s => (r.1 + 1, s)

/-- Release all threads of a domain that are held for a debugger, with their number. -/
def debugReleasePd (s : Scheduler) (pdOf : ThreadId → Option Nat) (pd : Nat) :
    Option (Nat × Scheduler) :=
  run (debugFreigeben pdOf pd) (0, s) (List.range s.tcbs.len)

/-- Arm a deadline of the running thread, `ticks` from now; `0` disarms. -/
def fristSetzen (s : Scheduler) (ticks : Nat) (grund : Grund) : Option Scheduler :=
  match s.current with
  | none => none
  | some cur =>
      if ticks = 0 then
        some (s.setFrist cur 0 none)
      else
        let d := min (s.now + ticks) (2 ^ 64 - 1)
        some { s.setFrist cur d (some grund) with naechsteFrist := min d s.naechsteFrist }

def fristEntwaffnen (s : Scheduler) (i : Nat) : Scheduler := s.setFrist i 0 none

def fristLoeschen (s : Scheduler) (v : Verzeichnis) (tid : ThreadId) : Scheduler :=
  match s.resolve v tid with
  | none => s
  | some i => s.fristEntwaffnen i

/-- State of the deadline scan: the scheduler, the next deadline, the released threads. -/
structure FristLauf where
  sched : Scheduler
  naechste : Nat
  out : List ThreadId

/-- The effect of a deadline that releases its thread from reason `g`. -/
def fristFreigeben (s : Scheduler) (i : Nat) (g : Grund) : Option Scheduler :=
  let s := (s.fristEntwaffnen i).removeReason i g
  if (s.tcb i).reasons = ∅ ∧ (s.tcb i).queued = none then s.enqueueReady i else some s

def fristSchritt (outLen : Nat) (l : FristLauf) (i : Nat) : Option FristLauf :=
  let t := l.sched.tcb i
  if t.used = false ∨ t.frist = 0 then some l
  else
    match fristBefund l.sched.now t.frist t.fristGrundSteht (l.out.length = outLen) with
    | .zukunft => some { l with naechste := min t.frist l.naechste }
    | .aufschieben =>
        some { l with
          naechste := min t.frist l.naechste
          sched := { l.sched with fristenUeberlauf := l.sched.fristenUeberlauf + 1 } }
    | .signalGewann => some { l with sched := l.sched.fristEntwaffnen i }
    | .freigeben =>
        match t.fristGrund with
        | none => some { l with sched := l.sched.fristEntwaffnen i }
        | some g =>
            (l.sched.fristFreigeben i g).map fun s =>
              { l with sched := s, out := l.out ++ [l.sched.id i] }

/-- Release the threads whose deadline is due, at most `outLen` of them. -/
def fristenFaellig (s : Scheduler) (outLen : Nat) : Option (List ThreadId × Scheduler) :=
  if s.now < s.naechsteFrist then some ([], s)
  else
    (run (fristSchritt outLen) ⟨s, 2 ^ 64 - 1, []⟩ (List.range s.tcbs.len)).map fun l =>
      (l.out, { l.sched with naechsteFrist := l.naechste })

/-- Wake `d` if it is held for the empty account of `konto`. -/
def budgetWecken (konto : Nat) (s : Scheduler) (d : Nat) : Option Scheduler :=
  if d ≠ konto ∧ (s.tcb d).used = true ∧ Grund.budget ∈ (s.tcb d).reasons ∧
      (s.tcb d).scDonor = some konto then
    (s.setBudgetBlocked d false).weckeFallsLauffaehig d
  else some s

/-- The wake scan of an account, skipped while nobody is held for a budget. -/
def weckelauf (s : Scheduler) (konto : Nat) : Option Scheduler :=
  if 0 < s.budgetBlockedCount then run (budgetWecken konto) s (List.range s.tcbs.len) else some s

/-- Is the account of slot `i` exhausted and its period over? -/
def refillFaellig (s : Scheduler) (i : Nat) : Prop :=
  (s.tcb i).used = true ∧ 0 < (s.tcb i).budget ∧ (s.tcb i).depleted = true ∧
    (s.tcb i).nextRefill ≤ s.now

instance (s : Scheduler) (i : Nat) : Decidable (s.refillFaellig i) :=
  inferInstanceAs (Decidable ((s.tcb i).used = true ∧ 0 < (s.tcb i).budget ∧
    (s.tcb i).depleted = true ∧ (s.tcb i).nextRefill ≤ s.now))

/-- The account of slot `i` is full again. -/
def auffuellen (s : Scheduler) (i : Nat) : Scheduler :=
  { s.modifyTcb i fun t => { t with remaining := t.budget, depleted := false } with
    depletedCount := s.depletedCount - 1
    refills := s.refills + 1 }

/-- The owner of a refilled account is woken, but not while another thread is recorded as
its borrower: that one was woken by the scan, if it waited. -/
def besitzerWecken (s : Scheduler) (i : Nat) : Option Scheduler :=
  match (s.tcb i).scDonee with
  | some d =>
      if d ≠ i then some s
      else if s.current ≠ some i then s.weckeFallsLauffaehig i
      else some s
  | none => if s.current ≠ some i then s.weckeFallsLauffaehig i else some s

def refillSlot (s : Scheduler) (i : Nat) : Option Scheduler :=
  if s.refillFaellig i then
    match (s.auffuellen i).weckelauf i with
    | none => none
    | some s => s.besitzerWecken i
  else some s

def refillDepleted (s : Scheduler) : Option Scheduler :=
  run refillSlot s (List.range s.tcbs.len)

/-- A new budget with a new period; an exhausted account is no longer counted. -/
def budgetEintragen (s : Scheduler) (i budget period : Nat) : Scheduler :=
  { s.modifyTcb i fun t =>
      { t with budget := budget, period := max period 1, remaining := budget,
               nextRefill := s.now + period, depleted := false } with
    depletedCount := if (s.tcb i).depleted then s.depletedCount - 1 else s.depletedCount }

/-- Give a thread `budget` ticks per period; an exhausted one is ready again. -/
def setBudget (s : Scheduler) (v : Verzeichnis) (tid : ThreadId) (budget period : Nat) :
    Option (Bool × Scheduler) :=
  match s.resolve v tid with
  | none => some (false, s)
  | some i =>
      if (s.tcb i).depleted then
        match (s.budgetEintragen i budget period).weckelauf i with
        | none => none
        | some s =>
            if s.current ≠ some i then (s.weckeFallsLauffaehig i).map fun s => (true, s)
            else some (true, s)
      else some (true, s.budgetEintragen i budget period)

def endDonation (s : Scheduler) : Scheduler :=
  match s.current with
  | none => s
  | some cur =>
      (s.doneeAustragen cur).setScDonor cur none

def tickAnfang (s : Scheduler) (tick : Bool) : Option Scheduler :=
  if tick then
    let s := { s with now := s.now + 1 }
    if 0 < s.depletedCount then s.refillDepleted else some s
  else some s

/-- The account the thread in slot `i` is charged to. -/
def konto (s : Scheduler) (i : Nat) : Nat := (s.tcb i).scDonor.getD i

/-- Does this tick use up the account the running thread is charged to? -/
def erschoepft (s : Scheduler) (cur : Nat) (tick : Bool) : Prop :=
  tick = true ∧ 0 < (s.tcb (s.konto cur)).budget ∧ (s.tcb (s.konto cur)).remaining ≤ 1

instance (s : Scheduler) (cur : Nat) (tick : Bool) : Decidable (s.erschoepft cur tick) :=
  inferInstanceAs (Decidable (tick = true ∧ 0 < (s.tcb (s.konto cur)).budget ∧
    (s.tcb (s.konto cur)).remaining ≤ 1))

/-- The account of slot `acct` is empty until its refill. -/
def erschoepfen (s : Scheduler) (acct : Nat) : Scheduler :=
  { s.modifyTcb acct fun t =>
      { t with remaining := 0, depleted := true, nextRefill := s.now + t.period } with
    depletedCount := s.depletedCount + 1
    depletions := s.depletions + 1 }

/-- Charge the account of the running thread; an exhausted account waits for its refill,
and with it a thread that borrowed it. -/
def belasten (s : Scheduler) (cur : Nat) (tick : Bool) : Scheduler :=
  let acct := s.konto cur
  if s.erschoepft cur tick then
    if acct ≠ cur then (s.erschoepfen acct).setBudgetBlocked cur true else s.erschoepfen acct
  else if tick = true ∧ 0 < (s.tcb acct).budget then
    s.setRemaining acct ((s.tcb acct).remaining - 1)
  else s

/-- Save the frame of the running thread, charge it and link it again if it may run. -/
def zurueckreihen (s : Scheduler) (frame : Nat) (tick : Bool) : Option Scheduler :=
  match s.current with
  | none => some s
  | some cur =>
      let s := s.setSp cur frame
      if (s.tcb cur).reasons = ∅ ∧ ¬ s.erschoepft cur tick then
        (s.belasten cur tick).enqueueReady cur
      else some (s.belasten cur tick)

/-- Timer tick or yield (`tick = false`): round robin to the next thread. -/
def onTick (s : Scheduler) (frame : Nat) (tick : Bool) : Option (Nat × Scheduler) :=
  match s.tickAnfang tick with
  | none => none
  | some s =>
      match s.zurueckreihen frame tick with
      | none => none
      | some s =>
          match s.dequeueHighest with
          | none => some (frame, s)
          | some (next, s) => some ((s.tcb next).sp, s.setCurrent next)

def abschied (t : Tcb) : Tcb := { t with queued := none, qnext := none, qprev := none }

/-- Take a thread off this core; the source's `None` for a thread that may not leave. -/
def detachForMigration (s : Scheduler) (v : Verzeichnis) (tid : ThreadId) :
    Option (Migrant × Scheduler) :=
  match s.resolve v tid with
  | none => none
  | some i =>
      let t := s.tcb i
      if s.current = some i then none
      else if t.scDonor.isSome ∨ t.scDonee.isSome then none
      else if Grund.debug ∈ t.reasons ∨ Grund.freeze ∈ t.reasons then none
      else
        let s := s.removeFromReady i
        some (⟨abschied (s.tcb i), t.queued.isSome⟩,
          { s.slotLeeren i with migrationsOut := s.migrationsOut + 1 })

/-- An exhausted budget is refilled by the clock of the new core. -/
def ankunft (s : Scheduler) (t : Tcb) : Tcb :=
  { t with
    nextRefill := if t.depleted then s.now + t.period else t.nextRefill
    queued := none, qnext := none, qprev := none }

/-- Take a thread up; the counters follow its flags. -/
def aufnehmen (s : Scheduler) (i : Nat) (free : FreeList) (t : Tcb) : Scheduler :=
  { s.belegen i free t with
    depletedCount := if t.depleted then s.depletedCount + 1 else s.depletedCount
    budgetBlockedCount :=
      if Grund.budget ∈ t.reasons then s.budgetBlockedCount + 1 else s.budgetBlockedCount
    migrationsIn := s.migrationsIn + 1 }

/-- Take a thread up on this core; without a free slot the token is handed back. -/
def attachMigrated (s : Scheduler) (v : Verzeichnis) (m : Migrant) :
    Option (Except Migrant (Scheduler × Verzeichnis)) :=
  match s.free.alloc with
  | none => some (.error m)
  | some (i, free) =>
      let s := s.aufnehmen i free (s.ankunft m.tcb)
      let v := s.publishDir v i
      if m.wasReady then (s.enqueueReady i).map fun s => .ok (s, v) else some (.ok (s, v))

end Scheduler

end Caprock.Sched
