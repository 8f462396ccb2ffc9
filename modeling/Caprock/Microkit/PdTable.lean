import Caprock.Handle
import Caprock.Slab
import Caprock.Microkit.Cspace

/-! # The table of protection domains

`PdTable` holds one entry per protection domain and the pool in which all local
cspaces live.  The entries double as the anchor store of `Vergabe`: `cspaceStart`
and `cspaceLen` describe the run of a live domain, `freilaufNext` chains runs that
were given back.

Operations that can panic, or whose free-chain walk can fail to end, return an
outer `Option`.  Rejections that the source counts are counted here as well.
-/

namespace Caprock.Microkit

def npds : Nat := 10000

/-- `NCAPS`, the default number of places of a cspace. -/
def ncaps : Nat := standardPlaetze

def capBudgetPerPd : Nat := 10

def capBudgetMax : Nat := ncaps

def capSlotsForAllPds : Nat := npds * capBudgetPerPd

def grantRecvSlot : Nat := 1

def keinHandlerPd : Nat := 2 ^ 16 - 1

/-- Security domain of a protection domain. -/
inductive Domain where
  | trustedSas
  | hardwareLand
  | userLand
  deriving DecidableEq, Repr

/-- One entry of the table. -/
structure Pd where
  used : Bool
  thread : Option ThreadId
  nthreads : Nat
  epoch : Nat
  cspaceStart : Nat
  cspaceLen : Nat
  freilaufNext : Nat
  capBudget : Nat
  domain : Domain
  quiescing : Bool
  partner : Option Nat
  backendId : Nat
  chanEp : Nat
  chanNtfn : Nat
  irqNtfn : Nat
  recvSlot : Nat
  handlerPd : Nat
  handlerBound : Nat
  sidecarUsed : Nat
  deriving DecidableEq, Repr

def Pd.empty : Pd where
  used := false
  thread := none
  nthreads := 0
  epoch := 0
  cspaceStart := 0
  cspaceLen := 0
  freilaufNext := 0
  capBudget := capBudgetPerPd
  domain := .trustedSas
  quiescing := false
  partner := none
  backendId := 0
  chanEp := u32Max
  chanNtfn := u32Max
  irqNtfn := u32Max
  recvSlot := grantRecvSlot
  handlerPd := keinHandlerPd
  handlerBound := 0
  sidecarUsed := 0

instance : AnkerAblage (Slab Pd) where
  anzahl pds := pds.len
  lese pds i := (pds.get i).map fun p => ⟨p.cspaceStart, p.cspaceLen, p.freilaufNext⟩
  schreibe pds i a := pds.modify i fun p =>
    { p with cspaceStart := a.start, cspaceLen := a.len, freilaufNext := a.naechster }

/-- The table: entries, budget account, cspace pool and the pool's book-keeping. -/
structure PdTable where
  pds : Slab Pd
  budgetVorrat : Nat
  budgetAbgewiesen : Nat
  cspacePool : Slab (Option CapPtr)
  cspaceVergabe : Vergabe
  budgetDeckel : Nat
  deckelAbgewiesen : Nat
  cspaceAbgewiesen : Nat

def zaehle (n : Nat) : Nat := min (n + 1) (2 ^ 64 - 1)

namespace PdTable

/-- `PdTable::new` with the entry slab and the cspace pool attached. -/
def attached (npd npool : Nat) : PdTable where
  pds := Slab.attach npd fun _ => Pd.empty
  budgetVorrat := capSlotsForAllPds
  budgetAbgewiesen := 0
  cspacePool := Slab.attach npool fun _ => none
  cspaceVergabe := Vergabe.neu
  budgetDeckel := capBudgetMax
  deckelAbgewiesen := 0
  cspaceAbgewiesen := 0

def isUsed (t : PdTable) (pd : Nat) : Prop :=
  pd < t.pds.len ∧ (t.pds.cell pd).used = true

instance (t : PdTable) (pd : Nat) : Decidable (t.isUsed pd) :=
  inferInstanceAs (Decidable (_ ∧ _))

def freienSlotSuchen (t : PdTable) : Option Nat :=
  t.pds.position fun p => !p.used

def poolLen (t : PdTable) : Nat := min t.cspacePool.len u32Max

def createMitBudgetUndCspace (t : PdTable) (domain : Domain) (budget plaetze : Nat) :
    Option (Except CspaceAbweisung Nat × PdTable) :=
  match anforderungAufloesen budget plaetze t.budgetDeckel capBudgetPerPd with
  | .error e => some (.error e, { t with deckelAbgewiesen := zaehle t.deckelAbgewiesen })
  | .ok anf =>
      if t.budgetVorrat < anf.budget then
        some (.error (.vorratErschoepft anf.budget (min t.budgetVorrat u32Max)),
          { t with budgetAbgewiesen := zaehle t.budgetAbgewiesen })
      else
        match t.freienSlotSuchen with
        | none => some (.error .keinePdFrei, t)
        | some i =>
            match t.cspaceVergabe.belegen t.pds t.poolLen anf.plaetze with
            | none => none
            | some (.error e, v, pds) =>
                some (.error e, { t with
                  pds := pds
                  cspaceVergabe := v
                  cspaceAbgewiesen := zaehle t.cspaceAbgewiesen })
            | some (.ok (start, len), v, pds) =>
                some (.ok i, { t with
                  pds := pds.set i { Pd.empty with
                    used := true
                    domain := domain
                    epoch := (pds.cell i).epoch
                    capBudget := anf.budget % 2 ^ 16
                    cspaceStart := start
                    cspaceLen := len
                    freilaufNext := 0 }
                  cspaceVergabe := v
                  budgetVorrat := t.budgetVorrat - anf.budget })

/-- `create_hardware_backend`.  This path takes a default-sized run and books no budget. -/
def createHardwareBackend (t : PdTable) (partner backendId ep ntfn : Nat) :
    Option (Option Nat × PdTable) :=
  if t.pds.len ≤ partner then some (none, t)
  else
    match t.freienSlotSuchen with
    | none => some (none, t)
    | some i =>
        match t.cspaceVergabe.belegen t.pds t.poolLen ncaps with
        | none => none
        | some (.error _, v, pds) => some (none, { t with pds := pds, cspaceVergabe := v })
        | some (.ok (start, len), v, pds) =>
            some (some i, { t with
              pds := pds.set i { Pd.empty with
                used := true
                domain := .hardwareLand
                partner := some (partner % 2 ^ 16)
                backendId := backendId
                chanEp := ep
                chanNtfn := ntfn
                epoch := (pds.cell i).epoch
                cspaceStart := start
                cspaceLen := len
                freilaufNext := 0 }
              cspaceVergabe := v })

/-- Empty the places of a run, as far as they lie inside the pool. -/
def poolLeeren (pool : Slab (Option CapPtr)) (start len : Nat) : Slab (Option CapPtr) :=
  { pool with cell := fun k => if start ≤ k ∧ k < start + len then none else pool.cell k }

/-- `free`.  The run is chained first and the entry is reset to `Pd::EMPTY` afterwards. -/
def free (t : PdTable) (pd : Nat) : Option (Bool × PdTable) :=
  if t.isUsed pd then
    let p := t.pds.cell pd
    let e := (p.epoch + 1) % 2 ^ 32
    match t.cspaceVergabe.freigeben t.pds pd with
    | none => none
    | some (v, pds) =>
        some (true, { t with
          budgetVorrat := min (t.budgetVorrat + p.capBudget) capSlotsForAllPds
          cspacePool := poolLeeren t.cspacePool p.cspaceStart p.cspaceLen
          cspaceVergabe := v
          pds := pds.set pd { Pd.empty with epoch := e } })
  else some (false, t)

def setBudgetDeckel (t : PdTable) (deckel : Nat) : PdTable :=
  { t with budgetDeckel := deckel }

def budgetOf (t : PdTable) (pd : Nat) : Nat :=
  if t.isUsed pd then (t.pds.cell pd).capBudget else 0

def cspaceLenVon (t : PdTable) (pd : Nat) : Nat :=
  if t.isUsed pd then (t.pds.cell pd).cspaceLen else 0

def poolSchreiben (t : PdTable) (pd slot : Nat) (c : Option CapPtr) : PdTable :=
  if pd < t.pds.len ∧ slot < (t.pds.cell pd).cspaceLen then
    let idx := (t.pds.cell pd).cspaceStart + slot
    if idx < t.cspacePool.len then { t with cspacePool := t.cspacePool.set idx c } else t
  else t

theorem poolSchreiben_eq (t : PdTable) (pd slot : Nat) (c : Option CapPtr) :
    ∃ cell, t.poolSchreiben pd slot c =
      { t with cspacePool := ⟨t.cspacePool.len, cell⟩ } := by
  unfold poolSchreiben
  split
  · dsimp only
    split
    · exact ⟨_, rfl⟩
    · exact ⟨_, rfl⟩
  · exact ⟨_, rfl⟩

def installCap (t : PdTable) (pd slot : Nat) (cap : CapPtr) : PdTable :=
  t.poolSchreiben pd slot (some cap)

def clearCap (t : PdTable) (pd slot : Nat) : PdTable :=
  t.poolSchreiben pd slot none

/-- `cap_at`.  The speculation mask is the identity on an index below the bound. -/
def capAt (t : PdTable) (pd slot : Nat) : Option CapPtr :=
  if slot < t.cspaceLenVon pd then
    (t.cspacePool.get ((t.pds.cell pd).cspaceStart + slot)).bind id
  else none

def capCount (t : PdTable) (pd : Nat) : Nat :=
  if t.isUsed pd then
    (List.range (t.pds.cell pd).cspaceLen).countP fun k =>
      ((t.cspacePool.get ((t.pds.cell pd).cspaceStart + k)).bind id).isSome
  else 0

/-- `recv_slot`. -/
def recvSlotOf (t : PdTable) (pd : Nat) : Nat :=
  if t.isUsed pd then (t.pds.cell pd).recvSlot else grantRecvSlot

def domainOf (t : PdTable) (pd : Nat) : Option Domain :=
  if t.isUsed pd then some (t.pds.cell pd).domain else none

end PdTable

end Caprock.Microkit
