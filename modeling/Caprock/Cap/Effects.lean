import Caprock.Cap.Tree

/-! # What deletions do outside the space

A deletion reports a control right, and with the last reference to an object it hands
back a region or reports the object.  The functions here list these effects in their
order, each with the entry of the object it comes from; the list accounts for all that
happens to the allocator and to the report.
-/

namespace Caprock.Cap

open Mem

/-- An effect of a deletion outside the space. -/
inductive Wirkung where
  | frei (region : PhysRegion)
  | dma (phys len : Nat)
  | reply (ep caller : Nat)
  | debug (pd : Nat)
  deriving DecidableEq, Repr

namespace Wirkung

def ausfuehren (st : PhysAllocator × Finalized) : Wirkung → PhysAllocator × Finalized
  | .frei region => ((st.1.freeRegion region).2, st.2)
  | .dma phys len => (st.1, st.2.pushDma phys len)
  | .reply ep caller => (st.1, st.2.push ep caller)
  | .debug pd => (st.1, st.2.pushDebug pd)

/-- The report of a control right, as opposed to the end of an object. -/
def istDebug : Wirkung → Bool
  | .debug _ => true
  | _ => false

end Wirkung

def ObjectKind.istDebuggable : ObjectKind → Bool
  | .debuggable _ => true
  | _ => false

def abschluss : ObjectKind → List Wirkung
  | .memory region => [.frei region]
  | .dma phys len _ _ => [.dma phys len]
  | .reply ep caller => [.reply ep caller]
  | _ => []

theorem istDebug_of_mem_abschluss {kind : ObjectKind} {w : Wirkung} (h : w ∈ abschluss kind) :
    w.istDebug = false := by
  cases kind with
  | memory | dma | reply =>
    obtain rfl := List.mem_singleton.mp h
    rfl
  | _ => exact absurd h List.not_mem_nil

abbrev Protokoll := List (Nat × Wirkung)

def Protokoll.ausfuehren (log : Protokoll) (st : PhysAllocator × Finalized) :
    PhysAllocator × Finalized :=
  log.foldl (fun st e => e.2.ausfuehren st) st

theorem Protokoll.ausfuehren_append (log log' : Protokoll) (st : PhysAllocator × Finalized) :
    Protokoll.ausfuehren (log ++ log') st = Protokoll.ausfuehren log' (Protokoll.ausfuehren log st) :=
  List.foldl_append ..

namespace CapSpace

/-- A derived slot with the right to control a debugged domain. -/
def Steuerrecht (s : CapSpace) (x : Nat) : Prop :=
  (s.objects.cell (s.slots.cell x).object).kind.istDebuggable = true ∧
    (s.slots.cell x).rights.contains Rights.write = true ∧ (s.parent x).isSome = true

instance (s : CapSpace) (x : Nat) : Decidable (s.Steuerrecht x) :=
  inferInstanceAs (Decidable (_ ∧ _))

/-- The report of `debugMelden`. -/
def debugMeldung (s : CapSpace) (x : Nat) : List Wirkung :=
  match (s.objects.cell (s.slots.cell x).object).kind with
  | .debuggable pd =>
      if (s.slots.cell x).rights.contains Rights.write && (s.parent x).isSome then [.debug pd]
      else []
  | _ => []

/-- The effects of the deletion of leaf `x`. -/
def blattWirkungen (s : CapSpace) (x : Nat) : Protokoll :=
  let obj := (s.slots.cell x).object
  (s.debugMeldung x ++
    if ((s.objects.cell obj).refcount + (2 ^ 32 - 1)) % 2 ^ 32 = 0 then
      abschluss (s.objects.cell obj).kind
    else []).map fun w => (obj, w)

end CapSpace

namespace Abbau

/-- What lies outside the space: the allocator and the report. -/
def aussen (a : Abbau) : PhysAllocator × Finalized := (a.alloc, a.rf)

/-- The effects of `delete`. -/
def deleteWirkungen (a : Abbau) (p : CapPtr) : Protokoll :=
  match a.caps.resolve p with
  | .error _ => []
  | .ok slot => if (a.caps.firstChild slot).isSome then [] else a.caps.blattWirkungen slot

def schleifenWirkungen (slot limit : Nat) : Nat → Abbau → Protokoll
  | n, a =>
      match a.caps.firstChild slot with
      | none => []
      | some child =>
          match CapSpace.descendToLeaf a.caps.slots limit 0 child with
          | none => []
          | some (leaf, steps) =>
              let a := { a with caps := a.caps.noteWalk steps }
              a.caps.blattWirkungen leaf ++
                match n with
                | 0 => []
                | n + 1 => schleifenWirkungen slot limit n (a.deleteLeaf leaf)

/-- The effects of `revoke`. -/
def revokeWirkungen (a : Abbau) (p : CapPtr) : Protokoll :=
  match a.caps.resolve p with
  | .error _ => []
  | .ok slot => schleifenWirkungen slot a.caps.cdtStepLimit a.caps.cdtStepLimit a

theorem aussen_debugMelden (a : Abbau) (x : Nat) :
    (a.debugMelden x).aussen = (a.caps.debugMeldung x).foldl Wirkung.ausfuehren a.aussen := by
  unfold debugMelden CapSpace.debugMeldung CapSpace.parent
  dsimp only
  cases (a.caps.objects.cell (a.caps.slots.cell x).object).kind with
  | debuggable pd =>
    dsimp only
    split <;> rfl
  | _ => rfl

theorem aussen_finalisieren (a : Abbau) (obj : Nat) :
    (a.finalisieren obj).aussen =
      (abschluss (a.caps.objects.cell obj).kind).foldl Wirkung.ausfuehren a.aussen := by
  unfold finalisieren abschluss
  cases (a.caps.objects.cell obj).kind <;> rfl

theorem aussen_deleteLeaf (a : Abbau) (x : Nat) :
    (a.deleteLeaf x).aussen = Protokoll.ausfuehren (a.caps.blattWirkungen x) a.aussen := by
  have hdebug := aussen_debugMelden a x
  have hcaps := caps_debugMelden a x
  unfold deleteLeaf CapSpace.blattWirkungen Protokoll.ausfuehren
  dsimp only
  rw [hcaps, List.foldl_map, List.foldl_append]
  set obj := (a.caps.slots.cell x).object
  set s := (a.caps.unlink x).releaseSlot x
  have hobjects : s.objects = a.caps.objects :=
    ((a.caps.sameTables_unlink x).trans (CapSpace.sameTables_releaseSlot _ x)).objects
  set a₁ : Abbau := { a.debugMelden x with
    caps := s.modifyObject obj fun o => { o with refcount := (o.refcount + (2 ^ 32 - 1)) % 2 ^ 32 } }
    with ha₁
  have hcell : a₁.caps.objects.cell obj = { a.caps.objects.cell obj with
      refcount := ((a.caps.objects.cell obj).refcount + (2 ^ 32 - 1)) % 2 ^ 32 } := by
    simp [ha₁, CapSpace.modifyObject, hobjects]
  have hrest : a₁.aussen = (a.debugMelden x).aussen := rfl
  rw [hcell]
  split
  · rw [aussen_finalisieren, hcell, hrest, hdebug]
  · rw [hrest, hdebug]
    rfl

theorem aussen_delete (a : Abbau) (p : CapPtr) :
    (a.delete p).2.aussen = Protokoll.ausfuehren (a.deleteWirkungen p) a.aussen := by
  unfold delete deleteWirkungen
  cases a.caps.resolve p with
  | error e => rfl
  | ok slot =>
    dsimp only
    split
    · rfl
    · exact aussen_deleteLeaf a slot

theorem aussen_revokeLoop (slot limit n ops : Nat) (a : Abbau) :
    (revokeLoop slot limit n ops a).2.aussen =
      Protokoll.ausfuehren (schleifenWirkungen slot limit n a) a.aussen := by
  induction n generalizing ops a with
  | zero =>
    rw [revokeLoop, schleifenWirkungen]
    cases a.caps.firstChild slot with
    | none => rfl
    | some child =>
      dsimp only
      cases CapSpace.descendToLeaf a.caps.slots limit 0 child with
      | none => rfl
      | some r =>
        obtain ⟨leaf, steps⟩ := r
        dsimp only
        rw [List.append_nil]
        exact aussen_deleteLeaf _ leaf
  | succ n ih =>
    rw [revokeLoop, schleifenWirkungen]
    cases a.caps.firstChild slot with
    | none => rfl
    | some child =>
      dsimp only
      cases CapSpace.descendToLeaf a.caps.slots limit 0 child with
      | none => rfl
      | some r =>
        obtain ⟨leaf, steps⟩ := r
        rw [ih, aussen_deleteLeaf, Protokoll.ausfuehren_append]
        rfl

theorem aussen_revoke (a : Abbau) (p : CapPtr) :
    (a.revoke p).2.aussen = Protokoll.ausfuehren (a.revokeWirkungen p) a.aussen := by
  unfold revoke revokeWirkungen
  cases a.caps.resolve p with
  | error e => rfl
  | ok slot => exact aussen_revokeLoop slot _ _ 0 a

end Abbau

end Caprock.Cap
