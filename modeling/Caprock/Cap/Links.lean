import Caprock.Cap.Space
import Caprock.Lib.Forest

/-! # What the operations do to links, slots and objects

The space is read through three views: the four link fields (`links`), a slot without
them (`daten`), and the object table.  Each internal helper gets one lemma per view;
the proofs about the tree use only these.
-/

namespace Caprock.Cap.CapSpace

open Mem LinkedList

def links (s : CapSpace) : Links Nat := ⟨s.parent, s.firstChild, s.nextSibling, s.prevSibling⟩

def daten (s : CapSpace) (i : Nat) : CapSlot := { s.slots.cell i with mdb := Mdb.empty }

def Used (s : CapSpace) (i : Nat) : Prop := (s.slots.cell i).used = true

theorem links_congr {s s' : CapSpace}
    (h : ∀ x, (s'.slots.cell x).mdb = (s.slots.cell x).mdb) : s'.links = s.links := by
  unfold links
  congr 1
  · exact funext fun x => congrArg Mdb.parent (h x)
  · exact funext fun x => congrArg Mdb.firstChild (h x)
  · exact funext fun x => congrArg Mdb.nextSibling (h x)
  · exact funext fun x => congrArg Mdb.prevSibling (h x)

theorem fields_of_daten {s s' : CapSpace} {x : Nat} (h : s'.daten x = s.daten x) :
    (s'.slots.cell x).gen = (s.slots.cell x).gen ∧
      (s'.slots.cell x).object = (s.slots.cell x).object ∧
      (s'.slots.cell x).rights = (s.slots.cell x).rights ∧
      (s'.slots.cell x).badge = (s.slots.cell x).badge ∧
      (s'.slots.cell x).subregion = (s.slots.cell x).subregion := by
  simp only [daten, CapSlot.mk.injEq] at h
  obtain ⟨-, hgen, hobj, hrights, hbadge, hsub, -⟩ := h
  exact ⟨hgen, hobj, hrights, hbadge, hsub⟩

theorem used_iff_daten (s : CapSpace) (i : Nat) : s.Used i ↔ (s.daten i).used = true := Iff.rfl

section

variable (s : CapSpace) (i x : Nat) (v : Option Nat)

theorem cell_modifySlot (f : CapSlot → CapSlot) :
    (s.modifySlot i f).slots.cell x = if x = i then f (s.slots.cell i) else s.slots.cell x :=
  Slab.modify_cell _ _ _ _

theorem daten_modifyMdb (f : Mdb → Mdb) : (s.modifyMdb i f).daten x = s.daten x := by
  unfold daten modifyMdb
  rw [cell_modifySlot]
  split
  · next heq => rw [heq]
  · rfl

theorem read_modifyMdb {β : Type} (f : Mdb → Mdb) (g : Mdb → β) :
    g ((s.modifyMdb i f).slots.cell x).mdb =
      if x = i then g (f (s.slots.cell i).mdb) else g (s.slots.cell x).mdb := by
  unfold modifyMdb
  rw [cell_modifySlot]
  split <;> rfl

theorem frame_modifyMdb {β : Type} (f : Mdb → Mdb) (g : Mdb → β) (hg : ∀ m, g (f m) = g m) :
    g ((s.modifyMdb i f).slots.cell x).mdb = g (s.slots.cell x).mdb := by
  rw [read_modifyMdb s i x f g, hg]
  split
  · next heq => rw [heq]
  · rfl

@[simp] theorem parent_setParent :
    (s.setParent i v).parent x = if x = i then v else s.parent x :=
  read_modifyMdb s i x _ Mdb.parent

@[simp] theorem firstChild_setParent : (s.setParent i v).firstChild x = s.firstChild x :=
  frame_modifyMdb s i x _ Mdb.firstChild fun _ => rfl

@[simp] theorem nextSibling_setParent : (s.setParent i v).nextSibling x = s.nextSibling x :=
  frame_modifyMdb s i x _ Mdb.nextSibling fun _ => rfl

@[simp] theorem prevSibling_setParent : (s.setParent i v).prevSibling x = s.prevSibling x :=
  frame_modifyMdb s i x _ Mdb.prevSibling fun _ => rfl

@[simp] theorem daten_setParent : (s.setParent i v).daten x = s.daten x :=
  daten_modifyMdb s i x _

@[simp] theorem parent_setFirstChild : (s.setFirstChild i v).parent x = s.parent x :=
  frame_modifyMdb s i x _ Mdb.parent fun _ => rfl

@[simp] theorem firstChild_setFirstChild :
    (s.setFirstChild i v).firstChild x = if x = i then v else s.firstChild x :=
  read_modifyMdb s i x _ Mdb.firstChild

@[simp] theorem nextSibling_setFirstChild : (s.setFirstChild i v).nextSibling x = s.nextSibling x :=
  frame_modifyMdb s i x _ Mdb.nextSibling fun _ => rfl

@[simp] theorem prevSibling_setFirstChild : (s.setFirstChild i v).prevSibling x = s.prevSibling x :=
  frame_modifyMdb s i x _ Mdb.prevSibling fun _ => rfl

@[simp] theorem daten_setFirstChild : (s.setFirstChild i v).daten x = s.daten x :=
  daten_modifyMdb s i x _

@[simp] theorem parent_setNextSibling : (s.setNextSibling i v).parent x = s.parent x :=
  frame_modifyMdb s i x _ Mdb.parent fun _ => rfl

@[simp] theorem firstChild_setNextSibling : (s.setNextSibling i v).firstChild x = s.firstChild x :=
  frame_modifyMdb s i x _ Mdb.firstChild fun _ => rfl

@[simp] theorem nextSibling_setNextSibling :
    (s.setNextSibling i v).nextSibling x = if x = i then v else s.nextSibling x :=
  read_modifyMdb s i x _ Mdb.nextSibling

@[simp] theorem prevSibling_setNextSibling : (s.setNextSibling i v).prevSibling x = s.prevSibling x :=
  frame_modifyMdb s i x _ Mdb.prevSibling fun _ => rfl

@[simp] theorem daten_setNextSibling : (s.setNextSibling i v).daten x = s.daten x :=
  daten_modifyMdb s i x _

@[simp] theorem parent_setPrevSibling : (s.setPrevSibling i v).parent x = s.parent x :=
  frame_modifyMdb s i x _ Mdb.parent fun _ => rfl

@[simp] theorem firstChild_setPrevSibling : (s.setPrevSibling i v).firstChild x = s.firstChild x :=
  frame_modifyMdb s i x _ Mdb.firstChild fun _ => rfl

@[simp] theorem nextSibling_setPrevSibling : (s.setPrevSibling i v).nextSibling x = s.nextSibling x :=
  frame_modifyMdb s i x _ Mdb.nextSibling fun _ => rfl

@[simp] theorem prevSibling_setPrevSibling :
    (s.setPrevSibling i v).prevSibling x = if x = i then v else s.prevSibling x :=
  read_modifyMdb s i x _ Mdb.prevSibling

@[simp] theorem daten_setPrevSibling : (s.setPrevSibling i v).daten x = s.daten x :=
  daten_modifyMdb s i x _

end

/-- Two spaces with the same object table, table sizes and overrun counter. -/
structure SameTables (s s' : CapSpace) : Prop where
  objects : s'.objects = s.objects
  len : s'.slots.len = s.slots.len
  overruns : s'.cdtWalkOverruns = s.cdtWalkOverruns

theorem SameTables.trans {s s' s'' : CapSpace} (h : SameTables s s') (h' : SameTables s' s'') :
    SameTables s s'' :=
  ⟨h'.objects.trans h.objects, h'.len.trans h.len, h'.overruns.trans h.overruns⟩

theorem sameTables_modifySlot (s : CapSpace) (i : Nat) (f : CapSlot → CapSlot) :
    SameTables s (s.modifySlot i f) := ⟨rfl, rfl, rfl⟩

/-- Only peak counters differ. -/
structure NurZaehler (s s' : CapSpace) : Prop where
  slots : s'.slots = s.slots
  objects : s'.objects = s.objects
  overruns : s'.cdtWalkOverruns = s.cdtWalkOverruns

theorem NurZaehler.sameTables {s s' : CapSpace} (h : NurZaehler s s') : SameTables s s' :=
  ⟨h.objects, by rw [h.slots], h.overruns⟩

theorem NurZaehler.used {s s' : CapSpace} (h : NurZaehler s s') : s'.Used = s.Used := by
  funext x
  unfold Used
  rw [h.slots]

theorem NurZaehler.links {s s' : CapSpace} (h : NurZaehler s s') : s'.links = s.links :=
  links_congr fun x => by rw [h.slots]

theorem NurZaehler.daten {s s' : CapSpace} (h : NurZaehler s s') : s'.daten = s.daten := by
  funext x
  unfold CapSpace.daten
  rw [h.slots]

theorem nurZaehler_noteWalk (s : CapSpace) (steps : Nat) : NurZaehler s (s.noteWalk steps) := by
  unfold noteWalk
  split <;> exact ⟨rfl, rfl, rfl⟩

theorem nurZaehler_noteRevoke (s : CapSpace) (ops : Nat) : NurZaehler s (s.noteRevoke ops) := by
  unfold noteRevoke
  split <;> exact ⟨rfl, rfl, rfl⟩

theorem objects_modifyObject (s : CapSpace) (o : Nat) (f : Object → Object) :
    (s.modifyObject o f).objects = s.objects.modify o f := rfl

section

variable (s : CapSpace) (p c x : Nat)

theorem parent_linkChild :
    (s.linkChild p c).parent x = if x = c then some p else s.parent x := by
  unfold linkChild
  cases s.firstChild p <;> simp

theorem firstChild_linkChild :
    (s.linkChild p c).firstChild x = if x = p then some c else s.firstChild x := by
  unfold linkChild
  cases s.firstChild p <;> simp

theorem nextSibling_linkChild :
    (s.linkChild p c).nextSibling x = if x = c then s.firstChild p else s.nextSibling x := by
  unfold linkChild
  cases s.firstChild p <;> simp

theorem prevSibling_linkChild (h : s.firstChild p ≠ some c) :
    (s.linkChild p c).prevSibling x =
      if x = c then none
      else if s.firstChild p = some x then some c else s.prevSibling x := by
  unfold linkChild
  cases hf : s.firstChild p with
  | none => simp
  | some f =>
    have hfc : c ≠ f := by
      rintro rfl
      exact h hf
    by_cases hxc : x = c
    · simp [hxc, hfc]
    · simp [hxc, eq_comm]

theorem daten_linkChild : (s.linkChild p c).daten x = s.daten x := by
  unfold linkChild
  cases s.firstChild p <;> simp

theorem sameTables_linkChild : SameTables s (s.linkChild p c) := by
  unfold linkChild
  cases s.firstChild p <;> exact ⟨rfl, rfl, rfl⟩

end

section

variable (s : CapSpace) (i x : Nat) (vor nach : Option Nat)

theorem nachbarnUmbiegen_eq :
    s.nachbarnUmbiegen i vor nach =
      let s' :=
        match s.prevSibling i, s.parent i with
        | some p, _ => s.setNextSibling p vor
        | none, some par => s.setFirstChild par vor
        | none, none => s
      match s.nextSibling i with
      | some n => s'.setPrevSibling n nach
      | none => s' := by
  unfold nachbarnUmbiegen prevSibling parent nextSibling
  dsimp only
  cases (s.slots.cell i).mdb.prevSibling <;> cases (s.slots.cell i).mdb.parent <;>
    cases (s.slots.cell i).mdb.nextSibling <;> rfl

theorem parent_nachbarnUmbiegen : (s.nachbarnUmbiegen i vor nach).parent x = s.parent x := by
  rw [nachbarnUmbiegen_eq]
  cases s.prevSibling i <;> cases s.parent i <;> cases s.nextSibling i <;> simp

theorem firstChild_nachbarnUmbiegen :
    (s.nachbarnUmbiegen i vor nach).firstChild x =
      if s.prevSibling i = none ∧ s.parent i = some x then vor else s.firstChild x := by
  rw [nachbarnUmbiegen_eq]
  cases s.prevSibling i <;> cases s.parent i <;> cases s.nextSibling i <;> simp [eq_comm]

theorem nextSibling_nachbarnUmbiegen :
    (s.nachbarnUmbiegen i vor nach).nextSibling x =
      if s.prevSibling i = some x then vor else s.nextSibling x := by
  rw [nachbarnUmbiegen_eq]
  cases s.prevSibling i <;> cases s.parent i <;> cases s.nextSibling i <;> simp [eq_comm]

theorem prevSibling_nachbarnUmbiegen :
    (s.nachbarnUmbiegen i vor nach).prevSibling x =
      if s.nextSibling i = some x then nach else s.prevSibling x := by
  rw [nachbarnUmbiegen_eq]
  cases s.prevSibling i <;> cases s.parent i <;> cases s.nextSibling i <;> simp [eq_comm]

theorem daten_nachbarnUmbiegen : (s.nachbarnUmbiegen i vor nach).daten x = s.daten x := by
  rw [nachbarnUmbiegen_eq]
  cases s.prevSibling i <;> cases s.parent i <;> cases s.nextSibling i <;> simp

theorem sameTables_nachbarnUmbiegen : SameTables s (s.nachbarnUmbiegen i vor nach) := by
  rw [nachbarnUmbiegen_eq]
  cases s.prevSibling i <;> cases s.parent i <;> cases s.nextSibling i <;> exact ⟨rfl, rfl, rfl⟩

end

section

variable (s : CapSpace) (c x : Nat)

theorem parent_unlink : (s.unlink c).parent x = if x = c then none else s.parent x := by
  rw [← s.parent_nachbarnUmbiegen c x]
  exact read_modifyMdb _ c x _ Mdb.parent

theorem firstChild_unlink :
    (s.unlink c).firstChild x =
      if x = c then none
      else if s.prevSibling c = none ∧ s.parent c = some x then s.nextSibling c
      else s.firstChild x := by
  rw [← firstChild_nachbarnUmbiegen]
  exact read_modifyMdb _ c x _ Mdb.firstChild

theorem nextSibling_unlink :
    (s.unlink c).nextSibling x =
      if x = c then none
      else if s.prevSibling c = some x then s.nextSibling c else s.nextSibling x := by
  rw [← nextSibling_nachbarnUmbiegen]
  exact read_modifyMdb _ c x _ Mdb.nextSibling

theorem prevSibling_unlink :
    (s.unlink c).prevSibling x =
      if x = c then none
      else if s.nextSibling c = some x then s.prevSibling c else s.prevSibling x := by
  rw [← prevSibling_nachbarnUmbiegen]
  exact read_modifyMdb _ c x _ Mdb.prevSibling

theorem daten_unlink : (s.unlink c).daten x = s.daten x :=
  (daten_modifyMdb _ c x _).trans (s.daten_nachbarnUmbiegen c x _ _)

theorem sameTables_unlink : SameTables s (s.unlink c) :=
  (s.sameTables_nachbarnUmbiegen c _ _).trans (sameTables_modifySlot _ c _)

end

theorem freeSlotIndex_cases (s : CapSpace) :
    (∃ i, s.freeSlotIndex = .ok i ∧ i < s.slots.len ∧ ¬ s.Used i) ∨
      s.freeSlotIndex = .error .noSlot ∧ ∀ i, i < s.slots.len → s.Used i := by
  unfold freeSlotIndex
  cases hpos : s.slots.position fun c => !c.used with
  | some i =>
    obtain ⟨hlt, hfree⟩ := Slab.position_eq_some hpos
    exact .inl ⟨i, rfl, hlt, by simpa [Used] using hfree⟩
  | none =>
    refine .inr ⟨rfl, fun i hi => ?_⟩
    have hall := Slab.position_eq_none hpos i hi
    simpa [Used] using hall

theorem daten_releaseSlot (s : CapSpace) (i x : Nat) :
    (s.releaseSlot i).daten x =
      if x = i then { CapSlot.empty with gen := ((s.daten i).gen + 1) % 2 ^ 32 }
      else s.daten x := by
  unfold daten releaseSlot
  rw [cell_modifySlot]
  split <;> rfl

theorem mdb_releaseSlot (s : CapSpace) (i x : Nat) :
    ((s.releaseSlot i).slots.cell x).mdb = if x = i then Mdb.empty else (s.slots.cell x).mdb := by
  unfold releaseSlot
  rw [cell_modifySlot]
  split <;> rfl

theorem links_releaseSlot {s : CapSpace} {i : Nat} (h : (s.slots.cell i).mdb = Mdb.empty) :
    (s.releaseSlot i).links = s.links := by
  have hmdb : ∀ x, ((s.releaseSlot i).slots.cell x).mdb = (s.slots.cell x).mdb := by
    intro x
    rw [mdb_releaseSlot]
    split
    · next heq => rw [heq, h]
    · rfl
  exact links_congr hmdb

theorem sameTables_releaseSlot (s : CapSpace) (i : Nat) : SameTables s (s.releaseSlot i) :=
  sameTables_modifySlot s i _

end Caprock.Cap.CapSpace
