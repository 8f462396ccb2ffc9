import Mathlib.Algebra.Group.Nat.Defs
import Caprock.Cap.Reachable

/-! # Live handles

System calls hold capabilities by handle.  For each operation of the space this module
says which handles resolve afterwards: a derivation makes one more handle live, a
deletion makes one fewer.
-/

namespace Caprock.Cap

open Mem

namespace CapSpace

variable {s s' : CapSpace} {kids : Nat → List Nat}

/-- The handle names a capability of the space. -/
def Lebt (s : CapSpace) (p : CapPtr) : Prop := s.resolve p = .ok p.slot

instance (s : CapSpace) (p : CapPtr) : Decidable (s.Lebt p) :=
  inferInstanceAs (Decidable (s.resolve p = .ok p.slot))

theorem lebt_iff (s : CapSpace) (p : CapPtr) :
    s.Lebt p ↔ p.slot < s.slots.len ∧ s.Used p.slot ∧ (s.daten p.slot).gen = p.gen := by
  unfold Lebt resolve
  split
  · next hand => exact iff_of_true rfl hand
  · next hand => exact iff_of_false (by simp) hand

theorem resolve_of_not_lebt {p : CapPtr} (h : ¬ s.Lebt p) : s.resolve p = .error .invalid := by
  rcases resolve_cases s p with ⟨i, hres, -, -, hp⟩ | hres
  · subst hp
    exact absurd hres h
  · exact hres

theorem Lebt.eq_of_slot {p r : CapPtr} (hp : s.Lebt p) (hr : s.Lebt r) (h : p.slot = r.slot) :
    p = r := by
  have hpgen := ((lebt_iff s p).mp hp).2.2
  have hrgen := ((lebt_iff s r).mp hr).2.2
  rw [h] at hpgen
  obtain ⟨pslot, pgen⟩ := p
  obtain ⟨rslot, rgen⟩ := r
  simp_all

/-- A new leaf `p` below slot `q`. -/
structure Erzeugt (s s' : CapSpace) (q : Nat) (p : CapPtr) : Prop where
  used : s.Used q
  platz : s.freeSlotIndex = .ok p.slot
  abgeleitet : ∃ rights badge fenster, Abgeleitet s s' q p.slot rights badge fenster
  gen : (s'.daten p.slot).gen = p.gen

namespace Erzeugt

variable {q : Nat} {p : CapPtr}

/-- The new handle is known in advance: first free slot, with the generation it has. -/
theorem eq_ptr (h : Erzeugt s s' q p) : s.ptr p.slot = p := by
  obtain ⟨_, _, _, ha⟩ := h.abgeleitet
  have hgen : (s.daten p.slot).gen = p.gen := by rw [← h.gen, ha.daten, if_pos rfl]
  unfold ptr
  rw [show (s.slots.cell p.slot).gen = p.gen from hgen]

theorem not_lebt (h : Erzeugt s s' q p) : ¬ s.Lebt p := by
  obtain ⟨_, _, _, ha⟩ := h.abgeleitet
  intro hp
  exact ha.free ((lebt_iff s p).mp hp).2.1

/-- Exactly the new handle comes to life. -/
theorem lebt_iff (h : Erzeugt s s' q p) (r : CapPtr) : s'.Lebt r ↔ s.Lebt r ∨ r = p := by
  obtain ⟨_, _, _, ha⟩ := h.abgeleitet
  rw [CapSpace.lebt_iff, CapSpace.lebt_iff, ha.slotsLen, used_iff_daten, used_iff_daten]
  by_cases hr : r.slot = p.slot
  · have hfree : ¬ s.Used r.slot := hr ▸ ha.free
    have hnew : (s'.daten r.slot).used = true := by rw [hr, ha.daten, if_pos rfl]
    have hlt : r.slot < s.slots.len := hr ▸ ha.lt
    constructor
    · rintro ⟨-, -, hgen⟩
      right
      have hgen' : r.gen = p.gen := by rw [← hgen, hr, h.gen]
      obtain ⟨rslot, rgen⟩ := r
      obtain ⟨pslot, pgen⟩ := p
      simp_all
    · rintro (⟨-, hu, -⟩ | rfl)
      · exact absurd hu hfree
      · exact ⟨hlt, hnew, h.gen⟩
  · have hdaten : s'.daten r.slot = s.daten r.slot := by rw [ha.daten, if_neg hr]
    rw [hdaten]
    constructor
    · exact .inl
    · rintro (hl | rfl)
      · exact hl
      · exact absurd rfl hr

theorem lebt (h : Erzeugt s s' q p) : s'.Lebt p := (h.lebt_iff p).mpr (.inr rfl)

theorem lebt_of_lebt (h : Erzeugt s s' q p) {r : CapPtr} (hr : s.Lebt r) : s'.Lebt r :=
  (h.lebt_iff r).mpr (.inl hr)

theorem firstChild (h : Erzeugt s s' q p) (x : Nat) :
    s'.firstChild x = if x = q then some p.slot else s.firstChild x := by
  obtain ⟨_, _, _, ha⟩ := h.abgeleitet
  exact ha.firstChild x

theorem firstChild_self (h : Erzeugt s s' q p) (hinv : Inv s kids) : s'.firstChild p.slot = none := by
  obtain ⟨_, _, _, ha⟩ := h.abgeleitet
  have hne : p.slot ≠ q := by
    intro heq
    exact ha.free (heq ▸ h.used)
  rw [ha.firstChild, if_neg hne]
  exact (hinv.forest.free p.slot ha.free).2.1

theorem inv (h : Erzeugt s s' q p) (hinv : Inv s kids) : ∃ kids', Inv s' kids' := by
  obtain ⟨_, _, _, ha⟩ := h.abgeleitet
  exact ⟨_, ha.inv hinv h.used⟩

end Erzeugt

/-- What `copy`, `mint` and `subregion` from `src` can return. -/
def Ausgang (s : CapSpace) (src : CapPtr) (r : Except CapError CapPtr × CapSpace) : Prop :=
  (∃ e, r = (.error e, s)) ∨ ∃ p s', r = (.ok p, s') ∧ s.Lebt src ∧ Erzeugt s s' src.slot p

theorem freeSlotIndex_of_ableiten {i : Nat} {rights : Rights} {fenster : Option PhysRegion}
    {p : CapPtr} (h : s.ableiten i rights fenster = (.ok p, s')) :
    s.freeSlotIndex = .ok p.slot := by
  unfold ableiten allocSlot at h
  cases hfree : s.freeSlotIndex with
  | error e => simp [hfree] at h
  | ok c =>
    simp only [hfree, Prod.mk.injEq, Except.ok.injEq] at h
    rw [← h.1]
    rfl

theorem ableiten_ausgang (hinv : Inv s kids) {src : CapPtr} (hsrc : s.Lebt src) (rights : Rights)
    (fenster : Option PhysRegion) : s.Ausgang src (s.ableiten src.slot rights fenster) := by
  have hused := ((lebt_iff s src).mp hsrc).2.1
  rcases ableiten_cases hinv hused rights fenster with heq | ⟨c, s', heq, ha⟩
  · exact .inl ⟨_, heq⟩
  · exact .inr ⟨_, s', heq, hsrc, hused, freeSlotIndex_of_ableiten heq, ⟨_, _, _, ha⟩, rfl⟩

theorem copy_ausgang (hinv : Inv s kids) (src : CapPtr) (rights : Rights) :
    s.Ausgang src (s.copy src rights) := by
  unfold copy
  by_cases hsrc : s.Lebt src
  · have hres : s.resolve src = .ok src.slot := hsrc
    rw [hres]
    exact ableiten_ausgang hinv hsrc rights _
  · rw [resolve_of_not_lebt hsrc]
    exact .inl ⟨_, rfl⟩

theorem copy_ok_iff (s : CapSpace) (src : CapPtr) (rights : Rights) :
    (∃ p s', s.copy src rights = (.ok p, s')) ↔
      s.Lebt src ∧ ∃ i, s.freeSlotIndex = .ok i := by
  unfold copy
  by_cases hsrc : s.Lebt src
  · have hres : s.resolve src = .ok src.slot := hsrc
    rw [hres]
    unfold ableiten allocSlot
    cases hfree : s.freeSlotIndex with
    | error e => simp
    | ok i => simp [hsrc]
  · rw [resolve_of_not_lebt hsrc]
    simp [hsrc]

theorem mint_ausgang (hinv : Inv s kids) (src : CapPtr) (rights : Rights) (badge : Nat) :
    s.Ausgang src (s.mint src rights badge) := by
  unfold mint
  rcases copy_ausgang hinv src rights with ⟨e, heq⟩ | ⟨p, s', heq, hsrc, he⟩
  · rw [heq]
    exact .inl ⟨e, rfl⟩
  · rw [heq]
    obtain ⟨_, _, _, ha⟩ := he.abgeleitet
    have hb := ha.setBadge badge
    refine .inr ⟨p, _, rfl, hsrc, he.used, he.platz, ⟨_, _, _, hb⟩, ?_⟩
    rw [hb.daten, if_pos rfl, ← he.gen, ha.daten, if_pos rfl]

theorem subregion_ausgang (hinv : Inv s kids) (src : CapPtr) (offset len : Nat) (rights : Rights) :
    s.Ausgang src (s.subregion src offset len rights) := by
  unfold CapSpace.subregion
  by_cases hsrc : s.Lebt src
  · have hres : s.resolve src = .ok src.slot := hsrc
    rw [hres]
    dsimp only
    split
    · exact .inl ⟨_, rfl⟩
    · split
      · exact .inl ⟨_, rfl⟩
      · exact ableiten_ausgang hinv hsrc rights _
  · rw [resolve_of_not_lebt hsrc]
    exact .inl ⟨_, rfl⟩

end CapSpace

namespace Abbau

open CapSpace

theorem delete_of_leaf {a : Abbau} {p : CapPtr} (hp : a.caps.Lebt p)
    (hleaf : a.caps.firstChild p.slot = none) : a.delete p = (.ok (), a.deleteLeaf p.slot) := by
  have hres : a.caps.resolve p = .ok p.slot := hp
  unfold delete
  rw [hres]
  simp [hleaf]

theorem delete_of_not_leaf {a : Abbau} {p : CapPtr}
    (h : ¬ (a.caps.Lebt p ∧ a.caps.firstChild p.slot = none)) : ∃ e, a.delete p = (.error e, a) := by
  unfold delete
  by_cases hp : a.caps.Lebt p
  · have hres : a.caps.resolve p = .ok p.slot := hp
    have hchild : (a.caps.firstChild p.slot).isSome = true := by
      rw [Option.isSome_iff_ne_none]
      exact fun hnone => h ⟨hp, hnone⟩
    rw [hres]
    dsimp only
    rw [if_pos hchild]
    exact ⟨_, rfl⟩
  · rw [resolve_of_not_lebt hp]
    exact ⟨_, rfl⟩

theorem lebt_deleteLeaf (a : Abbau) (c : Nat) (p : CapPtr) :
    (a.deleteLeaf c).caps.Lebt p ↔ a.caps.Lebt p ∧ p.slot ≠ c := by
  rw [CapSpace.lebt_iff, CapSpace.lebt_iff, (a.deleteLeaf_tables c).1, a.used_deleteLeaf,
    a.daten_deleteLeaf]
  by_cases hpc : p.slot = c
  · simp [hpc]
  · simp [hpc]

theorem firstChild_deleteLeaf_of_none {a : Abbau} {kids : Nat → List Nat} (h : a.caps.Inv kids)
    {c : Nat} (hc : a.caps.Used c) (hleaf : a.caps.firstChild c = none) {x : Nat}
    (hx : a.caps.firstChild x = none) : (a.deleteLeaf c).caps.firstChild x = none := by
  have hforest := forest_deleteLeaf h.forest hc (h.forest.kids_nil hc hleaf)
  by_cases hused : (a.deleteLeaf c).caps.Used x
  · have hkids : kids x = [] := h.forest.kids_nil ((a.used_deleteLeaf c x).mp hused).1 hx
    have hfirst := hforest.first x hused
    rw [hkids] at hfirst
    exact hfirst
  · exact (hforest.free x hused).2.1

end Abbau

end Caprock.Cap
