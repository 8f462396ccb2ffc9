import Caprock.Region.Safety

/-! # Where a block may begin

A slot begins at a multiple of its class, which the alignment divides.  A large block begins where
its region does, and regions begin at pages: for an alignment above a page the region decides, and
the request only made it long enough.
-/

namespace Caprock.Region

open Mem Memory Execution

def Layout.Erfuellt (layout : Layout) (a len : Nat) : Prop := layout.align ∣ a ∧ layout.size ≤ len

/-- No bytes, a slot of a class, or a region that begins at a multiple of the alignment, unless no
place in the table is left for it. -/
def Heap.Passend (h : Heap) (layout : Layout) (antwort : Option PhysRegion) : Prop :=
  layout.size = 0 ∨ classFor layout.effective ≠ none ∨
    ∀ slot, h.large.findIdx? Option.isNone = some slot →
      ∀ r, antwort = some r → layout.align ∣ r.base

theorem Layout.size_le_actual (layout : Layout) : layout.size ≤ layout.actual := by
  rw [Layout.actual]
  cases hci : classFor layout.effective with
  | none => exact Nat.le_refl _
  | some ci => exact (Nat.le_max_left _ _).trans (classFor_eq_some hci).2.1

theorem Heap.largeAlloc_eq_some {h : Heap} {antwort : Option PhysRegion} {a : Nat} :
    (h.largeAlloc antwort).1 = some a ↔
      ∃ slot, h.large.findIdx? Option.isNone = some slot ∧ ∃ r, antwort = some r ∧ r.base = a := by
  unfold Heap.largeAlloc
  cases antwort with
  | none => simp
  | some r =>
    cases hslot : h.large.findIdx? Option.isNone with
    | none => simp [hslot]
    | some slot => simp [hslot]

theorem Lauf.Inv.erfuellt_of_class {s : Lauf} (h : s.Inv) {layout : Layout}
    {antwort : Option PhysRegion} (hant : s.heap.source.Liefert layout.minLen antwort)
    (hsize : layout.size ≠ 0) {ci : Nat} (hci : classFor layout.effective = some ci) {a len : Nat}
    (hres : (s.heap.allocate s.mem layout antwort).1 = some (a, len)) : layout.align ∣ a := by
  obtain ⟨frei, hbel⟩ := (h.allocate hant).2 a len hres
  obtain ⟨hlt, hle, -⟩ := classFor_eq_some hci
  have halign : layout.align ≤ page :=
    calc layout.align ≤ layout.effective := Nat.le_max_right _ _
      _ ≤ classSize ci := hle
      _ ≤ 2048 := (classSize_le ci hlt).2
      _ ≤ page := by decide
  exact hbel.aligned List.mem_cons_self hsize halign

theorem Lauf.Inv.erfuellt_iff {s : Lauf} (h : s.Inv) {layout : Layout}
    {antwort : Option PhysRegion} (hant : s.heap.source.Liefert layout.minLen antwort) :
    (∀ a len, (s.heap.allocate s.mem layout antwort).1 = some (a, len) → layout.Erfuellt a len) ↔
      s.heap.Passend layout antwort := by
  by_cases hsize : layout.size = 0
  · have hres : (s.heap.allocate s.mem layout antwort).1 = some (layout.align, 0) := by
      rw [Heap.allocate, if_pos hsize]
    constructor
    · exact fun _ => .inl hsize
    · intro _ a len heq
      rw [hres] at heq
      cases heq
      exact ⟨Nat.dvd_refl _, Nat.le_of_eq hsize⟩
  cases hci : classFor layout.effective with
  | some ci =>
    constructor
    · intro _
      right
      left
      rw [hci]
      exact Option.some_ne_none ci
    · intro _ a len hres
      refine ⟨h.erfuellt_of_class hant hsize hci hres, ?_⟩
      rw [Heap.allocate, if_neg hsize, hci] at hres
      obtain ⟨-, -, rfl⟩ := bind_nonNull_eq_some.mp hres
      exact layout.size_le_actual
  | none =>
    have hres : ∀ a len, (s.heap.allocate s.mem layout antwort).1 = some (a, len) ↔
        (s.heap.largeAlloc antwort).1 = some a ∧ a ≠ 0 ∧ len = layout.actual := by
      intro a len
      rw [Heap.allocate, if_neg hsize, hci]
      exact bind_nonNull_eq_some
    constructor
    · intro hall
      right
      right
      intro slot hslot r hr
      by_cases hzero : r.base = 0
      · rw [hzero]
        exact Nat.dvd_zero _
      · have haddr := Heap.largeAlloc_eq_some.mpr ⟨slot, hslot, r, hr, rfl⟩
        exact (hall r.base layout.actual ((hres _ _).mpr ⟨haddr, hzero, rfl⟩)).1
    · intro hpass a len heq
      obtain ⟨haddr, -, rfl⟩ := (hres a len).mp heq
      obtain ⟨slot, hslot, r, hr, rfl⟩ := Heap.largeAlloc_eq_some.mp haddr
      rcases hpass with hzero | hclass | hbase
      · exact absurd hzero hsize
      · exact absurd hci hclass
      · exact ⟨hbase slot hslot r hr, layout.size_le_actual⟩

namespace Lauf

/-- Alignment and size of what `allocate` returns, in every state that a run reaches. -/
theorem run_allocate_iff (ops : List Op) (hops : Admissible step OpOk init ops) (s : Lauf)
    (hs : run step init ops = some s) (layout : Layout) (antwort : Option PhysRegion)
    (hant : s.heap.source.Liefert layout.minLen antwort) :
    (∀ a len, (s.heap.allocate s.mem layout antwort).1 = some (a, len) → layout.Erfuellt a len) ↔
      s.heap.Passend layout antwort := by
  obtain ⟨t, ht, hinv⟩ := run_total step_inv init_inv hops
  obtain rfl : t = s := Option.some.inj (ht.symm.trans hs)
  exact hinv.erfuellt_iff hant

/-- One byte at a multiple of two pages, from a region that begins there. -/
theorem run_allocate_iff_two_pages :
    (∀ a len, (init.heap.allocate init.mem ⟨1, 8192, ⟨13, rfl⟩, by decide⟩
        (some ⟨0x4000, 0x2000⟩)).1 = some (a, len) →
        Layout.Erfuellt ⟨1, 8192, ⟨13, rfl⟩, by decide⟩ a len) ↔
      init.heap.Passend ⟨1, 8192, ⟨13, rfl⟩, by decide⟩ (some ⟨0x4000, 0x2000⟩) := by
  apply run_allocate_iff [] trivial init rfl
  intro r hr
  cases hr
  refine ⟨⟨by decide, by decide, by decide⟩, by decide, ?_⟩
  intro t ht
  cases ht

/-- The region begins at a page and is long enough, and the block is not aligned. -/
theorem allocate_misaligned :
    ∃ (layout : Layout) (r : PhysRegion), page ∣ r.base ∧
      init.heap.source.Liefert layout.minLen (some r) ∧
      ∃ a len, (init.heap.allocate init.mem layout (some r)).1 = some (a, len) ∧
        ¬ layout.align ∣ a := by
  refine ⟨⟨1, 8192, ⟨13, rfl⟩, by decide⟩, ⟨0x1000, 0x2000⟩, by decide, ?_, 0x1000, 1, rfl,
    by decide⟩
  intro r hr
  cases hr
  refine ⟨⟨by decide, by decide, by decide⟩, by decide, ?_⟩
  intro t ht
  cases ht

end Lauf

end Caprock.Region
