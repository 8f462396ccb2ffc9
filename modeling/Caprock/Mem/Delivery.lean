import Caprock.Lib.Search
import Caprock.Mem.Accounting

/-! # What an allocation delivers

The searches of the allocator keep the best candidate seen so far.  A search comes
back empty-handed exactly when no fragment is a candidate, so what `alloc_in` does is
decided by the fragments that can serve the rounded size.  The rounding is a word
operation: within a page of the top of the address space it yields zero.
-/

namespace Caprock.Mem

open Word

namespace PhysAllocator

def zonenStart (align lo : Nat) (r : PhysRegion) : Nat := alignUp (max r.base lo) align

/-- The search of `alloc_in` can take `size` bytes from the fragment. -/
structure Brauchbar (a : PhysAllocator) (size align lo hi : Nat) (r : PhysRegion) : Prop where
  zone : max r.base lo < min r.fin hi
  base_le : r.base ≤ zonenStart align lo r
  fits : zonenStart align lo r + size < 2 ^ 64
  le_end : zonenStart align lo r + size ≤ min r.fin hi
  rest : ¬ a.keinPlatzFuerRest r (zonenStart align lo r) (zonenStart align lo r + size)

theorem bestIn_of_brauchbar {a : PhysAllocator} {size align lo hi i : Nat} {r : PhysRegion}
    (hr : a.regions[i]? = some r) (h : a.Brauchbar size align lo hi r)
    (best : Option (Nat × Nat × Nat)) :
    a.bestIn size align lo hi best i =
      if best.all fun b => min r.fin hi - max r.base lo < b.2.2 then
        some (i, zonenStart align lo r, min r.fin hi - max r.base lo)
      else best := by
  have hadd : checkedAdd (alignUp (max r.base lo) align) size =
      some (zonenStart align lo r + size) := checkedAdd_eq h.fits
  unfold bestIn
  rw [hr]
  dsimp only
  rw [if_neg (Nat.not_le.mpr h.zone), hadd]
  exact (if_pos ⟨h.base_le, h.le_end⟩).trans (if_neg h.rest)

theorem bestIn_of_not_brauchbar {a : PhysAllocator} {size align lo hi i : Nat} {r : PhysRegion}
    (hr : a.regions[i]? = some r) (h : ¬ a.Brauchbar size align lo hi r)
    (best : Option (Nat × Nat × Nat)) : a.bestIn size align lo hi best i = best := by
  unfold bestIn
  rw [hr]
  dsimp only
  split
  · rfl
  · next hzone =>
    cases hadd : checkedAdd (alignUp (max r.base lo) align) size with
    | none => rfl
    | some e =>
      obtain ⟨hfits, rfl⟩ := checkedAdd_eq_some.mp hadd
      dsimp only
      split
      · next hfit =>
        split
        · rfl
        · next hrest =>
          exact absurd ⟨Nat.lt_of_not_le hzone, hfit.1, hfits, hfit.2, hrest⟩ h
      · rfl

theorem forall_range_iff (a : PhysAllocator) (P : PhysRegion → Prop) :
    (∀ i ∈ List.range a.len, ¬ ∃ r, a.regions[i]? = some r ∧ P r) ↔ ∀ r ∈ a.regions, ¬ P r := by
  constructor
  · intro h r hr hP
    obtain ⟨i, hi⟩ := List.mem_iff_getElem?.mp hr
    obtain ⟨hlt, -⟩ := List.getElem?_eq_some_iff.mp hi
    exact h i (List.mem_range.mpr hlt) ⟨r, hi, hP⟩
  · rintro h i - ⟨r, hr, hP⟩
    exact h r (List.mem_of_getElem? hr) hP

theorem bestIn_of_no_candidate {a : PhysAllocator} {size align lo hi i : Nat}
    (h : ¬ ∃ r, a.regions[i]? = some r ∧ a.Brauchbar size align lo hi r)
    (best : Option (Nat × Nat × Nat)) : a.bestIn size align lo hi best i = best := by
  cases hr : a.regions[i]? with
  | none =>
    unfold bestIn
    rw [hr]
  | some r => exact bestIn_of_not_brauchbar hr (fun hb => h ⟨r, hr, hb⟩) best

theorem foldl_bestIn_eq_none_iff (a : PhysAllocator) (size align lo hi : Nat) :
    (List.range a.len).foldl (a.bestIn size align lo hi) none = none ↔
      ∀ r ∈ a.regions, ¬ a.Brauchbar size align lo hi r := by
  rw [← a.forall_range_iff]
  apply Search.foldl_empty_iff (E := fun best => best = none) (F := fun best => best.isSome = true)
  · rintro best rfl
    simp
  · intro best i hbest
    by_cases hi : ∃ r, a.regions[i]? = some r ∧ a.Brauchbar size align lo hi r
    · obtain ⟨r, hr, hb⟩ := hi
      rw [bestIn_of_brauchbar hr hb]
      split
      · rfl
      · exact hbest
    · rw [bestIn_of_no_candidate hi]
      exact hbest
  · rintro best i rfl ⟨r, hr, hb⟩
    rw [bestIn_of_brauchbar hr hb]
    rfl
  · rintro best i rfl hi
    exact bestIn_of_no_candidate hi none
  · rfl

theorem foldl_bestIn_brauchbar {a : PhysAllocator} {size align lo hi : Nat} {b : Nat × Nat × Nat}
    (hb : (List.range a.len).foldl (a.bestIn size align lo hi) none = some b) :
    ∃ r, a.regions[b.1]? = some r ∧ a.Brauchbar size align lo hi r ∧
      b.2.1 = zonenStart align lo r := by
  apply Search.foldl_mem (f := a.bestIn size align lo hi) ?_ (List.range a.len) hb
  intro best i hbest
  by_cases hi : ∃ r, a.regions[i]? = some r ∧ a.Brauchbar size align lo hi r
  · obtain ⟨r, hr, hcan⟩ := hi
    rw [bestIn_of_brauchbar hr hcan]
    split
    · intro b hb
      obtain rfl := Option.mem_some_iff.mp hb
      exact ⟨r, hr, hcan, rfl⟩
    · exact hbest
  · rw [bestIn_of_no_candidate hi]
    exact hbest

theorem dvd_alignUp_wrap (value : Nat) {m : Nat} (hm : m ≤ 63) : 2 ^ m ∣ alignUp value (2 ^ m) := by
  have hmask : 2 ^ 64 - 1 - (2 ^ m - 1) = 2 ^ 64 - 2 ^ m := by
    have hpos : 0 < 2 ^ m := Nat.two_pow_pos m
    omega
  have hlt : wadd value (2 ^ m - 1) < 2 ^ 64 := Nat.mod_lt _ (by decide)
  unfold alignUp
  rw [hmask, and_high_mask hlt (by omega)]
  exact Nat.dvd_mul_left _ _

theorem alignUp_page_wrap {size : Nat} (hsize : size < 2 ^ 64) (h : 2 ^ 64 ≤ size + (page - 1)) :
    alignUp (max size 1) page = 0 := by
  have hpage : page = 2 ^ 12 := by decide
  have hmax : max size 1 = size := by
    rw [hpage] at h
    omega
  have hwrap : wadd size (2 ^ 12 - 1) = size + (2 ^ 12 - 1) - 2 ^ 64 := by
    rw [hpage] at h
    unfold wadd
    omega
  have hmask : 2 ^ 64 - 1 - (2 ^ 12 - 1) = 2 ^ 64 - 2 ^ 12 := by decide
  unfold alignUp
  rw [hmax, hpage, hwrap, hmask, and_high_mask (by omega) (by omega),
    Nat.div_eq_of_lt (by omega), Nat.zero_mul]

theorem le_alignUp_page {size : Nat} (h : size + (page - 1) < 2 ^ 64) (hpos : 0 < size) :
    size ≤ alignUp (max size 1) page := by
  have hpage : page = 2 ^ 12 := by decide
  rw [hpage] at h ⊢
  rw [Nat.max_eq_left hpos]
  exact le_alignUp (by omega) h

/-- A success is aligned, long enough and does not wrap; a size that cannot be rounded up
is refused. -/
structure Liefert (a : PhysAllocator) (size align lo hi : Nat) : Prop where
  region : ∀ cap, (a.allocIn size align lo hi).1 = some cap →
    align ∣ cap.region.base ∧ size ≤ cap.region.len ∧ cap.region.base + cap.region.len < 2 ^ 64
  refused : 2 ^ 64 ≤ size + (page - 1) → (a.allocIn size align lo hi).1 = none

theorem allocIn_cases (a : PhysAllocator) (size align lo hi : Nat) :
    ((∀ r ∈ a.regions, ¬ a.Brauchbar (alignUp (max size 1) page) (max align page) lo hi r) ∧
        a.allocIn size align lo hi = (none, a)) ∨
      ∃ i r, a.regions[i]? = some r ∧
        a.Brauchbar (alignUp (max size 1) page) (max align page) lo hi r ∧
        a.allocIn size align lo hi =
          a.carve i (zonenStart (max align page) lo r) (alignUp (max size 1) page) := by
  unfold allocIn
  dsimp only
  cases hfold : (List.range a.len).foldl
      (a.bestIn (alignUp (max size 1) page) (max align page) lo hi) none with
  | none => exact .inl ⟨(foldl_bestIn_eq_none_iff _ _ _ _ _).mp hfold, rfl⟩
  | some b =>
    obtain ⟨r, hr, hb, hstart⟩ := foldl_bestIn_brauchbar hfold
    refine .inr ⟨b.1, r, hr, hb, ?_⟩
    rw [← hstart]

theorem carve_fst {a : PhysAllocator} {i : Nat} {r : PhysRegion} (hr : a.regions[i]? = some r)
    (start size : Nat) : (a.carve i start size).1 = some ⟨⟨start, size⟩, Rights.rw⟩ := by
  unfold carve
  rw [hr]

/-- `alloc_in` delivers what was asked for exactly when the size can be rounded up to whole
pages or no fragment has an aligned start for an empty region. -/
theorem allocIn_liefert_iff (a : PhysAllocator) {size align k : Nat} (lo hi : Nat)
    (hpos : 0 < size) (hsize : size < 2 ^ 64) (halign : align = 2 ^ k) (hk : k ≤ 63) :
    a.Liefert size align lo hi ↔
      size + (page - 1) < 2 ^ 64 ∨ ∀ r ∈ a.regions, ¬ a.Brauchbar 0 (max align page) lo hi r := by
  by_cases hround : size + (page - 1) < 2 ^ 64
  · refine ⟨fun _ => .inl hround, fun _ => ⟨fun cap hcap => ?_, fun hover => ?_⟩⟩
    · rcases allocIn_cases a size align lo hi with ⟨-, heq⟩ | ⟨i, r, hr, hb, heq⟩
      · rw [heq] at hcap
        cases hcap
      · obtain ⟨m, hm, hmax⟩ := max_page_eq_pow halign hk
        rw [heq, carve_fst hr] at hcap
        obtain rfl := Option.some.inj hcap
        have hdvd : align ∣ max align page := by
          have hle : align ≤ max align page := Nat.le_max_left _ _
          rw [hmax, halign] at hle ⊢
          exact Nat.pow_dvd_pow 2 ((Nat.pow_le_pow_iff_right (by decide)).mp hle)
        refine ⟨hdvd.trans ?_, le_alignUp_page hround hpos, hb.fits⟩
        dsimp only [zonenStart]
        rw [hmax]
        exact dvd_alignUp_wrap _ hm
    · exact absurd hround (Nat.not_lt.mpr hover)
  · have hover := Nat.le_of_not_lt hround
    have hnull := alignUp_page_wrap hsize hover
    constructor
    · intro h
      right
      rcases allocIn_cases a size align lo hi with ⟨hall, -⟩ | ⟨i, r, hr, -, heq⟩
      · rwa [hnull] at hall
      · have hnone := h.refused hover
        rw [heq, carve_fst hr] at hnone
        cases hnone
    · rintro (hlt | hall)
      · exact absurd hlt hround
      · have hnone : (a.allocIn size align lo hi).1 = none := by
          rcases allocIn_cases a size align lo hi with ⟨-, heq⟩ | ⟨i, r, hr, hb, -⟩
          · rw [heq]
          · rw [hnull] at hb
            exact absurd hb (hall r (List.mem_of_getElem? hr))
        refine ⟨fun cap hcap => ?_, fun _ => hnone⟩
        rw [hnone] at hcap
        cases hcap

/-- 5000 bytes from 128 KiB. -/
theorem allocIn_liefert_iff_two_pages :
    (⟨[⟨65536, 131072⟩]⟩ : PhysAllocator).Liefert 5000 4096 0 (2 ^ 64 - 1) :=
  (allocIn_liefert_iff ⟨[⟨65536, 131072⟩]⟩ (k := 12) 0 (2 ^ 64 - 1) (by decide) (by decide)
    (by decide) (by decide)).mpr (.inl (by decide))

/-- All of the address space is asked for and an empty region at 64 KiB returned. -/
theorem allocIn_empty_for_everything :
    ((⟨[⟨65536, 131072⟩]⟩ : PhysAllocator).allocIn (2 ^ 64 - 1) 4096 0 (2 ^ 64 - 1)).1 =
        some ⟨⟨65536, 0⟩, Rights.rw⟩ ∧
      ¬ (⟨[⟨65536, 131072⟩]⟩ : PhysAllocator).Liefert (2 ^ 64 - 1) 4096 0 (2 ^ 64 - 1) := by
  have hcap : ((⟨[⟨65536, 131072⟩]⟩ : PhysAllocator).allocIn (2 ^ 64 - 1) 4096 0
      (2 ^ 64 - 1)).1 = some ⟨⟨65536, 0⟩, Rights.rw⟩ := by decide
  refine ⟨hcap, fun h => ?_⟩
  obtain ⟨-, hlen, -⟩ := h.region _ hcap
  exact absurd hlen (by decide)

end PhysAllocator

end Caprock.Mem
