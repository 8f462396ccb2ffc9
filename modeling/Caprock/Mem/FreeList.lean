import Mathlib
import Caprock.Mem.Alloc

/-! # What the free list denotes

A list of regions denotes the set of addresses it covers.  `Ordered` allows touching
neighbours, as they stand between `insert` and the merge pass; `Separated` does not.
Every operation on the free list is described by its effect on the covered set.
-/

namespace Caprock.Mem

open Word

def PhysRegion.addrs (r : PhysRegion) : Set Nat := Set.Ico r.base (r.base + r.len)

@[simp] theorem PhysRegion.mem_addrs {r : PhysRegion} {x : Nat} :
    x ∈ r.addrs ↔ r.base ≤ x ∧ x < r.base + r.len :=
  Iff.rfl

def cover (l : List PhysRegion) : Set Nat := {x | ∃ r ∈ l, x ∈ r.addrs}

theorem mem_cover {l : List PhysRegion} {x : Nat} : x ∈ cover l ↔ ∃ r ∈ l, x ∈ r.addrs :=
  Iff.rfl

@[simp] theorem cover_nil : cover [] = ∅ := by
  ext x
  simp [mem_cover]

@[simp] theorem cover_cons (r : PhysRegion) (l : List PhysRegion) :
    cover (r :: l) = r.addrs ∪ cover l := by
  ext x
  simp only [mem_cover, List.mem_cons, Set.mem_union]
  constructor
  · rintro ⟨s, rfl | hs, hx⟩
    · exact .inl hx
    · exact .inr ⟨s, hs, hx⟩
  · rintro (hx | ⟨s, hs, hx⟩)
    · exact ⟨r, .inl rfl, hx⟩
    · exact ⟨s, .inr hs, hx⟩

@[simp] theorem cover_append (l m : List PhysRegion) : cover (l ++ m) = cover l ∪ cover m := by
  induction l with
  | nil => simp
  | cons r l ih => simp [ih, Set.union_assoc]

/-- Sorted, non-empty, non-overlapping regions that end at most at `L`. -/
structure OrderedUpTo (L : Nat) (l : List PhysRegion) : Prop where
  pos : ∀ r ∈ l, 0 < r.len
  fits : ∀ r ∈ l, r.base + r.len ≤ L
  sorted : l.Pairwise fun r s => r.base + r.len ≤ s.base

/-- Sorted, non-empty regions that end at most at `L`, with a gap between any two of them. -/
structure SeparatedUpTo (L : Nat) (l : List PhysRegion) : Prop where
  pos : ∀ r ∈ l, 0 < r.len
  fits : ∀ r ∈ l, r.base + r.len ≤ L
  sorted : l.Pairwise fun r s => r.base + r.len < s.base

section

variable {L : Nat} {l m : List PhysRegion}

theorem SeparatedUpTo.ordered (h : SeparatedUpTo L l) : OrderedUpTo L l :=
  ⟨h.pos, h.fits, h.sorted.imp fun hlt => Nat.le_of_lt hlt⟩

theorem SeparatedUpTo.nil : SeparatedUpTo L [] := ⟨by simp, by simp, .nil⟩

theorem OrderedUpTo.tail {r : PhysRegion} (h : OrderedUpTo L (r :: l)) : OrderedUpTo L l :=
  ⟨fun s hs => h.pos s (.tail _ hs), fun s hs => h.fits s (.tail _ hs),
    (List.pairwise_cons.mp h.sorted).2⟩

theorem SeparatedUpTo.sublist (h : SeparatedUpTo L l) (hm : m.Sublist l) : SeparatedUpTo L m :=
  ⟨fun s hs => h.pos s (hm.subset hs), fun s hs => h.fits s (hm.subset hs), h.sorted.sublist hm⟩

end

/-- Sorted, non-empty regions below `2 ^ 63` with a gap between any two of them. -/
structure Separated (l : List PhysRegion) : Prop where
  pos : ∀ r ∈ l, 0 < r.len
  fits : ∀ r ∈ l, r.base + r.len ≤ 2 ^ 63
  sorted : l.Pairwise fun r s => r.base + r.len < s.base

theorem separated_iff {l : List PhysRegion} : Separated l ↔ SeparatedUpTo (2 ^ 63) l :=
  ⟨fun h => ⟨h.pos, h.fits, h.sorted⟩, fun h => ⟨h.pos, h.fits, h.sorted⟩⟩

theorem mem_insertSorted {r s : PhysRegion} {l : List PhysRegion} :
    s ∈ PhysAllocator.insertSorted r l ↔ s = r ∨ s ∈ l := by
  induction l with
  | nil => simp [PhysAllocator.insertSorted]
  | cons x xs ih =>
    unfold PhysAllocator.insertSorted
    split
    · simp only [List.mem_cons, ih]
      tauto
    · simp

theorem cover_insertSorted (r : PhysRegion) (l : List PhysRegion) :
    cover (PhysAllocator.insertSorted r l) = r.addrs ∪ cover l := by
  ext x
  simp only [mem_cover, mem_insertSorted, Set.mem_union]
  constructor
  · rintro ⟨s, rfl | hs, hx⟩
    · exact .inl hx
    · exact .inr ⟨s, hs, hx⟩
  · rintro (hx | ⟨s, hs, hx⟩)
    · exact ⟨r, .inl rfl, hx⟩
    · exact ⟨s, .inr hs, hx⟩

theorem PhysRegion.end_le_of_base_lt {r s : PhysRegion} (hs : 0 < s.len)
    (hd : Disjoint r.addrs s.addrs) (hlt : r.base < s.base) : r.base + r.len ≤ s.base := by
  by_contra hgt
  have hr : s.base ∈ r.addrs := ⟨Nat.le_of_lt hlt, by omega⟩
  have hself : s.base ∈ s.addrs := ⟨Nat.le_refl _, by omega⟩
  exact Set.disjoint_left.mp hd hr hself

theorem ordered_insertSorted {L : Nat} {r : PhysRegion} {l : List PhysRegion}
    (hl : OrderedUpTo L l) (hpos : 0 < r.len) (hfits : r.base + r.len ≤ L)
    (hd : Disjoint r.addrs (cover l)) : OrderedUpTo L (PhysAllocator.insertSorted r l) := by
  have hdis : ∀ s ∈ l, Disjoint r.addrs s.addrs := by
    intro s hs
    have hsub : s.addrs ⊆ cover l := fun x hx => ⟨s, hs, hx⟩
    exact hd.mono_right hsub
  refine ⟨?_, ?_, ?_⟩
  · intro s hs
    rcases mem_insertSorted.mp hs with rfl | hs
    · exact hpos
    · exact hl.pos s hs
  · intro s hs
    rcases mem_insertSorted.mp hs with rfl | hs
    · exact hfits
    · exact hl.fits s hs
  · clear hd
    induction l with
    | nil => simp [PhysAllocator.insertSorted]
    | cons x xs ih =>
      have hx := hdis x List.mem_cons_self
      obtain ⟨hhead, htail⟩ := List.pairwise_cons.mp hl.sorted
      unfold PhysAllocator.insertSorted
      split
      next hlt =>
        refine List.pairwise_cons.mpr
          ⟨fun s hs => ?_, ih hl.tail fun s hs => hdis s (.tail _ hs)⟩
        rcases mem_insertSorted.mp hs with rfl | hs
        · exact PhysRegion.end_le_of_base_lt hpos hx.symm hlt
        · exact hhead s hs
      next hge =>
        have hxpos := hl.pos x List.mem_cons_self
        -- The bases differ, since both regions are inhabited.
        have hne : r.base ≠ x.base := by
          intro heq
          have hr : r.base ∈ r.addrs := ⟨Nat.le_refl _, by omega⟩
          have hxr : r.base ∈ x.addrs := ⟨by omega, by omega⟩
          exact Set.disjoint_left.mp hx hr hxr
        have hrx := PhysRegion.end_le_of_base_lt hxpos hx (by omega)
        refine List.pairwise_cons.mpr ⟨fun s hs => ?_, hl.sorted⟩
        rcases List.mem_cons.mp hs with rfl | hs
        · exact hrx
        · have hxs := hhead s hs
          omega

theorem PhysRegion.fin_eq_of_fits {r : PhysRegion} (h : r.base + r.len ≤ 2 ^ 63) :
    r.fin = r.base + r.len :=
  PhysRegion.fin_eq (by omega)

theorem coalesceFrom_spec {L : Nat} (hL : L < 2 ^ 64) (x : PhysRegion) (l : List PhysRegion)
    (h : OrderedUpTo L (x :: l)) :
    SeparatedUpTo L (PhysAllocator.coalesceFrom x l) ∧
      (∀ s ∈ PhysAllocator.coalesceFrom x l, x.base ≤ s.base) ∧
      cover (PhysAllocator.coalesceFrom x l) = x.addrs ∪ cover l := by
  induction l generalizing x with
  | nil =>
    refine ⟨⟨h.pos, h.fits, List.pairwise_singleton _ _⟩, ?_, ?_⟩
    · intro s hs
      rw [List.mem_singleton.mp hs]
    · simp [PhysAllocator.coalesceFrom]
  | cons y rest ih =>
    obtain ⟨hxall, hsorted⟩ := List.pairwise_cons.mp h.sorted
    have hxy := hxall y List.mem_cons_self
    have hxpos := h.pos x List.mem_cons_self
    have hypos := h.pos y (.tail _ List.mem_cons_self)
    have hyfits := h.fits y (.tail _ List.mem_cons_self)
    have hxfits := h.fits x List.mem_cons_self
    have hxfin : x.fin = x.base + x.len := PhysRegion.fin_eq (by omega)
    unfold PhysAllocator.coalesceFrom
    split
    next heq =>
      rw [hxfin] at heq
      have hlen : wadd x.len y.len = x.len + y.len := wadd_eq (by omega)
      rw [hlen]
      -- The merged entry ends where `y` ended, so the rest stays ordered behind it.
      have hmerged : OrderedUpTo L (⟨x.base, x.len + y.len⟩ :: rest) := by
        refine ⟨?_, ?_, List.pairwise_cons.mpr ⟨fun s hs => ?_, (List.pairwise_cons.mp hsorted).2⟩⟩
        · intro s hs
          rcases List.mem_cons.mp hs with rfl | hs
          · exact Nat.add_pos_left hxpos _
          · exact h.pos s (.tail _ (.tail _ hs))
        · intro s hs
          rcases List.mem_cons.mp hs with rfl | hs
          · show x.base + (x.len + y.len) ≤ L
            omega
          · exact h.fits s (.tail _ (.tail _ hs))
        · have hys := (List.pairwise_cons.mp hsorted).1 s hs
          show x.base + (x.len + y.len) ≤ s.base
          omega
      obtain ⟨hsep, hbase, hcover⟩ := ih _ hmerged
      refine ⟨hsep, hbase, ?_⟩
      rw [hcover, cover_cons, ← Set.union_assoc]
      congr 1
      ext z
      simp only [PhysRegion.mem_addrs, Set.mem_union]
      omega
    next hne =>
      rw [hxfin] at hne
      obtain ⟨hsep, hbase, hcover⟩ := ih y h.tail
      refine ⟨⟨?_, ?_, List.pairwise_cons.mpr ⟨fun s hs => ?_, hsep.sorted⟩⟩, ?_, ?_⟩
      · intro s hs
        rcases List.mem_cons.mp hs with rfl | hs
        · exact hxpos
        · exact hsep.pos s hs
      · intro s hs
        rcases List.mem_cons.mp hs with rfl | hs
        · exact h.fits s List.mem_cons_self
        · exact hsep.fits s hs
      · have hys := hbase s hs
        omega
      · intro s hs
        rcases List.mem_cons.mp hs with rfl | hs
        · exact Nat.le_refl _
        · have hys := hbase s hs
          omega
      · rw [cover_cons, hcover, cover_cons]

theorem coalesce_spec {L : Nat} (hL : L < 2 ^ 64) {l : List PhysRegion} (h : OrderedUpTo L l) :
    SeparatedUpTo L (PhysAllocator.coalesce l) ∧ cover (PhysAllocator.coalesce l) = cover l := by
  cases l with
  | nil => exact ⟨SeparatedUpTo.nil, rfl⟩
  | cons x l =>
    obtain ⟨hsep, -, hcover⟩ := coalesceFrom_spec hL x l h
    exact ⟨hsep, by rw [cover_cons]; exact hcover⟩

theorem length_coalesceFrom_le (x : PhysRegion) (l : List PhysRegion) :
    (PhysAllocator.coalesceFrom x l).length ≤ l.length + 1 := by
  induction l generalizing x with
  | nil => simp [PhysAllocator.coalesceFrom]
  | cons y rest ih =>
    unfold PhysAllocator.coalesceFrom
    split
    · have hle := ih ⟨x.base, wadd x.len y.len⟩
      simp only [List.length_cons]
      omega
    · have hle := ih y
      simp only [List.length_cons]
      omega

theorem length_coalesce_le (l : List PhysRegion) :
    (PhysAllocator.coalesce l).length ≤ l.length := by
  cases l with
  | nil => simp [PhysAllocator.coalesce]
  | cons x l => exact length_coalesceFrom_le x l

theorem length_insertSorted (r : PhysRegion) (l : List PhysRegion) :
    (PhysAllocator.insertSorted r l).length = l.length + 1 := by
  induction l with
  | nil => rfl
  | cons x xs ih =>
    unfold PhysAllocator.insertSorted
    split <;> simp [ih]

namespace PhysAllocator

def freeSet (a : PhysAllocator) : Set Nat := cover a.regions

/-- The invariant of the allocator, for memory that ends at most at `L`. -/
structure WellFormedUpTo (L : Nat) (a : PhysAllocator) : Prop where
  separated : SeparatedUpTo L a.regions
  len_le : a.len ≤ maxFragments

structure WellFormed (a : PhysAllocator) : Prop where
  separated : Separated a.regions
  len_le : a.len ≤ maxFragments

theorem wellFormed_iff {a : PhysAllocator} : a.WellFormed ↔ a.WellFormedUpTo (2 ^ 63) :=
  ⟨fun h => ⟨separated_iff.mp h.separated, h.len_le⟩,
    fun h => ⟨separated_iff.mpr h.separated, h.len_le⟩⟩

theorem new_wellFormedUpTo (L : Nat) : new.WellFormedUpTo L := ⟨SeparatedUpTo.nil, by decide⟩

theorem new_wellFormed : new.WellFormed := wellFormed_iff.mpr (new_wellFormedUpTo _)

section

variable {L : Nat} (hL : L < 2 ^ 64) {a : PhysAllocator}

include hL

/-- `insert` of a region disjoint from the free ones: it is added, or the list was
full and nothing changed. -/
theorem WellFormedUpTo.insert_spec (h : a.WellFormedUpTo L) {r : PhysRegion}
    (hfits : r.base + r.len ≤ L) (hd : Disjoint r.addrs a.freeSet) :
    (a.insert r).2.WellFormedUpTo L ∧ (a.insert r).2.len ≤ a.len + (if r.len = 0 then 0 else 1) ∧
      ((a.insert r).1 = true ∧ (a.insert r).2.freeSet = r.addrs ∪ a.freeSet ∨
        (a.insert r).1 = false ∧ maxFragments ≤ a.len ∧ 0 < r.len ∧ (a.insert r).2 = a) := by
  unfold insert
  by_cases hempty : r.len = 0
  · have haddrs : r.addrs = ∅ := by
      ext x
      simp [hempty]
    rw [if_pos hempty, if_pos hempty, haddrs, Set.empty_union]
    exact ⟨h, Nat.le_refl _, .inl ⟨rfl, rfl⟩⟩
  · by_cases hfull : maxFragments ≤ a.len
    · rw [if_neg hempty, if_neg hempty, if_pos hfull]
      exact ⟨h, Nat.le_succ _, .inr ⟨rfl, hfull, by omega, rfl⟩⟩
    · have hord := ordered_insertSorted h.separated.ordered (by omega) hfits hd
      obtain ⟨hsep, hcover⟩ := coalesce_spec hL hord
      have hlen : (coalesce (insertSorted r a.regions)).length ≤ a.len + 1 := by
        have hle := length_coalesce_le (insertSorted r a.regions)
        rwa [length_insertSorted] at hle
      rw [if_neg hempty, if_neg hempty, if_neg hfull]
      refine ⟨⟨hsep, ?_⟩, hlen, .inl ⟨rfl, ?_⟩⟩
      · show (coalesce (insertSorted r a.regions)).length ≤ maxFragments
        omega
      · show cover (coalesce (insertSorted r a.regions)) = r.addrs ∪ cover a.regions
        rw [hcover, cover_insertSorted]

theorem WellFormedUpTo.insert_of_room (h : a.WellFormedUpTo L) {r : PhysRegion}
    (hfits : r.base + r.len ≤ L) (hd : Disjoint r.addrs a.freeSet)
    (hroom : 0 < r.len → a.len < maxFragments) :
    (a.insert r).2.WellFormedUpTo L ∧
      (a.insert r).2.len ≤ a.len + (if r.len = 0 then 0 else 1) ∧
      (a.insert r).2.freeSet = r.addrs ∪ a.freeSet := by
  obtain ⟨hwf, hlen, ⟨-, hset⟩ | ⟨-, hfull, hpos, -⟩⟩ := h.insert_spec hL hfits hd
  · exact ⟨hwf, hlen, hset⟩
  · have hlt := hroom hpos
    omega

end

theorem exists_split_of_getElem? {l : List PhysRegion} {i : Nat} {r : PhysRegion}
    (h : l[i]? = some r) : ∃ l₁ l₂, l = l₁ ++ r :: l₂ ∧ l.eraseIdx i = l₁ ++ l₂ := by
  induction l generalizing i with
  | nil => simp at h
  | cons x xs ih =>
    cases i with
    | zero =>
      obtain rfl : x = r := by simpa using h
      exact ⟨[], xs, rfl, rfl⟩
    | succ i =>
      obtain ⟨l₁, l₂, hl, herase⟩ := ih (by simpa using h)
      exact ⟨x :: l₁, l₂, by simp [hl], by simp [herase]⟩

theorem WellFormedUpTo.remove_spec {L : Nat} {a : PhysAllocator} (h : a.WellFormedUpTo L)
    {i : Nat} {r : PhysRegion} (hr : a.regions[i]? = some r) :
    (a.remove i).WellFormedUpTo L ∧ (a.remove i).len + 1 = a.len ∧
      (a.remove i).freeSet = a.freeSet \ r.addrs ∧ r.addrs ⊆ a.freeSet := by
  obtain ⟨l₁, l₂, hl, herase⟩ := exists_split_of_getElem? hr
  have hlen : (a.remove i).len + 1 = a.len := by
    unfold len remove
    rw [herase, hl]
    simp only [List.length_append, List.length_cons]
    omega
  have hold : a.freeSet = cover l₁ ∪ (r.addrs ∪ cover l₂) := by
    rw [freeSet, hl, cover_append, cover_cons]
  have hnew : (a.remove i).freeSet = cover l₁ ∪ cover l₂ := by
    rw [freeSet, remove, herase, cover_append]
  have hsep := h.separated
  refine ⟨⟨hsep.sublist (List.eraseIdx_sublist _ _), ?_⟩, hlen, ?_, ?_⟩
  · have hle := h.len_le
    omega
  · rw [hl] at hsep
    obtain ⟨-, hrl₂, hcross⟩ := List.pairwise_append.mp hsep.sorted
    have hafter := (List.pairwise_cons.mp hrl₂).1
    rw [hold, hnew]
    ext x
    simp only [Set.mem_union, Set.mem_sdiff]
    constructor
    · intro hx
      refine ⟨by tauto, fun hxr => ?_⟩
      -- The other entries end before `r` begins or begin behind its end.
      rcases hx with ⟨s, hs, hxs⟩ | ⟨s, hs, hxs⟩
      · have hlt := hcross s hs r List.mem_cons_self
        simp only [PhysRegion.mem_addrs] at hxr hxs
        omega
      · have hlt := hafter s hs
        simp only [PhysRegion.mem_addrs] at hxr hxs
        omega
    · rintro ⟨hx | hx | hx, hnot⟩
      · exact .inl hx
      · exact absurd hx hnot
      · exact .inr hx
  · intro x hx
    exact ⟨r, List.mem_of_getElem? hr, hx⟩

/-- Cutting a range out of one fragment removes exactly that range from the free set. -/
theorem WellFormedUpTo.carve_spec {L : Nat} (hL : L < 2 ^ 64) {a : PhysAllocator}
    (h : a.WellFormedUpTo L) {i start size : Nat} {r : PhysRegion}
    (hr : a.regions[i]? = some r) (hlo : r.base ≤ start) (hhi : start + size ≤ r.base + r.len)
    (hrest : ¬ a.keinPlatzFuerRest r start (start + size)) :
    (a.carve i start size).1 = some ⟨⟨start, size⟩, Rights.rw⟩ ∧
      (a.carve i start size).2.WellFormedUpTo L ∧
      Set.Ico start (start + size) ⊆ a.freeSet ∧
      (a.carve i start size).2.freeSet = a.freeSet \ Set.Ico start (start + size) := by
  have hfits := h.separated.fits r (List.mem_of_getElem? hr)
  have hfin : r.fin = r.base + r.len := PhysRegion.fin_eq (by omega)
  obtain ⟨hwf₁, hlen₁, hset₁, hsub⟩ := h.remove_spec hr
  have hlen := h.len_le
  have he : wadd start size = start + size := wadd_eq (by omega)
  have hpre : wsub start r.base = start - r.base := wsub_eq (by omega) hlo
  have hsuf : wsub r.fin (start + size) = r.base + r.len - (start + size) := by
    rw [hfin]
    exact wsub_eq (by omega) hhi
  simp only [carve, hr, he, hpre, hsuf]
  set pre : PhysRegion := ⟨r.base, start - r.base⟩ with hpredef
  set suf : PhysRegion := ⟨start + size, r.base + r.len - (start + size)⟩ with hsufdef
  have hpreSub : pre.addrs ⊆ r.addrs := by
    intro x hx
    simp only [hpredef, PhysRegion.mem_addrs] at hx ⊢
    omega
  have hsufSub : suf.addrs ⊆ r.addrs := by
    intro x hx
    simp only [hsufdef, PhysRegion.mem_addrs] at hx ⊢
    omega
  have hdr : Disjoint r.addrs (a.remove i).freeSet := by
    rw [hset₁]
    exact Set.disjoint_sdiff_right
  obtain ⟨hwf₂, hlen₂, hset₂⟩ := hwf₁.insert_of_room hL (r := pre)
    (show r.base + (start - r.base) ≤ L by omega) (hdr.mono_left hpreSub) (fun _ => by omega)
  have hds : Disjoint suf.addrs ((a.remove i).insert pre).2.freeSet := by
    rw [hset₂, Set.disjoint_union_right]
    refine ⟨?_, hdr.mono_left hsufSub⟩
    rw [Set.disjoint_left]
    intro x hx hx'
    simp only [hpredef, hsufdef, PhysRegion.mem_addrs] at hx hx'
    omega
  obtain ⟨hwf₃, -, hset₃⟩ := hwf₂.insert_of_room hL (r := suf)
    (show start + size + (r.base + r.len - (start + size)) ≤ L by omega) hds (fun hsufpos => by
      by_cases hprezero : pre.len = 0
      · rw [if_pos hprezero] at hlen₂
        omega
      · rw [if_neg hprezero] at hlen₂
        -- A remainder on both sides is only cut while the list has room for one more.
        have hroom : ¬ maxFragments ≤ a.len := by
          intro hfull
          apply hrest
          simp only [hpredef] at hprezero
          simp only [hsufdef] at hsufpos
          exact ⟨⟨by omega, by rw [hfin]; omega⟩, hfull⟩
        omega)
  refine ⟨trivial, hwf₃, ?_, ?_⟩
  · intro x hx
    apply hsub
    simp only [Set.mem_Ico] at hx
    simp only [PhysRegion.mem_addrs]
    omega
  · rw [hset₃, hset₂, hset₁]
    ext x
    have hin : x ∈ r.addrs → x ∈ a.freeSet := fun hx => hsub hx
    simp only [Set.mem_union, Set.mem_sdiff, Set.mem_Ico, hpredef, hsufdef,
      PhysRegion.mem_addrs] at hin ⊢
    constructor
    · rintro (hx | hx | ⟨hx, hnot⟩)
      · exact ⟨hin (by omega), by omega⟩
      · exact ⟨hin (by omega), by omega⟩
      · exact ⟨hx, by omega⟩
    · rintro ⟨hx, hnot⟩
      by_cases hxr : r.base ≤ x ∧ x < r.base + r.len
      · by_cases hlt : x < start
        · exact .inr (.inl (by omega))
        · exact .inl (by omega)
      · exact .inr (.inr ⟨hx, hxr⟩)

theorem insert_spec {a : PhysAllocator} (h : a.WellFormed) {r : PhysRegion}
    (hfits : r.base + r.len ≤ 2 ^ 63) (hd : Disjoint r.addrs a.freeSet) :
    (a.insert r).2.WellFormed ∧ (a.insert r).2.len ≤ a.len + (if r.len = 0 then 0 else 1) ∧
      ((a.insert r).1 = true ∧ (a.insert r).2.freeSet = r.addrs ∪ a.freeSet ∨
        (a.insert r).1 = false ∧ maxFragments ≤ a.len ∧ 0 < r.len ∧ (a.insert r).2 = a) := by
  rw [wellFormed_iff]
  exact (wellFormed_iff.mp h).insert_spec (by decide) hfits hd

theorem carve_spec {a : PhysAllocator} (h : a.WellFormed) {i start size : Nat} {r : PhysRegion}
    (hr : a.regions[i]? = some r) (hlo : r.base ≤ start) (hhi : start + size ≤ r.base + r.len)
    (hrest : ¬ a.keinPlatzFuerRest r start (start + size)) :
    (a.carve i start size).1 = some ⟨⟨start, size⟩, Rights.rw⟩ ∧
      (a.carve i start size).2.WellFormed ∧
      Set.Ico start (start + size) ⊆ a.freeSet ∧
      (a.carve i start size).2.freeSet = a.freeSet \ Set.Ico start (start + size) := by
  rw [wellFormed_iff]
  exact (wellFormed_iff.mp h).carve_spec (by decide) hr hlo hhi hrest

end PhysAllocator

end Caprock.Mem
