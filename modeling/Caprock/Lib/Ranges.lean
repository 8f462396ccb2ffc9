import Mathlib

/-! # Lists of ranges

A range is a start and a length, and a list of them describes a part of memory.  Two lists are the
`Same` part when they cover the same addresses with the same total length, the one without overlap
exactly if the other is.  Reordering a list, cutting a range in two and joining neighbours all
stay in the same part.  An empty range has no address and overlaps nothing.
-/

namespace Ranges

abbrev Range := Nat × Nat

def addrs (r : Range) : Set Nat := Set.Ico r.1 (r.1 + r.2)

def cover (l : List Range) : Set Nat := {x | ∃ r ∈ l, x ∈ addrs r}

def total (l : List Range) : Nat := (l.map Prod.snd).sum

/-- No address lies in two ranges of the list. -/
def Apart (l : List Range) : Prop := l.Pairwise fun r s => Disjoint (addrs r) (addrs s)

variable {l m k : List Range} {r s : Range}

@[simp] theorem cover_nil : cover [] = ∅ := by
  ext x
  simp [cover]

@[simp] theorem cover_cons : cover (r :: l) = addrs r ∪ cover l := by
  ext x
  simp [cover]

theorem cover_append : cover (l ++ m) = cover l ∪ cover m := by
  induction l with
  | nil => simp
  | cons r l ih => rw [List.cons_append, cover_cons, cover_cons, ih, Set.union_assoc]

theorem addrs_subset_cover (hr : r ∈ l) : addrs r ⊆ cover l := fun _ hx => ⟨r, hr, hx⟩

@[simp] theorem total_nil : total [] = 0 := rfl

@[simp] theorem total_cons : total (r :: l) = r.2 + total l := by simp [total]

theorem total_append : total (l ++ m) = total l + total m := by simp [total]

theorem disjoint_cover_iff {t : Set Nat} :
    Disjoint t (cover l) ↔ ∀ r ∈ l, Disjoint t (addrs r) := by
  induction l with
  | nil => simp
  | cons r l ih => simp [ih]

@[simp] theorem apart_nil : Apart [] := List.Pairwise.nil

theorem apart_cons : Apart (r :: l) ↔ Disjoint (addrs r) (cover l) ∧ Apart l := by
  rw [Apart, List.pairwise_cons, disjoint_cover_iff]
  rfl

theorem apart_append : Apart (l ++ m) ↔ Apart l ∧ Apart m ∧ Disjoint (cover l) (cover m) := by
  induction l with
  | nil => simp
  | cons r l ih =>
    rw [List.cons_append, apart_cons, apart_cons, ih, cover_append, cover_cons,
      Set.disjoint_union_right, Set.disjoint_union_left]
    tauto

theorem end_le {n : Nat} (hr : r ∈ l) (hpos : 0 < r.2) (hn : cover l ⊆ Set.Iio n) :
    r.1 + r.2 ≤ n := by
  have hlast : r.1 + r.2 - 1 ∈ addrs r := ⟨by omega, by omega⟩
  have hlt : r.1 + r.2 - 1 < n := hn (addrs_subset_cover hr hlast)
  omega

theorem disjoint_addrs_iff (hr : 0 < r.2) (hs : 0 < s.2) :
    Disjoint (addrs r) (addrs s) ↔ r.1 + r.2 ≤ s.1 ∨ s.1 + s.2 ≤ r.1 := by
  rw [addrs, addrs, Set.Ico_disjoint_Ico]
  omega

structure Same (l m : List Range) : Prop where
  cover : cover l = cover m
  total : total l = total m
  apart : Apart l ↔ Apart m

namespace Same

theorem refl (l : List Range) : Same l l := ⟨rfl, rfl, Iff.rfl⟩

theorem symm (h : Same l m) : Same m l := ⟨h.cover.symm, h.total.symm, h.apart.symm⟩

theorem trans (h : Same l m) (h' : Same m k) : Same l k :=
  ⟨h.cover.trans h'.cover, h.total.trans h'.total, h.apart.trans h'.apart⟩

theorem of_perm (h : l.Perm m) : Same l m where
  cover := by
    ext x
    simp only [Ranges.cover, Set.mem_ofPred_eq, h.mem_iff]
  total := (h.map Prod.snd).sum_eq
  apart := h.pairwise_iff fun hd => hd.symm

theorem join (o a b : Nat) (l : List Range) : Same ((o, a) :: (o + a, b) :: l) ((o, a + b) :: l) := by
  have hunion : addrs (o, a) ∪ addrs (o + a, b) = addrs (o, a + b) := by
    simp only [addrs, ← Nat.add_assoc]
    exact Set.Ico_union_Ico_eq_Ico (by omega) (by omega)
  have hsplit : Disjoint (addrs (o, a)) (addrs (o + a, b)) :=
    Set.Ico_disjoint_Ico.mpr (by simp only []; omega)
  refine ⟨?_, ?_, ?_⟩
  · rw [cover_cons, cover_cons, cover_cons, ← Set.union_assoc, hunion]
  · simp only [total_cons, Nat.add_assoc]
  · rw [apart_cons, apart_cons, apart_cons, cover_cons, ← hunion, Set.disjoint_union_right,
      Set.disjoint_union_left]
    tauto

end Same

/-- The right list comes out of the left one by reordering and by joining neighbours. -/
inductive Coalesced : List Range → List Range → Prop
  | perm {l m : List Range} (h : l.Perm m) : Coalesced l m
  | join (o a b : Nat) (l : List Range) : Coalesced ((o, a) :: (o + a, b) :: l) ((o, a + b) :: l)
  | trans {l m k : List Range} (h : Coalesced l m) (h' : Coalesced m k) : Coalesced l k

theorem Coalesced.same (h : Coalesced l m) : Same l m := by
  induction h with
  | perm h => exact .of_perm h
  | join o a b l => exact .join o a b l
  | trans _ _ ih ih' => exact ih.trans ih'

theorem Coalesced.append_left (k : List Range) (h : Coalesced l m) : Coalesced (k ++ l) (k ++ m) := by
  induction h with
  | perm h => exact .perm (h.append_left k)
  | join o a b l =>
    have hfront : (k ++ (o, a) :: (o + a, b) :: l).Perm ((o, a) :: (o + a, b) :: (k ++ l)) :=
      List.perm_middle.trans (List.perm_middle.cons _)
    exact .trans (.perm hfront) (.trans (.join o a b (k ++ l)) (.perm List.perm_middle.symm))
  | trans _ _ ih ih' => exact ih.trans ih'

/-- Starts and lengths are multiples of `q`. -/
def Aligned (q : Nat) (l : List Range) : Prop := ∀ r ∈ l, q ∣ r.1 ∧ q ∣ r.2

theorem aligned_cons {q : Nat} : Aligned q (r :: l) ↔ (q ∣ r.1 ∧ q ∣ r.2) ∧ Aligned q l :=
  List.forall_mem_cons

theorem aligned_append {q : Nat} : Aligned q (l ++ m) ↔ Aligned q l ∧ Aligned q m :=
  List.forall_mem_append

theorem Aligned.perm {q : Nat} (hl : Aligned q l) (h : l.Perm m) : Aligned q m :=
  fun r hr => hl r (h.mem_iff.mpr hr)

theorem Aligned.joined {q : Nat} (hl : Aligned q l) (h : Coalesced l m) : Aligned q m := by
  induction h with
  | perm h => exact hl.perm h
  | join o a b l =>
    rw [aligned_cons, aligned_cons] at hl
    obtain ⟨⟨ho, ha⟩, ⟨-, hb⟩, hrest⟩ := hl
    exact aligned_cons.mpr ⟨⟨ho, (Nat.dvd_add_iff_right ha).mp hb⟩, hrest⟩
  | trans _ _ ih ih' => exact ih' (ih hl)

end Ranges
