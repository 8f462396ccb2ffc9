import Mathlib.Data.List.Induction
import Mathlib.Data.List.Perm.Basic
import Mathlib.Data.List.ReduceOption

/-! # Fixed tables of optional entries

An array of `Option` is a table; its entries are `reduceOption`.  Filling a free place adds one
entry and emptying a place removes one, up to the order of the places.
-/

namespace Slots

variable {α : Type*} {l : List (Option α)} {i : Nat} {a : α}

theorem perm_set {l : List α} {i : Nat} {a b : α} (h : l[i]? = some a) :
    (a :: l.set i b).Perm (b :: l) := by
  obtain ⟨hlt, rfl⟩ := List.getElem?_eq_some_iff.mp h
  have hset := (List.set_perm_cons_eraseIdx hlt b).cons l[i]
  have hold := (List.getElem_cons_eraseIdx_perm hlt).cons b
  exact hset.trans ((List.Perm.swap b l[i] _).trans hold)

theorem perm_swapRemove {l : List α} {i : Nat} {a : α} (h : l[i]? = some a) :
    l.Perm (a :: (l.set i (l.getLastD a)).dropLast) := by
  cases l using List.reverseRecOn with
  | nil => simp at h
  | append_singleton l z =>
    rw [List.getLastD_concat]
    by_cases hi : i < l.length
    · have hget : l[i]? = some a := by rwa [List.getElem?_append_left hi] at h
      rw [List.set_append_left _ _ hi, List.dropLast_concat]
      exact (List.perm_append_singleton z l).trans (perm_set hget).symm
    · have hlast : i = l.length := by
        have hlt := (List.getElem?_eq_some_iff.mp h).1
        rw [List.length_append, List.length_singleton] at hlt
        omega
      subst hlast
      obtain rfl : z = a := by simpa using h
      rw [List.set_append_right _ _ (Nat.le_refl _), Nat.sub_self, List.set_cons_zero,
        List.dropLast_concat]
      exact List.perm_append_singleton z l

theorem filterMap_set_of_eq {β : Type*} {f : α → Option β} {l : List α} {i : Nat} {a b : α}
    (h : l[i]? = some a) (hf : f b = f a) : (l.set i b).filterMap f = l.filterMap f := by
  induction l generalizing i with
  | nil => simp at h
  | cons x l ih =>
    cases i with
    | zero =>
      obtain rfl : x = a := by simpa using h
      simp [List.filterMap_cons, hf]
    | succ i =>
      have hrest := ih (by simpa using h)
      simp [List.filterMap_cons, hrest]

theorem mem_entries : a ∈ l.reduceOption ↔ some a ∈ l := List.reduceOption_mem_iff

/-- A free place is filled. -/
theorem perm_fill (h : l[i]? = some none) :
    (l.set i (some a)).reduceOption.Perm (a :: l.reduceOption) := by
  induction l generalizing i with
  | nil => cases h
  | cons x l ih =>
    cases i with
    | zero =>
      obtain rfl : x = none := by simpa using h
      rw [List.set_cons_zero, List.reduceOption_cons_of_some, List.reduceOption_cons_of_none]
    | succ i =>
      have hrest := ih (by simpa using h)
      cases x with
      | none =>
        rw [List.set_cons_succ, List.reduceOption_cons_of_none,
          List.reduceOption_cons_of_none]
        exact hrest
      | some b =>
        rw [List.set_cons_succ, List.reduceOption_cons_of_some,
          List.reduceOption_cons_of_some]
        exact (hrest.cons b).trans (List.Perm.swap a b _)

theorem perm_clear (h : l[i]? = some (some a)) :
    l.reduceOption.Perm (a :: (l.set i none).reduceOption) := by
  obtain ⟨hlt, heq⟩ := List.getElem?_eq_some_iff.mp h
  have hnone : (l.set i none)[i]? = some none := List.getElem?_set_self hlt
  have hback : (l.set i none).set i (some a) = l := by
    rw [List.set_set, ← heq, List.set_getElem_self]
  have hperm := perm_fill (a := a) hnone
  rwa [hback] at hperm

theorem free_of_findIdx? (h : l.findIdx? Option.isNone = some i) : l[i]? = some none := by
  obtain ⟨hlt, hnone, -⟩ := List.findIdx?_eq_some_iff_getElem.mp h
  rw [List.getElem?_eq_getElem hlt, Option.isNone_iff_eq_none.mp hnone]

theorem found_of_findIdx? {p : α → Bool} (h : l.findIdx? (fun x => x.any p) = some i) :
    ∃ a, l[i]? = some (some a) ∧ p a = true := by
  obtain ⟨hlt, hany, -⟩ := List.findIdx?_eq_some_iff_getElem.mp h
  rw [List.getElem?_eq_getElem hlt]
  cases hx : l[i] with
  | none =>
    rw [hx] at hany
    cases hany
  | some a =>
    rw [hx] at hany
    exact ⟨a, rfl, hany⟩

end Slots
