import Mathlib.Data.List.Nodup
import Caprock.Lib.Slots

/-! # Fixed tables with keys

The entries of a table are found by a key.  As long as no key stands twice, a table is the set
of its entries: every operation says which entries are in it afterwards.
-/

namespace Slots

variable {α κ : Type*} {key : α → κ} {l : List (Option α)} {i : Nat} {a b : α}
  {k : κ}

def freePlace (l : List (Option α)) : Option Nat := l.findIdx? Option.isNone

/-- No key stands twice. -/
def Unique (key : α → κ) (l : List (Option α)) : Prop := (l.reduceOption.map key).Nodup

theorem mem_of_getElem? (h : l[i]? = some (some a)) : a ∈ l.reduceOption :=
  mem_entries.mpr (List.mem_of_getElem? h)

namespace Unique

theorem nil : Unique key (List.replicate i none) := by
  have hnone : (List.replicate i (none : Option α)).reduceOption = [] := by
    rw [List.eq_nil_iff_forall_not_mem]
    intro a ha
    have hmem := List.eq_of_mem_replicate (mem_entries.mp ha)
    cases hmem
  rw [Unique, hnone]
  exact List.nodup_nil

theorem eq_of_key (h : Unique key l) (ha : a ∈ l.reduceOption) (hb : b ∈ l.reduceOption)
    (hk : key a = key b) : a = b := List.inj_on_of_nodup_map h ha hb hk

theorem of_perm {rest : List α} (h : Unique key l) (hperm : l.reduceOption.Perm (a :: rest)) :
    (rest.map key).Nodup ∧ ∀ x, x ∈ rest ↔ x ∈ l.reduceOption ∧ key x ≠ key a := by
  have hnodup : ((a :: rest).map key).Nodup := (hperm.map key).nodup_iff.mp h
  rw [List.map_cons, List.nodup_cons] at hnodup
  refine ⟨hnodup.2, fun x => ?_⟩
  rw [hperm.mem_iff, List.mem_cons]
  constructor
  · intro hx
    exact ⟨.inr hx, fun hk => hnodup.1 (hk ▸ List.mem_map_of_mem hx)⟩
  · rintro ⟨rfl | hx, hne⟩
    · exact absurd rfl hne
    · exact hx

theorem fill (h : Unique key l) (hi : l[i]? = some none) (hnew : ∀ x ∈ l.reduceOption, key x ≠ key a) :
    Unique key (l.set i (some a)) ∧
      ∀ x, x ∈ (l.set i (some a)).reduceOption ↔ x = a ∨ x ∈ l.reduceOption := by
  have hperm := perm_fill (a := a) hi
  constructor
  · refine (hperm.map key).nodup_iff.mpr (List.nodup_cons.mpr ⟨?_, h⟩)
    intro hmem
    obtain ⟨x, hx, hk⟩ := List.mem_map.mp hmem
    exact hnew x hx hk
  · intro x
    rw [hperm.mem_iff, List.mem_cons]

theorem clear (h : Unique key l) (hi : l[i]? = some (some a)) :
    Unique key (l.set i none) ∧
      ∀ x, x ∈ (l.set i none).reduceOption ↔ x ∈ l.reduceOption ∧ key x ≠ key a :=
  h.of_perm (perm_clear hi)

theorem exchange (h : Unique key l) (hi : l[i]? = some (some a)) (hk : key b = key a) :
    Unique key (l.set i (some b)) ∧ ∀ x, x ∈ (l.set i (some b)).reduceOption ↔
      x = b ∨ x ∈ l.reduceOption ∧ key x ≠ key a := by
  obtain ⟨hunique, hmem⟩ := h.clear hi
  have hfree : (l.set i none)[i]? = some none :=
    List.getElem?_set_self (List.getElem?_eq_some_iff.mp hi).1
  have hnew : ∀ x ∈ (l.set i none).reduceOption, key x ≠ key b := fun x hx =>
    hk ▸ ((hmem x).mp hx).2
  have hfill := hunique.fill hfree hnew
  rw [List.set_set] at hfill
  refine ⟨hfill.1, fun x => ?_⟩
  rw [hfill.2 x, hmem x]

end Unique

section

variable [DecidableEq κ]

def position (key : α → κ) (l : List (Option α)) (k : κ) : Option Nat :=
  l.findIdx? fun x => x.any fun a => decide (key a = k)

theorem position_eq_some (h : position key l k = some i) :
    ∃ a, l[i]? = some (some a) ∧ key a = k := by
  obtain ⟨a, ha, hk⟩ := found_of_findIdx? h
  exact ⟨a, ha, of_decide_eq_true hk⟩

theorem position_eq_none : position key l k = none ↔ ∀ a ∈ l.reduceOption, key a ≠ k := by
  rw [position, List.findIdx?_eq_none_iff]
  constructor
  · intro h a ha
    simpa using h _ (mem_entries.mp ha)
  · intro h x hx
    cases x with
    | none => rfl
    | some a => simpa using h a (mem_entries.mpr hx)

/-- The first place whose entry has the key, with the entry. -/
def find (key : α → κ) (l : List (Option α)) (k : κ) : Option (Nat × α) :=
  match position key l k with
  | none => none
  | some i =>
      match l[i]? with
      | some (some a) => some (i, a)
      | _ => none

theorem find_eq_some (h : find key l k = some (i, a)) :
    l[i]? = some (some a) ∧ key a = k := by
  unfold find at h
  cases hpos : position key l k with
  | none =>
    rw [hpos] at h
    cases h
  | some j =>
    obtain ⟨b, hb, hk⟩ := position_eq_some hpos
    rw [hpos] at h
    simp only [hb, Option.some.injEq, Prod.mk.injEq] at h
    obtain ⟨rfl, rfl⟩ := h
    exact ⟨hb, hk⟩

theorem find_mem (h : find key l k = some (i, a)) : a ∈ l.reduceOption :=
  mem_of_getElem? (find_eq_some h).1

theorem find_eq_none : find key l k = none ↔ ∀ a ∈ l.reduceOption, key a ≠ k := by
  rw [← position_eq_none]
  constructor
  · intro h
    cases hpos : position key l k with
    | none => rfl
    | some i =>
      obtain ⟨a, ha, -⟩ := position_eq_some hpos
      unfold find at h
      simp [hpos, ha] at h
  · intro hpos
    unfold find
    rw [hpos]

theorem Unique.find_of_mem (h : Unique key l) (ha : a ∈ l.reduceOption) :
    ∃ i, find key l (key a) = some (i, a) ∧ l[i]? = some (some a) := by
  cases hf : find key l (key a) with
  | none => exact absurd rfl (find_eq_none.mp hf a ha)
  | some p =>
    obtain ⟨hi, hk⟩ := find_eq_some hf
    have heq : p.2 = a := h.eq_of_key (mem_of_getElem? hi) ha hk
    subst heq
    exact ⟨p.1, rfl, hi⟩

end

theorem freePlace_eq_none : freePlace l = none ↔ l.length = l.reduceOption.length := by
  rw [freePlace, List.findIdx?_eq_none_iff]
  induction l with
  | nil => simp [List.reduceOption]
  | cons x l ih =>
    have hle := List.reduceOption_length_le l
    cases x with
    | none =>
      simp only [List.mem_cons, forall_eq_or_imp, List.reduceOption_cons_of_none,
        List.length_cons]
      constructor
      · rintro ⟨hnone, -⟩
        cases hnone
      · omega
    | some a =>
      simp only [List.mem_cons, forall_eq_or_imp, Option.isNone_some, true_and, ih,
        List.reduceOption_cons_of_some, List.length_cons]
      omega

end Slots
