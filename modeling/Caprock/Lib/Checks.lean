import Mathlib.Data.List.Basic
import Mathlib.Logic.Basic

/-! # Chains of checks

A parser in `Except` is a chain of checks, each of which refuses or goes on.  The rules read an
acceptance backwards: what was accepted passed every check.

A check that may also panic has three ends.  `andThen` and `each` run such checks in order.
-/

namespace Checks

variable {ε α β : Type*}

/-- `ok_or`: what is missing is refused. -/
def okOr (e : ε) : Option α → Except ε α
  | none => .error e
  | some a => .ok a

@[simp] theorem okOr_eq_ok {e : ε} {o : Option α} {a : α} : okOr e o = .ok a ↔ o = some a := by
  cases o with
  | none | some b => simp [okOr]

theorem okOr_some_bind (e : ε) (a : α) (f : α → Except ε β) : (okOr e (some a)).bind f = f a := rfl

@[simp] theorem ite_error_eq_ok {p : Prop} [Decidable p] {e : ε} {x : Except ε α} {a : α} :
    (if p then .error e else x) = .ok a ↔ ¬ p ∧ x = .ok a := by
  by_cases hp : p
  · simp [hp]
  · simp [hp]

@[simp] theorem ite_ok_error_eq_ok {p : Prop} [Decidable p] {e : ε} {a b : α} :
    (if p then .ok a else .error e : Except ε α) = .ok b ↔ p ∧ a = b := by
  by_cases hp : p
  · simp [hp]
  · simp [hp]

@[simp] theorem bind_eq_ok {x : Except ε α} {f : α → Except ε β} {b : β} :
    x.bind f = .ok b ↔ ∃ a, x = .ok a ∧ f a = .ok b := by
  cases x with
  | error e | ok a => simp [Except.bind]

theorem exists_of_isOk {x : Except ε α} (h : x.isOk = true) : ∃ a, x = .ok a := by
  cases x with
  | error e => cases h
  | ok a => exact ⟨a, rfl⟩

abbrev Check (ε : Type*) := Option (Except ε Unit)

abbrev passed : Check ε := some (.ok ())

def andThen (x y : Check ε) : Check ε :=
  match x with
  | some (.ok ()) => y
  | some (.error e) => some (.error e)
  | none => none

def each (f : α → Check ε) : List α → Check ε
  | [] => passed
  | a :: l => andThen (f a) (each f l)

def report : Option ε → Check ε
  | none => passed
  | some e => some (.error e)

@[simp] theorem report_eq_passed {o : Option ε} : report o = passed ↔ o = none := by
  cases o with
  | none | some e => simp [report]

@[simp] theorem report_ne_none {o : Option ε} : report o ≠ none := by
  cases o with
  | none | some e => simp [report]

@[simp] theorem andThen_eq_passed {x y : Check ε} :
    andThen x y = passed ↔ x = passed ∧ y = passed := by
  rcases x with _ | e | u
  · simp [andThen]
  · simp [andThen]
  · simp [andThen]

@[simp] theorem andThen_eq_none {x y : Check ε} :
    andThen x y = none ↔ x = none ∨ x = passed ∧ y = none := by
  rcases x with _ | e | u
  · simp [andThen]
  · simp [andThen]
  · simp [andThen]

theorem andThen_ne_error {x y : Check ε} {e : ε} (hx : x ≠ some (.error e))
    (hy : y ≠ some (.error e)) : andThen x y ≠ some (.error e) := by
  rcases x with _ | e' | u
  · exact hx
  · exact hx
  · exact hy

theorem each_eq_passed {f : α → Check ε} {l : List α} :
    each f l = passed ↔ ∀ a ∈ l, f a = passed := by
  induction l with
  | nil => simp [each]
  | cons a l ih => rw [each, andThen_eq_passed, ih, List.forall_mem_cons]

theorem each_ne_error {f : α → Check ε} {l : List α} {e : ε} (h : ∀ a ∈ l, f a ≠ some (.error e)) :
    each f l ≠ some (.error e) := by
  induction l with
  | nil => simp [each]
  | cons a l ih =>
    rw [List.forall_mem_cons] at h
    exact andThen_ne_error h.1 (ih h.2)

theorem each_concat {f : α → Check ε} {l : List α} {a : α} :
    each f (l ++ [a]) = andThen (each f l) (f a) := by
  induction l with
  | nil => rcases h : f a with _ | e | u <;> simp [each, andThen, h]
  | cons b l ih => rcases h : f b with _ | e | u <;> simp [each, andThen, h, ih]

theorem each_range_eq_none {f : Nat → Check ε} {n : Nat} :
    each f (List.range n) = none ↔ ∃ i, i < n ∧ f i = none ∧ ∀ j, j < i → f j = passed := by
  induction n with
  | zero => simp [each]
  | succ n ih =>
    rw [List.range_succ, each_concat, andThen_eq_none, ih, each_eq_passed]
    simp only [List.mem_range]
    constructor
    · rintro (⟨i, hi, hnone, hpass⟩ | ⟨hpass, hnone⟩)
      · exact ⟨i, Nat.lt_succ_of_lt hi, hnone, hpass⟩
      · exact ⟨n, Nat.lt_succ_self n, hnone, hpass⟩
    · rintro ⟨i, hi, hnone, hpass⟩
      rcases Nat.lt_succ_iff_lt_or_eq.mp hi with hlt | rfl
      · exact .inl ⟨i, hlt, hnone, hpass⟩
      · exact .inr ⟨hpass, hnone⟩

def Refines (x : Check ε) (o : Option ε) : Prop := x = none ∨ x = report o

theorem refines_report (o : Option ε) : Refines (report o) o := .inr rfl

theorem Refines.andThen {x y : Check ε} {o o' : Option ε} (hx : Refines x o) (hy : Refines y o') :
    Refines (andThen x y) (o.or o') := by
  rcases hx with rfl | rfl
  · exact .inl rfl
  · cases o with
    | none => exact hy
    | some e => exact .inr rfl

theorem refines_each {f : α → Check ε} {g : α → Option ε} (h : ∀ a, Refines (f a) (g a))
    (l : List α) : Refines (each f l) (l.findSome? g) := by
  induction l with
  | nil => exact .inr rfl
  | cons a l ih =>
    have hor : (a :: l).findSome? g = (g a).or (l.findSome? g) := by
      rw [List.findSome?_cons]
      cases g a <;> rfl
    rw [hor]
    exact (h a).andThen ih

end Checks
