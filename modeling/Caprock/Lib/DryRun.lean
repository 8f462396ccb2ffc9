import Mathlib.Data.List.Basic

/-! # Dry runs

A list of requests is taken one after the other; each is granted or refused, and what is granted
changes the state that the later ones meet.  A dry run answers the same requests from a summary of
the state.  It counts the refusals that may happen and gives up at the first that may not.

A summary that is related to the state by a simulation answers as the state does, and the outcome of
a dry run is then a statement about the real sequence.
-/

namespace DryRun

variable {σ τ α : Type*}

def takeAll (step : σ → α → Bool × σ) : σ → List α → List Bool × σ
  | s, [] => ([], s)
  | s, a :: rest =>
      let r := step s a
      let later := takeAll step r.2 rest
      (r.1 :: later.1, later.2)

def answered (step : σ → α → Bool × σ) (s : σ) (xs : List α) : List (α × Bool) :=
  xs.zip (takeAll step s xs).1

/-- The dry run: `n` refusals so far. -/
def dry (step : σ → α → Bool × σ) (optional : α → Bool) : σ → Nat → List α → Except α Nat
  | _, n, [] => .ok n
  | s, n, a :: rest =>
      let r := step s a
      if r.1 then dry step optional r.2 n rest
      else if optional a then dry step optional r.2 (n + 1) rest
      else .error a

def excused (optional : α → Bool) (x : α × Bool) : Bool := !x.2 && optional x.1

def broken (optional : α → Bool) (x : α × Bool) : Bool := !x.2 && !optional x.1

section

variable (step : σ → α → Bool × σ) (optional : α → Bool)

theorem answered_cons (s : σ) (a : α) (rest : List α) :
    answered step s (a :: rest) = (a, (step s a).1) :: answered step (step s a).2 rest :=
  rfl

theorem dry_cons (s : σ) (n : Nat) (a : α) (rest : List α) :
    dry step optional s n (a :: rest) =
      if (step s a).1 then dry step optional (step s a).2 n rest
      else if optional a then dry step optional (step s a).2 (n + 1) rest
      else .error a :=
  rfl

theorem dry_eq_ok_iff (s : σ) (m n : Nat) (xs : List α) :
    dry step optional s m xs = .ok n ↔
      (∀ x ∈ answered step s xs, broken optional x = false) ∧
        m + (answered step s xs).countP (excused optional) = n := by
  induction xs generalizing s m with
  | nil => simp [dry, answered, takeAll]
  | cons a rest ih =>
    rw [answered_cons, List.forall_mem_cons, List.countP_cons, dry_cons]
    cases hgrant : (step s a).1 with
    | true =>
      rw [if_pos rfl, ih]
      simp [broken, excused]
    | false =>
      cases hopt : optional a with
      | true =>
        rw [if_neg (by simp), if_pos rfl, ih]
        simp only [broken, excused, hopt, Bool.not_false, Bool.not_true, Bool.and_false,
          Bool.and_self, if_true, true_and]
        exact and_congr_right fun _ => by omega
      | false => simp [broken, hopt]

theorem dry_eq_error_iff (s : σ) (m : Nat) (xs : List α) (a : α) :
    dry step optional s m xs = .error a ↔
      ((answered step s xs).find? (broken optional)).map Prod.fst = some a := by
  induction xs generalizing s m with
  | nil => simp [dry, answered, takeAll]
  | cons b rest ih =>
    rw [answered_cons, List.find?_cons, dry_cons]
    cases hgrant : (step s b).1 with
    | true =>
      rw [if_pos rfl, ih]
      simp [broken]
    | false =>
      cases hopt : optional b with
      | true =>
        rw [if_neg (by simp), if_pos rfl, ih]
        simp [broken, hopt]
      | false => simp [broken, hopt]

end

theorem answered_eq_of_simulation {step : σ → α → Bool × σ} {step' : τ → α → Bool × τ}
    {R : List α → σ → τ → Prop}
    (hstep : ∀ a rest s t, R (a :: rest) s t →
      (step s a).1 = (step' t a).1 ∧ R rest (step s a).2 (step' t a).2)
    {s : σ} {t : τ} {xs : List α} (h : R xs s t) : answered step s xs = answered step' t xs := by
  induction xs generalizing s t with
  | nil => rfl
  | cons a rest ih =>
    obtain ⟨hanswer, hrest⟩ := hstep a rest s t h
    rw [answered_cons, answered_cons, hanswer, ih hrest]

end DryRun
