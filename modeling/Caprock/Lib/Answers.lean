import Mathlib.Data.List.Basic

/-! # Machines that answer

A machine takes operations one after the other and answers each.  Two machines whose states stay
related, and which answer alike in related states, answer every sequence alike.
-/

namespace Answers

variable {σ τ ι ω : Type*}

def play (step : σ → ι → ω × σ) : σ → List ι → List ω × σ
  | s, [] => ([], s)
  | s, op :: ops =>
      let later := play step (step s op).2 ops
      ((step s op).1 :: later.1, later.2)

structure Simulates (step : σ → ι → ω × σ) (step' : τ → ι → ω × τ) (R : σ → τ → Prop) : Prop where
  answer : ∀ {s t}, R s t → ∀ op, (step s op).1 = (step' t op).1
  next : ∀ {s t}, R s t → ∀ op, R (step s op).2 (step' t op).2

theorem Simulates.play {step : σ → ι → ω × σ} {step' : τ → ι → ω × τ} {R : σ → τ → Prop}
    (h : Simulates step step' R) {s : σ} {t : τ} (hst : R s t) (ops : List ι) :
    (play step s ops).1 = (play step' t ops).1 ∧
      R (Answers.play step s ops).2 (Answers.play step' t ops).2 := by
  induction ops generalizing s t with
  | nil => exact ⟨rfl, hst⟩
  | cons op ops ih =>
    obtain ⟨hanswers, hstate⟩ := ih (h.next hst op)
    exact ⟨congrArg₂ List.cons (h.answer hst op) hanswers, hstate⟩

end Answers
