import Caprock.Lib.Run

/-! # What a run hands on

`collect` gathers what the operations of a run contribute, in order.  A system that takes
items in and hands items out is a queue when what it held and took in is what it hands out
and still holds.  A run is a queue at each of its prefixes exactly when every one of its
steps is: the law of a step is the guard of the run.
-/

namespace Execution

variable {σ ι α : Type*} {step : σ → ι → Option σ}

def collect (step : σ → ι → Option σ) (out : σ → ι → List α) : σ → List ι → List α
  | _, [] => []
  | s, op :: ops =>
      match step s op with
      | none => []
      | some s' => out s op ++ collect step out s' ops

@[simp] theorem collect_nil (out : σ → ι → List α) (s : σ) : collect step out s [] = [] := rfl

theorem collect_cons {s s' : σ} {op : ι} (h : step s op = some s') (out : σ → ι → List α)
    (ops : List ι) : collect step out s (op :: ops) = out s op ++ collect step out s' ops := by
  rw [collect, h]

theorem collect_append {s t : σ} {xs : List ι} (h : run step s xs = some t)
    (out : σ → ι → List α) (ys : List ι) :
    collect step out s (xs ++ ys) = collect step out s xs ++ collect step out t ys := by
  induction xs generalizing s with
  | nil =>
    obtain rfl : s = t := by simpa using h
    rfl
  | cons op xs ih =>
    obtain ⟨s', hs', hrest⟩ := run_cons_eq_some.mp h
    rw [List.cons_append, collect_cons hs', collect_cons hs', ih hrest, List.append_assoc]

section

variable {Inv : σ → Prop} {held : σ → List α} {came left : σ → ι → List α} {ok : σ → ι → Prop}

/-- What came in is what was handed out and is still held, after every prefix of a run,
exactly if every step of the run hands its items on. -/
theorem conserved_iff_admissible
    (hstep : ∀ s op s', Inv s → step s op = some s' →
      Inv s' ∧ (held s ++ came s op = left s op ++ held s' ↔ ok s op))
    {s t : σ} {ops : List ι} (hs : Inv s) (hrun : run step s ops = some t) :
    (∀ xs u, xs <+: ops → run step s xs = some u →
      held s ++ collect step came s xs = collect step left s xs ++ held u) ↔
    Admissible step ok s ops := by
  induction ops generalizing s with
  | nil =>
    refine ⟨fun _ => trivial, fun _ xs u hxs hu => ?_⟩
    obtain rfl := List.prefix_nil.mp hxs
    obtain rfl : s = u := by simpa using hu
    simp
  | cons op ops ih =>
    obtain ⟨s', hs', hrest⟩ := run_cons_eq_some.mp hrun
    obtain ⟨hinv, hlaw⟩ := hstep s op s' hs hs'
    have hnext := ih hinv hrest
    constructor
    · intro h
      have hone := h [op] s' ⟨ops, rfl⟩ (run_cons_of_step hs' [])
      rw [collect_cons hs', collect_cons hs', collect_nil, collect_nil, List.append_nil,
        List.append_nil] at hone
      refine ⟨hlaw.mp hone, fun s₁ hs₁ => ?_⟩
      obtain rfl : s' = s₁ := Option.some.inj (hs'.symm.trans hs₁)
      refine hnext.mp fun xs u hxs hu => ?_
      have hall := h (op :: xs) u (List.cons_prefix_cons.mpr ⟨rfl, hxs⟩)
        ((run_cons_of_step hs' xs).trans hu)
      rw [collect_cons hs', collect_cons hs', ← List.append_assoc, hone, List.append_assoc,
        List.append_assoc] at hall
      exact List.append_cancel_left hall
    · intro h xs u hxs hu
      cases xs with
      | nil =>
        obtain rfl : s = u := by simpa using hu
        simp
      | cons x xs =>
        obtain ⟨rfl, hxs'⟩ := List.cons_prefix_cons.mp hxs
        rw [run_cons_of_step hs'] at hu
        have hrec := hnext.mpr (h.2 s' hs') xs u hxs' hu
        rw [collect_cons hs', collect_cons hs', ← List.append_assoc, hlaw.mpr h.1,
          List.append_assoc, hrec, List.append_assoc]

end

theorem admissible_forall {κ : Type*} {ok : κ → σ → ι → Prop} {s : σ} {ops : List ι} :
    Admissible step (fun s op => ∀ k, ok k s op) s ops ↔ ∀ k, Admissible step (ok k) s ops := by
  simp only [admissible_iff_forall_reached]
  constructor
  · intro h k xs op t hpre hrun
    exact h xs op t hpre hrun k
  · intro h xs op t hpre hrun k
    exact h k xs op t hpre hrun

end Execution
