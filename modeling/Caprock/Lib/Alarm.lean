import Mathlib.Data.List.Basic

/-! # Alarms

An alarm is armed, disarmed, and fires.  Its record is in order when every firing directly follows
an arming: an alarm that was armed once fires at most once, and a disarmed one not at all.
-/

namespace Alarm

inductive Event where
  | arm
  | disarm
  | fire
  deriving DecidableEq, Repr

/-- Every firing directly follows an arming. -/
def Once (h : List Event) : Prop := ∀ g k, h = g ++ .fire :: k → g.getLast? = some .arm

variable {h : List Event} {e : Event}

theorem once_nil : Once [] := fun g k heq => by simp at heq

theorem Once.concat (hh : Once h) (he : e = .fire → h.getLast? = some .arm) : Once (h ++ [e]) := by
  intro g k heq
  rcases List.eq_nil_or_concat k with rfl | ⟨k', e', rfl⟩
  · obtain ⟨rfl, hlast⟩ := List.append_inj' heq rfl
    exact he (List.cons.inj hlast).1
  · rw [List.concat_eq_append, ← List.cons_append, ← List.append_assoc] at heq
    obtain ⟨rfl, -⟩ := List.append_inj' heq rfl
    exact hh g k' rfl

end Alarm
