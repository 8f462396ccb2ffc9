import Mathlib.Data.List.Basic
import Mathlib.Data.List.Induction

/-! # Parking permits

A thread parks until somebody unparks it.  An unpark that comes while the thread does not sleep
leaves a token, at most one, and the next park takes the token and returns.  `expire` ends a sleep
without an unpark.  `replay` is what a record of these events leaves; the two theorems at the end
say which records leave a token (`Pending`) and which leave the thread asleep (`Asleep`).
-/

namespace Permit

inductive State where
  | empty
  | token
  | parked
  deriving DecidableEq, Repr

inductive Event where
  | park
  | unpark
  | expire
  deriving DecidableEq, Repr

/-- One event; a park returns at once exactly when it finds the token. -/
def State.next : State → Event → State
  | .token, .park => .empty
  | _, .park => .parked
  | .parked, .unpark => .empty
  | _, .unpark => .token
  | .parked, .expire => .empty
  | p, .expire => p

def replay (h : List Event) : State := h.foldl State.next .empty

/-- An unpark met the thread awake, and it has not parked since. -/
def Pending (h : List Event) : Prop :=
  ∃ g k, h = g ++ .unpark :: k ∧ replay g ≠ .parked ∧ .park ∉ k

/-- The thread parked without a token, and nothing has ended the sleep. -/
def Asleep (h : List Event) : Prop :=
  ∃ g k, h = g ++ .park :: k ∧ replay g ≠ .token ∧ .unpark ∉ k ∧ .expire ∉ k

variable {p : State} {h k : List Event} {e : Event}

@[simp] theorem replay_concat (h : List Event) (e : Event) :
    replay (h ++ [e]) = (replay h).next e := by
  simp [replay]

theorem next_unpark_of_ne (hp : p ≠ .parked) : p.next .unpark = .token := by
  cases p with
  | empty | token => rfl
  | parked => exact absurd rfl hp

theorem next_park_of_ne (hp : p ≠ .token) : p.next .park = .parked := by
  cases p with
  | empty | parked => rfl
  | token => exact absurd rfl hp

theorem next_token_of_ne (he : e ≠ .park) : State.token.next e = .token := by
  cases e with
  | park => exact absurd rfl he
  | unpark | expire => rfl

theorem next_eq_token : p.next e = .token ↔ e = .unpark ∧ p ≠ .parked ∨ p = .token ∧ e ≠ .park := by
  cases p <;> cases e <;> simp [State.next]

theorem next_eq_parked : p.next e = .parked ↔
    e = .park ∧ p ≠ .token ∨ p = .parked ∧ e ≠ .unpark ∧ e ≠ .expire := by
  cases p <;> cases e <;> simp [State.next]

theorem replay_eq_token : replay h = .token ↔ Pending h := by
  constructor
  · intro htoken
    induction h using List.reverseRecOn with
    | nil => cases htoken
    | append_singleton h e ih =>
      rw [replay_concat, next_eq_token] at htoken
      rcases htoken with ⟨rfl, hawake⟩ | ⟨htoken, hpark⟩
      · exact ⟨h, [], rfl, hawake, List.not_mem_nil⟩
      · obtain ⟨g, k, rfl, hawake, hk⟩ := ih htoken
        refine ⟨g, k ++ [e], by simp, hawake, ?_⟩
        simp [hk, hpark.symm]
  · rintro ⟨g, k, rfl, hawake, hk⟩
    induction k using List.reverseRecOn with
    | nil =>
      rw [replay_concat]
      exact next_unpark_of_ne hawake
    | append_singleton k e ih =>
      rw [List.mem_append, not_or, List.mem_singleton] at hk
      rw [← List.cons_append, ← List.append_assoc, replay_concat, ih hk.1]
      exact next_token_of_ne (Ne.symm hk.2)

theorem replay_eq_parked : replay h = .parked ↔ Asleep h := by
  constructor
  · intro hparked
    induction h using List.reverseRecOn with
    | nil => cases hparked
    | append_singleton h e ih =>
      rw [replay_concat, next_eq_parked] at hparked
      rcases hparked with ⟨rfl, htoken⟩ | ⟨hparked, hunpark, hexpire⟩
      · exact ⟨h, [], rfl, htoken, List.not_mem_nil, List.not_mem_nil⟩
      · obtain ⟨g, k, rfl, htoken, hk, hk'⟩ := ih hparked
        refine ⟨g, k ++ [e], by simp, htoken, ?_, ?_⟩
        · simp [hk, hunpark.symm]
        · simp [hk', hexpire.symm]
  · rintro ⟨g, k, rfl, htoken, hk, hk'⟩
    induction k using List.reverseRecOn with
    | nil =>
      rw [replay_concat]
      exact next_park_of_ne htoken
    | append_singleton k e ih =>
      rw [List.mem_append, not_or, List.mem_singleton] at hk hk'
      rw [← List.cons_append, ← List.append_assoc, replay_concat, ih hk.1 hk'.1, next_eq_parked]
      exact .inr ⟨rfl, Ne.symm hk.2, Ne.symm hk'.2⟩

end Permit
