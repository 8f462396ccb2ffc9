import Mathlib.Data.Set.Insert
import Mathlib.Logic.Function.Basic

/-! # Custody

Items lie in places or are carried by agents.  `Custody` says of a set of tracked items that
each of them is held exactly once: by one place and no agent, or by one agent and no place.
Items outside the set are not constrained.

Each lemma is one move: take an item out of a place, put it back, drop it, lay down or carry a
new one.
-/

namespace Caprock

open Function

variable {Place Agent Item : Type}

/-- Every item of `tracked` is held exactly once. -/
structure Custody (place : Place → Option Item) (tracked : Set Item) (agent : Agent → Option Item) :
    Prop where
  held : ∀ p ∈ tracked, (∃ k, place k = some p) ∨ ∃ a, agent a = some p
  place_unique : ∀ p ∈ tracked, ∀ k l, place k = some p → place l = some p → k = l
  agent_unique : ∀ p ∈ tracked, ∀ a b, agent a = some p → agent b = some p → a = b
  exclusive : ∀ p ∈ tracked, ∀ a k, agent a = some p → place k ≠ some p

theorem update_none_eq_some_iff {α β : Type} [DecidableEq α] {f : α → Option β} {k l : α} {q : β} :
    update f k none l = some q ↔ l ≠ k ∧ f l = some q := by
  by_cases h : l = k
  · simp [h]
  · simp [h]

theorem update_some_eq_some_iff {α β : Type} [DecidableEq α] {f : α → Option β} {k l : α}
    {p q : β} :
    update f k (some p) l = some q ↔ l = k ∧ p = q ∨ l ≠ k ∧ f l = some q := by
  by_cases h : l = k
  · simp [h]
  · simp [h]

namespace Custody

variable {place : Place → Option Item}
  {tracked : Set Item} {agent : Agent → Option Item} {k : Place} {a : Agent} {p : Item}

theorem existsUnique_place (h : Custody place tracked agent) (hidle : ∀ a, agent a = none)
    (hp : p ∈ tracked) : ∃! k, place k = some p := by
  rcases h.held p hp with ⟨k, hk⟩ | ⟨a, ha⟩
  · exact ⟨k, hk, fun l hl => h.place_unique p hp l k hl hk⟩
  · rw [hidle a] at ha
    cases ha

theorem take [DecidableEq Place] [DecidableEq Agent] (h : Custody place tracked agent)
    (hk : place k = some p) (ha : agent a = none) :
    Custody (update place k none) tracked (update agent a (some p)) := by
  obtain ⟨hheld, hplace, hagent, hexcl⟩ := h
  constructor <;> simp only [update_none_eq_some_iff, update_some_eq_some_iff, ne_eq] <;> grind

theorem putBack [DecidableEq Place] [DecidableEq Agent] (h : Custody place tracked agent)
    (ha : agent a = some p) (hk : place k = none ∨ place k = some p) :
    Custody (update place k (some p)) tracked (update agent a none) := by
  obtain ⟨hheld, hplace, hagent, hexcl⟩ := h
  constructor <;> simp only [update_none_eq_some_iff, update_some_eq_some_iff, ne_eq] <;> grind

theorem drop [DecidableEq Agent] (h : Custody place tracked agent) (ha : agent a = some p) :
    Custody place (tracked \ {p}) (update agent a none) := by
  obtain ⟨hheld, hplace, hagent, hexcl⟩ := h
  constructor <;>
    simp only [update_none_eq_some_iff, Set.mem_sdiff, Set.mem_singleton_iff] <;> grind

theorem add [DecidableEq Place] (h : Custody place tracked agent) (hk : place k = none)
    (hplaces : ∀ l, place l ≠ some p) (hagents : ∀ b, agent b ≠ some p) :
    Custody (update place k (some p)) (insert p tracked) agent := by
  obtain ⟨hheld, hplace, hagent, hexcl⟩ := h
  constructor <;> simp only [update_some_eq_some_iff, ne_eq, Set.mem_insert_iff] <;> grind

theorem carry [DecidableEq Agent] (h : Custody place tracked agent) (ha : agent a = none)
    (hplaces : ∀ l, place l ≠ some p) (hagents : ∀ b, agent b ≠ some p) :
    Custody place (insert p tracked) (update agent a (some p)) := by
  obtain ⟨hheld, hplace, hagent, hexcl⟩ := h
  constructor <;> simp only [update_some_eq_some_iff, ne_eq, Set.mem_insert_iff] <;> grind

theorem move [DecidableEq Place] (h : Custody place tracked agent) {l : Place}
    (hk : place k = some p) (hl : place l = none) :
    Custody (update (update place k none) l (some p)) tracked agent := by
  obtain ⟨hheld, hplace, hagent, hexcl⟩ := h
  refine ⟨?_, ?_, hagent, ?_⟩ <;>
    simp only [update_some_eq_some_iff, update_none_eq_some_iff, ne_eq] <;> grind

end Custody

end Caprock
