import Mathlib.Data.List.Basic

/-! # Searches that keep what they found

A loop goes over candidates and remembers the best one.  Whatever the order of
preference is, it ends without a result exactly when there was no candidate.
-/

namespace Search

variable {σ ι : Type*} {f : σ → ι → σ} {E F : σ → Prop} {C : ι → Prop}

theorem foldl_found (hkeep : ∀ s i, F s → F (f s i)) (l : List ι) {s : σ} (hs : F s) :
    F (l.foldl f s) := by
  induction l generalizing s with
  | nil => exact hs
  | cons i l ih => exact ih (hkeep s i hs)

theorem foldl_cases (hkeep : ∀ s i, F s → F (f s i)) (hfound : ∀ s i, E s → C i → F (f s i))
    (hempty : ∀ s i, E s → ¬ C i → E (f s i)) (l : List ι) {s : σ} (hs : E s) :
    (E (l.foldl f s) ∧ ∀ i ∈ l, ¬ C i) ∨ (F (l.foldl f s) ∧ ∃ i ∈ l, C i) := by
  induction l generalizing s with
  | nil => exact .inl ⟨hs, by simp⟩
  | cons i l ih =>
    rw [List.foldl_cons]
    by_cases hi : C i
    · exact .inr ⟨foldl_found hkeep l (hfound s i hs hi), i, List.mem_cons_self, hi⟩
    · rcases ih (hempty s i hs hi) with ⟨hstill, hall⟩ | ⟨hrest, j, hj, hc⟩
      · exact .inl ⟨hstill, List.forall_mem_cons.mpr ⟨hi, hall⟩⟩
      · exact .inr ⟨hrest, j, List.mem_cons_of_mem _ hj, hc⟩

theorem foldl_empty_iff (hexcl : ∀ s, E s → ¬ F s) (hkeep : ∀ s i, F s → F (f s i))
    (hfound : ∀ s i, E s → C i → F (f s i))
    (hempty : ∀ s i, E s → ¬ C i → E (f s i)) (l : List ι) {s : σ} (hs : E s) :
    E (l.foldl f s) ↔ ∀ i ∈ l, ¬ C i := by
  rcases foldl_cases hkeep hfound hempty l hs with ⟨hstill, hall⟩ | ⟨hrest, i, hi, hc⟩
  · exact ⟨fun _ => hall, fun _ => hstill⟩
  · exact ⟨fun hstill => absurd hrest (hexcl _ hstill), fun hall => absurd hc (hall i hi)⟩

theorem foldl_mem {β : Type*} {f : Option β → ι → Option β} {P : β → Prop}
    (hstep : ∀ s i, (∀ b ∈ s, P b) → ∀ b ∈ f s i, P b) (l : List ι) {b : β}
    (h : l.foldl f none = some b) : P b := by
  refine List.foldlRecOn (motive := fun s : Option β => ∀ b ∈ s, P b) l f ?_ ?_ b h
  · simp
  · intro s hs i _
    exact hstep s i hs

end Search
