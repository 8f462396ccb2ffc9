import Mathlib.Data.List.Basic
import Mathlib.Logic.Function.Basic

/-! # Intrusive chains

A list of cells, each of which keeps a link to the next.  A link names a cell or ends the chain;
`target` says which.  Popping follows one link, pushing writes one.
-/

namespace Chain

variable {κ ι : Type*}

def Linked (target : κ → Option ι) (next : ι → κ) : κ → List ι → Prop
  | c, [] => target c = none
  | c, i :: l => target c = some i ∧ Linked target next (next i) l

variable {target : κ → Option ι} {next next' : ι → κ} {c : κ} {l : List ι}

theorem Linked.congr (h : Linked target next c l) (hnext : ∀ i ∈ l, next' i = next i) :
    Linked target next' c l := by
  induction l generalizing c with
  | nil => exact h
  | cons i l ih =>
    refine ⟨h.1, ?_⟩
    rw [hnext i List.mem_cons_self]
    exact ih h.2 fun j hj => hnext j (List.mem_cons_of_mem _ hj)

theorem Linked.target_eq (h : Linked target next c l) : target c = l.head? := by
  cases l with
  | nil => exact h
  | cons i l => exact h.1

variable [DecidableEq ι]

theorem Linked.update (h : Linked target next c l) {i : ι} (hi : i ∉ l) (x : κ) :
    Linked target (Function.update next i x) c l := by
  refine h.congr fun j hj => Function.update_of_ne ?_ _ _
  intro hji
  exact hi (hji ▸ hj)

theorem Linked.push (h : Linked target next c l) {i : ι} (hi : i ∉ l) {c' : κ}
    (hc : target c' = some i) : Linked target (Function.update next i c) c' (i :: l) := by
  refine ⟨hc, ?_⟩
  rw [Function.update_self]
  exact h.update hi c

theorem linked_range' {target : κ → Option ℕ} {next : ℕ → κ} {code : ℕ → κ} {len : ℕ}
    (htarget : ∀ k, k < len → target (code k) = some k) (hend : target (code len) = none)
    (hnext : ∀ k, k < len → next k = code (k + 1)) {k : ℕ} (hk : k ≤ len) :
    Linked target next (code k) (List.range' k (len - k)) := by
  obtain ⟨n, rfl⟩ := Nat.exists_eq_add_of_le hk
  rw [Nat.add_sub_cancel_left]
  induction n generalizing k with
  | zero => exact hend
  | succ n ih =>
    rw [List.range'_succ]
    refine ⟨htarget k (by omega), ?_⟩
    have hshift : k + (n + 1) = k + 1 + n := by omega
    rw [hnext k (by omega)]
    rw [hshift] at htarget hend hnext
    exact ih htarget hend hnext (by omega)

end Chain
