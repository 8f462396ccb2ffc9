import Mathlib.Data.List.Basic
import Mathlib.Logic.Function.Basic

/-! # Packed arrays

A table of capacity `cap` whose first `n` cells are filled, oldest first, and whose other
cells are empty.  `push` fills the next cell or refuses.  `extract` takes out all entries
that satisfy a test, by one pass over the cells that moves every other entry down to the
write position.  `toList` is the sequence it represents: `push` appends, and `extract`
splits it into what satisfies the test and what does not, each in the old order.
-/

structure Packed (α : Type) (cap : Nat) where
  buf : Nat → Option α
  n : Nat
  n_le : n ≤ cap
  filled : ∀ i, i < n → ∃ x, buf i = some x
  free : ∀ i, n ≤ i → buf i = none

namespace Packed

open Function

variable {α : Type} {cap : Nat}

/-- The entries of the first `n` cells. -/
def content (buf : Nat → Option α) (n : Nat) : List α := (List.range n).filterMap buf

def toList (p : Packed α cap) : List α := content p.buf p.n

theorem filled_zero (i : Nat) (hi : i < 0) : ∃ x : α, none = some x := absurd hi (Nat.not_lt_zero i)

def empty : Packed α cap where
  buf := fun _ => none
  n := 0
  n_le := Nat.zero_le _
  filled := filled_zero
  free := fun _ _ => rfl

theorem content_succ (buf : Nat → Option α) (n : Nat) :
    content buf (n + 1) = content buf n ++ (buf n).toList := by
  unfold content
  rw [List.range_succ, List.filterMap_append]
  congr 1

theorem content_congr {buf buf' : Nat → Option α} {n : Nat} (h : ∀ k, k < n → buf' k = buf k) :
    content buf' n = content buf n := by
  apply List.filterMap_congr
  intro k hk
  exact h k (List.mem_range.mp hk)

theorem length_content {buf : Nat → Option α} {n : Nat}
    (h : ∀ k, k < n → ∃ x, buf k = some x) : (content buf n).length = n := by
  induction n with
  | zero => rfl
  | succ n ih =>
    obtain ⟨x, hx⟩ := h n (Nat.lt_succ_self n)
    rw [content_succ, hx, List.length_append, ih fun k hk => h k (by omega)]
    rfl

@[simp] theorem length_toList (p : Packed α cap) : p.toList.length = p.n :=
  length_content p.filled

/-- Fill the next cell; a full table refuses and stays as it is. -/
def push (p : Packed α cap) (x : α) : Bool × Packed α cap :=
  if h : cap ≤ p.n then (false, p)
  else
    (true,
      { buf := update p.buf p.n (some x)
        n := p.n + 1
        n_le := by omega
        filled := by
          intro i hi
          by_cases hlast : i = p.n
          · exact ⟨x, by rw [hlast, update_self]⟩
          · obtain ⟨y, hy⟩ := p.filled i (by omega)
            exact ⟨y, by rw [update_of_ne hlast, hy]⟩
        free := by
          intro i hi
          rw [update_of_ne (by omega)]
          exact p.free i (by omega) })

theorem push_spec (p : Packed α cap) (x : α) :
    (p.push x).1 = decide (p.toList.length < cap) ∧
      (p.push x).2.toList = if p.toList.length < cap then p.toList ++ [x] else p.toList := by
  rw [length_toList]
  unfold push
  by_cases h : cap ≤ p.n
  · rw [dif_pos h, if_neg (by omega)]
    exact ⟨by simp [h], rfl⟩
  · rw [dif_neg h, if_pos (by omega)]
    refine ⟨by simp; omega, ?_⟩
    have hold : content (update p.buf p.n (some x)) p.n = content p.buf p.n := by
      apply content_congr
      intro k hk
      exact update_of_ne (by omega) _ _
    simp only [toList, content_succ, update_self, hold, Option.toList_some]

/-- A pass over the cells: the array, the write position and what was taken out. -/
structure Sweep (α : Type) where
  buf : Nat → Option α
  rest : Nat
  out : List α

def Sweep.step (test : α → Bool) (s : Sweep α) (i : Nat) : Sweep α :=
  match s.buf i with
  | some x =>
      if test x then { s with out := s.out ++ [x] }
      else { s with buf := update s.buf s.rest (some x), rest := s.rest + 1 }
  | none => s

def sweep (test : α → Bool) (buf : Nat → Option α) (n : Nat) : Sweep α :=
  (List.range n).foldl (Sweep.step test) ⟨buf, 0, []⟩

/-- After `i` cells, what satisfies the test is out, the rest stands below the write
position, and the cells ahead are untouched. -/
structure Swept (test : α → Bool) (buf : Nat → Option α) (i : Nat) (s : Sweep α) : Prop where
  out : s.out = (content buf i).filter test
  kept : content s.buf s.rest = (content buf i).filter fun x => !test x
  rest_le : s.rest ≤ i
  filled : ∀ k, k < s.rest → ∃ x, s.buf k = some x
  ahead : ∀ k, i ≤ k → s.buf k = buf k

variable {test : α → Bool} {buf : Nat → Option α}

theorem Swept.start : Swept test buf 0 ⟨buf, 0, []⟩ where
  out := rfl
  kept := rfl
  rest_le := Nat.le_refl _
  filled := fun k hk => absurd hk (Nat.not_lt_zero k)
  ahead := fun _ _ => rfl

theorem Swept.step {i : Nat} {s : Sweep α} (h : Swept test buf i s) :
    Swept test buf (i + 1) (s.step test i) := by
  have hcell : s.buf i = buf i := h.ahead i (Nat.le_refl i)
  have hle := h.rest_le
  unfold Sweep.step
  rw [hcell]
  cases hx : buf i with
  | none =>
    exact
      { out := by rw [content_succ, hx, Option.toList_none, List.append_nil, h.out]
        kept := by rw [content_succ, hx, Option.toList_none, List.append_nil, h.kept]
        rest_le := by dsimp only; omega
        filled := h.filled
        ahead := fun k hk => h.ahead k (by omega) }
  | some x =>
    dsimp only
    by_cases htest : test x = true
    · rw [if_pos htest]
      exact
        { out := by simp [content_succ, hx, htest, h.out]
          kept := by simp [content_succ, hx, htest, h.kept]
          rest_le := by dsimp only; omega
          filled := h.filled
          ahead := fun k hk => h.ahead k (by omega) }
    · rw [if_neg htest]
      have hold : content (update s.buf s.rest (some x)) s.rest =
          content s.buf s.rest := by
        apply content_congr
        intro k hk
        exact update_of_ne (by omega) _ _
      refine ⟨?_, ?_, ?_, ?_, ?_⟩
      · simp [content_succ, hx, htest, h.out]
      · dsimp only
        rw [content_succ, update_self, hold, h.kept]
        simp [content_succ, hx, htest]
      · dsimp only
        omega
      · intro k hk
        dsimp only at hk ⊢
        by_cases hlast : k = s.rest
        · exact ⟨x, by rw [hlast, update_self]⟩
        · rw [update_of_ne hlast]
          exact h.filled k (by omega)
      · intro k hk
        dsimp only
        rw [update_of_ne (by omega)]
        exact h.ahead k (by omega)

theorem swept_sweep (test : α → Bool) (buf : Nat → Option α) (n : Nat) :
    Swept test buf n (sweep test buf n) := by
  induction n with
  | zero => exact Swept.start
  | succ n ih =>
    have hstep : sweep test buf (n + 1) = (sweep test buf n).step test n := by
      simp [sweep, List.range_succ]
    rw [hstep]
    exact ih.step

/-- Take out what satisfies the test, pack the rest, and empty the cells behind it. -/
def extract (p : Packed α cap) (test : α → Bool) : List α × Packed α cap :=
  let s := sweep test p.buf p.n
  have hs : Swept test p.buf p.n s := swept_sweep test p.buf p.n
  (s.out,
    { buf := fun i => if s.rest ≤ i ∧ i < p.n then none else s.buf i
      n := s.rest
      n_le := Nat.le_trans hs.rest_le p.n_le
      filled := by
        intro i hi
        rw [if_neg (by omega)]
        exact hs.filled i hi
      free := by
        intro i hi
        by_cases hlt : i < p.n
        · rw [if_pos ⟨hi, hlt⟩]
        · rw [if_neg (by omega), hs.ahead i (by omega)]
          exact p.free i (by omega) })

theorem extract_spec (p : Packed α cap) (test : α → Bool) :
    (p.extract test).1 = p.toList.filter test ∧
      (p.extract test).2.toList = p.toList.filter fun x => !test x := by
  have hs := swept_sweep test p.buf p.n
  refine ⟨hs.out, ?_⟩
  have hframe : (p.extract test).2.toList =
      content (sweep test p.buf p.n).buf (sweep test p.buf p.n).rest := by
    apply content_congr
    intro k (hk : k < (sweep test p.buf p.n).rest)
    exact if_neg (by omega)
  rw [hframe]
  exact hs.kept

end Packed
