import Mathlib.Data.List.Basic
import Mathlib.Data.Nat.ModEq
import Mathlib.Logic.Function.Basic

/-! # Bounded ring buffers

A queue of capacity `cap` kept in an array of optional cells with a head, a tail and a
count.  The structure carries its own invariant, and `toList` is the queue it
represents, front first: `push` appends or refuses, `pop` takes the front, and
`filterOut` (take everything out once, put back what differs) filters.
-/

/-- `count` occupied cells from `head` on, modulo the capacity. -/
structure RingBuffer (α : Type) (cap : Nat) where
  buf : Nat → Option α
  head : Nat
  tail : Nat
  count : Nat
  head_lt : head < cap
  count_le : count ≤ cap
  tail_eq : tail = (head + count) % cap
  occupied : ∀ i, i < count → ∃ x, buf ((head + i) % cap) = some x

namespace RingBuffer

open Function

variable {α : Type} {cap : Nat}

/-- Contents of `n` cells from index `i` on, empty cells skipped. -/
def read (buf : Nat → Option α) (cap : Nat) : Nat → Nat → List α
  | _, 0 => []
  | i, n + 1 => (buf i).toList ++ read buf cap ((i + 1) % cap) n

def toList (q : RingBuffer α cap) : List α := read q.buf cap q.head q.count

def empty (hcap : 0 < cap) : RingBuffer α cap where
  buf := fun _ => none
  head := 0
  tail := 0
  count := 0
  head_lt := hcap
  count_le := Nat.zero_le _
  tail_eq := (Nat.zero_mod cap).symm
  occupied := fun i hi => absurd hi (Nat.not_lt_zero i)

theorem cap_pos (q : RingBuffer α cap) : 0 < cap := Nat.lt_of_le_of_lt (Nat.zero_le _) q.head_lt

theorem add_mod_ne {i j n : Nat} (hij : i < j) (hj : j < cap) : (n + i) % cap ≠ (n + j) % cap := by
  intro heq
  have hmod : i % cap = j % cap := Nat.ModEq.add_left_cancel' n heq
  rw [Nat.mod_eq_of_lt (Nat.lt_trans hij hj), Nat.mod_eq_of_lt hj] at hmod
  omega

theorem succ_mod_add (i k : Nat) : ((i + 1) % cap + k) % cap = (i + (k + 1)) % cap := by
  rw [Nat.mod_add_mod, Nat.add_assoc, Nat.add_comm 1 k]

theorem succ_mod_ne_head (q : RingBuffer α cap) {k : Nat} (h : k + 1 < cap) :
    (q.head + (k + 1)) % cap ≠ q.head := by
  have hne : (q.head + 0) % cap ≠ (q.head + (k + 1)) % cap := add_mod_ne (Nat.succ_pos k) h
  rw [Nat.add_zero, Nat.mod_eq_of_lt q.head_lt] at hne
  exact Ne.symm hne

theorem read_congr {buf buf' : Nat → Option α} {i n : Nat} (hi : i < cap)
    (h : ∀ k, k < n → buf' ((i + k) % cap) = buf ((i + k) % cap)) :
    read buf' cap i n = read buf cap i n := by
  induction n generalizing i with
  | zero => rfl
  | succ n ih =>
    have hzero := h 0 (Nat.succ_pos n)
    rw [Nat.add_zero, Nat.mod_eq_of_lt hi] at hzero
    have hrest : read buf' cap ((i + 1) % cap) n = read buf cap ((i + 1) % cap) n := by
      apply ih (Nat.mod_lt _ (by omega))
      intro k hk
      rw [succ_mod_add]
      exact h (k + 1) (by omega)
    simp only [read, hzero, hrest]

theorem read_succ {buf : Nat → Option α} {i n : Nat} (hi : i < cap) :
    read buf cap i (n + 1) = read buf cap i n ++ (buf ((i + n) % cap)).toList := by
  induction n generalizing i with
  | zero => simp [read, Nat.mod_eq_of_lt hi]
  | succ n ih =>
    have hlt : (i + 1) % cap < cap := Nat.mod_lt _ (by omega)
    have hrec := ih hlt
    rw [succ_mod_add] at hrec
    calc read buf cap i (n + 1 + 1)
        = (buf i).toList ++ read buf cap ((i + 1) % cap) (n + 1) := rfl
      _ = (buf i).toList ++ (read buf cap ((i + 1) % cap) n ++
            (buf ((i + (n + 1)) % cap)).toList) := by rw [hrec]
      _ = read buf cap i (n + 1) ++ (buf ((i + (n + 1)) % cap)).toList := by
            simp only [read, List.append_assoc]

theorem length_read {buf : Nat → Option α} {i n : Nat} (hi : i < cap)
    (h : ∀ k, k < n → ∃ x, buf ((i + k) % cap) = some x) : (read buf cap i n).length = n := by
  induction n with
  | zero => rfl
  | succ n ih =>
    obtain ⟨x, hx⟩ := h n (Nat.lt_succ_self n)
    rw [read_succ hi, hx]
    simp [ih fun k hk => h k (by omega)]

@[simp] theorem length_toList (q : RingBuffer α cap) : q.toList.length = q.count :=
  length_read q.head_lt q.occupied

/-- Append at the tail; a full buffer refuses and stays as it is. -/
def push (q : RingBuffer α cap) (x : α) : Bool × RingBuffer α cap :=
  if h : cap ≤ q.count then (false, q)
  else
    (true,
      { buf := update q.buf q.tail (some x)
        head := q.head
        tail := (q.tail + 1) % cap
        count := q.count + 1
        head_lt := q.head_lt
        count_le := by omega
        tail_eq := by rw [q.tail_eq, Nat.mod_add_mod, Nat.add_assoc]
        occupied := by
          intro i hi
          by_cases hlast : i = q.count
          · exact ⟨x, by rw [hlast, ← q.tail_eq, update_self]⟩
          · obtain ⟨y, hy⟩ := q.occupied i (by omega)
            have hne : (q.head + i) % cap ≠ q.tail := by
              rw [q.tail_eq]
              exact add_mod_ne (by omega) (by omega)
            exact ⟨y, by rw [update_of_ne hne, hy]⟩ })

theorem push_of_full {q : RingBuffer α cap} (h : cap ≤ q.count) (x : α) : q.push x = (false, q) := by
  simp [push, h]

theorem push_of_room {q : RingBuffer α cap} (h : q.count < cap) (x : α) :
    (q.push x).1 = true ∧ (q.push x).2.toList = q.toList ++ [x] := by
  have hroom : ¬ cap ≤ q.count := by omega
  simp only [push, hroom, dite_false, toList, true_and]
  rw [read_succ q.head_lt, ← q.tail_eq, update_self]
  congr 1
  apply read_congr q.head_lt
  intro k hk
  apply update_of_ne
  rw [q.tail_eq]
  exact add_mod_ne hk h

def pop (q : RingBuffer α cap) : Option α × RingBuffer α cap :=
  if h : q.count = 0 then (none, q)
  else
    (q.buf q.head,
      { buf := update q.buf q.head none
        head := (q.head + 1) % cap
        tail := q.tail
        count := q.count - 1
        head_lt := Nat.mod_lt _ q.cap_pos
        count_le := by have hle := q.count_le; omega
        tail_eq := by
          rw [q.tail_eq, Nat.mod_add_mod]
          congr 1
          omega
        occupied := by
          intro i hi
          have hle := q.count_le
          obtain ⟨y, hy⟩ := q.occupied (i + 1) (by omega)
          have hne : (q.head + (i + 1)) % cap ≠ q.head := q.succ_mod_ne_head (by omega)
          exact ⟨y, by rw [succ_mod_add, update_of_ne hne, hy]⟩ })

theorem pop_of_empty {q : RingBuffer α cap} (h : q.toList = []) : q.pop = (none, q) := by
  have hzero : q.count = 0 := by rw [← length_toList, h, List.length_nil]
  simp [pop, hzero]

theorem pop_of_cons {q : RingBuffer α cap} {x : α} {xs : List α} (h : q.toList = x :: xs) :
    q.pop.1 = some x ∧ q.pop.2.toList = xs := by
  have hcount : q.count ≠ 0 := by
    rw [← length_toList, h]
    simp
  obtain ⟨n, hn⟩ : ∃ n, q.count = n + 1 := ⟨q.count - 1, by omega⟩
  have hle := q.count_le
  obtain ⟨y, hy⟩ := q.occupied 0 (by omega)
  rw [Nat.add_zero, Nat.mod_eq_of_lt q.head_lt] at hy
  have hlist : q.toList = y :: read q.buf cap ((q.head + 1) % cap) n := by
    simp [toList, hn, read, hy]
  rw [hlist] at h
  obtain ⟨rfl, rfl⟩ := List.cons.inj h
  have hframe : read (update q.buf q.head none) cap ((q.head + 1) % cap) n =
      read q.buf cap ((q.head + 1) % cap) n := by
    apply read_congr (Nat.mod_lt _ q.cap_pos)
    intro k hk
    apply update_of_ne
    rw [succ_mod_add]
    exact q.succ_mod_ne_head (by omega)
  simp [pop, hy, toList, hn, hframe]

/-- Visit `n` cells from index `i` on; empty ones are passed over. -/
def visit {σ : Type} (f : σ → α → σ) (buf : Nat → Option α) (cap : Nat) : Nat → Nat → σ → σ
  | _, 0, s => s
  | i, n + 1, s =>
      visit f buf cap ((i + 1) % cap) n (match buf i with | some x => f s x | none => s)

def forEach {σ : Type} (q : RingBuffer α cap) (f : σ → α → σ) (s : σ) : σ :=
  visit f q.buf cap q.head q.count s

theorem visit_eq {σ : Type} (f : σ → α → σ) (buf : Nat → Option α) (i n : Nat) (s : σ) :
    visit f buf cap i n s = (read buf cap i n).foldl f s := by
  induction n generalizing i s with
  | zero => rfl
  | succ n ih =>
    rw [visit, ih, read, List.foldl_append]
    cases buf i with
    | none => rfl
    | some x => rfl

theorem forEach_eq {σ : Type} (q : RingBuffer α cap) (f : σ → α → σ) (s : σ) :
    q.forEach f s = q.toList.foldl f s := visit_eq f q.buf q.head q.count s

section

variable [DecidableEq α]

/-- `n` rounds of taking the front out and, unless it is `target`, putting it back. -/
def cycle (target : α) : Nat → RingBuffer α cap → Bool × RingBuffer α cap
  | 0, q => (false, q)
  | n + 1, q =>
      match q.pop with
      | (none, q') => cycle target n q'
      | (some x, q') =>
          if x = target then
            let r := cycle target n q'
            (true, r.2)
          else cycle target n (q'.push x).2

/-- Remove every occurrence of `target`. -/
def remove (q : RingBuffer α cap) (target : α) : Bool × RingBuffer α cap := cycle target q.count q

theorem cycle_spec (target : α) (xs ys : List α) (q : RingBuffer α cap) (h : q.toList = xs ++ ys) :
    (cycle target xs.length q).2.toList = ys ++ xs.filter (fun x => x ≠ target) ∧
      ((cycle target xs.length q).1 = true ↔ target ∈ xs) := by
  induction xs generalizing ys q with
  | nil => simp [cycle, h]
  | cons x xs ih =>
    obtain ⟨hpop, hrest⟩ := pop_of_cons (show q.toList = x :: (xs ++ ys) from h)
    rcases hq : q.pop with ⟨o, q'⟩
    rw [hq] at hpop hrest
    subst hpop
    simp only [List.length_cons, cycle, hq]
    by_cases hx : x = target
    · obtain ⟨hlist, -⟩ := ih ys q' hrest
      rw [if_pos hx]
      exact ⟨by simp [hlist, hx], by simp [hx]⟩
    · rw [if_neg hx]
      have hroom : q'.count < cap := by
        have hlen := congrArg List.length h
        have hlen' := congrArg List.length hrest
        have hle := q.count_le
        simp only [length_toList, List.length_append, List.length_cons] at hlen hlen'
        omega
      have hpush := (push_of_room hroom x).2
      rw [hrest, List.append_assoc] at hpush
      obtain ⟨hlist, hfound⟩ := ih (ys ++ [x]) (q'.push x).2 hpush
      refine ⟨by simp [hlist, hx], ?_⟩
      rw [hfound, List.mem_cons]
      exact ⟨.inr, fun hmem => hmem.resolve_left (Ne.symm hx)⟩

theorem toList_remove (q : RingBuffer α cap) (target : α) :
    (q.remove target).2.toList = q.toList.filter (fun x => x ≠ target) := by
  have hspec := (cycle_spec target q.toList [] q (List.append_nil _).symm).1
  rwa [length_toList, List.nil_append] at hspec

theorem remove_found (q : RingBuffer α cap) (target : α) :
    (q.remove target).1 = true ↔ target ∈ q.toList := by
  have hspec := (cycle_spec target q.toList [] q (List.append_nil _).symm).2
  rwa [length_toList] at hspec

end

/-! ## Cells without a mark

A ring may also keep a count alone, and leave in a cell what it held.
-/

/-- `n` cells from index `a` on. -/
def window (f : Nat → α) (cap a n : Nat) : List α :=
  (List.range n).map fun i => f ((a + i) % cap)

@[simp] theorem length_window (f : Nat → α) (a n : Nat) : (window f cap a n).length = n := by
  simp [window]

theorem getElem?_window (f : Nat → α) (a n i : Nat) :
    (window f cap a n)[i]? = if i < n then some (f ((a + i) % cap)) else none := by
  by_cases hi : i < n
  · simp [window, hi]
  · simp [window, hi]

theorem window_succ (f : Nat → α) (a n : Nat) :
    window f cap a (n + 1) = window f cap a n ++ [f ((a + n) % cap)] := by
  simp [window, List.range_succ]

theorem window_cons (f : Nat → α) {a : Nat} (ha : a < cap) (n : Nat) :
    window f cap a (n + 1) = f a :: window f cap ((a + 1) % cap) n := by
  simp [window, List.range_succ_eq_map, Nat.mod_eq_of_lt ha, Nat.add_assoc, Nat.add_comm 1]

theorem window_update {f : Nat → α} {a n j : Nat} (x : α)
    (h : ∀ k, k < n → (a + k) % cap ≠ j) :
    window (update f j x) cap a n = window f cap a n := by
  refine List.map_congr_left fun k hk => ?_
  exact update_of_ne (h k (List.mem_range.mp hk)) _ _

end RingBuffer
