import Mathlib.Data.List.Basic
import Mathlib.Logic.Function.Iterate

/-! # Cyclic redundancy checks

A check of width `n` is a register that takes one bit at a time, lowest bit first.  With the
top bit of the feedback `p` set no state is reached from two, so two streams that differ in
at most `n` consecutive bits leave different registers; a stream that carries its own check
leaves a known one.
-/

namespace Caprock.Crc

variable {n : Nat} {p : BitVec n}

def shift (p s : BitVec n) : BitVec n := (s >>> 1) ^^^ (if s.getLsbD 0 then p else 0)

def unit (n : Nat) (x : Bool) : BitVec n := if x then 1 else 0

def feed (p : BitVec n) : BitVec n → List Bool → BitVec n
  | s, [] => s
  | s, x :: xs => feed p (shift p (s ^^^ unit n x)) xs

/-- The word of the first `n` bits. -/
def word (n : Nat) : List Bool → BitVec n
  | [] => 0
  | x :: xs => (word n xs <<< 1) ^^^ unit n x

theorem unit_getLsbD (n : Nat) (x : Bool) (i : Nat) :
    (unit n x).getLsbD i = (x && decide (i = 0 ∧ 0 < n)) := by
  cases x with
  | false => simp [unit]
  | true =>
    have h1 := BitVec.getLsbD_one (w := n) (i := i)
    simp [unit, h1, Bool.and_comm]

theorem word_getLsbD (xs : List Bool) (i : Nat) :
    (word n xs).getLsbD i = (decide (i < n) && xs.getD i false) := by
  induction xs generalizing i with
  | nil => simp [word]
  | cons x xs ih =>
    cases i with
    | zero => simp [word, unit_getLsbD, Bool.and_comm]
    | succ i =>
      rw [word, BitVec.getLsbD_xor, BitVec.getLsbD_shiftLeft, unit_getLsbD, ih]
      by_cases hi : i + 1 < n
      · have hlt : i < n := by omega
        simp [hi, hlt]
      · simp [hi]

variable {xs ys : List Bool}

theorem word_inj (hlen : xs.length = ys.length) (hn : xs.length ≤ n) (h : word n xs = word n ys) :
    xs = ys := by
  apply List.ext_getElem hlen
  intro i hx hy
  have hi : i < n := by omega
  have hbit := congrArg (fun v => BitVec.getLsbD v i) h
  simp only [word_getLsbD, hi, decide_true, Bool.true_and] at hbit
  simpa [hx, hy] using hbit

theorem shift_xor (p a b : BitVec n) : shift p (a ^^^ b) = shift p a ^^^ shift p b := by
  have hcarry : (if (a ^^^ b).getLsbD 0 then p else 0) =
      (if a.getLsbD 0 then p else 0) ^^^ (if b.getLsbD 0 then p else 0) := by
    rw [BitVec.getLsbD_xor]
    cases a.getLsbD 0 <;> cases b.getLsbD 0 <;> simp
  rw [shift, shift, shift, hcarry, BitVec.ushiftRight_xor_distrib]
  ac_rfl

theorem shift_shiftLeft (p : BitVec n) (h : xs.length < n) :
    shift p (word n xs <<< 1) = word n xs := by
  apply BitVec.eq_of_getLsbD_eq
  intro i hi
  have hzero : (word n xs <<< 1).getLsbD 0 = false := by simp
  rw [shift, hzero, if_neg Bool.false_ne_true, BitVec.getLsbD_xor, BitVec.getLsbD_ushiftRight,
    BitVec.getLsbD_shiftLeft, word_getLsbD, word_getLsbD]
  by_cases hi' : 1 + i < n
  · simp [hi']
  · have hout : xs.length ≤ i := by omega
    simp [hi', hout]

theorem eq_zero_of_shift (hp : p.msb = true) {s : BitVec n} (h : shift p s = 0) : s = 0 := by
  have hlow : s.getLsbD 0 = false := by
    by_contra hne
    rw [Bool.not_eq_false] at hne
    have hmsb := congrArg BitVec.msb h
    rw [shift, if_pos hne, BitVec.msb_xor, hp, BitVec.msb_ushiftRight] at hmsb
    simp at hmsb
  rw [shift, hlow, if_neg Bool.false_ne_true, show s >>> 1 ^^^ (0 : BitVec n) = s >>> 1 from BitVec.xor_zero] at h
  apply BitVec.eq_of_getLsbD_eq
  intro i hi
  cases i with
  | zero => simpa using hlow
  | succ i =>
    have hbit := congrArg (fun v => BitVec.getLsbD v i) h
    simpa [Nat.add_comm 1] using hbit

theorem shift_injective (hp : p.msb = true) : Function.Injective (shift p) := by
  intro a b h
  have hdiff : shift p (a ^^^ b) = 0 := by rw [shift_xor, h, BitVec.xor_self]; rfl
  exact BitVec.xor_eq_zero_iff.mp (eq_zero_of_shift hp hdiff)

theorem feed_append (p s : BitVec n) (xs ys : List Bool) :
    feed p s (xs ++ ys) = feed p (feed p s xs) ys := by
  induction xs generalizing s with
  | nil => rfl
  | cons x xs ih => exact ih _

theorem feed_eq_word (p s : BitVec n) (h : xs.length ≤ n) :
    feed p s xs = (shift p)^[xs.length] (s ^^^ word n xs) := by
  induction xs generalizing s with
  | nil => simp [feed, word]
  | cons x xs ih =>
    have hlt : xs.length < n := h
    have hstep : shift p (s ^^^ word n (x :: xs)) =
        shift p (s ^^^ unit n x) ^^^ word n xs := by
      rw [← shift_shiftLeft p hlt, ← shift_xor, word]
      congr 1
      ac_rfl
    rw [feed, ih _ (Nat.le_of_lt hlt), List.length_cons, Function.iterate_succ_apply, hstep]

theorem feed_left_injective (hp : p.msb = true) (xs : List Bool) :
    Function.Injective fun s => feed p s xs := by
  induction xs with
  | nil => exact fun a b h => h
  | cons x xs ih =>
    intro a b h
    exact (BitVec.xor_left_inj _).mp (shift_injective hp (ih h))

theorem feed_right_inj (hp : p.msb = true) (s : BitVec n) (hlen : xs.length = ys.length)
    (hn : xs.length ≤ n) (h : feed p s xs = feed p s ys) : xs = ys := by
  rw [feed_eq_word p s hn, feed_eq_word p s (hlen ▸ hn), ← hlen] at h
  exact word_inj hlen hn ((BitVec.xor_right_inj _).mp ((shift_injective hp).iterate _ h))

theorem feed_window_inj (hp : p.msb = true) (a : BitVec n) {s : Nat}
    (hlen : xs.length = ys.length) (hw : ∀ k, k < s ∨ s + n ≤ k → xs[k]? = ys[k]?)
    (h : feed p a xs = feed p a ys) : xs = ys := by
  have hvorn : xs.take s = ys.take s := by
    apply List.ext_getElem?
    intro k
    rw [List.getElem?_take, List.getElem?_take]
    by_cases hk : k < s
    · rw [if_pos hk, if_pos hk, hw k (.inl hk)]
    · rw [if_neg hk, if_neg hk]
  have hhinten : (xs.drop s).drop n = (ys.drop s).drop n := by
    apply List.ext_getElem?
    intro k
    rw [List.drop_drop, List.drop_drop, List.getElem?_drop, List.getElem?_drop,
      hw _ (.inr (Nat.le_add_right _ _))]
  have hxs : xs = xs.take s ++ ((xs.drop s).take n ++ (xs.drop s).drop n) := by
    rw [List.take_append_drop, List.take_append_drop]
  have hys : ys = xs.take s ++ ((ys.drop s).take n ++ (xs.drop s).drop n) := by
    rw [hvorn, hhinten, List.take_append_drop, List.take_append_drop]
  have hmitte : (xs.drop s).take n = (ys.drop s).take n := by
    rw [hxs, hys, feed_append, feed_append, feed_append, feed_append] at h
    exact feed_right_inj hp _ (by simp [hlen]) (List.length_take_le _ _) (feed_left_injective hp _ h)
  rw [hxs, hys, hmitte]

/-- `xs` with its check `ys` behind it; `m` is what the register is masked with. -/
structure Valid (p a m : BitVec n) (xs ys : List Bool) : Prop where
  length : ys.length = n
  check : word n ys = feed p a xs ^^^ m

theorem Valid.feed_eq {a m : BitVec n} (h : Valid p a m xs ys) :
    feed p a (xs ++ ys) = (shift p)^[n] m := by
  rw [feed_append, feed_eq_word p _ (Nat.le_of_eq h.length), h.check, h.length, ← BitVec.xor_assoc,
    BitVec.xor_self, BitVec.zero_xor]

theorem Valid.eq_of_window {a m : BitVec n} {xs' ys' : List Bool} {s : Nat} (hp : p.msb = true)
    (h : Valid p a m xs ys) (h' : Valid p a m xs' ys') (hlen : xs.length = xs'.length)
    (hw : ∀ k, k < s ∨ s + n ≤ k → (xs ++ ys)[k]? = (xs' ++ ys')[k]?) : xs ++ ys = xs' ++ ys' := by
  apply feed_window_inj hp a _ hw (h.feed_eq.trans h'.feed_eq.symm)
  rw [List.length_append, List.length_append, hlen, h.length, h'.length]

end Caprock.Crc
