import Mathlib.Algebra.Group.Nat.Defs
import Mathlib.Data.List.Basic

/-! # Calls that may panic

A call of a Rust function ends with a value, with an error of its own, or with a panic: an index
behind the end of a slice, or a sum, a difference or a product outside its integer type.  A loop
that is given a number of steps may also use them up.

A function is written twice, once with every place that may panic and once without.  `quiet` takes
the second for a `Call`, and the rules below carry an equation of the two through the function: each
place needs the reason why it does not panic.
-/

namespace Panic

variable {ε α β γ : Type*}

inductive Halt (ε : Type*) where
  | panic
  | outOfSteps
  | err (e : ε)
  deriving DecidableEq, Repr

abbrev Call (ε α : Type*) := Except (Halt ε) α

def quiet (x : Except ε α) : Call ε α := x.mapError .err

/-- `a + b` in `w` bits. -/
def add (w a b : Nat) : Call ε Nat := if a + b < 2 ^ w then .ok (a + b) else .error .panic

/-- `a - b` of an unsigned type. -/
def sub (a b : Nat) : Call ε Nat := if b ≤ a then .ok (a - b) else .error .panic

/-- `a * b` in `w` bits. -/
def mul (w a b : Nat) : Call ε Nat := if a * b < 2 ^ w then .ok (a * b) else .error .panic

def div (a b : Nat) : Call ε Nat := if b = 0 then .error .panic else .ok (a / b)

/-- `a << k` in `w` bits. -/
def shl (w a k : Nat) : Call ε Nat := if k < w then .ok ((a <<< k) % 2 ^ w) else .error .panic

/-- `b[i]`. -/
def read (b : List β) (i : Nat) : Call ε β :=
  match b[i]? with
  | some x => .ok x
  | none => .error .panic

/-- `b[i] = x`. -/
def write (b : List β) (i : Nat) (x : β) : Call ε (List β) :=
  if i < b.length then .ok (b.set i x) else .error .panic

/-- `n` indices from `off` on. -/
def reads (b : List β) (off : Nat) : Nat → Call ε (List β)
  | 0 => .ok []
  | n + 1 => (read b off).bind fun x => (reads b (off + 1) n).bind fun xs => .ok (x :: xs)

/-- `b[lo..hi]`. -/
def range (b : List β) (lo hi : Nat) : Call ε (List β) :=
  if lo ≤ hi ∧ hi ≤ b.length then .ok ((b.drop lo).take (hi - lo)) else .error .panic

theorem add_bind {w a b : Nat} {f : Nat → Call ε α} (h : a + b < 2 ^ w) :
    (add w a b).bind f = f (a + b) := by
  rw [add, if_pos h]
  rfl

theorem sub_bind {a b : Nat} {f : Nat → Call ε α} (h : b ≤ a) :
    (sub a b).bind f = f (a - b) := by
  rw [sub, if_pos h]
  rfl

theorem mul_bind {w a b : Nat} {f : Nat → Call ε α} (h : a * b < 2 ^ w) :
    (mul w a b).bind f = f (a * b) := by
  rw [mul, if_pos h]
  rfl

theorem div_bind {a b : Nat} {f : Nat → Call ε α} (h : b ≠ 0) :
    (div a b).bind f = f (a / b) := by
  rw [div, if_neg h]
  rfl

theorem shl_bind {w a k : Nat} {f : Nat → Call ε α} (h : k < w) :
    (shl w a k).bind f = f ((a <<< k) % 2 ^ w) := by
  rw [shl, if_pos h]
  rfl

theorem read_bind {b : List β} {i : Nat} {f : β → Call ε α} (h : i < b.length) (x : β) :
    (read b i).bind f = f (b.getD i x) := by
  simp [read, List.getElem?_eq_getElem h, Except.bind]

theorem write_bind {b : List β} {i : Nat} {x : β} {f : List β → Call ε α} (h : i < b.length) :
    (write b i x).bind f = f (b.set i x) := by
  rw [write, if_pos h]
  rfl

theorem take_drop_succ {b : List β} {off : Nat} (h : off < b.length) (n : Nat) (x : β) :
    (b.drop off).take (n + 1) = b.getD off x :: (b.drop (off + 1)).take n := by
  rw [List.drop_eq_getElem_cons h, List.take_succ_cons]
  simp [h]

theorem reads_eq {b : List β} {off n : Nat} (h : off + n ≤ b.length) :
    (reads b off n : Call ε (List β)) = .ok ((b.drop off).take n) := by
  induction n generalizing off with
  | zero => rfl
  | succ n ih =>
    have hlt : off < b.length := by omega
    rw [reads, read_bind hlt b[off], ih (by omega), take_drop_succ hlt n b[off]]
    rfl

theorem range_bind {b : List β} {lo hi : Nat} {f : List β → Call ε α} (h : lo ≤ hi)
    (hlen : hi ≤ b.length) : (range b lo hi).bind f = f ((b.drop lo).take (hi - lo)) := by
  rw [range, if_pos ⟨h, hlen⟩]
  rfl

theorem ite_quiet_of_iff {p q : Prop} [Decidable p] [Decidable q] {e : ε} {x : Call ε α}
    {y : Except ε α} (hpq : p ↔ q) (h : ¬ p → x = quiet y) :
    (if p then .error (.err e) else x) = quiet (if q then .error e else y) := by
  by_cases hp : p
  · rw [if_pos hp, if_pos (hpq.mp hp)]
    rfl
  · rw [if_neg hp, if_neg (fun hq => hp (hpq.mpr hq)), h hp]

theorem ite_quiet {p : Prop} [Decidable p] {e : ε} {x : Call ε α} {y : Except ε α}
    (h : ¬ p → x = quiet y) :
    (if p then .error (.err e) else x) = quiet (if p then .error e else y) :=
  ite_quiet_of_iff Iff.rfl h

/-- A step that both readings make: the rest has to agree on what it returned. -/
theorem bind_quiet {x : Except ε α} {f : α → Call ε β} {g : α → Except ε β}
    (h : ∀ a, x = .ok a → f a = quiet (g a)) : (quiet x).bind f = quiet (x.bind g) := by
  cases x with
  | error e => rfl
  | ok a => exact h a rfl

/-- The call returns, with a value or with an error of its own. -/
def Ends (x : Call ε α) : Prop := x ≠ .error .panic ∧ x ≠ .error .outOfSteps

theorem ends_ok (a : α) : Ends (.ok a : Call ε α) := ⟨by simp, by simp⟩

theorem ends_err (e : ε) : Ends (.error (.err e) : Call ε α) := ⟨by simp, by simp⟩

theorem ends_quiet (x : Except ε α) : Ends (quiet x) := by
  cases x with
  | ok a => exact ends_ok a
  | error e => exact ends_err e

theorem Ends.cases {x : Call ε α} (h : Ends x) :
    (∃ a, x = .ok a) ∨ ∃ e, x = .error (.err e) := by
  cases x with
  | ok a => exact .inl ⟨a, rfl⟩
  | error e =>
    cases e with
    | panic => exact absurd rfl h.1
    | outOfSteps => exact absurd rfl h.2
    | err e => exact .inr ⟨e, rfl⟩

theorem Ends.ite {p : Prop} [Decidable p] {x y : Call ε α} (hx : p → Ends x) (hy : ¬ p → Ends y) :
    Ends (if p then x else y) := by
  by_cases hp : p
  · rw [if_pos hp]
    exact hx hp
  · rw [if_neg hp]
    exact hy hp

theorem Ends.bind {x : Call ε α} {f : α → Call ε β} (hx : Ends x)
    (hf : ∀ a, x = .ok a → Ends (f a)) : Ends (x.bind f) := by
  cases x with
  | ok a => exact hf a rfl
  | error e => exact ⟨fun h => hx.1 (congrArg _ (Except.error.inj h)),
      fun h => hx.2 (congrArg _ (Except.error.inj h))⟩

end Panic
