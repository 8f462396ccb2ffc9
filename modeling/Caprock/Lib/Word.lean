import Mathlib.Algebra.Group.Nat.Defs
import Mathlib.Data.Nat.Bitwise

/-! # Unsigned 64-bit arithmetic on natural numbers

Machine words are natural numbers below `2 ^ 64`.  `wadd` and `wsub` wrap, `checkedAdd`
reports overflow, `saturatingAdd` stops at the end, and `alignUp` is the usual mask idiom.
Each operation comes with the lemma that removes the wrap-around where the arguments leave
room.
-/

namespace Word

def wadd (a b : Nat) : Nat := (a + b) % 2 ^ 64

def wsub (a b : Nat) : Nat := (a + 2 ^ 64 - b) % 2 ^ 64

def checkedAdd (a b : Nat) : Option Nat :=
  if a + b < 2 ^ 64 then some (a + b) else none

def checkedMul (a b : Nat) : Option Nat :=
  if a * b < 2 ^ 64 then some (a * b) else none

def saturatingAdd (a b : Nat) : Nat := min (a + b) (2 ^ 64 - 1)

def isPowerOfTwo (n : Nat) : Bool := n != 0 && n &&& (n - 1) == 0

/-- `(value + (align - 1)) & !(align - 1)`. -/
def alignUp (value align : Nat) : Nat :=
  wadd value (align - 1) &&& (2 ^ 64 - 1 - (align - 1))

theorem isPowerOfTwo_iff {n : Nat} : isPowerOfTwo n = true ↔ ∃ k, n = 2 ^ k := by
  unfold isPowerOfTwo
  constructor
  · intro h
    obtain ⟨hne, hand⟩ := Bool.and_eq_true_iff.mp h
    simp only [bne_iff_ne, beq_iff_eq] at hne hand
    exact (Nat.and_sub_one_eq_zero_iff_isPowerOfTwo hne).mp hand
  · rintro ⟨k, rfl⟩
    have hne : 2 ^ k ≠ 0 := (Nat.two_pow_pos k).ne'
    have hand := (Nat.and_sub_one_eq_zero_iff_isPowerOfTwo hne).mpr ⟨k, rfl⟩
    simp [hand]

theorem wadd_eq {a b : Nat} (h : a + b < 2 ^ 64) : wadd a b = a + b :=
  Nat.mod_eq_of_lt h

theorem wsub_eq {a b : Nat} (ha : a < 2 ^ 64) (hb : b ≤ a) : wsub a b = a - b := by
  unfold wsub
  have hsum : a + 2 ^ 64 - b = a - b + 2 ^ 64 := by omega
  rw [hsum, Nat.add_mod_right]
  exact Nat.mod_eq_of_lt (by omega)

theorem checkedAdd_eq_some {a b c : Nat} :
    checkedAdd a b = some c ↔ a + b < 2 ^ 64 ∧ c = a + b := by
  unfold checkedAdd
  split
  · simp_all [eq_comm]
  · simp_all

theorem checkedMul_eq_some {a b c : Nat} :
    checkedMul a b = some c ↔ a * b < 2 ^ 64 ∧ c = a * b := by
  unfold checkedMul
  split
  · simp_all [eq_comm]
  · simp_all

theorem checkedAdd_eq {a b : Nat} (h : a + b < 2 ^ 64) : checkedAdd a b = some (a + b) := if_pos h

theorem checkedMul_eq {a b : Nat} (h : a * b < 2 ^ 64) : checkedMul a b = some (a * b) := if_pos h

/-- Clearing the low `k` bits of a word rounds it down to a multiple of `2 ^ k`. -/
theorem and_high_mask {x k : Nat} (hx : x < 2 ^ 64) (hk : k ≤ 64) :
    x &&& (2 ^ 64 - 2 ^ k) = x / 2 ^ k * 2 ^ k := by
  have hmask : 2 ^ 64 - 2 ^ k = (2 ^ (64 - k) - 1) * 2 ^ k := by
    rw [Nat.sub_mul, ← pow_add, Nat.sub_add_cancel hk, one_mul]
  rw [hmask, ← Nat.shiftLeft_eq, ← Nat.shiftLeft_eq, ← Nat.shiftRight_eq_div_pow]
  apply Nat.eq_of_testBit_eq
  intro i
  simp only [Nat.testBit_and, Nat.testBit_shiftLeft, Nat.testBit_two_pow_sub_one,
    Nat.testBit_shiftRight]
  by_cases hik : k ≤ i
  · simp only [ge_iff_le, hik, decide_true, Bool.true_and]
    have hadd : k + (i - k) = i := by omega
    rw [hadd]
    by_cases hi : i - k < 64 - k
    · simp [hi]
    · have hbit : x.testBit i = false := by
        apply Nat.testBit_lt_two_pow
        calc x < 2 ^ 64 := hx
          _ ≤ 2 ^ i := Nat.pow_le_pow_right (by omega) (by omega)
      simp [hbit]
  · simp [hik]

theorem alignUp_eq {value k : Nat} (hk : k ≤ 63) (h : value + (2 ^ k - 1) < 2 ^ 64) :
    alignUp value (2 ^ k) = (value + (2 ^ k - 1)) / 2 ^ k * 2 ^ k := by
  have hpos : 0 < 2 ^ k := Nat.two_pow_pos k
  have hmask : 2 ^ 64 - 1 - (2 ^ k - 1) = 2 ^ 64 - 2 ^ k := by omega
  unfold alignUp
  rw [wadd_eq h, hmask, and_high_mask h (by omega)]

theorem dvd_alignUp {value k : Nat} (hk : k ≤ 63) (h : value + (2 ^ k - 1) < 2 ^ 64) :
    2 ^ k ∣ alignUp value (2 ^ k) := by
  rw [alignUp_eq hk h]
  exact Nat.dvd_mul_left _ _

theorem le_alignUp {value k : Nat} (hk : k ≤ 63) (h : value + (2 ^ k - 1) < 2 ^ 64) :
    value ≤ alignUp value (2 ^ k) := by
  rw [alignUp_eq hk h]
  have hpos : 0 < 2 ^ k := Nat.two_pow_pos k
  have hdiv := Nat.div_add_mod (value + (2 ^ k - 1)) (2 ^ k)
  have hmod := Nat.mod_lt (value + (2 ^ k - 1)) hpos
  rw [Nat.mul_comm] at hdiv
  omega

theorem and_add_and_not {x m : Nat} (hx : x < 2 ^ 64) (hm : m < 2 ^ 64) :
    (x &&& m) + (x &&& (2 ^ 64 - 1 - m)) = x := by
  have hzero : (BitVec.ofNat 64 x &&& BitVec.ofNat 64 m) &&&
      (BitVec.ofNat 64 x &&& ~~~ BitVec.ofNat 64 m) = 0#64 := by
    apply BitVec.eq_of_getLsbD_eq
    intro i hi
    simp only [BitVec.getLsbD_and, BitVec.getLsbD_not, BitVec.getLsbD_zero]
    cases (BitVec.ofNat 64 x).getLsbD i <;> cases (BitVec.ofNat 64 m).getLsbD i <;> simp
  have hor : (BitVec.ofNat 64 x &&& BitVec.ofNat 64 m) +
      (BitVec.ofNat 64 x &&& ~~~ BitVec.ofNat 64 m) = BitVec.ofNat 64 x := by
    rw [BitVec.add_eq_or_of_and_eq_zero _ _ hzero]
    apply BitVec.eq_of_getLsbD_eq
    intro i hi
    simp only [BitVec.getLsbD_or, BitVec.getLsbD_and, BitVec.getLsbD_not]
    cases (BitVec.ofNat 64 x).getLsbD i <;> cases (BitVec.ofNat 64 m).getLsbD i <;> simp [hi]
  have hsum := BitVec.toNat_add_of_and_eq_zero hzero
  rw [hor] at hsum
  simp only [BitVec.toNat_and, BitVec.toNat_not, BitVec.toNat_ofNat, Nat.mod_eq_of_lt hx,
    Nat.mod_eq_of_lt hm] at hsum
  exact hsum.symm

theorem le_alignUp_of_lt (value align : Nat) (h : value + (align - 1) < 2 ^ 64) :
    value ≤ alignUp value align := by
  have hsplit := and_add_and_not (x := value + (align - 1)) (m := align - 1) h (by omega)
  have hlow : (value + (align - 1)) &&& (align - 1) ≤ align - 1 := Nat.and_le_right
  unfold alignUp
  rw [wadd_eq h]
  omega

end Word
