import Mathlib.Data.Nat.Prime.Defs
import Mathlib.Analysis.SpecialFunctions.Pow.NthRootLemmas
import Mathlib.Data.Nat.Nth

/-! # SHA-256 of FIPS 180-4

The hash as the standard states it: a message is a string of bits, padded to blocks of 512 bits, and
a block is sixteen words whose first bit is the most significant.  The constants are the first 32
bits of the fractional parts of roots of primes.

The second half is about bit strings: numbers, words and bytes as strings of their digits.
-/

namespace Sha2

abbrev Word := BitVec 32

def ch (x y z : Word) : Word := (x &&& y) ^^^ (~~~x &&& z)

def maj (x y z : Word) : Word := (x &&& y) ^^^ (x &&& z) ^^^ (y &&& z)

def bigSigma0 (x : Word) : Word := x.rotateRight 2 ^^^ x.rotateRight 13 ^^^ x.rotateRight 22

def bigSigma1 (x : Word) : Word := x.rotateRight 6 ^^^ x.rotateRight 11 ^^^ x.rotateRight 25

def smallSigma0 (x : Word) : Word := x.rotateRight 7 ^^^ x.rotateRight 18 ^^^ x >>> 3

def smallSigma1 (x : Word) : Word := x.rotateRight 17 ^^^ x.rotateRight 19 ^^^ x >>> 10

/-- The first 32 bits of the fractional part of the `n`-th root of prime number `t`, counted from
zero. -/
noncomputable def rootWord (n t : Nat) : Word :=
  BitVec.ofNat 32 (Nat.nthRoot n (Nat.nth Nat.Prime t * 2 ^ (32 * n)))

/-- The constant of round `t`. -/
noncomputable def constant (t : Nat) : Word := rootWord 3 t

@[ext] structure Hash where
  a : Word
  b : Word
  c : Word
  d : Word
  e : Word
  f : Word
  g : Word
  h : Word

noncomputable def initial : Hash :=
  ⟨rootWord 2 0, rootWord 2 1, rootWord 2 2, rootWord 2 3,
    rootWord 2 4, rootWord 2 5, rootWord 2 6, rootWord 2 7⟩

def schedule (m : Nat → Word) (t : Nat) : Word :=
  if t < 16 then m t
  else smallSigma1 (schedule m (t - 2)) + schedule m (t - 7) + smallSigma0 (schedule m (t - 15)) +
    schedule m (t - 16)
  termination_by t

def round (s : Hash) (k w : Word) : Hash :=
  let t1 := s.h + bigSigma1 s.e + ch s.e s.f s.g + k + w
  let t2 := bigSigma0 s.a + maj s.a s.b s.c
  ⟨t1 + t2, s.a, s.b, s.c, s.d + t1, s.e, s.f, s.g⟩

noncomputable def compress (s : Hash) (m : Nat → Word) : Hash :=
  let r := (List.range 64).foldl (fun r t => round r (constant t) (schedule m t)) s
  ⟨r.a + s.a, r.b + s.b, r.c + s.c, r.d + s.d, r.e + s.e, r.f + s.f, r.g + s.g, r.h + s.h⟩

/-- The number that a string of bits denotes, the most significant bit first. -/
def number (x : List Bool) : Nat := x.foldl (fun n b => 2 * n + b.toNat) 0

/-- A number as `w` bits. -/
def digits (w n : Nat) : List Bool := (List.range w).map fun i => n.testBit (w - 1 - i)

def word (x : List Bool) : Word := BitVec.ofNat 32 (number x)

/-- How many zeros follow the one behind a message of `l` bits. -/
def zeros (l : Nat) : Nat := (448 + 512 - (l + 1) % 512) % 512

def pad (m : List Bool) : List Bool :=
  m ++ true :: List.replicate (zeros m.length) false ++ digits 64 m.length

/-- Word `t` of block `i`. -/
def blockWord (p : List Bool) (i t : Nat) : Word := word ((p.drop (512 * i + 32 * t)).take 32)

/-- The hash value behind the blocks of a padded message. -/
noncomputable def hashBlocks (p : List Bool) : Hash :=
  (List.range (p.length / 512)).foldl (fun s i => compress s (blockWord p i)) initial

def Hash.bits (s : Hash) : List Bool :=
  [s.a, s.b, s.c, s.d, s.e, s.f, s.g, s.h].flatMap fun x => digits 32 x.toNat

noncomputable def sha256 (m : List Bool) : List Bool := (hashBlocks (pad m)).bits

/-- The primes in their order are the sorted list of the primes below a bound. -/
theorem nth_prime_eq {l : List Nat} {n : Nat} (hsort : l.Pairwise (· < ·))
    (hmem : ∀ p < n, Nat.Prime p ↔ p ∈ l) (hlt : ∀ p ∈ l, p < n) {t : Nat} (ht : t < l.length) :
    Nat.nth Nat.Prime t = l[t] := by
  have hin : l[t] < n := hlt _ (List.getElem_mem ht)
  have hprime : Nat.Prime l[t] := (hmem _ hin).mpr (List.getElem_mem ht)
  have hnodup : l.Nodup := hsort.imp fun h => Nat.ne_of_lt h
  have hcount : Nat.count Nat.Prime l[t] = t := by
    have hset : (Finset.range l[t]).filter Nat.Prime = (l.take t).toFinset := by
      ext p
      rw [Finset.mem_filter, Finset.mem_range, List.mem_toFinset, List.mem_take_iff_getElem]
      constructor
      · intro hp
        obtain ⟨i, hi, rfl⟩ := List.getElem_of_mem ((hmem p (by omega)).mp hp.2)
        rcases Nat.lt_trichotomy i t with hlt | heq | hgt
        · exact ⟨i, by omega, rfl⟩
        · subst heq
          exact absurd hp.1 (Nat.lt_irrefl _)
        · exact absurd hp.1 (Nat.lt_asymm (List.pairwise_iff_getElem.mp hsort t i ht hi hgt))
      · intro hp
        obtain ⟨i, hi, rfl⟩ := hp
        have hrel := List.pairwise_iff_getElem.mp hsort i t (by omega) ht (by omega)
        exact ⟨hrel, (hmem _ (by omega)).mpr (List.getElem_mem _)⟩
    rw [Nat.count_eq_card_filter_range, hset,
      List.toFinset_card_of_nodup (hnodup.sublist (List.take_sublist t l)), List.length_take,
      Nat.min_eq_left (Nat.le_of_lt ht)]
  have hnth := Nat.nth_count hprime
  rwa [hcount] at hnth

theorem prime_iff_trial {n d : Nat} {ps : List Nat} (h : n < d * d) (htwo : ∀ q ∈ ps, 2 ≤ q)
    (hps : ∀ q < d, Nat.Prime q → q ∈ ps) :
    Nat.Prime n ↔ 2 ≤ n ∧ ∀ q ∈ ps, q * q ≤ n → n % q ≠ 0 := by
  rw [Nat.prime_def_le_sqrt]
  constructor
  · intro hp
    refine ⟨hp.1, fun q hq hqq hmod => ?_⟩
    exact hp.2 q (htwo q hq) (Nat.le_sqrt.mpr hqq) (Nat.dvd_of_mod_eq_zero hmod)
  · intro hp
    refine ⟨hp.1, fun m hm hsqrt hdvd => ?_⟩
    have hprime : Nat.Prime m.minFac := Nat.minFac_prime (by omega)
    have hmm : m.minFac * m.minFac ≤ n :=
      (Nat.mul_le_mul (Nat.minFac_le (by omega)) (Nat.minFac_le (by omega))).trans
        (Nat.le_sqrt.mp hsqrt)
    have hlt : m.minFac < d := by
      by_contra hge
      have hsq := Nat.mul_le_mul (Nat.le_of_not_lt hge) (Nat.le_of_not_lt hge)
      omega
    exact hp.2 _ (hps _ hlt hprime) hmm (Nat.mod_eq_zero_of_dvd ((Nat.minFac_dvd m).trans hdvd))

@[simp] theorem number_concat (x : List Bool) (b : Bool) :
    number (x ++ [b]) = 2 * number x + b.toNat := by
  rw [number, List.foldl_append]
  rfl

@[simp] theorem digits_length (w n : Nat) : (digits w n).length = w := by simp [digits]

theorem digits_add (a b n : Nat) : digits (a + b) n = digits a (n / 2 ^ b) ++ digits b n := by
  rw [digits, List.range_add, List.map_append, List.map_map]
  congr 1
  · apply List.map_congr_left
    intro i hi
    have hlt := List.mem_range.mp hi
    rw [Nat.testBit_div_two_pow]
    congr 1
    omega
  · apply List.map_congr_left
    intro i hi
    have hlt := List.mem_range.mp hi
    simp only [Function.comp_apply]
    congr 1
    omega

theorem digits_mod (w n : Nat) : digits w (n % 2 ^ w) = digits w n := by
  apply List.map_congr_left
  intro i hi
  have hlt := List.mem_range.mp hi
  rw [Nat.testBit_mod_two_pow]
  simp only [Bool.and_eq_right_iff_imp, decide_eq_true_eq]
  omega

theorem number_digits (w n : Nat) : number (digits w n) = n % 2 ^ w := by
  induction w generalizing n with
  | zero => simp [digits, number, Nat.mod_one]
  | succ w ih =>
    have hone : digits 1 n = [n.testBit 0] := rfl
    have hmod : n % 2 ^ (w + 1) = n % 2 + 2 * (n / 2 % 2 ^ w) := by
      rw [Nat.pow_succ', Nat.mod_mul]
    rw [digits_add w 1 n, hone, number_concat, ih, Nat.pow_one, hmod, Nat.testBit_zero]
    rcases Nat.mod_two_eq_zero_or_one n with hbit | hbit
    · simp [hbit]
    · simp [hbit, Nat.add_comm]

def bytes (b : List UInt8) : List Bool := b.flatMap fun x => digits 8 x.toNat

@[simp] theorem bytes_length (b : List UInt8) : (bytes b).length = 8 * b.length := by
  induction b with
  | nil => rfl
  | cons x b ih =>
    rw [bytes, List.flatMap_cons, List.length_append, digits_length, List.length_cons]
    change 8 + (bytes b).length = _
    omega

theorem bytes_append (b b' : List UInt8) : bytes (b ++ b') = bytes b ++ bytes b' :=
  List.flatMap_append

theorem bytes_drop (b : List UInt8) (k : Nat) : (bytes b).drop (8 * k) = bytes (b.drop k) := by
  by_cases hk : k ≤ b.length
  · have hsplit : bytes b = bytes (b.take k) ++ bytes (b.drop k) := by
      rw [← bytes_append, List.take_append_drop]
    rw [hsplit, List.drop_left']
    rw [bytes_length, List.length_take, Nat.min_eq_left hk]
  · rw [List.drop_eq_nil_of_le (by rw [bytes_length]; omega), List.drop_eq_nil_of_le (by omega)]
    rfl

theorem bytes_take (b : List UInt8) (k : Nat) : (bytes b).take (8 * k) = bytes (b.take k) := by
  by_cases hk : k ≤ b.length
  · have hsplit : bytes b = bytes (b.take k) ++ bytes (b.drop k) := by
      rw [← bytes_append, List.take_append_drop]
    rw [hsplit, List.take_left']
    rw [bytes_length, List.length_take, Nat.min_eq_left hk]
  · rw [List.take_of_length_le (by rw [bytes_length]; omega), List.take_of_length_le (by omega)]

end Sha2
