import Mathlib.Tactic.IntervalCases
import Mathlib.Tactic.NormNum.Prime
import Caprock.Lib.Sha2
import Caprock.Lxpd.Sha256

/-! # The hash of the standard

`sha256` computes the hash of FIPS 180-4.  Bytes are strings of bits, words of the code are words of
the standard, and the blocks that the code takes from the data and from its tail are the blocks of
the padded message.  The hand-written constants are the roots of primes they stand for.
-/

namespace Caprock.Lxpd

open Bytes

def primzahlen : List Nat :=
  [2, 3, 5, 7, 11, 13, 17, 19, 23, 29, 31, 37, 41, 43, 47, 53, 59, 61, 67, 71, 73, 79, 83, 89, 97,
    101, 103, 107, 109, 113, 127, 131, 137, 139, 149, 151, 157, 163, 167, 173, 179, 181, 191, 193,
    197, 199, 211, 223, 227, 229, 233, 239, 241, 251, 257, 263, 269, 271, 277, 281, 283, 293, 307,
    311]

/-- What is computed: the list by trial division, and that the constants of the code with their
integer parts are the roots. -/
theorem primzahlen_tafel :
    (List.range 312).filter (fun n =>
      2 ≤ n ∧ ∀ q ∈ [2, 3, 5, 7, 11, 13, 17], q * q ≤ n → n % q ≠ 0) = primzahlen ∧
    primzahlen.Pairwise (· < ·) ∧ (∀ p ∈ primzahlen, p < 312) ∧
    (∀ t < 64, ∃ i ∈ List.range 7,
      ((shaK.getD t 0).toNat + 2 ^ 32 * i) ^ 3 ≤ primzahlen.getD t 0 * 2 ^ (32 * 3) ∧
      primzahlen.getD t 0 * 2 ^ (32 * 3) < ((shaK.getD t 0).toNat + 2 ^ 32 * i + 1) ^ 3) ∧
    ∀ t < 8, ∃ i ∈ List.range 7,
      (([shaStart.a, shaStart.b, shaStart.c, shaStart.d, shaStart.e, shaStart.f, shaStart.g,
        shaStart.h].getD t 0).toNat + 2 ^ 32 * i) ^ 2 ≤ primzahlen.getD t 0 * 2 ^ (32 * 2) ∧
      primzahlen.getD t 0 * 2 ^ (32 * 2) < (([shaStart.a, shaStart.b, shaStart.c, shaStart.d,
        shaStart.e, shaStart.f, shaStart.g, shaStart.h].getD t 0).toNat + 2 ^ 32 * i + 1) ^ 2 := by
  decide +kernel

theorem prime_iff_primzahlen (n : Nat) (hn : n < 312) : Nat.Prime n ↔ n ∈ primzahlen := by
  have hsmall : ∀ q < 18, Nat.Prime q → q ∈ [2, 3, 5, 7, 11, 13, 17] := by
    intro q hq hprime
    interval_cases q <;> first | decide | norm_num at hprime
  rw [Sha2.prime_iff_trial (show n < 18 * 18 by omega) (by decide) hsmall, ← primzahlen_tafel.1,
    List.mem_filter, decide_eq_true_iff, and_iff_right (List.mem_range.mpr hn)]

theorem nth_primzahlen {t : Nat} (ht : t < 64) : Nat.nth Nat.Prime t = primzahlen.getD t 0 := by
  obtain ⟨-, hsort, hlt, -⟩ := primzahlen_tafel
  rw [Sha2.nth_prime_eq hsort prime_iff_primzahlen hlt (show t < primzahlen.length from ht)]
  simp [show t < primzahlen.length from ht]

/-- A list of words that are roots up to their integer parts. -/
theorem map_rootWord {k : Nat} (hk : k ≠ 0) {l : List UInt32} (hlen : l.length ≤ 64)
    (h : ∀ t < l.length, ∃ i ∈ List.range 7,
      ((l.getD t 0).toNat + 2 ^ 32 * i) ^ k ≤ primzahlen.getD t 0 * 2 ^ (32 * k) ∧
      primzahlen.getD t 0 * 2 ^ (32 * k) < ((l.getD t 0).toNat + 2 ^ 32 * i + 1) ^ k) :
    l.map UInt32.toBitVec = (List.range l.length).map (Sha2.rootWord k) := by
  refine List.ext_getElem (by simp) fun t ht _ => ?_
  rw [List.length_map] at ht
  obtain ⟨i, -, hle, hlt⟩ := h t ht
  rw [List.getD_eq_getElem _ _ ht] at hle hlt
  rw [List.getElem_map, List.getElem_map, List.getElem_range, Sha2.rootWord,
    nth_primzahlen (ht.trans_le hlen), le_antisymm
      (Nat.lt_succ_iff.mp ((Nat.nthRoot_lt_iff hk).mpr hlt)) ((Nat.le_nthRoot_iff hk).mpr hle)]
  apply BitVec.eq_of_toNat_eq
  rw [BitVec.toNat_ofNat, Nat.add_mul_mod_self_left, UInt32.toNat_toBitVec]
  exact (Nat.mod_eq_of_lt l[t].toNat_lt).symm

theorem shaK_eq : shaK.map UInt32.toBitVec = (List.range 64).map Sha2.constant :=
  map_rootWord (l := shaK) (by decide) (by decide) primzahlen_tafel.2.2.2.1

def ShaState.hash (s : ShaState) : Sha2.Hash :=
  ⟨s.a.toBitVec, s.b.toBitVec, s.c.toBitVec, s.d.toBitVec, s.e.toBitVec, s.f.toBitVec,
    s.g.toBitVec, s.h.toBitVec⟩

theorem shaStart_hash : shaStart.hash = Sha2.initial := by
  have hroot : [shaStart.a, shaStart.b, shaStart.c, shaStart.d, shaStart.e, shaStart.f, shaStart.g,
      shaStart.h].map UInt32.toBitVec = (List.range 8).map (Sha2.rootWord 2) :=
    map_rootWord (by decide) (by decide) primzahlen_tafel.2.2.2.2
  simp only [List.map_cons, List.map_nil, List.range_succ_eq_map, List.range_zero,
    List.cons.injEq] at hroot
  obtain ⟨ha, hb, hc, hd, he, hf, hg, hh, -⟩ := hroot
  rw [ShaState.hash, ha, hb, hc, hd, he, hf, hg, hh]
  rfl

theorem rotateRight_toBitVec (x n : UInt32) (hn : n.toNat < 32) (hpos : 0 < n.toNat) :
    (rotateRight x n).toBitVec = x.toBitVec.rotateRight n.toNat := by
  have hright : (n.toBitVec % (32 : BitVec 32)).toNat = n.toNat := by
    rw [BitVec.toNat_umod, UInt32.toNat_toBitVec]
    exact Nat.mod_eq_of_lt hn
  have hleft : ((32 - n).toBitVec % (32 : BitVec 32)).toNat = 32 - n.toNat := by
    have hsub : (32 - n).toNat = 32 - n.toNat :=
      UInt32.toNat_sub_of_le _ _ (UInt32.le_iff_toNat_le.mpr (Nat.le_of_lt hn))
    rw [BitVec.toNat_umod, UInt32.toNat_toBitVec, hsub]
    exact Nat.mod_eq_of_lt (show 32 - n.toNat < 32 by omega)
  rw [rotateRight, UInt32.toBitVec_or, UInt32.toBitVec_shiftRight, UInt32.toBitVec_shiftLeft,
    BitVec.rotateRight_def, BitVec.ushiftRight_eq', BitVec.shiftLeft_eq', hright, hleft,
    Nat.mod_eq_of_lt hn]

theorem shaRunde_hash (s : ShaState) (k w : UInt32) :
    (shaRunde s k w).hash = Sha2.round s.hash k.toBitVec w.toBitVec := by
  have hrot : ∀ x n : UInt32, n.toNat < 32 → 0 < n.toNat →
      (rotateRight x n).toBitVec = x.toBitVec.rotateRight n.toNat := rotateRight_toBitVec
  simp only [shaRunde, ShaState.hash, Sha2.round, Sha2.bigSigma0, Sha2.bigSigma1, Sha2.ch,
    Sha2.maj, UInt32.toBitVec_add, UInt32.toBitVec_xor, UInt32.toBitVec_and, UInt32.toBitVec_not,
    hrot _ 6 (by decide) (by decide), hrot _ 11 (by decide) (by decide),
    hrot _ 25 (by decide) (by decide), hrot _ 2 (by decide) (by decide),
    hrot _ 13 (by decide) (by decide), hrot _ 22 (by decide) (by decide)]
  rfl

theorem runden_hash (l : List (UInt32 × UInt32)) (s : ShaState) :
    (l.foldl (fun s x => shaRunde s x.1 x.2) s).hash =
      (l.map (Prod.map UInt32.toBitVec UInt32.toBitVec)).foldl
        (fun r x => Sha2.round r x.1 x.2) s.hash := by
  induction l generalizing s with
  | nil => rfl
  | cons x l ih =>
    rw [List.foldl_cons, ih, shaRunde_hash]
    rfl

theorem bytes_toBeBytes (k n : Nat) : Sha2.bytes (toBeBytes k n) = Sha2.digits (8 * k) n := by
  induction k generalizing n with
  | zero => rfl
  | succ k ih =>
    have hlast : Sha2.bytes [UInt8.ofNat n] = Sha2.digits 8 n := by
      rw [Sha2.bytes, List.flatMap_singleton, ← Sha2.digits_mod 8 n]
      simp
    rw [toBeBytes, leBytes, List.reverse_cons, Sha2.bytes_append, hlast, Nat.mul_succ,
      Sha2.digits_add, ← ih]
    rfl

theorem number_bytes (b : List UInt8) : Sha2.number (Sha2.bytes b) = leNat b.reverse := by
  have hbe : toBeBytes b.length (leNat b.reverse) = b := by
    rw [toBeBytes, ← List.length_reverse, leBytes_leNat, List.reverse_reverse]
  have hlt : leNat b.reverse < 2 ^ (8 * b.length) := by
    have hbytes := leNat_lt b.reverse
    rwa [List.length_reverse, show 256 = 2 ^ 8 from rfl, ← Nat.pow_mul] at hbytes
  rw [← Nat.mod_eq_of_lt hlt, ← Sha2.number_digits, ← bytes_toBeBytes, hbe]

theorem fromBeBytes_toBitVec (b : List UInt8) :
    (fromBeBytes b).toBitVec = Sha2.word (Sha2.bytes b) := by
  rw [Sha2.word, number_bytes]
  rfl

theorem shaWoerter_toBitVec (d : List UInt8) (i : Nat) :
    (shaWoerter ((d.drop (64 * i)).take 64)).map UInt32.toBitVec =
      (List.range 16).map (Sha2.blockWord (Sha2.bytes d) i) := by
  rw [shaWoerter, List.map_map]
  apply List.map_congr_left
  intro t ht
  have hlt := List.mem_range.mp ht
  have hpart : (((d.drop (64 * i)).take 64).drop (4 * t)).take 4 =
      (d.drop (64 * i + 4 * t)).take 4 := by
    rw [List.drop_take, List.take_take, List.drop_drop, Nat.min_eq_left (by omega)]
  rw [Function.comp_apply, fromBeBytes_toBitVec, hpart, Sha2.blockWord, ← Sha2.bytes_take,
    ← Sha2.bytes_drop]
  congr 3
  omega

theorem shaPlan_toBitVec (m : Nat → Sha2.Word) (n : Nat) (w : List UInt32) (hw : 16 ≤ w.length)
    (h : w.map UInt32.toBitVec = (List.range w.length).map (Sha2.schedule m)) :
    (shaPlan n w).map UInt32.toBitVec = (List.range (w.length + n)).map (Sha2.schedule m) := by
  induction n generalizing w with
  | zero => exact h
  | succ n ih =>
    have hget : ∀ j < w.length, (w.getD j 0).toBitVec = Sha2.schedule m j := by
      intro j hj
      have hj' := congrArg (fun l => l[j]?) h
      simp only [List.getElem?_map, List.getElem?_range, hj, List.getElem?_eq_getElem,
        Option.map_some, Option.some.injEq] at hj'
      simpa [hj] using hj'
    rw [shaPlan, ih _ (by rw [List.length_append]; omega), List.length_append,
      List.length_singleton, Nat.add_assoc, Nat.add_comm 1]
    rw [List.map_append, h, List.length_append, List.length_singleton, List.range_succ,
      List.map_append, List.map_singleton, List.map_singleton]
    congr 2
    rw [Sha2.schedule, if_neg (Nat.not_lt.mpr hw), ← hget _ (by omega), ← hget _ (by omega),
      ← hget _ (by omega), ← hget _ (by omega)]
    simp only [Sha2.smallSigma0, Sha2.smallSigma1, UInt32.toBitVec_add, UInt32.toBitVec_xor,
      rotateRight_toBitVec _ 7 (by decide) (by decide),
      rotateRight_toBitVec _ 18 (by decide) (by decide),
      rotateRight_toBitVec _ 17 (by decide) (by decide),
      rotateRight_toBitVec _ 19 (by decide) (by decide)]
    change _ + (_ ^^^ _ ^^^ (w.getD (w.length - 15) 0).toBitVec >>> 3) + _ +
      (_ ^^^ _ ^^^ (w.getD (w.length - 2) 0).toBitVec >>> 10) = _
    ac_rfl

theorem shaCompress_hash (s : ShaState) (d : List UInt8) (i : Nat) :
    (shaCompress s ((d.drop (64 * i)).take 64)).hash =
      Sha2.compress s.hash (Sha2.blockWord (Sha2.bytes d) i) := by
  have hlen : (shaWoerter ((d.drop (64 * i)).take 64)).length = 16 := by simp [shaWoerter]
  have hplan := shaPlan_toBitVec (Sha2.blockWord (Sha2.bytes d) i) 48 _ (Nat.le_of_eq hlen.symm) (by
    rw [shaWoerter_toBitVec, hlen]
    apply List.map_congr_left
    intro t ht
    rw [Sha2.schedule, if_pos (List.mem_range.mp ht)])
  rw [hlen] at hplan
  have hrun := runden_hash
    (shaK.zip (shaPlan 48 (shaWoerter ((d.drop (64 * i)).take 64)))) s
  rw [← List.zip_map, hplan, shaK_eq, List.zip_map', List.foldl_map] at hrun
  rw [Sha2.compress, ← hrun]
  simp only [shaCompress, ShaState.hash, UInt32.toBitVec_add, BitVec.add_comm]

theorem blockWord_drop (d : List UInt8) (i : Nat) :
    Sha2.blockWord (Sha2.bytes (d.drop 64)) i = Sha2.blockWord (Sha2.bytes d) (i + 1) := by
  funext t
  have hoff : 8 * 64 + (512 * i + 32 * t) = 512 * (i + 1) + 32 * t := by omega
  rw [Sha2.blockWord, Sha2.blockWord, ← Sha2.bytes_drop, List.drop_drop, hoff]

theorem shaBloecke_hash (n : Nat) (s : ShaState) (d : List UInt8) :
    (shaBloecke n s d).hash =
      (List.range n).foldl (fun r i => Sha2.compress r (Sha2.blockWord (Sha2.bytes d) i))
        s.hash := by
  induction n generalizing s d with
  | zero => rfl
  | succ n ih =>
    have hfirst := shaCompress_hash s d 0
    rw [Nat.mul_zero, List.drop_zero] at hfirst
    have hnext : ∀ i, Sha2.blockWord (Sha2.bytes (d.drop 64)) i =
        Sha2.blockWord (Sha2.bytes d) (i + 1) := blockWord_drop d
    rw [shaBloecke, ih, hfirst, List.range_succ_eq_map, List.foldl_cons, List.foldl_map]
    simp only [hnext]

theorem shaBloecke_add (n m : Nat) (s : ShaState) (d : List UInt8) :
    shaBloecke (n + m) s d = shaBloecke m (shaBloecke n s d) (d.drop (64 * n)) := by
  induction n generalizing s d with
  | zero => simp [shaBloecke]
  | succ n ih =>
    rw [Nat.succ_add, shaBloecke, ih, shaBloecke, List.drop_drop]
    congr 2
    omega

theorem shaBloecke_take (n : Nat) (s : ShaState) (d x : List UInt8) (h : 64 * n ≤ d.length) :
    shaBloecke n s (d.take (64 * n) ++ x) = shaBloecke n s d := by
  induction n generalizing s d with
  | zero => rfl
  | succ n ih =>
    have hsplit : d.take (64 * (n + 1)) = d.take 64 ++ (d.drop 64).take (64 * n) := by
      rw [← List.take_add]
      congr 1
      omega
    have hlen : (d.take 64).length = 64 := by
      rw [List.length_take]
      omega
    rw [shaBloecke, shaBloecke, hsplit, List.append_assoc, List.take_left' hlen,
      List.drop_left' hlen]
    apply ih
    rw [List.length_drop]
    omega

theorem bytes_replicate_zero (n : Nat) :
    Sha2.bytes (List.replicate n 0) = List.replicate (8 * n) false := by
  induction n with
  | zero => rfl
  | succ n ih =>
    have hzero : Sha2.bytes [0] = List.replicate 8 false := by decide
    rw [List.replicate_succ', Sha2.bytes_append, ih, hzero, ← List.replicate_add]
    rfl

def aufgefuellt (d : List UInt8) : List UInt8 :=
  d.take (64 * (d.length / 64)) ++
    shaTail (d.drop (64 * (d.length / 64))) (d.length * 8 % 2 ^ 64)

theorem zeros_eq (l : Nat) :
    Sha2.zeros (8 * l) = 7 + 8 * ((if l % 64 < 56 then 64 else 128) - 8 - l % 64 - 1) := by
  unfold Sha2.zeros
  by_cases hshort : l % 64 < 56
  · rw [if_pos hshort]
    omega
  · rw [if_neg hshort]
    omega

theorem bytes_aufgefuellt (d : List UInt8) :
    Sha2.bytes (aufgefuellt d) = Sha2.pad (Sha2.bytes d) := by
  have hrest : (d.drop (64 * (d.length / 64))).length = d.length % 64 := by
    rw [List.length_drop]
    omega
  have hone : Sha2.bytes [0x80] = true :: List.replicate 7 false := by decide
  have hlen : Sha2.bytes (toBeBytes 8 (d.length * 8 % 2 ^ 64)) = Sha2.digits 64 (8 * d.length) := by
    rw [bytes_toBeBytes, Nat.mul_comm d.length]
    exact Sha2.digits_mod 64 _
  rw [aufgefuellt, shaTail, hrest, List.append_cons, ← List.append_assoc, ← List.append_assoc,
    ← List.append_assoc, List.take_append_drop, Sha2.bytes_append, Sha2.bytes_append,
    Sha2.bytes_append, hone, hlen, bytes_replicate_zero, Sha2.pad, Sha2.bytes_length, zeros_eq,
    List.replicate_add]
  simp only [List.append_assoc, List.cons_append]

theorem aufgefuellt_length (d : List UInt8) :
    (aufgefuellt d).length / 64 = d.length / 64 +
      (shaTail (d.drop (64 * (d.length / 64))) (d.length * 8 % 2 ^ 64)).length / 64 := by
  rw [aufgefuellt, List.length_append, List.length_take, Nat.min_eq_left (Nat.mul_div_le ..),
    Nat.mul_add_div (by decide)]

theorem sha256_eq (d : List UInt8) :
    sha256 d = (shaBloecke ((aufgefuellt d).length / 64) shaStart (aufgefuellt d)).bytes := by
  have hle : 64 * (d.length / 64) ≤ d.length := Nat.mul_div_le ..
  have hlen : (d.take (64 * (d.length / 64))).length = 64 * (d.length / 64) := by
    rw [List.length_take, Nat.min_eq_left hle]
  rw [aufgefuellt_length, shaBloecke_add, aufgefuellt, shaBloecke_take _ _ _ _ hle,
    List.drop_left' hlen]
  rfl

theorem bytes_bytes (s : ShaState) : Sha2.bytes s.bytes = s.hash.bits := by
  simp only [ShaState.bytes, ShaState.hash, Sha2.Hash.bits, List.flatMap_cons, List.flatMap_nil,
    Sha2.bytes_append, bytes_toBeBytes]
  rfl

/-- `sha256` is the hash of FIPS 180-4, for data of every length. -/
theorem sha256_fips (data : List UInt8) :
    Sha2.bytes (sha256 data) = Sha2.sha256 (Sha2.bytes data) := by
  have hblocks : (Sha2.pad (Sha2.bytes data)).length / 512 = (aufgefuellt data).length / 64 := by
    rw [← bytes_aufgefuellt, Sha2.bytes_length]
    exact Nat.mul_div_mul_left _ 64 (show 0 < 8 by decide)
  rw [sha256_eq, bytes_bytes, shaBloecke_hash, shaStart_hash, Sha2.sha256, Sha2.hashBlocks,
    hblocks, ← bytes_aufgefuellt]

end Caprock.Lxpd
