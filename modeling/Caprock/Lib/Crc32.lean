import Caprock.Lib.Bytes
import Caprock.Lib.Crc

/-! # Checks of byte strings

A register of 32 bits that takes a byte at a time takes its eight bits, the lowest first.  The
shift is the one written with a mask instead of a branch.
-/

namespace Caprock.Crc

open Bytes

theorem shift_mask (p s : BitVec 32) :
    (s >>> 1) ^^^ (p &&& (0#32 - (s &&& 1#32))) = shift p s := by
  have hmaske : 0#32 - (s &&& 1#32) = if s.getLsbD 0 then 0xFFFFFFFF#32 else 0#32 := by
    rw [BitVec.and_one_eq_setWidth_ofBool_getLsbD]
    cases s.getLsbD 0 <;> rfl
  have hall : p &&& 0xFFFFFFFF#32 = p := BitVec.and_allOnes
  rw [hmaske, shift]
  cases s.getLsbD 0 with
  | false => simp
  | true => rw [if_pos rfl, if_pos rfl, hall]

theorem word_bits (b : List UInt8) : word 32 (bits b) = BitVec.ofNat 32 (leNat b) := by
  apply BitVec.eq_of_getLsbD_eq
  intro i hi
  rw [word_getLsbD, BitVec.getLsbD_ofNat, leNat_testBit, List.getD_eq_getElem?_getD, bits_getElem?]
  by_cases hlt : i < 8 * b.length
  · rw [if_pos hlt, Option.getD_some]
  · have hout : b[i / 8]? = none := by
      rw [List.getElem?_eq_none_iff]
      omega
    simp [hlt, bit, hout]

theorem feed_byte (p s : BitVec 32) (x : UInt8) :
    (shift p)^[8] (s ^^^ x.toUInt32.toBitVec) = feed p s (bits [x]) := by
  have hwort : BitVec.ofNat 32 (leNat [x]) = x.toUInt32.toBitVec := by
    apply BitVec.eq_of_toNat_eq
    have hx := x.toNat_lt
    simp [leNat]
  rw [feed_eq_word _ _ (by simp), word_bits, hwort, bits_length]
  rfl

theorem foldl_bytes {p : BitVec 32} {f : UInt32 → UInt8 → UInt32}
    (hf : ∀ s x, (f s x).toBitVec = (shift p)^[8] (s.toBitVec ^^^ x.toUInt32.toBitVec))
    (c : List UInt8) (s : UInt32) : (c.foldl f s).toBitVec = feed p s.toBitVec (bits c) := by
  induction c generalizing s with
  | nil => rfl
  | cons x c ih =>
    have hteil : bits (x :: c) = bits [x] ++ bits c := bits_append [x] c
    rw [List.foldl_cons, ih, hf, feed_byte, hteil, feed_append]

theorem feed_bits_window {p a : BitVec 32} (hp : p.msb = true) {b b' : List UInt8} {s : Nat}
    (hlen : b'.length = b.length) (hw : ∀ k, k < s ∨ s + 32 ≤ k → bit b' k = bit b k)
    (h : feed p a (bits b') = feed p a (bits b)) : b' = b := by
  have hbits : bits b' = bits b := by
    refine feed_window_inj (s := s) hp a (by simp [hlen]) ?_ h
    intro k hk
    rw [bits_getElem?, bits_getElem?, hlen, hw k hk]
  apply ext_bit hlen
  intro k hk
  have hget := congrArg (fun l => l[k]?) hbits
  simp only [bits_getElem?, hlen ▸ hk, hk, if_true, Option.some.injEq] at hget
  exact hget

end Caprock.Crc
