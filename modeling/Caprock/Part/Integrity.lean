import Caprock.Lib.Crc32
import Caprock.Lib.Panic
import Caprock.Part.Gpt

/-! # Integrity of a table

The checksum over the entries does not depend on how they were cut into pieces, and it finds every
change inside 32 consecutive bits.  `parse_header`, written once more with its indices, ranges and
products as places that may panic, returns for every sector.
-/

namespace Caprock.Part

open Bytes Checks Panic

/-- The feedback of `Crc32`. -/
def polynom : BitVec 32 := 0xEDB88320

theorem crcBit_toBitVec (c : Crc32) : (crcBit c).toBitVec = Crc.shift polynom c.toBitVec :=
  Crc.shift_mask polynom c.toBitVec

theorem crcByte_toBitVec (c : Crc32) (b : UInt8) :
    (crcByte c b).toBitVec = (Crc.shift polynom)^[8] (c.toBitVec ^^^ b.toUInt32.toBitVec) := by
  simp only [crcByte, crcBit_toBitVec]
  rfl

theorem crcUpdate_toBitVec (bytes : List UInt8) (c : Crc32) :
    (crcUpdate c bytes).toBitVec = Crc.feed polynom c.toBitVec (bits bytes) :=
  Crc.foldl_bytes crcByte_toBitVec bytes c

theorem crcUpdate_flatten (stuecke : List (List UInt8)) (c : Crc32) :
    stuecke.foldl crcUpdate c = crcUpdate c stuecke.flatten := by
  induction stuecke generalizing c with
  | nil => rfl
  | cons x stuecke ih =>
    rw [List.foldl_cons, ih, List.flatten_cons, crcUpdate, crcUpdate, crcUpdate,
      List.foldl_append]

theorem verifyEntries_eq_ok {h : GptHeader} {c : Crc32} :
    verifyEntries h c = .ok () ↔ (crcFinish c).toNat = h.entriesCrc := by
  rw [verifyEntries, ite_ok_error_eq_ok]
  simp

theorem verifyEntries_window {h : GptHeader} {e e' : List UInt8} {s : Nat}
    (hok : verifyEntries h (crcUpdate crcNeu e) = .ok ()) (hlen : e'.length = e.length)
    (hne : e' ≠ e) (hw : ∀ k, k < s ∨ s + 32 ≤ k → bit e' k = bit e k) :
    verifyEntries h (crcUpdate crcNeu e') = .error .entriesCrc := by
  rw [verifyEntries_eq_ok] at hok
  apply if_neg
  intro hcrc
  have hfinish : crcFinish (crcUpdate crcNeu e') = crcFinish (crcUpdate crcNeu e) :=
    UInt32.toNat_inj.mp (hcrc.trans hok.symm)
  have hstate := congrArg UInt32.toBitVec (UInt32.not_inj.mp hfinish)
  rw [crcUpdate_toBitVec, crcUpdate_toBitVec] at hstate
  exact hne (Crc.feed_bits_window rfl hlen hw hstate)

def rd32Call (b : List UInt8) (off : Nat) : Call PartError Nat :=
  (reads b off 4).bind fun x => .ok (leNat x)

def rd64Call (b : List UInt8) (off : Nat) : Call PartError Nat :=
  (reads b off 8).bind fun x => .ok (leNat x)

def parseHeaderCall (s : List UInt8) : Call PartError GptHeader :=
  if s.length < minHeaderSize then .error (.err .tooShort)
  else
    (range s 0 8).bind fun sig =>
    if sig ≠ signature then .error (.err .badSignature)
    else
      (rd32Call s 8).bind fun rev =>
      if rev ≠ revision then .error (.err .badRevision)
      else
        (rd32Call s 12).bind fun headerSize =>
        if headerSize < minHeaderSize ∨ s.length < headerSize ∨ sector < headerSize then
          .error (.err .badHeaderSize)
        else
          (rd32Call s 16).bind fun want =>
          (range s 0 16).bind fun vorn =>
          (range s 20 headerSize).bind fun hinten =>
          if (crcFinish (crcUpdate (crcUpdate (crcUpdate crcNeu vorn) [0, 0, 0, 0])
              hinten)).toNat ≠ want then .error (.err .headerCrc)
          else
            (rd32Call s 84).bind fun entrySize =>
            if entrySize < minEntrySize ∨ entrySize % 8 ≠ 0 then .error (.err .badEntrySize)
            else
              (rd32Call s 80).bind fun numEntries =>
              (quiet (okOr .badEntryCount (Word.checkedMul numEntries entrySize))).bind fun t =>
              if t = 0 ∨ 1024 * 1024 < t then .error (.err .badEntryCount)
              else
                (rd64Call s 24).bind fun myLba =>
                (rd64Call s 32).bind fun alternateLba =>
                (rd64Call s 40).bind fun firstUsableLba =>
                (rd64Call s 48).bind fun lastUsableLba =>
                (rd64Call s 72).bind fun entryLba =>
                (rd32Call s 88).bind fun entriesCrc =>
                .ok ⟨myLba, alternateLba, firstUsableLba, lastUsableLba, entryLba, numEntries,
                  entrySize, entriesCrc⟩

section Reads

variable {α : Type*} {b : List UInt8} {off : Nat} {f : Nat → Call PartError α}

theorem rd32Call_bind (h : off + 4 ≤ b.length) : (rd32Call b off).bind f = f (rd32 b off) := by
  rw [rd32Call, reads_eq h]
  rfl

theorem rd64Call_bind (h : off + 8 ≤ b.length) : (rd64Call b off).bind f = f (rd64 b off) := by
  rw [rd64Call, reads_eq h]
  rfl

end Reads

theorem parseHeaderCall_eq (s : List UInt8) : parseHeaderCall s = quiet (parseHeader s) := by
  rw [parseHeaderCall, parseHeader]
  apply ite_quiet
  intro hshort
  have hlen : 92 ≤ s.length := Nat.le_of_not_lt hshort
  rw [range_bind (by decide) (by omega)]
  apply ite_quiet
  intro _
  rw [rd32Call_bind (by omega)]
  apply ite_quiet
  intro _
  rw [rd32Call_bind (by omega)]
  apply ite_quiet
  intro hsize
  have hmin : 92 ≤ rd32 s 12 := Nat.le_of_not_lt fun hlt => hsize (.inl hlt)
  have hmax : rd32 s 12 ≤ s.length := Nat.le_of_not_lt fun hlt => hsize (.inr (.inl hlt))
  rw [rd32Call_bind (by omega), range_bind (by decide) (by omega),
    range_bind (by omega) hmax, kopfCrc, List.drop_take]
  apply ite_quiet
  intro _
  rw [rd32Call_bind (by omega)]
  apply ite_quiet
  intro _
  rw [rd32Call_bind (by omega)]
  apply bind_quiet
  intro t _
  apply ite_quiet
  intro _
  rw [rd64Call_bind (by omega), rd64Call_bind (by omega), rd64Call_bind (by omega),
    rd64Call_bind (by omega), rd64Call_bind (by omega), rd32Call_bind (by omega)]
  rfl

/-- However the entries are cut, the checksum is that of the whole list; no burst of 32 bits in a
list that verifies is missed, however the damaged list is cut; and the header of every sector is
answered. -/
theorem gpt_integrity (h : GptHeader) (stuecke : List (List UInt8)) :
    stuecke.foldl crcUpdate crcNeu = crcUpdate crcNeu stuecke.flatten ∧
      verifyEntries h (stuecke.foldl crcUpdate crcNeu) =
        verifyEntries h (crcUpdate crcNeu stuecke.flatten) ∧
      (∀ e s, verifyEntries h (crcUpdate crcNeu e) = .ok () →
        stuecke.flatten.length = e.length → stuecke.flatten ≠ e →
        (∀ k, k < s ∨ s + 32 ≤ k → bit stuecke.flatten k = bit e k) →
        verifyEntries h (stuecke.foldl crcUpdate crcNeu) = .error .entriesCrc) ∧
      ∀ s, parseHeaderCall s = quiet (parseHeader s) := by
  rw [crcUpdate_flatten]
  refine ⟨rfl, rfl, ?_, parseHeaderCall_eq⟩
  intro e s hok hlen hne hw
  exact verifyEntries_window hok hlen hne hw

/-- Eight zero bytes verify; with the first and the last bit of a burst set, and cut within the
burst, they are refused. -/
theorem gpt_integrity_burst :
    let h : GptHeader := ⟨1, 1, 34, 34, 2, 1, 8, 0x6522DF69⟩
    verifyEntries h (crcUpdate crcNeu [0, 0, 0, 0, 0, 0, 0, 0]) = .ok () ∧
      verifyEntries h ([[0, 0, 1], [0, 0, 128, 0, 0]].foldl crcUpdate crcNeu) =
        .error .entriesCrc := by
  intro h
  have hok : verifyEntries h (crcUpdate crcNeu [0, 0, 0, 0, 0, 0, 0, 0]) = .ok () := by
    decide +kernel
  refine ⟨hok, (gpt_integrity h [[0, 0, 1], [0, 0, 128, 0, 0]]).2.2.1 _ 16 hok rfl (by decide) ?_⟩
  intro k hk
  by_cases hlt : k < 64
  · have hall : ∀ k < 64, k < 16 ∨ 16 + 32 ≤ k →
        bit [0, 0, 1, 0, 0, 128, 0, 0] k = bit [0, 0, 0, 0, 0, 0, 0, 0] k := by decide
    exact hall k hlt hk
  · unfold bit
    rw [List.getD_eq_default _ _ (by simp; omega), List.getD_eq_default _ _ (by simp; omega)]

end Caprock.Part
