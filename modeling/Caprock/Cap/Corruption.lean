import Caprock.Cap.Canonical
import Caprock.Lib.Crc32

/-! # Damaged checkpoints

`decode` returns for every byte string, and it accepts none that differs from a written image
in at most 32 consecutive bits.  The two lengths of a header stand too far apart for both to be
hit, so the checksum is looked for where it was written; there the burst is not missed.

Bits are counted lowest first, the order in which `crc32` takes them.
-/

namespace Caprock.Cap.Checkpoint

open Bytes

def polynom : BitVec 32 := 0xEDB88320

def maske : BitVec 32 := 0xFFFFFFFF

theorem crcBit_toBitVec (s : UInt32) : (crcBit s).toBitVec = Crc.shift polynom s.toBitVec :=
  Crc.shift_mask polynom s.toBitVec

theorem repeat_crcBit (n : Nat) (s : UInt32) :
    (Nat.repeat crcBit n s).toBitVec = (Crc.shift polynom)^[n] s.toBitVec := by
  induction n with
  | zero => rfl
  | succ n ih => rw [Nat.repeat, crcBit_toBitVec, ih, Function.iterate_succ_apply']

theorem crc32_toBitVec (c : List UInt8) :
    (crc32 c).toBitVec = Crc.feed polynom maske (bits c) ^^^ maske := by
  have hlauf := Crc.foldl_bytes (p := polynom)
    (f := fun crc b => Nat.repeat crcBit 8 (crc ^^^ b.toUInt32))
    (fun s x => repeat_crcBit 8 _) c 0xFFFFFFFF
  have hnicht : ∀ v : BitVec 32, ~~~ v = v ^^^ maske := fun v => by
    exact BitVec.xor_allOnes.symm
  rw [crc32, UInt32.toBitVec_not, hlauf, hnicht]
  rfl

theorem crc32_valid (c : List UInt8) :
    Crc.Valid polynom maske maske (bits c) (bits (le32Bytes (crc32 c))) := by
  refine ⟨by simp, ?_⟩
  have hv : leNat (le32Bytes (crc32 c)) = (crc32 c).toNat := leNat_leBytes (crc32 c).toNat_lt
  rw [Crc.word_bits, hv, ← crc32_toBitVec]
  simp

namespace Image

theorem capsLesen_isSome (b : List UInt8) (n i o : Nat)
    (caps : Vector (Option ExternKind) maxCaps) (h : o + n * capBytes ≤ b.length) :
    ∃ r, capsLesen b n i o caps = some r := by
  induction n generalizing i o caps with
  | zero => exact ⟨_, rfl⟩
  | succ n ih =>
    have h16 : o + 16 + n * capBytes ≤ b.length := by
      rw [Nat.succ_mul, capBytes] at h
      rw [capBytes]
      omega
    obtain ⟨tag, htag⟩ := exists_le32 b o (by omega)
    obtain ⟨v, hv⟩ := exists_le64 b (o + 8) (by omega)
    rw [capsLesen, htag, hv]
    simp only [Option.bind_eq_bind, Option.bind_some]
    cases kindOf tag v with
    | error e => exact ⟨_, rfl⟩
    | ok kind => exact ih _ _ _ h16

/-- A refusal is an answer; it is left to answer when the check passes. -/
theorem ite_isSome {c : Prop} [Decidable c] {α : Type} {r : α} {x : Option α}
    (h : ¬ c → ∃ r, x = some r) : ∃ r', (if c then some r else x) = some r' := by
  by_cases hc : c
  · exact ⟨r, if_pos hc⟩
  · rw [if_neg hc]
    exact h hc

theorem decode_isSome (b : List UInt8) (kernelHash : Vector UInt8 32) :
    ∃ r, decode b kernelHash = some r := by
  unfold decode
  simp only [Option.bind_eq_bind, Option.pure_def]
  refine ite_isSome fun hkurz => ?_
  have h16 : 16 ≤ b.length := not_lt.mp hkurz
  obtain ⟨m, hm⟩ := exists_slice b offMagic 8 (by rw [offMagic]; omega)
  rw [hm, Option.bind_some]
  refine ite_isSome fun _ => ?_
  obtain ⟨v, hv⟩ := exists_le32 b offVersion (by rw [offVersion]; omega)
  rw [hv, Option.bind_some]
  refine ite_isSome fun _ => ?_
  obtain ⟨body, hbody⟩ := exists_le32 b offBodyLen (by rw [offBodyLen]; omega)
  rw [hbody, Option.bind_some]
  refine ite_isSome fun hgrenze => ite_isSome fun hlang => ?_
  have hfest : 64 ≤ body.toNat := by
    have h64 : ¬ body.toNat < 64 := fun hlt => hgrenze (.inl hlt)
    omega
  have htotal : 16 + body.toNat + 4 ≤ b.length := not_lt.mp hlang
  obtain ⟨count, hcount⟩ := exists_le32 b (offBody + bCapcount)
    (by rw [offBody, bCapcount]; omega)
  rw [hcount, Option.bind_some]
  refine ite_isSome fun _ => ite_isSome fun hsumme => ?_
  rw [not_not] at hsumme
  obtain ⟨stored, hstored⟩ := exists_le32 b (offBody + body.toNat) htotal
  obtain ⟨c, hc⟩ := exists_slice b 0 (offBody + body.toNat)
    (by rw [offBody]; omega)
  rw [hstored, Option.bind_some, hc, Option.bind_some]
  refine ite_isSome fun _ => ?_
  obtain ⟨hash, hhash⟩ := exists_slice b offBody 32 (by rw [offBody]; omega)
  rw [hhash, Option.bind_some]
  refine ite_isSome fun _ => ?_
  obtain ⟨progress, hprogress⟩ := exists_le64 b (offBody + bProgress)
    (by rw [offBody, bProgress]; omega)
  obtain ⟨nonce, hnonce⟩ := exists_le64 b (offBody + bNonce)
    (by rw [offBody, bNonce]; omega)
  obtain ⟨epoch, hepoch⟩ := exists_le64 b (offBody + bEpoch)
    (by rw [offBody, bEpoch]; omega)
  obtain ⟨bits, hbits⟩ := exists_le32 b (offBody + bPrecond)
    (by rw [offBody, bPrecond]; omega)
  obtain ⟨r, hr⟩ := capsLesen_isSome b count.toNat 0 (offBody + bodyFixed)
    (Vector.replicate maxCaps none) (by rw [Nat.add_assoc, hsumme, offBody]; omega)
  rw [hprogress, Option.bind_some, hnonce, Option.bind_some, hepoch, Option.bind_some, hbits,
    Option.bind_some, hr, Option.bind_some]
  cases r with
  | error e | ok caps => exact ⟨_, rfl⟩

/-- `b'` is `b` with a damage inside 32 consecutive bits. -/
structure Buendelfehler (b b' : List UInt8) : Prop where
  length : b'.length = b.length
  ne : b' ≠ b
  fenster : ∃ s, ∀ k, k < s ∨ s + 32 ≤ k → bit b' k = bit b k

theorem buendelfehler_set {b : List UInt8} {i : Nat} {x : UInt8} (hi : i < b.length)
    (hx : b[i]? ≠ some x) : Buendelfehler b (b.set i x) := by
  refine ⟨List.length_set, fun heq => hx ?_, 8 * i, fun k hk => ?_⟩
  · rw [← heq, List.getElem?_set_self hi]
  · have hne : i ≠ k / 8 := by omega
    simp [bit, List.getElem?_set_ne hne]

/-- All places up to `capCount` are filled: what `encode` asserts. -/
def Vollstaendig (img : Image) : Prop :=
  ((img.caps.toList.take img.capCount).filterMap id).length = img.capCount

instance (img : Image) : Decidable img.Vollstaendig := inferInstanceAs (Decidable (_ = _))

theorem Buendelfehler.le32_eq {b b' : List UInt8} (h : Buendelfehler b b') {s : Nat}
    (hs : ∀ k, k < s ∨ s + 32 ≤ k → bit b' k = bit b k) (rest : List UInt8) (off : Nat)
    (hoff : off + 4 ≤ b.length) (hout : 8 * (off + 4) ≤ s ∨ s + 32 ≤ 8 * off) :
    le32 (b' ++ rest) off = le32 b off := by
  have hlen : off + 4 ≤ b'.length := h.length ▸ hoff
  rw [le32, le32, slice_congr b _ hoff]
  · intro k hk hk'
    rw [bit_append_left rest (by omega)]
    exact hs k (by omega)
  · rw [List.length_append]
    omega

/-- The two lengths of the header are not both inside one burst, so the number of
capabilities that is read is the one written. -/
theorem Buendelfehler.length_eq {img img' : Image} {l l' : List ExternKind} {b' rest : List UInt8}
    (h : Buendelfehler (img.bytes l) b') (hl : l.length ≤ maxCaps) (hl' : l'.length ≤ maxCaps)
    (hb' : img'.Gelesen l' (b' ++ rest)) : l'.length = l.length := by
  have hb := lesbar_bytes img l []
  rw [List.append_nil] at hb
  have hlen : 84 ≤ (img.bytes l).length := by
    rw [bytes_length, imageBytes, offBody, bodyFixed]
    omega
  have h16 : l.length ≤ 16 := hl
  have h16' : l'.length ≤ 16 := hl'
  have hklein : ∀ a c : Nat, a ≤ 320 → c ≤ 320 → UInt32.ofNat a = UInt32.ofNat c → a = c := by
    intro a c ha hc heq
    have hnat := congrArg UInt32.toNat heq
    rwa [UInt32.toNat_ofNat_of_lt' (by simp only [UInt32.size]; omega),
      UInt32.toNat_ofNat_of_lt' (by simp only [UInt32.size]; omega)] at hnat
  obtain ⟨s, hs⟩ := h.fenster
  by_cases hvorn : s < 128
  · have hfeld := h.le32_eq hs rest (offBody + bCapcount) (by rw [offBody, bCapcount]; omega)
      (by rw [offBody, bCapcount]; omega)
    rw [hb'.capCount, hb.capCount, Option.some.injEq] at hfeld
    exact hklein _ _ (by omega) (by omega) hfeld
  · have hfeld := h.le32_eq hs rest offBodyLen (by rw [offBodyLen]; omega)
      (by rw [offBodyLen]; omega)
    rw [hb'.bodyLen, hb.bodyLen, Option.some.injEq, bodyFixed, capBytes] at hfeld
    have hnat := hklein _ _ (by omega) (by omega) hfeld
    omega

theorem Buendelfehler.not_decode {img : Image} {l : List ExternKind} {b' : List UInt8}
    (h : Buendelfehler (img.bytes l) b') (hl : l.length ≤ maxCaps) (rest : List UInt8)
    (kernelHash : Vector UInt8 32) (img' : Image) :
    decode (b' ++ rest) kernelHash ≠ some (.ok img') := by
  intro hdec
  obtain ⟨-, l', hl', hb'⟩ := decode_gelesen hdec
  have hn := h.length_eq hl hl'.le hb'
  obtain ⟨c, hc, hcrc⟩ := hb'.crc
  rw [hn, ← Nat.add_assoc] at hc hcrc
  have hganz : b' = c ++ le32Bytes (crc32 c) := by
    have hslice : slice (b' ++ rest) 0 (imageBytes l.length) = some (c ++ le32Bytes (crc32 c)) := by
      rw [imageBytes, slice_split (slice_length hc) (le32Bytes_length _), Nat.zero_add]
      exact ⟨hc, le32_eq_some.mp hcrc⟩
    have htake := slice_zero_eq_take hslice
    rwa [← bytes_length img l, ← h.length, List.take_left] at htake
  have hlen : (bits c).length = (bits (img.inhalt l)).length := by
    rw [bits_length, bits_length, slice_length hc, inhalt_length]
  obtain ⟨s, hs⟩ := h.fenster
  apply h.ne
  apply bits_injective
  rw [hganz, Image.bytes, bits_append, bits_append]
  refine Crc.Valid.eq_of_window (s := s) rfl (crc32_valid c) (crc32_valid _) hlen fun k hk => ?_
  rw [← bits_append, ← bits_append, ← hganz, ← Image.bytes, bits_getElem?, bits_getElem?, h.length,
    hs k hk]

/-- `decode` returns for every byte string.  For every image whose places are filled, every
buffer that `encode` wrote it to, and every damage within 32 consecutive bits of what was
written, it returns no image, whatever follows the damaged bytes. -/
theorem corruption_detected :
    (∀ b kernelHash, ∃ r, decode b kernelHash = some r) ∧
      ∀ img : Image, img.Vollstaendig → ∀ out n out', img.encode out = some (.ok n, out') →
        ∀ b', Buendelfehler (out'.take n) b' → ∀ rest kernelHash img',
          decode (b' ++ rest) kernelHash ≠ some (.ok img') := by
  refine ⟨decode_isSome, fun img hvoll out n out' henc b' h rest kernelHash img' => ?_⟩
  have hlen : img.encodedLen ≤ out.length := by
    by_contra hlt
    rw [encode, if_pos (not_le.mp hlt)] at henc
    cases henc
  rw [encode_eq_of_caps rfl hvoll.symm hlen] at henc
  cases henc
  have hmax : ((img.caps.toList.take img.capCount).filterMap id).length ≤ maxCaps := by
    have hle := List.length_filterMap_le id (img.caps.toList.take img.capCount)
    have htake := List.length_take_le' img.capCount img.caps.toList
    rw [Vector.length_toList] at htake
    exact hle.trans htake
  have htotal : img.encodedLen =
      (img.bytes ((img.caps.toList.take img.capCount).filterMap id)).length := by
    rw [bytes_length, hvoll, encodedLen]
  rw [htotal, List.take_left] at h
  exact h.not_decode hmax rest kernelHash img'

/-- One byte of the expected hash. -/
theorem corruption_detected_byte : ∃ w, einEndpunkt.encode (List.replicate 100 0) = some (.ok 100, w) ∧
    ∀ img', decode (w.set 20 1) (Vector.replicate 32 0) ≠ some (.ok img') := by
  have hl : einEndpunkt.Traegt [.endpoint 0] := ⟨by decide, rfl, by rfl⟩
  have henc : einEndpunkt.encode (List.replicate 100 0) =
      some (.ok 100, einEndpunkt.bytes [.endpoint 0]) := by
    rw [encode_eq hl (by decide)]
    have hlen : einEndpunkt.encodedLen = 100 := rfl
    simp [hlen]
  have hlen : (einEndpunkt.bytes [.endpoint 0]).length = 100 := bytes_length _ _
  have hfehler : Buendelfehler ((einEndpunkt.bytes [.endpoint 0]).take 100)
      ((einEndpunkt.bytes [.endpoint 0]).set 20 1) := by
    rw [List.take_of_length_le (Nat.le_of_eq hlen)]
    exact buendelfehler_set (by omega) (by decide)
  refine ⟨_, henc, fun img' => ?_⟩
  have hnie := corruption_detected.2 einEndpunkt (by decide) _ _ _ henc _ hfehler []
    (Vector.replicate 32 0) img'
  rwa [List.append_nil] at hnie

end Image

end Caprock.Cap.Checkpoint
