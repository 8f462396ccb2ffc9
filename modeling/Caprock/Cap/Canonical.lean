import Caprock.Cap.Checkpoint

/-! # What a checkpoint's reader does not look at

`decode` never reads the four bytes of padding behind a tag, and of the value of an endpoint,
a notification or a thread only the lower half.  So it may accept two byte strings as one
image.  What it does read determines the image, and with the unread bytes zero the accepted
bytes are those that `encode` writes.
-/

namespace Caprock.Cap.Checkpoint

open Bytes

theorem exists_le32 (b : List UInt8) (off : Nat) (h : off + 4 ≤ b.length) :
    ∃ v, le32 b off = some v := exists_map_slice _ b off 4 h

theorem exists_le64 (b : List UInt8) (off : Nat) (h : off + 8 ≤ b.length) :
    ∃ v, le64 b off = some v := exists_map_slice _ b off 8 h

def indexTag (tag : UInt32) : Prop := tag = 2 ∨ tag = 3 ∨ tag = 4

def Schmal (tag : UInt32) (v : UInt64) : Prop := indexTag tag → v.toNat < 2 ^ 32

theorem budget_or_period_halves (v : UInt64) :
    v.toUInt32.toUInt64 ||| ((v >>> 32).toUInt32.toUInt64 <<< 32) = v := by
  have hv := v.toNat_lt
  have h32 : (32 : UInt64).toNat % 64 = 32 := rfl
  apply UInt64.toNat_inj.mp
  rw [budget_or_period, UInt64.toNat_toUInt32, UInt64.toNat_toUInt32, UInt64.toNat_shiftRight, h32,
    Nat.shiftRight_eq_div_pow]
  omega

theorem toUInt64_eq_iff {v : UInt64} : v = v.toUInt32.toUInt64 ↔ v.toNat < 2 ^ 32 := by
  rw [← UInt64.toNat_inj, UInt32.toNat_toUInt64, UInt64.toNat_toUInt32]
  omega

theorem index_value {tag : UInt32} (htag : indexTag tag) (v : UInt64) :
    v.toUInt32 = v.toUInt32.toUInt64.toUInt32 ∧ (v = v.toUInt32.toUInt64 ↔ Schmal tag v) := by
  constructor
  · rw [UInt32.toUInt32_toUInt64]
  · rw [toUInt64_eq_iff]
    exact ⟨fun h _ => h, fun h => h htag⟩

/-- What an entry with a known meaning looks like: the tag and the lower half are fixed, and
the whole value is unless it is an index. -/
theorem kindOf_eq_ok {tag : UInt32} {v : UInt64} {k : ExternKind} (h : kindOf tag v = .ok k) :
    tag = (tagOf k).1 ∧ v.toUInt32 = (tagOf k).2.toUInt32 ∧
      (v = (tagOf k).2 ↔ Schmal tag v) := by
  rw [kindOf] at h
  by_cases h1 : tag = 1
  · rw [if_pos h1] at h
    cases h
    refine ⟨h1, rfl, ?_⟩
    simp [tagOf, Schmal, indexTag, h1]
  · rw [if_neg h1] at h
    by_cases h2 : tag = 2
    · rw [if_pos h2] at h
      cases h
      exact ⟨h2, index_value (Or.inl h2) v⟩
    · rw [if_neg h2] at h
      by_cases h3 : tag = 3
      · rw [if_pos h3] at h
        cases h
        exact ⟨h3, index_value (Or.inr (Or.inl h3)) v⟩
      · rw [if_neg h3] at h
        by_cases h4 : tag = 4
        · rw [if_pos h4] at h
          cases h
          exact ⟨h4, index_value (Or.inr (Or.inr h4)) v⟩
        · rw [if_neg h4] at h
          by_cases h5 : tag = 5
          · rw [if_pos h5] at h
            cases h
            have hv : v = (tagOf (.schedContext v.toUInt32 (v >>> 32).toUInt32)).2 :=
              (budget_or_period_halves v).symm
            refine ⟨h5, by rw [← hv], ?_⟩
            simp [← hv, Schmal, indexTag, h5]
          · rw [if_neg h5] at h
            cases h

namespace Image

def Eintraege (b : List UInt8) : Nat → List ExternKind → Prop
  | _, [] => True
  | o, k :: l =>
      (∃ tag v, le32 b o = some tag ∧ le64 b (o + 8) = some v ∧ kindOf tag v = .ok k) ∧
        Eintraege b (o + capBytes) l

/-- What `decode` reads of a byte string that it accepts. -/
structure Gelesen (img : Image) (l : List ExternKind) (b : List UInt8) : Prop where
  magic : slice b offMagic 8 = some magic
  version : le32 b offVersion = some formatVersion
  bodyLen : le32 b offBodyLen = some (UInt32.ofNat (bodyFixed + l.length * capBytes))
  hash : slice b offBody 32 = some img.kernelHash.toList
  progress : le64 b (offBody + bProgress) = some img.progress
  nonce : le64 b (offBody + bNonce) = some img.nonce
  epoch : le64 b (offBody + bEpoch) = some img.epoch
  capCount : le32 b (offBody + bCapcount) = some (UInt32.ofNat l.length)
  precond : le32 b (offBody + bPrecond) = some img.preconditionBits
  eintraege : Eintraege b (offBody + bodyFixed) l
  crc : ∃ c, slice b 0 (offBody + (bodyFixed + l.length * capBytes)) = some c ∧
    le32 b (offBody + (bodyFixed + l.length * capBytes)) = some (crc32 c)

theorem ite_error_eq_ok {c : Prop} [Decidable c] {e : ImageError} {α : Type}
    {x : Option (Except ImageError α)} {a : α} :
    (if c then some (.error e) else x) = some (.ok a) ↔ ¬ c ∧ x = some (.ok a) := by
  by_cases hc : c
  · simp [hc]
  · simp [hc]

variable {img : Image} {l : List ExternKind}

theorem capsLesen_eintraege {b : List UInt8} {n o : Nat} (l₀ : List ExternKind)
    {caps caps' : Vector (Option ExternKind) maxCaps} (hle : l₀.length + n ≤ maxCaps)
    (h : caps.toList = l₀.map some ++ List.replicate (maxCaps - l₀.length) none)
    (heq : capsLesen b n l₀.length o caps = some (.ok caps')) :
    ∃ l, l.length = n ∧ Eintraege b o l ∧
      caps'.toList = (l₀ ++ l).map some ++ List.replicate (maxCaps - (l₀ ++ l).length) none := by
  induction n generalizing l₀ o caps with
  | zero =>
    cases heq
    exact ⟨[], rfl, trivial, by simpa using h⟩
  | succ n ih =>
    rw [capsLesen] at heq
    simp only [Option.bind_eq_bind, Option.bind_eq_some_iff] at heq
    obtain ⟨tag, htag, v, hv, heq⟩ := heq
    cases hk : kindOf tag v with
    | error e =>
      rw [hk] at heq
      cases heq
    | ok k =>
      rw [hk] at heq
      have hset := setIfInBounds_toList (by omega) h k
      have hlen : (l₀ ++ [k]).length = l₀.length + 1 := by simp
      obtain ⟨l, hl, hein, hcaps'⟩ := ih (l₀ ++ [k]) (by omega) hset (hlen ▸ heq)
      refine ⟨k :: l, by simp [hl], ⟨⟨tag, v, htag, hv, hk⟩, hein⟩, ?_⟩
      simpa using hcaps'

theorem decode_gelesen {b : List UInt8} {h : Vector UInt8 32} (heq : decode b h = some (.ok img)) :
    img.kernelHash = h ∧ ∃ l, img.Traegt l ∧ img.Gelesen l b := by
  unfold decode at heq
  simp only [Option.bind_eq_bind, Option.pure_def, Option.bind_eq_some_iff, ite_error_eq_ok,
    not_not] at heq
  obtain ⟨-, m, hm, rfl, ver, hver, rfl, body, hbody, hgrenze, -, count, hcount, hmax, hlaengen,
    stored, hstored, c, hc, rfl, hash, hhash, rfl, progress, hprogress, nonce, hnonce, epoch,
    hepoch, bits, hbits, caps, hcaps, heq⟩ := heq
  cases caps with
  | error e => cases heq
  | ok caps =>
    cases heq
    obtain ⟨l, hl, hein, hliste⟩ := capsLesen_eintraege [] (by simpa using hmax)
      (by rfl) hcaps
    rw [List.nil_append] at hliste
    rw [← hl] at hlaengen
    rw [← hlaengen] at hc hstored
    refine ⟨rfl, l, ⟨by omega, hl.symm, hliste⟩, hm, hver, ?_, hhash, hprogress, hnonce, hepoch,
      ?_, hbits, hein, c, hc, hstored⟩
    · rw [hbody, hlaengen, UInt32.ofNat_toNat]
    · rw [hcount, hl, UInt32.ofNat_toNat]

theorem Eintraege.get {b : List UInt8} {o i : Nat} (h : Eintraege b o l) (hi : i < l.length) :
    ∃ tag v, le32 b (o + i * capBytes) = some tag ∧
      le64 b (o + i * capBytes + 8) = some v ∧ kindOf tag v = .ok l[i] := by
  induction l generalizing o i with
  | nil => cases hi
  | cons k l ih =>
    cases i with
    | zero => simpa using h.1
    | succ i =>
      have hrec := ih h.2 (Nat.lt_of_succ_lt_succ hi)
      rw [Nat.succ_mul, Nat.add_comm (i * capBytes), ← Nat.add_assoc]
      exact hrec

def Kanonisch (b : List UInt8) (n : Nat) : Prop :=
  ∀ i < n, slice b (offBody + bodyFixed + i * capBytes + 4) 4 = some (List.replicate 4 0) ∧
    ∀ tag v, le32 b (offBody + bodyFixed + i * capBytes) = some tag →
      le64 b (offBody + bodyFixed + i * capBytes + 8) = some v → Schmal tag v

def GleicherEintrag (b b' : List UInt8) (i : Nat) : Prop :=
  ∃ tag v v', le32 b (offBody + bodyFixed + i * capBytes) = some tag ∧
    le32 b' (offBody + bodyFixed + i * capBytes) = some tag ∧
    le64 b (offBody + bodyFixed + i * capBytes + 8) = some v ∧
    le64 b' (offBody + bodyFixed + i * capBytes + 8) = some v' ∧
    v.toUInt32 = v'.toUInt32 ∧ (¬ indexTag tag → v = v')

theorem Gelesen.gleicherEintrag {b b' : List UInt8} (h : img.Gelesen l b) (h' : img.Gelesen l b')
    {i : Nat} (hi : i < l.length) : GleicherEintrag b b' i := by
  obtain ⟨tag, v, htag, hv, hk⟩ := h.eintraege.get hi
  obtain ⟨tag', v', htag', hv', hk'⟩ := h'.eintraege.get hi
  obtain ⟨ht, hlow, hiff⟩ := kindOf_eq_ok hk
  obtain ⟨ht', hlow', hiff'⟩ := kindOf_eq_ok hk'
  refine ⟨tag, v, v', htag, by rw [htag', ht, ht'], hv, hv', by rw [hlow, hlow'], fun hne => ?_⟩
  have hne' : ¬ indexTag tag' := by rwa [ht', ← ht]
  rw [hiff.mpr fun hx => absurd hx hne, hiff'.mpr fun hx => absurd hx hne']

theorem slice_eintrag {b : List UInt8} {o : Nat} {tag : UInt32} {v : UInt64} {k : ExternKind}
    (htag : le32 b o = some tag) (hv : le64 b (o + 8) = some v) (hk : kindOf tag v = .ok k) :
    slice b o capBytes = some (capFeld k) ↔
      slice b (o + 4) 4 = some (List.replicate 4 0) ∧ Schmal tag v := by
  obtain ⟨ht, -, hiff⟩ := kindOf_eq_ok hk
  have hwert : slice b (o + 4 + 4) 8 = some (le64Bytes (tagOf k).2) ↔ v = (tagOf k).2 := by
    constructor
    · intro h
      have hread := le64_eq_some.mpr h
      rw [show o + 4 + 4 = o + 8 from rfl, hv] at hread
      exact Option.some.inj hread
    · rintro rfl
      exact le64_eq_some.mp hv
  have hsplit : slice b o (4 + (4 + 8)) = some (capFeld k) ↔ slice b o 4 = some (le32Bytes (tagOf k).1) ∧
      slice b (o + 4) 4 = some (List.replicate 4 0) ∧
      slice b (o + 4 + 4) 8 = some (le64Bytes (tagOf k).2) := by
    rw [capFeld, slice_split (by simp) (by simp), slice_split (by simp) (by simp)]
  rw [show capBytes = 4 + (4 + 8) from rfl, hsplit, hwert, hiff, ← ht]
  exact and_iff_right (le32_eq_some.mp htag)

theorem Eintraege.slice_iff {b : List UInt8} {o : Nat} (h : Eintraege b o l)
    (hlen : o + l.length * capBytes ≤ b.length) :
    slice b o (l.length * capBytes) = some (l.flatMap capFeld) ↔
      ∀ i < l.length, slice b (o + i * capBytes + 4) 4 = some (List.replicate 4 0) ∧
        ∀ tag v, le32 b (o + i * capBytes) = some tag →
          le64 b (o + i * capBytes + 8) = some v → Schmal tag v := by
  induction l generalizing o with
  | nil =>
    have hle : o + 0 ≤ b.length := by simpa using hlen
    simp [slice]
    omega
  | cons k l ih =>
    obtain ⟨⟨tag, v, htag, hv, hk⟩, hrest⟩ := h
    have hle : o + capBytes + l.length * capBytes ≤ b.length := by
      rw [List.length_cons, Nat.succ_mul] at hlen
      omega
    have hfl : (l.flatMap capFeld).length = l.length * capBytes := by simp [capBytes]
    have hone : (slice b (o + 4) 4 = some (List.replicate 4 0) ∧ Schmal tag v) ↔
        (slice b (o + 0 * capBytes + 4) 4 = some (List.replicate 4 0) ∧
          ∀ tag v, le32 b (o + 0 * capBytes) = some tag →
            le64 b (o + 0 * capBytes + 8) = some v → Schmal tag v) := by
      simp [htag, hv]
    have hshift : ∀ i, o + capBytes + i * capBytes = o + (i + 1) * capBytes := fun i => by
      rw [Nat.succ_mul]
      omega
    rw [List.length_cons, Nat.succ_mul, Nat.add_comm (l.length * capBytes), List.flatMap_cons,
      slice_split (m := capBytes) (capFeld_length k) hfl, slice_eintrag htag hv hk, ih hrest hle, hone]
    simp only [hshift]
    constructor
    · rintro ⟨hnull, hsucc⟩ i hi
      cases i with
      | zero => exact hnull
      | succ i => exact hsucc i (Nat.lt_of_succ_lt_succ hi)
    · intro hall
      exact ⟨hall 0 (Nat.succ_pos _), fun i hi => hall (i + 1) (Nat.succ_lt_succ hi)⟩

theorem Gelesen.slice_festteil {b : List UInt8} (h : img.Gelesen l b) :
    slice b 0 (offBody + bodyFixed) = some (img.festteil l.length) := by
  have hparts : slice b 0 (8 + (4 + (4 + (32 + (8 + (8 + (8 + (4 + 4)))))))) =
      some (img.festteil l.length) := by
    rw [festteil, slice_split (by rfl) (by simp), slice_split (by simp) (by simp),
      slice_split (by simp) (by simp), slice_split (by simp) (by simp),
      slice_split (by simp) (by simp), slice_split (by simp) (by simp),
      slice_split (by simp) (by simp), slice_split (by simp) (by simp)]
    exact ⟨h.magic, le32_eq_some.mp h.version, le32_eq_some.mp h.bodyLen, h.hash,
      le64_eq_some.mp h.progress, le64_eq_some.mp h.nonce, le64_eq_some.mp h.epoch,
      le32_eq_some.mp h.capCount, le32_eq_some.mp h.precond⟩
  exact hparts

theorem Gelesen.imageBytes_le {b : List UInt8} (h : img.Gelesen l b) :
    imageBytes l.length ≤ b.length := by
  obtain ⟨c, -, hcrc⟩ := h.crc
  have hle := slice_le (le32_eq_some.mp hcrc)
  rw [imageBytes]
  omega

theorem Gelesen.take_iff {b : List UInt8} (h : img.Gelesen l b) :
    b.take (imageBytes l.length) = img.bytes l ↔ Kanonisch b l.length := by
  have hle := h.imageBytes_le
  have hlen : offBody + bodyFixed + l.length * capBytes ≤ b.length := by
    rw [imageBytes] at hle
    omega
  have hfl : (l.flatMap capFeld).length = l.length * capBytes := by simp [capBytes]
  have hinhalt : slice b 0 (offBody + bodyFixed + l.length * capBytes) = some (img.inhalt l) ↔
      Kanonisch b l.length := by
    rw [Image.inhalt, slice_split (festteil_length img _) hfl, Nat.zero_add, h.eintraege.slice_iff hlen]
    exact and_iff_right h.slice_festteil
  obtain ⟨c, hc, hcrc⟩ := h.crc
  rw [← Nat.add_assoc] at hc hcrc
  have hganz : slice b 0 (imageBytes l.length) = some (img.bytes l) ↔ Kanonisch b l.length := by
    rw [imageBytes, Image.bytes, slice_split (inhalt_length img l) (le32Bytes_length _), hinhalt,
      Nat.zero_add]
    refine and_iff_left_of_imp fun hkan => ?_
    obtain rfl : c = img.inhalt l := by
      rw [hinhalt.mpr hkan] at hc
      exact (Option.some.inj hc).symm
    exact le32_eq_some.mp hcrc
  rw [← hganz]
  constructor
  · intro htake
    rw [slice, if_pos (by omega), List.drop_zero, htake]
  · exact slice_zero_eq_take

theorem Traegt.unique {l' : List ExternKind} (h : img.Traegt l) (h' : img.Traegt l') : l = l' := by
  have hlen : l.length = l'.length := by rw [← h.count, h'.count]
  have hcaps := h.caps
  rw [h'.caps, hlen] at hcaps
  have hmap := List.append_cancel_right hcaps
  exact (List.map_injective_iff.mpr (Option.some_injective _) hmap).symm

/-- For every byte string and hash for which `decode` returns an image, and every buffer that
is long enough: `encode` writes bytes that `decode` accepts as the same image; they agree with
those accepted in the header, the fixed part, and each entry's tag and value, an index in the
lower half; and they are the accepted bytes exactly if the rest of each entry was zero. -/
theorem decode_encode_canonical (b : List UInt8) (kernelHash : Vector UInt8 32) (img : Image)
    (h : decode b kernelHash = some (.ok img)) (out : List UInt8)
    (hout : img.encodedLen ≤ out.length) :
    ∃ written, written.length = img.encodedLen ∧
      img.encode out = some (.ok img.encodedLen, written ++ out.drop img.encodedLen) ∧
      decode written kernelHash = some (.ok img) ∧ img.encodedLen ≤ b.length ∧
      slice written 0 (offBody + bodyFixed) = slice b 0 (offBody + bodyFixed) ∧
      (∀ i < img.capCount, GleicherEintrag written b i) ∧
      (b.take img.encodedLen = written ↔ Kanonisch b img.capCount) ∧
      ∀ b', decode b' kernelHash = some (.ok img) → Kanonisch b img.capCount →
        Kanonisch b' img.capCount → b'.take img.encodedLen = b.take img.encodedLen := by
  obtain ⟨hhash, l, hl, hb⟩ := decode_gelesen h
  have hlen : img.encodedLen = imageBytes l.length := by rw [encodedLen, hl.count]
  have hdec : decode (img.bytes l) kernelHash = some (.ok img) := by
    have hrest := decode_bytes hl []
    rwa [List.append_nil, hhash] at hrest
  obtain ⟨-, l₁, hl₁, hw⟩ := decode_gelesen hdec
  obtain rfl := hl.unique hl₁
  refine ⟨img.bytes l, by rw [bytes_length, hlen], encode_eq hl hout, hdec, ?_, ?_, ?_, ?_, ?_⟩
  · rw [hlen]
    exact hb.imageBytes_le
  · rw [hw.slice_festteil, hb.slice_festteil]
  · rw [hl.count]
    exact fun i hi => hw.gleicherEintrag hb hi
  · rw [hlen, hl.count]
    exact hb.take_iff
  · intro b' h' hkan hkan'
    obtain ⟨-, l₂, hl₂, hb'⟩ := decode_gelesen h'
    obtain rfl := hl.unique hl₂
    rw [hl.count] at hkan hkan'
    rw [hlen, hb'.take_iff.mpr hkan', hb.take_iff.mpr hkan]

def einEndpunkt : Image :=
  ⟨Vector.replicate 32 0, 0, 0, 0, (Vector.replicate maxCaps none).set 0 (some (.endpoint 0)), 1, 0⟩

def gefuellt : List UInt8 :=
  let inhalt := einEndpunkt.festteil 1 ++ [2, 0, 0, 0, 1, 0, 0, 0, 0, 0, 0, 0, 1, 0, 0, 0]
  inhalt ++ le32Bytes (crc32 inhalt)

theorem decode_gefuellt : decode gefuellt (Vector.replicate 32 0) = some (.ok einEndpunkt) := by
  decide +kernel

/-- Read and written into a sector. -/
theorem decode_encode_canonical_endpoint :
    ∃ written, einEndpunkt.encode (List.replicate 512 0) =
        some (.ok 100, written ++ (List.replicate 512 0).drop 100) ∧
      slice written 0 80 = slice gefuellt 0 80 ∧ GleicherEintrag written gefuellt 0 := by
  have hout : einEndpunkt.encodedLen ≤ (List.replicate 512 (0 : UInt8)).length := by
    rw [List.length_replicate]
    decide
  obtain ⟨written, -, henc, -, -, hfest, hein, -⟩ := decode_encode_canonical gefuellt (Vector.replicate 32 0)
    einEndpunkt decode_gefuellt (List.replicate 512 0) hout
  exact ⟨written, henc, hfest, hein 0 (by decide)⟩

/-- `decode` accepts these 100 bytes; what it returns is written with zeros in both places. -/
theorem decode_ignores_padding : ∃ b kernelHash img out, decode b kernelHash = some (.ok img) ∧
    img.encodedLen ≤ out.length ∧ ∃ written, written.length = img.encodedLen ∧
      img.encode out = some (.ok img.encodedLen, written) ∧
      decode written kernelHash = some (.ok img) ∧ written ≠ b.take img.encodedLen := by
  have hl : einEndpunkt.Traegt [.endpoint 0] := ⟨by decide, rfl, by rfl⟩
  have handers : einEndpunkt.bytes [.endpoint 0] ≠ gefuellt.take 100 := by decide
  have hdec := decode_bytes hl []
  rw [List.append_nil] at hdec
  refine ⟨gefuellt, Vector.replicate 32 0, einEndpunkt, List.replicate 100 0, decode_gefuellt,
    by decide, einEndpunkt.bytes [.endpoint 0], ?_, ?_, hdec, handers⟩
  · rw [bytes_length]
    rfl
  · rw [encode_eq hl (by decide)]
    have hlen : einEndpunkt.encodedLen = 100 := rfl
    simp [hlen]

end Image

end Caprock.Cap.Checkpoint
