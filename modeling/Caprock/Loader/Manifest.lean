import Caprock.Lib.Bytes

/-! # The system manifest as the kernel reads it

`parse` takes a document apart into header, signed message and signature; entries are reached
only through `Verified`, behind the check of the signature.  Offsets are fixed, the width of an
entry follows the format version.

A read outside a buffer is a panic and gives `none` on the outside.
-/

namespace Caprock.Loader

open Bytes

namespace Manifest

def manifestMagic : Nat := 0x534C4B4D
def manifestFormatVersion : Nat := 3
def manifestFormatVersionV2 : Nat := 2
def manifestFormatVersionV1 : Nat := 1
def headerLen : Nat := 80
def entryLenV1 : Nat := 96
def entryLenV2 : Nat := 100
def entryLenV3 : Nat := 116
def entryKeyIdOff : Nat := 100
def maxEntries : Nat := 64
def any16 : Nat := 0xFFFF
def any32 : Nat := 0xFFFFFFFF

inductive LoaderError where
  | badManifest
  | unsupportedManifestFormat (formatVersion entryLen : Nat)
  | unverified
  deriving DecidableEq, Repr

def rdU16 (d : List UInt8) (off : Nat) : Option Nat := (slice d off 2).map leNat

def rdU32 (d : List UInt8) (off : Nat) : Option Nat := (slice d off 4).map leNat

structure DeviceSelector where
  vendor : Nat
  device : Nat
  cls : Nat
  deriving DecidableEq, Repr

def DeviceSelector.any : DeviceSelector := ⟨any16, any16, any32⟩

def DeviceSelector.matches (s : DeviceSelector) (vendor device cls : Nat) : Bool :=
  (s.vendor == any16 || s.vendor == vendor) && (s.device == any16 || s.device == device) &&
    (s.cls == any32 || s.cls == cls)

structure Entry where
  name : List UInt8
  programId : Nat
  domain : Nat
  ifaceVersion : Nat
  initialCaps : Nat
  sha256 : List UInt8
  policyFlags : Nat
  numaNode : Nat
  coreAffinity : Nat
  priority : Nat
  budgetUs : Nat
  periodUs : Nat
  device : DeviceSelector
  serviceId : Nat
  keyId : List UInt8
  deriving DecidableEq, Repr

structure SystemManifest where
  formatVersion : Nat
  signatureAlgorithmId : Nat
  flags : Nat
  manifestVersion : Nat
  entryCount : Nat
  entryLen : Nat
  kernelHash : List UInt8
  keyId : List UInt8
  entries : List UInt8
  message : List UInt8
  signature : List UInt8
  deriving DecidableEq, Repr

def entryLenOk (formatVersion entryLen : Nat) : Bool :=
  formatVersion == manifestFormatVersionV1 && entryLen == entryLenV1 ||
    formatVersion == manifestFormatVersionV2 && entryLen == entryLenV2 ||
    formatVersion == manifestFormatVersion && entryLen == entryLenV3

def parse (data : List UInt8) : Option (Except LoaderError SystemManifest) := do
  if data.length < headerLen then return .error .badManifest
  if (← rdU32 data 0) ≠ manifestMagic then return .error .badManifest
  let formatVersion ← rdU16 data 4
  let entryLen ← rdU32 data 20
  if entryLenOk formatVersion entryLen = false then
    return .error (.unsupportedManifestFormat formatVersion entryLen)
  let entryCount ← rdU32 data 16
  if maxEntries < entryCount then return .error .badManifest
  let msgLen := headerLen + entryCount * entryLen
  if data.length ≤ msgLen then return .error .badManifest
  let kernelHash ← slice data 24 32
  let keyId ← slice data 56 16
  let signatureAlgorithmId ← rdU16 data 6
  let flags ← rdU32 data 8
  let manifestVersion ← rdU32 data 12
  let entries ← slice data headerLen (entryCount * entryLen)
  let message ← slice data 0 msgLen
  return .ok {
    formatVersion := formatVersion
    signatureAlgorithmId := signatureAlgorithmId
    flags := flags
    manifestVersion := manifestVersion
    entryCount := entryCount
    entryLen := entryLen
    kernelHash := kernelHash
    keyId := keyId
    entries := entries
    message := message
    signature := data.drop msgLen }

structure Verified where
  manifest : SystemManifest

def SystemManifest.verifyWith (m : SystemManifest) (check : List UInt8 → List UInt8 → Bool) :
    Except LoaderError Verified :=
  if check m.message m.signature then .ok ⟨m⟩ else .error .unverified

/-- The selector of an entry; three zeros are a field that was never set. -/
def selektor (v d c : Nat) : DeviceSelector :=
  if v = 0 ∧ d = 0 ∧ c = 0 then DeviceSelector.any else ⟨v, d, c⟩

def keyIdLesen (w : Nat) (e : List UInt8) : Option (List UInt8) :=
  if entryLenV3 ≤ w then slice e entryKeyIdOff 16 else some (List.replicate 16 0)

def periodUsLesen (w : Nat) (e : List UInt8) : Option Nat :=
  if entryLenV2 ≤ w then rdU32 e 96 else some 0

/-- The fields of one entry of width `w`. -/
def eintragLesen (w : Nat) (e : List UInt8) : Option Entry := do
  let sha256 ← slice e 32 32
  let keyId ← keyIdLesen w e
  let name ← slice e 0 16
  let programId ← rdU32 e 16
  let domain ← rdU32 e 20
  let ifaceVersion ← rdU32 e 24
  let initialCaps ← rdU32 e 28
  let policyFlags ← rdU32 e 64
  let numaNode ← rdU32 e 68
  let coreAffinity ← rdU32 e 72
  let priority ← rdU32 e 76
  let budgetUs ← rdU32 e 80
  let periodUs ← periodUsLesen w e
  let v ← rdU16 e 84
  let d ← rdU16 e 86
  let c ← rdU32 e 88
  let serviceId ← rdU32 e 92
  return {
    name := name
    programId := programId
    domain := domain
    ifaceVersion := ifaceVersion
    initialCaps := initialCaps
    sha256 := sha256
    policyFlags := policyFlags
    numaNode := numaNode
    coreAffinity := coreAffinity
    priority := priority
    budgetUs := budgetUs
    periodUs := periodUs
    device := selektor v d c
    serviceId := serviceId
    keyId := keyId }

namespace Verified

def count (v : Verified) : Nat := v.manifest.entryCount

def entry (v : Verified) (i : Nat) : Option (Option Entry) :=
  if v.count ≤ i then some none
  else
    match slice v.manifest.entries (i * v.manifest.entryLen) v.manifest.entryLen with
    | none => some none
    | some e => (eintragLesen v.manifest.entryLen e).map some

end Verified

theorem rdU16_isSome (d : List UInt8) (off : Nat) (h : off + 2 ≤ d.length) :
    ∃ n, rdU16 d off = some n := exists_map_slice leNat d off 2 h

theorem rdU32_isSome (d : List UInt8) (off : Nat) (h : off + 4 ≤ d.length) :
    ∃ n, rdU32 d off = some n := exists_map_slice leNat d off 4 h

/-- What `parse` demands of a document, and what it reads from it. -/
structure Gelesen (d : List UInt8) (m : SystemManifest) : Prop where
  magic : rdU32 d 0 = some manifestMagic
  formatVersion : rdU16 d 4 = some m.formatVersion
  signatureAlgorithmId : rdU16 d 6 = some m.signatureAlgorithmId
  flags : rdU32 d 8 = some m.flags
  manifestVersion : rdU32 d 12 = some m.manifestVersion
  entryCount : rdU32 d 16 = some m.entryCount
  entryLen : rdU32 d 20 = some m.entryLen
  entryLenOk : entryLenOk m.formatVersion m.entryLen = true
  count_le : m.entryCount ≤ maxEntries
  lang : headerLen + m.entryCount * m.entryLen < d.length
  kernelHash : slice d 24 32 = some m.kernelHash
  keyId : slice d 56 16 = some m.keyId
  entries : slice d headerLen (m.entryCount * m.entryLen) = some m.entries
  message : slice d 0 (headerLen + m.entryCount * m.entryLen) = some m.message
  signature : d.drop (headerLen + m.entryCount * m.entryLen) = m.signature

theorem Gelesen.parse_eq {d : List UInt8} {m : SystemManifest} (h : Gelesen d m) :
    parse d = some (.ok m) := by
  have hlang := h.lang
  have hkopf : ¬ d.length < headerLen := by omega
  rw [parse, if_neg hkopf, h.magic]
  simp only [Option.bind_eq_bind, Option.bind_some, ne_eq, not_true_eq_false, if_false,
    h.formatVersion, h.entryLen, h.entryLenOk, Bool.true_eq_false, h.entryCount]
  rw [if_neg (Nat.not_lt.mpr h.count_le), if_neg (Nat.not_le.mpr hlang), h.kernelHash, h.keyId,
    h.signatureAlgorithmId, h.flags, h.manifestVersion, h.entries, h.message, h.signature]
  rfl

/-- The parser never leaves its buffer: an ill-formed document is refused. -/
theorem parse_isSome (d : List UInt8) :
    (∃ e, parse d = some (.error e)) ∨ ∃ m, Gelesen d m := by
  by_cases hkurz : d.length < headerLen
  · left
    exact ⟨_, by rw [parse, if_pos hkurz]; rfl⟩
  have hlen : 80 ≤ d.length := Nat.le_of_not_lt hkurz
  obtain ⟨magic, hmagic⟩ := rdU32_isSome d 0 (by omega)
  obtain ⟨fv, hfv⟩ := rdU16_isSome d 4 (by omega)
  obtain ⟨alg, halg⟩ := rdU16_isSome d 6 (by omega)
  obtain ⟨flags, hflags⟩ := rdU32_isSome d 8 (by omega)
  obtain ⟨mv, hmv⟩ := rdU32_isSome d 12 (by omega)
  obtain ⟨n, hn⟩ := rdU32_isSome d 16 (by omega)
  obtain ⟨w, hw⟩ := rdU32_isSome d 20 (by omega)
  obtain ⟨kh, hkh⟩ := exists_slice d 24 32 (by omega)
  obtain ⟨kid, hkid⟩ := exists_slice d 56 16 (by omega)
  by_cases hm : magic ≠ manifestMagic
  · left
    exact ⟨.badManifest, by rw [parse, if_neg hkurz, hmagic]; simp [hm]⟩
  obtain rfl := not_not.mp hm
  by_cases hok : entryLenOk fv w = false
  · left
    exact ⟨.unsupportedManifestFormat fv w, by
      rw [parse, if_neg hkurz, hmagic]; simp [hfv, hw, hok]⟩
  by_cases hmax : maxEntries < n
  · left
    exact ⟨.badManifest, by rw [parse, if_neg hkurz, hmagic]; simp [hfv, hw, hok, hn, hmax]⟩
  by_cases hlang : d.length ≤ headerLen + n * w
  · left
    exact ⟨.badManifest, by
      rw [parse, if_neg hkurz, hmagic]; simp [hfv, hw, hok, hn, hmax, hlang]⟩
  right
  obtain ⟨es, hes⟩ := exists_slice d headerLen (n * w) (by omega)
  obtain ⟨msg, hmsg⟩ := exists_slice d 0 (headerLen + n * w) (by omega)
  exact ⟨⟨fv, alg, flags, mv, n, w, kh, kid, es, msg, d.drop (headerLen + n * w)⟩, {
    magic := hmagic
    formatVersion := hfv
    signatureAlgorithmId := halg
    flags := hflags
    manifestVersion := hmv
    entryCount := hn
    entryLen := hw
    entryLenOk := by simpa using hok
    count_le := Nat.le_of_not_lt hmax
    lang := Nat.lt_of_not_le hlang
    kernelHash := hkh
    keyId := hkid
    entries := hes
    message := hmsg
    signature := rfl }⟩

theorem entryLenOk_cases {fv w : Nat} (h : entryLenOk fv w = true) :
    w = entryLenV1 ∨ w = entryLenV2 ∨ w = entryLenV3 := by
  simp only [entryLenOk, Bool.or_eq_true, Bool.and_eq_true, beq_iff_eq] at h
  omega

theorem keyIdLesen_isSome {w : Nat} {e : List UInt8} (he : e.length = w) :
    ∃ x, keyIdLesen w e = some x := by
  rw [keyIdLesen]
  by_cases h3 : entryLenV3 ≤ w
  · rw [if_pos h3]
    rw [entryLenV3] at h3
    exact exists_slice _ _ _ (by rw [entryKeyIdOff]; omega)
  · exact ⟨_, if_neg h3⟩

theorem periodUsLesen_isSome {w : Nat} {e : List UInt8} (he : e.length = w) :
    ∃ x, periodUsLesen w e = some x := by
  rw [periodUsLesen]
  by_cases h2 : entryLenV2 ≤ w
  · rw [if_pos h2]
    rw [entryLenV2] at h2
    exact rdU32_isSome _ _ (by omega)
  · exact ⟨0, if_neg h2⟩

theorem eintragLesen_isSome {fv w : Nat} {e : List UInt8} (hw : entryLenOk fv w = true)
    (he : e.length = w) : ∃ x, eintragLesen w e = some x := by
  have hbreit := entryLenOk_cases hw
  simp only [entryLenV1, entryLenV2, entryLenV3] at hbreit
  have h32 : ∀ off, off + 4 ≤ 96 → ∃ x, rdU32 e off = some x := fun off hoff =>
    rdU32_isSome _ _ (by omega)
  obtain ⟨key, hkey⟩ := keyIdLesen_isSome he
  obtain ⟨period, hperiod⟩ := periodUsLesen_isSome he
  obtain ⟨sha, hsha⟩ := exists_slice e 32 32 (by omega)
  obtain ⟨name, hname⟩ := exists_slice e 0 16 (by omega)
  obtain ⟨pid, hpid⟩ := h32 16 (by omega)
  obtain ⟨dom, hdom⟩ := h32 20 (by omega)
  obtain ⟨iface, hiface⟩ := h32 24 (by omega)
  obtain ⟨caps, hcaps⟩ := h32 28 (by omega)
  obtain ⟨pol, hpol⟩ := h32 64 (by omega)
  obtain ⟨numa, hnuma⟩ := h32 68 (by omega)
  obtain ⟨aff, haff⟩ := h32 72 (by omega)
  obtain ⟨prio, hprio⟩ := h32 76 (by omega)
  obtain ⟨bud, hbud⟩ := h32 80 (by omega)
  obtain ⟨v, hv⟩ := rdU16_isSome e 84 (by omega)
  obtain ⟨d, hd⟩ := rdU16_isSome e 86 (by omega)
  obtain ⟨c, hc⟩ := h32 88 (by omega)
  obtain ⟨serv, hserv⟩ := h32 92 (by omega)
  rw [eintragLesen, hsha, hkey, hname, hpid, hdom, hiface, hcaps, hpol, hnuma, haff, hprio, hbud,
    hperiod, hv, hd, hc, hserv]
  exact ⟨_, rfl⟩

theorem Gelesen.entry_isSome {d : List UInt8} {m : SystemManifest} (h : Gelesen d m) {i : Nat}
    (hi : i < m.entryCount) : ∃ x, (Verified.mk m).entry i = some (some x) := by
  have hlen : m.entries.length = m.entryCount * m.entryLen := slice_length h.entries
  have hle : i * m.entryLen + m.entryLen ≤ m.entries.length := by
    rw [hlen, ← Nat.succ_mul]
    exact Nat.mul_le_mul_right _ hi
  obtain ⟨e, he⟩ := exists_slice _ _ _ hle
  obtain ⟨x, hx⟩ := eintragLesen_isSome h.entryLenOk (slice_length he)
  have hcount : ¬ (Verified.mk m).count ≤ i := Nat.not_le.mpr hi
  refine ⟨x, ?_⟩
  rw [Verified.entry, if_neg hcount, he]
  dsimp only
  rw [hx]
  rfl

/-- The manifest parser answers for every byte string, and what it accepts can be read entry by
entry. -/
theorem parse_entries (d : List UInt8) : (∃ e, parse d = some (.error e)) ∨
    ∃ m, parse d = some (.ok m) ∧
      ∀ i, ∃ x, (Verified.mk m).entry i = some x ∧ (x.isSome ↔ i < m.entryCount) := by
  obtain herr | ⟨m, hm⟩ := parse_isSome d
  · exact .inl herr
  · refine .inr ⟨m, hm.parse_eq, fun i => ?_⟩
    by_cases hi : i < m.entryCount
    · obtain ⟨x, hx⟩ := hm.entry_isSome hi
      exact ⟨_, hx, by simp [hi]⟩
    · exact ⟨none, if_pos (Nat.not_lt.mp hi), by simp [hi]⟩

end Manifest

end Caprock.Loader
