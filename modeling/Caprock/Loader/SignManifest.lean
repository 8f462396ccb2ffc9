import Mathlib.Algebra.Group.Int.Defs
import Mathlib.Tactic.Common
import Caprock.Loader.Manifest

/-! # The system manifest as the signing tool writes it

`buildMessage` fills a zeroed buffer front to back with `struct.pack_into`; what a field cannot
hold ends the tool, `none` here.  The decoder in `Manifest` and this encoder share a layout, no
code.  `manifest_round_trip_iff` says for which entries the two agree: for those whose selector
is not the one value that the decoder takes for a selector that was never written.
-/

namespace Caprock.Loader

open Bytes Manifest

namespace SignManifest

def magic : Int := 0x534C4B4D
def formatVersion : Int := 1
def sigAlgEd25519 : Int := 1
def headerLen : Nat := 80
def entryLen : Nat := 96
def maxEntries : Nat := 64
def capMmio : Nat := 1 <<< 4
def policyRoot : Nat := 1 <<< 1
def any16 : Int := 0xFFFF
def any32 : Int := 0xFFFFFFFF

inductive SelektorFeld where
  | vendor
  | device
  | cls
  deriving DecidableEq, Repr

/-- One part `field=value` of a selector; no value is `any`. -/
def selektorSetzen (s : Int × Int × Int) (part : SelektorFeld × Option Int) : Int × Int × Int :=
  match part.1 with
  | .vendor => (part.2.getD any16, s.2.1, s.2.2)
  | .device => (s.1, part.2.getD any16, s.2.2)
  | .cls => (s.1, s.2.1, part.2.getD any32)

/-- `parse_device`; `none` on the outside ends the tool. -/
def parseDevice (spec : List (SelektorFeld × Option Int)) : Option (Option (Int × Int × Int)) :=
  let s := spec.foldl selektorSetzen (any16, any16, any32)
  if ¬ ((0 ≤ s.1 ∧ s.1 ≤ 0xFFFF) ∧ (0 ≤ s.2.1 ∧ s.2.1 ≤ 0xFFFF) ∧
      (0 ≤ s.2.2 ∧ s.2.2 ≤ 0xFFFFFFFF)) then none
  -- What restricts nothing is stored as not set.
  else if s = (any16, any16, any32) then some none
  else some (some s)

/-- What `parse_entry` returns; it cuts the name to 16 bytes. -/
structure Eintrag where
  service : Int
  device : Option (Int × Int × Int)
  programId : Int
  name : List UInt8
  domain : Int
  iface : Int
  sha256 : Vector UInt8 32
  caps : Nat
  policy : Nat
  prio : Int
  numa : Int
  affinity : Int
  budget : Int
  nameKurz : name.length ≤ 16
  deriving DecidableEq, Repr

/-- Field values that `struct` accepts for an unsigned word of `w` bytes. -/
def Passt (w : Nat) (v : Int) : Prop := 0 ≤ v ∧ v < 256 ^ w

instance (w : Nat) (v : Int) : Decidable (Passt w v) := inferInstanceAs (Decidable (_ ∧ _))

/-- `struct.pack`, a format as the widths of its fields. -/
def pack : List (Nat × Int) → Option (List UInt8)
  | [] => some []
  | (w, v) :: fs => if Passt w v then (pack fs).map (leBytes w v.toNat ++ ·) else none

/-- `struct.pack_into`. -/
def packInto (buf : List UInt8) (off : Nat) (fs : List (Nat × Int)) : Option (List UInt8) := do
  writeSlice buf off (← pack fs)

/-- The selector of the entry that starts at `b`; without one the bytes stay zero. -/
def geraetSchreiben (buf : List UInt8) (b : Nat) : Option (Int × Int × Int) → Option (List UInt8)
  | some (v, d, c) => packInto buf (b + 84) [(2, v), (2, d), (4, c)]
  | none => some buf

/-- The body of the loop over the entries, for the entry that starts at `b`. -/
def eintragSchreiben (buf : List UInt8) (b : Nat) (e : Eintrag) : Option (List UInt8) := do
  let buf ← writeSlice buf b e.name
  let buf ← packInto buf (b + 16) [(4, e.programId), (4, e.domain), (4, e.iface), (4, e.caps)]
  let buf ← writeSlice buf (b + 32) e.sha256.toList
  let buf ← packInto buf (b + 64)
    [(4, e.policy), (4, e.numa), (4, e.affinity), (4, e.prio), (4, e.budget)]
  let buf ← geraetSchreiben buf b e.device
  packInto buf (b + 92) [(4, e.service)]

def eintraegeSchreiben (buf : List UInt8) (i : Nat) : List Eintrag → Option (List UInt8)
  | [] => some buf
  | e :: es => do
      let buf ← eintragSchreiben buf (headerLen + i * entryLen) e
      eintraegeSchreiben buf (i + 1) es

def buildMessage (kernelHash : Vector UInt8 32) (keyId : Vector UInt8 16) (manifestVersion : Int)
    (entries : List Eintrag) : Option (List UInt8) := do
  if maxEntries < entries.length then none
  else if (entries.filter fun e => e.policy &&& policyRoot ≠ 0).length ≠ 1 then none
  else
    let buf := List.replicate (headerLen + entries.length * entryLen) 0
    let buf ← packInto buf 0 [(4, magic), (2, formatVersion), (2, sigAlgEd25519), (4, 0),
      (4, manifestVersion), (4, entries.length)]
    let buf ← packInto buf 20 [(4, entryLen)]
    let buf ← writeSlice buf 24 kernelHash.toList
    let buf ← writeSlice buf 56 keyId.toList
    eintraegeSchreiben buf 0 entries

/-! ## The bytes of a message

The fields as they lie in the buffer: the layout between the writer and the reader.
-/

def feld (w : Nat) (v : Int) : List UInt8 := leBytes w v.toNat

@[simp] theorem feld_length (w : Nat) (v : Int) : (feld w v).length = w := leBytes_length w _

theorem leNat_feld {w : Nat} {v : Int} (h : Passt w v) : (leNat (feld w v) : Int) = v := by
  have hv : ((v.toNat : Nat) : Int) = v := Int.toNat_of_nonneg h.1
  have hlt : v.toNat < 256 ^ w := by
    have hlt' : ((v.toNat : Nat) : Int) < ((256 ^ w : Nat) : Int) := by
      rw [hv]
      simpa using h.2
    exact Int.ofNat_lt.mp hlt'
  rw [feld, leNat_leBytes hlt, hv]

/-- The selector as it is written; the bytes stay zero if there is none. -/
def Eintrag.geraet (e : Eintrag) : Int × Int × Int := e.device.getD (0, 0, 0)

def Eintrag.felder (e : Eintrag) : List (List UInt8) :=
  [e.name ++ List.replicate (16 - e.name.length) 0,
    feld 4 e.programId, feld 4 e.domain, feld 4 e.iface, feld 4 e.caps,
    e.sha256.toList,
    feld 4 e.policy, feld 4 e.numa, feld 4 e.affinity, feld 4 e.prio, feld 4 e.budget,
    feld 2 e.geraet.1, feld 2 e.geraet.2.1, feld 4 e.geraet.2.2,
    feld 4 e.service]

def Eintrag.bytes (e : Eintrag) : List UInt8 := e.felder.flatten

@[simp] theorem Eintrag.bytes_length (e : Eintrag) : e.bytes.length = 96 := by
  have hname := e.nameKurz
  simp [bytes, felder]
  omega

/-- The fields of the header of a message with `n` entries. -/
def kopf (kernelHash : Vector UInt8 32) (keyId : Vector UInt8 16) (manifestVersion : Int)
    (n : Nat) : List (List UInt8) :=
  [feld 4 magic, feld 2 formatVersion, feld 2 sigAlgEd25519, feld 4 0,
    feld 4 manifestVersion, feld 4 n, feld 4 entryLen,
    kernelHash.toList, keyId.toList, List.replicate 8 0]

structure Eintrag.Passen (e : Eintrag) : Prop where
  programId : Passt 4 e.programId
  domain : Passt 4 e.domain
  iface : Passt 4 e.iface
  caps : Passt 4 e.caps
  policy : Passt 4 e.policy
  numa : Passt 4 e.numa
  affinity : Passt 4 e.affinity
  prio : Passt 4 e.prio
  budget : Passt 4 e.budget
  vendor : Passt 2 e.geraet.1
  deviceId : Passt 2 e.geraet.2.1
  cls : Passt 4 e.geraet.2.2
  service : Passt 4 e.service

theorem pack_eq_some {fs : List (Nat × Int)} {bs : List UInt8} (h : pack fs = some bs) :
    (∀ f ∈ fs, Passt f.1 f.2) ∧ bs = (fs.map fun f => feld f.1 f.2).flatten := by
  induction fs generalizing bs with
  | nil =>
    cases h
    simp
  | cons f fs ih =>
    obtain ⟨w, v⟩ := f
    rw [pack] at h
    by_cases hp : Passt w v
    · rw [if_pos hp, Option.map_eq_some_iff] at h
      obtain ⟨bs', hbs', rfl⟩ := h
      obtain ⟨hall, rfl⟩ := ih hbs'
      exact ⟨List.forall_mem_cons.mpr ⟨hp, hall⟩, rfl⟩
    · simp [hp] at h

theorem packInto_eq_some {p r b : List UInt8} {off n k : Nat} {fs : List (Nat × Int)}
    (h : packInto (p ++ (List.replicate n 0 ++ r)) off fs = some b) (hoff : off = p.length)
    (hn : n = (fs.map Prod.fst).sum + k) :
    (∀ f ∈ fs, Passt f.1 f.2) ∧
      b = (p ++ (fs.map fun f => feld f.1 f.2).flatten) ++ (List.replicate k 0 ++ r) := by
  obtain ⟨bs, hbs, hw⟩ := Option.bind_eq_some_iff.mp h
  obtain ⟨hall, rfl⟩ := pack_eq_some hbs
  have hlen : n = (fs.map fun f => feld f.1 f.2).flatten.length + k := by
    rw [hn, List.length_flatten, List.map_map]
    congr 2
    simp [Function.comp_def]
  rw [writeSlice_append hoff hlen] at hw
  exact ⟨hall, (Option.some.inj hw).symm⟩

theorem append_zeros {p r : List UInt8} {n m k : Nat} (hn : n = m + k) :
    p ++ (List.replicate n 0 ++ r) = (p ++ List.replicate m 0) ++ (List.replicate k 0 ++ r) := by
  rw [hn, List.replicate_add, List.append_assoc, List.append_assoc]

theorem geraetSchreiben_eq_some {p r b : List UInt8} {e : Eintrag} {off n k : Nat}
    (h : geraetSchreiben (p ++ (List.replicate n 0 ++ r)) off e.device = some b)
    (hoff : off + 84 = p.length) (hn : n = 8 + k) :
    (Passt 2 e.geraet.1 ∧ Passt 2 e.geraet.2.1 ∧ Passt 4 e.geraet.2.2) ∧
      b = (p ++ (feld 2 e.geraet.1 ++ feld 2 e.geraet.2.1 ++ feld 4 e.geraet.2.2)) ++
        (List.replicate k 0 ++ r) := by
  cases hg : e.device with
  | none =>
    rw [hg, geraetSchreiben, append_zeros hn] at h
    have hnull : e.geraet = (0, 0, 0) := by rw [Eintrag.geraet, hg]; rfl
    rw [hnull]
    exact ⟨by decide, (Option.some.inj h).symm⟩
  | some g =>
    obtain ⟨v, d, c⟩ := g
    rw [hg, geraetSchreiben] at h
    have hwert : e.geraet = (v, d, c) := by rw [Eintrag.geraet, hg]; rfl
    obtain ⟨hp, rfl⟩ := packInto_eq_some (k := k) h hoff (by simp; omega)
    rw [hwert]
    simp only [List.forall_mem_cons] at hp
    exact ⟨⟨hp.1, hp.2.1, hp.2.2.1⟩, by simp⟩

theorem eintragSchreiben_eq_some {p r b : List UInt8} {e : Eintrag} {off n k : Nat}
    (h : eintragSchreiben (p ++ (List.replicate n 0 ++ r)) off e = some b) (hoff : off = p.length)
    (hn : n = 96 + k) : e.Passen ∧ b = (p ++ e.bytes) ++ (List.replicate k 0 ++ r) := by
  have hname := e.nameKurz
  have hsha : e.sha256.toList.length = 32 := by simp
  simp only [eintragSchreiben, Option.bind_eq_bind, Option.bind_eq_some_iff] at h
  obtain ⟨b₀, h₀, b₁, h₁, b₂, h₂, b₃, h₃, b₄, h₄, h₅⟩ := h
  rw [writeSlice_append (k := (16 - e.name.length) + (80 + k)) hoff (by omega),
    append_zeros (m := 16 - e.name.length) rfl] at h₀
  cases h₀
  obtain ⟨hp₁, rfl⟩ := packInto_eq_some (k := 64 + k) h₁ (by simp; omega) (by simp; omega)
  rw [writeSlice_append (k := 32 + k) (by simp; omega) (by omega)] at h₂
  cases h₂
  obtain ⟨hp₂, rfl⟩ := packInto_eq_some (k := 12 + k) h₃ (by simp; omega) (by simp; omega)
  obtain ⟨hp₃, rfl⟩ := geraetSchreiben_eq_some (k := 4 + k) h₄ (by simp; omega) (by omega)
  obtain ⟨hp₄, rfl⟩ := packInto_eq_some (k := k) h₅ (by simp; omega) (by simp)
  simp only [List.forall_mem_cons] at hp₁ hp₂ hp₄
  constructor
  · obtain ⟨hpid, hdom, hiface, hcaps, -⟩ := hp₁
    obtain ⟨hpol, hnuma, haff, hprio, hbud, -⟩ := hp₂
    exact ⟨hpid, hdom, hiface, hcaps, hpol, hnuma, haff, hprio, hbud, hp₃.1, hp₃.2.1, hp₃.2.2,
      hp₄.1⟩
  · simp [Eintrag.bytes, Eintrag.felder]

theorem eintraegeSchreiben_eq_some {p b : List UInt8} {es : List Eintrag} {i : Nat}
    (h : eintraegeSchreiben (p ++ List.replicate (es.length * entryLen) 0) i es = some b)
    (hp : p.length = headerLen + i * entryLen) :
    (∀ e ∈ es, e.Passen) ∧ b = p ++ (es.map Eintrag.bytes).flatten := by
  induction es generalizing p i with
  | nil =>
    cases h
    simp
  | cons e es ih =>
    obtain ⟨b₁, h₁, h⟩ := Option.bind_eq_some_iff.mp h
    rw [← List.append_nil (List.replicate _ _)] at h₁
    obtain ⟨he, rfl⟩ := eintragSchreiben_eq_some (k := es.length * entryLen) h₁ hp.symm
      (by simp [entryLen]; omega)
    rw [List.append_nil] at h
    have hp' : (p ++ e.bytes).length = headerLen + (i + 1) * entryLen := by
      rw [List.length_append, hp, e.bytes_length, entryLen]
      omega
    obtain ⟨hes, rfl⟩ := ih h hp'
    exact ⟨List.forall_mem_cons.mpr ⟨he, hes⟩, by simp⟩

variable {kernelHash : Vector UInt8 32} {keyId : Vector UInt8 16} {manifestVersion : Int}
  {entries : List Eintrag} {msg : List UInt8}

theorem buildMessage_eq_some (h : buildMessage kernelHash keyId manifestVersion entries = some msg) :
    entries.length ≤ maxEntries ∧ Passt 4 manifestVersion ∧ (∀ e ∈ entries, e.Passen) ∧
      msg = (kopf kernelHash keyId manifestVersion entries.length).flatten ++
        (entries.map Eintrag.bytes).flatten := by
  rw [buildMessage] at h
  by_cases hmax : maxEntries < entries.length
  · simp [hmax] at h
  rw [if_neg hmax] at h
  by_cases hroot : (entries.filter fun e => e.policy &&& policyRoot ≠ 0).length ≠ 1
  · rw [if_pos hroot] at h
    cases h
  rw [if_neg hroot] at h
  let k := entries.length * entryLen
  obtain ⟨b₁, h₁, h⟩ := Option.bind_eq_some_iff.mp h
  have hnull : List.replicate (headerLen + k) (0 : UInt8) =
      [] ++ (List.replicate (headerLen + k) 0 ++ []) := by simp
  rw [hnull] at h₁
  obtain ⟨hp₁, rfl⟩ := packInto_eq_some (k := 60 + k) h₁ rfl (by simp [headerLen]; omega)
  obtain ⟨b₂, h₂, h⟩ := Option.bind_eq_some_iff.mp h
  obtain ⟨hp₂, rfl⟩ := packInto_eq_some (k := 56 + k) h₂ (by simp) (by simp; omega)
  have hhash : kernelHash.toList.length = 32 := by simp
  have hkey : keyId.toList.length = 16 := by simp
  simp only [Option.bind_eq_bind] at h
  rw [writeSlice_append (k := 24 + k) (by simp) (by omega), Option.bind_some,
    writeSlice_append (k := 8 + k) (by simp) (by omega), Option.bind_some,
    append_zeros (m := 8) rfl, List.append_nil] at h
  obtain ⟨hes, rfl⟩ := eintraegeSchreiben_eq_some h (by simp [headerLen])
  simp only [List.forall_mem_cons] at hp₁
  exact ⟨Nat.le_of_not_lt hmax, hp₁.2.2.2.2.1, hes, by simp [kopf]⟩

def Eintrag.gelesen (e : Eintrag) : Entry where
  name := e.name ++ List.replicate (16 - e.name.length) 0
  programId := e.programId.toNat
  domain := e.domain.toNat
  ifaceVersion := e.iface.toNat
  initialCaps := e.caps
  sha256 := e.sha256.toList
  policyFlags := e.policy
  numaNode := e.numa.toNat
  coreAffinity := e.affinity.toNat
  priority := e.prio.toNat
  budgetUs := e.budget.toNat
  periodUs := 0
  device := selektor e.geraet.1.toNat e.geraet.2.1.toNat e.geraet.2.2.toNat
  serviceId := e.service.toNat
  keyId := List.replicate 16 0

def Eintrag.gemeint (e : Eintrag) : DeviceSelector :=
  match e.device with
  | none => DeviceSelector.any
  | some (v, d, c) => ⟨v.toNat, d.toNat, c.toNat⟩

/-- The entry read carries exactly the fields of the entry written. -/
structure Wiedergegeben (e : Eintrag) (x : Entry) : Prop where
  name : x.name = e.name ++ List.replicate (16 - e.name.length) 0
  programId : (x.programId : Int) = e.programId
  domain : (x.domain : Int) = e.domain
  iface : (x.ifaceVersion : Int) = e.iface
  caps : x.initialCaps = e.caps
  sha256 : x.sha256 = e.sha256.toList
  policy : x.policyFlags = e.policy
  numa : (x.numaNode : Int) = e.numa
  affinity : (x.coreAffinity : Int) = e.affinity
  prio : (x.priority : Int) = e.prio
  budget : (x.budgetUs : Int) = e.budget
  device : x.device = e.gemeint
  service : (x.serviceId : Int) = e.service

/-- A written field is read back; `rdU16` and `rdU32` are the cases `w = 2` and `w = 4`. -/
theorem feld_flatten {l : List (List UInt8)} {k off w : Nat} {v : Int}
    (hk : l[k]? = some (feld w v)) (hoff : off = ((l.map List.length).take k).sum)
    (hv : Passt w v) : (slice l.flatten off w).map leNat = some v.toNat := by
  have hnat := leNat_feld hv
  rw [← List.map_take] at hoff
  rw [slice_flatten hk hoff (by simp), Option.map_some, Option.some.injEq]
  omega

theorem Eintrag.felder_lengths (e : Eintrag) :
    e.felder.map List.length = [16, 4, 4, 4, 4, 32, 4, 4, 4, 4, 4, 2, 2, 4, 4] := by
  have hname := e.nameKurz
  simp [felder]
  omega

theorem eintragLesen_bytes {e : Eintrag} (h : e.Passen) :
    eintragLesen entryLenV1 e.bytes = some e.gelesen := by
  have hlen := e.felder_lengths
  have hname := e.nameKurz
  have hsha : slice e.bytes 32 32 = some e.sha256.toList := by
    apply slice_flatten (k := 5) rfl _ (by simp)
    rw [List.map_take, hlen]
    rfl
  have hnamefeld : slice e.bytes 0 16 = some (e.name ++ List.replicate (16 - e.name.length) 0) := by
    apply slice_flatten (k := 0) rfl rfl
    simp
    omega
  have hpid : rdU32 e.bytes 16 = some e.programId.toNat :=
    feld_flatten (k := 1) rfl (by rw [hlen]; rfl) h.programId
  have hdom : rdU32 e.bytes 20 = some e.domain.toNat :=
    feld_flatten (k := 2) rfl (by rw [hlen]; rfl) h.domain
  have hiface : rdU32 e.bytes 24 = some e.iface.toNat :=
    feld_flatten (k := 3) rfl (by rw [hlen]; rfl) h.iface
  have hcaps : rdU32 e.bytes 28 = some e.caps :=
    feld_flatten (k := 4) rfl (by rw [hlen]; rfl) h.caps
  have hpol : rdU32 e.bytes 64 = some e.policy :=
    feld_flatten (k := 6) rfl (by rw [hlen]; rfl) h.policy
  have hnuma : rdU32 e.bytes 68 = some e.numa.toNat :=
    feld_flatten (k := 7) rfl (by rw [hlen]; rfl) h.numa
  have haff : rdU32 e.bytes 72 = some e.affinity.toNat :=
    feld_flatten (k := 8) rfl (by rw [hlen]; rfl) h.affinity
  have hprio : rdU32 e.bytes 76 = some e.prio.toNat :=
    feld_flatten (k := 9) rfl (by rw [hlen]; rfl) h.prio
  have hbud : rdU32 e.bytes 80 = some e.budget.toNat :=
    feld_flatten (k := 10) rfl (by rw [hlen]; rfl) h.budget
  have hv : rdU16 e.bytes 84 = some e.geraet.1.toNat :=
    feld_flatten (k := 11) rfl (by rw [hlen]; rfl) h.vendor
  have hd : rdU16 e.bytes 86 = some e.geraet.2.1.toNat :=
    feld_flatten (k := 12) rfl (by rw [hlen]; rfl) h.deviceId
  have hc : rdU32 e.bytes 88 = some e.geraet.2.2.toNat :=
    feld_flatten (k := 13) rfl (by rw [hlen]; rfl) h.cls
  have hserv : rdU32 e.bytes 92 = some e.service.toNat :=
    feld_flatten (k := 14) rfl (by rw [hlen]; rfl) h.service
  rw [eintragLesen, hsha, hnamefeld, hpid, hdom, hiface, hcaps, hpol, hnuma, haff, hprio, hbud,
    hv, hd, hc, hserv]
  rfl

theorem gelesen_device_iff {e : Eintrag} (h : e.Passen) :
    e.gelesen.device = e.gemeint ↔ e.device ≠ some (0, 0, 0) := by
  cases hg : e.device with
  | none =>
    have hnull : e.geraet = (0, 0, 0) := by rw [Eintrag.geraet, hg]; rfl
    simp [Eintrag.gelesen, Eintrag.gemeint, hnull, hg, selektor]
  | some g =>
    obtain ⟨v, d, c⟩ := g
    have hwert : e.geraet = (v, d, c) := by rw [Eintrag.geraet, hg]; rfl
    have hv : 0 ≤ v := by simpa [hwert] using h.vendor.1
    have hd : 0 ≤ d := by simpa [hwert] using h.deviceId.1
    have hc : 0 ≤ c := by simpa [hwert] using h.cls.1
    simp only [Eintrag.gelesen, Eintrag.gemeint, hwert, hg, selektor]
    by_cases hz : v.toNat = 0 ∧ d.toNat = 0 ∧ c.toNat = 0
    · obtain ⟨hv0, hd0, hc0⟩ := hz
      obtain rfl : v = 0 := by omega
      obtain rfl : d = 0 := by omega
      obtain rfl : c = 0 := by omega
      simp [DeviceSelector.any, Manifest.any16]
    · rw [if_neg hz]
      have hne : some (v, d, c) ≠ some ((0 : Int), (0 : Int), (0 : Int)) := by
        intro heq
        cases heq
        exact hz ⟨rfl, rfl, rfl⟩
      simp only [true_iff]
      exact hne

theorem wiedergegeben_gelesen_iff {e : Eintrag} (h : e.Passen) :
    Wiedergegeben e e.gelesen ↔ e.device ≠ some (0, 0, 0) := by
  rw [← gelesen_device_iff h]
  constructor
  · intro hw
    exact hw.device
  · intro hdev
    exact {
      name := rfl
      programId := Int.toNat_of_nonneg h.programId.1
      domain := Int.toNat_of_nonneg h.domain.1
      iface := Int.toNat_of_nonneg h.iface.1
      caps := rfl
      sha256 := rfl
      policy := rfl
      numa := Int.toNat_of_nonneg h.numa.1
      affinity := Int.toNat_of_nonneg h.affinity.1
      prio := Int.toNat_of_nonneg h.prio.1
      budget := Int.toNat_of_nonneg h.budget.1
      device := hdev
      service := Int.toNat_of_nonneg h.service.1 }

/-- The decoded header of the message with these arguments. -/
def gelesen (kernelHash : Vector UInt8 32) (keyId : Vector UInt8 16) (manifestVersion : Int)
    (entries : List Eintrag) (msg sig : List UInt8) : SystemManifest where
  formatVersion := 1
  signatureAlgorithmId := 1
  flags := 0
  manifestVersion := manifestVersion.toNat
  entryCount := entries.length
  entryLen := entryLenV1
  kernelHash := kernelHash.toList
  keyId := keyId.toList
  entries := (entries.map Eintrag.bytes).flatten
  message := msg
  signature := sig

theorem koerper_length (entries : List Eintrag) :
    ((entries.map Eintrag.bytes).flatten).length = entries.length * 96 := by
  induction entries with
  | nil => rfl
  | cons e es ih =>
    rw [List.map_cons, List.flatten_cons, List.length_append, ih, e.bytes_length,
      List.length_cons]
    omega

theorem gelesen_message (h : buildMessage kernelHash keyId manifestVersion entries = some msg)
    (sig : List UInt8) (hsig : sig ≠ []) :
    Gelesen (msg ++ sig) (gelesen kernelHash keyId manifestVersion entries msg sig) := by
  obtain ⟨hmax, hver, -, rfl⟩ := buildMessage_eq_some h
  let k := kopf kernelHash keyId manifestVersion entries.length
  let koerper := (entries.map Eintrag.bytes).flatten
  let l := k ++ [koerper, sig]
  have hkopf : k.map List.length = [4, 2, 2, 4, 4, 4, 4, 32, 16, 8] := by simp [k, kopf]
  have hklen : k.flatten.length = 80 := by
    rw [List.length_flatten, hkopf]
    rfl
  have hkoerper : koerper.length = entries.length * 96 := koerper_length entries
  have hl : l.map List.length = [4, 2, 2, 4, 4, 4, 4, 32, 16, 8] ++ [koerper.length, sig.length] := by
    rw [List.map_append, hkopf]
    rfl
  have hdata : k.flatten ++ koerper ++ sig = l.flatten := by simp [l]
  have hlen : (k.flatten ++ koerper).length = 80 + entries.length * 96 := by
    rw [List.length_append, hklen, hkoerper]
  have hsiglen : 0 < sig.length := List.length_pos_iff.mpr hsig
  rw [hdata]
  constructor
  · exact feld_flatten (k := 0) (v := magic) rfl rfl (by decide)
  · exact feld_flatten (k := 1) (v := formatVersion) rfl (by rw [hl]; rfl) (by decide)
  · exact feld_flatten (k := 2) (v := sigAlgEd25519) rfl (by rw [hl]; rfl) (by decide)
  · exact feld_flatten (k := 3) (v := 0) rfl (by rw [hl]; rfl) (by decide)
  · exact feld_flatten (k := 4) rfl (by rw [hl]; rfl) hver
  · apply feld_flatten (k := 5) (v := entries.length) rfl (by rw [hl]; rfl)
    rw [maxEntries] at hmax
    exact ⟨Int.natCast_nonneg _, by omega⟩
  · exact feld_flatten (k := 6) (v := entryLen) rfl (by rw [hl]; rfl) (by decide)
  · rfl
  · exact hmax
  · show 80 + entries.length * 96 < l.flatten.length
    rw [← hdata, List.length_append, hlen]
    omega
  · apply slice_flatten (k := 7) rfl _ (by simp [gelesen])
    rw [List.map_take, hl]
    rfl
  · apply slice_flatten (k := 8) rfl _ (by simp [gelesen])
    rw [List.map_take, hl]
    rfl
  · apply slice_flatten (k := 10) rfl _ hkoerper.symm
    rw [List.map_take, hl]
    rfl
  · exact slice_append (p := []) (r := sig) (by rw [← hdata]; rfl) rfl hlen.symm
  · rw [← hdata]
    exact List.drop_left' hlen

theorem entry_gelesen {sig : List UInt8} (hp : ∀ e ∈ entries, e.Passen) {i : Nat} {e : Eintrag}
    (hi : entries[i]? = some e) :
    (Verified.mk (gelesen kernelHash keyId manifestVersion entries msg sig)).entry i =
      some (some e.gelesen) := by
  have hlt : i < entries.length := (List.getElem?_eq_some_iff.mp hi).1
  have hbytes : slice (entries.map Eintrag.bytes).flatten (i * entryLenV1) entryLenV1 =
      some e.bytes := by
    apply slice_flatten (k := i) (by rw [List.getElem?_map, hi]; rfl) _ (e.bytes_length).symm
    apply Eq.symm
    apply sum_length_take _ (by rw [List.length_map]; omega)
    intro x hx
    obtain ⟨y, -, rfl⟩ := List.mem_map.mp hx
    exact y.bytes_length
  have hcount : ¬ (Verified.mk (gelesen kernelHash keyId manifestVersion entries msg sig)).count ≤ i :=
    Nat.not_le.mpr hlt
  rw [Verified.entry, if_neg hcount]
  simp only [gelesen, hbytes, eintragLesen_bytes (hp e (List.mem_of_getElem? hi)), Option.map_some]

/-- **Round trip.** -/
theorem manifest_round_trip_iff
    (h : buildMessage kernelHash keyId manifestVersion entries = some msg) (sig : List UInt8)
    (hsig : sig ≠ []) (check : List UInt8 → List UInt8 → Bool) (hcheck : check msg sig = true) :
    ∃ m v, parse (msg ++ sig) = some (.ok m) ∧ m.message = msg ∧ m.signature = sig ∧
      m.verifyWith check = .ok v ∧ v.count = entries.length ∧
      ((∀ i e, entries[i]? = some e → ∃ x, v.entry i = some (some x) ∧ Wiedergegeben e x) ↔
        ∀ e ∈ entries, e.device ≠ some (0, 0, 0)) := by
  obtain ⟨-, -, hp, -⟩ := buildMessage_eq_some h
  let m := gelesen kernelHash keyId manifestVersion entries msg sig
  refine ⟨m, ⟨m⟩, (gelesen_message h sig hsig).parse_eq, rfl, rfl, if_pos hcheck, rfl, ?_⟩
  constructor
  · intro hall e he
    obtain ⟨i, hi⟩ := List.mem_iff_getElem?.mp he
    obtain ⟨x, hx, hw⟩ := hall i e hi
    rw [entry_gelesen hp hi] at hx
    cases hx
    exact (wiedergegeben_gelesen_iff (hp e he)).mp hw
  · intro hdev i e hi
    have he : e ∈ entries := List.mem_of_getElem? hi
    exact ⟨e.gelesen, entry_gelesen hp hi, (wiedergegeben_gelesen_iff (hp e he)).mpr (hdev e he)⟩

def wurzelEintrag (device : Option (Int × Int × Int)) : Eintrag where
  service := 0
  device := device
  programId := 1
  name := [105, 110, 105, 116]
  domain := 2
  iface := 1
  sha256 := Vector.replicate 32 7
  caps := capMmio
  policy := policyRoot
  prio := 1
  numa := 0
  affinity := 0xFFFFFFFF
  budget := 500
  nameKurz := by decide

theorem manifest_round_trip_iff_disk : ∃ msg m v,
    buildMessage (Vector.replicate 32 1) (Vector.replicate 16 2) 3
      [wurzelEintrag (some (0x1AF4, 0x1042, 0x010000))] = some msg ∧
    parse (msg ++ [9]) = some (.ok m) ∧ m.verifyWith (fun _ _ => true) = .ok v ∧
    ∃ x, v.entry 0 = some (some x) ∧
      Wiedergegeben (wurzelEintrag (some (0x1AF4, 0x1042, 0x010000))) x := by
  have hb : ∃ msg, buildMessage (Vector.replicate 32 1) (Vector.replicate 16 2) 3
      [wurzelEintrag (some (0x1AF4, 0x1042, 0x010000))] = some msg :=
    Option.isSome_iff_exists.mp (by decide +kernel)
  obtain ⟨msg, hmsg⟩ := hb
  obtain ⟨m, v, hm, -, -, hv, -, hiff⟩ := manifest_round_trip_iff hmsg [9] (by decide)
    (fun _ _ => true) rfl
  exact ⟨msg, m, v, hmsg, hm, hv, hiff.mpr (by decide) 0 _ rfl⟩

/-- The selector `vendor=0,device=0,class=0` is accepted and read back as any device. -/
theorem manifest_round_trip_null_selektor : ∃ msg m x,
    parseDevice [(.vendor, some 0), (.device, some 0), (.cls, some 0)] = some (some (0, 0, 0)) ∧
    buildMessage (Vector.replicate 32 1) (Vector.replicate 16 2) 3
      [wurzelEintrag (some (0, 0, 0))] = some msg ∧
    parse (msg ++ [9]) = some (.ok m) ∧
    (Verified.mk m).entry 0 = some (some x) ∧
    (wurzelEintrag (some (0, 0, 0))).gemeint.matches 0x1AF4 0x1042 0x010000 = false ∧
    x.device.matches 0x1AF4 0x1042 0x010000 = true := by
  have hb : ∃ msg, buildMessage (Vector.replicate 32 1) (Vector.replicate 16 2) 3
      [wurzelEintrag (some (0, 0, 0))] = some msg :=
    Option.isSome_iff_exists.mp (by decide +kernel)
  obtain ⟨msg, hmsg⟩ := hb
  obtain ⟨-, -, hp, -⟩ := buildMessage_eq_some hmsg
  exact ⟨msg, _, _, by decide, hmsg, (gelesen_message hmsg [9] (by decide)).parse_eq,
    entry_gelesen hp rfl, by decide, by decide⟩

end SignManifest

end Caprock.Loader
