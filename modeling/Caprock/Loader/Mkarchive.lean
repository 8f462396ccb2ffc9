import Caprock.Loader.Archive
import Caprock.Loader.SignManifest

/-! # The boot archive as the build tool writes it

`mkarchive` lays out the parts of all programs behind the table, fills a zeroed table with
`struct.pack_into` and appends the parts.  The name field has sixteen bytes, and the tool cuts a
longer name; everything else comes back from the parser as it went in.
-/

namespace Caprock.Loader.Archive

open Bytes Checks Word
open Manifest (rdU32)
open SignManifest (Passt pack packInto feld feld_length append_zeros feld_flatten)

namespace Mkarchive

structure Modul where
  programId : Int
  name : String
  version : Int
  domain : Int
  blob : List UInt8
  manifest : List UInt8
  cert : List UInt8
  deriving DecidableEq

/-- `name.encode()`. -/
def encode (name : String) : List UInt8 := name.toByteArray.data.toList

/-- The parts of the modules behind each other, and the span of every part. -/
def spannen (tableEnd : Nat) (payload : List UInt8) : List Modul → List Spanne × List UInt8
  | [] => ([], payload)
  | m :: ms =>
      let bo := tableEnd + payload.length
      let payload := payload ++ m.blob
      let mo := tableEnd + payload.length
      let payload := payload ++ m.manifest
      let co := tableEnd + payload.length
      let payload := payload ++ m.cert
      let rest := spannen tableEnd payload ms
      (⟨bo, m.blob.length, mo, m.manifest.length, co, m.cert.length⟩ :: rest.1, rest.2)

/-- The body of the loop over the table, for the entry that starts at `base`. -/
def eintragSchreiben (buf : List UInt8) (base : Nat) (m : Modul) (s : Spanne) :
    Option (List UInt8) := do
  let buf ← writeSlice buf base ((encode m.name).take 16)
  let buf ← packInto buf (base + 16) [(4, m.programId), (4, m.version), (4, m.domain), (4, 0)]
  let buf ← packInto buf (base + 32)
    [(4, s.blobOff), (4, s.blobLen), (4, s.manOff), (4, s.manLen)]
  packInto buf (base + 80) [(4, s.certOff), (4, s.certLen)]

def tabelleSchreiben (buf : List UInt8) (i : Nat) : List (Modul × Spanne) → Option (List UInt8)
  | [] => some buf
  | (m, s) :: es => do
      let buf ← eintragSchreiben buf (headerLen + i * entryLen) m s
      tabelleSchreiben buf (i + 1) es

def mkarchive (sysman : List UInt8) (entries : List Modul) : Option (List UInt8) := do
  let tableEnd := headerLen + entries.length * entryLen
  let (spans, payload) := spannen tableEnd [] entries
  let sysmanOff := if sysman.isEmpty then 0 else tableEnd + payload.length
  let payload := payload ++ sysman
  let total := tableEnd + payload.length
  let buf := List.replicate tableEnd 0
  let buf ← packInto buf 0 [(4, magic), (4, version), (4, entries.length), (4, total)]
  let buf ← packInto buf 16 [(4, sysmanOff), (4, sysman.length)]
  let buf ← tabelleSchreiben buf 0 (entries.zip spans)
  return buf ++ payload

def Modul.nutzlast (m : Modul) : List UInt8 := m.blob ++ m.manifest ++ m.cert

def Modul.spanne (m : Modul) (off : Nat) : Spanne :=
  ⟨off, m.blob.length, off + m.blob.length, m.manifest.length,
    off + m.blob.length + m.manifest.length, m.cert.length⟩

def nutzlast (ms : List Modul) : List UInt8 := (ms.map Modul.nutzlast).flatten

def spannenAb (off : Nat) : List Modul → List Spanne
  | [] => []
  | m :: ms => m.spanne off :: spannenAb (off + m.nutzlast.length) ms

theorem spannen_eq (tableEnd : Nat) (payload : List UInt8) (ms : List Modul) :
    spannen tableEnd payload ms =
      (spannenAb (tableEnd + payload.length) ms, payload ++ nutzlast ms) := by
  induction ms generalizing payload with
  | nil => simp [spannen, spannenAb, nutzlast]
  | cons m ms ih =>
    simp only [spannen, ih, spannenAb, Modul.spanne, Modul.nutzlast, nutzlast, List.length_append,
      List.map_cons, List.flatten_cons, List.append_assoc, Nat.add_assoc]

@[simp] theorem spannenAb_length (off : Nat) (ms : List Modul) :
    (spannenAb off ms).length = ms.length := by
  induction ms generalizing off with
  | nil => rfl
  | cons m ms ih => simp [spannenAb, ih]

theorem spannenAb_getElem? {off i : Nat} {ms : List Modul} {m : Modul} (hm : ms[i]? = some m) :
    (spannenAb off ms)[i]? = some (m.spanne (off + (nutzlast (ms.take i)).length)) := by
  induction ms generalizing off i with
  | nil => simp at hm
  | cons x ms ih =>
    cases i with
    | zero =>
      obtain rfl : x = m := by simpa using hm
      simp [spannenAb, nutzlast]
    | succ i =>
      have hm : ms[i]? = some m := by simpa using hm
      rw [spannenAb, List.getElem?_cons_succ, ih hm]
      simp [nutzlast, Nat.add_assoc]

def nameFeld (m : Modul) : List UInt8 :=
  (encode m.name).take 16 ++ List.replicate (16 - ((encode m.name).take 16).length) 0

def felder (m : Modul) (s : Spanne) : List (List UInt8) :=
  [nameFeld m, feld 4 m.programId, feld 4 m.version, feld 4 m.domain, feld 4 0,
    feld 4 s.blobOff, feld 4 s.blobLen, feld 4 s.manOff, feld 4 s.manLen, List.replicate 32 0,
    feld 4 s.certOff, feld 4 s.certLen, List.replicate 8 0]

def eintragBytes (m : Modul) (s : Spanne) : List UInt8 := (felder m s).flatten

def kopf (count total sysmanOff sysmanLen : Nat) : List (List UInt8) :=
  [feld 4 magic, feld 4 version, feld 4 count, feld 4 total, feld 4 sysmanOff, feld 4 sysmanLen,
    List.replicate 8 0]

@[simp] theorem nameFeld_length (m : Modul) : (nameFeld m).length = 16 := by
  simp only [nameFeld, List.length_append, List.length_replicate, List.length_take]
  omega

theorem felder_lengths (m : Modul) (s : Spanne) :
    (felder m s).map List.length = [16, 4, 4, 4, 4, 4, 4, 4, 4, 32, 4, 4, 8] := by
  simp [felder]

@[simp] theorem eintragBytes_length (m : Modul) (s : Spanne) :
    (eintragBytes m s).length = entryLen := by
  rw [eintragBytes, List.length_flatten, felder_lengths]
  rfl

/-- The values of a module that have a word of their own fit it. -/
structure Modul.Passt (m : Modul) : Prop where
  programId : SignManifest.Passt 4 m.programId
  version : SignManifest.Passt 4 m.version
  domain : SignManifest.Passt 4 m.domain

structure SpannePasst (s : Spanne) : Prop where
  blobOff : s.blobOff < 2 ^ 32
  blobLen : s.blobLen < 2 ^ 32
  manOff : s.manOff < 2 ^ 32
  manLen : s.manLen < 2 ^ 32
  certOff : s.certOff < 2 ^ 32
  certLen : s.certLen < 2 ^ 32

theorem passt_natCast {n : Nat} (h : n < 2 ^ 32) : SignManifest.Passt 4 (n : Int) :=
  ⟨Int.natCast_nonneg n, by omega⟩

theorem pack_of_passt {fs : List (Nat × Int)} (h : ∀ f ∈ fs, SignManifest.Passt f.1 f.2) :
    pack fs = some (fs.map fun f => feld f.1 f.2).flatten := by
  induction fs with
  | nil => rfl
  | cons f fs ih =>
    obtain ⟨hf, hfs⟩ := List.forall_mem_cons.mp h
    rw [pack, if_pos hf, ih hfs]
    rfl

theorem packInto_of_passt {p r : List UInt8} {off n k : Nat} {fs : List (Nat × Int)}
    (h : ∀ f ∈ fs, SignManifest.Passt f.1 f.2) (hoff : off = p.length)
    (hn : n = (fs.map Prod.fst).sum + k) :
    packInto (p ++ (List.replicate n 0 ++ r)) off fs =
      some ((p ++ (fs.map fun f => feld f.1 f.2).flatten) ++ (List.replicate k 0 ++ r)) := by
  have hlen : n = (fs.map fun f => feld f.1 f.2).flatten.length + k := by
    rw [hn, List.length_flatten, List.map_map]
    congr 2
    simp [Function.comp_def]
  rw [packInto, pack_of_passt h]
  exact writeSlice_append hoff hlen

theorem writeSlice_name {p r nb : List UInt8} {off n k : Nat} (hname : nb.length ≤ 16)
    (hoff : off = p.length) (hn : n = 16 + k) :
    writeSlice (p ++ (List.replicate n 0 ++ r)) off nb =
      some ((p ++ (nb ++ List.replicate (16 - nb.length) 0)) ++ (List.replicate k 0 ++ r)) := by
  have hsplit : n = nb.length + ((16 - nb.length) + k) := by omega
  rw [writeSlice_append hoff hsplit, append_zeros rfl, List.append_assoc p]

theorem eintragSchreiben_eq {p r : List UInt8} {m : Modul} {s : Spanne} {off n k : Nat}
    (hm : m.Passt) (hs : SpannePasst s) (hoff : off = p.length) (hn : n = 96 + k) :
    eintragSchreiben (p ++ (List.replicate n 0 ++ r)) off m s =
      some ((p ++ eintragBytes m s) ++ (List.replicate k 0 ++ r)) := by
  have hname : ((encode m.name).take 16).length ≤ 16 := List.length_take_le _ _
  have hnull : SignManifest.Passt 4 0 := passt_natCast (n := 0) (by decide)
  have h₁ : ∀ f ∈ [(4, m.programId), (4, m.version), (4, m.domain), (4, 0)],
      SignManifest.Passt f.1 f.2 := by
    simp only [List.forall_mem_cons]
    exact ⟨hm.programId, hm.version, hm.domain, hnull, fun _ hx => absurd hx List.not_mem_nil⟩
  have h₂ : ∀ f ∈ [(4, (s.blobOff : Int)), (4, (s.blobLen : Int)), (4, (s.manOff : Int)),
      (4, (s.manLen : Int))], SignManifest.Passt f.1 f.2 := by
    simp only [List.forall_mem_cons]
    exact ⟨passt_natCast hs.blobOff, passt_natCast hs.blobLen, passt_natCast hs.manOff,
      passt_natCast hs.manLen, fun _ hx => absurd hx List.not_mem_nil⟩
  have h₃ : ∀ f ∈ [(4, (s.certOff : Int)), (4, (s.certLen : Int))],
      SignManifest.Passt f.1 f.2 := by
    simp only [List.forall_mem_cons]
    exact ⟨passt_natCast hs.certOff, passt_natCast hs.certLen,
      fun _ hx => absurd hx List.not_mem_nil⟩
  have hn₁ : n = 16 + (80 + k) := by omega
  have hw := writeSlice_name (r := r) hname hoff hn₁
  rw [eintragSchreiben, hw, Option.bind_eq_bind, Option.bind_some,
    packInto_of_passt (k := 64 + k) h₁ (by simp; omega) (by simp; omega), Option.bind_some,
    packInto_of_passt (k := 48 + k) h₂ (by simp; omega) (by simp; omega), Option.bind_some,
    append_zeros (m := 32) (k := 16 + k) (by omega),
    packInto_of_passt (k := 8 + k) h₃ (by simp; omega) (by simp; omega), append_zeros (m := 8) rfl]
  simp [eintragBytes, felder, nameFeld]

def tabelle (es : List (Modul × Spanne)) : List UInt8 := (es.map fun e => eintragBytes e.1 e.2).flatten

theorem tabelleSchreiben_eq {p : List UInt8} {es : List (Modul × Spanne)} {i : Nat}
    (hes : ∀ e ∈ es, e.1.Passt ∧ SpannePasst e.2) (hp : p.length = headerLen + i * entryLen) :
    tabelleSchreiben (p ++ List.replicate (es.length * entryLen) 0) i es = some (p ++ tabelle es) := by
  induction es generalizing p i with
  | nil => simp [tabelleSchreiben, tabelle]
  | cons e es ih =>
    obtain ⟨m, s⟩ := e
    obtain ⟨⟨hm, hs⟩, hrest⟩ := List.forall_mem_cons.mp hes
    have hp' : (p ++ eintragBytes m s).length = headerLen + (i + 1) * entryLen := by
      rw [List.length_append, hp, eintragBytes_length, entryLen]
      omega
    rw [tabelleSchreiben, ← List.append_nil (List.replicate _ _),
      eintragSchreiben_eq (k := es.length * entryLen) hm hs hp.symm
        (by rw [List.length_cons, entryLen]; omega), List.append_nil,
      Option.bind_eq_bind, Option.bind_some, ih hrest hp']
    simp [tabelle]

def archivLen (sysman : List UInt8) (ms : List Modul) : Nat :=
  headerLen + ms.length * entryLen + (nutzlast ms).length + sysman.length

def sysmanOff (sysman : List UInt8) (ms : List Modul) : Nat :=
  if sysman.isEmpty then 0 else headerLen + ms.length * entryLen + (nutzlast ms).length

def zeilen (ms : List Modul) : List (Modul × Spanne) :=
  ms.zip (spannenAb (headerLen + ms.length * entryLen) ms)

def archivBytes (sysman : List UInt8) (ms : List Modul) : List UInt8 :=
  (kopf ms.length (archivLen sysman ms) (sysmanOff sysman ms) sysman.length).flatten ++
    (tabelle (zeilen ms) ++ (nutzlast ms ++ sysman))

/-- Where the parts of module `i` start. -/
def anfang (ms : List Modul) (i : Nat) : Nat :=
  headerLen + ms.length * entryLen + (nutzlast (ms.take i)).length

variable {sysman : List UInt8} {ms : List Modul} {m : Modul} {i : Nat}

theorem zeilen_getElem? (hm : ms[i]? = some m) :
    (zeilen ms)[i]? = some (m, m.spanne (anfang ms i)) :=
  List.getElem?_zip_eq_some.mpr ⟨hm, spannenAb_getElem? hm⟩

@[simp] theorem zeilen_length (ms : List Modul) : (zeilen ms).length = ms.length := by
  simp [zeilen]

theorem nutzlast_split (hm : ms[i]? = some m) :
    nutzlast ms = nutzlast (ms.take i) ++ (m.nutzlast ++ nutzlast (ms.drop (i + 1))) := by
  obtain ⟨hlt, rfl⟩ := List.getElem?_eq_some_iff.mp hm
  simp only [nutzlast]
  rw [← List.flatten_cons, ← List.map_cons, ← List.drop_eq_getElem_cons hlt, ← List.flatten_append,
    ← List.map_append, List.take_append_drop]

theorem anfang_le (sysman : List UInt8) (hm : ms[i]? = some m) :
    anfang ms i + m.nutzlast.length ≤ archivLen sysman ms := by
  have hlen := congrArg List.length (nutzlast_split hm)
  simp only [List.length_append] at hlen
  rw [anfang, archivLen]
  omega

theorem spanne_passt (hm : ms[i]? = some m) (hlen : archivLen sysman ms < 2 ^ 32) :
    SpannePasst (m.spanne (anfang ms i)) := by
  have hle := anfang_le sysman hm
  rw [Modul.nutzlast, List.length_append, List.length_append] at hle
  constructor <;> simp only [Modul.spanne] <;> omega

theorem tabelle_length (es : List (Modul × Spanne)) :
    (tabelle es).length = es.length * entryLen := by
  induction es with
  | nil => simp [tabelle]
  | cons e es ih =>
    rw [tabelle] at ih ⊢
    rw [List.map_cons, List.flatten_cons, List.length_append, ih, eintragBytes_length,
      List.length_cons, Nat.add_mul, Nat.one_mul, Nat.add_comm]

theorem kopf_lengths (count total off len : Nat) :
    (kopf count total off len).map List.length = [4, 4, 4, 4, 4, 4, 8] := by
  simp [kopf]

theorem kopf_length (count total off len : Nat) : (kopf count total off len).flatten.length = 32 := by
  simp [kopf]

theorem archivBytes_length (sysman : List UInt8) (ms : List Modul) :
    (archivBytes sysman ms).length = archivLen sysman ms := by
  simp only [archivBytes, List.length_append, kopf_length, tabelle_length, zeilen_length, archivLen,
    headerLen]
  omega

theorem mkarchive_eq (hms : ∀ m ∈ ms, m.Passt) (hlen : archivLen sysman ms < 2 ^ 32) :
    mkarchive sysman ms = some (archivBytes sysman ms) := by
  have hes : ∀ e ∈ zeilen ms, e.1.Passt ∧ SpannePasst e.2 := by
    intro e he
    obtain ⟨j, hj⟩ := List.mem_iff_getElem?.mp he
    obtain ⟨hm, -⟩ := List.getElem?_zip_eq_some.mp hj
    have hspan := Option.some.inj (hj.symm.trans (zeilen_getElem? hm))
    rw [hspan]
    exact ⟨hms _ (List.mem_of_getElem? hm), spanne_passt hm hlen⟩
  have hoff : sysmanOff sysman ms < 2 ^ 32 := by
    rw [archivLen] at hlen
    rw [sysmanOff]
    split <;> omega
  have hcount : ms.length < 2 ^ 32 := by
    rw [archivLen, entryLen] at hlen
    omega
  have hsys : sysman.length < 2 ^ 32 := by
    rw [archivLen] at hlen
    omega
  have h₁ : ∀ f ∈ [(4, ((magic : Nat) : Int)), (4, ((version : Nat) : Int)), (4, (ms.length : Int)),
      (4, (archivLen sysman ms : Int))], SignManifest.Passt f.1 f.2 := by
    simp only [List.forall_mem_cons]
    exact ⟨passt_natCast (by decide), passt_natCast (by decide), passt_natCast hcount,
      passt_natCast hlen, fun _ hx => absurd hx List.not_mem_nil⟩
  have h₂ : ∀ f ∈ [(4, (sysmanOff sysman ms : Int)), (4, (sysman.length : Int))],
      SignManifest.Passt f.1 f.2 := by
    simp only [List.forall_mem_cons]
    exact ⟨passt_natCast hoff, passt_natCast hsys, fun _ hx => absurd hx List.not_mem_nil⟩
  have hnull : List.replicate (headerLen + ms.length * entryLen) (0 : UInt8) =
      [] ++ (List.replicate (headerLen + ms.length * entryLen) 0 ++ []) := by simp
  have htotal : headerLen + ms.length * entryLen + (nutzlast ms ++ sysman).length =
      archivLen sysman ms := by
    rw [List.length_append, archivLen]
    omega
  have hzeilen : ms.zip (spannenAb (headerLen + ms.length * entryLen + 0) ms) = zeilen ms := rfl
  have hsysoff : (if sysman.isEmpty then 0
      else headerLen + ms.length * entryLen + (nutzlast ms).length) = sysmanOff sysman ms := rfl
  have hnil : (0 : Nat) = ([] : List UInt8).length := rfl
  unfold mkarchive
  simp only [spannen_eq, List.nil_append, List.length_nil, htotal, hzeilen, hsysoff]
  rw [hnull, packInto_of_passt (k := 16 + ms.length * entryLen) h₁ hnil
    (by simp [headerLen]; omega), Option.bind_eq_bind, Option.bind_some,
    packInto_of_passt (k := 8 + ms.length * entryLen) h₂ (by simp) (by simp; omega),
    Option.bind_some, append_zeros (m := 8) rfl, List.append_nil, ← zeilen_length ms,
    tabelleSchreiben_eq hes (by simp [headerLen]), Option.bind_some]
  simp [archivBytes, kopf]

theorem felderLesen_eintragBytes {s : Spanne} (hm : m.Passt) (hs : SpannePasst s) :
    felderLesen (eintragBytes m s) = some (⟨m.programId.toNat, nameFeld m, m.version.toNat,
      m.domain.toNat, List.replicate 32 0, [], [], []⟩, s) := by
  have hlen := felder_lengths m s
  have hname : slice (eintragBytes m s) 0 16 = some (nameFeld m) :=
    slice_flatten (k := 0) rfl rfl (nameFeld_length m).symm
  have hhash : slice (eintragBytes m s) 48 32 = some (List.replicate 32 0) := by
    apply slice_flatten (k := 9) rfl _ (by simp)
    rw [List.map_take, hlen]
    rfl
  have hpid : rdU32 (eintragBytes m s) 16 = some m.programId.toNat :=
    feld_flatten (k := 1) rfl (by rw [hlen]; rfl) hm.programId
  have hver : rdU32 (eintragBytes m s) 20 = some m.version.toNat :=
    feld_flatten (k := 2) rfl (by rw [hlen]; rfl) hm.version
  have hdom : rdU32 (eintragBytes m s) 24 = some m.domain.toNat :=
    feld_flatten (k := 3) rfl (by rw [hlen]; rfl) hm.domain
  have hbo : rdU32 (eintragBytes m s) 32 = some s.blobOff :=
    feld_flatten (k := 5) rfl (by rw [hlen]; rfl) (passt_natCast hs.blobOff)
  have hbl : rdU32 (eintragBytes m s) 36 = some s.blobLen :=
    feld_flatten (k := 6) rfl (by rw [hlen]; rfl) (passt_natCast hs.blobLen)
  have hmo : rdU32 (eintragBytes m s) 40 = some s.manOff :=
    feld_flatten (k := 7) rfl (by rw [hlen]; rfl) (passt_natCast hs.manOff)
  have hml : rdU32 (eintragBytes m s) 44 = some s.manLen :=
    feld_flatten (k := 8) rfl (by rw [hlen]; rfl) (passt_natCast hs.manLen)
  have hco : rdU32 (eintragBytes m s) 80 = some s.certOff :=
    feld_flatten (k := 10) rfl (by rw [hlen]; rfl) (passt_natCast hs.certOff)
  have hcl : rdU32 (eintragBytes m s) 84 = some s.certLen :=
    feld_flatten (k := 11) rfl (by rw [hlen]; rfl) (passt_natCast hs.certLen)
  simp only [felderLesen, hname, hhash, hpid, hver, hdom, hbo, hbl, hmo, hml, hco, hcl,
    Option.bind_eq_bind, Option.bind_some]
  rfl

def Modul.gelesen (m : Modul) : Program :=
  ⟨m.programId.toNat, nameFeld m, m.version.toNat, m.domain.toNat, List.replicate 32 0, m.blob,
    m.manifest, m.cert⟩

theorem sliceWithin_eq {data x : List UInt8} {off len : Nat} (h : slice data off len = some x)
    (hlen : off + len < 2 ^ 64) : sliceWithin data off len = .ok x := by
  rw [sliceWithin, checkedAdd_eq hlen, h]
  rfl

theorem eintrag_slice (hm : ms[i]? = some m) :
    slice (archivBytes sysman ms) (headerLen + i * entryLen) entryLen =
      some (eintragBytes m (m.spanne (anfang ms i))) := by
  have hz := zeilen_getElem? hm
  have hlt : i < (zeilen ms).length := (List.getElem?_eq_some_iff.mp hz).1
  have hrow : (tabelle (zeilen ms)) = tabelle ((zeilen ms).take i) ++
      (eintragBytes m (m.spanne (anfang ms i)) ++ tabelle ((zeilen ms).drop (i + 1))) := by
    have hget : (zeilen ms)[i] = (m, m.spanne (anfang ms i)) := by
      rw [List.getElem?_eq_getElem hlt] at hz
      exact Option.some.inj hz
    have hdrop := List.drop_eq_getElem_cons hlt
    rw [hget] at hdrop
    have hsplit := congrArg tabelle ((List.take_append_drop i (zeilen ms)).symm.trans
      (congrArg ((zeilen ms).take i ++ ·) hdrop))
    simpa [tabelle] using hsplit
  refine slice_append (p := (kopf ms.length (archivLen sysman ms) (sysmanOff sysman ms)
      sysman.length).flatten ++ tabelle ((zeilen ms).take i))
    (r := tabelle ((zeilen ms).drop (i + 1)) ++ (nutzlast ms ++ sysman)) ?_ ?_ ?_
  · rw [archivBytes, hrow]
    simp only [List.append_assoc]
  · rw [List.length_append, kopf_length, tabelle_length, List.length_take,
      Nat.min_eq_left hlt.le, headerLen]
  · rw [eintragBytes_length]

theorem teile_slice (sysman : List UInt8) (hm : ms[i]? = some m) :
    slice (archivBytes sysman ms) (anfang ms i) m.blob.length = some m.blob ∧
      slice (archivBytes sysman ms) (anfang ms i + m.blob.length) m.manifest.length =
        some m.manifest ∧
      slice (archivBytes sysman ms) (anfang ms i + m.blob.length + m.manifest.length)
        m.cert.length = some m.cert := by
  let vor := (kopf ms.length (archivLen sysman ms) (sysmanOff sysman ms)
    sysman.length).flatten ++ (tabelle (zeilen ms) ++ nutzlast (ms.take i))
  have hvor : vor.length = anfang ms i := by
    simp only [vor, List.length_append, kopf_length, tabelle_length, zeilen_length, anfang,
      headerLen]
    omega
  have hall : archivBytes sysman ms =
      vor ++ (m.blob ++ (m.manifest ++ (m.cert ++ (nutzlast (ms.drop (i + 1)) ++ sysman)))) := by
    rw [archivBytes, nutzlast_split hm]
    simp only [vor, Modul.nutzlast, List.append_assoc]
  refine ⟨slice_append hall hvor.symm rfl, ?_, ?_⟩
  · refine slice_append (p := vor ++ m.blob)
      (r := m.cert ++ (nutzlast (ms.drop (i + 1)) ++ sysman)) ?_ ?_ rfl
    · rw [hall]
      simp only [List.append_assoc]
    · rw [List.length_append, hvor]
  · refine slice_append (p := vor ++ m.blob ++ m.manifest)
      (r := nutzlast (ms.drop (i + 1)) ++ sysman) ?_ ?_ rfl
    · rw [hall]
      simp only [List.append_assoc]
    · rw [List.length_append, List.length_append, hvor]

theorem parseProgram_archivBytes (hm : ms[i]? = some m) (hp : m.Passt)
    (hlen : archivLen sysman ms < 2 ^ 32) :
    (⟨archivBytes sysman ms, ms.length, sysman⟩ : Archiv).parseProgram i =
      some (.ok m.gelesen) := by
  have hi : i < ms.length := (List.getElem?_eq_some_iff.mp hm).1
  have hspan := spanne_passt hm hlen
  obtain ⟨hblob, hman, hcert⟩ := teile_slice sysman hm
  have hle := anfang_le sysman hm
  rw [Modul.nutzlast, List.length_append, List.length_append] at hle
  unfold Archiv.parseProgram
  simp only [if_neg (Nat.not_le.mpr hi), eintrag_slice hm, felderLesen_eintragBytes hp hspan,
    Option.map_some]
  simp only [Archiv.teileLesen, Modul.spanne]
  rw [sliceWithin_eq hblob (by omega), sliceWithin_eq hman (by omega),
    sliceWithin_eq hcert (by omega)]
  rfl

theorem rdU32_kopf {k off v : Nat} (hv : v < 2 ^ 32)
    (hk : (kopf ms.length (archivLen sysman ms) (sysmanOff sysman ms) sysman.length ++
      [tabelle (zeilen ms) ++ (nutzlast ms ++ sysman)])[k]? = some (feld 4 v))
    (hoff : off = (([4, 4, 4, 4, 4, 4, 8] : List Nat).take k).sum) (hk' : k ≤ 6) :
    rdU32 (archivBytes sysman ms) off = some v := by
  have hall : archivBytes sysman ms =
      (kopf ms.length (archivLen sysman ms) (sysmanOff sysman ms) sysman.length ++
        [tabelle (zeilen ms) ++ (nutzlast ms ++ sysman)]).flatten := by
    simp [archivBytes]
  rw [hall, rdU32, feld_flatten hk _ (passt_natCast hv), Int.toNat_natCast]
  have hlens := kopf_lengths ms.length (archivLen sysman ms) (sysmanOff sysman ms) sysman.length
  rw [hoff, List.map_append, hlens, List.take_append_of_le_length (by simp; omega)]

theorem kopfPruefen_archivBytes (hlen : archivLen sysman ms < 2 ^ 32) :
    kopfPruefen (archivBytes sysman ms) = .ok (ms.length, archivLen sysman ms) := by
  have htab : headerLen + ms.length * entryLen ≤ archivLen sysman ms := by
    rw [archivLen]
    omega
  have hcount : ms.length < 2 ^ 32 := by
    rw [entryLen] at htab
    omega
  have hm : rdU32 (archivBytes sysman ms) 0 = some magic :=
    rdU32_kopf (k := 0) (by decide) rfl rfl (by decide)
  have hv : rdU32 (archivBytes sysman ms) 4 = some version :=
    rdU32_kopf (k := 1) (by decide) rfl rfl (by decide)
  have hc : rdU32 (archivBytes sysman ms) 8 = some ms.length :=
    rdU32_kopf (k := 2) hcount rfl rfl (by decide)
  have ht : rdU32 (archivBytes sysman ms) 12 = some (archivLen sysman ms) :=
    rdU32_kopf (k := 3) hlen rfl rfl (by decide)
  have hsize : ¬ archivLen sysman ms < headerLen := by omega
  have hend : checkedAdd (ms.length * entryLen) headerLen =
      some (ms.length * entryLen + headerLen) := checkedAdd_eq (by omega)
  simp only [kopfPruefen, hm, hv, hc, ht, archivBytes_length, okOr, Except.bind,
    checkedMul_eq (show ms.length * entryLen < 2 ^ 64 by omega), Option.bind_some, hend]
  rw [if_neg hsize, if_neg (fun h => h rfl), if_neg (fun h => h rfl), if_neg (Nat.lt_irrefl _),
    if_neg (by omega)]

theorem sysmanLesen_archivBytes (hlen : archivLen sysman ms < 2 ^ 32) :
    sysmanLesen (archivBytes sysman ms) (archivBytes sysman ms) = .ok sysman := by
  have hlens : sysman.length < 2 ^ 32 := by
    rw [archivLen] at hlen
    omega
  have hoff : sysmanOff sysman ms < 2 ^ 32 := by
    rw [archivLen] at hlen
    rw [sysmanOff]
    split <;> omega
  have ho : rdU32 (archivBytes sysman ms) 16 = some (sysmanOff sysman ms) :=
    rdU32_kopf (k := 4) hoff rfl rfl (by decide)
  have hl : rdU32 (archivBytes sysman ms) 20 = some sysman.length :=
    rdU32_kopf (k := 5) hlens rfl rfl (by decide)
  have hs : slice (archivBytes sysman ms) (sysmanOff sysman ms) sysman.length = some sysman := by
    cases sysman with
    | nil => simp [slice, sysmanOff]
    | cons b bs =>
      refine slice_append (p := (kopf ms.length (archivLen (b :: bs) ms) (sysmanOff (b :: bs) ms)
        (b :: bs).length).flatten ++ (tabelle (zeilen ms) ++ nutzlast ms)) (r := []) ?_ ?_ rfl
      · simp [archivBytes]
      · simp only [List.length_append, kopf_length, tabelle_length, zeilen_length, sysmanOff,
          headerLen, List.isEmpty_cons, Bool.false_eq_true, if_false]
        omega
  simp only [sysmanLesen, ho, hl, okOr, Except.bind]
  exact sliceWithin_eq hs (by omega)

theorem parse_archivBytes (hms : ∀ m ∈ ms, m.Passt) (hlen : archivLen sysman ms < 2 ^ 32) :
    parse (archivBytes sysman ms) = some (.ok ⟨archivBytes sysman ms, ms.length, sysman⟩) := by
  have hbody : slice (archivBytes sysman ms) 0 (archivLen sysman ms) =
      some (archivBytes sysman ms) := (slice_all (archivBytes_length sysman ms)).mpr rfl |>.2
  have hall : (⟨archivBytes sysman ms, ms.length, sysman⟩ : Archiv).alleParsen
      (List.range ms.length) = some (.ok ()) := by
    refine (Archiv.alleParsen_eq_ok _ _).mpr fun j hj => ?_
    have hlt : j < ms.length := List.mem_range.mp hj
    have hget : ms[j]? = some ms[j] := List.getElem?_eq_getElem hlt
    exact ⟨_, parseProgram_archivBytes hget (hms _ (List.getElem_mem hlt)) hlen⟩
  simp only [parse, kopfPruefen_archivBytes hlen, hbody, Option.bind_some,
    sysmanLesen_archivBytes hlen, hall, Option.map_some]
  rfl

theorem fromUTF8?_encode (name : String) :
    String.fromUTF8? (encode name).toByteArray = some name := by
  have hback : (encode name).toByteArray = name.toByteArray := by
    apply ByteArray.ext
    simp [encode]
  rw [hback, String.fromUTF8?, dif_pos name.isValidUTF8]
  rfl

theorem gelesen_name (hlen : (encode m.name).length ≤ 16) (hnull : 0 ∉ encode m.name) :
    m.gelesen.name = m.name := by
  have hfeld : (nameFeld m).takeWhile (fun c => c ≠ 0) = encode m.name := by
    rw [nameFeld, List.take_of_length_le hlen, List.takeWhile_append_of_pos]
    · cases h : 16 - (encode m.name).length with
      | zero => simp
      | succ k => simp [List.replicate_succ]
    · intro c hc
      exact decide_eq_true fun h0 => hnull (h0 ▸ hc)
  have hname : m.gelesen.nameFeld = nameFeld m := rfl
  rw [Program.name, hname, hfeld, fromUTF8?_encode, Option.getD_some]

theorem name_length_le {p : Program} (hp : p.nameFeld.length = 16) :
    (encode p.name).length ≤ 16 := by
  have hshort := (List.takeWhile_sublist (l := p.nameFeld) fun c => decide (c ≠ 0)).length_le
  unfold Program.name
  cases h : String.fromUTF8? (p.nameFeld.takeWhile fun c => c ≠ 0).toByteArray with
  | none => decide
  | some t =>
    have ht : t.toByteArray = (p.nameFeld.takeWhile fun c => c ≠ 0).toByteArray := by
      unfold String.fromUTF8? at h
      split at h
      · cases h
        rfl
      · cases h
    rw [Option.getD_some, encode, ht]
    simp only [List.data_toByteArray]
    omega

/-- The program carries the fields and the bytes of the module, and of the name what its field
holds. -/
structure Wiedergegeben (m : Modul) (p : Program) : Prop where
  programId : (p.programId : Int) = m.programId
  version : (p.version : Int) = m.version
  domain : (p.domain : Int) = m.domain
  elf : p.elf = m.blob
  manifest : p.manifest = m.manifest
  cert : p.cert = m.cert
  nameFeld : p.nameFeld = nameFeld m
  name : (encode m.name).length ≤ 16 → 0 ∉ encode m.name → p.name = m.name

theorem wiedergegeben_gelesen (hm : m.Passt) : Wiedergegeben m m.gelesen where
  programId := Int.toNat_of_nonneg hm.programId.1
  version := Int.toNat_of_nonneg hm.version.1
  domain := Int.toNat_of_nonneg hm.domain.1
  elf := rfl
  manifest := rfl
  cert := rfl
  nameFeld := rfl
  name := gelesen_name

theorem program_archivBytes (hm : ms[i]? = some m) (hp : m.Passt)
    (hlen : archivLen sysman ms < 2 ^ 32) :
    (⟨archivBytes sysman ms, ms.length, sysman⟩ : Archiv).program i = some (some m.gelesen) := by
  rw [Archiv.program, parseProgram_archivBytes hm hp hlen]
  rfl

/-- What the tool writes comes back, up to the name's field; and the parser accepts nothing whose
programs it could not reach, and reads nothing outside the buffer. -/
theorem archive_round_trip :
    (∀ (sysman : List UInt8) (ms : List Modul), (∀ m ∈ ms, m.Passt) →
      archivLen sysman ms < 2 ^ 32 →
      ∃ out a, mkarchive sysman ms = some out ∧ parse out = some (.ok a) ∧
        a.count = ms.length ∧ a.systemManifest = sysman ∧
        ∀ (i : Nat) (m : Modul), ms[i]? = some m →
          ∃ p, a.program i = some (some p) ∧ Wiedergegeben m p) ∧
    (∀ data, ∃ r, parse data = some r) ∧
    ∀ data a, parse data = some (.ok a) →
      ∀ i < a.count, ∃ p, a.program i = some (some p) ∧ p.ImPuffer data := by
  refine ⟨?_, parse_isSome, fun data a h i hi => program_of_parse h hi⟩
  intro sysman ms hms hlen
  refine ⟨_, _, mkarchive_eq hms hlen, parse_archivBytes hms hlen, rfl, rfl, ?_⟩
  intro i m hm
  have hp := hms m (List.mem_of_getElem? hm)
  exact ⟨m.gelesen, program_archivBytes hm hp hlen, wiedergegeben_gelesen hp⟩

def langerName : Modul := ⟨1, "abcdefghijklmnopq", 1, 2, [0x7F], [], []⟩

theorem langerName_passt : langerName.Passt := ⟨by decide, by decide, by decide⟩

theorem archive_round_trip_two_programs :
    ∃ out a, mkarchive [1, 2] [⟨7, "hello", 1, 2, [0x7F, 0x45], [3], []⟩, langerName] = some out ∧
      parse out = some (.ok a) ∧ a.systemManifest = [1, 2] ∧
      (∃ p, a.program 0 = some (some p) ∧ p.elf = [0x7F, 0x45]) ∧
      ∃ p, a.program 1 = some (some p) ∧ p.ImPuffer out := by
  have hms : ∀ m ∈ [⟨7, "hello", 1, 2, [0x7F, 0x45], [3], []⟩, langerName], m.Passt := by
    intro m hm
    rcases List.mem_pair.mp hm with rfl | rfl
    · exact ⟨by decide, by decide, by decide⟩
    · exact langerName_passt
  obtain ⟨hround, -, hreach⟩ := archive_round_trip
  obtain ⟨out, a, hout, hparse, hcount, hsys, hprog⟩ := hround [1, 2] _ hms (by decide)
  obtain ⟨p, hp, hw⟩ := hprog 0 _ rfl
  have hone : 1 < a.count := by
    rw [hcount]
    decide
  exact ⟨out, a, hout, hparse, hsys, ⟨p, hp, hw.elf⟩, hreach out a hparse 1 hone⟩

/-- The long name does not come back. -/
theorem mkarchive_cuts_long_name :
    ∃ out a p, mkarchive [] [langerName] = some out ∧ parse out = some (.ok a) ∧
      a.program 0 = some (some p) ∧ p.name ≠ langerName.name := by
  have hms : ∀ m ∈ [langerName], m.Passt := by
    intro m hm
    obtain rfl := List.mem_singleton.mp hm
    exact langerName_passt
  have hlen : archivLen [] [langerName] < 2 ^ 32 := by decide
  refine ⟨_, _, _, mkarchive_eq hms hlen, parse_archivBytes hms hlen,
    program_archivBytes rfl langerName_passt hlen, fun heq => ?_⟩
  have hfeld : langerName.gelesen.nameFeld.length = 16 := nameFeld_length langerName
  have hshort := name_length_le hfeld
  have hlong : (encode langerName.name).length = 17 := by decide
  rw [heq, hlong] at hshort
  omega

end Mkarchive

end Caprock.Loader.Archive
