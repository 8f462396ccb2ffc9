import Caprock.Lib.Checks
import Caprock.Lib.Word
import Caprock.Loader.Manifest

/-! # The boot archive as the kernel reads it

`parse` checks the header, the table and every entry of it; after that a program is reached by its
index and cannot fail.  Reads through `get` give `none` and are refused, reads by index are panics
and give `none` on the outside.
-/

namespace Caprock.Loader.Archive

open Bytes Checks Word
open Manifest (rdU32 rdU32_isSome)

def magic : Nat := 0x534C4B41
def version : Nat := 3
def headerLen : Nat := 32
def entryLen : Nat := 96

/-- The refusals of this parser. -/
inductive LoaderError where
  | tooSmall
  | badMagic
  | badVersion
  | badCount
  | outOfBounds
  deriving DecidableEq, Repr

structure Program where
  programId : Nat
  nameFeld : List UInt8
  version : Nat
  domain : Nat
  hash : List UInt8
  elf : List UInt8
  manifest : List UInt8
  cert : List UInt8
  deriving DecidableEq, Repr

/-- `name`: up to the first zero; what is not UTF-8 is `"?"`. -/
def Program.name (p : Program) : String :=
  (String.fromUTF8? (p.nameFeld.takeWhile fun c => c ≠ 0).toByteArray).getD "?"

def sliceWithin (data : List UInt8) (off len : Nat) : Except LoaderError (List UInt8) :=
  (okOr .outOfBounds (checkedAdd off len)).bind fun _ => okOr .outOfBounds (slice data off len)

/-- `Archive`. -/
structure Archiv where
  data : List UInt8
  count : Nat
  sysman : List UInt8
  deriving DecidableEq, Repr

/-- The spans of an entry: program, manifest and certificate, each as offset and length. -/
structure Spanne where
  blobOff : Nat
  blobLen : Nat
  manOff : Nat
  manLen : Nat
  certOff : Nat
  certLen : Nat
  deriving DecidableEq, Repr

def felderLesen (e : List UInt8) : Option (Program × Spanne) := do
  let name ← slice e 0 16
  let programId ← rdU32 e 16
  let version ← rdU32 e 20
  let domain ← rdU32 e 24
  let blobOff ← rdU32 e 32
  let blobLen ← rdU32 e 36
  let manOff ← rdU32 e 40
  let manLen ← rdU32 e 44
  let hash ← slice e 48 32
  let certOff ← rdU32 e 80
  let certLen ← rdU32 e 84
  return (⟨programId, name, version, domain, hash, [], [], []⟩,
    ⟨blobOff, blobLen, manOff, manLen, certOff, certLen⟩)

namespace Archiv

def teileLesen (a : Archiv) (p : Program) (s : Spanne) : Except LoaderError Program :=
  (sliceWithin a.data s.blobOff s.blobLen).bind fun elf =>
  (sliceWithin a.data s.manOff s.manLen).bind fun manifest =>
  (sliceWithin a.data s.certOff s.certLen).bind fun cert =>
  .ok { p with elf := elf, manifest := manifest, cert := cert }

def parseProgram (a : Archiv) (i : Nat) : Option (Except LoaderError Program) :=
  if a.count ≤ i then some (.error .outOfBounds)
  else
    match slice a.data (headerLen + i * entryLen) entryLen with
    | none => some (.error .outOfBounds)
    | some e => (felderLesen e).map fun r => a.teileLesen r.1 r.2

/-- `program`: `None` instead of an error. -/
def program (a : Archiv) (i : Nat) : Option (Option Program) :=
  (a.parseProgram i).map Except.toOption

def systemManifest (a : Archiv) : List UInt8 := a.sysman

/-- The loop of `parse` over the entries; the first refusal ends it. -/
def alleParsen (a : Archiv) : List Nat → Option (Except LoaderError Unit)
  | [] => some (.ok ())
  | i :: is =>
      (a.parseProgram i).bind fun r =>
        match r with
        | .error e => some (.error e)
        | .ok _ => a.alleParsen is

end Archiv

/-- The header: the number of entries and the length of the archive. -/
def kopfPruefen (data : List UInt8) : Except LoaderError (Nat × Nat) :=
  if data.length < headerLen then .error .tooSmall
  else
    (okOr .tooSmall (rdU32 data 0)).bind fun m =>
    if m ≠ magic then .error .badMagic
    else
      (okOr .tooSmall (rdU32 data 4)).bind fun v =>
      if v ≠ version then .error .badVersion
      else
        (okOr .tooSmall (rdU32 data 8)).bind fun count =>
        (okOr .tooSmall (rdU32 data 12)).bind fun totalLen =>
        if data.length < totalLen then .error .outOfBounds
        else
          (okOr .badCount ((checkedMul count entryLen).bind fun t => checkedAdd t headerLen)).bind
            fun tableEnd => if totalLen < tableEnd then .error .badCount else .ok (count, totalLen)

def sysmanLesen (data body : List UInt8) : Except LoaderError (List UInt8) :=
  (okOr .tooSmall (rdU32 data 16)).bind fun off =>
  (okOr .tooSmall (rdU32 data 20)).bind fun len => sliceWithin body off len

def parse (data : List UInt8) : Option (Except LoaderError Archiv) :=
  match kopfPruefen data with
  | .error e => some (.error e)
  | .ok (count, totalLen) =>
      (slice data 0 totalLen).bind fun body =>
        match sysmanLesen data body with
        | .error e => some (.error e)
        | .ok sysman =>
            let a : Archiv := ⟨body, count, sysman⟩
            (a.alleParsen (List.range count)).map fun r => r.map fun _ => a

theorem felderLesen_isSome {e : List UInt8} (he : e.length = entryLen) :
    ∃ r, felderLesen e = some r := by
  have hlen : ∀ off n, off + n ≤ 96 → off + n ≤ e.length := by
    intro off n h
    rw [he]
    exact h
  obtain ⟨name, hname⟩ := exists_slice _ _ _ (hlen 0 16 (by decide))
  obtain ⟨pid, hpid⟩ := rdU32_isSome _ _ (hlen 16 4 (by decide))
  obtain ⟨ver, hver⟩ := rdU32_isSome _ _ (hlen 20 4 (by decide))
  obtain ⟨dom, hdom⟩ := rdU32_isSome _ _ (hlen 24 4 (by decide))
  obtain ⟨bo, hbo⟩ := rdU32_isSome _ _ (hlen 32 4 (by decide))
  obtain ⟨bl, hbl⟩ := rdU32_isSome _ _ (hlen 36 4 (by decide))
  obtain ⟨mo, hmo⟩ := rdU32_isSome _ _ (hlen 40 4 (by decide))
  obtain ⟨ml, hml⟩ := rdU32_isSome _ _ (hlen 44 4 (by decide))
  obtain ⟨hash, hhash⟩ := exists_slice _ _ _ (hlen 48 32 (by decide))
  obtain ⟨co, hco⟩ := rdU32_isSome _ _ (hlen 80 4 (by decide))
  obtain ⟨cl, hcl⟩ := rdU32_isSome _ _ (hlen 84 4 (by decide))
  exact ⟨_, by
    simp only [felderLesen, hname, hpid, hver, hdom, hbo, hbl, hmo, hml, hhash, hco, hcl,
      Option.bind_eq_bind, Option.bind_some]
    rfl⟩

namespace Archiv

theorem parseProgram_isSome (a : Archiv) (i : Nat) : ∃ r, a.parseProgram i = some r := by
  unfold parseProgram
  by_cases hi : a.count ≤ i
  · exact ⟨_, if_pos hi⟩
  · rw [if_neg hi]
    cases he : slice a.data (headerLen + i * entryLen) entryLen with
    | none => exact ⟨_, rfl⟩
    | some e =>
      obtain ⟨r, hr⟩ := felderLesen_isSome (slice_length he)
      exact ⟨_, by simp only [hr, Option.map_some]; rfl⟩

theorem alleParsen_isSome (a : Archiv) (is : List Nat) : ∃ r, a.alleParsen is = some r := by
  induction is with
  | nil => exact ⟨_, rfl⟩
  | cons i is ih =>
    obtain ⟨r, hr⟩ := a.parseProgram_isSome i
    unfold alleParsen
    rw [hr, Option.bind_some]
    cases r with
    | error e => exact ⟨_, rfl⟩
    | ok p => exact ih

theorem alleParsen_eq_ok (a : Archiv) (is : List Nat) :
    a.alleParsen is = some (.ok ()) ↔ ∀ i ∈ is, ∃ p, a.parseProgram i = some (.ok p) := by
  induction is with
  | nil => simp [alleParsen]
  | cons i is ih =>
    obtain ⟨r, hr⟩ := a.parseProgram_isSome i
    unfold alleParsen
    rw [hr, Option.bind_some, List.forall_mem_cons, ← ih]
    cases r with
    | error e => simp [hr]
    | ok p => simp [hr]

end Archiv

theorem kopfPruefen_eq_ok {data : List UInt8} {count totalLen : Nat}
    (h : kopfPruefen data = .ok (count, totalLen)) :
    totalLen ≤ data.length ∧ headerLen + count * entryLen ≤ totalLen := by
  simp only [kopfPruefen, ite_error_eq_ok, bind_eq_ok, okOr_eq_ok, Option.bind_eq_some_iff,
    Except.ok.injEq, Prod.mk.injEq] at h
  obtain ⟨-, m, -, -, v, -, -, c, -, t, -, hlen, e, ⟨x, hx, he⟩, hle, rfl, rfl⟩ := h
  obtain ⟨-, rfl⟩ := checkedMul_eq_some.mp hx
  obtain ⟨-, rfl⟩ := checkedAdd_eq_some.mp he
  omega

theorem parse_isSome (data : List UInt8) : ∃ r, parse data = some r := by
  unfold parse
  cases hk : kopfPruefen data with
  | error e => exact ⟨_, rfl⟩
  | ok k =>
    obtain ⟨count, totalLen⟩ := k
    obtain ⟨body, hbody⟩ : ∃ x, slice data 0 totalLen = some x :=
      exists_slice _ _ _ (by rw [Nat.zero_add]; exact (kopfPruefen_eq_ok hk).1)
    simp only [hbody, Option.bind_some]
    cases hs : sysmanLesen data body with
    | error e => exact ⟨_, rfl⟩
    | ok sysman =>
      obtain ⟨r, hr⟩ := Archiv.alleParsen_isSome ⟨body, count, sysman⟩ (List.range count)
      exact ⟨_, by simp only [hr, Option.map_some]; rfl⟩

/-- An accepted archive: a prefix of the buffer whose entries were all accepted. -/
theorem parse_eq_ok {data : List UInt8} {a : Archiv} (h : parse data = some (.ok a)) :
    (∃ totalLen, slice data 0 totalLen = some a.data) ∧
      (∀ i < a.count, ∃ p, a.parseProgram i = some (.ok p)) ∧
      ∃ off len, slice a.data off len = some a.sysman := by
  unfold parse at h
  cases hk : kopfPruefen data with
  | error e => simp [hk] at h
  | ok k =>
    obtain ⟨count, totalLen⟩ := k
    simp only [hk] at h
    obtain ⟨body, hbody, h⟩ := Option.bind_eq_some_iff.mp h
    cases hs : sysmanLesen data body with
    | error e => simp [hs] at h
    | ok sysman =>
      obtain ⟨r, hr⟩ := Archiv.alleParsen_isSome ⟨body, count, sysman⟩ (List.range count)
      simp only [hs, hr, Option.map_some, Option.some.injEq] at h
      cases r with
      | error e => cases h
      | ok u =>
        cases h
        refine ⟨⟨totalLen, hbody⟩, ?_, ?_⟩
        · intro i hi
          exact (Archiv.alleParsen_eq_ok _ _).mp hr i (List.mem_range.mpr hi)
        · simp only [sysmanLesen, sliceWithin, bind_eq_ok, okOr_eq_ok] at hs
          obtain ⟨off, -, len, -, -, -, hsl⟩ := hs
          exact ⟨off, len, hsl⟩

structure Program.ImPuffer (p : Program) (data : List UInt8) : Prop where
  elf : ∃ off len, slice data off len = some p.elf
  manifest : ∃ off len, slice data off len = some p.manifest
  cert : ∃ off len, slice data off len = some p.cert

theorem slice_prefix {data body x : List UInt8} {t off n : Nat} (hbody : slice data 0 t = some body)
    (hx : slice body off n = some x) : slice data off n = some x := by
  have hlen := slice_length hbody
  have hle := slice_le hbody
  have hin := slice_le hx
  rw [slice, if_pos hle, List.drop_zero, Option.some.injEq] at hbody
  subst hbody
  rw [slice, if_pos hin, Option.some.injEq] at hx
  rw [slice, if_pos (by omega), ← hx, List.drop_take, List.take_take, Nat.min_eq_left (by omega)]

theorem sliceWithin_eq_ok {data x : List UInt8} {off len : Nat}
    (h : sliceWithin data off len = .ok x) : slice data off len = some x := by
  simp only [sliceWithin, bind_eq_ok, okOr_eq_ok] at h
  obtain ⟨-, -, hx⟩ := h
  exact hx

theorem program_of_parse {data : List UInt8} {a : Archiv} (h : parse data = some (.ok a)) {i : Nat}
    (hi : i < a.count) : ∃ p, a.program i = some (some p) ∧ p.ImPuffer data := by
  obtain ⟨⟨t, hbody⟩, hall, -⟩ := parse_eq_ok h
  obtain ⟨p, hp⟩ := hall i hi
  refine ⟨p, by rw [Archiv.program, hp]; rfl, ?_⟩
  unfold Archiv.parseProgram at hp
  rw [if_neg (Nat.not_le.mpr hi)] at hp
  cases he : slice a.data (headerLen + i * entryLen) entryLen with
  | none => simp [he] at hp
  | some e =>
    simp only [he, Option.map_eq_some_iff] at hp
    obtain ⟨r, -, hr⟩ := hp
    simp only [Archiv.teileLesen, bind_eq_ok, Except.ok.injEq] at hr
    obtain ⟨elf, helf, man, hman, cert, hcert, rfl⟩ := hr
    exact ⟨⟨_, _, slice_prefix hbody (sliceWithin_eq_ok helf)⟩,
      ⟨_, _, slice_prefix hbody (sliceWithin_eq_ok hman)⟩,
      ⟨_, _, slice_prefix hbody (sliceWithin_eq_ok hcert)⟩⟩

end Caprock.Loader.Archive
