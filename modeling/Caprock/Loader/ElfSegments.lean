import Caprock.Loader.Elf
import Caprock.Lib.Panic

/-! # The segments of an image

`ElfImage.parse` once more, with every index and every unchecked operation as a place that may
panic: no byte string reaches one.  What the parser accepts is then compared with the program
headers as they lie in the file: the segments are those that are to be loaded, in their order.
-/

namespace Caprock.Loader.Elf

open Bytes Word Checks Panic

def eiNident : Nat := 16

def u32Call (p : List UInt8) (off : Nat) : Call LoaderError Nat :=
  (reads p off 4).bind fun x => .ok (leNat x)

namespace ElfImage

def parsePhdrCall (img : ElfImage) (i : Nat) : Call LoaderError (Option Segment) :=
  (mul 64 i phdrLen).bind fun weit =>
  (add 64 img.phoff weit).bind fun base =>
  (add 64 base phdrLen).bind fun hinten =>
  (quiet (okOr .outOfBounds (slice img.data base (hinten - base)))).bind fun p =>
  (u32Call p 0).bind fun pType =>
  if pType ≠ ptLoad then .ok none
  else
    (u32Call p 4).bind fun flags =>
    (quiet (okOr .outOfBounds (rdU64 p 8))).bind fun offset =>
    (quiet (okOr .outOfBounds (rdU64 p 16))).bind fun vaddr =>
    (quiet (okOr .outOfBounds (rdU64 p 32))).bind fun filesz =>
    (quiet (okOr .outOfBounds (rdU64 p 40))).bind fun memsz =>
    if vaddr % pageSize ≠ 0 then .error (.err (.unalignedSegment vaddr))
    else if memsz < filesz then .error (.err .badElf)
    else
      (quiet (okOr .outOfBounds (checkedAdd offset filesz))).bind fun ende =>
      if img.data.length < ende then .error (.err .outOfBounds)
      else .ok (some ⟨vaddr, offset, filesz, memsz, flags⟩)

def phdrsPruefenCall (img : ElfImage) : Nat → Nat → Call LoaderError Unit
  | 0, _ => .ok ()
  | rest + 1, i => (img.parsePhdrCall i).bind fun _ => phdrsPruefenCall img rest (i + 1)

def parseCall (expectedMachine : Nat) (data : List UInt8) : Call LoaderError ElfImage :=
  if data.length < ehdrLen then .error (.err .tooSmall)
  else
    (range data 0 eiNident).bind fun ident =>
    (range ident 0 4).bind fun magic =>
    if magic ≠ elfMagic then .error (.err .badElf)
    else
      (read ident 4).bind fun klasse =>
      (read ident 5).bind fun ordnung =>
      if klasse ≠ elfclass64 ∨ ordnung ≠ elfdata2lsb then .error (.err .badElf)
      else
        (quiet (okOr .tooSmall (rdU16 data 16))).bind fun eType =>
        (quiet (okOr .tooSmall (rdU16 data 18))).bind fun eMachine =>
        if eType ≠ etExec ∨ eMachine ≠ expectedMachine then .error (.err .badElf)
        else
          (quiet (okOr .tooSmall (rdU64 data 24))).bind fun entry =>
          (quiet (okOr .tooSmall (rdU64 data 32))).bind fun phoff =>
          (quiet (okOr .tooSmall (rdU16 data 54))).bind fun phentsize =>
          (quiet (okOr .tooSmall (rdU16 data 56))).bind fun phnum =>
          if phentsize ≠ phdrLen then .error (.err .badElf)
          else
            (quiet (okOr .outOfBounds ((checkedMul phnum phdrLen).bind fun t =>
              checkedAdd t phoff))).bind fun tableEnd =>
            if data.length < tableEnd then .error (.err .outOfBounds)
            else
              let img : ElfImage := ⟨data, entry, phoff, phnum⟩
              (img.phdrsPruefenCall phnum 0).map fun _ => img

/-- `segments`: what the second pass over the headers yields. -/
def segments (img : ElfImage) : List Segment :=
  (List.range img.phnum).filterMap fun i =>
    match img.parsePhdr i with
    | .ok s => s
    | .error _ => none

def segmentBytes (img : ElfImage) (seg : Segment) : List UInt8 :=
  (slice img.data seg.offset seg.filesz).getD []

end ElfImage

/-- The number in `n` bytes of a file. -/
def feld (data : List UInt8) (off n : Nat) : Nat := leNat ((data.drop off).take n)

structure Phdr where
  pType : Nat
  segment : Segment
  deriving DecidableEq, Repr

def phdrAt (data : List UInt8) (base : Nat) : Phdr where
  pType := feld data base 4
  segment :=
    { flags := feld data (base + 4) 4
      offset := feld data (base + 8) 8
      vaddr := feld data (base + 16) 8
      filesz := feld data (base + 32) 8
      memsz := feld data (base + 40) 8 }

def phdrTabelle (data : List UInt8) : List Phdr :=
  (List.range (feld data 56 2)).map fun i => phdrAt data (feld data 32 8 + i * phdrLen)

theorem slice_feld {b : List UInt8} {off n : Nat} (h : off + n ≤ b.length) :
    (slice b off n).map leNat = some (feld b off n) := by
  rw [slice, if_pos h]
  rfl

theorem feld_slice {b p : List UInt8} {base m off n : Nat} (h : slice b base m = some p)
    (hin : off + n ≤ m) : feld p off n = feld b (base + off) n := by
  rw [slice, if_pos (slice_le h), Option.some.injEq] at h
  subst h
  rw [feld, feld, List.drop_take, List.take_take, List.drop_drop, Nat.min_eq_left (by omega)]

theorem u32Call_eq {p : List UInt8} {off : Nat} (h : off + 4 ≤ p.length) :
    u32Call p off = .ok (feld p off 4) := by
  rw [u32Call, reads_eq h]
  rfl

namespace ElfImage

def TabelleImWort (img : ElfImage) : Prop := img.phnum * phdrLen + img.phoff < 2 ^ 64

variable {img : ElfImage}

theorem parsePhdrCall_eq (h : img.TabelleImWort) {i : Nat} (hi : i < img.phnum) :
    img.parsePhdrCall i = quiet (img.parsePhdr i) := by
  have hend : (i + 1) * phdrLen ≤ img.phnum * phdrLen := Nat.mul_le_mul_right _ hi
  rw [Nat.add_mul, Nat.one_mul] at hend
  unfold TabelleImWort at h
  rw [parsePhdrCall, parsePhdr, mul_bind (by omega), add_bind (by omega), add_bind (by omega),
    Nat.add_sub_cancel_left]
  apply bind_quiet
  intro p hp
  have hlen : p.length = phdrLen := slice_length (okOr_eq_ok.mp hp)
  rw [u32Call_eq (by rw [hlen]; decide), u32Call_eq (by rw [hlen]; decide), rdU32, rdU32,
    slice_feld (by rw [hlen]; decide), slice_feld (by rw [hlen]; decide)]
  change (if feld p 0 4 ≠ ptLoad then _ else _) = quiet (if feld p 0 4 ≠ ptLoad then _ else _)
  by_cases hload : feld p 0 4 ≠ ptLoad
  · rw [if_pos hload, if_pos hload]
    rfl
  · rw [if_neg hload, if_neg hload]
    apply bind_quiet
    intro offset _
    apply bind_quiet
    intro vaddr _
    apply bind_quiet
    intro filesz _
    apply bind_quiet
    intro memsz _
    apply ite_quiet
    intro _
    apply ite_quiet
    intro _
    apply bind_quiet
    intro ende _
    apply ite_quiet
    intro _
    rfl

theorem phdrsPruefenCall_eq (h : img.TabelleImWort) (rest i : Nat) (hi : i + rest ≤ img.phnum) :
    img.phdrsPruefenCall rest i = quiet (img.phdrsPruefen rest i) := by
  induction rest generalizing i with
  | zero => rfl
  | succ rest ih =>
    rw [phdrsPruefenCall, phdrsPruefen, parsePhdrCall_eq h (by omega)]
    apply bind_quiet
    intro _ _
    exact ih (i + 1) (by omega)

theorem kennung_iff {data : List UInt8} (h : 64 ≤ data.length) :
    ((data.take 16).drop 0).take (4 - 0) ≠ elfMagic ↔ slice data 0 4 ≠ some elfMagic := by
  rw [slice, if_pos (by omega), List.drop_zero, List.drop_zero, List.take_take]
  simp

theorem klasse_iff {data : List UInt8} (h : 64 ≤ data.length) :
    (data.take 16).getD 4 0 ≠ elfclass64 ∨ (data.take 16).getD 5 0 ≠ elfdata2lsb ↔
      slice data 4 2 ≠ some [elfclass64, elfdata2lsb] := by
  have hfour : (data.take 16).getD 4 0 = data.getD 4 0 := by simp
  have hfive : (data.take 16).getD 5 0 = data.getD 5 0 := by simp
  rw [slice, if_pos (by omega), take_drop_succ (by omega) 1 0, take_drop_succ (by omega) 0 0,
    List.take_zero, hfour, hfive, ← not_and_or]
  simp

theorem tabelle_imWort {phoff phnum tableEnd : Nat}
    (h : okOr LoaderError.outOfBounds ((checkedMul phnum phdrLen).bind fun t =>
      checkedAdd t phoff) = .ok tableEnd) :
    phnum * phdrLen + phoff < 2 ^ 64 := by
  rw [okOr_eq_ok, Option.bind_eq_some_iff] at h
  obtain ⟨t, ht, hsum⟩ := h
  rw [checkedMul_eq_some] at ht
  rw [checkedAdd_eq_some] at hsum
  rw [← ht.2]
  exact hsum.1

theorem parseCall_eq (expectedMachine : Nat) (data : List UInt8) :
    parseCall expectedMachine data = quiet (parse expectedMachine data) := by
  rw [parseCall, parse]
  apply ite_quiet
  intro hlen
  have h64 : 64 ≤ data.length := Nat.le_of_not_lt hlen
  have hident : (data.drop 0).take (eiNident - 0) = data.take 16 := rfl
  have hilen : (data.take 16).length = 16 := by
    rw [List.length_take]
    omega
  rw [range_bind (by decide) (by unfold eiNident; omega), hident,
    range_bind (by decide) (by omega)]
  apply ite_quiet_of_iff (kennung_iff h64)
  intro _
  rw [read_bind (by omega) 0, read_bind (by omega) 0]
  apply ite_quiet_of_iff (klasse_iff h64)
  intro _
  apply bind_quiet
  intro eType _
  apply bind_quiet
  intro eMachine _
  apply ite_quiet
  intro _
  apply bind_quiet
  intro entry _
  apply bind_quiet
  intro phoff _
  apply bind_quiet
  intro phentsize _
  apply bind_quiet
  intro phnum _
  apply ite_quiet
  intro _
  apply bind_quiet
  intro tableEnd htable
  apply ite_quiet
  intro _
  have hwort : TabelleImWort ⟨data, entry, phoff, phnum⟩ := tabelle_imWort htable
  simp only [phdrsPruefenCall_eq hwort phnum 0 (Nat.le_of_eq (Nat.zero_add _))]
  cases phdrsPruefen ⟨data, entry, phoff, phnum⟩ phnum 0 with
  | error e | ok u => rfl

theorem parsePhdr_eq_ok {i : Nat} {s : Option Segment} (h : img.parsePhdr i = .ok s) :
    img.phoff + i * phdrLen + phdrLen ≤ img.data.length ∧
      s = (if (phdrAt img.data (img.phoff + i * phdrLen)).pType = ptLoad then
        some (phdrAt img.data (img.phoff + i * phdrLen)).segment else none) ∧
      ∀ seg, s = some seg → seg.filesz ≤ seg.memsz ∧ seg.vaddr % pageSize = 0 ∧
        seg.offset + seg.filesz ≤ img.data.length ∧ seg.offset + seg.filesz < 2 ^ 64 := by
  rw [parsePhdr, bind_eq_ok] at h
  obtain ⟨p, hp, h⟩ := h
  rw [okOr_eq_ok] at hp
  have hlen : p.length = 56 := slice_length hp
  have hfeld : ∀ off n, off + n ≤ 56 →
      (slice p off n).map leNat = some (feld img.data (img.phoff + i * phdrLen + off) n) := by
    intro off n hin
    rw [slice_feld (by omega), feld_slice hp hin]
  refine ⟨slice_le hp, ?_⟩
  simp only [rdU32, rdU64, hfeld _ _ (show 0 + 4 ≤ 56 by decide),
    hfeld _ _ (show 4 + 4 ≤ 56 by decide), hfeld _ _ (show 8 + 8 ≤ 56 by decide),
    hfeld _ _ (show 16 + 8 ≤ 56 by decide), hfeld _ _ (show 32 + 8 ≤ 56 by decide),
    hfeld _ _ (show 40 + 8 ≤ 56 by decide), okOr_some_bind, Nat.add_zero] at h
  by_cases hload : feld img.data (img.phoff + i * phdrLen) 4 = ptLoad
  · rw [if_neg (not_not.mpr hload), ite_error_eq_ok, ite_error_eq_ok, bind_eq_ok] at h
    obtain ⟨hpage, hmem, ende, hende, h⟩ := h
    rw [okOr_eq_ok, checkedAdd_eq_some] at hende
    rw [ite_error_eq_ok, Except.ok.injEq] at h
    obtain ⟨hin, rfl⟩ := h
    refine ⟨(if_pos hload).symm, ?_⟩
    intro seg hseg
    cases hseg
    exact ⟨Nat.le_of_not_lt hmem, not_not.mp hpage, hende.2 ▸ Nat.le_of_not_lt hin, hende.1⟩
  · rw [if_pos hload] at h
    cases h
    refine ⟨(if_neg hload).symm, ?_⟩
    intro seg hseg
    cases hseg

theorem phdrsPruefen_ok (rest i : Nat) (h : img.phdrsPruefen rest i = .ok ()) :
    ∀ j, i ≤ j → j < i + rest → ∃ s, img.parsePhdr j = .ok s := by
  induction rest generalizing i with
  | zero =>
    intro j hij hj
    omega
  | succ rest ih =>
    rw [phdrsPruefen, bind_eq_ok] at h
    obtain ⟨s, hs, hrest⟩ := h
    intro j hij hj
    rcases Nat.eq_or_lt_of_le hij with rfl | hlt
    · exact ⟨s, hs⟩
    · exact ih (i + 1) hrest j hlt (by omega)

structure Angenommen (data : List UInt8) (img : ElfImage) : Prop where
  data_eq : img.data = data
  entry : img.entry = feld data 24 8
  phoff : img.phoff = feld data 32 8
  phnum : img.phnum = feld data 56 2
  koepfe : ∀ i, i < img.phnum → ∃ s, img.parsePhdr i = .ok s

theorem parse_angenommen {m : Nat} {data : List UInt8} (h : parse m data = .ok img) :
    Angenommen data img := by
  rw [parse, ite_error_eq_ok] at h
  obtain ⟨hlen, h⟩ := h
  have h64 : 64 ≤ data.length := Nat.le_of_not_lt hlen
  rw [ite_error_eq_ok, ite_error_eq_ok] at h
  obtain ⟨-, -, h⟩ := h
  simp only [rdU16, rdU64, slice_feld (show 16 + 2 ≤ data.length by omega),
    slice_feld (show 18 + 2 ≤ data.length by omega),
    slice_feld (show 24 + 8 ≤ data.length by omega),
    slice_feld (show 32 + 8 ≤ data.length by omega),
    slice_feld (show 54 + 2 ≤ data.length by omega),
    slice_feld (show 56 + 2 ≤ data.length by omega), okOr_some_bind] at h
  rw [ite_error_eq_ok, ite_error_eq_ok, bind_eq_ok] at h
  obtain ⟨-, -, tableEnd, -, h⟩ := h
  rw [ite_error_eq_ok] at h
  obtain ⟨-, h⟩ := h
  cases hp : phdrsPruefen ⟨data, feld data 24 8, feld data 32 8, feld data 56 2⟩
      (feld data 56 2) 0 with
  | error e =>
    rw [hp] at h
    cases h
  | ok u =>
    rw [hp] at h
    cases h
    refine ⟨rfl, rfl, rfl, rfl, ?_⟩
    intro i hi
    exact phdrsPruefen_ok _ 0 hp i (Nat.zero_le i) (by simpa using hi)

theorem segments_eq {data : List UInt8} (h : Angenommen data img) :
    img.segments =
      ((phdrTabelle data).filter fun p => p.pType == ptLoad).map Phdr.segment := by
  rw [segments, phdrTabelle, ← h.phnum, ← h.phoff, List.filter_map, List.map_map,
    ← List.filterMap_eq_map, ← List.filterMap_eq_filter, List.filterMap_filterMap]
  apply List.filterMap_congr
  intro i hi
  obtain ⟨s, hs⟩ := h.koepfe i (List.mem_range.mp hi)
  obtain ⟨-, hseg, -⟩ := parsePhdr_eq_ok hs
  rw [hs, hseg, h.data_eq]
  by_cases hload : (phdrAt data (img.phoff + i * phdrLen)).pType = ptLoad
  · simp [Option.guard, hload]
  · simp [Option.guard, hload]

theorem segment_in_file {data : List UInt8} (h : Angenommen data img) {seg : Segment}
    (hseg : seg ∈ img.segments) :
    seg.filesz ≤ seg.memsz ∧ seg.offset + seg.filesz ≤ data.length ∧
      img.segmentBytes seg = (data.drop seg.offset).take seg.filesz := by
  rw [segments, List.mem_filterMap] at hseg
  obtain ⟨i, hi, hsome⟩ := hseg
  obtain ⟨s, hs⟩ := h.koepfe i (List.mem_range.mp hi)
  rw [hs] at hsome
  obtain ⟨-, -, hgood⟩ := parsePhdr_eq_ok hs
  obtain ⟨hmem, -, hin, -⟩ := hgood seg hsome
  rw [h.data_eq] at hin
  refine ⟨hmem, hin, ?_⟩
  rw [segmentBytes, h.data_eq, slice, if_pos hin]
  rfl

/-- The parser neither reads out of bounds nor overflows, whatever the bytes; and the segments of a
file it accepts are the program headers to load, each with its contents inside the file. -/
theorem parse_segments (m : Nat) (data : List UInt8) :
    parseCall m data = quiet (parse m data) ∧
      ∀ img, parse m data = .ok img →
        img.segments = ((phdrTabelle data).filter fun p => p.pType == ptLoad).map Phdr.segment ∧
          ∀ seg ∈ img.segments, seg.filesz ≤ seg.memsz ∧
            seg.offset + seg.filesz ≤ data.length ∧
            img.segmentBytes seg = (data.drop seg.offset).take seg.filesz := by
  refine ⟨parseCall_eq m data, fun img h => ?_⟩
  have hacc := parse_angenommen h
  exact ⟨segments_eq hacc, fun seg hseg => segment_in_file hacc hseg⟩

end ElfImage

end Caprock.Loader.Elf
