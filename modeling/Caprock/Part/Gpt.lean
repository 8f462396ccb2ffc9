import Caprock.Lib.Bytes
import Caprock.Lib.Checks
import Caprock.Lib.Word

/-! # Partition tables

The header of a GPT, its entries and the checksum over both.  The sectors of a partition and sums of
block numbers wrap, as in a release build.
-/

namespace Caprock.Part

open Bytes Word Checks

def sector : Nat := 512
def signature : List UInt8 := [0x45, 0x46, 0x49, 0x20, 0x50, 0x41, 0x52, 0x54]
def revision : Nat := 0x00010000
def minHeaderSize : Nat := 92
def minEntrySize : Nat := 128

inductive PartError where
  | tooShort
  | badSignature
  | badRevision
  | badHeaderSize
  | headerCrc
  | badEntrySize
  | badEntryCount
  | entriesCrc
  deriving DecidableEq, Repr

/-- `Crc32`, before `finish`. -/
abbrev Crc32 : Type := UInt32

def crcNeu : Crc32 := 0xFFFFFFFF

def crcBit (c : Crc32) : Crc32 := (c >>> 1) ^^^ (0xEDB88320 &&& (0 - (c &&& 1)))

def crcByte (c : Crc32) (b : UInt8) : Crc32 :=
  crcBit (crcBit (crcBit (crcBit (crcBit (crcBit (crcBit (crcBit (c ^^^ b.toUInt32))))))))

def crcUpdate (c : Crc32) (bytes : List UInt8) : Crc32 := bytes.foldl crcByte c

def crcFinish (c : Crc32) : UInt32 := ~~~c

def rd32 (b : List UInt8) (off : Nat) : Nat := leNat ((b.drop off).take 4)

def rd64 (b : List UInt8) (off : Nat) : Nat := leNat ((b.drop off).take 8)

structure GptHeader where
  myLba : Nat
  alternateLba : Nat
  firstUsableLba : Nat
  lastUsableLba : Nat
  entryLba : Nat
  numEntries : Nat
  entrySize : Nat
  entriesCrc : Nat
  deriving DecidableEq, Repr

def GptHeader.entriesBytes (h : GptHeader) : Nat := h.numEntries * h.entrySize

/-- The checksum of the header, its own field taken as zero. -/
def kopfCrc (s : List UInt8) (headerSize : Nat) : UInt32 :=
  crcFinish (crcUpdate (crcUpdate (crcUpdate crcNeu (s.take 16)) [0, 0, 0, 0])
    ((s.take headerSize).drop 20))

def parseHeader (s : List UInt8) : Except PartError GptHeader :=
  if s.length < minHeaderSize then .error .tooShort
  else if s.take 8 ≠ signature then .error .badSignature
  else if rd32 s 8 ≠ revision then .error .badRevision
  else
    let headerSize := rd32 s 12
    if headerSize < minHeaderSize ∨ s.length < headerSize ∨ sector < headerSize then
      .error .badHeaderSize
    else if (kopfCrc s headerSize).toNat ≠ rd32 s 16 then .error .headerCrc
    else
      let entrySize := rd32 s 84
      if entrySize < minEntrySize ∨ entrySize % 8 ≠ 0 then .error .badEntrySize
      else
        let numEntries := rd32 s 80
        (okOr .badEntryCount (checkedMul numEntries entrySize)).bind fun t =>
        if t = 0 ∨ 1024 * 1024 < t then .error .badEntryCount
        else .ok
          { myLba := rd64 s 24
            alternateLba := rd64 s 32
            firstUsableLba := rd64 s 40
            lastUsableLba := rd64 s 48
            entryLba := rd64 s 72
            numEntries := numEntries
            entrySize := entrySize
            entriesCrc := rd32 s 88 }

structure Partition where
  typeGuid : List UInt8
  firstLba : Nat
  lastLba : Nat
  attributes : Nat
  deriving DecidableEq, Repr

namespace Partition

def isUsed (p : Partition) : Bool := p.typeGuid ≠ List.replicate 16 0

def sectors (p : Partition) : Nat :=
  if p.lastLba < p.firstLba then 0 else wadd (p.lastLba - p.firstLba) 1

def within (p : Partition) (h : GptHeader) : Bool :=
  0 < p.sectors ∧ h.firstUsableLba ≤ p.firstLba ∧ p.lastLba ≤ h.lastUsableLba

end Partition

/-- Entry `index` of a piece of the list that begins with entry `chunkFirst`. -/
def entryAt (h : GptHeader) (chunk : List UInt8) (chunkFirst index : Nat) : Option Partition :=
  if h.numEntries ≤ index ∨ index < chunkFirst then none
  else
    let off := (index - chunkFirst) * h.entrySize
    (checkedAdd off h.entrySize).bind fun ende =>
    if chunk.length < ende then none
    else
      let e := (chunk.take ende).drop off
      some ⟨e.take 16, rd64 e 32, rd64 e 40, rd64 e 48⟩

def verifyEntries (h : GptHeader) (c : Crc32) : Except PartError Unit :=
  if (crcFinish c).toNat = h.entriesCrc then .ok () else .error .entriesCrc

end Caprock.Part
