import Caprock.Lib.Bytes
import Caprock.Lib.Checks
import Caprock.Lib.Word

/-! # ELF images

`ElfImage.parse` checks the header of a static program and each of its program headers.  The machine
is that of the kernel, a parameter here.
-/

namespace Caprock.Loader.Elf

open Bytes Word Checks

def pageSize : Nat := 4096
def elfMagic : List UInt8 := [0x7F, 0x45, 0x4C, 0x46]
def elfclass64 : UInt8 := 2
def elfdata2lsb : UInt8 := 1
def etExec : Nat := 2
def emX86_64 : Nat := 0x3E
def ptLoad : Nat := 1
def ehdrLen : Nat := 64
def phdrLen : Nat := 56

/-- The refusals of this parser. -/
inductive LoaderError where
  | tooSmall
  | badElf
  | outOfBounds
  | unalignedSegment (vaddr : Nat)
  deriving DecidableEq, Repr

structure Segment where
  vaddr : Nat
  offset : Nat
  filesz : Nat
  memsz : Nat
  flags : Nat
  deriving DecidableEq, Repr

structure ElfImage where
  data : List UInt8
  entry : Nat
  phoff : Nat
  phnum : Nat
  deriving DecidableEq, Repr

def rdU16 (d : List UInt8) (off : Nat) : Option Nat := (slice d off 2).map leNat

def rdU32 (d : List UInt8) (off : Nat) : Option Nat := (slice d off 4).map leNat

def rdU64 (d : List UInt8) (off : Nat) : Option Nat := (slice d off 8).map leNat

namespace ElfImage

/-- Program header `i`; `none` if it is nothing to load. -/
def parsePhdr (img : ElfImage) (i : Nat) : Except LoaderError (Option Segment) :=
  (okOr .outOfBounds (slice img.data (img.phoff + i * phdrLen) phdrLen)).bind fun p =>
  (okOr .outOfBounds (rdU32 p 0)).bind fun pType =>
  if pType ≠ ptLoad then .ok none
  else
    (okOr .outOfBounds (rdU32 p 4)).bind fun flags =>
    (okOr .outOfBounds (rdU64 p 8)).bind fun offset =>
    (okOr .outOfBounds (rdU64 p 16)).bind fun vaddr =>
    (okOr .outOfBounds (rdU64 p 32)).bind fun filesz =>
    (okOr .outOfBounds (rdU64 p 40)).bind fun memsz =>
    if vaddr % pageSize ≠ 0 then .error (.unalignedSegment vaddr)
    else if memsz < filesz then .error .badElf
    else
      (okOr .outOfBounds (checkedAdd offset filesz)).bind fun ende =>
      if img.data.length < ende then .error .outOfBounds
      else .ok (some ⟨vaddr, offset, filesz, memsz, flags⟩)

/-- `for i in 0..phnum`: the `rest` headers from `i` on. -/
def phdrsPruefen (img : ElfImage) : Nat → Nat → Except LoaderError Unit
  | 0, _ => .ok ()
  | rest + 1, i => (img.parsePhdr i).bind fun _ => phdrsPruefen img rest (i + 1)

def parse (expectedMachine : Nat) (data : List UInt8) : Except LoaderError ElfImage :=
  if data.length < ehdrLen then .error .tooSmall
  else if slice data 0 4 ≠ some elfMagic then .error .badElf
  else if slice data 4 2 ≠ some [elfclass64, elfdata2lsb] then .error .badElf
  else
    (okOr .tooSmall (rdU16 data 16)).bind fun eType =>
    (okOr .tooSmall (rdU16 data 18)).bind fun eMachine =>
    if eType ≠ etExec ∨ eMachine ≠ expectedMachine then .error .badElf
    else
      (okOr .tooSmall (rdU64 data 24)).bind fun entry =>
      (okOr .tooSmall (rdU64 data 32)).bind fun phoff =>
      (okOr .tooSmall (rdU16 data 54)).bind fun phentsize =>
      (okOr .tooSmall (rdU16 data 56)).bind fun phnum =>
      if phentsize ≠ phdrLen then .error .badElf
      else
        (okOr .outOfBounds ((checkedMul phnum phdrLen).bind fun t =>
          checkedAdd t phoff)).bind fun tableEnd =>
        if data.length < tableEnd then .error .outOfBounds
        else
          let img : ElfImage := ⟨data, entry, phoff, phnum⟩
          (img.phdrsPruefen phnum 0).map fun _ => img

end ElfImage

end Caprock.Loader.Elf
