import Caprock.Lib.Bytes
import Caprock.Lib.Checks
import Caprock.Lib.Panic

/-! # Readers of a flattened device tree

Three functions walk over the tokens of the structure block.  Their loops differ in what they keep
of the node that is open, and in what they do with a property; the rest is one loop with a number of
steps.  `None` is an error without a text.  A position is a sum of the length of a slice and of a
few words of 32 bits, so sums of positions are exact.
-/

namespace Caprock.DeviceTree

open Bytes Checks Panic

def magic : Nat := 0xd00dfeed
def fdtBeginNode : Nat := 1
def fdtEndNode : Nat := 2
def fdtProp : Nat := 3
def fdtNop : Nat := 4
def fdtEnd : Nat := 9

def zeichen (l : List Char) : List UInt8 := l.map fun c => UInt8.ofNat c.toNat

def cpusName : List UInt8 := zeichen ['c', 'p', 'u', 's']
def cpuAt : List UInt8 := zeichen ['c', 'p', 'u', '@']
def memoryName : List UInt8 := zeichen ['m', 'e', 'm', 'o', 'r', 'y']
def regName : List UInt8 := zeichen ['r', 'e', 'g']
def numaNodeId : List UInt8 :=
  zeichen ['n', 'u', 'm', 'a', '-', 'n', 'o', 'd', 'e', '-', 'i', 'd']

structure Dtb where
  data : List UInt8
  offStruct : Nat
  offStrings : Nat
  deriving DecidableEq, Repr

def beNat (b : List UInt8) : Nat := leNat b.reverse

def be32 (data : List UInt8) (off : Nat) : Call Unit Nat :=
  (quiet (okOr () (slice data off 4))).bind fun b => (reads b 0 4).map beNat

def be64 (data : List UInt8) (off : Nat) : Call Unit Nat :=
  (be32 data off).bind fun hi =>
  (be32 data (off + 4)).bind fun lo =>
  .ok (hi <<< 32 ||| lo)

/-- The string at `off`, without the zero behind it. -/
def cstr (data : List UInt8) (off : Nat) : Call Unit (List UInt8) :=
  if data.length < off then .ok []
  else
    let rest := data.drop off
    range rest 0 (rest.findIdx (· == 0))

/-- `(n + 3) & !3`. -/
def align4 (n : Nat) : Nat := (n + 3) &&& (2 ^ 64 - 4)

def Dtb.parse (data : List UInt8) : Call Unit Dtb :=
  (be32 data 0).bind fun m =>
  if m ≠ magic then .error (.err ())
  else
    (be32 data 8).bind fun offStruct =>
    (be32 data 12).bind fun offStrings =>
    .ok ⟨data, offStruct, offStrings⟩

/-- What a loop does after a property. -/
inductive Schritt (σ α : Type) where
  | weiter (s : σ)
  | zurueck (a : α)

/-- The parts of a loop: its arms for `FDT_BEGIN_NODE`, `FDT_END_NODE` and `FDT_END`, and that for
`FDT_PROP`, which also moves the position. -/
structure Leser (σ α : Type) where
  beginn : σ → List UInt8 → σ
  ende : σ → σ
  eigenschaft : σ → Nat → Call Unit (Nat × Schritt σ α)
  schluss : σ → Option α

variable {σ α : Type}

def lauf (data : List UInt8) (A : Leser σ α) : Nat → Nat → σ → Call Unit α
  | 0, _, _ => .error .outOfSteps
  | k + 1, pos, s =>
      (be32 data pos).bind fun tok =>
      let pos := pos + 4
      if tok = fdtBeginNode then
        (cstr data pos).bind fun name =>
        lauf data A k (pos + align4 (name.length + 1)) (A.beginn s name)
      else if tok = fdtEndNode then lauf data A k pos (A.ende s)
      else if tok = fdtProp then
        (A.eigenschaft s pos).bind fun (pos, r) =>
        match r with
        | .weiter s => lauf data A k pos s
        | .zurueck a => .ok a
      else if tok = fdtNop then lauf data A k pos s
      else if tok = fdtEnd then quiet (okOr () (A.schluss s))
      else .error (.err ())

/-- `in_cpus_at` is `usize::MAX` where no `/cpus` node is open; here it is `none`. -/
structure CpuStand where
  depth : Nat
  inCpusAt : Option Nat
  n : Nat
  deriving DecidableEq, Repr

def cpuLeser (data : List UInt8) : Leser CpuStand Nat where
  beginn s name :=
    let depth := s.depth + 1
    if depth = 2 ∧ name = cpusName then { s with depth := depth, inCpusAt := some depth }
    else if s.inCpusAt.map (· + 1) = some depth ∧ cpuAt <+: name then
      { s with depth := depth, n := s.n + 1 }
    else { s with depth := depth }
  ende s :=
    { s with
      inCpusAt := if s.inCpusAt = some s.depth then none else s.inCpusAt
      depth := s.depth - 1 }
  eigenschaft s pos :=
    (be32 data pos).bind fun len =>
    .ok (pos + 8 + align4 len, .weiter s)
  schluss s := some s.n

def Dtb.cpuCount (d : Dtb) : Call Unit Nat :=
  lauf d.data (cpuLeser d.data) (d.data.length + 1) d.offStruct ⟨0, none, 0⟩

/-- The calls of `mem` and of `cpu` so far stand in the order in which they were made. -/
structure NumaStand where
  depth : Nat
  inCpusAt : Option Nat
  isMem : Bool
  isCpu : Bool
  cpuOrd : Nat
  thisCpuOrd : Nat
  reg : Option (Nat × Nat)
  nodeId : Option Nat
  mem : List (Nat × Nat × Nat)
  cpu : List (Nat × Nat)
  n : Nat
  deriving DecidableEq, Repr

structure Numa where
  mem : List (Nat × Nat × Nat)
  cpu : List (Nat × Nat)
  n : Nat
  deriving DecidableEq, Repr

def NumaStand.melde (s : NumaStand) : NumaStand :=
  match s.nodeId with
  | none => s
  | some nd =>
      if s.isMem then
        match s.reg with
        | some (b, l) => { s with mem := s.mem ++ [(b, l, nd)], n := s.n + 1 }
        | none => s
      else if s.isCpu then { s with cpu := s.cpu ++ [(s.thisCpuOrd, nd)], n := s.n + 1 }
      else s

def numaLeser (data : List UInt8) (offStrings : Nat) : Leser NumaStand Numa where
  beginn s name :=
    let depth := s.depth + 1
    let inCpusAt := if depth = 2 ∧ name = cpusName then some depth else s.inCpusAt
    let isCpu := decide (inCpusAt.map (· + 1) = some depth ∧ cpuAt <+: name)
    { s with
      depth := depth
      inCpusAt := inCpusAt
      isMem := decide (memoryName <+: name)
      isCpu := isCpu
      thisCpuOrd := if isCpu then s.cpuOrd else s.thisCpuOrd
      cpuOrd := if isCpu then (s.cpuOrd + 1) % 2 ^ 32 else s.cpuOrd
      reg := none
      nodeId := none }
  ende s :=
    { s.melde with
      inCpusAt := if s.inCpusAt = some s.depth then none else s.inCpusAt
      depth := s.depth - 1
      isMem := false
      isCpu := false
      reg := none
      nodeId := none }
  eigenschaft s pos :=
    (be32 data pos).bind fun len =>
    (be32 data (pos + 4)).bind fun nameoff =>
    let val := pos + 8
    let pos := val + align4 len
    (cstr data (offStrings + nameoff)).bind fun pname =>
    if pname = numaNodeId ∧ 4 ≤ len then
      (be32 data val).bind fun id =>
      .ok (pos, .weiter { s with nodeId := some id })
    else if pname = regName ∧ s.isMem ∧ 16 ≤ len then
      (be64 data val).bind fun b =>
      (be64 data (val + 8)).bind fun l =>
      .ok (pos, .weiter { s with reg := some (b, l) })
    else .ok (pos, .weiter s)
  schluss s := some ⟨s.mem, s.cpu, s.n⟩

def Dtb.numa (d : Dtb) : Call Unit Numa :=
  lauf d.data (numaLeser d.data d.offStrings) (d.data.length + 1) d.offStruct
    ⟨0, none, false, false, 0, 0, none, none, [], [], 0⟩

def memoryLeser (data : List UInt8) (offStrings : Nat) : Leser Bool (Nat × Nat) where
  beginn _ name := decide (memoryName <+: name)
  ende _ := false
  eigenschaft inMemory pos :=
    (be32 data pos).bind fun len =>
    (be32 data (pos + 4)).bind fun nameoff =>
    let val := pos + 8
    let pos := val + align4 len
    if inMemory then
      (cstr data (offStrings + nameoff)).bind fun pname =>
      if pname = regName then
        (be64 data val).bind fun base =>
        (be64 data (val + 8)).bind fun size =>
        .ok (pos, .zurueck (base, size))
      else .ok (pos, .weiter inMemory)
    else .ok (pos, .weiter inMemory)
  schluss _ := none

def Dtb.memory (d : Dtb) : Call Unit (Nat × Nat) :=
  lauf d.data (memoryLeser d.data d.offStrings) (d.data.length + 1) d.offStruct false

end Caprock.DeviceTree
