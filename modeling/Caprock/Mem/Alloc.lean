import Mathlib.Algebra.Group.Nat.Defs
import Mathlib.Data.List.Basic
import Caprock.Mem.Region

/-! # The physical allocator

The free list is an array of `MAX_FRAGMENTS` entries of which the first `len` are in
use; the model keeps that prefix as a list.  Allocation is best fit inside a zone
`[lo, hi)`: among the fragments that can serve the request the one with the
smallest usable part wins, and the region is cut out of it.
-/

namespace Caprock.Mem

open Word

def maxFragments : Nat := 1024

structure PhysAllocator where
  regions : List PhysRegion
  deriving DecidableEq, Repr

namespace PhysAllocator

def new : PhysAllocator := ⟨[]⟩

def len (a : PhysAllocator) : Nat := a.regions.length

/-- Place `r` before the first entry whose base is not below its own. -/
def insertSorted (r : PhysRegion) : List PhysRegion → List PhysRegion
  | [] => [r]
  | x :: xs => if x.base < r.base then x :: insertSorted r xs else r :: x :: xs

/-- Merge pass with `x` as the entry at the current index. -/
def coalesceFrom (x : PhysRegion) : List PhysRegion → List PhysRegion
  | [] => [x]
  | y :: rest =>
      if x.fin = y.base then coalesceFrom ⟨x.base, wadd x.len y.len⟩ rest
      else x :: coalesceFrom y rest

/-- `coalesce`: merge neighbours from the front. -/
def coalesce : List PhysRegion → List PhysRegion
  | [] => []
  | x :: rest => coalesceFrom x rest

/-- `insert`: empty regions vanish, a full list refuses. -/
def insert (a : PhysAllocator) (r : PhysRegion) : Bool × PhysAllocator :=
  if r.len = 0 then (true, a)
  else if maxFragments ≤ a.len then (false, a)
  else (true, ⟨coalesce (insertSorted r a.regions)⟩)

def remove (a : PhysAllocator) (idx : Nat) : PhysAllocator :=
  ⟨a.regions.eraseIdx idx⟩

def addRegion (a : PhysAllocator) (base len : Nat) : Bool × PhysAllocator :=
  a.insert ⟨base, len⟩

def freeRegion (a : PhysAllocator) (region : PhysRegion) : Bool × PhysAllocator :=
  a.insert region

/-- Cut `[start, start + size)` out of fragment `i` and return both remainders. -/
def carve (a : PhysAllocator) (i start size : Nat) : Option MemoryCap × PhysAllocator :=
  match a.regions[i]? with
  | none => (none, a)
  | some r =>
      let e := wadd start size
      let a := a.remove i
      let a := (a.insert ⟨r.base, wsub start r.base⟩).2
      let a := (a.insert ⟨e, wsub r.fin e⟩).2
      (some ⟨⟨start, size⟩, Rights.rw⟩, a)

/-- Would the cut leave a remainder on both sides although the list is full? -/
def keinPlatzFuerRest (a : PhysAllocator) (r : PhysRegion) (start e : Nat) : Prop :=
  (r.base < start ∧ e < r.fin) ∧ maxFragments ≤ a.len

instance (a : PhysAllocator) (r : PhysRegion) (start e : Nat) :
    Decidable (a.keinPlatzFuerRest r start e) :=
  inferInstanceAs (Decidable (_ ∧ _))

/-- One iteration of the search of `alloc_in` over fragment `i`. -/
def bestIn (a : PhysAllocator) (size align lo hi : Nat) (best : Option (Nat × Nat × Nat))
    (i : Nat) : Option (Nat × Nat × Nat) :=
  match a.regions[i]? with
  | none => best
  | some r =>
      let zoneStart := max r.base lo
      let zoneEnd := min r.fin hi
      if zoneEnd ≤ zoneStart then best
      else
        let start := alignUp zoneStart align
        match checkedAdd start size with
        | none => best
        | some e =>
            let nutzbar := zoneEnd - zoneStart
            if r.base ≤ start ∧ e ≤ zoneEnd then
              if a.keinPlatzFuerRest r start e then best
              else if best.all fun b => nutzbar < b.2.2 then some (i, start, nutzbar)
              else best
            else best

def allocIn (a : PhysAllocator) (size align lo hi : Nat) : Option MemoryCap × PhysAllocator :=
  let align := max align page
  let size := alignUp (max size 1) page
  match (List.range a.len).foldl (a.bestIn size align lo hi) none with
  | none => (none, a)
  | some (i, start, _) => a.carve i start size

/-- Do all `npages` pages from `start` on have a colour of the mask? -/
def runIsColored (start npages colors : Nat) (mask : ColorMask) : Bool :=
  (List.range npages).all fun j => mask.contains (colorOf (start + j * page) colors)

/-- Candidate starts of one fragment, `align` apart, for at most `colors + 1` tries;
the counter is a 32-bit word. -/
def farbigerStart (zoneEnd size align vorspann gefaerbt colors : Nat) (mask : ColorMask)
    (tries start : Nat) : Option Nat :=
  if colors < tries then none
  else if hfit : start + size < 2 ^ 64 ∧ start + size ≤ zoneEnd then
    if runIsColored (start + vorspann * page) gefaerbt colors mask then some start
    else if start + max align page < 2 ^ 64 then
      farbigerStart zoneEnd size align vorspann gefaerbt colors mask
        ((tries + 1) % 2 ^ 32) (start + max align page)
    else none
  else none
termination_by zoneEnd + 1 - start
decreasing_by
  have hpage : 0 < page := by decide
  have hmax : page ≤ max align page := Nat.le_max_right _ _
  omega

/-- One iteration of the coloured search over fragment `i`.  `none` for the best
stands for the initial `best_nutzbar = u64::MAX`. -/
def bestFarbigIn (a : PhysAllocator) (vorspann size align gefaerbt colors : Nat)
    (mask : ColorMask) (lo hi : Nat) (best : Option (Nat × Nat) × Nat) (i : Nat) :
    Option (Nat × Nat) × Nat :=
  match a.regions[i]? with
  | none => best
  | some r =>
      let zoneStart := max r.base lo
      let zoneEnd := min r.fin hi
      if zoneEnd ≤ zoneStart then best
      else
        let nutzbar := zoneEnd - zoneStart
        match farbigerStart zoneEnd size align vorspann gefaerbt colors mask 0
            (alignUp zoneStart align) with
        | none => best
        | some start =>
            if a.keinPlatzFuerRest r start (start + size) then best
            else if nutzbar < best.2 then (some (i, start), nutzbar)
            else best

def allocColoredVorspannIn (a : PhysAllocator) (vorspann size align colors : Nat)
    (mask : ColorMask) (lo hi : Nat) : Option MemoryCap × PhysAllocator :=
  if mask.isEmpty then (none, a)
  else if colors ≤ 1 ∨ mask = ColorMask.all then a.allocIn size align lo hi
  else
    let align := max align page
    let size := alignUp (max size 1) page
    let npages := size / page
    if npages ≤ vorspann then (none, a)
    else
      let gefaerbt := npages - vorspann
      if maskBits < gefaerbt then (none, a)
      else
        match ((List.range a.len).foldl
            (a.bestFarbigIn vorspann size align gefaerbt colors mask lo hi)
            (none, 2 ^ 64 - 1)).1 with
        | none => (none, a)
        | some (i, start) => a.carve i start size

end PhysAllocator

end Caprock.Mem
