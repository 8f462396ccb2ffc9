import Mathlib.Data.List.FinRange
import Caprock.Lib.Memory
import Caprock.Lib.Slots
import Caprock.Mem.Region

/-! # The heap of a program

Small requests take slots of eight size classes: a slot given back comes from the free list of
its class, which is threaded through the slots themselves, and a new one is cut from a bump
region.  A large request takes a region of its own and gives it back with the block.

The regions come from a source outside; what it answers is an argument of the request.
-/

namespace Caprock.Region

open Mem Memory Word

/-- Size and alignment of a request. -/
structure Layout where
  size : Nat
  align : Nat
  align_pow : ∃ k, align = 2 ^ k
  size_le : size + (align - 1) < 2 ^ 63
  deriving DecidableEq

/-- The region source, as far as the heap can tell: how often it was asked and which regions
are out. -/
structure Quelle where
  anfragen : Nat
  vergeben : List PhysRegion

/-- `RegionSource::request`, with the answer. -/
def Quelle.request (q : Quelle) (antwort : Option PhysRegion) : Quelle :=
  ⟨q.anfragen + 1, antwort.toList ++ q.vergeben⟩

def Quelle.release (q : Quelle) (r : PhysRegion) : Quelle :=
  { q with vergeben := q.vergeben.erase r }

def classSizes : List Nat := [16, 32, 64, 128, 256, 512, 1024, 2048]
def maxSlabRegions : Nat := 12
def maxLarge : Nat := 8
def slabRegionBytes : Nat := 64 * 1024

structure SlabRegion where
  region : PhysRegion
  bump : Nat

/-- `Heap` with the `HeapInner` behind its lock. -/
structure Heap where
  source : Quelle
  slabs : List (Option SlabRegion)
  large : List (Option PhysRegion)
  freeHeads : Nat → Nat

def classFor (effective : Nat) : Option Nat := classSizes.findIdx? fun c => decide (effective ≤ c)

/-- `CLASS_SIZES[ci]`. -/
def classSize (ci : Nat) : Nat := classSizes.getD ci 0

namespace Heap

def new : Heap where
  source := ⟨0, []⟩
  slabs := List.replicate maxSlabRegions none
  large := List.replicate maxLarge none
  freeHeads := fun _ => 0

/-- `free_heads[ci] = a`. -/
def mitKopf (h : Heap) (ci a : Nat) : Heap :=
  { h with freeHeads := Function.update h.freeHeads ci a }

def schneiden (size : Nat) : List (Option SlabRegion) → Option (Nat × List (Option SlabRegion))
  | [] => none
  | none :: rest => (schneiden size rest).map fun p => (p.1, none :: p.2)
  | some slot :: rest =>
      let off := alignUp slot.bump size
      if wadd off size ≤ slot.region.len then
        some (wadd slot.region.base off, some { slot with bump := wadd off size } :: rest)
      else (schneiden size rest).map fun p => (p.1, some slot :: p.2)

def slabAlloc (h : Heap) (m : Mem) (ci : Nat) (antwort : Option PhysRegion) : Option Nat × Heap :=
  let size := classSize ci
  let head := h.freeHeads ci
  if head ≠ 0 then
    (some head, h.mitKopf ci (word m head))
  else
    match schneiden size h.slabs with
    | some (addr, slabs) => (some addr, { h with slabs := slabs })
    | none =>
        let h := { h with source := h.source.request antwort }
        match antwort with
        | none => (none, h)
        | some region =>
            -- Without a free place in the table the region is dropped here.
            match h.slabs.findIdx? Option.isNone with
            | none => (none, h)
            | some free =>
                (some region.base, { h with slabs := h.slabs.set free (some ⟨region, size⟩) })

def largeAlloc (h : Heap) (antwort : Option PhysRegion) : Option Nat × Heap :=
  let h := { h with source := h.source.request antwort }
  match antwort with
  | none => (none, h)
  | some region =>
      match h.large.findIdx? Option.isNone with
      | none => (none, h)
      | some slot => (some region.base, { h with large := h.large.set slot (some region) })

end Heap

def Layout.effective (layout : Layout) : Nat := max layout.size layout.align

/-- What `request` is called with. -/
def Layout.minLen (layout : Layout) : Nat :=
  match classFor layout.effective with
  | some ci => max slabRegionBytes (classSize ci)
  | none => max layout.size layout.align

/-- The length of the slice that `allocate` returns. -/
def Layout.actual (layout : Layout) : Nat :=
  match classFor layout.effective with
  | some ci => classSize ci
  | none => layout.size

namespace Heap

/-- `allocate`: address and length, or `AllocError`. -/
def allocate (h : Heap) (m : Mem) (layout : Layout) (antwort : Option PhysRegion) :
    Option (Nat × Nat) × Heap :=
  if layout.size = 0 then (some (layout.align, 0), h)
  else
    let (addr, h) := match classFor layout.effective with
      | some ci => h.slabAlloc m ci antwort
      | none => h.largeAlloc antwort
    -- A null address is no `NonNull`.
    (addr.bind fun a => if a = 0 then none else some (a, layout.actual), h)

def deallocate (h : Heap) (m : Mem) (addr : Nat) (layout : Layout) : Heap × Mem :=
  if layout.size = 0 then (h, m)
  else
    match classFor layout.effective with
    | some ci =>
        (h.mitKopf ci addr, storeWord m addr (h.freeHeads ci))
    | none =>
        match h.large.findIdx? fun r => r.any fun rg => rg.base == addr with
        | none => (h, m)
        | some slot =>
            match h.large[slot]? with
            | some (some region) =>
                ({ h with
                    source := h.source.release region
                    large := h.large.set slot none }, m)
            | _ => (h, m)

def regionen (h : Heap) : List PhysRegion :=
  h.slabs.reduceOption.map SlabRegion.region ++ h.large.reduceOption

end Heap

theorem classFor_eq_some {effective ci : Nat} (h : classFor effective = some ci) :
    ci < 8 ∧ effective ≤ classSize ci ∧ classSize ci = 2 ^ (ci + 4) := by
  obtain ⟨hlt, hle, -⟩ := List.findIdx?_eq_some_iff_getElem.mp h
  have hci : ci < 8 := hlt
  have hpow : ∀ i < 8, classSize i = 2 ^ (i + 4) := by decide
  refine ⟨hci, ?_, hpow ci hci⟩
  unfold classSize
  rw [List.getD_eq_getElem _ _ hlt]
  exact of_decide_eq_true hle

theorem classFor_eq_none {effective : Nat} (h : classFor effective = none) : 2048 < effective := by
  have hall := List.findIdx?_eq_none_iff.mp h 2048 (by decide)
  simpa using hall

theorem classSize_le : ∀ ci < 8, 16 ≤ classSize ci ∧ classSize ci ≤ 2048 := by
  decide

/-- A range of the address space that begins at a page and is not all of it. -/
structure RegionOk (r : PhysRegion) : Prop where
  aligned : page ∣ r.base
  fits : r.base + r.len ≤ 2 ^ 64
  len_le : r.len + page ≤ 2 ^ 64

/-- No byte lies in both regions. -/
def Apart (r s : PhysRegion) : Prop :=
  r.len = 0 ∨ s.len = 0 ∨ r.base + r.len ≤ s.base ∨ s.base + s.len ≤ r.base

theorem Apart.symm {r s : PhysRegion} (h : Apart r s) : Apart s r := by
  unfold Apart at *
  omega

instance : Std.Symm Apart := ⟨fun _ _ h => h.symm⟩

theorem Apart.mono {r s r' s' : PhysRegion} (h : Apart r s) (hr : r'.Inside r) (hs : s'.Inside s) :
    Apart r' s' := by
  unfold Apart PhysRegion.Inside at *
  omega

/-- The contract of `request`: page-aligned, long enough, apart from all regions still out. -/
def Quelle.Liefert (q : Quelle) (minLen : Nat) (antwort : Option PhysRegion) : Prop :=
  ∀ r, antwort = some r → RegionOk r ∧ minLen ≤ r.len ∧ ∀ s ∈ q.vergeben, Apart r s

end Caprock.Region
