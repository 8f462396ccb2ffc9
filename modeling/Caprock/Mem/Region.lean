import Caprock.Lib.Word

/-! # Physical regions, rights and page colours

Addresses and lengths are 64-bit words.  The end of a region is computed with the
word addition of the source; `fin_eq` gives the plain sum where it does not wrap.
-/

namespace Caprock.Mem

open Word

def page : Nat := 4096

/-- The range `[base, base + len)`. -/
structure PhysRegion where
  base : Nat
  len : Nat
  deriving DecidableEq, Repr

/-- First address behind the region (`PhysRegion::end`). -/
def PhysRegion.fin (r : PhysRegion) : Nat := wadd r.base r.len

theorem PhysRegion.fin_eq {r : PhysRegion} (h : r.base + r.len < 2 ^ 64) :
    r.fin = r.base + r.len :=
  wadd_eq h

/-- The range of `r` lies in the range of `w`. -/
def PhysRegion.Inside (r w : PhysRegion) : Prop :=
  w.base ≤ r.base ∧ r.base + r.len ≤ w.base + w.len

theorem PhysRegion.Inside.refl (r : PhysRegion) : r.Inside r := ⟨Nat.le_refl _, Nat.le_refl _⟩

theorem PhysRegion.Inside.trans {r v w : PhysRegion} (h : r.Inside v) (h' : v.Inside w) :
    r.Inside w :=
  ⟨Nat.le_trans h'.1 h.1, Nat.le_trans h.2 h'.2⟩

/-- Access rights, a bit set in one byte. -/
structure Rights where
  bits : BitVec 8
  deriving DecidableEq, Repr

namespace Rights

def none : Rights := ⟨0⟩
def read : Rights := ⟨1⟩
def write : Rights := ⟨2⟩
def exec : Rights := ⟨4⟩
def rw : Rights := ⟨3⟩
def rwx : Rights := ⟨7⟩

/-- Does `r` hold every right of `other`? -/
def contains (r other : Rights) : Bool := r.bits &&& other.bits == other.bits

def intersect (r other : Rights) : Rights := ⟨r.bits &&& other.bits⟩

theorem contains_refl (r : Rights) : r.contains r = true := by
  simp [contains]

theorem contains_intersect_left (r other : Rights) : r.contains (r.intersect other) = true := by
  simp [contains, intersect, ← BitVec.and_assoc]

theorem contains_trans {r s t : Rights} (hrs : r.contains s = true) (hst : s.contains t = true) :
    r.contains t = true := by
  simp only [contains, beq_iff_eq] at *
  rw [← hst, ← BitVec.and_assoc, hrs]

end Rights

/-- Linear authority over a physical region. -/
structure MemoryCap where
  region : PhysRegion
  rights : Rights
  deriving DecidableEq, Repr

/-- A set of colours: colour `c` belongs to it when bit `c % 64` is set. -/
structure ColorMask where
  bits : Nat
  deriving DecidableEq, Repr

def maskBits : Nat := 64

def ColorMask.all : ColorMask := ⟨2 ^ 64 - 1⟩

def ColorMask.contains (m : ColorMask) (c : Nat) : Bool := m.bits.testBit (c % maskBits)

def ColorMask.isEmpty (m : ColorMask) : Bool := m.bits == 0

/-- Colour of a physical address; the page number is cut to 32 bits. -/
def colorOf (pa colors : Nat) : Nat :=
  if colors ≤ 1 then 0 else (pa / page % 2 ^ 32) &&& (colors - 1)

theorem ColorMask.contains_all (c : Nat) : ColorMask.all.contains c = true := by
  have hlt : c % maskBits < 64 := Nat.mod_lt _ (by decide)
  unfold ColorMask.contains ColorMask.all
  rw [Nat.testBit_two_pow_sub_one]
  simpa using hlt

end Caprock.Mem
