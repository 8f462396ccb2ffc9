import Caprock.Cap.Object
import Caprock.Handle
import Caprock.Slab

/-! # The capability space

A table of capability slots and a table of reference-counted objects.  Each slot carries
a node of the derivation tree: its parent, its first child and two sibling links.  The
operations derive a child (`copy`, `mint`, `subregion`), move a capability to another
slot, delete a leaf and revoke everything below a capability.

Every walk over the tree is bounded by the number of slots; a walk that reaches the
bound is counted in `cdtWalkOverruns`.  Loops recurse on the steps that remain.
-/

namespace Caprock.Cap

open Mem Word

/-- A node of the derivation tree. -/
structure Mdb where
  parent : Option Nat
  firstChild : Option Nat
  nextSibling : Option Nat
  prevSibling : Option Nat
  deriving DecidableEq, Repr

def Mdb.empty : Mdb := ⟨none, none, none, none⟩

structure CapSlot where
  used : Bool
  gen : Nat
  object : Nat
  rights : Rights
  badge : Nat
  subregion : Option PhysRegion
  mdb : Mdb
  deriving DecidableEq, Repr

def CapSlot.empty : CapSlot := ⟨false, 0, 0, Rights.none, 0, none, Mdb.empty⟩

structure CapSpace where
  slots : Slab CapSlot
  objects : Slab Object
  peakSlots : Nat
  peakObjects : Nat
  peakCdtWalk : Nat
  peakRevokeOps : Nat
  cdtWalkOverruns : Nat

/-- Table sizes.  The kernel dimensions both tables by the constant `CAP_SLOTS_TOTAL`,
far below the range of a reference count. -/
structure Tabellen where
  slots : Nat
  objects : Nat
  slots_lt : slots < 2 ^ 32

/-- Tables of at most 255 places. -/
def Tabellen.klein (slots objects : UInt8) : Tabellen :=
  ⟨slots.toNat, objects.toNat, slots.toNat_lt.trans (by decide)⟩

/-- The window `[offset, offset + len)` of a region; refused, never cut off. -/
def teilfensterRechnen (whole : PhysRegion) (offset len : Nat) : Except CapError PhysRegion :=
  if len = 0 then .error .subregion
  else
    match checkedAdd whole.base offset with
    | none => .error .subregion
    | some base =>
        match checkedAdd base len, checkedAdd whole.base whole.len with
        | some ende, some wholeEnde =>
            if wholeEnde < ende then .error .subregion else .ok ⟨base, len⟩
        | _, _ => .error .subregion

namespace CapSpace

def attached (tab : Tabellen) : CapSpace where
  slots := Slab.attach tab.slots fun _ => CapSlot.empty
  objects := Slab.attach tab.objects fun _ => Object.empty
  peakSlots := 0
  peakObjects := 0
  peakCdtWalk := 0
  peakRevokeOps := 0
  cdtWalkOverruns := 0

def modifySlot (s : CapSpace) (i : Nat) (f : CapSlot → CapSlot) : CapSpace :=
  { s with slots := s.slots.modify i f }

def modifyMdb (s : CapSpace) (i : Nat) (f : Mdb → Mdb) : CapSpace :=
  s.modifySlot i fun c => { c with mdb := f c.mdb }

def setParent (s : CapSpace) (i : Nat) (v : Option Nat) : CapSpace :=
  s.modifyMdb i fun m => { m with parent := v }

def setFirstChild (s : CapSpace) (i : Nat) (v : Option Nat) : CapSpace :=
  s.modifyMdb i fun m => { m with firstChild := v }

def setNextSibling (s : CapSpace) (i : Nat) (v : Option Nat) : CapSpace :=
  s.modifyMdb i fun m => { m with nextSibling := v }

def setPrevSibling (s : CapSpace) (i : Nat) (v : Option Nat) : CapSpace :=
  s.modifyMdb i fun m => { m with prevSibling := v }

def setMdb (s : CapSpace) (i : Nat) (m : Mdb) : CapSpace :=
  s.modifyMdb i fun _ => m

def modifyObject (s : CapSpace) (o : Nat) (f : Object → Object) : CapSpace :=
  { s with objects := s.objects.modify o f }

def parent (s : CapSpace) (i : Nat) : Option Nat := (s.slots.cell i).mdb.parent

def firstChild (s : CapSpace) (i : Nat) : Option Nat := (s.slots.cell i).mdb.firstChild

def nextSibling (s : CapSpace) (i : Nat) : Option Nat := (s.slots.cell i).mdb.nextSibling

def prevSibling (s : CapSpace) (i : Nat) : Option Nat := (s.slots.cell i).mdb.prevSibling

def cdtStepLimit (s : CapSpace) : Nat := s.slots.len

def noteWalk (s : CapSpace) (steps : Nat) : CapSpace :=
  if s.peakCdtWalk < steps then { s with peakCdtWalk := steps } else s

def noteRevoke (s : CapSpace) (ops : Nat) : CapSpace :=
  if s.peakRevokeOps < ops then { s with peakRevokeOps := ops } else s

def noteOverrun (s : CapSpace) : CapSpace :=
  { s with cdtWalkOverruns := min (s.cdtWalkOverruns + 1) u32Max }

def ptr (s : CapSpace) (slot : Nat) : CapPtr := ⟨slot, (s.slots.cell slot).gen⟩

def resolve (s : CapSpace) (p : CapPtr) : Except CapError Nat :=
  if p.slot < s.slots.len ∧ (s.slots.cell p.slot).used = true ∧ (s.slots.cell p.slot).gen = p.gen
  then .ok p.slot
  else .error .invalid

def usedSlots (s : CapSpace) : Nat :=
  (List.range s.slots.len).countP fun i => (s.slots.cell i).used

def usedObjects (s : CapSpace) : Nat :=
  (List.range s.objects.len).countP fun o => (s.objects.cell o).used

def freeSlotIndex (s : CapSpace) : Except CapError Nat :=
  match s.slots.position fun c => !c.used with
  | some i => .ok i
  | none => .error .noSlot

def allocSlot (s : CapSpace) (object : Nat) (rights : Rights) (badge : Nat) :
    Except CapError Nat × CapSpace :=
  match s.freeSlotIndex with
  | .error e => (.error e, s)
  | .ok i =>
      let s := s.modifySlot i fun c => ⟨true, c.gen, object, rights, badge, none, Mdb.empty⟩
      (.ok i, { s with peakSlots := max s.peakSlots s.usedSlots })

/-- The generation moves on, so that old handles no longer resolve. -/
def releaseSlot (s : CapSpace) (slot : Nat) : CapSpace :=
  s.modifySlot slot fun c => { CapSlot.empty with gen := (c.gen + 1) % 2 ^ 32 }

def allocObject (s : CapSpace) (kind : ObjectKind) : Except CapError Nat × CapSpace :=
  match s.objects.position fun o => !o.used with
  | none => (.error .noObject, s)
  | some i =>
      let s := s.modifyObject i fun o => ⟨true, kind, 1, o.gen⟩
      (.ok i, { s with peakObjects := max s.peakObjects s.usedObjects })

def linkChild (s : CapSpace) (parent child : Nat) : CapSpace :=
  let oldFirst := s.firstChild parent
  let s := s.setParent child (some parent)
  let s := s.setPrevSibling child none
  let s := s.setNextSibling child oldFirst
  let s :=
    match oldFirst with
    | some f => s.setPrevSibling f (some child)
    | none => s
  s.setFirstChild parent (some child)

/-- Bend the links that point to slot `i`: what pointed forward to it becomes `vor`,
what pointed back to it becomes `nach`. -/
def nachbarnUmbiegen (s : CapSpace) (i : Nat) (vor nach : Option Nat) : CapSpace :=
  let mdb := (s.slots.cell i).mdb
  let s :=
    match mdb.prevSibling with
    | some p => s.setNextSibling p vor
    | none =>
        match mdb.parent with
        | some par => s.setFirstChild par vor
        | none => s
  match mdb.nextSibling with
  | some n => s.setPrevSibling n nach
  | none => s

/-- Take `slot` out of its child list. -/
def unlink (s : CapSpace) (slot : Nat) : CapSpace :=
  (s.nachbarnUmbiegen slot (s.nextSibling slot) (s.prevSibling slot)).setMdb slot Mdb.empty

/-- Descend along `first_child`; at most `n` more steps. -/
def descendToLeaf (slots : Slab CapSlot) : Nat → Nat → Nat → Option (Nat × Nat)
  | n, steps, leaf =>
      match slots.get leaf with
      | none => none
      | some c =>
          match c.mdb.firstChild, n with
          | none, _ => some (leaf, steps)
          | some _, 0 => none
          | some k, n + 1 => descendToLeaf slots n (steps + 1) k

/-- Count siblings from `cur` on; at most `n` more. -/
def countFrom (slots : Slab CapSlot) : Nat → Nat → Option Nat → Option Nat
  | _, k, none => some k
  | 0, _, some _ => none
  | n + 1, k, some i =>
      match slots.get i with
      | none => none
      | some c => countFrom slots n (k + 1) c.mdb.nextSibling

def countChildren (slots : Slab CapSlot) (parent limit : Nat) : Option Nat :=
  match slots.get parent with
  | none => none
  | some c => countFrom slots limit 0 c.mdb.firstChild

/-- The siblings from `cur` on; at most `n`. -/
def geschwister (slots : Slab CapSlot) : Nat → Option Nat → List Nat
  | _, none => []
  | 0, some _ => []
  | n + 1, some i => i :: geschwister slots n (slots.cell i).mdb.nextSibling

def kinder (s : CapSpace) (p : Nat) : List Nat := geschwister s.slots s.slots.len (s.firstChild p)

/-- Give the children from `child` on the parent `dst`; at most `n` more. -/
def umhaengen (dst : Nat) : Nat → Nat → Option Nat → CapSpace → Nat × CapSpace
  | _, steps, none, s => (steps, s)
  | 0, steps, some _, s => (steps + 1, s.noteOverrun)
  | n + 1, steps, some c, s =>
      let s := s.setParent c (some dst)
      umhaengen dst n (steps + 1) (s.nextSibling c) s

/-- A fresh object with a root capability.  Without a free slot the object is rolled back. -/
def install (s : CapSpace) (kind : ObjectKind) (rights : Rights) :
    Except CapError CapPtr × CapSpace :=
  match s.allocObject kind with
  | (.error e, s) => (.error e, s)
  | (.ok obj, s) =>
      match s.allocSlot obj rights 0 with
      | (.error e, s) => (.error e, s.modifyObject obj fun o => { o with used := false })
      | (.ok slot, s) => (.ok (s.ptr slot), s)

def installMemory (s : CapSpace) (cap : MemoryCap) : Except CapError CapPtr × CapSpace :=
  s.install (.memory cap.region) cap.rights

def installEndpoint (s : CapSpace) (epId : Nat) (rights : Rights) :
    Except CapError CapPtr × CapSpace :=
  s.install (.endpoint epId) rights

def installTcb (s : CapSpace) (threadRaw : Nat) (rights : Rights) :
    Except CapError CapPtr × CapSpace :=
  s.install (.tcb threadRaw) rights

def installNotification (s : CapSpace) (ntfnId : Nat) (rights : Rights) :
    Except CapError CapPtr × CapSpace :=
  s.install (.notification ntfnId) rights

def installSchedContext (s : CapSpace) (budget period : Nat) (rights : Rights) :
    Except CapError CapPtr × CapSpace :=
  s.install (.schedContext budget period) rights

def installReply (s : CapSpace) (ep caller : Nat) (rights : Rights) :
    Except CapError CapPtr × CapSpace :=
  s.install (.reply ep caller) rights

def installPdControl (s : CapSpace) (pd : Nat) (rights : Rights) :
    Except CapError CapPtr × CapSpace :=
  s.install (.pdControl pd) rights

def installLoader (s : CapSpace) (source : Nat) (rights : Rights) :
    Except CapError CapPtr × CapSpace :=
  s.install (.loader source) rights

def installDebuggable (s : CapSpace) (pd : Nat) (rights : Rights) :
    Except CapError CapPtr × CapSpace :=
  s.install (.debuggable pd) rights

def installMmio (s : CapSpace) (phys len : Nat) (rights : Rights) :
    Except CapError CapPtr × CapSpace :=
  s.install (.mmio phys len) rights

def installSyscallHandler (s : CapSpace) (ep pd sidecar len : Nat) (rights : Rights) :
    Except CapError CapPtr × CapSpace :=
  s.install (.syscallHandler ep pd sidecar len) rights

def installFaultHandler (s : CapSpace) (ep pd sidecar len : Nat) (rights : Rights) :
    Except CapError CapPtr × CapSpace :=
  s.install (.faultHandler ep pd sidecar len) rights

def installIrq (s : CapSpace) (intid : Nat) (rights : Rights) :
    Except CapError CapPtr × CapSpace :=
  s.install (.irq intid) rights

def installDmaEx (s : CapSpace) (phys len : Nat) (dir : DmaDir) (coherence : DmaCoherence)
    (rights : Rights) : Except CapError CapPtr × CapSpace :=
  s.install (.dma phys len dir coherence) rights

def installDma (s : CapSpace) (phys len : Nat) (rights : Rights) :
    Except CapError CapPtr × CapSpace :=
  s.installDmaEx phys len .bidirectional .nonCoherent rights

def wirksam (s : CapSpace) (slot : Nat) : Option PhysRegion :=
  match (s.objects.cell (s.slots.cell slot).object).kind with
  | .memory r => some ((s.slots.cell slot).subregion.getD r)
  | _ => none

/-- The kind of the object behind a slot, narrowed to the slot's window. -/
def kindOfSlot (s : CapSpace) (slot : Nat) : ObjectKind :=
  match (s.objects.cell (s.slots.cell slot).object).kind with
  | .memory r => .memory ((s.slots.cell slot).subregion.getD r)
  | k => k

def lookup (s : CapSpace) (p : CapPtr) : Option (ObjectKind × Rights × Nat) :=
  match s.resolve p with
  | .error _ => none
  | .ok slot => some (s.kindOfSlot slot, (s.slots.cell slot).rights, (s.slots.cell slot).badge)

/-- The common end of `copy` and `subregion`: a child of slot `i` with the given window. -/
def ableiten (s : CapSpace) (i : Nat) (rights : Rights) (fenster : Option PhysRegion) :
    Except CapError CapPtr × CapSpace :=
  let obj := (s.slots.cell i).object
  match s.allocSlot obj ((s.slots.cell i).rights.intersect rights) (s.slots.cell i).badge with
  | (.error e, s) => (.error e, s)
  | (.ok dst, s) =>
      let s := s.modifySlot dst fun c => { c with subregion := fenster }
      let s := s.modifyObject obj fun o => { o with refcount := (o.refcount + 1) % 2 ^ 32 }
      let s := s.linkChild i dst
      (.ok (s.ptr dst), s)

def copy (s : CapSpace) (src : CapPtr) (rights : Rights) : Except CapError CapPtr × CapSpace :=
  match s.resolve src with
  | .error e => (.error e, s)
  | .ok i => s.ableiten i rights (s.slots.cell i).subregion

def mint (s : CapSpace) (src : CapPtr) (rights : Rights) (badge : Nat) :
    Except CapError CapPtr × CapSpace :=
  match s.copy src rights with
  | (.error e, s) => (.error e, s)
  | (.ok dst, s) => (.ok dst, s.modifySlot dst.slot fun c => { c with badge := badge })

def subregion (s : CapSpace) (src : CapPtr) (offset len : Nat) (rights : Rights) :
    Except CapError CapPtr × CapSpace :=
  match s.resolve src with
  | .error e => (.error e, s)
  | .ok i =>
      match s.wirksam i with
      | none => (.error .invalid, s)
      | some w =>
          match teilfensterRechnen w offset len with
          | .error e => (.error e, s)
          | .ok fenster => s.ableiten i rights (some fenster)

/-- Move a capability to a fresh slot; its place in the tree stays. -/
def moveCap (s : CapSpace) (src : CapPtr) : Except CapError CapPtr × CapSpace :=
  match s.resolve src with
  | .error e => (.error e, s)
  | .ok i =>
      match s.freeSlotIndex with
      | .error e => (.error e, s)
      | .ok dst =>
          let slot := s.slots.cell i
          let s := s.modifySlot dst fun c => { slot with gen := c.gen }
          let s := s.nachbarnUmbiegen i (some dst) (some dst)
          let r := umhaengen dst s.cdtStepLimit 0 slot.mdb.firstChild s
          let s := (r.2.noteWalk r.1).releaseSlot i
          (.ok (s.ptr dst), s)

end CapSpace

/-- What a deletion works on: the space, the allocator and the report. -/
structure Abbau where
  caps : CapSpace
  alloc : PhysAllocator
  rf : Finalized

namespace Abbau

def debugMelden (a : Abbau) (slot : Nat) : Abbau :=
  let c := a.caps.slots.cell slot
  match (a.caps.objects.cell c.object).kind with
  | .debuggable pd =>
      if c.rights.contains Rights.write && c.mdb.parent.isSome then
        { a with rf := a.rf.pushDebug pd }
      else a
  | _ => a

/-- The last reference to `obj` is gone. -/
def finalisieren (a : Abbau) (obj : Nat) : Abbau :=
  let a :=
    match (a.caps.objects.cell obj).kind with
    | .memory region => { a with alloc := (a.alloc.freeRegion region).2 }
    | .dma phys len _ _ => { a with rf := a.rf.pushDma phys len }
    | .reply ep caller => { a with rf := a.rf.push ep caller }
    | _ => a
  { a with
    caps := a.caps.modifyObject obj fun o => { Object.empty with gen := (o.gen + 1) % 2 ^ 32 } }

def deleteLeaf (a : Abbau) (slot : Nat) : Abbau :=
  let obj := (a.caps.slots.cell slot).object
  let a := a.debugMelden slot
  let caps := (a.caps.unlink slot).releaseSlot slot
  let caps := caps.modifyObject obj fun o =>
    { o with refcount := (o.refcount + (2 ^ 32 - 1)) % 2 ^ 32 }
  let a := { a with caps := caps }
  if (a.caps.objects.cell obj).refcount = 0 then a.finalisieren obj else a

def delete (a : Abbau) (p : CapPtr) : Except CapError Unit × Abbau :=
  match a.caps.resolve p with
  | .error e => (.error e, a)
  | .ok slot =>
      if (a.caps.firstChild slot).isSome then (.error .hasChildren, a)
      else (.ok (), a.deleteLeaf slot)

def noteOverrun (a : Abbau) : Abbau := { a with caps := a.caps.noteOverrun }

/-- Delete leaves below `slot` until it has no child; at most `n` more after the next. -/
def revokeLoop (slot limit : Nat) : Nat → Nat → Abbau → Nat × Abbau
  | n, ops, a =>
      match a.caps.firstChild slot with
      | none => (ops, a)
      | some child =>
          match CapSpace.descendToLeaf a.caps.slots limit 0 child with
          | none => (ops, a.noteOverrun)
          | some (leaf, steps) =>
              let a := { a with caps := a.caps.noteWalk steps }
              let a := a.deleteLeaf leaf
              match n with
              | 0 => (ops + 1, a.noteOverrun)
              | n + 1 => revokeLoop slot limit n (ops + 1) a

def revoke (a : Abbau) (p : CapPtr) : Except CapError Unit × Abbau :=
  match a.caps.resolve p with
  | .error e => (.error e, a)
  | .ok slot =>
      let limit := a.caps.cdtStepLimit
      let r := revokeLoop slot limit limit 0 a
      (.ok (), { r.2 with caps := r.2.caps.noteRevoke r.1 })

end Abbau

/-- The capability space with the allocator it returns memory to. -/
structure Kern where
  caps : CapSpace
  alloc : PhysAllocator

inductive Op where
  | install (kind : ObjectKind) (rights : Rights)
  | copy (src : CapPtr) (rights : Rights)
  | mint (src : CapPtr) (rights : Rights) (badge : Nat)
  | subregion (src : CapPtr) (offset len : Nat) (rights : Rights)
  | moveCap (src : CapPtr)
  | delete (p : CapPtr) (rf : Finalized)
  | revoke (p : CapPtr) (rf : Finalized)

namespace Kern

def init (tab : Tabellen) (alloc : PhysAllocator) : Kern := ⟨CapSpace.attached tab, alloc⟩

/-- Failing operations are steps too; their result is dropped here. -/
def step (k : Kern) : Op → Option Kern
  | .install kind rights => some { k with caps := (k.caps.install kind rights).2 }
  | .copy src rights => some { k with caps := (k.caps.copy src rights).2 }
  | .mint src rights badge => some { k with caps := (k.caps.mint src rights badge).2 }
  | .subregion src offset len rights =>
      some { k with caps := (k.caps.subregion src offset len rights).2 }
  | .moveCap src => some { k with caps := (k.caps.moveCap src).2 }
  | .delete p rf =>
      let a := (Abbau.delete ⟨k.caps, k.alloc, rf⟩ p).2
      some ⟨a.caps, a.alloc⟩
  | .revoke p rf =>
      let a := (Abbau.revoke ⟨k.caps, k.alloc, rf⟩ p).2
      some ⟨a.caps, a.alloc⟩

end Kern

end Caprock.Cap
