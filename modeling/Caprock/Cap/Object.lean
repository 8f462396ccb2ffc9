import Caprock.Mem.Alloc

/-! # Kernel objects

The objects capabilities refer to, and the report a deletion hands back to the kernel.
Several capabilities may name one object; its reference count decides when it is
finalized.
-/

namespace Caprock.Cap

open Mem

inductive DmaDir where
  | deviceRead
  | deviceWrite
  | bidirectional
  deriving DecidableEq, Repr

inductive DmaCoherence where
  | coherent
  | nonCoherent
  deriving DecidableEq, Repr

inductive ObjectKind where
  | memory (region : PhysRegion)
  | endpoint (id : Nat)
  | tcb (threadRaw : Nat)
  | notification (id : Nat)
  | schedContext (budget period : Nat)
  | reply (ep caller : Nat)
  | pdControl (pd : Nat)
  | loader (source : Nat)
  | mmio (phys len : Nat)
  | irq (intid : Nat)
  | dma (phys len : Nat) (dir : DmaDir) (coherence : DmaCoherence)
  | syscallHandler (ep pd sidecar len : Nat)
  | faultHandler (ep pd sidecar len : Nat)
  | debuggable (pd : Nat)
  deriving DecidableEq, Repr

structure Object where
  used : Bool
  kind : ObjectKind
  refcount : Nat
  gen : Nat
  deriving DecidableEq, Repr

def Object.empty : Object := ⟨false, .memory ⟨0, 0⟩, 0, 0⟩

inductive CapError where
  | noSlot
  | noObject
  | invalid
  | hasChildren
  | subregion
  deriving DecidableEq, Repr

/-- `Finalized`: three borrowed buffers, filled from the front. -/
structure Finalized where
  itemsLen : Nat
  items : List (Nat × Nat)
  dmaLen : Nat
  dma : List (Nat × Nat)
  debugLen : Nat
  debug : List Nat
  overflow : Bool
  deriving DecidableEq, Repr

namespace Finalized

def mitDebug (itemsLen dmaLen debugLen : Nat) : Finalized :=
  ⟨itemsLen, [], dmaLen, [], debugLen, [], false⟩

def new (itemsLen dmaLen : Nat) : Finalized := mitDebug itemsLen dmaLen 0

def push (rf : Finalized) (ep caller : Nat) : Finalized :=
  if rf.items.length < rf.itemsLen then { rf with items := rf.items ++ [(ep, caller)] }
  else { rf with overflow := true }

def pushDma (rf : Finalized) (phys len : Nat) : Finalized :=
  if rf.dma.length < rf.dmaLen then { rf with dma := rf.dma ++ [(phys, len)] }
  else { rf with overflow := true }

def pushDebug (rf : Finalized) (pd : Nat) : Finalized :=
  if rf.debug.length < rf.debugLen then { rf with debug := rf.debug ++ [pd] }
  else { rf with overflow := true }

end Finalized

end Caprock.Cap
