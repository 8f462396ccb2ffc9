import Mathlib.Algebra.Group.Nat.Defs
import Mathlib.Logic.Basic

/-! # Handles

Kernel objects are named by a table index together with a generation, so that a
handle to an earlier occupant of the index can be told from the present one.
-/

namespace Caprock

/-- `CapPtr`: index of a capability slot and the slot's generation. -/
structure CapPtr where
  slot : Nat
  gen : Nat
  deriving DecidableEq, Repr

/-- `ThreadId`: global thread slot and its generation. -/
structure ThreadId where
  slot : Nat
  gen : Nat
  deriving DecidableEq, Repr

/-- The sentinel `u32::MAX`. -/
def u32Max : Nat := 2 ^ 32 - 1

end Caprock
