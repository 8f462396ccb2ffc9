import Mathlib.Algebra.Group.Nat.Defs
import Mathlib.Logic.Function.Basic

/-! # Boot-time tables

`Slab<T>` is a table whose capacity is fixed once, when memory is attached.  The
model keeps the capacity and the content as a function of the index; `set`
writes one cell.  An index outside the capacity panics in the source, so the
models state for every access why it is inside.
-/

namespace Caprock

/-- `Slab<T>`: `len` cells, indexed from `0`. -/
structure Slab (α : Type) where
  len : Nat
  cell : Nat → α

namespace Slab

variable {α : Type}

/-- `Slab::attach`: every cell is written by `init`. -/
def attach (len : Nat) (init : Nat → α) : Slab α :=
  ⟨len, init⟩

def get (s : Slab α) (i : Nat) : Option α :=
  if i < s.len then some (s.cell i) else none

/-- Overwrite cell `i`. -/
def set (s : Slab α) (i : Nat) (v : α) : Slab α :=
  { s with cell := Function.update s.cell i v }

/-- Change cell `i` in place. -/
def modify (s : Slab α) (i : Nat) (f : α → α) : Slab α :=
  s.set i (f (s.cell i))

/-- The number of cells that satisfy `p`. -/
def count (s : Slab α) (p : α → Bool) : Nat :=
  (List.range s.len).countP fun i => p (s.cell i)

/-- Index of the first cell that satisfies `p`, as `iter().position(p)` finds it. -/
def position (s : Slab α) (p : α → Bool) : Option Nat :=
  (List.range s.len).find? fun i => p (s.cell i)

@[simp] theorem attach_len (len : Nat) (init : Nat → α) : (attach len init).len = len := rfl

@[simp] theorem attach_cell (len : Nat) (init : Nat → α) (i : Nat) :
    (attach len init).cell i = init i := rfl

@[simp] theorem set_len (s : Slab α) (i : Nat) (v : α) : (s.set i v).len = s.len := rfl

@[simp] theorem modify_len (s : Slab α) (i : Nat) (f : α → α) : (s.modify i f).len = s.len := rfl

theorem set_cell (s : Slab α) (i j : Nat) (v : α) :
    (s.set i v).cell j = if j = i then v else s.cell j := by
  simp [set, Function.update_apply]

theorem modify_cell (s : Slab α) (i j : Nat) (f : α → α) :
    (s.modify i f).cell j = if j = i then f (s.cell i) else s.cell j := by
  simp [modify, set_cell]

@[simp] theorem set_cell_self (s : Slab α) (i : Nat) (v : α) : (s.set i v).cell i = v := by
  simp [set_cell]

theorem set_cell_of_ne (s : Slab α) {i j : Nat} (h : j ≠ i) (v : α) :
    (s.set i v).cell j = s.cell j := by
  simp [set_cell, h]

@[simp] theorem modify_cell_self (s : Slab α) (i : Nat) (f : α → α) :
    (s.modify i f).cell i = f (s.cell i) := by
  simp [modify_cell]

theorem modify_cell_of_ne (s : Slab α) {i j : Nat} (h : j ≠ i) (f : α → α) :
    (s.modify i f).cell j = s.cell j := by
  simp [modify_cell, h]

theorem count_congr {s s' : Slab α} {p : α → Bool} (hlen : s'.len = s.len)
    (h : ∀ i, p (s'.cell i) = p (s.cell i)) : s'.count p = s.count p := by
  unfold count
  rw [hlen]
  exact List.countP_congr fun i _ => by rw [h]

theorem count_pos {s : Slab α} {p : α → Bool} {i : Nat} (hi : i < s.len) (hp : p (s.cell i) = true) :
    0 < s.count p :=
  List.countP_pos_iff.mpr ⟨i, List.mem_range.mpr hi, hp⟩

/-- Overwriting a cell counts the new content for the old one. -/
theorem count_set (s : Slab α) {i : Nat} (hi : i < s.len) (v : α) (p : α → Bool) :
    (s.set i v).count p + (p (s.cell i)).toNat = s.count p + (p v).toNat := by
  have hprefix : ∀ n, i < n →
      (List.range n).countP (fun j => p ((s.set i v).cell j)) + (p (s.cell i)).toNat =
        (List.range n).countP (fun j => p (s.cell j)) + (p v).toNat := by
    intro n
    induction n with
    | zero => intro hi; omega
    | succ n ih =>
      intro hlt
      rw [List.range_succ, List.countP_append, List.countP_append, List.countP_singleton,
        List.countP_singleton, set_cell]
      by_cases hin : n = i
      · subst hin
        have hbelow : (List.range n).countP (fun j => p ((s.set n v).cell j)) =
            (List.range n).countP (fun j => p (s.cell j)) := by
          refine List.countP_congr fun j hj => ?_
          have hne : j ≠ n := Nat.ne_of_lt (List.mem_range.mp hj)
          rw [set_cell_of_ne s hne]
        rw [if_pos rfl, hbelow]
        cases p v <;> cases p (s.cell n) <;> simp
      · rw [if_neg hin]
        have hrec := ih (by omega)
        omega
  exact hprefix s.len hi

theorem position_eq_some {s : Slab α} {p : α → Bool} {i : Nat} (h : s.position p = some i) :
    i < s.len ∧ p (s.cell i) = true := by
  have hp := List.find?_some h
  have hmem := List.mem_of_find?_eq_some h
  exact ⟨List.mem_range.mp hmem, hp⟩

theorem position_eq_none {s : Slab α} {p : α → Bool} (h : s.position p = none) (i : Nat)
    (hi : i < s.len) : p (s.cell i) = false := by
  have hall := List.find?_eq_none.mp h i (List.mem_range.mpr hi)
  simpa using hall

end Slab

/-- `FreeList`: the free indices below the capacity, next one first.  The source chains
them through an array; freeing a free index twice would close the chain to a cycle. -/
structure FreeList where
  capacity : Nat
  frei : List Nat

namespace FreeList

/-- `FreeList::attach`: every index is free, `0` first. -/
def attach (len : Nat) : FreeList :=
  ⟨len, List.range len⟩

def alloc (l : FreeList) : Option (Nat × FreeList) :=
  match l.frei with
  | [] => none
  | i :: rest => some (i, { l with frei := rest })

def free (l : FreeList) (i : Nat) : FreeList :=
  if i < l.capacity then { l with frei := i :: l.frei } else l

theorem alloc_eq_some {l l' : FreeList} {i : Nat} (h : l.alloc = some (i, l')) :
    l.frei = i :: l'.frei ∧ l'.capacity = l.capacity := by
  unfold alloc at h
  split at h
  · cases h
  · next heq =>
    cases h
    exact ⟨heq, rfl⟩

end FreeList

end Caprock
