import Mathlib.Data.List.Perm.Basic
import Mathlib.Data.List.Range
import Caprock.Lib.Chain
import Caprock.Lib.Panic
import Caprock.Slab

/-! # The chain of a free list

`FreeList` as the source keeps it: a table of `u32` links, the link to the first free index and a
count.  It stands for the list of the free indices, and no index goes out twice: for every table
that has fewer than `2 ^ 32` cells.  In a larger one the link behind index `2 ^ 32 - 2` is the mark
of the end.
-/

namespace Caprock.Kette

open Panic Chain

def keiner : UInt32 := 4294967295

structure FreeList where
  next : Slab UInt32
  head : UInt32
  count : Nat

/-- `self.next[i]`. -/
def lies (s : Slab UInt32) (i : Nat) : Call Unit UInt32 :=
  if i < s.len then .ok (s.cell i) else .error .panic

def schreib (s : Slab UInt32) (i : Nat) (x : UInt32) : Call Unit (Slab UInt32) :=
  if i < s.len then .ok (s.set i x) else .error .panic

namespace FreeList

def attach (len : Nat) : FreeList where
  next := Slab.attach len fun i => if i + 1 < len then UInt32.ofNat (i + 1) else keiner
  head := if len = 0 then keiner else 0
  count := len

def alloc (l : FreeList) : Call Unit (Option Nat × FreeList) :=
  if l.head = keiner then .ok (none, l)
  else
    let i := l.head.toNat
    (lies l.next i).bind fun head => (schreib l.next i keiner).bind fun next =>
      (sub l.count 1).bind fun count => .ok (some i, ⟨next, head, count⟩)

def free (l : FreeList) (i : Nat) : Call Unit FreeList :=
  if l.next.len ≤ i then .ok l
  else
    (schreib l.next i l.head).bind fun next => (add 64 l.count 1).bind fun count =>
      .ok ⟨next, UInt32.ofNat i, count⟩

def available (l : FreeList) : Nat := l.count

def capacity (l : FreeList) : Nat := l.next.len

end FreeList

def ziel (c : UInt32) : Option Nat := if c = keiner then none else some c.toNat

variable {l : FreeList} {aus : List Nat}

theorem toNat_ofNat {i : Nat} (h : i < 2 ^ 32) : (UInt32.ofNat i).toNat = i :=
  UInt32.toNat_ofNat_of_lt' h

theorem ziel_ofNat {i : Nat} (h : i < 2 ^ 32 - 1) : ziel (UInt32.ofNat i) = some i := by
  have hval := toNat_ofNat (show i < 2 ^ 32 by omega)
  have hne : UInt32.ofNat i ≠ keiner := by
    intro heq
    have hi : i = keiner.toNat := by rw [← heq, hval]
    rw [show keiner.toNat = 2 ^ 32 - 1 from rfl] at hi
    omega
  rw [ziel, if_neg hne, hval]

/-- The chain goes through the free indices of `a`, and their number is kept. -/
structure Steht (l : FreeList) (a : Caprock.FreeList) : Prop where
  linked : Linked ziel l.next.cell l.head a.frei
  innen : ∀ i ∈ a.frei, i < l.next.len
  nodup : a.frei.Nodup
  zahl : l.count = a.frei.length
  len : l.next.len = a.capacity

/-- The link to index `k` as `attach` writes it. -/
def kette (len k : Nat) : UInt32 := if k < len then UInt32.ofNat k else keiner

theorem steht_attach {len : Nat} (h : len < 2 ^ 32) :
    Steht (FreeList.attach len) (Caprock.FreeList.attach len) where
  linked := by
    have htarget : ∀ k, k < len → ziel (kette len k) = some k := by
      intro k hk
      rw [kette, if_pos hk, ziel_ofNat (by omega)]
    have hend : ziel (kette len len) = none := by
      rw [kette, if_neg (Nat.lt_irrefl len)]
      rfl
    have hlinked : Linked ziel (FreeList.attach len).next.cell (kette len 0)
        (List.range' 0 (len - 0)) := linked_range' htarget hend (fun _ _ => rfl) (Nat.zero_le len)
    rw [Nat.sub_zero, ← List.range_eq_range', kette] at hlinked
    rcases Nat.eq_zero_or_pos len with rfl | hpos
    · exact hlinked
    · rw [if_pos hpos] at hlinked
      have hhead : (FreeList.attach len).head = UInt32.ofNat 0 := if_neg (by omega)
      rw [hhead]
      exact hlinked
  innen := fun _ hi => List.mem_range.mp hi
  nodup := List.nodup_range
  zahl := List.length_range.symm
  len := rfl

theorem Steht.alloc_none {a : Caprock.FreeList} (h : Steht l a) (hfrei : a.frei = []) :
    l.alloc = .ok (none, l) := by
  have htarget := h.linked.target_eq
  rw [hfrei, List.head?_nil, ziel] at htarget
  by_cases hhead : l.head = keiner
  · exact if_pos hhead
  · rw [if_neg hhead] at htarget
    cases htarget

theorem Steht.alloc_some {a : Caprock.FreeList} (h : Steht l a) {i : Nat} {rest : List Nat}
    (hfrei : a.frei = i :: rest) :
    ∃ l', l.alloc = .ok (some i, l') ∧ Steht l' { a with frei := rest } := by
  have htarget := h.linked.target_eq
  have hinner := h.innen i (by rw [hfrei]; exact List.mem_cons_self)
  have hcount := h.zahl
  have hlinked := h.linked
  have hnodup := h.nodup
  rw [hfrei] at htarget hcount hlinked hnodup
  obtain ⟨hnot, hnodup'⟩ := List.nodup_cons.mp hnodup
  rw [List.head?_cons, ziel] at htarget
  have hhead : l.head ≠ keiner := by
    intro heq
    rw [if_pos heq] at htarget
    cases htarget
  rw [if_neg hhead] at htarget
  have hi : l.head.toNat = i := Option.some.inj htarget
  rw [List.length_cons] at hcount
  refine ⟨⟨l.next.set i keiner, l.next.cell i, l.count - 1⟩, ?_, ?_⟩
  · rw [FreeList.alloc, if_neg hhead]
    have hcount : 1 ≤ l.count := by omega
    simp only [hi, lies, schreib, if_pos hinner, Except.bind, sub, if_pos hcount]
  · exact
      { linked := hlinked.2.update hnot keiner
        innen := fun j hj => h.innen j (by rw [hfrei]; exact List.mem_cons_of_mem _ hj)
        nodup := hnodup'
        zahl := by
          change l.count - 1 = rest.length
          omega
        len := h.len }

theorem Steht.free {a : Caprock.FreeList} (h : Steht l a) {i : Nat} (hi : i < l.next.len)
    (hklein : i < 2 ^ 32 - 1) (hnot : i ∉ a.frei) (hzahl : l.count + 1 < 2 ^ 64) :
    ∃ l', l.free i = .ok l' ∧ Steht l' (a.free i) := by
  have hout : ¬ l.next.len ≤ i := by omega
  have hcap : i < a.capacity := by rw [← h.len]; exact hi
  refine ⟨⟨l.next.set i l.head, UInt32.ofNat i, l.count + 1⟩, ?_, ?_⟩
  · rw [FreeList.free, if_neg hout]
    simp only [schreib, if_pos hi, Except.bind, add, if_pos hzahl]
  · rw [Caprock.FreeList.free, if_pos hcap]
    exact
      { linked := h.linked.push hnot (ziel_ofNat hklein)
        innen := by
          intro j hj
          rcases List.mem_cons.mp hj with rfl | hj
          · exact hi
          · exact h.innen j hj
        nodup := List.nodup_cons.mpr ⟨hnot, h.nodup⟩
        zahl := by
          rw [List.length_cons, ← h.zahl]
        len := h.len }

/-- What a sequence of calls can leave, with the indices that are handed out. -/
inductive Erreicht (len : Nat) : FreeList → List Nat → Prop where
  | attach : Erreicht len (.attach len) []
  | alloc {l l' : FreeList} {aus : List Nat} {i : Nat} (h : Erreicht len l aus)
      (hi : l.alloc = .ok (some i, l')) : Erreicht len l' (i :: aus)
  | voll {l l' : FreeList} {aus : List Nat} (h : Erreicht len l aus)
      (hnone : l.alloc = .ok (none, l')) : Erreicht len l' aus
  | free {l l' : FreeList} {aus : List Nat} {i : Nat} (h : Erreicht len l aus) (hi : i ∈ aus)
      (hl : l.free i = .ok l') : Erreicht len l' (aus.erase i)

structure InOrdnung (len : Nat) (l : FreeList) (aus : List Nat) : Prop where
  einmal : aus.Nodup
  innen : ∀ i ∈ aus, i < len
  alloc : ∃ r, l.alloc = .ok r ∧ (r.1 = none ↔ ∀ i, i < len → i ∈ aus)
  free : ∀ i ∈ aus, ∃ l', l.free i = .ok l'
  summe : l.available + aus.length = len

/-- The list of the free indices together with those that are out are all of them. -/
structure Aufgeteilt (len : Nat) (l : FreeList) (aus : List Nat) (a : Caprock.FreeList) : Prop where
  steht : Steht l a
  kapazitaet : a.capacity = len
  alle : (a.frei ++ aus).Perm (List.range len)

theorem Aufgeteilt.nodup {len : Nat} {a : Caprock.FreeList} (h : Aufgeteilt len l aus a) :
    (a.frei ++ aus).Nodup :=
  h.alle.nodup_iff.mpr List.nodup_range

theorem Aufgeteilt.lt {len : Nat} {a : Caprock.FreeList} (h : Aufgeteilt len l aus a) {i : Nat}
    (hi : i ∈ a.frei ∨ i ∈ aus) : i < len :=
  List.mem_range.mp (h.alle.mem_iff.mp (List.mem_append.mpr hi))

theorem Aufgeteilt.free {len : Nat} {a : Caprock.FreeList} (h : Aufgeteilt len l aus a)
    (hlen : len < 2 ^ 32) {i : Nat} (hi : i ∈ aus) :
    ∃ l', l.free i = .ok l' ∧ Aufgeteilt len l' (aus.erase i) (a.free i) := by
  have hlt := h.lt (.inr hi)
  have hnot : i ∉ a.frei := fun hfrei => (List.nodup_append.mp h.nodup).2.2 i hfrei i hi rfl
  have hinner : i < l.next.len := by rw [h.steht.len, h.kapazitaet]; exact hlt
  have htotal : a.frei.length + aus.length = len := by
    rw [← List.length_append, h.alle.length_eq, List.length_range]
  have hcount := h.steht.zahl
  obtain ⟨l', hl, hsteht⟩ := h.steht.free hinner (by omega) hnot (by omega)
  refine ⟨l', hl, hsteht, ?_, ?_⟩
  · rw [Caprock.FreeList.free, if_pos (by rw [h.kapazitaet]; exact hlt)]
    exact h.kapazitaet
  · rw [Caprock.FreeList.free, if_pos (by rw [h.kapazitaet]; exact hlt)]
    have hout : aus.Perm (i :: aus.erase i) := List.perm_cons_erase hi
    have hmove : (i :: a.frei ++ aus.erase i).Perm (a.frei ++ i :: aus.erase i) :=
      List.perm_middle.symm
    exact hmove.trans ((hout.symm.append_left a.frei).trans h.alle)

theorem Aufgeteilt.alloc {len : Nat} {a : Caprock.FreeList} (h : Aufgeteilt len l aus a) :
    (a.frei = [] ∧ l.alloc = .ok (none, l)) ∨
      ∃ i rest l', a.frei = i :: rest ∧ l.alloc = .ok (some i, l') ∧
        Aufgeteilt len l' (i :: aus) { a with frei := rest } := by
  cases hfrei : a.frei with
  | nil => exact .inl ⟨rfl, h.steht.alloc_none hfrei⟩
  | cons i rest =>
    obtain ⟨l', hl, hsteht⟩ := h.steht.alloc_some hfrei
    have halle := h.alle
    rw [hfrei] at halle
    exact .inr ⟨i, rest, l', rfl, hl, hsteht, h.kapazitaet, List.perm_middle.trans halle⟩

theorem Erreicht.aufgeteilt {len : Nat} (hlen : len < 2 ^ 32) (h : Erreicht len l aus) :
    ∃ a, Aufgeteilt len l aus a := by
  induction h with
  | attach =>
    refine ⟨.attach len, steht_attach hlen, rfl, ?_⟩
    rw [List.append_nil]
    exact List.Perm.refl _
  | alloc _ hi ih =>
    obtain ⟨a, ha⟩ := ih
    rcases ha.alloc with ⟨-, hnone⟩ | ⟨j, rest, l', -, hl, hnext⟩
    · rw [hnone] at hi
      cases hi
    · rw [hl] at hi
      cases hi
      exact ⟨_, hnext⟩
  | voll _ hnone ih =>
    obtain ⟨a, ha⟩ := ih
    rcases ha.alloc with ⟨-, hsame⟩ | ⟨j, rest, l', -, hl, -⟩
    · rw [hsame] at hnone
      cases hnone
      exact ⟨a, ha⟩
    · rw [hl] at hnone
      cases hnone
  | free _ hi hl ih =>
    obtain ⟨a, ha⟩ := ih
    obtain ⟨l', hl', hnext⟩ := ha.free hlen hi
    rw [hl'] at hl
    cases hl
    exact ⟨_, hnext⟩

theorem Aufgeteilt.inOrdnung {len : Nat} {a : Caprock.FreeList} (h : Aufgeteilt len l aus a)
    (hlen : len < 2 ^ 32) :
    InOrdnung len l aus where
  einmal := (List.nodup_append.mp h.nodup).2.1
  innen := fun _ hi => h.lt (.inr hi)
  alloc := by
    rcases h.alloc with ⟨hfrei, hnone⟩ | ⟨i, rest, l', hfrei, hl, -⟩
    · refine ⟨_, hnone, fun _ i hi => ?_, fun _ => rfl⟩
      have hmem := h.alle.mem_iff.mpr (List.mem_range.mpr hi)
      rwa [hfrei] at hmem
    · refine ⟨_, hl, fun hcontra => ?_, fun hall => ?_⟩
      · cases hcontra
      · have hmem : i ∈ a.frei := by rw [hfrei]; exact List.mem_cons_self
        exact absurd rfl ((List.nodup_append.mp h.nodup).2.2 i hmem i (hall i (h.lt (.inl hmem))))
  free := by
    intro i hi
    obtain ⟨l', hl, -⟩ := h.free hlen hi
    exact ⟨l', hl⟩
  summe := by
    rw [FreeList.available, h.steht.zahl, ← List.length_append, h.alle.length_eq,
      List.length_range]

theorem erreicht_allocs {len : Nat} (hlen : 2 ^ 32 ≤ len) {k : Nat} (hk : k ≤ 2 ^ 32 - 1) :
    ∃ l, Erreicht len l (List.range k).reverse ∧ l.head = UInt32.ofNat k ∧
      l.next.len = len ∧ l.count = len - k ∧
      ∀ i, k ≤ i → l.next.cell i = (FreeList.attach len).next.cell i := by
  induction k with
  | zero =>
    refine ⟨.attach len, .attach, ?_, rfl, rfl, fun i _ => rfl⟩
    exact if_neg (by omega)
  | succ k ih =>
    obtain ⟨l, hl, hhead, hsize, hcount, hcells⟩ := ih (by omega)
    have hval : l.head.toNat = k := by
      rw [hhead]
      exact toNat_ofNat (by omega)
    have hne : l.head ≠ keiner := by
      intro heq
      rw [heq, show keiner.toNat = 2 ^ 32 - 1 from rfl] at hval
      omega
    have hcell : l.next.cell k = UInt32.ofNat (k + 1) := by
      rw [hcells k (Nat.le_refl k)]
      exact if_pos (by omega)
    refine ⟨⟨l.next.set k keiner, UInt32.ofNat (k + 1), len - (k + 1)⟩, ?_, rfl, hsize, rfl, ?_⟩
    · rw [List.range_succ, List.reverse_append, List.reverse_singleton, List.singleton_append]
      refine hl.alloc ?_
      have hinner : k < l.next.len := by omega
      rw [FreeList.alloc, if_neg hne]
      simp only [hval, lies, schreib, if_pos hinner, hcell, Except.bind, sub, hcount,
        if_pos (show 1 ≤ len - k by omega), Nat.sub_sub]
    · intro i hi
      rw [Slab.set_cell_of_ne _ (by omega)]
      exact hcells i (by omega)

theorem not_inOrdnung {len : Nat} (hlen : 2 ^ 32 ≤ len) :
    ∃ l aus, Erreicht len l aus ∧ ¬ InOrdnung len l aus := by
  obtain ⟨l, hl, hhead, -⟩ := erreicht_allocs hlen (k := 2 ^ 32 - 1) (Nat.le_refl _)
  refine ⟨l, _, hl, fun hok => ?_⟩
  obtain ⟨r, hr, hnone⟩ := hok.alloc
  have hend : l.alloc = .ok (none, l) := if_pos (hhead.trans rfl)
  rw [hend] at hr
  cases hr
  have hmem := hnone.mp rfl (2 ^ 32 - 1) (by omega)
  rw [List.mem_reverse, List.mem_range] at hmem
  exact Nat.lt_irrefl _ hmem

/-- Every run keeps its indices apart and loses none exactly for fewer than `2 ^ 32` cells. -/
theorem freeList_genau (len : Nat) :
    (∀ l aus, Erreicht len l aus → InOrdnung len l aus) ↔ len < 2 ^ 32 := by
  constructor
  · intro hall
    by_contra hlen
    obtain ⟨l, aus, hl, hnot⟩ := not_inOrdnung (not_lt.mp hlen)
    exact hnot (hall l aus hl)
  · intro hlen l aus hl
    obtain ⟨a, ha⟩ := hl.aufgeteilt hlen
    exact ha.inOrdnung hlen

/-- A table of `2 ^ 32` cells hands out one index too few. -/
theorem freeList_eine_zu_viel :
    ¬ ∀ l aus, Erreicht (2 ^ 32) l aus → InOrdnung (2 ^ 32) l aus := by
  intro hall
  obtain ⟨l, aus, hl, hnot⟩ := not_inOrdnung (Nat.le_refl (2 ^ 32))
  exact hnot (hall l aus hl)

end Caprock.Kette
