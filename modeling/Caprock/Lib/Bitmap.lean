import Mathlib.Data.Finset.Card
import Mathlib.Data.Finset.Range

/-! # Bitmaps

A list of words is a set of numbers: number `i` is bit `i % w` of word `i / w`.
-/

namespace Bitmap

variable {w : Nat} {ws : List (BitVec w)} {i j : Nat}

/-- Number `i` is in the bitmap. -/
def bit (ws : List (BitVec w)) (i : Nat) : Bool := (ws.getD (i / w) 0#w).getLsbD (i % w)

def set (ws : List (BitVec w)) (i : Nat) : List (BitVec w) :=
  ws.modify (i / w) fun x => x ||| (1#w <<< (i % w))

def clear (ws : List (BitVec w)) (i : Nat) : List (BitVec w) :=
  ws.modify (i / w) fun x => x &&& ~~~(1#w <<< (i % w))

def count (ws : List (BitVec w)) : Nat := {i ∈ Finset.range (w * ws.length) | bit ws i = true}.card

@[simp] theorem length_set : (set ws i).length = ws.length := List.length_modify ..

@[simp] theorem length_clear : (clear ws i).length = ws.length := List.length_modify ..

theorem lt_of_bit (h : bit ws i = true) : i < w * ws.length := by
  have hword : i / w < ws.length := by
    by_contra hge
    rw [bit, List.getD_eq_getElem?_getD, List.getElem?_eq_none (Nat.le_of_not_lt hge)] at h
    simp at h
  have hbit : i % w < w := by
    by_contra hge
    rw [bit, BitVec.getLsbD_of_ge _ _ (Nat.le_of_not_lt hge)] at h
    cases h
  have hdiv := Nat.div_add_mod i w
  have hle : w * (i / w + 1) ≤ w * ws.length := Nat.mul_le_mul_left w hword
  rw [Nat.mul_add] at hle
  omega

theorem bit_modify (hi : i / w < ws.length) (f : BitVec w → BitVec w) : bit (ws.modify (i / w) f) j =
    if j / w = i / w then (f (ws.getD (i / w) 0#w)).getLsbD (j % w) else bit ws j := by
  simp only [bit, List.getD_eq_getElem?_getD, List.getElem?_modify]
  by_cases h : j / w = i / w
  · rw [if_pos h, h, List.getElem?_eq_getElem hi]
    simp
  · simp [h, Ne.symm h]

theorem getLsbD_one_shiftLeft {k : Nat} (hk : k < w) :
    (1#w <<< i).getLsbD k = decide (k = i) := by
  have hw : 0 < w := by omega
  by_cases h : k < i
  · simp [hk, h, h.ne]
  · simp only [BitVec.getLsbD_shiftLeft, hk, decide_true, h, decide_false, Bool.not_false,
      Bool.and_self, Bool.true_and, BitVec.getLsbD_one, hw]
    exact decide_eq_decide.mpr (by omega)

theorem eq_of_div_mod (hdiv : j / w = i / w) (hmod : j % w = i % w) : j = i := by
  rw [← Nat.div_add_mod j w, ← Nat.div_add_mod i w, hdiv, hmod]

theorem bit_set (hi : i < w * ws.length) : bit (set ws i) j = (decide (j = i) || bit ws j) := by
  have hword : i / w < ws.length := Nat.div_lt_of_lt_mul hi
  have hw : 0 < w := Nat.pos_of_mul_pos_right (Nat.zero_lt_of_lt hi)
  rw [set, bit_modify hword]
  by_cases h : j / w = i / w
  · have hbit : decide (j % w = i % w) = decide (j = i) :=
      decide_eq_decide.mpr ⟨eq_of_div_mod h, fun heq => by rw [heq]⟩
    have hlt : j % w < w := Nat.mod_lt _ hw
    rw [if_pos h, BitVec.getLsbD_or, getLsbD_one_shiftLeft hlt, bit, h, hbit]
    simp [hlt, Bool.or_comm]
  · have hne : j ≠ i := fun heq => h (by rw [heq])
    simp [h, hne]

theorem bit_clear (hi : i < w * ws.length) : bit (clear ws i) j = (!decide (j = i) && bit ws j) := by
  have hword : i / w < ws.length := Nat.div_lt_of_lt_mul hi
  have hw : 0 < w := Nat.pos_of_mul_pos_right (Nat.zero_lt_of_lt hi)
  rw [clear, bit_modify hword]
  by_cases h : j / w = i / w
  · have hbit : decide (j % w = i % w) = decide (j = i) :=
      decide_eq_decide.mpr ⟨eq_of_div_mod h, fun heq => by rw [heq]⟩
    have hlt : j % w < w := Nat.mod_lt _ hw
    rw [if_pos h, BitVec.getLsbD_and, BitVec.getLsbD_not, getLsbD_one_shiftLeft hlt, bit, h, hbit]
    simp [hlt, Bool.and_comm]
  · have hne : j ≠ i := fun heq => h (by rw [heq])
    simp [h, hne]

theorem bit_cons_of_lt {x : BitVec w} (h : i < w) : bit (x :: ws) i = x.getLsbD i := by
  rw [bit, Nat.div_eq_of_lt h, Nat.mod_eq_of_lt h]
  rfl

theorem bit_cons_add {x : BitVec w} (hw : 0 < w) : bit (x :: ws) (w + i) = bit ws i := by
  rw [bit, Nat.add_div_left i hw, Nat.add_mod_left]
  rfl

theorem bit_zero (n : Nat) : bit (List.replicate n 0#w) i = false := by
  rw [bit, List.getD_eq_getElem?_getD, List.getElem?_replicate]
  split <;> simp

theorem count_zero (n : Nat) : count (List.replicate n 0#w) = 0 := by
  simp [count, bit_zero]

theorem count_set (hi : i < w * ws.length) (h : bit ws i = false) :
    count (set ws i) = count ws + 1 := by
  have hnew : {k ∈ Finset.range (w * (set ws i).length) | bit (set ws i) k = true} =
      insert i {k ∈ Finset.range (w * ws.length) | bit ws k = true} := by
    ext k
    simp only [length_set, Finset.mem_filter, Finset.mem_range, bit_set hi, Finset.mem_insert,
      Bool.or_eq_true, decide_eq_true_eq]
    constructor
    · rintro ⟨hk, rfl | hbit⟩
      · exact .inl rfl
      · exact .inr ⟨hk, hbit⟩
    · rintro (rfl | ⟨hk, hbit⟩)
      · exact ⟨hi, .inl rfl⟩
      · exact ⟨hk, .inr hbit⟩
  rw [count, hnew, Finset.card_insert_of_notMem (by simp [h])]
  rfl

theorem count_clear (h : bit ws i = true) : count (clear ws i) + 1 = count ws := by
  have hi := lt_of_bit h
  have hnew : {k ∈ Finset.range (w * (clear ws i).length) | bit (clear ws i) k = true} =
      Finset.erase {k ∈ Finset.range (w * ws.length) | bit ws k = true} i := by
    ext k
    simp only [length_clear, Finset.mem_filter, Finset.mem_range, bit_clear hi, Finset.mem_erase,
      Bool.and_eq_true, Bool.not_eq_true', decide_eq_false_iff_not]
    exact and_left_comm
  rw [count, hnew, Finset.card_erase_add_one (by simp [hi, h])]
  rfl

theorem count_le {n : Nat} (h : ∀ i, bit ws i = true → i < n) : count ws ≤ n := by
  have hsub : {k ∈ Finset.range (w * ws.length) | bit ws k = true} ⊆ Finset.range n := by
    intro k hk
    exact Finset.mem_range.mpr (h k (Finset.mem_filter.mp hk).2)
  exact (Finset.card_le_card hsub).trans_eq (Finset.card_range n)

theorem count_lt {n : Nat} (h : ∀ i, bit ws i = true → i < n) (hi : i < n)
    (hfree : bit ws i = false) : count ws < n := by
  have hsub : {k ∈ Finset.range (w * ws.length) | bit ws k = true} ⊂ Finset.range n := by
    refine (Finset.ssubset_iff_of_subset fun k hk => ?_).mpr ⟨i, Finset.mem_range.mpr hi, ?_⟩
    · exact Finset.mem_range.mpr (h k (Finset.mem_filter.mp hk).2)
    · simp [hfree]
  exact (Finset.card_lt_card hsub).trans_eq (Finset.card_range n)

theorem getLsbD_low_mask {r k : Nat} (hr : r < w) :
    ((1#w <<< r) - 1#w).getLsbD k = decide (k < r) := by
  have hpow : 2 ^ r < 2 ^ w := Nat.pow_lt_pow_right (by decide) hr
  have hpos : 0 < 2 ^ r := Nat.two_pow_pos r
  have hone : 1 % 2 ^ w = 1 := Nat.mod_eq_of_lt (by omega)
  have hval : ((1#w <<< r) - 1#w).toNat = 2 ^ r - 1 := by
    rw [BitVec.toNat_sub, BitVec.toNat_shiftLeft, BitVec.toNat_ofNat, hone, Nat.one_shiftLeft,
      Nat.mod_eq_of_lt hpow]
    have hsum : 2 ^ w - 1 + 2 ^ r = 2 ^ r - 1 + 2 ^ w := by omega
    rw [hsum, Nat.add_mod_right]
    exact Nat.mod_eq_of_lt (by omega)
  rw [BitVec.getLsbD, hval, Nat.testBit_two_pow_sub_one]

end Bitmap
