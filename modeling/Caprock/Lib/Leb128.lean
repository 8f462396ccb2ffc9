import Mathlib.Algebra.Group.Nat.Defs
import Mathlib.Data.List.Basic

/-! # Numbers of variable length

An unsigned number is spelled seven bits a byte, the lowest first, and every byte but the last has
its top bit set.  A number of `w` bits has one byte for every seven of them at most, and the last of
these holds only what is left of the width.  Spellings with zeros in front of the end are allowed,
so a number has several; but no spelling begins another one.
-/

namespace Leb128

/-- `bs` spells `n`, of `w` bits. -/
inductive Spells : Nat → Nat → List UInt8 → Prop
  | last {w : Nat} {b : UInt8} (hb : b.toNat < 128) (hw : b.toNat < 2 ^ w) : Spells w b.toNat [b]
  | more {w n : Nat} {b : UInt8} {bs : List UInt8} (hb : 128 ≤ b.toNat) (hw : 7 < w)
      (h : Spells (w - 7) n bs) : Spells w (b.toNat - 128 + 128 * n) (b :: bs)

def decode : Nat → List UInt8 → Option (Nat × List UInt8)
  | _, [] => none
  | w, b :: l =>
      if b.toNat < 128 then if b.toNat < 2 ^ w then some (b.toNat, l) else none
      else if 7 < w then (decode (w - 7) l).map fun x => (b.toNat - 128 + 128 * x.1, x.2)
      else none

variable {w n k : Nat} {bs cs l r x y : List UInt8}

theorem Spells.ne_nil (h : Spells w n bs) : bs ≠ [] := by
  cases h with
  | last hb hw | more hb hw h => exact List.cons_ne_nil _ _

theorem Spells.short (hw : 7 ≤ w) (hn : n < 128) : Spells w n [UInt8.ofNat n] := by
  have hbyte : (UInt8.ofNat n).toNat = n := UInt8.toNat_ofNat_of_lt' (Nat.lt_trans hn (by decide))
  have hpow : 2 ^ 7 ≤ 2 ^ w := Nat.pow_le_pow_right (by omega) hw
  have hlast : Spells w (UInt8.ofNat n).toNat [UInt8.ofNat n] :=
    .last (by rw [hbyte]; exact hn) (by rw [hbyte]; omega)
  rwa [hbyte] at hlast

theorem Spells.decode_append (h : Spells w n bs) (r : List UInt8) :
    decode w (bs ++ r) = some (n, r) := by
  induction h with
  | last hb hw => rw [List.singleton_append, decode, if_pos hb, if_pos hw]
  | more hb hw h ih =>
    rw [List.cons_append, decode, if_neg (Nat.not_lt.mpr hb), if_pos hw, ih, Option.map_some]

theorem exists_of_decode (h : decode w l = some (n, r)) : ∃ bs, Spells w n bs ∧ l = bs ++ r := by
  induction l generalizing w n with
  | nil => cases h
  | cons b l ih =>
    rw [decode] at h
    by_cases hb : b.toNat < 128
    · rw [if_pos hb] at h
      by_cases hw : b.toNat < 2 ^ w
      · rw [if_pos hw] at h
        cases h
        exact ⟨[b], .last hb hw, rfl⟩
      · rw [if_neg hw] at h
        cases h
    · rw [if_neg hb] at h
      by_cases hw : 7 < w
      · rw [if_pos hw] at h
        obtain ⟨⟨m, r'⟩, hrest, heq⟩ := Option.map_eq_some_iff.mp h
        cases heq
        obtain ⟨bs, hbs, rfl⟩ := ih hrest
        exact ⟨b :: bs, .more (Nat.not_lt.mp hb) hw hbs, rfl⟩
      · rw [if_neg hw] at h
        cases h

theorem Spells.unique (h : Spells w n bs) (h' : Spells w k cs) (heq : bs ++ x = cs ++ y) :
    n = k ∧ bs = cs ∧ x = y := by
  have hdecode := h.decode_append x
  rw [heq, h'.decode_append y] at hdecode
  cases hdecode
  exact ⟨rfl, List.append_cancel_right heq, rfl⟩

end Leb128
