import Mathlib.Tactic.Ring
import Mathlib.Data.Int.ModEq
import Mathlib.Data.Nat.Bitwise

/-! # FNV-1a over 64 bits

A step takes a byte in by exclusive or, which moves two states apart by at most 510, and multiplies
by the prime `2 ^ 40 + 435`.  After four bytes the distance of two runs from one state is a sum whose
part below `2 ^ 40` and whose part above vanish together only if every byte was the same.
-/

namespace Fnv

def prime : UInt64 := 0x100000001b3

def step (h : UInt64) (b : UInt8) : UInt64 := (h ^^^ b.toUInt64) * prime

def feed (h : UInt64) (bs : List UInt8) : UInt64 := bs.foldl step h

theorem feed_append (h : UInt64) (xs ys : List UInt8) :
    feed h (xs ++ ys) = feed (feed h xs) ys := List.foldl_append

/-- `h` is `d` further than `h'`, around the circle. -/
def Apart (h h' : UInt64) (d : ℤ) : Prop := (h.toNat : ℤ) ≡ h'.toNat + d [ZMOD 2 ^ 64]

variable {h h' : UInt64} {d : ℤ}

theorem Apart.refl (h : UInt64) : Apart h h 0 := by simp [Apart]

theorem Apart.dvd_iff (hd : Apart h h' d) : (2 ^ 64 : ℤ) ∣ d ↔ h = h' := by
  have hlt := h.toNat_lt
  have hlt' := h'.toNat_lt
  unfold Apart at hd
  rw [Int.modEq_iff_dvd] at hd
  constructor
  · intro hdvd
    apply UInt64.toNat_inj.mp
    omega
  · intro heq
    subst heq
    omega

theorem xor_byte (h : UInt64) (b : UInt8) :
    ∃ r < 256, (h ^^^ b.toUInt64).toNat = h.toNat / 256 * 256 + r := by
  have hb : b.toNat < 2 ^ 8 := b.toNat_lt
  have hdiv : (h.toNat ^^^ b.toNat) / 2 ^ 8 = h.toNat / 2 ^ 8 := by
    rw [Nat.xor_div_two_pow, Nat.div_eq_of_lt hb, Nat.xor_zero]
  refine ⟨(h.toNat ^^^ b.toNat) % 2 ^ 8, Nat.mod_lt _ (by decide), ?_⟩
  rw [UInt64.toNat_xor, UInt8.toNat_toUInt64]
  omega

theorem Apart.xor (hd : Apart h h' d) (b b' : UInt8) :
    ∃ e : ℤ, -510 ≤ e ∧ e ≤ 510 ∧ Apart (h ^^^ b.toUInt64) (h' ^^^ b'.toUInt64) (d + e) := by
  obtain ⟨r, hr, hx⟩ := xor_byte h b
  obtain ⟨r', hr', hx'⟩ := xor_byte h' b'
  unfold Apart at hd ⊢
  rw [Int.modEq_iff_dvd] at hd
  refine ⟨r - (h.toNat % 256 : ℕ) - (r' - (h'.toNat % 256 : ℕ)), by omega, by omega, ?_⟩
  rw [Int.modEq_iff_dvd, hx, hx']
  omega

theorem Apart.mul (hd : Apart h h' d) :
    Apart (h * prime) (h' * prime) (d * (2 ^ 40 + 435)) := by
  have hprime : (prime.toNat : ℤ) = 2 ^ 40 + 435 := by decide
  have hmul : ∀ x : UInt64, ((x * prime).toNat : ℤ) ≡ x.toNat * (2 ^ 40 + 435) [ZMOD 2 ^ 64] := by
    intro x
    rw [UInt64.toNat_mul, ← hprime]
    push_cast
    exact Int.mod_modEq _ _
  calc ((h * prime).toNat : ℤ)
      ≡ h.toNat * (2 ^ 40 + 435) [ZMOD 2 ^ 64] := hmul h
    _ ≡ (h'.toNat + d) * (2 ^ 40 + 435) [ZMOD 2 ^ 64] := hd.mul_right _
    _ = h'.toNat * (2 ^ 40 + 435) + d * (2 ^ 40 + 435) := by ring
    _ ≡ (h' * prime).toNat + d * (2 ^ 40 + 435) [ZMOD 2 ^ 64] := (hmul h').symm.add_right _

theorem xor_cancel {b b' : UInt8} (heq : h ^^^ b.toUInt64 = h ^^^ b'.toUInt64) : b = b' := by
  have hnat := congrArg UInt64.toNat heq
  rw [UInt64.toNat_xor, UInt64.toNat_xor, UInt8.toNat_toUInt64, UInt8.toNat_toUInt64] at hnat
  have hxor := congrArg (h.toNat ^^^ ·) hnat
  simp only [Nat.xor_xor_cancel_left] at hxor
  exact UInt8.toNat_inj.mp hxor

theorem apart_four (h : UInt64) (b₀ b₁ b₂ b₃ c₀ c₁ c₂ c₃ : UInt8) :
    ∃ d₀ d₁ d₂ d₃ : ℤ, (-510 ≤ d₀ ∧ d₀ ≤ 510) ∧ (-510 ≤ d₁ ∧ d₁ ≤ 510) ∧
      (-510 ≤ d₂ ∧ d₂ ≤ 510) ∧ (-510 ≤ d₃ ∧ d₃ ≤ 510) ∧
      Apart (h ^^^ b₀.toUInt64) (h ^^^ c₀.toUInt64) d₀ ∧
      Apart (feed h [b₀] ^^^ b₁.toUInt64) (feed h [c₀] ^^^ c₁.toUInt64)
        (d₀ * (2 ^ 40 + 435) + d₁) ∧
      Apart (feed h [b₀, b₁] ^^^ b₂.toUInt64) (feed h [c₀, c₁] ^^^ c₂.toUInt64)
        ((d₀ * (2 ^ 40 + 435) + d₁) * (2 ^ 40 + 435) + d₂) ∧
      Apart (feed h [b₀, b₁, b₂] ^^^ b₃.toUInt64) (feed h [c₀, c₁, c₂] ^^^ c₃.toUInt64)
        (((d₀ * (2 ^ 40 + 435) + d₁) * (2 ^ 40 + 435) + d₂) * (2 ^ 40 + 435) + d₃) := by
  obtain ⟨d₀, hlo₀, hhi₀, h₀⟩ := (Apart.refl h).xor b₀ c₀
  rw [zero_add] at h₀
  obtain ⟨d₁, hlo₁, hhi₁, h₁⟩ := h₀.mul.xor b₁ c₁
  obtain ⟨d₂, hlo₂, hhi₂, h₂⟩ := h₁.mul.xor b₂ c₂
  obtain ⟨d₃, hlo₃, hhi₃, h₃⟩ := h₂.mul.xor b₃ c₃
  exact ⟨d₀, d₁, d₂, d₃, ⟨hlo₀, hhi₀⟩, ⟨hlo₁, hhi₁⟩, ⟨hlo₂, hhi₂⟩, ⟨hlo₃, hhi₃⟩, h₀, h₁, h₂, h₃⟩

theorem split_distance (d₀ d₁ d₂ d₃ : ℤ) :
    ((d₀ * (2 ^ 40 + 435) + d₁) * (2 ^ 40 + 435) + d₂) * (2 ^ 40 + 435) + d₃ =
      2 ^ 64 * ((2 ^ 56 + 1305 * 2 ^ 16) * d₀ + 2 ^ 16 * d₁) +
        2 ^ 40 * (567675 * d₀ + 870 * d₁ + d₂) +
        (82312875 * d₀ + 189225 * d₁ + 435 * d₂ + d₃) := by
  ring

theorem of_dvd_parts {q a b c : ℤ} (hb : -2 ^ 36 < b ∧ b < 2 ^ 36)
    (h : (2 ^ 64 : ℤ) ∣ 2 ^ 64 * q + 2 ^ 40 * a + b - c) :
    (2 ^ 40 : ℤ) ∣ b - c ∧ (c = 0 → b = 0 ∧ (2 ^ 24 : ℤ) ∣ a) := by
  omega

variable {d₀ d₁ d₂ d₃ : ℤ}

/-- Both parts vanish only if every distance does: the low one makes the later distances multiples
of the earlier ones, and then the high one is too small. -/
theorem eq_zero_of_parts (h₀ : -510 ≤ d₀ ∧ d₀ ≤ 510) (h₁ : -510 ≤ d₁ ∧ d₁ ≤ 510)
    (h₂ : -510 ≤ d₂ ∧ d₂ ≤ 510) (h₃ : -510 ≤ d₃ ∧ d₃ ≤ 510)
    (hlow : 82312875 * d₀ + 189225 * d₁ + 435 * d₂ + d₃ = 0)
    (hhigh : (2 ^ 24 : ℤ) ∣ 567675 * d₀ + 870 * d₁ + d₂) :
    d₀ = 0 ∧ d₁ = 0 ∧ d₂ = 0 ∧ d₃ = 0 := by
  obtain ⟨m, hm⟩ : ∃ m, d₃ = 435 * m := ⟨-(189225 * d₀ + 435 * d₁ + d₂), by omega⟩
  obtain ⟨n, hn⟩ : ∃ n, d₁ = n - 435 * d₀ := ⟨435 * d₀ + d₁, by omega⟩
  have hd₂ : d₂ = -m - 435 * n := by omega
  subst hm hn hd₂
  have hsmall : (2 ^ 24 : ℤ) ∣ 189225 * d₀ + 435 * n - m := by
    have heq : 567675 * d₀ + 870 * (n - 435 * d₀) + (-m - 435 * n) =
        189225 * d₀ + 435 * n - m := by ring
    rwa [heq] at hhigh
  have hm : -1 ≤ m ∧ m ≤ 1 := by omega
  have hn : -1 ≤ n ∧ n ≤ 1 := by omega
  have hd₀ : -1 ≤ d₀ ∧ d₀ ≤ 1 := by omega
  obtain ⟨k, hk⟩ := hsmall
  have hzero : k = 0 := by omega
  omega

theorem eq_zero_of_dvd (h₀ : -510 ≤ d₀ ∧ d₀ ≤ 510) (h₁ : -510 ≤ d₁ ∧ d₁ ≤ 510)
    (h₂ : -510 ≤ d₂ ∧ d₂ ≤ 510) (h₃ : -510 ≤ d₃ ∧ d₃ ≤ 510)
    (h : (2 ^ 64 : ℤ) ∣ ((d₀ * (2 ^ 40 + 435) + d₁) * (2 ^ 40 + 435) + d₂) * (2 ^ 40 + 435) + d₃) :
    d₀ = 0 ∧ d₁ = 0 ∧ d₂ = 0 ∧ d₃ = 0 := by
  rw [split_distance, ← sub_zero (_ + _ : ℤ)] at h
  obtain ⟨hlow, hhigh⟩ := (of_dvd_parts (by clear h; omega) h).2 rfl
  exact eq_zero_of_parts h₀ h₁ h₂ h₃ hlow hhigh

theorem not_dvd_sub_inverse (h₀ : -510 ≤ d₀ ∧ d₀ ≤ 510) (h₁ : -510 ≤ d₁ ∧ d₁ ≤ 510)
    (h₂ : -510 ≤ d₂ ∧ d₂ ≤ 510) (h₃ : -510 ≤ d₃ ∧ d₃ ≤ 510) :
    ¬ (2 ^ 64 : ℤ) ∣
      ((d₀ * (2 ^ 40 + 435) + d₁) * (2 ^ 40 + 435) + d₂) * (2 ^ 40 + 435) + d₃ -
        0xce965057aff6957b := by
  intro h
  rw [split_distance] at h
  have hlow := (of_dvd_parts (by clear h; omega) h).1
  have hbounds : -2 ^ 36 < 82312875 * d₀ + 189225 * d₁ + 435 * d₂ + d₃ ∧
      82312875 * d₀ + 189225 * d₁ + 435 * d₂ + d₃ < 2 ^ 36 := by
    clear h hlow
    omega
  generalize 82312875 * d₀ + 189225 * d₁ + 435 * d₂ + d₃ = b at hlow hbounds
  clear h
  omega

def inverse : UInt64 := 0xce965057aff6957b

theorem mul_inverse (x : UInt64) : x * prime * inverse = x := by
  have hone : prime * inverse = 1 := by decide
  rw [UInt64.mul_assoc, hone, UInt64.mul_one]

theorem mul_cancel {x y : UInt64} (h : x * prime = y * prime) : x = y := by
  rw [← mul_inverse x, h, mul_inverse]

section

variable {b₀ b₁ b₂ b₃ c₀ c₁ c₂ c₃ : UInt8}

theorem feed_four_injective (heq : feed h [b₀, b₁, b₂, b₃] = feed h [c₀, c₁, c₂, c₃]) :
    b₀ = c₀ ∧ b₁ = c₁ ∧ b₂ = c₂ ∧ b₃ = c₃ := by
  obtain ⟨d₀, d₁, d₂, d₃, hd₀, hd₁, hd₂, hd₃, h₀, h₁, h₂, h₃⟩ :=
    apart_four h b₀ b₁ b₂ b₃ c₀ c₁ c₂ c₃
  have hlast : feed h [b₀, b₁, b₂] ^^^ b₃.toUInt64 = feed h [c₀, c₁, c₂] ^^^ c₃.toUInt64 :=
    mul_cancel heq
  obtain ⟨rfl, rfl, rfl, rfl⟩ := eq_zero_of_dvd hd₀ hd₁ hd₂ hd₃ (h₃.dvd_iff.mpr hlast)
  simp only [zero_mul, zero_add] at h₁ h₂ h₃
  obtain rfl := xor_cancel (h₀.dvd_iff.mp (dvd_zero _))
  obtain rfl := xor_cancel (h₁.dvd_iff.mp (dvd_zero _))
  obtain rfl := xor_cancel (h₂.dvd_iff.mp (dvd_zero _))
  obtain rfl := xor_cancel (h₃.dvd_iff.mp (dvd_zero _))
  exact ⟨rfl, rfl, rfl, rfl⟩

theorem feed_four_ne_one (hzero : feed h [c₀, c₁, c₂, c₃] = 0) :
    feed h [b₀, b₁, b₂, b₃] ≠ 1 := by
  intro hone
  obtain ⟨d₀, d₁, d₂, d₃, hd₀, hd₁, hd₂, hd₃, -, -, -, h₃⟩ :=
    apart_four h b₀ b₁ b₂ b₃ c₀ c₁ c₂ c₃
  have hx : feed h [b₀, b₁, b₂] ^^^ b₃.toUInt64 = inverse :=
    mul_cancel (hone.trans (by decide))
  have hy : feed h [c₀, c₁, c₂] ^^^ c₃.toUInt64 = 0 := mul_cancel (hzero.trans (by decide))
  rw [hx, hy, Apart, Int.modEq_iff_dvd] at h₃
  have hnat : (inverse.toNat : ℤ) = 0xce965057aff6957b := by decide
  have hnull : ((0 : UInt64).toNat : ℤ) = 0 := by decide
  rw [hnat, hnull, zero_add] at h₃
  exact not_dvd_sub_inverse hd₀ hd₁ hd₂ hd₃ h₃

end

end Fnv
