import Mathlib.Algebra.Order.Interval.Finset.Basic
import Mathlib.Data.Int.CardIntervalMod
import Mathlib.Order.Interval.Finset.Nat
import Caprock.Mem.Delivery

/-! # Stripes of page colours

`stripe i n colors` is the `i`-th of `n` colour sets.  A mask has 64 bits and is asked for
bit `c % 64`, so its living part are the first `min colors 64` bits; the stripes cut this
part into `n` blocks and repeat the pattern over the whole word.  `contains_stripe` says
what that means for a colour.
-/

namespace Caprock.Mem

open Word

/-- The loop of `stripe`: `block` at `off`, `off + live` and so on up to the end of the word.
Each pass moves on by at least one bit. -/
def wiederholen (block live : Nat) : Nat → Nat → Nat → Nat
  | 0, _, bits => bits
  | n + 1, off, bits =>
      if off < maskBits then
        wiederholen block live n (off + live) (bits ||| (block <<< off) % 2 ^ 64)
      else bits

/-- The part of a mask that `contains` asks for. -/
def live (colors : Nat) : Nat := if colors < maskBits then colors else maskBits

def stripe (i n colors : Nat) : Option ColorMask :=
  if n = 0 ∨ n ≤ i ∨ isPowerOfTwo n = false then none
  else if colors = 0 ∨ isPowerOfTwo colors = false then none
  else if live colors < n then none
  else
    let per := live colors / n
    let lo := i * per
    let block :=
      if per = maskBits then 2 ^ 64 - 1 else ((((1 <<< per) % 2 ^ 64) - 1) <<< lo) % 2 ^ 64
    some ⟨wiederholen block (live colors) maskBits 0 0⟩

theorem testBit_wiederholen {block live b : Nat} (hblock : block < 2 ^ live) (hlive : 0 < live)
    (hb : b < maskBits) (n off bits : Nat) (hn : maskBits ≤ off + n) :
    (wiederholen block live n off bits).testBit b =
      (bits.testBit b || (decide (off ≤ b) && block.testBit ((b - off) % live))) := by
  induction n generalizing off bits with
  | zero =>
    have hoff : ¬ off ≤ b := by omega
    simp [wiederholen, hoff]
  | succ n ih =>
    unfold wiederholen
    by_cases hoff : off < maskBits
    · have h64 : b < 64 := hb
      rw [if_pos hoff, ih (off + live) _ (by omega), Nat.testBit_or, Nat.testBit_mod_two_pow,
        Nat.testBit_shiftLeft]
      simp only [h64, decide_true, Bool.true_and, Bool.or_assoc]
      congr 1
      by_cases hle : off ≤ b
      · by_cases hnext : off + live ≤ b
        · -- Behind the first copy the block has no bit left.
          have hzero : block.testBit (b - off) = false := by
            apply Nat.testBit_lt_two_pow
            exact Nat.lt_of_lt_of_le hblock (Nat.pow_le_pow_right (by decide) (by omega))
          have hmod : (b - off) % live = (b - (off + live)) % live := by
            have hsplit : b - off = b - (off + live) + live := by omega
            rw [hsplit, Nat.add_mod_right]
          simp [hle, hnext, hzero, hmod]
        · have hmod : (b - off) % live = b - off := Nat.mod_eq_of_lt (by omega)
          simp [hle, hnext, hmod]
      · have hnext : ¬ off + live ≤ b := by omega
        simp [hle, hnext]
    · have hle : ¬ off ≤ b := by omega
      rw [if_neg hoff]
      simp [hle]

/-- The shape of an accepted request: all counts are powers of two. -/
structure Aufteilung (n colors : Nat) (j m k : Nat) : Prop where
  n_eq : n = 2 ^ j
  live_eq : live colors = 2 ^ m
  colors_eq : colors = 2 ^ k
  le_live : j ≤ m
  le_six : m ≤ 6
  le_colors : m ≤ k

def anteil (n colors : Nat) : Nat := live colors / n

theorem live_pow {k : Nat} : live (2 ^ k) = 2 ^ min k 6 := by
  unfold live
  have hmask : maskBits = 2 ^ 6 := by decide
  rw [hmask]
  by_cases hk : k < 6
  · rw [if_pos (Nat.pow_lt_pow_right (by decide) hk), Nat.min_eq_left (by omega)]
  · rw [if_neg, Nat.min_eq_right (by omega)]
    exact Nat.not_lt.mpr (Nat.pow_le_pow_right (by decide) (by omega))

theorem stripe_eq_some_iff {i n colors : Nat} {mask : ColorMask} :
    stripe i n colors = some mask ↔
      i < n ∧ (∃ j m k, Aufteilung n colors j m k) ∧
        mask = ⟨wiederholen (if anteil n colors = maskBits then 2 ^ 64 - 1
          else ((((1 <<< anteil n colors) % 2 ^ 64) - 1) <<< (i * anteil n colors)) % 2 ^ 64)
          (live colors) maskBits 0 0⟩ := by
  unfold stripe
  constructor
  · intro h
    split at h
    · cases h
    next hn =>
    split at h
    · cases h
    next hcolors =>
    split at h
    · cases h
    next hlive =>
    obtain ⟨-, hin, hnpow⟩ : n ≠ 0 ∧ i < n ∧ isPowerOfTwo n = true := by
      simpa [not_or] using hn
    obtain ⟨-, hcpow⟩ : colors ≠ 0 ∧ isPowerOfTwo colors = true := by
      simpa [not_or] using hcolors
    obtain ⟨j, rfl⟩ := isPowerOfTwo_iff.mp hnpow
    obtain ⟨k, rfl⟩ := isPowerOfTwo_iff.mp hcpow
    rw [live_pow] at hlive
    have hjm : j ≤ min k 6 :=
      (Nat.pow_le_pow_iff_right (by decide)).mp (Nat.le_of_not_lt hlive)
    refine ⟨hin, ⟨j, min k 6, k, rfl, live_pow, rfl, hjm, Nat.min_le_right _ _,
      Nat.min_le_left _ _⟩, ?_⟩
    exact (Option.some.inj h).symm
  · rintro ⟨hin, ⟨j, m, k, hauf⟩, rfl⟩
    have hn : ¬ (n = 0 ∨ n ≤ i ∨ isPowerOfTwo n = false) := by
      have hpow : isPowerOfTwo n = true := isPowerOfTwo_iff.mpr ⟨j, hauf.n_eq⟩
      rw [hpow]
      simp only [Bool.true_eq_false, or_false, not_or]
      omega
    have hcolors : ¬ (colors = 0 ∨ isPowerOfTwo colors = false) := by
      have hpow : isPowerOfTwo colors = true := isPowerOfTwo_iff.mpr ⟨k, hauf.colors_eq⟩
      have hpos : 0 < colors := hauf.colors_eq ▸ Nat.two_pow_pos k
      rw [hpow]
      simp only [Bool.true_eq_false, or_false]
      omega
    have hlive : ¬ live colors < n := by
      rw [hauf.live_eq, hauf.n_eq]
      exact Nat.not_lt.mpr (Nat.pow_le_pow_right (by decide) hauf.le_live)
    rw [if_neg hn, if_neg hcolors, if_neg hlive]
    rfl

section

variable {n colors j m k : Nat} (h : Aufteilung n colors j m k)

include h

theorem Aufteilung.anteil_eq : anteil n colors = 2 ^ (m - j) := by
  unfold anteil
  rw [h.live_eq, h.n_eq]
  exact Nat.pow_div h.le_live (by decide)

theorem Aufteilung.anteil_pos : 0 < anteil n colors := by
  rw [h.anteil_eq]
  exact Nat.two_pow_pos _

theorem Aufteilung.mul_anteil : n * anteil n colors = live colors := by
  rw [h.anteil_eq, h.live_eq, h.n_eq, ← pow_add, Nat.add_sub_cancel' h.le_live]

theorem Aufteilung.live_pos : 0 < live colors := by
  rw [h.live_eq]
  exact Nat.two_pow_pos m

theorem Aufteilung.live_dvd_mask : live colors ∣ maskBits := by
  have hmask : maskBits = 2 ^ 6 := by decide
  rw [h.live_eq, hmask]
  exact Nat.pow_dvd_pow 2 h.le_six

theorem Aufteilung.live_dvd_colors : live colors ∣ colors := by
  conv_rhs => rw [h.colors_eq]
  rw [h.live_eq]
  exact Nat.pow_dvd_pow 2 h.le_colors

end

variable {i colors : Nat} {mask : ColorMask}

/-- The block of a stripe: one bit for each colour of its share. -/
theorem testBit_block {a b : Nat} (hb : b < 64) (ha : 0 < a) (hle : (i + 1) * a ≤ 64) :
    (if a = maskBits then 2 ^ 64 - 1
      else ((((1 <<< a) % 2 ^ 64) - 1) <<< (i * a)) % 2 ^ 64).testBit b = decide (b / a = i) := by
  have hdiv : b / a = i ↔ i * a ≤ b ∧ b < (i + 1) * a := by
    rw [Nat.div_eq_iff ha]
    have hsucc : (i + 1) * a = i * a + a := Nat.succ_mul i a
    omega
  by_cases hfull : a = maskBits
  · have h64 : a = 64 := hfull
    subst h64
    have hzero : b / 64 = i := by omega
    rw [if_pos hfull, Nat.testBit_two_pow_sub_one]
    simp [hb, hzero]
  · have hlt : a < 64 := by
      have hmul : a ≤ (i + 1) * a := Nat.le_mul_of_pos_left a (Nat.succ_pos i)
      have hne : a ≠ 64 := hfull
      omega
    have hone : (1 <<< a) % 2 ^ 64 = 2 ^ a := by
      rw [Nat.one_shiftLeft]
      exact Nat.mod_eq_of_lt (Nat.pow_lt_pow_right (by decide) hlt)
    rw [if_neg hfull, hone, Nat.testBit_mod_two_pow, Nat.testBit_shiftLeft,
      Nat.testBit_two_pow_sub_one]
    simp only [hb, decide_true, Bool.true_and, ge_iff_le, ← Bool.decide_and, decide_eq_decide]
    rw [hdiv]
    have hsucc : (i + 1) * a = i * a + a := Nat.succ_mul i a
    omega

theorem Aufteilung.succ_mul_le {n j m k : Nat} (h : Aufteilung n colors j m k) (hi : i < n) :
    (i + 1) * anteil n colors ≤ live colors := by
  rw [← h.mul_anteil]
  exact Nat.mul_le_mul_right _ hi

/-- Bit `b` of a stripe: the position in the living part lies in the stripe's block. -/
theorem testBit_stripe {n b : Nat} (h : stripe i n colors = some mask) (hb : b < 64) :
    mask.bits.testBit b = decide (b % live colors / anteil n colors = i) := by
  obtain ⟨hi, ⟨j, m, k, hauf⟩, rfl⟩ := stripe_eq_some_iff.mp h
  have hlive : live colors ≤ 64 := Nat.le_of_dvd (by decide) hauf.live_dvd_mask
  have hsucc := hauf.succ_mul_le hi
  have hpos := hauf.anteil_pos
  have hblock : (if anteil n colors = maskBits then 2 ^ 64 - 1
      else ((((1 <<< anteil n colors) % 2 ^ 64) - 1) <<< (i * anteil n colors)) % 2 ^ 64) <
        2 ^ live colors := by
    apply Nat.lt_pow_two_of_testBit
    intro x hx
    by_cases hx64 : x < 64
    · rw [testBit_block hx64 hpos (by omega), decide_eq_false_iff_not]
      intro heq
      have hlt : x < (i + 1) * anteil n colors := by
        apply (Nat.div_lt_iff_lt_mul hpos).mp
        omega
      omega
    · apply Nat.testBit_lt_two_pow
      calc (if anteil n colors = maskBits then 2 ^ 64 - 1
          else ((((1 <<< anteil n colors) % 2 ^ 64) - 1) <<< (i * anteil n colors)) % 2 ^ 64)
          < 2 ^ 64 := by
            split
            · decide
            · exact Nat.mod_lt _ (by decide)
        _ ≤ 2 ^ x := Nat.pow_le_pow_right (by decide) (by omega)
  have hmod : b % live colors < 64 := Nat.lt_of_lt_of_le (Nat.mod_lt _ hauf.live_pos) hlive
  rw [testBit_wiederholen hblock hauf.live_pos hb _ _ _ (by omega)]
  simp only [Nat.zero_testBit, Bool.false_or, Nat.zero_le, decide_true, Bool.true_and, Nat.sub_zero]
  exact testBit_block hmod hpos (by omega)

theorem contains_stripe {n c : Nat} (h : stripe i n colors = some mask) :
    mask.contains c = decide (c % live colors / anteil n colors = i) := by
  obtain ⟨-, ⟨j, m, k, hauf⟩, -⟩ := stripe_eq_some_iff.mp h
  have hlt : c % maskBits < 64 := Nat.mod_lt _ (by decide)
  unfold ColorMask.contains
  rw [testBit_stripe h hlt, Nat.mod_mod_of_dvd _ hauf.live_dvd_mask]

def streifenVon (n colors c : Nat) : Nat := c % live colors / anteil n colors

theorem Aufteilung.streifenVon_lt {n j m k : Nat} (h : Aufteilung n colors j m k) (c : Nat) :
    streifenVon n colors c < n := by
  unfold streifenVon
  rw [Nat.div_lt_iff_lt_mul h.anteil_pos, h.mul_anteil]
  exact Nat.mod_lt _ h.live_pos

theorem stripe_exists {i' n : Nat} (h : stripe i n colors = some mask) (hi' : i' < n) :
    ∃ mask', stripe i' n colors = some mask' := by
  obtain ⟨-, hauf, -⟩ := stripe_eq_some_iff.mp h
  exact ⟨_, stripe_eq_some_iff.mpr ⟨hi', hauf, rfl⟩⟩

theorem stripe_disjoint {i' n c : Nat} {mask' : ColorMask} (h : stripe i n colors = some mask)
    (h' : stripe i' n colors = some mask') (hne : i ≠ i') (hc : mask.contains c = true) :
    mask'.contains c = false := by
  rw [contains_stripe h, decide_eq_true_eq] at hc
  rw [contains_stripe h', hc, decide_eq_false_iff_not]
  exact hne

theorem stripe_unique {n : Nat} (h : stripe i n colors = some mask) (c : Nat) :
    ∃! i', i' < n ∧ ∃ mask', stripe i' n colors = some mask' ∧
      mask'.contains c = true := by
  obtain ⟨-, ⟨j, m, k, hauf⟩, -⟩ := stripe_eq_some_iff.mp h
  have hlt := hauf.streifenVon_lt c
  obtain ⟨mask', hmask'⟩ := stripe_exists h hlt
  refine ⟨streifenVon n colors c, ⟨hlt, mask', hmask', ?_⟩, ?_⟩
  · rw [contains_stripe hmask']
    exact decide_eq_true rfl
  · rintro i' ⟨-, mask'', hmask'', hc⟩
    rw [contains_stripe hmask'', decide_eq_true_eq] at hc
    exact hc.symm

theorem card_block {l a : Nat} (ha : 0 < a) (hle : (i + 1) * a ≤ l) (q : Nat) :
    ((Finset.range (q * l)).filter fun c => c % l / a = i).card = q * a := by
  induction q with
  | zero => simp
  | succ q ih =>
    have hdiv : ∀ c, c / a = i ↔ i * a ≤ c ∧ c < (i + 1) * a := by
      intro c
      have hsucc : (i + 1) * a = i * a + a := Nat.succ_mul i a
      rw [Nat.div_eq_iff ha]
      omega
    have hsplit : (Finset.range ((q + 1) * l)).filter (fun c => c % l / a = i) =
        ((Finset.range (q * l)).filter fun c => c % l / a = i) ∪
          Finset.Ico (q * l + i * a) (q * l + (i + 1) * a) := by
      ext c
      have hsucc : (q + 1) * l = q * l + l := Nat.succ_mul q l
      simp only [Finset.mem_filter, Finset.mem_range, Finset.mem_union, Finset.mem_Ico]
      constructor
      · rintro ⟨hlt, hc⟩
        by_cases hlow : c < q * l
        · exact .inl ⟨hlow, hc⟩
        · right
          have hmod : c % l = c - q * l := by
            rw [Nat.mod_eq_iff]
            right
            exact ⟨by omega, q, by rw [Nat.mul_comm l q]; omega⟩
          rw [hmod, hdiv] at hc
          omega
      · rintro (⟨hlt, hc⟩ | hin)
        · exact ⟨by omega, hc⟩
        · have hmod : c % l = c - q * l := by
            rw [Nat.mod_eq_iff]
            right
            exact ⟨by omega, q, by rw [Nat.mul_comm l q]; omega⟩
          refine ⟨by omega, ?_⟩
          rw [hmod, hdiv]
          omega
    have hdisj : Disjoint ((Finset.range (q * l)).filter fun c => c % l / a = i)
        (Finset.Ico (q * l + i * a) (q * l + (i + 1) * a)) := by
      rw [Finset.disjoint_left]
      intro c hc hin
      simp only [Finset.mem_filter, Finset.mem_range, Finset.mem_Ico] at hc hin
      omega
    have hblock : (i + 1) * a = i * a + a := Nat.succ_mul i a
    have hall : (q + 1) * a = q * a + a := Nat.succ_mul q a
    rw [hsplit, Finset.card_union_of_disjoint hdisj, ih, Nat.card_Ico]
    omega

theorem card_stripe {n : Nat} (h : stripe i n colors = some mask) :
    ((Finset.range colors).filter fun c => mask.contains c = true).card = colors / n := by
  obtain ⟨hi, ⟨j, m, k, hauf⟩, -⟩ := stripe_eq_some_iff.mp h
  obtain ⟨q, hq⟩ := hauf.live_dvd_colors
  have hset : (Finset.range colors).filter (fun c => mask.contains c = true) =
      (Finset.range (q * live colors)).filter fun c => c % live colors / anteil n colors = i := by
    rw [Nat.mul_comm, ← hq]
    ext c
    simp only [Finset.mem_filter]
    rw [contains_stripe h, decide_eq_true_eq]
  have hn : 0 < n := Nat.lt_of_le_of_lt (Nat.zero_le i) hi
  have hmul : colors = n * (q * anteil n colors) := by
    calc colors = live colors * q := hq
      _ = n * anteil n colors * q := by rw [hauf.mul_anteil]
      _ = n * (q * anteil n colors) := by ring
  rw [hset, card_block hauf.anteil_pos (hauf.succ_mul_le hi)]
  conv_rhs => rw [hmul]
  exact (Nat.mul_div_cancel_left _ hn).symm

end Caprock.Mem
