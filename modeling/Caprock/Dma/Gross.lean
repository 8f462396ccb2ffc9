import Caprock.Lib.Panic
import Caprock.Lib.Word

/-! # The largest block

`groesster_block_suche` asks a probe for the largest page multiple that still fits.  Both ends of
its search stay page multiples, which is what makes it end: without the rounding the loop would
stand still at neighbouring ends.  The width halves in pages, so the number of probes is bounded by
the logarithm of the zone.
-/

namespace Caprock.Dma

open Panic Word

def seite : Nat := 4096

variable {σ : Type*}

/-- The loop, with at most `n` probes; a probe may change what it asks. -/
def sucheSchleife (probe : Nat → σ → Bool × σ) :
    Nat → Nat → Nat → σ → Call Empty (Nat × σ)
  | n, lo, hi, s =>
    (sub hi lo).bind fun breite =>
    if breite ≤ seite then .ok (lo, s)
    else match n with
      | 0 => .error .outOfSteps
      | n + 1 =>
        (add 64 lo (breite / 2)).bind fun summe =>
        let mitte := summe &&& (2 ^ 64 - 1 - (seite - 1))
        match probe mitte s with
        | (true, s') => sucheSchleife probe n mitte hi s'
        | (false, s') => sucheSchleife probe n lo mitte s'

def groessterBlockSuche (n zoneGroesse : Nat) (probe : Nat → σ → Bool × σ) (s : σ) :
    Call Empty (Nat × σ) :=
  (add 64 (zoneGroesse &&& (2 ^ 64 - 1 - (seite - 1))) seite).bind fun hi =>
  sucheSchleife probe n 0 hi s

def Monoton (passt : Nat → Bool) : Prop :=
  ∀ a b, seite ∣ a → a ≤ b → passt b = true → passt a = true

/-- The largest page multiple up to `zone` that fits, or 0. -/
structure Groesster (passt : Nat → Bool) (zone r : Nat) : Prop where
  seiten : seite ∣ r
  le : r ≤ zone
  geht : r = 0 ∨ passt r = true
  max : ∀ m, seite ∣ m → m ≤ zone → passt m = true → m ≤ r

/-- Where the search stands, in pages: what is below `a` fits, nothing from `b` on does. -/
structure Zwischen (passt : Nat → Bool) (zone a b : Nat) : Prop where
  lt : a < b
  le : b ≤ zone / seite + 1
  unten : a = 0 ∨ passt (seite * a) = true
  oben : ∀ m, b ≤ m → m ≤ zone / seite → passt (seite * m) = false

theorem abrunden {x : Nat} (hx : x < 2 ^ 64) :
    x &&& (2 ^ 64 - 1 - (seite - 1)) = seite * (x / seite) := by
  have hmask : x &&& (2 ^ 64 - 2 ^ 12) = x / 2 ^ 12 * 2 ^ 12 := and_high_mask hx (by omega)
  have hseite : 2 ^ 64 - 1 - (seite - 1) = 2 ^ 64 - 2 ^ 12 := rfl
  rw [hseite, hmask, Nat.mul_comm]
  rfl

theorem mitte_eq (a b : Nat) (hab : a ≤ b) :
    (seite * a + (seite * b - seite * a) / 2) / seite = a + (b - a) / 2 := by
  simp only [seite]
  omega

theorem Zwischen.ende {passt : Nat → Bool} {zone a : Nat} (h : Zwischen passt zone a (a + 1)) :
    Groesster passt zone (seite * a) := by
  have hle : a ≤ zone / seite := by
    have hb := h.le
    omega
  constructor
  · exact Nat.dvd_mul_right ..
  · calc seite * a ≤ seite * (zone / seite) := Nat.mul_le_mul_left _ hle
      _ ≤ zone := Nat.mul_div_le ..
  · rcases h.unten with hzero | hfit
    · left
      rw [hzero, Nat.mul_zero]
    · exact .inr hfit
  · rintro m ⟨k, rfl⟩ hm hfit
    have hk : k ≤ zone / seite := by
      rw [Nat.le_div_iff_mul_le (by decide), Nat.mul_comm]
      exact hm
    have hlt : ¬ a + 1 ≤ k := by
      intro hge
      rw [h.oben k hge hk] at hfit
      cases hfit
    exact Nat.mul_le_mul_left _ (by omega)

theorem Zwischen.schritt {passt : Nat → Bool} {zone a b m : Nat} (mono : Monoton passt)
    (h : Zwischen passt zone a b) (ham : a < m) (hmb : m < b) :
    (passt (seite * m) = true → Zwischen passt zone m b) ∧
      (passt (seite * m) = false → Zwischen passt zone a m) := by
  constructor
  · intro hfit
    exact ⟨hmb, h.le, .inr hfit, h.oben⟩
  · intro hno
    refine ⟨ham, Nat.le_trans (Nat.le_of_lt hmb) h.le, h.unten, fun k hk _ => ?_⟩
    by_contra hfit
    have hdown := mono (seite * m) (seite * k) (Nat.dvd_mul_right ..)
      (Nat.mul_le_mul_left _ hk) (by simpa using hfit)
    rw [hno] at hdown
    cases hdown

theorem sucheSchleife_spec {passt : Nat → Bool} {zone : Nat} (mono : Monoton passt)
    (hzone : zone + seite < 2 ^ 64) (probe : Nat → σ → Bool × σ)
    (hprobe : ∀ len s, (probe len s).1 = passt len) (n a b : Nat) (s : σ)
    (h : Zwischen passt zone a b) (hn : b - a ≤ 2 ^ n) :
    ∃ r s', sucheSchleife probe n (seite * a) (seite * b) s = .ok (r, s') ∧
      Groesster passt zone r := by
  have hb : seite * b < 2 ^ 64 := by
    have hle := Nat.mul_le_mul_left seite h.le
    have hdiv := Nat.mul_div_le zone seite
    rw [Nat.mul_add] at hle
    omega
  have hab := h.lt
  have hmul : seite * a < seite * b := Nat.mul_lt_mul_of_pos_left hab (by decide)
  induction n generalizing a b s with
  | zero =>
    have hone : b = a + 1 := by
      rw [Nat.pow_zero] at hn
      omega
    subst hone
    refine ⟨seite * a, s, ?_, h.ende⟩
    rw [sucheSchleife, sub_bind (Nat.le_of_lt hmul), if_pos (by rw [Nat.mul_add]; omega)]
  | succ n ih =>
    rw [sucheSchleife, sub_bind (Nat.le_of_lt hmul)]
    by_cases hone : b = a + 1
    · subst hone
      refine ⟨seite * a, s, ?_, h.ende⟩
      rw [if_pos (by rw [Nat.mul_add]; omega)]
    · have hwide : ¬ seite * b - seite * a ≤ seite := by
        rw [← Nat.mul_sub]
        have htwo : seite * 2 ≤ seite * (b - a) := Nat.mul_le_mul_left _ (by omega)
        simp only [seite] at htwo ⊢
        omega
      have hsum : seite * a + (seite * b - seite * a) / 2 < 2 ^ 64 := by omega
      have hmid : a < a + (b - a) / 2 ∧ a + (b - a) / 2 < b := by omega
      have hpow : b - a ≤ 2 * 2 ^ n := by rwa [Nat.pow_succ, Nat.mul_comm] at hn
      obtain ⟨hup, hdown⟩ := h.schritt mono hmid.1 hmid.2
      simp only [if_neg hwide, add_bind hsum, abrunden hsum, mitte_eq a b (Nat.le_of_lt hab)]
      have hanswer := hprobe (seite * (a + (b - a) / 2)) s
      rcases hp : probe (seite * (a + (b - a) / 2)) s with ⟨answer, s'⟩
      rw [hp] at hanswer
      subst hanswer
      cases hfit : passt (seite * (a + (b - a) / 2)) with
      | true =>
        exact ih _ _ s' (hup hfit) (by omega) hb hmid.2
          (Nat.mul_lt_mul_of_pos_left hmid.2 (by decide))
      | false =>
        have hlt := Nat.mul_lt_mul_of_pos_left hmid.2 (show 0 < seite by decide)
        exact ih _ _ s' (hdown hfit) (by omega) (Nat.lt_trans hlt hb) hmid.1
          (Nat.mul_lt_mul_of_pos_left hmid.1 (by decide))

/-- The search ends within a logarithm of probes, and with the largest page multiple that fits. -/
theorem groessterBlockSuche_groesster (zone : Nat) (hzone : zone < 2 ^ 64 - 4096)
    (passt : Nat → Bool) (mono : Monoton passt) (probe : Nat → σ → Bool × σ)
    (hprobe : ∀ len s, (probe len s).1 = passt len) (s : σ) (n : Nat)
    (hn : Nat.log2 (zone / seite) + 1 ≤ n) :
    ∃ r s', groessterBlockSuche n zone probe s = .ok (r, s') ∧ Groesster passt zone r := by
  have hsum : zone + seite < 2 ^ 64 := by
    simp only [seite]
    omega
  have hround := abrunden (x := zone) (by omega)
  have hdiv := Nat.mul_div_le zone seite
  have hstart : Zwischen passt zone 0 (zone / seite + 1) :=
    ⟨Nat.succ_pos _, Nat.le_refl _, .inl rfl, fun m hm hm' => absurd hm' (by omega)⟩
  have hwidth : zone / seite + 1 - 0 ≤ 2 ^ n := by
    have hlog : zone / seite < 2 ^ (Nat.log2 (zone / seite) + 1) := Nat.lt_log2_self
    have hpow : 2 ^ (Nat.log2 (zone / seite) + 1) ≤ 2 ^ n := Nat.pow_le_pow_right (by decide) hn
    rw [Nat.sub_zero]
    exact Nat.le_trans hlog hpow
  have hrun := sucheSchleife_spec mono hsum probe hprobe n 0 _ s hstart hwidth
  have hhi : seite * (zone / seite) + seite < 2 ^ 64 := by omega
  rw [groessterBlockSuche, hround, add_bind hhi]
  rwa [Nat.mul_zero, Nat.mul_add, Nat.mul_one] at hrun

/-- Pages up to 20480 of a zone that ends inside a page. -/
theorem groessterBlockSuche_groesster_five :
    ∃ r s', groessterBlockSuche 3 25000 (fun len s => (decide (len ≤ 20480), s + 1)) 0 =
      .ok (r, s') ∧ Groesster (fun len => decide (len ≤ 20480)) 25000 r :=
  groessterBlockSuche_groesster 25000 (by decide) (fun len => decide (len ≤ 20480))
    (fun a b _ hab hb => by simp only [decide_eq_true_eq] at hb ⊢; omega)
    (fun len s => (decide (len ≤ 20480), s + 1)) (fun _ _ => rfl) 0 3 (by decide)

end Caprock.Dma
