import Caprock.Lib.Word

/-! # What a device can address

`pruefeGrenzen` checks one segment of device addresses against the limits of the device,
`teileAnGrenze` says how much of it lies before the next boundary.  A boundary mask names the
address bits that must not change within a segment.  The lowest of them, `k`, decides: a
segment keeps all bits of the mask exactly if it stays in one block of `2 ^ k` addresses.

`teileAnGrenze` cuts at the end of that block.  `pruefeGrenzen` only compares the first and
the last address, so it also accepts a segment over several blocks whose two ends agree on
the mask.
-/

namespace Caprock.Dma

open Word

def trailingZeros (w : Nat) : Nat := ((List.range 64).find? fun i => w.testBit i).getD 64

structure GeraeteGrenzen where
  maske : Nat
  grenze : Nat
  maxSeg : Nat
  deriving DecidableEq, Repr

inductive GrenzenFehler where
  | leer
  | ueberlauf
  | maskeVerletzt (dev len maske : Nat)
  | grenzeVerletzt (dev len grenze : Nat)
  | segmentZuGross (len maxSeg : Nat)
  deriving DecidableEq, Repr

def pruefeGrenzen (g : GeraeteGrenzen) (dev len : Nat) : Except GrenzenFehler Unit :=
  if len = 0 then .error .leer
  else
    match checkedAdd dev len with
    | none => .error .ueberlauf
    | some ende =>
        let letzte := ende - 1
        if g.maske < letzte then .error (.maskeVerletzt dev len g.maske)
        else if g.grenze ≠ 0 ∧ (dev ^^^ letzte) &&& g.grenze ≠ 0 then
          .error (.grenzeVerletzt dev len g.grenze)
        else if g.maxSeg ≠ 0 ∧ g.maxSeg < len then .error (.segmentZuGross len g.maxSeg)
        else .ok ()

def abstand (dev k : Nat) : Nat := 2 ^ k - dev % 2 ^ k

def kuerzeste (dev m erste : Nat) : Nat :=
  if hm : m = 0 then erste
  else
    let erste := if abstand dev (trailingZeros m) < erste then abstand dev (trailingZeros m) else erste
    if erste = 1 then erste else kuerzeste dev (m &&& (m - 1)) erste
termination_by m
decreasing_by
  have hle : m &&& (m - 1) ≤ m - 1 := Nat.and_le_right
  omega

def teileAnGrenze (dev len grenze : Nat) : Option Nat :=
  if len = 0 then none
  else
    match checkedAdd dev len with
    | none => none
    | some _ =>
        if grenze = 0 then some len
        else
          let erste := kuerzeste dev grenze len
          some (if erste < len then erste else len)

section

variable {m : Nat}

theorem trailingZeros_spec (hpos : m ≠ 0) (hlt : m < 2 ^ 64) :
    m.testBit (trailingZeros m) = true ∧ ∀ i, m.testBit i = true → trailingZeros m ≤ i := by
  obtain ⟨i, hi⟩ := Nat.exists_testBit_of_ne_zero hpos
  have hi64 : i < 64 := by
    by_contra hge
    rw [Nat.testBit_lt_two_pow (Nat.lt_of_lt_of_le hlt (Nat.pow_le_pow_right (by decide)
      (Nat.le_of_not_lt hge)))] at hi
    cases hi
  cases hfind : (List.range 64).find? fun i => m.testBit i with
  | none =>
    have hnone := List.find?_eq_none.mp hfind i (List.mem_range.mpr hi64)
    exact absurd hi hnone
  | some k =>
    obtain ⟨hk, -, hmin⟩ := List.find?_range_eq_some.mp hfind
    have htz : trailingZeros m = k := by rw [trailingZeros, hfind, Option.getD_some]
    rw [htz]
    refine ⟨hk, fun j hj => ?_⟩
    by_contra hlt
    have hnot := hmin j (by omega)
    rw [hj] at hnot
    cases hnot

theorem testBit_of_clear {i : Nat} (h : (m &&& (m - 1)).testBit i = true) :
    m.testBit i = true := by
  rw [Nat.testBit_and, Bool.and_eq_true] at h
  exact h.1

end

section

variable (dev : Nat)

theorem abstand_pos (k : Nat) : 0 < abstand dev k := by
  have hlt := Nat.mod_lt dev (Nat.two_pow_pos k)
  unfold abstand
  omega

theorem abstand_mono {j k : Nat} (h : j ≤ k) : abstand dev j ≤ abstand dev k := by
  obtain ⟨c, rfl⟩ := Nat.exists_eq_add_of_le h
  have hmod : dev % 2 ^ (j + c) % 2 ^ j = dev % 2 ^ j :=
    Nat.mod_mod_of_dvd _ (Nat.pow_dvd_pow 2 h)
  have hlt := Nat.mod_lt dev (Nat.two_pow_pos (j + c))
  have hdecomp := Nat.div_add_mod (dev % 2 ^ (j + c)) (2 ^ j)
  have hq : dev % 2 ^ (j + c) / 2 ^ j < 2 ^ c :=
    Nat.div_lt_of_lt_mul (by rwa [← Nat.pow_add])
  have hstep : 2 ^ j * (dev % 2 ^ (j + c) / 2 ^ j) + 2 ^ j ≤ 2 ^ (j + c) :=
    calc 2 ^ j * (dev % 2 ^ (j + c) / 2 ^ j) + 2 ^ j
        = 2 ^ j * (dev % 2 ^ (j + c) / 2 ^ j + 1) := (Nat.mul_succ _ _).symm
      _ ≤ 2 ^ j * 2 ^ c := Nat.mul_le_mul_left _ hq
      _ = 2 ^ (j + c) := (Nat.pow_add ..).symm
  unfold abstand
  rw [hmod] at hdecomp
  omega

theorem div_eq_iff_le_abstand {k len : Nat} (hlen : 0 < len) :
    (dev + len - 1) / 2 ^ k = dev / 2 ^ k ↔ len ≤ abstand dev k := by
  have hdecomp := Nat.div_add_mod dev (2 ^ k)
  have hlt := Nat.mod_lt dev (Nat.two_pow_pos k)
  unfold abstand
  rw [Nat.div_eq_iff (Nat.two_pow_pos k)]
  have hcomm : 2 ^ k * (dev / 2 ^ k) = dev / 2 ^ k * 2 ^ k := Nat.mul_comm _ _
  omega

end

def Bleibt (dev len grenze : Nat) : Prop :=
  ∀ a, dev ≤ a → a < dev + len → ∀ i, grenze.testBit i = true → a.testBit i = dev.testBit i

theorem testBit_eq_of_div_eq {a b k i : Nat} (h : a / 2 ^ k = b / 2 ^ k) (hi : k ≤ i) :
    a.testBit i = b.testBit i := by
  obtain ⟨j, rfl⟩ := Nat.exists_eq_add_of_le' hi
  rw [← Nat.testBit_div_two_pow, ← Nat.testBit_div_two_pow, h]

theorem testBit_ne_of_next_block {a b k : Nat} (h : b / 2 ^ k = a / 2 ^ k + 1) :
    b.testBit k ≠ a.testBit k := by
  rw [Nat.testBit_eq_decide_div_mod_eq, Nat.testBit_eq_decide_div_mod_eq, h]
  intro heq
  have hiff := decide_eq_decide.mp heq
  omega

theorem xor_and_eq_zero_iff {a b grenze : Nat} :
    (a ^^^ b) &&& grenze = 0 ↔ ∀ i, grenze.testBit i = true → a.testBit i = b.testBit i := by
  constructor
  · intro h i hi
    have hbit := congrArg (Nat.testBit · i) h
    simp only [Nat.testBit_and, Nat.testBit_xor, hi, Bool.and_true, Nat.zero_testBit] at hbit
    simpa using hbit
  · intro h
    apply Nat.eq_of_testBit_eq
    intro i
    rw [Nat.testBit_and, Nat.testBit_xor, Nat.zero_testBit]
    cases hi : grenze.testBit i with
    | false => simp
    | true => simp [h i hi]

variable {dev len grenze : Nat}

theorem bleibt_iff (hpos : grenze ≠ 0) (hlt : grenze < 2 ^ 64) :
    Bleibt dev len grenze ↔ len ≤ abstand dev (trailingZeros grenze) := by
  obtain ⟨hbit, hmin⟩ := trailingZeros_spec hpos hlt
  constructor
  · intro h
    by_contra hgt
    have hnext : (dev + abstand dev (trailingZeros grenze)) / 2 ^ trailingZeros grenze =
        dev / 2 ^ trailingZeros grenze + 1 := by
      have hdecomp := Nat.div_add_mod dev (2 ^ trailingZeros grenze)
      have hmod := Nat.mod_lt dev (Nat.two_pow_pos (trailingZeros grenze))
      have hsum : dev + abstand dev (trailingZeros grenze) =
          2 ^ trailingZeros grenze * (dev / 2 ^ trailingZeros grenze + 1) := by
        rw [Nat.mul_succ]
        unfold abstand
        omega
      rw [hsum, Nat.mul_div_cancel_left _ (Nat.two_pow_pos _)]
    exact testBit_ne_of_next_block hnext
      (h (dev + abstand dev (trailingZeros grenze)) (Nat.le_add_right _ _) (by omega) _ hbit)
  · intro h a hle ha i hi
    have hsame := (div_eq_iff_le_abstand dev (k := trailingZeros grenze)
      (Nat.succ_pos (a - dev))).mpr (by omega)
    rw [show dev + (a - dev).succ - 1 = a by omega] at hsame
    exact testBit_eq_of_div_eq hsame (hmin i hi)

theorem pruefeGrenzen_eq_ok_iff (hlen : 0 < len) (hend : dev + len < 2 ^ 64) :
    pruefeGrenzen ⟨2 ^ 64 - 1, grenze, 0⟩ dev len = .ok () ↔
      (dev ^^^ (dev + len - 1)) &&& grenze = 0 := by
  unfold pruefeGrenzen
  rw [if_neg (by omega), checkedAdd_eq hend]
  dsimp only
  rw [if_neg (by omega)]
  by_cases hg : grenze = 0
  · simp [hg]
  · by_cases hx : (dev ^^^ (dev + len - 1)) &&& grenze = 0
    · simp [hx]
    · simp [hg, hx]

theorem kuerzeste_of_le {m erste : Nat} (hlt : m < 2 ^ 64)
    (h : ∀ i, m.testBit i = true → erste ≤ abstand dev i) : kuerzeste dev m erste = erste := by
  induction m using Nat.strongRecOn with
  | ind m ih =>
    unfold kuerzeste
    split
    · rfl
    · rename_i hpos
      have hle := h _ (trailingZeros_spec hpos hlt).1
      have hnot : ¬ abstand dev (trailingZeros m) < erste := Nat.not_lt.mpr hle
      have hsmall : m &&& (m - 1) ≤ m - 1 := Nat.and_le_right
      simp only [hnot, if_false]
      split
      · rfl
      · exact ih (m &&& (m - 1)) (by omega) (by omega) fun i hi => h i (testBit_of_clear hi)

theorem kuerzeste_eq {m erste : Nat} (hpos : m ≠ 0) (hlt : m < 2 ^ 64) :
    kuerzeste dev m erste = min erste (abstand dev (trailingZeros m)) := by
  have hfirst : (if abstand dev (trailingZeros m) < erste then abstand dev (trailingZeros m)
      else erste) = min erste (abstand dev (trailingZeros m)) := by
    split <;> omega
  unfold kuerzeste
  rw [dif_neg hpos, hfirst]
  dsimp only
  split
  · rfl
  · have hsmall : m &&& (m - 1) ≤ m - 1 := Nat.and_le_right
    apply kuerzeste_of_le (by omega)
    intro i hi
    exact Nat.le_trans (Nat.min_le_right _ _)
      (abstand_mono dev ((trailingZeros_spec hpos hlt).2 i (testBit_of_clear hi)))

theorem teileAnGrenze_eq (hlen : 0 < len) (hend : dev + len < 2 ^ 64) (hlt : grenze < 2 ^ 64) :
    teileAnGrenze dev len grenze =
      some (if grenze = 0 then len else min len (abstand dev (trailingZeros grenze))) := by
  unfold teileAnGrenze
  rw [if_neg (by omega), checkedAdd_eq hend]
  dsimp only
  by_cases hg : grenze = 0
  · rw [if_pos hg, if_pos hg]
  · rw [if_neg hg, if_neg hg, kuerzeste_eq hg hlt]
    congr 1
    split <;> omega

theorem bleibt_zero : Bleibt dev len 0 := by
  intro a _ _ i hi
  rw [Nat.zero_testBit] at hi
  cases hi

theorem teileAnGrenze_eq_len_iff (hlen : 0 < len) (hend : dev + len < 2 ^ 64)
    (hlt : grenze < 2 ^ 64) :
    teileAnGrenze dev len grenze = some len ↔ Bleibt dev len grenze := by
  rw [teileAnGrenze_eq hlen hend hlt, Option.some.injEq]
  by_cases hg : grenze = 0
  · subst hg
    simp [bleibt_zero]
  · rw [if_neg hg, bleibt_iff hg hlt]
    omega

theorem pruefeGrenzen_of_bleibt (hlen : 0 < len) (hend : dev + len < 2 ^ 64)
    (h : Bleibt dev len grenze) : pruefeGrenzen ⟨2 ^ 64 - 1, grenze, 0⟩ dev len = .ok () := by
  rw [pruefeGrenzen_eq_ok_iff hlen hend, xor_and_eq_zero_iff]
  intro i hi
  exact (h (dev + len - 1) (by omega) (by omega) i hi).symm

def zerlege (grenze : Nat) : Nat → Nat → Nat → Option (List (Nat × Nat))
  | n, dev, len =>
      if len = 0 then some []
      else
        match n with
        | 0 => none
        | n + 1 =>
            match teileAnGrenze dev len grenze with
            | none => none
            | some k => (zerlege grenze n (dev + k) (len - k)).map ((dev, k) :: ·)

def Reihe : Nat → List (Nat × Nat) → Nat → Prop
  | dev, [], ende => dev = ende
  | dev, (d, k) :: ps, ende => d = dev ∧ 0 < k ∧ Reihe (dev + k) ps ende

theorem zerlege_spec {n : Nat} (hn : len ≤ n) (hend : dev + len < 2 ^ 64)
    (hlt : grenze < 2 ^ 64) :
    ∃ ps, zerlege grenze n dev len = some ps ∧ Reihe dev ps (dev + len) ∧
      ∀ p ∈ ps, pruefeGrenzen ⟨2 ^ 64 - 1, grenze, 0⟩ p.1 p.2 = .ok () := by
  induction n generalizing dev len with
  | zero =>
    obtain rfl : len = 0 := by omega
    exact ⟨[], by rw [zerlege, if_pos rfl], rfl, by simp⟩
  | succ n ih =>
    by_cases hlen : len = 0
    · subst hlen
      exact ⟨[], by rw [zerlege, if_pos rfl], rfl, by simp⟩
    · have hpos : 0 < len := Nat.pos_of_ne_zero hlen
      obtain ⟨k, hk, hkpos, hkle, hstays⟩ : ∃ k, teileAnGrenze dev len grenze = some k ∧ 0 < k ∧
          k ≤ len ∧ Bleibt dev k grenze := by
        refine ⟨_, teileAnGrenze_eq hpos hend hlt, ?_⟩
        by_cases hg : grenze = 0
        · subst hg
          exact ⟨hpos, Nat.le_refl _, bleibt_zero⟩
        · rw [if_neg hg]
          have hab := abstand_pos dev (trailingZeros grenze)
          exact ⟨by omega, Nat.min_le_left _ _,
            (bleibt_iff hg hlt).mpr (Nat.min_le_right _ _)⟩
      have hfit : len - k ≤ n := by omega
      have hend' : dev + k + (len - k) < 2 ^ 64 := by omega
      obtain ⟨ps, hps, hreihe, hok⟩ := ih hfit hend'
      refine ⟨(dev, k) :: ps, ?_, ⟨rfl, hkpos, ?_⟩, ?_⟩
      · rw [zerlege, if_neg hlen]
        simp only [hk, hps, Option.map_some]
      · rwa [show dev + k + (len - k) = dev + len by omega] at hreihe
      · intro p hp
        rcases List.mem_cons.mp hp with rfl | hp
        · exact pruefeGrenzen_of_bleibt hkpos (by omega) hstays
        · exact hok p hp

/-- At one segment the check, the cut and the addresses themselves give the same verdict, and
cutting again and again ends with accepted pieces that make up the segment. -/
structure Einig (dev len grenze : Nat) : Prop where
  teile : pruefeGrenzen ⟨2 ^ 64 - 1, grenze, 0⟩ dev len = .ok () ↔
    teileAnGrenze dev len grenze = some len
  bleibt : pruefeGrenzen ⟨2 ^ 64 - 1, grenze, 0⟩ dev len = .ok () ↔ Bleibt dev len grenze
  zerlegt : ∃ ps, zerlege grenze len dev len = some ps ∧ Reihe dev ps (dev + len) ∧
    ∀ p ∈ ps, pruefeGrenzen ⟨2 ^ 64 - 1, grenze, 0⟩ p.1 p.2 = .ok ()

/-- The functions agree unless the segment ends in another block than it begins, with the same
bits of the mask. -/
theorem einig_iff (dev len grenze : Nat) (hlen : 0 < len) (hend : dev + len < 2 ^ 64)
    (hlt : grenze < 2 ^ 64) :
    Einig dev len grenze ↔ grenze = 0 ∨
      (dev + len - 1) / 2 ^ trailingZeros grenze = dev / 2 ^ trailingZeros grenze ∨
      (dev ^^^ (dev + len - 1)) &&& grenze ≠ 0 := by
  have hteile := teileAnGrenze_eq_len_iff hlen hend hlt
  have hstays : Bleibt dev len grenze ↔ grenze = 0 ∨
      (dev + len - 1) / 2 ^ trailingZeros grenze = dev / 2 ^ trailingZeros grenze := by
    by_cases hg : grenze = 0
    · subst hg
      simp [bleibt_zero]
    · rw [bleibt_iff hg hlt, div_eq_iff_le_abstand dev hlen]
      simp [hg]
  constructor
  · intro h
    by_cases hx : (dev ^^^ (dev + len - 1)) &&& grenze = 0
    · have hkeep := h.bleibt.mp ((pruefeGrenzen_eq_ok_iff hlen hend).mpr hx)
      rcases hstays.mp hkeep with hg | hblock
      · exact .inl hg
      · exact .inr (.inl hblock)
    · exact .inr (.inr hx)
  · intro h
    have hbleibt : pruefeGrenzen ⟨2 ^ 64 - 1, grenze, 0⟩ dev len = .ok () ↔
        Bleibt dev len grenze := by
      refine ⟨fun hok => ?_, pruefeGrenzen_of_bleibt hlen hend⟩
      rw [pruefeGrenzen_eq_ok_iff hlen hend] at hok
      rcases h with hg | hblock | hx
      · exact hstays.mpr (.inl hg)
      · exact hstays.mpr (.inr hblock)
      · exact absurd hok hx
    exact ⟨hbleibt.trans hteile.symm, hbleibt, zerlege_spec (Nat.le_refl len) hend hlt⟩

/-- A segment over one boundary of 64 KiB. -/
theorem einig_iff_one_boundary : Einig 0xFFF0 0x20 0xFFFF0000 :=
  (einig_iff 0xFFF0 0x20 0xFFFF0000 (by decide) (by decide) (by decide)).mpr (by decide)

/-- A mask of low bits: the ends agree, 64 KiB apart, although the first address that follows
differs already. -/
theorem not_einig_low_mask :
    pruefeGrenzen ⟨2 ^ 64 - 1, 0xFFFF, 0⟩ 0 0x10001 = .ok () ∧
      teileAnGrenze 0 0x10001 0xFFFF = some 1 ∧ ¬ Bleibt 0 0x10001 0xFFFF := by
  have htz : trailingZeros 0xFFFF = 0 := by decide
  refine ⟨by decide, ?_, fun h => ?_⟩
  · rw [teileAnGrenze_eq (by decide) (by decide) (by decide), htz]
    decide
  · exact absurd (h 1 (by decide) (by decide) 0 (by decide)) (by decide)

end Caprock.Dma
