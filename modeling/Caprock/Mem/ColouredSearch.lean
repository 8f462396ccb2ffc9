import Caprock.Mem.Coloured

/-! # The coloured search misses nothing

The colours of a run depend on its first page modulo the number of colours.  A start that
lies `t` steps behind the first aligned one can therefore be replaced by the one `t % colors`
steps behind it, which the search tries.  A run of more than 64 pages meets every bit of the
living part, so only the full mask admits it.
-/

namespace Caprock.Mem

open Word

theorem colorOf_eq {pa colors k : Nat} (hcolors : colors = 2 ^ k) (hlt : colors < 2 ^ 32) :
    colorOf pa colors = pa / page % colors := by
  subst hcolors
  have hk : k < 32 := (Nat.pow_lt_pow_iff_right (by decide)).mp hlt
  have hdvd : 2 ^ k ∣ 2 ^ 32 := Nat.pow_dvd_pow 2 (Nat.le_of_lt hk)
  unfold colorOf
  by_cases hone : 2 ^ k ≤ 1
  · have hpos : 0 < 2 ^ k := Nat.two_pow_pos k
    have heq : 2 ^ k = 1 := by omega
    rw [if_pos hone, heq, Nat.mod_one]
  · rw [if_neg hone, Nat.and_two_pow_sub_one_eq_mod, Nat.mod_mod_of_dvd _ hdvd]

theorem seite_div (start j : Nat) : (start + j * page) / page = start / page + j :=
  Nat.add_mul_div_right _ _ (by decide)

section

variable {i n colors : Nat} {mask : ColorMask} (h : stripe i n colors = some mask)
  (hlt : colors < 2 ^ 32)

include h hlt

theorem contains_seite (start j : Nat) :
    mask.contains (colorOf (start + j * page) colors) =
      decide ((start / page + j) % live colors / anteil n colors = i) := by
  obtain ⟨-, ⟨_, _, k, hauf⟩, -⟩ := stripe_eq_some_iff.mp h
  rw [contains_stripe h, colorOf_eq hauf.colors_eq hlt, Nat.mod_mod_of_dvd _ hauf.live_dvd_colors,
    seite_div]

theorem farbig_add_iff (start z size vorspann : Nat) :
    PhysAllocator.Farbig (start + colors * z * page) size vorspann colors mask ↔
      PhysAllocator.Farbig start size vorspann colors mask := by
  obtain ⟨-, ⟨_, _, k, hauf⟩, -⟩ := stripe_eq_some_iff.mp h
  have hsame : ∀ j, mask.contains (colorOf (start + colors * z * page + j * page) colors) =
      mask.contains (colorOf (start + j * page) colors) := by
    intro j
    have hmod : (start / page + colors * z + j) % live colors =
        (start / page + j) % live colors := by
      obtain ⟨q, hq⟩ := hauf.live_dvd_colors
      have hsum : start / page + colors * z + j = start / page + j + live colors * (q * z) := by
        conv_lhs => rw [hq]
        ring
      rw [hsum, Nat.add_mul_mod_self_left]
    rw [contains_seite h hlt, contains_seite h hlt, seite_div, hmod]
  constructor
  · intro hf j hlo hhi
    rw [← hsame]
    exact hf j hlo hhi
  · intro hf j hlo hhi
    rw [hsame]
    exact hf j hlo hhi

end

theorem wiederholen_lt {block live n off bits : Nat} (h : bits < 2 ^ 64) :
    wiederholen block live n off bits < 2 ^ 64 := by
  induction n generalizing off bits with
  | zero => exact h
  | succ n ih =>
    unfold wiederholen
    split
    · exact ih (Nat.or_lt_two_pow h (Nat.mod_lt _ (by decide)))
    · exact h

theorem exists_fremd {i n colors : Nat} {mask : ColorMask} (h : stripe i n colors = some mask)
    (hmask : mask ≠ ColorMask.all) : ∃ ρ, ρ < live colors ∧ ρ / anteil n colors ≠ i := by
  obtain ⟨-, ⟨_, _, _, hauf⟩, hbits⟩ := stripe_eq_some_iff.mp h
  by_contra hall
  push Not at hall
  apply hmask
  have hlt : mask.bits < 2 ^ 64 := by
    rw [hbits]
    exact wiederholen_lt (by decide)
  have heq : mask.bits = 2 ^ 64 - 1 := by
    apply Nat.eq_of_testBit_eq
    intro b
    rw [Nat.testBit_two_pow_sub_one]
    by_cases hb : b < 64
    · rw [testBit_stripe h hb, hall _ (Nat.mod_lt _ hauf.live_pos)]
      simp [hb]
    · rw [Nat.testBit_lt_two_pow (Nat.lt_of_lt_of_le hlt
        (Nat.pow_le_pow_right (by decide) (by omega)))]
      simp [hb]
  show mask = ⟨2 ^ 64 - 1⟩
  rw [← heq]

theorem stripe_nonempty {i n colors : Nat} {mask : ColorMask} (h : stripe i n colors = some mask) :
    mask.isEmpty = false := by
  obtain ⟨hi, ⟨_, _, _, hauf⟩, -⟩ := stripe_eq_some_iff.mp h
  have hle := hauf.succ_mul_le hi
  have hpos := hauf.anteil_pos
  have hmul : (i + 1) * anteil n colors = i * anteil n colors + anteil n colors := Nat.succ_mul _ _
  have hlive : live colors ≤ 64 := Nat.le_of_dvd (by decide) hauf.live_dvd_mask
  have hbit : mask.bits.testBit (i * anteil n colors) = true := by
    rw [testBit_stripe h (by omega), Nat.mod_eq_of_lt (by omega), Nat.mul_div_cancel _ hpos]
    exact decide_eq_true rfl
  unfold ColorMask.isEmpty
  rw [beq_eq_false_iff_ne]
  intro hzero
  rw [hzero, Nat.zero_testBit] at hbit
  cases hbit

theorem length_le_of_farbig {i n colors start size vorspann : Nat} {mask : ColorMask}
    (h : stripe i n colors = some mask) (hlt : colors < 2 ^ 32) (hmask : mask ≠ ColorMask.all)
    (hfarbig : PhysAllocator.Farbig start size vorspann colors mask) :
    size / page - vorspann ≤ maskBits := by
  obtain ⟨-, ⟨_, _, _, hauf⟩, -⟩ := stripe_eq_some_iff.mp h
  obtain ⟨ρ, hρ, hfremd⟩ := exists_fremd h hmask
  have hlive : live colors ≤ maskBits := Nat.le_of_dvd (by decide) hauf.live_dvd_mask
  by_contra hlong
  -- The first page behind the head whose number has the foreign remainder.
  let d := (ρ + live colors - (start / page + vorspann) % live colors) % live colors
  have hd : d < live colors := Nat.mod_lt _ hauf.live_pos
  have hrest := Nat.mod_lt (start / page + vorspann) hauf.live_pos
  have hmod : (start / page + (vorspann + d)) % live colors = ρ := by
    have hsum : (start / page + vorspann) % live colors +
        (ρ + live colors - (start / page + vorspann) % live colors) = ρ + live colors := by omega
    calc (start / page + (vorspann + d)) % live colors
        = ((start / page + vorspann) % live colors +
            (ρ + live colors - (start / page + vorspann) % live colors)) % live colors := by
          rw [← Nat.add_assoc, Nat.add_mod_mod, Nat.mod_add_mod]
      _ = ρ := by rw [hsum, Nat.add_mod_right, Nat.mod_eq_of_lt hρ]
  have hin := hfarbig (vorspann + d) (Nat.le_add_right _ _) (by omega)
  rw [contains_seite h hlt, hmod, decide_eq_true_eq] at hin
  exact hfremd hin

theorem alignUp_le {value k x : Nat} (hk : k ≤ 63) (h : value + (2 ^ k - 1) < 2 ^ 64)
    (hx : value ≤ x) (hdvd : 2 ^ k ∣ x) : alignUp value (2 ^ k) ≤ x := by
  obtain ⟨q, rfl⟩ := hdvd
  have hpos : 0 < 2 ^ k := Nat.two_pow_pos k
  rw [alignUp_eq hk h, Nat.mul_comm]
  apply Nat.mul_le_mul_left
  have hlt : (value + (2 ^ k - 1)) / 2 ^ k < q + 1 := by
    rw [Nat.div_lt_iff_lt_mul hpos, Nat.succ_mul, Nat.mul_comm q]
    omega
  omega

namespace PhysAllocator

theorem farbigerStart_isSome {zoneEnd size align vorspann gefaerbt colors : Nat} {mask : ColorMask}
    (hlt : colors < 2 ^ 32) (hend : zoneEnd < 2 ^ 64) (t tries start : Nat)
    (ht : tries + t ≤ colors) (hfit : start + t * max align page + size ≤ zoneEnd)
    (hrun : runIsColored (start + t * max align page + vorspann * page) gefaerbt colors mask =
      true) :
    (farbigerStart zoneEnd size align vorspann gefaerbt colors mask tries start).isSome := by
  have hpage : 0 < page := by decide
  have hmax : page ≤ max align page := Nat.le_max_right _ _
  induction t generalizing tries start with
  | zero =>
    rw [Nat.zero_mul, Nat.add_zero] at hfit hrun
    unfold farbigerStart
    rw [if_neg (by omega), dif_pos ⟨by omega, hfit⟩, if_pos hrun]
    rfl
  | succ t ih =>
    have hmul : (t + 1) * max align page = t * max align page + max align page :=
      Nat.succ_mul _ _
    have hsplit : start + (t + 1) * max align page =
        start + max align page + t * max align page := by omega
    unfold farbigerStart
    rw [if_neg (by omega), dif_pos ⟨by omega, by omega⟩]
    split
    · rfl
    · rw [if_pos (by omega), Nat.mod_eq_of_lt (by omega)]
      rw [hsplit] at hfit hrun
      exact ih (tries + 1) (start + max align page) (by omega) hfit hrun

theorem runIsColored_of_farbig {start size vorspann colors : Nat} {mask : ColorMask}
    (h : Farbig start size vorspann colors mask) :
    runIsColored (start + vorspann * page) (size / page - vorspann) colors mask = true := by
  apply List.all_eq_true.mpr
  intro j hj
  have hlt := List.mem_range.mp hj
  have haddr : start + vorspann * page + j * page = start + (vorspann + j) * page := by
    rw [Nat.add_assoc, ← Nat.add_mul]
  rw [haddr]
  exact h (vorspann + j) (Nat.le_add_right _ _) (by omega)

/-- An aligned range in the zone part of a fragment whose pages behind the head have colours
of the mask. -/
structure Passend (size align vorspann colors : Nat) (mask : ColorMask) (lo hi : Nat)
    (r : PhysRegion) (start : Nat) : Prop where
  aligned : max align page ∣ start
  base_le : r.base ≤ start
  le_end : start + size ≤ r.base + r.len
  lo_le : lo ≤ start
  le_hi : start + size ≤ hi
  farbig : Farbig start size vorspann colors mask

section

variable {i n colors size align vorspann lo hi m start : Nat} {mask : ColorMask} {r : PhysRegion}
  (hfits : r.base + r.len < 2 ^ 63) (hm : m ≤ 63) (hmax : max align page = 2 ^ m)

include hfits hm

theorem Passend.room (h : Passend size align vorspann colors mask lo hi r start) :
    max r.base lo + (2 ^ m - 1) < 2 ^ 64 := by
  have hpow : 2 ^ m ≤ 2 ^ 63 := Nat.pow_le_pow_right (by decide) hm
  have hstart := h.base_le
  have hlo := h.lo_le
  have hend := h.le_end
  omega

include hmax

theorem Passend.zonenStart_le (h : Passend size align vorspann colors mask lo hi r start) :
    alignUp (max r.base lo) (max align page) ≤ start := by
  rw [hmax]
  exact alignUp_le hm (h.room hfits hm) (Nat.max_le.mpr ⟨h.base_le, h.lo_le⟩)
    (hmax ▸ h.aligned)

theorem Passend.le_zonenStart (h : Passend size align vorspann colors mask lo hi r start) :
    max r.base lo ≤ alignUp (max r.base lo) (max align page) := by
  rw [hmax]
  exact le_alignUp hm (h.room hfits hm)

/-- The inner loop finds a start in a fragment that has a suitable one. -/
theorem Passend.farbigerStart (h : Passend size align vorspann colors mask lo hi r start)
    (hstripe : stripe i n colors = some mask) (hlt : colors < 2 ^ 32) (hpage : page ∣ 2 ^ m) :
    (PhysAllocator.farbigerStart (min r.fin hi) size (max align page) vorspann
      (size / page - vorspann) colors mask 0
        (alignUp (max r.base lo) (max align page))).isSome := by
  have hfin : r.fin = r.base + r.len := PhysRegion.fin_eq (by omega)
  have hle := h.zonenStart_le hfits hm hmax
  have hdvd : max align page ∣ alignUp (max r.base lo) (max align page) := by
    rw [hmax]
    exact dvd_alignUp_wrap _ hm
  have hmm : max (max align page) page = max align page := Nat.max_eq_left (Nat.le_max_right _ _)
  have hend := h.le_end
  have hhi := h.le_hi
  set s := alignUp (max r.base lo) (max align page) with hs
  obtain ⟨t, ht⟩ : ∃ t, start = s + t * max align page := by
    obtain ⟨t, ht⟩ := Nat.dvd_sub h.aligned hdvd
    exact ⟨t, by rw [Nat.mul_comm t, ← ht]; omega⟩
  obtain ⟨-, ⟨_, _, k, hauf⟩, -⟩ := stripe_eq_some_iff.mp hstripe
  have hcolors : 0 < colors := hauf.colors_eq ▸ Nat.two_pow_pos k
  have hmod : t % colors ≤ t := Nat.mod_le _ _
  have hmul : t % colors * max align page ≤ t * max align page := Nat.mul_le_mul_right _ hmod
  have hless := Nat.mod_lt t hcolors
  obtain ⟨w, hw⟩ := hpage
  have hstart : start = s + t % colors * max align page + colors * (t / colors * w) * page := by
    have hdm : t = t % colors + colors * (t / colors) := (Nat.mod_add_div t colors).symm
    calc start = s + t * max align page := ht
      _ = s + (t % colors + colors * (t / colors)) * max align page := by rw [← hdm]
      _ = s + t % colors * max align page + colors * (t / colors) * (page * w) := by
          rw [Nat.add_mul, ← Nat.add_assoc, hmax, hw]
      _ = s + t % colors * max align page + colors * (t / colors * w) * page := by ring
  have hfarbig := h.farbig
  rw [hstart, farbig_add_iff hstripe hlt] at hfarbig
  apply farbigerStart_isSome hlt (by omega) (t % colors) 0 s (by omega)
  · rw [hmm]
    omega
  · rw [hmm]
    exact runIsColored_of_farbig hfarbig

theorem Passend.brauchbar {a : PhysAllocator}
    (h : Passend size align vorspann colors mask lo hi r start) (hlen : a.len < maxFragments)
    (hpos : 0 < size) : a.Brauchbar size (max align page) lo hi r := by
  have hfin : r.fin = r.base + r.len := PhysRegion.fin_eq (by omega)
  have hle := h.zonenStart_le hfits hm hmax
  have hge := h.le_zonenStart hfits hm hmax
  have hbase := h.base_le
  have hlo := h.lo_le
  have hend := h.le_end
  have hhi := h.le_hi
  have hzone : zonenStart (max align page) lo r = alignUp (max r.base lo) (max align page) := rfl
  refine ⟨by omega, ?_, ?_, ?_, ?_⟩
  · rw [hzone]
    exact (Nat.le_max_left _ _).trans hge
  · rw [hzone]
    omega
  · rw [hzone, hfin]
    omega
  · rintro ⟨-, hfull⟩
    omega

end

section

variable {a : PhysAllocator} {vorspann size align gefaerbt colors lo hi : Nat} {mask : ColorMask}

def FarbigBrauchbar (size align vorspann gefaerbt colors : Nat) (mask : ColorMask) (lo hi : Nat)
    (r : PhysRegion) : Prop :=
  max r.base lo < min r.fin hi ∧
    (farbigerStart (min r.fin hi) size align vorspann gefaerbt colors mask 0
      (alignUp (max r.base lo) align)).isSome

theorem bestFarbigIn_isSome (hlen : a.len < maxFragments)
    (hfits : ∀ r ∈ a.regions, r.base + r.len < 2 ^ 63) {i : Nat} {r : PhysRegion}
    (hr : a.regions[i]? = some r)
    (h : FarbigBrauchbar size align vorspann gefaerbt colors mask lo hi r) :
    (a.bestFarbigIn vorspann size align gefaerbt colors mask lo hi (none, 2 ^ 64 - 1) i).1.isSome
      := by
  obtain ⟨hzone, hstart⟩ := h
  obtain ⟨s, hs⟩ := Option.isSome_iff_exists.mp hstart
  have hr63 := hfits r (List.mem_of_getElem? hr)
  have hfin : r.fin = r.base + r.len := PhysRegion.fin_eq (by omega)
  have hrest : ¬ a.keinPlatzFuerRest r s (s + size) := by
    rintro ⟨-, hfull⟩
    omega
  unfold bestFarbigIn
  rw [hr]
  dsimp only
  rw [if_neg (Nat.not_le.mpr hzone), hs]
  dsimp only
  rw [if_neg hrest, if_pos (by omega)]
  rfl

theorem bestFarbigIn_of_not (best : Option (Nat × Nat) × Nat) {i : Nat}
    (h : ¬ ∃ r, a.regions[i]? = some r ∧
      FarbigBrauchbar size align vorspann gefaerbt colors mask lo hi r) :
    a.bestFarbigIn vorspann size align gefaerbt colors mask lo hi best i = best := by
  unfold bestFarbigIn
  cases hr : a.regions[i]? with
  | none => rfl
  | some r =>
    dsimp only
    split
    · rfl
    · next hzone =>
      cases hs : farbigerStart (min r.fin hi) size align vorspann gefaerbt colors mask 0
          (alignUp (max r.base lo) align) with
      | none => rfl
      | some s => exact absurd ⟨r, hr, Nat.lt_of_not_le hzone, by rw [hs]; rfl⟩ h

theorem bestFarbigIn_keeps (best : Option (Nat × Nat) × Nat) (i : Nat)
    (h : best.1.isSome = true) :
    (a.bestFarbigIn vorspann size align gefaerbt colors mask lo hi best i).1.isSome = true := by
  unfold bestFarbigIn
  cases a.regions[i]? with
  | none => exact h
  | some r =>
    dsimp only
    split
    · exact h
    split
    · exact h
    split
    · exact h
    split
    · rfl
    · exact h

theorem foldl_bestFarbigIn_eq_none (hlen : a.len < maxFragments)
    (hfits : ∀ r ∈ a.regions, r.base + r.len < 2 ^ 63)
    (h : ((List.range a.len).foldl
      (a.bestFarbigIn vorspann size align gefaerbt colors mask lo hi) (none, 2 ^ 64 - 1)).1 = none) :
    ∀ r ∈ a.regions, ¬ FarbigBrauchbar size align vorspann gefaerbt colors mask lo hi r := by
  rw [← a.forall_range_iff]
  have hcases := Search.foldl_cases
    (f := a.bestFarbigIn vorspann size align gefaerbt colors mask lo hi)
    (E := fun best => best = (none, 2 ^ 64 - 1)) (F := fun best => best.1.isSome = true)
    (C := fun i => ∃ r, a.regions[i]? = some r ∧
      FarbigBrauchbar size align vorspann gefaerbt colors mask lo hi r)
    bestFarbigIn_keeps
    (by rintro best i rfl ⟨r, hr, hb⟩; exact bestFarbigIn_isSome hlen hfits hr hb)
    (by rintro best i rfl hi; exact bestFarbigIn_of_not _ hi) (List.range a.len) rfl
  rcases hcases with ⟨-, hall⟩ | ⟨hfound, -⟩
  · exact hall
  · rw [h] at hfound
    cases hfound

end

/-- When the coloured search is refused, no fragment of the free list contains a suitable
range inside the zone. -/
theorem allocColoredVorspannIn_complete {a : PhysAllocator}
    {vorspann size align k colors i n lo hi : Nat} {mask : ColorMask}
    (hlen : a.len < maxFragments) (hfits : ∀ r ∈ a.regions, r.base + r.len < 2 ^ 63)
    (hcolors : colors < 2 ^ 32) (hstripe : stripe i n colors = some mask)
    (halign : align = 2 ^ k) (hk : k ≤ 63) (hvor : vorspann < alignUp (max size 1) page / page)
    (hnone : (a.allocColoredVorspannIn vorspann size align colors mask lo hi).1 = none) :
    ∀ r ∈ a.regions, ∀ start,
      ¬ Passend (alignUp (max size 1) page) align vorspann colors mask lo hi r start := by
  intro r hr start hpass
  obtain ⟨m, hm, hmax⟩ := max_page_eq_pow halign hk
  have hpos : 0 < alignUp (max size 1) page := by
    by_contra hzero
    have heq : alignUp (max size 1) page = 0 := by omega
    rw [heq, Nat.zero_div] at hvor
    exact absurd hvor (Nat.not_lt_zero _)
  unfold allocColoredVorspannIn at hnone
  rw [stripe_nonempty hstripe, if_neg (by decide)] at hnone
  by_cases hplain : colors ≤ 1 ∨ mask = ColorMask.all
  · rw [if_pos hplain] at hnone
    have hb := hpass.brauchbar (hfits r hr) hm hmax hlen hpos
    rcases allocIn_cases a size align lo hi with ⟨hall, -⟩ | ⟨j, r', hr', -, heq⟩
    · exact hall r hr hb
    · rw [heq, carve_fst hr'] at hnone
      cases hnone
  · have hmask : mask ≠ ColorMask.all := fun heq => hplain (.inr heq)
    have hbits := length_le_of_farbig hstripe hcolors hmask hpass.farbig
    rw [if_neg hplain] at hnone
    dsimp only at hnone
    rw [if_neg (Nat.not_le.mpr hvor), if_neg (Nat.not_lt.mpr hbits)] at hnone
    have hpage : page ∣ 2 ^ m := by
      have hle : page ≤ 2 ^ m := hmax ▸ Nat.le_max_right align page
      have hpow : page = 2 ^ 12 := by decide
      rw [hpow] at hle ⊢
      exact Nat.pow_dvd_pow 2 ((Nat.pow_le_pow_iff_right (by decide)).mp hle)
    have hstart := hpass.farbigerStart (hfits r hr) hm hmax hstripe hcolors hpage
    have hfin : r.fin = r.base + r.len := PhysRegion.fin_eq (by have := hfits r hr; omega)
    have hzone : max r.base lo < min r.fin hi := by
      have hbase := hpass.base_le
      have hlo := hpass.lo_le
      have hend := hpass.le_end
      have hhi := hpass.le_hi
      omega
    cases hfold : ((List.range a.len).foldl (a.bestFarbigIn vorspann (alignUp (max size 1) page)
        (max align page) (alignUp (max size 1) page / page - vorspann) colors mask lo hi)
        (none, 2 ^ 64 - 1)).1 with
    | none => exact foldl_bestFarbigIn_eq_none hlen hfits hfold r hr ⟨hzone, hstart⟩
    | some b =>
        obtain ⟨r', hr', -⟩ := foldl_bestFarbigIn_spec hfold
        rw [hfold] at hnone
        dsimp only at hnone
        rw [carve_fst hr'] at hnone
        cases hnone

/-- The only free page has colour 0 of 16, and the second of four stripes begins at 4. -/
theorem allocColoredVorspannIn_complete_one_page :
    let a : PhysAllocator := ⟨[⟨0, 4096⟩]⟩
    let mask : ColorMask := ⟨0x00F000F000F000F0⟩
    (a.allocColoredVorspannIn 0 4096 1 16 mask 0 (2 ^ 63)).1 = none ∧ ∀ r ∈ a.regions, ∀ start,
      ¬ Passend (alignUp (max 4096 1) page) 1 0 16 mask 0 (2 ^ 63) r start := by
  intro a mask
  have hnone : (a.allocColoredVorspannIn 0 4096 1 16 mask 0 (2 ^ 63)).1 = none := by
    decide +kernel
  exact ⟨hnone, allocColoredVorspannIn_complete (k := 0) (i := 1) (n := 4) (by decide) (by decide)
    (by decide) (by decide) (by decide) (by decide) (by decide) hnone⟩

end PhysAllocator

end Caprock.Mem
