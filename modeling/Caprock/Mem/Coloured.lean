import Caprock.Mem.Stripe

/-! # Coloured allocation

A coloured request is served from an address at which every page behind the free-colour
head has a colour of the mask.  Two requests under different stripes never get pages of one
colour, whatever the free list looks like, since both searches look at every page.  In the
other direction the search misses nothing: the colours of the pages depend on the page
number modulo the number of colours alone, so the starts it tries stand for all of them.
-/

namespace Caprock.Mem

open Word

namespace PhysAllocator

def allocColoredIn (a : PhysAllocator) (size align colors : Nat) (mask : ColorMask) (lo hi : Nat) :
    Option MemoryCap × PhysAllocator :=
  a.allocColoredVorspannIn 0 size align colors mask lo hi

def allocColoredBelow (a : PhysAllocator) (size align colors : Nat) (mask : ColorMask)
    (limit : Nat) : Option MemoryCap × PhysAllocator :=
  a.allocColoredIn size align colors mask 0 limit

def allocColored (a : PhysAllocator) (size align colors : Nat) (mask : ColorMask) :
    Option MemoryCap × PhysAllocator :=
  a.allocColoredBelow size align colors mask (2 ^ 64 - 1)

def Faerbbar (start size vorspann colors : Nat) (mask : ColorMask) : Prop :=
  runIsColored (start + vorspann * page) (size / page - vorspann) colors mask = true

theorem farbigerStart_faerbbar {zoneEnd size align vorspann colors : Nat} {mask : ColorMask}
    {tries start s : Nat}
    (h : farbigerStart zoneEnd size align vorspann (size / page - vorspann) colors mask tries
      start = some s) :
    Faerbbar s size vorspann colors mask ∧ ∃ t, s = start + t * max align page := by
  fun_induction farbigerStart zoneEnd size align vorspann (size / page - vorspann) colors mask
    tries start with
  | case1 => cases h
  | case2 tries start htries hfit hcol =>
    obtain rfl : start = s := by simpa using h
    exact ⟨hcol, 0, by simp⟩
  | case3 tries start htries hfit hcol hnext ih =>
    obtain ⟨hrun, t, rfl⟩ := ih h
    refine ⟨hrun, t + 1, ?_⟩
    rw [Nat.succ_mul]
    omega
  | case4 => cases h
  | case5 => cases h

def FarbStart (size align vorspann colors : Nat) (mask : ColorMask) (start : Nat) : Prop :=
  Faerbbar start size vorspann colors mask ∧
    ∃ value t, start = alignUp value align + t * max align page

theorem carve_eq_some {a : PhysAllocator} {i start size : Nat} {cap : MemoryCap}
    (h : (a.carve i start size).1 = some cap) : cap = ⟨⟨start, size⟩, Rights.rw⟩ := by
  unfold carve at h
  cases hr : a.regions[i]? with
  | none =>
    rw [hr] at h
    cases h
  | some r =>
    rw [hr] at h
    exact (Option.some.inj h).symm

theorem allocColoredVorspannIn_start {a : PhysAllocator}
    {vorspann size align colors lo hi : Nat} {mask : ColorMask} {cap : MemoryCap}
    (hcolors : 1 < colors) (hmask : mask ≠ ColorMask.all)
    (h : (a.allocColoredVorspannIn vorspann size align colors mask lo hi).1 = some cap) :
    cap.region.len = alignUp (max size 1) page ∧
      FarbStart cap.region.len (max align page) vorspann colors mask cap.region.base := by
  have hplain : ¬ (colors ≤ 1 ∨ mask = ColorMask.all) := by
    rintro (hle | heq)
    · omega
    · exact hmask heq
  unfold allocColoredVorspannIn at h
  by_cases hempty : mask.isEmpty = true
  · rw [if_pos hempty] at h
    cases h
  rw [if_neg hempty, if_neg hplain] at h
  dsimp only at h
  split at h
  · cases h
  split at h
  · cases h
  split at h
  · cases h
  · next i start hbest =>
    obtain ⟨r, -, -, hs, -⟩ := foldl_bestFarbigIn_spec hbest
    obtain ⟨hrun, t, ht⟩ := farbigerStart_faerbbar hs
    obtain rfl := carve_eq_some h
    exact ⟨rfl, hrun, _, t, ht⟩

end PhysAllocator

def PhysRegion.seiten (r : PhysRegion) : Set Nat := {p | ∃ k, k < r.len / page ∧ p = r.base + k * page}

theorem stripe_ne_all {i i' n colors : Nat} {mask mask' : ColorMask}
    (h : stripe i n colors = some mask) (h' : stripe i' n colors = some mask') (hne : i ≠ i') :
    mask ≠ ColorMask.all := by
  rintro rfl
  obtain ⟨-, ⟨j, m, k, hauf⟩, -⟩ := stripe_eq_some_iff.mp h'
  have hi' := (stripe_eq_some_iff.mp h').1
  have hc : mask'.contains (i' * anteil n colors) = true := by
    rw [contains_stripe h']
    have hsucc := hauf.succ_mul_le hi'
    have hpos := hauf.anteil_pos
    have hmul : (i' + 1) * anteil n colors = i' * anteil n colors + anteil n colors :=
      Nat.succ_mul _ _
    rw [Nat.mod_eq_of_lt (by omega), Nat.mul_div_cancel _ hpos]
    exact decide_eq_true rfl
  have hcon := stripe_disjoint h h' hne (ColorMask.contains_all (i' * anteil n colors))
  rw [hc] at hcon
  cases hcon

theorem one_lt_colors {i i' n colors : Nat} {mask mask' : ColorMask}
    (h : stripe i n colors = some mask) (h' : stripe i' n colors = some mask') (hne : i ≠ i') :
    1 < colors := by
  obtain ⟨hi, ⟨j, m, k, hauf⟩, -⟩ := stripe_eq_some_iff.mp h
  have hi' := (stripe_eq_some_iff.mp h').1
  have hdvd := Nat.le_of_dvd (hauf.colors_eq ▸ Nat.two_pow_pos k) hauf.live_dvd_colors
  have hmul := hauf.mul_anteil
  have hle : n ≤ n * anteil n colors := Nat.le_mul_of_pos_right n hauf.anteil_pos
  omega

theorem contains_of_seiten {a : PhysAllocator} {size align colors p : Nat} {mask : ColorMask}
    {cap : MemoryCap} (hcolors : 1 < colors) (hmask : mask ≠ ColorMask.all)
    (h : (a.allocColored size align colors mask).1 = some cap) (hp : p ∈ cap.region.seiten) :
    mask.contains (colorOf p colors) = true := by
  obtain ⟨-, hstart, -⟩ := PhysAllocator.allocColoredVorspannIn_start hcolors hmask h
  obtain ⟨k, hk, rfl⟩ := hp
  have hall := PhysAllocator.farbig_of_runIsColored hstart k (Nat.zero_le k) hk
  exact hall

theorem page_dvd_base {a : PhysAllocator} {size align colors k : Nat} {mask : ColorMask}
    {cap : MemoryCap} (hcolors : 1 < colors) (hmask : mask ≠ ColorMask.all)
    (halign : align = 2 ^ k) (hk : k ≤ 63)
    (h : (a.allocColored size align colors mask).1 = some cap) :
    page ∣ cap.region.base ∧ page ∣ cap.region.len := by
  obtain ⟨hlen, -, value, t, hbase⟩ := PhysAllocator.allocColoredVorspannIn_start hcolors hmask h
  obtain ⟨m, hm, hmax⟩ := PhysAllocator.max_page_eq_pow halign hk
  have hpage : page = 2 ^ 12 := by decide
  have hdvd : page ∣ max align page := by
    have hle : page ≤ max align page := Nat.le_max_right _ _
    rw [hmax, hpage] at hle ⊢
    exact Nat.pow_dvd_pow 2 ((Nat.pow_le_pow_iff_right (by decide)).mp hle)
  constructor
  · rw [hbase, Nat.max_eq_left (Nat.le_max_right align page)]
    refine Nat.dvd_add ?_ (Nat.dvd_mul_left_of_dvd hdvd t)
    rw [hmax] at hdvd ⊢
    exact hdvd.trans (PhysAllocator.dvd_alignUp_wrap value hm)
  · rw [hlen, hpage]
    exact PhysAllocator.dvd_alignUp_wrap _ (by decide)

theorem exists_seite {r : PhysRegion} (hbase : page ∣ r.base) (hlen : page ∣ r.len) {x : Nat}
    (hx : x ∈ r.addrs) : ∃ p ∈ r.seiten, x / page = p / page := by
  obtain ⟨b, hb⟩ := hbase
  obtain ⟨l, hl⟩ := hlen
  have hpage : page = 4096 := rfl
  simp only [PhysRegion.mem_addrs] at hx
  rw [hpage] at hb hl
  refine ⟨r.base + (x / page - b) * page, ⟨x / page - b, ?_, rfl⟩, ?_⟩
  · rw [hpage]
    omega
  · rw [hpage]
    omega

theorem colorOf_congr {x y colors : Nat} (h : x / page = y / page) :
    colorOf x colors = colorOf y colors := by
  unfold colorOf
  rw [h]

/-- Regions returned under two stripes of one cut share no colour: not in their pages,
whatever the alignments, and with powers of two as alignments not in any address.  The
stripes of a cut divide the colours evenly. -/
theorem stripe_isolation {n colors : Nat} :
    (∀ i j mask mask', stripe i n colors = some mask → stripe j n colors = some mask' → i ≠ j →
      ∀ (a a' : PhysAllocator) (size size' align align' : Nat) (cap cap' : MemoryCap),
        (a.allocColored size align colors mask).1 = some cap →
        (a'.allocColored size' align' colors mask').1 = some cap' →
          (∀ p ∈ cap.region.seiten, ∀ q ∈ cap'.region.seiten, colorOf p colors ≠ colorOf q colors) ∧
          (∀ k k', k ≤ 63 → k' ≤ 63 → align = 2 ^ k → align' = 2 ^ k' →
            ∀ x ∈ cap.region.addrs, ∀ y ∈ cap'.region.addrs,
              colorOf x colors ≠ colorOf y colors)) ∧
      ((∃ i mask, stripe i n colors = some mask) →
        (∀ c, c < colors → ∃! i, i < n ∧ ∃ mask, stripe i n colors = some mask ∧
          mask.contains c = true) ∧
        ∀ i, i < n → ∃ mask, stripe i n colors = some mask ∧
          ((Finset.range colors).filter fun c => mask.contains c = true).card = colors / n) := by
  constructor
  · intro i j mask mask' hi hj hij a a' size size' align align' cap cap' hcap hcap'
    have hcolors := one_lt_colors hi hj hij
    have hmask := stripe_ne_all hi hj hij
    have hmask' := stripe_ne_all hj hi (Ne.symm hij)
    have hseiten : ∀ p ∈ cap.region.seiten, ∀ q ∈ cap'.region.seiten,
        colorOf p colors ≠ colorOf q colors := by
      intro p hp q hq heq
      have hin := contains_of_seiten hcolors hmask hcap hp
      have hin' := contains_of_seiten hcolors hmask' hcap' hq
      rw [← heq, stripe_disjoint hi hj hij hin] at hin'
      cases hin'
    refine ⟨hseiten, fun k k' hk hk' halign halign' x hx y hy => ?_⟩
    obtain ⟨hbase, hlen⟩ := page_dvd_base hcolors hmask halign hk hcap
    obtain ⟨hbase', hlen'⟩ := page_dvd_base hcolors hmask' halign' hk' hcap'
    obtain ⟨p, hp, hpx⟩ := exists_seite hbase hlen hx
    obtain ⟨q, hq, hqy⟩ := exists_seite hbase' hlen' hy
    rw [colorOf_congr hpx, colorOf_congr hqy]
    exact hseiten p hp q hq
  · rintro ⟨i, mask, hi⟩
    refine ⟨fun c _ => stripe_unique hi c, fun i' hi' => ?_⟩
    obtain ⟨mask', hmask'⟩ := stripe_exists hi hi'
    exact ⟨mask', hmask', card_stripe hmask'⟩

/-- Sixteen colours, four stripes, a megabyte of free memory. -/
theorem stripe_isolation_sixteen : ∃ mask mask' cap cap',
    stripe 0 4 16 = some mask ∧ stripe 1 4 16 = some mask' ∧
      ((⟨[⟨0, 1048576⟩]⟩ : PhysAllocator).allocColored 16384 4096 16 mask).1 = some cap ∧
      ((⟨[⟨0, 1048576⟩]⟩ : PhysAllocator).allocColored 8192 4096 16 mask').1 = some cap' ∧
      ∀ p ∈ cap.region.seiten, ∀ q ∈ cap'.region.seiten, colorOf p 16 ≠ colorOf q 16 := by
  have hi : stripe 0 4 16 = some ⟨0x000F000F000F000F⟩ := by decide
  have hj : stripe 1 4 16 = some ⟨0x00F000F000F000F0⟩ := by decide
  have hcap : ((⟨[⟨0, 1048576⟩]⟩ : PhysAllocator).allocColored 16384 4096 16
      ⟨0x000F000F000F000F⟩).1 = some ⟨⟨0, 16384⟩, Rights.rw⟩ := by decide +kernel
  have hcap' : ((⟨[⟨0, 1048576⟩]⟩ : PhysAllocator).allocColored 8192 4096 16
      ⟨0x00F000F000F000F0⟩).1 = some ⟨⟨16384, 8192⟩, Rights.rw⟩ := by decide +kernel
  exact ⟨_, _, _, _, hi, hj, hcap, hcap', (stripe_isolation.1 0 1 _ _ hi
    hj (by decide) _ _ _ _ _ _ _ _ hcap hcap').1⟩

end Caprock.Mem
