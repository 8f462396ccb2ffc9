import Caprock.Region.Heap

/-! # Kmalloc

The allocation interface of Linux over the heap of a program.  A block that comes back is parked
in a store of the module under the size and alignment it was granted for; the heap never sees it
again.  A request is served from the store if it can be, and an atomic one from nowhere else.
-/

namespace Caprock.Region

open Mem Memory Word

def archKmallocMinalign : Nat := 16
def klassen : List Nat := [16, 32, 64, 128, 256, 512, 1024, 2048]
def maxKmalloc : Nat := 2 ^ 20
def vorratPlaetze : Nat := 64
def maxAusr : Nat := page

/-- The context of a request; other bits are ignored. -/
structure Gfp where
  bits : UInt32
  deriving DecidableEq

namespace Gfp

def kernel : Gfp := ⟨0b01⟩
def atomic : Gfp := ⟨0b10⟩

def istAtomar (gfp : Gfp) : Bool := gfp.bits &&& atomic.bits != 0

end Gfp

inductive KmallocFehler where
  | zuGross
  | atomarWaechstNicht
  deriving DecidableEq

def aufrunden (wert vielfaches : Nat) : Option Nat :=
  if vielfaches = 0 ∨ isPowerOfTwo vielfaches = false then none
  else
    (checkedAdd wert (vielfaches - 1)).map fun summe => summe &&& (2 ^ 64 - 1 - (vielfaches - 1))

/-- The key of a request: the usable size and the alignment that it is promised. -/
structure Bedarf where
  nutz : Nat
  ausr : Nat
  deriving DecidableEq

def bedarfFuer (len ausr : Nat) : Option Bedarf :=
  if len = 0 ∨ maxKmalloc < len then none
  else if isPowerOfTwo ausr = false ∨ ausr < archKmallocMinalign ∨ maxAusr < ausr then none
  else
    let wirksam := if ausr < len then len else ausr
    match klassen.find? fun klasse => decide (wirksam ≤ klasse) with
    | some klasse => some ⟨klasse, ausr⟩
    | none => (aufrunden len archKmallocMinalign).map fun nutz => ⟨nutz, ausr⟩

/-- The usable size of a block that was requested with `len`; 0 if there is none. -/
def ksize (len : Nat) : Nat :=
  match bedarfFuer len archKmallocMinalign with
  | some bedarf => bedarf.nutz
  | none => 0

/-- A parked block and its key. -/
structure Eintrag where
  zeiger : Nat
  nutz : Nat
  ausr : Nat
  deriving DecidableEq

structure Vorrat where
  plaetze : List (Option Eintrag)
  wiederverwendet : Nat
  verworfen : Nat

namespace Vorrat

def leer : Vorrat := ⟨List.replicate vorratPlaetze none, 0, 0⟩

def geparkt (v : Vorrat) : List Eintrag := v.plaetze.reduceOption

/-- The second pass of `entnehmen`: the place of the smallest block that suffices. -/
def besterPlatz (v : Vorrat) (bedarf : Bedarf) : Option Nat :=
  (v.plaetze.zipIdx.foldl (fun (best : Option Nat × Nat) p =>
    match p.1 with
    | some e =>
        if bedarf.nutz ≤ e.nutz ∧ bedarf.ausr ≤ e.ausr ∧ e.nutz < best.2 then (some p.2, e.nutz)
        else best
    | none => best) (none, 2 ^ 64 - 1)).1

def leeren (v : Vorrat) (i : Nat) : Option Nat × Vorrat :=
  match v.plaetze[i]? with
  | some (some e) => (some e.zeiger, { v with plaetze := v.plaetze.set i none })
  -- Both passes found an entry at the place.
  | _ => (none, v)

def entnehmen (v : Vorrat) (bedarf : Bedarf) : Option Nat × Vorrat :=
  match v.plaetze.findIdx? fun p => p.any fun e =>
      e.nutz == bedarf.nutz && decide (bedarf.ausr ≤ e.ausr) with
  | some i => v.leeren i
  | none =>
      match v.besterPlatz bedarf with
      | some k => v.leeren k
      | none => (none, v)

/-- `false` if the store is full. -/
def parken (v : Vorrat) (eintrag : Eintrag) : Bool × Vorrat :=
  match v.plaetze.findIdx? Option.isNone with
  | some i => (true, { v with plaetze := v.plaetze.set i (some eintrag) })
  | none => (false, v)

/-- `wiederverwendet.saturating_add(1)`. -/
def bedient (v : Vorrat) : Vorrat :=
  { v with wiederverwendet := min (v.wiederverwendet + 1) (2 ^ 64 - 1) }

def verwerfen (v : Vorrat) : Vorrat := { v with verworfen := min (v.verworfen + 1) (2 ^ 64 - 1) }

end Vorrat

def Layout.fromSizeAlign (size align : Nat) : Option Layout :=
  if h : isPowerOfTwo align = true ∧ size + (align - 1) < 2 ^ 63 then
    some ⟨size, align, isPowerOfTwo_iff.mp h.1, h.2⟩
  else none

/-- What a request finds outside: the memory, and what the source answers to a length. -/
structure Umwelt where
  mem : Mem
  antwort : Nat → Option PhysRegion

structure Kmalloc where
  heap : Heap
  vorrat : Vorrat

namespace Kmalloc

def new : Kmalloc := ⟨Heap.new, Vorrat.leer⟩

/-- First the store, then the heap, which an atomic request never reaches. -/
def bedienen (k : Kmalloc) (bedarf : Bedarf) (gfp : Gfp) (welt : Umwelt) : Option Nat × Kmalloc :=
  match k.vorrat.entnehmen bedarf with
  | (some zeiger, v) => (some zeiger, { k with vorrat := v.bedient })
  | (none, v) =>
      let k := { k with vorrat := v }
      if gfp.istAtomar then (none, k)
      else
        match Layout.fromSizeAlign bedarf.nutz bedarf.ausr with
        | none => (none, k)
        | some plan =>
            let res := k.heap.allocate welt.mem plan (welt.antwort plan.minLen)
            (res.1.map Prod.fst, { k with heap := res.2 })

def kmallocErgebnis (k : Kmalloc) (len : Nat) (gfp : Gfp) (welt : Umwelt) :
    Except KmallocFehler Nat × Kmalloc :=
  match bedarfFuer len archKmallocMinalign with
  | none => (.error .zuGross, k)
  | some bedarf =>
      match k.bedienen bedarf gfp welt with
      | (some zeiger, k) => (.ok zeiger, k)
      | (none, k) => (.error (if gfp.istAtomar then .atomarWaechstNicht else .zuGross), k)

def kmalloc (k : Kmalloc) (len : Nat) (gfp : Gfp) (welt : Umwelt) : Option Nat × Kmalloc :=
  let res := k.kmallocErgebnis len gfp welt
  (res.1.toOption, res.2)

def kmallocAusgerichtet (k : Kmalloc) (len ausr : Nat) (gfp : Gfp) (welt : Umwelt) :
    Option Nat × Kmalloc :=
  match bedarfFuer len ausr with
  | none => (none, k)
  | some bedarf => k.bedienen bedarf gfp welt

def kfreeAusgerichtet (k : Kmalloc) (zeiger len ausr : Nat) : Kmalloc :=
  if zeiger = 0 then k
  else
    match bedarfFuer len ausr with
    | none => { k with vorrat := k.vorrat.verwerfen }
    | some bedarf =>
        match k.vorrat.parken ⟨zeiger, bedarf.nutz, bedarf.ausr⟩ with
        | (true, v) => { k with vorrat := v }
        | (false, v) => { k with vorrat := v.verwerfen }

def kfree (k : Kmalloc) (zeiger len : Nat) : Kmalloc :=
  k.kfreeAusgerichtet zeiger len archKmallocMinalign

def krealloc (k : Kmalloc) (alt altLen neuLen : Nat) (gfp : Gfp) (welt : Umwelt) :
    Option Nat × Kmalloc :=
  if alt = 0 then k.kmalloc neuLen gfp welt
  else if neuLen = 0 then (none, k.kfree alt altLen)
  else
    let altBedarf := bedarfFuer altLen archKmallocMinalign
    match bedarfFuer neuLen archKmallocMinalign with
    | none => (none, k)
    | some n =>
        if altBedarf = some n then (some alt, k)
        else
          match k.kmalloc neuLen gfp welt with
          | (none, k) => (none, k)
          | (some neu, k) => (some neu, k.kfree alt altLen)

end Kmalloc

theorem klasse_spec {n c : Nat} (h : (klassen.find? fun klasse => decide (n ≤ klasse)) = some c) :
    n ≤ c ∧ c ≤ 2048 ∧ ∀ klasse ∈ klassen, n ≤ klasse → c ≤ klasse := by
  obtain ⟨hle, vor, nach, heq, hvor⟩ := List.find?_eq_some_iff_append.mp h
  have hmax : ∀ klasse ∈ klassen, klasse ≤ 2048 := by decide
  have hsorted : klassen.Pairwise (· < ·) := by decide
  refine ⟨of_decide_eq_true hle, hmax c (List.mem_of_find?_eq_some h), ?_⟩
  intro klasse hk hn
  rw [heq] at hk hsorted
  obtain hk | hk := List.mem_append.mp hk
  · have hnot := hvor klasse hk
    simp [hn] at hnot
  obtain rfl | hk := List.mem_cons.mp hk
  · exact Nat.le_refl _
  · have htail := (List.pairwise_append.mp hsorted).2.1
    exact (List.rel_of_pairwise_cons htail hk).le

structure Bedienbar (len ausr : Nat) : Prop where
  len_pos : 0 < len
  len_le : len ≤ maxKmalloc
  pow : ∃ k, ausr = 2 ^ k
  minalign_le : archKmallocMinalign ≤ ausr
  ausr_le : ausr ≤ maxAusr

theorem Bedienbar.minalign {len ausr : Nat} (h : Bedienbar len ausr) :
    Bedienbar len archKmallocMinalign :=
  ⟨h.len_pos, h.len_le, ⟨4, rfl⟩, Nat.le_refl _, by decide⟩

theorem aufrunden_minalign {len : Nat} (h : len ≤ maxKmalloc) :
    aufrunden len archKmallocMinalign = some ((len + 15) / 16 * 16) := by
  unfold maxKmalloc at h
  have hsum : len + 15 < 2 ^ 64 := by omega
  have hadd : checkedAdd len 15 = some (len + 15) := checkedAdd_eq_some.mpr ⟨hsum, rfl⟩
  have hpow : ¬ (archKmallocMinalign = 0 ∨ isPowerOfTwo archKmallocMinalign = false) := by decide
  have hmask : (len + 15) &&& (2 ^ 64 - 2 ^ 4) = (len + 15) / 2 ^ 4 * 2 ^ 4 :=
    and_high_mask hsum (by decide)
  rw [aufrunden, if_neg hpow]
  show (checkedAdd len 15).map _ = _
  rw [hadd]
  exact congrArg some hmask

/-- The key of a request that can be served: its class, or the length in units of 16. -/
theorem bedarfFuer_eq {len ausr : Nat} (h : Bedienbar len ausr) :
    bedarfFuer len ausr =
      some ⟨(klassen.find? fun klasse => decide (max len ausr ≤ klasse)).getD
        ((len + 15) / 16 * 16), ausr⟩ := by
  have hpos := h.len_pos
  have hlen := h.len_le
  have hmin := h.minalign_le
  have hmax := h.ausr_le
  have hpow := isPowerOfTwo_iff.mpr h.pow
  have hwirksam : (if ausr < len then len else ausr) = max len ausr := by
    split <;> omega
  have hlenOk : ¬ (len = 0 ∨ maxKmalloc < len) := by omega
  have hausrOk : ¬ (isPowerOfTwo ausr = false ∨ ausr < archKmallocMinalign ∨ maxAusr < ausr) := by
    simp only [hpow, Bool.true_eq_false, false_or]
    omega
  unfold bedarfFuer
  rw [if_neg hlenOk, if_neg hausrOk, hwirksam, aufrunden_minalign hlen]
  dsimp only
  cases klassen.find? fun klasse => decide (max len ausr ≤ klasse) with
  | none | some c => rfl

variable {bedarf : Bedarf}

theorem bedienbar_of_bedarf {len ausr : Nat} (h : bedarfFuer len ausr = some bedarf) :
    Bedienbar len ausr := by
  unfold bedarfFuer at h
  by_cases hlen : len = 0 ∨ maxKmalloc < len
  · rw [if_pos hlen] at h
    cases h
  by_cases hausr : isPowerOfTwo ausr = false ∨ ausr < archKmallocMinalign ∨ maxAusr < ausr
  · rw [if_neg hlen, if_pos hausr] at h
    cases h
  push Not at hlen hausr
  obtain ⟨hpow, hmin, hmax⟩ := hausr
  exact ⟨by omega, hlen.2, isPowerOfTwo_iff.mp (Bool.eq_true_of_not_eq_false hpow), hmin, hmax⟩

theorem bedarf_ausr {len ausr : Nat} (h : bedarfFuer len ausr = some bedarf) :
    bedarf.ausr = ausr := by
  rw [bedarfFuer_eq (bedienbar_of_bedarf h)] at h
  cases h
  rfl

theorem bedarf_nutz {len ausr : Nat} (h : bedarfFuer len ausr = some bedarf) :
    (klassen.find? fun klasse => decide (max len ausr ≤ klasse)) = some bedarf.nutz ∨
      2048 < max len ausr ∧ bedarf.nutz = (len + 15) / 16 * 16 := by
  rw [bedarfFuer_eq (bedienbar_of_bedarf h)] at h
  cases hfind : klassen.find? fun klasse => decide (max len ausr ≤ klasse) with
  | some c =>
    rw [hfind] at h
    cases h
    exact .inl rfl
  | none =>
    rw [hfind] at h
    cases h
    have hlast := List.find?_eq_none.mp hfind 2048 (by decide)
    exact .inr ⟨not_le.mp (of_decide_eq_false (eq_false_of_ne_true hlast)), rfl⟩

theorem len_le_nutz {len ausr : Nat} (h : bedarfFuer len ausr = some bedarf) :
    len ≤ bedarf.nutz := by
  obtain hklasse | ⟨-, hnutz⟩ := bedarf_nutz h
  · have hle := (klasse_spec hklasse).1
    omega
  · omega

theorem nutz_le_of_pow {len ausr a : Nat} (h : bedarfFuer len ausr = some bedarf)
    (ha : Bedienbar len a) (hlen : len ≤ a) (hausr : ausr ≤ a) : bedarf.nutz ≤ a := by
  obtain ⟨k, rfl⟩ := ha.pow
  have hmin := ha.minalign_le
  have hmax := ha.ausr_le
  unfold archKmallocMinalign at hmin
  have hk : k < 13 := (Nat.pow_lt_pow_iff_right (show 1 < 2 by decide)).mp
    (Nat.lt_of_le_of_lt hmax (by decide))
  have hclass : ∀ i < 13, 16 ≤ 2 ^ i → 2 ^ i ∈ klassen ∨ 2 ^ i = 4096 := by decide
  obtain hklasse | ⟨hbig, hnutz⟩ := bedarf_nutz h
  · obtain ⟨-, hle, hleast⟩ := klasse_spec hklasse
    obtain hin | heq := hclass k hk hmin
    · exact hleast _ hin (by omega)
    · omega
  · have hklein : ∀ klasse ∈ klassen, klasse ≤ 2048 := by decide
    obtain hin | heq := hclass k hk hmin
    · have hle := hklein _ hin
      omega
    · omega

theorem ksize_eq {len : Nat} (h : bedarfFuer len archKmallocMinalign = some bedarf) :
    ksize len = bedarf.nutz := by
  rw [ksize, h]

theorem le_ksize {len ausr : Nat} (h : Bedienbar len ausr) : len ≤ ksize len := by
  have hkey := bedarfFuer_eq h.minalign
  rw [ksize_eq hkey]
  exact len_le_nutz hkey

theorem max_nutz_eq {len ausr : Nat} (h : bedarfFuer len ausr = some bedarf) :
    max bedarf.nutz ausr = max (ksize len) ausr := by
  have hok := bedienbar_of_bedarf h
  have hkey := bedarfFuer_eq hok.minalign
  have hmin := hok.minalign_le
  rw [ksize_eq hkey]
  by_cases hlen : len ≤ ausr
  · rw [max_eq_right (nutz_le_of_pow h hok hlen (Nat.le_refl _)),
      max_eq_right (nutz_le_of_pow hkey hok hlen hmin)]
  · -- The alignment does not raise the class.
    have hsame : max len ausr = max len archKmallocMinalign := by omega
    rw [bedarfFuer_eq hok, hsame] at h
    cases h
    rfl

theorem fromSizeAlign_eq_some {size align : Nat} {plan : Layout}
    (h : Layout.fromSizeAlign size align = some plan) : plan.size = size ∧ plan.align = align := by
  unfold Layout.fromSizeAlign at h
  split at h
  · cases h
    exact ⟨rfl, rfl⟩
  · cases h

namespace Vorrat

theorem besterPlatz_spec {v : Vorrat} {bedarf : Bedarf} {k : Nat}
    (h : v.besterPlatz bedarf = some k) :
    ∃ e, v.plaetze[k]? = some (some e) ∧ bedarf.nutz ≤ e.nutz ∧ bedarf.ausr ≤ e.ausr := by
  unfold besterPlatz at h
  revert k
  apply List.foldlRecOn (motive := fun best : Option Nat × Nat => ∀ {k}, best.1 = some k →
    ∃ e, v.plaetze[k]? = some (some e) ∧ bedarf.nutz ≤ e.nutz ∧ bedarf.ausr ≤ e.ausr)
  · intro k hk
    cases hk
  · intro best ih p hp k hk
    obtain ⟨platz, j⟩ := p
    have hj := List.mem_zipIdx_iff_getElem?.mp hp
    cases platz with
    | none => exact ih hk
    | some e =>
      by_cases hbesser : bedarf.nutz ≤ e.nutz ∧ bedarf.ausr ≤ e.ausr ∧ e.nutz < best.2
      · simp only [if_pos hbesser, Option.some.injEq] at hk
        subst hk
        exact ⟨e, hj, hbesser.1, hbesser.2.1⟩
      · simp only [if_neg hbesser] at hk
        exact ih hk

theorem leeren_spec {v : Vorrat} {i : Nat} {e : Eintrag} (h : v.plaetze[i]? = some (some e)) :
    v.leeren i = (some e.zeiger, { v with plaetze := v.plaetze.set i none }) ∧
      v.geparkt.Perm (e :: ({ v with plaetze := v.plaetze.set i none } : Vorrat).geparkt) := by
  refine ⟨?_, Slots.perm_clear h⟩
  rw [leeren, h]

/-- What is taken covers the request; otherwise the store stays as it is. -/
theorem entnehmen_cases (v : Vorrat) (bedarf : Bedarf) :
    v.entnehmen bedarf = (none, v) ∨
      ∃ e v', v.entnehmen bedarf = (some e.zeiger, v') ∧ v.geparkt.Perm (e :: v'.geparkt) ∧
        bedarf.nutz ≤ e.nutz ∧ bedarf.ausr ≤ e.ausr := by
  unfold entnehmen
  cases hexakt : v.plaetze.findIdx? fun p => p.any fun e =>
      e.nutz == bedarf.nutz && decide (bedarf.ausr ≤ e.ausr) with
  | some i =>
    obtain ⟨e, he, hp⟩ := Slots.found_of_findIdx? hexakt
    obtain ⟨hnutz, hausr⟩ := Bool.and_eq_true_iff.mp hp
    obtain ⟨heq, hperm⟩ := leeren_spec he
    exact .inr ⟨e, _, heq, hperm, (beq_iff_eq.mp hnutz).ge, of_decide_eq_true hausr⟩
  | none =>
    cases hbest : v.besterPlatz bedarf with
    | none => exact .inl rfl
    | some k =>
      obtain ⟨e, he, hnutz, hausr⟩ := besterPlatz_spec hbest
      obtain ⟨heq, hperm⟩ := leeren_spec he
      exact .inr ⟨e, _, heq, hperm, hnutz, hausr⟩

theorem parken_cases (v : Vorrat) (e : Eintrag) :
    v.parken e = (false, v) ∨
      ∃ v', v.parken e = (true, v') ∧ v'.geparkt.Perm (e :: v.geparkt) := by
  unfold parken
  cases hfrei : v.plaetze.findIdx? Option.isNone with
  | none => exact .inl rfl
  | some i => exact .inr ⟨_, rfl, Slots.perm_fill (Slots.free_of_findIdx? hfrei)⟩

end Vorrat

end Caprock.Region
