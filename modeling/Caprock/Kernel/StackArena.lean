import Caprock.Lib.Bitmap
import Caprock.Lib.Ranges
import Caprock.Lib.Run
import Caprock.Lib.Word

/-! # The stack arena

Kernel stacks lie side by side in one range.  A slot is a guard page with the stack above it; a
bitmap, which belongs to the caller, has one bit for each slot.  An issue takes the lowest free
slot and answers with the base of its stack, a lock takes a slot out without an answer.

Numbers are `usize`: sums wrap, as in a release build.
-/

namespace Caprock.Kernel

open Word Ranges Execution

def seite : Nat := 4096

inductive ArenaFehler where
  | erschoepft
  | ungueltig
  | unausgerichtet
  | geometrie
  deriving DecidableEq, Repr

def woerter (plaetze : Nat) : Nat := wadd plaetze 63 / 64

structure StackArena where
  basis : Nat
  stapel : Nat
  schritt : Nat
  plaetze : Nat
  bits : List (BitVec 64)
  vergebenAnzahl : Nat
  hoechststand : Nat
  abgewiesenErschoepft : Nat
  abgewiesenUngueltig : Nat
  platz : woerter plaetze ≤ bits.length

namespace StackArena

def neu (basis stapel plaetze : Nat) (bits : List (BitVec 64)) : Except ArenaFehler StackArena :=
  if basis % seite ≠ 0 then .error .unausgerichtet
  else if stapel = 0 ∨ stapel % seite ≠ 0 ∨ plaetze = 0 then .error .geometrie
  else if h : bits.length < woerter plaetze then .error .geometrie
  else .ok ⟨basis, stapel, wadd seite stapel, plaetze, List.replicate bits.length 0#64, 0, 0, 0, 0, by
    rw [List.length_replicate]
    omega⟩

def wacheVonSlot (a : StackArena) (slot : Nat) : Option Nat :=
  if a.plaetze ≤ slot then none else some ((a.basis + slot * a.schritt) % 2 ^ 64)

def stapelbasisVonSlot (a : StackArena) (slot : Nat) : Option Nat :=
  (a.wacheVonSlot slot).map fun wache => wadd wache seite

def slotVonStapelbasis (a : StackArena) (stapelbasis : Nat) : Option Nat :=
  if stapelbasis % seite ≠ 0 then none
  else if stapelbasis < a.basis then none
  else
    let relativ := stapelbasis - a.basis
    if a.plaetze ≤ relativ / a.schritt ∨ relativ % a.schritt ≠ seite then none
    else some (relativ / a.schritt)

/-- The bits of a word that an issue may take.  Only in the last word of the bitmap are the bits
beyond the slots masked. -/
def maske (plaetze worte wi : Nat) (wort : BitVec 64) : BitVec 64 :=
  if wi = worte - 1 ∧ plaetze % 64 ≠ 0 then ~~~wort &&& ((1#64 <<< (plaetze % 64)) - 1#64)
  else ~~~wort

def freierPlatz (plaetze worte : Nat) : Nat → List (BitVec 64) → Option Nat
  | _, [] => none
  | wi, wort :: bits =>
      if maske plaetze worte wi wort = 0#64 then freierPlatz plaetze worte (wi + 1) bits
      else some (wi * 64 + (maske plaetze worte wi wort).ctz.toNat)

def belegen (a : StackArena) (slot : Nat) : StackArena :=
  let n := wadd a.vergebenAnzahl 1
  { a with
    bits := Bitmap.set a.bits slot
    vergebenAnzahl := n
    hoechststand := if a.hoechststand < n then n else a.hoechststand
    platz := by rw [Bitmap.length_set]; exact a.platz }

def leeren (a : StackArena) (slot : Nat) : StackArena :=
  { a with
    bits := Bitmap.clear a.bits slot
    vergebenAnzahl := wsub a.vergebenAnzahl 1
    platz := by rw [Bitmap.length_clear]; exact a.platz }

def vergeben (a : StackArena) : Except ArenaFehler Nat × StackArena :=
  match freierPlatz a.plaetze a.bits.length 0 a.bits with
  | none => (.error .erschoepft, { a with abgewiesenErschoepft := wadd a.abgewiesenErschoepft 1 })
  | some slot => (.ok ((a.basis + slot * a.schritt + seite) % 2 ^ 64), a.belegen slot)

def abgewiesen (a : StackArena) : StackArena :=
  { a with abgewiesenUngueltig := wadd a.abgewiesenUngueltig 1 }

def freigeben (a : StackArena) (stapelbasis : Nat) : Except ArenaFehler Unit × StackArena :=
  match a.slotVonStapelbasis stapelbasis with
  | none => (.error .ungueltig, a.abgewiesen)
  | some slot =>
      if Bitmap.bit a.bits slot = false then (.error .ungueltig, a.abgewiesen)
      else (.ok (), a.leeren slot)

def sperren (a : StackArena) (slot : Nat) : Bool × StackArena :=
  if a.plaetze ≤ slot then (false, a)
  else if Bitmap.bit a.bits slot = true then (false, a)
  else (true, a.belegen slot)

end StackArena

/-- The arena with what was issued and not given back, and what was locked. -/
structure Stapel where
  arena : StackArena
  lebend : List Nat
  gesperrt : List Nat

inductive Stapelvorgang where
  | vergeben
  | freigeben (stapelbasis : Nat)
  | sperren (slot : Nat)
  deriving DecidableEq, Repr

namespace Stapel

def start (a : StackArena) : Stapel := ⟨a, [], []⟩

def step (L : Stapel) : Stapelvorgang → Option Stapel
  | .vergeben =>
      match L.arena.vergeben with
      | (.ok stapelbasis, arena) => some { L with arena := arena, lebend := stapelbasis :: L.lebend }
      | (.error _, arena) => some { L with arena := arena }
  | .freigeben stapelbasis =>
      match L.arena.freigeben stapelbasis with
      | (.ok _, arena) => some { L with arena := arena, lebend := L.lebend.erase stapelbasis }
      | (.error _, arena) => some { L with arena := arena }
  | .sperren slot =>
      match L.arena.sperren slot with
      | (true, arena) => some { L with arena := arena, gesperrt := slot :: L.gesperrt }
      | (false, arena) => some { L with arena := arena }

def bereich (L : Stapel) (stapelbasis : Nat) : Range := (stapelbasis - seite, seite + L.arena.stapel)

/-- The live stacks lie in the arena, apart from each other, and the count is right. -/
structure Getrennt (L : Stapel) : Prop where
  disjunkt : Apart (L.lebend.map L.bereich)
  innen : ∀ x ∈ L.lebend, L.arena.basis + seite ≤ x ∧
    x + L.arena.stapel ≤ L.arena.basis + L.arena.plaetze * (seite + L.arena.stapel)
  anzahl : L.arena.vergebenAnzahl = Bitmap.count L.arena.bits
  hoechstens : L.arena.vergebenAnzahl ≤ L.arena.plaetze

/-- An issue fails exactly if every slot is taken or locked; a return is accepted exactly if its
stack is live, and else changes neither the bitmap nor the count. -/
def Recht (L : Stapel) : Stapelvorgang → Prop
  | .vergeben => (∃ f, L.arena.vergeben.1 = .error f) ↔ ∀ slot < L.arena.plaetze,
      (∃ x ∈ L.lebend, L.arena.slotVonStapelbasis x = some slot) ∨ slot ∈ L.gesperrt
  | .freigeben x =>
      (x ∈ L.lebend → (L.arena.freigeben x).1 = .ok ()) ∧
      (x ∉ L.lebend → (L.arena.freigeben x).1 = .error .ungueltig ∧
        (L.arena.freigeben x).2.bits = L.arena.bits ∧
          (L.arena.freigeben x).2.vergebenAnzahl = L.arena.vergebenAnzahl)
  | .sperren _ => True

/-- A bitmap that is longer than needed meets no issue with all slots taken, and no locked slot is
given back. -/
def Bedingung (L : Stapel) : Stapelvorgang → Prop
  | .vergeben => L.arena.bits.length = woerter L.arena.plaetze ∨
      ∃ slot < L.arena.plaetze, Bitmap.bit L.arena.bits slot = false
  | .freigeben x => ∀ slot ∈ L.gesperrt, L.arena.stapelbasisVonSlot slot ≠ some x
  | .sperren _ => True

end Stapel

namespace StackArena

variable {a : StackArena} {p n wi i k slot : Nat} {wort : BitVec 64} {ws : List (BitVec 64)}

/-- What the masks leave of the bitmap. -/
def Zulaessig (p n i : Nat) : Prop := i / 64 = n - 1 → p % 64 ≠ 0 → i % 64 < p % 64

theorem getLsbD_maske (hk : k < 64) : (maske p n wi wort).getLsbD k = true ↔
    wort.getLsbD k = false ∧ Zulaessig p n (wi * 64 + k) := by
  have hdiv : (wi * 64 + k) / 64 = wi := by omega
  have hmod : (wi * 64 + k) % 64 = k := by omega
  have hrest : p % 64 < 64 := Nat.mod_lt _ (by decide)
  rw [Zulaessig, hdiv, hmod]
  unfold maske
  split
  · next h =>
    simp only [BitVec.getLsbD_and, BitVec.getLsbD_not, Bitmap.getLsbD_low_mask hrest, hk,
      decide_true, Bool.true_and, Bool.and_eq_true, Bool.not_eq_true', decide_eq_true_eq]
    exact and_congr_right fun _ => ⟨fun hlt _ _ => hlt, fun hz => hz h.1 h.2⟩
  · next h =>
    rw [not_and] at h
    simp only [BitVec.getLsbD_not, hk, decide_true, Bool.true_and, Bool.not_eq_true']
    exact ⟨fun hfree => ⟨hfree, fun hwi hp => absurd hp (h hwi)⟩, fun h => h.1⟩

theorem freierPlatz_eq_none : freierPlatz p n wi ws = none ↔
    ∀ k < 64 * ws.length, Zulaessig p n (wi * 64 + k) → Bitmap.bit ws k = true := by
  induction ws generalizing wi with
  | nil => simp [freierPlatz]
  | cons wort ws ih =>
    have hzero : maske p n wi wort = 0#64 ↔
        ∀ k < 64, Zulaessig p n (wi * 64 + k) → wort.getLsbD k = true := by
      constructor
      · intro h k hk hz
        have hclear : ¬ (maske p n wi wort).getLsbD k = true := by simp [h]
        rw [getLsbD_maske hk] at hclear
        by_contra hfree
        exact hclear ⟨Bool.eq_false_iff.mpr hfree, hz⟩
      · intro h
        apply BitVec.eq_of_getLsbD_eq
        intro k hk
        rw [BitVec.getLsbD_zero, Bool.eq_false_iff, ne_eq, getLsbD_maske hk]
        rintro ⟨hfree, hz⟩
        rw [h k hk hz] at hfree
        cases hfree
    unfold freierPlatz
    rw [List.length_cons]
    by_cases hm : maske p n wi wort = 0#64
    · rw [if_pos hm, ih]
      constructor
      · intro h k hk hz
        by_cases hlt : k < 64
        · rw [Bitmap.bit_cons_of_lt hlt]
          exact hzero.mp hm k hlt hz
        · obtain ⟨j, rfl⟩ := Nat.exists_eq_add_of_le (Nat.le_of_not_lt hlt)
          rw [Bitmap.bit_cons_add (by decide)]
          have heq : (wi + 1) * 64 + j = wi * 64 + (64 + j) := by omega
          exact h j (by omega) (heq ▸ hz)
      · intro h j hj hz
        have heq : (wi + 1) * 64 + j = wi * 64 + (64 + j) := by omega
        have hbit := h (64 + j) (by omega) (heq ▸ hz)
        rwa [Bitmap.bit_cons_add (by decide)] at hbit
    · rw [if_neg hm]
      refine iff_of_false (fun h => by cases h) fun h => hm (hzero.mpr fun k hk hz => ?_)
      have hbit := h k (by omega) hz
      rwa [Bitmap.bit_cons_of_lt hk] at hbit

theorem freierPlatz_eq_some (h : freierPlatz p n wi ws = some i) :
    ∃ k < 64 * ws.length, i = wi * 64 + k ∧ Zulaessig p n i ∧ Bitmap.bit ws k = false ∧
      ∀ j < k, Zulaessig p n (wi * 64 + j) → Bitmap.bit ws j = true := by
  induction ws generalizing wi with
  | nil => cases h
  | cons wort ws ih =>
    unfold freierPlatz at h
    rw [List.length_cons]
    by_cases hm : maske p n wi wort = 0#64
    · rw [if_pos hm] at h
      obtain ⟨k, hk, rfl, hz, hfree, hlow⟩ := ih h
      have heq : ∀ j, (wi + 1) * 64 + j = wi * 64 + (64 + j) := fun j => by omega
      refine ⟨64 + k, by omega, heq k, hz, ?_, fun j hj hzj => ?_⟩
      · rw [Bitmap.bit_cons_add (by decide)]
        exact hfree
      · by_cases hlt : j < 64
        · rw [Bitmap.bit_cons_of_lt hlt]
          have hclear : ¬ (maske p n wi wort).getLsbD j = true := by simp [hm]
          rw [getLsbD_maske hlt] at hclear
          by_contra hnot
          exact hclear ⟨Bool.eq_false_iff.mpr hnot, hzj⟩
        · obtain ⟨j, rfl⟩ := Nat.exists_eq_add_of_le (Nat.le_of_not_lt hlt)
          rw [Bitmap.bit_cons_add (by decide)]
          exact hlow j (by omega) (heq j ▸ hzj)
    · rw [if_neg hm, Option.some.injEq] at h
      have hbit := BitVec.getLsbD_true_ctz_of_ne_zero hm
      have hlt : (maske p n wi wort).ctz.toNat < 64 := BitVec.lt_of_getLsbD hbit
      rw [getLsbD_maske hlt] at hbit
      refine ⟨_, by omega, h.symm, h ▸ hbit.2, ?_, fun j hj hzj => ?_⟩
      · rw [Bitmap.bit_cons_of_lt hlt]
        exact hbit.1
      · have hj' : j < 64 := hj.trans hlt
        have hclear : ¬ (maske p n wi wort).getLsbD j = true := by
          simp [BitVec.getLsbD_false_of_lt_ctz hj]
        rw [getLsbD_maske hj'] at hclear
        rw [Bitmap.bit_cons_of_lt hj']
        by_contra hnot
        exact hclear ⟨Bool.eq_false_iff.mpr hnot, hzj⟩

/-- An arena that `neu` accepts, below the end of the address space. -/
structure Geometrie (a : StackArena) : Prop where
  basis : seite ∣ a.basis
  stapel : seite ∣ a.stapel
  pos : 0 < a.stapel
  schritt : a.schritt = seite + a.stapel
  plaetze : 0 < a.plaetze
  ende : a.basis + a.plaetze * a.schritt < 2 ^ 64

def ort (a : StackArena) (slot : Nat) : Nat := a.basis + slot * a.schritt + seite

namespace Geometrie

theorem ort_add_stapel_le (h : a.Geometrie) (hs : slot < a.plaetze) :
    a.ort slot + a.stapel ≤ a.basis + a.plaetze * a.schritt := by
  have hle : (slot + 1) * a.schritt ≤ a.plaetze * a.schritt := Nat.mul_le_mul_right _ hs
  have hschritt := h.schritt
  rw [Nat.add_mul, Nat.one_mul] at hle
  unfold ort
  omega

theorem ort_lt (h : a.Geometrie) (hs : slot < a.plaetze) : a.ort slot < 2 ^ 64 := by
  have hle := h.ort_add_stapel_le hs
  have hende := h.ende
  omega

theorem plaetze_lt (h : a.Geometrie) : a.plaetze + 63 < 2 ^ 64 := by
  have hende := h.ende
  have hle : a.plaetze * seite ≤ a.plaetze * a.schritt :=
    Nat.mul_le_mul_left _ (by rw [h.schritt]; omega)
  have hpos := h.plaetze
  unfold seite at hle
  omega

theorem woerter_eq (h : a.Geometrie) : woerter a.plaetze = (a.plaetze + 63) / 64 := by
  rw [woerter, wadd_eq h.plaetze_lt]

theorem lt_bits (h : a.Geometrie) (hs : slot < a.plaetze) : slot < 64 * a.bits.length := by
  have hplatz := a.platz
  rw [h.woerter_eq] at hplatz
  omega

theorem ort_injective (h : a.Geometrie) {i j : Nat} (heq : a.ort i = a.ort j) : i = j := by
  have hpos : 0 < a.schritt := by
    rw [h.schritt]
    exact Nat.add_pos_left (by decide) _
  unfold ort at heq
  exact Nat.eq_of_mul_eq_mul_right hpos (by omega)

theorem slotVonStapelbasis_eq_some (h : a.Geometrie) {x : Nat} :
    a.slotVonStapelbasis x = some slot ↔ slot < a.plaetze ∧ x = a.ort slot := by
  have hschritt := h.schritt
  have hpos := h.pos
  have hseite : 0 < seite := by decide
  unfold slotVonStapelbasis
  constructor
  · intro hx
    split at hx
    · cases hx
    · split at hx
      · cases hx
      · next hlow =>
        dsimp only at hx
        split at hx
        · cases hx
        · next hslot =>
          rw [not_or, Nat.not_le, not_not] at hslot
          cases hx
          refine ⟨hslot.1, ?_⟩
          have hdiv := Nat.div_add_mod' (x - a.basis) a.schritt
          unfold ort
          omega
  · rintro ⟨hs, rfl⟩
    have hganz : a.ort slot % seite = 0 := by
      apply Nat.mod_eq_zero_of_dvd
      have hd : seite ∣ a.schritt := hschritt ▸ Nat.dvd_add (Nat.dvd_refl _) h.stapel
      exact Nat.dvd_add (Nat.dvd_add h.basis (Dvd.dvd.mul_left hd slot)) (Nat.dvd_refl _)
    have hlow : ¬ a.ort slot < a.basis := by
      unfold ort
      omega
    have hrel : a.ort slot - a.basis = seite + a.schritt * slot := by
      rw [Nat.mul_comm]
      unfold ort
      omega
    have hdiv : (a.ort slot - a.basis) / a.schritt = slot := by
      rw [hrel, Nat.add_mul_div_left _ _ (by omega), Nat.div_eq_of_lt (by omega), Nat.zero_add]
    have hmod : (a.ort slot - a.basis) % a.schritt = seite := by
      rw [hrel, Nat.add_mul_mod_self_left, Nat.mod_eq_of_lt (by omega)]
    simp only [hganz, ne_eq, not_true_eq_false, if_false, if_neg hlow, hdiv, hmod, Nat.not_le.mpr hs,
      or_false]

theorem stapelbasisVonSlot_eq (h : a.Geometrie) (hs : slot < a.plaetze) :
    a.stapelbasisVonSlot slot = some (a.ort slot) := by
  have hlt := h.ort_lt hs
  unfold ort at hlt
  have hwache : (a.basis + slot * a.schritt) % 2 ^ 64 = a.basis + slot * a.schritt :=
    Nat.mod_eq_of_lt (by omega)
  simp only [stapelbasisVonSlot, wacheVonSlot, if_neg (Nat.not_le.mpr hs), Option.map_some, hwache,
    wadd_eq hlt]
  rfl

theorem belegen (h : a.Geometrie) (slot : Nat) : (a.belegen slot).Geometrie :=
  ⟨h.basis, h.stapel, h.pos, h.schritt, h.plaetze, h.ende⟩

theorem leeren (h : a.Geometrie) (slot : Nat) : (a.leeren slot).Geometrie :=
  ⟨h.basis, h.stapel, h.pos, h.schritt, h.plaetze, h.ende⟩

end Geometrie

theorem neu_eq_ok {basis stapel plaetze : Nat} {bits : List (BitVec 64)}
    (h : neu basis stapel plaetze bits = .ok a)
    (hende : basis + plaetze * (seite + stapel) < 2 ^ 64) :
    a.Geometrie ∧ a.bits = List.replicate bits.length 0#64 ∧ a.vergebenAnzahl = 0 := by
  unfold neu at h
  split at h
  · cases h
  · next hbasis =>
    split at h
    · cases h
    · next hstapel =>
      split at h
      · cases h
      · rw [not_or, not_or, not_not] at hstapel
        obtain ⟨hpos, hganz, hplaetze⟩ := hstapel
        have hle : 1 * (seite + stapel) ≤ plaetze * (seite + stapel) :=
          Nat.mul_le_mul_right _ (Nat.pos_of_ne_zero hplaetze)
        have hschritt : wadd seite stapel = seite + stapel := wadd_eq (by omega)
        cases h
        refine ⟨⟨Nat.dvd_of_mod_eq_zero (not_not.mp hbasis), Nat.dvd_of_mod_eq_zero hganz,
          Nat.pos_of_ne_zero hpos, hschritt, Nat.pos_of_ne_zero hplaetze, ?_⟩, rfl, rfl⟩
        rw [hschritt]
        exact hende

theorem freigeben_of_bit {x : Nat} (hslot : a.slotVonStapelbasis x = some slot)
    (hbit : Bitmap.bit a.bits slot = true) : a.freigeben x = (.ok (), a.leeren slot) := by
  simp only [freigeben, hslot, hbit, Bool.true_eq_false, if_false]

structure Gebucht (a : StackArena) (slots gesperrt : List Nat) : Prop where
  geometrie : a.Geometrie
  nodup : slots.Nodup
  innen : ∀ s ∈ slots, s < a.plaetze
  sperre : ∀ s ∈ gesperrt, s < a.plaetze ∧ s ∉ slots
  bits : ∀ i, Bitmap.bit a.bits i = true ↔ i ∈ slots ∨ i ∈ gesperrt
  anzahl : a.vergebenAnzahl = Bitmap.count a.bits

namespace Gebucht

variable {slots gesperrt : List Nat}

theorem lt_plaetze (h : a.Gebucht slots gesperrt) (hi : Bitmap.bit a.bits i = true) :
    i < a.plaetze := by
  rcases (h.bits i).mp hi with hs | hg
  · exact h.innen i hs
  · exact (h.sperre i hg).1

theorem belegen_anzahl (h : a.Gebucht slots gesperrt) (hs : slot < a.plaetze)
    (hfrei : Bitmap.bit a.bits slot = false) :
    (a.belegen slot).vergebenAnzahl = Bitmap.count (a.belegen slot).bits := by
  have hlt := Bitmap.count_lt (fun i hi => h.lt_plaetze hi) hs hfrei
  have hword := h.geometrie.plaetze_lt
  have hsum : a.vergebenAnzahl + 1 < 2 ^ 64 := by
    rw [h.anzahl]
    omega
  have hcount := Bitmap.count_set (h.geometrie.lt_bits hs) hfrei
  dsimp only [belegen]
  rw [wadd_eq hsum, hcount, h.anzahl]

theorem vergeben (h : a.Gebucht slots gesperrt) (hs : slot < a.plaetze)
    (hfrei : Bitmap.bit a.bits slot = false) : (a.belegen slot).Gebucht (slot :: slots) gesperrt := by
  have hneu : slot ∉ slots ∧ slot ∉ gesperrt := by
    rw [← not_or, ← h.bits slot, hfrei]
    simp
  refine ⟨h.geometrie.belegen slot, List.nodup_cons.mpr ⟨hneu.1, h.nodup⟩, ?_, ?_, ?_,
    h.belegen_anzahl hs hfrei⟩
  · intro s hmem
    rcases List.mem_cons.mp hmem with rfl | hmem
    · exact hs
    · exact h.innen s hmem
  · intro s hmem
    refine ⟨(h.sperre s hmem).1, fun hin => ?_⟩
    rcases List.mem_cons.mp hin with rfl | hin
    · exact hneu.2 hmem
    · exact (h.sperre s hmem).2 hin
  · intro i
    dsimp only [StackArena.belegen]
    rw [Bitmap.bit_set (h.geometrie.lt_bits hs), Bool.or_eq_true, decide_eq_true_eq, h.bits i,
      List.mem_cons, or_assoc]

theorem sperren (h : a.Gebucht slots gesperrt) (hs : slot < a.plaetze)
    (hfrei : Bitmap.bit a.bits slot = false) : (a.belegen slot).Gebucht slots (slot :: gesperrt) := by
  have hneu : slot ∉ slots ∧ slot ∉ gesperrt := by
    rw [← not_or, ← h.bits slot, hfrei]
    simp
  refine ⟨h.geometrie.belegen slot, h.nodup, h.innen, ?_, ?_, h.belegen_anzahl hs hfrei⟩
  · intro s hmem
    rcases List.mem_cons.mp hmem with rfl | hmem
    · exact ⟨hs, hneu.1⟩
    · exact h.sperre s hmem
  · intro i
    dsimp only [StackArena.belegen]
    rw [Bitmap.bit_set (h.geometrie.lt_bits hs), Bool.or_eq_true, decide_eq_true_eq, h.bits i,
      List.mem_cons, or_left_comm]

theorem leeren_anzahl (h : a.Gebucht slots gesperrt) (hbit : Bitmap.bit a.bits slot = true) :
    (a.leeren slot).vergebenAnzahl = Bitmap.count (a.leeren slot).bits := by
  have hcount := Bitmap.count_clear hbit
  have hle := Bitmap.count_le fun i hi => h.lt_plaetze (i := i) hi
  have hword := h.geometrie.plaetze_lt
  have hanzahl := h.anzahl
  have hhi : a.vergebenAnzahl < 2 ^ 64 := by omega
  have hlo : 1 ≤ a.vergebenAnzahl := by omega
  dsimp only [leeren]
  rw [wsub_eq hhi hlo]
  omega

/-- The return of a live stack. -/
theorem freigeben (h : a.Gebucht slots gesperrt) (hs : slot ∈ slots) :
    a.freigeben (a.ort slot) = (.ok (), a.leeren slot) ∧
      (a.leeren slot).Gebucht (slots.erase slot) gesperrt := by
  have hlt := h.innen slot hs
  have hslot : a.slotVonStapelbasis (a.ort slot) = some slot :=
    h.geometrie.slotVonStapelbasis_eq_some.mpr ⟨hlt, rfl⟩
  have hbit : Bitmap.bit a.bits slot = true := (h.bits slot).mpr (.inl hs)
  refine ⟨freigeben_of_bit hslot hbit, h.geometrie.leeren slot, h.nodup.erase slot,
    fun s hmem => h.innen s (List.mem_of_mem_erase hmem), fun s hmem => ?_, fun i => ?_,
    h.leeren_anzahl hbit⟩
  · obtain ⟨hs', hnot⟩ := h.sperre s hmem
    exact ⟨hs', fun hin => hnot (List.mem_of_mem_erase hin)⟩
  · have hfremd : i ∈ gesperrt → i ≠ slot := fun hi heq => (h.sperre i hi).2 (heq ▸ hs)
    dsimp only [StackArena.leeren]
    rw [Bitmap.bit_clear (h.geometrie.lt_bits hlt), Bool.and_eq_true, Bool.not_eq_true',
      decide_eq_false_iff_not, h.bits i, h.nodup.mem_erase_iff]
    constructor
    · rintro ⟨hne, hs' | hg⟩
      · exact .inl ⟨hne, hs'⟩
      · exact .inr hg
    · rintro (⟨hne, hs'⟩ | hg)
      · exact ⟨hne, .inl hs'⟩
      · exact ⟨hfremd hg, .inr hg⟩

theorem freigeben_fremd {x : Nat} (h : a.Gebucht slots gesperrt)
    (hx : ∀ s, s ∈ slots ∨ s ∈ gesperrt → x ≠ a.ort s) :
    a.freigeben x = (.error .ungueltig, a.abgewiesen) := by
  unfold StackArena.freigeben
  cases hslot : a.slotVonStapelbasis x with
  | none => rfl
  | some s =>
    obtain ⟨-, hort⟩ := h.geometrie.slotVonStapelbasis_eq_some.mp hslot
    have hfrei : Bitmap.bit a.bits s = false := by
      by_contra hset
      exact hx s ((h.bits s).mp (by simpa using hset)) hort
    simp only [hfrei, if_true]

end Gebucht

namespace Gebucht

variable {slots gesperrt : List Nat}

theorem vergeben_cases (h : a.Gebucht slots gesperrt)
    (hok : a.bits.length = woerter a.plaetze ∨ ∃ s < a.plaetze, Bitmap.bit a.bits s = false) :
    (a.vergeben.1 = .error .erschoepft ∧ a.vergeben.2.Gebucht slots gesperrt ∧
        ∀ s < a.plaetze, Bitmap.bit a.bits s = true) ∨
      ∃ slot < a.plaetze, Bitmap.bit a.bits slot = false ∧
        a.vergeben = (.ok (a.ort slot), a.belegen slot) := by
  have hgeo := h.geometrie
  have hwoerter := hgeo.woerter_eq
  have hplatz := a.platz
  have hpos := hgeo.plaetze
  cases hf : freierPlatz a.plaetze a.bits.length 0 a.bits with
  | none =>
    have hvoll := freierPlatz_eq_none.mp hf
    refine .inl ⟨by simp [StackArena.vergeben, hf], ?_, fun s hs => hvoll s (hgeo.lt_bits hs) ?_⟩
    · simp only [StackArena.vergeben, hf]
      exact ⟨⟨hgeo.basis, hgeo.stapel, hgeo.pos, hgeo.schritt, hgeo.plaetze, hgeo.ende⟩, h.nodup,
        h.innen, h.sperre, h.bits, h.anzahl⟩
    · intro hlast hrest
      omega
  | some i =>
    obtain ⟨k, hk, hi, hz, hfrei, hlow⟩ := freierPlatz_eq_some hf
    rw [Nat.zero_mul, Nat.zero_add] at hi
    subst hi
    have hlt : i < a.plaetze := by
      rcases hok with hlen | ⟨s, hs, hsfrei⟩
      · rw [hwoerter] at hlen
        unfold Zulaessig at hz
        omega
      · by_contra hge
        -- A free slot below the found one, which the masks leave.
        have hset := hlow s (by omega) fun hlast hrest => by omega
        rw [hsfrei] at hset
        cases hset
    refine .inr ⟨i, hlt, hfrei, ?_⟩
    have hort : (a.basis + i * a.schritt + seite) % 2 ^ 64 = a.ort i :=
      Nat.mod_eq_of_lt (hgeo.ort_lt hlt)
    simp only [StackArena.vergeben, hf, hort]

/-- With a longer bitmap an issue goes on behind the last slot: it never fails. -/
theorem vergeben_zu_weit (h : a.Gebucht slots gesperrt) (hlen : a.bits.length ≠ woerter a.plaetze)
    (f : ArenaFehler) :
    a.vergeben.1 ≠ .error f := by
  have hgeo := h.geometrie
  have hwoerter := hgeo.woerter_eq
  have hplatz := a.platz
  cases hf : freierPlatz a.plaetze a.bits.length 0 a.bits with
  | some i => simp [StackArena.vergeben, hf]
  | none =>
    have hset := freierPlatz_eq_none.mp hf a.plaetze (by omega) fun hlast hrest => by omega
    exact absurd (h.lt_plaetze hset) (Nat.lt_irrefl _)

end Gebucht

end StackArena

namespace Stapel

open StackArena

variable {L : Stapel}

/-- The live stacks are those of the issued slots. -/
def Inv (L : Stapel) : Prop :=
  ∃ slots, L.arena.Gebucht slots L.gesperrt ∧ L.lebend = slots.map L.arena.ort

theorem start_inv {a : StackArena} {n : Nat} (h : a.Geometrie)
    (hbits : a.bits = List.replicate n 0#64) (hanzahl : a.vergebenAnzahl = 0) : (start a).Inv := by
  refine ⟨[], ⟨h, List.nodup_nil, ?_, ?_, fun i => ?_, ?_⟩, rfl⟩
  · exact fun s hs => absurd hs List.not_mem_nil
  · exact fun s hs => absurd hs List.not_mem_nil
  · simp [start, hbits, Bitmap.bit_zero]
  · simp [start, hbits, hanzahl, Bitmap.count_zero]

theorem Inv.getrennt (h : L.Inv) : L.Getrennt := by
  obtain ⟨slots, hgebucht, hlebend⟩ := h
  have hgeo := hgebucht.geometrie
  have hschritt := hgeo.schritt
  refine ⟨?_, fun x hx => ?_, hgebucht.anzahl, ?_⟩
  · rw [hlebend, List.map_map, Apart, List.pairwise_map]
    refine hgebucht.nodup.imp fun {i j} hne => ?_
    -- Two slots are at least one step apart.
    have hfern : i * L.arena.schritt + L.arena.schritt ≤ j * L.arena.schritt ∨
        j * L.arena.schritt + L.arena.schritt ≤ i * L.arena.schritt := by
      rcases Nat.lt_or_gt_of_ne hne with hlt | hlt
      · exact .inl (by rw [← Nat.succ_mul]; exact Nat.mul_le_mul_right _ hlt)
      · exact .inr (by rw [← Nat.succ_mul]; exact Nat.mul_le_mul_right _ hlt)
    have hpos : 0 < seite + L.arena.stapel := Nat.add_pos_left (by decide) _
    refine (disjoint_addrs_iff hpos hpos).mpr ?_
    simp only [Function.comp, bereich, ort, Nat.add_sub_cancel]
    omega
  · rw [hlebend] at hx
    obtain ⟨s, hs, rfl⟩ := List.mem_map.mp hx
    have hle := hgeo.ort_add_stapel_le (hgebucht.innen s hs)
    rw [hschritt] at hle
    refine ⟨?_, hle⟩
    unfold ort
    omega
  · rw [hgebucht.anzahl]
    exact Bitmap.count_le fun i hi => hgebucht.lt_plaetze hi

theorem Inv.step (h : L.Inv) (op : Stapelvorgang) (hok : L.Bedingung op) :
    ∃ M, L.step op = some M ∧ M.Inv := by
  obtain ⟨slots, hgebucht, hlebend⟩ := h
  cases op with
  | vergeben =>
    rcases hgebucht.vergeben_cases hok with ⟨herr, hbuch, -⟩ | ⟨slot, hs, hfrei, heq⟩
    · have hpair : L.arena.vergeben = (.error .erschoepft, L.arena.vergeben.2) := by rw [← herr]
      have hort : L.arena.vergeben.2.ort = L.arena.ort := by
        unfold StackArena.vergeben
        split <;> rfl
      refine ⟨{ L with arena := L.arena.vergeben.2 }, ?_, slots, hbuch, ?_⟩
      · rw [Stapel.step, hpair]
      · rw [hort]
        exact hlebend
    · refine ⟨{ L with arena := L.arena.belegen slot, lebend := L.arena.ort slot :: L.lebend }, ?_,
        slot :: slots, hgebucht.vergeben hs hfrei, ?_⟩
      · rw [Stapel.step, heq]
      · rw [hlebend]
        rfl
  | freigeben x =>
    by_cases hx : ∃ s ∈ slots, L.arena.ort s = x
    · obtain ⟨s, hs, rfl⟩ := hx
      obtain ⟨hret, hbuch⟩ := hgebucht.freigeben hs
      refine ⟨⟨L.arena.leeren s, L.lebend.erase (L.arena.ort s), L.gesperrt⟩, ?_, slots.erase s,
        hbuch, ?_⟩
      · rw [Stapel.step, hret]
      · dsimp only
        rw [hlebend]
        exact (List.map_erase (fun _ _ heq => hgebucht.geometrie.ort_injective heq) slots).symm
    · have hfremd := hgebucht.freigeben_fremd (x := x) fun s hmem heq => by
        rcases hmem with hs | hg
        · exact hx ⟨s, hs, heq.symm⟩
        · exact hok s hg (by
            rw [hgebucht.geometrie.stapelbasisVonSlot_eq (hgebucht.sperre s hg).1, heq])
      refine ⟨{ L with arena := L.arena.abgewiesen }, by rw [Stapel.step, hfremd], slots, ?_, hlebend⟩
      have hgeo := hgebucht.geometrie
      exact ⟨⟨hgeo.basis, hgeo.stapel, hgeo.pos, hgeo.schritt, hgeo.plaetze, hgeo.ende⟩,
        hgebucht.nodup, hgebucht.innen, hgebucht.sperre, hgebucht.bits, hgebucht.anzahl⟩
  | sperren slot =>
    by_cases hs : L.arena.plaetze ≤ slot
    · refine ⟨L, ?_, slots, hgebucht, hlebend⟩
      simp [Stapel.step, StackArena.sperren, hs]
    · cases hbit : Bitmap.bit L.arena.bits slot with
      | true =>
        refine ⟨L, ?_, slots, hgebucht, hlebend⟩
        simp [Stapel.step, StackArena.sperren, hbit]
      | false =>
        refine ⟨{ L with arena := L.arena.belegen slot, gesperrt := slot :: L.gesperrt }, ?_,
          slots, hgebucht.sperren (Nat.lt_of_not_le hs) hbit, hlebend⟩
        simp [Stapel.step, StackArena.sperren, hs, hbit]

theorem Inv.recht_iff (h : L.Inv) (op : Stapelvorgang) : L.Recht op ↔ L.Bedingung op := by
  obtain ⟨slots, hgebucht, hlebend⟩ := h
  have hgeo := hgebucht.geometrie
  cases op with
  | sperren slot => exact Iff.rfl
  | vergeben =>
    -- Taken or locked is: the bit is set.
    have hvoll : (∀ slot < L.arena.plaetze, (∃ x ∈ L.lebend,
        L.arena.slotVonStapelbasis x = some slot) ∨ slot ∈ L.gesperrt) ↔
        ∀ slot < L.arena.plaetze, Bitmap.bit L.arena.bits slot = true := by
      refine forall₂_congr fun slot hs => ?_
      rw [hgebucht.bits slot, hlebend]
      refine or_congr_left ?_
      constructor
      · rintro ⟨x, hx, hslot⟩
        obtain ⟨s, hs', rfl⟩ := List.mem_map.mp hx
        obtain ⟨-, heq⟩ := hgeo.slotVonStapelbasis_eq_some.mp hslot
        exact hgeo.ort_injective heq ▸ hs'
      · intro hs'
        exact ⟨L.arena.ort slot, List.mem_map_of_mem hs',
          hgeo.slotVonStapelbasis_eq_some.mpr ⟨hs, rfl⟩⟩
    rw [Recht, hvoll]
    constructor
    · intro hiff
      by_contra hnot
      rw [Bedingung, not_or, not_exists] at hnot
      have hset : ∀ slot < L.arena.plaetze, Bitmap.bit L.arena.bits slot = true := fun slot hs => by
        by_contra hfrei
        exact hnot.2 slot ⟨hs, by simpa using hfrei⟩
      obtain ⟨f, hf⟩ := hiff.mpr hset
      exact hgebucht.vergeben_zu_weit hnot.1 f hf
    · intro hok
      rcases hgebucht.vergeben_cases hok with ⟨herr, -, hset⟩ | ⟨slot, hs, hfrei, heq⟩
      · exact iff_of_true ⟨_, herr⟩ hset
      · refine iff_of_false (fun hf => ?_) fun hset => ?_
        · obtain ⟨f, hf⟩ := hf
          rw [heq] at hf
          cases hf
        · rw [hset slot hs] at hfrei
          cases hfrei
  | freigeben x =>
    constructor
    · rintro hrecht slot hg hbase
      obtain ⟨hs, hfremd⟩ := hgebucht.sperre slot hg
      rw [hgeo.stapelbasisVonSlot_eq hs, Option.some.injEq] at hbase
      subst hbase
      have htot : L.arena.ort slot ∉ L.lebend := by
        rw [hlebend]
        intro hmem
        obtain ⟨s, hs', heq⟩ := List.mem_map.mp hmem
        exact hfremd (hgeo.ort_injective heq ▸ hs')
      have hret := (hrecht.2 htot).1
      rw [freigeben_of_bit (hgeo.slotVonStapelbasis_eq_some.mpr ⟨hs, rfl⟩)
        ((hgebucht.bits slot).mpr (.inr hg))] at hret
      cases hret
    · intro hok
      refine ⟨fun hx => ?_, fun hx => ?_⟩
      · rw [hlebend] at hx
        obtain ⟨s, hs, rfl⟩ := List.mem_map.mp hx
        rw [(hgebucht.freigeben hs).1]
      · have hfremd := hgebucht.freigeben_fremd (x := x) fun s hmem heq => by
          rcases hmem with hs | hg
          · exact hx (by rw [hlebend, heq]; exact List.mem_map_of_mem hs)
          · exact hok s hg (by rw [hgeo.stapelbasisVonSlot_eq (hgebucht.sperre s hg).1, heq])
        rw [hfremd]
        exact ⟨rfl, rfl, rfl⟩

/-- For every accepted arena and every sequence of calls: after each prefix the live stacks lie
apart inside the arena and the count is right, and every call does what it should, exactly if no
issue meets a longer bitmap with all slots taken and no locked slot is given back. -/
theorem run_getrennt_iff {basis stapel plaetze : Nat} {bits : List (BitVec 64)} {a : StackArena}
    (h : neu basis stapel plaetze bits = .ok a)
    (hende : basis + plaetze * (seite + stapel) < 2 ^ 64) (ops : List Stapelvorgang) :
    (∀ xs, xs <+: ops → ∃ L, run step (start a) xs = some L ∧ L.Getrennt ∧
        ∀ op, xs ++ [op] <+: ops → L.Recht op) ↔ Admissible step Bedingung (start a) ops := by
  obtain ⟨hgeo, hbits, hanzahl⟩ := neu_eq_ok h hende
  exact forall_prefix_call_iff_admissible (fun _ hL => hL.getrennt)
    (fun _ op hL hok => hL.step op hok) (fun _ op hL => hL.recht_iff op)
    (start_inv hgeo hbits hanzahl) ops

theorem run_getrennt_iff_zwei : ∃ a, neu 0x100000 4096 1 [0, 0] = .ok a ∧
    ((∀ xs, xs <+: [.vergeben, .vergeben] → ∃ L, run step (start a) xs = some L ∧ L.Getrennt ∧
        ∀ op, xs ++ [op] <+: [.vergeben, .vergeben] → L.Recht op) ↔
      Admissible step Bedingung (start a) [.vergeben, .vergeben]) := by
  have hneu : ∃ a, neu 0x100000 4096 1 [0, 0] = .ok a := ⟨_, rfl⟩
  obtain ⟨a, ha⟩ := hneu
  exact ⟨a, ha, run_getrennt_iff ha (by decide) [.vergeben, .vergeben]⟩

/-- One slot and two words: the second stack lies behind the arena.  And a slot that was given
back and then locked is given back once more. -/
theorem run_nicht_getrennt :
    (∃ a L, neu 0x100000 4096 1 [0, 0] = .ok a ∧
      run step (start a) [.vergeben, .vergeben] = some L ∧ L.lebend = [0x103000, 0x101000] ∧
        ¬ L.Getrennt) ∧
    ∃ a L, neu 0x100000 4096 8 [0] = .ok a ∧
      run step (start a) [.vergeben, .freigeben 0x101000, .sperren 0] = some L ∧
        ¬ L.Recht (.freigeben 0x101000) := by
  constructor
  · have hneu : ∃ a, neu 0x100000 4096 1 [0, 0] = .ok a := ⟨_, rfl⟩
    obtain ⟨a, ha⟩ := hneu
    have hrun : (run step (start a) [.vergeben, .vergeben]).map
        (fun L => (L.lebend, L.arena.basis, L.arena.plaetze, L.arena.stapel)) =
          some ([0x103000, 0x101000], 0x100000, 1, 4096) := by
      cases ha
      decide +kernel
    obtain ⟨L, hL, heq⟩ := Option.map_eq_some_iff.mp hrun
    simp only [Prod.mk.injEq] at heq
    obtain ⟨hlebend, hbasis, hplaetze, hstapel⟩ := heq
    refine ⟨a, L, ha, hL, hlebend, fun hgetrennt => ?_⟩
    have hinnen := (hgetrennt.innen 0x103000 (by rw [hlebend]; decide)).2
    rw [hbasis, hplaetze, hstapel] at hinnen
    exact absurd hinnen (by decide)
  · have hneu : ∃ a, neu 0x100000 4096 8 [0] = .ok a := ⟨_, rfl⟩
    obtain ⟨a, ha⟩ := hneu
    have hrun : (run step (start a) [.vergeben, .freigeben 0x101000, .sperren 0]).map
        (fun L => (L.lebend, (L.arena.freigeben 0x101000).1.toBool)) = some ([], true) := by
      cases ha
      decide +kernel
    obtain ⟨L, hL, heq⟩ := Option.map_eq_some_iff.mp hrun
    simp only [Prod.mk.injEq] at heq
    obtain ⟨hlebend, hret⟩ := heq
    refine ⟨a, L, ha, hL, fun hrecht => ?_⟩
    rw [(hrecht.2 (by rw [hlebend]; exact List.not_mem_nil)).1] at hret
    cases hret

end Stapel

end Caprock.Kernel
