import Caprock.MemServer.Requests

/-! # The protocol of the memory server

A request and its answer are four registers.  `Protokoll.bedienen` reads a request off the
registers of a call and puts the outcome into those of the reply; an error travels as its code.
-/

namespace Caprock.MemServer

open Checks
open Caprock.Wait (Tid)

structure Worte where
  w0 : Nat
  w1 : Nat
  w2 : Nat
  w3 : Nat
  deriving DecidableEq, Repr

@[match_pattern] def artAnfordern : Nat := 1
@[match_pattern] def artAufloesen : Nat := 2
@[match_pattern] def artAbbilden : Nat := 3
@[match_pattern] def artAusblenden : Nat := 4
@[match_pattern] def artFreigeben : Nat := 5

structure Nachricht where
  art : Nat
  a : Nat
  b : Nat
  deriving DecidableEq, Repr

namespace Nachricht

def anfordern (len zweckKennziffer : Nat) : Nachricht := ⟨artAnfordern, len, zweckKennziffer⟩
def aufloesen (handle : Nat) : Nachricht := ⟨artAufloesen, handle, 0⟩
def abbilden (handle : Nat) : Nachricht := ⟨artAbbilden, handle, 0⟩
def ausblenden (handle : Nat) : Nachricht := ⟨artAusblenden, handle, 0⟩
def freigeben (handle : Nat) : Nachricht := ⟨artFreigeben, handle, 0⟩

def alsWorte (n : Nachricht) : Worte := ⟨n.art, n.a, n.b, 0⟩
def ausWorten (w : Worte) : Nachricht := ⟨w.w0, w.w1, w.w2⟩

@[simp] theorem ausWorten_alsWorte (n : Nachricht) : ausWorten n.alsWorte = n := rfl

end Nachricht

def fehlerKode : SpeicherFehler → Nat
  | .leereAnfrage => 1
  | .keinPlatz => 2
  | .tabelleVoll => 3
  | .unbekannterSchein => 4
  | .fremderSchein => 5
  | .bereitsZurueck => 6
  | .zweckAbgelehnt => 7
  | .kontingentErschoepft => 8
  | .nochAbgebildet => 9
  | .nichtAbgebildet => 10
  | .entzogen => 11
  | .unbekannteArt => 12
  | .sperre _ => 13

def fehlerAusKode : Nat → Option SpeicherFehler
  | 1 => some .leereAnfrage
  | 2 => some .keinPlatz
  | 3 => some .tabelleVoll
  | 4 => some .unbekannterSchein
  | 5 => some .fremderSchein
  | 6 => some .bereitsZurueck
  | 7 => some .zweckAbgelehnt
  | 8 => some .kontingentErschoepft
  | 9 => some .nochAbgebildet
  | 10 => some .nichtAbgebildet
  | 11 => some .entzogen
  | 12 => some .unbekannteArt
  | 13 => some (.sperre .keinWarteplatz)
  | _ => none

theorem fehlerKode_ne_zero (f : SpeicherFehler) : fehlerKode f ≠ 0 := by
  cases f <;> exact Nat.succ_ne_zero _

theorem ausKennziffer_kennziffer (z : Zweck) : Zweck.ausKennziffer z.kennziffer = some z := by
  cases z <;> rfl

namespace Protokoll

/-- The registers of a reply: `ok` and `ab`. -/
def antwortWorte : Except SpeicherFehler Antwort → Worte
  | .ok (.schein x) => ⟨0, x.handle, 0, 0⟩
  | .ok (.sicht x) => ⟨0, x.cpu, x.dev, x.len⟩
  | .ok .erledigt => ⟨0, 0, 0, 0⟩
  | .error f => ⟨fehlerKode f, 0, 0, 0⟩

def anfrage (pd : Nat) (n : Nachricht) : Except SpeicherFehler Anfrage :=
  match n.art with
  | artAnfordern =>
      match Zweck.ausKennziffer n.b with
      | some z => .ok (.anfordern pd n.a z)
      | none => .error .zweckAbgelehnt
  | artAufloesen => .ok (.aufloesen pd n.a)
  | artAbbilden => .ok (.abbilden pd n.a)
  | artAusblenden => .ok (.ausblenden pd n.a)
  | artFreigeben => .ok (.zurueckgeben pd n.a)
  | _ => .error .unbekannteArt

/-- `bedienen`; `none` is a caller that would park at the server's lock. -/
def bedienen (s : MemoryServer) (me : Tid) (pd : Nat) (worte : Worte) :
    Option (Worte × MemoryServer) :=
  match anfrage pd (.ausWorten worte) with
  | .error f => some (antwortWorte (.error f), s)
  | .ok a => (s.bedienen me a).map fun r => (antwortWorte r.1, r.2)

theorem bedienen_eq {s : MemoryServer} (h : s.Frei) (me : Tid) {pd : Nat} {n : Nachricht}
    {a : Anfrage} (ha : anfrage pd n = .ok a) :
    ∃ t, bedienen s me pd n.alsWorte = some (antwortWorte (s.bestand.ausfuehren a).1, t) ∧
      t.Frei ∧ t.bestand = (s.bestand.ausfuehren a).2 := by
  obtain ⟨t, ht, hfrei, hbestand⟩ := MemoryServer.bedienen_eq h me a
  refine ⟨t, ?_, hfrei, hbestand⟩
  rw [bedienen, Nachricht.ausWorten_alsWorte, ha]
  simp only [ht, Option.map_some]

end Protokoll

namespace Bestand

variable {b c : Bestand} {pd pd' handle handle' slot slot' : Nat} {g g' : Grant}

theorem Gefunden.setGrant_ne (h : b.Gefunden pd handle slot g) (hne : slot ≠ slot') :
    (b.setGrant slot' g').Gefunden pd handle slot g :=
  ⟨by rw [setGrant_grants, List.getElem?_set_ne (Ne.symm hne)]; exact h.fach, h.handle, h.live, h.pd⟩

theorem Gefunden.setGrant_self (h : b.Gefunden pd handle slot g) (hhandle : g'.handle = g.handle)
    (hpd : g'.pd = g.pd) (hlive : g'.live = true) :
    (b.setGrant slot g').Gefunden pd handle slot g' :=
  ⟨List.getElem?_set_self (List.getElem?_eq_some_iff.mp h.fach).1, hhandle.trans h.handle, hlive,
    hpd.trans h.pd⟩

theorem Gefunden.slot_ne (h : b.Gefunden pd handle slot g) (h' : b.Gefunden pd' handle' slot' g')
    (hne : (pd, handle) ≠ (pd', handle')) : slot' ≠ slot := by
  rintro rfl
  obtain rfl : g' = g := Option.some.inj (Option.some.inj (h'.fach.symm.trans h.fach))
  exact hne (by rw [← h.pd, ← h.handle, h'.pd, h'.handle])

/-- A request leaves the grants alone that it does not name. -/
theorem Wirkung.bleibt {a : Anfrage} {r : Except SpeicherFehler Antwort} (hw : b.Wirkung a r c)
    (hg : b.Gefunden pd handle slot g) (hne : a.schein ≠ some (pd, handle)) :
    c.Gefunden pd handle slot g := by
  have hother : ∀ {pd' handle' slot' g' x}, b.Gefunden pd' handle' slot' g' →
      some (pd', handle') ≠ some (pd, handle) → (b.setGrant slot' x).Gefunden pd handle slot g :=
    fun h h' => hg.setGrant_ne (h.slot_ne hg fun heq => h' (congrArg some heq))
  cases hw with
  | abgelehnt | gelesen => exact hg
  | vergeben buf hv _ =>
    obtain ⟨alt, hslot, halt⟩ := hv.frei
    refine ⟨(hg.setGrant_ne fun heq => ?_).fach, hg.handle, hg.live, hg.pd⟩
    rw [← heq, hg.fach, Option.some.injEq] at hslot
    rw [← hslot, Option.any_some, hg.live] at halt
    cases halt
  | zurueck hfound _ => exact ⟨(hother hfound hne).fach, hg.handle, hg.live, hg.pd⟩
  | abgebildet hfound | ausgeblendet hfound | entzogen hfound => exact hother hfound hne
  | verboten zweck v => cases v <;> exact ⟨hg.fach, hg.handle, hg.live, hg.pd⟩
  | begrenzt => exact ⟨hg.fach, hg.handle, hg.live, hg.pd⟩

/-- The handle of a grant carries the number of its place. -/
def Beschriftet (b : Bestand) : Prop :=
  ∀ (slot : Nat) (g : Grant), b.grants[slot]? = some (some g) → g.handle &&& 0xFFFFFFFF = slot

theorem handle_and_mask {gen : Nat} (h : slot < maxGrants) :
    ((gen <<< 32) ||| slot) &&& 0xFFFFFFFF = slot := by
  have hslot : slot < 2 ^ 32 := h.trans (by decide)
  have hmask : (0xFFFFFFFF : Nat) = 2 ^ 32 - 1 := rfl
  rw [hmask, Nat.and_two_pow_sub_one_eq_mod, ← Nat.shiftLeft_add_eq_or_of_lt hslot,
    Nat.shiftLeft_eq]
  omega

theorem Beschriftet.setGrant (h : b.Beschriftet) (hg : g.handle &&& 0xFFFFFFFF = slot) :
    (b.setGrant slot g).Beschriftet := by
  intro i x hi
  rw [setGrant_grants, List.getElem?_set] at hi
  split at hi
  · next heq =>
    subst heq
    split at hi
    · cases hi
      exact hg
    · cases hi
  · exact h i x hi

theorem Beschriftet.vermerkt (h : b.Beschriftet) (hslot : b.grants[slot]? = some (some g))
    (hg : g'.handle = g.handle) : (b.setGrant slot g').Beschriftet :=
  h.setGrant (hg ▸ h slot g hslot)

theorem Beschriftet.wirkung {a : Anfrage} {r : Except SpeicherFehler Antwort}
    (h : b.Beschriftet) (hw : b.Wirkung a r c) : c.Beschriftet := by
  cases hw with
  | abgelehnt | gelesen | begrenzt => exact h
  | @vergeben _ _ slot _ _ _ _ g buf hv hg =>
    obtain ⟨alt, hslot, -⟩ := hv.frei
    have hlt : slot < maxGrants := by
      rw [← b.fach]
      exact (List.getElem?_eq_some_iff.mp hslot).1
    subst hg
    exact Beschriftet.setGrant (b := b) h (handle_and_mask hlt)
  | zurueck hfound _ | abgebildet hfound | ausgeblendet hfound | entzogen hfound =>
    exact h.vermerkt hfound.fach rfl
  | verboten zweck v => cases v <;> exact h

theorem Beschriftet.slot_eq (h : b.Beschriftet) (hg : b.Gefunden pd handle slot g)
    (hg' : b.Gefunden pd' handle slot' g') : slot' = slot ∧ g' = g := by
  have hslot : slot' = slot := by
    rw [← h slot' g' hg'.fach, ← h slot g hg.fach, hg'.handle, hg.handle]
  subst hslot
  exact ⟨rfl, Option.some.inj (Option.some.inj (hg'.fach.symm.trans hg.fach))⟩

/-- Only its return takes a grant away; marks leave its range alone. -/
theorem Wirkung.bereich {a : Anfrage} {r : Except SpeicherFehler Antwort} (h : b.Beschriftet)
    (hw : b.Wirkung a r c) (hg : b.Gefunden pd handle slot g) (hne : a ≠ .zurueckgeben pd handle) :
    ∃ g', c.Gefunden pd handle slot g' ∧ g'.bereich = g.bereich := by
  by_cases ha : a.schein = some (pd, handle)
  · cases hw with
    | abgelehnt | gelesen => exact ⟨g, hg, rfl⟩
    | vergeben | verboten | begrenzt => cases ha
    | zurueck hfound _ =>
      cases ha
      exact absurd rfl hne
    | abgebildet hfound | ausgeblendet hfound | entzogen hfound =>
      cases ha
      obtain ⟨rfl, rfl⟩ := h.slot_eq hg hfound
      exact ⟨_, hg.setGrant_self rfl rfl hg.live, rfl⟩
  · exact ⟨g, hw.bleibt hg ha, rfl⟩

theorem slotZuHandle_of_gefunden (h : b.Beschriftet) (hg : b.Gefunden pd handle slot g) :
    b.slotZuHandle handle = some (slot, g) := by
  have hslot : handle &&& 0xFFFFFFFF = slot := hg.handle ▸ h slot g hg.fach
  have hlt : ¬ maxGrants ≤ slot := by
    have hlen := (List.getElem?_eq_some_iff.mp hg.fach).1
    rw [b.fach] at hlen
    omega
  unfold slotZuHandle
  simp only [hslot, if_neg hlt, hg.fach, if_pos hg.handle]

theorem scheinPruefen_of_gefunden (h : b.Beschriftet) (hg : b.Gefunden pd handle slot g) :
    b.scheinPruefen pd handle = .ok (slot, g) := by
  simp [scheinPruefen, slotZuHandle_of_gefunden h hg, okOr, Except.bind, hg.live, hg.pd]

theorem anfordern_bedarf (b : Bestand) (pd len : Nat) (zweck : Zweck) (x : GrantSchein)
    (h : (b.ausfuehren (.anfordern pd len zweck)).1 = .ok (.schein x)) :
    rundeAufSeite len = some x.len := by
  simp only [ausfuehren, anfordernInner] at h
  cases hp : b.anfragePruefen len zweck with
  | error e => simp [hp, Except.map] at h
  | ok p =>
    obtain ⟨bedarf, neuBenutzt, slot⟩ := p
    have hbedarf : rundeAufSeite len = some bedarf := by
      simp only [anfragePruefen, ite_error_eq_ok, bind_eq_ok, okOr_eq_ok, Except.ok.injEq,
        Prod.mk.injEq] at hp
      obtain ⟨-, -, _, hrund, _, -, -, _, -, rfl, -⟩ := hp
      exact hrund
    simp only [hp] at h
    split at h
    · simp [Except.map] at h
    · split at h
      · simp [Except.map] at h
      · simp only [Except.map, Except.ok.injEq, Antwort.schein.injEq] at h
        rw [hbedarf, ← h]

theorem ausfuehren_aufloesen (h : b.Beschriftet) (hg : b.Gefunden pd handle slot g) :
    b.ausfuehren (.aufloesen pd handle) =
      if g.entzogen then (.error .entzogen, b)
      else (.ok (.sicht ⟨g.offset, g.len, g.cpu, g.dev⟩), b) := by
  simp only [ausfuehren, aufloesenInner, scheinPruefen_of_gefunden h hg]
  split <;> rfl

theorem ausfuehren_abbilden (h : b.Beschriftet) (hg : b.Gefunden pd handle slot g) :
    b.ausfuehren (.abbilden pd handle) =
      if g.entzogen then (.error .entzogen, b)
      else (.ok .erledigt, b.setGrant slot { g with abgebildet := true }) := by
  simp only [ausfuehren, abbildenInner, scheinPruefen_of_gefunden h hg]
  split <;> rfl

theorem ausfuehren_ausblenden (h : b.Beschriftet) (hg : b.Gefunden pd handle slot g) :
    b.ausfuehren (.ausblenden pd handle) =
      if g.abgebildet = false then (.error .nichtAbgebildet, b)
      else (.ok .erledigt, b.setGrant slot { g with abgebildet := false }) := by
  simp only [ausfuehren, ausblendenInner, scheinPruefen_of_gefunden h hg]
  split <;> rfl

theorem ausfuehren_zurueckgeben (h : b.Beschriftet) (hg : b.Gefunden pd handle slot g) :
    b.ausfuehren (.zurueckgeben pd handle) =
      if g.abgebildet then (.error .nochAbgebildet, b)
      else (.ok .erledigt, b.nachRueckgabe slot g) := by
  simp only [ausfuehren, zurueckgebenInner, rueckgabePruefen, scheinPruefen_of_gefunden h hg,
    Except.bind]
  by_cases hmark : g.abgebildet = true
  · simp only [if_pos hmark]
    rfl
  · simp only [if_neg hmark]
    rfl

theorem ausfuehren_entziehen (h : b.Beschriftet) (hg : b.Gefunden pd handle slot g) :
    b.ausfuehren (.entziehen pd handle) =
      (.ok .erledigt, b.setGrant slot { g with entzogen := true }) := by
  simp only [ausfuehren, entziehenInner, scheinPruefen_of_gefunden h hg]
  rfl

theorem nachRueckgabe_weg (h : b.Beschriftet) (hg : b.Gefunden pd handle slot g) :
    ∀ x ∈ (b.nachRueckgabe slot g).lebende, x.handle ≠ handle := by
  intro x hx heq
  obtain ⟨i, hi, hlive⟩ := mem_lebende.mp hx
  have hnew : (b.nachRueckgabe slot g).Beschriftet := h.vermerkt hg.fach rfl
  have hplace : i = slot := by
    rw [← hnew i x hi, ← h slot g hg.fach, heq, hg.handle]
  subst hplace
  have hself : (b.nachRueckgabe i g).grants[i]? = some (some { g with live := false }) :=
    List.getElem?_set_self (List.getElem?_eq_some_iff.mp hg.fach).1
  rw [hself] at hi
  cases hi
  cases hlive

end Bestand

theorem MemoryServer.neu_beschriftet {cpuBasis devBasis n : Nat} {s : MemoryServer}
    (h : neu cpuBasis devBasis n = some s) : s.bestand.Beschriftet := by
  have hleer : ∀ b : Bestand, b.grants = List.replicate maxGrants none → b.Beschriftet := by
    intro b hb slot g hslot
    have hmem := List.eq_of_mem_replicate (hb ▸ List.mem_of_getElem? hslot)
    cases hmem
  unfold neu at h
  split at h
  · cases h
  · split at h
    · cases h
    · split at h
      · cases h
      · cases h
        exact Bestand.Beschriftet.setGrant (hleer _ rfl) (Bestand.handle_and_mask (by decide))

end Caprock.MemServer
