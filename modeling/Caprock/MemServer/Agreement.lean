import Caprock.MemServer.Client

/-! # Clients and server agree on the mappings

One server and a client in every domain.  A round is a call: the client builds the message, the
server answers it, and the client enters the reply before it does anything else.  Between two
rounds the server withdraws grants, and a message about that reaches the client at any time or
never.

Both sides keep a mark for each mapping.  The two marks agree, until a client resolves a handle
that it has mapped: the reply overwrites the record of the mapping, and from then on the server
waits for an end of the mapping that the client does not report any more.
-/

namespace Caprock.MemServer

open Execution Function
open Caprock.Wait (Tid)

inductive Anliegen where
  | anfordern (len : Nat) (zweck : Zweck)
  | aufloesen (handle : Nat)
  | abbilden (handle : Nat)
  | ausblenden (handle : Nat)
  | freigeben (handle : Nat)
  deriving DecidableEq, Repr

def Anliegen.anfrage (pd : Nat) : Anliegen → Anfrage
  | .anfordern len zweck => .anfordern pd len zweck
  | .aufloesen handle => .aufloesen pd handle
  | .abbilden handle => .abbilden pd handle
  | .ausblenden handle => .ausblenden pd handle
  | .freigeben handle => .zurueckgeben pd handle

namespace ClientSeite

def bauen (c : ClientSeite) : Anliegen → Except ClientFehler Nachricht
  | .anfordern len zweck => .ok (anfrage len zweck)
  | .aufloesen handle => c.aufloesen handle
  | .abbilden handle => c.abbilden handle
  | .ausblenden handle => c.ausblenden handle
  | .freigeben handle => c.freigeben handle

def buchen (c : ClientSeite) : Anliegen → Worte → ClientSeite
  | .anfordern len _, w => (c.antwortAnfordern w len).2
  | .aufloesen handle, w => (c.antwortAufloesen handle w).2
  | .abbilden handle, w => (c.antwortAbbilden handle w).2
  | .ausblenden handle, w => (c.antwortAusblenden handle w).2
  | .freigeben handle, w => (c.antwortFreigeben handle w).2

end ClientSeite

structure Verbund where
  server : MemoryServer
  client : Nat → ClientSeite

inductive Ereignis where
  | runde (me : Tid) (pd : Nat) (x : Anliegen)
  | entziehen (me : Tid) (pd handle : Nat)
  | entzug (pd handle : Nat)
  | zweckVerbieten (zweck : Zweck) (verboten : Bool)
  | kontingentSetzen (zweck : Zweck) (grenze : Nat)
  deriving DecidableEq, Repr

namespace Verbund

def start (s : MemoryServer) : Verbund := ⟨s, fun _ => .neu⟩

def runde (V : Verbund) (me : Tid) (pd : Nat) (x : Anliegen) : Option Verbund :=
  match (V.client pd).bauen x with
  | .error _ => some V
  | .ok n =>
      (Protokoll.bedienen V.server me pd n.alsWorte).map fun r =>
        ⟨r.2, update V.client pd ((V.client pd).buchen x r.1)⟩

def dienst (V : Verbund) (me : Tid) (a : Anfrage) : Option Verbund :=
  (V.server.bedienen me a).map fun r => { V with server := r.2 }

def step (V : Verbund) : Ereignis → Option Verbund
  | .runde me pd x => V.runde me pd x
  | .entziehen me pd handle => V.dienst me (.entziehen pd handle)
  | .entzug pd handle =>
      some { V with client := update V.client pd ((V.client pd).entzugVerarbeiten handle).2 }
  | .zweckVerbieten zweck verboten => V.dienst 0 (.zweckVerbieten zweck verboten)
  | .kontingentSetzen zweck grenze => V.dienst 0 (.kontingentSetzen zweck grenze)

/-- The client gives the grant of an entry back: it unmaps first, if it has to. -/
def rueckgabe (me : Tid) (pd : Nat) (e : ClientEintrag) : List Ereignis :=
  (if e.zustand.gemeldet then [.runde me pd (.ausblenden e.handle)] else []) ++
    [.runde me pd (.freigeben e.handle)]

/-- What client and server say of a grant agrees, and the client can get rid of it. -/
structure Einig (V : Verbund) : Prop where
  marke : ∀ pd, ∀ e ∈ (V.client pd).scheine, e.zustand.gemeldet = true ↔
    ∃ slot g, V.server.bestand.slotZuHandle e.handle = some (slot, g) ∧ g.live = true ∧
      g.abgebildet = true
  frei : ∀ pd, ∀ e ∈ (V.client pd).scheine, ∀ me, ∃ W, run step V (rueckgabe me pd e) = some W ∧
    (∀ e' ∈ (W.client pd).scheine, e'.handle ≠ e.handle) ∧
      ∀ g ∈ W.server.bestand.lebende, g.handle ≠ e.handle

def NichtErneut (V : Verbund) : Ereignis → Prop
  | .runde _ pd (.aufloesen handle) => ∀ e ∈ (V.client pd).scheine, e.handle = handle →
      (∃ cpu dev, e.zustand = .abgebildet cpu dev) →
        ∃ slot g, V.server.bestand.Gefunden pd handle slot g ∧ g.entzogen = true
  | _ => True

end Verbund

namespace Bestand

/-- The server has the grant of a record, with the record's length and its mark. -/
def Deckt (b : Bestand) (pd : Nat) (e : ClientEintrag) : Prop :=
  ∃ slot g, b.Gefunden pd e.handle slot g ∧ g.len = e.len ∧ g.abgebildet = e.zustand.gemeldet

end Bestand

structure Gleichlauf (b : Bestand) (pd : Nat) (c : ClientSeite) : Prop where
  eindeutig : c.Eindeutig
  gedeckt : ∀ e ∈ c.scheine, b.Deckt pd e

namespace Gleichlauf

variable {b b' : Bestand} {pd handle i : Nat} {c : ClientSeite} {e e' : ClientEintrag}
  {a : Anfrage} {r : Except SpeicherFehler Antwort}

theorem unbeteiligt (h : Gleichlauf b pd c) (hw : b.Wirkung a r b')
    (hne : ∀ handle, a.schein ≠ some (pd, handle)) : Gleichlauf b' pd c := by
  refine ⟨h.eindeutig, fun e he => ?_⟩
  obtain ⟨slot, g, hg, hlen, hmark⟩ := h.gedeckt e he
  exact ⟨slot, g, hw.bleibt hg (hne _), hlen, hmark⟩

theorem uebrige (h : Gleichlauf b pd c) (hw : b.Wirkung a r b')
    (ha : a.schein = some (pd, handle)) (he : e ∈ c.scheine) (hne : e.handle ≠ handle) :
    b'.Deckt pd e := by
  obtain ⟨slot, g, hg, hlen, hmark⟩ := h.gedeckt e he
  refine ⟨slot, g, hw.bleibt hg ?_, hlen, hmark⟩
  rw [ha]
  rintro heq
  cases heq
  exact hne rfl

theorem getauscht (h : Gleichlauf b pd c) (hw : b.Wirkung a r b')
    (ha : a.schein = some (pd, handle)) (hi : c.finden handle = some (i, e))
    (hhandle : e'.handle = handle) (hd : b'.Deckt pd e') :
    Gleichlauf b' pd (c.setze i (some e')) := by
  obtain ⟨hfach, heq⟩ := ClientSeite.finden_eq_some hi
  obtain ⟨hunique, hmem⟩ := Slots.Unique.exchange h.eindeutig hfach (hhandle.trans heq.symm)
  refine ⟨hunique, fun x hx => ?_⟩
  rcases (hmem x).mp hx with rfl | ⟨hx, hne⟩
  · exact hd
  · exact h.uebrige hw ha hx (heq ▸ hne)

theorem geloescht (h : Gleichlauf b pd c) (hw : b.Wirkung a r b')
    (ha : a.schein = some (pd, handle)) (hi : c.finden handle = some (i, e)) :
    Gleichlauf b' pd (c.setze i none) := by
  obtain ⟨hfach, heq⟩ := ClientSeite.finden_eq_some hi
  obtain ⟨hunique, hmem⟩ := Slots.Unique.clear h.eindeutig hfach
  refine ⟨hunique, fun x hx => ?_⟩
  obtain ⟨hx, hne⟩ := (hmem x).mp hx
  exact h.uebrige hw ha hx (heq ▸ hne)

theorem neu (h : Gleichlauf b pd c) (hw : b.Wirkung a r b') (ha : a.schein = none)
    (hi : c.freienPlatz = some i) (hnew : ∀ x ∈ c.scheine, x.handle ≠ e.handle)
    (hd : b'.Deckt pd e) : Gleichlauf b' pd (c.setze i (some e)) := by
  obtain ⟨hunique, hmem⟩ := Slots.Unique.fill h.eindeutig (Slots.free_of_findIdx? hi) hnew
  refine ⟨hunique, fun x hx => ?_⟩
  rcases (hmem x).mp hx with rfl | hx
  · exact hd
  · exact (h.unbeteiligt hw (by simp [ha])).gedeckt x hx

end Gleichlauf

namespace ClientSeite

variable {c : ClientSeite} {pd handle i : Nat} {e : ClientEintrag} {n : Nachricht} {w : Worte}

theorem bauen_anfrage {x : Anliegen} (h : c.bauen x = .ok n) :
    Protokoll.anfrage pd n = .ok (x.anfrage pd) := by
  cases x with
  | anfordern len zweck =>
    cases h
    simp [Protokoll.anfrage, anfrage, Nachricht.anfordern, artAnfordern,
      ausKennziffer_kennziffer, Anliegen.anfrage]
  | aufloesen handle =>
    simp only [bauen, aufloesen] at h
    split at h
    · cases h
    · split at h
      · cases h
      · cases h
        rfl
  | abbilden handle =>
    simp only [bauen, abbilden] at h
    split at h
    · cases h
    · split at h
      · cases h
        rfl
      · cases h
      · cases h
  | ausblenden handle =>
    simp only [bauen, ausblenden] at h
    split at h
    · cases h
    · split at h
      · cases h
        rfl
      · cases h
        rfl
      · cases h
  | freigeben handle =>
    simp only [bauen, freigeben] at h
    split at h
    · cases h
    · split at h
      · cases h
      · cases h
      · cases h
        rfl

theorem bauen_finden (q : Nat) {x : Anliegen} (h : c.bauen x = .ok n)
    (hx : (x.anfrage q).schein = some (q, handle)) : ∃ i e, c.finden handle = some (i, e) := by
  cases hf : c.finden handle with
  | some p => exact ⟨p.1, p.2, rfl⟩
  | none =>
    cases x with
    | anfordern len zweck => cases hx
    | aufloesen handle =>
      cases hx
      simp [bauen, aufloesen, hf] at h
    | abbilden handle =>
      cases hx
      simp [bauen, abbilden, hf] at h
    | ausblenden handle =>
      cases hx
      simp [bauen, ausblenden, hf] at h
    | freigeben handle =>
      cases hx
      simp [bauen, freigeben, hf] at h

end ClientSeite

namespace Gleichlauf

variable {b : Bestand} {pd handle len i : Nat} {zweck : Zweck} {c : ClientSeite} {e : ClientEintrag}
  {n : Nat}

open Protokoll

theorem anfordern (h : Gleichlauf b pd c) (hgeo : b.Geordnet n) (len : Nat) (zweck : Zweck) :
    Gleichlauf (b.ausfuehren (.anfordern pd len zweck)).2 pd
      (c.buchen (.anfordern len zweck) (antwortWorte (b.ausfuehren (.anfordern pd len zweck)).1)) := by
  have hw := Bestand.ausfuehren_wirkung hgeo (.anfordern pd len zweck)
  have hrund := b.anfordern_bedarf pd len zweck
  generalize (b.ausfuehren (.anfordern pd len zweck)).1 = r at hw hrund ⊢
  generalize (b.ausfuehren (.anfordern pd len zweck)).2 = b' at hw ⊢
  have hsame := h.unbeteiligt hw (by simp [Anfrage.schein])
  -- The reply is entered, or nothing changes at the client.
  rw [ClientSeite.buchen, ClientSeite.antwortAnfordern]
  split
  · exact hsame
  · next hkode =>
    split
    · exact hsame
    · next hbekannt =>
      split
      · exact hsame
      · next platz hplatz =>
        split
        · exact hsame
        · next bedarf hbedarf =>
          have hw' := hw
          cases hw' with
          | abgelehnt a f => exact absurd (fehlerKode_ne_zero f) hkode
          | @vergeben _ _ slot bed off _ freie g buf hv hg =>
            have hnew : c.finden g.handle = none := by
              simpa [antwortWorte] using (not_or.mp hbekannt).2
            have hlen : bed = bedarf := by
              have heq := hrund _ rfl
              rw [hbedarf] at heq
              exact (Option.some.inj heq).symm
            obtain ⟨alt, hslot, -⟩ := hv.frei
            subst hlen hg
            refine h.neu hw rfl hplatz (ClientSeite.finden_eq_none.mp hnew) ⟨slot, _,
              ⟨List.getElem?_set_self (List.getElem?_eq_some_iff.mp hslot).1, rfl, rfl, rfl⟩,
              rfl, rfl⟩

/-- A handle that is not mapped, or is withdrawn, may be resolved. -/
theorem aufloesen (h : Gleichlauf b pd c) (hb : b.Beschriftet) (hgeo : b.Geordnet n)
    (hf : c.finden handle = some (i, e))
    (hok : ∀ slot g, b.Gefunden pd handle slot g → e.zustand.gemeldet = true → g.entzogen = true) :
    Gleichlauf (b.ausfuehren (.aufloesen pd handle)).2 pd
      (c.buchen (.aufloesen handle) (antwortWorte (b.ausfuehren (.aufloesen pd handle)).1)) := by
  obtain ⟨-, rfl⟩ := ClientSeite.finden_eq_some hf
  obtain ⟨slot, g, hg, hlen, hmark⟩ := h.gedeckt e (ClientSeite.finden_mem hf)
  have hw := Bestand.ausfuehren_wirkung hgeo (.aufloesen pd e.handle)
  rw [Bestand.ausfuehren_aufloesen hb hg] at hw ⊢
  simp only [ClientSeite.buchen, ClientSeite.antwortAufloesen, hf]
  by_cases he : g.entzogen = true
  · simp only [if_pos he] at hw ⊢
    exact h.getauscht hw rfl hf rfl ⟨slot, g, hg, hlen, hmark⟩
  · simp only [if_neg he] at hw ⊢
    have hfrei : e.zustand.gemeldet = false :=
      Bool.eq_false_iff.mpr fun hm => he (hok slot g hg hm)
    simp only [antwortWorte, hlen, ne_eq, not_true_eq_false, if_false]
    exact h.getauscht hw rfl hf rfl ⟨slot, g, hg, hlen, hmark.trans hfrei⟩

theorem abbilden (h : Gleichlauf b pd c) (hb : b.Beschriftet) (hgeo : b.Geordnet n)
    (hf : c.finden handle = some (i, e)) {cpu dev : Nat} (hz : e.zustand = .sichtBekannt cpu dev) :
    Gleichlauf (b.ausfuehren (.abbilden pd handle)).2 pd
      (c.buchen (.abbilden handle) (antwortWorte (b.ausfuehren (.abbilden pd handle)).1)) := by
  obtain ⟨-, rfl⟩ := ClientSeite.finden_eq_some hf
  obtain ⟨slot, g, hg, hlen, hmark⟩ := h.gedeckt e (ClientSeite.finden_mem hf)
  have hw := Bestand.ausfuehren_wirkung hgeo (.abbilden pd e.handle)
  rw [Bestand.ausfuehren_abbilden hb hg] at hw ⊢
  rw [hz] at hmark
  simp only [ClientSeite.buchen, ClientSeite.antwortAbbilden, hf]
  by_cases he : g.entzogen = true
  · simp only [if_pos he] at hw ⊢
    exact h.getauscht hw rfl hf rfl ⟨slot, g, hg, hlen, hmark⟩
  · simp only [if_neg he] at hw ⊢
    simp only [antwortWorte, hz]
    exact h.getauscht hw rfl hf rfl ⟨slot, _, hg.setGrant_self rfl rfl hg.live, hlen, rfl⟩

/-- The end of a mapping, entered in the record. -/
theorem ausblenden (h : Gleichlauf b pd c) (hb : b.Beschriftet) (hgeo : b.Geordnet n)
    (hf : c.finden handle = some (i, e)) (hz : e.zustand.gemeldet = true) :
    ∃ e', e'.handle = handle ∧ e'.zustand.gemeldet = false ∧
      c.buchen (.ausblenden handle) (antwortWorte (b.ausfuehren (.ausblenden pd handle)).1) =
        c.setze i (some e') ∧
      Gleichlauf (b.ausfuehren (.ausblenden pd handle)).2 pd (c.setze i (some e')) := by
  obtain ⟨-, rfl⟩ := ClientSeite.finden_eq_some hf
  obtain ⟨slot, g, hg, hlen, hmark⟩ := h.gedeckt e (ClientSeite.finden_mem hf)
  have hw := Bestand.ausfuehren_wirkung hgeo (.ausblenden pd e.handle)
  have hgm : ¬ g.abgebildet = false := by rw [hmark, hz]; decide
  rw [Bestand.ausfuehren_ausblenden hb hg] at hw ⊢
  simp only [if_neg hgm] at hw ⊢
  simp only [ClientSeite.buchen, ClientSeite.antwortAusblenden, hf, antwortWorte]
  have hself : (b.setGrant slot { g with abgebildet := false }).Gefunden pd e.handle slot
      { g with abgebildet := false } := hg.setGrant_self rfl rfl hg.live
  cases hzustand : e.zustand with
  | schein | sichtBekannt cpu dev => simp [hzustand, ClientZustand.gemeldet] at hz
  | abgebildet cpu dev =>
    refine ⟨{ e with zustand := .sichtBekannt cpu dev }, rfl, rfl, rfl, ?_⟩
    exact h.getauscht hw rfl hf rfl ⟨slot, _, hself, hlen, rfl⟩
  | entzogen noch =>
    obtain rfl : noch = true := by simpa [hzustand, ClientZustand.gemeldet] using hz
    refine ⟨{ e with zustand := .entzogen false }, rfl, rfl, rfl, ?_⟩
    exact h.getauscht hw rfl hf rfl ⟨slot, _, hself, hlen, rfl⟩

theorem freigeben (h : Gleichlauf b pd c) (hb : b.Beschriftet) (hgeo : b.Geordnet n)
    (hf : c.finden handle = some (i, e)) (hz : e.zustand.gemeldet = false) :
    c.buchen (.freigeben handle) (antwortWorte (b.ausfuehren (.zurueckgeben pd handle)).1) =
        c.setze i none ∧
      Gleichlauf (b.ausfuehren (.zurueckgeben pd handle)).2 pd (c.setze i none) ∧
      ∀ x ∈ (b.ausfuehren (.zurueckgeben pd handle)).2.lebende, x.handle ≠ handle := by
  obtain ⟨-, rfl⟩ := ClientSeite.finden_eq_some hf
  obtain ⟨slot, g, hg, hlen, hmark⟩ := h.gedeckt e (ClientSeite.finden_mem hf)
  have hw := Bestand.ausfuehren_wirkung hgeo (.zurueckgeben pd e.handle)
  have hgm : ¬ g.abgebildet = true := by rw [hmark, hz]; decide
  rw [Bestand.ausfuehren_zurueckgeben hb hg] at hw ⊢
  simp only [if_neg hgm] at hw ⊢
  simp only [ClientSeite.buchen, ClientSeite.antwortFreigeben, hf, antwortWorte]
  exact ⟨rfl, h.geloescht hw rfl hf, Bestand.nachRueckgabe_weg hb hg⟩

/-- The server withdraws a grant: both marks stay. -/
theorem entziehen (h : Gleichlauf b pd c) (hb : b.Beschriftet) (hgeo : b.Geordnet n)
    (pd' handle : Nat) : Gleichlauf (b.ausfuehren (.entziehen pd' handle)).2 pd c := by
  have hw := Bestand.ausfuehren_wirkung hgeo (.entziehen pd' handle)
  refine ⟨h.eindeutig, fun e he => ?_⟩
  obtain ⟨slot, g, hg, hlen, hmark⟩ := h.gedeckt e he
  by_cases heq : (pd', handle) = (pd, e.handle)
  · cases heq
    rw [Bestand.ausfuehren_entziehen hb hg]
    exact ⟨slot, _, hg.setGrant_self rfl rfl hg.live, hlen, hmark⟩
  · exact ⟨slot, g, hw.bleibt hg fun hsome => heq (Option.some.inj hsome), hlen, hmark⟩

theorem entzug (h : Gleichlauf b pd c) (handle : Nat) :
    Gleichlauf b pd (c.entzugVerarbeiten handle).2 := by
  unfold ClientSeite.entzugVerarbeiten
  cases hf : c.finden handle with
  | none => exact h
  | some p =>
    obtain ⟨-, hhandle⟩ := ClientSeite.finden_eq_some hf
    obtain ⟨slot, g, hg, hlen, hmark⟩ := h.gedeckt p.2 (ClientSeite.finden_mem hf)
    have hw : b.Wirkung (.aufloesen pd handle) (.error .entzogen) b := .abgelehnt _ _
    exact h.getauscht hw rfl hf hhandle ⟨slot, g, hg, hlen, hmark⟩

end Gleichlauf

namespace Verbund

variable {V W : Verbund} {n : Nat} {me : Tid} {pd : Nat} {x : Anliegen} {e : ClientEintrag}

structure Inv (n : Nat) (V : Verbund) : Prop where
  frei : V.server.Frei
  geordnet : V.server.bestand.Geordnet n
  beschriftet : V.server.bestand.Beschriftet
  gleichlauf : ∀ pd, Gleichlauf V.server.bestand pd (V.client pd)

theorem runde_eq (h : V.Inv n) {m : Nachricht} (hx : (V.client pd).bauen x = .ok m) (me : Tid) :
    ∃ s, V.runde me pd x = some ⟨s, update V.client pd ((V.client pd).buchen x
        (Protokoll.antwortWorte (V.server.bestand.ausfuehren (x.anfrage pd)).1))⟩ ∧
      s.Frei ∧ s.bestand = (V.server.bestand.ausfuehren (x.anfrage pd)).2 := by
  obtain ⟨s, hs, hfrei, hbestand⟩ :=
    Protokoll.bedienen_eq h.frei me (ClientSeite.bauen_anfrage hx)
  refine ⟨s, ?_, hfrei, hbestand⟩
  rw [runde, hx]
  simp only [hs, Option.map_some]

theorem Inv.runde (h : V.Inv n) (me : Tid) {m : Nachricht} (hx : (V.client pd).bauen x = .ok m)
    (hself : Gleichlauf (V.server.bestand.ausfuehren (x.anfrage pd)).2 pd
      ((V.client pd).buchen x
        (Protokoll.antwortWorte (V.server.bestand.ausfuehren (x.anfrage pd)).1))) :
    ∃ W, V.runde me pd x = some W ∧ W.Inv n := by
  obtain ⟨s, hs, hfrei, hbestand⟩ := runde_eq h hx me
  have hw := Bestand.ausfuehren_wirkung h.geordnet (x.anfrage pd)
  rw [← hbestand] at hw hself
  refine ⟨_, hs, hfrei, h.geordnet.wirkung hw, h.beschriftet.wirkung hw, fun q => ?_⟩
  dsimp only
  by_cases hq : q = pd
  · subst hq
    rw [update_self]
    exact hself
  · rw [update_of_ne hq]
    refine (h.gleichlauf q).unbeteiligt hw fun handle hsome => ?_
    cases x <;> cases hsome <;> exact hq rfl

theorem Inv.dienst (h : V.Inv n) (me : Tid) (a : Anfrage)
    (hself : ∀ pd, Gleichlauf (V.server.bestand.ausfuehren a).2 pd (V.client pd)) :
    ∃ W, V.dienst me a = some W ∧ W.Inv n := by
  obtain ⟨s, hs, hfrei, hbestand⟩ := MemoryServer.bedienen_eq h.frei me a
  have hw := Bestand.ausfuehren_wirkung h.geordnet a
  rw [← hbestand] at hw hself
  exact ⟨_, by rw [Verbund.dienst, hs]; rfl, hfrei, h.geordnet.wirkung hw,
    h.beschriftet.wirkung hw, hself⟩

theorem start_inv {cpuBasis devBasis : Nat} {s : MemoryServer}
    (h : MemoryServer.neu cpuBasis devBasis n = some s) : (start s).Inv n := by
  obtain ⟨-, hfrei, hgeo, -, -, g, hlive, hhandle, -, -⟩ := MemoryServer.neu_eq_some h
  refine ⟨hfrei, hgeo, MemoryServer.neu_beschriftet h, fun pd => ⟨ClientSeite.neu_eindeutig, ?_⟩⟩
  intro e he
  cases he

/-- Every step is answered; a step that resolves no mapped handle keeps the records in line. -/
theorem Inv.step (h : V.Inv n) (op : Ereignis) (hok : V.NichtErneut op) :
    ∃ W, V.step op = some W ∧ W.Inv n := by
  cases op with
  | entziehen me pd handle =>
    exact h.dienst me _ fun q => (h.gleichlauf q).entziehen h.beschriftet h.geordnet pd handle
  | zweckVerbieten zweck verboten =>
    have hw := Bestand.ausfuehren_wirkung h.geordnet (.zweckVerbieten zweck verboten)
    exact h.dienst 0 _ fun q => (h.gleichlauf q).unbeteiligt hw (by simp [Anfrage.schein])
  | kontingentSetzen zweck grenze =>
    have hw := Bestand.ausfuehren_wirkung h.geordnet (.kontingentSetzen zweck grenze)
    exact h.dienst 0 _ fun q => (h.gleichlauf q).unbeteiligt hw (by simp [Anfrage.schein])
  | entzug pd handle =>
    refine ⟨_, rfl, h.frei, h.geordnet, h.beschriftet, fun q => ?_⟩
    by_cases hq : q = pd
    · subst hq
      simpa using (h.gleichlauf q).entzug handle
    · simpa [update_of_ne hq] using h.gleichlauf q
  | runde me pd x =>
    cases hx : (V.client pd).bauen x with
    | error f => exact ⟨V, by rw [Verbund.step, Verbund.runde, hx], h⟩
    | ok m =>
      have hgl := h.gleichlauf pd
      refine h.runde me hx ?_
      cases x with
      | anfordern len zweck => exact hgl.anfordern h.geordnet len zweck
      | aufloesen handle =>
        obtain ⟨i, e, hf⟩ := ClientSeite.bauen_finden pd hx rfl
        refine hgl.aufloesen h.beschriftet h.geordnet hf fun slot g hg hz => ?_
        simp only [ClientSeite.bauen, ClientSeite.aufloesen, hf] at hx
        have hzustand : ∃ cpu dev, e.zustand = .abgebildet cpu dev := by
          cases hz' : e.zustand with
          | schein => simp [hz', ClientZustand.gemeldet] at hz
          | sichtBekannt => simp [hz', ClientZustand.gemeldet] at hz
          | abgebildet cpu dev => exact ⟨cpu, dev, rfl⟩
          | entzogen noch => simp [hz'] at hx
        obtain ⟨slot', g', hg', he⟩ := hok e (ClientSeite.finden_mem hf)
          (ClientSeite.finden_eq_some hf).2 hzustand
        obtain ⟨-, rfl⟩ := h.beschriftet.slot_eq hg hg'
        exact he
      | abbilden handle =>
        obtain ⟨i, e, hf⟩ := ClientSeite.bauen_finden pd hx rfl
        simp only [ClientSeite.bauen, ClientSeite.abbilden, hf] at hx
        cases hz : e.zustand with
        | sichtBekannt cpu dev => exact hgl.abbilden h.beschriftet h.geordnet hf hz
        | schein => simp [hz] at hx
        | abgebildet => simp [hz] at hx
        | entzogen => simp [hz] at hx
      | ausblenden handle =>
        obtain ⟨i, e, hf⟩ := ClientSeite.bauen_finden pd hx rfl
        simp only [ClientSeite.bauen, ClientSeite.ausblenden, hf] at hx
        have hz : e.zustand.gemeldet = true := by
          split at hx
          · next hz => rw [hz]; rfl
          · next hz => rw [hz]; rfl
          · cases hx
        obtain ⟨e', -, -, heq, hnew⟩ := hgl.ausblenden h.beschriftet h.geordnet hf hz
        exact heq ▸ hnew
      | freigeben handle =>
        obtain ⟨i, e, hf⟩ := ClientSeite.bauen_finden pd hx rfl
        simp only [ClientSeite.bauen, ClientSeite.freigeben, hf] at hx
        have hz : e.zustand.gemeldet = false := by
          cases hz : e.zustand with
          | schein => rfl
          | sichtBekannt => rfl
          | abgebildet => simp [hz] at hx
          | entzogen noch =>
            cases noch with
            | false => rfl
            | true => simp [hz] at hx
        obtain ⟨heq, hnew, -⟩ := hgl.freigeben h.beschriftet h.geordnet hf hz
        exact heq ▸ hnew

/-- What is not mapped goes back in one round. -/
theorem Inv.freigeben (h : V.Inv n) (he : e ∈ (V.client pd).scheine)
    (hz : e.zustand.gemeldet = false) (me : Tid) :
    ∃ W, V.step (.runde me pd (.freigeben e.handle)) = some W ∧
      (∀ e' ∈ (W.client pd).scheine, e'.handle ≠ e.handle) ∧
        ∀ g ∈ W.server.bestand.lebende, g.handle ≠ e.handle := by
  obtain ⟨i, hf, hfach⟩ := ClientSeite.finden_of_mem (h.gleichlauf pd).eindeutig he
  have hx : (V.client pd).bauen (.freigeben e.handle) = .ok (.freigeben e.handle) := by
    simp only [ClientSeite.bauen, ClientSeite.freigeben, hf]
    cases hzustand : e.zustand with
    | schein | sichtBekannt => rfl
    | abgebildet => simp [hzustand, ClientZustand.gemeldet] at hz
    | entzogen noch =>
      obtain rfl : noch = false := by simpa [hzustand, ClientZustand.gemeldet] using hz
      rfl
  obtain ⟨hbuchen, hself, hweg⟩ :=
    (h.gleichlauf pd).freigeben h.beschriftet h.geordnet hf hz
  obtain ⟨s, hs, -, hbestand⟩ := runde_eq h hx me
  refine ⟨_, hs, fun e' he' => ?_, hbestand ▸ hweg⟩
  dsimp only at he'
  rw [update_self, Anliegen.anfrage, hbuchen] at he'
  exact (((h.gleichlauf pd).eindeutig.clear hfach).2 e').mp he' |>.2

theorem Inv.einig (h : V.Inv n) : V.Einig := by
  refine ⟨fun pd e he => ?_, fun pd e he me => ?_⟩
  · obtain ⟨slot, g, hg, -, hmark⟩ := (h.gleichlauf pd).gedeckt e he
    have hfind := Bestand.slotZuHandle_of_gefunden h.beschriftet hg
    rw [← hmark]
    constructor
    · exact fun hm => ⟨slot, g, hfind, hg.live, hm⟩
    · rintro ⟨slot', g', hfind', -, hm⟩
      rw [hfind] at hfind'
      cases hfind'
      exact hm
  · cases hz : e.zustand.gemeldet with
    | false =>
      obtain ⟨W, hstep, hweg, hfrei⟩ := h.freigeben he hz me
      refine ⟨W, ?_, hweg, hfrei⟩
      rw [rueckgabe, hz]
      exact run_cons_of_step hstep []
    | true =>
      obtain ⟨i, hf, hfach⟩ := ClientSeite.finden_of_mem (h.gleichlauf pd).eindeutig he
      have hx : (V.client pd).bauen (.ausblenden e.handle) = .ok (.ausblenden e.handle) := by
        simp only [ClientSeite.bauen, ClientSeite.ausblenden, hf]
        cases hzustand : e.zustand with
        | schein => simp [hzustand, ClientZustand.gemeldet] at hz
        | sichtBekannt => simp [hzustand, ClientZustand.gemeldet] at hz
        | abgebildet => rfl
        | entzogen noch =>
          obtain rfl : noch = true := by simpa [hzustand, ClientZustand.gemeldet] using hz
          rfl
      obtain ⟨e₁, hhandle, hz₁, hbuchen, hself⟩ :=
        (h.gleichlauf pd).ausblenden h.beschriftet h.geordnet hf hz
      obtain ⟨s, hs, -, -⟩ := runde_eq h hx me
      obtain ⟨V₁, hstep₁, hinv₁⟩ := h.runde me hx (hbuchen ▸ hself)
      have he₁ : e₁ ∈ (V₁.client pd).scheine := by
        cases (hs.symm.trans hstep₁)
        dsimp only
        rw [update_self, Anliegen.anfrage, hbuchen]
        exact (((h.gleichlauf pd).eindeutig.exchange hfach hhandle).2 e₁).mpr (.inl rfl)
      obtain ⟨W, hstep, hweg, hfrei⟩ := hinv₁.freigeben he₁ hz₁ me
      rw [hhandle] at hstep hweg hfrei
      refine ⟨W, ?_, hweg, hfrei⟩
      rw [rueckgabe, hz]
      exact (run_cons_of_step hstep₁ _).trans (run_cons_of_step hstep [])

theorem Inv.not_einig (h : V.Inv n) (op : Ereignis) (hnot : ¬ V.NichtErneut op) :
    ∃ W, V.step op = some W ∧ ¬ W.Einig := by
  cases op with
  | entziehen | zweckVerbieten | kontingentSetzen | entzug => exact absurd trivial hnot
  | runde me pd x =>
    cases x with
    | anfordern | abbilden | ausblenden | freigeben => exact absurd trivial hnot
    | aufloesen handle =>
      simp only [NichtErneut, not_forall, not_exists, not_and] at hnot
      obtain ⟨e, he, rfl, ⟨cpu, dev, hz⟩, hlebt⟩ := hnot
      obtain ⟨slot, g, hg, hlen, hmark⟩ := (h.gleichlauf pd).gedeckt e he
      obtain ⟨i, hf, hfach⟩ := ClientSeite.finden_of_mem (h.gleichlauf pd).eindeutig he
      have hx : (V.client pd).bauen (.aufloesen e.handle) = .ok (.aufloesen e.handle) := by
        simp only [ClientSeite.bauen, ClientSeite.aufloesen, hf, hz]
      obtain ⟨s, hs, -, hbestand⟩ := runde_eq h hx me
      refine ⟨_, hs, fun heinig => ?_⟩
      rw [Anliegen.anfrage, Bestand.ausfuehren_aufloesen h.beschriftet hg,
        if_neg (hlebt slot g hg)] at hbestand
      -- The reply makes the record one of a grant that is not mapped.
      let e' : ClientEintrag := { e with zustand := .sichtBekannt g.cpu g.dev }
      have hmem : e' ∈ (update V.client pd ((V.client pd).buchen
          (.aufloesen e.handle) (Protokoll.antwortWorte (V.server.bestand.ausfuehren
            (.aufloesen pd e.handle)).1)) pd).scheine := by
        rw [update_self, Bestand.ausfuehren_aufloesen h.beschriftet hg,
          if_neg (hlebt slot g hg)]
        simp only [ClientSeite.buchen, ClientSeite.antwortAufloesen, hf,
          Protokoll.antwortWorte, hlen, ne_eq, not_true_eq_false, if_false]
        exact (((h.gleichlauf pd).eindeutig.exchange (b := e') hfach rfl).2 e').mpr (.inl rfl)
      have hmapped := (heinig.marke pd e' hmem).mpr ⟨slot, g, ?_, hg.live, ?_⟩
      · cases hmapped
      · dsimp only
        rw [hbestand]
        exact Bestand.slotZuHandle_of_gefunden h.beschriftet hg
      · rw [hmark, hz]
        rfl

/-- For every server and every order of rounds and withdrawals: client and server agree after
each prefix, and every grant can be given back, exactly if no client resolves a handle again that
it has mapped and the server has not withdrawn. -/
theorem run_einig_iff {cpuBasis devBasis : Nat} {s : MemoryServer}
    (h : MemoryServer.neu cpuBasis devBasis n = some s) (ops : List Ereignis) :
    (∀ xs, xs <+: ops → ∃ W, run step (start s) xs = some W ∧ W.Einig) ↔
      Admissible step NichtErneut (start s) ops :=
  forall_prefix_iff_admissible (fun _ hV => hV.einig) (fun _ op hV hok => hV.step op hok)
    (fun _ op hV hnot => hV.not_einig op hnot) (start_inv h) ops

def erneutAufloesen : List Ereignis :=
  [.runde 1 2 (.anfordern 4096 .allgemein), .runde 1 2 (.aufloesen 0x200000001),
    .runde 1 2 (.abbilden 0x200000001), .runde 1 2 (.aufloesen 0x200000001)]

theorem run_einig_iff_erneut : ∃ s, MemoryServer.neu 0x40000000 0x10000000 0x200000 = some s ∧
    ((∀ xs, xs <+: erneutAufloesen → ∃ W, run step (start s) xs = some W ∧ W.Einig) ↔
      Admissible step NichtErneut (start s) erneutAufloesen) := by
  have hneu : ∃ s, MemoryServer.neu 0x40000000 0x10000000 0x200000 = some s := ⟨_, rfl⟩
  obtain ⟨s, hs⟩ := hneu
  exact ⟨s, hs, run_einig_iff hs erneutAufloesen⟩

/-- The server keeps the mark, the client does not.  If the grant is withdrawn now, the client
does not report the end of the mapping, and the server does not take the grant back. -/
theorem run_erneut_blockiert : ∃ s W,
    MemoryServer.neu 0x40000000 0x10000000 0x200000 = some s ∧
      run step (start s) erneutAufloesen = some W ∧ ¬ W.Einig ∧
      ∃ U, run step W [.entziehen 1 2 0x200000001, .runde 1 2 (.abbilden 0x200000001),
          .runde 1 2 (.ausblenden 0x200000001), .runde 1 2 (.freigeben 0x200000001)] = some U ∧
        (U.client 2).scheine = [⟨0x200000001, 4096, .entzogen false⟩] ∧
        U.server.bestand.lebende.any (fun g => g.handle == 0x200000001 && g.abgebildet) := by
  have hrun : ∃ s W, MemoryServer.neu 0x40000000 0x10000000 0x200000 = some s ∧
      run step (start s) erneutAufloesen = some W := ⟨_, _, rfl, rfl⟩
  obtain ⟨s, W, hs, hW⟩ := hrun
  refine ⟨s, W, hs, hW, fun heinig => ?_, ?_⟩
  · cases hs
    cases hW
    have hmark := heinig.marke 2 ⟨0x200000001, 4096, .sichtBekannt 0x40001000 0x10001000⟩
      (by decide)
    have hset := hmark.mpr ⟨1, _, rfl, rfl, rfl⟩
    cases hset
  · cases hs
    cases hW
    exact ⟨_, rfl, rfl, rfl⟩

end Verbund

end Caprock.MemServer
