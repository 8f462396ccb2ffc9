import Caprock.Lib.KeyedSlots
import Caprock.MemServer.Protocol

/-! # Capabilities for grants

The server domain holds its arena as one memory capability.  For a grant the lender derives a
part of it, and withdraws the part when the grant goes back.  The books of the server, the table
of the lender and the capabilities of the kernel are three states, changed one after the other.

The kernel is a parameter that may refuse any call; a refused call changes nothing.
-/

namespace Caprock.MemServer

open Execution Ranges
open Caprock.Wait (Tid)

inductive CsubFehler where
  | badCap
  | noSpace
  | subregion
  deriving DecidableEq, Repr

inductive GrantCapFehler where
  | server (f : SpeicherFehler)
  | csub (f : CsubFehler)
  deriving DecidableEq, Repr

/-- Rights as a mask: 1 is read, 2 is write, 4 is execute. -/
abbrev CsubRechte := Nat

def quelleRechte : CsubRechte := 3

structure CsubCap where
  zielSlot : Nat
  offset : Nat
  len : Nat
  rechte : CsubRechte
  deriving DecidableEq, Repr

def CsubCap.bereich (c : CsubCap) : Range := (c.offset, c.len)

/-- The kernel's part: `ableiten`, `einziehen`, `cap_ist_live`. -/
structure CsubBackend (β : Type) where
  ableiten : β → (quellSlot zielSlot offset len : Nat) → CsubRechte → Except CsubFehler CsubCap × β
  einziehen : β → Nat → Except CsubFehler Unit × β
  capIstLive : β → Nat → Bool
  /-- A part goes into a slot that is empty, and is the window that was asked for. -/
  ableiten_ok : ∀ k q z o l r cap k', ableiten k q z o l r = (.ok cap, k') →
    cap.zielSlot = z ∧ cap.bereich = (o, l) ∧ capIstLive k z = false ∧
      ∀ x, capIstLive k' x = if x = z then true else capIstLive k x
  einziehen_ok : ∀ k z k', einziehen k z = (.ok (), k') →
    ∀ x, capIstLive k' x = if x = z then false else capIstLive k x
  ableiten_error : ∀ k q z o l r f k', ableiten k q z o l r = (.error f, k') →
    ∀ x, capIstLive k' x = capIstLive k x
  einziehen_error : ∀ k z f k', einziehen k z = (.error f, k') →
    ∀ x, capIstLive k' x = capIstLive k x

structure GrantCapEintrag where
  handle : Nat
  quellePd : Nat
  cap : CsubCap
  eingezogen : Bool
  deriving DecidableEq, Repr

/-- `CsubVerleiher`. -/
structure Verleiher (β : Type) where
  backend : β
  eintraege : List (Option GrantCapEintrag)
  fach : eintraege.length = maxGrants

namespace Verleiher

variable {β : Type}

def neu (backend : β) : Verleiher β :=
  ⟨backend, List.replicate maxGrants none, List.length_replicate⟩

/-- `finden`, with the entry that every caller reads from the place. -/
def finden (v : Verleiher β) (handle : Nat) : Option (Nat × GrantCapEintrag) :=
  Slots.find GrantCapEintrag.handle v.eintraege handle

def freienPlatz (v : Verleiher β) : Option Nat := Slots.freePlace v.eintraege

def setze (v : Verleiher β) (i : Nat) (e : Option GrantCapEintrag) : Verleiher β :=
  { v with eintraege := v.eintraege.set i e, fach := by rw [List.length_set]; exact v.fach }

def buecher (v : Verleiher β) : List GrantCapEintrag := v.eintraege.reduceOption

variable (K : CsubBackend β)

def ableiten (v : Verleiher β) (pd handle quellSlot zielSlot : Nat) (sicht : GrantSicht)
    (wunsch : CsubRechte) : Except GrantCapFehler CsubCap × Verleiher β :=
  match K.ableiten v.backend quellSlot zielSlot sicht.offset sicht.len (quelleRechte &&& wunsch) with
  | (.error f, k) => (.error (.csub f), { v with backend := k })
  | (.ok cap, k) =>
      match v.freienPlatz with
      | none => (.error (.csub .noSpace), { v with backend := k })
      | some platz => (.ok cap, { v with backend := k }.setze platz (some ⟨handle, pd, cap, false⟩))

/-- `ableiten_fuer_grant`; `none` is a caller that would park at the server's lock. -/
def ableitenFuerGrant (v : Verleiher β) (s : MemoryServer) (me : Tid)
    (pd handle quellSlot zielSlot : Nat) (wunsch : CsubRechte) :
    Option (Except GrantCapFehler CsubCap × Verleiher β × MemoryServer) :=
  (s.aufloesen me pd handle).map fun (r, s) =>
    match r with
    | .error f => (.error (.server f), v, s)
    | .ok sicht =>
        match v.finden handle with
        | none =>
            let (r, v) := v.ableiten K pd handle quellSlot zielSlot sicht wunsch
            (r, v, s)
        | some (i, e) =>
            if e.eingezogen = false then (.error (.csub .noSpace), v, s)
            else
              let (r, v) := (v.setze i none).ableiten K pd handle quellSlot zielSlot sicht wunsch
              (r, v, s)

def revoke (v : Verleiher β) (handle : Nat) : Except GrantCapFehler Unit × Verleiher β :=
  match v.finden handle with
  | none => (.ok (), v)
  | some (i, e) =>
      if e.eingezogen then (.ok (), v)
      else
        match K.einziehen v.backend e.cap.zielSlot with
        | (.error f, k) => (.error (.csub f), { v with backend := k })
        | (.ok (), k) =>
            (.ok (), { v with backend := k }.setze i (some { e with eingezogen := true }))

/-- `freigeben_mit_revoke`: the server first. -/
def freigebenMitRevoke (v : Verleiher β) (s : MemoryServer) (me : Tid) (pd handle : Nat) :
    Option (Except GrantCapFehler Unit × Verleiher β × MemoryServer) :=
  (s.zurueckgeben me pd handle).map fun (r, s) =>
    match r with
    | .error f => (.error (.server f), v, s)
    | .ok () =>
        let (r, v) := v.revoke K handle
        (r, v, s)

def entzugMitRevoke (v : Verleiher β) (s : MemoryServer) (me : Tid) (pd handle : Nat) :
    Option (Except GrantCapFehler Unit × Verleiher β × MemoryServer) :=
  (s.entziehen me pd handle).map fun (r, s) =>
    match r with
    | .error f => (.error (.server f), v, s)
    | .ok () =>
        let (r, v) := v.revoke K handle
        (r, v, s)

end Verleiher

structure Leihe (β : Type) where
  server : MemoryServer
  verleiher : Verleiher β

inductive Leihvorgang where
  | anfordern (me : Tid) (pd len : Nat) (zweck : Zweck)
  | abbilden (me : Tid) (pd handle : Nat)
  | ausblenden (me : Tid) (pd handle : Nat)
  | ableiten (me : Tid) (pd handle quellSlot zielSlot : Nat) (wunsch : CsubRechte)
  | freigeben (me : Tid) (pd handle : Nat)
  | entzug (me : Tid) (pd handle : Nat)
  deriving DecidableEq, Repr

namespace Leihe

variable {β : Type} (K : CsubBackend β)

def start (s : MemoryServer) (k : β) : Leihe β := ⟨s, .neu k⟩

def dienst (L : Leihe β) (me : Tid) (a : Anfrage) : Option (Leihe β) :=
  (L.server.bedienen me a).map fun r => { L with server := r.2 }

def step (L : Leihe β) : Leihvorgang → Option (Leihe β)
  | .anfordern me pd len zweck => L.dienst me (.anfordern pd len zweck)
  | .abbilden me pd handle => L.dienst me (.abbilden pd handle)
  | .ausblenden me pd handle => L.dienst me (.ausblenden pd handle)
  | .ableiten me pd handle quellSlot zielSlot wunsch =>
      (L.verleiher.ableitenFuerGrant K L.server me pd handle quellSlot zielSlot wunsch).map
        fun r => ⟨r.2.2, r.2.1⟩
  | .freigeben me pd handle =>
      (L.verleiher.freigebenMitRevoke K L.server me pd handle).map fun r => ⟨r.2.2, r.2.1⟩
  | .entzug me pd handle =>
      (L.verleiher.entzugMitRevoke K L.server me pd handle).map fun r => ⟨r.2.2, r.2.1⟩

/-- Every live derived capability is recorded under the handle of a live grant, and lies in it;
so it is neither free nor granted anew. -/
structure Gesichert (L : Leihe β) : Prop where
  verbucht : ∀ z, K.capIstLive L.verleiher.backend z = true →
    ∃ e ∈ L.verleiher.buecher, e.cap.zielSlot = z ∧ e.eingezogen = false ∧
      ∃ g ∈ L.server.bestand.lebende, g.handle = e.handle ∧ g.pd = e.quellePd ∧
        g.bereich = e.cap.bereich
  belegt : ∀ e ∈ L.verleiher.buecher, e.eingezogen = false →
    Disjoint (addrs e.cap.bereich) (cover L.server.bestand.freie.bereiche)
  neuvergabe : ∀ e ∈ L.verleiher.buecher, e.eingezogen = false → ∀ me pd len zweck x s,
    L.server.anfordernMitZweck me pd len zweck = some (.ok x, s) →
      Disjoint (addrs (x.offset, x.len)) (addrs e.cap.bereich)

/-- The server resolves the handle, no capability of the grant is out, and the backend derives
one. -/
structure Ableitbar (L : Leihe β) (pd handle quellSlot zielSlot : Nat) (wunsch : CsubRechte)
    (cap : CsubCap) : Prop where
  sicht : ∃ slot g, L.server.bestand.Gefunden pd handle slot g ∧ g.entzogen = false ∧
    ∃ k, K.ableiten L.verleiher.backend quellSlot zielSlot g.offset g.len (quelleRechte &&& wunsch) =
      (.ok cap, k)
  keine : ∀ e ∈ L.verleiher.buecher, e.handle = handle → e.eingezogen = true

def Gelingt (L : Leihe β) : Leihvorgang → Prop
  | .ableiten me pd handle quellSlot zielSlot wunsch => ∀ cap,
      L.Ableitbar K pd handle quellSlot zielSlot wunsch cap →
        ∃ v s, L.verleiher.ableitenFuerGrant K L.server me pd handle quellSlot zielSlot wunsch =
          some (.ok cap, v, s)
  | _ => True

/-- No withdrawal is refused after the server took the grant back, and a derivation finds a
place in the table. -/
def Bedingung (L : Leihe β) : Leihvorgang → Prop
  | .freigeben _ pd handle => ∀ p, L.server.bestand.rueckgabePruefen pd handle = .ok p →
      ∀ e ∈ L.verleiher.buecher, e.handle = handle → e.eingezogen = false →
        (K.einziehen L.verleiher.backend e.cap.zielSlot).1 = .ok ()
  | .ableiten _ pd handle quellSlot zielSlot wunsch => ∀ cap,
      L.Ableitbar K pd handle quellSlot zielSlot wunsch cap →
        (∃ e ∈ L.verleiher.buecher, e.handle = handle) ∨ L.verleiher.buecher.length < maxGrants
  | _ => True

end Leihe

structure Buch (lebt : Nat → Bool) (l : List (Option GrantCapEintrag)) (b : Bestand) : Prop where
  eindeutig : Slots.Unique GrantCapEintrag.handle l
  gedeckt : ∀ e ∈ l.reduceOption, e.eingezogen = false → lebt e.cap.zielSlot = true ∧
    ∃ slot g, b.Gefunden e.quellePd e.handle slot g ∧ g.bereich = e.cap.bereich
  verbucht : ∀ z, lebt z = true → ∃ e ∈ l.reduceOption, e.cap.zielSlot = z ∧ e.eingezogen = false
  slots : ∀ e ∈ l.reduceOption, ∀ e' ∈ l.reduceOption, e.cap.zielSlot = e'.cap.zielSlot →
    e.eingezogen = false → e'.eingezogen = false → e = e'

namespace Buch

variable {lebt lebt' : Nat → Bool} {l : List (Option GrantCapEintrag)} {b b' : Bestand} {i : Nat}
  {e : GrantCapEintrag} {a : Anfrage} {r : Except SpeicherFehler Antwort}

theorem congr (h : Buch lebt l b) (hlebt : ∀ z, lebt' z = lebt z) : Buch lebt' l b := by
  obtain rfl : lebt' = lebt := funext hlebt
  exact h

theorem wirkung (h : Buch lebt l b) (hb : b.Beschriftet) (hw : b.Wirkung a r b')
    (hne : ∀ e ∈ l.reduceOption, e.eingezogen = false → a ≠ .zurueckgeben e.quellePd e.handle) :
    Buch lebt l b' := by
  refine ⟨h.eindeutig, fun e he hfrei => ?_, h.verbucht, h.slots⟩
  obtain ⟨hlebt, slot, g, hg, hbereich⟩ := h.gedeckt e he hfrei
  obtain ⟨g', hg', hgleich⟩ := hw.bereich hb hg (hne e he hfrei)
  exact ⟨hlebt, slot, g', hg', hgleich.trans hbereich⟩

theorem weg (h : Buch lebt l b) (hi : l[i]? = some (some e)) (he : e.eingezogen = true) :
    Buch lebt (l.set i none) b := by
  obtain ⟨hunique, hmem⟩ := h.eindeutig.clear hi
  refine ⟨hunique, fun x hx => h.gedeckt x ((hmem x).mp hx).1, fun z hz => ?_, fun x hx y hy =>
    h.slots x ((hmem x).mp hx).1 y ((hmem y).mp hy).1⟩
  obtain ⟨x, hx, hslot, hfrei⟩ := h.verbucht z hz
  refine ⟨x, (hmem x).mpr ⟨hx, fun hk => ?_⟩, hslot, hfrei⟩
  have heq := h.eindeutig.eq_of_key hx (Slots.mem_of_getElem? hi) hk
  rw [heq, he] at hfrei
  cases hfrei

/-- A derived capability is entered. -/
theorem neu (h : Buch lebt l b) (hi : l[i]? = some none) (hnew : ∀ x ∈ l.reduceOption, x.handle ≠ e.handle)
    (he : e.eingezogen = false) (hleer : lebt e.cap.zielSlot = false)
    (hlebt : ∀ x, lebt' x = if x = e.cap.zielSlot then true else lebt x)
    (hg : ∃ slot g, b.Gefunden e.quellePd e.handle slot g ∧ g.bereich = e.cap.bereich) :
    Buch lebt' (l.set i (some e)) b := by
  obtain ⟨hunique, hmem⟩ := h.eindeutig.fill hi hnew
  -- The slot was empty, so no entry before this one has it.
  have hfremd : ∀ x ∈ l.reduceOption, x.eingezogen = false → x.cap.zielSlot ≠ e.cap.zielSlot := by
    intro x hx hfrei heq
    have hx' := (h.gedeckt x hx hfrei).1
    rw [heq, hleer] at hx'
    cases hx'
  refine ⟨hunique, fun x hx hfrei => ?_, fun z hz => ?_, fun x hx y hy heq hxf hyf => ?_⟩
  · rcases (hmem x).mp hx with rfl | hx
    · exact ⟨by rw [hlebt, if_pos rfl], hg⟩
    · obtain ⟨hlive, hgrant⟩ := h.gedeckt x hx hfrei
      exact ⟨by rw [hlebt, if_neg (hfremd x hx hfrei), hlive], hgrant⟩
  · by_cases hz' : z = e.cap.zielSlot
    · exact ⟨e, (hmem e).mpr (.inl rfl), hz'.symm, he⟩
    · rw [hlebt, if_neg hz'] at hz
      obtain ⟨x, hx, hslot, hfrei⟩ := h.verbucht z hz
      exact ⟨x, (hmem x).mpr (.inr hx), hslot, hfrei⟩
  · rcases (hmem x).mp hx with rfl | hx'
    · rcases (hmem y).mp hy with rfl | hy'
      · rfl
      · exact absurd heq.symm (hfremd y hy' hyf)
    · rcases (hmem y).mp hy with rfl | hy'
      · exact absurd heq (hfremd x hx' hxf)
      · exact h.slots x hx' y hy' heq hxf hyf

theorem eingezogen (h : Buch lebt l b) (hi : l[i]? = some (some e)) (he : e.eingezogen = false)
    (hlebt : ∀ x, lebt' x = if x = e.cap.zielSlot then false else lebt x) :
    Buch lebt' (l.set i (some { e with eingezogen := true })) b := by
  obtain ⟨hunique, hmem⟩ := h.eindeutig.exchange (b := { e with eingezogen := true }) hi rfl
  have halt := Slots.mem_of_getElem? hi
  -- An entry that is still out is an old one, and has another slot.
  have hold : ∀ x ∈ (l.set i (some { e with eingezogen := true })).reduceOption,
      x.eingezogen = false → x ∈ l.reduceOption ∧ x.cap.zielSlot ≠ e.cap.zielSlot := by
    intro x hx hfrei
    rcases (hmem x).mp hx with rfl | ⟨hx, hne⟩
    · cases hfrei
    · exact ⟨hx, fun heq => hne (congrArg GrantCapEintrag.handle (h.slots x hx e halt heq hfrei he))⟩
  refine ⟨hunique, fun x hx hfrei => ?_, fun z hz => ?_, fun x hx y hy heq hxf hyf => ?_⟩
  · obtain ⟨hx, hne⟩ := hold x hx hfrei
    obtain ⟨hlive, hgrant⟩ := h.gedeckt x hx hfrei
    exact ⟨by rw [hlebt, if_neg hne, hlive], hgrant⟩
  · rw [hlebt] at hz
    by_cases hz' : z = e.cap.zielSlot
    · rw [if_pos hz'] at hz
      cases hz
    · rw [if_neg hz'] at hz
      obtain ⟨x, hx, hslot, hfrei⟩ := h.verbucht z hz
      refine ⟨x, (hmem x).mpr (.inr ⟨hx, fun hk => hz' ?_⟩), hslot, hfrei⟩
      rw [← hslot, h.eindeutig.eq_of_key hx halt hk]
  · exact h.slots x (hold x hx hxf).1 y (hold y hy hyf).1 heq hxf hyf

end Buch

namespace Verleiher

variable {β : Type} {K : CsubBackend β} {v : Verleiher β} {b : Bestand} {pd handle slot i : Nat}
  {g : Grant} {e : GrantCapEintrag}

/-- `Buch` of a lender. -/
def Stimmt (K : CsubBackend β) (v : Verleiher β) (b : Bestand) : Prop :=
  Buch (K.capIstLive v.backend) v.eintraege b

theorem finden_eq_some (h : v.finden handle = some (i, e)) :
    v.eintraege[i]? = some (some e) ∧ e.handle = handle := Slots.find_eq_some h

theorem finden_eq_none : v.finden handle = none ↔ ∀ e ∈ v.buecher, e.handle ≠ handle :=
  Slots.find_eq_none

theorem freienPlatz_eq_none : v.freienPlatz = none ↔ v.buecher.length = maxGrants := by
  rw [freienPlatz, Slots.freePlace_eq_none, v.fach]
  exact eq_comm

theorem freienPlatz_setze_none (hi : v.eintraege[i]? = some (some e)) :
    (v.setze i none).freienPlatz ≠ none := by
  intro hvoll
  have hlen := (Slots.perm_clear hi).length_eq
  have hle := List.reduceOption_length_le v.eintraege
  rw [freienPlatz_eq_none] at hvoll
  rw [v.fach] at hle
  simp only [buecher, setze, List.length_cons] at hvoll hlen
  omega

theorem revoke_error (hf : v.finden handle = some (i, e)) (he : e.eingezogen = false)
    (hnot : (K.einziehen v.backend e.cap.zielSlot).1 ≠ .ok ()) :
    (v.revoke K handle).2.eintraege = v.eintraege ∧
      ∀ z, K.capIstLive (v.revoke K handle).2.backend z = K.capIstLive v.backend z := by
  unfold revoke
  cases hk : K.einziehen v.backend e.cap.zielSlot with
  | mk r k =>
    cases r with
    | ok => simp [hk] at hnot
    | error f =>
      simp only [hf, he, Bool.false_eq_true, if_false, hk, true_and]
      exact K.einziehen_error _ _ _ _ hk

/-- A withdrawal, granted or refused, keeps the books; a granted one leaves no capability out. -/
theorem Stimmt.revoke (h : v.Stimmt K b) (handle : Nat) :
    (v.revoke K handle).2.Stimmt K b ∧
      ((∀ e ∈ v.buecher, e.handle = handle → e.eingezogen = false →
          (K.einziehen v.backend e.cap.zielSlot).1 = .ok ()) →
        ∀ e ∈ (v.revoke K handle).2.buecher, e.handle = handle → e.eingezogen = true) := by
  cases hf : v.finden handle with
  | none =>
    have heq : (v.revoke K handle).2 = v := by simp [Verleiher.revoke, hf]
    rw [heq]
    exact ⟨h, fun _ e he hk => absurd hk (finden_eq_none.mp hf e he)⟩
  | some p =>
    obtain ⟨i, e⟩ := p
    obtain ⟨hi, hhandle⟩ := finden_eq_some hf
    have hmem := Slots.mem_of_getElem? hi
    have hsole : ∀ x ∈ v.buecher, x.handle = handle → x = e := fun x hx hk =>
      Slots.Unique.eq_of_key h.eindeutig hx hmem (hk.trans hhandle.symm)
    cases he : e.eingezogen with
    | true =>
      have heq : (v.revoke K handle).2 = v := by simp [Verleiher.revoke, hf, he]
      rw [heq]
      exact ⟨h, fun _ x hx hk => hsole x hx hk ▸ he⟩
    | false =>
      cases hk : K.einziehen v.backend e.cap.zielSlot with
      | mk r k =>
        cases r with
        | error f =>
          have hnot : (K.einziehen v.backend e.cap.zielSlot).1 ≠ .ok () := by simp [hk]
          obtain ⟨heintraege, hlebt⟩ := revoke_error hf he hnot
          refine ⟨?_, fun hok => absurd (hok e hmem hhandle he) hnot⟩
          rw [Stimmt, heintraege]
          exact Buch.congr h hlebt
        | ok u =>
          have heq : (v.revoke K handle).2 =
              { v with backend := k }.setze i (some { e with eingezogen := true }) := by
            simp [Verleiher.revoke, hf, he, hk]
          rw [heq]
          refine ⟨Buch.eingezogen h hi he (K.einziehen_ok _ _ _ hk), fun _ x hx hxk => ?_⟩
          have hex := Slots.Unique.exchange (b := { e with eingezogen := true })
            h.eindeutig hi rfl
          rcases (hex.2 x).mp hx with rfl | ⟨hx, hne⟩
          · rfl
          · exact absurd (hxk.trans hhandle.symm) hne

/-- A derivation for a grant without an entry. -/
theorem Stimmt.ableiten (h : v.Stimmt K b) (hg : b.Gefunden pd handle slot g)
    (hneu : ∀ e ∈ v.buecher, e.handle ≠ handle) {quellSlot zielSlot : Nat} {wunsch : CsubRechte}
    {sicht : GrantSicht} (hsicht : sicht = ⟨g.offset, g.len, g.cpu, g.dev⟩)
    (hplatz : ∀ cap k, K.ableiten v.backend quellSlot zielSlot g.offset g.len
      (quelleRechte &&& wunsch) = (.ok cap, k) → v.freienPlatz ≠ none) :
    (v.ableiten K pd handle quellSlot zielSlot sicht wunsch).2.Stimmt K b ∧
      ∀ cap k, K.ableiten v.backend quellSlot zielSlot g.offset g.len (quelleRechte &&& wunsch) =
        (.ok cap, k) → (v.ableiten K pd handle quellSlot zielSlot sicht wunsch).1 = .ok cap := by
  subst hsicht
  unfold Verleiher.ableiten
  cases hk : K.ableiten v.backend quellSlot zielSlot g.offset g.len (quelleRechte &&& wunsch) with
  | mk r k =>
    cases r with
    | error f =>
      refine ⟨Buch.congr h (K.ableiten_error _ _ _ _ _ _ _ _ hk), fun cap k hok => ?_⟩
      cases hok
    | ok cap =>
      obtain ⟨hslot, hbereich, hleer, hlebt⟩ := K.ableiten_ok _ _ _ _ _ _ _ _ hk
      cases hp : v.freienPlatz with
      | none => exact absurd hp (hplatz cap k hk)
      | some platz =>
        refine ⟨?_, fun cap' k' hok => ?_⟩
        · subst hslot
          exact Buch.neu (e := ⟨handle, pd, cap, false⟩) h (Slots.free_of_findIdx? hp) hneu
            rfl hleer hlebt ⟨slot, g, hg, hbereich.symm⟩
        · cases hok
          rfl

theorem ableiten_voll (q schein : Nat) (sicht : GrantSicht) (hp : v.freienPlatz = none)
    {quellSlot zielSlot : Nat} {wunsch : CsubRechte} {cap : CsubCap} {k : β}
    (hk : K.ableiten v.backend quellSlot zielSlot sicht.offset sicht.len (quelleRechte &&& wunsch) =
      (.ok cap, k)) :
    (v.ableiten K q schein quellSlot zielSlot sicht wunsch).2 = { v with backend := k } := by
  simp only [Verleiher.ableiten, hk, hp]

end Verleiher

namespace Bestand

variable {b c : Bestand} {pd handle slot : Nat} {g : Grant}

theorem aufloesenInner_of_gefunden (h : b.Beschriftet) (hg : b.Gefunden pd handle slot g)
    (he : g.entzogen = false) :
    b.aufloesenInner pd handle = (.ok ⟨g.offset, g.len, g.cpu, g.dev⟩, b) := by
  simp [aufloesenInner, scheinPruefen_of_gefunden h hg, he]

theorem aufloesenInner_ok {x : GrantSicht} (h : b.aufloesenInner pd handle = (.ok x, c)) :
    c = b ∧ ∃ slot g, b.Gefunden pd handle slot g ∧ g.entzogen = false ∧
      x = ⟨g.offset, g.len, g.cpu, g.dev⟩ := by
  unfold aufloesenInner at h
  cases hp : b.scheinPruefen pd handle with
  | error e => simp [hp] at h
  | ok p =>
    obtain ⟨slot, g⟩ := p
    cases he : g.entzogen with
    | true => simp [hp, he] at h
    | false =>
      simp only [hp, he, Bool.false_eq_true, if_false, Prod.mk.injEq, Except.ok.injEq] at h
      exact ⟨h.2.symm, slot, g, scheinPruefen_eq_ok hp, he, h.1.symm⟩

theorem aufloesenInner_error {f : SpeicherFehler} (h : b.aufloesenInner pd handle = (.error f, c)) :
    c = b := by
  unfold aufloesenInner at h
  cases hp : b.scheinPruefen pd handle with
  | error e => simp_all
  | ok p =>
    cases he : p.2.entzogen with
    | true => simp_all
    | false => simp [hp, he] at h

end Bestand

namespace Leihe

variable {β : Type} {K : CsubBackend β} {L : Leihe β} {n : Nat} {me : Tid} {pd handle : Nat}

/-- The server is in order, and the lender's table with it. -/
structure Inv (K : CsubBackend β) (n : Nat) (L : Leihe β) : Prop where
  frei : L.server.Frei
  geordnet : L.server.bestand.Geordnet n
  beschriftet : L.server.bestand.Beschriftet
  buch : L.verleiher.Stimmt K L.server.bestand

theorem Inv.gesichert (h : L.Inv K n) : L.Gesichert K := by
  have hgrant : ∀ e ∈ L.verleiher.buecher, e.eingezogen = false →
      ∃ g ∈ L.server.bestand.lebende, g.handle = e.handle ∧ g.pd = e.quellePd ∧
        g.bereich = e.cap.bereich := by
    intro e he hfrei
    obtain ⟨-, slot, g, hg, hbereich⟩ := h.buch.gedeckt e he hfrei
    exact ⟨g, hg.mem, hg.handle, hg.pd, hbereich⟩
  refine ⟨fun z hz => ?_, fun e he hfrei => ?_, fun e he hfrei me pd len zweck x s hok => ?_⟩
  · obtain ⟨e, he, hslot, hfrei⟩ := h.buch.verbucht z hz
    exact ⟨e, he, hslot, hfrei, hgrant e he hfrei⟩
  · obtain ⟨g, hg, -, -, hbereich⟩ := hgrant e he hfrei
    obtain ⟨-, -, hapart⟩ := apart_append.mp h.geordnet.apart
    rw [← hbereich]
    exact hapart.mono_left (addrs_subset_cover (List.mem_map_of_mem (f := Grant.bereich) hg))
  · obtain ⟨g, hg, -, -, hbereich⟩ := hgrant e he hfrei
    obtain ⟨t, ht, -, -⟩ := MemoryServer.bedienen_eq h.frei me (.anfordern pd len zweck)
    have hsub := (Bestand.ausfuehren_wirkung h.geordnet (.anfordern pd len zweck)).aus_freien
      (x := x) (by
        rw [MemoryServer.bedienen, hok] at ht
        exact (congrArg Prod.fst (Option.some.inj ht)).symm)
    rw [← hbereich]
    exact h.geordnet.apart_freie hsub hg

theorem start_inv {cpuBasis devBasis : Nat} {s : MemoryServer} {k : β}
    (h : MemoryServer.neu cpuBasis devBasis n = some s) (hk : ∀ z, K.capIstLive k z = false) :
    (start s k).Inv K n := by
  obtain ⟨-, hfrei, hgeo, -⟩ := MemoryServer.neu_eq_some h
  have hleer : ∀ e, e ∉ (List.replicate maxGrants (none : Option GrantCapEintrag)).reduceOption := by
    intro e he
    have hmem := List.eq_of_mem_replicate (Slots.mem_entries.mp he)
    cases hmem
  refine ⟨hfrei, hgeo, MemoryServer.neu_beschriftet h, Slots.Unique.nil, ?_, ?_, ?_⟩
  · exact fun e he => absurd he (hleer e)
  · intro z hz
    rw [start, Verleiher.neu, hk z] at hz
    cases hz
  · exact fun e he => absurd he (hleer e)

theorem Inv.dienst (h : L.Inv K n) (me : Tid) {a : Anfrage}
    (ha : ∀ pd handle, a ≠ .zurueckgeben pd handle) :
    ∃ M, L.dienst me a = some M ∧ M.Inv K n := by
  obtain ⟨s, hs, hfrei, hbestand⟩ := MemoryServer.bedienen_eq h.frei me a
  have hw := Bestand.ausfuehren_wirkung h.geordnet a
  rw [← hbestand] at hw
  refine ⟨{ L with server := s }, ?_, hfrei, h.geordnet.wirkung hw, h.beschriftet.wirkung hw,
    Buch.wirkung h.buch h.beschriftet hw fun _ _ _ => ha _ _⟩
  rw [Leihe.dienst, hs]
  rfl

theorem Inv.entzug (h : L.Inv K n) (me : Tid) (pd handle : Nat) :
    ∃ M, L.step K (.entzug me pd handle) = some M ∧ M.Inv K n := by
  obtain ⟨sperre, hfrei, heq⟩ :=
    MemoryServer.unterSperre_eq h.frei me fun b => b.entziehenInner pd handle
  have hw := Bestand.ausfuehren_wirkung h.geordnet (.entziehen pd handle)
  simp only [Bestand.ausfuehren] at hw
  have hbuch := Buch.wirkung h.buch h.beschriftet hw fun _ _ _ heq => by cases heq
  simp only [step, Verleiher.entzugMitRevoke, MemoryServer.entziehen, heq, Option.map_some]
  cases hr : (L.server.bestand.entziehenInner pd handle).1 with
  | error f =>
    exact ⟨_, rfl, hfrei, h.geordnet.wirkung hw, h.beschriftet.wirkung hw, hbuch⟩
  | ok u =>
    exact ⟨_, rfl, hfrei, h.geordnet.wirkung hw, h.beschriftet.wirkung hw,
      (Verleiher.Stimmt.revoke hbuch handle).1⟩

theorem freigeben_eq (h : L.Inv K n) (me : Tid) {slot : Nat} {g : Grant}
    (hp : L.server.bestand.rueckgabePruefen pd handle = .ok (slot, g)) :
    ∃ s, L.step K (.freigeben me pd handle) = some ⟨s, (L.verleiher.revoke K handle).2⟩ ∧
      s.Frei ∧ s.bestand = L.server.bestand.nachRueckgabe slot g := by
  obtain ⟨sperre, hfrei, heq⟩ :=
    MemoryServer.unterSperre_eq h.frei me fun b => b.zurueckgebenInner pd handle
  have hinner : L.server.bestand.zurueckgebenInner pd handle =
      (.ok (), L.server.bestand.nachRueckgabe slot g) := by
    simp only [Bestand.zurueckgebenInner, hp]
    rfl
  rw [hinner] at heq
  refine ⟨⟨L.server.bestand.nachRueckgabe slot g, sperre⟩, ?_, hfrei, rfl⟩
  rw [step, Verleiher.freigebenMitRevoke, MemoryServer.zurueckgeben, heq]
  rfl

theorem Inv.freigeben (h : L.Inv K n) (me : Tid) (hok : L.Bedingung K (.freigeben me pd handle)) :
    ∃ M, L.step K (.freigeben me pd handle) = some M ∧ M.Inv K n := by
  cases hp : L.server.bestand.rueckgabePruefen pd handle with
  | error f =>
    obtain ⟨sperre, hfrei, heq⟩ :=
      MemoryServer.unterSperre_eq h.frei me fun b => b.zurueckgebenInner pd handle
    have hinner : L.server.bestand.zurueckgebenInner pd handle = (.error f, L.server.bestand) := by
      simp only [Bestand.zurueckgebenInner, hp]
    rw [hinner] at heq
    exact ⟨⟨⟨_, sperre⟩, L.verleiher⟩,
      by simp [Leihe.step, Verleiher.freigebenMitRevoke, MemoryServer.zurueckgeben, heq],
      hfrei, h.geordnet, h.beschriftet, h.buch⟩
  | ok p =>
    obtain ⟨slot, g⟩ := p
    obtain ⟨hg, hmark⟩ := Bestand.rueckgabePruefen_eq_ok hp
    obtain ⟨s, hs, hfrei, hbestand⟩ := freigeben_eq h me hp
    have hw : L.server.bestand.Wirkung (.zurueckgeben pd handle) (.ok .erledigt) s.bestand :=
      hbestand ▸ .zurueck hg hmark
    -- The capability first: then no entry of this handle is out when the grant goes.
    obtain ⟨hbuch, halle⟩ := h.buch.revoke (K := K) handle
    refine ⟨_, hs, hfrei, h.geordnet.wirkung hw, h.beschriftet.wirkung hw,
      Buch.wirkung hbuch h.beschriftet hw fun e he hnoch heq => ?_⟩
    cases heq
    have hein := halle (hok _ hp) e he rfl
    rw [hnoch] at hein
    cases hein

theorem Inv.freigeben_bad (h : L.Inv K n) (hnot : ¬ L.Bedingung K (.freigeben me pd handle)) :
    ∃ M, L.step K (.freigeben me pd handle) = some M ∧ ¬ M.Gesichert K := by
  simp only [Bedingung, not_forall] at hnot
  obtain ⟨⟨slot, g⟩, hp, e, he, rfl, hnoch, hrefused⟩ := hnot
  obtain ⟨hg, -⟩ := Bestand.rueckgabePruefen_eq_ok hp
  obtain ⟨s, hs, -, hbestand⟩ := freigeben_eq h me hp
  obtain ⟨i, hf, -⟩ := Slots.Unique.find_of_mem h.buch.eindeutig he
  obtain ⟨heintraege, hlebt⟩ := Verleiher.revoke_error hf hnoch hrefused
  refine ⟨_, hs, fun hgesichert => ?_⟩
  obtain ⟨x, hx, hslot, hxnoch, y, hy, hyx, -⟩ := hgesichert.verbucht e.cap.zielSlot
    ((hlebt _).trans (h.buch.gedeckt e he hnoch).1)
  have hx' : x ∈ L.verleiher.buecher := by
    simp only [Verleiher.buecher, heintraege] at hx
    exact hx
  obtain rfl := h.buch.slots x hx' e he hslot hxnoch hnoch
  rw [hbestand] at hy
  exact Bestand.nachRueckgabe_weg h.beschriftet hg y hy hyx

/-- A derivation of the lender, seen from a server in order. -/
theorem Inv.ableiten (h : L.Inv K n) (me : Tid) {quellSlot zielSlot : Nat} {wunsch : CsubRechte}
    (hok : L.Bedingung K (.ableiten me pd handle quellSlot zielSlot wunsch)) :
    ∃ r v s, L.verleiher.ableitenFuerGrant K L.server me pd handle quellSlot zielSlot wunsch =
        some (r, v, s) ∧ (⟨s, v⟩ : Leihe β).Inv K n ∧
      ∀ cap, L.Ableitbar K pd handle quellSlot zielSlot wunsch cap → r = .ok cap := by
  obtain ⟨sperre, hfrei, heq⟩ :=
    MemoryServer.unterSperre_eq h.frei me fun b => b.aufloesenInner pd handle
  simp only [Verleiher.ableitenFuerGrant, MemoryServer.aufloesen, heq, Option.map_some]
  cases hr : L.server.bestand.aufloesenInner pd handle with
  | mk r c =>
    cases r with
    | error f =>
      obtain rfl := Bestand.aufloesenInner_error hr
      refine ⟨_, _, _, rfl, ⟨hfrei, h.geordnet, h.beschriftet, h.buch⟩, fun cap hcap => ?_⟩
      obtain ⟨slot, g, hg, he, -⟩ := hcap.sicht
      rw [Bestand.aufloesenInner_of_gefunden h.beschriftet hg he] at hr
      cases hr
    | ok sicht =>
      obtain ⟨rfl, slot, g, hg, he, hsicht⟩ := Bestand.aufloesenInner_ok hr
      -- What the lender derives from is the grant that was found.
      have hgleich : ∀ {cap}, L.Ableitbar K pd handle quellSlot zielSlot wunsch cap →
          ∃ k, K.ableiten L.verleiher.backend quellSlot zielSlot g.offset g.len
            (quelleRechte &&& wunsch) = (.ok cap, k) := by
        intro cap hcap
        obtain ⟨slot', g', hg', -, hk⟩ := hcap.sicht
        obtain ⟨-, rfl⟩ := h.beschriftet.slot_eq hg hg'
        exact hk
      cases hf : L.verleiher.finden handle with
      | none =>
        have hneu := Verleiher.finden_eq_none.mp hf
        obtain ⟨hbuch, herg⟩ := h.buch.ableiten hg hneu hsicht fun cap k hk hvoll => by
          rcases hok cap ⟨⟨slot, g, hg, he, k, hk⟩, fun e he hh => absurd hh (hneu e he)⟩ with
            ⟨e, he, hh⟩ | hlt
          · exact hneu e he hh
          · rw [Verleiher.freienPlatz_eq_none] at hvoll
            omega
        refine ⟨_, _, _, rfl, ⟨hfrei, h.geordnet, h.beschriftet, hbuch⟩, fun cap hcap => ?_⟩
        obtain ⟨k, hk⟩ := hgleich hcap
        exact herg cap k hk
      | some p =>
        obtain ⟨i, e⟩ := p
        obtain ⟨hi, hhandle⟩ := Verleiher.finden_eq_some hf
        cases hein : e.eingezogen with
        | false =>
          simp only [hein, if_true]
          refine ⟨_, _, _, rfl, ⟨hfrei, h.geordnet, h.beschriftet, h.buch⟩,
            fun cap hcap => ?_⟩
          have hzu := hcap.keine e (Slots.mem_of_getElem? hi) hhandle
          rw [hein] at hzu
          cases hzu
        | true =>
          have hweg : (L.verleiher.setze i none).Stimmt K L.server.bestand :=
            Buch.weg h.buch hi hein
          have hneu : ∀ x ∈ (L.verleiher.setze i none).buecher, x.handle ≠ handle :=
            fun x hx => hhandle ▸ (((Slots.Unique.clear h.buch.eindeutig hi).2 x).mp hx).2
          obtain ⟨hbuch, herg⟩ := hweg.ableiten hg hneu hsicht fun _ _ _ =>
            Verleiher.freienPlatz_setze_none hi
          simp only [hein, Bool.true_eq_false, if_false]
          refine ⟨_, _, _, rfl, ⟨hfrei, h.geordnet, h.beschriftet, hbuch⟩,
            fun cap hcap => ?_⟩
          obtain ⟨k, hk⟩ := hgleich hcap
          exact herg cap k hk

theorem Inv.ableiten_bad (h : L.Inv K n) {quellSlot zielSlot : Nat} {wunsch : CsubRechte}
    (hnot : ¬ L.Bedingung K (.ableiten me pd handle quellSlot zielSlot wunsch)) :
    ∃ M, L.step K (.ableiten me pd handle quellSlot zielSlot wunsch) = some M ∧
      ¬ M.Gesichert K := by
  simp only [Bedingung, not_forall, not_or, not_exists, not_and, Nat.not_lt] at hnot
  obtain ⟨cap, hcap, hneu, hvoll⟩ := hnot
  obtain ⟨slot, g, hg, he, k, hk⟩ := hcap.sicht
  obtain ⟨sperre, -, heq⟩ :=
    MemoryServer.unterSperre_eq h.frei me fun b => b.aufloesenInner pd handle
  rw [Bestand.aufloesenInner_of_gefunden h.beschriftet hg he] at heq
  have hf : L.verleiher.finden handle = none := Verleiher.finden_eq_none.mpr hneu
  have hp : L.verleiher.freienPlatz = none := by
    have hle := List.reduceOption_length_le L.verleiher.eintraege
    rw [L.verleiher.fach] at hle
    exact Verleiher.freienPlatz_eq_none.mpr (hle.antisymm hvoll)
  have hv := Verleiher.ableiten_voll pd handle ⟨g.offset, g.len, g.cpu, g.dev⟩ hp hk
  refine ⟨⟨⟨L.server.bestand, sperre⟩, { L.verleiher with backend := k }⟩, ?_, fun hgesichert => ?_⟩
  · simp only [step, Verleiher.ableitenFuerGrant, MemoryServer.aufloesen, heq, Option.map_some, hf,
      hv]
  · obtain ⟨hslot, -, hleer, hlebt⟩ := K.ableiten_ok _ _ _ _ _ _ _ _ hk
    have hout : K.capIstLive k zielSlot = true := by rw [hlebt, if_pos rfl]
    obtain ⟨e, he, heslot, hnoch, -⟩ := hgesichert.verbucht zielSlot hout
    have hlive := (h.buch.gedeckt e he hnoch).1
    rw [heslot, hleer] at hlive
    cases hlive

theorem Inv.step (h : L.Inv K n) (op : Leihvorgang) (hok : L.Bedingung K op) :
    ∃ M, L.step K op = some M ∧ M.Inv K n := by
  cases op with
  | anfordern me pd len zweck | abbilden me pd handle | ausblenden me pd handle =>
    exact h.dienst me fun _ _ heq => by cases heq
  | freigeben me pd handle => exact h.freigeben me hok
  | entzug me pd handle => exact h.entzug me pd handle
  | ableiten me pd handle quellSlot zielSlot wunsch =>
    obtain ⟨r, v, s, heq, hinv, -⟩ := h.ableiten me hok
    exact ⟨_, by rw [Leihe.step, heq]; rfl, hinv⟩

theorem Inv.gelingt (h : L.Inv K n) (op : Leihvorgang) (hok : L.Bedingung K op) :
    L.Gelingt K op := by
  cases op with
  | ableiten me pd handle quellSlot zielSlot wunsch =>
    intro cap hcap
    obtain ⟨r, v, s, heq, -, herg⟩ := h.ableiten me hok
    obtain rfl := herg cap hcap
    exact ⟨v, s, heq⟩
  | _ => trivial

/-- For every backend, server and order of requests: after each prefix every live capability is
recorded over a live grant and what can be derived is derived, exactly if no withdrawal after a
return is refused and no derivation meets a full table. -/
theorem run_gesichert_iff {cpuBasis devBasis : Nat} {s : MemoryServer} {k : β}
    (h : MemoryServer.neu cpuBasis devBasis n = some s) (hk : ∀ z, K.capIstLive k z = false)
    (ops : List Leihvorgang) :
    (∀ xs, xs <+: ops → ∃ L, run (step K) (start s k) xs = some L ∧ L.Gesichert K ∧
        ∀ op, xs ++ [op] <+: ops → L.Gelingt K op) ↔
      Admissible (step K) (Bedingung K) (start s k) ops := by
  have hinv : (start s k).Inv K n := start_inv h hk
  have hstep : ∀ (L : Leihe β) op, L.Inv K n → L.Bedingung K op →
      ∃ M, L.step K op = some M ∧ M.Inv K n := fun L op hL hok => hL.step op hok
  constructor
  · intro hall
    refine (forall_prefix_iff_admissible (P := Gesichert K) (fun L hL => hL.gesichert) hstep
      (fun L op hL hnot => ?_) hinv ops).mp fun xs hxs => ?_
    · cases op with
      | ableiten => exact hL.ableiten_bad hnot
      | freigeben => exact hL.freigeben_bad hnot
      | _ => exact absurd trivial hnot
    · obtain ⟨L, hL, hgesichert, -⟩ := hall xs hxs
      exact ⟨L, hL, hgesichert⟩
  · intro hadm xs hxs
    obtain ⟨L, hL, hLinv⟩ := run_total hstep hinv (hadm.of_prefix hxs)
    refine ⟨L, hL, hLinv.gesichert, fun op hop => hLinv.gelingt op ?_⟩
    exact admissible_iff_forall_reached.mp hadm xs op L hop hL

end Leihe

/-- The slots with a live capability, and the slots whose next withdrawal is refused. -/
structure Kern where
  lebende : List Nat
  absagen : List Nat
  deriving DecidableEq, Repr

def Kern.ableiten (k : Kern) (zielSlot offset len : Nat) (rechte : CsubRechte) :
    Except CsubFehler CsubCap × Kern :=
  if zielSlot ∈ k.lebende then (.error .noSpace, k)
  else (.ok ⟨zielSlot, offset, len, rechte⟩, { k with lebende := zielSlot :: k.lebende })

def Kern.einziehen (k : Kern) (zielSlot : Nat) : Except CsubFehler Unit × Kern :=
  if zielSlot ∈ k.absagen then (.error .badCap, { k with absagen := k.absagen.erase zielSlot })
  else if zielSlot ∈ k.lebende then
    (.ok (), { k with lebende := k.lebende.filter fun z => z ≠ zielSlot })
  else (.error .badCap, k)

def kern : CsubBackend Kern where
  ableiten k _ zielSlot offset len rechte := k.ableiten zielSlot offset len rechte
  einziehen := Kern.einziehen
  capIstLive k zielSlot := decide (zielSlot ∈ k.lebende)
  ableiten_ok k q z o l r cap k' h := by
    unfold Kern.ableiten at h
    split at h
    · cases h
    · next hleer =>
      cases h
      refine ⟨rfl, rfl, by simpa using hleer, fun x => ?_⟩
      by_cases hx : x = z <;> simp [hx]
  einziehen_ok k z k' h := by
    unfold Kern.einziehen at h
    split at h
    · cases h
    · split at h
      · cases h
        intro x
        by_cases hx : x = z <;> simp [hx]
      · cases h
  ableiten_error k q z o l r f k' h := by
    unfold Kern.ableiten at h
    split at h
    · cases h
      exact fun _ => rfl
    · cases h
  einziehen_error k z f k' h := by
    unfold Kern.einziehen at h
    split at h
    · cases h
      exact fun _ => rfl
    · split at h
      · cases h
      · cases h
        exact fun _ => rfl

namespace Leihe

def ausgeliehen : List Leihvorgang :=
  [.anfordern 1 2 4096 .allgemein, .ableiten 1 2 0x200000001 1 5 3, .freigeben 1 2 0x200000001]

/-- Sixteen times a grant with a capability, given back; and one more grant. -/
def runden : List Leihvorgang :=
  (List.range 16).flatMap (fun i => [.anfordern 1 2 4096 .allgemein,
    .ableiten 1 2 (((i + 2) <<< 32) ||| 1) 1 5 3, .freigeben 1 2 (((i + 2) <<< 32) ||| 1)]) ++
    [.anfordern 1 2 4096 .allgemein]

theorem run_gesichert_iff_ausgeliehen :
    ∃ s, MemoryServer.neu 0x40000000 0x10000000 0x200000 = some s ∧
      ((∀ xs, xs <+: ausgeliehen → ∃ L, run (step kern) (start s ⟨[], []⟩) xs = some L ∧
          L.Gesichert kern ∧ ∀ op, xs ++ [op] <+: ausgeliehen → L.Gelingt kern op) ↔
        Admissible (step kern) (Bedingung kern) (start s ⟨[], []⟩) ausgeliehen) := by
  have hneu : ∃ s, MemoryServer.neu 0x40000000 0x10000000 0x200000 = some s := ⟨_, rfl⟩
  obtain ⟨s, hs⟩ := hneu
  exact ⟨s, hs, run_gesichert_iff hs (fun _ => rfl) ausgeliehen⟩

/-- A refused withdrawal: the next domain gets the memory, and the old capability still reaches
it.  Sixteen rounds without any refusal: the seventeenth derivation fails. -/
theorem run_nicht_gesichert : ∃ s, MemoryServer.neu 0x40000000 0x10000000 0x200000 = some s ∧
    (∃ L, run (step kern) (start s ⟨[], [5]⟩) ausgeliehen = some L ∧ ¬ L.Gesichert kern ∧
      ∃ M, L.step kern (.anfordern 1 3 4096 .allgemein) = some M ∧
        ∃ g ∈ M.server.bestand.lebende, ∃ e ∈ M.verleiher.buecher, g.pd = 3 ∧
          g.bereich = e.cap.bereich ∧
            kern.capIstLive M.verleiher.backend e.cap.zielSlot = true) ∧
    ∃ L, run (step kern) (start s ⟨[], []⟩) runden = some L ∧
      ¬ L.Gelingt kern (.ableiten 1 2 ((18 <<< 32) ||| 1) 1 5 3) := by
  have hneu : ∃ s, MemoryServer.neu 0x40000000 0x10000000 0x200000 = some s := ⟨_, rfl⟩
  obtain ⟨s, hs⟩ := hneu
  cases hs
  refine ⟨_, rfl, ⟨_, rfl, fun hgesichert => ?_, _, rfl, ?_⟩, ⟨_, rfl, fun hgelingt => ?_⟩⟩
  · obtain ⟨e, he, -, -, g, hg, hhandle, -⟩ := hgesichert.verbucht 5 rfl
    obtain rfl := List.mem_singleton.mp he
    obtain rfl := List.mem_singleton.mp hg
    cases hhandle
  · refine ⟨_, List.mem_cons_of_mem _ (List.mem_singleton.mpr rfl), _, List.mem_singleton.mpr rfl,
      rfl, rfl, rfl⟩
  · have habl := hgelingt ⟨5, 4096, 4096, 3⟩ ⟨⟨1, _, ⟨rfl, rfl, rfl, rfl⟩, rfl, _, rfl⟩, by decide⟩
    obtain ⟨v, t, heq⟩ := habl
    cases heq

end Leihe

end Caprock.MemServer
