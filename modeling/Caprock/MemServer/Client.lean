import Caprock.Lib.KeyedSlots
import Caprock.MemServer.Protocol

/-! # The client's side of the memory server

A client keeps its own record of every grant: known by its handle, resolved, mapped, or
withdrawn by the server.  It builds a message only when the record allows the request, and enters
the reply into the record afterwards.
-/

namespace Caprock.MemServer

inductive ClientFehler where
  | protokoll (f : SpeicherFehler)
  | unbekannterSchein
  | doppelSchein
  | keineSicht
  | keineAbbildung
  | nochAbgebildet
  | entzogen
  | unerwarteteAntwort
  deriving DecidableEq, Repr

inductive ClientZustand where
  | schein
  | sichtBekannt (cpu dev : Nat)
  | abgebildet (cpu dev : Nat)
  | entzogen (nochAbgebildet : Bool)
  deriving DecidableEq, Repr

/-- The client has told the server of a mapping and not of its end: `Abgebildet`, or `Entzogen`
with `noch_abgebildet`. -/
def ClientZustand.gemeldet : ClientZustand → Bool
  | .abgebildet _ _ => true
  | .entzogen noch => noch
  | _ => false

structure ClientEintrag where
  handle : Nat
  len : Nat
  zustand : ClientZustand
  deriving DecidableEq, Repr

def clientMax : Nat := 16

structure ClientSeite where
  eintraege : List (Option ClientEintrag)
  fach : eintraege.length = clientMax

def absage (kode : Nat) : ClientFehler :=
  match fehlerAusKode kode with
  | some f => .protokoll f
  | none => .unerwarteteAntwort

namespace ClientSeite

def neu : ClientSeite := ⟨List.replicate clientMax none, List.length_replicate⟩

def scheine (c : ClientSeite) : List ClientEintrag := c.eintraege.reduceOption

/-- `finden`, with the entry that every caller reads from the place. -/
def finden (c : ClientSeite) (handle : Nat) : Option (Nat × ClientEintrag) :=
  Slots.find ClientEintrag.handle c.eintraege handle

def freienPlatz (c : ClientSeite) : Option Nat := Slots.freePlace c.eintraege

def setze (c : ClientSeite) (i : Nat) (e : Option ClientEintrag) : ClientSeite :=
  ⟨c.eintraege.set i e, by rw [List.length_set]; exact c.fach⟩

def anfrage (len : Nat) (zweck : Zweck) : Nachricht := .anfordern len zweck.kennziffer

def antwortAnfordern (c : ClientSeite) (antwort : Worte) (erwartetLen : Nat) :
    Except ClientFehler Nat × ClientSeite :=
  if antwort.w0 ≠ 0 then (.error (absage antwort.w0), c)
  else if antwort.w1 = 0 ∨ (c.finden antwort.w1).isSome then (.error .doppelSchein, c)
  else
    match c.freienPlatz with
    | none => (.error .unerwarteteAntwort, c)
    | some platz =>
        match rundeAufSeite erwartetLen with
        | none => (.error .unerwarteteAntwort, c)
        | some len => (.ok antwort.w1, c.setze platz (some ⟨antwort.w1, len, .schein⟩))

def aufloesen (c : ClientSeite) (handle : Nat) : Except ClientFehler Nachricht :=
  match c.finden handle with
  | none => .error .unbekannterSchein
  | some (_, e) =>
      match e.zustand with
      | .entzogen _ => .error .entzogen
      | _ => .ok (.aufloesen handle)

def antwortAufloesen (c : ClientSeite) (handle : Nat) (antwort : Worte) :
    Except ClientFehler (Nat × Nat) × ClientSeite :=
  match c.finden handle with
  | none => (.error .unbekannterSchein, c)
  | some (i, e) =>
      if antwort.w0 ≠ 0 then
        if fehlerAusKode antwort.w0 = some .entzogen then
          (.error .entzogen, c.setze i (some { e with zustand := .entzogen e.zustand.gemeldet }))
        else (.error (absage antwort.w0), c)
      else if antwort.w3 ≠ e.len then (.error .unerwarteteAntwort, c)
      else
        (.ok (antwort.w1, antwort.w2),
          c.setze i (some { e with zustand := .sichtBekannt antwort.w1 antwort.w2 }))

def abbilden (c : ClientSeite) (handle : Nat) : Except ClientFehler Nachricht :=
  match c.finden handle with
  | none => .error .unbekannterSchein
  | some (_, e) =>
      match e.zustand with
      | .sichtBekannt _ _ => .ok (.abbilden handle)
      | .entzogen _ => .error .entzogen
      | _ => .error .keineSicht

def antwortAbbilden (c : ClientSeite) (handle : Nat) (antwort : Worte) :
    Except ClientFehler Unit × ClientSeite :=
  match c.finden handle with
  | none => (.error .unbekannterSchein, c)
  | some (i, e) =>
      if antwort.w0 ≠ 0 then
        if fehlerAusKode antwort.w0 = some .entzogen then
          (.error .entzogen, c.setze i (some { e with zustand := .entzogen false }))
        else (.error (absage antwort.w0), c)
      else
        match e.zustand with
        | .sichtBekannt cpu dev =>
            (.ok (), c.setze i (some { e with zustand := .abgebildet cpu dev }))
        | _ => (.error .unerwarteteAntwort, c)

def ausblenden (c : ClientSeite) (handle : Nat) : Except ClientFehler Nachricht :=
  match c.finden handle with
  | none => .error .unbekannterSchein
  | some (_, e) =>
      match e.zustand with
      | .abgebildet _ _ => .ok (.ausblenden handle)
      | .entzogen true => .ok (.ausblenden handle)
      | _ => .error .keineAbbildung

def antwortAusblenden (c : ClientSeite) (handle : Nat) (antwort : Worte) :
    Except ClientFehler Unit × ClientSeite :=
  match c.finden handle with
  | none => (.error .unbekannterSchein, c)
  | some (i, e) =>
      if antwort.w0 ≠ 0 then (.error (absage antwort.w0), c)
      else
        match e.zustand with
        | .abgebildet cpu dev =>
            (.ok (), c.setze i (some { e with zustand := .sichtBekannt cpu dev }))
        | .entzogen true => (.ok (), c.setze i (some { e with zustand := .entzogen false }))
        | _ => (.error .unerwarteteAntwort, c)

def freigeben (c : ClientSeite) (handle : Nat) : Except ClientFehler Nachricht :=
  match c.finden handle with
  | none => .error .unbekannterSchein
  | some (_, e) =>
      match e.zustand with
      | .abgebildet _ _ => .error .nochAbgebildet
      | .entzogen true => .error .nochAbgebildet
      | _ => .ok (.freigeben handle)

def antwortFreigeben (c : ClientSeite) (handle : Nat) (antwort : Worte) :
    Except ClientFehler Unit × ClientSeite :=
  match c.finden handle with
  | none => (.error .unbekannterSchein, c)
  | some (i, _) =>
      if antwort.w0 ≠ 0 then (.error (absage antwort.w0), c) else (.ok (), c.setze i none)

/-- `entzug_verarbeiten`: a message of the server, about any handle. -/
def entzugVerarbeiten (c : ClientSeite) (handle : Nat) : Bool × ClientSeite :=
  match c.finden handle with
  | none => (false, c)
  | some (i, e) => (true, c.setze i (some { e with zustand := .entzogen e.zustand.gemeldet }))

variable {c : ClientSeite} {i handle : Nat} {e : ClientEintrag}

/-- No handle stands twice in the records. -/
def Eindeutig (c : ClientSeite) : Prop := Slots.Unique ClientEintrag.handle c.eintraege

theorem neu_eindeutig : neu.Eindeutig := Slots.Unique.nil

theorem finden_eq_some (h : c.finden handle = some (i, e)) :
    c.eintraege[i]? = some (some e) ∧ e.handle = handle := Slots.find_eq_some h

theorem finden_mem (h : c.finden handle = some (i, e)) : e ∈ c.scheine := Slots.find_mem h

theorem finden_of_mem (h : c.Eindeutig) (he : e ∈ c.scheine) :
    ∃ i, c.finden e.handle = some (i, e) ∧ c.eintraege[i]? = some (some e) :=
  Slots.Unique.find_of_mem h he

theorem finden_eq_none : c.finden handle = none ↔ ∀ e ∈ c.scheine, e.handle ≠ handle :=
  Slots.find_eq_none

end ClientSeite

end Caprock.MemServer
