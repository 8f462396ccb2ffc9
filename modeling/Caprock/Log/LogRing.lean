import Caprock.Lib.Answers
import Caprock.Lib.RingBuffer
import Caprock.Lib.Word

/-! # A log that never parks

`push` never waits: a full ring gives up its oldest entry, and what is not kept is counted.  Over
every sequence of calls the ring is the list of its entries, and until the counter could be full no
message is lost without a trace.
-/

namespace Caprock.Log

open RingBuffer Word

def logPlaetze : Nat := 64
def logText : Nat := 128

inductive Stufe where
  | info
  | warn
  | err
  deriving DecidableEq, Repr

def Stufe.rang : Stufe → Nat
  | .info => 0
  | .warn => 1
  | .err => 2

structure Eintrag where
  stufe : Stufe
  laenge : Nat
  text : List UInt8
  breite : text.length = logText
  deriving DecidableEq, Repr

namespace Eintrag

def leerer : Eintrag := ⟨.info, 0, List.replicate logText 0, List.length_replicate⟩

/-- `text()`. -/
def inhalt (e : Eintrag) : List UInt8 := e.text.take e.laenge

def satz (e : Eintrag) : Stufe × List UInt8 := (e.stufe, e.inhalt)

end Eintrag

def kopiere (text nachricht : List UInt8) : Nat → List UInt8
  | 0 => text
  | k + 1 => (kopiere text nachricht k).set k (nachricht.getD k 0)

@[simp] theorem length_kopiere (text nachricht : List UInt8) (k : Nat) :
    (kopiere text nachricht k).length = text.length := by
  induction k with
  | zero => rfl
  | succ k ih => simp [kopiere, ih]

theorem take_kopiere {text nachricht : List UInt8} {k : Nat} (htext : k ≤ text.length)
    (hlen : k ≤ nachricht.length) : (kopiere text nachricht k).take k = nachricht.take k := by
  induction k with
  | zero => rfl
  | succ k ih =>
    have hlt : k < (kopiere text nachricht k).length := by
      rw [length_kopiere]
      omega
    have hprev : (kopiere text nachricht k).take k = nachricht.take k := ih (by omega) (by omega)
    rw [List.take_add_one, List.take_add_one, kopiere, List.take_set_of_le (le_refl k), hprev,
      List.getElem?_set_self hlt]
    simp [List.getElem?_eq_getElem (show k < nachricht.length by omega)]

def gekuerzt (nachricht : List UInt8) : Nat :=
  if nachricht.length < logText then nachricht.length else logText

def eintragVon (stufe : Stufe) (nachricht : List UInt8) : Eintrag where
  stufe := stufe
  laenge := gekuerzt nachricht
  text := kopiere Eintrag.leerer.text nachricht (gekuerzt nachricht)
  breite := (length_kopiere _ _ _).trans Eintrag.leerer.breite

theorem satz_eintragVon (stufe : Stufe) (nachricht : List UInt8) :
    (eintragVon stufe nachricht).satz = (stufe, nachricht.take logText) := by
  have hbreite := Eintrag.leerer.breite
  have hkurz : gekuerzt nachricht = min logText nachricht.length := by
    unfold gekuerzt
    split <;> omega
  refine congrArg (Prod.mk stufe) ?_
  change (kopiere _ _ (gekuerzt nachricht)).take (gekuerzt nachricht) = _
  rw [take_kopiere (by omega) (by omega), hkurz, ← List.take_take, List.take_length]

structure LogRing where
  ring : Nat → Eintrag
  anfang : Nat
  n : Nat
  filter : Stufe
  verworfen : Nat
  anfang_lt : anfang < logPlaetze
  n_le : n ≤ logPlaetze

namespace LogRing

def new : LogRing where
  ring _ := .leerer
  anfang := 0
  n := 0
  filter := .info
  verworfen := 0
  anfang_lt := by decide
  n_le := by decide

def push (r : LogRing) (stufe : Stufe) (nachricht : List UInt8) : Bool × LogRing :=
  if stufe.rang < r.filter.rang then
    (false, { r with verworfen := saturatingAdd r.verworfen 1 })
  else if h : r.n < logPlaetze then
    (true, { r with
      ring := Function.update r.ring ((r.anfang + r.n) % logPlaetze) (eintragVon stufe nachricht)
      n := r.n + 1
      n_le := h })
  else
    (true, { r with
      ring := Function.update r.ring r.anfang (eintragVon stufe nachricht)
      anfang := (r.anfang + 1) % logPlaetze
      verworfen := saturatingAdd r.verworfen 1
      anfang_lt := Nat.mod_lt _ (by decide) })

def setFilter (r : LogRing) (stufe : Stufe) : LogRing := { r with filter := stufe }

def eintrag (r : LogRing) (i : Nat) : Option Eintrag :=
  if r.n ≤ i then none else some (r.ring ((r.anfang + i) % logPlaetze))

def pop (r : LogRing) : Option Eintrag × LogRing :=
  if r.n = 0 then (none, r)
  else
    (some (r.ring r.anfang), { r with
      anfang := (r.anfang + 1) % logPlaetze
      n := r.n - 1
      anfang_lt := Nat.mod_lt _ (by decide)
      n_le := Nat.le_trans (Nat.sub_le _ _) r.n_le })

def leeren (r : LogRing) : LogRing :=
  { r with anfang := 0, n := 0, anfang_lt := by decide, n_le := Nat.zero_le _ }

def saetze (r : LogRing) : List (Stufe × List UInt8) :=
  (window r.ring logPlaetze r.anfang r.n).map Eintrag.satz

@[simp] theorem length_saetze (r : LogRing) : r.saetze.length = r.n := by
  simp [saetze]

theorem eintrag_satz (r : LogRing) (i : Nat) : (r.eintrag i).map Eintrag.satz = r.saetze[i]? := by
  rw [saetze, List.getElem?_map, getElem?_window, eintrag]
  by_cases hi : r.n ≤ i
  · rw [if_pos hi, if_neg (by omega)]
  · rw [if_neg hi, if_pos (by omega)]

theorem push_of_filter {r : LogRing} {stufe : Stufe} (h : stufe.rang < r.filter.rang)
    (nachricht : List UInt8) : r.push stufe nachricht =
      (false, { r with verworfen := saturatingAdd r.verworfen 1 }) := if_pos h

theorem push_of_room {r : LogRing} {stufe : Stufe} (h : ¬ stufe.rang < r.filter.rang)
    (hroom : r.n < logPlaetze) (nachricht : List UInt8) :
    (r.push stufe nachricht).1 = true ∧
      (r.push stufe nachricht).2.saetze = r.saetze ++ [(stufe, nachricht.take logText)] ∧
      (r.push stufe nachricht).2.n = r.n + 1 ∧
      (r.push stufe nachricht).2.verworfen = r.verworfen ∧
      (r.push stufe nachricht).2.filter = r.filter := by
  simp only [push, if_neg h, dif_pos hroom, saetze, true_and, and_true]
  rw [window_succ, Function.update_self, List.map_append, window_update, List.map_singleton,
    satz_eintragVon]
  intro k hk
  exact add_mod_ne hk hroom

theorem push_of_full {r : LogRing} {stufe : Stufe} (h : ¬ stufe.rang < r.filter.rang)
    (hfull : ¬ r.n < logPlaetze) (nachricht : List UInt8) :
    (r.push stufe nachricht).1 = true ∧
      (r.push stufe nachricht).2.saetze = r.saetze.tail ++ [(stufe, nachricht.take logText)] ∧
      (r.push stufe nachricht).2.n = r.n ∧
      (r.push stufe nachricht).2.verworfen = saturatingAdd r.verworfen 1 ∧
      (r.push stufe nachricht).2.filter = r.filter := by
  have hn : r.n = 63 + 1 := by
    have hle := r.n_le
    simp only [logPlaetze] at hle hfull
    omega
  have hlast : ((r.anfang + 1) % logPlaetze + 63) % logPlaetze = r.anfang := by
    have hlt := r.anfang_lt
    simp only [logPlaetze] at hlt ⊢
    omega
  simp only [push, if_neg h, dif_neg hfull, saetze, true_and, and_true]
  rw [hn, window_succ, hlast, Function.update_self, window_cons _ r.anfang_lt, List.map_append,
    window_update, List.map_singleton, satz_eintragVon, List.map_cons, List.tail_cons]
  intro k hk
  rw [succ_mod_add]
  intro heq
  have hne : (r.anfang + 0) % logPlaetze ≠ (r.anfang + (k + 1)) % logPlaetze :=
    add_mod_ne (Nat.succ_pos k) (by simp only [logPlaetze]; omega)
  rw [heq, Nat.add_zero, Nat.mod_eq_of_lt r.anfang_lt] at hne
  exact hne rfl

theorem pop_of_empty {r : LogRing} (h : r.n = 0) : r.pop = (none, r) := if_pos h

theorem pop_of_pos {r : LogRing} (h : r.n ≠ 0) :
    r.pop.1.map Eintrag.satz = r.saetze.head? ∧ r.pop.2.saetze = r.saetze.tail ∧
      r.pop.1.isSome = true ∧ r.pop.2.n + 1 = r.n := by
  obtain ⟨n, hn⟩ := Nat.exists_eq_succ_of_ne_zero h
  simp only [pop, if_neg h, saetze, Option.map_some, Option.isSome_some, true_and]
  rw [hn, Nat.succ_sub_one, window_cons _ r.anfang_lt, List.map_cons]
  exact ⟨rfl, rfl, rfl⟩

end LogRing

inductive Op where
  | push (stufe : Stufe) (nachricht : List UInt8)
  | pop
  | setFilter (stufe : Stufe)
  | leeren
  | eintrag (i : Nat)
  | len

inductive Antwort where
  | nichts
  | abgelegt (ja : Bool)
  | satz (s : Option (Stufe × List UInt8))
  | zahl (n : Nat)
  deriving DecidableEq, Repr

def LogRing.step (r : LogRing) : Op → Antwort × LogRing
  | .push stufe nachricht => (.abgelegt (r.push stufe nachricht).1, (r.push stufe nachricht).2)
  | .pop => (.satz (r.pop.1.map Eintrag.satz), r.pop.2)
  | .setFilter stufe => (.nichts, r.setFilter stufe)
  | .leeren => (.nichts, r.leeren)
  | .eintrag i => (.satz ((r.eintrag i).map Eintrag.satz), r)
  | .len => (.zahl r.n, r)

/-- What the ring is for: the last `logPlaetze` messages that the filter let through. -/
structure Liste where
  saetze : List (Stufe × List UInt8)
  filter : Stufe

namespace Liste

def leer : Liste := ⟨[], .info⟩

def gekappt (l : Liste) : List (Stufe × List UInt8) :=
  if l.saetze.length < logPlaetze then l.saetze else l.saetze.tail

def step (l : Liste) : Op → Antwort × Liste
  | .push stufe nachricht =>
      if stufe.rang < l.filter.rang then (.abgelegt false, l)
      else (.abgelegt true, { l with saetze := l.gekappt ++ [(stufe, nachricht.take logText)] })
  | .pop => (.satz l.saetze.head?, { l with saetze := l.saetze.tail })
  | .setFilter stufe => (.nichts, { l with filter := stufe })
  | .leeren => (.nichts, { l with saetze := [] })
  | .eintrag i => (.satz l.saetze[i]?, l)
  | .len => (.zahl l.saetze.length, l)

end Liste

structure Verlauf where
  ring : LogRing
  gepusht : Nat
  gezogen : Nat
  geleert : Nat

namespace Verlauf

def anfang : Verlauf := ⟨.new, 0, 0, 0⟩

def step (v : Verlauf) (op : Op) : Antwort × Verlauf :=
  let r := v.ring.step op
  match op with
  | .push _ _ => (r.1, { v with ring := r.2, gepusht := v.gepusht + 1 })
  | .pop => (r.1, { v with ring := r.2, gezogen := v.gezogen + v.ring.pop.1.toList.length })
  | .leeren => (r.1, { v with ring := r.2, geleert := v.geleert + v.ring.n })
  | _ => (r.1, { v with ring := r.2 })

/-- Every message is still there, was taken out, was cleared away or is counted as lost. -/
def Bilanz (v : Verlauf) : Prop :=
  v.gepusht < 2 ^ 64 → v.gepusht = v.ring.n + v.gezogen + v.geleert + v.ring.verworfen

theorem step_bilanz (v : Verlauf) (op : Op) (h : v.Bilanz) : (v.step op).2.Bilanz := by
  unfold Bilanz at h ⊢
  cases op with
  | push stufe nachricht =>
    simp only [step, LogRing.step]
    intro hlt
    have hprev := h (by omega)
    have hsat : saturatingAdd v.ring.verworfen 1 = v.ring.verworfen + 1 := by
      unfold saturatingAdd
      omega
    by_cases hfilter : stufe.rang < v.ring.filter.rang
    · rw [LogRing.push_of_filter hfilter]
      simp only [hsat]
      omega
    · by_cases hroom : v.ring.n < logPlaetze
      · obtain ⟨-, -, hn, hlost, -⟩ := LogRing.push_of_room hfilter hroom nachricht
        omega
      · obtain ⟨-, -, hn, hlost, -⟩ := LogRing.push_of_full hfilter hroom nachricht
        omega
  | pop =>
    simp only [step, LogRing.step]
    intro hlt
    have hprev := h hlt
    by_cases hn : v.ring.n = 0
    · rw [LogRing.pop_of_empty hn]
      simpa using hprev
    · simp only [LogRing.pop, if_neg hn, Option.toList_some, List.length_singleton]
      omega
  | leeren =>
    simp only [step, LogRing.step, LogRing.leeren]
    omega
  | setFilter stufe | eintrag i | len => exact h

structure Steht (v : Verlauf) (l : Liste) : Prop where
  saetze : v.ring.saetze = l.saetze
  filter : v.ring.filter = l.filter
  bilanz : v.Bilanz

theorem step_push {v : Verlauf} {l : Liste} (h : v.Steht l) (stufe : Stufe)
    (nachricht : List UInt8) :
    (v.step (.push stufe nachricht)).1 = (l.step (.push stufe nachricht)).1 ∧
      (v.step (.push stufe nachricht)).2.Steht (l.step (.push stufe nachricht)).2 := by
  have hbilanz := step_bilanz v (.push stufe nachricht) h.bilanz
  have hlen : l.saetze.length = v.ring.n := by rw [← h.saetze, LogRing.length_saetze]
  simp only [step, LogRing.step] at hbilanz ⊢
  by_cases hfilter : stufe.rang < v.ring.filter.rang
  · have hfilter' : stufe.rang < l.filter.rang := by rwa [← h.filter]
    rw [LogRing.push_of_filter hfilter] at hbilanz ⊢
    simp only [Liste.step, if_pos hfilter']
    exact ⟨trivial, h.saetze, h.filter, hbilanz⟩
  · have hfilter' : ¬ stufe.rang < l.filter.rang := by rwa [← h.filter]
    simp only [Liste.step, if_neg hfilter', Liste.gekappt, hlen]
    by_cases hroom : v.ring.n < logPlaetze
    · obtain ⟨hyes, hsaetze, -, -, hsame⟩ := LogRing.push_of_room hfilter hroom nachricht
      rw [if_pos hroom]
      exact ⟨congrArg _ hyes, by rw [hsaetze, h.saetze], hsame.trans h.filter, hbilanz⟩
    · obtain ⟨hyes, hsaetze, -, -, hsame⟩ := LogRing.push_of_full hfilter hroom nachricht
      rw [if_neg hroom]
      exact ⟨congrArg _ hyes, by rw [hsaetze, h.saetze], hsame.trans h.filter, hbilanz⟩

theorem step_pop {v : Verlauf} {l : Liste} (h : v.Steht l) :
    (v.step .pop).1 = (l.step .pop).1 ∧ (v.step .pop).2.Steht (l.step .pop).2 := by
  have hbilanz := step_bilanz v .pop h.bilanz
  simp only [step, LogRing.step, Liste.step, ← h.saetze] at hbilanz ⊢
  by_cases hn : v.ring.n = 0
  · have hnil : v.ring.saetze = [] := List.eq_nil_of_length_eq_zero (by simpa using hn)
    rw [LogRing.pop_of_empty hn] at hbilanz ⊢
    simp only [hnil, Option.map_none, List.head?_nil, List.tail_nil]
    exact ⟨trivial, hnil, h.filter, hbilanz⟩
  · obtain ⟨hhead, htail, -⟩ := LogRing.pop_of_pos hn
    have hsame : v.ring.pop.2.filter = v.ring.filter := by simp only [LogRing.pop, if_neg hn]
    exact ⟨congrArg _ hhead, htail, hsame.trans h.filter, hbilanz⟩

theorem simulates : Answers.Simulates step Liste.step Steht := by
  have hboth : ∀ {v l}, Steht v l → ∀ op,
      (v.step op).1 = (l.step op).1 ∧ (v.step op).2.Steht (l.step op).2 := by
    intro v l h op
    have hbilanz := step_bilanz v op h.bilanz
    cases op with
    | push stufe nachricht => exact step_push h stufe nachricht
    | pop => exact step_pop h
    | setFilter stufe => exact ⟨rfl, h.saetze, rfl, hbilanz⟩
    | leeren => exact ⟨rfl, rfl, h.filter, hbilanz⟩
    | eintrag i =>
      refine ⟨?_, h.saetze, h.filter, hbilanz⟩
      simp only [step, LogRing.step, Liste.step, LogRing.eintrag_satz, h.saetze]
    | len =>
      refine ⟨?_, h.saetze, h.filter, hbilanz⟩
      simp only [step, LogRing.step, Liste.step, ← h.saetze, LogRing.length_saetze]
  exact ⟨fun h op => (hboth h op).1, fun h op => (hboth h op).2⟩

end Verlauf

/-- Whatever the calls, the ring answers as the list does, holds what it holds, and its books
balance for the first `2 ^ 64 - 1` messages. -/
theorem logRing_liste (ops : List Op) :
    let lauf := Answers.play Verlauf.step .anfang ops
    let liste := Answers.play Liste.step .leer ops
    lauf.1 = liste.1 ∧ lauf.2.ring.saetze = liste.2.saetze ∧
      lauf.2.ring.filter = liste.2.filter ∧
      (lauf.2.gepusht < 2 ^ 64 → lauf.2.gepusht =
        lauf.2.ring.n + lauf.2.gezogen + lauf.2.geleert + lauf.2.ring.verworfen) := by
  have hstart : Verlauf.anfang.Steht Liste.leer := ⟨rfl, rfl, fun _ => rfl⟩
  obtain ⟨hanswers, hstate⟩ := Verlauf.simulates.play hstart ops
  exact ⟨hanswers, hstate.saetze, hstate.filter, hstate.bilanz⟩

/-- A message is kept, read and taken out; one below the filter is counted. -/
theorem logRing_ein_satz :
    let ops : List Op := [.push .warn [104, 105], .eintrag 0, .setFilter .err, .push .info [], .pop]
    let lauf := Answers.play Verlauf.step .anfang ops
    lauf.1 = [.abgelegt true, .satz (some (.warn, [104, 105])), .nichts, .abgelegt false,
      .satz (some (.warn, [104, 105]))] ∧ lauf.2.gepusht = 2 ∧
      lauf.2.gepusht = lauf.2.ring.n + lauf.2.gezogen + lauf.2.geleert + lauf.2.ring.verworfen := by
  refine ⟨?_, rfl, ?_⟩
  · rw [(logRing_liste _).1]
    rfl
  · exact (logRing_liste _).2.2.2 (by decide)

end Caprock.Log
