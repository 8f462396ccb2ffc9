import Caprock.Lib.RingBuffer
import Caprock.Sched.Parking

/-! # The load queue

A thread that loads a program hands its order to the one verifier thread and is blocked for it.
The orders wait in a ring of four; blocking and publishing are one locked section, and the wake-up
of the verifier comes after it.  The verifier takes orders until there is none and then parks.

The model runs any number of threads in any order.  A step of the verifier or of a submitting
thread needs that the thread neither waits for an answer nor parks; a thread held for another
reason may be still on its core.  What `park` and `unpark` do to a thread is the scheduler's
(`Scheduler.faden_parkCurrent`, `Scheduler.faden_unpark`), and so is the answer
(`Scheduler.faden_grundAufheben`).  The outcome of loading is an input.
-/

namespace Caprock.Kernel

open Sched Execution

def auftraegeMax : Nat := 4

def endowMax : Nat := 8

structure Bildquelle where
  phys : Nat
  len : Nat
  pid : Nat
  deriving DecidableEq

structure Auftrag where
  index : Nat
  bild : Option Bildquelle
  callerPd : Nat
  caller : ThreadId
  heimatkern : Nat
  endow : Vector (Option (Nat × CapPtr)) endowMax
  capBudget : Nat
  dmaPages : Nat
  deriving DecidableEq

def dichten (endow : List (Nat × CapPtr)) : Vector (Option (Nat × CapPtr)) endowMax :=
  Vector.ofFn fun i => endow[i.val]?

def Auftrag.ausArchiv (index callerPd : Nat) (endow : List (Nat × CapPtr)) (caller : ThreadId)
    (heimatkern capBudget dmaPages : Nat) : Auftrag :=
  ⟨index, none, callerPd, caller, heimatkern, dichten endow, capBudget, dmaPages⟩

def Auftrag.ausBild (bildPhys bildLen pid callerPd : Nat) (endow : List (Nat × CapPtr))
    (caller : ThreadId) (heimatkern capBudget dmaPages : Nat) : Auftrag :=
  ⟨u32Max, some ⟨bildPhys, bildLen, pid⟩, callerPd, caller, heimatkern, dichten endow, capBudget,
    dmaPages⟩

structure Schlange where
  eintraege : Nat → Option Auftrag
  kopf : Nat
  anzahl : Nat

namespace Schlange

def leer : Schlange := ⟨fun _ => none, 0, 0⟩

def platzNehmen (q : Schlange) : Option (Nat × Schlange) :=
  if q.anzahl = auftraegeMax then none
  else some ((q.kopf + q.anzahl) % auftraegeMax, { q with anzahl := q.anzahl + 1 })

def belegen (q : Schlange) (i : Nat) (a : Auftrag) : Schlange :=
  { q with eintraege := Function.update q.eintraege i (some a) }

/-- The second number is `VERLOREN`: it counts places that were reserved and never written. -/
def entnehmen (q : Schlange) (verloren : Nat) : Option Auftrag × Schlange × Nat :=
  if q.anzahl = 0 then (none, q, verloren)
  else
    let a := q.eintraege q.kopf
    (a,
      { eintraege := Function.update q.eintraege q.kopf none
        kopf := (q.kopf + 1) % auftraegeMax
        anzahl := q.anzahl - 1 },
      if a = none then verloren + 1 else verloren)

def wartend (q : Schlange) : List Auftrag :=
  RingBuffer.read q.eintraege auftraegeMax q.kopf q.anzahl

/-- Outside the locked section every reserved place is written: the ring is a ring buffer. -/
def Gut (q : Schlange) : Prop :=
  ∃ r : RingBuffer Auftrag auftraegeMax, q = ⟨r.buf, r.head, r.count⟩

variable {q q' : Schlange} {i : Nat}

theorem gut_leer : leer.Gut := ⟨RingBuffer.empty (by decide), rfl⟩

/-- A reserved place that is written is the ring buffer's `push`. -/
theorem Gut.belegen (h : q.Gut) (hp : q.platzNehmen = some (i, q')) (a : Auftrag) :
    (q'.belegen i a).Gut ∧ (q'.belegen i a).wartend = q.wartend ++ [a] := by
  obtain ⟨r, rfl⟩ := h
  unfold platzNehmen at hp
  split at hp
  · cases hp
  · next hroom =>
    cases hp
    have hlt : r.count < auftraegeMax := Nat.lt_of_le_of_ne r.count_le hroom
    have hpush := (RingBuffer.push_of_room hlt a).2
    have heq : (r.push a).2.buf = Function.update r.buf ((r.head + r.count) % auftraegeMax) (some a) ∧
        (r.push a).2.head = r.head ∧ (r.push a).2.count = r.count + 1 := by
      simp [RingBuffer.push, Nat.not_le.mpr hlt, r.tail_eq]
    refine ⟨⟨(r.push a).2, ?_⟩, ?_⟩
    · rw [heq.1, heq.2.1, heq.2.2]
      rfl
    · rw [RingBuffer.toList, heq.1, heq.2.1, heq.2.2] at hpush
      exact hpush

/-- What `entnehmen` gives is the ring buffer's `pop`; no place is found unwritten. -/
theorem Gut.entnehmen (h : q.Gut) (n : Nat) :
    (q.wartend = [] ∧ q.entnehmen n = (none, q, n)) ∨
      ∃ a q', q.wartend = a :: q'.wartend ∧ q'.Gut ∧ q.entnehmen n = (some a, q', n) := by
  obtain ⟨r, rfl⟩ := h
  cases hlist : r.toList with
  | nil =>
    have hzero : r.count = 0 := by rw [← RingBuffer.length_toList, hlist, List.length_nil]
    exact .inl ⟨hlist, by simp [Schlange.entnehmen, hzero]⟩
  | cons a rest =>
    have hpos : r.count ≠ 0 := by
      rw [← RingBuffer.length_toList, hlist]
      simp
    obtain ⟨hfront, hrest⟩ := RingBuffer.pop_of_cons hlist
    simp only [RingBuffer.pop, dif_neg hpos] at hfront hrest
    refine .inr ⟨a, _, ?_, ⟨r.pop.2, rfl⟩, ?_⟩
    · simp only [RingBuffer.pop, dif_neg hpos]
      exact hlist.trans (congrArg (a :: ·) hrest.symm)
    · simp [Schlange.entnehmen, RingBuffer.pop, hpos, hfront]

end Schlange

/-- `LadeUebergabe`, without the stack pointer of the next thread. -/
inductive Uebergabe where
  | uebergeben
  | ausgelastet
  | keinVerifizierer
  deriving DecidableEq, Repr

/-- What an answer leaves in the frame of the caller. -/
structure Rahmen where
  result : Nat
  badge : Option Nat
  deriving DecidableEq, Repr

/-- `OK` with the new domain, or `ERR_BADCAP`. -/
def rahmen : Option Nat → Rahmen
  | some pd => ⟨0, some pd⟩
  | none => ⟨1, none⟩

/-- A processed order; `rahmen` is `none` if the caller could no longer be found. -/
structure Antwort where
  auftrag : Auftrag
  rahmen : Option Rahmen
  deriving DecidableEq

/-- A thread handle names one thread, which is not yet there, lives or is dead. -/
inductive Leben where
  | ungeboren
  | lebt (f : Faden)
  | tot
  deriving DecidableEq

namespace Leben

def map (g : Faden → Faden) : Leben → Leben
  | lebt f => lebt (g f)
  | l => l

def laeuft : Leben → Bool
  | lebt f => Grund.load ∉ f.reasons ∧ Grund.park ∉ f.reasons
  | _ => false

end Leben

/-- Where the verifier is in `rumpf`. -/
inductive Lage where
  | entnehmen
  | laden (a : Auftrag)
  | parken
  deriving DecidableEq

def Lage.auftraege : Lage → List Auftrag
  | laden a => [a]
  | _ => []

structure Stand where
  angenommen : Nat
  abgewiesen : Nat
  ohneThread : Nat
  bearbeitet : Nat
  antwortInsLeere : Nat
  hoechststand : Nat
  verloren : Nat
  deriving DecidableEq

structure Anlage where
  schlange : Schlange
  /-- `VERIFIZIERER`. -/
  verifizierer : Option ThreadId
  faeden : ThreadId → Leben
  lage : Lage
  /-- The submitters that have left the lock and not yet called `unpark`. -/
  offen : List ThreadId
  stand : Stand
  /-- All orders ever accepted, in order of acceptance. -/
  angenommen : List Auftrag
  /-- All orders ever processed, in order of processing. -/
  beantwortet : List Antwort

inductive Vorgang where
  /-- `starten` stores the verifier's handle. -/
  | melden
  | entstehen (t : ThreadId)
  | sterben (t : ThreadId)
  /-- The locked section, run by the caller of the order. -/
  | einreihen (a : Auftrag)
  /-- The `unpark` after it. -/
  | wecken (t : ThreadId)
  | naechster
  | antworten (pd : Option Nat)
  | parken
  /-- Someone wakes a thread. -/
  | unparken (t : ThreadId)
  /-- A thread other than the verifier parks. -/
  | schlafen (t : ThreadId)
  /-- A thread is held for a reason that is neither `load` nor `park`. -/
  | anhalten (t : ThreadId) (g : Grund)
  | fortsetzen (t : ThreadId) (g : Grund)
  deriving DecidableEq

namespace Anlage

def amFaden (s : Anlage) (t : ThreadId) (g : Faden → Faden) : Anlage :=
  { s with faeden := Function.update s.faeden t ((s.faeden t).map g) }

/-- `einreihen` up to the release of the lock; `blockieren` blocks the running thread, which is the
caller. -/
def einreihen (s : Anlage) (auftrag : Auftrag) : Uebergabe × Anlage :=
  match s.verifizierer with
  | none =>
      (.keinVerifizierer, { s with stand := { s.stand with ohneThread := s.stand.ohneThread + 1 } })
  | some _ =>
      match s.schlange.platzNehmen with
      | none =>
          (.ausgelastet, { s with stand := { s.stand with abgewiesen := s.stand.abgewiesen + 1 } })
      | some (platz, q) =>
          let blockiert := s.amFaden auftrag.caller fun f => f.anhalten .load
          (.uebergeben,
            { blockiert with
              schlange := q.belegen platz auftrag
              offen := auftrag.caller :: s.offen
              stand := { s.stand with
                angenommen := s.stand.angenommen + 1
                hoechststand := max s.stand.hoechststand q.anzahl }
              angenommen := s.angenommen ++ [auftrag] })

def uebergeben (s : Anlage) (index callerPd : Nat) (endow : List (Nat × CapPtr)) (caller : ThreadId)
    (heimatkern capBudget dmaPages : Nat) : Uebergabe × Anlage :=
  s.einreihen (.ausArchiv index callerPd endow caller heimatkern capBudget dmaPages)

def uebergebenBild (s : Anlage) (bildPhys bildLen pid callerPd : Nat) (endow : List (Nat × CapPtr))
    (caller : ThreadId) (heimatkern capBudget dmaPages : Nat) : Uebergabe × Anlage :=
  s.einreihen (.ausBild bildPhys bildLen pid callerPd endow caller heimatkern capBudget dmaPages)

/-- `naechster`, and the turn `rumpf` takes on its answer. -/
def naechster (s : Anlage) : Anlage :=
  match s.schlange.entnehmen s.stand.verloren with
  | (some a, q, verloren) =>
      { s with
        schlange := q
        lage := .laden a
        stand := { s.stand with verloren := verloren, bearbeitet := s.stand.bearbeitet + 1 } }
  | (none, q, verloren) =>
      { s with schlange := q, lage := .parken, stand := { s.stand with verloren := verloren } }

def ladeAntwort (s : Anlage) (caller : ThreadId) : Bool × Anlage :=
  match s.faeden caller with
  | .lebt _ => (true, s.amFaden caller fun f => f.aufheben .load)
  | _ => (false, s)

def antworten (s : Anlage) (a : Auftrag) (pd : Option Nat) : Anlage :=
  match s.ladeAntwort a.caller with
  | (true, s') =>
      { s' with lage := .entnehmen, beantwortet := s'.beantwortet ++ [⟨a, some (rahmen pd)⟩] }
  | (false, s') =>
      { s' with
        lage := .entnehmen
        beantwortet := s'.beantwortet ++ [⟨a, none⟩]
        stand := { s'.stand with antwortInsLeere := s'.stand.antwortInsLeere + 1 } }

/-- One step; `v` is the verifier. -/
def schritt (v : ThreadId) (s : Anlage) : Vorgang → Option Anlage
  | .melden => some { s with verifizierer := some v }
  | .entstehen t =>
      if s.faeden t = .ungeboren then
        some { s with faeden := Function.update s.faeden t (.lebt ⟨∅, false⟩) }
      else none
  | .sterben t =>
      if t ≠ v ∧ s.faeden t ≠ .ungeboren then
        some { s with faeden := Function.update s.faeden t .tot }
      else none
  | .einreihen a =>
      if a.caller ≠ v ∧ (s.faeden a.caller).laeuft then some (s.einreihen a).2 else none
  | .wecken t =>
      if t ∈ s.offen then some { s.amFaden v Faden.unpark with offen := s.offen.erase t } else none
  | .naechster => if s.lage = .entnehmen ∧ (s.faeden v).laeuft then some s.naechster else none
  | .antworten pd =>
      match s.lage with
      | .laden a => if (s.faeden v).laeuft then some (s.antworten a pd) else none
      | _ => none
  | .parken =>
      if s.lage = .parken ∧ (s.faeden v).laeuft then
        some { s.amFaden v Faden.parkCurrent with lage := .entnehmen }
      else none
  | .unparken t => some (s.amFaden t Faden.unpark)
  | .schlafen t =>
      if t ≠ v ∧ (s.faeden t).laeuft then some (s.amFaden t Faden.parkCurrent) else none
  | .anhalten t g =>
      if g ≠ .load ∧ g ≠ .park then some (s.amFaden t fun f => f.anhalten g) else none
  | .fortsetzen t g =>
      if g ≠ .load ∧ g ≠ .park then some (s.amFaden t fun f => f.aufheben g) else none

/-- The verifier has been admitted and not yet announced. -/
def anfang (v : ThreadId) : Anlage where
  schlange := .leer
  verifizierer := none
  faeden := fun t => if t = v then .lebt ⟨∅, false⟩ else .ungeboren
  lage := .entnehmen
  offen := []
  stand := ⟨0, 0, 0, 0, 0, 0, 0⟩
  angenommen := []
  beantwortet := []

def ausstehend (s : Anlage) : List Auftrag := s.lage.auftraege ++ s.schlange.wartend

/-- The threads that wait are the callers of outstanding orders. -/
structure Wartet (v : ThreadId) (s : Anlage) : Prop where
  load : ∀ t f, s.faeden t = .lebt f →
    (Grund.load ∈ f.reasons ↔ t ∈ s.ausstehend.map Auftrag.caller)
  geboren : ∀ a ∈ s.ausstehend, s.faeden a.caller ≠ .ungeboren
  einzeln : (s.ausstehend.map Auftrag.caller).Nodup
  fremd : v ∉ s.ausstehend.map Auftrag.caller
  stumm : ∀ b ∈ s.beantwortet, b.rahmen = none → s.faeden b.auftrag.caller = .tot

/-- The verifier parks only after it has found the ring empty, and orders that came since have a
wake-up on its way. -/
structure Wach (f : Faden) (s : Anlage) : Prop where
  schlaf : Grund.park ∈ f.reasons → s.lage = .entnehmen ∧ f.parkWake = false
  wach : s.schlange.wartend ≠ [] →
    s.offen ≠ [] ∨ f.parkWake = true ∨ (s.lage ≠ .parken ∧ Grund.park ∉ f.reasons)

structure Ordnung (v : ThreadId) (s : Anlage) : Prop where
  ring : s.schlange.Gut
  reihe : s.angenommen = s.beantwortet.map Antwort.auftrag ++ s.ausstehend
  verloren : s.stand.verloren = 0
  wartet : s.Wartet v
  wach : ∃ f, s.faeden v = .lebt f ∧ s.Wach f

end Anlage

inductive Leben.Ruhig : Leben → Leben → Prop
  | gleich (l : Leben) : Ruhig l l
  | entsteht {f : Faden} (h : Grund.load ∉ f.reasons) : Ruhig .ungeboren (.lebt f)
  | lebt {f f' : Faden} (h : Grund.load ∈ f'.reasons ↔ Grund.load ∈ f.reasons) :
      Ruhig (.lebt f) (.lebt f')
  | stirbt {l : Leben} (h : l ≠ .ungeboren) : Ruhig l .tot

namespace Leben

theorem laeuft_iff {l : Leben} : l.laeuft = true ↔
    ∃ f, l = lebt f ∧ Grund.load ∉ f.reasons ∧ Grund.park ∉ f.reasons := by
  cases l with
  | ungeboren | lebt f | tot => simp [laeuft]

theorem ruhig_map {g : Faden → Faden}
    (h : ∀ f, Grund.load ∈ (g f).reasons ↔ Grund.load ∈ f.reasons) (l : Leben) :
    Ruhig l (l.map g) := by
  cases l with
  | ungeboren | tot => exact .gleich _
  | lebt f => exact .lebt (h f)

end Leben

namespace Anlage

variable {v t : ThreadId} {s s' : Anlage} {f : Faden} {a : Auftrag} {g : Faden → Faden}

theorem faeden_amFaden (s : Anlage) (t x : ThreadId) (g : Faden → Faden) :
    (s.amFaden t g).faeden x = if x = t then (s.faeden x).map g else s.faeden x := by
  change Function.update s.faeden t ((s.faeden t).map g) x = _
  by_cases hx : x = t
  · subst hx
    rw [Function.update_self, if_pos rfl]
  · rw [Function.update_of_ne hx, if_neg hx]

theorem faeden_amFaden_of_ne (h : v ≠ t) : (s.amFaden t g).faeden v = s.faeden v := by
  rw [faeden_amFaden, if_neg h]

theorem faeden_amFaden_self (h : s.faeden t = .lebt f) :
    (s.amFaden t g).faeden t = .lebt (g f) := by
  rw [faeden_amFaden, if_pos rfl, h]
  rfl

theorem Wartet.ruhig (hi : s.Wartet v) (hf : ∀ t, (s.faeden t).Ruhig (s'.faeden t))
    (ha : s'.ausstehend = s.ausstehend) (hb : s'.beantwortet = s.beantwortet) : s'.Wartet v := by
  refine ⟨fun t f hlebt => ?_, fun a hmem => ?_, ha ▸ hi.einzeln, ha ▸ hi.fremd, fun b hmem hr => ?_⟩
  · have hstep := hf t
    rw [hlebt] at hstep
    rw [ha]
    generalize hvor : s.faeden t = l at hstep
    cases hstep with
    | gleich => exact hi.load t f hvor
    | entsteht hfrei =>
      refine iff_of_false hfrei fun hmem => ?_
      obtain ⟨a, ha', rfl⟩ := List.mem_map.mp hmem
      exact hi.geboren a ha' hvor
    | lebt hgleich => exact hgleich.trans (hi.load t _ hvor)
  · rw [ha] at hmem
    have hvor := hi.geboren a hmem
    intro hnach
    have hstep := hf a.caller
    rw [hnach] at hstep
    generalize hl : s.faeden a.caller = l at hstep hvor
    cases hstep with
    | gleich => exact hvor rfl
  · rw [hb] at hmem
    have hstep := hf b.auftrag.caller
    rw [hi.stumm b hmem hr] at hstep
    generalize s'.faeden b.auftrag.caller = l at hstep
    cases hstep with
    | gleich | stirbt => rfl

theorem Wach.congr (hi : s.Wach f) (hq : s'.schlange = s.schlange) (hl : s'.lage = s.lage)
    (ho : s'.offen = s.offen) : s'.Wach f :=
  ⟨fun h => hl ▸ hi.schlaf h, fun h => hl ▸ ho ▸ hi.wach (hq ▸ h)⟩

theorem Wach.unpark (hi : s.Wach f) (hl : s'.lage = s.lage) : s'.Wach f.unpark := by
  unfold Faden.unpark
  by_cases hpark : Grund.park ∈ f.reasons
  · rw [if_pos hpark]
    have hweg : Grund.park ∉ (f.aufheben .park).reasons := fun h => (Faden.mem_aufheben.mp h).1 rfl
    refine ⟨fun h => absurd h hweg, fun _ => .inr (.inr ⟨?_, hweg⟩)⟩
    rw [hl, (hi.schlaf hpark).1]
    exact Lage.noConfusion
  · rw [if_neg hpark]
    exact ⟨fun h => absurd h hpark, fun _ => .inr (.inl rfl)⟩

/-- The verifier parks, or takes the mark and looks again. -/
theorem Wach.parkCurrent (hi : s.Wach f) (hlage : s.lage = .parken) (hl : s'.lage = .entnehmen)
    (hq : s'.schlange = s.schlange) (ho : s'.offen = s.offen) : s'.Wach f.parkCurrent := by
  have hfrei : Grund.park ∉ f.reasons := by
    intro hpark
    have hweg := (hi.schlaf hpark).1
    rw [hlage] at hweg
    cases hweg
  unfold Faden.parkCurrent
  by_cases hmark : f.parkWake = true
  · rw [if_pos hmark]
    refine ⟨fun h => absurd h hfrei, fun _ => .inr (.inr ⟨?_, hfrei⟩)⟩
    rw [hl]
    exact Lage.noConfusion
  · rw [if_neg hmark]
    refine ⟨fun _ => ⟨hl, Bool.eq_false_iff.mpr hmark⟩, fun hne => ?_⟩
    rw [hq] at hne
    rcases hi.wach hne with hoffen | hm | hrest
    · exact .inl (ho ▸ hoffen)
    · exact absurd hm hmark
    · exact absurd hlage hrest.1

theorem Wach.reasons {f' : Faden} (hi : s.Wach f)
    (hpark : Grund.park ∈ f'.reasons ↔ Grund.park ∈ f.reasons) (hmark : f'.parkWake = f.parkWake) :
    s.Wach f' :=
  ⟨fun h => hmark ▸ hi.schlaf (hpark.mp h), fun h => by rw [hmark, hpark]; exact hi.wach h⟩

namespace Ordnung

theorem anfang (v : ThreadId) : (anfang v).Ordnung v where
  ring := Schlange.gut_leer
  reihe := rfl
  verloren := rfl
  wartet := by
    refine ⟨fun t f hlebt => ?_, ?_, List.nodup_nil, by simp [ausstehend, Anlage.anfang, Lage.auftraege,
      Schlange.leer, Schlange.wartend, RingBuffer.read], ?_⟩
    · refine iff_of_false ?_ ?_
      · unfold Anlage.anfang at hlebt
        dsimp only at hlebt
        split at hlebt
        · cases hlebt
          exact Finset.notMem_empty _
        · cases hlebt
      · exact List.not_mem_nil
    · intro a hmem
      cases hmem
    · intro b hmem
      cases hmem
  wach := ⟨⟨∅, false⟩, if_pos rfl, ⟨fun h => absurd h (Finset.notMem_empty _), fun h => absurd rfl h⟩⟩

theorem ruhig (hi : s.Ordnung v) (hf : ∀ t, (s.faeden t).Ruhig (s'.faeden t))
    (hq : s'.schlange = s.schlange) (hl : s'.lage.auftraege = s.lage.auftraege)
    (han : s'.angenommen = s.angenommen) (hb : s'.beantwortet = s.beantwortet)
    (hst : s'.stand.verloren = s.stand.verloren) (hw : ∃ f, s'.faeden v = .lebt f ∧ s'.Wach f) :
    s'.Ordnung v := by
  have ha : s'.ausstehend = s.ausstehend := by rw [ausstehend, ausstehend, hq, hl]
  exact ⟨hq ▸ hi.ring, by rw [han, hb, ha]; exact hi.reihe, hst ▸ hi.verloren,
    hi.wartet.ruhig hf ha hb, hw⟩

theorem ruhig_amFaden (h : ∀ f, Grund.load ∈ (g f).reasons ↔ Grund.load ∈ f.reasons) (x : ThreadId) :
    (s.faeden x).Ruhig ((s.amFaden t g).faeden x) := by
  rw [faeden_amFaden]
  split
  · exact Leben.ruhig_map h _
  · exact .gleich _

theorem amFaden (hi : s.Ordnung v) (h : ∀ f, Grund.load ∈ (g f).reasons ↔ Grund.load ∈ f.reasons)
    (hv : t = v → ∀ f, s.Wach f → s.Wach (g f)) : (s.amFaden t g).Ordnung v := by
  refine hi.ruhig (ruhig_amFaden h) rfl rfl rfl rfl rfl ?_
  obtain ⟨f, hlebt, hw⟩ := hi.wach
  by_cases heq : t = v
  · subst heq
    exact ⟨g f, faeden_amFaden_self hlebt, (hv rfl f hw).congr rfl rfl rfl⟩
  · exact ⟨f, (faeden_amFaden_of_ne fun h => heq h.symm).trans hlebt, hw.congr rfl rfl rfl⟩

theorem update (hi : s.Ordnung v) {l : Leben} (hl : (s.faeden t).Ruhig l) (hne : v ≠ t) :
    Ordnung v { s with faeden := Function.update s.faeden t l } := by
  obtain ⟨f, hf, hw⟩ := hi.wach
  refine hi.ruhig (fun x => ?_) rfl rfl rfl rfl rfl
    ⟨f, (Function.update_of_ne hne _ _).trans hf, hw.congr rfl rfl rfl⟩
  change (s.faeden x).Ruhig (Function.update s.faeden t l x)
  by_cases hx : x = t
  · subst hx
    rw [Function.update_self]
    exact hl
  · rw [Function.update_of_ne hx]
    exact .gleich _

theorem load_notMem (hi : s.Ordnung v) (h : s.faeden v = .lebt f) : Grund.load ∉ f.reasons :=
  fun hload => hi.wartet.fremd ((hi.wartet.load v f h).mp hload)

end Ordnung

theorem einreihen_abgewiesen (h : (s.einreihen a).1 ≠ .uebergeben) :
    ∃ stand, (s.einreihen a).2 = { s with stand := stand } ∧ stand.verloren = s.stand.verloren := by
  unfold einreihen at h ⊢
  cases hv : s.verifizierer with
  | none => exact ⟨_, rfl, rfl⟩
  | some w =>
    rw [hv] at h
    cases hp : s.schlange.platzNehmen with
    | none => exact ⟨_, rfl, rfl⟩
    | some r =>
      rw [hp] at h
      exact absurd rfl h

theorem einreihen_angenommen (hring : s.schlange.Gut) (h : (s.einreihen a).1 = .uebergeben) :
    ∃ q stand, (s.einreihen a).2 = { s.amFaden a.caller (fun f => f.anhalten .load) with
        schlange := q, offen := a.caller :: s.offen, stand := stand
        angenommen := s.angenommen ++ [a] } ∧
      q.Gut ∧ q.wartend = s.schlange.wartend ++ [a] ∧ stand.verloren = s.stand.verloren := by
  unfold einreihen at h ⊢
  cases hv : s.verifizierer with
  | none =>
    rw [hv] at h
    cases h
  | some w =>
    rw [hv] at h
    cases hp : s.schlange.platzNehmen with
    | none =>
      rw [hp] at h
      cases h
    | some r =>
      obtain ⟨i, q⟩ := r
      obtain ⟨hgut, hlist⟩ := hring.belegen hp a
      exact ⟨_, _, rfl, hgut, hlist, rfl⟩

namespace Ordnung

theorem einreihen (hi : s.Ordnung v) (hne : a.caller ≠ v) (hl : (s.faeden a.caller).laeuft = true) :
    (s.einreihen a).2.Ordnung v := by
  by_cases hu : (s.einreihen a).1 = .uebergeben
  · obtain ⟨q, stand, heq, hgut, hlist, hverl⟩ := einreihen_angenommen hi.ring hu
    obtain ⟨fa, hfa, hload, -⟩ := Leben.laeuft_iff.mp hl
    have hneu : a.caller ∉ s.ausstehend.map Auftrag.caller :=
      fun h => hload ((hi.wartet.load _ _ hfa).mpr h)
    generalize (s.einreihen a).2 = s' at heq
    have haus : s'.ausstehend = s.ausstehend ++ [a] := by
      rw [heq, ausstehend, ausstehend, List.append_assoc, ← hlist]
      rfl
    have hfaden : ∀ x, s'.faeden x =
        if x = a.caller then (s.faeden x).map (fun f => f.anhalten .load) else s.faeden x := by
      intro x
      rw [heq]
      exact faeden_amFaden s a.caller x _
    have hselbst : s'.faeden a.caller = .lebt (fa.anhalten .load) := by
      rw [hfaden, if_pos rfl, hfa]
      rfl
    obtain ⟨fv, hfv, hw⟩ := hi.wach
    refine ⟨heq ▸ hgut, ?_, heq ▸ hverl.trans hi.verloren, ⟨?_, ?_, ?_, ?_, ?_⟩, fv, ?_, ?_⟩
    · rw [haus, heq]
      exact (congrArg (· ++ [a]) hi.reihe).trans (List.append_assoc _ _ _)
    · intro t f hlebt
      rw [haus, List.map_append, List.mem_append]
      by_cases ht : t = a.caller
      · subst ht
        rw [hselbst] at hlebt
        cases hlebt
        exact iff_of_true (Faden.mem_anhalten.mpr (.inl rfl)) (.inr (List.mem_singleton.mpr rfl))
      · rw [hfaden, if_neg ht] at hlebt
        rw [hi.wartet.load t f hlebt]
        refine ⟨.inl, fun h => h.resolve_right fun hlast => ht ?_⟩
        exact List.mem_singleton.mp hlast
    · intro b hb
      rw [haus, List.mem_append] at hb
      by_cases ht : b.caller = a.caller
      · rw [ht, hselbst]
        exact Leben.noConfusion
      · rw [hfaden, if_neg ht]
        refine hi.wartet.geboren b (hb.resolve_right fun hlast => ht ?_)
        rw [List.mem_singleton.mp hlast]
    · rw [haus, List.map_append]
      refine List.Nodup.append hi.wartet.einzeln (List.nodup_singleton _) ?_
      intro x hx hlast
      obtain rfl := List.mem_singleton.mp hlast
      exact hneu hx
    · rw [haus, List.map_append, List.mem_append, not_or]
      exact ⟨hi.wartet.fremd, fun h => hne (List.mem_singleton.mp h).symm⟩
    · intro b hb hr
      rw [heq] at hb
      have htot := hi.wartet.stumm b hb hr
      have ht : b.auftrag.caller ≠ a.caller := by
        intro h
        rw [h, hfa] at htot
        cases htot
      rw [hfaden, if_neg ht]
      exact htot
    · rw [hfaden, if_neg fun h => hne h.symm]
      exact hfv
    · rw [heq]
      exact ⟨hw.schlaf, fun _ => .inl (List.cons_ne_nil _ _)⟩
  · obtain ⟨stand, heq, hverl⟩ := einreihen_abgewiesen hu
    rw [heq]
    obtain ⟨f, hf, hw⟩ := hi.wach
    exact hi.ruhig (fun t => .gleich _) rfl rfl rfl rfl hverl ⟨f, hf, hw.congr rfl rfl rfl⟩

end Ordnung

theorem naechster_cases (hring : s.schlange.Gut) :
    (s.schlange.wartend = [] ∧ s.naechster = { s with lage := .parken }) ∨
      ∃ a q stand, s.naechster = { s with schlange := q, lage := .laden a, stand := stand } ∧
        s.schlange.wartend = a :: q.wartend ∧ q.Gut ∧ stand.verloren = s.stand.verloren := by
  unfold naechster
  rcases hring.entnehmen s.stand.verloren with ⟨hleer, heq⟩ | ⟨a, q, hlist, hgut, heq⟩
  · rw [heq]
    exact .inl ⟨hleer, rfl⟩
  · rw [heq]
    exact .inr ⟨a, q, _, rfl, hlist, hgut, rfl⟩

/-- What an answer does: only `load` goes, and only if the caller lives. -/
theorem antworten_cases (s : Anlage) (a : Auftrag) (pd : Option Nat) :
    (∃ f, s.faeden a.caller = .lebt f ∧ s.antworten a pd =
        { s.amFaden a.caller (fun f => f.aufheben .load) with
          lage := .entnehmen, beantwortet := s.beantwortet ++ [⟨a, some (rahmen pd)⟩] }) ∨
      ∃ stand, s.antworten a pd = { s with
          lage := .entnehmen, beantwortet := s.beantwortet ++ [⟨a, none⟩], stand := stand } ∧
        (∀ f, s.faeden a.caller ≠ .lebt f) ∧ stand.verloren = s.stand.verloren := by
  unfold antworten ladeAntwort
  cases hl : s.faeden a.caller with
  | ungeboren | tot => exact .inr ⟨_, rfl, fun f => Leben.noConfusion, rfl⟩
  | lebt f => exact .inl ⟨f, rfl, rfl⟩

namespace Ordnung

theorem naechster (hi : s.Ordnung v) (hlage : s.lage = .entnehmen)
    (hl : (s.faeden v).laeuft = true) : s.naechster.Ordnung v := by
  obtain ⟨fv, hfv, hw⟩ := hi.wach
  obtain ⟨f, hf, -, hpark⟩ := Leben.laeuft_iff.mp hl
  obtain rfl : fv = f := Leben.lebt.inj (hfv.symm.trans hf)
  rcases naechster_cases hi.ring with ⟨hleer, heq⟩ | ⟨a, q, stand, heq, hlist, hgut, hverl⟩
  · rw [heq]
    refine hi.ruhig (fun t => .gleich _) rfl (by rw [hlage]; rfl) rfl rfl rfl ⟨fv, hfv, ?_⟩
    exact ⟨fun h => absurd h hpark, fun h => absurd hleer h⟩
  · have haus : s.ausstehend = a :: q.wartend := by
      rw [ausstehend, hlage, hlist]
      rfl
    rw [heq]
    refine ⟨hgut, hi.reihe.trans (congrArg _ haus), hverl.trans hi.verloren, ?_, fv, hfv, ?_⟩
    · exact hi.wartet.ruhig (fun t => .gleich _) haus.symm rfl
    · exact ⟨fun h => absurd h hpark, fun _ => .inr (.inr ⟨Lage.noConfusion, hpark⟩)⟩

theorem antworten (hi : s.Ordnung v) (hlage : s.lage = .laden a)
    (hl : (s.faeden v).laeuft = true) (pd : Option Nat) : (s.antworten a pd).Ordnung v := by
  obtain ⟨fv, hfv, hw⟩ := hi.wach
  obtain ⟨f, hf, -, hpark⟩ := Leben.laeuft_iff.mp hl
  obtain rfl : fv = f := Leben.lebt.inj (hfv.symm.trans hf)
  have haus : s.ausstehend = a :: s.schlange.wartend := by
    rw [ausstehend, hlage]
    rfl
  have hreihe : s.angenommen = (s.beantwortet.map Antwort.auftrag ++ [a]) ++ s.schlange.wartend := by
    rw [hi.reihe, haus, List.append_assoc]
    rfl
  have heinzeln := hi.wartet.einzeln
  have hload := hi.wartet.load
  have hgeboren := hi.wartet.geboren
  have hfremd := hi.wartet.fremd
  rw [haus, List.map_cons] at heinzeln hfremd
  simp only [haus, List.map_cons, List.mem_cons, forall_eq_or_imp] at hload hgeboren
  obtain ⟨hweg, hrest⟩ := List.nodup_cons.mp heinzeln
  have hne : v ≠ a.caller := List.ne_of_not_mem_cons hfremd
  rcases antworten_cases s a pd with ⟨fa, hfa, heq⟩ | ⟨stand, heq, htot, hverl⟩
  · rw [heq]
    refine ⟨hi.ring, ?_, hi.verloren, ⟨?_, ?_, hrest, List.not_mem_of_not_mem_cons hfremd, ?_⟩,
      fv, (faeden_amFaden_of_ne hne).trans hfv, ?_⟩
    · rw [List.map_append]
      exact hreihe
    · intro t f hlebt
      by_cases ht : t = a.caller
      · subst ht
        obtain rfl := Leben.lebt.inj ((faeden_amFaden_self hfa).symm.trans hlebt)
        exact iff_of_false (fun h => (Faden.mem_aufheben.mp h).1 rfl) hweg
      · rw [hload t f ((faeden_amFaden_of_ne ht).symm.trans hlebt)]
        exact or_iff_right ht
    · intro b hb
      have ht : b.caller ≠ a.caller := fun h => hweg (h ▸ List.mem_map.mpr ⟨b, hb, rfl⟩)
      exact (faeden_amFaden_of_ne ht).symm ▸ hgeboren.2 b hb
    · intro b hb hr
      rcases List.mem_append.mp hb with hb | hlast
      · have htot := hi.wartet.stumm b hb hr
        have ht : b.auftrag.caller ≠ a.caller := by
          intro h
          rw [h, hfa] at htot
          cases htot
        exact (faeden_amFaden_of_ne ht).trans htot
      · obtain rfl := List.mem_singleton.mp hlast
        cases hr
    · exact ⟨fun h => absurd h hpark, fun _ => .inr (.inr ⟨Lage.noConfusion, hpark⟩)⟩
  · rw [heq]
    refine ⟨hi.ring, ?_, hverl.trans hi.verloren,
      ⟨?_, hgeboren.2, hrest, List.not_mem_of_not_mem_cons hfremd, ?_⟩, fv, hfv, ?_⟩
    · rw [List.map_append]
      exact hreihe
    · intro t f hlebt
      rw [hload t f hlebt]
      refine or_iff_right fun ht => ?_
      subst ht
      exact htot f hlebt
    · intro b hb hr
      rcases List.mem_append.mp hb with hb | hlast
      · exact hi.wartet.stumm b hb hr
      · obtain rfl := List.mem_singleton.mp hlast
        cases hl : s.faeden a.caller with
        | ungeboren => exact absurd hl hgeboren.1
        | lebt f => exact absurd hl (htot f)
        | tot => rfl
    · exact ⟨fun h => absurd h hpark, fun _ => .inr (.inr ⟨Lage.noConfusion, hpark⟩)⟩

theorem step (hi : s.Ordnung v) {op : Vorgang} (h : schritt v s op = some s') : s'.Ordnung v := by
  cases op with
  | melden =>
    cases h
    obtain ⟨f, hf, hw⟩ := hi.wach
    exact hi.ruhig (fun t => .gleich _) rfl rfl rfl rfl rfl ⟨f, hf, hw.congr rfl rfl rfl⟩
  | entstehen t =>
    obtain ⟨hneu, htuple⟩ := Option.ite_none_right_eq_some.mp h
    cases htuple
    obtain ⟨f, hf, -⟩ := hi.wach
    refine hi.update (hneu ▸ .entsteht (Finset.notMem_empty _)) ?_
    rintro rfl
    rw [hneu] at hf
    cases hf
  | sterben t =>
    obtain ⟨⟨hne, hda⟩, htuple⟩ := Option.ite_none_right_eq_some.mp h
    cases htuple
    exact hi.update (.stirbt hda) hne.symm
  | einreihen a =>
    obtain ⟨⟨hne, hl⟩, htuple⟩ := Option.ite_none_right_eq_some.mp h
    cases htuple
    exact hi.einreihen hne hl
  | wecken t =>
    obtain ⟨-, htuple⟩ := Option.ite_none_right_eq_some.mp h
    cases htuple
    obtain ⟨f, hf, hw⟩ := hi.wach
    exact hi.ruhig (ruhig_amFaden fun f => Faden.mem_unpark_of_ne (by decide)) rfl rfl rfl rfl rfl
      ⟨f.unpark, faeden_amFaden_self hf, hw.unpark rfl⟩
  | naechster =>
    obtain ⟨⟨hlage, hl⟩, htuple⟩ := Option.ite_none_right_eq_some.mp h
    cases htuple
    exact hi.naechster hlage hl
  | antworten pd =>
    simp only [schritt] at h
    cases hlage : s.lage with
    | entnehmen => simp [hlage] at h
    | parken => simp [hlage] at h
    | laden a =>
      rw [hlage] at h
      obtain ⟨hl, htuple⟩ := Option.ite_none_right_eq_some.mp h
      cases htuple
      exact hi.antworten hlage hl pd
  | parken =>
    obtain ⟨⟨hlage, -⟩, htuple⟩ := Option.ite_none_right_eq_some.mp h
    cases htuple
    obtain ⟨f, hf, hw⟩ := hi.wach
    refine hi.ruhig (ruhig_amFaden fun f => Faden.mem_parkCurrent_of_ne (by decide)) rfl ?_ rfl rfl
      rfl ⟨f.parkCurrent, faeden_amFaden_self hf, hw.parkCurrent hlage rfl rfl rfl⟩
    rw [hlage]
    rfl
  | unparken t =>
    cases h
    exact hi.amFaden (fun f => Faden.mem_unpark_of_ne (by decide)) fun _ f hw => hw.unpark rfl
  | schlafen t =>
    obtain ⟨⟨hne, -⟩, htuple⟩ := Option.ite_none_right_eq_some.mp h
    cases htuple
    exact hi.amFaden (fun f => Faden.mem_parkCurrent_of_ne (by decide)) fun heq => absurd heq hne
  | anhalten t g =>
    obtain ⟨⟨hload, hpark⟩, htuple⟩ := Option.ite_none_right_eq_some.mp h
    cases htuple
    exact hi.amFaden (fun f => Faden.mem_anhalten_of_ne hload.symm) fun _ f hw =>
      hw.reasons (Faden.mem_anhalten_of_ne hpark.symm) rfl
  | fortsetzen t g =>
    obtain ⟨⟨hload, hpark⟩, htuple⟩ := Option.ite_none_right_eq_some.mp h
    cases htuple
    exact hi.amFaden (fun f => Faden.mem_aufheben_of_ne hload.symm) fun _ f hw =>
      hw.reasons (Faden.mem_aufheben_of_ne hpark.symm) rfl

theorem run {ops : List Vorgang} (hi : s.Ordnung v)
    (h : Execution.run (schritt v) s ops = some s') : s'.Ordnung v :=
  run_invariant_of_step (fun _ _ _ hi hstep => hi.step hstep) hi h

end Ordnung

def Arbeit : Vorgang → Prop
  | .wecken _ | .naechster | .antworten _ | .parken => True
  | _ => False

def Erreicht (v : ThreadId) (s s' : Anlage) : Prop :=
  ∃ ops, (∀ op ∈ ops, Arbeit op) ∧ Execution.run (schritt v) s ops = some s' ∧
    s'.angenommen = s.angenommen

namespace Erreicht

theorem refl (v : ThreadId) (s : Anlage) : Erreicht v s s := ⟨[], by simp, rfl, rfl⟩

theorem trans {s'' : Anlage} (h : Erreicht v s s') (h' : Erreicht v s' s'') : Erreicht v s s'' := by
  obtain ⟨xs, hxs, hrun, han⟩ := h
  obtain ⟨ys, hys, hrun', han'⟩ := h'
  refine ⟨xs ++ ys, fun op hop => ?_, ?_, han'.trans han⟩
  · exact (List.mem_append.mp hop).elim (hxs op) (hys op)
  · rw [run_append, hrun]
    exact hrun'

theorem einer {op : Vorgang} (h : schritt v s op = some s') (hop : Arbeit op)
    (han : s'.angenommen = s.angenommen) : Erreicht v s s' := by
  refine ⟨[op], fun x hx => ?_, run_cons_of_step h [], han⟩
  rw [List.mem_singleton.mp hx]
  exact hop

theorem ordnung (h : Erreicht v s s') (hi : s.Ordnung v) : s'.Ordnung v := by
  obtain ⟨ops, -, hrun, -⟩ := h
  exact hi.run hrun

end Erreicht

namespace Ordnung

theorem laeuft (hi : s.Ordnung v) (hf : s.faeden v = .lebt f) (hpark : Grund.park ∉ f.reasons) :
    (s.faeden v).laeuft = true :=
  Leben.laeuft_iff.mpr ⟨f, hf, hi.load_notMem hf, hpark⟩

theorem weiter_laden (hi : s.Ordnung v) (hlage : s.lage = .laden a) :
    ∃ s', Erreicht v s s' ∧ s'.ausstehend = s.schlange.wartend := by
  obtain ⟨f, hf, hw⟩ := hi.wach
  have hfrei : Grund.park ∉ f.reasons := by
    intro hpark
    have hweg := (hw.schlaf hpark).1
    rw [hlage] at hweg
    cases hweg
  have hstep : schritt v s (.antworten none) = some (s.antworten a none) := by
    simp only [schritt, hlage]
    exact if_pos (hi.laeuft hf hfrei)
  refine ⟨_, .einer hstep trivial ?_, ?_⟩
  · rcases antworten_cases s a none with ⟨fa, -, heq⟩ | ⟨stand, heq, -⟩
    · rw [heq]
      rfl
    · rw [heq]
  · rcases antworten_cases s a none with ⟨fa, -, heq⟩ | ⟨stand, heq, -⟩
    · rw [heq]
      rfl
    · rw [heq]
      rfl

theorem weiter_entnehmen (hi : s.Ordnung v) (hlage : s.lage = .entnehmen)
    (hf : s.faeden v = .lebt f) (hpark : Grund.park ∉ f.reasons) {rest : List Auftrag}
    (hlist : s.schlange.wartend = a :: rest) :
    ∃ s', Erreicht v s s' ∧ s'.ausstehend = rest := by
  have hstep : schritt v s .naechster = some s.naechster :=
    if_pos ⟨hlage, hi.laeuft hf hpark⟩
  rcases naechster_cases hi.ring with ⟨hleer, -⟩ | ⟨b, q, stand, heq, hq, -, -⟩
  · rw [hlist] at hleer
    cases hleer
  · obtain ⟨-, hrest⟩ := List.cons.inj (hlist.symm.trans hq)
    have hnext : Erreicht v s s.naechster := .einer hstep trivial (by rw [heq])
    have hlage' : s.naechster.lage = .laden b := by rw [heq]
    obtain ⟨s', hs', haus⟩ := (hi.step hstep).weiter_laden hlage'
    refine ⟨s', hnext.trans hs', haus.trans ?_⟩
    rw [heq]
    exact hrest.symm

/-- Before the verifier has parked or after: an order in the ring is taken. -/
theorem weiter_ring (hi : s.Ordnung v) (hlage : s.lage = .entnehmen) {rest : List Auftrag}
    (hlist : s.schlange.wartend = a :: rest) : ∃ s', Erreicht v s s' ∧ s'.ausstehend = rest := by
  obtain ⟨f, hf, hw⟩ := hi.wach
  by_cases hpark : Grund.park ∈ f.reasons
  · -- Asleep without a mark: some submitter has its wake-up ahead.
    have hne : s.schlange.wartend ≠ [] := by simp [hlist]
    have hoffen : s.offen ≠ [] := by
      rcases hw.wach hne with hoffen | hmark | hrest
      · exact hoffen
      · rw [(hw.schlaf hpark).2] at hmark
        cases hmark
      · exact absurd hpark hrest.2
    obtain ⟨t, ht⟩ := List.exists_mem_of_ne_nil _ hoffen
    have hstep : schritt v s (.wecken t) =
        some { s.amFaden v Faden.unpark with offen := s.offen.erase t } := if_pos ht
    have hweg : Grund.park ∉ f.unpark.reasons := by
      unfold Faden.unpark
      rw [if_pos hpark]
      exact fun h => (Faden.mem_aufheben.mp h).1 rfl
    obtain ⟨s', hs', haus⟩ := (hi.step hstep).weiter_entnehmen (a := a) hlage
      (faeden_amFaden_self hf) hweg hlist
    exact ⟨s', (Erreicht.einer hstep trivial rfl).trans hs', haus⟩
  · exact hi.weiter_entnehmen hlage hf hpark hlist

/-- From wherever the verifier is, the oldest outstanding order is answered. -/
theorem weiter (hi : s.Ordnung v) {rest : List Auftrag} (haus : s.ausstehend = a :: rest) :
    ∃ s', Erreicht v s s' ∧ s'.ausstehend = rest := by
  cases hlage : s.lage with
  | entnehmen =>
    rw [ausstehend, hlage] at haus
    exact hi.weiter_ring hlage haus
  | laden b =>
    rw [ausstehend, hlage] at haus
    obtain ⟨-, hrest⟩ := List.cons.inj haus
    obtain ⟨s', hs', haus'⟩ := hi.weiter_laden hlage
    exact ⟨s', hs', haus'.trans hrest⟩
  | parken =>
    rw [ausstehend, hlage] at haus
    obtain ⟨f, hf, hw⟩ := hi.wach
    have hfrei : Grund.park ∉ f.reasons := by
      intro hpark
      have hweg := (hw.schlaf hpark).1
      rw [hlage] at hweg
      cases hweg
    have hstep : schritt v s .parken =
        some { s.amFaden v Faden.parkCurrent with lage := .entnehmen } :=
      if_pos ⟨hlage, hi.laeuft hf hfrei⟩
    obtain ⟨s', hs', haus'⟩ := (hi.step hstep).weiter_ring (a := a) rfl haus
    exact ⟨s', (Erreicht.einer hstep trivial rfl).trans hs', haus'⟩

theorem fertig (hi : s.Ordnung v) : ∃ s', Erreicht v s s' ∧ s'.ausstehend = [] := by
  induction haus : s.ausstehend generalizing s with
  | nil => exact ⟨s, .refl v s, haus⟩
  | cons a rest ih =>
    obtain ⟨s₁, h₁, haus₁⟩ := hi.weiter haus
    obtain ⟨s', hs', hleer⟩ := ih (h₁.ordnung hi) haus₁
    exact ⟨s', h₁.trans hs', hleer⟩

end Ordnung

/-- What holds in every state. -/
structure Geordnet (v : ThreadId) (s : Anlage) : Prop where
  /-- Every accepted order is processed once, in order of acceptance. -/
  reihe : s.angenommen = s.beantwortet.map Antwort.auftrag ++ s.ausstehend
  /-- A living thread is blocked exactly while it has an order outstanding, and it has at most one. -/
  wartet : ∀ t f, s.faeden t = .lebt f →
    (Grund.load ∈ f.reasons ↔ ∃ a ∈ s.ausstehend, a.caller = t)
  einzeln : (s.ausstehend.map Auftrag.caller).Nodup
  /-- Only the dead get no answer. -/
  stumm : ∀ b ∈ s.beantwortet, b.rahmen = none → s.faeden b.auftrag.caller = .tot
  verloren : s.stand.verloren = 0
  /-- The verifier does not sleep over an order. -/
  wach : ∃ f, s.faeden v = .lebt f ∧
    ¬ (s.schlange.wartend ≠ [] ∧ Grund.park ∈ f.reasons ∧ f.parkWake = false ∧ s.offen = [])
  /-- What is outstanding can be answered without any new order. -/
  fertig : ∃ s', Erreicht v s s' ∧ s'.ausstehend = []

/-- What one step does.  Only a submission blocks, and only if it is accepted; only an answer
releases. -/
def Treu (s : Anlage) (s' : Anlage) : Vorgang → Prop
  | .einreihen a =>
      ((s.einreihen a).1 = .uebergeben ∧
        (∃ f, s.faeden a.caller = .lebt f ∧ Grund.load ∉ f.reasons ∧
          s'.faeden = Function.update s.faeden a.caller (.lebt (f.anhalten .load))) ∧
        s'.schlange.wartend = s.schlange.wartend ++ [a] ∧ s'.offen = a.caller :: s.offen ∧
        s'.angenommen = s.angenommen ++ [a] ∧ s'.beantwortet = s.beantwortet) ∨
      ((s.einreihen a).1 ≠ .uebergeben ∧ s'.faeden = s.faeden ∧ s'.schlange = s.schlange ∧
        s'.angenommen = s.angenommen ∧ s'.beantwortet = s.beantwortet)
  | .antworten pd => ∃ a, s.lage = .laden a ∧ s'.angenommen = s.angenommen ∧
      ((∃ f, s.faeden a.caller = .lebt f ∧ Grund.load ∈ f.reasons ∧
          s'.faeden = Function.update s.faeden a.caller (.lebt (f.aufheben .load)) ∧
          s'.beantwortet = s.beantwortet ++ [⟨a, some (rahmen pd)⟩]) ∨
        (s.faeden a.caller = .tot ∧ s'.faeden = s.faeden ∧
          s'.beantwortet = s.beantwortet ++ [⟨a, none⟩]))
  | _ => s'.angenommen = s.angenommen ∧ s'.beantwortet = s.beantwortet ∧
      ∀ t f f', s.faeden t = .lebt f → s'.faeden t = .lebt f' →
        (Grund.load ∈ f'.reasons ↔ Grund.load ∈ f.reasons)

namespace Ordnung

theorem geordnet (hi : s.Ordnung v) : s.Geordnet v where
  reihe := hi.reihe
  wartet := fun t f hf => (hi.wartet.load t f hf).trans List.mem_map
  einzeln := hi.wartet.einzeln
  stumm := hi.wartet.stumm
  verloren := hi.verloren
  wach := by
    obtain ⟨f, hf, hw⟩ := hi.wach
    refine ⟨f, hf, fun ⟨hne, hpark, hmark, hoffen⟩ => ?_⟩
    rcases hw.wach hne with h | h | h
    · exact h hoffen
    · rw [hmark] at h
      cases h
    · exact h.2 hpark
  fertig := hi.fertig

theorem load_iff (hi : s.Ordnung v) (hi' : s'.Ordnung v) (han : s'.angenommen = s.angenommen)
    (hb : s'.beantwortet = s.beantwortet) {f' : Faden} (hf : s.faeden t = .lebt f)
    (hf' : s'.faeden t = .lebt f') : Grund.load ∈ f'.reasons ↔ Grund.load ∈ f.reasons := by
  have haus : s'.ausstehend = s.ausstehend := by
    have hreihe := hi'.reihe
    rw [han, hb, hi.reihe] at hreihe
    exact (List.append_cancel_left hreihe).symm
  rw [hi'.wartet.load t f' hf', hi.wartet.load t f hf, haus]

theorem treu_einreihen (hi : s.Ordnung v) (hl : (s.faeden a.caller).laeuft = true) :
    s.Treu (s.einreihen a).2 (.einreihen a) := by
  by_cases hu : (s.einreihen a).1 = .uebergeben
  · obtain ⟨q, stand, heq, -, hlist, -⟩ := einreihen_angenommen hi.ring hu
    obtain ⟨f, hf, hload, -⟩ := Leben.laeuft_iff.mp hl
    refine .inl ⟨hu, ⟨f, hf, hload, ?_⟩, ?_, ?_, ?_, ?_⟩
    · rw [heq]
      exact congrArg (Function.update s.faeden a.caller) (congrArg _ hf)
    · rw [heq]
      exact hlist
    · rw [heq]
    · rw [heq]
    · rw [heq]
      rfl
  · obtain ⟨stand, heq, -⟩ := einreihen_abgewiesen hu
    refine .inr ⟨hu, ?_, ?_, ?_, ?_⟩ <;> rw [heq]

theorem treu_antworten (hi : s.Ordnung v) (hlage : s.lage = .laden a) (pd : Option Nat) :
    s.Treu (s.antworten a pd) (.antworten pd) := by
  have hmem : a ∈ s.ausstehend := by
    rw [ausstehend, hlage]
    exact List.mem_cons_self
  rcases antworten_cases s a pd with ⟨f, hf, heq⟩ | ⟨stand, heq, htot, -⟩
  · refine ⟨a, hlage, by rw [heq]; rfl, .inl ⟨f, hf, ?_, ?_, ?_⟩⟩
    · exact (hi.wartet.load _ _ hf).mpr (List.mem_map.mpr ⟨a, hmem, rfl⟩)
    · rw [heq]
      exact congrArg (Function.update s.faeden a.caller) (congrArg _ hf)
    · rw [heq]
  · refine ⟨a, hlage, by rw [heq], .inr ⟨?_, by rw [heq], by rw [heq]⟩⟩
    cases hl : s.faeden a.caller with
    | ungeboren => exact absurd hl (hi.wartet.geboren a hmem)
    | lebt f => exact absurd hl (htot f)
    | tot => rfl

theorem treu (hi : s.Ordnung v) {op : Vorgang} (h : schritt v s op = some s') : s.Treu s' op := by
  have hi' := hi.step h
  have hrest : ∀ {x : Anlage}, x.Ordnung v → x.angenommen = s.angenommen →
      x.beantwortet = s.beantwortet → x.angenommen = s.angenommen ∧
        x.beantwortet = s.beantwortet ∧ ∀ t f f', s.faeden t = .lebt f → x.faeden t = .lebt f' →
          (Grund.load ∈ f'.reasons ↔ Grund.load ∈ f.reasons) :=
    fun hx han hb => ⟨han, hb, fun t f f' hf hf' => hi.load_iff hx han hb hf hf'⟩
  cases op with
  | einreihen a =>
    obtain ⟨⟨-, hl⟩, htuple⟩ := Option.ite_none_right_eq_some.mp h
    cases htuple
    exact hi.treu_einreihen hl
  | antworten pd =>
    simp only [schritt] at h
    cases hlage : s.lage with
    | entnehmen => simp [hlage] at h
    | parken => simp [hlage] at h
    | laden a =>
      rw [hlage] at h
      obtain ⟨-, htuple⟩ := Option.ite_none_right_eq_some.mp h
      cases htuple
      exact hi.treu_antworten hlage pd
  | naechster =>
    obtain ⟨-, htuple⟩ := Option.ite_none_right_eq_some.mp h
    cases htuple
    rcases naechster_cases hi.ring with ⟨-, heq⟩ | ⟨a, q, stand, heq, -⟩
    · exact hrest hi' (by rw [heq]) (by rw [heq])
    · exact hrest hi' (by rw [heq]) (by rw [heq])
  | melden | unparken t =>
    cases h
    exact hrest hi' rfl rfl
  | entstehen t | sterben t | wecken t | parken | schlafen t | anhalten t g | fortsetzen t g =>
    obtain ⟨-, htuple⟩ := Option.ite_none_right_eq_some.mp h
    cases htuple
    exact hrest hi' rfl rfl

end Ordnung

/-- In every run of the queue, whatever the order of the steps, accepted orders are processed once
and in order, exactly their callers are blocked until they are answered, and the verifier does not
sleep over an order. -/
theorem run_geordnet (v : ThreadId) {ops : List Vorgang}
    (h : Execution.run (schritt v) (anfang v) ops = some s) :
    s.Geordnet v ∧ ∀ op s', schritt v s op = some s' → s.Treu s' op := by
  have hi := (Ordnung.anfang v).run h
  exact ⟨hi.geordnet, fun op s' hstep => hi.treu hstep⟩

/-- Five submitters: the fifth is refused, the first dies before its answer, the verifier parks
before the second has woken it. -/
def probe : List Vorgang :=
  let a : Nat → Auftrag := fun i => .ausArchiv i 1 [] ⟨i, 0⟩ 0 0 0
  [.melden, .entstehen ⟨1, 0⟩, .entstehen ⟨2, 0⟩, .entstehen ⟨3, 0⟩, .entstehen ⟨4, 0⟩,
    .entstehen ⟨5, 0⟩, .naechster, .einreihen (a 1), .parken, .wecken ⟨1, 0⟩, .naechster,
    .sterben ⟨1, 0⟩, .antworten (some 7), .naechster, .parken, .einreihen (a 2), .einreihen (a 3),
    .anhalten ⟨3, 0⟩ .pause, .einreihen (a 4), .entstehen ⟨6, 0⟩, .einreihen (a 6),
    .einreihen (a 5), .wecken ⟨6, 0⟩, .naechster, .antworten (some 8)]

theorem run_geordnet_probe : ∃ s, Execution.run (schritt ⟨0, 0⟩) (anfang ⟨0, 0⟩) probe = some s ∧
    (s.stand.abgewiesen = 1 ∧ s.beantwortet.map Antwort.rahmen = [none, some ⟨0, some 8⟩]) ∧
    s.Geordnet ⟨0, 0⟩ ∧ ∀ op s', schritt ⟨0, 0⟩ s op = some s' → s.Treu s' op := by
  have hrun : (Execution.run (schritt ⟨0, 0⟩) (anfang ⟨0, 0⟩) probe).map (fun s =>
      (s.stand.abgewiesen, s.beantwortet.map Antwort.rahmen)) =
        some (1, [none, some ⟨0, some 8⟩]) := by
    decide
  obtain ⟨s, hs, htuple⟩ := Option.map_eq_some_iff.mp hrun
  obtain ⟨habgewiesen, hrahmen⟩ := Prod.mk.inj htuple
  exact ⟨s, hs, ⟨habgewiesen, hrahmen⟩, run_geordnet ⟨0, 0⟩ hs⟩

end Anlage

end Caprock.Kernel
