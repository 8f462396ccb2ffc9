import Mathlib
import Caprock.Lib.Custody
import Caprock.Microkit.Caps

/-! # System calls on the own cspace

`CDELETE`, `CCOPY`, `CMOVE` and `CSUB` work on slots of the caller's cspace.  Each takes and
drops the lock `CAPS` several times: `CDELETE` clears the slot, deletes without the lock and puts
the capability back if that failed, and a copy that may not be installed is deleted in a
section of its own.  The threads of a domain share its cspace, so between the sections of one
call those of another run.

`CapRufe` is one domain with the calls its threads are in, and a step is one section.
`besitz` records what the domain answers for: the capabilities it held, with those
created since, without those deleted since.
-/

namespace Caprock.Microkit

open Cap Mem Execution Function

def rightsFromBits (mask : Nat) : Rights :=
  ⟨(if mask.testBit 0 then Rights.read.bits else 0) |||
    (if mask.testBit 1 then Rights.write.bits else 0) |||
      if mask.testBit 2 then Rights.exec.bits else 0⟩

/-- What the write section of `CCOPY`, `CMOVE` and `CSUB` leaves: the result, the capability it
created, the created one that was not installed, and the tables. -/
structure Schnitt where
  code : Ergebnis
  neu : Option CapPtr
  orphan : Option CapPtr
  caps : Caps

namespace Caps

def abgewiesen (g : Caps) (code : Ergebnis) : Schnitt := ⟨code, none, none, g⟩

/-- The end of `CCOPY` and `CSUB`: install what was derived. -/
def einsetzen (g : Caps) (pd dstSlot : Nat) (fehler : CapError → Ergebnis) :
    Except CapError CapPtr × CapSpace → Schnitt
  | (.error e, cspace) => ⟨fehler e, none, none, { g with cspace := cspace }⟩
  | (.ok new, cspace) =>
      let r := { g with cspace := cspace }.installCapChecked pd dstSlot new
      if r.1 then ⟨.ok, some new, none, r.2⟩ else ⟨.errRights, some new, some new, r.2⟩

/-- The target of a derivation must be a free slot of the cspace, within the budget. -/
def zielFrei (g : Caps) (pd dstSlot : Nat) : Bool :=
  decide (dstSlot < g.pds.cspaceLenVon pd) && (g.pds.capAt pd dstSlot).isNone &&
    g.budgetAllows pd dstSlot

def ccopy (g : Caps) (pd srcSlot dstSlot mask newBadge : Nat) : Schnitt :=
  match g.pds.capAt pd srcSlot with
  | none => g.abgewiesen .errBadcap
  | some src =>
      match g.cspace.lookup src with
      | none => g.abgewiesen .errBadcap
      | some (_, rights, _) =>
          if g.zielFrei pd dstSlot = false then g.abgewiesen .errNospace
          else
            let want := (rightsFromBits mask).intersect rights
            g.einsetzen pd dstSlot (fun _ => .errNospace)
              (if newBadge ≠ 0 then g.cspace.mint src want newBadge else g.cspace.copy src want)

/-- The codes of a failed `subregion`. -/
def subregionFehler : CapError → Ergebnis
  | .subregion => .errSubregion
  | .invalid => .errBadcap
  | _ => .errNospace

/-- `CSUB`.  Only memory can be cut. -/
def csub (g : Caps) (pd srcSlot dstSlot offset len : Nat) : Schnitt :=
  match g.pds.capAt pd srcSlot with
  | none => g.abgewiesen .errBadcap
  | some src =>
      match g.cspace.lookup src with
      | some (.memory _, _, _) =>
          if g.zielFrei pd dstSlot = false then g.abgewiesen .errNospace
          else
            g.einsetzen pd dstSlot subregionFehler (g.cspace.subregion src offset len Rights.rwx)
      | _ => g.abgewiesen .errBadcap

def cmove (g : Caps) (pd srcSlot dstSlot : Nat) : Schnitt :=
  match g.pds.capAt pd srcSlot with
  | none => g.abgewiesen .errBadcap
  | some src =>
      if srcSlot = dstSlot then ⟨.ok, none, none, g⟩
      else if g.pds.cspaceLenVon pd ≤ dstSlot then g.abgewiesen .errBadcap
      else if (g.pds.capAt pd dstSlot).isSome then g.abgewiesen .errNospace
      else
        ⟨.ok, none, none,
          { g with pds := (g.pds.clearCap pd srcSlot).installCap pd dstSlot src }⟩

end Caps

inductive Abschnitt where
  | draussen
  | loeschen (slot : Nat) (cap : CapPtr)
  | zuruecklegen (slot : Nat) (cap : CapPtr) (code : Ergebnis)
  | waise (cap : CapPtr) (code : Ergebnis)
  deriving DecidableEq, Repr

namespace Abschnitt

def hand : Abschnitt → Option CapPtr
  | draussen => none
  | loeschen _ cap | zuruecklegen _ cap _ | waise cap _ => some cap

def genommen (k : Nat) : Abschnitt → Option CapPtr
  | loeschen slot cap | zuruecklegen slot cap _ => if slot = k then some cap else none
  | _ => none

end Abschnitt

/-- A domain and the calls its threads are in.  `antwort` is what the last finished call of a
thread returned. -/
structure CapRufe where
  kern : CapKern
  pd : Nat
  ort : ThreadId → Abschnitt
  antwort : ThreadId → Option Ergebnis
  besitz : Set CapPtr

inductive CapRuf where
  | cdelete (slot : Nat)
  | ccopy (srcSlot dstSlot mask newBadge : Nat)
  | cmove (srcSlot dstSlot : Nat)
  | csub (srcSlot dstSlot offset len : Nat)
  deriving DecidableEq, Repr

inductive CapOp where
  | beginne (thread : ThreadId) (ruf : CapRuf)
  | weiter (thread : ThreadId) (rf : Finalized)

def CapOp.thread : CapOp → ThreadId
  | beginne t _ | weiter t _ => t

namespace CapRufe

def eintrag (s : CapRufe) (k : Nat) : Option CapPtr := s.kern.caps.pds.capAt s.pd k

def hand (s : CapRufe) (t : ThreadId) : Option CapPtr := (s.ort t).hand

/-- The call of `t` stands at `ort`; a call that is over has returned `code`. -/
def stelle (s : CapRufe) (t : ThreadId) (ort : Abschnitt) (code : Option Ergebnis) : CapRufe :=
  { s with ort := update s.ort t ort, antwort := update s.antwort t code }

def mitPds (s : CapRufe) (pds : PdTable) : CapRufe :=
  { s with kern := { s.kern with caps := { s.kern.caps with pds := pds } } }

/-- `CDELETE`, first section: clear the slot. -/
def cdelete (s : CapRufe) (t : ThreadId) (slot : Nat) : CapRufe :=
  match s.eintrag slot with
  | none => s.stelle t .draussen (some .errBadcap)
  | some cap =>
      (s.mitPds (s.kern.caps.pds.clearCap s.pd slot)).stelle t (.loeschen slot cap) none

def buchen (s : CapRufe) (t : ThreadId) (r : Schnitt) : CapRufe :=
  { s with
    kern := { s.kern with caps := r.caps }
    besitz := s.besitz ∪ {p | r.neu = some p} }.stelle t
      (match r.orphan with
        | none => .draussen
        | some cap => .waise cap r.code)
      (match r.orphan with
        | none => some r.code
        | some _ => none)

def beginne (s : CapRufe) (t : ThreadId) : CapRuf → CapRufe
  | .cdelete slot => s.cdelete t slot
  | .ccopy srcSlot dstSlot mask newBadge =>
      s.buchen t (s.kern.caps.ccopy s.pd srcSlot dstSlot mask newBadge)
  | .cmove srcSlot dstSlot => s.buchen t (s.kern.caps.cmove s.pd srcSlot dstSlot)
  | .csub srcSlot dstSlot offset len =>
      s.buchen t (s.kern.caps.csub s.pd srcSlot dstSlot offset len)

/-- The tables after a deletion; what was deleted leaves `besitz`. -/
def ohne (s : CapRufe) (kern : CapKern) (cap : CapPtr) : CapRufe :=
  { s with kern := kern, besitz := s.besitz \ {cap} }

def loesche (s : CapRufe) (rf : Finalized) (cap : CapPtr) : Except Ergebnis Unit × CapRufe :=
  match s.kern.deleteCap rf cap with
  | (.error e, kern) => (.error e, { s with kern := kern })
  | (.ok (), kern) => (.ok (), s.ohne kern cap)

/-- The next section of a call.  The result of deleting an orphan is dropped. -/
def weiter (s : CapRufe) (t : ThreadId) (rf : Finalized) : Option CapRufe :=
  match s.ort t with
  | .draussen => none
  | .loeschen slot cap =>
      match s.loesche rf cap with
      | (.error e, s') => some (s'.stelle t (.zuruecklegen slot cap e) none)
      | (.ok (), s') => some (s'.stelle t .draussen (some .ok))
  | .zuruecklegen slot cap code =>
      some ((s.mitPds (s.kern.caps.pds.installCap s.pd slot cap)).stelle t .draussen (some code))
  | .waise cap code => some ((s.loesche rf cap).2.stelle t .draussen (some code))

def step (s : CapRufe) : CapOp → Option CapRufe
  | .beginne t ruf =>
      if s.kern.caps.pdOf t = some s.pd ∧ s.ort t = .draussen then some (s.beginne t ruf) else none
  | .weiter t rf => s.weiter t rf

def mitHand (s : CapRufe) (t : ThreadId) (k : Nat) : Option CapPtr :=
  (s.eintrag k).or ((s.ort t).genommen k)

/-- A section of a call that does not succeed leaves the cspace, seen with what the call
took put back. -/
def Spurlos (s : CapRufe) (op : CapOp) (s' : CapRufe) : Prop :=
  s'.antwort op.thread ≠ some .ok → s'.mitHand op.thread = s.mitHand op.thread

/-- Every capability of the domain lives and is held exactly once, by a slot or by a running
call. -/
structure Genau (s : CapRufe) : Prop where
  lebt : ∀ p ∈ s.besitz, s.kern.caps.cspace.Lebt p
  verwahrt : Custody s.eintrag s.besitz s.hand

def LaufOk (s : CapRufe) : Prop :=
  (s.kern.caps.pds.pds.cell s.pd).cspaceStart + (s.kern.caps.pds.pds.cell s.pd).cspaceLen ≤
    s.kern.caps.pds.cspacePool.len

instance (s : CapRufe) : Decidable s.LaufOk := inferInstanceAs (Decidable (_ ≤ _))

/-- Before any call: no thread is in one, and the domain answers for the live capabilities of its
cspace, each of which stands there once. -/
structure Anfang (s : CapRufe) : Prop where
  baum : ∃ kids, s.kern.caps.cspace.Inv kids
  lauf : s.LaufOk
  draussen : ∀ t, s.ort t = .draussen
  besitz : ∀ p, p ∈ s.besitz ↔ s.kern.caps.cspace.Lebt p ∧ ∃ k, s.eintrag k = some p
  einmal : ∀ p k l, s.kern.caps.cspace.Lebt p → s.eintrag k = some p → s.eintrag l = some p → k = l

def NeuUnbekannt (s : CapRufe) : Prop :=
  ∀ i, s.kern.caps.cspace.freeSlotIndex = .ok i →
    (∀ k, s.eintrag k ≠ some (s.kern.caps.cspace.ptr i)) ∧
      ∀ t, s.hand t ≠ some (s.kern.caps.cspace.ptr i)

/-- A derivation gives out an unknown handle, a capability is put back into an empty slot (or
where it stands), and an orphan is no stack in use. -/
def RufOk (s : CapRufe) : CapOp → Prop
  | .beginne _ (.ccopy ..) | .beginne _ (.csub ..) => s.NeuUnbekannt
  | .beginne _ _ => True
  | .weiter t _ =>
      match s.ort t with
      | .zuruecklegen slot cap _ => s.eintrag slot = none ∨ s.eintrag slot = some cap
      | .waise cap _ => s.kern.stapel cap = false
      | _ => True

def OrtOk (s : CapRufe) : Abschnitt → Prop
  | .draussen => True
  | .loeschen slot _ | .zuruecklegen slot _ _ => slot < s.kern.caps.pds.cspaceLenVon s.pd
  | .waise cap _ => cap ∈ s.besitz ∧ s.kern.caps.cspace.firstChild cap.slot = none

/-- The invariant of admissible runs. -/
structure Wohl (s : CapRufe) : Prop where
  baum : ∃ kids, s.kern.caps.cspace.Inv kids
  lauf : s.LaufOk
  genau : s.Genau
  orte : ∀ t, s.OrtOk (s.ort t)

variable {s s' : CapRufe} {t : ThreadId}

theorem Anfang.wohl (h : s.Anfang) : s.Wohl := by
  have hhand : ∀ t, s.hand t = none := fun t => by rw [hand, h.draussen t]; rfl
  refine ⟨h.baum, h.lauf, ⟨fun p hp => ((h.besitz p).mp hp).1, ?_⟩, fun t => ?_⟩
  · refine ⟨fun p hp => .inl ((h.besitz p).mp hp).2, fun p hp k l hk hl => ?_,
      fun p _ a b ha => ?_, fun p _ a k ha => ?_⟩
    · exact h.einmal p k l ((h.besitz p).mp hp).1 hk hl
    · rw [hhand a] at ha
      cases ha
    · rw [hhand a] at ha
      cases ha
  · rw [h.draussen t]
    trivial

theorem hand_stelle (s : CapRufe) (t : ThreadId) (ort : Abschnitt) (code : Option Ergebnis) :
    (s.stelle t ort code).hand = update s.hand t ort.hand := by
  funext t'
  by_cases h : t' = t
  · simp [hand, stelle, h]
  · simp [hand, stelle, h]

theorem mitHand_stelle (s : CapRufe) (t : ThreadId) (ort : Abschnitt) (code : Option Ergebnis) :
    (s.stelle t ort code).mitHand t = fun k => (s.eintrag k).or (ort.genommen k) := by
  funext k
  simp [mitHand, stelle, eintrag]

theorem orte_stelle {ort : Abschnitt} (hort : s.OrtOk ort) (hrest : ∀ t', t' ≠ t → s.OrtOk (s.ort t'))
    (code : Option Ergebnis) (t' : ThreadId) : s.OrtOk ((s.stelle t ort code).ort t') := by
  by_cases h : t' = t
  · simpa [stelle, h] using hort
  · simpa [stelle, h] using hrest t' h

theorem OrtOk.mono {ort : Abschnitt} (h : s.OrtOk ort)
    (hlen : s'.kern.caps.pds.cspaceLenVon s'.pd = s.kern.caps.pds.cspaceLenVon s.pd)
    (hwaise : ∀ cap code, ort = .waise cap code → cap ∈ s.besitz →
      s.kern.caps.cspace.firstChild cap.slot = none →
      cap ∈ s'.besitz ∧ s'.kern.caps.cspace.firstChild cap.slot = none) : s'.OrtOk ort := by
  cases ort with
  | draussen => trivial
  | loeschen slot cap | zuruecklegen slot cap code =>
    unfold OrtOk at h ⊢
    rwa [hlen]
  | waise cap code => exact hwaise cap code rfl h.1 h.2

theorem orte_draussen (hrest : ∀ t', t' ≠ t → s.OrtOk (s.ort t')) (code : Option Ergebnis)
    (t' : ThreadId) : s.OrtOk ((s.stelle t .draussen code).ort t') :=
  have hort : s.OrtOk .draussen := trivial
  orte_stelle hort hrest code t'

theorem Wohl.stelle (h : s.Wohl) {ort : Abschnitt} (hhand : ort.hand = s.hand t)
    (hort : s.OrtOk ort) (code : Option Ergebnis) : (s.stelle t ort code).Wohl := by
  have hgleich : (s.stelle t ort code).hand = s.hand := by
    rw [hand_stelle, hhand, update_eq_self]
  refine ⟨h.baum, h.lauf, ⟨h.genau.lebt, ?_⟩, ?_⟩
  · rw [hgleich]
    exact h.genau.verwahrt
  · exact orte_stelle hort (fun t' _ => h.orte t') code

theorem slot_lt {slot : Nat} {cap : CapPtr} (h : s.eintrag slot = some cap) :
    slot < s.kern.caps.pds.cspaceLenVon s.pd := by
  by_contra hnot
  simp [eintrag, PdTable.capAt, hnot] at h

section

variable (s) (slot : Nat) (c : Option CapPtr)

def schreiben : CapRufe := s.mitPds (s.kern.caps.pds.poolSchreiben s.pd slot c)

theorem cspaceLenVon_schreiben (s : CapRufe) (slot : Nat) (c : Option CapPtr) :
    (s.schreiben slot c).kern.caps.pds.cspaceLenVon (s.schreiben slot c).pd =
      s.kern.caps.pds.cspaceLenVon s.pd := by
  obtain ⟨cell, heq⟩ := s.kern.caps.pds.poolSchreiben_eq s.pd slot c
  exact PdTable.cspaceLenVon_congr (congrArg PdTable.pds heq) s.pd

theorem ortOk_schreiben {ort : Abschnitt} (h : s.OrtOk ort) : (s.schreiben slot c).OrtOk ort :=
  h.mono (cspaceLenVon_schreiben s slot c) fun _ _ _ hbesitz hleaf => ⟨hbesitz, hleaf⟩

end

theorem LaufOk.eintrag_schreiben (h : s.LaufOk) {slot : Nat}
    (hslot : slot < s.kern.caps.pds.cspaceLenVon s.pd) (c : Option CapPtr) :
    (s.schreiben slot c).eintrag = update s.eintrag slot c :=
  PdTable.capAt_poolSchreiben_self h hslot c

theorem LaufOk.schreiben (h : s.LaufOk) (slot : Nat) (c : Option CapPtr) :
    (s.schreiben slot c).LaufOk := by
  obtain ⟨cell, heq⟩ := s.kern.caps.pds.poolSchreiben_eq s.pd slot c
  show ((s.kern.caps.pds.poolSchreiben s.pd slot c).pds.cell s.pd).cspaceStart +
      ((s.kern.caps.pds.poolSchreiben s.pd slot c).pds.cell s.pd).cspaceLen ≤
    (s.kern.caps.pds.poolSchreiben s.pd slot c).cspacePool.len
  rw [heq]
  exact h

/-- A slot is written and a thread changes its place; nobody else notices if custody is kept. -/
theorem Wohl.schreiben (h : s.Wohl) {slot : Nat} {c : Option CapPtr} {ort : Abschnitt}
    (hslot : slot < s.kern.caps.pds.cspaceLenVon s.pd)
    (hverwahrt : Custody (update s.eintrag slot c) s.besitz
      (update s.hand t ort.hand))
    (hort : s.OrtOk ort) (code : Option Ergebnis) :
    ((s.schreiben slot c).stelle t ort code).Wohl := by
  refine ⟨h.baum, h.lauf.schreiben slot c, ⟨h.genau.lebt, ?_⟩, fun t' => ?_⟩
  · have heintrag := h.lauf.eintrag_schreiben hslot c
    rw [hand_stelle]
    exact heintrag ▸ hverwahrt
  · exact orte_stelle (ortOk_schreiben s slot c hort)
      (fun t'' _ => ortOk_schreiben s slot c (h.orte t'')) code t'

theorem Wohl.entnehmen (h : s.Wohl) (hfrei : s.ort t = .draussen) {slot : Nat} {cap : CapPtr}
    (hcap : s.eintrag slot = some cap) :
    ((s.schreiben slot none).stelle t (.loeschen slot cap) none).Wohl := by
  have hhand : s.hand t = none := by rw [hand, hfrei]; rfl
  have hort : s.OrtOk (.loeschen slot cap) := slot_lt hcap
  exact h.schreiben hort (h.genau.verwahrt.take hcap hhand) hort none

theorem spurlos_entnehmen (h : s.Wohl) (hfrei : s.ort t = .draussen) {slot : Nat} {cap : CapPtr}
    (hcap : s.eintrag slot = some cap) :
    ((s.schreiben slot none).stelle t (.loeschen slot cap) none).mitHand t = s.mitHand t := by
  rw [mitHand_stelle, h.lauf.eintrag_schreiben (slot_lt hcap)]
  funext k
  unfold mitHand
  rw [hfrei]
  by_cases hk : k = slot
  · rw [hk, update_self, hcap]
    simp [Abschnitt.genommen]
  · have hk' : slot ≠ k := fun heq => hk heq.symm
    rw [update_of_ne hk]
    simp [Abschnitt.genommen, hk']

theorem Wohl.zuruecklegen (h : s.Wohl) {slot : Nat} {cap : CapPtr} {code : Ergebnis}
    (hort : s.ort t = .zuruecklegen slot cap code)
    (hslot : s.eintrag slot = none ∨ s.eintrag slot = some cap) :
    ((s.schreiben slot (some cap)).stelle t .draussen (some code)).Wohl := by
  have hhand : s.hand t = some cap := by rw [hand, hort]; rfl
  have hlt : slot < s.kern.caps.pds.cspaceLenVon s.pd := by
    have hok := h.orte t
    rwa [hort] at hok
  have hdraussen : s.OrtOk .draussen := trivial
  exact h.schreiben hlt (h.genau.verwahrt.putBack hhand hslot) hdraussen _

theorem spurlos_zuruecklegen (h : s.Wohl) {slot : Nat} {cap : CapPtr} {code : Ergebnis}
    (hort : s.ort t = .zuruecklegen slot cap code)
    (hslot : s.eintrag slot = none ∨ s.eintrag slot = some cap) :
    ((s.schreiben slot (some cap)).stelle t .draussen (some code)).mitHand t = s.mitHand t := by
  have hlt : slot < s.kern.caps.pds.cspaceLenVon s.pd := by
    have hok := h.orte t
    rwa [hort] at hok
  rw [mitHand_stelle, h.lauf.eintrag_schreiben hlt]
  funext k
  unfold mitHand
  rw [hort]
  by_cases hk : k = slot
  · rw [hk, update_self]
    rcases hslot with hnone | hsome
    · simp [Abschnitt.genommen, hnone]
    · simp [Abschnitt.genommen, hsome]
  · have hk' : slot ≠ k := fun heq => hk heq.symm
    rw [update_of_ne hk]
    simp [Abschnitt.genommen, hk']

theorem Wohl.umsetzen (h : s.Wohl) (hfrei : s.ort t = .draussen) {src dst : Nat} {p : CapPtr}
    (hsrc : s.eintrag src = some p) (hdst : s.eintrag dst = none)
    (hlt : dst < s.kern.caps.pds.cspaceLenVon s.pd) (code : Option Ergebnis) :
    (((s.schreiben src none).schreiben dst (some p)).stelle t .draussen code).Wohl := by
  have hlt' : dst < (s.schreiben src none).kern.caps.pds.cspaceLenVon (s.schreiben src none).pd := by
    rwa [cspaceLenVon_schreiben]
  have heintrag : ((s.schreiben src none).schreiben dst (some p)).eintrag =
      update (update s.eintrag src none) dst (some p) := by
    rw [(h.lauf.schreiben src none).eintrag_schreiben hlt', h.lauf.eintrag_schreiben (slot_lt hsrc)]
  have hhand : (((s.schreiben src none).schreiben dst (some p)).stelle t .draussen code).hand =
      s.hand := by
    rw [hand_stelle]
    have hkeine : Abschnitt.draussen.hand = s.hand t := by rw [hand, hfrei]
    rw [hkeine]
    exact update_eq_self t s.hand
  refine ⟨h.baum, (h.lauf.schreiben src none).schreiben dst (some p), ⟨h.genau.lebt, ?_⟩,
    fun t' => ?_⟩
  · rw [hhand]
    exact heintrag ▸ h.genau.verwahrt.move hsrc hdst
  · refine orte_draussen (fun t'' _ => ?_) code t'
    exact ortOk_schreiben _ dst (some p) (ortOk_schreiben s src none (h.orte t''))

/-- A capability was derived; the domain answers for it. -/
def mitNeu (s : CapRufe) (cspace : CapSpace) (p : CapPtr) : CapRufe :=
  { s with
    kern := { s.kern with caps := { s.kern.caps with cspace := cspace } }
    besitz := s.besitz ∪ {q | some p = some q} }

/-- `p` was derived from `src`, which stands in a slot of the domain. -/
structure Abgeleitet (s : CapRufe) (cspace : CapSpace) (p : CapPtr) : Prop where
  quelle : ∃ slot src, s.eintrag slot = some src ∧ s.kern.caps.cspace.Lebt src ∧
    CapSpace.Erzeugt s.kern.caps.cspace cspace src.slot p
  unbekannt : s.NeuUnbekannt

namespace Abgeleitet

variable {cspace : CapSpace} {p : CapPtr}

theorem frisch (h : s.Abgeleitet cspace p) :
    (∀ k, s.eintrag k ≠ some p) ∧ ∀ t, s.hand t ≠ some p := by
  obtain ⟨slot, src, -, -, he⟩ := h.quelle
  have hneu := h.unbekannt p.slot he.platz
  rwa [he.eq_ptr] at hneu

theorem besitz_mitNeu (s : CapRufe) (cspace : CapSpace) (p : CapPtr) :
    (s.mitNeu cspace p).besitz = insert p s.besitz := by
  ext q
  simp only [mitNeu, Set.mem_union, Set.mem_ofPred_eq, Option.some.injEq, Set.mem_insert_iff]
  tauto

theorem lebt_mitNeu (h : s.Abgeleitet cspace p) (hwohl : s.Wohl) :
    ∀ q ∈ (s.mitNeu cspace p).besitz, cspace.Lebt q := by
  obtain ⟨slot, src, -, -, he⟩ := h.quelle
  intro q hq
  rw [besitz_mitNeu] at hq
  rcases hq with rfl | hq
  · exact he.lebt
  · exact he.lebt_of_lebt (hwohl.genau.lebt q hq)

/-- Nobody derives from an orphan: no slot names it. -/
theorem ortOk_mitNeu (h : s.Abgeleitet cspace p) (hwohl : s.Wohl) (t : ThreadId) :
    (s.mitNeu cspace p).OrtOk (s.ort t) := by
  obtain ⟨slot, src, hsrc, hlebt, he⟩ := h.quelle
  refine (hwohl.orte t).mono rfl fun cap code hort hbesitz hleaf => ⟨.inl hbesitz, ?_⟩
  have hne : cap.slot ≠ src.slot := by
    intro heq
    have hcap : cap = src := (hwohl.genau.lebt cap hbesitz).eq_of_slot hlebt heq
    have hhand : s.hand t = some cap := by rw [hand, hort]; rfl
    exact hwohl.genau.verwahrt.exclusive cap hbesitz t slot hhand (hcap ▸ hsrc)
  have hchild := he.firstChild cap.slot
  rw [if_neg hne, hleaf] at hchild
  exact hchild

theorem baum (h : s.Abgeleitet cspace p) (hwohl : s.Wohl) : ∃ kids, cspace.Inv kids := by
  obtain ⟨slot, src, -, -, he⟩ := h.quelle
  obtain ⟨kids, hinv⟩ := hwohl.baum
  exact he.inv hinv

end Abgeleitet

/-- The new capability goes into a free slot. -/
theorem Wohl.einsetzen (h : s.Wohl) (hfrei : s.ort t = .draussen) {cspace : CapSpace} {p : CapPtr}
    (hneu : s.Abgeleitet cspace p) {dst : Nat} (hdst : s.eintrag dst = none)
    (hlt : dst < s.kern.caps.pds.cspaceLenVon s.pd) (code : Option Ergebnis) :
    (((s.mitNeu cspace p).schreiben dst (some p)).stelle t .draussen code).Wohl := by
  have hlauf : (s.mitNeu cspace p).LaufOk := h.lauf
  have heintrag : ((s.mitNeu cspace p).schreiben dst (some p)).eintrag =
      update s.eintrag dst (some p) := hlauf.eintrag_schreiben hlt (some p)
  have hhand : (((s.mitNeu cspace p).schreiben dst (some p)).stelle t .draussen code).hand =
      s.hand := by
    rw [hand_stelle]
    have hkeine : Abschnitt.draussen.hand = s.hand t := by rw [hand, hfrei]
    rw [hkeine]
    exact update_eq_self t s.hand
  refine ⟨hneu.baum h, hlauf.schreiben dst (some p), ⟨hneu.lebt_mitNeu h, ?_⟩, fun t' => ?_⟩
  · have hverwahrt := h.genau.verwahrt.add hdst hneu.frisch.1 hneu.frisch.2
    rw [hhand]
    rw [← Abgeleitet.besitz_mitNeu s cspace p] at hverwahrt
    exact heintrag ▸ hverwahrt
  · refine orte_draussen (fun t'' _ => ?_) code t'
    exact ortOk_schreiben _ dst (some p) (hneu.ortOk_mitNeu h t'')

theorem Wohl.verwaisen (h : s.Wohl) (hfrei : s.ort t = .draussen) {cspace : CapSpace} {p : CapPtr}
    (hneu : s.Abgeleitet cspace p) (code : Ergebnis) :
    ((s.mitNeu cspace p).stelle t (.waise p code) none).Wohl := by
  have hkeine : s.hand t = none := by rw [hand, hfrei]; rfl
  refine ⟨hneu.baum h, h.lauf, ⟨hneu.lebt_mitNeu h, ?_⟩, fun t' => ?_⟩
  · have hverwahrt := h.genau.verwahrt.carry hkeine hneu.frisch.1 hneu.frisch.2
    rw [← Abgeleitet.besitz_mitNeu s cspace p] at hverwahrt
    rw [hand_stelle]
    exact hverwahrt
  · obtain ⟨slot, src, -, -, he⟩ := hneu.quelle
    obtain ⟨kids, hinv⟩ := h.baum
    have hort : (s.mitNeu cspace p).OrtOk (.waise p code) := by
      refine ⟨?_, he.firstChild_self hinv⟩
      rw [Abgeleitet.besitz_mitNeu]
      exact .inl rfl
    exact orte_stelle hort (fun t'' _ => hneu.ortOk_mitNeu h t'') none t'

/-- What a call holds is deleted; the other calls notice nothing. -/
theorem Wohl.geloescht (h : s.Wohl) {cap : CapPtr} (hhand : s.hand t = some cap) {kern : CapKern}
    (hg : s.kern.Geloescht kern cap) (code : Option Ergebnis) :
    ((s.ohne kern cap).stelle t .draussen code).Wohl := by
  refine ⟨hg.inv h.baum, ?_, ⟨fun q hq => (hg.lebt q).mpr ⟨h.genau.lebt q hq.1, hq.2⟩, ?_⟩,
    fun t' => ?_⟩
  · have hlauf := h.lauf
    unfold LaufOk at hlauf
    rw [← hg.pds] at hlauf
    exact hlauf
  · have heintrag : (s.ohne kern cap).eintrag = s.eintrag := by
      funext k
      unfold eintrag ohne
      rw [hg.pds]
    rw [hand_stelle]
    exact heintrag ▸ h.genau.verwahrt.drop hhand
  · refine orte_draussen (fun t'' hne => ?_) code t'
    refine (h.orte t'').mono (PdTable.cspaceLenVon_congr (congrArg PdTable.pds hg.pds) s.pd) ?_
    intro cap' code' hort hbesitz hleaf
    have hhand' : s.hand t'' = some cap' := by rw [hand, hort]; rfl
    refine ⟨⟨hbesitz, fun heq => hne ?_⟩, hg.blatt h.baum _ hleaf⟩
    have hcap : cap' = cap := heq
    subst hcap
    exact h.genau.verwahrt.agent_unique cap' hbesitz t'' t hhand' hhand

theorem loesche_of_loeschbar {cap : CapPtr} (h : s.kern.Loeschbar cap) (rf : Finalized) :
    ∃ kern, s.kern.Geloescht kern cap ∧
      s.loesche rf cap = (.ok (), s.ohne kern cap) := by
  obtain ⟨hok, hg⟩ := CapKern.deleteCap_of_loeschbar h rf
  refine ⟨_, hg, ?_⟩
  unfold loesche
  cases hdel : s.kern.deleteCap rf cap with
  | mk ergebnis kern =>
    rw [hdel] at hok
    cases hok
    rfl

theorem loesche_of_not_loeschbar {cap : CapPtr} (h : ¬ s.kern.Loeschbar cap) (rf : Finalized) :
    ∃ e, s.loesche rf cap = (.error e, s) := by
  obtain ⟨e, heq⟩ := CapKern.deleteCap_of_not_loeschbar h rf
  refine ⟨e, ?_⟩
  unfold loesche
  rw [heq]

theorem mitHand_loeschen {cap : CapPtr} {kern : CapKern} (hg : s.kern.Geloescht kern cap)
    (hnichts : ∀ k, (s.ort t).genommen k = none) (code : Option Ergebnis) :
    ((s.ohne kern cap).stelle t .draussen code).mitHand t =
      s.mitHand t := by
  rw [mitHand_stelle]
  funext k
  unfold mitHand eintrag ohne
  rw [hnichts k, hg.pds]
  rfl

/-- What `CCOPY` and `CSUB` can do: refuse, or derive from a capability of the domain and install
the result or keep it for deletion. -/
def Ausgang (s : CapRufe) (r : Schnitt) : Prop :=
  (∃ code, code ≠ .ok ∧ r = s.kern.caps.abgewiesen code) ∨
    ∃ cspace p, (∃ slot src, s.eintrag slot = some src ∧ s.kern.caps.cspace.Lebt src ∧
        CapSpace.Erzeugt s.kern.caps.cspace cspace src.slot p) ∧
      ((∃ dst, s.eintrag dst = none ∧ dst < s.kern.caps.pds.cspaceLenVon s.pd ∧
          r = ⟨.ok, some p, none, { s.kern.caps with
            cspace := cspace
            pds := s.kern.caps.pds.installCap s.pd dst p }⟩) ∨
        r = ⟨.errRights, some p, some p, { s.kern.caps with cspace := cspace }⟩)

theorem einsetzen_ausgang {slot dst : Nat} {src : CapPtr} {fehler : CapError → Ergebnis}
    {r : Except CapError CapPtr × CapSpace} (hsrc : s.eintrag slot = some src)
    (hziel : s.kern.caps.zielFrei s.pd dst = true) (hfehler : ∀ e, fehler e ≠ .ok)
    (hr : s.kern.caps.cspace.Ausgang src r) :
    s.Ausgang (s.kern.caps.einsetzen s.pd dst fehler r) := by
  rcases hr with ⟨e, rfl⟩ | ⟨p, cspace, rfl, hlebt, he⟩
  · exact .inl ⟨fehler e, hfehler e, rfl⟩
  · refine .inr ⟨cspace, p, ⟨slot, src, hsrc, hlebt, he⟩, ?_⟩
    simp only [Caps.zielFrei, Bool.and_eq_true, decide_eq_true_eq, Option.isNone_iff_eq_none] at hziel
    unfold Caps.einsetzen Caps.installCapChecked
    dsimp only
    split
    · right
      rfl
    · exact .inl ⟨dst, hziel.1.2, hziel.1.1, rfl⟩

theorem ccopy_ausgang (h : s.Wohl) (srcSlot dstSlot mask newBadge : Nat) :
    s.Ausgang (s.kern.caps.ccopy s.pd srcSlot dstSlot mask newBadge) := by
  obtain ⟨kids, hinv⟩ := h.baum
  unfold Caps.ccopy
  cases hsrc : s.kern.caps.pds.capAt s.pd srcSlot with
  | none => exact .inl ⟨.errBadcap, by decide, rfl⟩
  | some src =>
    dsimp only
    cases s.kern.caps.cspace.lookup src with
    | none => exact .inl ⟨.errBadcap, by decide, rfl⟩
    | some inhalt =>
      dsimp only
      by_cases hziel : s.kern.caps.zielFrei s.pd dstSlot = false
      · rw [if_pos hziel]
        exact .inl ⟨.errNospace, by decide, rfl⟩
      · rw [if_neg hziel]
        refine einsetzen_ausgang hsrc (by simpa using hziel) (fun _ => by decide) ?_
        split
        · exact CapSpace.mint_ausgang hinv src _ newBadge
        · exact CapSpace.copy_ausgang hinv src _

theorem csub_ausgang (h : s.Wohl) (srcSlot dstSlot offset len : Nat) :
    s.Ausgang (s.kern.caps.csub s.pd srcSlot dstSlot offset len) := by
  obtain ⟨kids, hinv⟩ := h.baum
  unfold Caps.csub
  cases hsrc : s.kern.caps.pds.capAt s.pd srcSlot with
  | none => exact .inl ⟨.errBadcap, by decide, rfl⟩
  | some src =>
    dsimp only
    split
    · by_cases hziel : s.kern.caps.zielFrei s.pd dstSlot = false
      · rw [if_pos hziel]
        exact .inl ⟨.errNospace, by decide, rfl⟩
      · rw [if_neg hziel]
        refine einsetzen_ausgang hsrc (by simpa using hziel) (fun e => ?_)
          (CapSpace.subregion_ausgang hinv src offset len Rights.rwx)
        cases e <;> decide
    · exact .inl ⟨.errBadcap, by decide, rfl⟩

theorem buchen_abgewiesen (s : CapRufe) (t : ThreadId) (code : Ergebnis) :
    s.buchen t (s.kern.caps.abgewiesen code) = s.stelle t .draussen (some code) := by
  have hleer : s.besitz ∪ {p | (none : Option CapPtr) = some p} = s.besitz := by
    ext q
    simp
  unfold buchen Caps.abgewiesen
  rw [hleer]

theorem mitHand_draussen (hfrei : s.ort t = .draussen) : s.mitHand t = s.eintrag := by
  funext k
  unfold mitHand
  rw [hfrei]
  simp [Abschnitt.genommen]

theorem stelle_draussen_wohl (h : s.Wohl) (hfrei : s.ort t = .draussen) (code : Ergebnis) :
    (s.stelle t .draussen (some code)).Wohl ∧
      (s.stelle t .draussen (some code)).mitHand t = s.mitHand t := by
  have hkeine : Abschnitt.draussen.hand = s.hand t := by rw [hand, hfrei]
  refine ⟨h.stelle hkeine trivial _, ?_⟩
  rw [mitHand_stelle, mitHand_draussen hfrei]
  simp [Abschnitt.genommen]

theorem buchen_ausgang (h : s.Wohl) (hfrei : s.ort t = .draussen) (hneu : s.NeuUnbekannt)
    {r : Schnitt} (hr : s.Ausgang r) :
    (s.buchen t r).Wohl ∧
      ((s.buchen t r).antwort t ≠ some .ok → (s.buchen t r).mitHand t = s.mitHand t) := by
  rcases hr with ⟨code, hcode, rfl⟩ | ⟨cspace, p, hquelle, ⟨dst, hdst, hlt, rfl⟩ | rfl⟩
  · rw [buchen_abgewiesen]
    obtain ⟨hwohl, hgleich⟩ := stelle_draussen_wohl h hfrei code
    exact ⟨hwohl, fun _ => hgleich⟩
  · refine ⟨h.einsetzen hfrei ⟨hquelle, hneu⟩ hdst hlt (some .ok), fun hnot => ?_⟩
    simp [buchen, stelle] at hnot
  · refine ⟨h.verwaisen hfrei ⟨hquelle, hneu⟩ .errRights, fun _ => ?_⟩
    rw [mitHand_draussen hfrei]
    funext k
    simp [mitHand, buchen, stelle, eintrag, Abschnitt.genommen]

theorem cdelete_wohl (h : s.Wohl) (hfrei : s.ort t = .draussen) (slot : Nat) :
    (s.cdelete t slot).Wohl ∧ (s.cdelete t slot).mitHand t = s.mitHand t := by
  unfold cdelete
  cases hcap : s.eintrag slot with
  | none => exact stelle_draussen_wohl h hfrei .errBadcap
  | some cap => exact ⟨h.entnehmen hfrei hcap, spurlos_entnehmen h hfrei hcap⟩

theorem cmove_wohl (h : s.Wohl) (hfrei : s.ort t = .draussen) (srcSlot dstSlot : Nat) :
    (s.buchen t (s.kern.caps.cmove s.pd srcSlot dstSlot)).Wohl ∧
      ((s.buchen t (s.kern.caps.cmove s.pd srcSlot dstSlot)).antwort t ≠ some .ok →
        (s.buchen t (s.kern.caps.cmove s.pd srcSlot dstSlot)).mitHand t = s.mitHand t) := by
  have habsage : ∀ code, (s.buchen t (s.kern.caps.abgewiesen code)).Wohl ∧
      (s.buchen t (s.kern.caps.abgewiesen code)).mitHand t = s.mitHand t := by
    intro code
    rw [buchen_abgewiesen]
    exact stelle_draussen_wohl h hfrei code
  unfold Caps.cmove
  cases hsrc : s.kern.caps.pds.capAt s.pd srcSlot with
  | none => exact ⟨(habsage .errBadcap).1, fun _ => (habsage .errBadcap).2⟩
  | some src =>
    dsimp only
    by_cases hgleich : srcSlot = dstSlot
    · rw [if_pos hgleich]
      exact ⟨(habsage .ok).1, fun _ => (habsage .ok).2⟩
    · rw [if_neg hgleich]
      by_cases hlt : s.kern.caps.pds.cspaceLenVon s.pd ≤ dstSlot
      · rw [if_pos hlt]
        exact ⟨(habsage .errBadcap).1, fun _ => (habsage .errBadcap).2⟩
      · rw [if_neg hlt]
        by_cases hdst : (s.kern.caps.pds.capAt s.pd dstSlot).isSome = true
        · rw [if_pos hdst]
          exact ⟨(habsage .errNospace).1, fun _ => (habsage .errNospace).2⟩
        · rw [if_neg hdst]
          have hleer : s.eintrag dstSlot = none := by simpa [eintrag] using hdst
          refine ⟨?_, fun hnot => ?_⟩
          · have hwohl := h.umsetzen hfrei hsrc hleer (by omega) (some .ok)
            have hbesitz : s.besitz ∪ {p | (none : Option CapPtr) = some p} = s.besitz := by
              ext q
              simp
            unfold buchen
            rw [hbesitz]
            exact hwohl
          · simp [buchen, stelle] at hnot

theorem weiter_wohl (h : s.Wohl) {rf : Finalized} (hok : s.RufOk (.weiter t rf))
    (hstep : s.weiter t rf = some s') :
    s'.Wohl ∧ (s'.antwort t ≠ some .ok → s'.mitHand t = s.mitHand t) := by
  have hort' := h.orte t
  unfold weiter at hstep
  simp only [RufOk] at hok
  cases hort : s.ort t with
  | draussen =>
    rw [hort] at hstep
    cases hstep
  | loeschen slot cap =>
    rw [hort] at hstep hort'
    have hhand : s.hand t = some cap := by rw [hand, hort]; rfl
    by_cases hl : s.kern.Loeschbar cap
    · obtain ⟨kern, hg, heq⟩ := loesche_of_loeschbar hl rf
      simp only [heq, Option.some.injEq] at hstep
      subst hstep
      refine ⟨h.geloescht hhand hg _, fun hnot => ?_⟩
      simp [stelle] at hnot
    · obtain ⟨e, heq⟩ := loesche_of_not_loeschbar hl rf
      simp only [heq, Option.some.injEq] at hstep
      subst hstep
      have hhand' : (Abschnitt.zuruecklegen slot cap e).hand = s.hand t := hhand.symm
      refine ⟨h.stelle hhand' hort' none, fun _ => ?_⟩
      rw [mitHand_stelle]
      funext k
      unfold mitHand
      rw [hort]
      rfl
  | zuruecklegen slot cap code =>
    rw [hort] at hstep hok
    cases hstep
    exact ⟨h.zuruecklegen hort hok, fun _ => spurlos_zuruecklegen h hort hok⟩
  | waise cap code =>
    rw [hort] at hstep hok hort'
    obtain ⟨hbesitz, hleaf⟩ := hort'
    have hhand : s.hand t = some cap := by rw [hand, hort]; rfl
    obtain ⟨kern, hg, heq⟩ := loesche_of_loeschbar ⟨hok, h.genau.lebt cap hbesitz, hleaf⟩ rf
    simp only [heq, Option.some.injEq] at hstep
    subst hstep
    refine ⟨h.geloescht hhand hg _, fun _ => mitHand_loeschen hg (fun k => ?_) _⟩
    rw [hort]
    rfl

theorem step_wohl (h : s.Wohl) {op : CapOp} (hok : s.RufOk op) (hstep : s.step op = some s') :
    s'.Wohl ∧ s.Spurlos op s' := by
  cases op with
  | weiter t rf => exact weiter_wohl h hok hstep
  | beginne t ruf =>
    obtain ⟨⟨-, hfrei⟩, rfl⟩ := of_guarded hstep
    cases ruf with
    | cdelete slot =>
      obtain ⟨hwohl, hgleich⟩ := cdelete_wohl h hfrei slot
      exact ⟨hwohl, fun _ => hgleich⟩
    | ccopy srcSlot dstSlot mask newBadge =>
      exact buchen_ausgang h hfrei hok (ccopy_ausgang h srcSlot dstSlot mask newBadge)
    | cmove srcSlot dstSlot => exact cmove_wohl h hfrei srcSlot dstSlot
    | csub srcSlot dstSlot offset len =>
      exact buchen_ausgang h hfrei hok (csub_ausgang h srcSlot dstSlot offset len)

/-- In every run whose sections all meet `RufOk`, every capability of the domain is held exactly
once in every state, by exactly one slot when no call is running, and no section of a call that
fails changes the cspace for good. -/
theorem run_genau {s₀ : CapRufe} (hanfang : s₀.Anfang) {ops : List CapOp}
    (hops : Admissible step RufOk s₀ ops) :
    ∀ xs s, xs <+: ops → run step s₀ xs = some s →
      s.Genau ∧
      ((∀ t, s.ort t = .draussen) → ∀ p ∈ s.besitz, ∃! k, s.eintrag k = some p) ∧
      ∀ op s', xs ++ [op] <+: ops → s.step op = some s' → s.Spurlos op s' := by
  intro xs s hpre hrun
  have hwohl : s.Wohl :=
    run_invariant (fun s op s' h hok hstep => (step_wohl h hok hstep).1) hanfang.wohl
      (hops.of_prefix hpre) hrun
  refine ⟨hwohl.genau, fun hruhe p hp => ?_, fun op s' hnext hstep => ?_⟩
  · have hhand : ∀ t, s.hand t = none := by
      intro t
      rw [hand, hruhe t]
      rfl
    exact hwohl.genau.verwahrt.existsUnique_place hhand hp
  · have hok := admissible_iff_forall_reached.mp hops xs op s hnext hrun
    exact (step_wohl hwohl hok hstep).2

def kopieImZweiten : CapRufe where
  kern := {
    caps := {
      cspace := (((CapSpace.attached (.klein 4 4)).install (.endpoint 0) Rights.rw).2.copy
        ⟨0, 0⟩ Rights.rw).2
      pds := { PdTable.attached 1 4 with
        pds := Slab.attach 1 fun _ => { Pd.empty with used := true, cspaceLen := 3 }
        cspacePool := Slab.attach 4 fun k =>
          if k = 0 then some ⟨0, 0⟩ else if k = 1 then some ⟨1, 0⟩ else none }
      owner := fun _ => some 0 }
    alloc := PhysAllocator.new
    stapel := fun _ => false }
  pd := 0
  ort := fun _ => .draussen
  antwort := fun _ => none
  besitz := {⟨0, 0⟩, ⟨1, 0⟩}

theorem kopieImZweiten_eintrag (k : Nat) : kopieImZweiten.eintrag k =
    if k = 0 then some ⟨0, 0⟩ else if k = 1 then some ⟨1, 0⟩ else none := by
  match k with
  | 0 => rfl
  | 1 => rfl
  | 2 => rfl
  | k + 3 => simp [kopieImZweiten, eintrag, PdTable.capAt, PdTable.cspaceLenVon, PdTable.isUsed]

theorem kopieImZweiten_anfang : kopieImZweiten.Anfang := by
  refine ⟨?_, by decide, fun t => rfl, fun p => ?_, fun p k l _ hk hl => ?_⟩
  · have hrun : run Kern.step (Kern.init ⟨4, 4, by decide⟩ PhysAllocator.new)
        [.install (.endpoint 0) Rights.rw, .copy ⟨0, 0⟩ Rights.rw] =
      some ⟨kopieImZweiten.kern.caps.cspace, PhysAllocator.new⟩ := rfl
    exact Kern.run_inv hrun
  · constructor
    · rintro (rfl | rfl)
      · exact ⟨by decide, 0, kopieImZweiten_eintrag 0⟩
      · exact ⟨by decide, 1, kopieImZweiten_eintrag 1⟩
    · rintro ⟨-, k, hk⟩
      rw [kopieImZweiten_eintrag] at hk
      split at hk
      · exact .inl (Option.some.inj hk).symm
      · split at hk
        · exact .inr (Option.some.inj hk).symm
        · cases hk
  · rw [kopieImZweiten_eintrag] at hk hl
    grind

def loeschenNebenKopieren : List CapOp :=
  [.beginne ⟨0, 0⟩ (.cdelete 1), .beginne ⟨1, 0⟩ (.ccopy 0 2 7 0),
    .weiter ⟨0, 0⟩ (Finalized.new 4 4)]

theorem loeschenNebenKopieren_admissible :
    Admissible step RufOk kopieImZweiten loeschenNebenKopieren := by
  refine ⟨trivial, fun s₁ h₁ => ⟨?_, fun s₂ h₂ => ⟨?_, fun _ _ => trivial⟩⟩⟩
  · cases h₁
    intro i hi
    have hidx : i = 2 := (Except.ok.inj hi).symm
    subst hidx
    refine ⟨fun k hk => ?_, fun t ht => ?_⟩
    · have hlt : k < 3 := slot_lt hk
      interval_cases k
      · exact absurd hk (by decide +kernel)
      · exact absurd hk (by decide)
      · exact absurd hk (by decide)
    · by_cases h₀ : t = ⟨0, 0⟩
      · subst h₀
        exact absurd ht (by decide +kernel)
      · have hort : update kopieImZweiten.ort ⟨0, 0⟩ (.loeschen 1 ⟨1, 0⟩) t = .draussen :=
          update_of_ne h₀ _ _
        have hnone := congrArg Abschnitt.hand hort
        exact absurd (hnone.symm.trans ht) (by decide)
  · cases h₁
    cases h₂
    trivial

theorem run_genau_cdelete_ccopy :
    ∃ s, run step kopieImZweiten loeschenNebenKopieren = some s ∧ s.Genau ∧
      ((∀ t, s.ort t = .draussen) → ∀ p ∈ s.besitz, ∃! k, s.eintrag k = some p) := by
  obtain ⟨s, hs⟩ : ∃ s, run step kopieImZweiten loeschenNebenKopieren = some s := ⟨_, rfl⟩
  have hgenau := run_genau kopieImZweiten_anfang loeschenNebenKopieren_admissible
    loeschenNebenKopieren s (List.prefix_refl _) hs
  exact ⟨s, hs, hgenau.1, hgenau.2.1⟩

def loeschenUndKopieren : List CapOp :=
  [.beginne ⟨0, 0⟩ (.cdelete 0), .beginne ⟨1, 0⟩ (.ccopy 1 0 7 0),
    .weiter ⟨0, 0⟩ (Finalized.new 4 4), .weiter ⟨0, 0⟩ (Finalized.new 4 4)]

/-- The capability that is put back overwrites the new copy. -/
theorem run_cdelete_overwrites_copy :
    kopieImZweiten.Anfang ∧ ∃ s, run step kopieImZweiten loeschenUndKopieren = some s ∧
      (∀ t, s.ort t = .draussen) ∧ s.antwort ⟨0, 0⟩ = some .errHaschildren ∧
      s.antwort ⟨1, 0⟩ = some .ok ∧
      ∃ p ∈ s.besitz, s.kern.caps.cspace.Lebt p ∧ ∀ k, s.eintrag k ≠ some p := by
  refine ⟨kopieImZweiten_anfang, _, rfl, fun t => ?_, rfl, rfl, ⟨2, 0⟩, .inr rfl,
    by decide, fun k hk => ?_⟩
  · by_cases h₀ : t = ⟨0, 0⟩
    · subst h₀
      rfl
    · by_cases h₁ : t = ⟨1, 0⟩
      · subst h₁
        rfl
      · exact (update_of_ne h₀ _ _).trans ((update_of_ne h₀ _ _).trans
          ((update_of_ne h₁ _ _).trans (update_of_ne h₀ _ _)))
  · have hlt : k < 3 := slot_lt hk
    interval_cases k
    · exact absurd hk (by decide)
    · exact absurd hk (by decide)
    · exact absurd hk (by decide)

end CapRufe

end Caprock.Microkit
