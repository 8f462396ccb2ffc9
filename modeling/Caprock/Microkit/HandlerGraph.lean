import Mathlib.Data.Nat.Bitwise
import Caprock.Lib.FunctionalGraph
import Caprock.Microkit.Grant

/-! # The handler graph

The threads of a protection domain may be bound to a handler domain that answers
their system calls and faults.  Each domain has at most one handler, so the edges
`pd ↦ handler_pd_of(pd)` form a functional graph, and `pruefe_bindung` decides by one
walk whether a new edge would close a cycle.

Entries are freed and used again.  An edge out of a freed entry is gone, an edge into
it stays and then names whoever lives there next; neither adds an edge, so only
bindings can close a cycle, and they are checked.
-/

namespace Caprock.Microkit

open Execution FunctionalGraph

def sidecarSlots : Nat := 64

def trailingOnes (w : Nat) : Nat :=
  ((List.range 64).find? fun i => !w.testBit i).getD 64

def countOnes (w : Nat) : Nat :=
  (List.range 64).countP fun i => w.testBit i

inductive BindUrteil where
  | ok
  | zyklus
  | selbstBindung
  | fremderHandler
  | ketteZuLang
  | keinSlot
  | wirkungslos
  deriving DecidableEq, Repr

def gang (kante : Nat → Option Nat) (gast : Nat) : Nat → Nat → BindUrteil
  | 0, k =>
      if k = gast then .zyklus
      else
        match kante k with
        | none => .ok
        | some _ => .ketteZuLang
  | rest + 1, k =>
      if k = gast then .zyklus
      else
        match kante k with
        | none => .ok
        | some naechster => gang kante gast rest naechster

def pruefeBindung (gast handler : Nat) (hatSyscall hatFault : Bool) (kante : Nat → Option Nat)
    (nKnoten freieSlots : Nat) : BindUrteil :=
  if hatSyscall = false ∧ hatFault = false then .wirkungslos
  else if gast = handler then .selbstBindung
  else if (∃ vorhanden ∈ kante gast, vorhanden ≠ handler) then .fremderHandler
  else if freieSlots = 0 then .keinSlot
  else gang kante gast nKnoten handler

namespace Pd

def slotSetzen (p : Pd) (slot : Nat) : Pd :=
  { p with sidecarUsed := p.sidecarUsed ||| 2 ^ slot }

def slotLoeschen (p : Pd) (slot : Nat) : Pd :=
  { p with sidecarUsed := p.sidecarUsed &&& ((2 ^ 64 - 1) ^^^ 2 ^ slot) }

/-- One more thread is bound to `handler`. -/
def kanteSetzen (p : Pd) (handler : Nat) : Pd :=
  { p with handlerPd := handler, handlerBound := (p.handlerBound + 1) % 2 ^ 32 }

/-- One thread less is bound; the edge falls with the last one. -/
def kanteLoesen (p : Pd) : Pd :=
  { p with
    handlerBound := p.handlerBound - 1
    handlerPd := if p.handlerBound - 1 = 0 then keinHandlerPd else p.handlerPd }

end Pd

namespace PdTable

def pdCapacity (t : PdTable) : Nat := t.pds.len

/-- `handler_pd_of`: the outgoing edge. -/
def handlerPdOf (t : PdTable) (pd : Nat) : Option Nat :=
  if t.isUsed pd ∧ (t.pds.cell pd).handlerPd ≠ keinHandlerPd then some (t.pds.cell pd).handlerPd
  else none

/-- Change entry `pd`. -/
def aendern (t : PdTable) (pd : Nat) (f : Pd → Pd) : PdTable :=
  { t with pds := t.pds.modify pd f }

def sidecarBelegen (t : PdTable) (handlerPd : Nat) : Option Nat × PdTable :=
  if t.isUsed handlerPd then
    let frei := (t.pds.cell handlerPd).sidecarUsed
    if frei = 2 ^ 64 - 1 then (none, t)
    else (some (trailingOnes frei), t.aendern handlerPd (·.slotSetzen (trailingOnes frei)))
  else (none, t)

def sidecarFreigeben (t : PdTable) (handlerPd slot : Nat) : Bool × PdTable :=
  if t.isUsed handlerPd ∧ slot < sidecarSlots then
    ((t.pds.cell handlerPd).sidecarUsed.testBit slot, t.aendern handlerPd (·.slotLoeschen slot))
  else (false, t)

def sidecarFrei (t : PdTable) (handlerPd : Nat) : Nat :=
  if t.isUsed handlerPd then sidecarSlots - countOnes (t.pds.cell handlerPd).sidecarUsed else 0

def handlerKanteSetzen (t : PdTable) (gast handler : Nat) : Bool × PdTable :=
  if t.isUsed gast then (true, t.aendern gast (·.kanteSetzen handler)) else (false, t)

def handlerKanteLoesen (t : PdTable) (gast : Nat) : Bool × PdTable :=
  if t.isUsed gast ∧ (t.pds.cell gast).handlerBound ≠ 0 then
    (true, t.aendern gast (·.kanteLoesen))
  else (false, t)

def handlerBoundOf (t : PdTable) (pd : Nat) : Nat :=
  if t.isUsed pd then (t.pds.cell pd).handlerBound else 0

end PdTable

theorem gang_eq {kante : Nat → Option Nat} {rank : Nat → Nat}
    (hrank : ∀ a b, kante a = some b → rank b < rank a) (gast : Nat) {rest k : Nat}
    (hk : rank k ≤ rest) :
    (Reaches kante k gast → gang kante gast rest k = .zyklus) ∧
      (¬ Reaches kante k gast → gang kante gast rest k = .ok) := by
  induction rest generalizing k with
  | zero =>
    by_cases hgast : k = gast
    · subst hgast
      exact ⟨fun _ => by simp [gang], fun hnot => absurd Relation.ReflTransGen.refl hnot⟩
    · cases hkante : kante k with
      | none =>
        rw [reaches_iff_of_none hkante]
        exact ⟨fun heq => absurd heq hgast, fun _ => by simp [gang, hgast, hkante]⟩
      | some n =>
        have hlt := hrank k n hkante
        omega
  | succ rest ih =>
    by_cases hgast : k = gast
    · subst hgast
      exact ⟨fun _ => by simp [gang], fun hnot => absurd Relation.ReflTransGen.refl hnot⟩
    · cases hkante : kante k with
      | none =>
        rw [reaches_iff_of_none hkante]
        exact ⟨fun heq => absurd heq hgast, fun _ => by simp [gang, hgast, hkante]⟩
      | some n =>
        have hlt := hrank k n hkante
        have hgang : gang kante gast (rest + 1) k = gang kante gast rest n := by
          simp [gang, hgast, hkante]
        rw [hgang, reaches_iff_of_edge hkante hgast]
        exact ih (by omega)

namespace PdTable

/-- A refusal that `pruefe_bindung` gives before it looks at the graph, in its order. -/
def fruehereAbsage (t : PdTable) (gast handler : Nat) (hatSyscall hatFault : Bool)
    (freieSlots : Nat) : Option BindUrteil :=
  if hatSyscall = false ∧ hatFault = false then some .wirkungslos
  else if gast = handler then some .selbstBindung
  else if t.handlerPdOf gast ≠ none ∧ t.handlerPdOf gast ≠ some handler then some .fremderHandler
  else if freieSlots = 0 then some .keinSlot
  else none

/-- The verdict of `pruefe_bindung` over the table. -/
def urteil (t : PdTable) (gast handler : Nat) (hatSyscall hatFault : Bool) (freieSlots : Nat) :
    BindUrteil :=
  pruefeBindung gast handler hatSyscall hatFault t.handlerPdOf t.pdCapacity freieSlots

theorem urteil_eq (t : PdTable) (gast handler : Nat) (hatSyscall hatFault : Bool)
    (freieSlots : Nat) :
    t.urteil gast handler hatSyscall hatFault freieSlots =
      (t.fruehereAbsage gast handler hatSyscall hatFault freieSlots).getD
        (gang t.handlerPdOf gast t.pdCapacity handler) := by
  unfold urteil pruefeBindung fruehereAbsage
  have hiff : (∃ vorhanden ∈ t.handlerPdOf gast, vorhanden ≠ handler) ↔
      t.handlerPdOf gast ≠ none ∧ t.handlerPdOf gast ≠ some handler := by
    cases t.handlerPdOf gast <;> simp
  simp only [hiff]
  split_ifs <;> rfl

variable {t t' : PdTable}

theorem isUsed_of_handlerPdOf {a b : Nat} (h : t.handlerPdOf a = some b) : t.isUsed a := by
  unfold handlerPdOf at h
  split at h
  · next hu => exact hu.1
  · cases h

theorem gang_of_acyclic (h : Acyclic t.handlerPdOf) (gast handler : Nat) :
    (Reaches t.handlerPdOf handler gast →
        gang t.handlerPdOf gast t.pdCapacity handler = .zyklus) ∧
      (¬ Reaches t.handlerPdOf handler gast →
        gang t.handlerPdOf gast t.pdCapacity handler = .ok) := by
  obtain ⟨rank, hrank, hbound⟩ := h.exists_rank (Finset.range t.pds.len)
    fun a b hab => Finset.mem_range.mpr (isUsed_of_handlerPdOf hab).1
  have hle : rank handler ≤ t.pdCapacity := by simpa [pdCapacity] using hbound handler
  exact gang_eq hrank gast hle

/-- The check is exact on an acyclic graph: an earlier refusal is reported as itself; where none
applies it says `Zyklus` if the edge would close a cycle and `Ok` otherwise, and it never runs out
of steps. -/
structure PruefungGenau (t : PdTable) : Prop where
  absage : ∀ gast handler hatSyscall hatFault freieSlots u,
    t.fruehereAbsage gast handler hatSyscall hatFault freieSlots = some u →
      t.urteil gast handler hatSyscall hatFault freieSlots = u
  zyklus_iff : ∀ gast handler hatSyscall hatFault freieSlots,
    t.urteil gast handler hatSyscall hatFault freieSlots = .zyklus ↔
      t.fruehereAbsage gast handler hatSyscall hatFault freieSlots = none ∧
        ClosesCycle t.handlerPdOf gast handler
  ok_iff : ∀ gast handler hatSyscall hatFault freieSlots,
    t.urteil gast handler hatSyscall hatFault freieSlots = .ok ↔
      t.fruehereAbsage gast handler hatSyscall hatFault freieSlots = none ∧
        ¬ ClosesCycle t.handlerPdOf gast handler
  nie_zu_lang : ∀ gast handler hatSyscall hatFault freieSlots,
    t.urteil gast handler hatSyscall hatFault freieSlots ≠ .ketteZuLang

theorem fruehereAbsage_eq_some {gast handler freieSlots : Nat} {hatSyscall hatFault : Bool}
    {u : BindUrteil} (h : t.fruehereAbsage gast handler hatSyscall hatFault freieSlots = some u) :
    u ≠ .ok ∧ u ≠ .zyklus ∧ u ≠ .ketteZuLang := by
  unfold fruehereAbsage at h
  split_ifs at h <;> cases h <;> decide

theorem pruefungGenau (h : Acyclic t.handlerPdOf) : t.PruefungGenau := by
  have hurteil : ∀ gast handler hatSyscall hatFault freieSlots,
      (∃ u, t.fruehereAbsage gast handler hatSyscall hatFault freieSlots = some u ∧
          t.urteil gast handler hatSyscall hatFault freieSlots = u ∧
          u ≠ .ok ∧ u ≠ .zyklus ∧ u ≠ .ketteZuLang) ∨
        t.fruehereAbsage gast handler hatSyscall hatFault freieSlots = none ∧
          (ClosesCycle t.handlerPdOf gast handler ∧
              t.urteil gast handler hatSyscall hatFault freieSlots = .zyklus ∨
            ¬ ClosesCycle t.handlerPdOf gast handler ∧
              t.urteil gast handler hatSyscall hatFault freieSlots = .ok) := by
    intro gast handler hatSyscall hatFault freieSlots
    rw [urteil_eq]
    cases habsage : t.fruehereAbsage gast handler hatSyscall hatFault freieSlots with
    | some u => exact .inl ⟨u, rfl, rfl, fruehereAbsage_eq_some habsage⟩
    | none =>
      obtain ⟨hzyklus, hok⟩ := gang_of_acyclic h gast handler
      rw [Option.getD_none, h.closesCycle_iff]
      by_cases hreach : Reaches t.handlerPdOf handler gast
      · exact .inr ⟨rfl, .inl ⟨hreach, hzyklus hreach⟩⟩
      · exact .inr ⟨rfl, .inr ⟨hreach, hok hreach⟩⟩
  constructor
  case absage =>
    intro gast handler hatSyscall hatFault freieSlots u habsage
    rw [urteil_eq, habsage, Option.getD_some]
  all_goals
    intro gast handler hatSyscall hatFault freieSlots
    rcases hurteil gast handler hatSyscall hatFault freieSlots with
      ⟨u, habsage, heq, hok, hzyklus, hlang⟩ | ⟨habsage, ⟨hkreis, heq⟩ | ⟨hkreis, heq⟩⟩
    all_goals simp [*]

theorem liest_handlerPdOf : Liest handlerPdOf Pd.handlerPd :=
  Liest.of_eq (fun u h => if u ∧ h ≠ keinHandlerPd then some h else none) fun t pd => by
    simp [handlerPdOf]

theorem NurLauf.handlerPdOf_eq {k : Nat} (hlen : t'.pds.len = t.pds.len)
    (h : NurLauf (t.pds.cell k) (t'.pds.cell k)) : t'.handlerPdOf k = t.handlerPdOf k :=
  liest_handlerPdOf.nurLauf (fun _ _ _ => rfl) hlen h

def KeineNeueKante (t t' : PdTable) : Prop :=
  ∀ a b, t'.handlerPdOf a = some b → t.handlerPdOf a = some b

theorem KeineNeueKante.of_eq (h : ∀ a, t'.handlerPdOf a = t.handlerPdOf a) : t.KeineNeueKante t' :=
  fun a b hab => by rwa [h a] at hab

theorem KeineNeueKante.of_off {pd : Nat}
    (hpd : ∀ b, t'.handlerPdOf pd = some b → t.handlerPdOf pd = some b)
    (hoff : ∀ a, a ≠ pd → t'.handlerPdOf a = t.handlerPdOf a) : t.KeineNeueKante t' := by
  intro a b hab
  by_cases ha : a = pd
  · subst ha
    exact hpd b hab
  · rwa [hoff a ha] at hab

theorem Unveraendert.keineNeueKante (h : t.Unveraendert t') : t.KeineNeueKante t' :=
  .of_eq fun a => NurLauf.handlerPdOf_eq h.len (h.eintrag a)

theorem Eingesetzt.keineNeueKante {i budget : Nat} (h : t.Eingesetzt t' i budget) :
    t.KeineNeueKante t' := by
  refine .of_off (fun b hb => ?_) fun a ha => NurLauf.handlerPdOf_eq h.len (h.eintrag a ha)
  simp [handlerPdOf, h.handlerPd] at hb

theorem Geleert.keineNeueKante {pd : Nat} (h : t.Geleert t' pd) : t.KeineNeueKante t' := by
  refine .of_off (fun b hb => ?_) fun a ha =>
    liest_handlerPdOf h.len (by rw [h.eintrag a ha]) (by rw [h.eintrag a ha])
  have hu := isUsed_of_handlerPdOf hb
  rw [isUsed, h.frei] at hu
  cases hu.2

theorem step_keineNeueKante (h : t.Kurz) (op : Op) :
    ∃ t', t.step op = some t' ∧ t'.Kurz ∧ t.KeineNeueKante t' := by
  cases op with
  | create domain budget plaetze =>
    obtain ⟨r, t', hr, hkurz, -, hcases⟩ := create_spec h domain budget plaetze
    refine ⟨t', by simp [step, hr], hkurz, ?_⟩
    rcases hcases with ⟨hsame, -⟩ | ⟨i, b, hneu, -⟩
    · exact hsame.keineNeueKante
    · exact hneu.keineNeueKante
  | createHardwareBackend partner backendId ep ntfn =>
    obtain ⟨r, t', hr, hkurz, -, -, hcases⟩ :=
      createHardwareBackend_spec h partner backendId ep ntfn
    refine ⟨t', by simp [step, hr], hkurz, ?_⟩
    rcases hcases with ⟨-, hsame⟩ | ⟨-, i, hneu⟩
    · exact hsame.keineNeueKante
    · exact hneu.keineNeueKante
  | free pd =>
    obtain ⟨r, t', hr, hkurz, -, hcases⟩ := free_spec h pd
    refine ⟨t', by simp [step, hr], hkurz, ?_⟩
    rcases hcases with rfl | ⟨hleer, -⟩
    · exact fun _ _ hab => hab
    · exact hleer.keineNeueKante
  | setBudgetDeckel deckel => exact ⟨_, rfl, h.congr rfl rfl, fun _ _ hab => hab⟩
  | installCap pd slot cap =>
    obtain ⟨cell, heq⟩ := t.poolSchreiben_eq pd slot (some cap)
    exact ⟨_, congrArg some heq, h.congr rfl rfl, (Unveraendert.of_pds h rfl).keineNeueKante⟩
  | clearCap pd slot =>
    obtain ⟨cell, heq⟩ := t.poolSchreiben_eq pd slot none
    exact ⟨_, congrArg some heq, h.congr rfl rfl, (Unveraendert.of_pds h rfl).keineNeueKante⟩

theorem Kurz.aendern (h : t.Kurz) (pd : Nat) {f : Pd → Pd}
    (hf : ∀ p, (f p).freilaufNext = p.freilaufNext) :
    (t.aendern pd f).Kurz where
  next_zero := by
    intro k
    simp only [PdTable.aendern, Slab.modify_cell]
    split
    · rw [hf, h.next_zero]
    · exact h.next_zero k
  kopf_lt := h.kopf_lt

theorem handlerPdOf_aendern_of_ne {pd a : Nat} (f : Pd → Pd) (ha : a ≠ pd) :
    (t.aendern pd f).handlerPdOf a = t.handlerPdOf a := by
  apply liest_handlerPdOf
  · rfl
  · simp only [aendern, Slab.modify_cell_of_ne _ ha]
  · simp only [aendern, Slab.modify_cell_of_ne _ ha]

theorem keineNeueKante_aendern {pd : Nat} {f : Pd → Pd}
    (hused : (f (t.pds.cell pd)).used = (t.pds.cell pd).used)
    (hhandler : (f (t.pds.cell pd)).handlerPd = (t.pds.cell pd).handlerPd ∨
      (f (t.pds.cell pd)).handlerPd = keinHandlerPd) : t.KeineNeueKante (t.aendern pd f) := by
  refine .of_off (fun b hb => ?_) fun a ha => handlerPdOf_aendern_of_ne f ha
  have hself : (t.aendern pd f).pds.cell pd = f (t.pds.cell pd) := Slab.modify_cell_self _ _ _
  rcases hhandler with hsame | hkein
  · have heq : (t.aendern pd f).handlerPdOf pd = t.handlerPdOf pd :=
      liest_handlerPdOf rfl (by rw [hself, hused]) (by rw [hself, hsame])
    rwa [heq] at hb
  · simp [handlerPdOf, hself, hkein] at hb

theorem handlerKanteSetzen_spec (h : t.Kurz) (gast handler : Nat) :
    (t.handlerKanteSetzen gast handler).2.Kurz ∧
      ∀ a b, (t.handlerKanteSetzen gast handler).2.handlerPdOf a = some b →
        t.handlerPdOf a = some b ∨ a = gast ∧ b = handler := by
  unfold handlerKanteSetzen
  by_cases hu : t.isUsed gast
  · rw [if_pos hu]
    refine ⟨h.aendern gast fun _ => rfl, fun a b hab => ?_⟩
    by_cases ha : a = gast
    · subst ha
      refine .inr ⟨rfl, ?_⟩
      simp only [handlerPdOf, aendern, Slab.modify_cell_self] at hab
      split at hab
      · exact (Option.some.inj hab).symm
      · cases hab
    · exact .inl (by rwa [handlerPdOf_aendern_of_ne _ ha] at hab)
  · rw [if_neg hu]
    exact ⟨h, fun _ _ hab => .inl hab⟩

theorem handlerKanteLoesen_spec (h : t.Kurz) (gast : Nat) :
    (t.handlerKanteLoesen gast).2.Kurz ∧ t.KeineNeueKante (t.handlerKanteLoesen gast).2 := by
  unfold handlerKanteLoesen
  split
  · refine ⟨h.aendern gast fun _ => rfl, keineNeueKante_aendern rfl ?_⟩
    by_cases hlast : (t.pds.cell gast).handlerBound - 1 = 0
    · exact .inr (by simp [Pd.kanteLoesen, hlast])
    · exact .inl (by simp [Pd.kanteLoesen, hlast])
  · exact ⟨h, fun _ _ hab => hab⟩

theorem sidecarBelegen_spec (h : t.Kurz) (pd : Nat) :
    (t.sidecarBelegen pd).2.Kurz ∧ t.KeineNeueKante (t.sidecarBelegen pd).2 := by
  unfold sidecarBelegen
  split
  · dsimp only
    split
    · exact ⟨h, fun _ _ hab => hab⟩
    · exact ⟨h.aendern pd fun _ => rfl, keineNeueKante_aendern rfl (.inl rfl)⟩
  · exact ⟨h, fun _ _ hab => hab⟩

theorem sidecarFreigeben_spec (h : t.Kurz) (pd slot : Nat) :
    (t.sidecarFreigeben pd slot).2.Kurz ∧ t.KeineNeueKante (t.sidecarFreigeben pd slot).2 := by
  unfold sidecarFreigeben
  split
  · exact ⟨h.aendern pd fun _ => rfl, keineNeueKante_aendern rfl (.inl rfl)⟩
  · exact ⟨h, fun _ _ hab => hab⟩

/-- Operations on the table and on its edges.  An edge is set only after the check of the
same edge said `Ok`, whatever the flags and the number of free slots were. -/
inductive GraphOp where
  | tabelle (op : Op)
  | binden (gast handler : Nat) (hatSyscall hatFault : Bool) (freieSlots : Nat)
  | loesen (gast : Nat)
  | sidecarBelegen (handlerPd : Nat)
  | sidecarFreigeben (handlerPd slot : Nat)

def graphStep (t : PdTable) : GraphOp → Option PdTable
  | .tabelle op => t.step op
  | .binden gast handler hatSyscall hatFault freieSlots =>
      if t.urteil gast handler hatSyscall hatFault freieSlots = .ok then
        some (t.handlerKanteSetzen gast handler).2
      else some t
  | .loesen gast => some (t.handlerKanteLoesen gast).2
  | .sidecarBelegen handlerPd => some (t.sidecarBelegen handlerPd).2
  | .sidecarFreigeben handlerPd slot => some (t.sidecarFreigeben handlerPd slot).2

structure GraphInv (t : PdTable) : Prop extends Kurz t where
  acyclic : Acyclic t.handlerPdOf

theorem attached_graphInv (npd npool : Nat) : (attached npd npool).GraphInv where
  toKurz := attached_kurz npd npool
  acyclic := by
    have hnone : (attached npd npool).handlerPdOf = fun _ => none := by
      funext a
      simp [handlerPdOf, isUsed, attached, Pd.empty]
    rw [hnone]
    exact acyclic_none

theorem graphStep_inv (t : PdTable) (op : GraphOp) (h : t.GraphInv) (_ : True) :
    ∃ t', t.graphStep op = some t' ∧ t'.GraphInv := by
  cases op with
  | tabelle op =>
    obtain ⟨t', hstep, hkurz, hkante⟩ := step_keineNeueKante h.toKurz op
    exact ⟨t', hstep, hkurz, h.acyclic.mono hkante⟩
  | binden gast handler hatSyscall hatFault freieSlots =>
    simp only [graphStep]
    split
    · next hok =>
      obtain ⟨hkurz, hkante⟩ := handlerKanteSetzen_spec h.toKurz gast handler
      have hno := (((pruefungGenau h.acyclic).ok_iff _ _ _ _ _).mp hok).2
      rw [h.acyclic.closesCycle_iff] at hno
      exact ⟨_, rfl, hkurz, h.acyclic.add hkante hno⟩
    · exact ⟨_, rfl, h⟩
  | loesen gast =>
    obtain ⟨hkurz, hkante⟩ := handlerKanteLoesen_spec h.toKurz gast
    exact ⟨_, rfl, hkurz, h.acyclic.mono hkante⟩
  | sidecarBelegen handlerPd =>
    obtain ⟨hkurz, hkante⟩ := sidecarBelegen_spec h.toKurz handlerPd
    exact ⟨_, rfl, hkurz, h.acyclic.mono hkante⟩
  | sidecarFreigeben handlerPd slot =>
    obtain ⟨hkurz, hkante⟩ := sidecarFreigeben_spec h.toKurz handlerPd slot
    exact ⟨_, rfl, hkurz, h.acyclic.mono hkante⟩

/-- Every sequence of creations, frees and checked bindings ends in a table whose handler
graph has no cycle and on which the check is exact. -/
theorem run_handlerGraph_acyclic (npd npool : Nat) (ops : List GraphOp) :
    ∃ t, run graphStep (attached npd npool) ops = some t ∧ Acyclic t.handlerPdOf ∧
      t.PruefungGenau := by
  obtain ⟨t, hrun, hinv⟩ := run_total graphStep_inv (attached_graphInv npd npool)
    (Admissible.of_forall (fun _ _ => trivial) _ ops)
  exact ⟨t, hrun, hinv.acyclic, pruefungGenau hinv.acyclic⟩

/-- A domain that asks to handle itself would close a cycle, and the refusal has a name of
its own. -/
theorem run_create_selbstBindung :
    ∃ t, run graphStep (attached 1 16) [.tabelle (.create .trustedSas 0 0)] = some t ∧
      ClosesCycle t.handlerPdOf 0 0 ∧ t.urteil 0 0 true false 64 = .selbstBindung :=
  ⟨_, rfl, ⟨0, .single (.inr ⟨rfl, rfl⟩)⟩, by decide⟩

end PdTable

end Caprock.Microkit
