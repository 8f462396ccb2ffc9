import Caprock.Sched.Pointwise
import Caprock.Sched.Tolerance

/-! # What a call leaves alone

An observation of a scheduler is blind when it does not see what blocking and waking
change: reasons, marks, lists and the running thread.  No call that only blocks or wakes
changes what such an observation shows.  The other calls arm deadlines, lend accounts or
charge them: they change only observations that see these.
-/

namespace Caprock.Sched

open Execution

/-- A block without the fields that blocking and waking change. -/
def Tcb.stand (t : Tcb) : Tcb :=
  { t with
    sp := 0, reasons := ∅, queued := none, admitted := false, qnext := none, qprev := none
    parkWake := false }

def Tcb.kennung (t : Tcb) : Tcb :=
  { t.stand.ohneKonto with frist := 0, fristGrund := none, scDonor := none, scDonee := none }

namespace Scheduler

/-- A scheduler without its blocks and without what blocking and waking change. -/
def rumpf (s : Scheduler) : Scheduler :=
  { s with
    tcbs := ⟨s.tcbs.len, fun _ => Tcb.empty⟩, current := none, queues := fun _ => ListHead.empty
    bitmap := 0, fristenUeberlauf := 0, budgetBlockedCount := 0 }

section

variable {β : Type}

/-- The observation does not see blocking and waking. -/
structure Blind (ω : Scheduler → β) : Prop
    extends Duldet (fun s s' => ω s' = ω s) (fun _ => True) fun _ => True where
  stand : ∀ s s', s'.rumpf = s.rumpf → (∀ x, (s'.tcb x).stand = (s.tcb x).stand) → ω s' = ω s

/-- It does not see deadlines. -/
def FristBlind (ω : Scheduler → β) : Prop := ∀ s i d g, ω (s.setFrist i d g) = ω s

/-- It does not see donations. -/
abbrev SpendenBlind (ω : Scheduler → β) : Prop := SpendenDuldet fun s s' => ω s' = ω s

/-- It does not see accounts and the clock. -/
abbrev KontenBlind (ω : Scheduler → β) : Prop := KontenDuldet fun s s' => ω s' = ω s

variable {ω : Scheduler → β}

theorem feld_modifyTcb {α : Type} (φ : Tcb → α) (s : Scheduler) (i x : Nat) {f : Tcb → Tcb}
    (hf : ∀ t, φ (f t) = φ t) : φ ((s.modifyTcb i f).tcb x) = φ (s.tcb x) := by
  rw [tcb_modifyTcb]
  split
  · next hx => rw [hf, hx]
  · rfl

end

theorem rumpf_of_nurListen {s s' : Scheduler} (h : NurListen s s') : s'.rumpf = s.rumpf := by
  have hlen := h.len
  rw [h.rest]
  unfold rumpf
  rw [hlen]

theorem stand_of_daten {s s' : Scheduler} {i : Nat} {q : Option Nat}
    (h : ∀ x, s'.daten x = if x = i then (s.daten i).mitQueued q else s.daten x) (x : Nat) :
    (s'.tcb x).stand = (s.tcb x).stand := by
  have hx := congrArg Tcb.stand (h x)
  split at hx
  · next hxi =>
    subst hxi
    exact hx
  · exact hx

section

variable {β : Type} {ω : Scheduler → β} {s s' : Scheduler} {v : Verzeichnis}

theorem Blind.of_stand
    (h : ∀ s s', s'.rumpf = s.rumpf → (∀ x, (s'.tcb x).stand = (s.tcb x).stand) → ω s' = ω s) :
    Blind ω := by
  have hmodify : ∀ s i {f : Tcb → Tcb}, (∀ t, (f t).stand = t.stand) → ω (s.modifyTcb i f) = ω s :=
    fun s i _ hf => h s _ rfl fun x => feld_modifyTcb Tcb.stand s i x hf
  have hcount : ∀ (t : Scheduler) (n : Nat), ω { t with budgetBlockedCount := n } = ω t :=
    fun t n => h t _ rfl fun _ => rfl
  refine ⟨⟨fun _ => rfl, fun h h' => h'.trans h, fun {s s' i} he => ?_, fun s i => ?_,
    fun s i => h s _ rfl fun _ => rfl, fun s i w => hmodify s i fun _ => rfl,
    fun s i => hmodify s i fun _ => rfl, fun _ s i => hmodify s i fun _ => rfl,
    fun _ s i => hmodify s i fun _ => rfl, fun s i an => ?_⟩, h⟩
  · obtain ⟨p, hdaten⟩ := daten_enqueueReady he
    exact h s s' (rumpf_of_nurListen (nurListen_enqueueReady he)) (stand_of_daten hdaten)
  · exact h s _ (rumpf_of_nurListen (nurListen_removeFromReady s i))
      (stand_of_daten (daten_removeFromReady s i))
  · unfold setBudgetBlocked
    split
    · rfl
    · split
      · exact (hcount _ _).trans (hmodify s i fun _ => rfl)
      · exact (hcount _ _).trans (hmodify s i fun _ => rfl)

theorem Blind.modifyTcb (hω : Blind ω) (s : Scheduler) (i : Nat) {f : Tcb → Tcb}
    (hf : ∀ t, (f t).stand = t.stand) : ω (s.modifyTcb i f) = ω s :=
  hω.stand s _ rfl fun x => feld_modifyTcb Tcb.stand s i x hf

theorem Blind.setParkWake (hω : Blind ω) (s : Scheduler) (i : Nat) (w : Bool) :
    ω (s.setParkWake i w) = ω s :=
  hω.modifyTcb s i fun _ => rfl

theorem Blind.naechsteFrist (h : Blind ω) (d : Nat) :
    Blind fun s => ω { s with naechsteFrist := d } := by
  refine .of_stand fun s s' hrumpf htcb => h.stand _ _ ?_ htcb
  have hwith := congrArg (fun t : Scheduler => ({ t with naechsteFrist := d } : Scheduler)) hrumpf
  exact hwith

end

section

variable {β : Type} {ω : Scheduler → β} {s s' : Scheduler} {v : Verzeichnis}

theorem FristBlind.naechsteFrist (hf : FristBlind ω) (d : Nat) :
    FristBlind fun s => ω { s with naechsteFrist := d } :=
  fun s i e g => hf { s with naechsteFrist := d } i e g

theorem FristBlind.fristLoeschen (hf : FristBlind ω) (s : Scheduler) (v : Verzeichnis)
    (tid : ThreadId) : ω (s.fristLoeschen v tid) = ω s := by
  unfold Scheduler.fristLoeschen
  split
  · rfl
  · next i hi => exact hf s i 0 none

theorem FristBlind.fristSetzen (hf : FristBlind ω) {ticks : Nat} {g : Grund}
    (h : s.fristSetzen ticks g = some s') :
    ω s' = ω { s with naechsteFrist := s'.naechsteFrist } := by
  unfold Scheduler.fristSetzen at h
  split at h
  · cases h
  · next cur hcur =>
    split at h
    · cases h
      exact hf s cur 0 none
    · cases h
      exact hf.naechsteFrist _ s cur (min (s.now + ticks) (2 ^ 64 - 1)) (some g)

theorem Blind.fristFreigeben (hω : Blind ω) (hf : FristBlind ω) {i : Nat} {g : Grund}
    (h : s.fristFreigeben i g = some s') : ω s' = ω s := by
  unfold Scheduler.fristFreigeben at h
  dsimp only at h
  have hfree := (hω.removeReason (g := g) trivial (s.fristEntwaffnen i) i).trans (hf s i 0 none)
  split at h
  · exact (hω.enqueueReady h).trans hfree
  · cases h
    exact hfree

theorem Blind.fristSchritt (hω : Blind ω) (hf : FristBlind ω) {outLen i : Nat} {l l' : FristLauf}
    (h : fristSchritt outLen l i = some l') : ω l'.sched = ω l.sched := by
  unfold Scheduler.fristSchritt at h
  dsimp only at h
  split at h
  · cases h
    rfl
  · split at h
    · cases h
      rfl
    · cases h
      exact hω.stand l.sched _ rfl fun _ => rfl
    · cases h
      exact hf l.sched i 0 none
    · split at h
      · cases h
        exact hf l.sched i 0 none
      · obtain ⟨s₁, hs₁, rfl⟩ := Option.map_eq_some_iff.mp h
        exact hω.fristFreigeben hf hs₁

/-- The deadline scan fixes the next deadline anew. -/
theorem Blind.fristenFaellig (hω : Blind ω) (hf : FristBlind ω) {outLen : Nat}
    {out : List ThreadId} (h : s.fristenFaellig outLen = some (out, s')) :
    ω s' = ω { s with naechsteFrist := s'.naechsteFrist } := by
  unfold Scheduler.fristenFaellig at h
  split at h
  · cases h
    rfl
  · obtain ⟨l, hrun, htuple⟩ := Option.map_eq_some_iff.mp h
    cases htuple
    have hω' := hω.naechsteFrist l.naechste
    have hf' := hf.naechsteFrist l.naechste
    have hstep : ∀ (l' : FristLauf) (i : Nat) (l'' : FristLauf),
        ω { l'.sched with naechsteFrist := l.naechste } = ω { s with naechsteFrist := l.naechste } →
        Scheduler.fristSchritt outLen l' i = some l'' →
        ω { l''.sched with naechsteFrist := l.naechste } =
          ω { s with naechsteFrist := l.naechste } :=
      fun l' i l'' hl hi => (hω'.fristSchritt hf' hi).trans hl
    exact run_invariant_of_step hstep rfl hrun

end

end Scheduler

def Aufruf.Schlicht : Aufruf → Prop
  | .fristSetzen _ _ | .fristLoeschen _ | .fristenFaellig _ => False
  | .switchTo _ _ | .endDonation | .onTick _ _ | .setBudget _ _ _ => False
  | _ => True

/-- The calls that touch no deadline. -/
def Aufruf.Fristlos : Aufruf → Prop
  | .fristSetzen _ _ | .fristLoeschen _ | .fristenFaellig _ => False
  | _ => True

namespace Scheduler

variable {β : Type} {ω : Scheduler → β} {s s' : Scheduler} {v : Verzeichnis} {a : Aufruf}

theorem Blind.vertraegt (hω : Blind ω) (ha : a.Schlicht) :
    Vertraegt (fun s s' => ω s' = ω s) (fun _ => True) (fun _ => True) a := by
  cases a with
  | parkCurrent frame | unpark tid => exact ⟨trivial, hω.setParkWake⟩
  | fristSetzen ticks grund | fristLoeschen tid | fristenFaellig outLen => exact ha.elim
  | switchTo frame target | endDonation | onTick frame tick | setBudget tid budget period =>
    exact ha.elim
  | _ => trivial

theorem Blind.aufruf (hω : Blind ω) (h : s.aufruf v a = some s') (ha : a.Schlicht) :
    ω s' = ω s :=
  hω.toDuldet.aufruf h (hω.vertraegt ha)

theorem Blind.aufruf_of_fristlos (hω : Blind ω) (hs : SpendenBlind ω) (hk : KontenBlind ω)
    (h : s.aufruf v a = some s') (ha : a.Fristlos) : ω s' = ω s := by
  refine hω.toDuldet.aufruf h ?_
  cases a with
  | switchTo frame target => exact ⟨trivial, trivial, hs⟩
  | endDonation => exact hs
  | onTick frame tick | setBudget tid budget period => exact hk
  | fristSetzen ticks grund | fristLoeschen tid | fristenFaellig outLen => exact ha.elim
  | _ => exact hω.vertraegt trivial

structure Starr (ω : Scheduler → β) : Prop where
  blind : Blind ω
  frist : FristBlind ω
  spende : SpendenBlind ω
  konto : KontenBlind ω
  naechste : ∀ s d, ω { s with naechsteFrist := d } = ω s

theorem Starr.aufruf (hω : Starr ω) (h : s.aufruf v a = some s') : ω s' = ω s := by
  cases a with
  | fristSetzen ticks grund => exact (hω.frist.fristSetzen h).trans (hω.naechste s _)
  | fristLoeschen tid =>
    cases h
    exact hω.frist.fristLoeschen s v tid
  | fristenFaellig outLen =>
    obtain ⟨out, h⟩ := map_snd_eq_some h
    exact (hω.blind.fristenFaellig hω.frist h).trans (hω.naechste s _)
  | _ => exact hω.blind.aufruf_of_fristlos hω.spende hω.konto h trivial

theorem starr_kennung (x : Nat) : Starr fun s => (s.tcb x).kennung where
  blind := by
    refine .of_stand fun s s' _ htcb => ?_
    have hx := congrArg Tcb.kennung (htcb x)
    exact hx
  frist := fun s i d g => feld_modifyTcb Tcb.kennung s i x fun _ => rfl
  spende := ⟨fun s i w => feld_modifyTcb Tcb.kennung s i x fun _ => rfl,
    fun s i w => feld_modifyTcb Tcb.kennung s i x fun _ => rfl⟩
  konto := by
    refine ⟨fun s i f hf => feld_modifyTcb Tcb.kennung s i x fun t => ?_, fun _ _ _ _ _ => rfl⟩
    have ht := congrArg Tcb.kennung (hf t)
    exact ht
  naechste := fun _ _ => rfl

theorem resolve_congr {s s' : Scheduler} (hcore : s'.core = s.core) (hlen : s'.tcbs.len = s.tcbs.len)
    (hused : ∀ x, (s'.tcb x).used = (s.tcb x).used) (hgen : ∀ x, (s'.tcb x).gen = (s.tcb x).gen)
    (v : Verzeichnis) (tid : ThreadId) : s'.resolve v tid = s.resolve v tid := by
  unfold resolve
  cases v.directory.get tid.slot with
  | none => rfl
  | some e =>
    unfold Slab.get
    rw [hcore, hlen]
    by_cases hlt : e.lokal < s.tcbs.len
    · simp only [if_pos hlt]
      have hu := hused e.lokal
      have hg := hgen e.lokal
      unfold tcb at hu hg
      rw [hu, hg]
    · simp only [if_neg hlt]

theorem blind_resolve (v : Verzeichnis) (tid : ThreadId) : Blind fun s => s.resolve v tid := by
  refine .of_stand fun s s' hrumpf htcb => ?_
  have hrest : ∀ {α : Type} (f : Scheduler → α), f s'.rumpf = f s.rumpf := fun f => congrArg f hrumpf
  have hcore : s'.core = s.core := hrest core
  have hlen : s'.tcbs.len = s.tcbs.len := hrest fun t => t.tcbs.len
  refine resolve_congr hcore hlen (fun x => ?_) (fun x => ?_) v tid
  · have hx := congrArg Tcb.used (htcb x)
    exact hx
  · have hx := congrArg Tcb.gen (htcb x)
    exact hx

end Scheduler

end Caprock.Sched
