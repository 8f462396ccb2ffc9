import Mathlib
import Caprock.Microkit.Dispatch

/-! # What a reply leaves behind

Two promises about `REPLY`.  A guest whose request is answered loses its reason `HANDLER`,
whichever form the reply has; and a capability that travels with the reply orphans nothing.

The branch with `GRANT_FLAG` never releases the guest, and the plain branch releases the
guest it read before it answered.  `run_gibtFrei_iff` and `run_nichtsVerwaist_iff` give for
each promise the replies that keep it, in every run.
-/

namespace Caprock.Microkit

open Execution Cap Mem

namespace Dispatch

@[simp] theorem handler_mitIpc (d : Dispatch) (ep : Nat) (w : Ipc.System) :
    (d.mitIpc ep w).handler = d.handler := rfl

@[simp] theorem kern_mitIpc (d : Dispatch) (ep : Nat) (w : Ipc.System) :
    (d.mitIpc ep w).kern = d.kern := rfl

theorem kern_zustellen (d : Dispatch) (t : ThreadId) (ep slot : Nat) (anlass : Anlass)
    (code : Nat) (abgelegt : Bool) : (d.zustellen t ep slot anlass code abgelegt).kern = d.kern := by
  unfold zustellen
  split <;> rfl

theorem kern_replyAbschliessen (d : Dispatch) (t : ThreadId) (a : Antwort) :
    (d.replyAbschliessen t a).kern = d.kern := by
  obtain ⟨ep, gast⟩ := a
  cases gast with
  | none => rfl
  | some g =>
    unfold replyAbschliessen handlerReply
    dsimp only
    split <;> rfl

theorem lebt_reply (w : Ipc.System) (t x : ThreadId) : (w.reply t).lebt x = w.lebt x := by
  unfold Ipc.System.reply
  split
  · simp
  · dsimp only
    split
    · simp
    · split <;> simp

theorem result_setResult (w : Ipc.System) (t : ThreadId) (code : Nat) :
    ((w.setResult t code).thread t).frame.result = code := by
  simp [Ipc.System.setResult, Ipc.System.setFrame, Ipc.System.modifyThread]

theorem result_reply (w : Ipc.System) (t : ThreadId) :
    ((w.reply t).thread t).frame.result = Ipc.Result.ok ↔ w.ep.used = true := by
  unfold Ipc.System.reply
  by_cases hused : w.ep.used = true
  · simp only [hused, Bool.not_true, Bool.false_eq_true, if_false, iff_true]
    split
    · exact result_setResult _ t _
    · split <;> exact result_setResult _ t _
  · have hnot : (!w.ep.used) = true := by simpa using hused
    rw [if_pos hnot, result_setResult]
    simp [hused, Ipc.Result.errBadcap, Ipc.Result.ok]

def AntwortAuf (d : Dispatch) (t : ThreadId) (ep : Nat) : Op → Prop
  | .syscall t' .reply slot _ _ =>
      t' = t ∧ d.laeuft t = true ∧
        weicheSyscall (d.bindung t) (d.handlerLebtFuer t) = .kernel ∧
        grantFlag (d.thread t).frame.tag = true ∧
        ∃ pd handlerKanal badge, d.pruefen t .reply slot = .ok (pd, ep, handlerKanal, badge)
  | .abschluss t' => t' = t ∧ ∃ gast, d.antwort t = some ⟨ep, gast⟩
  | _ => False

def GibtFrei (d : Dispatch) (op : Op) (d' : Dispatch) : Prop :=
  ∀ t ep, d.AntwortAuf t ep op → (d'.thread t).frame.result = Ipc.Result.ok →
    ∀ g, (d.eps ep).caller = some g → (d.thread g).lebt = true → d'.handler g = false

def SchlichteAntwort (d : Dispatch) (op : Op) : Prop :=
  ∀ t ep g, d.AntwortAuf t ep op → (d.eps ep).used = true → (d.eps ep).caller = some g →
    (d.thread g).lebt = true → d.handler g = true →
    op = .abschluss t ∧ d.antwort t = some ⟨ep, some g⟩

theorem replyGrant_spec (d : Dispatch) (t : ThreadId) (pd ep tag : Nat) (rf : Finalized) :
    (d.replyGrant t pd ep tag rf).handler = d.handler ∧
      (((d.replyGrant t pd ep tag rf).thread t).frame.result = Ipc.Result.ok ↔
        (d.eps ep).used = true) :=
  ⟨rfl, result_reply _ t⟩

theorem replyAbschliessen_spec (d : Dispatch) (t : ThreadId) (a : Antwort) :
    (∀ g, (d.replyAbschliessen t a).handler g =
      if a.gast = some g ∧ (d.thread g).lebt = true then false else d.handler g) ∧
      (((d.replyAbschliessen t a).thread t).frame.result = Ipc.Result.ok ↔
        (d.eps a.ep).used = true) := by
  obtain ⟨ep, gast⟩ := a
  cases gast with
  | none => exact ⟨fun g => by simp [replyAbschliessen], result_reply _ t⟩
  | some g₀ =>
    have hlebt : ((d.mitIpc ep ((d.ipc ep).reply t)).thread g₀).lebt = (d.thread g₀).lebt :=
      lebt_reply (d.ipc ep) t g₀
    unfold replyAbschliessen handlerReply
    dsimp only
    rw [hlebt]
    by_cases hl : (d.thread g₀).lebt = true
    · rw [if_pos hl]
      refine ⟨fun g => ?_, result_reply _ t⟩
      by_cases hg : g = g₀
      · subst hg
        simp [hl]
      · have hne : ¬ g₀ = g := fun h => hg h.symm
        simp [Function.update_of_ne hg, hne]
    · rw [if_neg hl]
      refine ⟨fun g => ?_, result_reply _ t⟩
      by_cases hg : g₀ = g
      · subst hg
        simp [hl]
      · simp [hg]

theorem step_replyGrant {d : Dispatch} {t : ThreadId} {ep slot : Nat} {abgelegt : Bool}
    {rf : Finalized} (h : d.AntwortAuf t ep (.syscall t .reply slot abgelegt rf)) :
    ∃ pd, d.step (.syscall t .reply slot abgelegt rf) =
      some (d.replyGrant t pd ep (d.thread t).frame.tag rf) := by
  obtain ⟨-, hlaeuft, hweiche, htag, pd, handlerKanal, badge, hpruef⟩ := h
  refine ⟨pd, ?_⟩
  unfold step
  dsimp only
  rw [if_pos hlaeuft, hweiche]
  unfold nativ
  rw [hpruef]
  dsimp only
  rw [if_pos htag]

/-- One step: the promise holds exactly for a plain answer to the guest that was read. -/
theorem gibtFrei_iff {d d' : Dispatch} {op : Op} (hstep : d.step op = some d') :
    d.GibtFrei op d' ↔ d.SchlichteAntwort op := by
  cases op with
  | syscall t ruf slot abgelegt rf =>
    cases ruf with
    | reply =>
      constructor
      · intro h t' ep g ha hused hcaller hlebt hhandler
        obtain rfl := ha.1
        obtain ⟨pd, heq⟩ := step_replyGrant ha
        cases (hstep.symm.trans heq)
        obtain ⟨hsame, hok⟩ := d.replyGrant_spec t pd ep (d.thread t).frame.tag rf
        have hfrei := h t ep ha (hok.mpr hused) g hcaller hlebt
        rw [hsame, hhandler] at hfrei
        cases hfrei
      · intro h t' ep ha hres g hcaller hlebt
        obtain rfl := ha.1
        obtain ⟨pd, heq⟩ := step_replyGrant ha
        cases (hstep.symm.trans heq)
        obtain ⟨hsame, hok⟩ := d.replyGrant_spec t pd ep (d.thread t).frame.tag rf
        rw [hsame]
        by_contra hhandler
        obtain ⟨hop, -⟩ := h t ep g ha (hok.mp hres) hcaller hlebt (by simpa using hhandler)
        cases hop
    | _ => exact iff_of_true (fun _ _ h => h.elim) fun _ _ _ h => h.elim
  | abschluss t =>
    constructor
    · intro h t' ep g ha hused hcaller hlebt hhandler
      obtain ⟨rfl, gast, hant⟩ := ha
      have heq : d.step (.abschluss t) = some (d.replyAbschliessen t ⟨ep, gast⟩) := by
        simp [step, hant]
      cases (hstep.symm.trans heq)
      obtain ⟨hnach, hok⟩ := d.replyAbschliessen_spec t ⟨ep, gast⟩
      have hfrei := h t ep ⟨rfl, gast, hant⟩ (hok.mpr hused) g hcaller hlebt
      rw [hnach, hhandler] at hfrei
      refine ⟨rfl, ?_⟩
      by_cases hg : gast = some g
      · rw [hant, hg]
      · simp [hg] at hfrei
    · intro h t' ep ha hres g hcaller hlebt
      obtain ⟨rfl, gast, hant⟩ := ha
      have heq : d.step (.abschluss t) = some (d.replyAbschliessen t ⟨ep, gast⟩) := by
        simp [step, hant]
      cases (hstep.symm.trans heq)
      obtain ⟨hnach, hok⟩ := d.replyAbschliessen_spec t ⟨ep, gast⟩
      rw [hnach]
      by_cases hhandler : d.handler g = true
      · obtain ⟨-, hgast⟩ := h t ep g ⟨rfl, gast, hant⟩ (hok.mp hres) hcaller hlebt hhandler
        rw [hant] at hgast
        cases hgast
        simp [hlebt]
      · split
        · rfl
        · simpa using hhandler
  | _ => exact iff_of_true (fun _ _ h => h.elim) fun _ _ _ h => h.elim

theorem exists_step_of_antwortAuf {d : Dispatch} {t : ThreadId} {ep : Nat} {op : Op}
    (h : d.AntwortAuf t ep op) : ∃ d', d.step op = some d' := by
  cases op with
  | syscall t' ruf slot abgelegt rf =>
    cases ruf with
    | reply =>
      obtain rfl := h.1
      obtain ⟨pd, heq⟩ := step_replyGrant h
      exact ⟨_, heq⟩
    | _ => exact h.elim
  | abschluss t' =>
    obtain ⟨rfl, gast, hant⟩ := h
    exact ⟨_, by simp [step, hant]; rfl⟩
  | _ => exact h.elim

/-- In every run, every successful reply releases the guest it answers exactly if every guest
that waits with `HANDLER` is answered plainly by whoever read it. -/
theorem run_gibtFrei_iff (d₀ : Dispatch) (ops : List Op) :
    (∀ xs op d d', xs ++ [op] <+: ops → run step d₀ xs = some d → d.step op = some d' →
      d.GibtFrei op d') ↔ Admissible step SchlichteAntwort d₀ ops := by
  rw [admissible_iff_forall_reached]
  constructor
  · intro h xs op d hpre hrun t ep g ha
    obtain ⟨d', hstep⟩ := exists_step_of_antwortAuf ha
    exact (gibtFrei_iff hstep).mp (h xs op d d' hpre hrun hstep) t ep g ha
  · intro h xs op d d' hpre hrun hstep
    exact (gibtFrei_iff hstep).mpr (h xs op d hpre hrun)

def gastAmHandler : Dispatch where
  kern := {
    caps := {
      cspace := ((CapSpace.attached (.klein 3 3)).install
        (.syscallHandler 0 1 4096 32768) Rights.rw).2
      pds := { PdTable.attached 2 4 with
        pds := ⟨2, fun k => { Pd.empty with used := true, cspaceStart := 2 * k, cspaceLen := 2 }⟩
        cspacePool := ⟨4, fun k => if k = 2 then some ⟨0, 0⟩ else none⟩
        cspaceVergabe := ⟨4, 0⟩ }
      owner := fun t => some t.slot }
    alloc := PhysAllocator.new
    stapel := fun _ => false }
  neps := 1
  eps := fun _ => Ipc.Endpoint.markUsed
  thread := fun t => ⟨decide (t.slot < 2 ∧ t.gen = 0), .laufend, ⟨0, 0, fun _ => 0, 0⟩⟩
  empfaenger := fun _ => none
  handler := fun _ => false
  bindung := fun t => if t = ⟨0, 0⟩ then some ⟨0, keinEp, 1, 0, 4096⟩ else none
  antwort := fun _ => none

/-- The handler receives, the guest makes a system call, the handler sets `GRANT_FLAG` and replies
with success: the guest still waits for its handler. -/
theorem run_reply_grant_keeps_handler :
    ∃ d d', run step gastAmHandler
        [.syscall ⟨1, 0⟩ .recv 0 true (Finalized.new 4 4),
          .syscall ⟨0, 0⟩ .call 0 true (Finalized.new 4 4),
          .register ⟨1, 0⟩ ⟨0, 0, fun _ => 0, 2 ^ 63⟩] = some d ∧
      d.step (.syscall ⟨1, 0⟩ .reply 0 true (Finalized.new 4 4)) = some d' ∧
      ¬ d.GibtFrei (.syscall ⟨1, 0⟩ .reply 0 true (Finalized.new 4 4)) d' := by
  refine ⟨_, _, rfl, rfl, fun h => ?_⟩
  have hfrei := h ⟨1, 0⟩ 0 ⟨rfl, rfl, rfl, by decide, 1, true, 0, rfl⟩ (by decide)
    ⟨0, 0⟩ (by decide) (by decide)
  exact absurd hfrei (by decide)

/-- Whom a reply of `t` through `slot` answers. -/
def beantwortet (d : Dispatch) (t : ThreadId) (slot : Nat) : Option ThreadId :=
  match d.pruefen t .reply slot with
  | .ok (_, ep, _, _) => (d.eps ep).caller
  | .error _ => none

def Unverwaist (d : Dispatch) (op : Op) (d' : Dispatch) : Prop :=
  ∀ t ruf slot abgelegt rf, op = .syscall t ruf slot abgelegt rf → ruf ≠ .recv →
    grantFlag (d.thread t).frame.tag = true → d.kern.NichtsVerwaist d'.kern (d.beantwortet t slot)

def EmpfangOk (d : Dispatch) (op : Op) : Prop :=
  ∀ t slot abgelegt rf pd ep handlerKanal badge, op = .syscall t .reply slot abgelegt rf →
    d.AntwortAuf t ep op → d.pruefen t .reply slot = .ok (pd, ep, handlerKanal, badge) →
      d.kern.TransferSicher (d.eps ep).caller pd ((d.thread t).frame.tag % 2 ^ 8)

theorem antwortAuf_syscall {d : Dispatch} {t : ThreadId} {ruf : Ruf} {ep slot : Nat}
    {abgelegt : Bool} {rf : Finalized} (h : d.AntwortAuf t ep (.syscall t ruf slot abgelegt rf)) :
    ruf = .reply ∧ weicheSyscall (d.bindung t) (d.handlerLebtFuer t) = .kernel ∧
      grantFlag (d.thread t).frame.tag = true ∧
      ∃ pd handlerKanal badge, d.pruefen t ruf slot = .ok (pd, ep, handlerKanal, badge) := by
  cases ruf with
  | reply => exact ⟨rfl, h.2.2.1, h.2.2.2.1, h.2.2.2.2⟩
  | _ => exact h.elim

theorem kern_syscall {d d' : Dispatch} {t : ThreadId} {ruf : Ruf} {slot : Nat} {abgelegt : Bool}
    {rf : Finalized} (hstep : d.step (.syscall t ruf slot abgelegt rf) = some d') :
    d'.kern = d.kern ∧ (∀ ep, ¬ d.AntwortAuf t ep (.syscall t ruf slot abgelegt rf)) ∨
      ∃ pd ep handlerKanal badge, ruf = .reply ∧
        d.AntwortAuf t ep (.syscall t ruf slot abgelegt rf) ∧
        d.pruefen t .reply slot = .ok (pd, ep, handlerKanal, badge) ∧
        d'.kern = d.kern.transfer (d.eps ep).caller pd ((d.thread t).frame.tag % 2 ^ 8) rf := by
  unfold step at hstep
  dsimp only at hstep
  split at hstep
  · next hlaeuft =>
    split at hstep
    · next hweiche =>
      cases hstep
      unfold nativ
      cases hpruef : d.pruefen t ruf slot with
      | error e =>
        refine .inl ⟨rfl, fun ep h => ?_⟩
        obtain ⟨-, -, -, pd, handlerKanal, badge, hok⟩ := antwortAuf_syscall h
        rw [hpruef] at hok
        cases hok
      | ok r =>
        obtain ⟨pd, ep, handlerKanal, badge⟩ := r
        cases ruf with
        | call => exact .inl ⟨rfl, fun ep h => h.elim⟩
        | recv => exact .inl ⟨rfl, fun ep h => h.elim⟩
        | reply =>
          dsimp only
          by_cases htag : grantFlag (d.thread t).frame.tag = true
          · rw [if_pos htag]
            exact .inr ⟨pd, ep, handlerKanal, badge, rfl,
              ⟨rfl, hlaeuft, hweiche, htag, pd, handlerKanal, badge, hpruef⟩, hpruef, rfl⟩
          · rw [if_neg htag]
            exact .inl ⟨rfl, fun ep h => htag (antwortAuf_syscall h).2.2.1⟩
    · next hweiche =>
      cases hstep
      refine .inl ⟨rfl, fun ep h => ?_⟩
      rw [(antwortAuf_syscall h).2.1] at hweiche
      cases hweiche
    · next hweiche =>
      cases hstep
      refine .inl ⟨kern_zustellen _ _ _ _ _ _ _, fun ep h => ?_⟩
      rw [(antwortAuf_syscall h).2.1] at hweiche
      cases hweiche
  · cases hstep

/-- One step from a well-formed space: nothing is orphaned exactly if the receive slot is free. -/
theorem unverwaist_iff {d d' : Dispatch} {kids : Nat → List Nat} {op : Op}
    (hinv : d.kern.caps.cspace.Inv kids) (hstep : d.step op = some d') :
    d.Unverwaist op d' ↔ d.EmpfangOk op := by
  cases op with
  | syscall t ruf slot abgelegt rf =>
    rcases kern_syscall hstep with
      ⟨hsame, hnot⟩ | ⟨pd, ep, handlerKanal, badge, rfl, hant, hpruef, hkern⟩
    · refine iff_of_true ?_ ?_
      · intro t' ruf' slot' abgelegt' rf' hop hruf htag
        rw [hsame]
        exact CapKern.NichtsVerwaist.refl _ _
      · intro t' slot' abgelegt' rf' pd ep handlerKanal badge hop hant
        cases hop
        exact absurd hant (hnot ep)
    · have hwen : d.beantwortet t slot = (d.eps ep).caller := by
        rw [beantwortet, hpruef]
      have hiff := CapKern.transfer_nichtsVerwaist_iff hinv (d.eps ep).caller pd
        ((d.thread t).frame.tag % 2 ^ 8) rf
      rw [← hkern] at hiff
      constructor
      · intro h t' slot' abgelegt' rf' pd' ep' handlerKanal' badge' hop hant' hpruef'
        cases hop
        rw [hpruef] at hpruef'
        cases hpruef'
        apply hiff.mp
        rw [← hwen]
        exact h t .reply slot abgelegt rf rfl (by decide) (antwortAuf_syscall hant).2.2.1
      · intro h t' ruf' slot' abgelegt' rf' hop hruf htag
        cases hop
        rw [hwen]
        exact hiff.mpr (h t slot abgelegt rf pd ep handlerKanal badge rfl hant hpruef)
  | _ =>
    refine iff_of_true ?_ ?_
    · intro t ruf slot abgelegt rf hop
      cases hop
    · intro t slot abgelegt rf pd ep handlerKanal badge hop
      cases hop

theorem step_inv (d : Dispatch) (op : Op) (d' : Dispatch)
    (h : ∃ kids, d.kern.caps.cspace.Inv kids) (hstep : d.step op = some d') :
    ∃ kids, d'.kern.caps.cspace.Inv kids := by
  cases op with
  | register t frame =>
    obtain ⟨-, rfl⟩ := of_guarded hstep
    exact h
  | syscall t ruf slot abgelegt rf =>
    obtain ⟨kids, hinv⟩ := h
    rcases kern_syscall hstep with ⟨hsame, -⟩ | ⟨pd, ep, handlerKanal, badge, -, -, -, hkern⟩
    · rw [hsame]
      exact ⟨kids, hinv⟩
    · rw [hkern]
      exact CapKern.transfer_inv hinv _ _ _ _
  | fault t code abgelegt =>
    simp only [step, Option.ite_none_right_eq_some] at hstep
    obtain ⟨-, hstep⟩ := hstep
    split at hstep
    · cases hstep
      exact h
    · cases hstep
      exact h
    · cases hstep
      rw [kern_zustellen]
      exact h
  | abschluss t =>
    simp only [step, Option.map_eq_some_iff] at hstep
    obtain ⟨a, -, rfl⟩ := hstep
    rw [kern_replyAbschliessen]
    exact h
  | endpunkt ep op =>
    simp only [step, Option.ite_none_right_eq_some, Option.map_eq_some_iff] at hstep
    obtain ⟨-, w, -, rfl⟩ := hstep
    exact h
  | caps op =>
    simp only [step, Option.map_eq_some_iff] at hstep
    obtain ⟨k, hk, rfl⟩ := hstep
    exact Kern.step_inv ⟨d.kern.caps.cspace, d.kern.alloc⟩ op k h hk
  | pds op =>
    simp only [step, Option.map_eq_some_iff] at hstep
    obtain ⟨pds, -, rfl⟩ := hstep
    exact h
  | setRecvSlot pd slot | zuordnen t pd | binden t b | stapel cap benutzt =>
    cases hstep
    exact h

def mitTabellen (d : Dispatch) (tab : Tabellen) : Dispatch :=
  { d with kern := { d.kern with caps := { d.kern.caps with cspace := CapSpace.attached tab } } }

/-- In every run from empty tables, every `CALL` and `REPLY` with `GRANT_FLAG` orphans nothing
exactly if every grant that goes through meets a free receive slot. -/
theorem run_nichtsVerwaist_iff (d₀ : Dispatch) (tab : Tabellen) (ops : List Op) :
    (∀ xs op d d', xs ++ [op] <+: ops → run step (d₀.mitTabellen tab) xs = some d →
      d.step op = some d' → d.Unverwaist op d') ↔
      Admissible step EmpfangOk (d₀.mitTabellen tab) ops := by
  have hinv : ∀ {xs d}, run step (d₀.mitTabellen tab) xs = some d →
      ∃ kids, d.kern.caps.cspace.Inv kids :=
    fun hrun => run_invariant_of_step step_inv ⟨_, CapSpace.attached_inv tab⟩ hrun
  rw [admissible_iff_forall_reached]
  constructor
  · intro h xs op d hpre hrun t slot abgelegt rf pd ep handlerKanal badge hop hant hpruef
    obtain ⟨d', hstep⟩ := exists_step_of_antwortAuf hant
    obtain ⟨kids, hkids⟩ := hinv hrun
    exact (unverwaist_iff hkids hstep).mp (h xs op d d' hpre hrun hstep) t slot abgelegt rf pd ep
      handlerKanal badge hop hant hpruef
  · intro h xs op d d' hpre hrun hstep
    obtain ⟨kids, hkids⟩ := hinv hrun
    exact (unverwaist_iff hkids hstep).mpr (h xs op d hpre hrun)

def leer : Dispatch where
  kern := {
    caps := {
      cspace := CapSpace.attached ⟨8, 8, by decide⟩
      pds := PdTable.attached 2 8
      owner := fun t => some t.slot }
    alloc := PhysAllocator.new
    stapel := fun _ => false }
  neps := 1
  eps := fun _ => Ipc.Endpoint.markUsed
  thread := fun t => ⟨decide (t.slot < 2 ∧ t.gen = 0), .laufend, ⟨0, 0, fun _ => 0, 0⟩⟩
  empfaenger := fun _ => none
  handler := fun _ => false
  bindung := fun _ => none
  antwort := fun _ => none

/-- Client and server share an endpoint; the client keeps a capability and a copy of it, the first
in its receive slot; the server is about to reply with a grant. -/
def vorDerGabe : List Op :=
  [.caps (.install (.endpoint 0) Rights.rw), .caps (.install (.notification 7) Rights.rw),
    .caps (.copy ⟨0, 0⟩ Rights.rw), .caps (.install (.notification 8) Rights.rw),
    .caps (.copy ⟨3, 0⟩ Rights.rw), .pds (.create .trustedSas 3 3), .pds (.create .trustedSas 3 3),
    .pds (.installCap 1 0 ⟨0, 0⟩), .pds (.installCap 1 1 ⟨1, 0⟩), .pds (.installCap 0 0 ⟨2, 0⟩),
    .pds (.installCap 0 1 ⟨3, 0⟩), .pds (.installCap 0 2 ⟨4, 0⟩),
    .syscall ⟨1, 0⟩ .recv 0 true (Finalized.new 4 4),
    .syscall ⟨0, 0⟩ .call 0 true (Finalized.new 4 4),
    .register ⟨1, 0⟩ ⟨0, 0, fun _ => 0, 2 ^ 63 + 1⟩]

/-- The displaced capability has a child, so its deletion fails and nobody names it any more. -/
theorem run_reply_grant_orphans :
    ∃ d d', run step (leer.mitTabellen ⟨8, 8, by decide⟩) vorDerGabe = some d ∧
      d.step (.syscall ⟨1, 0⟩ .reply 0 true (Finalized.new 4 4)) = some d' ∧
      ¬ d.Unverwaist (.syscall ⟨1, 0⟩ .reply 0 true (Finalized.new 4 4)) d' := by
  refine ⟨_, _, rfl, rfl, fun h => ?_⟩
  have hnichts := h ⟨1, 0⟩ .reply 0 true (Finalized.new 4 4) rfl (by decide) (by decide)
  have hgenannt := hnichts.erreichbar ⟨3, 0⟩ (by decide) (by decide)
    (by decide +kernel)
  exact absurd hgenannt (by decide +kernel)

end Dispatch

end Caprock.Microkit
