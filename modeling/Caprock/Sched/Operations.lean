import Caprock.Sched.Cases
import Caprock.Sched.Ready

/-! # Every operation keeps the ready lists

`Geordnet` hides the lists of `Ordnung`.  The internal functions keep it and leave the
running thread and the occupation of the slots as they are (`Rahmen`); the public
operations keep it together with `Laufend`: the running thread is a used slot.
-/

namespace Caprock.Sched.Scheduler

open Execution

def Geordnet (s : Scheduler) : Prop := ∃ l, Ordnung s l

def Laufend (s : Scheduler) : Prop := ∀ i, s.current = some i → (s.tcb i).used = true

/-- The running thread and the occupation of the slots are the same. -/
structure Rahmen (s s' : Scheduler) : Prop where
  current : s'.current = s.current
  used : ∀ x, (s'.tcb x).used = (s.tcb x).used

namespace Rahmen

variable {s s' s'' : Scheduler}

theorem refl (s : Scheduler) : Rahmen s s := ⟨rfl, fun _ => rfl⟩

theorem trans (h : Rahmen s s') (h' : Rahmen s' s'') : Rahmen s s'' :=
  ⟨h'.current.trans h.current, fun x => (h'.used x).trans (h.used x)⟩

theorem laufend (h : Rahmen s s') (hl : s.Laufend) : s'.Laufend := by
  intro i hi
  rw [h.current] at hi
  rw [h.used]
  exact hl i hi

theorem modifyTcb (s : Scheduler) (i : Nat) {f : Tcb → Tcb} (hf : ∀ t, (f t).used = t.used) :
    Rahmen s (s.modifyTcb i f) := by
  refine ⟨rfl, fun x => ?_⟩
  rw [tcb_modifyTcb]
  split
  · next hx => rw [hf, hx]
  · rfl

theorem removeFromReady (s : Scheduler) (i : Nat) : Rahmen s (s.removeFromReady i) :=
  ⟨(nurListen_removeFromReady s i).current,
    fun x => (Ordnung.flags_of_daten (daten_removeFromReady s i) x).2.1⟩

end Rahmen

theorem enqueueReady_of_lt {s : Scheduler} {i : Nat} (hprio : (s.tcb i).priority < nprio) :
    ∃ s', s.enqueueReady i = some s' := by
  unfold enqueueReady
  split
  · exact ⟨_, rfl⟩
  · dsimp only
    rw [if_neg (Nat.not_le.mpr hprio)]
    exact ⟨_, rfl⟩

theorem daten_enqueueReady {s s' : Scheduler} {i : Nat} (h : s.enqueueReady i = some s') :
    ∃ p, ∀ x, s'.daten x = if x = i then (s.daten i).mitQueued (some p) else s.daten x := by
  rcases enqueueReady_cases h with ⟨rfl, hq⟩ | ⟨p, he⟩
  · obtain ⟨p, hp⟩ := Option.ne_none_iff_exists'.mp hq
    refine ⟨p, fun x => ?_⟩
    have hself : (s'.daten i).mitQueued (some p) = s'.daten i := Tcb.mitQueued_self hp
    split
    · next hx => rw [hself, hx]
    · rfl
  · exact ⟨p, he.daten⟩

theorem nurListen_enqueueReady {s s' : Scheduler} {i : Nat} (h : s.enqueueReady i = some s') :
    NurListen s s' := by
  rcases enqueueReady_cases h with ⟨rfl, -⟩ | ⟨p, he⟩
  · exact NurListen.refl s'
  · exact he.rest

theorem rahmen_enqueueReady {s s' : Scheduler} {i : Nat} (h : s.enqueueReady i = some s') :
    Rahmen s s' := by
  obtain ⟨p, hdaten⟩ := daten_enqueueReady h
  exact ⟨(nurListen_enqueueReady h).current, fun x => (Ordnung.flags_of_daten hdaten x).2.1⟩

structure Listengleich (s s' : Scheduler) : Prop where
  queues : s'.queues = s.queues
  bitmap : s'.bitmap = s.bitmap
  free : s'.free = s.free
  tcbs : s'.tcbs = s.tcbs

namespace Geordnet

variable {s s' : Scheduler}

theorem enqueueReady (h : s.Geordnet) {i : Nat} (hi : (s.tcb i).used = true)
    (he : s.enqueueReady i = some s') : s'.Geordnet := by
  obtain ⟨l, h⟩ := h
  rcases enqueueReady_cases he with ⟨rfl, -⟩ | ⟨p, he⟩
  · exact ⟨l, h⟩
  · exact ⟨_, h.einreihen he hi⟩

theorem removeFromReady (h : s.Geordnet) (i : Nat) : (s.removeFromReady i).Geordnet := by
  obtain ⟨l, h⟩ := h
  cases hq : (s.tcb i).queued with
  | none =>
    unfold Scheduler.removeFromReady
    rw [hq]
    exact ⟨l, h⟩
  | some p => exact ⟨_, h.ausklinken (ausgeklinkt_removeFromReady hq) hq⟩

theorem modifyTcb (h : s.Geordnet) (i : Nat) {f : Tcb → Tcb}
    (hf : ∀ t, (f t).used = t.used ∧ (f t).queued = t.queued ∧ (f t).priority = t.priority ∧
      (f t).qnext = t.qnext ∧ (f t).qprev = t.qprev) : (s.modifyTcb i f).Geordnet := by
  obtain ⟨l, h⟩ := h
  exact ⟨l, h.modifyTcb i hf⟩

theorem listengleich (h : s.Geordnet) (hs : Listengleich s s') : s'.Geordnet := by
  obtain ⟨l, h⟩ := h
  have htcb : ∀ x, s'.tcb x = s.tcb x := by
    intro x
    unfold tcb
    rw [hs.tcbs]
  refine ⟨l, h.congr hs.queues hs.bitmap hs.free (by rw [hs.tcbs]) fun x => ?_⟩
  unfold qnext qprev
  rw [htcb]
  exact ⟨rfl, rfl, rfl, rfl, rfl⟩

end Geordnet

theorem Listengleich.rahmen {s s' : Scheduler} (h : Listengleich s s') (hc : s'.current = s.current) :
    Rahmen s s' := by
  refine ⟨hc, fun x => ?_⟩
  unfold tcb
  rw [h.tcbs]

/-- What the internal functions keep. -/
def Bewahrt (s s' : Scheduler) : Prop := (s.Geordnet → s'.Geordnet) ∧ Rahmen s s'

namespace Bewahrt

variable {s s' s'' : Scheduler}

theorem refl (s : Scheduler) : Bewahrt s s := ⟨fun h => h, Rahmen.refl s⟩

theorem trans (h : Bewahrt s s') (h' : Bewahrt s' s'') : Bewahrt s s'' :=
  ⟨fun hs => h'.1 (h.1 hs), h.2.trans h'.2⟩

theorem modifyTcb (s : Scheduler) (i : Nat) {f : Tcb → Tcb}
    (hf : ∀ t, (f t).used = t.used ∧ (f t).queued = t.queued ∧ (f t).priority = t.priority ∧
      (f t).qnext = t.qnext ∧ (f t).qprev = t.qprev) : Bewahrt s (s.modifyTcb i f) :=
  ⟨fun h => h.modifyTcb i hf, Rahmen.modifyTcb s i fun t => (hf t).1⟩

theorem listengleich (h : Listengleich s s') (hc : s'.current = s.current) : Bewahrt s s' :=
  ⟨fun hs => hs.listengleich h, h.rahmen hc⟩

theorem enqueueReady {i : Nat} (hi : (s.tcb i).used = true) (h : s.enqueueReady i = some s') :
    Bewahrt s s' :=
  ⟨fun hs => hs.enqueueReady hi h, rahmen_enqueueReady h⟩

theorem removeFromReady (s : Scheduler) (i : Nat) : Bewahrt s (s.removeFromReady i) :=
  ⟨fun h => h.removeFromReady i, Rahmen.removeFromReady s i⟩

theorem insertReason (s : Scheduler) (i : Nat) (g : Grund) : Bewahrt s (s.insertReason i g) :=
  modifyTcb s i fun _ => ⟨rfl, rfl, rfl, rfl, rfl⟩

theorem removeReason (s : Scheduler) (i : Nat) (g : Grund) : Bewahrt s (s.removeReason i g) :=
  modifyTcb s i fun _ => ⟨rfl, rfl, rfl, rfl, rfl⟩

theorem setSp (s : Scheduler) (i w : Nat) : Bewahrt s (s.setSp i w) :=
  modifyTcb s i fun _ => ⟨rfl, rfl, rfl, rfl, rfl⟩

theorem setAdmitted (s : Scheduler) (i : Nat) : Bewahrt s (s.setAdmitted i) :=
  modifyTcb s i fun _ => ⟨rfl, rfl, rfl, rfl, rfl⟩

theorem setParkWake (s : Scheduler) (i : Nat) (w : Bool) : Bewahrt s (s.setParkWake i w) :=
  modifyTcb s i fun _ => ⟨rfl, rfl, rfl, rfl, rfl⟩

theorem setFrist (s : Scheduler) (i d : Nat) (g : Option Grund) : Bewahrt s (s.setFrist i d g) :=
  modifyTcb s i fun _ => ⟨rfl, rfl, rfl, rfl, rfl⟩

theorem setScDonor (s : Scheduler) (i : Nat) (w : Option Nat) : Bewahrt s (s.setScDonor i w) :=
  modifyTcb s i fun _ => ⟨rfl, rfl, rfl, rfl, rfl⟩

theorem setScDonee (s : Scheduler) (i : Nat) (w : Option Nat) : Bewahrt s (s.setScDonee i w) :=
  modifyTcb s i fun _ => ⟨rfl, rfl, rfl, rfl, rfl⟩

theorem setRemaining (s : Scheduler) (i w : Nat) : Bewahrt s (s.setRemaining i w) :=
  modifyTcb s i fun _ => ⟨rfl, rfl, rfl, rfl, rfl⟩

theorem blockieren (s : Scheduler) (cur frame : Nat) (g : Grund) :
    Bewahrt s (s.blockieren cur frame g) :=
  (setSp s cur frame).trans (insertReason _ cur g)

theorem verleihen (s : Scheduler) (t account : Nat) : Bewahrt s (s.verleihen t account) :=
  (setScDonor s t _).trans (setScDonee _ account _)

theorem weckeFallsLauffaehig {i : Nat} (hi : (s.tcb i).used = true)
    (h : s.weckeFallsLauffaehig i = some s') : Bewahrt s s' := by
  unfold Scheduler.weckeFallsLauffaehig at h
  split at h
  · exact enqueueReady hi h
  · cases h
    exact refl s

theorem setBudgetBlocked (s : Scheduler) (i : Nat) (an : Bool) :
    Bewahrt s (s.setBudgetBlocked i an) := by
  unfold Scheduler.setBudgetBlocked
  split
  · exact refl s
  · split
    · exact (insertReason s i .budget).trans (listengleich ⟨rfl, rfl, rfl, rfl⟩ rfl)
    · exact (removeReason s i .budget).trans (listengleich ⟨rfl, rfl, rfl, rfl⟩ rfl)

theorem loop {f : Scheduler → Nat → Option Scheduler} {is : List Nat}
    (hf : ∀ s i s', f s i = some s' → Bewahrt s s') (h : run f s is = some s') : Bewahrt s s' := by
  have hstep : ∀ t i t', Bewahrt s t → f t i = some t' → Bewahrt s t' :=
    fun t i t' ht hi => ht.trans (hf t i t' hi)
  exact run_invariant_of_step hstep (refl s) h

theorem wecken {i : Nat} {s₁ : Scheduler} (h : Bewahrt s s₁) (hi : (s.tcb i).used = true)
    (hw : s₁.weckeFallsLauffaehig i = some s') : Bewahrt s s' :=
  h.trans (weckeFallsLauffaehig ((h.2.used i).trans hi) hw)

theorem budgetWecken {konto d : Nat} (h : budgetWecken konto s d = some s') : Bewahrt s s' := by
  unfold Scheduler.budgetWecken at h
  split at h
  · next hand => exact (setBudgetBlocked s d false).wecken hand.2.1 h
  · cases h
    exact refl s

theorem weckelauf {konto : Nat} (h : s.weckelauf konto = some s') : Bewahrt s s' :=
  weckelauf_invariant (fun _ _ _ ht hd => ht.trans (budgetWecken hd)) (refl s) h

theorem auffuellen (s : Scheduler) (i : Nat) : Bewahrt s (s.auffuellen i) := by
  have hfill : Bewahrt s (s.modifyTcb i fun t => { t with remaining := t.budget, depleted := false }) :=
    modifyTcb s i fun _ => ⟨rfl, rfl, rfl, rfl, rfl⟩
  exact hfill.trans (listengleich ⟨rfl, rfl, rfl, rfl⟩ rfl)

theorem besitzerWecken {i : Nat} (hi : (s.tcb i).used = true) (h : s.besitzerWecken i = some s') :
    Bewahrt s s' := by
  rcases besitzerWecken_cases h with hw | ⟨rfl, -⟩
  · exact weckeFallsLauffaehig hi hw
  · exact refl _

theorem refillSlot {i : Nat} (h : s.refillSlot i = some s') : Bewahrt s s' := by
  rcases refillSlot_cases h with ⟨hdue, s₁, hlauf, hw⟩ | ⟨-, rfl⟩
  · have hfill : Bewahrt s s₁ := (auffuellen s i).trans (weckelauf hlauf)
    exact hfill.trans (besitzerWecken ((hfill.2.used i).trans hdue.1) hw)
  · exact refl _

theorem tickAnfang {tick : Bool} (h : s.tickAnfang tick = some s') : Bewahrt s s' :=
  tickAnfang_invariant (fun _ _ _ ht hi => ht.trans (refillSlot hi)) (refl s)
    (listengleich ⟨rfl, rfl, rfl, rfl⟩ rfl) h

theorem erschoepfen (s : Scheduler) (acct : Nat) : Bewahrt s (s.erschoepfen acct) := by
  have hleer : Bewahrt s (s.modifyTcb acct fun t =>
      { t with remaining := 0, depleted := true, nextRefill := s.now + t.period }) :=
    modifyTcb s acct fun _ => ⟨rfl, rfl, rfl, rfl, rfl⟩
  exact hleer.trans (listengleich ⟨rfl, rfl, rfl, rfl⟩ rfl)

theorem belasten (s : Scheduler) (cur : Nat) (tick : Bool) : Bewahrt s (s.belasten cur tick) := by
  unfold Scheduler.belasten
  dsimp only
  split
  · split
    · exact (erschoepfen s _).trans (setBudgetBlocked _ cur true)
    · exact erschoepfen s _
  · split
    · exact setRemaining s _ _
    · exact refl s

theorem doneeAustragen (s : Scheduler) (i : Nat) : Bewahrt s (s.doneeAustragen i) := by
  unfold Scheduler.doneeAustragen
  split
  · exact refl s
  · split
    · exact setScDonee s _ none
    · exact refl s

theorem spendeLoesen {i d : Nat} (h : spendeLoesen i s d = some s') : Bewahrt s s' := by
  unfold Scheduler.spendeLoesen at h
  split at h
  · next hand =>
    dsimp only at h
    have hlos := setScDonor s d none
    split at h
    · exact (hlos.trans (setBudgetBlocked _ d false)).wecken hand.2.1 h
    · cases h
      exact hlos
  · cases h
    exact refl s

end Bewahrt

/-- Ordered ready lists and a running thread that is a used slot. -/
def Gut (s : Scheduler) : Prop := s.Geordnet ∧ s.Laufend

variable {s s' : Scheduler}

theorem Bewahrt.gut (h : Bewahrt s s') (hs : s.Gut) : s'.Gut :=
  ⟨h.1 hs.1, h.2.laufend hs.2⟩

structure Aufgeloest (s : Scheduler) (v : Verzeichnis) (tid : ThreadId) (i : Nat) : Prop where
  entry : v.directory.get tid.slot = some ⟨true, tid.gen, s.core, i⟩
  bound : i < s.tcbs.len
  used : (s.tcb i).used = true
  gen : (s.tcb i).gen = tid.gen

theorem resolve_cases {v : Verzeichnis} {tid : ThreadId} {i : Nat} (h : s.resolve v tid = some i) :
    Aufgeloest s v tid i := by
  unfold resolve at h
  split at h
  · cases h
  · next e he =>
    obtain ⟨used, gen, core, lokal⟩ := e
    split at h
    · cases h
    · next hused =>
      split at h
      · cases h
      · next hgen =>
        split at h
        · cases h
        · next hcore =>
          split at h
          · cases h
          · next t hget =>
            split at h
            · next hand =>
              cases h
              unfold Slab.get at hget
              split at hget
              · next hlt =>
                cases hget
                obtain rfl := not_not.mp hgen
                obtain rfl := not_not.mp hcore
                obtain rfl := Bool.eq_true_of_not_eq_false hused
                exact ⟨he, hlt, hand.1, hand.2⟩
              · cases hget
            · cases h

theorem resolve_used {v : Verzeichnis} {tid : ThreadId} {i : Nat} (h : s.resolve v tid = some i) :
    (s.tcb i).used = true :=
  (resolve_cases h).used

theorem Geordnet.setCurrent (h : s.Geordnet) (i : Nat) : (s.setCurrent i).Geordnet :=
  h.listengleich ⟨rfl, rfl, rfl, rfl⟩

theorem gut_setCurrent {i : Nat} (h : s.Geordnet) (hi : (s.tcb i).used = true) :
    (s.setCurrent i).Gut := by
  refine ⟨h.setCurrent i, ?_⟩
  intro j hj
  cases hj
  exact hi

theorem gut_dispatch {n : Nat} (h : s.Geordnet) (hn : s.hoechster = some n) :
    ((s.removeFromReady n).setCurrent n).Gut := by
  obtain ⟨l, ho⟩ := h
  obtain ⟨p, -, hq, -⟩ := ho.hoechster_eq_some hn
  have hused := ho.queued_used p n hq
  exact gut_setCurrent (Geordnet.removeFromReady ⟨l, ho⟩ n)
    (((Rahmen.removeFromReady s n).used n).trans hused)

theorem gut_wechseln {sp : Nat} (h : s.Geordnet) (hw : s.wechseln = some (sp, s')) : s'.Gut := by
  obtain ⟨n, hn, rfl⟩ := wechseln_cases hw
  exact gut_dispatch h hn

section

variable {s s' : Scheduler} {v : Verzeichnis}

theorem gut_blockCurrentMit {frame sp : Nat} {g : Grund} (hs : s.Gut)
    (h : s.blockCurrentMit frame g = some (sp, s')) : s'.Gut := by
  obtain ⟨cur, -, hw⟩ := blockCurrentMit_cases h
  exact gut_wechseln ((Bewahrt.blockieren s cur frame g).1 hs.1) hw

theorem gut_parkCurrent {frame : Nat} {r : Option Nat} (hs : s.Gut)
    (h : s.parkCurrent frame = some (r, s')) : s'.Gut := by
  rcases parkCurrent_cases h with ⟨cur, -, rfl⟩ | ⟨sp, hb⟩
  · exact (Bewahrt.setParkWake s cur false).gut hs
  · exact gut_blockCurrentMit hs hb

/-- The state of `switch_to` when the message is delivered. -/
def zugestellt (s : Scheduler) (cur frame t : Nat) : Scheduler :=
  (s.blockieren cur frame .ipc).removeReason t .ipc

theorem Bewahrt.zugestellt (s : Scheduler) (cur frame t : Nat) :
    Bewahrt s (s.zugestellt cur frame t) :=
  (Bewahrt.blockieren s cur frame .ipc).trans (Bewahrt.removeReason _ t .ipc)

/-- `switch_to` delivers only, or runs the target on the lent account. -/
theorem switchTo_cases {frame sp : Nat} {target : ThreadId}
    (h : s.switchTo v frame target = some (sp, s')) :
    ∃ cur t, s.current = some cur ∧ (s.tcb t).used = true ∧
      ((s.zugestellt cur frame t).wechseln = some (sp, s') ∧
          ((s.zugestellt cur frame t).tcb t).reasons ≠ ∅ ∨
        ((s.zugestellt cur frame t).tcb t).reasons = ∅ ∧ ∃ account,
          s' = (((s.zugestellt cur frame t).removeFromReady t).verleihen t account).setCurrent t) := by
  unfold switchTo at h
  split at h
  · cases h
  · next cur hcur =>
    dsimp only at h
    split at h
    · cases h
    · next t ht =>
      have hused := resolve_used ht
      refine ⟨cur, t, hcur, ((Bewahrt.blockieren s cur frame .ipc).2.used t).symm.trans hused, ?_⟩
      split at h
      · next hne => exact .inl ⟨h, hne⟩
      · next heq =>
        cases h
        exact .inr ⟨not_not.mp heq, _, rfl⟩

theorem gut_switchTo {frame sp : Nat} {target : ThreadId} (hs : s.Gut)
    (h : s.switchTo v frame target = some (sp, s')) : s'.Gut := by
  obtain ⟨cur, t, -, hused, hcases⟩ := switchTo_cases h
  have hblock := Bewahrt.zugestellt s cur frame t
  rcases hcases with ⟨hw, -⟩ | ⟨-, account, rfl⟩
  · exact gut_wechseln (hblock.1 hs.1) hw
  · have hlend := (hblock.trans (Bewahrt.removeFromReady _ t)).trans (Bewahrt.verleihen _ t account)
    exact gut_setCurrent (hlend.1 hs.1) ((hlend.2.used t).trans hused)

namespace Bewahrt

theorem admitThread {tid : ThreadId} {b : Bool} (h : s.admitThread v tid = some (b, s')) :
    Bewahrt s s' := by
  rcases admitThread_cases h with rfl | ⟨t, ht, he⟩
  · exact refl _
  · have hadm := setAdmitted s t
    exact hadm.trans (enqueueReady ((hadm.2.used t).trans (resolve_used ht)) he)

theorem grundAufheben {tid : ThreadId} {g : Grund} {b : Bool}
    (h : s.grundAufheben v tid g = some (b, s')) : Bewahrt s s' := by
  rcases grundAufheben_cases h with rfl | ⟨i, hi, hw⟩
  · exact refl _
  · exact (removeReason s i g).wecken (resolve_used hi) hw

theorem anhalten (s : Scheduler) (v : Verzeichnis) (tid : ThreadId) (g : Grund) :
    Bewahrt s (s.anhalten v tid g).2 := by
  unfold Scheduler.anhalten
  split
  · exact refl s
  · next i hi => exact (insertReason s i g).trans (removeFromReady _ i)

theorem einmalAnhalten (s : Scheduler) (v : Verzeichnis) (tid : ThreadId) (g : Grund) :
    Bewahrt s (s.einmalAnhalten v tid g).2 := by
  unfold Scheduler.einmalAnhalten
  split
  · exact refl s
  · split
    · exact refl s
    · exact anhalten s v tid g

theorem unblock {tid : ThreadId} {b : Bool} (h : s.unblock v tid = some (b, s')) : Bewahrt s s' := by
  unfold Scheduler.unblock at h
  split at h
  · cases h
    exact refl s
  · next i hi =>
    have hipc := removeReason s i .ipc
    split at h
    · cases h
      exact refl s
    · dsimp only at h
      split at h
      · cases h
        exact hipc.trans (setBudgetBlocked _ i true)
      · split at h
        · obtain ⟨s₁, he, htuple⟩ := Option.map_eq_some_iff.mp h
          cases htuple
          exact hipc.trans (enqueueReady ((hipc.2.used i).trans (resolve_used hi)) he)
        · cases h
          exact hipc

theorem unpark {tid : ThreadId} {b : Bool} (h : s.unpark v tid = some (b, s')) : Bewahrt s s' := by
  unfold Scheduler.unpark at h
  split at h
  · cases h
    exact refl s
  · next i hi =>
    dsimp only at h
    have hmark := setParkWake s i true
    split at h
    · obtain ⟨s₁, hw, htuple⟩ := Option.map_eq_some_iff.mp h
      cases htuple
      have hpark := (hmark.trans (setParkWake _ i false)).trans (removeReason _ i .park)
      exact hpark.wecken (resolve_used hi) hw
    · cases h
      exact hmark

theorem debugReleasePd {pdOf : ThreadId → Option Nat} {pd n : Nat}
    (h : s.debugReleasePd pdOf pd = some (n, s')) : Bewahrt s s' :=
  debugReleasePd_invariant (fun t i _ hand _ ht hw =>
    ht.trans ((removeReason t i .debug).wecken hand.1 hw)) (refl s) h

theorem fristSetzen {ticks : Nat} {g : Grund} (h : s.fristSetzen ticks g = some s') :
    Bewahrt s s' := by
  unfold Scheduler.fristSetzen at h
  split at h
  · cases h
  · next cur hcur =>
    split at h
    · cases h
      exact setFrist s cur 0 none
    · cases h
      have hset := setFrist s cur (min (s.now + ticks) (2 ^ 64 - 1)) (some g)
      exact hset.trans (listengleich ⟨rfl, rfl, rfl, rfl⟩ rfl)

theorem fristLoeschen (s : Scheduler) (v : Verzeichnis) (tid : ThreadId) :
    Bewahrt s (s.fristLoeschen v tid) := by
  unfold Scheduler.fristLoeschen
  split
  · exact refl s
  · exact setFrist s _ 0 none

theorem fristFreigeben {i : Nat} {g : Grund} (hi : (s.tcb i).used = true)
    (h : s.fristFreigeben i g = some s') : Bewahrt s s' := by
  unfold Scheduler.fristFreigeben at h
  dsimp only at h
  have hfree : Bewahrt s ((s.fristEntwaffnen i).removeReason i g) :=
    (setFrist s i 0 none).trans (removeReason _ i g)
  split at h
  · exact hfree.trans (enqueueReady ((hfree.2.used i).trans hi) h)
  · cases h
    exact hfree

theorem fristSchritt {outLen i : Nat} {l l' : FristLauf} (h : fristSchritt outLen l i = some l') :
    Bewahrt l.sched l'.sched := by
  unfold Scheduler.fristSchritt at h
  dsimp only at h
  split at h
  · cases h
    exact refl l.sched
  · next hused =>
    split at h
    · cases h
      exact refl l.sched
    · cases h
      exact listengleich ⟨rfl, rfl, rfl, rfl⟩ rfl
    · cases h
      exact setFrist l.sched i 0 none
    · split at h
      · cases h
        exact setFrist l.sched i 0 none
      · obtain ⟨s₁, hf, rfl⟩ := Option.map_eq_some_iff.mp h
        have hu : (l.sched.tcb i).used = true := by
          cases hb : (l.sched.tcb i).used with
          | true => rfl
          | false => exact absurd (.inl hb) hused
        exact fristFreigeben hu hf

theorem fristenFaellig {outLen : Nat} {out : List ThreadId}
    (h : s.fristenFaellig outLen = some (out, s')) : Bewahrt s s' := by
  unfold Scheduler.fristenFaellig at h
  split at h
  · cases h
    exact refl s
  · obtain ⟨l, hrun, htuple⟩ := Option.map_eq_some_iff.mp h
    cases htuple
    have hstep : ∀ (l : FristLauf) (i : Nat) (l' : FristLauf), Bewahrt s l.sched →
        Scheduler.fristSchritt outLen l i = some l' → Bewahrt s l'.sched :=
      fun l i l' hl hi => hl.trans (fristSchritt hi)
    have hl : Bewahrt s l.sched := run_invariant_of_step hstep (refl s) hrun
    exact hl.trans (listengleich ⟨rfl, rfl, rfl, rfl⟩ rfl)

theorem budgetEintragen (s : Scheduler) (i budget period : Nat) :
    Bewahrt s (s.budgetEintragen i budget period) := by
  have hset : Bewahrt s (s.modifyTcb i fun t =>
      { t with budget := budget, period := max period 1, remaining := budget,
               nextRefill := s.now + period, depleted := false }) :=
    modifyTcb s i fun _ => ⟨rfl, rfl, rfl, rfl, rfl⟩
  exact hset.trans (listengleich ⟨rfl, rfl, rfl, rfl⟩ rfl)

theorem setBudget {tid : ThreadId} {budget period : Nat} {b : Bool}
    (h : s.setBudget v tid budget period = some (b, s')) : Bewahrt s s' := by
  rcases setBudget_cases h with ⟨-, rfl⟩ | ⟨i, hi, hcases⟩
  · exact refl _
  · have hset := budgetEintragen s i budget period
    rcases hcases with ⟨-, s₁, hlauf, hw⟩ | ⟨-, rfl⟩
    · exact (hset.trans (weckelauf hlauf)).wecken (resolve_used hi) hw
    · exact hset

theorem endDonation (s : Scheduler) : Bewahrt s s.endDonation := by
  unfold Scheduler.endDonation
  split
  · exact refl s
  · exact (doneeAustragen s _).trans (setScDonor _ _ none)

theorem zurueckreihen {frame : Nat} {tick : Bool} (hs : s.Laufend)
    (h : s.zurueckreihen frame tick = some s') : Bewahrt s s' := by
  unfold Scheduler.zurueckreihen at h
  split at h
  · cases h
    exact refl s
  · next cur hcur =>
    dsimp only at h
    have hsave := setSp s cur frame
    have hcharge := hsave.trans (belasten _ cur tick)
    split at h
    · exact hcharge.trans (enqueueReady ((hcharge.2.used cur).trans (hs cur hcur)) h)
    · cases h
      exact hcharge

end Bewahrt

theorem gut_onTick {frame sp : Nat} {tick : Bool} (hs : s.Gut)
    (h : s.onTick frame tick = some (sp, s')) : s'.Gut := by
  obtain ⟨s₁, s₂, h₁, h₂, hcases⟩ := onTick_cases h
  have hs₁ := (Bewahrt.tickAnfang h₁).gut hs
  have hs₂ := (Bewahrt.zurueckreihen hs₁.2 h₂).gut hs₁
  rcases hcases with ⟨-, rfl⟩ | ⟨n, hn, rfl⟩
  · exact hs₂
  · exact gut_dispatch hs₂.1 hn

end

end Caprock.Sched.Scheduler
