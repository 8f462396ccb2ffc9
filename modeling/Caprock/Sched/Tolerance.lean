import Caprock.Sched.Threads

/-! # Relations that the operations respect

An operation is made of few single writes.  A relation of states that is transitive and bears
these writes holds between the state before an operation and the state after it.  `Duldet` lists
the writes of blocking and waking, `SpendenDuldet` those of donations, `KontenDuldet` those of
accounts and the clock.  Which reasons may be set and cleared is left to the relation.
-/

namespace Caprock.Sched

open Execution

def Tcb.ohneKonto (t : Tcb) : Tcb :=
  { t with budget := 0, period := 0, remaining := 0, nextRefill := 0, depleted := false }

namespace Scheduler

/-- The relation bears blocking and waking, reasons of `ein` being set and reasons of `aus` being
cleared. -/
structure Duldet (R : Scheduler → Scheduler → Prop) (ein aus : Grund → Prop) : Prop where
  refl : ∀ s, R s s
  trans : ∀ {s s' s''}, R s s' → R s' s'' → R s s''
  enqueueReady : ∀ {s s' i}, s.enqueueReady i = some s' → R s s'
  removeFromReady : ∀ s i, R s (s.removeFromReady i)
  setCurrent : ∀ s i, R s (s.setCurrent i)
  setSp : ∀ s i w, R s (s.setSp i w)
  setAdmitted : ∀ s i, R s (s.setAdmitted i)
  insertReason : ∀ {g}, ein g → ∀ s i, R s (s.insertReason i g)
  removeReason : ∀ {g}, aus g → ∀ s i, R s (s.removeReason i g)
  setBudgetBlocked : ∀ s i an, R s (s.setBudgetBlocked i an)

structure SpendenDuldet (R : Scheduler → Scheduler → Prop) : Prop where
  donor : ∀ s i w, R s (s.setScDonor i w)
  donee : ∀ s i w, R s (s.setScDonee i w)

structure KontenDuldet (R : Scheduler → Scheduler → Prop) : Prop where
  konto : ∀ s i (f : Tcb → Tcb), (∀ t, (f t).ohneKonto = t.ohneKonto) → R s (s.modifyTcb i f)
  zaehler : ∀ s n d k r, R s { s with now := n, depletedCount := d, depletions := k, refills := r }

namespace SpendenDuldet

variable {R : Scheduler → Scheduler → Prop} (hS : SpendenDuldet R) (hrefl : ∀ s, R s s)

include hS hrefl

theorem doneeAustragen (s : Scheduler) (i : Nat) : R s (s.doneeAustragen i) := by
  unfold Scheduler.doneeAustragen
  split
  · exact hrefl s
  · split
    · exact hS.donee s _ none
    · exact hrefl s

theorem endDonation (htrans : ∀ {s s' s''}, R s s' → R s' s'' → R s s'') (s : Scheduler) :
    R s s.endDonation := by
  unfold Scheduler.endDonation
  split
  · exact hrefl s
  · exact htrans (hS.doneeAustragen hrefl s _) (hS.donor _ _ none)

end SpendenDuldet

namespace Duldet

variable {R : Scheduler → Scheduler → Prop} {ein aus : Grund → Prop}
variable {s s' s'' : Scheduler} {v v' : Verzeichnis} {i : Nat} {g : Grund}

section

variable (hR : Duldet R ein aus)

include hR

theorem weckeFallsLauffaehig (h : s.weckeFallsLauffaehig i = some s') : R s s' := by
  unfold Scheduler.weckeFallsLauffaehig at h
  split at h
  · exact hR.enqueueReady h
  · cases h
    exact hR.refl s

theorem loop {f : Scheduler → Nat → Option Scheduler} {is : List Nat}
    (hf : ∀ s i s', f s i = some s' → R s s') (h : run f s is = some s') : R s s' := by
  have hstep : ∀ t i t', R s t → f t i = some t' → R s t' :=
    fun t i t' ht hi => hR.trans ht (hf t i t' hi)
  exact run_invariant_of_step hstep (hR.refl s) h

theorem dispatch (s : Scheduler) (n : Nat) : R s ((s.removeFromReady n).setCurrent n) :=
  hR.trans (hR.removeFromReady s n) (hR.setCurrent _ n)

theorem wechseln {sp : Nat} (h : s.wechseln = some (sp, s')) : R s s' := by
  obtain ⟨n, -, rfl⟩ := wechseln_cases h
  exact hR.dispatch s n

theorem besitzerWecken (h : s.besitzerWecken i = some s') : R s s' := by
  rcases besitzerWecken_cases h with hw | ⟨rfl, -⟩
  · exact hR.weckeFallsLauffaehig hw
  · exact hR.refl _

theorem admitThread {tid : ThreadId} {b : Bool} (h : s.admitThread v tid = some (b, s')) :
    R s s' := by
  rcases admitThread_cases h with rfl | ⟨t, -, he⟩
  · exact hR.refl _
  · exact hR.trans (hR.setAdmitted s t) (hR.enqueueReady he)

theorem grundAufheben (hg : aus g) {tid : ThreadId} {b : Bool}
    (h : s.grundAufheben v tid g = some (b, s')) : R s s' := by
  rcases grundAufheben_cases h with rfl | ⟨i, -, hw⟩
  · exact hR.refl _
  · exact hR.trans (hR.removeReason hg s i) (hR.weckeFallsLauffaehig hw)

theorem gesetztenGrundAufheben (hg : aus g) {tid : ThreadId} {b : Bool}
    (h : s.gesetztenGrundAufheben v tid g = some (b, s')) : R s s' := by
  rcases grundAufheben_of_gesetzt h with rfl | h
  · exact hR.refl _
  · exact hR.grundAufheben hg h

theorem anhalten (hg : ein g) (s : Scheduler) (v : Verzeichnis) (tid : ThreadId) :
    R s (s.anhalten v tid g).2 := by
  unfold Scheduler.anhalten
  split
  · exact hR.refl s
  · next i hi => exact hR.trans (hR.insertReason hg s i) (hR.removeFromReady _ i)

theorem einmalAnhalten (hg : ein g) (s : Scheduler) (v : Verzeichnis) (tid : ThreadId) :
    R s (s.einmalAnhalten v tid g).2 := by
  unfold Scheduler.einmalAnhalten
  split
  · exact hR.refl s
  · split
    · exact hR.refl s
    · exact hR.anhalten hg s v tid

theorem blockieren (hg : ein g) (s : Scheduler) (cur frame : Nat) :
    R s (s.blockieren cur frame g) :=
  hR.trans (hR.setSp s cur frame) (hR.insertReason hg _ cur)

theorem blockCurrentMit (hg : ein g) {frame sp : Nat}
    (h : s.blockCurrentMit frame g = some (sp, s')) : R s s' := by
  obtain ⟨cur, -, hw⟩ := blockCurrentMit_cases h
  exact hR.trans (hR.blockieren hg s cur frame) (hR.wechseln hw)

theorem verleihen (hS : SpendenDuldet R) (s : Scheduler) (t account : Nat) :
    R s (s.verleihen t account) :=
  hR.trans (hS.donor s t _) (hS.donee _ account _)

theorem zugestellt (hein : ein .ipc) (haus : aus .ipc) (s : Scheduler) (cur frame t : Nat) :
    R s (s.zugestellt cur frame t) :=
  hR.trans (hR.blockieren hein s cur frame) (hR.removeReason haus _ t)

theorem switchTo (hein : ein .ipc) (haus : aus .ipc) (hS : SpendenDuldet R) {frame sp : Nat}
    {target : ThreadId} (h : s.switchTo v frame target = some (sp, s')) : R s s' := by
  obtain ⟨cur, t, -, -, hcases⟩ := switchTo_cases h
  have hpost := hR.zugestellt hein haus s cur frame t
  rcases hcases with ⟨hw, -⟩ | ⟨-, account, rfl⟩
  · exact hR.trans hpost (hR.wechseln hw)
  · have hunlink := hR.trans hpost (hR.removeFromReady _ t)
    exact hR.trans (hR.trans hunlink (hR.verleihen hS _ t account)) (hR.setCurrent _ t)

theorem parkCurrent (hmark : ∀ s i w, R s (s.setParkWake i w)) (hg : ein .park) {frame : Nat}
    {r : Option Nat} (h : s.parkCurrent frame = some (r, s')) : R s s' := by
  rcases parkCurrent_cases h with ⟨cur, -, rfl⟩ | ⟨sp, hb⟩
  · exact hmark s cur false
  · exact hR.blockCurrentMit hg hb

theorem unpark (hmark : ∀ s i w, R s (s.setParkWake i w)) (hg : aus .park) {tid : ThreadId}
    {b : Bool} (h : s.unpark v tid = some (b, s')) : R s s' := by
  unfold Scheduler.unpark at h
  split at h
  · cases h
    exact hR.refl s
  · next i hi =>
    dsimp only at h
    split at h
    · obtain ⟨s₁, hw, htuple⟩ := Option.map_eq_some_iff.mp h
      cases htuple
      have hpark := hR.trans (hR.trans (hmark s i true) (hmark _ i false)) (hR.removeReason hg _ i)
      exact hR.trans hpark (hR.weckeFallsLauffaehig hw)
    · cases h
      exact hmark s i true

theorem debugReleasePd (hg : aus .debug) {pdOf : ThreadId → Option Nat} {pd n : Nat}
    (h : s.debugReleasePd pdOf pd = some (n, s')) : R s s' :=
  debugReleasePd_invariant (fun t i _ _ _ ht hw =>
    hR.trans (hR.trans ht (hR.removeReason hg t i)) (hR.weckeFallsLauffaehig hw)) (hR.refl s) h

theorem unblock (hipc : aus .ipc) {tid : ThreadId} {b : Bool}
    (h : s.unblock v tid = some (b, s')) : R s s' := by
  unfold Scheduler.unblock at h
  split at h
  · cases h
    exact hR.refl s
  · next i hi =>
    have hfree := hR.removeReason hipc s i
    split at h
    · cases h
      exact hR.refl s
    · dsimp only at h
      split at h
      · cases h
        exact hR.trans hfree (hR.setBudgetBlocked _ i true)
      · split at h
        · obtain ⟨s₁, he, htuple⟩ := Option.map_eq_some_iff.mp h
          cases htuple
          exact hR.trans hfree (hR.enqueueReady he)
        · cases h
          exact hfree

theorem budgetWecken {konto d : Nat} (h : budgetWecken konto s d = some s') : R s s' := by
  unfold Scheduler.budgetWecken at h
  split at h
  · exact hR.trans (hR.setBudgetBlocked s d false) (hR.weckeFallsLauffaehig h)
  · cases h
    exact hR.refl s

theorem weckelauf {konto : Nat} (h : s.weckelauf konto = some s') : R s s' :=
  weckelauf_invariant (fun _ _ _ ht hd => hR.trans ht (hR.budgetWecken hd)) (hR.refl s) h

end

section

variable (hR : Duldet R ein aus) (hS : SpendenDuldet R)

include hR hS

theorem spendeLoesen {d : Nat} (h : spendeLoesen i s d = some s') : R s s' := by
  unfold Scheduler.spendeLoesen at h
  split at h
  · dsimp only at h
    have hloose := hS.donor s d none
    split at h
    · exact hR.trans (hR.trans hloose (hR.setBudgetBlocked _ d false)) (hR.weckeFallsLauffaehig h)
    · cases h
      exact hloose
  · cases h
    exact hR.refl s

/-- The donations of a thread are loosened and it leaves its list. -/
theorem abloesen {is : List Nat} {s₁ : Scheduler} (h : run (Scheduler.spendeLoesen i) s is = some s₁) :
    R s ((s₁.doneeAustragen i).removeFromReady i) := by
  have hloop := hR.loop (fun _ _ _ hd => hR.spendeLoesen hS hd) h
  exact hR.trans (hR.trans hloop (hS.doneeAustragen hR.refl s₁ i)) (hR.removeFromReady _ i)

end

section

variable (hR : Duldet R ein aus) (hK : KontenDuldet R)

include hR hK

theorem auffuellen (s : Scheduler) (i : Nat) : R s (s.auffuellen i) := by
  have hfill := hK.konto s i (fun t => { t with remaining := t.budget, depleted := false }) fun _ => rfl
  exact hR.trans hfill (hK.zaehler _ s.now (s.depletedCount - 1) s.depletions (s.refills + 1))

theorem erschoepfen (s : Scheduler) (acct : Nat) : R s (s.erschoepfen acct) := by
  have hempty := hK.konto s acct (fun t =>
    { t with remaining := 0, depleted := true, nextRefill := s.now + t.period }) fun _ => rfl
  exact hR.trans hempty (hK.zaehler _ s.now (s.depletedCount + 1) (s.depletions + 1) s.refills)

theorem budgetEintragen (s : Scheduler) (i budget period : Nat) :
    R s (s.budgetEintragen i budget period) := by
  have hset := hK.konto s i (fun t =>
    { t with budget := budget, period := max period 1, remaining := budget,
             nextRefill := s.now + period, depleted := false }) fun _ => rfl
  exact hR.trans hset (hK.zaehler _ s.now _ s.depletions s.refills)

theorem refillSlot (h : s.refillSlot i = some s') : R s s' := by
  rcases refillSlot_cases h with ⟨-, s₁, hlauf, hw⟩ | ⟨-, rfl⟩
  · exact hR.trans (hR.trans (hR.auffuellen hK s i) (hR.weckelauf hlauf)) (hR.besitzerWecken hw)
  · exact hR.refl _

theorem tickAnfang {tick : Bool} (h : s.tickAnfang tick = some s') : R s s' :=
  tickAnfang_invariant (fun _ _ _ ht hi => hR.trans ht (hR.refillSlot hK hi)) (hR.refl s)
    (hK.zaehler s (s.now + 1) s.depletedCount s.depletions s.refills) h

theorem belasten (s : Scheduler) (cur : Nat) (tick : Bool) : R s (s.belasten cur tick) := by
  unfold Scheduler.belasten
  dsimp only
  split
  · split
    · exact hR.trans (hR.erschoepfen hK s _) (hR.setBudgetBlocked _ cur true)
    · exact hR.erschoepfen hK s _
  · split
    · exact hK.konto s _ _ fun _ => rfl
    · exact hR.refl s

theorem zurueckreihen {frame : Nat} {tick : Bool} (h : s.zurueckreihen frame tick = some s') :
    R s s' := by
  unfold Scheduler.zurueckreihen at h
  split at h
  · cases h
    exact hR.refl s
  · next cur hcur =>
    have hcharge := hR.trans (hR.setSp s cur frame) (hR.belasten hK _ cur tick)
    dsimp only at h
    split at h
    · exact hR.trans hcharge (hR.enqueueReady h)
    · cases h
      exact hcharge

theorem onTick {frame sp : Nat} {tick : Bool} (h : s.onTick frame tick = some (sp, s')) :
    R s s' := by
  obtain ⟨s₁, s₂, h₁, h₂, hcases⟩ := onTick_cases h
  have hlink := hR.trans (hR.tickAnfang hK h₁) (hR.zurueckreihen hK h₂)
  rcases hcases with ⟨-, rfl⟩ | ⟨n, -, rfl⟩
  · exact hlink
  · exact hR.trans hlink (hR.dispatch s₂ n)

theorem setBudget {tid : ThreadId} {budget period : Nat} {b : Bool}
    (h : s.setBudget v tid budget period = some (b, s')) : R s s' := by
  rcases setBudget_cases h with ⟨-, rfl⟩ | ⟨i, -, hcases⟩
  · exact hR.refl _
  · have hset := hR.budgetEintragen hK s i budget period
    rcases hcases with ⟨-, s₁, hlauf, hw⟩ | ⟨-, rfl⟩
    · exact hR.trans (hR.trans hset (hR.weckelauf hlauf)) (hR.weckeFallsLauffaehig hw)
    · exact hset

end

end Duldet

/-- What a relation has to bear, beside the writes of `Duldet`, for a call. -/
def Vertraegt (R : Scheduler → Scheduler → Prop) (ein aus : Grund → Prop) : Aufruf → Prop
  | .admitThread _ => True
  | .blockCurrent _ => ein .ipc
  | .blockForHandler _ => ein .handler
  | .blockForLoad _ => ein .load
  | .parkCurrent _ => ein .park ∧ ∀ s i w, R s (s.setParkWake i w)
  | .switchTo _ _ => ein .ipc ∧ aus .ipc ∧ SpendenDuldet R
  | .unblock _ => aus .ipc
  | .unpark _ => aus .park ∧ ∀ s i w, R s (s.setParkWake i w)
  | .pause _ => ein .pause
  | .markHandlerWait _ => ein .handler
  | .debugStop _ => ein .debug
  | .freezeGroup _ => ein .freeze
  | .resume _ => aus .pause
  | .handlerReply _ => aus .handler
  | .loadReply _ => aus .load
  | .debugContinue _ | .debugReleasePd _ _ => aus .debug
  | .thawGroup _ => aus .freeze
  | .fristSetzen _ _ | .fristLoeschen _ | .fristenFaellig _ => False
  | .onTick _ _ | .setBudget _ _ _ => KontenDuldet R
  | .endDonation => SpendenDuldet R

theorem Duldet.aufruf {R : Scheduler → Scheduler → Prop} {ein aus : Grund → Prop}
    (hR : Duldet R ein aus) {s s' : Scheduler} {v : Verzeichnis} {a : Aufruf}
    (h : s.aufruf v a = some s') (ha : Vertraegt R ein aus a) : R s s' := by
  cases a with
  | admitThread tid =>
    obtain ⟨b, h⟩ := map_snd_eq_some h
    exact hR.admitThread h
  | blockCurrent frame | blockForHandler frame | blockForLoad frame =>
    obtain ⟨sp, h⟩ := map_snd_eq_some h
    exact hR.blockCurrentMit ha h
  | parkCurrent frame =>
    obtain ⟨r, h⟩ := map_snd_eq_some h
    exact hR.parkCurrent ha.2 ha.1 h
  | switchTo frame target =>
    obtain ⟨sp, h⟩ := map_snd_eq_some h
    exact hR.switchTo ha.1 ha.2.1 ha.2.2 h
  | unblock tid =>
    obtain ⟨b, h⟩ := map_snd_eq_some h
    exact hR.unblock ha h
  | unpark tid =>
    obtain ⟨b, h⟩ := map_snd_eq_some h
    exact hR.unpark ha.2 ha.1 h
  | pause tid | markHandlerWait tid =>
    cases h
    exact hR.anhalten ha s v tid
  | debugStop tid | freezeGroup tid =>
    cases h
    exact hR.einmalAnhalten ha s v tid
  | resume tid | handlerReply tid | loadReply tid =>
    obtain ⟨b, h⟩ := map_snd_eq_some h
    exact hR.grundAufheben ha h
  | debugContinue tid | thawGroup tid =>
    obtain ⟨b, h⟩ := map_snd_eq_some h
    exact hR.gesetztenGrundAufheben ha h
  | debugReleasePd pdOf pd =>
    obtain ⟨n, h⟩ := map_snd_eq_some h
    exact hR.debugReleasePd ha h
  | onTick frame tick =>
    obtain ⟨sp, h⟩ := map_snd_eq_some h
    exact hR.onTick ha h
  | setBudget tid budget period =>
    obtain ⟨b, h⟩ := map_snd_eq_some h
    exact hR.setBudget ha h
  | endDonation =>
    cases h
    exact ha.endDonation hR.refl hR.trans s
  | fristSetzen ticks grund | fristLoeschen tid | fristenFaellig outLen => exact ha.elim

end Scheduler

end Caprock.Sched
