import Caprock.Sched.Threads

/-! # Properties of single control blocks

A law of the form "for every slot, `Q` of the running thread, the slot and its block" is
kept by an operation when `Q` bears what the operation does to one block: hold it, wake
it, hand the core over.  `Vertraeglich` lists these demands once; every operation that
meets no others keeps the law, whatever it says.  Admission, deadlines, ticks and arrival
are left to the laws themselves.
-/

namespace Caprock.Sched

open Execution

/-- The flags that decide about running are the same. -/
structure Gleichstand (t t' : Tcb) : Prop where
  used : t'.used = t.used
  admitted : t'.admitted = t.admitted
  reasons : t'.reasons = t.reasons
  depleted : t'.depleted = t.depleted
  queued : t'.queued = t.queued

theorem Gleichstand.refl (t : Tcb) : Gleichstand t t := ⟨rfl, rfl, rfl, rfl, rfl⟩

theorem Gleichstand.trans {t t' t'' : Tcb} (h : Gleichstand t t') (h' : Gleichstand t' t'') :
    Gleichstand t t'' :=
  ⟨h'.used.trans h.used, h'.admitted.trans h.admitted, h'.reasons.trans h.reasons,
    h'.depleted.trans h.depleted, h'.queued.trans h.queued⟩

structure Gelockert (t t' : Tcb) : Prop where
  used : t'.used = t.used
  admitted : t'.admitted = t.admitted
  reasons : t'.reasons ⊆ t.reasons
  depleted : t'.depleted = true → t.depleted = true
  queued : t'.queued = t.queued

theorem Gelockert.of_same {t t' t'' : Tcb} (h : Gelockert t t') (h' : Gleichstand t' t'') :
    Gelockert t t'' where
  used := h'.used.trans h.used
  admitted := h'.admitted.trans h.admitted
  reasons := h'.reasons.trans_subset h.reasons
  depleted := fun hd => h.depleted (h'.depleted.symm.trans hd)
  queued := h'.queued.trans h.queued

/-- A loosened thread that is linked exactly when it may run and does not run already. -/
structure Geweckt (c : Option Nat) (x : Nat) (t t' : Tcb) : Prop where
  used : t'.used = t.used
  admitted : t'.admitted = t.admitted
  reasons : t'.reasons ⊆ t.reasons
  depleted : t'.depleted = true → t.depleted = true
  queued : (t'.reasons = ∅ ∧ t'.depleted = false ∧ c ≠ some x) ∧ t'.queued ≠ none ∨
    ¬ (t'.reasons = ∅ ∧ t'.depleted = false ∧ c ≠ some x) ∧ t'.queued = t.queued

/-- What a law about single blocks has to bear; `c` is the running thread. -/
structure Vertraeglich (Q : Option Nat → Nat → Tcb → Prop) : Prop where
  same : ∀ {c x t t'}, Gleichstand t t' → Q c x t → Q c x t'
  wake : ∀ {c x t t'}, Geweckt c x t t' → Q c x t → Q c x t'
  /-- Held from outside: the thread leaves its list. -/
  hold : ∀ {c x t t' g}, g ≠ .ipc → t'.reasons = insert g t.reasons → t'.queued = none →
    Q c x t → Q c x t'
  /-- A message for a thread on an empty borrowed account. -/
  exchange : ∀ {c x t t'}, t.reasons ≠ ∅ → t'.reasons = insert .budget (t.reasons.erase .ipc) →
    t'.queued = t.queued → Q c x t → Q c x t'
  /-- A message for a thread that waited for nothing else. -/
  deliver : ∀ {c x t t'}, t.reasons ≠ ∅ → t.reasons.erase .ipc = ∅ → t'.reasons = ∅ →
    t'.depleted = false → t'.queued ≠ none → Q c x t → Q c x t'
  empty : ∀ {c x}, Q c x Tcb.empty
  leave : ∀ {c x t}, c ≠ some x → Q c x t → Q none x t
  enter : ∀ {n x t}, n ≠ x → Q none x t → Q (some n) x t
  /-- The running thread blocks. -/
  block : ∀ {x t t' g}, t'.reasons = insert g t.reasons → t'.queued = t.queued →
    Q (some x) x t → Q none x t'
  /-- A queued thread is dispatched. -/
  dispatch : ∀ {x t t'}, t.queued ≠ none → t'.reasons = t.reasons → t'.queued = none →
    Q none x t → Q (some x) x t'
  /-- A thread is run directly. -/
  direct : ∀ {x t}, t.reasons = ∅ → t.queued = none → Q (some x) x t

/-- The calls that any such law survives. -/
def Aufruf.Gewoehnlich : Aufruf → Prop
  | .admitThread _ | .fristenFaellig _ | .onTick _ _ => False
  | _ => True

namespace Scheduler

/-- Slot `i` becomes `t` up to its links; the other slots, the running thread and the clock
stay. -/
structure Wirkt (s s' : Scheduler) (i : Nat) (t : Tcb) : Prop where
  current : s'.current = s.current
  now : s'.now = s.now
  rest : ∀ x, x ≠ i → s'.daten x = s.daten x
  slot : s'.daten i = t.ohneLinks

theorem gleichstand_of_daten {s : Scheduler} {x : Nat} {t : Tcb} (h : s.daten x = t.ohneLinks) :
    Gleichstand t (s.tcb x) := by
  have hf := fun {α : Type} (f : Tcb → α) => congrArg f h
  exact ⟨hf Tcb.used, hf Tcb.admitted, hf Tcb.reasons, hf Tcb.depleted, hf Tcb.queued⟩

namespace Wirkt

variable {s s' s'' : Scheduler} {i : Nat} {t t' : Tcb}

theorem others (h : Wirkt s s' i t) (x : Nat) (hx : x ≠ i) : Gleichstand (s.tcb x) (s'.tcb x) :=
  gleichstand_of_daten (h.rest x hx)

theorem self (h : Wirkt s s' i t) : Gleichstand t (s'.tcb i) :=
  gleichstand_of_daten h.slot

theorem refl (s : Scheduler) (i : Nat) : Wirkt s s i (s.tcb i) :=
  ⟨rfl, rfl, fun _ _ => rfl, rfl⟩

theorem trans (h : Wirkt s s' i t) (h' : Wirkt s' s'' i t') : Wirkt s s'' i t' where
  current := h'.current.trans h.current
  now := h'.now.trans h.now
  rest := fun x hx => (h'.rest x hx).trans (h.rest x hx)
  slot := h'.slot

theorem modifyTcb (s : Scheduler) (i : Nat) (f : Tcb → Tcb) :
    Wirkt s (s.modifyTcb i f) i (f (s.tcb i)) := by
  refine ⟨rfl, rfl, fun x hx => ?_, ?_⟩
  · unfold daten
    rw [tcb_modifyTcb, if_neg hx]
  · unfold daten
    rw [tcb_modifyTcb, if_pos rfl]
    rfl

theorem of_tcbs (h : Wirkt s s' i t) (htcbs : s''.tcbs = s'.tcbs)
    (hcurrent : s''.current = s'.current) (hnow : s''.now = s'.now) : Wirkt s s'' i t := by
  have hdaten : ∀ x, s''.daten x = s'.daten x := by
    intro x
    unfold daten tcb
    rw [htcbs]
  refine ⟨hcurrent.trans h.current, hnow.trans h.now, fun x hx => ?_, ?_⟩
  · rw [hdaten]
    exact h.rest x hx
  · rw [hdaten]
    exact h.slot

theorem of_daten {q : Option Nat} (hlists : NurListen s s')
    (h : ∀ x, s'.daten x = if x = i then (s.daten i).mitQueued q else s.daten x) :
    Wirkt s s' i ((s.tcb i).mitQueued q) := by
  refine ⟨hlists.current, hlists.now, fun x hx => ?_, ?_⟩
  · have hx' := h x
    rw [if_neg hx] at hx'
    exact hx'
  · have hi := h i
    rw [if_pos rfl] at hi
    exact hi

theorem enqueueReady (h : s.enqueueReady i = some s') :
    ∃ p, Wirkt s s' i ((s.tcb i).mitQueued (some p)) := by
  obtain ⟨p, hdaten⟩ := daten_enqueueReady h
  exact ⟨p, of_daten (nurListen_enqueueReady h) hdaten⟩

theorem removeFromReady (s : Scheduler) (i : Nat) :
    Wirkt s (s.removeFromReady i) i ((s.tcb i).mitQueued none) :=
  of_daten (nurListen_removeFromReady s i) (daten_removeFromReady s i)

theorem weckeFallsLauffaehig (h : s.weckeFallsLauffaehig i = some s') : ∃ t, Wirkt s s' i t := by
  unfold Scheduler.weckeFallsLauffaehig at h
  split at h
  · obtain ⟨p, hp⟩ := enqueueReady h
    exact ⟨_, hp⟩
  · cases h
    exact ⟨_, refl s i⟩

end Wirkt

theorem gelockert_erase (t : Tcb) (g : Grund) :
    Gelockert t { t with reasons := t.reasons.erase g } :=
  ⟨rfl, rfl, Finset.erase_subset g t.reasons, fun hd => hd, rfl⟩

theorem wirkt_budgetAufheben {s : Scheduler} {i : Nat} (h : Grund.budget ∈ (s.tcb i).reasons) :
    Wirkt s (s.setBudgetBlocked i false) i
      { s.tcb i with reasons := (s.tcb i).reasons.erase .budget } := by
  have hremove : Wirkt s (s.removeReason i .budget) i _ := Wirkt.modifyTcb s i _
  have hset : s.setBudgetBlocked i false =
      { s.removeReason i .budget with budgetBlockedCount := s.budgetBlockedCount - 1 } := by
    unfold setBudgetBlocked
    rw [decide_eq_true h, if_neg Bool.true_eq_false_eq_False, if_neg Bool.false_ne_true]
  rw [hset]
  exact hremove.of_tcbs rfl rfl rfl

theorem wirkt_budgetLoesen (s : Scheduler) (i : Nat) : ∃ t,
    Wirkt s (s.setBudgetBlocked i false) i t ∧ Gelockert (s.tcb i) t := by
  by_cases hmem : Grund.budget ∈ (s.tcb i).reasons
  · exact ⟨_, wirkt_budgetAufheben hmem, gelockert_erase (s.tcb i) .budget⟩
  · have hset : s.setBudgetBlocked i false = s := by
      unfold setBudgetBlocked
      exact if_pos (decide_eq_false hmem)
    rw [hset]
    exact ⟨s.tcb i, Wirkt.refl s i, rfl, rfl, Finset.Subset.refl _, fun hd => hd, rfl⟩

theorem wirkt_budgetHalten (s : Scheduler) (i : Nat) : ∃ t,
    Wirkt s (s.setBudgetBlocked i true) i t ∧ t.reasons = insert .budget (s.tcb i).reasons ∧
      t.queued = (s.tcb i).queued := by
  unfold Scheduler.setBudgetBlocked
  split
  · next hmem =>
    exact ⟨s.tcb i, Wirkt.refl s i, (Finset.insert_eq_of_mem (of_decide_eq_true hmem)).symm, rfl⟩
  · have hins : Wirkt s (s.insertReason i .budget) i _ := Wirkt.modifyTcb s i _
    rw [if_pos rfl]
    exact ⟨_, hins.of_tcbs rfl rfl rfl, rfl, rfl⟩

theorem wirkt_auffuellen (s : Scheduler) (i : Nat) : Wirkt s (s.auffuellen i) i
    { s.tcb i with remaining := (s.tcb i).budget, depleted := false } := by
  have hfill := Wirkt.modifyTcb s i fun t => { t with remaining := t.budget, depleted := false }
  exact hfill.of_tcbs rfl rfl rfl

theorem gelockert_voll (t : Tcb) :
    Gelockert t { t with remaining := t.budget, depleted := false } :=
  ⟨rfl, rfl, Finset.Subset.refl _, (fun hd => nomatch hd), rfl⟩

theorem wirkt_budgetEintragen (s : Scheduler) (i budget period : Nat) : ∃ t,
    Wirkt s (s.budgetEintragen i budget period) i t ∧ Gelockert (s.tcb i) t ∧
      ((s.tcb i).depleted = false → Gleichstand (s.tcb i) t) := by
  have hset := Wirkt.modifyTcb s i fun t =>
    { t with budget := budget, period := max period 1, remaining := budget,
             nextRefill := s.now + period, depleted := false }
  refine ⟨_, hset.of_tcbs rfl rfl rfl, ⟨rfl, rfl, Finset.Subset.refl _, (fun hd => nomatch hd), rfl⟩, ?_⟩
  intro hdep
  exact ⟨rfl, rfl, rfl, hdep.symm, rfl⟩

theorem gleichstand_modifyTcb (s : Scheduler) (i : Nat) {f : Tcb → Tcb}
    (hf : ∀ t, Gleichstand t (f t)) (x : Nat) : Gleichstand (s.tcb x) ((s.modifyTcb i f).tcb x) := by
  rw [tcb_modifyTcb]
  split
  · next hx => exact hx ▸ hf _
  · exact Gleichstand.refl _

theorem gleichstand_verleihen (s : Scheduler) (t account x : Nat) :
    Gleichstand (s.tcb x) ((s.verleihen t account).tcb x) := by
  have hdonor : Gleichstand (s.tcb x) ((s.setScDonor t (some account)).tcb x) := by
    refine gleichstand_modifyTcb s t ?_ x
    exact fun _ => ⟨rfl, rfl, rfl, rfl, rfl⟩
  refine hdonor.trans (gleichstand_modifyTcb _ account ?_ x)
  exact fun _ => ⟨rfl, rfl, rfl, rfl, rfl⟩

theorem weckelauf_owner {s s' : Scheduler} {konto : Nat} (h : s.weckelauf konto = some s') :
    s'.current = s.current ∧ s'.now = s.now ∧ s'.daten konto = s.daten konto := by
  have hstep : ∀ (t : Scheduler) (d : Nat) (t' : Scheduler),
      t.current = s.current ∧ t.now = s.now ∧ t.daten konto = s.daten konto →
      budgetWecken konto t d = some t' →
      t'.current = s.current ∧ t'.now = s.now ∧ t'.daten konto = s.daten konto := by
    intro t d t' ht hd
    unfold budgetWecken at hd
    split at hd
    · next hand =>
      obtain ⟨u, hwirkt, -⟩ := wirkt_budgetLoesen t d
      obtain ⟨w, hwecken⟩ := Wirkt.weckeFallsLauffaehig hd
      have hall := hwirkt.trans hwecken
      exact ⟨hall.current.trans ht.1, hall.now.trans ht.2.1,
        (hall.rest konto (Ne.symm hand.1)).trans ht.2.2⟩
    · cases hd
      exact ht
  exact weckelauf_invariant hstep ⟨rfl, rfl, rfl⟩ h

/-- The law holds in the slots of `D`. -/
def Gilt (Q : Option Nat → Nat → Tcb → Prop) (D : Nat → Prop) (s : Scheduler) : Prop :=
  ∀ x, D x → Q s.current x (s.tcb x)

/-- The law holds in every slot if nobody runs. -/
def GiltFrei (Q : Option Nat → Nat → Tcb → Prop) (D : Nat → Prop) (s : Scheduler) : Prop :=
  ∀ x, D x → Q none x (s.tcb x)

section

variable {Q : Option Nat → Nat → Tcb → Prop} (hQ : Vertraeglich Q)
variable {D : Nat → Prop} {s s' s₁ : Scheduler} {v v' : Verzeichnis} {i : Nat} {t : Tcb}

include hQ

theorem Wirkt.gilt (h : Wirkt s s' i t) (hs : Gilt Q D s) (hi : D i → Q s.current i t) :
    Gilt Q D s' := by
  intro x hx
  rw [h.current]
  by_cases hxi : x = i
  · subst hxi
    exact hQ.same h.self (hi hx)
  · exact hQ.same (h.others x hxi) (hs x hx)

theorem Wirkt.giltFrei (h : Wirkt s s' i t) (hs : GiltFrei Q D s) (hi : D i → Q none i t) :
    GiltFrei Q D s' := by
  intro x hx
  by_cases hxi : x = i
  · subst hxi
    exact hQ.same h.self (hi hx)
  · exact hQ.same (h.others x hxi) (hs x hx)

theorem Gilt.setter (hs : Gilt Q D s) (i : Nat) {f : Tcb → Tcb} (hf : ∀ t, Gleichstand t (f t)) :
    Gilt Q D (s.modifyTcb i f) :=
  (Wirkt.modifyTcb s i f).gilt hQ hs fun hi => hQ.same (hf _) (hs i hi)

theorem gilt_wecken (hothers : ∀ x, D x → x ≠ i → Q s.current x (s.tcb x))
    (hi : D i → Q s.current i t) (ht : Gelockert t (s.tcb i))
    (hw : s.weckeFallsLauffaehig i = some s') : Gilt Q D s' := by
  unfold weckeFallsLauffaehig at hw
  split at hw
  · next hrun =>
    obtain ⟨p, hp⟩ := Wirkt.enqueueReady hw
    intro x hx
    rw [hp.current]
    by_cases hxi : x = i
    · subst hxi
      exact hQ.same hp.self (hQ.wake ⟨ht.used, ht.admitted, ht.reasons, ht.depleted,
        .inl ⟨hrun, Option.some_ne_none p⟩⟩ (hi hx))
    · exact hQ.same (hp.others x hxi) (hothers x hx hxi)
  · next hrun =>
    cases hw
    intro x hx
    by_cases hxi : x = i
    · subst hxi
      exact hQ.wake ⟨ht.used, ht.admitted, ht.reasons, ht.depleted, .inr ⟨hrun, ht.queued⟩⟩ (hi hx)
    · exact hothers x hx hxi

theorem Gilt.wecken (hs : Gilt Q D s) (h : Wirkt s s₁ i t) (ht : Gelockert (s.tcb i) t)
    (hw : s₁.weckeFallsLauffaehig i = some s') : Gilt Q D s' := by
  refine gilt_wecken hQ (fun x hx hxi => ?_) (fun hi => ?_) (ht.of_same h.self) hw
  · rw [h.current]
    exact hQ.same (h.others x hxi) (hs x hx)
  · rw [h.current]
    exact hs i hi

theorem Gilt.grundAufheben (hs : Gilt Q D s) {tid : ThreadId} {g : Grund} {b : Bool}
    (h : s.grundAufheben v tid g = some (b, s')) : Gilt Q D s' := by
  rcases grundAufheben_cases h with rfl | ⟨i, -, hw⟩
  · exact hs
  · exact hs.wecken hQ (Wirkt.modifyTcb s i _) (gelockert_erase (s.tcb i) g) hw

theorem Gilt.unpark (hs : Gilt Q D s) {tid : ThreadId} {b : Bool}
    (h : s.unpark v tid = some (b, s')) : Gilt Q D s' := by
  unfold Scheduler.unpark at h
  split at h
  · cases h
    exact hs
  · next i hi =>
    dsimp only at h
    have hmark : ∀ w s, Gilt Q D s → Gilt Q D (s.setParkWake i w) :=
      fun w s hs => hs.setter hQ i fun _ => ⟨rfl, rfl, rfl, rfl, rfl⟩
    split at h
    · obtain ⟨s₁, hw, htuple⟩ := Option.map_eq_some_iff.mp h
      cases htuple
      exact (hmark false _ (hmark true s hs)).wecken hQ (Wirkt.modifyTcb _ i _)
        (gelockert_erase _ .park) hw
    · cases h
      exact hmark true s hs

theorem Gilt.budgetWecken (hs : Gilt Q D s) {konto d : Nat}
    (h : budgetWecken konto s d = some s') : Gilt Q D s' := by
  unfold Scheduler.budgetWecken at h
  split at h
  · obtain ⟨t, hwirkt, ht⟩ := wirkt_budgetLoesen s d
    exact hs.wecken hQ hwirkt ht h
  · cases h
    exact hs

theorem Gilt.weckelauf (hs : Gilt Q D s) {konto : Nat} (h : s.weckelauf konto = some s') :
    Gilt Q D s' :=
  weckelauf_invariant (fun _ _ _ hs hd => Gilt.budgetWecken hQ hs hd) hs h

theorem Gilt.spendeLoesen (hs : Gilt Q D s) {d : Nat} (h : spendeLoesen i s d = some s') :
    Gilt Q D s' := by
  unfold Scheduler.spendeLoesen at h
  split at h
  · dsimp only at h
    have hlos : Gilt Q D (s.setScDonor d none) := hs.setter hQ d fun _ => ⟨rfl, rfl, rfl, rfl, rfl⟩
    split at h
    · obtain ⟨t, hwirkt, ht⟩ := wirkt_budgetLoesen (s.setScDonor d none) d
      exact hlos.wecken hQ hwirkt ht h
    · cases h
      exact hlos
  · cases h
    exact hs

theorem Gilt.debugReleasePd (hs : Gilt Q D s) {pdOf : ThreadId → Option Nat} {pd n : Nat}
    (h : s.debugReleasePd pdOf pd = some (n, s')) : Gilt Q D s' :=
  debugReleasePd_invariant (fun t i _ _ _ ht hw =>
    Gilt.wecken hQ ht (Wirkt.modifyTcb t i _) (gelockert_erase (t.tcb i) .debug) hw) hs h

/-- The account of slot `i` is full again and its borrowers are woken; `i` itself is less
held than before. -/
theorem Gilt.kontoFrei (hs : Gilt Q D s) {s₂ : Scheduler} (h : Wirkt s s₁ i t)
    (ht : Gelockert (s.tcb i) t) (hlauf : s₁.weckelauf i = some s₂) :
    (∀ x, D x → x ≠ i → Q s₂.current x (s₂.tcb x)) ∧ s₂.current = s.current ∧
      Gelockert (s.tcb i) (s₂.tcb i) := by
  obtain ⟨hcur, -, hdaten⟩ := weckelauf_owner hlauf
  have hself : Gleichstand (s₁.tcb i) (s₂.tcb i) := gleichstand_of_daten hdaten
  have hothers : Gilt Q (fun x => D x ∧ x ≠ i) s₁ :=
    h.gilt hQ (fun x hx => hs x hx.1) fun hi => absurd rfl hi.2
  refine ⟨fun x hx hxi => hothers.weckelauf hQ hlauf x ⟨hx, hxi⟩, hcur.trans h.current, ?_⟩
  exact (ht.of_same h.self).of_same hself

theorem Gilt.setBudget (hs : Gilt Q D s) {tid : ThreadId} {budget period : Nat} {b : Bool}
    (h : s.setBudget v tid budget period = some (b, s')) : Gilt Q D s' := by
  rcases setBudget_cases h with ⟨-, rfl⟩ | ⟨i, -, hcases⟩
  · exact hs
  · obtain ⟨t, hset, ht, hsame⟩ := wirkt_budgetEintragen s i budget period
    rcases hcases with ⟨-, s₁, hlauf, hw⟩ | ⟨hdep, rfl⟩
    · obtain ⟨hothers, hcur, hself⟩ := hs.kontoFrei hQ hset ht hlauf
      exact gilt_wecken hQ hothers (fun hi => hcur ▸ hs i hi) hself hw
    · exact hset.gilt hQ hs fun hi => hQ.same (hsame hdep) (hs i hi)

theorem Gilt.anhalten (hs : Gilt Q D s) (v : Verzeichnis) (tid : ThreadId) {g : Grund}
    (hg : g ≠ .ipc) : Gilt Q D (s.anhalten v tid g).2 := by
  unfold Scheduler.anhalten
  split
  · exact hs
  · next i hi =>
    have hins : Wirkt s (s.insertReason i g) i _ := Wirkt.modifyTcb s i _
    have hrem := Wirkt.removeFromReady (s.insertReason i g) i
    exact (hins.trans hrem).gilt hQ hs fun hi => hQ.hold hg hins.self.reasons rfl (hs i hi)

theorem Gilt.einmalAnhalten (hs : Gilt Q D s) (v : Verzeichnis) (tid : ThreadId) {g : Grund}
    (hg : g ≠ .ipc) : Gilt Q D (s.einmalAnhalten v tid g).2 := by
  unfold Scheduler.einmalAnhalten
  split
  · exact hs
  · split
    · exact hs
    · exact hs.anhalten hQ v tid hg

theorem Gilt.unblock (hs : Gilt Q D s) {tid : ThreadId} {b : Bool}
    (h : s.unblock v tid = some (b, s')) : Gilt Q D s' := by
  unfold Scheduler.unblock at h
  split at h
  · cases h
    exact hs
  · next i hi =>
    have hipc : Wirkt s (s.removeReason i .ipc) i _ := Wirkt.modifyTcb s i _
    split at h
    · cases h
      exact hs
    · next hne =>
      dsimp only at h
      split at h
      · cases h
        obtain ⟨t, ht, hreasons, hqueued⟩ := wirkt_budgetHalten (s.removeReason i .ipc) i
        rw [hipc.self.reasons] at hreasons
        rw [hipc.self.queued] at hqueued
        exact (hipc.trans ht).gilt hQ hs fun hi => hQ.exchange hne hreasons hqueued (hs i hi)
      · split at h
        · next hfree =>
          obtain ⟨s₁, he, htuple⟩ := Option.map_eq_some_iff.mp h
          cases htuple
          obtain ⟨p, hp⟩ := Wirkt.enqueueReady he
          refine (hipc.trans hp).gilt hQ hs fun hi => hQ.deliver hne ?_ hfree.1 hfree.2
            (Option.some_ne_none p) (hs i hi)
          exact hipc.self.reasons.symm.trans hfree.1
        · next hheld =>
          cases h
          have ht := gelockert_erase (s.tcb i) .ipc
          refine hipc.gilt hQ hs fun hi => hQ.wake
            ⟨ht.used, ht.admitted, ht.reasons, ht.depleted, .inr ⟨?_, ht.queued⟩⟩ (hs i hi)
          intro hfree
          exact hheld ⟨hipc.self.reasons.trans hfree.1, hipc.self.depleted.trans hfree.2.1⟩

theorem Gilt.setFrist (hs : Gilt Q D s) (i d : Nat) (g : Option Grund) :
    Gilt Q D (s.setFrist i d g) :=
  hs.setter hQ i fun _ => ⟨rfl, rfl, rfl, rfl, rfl⟩

theorem Gilt.fristSetzen (hs : Gilt Q D s) {ticks : Nat} {g : Grund}
    (h : s.fristSetzen ticks g = some s') : Gilt Q D s' := by
  unfold Scheduler.fristSetzen at h
  split at h
  · cases h
  · next cur hcur =>
    split at h
    · cases h
      exact hs.setFrist hQ cur 0 none
    · cases h
      exact hs.setFrist hQ cur (min (s.now + ticks) (2 ^ 64 - 1)) (some g)

theorem Gilt.fristLoeschen (hs : Gilt Q D s) (v : Verzeichnis) (tid : ThreadId) :
    Gilt Q D (s.fristLoeschen v tid) := by
  unfold Scheduler.fristLoeschen
  split
  · exact hs
  · exact hs.setFrist hQ _ 0 none

theorem Gilt.doneeAustragen (hs : Gilt Q D s) (i : Nat) : Gilt Q D (s.doneeAustragen i) := by
  unfold Scheduler.doneeAustragen
  split
  · exact hs
  · split
    · exact hs.setter hQ _ fun _ => ⟨rfl, rfl, rfl, rfl, rfl⟩
    · exact hs

theorem Gilt.endDonation (hs : Gilt Q D s) : Gilt Q D s.endDonation := by
  unfold Scheduler.endDonation
  split
  · exact hs
  · next cur hcur =>
    exact (hs.doneeAustragen hQ cur).setter hQ cur fun _ => ⟨rfl, rfl, rfl, rfl, rfl⟩

theorem GiltFrei.dispatch (hs : GiltFrei Q D s) {n : Nat} (hn : (s.tcb n).queued ≠ none) :
    Gilt Q D ((s.removeFromReady n).setCurrent n) := by
  have hrem := Wirkt.removeFromReady s n
  intro x hx
  change Q (some n) x ((s.removeFromReady n).tcb x)
  by_cases hxn : x = n
  · subst hxn
    exact hQ.same hrem.self (hQ.dispatch hn rfl rfl (hs x hx))
  · exact hQ.same (hrem.others x hxn) (hQ.enter (Ne.symm hxn) (hs x hx))

theorem GiltFrei.wechseln (hs : GiltFrei Q D s) (ho : s.Geordnet) {sp : Nat}
    (h : s.wechseln = some (sp, s')) : Gilt Q D s' := by
  obtain ⟨n, hn, rfl⟩ := wechseln_cases h
  obtain ⟨l, ho⟩ := ho
  obtain ⟨p, -, hq, -⟩ := ho.hoechster_eq_some hn
  exact hs.dispatch hQ (hq ▸ Option.some_ne_none p)

theorem Gilt.blockieren (hs : Gilt Q D s) {cur : Nat} (hcur : s.current = some cur) (frame : Nat)
    (g : Grund) : GiltFrei Q D (s.blockieren cur frame g) := by
  have hsp : Wirkt s (s.setSp cur frame) cur _ := Wirkt.modifyTcb s cur _
  have hins : Wirkt (s.setSp cur frame) ((s.setSp cur frame).insertReason cur g) cur _ :=
    Wirkt.modifyTcb _ cur _
  intro x hx
  have hold := hs x hx
  rw [hcur] at hold
  by_cases hxc : x = cur
  · subst hxc
    refine hQ.same hins.self (hQ.block (g := g) ?_ ?_ hold)
    · exact congrArg (insert g) hsp.self.reasons
    · exact hsp.self.queued
  · refine hQ.same ((hsp.trans hins).others x hxc) (hQ.leave ?_ hold)
    exact fun heq => hxc (Option.some.inj heq).symm

theorem Gilt.blockCurrentMit (hs : Gilt Q D s) (ho : s.Geordnet) {frame sp : Nat} {g : Grund}
    (h : s.blockCurrentMit frame g = some (sp, s')) : Gilt Q D s' := by
  obtain ⟨cur, hcur, hw⟩ := blockCurrentMit_cases h
  exact (hs.blockieren hQ hcur frame g).wechseln hQ ((Bewahrt.blockieren s cur frame g).1 ho) hw

theorem Gilt.parkCurrent (hs : Gilt Q D s) (ho : s.Geordnet) {frame : Nat} {r : Option Nat}
    (h : s.parkCurrent frame = some (r, s')) : Gilt Q D s' := by
  rcases parkCurrent_cases h with ⟨cur, -, rfl⟩ | ⟨sp, hb⟩
  · exact hs.setter hQ cur fun _ => ⟨rfl, rfl, rfl, rfl, rfl⟩
  · exact hs.blockCurrentMit hQ ho hb

theorem Gilt.switchTo (hs : Gilt Q D s) (ho : s.Geordnet) {frame sp : Nat} {target : ThreadId}
    (h : s.switchTo v frame target = some (sp, s')) : Gilt Q D s' := by
  obtain ⟨cur, t, hcur, -, hcases⟩ := switchTo_cases h
  have hblock := hs.blockieren hQ hcur frame .ipc
  have hipc : Wirkt (s.blockieren cur frame .ipc) (s.zugestellt cur frame t) t _ :=
    Wirkt.modifyTcb _ t _
  rcases hcases with ⟨hw, hheld⟩ | ⟨hfree, account, rfl⟩
  · -- The target stays held: it only lost one reason.
    have ht := gelockert_erase ((s.blockieren cur frame .ipc).tcb t) .ipc
    have hfrei : GiltFrei Q D (s.zugestellt cur frame t) := by
      refine hipc.giltFrei hQ hblock fun hD => hQ.wake
        ⟨ht.used, ht.admitted, ht.reasons, ht.depleted, .inr ⟨?_, ht.queued⟩⟩ (hblock t hD)
      intro hrun
      exact hheld (hipc.self.reasons.trans hrun.1)
    exact hfrei.wechseln hQ ((Bewahrt.zugestellt s cur frame t).1 ho) hw
  · have hrem := Wirkt.removeFromReady (s.zugestellt cur frame t) t
    intro x hx
    refine hQ.same (gleichstand_verleihen _ t account x) ?_
    change Q (some t) x (((s.zugestellt cur frame t).removeFromReady t).tcb x)
    by_cases hxt : x = t
    · subst hxt
      exact hQ.same hrem.self (hQ.direct hfree rfl)
    · have hothers := (hipc.others x hxt).trans (hrem.others x hxt)
      exact hQ.same hothers (hQ.enter (Ne.symm hxt) (hblock x hx))

theorem Gilt.slotLeeren (hs : Gilt Q (fun x => x ≠ i) s) :
    Gilt Q (fun _ => True) ((s.removeFromReady i).slotLeeren i) := by
  have hrem := Wirkt.removeFromReady s i
  intro x _
  rw [tcb_slotLeeren]
  change Q (s.removeFromReady i).current x _
  rw [hrem.current]
  split
  · exact hQ.empty
  · next hxi => exact hQ.same (hrem.others x hxi) (hs x hxi)

theorem Gilt.recordZombie (hs : Gilt Q (fun x => x ≠ i) s)
    (h : s.recordZombie v i = some (s', v')) : Gilt Q (fun _ => True) s' := by
  obtain ⟨s₁, z, hrun, rfl⟩ := recordZombie_cases h
  have hloop : Gilt Q (fun x => x ≠ i) s₁ :=
    run_invariant_of_step (fun _ _ _ hs hd => Gilt.spendeLoesen hQ hs hd) hs hrun
  have hleer := (hloop.doneeAustragen hQ i).slotLeeren hQ
  obtain ⟨hz, hcur⟩ := listengleich_zombieAblegen
    (((s₁.doneeAustragen i).removeFromReady i).slotLeeren i) z
  intro x hx
  rw [hcur, tcb_of_listengleich hz]
  exact hleer x hx

theorem Gilt.exitCurrent (hs : Gilt Q (fun _ => True) s) (hgut : s.Gut) {sp : Nat}
    (h : s.exitCurrent v = some (sp, s', v')) : Gilt Q (fun _ => True) s' := by
  obtain ⟨cur, s₁, hcur, hzombie, hw⟩ := exitCurrent_cases h
  obtain ⟨ho, hg⟩ := geordnet_recordZombie hgut.1 (hgut.2 cur hcur) hzombie
  have hrest : Gilt Q (fun _ => True) s₁ := Gilt.recordZombie hQ (fun x _ => hs x trivial) hzombie
  have hfrei : GiltFrei Q (fun _ => True) s₁ := by
    intro x hx
    by_cases hxc : x = cur
    · rw [hxc, hg.empty]
      exact hQ.empty
    · refine hQ.leave ?_ (hrest x hx)
      rw [hg.current, hcur]
      exact fun heq => hxc (Option.some.inj heq).symm
  exact hfrei.wechseln hQ ho hw

theorem Gilt.kill (hs : Gilt Q (fun _ => True) s) {tid : ThreadId} {b : Bool}
    (h : s.kill v tid = some (b, s', v')) : Gilt Q (fun _ => True) s' := by
  rcases kill_cases h with rfl | ⟨i, -, -, hz⟩
  · exact hs
  · have hrem := Wirkt.removeFromReady s i
    have hothers : Gilt Q (fun x => x ≠ i) (s.removeFromReady i) :=
      hrem.gilt hQ (fun x _ => hs x trivial) fun hi => absurd rfl hi
    exact hothers.recordZombie hQ hz

theorem Gilt.detachForMigration (hs : Gilt Q (fun _ => True) s) {tid : ThreadId} {m : Migrant}
    (h : s.detachForMigration v tid = some (m, s')) :
    Gilt Q (fun _ => True) s' ∧ ∃ x t, Q none x t ∧ Gleichstand (t.mitQueued none) m.tcb ∧
      (m.wasReady = true ↔ t.queued ≠ none) := by
  obtain ⟨i, n, ⟨-, hcur, -⟩, rfl, rfl⟩ := detachForMigration_cases h
  have hothers : Gilt Q (fun x => x ≠ i) s := fun x _ => hs x trivial
  have hself := (Wirkt.removeFromReady s i).self
  refine ⟨hothers.slotLeeren hQ, i, s.tcb i, hQ.leave hcur (hs i trivial), ?_, ?_⟩
  · exact ⟨hself.used, hself.admitted, hself.reasons, hself.depleted, rfl⟩
  · exact Option.isSome_iff_ne_none

theorem Gilt.aufruf (hs : Gilt Q (fun _ => True) s) (hgut : s.Gut) {a : Aufruf}
    (ha : a.Gewoehnlich) (h : s.aufruf v a = some s') : Gilt Q (fun _ => True) s' := by
  cases a with
  | admitThread tid | fristenFaellig outLen | onTick frame tick => exact ha.elim
  | blockCurrent frame | blockForHandler frame | blockForLoad frame =>
    obtain ⟨sp, h⟩ := map_snd_eq_some h
    exact hs.blockCurrentMit hQ hgut.1 h
  | parkCurrent frame =>
    obtain ⟨r, h⟩ := map_snd_eq_some h
    exact hs.parkCurrent hQ hgut.1 h
  | switchTo frame target =>
    obtain ⟨sp, h⟩ := map_snd_eq_some h
    exact hs.switchTo hQ hgut.1 h
  | unblock tid =>
    obtain ⟨b, h⟩ := map_snd_eq_some h
    exact hs.unblock hQ h
  | unpark tid =>
    obtain ⟨b, h⟩ := map_snd_eq_some h
    exact hs.unpark hQ h
  | pause tid | markHandlerWait tid =>
    cases h
    exact hs.anhalten hQ v tid (by decide)
  | resume tid | handlerReply tid | loadReply tid =>
    obtain ⟨b, h⟩ := map_snd_eq_some h
    exact hs.grundAufheben hQ h
  | debugStop tid | freezeGroup tid =>
    cases h
    exact hs.einmalAnhalten hQ v tid (by decide)
  | debugContinue tid | thawGroup tid =>
    obtain ⟨b, h⟩ := map_snd_eq_some h
    rcases grundAufheben_of_gesetzt h with rfl | h
    · exact hs
    · exact hs.grundAufheben hQ h
  | debugReleasePd pdOf pd =>
    obtain ⟨n, h⟩ := map_snd_eq_some h
    exact hs.debugReleasePd hQ h
  | fristSetzen ticks grund => exact hs.fristSetzen hQ h
  | fristLoeschen tid =>
    cases h
    exact hs.fristLoeschen hQ v tid
  | setBudget tid budget period =>
    obtain ⟨b, h⟩ := map_snd_eq_some h
    exact hs.setBudget hQ h
  | endDonation =>
    cases h
    exact hs.endDonation hQ

end

end Scheduler

end Caprock.Sched
