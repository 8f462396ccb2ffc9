import Caprock.Sched.Laws

/-! # No runnable thread is lost

A thread that was admitted, or is the idle thread of its core, and that neither a reason
nor its account holds, runs or is queued.  Parked creation is left out on purpose: such a
thread waits for its admission.

One branch of the refill scan breaks the law.  It skips the owner of a refilled account
while another thread is recorded as its borrower, although the scan before it wakes
borrowers only.  `Uebergangen` says when that branch meets an owner nothing else holds.
-/

namespace Caprock.Sched

open Execution Scheduler

def Vermerkt (idle c : Option Nat) (x : Nat) (t : Tcb) : Prop :=
  t.used = true → t.reasons = ∅ → t.depleted = false → (t.admitted = true ∨ idle = some x) →
    c = some x ∨ t.queued ≠ none

theorem vertraeglich_vermerkt (idle : Option Nat) : Vertraeglich (Vermerkt idle) where
  same := by
    intro c x t t' h hQ hused hreasons hdep hadm
    rw [h.queued]
    exact hQ (h.used ▸ hused) (h.reasons ▸ hreasons) (h.depleted ▸ hdep) (h.admitted ▸ hadm)
  wake := by
    intro c x t t' h hQ hused hreasons hdep hadm
    by_cases hc : c = some x
    · exact .inl hc
    · rcases h.queued with ⟨-, hq⟩ | ⟨hnot, -⟩
      · exact .inr hq
      · exact absurd ⟨hreasons, hdep, hc⟩ hnot
  hold := by
    intro c x t t' g hg hr hq hQ hused hreasons
    exact absurd (hr.symm.trans hreasons) (Finset.insert_ne_empty g t.reasons)
  exchange := by
    intro c x t t' hne hr hq hQ hused hreasons
    exact absurd (hr.symm.trans hreasons) (Finset.insert_ne_empty _ _)
  deliver := by
    intro c x t t' hne hipc hr hdep hq hQ hused hreasons hdep' hadm
    exact .inr hq
  empty := by
    intro c x hused
    cases hused
  leave := by
    intro c x t hc hQ hused hreasons hdep hadm
    exact .inr ((hQ hused hreasons hdep hadm).resolve_left hc)
  enter := by
    intro n x t hn hQ hused hreasons hdep hadm
    exact .inr ((hQ hused hreasons hdep hadm).resolve_left (Option.some_ne_none x).symm)
  block := by
    intro x t t' g hr hq hQ hused hreasons
    exact absurd (hr.symm.trans hreasons) (Finset.insert_ne_empty g t.reasons)
  dispatch := by
    intro x t t' hq hr hq' hQ hused hreasons hdep hadm
    exact .inl rfl
  direct := by
    intro x t hr hq hused hreasons hdep hadm
    exact .inl rfl

theorem gesetz_vermerkt : Gesetz Vermerkt where
  block := vertraeglich_vermerkt
  mono := by
    intro idle idle' c x t hidle hQ hused hreasons hdep hadm
    exact hQ hused hreasons hdep (hadm.imp_right hidle)
  fresh := by
    intro idle c x t hidle hc hneu hq hused hreasons hdep hadm
    rcases hadm with hadm | hadm
    · exact absurd (hneu.admitted.symm.trans hadm) Bool.false_ne_true
    · exact absurd hadm hidle
  ready := by
    intro idle c x t hr hdep hq hc hused hreasons hdep' hadm
    exact .inr hq
  arrive := by
    intro idle c x y t t' hidle hc hused hadm hreasons hdep hq hQ hused' hreasons' hdep' hadm'
    have hq' : none = some y ∨ t.queued ≠ none := hQ (hused ▸ hused') (hreasons ▸ hreasons')
      (hdep ▸ hdep') (.inl (hadm ▸ hadm'.resolve_right hidle))
    exact .inr (hq.mpr (hq'.resolve_left (Option.some_ne_none y).symm))

namespace Scheduler

/-- The refill scan fills the account of slot `i` and does not wake its owner, though
nothing holds it afterwards: no reason at all, or only an empty account of another thread
that this scan fills first. -/
def Uebergangen (s : Scheduler) (i : Nat) : Prop :=
  s.refillFaellig i ∧ (∃ d, (s.tcb i).scDonee = some d ∧ d ≠ i) ∧ s.current ≠ some i ∧
    (s.tcb i).queued = none ∧
    ((s.tcb i).reasons = ∅ ∨
      (s.tcb i).reasons = {.budget} ∧ ∃ j < i, (s.tcb i).scDonor = some j ∧ s.refillFaellig j)

/-- What the scan may have done to a slot it has not reached yet; it is at slot `k`. -/
structure Ausstehend (s : Scheduler) (k x : Nat) (t : Tcb) : Prop where
  used : t.used = (s.tcb x).used
  budget : t.budget = (s.tcb x).budget
  depleted : t.depleted = (s.tcb x).depleted
  nextRefill : t.nextRefill = (s.tcb x).nextRefill
  scDonor : t.scDonor = (s.tcb x).scDonor
  scDonee : t.scDonee = (s.tcb x).scDonee
  queued : t.depleted = true → t.queued = (s.tcb x).queued
  reasons : t.reasons = (s.tcb x).reasons ∨ t.reasons = (s.tcb x).reasons.erase .budget ∧
    ∃ j < k, (s.tcb x).scDonor = some j ∧ s.refillFaellig j

namespace Ausstehend

variable {s₀ s s' : Scheduler} {k x : Nat} {t : Tcb}

theorem refl (s : Scheduler) (k x : Nat) : Ausstehend s k x (s.tcb x) :=
  ⟨rfl, rfl, rfl, rfl, rfl, rfl, fun _ => rfl, .inl rfl⟩

theorem of_daten (h : Ausstehend s₀ k x (s.tcb x)) (hd : s'.daten x = s.daten x) :
    Ausstehend s₀ k x (s'.tcb x) := by
  have hf := fun {α : Type} (f : Tcb → α) => congrArg f hd
  have hused : (s'.tcb x).used = (s.tcb x).used := hf Tcb.used
  have hbudget : (s'.tcb x).budget = (s.tcb x).budget := hf Tcb.budget
  have hdepleted : (s'.tcb x).depleted = (s.tcb x).depleted := hf Tcb.depleted
  have hnext : (s'.tcb x).nextRefill = (s.tcb x).nextRefill := hf Tcb.nextRefill
  have hdonor : (s'.tcb x).scDonor = (s.tcb x).scDonor := hf Tcb.scDonor
  have hdonee : (s'.tcb x).scDonee = (s.tcb x).scDonee := hf Tcb.scDonee
  have hqueued : (s'.tcb x).queued = (s.tcb x).queued := hf Tcb.queued
  have hreasons : (s'.tcb x).reasons = (s.tcb x).reasons := hf Tcb.reasons
  refine ⟨hused.trans h.used, hbudget.trans h.budget, hdepleted.trans h.depleted,
    hnext.trans h.nextRefill, hdonor.trans h.scDonor, hdonee.trans h.scDonee, fun hdep => ?_, ?_⟩
  · exact hqueued.trans (h.queued (hdepleted.symm.trans hdep))
  · rw [hreasons]
    exact h.reasons

theorem mono {k' : Nat} (hk : k ≤ k') (h : Ausstehend s₀ k x t) : Ausstehend s₀ k' x t := by
  refine ⟨h.used, h.budget, h.depleted, h.nextRefill, h.scDonor, h.scDonee, h.queued, ?_⟩
  rcases h.reasons with hr | ⟨hr, j, hj, hdonor⟩
  · exact .inl hr
  · exact .inr ⟨hr, j, Nat.lt_of_lt_of_le hj hk, hdonor⟩

theorem refillFaellig_iff (h : Ausstehend s₀ k x (s.tcb x)) (hnow : s.now = s₀.now) :
    s.refillFaellig x ↔ s₀.refillFaellig x := by
  unfold refillFaellig
  rw [h.used, h.budget, h.depleted, h.nextRefill, hnow]

theorem weckeFallsLauffaehig (h : Ausstehend s₀ k x (s.tcb x))
    (hw : s.weckeFallsLauffaehig x = some s') : Ausstehend s₀ k x (s'.tcb x) := by
  unfold Scheduler.weckeFallsLauffaehig at hw
  split at hw
  · next hrun =>
    obtain ⟨p, hp⟩ := Wirkt.enqueueReady hw
    have hf := fun {α : Type} (f : Tcb → α) => congrArg f hp.slot
    refine ⟨(hf Tcb.used).trans h.used, (hf Tcb.budget).trans h.budget,
      (hf Tcb.depleted).trans h.depleted, (hf Tcb.nextRefill).trans h.nextRefill,
      (hf Tcb.scDonor).trans h.scDonor, (hf Tcb.scDonee).trans h.scDonee, fun hdep => ?_, ?_⟩
    · have hdep' : (s.tcb x).depleted = true := (hf Tcb.depleted).symm.trans hdep
      exact absurd (hrun.2.1.symm.trans hdep') Bool.false_ne_true
    · have hreasons : (s'.tcb x).reasons = (s.tcb x).reasons := hf Tcb.reasons
      rw [hreasons]
      exact h.reasons
  · cases hw
    exact h

/-- A thread held for the account of a slot the scan has filled may be woken. -/
theorem budgetWecken {j d : Nat} (hj : j < k) (hdue : s₀.refillFaellig j)
    (h : Ausstehend s₀ k x (s.tcb x)) (hb : budgetWecken j s d = some s') :
    Ausstehend s₀ k x (s'.tcb x) := by
  unfold Scheduler.budgetWecken at hb
  split at hb
  · next hand =>
    obtain ⟨-, -, hmem, hdonor⟩ := hand
    have hlose : Wirkt s (s.setBudgetBlocked d false) d
        { s.tcb d with reasons := (s.tcb d).reasons.erase .budget } := wirkt_budgetAufheben hmem
    by_cases hx : x = d
    · subst hx
      have hfirst : Ausstehend s₀ k x ((s.setBudgetBlocked x false).tcb x) := by
        have hf := fun {α : Type} (f : Tcb → α) => congrArg f hlose.slot
        refine ⟨(hf Tcb.used).trans h.used, (hf Tcb.budget).trans h.budget,
          (hf Tcb.depleted).trans h.depleted, (hf Tcb.nextRefill).trans h.nextRefill,
          (hf Tcb.scDonor).trans h.scDonor, (hf Tcb.scDonee).trans h.scDonee, fun hdep => ?_, ?_⟩
        · exact (hf Tcb.queued).trans (h.queued ((hf Tcb.depleted).symm.trans hdep))
        · refine .inr ⟨(hf Tcb.reasons).trans ?_, j, hj, h.scDonor.symm.trans hdonor, hdue⟩
          change (s.tcb x).reasons.erase .budget = _
          rcases h.reasons with hr | ⟨hr, -⟩
          · rw [hr]
          · rw [hr, Finset.erase_idem]
      exact hfirst.weckeFallsLauffaehig hb
    · obtain ⟨w, hw⟩ := Wirkt.weckeFallsLauffaehig hb
      exact h.of_daten ((hlose.trans hw).rest x hx)
  · cases hb
    exact h

theorem weckelauf {j : Nat} (hj : j < k) (hdue : s₀.refillFaellig j)
    (h : Ausstehend s₀ k x (s.tcb x)) (hl : s.weckelauf j = some s') :
    Ausstehend s₀ k x (s'.tcb x) := by
  have hstep : ∀ (t : Scheduler) (d : Nat) (t' : Scheduler), Ausstehend s₀ k x (t.tcb x) →
      Scheduler.budgetWecken j t d = some t' → Ausstehend s₀ k x (t'.tcb x) :=
    fun t d t' ht hd => ht.budgetWecken hj hdue hd
  exact weckelauf_invariant hstep h hl

end Ausstehend

/-- The scan at slot `k`: the law holds, and the slots from `k` on are as they were up to
reasons that were lifted. -/
structure Scan (idle : Option Nat) (s₀ : Scheduler) (k : Nat) (s : Scheduler) : Prop where
  current : s.current = s₀.current
  now : s.now = s₀.now
  gilt : Gilt (Vermerkt idle) (fun _ => True) s
  rest : ∀ x, k ≤ x → Ausstehend s₀ k x (s.tcb x)

theorem vermerkt_of_not_uebergangen {idle c : Option Nat} {s₀ : Scheduler} {i : Nat} {t t' : Tcb}
    (h : Ausstehend s₀ i i t) (hdue : s₀.refillFaellig i) (hnot : ¬ s₀.Uebergangen i)
    (hc : c = s₀.current) (hreasons : t'.reasons = t.reasons) (hqueued : t'.queued = t.queued)
    (hdonee : ∃ d, t.scDonee = some d ∧ d ≠ i) : Vermerkt idle c i t' := by
  intro _ hfree _ _
  have hdep : t.depleted = true := h.depleted.trans hdue.2.2.1
  by_contra hlost
  rw [not_or, not_not, hc, hqueued, h.queued hdep] at hlost
  refine hnot ⟨hdue, h.scDonee ▸ hdonee, hlost.1, hlost.2, ?_⟩
  rw [hreasons] at hfree
  rcases h.reasons with hr | ⟨hr, j, hj, hdonor, hjdue⟩
  · exact .inl (hr.symm.trans hfree)
  · rcases Finset.erase_eq_empty_iff _ _ |>.mp (hr.symm.trans hfree) with hempty | hsingle
    · exact .inl hempty
    · exact .inr ⟨hsingle, j, hj, hdonor, hjdue⟩

theorem Scan.refillSlot {idle : Option Nat} {s₀ s s' : Scheduler} {k : Nat}
    (h : Scan idle s₀ k s) (hnot : ¬ s₀.Uebergangen k) (hstep : s.refillSlot k = some s') :
    Scan idle s₀ (k + 1) s' := by
  have hown := h.rest k (Nat.le_refl k)
  rcases refillSlot_cases hstep with ⟨hdue, s₁, hlauf, hw⟩ | ⟨-, rfl⟩
  · have hdue₀ := (hown.refillFaellig_iff h.now).mp hdue
    have hfill := wirkt_auffuellen s k
    obtain ⟨hothers, hcur, hself⟩ := h.gilt.kontoFrei (vertraeglich_vermerkt idle) hfill
      (gelockert_voll _) hlauf
    obtain ⟨-, hnow, hdaten⟩ := weckelauf_owner hlauf
    have hrest : ∀ x, k + 1 ≤ x → Ausstehend s₀ (k + 1) x (s₁.tcb x) := by
      intro x hx
      have hpast := ((h.rest x (Nat.le_of_succ_le hx)).mono (Nat.le_succ k)).of_daten
        (hfill.rest x (Nat.ne_of_gt hx))
      exact hpast.weckelauf (Nat.lt_succ_self k) hdue₀ hlauf
    rcases besitzerWecken_cases hw with hw | ⟨rfl, hdonee⟩
    · obtain ⟨w, hwirkt⟩ := Wirkt.weckeFallsLauffaehig hw
      refine ⟨?_, ?_, ?_, fun x hx => ?_⟩
      · exact hwirkt.current.trans (hcur.trans h.current)
      · exact hwirkt.now.trans (hnow.trans (hfill.now.trans h.now))
      · exact gilt_wecken (vertraeglich_vermerkt idle) hothers
          (fun _ => hcur ▸ h.gilt k trivial) hself hw
      · exact (hrest x hx).of_daten (hwirkt.rest x (Nat.ne_of_gt hx))
    · refine ⟨hcur.trans h.current, hnow.trans (hfill.now.trans h.now), fun x _ => ?_, hrest⟩
      by_cases hx : x = k
      · subst hx
        have hf := fun {α : Type} (f : Tcb → α) => congrArg f (hdaten.trans hfill.slot)
        have hdonee' : (s'.tcb x).scDonee = (s.tcb x).scDonee := hf Tcb.scDonee
        rw [hdonee'] at hdonee
        exact vermerkt_of_not_uebergangen hown hdue₀ hnot (hcur.trans h.current)
          (hf Tcb.reasons) (hf Tcb.queued) hdonee
      · exact hothers x trivial hx
  · exact ⟨h.current, h.now, h.gilt, fun x hx =>
      (h.rest x (Nat.le_of_succ_le hx)).mono (Nat.le_succ k)⟩

theorem Scan.refillDepleted {idle : Option Nat} {s s' : Scheduler}
    (hs : Gilt (Vermerkt idle) (fun _ => True) s) (hnot : ∀ i, ¬ s.Uebergangen i)
    (h : s.refillDepleted = some s') : Scan idle s s.tcbs.len s' := by
  have hloop : ∀ n t, run Scheduler.refillSlot s (List.range n) = some t → Scan idle s n t := by
    intro n
    induction n with
    | zero =>
      intro t ht
      cases ht
      exact ⟨rfl, rfl, hs, fun x _ => Ausstehend.refl s 0 x⟩
    | succ n ih =>
      intro t ht
      rw [List.range_succ, run_append] at ht
      obtain ⟨u, hu, hlast⟩ := Option.bind_eq_some_iff.mp ht
      obtain ⟨t', ht', hnil⟩ := run_cons_eq_some.mp hlast
      cases hnil
      exact (ih u hu).refillSlot (hnot n) ht'
  exact hloop _ s' h

section

variable {idle : Option Nat} {s s' : Scheduler} {v : Verzeichnis}

theorem gilt_admitThread (hs : Gilt (Vermerkt idle) (fun _ => True) s) {tid : ThreadId} {b : Bool}
    (h : s.admitThread v tid = some (b, s')) : Gilt (Vermerkt idle) (fun _ => True) s' := by
  rcases admitThread_cases h with rfl | ⟨t, -, he⟩
  · exact hs
  · have hset : Wirkt s (s.setAdmitted t) t _ := Wirkt.modifyTcb s t _
    obtain ⟨p, hp⟩ := Wirkt.enqueueReady he
    exact (hset.trans hp).gilt (vertraeglich_vermerkt idle) hs fun _ _ _ _ _ =>
      .inr (Option.some_ne_none p)

theorem gilt_fristFreigeben (hs : Gilt (Vermerkt idle) (fun _ => True) s) {i : Nat} {g : Grund}
    (h : s.fristFreigeben i g = some s') : Gilt (Vermerkt idle) (fun _ => True) s' := by
  unfold fristFreigeben at h
  dsimp only at h
  have hfree : Wirkt s ((s.fristEntwaffnen i).removeReason i g) i _ :=
    (Wirkt.modifyTcb s i _).trans (Wirkt.modifyTcb _ i _)
  split at h
  · obtain ⟨p, hp⟩ := Wirkt.enqueueReady h
    exact (hfree.trans hp).gilt (vertraeglich_vermerkt idle) hs fun _ _ _ _ _ =>
      .inr (Option.some_ne_none p)
  · next hheld =>
    cases h
    refine hfree.gilt (vertraeglich_vermerkt idle) hs fun _ _ hreasons _ _ => .inr fun hq => ?_
    exact hheld ⟨hfree.self.reasons.trans hreasons, hfree.self.queued.trans hq⟩

theorem gilt_fristSchritt {outLen i : Nat} {l l' : FristLauf}
    (hl : Gilt (Vermerkt idle) (fun _ => True) l.sched) (h : fristSchritt outLen l i = some l') :
    Gilt (Vermerkt idle) (fun _ => True) l'.sched := by
  have hdisarm := hl.setFrist (vertraeglich_vermerkt idle) i 0 none
  unfold fristSchritt at h
  dsimp only at h
  split at h
  · cases h
    exact hl
  · split at h
    · cases h
      exact hl
    · cases h
      exact hl
    · cases h
      exact hdisarm
    · split at h
      · cases h
        exact hdisarm
      · obtain ⟨s₁, hf, rfl⟩ := Option.map_eq_some_iff.mp h
        exact gilt_fristFreigeben hl hf

theorem gilt_fristenFaellig (hs : Gilt (Vermerkt idle) (fun _ => True) s) {outLen : Nat}
    {out : List ThreadId} (h : s.fristenFaellig outLen = some (out, s')) :
    Gilt (Vermerkt idle) (fun _ => True) s' := by
  unfold fristenFaellig at h
  split at h
  · cases h
    exact hs
  · obtain ⟨l, hrun, htuple⟩ := Option.map_eq_some_iff.mp h
    cases htuple
    have hstep : ∀ (l : FristLauf) (i : Nat) (l' : FristLauf),
        Gilt (Vermerkt idle) (fun _ => True) l.sched → fristSchritt outLen l i = some l' →
        Gilt (Vermerkt idle) (fun _ => True) l'.sched :=
      fun l i l' hl hi => gilt_fristSchritt hl hi
    have hl : Gilt (Vermerkt idle) (fun _ => True) l.sched := run_invariant_of_step hstep hs hrun
    exact hl

def TickSicher (s : Scheduler) (tick : Bool) : Prop :=
  tick = true → 0 < s.depletedCount → ∀ i, ¬ Uebergangen { s with now := s.now + 1 } i

theorem gilt_tickAnfang (hs : Gilt (Vermerkt idle) (fun _ => True) s) {tick : Bool}
    (hok : s.TickSicher tick) (h : s.tickAnfang tick = some s') :
    Gilt (Vermerkt idle) (fun _ => True) s' := by
  unfold tickAnfang at h
  split at h
  · next htick =>
    dsimp only at h
    split at h
    · next hcount => exact (Scan.refillDepleted (s := { s with now := s.now + 1 }) hs
        (hok htick hcount) h).gilt
    · cases h
      exact hs
  · cases h
    exact hs

theorem wirkt_erschoepfen (s : Scheduler) (acct : Nat) : Wirkt s (s.erschoepfen acct) acct
    { s.tcb acct with remaining := 0, depleted := true,
                      nextRefill := s.now + (s.tcb acct).period } := by
  have hleer := Wirkt.modifyTcb s acct fun t =>
    { t with remaining := 0, depleted := true, nextRefill := s.now + t.period }
  exact hleer.of_tcbs rfl rfl rfl

theorem gleichstand_setRemaining (s : Scheduler) (i w x : Nat) :
    Gleichstand (s.tcb x) ((s.setRemaining i w).tcb x) := by
  refine gleichstand_modifyTcb s i ?_ x
  exact fun _ => ⟨rfl, rfl, rfl, rfl, rfl⟩

theorem giltFrei_belasten {cur : Nat} (hs : GiltFrei (Vermerkt idle) (fun x => x ≠ cur) s)
    (tick : Bool) : GiltFrei (Vermerkt idle) (fun x => x ≠ cur) (s.belasten cur tick) := by
  have hleer : GiltFrei (Vermerkt idle) (fun x => x ≠ cur) (s.erschoepfen (s.konto cur)) := by
    refine (wirkt_erschoepfen s _).giltFrei (vertraeglich_vermerkt idle) hs ?_
    intro _ _ _ hdep
    cases hdep
  unfold belasten
  dsimp only
  split
  · split
    · obtain ⟨t, ht, -⟩ := wirkt_budgetHalten (s.erschoepfen (s.konto cur)) cur
      exact ht.giltFrei (vertraeglich_vermerkt idle) hleer fun hne => absurd rfl hne
    · exact hleer
  · split
    · intro x hx
      exact (vertraeglich_vermerkt idle).same (gleichstand_setRemaining s _ _ x) (hs x hx)
    · exact hs

theorem belasten_held {cur : Nat} {tick : Bool}
    (h : ¬ ((s.tcb cur).reasons = ∅ ∧ ¬ s.erschoepft cur tick)) :
    ((s.belasten cur tick).tcb cur).reasons = ∅ → ((s.belasten cur tick).tcb cur).depleted = true := by
  intro hfree
  have hleer := wirkt_erschoepfen s (s.konto cur)
  unfold belasten at hfree ⊢
  dsimp only at hfree ⊢
  split at hfree
  · next hout =>
    rw [if_pos hout]
    split at hfree
    · obtain ⟨t, ht, hr, -⟩ := wirkt_budgetHalten (s.erschoepfen (s.konto cur)) cur
      rw [ht.self.reasons, hr] at hfree
      exact absurd hfree (Finset.insert_ne_empty _ _)
    · next hown =>
      rw [if_neg hown]
      have hacct : s.konto cur = cur := not_not.mp hown
      rw [hacct] at hleer ⊢
      exact hleer.self.depleted
  · next hout =>
    have hreasons : (s.tcb cur).reasons = ∅ := by
      split at hfree
      · exact (gleichstand_setRemaining s _ _ cur).reasons.symm.trans hfree
      · exact hfree
    exact absurd ⟨hreasons, hout⟩ h

theorem giltFrei_zurueckreihen (hs : Gilt (Vermerkt idle) (fun _ => True) s) {frame : Nat}
    {tick : Bool} (h : s.zurueckreihen frame tick = some s') :
    GiltFrei (Vermerkt idle) (fun _ => True) s' := by
  unfold zurueckreihen at h
  split at h
  · next hcur =>
    cases h
    intro x _
    have hx := hs x trivial
    rw [hcur] at hx
    exact hx
  · next cur hcur =>
    dsimp only at h
    have hothers : GiltFrei (Vermerkt idle) (fun x => x ≠ cur) (s.setSp cur frame) := by
      have hset : Wirkt s (s.setSp cur frame) cur _ := Wirkt.modifyTcb s cur _
      refine hset.giltFrei (vertraeglich_vermerkt idle) (fun x hx => ?_) fun hne => absurd rfl hne
      refine (vertraeglich_vermerkt idle).leave ?_ (hs x trivial)
      rw [hcur]
      exact fun heq => hx (Option.some.inj heq).symm
    have hcharged := giltFrei_belasten hothers tick
    split at h
    · obtain ⟨p, hp⟩ := Wirkt.enqueueReady h
      intro x _
      by_cases hx : x = cur
      · subst hx
        intro _ _ _ _
        rw [hp.self.queued]
        exact .inr (Option.some_ne_none p)
      · exact (vertraeglich_vermerkt idle).same (hp.others x hx) (hcharged x hx)
    · next hheld =>
      cases h
      intro x _
      by_cases hx : x = cur
      · subst hx
        intro _ hfree hdep _
        exact absurd (hdep.symm.trans (belasten_held hheld hfree)) Bool.false_ne_true
      · exact hcharged x hx

theorem gilt_onTick (hs : Gilt (Vermerkt idle) (fun _ => True) s) (hgut : s.Gut) {frame sp : Nat}
    {tick : Bool} (hok : s.TickSicher tick) (h : s.onTick frame tick = some (sp, s')) :
    Gilt (Vermerkt idle) (fun _ => True) s' := by
  obtain ⟨s₁, s₂, h₁, h₂, hcases⟩ := onTick_cases h
  have hgut₁ := (Bewahrt.tickAnfang h₁).gut hgut
  have hgut₂ := (Bewahrt.zurueckreihen hgut₁.2 h₂).gut hgut₁
  have hfrei := giltFrei_zurueckreihen (gilt_tickAnfang hs hok h₁) h₂
  rcases hcases with ⟨-, rfl⟩ | ⟨n, hn, rfl⟩
  · intro x _ hused hreasons hdep hadm
    have hq := hfrei x trivial hused hreasons hdep hadm
    exact .inr (hq.resolve_left (Option.some_ne_none x).symm)
  · obtain ⟨l, ho⟩ := hgut₂.1
    obtain ⟨p, -, hq, -⟩ := ho.hoechster_eq_some hn
    exact hfrei.dispatch (vertraeglich_vermerkt idle) (hq ▸ Option.some_ne_none p)

end

end Scheduler

namespace System

/-- The steps of a run the law covers: a core is initialised once, before anything runs on
it, and no refill scan passes over an owner. -/
def Ordentlich (S : System) : Op → Prop
  | .initCore c _ => (S.cores c).current = none
  | .aufruf c (.onTick _ tick) => (S.cores c).TickSicher tick
  | _ => True

def NichtVerloren (S : System) : Prop :=
  ∀ c x, ((S.cores c).tcb x).used = true → ((S.cores c).tcb x).reasons = ∅ →
    ((S.cores c).tcb x).depleted = false →
    (((S.cores c).tcb x).admitted = true ∨ S.idle c = some x) →
    (S.cores c).current = some x ∨ x ∈ (S.cores c).bereit ((S.cores c).tcb x).priority

theorem haelt_init (a : Ausbau) : (init a).Haelt Vermerkt where
  core := by
    intro c x _ hused
    cases hused
  idle := by
    intro c x hidle
    cases hidle
  unterwegs := by
    intro m hm
    cases hm

theorem step_vermerkt {S S' : System} {op : Op} (hS : S.Haelt Vermerkt) (hgut : S.Gut)
    (hok : S.Ordentlich op) (hstep : S.step op = some S') : S'.Haelt Vermerkt := by
  refine step_haelt gesetz_vermerkt hS hgut ?_ ?_ hstep
  · intro c a s' hop ha hcall
    subst hop
    cases a with
    | admitThread tid =>
      obtain ⟨b, h⟩ := map_snd_eq_some hcall
      exact gilt_admitThread (hS.core c) h
    | fristenFaellig outLen =>
      obtain ⟨out, h⟩ := map_snd_eq_some hcall
      exact gilt_fristenFaellig (hS.core c) h
    | onTick frame tick =>
      obtain ⟨sp, h⟩ := map_snd_eq_some hcall
      exact gilt_onTick (hS.core c) (hgut.1 c) hok h
    | _ => exact absurd trivial ha
  · intro c priority hop x _
    subst hop
    have hx := hS.core c x trivial
    rw [show (S.cores c).current = none from hok] at hx
    exact hx

theorem run_vermerkt {a : Ausbau} {ops : List Op} {S : System}
    (hops : Admissible step Ordentlich (init a) ops) (hrun : run step (init a) ops = some S) :
    S.Haelt Vermerkt ∧ S.Gut := by
  have hstep : ∀ T op T', T.Haelt Vermerkt ∧ T.Gut → Ordentlich T op → step T op = some T' →
      T'.Haelt Vermerkt ∧ T'.Gut :=
    fun T op T' hT hok hT' => ⟨step_vermerkt hT.1 hT.2 hok hT', step_gut T op T' hT.2 hT'⟩
  exact run_invariant hstep ⟨haelt_init a, gut_init a⟩ hops hrun

/-- The same, where no account is exhausted when a tick comes: then no scan takes place. -/
def Unerschoepft (S : System) : Op → Prop
  | .initCore c _ => (S.cores c).current = none
  | .aufruf c (.onTick _ _) => (S.cores c).depletedCount = 0
  | _ => True

instance (S : System) (op : Op) : Decidable (S.Unerschoepft op) := by
  unfold Unerschoepft
  split <;> infer_instance

theorem Unerschoepft.ordentlich {S : System} {op : Op} (h : S.Unerschoepft op) :
    S.Ordentlich op := by
  cases op with
  | initCore c priority => exact h
  | aufruf c a =>
    cases a with
    | onTick frame tick => exact fun _ hpos => absurd h (Nat.ne_of_gt hpos)
    | _ => trivial
  | _ => trivial

/-- In every run of steps as above no thread that may run is lost. -/
theorem run_nichtVerloren (a : Ausbau) (ops : List Op) (S : System)
    (hops : Admissible step Ordentlich (init a) ops) (hrun : run step (init a) ops = some S) :
    S.NichtVerloren := by
  have hinv := run_vermerkt hops hrun
  intro c x hused hreasons hdep hadm
  rcases hinv.1.core c x trivial hused hreasons hdep hadm with hcur | hq
  · exact .inl hcur
  · obtain ⟨l, ho⟩ := (hinv.2.1 c).1
    obtain ⟨p, hp⟩ := Option.ne_none_iff_exists'.mp hq
    rw [(ho.prio p x hp).2, ho.bereit_eq, ho.mem]
    exact .inr hp

/-- A thread is created and admitted, and a tick dispatches it: the idle thread is queued. -/
theorem run_nichtVerloren_spawn_tick :
    ∃ S, run step (init ⟨2, 2, by decide⟩)
        [.initCore 0 0, .spawn 0 100 0 16 1, .aufruf 0 (.onTick 50 true)] = some S ∧
      (S.cores 0).current = some 1 ∧ (S.cores 0).bereit 0 = [0] ∧ S.NichtVerloren := by
  have hread : (run step (init ⟨2, 2, by decide⟩)
      [.initCore 0 0, .spawn 0 100 0 16 1, .aufruf 0 (.onTick 50 true)]).map
        (fun S => ((S.cores 0).current, (S.cores 0).bereit 0)) = some (some 1, [0]) := by
    decide
  have hops : Admissible step Unerschoepft (init ⟨2, 2, by decide⟩)
      [.initCore 0 0, .spawn 0 100 0 16 1, .aufruf 0 (.onTick 50 true)] := by
    decide
  obtain ⟨S, hS, heq⟩ := Option.map_eq_some_iff.mp hread
  simp only [Prod.mk.injEq] at heq
  exact ⟨S, hS, heq.1, heq.2,
    run_nichtVerloren _ _ S (hops.mono fun _ _ hok => hok.ordentlich) hS⟩

/-- A thread that was created parked is used and nothing holds it; it neither runs nor is
queued. -/
theorem run_spawnParked_waits_for_admit :
    ∃ S, run step (init ⟨2, 2, by decide⟩) [.initCore 0 0, .spawnParked 0 100 0 16 1] = some S ∧
      ((S.cores 0).tcb 1).used = true ∧ ((S.cores 0).tcb 1).reasons = ∅ ∧
      ((S.cores 0).tcb 1).depleted = false ∧ ¬ ((S.cores 0).current = some 1 ∨
        1 ∈ (S.cores 0).bereit ((S.cores 0).tcb 1).priority) := by
  have hread : (run step (init ⟨2, 2, by decide⟩)
      [.initCore 0 0, .spawnParked 0 100 0 16 1]).map
        (fun S => decide (((S.cores 0).tcb 1).used = true ∧ ((S.cores 0).tcb 1).reasons = ∅ ∧
          ((S.cores 0).tcb 1).depleted = false ∧ ¬ ((S.cores 0).current = some 1 ∨
            1 ∈ (S.cores 0).bereit ((S.cores 0).tcb 1).priority))) = some true := by
    decide
  obtain ⟨S, hS, heq⟩ := Option.map_eq_some_iff.mp hread
  exact ⟨S, hS, of_decide_eq_true heq⟩

end System

end Caprock.Sched
