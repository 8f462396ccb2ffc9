import Caprock.Sched.Donation

/-! # Nobody runs on an exhausted account

A thread is charged to its own account or to a lent one.  The flag of its own account keeps it
out of the lists; an exhausted account that was lent is no more than a reason, and only the
borrower that runs gets it at once.  The others wait for a message, and `unblock` looks at the
lent account before it links them.  Where a borrower waits for something else, or a link is cut
or made while a thread is queued, nobody looks.  `Dicht` is the condition on these steps.
-/

namespace Caprock.Sched

open Execution

/-- What a thread in slot `x` that is charged to an exhausted account has to be: in no list, and
a borrower held for its message or for the refill. -/
def Gesperrt (x : Nat) (t : Tcb) : Prop :=
  t.queued = none ∧ (t.scDonor.getD x ≠ x → .ipc ∈ t.reasons ∨ .budget ∈ t.reasons)

theorem Gesperrt.congr {x : Nat} {t t' : Tcb} (h : Gesperrt x t) (hq : t'.queued = t.queued)
    (hd : t'.scDonor = t.scDonor) (hr : t.reasons ⊆ t'.reasons) : Gesperrt x t' := by
  refine ⟨hq.trans h.1, fun hne => ?_⟩
  rw [hd] at hne
  exact (h.2 hne).imp (fun hipc => hr hipc) (fun hbudget => hr hbudget)

theorem Gesperrt.eigen {x : Nat} {t : Tcb} (hq : t.queued = none) (hd : t.scDonor.getD x = x) :
    Gesperrt x t :=
  ⟨hq, fun hne => absurd hd hne⟩

namespace Scheduler

/-- The account the thread in slot `x` is charged to is not exhausted. -/
def Offen (s : Scheduler) (x : Nat) : Prop := (s.tcb (s.konto x)).depleted = false

/-- Whoever is charged to an exhausted account is kept from running. -/
def SperrenHalten (s : Scheduler) : Prop := ∀ x, s.Offen x ∨ Gesperrt x (s.tcb x)

variable {s s' s₁ : Scheduler} {v v' : Verzeichnis} {i x : Nat} {t : Tcb}

theorem blind_depleted (x : Nat) : Blind fun s => (s.tcb x).depleted := by
  refine .of_stand fun s s' _ htcb => ?_
  have hx := congrArg Tcb.depleted (htcb x)
  exact hx

theorem blind_offen (x : Nat) : Blind fun s => s.Offen x := by
  refine .of_stand fun s s' hrumpf htcb => ?_
  have hkonto : s'.konto x = s.konto x := (blind_konto x).stand s s' hrumpf htcb
  have hdep : (s'.tcb (s.konto x)).depleted = (s.tcb (s.konto x)).depleted :=
    (blind_depleted (s.konto x)).stand s s' hrumpf htcb
  show ((s'.tcb (s'.konto x)).depleted = false) = ((s.tcb (s.konto x)).depleted = false)
  rw [hkonto, hdep]

namespace SperrenHalten

theorem offen_of_queued (hs : s.SperrenHalten) (hq : (s.tcb x).queued ≠ none) : s.Offen x :=
  (hs x).resolve_right fun h => hq h.1

/-- Nothing holds the thread and its own account is open: then so is a lent one. -/
theorem offen_of_frei (hs : s.SperrenHalten) (hr : (s.tcb x).reasons = ∅)
    (hdep : (s.tcb x).depleted = false) : s.Offen x := by
  rcases hs x with hoffen | hsperre
  · exact hoffen
  · by_cases hown : s.konto x = x
    · show (s.tcb (s.konto x)).depleted = false
      rw [hown]
      exact hdep
    · have hheld := hsperre.2 hown
      rw [hr] at hheld
      simp at hheld

theorem of_tcbs (hs : s.SperrenHalten) (htcbs : s'.tcbs = s.tcbs) : s'.SperrenHalten := by
  have htcb : ∀ x, s'.tcb x = s.tcb x := by
    intro x
    unfold tcb
    rw [htcbs]
  intro x
  have hx := hs x
  unfold Offen konto at hx ⊢
  rw [htcb, htcb]
  exact hx

/-- One block changes, and its account is not used up by that. -/
theorem slot (hs : s.SperrenHalten) (hw : Wirkt s s' i t)
    (hdep : t.depleted = true → (s.tcb i).depleted = true)
    (hi : s'.Offen i ∨ Gesperrt i (s'.tcb i)) : s'.SperrenHalten := by
  have hopen : ∀ y, (s.tcb y).depleted = false → (s'.tcb y).depleted = false := by
    intro y hy
    by_cases hyi : y = i
    · subst hyi
      rw [hw.self.depleted]
      by_contra hne
      rw [hdep (Bool.eq_true_of_not_eq_false hne)] at hy
      cases hy
    · rw [(hw.others y hyi).depleted]
      exact hy
  intro x
  by_cases hx : x = i
  · exact hx ▸ hi
  · have hdonor : (s'.tcb x).scDonor = (s.tcb x).scDonor := by
      have hslot := congrArg Tcb.scDonor (hw.rest x hx)
      exact hslot
    have hkonto : s'.konto x = s.konto x := congrArg (fun d => d.getD x) hdonor
    refine (hs x).imp (fun hoffen => ?_) fun hsperre => ?_
    · show (s'.tcb (s'.konto x)).depleted = false
      rw [hkonto]
      exact hopen _ hoffen
    · exact hsperre.congr (hw.others x hx).queued hdonor (hw.others x hx).reasons.symm.subset

/-- The block that changes keeps its lender. -/
theorem wirkt (hs : s.SperrenHalten) (hw : Wirkt s s' i t) (hdonor : t.scDonor = (s.tcb i).scDonor)
    (hdep : t.depleted = true → (s.tcb i).depleted = true) (hi : s.Offen i ∨ Gesperrt i t) :
    s'.SperrenHalten := by
  have hlink : (s'.tcb i).scDonor = t.scDonor := by
    have hslot := congrArg Tcb.scDonor hw.slot
    exact hslot
  refine hs.slot hw hdep (hi.imp (fun hoffen => ?_) fun hsperre => ?_)
  · have hkonto : s'.konto i = s.konto i := congrArg (fun d => d.getD i) (hlink.trans hdonor)
    show (s'.tcb (s'.konto i)).depleted = false
    rw [hkonto]
    by_cases hown : s.konto i = i
    · rw [hown, hw.self.depleted]
      have hopen : (s.tcb (s.konto i)).depleted = false := hoffen
      rw [hown] at hopen
      by_contra hne
      rw [hdep (Bool.eq_true_of_not_eq_false hne)] at hopen
      cases hopen
    · rw [(hw.others _ hown).depleted]
      exact hoffen
  · exact hsperre.congr hw.self.queued hlink hw.self.reasons.symm.subset

theorem modifyTcb (hs : s.SperrenHalten) (i : Nat) {f : Tcb → Tcb}
    (hf : ∀ t, (f t).queued = t.queued ∧ (f t).scDonor = t.scDonor ∧ t.reasons ⊆ (f t).reasons ∧
      ((f t).depleted = true → t.depleted = true)) : (s.modifyTcb i f).SperrenHalten := by
  obtain ⟨hq, hd, hr, hdep⟩ := hf (s.tcb i)
  exact hs.wirkt (Wirkt.modifyTcb s i f) hd hdep ((hs i).imp_right fun h => h.congr hq hd hr)

theorem removeFromReady (hs : s.SperrenHalten) (i : Nat) : (s.removeFromReady i).SperrenHalten :=
  hs.wirkt (Wirkt.removeFromReady s i) rfl (fun hd => hd)
    ((hs i).imp_right fun h => ⟨rfl, h.2⟩)

theorem enqueueReady (hs : s.SperrenHalten) (hi : s.Offen i) (h : s.enqueueReady i = some s') :
    s'.SperrenHalten := by
  obtain ⟨p, hp⟩ := Wirkt.enqueueReady h
  exact hs.wirkt hp rfl (fun hd => hd) (.inl hi)

theorem weckeFallsLauffaehig (hs : s.SperrenHalten) (h : s.weckeFallsLauffaehig i = some s') :
    s'.SperrenHalten := by
  unfold Scheduler.weckeFallsLauffaehig at h
  split at h
  · next hrun => exact hs.enqueueReady (hs.offen_of_frei hrun.1 hrun.2.1) h
  · cases h
    exact hs

theorem removeReason (hs : s.SperrenHalten) (i : Nat) {g : Grund} (hipc : g ≠ .ipc)
    (hbudget : g ≠ .budget) : (s.removeReason i g).SperrenHalten := by
  refine hs.wirkt (Wirkt.modifyTcb s i _) rfl (fun hd => hd) ((hs i).imp_right fun h => ⟨h.1, ?_⟩)
  intro hne
  refine (h.2 hne).imp (fun hmem => ?_) fun hmem => ?_
  · exact Finset.mem_erase.mpr ⟨hipc.symm, hmem⟩
  · exact Finset.mem_erase.mpr ⟨hbudget.symm, hmem⟩

theorem budgetAufheben (hs : s.SperrenHalten) (hi : s.Offen i ∨ s.konto i = i) :
    (s.setBudgetBlocked i false).SperrenHalten := by
  by_cases hmem : Grund.budget ∈ (s.tcb i).reasons
  · refine hs.wirkt (wirkt_budgetAufheben hmem) rfl (fun hd => hd) ?_
    rcases hi with hoffen | hown
    · exact .inl hoffen
    · exact (hs i).imp_right fun h => Gesperrt.eigen h.1 hown
  · unfold Scheduler.setBudgetBlocked
    rw [if_pos (decide_eq_false hmem)]
    exact hs

theorem dispatch (hs : s.SperrenHalten) (n : Nat) :
    ((s.removeFromReady n).setCurrent n).SperrenHalten :=
  (hs.removeFromReady n).of_tcbs rfl

theorem wechseln (hs : s.SperrenHalten) (hgut : s.Geordnet) {sp : Nat}
    (h : s.wechseln = some (sp, s')) :
    s'.SperrenHalten ∧ ∀ x, s'.current = some x → s'.Offen x := by
  obtain ⟨n, hn, rfl⟩ := wechseln_cases h
  refine ⟨hs.dispatch n, fun x hx => ?_⟩
  obtain rfl : n = x := Option.some.inj hx
  obtain ⟨l, ho⟩ := hgut
  obtain ⟨p, -, hq, -⟩ := ho.hoechster_eq_some hn
  rw [(blind_offen n).dispatch s n]
  exact hs.offen_of_queued (hq ▸ Option.some_ne_none p)

theorem setSp (hs : s.SperrenHalten) (i w : Nat) : (s.setSp i w).SperrenHalten := by
  refine hs.modifyTcb i ?_
  exact fun t => ⟨rfl, rfl, Finset.Subset.refl _, fun hd => hd⟩

theorem setParkWake (hs : s.SperrenHalten) (i : Nat) (w : Bool) :
    (s.setParkWake i w).SperrenHalten := by
  refine hs.modifyTcb i ?_
  exact fun t => ⟨rfl, rfl, Finset.Subset.refl _, fun hd => hd⟩

theorem setFrist (hs : s.SperrenHalten) (i d : Nat) (g : Option Grund) :
    (s.setFrist i d g).SperrenHalten := by
  refine hs.modifyTcb i ?_
  exact fun t => ⟨rfl, rfl, Finset.Subset.refl _, fun hd => hd⟩

theorem setScDonee (hs : s.SperrenHalten) (i : Nat) (w : Option Nat) :
    (s.setScDonee i w).SperrenHalten := by
  refine hs.modifyTcb i ?_
  exact fun t => ⟨rfl, rfl, Finset.Subset.refl _, fun hd => hd⟩

theorem insertReason (hs : s.SperrenHalten) (i : Nat) (g : Grund) :
    (s.insertReason i g).SperrenHalten := by
  refine hs.modifyTcb i ?_
  exact fun t => ⟨rfl, rfl, Finset.subset_insert g t.reasons, fun hd => hd⟩

theorem admitThread (hs : s.SperrenHalten) {tid : ThreadId} {b : Bool}
    (hok : ∀ i, s.resolve v tid = some i → s.Offen i) (h : s.admitThread v tid = some (b, s')) :
    s'.SperrenHalten := by
  rcases admitThread_cases h with rfl | ⟨i, hi, he⟩
  · exact hs
  · have hadm : (s.setAdmitted i).SperrenHalten := by
      refine hs.modifyTcb i ?_
      exact fun t => ⟨rfl, rfl, Finset.Subset.refl _, fun hd => hd⟩
    have hsame : (s.setAdmitted i).Offen i = s.Offen i := (blind_offen i).setAdmitted s i
    exact hadm.enqueueReady (hsame ▸ hok i hi) he

theorem blockCurrentMit (hs : s.SperrenHalten) (hgut : s.Gut) {frame sp : Nat} {g : Grund}
    (h : s.blockCurrentMit frame g = some (sp, s')) :
    s'.SperrenHalten ∧ ∀ x, s'.current = some x → s'.Offen x := by
  obtain ⟨cur, hcur, hw⟩ := blockCurrentMit_cases h
  have hblock : (s.blockieren cur frame g).SperrenHalten := (hs.setSp cur frame).insertReason cur g
  exact hblock.wechseln ((Bewahrt.blockieren s cur frame g).gut hgut).1 hw

theorem anhalten (hs : s.SperrenHalten) (v : Verzeichnis) (tid : ThreadId) (g : Grund) :
    (s.anhalten v tid g).2.SperrenHalten := by
  unfold Scheduler.anhalten
  split
  · exact hs
  · next i hi => exact (hs.insertReason i g).removeFromReady i

theorem einmalAnhalten (hs : s.SperrenHalten) (v : Verzeichnis) (tid : ThreadId) (g : Grund) :
    (s.einmalAnhalten v tid g).2.SperrenHalten := by
  unfold Scheduler.einmalAnhalten
  split
  · exact hs
  · split
    · exact hs
    · exact hs.anhalten v tid g

theorem grundAufheben (hs : s.SperrenHalten) {tid : ThreadId} {g : Grund} {b : Bool}
    (hipc : g ≠ .ipc) (hbudget : g ≠ .budget) (h : s.grundAufheben v tid g = some (b, s')) :
    s'.SperrenHalten := by
  rcases grundAufheben_cases h with rfl | ⟨i, -, hw⟩
  · exact hs
  · exact (hs.removeReason i hipc hbudget).weckeFallsLauffaehig hw

theorem gesetztenGrundAufheben (hs : s.SperrenHalten) {tid : ThreadId} {g : Grund} {b : Bool}
    (hipc : g ≠ .ipc) (hbudget : g ≠ .budget)
    (h : s.gesetztenGrundAufheben v tid g = some (b, s')) : s'.SperrenHalten := by
  rcases grundAufheben_of_gesetzt h with rfl | h
  · exact hs
  · exact hs.grundAufheben hipc hbudget h

theorem unpark (hs : s.SperrenHalten) {tid : ThreadId} {b : Bool}
    (h : s.unpark v tid = some (b, s')) : s'.SperrenHalten := by
  unfold Scheduler.unpark at h
  split at h
  · cases h
    exact hs
  · next i hi =>
    have hmark := hs.setParkWake i true
    dsimp only at h
    split at h
    · obtain ⟨s₁, hw, htuple⟩ := Option.map_eq_some_iff.mp h
      cases htuple
      have hfree := (hmark.setParkWake i false).removeReason i (g := .park) (by decide) (by decide)
      exact hfree.weckeFallsLauffaehig hw
    · cases h
      exact hmark

theorem debugReleasePd (hs : s.SperrenHalten) {pdOf : ThreadId → Option Nat} {pd n : Nat}
    (h : s.debugReleasePd pdOf pd = some (n, s')) : s'.SperrenHalten := by
  refine debugReleasePd_invariant (fun t i t' _ _ ht hw => ?_) hs h
  have hfree := ht.removeReason i (g := .debug) (by decide) (by decide)
  exact hfree.weckeFallsLauffaehig hw

/-- The waker that looks at a lent account: on an exhausted one the budget reason takes the
place of the message wait. -/
theorem unblock (hs : s.SperrenHalten) {tid : ThreadId} {b : Bool}
    (h : s.unblock v tid = some (b, s')) : s'.SperrenHalten := by
  unfold Scheduler.unblock at h
  split at h
  · cases h
    exact hs
  · next i hi =>
    have hipc : Wirkt s (s.removeReason i .ipc) i _ := Wirkt.modifyTcb s i _
    split at h
    · cases h
      exact hs
    · dsimp only at h
      split at h
      · cases h
        obtain ⟨t, ht, hreasons, hqueued⟩ := wirkt_budgetHalten (s.removeReason i .ipc) i
        -- Only the end of the two writes keeps the law.
        have hmem : Grund.budget ∈ (((s.removeReason i .ipc).setBudgetBlocked i true).tcb i).reasons := by
          rw [ht.self.reasons, hreasons]
          exact Finset.mem_insert_self _ _
        have hblind : ∀ {β : Type} {ω : Scheduler → β}, Blind ω →
            ω ((s.removeReason i .ipc).setBudgetBlocked i true) = ω s := by
          intro β ω hω
          exact (hω.setBudgetBlocked _ i true).trans (hω.removeReason (g := .ipc) trivial s i)
        refine hs.slot (hipc.trans ht) (fun hd => ?_) ((hs i).imp (fun hoffen => ?_) fun hsperre => ?_)
        · rw [← ht.self.depleted, hblind (blind_depleted i)] at hd
          exact hd
        · rw [hblind (blind_offen i)]
          exact hoffen
        · refine ⟨?_, fun _ => .inr hmem⟩
          exact ht.self.queued.trans (hqueued.trans (hipc.self.queued.trans hsperre.1))
      · next hacct =>
        have hoffen : s.Offen i ∨ s.konto i = i := by
          by_cases hown : s.konto i = i
          · exact .inr hown
          · exact .inl (Bool.eq_false_of_not_eq_true fun hd => hacct ⟨hown, hd⟩)
        have hfree : (s.removeReason i .ipc).SperrenHalten := by
          refine hs.wirkt hipc rfl (fun hd => hd) ?_
          rcases hoffen with ho | hown
          · exact .inl ho
          · exact (hs i).imp_right fun hsperre => Gesperrt.eigen hsperre.1 hown
        split at h
        · next hrun =>
          obtain ⟨s₁, he, htuple⟩ := Option.map_eq_some_iff.mp h
          cases htuple
          exact hfree.enqueueReady (hfree.offen_of_frei hrun.1 hrun.2) he
        · cases h
          exact hfree

theorem budgetWecken (hs : s.SperrenHalten) {konto d : Nat} (hk : (s.tcb konto).depleted = false)
    (h : budgetWecken konto s d = some s') : s'.SperrenHalten := by
  unfold Scheduler.budgetWecken at h
  split at h
  · next hand =>
    have hacct : s.konto d = konto := congrArg (fun w => Option.getD w d) hand.2.2.2
    have hoffen : s.Offen d := by
      show (s.tcb (s.konto d)).depleted = false
      rw [hacct]
      exact hk
    exact (hs.budgetAufheben (.inl hoffen)).weckeFallsLauffaehig h
  · cases h
    exact hs

theorem weckelauf (hs : s.SperrenHalten) {konto : Nat} (hk : (s.tcb konto).depleted = false)
    (h : s.weckelauf konto = some s') : s'.SperrenHalten := by
  have hstep : ∀ (t : Scheduler) (d : Nat) (t' : Scheduler),
      t.SperrenHalten ∧ (t.tcb konto).depleted = false → Scheduler.budgetWecken konto t d = some t' →
      t'.SperrenHalten ∧ (t'.tcb konto).depleted = false :=
    fun t d t' ht hd =>
      ⟨ht.1.budgetWecken ht.2 hd, ((blind_depleted konto).budgetWecken hd).trans ht.2⟩
  exact (weckelauf_invariant hstep ⟨hs, hk⟩ h).1

/-- An account is full: its refill looks at the owner's flag only, and that is enough. -/
theorem refillSlot (hs : s.SperrenHalten) {k : Nat} (h : s.refillSlot k = some s') :
    s'.SperrenHalten := by
  rcases refillSlot_cases h with ⟨-, s₁, hlauf, hw⟩ | ⟨-, rfl⟩
  · have hfill : (s.auffuellen k).SperrenHalten := by
      refine hs.wirkt (wirkt_auffuellen s k) rfl (fun hd => nomatch hd) ?_
      exact (hs k).imp_right fun h => ⟨h.1, h.2⟩
    have hopen : ((s.auffuellen k).tcb k).depleted = false := by
      rw [tcb_auffuellen, if_pos rfl]
      rfl
    have hwoken := hfill.weckelauf hopen hlauf
    rcases besitzerWecken_cases hw with hw | ⟨rfl, -⟩
    · exact hwoken.weckeFallsLauffaehig hw
    · exact hwoken
  · exact hs

theorem tickAnfang (hs : s.SperrenHalten) {tick : Bool} (h : s.tickAnfang tick = some s') :
    s'.SperrenHalten := by
  exact tickAnfang_invariant (fun _ _ _ ht hk => refillSlot ht hk) hs (hs.of_tcbs rfl) h

theorem setBudget (hs : s.SperrenHalten) {tid : ThreadId} {budget period : Nat} {b : Bool}
    (h : s.setBudget v tid budget period = some (b, s')) : s'.SperrenHalten := by
  rcases setBudget_cases h with ⟨-, rfl⟩ | ⟨i, -, hcases⟩
  · exact hs
  · have hopen : ((s.budgetEintragen i budget period).tcb i).depleted = false := by
      rw [tcb_budgetEintragen, if_pos rfl]
      rfl
    have hset : (s.budgetEintragen i budget period).SperrenHalten := by
      have hw : Wirkt s (s.budgetEintragen i budget period) i _ :=
        (Wirkt.modifyTcb s i fun t => t.mitBudget s.now budget period).of_tcbs rfl rfl rfl
      refine hs.wirkt hw rfl (fun hd => nomatch hd) ?_
      exact (hs i).imp_right fun h => ⟨h.1, h.2⟩
    rcases hcases with ⟨-, s₁, hlauf, hw⟩ | ⟨-, rfl⟩
    · exact (hset.weckelauf hopen hlauf).weckeFallsLauffaehig hw
    · exact hset

end SperrenHalten

/-- The deadline scan releases a thread that is charged to an exhausted account only where it
does not link it, and a borrower only where its message wait or its budget reason stays. -/
def FristDicht (s : Scheduler) (outLen : Nat) : Prop :=
  ∀ x g, s.FristGibtFrei outLen x g → s.Offen x ∨
    (s.tcb x).reasons.erase g ≠ ∅ ∧ (s.konto x ≠ x →
      .ipc ∈ (s.tcb x).reasons.erase g ∨ .budget ∈ (s.tcb x).reasons.erase g)

theorem fristBlind_offen (x : Nat) : FristBlind fun s => s.Offen x := by
  intro s i d g
  have hkonto : (s.setFrist i d g).konto x = s.konto x :=
    feld_modifyTcb (fun t => t.scDonor.getD x) s i x fun _ => rfl
  have hdep : ((s.setFrist i d g).tcb (s.konto x)).depleted = (s.tcb (s.konto x)).depleted :=
    feld_modifyTcb Tcb.depleted s i _ fun _ => rfl
  show (((s.setFrist i d g).tcb ((s.setFrist i d g).konto x)).depleted = false) =
    ((s.tcb (s.konto x)).depleted = false)
  rw [hkonto, hdep]

theorem SperrenHalten.fristenFaellig (hs : s.SperrenHalten) (hgut : s.Geordnet) {outLen : Nat}
    {out : List ThreadId} (hok : s.FristDicht outLen)
    (h : s.fristenFaellig outLen = some (out, s')) : s'.SperrenHalten := by
  intro x
  obtain ⟨hloest, -⟩ := loest_fristenFaellig hgut h x
  have hdonor : (s'.tcb x).scDonor = (s.tcb x).scDonor :=
    (blind_scDonor x).fristenFaellig (fristBlind_scDonor x) h
  have hsame : s'.Offen x = s.Offen x := (blind_offen x).fristenFaellig (fristBlind_offen x) h
  -- A deadline guards one reason.
  have hone : ∀ g ∈ (s.tcb x).reasons, g ∉ (s'.tcb x).reasons →
      ∀ e ∈ (s.tcb x).reasons.erase g, e ∈ (s'.tcb x).reasons := by
    intro g hg hnot e he
    obtain ⟨hne, hmem⟩ := Finset.mem_erase.mp he
    by_contra hgone
    have hboth := (hloest.lost e hmem hgone).2.2.2.symm.trans (hloest.lost g hg hnot).2.2.2
    exact hne (Option.some.inj hboth)
  rcases hs x with hoffen | hsperre
  · exact .inl (hsame ▸ hoffen)
  by_cases hoffen : s.Offen x
  · exact .inl (hsame ▸ hoffen)
  refine .inr ⟨?_, fun hne => ?_⟩
  · by_contra hq
    obtain ⟨hempty, hheld⟩ := hloest.link hsperre.1 hq
    obtain ⟨g, hg⟩ := Finset.nonempty_iff_ne_empty.mpr hheld
    have hgone : g ∉ (s'.tcb x).reasons := hempty ▸ Finset.notMem_empty g
    obtain ⟨hrest, -⟩ := (hok x g (hloest.lost g hg hgone)).resolve_left hoffen
    obtain ⟨e, he⟩ := Finset.nonempty_iff_ne_empty.mpr hrest
    have hstays := hone g hg hgone e he
    rw [hempty] at hstays
    exact Finset.notMem_empty e hstays
  · rw [hdonor] at hne
    by_cases hlost : ∃ g ∈ (s.tcb x).reasons, g ∉ (s'.tcb x).reasons
    · obtain ⟨g, hg, hgone⟩ := hlost
      have hrest := ((hok x g (hloest.lost g hg hgone)).resolve_left hoffen).2 hne
      exact hrest.imp (hone g hg hgone .ipc) (hone g hg hgone .budget)
    · have hkept : ∀ g ∈ (s.tcb x).reasons, g ∈ (s'.tcb x).reasons := by
        intro g hg
        by_contra hgone
        exact hlost ⟨g, hg, hgone⟩
      exact (hsperre.2 hne).imp (hkept .ipc) (hkept .budget)

/-- A call lends an account that is open; a target that something else holds keeps its budget
reason, if it is charged to an exhausted account of another. -/
def RufDicht (s : Scheduler) (v : Verzeichnis) (target : ThreadId) : Prop :=
  ∀ cur t, s.current = some cur → s.resolve v target = some t →
    ((s.tcb t).reasons.erase .ipc = ∅ → s.Offen cur) ∧
      ((s.tcb t).reasons.erase .ipc ≠ ∅ →
        s.Offen t ∨ (s.konto t ≠ t → .budget ∈ (s.tcb t).reasons))

theorem SperrenHalten.switchTo (hs : s.SperrenHalten) (hgut : s.Geordnet) {frame sp : Nat}
    {target : ThreadId} (hok : s.RufDicht v target)
    (h : s.switchTo v frame target = some (sp, s')) :
    s'.SperrenHalten ∧ ∀ x, s'.current = some x → s'.Offen x := by
  obtain ⟨cur, t, hcur, ht, hcases⟩ := switchTo_spec h
  obtain ⟨cur', t', hcur', ht', hstand⟩ := stand_switchTo h
  obtain rfl : cur = cur' := Option.some.inj (hcur.symm.trans hcur')
  obtain rfl : t = t' := Option.some.inj (ht.symm.trans ht')
  obtain ⟨cur', t', hcur', ht', -, -, hdonor⟩ := scDonor_switchTo h
  obtain rfl : cur = cur' := Option.some.inj (hcur.symm.trans hcur')
  obtain rfl : t = t' := Option.some.inj (ht.symm.trans ht')
  obtain ⟨hlend, hdeliver⟩ := hok cur t hcur ht
  have hdep : ∀ x, (s'.tcb x).depleted = (s.tcb x).depleted := by
    intro x
    have hbild := blind_kontenbild.switchTo trivial trivial spendenBlind_kontenbild h
    have hx := congrArg Tcb.depleted (kontobild_of_kontenbild hbild x)
    exact hx
  have hlent : (s.tcb t).reasons.erase .ipc = ∅ → s'.Offen t := by
    intro hfree
    have hkonto : s'.konto t = s.konto cur := by
      unfold konto
      rw [hdonor, if_pos ⟨rfl, hfree⟩]
      rfl
    show (s'.tcb (s'.konto t)).depleted = false
    rw [hkonto, hdep]
    exact hlend hfree
  have hother : ∀ x, ¬ (x = t ∧ (s.tcb t).reasons.erase .ipc = ∅) →
      (s'.tcb x).scDonor = (s.tcb x).scDonor ∧ (s.Offen x → s'.Offen x) := by
    intro x hx
    have hsame := hdonor x
    rw [if_neg hx] at hsame
    refine ⟨hsame, fun hoffen => ?_⟩
    have hkonto : s'.konto x = s.konto x := congrArg (fun d => d.getD x) hsame
    show (s'.tcb (s'.konto x)).depleted = false
    rw [hkonto, hdep]
    exact hoffen
  constructor
  · intro x
    by_cases hx : x = t ∧ (s.tcb t).reasons.erase .ipc = ∅
    · obtain ⟨rfl, hfree⟩ := hx
      exact .inl (hlent hfree)
    · obtain ⟨hsame, hopen⟩ := hother x hx
      obtain ⟨hqueued, hreasons⟩ := hstand x
      rcases hs x with hoffen | hsperre
      · exact .inl (hopen hoffen)
      have hq : (s'.tcb x).queued = none := hqueued.elim (fun heq => heq.trans hsperre.1) fun hnone => hnone
      by_cases hxt : x = t
      · subst hxt
        have hheld : (s.tcb x).reasons.erase .ipc ≠ ∅ := fun hfree => hx ⟨rfl, hfree⟩
        refine (hdeliver hheld).imp hopen fun hbudget => ⟨hq, fun hne => .inr ?_⟩
        rw [hsame] at hne
        rw [hreasons, if_pos rfl]
        exact Finset.mem_erase.mpr ⟨by decide, hbudget hne⟩
      · rw [if_neg hxt] at hreasons
        refine .inr (hsperre.congr (hq.trans hsperre.1.symm) hsame ?_)
        rw [hreasons]
        split
        · exact Finset.subset_insert _ _
        · exact Finset.Subset.refl _
  · intro x hx
    obtain ⟨hqt, hrt⟩ := daten_zugestellt s cur frame t t
    rw [if_pos rfl] at hrt
    rcases hcases with ⟨hheld, hw⟩ | ⟨hfree, rfl⟩
    · obtain ⟨n, hn, rfl⟩ := wechseln_cases hw
      obtain rfl : n = x := Option.some.inj hx
      obtain ⟨l, ho⟩ := (Bewahrt.zugestellt s cur frame t).1 hgut
      obtain ⟨p, -, hq, -⟩ := ho.hoechster_eq_some hn
      rw [(daten_zugestellt s cur frame t n).1] at hq
      refine (hother n fun hand => hheld (hrt.trans hand.2)).2 ?_
      exact hs.offen_of_queued (hq ▸ Option.some_ne_none p)
    · obtain rfl : t = x := Option.some.inj hx
      exact hlent (hrt.symm.trans hfree)

/-- The thread that gives a lent account back is not queued on an exhausted one of its own. -/
def RueckgabeDicht (s : Scheduler) : Prop :=
  ∀ cur, s.current = some cur → (s.tcb cur).queued ≠ none → (s.tcb cur).depleted = false

namespace SperrenHalten

theorem doneeAustragen (hs : s.SperrenHalten) (i : Nat) : (s.doneeAustragen i).SperrenHalten := by
  unfold Scheduler.doneeAustragen
  split
  · exact hs
  · split
    · exact hs.setScDonee _ none
    · exact hs

/-- A link is cut: the thread is charged to its own account from here on. -/
theorem setScDonor_none (hs : s.SperrenHalten) (i : Nat)
    (hi : (s.tcb i).queued ≠ none → (s.tcb i).depleted = false) :
    (s.setScDonor i none).SperrenHalten := by
  have hw : Wirkt s (s.setScDonor i none) i _ := Wirkt.modifyTcb s i _
  have hdonor : ((s.setScDonor i none).tcb i).scDonor = none := by
    have hslot := congrArg Tcb.scDonor hw.slot
    exact hslot
  have hown : (s.setScDonor i none).konto i = i := by
    unfold konto
    rw [hdonor]
    rfl
  refine hs.slot hw (fun hd => hd) ?_
  by_cases hq : (s.tcb i).queued = none
  · exact .inr (Gesperrt.eigen (hw.self.queued.trans hq) hown)
  · left
    show ((s.setScDonor i none).tcb ((s.setScDonor i none).konto i)).depleted = false
    rw [hown]
    exact hw.self.depleted.trans (hi hq)

theorem endDonation (hs : s.SperrenHalten) (hok : s.RueckgabeDicht) :
    s.endDonation.SperrenHalten := by
  unfold Scheduler.endDonation
  split
  · exact hs
  · next cur hcur =>
    refine (hs.doneeAustragen cur).setScDonor_none cur fun hq => ?_
    have hsame : ∀ x, Gleichstand (s.tcb x) ((s.doneeAustragen cur).tcb x) := by
      intro x
      unfold Scheduler.doneeAustragen
      split
      · exact Gleichstand.refl _
      · split
        · refine gleichstand_modifyTcb s _ ?_ x
          exact fun _ => ⟨rfl, rfl, rfl, rfl, rfl⟩
        · exact Gleichstand.refl _
    rw [(hsame cur).queued] at hq
    rw [(hsame cur).depleted]
    exact hok cur hcur hq

theorem spendeLoesen (hs : s.SperrenHalten) {i d : Nat}
    (hi : d ≠ i → (s.tcb d).scDonor = some i → (s.tcb d).queued ≠ none →
      (s.tcb d).depleted = false) (h : spendeLoesen i s d = some s') : s'.SperrenHalten := by
  unfold Scheduler.spendeLoesen at h
  split at h
  · next hand =>
    have hcut := hs.setScDonor_none d (hi hand.1 hand.2.2)
    have hown : (s.setScDonor d none).konto d = d := by
      unfold konto setScDonor
      rw [tcb_modifyTcb, if_pos rfl]
      rfl
    dsimp only at h
    split at h
    · exact (hcut.budgetAufheben (.inr hown)).weckeFallsLauffaehig h
    · cases h
      exact hcut
  · cases h
    exact hs

end SperrenHalten

/-- No borrower of the thread in slot `i` is queued on an exhausted account of its own. -/
def EndeDicht (s : Scheduler) (i : Nat) : Prop :=
  ∀ d, d ≠ i → (s.tcb d).scDonor = some i → (s.tcb d).queued ≠ none → (s.tcb d).depleted = false

theorem wirkt_spendeLoesen {d : Nat} (h : spendeLoesen i s d = some s') : ∃ t, Wirkt s s' d t := by
  unfold spendeLoesen at h
  split at h
  · have hcut : Wirkt s (s.setScDonor d none) d _ := Wirkt.modifyTcb s d _
    dsimp only at h
    split at h
    · obtain ⟨t, hfree, -⟩ := wirkt_budgetLoesen (s.setScDonor d none) d
      obtain ⟨u, hwake⟩ := Wirkt.weckeFallsLauffaehig h
      exact ⟨u, (hcut.trans hfree).trans hwake⟩
    · cases h
      exact ⟨_, hcut⟩
  · cases h
    exact ⟨_, Wirkt.refl s d⟩

theorem EndeDicht.spendeLoesen (hok : s.EndeDicht i) {k : Nat}
    (h : spendeLoesen i s k = some s') : s'.EndeDicht i := by
  obtain ⟨t, hw⟩ := wirkt_spendeLoesen h
  have hdonor := scDonor_spendeLoesen h
  intro d hdi hd hq
  by_cases hdk : d = k
  · subst hdk
    rw [hdonor] at hd
    split at hd
    · cases hd
    · next hnot =>
      -- The slot names `i` and is not loosened, so nothing happens to it.
      unfold Scheduler.spendeLoesen at h
      split at h
      · next hand => exact absurd ⟨rfl, hand⟩ hnot
      · cases h
        exact hok d hdi hd hq
  · have hsame := hw.rest d hdk
    have hlink : (s'.tcb d).scDonor = (s.tcb d).scDonor := by
      have hslot := congrArg Tcb.scDonor hsame
      exact hslot
    rw [(hw.others d hdk).depleted]
    exact hok d hdi (hlink ▸ hd) ((hw.others d hdk).queued ▸ hq)

namespace SperrenHalten

theorem slotLeeren (hs : s.SperrenHalten) (i : Nat) : (s.slotLeeren i).SperrenHalten := by
  have hcell := tcb_slotLeeren s i
  have hw : Wirkt s (s.slotLeeren i) i Tcb.empty := by
    refine ⟨rfl, rfl, fun x hx => ?_, ?_⟩
    · unfold daten
      rw [hcell, if_neg hx]
    · unfold daten
      rw [hcell, if_pos rfl]
      rfl
  refine hs.slot hw (fun hd => nomatch hd) (.inr ?_)
  rw [hcell, if_pos rfl]
  exact Gesperrt.eigen rfl rfl

theorem recordZombie (hs : s.SperrenHalten) (hok : s.EndeDicht i)
    (h : s.recordZombie v i = some (s', v')) : s'.SperrenHalten := by
  obtain ⟨s₁, z, hrun, rfl⟩ := recordZombie_cases h
  have hstep : ∀ (t : Scheduler) (d : Nat) (t' : Scheduler), t.SperrenHalten ∧ t.EndeDicht i →
      Scheduler.spendeLoesen i t d = some t' → t'.SperrenHalten ∧ t'.EndeDicht i :=
    fun t d t' ht hd => ⟨ht.1.spendeLoesen (ht.2 d) hd, ht.2.spendeLoesen hd⟩
  have hloose := (run_invariant_of_step hstep ⟨hs, hok⟩ hrun).1
  have hgone := ((hloose.doneeAustragen i).removeFromReady i).slotLeeren i
  refine hgone.of_tcbs ?_
  unfold zombieAblegen
  split
  · rfl
  · rfl

theorem exitCurrent (hs : s.SperrenHalten) (hgut : s.Gut)
    (hok : ∀ cur, s.current = some cur → s.EndeDicht cur) {sp : Nat}
    (h : s.exitCurrent v = some (sp, s', v')) :
    s'.SperrenHalten ∧ ∀ x, s'.current = some x → s'.Offen x := by
  obtain ⟨cur, s₁, hcur, hz, hw⟩ := exitCurrent_cases h
  have hord := (geordnet_recordZombie hgut.1 (hgut.2 cur hcur) hz).1
  exact (hs.recordZombie (hok cur hcur) hz).wechseln hord hw

theorem kill (hs : s.SperrenHalten) {tid : ThreadId} {b : Bool}
    (hok : ∀ i, s.resolve v tid = some i → s.EndeDicht i)
    (h : s.kill v tid = some (b, s', v')) : s'.SperrenHalten := by
  rcases kill_cases h with rfl | ⟨i, hi, -, hz⟩
  · exact hs
  · refine (hs.removeFromReady i).recordZombie (fun d hd hlink hq => ?_) hz
    have hother := (Wirkt.removeFromReady s i).others d hd
    rw [(blind_scDonor d).removeFromReady s i] at hlink
    rw [hother.queued] at hq
    rw [hother.depleted]
    exact hok i hi d hd hlink hq

/-- A thread without a loan takes a free slot: if its account is exhausted, it is not queued,
and those that name its slot are kept from running. -/
theorem besetzt (hs : s.SperrenHalten) {i : Nat} {t : Tcb} (hb : Besetzt s s' i t)
    (ht : t.scDonor = none)
    (hi : t.depleted = true → ∀ d, (s.tcb d).scDonor = some i → Gesperrt d (s.tcb d)) :
    s'.SperrenHalten := by
  have htcb := hb.tcb
  intro x
  by_cases hx : x = i
  · subst hx
    right
    rw [htcb, if_pos rfl]
    refine Gesperrt.eigen hb.queued ?_
    rw [ht]
    rfl
  · have hself := htcb x
    rw [if_neg hx] at hself
    have hkonto : s'.konto x = s.konto x := by
      unfold konto
      rw [hself]
    unfold Offen
    rw [hkonto, hself, htcb]
    split
    · next hnew =>
      cases hdep : t.depleted with
      | false => exact .inl rfl
      | true =>
        refine .inr (hi hdep x ?_)
        unfold konto at hnew
        cases hlink : (s.tcb x).scDonor with
        | none =>
          rw [hlink] at hnew
          exact absurd hnew hx
        | some a =>
          rw [hlink] at hnew
          exact congrArg some hnew
    · exact hs x

theorem zugang (hs : s.SperrenHalten) {i : Nat} {t : Tcb} (hz : Zugang s s' i t) :
    s'.SperrenHalten ∧ s'.Offen i := by
  have hb := hz.besetzt
  obtain ⟨free, halloc, ⟨gid, gen, sp, priority, base, len, rfl⟩, rfl⟩ := hz
  refine ⟨hs.besetzt hb rfl (fun hd => nomatch hd), ?_⟩
  have hself := hb.tcb i
  rw [if_pos rfl] at hself
  have hkonto : (s.belegen i free { Tcb.neu gid gen sp priority with
      stackBase := base, stackLen := len }).konto i = i := by
    unfold konto
    rw [hself]
    rfl
  unfold Offen
  rw [hkonto, hself]
  rfl

theorem spawn (hs : s.SperrenHalten) (hgut : s.Gut) {sp base len priority : Nat}
    {r : Option ThreadId} (h : s.spawn v sp base len priority = some (r, s', v')) :
    s'.SperrenHalten := by
  rcases spawn_cases hgut h with rfl | ⟨i, t, s₁, hz, hcases⟩
  · exact hs
  · obtain ⟨hnew, hoffen⟩ := hs.zugang hz
    rcases hcases with rfl | he
    · exact hnew
    · have hadm : (s₁.setAdmitted i).SperrenHalten := by
        refine hnew.modifyTcb i ?_
        exact fun t => ⟨rfl, rfl, Finset.Subset.refl _, fun hd => hd⟩
      have hsame : (s₁.setAdmitted i).Offen i = s₁.Offen i :=
        (blind_offen i).modifyTcb s₁ i fun _ => rfl
      exact hadm.enqueueReady (hsame ▸ hoffen) he

theorem detachForMigration (hs : s.SperrenHalten) {tid : ThreadId} {m : Migrant}
    (h : s.detachForMigration v tid = some (m, s')) :
    s'.SperrenHalten ∧ m.tcb.scDonor = none ∧ (m.wasReady = true → m.tcb.depleted = false) := by
  obtain ⟨i, n, hi, rfl, rfl⟩ := detachForMigration_cases h
  have hgone := (hs.removeFromReady i).slotLeeren i
  have hlink := hi.2.2.1.1
  refine ⟨hgone.of_tcbs rfl, ((blind_scDonor i).removeFromReady s i).trans hlink, fun hready => ?_⟩
  have hoffen : s.Offen i := hs.offen_of_queued (Option.isSome_iff_ne_none.mp hready)
  unfold Offen konto at hoffen
  rw [hlink] at hoffen
  exact ((blind_depleted i).removeFromReady s i).trans hoffen

/-- Who arrives with an exhausted account takes no slot that is named by a thread that might
run. -/
theorem attachMigrated (hs : s.SperrenHalten) {m : Migrant} (hused : m.tcb.used = true)
    (hlink : m.tcb.scDonor = none) (hready : m.wasReady = true → m.tcb.depleted = false)
    (hok : m.tcb.depleted = true → ∀ i free, s.free.alloc = some (i, free) →
      ∀ d, (s.tcb d).scDonor = some i → Gesperrt d (s.tcb d))
    (h : s.attachMigrated v m = some (.ok (s', v'))) : s'.SperrenHalten := by
  obtain ⟨i, free, halloc, -, hcases⟩ := attachMigrated_aufnahme h
  have hb := besetzt_aufnehmen halloc hused
  have harrive := hs.besetzt hb hlink fun hd => hok hd i free halloc
  rcases hcases with ⟨hwas, he⟩ | ⟨-, rfl⟩
  · refine harrive.enqueueReady ?_ he
    have hself := hb.tcb i
    rw [if_pos rfl] at hself
    have hkonto : (s.aufnehmen i free (s.ankunft m.tcb)).konto i = i := by
      unfold konto
      rw [hself]
      exact congrArg (fun d => Option.getD d i) hlink
    unfold Offen
    rw [hkonto, hself]
    exact hready hwas
  · exact harrive

end SperrenHalten

end Scheduler

end Caprock.Sched
