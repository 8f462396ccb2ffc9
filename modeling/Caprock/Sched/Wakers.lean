import Caprock.Sched.Depletion
import Caprock.Sched.Eligible

/-! # Who wakes whom

Every reason not to run has its own wakers, and no other operation takes it away: blocking a
second time adds a reason, a waker removes its own.  A thread is linked again when no reason is
left.  Mostly its last reason went in that very call; but an exhausted budget is no reason, so
the owner of a refilled account is linked without losing one.  A thread that nothing holds and that
is in no list all the same is left out: it was never admitted, or a refill passed it over.
-/

namespace Caprock.Sched

open Execution

/-- Waking may take the reasons in `E`, and links the thread only when no reason is left and
`V` holds. -/
structure Loest (E : Grund → Prop) (V : Prop) (t t' : Tcb) : Prop where
  sub : t'.reasons ⊆ t.reasons
  lost : ∀ g ∈ t.reasons, g ∉ t'.reasons → E g
  link : t.queued = none → t'.queued ≠ none → t'.reasons = ∅ ∧ V

/-- Only the reasons in `E` go.  The thread is linked only if `Z` allows it as it is, or when no
reason is left, and then its last reason went or `L` accounts for it, unless `V` leaves the thread
out. -/
structure Treu (E : Grund → Prop) (Z L V : Prop) (t t' : Tcb) : Prop where
  lost : ∀ g ∈ t.reasons, g ∉ t'.reasons → E g
  link : t.queued = none → t'.queued ≠ none → Z ∨ t'.reasons = ∅ ∧ (¬ V → t.reasons ≠ ∅ ∨ L)

def Tcb.bann (t : Tcb) : BlockReasons × Option Nat := (t.reasons, t.queued)

namespace Loest

variable {E : Grund → Prop} {V : Prop} {t₀ t t' : Tcb} {g : Grund}

theorem refl (t : Tcb) : Loest E V t t :=
  ⟨Finset.Subset.refl _, fun _ hg hnot => absurd hg hnot, fun hq hne => absurd hq hne⟩

theorem still (h : Loest E V t₀ t) (hr : t'.reasons = t.reasons)
    (hq : t'.queued = t.queued ∨ t'.queued = none) : Loest E V t₀ t' := by
  refine ⟨hr ▸ h.sub, fun g hg hnot => h.lost g hg (hr ▸ hnot), fun hfree hne => ?_⟩
  rcases hq with hq | hq
  · rw [hr]
    exact h.link hfree (hq ▸ hne)
  · exact absurd hq hne

theorem gleich (h : Loest E V t₀ t) (ht : Gleichstand t t') : Loest E V t₀ t' :=
  h.still ht.reasons (.inl ht.queued)

theorem erase (h : Loest E V t₀ t) (hE : g ∈ t.reasons → E g) (hr : t'.reasons = t.reasons.erase g)
    (hq : t'.queued = t.queued) : Loest E V t₀ t' := by
  refine ⟨?_, fun e he hnot => ?_, fun hfree hne => ?_⟩
  · rw [hr]
    exact (Finset.erase_subset g t.reasons).trans h.sub
  · by_cases hin : e ∈ t.reasons
    · rw [hr, Finset.mem_erase] at hnot
      have heg : e = g := by
        by_contra hne
        exact hnot ⟨hne, hin⟩
      exact heg ▸ hE (heg ▸ hin)
    · exact h.lost e he hin
  · obtain ⟨hempty, hV⟩ := h.link hfree (hq ▸ hne)
    rw [hr, hempty]
    exact ⟨rfl, hV⟩

theorem linked (h : Loest E V t₀ t) (hr : t'.reasons = t.reasons) (hempty : t.reasons = ∅)
    (hV : V) : Loest E V t₀ t' :=
  ⟨hr ▸ h.sub, fun g hg hnot => h.lost g hg (hr ▸ hnot), fun _ _ => ⟨hr.trans hempty, hV⟩⟩

theorem treu {Z L : Prop} (h : Loest E (t₀.reasons ≠ ∅ ∨ L) t₀ t) : Treu E Z L V t₀ t :=
  ⟨h.lost, fun hq hne => .inr ((h.link hq hne).imp_right fun hwhy _ => hwhy)⟩

theorem treu_of_grund {Z L : Prop} (h : Loest E (t₀.reasons ≠ ∅) t₀ t) : Treu E Z L V t₀ t :=
  ⟨h.lost, fun hq hne => .inr ((h.link hq hne).imp_right fun hheld _ => .inl hheld)⟩

theorem mono {E' : Grund → Prop} (h : Loest E V t₀ t) (hE : ∀ g, E g → E' g) : Loest E' V t₀ t :=
  ⟨h.sub, fun g hg hnot => hE g (h.lost g hg hnot), h.link⟩

end Loest

theorem Treu.gehalten {E : Grund → Prop} {Z L V : Prop} {t t' : Tcb} (hr : t.reasons ⊆ t'.reasons)
    (hq : t'.queued = t.queued ∨ t'.queued = none) : Treu E Z L V t t' := by
  refine ⟨fun g hg hnot => absurd (hr hg) hnot, fun hfree hne => ?_⟩
  rcases hq with hq | hq
  · exact absurd (hq.trans hfree) hne
  · exact absurd hq hne

namespace Scheduler

section

variable {s s' s₁ : Scheduler} {v v' : Verzeichnis}
variable {E : Grund → Prop} {V : Prop} {t₀ : Tcb} {x i : Nat} {g : Grund}

theorem Loest.wirkt {t : Tcb} (h : Loest E V t₀ (s.tcb x)) (hw : Wirkt s s' i t)
    (hi : x = i → Loest E V t₀ t) : Loest E V t₀ (s'.tcb x) := by
  by_cases hx : x = i
  · subst hx
    exact (hi rfl).gleich hw.self
  · exact h.gleich (hw.others x hx)

theorem Loest.modifyTcb (h : Loest E V t₀ (s.tcb x)) (i : Nat) {f : Tcb → Tcb}
    (hf : ∀ t, Gleichstand t (f t)) : Loest E V t₀ ((s.modifyTcb i f).tcb x) :=
  h.gleich (gleichstand_modifyTcb s i hf x)

theorem Loest.removeReason (h : Loest E V t₀ (s.tcb x)) (hE : x = i → g ∈ (s.tcb x).reasons → E g) :
    Loest E V t₀ ((s.removeReason i g).tcb x) := by
  refine Loest.wirkt h (Wirkt.modifyTcb s i _) fun hx => ?_
  subst hx
  exact h.erase (hE rfl) rfl rfl

theorem Loest.removeFromReady (h : Loest E V t₀ (s.tcb x)) (i : Nat) :
    Loest E V t₀ ((s.removeFromReady i).tcb x) := by
  refine Loest.wirkt h (Wirkt.removeFromReady s i) fun hx => ?_
  subst hx
  exact h.still rfl (.inr rfl)

theorem Loest.enqueueReady (h : Loest E V t₀ (s.tcb x))
    (hi : x = i → (s.tcb x).reasons = ∅ ∧ V) (hw : s.enqueueReady i = some s') :
    Loest E V t₀ (s'.tcb x) := by
  obtain ⟨p, hp⟩ := Wirkt.enqueueReady hw
  refine Loest.wirkt h hp fun hx => ?_
  obtain ⟨hempty, hV⟩ := hi hx
  subst hx
  exact h.linked rfl hempty hV

theorem Loest.weckeFallsLauffaehig (h : Loest E V t₀ (s.tcb x))
    (hi : x = i → (s.tcb x).depleted = false → s.current ≠ some x → V)
    (hw : s.weckeFallsLauffaehig i = some s') : Loest E V t₀ (s'.tcb x) := by
  unfold Scheduler.weckeFallsLauffaehig at hw
  split at hw
  · next hrun =>
    refine Loest.enqueueReady h (fun hx => ?_) hw
    subst hx
    exact ⟨hrun.1, hi rfl hrun.2.1 hrun.2.2⟩
  · cases hw
    exact h

theorem Loest.budgetAufheben (h : Loest E V t₀ (s.tcb x)) (hE : x = i → E .budget) :
    Loest E V t₀ ((s.setBudgetBlocked i false).tcb x) := by
  by_cases hmem : Grund.budget ∈ (s.tcb i).reasons
  · refine Loest.wirkt h (wirkt_budgetAufheben hmem) fun hx => ?_
    subst hx
    exact h.erase (fun _ => hE rfl) rfl rfl
  · have hset : s.setBudgetBlocked i false = s := by
      unfold setBudgetBlocked
      exact if_pos (decide_eq_false hmem)
    rw [hset]
    exact h

theorem Loest.dispatch (h : Loest E V t₀ (s.tcb x)) (n : Nat) :
    Loest E V t₀ (((s.removeFromReady n).setCurrent n).tcb x) :=
  Loest.removeFromReady h n

theorem Loest.wechseln (h : Loest E V t₀ (s.tcb x)) {sp : Nat} (hw : s.wechseln = some (sp, s')) :
    Loest E V t₀ (s'.tcb x) := by
  obtain ⟨n, -, rfl⟩ := wechseln_cases hw
  exact Loest.dispatch h n

theorem blind_scDonor (x : Nat) : Blind fun s => (s.tcb x).scDonor := by
  refine .of_stand fun s s' _ htcb => ?_
  have hx := congrArg Tcb.scDonor (htcb x)
  exact hx

theorem kontenBlind_scDonor (x : Nat) : KontenBlind fun s => (s.tcb x).scDonor := by
  refine ⟨fun s i f hf => feld_modifyTcb Tcb.scDonor s i x fun t => ?_, fun _ _ _ _ _ => rfl⟩
  have ht := congrArg Tcb.scDonor (hf t)
  exact ht

theorem fristBlind_scDonor (x : Nat) : FristBlind fun s => (s.tcb x).scDonor :=
  fun s i _ _ => feld_modifyTcb Tcb.scDonor s i x fun _ => rfl

theorem Loest.budgetWecken {konto d : Nat} (h : Loest E V t₀ (s.tcb x))
    (hE : x ≠ konto → (s.tcb x).scDonor = some konto → E .budget)
    (hV : t₀.reasons ≠ ∅ → s.current ≠ some x → V) (hw : budgetWecken konto s d = some s') :
    Loest E V t₀ (s'.tcb x) := by
  unfold Scheduler.budgetWecken at hw
  split at hw
  · next hand =>
    obtain ⟨hd, -, hmem, hdonor⟩ := hand
    have hfree : Loest E V t₀ ((s.setBudgetBlocked d false).tcb x) :=
      Loest.budgetAufheben h fun hx => hE (hx ▸ hd) (hx ▸ hdonor)
    refine Loest.weckeFallsLauffaehig hfree (fun hx _ hcur => ?_) hw
    rw [(Bewahrt.setBudgetBlocked s d false).2.current] at hcur
    subst hx
    exact hV (Finset.ne_empty_of_mem (h.sub hmem)) hcur
  · cases hw
    exact h

/-- The wake scan of an account: only its borrowers lose the budget reason. -/
theorem Loest.weckelauf {konto : Nat} (h : Loest E V t₀ (s.tcb x))
    (hE : x ≠ konto → (s.tcb x).scDonor = some konto → E .budget)
    (hV : t₀.reasons ≠ ∅ → s.current ≠ some x → V) (hw : s.weckelauf konto = some s') :
    Loest E V t₀ (s'.tcb x) := by
  have hstep : ∀ (t : Scheduler) (d : Nat) (t' : Scheduler),
      Loest E V t₀ (t.tcb x) ∧ (t.tcb x).scDonor = (s.tcb x).scDonor ∧ t.current = s.current →
      Scheduler.budgetWecken konto t d = some t' →
      Loest E V t₀ (t'.tcb x) ∧ (t'.tcb x).scDonor = (s.tcb x).scDonor ∧ t'.current = s.current := by
    rintro t d t' ⟨ht, hdonor, hcur⟩ hd
    refine ⟨Loest.budgetWecken ht ?_ ?_ hd, ((blind_scDonor x).budgetWecken hd).trans hdonor,
      (Bewahrt.budgetWecken hd).2.current.trans hcur⟩
    · rw [hdonor]
      exact hE
    · rw [hcur]
      exact hV
  exact (weckelauf_invariant hstep ⟨h, rfl, rfl⟩ hw).1

theorem Loest.besitzerWecken (h : Loest E V t₀ (s.tcb x)) (hV : x = i → s.current ≠ some x → V)
    (hw : s.besitzerWecken i = some s') : Loest E V t₀ (s'.tcb x) := by
  rcases besitzerWecken_cases hw with hw | ⟨rfl, -⟩
  · exact Loest.weckeFallsLauffaehig h (fun hx _ hcur => hV hx hcur) hw
  · exact h

/-- One slot of the refill scan wakes the borrowers of a due account and its owner. -/
theorem Loest.refillSlot {k : Nat} (h : Loest E V t₀ (s.tcb x))
    (hE : s.refillFaellig k → x ≠ k → (s.tcb x).scDonor = some k → E .budget)
    (hV : t₀.reasons ≠ ∅ ∨ s.refillFaellig x → s.current ≠ some x → V)
    (hw : s.refillSlot k = some s') : Loest E V t₀ (s'.tcb x) := by
  rcases refillSlot_cases hw with ⟨hdue, s₁, hlauf, hw⟩ | ⟨-, rfl⟩
  · have hreasons : Loest E V t₀ ((s.auffuellen k).tcb x) := by
      refine Loest.wirkt h (wirkt_auffuellen s k) fun hx => ?_
      subst hx
      exact h.still rfl (.inl rfl)
    have hdonor : ((s.auffuellen k).tcb x).scDonor = (s.tcb x).scDonor :=
      (blind_scDonor x).auffuellen (kontenBlind_scDonor x) s k
    have hcur := (Bewahrt.auffuellen s k).2.current
    have hloop : Loest E V t₀ (s₁.tcb x) := by
      refine Loest.weckelauf hreasons (fun hx hd => hE hdue hx (hdonor.symm.trans hd))
        (fun hne hc => hV (.inl hne) (hcur ▸ hc)) hlauf
    refine Loest.besitzerWecken hloop (fun hx hc => hV (.inr (hx ▸ hdue)) ?_) hw
    rw [(Bewahrt.weckelauf hlauf).2.current, hcur] at hc
    exact hc
  · exact h

end

/-- The refill scan of a tick wakes the borrowers of the due accounts and their owners. -/
theorem loest_tickAnfang {s s' : Scheduler} {x : Nat} (h : s.tickAnfang true = some s') :
    Loest (fun g => g = .budget ∧ ∃ k, x ≠ k ∧ (s.tcb x).scDonor = some k ∧ s.tickFaellig k)
      (((s.tcb x).reasons ≠ ∅ ∨ s.tickFaellig x) ∧ s.current ≠ some x) (s.tcb x) (s'.tcb x) := by
  unfold tickAnfang at h
  rw [if_pos rfl] at h
  dsimp only at h
  split at h
  · let s₀ : Scheduler := { s with now := s.now + 1 }
    let E : Grund → Prop := fun g =>
      g = .budget ∧ ∃ k, x ≠ k ∧ (s.tcb x).scDonor = some k ∧ s.tickFaellig k
    let V : Prop := ((s.tcb x).reasons ≠ ∅ ∨ s.tickFaellig x) ∧ s.current ≠ some x
    -- At slot `k` the account of `x` may be full already: then `x` is not due any more.
    have hstep : ∀ (k : Nat) (t t' : Scheduler),
        (Auffuellung s₀ k t ∧ Loest E V (s.tcb x) (t.tcb x)) ∧
          ((t.tcb x).scDonor = (s.tcb x).scDonor ∧ t.current = s.current) →
        Scheduler.refillSlot t k = some t' →
        (Auffuellung s₀ (k + 1) t' ∧ Loest E V (s.tcb x) (t'.tcb x)) ∧
          ((t'.tcb x).scDonor = (s.tcb x).scDonor ∧ t'.current = s.current) := by
      rintro k t t' ⟨⟨hfill, ht⟩, hdonor, hcur⟩ hk
      refine ⟨⟨hfill.schritt hk, Loest.refillSlot ht ?_ ?_ hk⟩,
        ((blind_scDonor x).refillSlot (kontenBlind_scDonor x) hk).trans hdonor,
        (Bewahrt.refillSlot hk).2.current.trans hcur⟩
      · exact fun hdue hx hd => ⟨rfl, k, hx, hdonor.symm.trans hd, hfill.faellig.mp hdue⟩
      · rintro hwhy hc
        refine ⟨hwhy.imp_right fun hdue => ?_, hcur ▸ hc⟩
        by_cases hfull : x < k ∧ s₀.refillFaellig x
        · exact hfull.2
        · have hself := hfill.konto x
          rw [if_neg hfull] at hself
          exact (refillFaellig_congr hself hfill.now).mp hdue
    exact (run_range_invariant hstep ⟨⟨Auffuellung.start s₀, Loest.refl _⟩, rfl, rfl⟩ h).1.2
  · cases h
    exact Loest.refl _

section

variable {s s' : Scheduler} {outLen k x : Nat} {l l' : FristLauf}

/-- The deadline scan releases the thread in slot `x` from reason `g`. -/
def FristGibtFrei (s : Scheduler) (outLen x : Nat) (g : Grund) : Prop :=
  s.naechsteFrist ≤ s.now ∧ s.FristFaellig x ∧ s.faelligeVor x < outLen ∧
    (s.tcb x).fristGrund = some g

/-- The deadline scan at slot `k`, seen from slot `x`. -/
structure Fristgang (s : Scheduler) (outLen x k : Nat) (l : FristLauf) : Prop where
  now : l.sched.now = s.now
  rest : ∀ y, k ≤ y → l.sched.daten y = s.daten y
  out : l.out.length = min outLen (s.faelligeVor k)
  loest : Loest (s.FristGibtFrei outLen x) ((s.tcb x).reasons ≠ ∅) (s.tcb x) (l.sched.tcb x)
  frei : x < k → ∀ g, s.FristGibtFrei outLen x g → g ∉ (l.sched.tcb x).reasons

theorem Fristgang.schritt (h : Fristgang s outLen x k l) (hstart : s.naechsteFrist ≤ s.now)
    (hstep : fristSchritt outLen l k = some l') : Fristgang s outLen x (k + 1) l' := by
  have hown := h.rest k (Nat.le_refl k)
  have hf := fun {α : Type} (f : Tcb → α) => congrArg f hown
  have hfaellig := fristFaellig_of_daten hown h.now
  have hlen := h.out
  have hrest : ∀ y, k + 1 ≤ y → l.sched.daten y = s.daten y :=
    fun y hy => h.rest y (Nat.le_of_succ_le hy)
  -- Where slot `k` is not released, no slot loses a reason.
  have hkeep : ¬ (s.FristFaellig k ∧ l.out.length ≠ outLen) →
      (l'.sched.tcb x).reasons = (l.sched.tcb x).reasons →
      x < k + 1 → ∀ g, s.FristGibtFrei outLen x g → g ∉ (l'.sched.tcb x).reasons := by
    intro hnot hsame hx g hg
    rw [hsame]
    by_cases hxk : x = k
    · subst hxk
      have hroom := hg.2.2.1
      exact absurd ⟨hg.2.1, by omega⟩ hnot
    · exact h.frei (by omega) g hg
  rcases fristSchritt_befund hstep with
    ⟨hnot, hout, ⟨n, hsched⟩ | hsched⟩ | ⟨⟨hdue, hroom⟩, hout, g, hg, hmem, hfree⟩
  · rw [hfaellig] at hnot
    have hx : l'.sched.tcb x = l.sched.tcb x := by
      rw [hsched]
      rfl
    refine ⟨?_, ?_, hout ▸ laenge_unveraendert h.out hnot, hx ▸ h.loest,
      hkeep hnot (congrArg Tcb.reasons hx)⟩
    · rw [hsched]
      exact h.now
    · rw [hsched]
      exact hrest
  · have hdisarm : Wirkt l.sched (l.sched.fristEntwaffnen k) k _ := Wirkt.modifyTcb l.sched k _
    rw [hfaellig] at hnot
    have hx : Gleichstand (l.sched.tcb x) (l'.sched.tcb x) := by
      rw [hsched]
      refine gleichstand_modifyTcb l.sched k ?_ x
      exact fun _ => ⟨rfl, rfl, rfl, rfl, rfl⟩
    refine ⟨?_, fun y hy => ?_, hout ▸ laenge_unveraendert h.out hnot, h.loest.gleich hx,
      hkeep hnot hx.reasons⟩
    · rw [hsched]
      exact hdisarm.now.trans h.now
    · rw [hsched]
      exact (hdisarm.rest y (Nat.ne_of_gt hy)).trans (hrest y hy)
  · have hdue₀ := hfaellig.mp hdue
    have hw := wirkt_fristFreigeben hg hfree
    have hreasons := Tcb.reasons_freigegeben hg
    have hqueued := Tcb.queued_freigegeben hg
    have hgrund : (s.tcb k).fristGrund = some g := (hf Tcb.fristGrund).symm.trans hg
    refine ⟨hw.now.trans h.now, fun y hy => (hw.rest y (Nat.ne_of_gt hy)).trans (hrest y hy), ?_,
      ?_, fun hx e he => ?_⟩
    · rw [hout, faelligeVor_succ, if_pos hdue₀, List.length_append, List.length_singleton]
      omega
    · refine Loest.wirkt h.loest hw fun hx => ?_
      subst hx
      have hE : s.FristGibtFrei outLen x g := ⟨hstart, hdue₀, by omega, hgrund⟩
      rcases hqueued with hqueued | hempty
      · exact h.loest.erase (fun _ => hE) hreasons hqueued
      · have hne : (s.tcb x).reasons ≠ ∅ := Finset.ne_empty_of_mem (h.loest.sub hmem)
        have herased : Loest (s.FristGibtFrei outLen x) ((s.tcb x).reasons ≠ ∅) (s.tcb x)
            { l.sched.tcb x with reasons := (l.sched.tcb x).reasons.erase g } :=
          h.loest.erase (fun _ => hE) rfl rfl
        exact herased.linked hreasons (hreasons.symm.trans hempty) hne
    · by_cases hxk : x = k
      · subst hxk
        have heg : e = g := Option.some.inj (he.2.2.2.symm.trans hgrund)
        rw [hw.self.reasons, hreasons, heg]
        exact Finset.notMem_erase g _
      · rw [(hw.others x hxk).reasons]
        exact h.frei (by omega) e he

theorem loest_fristenFaellig {out : List ThreadId} (hgut : s.Geordnet)
    (h : s.fristenFaellig outLen = some (out, s')) (x : Nat) :
    Loest (s.FristGibtFrei outLen x) ((s.tcb x).reasons ≠ ∅) (s.tcb x) (s'.tcb x) ∧
      ∀ g, s.FristGibtFrei outLen x g → g ∉ (s'.tcb x).reasons := by
  unfold fristenFaellig at h
  split at h
  · next hearly =>
    cases h
    exact ⟨Loest.refl _, fun g hg => absurd hg.1 (Nat.not_le_of_lt hearly)⟩
  · next hstart =>
    obtain ⟨l, hrun, htuple⟩ := Option.map_eq_some_iff.mp h
    cases htuple
    have hzero : Fristgang s outLen x 0 ⟨s, 2 ^ 64 - 1, []⟩ :=
      ⟨rfl, fun _ _ => rfl, (Nat.min_zero outLen).symm, Loest.refl _,
        fun hx => absurd hx (Nat.not_lt_zero x)⟩
    have hscan : Fristgang s outLen x s.tcbs.len l := run_range_invariant
      (fun _ _ _ hl hk => Fristgang.schritt hl (Nat.le_of_not_lt hstart) hk) hzero hrun
    obtain ⟨o, ho⟩ := hgut
    exact ⟨hscan.loest, fun g hg => hscan.frei (ho.bound x hg.2.1.1) g hg⟩

end

/-- Call `a` is a waker of reason `g` of the thread in slot `x`. -/
def Weckt (s : Scheduler) (v : Verzeichnis) : Aufruf → Nat → Grund → Prop
  | .unblock tid, x, g => g = .ipc ∧ s.resolve v tid = some x
  | .switchTo _ target, x, g => g = .ipc ∧ s.resolve v target = some x
  | .unpark tid, x, g => g = .park ∧ s.resolve v tid = some x
  | .resume tid, x, g => g = .pause ∧ s.resolve v tid = some x
  | .handlerReply tid, x, g => g = .handler ∧ s.resolve v tid = some x
  | .loadReply tid, x, g => g = .load ∧ s.resolve v tid = some x
  | .debugContinue tid, x, g => g = .debug ∧ s.resolve v tid = some x
  | .debugReleasePd pdOf pd, x, g => g = .debug ∧ pdOf (s.id x) = some pd
  | .thawGroup tid, x, g => g = .freeze ∧ s.resolve v tid = some x
  | .fristenFaellig outLen, x, g => s.FristGibtFrei outLen x g
  | .onTick _ tick, x, g =>
      tick = true ∧ g = .budget ∧ ∃ k, x ≠ k ∧ (s.tcb x).scDonor = some k ∧ s.tickFaellig k
  | .setBudget tid _ _, x, g => g = .budget ∧ ∃ k, x ≠ k ∧ (s.tcb x).scDonor = some k ∧
      s.resolve v tid = some k ∧ (s.tcb k).depleted = true
  | _, _, _ => False

def LaesstZu (s : Scheduler) (v : Verzeichnis) : Aufruf → Nat → Prop
  | .admitThread tid, x => s.resolve v tid = some x
  | _, _ => False

/-- Call `a` may link the thread in slot `x` although no reason held it before: it is the
running one, or the account it owns is not exhausted any more. -/
def OhneGrund (s : Scheduler) (v : Verzeichnis) : Aufruf → Nat → Prop
  | .onTick _ tick, x => s.current = some x ∨ tick = true ∧ s.tickFaellig x
  | .setBudget tid _ _, x => s.resolve v tid = some x ∧ (s.tcb x).depleted = true
  | _, _ => False

/-- Nothing holds the thread in slot `x`, and yet it neither runs nor is in a list. -/
def Vergessen (s : Scheduler) (x : Nat) : Prop :=
  (s.tcb x).reasons = ∅ ∧ (s.tcb x).depleted = false ∧ s.current ≠ some x ∧
    (s.tcb x).queued = none

section

variable {s s' : Scheduler} {v v' : Verzeichnis} {x : Nat} {E : Grund → Prop} {Z L V : Prop}

theorem treu_of_gleich {t t' : Tcb} (h : Gleichstand t t') : Treu E Z L V t t' :=
  Treu.gehalten h.reasons.symm.subset (.inl h.queued)

theorem treu_admitThread {tid : ThreadId} {b : Bool} (h : s.admitThread v tid = some (b, s')) :
    Treu E (s.resolve v tid = some x) L V (s.tcb x) (s'.tcb x) := by
  rcases admitThread_cases h with rfl | ⟨i, hi, he⟩
  · exact treu_of_gleich (Gleichstand.refl _)
  · have hadm : Wirkt s (s.setAdmitted i) i _ := Wirkt.modifyTcb s i _
    obtain ⟨p, hp⟩ := Wirkt.enqueueReady he
    have hall := hadm.trans hp
    by_cases hx : x = i
    · subst hx
      have hreasons : (s'.tcb x).reasons = (s.tcb x).reasons :=
        hall.self.reasons.trans hadm.self.reasons
      exact ⟨fun g hg hnot => absurd (hreasons ▸ hg) hnot, fun _ _ => .inl hi⟩
    · have hother := hall.others x hx
      exact Treu.gehalten hother.reasons.symm.subset (.inl hother.queued)

theorem reasons_modifyTcb (s : Scheduler) (i x : Nat) {f : Tcb → Tcb}
    (hf : ∀ t, t.reasons ⊆ (f t).reasons ∧ (f t).queued = t.queued) :
    (s.tcb x).reasons ⊆ ((s.modifyTcb i f).tcb x).reasons ∧
      ((s.modifyTcb i f).tcb x).queued = (s.tcb x).queued := by
  rw [tcb_modifyTcb]
  split
  · next hx => exact hx ▸ hf _
  · exact ⟨Finset.Subset.refl _, rfl⟩

theorem reasons_blockieren (s : Scheduler) (cur frame : Nat) (g : Grund) (x : Nat) :
    (s.tcb x).reasons ⊆ ((s.blockieren cur frame g).tcb x).reasons ∧
      ((s.blockieren cur frame g).tcb x).queued = (s.tcb x).queued := by
  have hsp := reasons_modifyTcb s cur x (f := fun t => { t with sp := frame })
    fun t => ⟨Finset.Subset.refl _, rfl⟩
  have hins := reasons_modifyTcb (s.setSp cur frame) cur x
    (f := fun t => { t with reasons := insert g t.reasons })
    fun t => ⟨Finset.subset_insert g t.reasons, rfl⟩
  exact ⟨hsp.1.trans hins.1, hins.2.trans hsp.2⟩

theorem queued_dispatch (s : Scheduler) (n x : Nat) :
    (((s.removeFromReady n).setCurrent n).tcb x).reasons = (s.tcb x).reasons ∧
      ((((s.removeFromReady n).setCurrent n).tcb x).queued = (s.tcb x).queued ∨
        (((s.removeFromReady n).setCurrent n).tcb x).queued = none) := by
  have hrem := Wirkt.removeFromReady s n
  by_cases hx : x = n
  · subst hx
    exact ⟨hrem.self.reasons, .inr hrem.self.queued⟩
  · exact ⟨(hrem.others x hx).reasons, .inl (hrem.others x hx).queued⟩

theorem treu_blockCurrentMit {frame sp : Nat} {g : Grund}
    (h : s.blockCurrentMit frame g = some (sp, s')) : Treu E Z L V (s.tcb x) (s'.tcb x) := by
  obtain ⟨cur, -, hw⟩ := blockCurrentMit_cases h
  obtain ⟨n, -, rfl⟩ := wechseln_cases hw
  obtain ⟨hsub, hqueued⟩ := reasons_blockieren s cur frame g x
  obtain ⟨hreasons, hq⟩ := queued_dispatch (s.blockieren cur frame g) n x
  exact Treu.gehalten (hreasons ▸ hsub) (hqueued ▸ hq)

theorem treu_parkCurrent {frame : Nat} {r : Option Nat} (h : s.parkCurrent frame = some (r, s')) :
    Treu E Z L V (s.tcb x) (s'.tcb x) := by
  rcases parkCurrent_cases h with ⟨cur, -, rfl⟩ | ⟨sp, hb⟩
  · refine treu_of_gleich (gleichstand_modifyTcb s cur ?_ x)
    exact fun _ => ⟨rfl, rfl, rfl, rfl, rfl⟩
  · exact treu_blockCurrentMit hb

theorem treu_anhalten (s : Scheduler) (v : Verzeichnis) (tid : ThreadId) (g : Grund) :
    Treu E Z L V (s.tcb x) ((s.anhalten v tid g).2.tcb x) := by
  unfold anhalten
  split
  · exact treu_of_gleich (Gleichstand.refl _)
  · next i hi =>
    obtain ⟨hsub, hqueued⟩ := reasons_modifyTcb s i x
      (f := fun t => { t with reasons := insert g t.reasons })
      fun t => ⟨Finset.subset_insert g t.reasons, rfl⟩
    obtain ⟨hreasons, hq⟩ := queued_dispatch (s.insertReason i g) i x
    exact Treu.gehalten (hsub.trans hreasons.symm.subset) (hqueued ▸ hq)

theorem treu_einmalAnhalten (s : Scheduler) (v : Verzeichnis) (tid : ThreadId) (g : Grund) :
    Treu E Z L V (s.tcb x) ((s.einmalAnhalten v tid g).2.tcb x) := by
  unfold einmalAnhalten
  split
  · exact treu_of_gleich (Gleichstand.refl _)
  · split
    · exact treu_of_gleich (Gleichstand.refl _)
    · exact treu_anhalten s v tid g

theorem loest_grundAufheben {tid : ThreadId} {g : Grund} {b : Bool}
    (h : s.grundAufheben v tid g = some (b, s')) :
    Loest (fun e => e = g ∧ s.resolve v tid = some x)
      (s.resolve v tid = some x ∧ (s.tcb x).depleted = false ∧ s.current ≠ some x) (s.tcb x)
      (s'.tcb x) := by
  rcases grundAufheben_cases h with rfl | ⟨i, hi, hw⟩
  · exact Loest.refl _
  · have hremove := Loest.removeReason (x := x) (i := i) (g := g)
      (E := fun e => e = g ∧ s.resolve v tid = some x)
      (V := s.resolve v tid = some x ∧ (s.tcb x).depleted = false ∧ s.current ≠ some x)
      (Loest.refl (s.tcb x)) fun hx _ => ⟨rfl, hx ▸ hi⟩
    have hdep : ((s.removeReason i g).tcb x).depleted = (s.tcb x).depleted :=
      feld_modifyTcb Tcb.depleted s i x fun _ => rfl
    refine Loest.weckeFallsLauffaehig hremove (fun hx hfull hcur => ?_) hw
    exact ⟨hx ▸ hi, hdep.symm.trans hfull, hcur⟩

theorem treu_grundAufheben {tid : ThreadId} {g : Grund} {b : Bool}
    (h : s.grundAufheben v tid g = some (b, s')) :
    Treu (fun e => e = g ∧ s.resolve v tid = some x) Z L (s.Vergessen x) (s.tcb x) (s'.tcb x) := by
  have hall := loest_grundAufheben (x := x) h
  refine ⟨hall.lost, fun hq hne => .inr ?_⟩
  obtain ⟨hempty, -, hdep, hcur⟩ := hall.link hq hne
  refine ⟨hempty, fun hnot => .inl fun hfree => ?_⟩
  exact hnot ⟨hfree, hdep, hcur, hq⟩

theorem loest_gesetztenGrundAufheben {tid : ThreadId} {g : Grund} {b : Bool}
    (h : s.gesetztenGrundAufheben v tid g = some (b, s')) :
    Loest (fun e => e = g ∧ s.resolve v tid = some x) ((s.tcb x).reasons ≠ ∅) (s.tcb x)
      (s'.tcb x) := by
  unfold gesetztenGrundAufheben at h
  split at h
  · cases h
    exact Loest.refl _
  · next i hi =>
    split at h
    · next hmem =>
      have hall := loest_grundAufheben (x := x) h
      refine ⟨hall.sub, hall.lost, fun hq hne => ?_⟩
      obtain ⟨hempty, hx, -, -⟩ := hall.link hq hne
      obtain rfl : i = x := Option.some.inj (hi.symm.trans hx)
      exact ⟨hempty, Finset.ne_empty_of_mem hmem⟩
    · cases h
      exact Loest.refl _

theorem treu_unblock {tid : ThreadId} {b : Bool} (h : s.unblock v tid = some (b, s')) :
    Treu (fun e => e = .ipc ∧ s.resolve v tid = some x) Z L V (s.tcb x) (s'.tcb x) := by
  unfold unblock at h
  split at h
  · cases h
    exact treu_of_gleich (Gleichstand.refl _)
  · next i hi =>
    have hipc : Wirkt s (s.removeReason i .ipc) i _ := Wirkt.modifyTcb s i _
    have hremove : Loest (fun e => e = .ipc ∧ s.resolve v tid = some x) ((s.tcb x).reasons ≠ ∅ ∨ L)
        (s.tcb x) ((s.removeReason i .ipc).tcb x) :=
      Loest.removeReason (Loest.refl _) fun hx _ => ⟨rfl, hx ▸ hi⟩
    split at h
    · cases h
      exact treu_of_gleich (Gleichstand.refl _)
    · next hheld =>
      dsimp only at h
      split at h
      · cases h
        obtain ⟨t, ht, hreasons, hqueued⟩ := wirkt_budgetHalten (s.removeReason i .ipc) i
        by_cases hx : x = i
        · subst hx
          have hr := ht.self.reasons.trans hreasons
          have hq := ht.self.queued.trans (hqueued.trans hipc.self.queued)
          refine ⟨fun g hg hnot => ?_, fun hfree hne => absurd (hq.trans hfree) hne⟩
          refine hremove.lost g hg fun hin => hnot ?_
          rw [hr]
          exact Finset.mem_insert_of_mem hin
        · exact (hremove.gleich (ht.others x hx)).treu
      · split at h
        · next hfree =>
          obtain ⟨s₁, he, htuple⟩ := Option.map_eq_some_iff.mp h
          cases htuple
          refine (Loest.enqueueReady hremove (fun hx => ?_) he).treu
          subst hx
          exact ⟨hfree.1, .inl hheld⟩
        · cases h
          exact hremove.treu

theorem loest_unpark {tid : ThreadId} {b : Bool} (h : s.unpark v tid = some (b, s')) :
    Loest (fun e => e = .park ∧ s.resolve v tid = some x) ((s.tcb x).reasons ≠ ∅) (s.tcb x)
      (s'.tcb x) := by
  have hmark : ∀ (t : Scheduler) (i : Nat) (w : Bool),
      Gleichstand (t.tcb x) ((t.setParkWake i w).tcb x) := by
    intro t i w
    refine gleichstand_modifyTcb t i ?_ x
    exact fun _ => ⟨rfl, rfl, rfl, rfl, rfl⟩
  unfold unpark at h
  split at h
  · cases h
    exact Loest.refl _
  · next i hi =>
    have hset := (Loest.refl (E := fun e => e = .park ∧ s.resolve v tid = some x)
      (V := (s.tcb x).reasons ≠ ∅) (s.tcb x)).gleich (hmark s i true)
    dsimp only at h
    split at h
    · next hmem =>
      obtain ⟨s₁, hw, htuple⟩ := Option.map_eq_some_iff.mp h
      cases htuple
      have hremove := Loest.removeReason (i := i) (g := .park) (hset.gleich (hmark _ i false))
        fun hx _ => ⟨rfl, hx ▸ hi⟩
      refine Loest.weckeFallsLauffaehig hremove (fun hx _ _ => ?_) hw
      subst hx
      exact Finset.ne_empty_of_mem (hset.sub hmem)
    · cases h
      exact hset

theorem loest_debugReleasePd {pdOf : ThreadId → Option Nat} {pd n : Nat}
    (h : s.debugReleasePd pdOf pd = some (n, s')) :
    Loest (fun e => e = .debug ∧ pdOf (s.id x) = some pd) ((s.tcb x).reasons ≠ ∅) (s.tcb x)
      (s'.tcb x) := by
  have hid : Blind fun t => t.id x := by
    refine .of_stand fun t t' _ htcb => ?_
    have hx := congrArg (fun u : Tcb => (⟨u.gid, u.gen⟩ : ThreadId)) (htcb x)
    exact hx
  let E : Grund → Prop := fun e => e = .debug ∧ pdOf (s.id x) = some pd
  have hend : Loest E ((s.tcb x).reasons ≠ ∅) (s.tcb x) (s'.tcb x) ∧ s'.id x = s.id x := by
    refine debugReleasePd_invariant (P := fun t => Loest E ((s.tcb x).reasons ≠ ∅) (s.tcb x)
      (t.tcb x) ∧ t.id x = s.id x) ?_ ⟨Loest.refl _, rfl⟩ h
    rintro t i t' hheld hpd ⟨ht, hsame⟩ hw
    have hremove := Loest.removeReason (i := i) (g := .debug) ht fun hx _ => by
      subst hx
      exact ⟨rfl, hsame ▸ hpd⟩
    have hlast := hid.removeReason (g := .debug) trivial t i
    refine ⟨Loest.weckeFallsLauffaehig hremove (fun hx _ _ => ?_) hw,
      ((hid.weckeFallsLauffaehig hw).trans hlast).trans hsame⟩
    subst hx
    exact Finset.ne_empty_of_mem (ht.sub hheld.2)
  exact hend.1

/-- `switch_to` delivers the message, and runs a target that waits for nothing else on the
account of the running thread. -/
theorem switchTo_spec {frame sp : Nat} {target : ThreadId}
    (h : s.switchTo v frame target = some (sp, s')) :
    ∃ cur t, s.current = some cur ∧ s.resolve v target = some t ∧
      (((s.zugestellt cur frame t).tcb t).reasons ≠ ∅ ∧
          (s.zugestellt cur frame t).wechseln = some (sp, s') ∨
        ((s.zugestellt cur frame t).tcb t).reasons = ∅ ∧
          s' = (((s.zugestellt cur frame t).removeFromReady t).verleihen t (s.konto cur)).setCurrent t)
    := by
  unfold switchTo at h
  split at h
  · cases h
  · next cur hcur =>
    dsimp only at h
    rw [(blind_resolve v target).blockieren (g := .ipc) trivial s cur frame] at h
    split at h
    · cases h
    · next t ht =>
      refine ⟨cur, t, hcur, ht, ?_⟩
      split at h
      · next hheld => exact .inl ⟨hheld, h⟩
      · next hfree =>
        cases h
        have hkonto : ((s.zugestellt cur frame t).removeFromReady t).konto cur = s.konto cur :=
          ((blind_konto cur).removeFromReady _ t).trans ((blind_konto cur).zugestellt trivial trivial s cur frame t)
        refine .inr ⟨not_not.mp hfree, ?_⟩
        rw [← hkonto]
        rfl

/-- The running thread is held for its message; the target has its own. -/
theorem daten_zugestellt (s : Scheduler) (cur frame t x : Nat) :
    ((s.zugestellt cur frame t).tcb x).queued = (s.tcb x).queued ∧
      ((s.zugestellt cur frame t).tcb x).reasons =
        if x = t then (s.tcb x).reasons.erase .ipc
        else if x = cur then insert .ipc (s.tcb x).reasons else (s.tcb x).reasons := by
  unfold zugestellt blockieren setSp insertReason removeReason
  by_cases hxt : x = t
  · subst hxt
    by_cases hxc : x = cur
    · subst hxc
      simp only [tcb_modifyTcb, if_pos, Finset.erase_insert_eq_erase, and_self]
    · simp only [tcb_modifyTcb, if_pos, if_neg hxc, and_self]
  · by_cases hxc : x = cur
    · subst hxc
      simp only [tcb_modifyTcb, if_pos, if_neg hxt, and_self]
    · simp only [tcb_modifyTcb, if_neg hxt, if_neg hxc, and_self]

theorem stand_switchTo {frame sp : Nat} {target : ThreadId}
    (h : s.switchTo v frame target = some (sp, s')) :
    ∃ cur t, s.current = some cur ∧ s.resolve v target = some t ∧
      ∀ x, ((s'.tcb x).queued = (s.tcb x).queued ∨ (s'.tcb x).queued = none) ∧
        (s'.tcb x).reasons = if x = t then (s.tcb x).reasons.erase .ipc
          else if x = cur then insert .ipc (s.tcb x).reasons else (s.tcb x).reasons := by
  obtain ⟨cur, t, hcur, ht, hcases⟩ := switchTo_spec h
  refine ⟨cur, t, hcur, ht, fun x => ?_⟩
  obtain ⟨hqueued, hreasons⟩ := daten_zugestellt s cur frame t x
  rw [← hqueued, ← hreasons]
  rcases hcases with ⟨-, hw⟩ | ⟨-, rfl⟩
  · obtain ⟨n, -, rfl⟩ := wechseln_cases hw
    obtain ⟨hr, hq⟩ := queued_dispatch (s.zugestellt cur frame t) n x
    exact ⟨hq, hr⟩
  · have hlend := gleichstand_verleihen ((s.zugestellt cur frame t).removeFromReady t) t
      (s.konto cur) x
    obtain ⟨hr, hq⟩ := queued_dispatch (s.zugestellt cur frame t) t x
    exact ⟨hq.imp hlend.queued.trans hlend.queued.trans, hlend.reasons.trans hr⟩

theorem treu_switchTo {frame sp : Nat} {target : ThreadId}
    (h : s.switchTo v frame target = some (sp, s')) :
    Treu (fun e => e = .ipc ∧ s.resolve v target = some x) Z L V (s.tcb x) (s'.tcb x) := by
  obtain ⟨cur, t, -, ht, hend⟩ := stand_switchTo h
  obtain ⟨hqueued, hreasons⟩ := hend x
  refine ⟨fun g hg hnot => ?_, fun hfree hne => ?_⟩
  · rw [hreasons] at hnot
    split at hnot
    · next hx =>
      rw [Finset.mem_erase] at hnot
      have hipc : g = .ipc := by
        by_contra hne
        exact hnot ⟨hne, hg⟩
      exact ⟨hipc, hx ▸ ht⟩
    · split at hnot
      · exact absurd (Finset.mem_insert_of_mem hg) hnot
      · exact absurd hg hnot
  · rcases hqueued with hq | hq
    · exact absurd (hq.trans hfree) hne
    · exact absurd hq hne

theorem loest_setBudget {tid : ThreadId} {budget period : Nat} {b : Bool}
    (h : s.setBudget v tid budget period = some (b, s')) :
    Loest (fun e => e = .budget ∧ ∃ k, x ≠ k ∧ (s.tcb x).scDonor = some k ∧
        s.resolve v tid = some k ∧ (s.tcb k).depleted = true)
      ((s.tcb x).reasons ≠ ∅ ∨ s.resolve v tid = some x ∧ (s.tcb x).depleted = true) (s.tcb x)
      (s'.tcb x) := by
  rcases setBudget_cases h with ⟨-, rfl⟩ | ⟨i, hi, hcases⟩
  · exact Loest.refl _
  · have hset : Loest (fun e => e = .budget ∧ ∃ k, x ≠ k ∧ (s.tcb x).scDonor = some k ∧
          s.resolve v tid = some k ∧ (s.tcb k).depleted = true)
        ((s.tcb x).reasons ≠ ∅ ∨ s.resolve v tid = some x ∧ (s.tcb x).depleted = true) (s.tcb x)
        ((s.budgetEintragen i budget period).tcb x) := by
      rw [tcb_budgetEintragen]
      split
      · next hx =>
        subst hx
        exact (Loest.refl _).still rfl (.inl rfl)
      · exact Loest.refl _
    have hdonor : ((s.budgetEintragen i budget period).tcb x).scDonor = (s.tcb x).scDonor :=
      (blind_scDonor x).budgetEintragen (kontenBlind_scDonor x) s i budget period
    rcases hcases with ⟨hdep, s₁, hlauf, hw⟩ | ⟨-, rfl⟩
    · have hwoken := Loest.weckelauf hset
        (fun hx hd => ⟨rfl, i, hx, hdonor.symm.trans hd, hi, hdep⟩) (fun hne _ => .inl hne) hlauf
      refine Loest.weckeFallsLauffaehig hwoken (fun hx _ _ => ?_) hw
      subst hx
      exact .inr ⟨hi, hdep⟩
    · exact hset

theorem stand_erschoepfen (s : Scheduler) (a x : Nat) :
    ((s.erschoepfen a).tcb x).reasons = (s.tcb x).reasons ∧
      ((s.erschoepfen a).tcb x).queued = (s.tcb x).queued := by
  rw [tcb_erschoepfen]
  split
  · next hx => rw [hx]; exact ⟨rfl, rfl⟩
  · exact ⟨rfl, rfl⟩

/-- The charge of a tick may hold the running thread for its budget, and nobody else. -/
theorem stand_belasten (s : Scheduler) (cur : Nat) (tick : Bool) (x : Nat) :
    ((s.belasten cur tick).tcb x).queued = (s.tcb x).queued ∧
      (s.tcb x).reasons ⊆ ((s.belasten cur tick).tcb x).reasons ∧
      (x ≠ cur ∨ ¬ s.erschoepft cur tick →
        ((s.belasten cur tick).tcb x).reasons = (s.tcb x).reasons) := by
  unfold belasten
  dsimp only
  split
  · next hempty =>
    obtain ⟨hreasons, hqueued⟩ := stand_erschoepfen s (s.konto cur) x
    split
    · obtain ⟨t, ht, hr, hq⟩ := wirkt_budgetHalten (s.erschoepfen (s.konto cur)) cur
      by_cases hx : x = cur
      · subst hx
        have hins : (((s.erschoepfen (s.konto x)).setBudgetBlocked x true).tcb x).reasons =
            insert .budget (s.tcb x).reasons := by
          rw [ht.self.reasons, hr, hreasons]
        rw [hins]
        exact ⟨ht.self.queued.trans (hq.trans hqueued), Finset.subset_insert _ _,
          fun hwhy => hwhy.elim (absurd rfl) (absurd hempty)⟩
      · have hother := ht.others x hx
        rw [hother.reasons, hother.queued, hreasons, hqueued]
        exact ⟨rfl, Finset.Subset.refl _, fun _ => rfl⟩
    · rw [hreasons, hqueued]
      exact ⟨rfl, Finset.Subset.refl _, fun _ => rfl⟩
  · split
    · have hset : Gleichstand (s.tcb x) ((s.setRemaining (s.konto cur)
          ((s.tcb (s.konto cur)).remaining - 1)).tcb x) := by
        refine gleichstand_modifyTcb s _ ?_ x
        exact fun _ => ⟨rfl, rfl, rfl, rfl, rfl⟩
      rw [hset.reasons, hset.queued]
      exact ⟨rfl, Finset.Subset.refl _, fun _ => rfl⟩
    · exact ⟨rfl, Finset.Subset.refl _, fun _ => rfl⟩

/-- Only the running thread is linked again by a tick, and only without a reason. -/
theorem stand_zurueckreihen {frame : Nat} {tick : Bool} (h : s.zurueckreihen frame tick = some s')
    (x : Nat) : (s.tcb x).reasons ⊆ (s'.tcb x).reasons ∧
      ((s'.tcb x).queued = (s.tcb x).queued ∧
          (s.current ≠ some x → (s'.tcb x).reasons = (s.tcb x).reasons) ∨
        s.current = some x ∧ (s'.tcb x).reasons = ∅) := by
  unfold zurueckreihen at h
  split at h
  · cases h
    exact ⟨Finset.Subset.refl _, .inl ⟨rfl, fun _ => rfl⟩⟩
  · next cur hcur =>
    rw [hcur]
    dsimp only at h
    have hsp : Gleichstand (s.tcb x) ((s.setSp cur frame).tcb x) := by
      refine gleichstand_modifyTcb s cur ?_ x
      exact fun _ => ⟨rfl, rfl, rfl, rfl, rfl⟩
    obtain ⟨hqueued, hsub, hsame⟩ := stand_belasten (s.setSp cur frame) cur tick x
    rw [hsp.reasons] at hsub hsame
    rw [hsp.queued] at hqueued
    split at h
    · next hfree =>
      obtain ⟨p, hp⟩ := Wirkt.enqueueReady h
      have hreasons : (s'.tcb x).reasons = (s.tcb x).reasons := by
        rw [← hsame (.inr hfree.2)]
        by_cases hx : x = cur
        · subst hx
          exact hp.self.reasons
        · exact (hp.others x hx).reasons
      refine ⟨hreasons.symm.subset, ?_⟩
      by_cases hx : x = cur
      · subst hx
        exact .inr ⟨rfl, hreasons.trans (hsp.reasons.symm.trans hfree.1)⟩
      · exact .inl ⟨(hp.others x hx).queued.trans hqueued, fun _ => hreasons⟩
    · cases h
      exact ⟨hsub, .inl ⟨hqueued, fun hne => hsame (.inl fun hx => hne (hx ▸ rfl))⟩⟩

theorem treu_onTick {frame sp : Nat} {tick : Bool} (h : s.onTick frame tick = some (sp, s')) :
    Treu (fun e => tick = true ∧ e = .budget ∧
        ∃ k, x ≠ k ∧ (s.tcb x).scDonor = some k ∧ s.tickFaellig k) Z
      (s.current = some x ∨ tick = true ∧ s.tickFaellig x) V (s.tcb x) (s'.tcb x) := by
  obtain ⟨s₁, s₂, h₁, h₂, hcases⟩ := onTick_cases h
  have hcur := (Bewahrt.tickAnfang h₁).2.current
  have hstart : Loest (fun e => tick = true ∧ e = .budget ∧
        ∃ k, x ≠ k ∧ (s.tcb x).scDonor = some k ∧ s.tickFaellig k)
      (((s.tcb x).reasons ≠ ∅ ∨ tick = true ∧ s.tickFaellig x) ∧ s.current ≠ some x) (s.tcb x)
      (s₁.tcb x) := by
    cases tick with
    | true =>
      have hscan := loest_tickAnfang (x := x) h₁
      exact ⟨hscan.sub, fun g hg hnot => ⟨rfl, hscan.lost g hg hnot⟩, fun hq hne =>
        (hscan.link hq hne).imp_right (And.imp_left (Or.imp_right fun hdue => ⟨rfl, hdue⟩))⟩
    | false =>
      cases h₁
      exact Loest.refl _
  obtain ⟨hsub, hlink⟩ := stand_zurueckreihen h₂ x
  rw [hcur] at hlink
  have hend : (s'.tcb x).reasons = (s₂.tcb x).reasons ∧
      ((s'.tcb x).queued = (s₂.tcb x).queued ∨ (s'.tcb x).queued = none) := by
    rcases hcases with ⟨-, rfl⟩ | ⟨n, -, rfl⟩
    · exact ⟨rfl, .inl rfl⟩
    · exact queued_dispatch s₂ n x
  refine ⟨fun g hg hnot => ?_, fun hfree hne => .inr ?_⟩
  · rw [hend.1] at hnot
    exact hstart.lost g hg fun hin => hnot (hsub hin)
  · rw [hend.1]
    have hq₂ : (s₂.tcb x).queued ≠ none := by
      rcases hend.2 with hq | hq
      · exact hq ▸ hne
      · exact absurd hq hne
    rcases hlink with ⟨hq, hsame⟩ | ⟨hrun, hempty⟩
    · obtain ⟨hempty, hwhy, hrun⟩ := hstart.link hfree (hq ▸ hq₂)
      exact ⟨(hsame hrun).trans hempty, fun _ => hwhy.imp_right .inr⟩
    · exact ⟨hempty, fun _ => .inr (.inl hrun)⟩

theorem fristBlind_bann (x : Nat) : FristBlind fun s => (s.tcb x).bann :=
  fun s i _ _ => feld_modifyTcb Tcb.bann s i x fun _ => rfl

theorem spendenBlind_bann (x : Nat) : SpendenBlind fun s => (s.tcb x).bann where
  donor := fun s i _ => feld_modifyTcb Tcb.bann s i x fun _ => rfl
  donee := fun s i _ => feld_modifyTcb Tcb.bann s i x fun _ => rfl

theorem treu_of_bann {t t' : Tcb} (h : t'.bann = t.bann) : Treu E Z L V t t' := by
  have hpair := Prod.mk.inj h
  exact Treu.gehalten hpair.1.symm.subset (.inl hpair.2)

/-- A call takes from a thread only the reasons it wakes it from, and links it only when no
reason is left. -/
theorem treu_aufruf (hgut : s.Geordnet) {a : Aufruf} (h : s.aufruf v a = some s') (x : Nat) :
    Treu (s.Weckt v a x) (s.LaesstZu v a x) (s.OhneGrund v a x) (s.Vergessen x) (s.tcb x)
      (s'.tcb x) := by
  cases a with
  | admitThread tid =>
    obtain ⟨b, h⟩ := map_snd_eq_some h
    exact treu_admitThread h
  | blockCurrent frame | blockForHandler frame | blockForLoad frame =>
    obtain ⟨sp, h⟩ := map_snd_eq_some h
    exact treu_blockCurrentMit h
  | parkCurrent frame =>
    obtain ⟨r, h⟩ := map_snd_eq_some h
    exact treu_parkCurrent h
  | switchTo frame target =>
    obtain ⟨sp, h⟩ := map_snd_eq_some h
    exact treu_switchTo h
  | unblock tid =>
    obtain ⟨b, h⟩ := map_snd_eq_some h
    exact treu_unblock h
  | unpark tid =>
    obtain ⟨b, h⟩ := map_snd_eq_some h
    exact (loest_unpark h).treu_of_grund
  | pause tid =>
    cases h
    exact treu_anhalten s v tid .pause
  | resume tid | handlerReply tid | loadReply tid =>
    obtain ⟨b, h⟩ := map_snd_eq_some h
    exact treu_grundAufheben h
  | markHandlerWait tid =>
    cases h
    exact treu_anhalten s v tid .handler
  | debugStop tid =>
    cases h
    exact treu_einmalAnhalten s v tid .debug
  | debugContinue tid | thawGroup tid =>
    obtain ⟨b, h⟩ := map_snd_eq_some h
    exact (loest_gesetztenGrundAufheben h).treu_of_grund
  | debugReleasePd pdOf pd =>
    obtain ⟨n, h⟩ := map_snd_eq_some h
    exact (loest_debugReleasePd h).treu_of_grund
  | freezeGroup tid =>
    cases h
    exact treu_einmalAnhalten s v tid .freeze
  | fristSetzen ticks grund => exact treu_of_bann ((fristBlind_bann x).fristSetzen h)
  | fristLoeschen tid =>
    cases h
    exact treu_of_bann ((fristBlind_bann x).fristLoeschen s v tid)
  | fristenFaellig outLen =>
    obtain ⟨out, h⟩ := map_snd_eq_some h
    exact (loest_fristenFaellig hgut h x).1.treu_of_grund
  | onTick frame tick =>
    obtain ⟨sp, h⟩ := map_snd_eq_some h
    exact treu_onTick h
  | setBudget tid budget period =>
    obtain ⟨b, h⟩ := map_snd_eq_some h
    exact (loest_setBudget h).treu
  | endDonation =>
    cases h
    exact treu_of_bann ((spendenBlind_bann x).endDonation (fun _ => rfl) (fun h h' => h'.trans h) s)

theorem Loest.spendeLoesen {V : Prop} {t₀ : Tcb} {i d : Nat} (h : Loest E V t₀ (s.tcb x))
    (hE : (s.tcb x).scDonor = some i → E .budget) (hV : t₀.reasons ≠ ∅ → V)
    (hw : spendeLoesen i s d = some s') :
    Loest E V t₀ (s'.tcb x) ∧ ((s'.tcb x).scDonor = some i → (s.tcb x).scDonor = some i) := by
  have hdonor : ((s.setScDonor d none).tcb x).scDonor = some i → (s.tcb x).scDonor = some i := by
    unfold setScDonor
    rw [tcb_modifyTcb]
    split
    · exact fun hnone => nomatch hnone
    · exact fun hsame => hsame
  have hloose : Loest E V t₀ ((s.setScDonor d none).tcb x) := by
    refine Loest.modifyTcb h d ?_
    exact fun _ => ⟨rfl, rfl, rfl, rfl, rfl⟩
  unfold Scheduler.spendeLoesen at hw
  split at hw
  · next hand =>
    dsimp only at hw
    split at hw
    · next hmem =>
      have hblind := ((blind_scDonor x).weckeFallsLauffaehig hw).trans
        ((blind_scDonor x).setBudgetBlocked _ d false)
      refine ⟨?_, fun hd => hdonor (hblind.symm.trans hd)⟩
      have hfree : Loest E V t₀ (((s.setScDonor d none).setBudgetBlocked d false).tcb x) :=
        Loest.budgetAufheben hloose fun hx => hE (hx ▸ hand.2.2)
      refine Loest.weckeFallsLauffaehig hfree (fun hx _ _ => ?_) hw
      subst hx
      exact hV (Finset.ne_empty_of_mem (hloose.sub hmem))
    · cases hw
      exact ⟨hloose, hdonor⟩
  · cases hw
    exact ⟨h, fun hd => hd⟩

/-- A thread that ends wakes those that waited for its account; the others stay as they are. -/
theorem loest_recordZombie {i : Nat} (hx : x ≠ i) (h : s.recordZombie v i = some (s', v')) :
    Loest (fun e => e = .budget ∧ (s.tcb x).scDonor = some i) ((s.tcb x).reasons ≠ ∅) (s.tcb x)
        (s'.tcb x) ∧ (s'.tcb x).kennung = (s.tcb x).kennung := by
  obtain ⟨s₁, z, hrun, rfl⟩ := recordZombie_cases h
  have hclear : ((((s₁.doneeAustragen i).removeFromReady i).slotLeeren i).zombieAblegen z).tcb x =
      ((s₁.doneeAustragen i).removeFromReady i).tcb x := by
    rw [tcb_of_listengleich (listengleich_zombieAblegen _ z).1, tcb_slotLeeren, if_neg hx]
  rw [hclear]
  refine ⟨?_, (starr_kennung x).blind.abloesen (starr_kennung x).spende hrun⟩
  have hstep : ∀ (t : Scheduler) (d : Nat) (t' : Scheduler),
      Loest (fun e => e = .budget ∧ (s.tcb x).scDonor = some i) ((s.tcb x).reasons ≠ ∅) (s.tcb x)
        (t.tcb x) ∧ ((t.tcb x).scDonor = some i → (s.tcb x).scDonor = some i) →
      Scheduler.spendeLoesen i t d = some t' →
      Loest (fun e => e = .budget ∧ (s.tcb x).scDonor = some i) ((s.tcb x).reasons ≠ ∅) (s.tcb x)
        (t'.tcb x) ∧ ((t'.tcb x).scDonor = some i → (s.tcb x).scDonor = some i) := by
    rintro t d t' ⟨ht, hold⟩ hd
    obtain ⟨ht', hdonor⟩ := Loest.spendeLoesen ht (fun hi => ⟨rfl, hold hi⟩) (fun hne => hne) hd
    exact ⟨ht', fun hi => hold (hdonor hi)⟩
  have hloop := (run_invariant_of_step hstep ⟨Loest.refl _, fun hi => hi⟩ hrun).1
  have hbann := Prod.mk.inj ((spendenBlind_bann x).doneeAustragen (fun _ => rfl) s₁ i)
  exact Loest.removeFromReady (hloop.still hbann.1 (.inl hbann.2)) i

theorem used_recordZombie {i : Nat} (h : s.recordZombie v i = some (s', v')) :
    (s'.tcb i).used = false := by
  obtain ⟨s₁, z, -, rfl⟩ := recordZombie_cases h
  rw [tcb_of_listengleich (listengleich_zombieAblegen _ z).1, tcb_slotLeeren, if_pos rfl]
  rfl

end

end Scheduler

namespace System

open Scheduler

/-- Operation `op` is a waker of reason `g` of the thread in slot `x` of core `c`. -/
def Weckt (S : System) (op : Op) (c x : Nat) (g : Grund) : Prop :=
  match op with
  | .aufruf d a => d = c ∧ (S.cores c).Weckt S.verzeichnis a x g
  | .exitCurrent d => d = c ∧ g = .budget ∧ ∃ i, x ≠ i ∧ ((S.cores c).tcb x).scDonor = some i ∧
      (S.cores c).current = some i
  | .kill d tid => d = c ∧ g = .budget ∧ ∃ i, x ≠ i ∧ ((S.cores c).tcb x).scDonor = some i ∧
      (S.cores c).resolve S.verzeichnis tid = some i
  | _ => False

def LaesstZu (S : System) (op : Op) (c x : Nat) : Prop :=
  match op with
  | .aufruf d a => d = c ∧ (S.cores c).LaesstZu S.verzeichnis a x
  | _ => False

def OhneGrund (S : System) (op : Op) (c x : Nat) : Prop :=
  match op with
  | .aufruf d a => d = c ∧ (S.cores c).OhneGrund S.verzeichnis a x
  | _ => False

/-- Operation `op` ends the thread in slot `x` of core `c`. -/
def Endet (S : System) (op : Op) (c x : Nat) : Prop :=
  match op with
  | .exitCurrent d => d = c ∧ (S.cores c).current = some x
  | .kill d tid => d = c ∧ (S.cores c).resolve S.verzeichnis tid = some x
  | _ => False

def ZiehtAus (S : System) (op : Op) (c x : Nat) : Prop :=
  match op with
  | .detachForMigration d tid => d = c ∧ (S.cores c).resolve S.verzeichnis tid = some x
  | _ => False

/-- What a step makes of the thread in slot `x` of core `c`: it ends, it leaves with its
reasons, or it stays and its reasons are treated by their wakers only. -/
def Gewahrt (S : System) (op : Op) (S' : System) (c x : Nat) : Prop :=
  S.Endet op c x ∧ ((S'.cores c).tcb x).used = false ∨
  S.ZiehtAus op c x ∧ ((S'.cores c).tcb x).used = false ∧
    (∃ m, S'.migranten = S.migranten ++ [m] ∧ m.tcb.kennung = ((S.cores c).tcb x).kennung ∧
      m.tcb.reasons = ((S.cores c).tcb x).reasons) ∨
  ((S'.cores c).tcb x).kennung = ((S.cores c).tcb x).kennung ∧
    Treu (S.Weckt op c x) (S.LaesstZu op c x) (S.OhneGrund op c x) ((S.cores c).Vergessen x)
      ((S.cores c).tcb x) ((S'.cores c).tcb x)

/-- What a step makes of a thread under way: it stays under way, or a core takes it up with its
reasons. -/
def Mitgenommen (S S' : System) (m : Migrant) : Prop :=
  m ∈ S'.migranten ∨ ∃ c x, ((S.cores c).tcb x).used = false ∧
    ((S'.cores c).tcb x).kennung = m.tcb.kennung ∧ ((S'.cores c).tcb x).reasons = m.tcb.reasons

variable {S S' : System} {op : Op} {c x : Nat}

theorem Gewahrt.of_treu (h : ((S'.cores c).tcb x).kennung = ((S.cores c).tcb x).kennung)
    (ht : Treu (S.Weckt op c x) (S.LaesstZu op c x) (S.OhneGrund op c x) ((S.cores c).Vergessen x)
      ((S.cores c).tcb x) ((S'.cores c).tcb x)) : Gewahrt S op S' c x :=
  .inr (.inr ⟨h, ht⟩)

theorem Gewahrt.of_gleich (h : ((S'.cores c).tcb x).kennung = ((S.cores c).tcb x).kennung)
    (hg : Gleichstand ((S.cores c).tcb x) ((S'.cores c).tcb x)) : Gewahrt S op S' c x :=
  .of_treu h (treu_of_gleich hg)

theorem Gewahrt.of_same (h : (S'.cores c).tcb x = (S.cores c).tcb x) : Gewahrt S op S' c x := by
  refine .of_gleich (congrArg Tcb.kennung h) ?_
  rw [h]
  exact Gleichstand.refl _

theorem besetzt_other {s s' : Scheduler} {i : Nat} {t : Tcb} (hb : Besetzt s s' i t) (hs : s.Gut)
    (hx : (s.tcb x).used = true) : x ≠ i ∧ s'.tcb x = s.tcb x := by
  have hne : x ≠ i := by
    rintro rfl
    rw [hb.unused hs.1] at hx
    cases hx
  exact ⟨hne, by rw [hb.tcb, if_neg hne]⟩

/-- The running thread ends; one that waited for its account wakes. -/
theorem gewahrt_exitCurrent {sp : Nat} {v' : Verzeichnis}
    (h : (S.cores c).exitCurrent S.verzeichnis = some (sp, S'.cores c, v')) :
    Gewahrt S (.exitCurrent c) S' c x := by
  obtain ⟨cur, s₁, hcur, hz, hw⟩ := exitCurrent_cases h
  by_cases hxc : x = cur
  · subst hxc
    refine .inl ⟨⟨rfl, hcur⟩, ?_⟩
    obtain ⟨n, -, hs'⟩ := wechseln_cases hw
    rw [hs']
    exact ((Rahmen.removeFromReady s₁ n).used x).trans (used_recordZombie hz)
  · obtain ⟨hloest, hken⟩ := loest_recordZombie hxc hz
    have hall : Loest (S.Weckt (.exitCurrent c) c x) _ _ _ := (Loest.wechseln hloest hw).mono
      fun g hg => ⟨rfl, hg.1, cur, hxc, hg.2, hcur⟩
    exact .of_treu (((starr_kennung x).blind.wechseln hw).trans hken) hall.treu_of_grund

/-- A thread is killed; one that waited for its account wakes. -/
theorem gewahrt_kill {tid : ThreadId} {b : Bool} {v' : Verzeichnis}
    (h : (S.cores c).kill S.verzeichnis tid = some (b, S'.cores c, v')) :
    Gewahrt S (.kill c tid) S' c x := by
  rcases kill_cases h with heq | ⟨i, hi, -, hz⟩
  · exact .of_same (by rw [heq])
  by_cases hxi : x = i
  · subst hxi
    exact .inl ⟨⟨rfl, hi⟩, used_recordZombie hz⟩
  · obtain ⟨hloest, hken⟩ := loest_recordZombie hxi hz
    have hstart := (Wirkt.removeFromReady (S.cores c) i).others x hxi
    have hdonor := (blind_scDonor x).removeFromReady (S.cores c) i
    rw [hstart.reasons, hdonor] at hloest
    have hall : Loest (S.Weckt (.kill c tid) c x) _ _ _ := hloest.mono
      fun g hg => ⟨rfl, hg.1, i, hxi, hg.2, hi⟩
    refine .of_treu (hken.trans ((starr_kennung x).blind.removeFromReady (S.cores c) i)) ?_
    refine ⟨fun g hmem hnot => hall.lost g (hstart.reasons ▸ hmem) hnot, fun hq hne => .inr ?_⟩
    exact (hall.link (hstart.queued.trans hq) hne).imp_right fun hheld _ => .inl hheld

/-- A thread leaves the core with its reasons; the others stay. -/
theorem gewahrt_detachForMigration {tid : ThreadId} {m : Migrant}
    (h : (S.cores c).detachForMigration S.verzeichnis tid = some (m, S'.cores c))
    (hms : S'.migranten = S.migranten ++ [m]) : Gewahrt S (.detachForMigration c tid) S' c x := by
  obtain ⟨i, n, ⟨hi, -⟩, hs', rfl⟩ := detachForMigration_cases h
  have hslot : (S'.cores c).tcb x =
      if x = i then Tcb.empty else ((S.cores c).removeFromReady i).tcb x := by
    rw [hs']
    exact tcb_slotLeeren ((S.cores c).removeFromReady i) i x
  by_cases hxi : x = i
  · subst hxi
    rw [if_pos rfl] at hslot
    exact .inr (.inl ⟨⟨rfl, hi⟩, congrArg Tcb.used hslot, _, hms,
      (starr_kennung x).blind.removeFromReady (S.cores c) x,
      (Wirkt.removeFromReady (S.cores c) x).self.reasons⟩)
  · rw [if_neg hxi] at hslot
    refine .of_gleich ?_ ?_
    · exact (congrArg Tcb.kennung hslot).trans
        ((starr_kennung x).blind.removeFromReady (S.cores c) i)
    · exact hslot ▸ (Wirkt.removeFromReady (S.cores c) i).others x hxi

theorem step_gewahrt (hgut : S.Gut) (hstep : S.step op = some S')
    (hx : ((S.cores c).tcb x).used = true) : Gewahrt S op S' c x := by
  rcases step_kern hstep with ⟨hcores, -⟩ | ⟨d, s, hcores, hk⟩
  · exact .of_same (by rw [hcores])
  by_cases hd : c = d
  · subst hd
    have hg := hgut.1 c
    obtain rfl : S'.cores c = s := by rw [hcores, Function.update_self]
    have hnew : ∀ {s₁ : Scheduler} {i : Nat} {t : Tcb}, Besetzt (S.cores c) s₁ i t →
        x ≠ i ∧ s₁.tcb x = (S.cores c).tcb x := fun hb => besetzt_other hb hg hx
    have hlinked : ∀ {s₁ : Scheduler} {i : Nat}, x ≠ i → s₁.tcb x = (S.cores c).tcb x →
        s₁.enqueueReady i = some (S'.cores c) → Gewahrt S op S' c x := by
      intro s₁ i hne heq he
      obtain ⟨p, hp⟩ := Wirkt.enqueueReady he
      have hother := hp.others x hne
      have hken := (starr_kennung x).blind.enqueueReady he
      rw [heq] at hother hken
      exact .of_gleich hken hother
    generalize hms : S'.migranten = ms' at hk
    generalize hs' : S'.cores c = s' at hk
    cases hk with
    | aufruf h =>
      have htreu := treu_aufruf hg.1 h x
      rw [← hs'] at h htreu
      refine .of_treu ((starr_kennung x).aufruf h) ⟨?_, ?_⟩
      · exact fun g hmem hnot => ⟨rfl, htreu.lost g hmem hnot⟩
      · exact fun hq hne => (htreu.link hq hne).imp (fun hz => ⟨rfl, hz⟩)
          (And.imp_right fun hwhy hnot => (hwhy hnot).imp_right fun hl => ⟨rfl, hl⟩)
    | initCore h =>
      obtain ⟨t, s₁, hz, rfl⟩ := initCore_cases h
      exact .of_same (hs' ▸ (hnew hz.besetzt).2)
    | spawnParked hop h =>
      obtain ⟨t, hz, -⟩ := spawnParked_cases h
      exact .of_same (hs' ▸ (hnew hz.besetzt).2)
    | spawn h =>
      rcases spawn_cases hg h with rfl | ⟨i, t, s₁, hz, hcases⟩
      · exact .of_same (by rw [hs'])
      · obtain ⟨hne, heq⟩ := hnew hz.besetzt
        rcases hcases with rfl | he
        · exact .of_same (hs' ▸ heq)
        · refine hlinked hne ?_ (hs' ▸ he)
          unfold setAdmitted
          rw [tcb_modifyTcb, if_neg hne]
          exact heq
    | exitCurrent h => exact gewahrt_exitCurrent (hs' ▸ h)
    | kill h => exact gewahrt_kill (hs' ▸ h)
    | reap h =>
      obtain ⟨-, -, rfl⟩ := reap_eq_some h
      exact .of_same (by rw [hs']; rfl)
    | detachForMigration h => exact gewahrt_detachForMigration (hs' ▸ h) hms
    | attachMigrated hm h =>
      obtain ⟨i, free, halloc, -, hcases⟩ := attachMigrated_aufnahme h
      obtain ⟨hne, heq⟩ := hnew (besetzt_aufnehmen halloc (hgut.2 _ (List.mem_of_getElem? hm)))
      rcases hcases with ⟨-, he⟩ | ⟨-, rfl⟩
      · exact hlinked hne heq (hs' ▸ he)
      · exact .of_same (hs' ▸ heq)
  · exact .of_same (by rw [hcores, Function.update_of_ne hd])

theorem step_mitgenommen (hgut : S.Gut) (hstep : S.step op = some S') {m : Migrant}
    (hm : m ∈ S.migranten) : Mitgenommen S S' m := by
  rcases step_kern hstep with ⟨-, hms, -⟩ | ⟨c, s, hcores, hk⟩
  · exact .inl (hms ▸ hm)
  have hcore : S'.cores c = s := by rw [hcores, Function.update_self]
  generalize hms : S'.migranten = ms' at hk
  cases hk with
  | detachForMigration h => exact .inl (hms ▸ List.mem_append_left _ hm)
  | attachMigrated hk h =>
    rename_i k m' v'
    by_cases hsame : m = m'
    · subst hsame
      obtain ⟨i, free, halloc, -, hcases⟩ := attachMigrated_aufnahme h
      have hb := besetzt_aufnehmen halloc (hgut.2 m hm)
      have hself : ((S.cores c).aufnehmen i free ((S.cores c).ankunft m.tcb)).tcb i =
          (S.cores c).ankunft m.tcb := by rw [hb.tcb, if_pos rfl]
      refine .inr ⟨c, i, hb.unused (hgut.1 c).1, ?_⟩
      rw [hcore]
      rcases hcases with ⟨-, he⟩ | ⟨-, rfl⟩
      · obtain ⟨p, hp⟩ := Wirkt.enqueueReady he
        rw [hp.self.reasons, (starr_kennung i).blind.enqueueReady he, hself]
        exact ⟨rfl, rfl⟩
      · rw [hself]
        exact ⟨rfl, rfl⟩
    · refine .inl (hms ▸ ?_)
      obtain ⟨j, hj⟩ := List.mem_iff_getElem?.mp hm
      rw [List.mem_eraseIdx_iff_getElem?]
      refine ⟨j, ?_, hj⟩
      rintro rfl
      exact hsame (Option.some.inj (hj.symm.trans hk))
  | _ => exact .inl (hms ▸ hm)

/-- Over every run each reason of a thread goes only by a waker of that reason, and a thread is
linked only when no reason is left; where none went in that step, the step is an admission, the
tick that preempts the thread, or the refill or the new budget of its exhausted account.  Forgotten
threads are left out; where no scan passes over an owner, they are those still to be admitted. -/
theorem run_gewahrt (a : Ausbau) (ops : List Op) (S : System)
    (hrun : run step (init a) ops = some S) (op : Op) (S' : System) (hstep : S.step op = some S') :
    (∀ c x, ((S.cores c).tcb x).used = true → Gewahrt S op S' c x) ∧
      (∀ m ∈ S.migranten, Mitgenommen S S' m) ∧
      (Admissible step Ordentlich (init a) ops → ∀ c x, ((S.cores c).tcb x).used = true →
        ((S.cores c).tcb x).admitted = true ∨ S.idle c = some x → ¬ (S.cores c).Vergessen x) := by
  have hgut := run_gut hrun
  refine ⟨fun _ _ hx => step_gewahrt hgut hstep hx, fun _ hm => step_mitgenommen hgut hstep hm, ?_⟩
  rintro hops c x hused hadm ⟨hfree, hfull, hcur, hqueued⟩
  rcases (run_vermerkt hops hrun).1.core c x trivial hused hfree hfull hadm with hruns | hlinked
  · exact hcur hruns
  · exact hlinked hqueued

/-- Three threads take turns; the second has one tick of budget for each period of one. -/
def einTickJePeriode : List Op :=
  [Op.initCore 0 0, Op.spawn 0 100 0 16 1, Op.spawn 0 200 0 16 1, Op.spawn 0 300 0 16 1,
    Op.aufruf 0 (.setBudget ⟨2, 0⟩ 1 1), Op.aufruf 0 (.onTick 0 true),
    Op.aufruf 0 (.onTick 0 true), Op.aufruf 0 (.onTick 0 true)]

/-- It has used its budget up and no reason holds it: the next tick links it, and no reason
disappears. -/
theorem refill_links_without_reason :
    ¬ ∀ ops S S', run step (init ⟨4, 4, by decide⟩) ops = some S →
      S.step (.aufruf 0 (.onTick 0 true)) = some S' → ∀ x, (S.cores 0).current ≠ some x →
        ((S.cores 0).tcb x).queued = none → ((S'.cores 0).tcb x).queued ≠ none →
          ((S.cores 0).tcb x).reasons ≠ ∅ := by
  have hread : (run step (init ⟨4, 4, by decide⟩) einTickJePeriode).map
      (fun S => ((S.cores 0).current, ((S.cores 0).tcb 2).queued,
        decide (((S.cores 0).tcb 2).reasons = ∅),
        (S.step (.aufruf 0 (.onTick 0 true))).map fun S' => ((S'.cores 0).tcb 2).queued)) =
      some (some 3, none, true, some (some 1)) := by
    decide +kernel
  obtain ⟨S, hS, heq⟩ := Option.map_eq_some_iff.mp hread
  simp only [Prod.mk.injEq] at heq
  obtain ⟨hcur, hbefore, hempty, hstep⟩ := heq
  obtain ⟨S', hS', hafter⟩ := Option.map_eq_some_iff.mp hstep
  intro hall
  refine hall _ S S' hS hS' 2 ?_ hbefore ?_ (of_decide_eq_true hempty)
  · rw [hcur]
    decide
  · rw [hafter]
    exact Option.some_ne_none 1

/-- The law for that tick. -/
theorem run_gewahrt_refill :
    ∃ S S', run step (init ⟨4, 4, by decide⟩) einTickJePeriode = some S ∧
      S.step (.aufruf 0 (.onTick 0 true)) = some S' ∧
      (∀ c x, ((S.cores c).tcb x).used = true →
        Gewahrt S (.aufruf 0 (.onTick 0 true)) S' c x) ∧
      (∀ m ∈ S.migranten, Mitgenommen S S' m) ∧
      ∀ c x, ((S.cores c).tcb x).used = true →
        ((S.cores c).tcb x).admitted = true ∨ S.idle c = some x → ¬ (S.cores c).Vergessen x := by
  have hread : ((run step (init ⟨4, 4, by decide⟩) einTickJePeriode).bind fun S =>
      S.step (.aufruf 0 (.onTick 0 true))).isSome = true := by
    decide +kernel
  have hops : Admissible step Unerschoepft (init ⟨4, 4, by decide⟩) einTickJePeriode := by
    decide +kernel
  obtain ⟨S', hS'⟩ := Option.isSome_iff_exists.mp hread
  obtain ⟨S, hS, hstep⟩ := Option.bind_eq_some_iff.mp hS'
  obtain ⟨hgewahrt, hmit, hnoch⟩ := run_gewahrt _ _ S hS _ S' hstep
  exact ⟨S, S', hS, hstep, hgewahrt, hmit, hnoch (hops.mono fun _ _ hok => hok.ordentlich)⟩

end System

end Caprock.Sched
