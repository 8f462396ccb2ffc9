import Caprock.Sched.Pointwise

/-! # One slot of the deadline scan

A deadline is due when it is armed and the clock has reached it.  The scan releases a thread
whose due deadline guards a reason that still stands, disarms a due deadline whose reason is
gone, and leaves all other threads alone.
-/

namespace Caprock.Sched

namespace Tcb

variable {now : Nat} {t t' : Tcb} {g : Grund}

/-- Armed, and due. -/
def Faellig (now : Nat) (t : Tcb) : Prop := t.used = true ∧ t.frist ≠ 0 ∧ t.frist ≤ now

instance (now : Nat) (t : Tcb) : Decidable (t.Faellig now) :=
  inferInstanceAs (Decidable (_ ∧ _ ∧ _))

def entwaffnet (t : Tcb) : Tcb := { t with frist := 0, fristGrund := none }

/-- Without deadline and without the reason it guarded; linked if no reason is left. -/
def freigegeben (t : Tcb) : Tcb :=
  let rest := t.fristGrund.elim t.reasons t.reasons.erase
  { t.entwaffnet with
    reasons := rest
    queued := if rest = ∅ ∧ t.queued = none then some t.priority else t.queued }

theorem reasons_freigegeben (hg : t.fristGrund = some g) :
    t.freigegeben.reasons = t.reasons.erase g := by
  simp only [freigegeben, hg, Option.elim_some]

theorem freigegeben_of_free (hg : t.fristGrund = some g)
    (h : t.reasons.erase g = ∅ ∧ t.queued = none) : t.freigegeben =
      { t.entwaffnet with reasons := t.reasons.erase g, queued := some t.priority } := by
  simp only [freigegeben, hg, Option.elim_some]
  rw [if_pos h]

theorem freigegeben_of_held (hg : t.fristGrund = some g)
    (h : ¬ (t.reasons.erase g = ∅ ∧ t.queued = none)) : t.freigegeben =
      { t.entwaffnet with reasons := t.reasons.erase g } := by
  simp only [freigegeben, hg, Option.elim_some]
  rw [if_neg h]
  rfl

theorem queued_freigegeben (hg : t.fristGrund = some g) :
    t.freigegeben.queued = t.queued ∨ t.freigegeben.reasons = ∅ := by
  by_cases h : t.reasons.erase g = ∅ ∧ t.queued = none
  · exact .inr ((reasons_freigegeben hg).trans h.1)
  · rw [freigegeben_of_held hg h]
    exact .inl rfl

theorem faellig_of_links (h : t'.ohneLinks = t.ohneLinks) : t'.Faellig now ↔ t.Faellig now := by
  have hf := fun {α : Type} (f : Tcb → α) => congrArg f h
  have hused : t'.used = t.used := hf Tcb.used
  have hfrist : t'.frist = t.frist := hf Tcb.frist
  unfold Faellig
  rw [hused, hfrist]

end Tcb

namespace Scheduler

variable {s s' : Scheduler}

/-- The deadline of slot `i` is due and its reason still stands. -/
def FristFaellig (s : Scheduler) (i : Nat) : Prop :=
  (s.tcb i).used = true ∧ (s.tcb i).frist ≠ 0 ∧ (s.tcb i).frist ≤ s.now ∧
    (s.tcb i).fristGrundSteht = true

instance (s : Scheduler) (i : Nat) : Decidable (s.FristFaellig i) :=
  inferInstanceAs (Decidable ((s.tcb i).used = true ∧ (s.tcb i).frist ≠ 0 ∧
    (s.tcb i).frist ≤ s.now ∧ (s.tcb i).fristGrundSteht = true))

theorem fristFaellig_iff {i : Nat} : s.FristFaellig i ↔
    (s.tcb i).Faellig s.now ∧ (s.tcb i).fristGrundSteht = true := by
  unfold FristFaellig Tcb.Faellig
  rw [and_assoc, and_assoc]

/-- The number of due deadlines in the slots below `i`. -/
def faelligeVor (s : Scheduler) (i : Nat) : Nat :=
  (List.range i).countP fun j => decide (s.FristFaellig j)

theorem faelligeVor_succ (s : Scheduler) (k : Nat) :
    s.faelligeVor (k + 1) = s.faelligeVor k + if s.FristFaellig k then 1 else 0 := by
  unfold faelligeVor
  rw [List.range_succ, List.countP_append, List.countP_singleton]
  simp only [decide_eq_true_eq]

theorem fristFaellig_of_daten {s₀ : Scheduler} {k : Nat} (hd : s.daten k = s₀.daten k)
    (hnow : s.now = s₀.now) : s.FristFaellig k ↔ s₀.FristFaellig k := by
  have hf := fun {α : Type} (f : Tcb → α) => congrArg f hd
  have hused : (s.tcb k).used = (s₀.tcb k).used := hf Tcb.used
  have hfrist : (s.tcb k).frist = (s₀.tcb k).frist := hf Tcb.frist
  have hsteht : (s.tcb k).fristGrundSteht = (s₀.tcb k).fristGrundSteht := hf Tcb.fristGrundSteht
  unfold FristFaellig
  rw [hused, hfrist, hsteht, hnow]

/-- The thread is released from reason `g`, which its deadline guards. -/
theorem wirkt_fristFreigeben {i : Nat} {g : Grund} (hg : (s.tcb i).fristGrund = some g)
    (h : s.fristFreigeben i g = some s') : Wirkt s s' i (s.tcb i).freigegeben := by
  have hblock : ((s.fristEntwaffnen i).removeReason i g).tcb i =
      { (s.tcb i).entwaffnet with reasons := (s.tcb i).reasons.erase g } := by
    unfold fristEntwaffnen setFrist removeReason
    rw [tcb_modifyTcb, if_pos rfl, tcb_modifyTcb, if_pos rfl]
    rfl
  have hfree : Wirkt s ((s.fristEntwaffnen i).removeReason i g) i
      { (s.tcb i).entwaffnet with reasons := (s.tcb i).reasons.erase g } := by
    have hboth : Wirkt s ((s.fristEntwaffnen i).removeReason i g) i _ :=
      (Wirkt.modifyTcb s i _).trans (Wirkt.modifyTcb _ i _)
    exact ⟨hboth.current, hboth.now, hboth.rest, congrArg Tcb.ohneLinks hblock⟩
  unfold fristFreigeben at h
  dsimp only at h
  rw [hblock] at h
  split at h
  · next hlink =>
    rcases enqueueReady_cases h with ⟨-, hqueued⟩ | ⟨p, he⟩
    · rw [hblock] at hqueued
      exact absurd hlink.2 hqueued
    · have hlinked := Wirkt.of_daten he.rest he.daten
      have hprio := he.prio
      rw [hblock] at hlinked hprio
      have hall := hfree.trans hlinked
      refine ⟨hall.current, hall.now, hall.rest, hall.slot.trans ?_⟩
      rw [Tcb.freigegeben_of_free hg hlink, ← hprio]
      rfl
  · next hstay =>
    cases h
    refine ⟨hfree.current, hfree.now, hfree.rest, hfree.slot.trans ?_⟩
    rw [Tcb.freigegeben_of_held hg hstay]

/-- The scan leaves slot `k` alone if its deadline is not due or the output is full.  Else it
disarms the deadline if its reason is gone, and releases the thread if it stands. -/
theorem fristSchritt_cases {outLen k : Nat} {l l' : FristLauf}
    (h : fristSchritt outLen l k = some l') :
    ((¬ (l.sched.tcb k).Faellig l.sched.now ∨ l.out.length = outLen) ∧ l'.out = l.out ∧
      ∃ n, l'.sched = { l.sched with fristenUeberlauf := n }) ∨
    (((l.sched.tcb k).Faellig l.sched.now ∧ (l.sched.tcb k).fristGrundSteht = false ∧
        l.out.length ≠ outLen) ∧ l'.out = l.out ∧ l'.sched = l.sched.fristEntwaffnen k) ∨
    ((l.sched.FristFaellig k ∧ l.out.length ≠ outLen) ∧ l'.out = l.out ++ [l.sched.id k] ∧
      ∃ g, (l.sched.tcb k).fristGrund = some g ∧ g ∈ (l.sched.tcb k).reasons ∧
        l.sched.fristFreigeben k g = some l'.sched) := by
  unfold fristSchritt at h
  dsimp only at h
  split at h
  · next hidle =>
    cases h
    refine .inl ⟨.inl fun hdue => ?_, rfl, l.sched.fristenUeberlauf, rfl⟩
    rcases hidle with hused | hfrist
    · exact absurd (hused.symm.trans hdue.1) Bool.false_ne_true
    · exact hdue.2.1 hfrist
  · next hactive =>
    rw [not_or] at hactive
    have hspec := fristBefund_spec l.sched.now (l.sched.tcb k).frist
      (l.sched.tcb k).fristGrundSteht (decide (l.out.length = outLen))
    have hdue : (l.sched.tcb k).frist ≤ l.sched.now → (l.sched.tcb k).Faellig l.sched.now :=
      fun hle => ⟨Bool.eq_true_of_not_eq_false hactive.1, hactive.2, hle⟩
    split at h
    · next heq =>
      rw [heq] at hspec
      cases h
      exact .inl ⟨.inl fun hdue => absurd hdue.2.2 (Nat.not_le_of_lt hspec), rfl,
        l.sched.fristenUeberlauf, rfl⟩
    · next heq =>
      rw [heq] at hspec
      cases h
      exact .inl ⟨.inr (of_decide_eq_true hspec.2), rfl, _, rfl⟩
    · next heq =>
      rw [heq] at hspec
      cases h
      obtain ⟨hle, hroom, hgone⟩ := hspec
      exact .inr (.inl ⟨⟨hdue hle, hgone, of_decide_eq_false hroom⟩, rfl, rfl⟩)
    · next heq =>
      rw [heq] at hspec
      obtain ⟨hle, hroom, hsteht⟩ := hspec
      have hripe : l.sched.FristFaellig k := fristFaellig_iff.mpr ⟨hdue hle, hsteht⟩
      unfold Tcb.fristGrundSteht at hsteht
      split at h
      · next hnone =>
        rw [hnone] at hsteht
        cases hsteht
      · next g hg =>
        rw [hg] at hsteht
        obtain ⟨s₁, hf, rfl⟩ := Option.map_eq_some_iff.mp h
        exact .inr (.inr ⟨⟨hripe, of_decide_eq_false hroom⟩, rfl, g, hg,
          of_decide_eq_true hsteht, hf⟩)

end Scheduler

end Caprock.Sched
