import Mathlib.Algebra.Group.Nat.Defs
import Caprock.Sched.Blockwise
import Caprock.Sched.Scan

/-! # What the operations do to a deadline

A thread has one deadline, which guards one blocking reason.  Only the blocking calls put a
thread to wait for a message or an unpark, and only `frist_setzen` arms a deadline.  All
other operations are mild: a deadline that is armed afterwards was armed before, guards the
same reason, and the thread waits for nothing new (`Sanft`).  The deadline scan ends a wait
only where an armed deadline guards it (`Abgelaufen`).
-/

namespace Caprock.Sched

open Execution

/-- The reasons a deadline may guard. -/
def Grund.Wartegrund (g : Grund) : Prop := g = .ipc ∨ g = .park

instance (g : Grund) : Decidable g.Wartegrund := inferInstanceAs (Decidable (_ ∨ _))

/-- A deadline that is armed in `t'` was armed in `t`, and the thread waits for nothing new. -/
def Sanft (t t' : Tcb) : Prop :=
  t'.frist ≠ 0 → t'.frist = t.frist ∧ t'.fristGrund = t.fristGrund ∧
    ∀ g : Grund, g.Wartegrund → g ∈ t'.reasons → g ∈ t.reasons

namespace Sanft

variable {t t' t'' : Tcb}

theorem gelockert (hfrist : t'.frist = t.frist) (hgrund : t'.fristGrund = t.fristGrund)
    (hreasons : t'.reasons ⊆ t.reasons) : Sanft t t' :=
  fun _ => ⟨hfrist, hgrund, fun _ _ hg => hreasons hg⟩

theorem gleich (hfrist : t'.frist = t.frist) (hgrund : t'.fristGrund = t.fristGrund)
    (hreasons : t'.reasons = t.reasons) : Sanft t t' :=
  gelockert hfrist hgrund (hreasons ▸ Finset.Subset.refl _)

theorem refl (t : Tcb) : Sanft t t := gleich rfl rfl rfl

theorem trans (h : Sanft t t') (h' : Sanft t' t'') : Sanft t t'' := by
  intro hne
  obtain ⟨hfrist', hgrund', hreasons'⟩ := h' hne
  obtain ⟨hfrist, hgrund, hreasons⟩ := h (hfrist' ▸ hne)
  exact ⟨hfrist'.trans hfrist, hgrund'.trans hgrund,
    fun g hg hmem => hreasons g hg (hreasons' g hg hmem)⟩

theorem entwaffnet (hfrist : t'.frist = 0) : Sanft t t' := fun hne => absurd hfrist hne

theorem gehalten {g : Grund} (hg : ¬ g.Wartegrund) (hfrist : t'.frist = t.frist)
    (hgrund : t'.fristGrund = t.fristGrund) (hreasons : t'.reasons = insert g t.reasons) :
    Sanft t t' := by
  refine fun _ => ⟨hfrist, hgrund, fun g' hg' hmem => ?_⟩
  rw [hreasons, Finset.mem_insert] at hmem
  rcases hmem with rfl | hmem
  · exact absurd hg' hg
  · exact hmem

end Sanft

theorem duldsam_sanft : Duldsam Sanft (fun g => ¬ g.Wartegrund) fun _ => True where
  trans := Sanft.trans
  neben := by
    intro t t' _ hwarten
    simp only [Tcb.warten, Prod.mk.injEq] at hwarten
    exact Sanft.gleich hwarten.2.1 hwarten.2.2.1 hwarten.1
  setzen := fun hg => Sanft.gehalten hg rfl rfl rfl
  loesen := fun _ => Sanft.gelockert rfl rfl (Finset.erase_subset _ _)

def Tcb.fristdaten (t : Tcb) : Nat × Nat × Nat × Option Grund × BlockReasons :=
  (t.gid, t.gen, t.frist, t.fristGrund, t.reasons)

namespace Scheduler

/-- Every slot changes mildly. -/
def Milde (s s' : Scheduler) : Prop := ∀ x, Sanft (s.tcb x) (s'.tcb x)

theorem duldet_sanft : Duldet Milde (fun g => ¬ g.Wartegrund) fun _ => True :=
  duldsam_sanft.duldet (by decide) trivial

namespace Milde

variable {s s' s'' : Scheduler} {v v' : Verzeichnis}

theorem refl (s : Scheduler) : Milde s s := duldsam_sanft.refl s

theorem trans (h : Milde s s') (h' : Milde s' s'') : Milde s s'' := duldsam_sanft.weiter h h'

theorem of_tcbs (h : s'.tcbs = s.tcbs) : Milde s s' := duldsam_sanft.of_tcbs h

theorem modifyTcb (s : Scheduler) (i : Nat) {f : Tcb → Tcb} (hf : ∀ t, Sanft t (f t)) :
    Milde s (s.modifyTcb i f) :=
  duldsam_sanft.modifyTcb s i hf

theorem setParkWake (s : Scheduler) (i : Nat) (w : Bool) : Milde s (s.setParkWake i w) :=
  modifyTcb s i fun _ => Sanft.gleich rfl rfl rfl

theorem fristEntwaffnen (s : Scheduler) (i : Nat) : Milde s (s.fristEntwaffnen i) :=
  modifyTcb s i fun _ => Sanft.entwaffnet rfl

theorem fristLoeschen (s : Scheduler) (v : Verzeichnis) (tid : ThreadId) :
    Milde s (s.fristLoeschen v tid) := by
  unfold Scheduler.fristLoeschen
  split
  · exact refl s
  · next i hi => exact fristEntwaffnen s i

theorem slotLeeren (s : Scheduler) (i : Nat) : Milde s (s.slotLeeren i) := by
  intro x
  rw [tcb_slotLeeren]
  split
  · exact Sanft.entwaffnet rfl
  · exact Sanft.refl _

theorem of_ende {i : Nat} (hempty : (s'.tcb i).frist = 0)
    (hrest : ∀ x, x ≠ i → Sanft (s.tcb x) (s'.tcb x)) : Milde s s' := by
  intro x
  by_cases hx : x = i
  · exact hx ▸ Sanft.entwaffnet hempty
  · exact hrest x hx

theorem exitCurrent {sp : Nat} (h : s.exitCurrent v = some (sp, s', v')) : Milde s s' := by
  obtain ⟨cur, -, hempty, hrest⟩ := duldsam_sanft.exitCurrent (by decide) trivial h
  refine of_ende (i := cur) ?_ hrest
  by_contra hne
  exact hne (hempty hne).1

theorem kill {tid : ThreadId} {b : Bool} (h : s.kill v tid = some (b, s', v')) : Milde s s' := by
  obtain rfl | ⟨i, hempty, hrest⟩ := duldsam_sanft.kill (by decide) trivial h
  · exact refl s'
  · exact of_ende (congrArg Tcb.frist hempty) hrest

theorem reap {z : Zombie} (h : s.reap = some (z, s')) : Milde s s' := by
  obtain ⟨-, -, rfl⟩ := reap_eq_some h
  exact of_tcbs rfl

theorem zugang {i : Nat} {t : Tcb} (hz : Zugang s s' i t) : Milde s s' := by
  intro x
  rw [hz.besetzt.tcb]
  split
  · obtain ⟨-, -, ⟨gid, gen, sp, priority, base, len, rfl⟩, -⟩ := hz
    exact Sanft.entwaffnet rfl
  · exact Sanft.refl _

theorem initCore {priority i : Nat} (h : s.initCore v priority = some (i, s', v')) :
    Milde s s' := by
  obtain ⟨t, s₁, hz, rfl⟩ := initCore_cases h
  exact (zugang hz).trans (of_tcbs rfl)

theorem spawnParked {sp base len priority i : Nat}
    (h : s.spawnParked v sp base len priority = some (i, s', v')) : Milde s s' := by
  obtain ⟨t, hz, -⟩ := spawnParked_cases h
  exact zugang hz

theorem spawn {sp base len priority : Nat} {r : Option ThreadId}
    (h : s.spawn v sp base len priority = some (r, s', v')) : Milde s s' := by
  rcases spawn_eq_some h with ⟨rfl, -⟩ | ⟨i, s₁, b, hparked, -, hadmit⟩
  · exact refl _
  · exact (spawnParked hparked).trans (duldet_sanft.admitThread hadmit)

end Milde

/-- What the scan does to a block: nothing, or it disarms the deadline, and then it may end the
wait that the deadline guards. -/
def Abgelaufen (t t' : Tcb) : Prop :=
  (t'.gid = t.gid ∧ t'.gen = t.gen) ∧
    (t'.frist = t.frist ∧ t'.fristGrund = t.fristGrund ∧ t'.reasons = t.reasons ∨
      t'.frist = 0 ∧ (t'.reasons = t.reasons ∨
        t.frist ≠ 0 ∧ ∃ g, t.fristGrund = some g ∧ g ∈ t.reasons ∧ t'.reasons = t.reasons.erase g))

/-- The scan took a reason from slot `x`. -/
def Beendet (s s' : Scheduler) (x : Nat) : Prop := (s'.tcb x).reasons ≠ (s.tcb x).reasons

instance (s s' : Scheduler) (x : Nat) : Decidable (Beendet s s' x) :=
  inferInstanceAs (Decidable (_ ≠ _))

theorem Abgelaufen.refl (t : Tcb) : Abgelaufen t t := ⟨⟨rfl, rfl⟩, .inl ⟨rfl, rfl, rfl⟩⟩

structure Durchlauf (s : Scheduler) (l : FristLauf) : Prop where
  slots : ∀ x, Abgelaufen (s.tcb x) (l.sched.tcb x)
  out : ∀ tid ∈ l.out, ∃ x, s.id x = tid ∧ Beendet s l.sched x

section

variable {s : Scheduler} {l l' : FristLauf} {outLen i : Nat}

theorem Abgelaufen.congr {t₁ t₂ t₁' t₂' : Tcb} (h : Abgelaufen t₁ t₁')
    (heq : t₂.fristdaten = t₁.fristdaten) (heq' : t₂'.fristdaten = t₁'.fristdaten) :
    Abgelaufen t₂ t₂' := by
  simp only [Tcb.fristdaten, Prod.mk.injEq] at heq heq'
  obtain ⟨hgid, hgen, hfrist, hgrund, hreasons⟩ := heq
  obtain ⟨hgid', hgen', hfrist', hgrund', hreasons'⟩ := heq'
  unfold Abgelaufen
  rw [hgid, hgen, hfrist, hgrund, hreasons, hgid', hgen', hfrist', hgrund', hreasons']
  exact h

theorem Durchlauf.unberuehrt (hl : Durchlauf s l) (hne : (l.sched.tcb i).frist ≠ 0) :
    (l.sched.tcb i).fristdaten = (s.tcb i).fristdaten := by
  obtain ⟨⟨hgid, hgen⟩, ⟨hfrist, hgrund, hreasons⟩ | ⟨hzero, -⟩⟩ := hl.slots i
  · simp only [Tcb.fristdaten, hgid, hgen, hfrist, hgrund, hreasons]
  · exact absurd hzero hne

/-- Slot `i` is armed, so nothing was done to it before; now it becomes `neu`, and it is
reported only if that takes a reason from it. -/
theorem Durchlauf.wirkt (hl : Durchlauf s l) {neu : Tcb} (hw : Wirkt l.sched l'.sched i neu)
    (hne : (l.sched.tcb i).frist ≠ 0) (hneu : Abgelaufen (l.sched.tcb i) neu)
    (hout : ∀ tid ∈ l'.out, tid ∈ l.out ∨
      tid = l.sched.id i ∧ neu.reasons ≠ (l.sched.tcb i).reasons) : Durchlauf s l' := by
  have hbefore := hl.unberuehrt hne
  have hself : (l'.sched.tcb i).fristdaten = neu.fristdaten := by
    have hslot := congrArg Tcb.fristdaten hw.slot
    exact hslot
  have hother : ∀ x, x ≠ i → (l'.sched.tcb x).fristdaten = (l.sched.tcb x).fristdaten := by
    intro x hx
    have hrest := congrArg Tcb.fristdaten (hw.rest x hx)
    exact hrest
  simp only [Tcb.fristdaten, Prod.mk.injEq] at hbefore
  obtain ⟨hgid, hgen, -, -, hreasons⟩ := hbefore
  refine ⟨fun x => ?_, fun tid htid => ?_⟩
  · by_cases hx : x = i
    · rw [hx]
      exact hneu.congr (hl.unberuehrt hne).symm hself
    · exact (hl.slots x).congr rfl (hother x hx)
  · rcases hout tid htid with hold | ⟨rfl, hloose⟩
    · obtain ⟨x, hid, hend⟩ := hl.out tid hold
      have hx : x ≠ i := by
        rintro rfl
        exact hend hreasons
      refine ⟨x, hid, fun heq => hend ?_⟩
      exact (congrArg (fun d => d.2.2.2.2) (hother x hx)).symm.trans heq
    · refine ⟨i, ?_, fun heq => hloose ?_⟩
      · rw [id, id, hgid, hgen]
      · exact (congrArg (fun d => d.2.2.2.2) hself).symm.trans (heq.trans hreasons.symm)

theorem Durchlauf.schritt (hl : Durchlauf s l) (h : fristSchritt outLen l i = some l') :
    Durchlauf s l' := by
  rcases fristSchritt_cases h with
    ⟨-, hout, n, hsched⟩ | ⟨⟨hdue, -⟩, hout, hsched⟩ | ⟨⟨hripe, -⟩, hout, g, hg, hmem, hf⟩
  · have htcb : ∀ x, l'.sched.tcb x = l.sched.tcb x := by
      intro x
      rw [hsched]
      rfl
    refine ⟨fun x => htcb x ▸ hl.slots x, fun tid htid => ?_⟩
    obtain ⟨x, hid, hend⟩ := hl.out tid (hout ▸ htid)
    refine ⟨x, hid, ?_⟩
    rwa [Beendet, htcb]
  · have hw : Wirkt l.sched l'.sched i (l.sched.tcb i).entwaffnet :=
      hsched ▸ Wirkt.modifyTcb l.sched i _
    exact hl.wirkt hw hdue.2.1 ⟨⟨rfl, rfl⟩, .inr ⟨rfl, .inl rfl⟩⟩ fun tid htid => .inl (hout ▸ htid)
  · have hreasons := Tcb.reasons_freigegeben hg
    refine hl.wirkt (wirkt_fristFreigeben hg hf) hripe.2.1
      ⟨⟨rfl, rfl⟩, .inr ⟨rfl, .inr ⟨hripe.2.1, g, hg, hmem, hreasons⟩⟩⟩ fun tid htid => ?_
    rw [hout, List.mem_append, List.mem_singleton] at htid
    refine htid.imp_right fun hid => ⟨hid, ?_⟩
    rw [hreasons]
    exact fun heq => Finset.notMem_erase g _ (heq.symm ▸ hmem)

/-- The scan as a whole: every slot is left, disarmed or released, and the report names only
released ones. -/
theorem fristenFaellig_spec {s' : Scheduler} {out : List ThreadId}
    (h : s.fristenFaellig outLen = some (out, s')) :
    (∀ x, Abgelaufen (s.tcb x) (s'.tcb x)) ∧ ∀ tid ∈ out, ∃ x, s.id x = tid ∧ Beendet s s' x := by
  unfold fristenFaellig at h
  split at h
  · cases h
    exact ⟨fun x => Abgelaufen.refl _, fun tid htid => by cases htid⟩
  · obtain ⟨l, hrun, htuple⟩ := Option.map_eq_some_iff.mp h
    cases htuple
    have hscan : Durchlauf s l := by
      refine run_invariant_of_step (fun l i l' hl hi => Durchlauf.schritt hl hi) ?_ hrun
      exact ⟨fun x => Abgelaufen.refl _, fun tid htid => by cases htid⟩
    exact ⟨hscan.slots, hscan.out⟩

theorem Abgelaufen.sanft {t t' : Tcb} (h : Abgelaufen t t') : Sanft t t' := by
  obtain ⟨-, ⟨hfrist, hgrund, hreasons⟩ | ⟨hzero, -⟩⟩ := h
  · exact Sanft.gleich hfrist hgrund hreasons
  · exact Sanft.entwaffnet hzero

theorem Milde.fristenFaellig {s' : Scheduler} {out : List ThreadId}
    (h : s.fristenFaellig outLen = some (out, s')) : Milde s s' :=
  fun x => ((fristenFaellig_spec h).1 x).sanft

end

end Scheduler

end Caprock.Sched
