import Caprock.Sched.Scheduler

/-! # The branches of the operations

One lemma for each operation of the scheduler that branches: which branch a result comes
from, with what was checked on the way.  A scan over the slots keeps what each slot keeps.
-/

namespace Caprock.Sched.Scheduler

open Execution

variable {s s' : Scheduler} {v v' : Verzeichnis} {tid : ThreadId} {i : Nat} {b : Bool}

/-- The dispatched thread was the next one; it leaves its list. -/
theorem wechseln_cases {sp : Nat} (h : s.wechseln = some (sp, s')) :
    ∃ n, s.hoechster = some n ∧ s' = (s.removeFromReady n).setCurrent n := by
  unfold wechseln dequeueHighest at h
  split at h
  · cases h
  · next hd =>
    split at hd
    · cases hd
    · next n hn =>
      cases hd
      cases h
      exact ⟨_, hn, rfl⟩

theorem wecke_of_current (h : s.current = some i) :
    s.weckeFallsLauffaehig i = some s := by
  unfold weckeFallsLauffaehig
  exact if_neg fun hrun => hrun.2.2 h

theorem allocTcb_eq_some {sp priority : Nat} (h : s.allocTcb v sp priority = some (i, s', v')) :
    ∃ free gid gidFree e, s.free.alloc = some (i, free) ∧ v.gidFree.alloc = some (gid, gidFree) ∧
      v.directory.get gid = some e ∧ s' = s.belegen i free (Tcb.neu gid e.gen sp priority) ∧
      v' = s'.publishDir { v with gidFree := gidFree } i := by
  unfold allocTcb at h
  split at h
  · cases h
  · next i₀ free halloc =>
    split at h
    · cases h
    · next gid gidFree hgid =>
      split at h
      · cases h
      · next e he =>
        cases h
        exact ⟨free, gid, gidFree, e, halloc, hgid, he, rfl, rfl⟩

theorem initCore_eq_some {priority : Nat} (h : s.initCore v priority = some (i, s', v')) :
    ∃ s₁, s.allocTcb v 0 priority = some (i, s₁, v') ∧ s' = s₁.setCurrent i := by
  unfold initCore at h
  split at h
  · cases h
  · next s₁ v₁ halloc =>
    cases h
    exact ⟨s₁, halloc, rfl⟩

theorem spawnParked_eq_some {sp base len priority : Nat}
    (h : s.spawnParked v sp base len priority = some (i, s', v')) :
    ∃ s₁, s.allocTcb v sp priority = some (i, s₁, v') ∧ s' = s₁.setStack i base len := by
  unfold spawnParked at h
  split at h
  · cases h
  · next s₁ v₁ halloc =>
    cases h
    exact ⟨s₁, halloc, rfl⟩

theorem admitThread_cases (h : s.admitThread v tid = some (b, s')) :
    s' = s ∨ ∃ t, s.resolve v tid = some t ∧ (s.setAdmitted t).enqueueReady t = some s' := by
  unfold admitThread at h
  split at h
  · cases h
    exact .inl rfl
  · next t ht =>
    obtain ⟨s₁, he, htuple⟩ := Option.map_eq_some_iff.mp h
    cases htuple
    exact .inr ⟨t, ht, he⟩

theorem spawn_eq_some {sp base len priority : Nat} {r : Option ThreadId}
    (h : s.spawn v sp base len priority = some (r, s', v')) :
    s' = s ∧ v' = v ∧ r = none ∨ ∃ i s₁ b,
      s.spawnParked v sp base len priority = some (i, s₁, v') ∧ r = some (s₁.id i) ∧
        s₁.admitThread v' (s₁.id i) = some (b, s') := by
  unfold spawn at h
  split at h
  · cases h
    exact .inl ⟨rfl, rfl, rfl⟩
  · next i s₁ v₁ hpark =>
    obtain ⟨⟨b, s₂⟩, hadmit, htuple⟩ := Option.map_eq_some_iff.mp h
    cases htuple
    exact .inr ⟨i, s₁, b, hpark, rfl, hadmit⟩

theorem recordZombie_cases (h : s.recordZombie v i = some (s', v')) :
    ∃ s₁ z, run (spendeLoesen i) s (List.range s.tcbs.len) = some s₁ ∧
      s' = ((((s₁.doneeAustragen i).removeFromReady i).slotLeeren i).zombieAblegen z) := by
  unfold recordZombie at h
  split at h
  · cases h
  · next s₁ hrun =>
    cases h
    exact ⟨s₁, _, hrun, rfl⟩

theorem exitCurrent_cases {sp : Nat} (h : s.exitCurrent v = some (sp, s', v')) :
    ∃ cur s₁, s.current = some cur ∧ s.recordZombie v cur = some (s₁, v') ∧
      s₁.wechseln = some (sp, s') := by
  unfold exitCurrent at h
  split at h
  · cases h
  · next cur hcur =>
    split at h
    · cases h
    · next s₁ v₁ hz =>
      obtain ⟨⟨sp₁, s₂⟩, hw, htuple⟩ := Option.map_eq_some_iff.mp h
      cases htuple
      exact ⟨cur, s₁, hcur, hz, hw⟩

theorem kill_cases (h : s.kill v tid = some (b, s', v')) :
    s' = s ∨ ∃ i, s.resolve v tid = some i ∧ s.current ≠ some i ∧
      (s.removeFromReady i).recordZombie v i = some (s', v') := by
  unfold kill at h
  split at h
  · cases h
    exact .inl rfl
  · next i hi =>
    split at h
    · cases h
      exact .inl rfl
    · next hcur =>
      obtain ⟨⟨s₁, v₁⟩, hz, htuple⟩ := Option.map_eq_some_iff.mp h
      cases htuple
      exact .inr ⟨i, hi, hcur, hz⟩

theorem blockCurrentMit_cases {frame sp : Nat} {g : Grund}
    (h : s.blockCurrentMit frame g = some (sp, s')) :
    ∃ cur, s.current = some cur ∧ (s.blockieren cur frame g).wechseln = some (sp, s') := by
  unfold blockCurrentMit at h
  split at h
  · cases h
  · next cur hcur => exact ⟨cur, hcur, h⟩

theorem parkCurrent_cases {frame : Nat} {r : Option Nat}
    (h : s.parkCurrent frame = some (r, s')) :
    (∃ cur, s.current = some cur ∧ s' = s.setParkWake cur false) ∨
      ∃ sp, s.blockCurrentMit frame .park = some (sp, s') := by
  unfold parkCurrent at h
  split at h
  · cases h
  · next cur hcur =>
    split at h
    · cases h
      exact .inl ⟨cur, hcur, rfl⟩
    · obtain ⟨⟨sp, t⟩, heq, htuple⟩ := Option.map_eq_some_iff.mp h
      cases htuple
      exact .inr ⟨sp, heq⟩

theorem grundAufheben_cases {g : Grund} (h : s.grundAufheben v tid g = some (b, s')) :
    s' = s ∨ ∃ i, s.resolve v tid = some i ∧
      (s.removeReason i g).weckeFallsLauffaehig i = some s' := by
  unfold grundAufheben at h
  split at h
  · cases h
    exact .inl rfl
  · next i hi =>
    obtain ⟨s₁, hw, htuple⟩ := Option.map_eq_some_iff.mp h
    cases htuple
    exact .inr ⟨i, hi, hw⟩

/-- A thread that is not held for the reason stays as it is. -/
theorem grundAufheben_of_gesetzt {g : Grund} (h : s.gesetztenGrundAufheben v tid g = some (b, s')) :
    s' = s ∨ s.grundAufheben v tid g = some (b, s') := by
  unfold gesetztenGrundAufheben at h
  split at h
  · cases h
    exact .inl rfl
  · split at h
    · exact .inr h
    · cases h
      exact .inl rfl

theorem debugReleasePd_invariant {P : Scheduler → Prop} {pdOf : ThreadId → Option Nat} {pd n : Nat}
    (hstep : ∀ t i t', (t.tcb i).used = true ∧ Grund.debug ∈ (t.tcb i).reasons →
      pdOf (t.id i) = some pd → P t → (t.removeReason i .debug).weckeFallsLauffaehig i = some t' →
      P t')
    (hs : P s) (h : s.debugReleasePd pdOf pd = some (n, s')) : P s' := by
  have hslot : ∀ (r : Nat × Scheduler) (i : Nat) (r' : Nat × Scheduler), P r.2 →
      debugFreigeben pdOf pd r i = some r' → P r'.2 := by
    intro r i r' hr hi
    unfold debugFreigeben at hi
    split at hi
    · cases hi
      exact hr
    · next hnot =>
      rw [not_or, Bool.not_eq_false, not_not] at hnot
      split at hi
      · cases hi
        exact hr
      · next hpd =>
        obtain ⟨s₁, hw, rfl⟩ := Option.map_eq_some_iff.mp hi
        exact hstep r.2 i s₁ hnot (not_not.mp hpd) hr hw
  have hend : P (n, s').2 := run_invariant_of_step hslot (s := (0, s)) hs h
  exact hend

theorem weckelauf_invariant {P : Scheduler → Prop} {konto : Nat}
    (hstep : ∀ t d t', P t → budgetWecken konto t d = some t' → P t') (hs : P s)
    (h : s.weckelauf konto = some s') : P s' := by
  unfold weckelauf at h
  split at h
  · exact run_invariant_of_step hstep hs h
  · cases h
    exact hs

/-- The owner of a refilled account is woken, or passed over for a recorded borrower. -/
theorem besitzerWecken_cases (h : s.besitzerWecken i = some s') :
    s.weckeFallsLauffaehig i = some s' ∨
      s' = s ∧ ∃ d, (s.tcb i).scDonee = some d ∧ d ≠ i := by
  have hwake : (if s.current ≠ some i then s.weckeFallsLauffaehig i else some s) = some s' →
      s.weckeFallsLauffaehig i = some s' := by
    intro hif
    split at hif
    · exact hif
    · next hcur =>
      rw [wecke_of_current (not_not.mp hcur)]
      exact hif
  unfold besitzerWecken at h
  split at h
  · next d hd =>
    split at h
    · next hne =>
      cases h
      exact .inr ⟨rfl, d, hd, hne⟩
    · exact .inl (hwake h)
  · exact .inl (hwake h)

theorem refillSlot_cases (h : s.refillSlot i = some s') :
    s.refillFaellig i ∧ (∃ s₁, (s.auffuellen i).weckelauf i = some s₁ ∧
        s₁.besitzerWecken i = some s') ∨
      ¬ s.refillFaellig i ∧ s' = s := by
  unfold refillSlot at h
  split at h
  · next hdue =>
    split at h
    · cases h
    · next s₁ hlauf => exact .inl ⟨hdue, s₁, hlauf, h⟩
  · next hnot =>
    cases h
    exact .inr ⟨hnot, rfl⟩

/-- A thread with an exhausted budget is woken unless it runs, which waking looks at anyway. -/
theorem setBudget_cases {budget period : Nat} (h : s.setBudget v tid budget period = some (b, s')) :
    s.resolve v tid = none ∧ s' = s ∨ ∃ i, s.resolve v tid = some i ∧
      ((s.tcb i).depleted = true ∧ (∃ s₁,
          (s.budgetEintragen i budget period).weckelauf i = some s₁ ∧
          s₁.weckeFallsLauffaehig i = some s') ∨
        (s.tcb i).depleted = false ∧ s' = s.budgetEintragen i budget period) := by
  unfold setBudget at h
  split at h
  · next hnone =>
    cases h
    exact .inl ⟨hnone, rfl⟩
  · next i hi =>
    refine .inr ⟨i, hi, ?_⟩
    split at h
    · next hdry =>
      split at h
      · cases h
      · next s₁ hlauf =>
        refine .inl ⟨hdry, s₁, hlauf, ?_⟩
        split at h
        · obtain ⟨s₂, hw, htuple⟩ := Option.map_eq_some_iff.mp h
          cases htuple
          exact hw
        · next hcur =>
          cases h
          exact wecke_of_current (not_not.mp hcur)
    · next hdry =>
      cases h
      exact .inr ⟨Bool.eq_false_of_not_eq_true hdry, rfl⟩

theorem tickAnfang_invariant {P : Scheduler → Prop} {tick : Bool}
    (hstep : ∀ t k t', P t → t.refillSlot k = some t' → P t') (hs : P s)
    (hnow : P { s with now := s.now + 1 }) (h : s.tickAnfang tick = some s') : P s' := by
  unfold tickAnfang at h
  split at h
  · dsimp only at h
    split at h
    · exact run_invariant_of_step hstep hnow h
    · cases h
      exact hnow
  · cases h
    exact hs

/-- A tick ends with the dispatch of the next thread, or with nobody ready. -/
theorem onTick_cases {frame sp : Nat} {tick : Bool} (h : s.onTick frame tick = some (sp, s')) :
    ∃ s₁ s₂, s.tickAnfang tick = some s₁ ∧ s₁.zurueckreihen frame tick = some s₂ ∧
      (s₂.hoechster = none ∧ s' = s₂ ∨
        ∃ n, s₂.hoechster = some n ∧ s' = (s₂.removeFromReady n).setCurrent n) := by
  unfold onTick at h
  split at h
  · cases h
  · next s₁ h₁ =>
    split at h
    · cases h
    · next s₂ h₂ =>
      refine ⟨s₁, s₂, h₁, h₂, ?_⟩
      unfold dequeueHighest at h
      split at h
      · next hd =>
        cases h
        split at hd
        · next hn => exact .inl ⟨hn, rfl⟩
        · cases hd
      · next hd =>
        cases h
        split at hd
        · cases hd
        · next n hn =>
          cases hd
          exact .inr ⟨_, hn, rfl⟩

/-- The thread may leave: it does not run, takes part in no donation that it knows of, and no
debugger and no freeze holds it. -/
def Abziehbar (s : Scheduler) (v : Verzeichnis) (tid : ThreadId) (i : Nat) : Prop :=
  s.resolve v tid = some i ∧ s.current ≠ some i ∧
    ((s.tcb i).scDonor = none ∧ (s.tcb i).scDonee = none) ∧
    Grund.debug ∉ (s.tcb i).reasons ∧ Grund.freeze ∉ (s.tcb i).reasons

theorem Abziehbar.detach (h : s.Abziehbar v tid i) :
    s.detachForMigration v tid ≠ none := by
  obtain ⟨hi, hcur, ⟨hdonor, hdonee⟩, hdebug, hfreeze⟩ := h
  unfold detachForMigration
  rw [hi]
  dsimp only
  rw [if_neg hcur, hdonor, hdonee, if_neg (fun hlend => hlend.elim nofun nofun),
    if_neg (not_or.mpr ⟨hdebug, hfreeze⟩)]
  exact Option.some_ne_none _

/-- What leaves with a thread, and what stays. -/
theorem detachForMigration_cases {m : Migrant}
    (h : s.detachForMigration v tid = some (m, s')) :
    ∃ i n, s.Abziehbar v tid i ∧
      s' = { (s.removeFromReady i).slotLeeren i with migrationsOut := n } ∧
      m = ⟨abschied ((s.removeFromReady i).tcb i), (s.tcb i).queued.isSome⟩ := by
  unfold detachForMigration at h
  split at h
  · cases h
  · next i hi =>
    dsimp only at h
    split at h
    · cases h
    · next hcur =>
      split at h
      · cases h
      · next hlend =>
        split at h
        · cases h
        · next hheld =>
          cases h
          rw [not_or, Option.isSome_iff_ne_none, not_not, Option.isSome_iff_ne_none, not_not] at hlend
          exact ⟨i, _, ⟨hi, hcur, hlend, not_or.mp hheld⟩, rfl, rfl⟩

theorem attachMigrated_aufnahme {m : Migrant}
    (h : s.attachMigrated v m = some (.ok (s', v'))) :
    ∃ i free, s.free.alloc = some (i, free) ∧
      v' = (s.aufnehmen i free (s.ankunft m.tcb)).publishDir v i ∧
      (m.wasReady = true ∧ (s.aufnehmen i free (s.ankunft m.tcb)).enqueueReady i = some s' ∨
        m.wasReady = false ∧ s' = s.aufnehmen i free (s.ankunft m.tcb)) := by
  unfold attachMigrated at h
  split at h
  · cases h
  · next i free halloc =>
    refine ⟨i, free, halloc, ?_⟩
    split at h
    · next hready =>
      obtain ⟨s₁, he, htuple⟩ := Option.map_eq_some_iff.mp h
      cases htuple
      exact ⟨rfl, .inl ⟨hready, he⟩⟩
    · next hready =>
      cases h
      exact ⟨rfl, .inr ⟨Bool.eq_false_of_not_eq_true hready, rfl⟩⟩

theorem alloc_of_error {m m' : Migrant} (h : s.attachMigrated v m = some (.error m')) :
    s.free.alloc = none := by
  unfold attachMigrated at h
  split at h
  · assumption
  · dsimp only at h
    split at h
    · obtain ⟨s₁, -, htuple⟩ := Option.map_eq_some_iff.mp h
      cases htuple
    · cases h

end Caprock.Sched.Scheduler
