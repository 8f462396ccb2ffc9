import Caprock.Sched.Permits
import Caprock.Sched.Records

/-! # No wake is lost

The record of a thread says when it parked, when an unpark found it on its core, and when the
deadline scan ended its sleep.  In every run the permit of a thread is what its record says, so that
a park returns at once exactly if an unpark met the thread awake and it has not parked since, and no
thread sleeps with its mark set.

An unpark takes the reason `PARK` and no other: a thread that is held for another reason as well, or
whose account is exhausted, does not run yet.
-/

namespace Caprock.Sched

open Execution Scheduler

def schlafereignis : Beobachtung Permit.Event
  | _, s, _, .parkCurrent _, x => if s.current = some x then [.park] else []
  | v, s, _, .unpark tid, x => if s.resolve v tid = some x then [.unpark] else []
  | _, s, s', .fristenFaellig _, x =>
      if Grund.park ∈ (s.tcb x).reasons ∧ Grund.park ∉ (s'.tcb x).reasons then [.expire] else []
  | _, _, _, _, _ => []

namespace Protokoll

/-- What park and unpark do for the thread in slot `x` of core `c`. -/
structure WeckenSicher (P : Protokoll Permit.Event) (c x : Nat) : Prop where
  /-- No sleep with the mark set. -/
  ohneMarke : Grund.park ∈ ((P.system.cores c).tcb x).reasons →
    ((P.system.cores c).tcb x).parkWake = false
  /-- Asleep exactly since a park that nothing has ended. -/
  schlaf : Grund.park ∈ ((P.system.cores c).tcb x).reasons ↔ Permit.Asleep (P.akte c x)
  /-- A park after an unpark returns at once and uses the mark up. -/
  sofort : (P.system.cores c).current = some x → Permit.Pending (P.akte c x) → ∀ frame,
    (P.system.cores c).parkCurrent frame =
      some (none, (P.system.cores c).setParkWake x false)
  /-- Any other park puts the thread to sleep. -/
  sonst : (P.system.cores c).current = some x → ¬ Permit.Pending (P.akte c x) → ∀ frame r s',
    (P.system.cores c).parkCurrent frame = some (r, s') →
      r.isSome = true ∧ Grund.park ∈ (s'.tcb x).reasons
  /-- An unpark of a sleeping thread ends the sleep; the thread may run unless something else
  holds it, or runs already. -/
  weckt : ∀ tid b s', (P.system.cores c).resolve P.system.verzeichnis tid = some x →
    (P.system.cores c).unpark P.system.verzeichnis tid = some (b, s') →
    Grund.park ∈ ((P.system.cores c).tcb x).reasons →
      b = true ∧ (s'.tcb x).parkWake = false ∧
        (s'.tcb x).reasons = ((P.system.cores c).tcb x).reasons.erase .park ∧
        ((s'.tcb x).reasons = ∅ → (s'.tcb x).depleted = false →
          s'.current = some x ∨ x ∈ s'.bereit (s'.tcb x).priority)
  /-- It aborts only for a priority without a ready list. -/
  wecktImmer : ∀ tid, (P.system.cores c).resolve P.system.verzeichnis tid = some x →
    ((P.system.cores c).tcb x).priority < nprio →
      ∃ s', (P.system.cores c).unpark P.system.verzeichnis tid = some (true, s')
  /-- An unpark of any other thread leaves the one mark. -/
  merkt : ∀ tid b s', (P.system.cores c).resolve P.system.verzeichnis tid = some x →
    (P.system.cores c).unpark P.system.verzeichnis tid = some (b, s') →
    Grund.park ∉ ((P.system.cores c).tcb x).reasons →
      b = true ∧ s' = (P.system.cores c).setParkWake x true

/-- The record fits the block. -/
def Passt (h : List Permit.Event) (t : Tcb) : Prop :=
  t.faden.OhneMarke ∧ t.faden.permit = Permit.replay h

variable {P : Protokoll Permit.Event} {h : List Permit.Event} {t t' : Tcb}

theorem Passt.gleich (hp : Passt h t) (hsame : Schlafgleich t t') : Passt h t' :=
  ⟨hsame.ohneMarke hp.1, hsame.permit.trans hp.2⟩

theorem Passt.ereignis {e : Permit.Event} (hp : Passt h t) (hmark : t'.faden.OhneMarke)
    (hstep : t'.faden.permit = t.faden.permit.next e) : Passt (h ++ [e]) t' := by
  refine ⟨hmark, ?_⟩
  rw [hstep, hp.2, Permit.replay_concat]

theorem passt_frisch (ht : t.Frisch) : Passt [] t := by
  obtain ⟨gid, gen, sp, priority, base, len, rfl⟩ := ht
  exact ⟨fun _ => rfl, Faden.permit_of_free (Finset.notMem_empty _) rfl⟩

theorem passt_aufruf {v : Verzeichnis} {s s' : Scheduler} {a : Aufruf} {x : Nat}
    (hcall : s.aufruf v a = some s') (hp : Passt h (s.tcb x)) :
    Passt (h ++ schlafereignis v s s' a x) (s'.tcb x) := by
  by_cases ha : a.Parkfremd
  · have hnone : schlafereignis v s s' a x = [] := by
      cases a <;> first | rfl | exact ha.elim
    rw [hnone, List.append_nil]
    exact hp.gleich (schlafgleich_aufruf ha hcall x)
  · cases a with
    | parkCurrent frame =>
      obtain ⟨r, hcall⟩ := map_snd_eq_some hcall
      obtain ⟨cur, hcur, hall⟩ := faden_parkCurrent hcall
      have hx := hall x
      unfold schlafereignis
      dsimp only
      by_cases heq : x = cur
      · subst heq
        rw [if_pos rfl] at hx
        rw [if_pos hcur]
        obtain ⟨hmark, hnext⟩ := hp.1.parkCurrent
        exact hp.ereignis (hx ▸ hmark) (hx ▸ hnext)
      · rw [if_neg heq] at hx
        rw [if_neg fun hx => heq (Option.some.inj (hx.symm.trans hcur)), List.append_nil]
        exact ⟨hx ▸ hp.1, hx ▸ hp.2⟩
    | unpark tid =>
      obtain ⟨b, hcall⟩ := map_snd_eq_some hcall
      unfold schlafereignis
      dsimp only
      cases hi : s.resolve v tid with
      | none =>
        unfold Scheduler.unpark at hcall
        rw [hi] at hcall
        rw [if_neg fun hx => Option.some_ne_none _ hx.symm, List.append_nil]
        have hsame := (Prod.mk.inj (Option.some.inj hcall)).2
        rw [← hsame]
        exact hp
      | some i =>
        obtain ⟨-, hall⟩ := faden_unpark hi hcall
        have hx := hall x
        by_cases heq : x = i
        · subst heq
          rw [if_pos rfl] at hx
          rw [if_pos rfl]
          obtain ⟨hmark, hnext⟩ := Faden.ohneMarke_unpark (s.tcb x).faden
          exact hp.ereignis (hx ▸ hmark) (hx ▸ hnext)
        · rw [if_neg heq] at hx
          rw [if_neg fun hi => heq (Option.some.inj hi).symm, List.append_nil]
          exact ⟨hx ▸ hp.1, hx ▸ hp.2⟩
    | fristenFaellig outLen =>
      obtain ⟨out, hcall⟩ := map_snd_eq_some hcall
      obtain ⟨hmark, hpermit⟩ := permit_fristenFaellig hcall hp.1
      unfold schlafereignis
      dsimp only
      by_cases hend : Grund.park ∈ (s.tcb x).reasons ∧ Grund.park ∉ (s'.tcb x).reasons
      · rw [if_pos hend] at hpermit
        rw [if_pos hend]
        exact hp.ereignis hmark hpermit
      · rw [if_neg hend] at hpermit
        rw [if_neg hend, List.append_nil]
        exact ⟨hmark, hpermit.trans hp.2⟩
    | _ => exact absurd trivial ha

theorem gesetz_schlaf :
    Aktengesetz schlafereignis Passt Schlafgleich (· ≠ .park) (· ≠ .park) where
  duldsam := duldsam_schlafgleich
  ein_budget := by decide
  aus_budget := by decide
  used := Schlafgleich.used
  gleich := Passt.gleich
  neu := passt_frisch
  aufruf := fun hcall _ hp => passt_aufruf hcall hp

theorem Passt.pending_iff (hp : Passt h t) : Permit.Pending h ↔ t.parkWake = true := by
  rw [← Permit.replay_eq_token, ← hp.2]
  exact Faden.permit_eq_token hp.1

theorem Passt.asleep_iff (hp : Passt h t) : Permit.Asleep h ↔ Grund.park ∈ t.reasons := by
  rw [← Permit.replay_eq_parked, ← hp.2]
  exact Faden.permit_eq_parked

section

variable {s s' : Scheduler} {v : Verzeichnis} {tid : ThreadId} {x : Nat} {b : Bool}

theorem parkCurrent_asleep {frame : Nat} {r : Option Nat} (hcur : s.current = some x)
    (hmark : (s.tcb x).parkWake = false) (h : s.parkCurrent frame = some (r, s')) :
    r.isSome = true ∧ Grund.park ∈ (s'.tcb x).reasons := by
  unfold Scheduler.parkCurrent at h
  rw [hcur] at h
  dsimp only at h
  rw [hmark, if_neg Bool.false_ne_true] at h
  obtain ⟨r₁, hb, htuple⟩ := Option.map_eq_some_iff.mp h
  cases htuple
  obtain ⟨cur, hcur', hall⟩ := faden_blockCurrentMit hb
  cases (hcur.symm.trans hcur')
  have hreasons := congrArg Faden.reasons (hall x)
  rw [if_pos rfl] at hreasons
  change (r₁.2.tcb x).reasons = _ at hreasons
  rw [hreasons]
  exact ⟨rfl, Faden.mem_anhalten.mpr (.inl rfl)⟩

theorem unpark_awake (hi : s.resolve v tid = some x) (hawake : Grund.park ∉ (s.tcb x).reasons)
    (h : s.unpark v tid = some (b, s')) : b = true ∧ s' = s.setParkWake x true := by
  unfold Scheduler.unpark at h
  rw [hi] at h
  dsimp only at h
  have hreasons : ((s.setParkWake x true).tcb x).reasons = (s.tcb x).reasons := by
    rw [setParkWake, tcb_modifyTcb, if_pos rfl]
  rw [hreasons, if_neg hawake] at h
  cases h
  exact ⟨rfl, rfl⟩

theorem unpark_queued (hi : s.resolve v tid = some x) (hpark : Grund.park ∈ (s.tcb x).reasons)
    (h : s.unpark v tid = some (b, s')) (hfree : (s'.tcb x).reasons = ∅)
    (hdep : (s'.tcb x).depleted = false) : s'.current = some x ∨ (s'.tcb x).queued ≠ none := by
  unfold Scheduler.unpark at h
  rw [hi] at h
  dsimp only at h
  have hreasons : ((s.setParkWake x true).tcb x).reasons = (s.tcb x).reasons := by
    rw [setParkWake, tcb_modifyTcb, if_pos rfl]
  rw [hreasons, if_pos hpark] at h
  obtain ⟨s₁, hw, htuple⟩ := Option.map_eq_some_iff.mp h
  cases htuple
  unfold Scheduler.weckeFallsLauffaehig at hw
  split at hw
  · obtain ⟨p, hp⟩ := Wirkt.enqueueReady hw
    refine .inr ?_
    rw [hp.self.queued]
    exact Option.some_ne_none p
  · next hheld =>
    cases hw
    by_contra hlost
    rw [not_or] at hlost
    exact hheld ⟨hfree, hdep, hlost.1⟩

theorem unpark_of_lt (hi : s.resolve v tid = some x) (hprio : (s.tcb x).priority < nprio) :
    ∃ s', s.unpark v tid = some (true, s') := by
  unfold Scheduler.unpark
  rw [hi]
  dsimp only
  split
  · have hsame : ((((s.setParkWake x true).setParkWake x false).removeReason x .park).tcb x).priority =
        (s.tcb x).priority := by
      simp [removeReason, setParkWake, tcb_modifyTcb]
    unfold Scheduler.weckeFallsLauffaehig
    split
    · obtain ⟨s', hs'⟩ := enqueueReady_of_lt (hsame.symm ▸ hprio)
      exact ⟨s', by rw [hs']; rfl⟩
    · exact ⟨_, rfl⟩
  · exact ⟨_, rfl⟩

end

theorem Inv.weckenSicher (hP : P.Inv Passt) {c x : Nat}
    (hused : ((P.system.cores c).tcb x).used = true) : P.WeckenSicher c x := by
  have hp := hP.passt c x hused
  refine ⟨hp.1, hp.asleep_iff.symm, fun hcur hpending frame => ?_,
    fun hcur hpending frame r s' hpark => ?_, fun tid b s' hi hun hpark => ?_,
    fun tid hi hprio => unpark_of_lt hi hprio,
    fun tid b s' hi hun hawake => unpark_awake hi hawake hun⟩
  · unfold Scheduler.parkCurrent
    rw [hcur]
    exact if_pos (hp.pending_iff.mp hpending)
  · have hmark : ((P.system.cores c).tcb x).parkWake ≠ true := fun hmark =>
      hpending (hp.pending_iff.mpr hmark)
    exact parkCurrent_asleep hcur (Bool.eq_false_of_not_eq_true hmark) hpark
  · obtain ⟨hb, hall⟩ := faden_unpark hi hun
    have hx := hall x
    have hwoken : ((P.system.cores c).tcb x).faden.unpark =
        { ((P.system.cores c).tcb x).faden.aufheben .park with parkWake := false } := if_pos hpark
    rw [if_pos rfl, hwoken] at hx
    refine ⟨hb, congrArg Faden.parkWake hx, congrArg Faden.reasons hx, fun hfree hdep => ?_⟩
    refine (unpark_queued hi hpark hun hfree hdep).imp_right fun hqueued => ?_
    obtain ⟨l, ho⟩ := ((Bewahrt.unpark hun).gut (hP.gut.1 c)).1
    obtain ⟨p, hq⟩ := Option.ne_none_iff_exists'.mp hqueued
    have hlists := ho.readyLists
    rw [(hlists.own p x hq).2.1]
    exact (hlists.linked p x).mpr hq

/-- In every run, for every thread: no wake is lost, and no wake is left over. -/
theorem run_weckenSicher (a : Ausbau) (ops : List Op) (P : Protokoll Permit.Event)
    (hrun : run (step schlafereignis) (init Permit.Event a) ops = some P) (c x : Nat)
    (hused : ((P.system.cores c).tcb x).used = true) : P.WeckenSicher c x :=
  (run_inv gesetz_schlaf hrun).weckenSicher hused

def zweiThreads : List Op := [.initCore 0 0, .spawn 0 100 0 16 1, .aufruf 0 (.onTick 50 false)]

/-- Two unparks leave one mark: the next park returns at once. -/
theorem run_weckenSicher_two_unparks :
    ∃ P, run (step schlafereignis) (init Permit.Event ⟨2, 2, by decide⟩)
        (zweiThreads ++ [.aufruf 0 (.unpark ⟨1, 0⟩), .aufruf 0 (.unpark ⟨1, 0⟩)]) = some P ∧
      (P.system.cores 0).current = some 1 ∧ P.akte 0 1 = [.unpark, .unpark] ∧
      P.WeckenSicher 0 1 := by
  have hread : (run (step schlafereignis) (init Permit.Event ⟨2, 2, by decide⟩)
      (zweiThreads ++ [.aufruf 0 (.unpark ⟨1, 0⟩), .aufruf 0 (.unpark ⟨1, 0⟩)])).map
        (fun P => ((P.system.cores 0).current, P.akte 0 1, ((P.system.cores 0).tcb 1).used)) =
      some (some 1, [.unpark, .unpark], true) := by
    decide
  obtain ⟨P, hP, heq⟩ := Option.map_eq_some_iff.mp hread
  simp only [Prod.mk.injEq] at heq
  exact ⟨P, hP, heq.1, heq.2.1, run_weckenSicher _ _ P hP 0 1 heq.2.2⟩

/-- Parked and paused: the unpark ends the sleep, and the thread neither runs nor is it queued. -/
theorem unpark_leaves_paused_waiting :
    (run (step schlafereignis) (init Permit.Event ⟨2, 2, by decide⟩)
        (zweiThreads ++ [.aufruf 0 (.parkCurrent 60), .aufruf 0 (.pause ⟨1, 0⟩)])).map
      (fun P => decide (Grund.park ∈ ((P.system.cores 0).tcb 1).reasons)) = some true ∧
    (run (step schlafereignis) (init Permit.Event ⟨2, 2, by decide⟩)
        (zweiThreads ++ [.aufruf 0 (.parkCurrent 60), .aufruf 0 (.pause ⟨1, 0⟩),
          .aufruf 0 (.unpark ⟨1, 0⟩)])).map
      (fun P => (P.akte 0 1, (P.system.cores 0).current, ((P.system.cores 0).tcb 1).queued,
        decide (((P.system.cores 0).tcb 1).reasons = {Grund.pause}))) =
      some ([.park, .unpark], some 0, none, true) := by
  decide

end Protokoll

end Caprock.Sched
