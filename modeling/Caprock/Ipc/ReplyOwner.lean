import Caprock.Ipc.Rendezvous

/-! # Reply authority

The endpoint pairs its caller with the server that received the request, in every
reachable state and without any guard.  `reply` consumes the pair without reading
its second component, so a reply reaches the right caller exactly when the replying
thread is the recorded owner.
-/

namespace Caprock.Ipc

open Execution

namespace System

def Paired (w : System) : Prop :=
  ∀ c, w.ep.caller = some c → ∃ o, w.ep.replyOwner = some o ∧ w.empfaenger c = some o

theorem init_paired (lebt : ThreadId → Bool) (frame : ThreadId → Frame) :
    (init lebt frame).Paired := by
  intro c hc
  cases hc

variable {w : System}

theorem Paired.of_eq {w' : System} (h : w.Paired) (hcaller : w'.ep.caller = w.ep.caller)
    (howner : w'.ep.replyOwner = w.ep.replyOwner) (hemp : w'.empfaenger = w.empfaenger) :
    w'.Paired := by
  intro c hc
  rw [howner, hemp]
  exact h c (hcaller ▸ hc)

theorem paired_of_caller_none (h : w.ep.caller = none) : w.Paired := by
  intro c hc
  rw [h] at hc
  cases hc

theorem call_paired (h : w.Paired) (t : ThreadId) (badge : Nat) : (w.call t badge).Paired := by
  apply call_elim w t badge
  · intro code
    exact h.of_eq rfl rfl rfl
  · intro server receivers _ _ _ c hc
    rw [ep_handOff] at hc ⊢
    cases hc
    refine ⟨server, rfl, ?_⟩
    rw [empfaenger_handOff, Function.update_self]
  · intro receivers _
    obtain ⟨hcaller, howner, hemp, -⟩ := queueSender_cases
      (w.setFrame t fun fr => { fr with epBadge := badge }) t receivers
    exact h.of_eq hcaller howner hemp

theorem recv_paired (h : w.Paired) (t : ThreadId) : (w.recv t).Paired := by
  apply recv_elim w t
  · intro code
    exact h.of_eq rfl rfl rfl
  · intro dead sender senders _ _ _ _ c hc
    rw [ep_takeOver] at hc ⊢
    cases hc
    refine ⟨t, rfl, ?_⟩
    rw [empfaenger_takeOver, Function.update_self]
  · intro senders _
    obtain ⟨hcaller, howner, hemp, -⟩ := queueReceiver_cases w t senders
    exact h.of_eq hcaller howner hemp

theorem reply_paired (h : w.Paired) (t : ThreadId) : (w.reply t).Paired := by
  rcases reply_cases w t with ⟨-, heq⟩ | ⟨-, hcaller, -⟩
  · rw [heq]
    exact h.of_eq rfl rfl rfl
  · exact paired_of_caller_none hcaller

theorem wakeOrphan_paired (w : System) (o : Option ThreadId) :
    (w.wakeOrphan { w.ep with replyOwner := none, caller := none } o).Paired := by
  apply paired_of_caller_none
  cases o with
  | none => rfl
  | some c => rw [wakeOrphan, ep_unblockWithError, ep_setEp]

theorem purgeThread_paired (h : w.Paired) (t : ThreadId) :
    ((w.setEp (w.ep.purgeThread t).2).abmelden t).Paired := by
  have hsetEp : (w.setEp (w.ep.purgeThread t).2).Paired := by
    unfold Endpoint.purgeThread
    split
    · exact paired_of_caller_none rfl
    · exact h.of_eq rfl rfl rfl
  unfold abmelden
  split
  · exact hsetEp
  · exact hsetEp.of_eq rfl rfl rfl

theorem migrateOwner_paired (h : w.Paired) (o : ThreadId) :
    (w.setEp (w.ep.migrateOwner o).2).Paired := by
  unfold Endpoint.migrateOwner
  split
  · cases hc : w.ep.caller with
    | none => exact h.of_eq rfl rfl rfl
    | some c => exact paired_of_caller_none rfl
  · exact h.of_eq rfl rfl rfl

theorem step_paired (w : System) (op : Op) (w' : System) (h : w.Paired)
    (hstep : w.step op = some w') : w'.Paired := by
  cases op with
  | call t badge =>
    obtain ⟨-, rfl⟩ := of_guarded hstep
    exact call_paired h t badge
  | recv t =>
    obtain ⟨-, rfl⟩ := of_guarded hstep
    exact recv_paired h t
  | reply t =>
    obtain ⟨-, rfl⟩ := of_guarded hstep
    exact reply_paired h t
  | abortCall c =>
    cases hstep
    rcases abortCall_cases w c with heq | heq
    · rw [heq]
      exact wakeOrphan_paired w _
    · rw [heq]
      exact h.of_eq rfl rfl rfl
  | purgeThread t =>
    cases hstep
    exact purgeThread_paired h t
  | ownerDied o =>
    cases hstep
    rcases ownerDied_cases w o with heq | heq
    · rw [heq]
      exact wakeOrphan_paired w _
    · rw [heq]
      exact h.of_eq rfl rfl rfl
  | rebindServer old new =>
    cases hstep
    obtain ⟨-, hc, ho⟩ := rebindServer_places w.ep old new
    exact h.of_eq hc ho rfl
  | migrateOwner o =>
    cases hstep
    exact migrateOwner_paired h o
  | bindReceiver t =>
    cases hstep
    obtain ⟨-, hc, ho⟩ := bindReceiver_places w.ep t
    exact h.of_eq hc ho rfl
  | retireReceiver t =>
    cases hstep
    obtain ⟨-, hc, ho⟩ := retireReceiver_places w.ep t
    exact h.of_eq hc ho rfl
  | beginQuiesce =>
    cases hstep
    obtain ⟨-, hc, ho⟩ := beginQuiesce_places w.ep
    exact h.of_eq hc ho rfl
  | endQuiesce | kill t =>
    cases hstep
    exact h.of_eq rfl rfl rfl
  | frist t =>
    obtain ⟨-, rfl⟩ := of_guarded hstep
    exact h.of_eq rfl rfl rfl

theorem run_paired {lebt : ThreadId → Bool} {frame : ThreadId → Frame} {ops : List Op}
    (hrun : run step (init lebt frame) ops = some w) : w.Paired :=
  run_invariant_of_step step_paired (init_paired lebt frame) hrun

def Delivers (w : System) (s c : ThreadId) : Prop :=
  w.wartetAufIpc c = true ∧ (w.reply s).wartetAufIpc c = false

theorem delivers_iff (w : System) (s c : ThreadId) :
    w.Delivers s c ↔ w.ep.used = true ∧ w.ep.caller = some c ∧ w.wartetAufIpc c = true := by
  have hfalse : ∀ v : System,
      v.wartetAufIpc c = false ↔ ¬ (v.lebt c = true ∧ v.warten c ≠ .laufend) := by
    intro v
    rw [← wartetAufIpc_iff, Bool.not_eq_true]
  unfold Delivers
  rw [hfalse]
  rcases reply_cases w s with ⟨hused, heq⟩ | ⟨hused, -, -, -, -, hlebt, hwarten⟩
  · rw [heq, lebt_setResult, warten_setResult, ← wartetAufIpc_iff, hused]
    simp
  · rw [hlebt, hwarten]
    by_cases hc : w.ep.caller = some c
    · constructor
      · rintro ⟨hwait, -⟩
        exact ⟨hused, hc, hwait⟩
      · rintro ⟨-, -, hwait⟩
        simp [hc, hwait]
    · constructor
      · rintro ⟨hwait, hnot⟩
        rw [if_neg fun h => hc h.1] at hnot
        exact absurd ((wartetAufIpc_iff w c).mp hwait) hnot
      · rintro ⟨-, hcaller, -⟩
        exact absurd hcaller hc

def AntwortOk (w : System) : Op → Prop
  | .reply s => w.ep.used = true → ∀ c, w.ep.caller = some c → w.wartetAufIpc c = true →
      w.ep.replyOwner = some s
  | _ => True

theorem Paired.delivers_own_iff (h : w.Paired) (s : ThreadId) :
    (∀ c, w.Delivers s c → w.empfaenger c = some s) ↔ w.AntwortOk (.reply s) := by
  constructor
  · intro hown hused c hc hwait
    obtain ⟨o, ho, hemp⟩ := h c hc
    have hs := hown c ((delivers_iff w s c).mpr ⟨hused, hc, hwait⟩)
    rw [ho, ← hemp, hs]
  · intro hok c hdel
    obtain ⟨hused, hc, hwait⟩ := (delivers_iff w s c).mp hdel
    obtain ⟨o, ho, hemp⟩ := h c hc
    rw [hemp, ← ho]
    exact hok hused c hc hwait

/-- In every run, all replies reach only callers whose request the replying thread
received exactly when each reply over a waiting caller is made by the recorded owner. -/
theorem run_reply_own_iff (lebt : ThreadId → Bool) (frame : ThreadId → Frame) (ops : List Op) :
    (∀ xs s w, xs ++ [.reply s] <+: ops → run step (init lebt frame) xs = some w →
        ∀ c, w.Delivers s c → w.empfaenger c = some s) ↔
      Admissible step AntwortOk (init lebt frame) ops := by
  rw [admissible_iff_forall_reached]
  constructor
  · intro h xs op w hpre hrun
    cases op with
    | reply s => exact ((run_paired hrun).delivers_own_iff s).mp (h xs s w hpre hrun)
    | _ => trivial
  · intro h xs s w hpre hrun
    exact ((run_paired hrun).delivers_own_iff s).mpr (h xs (.reply s) w hpre hrun)

/-- A server waits and is called, then another thread replies: the caller gets that
thread's message although it received nothing. -/
theorem run_recv_call_foreign_reply :
    ∃ w, run step (init (fun _ => true) fun _ => ⟨0, 0, fun _ => 0, 0⟩)
        [.recv ⟨1, 0⟩, .call ⟨2, 0⟩ 7] = some w ∧
      w.laeuft ⟨9, 0⟩ = true ∧ w.Delivers ⟨9, 0⟩ ⟨2, 0⟩ ∧
      w.empfaenger ⟨2, 0⟩ = some ⟨1, 0⟩ ∧ w.ep.replyOwner = some ⟨1, 0⟩ :=
  ⟨_, rfl, by decide, ⟨by decide, by decide⟩, by decide, by decide⟩

end System

end Caprock.Ipc
