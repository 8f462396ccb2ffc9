import Caprock.Ipc.Quiescence

/-! # Rendezvous exclusion

A sender and a receiver that wait at the same endpoint would wait for each other.  `call` and
`recv` empty the other queue before they fill their own; `bindReceiver` and `migrateOwner` fill
one queue without a look at the other, and `endQuiesce` opens the gate whatever stands behind it.
The queues exclude each other outside of a quiescence exactly in the runs where these three are
not used against a waiting partner.
-/

namespace Caprock.Ipc

open Execution

namespace Endpoint

/-- Senders and receivers do not wait at the same time. -/
def Getrennt (e : Endpoint) : Prop := e.senders.toList = [] ∨ e.receivers.toList = []

def Bindet (e : Endpoint) (t : ThreadId) : Prop :=
  e.used = true ∧ t ∉ e.receivers.toList ∧ e.receivers.count < queueCap

def Migriert (e : Endpoint) (o : ThreadId) : Prop :=
  e.used = true ∧ e.replyOwner = some o ∧ e.caller ≠ none ∧ e.senders.count < queueCap

variable {e : Endpoint}

theorem toList_bindReceiver (t : ThreadId) :
    (e.bindReceiver t).2.senders = e.senders ∧
      (e.Bindet t ∧ (e.bindReceiver t).2.receivers.toList = e.receivers.toList ++ [t] ∨
        ¬ e.Bindet t ∧ (e.bindReceiver t).2 = e) := by
  refine ⟨(System.bindReceiver_places e t).1, ?_⟩
  unfold bindReceiver
  split
  · next hrefused =>
    refine .inr ⟨fun hb => ?_, rfl⟩
    simp [hb.1, hb.2.1] at hrefused
  · next hfree =>
    simp only [Bool.or_eq_true, Bool.not_eq_true', decide_eq_true_eq, not_or,
      Bool.not_eq_false] at hfree
    by_cases hroom : e.receivers.count < queueCap
    · exact .inl ⟨⟨hfree.1, hfree.2, hroom⟩, (RingBuffer.push_of_room hroom t).2⟩
    · have hfull := RingBuffer.push_of_full (Nat.le_of_not_lt hroom) t
      refine .inr ⟨fun hb => hroom hb.2.2, ?_⟩
      simp only [hfull]

theorem toList_migrateOwner (o : ThreadId) :
    (e.migrateOwner o).2.receivers = e.receivers ∧
      (e.Migriert o ∧ (e.migrateOwner o).2.senders.toList ≠ [] ∨
        ¬ e.Migriert o ∧ (e.migrateOwner o).2 = e) := by
  unfold migrateOwner
  split
  · next hcond =>
    simp only [Bool.and_eq_true, decide_eq_true_eq, Bool.not_eq_true',
      decide_eq_false_iff_not, Nat.not_le] at hcond
    obtain ⟨⟨hused, howner⟩, hroom⟩ := hcond
    cases hc : e.caller with
    | none => exact ⟨rfl, .inr ⟨fun hm => hm.2.2.1 hc, rfl⟩⟩
    | some c =>
      refine ⟨rfl, .inl ⟨⟨hused, howner, by simp [hc], hroom⟩, ?_⟩⟩
      have hlist := (RingBuffer.push_of_room hroom c).2
      show (e.senders.push c).2.toList ≠ []
      rw [hlist]
      simp
  · next hcond =>
    refine ⟨rfl, .inr ⟨fun hm => hcond ?_, rfl⟩⟩
    simp [hm.1, hm.2.1, Nat.not_le.mpr hm.2.2.2]

theorem Getrennt.mono {e' : Endpoint} (h : e.Getrennt)
    (hs : e.senders.toList = [] → e'.senders.toList = [])
    (hr : e.receivers.toList = [] → e'.receivers.toList = []) : e'.Getrennt :=
  h.imp hs hr

theorem Getrennt.rebindServer (h : e.Getrennt) (old new : ThreadId) :
    (e.rebindServer old new).2.Getrennt := by
  rcases rebindServer_cases e old new with ⟨r, -, heq⟩ | ⟨hruht, -⟩
  · rw [heq]
    exact h
  · left
    rw [(System.rebindServer_places e old new).1]
    exact hruht.senders

theorem Getrennt.retireReceiver (h : e.Getrennt) (t : ThreadId) :
    (e.retireReceiver t).2.Getrennt := by
  refine h.mono (fun hs => ?_) fun hr => ?_
  · rw [(System.retireReceiver_places e t).1]
    exact hs
  · unfold Endpoint.retireReceiver
    split
    · rw [RingBuffer.toList_remove, hr]
      rfl
    · exact hr

theorem Getrennt.purgeThread (h : e.Getrennt) (t : ThreadId) :
    (e.purgeThread t).2.Getrennt := by
  obtain ⟨-, hs, hr, -⟩ := e.purgeThread_parts t
  refine h.mono (fun hnil => ?_) fun hnil => ?_
  · rw [hs, RingBuffer.toList_remove, hnil]
    rfl
  · rw [hr, RingBuffer.toList_remove, hnil]
    rfl

theorem Getrennt.bindReceiver_iff (h : e.Getrennt) (t : ThreadId) :
    (e.bindReceiver t).2.Getrennt ↔ (e.Bindet t → e.senders.toList = []) := by
  obtain ⟨hs, hcases⟩ := toList_bindReceiver (e := e) t
  unfold Getrennt
  rcases hcases with ⟨hb, hr⟩ | ⟨hb, heq⟩
  · rw [hs, hr]
    simp [hb]
  · rw [heq]
    exact ⟨fun _ hbind => absurd hbind hb, fun _ => h⟩

theorem Getrennt.migrateOwner_iff (h : e.Getrennt) (o : ThreadId) :
    (e.migrateOwner o).2.Getrennt ↔ (e.Migriert o → e.receivers.toList = []) := by
  obtain ⟨hr, hcases⟩ := toList_migrateOwner (e := e) o
  unfold Getrennt
  rcases hcases with ⟨hm, hs⟩ | ⟨hm, heq⟩
  · rw [hr]
    simp [hm, hs]
  · rw [heq]
    exact ⟨fun _ hmig => absurd hmig hm, fun _ => h⟩

end Endpoint

namespace System

variable {w w' : System} {op : Op}

theorem ep_call (w : System) (t : ThreadId) (badge : Nat) :
    (w.call t badge).ep = w.ep ∨ (w.call t badge).ep.quiescing = w.ep.quiescing ∧
      (w.ep.receivers.toList ≠ [] ∧ (w.call t badge).ep.senders = w.ep.senders ∨
        (w.call t badge).ep.receivers.toList = []) := by
  unfold call
  cases hgate : w.ep.gateNewTransaction with
  | some code => exact .inl rfl
  | none =>
    have hcases := dequeueLive_cases (w.setFrame t fun fr => { fr with epBadge := badge }).lebt
      _ w.ep.receivers (Nat.le_refl _)
    simp only [ep_setFrame]
    rcases hdq : dequeueLive (w.setFrame t fun fr => { fr with epBadge := badge }).lebt
      w.ep.receivers.count w.ep.receivers with ⟨o, receivers⟩
    rw [hdq] at hcases
    right
    rcases hcases with ⟨dead, server, rest, hl, -, -, rfl, -⟩ | ⟨-, rfl, hnil⟩
    · dsimp only
      rw [ep_handOff, ep_setFrame]
      exact ⟨rfl, .inl ⟨by simp [hl], rfl⟩⟩
    · unfold queueSender
      dsimp only
      split
      · exact ⟨rfl, .inr hnil⟩
      · exact ⟨rfl, .inr hnil⟩

theorem ep_recv (w : System) (t : ThreadId) :
    (w.recv t).ep = w.ep ∨ (w.recv t).ep.quiescing = w.ep.quiescing ∧
      (w.ep.senders.toList ≠ [] ∧ (w.recv t).ep.receivers = w.ep.receivers ∨
        (w.recv t).ep.senders.toList = []) := by
  unfold recv
  cases hgate : w.ep.gateNewTransaction with
  | some code => exact .inl rfl
  | none =>
    have hcases := dequeueLive_cases w.lebt _ w.ep.senders (Nat.le_refl _)
    rcases hdq : dequeueLive w.lebt w.ep.senders.count w.ep.senders with ⟨o, senders⟩
    rw [hdq] at hcases
    right
    rcases hcases with ⟨dead, sender, rest, hl, -, -, rfl, -⟩ | ⟨-, rfl, hnil⟩
    · dsimp only
      rw [ep_takeOver]
      exact ⟨rfl, .inl ⟨by simp [hl], rfl⟩⟩
    · unfold queueReceiver
      dsimp only
      split
      · exact ⟨rfl, .inr hnil⟩
      · exact ⟨rfl, .inr hnil⟩

theorem getrennt_call (h : w.ep.Getrennt) (t : ThreadId) (badge : Nat) :
    (w.call t badge).ep.Getrennt := by
  rcases ep_call w t badge with heq | ⟨-, ⟨hne, hs⟩ | hnil⟩
  · rw [heq]
    exact h
  · exact .inl (hs ▸ h.resolve_right hne)
  · exact .inr hnil

theorem getrennt_recv (h : w.ep.Getrennt) (t : ThreadId) : (w.recv t).ep.Getrennt := by
  rcases ep_recv w t with heq | ⟨-, ⟨hne, hr⟩ | hnil⟩
  · rw [heq]
    exact h
  · exact .inr (hr ▸ h.resolve_left hne)
  · exact .inl hnil

def BlindFrei (w : System) : Op → Prop
  | .bindReceiver t => w.ep.Bindet t → w.ep.senders.toList = []
  | .migrateOwner o => w.ep.Migriert o → w.ep.receivers.toList = []
  | _ => True

def TorFrei (w : System) : Op → Prop
  | .endQuiesce => w.ep.Getrennt
  | op => w.ep.quiescing = false → w.BlindFrei op

theorem getrennt_of_token {v : System} (h : w.ep.Getrennt)
    (hep : v.ep = w.ep ∨ v.ep = { w.ep with replyOwner := none, caller := none }) :
    v.ep.Getrennt := by
  rcases hep with heq | heq
  · rw [heq]
    exact h
  · rw [heq]
    exact h

theorem step_getrennt (w : System) (op : Op) (w' : System) (h : w.ep.Getrennt)
    (hok : w.BlindFrei op) (hstep : w.step op = some w') : w'.ep.Getrennt := by
  cases op with
  | call t badge =>
    obtain ⟨-, rfl⟩ := of_guarded hstep
    exact getrennt_call h t badge
  | recv t =>
    obtain ⟨-, rfl⟩ := of_guarded hstep
    exact getrennt_recv h t
  | reply t =>
    obtain ⟨-, rfl⟩ := of_guarded hstep
    exact getrennt_of_token h (ep_reply w t)
  | abortCall c =>
    cases hstep
    apply getrennt_of_token h
    rw [ep_wakeOrphan]
    exact ep_abortCall w c
  | purgeThread t =>
    cases hstep
    rw [ep_abmelden]
    exact h.purgeThread t
  | ownerDied o =>
    cases hstep
    apply getrennt_of_token h
    rw [ep_wakeOrphan]
    exact ep_ownerDied w o
  | rebindServer old new =>
    cases hstep
    exact h.rebindServer old new
  | migrateOwner o =>
    cases hstep
    exact (h.migrateOwner_iff o).mpr hok
  | bindReceiver t =>
    cases hstep
    exact (h.bindReceiver_iff t).mpr hok
  | retireReceiver t =>
    cases hstep
    exact h.retireReceiver t
  | beginQuiesce =>
    cases hstep
    show w.ep.beginQuiesce.2.Getrennt
    unfold Endpoint.beginQuiesce
    split
    · exact h
    · exact h
  | endQuiesce | kill t =>
    cases hstep
    exact h
  | frist t =>
    obtain ⟨-, rfl⟩ := of_guarded hstep
    exact h

theorem step_not_getrennt (w : System) (op : Op) (w' : System) (h : w.ep.Getrennt)
    (hbad : ¬ w.BlindFrei op) (hstep : w.step op = some w') :
    ¬ w'.ep.Getrennt ∧ w'.ep.quiescing = w.ep.quiescing := by
  cases op with
  | bindReceiver t =>
    cases hstep
    refine ⟨fun hsep => hbad ((h.bindReceiver_iff t).mp hsep), ?_⟩
    show (w.ep.bindReceiver t).2.quiescing = w.ep.quiescing
    unfold Endpoint.bindReceiver
    split <;> rfl
  | migrateOwner o =>
    cases hstep
    refine ⟨fun hsep => hbad ((h.migrateOwner_iff o).mp hsep), ?_⟩
    show (w.ep.migrateOwner o).2.quiescing = w.ep.quiescing
    unfold Endpoint.migrateOwner
    split
    · cases w.ep.caller with
      | none => rfl
      | some c => rfl
    · rfl
  | _ => exact absurd trivial hbad

def Ausgeschlossen (w : System) : Prop := w.ep.quiescing = false → w.ep.Getrennt

theorem step_ausgeschlossen (w : System) (op : Op) (w' : System) (h : w.Ausgeschlossen)
    (hok : w.TorFrei op) (hstep : w.step op = some w') : w'.Ausgeschlossen := by
  by_cases hend : op = .endQuiesce
  · subst hend
    cases hstep
    exact fun _ => hok
  have hblind : w.ep.quiescing = false → w.BlindFrei op := by
    cases op with
    | endQuiesce => exact absurd rfl hend
    | _ => exact hok
  cases hq : w.ep.quiescing with
  | false => exact fun _ => step_getrennt w op w' (h hq) (hblind hq) hstep
  | true =>
    intro hopen
    have hclosed := (step_ohneNeue w op w' hq hend hstep).quiescing
    rw [hopen] at hclosed
    cases hclosed

theorem step_not_ausgeschlossen (w : System) (op : Op) (w' : System) (h : w.Ausgeschlossen)
    (hbad : ¬ w.TorFrei op) (hstep : w.step op = some w') : ¬ w'.Ausgeschlossen := by
  by_cases hend : op = .endQuiesce
  · subst hend
    cases hstep
    exact fun hsep => hbad (hsep rfl)
  have hboth : w.ep.quiescing = false ∧ ¬ w.BlindFrei op := by
    cases op with
    | endQuiesce => exact absurd rfl hend
    | _ => exact Classical.not_imp.mp hbad
  obtain ⟨hnot, hquiet⟩ := step_not_getrennt w op w' (h hboth.1) hboth.2 hstep
  exact fun hsep => hnot (hsep (hquiet.trans hboth.1))

theorem init_getrennt (lebt : ThreadId → Bool) (frame : ThreadId → Frame) :
    (init lebt frame).ep.Getrennt := .inl rfl

/-- In a finished run nobody waits for each other outside of a quiescence exactly if bindings
and migrations there met no waiting partner and the gate was opened over separate queues. -/
theorem run_ausgeschlossen_iff (lebt : ThreadId → Bool) (frame : ThreadId → Frame)
    (ops : List Op) (w : System) (hrun : run step (init lebt frame) ops = some w) :
    (∀ xs v, xs <+: ops → run step (init lebt frame) xs = some v → v.Ausgeschlossen) ↔
      Admissible step TorFrei (init lebt frame) ops :=
  forall_reached_iff_admissible (fun _ h => h) step_ausgeschlossen step_not_ausgeschlossen
    (fun _ => init_getrennt lebt frame) hrun

/-- The run of the ordinary transaction: both sides hold. -/
theorem run_ausgeschlossen_iff_recv_call_reply :
    ∃ w, run step (init (fun _ => true) fun _ => ⟨0, 0, fun _ => 0, 0⟩)
        [.recv ⟨1, 0⟩, .call ⟨2, 0⟩ 7, .reply ⟨1, 0⟩] = some w ∧ w.Ausgeschlossen := by
  have hiff := run_ausgeschlossen_iff (fun _ => true) (fun _ => ⟨0, 0, fun _ => 0, 0⟩)
    [.recv ⟨1, 0⟩, .call ⟨2, 0⟩ 7, .reply ⟨1, 0⟩] _ rfl
  refine ⟨_, rfl, hiff.mpr ?_ _ _ List.prefix_rfl rfl⟩
  exact ⟨fun _ => trivial, fun _ _ => ⟨fun _ => trivial, fun _ _ => ⟨fun _ => trivial,
    fun _ _ => trivial⟩⟩⟩

/-- A server takes a call, a second one waits, and the first is migrated: the caller waits for
the second server, which waits for a call. -/
theorem run_migrateOwner_meets_receiver :
    ∃ w, run step (init (fun _ => true) fun _ => ⟨0, 0, fun _ => 0, 0⟩)
        [.recv ⟨1, 0⟩, .call ⟨3, 0⟩ 7, .recv ⟨2, 0⟩, .migrateOwner ⟨1, 0⟩] = some w ∧
      w.ep.quiescing = false ∧ w.ep.senders.toList = [⟨3, 0⟩] ∧
      w.ep.receivers.toList = [⟨2, 0⟩] ∧ ¬ w.Ausgeschlossen := by
  refine ⟨_, rfl, rfl, by decide, by decide, fun h => ?_⟩
  rcases h rfl with hs | hr
  · exact absurd hs (by decide)
  · exact absurd hr (by decide)

end System

end Caprock.Ipc
