import Caprock.Ipc.Rendezvous

/-! # Quiescent endpoints

A quiescing endpoint refuses every new transaction: the one it still has can only end.  That is
what makes the check of `rebindServer` last until its exchange: it goes through only where nobody
sends, no answer is owed and no third thread receives, and leaves the new server as the only
receiver.
-/

namespace Caprock.Ipc

open Execution

namespace Endpoint

variable {e e' : Endpoint} {old new : ThreadId}

/-- The endpoint shows the same; the ring of a queue may have turned. -/
structure Gleich (e e' : Endpoint) : Prop where
  used : e'.used = e.used
  quiescing : e'.quiescing = e.quiescing
  senders : e'.senders.toList = e.senders.toList
  receivers : e'.receivers.toList = e.receivers.toList
  caller : e'.caller = e.caller
  replyOwner : e'.replyOwner = e.replyOwner

theorem Gleich.refl (e : Endpoint) : e.Gleich e := ⟨rfl, rfl, rfl, rfl, rfl, rfl⟩

/-- Nobody but the two servers of an exchange is here, and none of them is in a transaction. -/
structure Ruht (e : Endpoint) (old new : ThreadId) : Prop where
  used : e.used = true
  quiescing : e.quiescing = true
  senders : e.senders.toList = []
  caller : e.caller = none
  replyOwner : e.replyOwner = none
  receivers : ∀ t ∈ e.receivers.toList, t = old ∨ t = new

theorem eq_of_length_le {l : List ThreadId}
    (hlen : l.length ≤ (if old ∈ l then 1 else 0) + if new ∈ l then 1 else 0)
    (hne : old ≠ new) : (∀ t ∈ l, t = old ∨ t = new) ∧
      (l.filter fun t => t ≠ old) = if new ∈ l then [new] else [] := by
  match l, hlen with
  | [], _ => simp
  | [a], hlen =>
    by_cases ha : a = old
    · subst ha
      simp [Ne.symm hne]
    · have hnew : a = new := by
        by_contra hnot
        simp [Ne.symm ha, Ne.symm hnot] at hlen
      subst hnew
      simp [ha]
  | [a, b], hlen =>
    have hold : old ∈ [a, b] := by
      by_contra hnot
      rw [if_neg hnot] at hlen
      split at hlen
      · simp at hlen
      · simp at hlen
    have hnew : new ∈ [a, b] := by
      by_contra hnot
      rw [if_neg hnot] at hlen
      split at hlen
      · simp at hlen
      · simp at hlen
    simp only [List.mem_cons, List.not_mem_nil, or_false] at hold hnew
    rcases hold with rfl | rfl
    · obtain rfl := hnew.resolve_left (Ne.symm hne)
      simp [Ne.symm hne]
    · obtain rfl := hnew.resolve_right (Ne.symm hne)
      simp [Ne.symm hne]
  | a :: b :: c :: l, hlen =>
    have hthree : 3 ≤ (a :: b :: c :: l).length := by simp
    split at hlen
    · split at hlen
      · omega
      · omega
    · split at hlen
      · omega
      · omega

theorem austausch_cases {e : Endpoint} (hne : old ≠ new)
    (hcount : e.receivers.toList.length ≤
      (if old ∈ e.receivers.toList then 1 else 0) + if new ∈ e.receivers.toList then 1 else 0)
    (heq : e.rebindServer old new =
      if !(e.receivers.remove old).1 then
        (.notReceiver, { e with receivers := (e.receivers.remove old).2 })
      else if decide (new ∈ e.receivers.toList) then
        (.done true, { e with receivers := (e.receivers.remove old).2 })
      else (.done false, { e with receivers := ((e.receivers.remove old).2.push new).2 })) :
    (old ∉ e.receivers.toList ∧ ∃ q : TidQueue, q.toList = e.receivers.toList ∧
        e.rebindServer old new = (.notReceiver, { e with receivers := q })) ∨
      old ∈ e.receivers.toList ∧ ∃ q : TidQueue, q.toList = [new] ∧
        e.rebindServer old new =
          (.done (decide (new ∈ e.receivers.toList)), { e with receivers := q }) := by
  have hremove := RingBuffer.toList_remove e.receivers old
  have hfound := RingBuffer.remove_found e.receivers old
  have hfilter := (eq_of_length_le hcount hne).2
  rw [heq]
  by_cases hold : old ∈ e.receivers.toList
  · right
    rw [hfound.mpr hold]
    by_cases hnew : new ∈ e.receivers.toList
    · refine ⟨hold, (e.receivers.remove old).2, ?_, by simp [hnew]⟩
      rw [hremove, hfilter, if_pos hnew]
    · have hempty : (e.receivers.remove old).2.toList = [] := by
        rw [hremove, hfilter, if_neg hnew]
      have hroom : (e.receivers.remove old).2.count < queueCap := by
        rw [← RingBuffer.length_toList, hempty]
        decide
      refine ⟨hold, ((e.receivers.remove old).2.push new).2, ?_, by simp [hnew]⟩
      rw [(RingBuffer.push_of_room hroom new).2, hempty]
      rfl
  · left
    have hkept : (e.receivers.remove old).1 = false := by
      rw [Bool.eq_false_iff]
      exact fun h => hold (hfound.mp h)
    rw [hkept]
    refine ⟨hold, (e.receivers.remove old).2, ?_, rfl⟩
    rw [hremove]
    apply List.filter_eq_self.mpr
    intro t ht
    simpa using fun h : t = old => hold (h ▸ ht)

theorem rebindServer_cases (e : Endpoint) (old new : ThreadId) :
    (∃ r, (∀ b, r ≠ .done b) ∧ e.rebindServer old new = (r, e)) ∨
      e.Ruht old new ∧
        ((old ∉ e.receivers.toList ∧ ∃ q : TidQueue, q.toList = e.receivers.toList ∧
            e.rebindServer old new = (.notReceiver, { e with receivers := q })) ∨
          old ∈ e.receivers.toList ∧ ∃ q : TidQueue, q.toList = [new] ∧
            e.rebindServer old new =
              (.done (decide (new ∈ e.receivers.toList)), { e with receivers := q })) := by
  by_cases hused : e.used = true
  swap
  · exact .inl ⟨.noEndpoint, nofun, by simp [rebindServer, hused]⟩
  by_cases hq : e.quiescing = true
  swap
  · exact .inl ⟨.notQuiescing, nofun, by simp [rebindServer, hused, hq]⟩
  by_cases hne : old = new
  · exact .inl ⟨.sameThread, nofun, by simp [rebindServer, hused, hq, hne]⟩
  generalize hwhy : (⟨e.senders.count != 0,
    ((if old ∈ e.receivers.toList then 1 else 0) +
      if decide (new ∈ e.receivers.toList) then 1 else 0) < e.receivers.count,
    e.caller.isSome || e.replyOwner.isSome⟩ : RebindBlocked) = why
  by_cases hfree : why = ⟨false, false, false⟩
  swap
  · refine .inl ⟨.blocked why, nofun, ?_⟩
    unfold rebindServer
    simp only [hused, hq, hne, hwhy, Bool.not_true, Bool.false_eq_true, if_false]
    exact if_pos hfree
  right
  have heq : e.rebindServer old new =
      if !(e.receivers.remove old).1 then
        (.notReceiver, { e with receivers := (e.receivers.remove old).2 })
      else if decide (new ∈ e.receivers.toList) then
        (.done true, { e with receivers := (e.receivers.remove old).2 })
      else (.done false,
        { e with receivers := ((e.receivers.remove old).2.push new).2 }) := by
    unfold rebindServer
    simp only [hused, hq, hne, hwhy, hfree, Bool.not_true, Bool.false_eq_true, if_false,
      ne_eq, not_true_eq_false]
  subst hfree
  simp only [RebindBlocked.mk.injEq, bne_eq_false_iff_eq, decide_eq_false_iff_not, Nat.not_lt,
    Bool.or_eq_false_iff, Option.isSome_eq_false_iff, Option.isNone_iff_eq_none,
    decide_eq_true_eq] at hwhy
  obtain ⟨hsenders, hcount, hcaller, howner⟩ := hwhy
  rw [← RingBuffer.length_toList] at hsenders hcount
  exact ⟨⟨hused, hq, List.eq_nil_of_length_eq_zero hsenders, hcaller, howner,
    (eq_of_length_le hcount hne).1⟩, austausch_cases hne hcount heq⟩

theorem rebindServer_gleich (e : Endpoint) (old new : ThreadId)
    (h : ∀ b, (e.rebindServer old new).1 ≠ .done b) : e.Gleich (e.rebindServer old new).2 := by
  rcases rebindServer_cases e old new with ⟨r, -, heq⟩ | ⟨-, ⟨-, q, hq, heq⟩ | ⟨-, q, -, heq⟩⟩
  · rw [heq]
    exact Gleich.refl e
  · rw [heq]
    exact ⟨rfl, rfl, rfl, hq, rfl, rfl⟩
  · rw [heq] at h
    exact absurd rfl (h _)

theorem rebindServer_done (e : Endpoint) (old new : ThreadId) {b : Bool}
    (h : (e.rebindServer old new).1 = .done b) :
    e.Ruht old new ∧ old ∈ e.receivers.toList ∧
      ∃ q : TidQueue, q.toList = [new] ∧ (e.rebindServer old new).2 = { e with receivers := q } := by
  rcases rebindServer_cases e old new with ⟨r, hr, heq⟩ | ⟨hruht, ⟨-, q, -, heq⟩ | ⟨hold, q, hq, heq⟩⟩
  · rw [heq] at h
    exact absurd h (hr b)
  · rw [heq] at h
    cases h
  · exact ⟨hruht, hold, q, hq, by rw [heq]⟩

theorem purgeThread_parts (e : Endpoint) (t : ThreadId) :
    (e.purgeThread t).2.quiescing = e.quiescing ∧
      (e.purgeThread t).2.senders = (e.senders.remove t).2 ∧
      (e.purgeThread t).2.receivers = (e.receivers.remove t).2 ∧
      ((e.purgeThread t).2.caller = e.caller ∧ (e.purgeThread t).2.replyOwner = e.replyOwner ∨
        (e.purgeThread t).2.caller = none ∧ (e.purgeThread t).2.replyOwner = none) := by
  unfold purgeThread
  split
  · exact ⟨rfl, rfl, rfl, .inr ⟨rfl, rfl⟩⟩
  · exact ⟨rfl, rfl, rfl, .inl ⟨rfl, rfl⟩⟩

theorem gate_of_quiescing (hq : e.quiescing = true) :
    ∃ code, code ≠ Result.ok ∧ e.gateNewTransaction = some code := by
  unfold gateNewTransaction
  cases hused : e.used with
  | false => exact ⟨Result.errBadcap, by decide, rfl⟩
  | true => exact ⟨Result.errQuiescing, by decide, by simp [hq]⟩

end Endpoint

namespace System

variable {w v u : System}

theorem ep_reply (w : System) (t : ThreadId) :
    (w.reply t).ep = w.ep ∨
      (w.reply t).ep = { w.ep with replyOwner := none, caller := none } := by
  unfold reply
  split
  · exact .inl rfl
  · right
    split
    · rfl
    · split
      · rfl
      · rw [ep_setResult, ep_deliver]
        rfl

theorem ep_wakeOrphan (w : System) (e : Endpoint) (o : Option ThreadId) :
    (w.wakeOrphan e o).ep = e := by
  cases o with
  | none => rfl
  | some c => rw [wakeOrphan, ep_unblockWithError, ep_setEp]

theorem ep_abortCall (w : System) (c : ThreadId) :
    (w.ep.abortCall c).2 = w.ep ∨
      (w.ep.abortCall c).2 = { w.ep with replyOwner := none, caller := none } := by
  unfold Endpoint.abortCall
  split
  · exact .inr rfl
  · exact .inl rfl

theorem ep_ownerDied (w : System) (o : ThreadId) :
    (w.ep.ownerDied o).2 = w.ep ∨
      (w.ep.ownerDied o).2 = { w.ep with replyOwner := none, caller := none } := by
  unfold Endpoint.ownerDied
  split
  · exact .inr rfl
  · exact .inl rfl

theorem ep_abmelden (w : System) (t : ThreadId) : (w.abmelden t).ep = w.ep := by
  unfold abmelden
  split
  · rfl
  · exact ep_block w t _

/-- From `w` to `v` no transaction began: the token is the old one or spent, and no further
thread received a request. -/
structure OhneNeue (w v : System) : Prop where
  quiescing : v.ep.quiescing = true
  token : v.ep.caller = w.ep.caller ∧ v.ep.replyOwner = w.ep.replyOwner ∨
    v.ep.caller = none ∧ v.ep.replyOwner = none
  empfaenger : v.empfaenger = w.empfaenger

theorem OhneNeue.refl (hq : w.ep.quiescing = true) : OhneNeue w w := ⟨hq, .inl ⟨rfl, rfl⟩, rfl⟩

theorem OhneNeue.trans (h : OhneNeue w v) (h' : OhneNeue v u) : OhneNeue w u := by
  refine ⟨h'.quiescing, ?_, h'.empfaenger.trans h.empfaenger⟩
  rcases h'.token with ⟨hc, ho⟩ | hspent
  · rw [hc, ho]
    exact h.token
  · exact .inr hspent

theorem OhneNeue.of_ep (hq : w.ep.quiescing = true)
    (hep : v.ep = w.ep ∨ v.ep = { w.ep with replyOwner := none, caller := none })
    (hemp : v.empfaenger = w.empfaenger) : OhneNeue w v := by
  rcases hep with heq | heq
  · exact ⟨by rw [heq, hq], .inl ⟨by rw [heq], by rw [heq]⟩, hemp⟩
  · exact ⟨by rw [heq]; exact hq, .inr ⟨by rw [heq], by rw [heq]⟩, hemp⟩

theorem OhneNeue.of_places (hq : w.ep.quiescing = true) {e : Endpoint}
    (hquiet : e.quiescing = w.ep.quiescing)
    (h : e.senders = w.ep.senders ∧ e.caller = w.ep.caller ∧ e.replyOwner = w.ep.replyOwner) :
    OhneNeue w (w.setEp e) :=
  ⟨hquiet.trans hq, .inl ⟨h.2.1, h.2.2⟩, rfl⟩

theorem call_quiescing (hq : w.ep.quiescing = true) (t : ThreadId) (badge : Nat) :
    ∃ code, code ≠ Result.ok ∧ w.call t badge = w.setResult t code := by
  obtain ⟨code, hcode, hgate⟩ := Endpoint.gate_of_quiescing hq
  exact ⟨code, hcode, by simp only [call, hgate]⟩

theorem recv_quiescing (hq : w.ep.quiescing = true) (t : ThreadId) :
    ∃ code, code ≠ Result.ok ∧ w.recv t = w.setResult t code := by
  obtain ⟨code, hcode, hgate⟩ := Endpoint.gate_of_quiescing hq
  exact ⟨code, hcode, by simp only [recv, hgate]⟩

theorem empfaenger_reply (w : System) (t : ThreadId) : (w.reply t).empfaenger = w.empfaenger := by
  rcases reply_cases w t with ⟨-, heq⟩ | ⟨-, -, -, -, hemp, -⟩
  · rw [heq, empfaenger_setResult]
  · exact hemp

theorem empfaenger_wakeOrphan (w : System) (e : Endpoint) (o : Option ThreadId) :
    (w.wakeOrphan e o).empfaenger = w.empfaenger := by
  cases o with
  | none => rfl
  | some c => rw [wakeOrphan, empfaenger_unblockWithError, empfaenger_setEp]

theorem empfaenger_abmelden (w : System) (t : ThreadId) :
    (w.abmelden t).empfaenger = w.empfaenger := by
  unfold abmelden
  split
  · rfl
  · exact empfaenger_block w t _

theorem step_ohneNeue (w : System) (op : Op) (v : System) (hq : w.ep.quiescing = true)
    (hop : op ≠ .endQuiesce) (hstep : w.step op = some v) : OhneNeue w v := by
  cases op with
  | call t badge =>
    obtain ⟨-, rfl⟩ := of_guarded hstep
    obtain ⟨code, -, heq⟩ := call_quiescing hq t badge
    rw [heq]
    exact .of_ep hq (.inl (ep_setResult w t code)) (empfaenger_setResult w t code)
  | recv t =>
    obtain ⟨-, rfl⟩ := of_guarded hstep
    obtain ⟨code, -, heq⟩ := recv_quiescing hq t
    rw [heq]
    exact .of_ep hq (.inl (ep_setResult w t code)) (empfaenger_setResult w t code)
  | reply t =>
    obtain ⟨-, rfl⟩ := of_guarded hstep
    exact .of_ep hq (ep_reply w t) (empfaenger_reply w t)
  | abortCall c =>
    cases hstep
    apply OhneNeue.of_ep hq
    · rw [ep_wakeOrphan]
      exact ep_abortCall w c
    · exact empfaenger_wakeOrphan w _ _
  | purgeThread t =>
    cases hstep
    obtain ⟨hquiet, -, -, htoken⟩ := w.ep.purgeThread_parts t
    refine ⟨?_, ?_, empfaenger_abmelden _ t⟩
    · rw [ep_abmelden]
      exact hquiet.trans hq
    · rw [ep_abmelden]
      exact htoken
  | ownerDied o =>
    cases hstep
    apply OhneNeue.of_ep hq
    · rw [ep_wakeOrphan]
      exact ep_ownerDied w o
    · exact empfaenger_wakeOrphan w _ _
  | rebindServer old new =>
    cases hstep
    apply OhneNeue.of_places hq _ (rebindServer_places w.ep old new)
    unfold Endpoint.rebindServer
    dsimp only
    split_ifs <;> rfl
  | migrateOwner o =>
    cases hstep
    show OhneNeue w (w.setEp (w.ep.migrateOwner o).2)
    unfold Endpoint.migrateOwner
    split
    · cases hc : w.ep.caller with
      | none => exact .of_places hq rfl ⟨rfl, rfl, rfl⟩
      | some c => exact ⟨hq, .inr ⟨rfl, rfl⟩, rfl⟩
    · exact .of_places hq rfl ⟨rfl, rfl, rfl⟩
  | bindReceiver t =>
    cases hstep
    apply OhneNeue.of_places hq _ (bindReceiver_places w.ep t)
    unfold Endpoint.bindReceiver
    split <;> rfl
  | retireReceiver t =>
    cases hstep
    apply OhneNeue.of_places hq _ (retireReceiver_places w.ep t)
    unfold Endpoint.retireReceiver
    split <;> rfl
  | beginQuiesce =>
    cases hstep
    apply OhneNeue.of_places hq _ (beginQuiesce_places w.ep)
    unfold Endpoint.beginQuiesce
    simp [hq]
  | endQuiesce => exact absurd rfl hop
  | kill t =>
    cases hstep
    exact .of_ep hq (.inl rfl) rfl
  | frist t =>
    obtain ⟨-, rfl⟩ := of_guarded hstep
    exact .of_ep hq (.inl rfl) rfl

theorem run_ohneNeue {ops : List Op} (hq : w.ep.quiescing = true)
    (hops : ∀ op ∈ ops, op ≠ .endQuiesce) (hrun : run step w ops = some v) : OhneNeue w v := by
  induction ops generalizing w with
  | nil =>
    obtain rfl : w = v := by simpa using hrun
    exact OhneNeue.refl hq
  | cons op ops ih =>
    obtain ⟨w', hw', hrest⟩ := run_cons_eq_some.mp hrun
    have hfirst := step_ohneNeue w op w' hq (hops op List.mem_cons_self) hw'
    have hlast := ih hfirst.quiescing (fun op' hop' => hops op' (List.mem_cons_of_mem op hop'))
      hrest
    exact hfirst.trans hlast

/-- Until the gate is opened again nothing new begins, whatever is done meanwhile, and the
exchange of the server is all or nothing. -/
theorem run_quiescing_starts_nothing (w v : System) (ops : List Op)
    (hq : w.ep.quiescing = true) (hops : ∀ op ∈ ops, op ≠ .endQuiesce)
    (hrun : run step w ops = some v) :
    OhneNeue w v ∧
      (∀ t badge, ∃ code, code ≠ Result.ok ∧ v.call t badge = v.setResult t code) ∧
      (∀ t, ∃ code, code ≠ Result.ok ∧ v.recv t = v.setResult t code) ∧
      ∀ (e : Endpoint) (old new : ThreadId),
        (∀ b, (e.rebindServer old new).1 = .done b →
          e.Ruht old new ∧ old ∈ e.receivers.toList ∧ ∃ q : TidQueue, q.toList = [new] ∧
            (e.rebindServer old new).2 = { e with receivers := q }) ∧
        ((∀ b, (e.rebindServer old new).1 ≠ .done b) → e.Gleich (e.rebindServer old new).2) := by
  have hrest := run_ohneNeue hq hops hrun
  refine ⟨hrest, call_quiescing hrest.quiescing, recv_quiescing hrest.quiescing, ?_⟩
  intro e old new
  exact ⟨fun b hb => e.rebindServer_done old new hb, e.rebindServer_gleich old new⟩

/-- A server waits, the gate closes, a client calls in vain and the server is exchanged. -/
theorem run_quiescing_starts_nothing_rebind :
    ∃ w v, run step (init (fun _ => true) fun _ => ⟨0, 0, fun _ => 0, 0⟩)
        [.recv ⟨1, 0⟩, .beginQuiesce] = some w ∧
      run step w [.call ⟨2, 0⟩ 7, .rebindServer ⟨1, 0⟩ ⟨3, 0⟩] = some v ∧ OhneNeue w v ∧
      v.ep.receivers.toList = [⟨3, 0⟩] :=
  ⟨_, _, rfl, rfl, (run_quiescing_starts_nothing _ _ [.call ⟨2, 0⟩ 7, .rebindServer ⟨1, 0⟩ ⟨3, 0⟩]
    rfl (by simp) rfl).1, by decide⟩

end System

end Caprock.Ipc
