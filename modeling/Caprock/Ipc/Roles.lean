import Mathlib.Data.List.Nodup
import Caprock.Ipc.Quiescence
import Caprock.Ipc.ReplyOwner

/-! # Roles at an endpoint

A thread stands at an endpoint as a queued sender, as a queued receiver, as the caller of
the open transaction or as the server that owes its answer.  `quiescenceOf` asks for the
roles of one thread, `occupants` lists all places of the endpoint that are taken.  The first
part connects the two: the list has one entry for each queue entry and each token cell, and a
pair is in it exactly when the thread has the role.  The second part follows a thread that
dies.
-/

namespace Caprock.Ipc

open Execution

inductive Role where
  | sender
  | receiver
  | caller
  | replyOwner
  deriving DecidableEq, Repr

structure Quiescence where
  asSender : Bool
  asReceiver : Bool
  asCaller : Bool
  asReplyOwner : Bool
  deriving DecidableEq, Repr

namespace Quiescence

def keine : Quiescence := ⟨false, false, false, false⟩

def isQuiescent (q : Quiescence) : Bool :=
  !(q.asSender || q.asReceiver || q.asCaller || q.asReplyOwner)

def hat (q : Quiescence) : Role → Bool
  | .sender => q.asSender
  | .receiver => q.asReceiver
  | .caller => q.asCaller
  | .replyOwner => q.asReplyOwner

theorem isQuiescent_iff (q : Quiescence) : q.isQuiescent = true ↔ ∀ r, q.hat r = false := by
  constructor
  · intro h r
    simp only [isQuiescent, Bool.not_eq_true', Bool.or_eq_false_iff] at h
    obtain ⟨⟨⟨hs, hr⟩, hc⟩, ho⟩ := h
    cases r with
    | sender => exact hs
    | receiver => exact hr
    | caller => exact hc
    | replyOwner => exact ho
  · intro h
    have hs := h .sender
    have hr := h .receiver
    have hc := h .caller
    have ho := h .replyOwner
    simp only [hat] at hs hr hc ho
    simp [isQuiescent, hs, hr, hc, ho]

end Quiescence

/-- The buffer of an enumeration: what is written, how much fits, how much is needed. -/
structure Ausgabe where
  out : List (ThreadId × Role)
  n : Nat
  need : Nat

namespace Ausgabe

/-- One more entry: it is written if there is room and counted in any case. -/
def push (a : Ausgabe) (t : ThreadId) (r : Role) : Ausgabe :=
  if a.n < a.out.length then ⟨a.out.set a.n (t, r), a.n + 1, a.need + 1⟩
  else { a with need := a.need + 1 }

/-- The entries `l` were pushed, starting with the buffer `out`. -/
structure Nach (out : List (ThreadId × Role)) (l : List (ThreadId × Role)) (a : Ausgabe) :
    Prop where
  need : a.need = l.length
  n : a.n = min l.length out.length
  out : a.out = l.take out.length ++ out.drop l.length

variable {out l : List (ThreadId × Role)} {a : Ausgabe}

theorem Nach.start (out : List (ThreadId × Role)) : Nach out [] ⟨out, 0, 0⟩ := by
  constructor
  · rfl
  · simp
  · simp

theorem Nach.length (h : Nach out l a) : a.out.length = out.length := by
  rw [h.out, List.length_append, List.length_take, List.length_drop]
  omega

theorem Nach.push (h : Nach out l a) (t : ThreadId) (r : Role) :
    Nach out (l ++ [(t, r)]) (a.push t r) := by
  unfold Ausgabe.push
  rw [h.length]
  by_cases hroom : a.n < out.length
  · have hlt : l.length < out.length := by
      have hn := h.n
      omega
    have hn : a.n = l.length := by rw [h.n, Nat.min_eq_left (Nat.le_of_lt hlt)]
    rw [if_pos hroom]
    constructor
    · simp [h.need]
    · rw [hn, List.length_append, List.length_singleton, Nat.min_eq_left hlt]
    · rw [h.out, hn, List.take_of_length_le (Nat.le_of_lt hlt),
        List.take_of_length_le (by simpa using Nat.succ_le_of_lt hlt),
        List.set_append_right _ _ (Nat.le_refl _), Nat.sub_self, List.drop_eq_getElem_cons hlt,
        List.set_cons_zero]
      simp
  · have hge : out.length ≤ l.length := by
      have hn := h.n
      omega
    rw [if_neg hroom]
    constructor
    · simp [h.need]
    · rw [h.n, List.length_append, List.length_singleton]
      omega
    · rw [h.out, List.take_append_of_le_length hge, List.length_append, List.length_singleton,
        List.drop_eq_nil_of_le hge, List.drop_eq_nil_of_le (by omega)]

theorem Nach.pushAll (h : Nach out l a) (r : Role) (ts : List ThreadId) :
    Nach out (l ++ ts.map (·, r)) (ts.foldl (fun a t => a.push t r) a) := by
  induction ts generalizing l a with
  | nil => simpa using h
  | cons t ts ih =>
    have hnext := ih (h.push t r)
    rwa [List.append_assoc] at hnext

theorem Nach.pushOption (h : Nach out l a) (r : Role) (o : Option ThreadId) :
    Nach out (l ++ o.toList.map (·, r)) (match o with | some t => a.push t r | none => a) := by
  cases o with
  | none => simpa using h
  | some t => exact h.push t r

end Ausgabe

namespace Endpoint

def quiescenceOf (e : Endpoint) (tid : ThreadId) : Quiescence :=
  if !e.used then Quiescence.keine
  else
    { asSender := decide (tid ∈ e.senders.toList)
      asReceiver := decide (tid ∈ e.receivers.toList)
      asCaller := decide (e.caller = some tid)
      asReplyOwner := decide (e.replyOwner = some tid) }

/-- Write all participants with their roles to `out`; `error need` if they do not fit. -/
def occupants (e : Endpoint) (out : List (ThreadId × Role)) :
    Except Nat Nat × List (ThreadId × Role) :=
  if !e.used then (.ok 0, out)
  else
    let a := e.senders.toList.foldl (fun a t => a.push t .sender) (⟨out, 0, 0⟩ : Ausgabe)
    let a := e.receivers.toList.foldl (fun a t => a.push t .receiver) a
    let a := match e.caller with | some c => a.push c .caller | none => a
    let a := match e.replyOwner with | some o => a.push o .replyOwner | none => a
    if out.length < a.need then (.error a.need, a.out) else (.ok a.n, a.out)

def inRolle (e : Endpoint) : Role → List ThreadId
  | .sender => e.senders.toList
  | .receiver => e.receivers.toList
  | .caller => e.caller.toList
  | .replyOwner => e.replyOwner.toList

/-- All places that are taken: the entries of both queues and the two cells of the token. -/
def plaetze (e : Endpoint) : List (ThreadId × Role) :=
  if e.used then
    (e.inRolle .sender).map (·, .sender) ++ (e.inRolle .receiver).map (·, .receiver) ++
      (e.inRolle .caller).map (·, .caller) ++ (e.inRolle .replyOwner).map (·, .replyOwner)
  else []

variable (e : Endpoint)

theorem occupants_eq (out : List (ThreadId × Role)) :
    e.occupants out =
      if e.plaetze.length ≤ out.length then
        (.ok e.plaetze.length, e.plaetze ++ out.drop e.plaetze.length)
      else (.error e.plaetze.length, e.plaetze.take out.length) := by
  unfold occupants plaetze inRolle
  by_cases hused : e.used = true
  · have hnach := (((Ausgabe.Nach.start out).pushAll .sender e.senders.toList).pushAll .receiver
      e.receivers.toList).pushOption .caller e.caller |>.pushOption .replyOwner e.replyOwner
    rw [List.nil_append] at hnach
    simp only [hused, Bool.not_true, Bool.false_eq_true, if_true, if_false]
    rw [hnach.need, hnach.n, hnach.out]
    split
    · rename_i hlt
      rw [if_neg (Nat.not_le.mpr hlt), List.drop_eq_nil_of_le (Nat.le_of_lt hlt), List.append_nil]
    · rename_i hge
      rw [if_pos (Nat.not_lt.mp hge), Nat.min_eq_left (Nat.not_lt.mp hge),
        List.take_of_length_le (Nat.not_lt.mp hge)]
  · simp [hused]

theorem hat_quiescenceOf (t : ThreadId) (r : Role) :
    (e.quiescenceOf t).hat r = true ↔ e.used = true ∧ t ∈ e.inRolle r := by
  unfold quiescenceOf
  cases hused : e.used with
  | false => cases r <;> simp [Quiescence.hat, Quiescence.keine]
  | true => cases r <;> simp [Quiescence.hat, inRolle]

theorem count_map_pair (l : List ThreadId) (r r' : Role) (t : ThreadId) :
    (l.map (·, r)).count (t, r') = if r = r' then l.count t else 0 := by
  induction l with
  | nil => simp
  | cons x l ih =>
    rw [List.map_cons, List.count_cons, List.count_cons, ih]
    by_cases hr : r = r'
    · simp [hr]
    · simp [hr]

theorem count_plaetze (t : ThreadId) (r : Role) :
    e.plaetze.count (t, r) = if e.used then (e.inRolle r).count t else 0 := by
  unfold plaetze
  cases hused : e.used with
  | false => simp
  | true =>
    simp only [if_true, List.count_append, count_map_pair]
    cases r <;> simp

theorem mem_plaetze (t : ThreadId) (r : Role) :
    (t, r) ∈ e.plaetze ↔ (e.quiescenceOf t).hat r = true := by
  rw [hat_quiescenceOf, ← List.count_pos_iff, count_plaetze, ← List.count_pos_iff]
  cases e.used <;> simp

theorem plaetze_eq_nil_iff :
    e.plaetze = [] ↔ ∀ t, (e.quiescenceOf t).isQuiescent = true := by
  simp only [Quiescence.isQuiescent_iff, List.eq_nil_iff_forall_not_mem, Prod.forall,
    mem_plaetze, Bool.not_eq_true]

theorem nodup_plaetze_iff :
    e.plaetze.Nodup ↔
      (e.used = true → e.senders.toList.Nodup ∧ e.receivers.toList.Nodup) := by
  simp only [List.nodup_iff_count_le_one, Prod.forall, count_plaetze]
  cases e.used with
  | false => simp
  | true =>
    simp only [if_true, forall_const]
    constructor
    · intro h
      exact ⟨fun t => h t .sender, fun t => h t .receiver⟩
    · rintro ⟨hs, hr⟩ t r
      cases r with
      | sender => exact hs t
      | receiver => exact hr t
      | caller => exact List.nodup_iff_count_le_one.mp (Option.toList_nodup e.caller) t
      | replyOwner => exact List.nodup_iff_count_le_one.mp (Option.toList_nodup e.replyOwner) t

/-- The enumeration fills the buffer with the places that are taken, or reports their number;
a pair is among them exactly if the single question reports the role. -/
theorem occupants_spec (e : Endpoint) :
    (∀ out, e.occupants out =
      if e.plaetze.length ≤ out.length then
        (.ok e.plaetze.length, e.plaetze ++ out.drop e.plaetze.length)
      else (.error e.plaetze.length, e.plaetze.take out.length)) ∧
    (∀ t r, (t, r) ∈ e.plaetze ↔ (e.quiescenceOf t).hat r = true) ∧
    (∀ t r, e.plaetze.count (t, r) = if e.used then (e.inRolle r).count t else 0) ∧
    (e.plaetze.Nodup ↔
      (e.used = true → e.senders.toList.Nodup ∧ e.receivers.toList.Nodup)) ∧
    (e.plaetze = [] ↔ ∀ t, (e.quiescenceOf t).isQuiescent = true) :=
  ⟨e.occupants_eq, e.mem_plaetze, e.count_plaetze, e.nodup_plaetze_iff, e.plaetze_eq_nil_iff⟩

end Endpoint

namespace System

/-- A thread whose deadline ended its wait calls again before its old queue entry is purged:
it is a sender and nothing else, but two entries are needed. -/
theorem occupants_call_frist_call :
    ∃ w, run step (init (fun _ => true) fun _ => ⟨0, 0, fun _ => 0, 0⟩)
        [.call ⟨1, 0⟩ 7, .frist ⟨1, 0⟩, .call ⟨1, 0⟩ 7] = some w ∧
      (∀ t r, (w.ep.quiescenceOf t).hat r = true ↔ t = ⟨1, 0⟩ ∧ r = .sender) ∧
      ∀ x, (w.ep.occupants [x]).1 = .error 2 := by
  obtain ⟨w, hrun, hlist, hocc⟩ :
      ∃ w, run step (init (fun _ => true) fun _ => ⟨0, 0, fun _ => 0, 0⟩)
          [.call ⟨1, 0⟩ 7, .frist ⟨1, 0⟩, .call ⟨1, 0⟩ 7] = some w ∧
        w.ep.plaetze = [(⟨1, 0⟩, .sender), (⟨1, 0⟩, .sender)] ∧
        ∀ x, (w.ep.occupants [x]).1 = .error 2 := ⟨_, rfl, rfl, fun _ => rfl⟩
  refine ⟨w, hrun, ?_, hocc⟩
  intro t r
  rw [← Endpoint.mem_plaetze, hlist]
  simp

end System

namespace Endpoint

def abbau (e : Endpoint) (t : ThreadId) : Endpoint := ((e.purgeThread t).2.ownerDied t).2

section

variable (e : Endpoint) (t : ThreadId)

def HatToken : Prop := e.caller = some t ∨ e.replyOwner = some t

theorem senders_abbau : (e.abbau t).senders = (e.senders.remove t).2 := by
  unfold abbau purgeThread ownerDied
  split <;> split <;> rfl

theorem receivers_abbau : (e.abbau t).receivers = (e.receivers.remove t).2 := by
  unfold abbau purgeThread ownerDied
  split <;> split <;> rfl

theorem token_abbau_of_hatToken (h : e.HatToken t) :
    (e.abbau t).caller = none ∧ (e.abbau t).replyOwner = none := by
  unfold abbau purgeThread ownerDied
  by_cases hcaller : e.caller = some t
  · simp [hcaller]
  · have howner : e.replyOwner = some t := h.resolve_left hcaller
    simp [hcaller, howner]

theorem token_abbau_of_not_hatToken (h : ¬ e.HatToken t) :
    (e.abbau t).caller = e.caller ∧ (e.abbau t).replyOwner = e.replyOwner := by
  obtain ⟨hcaller, howner⟩ := not_or.mp h
  unfold abbau purgeThread ownerDied
  simp [hcaller, howner]

theorem abbau_comm : ((e.ownerDied t).2.purgeThread t).2 = e.abbau t := by
  unfold abbau purgeThread ownerDied
  by_cases hcaller : e.caller = some t
  · by_cases howner : e.replyOwner = some t
    · simp [hcaller, howner]
    · simp [hcaller, howner]
  · by_cases howner : e.replyOwner = some t
    · simp [hcaller, howner]
    · simp [hcaller, howner]

theorem keine_abbau : (e.abbau t).quiescenceOf t = Quiescence.keine := by
  have hcaller : (e.abbau t).caller ≠ some t ∧ (e.abbau t).replyOwner ≠ some t := by
    by_cases h : e.HatToken t
    · obtain ⟨hc, ho⟩ := e.token_abbau_of_hatToken t h
      simp [hc, ho]
    · obtain ⟨hc, ho⟩ := e.token_abbau_of_not_hatToken t h
      rw [hc, ho]
      exact not_or.mp h
  unfold quiescenceOf
  rw [senders_abbau, receivers_abbau, RingBuffer.toList_remove, RingBuffer.toList_remove]
  cases (e.abbau t).used with
  | false => rfl
  | true => simp [hcaller, Quiescence.keine]

end

end Endpoint

namespace System

def Gepaart (w : System) : Prop := w.ep.caller.isSome = w.ep.replyOwner.isSome

theorem init_gepaart (lebt : ThreadId → Bool) (frame : ThreadId → Frame) :
    (init lebt frame).Gepaart := rfl

theorem call_gepaart {w : System} (h : w.Gepaart) (t : ThreadId) (badge : Nat) :
    (w.call t badge).Gepaart := by
  apply call_elim w t badge
  · intro code
    exact h
  · intro server receivers _ _ _
    rw [Gepaart, ep_handOff]
    rfl
  · intro receivers _
    obtain ⟨hcaller, howner, -⟩ := queueSender_cases
      (w.setFrame t fun fr => { fr with epBadge := badge }) t receivers
    rw [Gepaart, hcaller, howner]
    exact h

theorem recv_gepaart {w : System} (h : w.Gepaart) (t : ThreadId) :
    (w.recv t).Gepaart := by
  apply recv_elim w t
  · intro code
    exact h
  · intro dead sender senders _ _ _ _
    rfl
  · intro senders _
    obtain ⟨hcaller, howner, -⟩ := queueReceiver_cases w t senders
    rw [Gepaart, hcaller, howner]
    exact h

theorem Gepaart.of_token {w w' : System} {e : Endpoint} (h : w.Gepaart) (hep : w'.ep = e)
    (htoken : e.caller = w.ep.caller ∧ e.replyOwner = w.ep.replyOwner ∨
      e.caller = none ∧ e.replyOwner = none) : w'.Gepaart := by
  unfold Gepaart at *
  rw [hep]
  rcases htoken with ⟨hcaller, howner⟩ | ⟨hcaller, howner⟩
  · rw [hcaller, howner, h]
  · rw [hcaller, howner]

theorem step_gepaart (w : System) (op : Op) (w' : System) (h : w.Gepaart)
    (hstep : w.step op = some w') : w'.Gepaart := by
  cases op with
  | call t badge =>
    obtain ⟨-, rfl⟩ := of_guarded hstep
    exact call_gepaart h t badge
  | recv t =>
    obtain ⟨-, rfl⟩ := of_guarded hstep
    exact recv_gepaart h t
  | reply t =>
    obtain ⟨-, rfl⟩ := of_guarded hstep
    rcases ep_reply w t with heq | heq
    · exact h.of_token heq (.inl ⟨rfl, rfl⟩)
    · exact h.of_token heq (.inr ⟨rfl, rfl⟩)
  | abortCall c =>
    cases hstep
    have hep := ep_wakeOrphan w (w.ep.abortCall c).2 (w.ep.abortCall c).1
    rcases ep_abortCall w c with heq | heq
    · exact h.of_token (hep.trans heq) (.inl ⟨rfl, rfl⟩)
    · exact h.of_token (hep.trans heq) (.inr ⟨rfl, rfl⟩)
  | purgeThread t =>
    cases hstep
    obtain ⟨-, -, -, htoken⟩ := w.ep.purgeThread_parts t
    exact h.of_token (ep_abmelden (w.setEp (w.ep.purgeThread t).2) t) htoken
  | ownerDied o =>
    cases hstep
    have hep := ep_wakeOrphan w (w.ep.ownerDied o).2 (w.ep.ownerDied o).1
    rcases ep_ownerDied w o with heq | heq
    · exact h.of_token (hep.trans heq) (.inl ⟨rfl, rfl⟩)
    · exact h.of_token (hep.trans heq) (.inr ⟨rfl, rfl⟩)
  | rebindServer old new =>
    cases hstep
    obtain ⟨-, hc, ho⟩ := rebindServer_places w.ep old new
    exact h.of_token (ep_setEp w _) (.inl ⟨hc, ho⟩)
  | migrateOwner o =>
    cases hstep
    unfold Endpoint.migrateOwner
    split
    · split
      · exact h.of_token (ep_setEp w _) (.inr ⟨rfl, rfl⟩)
      · exact h
    · exact h
  | bindReceiver t =>
    cases hstep
    obtain ⟨-, hc, ho⟩ := bindReceiver_places w.ep t
    exact h.of_token (ep_setEp w _) (.inl ⟨hc, ho⟩)
  | retireReceiver t =>
    cases hstep
    obtain ⟨-, hc, ho⟩ := retireReceiver_places w.ep t
    exact h.of_token (ep_setEp w _) (.inl ⟨hc, ho⟩)
  | beginQuiesce =>
    cases hstep
    obtain ⟨-, hc, ho⟩ := beginQuiesce_places w.ep
    exact h.of_token (ep_setEp w _) (.inl ⟨hc, ho⟩)
  | endQuiesce | kill t =>
    cases hstep
    exact h
  | frist t =>
    obtain ⟨-, rfl⟩ := of_guarded hstep
    exact h

theorem run_purge_died (w : System) (t : ThreadId) :
    ∃ w', run step w [.purgeThread t, .ownerDied t] = some w' ∧ w'.ep = w.ep.abbau t := by
  refine ⟨_, rfl, ?_⟩
  rw [ep_wakeOrphan, ep_abmelden, ep_setEp]
  rfl

/-- In every reachable state the cells of the token are filled together.  The two calls for a
dying thread leave it no role, keep the queues of the others in their order, and drop the
token exactly if the thread held one of its cells. -/
theorem run_abbau {lebt : ThreadId → Bool} {frame : ThreadId → Frame} {ops : List Op}
    {w : System} (hrun : run step (init lebt frame) ops = some w) (t : ThreadId) :
    w.ep.caller.isSome = w.ep.replyOwner.isSome ∧
    ∃ w', run step w [.purgeThread t, .ownerDied t] = some w' ∧
      w'.ep = ((w.ep.ownerDied t).2.purgeThread t).2 ∧
      (w'.ep.quiescenceOf t).isQuiescent = true ∧
      w'.ep.senders.toList = w.ep.senders.toList.filter (fun u => u ≠ t) ∧
      w'.ep.receivers.toList = w.ep.receivers.toList.filter (fun u => u ≠ t) ∧
      (w'.ep.caller, w'.ep.replyOwner) =
        if w.ep.caller = some t ∨ w.ep.replyOwner = some t then (none, none)
        else (w.ep.caller, w.ep.replyOwner) := by
  have hpair : w.Gepaart := 
    run_invariant_of_step step_gepaart (init_gepaart lebt frame) hrun
  obtain ⟨w', hw', hep⟩ := run_purge_died w t
  refine ⟨hpair, w', hw', ?_, ?_, ?_, ?_, ?_⟩
  · rw [hep, Endpoint.abbau_comm]
  · rw [hep, Endpoint.keine_abbau]
    rfl
  · rw [hep, Endpoint.senders_abbau, RingBuffer.toList_remove]
  · rw [hep, Endpoint.receivers_abbau, RingBuffer.toList_remove]
  · rw [hep]
    split
    · rename_i htoken
      obtain ⟨hc, ho⟩ := w.ep.token_abbau_of_hatToken t htoken
      rw [hc, ho]
    · rename_i htoken
      obtain ⟨hc, ho⟩ := w.ep.token_abbau_of_not_hatToken t htoken
      rw [hc, ho]

/-- A run with two queued senders, of which the second dies. -/
theorem run_abbau_call_call :
    ∃ w w', run step (init (fun _ => true) fun _ => ⟨0, 0, fun _ => 0, 0⟩)
        [.call ⟨1, 0⟩ 7, .call ⟨2, 0⟩ 7] = some w ∧
      run step w [.purgeThread ⟨2, 0⟩, .ownerDied ⟨2, 0⟩] = some w' ∧
      (w'.ep.quiescenceOf ⟨2, 0⟩).isQuiescent = true ∧
      w'.ep.senders.toList = [⟨1, 0⟩] := by
  obtain ⟨w, hrun, hsenders⟩ :
      ∃ w, run step (init (fun _ => true) fun _ => ⟨0, 0, fun _ => 0, 0⟩)
          [.call ⟨1, 0⟩ 7, .call ⟨2, 0⟩ 7] = some w ∧
        w.ep.senders.toList = [⟨1, 0⟩, ⟨2, 0⟩] := ⟨_, rfl, rfl⟩
  obtain ⟨-, w', hw', -, hquiet, hlist, -⟩ := run_abbau hrun ⟨2, 0⟩
  refine ⟨w, w', hrun, hw', hquiet, ?_⟩
  rw [hlist, hsenders]
  decide

/-- A server that owes an answer dies: its caller, another thread, loses its role as well. -/
theorem run_recv_call_abbau :
    ∃ w w', run step (init (fun _ => true) fun _ => ⟨0, 0, fun _ => 0, 0⟩)
        [.recv ⟨1, 0⟩, .call ⟨2, 0⟩ 7] = some w ∧
      run step w [.purgeThread ⟨1, 0⟩, .ownerDied ⟨1, 0⟩] = some w' ∧
      (w.ep.quiescenceOf ⟨2, 0⟩).asCaller = true ∧
      (w'.ep.quiescenceOf ⟨2, 0⟩).asCaller = false :=
  ⟨_, _, rfl, rfl, by decide, by decide⟩

end System

end Caprock.Ipc
