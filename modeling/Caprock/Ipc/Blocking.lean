import Caprock.Ipc.Notification
import Caprock.Ipc.Rendezvous

/-! # Blocking and registration

Who blocks must be found again.  `call` blocks its caller when it has queued it as a sender
or handed its request to a receiver, `recv` when it has queued it, `wait` when it has put it
into the waiter cell; a refusal leaves it running.  From each of these places the next
operations of the partners wake it.
-/

namespace Caprock.Ipc

open Execution

namespace System

/-- The operations of a rendezvous. -/
def Op.Rendezvous : Op → Prop
  | .call _ _ | .recv _ | .reply _ => True
  | _ => False

/-- Operations of the rendezvous lead to a state in which `t` runs. -/
def Weckt (w : System) (t : ThreadId) : Prop :=
  ∃ ops w', (∀ op ∈ ops, op.Rendezvous) ∧ run step w ops = some w' ∧ w'.warten t = .laufend

def Weckbar (w : System) (t : ThreadId) : Prop := ∀ s, w.laeuft s = true → w.Weckt t

structure Wartend (w : System) (t : ThreadId) : Prop where
  lebt : w.lebt t = true
  warten : w.warten t ≠ .laufend

variable {w : System} {t s : ThreadId}

theorem Wartend.wartetAufIpc (h : w.Wartend t) : w.wartetAufIpc t = true :=
  (wartetAufIpc_iff w t).mpr ⟨h.lebt, h.warten⟩

theorem used_of_gate {e : Endpoint} (h : e.gateNewTransaction = none) : e.used = true := by
  unfold Endpoint.gateNewTransaction at h
  cases hused : e.used with
  | true => rfl
  | false => simp [hused] at h

theorem ep_reply_of_used (hused : w.ep.used = true) (t : ThreadId) :
    (w.reply t).ep = { w.ep with replyOwner := none, caller := none } := by
  unfold reply
  simp only [hused, Bool.not_true, Bool.false_eq_true, if_false]
  split
  · rfl
  · split <;> simp

theorem warten_reply (hused : w.ep.used = true) (t x : ThreadId) :
    (w.reply t).warten x =
      if w.ep.caller = some x ∧ w.wartetAufIpc x = true then .laufend else w.warten x := by
  rcases reply_cases w t with ⟨hfalse, -⟩ | ⟨-, -, -, -, -, -, hwarten⟩
  · rw [hused] at hfalse
    cases hfalse
  · exact hwarten x

theorem lebt_reply (hused : w.ep.used = true) (t x : ThreadId) : (w.reply t).lebt x = w.lebt x := by
  rcases reply_cases w t with ⟨hfalse, -⟩ | ⟨-, -, -, -, -, hlebt, -⟩
  · rw [hused] at hfalse
    cases hfalse
  · exact hlebt x

theorem laeuft_reply (hused : w.ep.used = true) (t : ThreadId) (h : w.laeuft s = true) :
    (w.reply t).laeuft s = true := by
  obtain ⟨hlebt, hwarten⟩ := (laeuft_iff w s).mp h
  refine (laeuft_iff _ s).mpr ⟨by rw [lebt_reply hused, hlebt], ?_⟩
  rw [warten_reply hused, hwarten, ite_self]

theorem weckbar_of_caller (hused : w.ep.used = true) (hcaller : w.ep.caller = some t)
    (ht : w.Wartend t) : w.Weckbar t := by
  intro s hs
  refine ⟨[.reply s], w.reply s, by simp [Op.Rendezvous], ?_, ?_⟩
  · rw [run_cons_of_step (show w.step (.reply s) = some (w.reply s) by rw [step, if_pos hs])]
    rfl
  · rw [warten_reply hused, if_pos ⟨hcaller, ht.wartetAufIpc⟩]

theorem weckt_of_run {v : System} (ops : List Op) (hops : ∀ op ∈ ops, op.Rendezvous)
    (hrun : run step w ops = some v) (h : v.Weckt t) : w.Weckt t := by
  obtain ⟨ops', w', hops', hrun', hw'⟩ := h
  refine ⟨ops ++ ops', w', ?_, ?_, hw'⟩
  · intro op hop
    rcases List.mem_append.mp hop with hop | hop
    · exact hops op hop
    · exact hops' op hop
  · rw [run_append, hrun]
    exact hrun'

/-- The receiver that a `call` meets. -/
def partner (w : System) : Option ThreadId := w.ep.receivers.toList.find? w.lebt

/-- The request of `t` went to `server`, which owes the answer. -/
structure Uebergeben (w w' : System) (t server : ThreadId) : Prop where
  offen : w.ep.gateNewTransaction = none
  partner : w.partner = some server
  caller : w'.ep.caller = some t
  replyOwner : w'.ep.replyOwner = some server

def AlsSender (w w' : System) (t : ThreadId) : Prop :=
  w'.ep.senders.toList = w.ep.senders.toList ++ [t]

def AlsEmpfaenger (w w' : System) (t : ThreadId) : Prop :=
  w'.ep.receivers.toList = w.ep.receivers.toList ++ [t]

def Abgewiesen (w' : System) (t : ThreadId) : Prop :=
  w'.warten t = .laufend ∧ (w'.thread t).frame.result ≠ Result.ok

theorem find?_of_split {lebt : ThreadId → Bool} {dead rest : List ThreadId} {x : ThreadId}
    (hdead : ∀ y ∈ dead, lebt y = false) (hx : lebt x = true) :
    (dead ++ x :: rest).find? lebt = some x := by
  rw [List.find?_append, List.find?_eq_none.mpr fun y hy => by simp [hdead y hy], Option.none_or,
    List.find?_cons_of_pos hx]

theorem call_ausgang (w : System) (t : ThreadId) (badge : Nat) :
    (∃ code, w.ep.gateNewTransaction = some code ∧ w.call t badge = w.setResult t code) ∨
    w.ep.gateNewTransaction = none ∧
      ((∃ (dead : List ThreadId) (server : ThreadId) (receivers : TidQueue),
        w.ep.receivers.toList = dead ++ server :: receivers.toList ∧
          (∀ y ∈ dead, w.lebt y = false) ∧ w.lebt server = true ∧
          w.call t badge = (w.setFrame t fun fr => { fr with epBadge := badge }).handOff t server
            badge receivers) ∨
      (∀ y ∈ w.ep.receivers.toList, w.lebt y = false) ∧ ∃ receivers : TidQueue,
        receivers.toList = [] ∧
          w.call t badge = (w.setFrame t fun fr => { fr with epBadge := badge }).queueSender t
            receivers) := by
  cases hgate : w.ep.gateNewTransaction with
  | some code =>
    refine .inl ⟨code, rfl, ?_⟩
    rw [call, hgate]
  | none =>
    refine .inr ⟨rfl, ?_⟩
    have hlebt : (w.setFrame t fun fr => { fr with epBadge := badge }).lebt = w.lebt := by
      funext x
      simp
    have hcases := dequeueLive_cases w.lebt _ w.ep.receivers (Nat.le_refl _)
    rw [call, hgate]
    simp only [ep_setFrame, hlebt]
    rcases hdq : dequeueLive w.lebt w.ep.receivers.count w.ep.receivers with ⟨o, receivers⟩
    rw [hdq] at hcases
    rcases hcases with ⟨dead, server, rest, hl, hdead, hserver, rfl, rfl⟩ | ⟨hdead, rfl, hnil⟩
    · exact .inl ⟨dead, server, receivers, hl, hdead, hserver, rfl⟩
    · exact .inr ⟨hdead, receivers, hnil, rfl⟩

theorem recv_ausgang (w : System) (t : ThreadId) :
    (∃ code, w.ep.gateNewTransaction = some code ∧ w.recv t = w.setResult t code) ∨
    w.ep.gateNewTransaction = none ∧
      ((∃ (dead : List ThreadId) (sender : ThreadId) (senders : TidQueue),
        w.ep.senders.toList = dead ++ sender :: senders.toList ∧ (∀ y ∈ dead, w.lebt y = false) ∧
          w.lebt sender = true ∧ w.recv t = w.takeOver t sender senders) ∨
      (∀ y ∈ w.ep.senders.toList, w.lebt y = false) ∧ ∃ senders : TidQueue,
        senders.toList = [] ∧ w.recv t = w.queueReceiver t senders) := by
  cases hgate : w.ep.gateNewTransaction with
  | some code =>
    refine .inl ⟨code, rfl, ?_⟩
    rw [recv, hgate]
  | none =>
    refine .inr ⟨rfl, ?_⟩
    have hcases := dequeueLive_cases w.lebt _ w.ep.senders (Nat.le_refl _)
    rw [recv, hgate]
    rcases hdq : dequeueLive w.lebt w.ep.senders.count w.ep.senders with ⟨o, senders⟩
    rw [hdq] at hcases
    rcases hcases with ⟨dead, sender, rest, hl, hdead, hsender, rfl, rfl⟩ | ⟨hdead, rfl, hnil⟩
    · exact .inl ⟨dead, sender, senders, hl, hdead, hsender, rfl⟩
    · exact .inr ⟨hdead, senders, hnil, rfl⟩

/-- The first living thread of a queue is taken out: a living one that waits in the queue is that
thread or waits in the rest, which is shorter. -/
theorem lebend_im_rest {l dead rest : List ThreadId} {first : ThreadId} {n : Nat}
    (hl : l = dead ++ first :: rest) (hdead : ∀ y ∈ dead, w.lebt y = false)
    (hlen : l.length ≤ n + 1) (hmem : t ∈ l) (ht : w.lebt t = true) :
    rest.length ≤ n ∧ (t ≠ first → t ∈ rest) := by
  rw [hl] at hlen hmem
  rw [List.length_append, List.length_cons] at hlen
  refine ⟨by omega, fun hne => ?_⟩
  rcases List.mem_append.mp hmem with hin | hin
  · have hfalse := hdead t hin
    rw [ht] at hfalse
    cases hfalse
  · exact (List.mem_cons.mp hin).resolve_left hne

/-- A living sender is reached by receiving and answering again and again: each round takes the
first living sender out. -/
theorem weckt_sender (n : Nat) (hlen : w.ep.senders.toList.length ≤ n)
    (hgate : w.ep.gateNewTransaction = none) (hmem : t ∈ w.ep.senders.toList) (ht : w.Wartend t)
    (hs : w.laeuft s = true) : w.Weckt t := by
  induction n generalizing w with
  | zero =>
    rw [List.eq_nil_of_length_eq_zero (Nat.le_zero.mp hlen)] at hmem
    cases hmem
  | succ n ih =>
    rcases recv_ausgang w s with ⟨code, hcode, -⟩ | ⟨-, ⟨dead, sender, senders, hl, hdead,
      hsender, heq⟩ | ⟨hdead, -⟩⟩
    · rw [hgate] at hcode
      cases hcode
    · have hrecv : w.step (.recv s) = some (w.takeOver s sender senders) := by
        rw [step, if_pos hs, heq]
      obtain ⟨hslebt, hslauf⟩ := (laeuft_iff w s).mp hs
      have hs' : (w.takeOver s sender senders).laeuft s = true :=
        (laeuft_iff _ s).mpr ⟨by simpa using hslebt, by simpa using hslauf⟩
      have hep := ep_takeOver w s sender senders
      have hused : (w.takeOver s sender senders).ep.used = true := by
        rw [hep]
        exact used_of_gate hgate
      have ht' : (w.takeOver s sender senders).Wartend t :=
        ⟨by simpa using ht.lebt, by simpa using ht.warten⟩
      obtain ⟨hshort, hrest⟩ := lebend_im_rest hl hdead hlen hmem ht.lebt
      refine weckt_of_run [.recv s] (by simp [Op.Rendezvous])
        (by rw [run_cons_of_step hrecv]; rfl) ?_
      by_cases hsame : sender = t
      · subst hsame
        exact weckbar_of_caller hused (by rw [hep]) ht' s hs'
      · have hreply : (w.takeOver s sender senders).step (.reply s) =
            some ((w.takeOver s sender senders).reply s) := by
          rw [step, if_pos hs']
        refine weckt_of_run [.reply s] (by simp [Op.Rendezvous])
          (by rw [run_cons_of_step hreply]; rfl) (ih ?_ ?_ ?_ ⟨?_, ?_⟩ ?_)
        · rw [ep_reply_of_used hused, hep]
          exact hshort
        · rw [ep_reply_of_used hused, hep]
          exact hgate
        · rw [ep_reply_of_used hused, hep]
          exact hrest (Ne.symm hsame)
        · rw [lebt_reply hused, ht'.lebt]
        · rw [warten_reply hused, hep, if_neg (by simp [hsame])]
          exact ht'.warten
        · exact laeuft_reply hused s hs'
    · have hfalse := hdead t hmem
      rw [ht.lebt] at hfalse
      cases hfalse

/-- A living receiver is reached by calling again and again: each call wakes the first living
receiver, which answers and so lets the caller go on. -/
theorem weckt_receiver (n : Nat) (hlen : w.ep.receivers.toList.length ≤ n)
    (hgate : w.ep.gateNewTransaction = none) (hmem : t ∈ w.ep.receivers.toList) (ht : w.Wartend t)
    (hs : w.laeuft s = true) : w.Weckt t := by
  induction n generalizing w with
  | zero =>
    rw [List.eq_nil_of_length_eq_zero (Nat.le_zero.mp hlen)] at hmem
    cases hmem
  | succ n ih =>
    rcases call_ausgang w s 0 with ⟨code, hcode, -⟩ | ⟨-, ⟨dead, server, receivers, hl, hdead,
      hserver, heq⟩ | ⟨hdead, -⟩⟩
    · rw [hgate] at hcode
      cases hcode
    · obtain ⟨hslebt, hslauf⟩ := (laeuft_iff w s).mp hs
      have hcall : w.step (.call s 0) = some (w.call s 0) := by
        rw [step, if_pos hs]
      obtain ⟨hshort, hrest⟩ := lebend_im_rest hl hdead hlen hmem ht.lebt
      set v := w.call s 0 with hv
      have hep : v.ep = { w.ep with
          receivers := receivers, caller := some s, replyOwner := some server } := by
        rw [heq, ep_handOff, ep_setFrame]
      have hlebt (x : ThreadId) : v.lebt x = w.lebt x := by
        rw [heq, lebt_handOff, lebt_setFrame]
      have hwarten (x : ThreadId) : v.warten x =
          if x = server then .laufend else if x = s then .imRuf else w.warten x := by
        rw [heq, warten_handOff _ _ _ _ _ _ (by simpa using hserver), warten_setFrame]
      refine weckt_of_run [.call s 0] (by simp [Op.Rendezvous])
        (by rw [run_cons_of_step hcall]; rfl) ?_
      by_cases hsame : t = server
      · exact ⟨[], v, by simp, rfl, by rw [hwarten, if_pos hsame]⟩
      · have hused : v.ep.used = true := by
          rw [hep]
          exact used_of_gate hgate
        have hrun : v.laeuft server = true :=
          (laeuft_iff v server).mpr ⟨by rw [hlebt, hserver], by rw [hwarten, if_pos rfl]⟩
        have hreply : v.step (.reply server) = some (v.reply server) := by
          rw [step, if_pos hrun]
        have hts : t ≠ s := by
          rintro rfl
          exact ht.warten hslauf
        refine weckt_of_run [.reply server] (by simp [Op.Rendezvous])
          (by rw [run_cons_of_step hreply]; rfl) (ih ?_ ?_ ?_ ⟨?_, ?_⟩ ?_)
        · rw [ep_reply_of_used hused, hep]
          exact hshort
        · rw [ep_reply_of_used hused, hep]
          exact hgate
        · rw [ep_reply_of_used hused, hep]
          exact hrest hsame
        · rw [lebt_reply hused, hlebt, ht.lebt]
        · rw [warten_reply hused, hep, if_neg (by simp [Ne.symm hts]), hwarten, if_neg hsame,
            if_neg hts]
          exact ht.warten
        · refine (laeuft_iff _ s).mpr ⟨by rw [lebt_reply hused, hlebt, hslebt], ?_⟩
          -- The answer reaches the caller, or it was its own server and never stopped.
          rw [warten_reply hused, hep]
          by_cases hown : s = server
          · rw [hwarten, if_pos hown, ite_self]
          · have hwait : v.wartetAufIpc s = true := by
              refine (wartetAufIpc_iff v s).mpr ⟨by rw [hlebt, hslebt], ?_⟩
              rw [hwarten, if_neg hown, if_pos rfl]
              exact Warten.noConfusion
            rw [if_pos ⟨rfl, hwait⟩]
    · have hfalse := hdead t hmem
      rw [ht.lebt] at hfalse
      cases hfalse

theorem queueSender_voll (h : queueCap ≤ w.ep.senders.count) (t : ThreadId) (receivers : TidQueue) :
    w.queueSender t receivers =
      (w.setEp { w.ep with receivers := receivers }).setResult t Result.errEpFull := by
  unfold queueSender
  rw [RingBuffer.push_of_full h]
  rfl

theorem queueSender_platz (h : w.ep.senders.count < queueCap) (t : ThreadId)
    (receivers : TidQueue) :
    ∃ senders : TidQueue,
      senders.toList = w.ep.senders.toList ++ [t] ∧ w.queueSender t receivers =
        (w.setEp { w.ep with receivers := receivers, senders := senders }).block t .imRuf := by
  obtain ⟨hok, hlist⟩ := RingBuffer.push_of_room h t
  refine ⟨_, hlist, ?_⟩
  unfold queueSender
  dsimp only
  rw [hok, if_pos rfl]

theorem queueReceiver_voll (h : queueCap ≤ w.ep.receivers.count) (t : ThreadId)
    (senders : TidQueue) :
    w.queueReceiver t senders =
      (w.setEp { w.ep with senders := senders }).setResult t Result.errEpFull := by
  unfold queueReceiver
  rw [RingBuffer.push_of_full h]
  rfl

theorem queueReceiver_platz (h : w.ep.receivers.count < queueCap) (t : ThreadId)
    (senders : TidQueue) :
    ∃ receivers : TidQueue,
      receivers.toList = w.ep.receivers.toList ++ [t] ∧ w.queueReceiver t senders =
        (w.setEp { w.ep with senders := senders, receivers := receivers }).block t .imEmpfang := by
  obtain ⟨hok, hlist⟩ := RingBuffer.push_of_room h t
  refine ⟨_, hlist, ?_⟩
  unfold queueReceiver
  dsimp only
  rw [hok, if_pos rfl]

theorem frame_block (w : System) (t x : ThreadId) (why : Warten) :
    ((w.block t why).thread x).frame = (w.thread x).frame := by
  unfold block modifyThread
  by_cases hx : x = t
  · subst hx
    simp
  · simp [Function.update_of_ne hx]

theorem frame_unblock (w : System) (t x : ThreadId) :
    ((w.unblock t).thread x).frame = (w.thread x).frame := by
  unfold unblock
  split
  · exact frame_block w t x _
  · rfl

theorem result_handOff (w : System) (t server : ThreadId) (badge : Nat) (receivers : TidQueue) :
    ((w.handOff t server badge receivers).thread server).frame.result = Result.ok := by
  unfold handOff
  rw [frame_unblock, frame_block]
  simp [modifyThread, setFrame, setEp, notiere]

theorem result_takeOver (w : System) (t sender : ThreadId) (senders : TidQueue) :
    ((w.takeOver t sender senders).thread t).frame.result = Result.ok := by
  simp [takeOver, modifyThread, setFrame, setEp, notiere]

theorem not_alsSender_of_senders {w' : System} (h : w'.ep.senders = w.ep.senders) :
    ¬ AlsSender w w' t := by
  rw [AlsSender, h]
  simp

theorem not_alsEmpfaenger_of_receivers {w' : System} (h : w'.ep.receivers = w.ep.receivers) :
    ¬ AlsEmpfaenger w w' t := by
  rw [AlsEmpfaenger, h]
  simp

/-- What `call` by the running thread `t` leaves. -/
structure RufSpec (w : System) (t : ThreadId) (badge : Nat) (w' : System) : Prop where
  blockiert_iff : w'.warten t ≠ .laufend ↔
    AlsSender w w' t ∨ ∃ server, server ≠ t ∧ Uebergeben w w' t server
  geweckt : w'.warten t ≠ .laufend → w'.Weckbar t
  abgewiesen : Abgewiesen w' t →
    (∃ code, w.ep.gateNewTransaction = some code ∧ w' = w.setResult t code) ∨
    (queueCap ≤ w.ep.senders.count ∧ (∀ x ∈ w.ep.receivers.toList, w.lebt x = false) ∧
      ∃ receivers : TidQueue, receivers.toList = [] ∧
        w' = ((w.setFrame t fun fr => { fr with epBadge := badge }).setEp
          { w.ep with receivers := receivers }).setResult t Result.errEpFull)

/-- What `recv` by the running thread `t` leaves. -/
structure EmpfangSpec (w : System) (t : ThreadId) (w' : System) : Prop where
  blockiert_iff : w'.warten t ≠ .laufend ↔ AlsEmpfaenger w w' t
  geweckt : w'.warten t ≠ .laufend → w'.Weckbar t
  abgewiesen : Abgewiesen w' t →
    (∃ code, w.ep.gateNewTransaction = some code ∧ w' = w.setResult t code) ∨
    (queueCap ≤ w.ep.receivers.count ∧ (∀ x ∈ w.ep.senders.toList, w.lebt x = false) ∧
      ∃ senders : TidQueue, senders.toList = [] ∧
        w' = (w.setEp { w.ep with senders := senders }).setResult t Result.errEpFull)

theorem call_spec (w : System) (t : ThreadId) (badge : Nat) (ht : w.laeuft t = true) :
    RufSpec w t badge (w.call t badge) := by
  obtain ⟨htlebt, hlauf⟩ := (laeuft_iff w t).mp ht
  rcases call_ausgang w t badge with ⟨code, hgate, heq⟩ | ⟨hgate, ⟨dead, server, receivers, hl,
    hdead, hserver, heq⟩ | ⟨hdead, receivers, hnil, heq⟩⟩
  · rw [heq]
    have hsame : (w.setResult t code).warten t = .laufend := by simpa using hlauf
    refine ⟨⟨fun h => absurd hsame h, ?_⟩, fun h => absurd hsame h,
      fun _ => .inl ⟨code, hgate, rfl⟩⟩
    rintro (h | ⟨server, -, h⟩)
    · exact absurd h (not_alsSender_of_senders rfl)
    · have hoffen := h.offen
      rw [hgate] at hoffen
      cases hoffen
  · have hpartner : w.partner = some server := by
      rw [partner, hl, find?_of_split hdead hserver]
    have hwarten := warten_handOff (w.setFrame t fun fr => { fr with epBadge := badge }) t t server
      badge receivers (by simpa using hserver)
    have hep := ep_handOff (w.setFrame t fun fr => { fr with epBadge := badge }) t server badge
      receivers
    have hlebt : (w.call t badge).lebt t = true := by
      rw [heq, lebt_handOff, lebt_setFrame, htlebt]
    have hresult := result_handOff (w.setFrame t fun fr => { fr with epBadge := badge }) t server
      badge receivers
    rw [← heq] at hwarten hep hresult
    by_cases hst : t = server
    · -- The thread was its own first receiver: it goes on with its own request.
      rw [if_pos hst] at hwarten
      refine ⟨⟨fun h => absurd hwarten h, ?_⟩, fun h => absurd hwarten h, fun h => ?_⟩
      · rintro (h | ⟨server', hne, h⟩)
        · exact absurd h (not_alsSender_of_senders (by rw [hep]; rfl))
        · have hsame := h.partner
          rw [hpartner, Option.some.injEq] at hsame
          exact absurd (hsame.symm.trans hst.symm) hne
      · rw [← hst] at hresult
        exact absurd hresult h.2
    · rw [if_neg hst, if_pos rfl] at hwarten
      have hblocked : (w.call t badge).warten t ≠ .laufend := by
        rw [hwarten]
        exact Warten.noConfusion
      refine ⟨⟨fun _ => .inr ⟨server, Ne.symm hst, hgate, hpartner, by rw [hep], by rw [hep]⟩,
        fun _ => hblocked⟩, fun _ => ?_, fun h => absurd h.1 hblocked⟩
      apply weckbar_of_caller ?_ (by rw [hep]) ⟨hlebt, hblocked⟩
      rw [hep]
      exact used_of_gate hgate
  · by_cases hfull : queueCap ≤ w.ep.senders.count
    · rw [queueSender_voll (by simpa using hfull)] at heq
      have hsame : (w.call t badge).warten t = .laufend := by
        rw [heq]
        simpa using hlauf
      refine ⟨⟨fun h => absurd hsame h, ?_⟩, fun h => absurd hsame h,
        fun _ => .inr ⟨hfull, hdead, receivers, hnil, heq⟩⟩
      rintro (h | ⟨server, -, h⟩)
      · exact absurd h (not_alsSender_of_senders (by rw [heq]; rfl))
      · have hlebt := List.find?_some h.partner
        rw [hdead server (List.mem_of_find?_eq_some h.partner)] at hlebt
        cases hlebt
    · obtain ⟨senders, hlist, hq⟩ := queueSender_platz
        (w := w.setFrame t fun fr => { fr with epBadge := badge }) (by simpa using hfull) t receivers
      rw [hq] at heq
      have hblocked : (w.call t badge).warten t ≠ .laufend := by
        rw [heq, warten_block, if_pos rfl]
        exact Warten.noConfusion
      have hmem : t ∈ (w.call t badge).ep.senders.toList := by
        rw [heq]
        show t ∈ senders.toList
        rw [hlist]
        exact List.mem_append_right _ (List.mem_singleton.mpr rfl)
      refine ⟨⟨fun _ => .inl (by rw [heq]; exact hlist), fun _ => hblocked⟩, fun _ s hs => ?_,
        fun h => absurd h.1 hblocked⟩
      apply weckt_sender _ (Nat.le_refl _) ?_ hmem ⟨?_, hblocked⟩ hs
      · rw [heq]
        exact hgate
      · rw [heq]
        simpa using htlebt

theorem recv_spec (w : System) (t : ThreadId) (ht : w.laeuft t = true) :
    EmpfangSpec w t (w.recv t) := by
  obtain ⟨htlebt, hlauf⟩ := (laeuft_iff w t).mp ht
  rcases recv_ausgang w t with ⟨code, hgate, heq⟩ | ⟨hgate, ⟨dead, sender, senders, -, -, -, heq⟩ |
    ⟨hdead, senders, hnil, heq⟩⟩
  · rw [heq]
    have hsame : (w.setResult t code).warten t = .laufend := by simpa using hlauf
    refine ⟨⟨fun h => absurd hsame h, fun h => ?_⟩, fun h => absurd hsame h,
      fun _ => .inl ⟨code, hgate, rfl⟩⟩
    exact absurd h (not_alsEmpfaenger_of_receivers rfl)
  · rw [heq]
    have hsame : (w.takeOver t sender senders).warten t = .laufend := by simpa using hlauf
    refine ⟨⟨fun h => absurd hsame h, fun h => ?_⟩, fun h => absurd hsame h, fun h => ?_⟩
    · exact absurd h (not_alsEmpfaenger_of_receivers (by rw [ep_takeOver]))
    · exact absurd (result_takeOver w t sender senders) h.2
  · by_cases hfull : queueCap ≤ w.ep.receivers.count
    · rw [queueReceiver_voll hfull] at heq
      have hsame : (w.recv t).warten t = .laufend := by
        rw [heq]
        simpa using hlauf
      refine ⟨⟨fun h => absurd hsame h, fun h => ?_⟩, fun h => absurd hsame h,
        fun _ => .inr ⟨hfull, hdead, senders, hnil, heq⟩⟩
      exact absurd h (not_alsEmpfaenger_of_receivers (by rw [heq]; rfl))
    · obtain ⟨receivers, hlist, hq⟩ := queueReceiver_platz (Nat.lt_of_not_le hfull) t senders
      rw [hq] at heq
      have hblocked : (w.recv t).warten t ≠ .laufend := by
        rw [heq, warten_block, if_pos rfl]
        exact Warten.noConfusion
      have hmem : t ∈ (w.recv t).ep.receivers.toList := by
        rw [heq]
        show t ∈ receivers.toList
        rw [hlist]
        exact List.mem_append_right _ (List.mem_singleton.mpr rfl)
      refine ⟨⟨fun _ => by rw [heq]; exact hlist, fun _ => hblocked⟩, fun _ s hs => ?_,
        fun h => absurd h.1 hblocked⟩
      apply weckt_receiver _ (Nat.le_refl _) ?_ hmem ⟨?_, hblocked⟩ hs
      · rw [heq]
        exact hgate
      · rw [heq]
        simpa using htlebt

end System

namespace Notification.System

/-- What `wait` by the running thread `t` leaves. -/
structure WarteSpec (w : System) (t : ThreadId) (w' : System) : Prop where
  blockiert_iff : (w'.thread t).blockiert = true ↔
    w.ntfn.waiter = none ∧ w'.ntfn.waiter = some t
  geweckt : (w'.thread t).blockiert = true → ∀ badge,
    ((w'.signalFromKernel badge).thread t).blockiert = false ∧
      ∀ s, w'.laeuft s = true → ((w'.signal s badge).thread t).blockiert = false
  abgewiesen : (w'.thread t).blockiert = false → (w'.thread t).result ≠ Result.ok →
    ∃ code, w' = w.setResult t code

theorem blockiert_melden {w : System} {t : ThreadId} (hwaiter : w.ntfn.waiter = some t)
    (hlebt : (w.thread t).lebt = true) (badge : BitVec 64) :
    ((w.melden badge).thread t).blockiert = false := by
  rcases melden_cases w badge with ⟨u, hu, -, -, -, hthread⟩ | ⟨hdead, -⟩
  · cases (hu.symm.trans hwaiter)
    rw [hthread, Function.update_self]
  · rw [hdead t hwaiter] at hlebt
    cases hlebt

theorem wait_spec (w : System) (t : ThreadId) (ht : w.laeuft t = true) :
    WarteSpec w t (w.wait t) := by
  obtain ⟨hlebt, hfrei⟩ : (w.thread t).lebt = true ∧ (w.thread t).blockiert = false := by
    simpa [laeuft] using ht
  -- A refusal writes the result register alone.
  have hrefused : ∀ code, w.wait t = w.setResult t code →
      ¬ (w.ntfn.waiter = none ∧ (w.wait t).ntfn.waiter = some t) → WarteSpec w t (w.wait t) := by
    intro code heq hnot
    have hsame : ((w.wait t).thread t).blockiert = false := by
      rw [heq, blockiert_setResult, hfrei]
    refine ⟨⟨fun h => ?_, fun h => absurd h hnot⟩, fun h => ?_, fun _ _ => ⟨code, heq⟩⟩
    · rw [hsame] at h
      cases h
    · rw [hsame] at h
      cases h
  cases hused : w.ntfn.used with
  | false =>
    have heq : w.wait t = w.setResult t Result.errBadcap := by simp [wait, hused]
    apply hrefused _ heq
    rintro ⟨hnone, hsome⟩
    rw [heq] at hsome
    exact absurd (hnone.symm.trans hsome) (by simp)
  | true =>
    by_cases hpending : w.ntfn.pending = 0
    · cases hwaiter : w.ntfn.waiter with
      | some u =>
        have heq : w.wait t = w.setResult t Result.errEpFull := by
          simp [wait, hused, hpending, hwaiter]
        apply hrefused _ heq
        rintro ⟨hnone, -⟩
        rw [hwaiter] at hnone
        cases hnone
      | none =>
        have heq : w.wait t = (w.setNtfn { w.ntfn with waiter := some t }).block t := by
          simp [wait, hused, hpending, hwaiter]
        have hblocked : ((w.wait t).thread t).blockiert = true := by
          simp [heq, block, modifyThread]
        have hcell : (w.wait t).ntfn.waiter = some t := by rw [heq]; rfl
        have hleben : ((w.wait t).thread t).lebt = true := by
          simpa [heq, block, modifyThread, setNtfn] using hlebt
        have hused' : (w.wait t).ntfn.used = true := by rw [heq]; exact hused
        refine ⟨⟨fun _ => ⟨hwaiter, hcell⟩, fun _ => hblocked⟩, fun _ badge => ⟨?_, ?_⟩, ?_⟩
        · rw [signalFromKernel, hused']
          exact blockiert_melden hcell hleben badge
        · intro s _
          rw [signal, hused']
          show (((w.wait t).melden badge).setResult s Result.ok |>.thread t).blockiert = false
          rw [blockiert_setResult]
          exact blockiert_melden hcell hleben badge
        · intro h
          rw [hblocked] at h
          cases h
    · have heq : w.wait t =
          (w.setNtfn { w.ntfn with pending := 0 }).abholen t w.ntfn.pending := by
        rw [wait, hused]
        simp only [Bool.not_true, Bool.false_eq_true, if_false]
        rw [if_pos hpending]
      have hsame : ((w.wait t).thread t).blockiert = false := by
        simpa [heq, abholen, notiere, modifyThread, setNtfn] using hfrei
      have hresult : ((w.wait t).thread t).result = Result.ok := by
        simp [heq, abholen, notiere, modifyThread, setNtfn]
      have hcell : (w.wait t).ntfn.waiter = w.ntfn.waiter := by rw [heq]; rfl
      refine ⟨⟨fun h => ?_, ?_⟩, fun h => ?_, fun _ h => absurd hresult h⟩
      · rw [hsame] at h
        cases h
      · rintro ⟨hnone, hsome⟩
        rw [hcell, hnone] at hsome
        cases hsome
      · rw [hsame] at h
        cases h

end Notification.System

/-- Whoever blocks is registered and can be woken, and a refusal leaves the thread running.  It
changes the result register alone, except that a full queue is reported after the dead entries
opposite were dropped and, by `call`, the badge was written. -/
theorem blockiert_iff_registriert (w : System) (n : Notification.System) (t : ThreadId)
    (badge : Nat) (hw : w.laeuft t = true) (hn : n.laeuft t = true) :
    w.RufSpec t badge (w.call t badge) ∧ w.EmpfangSpec t (w.recv t) ∧ n.WarteSpec t (n.wait t) :=
  ⟨w.call_spec t badge hw, w.recv_spec t hw, n.wait_spec t hn⟩

/-- On a fresh endpoint and a fresh notification a call queues its thread, and so blocks it. -/
theorem blockiert_iff_registriert_fresh :
    let w := System.init (fun _ => true) fun _ => ⟨0, 0, fun _ => 0, 0⟩
    let n := Notification.System.init fun _ => ⟨true, false, 0, 0⟩
    (w.call ⟨1, 0⟩ 7).warten ⟨1, 0⟩ ≠ .laufend ∧ w.RufSpec ⟨1, 0⟩ 7 (w.call ⟨1, 0⟩ 7) ∧
      w.EmpfangSpec ⟨1, 0⟩ (w.recv ⟨1, 0⟩) ∧ n.WarteSpec ⟨1, 0⟩ (n.wait ⟨1, 0⟩) := by
  intro w n
  exact ⟨by decide, blockiert_iff_registriert w n ⟨1, 0⟩ 7 (by decide) (by decide)⟩

/-- Threads 1 to 32 call and wait, receiver 40 is bound and dies. -/
def voll : List System.Op :=
  (List.range queueCap).map (fun k => .call ⟨k + 1, 0⟩ 0) ++ [.bindReceiver ⟨40, 0⟩, .kill ⟨40, 0⟩]

/-- The next call is refused with `ERR_EP_FULL`, and yet the receivers have lost an entry and the
badge register of the thread is another. -/
theorem call_ep_full_changes_endpoint :
    ∃ w, Execution.run System.step (System.init (fun _ => true) fun _ => ⟨0, 0, fun _ => 0, 0⟩)
        voll = some w ∧ w.laeuft ⟨50, 0⟩ = true ∧
      (w.call ⟨50, 0⟩ 7).warten ⟨50, 0⟩ = .laufend ∧
      ((w.call ⟨50, 0⟩ 7).thread ⟨50, 0⟩).frame.result = Result.errEpFull ∧
      w.ep.receivers.toList = [⟨40, 0⟩] ∧ (w.call ⟨50, 0⟩ 7).ep.receivers.toList = [] ∧
      (w.thread ⟨50, 0⟩).frame.epBadge = 0 ∧
      ((w.call ⟨50, 0⟩ 7).thread ⟨50, 0⟩).frame.epBadge = 7 := by
  refine ⟨_, rfl, ?_⟩
  decide

end Caprock.Ipc
