import Caprock.Lib.Run
import Caprock.Ipc.Endpoint

/-! # Callers, servers and the single reply token

An endpoint remembers one caller.  Both ways of starting a transaction, the hand-off
in `call` and the dequeue in `recv`, write that cell without looking at it, and
`reply` consumes it without asking who received the request.  The first part shows
when no caller is lost, the second when a reply reaches the right caller.
-/

namespace Caprock.Ipc

open Execution Function

namespace System

def warten (w : System) (t : ThreadId) : Warten := (w.thread t).warten

section

variable (w : System) (t x : ThreadId)

@[simp] theorem ep_setEp (e : Endpoint) : (w.setEp e).ep = e := rfl

@[simp] theorem lebt_setEp (e : Endpoint) : (w.setEp e).lebt x = w.lebt x := rfl

@[simp] theorem warten_setEp (e : Endpoint) : (w.setEp e).warten x = w.warten x := rfl

@[simp] theorem empfaenger_setEp (e : Endpoint) : (w.setEp e).empfaenger = w.empfaenger := rfl

@[simp] theorem ep_notiere : (w.notiere t x).ep = w.ep := rfl

@[simp] theorem lebt_notiere (y : ThreadId) : (w.notiere t x).lebt y = w.lebt y := rfl

@[simp] theorem warten_notiere (y : ThreadId) : (w.notiere t x).warten y = w.warten y := rfl

@[simp] theorem ep_setFrame (f : Frame → Frame) : (w.setFrame t f).ep = w.ep := rfl

@[simp] theorem empfaenger_setFrame (f : Frame → Frame) :
    (w.setFrame t f).empfaenger = w.empfaenger := rfl

@[simp] theorem lebt_setFrame (f : Frame → Frame) : (w.setFrame t f).lebt x = w.lebt x := by
  unfold lebt setFrame modifyThread
  by_cases hx : x = t
  · subst hx
    simp
  · simp [update_of_ne hx]

@[simp] theorem warten_setFrame (f : Frame → Frame) : (w.setFrame t f).warten x = w.warten x := by
  unfold warten setFrame modifyThread
  by_cases hx : x = t
  · subst hx
    simp
  · simp [update_of_ne hx]

@[simp] theorem ep_setResult (code : Nat) : (w.setResult t code).ep = w.ep := rfl

@[simp] theorem empfaenger_setResult (code : Nat) :
    (w.setResult t code).empfaenger = w.empfaenger := rfl

@[simp] theorem lebt_setResult (code : Nat) : (w.setResult t code).lebt x = w.lebt x :=
  lebt_setFrame w t x _

@[simp] theorem warten_setResult (code : Nat) : (w.setResult t code).warten x = w.warten x :=
  warten_setFrame w t x _

@[simp] theorem ep_block (why : Warten) : (w.block t why).ep = w.ep := rfl

@[simp] theorem empfaenger_block (why : Warten) : (w.block t why).empfaenger = w.empfaenger := rfl

@[simp] theorem lebt_block (why : Warten) : (w.block t why).lebt x = w.lebt x := by
  unfold lebt block modifyThread
  by_cases hx : x = t
  · subst hx
    simp
  · simp [update_of_ne hx]

theorem warten_block (why : Warten) :
    (w.block t why).warten x = if x = t then why else w.warten x := by
  unfold warten block modifyThread
  by_cases hx : x = t
  · subst hx
    simp
  · simp [hx]

@[simp] theorem ep_unblock : (w.unblock t).ep = w.ep := by
  unfold unblock
  split <;> rfl

@[simp] theorem empfaenger_unblock : (w.unblock t).empfaenger = w.empfaenger := by
  unfold unblock
  split <;> rfl

@[simp] theorem lebt_unblock : (w.unblock t).lebt x = w.lebt x := by
  unfold unblock
  split
  · exact lebt_block w t x _
  · rfl

theorem warten_unblock_of_lebt (h : w.lebt t = true) :
    (w.unblock t).warten x = if x = t then .laufend else w.warten x := by
  have hlebt : (w.thread t).lebt = true := h
  rw [unblock, if_pos hlebt, warten_block]

theorem wartetAufIpc_iff : w.wartetAufIpc x = true ↔ w.lebt x = true ∧ w.warten x ≠ .laufend := by
  simp [wartetAufIpc, lebt, warten]

theorem laeuft_iff : w.laeuft x = true ↔ w.lebt x = true ∧ w.warten x = .laufend := by
  simp [laeuft, lebt, warten]

end

/-- The first living thread of a queue is found, and only dead entries before it are lost. -/
theorem dequeueLive_cases (lebt : ThreadId → Bool) (n : Nat) (q : TidQueue) (hn : q.count ≤ n) :
    (∃ dead x rest, q.toList = dead ++ x :: rest ∧ (∀ y ∈ dead, lebt y = false) ∧ lebt x = true ∧
        (dequeueLive lebt n q).1 = some x ∧ (dequeueLive lebt n q).2.toList = rest) ∨
      (∀ y ∈ q.toList, lebt y = false) ∧ (dequeueLive lebt n q).1 = none ∧
        (dequeueLive lebt n q).2.toList = [] := by
  induction n generalizing q with
  | zero =>
    have hnil : q.toList = [] := by
      apply List.eq_nil_of_length_eq_zero
      rw [RingBuffer.length_toList]
      omega
    exact .inr ⟨by simp [hnil], rfl, hnil⟩
  | succ n ih =>
    cases hq : q.toList with
    | nil =>
      have hpop := RingBuffer.pop_of_empty hq
      refine .inr ⟨by simp, ?_⟩
      simp only [dequeueLive, hpop]
      exact ⟨trivial, hq⟩
    | cons x xs =>
      obtain ⟨hfront, hrest⟩ := RingBuffer.pop_of_cons hq
      rcases hpop : q.pop with ⟨o, q'⟩
      rw [hpop] at hfront hrest
      subst hfront
      simp only [dequeueLive, hpop]
      by_cases hx : lebt x = true
      · rw [if_pos hx]
        exact .inl ⟨[], x, xs, rfl, by simp, hx, rfl, hrest⟩
      · rw [if_neg hx]
        have hdead : lebt x = false := by simpa using hx
        have hcount : q'.count ≤ n := by
          have hlen := congrArg List.length hq
          have hlen' := congrArg List.length hrest
          simp only [RingBuffer.length_toList, List.length_cons] at hlen hlen'
          omega
        rcases ih q' hcount with ⟨dead, y, rest, hl, hall, hy, h1, h2⟩ | ⟨hall, h1, h2⟩
        · refine .inl ⟨x :: dead, y, rest, ?_, ?_, hy, h1, h2⟩
          · rw [← hrest, hl, List.cons_append]
          · intro z hz
            rcases List.mem_cons.mp hz with rfl | hz
            · exact hdead
            · exact hall z hz
        · refine .inr ⟨?_, h1, h2⟩
          intro z hz
          rcases List.mem_cons.mp hz with rfl | hz
          · exact hdead
          · exact hall z (hrest ▸ hz)

/-- A `call` is refused, handed to a living receiver, or queued. -/
theorem call_elim {P : System → Prop} (w : System) (t : ThreadId) (badge : Nat)
    (hrefused : ∀ code, P (w.setResult t code))
    (hhanded : ∀ server receivers, w.ep.gateNewTransaction = none →
      server ∈ w.ep.receivers.toList → w.lebt server = true →
      P ((w.setFrame t fun fr => { fr with epBadge := badge }).handOff t server badge receivers))
    (hqueued : ∀ receivers, (∀ y ∈ w.ep.receivers.toList, w.lebt y = false) →
      P ((w.setFrame t fun fr => { fr with epBadge := badge }).queueSender t receivers)) :
    P (w.call t badge) := by
  unfold call
  cases hgate : w.ep.gateNewTransaction with
  | some code => exact hrefused code
  | none =>
    have hcases := dequeueLive_cases (w.setFrame t fun fr => { fr with epBadge := badge }).lebt
      _ w.ep.receivers (Nat.le_refl _)
    simp only [ep_setFrame]
    rcases hdq : dequeueLive (w.setFrame t fun fr => { fr with epBadge := badge }).lebt
      w.ep.receivers.count w.ep.receivers with ⟨o, receivers⟩
    rw [hdq] at hcases
    rcases hcases with ⟨dead, server, rest, hl, -, hlebt, rfl, -⟩ | ⟨hdead, rfl, -⟩
    · apply hhanded server receivers hgate
      · rw [hl]
        exact List.mem_append_right _ List.mem_cons_self
      · simpa using hlebt
    · apply hqueued
      intro y hy
      simpa using hdead y hy

theorem recv_elim {P : System → Prop} (w : System) (t : ThreadId)
    (hrefused : ∀ code, P (w.setResult t code))
    (htaken : ∀ dead sender senders, w.ep.gateNewTransaction = none →
      w.ep.senders.toList = dead ++ sender :: senders.toList → (∀ y ∈ dead, w.lebt y = false) →
      w.lebt sender = true → P (w.takeOver t sender senders))
    (hqueued : ∀ senders : TidQueue, (∀ y ∈ w.ep.senders.toList, w.lebt y = false) →
      P (w.queueReceiver t senders)) :
    P (w.recv t) := by
  unfold recv
  cases hgate : w.ep.gateNewTransaction with
  | some code => exact hrefused code
  | none =>
    have hcases := dequeueLive_cases w.lebt _ w.ep.senders (Nat.le_refl _)
    rcases hdq : dequeueLive w.lebt w.ep.senders.count w.ep.senders with ⟨o, senders⟩
    rw [hdq] at hcases
    rcases hcases with ⟨dead, sender, rest, hl, hdead, hlebt, rfl, rfl⟩ | ⟨hdead, rfl, -⟩
    · exact htaken dead sender senders hgate hl hdead hlebt
    · exact hqueued senders hdead

section

variable (w : System) (t x : ThreadId)

theorem ep_handOff (server : ThreadId) (badge : Nat) (receivers : TidQueue) :
    (w.handOff t server badge receivers).ep =
      { w.ep with receivers := receivers, caller := some t, replyOwner := some server } := by
  simp [handOff]

theorem empfaenger_handOff (server : ThreadId) (badge : Nat) (receivers : TidQueue) :
    (w.handOff t server badge receivers).empfaenger =
      update w.empfaenger t (some server) := by
  simp [handOff, notiere]

theorem lebt_handOff (server : ThreadId) (badge : Nat) (receivers : TidQueue) :
    (w.handOff t server badge receivers).lebt x = w.lebt x := by
  simp [handOff]

theorem warten_handOff (server : ThreadId) (badge : Nat) (receivers : TidQueue)
    (h : w.lebt server = true) :
    (w.handOff t server badge receivers).warten x =
      if x = server then .laufend else if x = t then .imRuf else w.warten x := by
  unfold handOff
  rw [warten_unblock_of_lebt _ _ _ (by simpa using h), warten_block]
  simp

theorem ep_takeOver (sender : ThreadId) (senders : TidQueue) :
    (w.takeOver t sender senders).ep =
      { w.ep with senders := senders, caller := some sender, replyOwner := some t } := by
  simp [takeOver]

theorem empfaenger_takeOver (sender : ThreadId) (senders : TidQueue) :
    (w.takeOver t sender senders).empfaenger = update w.empfaenger sender (some t) := by
  simp [takeOver, notiere]

@[simp] theorem lebt_takeOver (sender : ThreadId) (senders : TidQueue) :
    (w.takeOver t sender senders).lebt x = w.lebt x := by
  simp [takeOver]

@[simp] theorem warten_takeOver (sender : ThreadId) (senders : TidQueue) :
    (w.takeOver t sender senders).warten x = w.warten x := by
  simp [takeOver]

end

/-- A queued sender blocks and stands in the queue; a full queue changes no thread. -/
theorem queueSender_cases (w : System) (t : ThreadId) (receivers : TidQueue) :
    (w.queueSender t receivers).ep.caller = w.ep.caller ∧
      (w.queueSender t receivers).ep.replyOwner = w.ep.replyOwner ∧
      (w.queueSender t receivers).empfaenger = w.empfaenger ∧
      (∀ x, (w.queueSender t receivers).lebt x = w.lebt x) ∧
      (∀ x ∈ w.ep.senders.toList, x ∈ (w.queueSender t receivers).ep.senders.toList) ∧
      (t ∈ (w.queueSender t receivers).ep.senders.toList ∧
          (∀ x, (w.queueSender t receivers).warten x = if x = t then .imRuf else w.warten x) ∨
        ∀ x, (w.queueSender t receivers).warten x = w.warten x) := by
  unfold queueSender
  by_cases hfull : queueCap ≤ w.ep.senders.count
  · have hpush := RingBuffer.push_of_full hfull t
    simp only [hpush]
    exact ⟨rfl, rfl, rfl, fun x => by simp, fun x hx => hx, .inr fun x => by simp⟩
  · obtain ⟨hok, hlist⟩ := RingBuffer.push_of_room (by omega : w.ep.senders.count < queueCap) t
    simp only [hok, if_true]
    refine ⟨rfl, rfl, rfl, fun x => by simp, fun x hx => ?_, .inl ⟨?_, fun x => ?_⟩⟩
    · simp [hlist, hx]
    · simp [hlist]
    · simp [warten_block]

theorem queueReceiver_cases (w : System) (t : ThreadId) (senders : TidQueue) :
    (w.queueReceiver t senders).ep.caller = w.ep.caller ∧
      (w.queueReceiver t senders).ep.replyOwner = w.ep.replyOwner ∧
      (w.queueReceiver t senders).empfaenger = w.empfaenger ∧
      (∀ x, (w.queueReceiver t senders).lebt x = w.lebt x) ∧
      (∀ x, (w.queueReceiver t senders).warten x = .imRuf → w.warten x = .imRuf) := by
  unfold queueReceiver
  dsimp only
  split
  · refine ⟨rfl, rfl, rfl, fun x => by simp, fun x hx => ?_⟩
    rw [warten_block] at hx
    split at hx
    · cases hx
    · simpa using hx
  · exact ⟨rfl, rfl, rfl, fun x => by simp, fun x hx => by simpa using hx⟩

def NoLostCaller (w : System) : Prop :=
  ∀ t, w.lebt t = true → w.warten t = .imRuf → t ∈ w.ep.senders.toList ∨ w.ep.caller = some t

def Ausstehend (w : System) (c : ThreadId) : Prop :=
  w.ep.caller = some c ∧ w.lebt c = true ∧ w.warten c = .imRuf

def RufOk (w : System) : Op → Prop
  | .call _ _ => ∀ c, w.Ausstehend c → w.ep.gateNewTransaction = none →
      ∀ s ∈ w.ep.receivers.toList, w.lebt s = false
  | .recv _ => ∀ c, w.Ausstehend c → w.ep.gateNewTransaction = none →
      ∀ s ∈ w.ep.senders.toList, w.lebt s = false
  | _ => True

theorem init_noLostCaller (lebt : ThreadId → Bool) (frame : ThreadId → Frame) :
    (init lebt frame).NoLostCaller := by
  intro t _ hwarten
  cases hwarten

theorem NoLostCaller.mono {w w' : System} (h : w.NoLostCaller)
    (hlebt : ∀ x, w'.lebt x = true → w.lebt x = true)
    (hwarten : ∀ x, w'.lebt x = true → w'.warten x = .imRuf → w.warten x = .imRuf)
    (hplace : ∀ x, w'.lebt x = true → w'.warten x = .imRuf →
      x ∈ w.ep.senders.toList ∨ w.ep.caller = some x →
      x ∈ w'.ep.senders.toList ∨ w'.ep.caller = some x) : w'.NoLostCaller := by
  intro x hx hw
  exact hplace x hx hw (h x (hlebt x hx) (hwarten x hx hw))

theorem call_noLostCaller {w : System} (h : w.NoLostCaller) {t : ThreadId} {badge : Nat}
    (hok : w.RufOk (.call t badge)) : (w.call t badge).NoLostCaller := by
  apply call_elim w t badge
  · intro code
    exact h.mono (fun x hx => by simpa using hx) (fun x _ hw => by simpa using hw)
      (fun x _ _ hp => by simpa using hp)
  · intro server receivers hgate hmem hserver x hx hw
    rw [lebt_handOff, lebt_setFrame] at hx
    rw [warten_handOff _ _ _ _ _ _ (by simpa using hserver)] at hw
    rw [ep_handOff]
    by_cases hxs : x = server
    · simp [hxs] at hw
    · by_cases hxt : x = t
      · exact .inr (by rw [hxt])
      · rw [if_neg hxs, if_neg hxt, warten_setFrame] at hw
        -- The old token is worthless, so `x` was waiting in the queue.
        rcases h x hx hw with hq | hc
        · exact .inl hq
        · have hdead := hok x ⟨hc, hx, hw⟩ hgate server hmem
          rw [hserver] at hdead
          cases hdead
  · intro receivers hdead
    obtain ⟨hcaller, -, -, hlebt, hsenders, hq⟩ := queueSender_cases
      (w.setFrame t fun fr => { fr with epBadge := badge }) t receivers
    intro x hx hw
    rw [hlebt, lebt_setFrame] at hx
    rw [hcaller, ep_setFrame]
    rcases hq with ⟨hin, hwarten⟩ | hwarten
    · rw [hwarten, warten_setFrame] at hw
      by_cases hxt : x = t
      · exact .inl (hxt ▸ hin)
      · rw [if_neg hxt] at hw
        exact (h x hx hw).imp (hsenders x) id
    · rw [hwarten, warten_setFrame] at hw
      exact (h x hx hw).imp (hsenders x) id

theorem recv_noLostCaller {w : System} (h : w.NoLostCaller) {t : ThreadId}
    (hok : w.RufOk (.recv t)) : (w.recv t).NoLostCaller := by
  apply recv_elim w t
  · intro code
    exact h.mono (fun x hx => by simpa using hx) (fun x _ hw => by simpa using hw)
      (fun x _ _ hp => by simpa using hp)
  · intro dead sender senders hgate hl hdead hsender x hx hw
    rw [lebt_takeOver] at hx
    rw [warten_takeOver] at hw
    rw [ep_takeOver]
    have hin : sender ∈ w.ep.senders.toList := by
      rw [hl]
      exact List.mem_append_right _ List.mem_cons_self
    rcases h x hx hw with hq | hc
    · rw [hl, List.mem_append, List.mem_cons] at hq
      rcases hq with hxd | rfl | hxs
      · have hfalse := hdead x hxd
        rw [hx] at hfalse
        cases hfalse
      · exact .inr rfl
      · exact .inl hxs
    · have hfalse := hok x ⟨hc, hx, hw⟩ hgate sender hin
      rw [hsender] at hfalse
      cases hfalse
  · intro senders hdead x hx hw
    obtain ⟨hcaller, -, -, hlebt, hwarten⟩ := queueReceiver_cases w t senders
    rw [hlebt] at hx
    rw [hcaller]
    rcases h x hx (hwarten x hw) with hq | hc
    · have hfalse := hdead x hq
      rw [hx] at hfalse
      cases hfalse
    · exact .inr hc

@[simp] theorem ep_deliver (w : System) (t c : ThreadId) : (w.deliver t c).ep = w.ep := by
  simp [deliver]

@[simp] theorem empfaenger_deliver (w : System) (t c : ThreadId) :
    (w.deliver t c).empfaenger = w.empfaenger := by
  simp [deliver]

@[simp] theorem lebt_deliver (w : System) (t c x : ThreadId) :
    (w.deliver t c).lebt x = w.lebt x := by
  simp [deliver]

theorem warten_deliver (w : System) (t c x : ThreadId) (h : w.lebt c = true) :
    (w.deliver t c).warten x = if x = c then .laufend else w.warten x := by
  unfold deliver
  rw [warten_unblock_of_lebt _ _ _ (by simpa using h), warten_setFrame]

/-- A reply consumes the token and wakes the caller if it still waits. -/
theorem reply_cases (w : System) (t : ThreadId) :
    w.ep.used = false ∧ w.reply t = w.setResult t Result.errBadcap ∨
      w.ep.used = true ∧ (w.reply t).ep.caller = none ∧ (w.reply t).ep.replyOwner = none ∧
        (w.reply t).ep.senders = w.ep.senders ∧ (w.reply t).empfaenger = w.empfaenger ∧
        (∀ x, (w.reply t).lebt x = w.lebt x) ∧
        ∀ x, (w.reply t).warten x =
          if w.ep.caller = some x ∧ w.wartetAufIpc x = true then .laufend else w.warten x := by
  cases hused : w.ep.used with
  | false => exact .inl ⟨rfl, by simp [reply, hused]⟩
  | true =>
    refine .inr ⟨rfl, ?_⟩
    set w' := w.setEp { w.ep with replyOwner := none, caller := none } with hw'
    -- Unless somebody is named and waits, only the token and the result register change.
    have hquiet : w.reply t = w'.setResult t Result.ok →
        (∀ x, ¬ (w.ep.caller = some x ∧ w.wartetAufIpc x = true)) →
        (w.reply t).ep.caller = none ∧ (w.reply t).ep.replyOwner = none ∧
          (w.reply t).ep.senders = w.ep.senders ∧ (w.reply t).empfaenger = w.empfaenger ∧
          (∀ x, (w.reply t).lebt x = w.lebt x) ∧
          ∀ x, (w.reply t).warten x =
            if w.ep.caller = some x ∧ w.wartetAufIpc x = true then .laufend else w.warten x := by
      intro heq hnot
      rw [heq]
      exact ⟨rfl, rfl, rfl, rfl, fun x => by simp [hw'], fun x => by simp [hw', hnot x]⟩
    cases hc : w.ep.caller with
    | none =>
      rw [hc] at hquiet
      exact hquiet (by simp [reply, hused, hc, hw']) (by simp)
    | some c =>
      rw [hc] at hquiet
      cases hwait : w.wartetAufIpc c with
      | false =>
        refine hquiet (by simp [reply, hused, hc, hwait, hw']) ?_
        rintro x ⟨hcx, hx⟩
        cases hcx
        rw [hwait] at hx
        cases hx
      | true =>
        have hlebt := ((wartetAufIpc_iff w c).mp hwait).1
        have heq : w.reply t = (w'.deliver t c).setResult t Result.ok := by
          simp [reply, hused, hc, hwait, hw']
        rw [heq]
        refine ⟨by simp [hw'], by simp [hw'], by simp [hw'], by simp [hw'],
          fun x => by simp [hw'], fun x => ?_⟩
        rw [warten_setResult, warten_deliver _ _ _ _ (by simpa [hw'] using hlebt)]
        by_cases hx : x = c
        · subst hx
          simp [hwait]
        · have hne : ¬ (some c = some x ∧ w.wartetAufIpc x = true) := by
            rintro ⟨hcx, -⟩
            exact hx (Option.some.inj hcx).symm
          rw [if_neg hx, if_neg hne, hw', warten_setEp]

theorem reply_noLostCaller {w : System} (h : w.NoLostCaller) (t : ThreadId) :
    (w.reply t).NoLostCaller := by
  rcases reply_cases w t with ⟨-, heq⟩ | ⟨-, hcaller, -, hsenders, -, hlebt, hwarten⟩
  · rw [heq]
    exact h.mono (fun x hx => by simpa using hx) (fun x _ hw => by simpa using hw)
      (fun x _ _ hp => by simpa using hp)
  · intro x hx hw
    rw [hlebt] at hx
    rw [hwarten] at hw
    rw [hsenders]
    split at hw
    · cases hw
    · next hnot =>
      rcases h x hx hw with hq | hc
      · exact .inl hq
      · have hwait : w.wartetAufIpc x = true :=
          (wartetAufIpc_iff w x).mpr ⟨hx, by rw [hw]; exact Warten.noConfusion⟩
        exact absurd ⟨hc, hwait⟩ hnot

theorem NoLostCaller.setEp {w : System} (h : w.NoLostCaller) {e : Endpoint}
    (hplace : ∀ x, x ∈ w.ep.senders.toList ∨ w.ep.caller = some x →
      x ∈ e.senders.toList ∨ e.caller = some x) : (w.setEp e).NoLostCaller :=
  h.mono (fun _ hx => hx) (fun _ _ hw => hw) (fun x _ _ hp => hplace x hp)

theorem warten_unblockWithError (w : System) (t x : ThreadId) (code : Nat) :
    (w.unblockWithError t code).warten x =
      if x = t ∧ w.lebt t = true then .laufend else w.warten x := by
  unfold unblockWithError
  by_cases hlebt : (w.thread t).lebt = true
  · have hlebt' : w.lebt t = true := hlebt
    rw [if_pos hlebt, warten_block]
    simp [hlebt']
  · have hlebt' : ¬ w.lebt t = true := hlebt
    rw [if_neg hlebt]
    simp [hlebt']

@[simp] theorem ep_unblockWithError (w : System) (t : ThreadId) (code : Nat) :
    (w.unblockWithError t code).ep = w.ep := by
  unfold unblockWithError
  split <;> rfl

@[simp] theorem empfaenger_unblockWithError (w : System) (t : ThreadId) (code : Nat) :
    (w.unblockWithError t code).empfaenger = w.empfaenger := by
  unfold unblockWithError
  split <;> rfl

@[simp] theorem lebt_unblockWithError (w : System) (t x : ThreadId) (code : Nat) :
    (w.unblockWithError t code).lebt x = w.lebt x := by
  unfold unblockWithError
  split
  · simp
  · rfl

theorem wakeOrphan_noLostCaller {w : System} (h : w.NoLostCaller) :
    (w.wakeOrphan { w.ep with replyOwner := none, caller := none } w.ep.caller).NoLostCaller := by
  cases hc : w.ep.caller with
  | none =>
    apply h.setEp
    intro x hp
    exact hp.imp id fun hx => absurd (hc.symm.trans hx) (by simp)
  | some c =>
    intro x hx hw
    unfold wakeOrphan at hx hw ⊢
    rw [lebt_unblockWithError, lebt_setEp] at hx
    rw [warten_unblockWithError, lebt_setEp, warten_setEp] at hw
    rw [ep_unblockWithError, ep_setEp]
    split at hw
    · cases hw
    · next hnot =>
      rcases h x hx hw with hq | hcx
      · exact .inl hq
      · cases (hc.symm.trans hcx)
        exact absurd ⟨rfl, hx⟩ hnot

theorem purgeThread_noLostCaller {w : System} (h : w.NoLostCaller) (t : ThreadId) :
    ((w.setEp (w.ep.purgeThread t).2).abmelden t).NoLostCaller := by
  -- Whoever is still blocked in a call afterwards is a different thread, and kept its place.
  have hplace : ∀ x, x ≠ t → x ∈ w.ep.senders.toList ∨ w.ep.caller = some x →
      x ∈ (w.ep.purgeThread t).2.senders.toList ∨ (w.ep.purgeThread t).2.caller = some x := by
    intro x hxt hp
    unfold Endpoint.purgeThread
    split
    · next hct =>
      rcases hp with hq | hc
      · exact .inl (by simp [RingBuffer.toList_remove, hq, hxt])
      · exact absurd (Option.some.inj (hc.symm.trans hct)) hxt
    · rcases hp with hq | hc
      · exact .inl (by simp [RingBuffer.toList_remove, hq, hxt])
      · exact .inr hc
  unfold abmelden
  split
  · next hlauf =>
    refine h.mono (fun _ hx => hx) (fun _ _ hw => hw) fun x _ hw hp => hplace x ?_ hp
    rintro rfl
    have hlauf' : w.warten x = .laufend := hlauf
    rw [warten_setEp, hlauf'] at hw
    cases hw
  · refine h.mono (fun x hx => by simpa using hx) (fun x _ hw => ?_) fun x _ hw hp => ?_
    · rw [warten_block] at hw
      split at hw
      · cases hw
      · exact hw
    · rw [warten_block] at hw
      split at hw
      · cases hw
      · next hxt => simpa using hplace x hxt hp

theorem migrateOwner_places (e : Endpoint) (o x : ThreadId)
    (hp : x ∈ e.senders.toList ∨ e.caller = some x) :
    x ∈ (e.migrateOwner o).2.senders.toList ∨ (e.migrateOwner o).2.caller = some x := by
  unfold Endpoint.migrateOwner
  split
  · next hcond =>
    cases hc : e.caller with
    | none => simpa [hc] using hp
    | some c =>
      have hroom : e.senders.count < queueCap := by
        simp only [Bool.and_eq_true, Bool.not_eq_true', decide_eq_false_iff_not] at hcond
        omega
      have hlist := (RingBuffer.push_of_room hroom c).2
      left
      show x ∈ (e.senders.push c).2.toList
      rw [hlist]
      rcases hp with hq | hcx
      · exact List.mem_append_left _ hq
      · cases (hc.symm.trans hcx)
        exact List.mem_append_right _ (List.mem_singleton.mpr rfl)
  · exact hp

theorem rebindServer_places (e : Endpoint) (old new : ThreadId) :
    (e.rebindServer old new).2.senders = e.senders ∧
      (e.rebindServer old new).2.caller = e.caller ∧
      (e.rebindServer old new).2.replyOwner = e.replyOwner := by
  unfold Endpoint.rebindServer
  dsimp only
  split_ifs <;> exact ⟨rfl, rfl, rfl⟩

theorem bindReceiver_places (e : Endpoint) (t : ThreadId) :
    (e.bindReceiver t).2.senders = e.senders ∧ (e.bindReceiver t).2.caller = e.caller ∧
      (e.bindReceiver t).2.replyOwner = e.replyOwner := by
  unfold Endpoint.bindReceiver
  split <;> exact ⟨rfl, rfl, rfl⟩

theorem retireReceiver_places (e : Endpoint) (t : ThreadId) :
    (e.retireReceiver t).2.senders = e.senders ∧ (e.retireReceiver t).2.caller = e.caller ∧
      (e.retireReceiver t).2.replyOwner = e.replyOwner := by
  unfold Endpoint.retireReceiver
  split <;> exact ⟨rfl, rfl, rfl⟩

theorem beginQuiesce_places (e : Endpoint) :
    e.beginQuiesce.2.senders = e.senders ∧ e.beginQuiesce.2.caller = e.caller ∧
      e.beginQuiesce.2.replyOwner = e.replyOwner := by
  unfold Endpoint.beginQuiesce
  split <;> exact ⟨rfl, rfl, rfl⟩

theorem NoLostCaller.setEp_of_eq {w : System} (h : w.NoLostCaller) {e : Endpoint}
    (hsenders : e.senders = w.ep.senders) (hcaller : e.caller = w.ep.caller) :
    (w.setEp e).NoLostCaller :=
  h.setEp fun x hp => by rwa [hsenders, hcaller]

theorem abortCall_cases (w : System) (c : ThreadId) :
    w.wakeOrphan (w.ep.abortCall c).2 (w.ep.abortCall c).1 =
        w.wakeOrphan { w.ep with replyOwner := none, caller := none } w.ep.caller ∨
      w.wakeOrphan (w.ep.abortCall c).2 (w.ep.abortCall c).1 = w.setEp w.ep := by
  unfold Endpoint.abortCall
  split
  · exact .inl rfl
  · exact .inr rfl

theorem ownerDied_cases (w : System) (o : ThreadId) :
    w.wakeOrphan (w.ep.ownerDied o).2 (w.ep.ownerDied o).1 =
        w.wakeOrphan { w.ep with replyOwner := none, caller := none } w.ep.caller ∨
      w.wakeOrphan (w.ep.ownerDied o).2 (w.ep.ownerDied o).1 = w.setEp w.ep := by
  unfold Endpoint.ownerDied
  split
  · exact .inl rfl
  · exact .inr rfl

theorem lebt_kill (w : System) (t x : ThreadId) :
    (w.modifyThread t fun th => { th with lebt := false }).lebt x =
      if x = t then false else w.lebt x := by
  unfold lebt modifyThread
  by_cases hx : x = t
  · subst hx
    simp
  · simp [hx]

theorem warten_kill (w : System) (t x : ThreadId) :
    (w.modifyThread t fun th => { th with lebt := false }).warten x = w.warten x := by
  unfold warten modifyThread
  by_cases hx : x = t
  · subst hx
    simp
  · simp [update_of_ne hx]

theorem step_noLostCaller (w : System) (op : Op) (w' : System) (h : w.NoLostCaller)
    (hok : w.RufOk op) (hstep : w.step op = some w') : w'.NoLostCaller := by
  cases op with
  | call t badge =>
    obtain ⟨-, rfl⟩ := of_guarded hstep
    exact call_noLostCaller h hok
  | recv t =>
    obtain ⟨-, rfl⟩ := of_guarded hstep
    exact recv_noLostCaller h hok
  | reply t =>
    obtain ⟨-, rfl⟩ := of_guarded hstep
    exact reply_noLostCaller h t
  | abortCall c =>
    cases hstep
    rcases abortCall_cases w c with heq | heq
    · rw [heq]
      exact wakeOrphan_noLostCaller h
    · rw [heq]
      exact h.setEp_of_eq rfl rfl
  | purgeThread t =>
    cases hstep
    exact purgeThread_noLostCaller h t
  | ownerDied o =>
    cases hstep
    rcases ownerDied_cases w o with heq | heq
    · rw [heq]
      exact wakeOrphan_noLostCaller h
    · rw [heq]
      exact h.setEp_of_eq rfl rfl
  | rebindServer old new =>
    cases hstep
    obtain ⟨hs, hc, -⟩ := rebindServer_places w.ep old new
    exact h.setEp_of_eq hs hc
  | migrateOwner o =>
    cases hstep
    exact h.setEp fun x hp => migrateOwner_places w.ep o x hp
  | bindReceiver t =>
    cases hstep
    obtain ⟨hs, hc, -⟩ := bindReceiver_places w.ep t
    exact h.setEp_of_eq hs hc
  | retireReceiver t =>
    cases hstep
    obtain ⟨hs, hc, -⟩ := retireReceiver_places w.ep t
    exact h.setEp_of_eq hs hc
  | beginQuiesce =>
    cases hstep
    obtain ⟨hs, hc, -⟩ := beginQuiesce_places w.ep
    exact h.setEp_of_eq hs hc
  | endQuiesce =>
    cases hstep
    exact h.setEp_of_eq rfl rfl
  | kill t =>
    cases hstep
    refine h.mono (fun x hx => ?_) (fun x _ hw => ?_) (fun x _ _ hp => hp)
    · rw [lebt_kill] at hx
      split at hx
      · cases hx
      · exact hx
    · rwa [warten_kill] at hw
  | frist t =>
    obtain ⟨-, rfl⟩ := of_guarded hstep
    refine h.mono (fun x hx => by simpa using hx) (fun x _ hw => ?_) (fun x _ _ hp => by simpa using hp)
    rw [warten_block] at hw
    split at hw
    · cases hw
    · simpa using hw

theorem step_keeps_ausstehend (w : System) (op : Op) (w' : System) (c : ThreadId)
    (hop : (∃ t badge, op = .call t badge) ∨ ∃ t, op = .recv t) (hok : w.RufOk op)
    (hc : w.Ausstehend c) (hstep : w.step op = some w') : w'.ep.caller = some c := by
  rcases hop with ⟨t, badge, rfl⟩ | ⟨t, rfl⟩
  · obtain ⟨-, rfl⟩ := of_guarded hstep
    apply call_elim w t badge (P := fun v => v.ep.caller = some c)
    · exact fun code => hc.1
    · intro server receivers hgate hmem hserver
      have hdead := hok c hc hgate server hmem
      rw [hserver] at hdead
      cases hdead
    · intro receivers _
      rw [(queueSender_cases _ t receivers).1]
      exact hc.1
  · obtain ⟨-, rfl⟩ := of_guarded hstep
    apply recv_elim w t (P := fun v => v.ep.caller = some c)
    · exact fun code => hc.1
    · intro dead sender senders hgate hl _ hsender
      have hin : sender ∈ w.ep.senders.toList := by
        rw [hl]
        exact List.mem_append_right _ List.mem_cons_self
      have hdead := hok c hc hgate sender hin
      rw [hsender] at hdead
      cases hdead
    · intro senders _
      rw [(queueReceiver_cases w t senders).1]
      exact hc.1

/-- In every run in which no transaction is started over an outstanding answer, no
caller is lost, and no further such step overwrites the caller. -/
theorem run_noLostCaller (lebt : ThreadId → Bool) (frame : ThreadId → Frame) (ops : List Op)
    (w : System) (hops : Admissible step RufOk (init lebt frame) ops)
    (hrun : run step (init lebt frame) ops = some w) :
    w.NoLostCaller ∧
      ∀ op w' c, ((∃ t badge, op = .call t badge) ∨ ∃ t, op = .recv t) → w.RufOk op →
        w.Ausstehend c → w.step op = some w' → w'.ep.caller = some c :=
  ⟨run_invariant step_noLostCaller (init_noLostCaller lebt frame) hops hrun,
    fun op w' c hop hok hc hstep => step_keeps_ausstehend w op w' c hop hok hc hstep⟩

/-- A server waits, is called and answers: the guard holds at each of the three steps. -/
theorem run_noLostCaller_recv_call_reply :
    ∃ w, run step (init (fun _ => true) fun _ => ⟨0, 0, fun _ => 0, 0⟩)
        [.recv ⟨1, 0⟩, .call ⟨2, 0⟩ 7, .reply ⟨1, 0⟩] = some w ∧ w.NoLostCaller := by
  refine ⟨_, rfl, (run_noLostCaller (fun _ => true) (fun _ => ⟨0, 0, fun _ => 0, 0⟩)
    [.recv ⟨1, 0⟩, .call ⟨2, 0⟩ 7, .reply ⟨1, 0⟩] _ ⟨?_, fun w₁ h₁ => ⟨?_, fun w₂ h₂ =>
      ⟨trivial, fun _ _ => trivial⟩⟩⟩ rfl).1⟩
  · rintro c ⟨hc, -⟩
    cases hc
  · obtain rfl := Option.some.inj h₁
    rintro c ⟨hc, -⟩
    cases hc

/-- Receive, call, receive, call with one server: the first caller still waits but is
neither a queued sender nor the caller, whose place the second one took. -/
theorem run_recv_call_recv_call_loses_caller :
    ∃ w, run step (init (fun _ => true) fun _ => ⟨0, 0, fun _ => 0, 0⟩)
        [.recv ⟨1, 0⟩, .call ⟨2, 0⟩ 7, .recv ⟨1, 0⟩, .call ⟨3, 0⟩ 8] = some w ∧
      w.lebt ⟨2, 0⟩ = true ∧ w.warten ⟨2, 0⟩ = .imRuf ∧ ⟨2, 0⟩ ∉ w.ep.senders.toList ∧
      w.ep.caller = some ⟨3, 0⟩ ∧ ¬ w.NoLostCaller := by
  refine ⟨_, rfl, by decide, by decide, by decide, by decide, fun h => ?_⟩
  rcases h ⟨2, 0⟩ (by decide) (by decide) with hq | hc
  · exact absurd hq (by decide)
  · exact absurd hc (by decide)

end System

end Caprock.Ipc
