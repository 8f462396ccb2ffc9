import Mathlib.Logic.Function.Basic
import Caprock.Lib.Run
import Caprock.Ipc.Endpoint

/-! # Notifications

A word of badge bits and at most one waiter.  A signal puts its bits into the word and, if a
living thread waits, hands the word over; a wait takes the word at once or blocks.  The first
part says what the component is for, on histories alone: every collection takes exactly the
bits that are open.  The rest shows that the code keeps such a history.
-/

namespace Caprock.Ipc

open Execution Function

/-- What a notification has seen; the newest event stands first. -/
inductive Ereignis where
  | signal (badge : BitVec 64)
  | abgeholt (t : ThreadId) (badge : BitVec 64)

namespace Ereignis

def offen : List Ereignis → BitVec 64
  | [] => 0
  | signal badge :: l => offen l ||| badge
  | abgeholt _ _ :: _ => 0

def gesendet : List Ereignis → BitVec 64
  | [] => 0
  | signal badge :: l => gesendet l ||| badge
  | abgeholt _ _ :: l => gesendet l

def erhalten : List Ereignis → BitVec 64
  | [] => 0
  | signal _ :: l => erhalten l
  | abgeholt _ badge :: l => erhalten l ||| badge

/-- Every collection takes exactly what is open. -/
def Stimmig : List Ereignis → Prop
  | [] => True
  | signal _ :: l => Stimmig l
  | abgeholt _ badge :: l => badge = offen l ∧ Stimmig l

theorem Stimmig.gesendet_eq {l : List Ereignis} (h : Stimmig l) :
    gesendet l = erhalten l ||| offen l := by
  induction l with
  | nil => rfl
  | cons e l ih =>
    cases e with
    | signal badge =>
      show gesendet l ||| badge = erhalten l ||| (offen l ||| badge)
      rw [ih h, BitVec.or_assoc]
    | abgeholt t badge =>
      show gesendet l = (erhalten l ||| badge) ||| 0#64
      rw [ih h.2, h.1, BitVec.or_zero]

theorem Stimmig.bit_later {later earlier : List Ereignis} {badge : BitVec 64} {i : Nat}
    (h : Stimmig (later ++ signal badge :: earlier)) (hbit : badge.getLsbD i = true) :
    (offen (later ++ signal badge :: earlier)).getLsbD i = true ∨
      ∃ t v, abgeholt t v ∈ later ∧ v.getLsbD i = true := by
  induction later with
  | nil =>
    left
    show (offen earlier ||| badge).getLsbD i = true
    rw [BitVec.getLsbD_or, hbit, Bool.or_true]
  | cons e later ih =>
    cases e with
    | signal b =>
      rcases ih h with hopen | ⟨t, v, hmem, hv⟩
      · left
        show (offen (later ++ signal badge :: earlier) ||| b).getLsbD i = true
        rw [BitVec.getLsbD_or, hopen, Bool.true_or]
      · exact .inr ⟨t, v, List.mem_cons_of_mem _ hmem, hv⟩
    | abgeholt t b =>
      right
      rcases ih h.2 with hopen | ⟨u, v, hmem, hv⟩
      · have hb : b = offen (later ++ signal badge :: earlier) := h.1
        exact ⟨t, b, List.mem_cons_self, by rw [hb, hopen]⟩
      · exact ⟨u, v, List.mem_cons_of_mem _ hmem, hv⟩

end Ereignis

structure Notification where
  used : Bool
  pending : BitVec 64
  waiter : Option ThreadId

namespace Notification

/-- The notification after `mark_used`. -/
def markUsed : Notification := ⟨true, 0, none⟩

def purgeThread (n : Notification) (tid : ThreadId) : Bool × Notification :=
  if n.waiter = some tid then (true, { n with waiter := none }) else (false, n)

/-- What `signal` and `wait` read and change of a thread. -/
structure Faden where
  lebt : Bool
  blockiert : Bool
  result : Nat
  epBadge : BitVec 64

/-- The history `log` serves the statements only. -/
structure System where
  ntfn : Notification
  thread : ThreadId → Faden
  log : List Ereignis

namespace System

/-- A fresh notification; no thread waits for it. -/
def init (thread : ThreadId → Faden) : System := ⟨markUsed, thread, []⟩

def setNtfn (w : System) (n : Notification) : System := { w with ntfn := n }

def modifyThread (w : System) (t : ThreadId) (f : Faden → Faden) : System :=
  { w with thread := update w.thread t (f (w.thread t)) }

def setResult (w : System) (t : ThreadId) (code : Nat) : System :=
  w.modifyThread t fun th => { th with result := code }

def notiere (w : System) (e : Ereignis) : System := { w with log := e :: w.log }

def abholen (w : System) (t : ThreadId) (badge : BitVec 64) : System :=
  (w.modifyThread t fun th => { th with result := Result.ok, epBadge := badge }).notiere
    (.abgeholt t badge)

def block (w : System) (t : ThreadId) : System :=
  w.modifyThread t fun th => { th with blockiert := true }

/-- `SchedOps::unblock`: no effect on a thread that does not exist. -/
def unblock (w : System) (t : ThreadId) : System :=
  if (w.thread t).lebt then w.modifyThread t fun th => { th with blockiert := false } else w

/-- The common part of `signal` and `signal_from_kernel`.  Only a living waiter has a frame. -/
def melden (w : System) (badge : BitVec 64) : System :=
  let w := w.notiere (.signal badge)
  let pending := w.ntfn.pending ||| badge
  match w.ntfn.waiter with
  | none => w.setNtfn { w.ntfn with pending := pending }
  | some t =>
      if (w.thread t).lebt then
        ((w.setNtfn { w.ntfn with pending := 0, waiter := none }).abholen t pending).unblock t
      else (w.setNtfn { w.ntfn with pending := pending, waiter := none }).unblock t

/-- `SIGNAL` by thread `t`. -/
def signal (w : System) (t : ThreadId) (badge : BitVec 64) : System :=
  if !w.ntfn.used then w.setResult t Result.errBadcap
  else (w.melden badge).setResult t Result.ok

def signalFromKernel (w : System) (badge : BitVec 64) : System :=
  if !w.ntfn.used then w else w.melden badge

/-- `WAIT` by thread `t`. -/
def wait (w : System) (t : ThreadId) : System :=
  if !w.ntfn.used then w.setResult t Result.errBadcap
  else if w.ntfn.pending ≠ 0 then
    (w.setNtfn { w.ntfn with pending := 0 }).abholen t w.ntfn.pending
  else if w.ntfn.waiter.isSome then w.setResult t Result.errEpFull
  else (w.setNtfn { w.ntfn with waiter := some t }).block t

/-- `sonst` is everything else that happens to a thread which does not wait here. -/
inductive Op where
  | signal (t : ThreadId) (badge : BitVec 64)
  | signalFromKernel (badge : BitVec 64)
  | wait (t : ThreadId)
  | purgeThread (t : ThreadId)
  | kill (t : ThreadId)
  | sonst (t : ThreadId) (th : Faden)

/-- A thread takes a step of its own only while it lives and is not blocked. -/
def laeuft (w : System) (t : ThreadId) : Bool := (w.thread t).lebt && !(w.thread t).blockiert

def step (w : System) : Op → Option System
  | .signal t badge => if w.laeuft t then some (w.signal t badge) else none
  | .signalFromKernel badge => some (w.signalFromKernel badge)
  | .wait t => if w.laeuft t then some (w.wait t) else none
  | .purgeThread t => some (w.setNtfn (w.ntfn.purgeThread t).2)
  | .kill t => some (w.modifyThread t fun th => { th with lebt := false })
  | .sonst t th =>
      if w.ntfn.waiter = some t then none else some (w.modifyThread t fun _ => th)

theorem melden_cases (w : System) (badge : BitVec 64) :
    (∃ t, w.ntfn.waiter = some t ∧ (w.thread t).lebt = true ∧
        (w.melden badge).ntfn = { w.ntfn with pending := 0, waiter := none } ∧
        (w.melden badge).log =
          .abgeholt t (w.ntfn.pending ||| badge) :: .signal badge :: w.log ∧
        (w.melden badge).thread = update w.thread t
          ⟨true, false, Result.ok, w.ntfn.pending ||| badge⟩) ∨
      (∀ t, w.ntfn.waiter = some t → (w.thread t).lebt = false) ∧
        (w.melden badge).ntfn =
          { w.ntfn with pending := w.ntfn.pending ||| badge, waiter := none } ∧
        (w.melden badge).log = .signal badge :: w.log ∧
        (w.melden badge).thread = w.thread := by
  unfold melden
  cases hwait : w.ntfn.waiter with
  | none =>
    right
    refine ⟨nofun, ?_⟩
    simp [notiere, hwait, setNtfn]
  | some t =>
    cases hlebt : (w.thread t).lebt with
    | true =>
      left
      refine ⟨t, rfl, hlebt, ?_⟩
      simp [notiere, hwait, setNtfn, abholen, unblock, modifyThread, hlebt]
    | false =>
      right
      refine ⟨fun u hu => by rw [← Option.some.inj hu, hlebt], ?_⟩
      simp [notiere, hwait, setNtfn, unblock, hlebt]

/-- The history fits the word, and a registered waiter is blocked over an empty word. -/
structure Ordnung (w : System) : Prop where
  used : w.ntfn.used = true
  stimmig : Ereignis.Stimmig w.log
  offen : Ereignis.offen w.log = w.ntfn.pending
  leer : ∀ t, w.ntfn.waiter = some t → w.ntfn.pending = 0
  wartet : ∀ t, w.ntfn.waiter = some t → (w.thread t).blockiert = true

theorem init_ordnung (thread : ThreadId → Faden) : (init thread).Ordnung :=
  ⟨rfl, trivial, rfl, nofun, nofun⟩

variable {w v : System}

theorem Ordnung.of_thread (h : w.Ordnung) (hntfn : v.ntfn = w.ntfn) (hlog : v.log = w.log)
    (hblock : ∀ t, w.ntfn.waiter = some t → (v.thread t).blockiert = (w.thread t).blockiert) :
    v.Ordnung := by
  refine ⟨?_, ?_, ?_, ?_, fun t ht => ?_⟩
  · rw [hntfn, h.used]
  · rw [hlog]
    exact h.stimmig
  · rw [hlog, hntfn, h.offen]
  · rw [hntfn]
    exact h.leer
  · rw [hntfn] at ht
    rw [hblock t ht, h.wartet t ht]

theorem blockiert_setResult (w : System) (t x : ThreadId) (code : Nat) :
    ((w.setResult t code).thread x).blockiert = (w.thread x).blockiert := by
  unfold setResult modifyThread
  by_cases hx : x = t
  · subst hx
    simp
  · simp [update_of_ne hx]

theorem Ordnung.setResult (h : w.Ordnung) (t : ThreadId) (code : Nat) :
    (w.setResult t code).Ordnung :=
  h.of_thread rfl rfl fun x _ => blockiert_setResult w t x code

theorem Ordnung.melden (h : w.Ordnung) (badge : BitVec 64) : (w.melden badge).Ordnung := by
  rcases melden_cases w badge with ⟨t, -, -, hntfn, hlog, -⟩ | ⟨-, hntfn, hlog, -⟩
  · refine ⟨?_, ?_, ?_, ?_, ?_⟩
    · rw [hntfn]
      exact h.used
    · rw [hlog]
      refine ⟨?_, h.stimmig⟩
      show w.ntfn.pending ||| badge = Ereignis.offen w.log ||| badge
      rw [h.offen]
    · rw [hlog, hntfn]
      rfl
    · rw [hntfn]
      exact nofun
    · rw [hntfn]
      exact nofun
  · refine ⟨?_, ?_, ?_, ?_, ?_⟩
    · rw [hntfn]
      exact h.used
    · rw [hlog]
      exact h.stimmig
    · rw [hlog, hntfn]
      show Ereignis.offen w.log ||| badge = w.ntfn.pending ||| badge
      rw [h.offen]
    · rw [hntfn]
      exact nofun
    · rw [hntfn]
      exact nofun

theorem Ordnung.wait (h : w.Ordnung) (t : ThreadId) : (w.wait t).Ordnung := by
  unfold System.wait
  split
  · exact h.setResult t _
  · split
    · next hpending =>
      -- Nobody waits while bits are open, so the frame of no waiter is touched.
      have hnone : w.ntfn.waiter = none := by
        apply Option.eq_none_iff_forall_ne_some.mpr
        exact fun u hu => hpending (h.leer u hu)
      refine ⟨h.used, ⟨h.offen.symm, h.stimmig⟩, rfl, fun _ _ => rfl, fun u hu => ?_⟩
      have hu' : w.ntfn.waiter = some u := hu
      rw [hnone] at hu'
      cases hu'
    · next hpending =>
      split
      · exact h.setResult t _
      · have hzero : w.ntfn.pending = 0 := by simpa using hpending
        refine ⟨h.used, h.stimmig, h.offen, fun _ _ => hzero, fun u hu => ?_⟩
        obtain rfl : t = u := Option.some.inj hu
        simp [block, modifyThread]

theorem step_ordnung (w : System) (op : Op) (v : System) (h : w.Ordnung)
    (hstep : w.step op = some v) : v.Ordnung := by
  cases op with
  | signal t badge =>
    obtain ⟨-, rfl⟩ := of_guarded hstep
    unfold System.signal
    split
    · exact h.setResult t _
    · exact (h.melden badge).setResult t _
  | signalFromKernel badge =>
    cases hstep
    unfold System.signalFromKernel
    split
    · exact h
    · exact h.melden badge
  | wait t =>
    obtain ⟨-, rfl⟩ := of_guarded hstep
    exact h.wait t
  | purgeThread t =>
    cases hstep
    show (w.setNtfn (w.ntfn.purgeThread t).2).Ordnung
    unfold Notification.purgeThread
    split
    · exact ⟨h.used, h.stimmig, h.offen, nofun, nofun⟩
    · exact h
  | kill t =>
    cases hstep
    refine h.of_thread rfl rfl fun x _ => ?_
    by_cases hx : x = t
    · subst hx
      simp [modifyThread]
    · simp [modifyThread, update_of_ne hx]
  | sonst t th =>
    simp only [step, Option.ite_none_left_eq_some, Option.some.injEq] at hstep
    obtain ⟨hwait, rfl⟩ := hstep
    refine h.of_thread rfl rfl fun x hx => ?_
    have hne : x ≠ t := fun heq => hwait (heq ▸ hx)
    simp [modifyThread, update_of_ne hne]

theorem melden_log (w : System) (badge : BitVec 64) :
    ∃ neu, (w.melden badge).log = neu ++ w.log ∧
      (∀ b, .signal b ∈ neu ↔ b = badge) ∧
      ∀ t b, .abgeholt t b ∈ neu ↔
        w.ntfn.waiter = some t ∧ (w.melden badge).thread t = ⟨true, false, Result.ok, b⟩ := by
  rcases melden_cases w badge with ⟨u, hu, -, -, hlog, hthread⟩ | ⟨hdead, -, hlog, hthread⟩
  · refine ⟨[.abgeholt u (w.ntfn.pending ||| badge), .signal badge], hlog, by simp, ?_⟩
    intro t b
    rw [hthread, hu]
    constructor
    · intro hmem
      simp only [List.mem_cons, Ereignis.abgeholt.injEq, reduceCtorEq, List.not_mem_nil,
        or_false] at hmem
      obtain ⟨rfl, rfl⟩ := hmem
      exact ⟨rfl, update_self ..⟩
    · rintro ⟨hut, ht⟩
      cases hut
      rw [update_self] at ht
      simp only [Faden.mk.injEq, true_and] at ht
      simp [ht]
  · refine ⟨[.signal badge], hlog, by simp, fun t b => ?_⟩
    constructor
    · intro hmem
      simp at hmem
    · rintro ⟨ht, heq⟩
      have hlebt := hdead t ht
      rw [hthread] at heq
      rw [heq] at hlebt
      cases hlebt

theorem Ordnung.ne_of_laeuft (h : w.Ordnung) {t x : ThreadId} (hlauf : w.laeuft t = true)
    (hx : w.ntfn.waiter = some x) : x ≠ t := by
  rintro rfl
  have hblock := h.wartet x hx
  simp [laeuft, hblock] at hlauf

theorem thread_setResult_of_ne {t x : ThreadId} (hx : x ≠ t) (code : Nat) :
    (w.setResult t code).thread x = w.thread x := update_of_ne hx _ _

def Verzeichnet (w : System) (op : Op) (v : System) : Prop :=
  ∃ neu, v.log = neu ++ w.log ∧
    (∀ b, .signal b ∈ neu ↔ (∃ t, op = .signal t b) ∨ op = .signalFromKernel b) ∧
    ∀ t b, .abgeholt t b ∈ neu ↔
      (op = .wait t ∨ w.ntfn.waiter = some t) ∧ v.thread t = ⟨true, false, Result.ok, b⟩

theorem Ordnung.verzeichnet_nil (h : w.Ordnung) {op : Op} (hlog : v.log = w.log)
    (hsignal : ∀ b, ¬ ((∃ t, op = .signal t b) ∨ op = .signalFromKernel b))
    (hself : ∀ t b, op = .wait t → v.thread t ≠ ⟨true, false, Result.ok, b⟩)
    (hwait : ∀ t, w.ntfn.waiter = some t → v.thread t = w.thread t ∨ (v.thread t).lebt = false) :
    Verzeichnet w op v := by
  refine ⟨[], hlog, fun b => ?_, fun t b => ?_⟩
  · simpa using hsignal b
  · simp only [List.not_mem_nil, false_iff, not_and]
    rintro (hop | ht) heq
    · exact hself t b hop heq
    · rcases hwait t ht with hsame | hdead
      · have hblock := h.wartet t ht
        rw [← hsame, heq] at hblock
        cases hblock
      · rw [heq] at hdead
        cases hdead

theorem Ordnung.verzeichnet_wait (h : w.Ordnung) {t : ThreadId} (hlauf : w.laeuft t = true) :
    Verzeichnet w (.wait t) (w.wait t) := by
  have hused : (!w.ntfn.used) = false := by rw [h.used]; rfl
  unfold System.wait
  rw [hused, if_neg Bool.false_ne_true]
  split
  · next hpending =>
    have hnone : ∀ x, w.ntfn.waiter ≠ some x := fun x hx => hpending (h.leer x hx)
    have hrun : (w.thread t).lebt = true ∧ (w.thread t).blockiert = false := by
      simpa [laeuft] using hlauf
    refine ⟨[.abgeholt t w.ntfn.pending], rfl, by simp, fun x b => ?_⟩
    constructor
    · intro hmem
      simp only [List.mem_singleton, Ereignis.abgeholt.injEq] at hmem
      obtain ⟨rfl, rfl⟩ := hmem
      refine ⟨.inl rfl, ?_⟩
      simp [abholen, notiere, modifyThread, setNtfn, hrun]
    · rintro ⟨hx | hx, heq⟩
      · obtain rfl : t = x := by simpa using hx
        simp [abholen, notiere, modifyThread, setNtfn, hrun] at heq
        simp [heq]
      · exact absurd hx (hnone x)
  · split
    · refine h.verzeichnet_nil rfl (by simp) ?_ ?_
      · intro x b hop heq
        obtain rfl : t = x := by simpa using hop
        simp [System.setResult, modifyThread, Result.errEpFull, Result.ok] at heq
      · exact fun x hx => .inl (thread_setResult_of_ne (h.ne_of_laeuft hlauf hx) _)
    · next hfree =>
      refine h.verzeichnet_nil rfl (by simp) ?_ ?_
      · intro x b hop heq
        obtain rfl : t = x := by simpa using hop
        simp [block, modifyThread] at heq
      · intro x hx
        simp [hx] at hfree

theorem step_verzeichnet (w : System) (op : Op) (v : System) (h : w.Ordnung)
    (hstep : w.step op = some v) : Verzeichnet w op v := by
  cases op with
  | signal t badge =>
    obtain ⟨hlauf, rfl⟩ := of_guarded hstep
    obtain ⟨neu, hlog, hsignal, habgeholt⟩ := melden_log w badge
    refine ⟨neu, ?_, fun b => by simp [hsignal, eq_comm], fun x b => ?_⟩
    · simpa [System.signal, h.used, setResult, modifyThread] using hlog
    · rw [habgeholt]
      simp only [reduceCtorEq, false_or]
      refine and_congr_right fun hx => ?_
      have hne := h.ne_of_laeuft hlauf hx
      simp only [System.signal, h.used, Bool.not_true, Bool.false_eq_true, if_false]
      rw [thread_setResult_of_ne hne]
  | signalFromKernel badge =>
    cases hstep
    obtain ⟨neu, hlog, hsignal, habgeholt⟩ := melden_log w badge
    refine ⟨neu, ?_, fun b => by simp [hsignal, eq_comm], fun x b => ?_⟩
    · simpa [System.signalFromKernel, h.used] using hlog
    · rw [habgeholt]
      simp [System.signalFromKernel, h.used]
  | wait t =>
    obtain ⟨hlauf, rfl⟩ := of_guarded hstep
    exact h.verzeichnet_wait hlauf
  | purgeThread t =>
    cases hstep
    exact h.verzeichnet_nil rfl (by simp) (by simp) fun x _ => .inl rfl
  | kill t =>
    cases hstep
    refine h.verzeichnet_nil rfl (by simp) (by simp) fun x _ => ?_
    by_cases hx : x = t
    · subst hx
      exact .inr (by simp [modifyThread])
    · exact .inl (update_of_ne hx _ _)
  | sonst t th =>
    simp only [step, Option.ite_none_left_eq_some, Option.some.injEq] at hstep
    obtain ⟨hwait, rfl⟩ := hstep
    refine h.verzeichnet_nil rfl (by simp) (by simp) fun x hx => ?_
    have hne : x ≠ t := fun heq => hwait (heq ▸ hx)
    exact .inl (update_of_ne hne _ _)

/-- In every run the bits of all signals are those collected and those still in the word, every
signalled bit waits there or was collected later, and nobody waits over a word with bits.  The
history the statement speaks of records each step as it happened. -/
theorem run_badges_conserved (thread : ThreadId → Faden) (ops : List Op) (w : System)
    (hrun : run step (init thread) ops = some w) :
    Ereignis.gesendet w.log = Ereignis.erhalten w.log ||| w.ntfn.pending ∧
      (∀ later badge earlier i, w.log = later ++ .signal badge :: earlier →
        badge.getLsbD i = true →
        w.ntfn.pending.getLsbD i = true ∨ ∃ t v, .abgeholt t v ∈ later ∧ v.getLsbD i = true) ∧
      (∀ t, w.ntfn.waiter = some t → (w.thread t).blockiert = true ∧ w.ntfn.pending = 0) ∧
      ∀ op v, w.step op = some v → Verzeichnet w op v := by
  have h : w.Ordnung := run_invariant_of_step step_ordnung (init_ordnung thread) hrun
  refine ⟨?_, ?_, fun t ht => ⟨h.wartet t ht, h.leer t ht⟩, fun op v => step_verzeichnet w op v h⟩
  · rw [h.stimmig.gesendet_eq, h.offen]
  · intro later badge earlier i hlog hbit
    have hstimmig := h.stimmig
    rw [hlog] at hstimmig
    have hlater := hstimmig.bit_later hbit
    rwa [← hlog, h.offen] at hlater

/-- A thread waits, another signals twice: the first badge went to the waiter, the second waits
in the word. -/
theorem run_badges_conserved_wait_signal_signal :
    ∃ w, run step (init fun _ => ⟨true, false, 0, 0⟩)
        [.wait ⟨1, 0⟩, .signal ⟨2, 0⟩ 5, .signal ⟨2, 0⟩ 2] = some w ∧
      Ereignis.gesendet w.log = Ereignis.erhalten w.log ||| w.ntfn.pending ∧
      (w.thread ⟨1, 0⟩).epBadge = 5 ∧ w.ntfn.pending = 2 :=
  ⟨_, rfl, (run_badges_conserved (fun _ => ⟨true, false, 0, 0⟩)
    [.wait ⟨1, 0⟩, .signal ⟨2, 0⟩ 5, .signal ⟨2, 0⟩ 2] _ rfl).1, by decide, by decide⟩

end System

end Notification

end Caprock.Ipc
