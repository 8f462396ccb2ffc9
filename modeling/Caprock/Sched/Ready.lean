import Caprock.Lib.LinkedList
import Caprock.Sched.System

/-! # The ready lists as an invariant

`Ordnung s l` says that the lists `l p` are what the links of the control blocks describe:
doubly linked from head to tail, counted, summarised in the bitmap, and containing exactly
the threads whose `queued` flag names them.  It also says that the free list holds exactly
the unused slots.  Linking and unlinking change one list; whatever leaves the flags `used`,
`queued` and `priority` and the links alone changes none.
-/

namespace Caprock.Sched.Scheduler

open LinkedList Execution Function

def qnext (s : Scheduler) (i : Nat) : Option Nat := (s.tcb i).qnext

def qprev (s : Scheduler) (i : Nat) : Option Nat := (s.tcb i).qprev

def daten (s : Scheduler) (i : Nat) : Tcb := { s.tcb i with qnext := none, qprev := none }

structure Ordnung (s : Scheduler) (l : Nat → List Nat) : Prop where
  list : ∀ p, DList s.qnext s.qprev (l p)
  head : ∀ p, (s.queues p).head = (l p).head?
  tail : ∀ p, (s.queues p).tail = (l p).getLast?
  count : ∀ p, (s.queues p).count = (l p).length
  bit : ∀ p, s.bitmap.getLsbD p = true ↔ l p ≠ []
  mem : ∀ p i, i ∈ l p ↔ (s.tcb i).queued = some p
  prio : ∀ p i, (s.tcb i).queued = some p → p < nprio ∧ (s.tcb i).priority = p
  queued_used : ∀ p i, (s.tcb i).queued = some p → (s.tcb i).used = true
  bound : ∀ i, (s.tcb i).used = true → i < s.tcbs.len
  size : s.tcbs.len ≤ 2 ^ 16
  free_nodup : s.free.frei.Nodup
  free_mem : ∀ i, i ∈ s.free.frei ↔ i < s.tcbs.len ∧ (s.tcb i).used = false
  free_capacity : s.free.capacity = s.tcbs.len

section

variable (s : Scheduler) (i p x : Nat)

theorem tcb_modifyTcb (f : Tcb → Tcb) :
    (s.modifyTcb i f).tcb x = if x = i then f (s.tcb i) else s.tcb x := by
  unfold modifyTcb tcb
  exact Slab.modify_cell s.tcbs i x f

@[simp] theorem tcb_modifyQueue (f : ListHead → ListHead) :
    (s.modifyQueue p f).tcb x = s.tcb x := rfl

@[simp] theorem queues_modifyTcb (f : Tcb → Tcb) : (s.modifyTcb i f).queues = s.queues := rfl

theorem queues_modifyQueue (f : ListHead → ListHead) (q : Nat) :
    (s.modifyQueue p f).queues q = if q = p then f (s.queues p) else s.queues q := by
  unfold modifyQueue
  exact update_apply s.queues p (f (s.queues p)) q

@[simp] theorem tcb_bitmap (b : BitVec 32) : ({ s with bitmap := b } : Scheduler).tcb x = s.tcb x :=
  rfl

end

/-- Only the ready lists differ. -/
structure NurListen (s s' : Scheduler) : Prop where
  rest : s' = { s with tcbs := s'.tcbs, queues := s'.queues, bitmap := s'.bitmap }
  len : s'.tcbs.len = s.tcbs.len

namespace NurListen

variable {s s' s'' : Scheduler}

theorem refl (s : Scheduler) : NurListen s s := ⟨rfl, rfl⟩

theorem trans (h : NurListen s s') (h' : NurListen s' s'') : NurListen s s'' := by
  refine ⟨?_, h'.len.trans h.len⟩
  have hrest := h'.rest
  rw [h.rest] at hrest
  exact hrest

theorem current (h : NurListen s s') : s'.current = s.current := by rw [h.rest]

theorem free (h : NurListen s s') : s'.free = s.free := by rw [h.rest]

theorem now (h : NurListen s s') : s'.now = s.now := by rw [h.rest]

theorem bitmap (s : Scheduler) (b : BitVec 32) : NurListen s { s with bitmap := b } := ⟨rfl, rfl⟩

end NurListen

/-- What `enqueue_ready` does to a thread that is in no list. -/
structure Eingereiht (s s' : Scheduler) (i p : Nat) : Prop where
  free : (s.tcb i).queued = none
  prio : (s.tcb i).priority = p
  lt : p < nprio
  rest : NurListen s s'
  daten : ∀ x, s'.daten x = if x = i then (s.daten i).mitQueued (some p) else s.daten x
  qnext : ∀ x, s'.qnext x =
    if (s.queues p).tail = some x then some i else if x = i then none else s.qnext x
  qprev : ∀ x, s'.qprev x = if x = i then (s.queues p).tail else s.qprev x
  head : ∀ q, (s'.queues q).head =
    if q = p ∧ (s.queues p).tail = none then some i else (s.queues q).head
  tail : ∀ q, (s'.queues q).tail = if q = p then some i else (s.queues q).tail
  count : ∀ q, (s'.queues q).count = if q = p then (s.queues p).count + 1 else (s.queues q).count
  bitmap : s'.bitmap = s.bitmap ||| BitVec.twoPow 32 p

theorem enqueueReady_cases {s s' : Scheduler} {i : Nat} (h : s.enqueueReady i = some s') :
    s' = s ∧ (s.tcb i).queued ≠ none ∨ ∃ p, Eingereiht s s' i p := by
  unfold enqueueReady at h
  split at h
  · next q hq =>
    refine .inl ⟨(Option.some.inj h).symm, ?_⟩
    rw [hq]
    exact Option.some_ne_none q
  · next hq =>
    dsimp only at h
    split at h
    · cases h
    · next hlt =>
      cases h
      refine .inr ⟨(s.tcb i).priority, ?_⟩
      -- The list was empty, or its last thread gets a successor.
      cases htail : (s.queues (s.tcb i).priority).tail with
      | none | some l =>
        refine ⟨hq, rfl, Nat.lt_of_not_le hlt, ⟨rfl, rfl⟩, fun x => ?_, fun x => ?_, fun x => ?_,
          fun q => ?_, fun q => ?_, fun q => ?_, rfl⟩
        all_goals simp only [Scheduler.daten, Scheduler.qnext, Scheduler.qprev, Tcb.mitQueued,
          tcb_bitmap, tcb_modifyQueue, tcb_modifyTcb, queues_modifyQueue, queues_modifyTcb]
        all_goals split_ifs <;> simp_all

/-- What `remove_from_ready` does to a thread in list `p`. -/
structure Ausgeklinkt (s s' : Scheduler) (i p : Nat) : Prop where
  rest : NurListen s s'
  daten : ∀ x, s'.daten x = if x = i then (s.daten i).mitQueued none else s.daten x
  qnext : ∀ x, x ≠ i → s'.qnext x = if s.qprev i = some x then s.qnext i else s.qnext x
  qprev : ∀ x, x ≠ i → s'.qprev x = if s.qnext i = some x then s.qprev i else s.qprev x
  head : ∀ q, (s'.queues q).head =
    if q = p ∧ s.qprev i = none then s.qnext i else (s.queues q).head
  tail : ∀ q, (s'.queues q).tail =
    if q = p ∧ s.qnext i = none then s.qprev i else (s.queues q).tail
  count : ∀ q, (s'.queues q).count = if q = p then (s.queues p).count - 1 else (s.queues q).count
  bitmap : s'.bitmap = if (s.queues p).count - 1 = 0 then s.bitmap &&& ~~~ BitVec.twoPow 32 p
    else s.bitmap

theorem tcb_umgehen (s : Scheduler) (p : Nat) (prev next : Option Nat) (x : Nat) :
    (s.umgehen p prev next).tcb x = { s.tcb x with
      qnext := if prev = some x then next else (s.tcb x).qnext
      qprev := if next = some x then prev else (s.tcb x).qprev } := by
  unfold umgehen
  cases prev with
  | none =>
    cases next with
    | none => rfl
    | some n =>
      by_cases hn : n = x
      · simp [tcb_modifyTcb, hn]
      · simp [tcb_modifyTcb, hn, Ne.symm hn]
  | some v =>
    cases next with
    | none =>
      by_cases hv : v = x
      · simp [tcb_modifyTcb, hv]
      · simp [tcb_modifyTcb, hv, Ne.symm hv]
    | some n =>
      by_cases hv : v = x
      · by_cases hn : n = x
        · simp [tcb_modifyTcb, hv, hn]
        · simp [tcb_modifyTcb, hv, hn, Ne.symm hn]
      · by_cases hn : n = x
        · simp [tcb_modifyTcb, hn, hv, Ne.symm hv]
        · simp [tcb_modifyTcb, hv, hn, Ne.symm hv, Ne.symm hn]

theorem queues_umgehen (s : Scheduler) (p : Nat) (prev next : Option Nat) (q : Nat) :
    (s.umgehen p prev next).queues q = { s.queues q with
      head := if q = p ∧ prev = none then next else (s.queues q).head
      tail := if q = p ∧ next = none then prev else (s.queues q).tail } := by
  unfold umgehen
  cases prev <;> cases next
  all_goals
    simp only [queues_modifyQueue, queues_modifyTcb, reduceCtorEq, and_false, and_true, if_false]
    try (split_ifs <;> simp_all)

theorem nurListen_umgehen (s : Scheduler) (p : Nat) (prev next : Option Nat) :
    NurListen s (s.umgehen p prev next) ∧ (s.umgehen p prev next).bitmap = s.bitmap := by
  unfold umgehen
  cases prev <;> cases next <;> exact ⟨⟨rfl, rfl⟩, rfl⟩

theorem ausgeklinkt_removeFromReady {s : Scheduler} {i p : Nat} (hq : (s.tcb i).queued = some p) :
    Ausgeklinkt s (s.removeFromReady i) i p := by
  obtain ⟨hrest, hbitmap⟩ := nurListen_umgehen s p (s.qprev i) (s.qnext i)
  -- The state before the bitmap is brought up to date.
  set s₁ := ((s.umgehen p (s.qprev i) (s.qnext i)).modifyTcb i fun t =>
    { t with qnext := none, qprev := none, queued := none }).modifyQueue p fun q =>
      { q with count := q.count - 1 } with hs₁
  have htcb : ∀ x, s₁.tcb x = if x = i then { s.tcb i with qnext := none, qprev := none, queued := none }
      else { s.tcb x with
        qnext := if s.qprev i = some x then s.qnext i else (s.tcb x).qnext
        qprev := if s.qnext i = some x then s.qprev i else (s.tcb x).qprev } := by
    intro x
    rw [hs₁, tcb_modifyQueue, tcb_modifyTcb, tcb_umgehen, tcb_umgehen]
  have hqueues : ∀ q, s₁.queues q = ⟨if q = p ∧ s.qprev i = none then s.qnext i else (s.queues q).head,
      if q = p ∧ s.qnext i = none then s.qprev i else (s.queues q).tail,
      if q = p then (s.queues p).count - 1 else (s.queues q).count⟩ := by
    intro q
    rw [hs₁, queues_modifyQueue, queues_modifyTcb, queues_umgehen, queues_umgehen]
    by_cases hqp : q = p
    · simp [hqp]
    · simp [hqp]
  have heq : s.removeFromReady i =
      { s₁ with bitmap := if (s.queues p).count - 1 = 0 then s.bitmap &&& ~~~ BitVec.twoPow 32 p
        else s.bitmap } := by
    have hcount : (s₁.queues p).count = (s.queues p).count - 1 := by simp [hqueues]
    have hb : s₁.bitmap = s.bitmap := hbitmap
    rw [← hcount, ← hb]
    unfold removeFromReady
    rw [hq]
    rfl
  rw [heq]
  have hrest₁ : NurListen (s.umgehen p (s.qprev i) (s.qnext i)) s₁ := ⟨rfl, rfl⟩
  refine ⟨(hrest.trans hrest₁).trans (NurListen.bitmap s₁ _), fun x => ?_, fun x hx => ?_,
    fun x hx => ?_, fun q => ?_, fun q => ?_, fun q => ?_, rfl⟩
  · unfold Scheduler.daten
    rw [tcb_bitmap, htcb]
    split <;> rfl
  · change (s₁.tcb x).qnext = _
    rw [htcb, if_neg hx]
    rfl
  · change (s₁.tcb x).qprev = _
    rw [htcb, if_neg hx]
    rfl
  · change (s₁.queues q).head = _
    rw [hqueues]
  · change (s₁.queues q).tail = _
    rw [hqueues]
  · change (s₁.queues q).count = _
    rw [hqueues]

theorem daten_removeFromReady (s : Scheduler) (i x : Nat) :
    (s.removeFromReady i).daten x =
      if x = i then (s.daten i).mitQueued none else s.daten x := by
  cases hq : (s.tcb i).queued with
  | none =>
    have heq : s.removeFromReady i = s := by
      unfold removeFromReady
      rw [hq]
    rw [heq]
    split
    · next hx =>
      have hqd : (s.daten i).queued = none := hq
      rw [hx, Tcb.mitQueued_self hqd]
    · rfl
  | some p => exact (ausgeklinkt_removeFromReady hq).daten x

theorem nurListen_removeFromReady (s : Scheduler) (i : Nat) : NurListen s (s.removeFromReady i) := by
  cases hq : (s.tcb i).queued with
  | none =>
    unfold removeFromReady
    rw [hq]
    exact NurListen.refl s
  | some p => exact (ausgeklinkt_removeFromReady hq).rest

namespace Ordnung

variable {s s' : Scheduler} {l : Nat → List Nat}

variable {p i : Nat}

theorem bit_or (b : BitVec 32) (hp : p < nprio) (q : Nat) :
    (b ||| BitVec.twoPow 32 p).getLsbD q = true ↔ b.getLsbD q = true ∨ q = p := by
  have hlt : p < 32 := Nat.lt_trans hp (by decide)
  rw [BitVec.getLsbD_or, BitVec.getLsbD_twoPow, Bool.or_eq_true, Bool.and_eq_true,
    decide_eq_true_eq, decide_eq_true_eq]
  exact or_congr_right ⟨fun hand => hand.2.symm, fun heq => ⟨hlt, heq.symm⟩⟩

theorem bit_clear (b : BitVec 32) (hp : p < nprio) (q : Nat) :
    (b &&& ~~~ BitVec.twoPow 32 p).getLsbD q = true ↔ b.getLsbD q = true ∧ q ≠ p := by
  have hlt : p < 32 := Nat.lt_trans hp (by decide)
  rw [BitVec.getLsbD_and, BitVec.getLsbD_not, BitVec.getLsbD_twoPow]
  have hb : b.getLsbD q = true → q < 32 := BitVec.lt_of_getLsbD
  simp only [Bool.and_eq_true, decide_eq_true_eq, Bool.not_eq_true', Bool.and_eq_false_iff,
    decide_eq_false_iff_not]
  constructor
  · rintro ⟨hq, -, hne⟩
    exact ⟨hq, fun heq => hne.elim (absurd hlt) (absurd heq.symm)⟩
  · rintro ⟨hq, hne⟩
    exact ⟨hq, hb hq, .inr (Ne.symm hne)⟩

theorem flags_of_daten {q : Option Nat}
    (h : ∀ x, s'.daten x = if x = i then (s.daten i).mitQueued q else s.daten x) (x : Nat) :
    (s'.tcb x).queued = (if x = i then q else (s.tcb x).queued) ∧
      (s'.tcb x).used = (s.tcb x).used ∧ (s'.tcb x).priority = (s.tcb x).priority := by
  have hd := h x
  by_cases hx : x = i
  · rw [if_pos hx] at hd
    have hqueued := congrArg Tcb.queued hd
    have hused := congrArg Tcb.used hd
    have hprio := congrArg Tcb.priority hd
    rw [if_pos hx, hx]
    rw [hx] at hqueued hused hprio
    exact ⟨hqueued, hused, hprio⟩
  · rw [if_neg hx] at hd
    have hqueued := congrArg Tcb.queued hd
    have hused := congrArg Tcb.used hd
    have hprio := congrArg Tcb.priority hd
    rw [if_neg hx]
    exact ⟨hqueued, hused, hprio⟩

theorem not_mem_of_free (h : Ordnung s l) (hq : (s.tcb i).queued = none) (p : Nat) : i ∉ l p := by
  rw [h.mem, hq]
  exact Option.some_ne_none p ∘ Eq.symm

theorem umgereiht {l' : Nat → List Nat} {q : Option Nat} (h : Ordnung s l)
    (hrest : NurListen s s')
    (hdaten : ∀ x, s'.daten x = if x = i then (s.daten i).mitQueued q else s.daten x)
    (hq : ∀ p, q = some p → p < nprio ∧ (s.tcb i).priority = p ∧ (s.tcb i).used = true)
    (hlist : ∀ p, DList s'.qnext s'.qprev (l' p)) (hhead : ∀ p, (s'.queues p).head = (l' p).head?)
    (htail : ∀ p, (s'.queues p).tail = (l' p).getLast?)
    (hcount : ∀ p, (s'.queues p).count = (l' p).length)
    (hbit : ∀ p, s'.bitmap.getLsbD p = true ↔ l' p ≠ [])
    (hmem : ∀ p x, x ∈ l' p ↔ (if x = i then q else (s.tcb x).queued) = some p) :
    Ordnung s' l' := by
  have hqueued := fun x => (flags_of_daten hdaten x).1
  have hused := fun x => (flags_of_daten hdaten x).2.1
  have hprio := fun x => (flags_of_daten hdaten x).2.2
  refine ⟨hlist, hhead, htail, hcount, hbit, ?_, ?_, ?_, ?_, ?_, ?_, ?_, ?_⟩
  · intro p x
    rw [hqueued]
    exact hmem p x
  · intro p x hx
    rw [hqueued] at hx
    rw [hprio]
    by_cases hxi : x = i
    · rw [if_pos hxi] at hx
      rw [hxi]
      exact ⟨(hq p hx).1, (hq p hx).2.1⟩
    · rw [if_neg hxi] at hx
      exact h.prio p x hx
  · intro p x hx
    rw [hqueued] at hx
    rw [hused]
    by_cases hxi : x = i
    · rw [if_pos hxi] at hx
      rw [hxi]
      exact (hq p hx).2.2
    · rw [if_neg hxi] at hx
      exact h.queued_used p x hx
  · intro x hx
    rw [hused] at hx
    rw [hrest.len]
    exact h.bound x hx
  · rw [hrest.len]
    exact h.size
  · rw [hrest.free]
    exact h.free_nodup
  · intro x
    rw [hrest.free, hrest.len, hused]
    exact h.free_mem x
  · rw [hrest.free, hrest.len]
    exact h.free_capacity

theorem einreihen (h : Ordnung s l) (he : Eingereiht s s' i p) (hi : (s.tcb i).used = true) :
    Ordnung s' (update l p (l p ++ [i])) := by
  have hnot := h.not_mem_of_free he.free
  have hmark : ∀ q, some p = some q →
      q < nprio ∧ (s.tcb i).priority = q ∧ (s.tcb i).used = true := by
    intro q hpq
    cases hpq
    exact ⟨he.lt, he.prio, hi⟩
  refine h.umgereiht he.rest he.daten hmark ?_ ?_ ?_ ?_ ?_ ?_
  · intro q
    by_cases hqp : q = p
    · subst hqp
      rw [update_self]
      refine (h.list q).push_back (hnot q) ?_ ?_ ?_ ?_
      · rw [he.qnext, if_neg, if_pos rfl]
        rw [h.tail]
        intro hlast
        exact hnot q (List.mem_of_getLast? hlast)
      · rw [he.qprev, if_pos rfl, h.tail]
      · intro x hx
        have hxi : x ≠ i := fun heq => hnot q (heq ▸ hx)
        rw [he.qnext, h.tail, if_neg hxi]
      · intro x hx
        have hxi : x ≠ i := fun heq => hnot q (heq ▸ hx)
        rw [he.qprev, if_neg hxi]
    · -- The last thread of another list keeps its successor.
      rw [update_of_ne hqp]
      refine (h.list q).congr (fun x hx => ?_) (fun x hx => ?_)
      · have hxi : x ≠ i := fun heq => hnot q (heq ▸ hx)
        rw [he.qnext, if_neg, if_neg hxi]
        rw [h.tail]
        intro hlast
        have hxp := (h.mem p x).mp (List.mem_of_getLast? hlast)
        have hxq := (h.mem q x).mp hx
        exact hqp (Option.some.inj (hxq.symm.trans hxp))
      · have hxi : x ≠ i := fun heq => hnot q (heq ▸ hx)
        rw [he.qprev, if_neg hxi]
  · intro q
    rw [he.head, h.tail, h.head]
    by_cases hqp : q = p
    · subst hqp
      rw [update_self]
      cases l q with
      | nil | cons a m => simp
    · rw [update_of_ne hqp, if_neg (fun hand => hqp hand.1)]
  · intro q
    rw [he.tail]
    by_cases hqp : q = p
    · subst hqp
      rw [update_self, if_pos rfl, List.getLast?_append]
      rfl
    · rw [update_of_ne hqp, if_neg hqp, h.tail]
  · intro q
    rw [he.count]
    by_cases hqp : q = p
    · subst hqp
      rw [update_self, if_pos rfl, List.length_append, h.count]
      rfl
    · rw [update_of_ne hqp, if_neg hqp, h.count]
  · intro q
    rw [he.bitmap, bit_or _ he.lt, h.bit]
    by_cases hqp : q = p
    · subst hqp
      simp
    · rw [update_of_ne hqp]
      simp [hqp]
  · intro q x
    by_cases hqp : q = p
    · subst hqp
      rw [update_self, List.mem_append, List.mem_singleton]
      by_cases hxi : x = i
      · simp [hxi]
      · simp [hxi, h.mem]
    · rw [update_of_ne hqp]
      by_cases hxi : x = i
      · simp [hxi, hnot q, Ne.symm hqp]
      · simp [hxi, h.mem]

theorem ausklinken (h : Ordnung s l) (ha : Ausgeklinkt s s' i p) (hi : (s.tcb i).queued = some p) :
    Ordnung s' (update l p ((l p).erase i)) := by
  have hin : i ∈ l p := (h.mem p i).mpr hi
  have hnd := (h.list p).nodup
  have hother : ∀ q, q ≠ p → i ∉ l q := by
    intro q hqp hiq
    exact hqp (Option.some.inj (((h.mem q i).mp hiq).symm.trans hi))
  have hlt : p < nprio := (h.prio p i hi).1
  refine h.umgereiht ha.rest ha.daten (fun _ hmark => nomatch hmark) ?_ ?_ ?_ ?_ ?_ ?_
  · intro q
    by_cases hqp : q = p
    · subst hqp
      rw [update_self]
      exact (h.list q).unlink hin (fun x _ hx => ha.qnext x hx) (fun x _ hx => ha.qprev x hx)
    · -- The neighbours of the thread are in its own list.
      rw [update_of_ne hqp]
      refine (h.list q).congr (fun x hx => ?_) (fun x hx => ?_)
      · have hxi : x ≠ i := fun heq => hother q hqp (heq ▸ hx)
        rw [ha.qnext x hxi, if_neg]
        intro hprev
        have hxp := (h.mem p x).mp ((h.list p).of_prev hin hprev).1
        exact hqp (Option.some.inj (((h.mem q x).mp hx).symm.trans hxp))
      · have hxi : x ≠ i := fun heq => hother q hqp (heq ▸ hx)
        rw [ha.qprev x hxi, if_neg]
        intro hnext
        have hxp := (h.mem p x).mp ((h.list p).of_next hin hnext).1
        exact hqp (Option.some.inj (((h.mem q x).mp hx).symm.trans hxp))
  · intro q
    rw [ha.head, h.head]
    by_cases hqp : q = p
    · subst hqp
      rw [update_self, (h.list q).head?_erase hin]
      simp
    · rw [update_of_ne hqp, if_neg (fun hand => hqp hand.1)]
  · intro q
    rw [ha.tail, h.tail]
    by_cases hqp : q = p
    · subst hqp
      rw [update_self, (h.list q).getLast?_erase hin]
      simp
    · rw [update_of_ne hqp, if_neg (fun hand => hqp hand.1)]
  · intro q
    rw [ha.count, h.count, h.count]
    by_cases hqp : q = p
    · subst hqp
      rw [update_self, if_pos rfl, List.length_erase_of_mem hin]
    · rw [update_of_ne hqp, if_neg hqp]
  · intro q
    rw [ha.bitmap, h.count]
    have hlen : (l p).length - 1 = ((l p).erase i).length := (List.length_erase_of_mem hin).symm
    by_cases hqp : q = p
    · subst hqp
      rw [update_self, hlen]
      split
      · next hzero =>
        rw [bit_clear _ hlt, List.length_eq_zero_iff.mp hzero]
        simp
      · next hpos =>
        rw [h.bit]
        have hne : (l q).erase i ≠ [] := fun hnil => hpos (by rw [hnil]; rfl)
        exact ⟨fun _ => hne, fun _ => List.ne_nil_of_mem hin⟩
    · rw [update_of_ne hqp]
      split
      · rw [bit_clear _ hlt, h.bit]
        simp [hqp]
      · exact h.bit q
  · intro q x
    by_cases hqp : q = p
    · subst hqp
      rw [update_self, hnd.mem_erase_iff, h.mem]
      by_cases hxi : x = i
      · simp [hxi]
      · simp [hxi]
    · rw [update_of_ne hqp]
      by_cases hxi : x = i
      · simp [hxi, hother q hqp]
      · simp [hxi, h.mem]

/-- The lists do not depend on the other fields of a control block. -/
theorem congr (h : Ordnung s l) (hqueues : s'.queues = s.queues) (hbitmap : s'.bitmap = s.bitmap)
    (hfree : s'.free = s.free) (hlen : s'.tcbs.len = s.tcbs.len)
    (htcb : ∀ x, (s'.tcb x).used = (s.tcb x).used ∧ (s'.tcb x).queued = (s.tcb x).queued ∧
      (s'.tcb x).priority = (s.tcb x).priority ∧ s'.qnext x = s.qnext x ∧ s'.qprev x = s.qprev x) :
    Ordnung s' l where
  list := fun p => (h.list p).congr (fun x _ => (htcb x).2.2.2.1) (fun x _ => (htcb x).2.2.2.2)
  head := fun p => by rw [hqueues, h.head]
  tail := fun p => by rw [hqueues, h.tail]
  count := fun p => by rw [hqueues, h.count]
  bit := fun p => by rw [hbitmap, h.bit]
  mem := fun p x => by rw [(htcb x).2.1, h.mem]
  prio := fun p x hx => by
    rw [(htcb x).2.1] at hx
    rw [(htcb x).2.2.1]
    exact h.prio p x hx
  queued_used := fun p x hx => by
    rw [(htcb x).2.1] at hx
    rw [(htcb x).1]
    exact h.queued_used p x hx
  bound := fun x hx => by
    rw [(htcb x).1] at hx
    rw [hlen]
    exact h.bound x hx
  size := by
    rw [hlen]
    exact h.size
  free_nodup := by
    rw [hfree]
    exact h.free_nodup
  free_mem := fun x => by
    rw [hfree, hlen, (htcb x).1]
    exact h.free_mem x
  free_capacity := by
    rw [hfree, hlen]
    exact h.free_capacity

theorem modifyTcb (h : Ordnung s l) (i : Nat) {f : Tcb → Tcb}
    (hf : ∀ t, (f t).used = t.used ∧ (f t).queued = t.queued ∧ (f t).priority = t.priority ∧
      (f t).qnext = t.qnext ∧ (f t).qprev = t.qprev) : Ordnung (s.modifyTcb i f) l := by
  refine h.congr rfl rfl rfl rfl fun x => ?_
  unfold qnext qprev
  rw [tcb_modifyTcb]
  split
  · next hx =>
    rw [hx]
    exact hf (s.tcb i)
  · exact ⟨rfl, rfl, rfl, rfl, rfl⟩

/-- Slot `i`, whose thread is in no list, gets a block that is in no list either. -/
theorem ersetzen {t : Tcb} (h : Ordnung s l) (hi : (s.tcb i).queued = none)
    (hlti : i < s.tcbs.len) (ht : t.queued = none) (hqueues : s'.queues = s.queues)
    (hbitmap : s'.bitmap = s.bitmap) (htcbs : s'.tcbs = s.tcbs.set i t)
    (hnodup : s'.free.frei.Nodup) (hmem : ∀ x, x ∈ s'.free.frei ↔ x < s.tcbs.len ∧
      (if x = i then t else s.tcb x).used = false) (hcapacity : s'.free.capacity = s.tcbs.len) :
    Ordnung s' l := by
  have hnot := h.not_mem_of_free hi
  have htcb : ∀ x, s'.tcb x = if x = i then t else s.tcb x := by
    intro x
    unfold tcb
    rw [htcbs]
    exact Slab.set_cell s.tcbs i x t
  have hold : ∀ x, x ≠ i → s'.tcb x = s.tcb x := by
    intro x hx
    rw [htcb, if_neg hx]
  have hlen : s'.tcbs.len = s.tcbs.len := by
    rw [htcbs]
    rfl
  refine ⟨?_, ?_, ?_, ?_, ?_, ?_, ?_, ?_, ?_, ?_, hnodup, ?_, ?_⟩
  · intro p
    refine (h.list p).congr (fun x hx => ?_) (fun x hx => ?_)
    · unfold qnext
      rw [hold x fun heq => hnot p (heq ▸ hx)]
    · unfold qprev
      rw [hold x fun heq => hnot p (heq ▸ hx)]
  · rw [hqueues]
    exact h.head
  · rw [hqueues]
    exact h.tail
  · rw [hqueues]
    exact h.count
  · rw [hbitmap]
    exact h.bit
  · intro p x
    by_cases hx : x = i
    · rw [htcb, if_pos hx, hx, ht]
      exact ⟨fun hin => absurd hin (hnot p), fun hq => nomatch hq⟩
    · rw [hold x hx]
      exact h.mem p x
  · intro p x hx
    by_cases hxi : x = i
    · rw [htcb, if_pos hxi, ht] at hx
      cases hx
    · rw [hold x hxi] at hx ⊢
      exact h.prio p x hx
  · intro p x hx
    by_cases hxi : x = i
    · rw [htcb, if_pos hxi, ht] at hx
      cases hx
    · rw [hold x hxi] at hx ⊢
      exact h.queued_used p x hx
  · intro x hx
    rw [hlen]
    by_cases hxi : x = i
    · exact hxi ▸ hlti
    · rw [hold x hxi] at hx
      exact h.bound x hx
  · rw [hlen]
    exact h.size
  · intro x
    rw [hlen, htcb]
    exact hmem x
  · rw [hlen]
    exact hcapacity

/-- A thread leaves its slot; it is in no list. -/
theorem leeren (h : Ordnung s l) (hi : (s.tcb i).used = true) (hq : (s.tcb i).queued = none) :
    Ordnung (s.slotLeeren i) l := by
  have hlti := h.bound i hi
  have hfree : s.free.free i = { s.free with frei := i :: s.free.frei } := by
    unfold FreeList.free
    rw [if_pos (h.free_capacity ▸ hlti)]
  have hfrei : (s.slotLeeren i).free.frei = i :: s.free.frei := congrArg FreeList.frei hfree
  refine h.ersetzen hq hlti rfl rfl rfl rfl ?_ (fun x => ?_)
    ((congrArg FreeList.capacity hfree).trans h.free_capacity)
  · rw [hfrei, List.nodup_cons]
    refine ⟨fun hin => ?_, h.free_nodup⟩
    rw [h.free_mem, hi] at hin
    exact Bool.noConfusion hin.2
  · rw [hfrei, List.mem_cons, h.free_mem]
    by_cases hxi : x = i
    · rw [if_pos hxi, hxi]
      exact ⟨fun _ => ⟨hlti, rfl⟩, fun _ => .inl rfl⟩
    · rw [if_neg hxi]
      exact ⟨fun hor => hor.resolve_left hxi, .inr⟩

/-- A thread takes a free slot, in no list. -/
theorem belegen (h : Ordnung s l) {free : FreeList} {t : Tcb}
    (halloc : s.free.alloc = some (i, free)) (ht : t.used = true) (hq : t.queued = none)
    (hqueues : s'.queues = s.queues) (hbitmap : s'.bitmap = s.bitmap) (hfree : s'.free = free)
    (htcbs : s'.tcbs = s.tcbs.set i t) : Ordnung s' l := by
  obtain ⟨hcons, hcap⟩ := FreeList.alloc_eq_some halloc
  have hnd := h.free_nodup
  rw [hcons, List.nodup_cons] at hnd
  obtain ⟨hlti, hunused⟩ := (h.free_mem i).mp (hcons ▸ List.mem_cons_self)
  have hfreei : (s.tcb i).queued = none := by
    cases hqi : (s.tcb i).queued with
    | none => rfl
    | some p =>
      have hcontra := h.queued_used p i hqi
      rw [hunused] at hcontra
      cases hcontra
  refine h.ersetzen hfreei hlti hq hqueues hbitmap htcbs ?_ (fun x => ?_) ?_
  · rw [hfree]
    exact hnd.2
  · rw [hfree]
    by_cases hxi : x = i
    · rw [if_pos hxi, ht, hxi]
      exact ⟨fun hin => absurd hin hnd.1, fun hand => nomatch hand.2⟩
    · rw [if_neg hxi, ← h.free_mem, hcons, List.mem_cons]
      exact ⟨.inr, fun hor => hor.resolve_left hxi⟩
  · rw [hfree, hcap]
    exact h.free_capacity

end Ordnung

theorem getLsbD_log2 {b : BitVec 32} (hb : b ≠ 0) : b.getLsbD (Nat.log2 b.toNat) = true := by
  have hne : b.toNat ≠ 0 := fun hzero => hb (BitVec.eq_of_toNat_eq hzero)
  rw [← BitVec.testBit_toNat]
  exact Nat.testBit_log2 hne

theorem le_log2_of_getLsbD {b : BitVec 32} {q : Nat} (hq : b.getLsbD q = true) :
    q ≤ Nat.log2 b.toNat := by
  rw [← BitVec.testBit_toNat] at hq
  have hne : b.toNat ≠ 0 := by
    intro hzero
    rw [hzero, Nat.zero_testBit] at hq
    cases hq
  rw [Nat.le_log2 hne]
  exact Nat.ge_two_pow_of_testBit hq

theorem Ordnung.hoechster_eq_some {s : Scheduler} {l : Nat → List Nat} (h : Ordnung s l) {i : Nat}
    (hi : s.hoechster = some i) :
    ∃ p, (l p).head? = some i ∧ (s.tcb i).queued = some p ∧ ∀ q, l q ≠ [] → q ≤ p := by
  unfold hoechster at hi
  split at hi
  · cases hi
  · next hb =>
    rw [h.head] at hi
    refine ⟨Nat.log2 s.bitmap.toNat, hi, ?_, fun q hq => ?_⟩
    · exact (h.mem _ i).mp (List.mem_of_head? hi)
    · exact le_log2_of_getLsbD ((h.bit q).mpr hq)

theorem Ordnung.hoechster_eq_none {s : Scheduler} {l : Nat → List Nat} (h : Ordnung s l)
    (hi : s.hoechster = none) (p : Nat) : l p = [] := by
  unfold hoechster at hi
  by_contra hne
  have hbit := (h.bit p).mpr hne
  split at hi
  · next hb =>
    rw [hb] at hbit
    simp at hbit
  · next hb =>
    rw [h.head, List.head?_eq_none_iff] at hi
    exact (h.bit _).mp (getLsbD_log2 hb) hi

end Caprock.Sched.Scheduler
