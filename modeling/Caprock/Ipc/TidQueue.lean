import Mathlib.Data.List.Nodup
import Caprock.Ipc.Endpoint
import Caprock.Lib.Answers

/-! # The queue of blocked threads

`TidQueue` over whole runs.  `enqueue` and `dequeue` are `RingBuffer.push` and `RingBuffer.pop`,
`remove` goes once round; the other calls only look, through `forEach`.  Every sequence of calls is
answered as a list of at most `queueCap` threads answers it, wherever in the array the queue lies.
-/

namespace Caprock.Ipc

namespace TidQueue

def isFull (q : TidQueue) : Bool := decide (queueCap ≤ q.count)

def isEmpty (q : TidQueue) : Bool := q.count == 0

def anyDead (q : TidQueue) (live : ThreadId → Bool) : Bool :=
  q.forEach (fun dead t => if live t then dead else true) false

def hasDup (q : TidQueue) : Bool :=
  (q.forEach (fun s t => (s.1 ++ [t], if t ∈ s.1 then true else s.2))
    (([] : List ThreadId), false)).2

def contains (q : TidQueue) (target : ThreadId) : Bool :=
  q.forEach (fun found t => if t = target then true else found) false

theorem foldl_or {α : Type} (p : α → Bool) (xs : List α) (b : Bool) :
    xs.foldl (fun found x => if p x then true else found) b = (b || xs.any p) := by
  induction xs generalizing b with
  | nil => simp
  | cons x xs ih =>
    rw [List.foldl_cons, ih, List.any_cons]
    cases p x <;> cases b <;> rfl

theorem contains_eq (q : TidQueue) (target : ThreadId) :
    q.contains target = decide (target ∈ q.toList) := by
  have hfold := foldl_or (fun t => decide (t = target)) q.toList false
  simp only [decide_eq_true_eq] at hfold
  rw [contains, RingBuffer.forEach_eq, hfold, Bool.false_or, Bool.eq_iff_iff]
  simp

theorem anyDead_eq (q : TidQueue) (live : ThreadId → Bool) :
    q.anyDead live = q.toList.any fun t => !live t := by
  have hsame : (fun (dead : Bool) t => if live t then dead else true) =
      fun dead t => if !live t then true else dead := by
    funext dead t
    cases live t <;> rfl
  rw [anyDead, RingBuffer.forEach_eq, hsame, foldl_or, Bool.false_or]

theorem foldl_seen (xs seen : List ThreadId) (dup : Bool) (h : dup = !decide seen.Nodup) :
    (xs.foldl (fun s t => (s.1 ++ [t], if t ∈ s.1 then true else s.2)) (seen, dup)).2 =
      !decide (seen ++ xs).Nodup := by
  induction xs generalizing seen dup with
  | nil => simpa using h
  | cons x xs ih =>
    have hnext : (if x ∈ seen then true else dup) = !decide (seen ++ [x]).Nodup := by
      have hconcat : (seen ++ [x]).Nodup ↔ x ∉ seen ∧ seen.Nodup := by
        rw [← List.concat_eq_append, List.nodup_concat]
      by_cases hx : x ∈ seen
      · simp [hconcat, hx]
      · simp [hconcat, hx, h]
    rw [List.foldl_cons, ih (seen ++ [x]) _ hnext, List.append_assoc, List.singleton_append]

theorem hasDup_eq (q : TidQueue) : q.hasDup = !decide q.toList.Nodup := by
  rw [hasDup, RingBuffer.forEach_eq]
  exact foldl_seen q.toList [] false (by simp)

theorem isFull_eq (q : TidQueue) : q.isFull = decide (q.toList.length = queueCap) := by
  have hle := q.count_le
  rw [isFull, RingBuffer.length_toList]
  exact decide_eq_decide.mpr ⟨fun h => Nat.le_antisymm hle h, fun h => h.ge⟩

theorem isEmpty_eq (q : TidQueue) : q.isEmpty = q.toList.isEmpty := by
  rw [isEmpty, ← RingBuffer.length_toList]
  cases q.toList with
  | nil | cons t ts => rfl

inductive Aufruf where
  | enqueue (t : ThreadId)
  | dequeue
  | remove (t : ThreadId)
  | contains (t : ThreadId)
  | forEach
  | isFull
  | isEmpty
  | anyDead (live : ThreadId → Bool)
  | hasDup

inductive Antwort where
  | ja (b : Bool)
  | faden (t : Option ThreadId)
  | alle (ts : List ThreadId)
  deriving DecidableEq

def step (q : TidQueue) : Aufruf → Antwort × TidQueue
  | .enqueue t => (.ja (q.push t).1, (q.push t).2)
  | .dequeue => (.faden q.pop.1, q.pop.2)
  | .remove t => (.ja (RingBuffer.remove q t).1, (RingBuffer.remove q t).2)
  | .contains t => (.ja (q.contains t), q)
  | .forEach => (.alle (q.forEach (fun ts t => ts ++ [t]) []), q)
  | .isFull => (.ja q.isFull, q)
  | .isEmpty => (.ja q.isEmpty, q)
  | .anyDead live => (.ja (q.anyDead live), q)
  | .hasDup => (.ja q.hasDup, q)

def schlange (ts : List ThreadId) : Aufruf → Antwort × List ThreadId
  | .enqueue t => if ts.length < queueCap then (.ja true, ts ++ [t]) else (.ja false, ts)
  | .dequeue => (.faden ts.head?, ts.tail)
  | .remove t => (.ja (decide (t ∈ ts)), ts.filter fun x => x ≠ t)
  | .contains t => (.ja (decide (t ∈ ts)), ts)
  | .forEach => (.alle ts, ts)
  | .isFull => (.ja (decide (ts.length = queueCap)), ts)
  | .isEmpty => (.ja ts.isEmpty, ts)
  | .anyDead live => (.ja (ts.any fun t => !live t), ts)
  | .hasDup => (.ja (!decide ts.Nodup), ts)

theorem step_enqueue (q : TidQueue) (t : ThreadId) :
    (q.step (.enqueue t)).1 = (schlange q.toList (.enqueue t)).1 ∧
      (q.step (.enqueue t)).2.toList = (schlange q.toList (.enqueue t)).2 := by
  simp only [step, schlange, RingBuffer.length_toList]
  by_cases hroom : q.count < queueCap
  · obtain ⟨hyes, hlist⟩ := RingBuffer.push_of_room hroom t
    rw [if_pos hroom, hyes, hlist]
    exact ⟨rfl, rfl⟩
  · rw [if_neg hroom, RingBuffer.push_of_full (Nat.le_of_not_lt hroom)]
    exact ⟨rfl, rfl⟩

theorem step_dequeue (q : TidQueue) :
    (q.step .dequeue).1 = (schlange q.toList .dequeue).1 ∧
      (q.step .dequeue).2.toList = (schlange q.toList .dequeue).2 := by
  simp only [step, schlange]
  cases hlist : q.toList with
  | nil =>
    rw [RingBuffer.pop_of_empty hlist]
    exact ⟨rfl, hlist⟩
  | cons t ts =>
    obtain ⟨hfront, hrest⟩ := RingBuffer.pop_of_cons hlist
    exact ⟨congrArg _ hfront, hrest⟩

theorem foldl_snoc (xs ys : List ThreadId) :
    xs.foldl (fun ts t => ts ++ [t]) ys = ys ++ xs := by
  induction xs generalizing ys with
  | nil => simp
  | cons x xs ih => rw [List.foldl_cons, ih, List.append_assoc, List.singleton_append]

theorem step_schlange (q : TidQueue) (aufruf : Aufruf) :
    (q.step aufruf).1 = (schlange q.toList aufruf).1 ∧
      (q.step aufruf).2.toList = (schlange q.toList aufruf).2 := by
  cases aufruf with
  | enqueue t => exact step_enqueue q t
  | dequeue => exact step_dequeue q
  | remove t =>
    have hfound : (RingBuffer.remove q t).1 = decide (t ∈ q.toList) := by
      rw [Bool.eq_iff_iff, RingBuffer.remove_found, decide_eq_true_eq]
    exact ⟨congrArg _ hfound, RingBuffer.toList_remove q t⟩
  | contains t => exact ⟨congrArg _ (contains_eq q t), rfl⟩
  | forEach =>
    refine ⟨congrArg Antwort.alle ?_, rfl⟩
    rw [RingBuffer.forEach_eq, foldl_snoc, List.nil_append]
  | isFull => exact ⟨congrArg _ (isFull_eq q), rfl⟩
  | isEmpty => exact ⟨congrArg _ (isEmpty_eq q), rfl⟩
  | anyDead live => exact ⟨congrArg _ (anyDead_eq q live), rfl⟩
  | hasDup => exact ⟨congrArg _ (hasDup_eq q), rfl⟩

theorem simulates_schlange :
    Answers.Simulates step schlange fun (q : TidQueue) ts => q.toList = ts where
  answer := by
    intro q ts h op
    subst h
    exact (step_schlange q op).1
  next := by
    intro q ts h op
    subst h
    exact (step_schlange q op).2

/-- From every queue and through every sequence of calls `TidQueue` is the list of its threads; a
thread is turned away exactly when the list is full, and then nothing has changed. -/
theorem step_fifo (q : TidQueue) (aufrufe : List Aufruf) :
    let lauf := Answers.play step q aufrufe
    let liste := Answers.play schlange q.toList aufrufe
    lauf.1 = liste.1 ∧ lauf.2.toList = liste.2 ∧ ∀ t,
      (liste.2.length = queueCap ∧ lauf.2.push t = (false, lauf.2)) ∨
        (liste.2.length < queueCap ∧ (lauf.2.push t).1 = true ∧
          (lauf.2.push t).2.toList = liste.2 ++ [t]) := by
  obtain ⟨hanswers, hlist⟩ := simulates_schlange.play (rfl : q.toList = q.toList) aufrufe
  refine ⟨hanswers, hlist, fun t => ?_⟩
  simp only [← hlist, RingBuffer.length_toList]
  generalize (Answers.play step q aufrufe).2 = q'
  have hle := q'.count_le
  by_cases hroom : q'.count < queueCap
  · exact .inr ⟨hroom, RingBuffer.push_of_room hroom t⟩
  · exact .inl ⟨by omega, RingBuffer.push_of_full (Nat.le_of_not_lt hroom) t⟩

end TidQueue

end Caprock.Ipc
