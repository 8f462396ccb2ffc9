import Caprock.Wait.Completion

/-! # Waiting for a condition

`wait_event` repeats: ask the condition, enqueue, park.  The condition is a closure of the
caller and may change its answer at any time; whoever makes it true wakes over the queue.
`wait_event_timeout` takes the same steps until its deadline, and then takes itself out of the
queue.  Success and a full queue end either call on the spot.
-/

namespace Caprock.Wait

open Function

namespace WaitEvent

/-- Threads around one queue.  `cond` is what the condition of a thread says at present, and
`mitFrist` tells `wait_event_timeout` from `wait_event`. -/
structure System where
  q : WaitQueue
  lage : Tid → Completion.Lage
  mitFrist : Tid → Bool
  marke : Tid → Bool
  cond : Tid → Bool

inductive Op where
  | setze (t : Tid) (wahr : Bool)
  | wakeOne
  | wakeAll
  | waitEvent (t : Tid)
  | waitEventTimeout (t : Tid)
  | pruefen (t : Tid)
  | einreihen (t : Tid)
  | park (t : Tid)
  | fristUm (t : Tid)
  | austragen (t : Tid)
  | fremdUnpark (t : Tid)
  deriving DecidableEq, Repr

namespace System

def neu : System :=
  ⟨WaitQueue.new, fun _ => .ausserhalb, fun _ => false, fun _ => false, fun _ => false⟩

def stelle (s : System) (t : Tid) (l : Completion.Lage) : System :=
  { s with lage := update s.lage t l }

/-- `unpark`: wakes a parked thread, leaves a mark at any other. -/
def unpark (s : System) (t : Tid) : System :=
  if s.lage t = .schlaeft then s.stelle t .vorPruefung
  else { s with marke := update s.marke t true }

/-- `park`: consumes a mark, else sleeps. -/
def park (s : System) (t : Tid) : System :=
  if s.marke t then
    { s.stelle t .vorPruefung with marke := update s.marke t false }
  else s.stelle t .schlaeft

def wakeOne (s : System) : System :=
  match s.q.pop with
  | (none, q) => { s with q := q }
  | (some t, q) => unpark { s with q := q } t

def wakeAll (s : System) : System := s.q.wakeAll.1.foldl unpark { s with q := s.q.wakeAll.2 }

/-- The condition ends the call or sends the thread on to the queue. -/
def pruefen (s : System) (t : Tid) : System :=
  if s.cond t then s.stelle t .ausserhalb else s.stelle t .geprueft

/-- Without room in the queue the thread does not park but leaves with an error. -/
def einreihen (s : System) (t : Tid) : System :=
  match s.q.push t with
  | (true, q) => { s.stelle t .vorPark with q := q }
  | (false, q) => { s.stelle t .ausserhalb with q := q }

def austragen (s : System) (t : Tid) : System :=
  { s.stelle t .ausserhalb with q := (s.q.entfernen t).2 }

/-- One step.  An operation of a thread that is elsewhere in its program does nothing. -/
def step (s : System) : Op → Option System
  | .setze t wahr => some { s with cond := update s.cond t wahr }
  | .wakeOne => some s.wakeOne
  | .wakeAll => some s.wakeAll
  | .waitEvent t =>
      if s.lage t = .ausserhalb then
        some { s.stelle t .vorPruefung with mitFrist := update s.mitFrist t false }
      else some s
  | .waitEventTimeout t =>
      if s.lage t = .ausserhalb then
        some { s.stelle t .vorPruefung with mitFrist := update s.mitFrist t true }
      else some s
  | .pruefen t => if s.lage t = .vorPruefung then some (s.pruefen t) else some s
  | .einreihen t => if s.lage t = .geprueft then some (s.einreihen t) else some s
  | .park t => if s.lage t = .vorPark then some (s.park t) else some s
  | .fristUm t =>
      if s.mitFrist t = true ∧ (s.lage t = .geprueft ∨ s.lage t = .schlaeft) then
        some (s.stelle t .abgelaufen)
      else some s
  | .austragen t => if s.lage t = .abgelaufen then some (s.austragen t) else some s
  | .fremdUnpark t => some (s.unpark t)

theorem unpark_q (s : System) (t : Tid) : (s.unpark t).q = s.q := by
  unfold unpark
  split <;> rfl

theorem foldl_unpark_q (ts : List Tid) (s : System) : (ts.foldl unpark s).q = s.q := by
  induction ts generalizing s with
  | nil => rfl
  | cons t ts ih => rw [List.foldl_cons, ih, unpark_q]

theorem park_q (s : System) (t : Tid) : (s.park t).q = s.q := by
  unfold park
  split <;> rfl

end System

end WaitEvent

end Caprock.Wait
