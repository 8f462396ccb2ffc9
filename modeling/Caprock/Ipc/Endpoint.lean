import Caprock.Handle
import Caprock.Lib.RingBuffer

/-! # Endpoints

A synchronous rendezvous point with its threads.  An `Endpoint` holds two bounded
queues of blocked threads and one reply token: `caller` waits for an answer and
`replyOwner` owes it.  The operations act on the endpoint and, through the
scheduler, on the threads.

`System` adds to the endpoint what the operations read and change of each thread.
`Warten` says why a thread is blocked; `abgemeldet` marks a blocked thread that was
purged from the endpoint.  `empfaenger` records which server received the last
request of a thread.  Both serve the statements only: the code branches on
`lebt` and on being blocked, nothing else.
-/

namespace Caprock.Ipc

def queueCap : Nat := 32

abbrev TidQueue : Type := RingBuffer ThreadId queueCap

def TidQueue.leer : TidQueue := RingBuffer.empty (by decide)

def msgWords : Nat := 4

namespace Result

def ok : Nat := 0
def errBadcap : Nat := 1
def errServerGone : Nat := 5
def errQuiescing : Nat := 8
def errEpFull : Nat := 9
def errTimeout : Nat := 25

end Result

/-- The registers of a trap frame that IPC uses. -/
structure Frame where
  result : Nat
  epBadge : Nat
  msg : Nat → Nat
  tag : Nat

def transfer (src dst : Frame) : Frame :=
  { dst with
    msg := fun i => if i < msgWords then src.msg i else dst.msg i
    tag := src.tag }

inductive Warten where
  | laufend
  | imRuf
  | imEmpfang
  | abgemeldet
  deriving DecidableEq, Repr

structure Thread where
  lebt : Bool
  warten : Warten
  frame : Frame

structure Endpoint where
  used : Bool
  quiescing : Bool
  senders : TidQueue
  receivers : TidQueue
  caller : Option ThreadId
  replyOwner : Option ThreadId

namespace Endpoint

/-- The endpoint after `mark_used`. -/
def markUsed : Endpoint := ⟨true, false, TidQueue.leer, TidQueue.leer, none, none⟩

def gateNewTransaction (e : Endpoint) : Option Nat :=
  if !e.used then some Result.errBadcap
  else if e.quiescing then some Result.errQuiescing
  else none

def beginQuiesce (e : Endpoint) : Bool × Endpoint :=
  if !e.used || e.quiescing then (false, e) else (true, { e with quiescing := true })

def endQuiesce (e : Endpoint) : Bool × Endpoint :=
  (e.quiescing, { e with quiescing := false })

def retireReceiver (e : Endpoint) (tid : ThreadId) : Bool × Endpoint :=
  if e.used then
    let r := e.receivers.remove tid
    (r.1, { e with receivers := r.2 })
  else (false, e)

def bindReceiver (e : Endpoint) (tid : ThreadId) : Bool × Endpoint :=
  if !e.used || tid ∈ e.receivers.toList then (false, e)
  else
    let r := e.receivers.push tid
    (r.1, { e with receivers := r.2 })

structure RebindBlocked where
  sendersWaiting : Bool
  otherReceiver : Bool
  replyOpen : Bool
  deriving DecidableEq, Repr

inductive Rebind where
  | done (overlapped : Bool)
  | noEndpoint
  | notQuiescing
  | blocked (why : RebindBlocked)
  | notReceiver
  | sameThread
  deriving DecidableEq, Repr

def rebindServer (e : Endpoint) (old new : ThreadId) : Rebind × Endpoint :=
  if !e.used then (.noEndpoint, e)
  else if !e.quiescing then (.notQuiescing, e)
  else if old = new then (.sameThread, e)
  else
    let overlapped := decide (new ∈ e.receivers.toList)
    let eigene := (if old ∈ e.receivers.toList then 1 else 0) + (if overlapped then 1 else 0)
    let why : RebindBlocked :=
      { sendersWaiting := e.senders.count != 0
        otherReceiver := eigene < e.receivers.count
        replyOpen := e.caller.isSome || e.replyOwner.isSome }
    if why ≠ ⟨false, false, false⟩ then (.blocked why, e)
    else
      let r := e.receivers.remove old
      if !r.1 then (.notReceiver, { e with receivers := r.2 })
      else if overlapped then (.done true, { e with receivers := r.2 })
      else (.done false, { e with receivers := (r.2.push new).2 })

/-- Take a dying thread out of every role it can wait in. -/
def purgeThread (e : Endpoint) (tid : ThreadId) : Bool × Endpoint :=
  let s := e.senders.remove tid
  let r := e.receivers.remove tid
  if e.caller = some tid then
    (true, { e with senders := s.2, receivers := r.2, caller := none, replyOwner := none })
  else (s.1 || r.1, { e with senders := s.2, receivers := r.2 })

/-- The server that owed the answer is gone; its caller is returned. -/
def ownerDied (e : Endpoint) (owner : ThreadId) : Option ThreadId × Endpoint :=
  if e.replyOwner = some owner then (e.caller, { e with replyOwner := none, caller := none })
  else (none, e)

def abortCall (e : Endpoint) (caller : ThreadId) : Option ThreadId × Endpoint :=
  if e.caller = some caller then (e.caller, { e with replyOwner := none, caller := none })
  else (none, e)

/-- Hand the outstanding answer of `oldOwner` to the next receiving instance. -/
def migrateOwner (e : Endpoint) (oldOwner : ThreadId) : Bool × Endpoint :=
  if e.used && e.replyOwner = some oldOwner && !decide (queueCap ≤ e.senders.count) then
    match e.caller with
    | some c =>
        (true, { e with caller := none, replyOwner := none, senders := (e.senders.push c).2 })
    | none => (false, e)
  else (false, e)

end Endpoint

structure System where
  ep : Endpoint
  thread : ThreadId → Thread
  empfaenger : ThreadId → Option ThreadId

namespace System

/-- A fresh endpoint; threads run or do not exist. -/
def init (lebt : ThreadId → Bool) (frame : ThreadId → Frame) : System where
  ep := Endpoint.markUsed
  thread := fun t => ⟨lebt t, .laufend, frame t⟩
  empfaenger := fun _ => none

def setEp (w : System) (e : Endpoint) : System := { w with ep := e }

/-- Ghost: `server` received the request of `t`. -/
def notiere (w : System) (t server : ThreadId) : System :=
  { w with empfaenger := Function.update w.empfaenger t (some server) }

def modifyThread (w : System) (t : ThreadId) (f : Thread → Thread) : System :=
  { w with thread := Function.update w.thread t (f (w.thread t)) }

def setFrame (w : System) (t : ThreadId) (f : Frame → Frame) : System :=
  w.modifyThread t fun th => { th with frame := f th.frame }

def setResult (w : System) (t : ThreadId) (code : Nat) : System :=
  w.setFrame t fun fr => { fr with result := code }

def block (w : System) (t : ThreadId) (why : Warten) : System :=
  w.modifyThread t fun th => { th with warten := why }

/-- `SchedOps::unblock`: no effect on a thread that does not exist. -/
def unblock (w : System) (t : ThreadId) : System :=
  if (w.thread t).lebt then w.block t .laufend else w

def unblockWithError (w : System) (t : ThreadId) (code : Nat) : System :=
  if (w.thread t).lebt then (w.setResult t code).block t .laufend else w

def wartetAufIpc (w : System) (t : ThreadId) : Bool :=
  (w.thread t).lebt && (w.thread t).warten ≠ .laufend

/-- Dequeue until a living thread is found; entries of dead threads are dropped. -/
def dequeueLive (lebt : ThreadId → Bool) : Nat → TidQueue → Option ThreadId × TidQueue
  | 0, q => (none, q)
  | n + 1, q =>
      match q.pop with
      | (none, q') => (none, q')
      | (some t, q') => if lebt t then (some t, q') else dequeueLive lebt n q'

def lebt (w : System) (t : ThreadId) : Bool := (w.thread t).lebt

def handOff (w : System) (t server : ThreadId) (badge : Nat) (receivers : TidQueue) : System :=
  let w := w.setFrame server fun fr =>
    { transfer (w.thread t).frame fr with result := Result.ok, epBadge := badge }
  let w := w.setEp
    { w.ep with receivers := receivers, caller := some t, replyOwner := some server }
  ((w.notiere t server).block t .imRuf).unblock server

/-- No receiver lives: queue as a sender and block, or report a full queue. -/
def queueSender (w : System) (t : ThreadId) (receivers : TidQueue) : System :=
  let r := w.ep.senders.push t
  let w := w.setEp { w.ep with receivers := receivers, senders := r.2 }
  if r.1 then w.block t .imRuf else w.setResult t Result.errEpFull

/-- `CALL` by thread `t` through a capability with the given badge. -/
def call (w : System) (t : ThreadId) (badge : Nat) : System :=
  match w.ep.gateNewTransaction with
  | some code => w.setResult t code
  | none =>
      let w := w.setFrame t fun fr => { fr with epBadge := badge }
      match dequeueLive w.lebt w.ep.receivers.count w.ep.receivers with
      | (some server, receivers) => w.handOff t server badge receivers
      | (none, receivers) => w.queueSender t receivers

def takeOver (w : System) (t sender : ThreadId) (senders : TidQueue) : System :=
  let w := w.setFrame t fun fr =>
    { transfer (w.thread sender).frame fr with
      result := Result.ok, epBadge := (w.thread sender).frame.epBadge }
  (w.setEp { w.ep with
    senders := senders, caller := some sender, replyOwner := some t }).notiere sender t

/-- No sender lives: queue as a receiver and block, or report a full queue. -/
def queueReceiver (w : System) (t : ThreadId) (senders : TidQueue) : System :=
  let r := w.ep.receivers.push t
  let w := w.setEp { w.ep with senders := senders, receivers := r.2 }
  if r.1 then w.block t .imEmpfang else w.setResult t Result.errEpFull

/-- `RECV` by thread `t`. -/
def recv (w : System) (t : ThreadId) : System :=
  match w.ep.gateNewTransaction with
  | some code => w.setResult t code
  | none =>
      match dequeueLive w.lebt w.ep.senders.count w.ep.senders with
      | (some sender, senders) => w.takeOver t sender senders
      | (none, senders) => w.queueReceiver t senders

/-- Deliver the message of `t` to the waiting thread `c` and wake it. -/
def deliver (w : System) (t c : ThreadId) : System :=
  (w.setFrame c fun fr => { transfer (w.thread t).frame fr with result := Result.ok }).unblock c

/-- `REPLY` by thread `t`: the token is consumed, and a caller that still waits gets
the message.  A thread that waits exists, so it has a frame. -/
def reply (w : System) (t : ThreadId) : System :=
  if !w.ep.used then w.setResult t Result.errBadcap
  else
    let w' := w.setEp { w.ep with replyOwner := none, caller := none }
    match w.ep.caller with
    | none => w'.setResult t Result.ok
    | some c =>
        if !w.wartetAufIpc c then w'.setResult t Result.ok
        else (w'.deliver t c).setResult t Result.ok

inductive Op where
  | call (t : ThreadId) (badge : Nat)
  | recv (t : ThreadId)
  | reply (t : ThreadId)
  | abortCall (caller : ThreadId)
  | purgeThread (tid : ThreadId)
  | ownerDied (owner : ThreadId)
  | rebindServer (old new : ThreadId)
  | migrateOwner (oldOwner : ThreadId)
  | bindReceiver (tid : ThreadId)
  | retireReceiver (tid : ThreadId)
  | beginQuiesce
  | endQuiesce
  | kill (tid : ThreadId)
  | frist (tid : ThreadId)

/-- A thread takes a step of its own only while it lives and is not blocked. -/
def laeuft (w : System) (t : ThreadId) : Bool :=
  (w.thread t).lebt && (w.thread t).warten = .laufend

def wakeOrphan (w : System) (e : Endpoint) : Option ThreadId → System
  | some c => (w.setEp e).unblockWithError c Result.errServerGone
  | none => w.setEp e

/-- A purged thread that is still blocked is no longer registered anywhere. -/
def abmelden (w : System) (t : ThreadId) : System :=
  if (w.thread t).warten = .laufend then w else w.block t .abgemeldet

def step (w : System) : Op → Option System
  | .call t badge => if w.laeuft t then some (w.call t badge) else none
  | .recv t => if w.laeuft t then some (w.recv t) else none
  | .reply t => if w.laeuft t then some (w.reply t) else none
  | .abortCall c => some (w.wakeOrphan (w.ep.abortCall c).2 (w.ep.abortCall c).1)
  | .purgeThread t => some ((w.setEp (w.ep.purgeThread t).2).abmelden t)
  | .ownerDied o => some (w.wakeOrphan (w.ep.ownerDied o).2 (w.ep.ownerDied o).1)
  | .rebindServer old new => some (w.setEp (w.ep.rebindServer old new).2)
  | .migrateOwner o => some (w.setEp (w.ep.migrateOwner o).2)
  | .bindReceiver t => some (w.setEp (w.ep.bindReceiver t).2)
  | .retireReceiver t => some (w.setEp (w.ep.retireReceiver t).2)
  | .beginQuiesce => some (w.setEp w.ep.beginQuiesce.2)
  | .endQuiesce => some (w.setEp w.ep.endQuiesce.2)
  | .kill t => some (w.modifyThread t fun th => { th with lebt := false })
  | .frist t =>
      if w.wartetAufIpc t then some ((w.setResult t Result.errTimeout).block t .laufend) else none

end System

end Caprock.Ipc
