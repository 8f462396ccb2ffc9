import Mathlib
import Caprock.Ipc.Rendezvous
import Caprock.Microkit.Sethandler
import Caprock.Microkit.Transfer

/-! # System calls on endpoints

`CALL`, `RECV` and `REPLY` as the dispatcher runs them: the slot of the caller is resolved
to an endpoint or a handler channel, rights and gates are checked, and the call goes to
the endpoint.  Threads that are bound to a handler do not get this far; their system calls
and faults are delivered to the handler instead, and they wait with the reason `HANDLER` until
it replies.

All endpoints share the threads.  A plain `REPLY` takes the endpoint lock twice, first to see
who is answered and then to answer, so it is two steps here.  Registers that travel through the
sidecar window are left out, and so are the endpoint effects of a finalized reply capability:
the step `abortCall` of the endpoint stands for them.
-/

namespace Caprock.Microkit

open Cap Mem Function

def Ergebnis.code : Ergebnis → Nat
  | .ok => 0
  | .errBadcap => 1
  | .errRights => 3
  | .errNopd => 4
  | .errHaschildren => 6
  | .errNospace => 7
  | .errQuiescing => 8
  | .errEpFull => 9
  | .errHandlerCycle => 10
  | .errHandlerGone => 11
  | .errHandlerBusy => 12
  | .errInuse => 18
  | .errSubregion => 21
  | .errTimeout => 25

def PdTable.isQuiescing (t : PdTable) (pd : Nat) : Bool :=
  decide (t.isUsed pd) && (t.pds.cell pd).quiescing

def PdTable.handlerLebt (t : PdTable) (pd : Nat) : Bool :=
  decide (t.isUsed pd) && !(t.pds.cell pd).quiescing

def PdTable.setRecvSlot (t : PdTable) (pd slot : Nat) : Bool × PdTable :=
  if t.isUsed pd ∧ slot < (t.pds.cell pd).cspaceLen then
    (true, t.aendern pd fun p => { p with recvSlot := slot })
  else (false, t)

def Bindung.hatFault (b : Bindung) : Bool := b.faultEp != keinEp

/-- `Weiche`. -/
inductive Weiche where
  | kernel
  | fault (code : Ergebnis)
  | handler (ep slot sidecar : Nat)
  deriving DecidableEq, Repr

def weiche (bindung : Option Bindung) (deckt : Bindung → Bool) (ep : Bindung → Nat)
    (handlerLebt : Bool) : Weiche :=
  match bindung with
  | none => .kernel
  | some b =>
      if deckt b = false then .kernel
      else if handlerLebt = false then .fault .errHandlerGone
      else .handler (ep b) b.slot b.sidecar

def weicheSyscall (bindung : Option Bindung) (handlerLebt : Bool) : Weiche :=
  weiche bindung Bindung.hatSyscall Bindung.sysEp handlerLebt

def weicheFault (bindung : Option Bindung) (handlerLebt : Bool) : Weiche :=
  weiche bindung Bindung.hatFault Bindung.faultEp handlerLebt

/-- `Anlass`. -/
inductive Anlass where
  | syscall
  | fault
  deriving DecidableEq, Repr

def Anlass.wort : Anlass → Nat
  | .syscall => 0
  | .fault => 1

inductive Ruf where
  | call
  | recv
  | reply
  deriving DecidableEq, Repr

/-- A plain `REPLY` between its two sections: the endpoint and the guest it read there. -/
structure Antwort where
  ep : Nat
  gast : Option ThreadId
  deriving DecidableEq, Repr

/-- The endpoint behind a capability and whether it is a handler channel.  Nobody calls through a
handler capability. -/
def endpunkt (ruf : Ruf) : ObjectKind → Option (Nat × Bool)
  | .endpoint id => some (id, false)
  | .syscallHandler ep _ _ _ | .faultHandler ep _ _ _ =>
      if ruf = .call then none else some (ep, true)
  | _ => none

/-- `GRANT_FLAG` in the tag register. -/
def grantFlag (tag : Nat) : Bool := tag.testBit 63

structure Dispatch where
  kern : CapKern
  neps : Nat
  eps : Nat → Ipc.Endpoint
  thread : ThreadId → Ipc.Thread
  empfaenger : ThreadId → Option ThreadId
  handler : ThreadId → Bool
  bindung : ThreadId → Option Bindung
  antwort : ThreadId → Option Antwort

namespace Dispatch

def ipc (d : Dispatch) (ep : Nat) : Ipc.System := ⟨d.eps ep, d.thread, d.empfaenger⟩

def mitIpc (d : Dispatch) (ep : Nat) (w : Ipc.System) : Dispatch :=
  { d with
    eps := update d.eps ep w.ep
    thread := w.thread
    empfaenger := w.empfaenger }

def setFrame (d : Dispatch) (t : ThreadId) (f : Ipc.Frame → Ipc.Frame) : Dispatch :=
  { d with thread := update d.thread t { d.thread t with frame := f (d.thread t).frame } }

def deny (d : Dispatch) (t : ThreadId) (code : Ergebnis) : Dispatch :=
  d.setFrame t fun fr => { fr with result := code.code }

/-- A thread takes steps of its own while it exists, waits for nothing and is not inside a
`REPLY`. -/
def laeuft (d : Dispatch) (t : ThreadId) : Bool :=
  (d.thread t).lebt && (d.thread t).warten = .laufend && !d.handler t && (d.antwort t).isNone

/-- `block_for_handler` and `mark_handler_wait`: both set the reason `HANDLER`. -/
def markHandlerWait (d : Dispatch) (t : ThreadId) : Dispatch :=
  { d with handler := update d.handler t true }

def handlerReply (d : Dispatch) (t : ThreadId) : Dispatch :=
  if (d.thread t).lebt then { d with handler := update d.handler t false } else d

/-- `zustellen`.  `abgelegt` says whether the frame reached the sidecar.  A guest whose call does
not block stays behind with `HANDLER` all the same. -/
def zustellen (d : Dispatch) (t : ThreadId) (ep slot : Nat) (anlass : Anlass) (code : Nat)
    (abgelegt : Bool) : Dispatch :=
  if d.neps ≤ ep ∨ abgelegt = false then (d.deny t .errHandlerGone).markHandlerWait t
  else
    let d := d.setFrame t fun fr =>
      { fr with msg := fun i =>
          if i = 0 then slot
          else if i = 1 then t.slot + t.gen * 2 ^ 32
          else if i = 2 then anlass.wort
          else if i = 3 then code
          else fr.msg i }
    let d := d.markHandlerWait t
    d.mitIpc ep ((d.ipc ep).call t 0)

/-- Resolution, rights and gates: domain, endpoint, handler channel and badge. -/
def pruefen (d : Dispatch) (t : ThreadId) (ruf : Ruf) (slot : Nat) :
    Except Ergebnis (Nat × Nat × Bool × Nat) :=
  match d.kern.caps.aufloesen t slot with
  | .error e => .error e
  | .ok (pd, kind, rights, badge) =>
      match endpunkt ruf kind with
      | none => .error .errBadcap
      | some (ep, handlerKanal) =>
          if rights.contains (if ruf = .call then Rights.write else Rights.read) = false then
            .error .errRights
          else if ruf ≠ .reply ∧ d.kern.caps.pds.isQuiescing pd = true then .error .errQuiescing
          else if d.neps ≤ ep then .error .errBadcap
          else .ok (pd, ep, handlerKanal, badge)

/-- `REPLY` with `GRANT_FLAG`: transfer, answer, deletion of what was displaced. -/
def replyGrant (d : Dispatch) (t : ThreadId) (pd ep tag : Nat) (rf : Finalized) : Dispatch :=
  let d' := { d with kern := d.kern.transfer (d.eps ep).caller pd (tag % 2 ^ 8) rf }
  d'.mitIpc ep ((d'.ipc ep).reply t)

def replyLesen (d : Dispatch) (t : ThreadId) (ep : Nat) (handlerKanal : Bool) : Dispatch :=
  { d with
    antwort := update d.antwort t
      (some ⟨ep, if handlerKanal then (d.eps ep).caller else none⟩) }

/-- The second section: answer, then release the guest that was read. -/
def replyAbschliessen (d : Dispatch) (t : ThreadId) (a : Antwort) : Dispatch :=
  let d := d.mitIpc a.ep ((d.ipc a.ep).reply t)
  let d :=
    match a.gast with
    | some g => d.handlerReply g
    | none => d
  { d with antwort := update d.antwort t none }

def nativ (d : Dispatch) (t : ThreadId) (ruf : Ruf) (slot : Nat) (rf : Finalized) : Dispatch :=
  match d.pruefen t ruf slot with
  | .error e => d.deny t e
  | .ok (pd, ep, handlerKanal, badge) =>
      match ruf with
      | .call => d.mitIpc ep ((d.ipc ep).call t badge)
      | .recv => d.mitIpc ep ((d.ipc ep).recv t)
      | .reply =>
          if grantFlag (d.thread t).frame.tag then
            d.replyGrant t pd ep (d.thread t).frame.tag rf
          else d.replyLesen t ep handlerKanal

/-- Steps of threads, and steps of the kernel on endpoints, tables and bindings. -/
inductive Op where
  | register (t : ThreadId) (frame : Ipc.Frame)
  | syscall (t : ThreadId) (ruf : Ruf) (slot : Nat) (abgelegt : Bool) (rf : Finalized)
  | fault (t : ThreadId) (code : Nat) (abgelegt : Bool)
  | abschluss (t : ThreadId)
  | endpunkt (ep : Nat) (op : Ipc.System.Op)
  | caps (op : Cap.Op)
  | pds (op : PdTable.Op)
  | setRecvSlot (pd slot : Nat)
  | zuordnen (t : ThreadId) (pd : Option Nat)
  | binden (t : ThreadId) (b : Option Bindung)
  | stapel (cap : CapPtr) (benutzt : Bool)

def vomKern : Ipc.System.Op → Bool
  | .call .. | .recv .. | .reply .. => false
  | _ => true

def handlerLebtFuer (d : Dispatch) (t : ThreadId) : Bool :=
  (d.bindung t).any fun b => d.kern.caps.pds.handlerLebt b.handlerPd

def step (d : Dispatch) : Op → Option Dispatch
  | .register t frame => if d.laeuft t then some (d.setFrame t fun _ => frame) else none
  | .syscall t ruf slot abgelegt rf =>
      if d.laeuft t then
        match weicheSyscall (d.bindung t) (d.handlerLebtFuer t) with
        | .kernel => some (d.nativ t ruf slot rf)
        | .fault code => some ((d.deny t code).markHandlerWait t)
        | .handler ep slot _ => some (d.zustellen t ep slot .syscall 0 abgelegt)
      else none
  | .fault t code abgelegt =>
      if d.laeuft t then
        match weicheFault (d.bindung t) (d.handlerLebtFuer t) with
        -- The native path ends the thread.
        | .kernel =>
            some { d with thread := update d.thread t { d.thread t with lebt := false } }
        | .fault code => some ((d.deny t code).markHandlerWait t)
        | .handler ep slot _ => some (d.zustellen t ep slot .fault code abgelegt)
      else none
  | .abschluss t => (d.antwort t).map (d.replyAbschliessen t)
  | .endpunkt ep op =>
      if vomKern op then ((d.ipc ep).step op).map (d.mitIpc ep) else none
  | .caps op =>
      (Kern.step ⟨d.kern.caps.cspace, d.kern.alloc⟩ op).map fun k =>
        { d with kern := { d.kern with
          caps := { d.kern.caps with cspace := k.caps }, alloc := k.alloc } }
  | .pds op =>
      (d.kern.caps.pds.step op).map fun pds =>
        { d with kern := { d.kern with caps := { d.kern.caps with pds := pds } } }
  | .setRecvSlot pd slot =>
      some { d with kern := { d.kern with
        caps := { d.kern.caps with pds := (d.kern.caps.pds.setRecvSlot pd slot).2 } } }
  | .zuordnen t pd =>
      some { d with kern := { d.kern with
        caps := { d.kern.caps with owner := update d.kern.caps.owner t pd } } }
  | .binden t b => some { d with bindung := update d.bindung t b }
  | .stapel cap benutzt =>
      some { d with kern := { d.kern with stapel := update d.kern.stapel cap benutzt } }

end Dispatch

end Caprock.Microkit
