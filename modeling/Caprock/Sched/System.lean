import Caprock.Sched.Scheduler

/-! # All cores together

The schedulers of all cores share the thread directory.  A thread between two cores is a
token: it is in no table, and any core may take it up.  In the kernel both cores are
locked meanwhile; here any operation may come between.

`idle` keeps for each core the slot of the thread that `init_core` made, until that thread
leaves the slot.  It serves the statements only.
-/

namespace Caprock.Sched

open Execution

/-- Table sizes.  The kernel dimensions a core for at most 20000 threads, so that a local
index fits the 16 bits of a directory entry. -/
structure Ausbau where
  jeKern : Nat
  threads : Nat
  jeKern_le : jeKern ≤ 2 ^ 16

/-- The calls that change one core's scheduler and only read the directory. -/
inductive Aufruf where
  | admitThread (tid : ThreadId)
  | blockCurrent (frame : Nat)
  | blockForHandler (frame : Nat)
  | blockForLoad (frame : Nat)
  | parkCurrent (frame : Nat)
  | switchTo (frame : Nat) (target : ThreadId)
  | unblock (tid : ThreadId)
  | unpark (tid : ThreadId)
  | pause (tid : ThreadId)
  | resume (tid : ThreadId)
  | markHandlerWait (tid : ThreadId)
  | handlerReply (tid : ThreadId)
  | loadReply (tid : ThreadId)
  | debugStop (tid : ThreadId)
  | debugContinue (tid : ThreadId)
  | debugReleasePd (pdOf : ThreadId → Option Nat) (pd : Nat)
  | freezeGroup (tid : ThreadId)
  | thawGroup (tid : ThreadId)
  | fristSetzen (ticks : Nat) (grund : Grund)
  | fristLoeschen (tid : ThreadId)
  | fristenFaellig (outLen : Nat)
  | onTick (frame : Nat) (tick : Bool)
  | setBudget (tid : ThreadId) (budget period : Nat)
  | endDonation

/-- Execute a call; results are dropped, a call that reports failure is a step too. -/
def Scheduler.aufruf (s : Scheduler) (v : Verzeichnis) : Aufruf → Option Scheduler
  | .admitThread tid => (s.admitThread v tid).map Prod.snd
  | .blockCurrent frame => (s.blockCurrent frame).map Prod.snd
  | .blockForHandler frame => (s.blockForHandler frame).map Prod.snd
  | .blockForLoad frame => (s.blockForLoad frame).map Prod.snd
  | .parkCurrent frame => (s.parkCurrent frame).map Prod.snd
  | .switchTo frame target => (s.switchTo v frame target).map Prod.snd
  | .unblock tid => (s.unblock v tid).map Prod.snd
  | .unpark tid => (s.unpark v tid).map Prod.snd
  | .pause tid => some (s.pause v tid).2
  | .resume tid => (s.resume v tid).map Prod.snd
  | .markHandlerWait tid => some (s.markHandlerWait v tid).2
  | .handlerReply tid => (s.handlerReply v tid).map Prod.snd
  | .loadReply tid => (s.loadReply v tid).map Prod.snd
  | .debugStop tid => some (s.debugStop v tid).2
  | .debugContinue tid => (s.debugContinue v tid).map Prod.snd
  | .debugReleasePd pdOf pd => (s.debugReleasePd pdOf pd).map Prod.snd
  | .freezeGroup tid => some (s.freezeGroup v tid).2
  | .thawGroup tid => (s.thawGroup v tid).map Prod.snd
  | .fristSetzen ticks grund => s.fristSetzen ticks grund
  | .fristLoeschen tid => some (s.fristLoeschen v tid)
  | .fristenFaellig outLen => (s.fristenFaellig outLen).map Prod.snd
  | .onTick frame tick => (s.onTick frame tick).map Prod.snd
  | .setBudget tid budget period => (s.setBudget v tid budget period).map Prod.snd
  | .endDonation => some s.endDonation

structure System where
  cores : Nat → Scheduler
  verzeichnis : Verzeichnis
  /-- Threads between two cores. -/
  migranten : List Migrant
  /-- What `reap` handed out and `release_gid` has not given back yet. -/
  eingesammelt : List Nat
  idle : Nat → Option Nat

inductive Op where
  | aufruf (core : Nat) (a : Aufruf)
  | initCore (core priority : Nat)
  | spawnParked (core sp stackBase stackLen priority : Nat)
  | spawnUserAtParked (core sp reapBase reapLen priority : Nat)
  | spawn (core sp stackBase stackLen priority : Nat)
  | exitCurrent (core : Nat)
  | kill (core : Nat) (tid : ThreadId)
  | reap (core : Nat)
  | releaseGid (k : Nat)
  | detachForMigration (core : Nat) (tid : ThreadId)
  | attachMigrated (core k : Nat)

namespace System

/-- Freshly attached tables; no core is initialised. -/
def init (a : Ausbau) : System where
  cores := fun c => Scheduler.attached c a.jeKern
  verzeichnis := Verzeichnis.attach a.threads
  migranten := []
  eingesammelt := []
  idle := fun _ => none

/-- Core `c` goes on with scheduler `s`; a thread that left its slot is not idle any more. -/
def weiter (S : System) (c : Nat) (s : Scheduler) (v : Verzeichnis) : System :=
  { S with
    cores := Function.update S.cores c s
    verzeichnis := v
    idle := Function.update S.idle c ((S.idle c).filter fun i => (s.tcb i).used) }

/-- Core `c` after a creation that found no room, or with the new thread. -/
def erzeugt (S : System) (c : Nat) : Option (Nat × Scheduler × Verzeichnis) → System
  | none => S
  | some (_, s, v) => S.weiter c s v

def step (S : System) : Op → Option System
  | .aufruf c a =>
      ((S.cores c).aufruf S.verzeichnis a).map fun s => S.weiter c s S.verzeichnis
  | .initCore c priority =>
      match (S.cores c).initCore S.verzeichnis priority with
      | none => some S
      | some (i, s, v) =>
          some { S.weiter c s v with idle := Function.update S.idle c (some i) }
  | .spawnParked c sp base len priority =>
      some (S.erzeugt c ((S.cores c).spawnParked S.verzeichnis sp base len priority))
  | .spawnUserAtParked c sp base len priority =>
      some (S.erzeugt c ((S.cores c).spawnUserAtParked S.verzeichnis sp base len priority))
  | .spawn c sp base len priority =>
      ((S.cores c).spawn S.verzeichnis sp base len priority).map fun r => S.weiter c r.2.1 r.2.2
  | .exitCurrent c =>
      ((S.cores c).exitCurrent S.verzeichnis).map fun r => S.weiter c r.2.1 r.2.2
  | .kill c tid =>
      ((S.cores c).kill S.verzeichnis tid).map fun r => S.weiter c r.2.1 r.2.2
  | .reap c =>
      match (S.cores c).reap with
      | none => some S
      | some (z, s) =>
          some { S.weiter c s S.verzeichnis with eingesammelt := S.eingesammelt ++ [z.gid] }
  | .releaseGid k =>
      match S.eingesammelt[k]? with
      | none => some S
      | some gid =>
          some { S with
            verzeichnis := S.verzeichnis.releaseGid gid
            eingesammelt := S.eingesammelt.eraseIdx k }
  | .detachForMigration c tid =>
      match (S.cores c).detachForMigration S.verzeichnis tid with
      | none => some S
      | some (m, s) =>
          some { S.weiter c s S.verzeichnis with migranten := S.migranten ++ [m] }
  | .attachMigrated c k =>
      match S.migranten[k]? with
      | none => some S
      | some m =>
          match (S.cores c).attachMigrated S.verzeichnis m with
          | none => none
          | some (.error _) => some S
          | some (.ok (s, v)) => some { S.weiter c s v with migranten := S.migranten.eraseIdx k }

end System

end Caprock.Sched
