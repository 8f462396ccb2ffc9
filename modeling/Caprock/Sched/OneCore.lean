import Caprock.Sched.System

/-! # One step, one core

A step of the system changes at most one core.  `Kernschritt` lists what can have happened
to that core and to the threads under way, so that a law about cores and migrants is checked
once for each operation.
-/

namespace Caprock.Sched

open Execution

/-- Operation `op` takes core `c` from `s` to `s'` and the threads under way from `ms` to
`ms'`. -/
inductive Kernschritt (v : Verzeichnis) (c : Nat) (s : Scheduler) (ms : List Migrant) :
    Op → Scheduler → List Migrant → Prop
  | aufruf {a : Aufruf} {s' : Scheduler} (h : s.aufruf v a = some s') :
      Kernschritt v c s ms (.aufruf c a) s' ms
  | initCore {priority i : Nat} {s' : Scheduler} {v' : Verzeichnis}
      (h : s.initCore v priority = some (i, s', v')) :
      Kernschritt v c s ms (.initCore c priority) s' ms
  | spawnParked {op : Op} {sp base len priority i : Nat} {s' : Scheduler} {v' : Verzeichnis}
      (hop : op = .spawnParked c sp base len priority ∨
        op = .spawnUserAtParked c sp base len priority)
      (h : s.spawnParked v sp base len priority = some (i, s', v')) : Kernschritt v c s ms op s' ms
  | spawn {sp base len priority : Nat} {r : Option ThreadId} {s' : Scheduler} {v' : Verzeichnis}
      (h : s.spawn v sp base len priority = some (r, s', v')) :
      Kernschritt v c s ms (.spawn c sp base len priority) s' ms
  | exitCurrent {sp : Nat} {s' : Scheduler} {v' : Verzeichnis}
      (h : s.exitCurrent v = some (sp, s', v')) : Kernschritt v c s ms (.exitCurrent c) s' ms
  | kill {tid : ThreadId} {b : Bool} {s' : Scheduler} {v' : Verzeichnis}
      (h : s.kill v tid = some (b, s', v')) : Kernschritt v c s ms (.kill c tid) s' ms
  | reap {z : Zombie} {s' : Scheduler} (h : s.reap = some (z, s')) :
      Kernschritt v c s ms (.reap c) s' ms
  | detachForMigration {tid : ThreadId} {m : Migrant} {s' : Scheduler}
      (h : s.detachForMigration v tid = some (m, s')) :
      Kernschritt v c s ms (.detachForMigration c tid) s' (ms ++ [m])
  | attachMigrated {k : Nat} {m : Migrant} {s' : Scheduler} {v' : Verzeichnis}
      (hm : ms[k]? = some m) (h : s.attachMigrated v m = some (.ok (s', v'))) :
      Kernschritt v c s ms (.attachMigrated c k) s' (ms.eraseIdx k)

namespace System

variable {S S' : System} {op : Op}

/-- Nothing happens to a core, or one core makes a step. -/
theorem step_kern (h : S.step op = some S') :
    (S'.cores = S.cores ∧ S'.migranten = S.migranten ∧ ∀ c a, op ≠ .aufruf c a) ∨
      ∃ c s, S'.cores = Function.update S.cores c s ∧
        Kernschritt S.verzeichnis c (S.cores c) S.migranten op s S'.migranten := by
  cases op with
  | aufruf c a =>
    obtain ⟨s, hs, rfl⟩ := Option.map_eq_some_iff.mp h
    exact .inr ⟨c, s, rfl, .aufruf hs⟩
  | initCore c priority =>
    unfold step at h
    dsimp only at h
    split at h
    · cases h
      exact .inl ⟨rfl, rfl, fun _ _ hop => nomatch hop⟩
    · next hs =>
      cases h
      exact .inr ⟨c, _, rfl, .initCore hs⟩
  | spawnParked c sp base len priority =>
    cases h
    unfold erzeugt
    split
    · exact .inl ⟨rfl, rfl, fun _ _ hop => nomatch hop⟩
    · next hs => exact .inr ⟨c, _, rfl, .spawnParked (.inl rfl) hs⟩
  | spawnUserAtParked c sp base len priority =>
    cases h
    unfold erzeugt
    split
    · exact .inl ⟨rfl, rfl, fun _ _ hop => nomatch hop⟩
    · next hs => exact .inr ⟨c, _, rfl, .spawnParked (.inr rfl) hs⟩
  | spawn c sp base len priority =>
    obtain ⟨⟨r, s, v⟩, hs, rfl⟩ := Option.map_eq_some_iff.mp h
    exact .inr ⟨c, s, rfl, .spawn hs⟩
  | exitCurrent c =>
    obtain ⟨⟨sp, s, v⟩, hs, rfl⟩ := Option.map_eq_some_iff.mp h
    exact .inr ⟨c, s, rfl, .exitCurrent hs⟩
  | kill c tid =>
    obtain ⟨⟨b, s, v⟩, hs, rfl⟩ := Option.map_eq_some_iff.mp h
    exact .inr ⟨c, s, rfl, .kill hs⟩
  | reap c =>
    unfold step at h
    dsimp only at h
    split at h
    · cases h
      exact .inl ⟨rfl, rfl, fun _ _ hop => nomatch hop⟩
    · next hs =>
      cases h
      exact .inr ⟨c, _, rfl, .reap hs⟩
  | releaseGid k =>
    unfold step at h
    dsimp only at h
    split at h
    · cases h
      exact .inl ⟨rfl, rfl, fun _ _ hop => nomatch hop⟩
    · cases h
      exact .inl ⟨rfl, rfl, fun _ _ hop => nomatch hop⟩
  | detachForMigration c tid =>
    unfold step at h
    dsimp only at h
    split at h
    · cases h
      exact .inl ⟨rfl, rfl, fun _ _ hop => nomatch hop⟩
    · next hs =>
      cases h
      exact .inr ⟨c, _, rfl, .detachForMigration hs⟩
  | attachMigrated c k =>
    unfold step at h
    dsimp only at h
    split at h
    · cases h
      exact .inl ⟨rfl, rfl, fun _ _ hop => nomatch hop⟩
    · next m hm =>
      split at h
      · cases h
      · cases h
        exact .inl ⟨rfl, rfl, fun _ _ hop => nomatch hop⟩
      · next hs =>
        cases h
        exact .inr ⟨c, _, rfl, .attachMigrated hm hs⟩

/-- A law of cores and migrants holds in every core and under way. -/
def Ueberall (P : Scheduler → Prop) (M : Migrant → Prop) (S : System) : Prop :=
  (∀ c, P (S.cores c)) ∧ ∀ m ∈ S.migranten, M m

theorem Ueberall.step {P : Scheduler → Prop} {M : Migrant → Prop} (hS : S.Ueberall P M)
    (hstep : S.step op = some S')
    (hkern : ∀ c s ms', Kernschritt S.verzeichnis c (S.cores c) S.migranten op s ms' →
      P s ∧ ∀ m ∈ ms', M m) : S'.Ueberall P M := by
  rcases step_kern hstep with ⟨hcores, hms, -⟩ | ⟨c, s, hcores, hk⟩
  · unfold Ueberall
    rw [hcores, hms]
    exact hS
  · obtain ⟨hs, hms⟩ := hkern c s _ hk
    unfold Ueberall
    rw [hcores]
    exact ⟨(Function.forall_update_iff S.cores fun _ => P).mpr ⟨hs, fun d _ => hS.1 d⟩, hms⟩

end System

end Caprock.Sched
