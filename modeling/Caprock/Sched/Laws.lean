import Caprock.Sched.Pointwise
import Caprock.Sched.Reachable

/-! # Laws of the system

A law about single blocks that bears creation, admission at birth and arrival is kept by
every step of the system, except for the calls it has to answer for itself.
-/

namespace Caprock.Sched

open Execution Scheduler Function

/-- A law of the system.  The first argument is the slot of the core's idle thread, the
second the running thread. -/
structure Gesetz (Q : Option Nat → Option Nat → Nat → Tcb → Prop) : Prop where
  block : ∀ idle, Vertraeglich (Q idle)
  mono : ∀ {idle idle' c x t}, (idle' = some x → idle = some x) → Q idle c x t → Q idle' c x t
  fresh : ∀ {idle c x t}, idle ≠ some x → c ≠ some x → Neu t → t.queued = none → Q idle c x t
  ready : ∀ {idle c x t}, t.reasons = ∅ → t.depleted = false → t.queued ≠ none → c ≠ some x →
    Q idle c x t
  arrive : ∀ {idle c x y t t'}, idle ≠ some x → c ≠ some x → t'.used = t.used →
    t'.admitted = t.admitted → t'.reasons = t.reasons → t'.depleted = t.depleted →
    (t'.queued ≠ none ↔ t.queued ≠ none) → Q none none y t → Q idle c x t'

def Unterwegs (Q : Option Nat → Option Nat → Nat → Tcb → Prop) (m : Migrant) : Prop :=
  ∃ y t, Q none none y t ∧ Gleichstand (t.mitQueued none) m.tcb ∧
    (m.wasReady = true ↔ t.queued ≠ none)

/-- The law holds in every slot of every core and for every thread under way. -/
structure System.Haelt (Q : Option Nat → Option Nat → Nat → Tcb → Prop) (S : System) : Prop where
  core : ∀ c, Gilt (Q (S.idle c)) (fun _ => True) (S.cores c)
  idle : ∀ c x, S.idle c = some x → ((S.cores c).tcb x).used = true
  unterwegs : ∀ m ∈ S.migranten, Unterwegs Q m

namespace Scheduler

theorem Besetzt.foreign {s s' : Scheduler} {i : Nat} {t : Tcb} {idle : Option Nat}
    (hb : Besetzt s s' i t) (hgut : s.Gut) (hidle : ∀ x, idle = some x → (s.tcb x).used = true) :
    idle ≠ some i ∧ s.current ≠ some i := by
  have hfree := hb.unused hgut.1
  constructor
  · intro heq
    exact Bool.false_ne_true (hfree.symm.trans (hidle i heq))
  · intro heq
    exact Bool.false_ne_true (hfree.symm.trans (hgut.2 i heq))

theorem Gilt.besetzt {Q : Option Nat → Nat → Tcb → Prop} {s s' : Scheduler} {i : Nat} {t : Tcb}
    (hs : Gilt Q (fun _ => True) s) (hb : Besetzt s s' i t) (ht : Q s.current i t) :
    Gilt Q (fun _ => True) s' := by
  intro x _
  rw [hb.tcb, hb.current]
  split
  · next hx => exact hx ▸ ht
  · exact hs x trivial

theorem Gilt.reap {Q : Option Nat → Nat → Tcb → Prop} {D : Nat → Prop} {s s' : Scheduler}
    {z : Zombie} (hs : Gilt Q D s) (h : s.reap = some (z, s')) : Gilt Q D s' := by
  obtain ⟨-, -, rfl⟩ := reap_eq_some h
  exact hs

section

variable {Q : Option Nat → Option Nat → Nat → Tcb → Prop} (hQ : Gesetz Q)
variable {s s' : Scheduler} {v v' : Verzeichnis} {idle : Option Nat}
variable (hs : Gilt (Q idle) (fun _ => True) s) (hgut : s.Gut)
variable (hidle : ∀ x, idle = some x → (s.tcb x).used = true)

include hQ hs hgut hidle

theorem gilt_zugang {i : Nat} {t : Tcb} (hz : Zugang s s' i t) :
    Gilt (Q idle) (fun _ => True) s' := by
  have hb := hz.besetzt
  obtain ⟨hne, hcur⟩ := hb.foreign hgut hidle
  exact hs.besetzt hb (hQ.fresh hne hcur hz.neu hb.queued)

theorem gilt_spawnParked {sp base len priority i : Nat}
    (h : s.spawnParked v sp base len priority = some (i, s', v')) :
    Gilt (Q idle) (fun _ => True) s' := by
  obtain ⟨t, hz, -⟩ := spawnParked_cases h
  exact gilt_zugang hQ hs hgut hidle hz

theorem gilt_spawn {sp base len priority : Nat} {r : Option ThreadId}
    (h : s.spawn v sp base len priority = some (r, s', v')) :
    Gilt (Q idle) (fun _ => True) s' := by
  rcases spawn_cases hgut h with rfl | ⟨i, t, s₁, hz, hcases⟩
  · exact hs
  · have hs₁ := gilt_zugang hQ hs hgut hidle hz
    rcases hcases with rfl | he
    · exact hs₁
    · have hb := hz.besetzt
      obtain ⟨-, hcur⟩ := hb.foreign hgut hidle
      have hreasons : (s₁.tcb i).reasons = ∅ := by
        rw [hb.tcb, if_pos rfl, hz.neu.reasons]
      have hdepleted : (s₁.tcb i).depleted = false := by
        rw [hb.tcb, if_pos rfl, hz.neu.depleted]
      have hset : Wirkt s₁ (s₁.setAdmitted i) i _ := Wirkt.modifyTcb s₁ i _
      obtain ⟨p, hp⟩ := Wirkt.enqueueReady he
      refine (hset.trans hp).gilt (hQ.block idle) hs₁ fun _ => hQ.ready ?_ ?_ ?_ ?_
      · exact hset.self.reasons.trans hreasons
      · exact hset.self.depleted.trans hdepleted
      · exact Option.some_ne_none p
      · rw [hb.current]
        exact hcur

theorem gilt_attachMigrated {m : Migrant} (hm : Unterwegs Q m) (hused : m.tcb.used = true)
    (h : s.attachMigrated v m = some (.ok (s', v'))) : Gilt (Q idle) (fun _ => True) s' := by
  obtain ⟨i, s₁, hb, hcases⟩ := attachMigrated_cases h hused
  obtain ⟨hne, hcur⟩ := hb.foreign hgut hidle
  obtain ⟨y, t, ht, hsame, hready⟩ := hm
  have harrive : ∀ q, (q ≠ none ↔ t.queued ≠ none) →
      Q idle s.current i ((s.ankunft m.tcb).mitQueued q) := by
    intro q hq
    exact hQ.arrive (t := t) hne hcur hsame.used hsame.admitted hsame.reasons hsame.depleted hq ht
  rcases hcases with ⟨hwas, he⟩ | ⟨hwas, rfl⟩
  · obtain ⟨p, hp⟩ := Wirkt.enqueueReady he
    have htcb : s₁.tcb i = s.ankunft m.tcb := by rw [hb.tcb, if_pos rfl]
    intro x _
    rw [hp.current, hb.current]
    by_cases hx : x = i
    · subst hx
      refine (hQ.block idle).same hp.self ?_
      rw [htcb]
      exact harrive (some p) ⟨fun _ => hready.mp hwas, fun _ => Option.some_ne_none p⟩
    · refine (hQ.block idle).same (hp.others x hx) ?_
      rw [hb.tcb, if_neg hx]
      exact hs x trivial
  · refine hs.besetzt hb ?_
    have hnone : ¬ t.queued ≠ none := fun hq => by
      rw [hready.mpr hq] at hwas
      cases hwas
    exact harrive none ⟨fun hq => absurd rfl hq, fun hq => absurd hq hnone⟩

end

end Scheduler

namespace System

variable {Q : Option Nat → Option Nat → Nat → Tcb → Prop} (hQ : Gesetz Q) {S S' : System}

include hQ

theorem Haelt.weiter (hS : S.Haelt Q) {c : Nat} {s : Scheduler}
    (hs : Gilt (Q (S.idle c)) (fun _ => True) s) (v : Verzeichnis) : (S.weiter c s v).Haelt Q where
  core := by
    intro d
    unfold System.weiter
    dsimp only
    by_cases hd : d = c
    · subst hd
      rw [update_self, update_self]
      exact fun x hx => hQ.mono (fun heq => (Option.filter_eq_some_iff.mp heq).1) (hs x hx)
    · rw [update_of_ne hd, update_of_ne hd]
      exact hS.core d
  idle := by
    intro d x hx
    unfold System.weiter at hx ⊢
    dsimp only at hx ⊢
    by_cases hd : d = c
    · subst hd
      rw [update_self] at hx ⊢
      exact (Option.filter_eq_some_iff.mp hx).2
    · rw [update_of_ne hd] at hx ⊢
      exact hS.idle d x hx
  unterwegs := hS.unterwegs

theorem Haelt.initCore (hS : S.Haelt Q) {c priority i : Nat} {s : Scheduler}
    {v : Verzeichnis} (hfrei : GiltFrei (Q (S.idle c)) (fun _ => True) (S.cores c))
    (h : (S.cores c).initCore S.verzeichnis priority = some (i, s, v)) :
    Haelt Q { S.weiter c s v with idle := update S.idle c (some i) } := by
  obtain ⟨t, s₁, hz, rfl⟩ := initCore_cases h
  have hb := hz.besetzt
  have htcb : s₁.tcb i = t := by rw [hb.tcb, if_pos rfl]
  refine ⟨fun d => ?_, fun d x hx => ?_, hS.unterwegs⟩
  · unfold System.weiter
    dsimp only
    by_cases hd : d = c
    · subst hd
      rw [update_self, update_self]
      intro x _
      change Q (some i) (some i) x (s₁.tcb x)
      by_cases hx : x = i
      · rw [hx, htcb]
        exact (hQ.block _).direct hz.neu.reasons hb.queued
      · rw [hb.tcb, if_neg hx]
        refine (hQ.block _).enter (Ne.symm hx) (hQ.mono ?_ (hfrei x trivial))
        exact fun heq => absurd (Option.some.inj heq).symm hx
    · rw [update_of_ne hd, update_of_ne hd]
      exact hS.core d
  · unfold System.weiter
    dsimp only at hx ⊢
    by_cases hd : d = c
    · subst hd
      rw [update_self] at hx ⊢
      cases hx
      change (s₁.tcb i).used = true
      rw [htcb]
      exact hb.used
    · rw [update_of_ne hd] at hx ⊢
      exact hS.idle d x hx

/-- A step keeps the law if its special calls do. -/
theorem step_haelt (hS : S.Haelt Q) (hgut : S.Gut) {op : Op}
    (hcall : ∀ c a s', op = .aufruf c a → ¬ a.Gewoehnlich →
      (S.cores c).aufruf S.verzeichnis a = some s' → Gilt (Q (S.idle c)) (fun _ => True) s')
    (hinit : ∀ c priority, op = .initCore c priority →
      GiltFrei (Q (S.idle c)) (fun _ => True) (S.cores c))
    (hstep : S.step op = some S') : S'.Haelt Q := by
  cases op with
  | aufruf c a =>
    obtain ⟨s, hs, rfl⟩ := Option.map_eq_some_iff.mp hstep
    refine hS.weiter hQ ?_ _
    by_cases ha : a.Gewoehnlich
    · exact (hS.core c).aufruf (hQ.block _) (hgut.1 c) ha hs
    · exact hcall c a s rfl ha hs
  | initCore c priority =>
    unfold step at hstep
    dsimp only at hstep
    split at hstep
    · cases hstep
      exact hS
    · next hs =>
      cases hstep
      exact hS.initCore hQ (hinit c priority rfl) hs
  | spawnParked c sp base len priority | spawnUserAtParked c sp base len priority =>
    cases hstep
    unfold erzeugt
    split
    · exact hS
    · next hs => exact hS.weiter hQ (gilt_spawnParked hQ (hS.core c) (hgut.1 c) (hS.idle c) hs) _
  | spawn c sp base len priority =>
    obtain ⟨⟨r, s, v⟩, hs, rfl⟩ := Option.map_eq_some_iff.mp hstep
    exact hS.weiter hQ (gilt_spawn hQ (hS.core c) (hgut.1 c) (hS.idle c) hs) _
  | exitCurrent c =>
    obtain ⟨⟨sp, s, v⟩, hs, rfl⟩ := Option.map_eq_some_iff.mp hstep
    exact hS.weiter hQ ((hS.core c).exitCurrent (hQ.block _) (hgut.1 c) hs) _
  | kill c tid =>
    obtain ⟨⟨b, s, v⟩, hs, rfl⟩ := Option.map_eq_some_iff.mp hstep
    exact hS.weiter hQ ((hS.core c).kill (hQ.block _) hs) _
  | reap c =>
    unfold step at hstep
    dsimp only at hstep
    split at hstep
    · cases hstep
      exact hS
    · next z s hs =>
      cases hstep
      have hnext := hS.weiter hQ (Gilt.reap (hS.core c) hs) S.verzeichnis
      exact ⟨hnext.core, hnext.idle, hnext.unterwegs⟩
  | releaseGid k =>
    unfold step at hstep
    dsimp only at hstep
    split at hstep
    · cases hstep
      exact hS
    · cases hstep
      exact ⟨hS.core, hS.idle, hS.unterwegs⟩
  | detachForMigration c tid =>
    unfold step at hstep
    dsimp only at hstep
    split at hstep
    · cases hstep
      exact hS
    · next m s hs =>
      cases hstep
      obtain ⟨hrest, y, t, ht, hsame, hready⟩ := (hS.core c).detachForMigration (hQ.block _) hs
      have hnext := hS.weiter hQ hrest S.verzeichnis
      refine ⟨hnext.core, hnext.idle, fun m' hm' => ?_⟩
      rcases List.mem_append.mp hm' with hold | hnew
      · exact hS.unterwegs m' hold
      · rw [List.mem_singleton.mp hnew]
        exact ⟨y, t, hQ.mono (fun heq => nomatch heq) ht, hsame, hready⟩
  | attachMigrated c k =>
    unfold step at hstep
    dsimp only at hstep
    split at hstep
    · cases hstep
      exact hS
    · next m hm =>
      have hmem := List.mem_of_getElem? hm
      split at hstep
      · cases hstep
      · cases hstep
        exact hS
      · next s v hs =>
        cases hstep
        have hnext := hS.weiter hQ (gilt_attachMigrated hQ (hS.core c) (hgut.1 c) (hS.idle c)
          (hS.unterwegs m hmem) (hgut.2 m hmem) hs) v
        refine ⟨hnext.core, hnext.idle, fun m' hm' => ?_⟩
        exact hS.unterwegs m' (List.mem_of_mem_eraseIdx hm')

end System

end Caprock.Sched
