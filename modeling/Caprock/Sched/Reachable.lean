import Mathlib.Data.Finset.Range
import Mathlib.Data.Finset.Card
import Caprock.Sched.OneCore
import Caprock.Sched.Threads

/-! # Reachable ready lists

Every step of the system keeps every core in order.  `bereit s p` reads list `p` off the
links; in a reachable state it is a doubly linked list without repetition that holds
exactly the threads of its priority that are marked as queued, the next thread has the
highest priority of all queued ones, and each list is served in the order of arrival.
-/

namespace Caprock.Sched

open Execution LinkedList

namespace Scheduler

/-- Ready list `p`, as the links give it. -/
def bereit (s : Scheduler) (p : Nat) : List Nat := walk s.qnext s.tcbs.len (s.queues p).head

theorem Ordnung.bereit_eq {s : Scheduler} {l : Nat → List Nat} (h : Ordnung s l) (p : Nat) :
    s.bereit p = l p := by
  have hsub : (l p).toFinset ⊆ Finset.range s.tcbs.len := by
    intro i hi
    rw [List.mem_toFinset, h.mem] at hi
    exact Finset.mem_range.mpr (h.bound i (h.queued_used p i hi))
  have hlen : (l p).length ≤ s.tcbs.len := by
    calc (l p).length = (l p).toFinset.card := (List.toFinset_card_of_nodup (h.list p).nodup).symm
      _ ≤ (Finset.range s.tcbs.len).card := Finset.card_le_card hsub
      _ = s.tcbs.len := Finset.card_range _
  unfold bereit
  rw [h.head]
  exact (h.list p).seg.walk_eq hlen

/-- The ready lists of a core, in terms of its own links, marks and bitmap. -/
structure ReadyLists (s : Scheduler) : Prop where
  list : ∀ p, DList s.qnext s.qprev (s.bereit p)
  head : ∀ p, (s.queues p).head = (s.bereit p).head?
  tail : ∀ p, (s.queues p).tail = (s.bereit p).getLast?
  linked : ∀ p i, i ∈ s.bereit p ↔ (s.tcb i).queued = some p
  own : ∀ p i, (s.tcb i).queued = some p →
    p < nprio ∧ (s.tcb i).priority = p ∧ (s.tcb i).used = true
  bit : ∀ p, s.bitmap.getLsbD p = true ↔ s.bereit p ≠ []

/-- The first thread of the highest non-empty list leaves; the other lists stay. -/
structure HoechsteZuerst (s : Scheduler) : Prop where
  none_iff : s.dequeueHighest = none ↔ ∀ p, s.bereit p = []
  some_of : ∀ i s', s.dequeueHighest = some (i, s') →
    s.bereit (s.tcb i).priority = i :: s'.bereit (s.tcb i).priority ∧
      (∀ q, q ≠ (s.tcb i).priority → s'.bereit q = s.bereit q) ∧
      ∀ x, (s.tcb x).queued ≠ none → (s.tcb x).priority ≤ (s.tcb i).priority

/-- A thread is linked behind those that wait already, and taking one out keeps the order
of the others. -/
structure DerReiheNach (s : Scheduler) : Prop where
  enqueue : ∀ i s', (s.tcb i).used = true → s.enqueueReady i = some s' →
    (s.tcb i).queued ≠ none ∧ s' = s ∨
      s'.bereit (s.tcb i).priority = s.bereit (s.tcb i).priority ++ [i] ∧
        ∀ q, q ≠ (s.tcb i).priority → s'.bereit q = s.bereit q
  remove : ∀ i p, (s.removeFromReady i).bereit p = (s.bereit p).erase i

namespace Ordnung

variable {s : Scheduler} {l : Nat → List Nat}

theorem readyLists (h : Ordnung s l) : s.ReadyLists where
  list := fun p => by
    rw [h.bereit_eq]
    exact h.list p
  head := fun p => by rw [h.bereit_eq, h.head]
  tail := fun p => by rw [h.bereit_eq, h.tail]
  linked := fun p i => by rw [h.bereit_eq, h.mem]
  own := fun p i hi => ⟨(h.prio p i hi).1, (h.prio p i hi).2, h.queued_used p i hi⟩
  bit := fun p => by rw [h.bereit_eq, h.bit]

theorem bereit_removeFromReady (h : Ordnung s l) (i p : Nat) :
    (s.removeFromReady i).bereit p = (s.bereit p).erase i := by
  rw [h.bereit_eq]
  cases hq : (s.tcb i).queued with
  | none =>
    have heq : s.removeFromReady i = s := by
      unfold removeFromReady
      rw [hq]
    rw [heq, h.bereit_eq, List.erase_of_not_mem (h.not_mem_of_free hq p)]
  | some q =>
    rw [(h.ausklinken (ausgeklinkt_removeFromReady hq) hq).bereit_eq]
    by_cases hpq : p = q
    · rw [hpq, Function.update_self]
    · rw [Function.update_of_ne hpq, List.erase_of_not_mem]
      intro hin
      exact hpq (Option.some.inj (((h.mem p i).mp hin).symm.trans hq))

theorem derReiheNach (h : Ordnung s l) : s.DerReiheNach where
  enqueue := by
    intro i s' hi he
    rcases enqueueReady_cases he with ⟨rfl, hq⟩ | ⟨p, he⟩
    · exact .inl ⟨hq, rfl⟩
    · have ho := h.einreihen he hi
      rw [he.prio]
      refine .inr ⟨?_, fun q hq => ?_⟩
      · rw [ho.bereit_eq, h.bereit_eq, Function.update_self]
      · rw [ho.bereit_eq, h.bereit_eq, Function.update_of_ne hq]
  remove := h.bereit_removeFromReady

theorem hoechsteZuerst (h : Ordnung s l) : s.HoechsteZuerst where
  none_iff := by
    unfold dequeueHighest
    constructor
    · intro hd p
      split at hd
      · next hn => rw [h.bereit_eq, h.hoechster_eq_none hn]
      · cases hd
    · intro hempty
      split
      · rfl
      · next i hi =>
        obtain ⟨p, hhead, -, -⟩ := h.hoechster_eq_some hi
        rw [← h.bereit_eq, hempty p] at hhead
        cases hhead
  some_of := by
    intro i s' hd
    unfold dequeueHighest at hd
    split at hd
    · cases hd
    · next j hj =>
      cases hd
      obtain ⟨p, hhead, hq, hmax⟩ := h.hoechster_eq_some hj
      obtain ⟨-, hprio⟩ := h.prio p i hq
      rw [hprio]
      obtain ⟨m, hm⟩ := List.head?_eq_some_iff.mp hhead
      have hdrop : (s.removeFromReady i).bereit p = m := by
        rw [h.bereit_removeFromReady, h.bereit_eq, hm, List.erase_cons_head]
      refine ⟨?_, fun q hqp => ?_, fun x hx => ?_⟩
      · rw [hdrop, h.bereit_eq, hm]
      · rw [h.bereit_removeFromReady, List.erase_of_not_mem]
        rw [h.bereit_eq, h.mem, hq]
        exact fun heq => hqp (Option.some.inj heq).symm
      · obtain ⟨q, hxq⟩ := Option.ne_none_iff_exists'.mp hx
        rw [(h.prio q x hxq).2]
        exact hmax q (List.ne_nil_of_mem ((h.mem q x).mpr hxq))

end Ordnung

theorem ordnung_attached (core capacity : Nat) (hsize : capacity ≤ 2 ^ 16) :
    Ordnung (attached core capacity) fun _ => [] where
  list := fun _ => DList.nil
  head := fun _ => rfl
  tail := fun _ => rfl
  count := fun _ => rfl
  bit := fun p => by simp [attached]
  mem := fun _ _ => ⟨(fun hin => nomatch hin), (fun hq => nomatch hq)⟩
  prio := fun _ _ hq => nomatch hq
  queued_used := fun _ _ hq => nomatch hq
  bound := fun _ hu => nomatch hu
  size := hsize
  free_nodup := List.nodup_range
  free_mem := fun i => by
    change i ∈ List.range capacity ↔ i < capacity ∧ false = false
    simp
  free_capacity := rfl

end Scheduler

namespace System

open Scheduler

/-- Every core is in order, and threads between two cores are alive. -/
def Gut (S : System) : Prop :=
  (∀ c, (S.cores c).Gut) ∧ ∀ m ∈ S.migranten, m.tcb.used = true

theorem gut_init (a : Ausbau) : (init a).Gut := by
  refine ⟨fun c => ⟨⟨_, ordnung_attached c a.jeKern a.jeKern_le⟩, fun i hi => nomatch hi⟩, ?_⟩
  intro m hm
  cases hm

theorem step_gut (S : System) (op : Op) (S' : System) (h : S.Gut) (hstep : S.step op = some S') :
    S'.Gut := by
  apply Ueberall.step h hstep
  intro c s ms hk
  have hcore := h.1 c
  cases hk with
  | aufruf hs => exact ⟨gut_aufruf hcore hs, h.2⟩
  | initCore hs => exact ⟨gut_initCore hcore hs, h.2⟩
  | spawnParked hop hs =>
    obtain ⟨t, hz, -⟩ := spawnParked_cases hs
    exact ⟨hz.besetzt.gut hcore, h.2⟩
  | spawn hs => exact ⟨gut_spawn hcore hs, h.2⟩
  | exitCurrent hs => exact ⟨gut_exitCurrent hcore hs, h.2⟩
  | kill hs => exact ⟨gut_kill hcore hs, h.2⟩
  | reap hs => exact ⟨gut_reap hcore hs, h.2⟩
  | detachForMigration hs =>
    obtain ⟨hgut, hm⟩ := gut_detachForMigration hcore hs
    refine ⟨hgut, fun m' hm' => ?_⟩
    rcases List.mem_append.mp hm' with hold | hnew
    · exact h.2 m' hold
    · rw [List.mem_singleton.mp hnew]
      exact hm
  | attachMigrated hm hs =>
    refine ⟨gut_attachMigrated hcore (h.2 _ (List.mem_of_getElem? hm)) hs, fun m' hm' => ?_⟩
    exact h.2 m' (List.mem_of_mem_eraseIdx hm')

theorem run_gut {a : Ausbau} {ops : List Op} {S : System} (h : run step (init a) ops = some S) :
    S.Gut :=
  run_invariant_of_step step_gut (gut_init a) h

/-- In every reachable state the ready lists of every core are well formed, the next thread
is one of highest priority, and every list is served in order. -/
theorem run_readyLists (a : Ausbau) (ops : List Op) (S : System)
    (hrun : run step (init a) ops = some S) (c : Nat) :
    (S.cores c).ReadyLists ∧ (S.cores c).HoechsteZuerst ∧ (S.cores c).DerReiheNach := by
  obtain ⟨l, h⟩ := ((run_gut hrun).1 c).1
  exact ⟨h.readyLists, h.hoechsteZuerst, h.derReiheNach⟩

/-- An idle thread and three more: the one of highest priority is next, the two others wait
in the order they came. -/
theorem run_readyLists_three_threads :
    ∃ S, run step (init ⟨4, 4, by decide⟩)
        [.initCore 0 0, .spawn 0 100 0 16 1, .spawn 0 200 0 16 1, .spawn 0 300 0 16 2] = some S ∧
      (S.cores 0).bereit 1 = [1, 2] ∧ (S.cores 0).bereit 2 = [3] ∧
      (S.cores 0).dequeueHighest.map Prod.fst = some 3 ∧
      (S.cores 0).ReadyLists ∧ (S.cores 0).HoechsteZuerst ∧ (S.cores 0).DerReiheNach := by
  have hread : (run step (init ⟨4, 4, by decide⟩)
      [.initCore 0 0, .spawn 0 100 0 16 1, .spawn 0 200 0 16 1, .spawn 0 300 0 16 2]).map
        (fun S => ((S.cores 0).bereit 1, (S.cores 0).bereit 2,
          (S.cores 0).dequeueHighest.map Prod.fst)) = some ([1, 2], [3], some 3) := by
    decide
  obtain ⟨S, hS, heq⟩ := Option.map_eq_some_iff.mp hread
  simp only [Prod.mk.injEq] at heq
  exact ⟨S, hS, heq.1, heq.2.1, heq.2.2, run_readyLists _ _ S hS 0⟩

end System

end Caprock.Sched
