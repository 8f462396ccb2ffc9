import Mathlib.Algebra.Group.Nat.Defs
import Mathlib.Logic.Function.Basic
import Caprock.Lib.Run

/-! # The mutex of a protection domain

`caprock-wait` builds exclusion out of `park` and `unpark` alone: a flag, an owner
and a queue of thread names in the memory of the domain.  `lock` repeats
`lock_schritt` until it gets the flag; a refused attempt enqueues its thread and
parks.  `unlock` wakes the oldest entry.

A wake mark may come from anywhere.  A thread that it wakes tries again and may
take the mutex, or enqueue itself a second time, while its old entry stays in the
queue.  An `unlock` that meets such an entry spends its only wake-up on a thread
that waits for nothing.
-/

namespace Caprock.Wait

open Execution Function

abbrev Tid := UInt64

def warteplaetze : Nat := 32

/-- `WaitQueue`: oldest entry first.  `abgewiesen` is a `u32` counter. -/
structure WaitQueue where
  tids : List Tid
  platz : tids.length ≤ warteplaetze
  abgewiesen : Nat

namespace WaitQueue

def new : WaitQueue := ⟨[], Nat.zero_le _, 0⟩

/-- `push`; `false` is a full queue, which is counted. -/
def push (q : WaitQueue) (t : Tid) : Bool × WaitQueue :=
  if h : q.tids.length < warteplaetze then
    (true, ⟨q.tids ++ [t], by rw [List.length_append]; exact h, q.abgewiesen⟩)
  else (false, { q with abgewiesen := (q.abgewiesen + 1) % 2 ^ 32 })

def pop (q : WaitQueue) : Option Tid × WaitQueue :=
  match h : q.tids with
  | [] => (none, q)
  | t :: rest =>
      (some t, ⟨rest, by have hlen := q.platz; rw [h] at hlen; exact Nat.le_of_succ_le hlen,
        q.abgewiesen⟩)

theorem push_cases (q : WaitQueue) (t : Tid) :
    (q.push t).1 = true ∧ (q.push t).2.tids = q.tids ++ [t] ∨
      (q.push t).1 = false ∧ (q.push t).2.tids = q.tids := by
  unfold push
  split
  · exact .inl ⟨rfl, rfl⟩
  · exact .inr ⟨rfl, rfl⟩

theorem pop_cases (q : WaitQueue) :
    q.tids = [] ∧ q.pop = (none, q) ∨
      ∃ t rest, q.tids = t :: rest ∧ q.pop.1 = some t ∧ q.pop.2.tids = rest := by
  unfold pop
  split
  · next h => exact .inl ⟨h, rfl⟩
  · next t rest h => exact .inr ⟨t, rest, h, rfl, rfl⟩

end WaitQueue

/-- `LockError`. -/
inductive LockError where
  | keinWarteplatz
  | selbstDeadlock
  deriving DecidableEq, Repr

structure Mutex where
  gesperrt : Bool
  inhaber : Tid
  warten : WaitQueue

/-- How far one `lock_schritt` got: the mutex taken, the thread about to park, or an error. -/
inductive Schritt where
  | erlangt
  | parken
  | fehler (e : LockError)
  deriving DecidableEq, Repr

namespace Mutex

def new : Mutex := ⟨false, 0, WaitQueue.new⟩

def tryLock (m : Mutex) (me : Tid) : Bool × Mutex :=
  if m.gesperrt then (false, m) else (true, { m with gesperrt := true, inhaber := me })

/-- `lock_schritt` up to its `park`. -/
def lockSchritt (m : Mutex) (me : Tid) : Schritt × Mutex :=
  if m.gesperrt then
    if m.inhaber = me then (.fehler .selbstDeadlock, m)
    else
      match m.warten.push me with
      | (false, warten) => (.fehler .keinWarteplatz, { m with warten := warten })
      | (true, warten) => (.parken, { m with warten := warten })
  else (.erlangt, { m with gesperrt := true, inhaber := me })

/-- `unlock`: success, and the thread handed to `unpark`. -/
def unlock (m : Mutex) (me : Tid) : Bool × Option Tid × Mutex :=
  if m.gesperrt = false ∨ m.inhaber ≠ me then (false, none, m)
  else
    match m.warten.pop with
    | (geweckt, warten) => (true, geweckt, { gesperrt := false, inhaber := 0, warten := warten })

theorem tryLock_cases (m : Mutex) (me : Tid) :
    (m.tryLock me).2 = m ∨
      m.gesperrt = false ∧ (m.tryLock me).2.gesperrt = true ∧ (m.tryLock me).2.warten = m.warten := by
  unfold tryLock
  cases h : m.gesperrt with
  | true => exact .inl rfl
  | false => exact .inr ⟨rfl, rfl, rfl⟩

theorem lockSchritt_cases (m : Mutex) (me : Tid) :
    (m.lockSchritt me).2.gesperrt = true ∧
      ((m.lockSchritt me).1 = .parken ∧ (m.lockSchritt me).2.warten.tids = m.warten.tids ++ [me] ∨
        (m.lockSchritt me).1 ≠ .parken ∧ (m.lockSchritt me).2.warten.tids = m.warten.tids) := by
  unfold lockSchritt
  cases hg : m.gesperrt with
  | false => exact ⟨rfl, .inr ⟨by simp, rfl⟩⟩
  | true =>
    by_cases hme : m.inhaber = me
    · simp [hme, hg]
    · simp only [if_true, if_neg hme]
      rcases hp : m.warten.push me with ⟨eingereiht, warten⟩
      rcases m.warten.push_cases me with ⟨hok, htids⟩ | ⟨hok, htids⟩ <;>
        rw [hp] at hok htids <;> dsimp only at hok htids <;> subst hok
      · exact ⟨rfl, .inl ⟨rfl, htids⟩⟩
      · exact ⟨rfl, .inr ⟨by simp, htids⟩⟩

theorem unlock_cases (m : Mutex) (me : Tid) :
    (m.gesperrt = false ∨ m.inhaber ≠ me) ∧ m.unlock me = (false, none, m) ∨
      m.gesperrt = true ∧ m.inhaber = me ∧ (m.unlock me).2.2.gesperrt = false ∧
        (m.warten.tids = [] ∧ (m.unlock me).2.1 = none ∧ (m.unlock me).2.2.warten.tids = [] ∨
          ∃ t rest, m.warten.tids = t :: rest ∧ (m.unlock me).2.1 = some t ∧
            (m.unlock me).2.2.warten.tids = rest) := by
  unfold unlock
  by_cases hnot : m.gesperrt = false ∨ m.inhaber ≠ me
  · exact .inl ⟨hnot, if_pos hnot⟩
  · rw [if_neg hnot]
    simp only [not_or, Bool.not_eq_false, not_not] at hnot
    refine .inr ⟨hnot.1, hnot.2, rfl, ?_⟩
    rcases m.warten.pop_cases with ⟨hnil, hpop⟩ | ⟨t, rest, htids, hsome, hrest⟩
    · rw [hpop]
      exact .inl ⟨hnil, rfl, hnil⟩
    · exact .inr ⟨t, rest, htids, hsome, hrest⟩

end Mutex

/-- Where a thread stands: outside `lock`, in it before the next `lock_schritt`, in it
before the `park` of a refused attempt, or parked. -/
inductive Lage where
  | ausserhalb
  | imLock
  | vorPark
  | schlaeft
  deriving DecidableEq, Repr

structure System where
  mutex : Mutex
  lage : Tid → Lage
  marke : Tid → Bool

inductive Op where
  | lockSchritt (t : Tid)
  | park (t : Tid)
  | unlock (t : Tid)
  | tryLock (t : Tid)
  | fremdUnpark (t : Tid)

namespace System

def neu : System := ⟨Mutex.new, fun _ => .ausserhalb, fun _ => false⟩

/-- `unpark`: wakes a parked thread, leaves a mark at any other. -/
def unpark (s : System) (t : Tid) : System :=
  if s.lage t = .schlaeft then { s with lage := update s.lage t .imLock }
  else { s with marke := update s.marke t true }

/-- `park`: consumes a mark, else sleeps. -/
def park (s : System) (t : Tid) : System :=
  if s.marke t then
    { s with lage := update s.lage t .imLock, marke := update s.marke t false }
  else { s with lage := update s.lage t .schlaeft }

/-- One attempt of `lock`; every outcome but parking leaves the loop. -/
def lockSchritt (s : System) (t : Tid) : System :=
  match s.mutex.lockSchritt t with
  | (.parken, m) => { s with mutex := m, lage := update s.lage t .vorPark }
  | (_, m) => { s with mutex := m, lage := update s.lage t .ausserhalb }

def unlock (s : System) (t : Tid) : System :=
  match s.mutex.unlock t with
  | (_, none, m) => { s with mutex := m }
  | (_, some geweckt, m) => unpark { s with mutex := m } geweckt

/-- One step.  An operation of a thread that is elsewhere in its program does nothing. -/
def step (s : System) : Op → Option System
  | .lockSchritt t =>
      if s.lage t = .ausserhalb ∨ s.lage t = .imLock then some (s.lockSchritt t) else some s
  | .park t => if s.lage t = .vorPark then some (s.park t) else some s
  | .unlock t => if s.lage t = .ausserhalb then some (s.unlock t) else some s
  | .tryLock t =>
      if s.lage t = .ausserhalb then some { s with mutex := (s.mutex.tryLock t).2 } else some s
  | .fremdUnpark t => some (s.unpark t)

def Wirksam (s : System) (t : Tid) : Prop :=
  s.lage t = .imLock ∨ s.lage t = .vorPark ∧ s.marke t = true

/-- `t` is inside `lock` and needs a wake-up to go on. -/
def Wartet (s : System) (t : Tid) : Prop :=
  s.lage t = .schlaeft ∨ s.lage t = .vorPark ∧ s.marke t = false

/-- Not all threads inside `lock` sleep on a free mutex: if one sleeps, one inside `lock` is
awake or has a mark. -/
def KeinSchlafAnFreiemMutex (s : System) : Prop :=
  s.mutex.gesperrt = false → (∃ t, s.lage t = .schlaeft) →
    ∃ t, s.lage t ≠ .ausserhalb ∧ (s.lage t ≠ .schlaeft ∨ s.marke t = true)

/-- A successful `unlock` does not spend its wake-up on a stale entry: the oldest entry
is absent or inside `lock`, unless nobody is inside `lock` or somebody there will try
again anyway. -/
def WeckrufTrifft (s : System) : Op → Prop
  | .unlock t =>
      s.lage t = .ausserhalb → s.mutex.gesperrt = true → s.mutex.inhaber = t →
        ∀ h rest, s.mutex.warten.tids = h :: rest → s.lage h = .ausserhalb →
          (∃ t, s.lage t ≠ .ausserhalb) → ∃ t, s.Wirksam t
  | _ => True

structure Inv (s : System) : Prop where
  unmarkiert : ∀ t, s.lage t = .schlaeft → s.marke t = false
  eingereiht : ∀ t, s.Wartet t → t ∈ s.mutex.warten.tids
  frei : s.mutex.gesperrt = false → (∃ t, s.Wartet t) → ∃ t, s.Wirksam t

theorem neu_inv : neu.Inv where
  unmarkiert := by simp [neu]
  eingereiht := by simp [Wartet, neu]
  frei := by simp [Wartet, neu]

variable {s : System} {t u : Tid}

theorem Inv.keinSchlaf (h : s.Inv) : s.KeinSchlafAnFreiemMutex := by
  rintro hfrei ⟨t, ht⟩
  obtain ⟨w, hw⟩ := h.frei hfrei ⟨t, .inl ht⟩
  rcases hw with hlage | ⟨hlage, hmarke⟩
  · exact ⟨w, by simp [hlage]⟩
  · exact ⟨w, by simp [hlage]⟩

theorem wartet_or_wirksam (h : s.lage t ≠ .ausserhalb) : s.Wartet t ∨ s.Wirksam t := by
  unfold Wartet Wirksam
  cases hl : s.lage t with
  | ausserhalb => exact absurd hl h
  | imLock | schlaeft => simp
  | vorPark => cases s.marke t <;> simp

theorem unpark_mutex (s : System) (t : Tid) : (s.unpark t).mutex = s.mutex := by
  unfold unpark
  split <;> rfl

theorem unpark_of_ne (s : System) (h : u ≠ t) :
    (s.unpark t).lage u = s.lage u ∧ (s.unpark t).marke u = s.marke u := by
  unfold unpark
  split <;> simp [update_of_ne h]

theorem unpark_self (s : System) (t : Tid) :
    s.lage t = .ausserhalb ∧ (s.unpark t).lage t = .ausserhalb ∨
      s.lage t ≠ .ausserhalb ∧ (s.unpark t).Wirksam t := by
  unfold unpark Wirksam
  cases hl : s.lage t <;> simp [hl]

theorem not_wartet_of_wirksam (h : s.Wirksam t) : ¬ s.Wartet t := by
  unfold Wirksam at h
  unfold Wartet
  rcases h with hl | ⟨hl, hm⟩
  · simp [hl]
  · simp [hl, hm]

theorem wartet_unpark (h : (s.unpark t).Wartet u) : s.Wartet u ∧ u ≠ t := by
  by_cases hut : u = t
  · subst hut
    exfalso
    rcases s.unpark_self u with ⟨-, hl⟩ | ⟨-, hw⟩
    · simp [Wartet, hl] at h
    · exact not_wartet_of_wirksam hw h
  · obtain ⟨hl, hm⟩ := s.unpark_of_ne hut
    unfold Wartet at h ⊢
    rw [hl, hm] at h
    exact ⟨h, hut⟩

theorem wirksam_unpark (h : s.Wirksam u) : (s.unpark t).Wirksam u := by
  by_cases hut : u = t
  · subst hut
    rcases s.unpark_self u with ⟨hl, -⟩ | ⟨-, hw⟩
    · simp [Wirksam, hl] at h
    · exact hw
  · obtain ⟨hl, hm⟩ := s.unpark_of_ne hut
    unfold Wirksam at h ⊢
    rwa [hl, hm]

theorem unpark_unmarkiert (h : ∀ t, s.lage t = .schlaeft → s.marke t = false) (t u : Tid)
    (hu : (s.unpark t).lage u = .schlaeft) : (s.unpark t).marke u = false := by
  by_cases hut : u = t
  · subst hut
    unfold unpark at hu ⊢
    split at hu
    · simp at hu
    · next hl => exact absurd hu hl
  · obtain ⟨hl, hm⟩ := s.unpark_of_ne hut
    rw [hl] at hu
    rw [hm]
    exact h u hu

theorem unpark_inv (h : s.Inv) (t : Tid) :
    (s.unpark t).Inv where
  unmarkiert := unpark_unmarkiert h.unmarkiert t
  eingereiht := by
    intro u hu
    rw [unpark_mutex]
    exact h.eingereiht u (wartet_unpark hu).1
  frei := by
    rintro hfrei ⟨u, hu⟩
    rw [unpark_mutex] at hfrei
    obtain ⟨w, hw⟩ := h.frei hfrei ⟨u, (wartet_unpark hu).1⟩
    exact ⟨w, wirksam_unpark hw⟩

/-- Parking turns a marked thread into one that tries again and an unmarked one into a
sleeper: nobody starts or stops to wait, nobody loses its next attempt. -/
theorem park_wartet_iff (ht : s.lage t = .vorPark) (u : Tid) :
    (s.park t).Wartet u ↔ s.Wartet u := by
  unfold park Wartet
  by_cases hut : u = t
  · subst hut
    cases hm : s.marke u <;> simp [ht, hm]
  · cases hm : s.marke t <;> simp [update_of_ne hut]

theorem park_wirksam_iff (ht : s.lage t = .vorPark) (u : Tid) :
    (s.park t).Wirksam u ↔ s.Wirksam u := by
  unfold park Wirksam
  by_cases hut : u = t
  · subst hut
    cases hm : s.marke u <;> simp [ht, hm]
  · cases hm : s.marke t <;> simp [update_of_ne hut]

theorem park_mutex (s : System) (t : Tid) : (s.park t).mutex = s.mutex := by
  unfold park
  split <;> rfl

theorem park_unmarkiert (h : ∀ t, s.lage t = .schlaeft → s.marke t = false) (t u : Tid)
    (hu : (s.park t).lage u = .schlaeft) : (s.park t).marke u = false := by
  unfold park at hu ⊢
  by_cases hut : u = t
  · subst hut
    cases hm : s.marke u <;> simp [hm] at hu ⊢
  · cases hm : s.marke t <;> simp only [hm] at hu ⊢ <;>
      simp [update_of_ne hut] at hu ⊢ <;> exact h u hu

theorem park_inv (h : s.Inv) (ht : s.lage t = .vorPark) : (s.park t).Inv := by
  constructor
  · exact park_unmarkiert h.unmarkiert t
  · intro u hu
    rw [park_mutex]
    exact h.eingereiht u ((park_wartet_iff ht u).mp hu)
  · rintro hfrei ⟨u, hu⟩
    rw [park_mutex] at hfrei
    obtain ⟨w, hw⟩ := h.frei hfrei ⟨u, (park_wartet_iff ht u).mp hu⟩
    exact ⟨w, (park_wirksam_iff ht w).mpr hw⟩

theorem lockSchritt_inv (h : s.Inv) (t : Tid) : (s.lockSchritt t).Inv := by
  obtain ⟨hgesperrt, hcases⟩ := s.mutex.lockSchritt_cases t
  unfold lockSchritt
  rcases hm : s.mutex.lockSchritt t with ⟨schritt, m⟩
  rw [hm] at hgesperrt hcases
  -- The mutex is locked afterwards, so only the queue entry of `t` is in question.
  rcases hcases with ⟨rfl, htids⟩ | ⟨hschritt, htids⟩
  · refine ⟨fun u hu => ?_, fun u hu => ?_, fun hfrei => ?_⟩
    · by_cases hut : u = t
      · simp [hut] at hu
      · exact h.unmarkiert u (by simpa [update_of_ne hut] using hu)
    · rw [htids, List.mem_append, List.mem_singleton]
      by_cases hut : u = t
      · exact .inr hut
      · refine .inl (h.eingereiht u ?_)
        simpa [Wartet, update_of_ne hut] using hu
    · rw [hgesperrt] at hfrei
      cases hfrei
  · have hout : (match (schritt, m) with
        | (.parken, m) => { s with mutex := m, lage := update s.lage t .vorPark }
        | (_, m) => { s with mutex := m, lage := update s.lage t .ausserhalb } : System) =
        { s with mutex := m, lage := update s.lage t .ausserhalb } := by
      cases schritt with
      | parken => exact absurd rfl hschritt
      | erlangt | fehler e => rfl
    rw [hout]
    refine ⟨fun u hu => ?_, fun u hu => ?_, fun hfrei => ?_⟩
    · by_cases hut : u = t
      · simp [hut] at hu
      · exact h.unmarkiert u (by simpa [update_of_ne hut] using hu)
    · rw [htids]
      by_cases hut : u = t
      · simp [Wartet, hut] at hu
      · exact h.eingereiht u (by simpa [Wartet, update_of_ne hut] using hu)
    · rw [hgesperrt] at hfrei
      cases hfrei

theorem tryLock_inv (h : s.Inv) (t : Tid) : Inv { s with mutex := (s.mutex.tryLock t).2 } := by
  rcases s.mutex.tryLock_cases t with hsame | ⟨-, hgesperrt, hwarten⟩
  · rw [hsame]
    exact h
  · refine ⟨h.unmarkiert, fun u hu => ?_, fun hfrei => ?_⟩
    · rw [hwarten]
      exact h.eingereiht u hu
    · rw [hgesperrt] at hfrei
      cases hfrei

/-- What `unlock` does to the threads: nothing, or one `unpark` of the oldest entry. -/
theorem unlock_cases (s : System) (t : Tid) :
    (s.mutex.gesperrt = false ∨ s.mutex.inhaber ≠ t) ∧ s.unlock t = s ∨
      s.mutex.gesperrt = true ∧ s.mutex.inhaber = t ∧ ∃ m, m.gesperrt = false ∧
        (s.mutex.warten.tids = [] ∧ m.warten.tids = [] ∧ s.unlock t = { s with mutex := m } ∨
          ∃ g rest, s.mutex.warten.tids = g :: rest ∧ m.warten.tids = rest ∧
            s.unlock t = unpark { s with mutex := m } g) := by
  unfold unlock
  rcases s.mutex.unlock_cases t with ⟨hnot, hm⟩ | ⟨hg, hi, hfrei, hcases⟩
  · rw [hm]
    exact .inl ⟨hnot, rfl⟩
  · refine .inr ⟨hg, hi, (s.mutex.unlock t).2.2, hfrei, ?_⟩
    rcases hm : s.mutex.unlock t with ⟨erfolg, geweckt, m⟩
    rw [hm] at hcases
    rcases hcases with ⟨hnil, rfl, htids⟩ | ⟨g, rest, htids, rfl, hrest⟩
    · exact .inl ⟨hnil, htids, rfl⟩
    · exact .inr ⟨g, rest, htids, hrest, rfl⟩

theorem unlock_inv (h : s.Inv) (ht : s.lage t = .ausserhalb) (hok : s.WeckrufTrifft (.unlock t)) :
    (s.unlock t).Inv := by
  rcases s.unlock_cases t with ⟨-, hsame⟩ | ⟨hg, hi, m, hm, hnil | hcons⟩
  · rw [hsame]
    exact h
  · obtain ⟨hnil, -, hunlock⟩ := hnil
    -- An empty queue has no waiter behind it.
    have hniemand : ∀ u, ¬ s.Wartet u := by
      intro u hu
      have hmem := h.eingereiht u hu
      rw [hnil] at hmem
      cases hmem
    rw [hunlock]
    exact ⟨h.unmarkiert, fun u hu => absurd hu (hniemand u), fun _ ⟨u, hu⟩ => absurd hu (hniemand u)⟩
  · obtain ⟨g, rest, htids, hrest, hunlock⟩ := hcons
    rw [hunlock]
    refine ⟨unpark_unmarkiert (s := { s with mutex := m }) h.unmarkiert g, fun u hu => ?_,
      fun _ ⟨u, hu⟩ => ?_⟩
    · obtain ⟨hu, hug⟩ := wartet_unpark hu
      have hmem := h.eingereiht u hu
      rw [htids, List.mem_cons] at hmem
      rw [unpark_mutex]
      rw [hrest]
      exact hmem.resolve_left hug
    · obtain ⟨hu, -⟩ := wartet_unpark hu
      rcases unpark_self { s with mutex := m } g with ⟨hout, -⟩ | ⟨-, hw⟩
      · have hinnen : s.lage u ≠ .ausserhalb := by
          intro hl
          simp [Wartet, hl] at hu
        obtain ⟨w, hw⟩ := hok ht hg hi g rest htids hout ⟨u, hinnen⟩
        exact ⟨w, wirksam_unpark hw⟩
      · exact ⟨g, hw⟩

theorem step_inv (s : System) (op : Op) (h : s.Inv) (hok : s.WeckrufTrifft op) :
    ∃ s', s.step op = some s' ∧ s'.Inv := by
  cases op with
  | lockSchritt t => exact guarded_step (fun _ => lockSchritt_inv h t) h
  | park t => exact guarded_step (fun ht => park_inv h ht) h
  | unlock t => exact guarded_step (fun ht => unlock_inv h ht hok) h
  | tryLock t => exact guarded_step (fun _ => tryLock_inv h t) h
  | fremdUnpark t => exact ⟨_, rfl, unpark_inv h t⟩

/-- The mutex is free, somebody waits and nobody will try again by himself. -/
structure Festgefahren (s : System) : Prop where
  unmarkiert : ∀ t, s.lage t = .schlaeft → s.marke t = false
  frei : s.mutex.gesperrt = false
  niemand : ∀ t, ¬ s.Wirksam t
  wartet : ∃ t, s.Wartet t

def SchlaeftBisAuf (s : System) (ts : List Tid) : Prop :=
  ∀ t, s.Wartet t → s.lage t = .schlaeft ∨ t ∈ ts

theorem park_festgefahren (h : s.Festgefahren) (ht : s.lage t = .vorPark) :
    (s.park t).Festgefahren where
  unmarkiert := park_unmarkiert h.unmarkiert t
  frei := by
    rw [park_mutex]
    exact h.frei
  niemand := fun u hu => h.niemand u ((park_wirksam_iff ht u).mp hu)
  wartet := by
    obtain ⟨u, hu⟩ := h.wartet
    exact ⟨u, (park_wartet_iff ht u).mpr hu⟩

theorem park_schlaeft (h : s.Festgefahren) (ht : s.lage t = .vorPark) {ts : List Tid}
    (hs : s.SchlaeftBisAuf (t :: ts)) : (s.park t).SchlaeftBisAuf ts := by
  have hmarke : s.marke t = false := by
    by_contra hm
    exact h.niemand t (.inr ⟨ht, by simpa using hm⟩)
  intro u hu
  by_cases hut : u = t
  · left
    simp [park, hmarke, hut]
  · rcases hs u ((park_wartet_iff ht u).mp hu) with hl | hmem
    · left
      simpa [park, hmarke, update_of_ne hut] using hl
    · exact .inr ((List.mem_cons.mp hmem).resolve_left hut)

theorem run_park_festgefahren (h : s.Festgefahren) {ts : List Tid} (hs : s.SchlaeftBisAuf ts) :
    ∃ s', run step s (ts.map .park) = some s' ∧ ¬ s'.KeinSchlafAnFreiemMutex := by
  induction ts generalizing s with
  | nil =>
    refine ⟨s, rfl, fun hkein => ?_⟩
    obtain ⟨u, hu⟩ := h.wartet
    have hul : s.lage u = .schlaeft := (hs u hu).resolve_right (by simp)
    obtain ⟨w, hinnen, hw⟩ := hkein h.frei ⟨u, hul⟩
    rcases wartet_or_wirksam hinnen with hwait | hwirk
    · have hwl : s.lage w = .schlaeft := (hs w hwait).resolve_right (by simp)
      rcases hw with hne | hmarke
      · exact hne hwl
      · rw [h.unmarkiert w hwl] at hmarke
        cases hmarke
    · exact h.niemand w hwirk
  | cons t ts ih =>
    by_cases ht : s.lage t = .vorPark
    · have hstep : s.step (.park t) = some (s.park t) := by simp [step, ht]
      obtain ⟨s', hrun, hbroken⟩ := ih (park_festgefahren h ht) (park_schlaeft h ht hs)
      exact ⟨s', by rw [List.map_cons, run_cons_of_step hstep, hrun], hbroken⟩
    · have hstep : s.step (.park t) = some s := by simp [step, ht]
      have hs' : s.SchlaeftBisAuf ts := by
        intro u hu
        rcases hs u hu with hl | hmem
        · exact .inl hl
        · rcases List.mem_cons.mp hmem with rfl | hmem
          · exact .inl (hu.resolve_right fun hv => ht hv.1)
          · exact .inr hmem
      obtain ⟨s', hrun, hbroken⟩ := ih h hs'
      exact ⟨s', by rw [List.map_cons, run_cons_of_step hstep, hrun], hbroken⟩

theorem unlock_festgefahren (h : s.Inv) (hnot : ¬ s.WeckrufTrifft (.unlock t)) :
    s.lage t = .ausserhalb ∧ (s.unlock t).Festgefahren ∧
      (s.unlock t).SchlaeftBisAuf s.mutex.warten.tids := by
  simp only [WeckrufTrifft, not_forall] at hnot
  obtain ⟨ht, hg, hi, g, rest, htids, hout, ⟨u, hinnen⟩, hniemand⟩ := hnot
  rcases s.unlock_cases t with ⟨hfail, -⟩ | ⟨-, -, m, hm, hnil | hcons⟩
  · rcases hfail with hfail | hfail
    · rw [hg] at hfail
      cases hfail
    · exact absurd hi hfail
  · rw [hnil.1] at htids
    cases htids
  · obtain ⟨g', rest', htids', -, hunlock⟩ := hcons
    rw [htids] at htids'
    cases htids'
    -- The woken thread is outside, so nobody inside `lock` notices.
    have hlage : ∀ w, w ≠ g → (s.unlock t).lage w = s.lage w ∧ (s.unlock t).marke w = s.marke w := by
      intro w hw
      rw [hunlock]
      exact unpark_of_ne _ hw
    have hg' : (s.unlock t).lage g = .ausserhalb := by
      rw [hunlock]
      rcases unpark_self { s with mutex := m } g with ⟨-, hl⟩ | ⟨hne, -⟩
      · exact hl
      · exact absurd hout hne
    have hug : u ≠ g := fun heq => hinnen (heq ▸ hout)
    have hwartet : ∀ w, (s.unlock t).Wartet w → s.Wartet w := by
      intro w hw
      rw [hunlock] at hw
      exact (wartet_unpark hw).1
    have hwirksam : ∀ w, ¬ (s.unlock t).Wirksam w := by
      intro w hw
      by_cases hwg : w = g
      · simp [Wirksam, hwg, hg'] at hw
      · obtain ⟨hl, hmk⟩ := hlage w hwg
        rw [Wirksam, hl, hmk] at hw
        exact hniemand ⟨w, hw⟩
    have hu' : (s.unlock t).Wartet u := by
      obtain ⟨hl, hmk⟩ := hlage u hug
      rcases wartet_or_wirksam hinnen with hw | hw
      · rwa [Wartet, hl, hmk]
      · exact absurd ⟨u, hw⟩ hniemand
    refine ⟨ht, ⟨?_, ?_, hwirksam, u, hu'⟩, fun w hw => .inr (h.eingereiht w (hwartet w hw))⟩
    · rw [hunlock]
      exact unpark_unmarkiert (s := { s with mutex := m }) h.unmarkiert g
    · rw [hunlock, unpark_mutex]
      exact hm

def KeinSchlafNachPark (s : System) : Prop :=
  ∀ ts : List Tid, ∃ s', run step s (ts.map .park) = some s' ∧ s'.KeinSchlafAnFreiemMutex

theorem Inv.nachPark (h : s.Inv) : s.KeinSchlafNachPark := by
  intro ts
  induction ts generalizing s with
  | nil => exact ⟨s, rfl, h.keinSchlaf⟩
  | cons t ts ih =>
    obtain ⟨s₁, hstep, hinv⟩ := step_inv s (.park t) h trivial
    obtain ⟨s₂, hrun, hkein⟩ := ih hinv
    exact ⟨s₂, by rw [List.map_cons, run_cons_of_step hstep, hrun], hkein⟩

theorem step_not_nachPark (s : System) (op : Op) (h : s.Inv) (hnot : ¬ s.WeckrufTrifft op) :
    ∃ s', s.step op = some s' ∧ ¬ s'.KeinSchlafNachPark := by
  cases op with
  | unlock t =>
    obtain ⟨ht, hfest, hs⟩ := unlock_festgefahren h hnot
    refine ⟨s.unlock t, by simp [step, ht], fun hkein => ?_⟩
    obtain ⟨s₁, hrun, hbroken⟩ := run_park_festgefahren hfest hs
    obtain ⟨s₂, hrun', hgood⟩ := hkein s.mutex.warten.tids
    rw [hrun] at hrun'
    cases hrun'
    exact hbroken hgood
  | lockSchritt t | park t | tryLock t | fremdUnpark t => exact absurd trivial hnot

theorem unpark_ausserhalb (hu : s.lage u = .ausserhalb) : (s.unpark t).lage u = .ausserhalb := by
  by_cases hut : u = t
  · subst hut
    rcases s.unpark_self u with ⟨-, hl⟩ | ⟨hne, -⟩
    · exact hl
    · exact absurd hu hne
  · rw [(s.unpark_of_ne hut).1, hu]

theorem step_ausserhalb {s' : System} {op : Op} (hu : s.lage u = .ausserhalb)
    (hop : op ≠ .lockSchritt u) (h : s.step op = some s') : s'.lage u = .ausserhalb := by
  cases op with
  | lockSchritt t =>
    have hut : u ≠ t := by
      rintro rfl
      exact hop rfl
    simp only [step] at h
    split at h
    · cases h
      unfold lockSchritt
      split <;> simpa [update_of_ne hut] using hu
    · cases h
      exact hu
  | park t =>
    simp only [step] at h
    split at h
    · next ht =>
      cases h
      have hut : u ≠ t := by
        rintro rfl
        rw [hu] at ht
        cases ht
      unfold park
      split <;> simpa [update_of_ne hut] using hu
    · cases h
      exact hu
  | unlock t =>
    simp only [step] at h
    split at h
    · cases h
      unfold unlock
      split
      · exact hu
      · exact unpark_ausserhalb hu
    · cases h
      exact hu
  | tryLock t =>
    simp only [step] at h
    split at h <;> cases h <;> exact hu
  | fremdUnpark t =>
    cases h
    exact unpark_ausserhalb hu

theorem run_ausserhalb {s' : System} {ops : List Op} (hu : s.lage u = .ausserhalb)
    (hops : Op.lockSchritt u ∉ ops) (h : run step s ops = some s') : s'.lage u = .ausserhalb := by
  induction ops generalizing s with
  | nil =>
    cases h
    exact hu
  | cons op ops ih =>
    obtain ⟨s₁, hstep, hrun⟩ := run_cons_eq_some.mp h
    rw [List.mem_cons, not_or] at hops
    exact ih (step_ausserhalb hu (Ne.symm hops.1) hstep) hops.2 hrun

/-- For every sequence of steps of any threads, foreign wake marks included: nobody is
left asleep on a free mutex, in any state passed through or reached from there by threads
parking, exactly when no `unlock` of the sequence spends its wake-up on a stale entry. -/
theorem run_keinSchlafAnFreiemMutex_iff (ops : List Op) :
    (∀ xs, xs <+: ops → ∀ ts : List Tid,
      ∃ s, run step neu (xs ++ ts.map .park) = some s ∧ s.KeinSchlafAnFreiemMutex) ↔
      Admissible step WeckrufTrifft neu ops := by
  rw [← forall_prefix_iff_admissible (fun _ h => Inv.nachPark h) step_inv step_not_nachPark neu_inv
    ops]
  refine forall₂_congr fun xs _ => ?_
  constructor
  · intro h
    obtain ⟨s, hrun, -⟩ := h []
    rw [List.map_nil, List.append_nil] at hrun
    refine ⟨s, hrun, fun ts => ?_⟩
    obtain ⟨s', hrun', hkein⟩ := h ts
    rw [run_append, hrun, Option.bind_some] at hrun'
    exact ⟨s', hrun', hkein⟩
  · rintro ⟨s, hrun, hpark⟩ ts
    obtain ⟨s', hrun', hkein⟩ := hpark ts
    exact ⟨s', by rw [run_append, hrun, Option.bind_some, hrun'], hkein⟩

/-- Thread 1 holds the mutex and 2 waits.  A foreign mark wakes 2, which enqueues itself
again; 3 waits behind it.  The first `unlock` wakes 2, the second one wakes 2 once more,
which is done: 3 sleeps on the free mutex and nobody else is inside `lock`. -/
theorem run_stale_entry_loses_wakeup :
    ∃ s, run step neu [.lockSchritt 1, .lockSchritt 2, .park 2, .fremdUnpark 2, .lockSchritt 2,
        .park 2, .lockSchritt 3, .park 3, .unlock 1, .lockSchritt 2, .unlock 2] = some s ∧
      s.lage 3 = .schlaeft ∧ ¬ s.KeinSchlafAnFreiemMutex := by
  refine ⟨_, rfl, rfl, fun hkein => ?_⟩
  obtain ⟨t, hinnen, hwach⟩ := hkein rfl ⟨3, rfl⟩
  by_cases h3 : t = 3
  · subst h3
    rcases hwach with hlage | hmarke
    · exact hlage rfl
    · cases hmarke
  · refine hinnen ?_
    by_cases h2 : t = 2
    · rw [h2]
      rfl
    · by_cases h1 : t = 1
      · rw [h1]
        rfl
      · have hop : Op.lockSchritt t ∉ [.lockSchritt 1, .lockSchritt 2, .park 2, .fremdUnpark 2,
            .lockSchritt 2, .park 2, .lockSchritt 3, .park 3, .unlock 1, .lockSchritt 2,
            .unlock 2] := by
          simp [h1, h2, h3]
        exact run_ausserhalb (s := neu) rfl hop rfl

end System

end Caprock.Wait
