import Caprock.Wait.Mutex

/-! # Waiting for an interrupt

`Completion` counts what an interrupt thread has finished.  `warten` repeats `warten_schritt`:
look at the count, enqueue, park.  These are three steps, and a `complete` may come between any
two of them.

Behind the enqueueing it is safe: `complete` empties the queue, and whoever was in it is awake or
has a mark.  Before the enqueueing it is not: a thread that saw the count at zero is in no queue
yet, so nobody wakes it, and its `park` finds no mark.
-/

namespace Caprock.Wait

open Execution Function

namespace WaitQueue

/-- The loop of `wake_all`, for at most `n` entries: who is handed to `unpark`, in order. -/
def wakeBis : Nat → WaitQueue → List Tid × WaitQueue
  | 0, q => ([], q)
  | n + 1, q =>
      match q.pop with
      | (none, q) => ([], q)
      | (some t, q) => (t :: (wakeBis n q).1, (wakeBis n q).2)

def wakeAll (q : WaitQueue) : List Tid × WaitQueue := wakeBis q.tids.length q

/-- `entfernen`: every entry of `t` goes. -/
def entfernen (q : WaitQueue) (t : Tid) : Bool × WaitQueue :=
  (q.tids.contains t,
    ⟨q.tids.filter (· ≠ t), Nat.le_trans (List.length_filter_le _ _) q.platz, q.abgewiesen⟩)

theorem wakeBis_tids {n : Nat} {q : WaitQueue} (h : q.tids.length ≤ n) :
    (wakeBis n q).1 = q.tids ∧ (wakeBis n q).2.tids = [] := by
  induction n generalizing q with
  | zero =>
    have hnil : q.tids = [] := List.length_eq_zero_iff.mp (Nat.le_zero.mp h)
    exact ⟨hnil.symm, hnil⟩
  | succ n ih =>
    rcases q.pop_cases with ⟨hnil, hpop⟩ | ⟨t, rest, htids, hsome, hrest⟩
    · simp [wakeBis, hpop, hnil]
    · rcases hpop : q.pop with ⟨g, q'⟩
      rw [hpop] at hsome hrest
      dsimp only at hsome hrest
      subst hsome
      rw [htids, List.length_cons] at h
      have hrec := ih (q := q') (by rw [hrest]; omega)
      simp only [wakeBis, hpop, hrec, hrest, htids, and_self]

theorem wakeAll_tids (q : WaitQueue) : q.wakeAll.1 = q.tids ∧ q.wakeAll.2.tids = [] :=
  wakeBis_tids (Nat.le_refl _)

theorem push_nil {q : WaitQueue} (h : q.tids = []) (t : Tid) :
    (q.push t).1 = true ∧ (q.push t).2.tids = [t] := by
  have hlen : q.tids.length < warteplaetze := by
    rw [h]
    decide
  rw [push, dif_pos hlen]
  exact ⟨rfl, by simp [h]⟩

end WaitQueue

/-- `fertig` is a `u32`. -/
structure Completion where
  fertig : Nat
  warten : WaitQueue

namespace Completion

def new : Completion := ⟨0, WaitQueue.new⟩

/-- `complete`, with the threads to be woken; the count saturates. -/
def complete (c : Completion) : List Tid × Completion :=
  (c.warten.wakeAll.1, ⟨min (c.fertig + 1) (2 ^ 32 - 1), c.warten.wakeAll.2⟩)

/-- The check of `warten_schritt`: `true` takes one from the count. -/
def pruefen (c : Completion) : Bool × Completion :=
  if 0 < c.fertig then (true, { c with fertig := c.fertig - 1 }) else (false, c)

/-- The enqueueing of `warten_schritt`; `false` is `KeinWarteplatz`. -/
def einreihen (c : Completion) (me : Tid) : Bool × Completion :=
  ((c.warten.push me).1, { c with warten := (c.warten.push me).2 })

/-- `warten_timeout` takes itself out of the queue when its time is over. -/
def austragen (c : Completion) (me : Tid) : Completion :=
  { c with warten := (c.warten.entfernen me).2 }

/-- Where a thread stands: outside, before the check, between the check at zero and the
enqueueing, before its `park`, parked, or out of time and still in the queue. -/
inductive Lage where
  | ausserhalb
  | vorPruefung
  | geprueft
  | vorPark
  | schlaeft
  | abgelaufen
  deriving DecidableEq, Repr

/-- Threads around one completion.  `mitFrist` tells `warten_timeout` from `warten`;
`abschluesse` and `erfolge` count the calls of `complete` and the successful waits. -/
structure System where
  completion : Completion
  lage : Tid → Lage
  mitFrist : Tid → Bool
  marke : Tid → Bool
  abschluesse : Nat
  erfolge : Nat

inductive Op where
  | complete
  | warten (t : Tid)
  | wartenTimeout (t : Tid)
  | pruefen (t : Tid)
  | einreihen (t : Tid)
  | park (t : Tid)
  | fristUm (t : Tid)
  | austragen (t : Tid)
  | fremdUnpark (t : Tid)
  deriving DecidableEq, Repr

def Op.schlafWeg : Op → Prop
  | .einreihen _ => True
  | .park _ => True
  | _ => False

namespace System

def neu : System := ⟨Completion.new, fun _ => .ausserhalb, fun _ => false, fun _ => false, 0, 0⟩

def stelle (s : System) (t : Tid) (l : Lage) : System :=
  { s with lage := update s.lage t l }

/-- `unpark`: wakes a parked thread, leaves a mark at any other. -/
def unpark (s : System) (t : Tid) : System :=
  if s.lage t = .schlaeft then s.stelle t .vorPruefung
  else { s with marke := update s.marke t true }

/-- `park`: consumes a mark, else sleeps. -/
def park (s : System) (t : Tid) : System :=
  if s.marke t then
    { s.stelle t .vorPruefung with marke := update s.marke t false }
  else s.stelle t .schlaeft

def complete (s : System) : System :=
  s.completion.complete.1.foldl unpark
    { s with completion := s.completion.complete.2, abschluesse := s.abschluesse + 1 }

def pruefen (s : System) (t : Tid) : System :=
  match s.completion.pruefen with
  | (true, c) => { s.stelle t .ausserhalb with completion := c, erfolge := s.erfolge + 1 }
  | (false, c) => { s.stelle t .geprueft with completion := c }

/-- Without room in the queue the thread does not park but leaves with an error. -/
def einreihen (s : System) (t : Tid) : System :=
  match s.completion.einreihen t with
  | (true, c) => { s.stelle t .vorPark with completion := c }
  | (false, c) => { s.stelle t .ausserhalb with completion := c }

def austragen (s : System) (t : Tid) : System :=
  { s.stelle t .ausserhalb with completion := s.completion.austragen t }

/-- One step.  An operation of a thread that is elsewhere in its program does nothing. -/
def step (s : System) : Op → Option System
  | .complete => some s.complete
  | .warten t =>
      if s.lage t = .ausserhalb then
        some { s.stelle t .vorPruefung with mitFrist := update s.mitFrist t false }
      else some s
  | .wartenTimeout t =>
      if s.lage t = .ausserhalb then
        some { s.stelle t .vorPruefung with mitFrist := update s.mitFrist t true }
      else some s
  | .pruefen t => if s.lage t = .vorPruefung then some (s.pruefen t) else some s
  | .einreihen t => if s.lage t = .geprueft then some (s.einreihen t) else some s
  | .park t => if s.lage t = .vorPark then some (s.park t) else some s
  | .fristUm t =>
      if s.mitFrist t = true ∧ (s.lage t = .geprueft ∨ s.lage t = .schlaeft) then
        some (s.stelle t .abgelaufen)
      else some s
  | .austragen t => if s.lage t = .abgelaufen then some (s.austragen t) else some s
  | .fremdUnpark t => some (s.unpark t)

/-- `t` is in the queue or on its way to sleep behind it, and needs a wake-up to go on. -/
def Wartet (s : System) (t : Tid) : Prop :=
  s.lage t = .schlaeft ∨ s.lage t = .vorPark ∧ s.marke t = false

/-- `t` saw the count at zero and is not enqueued; nothing will stop it from sleeping. -/
def Blind (s : System) (t : Tid) : Prop := s.lage t = .geprueft ∧ s.marke t = false

def KeinSchlaf (s : System) : Prop :=
  0 < s.completion.fertig → ∀ t, s.lage t = .schlaeft → s.marke t = true

def CompleteTrifft (s : System) : Op → Prop
  | .complete => ∀ t, s.Blind t → t ∈ s.completion.warten.tids
  | _ => True

structure Inv (s : System) : Prop where
  eingereiht : ∀ t, s.Wartet t → t ∈ s.completion.warten.tids
  positiv : 0 < s.completion.fertig → ∀ t, ¬ s.Wartet t ∧ ¬ s.Blind t

theorem neu_inv : neu.Inv where
  eingereiht := by simp [Wartet, neu]
  positiv := by simp [neu, Completion.new]

variable {s : System} {t u : Tid}

theorem Inv.keinSchlaf (h : s.Inv) : s.KeinSchlaf := fun hpos t ht =>
  absurd (.inl ht) (h.positiv hpos t).1

theorem Inv.of_le {s' : System} (h : s.Inv) (hc : s'.completion = s.completion)
    (hw : ∀ t, s'.Wartet t → s.Wartet t) (hb : ∀ t, s'.Blind t → s.Blind t) :
    s'.Inv where
  eingereiht t ht := by
    rw [hc]
    exact h.eingereiht t (hw t ht)
  positiv hpos t := by
    rw [hc] at hpos
    exact ⟨fun ht => (h.positiv hpos t).1 (hw t ht), fun ht => (h.positiv hpos t).2 (hb t ht)⟩

theorem wartet_stelle {l : Lage}
    (hl : l = .ausserhalb ∨ l = .vorPruefung ∨ l = .geprueft ∨ l = .abgelaufen)
    (h : (s.stelle t l).Wartet u) : s.Wartet u := by
  by_cases hut : u = t
  · subst hut
    exfalso
    rcases hl with rfl | rfl | rfl | rfl <;> simp [Wartet, stelle] at h
  · simpa [Wartet, stelle, update_of_ne hut] using h

theorem blind_stelle {l : Lage} (hl : l ≠ .geprueft) (h : (s.stelle t l).Blind u) : s.Blind u := by
  by_cases hut : u = t
  · subst hut
    simp [Blind, stelle, hl] at h
  · simpa [Blind, stelle, update_of_ne hut] using h

theorem unpark_completion (s : System) (t : Tid) : (s.unpark t).completion = s.completion := by
  unfold unpark
  split <;> rfl

/-- A wake-up ends what holds neither in front of the check nor, but for a parked thread, of one
with a mark. -/
structure Weckbar (p : Lage → Bool → Prop) : Prop where
  wach : ∀ m, ¬ p .vorPruefung m
  marke : ∀ l, l ≠ .schlaeft → ¬ p l true

theorem weckbar_wartet : Weckbar fun l m => l = .schlaeft ∨ l = .vorPark ∧ m = false where
  wach := by simp
  marke := by simp

theorem weckbar_blind : Weckbar fun l m => l = .geprueft ∧ m = false where
  wach := by simp
  marke := by simp

theorem Weckbar.of_unpark {p : Lage → Bool → Prop} (hp : Weckbar p)
    (h : p ((s.unpark t).lage u) ((s.unpark t).marke u)) : p (s.lage u) (s.marke u) ∧ u ≠ t := by
  unfold unpark at h
  by_cases hut : u = t
  · subst hut
    exfalso
    by_cases hl : s.lage u = .schlaeft
    · rw [if_pos hl] at h
      exact hp.wach _ (by simpa [stelle] using h)
    · rw [if_neg hl] at h
      exact hp.marke _ hl (by simpa using h)
  · refine ⟨?_, hut⟩
    by_cases hl : s.lage t = .schlaeft
    · simpa [hl, stelle, update_of_ne hut] using h
    · simpa [hl, update_of_ne hut] using h

theorem foldl_unpark_completion (ts : List Tid) (s : System) :
    (ts.foldl unpark s).completion = s.completion := by
  induction ts generalizing s with
  | nil => rfl
  | cons t ts ih => rw [List.foldl_cons, ih, unpark_completion]

theorem Weckbar.of_foldl_unpark {p : Lage → Bool → Prop} (hp : Weckbar p) {ts : List Tid}
    (h : p ((ts.foldl unpark s).lage u) ((ts.foldl unpark s).marke u)) :
    p (s.lage u) (s.marke u) ∧ u ∉ ts := by
  induction ts generalizing s with
  | nil => exact ⟨h, List.not_mem_nil⟩
  | cons t ts ih =>
    obtain ⟨hs, hmem⟩ := ih h
    obtain ⟨hs, hut⟩ := hp.of_unpark hs
    exact ⟨hs, by simp [hut, hmem]⟩

theorem complete_inv (h : s.Inv) (hok : s.CompleteTrifft .complete) : s.complete.Inv := by
  have htids := s.completion.warten.wakeAll_tids
  have hniemand : ∀ u, ¬ s.complete.Wartet u := by
    intro u hu
    obtain ⟨hw, hmem⟩ := weckbar_wartet.of_foldl_unpark hu
    rw [Completion.complete, htids.1] at hmem
    exact hmem (h.eingereiht u hw)
  refine ⟨fun u hu => absurd hu (hniemand u), fun _ u => ⟨hniemand u, fun hu => ?_⟩⟩
  obtain ⟨hb, hmem⟩ := weckbar_blind.of_foldl_unpark hu
  rw [Completion.complete, htids.1] at hmem
  exact hmem (hok u hb)

theorem pruefen_inv (h : s.Inv) (t : Tid) : (s.pruefen t).Inv := by
  unfold pruefen Completion.pruefen
  by_cases hpos : 0 < s.completion.fertig
  · rw [if_pos hpos]
    refine ⟨fun u hu => h.eingereiht u (wartet_stelle (.inl rfl) hu), fun _ u => ?_⟩
    have hu := h.positiv hpos u
    exact ⟨fun hw => hu.1 (wartet_stelle (.inl rfl) hw),
      fun hb => hu.2 (blind_stelle (by decide) hb)⟩
  · rw [if_neg hpos]
    exact ⟨fun u hu => h.eingereiht u (wartet_stelle (.inr (.inr (.inl rfl))) hu),
      fun hpos' => absurd hpos' hpos⟩

theorem einreihen_inv (h : s.Inv) (ht : s.lage t = .geprueft) : (s.einreihen t).Inv := by
  unfold einreihen Completion.einreihen
  rcases s.completion.warten.push_cases t with ⟨hok, htids⟩ | ⟨hok, htids⟩ <;> rw [hok] <;>
    dsimp only
  · -- The thread is in the queue before it can sleep.
    refine ⟨fun u hu => ?_, fun hpos u => ⟨fun hw => ?_, fun hb => ?_⟩⟩
    · rw [htids, List.mem_append, List.mem_singleton]
      by_cases hut : u = t
      · exact .inr hut
      · exact .inl (h.eingereiht u (by simpa [Wartet, stelle, update_of_ne hut] using hu))
    · by_cases hut : u = t
      · subst hut
        exact (h.positiv hpos u).2 ⟨ht, by simpa [Wartet, stelle] using hw⟩
      · exact (h.positiv hpos u).1 (by simpa [Wartet, stelle, update_of_ne hut] using hw)
    · exact (h.positiv hpos u).2 (blind_stelle (by decide) hb)
  · refine ⟨fun u hu => ?_, fun hpos u => ⟨fun hw => ?_, fun hb => ?_⟩⟩
    · rw [htids]
      exact h.eingereiht u (wartet_stelle (.inl rfl) hu)
    · exact (h.positiv hpos u).1 (wartet_stelle (.inl rfl) hw)
    · exact (h.positiv hpos u).2 (blind_stelle (by decide) hb)

theorem wartet_park (ht : s.lage t = .vorPark) (h : (s.park t).Wartet u) : s.Wartet u := by
  unfold park at h
  by_cases hut : u = t
  · subst hut
    cases hm : s.marke u with
    | true => simp [hm, Wartet, stelle] at h
    | false => exact .inr ⟨ht, hm⟩
  · cases hm : s.marke t <;> simpa [hm, Wartet, stelle, update_of_ne hut] using h

theorem blind_park (h : (s.park t).Blind u) : s.Blind u := by
  unfold park at h
  by_cases hut : u = t
  · subst hut
    cases hm : s.marke u <;> simp [hm, Blind, stelle] at h
  · cases hm : s.marke t <;> simpa [hm, Blind, stelle, update_of_ne hut] using h

theorem park_completion (s : System) (t : Tid) : (s.park t).completion = s.completion := by
  unfold park
  split <;> rfl

theorem austragen_inv (h : s.Inv) (t : Tid) :
    (s.austragen t).Inv where
  eingereiht u hu := by
    have hut : u ≠ t := by
      rintro rfl
      simp [austragen, Wartet, stelle] at hu
    have hmem := h.eingereiht u (wartet_stelle (.inl rfl) hu)
    simpa [austragen, Completion.austragen, WaitQueue.entfernen, hut] using hmem
  positiv hpos u :=
    ⟨fun hw => (h.positiv hpos u).1 (wartet_stelle (.inl rfl) hw),
      fun hb => (h.positiv hpos u).2 (blind_stelle (by decide) hb)⟩

theorem step_inv (s : System) (op : Op) (h : s.Inv) (hok : s.CompleteTrifft op) :
    ∃ s', s.step op = some s' ∧ s'.Inv := by
  cases op with
  | complete => exact ⟨_, rfl, complete_inv h hok⟩
  | warten t | wartenTimeout t =>
    refine guarded_step (fun _ => ?_) h
    exact h.of_le rfl (fun u hu => wartet_stelle (.inr (.inl rfl)) hu)
      fun u hu => blind_stelle (by decide) hu
  | pruefen t => exact guarded_step (fun _ => pruefen_inv h t) h
  | einreihen t => exact guarded_step (fun ht => einreihen_inv h ht) h
  | park t =>
    refine guarded_step (fun ht => ?_) h
    exact h.of_le (s.park_completion t) (fun u hu => wartet_park ht hu) fun u hu => blind_park hu
  | fristUm t =>
    refine guarded_step (fun _ => ?_) h
    exact h.of_le rfl (fun u hu => wartet_stelle (.inr (.inr (.inr rfl))) hu)
      fun u hu => blind_stelle (by decide) hu
  | austragen t => exact guarded_step (fun _ => austragen_inv h t) h
  | fremdUnpark t =>
    exact ⟨_, rfl, h.of_le (s.unpark_completion t) (fun u hu => (weckbar_wartet.of_unpark hu).1)
      fun u hu => (weckbar_blind.of_unpark hu).1⟩

def KeinSchlafDanach (s : System) : Prop :=
  ∀ ys : List Op, (∀ op ∈ ys, op.schlafWeg) → ∃ s', run step s ys = some s' ∧ s'.KeinSchlaf

theorem completeTrifft_of_schlafWeg {op : Op} (h : op.schlafWeg) : s.CompleteTrifft op := by
  cases op with
  | complete => exact h.elim
  | _ => trivial

theorem Inv.danach (h : s.Inv) : s.KeinSchlafDanach := by
  intro ys hys
  induction ys generalizing s with
  | nil => exact ⟨s, rfl, h.keinSchlaf⟩
  | cons op ys ih =>
    obtain ⟨s₁, hstep, hinv⟩ :=
      step_inv s op h (completeTrifft_of_schlafWeg (hys op List.mem_cons_self))
    obtain ⟨s₂, hrun, hkein⟩ := ih hinv fun op' hop' => hys op' (List.mem_cons_of_mem op hop')
    exact ⟨s₂, by rw [run_cons_of_step hstep, hrun], hkein⟩

theorem foldl_unpark_of_not_mem {ts : List Tid} (h : u ∉ ts) :
    (ts.foldl unpark s).lage u = s.lage u ∧ (ts.foldl unpark s).marke u = s.marke u := by
  induction ts generalizing s with
  | nil => exact ⟨rfl, rfl⟩
  | cons t ts ih =>
    rw [List.mem_cons, not_or] at h
    obtain ⟨hl, hm⟩ := ih (s := s.unpark t) h.2
    rw [List.foldl_cons, hl, hm]
    unfold unpark
    split <;> simp [stelle, update_of_ne h.1]

theorem complete_completion (s : System) :
    s.complete.completion.fertig = min (s.completion.fertig + 1) (2 ^ 32 - 1) ∧
      s.complete.completion.warten.tids = [] := by
  rw [complete, foldl_unpark_completion]
  exact ⟨rfl, s.completion.warten.wakeAll_tids.2⟩

theorem run_schlafWeg (ht : s.Blind t) (hq : s.completion.warten.tids = []) :
    ∃ s', run step s [.einreihen t, .park t] = some s' ∧
      s'.completion.fertig = s.completion.fertig ∧ s'.lage t = .schlaeft ∧ s'.marke t = false := by
  obtain ⟨hl, hm⟩ := ht
  obtain ⟨hok, -⟩ := WaitQueue.push_nil hq t
  have hein : s.einreihen t = { s.stelle t .vorPark with
      completion := { s.completion with warten := (s.completion.warten.push t).2 } } := by
    unfold einreihen Completion.einreihen
    rw [hok]
  have hstep : s.step (.einreihen t) = some (s.einreihen t) := if_pos hl
  have hpark : (s.einreihen t).step (.park t) = some ((s.einreihen t).park t) :=
    if_pos (by rw [hein]; simp [stelle])
  refine ⟨(s.einreihen t).park t, by rw [run_cons_of_step hstep, run_cons_of_step hpark]; rfl, ?_⟩
  rw [park_completion, hein]
  simp [park, stelle, hm]

theorem step_not_danach (s : System) (op : Op) (_ : s.Inv) (hnot : ¬ s.CompleteTrifft op) :
    ∃ s', s.step op = some s' ∧ ¬ s'.KeinSchlafDanach := by
  cases op with
  | complete =>
    simp only [CompleteTrifft, not_forall] at hnot
    obtain ⟨t, ht, hmem⟩ := hnot
    refine ⟨s.complete, rfl, fun hkein => ?_⟩
    obtain ⟨hfertig, hq⟩ := s.complete_completion
    have hts : t ∉ s.completion.complete.1 := by
      rw [Completion.complete, s.completion.warten.wakeAll_tids.1]
      exact hmem
    obtain ⟨hl, hm⟩ := foldl_unpark_of_not_mem hts
      (s := { s with completion := s.completion.complete.2, abschluesse := s.abschluesse + 1 })
    have hblind : s.complete.Blind t := ⟨hl.trans ht.1, hm.trans ht.2⟩
    obtain ⟨s', hrun, hf, hschlaf, hmarke⟩ := run_schlafWeg hblind hq
    obtain ⟨s'', hrun', hgut⟩ := hkein [.einreihen t, .park t] (by simp [Op.schlafWeg])
    rw [hrun] at hrun'
    cases hrun'
    have hpos : 0 < s'.completion.fertig := by
      rw [hf, hfertig]
      omega
    rw [hgut hpos t hschlaf] at hmarke
    cases hmarke
  | _ => exact absurd trivial hnot

/-- Every success was announced, and what was announced and not fetched is in the count. -/
def Gezaehlt (s : System) : Prop := s.completion.fertig + s.erfolge ≤ s.abschluesse

theorem unpark_zaehler (s : System) (t : Tid) :
    (s.unpark t).erfolge = s.erfolge ∧ (s.unpark t).abschluesse = s.abschluesse := by
  unfold unpark
  split <;> exact ⟨rfl, rfl⟩

theorem foldl_unpark_zaehler (ts : List Tid) (s : System) :
    (ts.foldl unpark s).erfolge = s.erfolge ∧
      (ts.foldl unpark s).abschluesse = s.abschluesse := by
  induction ts generalizing s with
  | nil => exact ⟨rfl, rfl⟩
  | cons t ts ih =>
    obtain ⟨he, ha⟩ := ih (s.unpark t)
    rw [List.foldl_cons, he, ha]
    exact s.unpark_zaehler t

theorem complete_gezaehlt (h : s.Gezaehlt) : s.complete.Gezaehlt := by
  obtain ⟨hf, -⟩ := s.complete_completion
  obtain ⟨he, ha⟩ := foldl_unpark_zaehler s.completion.complete.1
    { s with completion := s.completion.complete.2, abschluesse := s.abschluesse + 1 }
  unfold Gezaehlt at h ⊢
  rw [hf]
  unfold complete
  rw [he, ha]
  dsimp only
  omega

theorem step_gezaehlt (s : System) (op : Op) (s' : System) (h : s.Gezaehlt)
    (hs : s.step op = some s') : s'.Gezaehlt := by
  cases op with
  | complete =>
    cases hs
    exact complete_gezaehlt h
  | pruefen t =>
    simp only [step] at hs
    split at hs
    · cases hs
      unfold pruefen Completion.pruefen
      by_cases hpos : 0 < s.completion.fertig
      · rw [if_pos hpos]
        unfold Gezaehlt at h ⊢
        dsimp only [stelle]
        omega
      · rw [if_neg hpos]
        exact h
    · cases hs
      exact h
  | einreihen t =>
    simp only [step] at hs
    split at hs
    · cases hs
      unfold einreihen Completion.einreihen
      cases (s.completion.warten.push t).1 <;> exact h
    · cases hs
      exact h
  | park t =>
    simp only [step] at hs
    split at hs
    · cases hs
      unfold park
      split <;> exact h
    · cases hs
      exact h
  | fremdUnpark t =>
    cases hs
    unfold unpark
    split <;> exact h
  | warten t | wartenTimeout t | fristUm t | austragen t =>
    simp only [step] at hs
    split at hs <;> cases hs <;> exact h

theorem step_isSome (s : System) (op : Op) : ∃ s', s.step op = some s' := by
  cases op with
  | complete | fremdUnpark t => exact ⟨_, rfl⟩
  | _ =>
    simp only [step]
    split <;> exact ⟨_, rfl⟩

theorem run_isSome (s : System) (ops : List Op) : ∃ s', run step s ops = some s' := by
  induction ops generalizing s with
  | nil => exact ⟨s, rfl⟩
  | cons op ops ih =>
    obtain ⟨s₁, hstep⟩ := s.step_isSome op
    rw [run_cons_of_step hstep]
    exact ih s₁

/-- For every sequence of steps of any threads, foreign marks and deadlines included: at most as
many waits succeed as there were calls of `complete`; and nobody sleeps on a positive count, in
any state passed through or reached from there by threads going on to their `park`, exactly when
no `complete` meets a thread that saw the count at zero and stands in front of the queue. -/
theorem run_keinSchlaf_iff (ops : List Op) :
    (∃ s, run step neu ops = some s ∧ s.erfolge ≤ s.abschluesse) ∧
    ((∀ xs, xs <+: ops → ∀ ys : List Op, (∀ op ∈ ys, op.schlafWeg) →
      ∃ s, run step neu (xs ++ ys) = some s ∧ s.KeinSchlaf) ↔
      Admissible step CompleteTrifft neu ops) := by
  constructor
  · obtain ⟨s, hrun⟩ := run_isSome neu ops
    have hneu : neu.Gezaehlt := Nat.le_refl 0
    have hzahl : s.completion.fertig + s.erfolge ≤ s.abschluesse :=
      run_invariant_of_step step_gezaehlt hneu hrun
    exact ⟨s, hrun, by omega⟩
  · rw [← forall_prefix_iff_admissible (fun _ h => Inv.danach h) step_inv step_not_danach neu_inv
      ops]
    refine forall₂_congr fun xs _ => ?_
    constructor
    · intro h
      obtain ⟨s, hrun, -⟩ := h [] (by simp)
      rw [List.append_nil] at hrun
      refine ⟨s, hrun, fun ys hys => ?_⟩
      obtain ⟨s', hrun', hkein⟩ := h ys hys
      rw [run_append, hrun, Option.bind_some] at hrun'
      exact ⟨s', hrun', hkein⟩
    · rintro ⟨s, hrun, hdanach⟩ ys hys
      obtain ⟨s', hrun', hkein⟩ := hdanach ys hys
      exact ⟨s', by rw [run_append, hrun, Option.bind_some, hrun'], hkein⟩

/-- Thread 1 sees the count at zero, then the interrupt completes and wakes nobody; thread 1
enqueues itself, finds no mark and sleeps on the count it waits for. -/
theorem run_complete_before_enqueue_missed :
    ∃ s, run step neu [.warten 1, .pruefen 1, .complete, .einreihen 1, .park 1] = some s ∧
      s.completion.fertig = 1 ∧ s.lage 1 = .schlaeft ∧ s.marke 1 = false ∧ ¬ s.KeinSchlaf := by
  refine ⟨_, rfl, rfl, rfl, rfl, fun hkein => ?_⟩
  have hmarke := hkein (by decide) 1 rfl
  cases hmarke

end System

end Completion

end Caprock.Wait
