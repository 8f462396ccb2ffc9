import Caprock.Wait.Event
import Mathlib.Data.List.Nodup
import Mathlib.Data.List.Perm.Subperm

/-! # Entries that stay behind

A thread enqueues itself once in every round of its wait.  A wake-up over the queue takes its
entry out; a mark from elsewhere does not.  The deadline takes all entries of the thread out.
The other two ways to end a call, success and a full queue, leave the queue alone: they rely on
the thread having been taken out before it woke.

So the queue needs to know three things of a thread only: whether it is outside, awake inside a
call, or waiting behind its entry.  As long as nobody wakes behind its own entry, every entry is
the only one of a waiting thread, whatever the calls do in detail.  As soon as somebody does,
the threads can go on so that it leaves and its entry stays.
-/

namespace Caprock.Wait

open Execution Function

/-- Outside, awake inside a call, or behind an entry until it is woken or its time is over. -/
inductive Platz where
  | draussen
  | wach
  | wartend
  deriving DecidableEq, Repr

/-- An entry is the only one of its thread, and the thread waits behind it. -/
structure Geordnet (ts : List Tid) (platz : Tid → Platz) : Prop where
  einmal : ts.Nodup
  wartend : ∀ t ∈ ts, platz t = .wartend

namespace Geordnet

variable {ts : List Tid} {platz : Tid → Platz} {t : Tid} {p : Platz}

theorem leer (platz : Tid → Platz) : Geordnet [] platz :=
  ⟨List.nodup_nil, fun _ ht => absurd ht List.not_mem_nil⟩

/-- A thread goes elsewhere, but does not leave its entry behind. -/
theorem geht (h : Geordnet ts platz) (hp : platz t = .wartend → t ∈ ts → p = .wartend) :
    Geordnet ts (update platz t p) := by
  refine ⟨h.einmal, fun u hu => ?_⟩
  by_cases hut : u = t
  · subst hut
    exact (update_self ..).trans (hp (h.wartend u hu) hu)
  · exact (update_of_ne hut ..).trans (h.wartend u hu)

theorem reihtEin (h : Geordnet ts platz) (ht : platz t ≠ .wartend) :
    Geordnet (ts ++ [t]) (update platz t .wartend) := by
  have hneu : t ∉ ts := fun hmem => ht (h.wartend t hmem)
  refine ⟨List.concat_eq_append ▸ h.einmal.concat hneu, fun u hu => ?_⟩
  by_cases hut : u = t
  · subst hut
    exact update_self ..
  · have hold := (List.mem_append.mp hu).resolve_right fun hin => hut (List.mem_singleton.mp hin)
    exact (update_of_ne hut ..).trans (h.wartend u hold)

theorem traegtAus (h : Geordnet ts platz) (t : Tid) (p : Platz) :
    Geordnet (ts.filter (· ≠ t)) (update platz t p) := by
  refine ⟨h.einmal.filter _, fun u hu => ?_⟩
  obtain ⟨hmem, hne⟩ := List.mem_filter.mp hu
  have hut : u ≠ t := by simpa using hne
  exact (update_of_ne hut ..).trans (h.wartend u hmem)

theorem weckt (h : Geordnet (t :: ts) platz) (p : Platz) : Geordnet ts (update platz t p) := by
  obtain ⟨hnot, hnd⟩ := List.nodup_cons.mp h.einmal
  refine ⟨hnd, fun u hu => ?_⟩
  have hut : u ≠ t := fun heq => hnot (heq ▸ hu)
  exact (update_of_ne hut ..).trans (h.wartend u (List.mem_cons_of_mem t hu))

end Geordnet

/-- There are more threads than a queue has places. -/
theorem exists_fremder {ts : List Tid} (h : ts.length ≤ warteplaetze + 1) : ∃ u : Tid, u ∉ ts := by
  by_contra hall
  rw [not_exists] at hall
  have hnd : ((List.range (warteplaetze + 2)).map UInt64.ofNat).Nodup := by decide
  have hsub : (List.range (warteplaetze + 2)).map UInt64.ofNat ⊆ ts :=
    fun u _ => not_not.mp (hall u)
  have hlen := (hnd.subperm hsub).length_le
  rw [List.length_map, List.length_range] at hlen
  omega

namespace Mutex

/-- When an attempt of `me` does not end in its `park`: the mutex is free, it is its own, or
the queue is full. -/
def Endet (m : Mutex) (me : Tid) : Prop :=
  m.gesperrt = false ∨ m.inhaber = me ∨ warteplaetze ≤ m.warten.tids.length

theorem lockSchritt_endet {m : Mutex} {me : Tid} (h : m.Endet me) :
    (m.lockSchritt me).1 ≠ .parken ∧ (m.lockSchritt me).2.warten.tids = m.warten.tids := by
  unfold lockSchritt
  cases hg : m.gesperrt with
  | false => simp
  | true =>
    by_cases hme : m.inhaber = me
    · simp [hme]
    · have hfull : ¬ m.warten.tids.length < warteplaetze := by
        rcases h with hfree | hown | hfull
        · rw [hg] at hfree
          cases hfree
        · exact absurd hown hme
        · omega
      simp [hme, WaitQueue.push, hfull]

theorem lockSchritt_parkt {m : Mutex} {me : Tid} (h : ¬ m.Endet me) :
    (m.lockSchritt me).1 = .parken ∧ (m.lockSchritt me).2.gesperrt = m.gesperrt ∧
      (m.lockSchritt me).2.inhaber = m.inhaber ∧
      (m.lockSchritt me).2.warten.tids = m.warten.tids ++ [me] := by
  simp only [Endet, not_or, Bool.not_eq_false, Nat.not_le] at h
  obtain ⟨hg, hme, hroom⟩ := h
  simp [lockSchritt, hg, hme, WaitQueue.push, hroom]

end Mutex

def Lage.platz : Lage → Platz
  | .ausserhalb => .draussen
  | .imLock => .wach
  | .vorPark | .schlaeft => .wartend

namespace System

variable {s s' : System} {t u : Tid}

/-- Everybody in the queue is inside `lock`. -/
def Sauber (s : System) : Prop := ∀ t ∈ s.mutex.warten.tids, s.lage t ≠ .ausserhalb

/-- A thread that wakes has no entry left in the queue: whoever woke it took it out first. -/
def PopVorWecken (s : System) : Op → Prop
  | .park t => s.lage t = .vorPark → s.marke t = true → t ∉ s.mutex.warten.tids
  | .fremdUnpark t => s.lage t = .schlaeft → t ∉ s.mutex.warten.tids
  | _ => True

def InReihe (s : System) : Prop := Geordnet s.mutex.warten.tids (Lage.platz ∘ s.lage)

theorem InReihe.sauber (h : s.InReihe) : s.Sauber := by
  intro t ht hl
  have hp := h.wartend t ht
  rw [comp_apply, hl] at hp
  cases hp

theorem InReihe.of_update {ts : List Tid} {l : Lage}
    (h : Geordnet ts (update (Lage.platz ∘ s.lage) t l.platz)) (htids : s'.mutex.warten.tids = ts)
    (hlage : s'.lage = update s.lage t l) : s'.InReihe := by
  unfold InReihe
  rwa [htids, hlage, comp_update]

theorem lage_unpark (s : System) (t : Tid) : (s.unpark t).lage =
    update s.lage t (if s.lage t = .schlaeft then .imLock else s.lage t) := by
  unfold unpark
  split
  · rfl
  · exact (update_eq_self t s.lage).symm

theorem lage_park (s : System) (t : Tid) :
    (s.park t).lage = update s.lage t (if s.marke t then .imLock else .schlaeft) := by
  unfold park
  split <;> rfl

theorem lockSchritt_of_parkt (h : ¬ s.mutex.Endet t) :
    (s.lockSchritt t).mutex.gesperrt = s.mutex.gesperrt ∧
      (s.lockSchritt t).mutex.inhaber = s.mutex.inhaber ∧
      (s.lockSchritt t).mutex.warten.tids = s.mutex.warten.tids ++ [t] ∧
      (s.lockSchritt t).lage = update s.lage t .vorPark := by
  obtain ⟨hout, hg, hi, htids⟩ := Mutex.lockSchritt_parkt h
  unfold lockSchritt
  rcases hm : s.mutex.lockSchritt t with ⟨r, m⟩
  rw [hm] at hout hg hi htids
  subst hout
  exact ⟨hg, hi, htids, rfl⟩

theorem lockSchritt_of_endet (h : s.mutex.Endet t) :
    (s.lockSchritt t).mutex.warten.tids = s.mutex.warten.tids ∧
      (s.lockSchritt t).lage = update s.lage t .ausserhalb := by
  obtain ⟨hout, htids⟩ := Mutex.lockSchritt_endet h
  unfold lockSchritt
  rcases hm : s.mutex.lockSchritt t with ⟨r, m⟩
  rw [hm] at hout htids
  cases r with
  | parken => exact absurd rfl hout
  | erlangt | fehler e => exact ⟨htids, rfl⟩

theorem InReihe.lockSchritt (h : s.InReihe) (ht : s.lage t = .ausserhalb ∨ s.lage t = .imLock) :
    (s.lockSchritt t).InReihe := by
  have hwach : (Lage.platz ∘ s.lage) t ≠ .wartend := by
    rcases ht with hl | hl <;> simp [hl, Lage.platz]
  by_cases hend : s.mutex.Endet t
  · obtain ⟨htids, hlage⟩ := lockSchritt_of_endet hend
    exact .of_update (h.geht fun hw => absurd hw hwach) htids hlage
  · obtain ⟨-, -, htids, hlage⟩ := lockSchritt_of_parkt hend
    exact .of_update (h.reihtEin hwach) htids hlage

theorem InReihe.unlock (h : s.InReihe) (t : Tid) : (s.unlock t).InReihe := by
  unfold System.unlock
  rcases s.mutex.unlock_cases t with ⟨-, heq⟩ | ⟨-, -, -, ⟨-, hnone, hnil⟩ | ⟨g, rest, htids, hsome, hrest⟩⟩
  · rw [heq]
    exact h
  · rcases hm : s.mutex.unlock t with ⟨b, o, m⟩
    rw [hm] at hnone hnil
    subst hnone
    unfold InReihe
    rw [hnil]
    exact .leer _
  · rcases hm : s.mutex.unlock t with ⟨b, o, m⟩
    rw [hm] at hsome hrest
    subst hsome
    unfold InReihe at h
    rw [htids] at h
    refine .of_update (h.weckt _) ?_ (lage_unpark ..)
    exact (congrArg (·.warten.tids) (unpark_mutex { s with mutex := m } g)).trans hrest

theorem step_inReihe (s : System) (op : Op) (h : s.InReihe) (hok : s.PopVorWecken op) :
    ∃ s', s.step op = some s' ∧ s'.InReihe := by
  cases op with
  | lockSchritt t => exact guarded_step (fun ht => h.lockSchritt ht) h
  | park t =>
    refine guarded_step (fun ht => .of_update (h.geht fun _ hmem => ?_) ?_ (s.lage_park t)) h
    · cases hm : s.marke t with
      | true => exact absurd hmem (hok ht hm)
      | false => rfl
    · rw [park_mutex]
  | unlock t => exact guarded_step (fun _ => h.unlock t) h
  | tryLock t =>
    refine guarded_step (fun _ => ?_) h
    unfold InReihe
    rcases s.mutex.tryLock_cases t with heq | ⟨-, -, heq⟩ <;> rw [heq] <;> exact h
  | fremdUnpark t =>
    refine ⟨_, rfl, .of_update (h.geht fun hw hmem => ?_) (by rw [unpark_mutex]) (s.lage_unpark t)⟩
    rw [if_neg fun hl => hok hl hmem]
    exact hw

/-- A thread is awake, and its entry stands. -/
def Rest (s : System) : Prop := ∃ t ∈ s.mutex.warten.tids, s.lage t = .imLock

theorem step_rest (s : System) (op : Op) (hnot : ¬ s.PopVorWecken op) :
    ∃ s', s.step op = some s' ∧ s'.Rest := by
  cases op with
  | park t =>
    simp only [PopVorWecken, not_forall, Decidable.not_not] at hnot
    obtain ⟨ht, hm, hmem⟩ := hnot
    refine ⟨_, if_pos ht, t, by rwa [park_mutex], ?_⟩
    rw [lage_park, update_self, if_pos hm]
  | fremdUnpark t =>
    simp only [PopVorWecken, not_forall, Decidable.not_not] at hnot
    obtain ⟨hl, hmem⟩ := hnot
    refine ⟨_, rfl, t, by rwa [unpark_mutex], ?_⟩
    rw [lage_unpark, update_self, if_pos hl]
  | _ => exact absurd trivial hnot

theorem verlaesst (h : s.lage t = .imLock) (hend : s.mutex.Endet t)
    (hmem : t ∈ s.mutex.warten.tids) : Leads step PopVorWecken (fun s' => ¬ s'.Sauber) s := by
  obtain ⟨htids, hlage⟩ := lockSchritt_of_endet hend
  refine .of_step (.lockSchritt t) trivial (if_pos (.inr h)) (.here fun hsauber => ?_)
  exact hsauber t (by rwa [htids]) (by rw [hlage, update_self])

/-- A thread without an entry can go on to its next attempt. -/
theorem wird_wach (hu : u ∉ s.mutex.warten.tids) : Leads step PopVorWecken (fun s' =>
    s'.mutex = s.mutex ∧ (s'.lage u = .ausserhalb ∨ s'.lage u = .imLock) ∧
      ∀ x, x ≠ u → s'.lage x = s.lage x) s := by
  have hmutex := s.unpark_mutex u
  cases hl : s.lage u with
  | ausserhalb => exact .here ⟨rfl, .inl hl, fun _ _ => rfl⟩
  | imLock => exact .here ⟨rfl, .inr hl, fun _ _ => rfl⟩
  | schlaeft =>
    refine .of_step (.fremdUnpark u) (fun _ => hu) rfl (.here ⟨hmutex, .inr ?_, ?_⟩)
    · rw [lage_unpark, update_self, if_pos hl]
    · exact fun x hx => (s.unpark_of_ne hx).1
  | vorPark =>
    -- With a mark its `park` returns at once.
    have hunpark : s.unpark u = { s with marke := update s.marke u true } :=
      if_neg (by rw [hl]; decide)
    refine .of_step (.fremdUnpark u) (fun _ => hu) rfl ?_
    rw [hunpark]
    refine .of_step (.park u) (fun _ _ => hu) (if_pos hl) (.here ?_)
    rw [park, if_pos (update_self ..)]
    exact ⟨rfl, .inr (update_self ..), fun x hx => update_of_ne hx ..⟩

/-- Other threads can fill the queue of a locked mutex while `t` is on its way. -/
theorem rest_leads (h : s.Rest) : Leads step PopVorWecken (fun s' => ¬ s'.Sauber) s := by
  obtain ⟨t, hmem, hl⟩ := h
  by_cases hend : s.mutex.Endet t
  · exact verlaesst hl hend hmem
  simp only [Mutex.Endet, not_or, Bool.not_eq_false] at hend
  refine Leads.of_variant (Q := fun s' => s'.mutex.gesperrt = true ∧
    t ∈ s'.mutex.warten.tids ∧ s'.lage t = .imLock)
    (m := fun s' => warteplaetze - s'.mutex.warten.tids.length) ?_ ?_ ⟨hend.1, hmem, hl⟩
  · rintro s' ⟨-, hmem, hl⟩ hzero
    exact verlaesst hl (.inr (.inr (Nat.le_of_sub_eq_zero hzero))) hmem
  · rintro s' ⟨hg, hmem, hl⟩ hless
    have hlen : (s'.mutex.inhaber :: s'.mutex.warten.tids).length ≤ warteplaetze + 1 :=
      Nat.succ_le_succ s'.mutex.warten.platz
    obtain ⟨u, hu⟩ := exists_fremder hlen
    obtain ⟨hui, hu⟩ := not_or.mp (List.mem_cons.not.mp hu)
    refine (wird_wach hu).trans fun s₁ ⟨hmutex, hwach, hother⟩ => ?_
    have hparkt : ¬ s₁.mutex.Endet u := by
      rw [hmutex]
      rintro (hfree | hown | hfull)
      · rw [hg] at hfree
        cases hfree
      · exact hui hown.symm
      · omega
    obtain ⟨hg', -, htids, hlage⟩ := lockSchritt_of_parkt hparkt
    rw [hmutex] at hg' htids
    have htu : t ≠ u := fun heq => hu (heq ▸ hmem)
    refine .of_step (.lockSchritt u) trivial (if_pos hwach) (.here ⟨⟨hg'.trans hg, ?_, ?_⟩, ?_⟩)
    · rw [htids]
      exact List.mem_append_left _ hmem
    · rw [hlage, update_of_ne htu, hother t htu, hl]
    · rw [htids, List.length_append, List.length_singleton]
      omega

end System

def Completion.Lage.platz : Completion.Lage → Platz
  | .ausserhalb => .draussen
  | .vorPruefung | .geprueft => .wach
  | .vorPark | .schlaeft | .abgelaufen => .wartend

namespace WaitQueue

variable {q : WaitQueue} {lage : Tid → Completion.Lage} {t : Tid} {l : Completion.Lage}

/-- Everybody in the queue is inside a call. -/
def Sauber (q : WaitQueue) (lage : Tid → Completion.Lage) : Prop :=
  ∀ t ∈ q.tids, lage t ≠ .ausserhalb

def InReihe (q : WaitQueue) (lage : Tid → Completion.Lage) : Prop :=
  Geordnet q.tids (Completion.Lage.platz ∘ lage)

/-- A thread is about to check, and its entry of an earlier round stands. -/
def Rest (q : WaitQueue) (lage : Tid → Completion.Lage) : Prop :=
  ∃ t ∈ q.tids, lage t = .vorPruefung

theorem not_sauber_verlassen (ht : t ∈ q.tids) : ¬ q.Sauber (update lage t .ausserhalb) :=
  fun h => h t ht (update_self ..)

theorem rest_update (ht : t ∈ q.tids) : q.Rest (update lage t .vorPruefung) :=
  ⟨t, ht, update_self ..⟩

namespace InReihe

theorem sauber (h : q.InReihe lage) : q.Sauber lage := by
  intro t ht hl
  have hp := h.wartend t ht
  rw [comp_apply, hl] at hp
  cases hp

/-- A thread goes on, and not from behind its entry. -/
theorem stelle (h : q.InReihe lage)
    (hl : (lage t).platz = .wartend → t ∈ q.tids → l.platz = .wartend) :
    q.InReihe (update lage t l) := by
  unfold InReihe
  rw [comp_update]
  exact h.geht hl

theorem einreihen (h : q.InReihe lage) (ht : lage t = .geprueft) : (q.push t).2.InReihe
    (update lage t (if (q.push t).1 then .vorPark else .ausserhalb)) := by
  have hwach : (Completion.Lage.platz ∘ lage) t ≠ .wartend := by
    simp [ht, Completion.Lage.platz]
  unfold InReihe
  rw [comp_update]
  rcases q.push_cases t with ⟨hyes, htids⟩ | ⟨hno, htids⟩
  · rw [hyes, if_pos rfl, htids]
    exact h.reihtEin hwach
  · rw [hno, if_neg Bool.false_ne_true, htids]
    exact h.geht fun hw => absurd hw hwach

theorem austragen (h : q.InReihe lage) (t : Tid) :
    (q.entfernen t).2.InReihe (update lage t .ausserhalb) := by
  unfold InReihe
  rw [comp_update]
  exact h.traegtAus t _

/-- Whoever sleeps and is woken from elsewhere must have been taken out. -/
theorem unpark (h : q.InReihe lage) (hok : lage t = .schlaeft → t ∉ q.tids) :
    q.InReihe (update lage t (if lage t = .schlaeft then .vorPruefung else lage t)) := by
  refine h.stelle fun hw hmem => ?_
  rw [if_neg fun hl => hok hl hmem]
  exact hw

theorem park {marke : Bool} (h : q.InReihe lage) (hok : marke = true → t ∉ q.tids) :
    q.InReihe (update lage t (if marke then .vorPruefung else .schlaeft)) := by
  refine h.stelle fun _ hmem => ?_
  cases marke with
  | true => exact absurd hmem (hok rfl)
  | false => rfl

theorem leer (h : q.tids = []) (lage : Tid → Completion.Lage) : q.InReihe lage := by
  unfold InReihe
  rw [h]
  exact .leer _

end InReihe

end WaitQueue

namespace Completion.System

variable {s s' : System} {t u : Tid}

/-- Everybody in the queue is inside `warten` or `warten_timeout`. -/
def Sauber (s : System) : Prop := s.completion.warten.Sauber s.lage

/-- A thread that wakes has no entry left in the queue: whoever woke it took it out first. -/
def PopVorWecken (s : System) : Op → Prop
  | .park t => s.lage t = .vorPark → s.marke t = true → t ∉ s.completion.warten.tids
  | .fremdUnpark t => s.lage t = .schlaeft → t ∉ s.completion.warten.tids
  | _ => True

def InReihe (s : System) : Prop := s.completion.warten.InReihe s.lage

theorem lage_unpark (s : System) (t : Tid) : (s.unpark t).lage =
    update s.lage t (if s.lage t = .schlaeft then .vorPruefung else s.lage t) := by
  unfold unpark
  split
  · rfl
  · exact (update_eq_self t s.lage).symm

theorem lage_park (s : System) (t : Tid) :
    (s.park t).lage = update s.lage t (if s.marke t then .vorPruefung else .schlaeft) := by
  unfold park
  split <;> rfl

theorem pruefen_eq (s : System) (t : Tid) :
    (s.pruefen t).completion.warten = s.completion.warten ∧ (s.pruefen t).lage =
      update s.lage t (if 0 < s.completion.fertig then .ausserhalb else .geprueft) := by
  unfold pruefen Completion.pruefen
  by_cases hpos : 0 < s.completion.fertig
  · rw [if_pos hpos, if_pos hpos]
    exact ⟨rfl, rfl⟩
  · rw [if_neg hpos, if_neg hpos]
    exact ⟨rfl, rfl⟩

theorem einreihen_eq (s : System) (t : Tid) :
    (s.einreihen t).completion = ⟨s.completion.fertig, (s.completion.warten.push t).2⟩ ∧
      (s.einreihen t).lage = update s.lage t
        (if (s.completion.warten.push t).1 then .vorPark else .ausserhalb) := by
  unfold einreihen Completion.einreihen
  cases (s.completion.warten.push t).1 with
  | true | false => exact ⟨rfl, rfl⟩

theorem step_inReihe (s : System) (op : Op) (h : s.InReihe) (hok : s.PopVorWecken op) :
    ∃ s', s.step op = some s' ∧ s'.InReihe := by
  cases op with
  | complete => exact ⟨_, rfl, .leer s.complete_completion.2 _⟩
  | warten t | wartenTimeout t =>
    exact guarded_step (fun ht => h.stelle (by simp [ht, Lage.platz])) h
  | fristUm t => exact guarded_step (fun _ => h.stelle fun _ _ => rfl) h
  | pruefen t =>
    refine guarded_step (fun ht => ?_) h
    unfold InReihe
    rw [(s.pruefen_eq t).1, (s.pruefen_eq t).2]
    exact h.stelle (by simp [ht, Lage.platz])
  | einreihen t =>
    refine guarded_step (fun ht => ?_) h
    unfold InReihe
    rw [(s.einreihen_eq t).1, (s.einreihen_eq t).2]
    exact h.einreihen ht
  | park t =>
    refine guarded_step (fun ht => ?_) h
    unfold InReihe
    rw [park_completion, lage_park]
    exact h.park (hok ht)
  | austragen t => exact guarded_step (fun _ => h.austragen t) h
  | fremdUnpark t =>
    refine ⟨_, rfl, ?_⟩
    unfold InReihe
    rw [unpark_completion, lage_unpark]
    exact h.unpark hok

theorem step_rest (s : System) (op : Op) (hnot : ¬ s.PopVorWecken op) :
    ∃ s', s.step op = some s' ∧ s'.completion.warten.Rest s'.lage := by
  cases op with
  | park t =>
    simp only [PopVorWecken, not_forall, Decidable.not_not] at hnot
    obtain ⟨ht, hm, hmem⟩ := hnot
    refine ⟨_, if_pos ht, ?_⟩
    rw [park_completion, lage_park, if_pos hm]
    exact WaitQueue.rest_update hmem
  | fremdUnpark t =>
    simp only [PopVorWecken, not_forall, Decidable.not_not] at hnot
    obtain ⟨hl, hmem⟩ := hnot
    refine ⟨_, rfl, ?_⟩
    rw [unpark_completion, lage_unpark, if_pos hl]
    exact WaitQueue.rest_update hmem
  | _ => exact absurd trivial hnot

/-- The count is zero, the queue is `ts`, and nobody but `u` has moved since `s`. -/
structure Unterwegs (s : System) (u : Tid) (s' : System) : Prop where
  fertig : s'.completion.fertig = 0
  tids : s'.completion.warten.tids = s.completion.warten.tids
  lage : ∀ x, x ≠ u → s'.lage x = s.lage x

theorem Unterwegs.schritt {s'' : System} {l : Lage} {P : System → Prop}
    (h : Unterwegs s u s') (op : Op) (hok : s'.PopVorWecken op) (hstep : s'.step op = some s'')
    (hfertig : s''.completion.fertig = s'.completion.fertig)
    (htids : s''.completion.warten.tids = s'.completion.warten.tids)
    (hlage : s''.lage = update s'.lage u l)
    (hnext : Unterwegs s u s'' → s''.lage u = l → Leads step PopVorWecken P s'') :
    Leads step PopVorWecken P s' := by
  refine .of_step op hok hstep
    (hnext ⟨hfertig.trans h.fertig, htids.trans h.tids, fun x hx => ?_⟩ ?_)
  · rw [hlage, update_of_ne hx, h.lage x hx]
  · rw [hlage, update_self]

theorem Unterwegs.pruefen (h : Unterwegs s u s') (hl : s'.lage u = .vorPruefung) :
    Leads step PopVorWecken (fun s' => Unterwegs s u s' ∧ s'.lage u = .geprueft) s' := by
  have hnot : ¬ 0 < s'.completion.fertig := by
    rw [h.fertig]
    exact Nat.lt_irrefl 0
  have hpruefen : s'.pruefen u = s'.stelle u .geprueft := by
    unfold System.pruefen Completion.pruefen
    rw [if_neg hnot]
    rfl
  refine h.schritt (.pruefen u) trivial (if_pos hl) ?_ ?_ (hpruefen ▸ rfl)
    fun h' hl' => .here ⟨h', hl'⟩
  · rw [hpruefen]
    rfl
  · rw [hpruefen]
    rfl

/-- A thread without an entry can go on to the queue while the count is zero. -/
theorem Unterwegs.weiter (h : Unterwegs s u s') (hu : u ∉ s.completion.warten.tids) :
    Leads step PopVorWecken (fun s' => Unterwegs s u s' ∧ s'.lage u = .geprueft) s' := by
  rw [← h.tids] at hu
  have hwarten : ∀ {s' : System}, Unterwegs s u s' → s'.lage u = .ausserhalb →
      Leads step PopVorWecken (fun s' => Unterwegs s u s' ∧ s'.lage u = .geprueft) s' :=
    fun h hl => h.schritt (.warten u) trivial (if_pos hl) rfl rfl rfl fun h' => h'.pruefen
  cases hl : s'.lage u with
  | ausserhalb => exact hwarten h hl
  | vorPruefung => exact h.pruefen hl
  | geprueft => exact .here ⟨h, hl⟩
  | schlaeft =>
    have hunpark : s'.unpark u = s'.stelle u .vorPruefung := if_pos hl
    exact h.schritt (.fremdUnpark u) (fun _ => hu) (congrArg some hunpark) rfl rfl rfl
      fun h' => h'.pruefen
  | vorPark =>
    -- With a mark its `park` returns at once.
    have hunpark : s'.unpark u = { s' with marke := update s'.marke u true } :=
      if_neg (by rw [hl]; decide)
    refine h.schritt (.fremdUnpark u) (fun _ => hu) (congrArg some hunpark) rfl rfl
      (update_eq_self u s'.lage).symm fun h' _ => ?_
    refine h'.schritt (.park u) (fun _ _ => hu) (if_pos hl) ?_ ?_
      ((lage_park ..).trans (by rw [if_pos (update_self ..)])) fun h'' => h''.pruefen
    · rw [park_completion]
    · rw [park_completion]
  | abgelaufen =>
    refine h.schritt (.austragen u) trivial (if_pos hl) rfl ?_ rfl fun h' => hwarten h'
    exact List.filter_eq_self.mpr fun x hx => by simpa using fun heq : x = u => hu (heq ▸ hx)

/-- With the count above zero the check of `t` succeeds; else other threads can fill the queue
while `t` is on its way. -/
theorem rest_leads (h : s.completion.warten.Rest s.lage) :
    Leads step PopVorWecken (fun s' => ¬ s'.Sauber) s := by
  obtain ⟨t, hmem, hl⟩ := h
  by_cases hpos : 0 < s.completion.fertig
  · refine .of_step (.pruefen t) trivial (if_pos hl) (.here ?_)
    rw [Sauber, (s.pruefen_eq t).1, (s.pruefen_eq t).2, if_pos hpos]
    exact WaitQueue.not_sauber_verlassen hmem
  refine Leads.of_variant (Q := fun s' => s'.completion.fertig = 0 ∧
    t ∈ s'.completion.warten.tids ∧ s'.lage t = .vorPruefung)
    (m := fun s' => warteplaetze - s'.completion.warten.tids.length) ?_ ?_
    ⟨Nat.eq_zero_of_not_pos hpos, hmem, hl⟩
  · rintro s ⟨hzero, hmem, hl⟩ hfull
    have hstart : Unterwegs s t s := ⟨hzero, rfl, fun _ _ => rfl⟩
    refine (hstart.pruefen hl).trans fun s₁ hs₁ => ?_
    obtain ⟨h₁, hl₁⟩ := hs₁
    obtain ⟨hc, hlage⟩ := s₁.einreihen_eq t
    refine .of_step (.einreihen t) trivial (if_pos hl₁) (.here ?_)
    have hno : ¬ s₁.completion.warten.tids.length < warteplaetze := by
      rw [h₁.tids]
      omega
    rw [Sauber, hc, hlage, WaitQueue.push, dif_neg hno]
    exact WaitQueue.not_sauber_verlassen (h₁.tids ▸ hmem)
  · rintro s ⟨hzero, hmem, hl⟩ hless
    obtain ⟨u, hu⟩ := exists_fremder (Nat.le_succ_of_le s.completion.warten.platz)
    have htu : t ≠ u := fun heq => hu (heq ▸ hmem)
    have hstart : Unterwegs s u s := ⟨hzero, rfl, fun _ _ => rfl⟩
    refine (hstart.weiter hu).trans fun s₁ hs₁ => ?_
    obtain ⟨h₁, hl₁⟩ := hs₁
    obtain ⟨hc, hlage⟩ := s₁.einreihen_eq u
    have hroom : s₁.completion.warten.tids.length < warteplaetze := by
      rw [h₁.tids]
      omega
    have htids : (s₁.einreihen u).completion.warten.tids = s.completion.warten.tids ++ [u] := by
      rw [hc, ← h₁.tids, WaitQueue.push, dif_pos hroom]
    refine .of_step (.einreihen u) trivial (if_pos hl₁) (.here ⟨⟨?_, ?_, ?_⟩, ?_⟩)
    · rw [hc]
      exact h₁.fertig
    · rw [htids]
      exact List.mem_append_left _ hmem
    · rw [hlage, update_of_ne htu, h₁.lage t htu, hl]
    · rw [htids, List.length_append, List.length_singleton]
      omega

end Completion.System

namespace WaitEvent.System

variable {s : System}

/-- Everybody in the queue is inside `wait_event` or `wait_event_timeout`. -/
def Sauber (s : System) : Prop := s.q.Sauber s.lage

/-- A thread that wakes has no entry left in the queue: whoever woke it took it out first. -/
def PopVorWecken (s : System) : Op → Prop
  | .park t => s.lage t = .vorPark → s.marke t = true → t ∉ s.q.tids
  | .fremdUnpark t => s.lage t = .schlaeft → t ∉ s.q.tids
  | _ => True

def InReihe (s : System) : Prop := s.q.InReihe s.lage

theorem lage_unpark (s : System) (t : Tid) : (s.unpark t).lage =
    update s.lage t (if s.lage t = .schlaeft then .vorPruefung else s.lage t) := by
  unfold unpark
  split
  · rfl
  · exact (update_eq_self t s.lage).symm

theorem lage_park (s : System) (t : Tid) :
    (s.park t).lage = update s.lage t (if s.marke t then .vorPruefung else .schlaeft) := by
  unfold park
  split <;> rfl

theorem pruefen_eq (s : System) (t : Tid) :
    (s.pruefen t).q = s.q ∧ (s.pruefen t).lage =
      update s.lage t (if s.cond t then .ausserhalb else .geprueft) := by
  unfold pruefen
  split <;> exact ⟨rfl, rfl⟩

theorem einreihen_eq (s : System) (t : Tid) :
    (s.einreihen t).q = (s.q.push t).2 ∧ (s.einreihen t).lage =
      update s.lage t (if (s.q.push t).1 then .vorPark else .ausserhalb) := by
  unfold einreihen
  rcases s.q.push t with ⟨eingereiht, q⟩
  cases eingereiht with
  | true | false => exact ⟨rfl, rfl⟩

theorem InReihe.wakeOne (h : s.InReihe) : s.wakeOne.InReihe := by
  unfold System.wakeOne
  rcases s.q.pop_cases with ⟨-, hpop⟩ | ⟨t, rest, htids, hsome, hrest⟩
  · rw [hpop]
    exact h
  · rcases hpop : s.q.pop with ⟨o, q'⟩
    rw [hpop] at hsome hrest
    subst hsome
    have hpopped : Geordnet (t :: rest) (Completion.Lage.platz ∘ s.lage) := htids ▸ h
    dsimp only at hrest ⊢
    rw [InReihe, WaitQueue.InReihe, unpark_q, lage_unpark, hrest, comp_update]
    exact hpopped.weckt _

theorem step_inReihe (s : System) (op : Op) (h : s.InReihe) (hok : s.PopVorWecken op) :
    ∃ s', s.step op = some s' ∧ s'.InReihe := by
  cases op with
  | setze t wahr => exact ⟨_, rfl, h⟩
  | wakeOne => exact ⟨_, rfl, h.wakeOne⟩
  | wakeAll =>
    refine ⟨_, rfl, .leer ?_ _⟩
    rw [wakeAll, foldl_unpark_q, s.q.wakeAll_tids.2]
  | waitEvent t | waitEventTimeout t =>
    exact guarded_step (fun ht => h.stelle (by simp [ht, Completion.Lage.platz])) h
  | fristUm t => exact guarded_step (fun _ => h.stelle fun _ _ => rfl) h
  | pruefen t =>
    refine guarded_step (fun ht => ?_) h
    rw [InReihe, (s.pruefen_eq t).1, (s.pruefen_eq t).2]
    exact h.stelle (by simp [ht, Completion.Lage.platz])
  | einreihen t =>
    refine guarded_step (fun ht => ?_) h
    rw [InReihe, (s.einreihen_eq t).1, (s.einreihen_eq t).2]
    exact h.einreihen ht
  | park t =>
    refine guarded_step (fun ht => ?_) h
    rw [InReihe, park_q, lage_park]
    exact h.park (hok ht)
  | austragen t => exact guarded_step (fun _ => h.austragen t) h
  | fremdUnpark t =>
    refine ⟨_, rfl, ?_⟩
    rw [InReihe, unpark_q, lage_unpark]
    exact h.unpark hok

theorem step_rest (s : System) (op : Op) (hnot : ¬ s.PopVorWecken op) :
    ∃ s', s.step op = some s' ∧ s'.q.Rest s'.lage := by
  cases op with
  | park t =>
    simp only [PopVorWecken, not_forall, Decidable.not_not] at hnot
    obtain ⟨ht, hm, hmem⟩ := hnot
    refine ⟨_, if_pos ht, ?_⟩
    rw [park_q, lage_park, if_pos hm]
    exact WaitQueue.rest_update hmem
  | fremdUnpark t =>
    simp only [PopVorWecken, not_forall, Decidable.not_not] at hnot
    obtain ⟨hl, hmem⟩ := hnot
    refine ⟨_, rfl, ?_⟩
    rw [unpark_q, lage_unpark, if_pos hl]
    exact WaitQueue.rest_update hmem
  | _ => exact absurd trivial hnot

/-- Once the condition holds, the call ends without a look at the queue. -/
theorem rest_leads (h : s.q.Rest s.lage) :
    Leads step PopVorWecken (fun s' => ¬ s'.Sauber) s := by
  obtain ⟨t, hmem, hl⟩ := h
  refine .of_step (.setze t true) trivial rfl ?_
  refine .of_step (.pruefen t) trivial (if_pos hl) (.here ?_)
  obtain ⟨hq, hlage⟩ := pruefen_eq { s with cond := update s.cond t true } t
  rw [Sauber, hq, hlage, if_pos (update_self ..)]
  exact WaitQueue.not_sauber_verlassen hmem

end WaitEvent.System

/-- For every sequence of steps of any threads around a mutex, a `Completion` and an event,
wake-ups from elsewhere and deadlines included: only threads inside a call are in its queue, at
every moment and however the threads go on from there, exactly if no thread wakes while its own
entry is still in the queue. -/
theorem run_sauber_iff (ops : List Op) (opsC : List Completion.Op) (opsE : List WaitEvent.Op) :
    ((∀ xs, xs <+: ops → ∃ s, run System.step System.neu xs = some s ∧
        Stays System.step System.PopVorWecken System.Sauber s) ↔
      Admissible System.step System.PopVorWecken System.neu ops) ∧
    ((∀ xs, xs <+: opsC → ∃ s, run Completion.System.step Completion.System.neu xs = some s ∧
        Stays Completion.System.step Completion.System.PopVorWecken Completion.System.Sauber s) ↔
      Admissible Completion.System.step Completion.System.PopVorWecken Completion.System.neu
        opsC) ∧
    ((∀ xs, xs <+: opsE → ∃ s, run WaitEvent.System.step WaitEvent.System.neu xs = some s ∧
        Stays WaitEvent.System.step WaitEvent.System.PopVorWecken WaitEvent.System.Sauber s) ↔
      Admissible WaitEvent.System.step WaitEvent.System.PopVorWecken WaitEvent.System.neu
        opsE) := by
  have hneu : System.neu.InReihe := .leer _
  have hneuC : Completion.System.neu.InReihe := Geordnet.leer _
  have hneuE : WaitEvent.System.neu.InReihe := Geordnet.leer _
  refine ⟨?_, ?_, ?_⟩
  · exact forall_prefix_stays_iff_admissible (fun _ h => System.InReihe.sauber h)
      System.step_inReihe System.step_rest (fun _ => System.rest_leads) hneu ops
  · exact forall_prefix_stays_iff_admissible (fun _ h => WaitQueue.InReihe.sauber h)
      Completion.System.step_inReihe Completion.System.step_rest
      (fun _ => Completion.System.rest_leads) hneuC opsC
  · exact forall_prefix_stays_iff_admissible (fun _ h => WaitQueue.InReihe.sauber h)
      WaitEvent.System.step_inReihe WaitEvent.System.step_rest
      (fun _ => WaitEvent.System.rest_leads) hneuE opsE

/-- Thread 1 gets a mark from elsewhere, goes on without being taken out of the queue, and
returns with success; its entry stays in the queue.  This happens to each of the five calls. -/
theorem fremde_marke_laesst_eintrag :
    (∃ s, run WaitEvent.System.step WaitEvent.System.neu [.waitEvent 1, .pruefen 1, .einreihen 1,
        .fremdUnpark 1, .park 1, .setze 1 true, .pruefen 1] = some s ∧
      s.lage 1 = .ausserhalb ∧ 1 ∈ s.q.tids) ∧
    (∃ s, run WaitEvent.System.step WaitEvent.System.neu [.waitEventTimeout 1, .pruefen 1,
        .einreihen 1, .fremdUnpark 1, .park 1, .setze 1 true, .pruefen 1] = some s ∧
      s.lage 1 = .ausserhalb ∧ 1 ∈ s.q.tids) ∧
    (∃ s, run Completion.System.step Completion.System.neu [.warten 1, .pruefen 1, .complete,
        .einreihen 1, .fremdUnpark 1, .park 1, .pruefen 1] = some s ∧
      s.lage 1 = .ausserhalb ∧ 1 ∈ s.completion.warten.tids) ∧
    (∃ s, run Completion.System.step Completion.System.neu [.wartenTimeout 1, .pruefen 1,
        .complete, .einreihen 1, .fremdUnpark 1, .park 1, .pruefen 1] = some s ∧
      s.lage 1 = .ausserhalb ∧ 1 ∈ s.completion.warten.tids) ∧
    ∃ s, run System.step System.neu [.tryLock 2, .lockSchritt 3, .park 3, .lockSchritt 1,
        .fremdUnpark 1, .park 1, .unlock 2, .lockSchritt 1] = some s ∧
      s.mutex.inhaber = 1 ∧ s.lage 1 = .ausserhalb ∧ 1 ∈ s.mutex.warten.tids :=
  ⟨⟨_, rfl, by decide, by decide⟩, ⟨_, rfl, by decide, by decide⟩,
    ⟨_, rfl, by decide, by decide⟩, ⟨_, rfl, by decide, by decide⟩,
    ⟨_, rfl, by decide, by decide, by decide⟩⟩

end Caprock.Wait
