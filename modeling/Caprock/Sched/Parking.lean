import Caprock.Sched.Pointwise

/-! # Reasons and wake marks

Park and load requests look at two things of a thread: why it may not run, and whether a wake mark
is left.  What the scheduler does to these two is said here thread by thread; the ready lists do
not matter for it.
-/

namespace Caprock.Sched

/-- A thread as park and load requests see it. -/
structure Faden where
  reasons : BlockReasons
  parkWake : Bool
  deriving DecidableEq

def Tcb.faden (t : Tcb) : Faden := ⟨t.reasons, t.parkWake⟩

namespace Faden

def anhalten (t : Faden) (g : Grund) : Faden := { t with reasons := insert g t.reasons }

def aufheben (t : Faden) (g : Grund) : Faden := { t with reasons := t.reasons.erase g }

def parkCurrent (t : Faden) : Faden :=
  if t.parkWake then { t with parkWake := false } else t.anhalten .park

def unpark (t : Faden) : Faden :=
  if Grund.park ∈ t.reasons then { t.aufheben .park with parkWake := false }
  else { t with parkWake := true }

variable {t : Faden} {g r : Grund}

theorem mem_anhalten : r ∈ (t.anhalten g).reasons ↔ r = g ∨ r ∈ t.reasons := Finset.mem_insert

theorem mem_aufheben : r ∈ (t.aufheben g).reasons ↔ r ≠ g ∧ r ∈ t.reasons := Finset.mem_erase

theorem mem_anhalten_of_ne (h : r ≠ g) : r ∈ (t.anhalten g).reasons ↔ r ∈ t.reasons := by
  simp [mem_anhalten, h]

theorem mem_aufheben_of_ne (h : r ≠ g) : r ∈ (t.aufheben g).reasons ↔ r ∈ t.reasons := by
  simp [mem_aufheben, h]

theorem mem_parkCurrent_of_ne (h : r ≠ .park) : r ∈ t.parkCurrent.reasons ↔ r ∈ t.reasons := by
  unfold parkCurrent
  split
  · rfl
  · exact mem_anhalten_of_ne h

theorem mem_unpark_of_ne (h : r ≠ .park) : r ∈ t.unpark.reasons ↔ r ∈ t.reasons := by
  unfold unpark
  split
  · exact mem_aufheben_of_ne h
  · rfl

end Faden

namespace Scheduler

variable {s s' : Scheduler} {v : Verzeichnis} {i x : Nat} {g : Grund} {tid : ThreadId}

theorem faden_of_daten (h : s'.daten x = s.daten x) : (s'.tcb x).faden = (s.tcb x).faden := by
  have hreasons : (s'.tcb x).reasons = (s.tcb x).reasons := (congrArg Tcb.reasons h :)
  have hmark : (s'.tcb x).parkWake = (s.tcb x).parkWake := (congrArg Tcb.parkWake h :)
  rw [Tcb.faden, Tcb.faden, hreasons, hmark]

theorem faden_modifyTcb (s : Scheduler) (i x : Nat) (f : Tcb → Tcb) :
    ((s.modifyTcb i f).tcb x).faden = if x = i then (f (s.tcb x)).faden else (s.tcb x).faden := by
  rw [tcb_modifyTcb]
  by_cases hx : x = i
  · rw [if_pos hx, if_pos hx, hx]
  · rw [if_neg hx, if_neg hx]

theorem faden_of_queued {q : Option Nat}
    (h : ∀ x, s'.daten x = if x = i then (s.daten i).mitQueued q else s.daten x) (x : Nat) :
    (s'.tcb x).faden = (s.tcb x).faden := by
  have hx := h x
  by_cases heq : x = i
  · subst heq
    rw [if_pos rfl] at hx
    have hreasons : (s'.tcb x).reasons = (s.tcb x).reasons := (congrArg Tcb.reasons hx :)
    have hmark : (s'.tcb x).parkWake = (s.tcb x).parkWake := (congrArg Tcb.parkWake hx :)
    rw [Tcb.faden, Tcb.faden, hreasons, hmark]
  · rw [if_neg heq] at hx
    exact faden_of_daten hx

theorem faden_weckeFallsLauffaehig (h : s.weckeFallsLauffaehig i = some s') (x : Nat) :
    (s'.tcb x).faden = (s.tcb x).faden := by
  unfold weckeFallsLauffaehig at h
  split at h
  · obtain ⟨p, hp⟩ := daten_enqueueReady h
    exact faden_of_queued hp x
  · cases h
    rfl

theorem faden_wechseln {sp : Nat} (h : s.wechseln = some (sp, s')) (x : Nat) :
    (s'.tcb x).faden = (s.tcb x).faden := by
  obtain ⟨n, -, rfl⟩ := wechseln_cases h
  exact faden_of_queued (daten_removeFromReady s n) x

theorem faden_blockCurrentMit {frame sp : Nat} (h : s.blockCurrentMit frame g = some (sp, s')) :
    ∃ cur, s.current = some cur ∧ ∀ x, (s'.tcb x).faden =
      if x = cur then (s.tcb x).faden.anhalten g else (s.tcb x).faden := by
  obtain ⟨cur, hcur, hw⟩ := blockCurrentMit_cases h
  refine ⟨cur, hcur, fun x => ?_⟩
  rw [faden_wechseln hw, blockieren, insertReason, faden_modifyTcb]
  by_cases hx : x = cur
  · subst hx
    rw [if_pos rfl, if_pos rfl, setSp, tcb_modifyTcb, if_pos rfl]
    rfl
  · rw [if_neg hx, if_neg hx, setSp, faden_modifyTcb, if_neg hx]

/-- `park_current` of the running thread. -/
theorem faden_parkCurrent {frame : Nat} {r : Option Nat} (h : s.parkCurrent frame = some (r, s')) :
    ∃ cur, s.current = some cur ∧ ∀ x, (s'.tcb x).faden =
      if x = cur then (s.tcb x).faden.parkCurrent else (s.tcb x).faden := by
  unfold parkCurrent at h
  cases hcur : s.current with
  | none => simp [hcur] at h
  | some cur =>
    rw [hcur] at h
    dsimp only at h
    refine ⟨cur, rfl, fun x => ?_⟩
    by_cases hmark : (s.tcb cur).parkWake = true
    · rw [if_pos hmark] at h
      cases h
      rw [setParkWake, faden_modifyTcb]
      by_cases hx : x = cur
      · subst hx
        rw [if_pos rfl, if_pos rfl]
        simp [Tcb.faden, Faden.parkCurrent, hmark]
      · rw [if_neg hx, if_neg hx]
    · rw [if_neg hmark] at h
      obtain ⟨r₁, hb, htuple⟩ := Option.map_eq_some_iff.mp h
      cases htuple
      obtain ⟨cur', hcur', hall⟩ := faden_blockCurrentMit hb
      obtain rfl : cur = cur' := Option.some.inj (hcur.symm.trans hcur')
      rw [hall x]
      by_cases hx : x = cur
      · subst hx
        rw [if_pos rfl, if_pos rfl]
        simp [Tcb.faden, Faden.parkCurrent, hmark]
      · rw [if_neg hx, if_neg hx]

theorem faden_grundAufheben (hi : s.resolve v tid = some i) {b : Bool}
    (h : s.grundAufheben v tid g = some (b, s')) :
    b = true ∧ ∀ x, (s'.tcb x).faden =
      if x = i then (s.tcb x).faden.aufheben g else (s.tcb x).faden := by
  unfold grundAufheben at h
  rw [hi] at h
  obtain ⟨s₁, hw, htuple⟩ := Option.map_eq_some_iff.mp h
  cases htuple
  refine ⟨rfl, fun x => ?_⟩
  rw [faden_weckeFallsLauffaehig hw, removeReason, faden_modifyTcb]
  rfl

/-- `unpark` of a thread on this core. -/
theorem faden_unpark (hi : s.resolve v tid = some i) {b : Bool}
    (h : s.unpark v tid = some (b, s')) :
    b = true ∧ ∀ x, (s'.tcb x).faden = if x = i then (s.tcb x).faden.unpark else (s.tcb x).faden := by
  unfold unpark at h
  rw [hi] at h
  dsimp only at h
  have hreasons : ((s.setParkWake i true).tcb i).reasons = (s.tcb i).reasons := by
    rw [setParkWake, tcb_modifyTcb, if_pos rfl]
  rw [hreasons] at h
  by_cases hpark : Grund.park ∈ (s.tcb i).reasons
  · rw [if_pos hpark] at h
    obtain ⟨s₁, hw, htuple⟩ := Option.map_eq_some_iff.mp h
    cases htuple
    refine ⟨rfl, fun x => ?_⟩
    rw [faden_weckeFallsLauffaehig hw, removeReason, faden_modifyTcb]
    by_cases hx : x = i
    · subst hx
      rw [if_pos rfl, if_pos rfl, setParkWake, tcb_modifyTcb, if_pos rfl, setParkWake,
        tcb_modifyTcb, if_pos rfl]
      simp [Tcb.faden, Faden.unpark, Faden.aufheben, hpark]
    · rw [if_neg hx, if_neg hx, setParkWake, faden_modifyTcb, if_neg hx, setParkWake,
        faden_modifyTcb, if_neg hx]
  · rw [if_neg hpark] at h
    cases h
    refine ⟨rfl, fun x => ?_⟩
    rw [setParkWake, faden_modifyTcb]
    by_cases hx : x = i
    · subst hx
      rw [if_pos rfl, if_pos rfl]
      simp [Tcb.faden, Faden.unpark, hpark]
    · rw [if_neg hx, if_neg hx]

end Scheduler

end Caprock.Sched
