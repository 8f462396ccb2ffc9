import Mathlib.Algebra.Group.Nat.Defs
import Caprock.Sched.Deadline
import Caprock.Sched.Reachable

/-! # Calls with a deadline

`PARK_TIMEOUT`, `CALL_TIMEOUT` and `WAIT` arm the deadline of the calling thread before it is
known whether the call will block, and nobody disarms it when the call completes.  The
scan of a later tick looks only at the reason the deadline guards.

A run is any sequence of scheduler operations, together with the points at which a running thread
enters a call and the arming of deadlines.  `eigen` records for every thread whether its deadline
was armed by the call it is in.
-/

namespace Caprock.Sched

open Execution Scheduler Function

/-- The calls that leave a thread waiting, or arm a deadline. -/
def Aufruf.Wartet : Aufruf → Bool
  | .blockCurrent _ | .parkCurrent _ | .switchTo _ _ | .fristSetzen _ _ => true
  | _ => false

/-- The operations that put the running thread of a core to wait, with the reason. -/
def Op.blockiert : Op → Option (Nat × Grund)
  | .aufruf c (.blockCurrent _) | .aufruf c (.switchTo _ _) => some (c, .ipc)
  | .aufruf c (.parkCurrent _) => some (c, .park)
  | _ => none

def Op.ArmiertFrist : Op → Bool
  | .aufruf _ (.fristSetzen _ _) => true
  | _ => false

theorem Scheduler.milde_aufruf {s s' : Scheduler} {v : Verzeichnis} {a : Aufruf}
    (ha : a.Wartet = false) (h : s.aufruf v a = some s') : Milde s s' := by
  have hR := duldet_sanft
  cases a with
  | fristLoeschen tid =>
    cases h
    exact Milde.fristLoeschen s v tid
  | fristenFaellig outLen =>
    obtain ⟨out, h⟩ := map_snd_eq_some h
    exact Milde.fristenFaellig h
  | blockCurrent frame | parkCurrent frame | switchTo frame target | fristSetzen ticks grund =>
    cases ha
  | blockForHandler frame | blockForLoad frame | pause tid | markHandlerWait tid | debugStop tid
  | freezeGroup tid => exact hR.aufruf h (by decide : ¬ Grund.Wartegrund _)
  | unpark tid => exact hR.aufruf h ⟨trivial, Milde.setParkWake⟩
  | onTick frame tick | setBudget tid budget period => exact hR.aufruf h duldsam_sanft.konten
  | endDonation => exact hR.aufruf h duldsam_sanft.spenden
  | _ => exact hR.aufruf h trivial

/-- The system with a mark for every thread: was its deadline armed by the call it is in?  A thread
under way keeps its mark. -/
structure Wartende where
  system : System
  eigen : Nat → Nat → Bool
  unterwegs : List Bool

/-- `beginne`: the running thread of a core enters a call.  `frist` is `frist_setzen` in it. -/
inductive WarteOp where
  | beginne (core : Nat)
  | frist (core ticks : Nat) (grund : Grund)
  | sched (op : Op)

namespace Wartende

def init (a : Ausbau) : Wartende := ⟨System.init a, fun _ _ => false, []⟩

def merke (F : Wartende) (c i : Nat) (e : Bool) : Wartende :=
  { F with eigen := update F.eigen c (update (F.eigen c) i e) }

def mitnehmen (F : Wartende) : Op → Wartende
  | .detachForMigration c tid =>
      match (F.system.cores c).resolve F.system.verzeichnis tid,
          (F.system.cores c).detachForMigration F.system.verzeichnis tid with
      | some i, some _ => { F with unterwegs := F.unterwegs ++ [F.eigen c i] }
      | _, _ => F
  | .attachMigrated c k =>
      match F.unterwegs[k]?, (F.system.cores c).free.alloc with
      | some e, some (i, _) => { F.merke c i e with unterwegs := F.unterwegs.eraseIdx k }
      | _, _ => F
  | _ => F

/-- Deadlines are armed by calls only, and only for what a call waits for. -/
def step (F : Wartende) : WarteOp → Option Wartende
  | .beginne c => (F.system.cores c).current.map fun cur => F.merke c cur false
  | .frist c ticks grund =>
      if grund.Wartegrund then
        (F.system.cores c).current.bind fun cur =>
          (F.system.step (.aufruf c (.fristSetzen ticks grund))).map fun S =>
            { F.merke c cur true with system := S }
      else none
  | .sched op =>
      if op.ArmiertFrist then none
      else (F.system.step op).map fun S => { F.mitnehmen op with system := S }

/-- The deadline part of a call: armed before the call may block, unless it has none. -/
def fristen (core ticks : Nat) (grund : Grund) : List WarteOp :=
  if ticks = 0 then [] else [.frist core ticks grund]

/-- `PARK_TIMEOUT`; without a deadline it is `PARK`. -/
def park (core ticks frame : Nat) : List WarteOp :=
  .beginne core :: fristen core ticks .park ++ [.sched (.aufruf core (.parkCurrent frame))]

/-- `CALL_TIMEOUT` and `WAIT`, and without a deadline `CALL` and `RECV`.  What the endpoint or the
notification then has the scheduler do is `weg`: block the caller, hand over to the server, wake
somebody, or nothing. -/
def warten (core ticks : Nat) (weg : List Op) : List WarteOp :=
  .beginne core :: fristen core ticks .ipc ++ weg.map .sched

def tick (core frame outLen : Nat) : List WarteOp :=
  [.sched (.aufruf core (.onTick frame true)), .sched (.aufruf core (.fristenFaellig outLen))]

/-- If the scan ends a wait, the deadline was armed by the call the thread is in; and only threads
whose wait was ended are reported. -/
def KeinFremdesEnde (F : Wartende) (op : WarteOp) : Prop :=
  ∀ c outLen out s', op = .sched (.aufruf c (.fristenFaellig outLen)) →
    (F.system.cores c).fristenFaellig outLen = some (out, s') →
    (∀ x, Beendet (F.system.cores c) s' x → F.eigen c x = true) ∧
      ∀ tid ∈ out, ∃ x, (F.system.cores c).id x = tid ∧ Beendet (F.system.cores c) s' x

/-- No deadline of an earlier call of the thread in slot `i` is armed for reason `g`. -/
def OhneRest (F : Wartende) (c i : Nat) (g : Grund) : Prop :=
  ((F.system.cores c).tcb i).frist = 0 ∨ ((F.system.cores c).tcb i).fristGrund ≠ some g ∨
    F.eigen c i = true

/-- The running thread of core `c` may block for `g`: a park whose mark is set returns at once, and
otherwise no deadline of an earlier call is left for that reason. -/
def Erlaubt (F : Wartende) (c : Nat) (g : Grund) : Prop :=
  ∀ cur ∈ (F.system.cores c).current,
    g = .park ∧ ((F.system.cores c).tcb cur).parkWake = true ∨ F.OhneRest c cur g

def WarteOk (F : Wartende) : WarteOp → Prop
  | .beginne c => ∀ cur ∈ (F.system.cores c).current,
      ((F.system.cores c).tcb cur).fristGrundSteht = false
  | .frist .. => True
  | .sched op =>
      match op.blockiert with
      | none => True
      | some (c, g) => F.Erlaubt c g

instance (F : Wartende) (c i : Nat) (g : Grund) : Decidable (F.OhneRest c i g) :=
  inferInstanceAs (Decidable (_ ∨ _ ∨ _))

instance (F : Wartende) (c : Nat) (g : Grund) : Decidable (F.Erlaubt c g) :=
  inferInstanceAs (Decidable (∀ cur ∈ (F.system.cores c).current, _))

instance (F : Wartende) : ∀ op, Decidable (F.WarteOk op)
  | .beginne c => inferInstanceAs (Decidable (∀ cur ∈ (F.system.cores c).current, _))
  | .frist .. => isTrue trivial
  | .sched op =>
      match h : op.blockiert with
      | none => isTrue (by simp [WarteOk, h])
      | some (c, g) => decidable_of_iff (F.Erlaubt c g) (by simp [WarteOk, h])

end Wartende

def Eigen (e : Bool) (t : Tcb) : Prop :=
  t.frist ≠ 0 → ∃ g, t.fristGrund = some g ∧ g.Wartegrund ∧ (g ∈ t.reasons → e = true)

theorem Eigen.sanft {e : Bool} {t t' : Tcb} (h : Eigen e t) (hs : Sanft t t') : Eigen e t' := by
  intro hne
  obtain ⟨hfrist, hgrund, hreasons⟩ := hs hne
  obtain ⟨g, hg, hwarte, heigen⟩ := h (hfrist ▸ hne)
  exact ⟨g, hgrund.trans hg, hwarte, fun hmem => heigen (hreasons g hwarte hmem)⟩

theorem Eigen.entwaffnet (e : Bool) {t : Tcb} (h : t.frist = 0) : Eigen e t :=
  fun hne => absurd h hne

namespace Scheduler

/-- The marks `e` fit the table. -/
def Stimmt (e : Nat → Bool) (s : Scheduler) : Prop := ∀ x, Eigen (e x) (s.tcb x)

variable {e : Nat → Bool} {s s' : Scheduler} {v : Verzeichnis}

theorem Stimmt.milde (h : Stimmt e s) (hs : Milde s s') : Stimmt e s' := fun x => (h x).sanft (hs x)

theorem Stimmt.blockieren (h : Stimmt e s) {cur : Nat} {g : Grund} (frame : Nat)
    (hrest : (s.tcb cur).frist = 0 ∨ (s.tcb cur).fristGrund ≠ some g ∨ e cur = true) :
    Stimmt e (s.blockieren cur frame g) := by
  intro x
  have hsp := duldet_sanft.setSp s cur frame
  unfold Scheduler.blockieren insertReason
  rw [tcb_modifyTcb]
  split
  · next hx =>
    subst hx
    have hx := (h x).sanft (hsp x)
    have hfelder : ((s.setSp x frame).tcb x).frist = (s.tcb x).frist ∧
        ((s.setSp x frame).tcb x).fristGrund = (s.tcb x).fristGrund := by
      unfold setSp
      rw [tcb_modifyTcb, if_pos rfl]
      exact ⟨rfl, rfl⟩
    intro hne
    obtain ⟨g', hg', hwarte, heigen⟩ := hx hne
    refine ⟨g', hg', hwarte, fun hmem => ?_⟩
    rcases Finset.mem_insert.mp hmem with rfl | hold
    · rcases hrest with hzero | hgrund | hown
      · exact absurd (hfelder.1.trans hzero) hne
      · exact absurd (hfelder.2.symm.trans hg') hgrund
      · exact hown
    · exact heigen hold
  · exact (h x).sanft (hsp x)

theorem Stimmt.blockCurrentMit (h : Stimmt e s) {frame sp : Nat} {g : Grund}
    (hrest : ∀ cur, s.current = some cur →
      (s.tcb cur).frist = 0 ∨ (s.tcb cur).fristGrund ≠ some g ∨ e cur = true)
    (hb : s.blockCurrentMit frame g = some (sp, s')) : Stimmt e s' := by
  obtain ⟨cur, hcur, hw⟩ := blockCurrentMit_cases hb
  exact (h.blockieren frame (hrest cur hcur)).milde (duldet_sanft.wechseln hw)

theorem Stimmt.switchTo (h : Stimmt e s) {frame sp : Nat} {target : ThreadId}
    (hrest : ∀ cur, s.current = some cur →
      (s.tcb cur).frist = 0 ∨ (s.tcb cur).fristGrund ≠ some .ipc ∨ e cur = true)
    (hb : s.switchTo v frame target = some (sp, s')) : Stimmt e s' := by
  obtain ⟨cur, t, hcur, -, hcases⟩ := switchTo_cases hb
  have hzugestellt : Stimmt e (s.zugestellt cur frame t) :=
    (h.blockieren frame (hrest cur hcur)).milde (duldet_sanft.removeReason trivial _ t)
  rcases hcases with ⟨hw, -⟩ | ⟨-, account, rfl⟩
  · exact hzugestellt.milde (duldet_sanft.wechseln hw)
  · have hlauf := (duldet_sanft.removeFromReady (s.zugestellt cur frame t) t).trans
      (duldet_sanft.verleihen duldsam_sanft.spenden _ t account)
    exact hzugestellt.milde (hlauf.trans (Milde.of_tcbs rfl))

theorem Stimmt.parkCurrent (h : Stimmt e s) {frame : Nat} {r : Option Nat}
    (hrest : ∀ cur, s.current = some cur → (s.tcb cur).parkWake = true ∨
      (s.tcb cur).frist = 0 ∨ (s.tcb cur).fristGrund ≠ some .park ∨ e cur = true)
    (hb : s.parkCurrent frame = some (r, s')) : Stimmt e s' := by
  unfold Scheduler.parkCurrent at hb
  split at hb
  · cases hb
  · next cur hcur =>
    split at hb
    · cases hb
      exact h.milde (Milde.setParkWake s cur false)
    · next hwake =>
      obtain ⟨⟨sp, t⟩, hblock, htuple⟩ := Option.map_eq_some_iff.mp hb
      cases htuple
      refine h.blockCurrentMit (fun cur' hcur' => ?_) hblock
      cases (hcur.symm.trans hcur')
      exact (hrest cur hcur).resolve_left hwake

/-- Arming marks the deadline as the call's own. -/
theorem Stimmt.fristSetzen (h : Stimmt e s) {ticks cur : Nat} {g : Grund} (hg : g.Wartegrund)
    (hcur : s.current = some cur) (hb : s.fristSetzen ticks g = some s') :
    Stimmt (update e cur true) s' := by
  have hrest : ∀ d gr, ∀ x, x ≠ cur → Eigen (e x) ((s.setFrist cur d gr).tcb x) := by
    intro d gr x hx
    unfold setFrist
    rw [tcb_modifyTcb, if_neg hx]
    exact h x
  unfold Scheduler.fristSetzen at hb
  rw [hcur] at hb
  dsimp only at hb
  intro x
  split at hb
  · cases hb
    by_cases hx : x = cur
    · subst hx
      apply Eigen.entwaffnet
      unfold setFrist
      rw [tcb_modifyTcb, if_pos rfl]
    · rw [update_of_ne hx]
      exact hrest 0 none x hx
  · cases hb
    by_cases hx : x = cur
    · subst hx
      intro _
      refine ⟨g, ?_, hg, fun _ => update_self _ _ _⟩
      change ((s.setFrist x _ (some g)).tcb x).fristGrund = some g
      unfold setFrist
      rw [tcb_modifyTcb, if_pos rfl]
    · rw [update_of_ne hx]
      exact hrest _ (some g) x hx

theorem Stimmt.beginne (h : Stimmt e s) {cur : Nat} (hsteht : (s.tcb cur).fristGrundSteht = false) :
    Stimmt (update e cur false) s := by
  intro x
  by_cases hx : x = cur
  · subst hx
    intro hne
    obtain ⟨g, hg, hwarte, -⟩ := h x hne
    refine ⟨g, hg, hwarte, fun hmem => ?_⟩
    unfold Tcb.fristGrundSteht at hsteht
    rw [hg] at hsteht
    exact absurd hmem (of_decide_eq_false hsteht)
  · rw [update_of_ne hx]
    exact h x

theorem Stimmt.fristenFaellig (h : Stimmt e s) {outLen : Nat} {out : List ThreadId}
    (hb : s.fristenFaellig outLen = some (out, s')) {x : Nat} (hend : Beendet s s' x) :
    e x = true := by
  obtain ⟨-, ⟨-, -, hreasons⟩ | ⟨-, hreasons | ⟨hne, g, hg, hmem, -⟩⟩⟩ :=
    (fristenFaellig_spec hb).1 x
  · exact absurd hreasons hend
  · exact absurd hreasons hend
  · obtain ⟨g', hg', -, heigen⟩ := h x hne
    cases (hg.symm.trans hg')
    exact heigen hmem

end Scheduler

namespace Wartende

/-- The invariant of admissible runs. -/
structure Inv (F : Wartende) : Prop where
  gut : F.system.Gut
  core : ∀ c, Stimmt (F.eigen c) (F.system.cores c)
  laenge : F.unterwegs.length = F.system.migranten.length
  unterwegs : ∀ (k : Nat) (m : Migrant) (e : Bool), F.system.migranten[k]? = some m →
    F.unterwegs[k]? = some e → Eigen e m.tcb

variable {F F' : Wartende}

theorem init_inv (a : Ausbau) : (init a).Inv where
  gut := System.gut_init a
  core := fun _ _ => Eigen.entwaffnet _ rfl
  laenge := rfl
  unterwegs := fun _ _ _ hm => by cases hm

theorem Inv.core_update (h : F.Inv) (c : Nat) {s : Scheduler} {e : Nat → Bool} (hs : Stimmt e s)
    (d : Nat) : Stimmt (update F.eigen c e d) (update F.system.cores c s d) := by
  by_cases hd : d = c
  · subst hd
    rw [update_self, update_self]
    exact hs
  · rw [update_of_ne hd, update_of_ne hd]
    exact h.core d

theorem Inv.core_weiter (h : F.Inv) {c : Nat} {s : Scheduler} (hs : Stimmt (F.eigen c) s)
    (d : Nat) : Stimmt (F.eigen d) (update F.system.cores c s d) := by
  have hd := h.core_update c hs d
  rwa [update_eq_self] at hd

theorem Inv.weiter (h : F.Inv) {c : Nat} {s : Scheduler} (hs : Stimmt (F.eigen c) s)
    {S : System} (hgut : S.Gut) (hcores : S.cores = update F.system.cores c s)
    (hmig : S.migranten = F.system.migranten) : Inv { F with system := S } where
  gut := hgut
  core := fun d => by
    rw [hcores]
    exact h.core_weiter hs d
  laenge := by
    rw [hmig]
    exact h.laenge
  unterwegs := by
    rw [hmig]
    exact h.unterwegs

/-- Every scheduler call keeps the marks fitting; the blocking ones need their condition. -/
theorem aufruf_stimmt (h : F.Inv) {c : Nat} {a : Aufruf} {s : Scheduler}
    (ha : (Op.aufruf c a).ArmiertFrist = false) (hok : F.WarteOk (.sched (.aufruf c a)))
    (hcall : (F.system.cores c).aufruf F.system.verzeichnis a = some s) :
    Stimmt (F.eigen c) s := by
  by_cases hwartet : a.Wartet = false
  · exact (h.core c).milde (milde_aufruf hwartet hcall)
  · have hipc : F.Erlaubt c .ipc → ∀ cur, (F.system.cores c).current = some cur →
        F.OhneRest c cur .ipc :=
      fun hall cur hcur => (hall cur hcur).resolve_left fun hand => nomatch hand.1
    cases a with
    | blockCurrent frame =>
      obtain ⟨sp, hb⟩ := map_snd_eq_some hcall
      exact (h.core c).blockCurrentMit (hipc hok) hb
    | parkCurrent frame =>
      obtain ⟨r, hb⟩ := map_snd_eq_some hcall
      exact (h.core c).parkCurrent (fun cur hcur => (hok cur hcur).imp_left And.right) hb
    | switchTo frame target =>
      obtain ⟨sp, hb⟩ := map_snd_eq_some hcall
      exact (h.core c).switchTo (hipc hok) hb
    | fristSetzen ticks grund => cases ha
    | _ => exact absurd rfl hwartet

theorem detach_inv (h : F.Inv) {c : Nat} {tid : ThreadId} {S : System}
    (hstep : F.system.step (.detachForMigration c tid) = some S) :
    Inv { F.mitnehmen (.detachForMigration c tid) with system := S } := by
  have hgut := System.step_gut _ _ _ h.gut hstep
  unfold mitnehmen
  unfold System.step at hstep
  dsimp only at hstep ⊢
  split at hstep
  · next hnone =>
    cases hstep
    rw [hnone]
    split
    · next heq => cases heq
    · exact h
  · next m s hs =>
    cases hstep
    obtain ⟨i, n, ⟨hi, -⟩, hs', hm⟩ := detachForMigration_cases hs
    rw [hi, hs]
    have hlos : Milde (F.system.cores c) s := by
      rw [hs']
      exact ((duldet_sanft.removeFromReady _ i).trans (Milde.slotLeeren _ i)).trans (Milde.of_tcbs rfl)
    have hneu : Eigen (F.eigen c i) m.tcb := by
      rw [hm]
      have hready := (h.core c i).sanft (duldet_sanft.removeFromReady _ i i)
      exact hready.sanft (Sanft.gleich rfl rfl rfl)
    refine ⟨hgut, h.core_weiter ((h.core c).milde hlos), ?_, fun k m' e hm' he => ?_⟩
    · simp [h.laenge]
    · rcases Nat.lt_or_ge k F.system.migranten.length with hlt | hge
      · rw [List.getElem?_append_left hlt] at hm'
        rw [List.getElem?_append_left (h.laenge ▸ hlt)] at he
        exact h.unterwegs k m' e hm' he
      · rw [List.getElem?_append_right hge] at hm'
        rw [List.getElem?_append_right (h.laenge ▸ hge), h.laenge] at he
        have hk : k - F.system.migranten.length = 0 := by
          have hlt := (List.getElem?_eq_some_iff.mp hm').1
          simp only [List.length_singleton] at hlt
          omega
        rw [hk] at hm' he
        cases hm'
        cases he
        exact hneu

theorem attach_inv (h : F.Inv) {c k : Nat} {S : System}
    (hstep : F.system.step (.attachMigrated c k) = some S) :
    Inv { F.mitnehmen (.attachMigrated c k) with system := S } := by
  have hgut := System.step_gut _ _ _ h.gut hstep
  unfold mitnehmen
  unfold System.step at hstep
  dsimp only at hstep ⊢
  split at hstep
  · next hnone =>
    cases hstep
    have hkein : F.unterwegs[k]? = none := by
      rw [List.getElem?_eq_none_iff] at hnone ⊢
      rw [h.laenge]
      exact hnone
    rw [hkein]
    exact h
  · next m hm =>
    have hk : k < F.unterwegs.length := h.laenge ▸ (List.getElem?_eq_some_iff.mp hm).1
    have he : F.unterwegs[k]? = some F.unterwegs[k] := List.getElem?_eq_getElem hk
    have hneu := h.unterwegs k m _ hm he
    rw [he]
    split at hstep
    · cases hstep
    · next hfehler =>
      cases hstep
      rw [alloc_of_error hfehler]
      exact h
    · next s v hs =>
      cases hstep
      obtain ⟨i, s₁, hb, hcases⟩ := attachMigrated_cases hs (h.gut.2 m (List.mem_of_getElem? hm))
      obtain ⟨free, halloc, -⟩ := hb.free
      rw [halloc]
      have hbesetzt : Stimmt (update (F.eigen c) i F.unterwegs[k]) s₁ := by
        intro x
        rw [hb.tcb]
        split
        · next hx =>
          rw [hx, update_self]
          exact hneu.sanft (Sanft.gleich rfl rfl rfl)
        · next hx =>
          rw [update_of_ne hx]
          exact h.core c x
      have hstimmt : Stimmt (update (F.eigen c) i F.unterwegs[k]) s := by
        rcases hcases with ⟨-, he'⟩ | ⟨-, rfl⟩
        · exact hbesetzt.milde (duldet_sanft.enqueueReady he')
        · exact hbesetzt
      refine ⟨hgut, h.core_update c hstimmt, ?_, fun j m' e hm' he' => ?_⟩
      · dsimp only
        rw [List.length_eraseIdx, List.length_eraseIdx, h.laenge]
      · dsimp only at hm' he'
        rw [List.getElem?_eraseIdx] at hm' he'
        split at hm'
        · next hlt =>
          rw [if_pos hlt] at he'
          exact h.unterwegs j m' e hm' he'
        · next hlt =>
          rw [if_neg hlt] at he'
          exact h.unterwegs (j + 1) m' e hm' he'

theorem sched_inv (h : F.Inv) {op : Op} (ha : op.ArmiertFrist = false)
    (hok : F.WarteOk (.sched op)) {S : System} (hstep : F.system.step op = some S) :
    Inv { F.mitnehmen op with system := S } := by
  have hgut := System.step_gut _ _ _ h.gut hstep
  cases op with
  | aufruf c a =>
    obtain ⟨s, hs, rfl⟩ := Option.map_eq_some_iff.mp hstep
    exact h.weiter (aufruf_stimmt h ha hok hs) hgut rfl rfl
  | initCore c priority =>
    unfold System.step at hstep
    dsimp only at hstep
    split at hstep
    · cases hstep
      exact h
    · next hs =>
      cases hstep
      exact h.weiter ((h.core c).milde (Milde.initCore hs)) hgut rfl rfl
  | spawnParked c sp base len priority | spawnUserAtParked c sp base len priority =>
    cases hstep
    unfold System.erzeugt at hgut ⊢
    split
    · exact h
    · next hs =>
      rw [hs] at hgut
      exact h.weiter ((h.core c).milde (Milde.spawnParked hs)) hgut rfl rfl
  | spawn c sp base len priority =>
    obtain ⟨⟨r, s, v⟩, hs, rfl⟩ := Option.map_eq_some_iff.mp hstep
    exact h.weiter ((h.core c).milde (Milde.spawn hs)) hgut rfl rfl
  | exitCurrent c =>
    obtain ⟨⟨sp, s, v⟩, hs, rfl⟩ := Option.map_eq_some_iff.mp hstep
    exact h.weiter ((h.core c).milde (Milde.exitCurrent hs)) hgut rfl rfl
  | kill c tid =>
    obtain ⟨⟨b, s, v⟩, hs, rfl⟩ := Option.map_eq_some_iff.mp hstep
    exact h.weiter ((h.core c).milde (Milde.kill hs)) hgut rfl rfl
  | reap c =>
    unfold System.step at hstep
    dsimp only at hstep
    split at hstep
    · cases hstep
      exact h
    · next z s hs =>
      cases hstep
      exact h.weiter ((h.core c).milde (Milde.reap hs)) hgut rfl rfl
  | releaseGid k =>
    unfold System.step at hstep
    dsimp only at hstep
    split at hstep
    · cases hstep
      exact h
    · cases hstep
      exact ⟨hgut, h.core, h.laenge, h.unterwegs⟩
  | detachForMigration c tid => exact detach_inv h hstep
  | attachMigrated c k => exact attach_inv h hstep

theorem step_inv (h : F.Inv) {op : WarteOp} (hok : F.WarteOk op) (hstep : F.step op = some F') :
    F'.Inv := by
  cases op with
  | beginne c =>
    obtain ⟨cur, hcur, rfl⟩ := Option.map_eq_some_iff.mp hstep
    refine ⟨h.gut, fun d => ?_, h.laenge, h.unterwegs⟩
    have hd := h.core_update c ((h.core c).beginne (hok cur hcur)) d
    rwa [update_eq_self] at hd
  | frist c ticks grund =>
    simp only [step, Option.ite_none_right_eq_some] at hstep
    obtain ⟨hgrund, hstep⟩ := hstep
    obtain ⟨cur, hcur, hstep⟩ := Option.bind_eq_some_iff.mp hstep
    obtain ⟨S, hS, rfl⟩ := Option.map_eq_some_iff.mp hstep
    have hgut := System.step_gut _ _ _ h.gut hS
    obtain ⟨s, hs, rfl⟩ := Option.map_eq_some_iff.mp hS
    exact ⟨hgut, h.core_update c ((h.core c).fristSetzen hgrund hcur hs), h.laenge, h.unterwegs⟩
  | sched op =>
    simp only [step, Option.ite_none_left_eq_some] at hstep
    obtain ⟨ha, hstep⟩ := hstep
    obtain ⟨S, hS, rfl⟩ := Option.map_eq_some_iff.mp hstep
    exact sched_inv h (by simpa using ha) hok hS

/-- In every run whose steps all meet `WarteOk`, a deadline ends only the call that armed it. -/
theorem run_keinFremdesEnde (a : Ausbau) (ops : List WarteOp)
    (hops : Admissible step WarteOk (init a) ops) :
    ∀ xs op F, xs ++ [op] <+: ops → run step (init a) xs = some F → F.KeinFremdesEnde op := by
  intro xs op F hpre hrun
  have hxs : xs <+: ops := (List.prefix_append xs [op]).trans hpre
  have hinv : F.Inv :=
    run_invariant (fun F op F' h hok hstep => step_inv h hok hstep) (init_inv a)
      (hops.of_prefix hxs) hrun
  intro c outLen out s' _ hb
  exact ⟨fun x hend => (hinv.core c).fristenFaellig hb hend, (fristenFaellig_spec hb).2⟩

def einThread : List WarteOp :=
  [.sched (.initCore 0 0), .sched (.spawn 0 100 0 16 1), .sched (.aufruf 0 (.onTick 50 false))]

def befund (F : Wartende) : Option (List ThreadId × Bool × Bool) :=
  ((F.system.cores 0).fristenFaellig 16).map fun r =>
    (r.1, decide (Beendet (F.system.cores 0) r.2 1), F.eigen 0 1)

/-- `PARK_TIMEOUT` that sleeps until its own deadline. -/
theorem run_keinFremdesEnde_parkTimeout :
    ∃ F, run step (init ⟨2, 2, by decide⟩)
        (einThread ++ park 0 1 100 ++ [.sched (.aufruf 0 (.onTick 60 true))]) = some F ∧
      F.befund = some ([⟨1, 0⟩], true, true) ∧
      F.KeinFremdesEnde (.sched (.aufruf 0 (.fristenFaellig 16))) := by
  have hread : (run step (init ⟨2, 2, by decide⟩)
      (einThread ++ park 0 1 100 ++ [.sched (.aufruf 0 (.onTick 60 true))])).map befund =
      some (some ([⟨1, 0⟩], true, true)) := by
    decide +kernel
  have hops : Admissible step WarteOk (init ⟨2, 2, by decide⟩)
      (einThread ++ park 0 1 100 ++ tick 0 60 16) := by
    decide +kernel
  obtain ⟨F, hF, heq⟩ := Option.map_eq_some_iff.mp hread
  exact ⟨F, hF, heq, run_keinFremdesEnde _ _ hops _ _ F (List.prefix_refl _) hF⟩

/-- `UNPARK` came first, so that `PARK_TIMEOUT` returns at once; its deadline then ends a `PARK`
without one. -/
theorem run_stale_deadline_ends_park :
    ∃ F, run step (init ⟨2, 2, by decide⟩)
        (einThread ++ [.sched (.aufruf 0 (.unpark ⟨1, 0⟩))] ++ park 0 1 100 ++ park 0 0 100 ++
          [.sched (.aufruf 0 (.onTick 60 true))]) = some F ∧
      F.befund = some ([⟨1, 0⟩], true, false) ∧
      ¬ F.KeinFremdesEnde (.sched (.aufruf 0 (.fristenFaellig 16))) := by
  have hread : (run step (init ⟨2, 2, by decide⟩)
      (einThread ++ [.sched (.aufruf 0 (.unpark ⟨1, 0⟩))] ++ park 0 1 100 ++ park 0 0 100 ++
        [.sched (.aufruf 0 (.onTick 60 true))])).map befund =
      some (some ([⟨1, 0⟩], true, false)) := by
    decide +kernel
  obtain ⟨F, hF, heq⟩ := Option.map_eq_some_iff.mp hread
  refine ⟨F, hF, heq, fun hall => ?_⟩
  obtain ⟨⟨out, s'⟩, hscan, htuple⟩ := Option.map_eq_some_iff.mp heq
  simp only [Prod.mk.injEq, decide_eq_true_eq] at htuple
  obtain ⟨-, hend, hmarke⟩ := htuple
  rw [(hall 0 16 out s' rfl hscan).1 1 hend] at hmarke
  cases hmarke

end Wartende

end Caprock.Sched
