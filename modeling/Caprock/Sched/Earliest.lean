import Mathlib.Algebra.Group.Nat.Defs
import Caprock.Sched.Deadline
import Caprock.Sched.Frame
import Caprock.Sched.Laws

/-! # The next deadline

The scan for due deadlines is left out while the clock has not reached `naechsteFrist`, a
lower bound of the armed deadlines of the core that is kept lazily.  Arming lowers it, the
scan computes it anew, and whatever disarms leaves it alone.  A thread that arrives from
another core brings its deadline along and nobody lowers the bound; and a deadline that
saturates is not told from no deadline.  `FristTreu` is the condition on these two steps.
-/

namespace Caprock.Sched

open Execution

/-- The next deadline is one of the clock, and not later than `d`. -/
def Gedeckt (naechste d : Nat) : Prop := naechste ≤ d ∧ d < 2 ^ 64 - 1

def Tcb.armierung (t : Tcb) : Nat × Bool := (t.frist, t.used)

namespace Scheduler

def FristenGedeckt (s : Scheduler) : Prop :=
  ∀ x, (s.tcb x).frist ≠ 0 → (s.tcb x).used = true ∧ Gedeckt s.naechsteFrist (s.tcb x).frist

structure FristRuhe (s s' : Scheduler) : Prop where
  naechste : s'.naechsteFrist = s.naechsteFrist
  frist : ∀ x, (s'.tcb x).frist ≠ 0 → (s'.tcb x).frist = (s.tcb x).frist ∧
    (s'.tcb x).used = (s.tcb x).used

/-- The next deadline and who has one. -/
def fristbild (s : Scheduler) : Nat × (Nat → Nat × Bool) :=
  (s.naechsteFrist, fun x => (s.tcb x).armierung)

theorem fristbild_modifyTcb (s : Scheduler) (i : Nat) {f : Tcb → Tcb}
    (hf : ∀ t, (f t).armierung = t.armierung) : (s.modifyTcb i f).fristbild = s.fristbild :=
  Prod.ext rfl (funext fun x => feld_modifyTcb Tcb.armierung s i x hf)

theorem blind_fristbild : Blind fristbild := by
  refine .of_stand fun s s' hrumpf htcb => Prod.ext ?_ (funext fun x => ?_)
  · have hnaechste := congrArg naechsteFrist hrumpf
    exact hnaechste
  · have hx := congrArg Tcb.armierung (htcb x)
    exact hx

theorem spendenBlind_fristbild : SpendenBlind fristbild :=
  ⟨fun s i _ => fristbild_modifyTcb s i fun _ => rfl,
    fun s i _ => fristbild_modifyTcb s i fun _ => rfl⟩

theorem kontenBlind_fristbild : KontenBlind fristbild := by
  refine ⟨fun s i f hf => fristbild_modifyTcb s i fun t => ?_, fun _ _ _ _ _ => rfl⟩
  have ht := congrArg Tcb.armierung (hf t)
  exact ht

variable {s s' s'' : Scheduler} {v v' : Verzeichnis}

namespace FristRuhe

theorem refl (s : Scheduler) : FristRuhe s s := ⟨rfl, fun _ _ => ⟨rfl, rfl⟩⟩

theorem trans (h : FristRuhe s s') (h' : FristRuhe s' s'') : FristRuhe s s'' := by
  refine ⟨h'.naechste.trans h.naechste, fun x hx => ?_⟩
  obtain ⟨hfrist', hused'⟩ := h'.frist x hx
  obtain ⟨hfrist, hused⟩ := h.frist x (hfrist' ▸ hx)
  exact ⟨hfrist'.trans hfrist, hused'.trans hused⟩

theorem of_fristbild (h : s'.fristbild = s.fristbild) : FristRuhe s s' :=
  ⟨congrArg Prod.fst h, fun x _ => Prod.mk.inj (congrFun (congrArg Prod.snd h) x)⟩

theorem gedeckt (h : FristRuhe s s') (hs : s.FristenGedeckt) : s'.FristenGedeckt := by
  intro x hx
  obtain ⟨hfrist, hused⟩ := h.frist x hx
  rw [hfrist, hused, h.naechste]
  exact hs x (hfrist ▸ hx)

theorem wechseln {sp : Nat} (h : s.wechseln = some (sp, s')) : FristRuhe s s' :=
  of_fristbild (blind_fristbild.wechseln h)

theorem enqueueReady {i : Nat} (h : s.enqueueReady i = some s') : FristRuhe s s' :=
  of_fristbild (blind_fristbild.enqueueReady h)

theorem removeFromReady (s : Scheduler) (i : Nat) : FristRuhe s (s.removeFromReady i) :=
  of_fristbild (blind_fristbild.removeFromReady s i)

theorem fristEntwaffnen (s : Scheduler) (i : Nat) : FristRuhe s (s.fristEntwaffnen i) := by
  refine ⟨rfl, fun x hx => ?_⟩
  unfold Scheduler.fristEntwaffnen setFrist at hx ⊢
  rw [tcb_modifyTcb] at hx ⊢
  split at hx
  · exact absurd rfl hx
  · next hne => rw [if_neg hne]; exact ⟨rfl, rfl⟩

theorem fristLoeschen (s : Scheduler) (v : Verzeichnis) (tid : ThreadId) :
    FristRuhe s (s.fristLoeschen v tid) := by
  unfold Scheduler.fristLoeschen
  split
  · exact refl s
  · next i hi => exact fristEntwaffnen s i

theorem aufruf {a : Aufruf} (h : s.aufruf v a = some s') (ha : a.Fristlos) : FristRuhe s s' :=
  of_fristbild
    (blind_fristbild.aufruf_of_fristlos spendenBlind_fristbild kontenBlind_fristbild h ha)

theorem set {i : Nat} {t : Tcb} (ht : t.frist = 0) (htcbs : s'.tcbs = s.tcbs.set i t)
    (hnaechste : s'.naechsteFrist = s.naechsteFrist) : FristRuhe s s' := by
  refine ⟨hnaechste, fun x hx => ?_⟩
  unfold tcb at hx ⊢
  rw [htcbs, Slab.set_cell] at hx ⊢
  split at hx
  · exact absurd ht hx
  · next hne => rw [if_neg hne]; exact ⟨rfl, rfl⟩

theorem recordZombie {i : Nat} (h : s.recordZombie v i = some (s', v')) : FristRuhe s s' := by
  obtain ⟨s₁, z, hrun, rfl⟩ := recordZombie_cases h
  have hloose : FristRuhe s ((s₁.doneeAustragen i).removeFromReady i) :=
    of_fristbild (blind_fristbild.abloesen spendenBlind_fristbild hrun)
  have hclear : FristRuhe ((s₁.doneeAustragen i).removeFromReady i)
      (((s₁.doneeAustragen i).removeFromReady i).slotLeeren i) :=
    set (t := Tcb.empty) rfl rfl rfl
  refine (hloose.trans hclear).trans (of_fristbild ?_)
  unfold zombieAblegen
  split <;> rfl

theorem exitCurrent {sp : Nat} (h : s.exitCurrent v = some (sp, s', v')) : FristRuhe s s' := by
  obtain ⟨cur, s₁, -, hzombie, hw⟩ := exitCurrent_cases h
  exact (recordZombie hzombie).trans (wechseln hw)

theorem kill {tid : ThreadId} {b : Bool} (h : s.kill v tid = some (b, s', v')) :
    FristRuhe s s' := by
  rcases kill_cases h with rfl | ⟨i, -, -, hz⟩
  · exact refl s'
  · exact (removeFromReady s i).trans (recordZombie hz)

theorem reap {z : Zombie} (h : s.reap = some (z, s')) : FristRuhe s s' := by
  obtain ⟨-, -, rfl⟩ := reap_eq_some h
  exact of_fristbild rfl

theorem zugang {i : Nat} {t : Tcb} (hz : Zugang s s' i t) : FristRuhe s s' := by
  obtain ⟨free, -, ⟨gid, gen, sp, priority, base, len, rfl⟩, rfl⟩ := hz
  exact set (t := { Tcb.neu gid gen sp priority with stackBase := base, stackLen := len }) rfl rfl rfl

theorem initCore {priority i : Nat} (h : s.initCore v priority = some (i, s', v')) :
    FristRuhe s s' := by
  obtain ⟨t, s₁, hz, rfl⟩ := initCore_cases h
  exact (zugang hz).trans (of_fristbild rfl)

theorem spawnParked {sp base len priority i : Nat}
    (h : s.spawnParked v sp base len priority = some (i, s', v')) : FristRuhe s s' := by
  obtain ⟨t, hz, -⟩ := spawnParked_cases h
  exact zugang hz

theorem spawn {sp base len priority : Nat} {r : Option ThreadId}
    (h : s.spawn v sp base len priority = some (r, s', v')) : FristRuhe s s' := by
  rcases spawn_eq_some h with ⟨rfl, -⟩ | ⟨i, s₁, b, hparked, -, hadmit⟩
  · exact refl _
  · exact (spawnParked hparked).trans (of_fristbild (blind_fristbild.admitThread hadmit))

theorem detachForMigration {tid : ThreadId} {m : Migrant}
    (h : s.detachForMigration v tid = some (m, s')) :
    FristRuhe s s' ∧ ∃ i, m.tcb.frist = (s.tcb i).frist := by
  obtain ⟨i, n, -, rfl, rfl⟩ := detachForMigration_cases h
  have hclear : FristRuhe (s.removeFromReady i)
      { (s.removeFromReady i).slotLeeren i with migrationsOut := n } :=
    set (t := Tcb.empty) rfl rfl rfl
  refine ⟨(removeFromReady s i).trans hclear, i, ?_⟩
  have hframe := congrFun (congrArg Prod.snd (blind_fristbild.removeFromReady s i)) i
  exact congrArg Prod.fst hframe

end FristRuhe

theorem gedeckt_fristSetzen {ticks : Nat} {g : Grund} (hs : s.FristenGedeckt) (hlauf : s.Laufend)
    (hok : ticks ≠ 0 → s.now + ticks < 2 ^ 64 - 1) (h : s.fristSetzen ticks g = some s') :
    s'.FristenGedeckt := by
  unfold fristSetzen at h
  split at h
  · cases h
  · next cur hcur =>
    split at h
    · cases h
      exact (FristRuhe.fristEntwaffnen s cur).gedeckt hs
    · next hticks =>
      cases h
      have hsmall := hok hticks
      intro x hx
      have htcb := tcb_modifyTcb s cur x fun t =>
        { t with frist := min (s.now + ticks) (2 ^ 64 - 1), fristGrund := some g }
      show ((s.setFrist cur _ _).tcb x).used = true ∧
        Gedeckt (min (min (s.now + ticks) (2 ^ 64 - 1)) s.naechsteFrist) ((s.setFrist cur _ _).tcb x).frist
      change ((s.setFrist cur _ _).tcb x).frist ≠ 0 at hx
      unfold setFrist at hx ⊢
      rw [htcb] at hx ⊢
      unfold Gedeckt
      split
      · next hxc =>
        refine ⟨hlauf cur hcur, ?_, ?_⟩
        · exact Nat.min_le_left _ _
        · show min (s.now + ticks) (2 ^ 64 - 1) < 2 ^ 64 - 1
          omega
      · next hxc =>
        rw [if_neg hxc] at hx
        obtain ⟨hused, hle, hlt⟩ := hs x hx
        exact ⟨hused, Nat.le_trans (Nat.min_le_right _ _) hle, hlt⟩

section

variable {l l' : FristLauf} {outLen k : Nat}

theorem FristRuhe.fristFreigeben {i : Nat} {g : Grund} (hg : (s.tcb i).fristGrund = some g)
    (h : s.fristFreigeben i g = some s') : FristRuhe s s' ∧ (s'.tcb i).frist = 0 := by
  have hself := congrArg Tcb.frist (wirkt_fristFreigeben hg h).slot
  refine ⟨?_, hself⟩
  unfold Scheduler.fristFreigeben at h
  dsimp only at h
  have hfree : FristRuhe s ((s.fristEntwaffnen i).removeReason i g) :=
    (fristEntwaffnen s i).trans (of_fristbild (fristbild_modifyTcb _ i fun _ => rfl))
  split at h
  · exact hfree.trans (enqueueReady h)
  · cases h
    exact hfree

/-- One slot of the scan: nothing is armed, and what stays armed there is not before the next
deadline found so far. -/
theorem fristSchritt_naechste (h : fristSchritt outLen l k = some l') :
    FristRuhe l.sched l'.sched ∧ l'.naechste ≤ l.naechste ∧
      ((l'.sched.tcb k).used = true → (l'.sched.tcb k).frist ≠ 0 →
        l'.naechste ≤ (l'.sched.tcb k).frist) := by
  have hdisarmed : ((l.sched.fristEntwaffnen k).tcb k).frist = 0 := by
    unfold fristEntwaffnen setFrist
    rw [tcb_modifyTcb, if_pos rfl]
  have hdisarm := FristRuhe.fristEntwaffnen l.sched k
  unfold fristSchritt at h
  dsimp only at h
  split at h
  · next hidle =>
    cases h
    refine ⟨FristRuhe.refl _, Nat.le_refl _, fun hused hfrist => ?_⟩
    rcases hidle with hunused | hzero
    · rw [hunused] at hused
      cases hused
    · exact absurd hzero hfrist
  · split at h
    · cases h
      exact ⟨FristRuhe.refl _, Nat.min_le_right _ _, fun _ _ => Nat.min_le_left _ _⟩
    · cases h
      exact ⟨FristRuhe.of_fristbild rfl, Nat.min_le_right _ _, fun _ _ => Nat.min_le_left _ _⟩
    · cases h
      exact ⟨hdisarm, Nat.le_refl _, fun _ hfrist => absurd hdisarmed hfrist⟩
    · split at h
      · cases h
        exact ⟨hdisarm, Nat.le_refl _, fun _ hfrist => absurd hdisarmed hfrist⟩
      · next g hg =>
        obtain ⟨s₁, hf, rfl⟩ := Option.map_eq_some_iff.mp h
        obtain ⟨hruhe, hzero⟩ := FristRuhe.fristFreigeben hg hf
        exact ⟨hruhe, Nat.le_refl _, fun _ hfrist => absurd hzero hfrist⟩

/-- The scan at slot `k`: what is armed below it is not before the next deadline found. -/
structure FristSuche (s₀ : Scheduler) (k : Nat) (l : FristLauf) : Prop where
  ruhe : FristRuhe s₀ l.sched
  vorne : ∀ x, x < k → (l.sched.tcb x).used = true → (l.sched.tcb x).frist ≠ 0 →
    l.naechste ≤ (l.sched.tcb x).frist

theorem FristSuche.schritt (hl : FristSuche s k l) (h : fristSchritt outLen l k = some l') :
    FristSuche s (k + 1) l' := by
  obtain ⟨hruhe, hnaechste, hself⟩ := fristSchritt_naechste h
  refine ⟨hl.ruhe.trans hruhe, fun x hx hused hfrist => ?_⟩
  by_cases hxk : x = k
  · subst hxk
    exact hself hused hfrist
  · obtain ⟨hold, hsame⟩ := hruhe.frist x hfrist
    rw [hold] at hfrist ⊢
    rw [hsame] at hused
    exact Nat.le_trans hnaechste (hl.vorne x (by omega) hused hfrist)

theorem gedeckt_fristenFaellig {out : List ThreadId} (hs : s.FristenGedeckt) (hgut : s.Geordnet)
    (h : s.fristenFaellig outLen = some (out, s')) : s'.FristenGedeckt := by
  unfold fristenFaellig at h
  split at h
  · cases h
    exact hs
  · obtain ⟨l, hrun, htuple⟩ := Option.map_eq_some_iff.mp h
    cases htuple
    have hscan : FristSuche s s.tcbs.len l :=
      run_range_invariant (fun _ _ _ hl hk => FristSuche.schritt hl hk)
        ⟨FristRuhe.refl s, fun x hx => absurd hx (Nat.not_lt_zero x)⟩ hrun
    obtain ⟨o, ho⟩ := hgut
    intro x hx
    change (l.sched.tcb x).frist ≠ 0 at hx
    obtain ⟨hold, hsame⟩ := hscan.ruhe.frist x hx
    obtain ⟨hused, -, hlt⟩ := hs x (hold ▸ hx)
    have hused' : (l.sched.tcb x).used = true := hsame.trans hused
    refine ⟨hused', hscan.vorne x (ho.bound x hused) hused' hx, ?_⟩
    change (l.sched.tcb x).frist < _
    rw [hold]
    exact hlt

end

theorem gedeckt_attachMigrated {m : Migrant} (hs : s.FristenGedeckt) (hm : m.tcb.used = true)
    (hok : m.tcb.frist ≠ 0 → s.free.alloc ≠ none → Gedeckt s.naechsteFrist m.tcb.frist)
    (h : s.attachMigrated v m = some (.ok (s', v'))) : s'.FristenGedeckt := by
  have hadd : ∀ i free, s.free.alloc = some (i, free) →
      (s.aufnehmen i free (s.ankunft m.tcb)).FristenGedeckt := by
    intro i free halloc x hx
    have htcb : (s.aufnehmen i free (s.ankunft m.tcb)).tcb x =
        if x = i then s.ankunft m.tcb else s.tcb x := Slab.set_cell s.tcbs i x _
    rw [htcb] at hx ⊢
    split
    · next hxi =>
      rw [if_pos hxi] at hx
      exact ⟨hm, hok hx (halloc ▸ Option.some_ne_none _)⟩
    · next hxi =>
      rw [if_neg hxi] at hx
      exact hs x hx
  obtain ⟨i, free, halloc, -, ⟨-, he⟩ | ⟨-, rfl⟩⟩ := attachMigrated_aufnahme h
  · exact (FristRuhe.enqueueReady he).gedeckt (hadd i free halloc)
  · exact hadd i free halloc

end Scheduler

namespace System

open Scheduler

variable {S S' : System}

/-- No deadline saturates, and a thread that is taken up brings none that comes before the
next deadline of the core. -/
def FristTreu (S : System) : Op → Prop
  | .aufruf c (.fristSetzen ticks _) => ticks ≠ 0 → (S.cores c).now + ticks < 2 ^ 64 - 1
  | .attachMigrated c k =>
      ∀ m, S.migranten[k]? = some m → (S.cores c).free.alloc ≠ none → m.tcb.frist ≠ 0 →
        (S.cores c).naechsteFrist ≤ m.tcb.frist
  | _ => True

/-- The next deadline of every core covers its threads, and those under way fit the clock. -/
structure FristenInv (S : System) : Prop where
  core : ∀ c, (S.cores c).FristenGedeckt
  unterwegs : ∀ m ∈ S.migranten, m.tcb.frist ≠ 0 → m.tcb.frist < 2 ^ 64 - 1

theorem fristenInv_init (a : Ausbau) : (init a).FristenInv where
  core := fun _ _ hx => absurd rfl hx
  unterwegs := fun m hm => by cases hm

theorem step_fristenInv {op : Op} (h : S.FristenInv) (hgut : S.Gut) (hok : S.FristTreu op)
    (hstep : S.step op = some S') : S'.FristenInv := by
  have hall : S'.Ueberall FristenGedeckt
      (fun m => m.tcb.frist ≠ 0 → m.tcb.frist < 2 ^ 64 - 1) := by
    apply Ueberall.step ⟨h.core, h.unterwegs⟩ hstep
    intro c s ms hk
    have hruhe : FristRuhe (S.cores c) s → s.FristenGedeckt := fun hs => hs.gedeckt (h.core c)
    cases hk with
    | @aufruf a _ hs =>
      refine ⟨?_, h.unterwegs⟩
      cases a with
      | fristSetzen ticks grund => exact gedeckt_fristSetzen (h.core c) (hgut.1 c).2 hok hs
      | fristLoeschen tid =>
        cases hs
        exact hruhe (FristRuhe.fristLoeschen (S.cores c) S.verzeichnis tid)
      | fristenFaellig outLen =>
        obtain ⟨out, hs⟩ := map_snd_eq_some hs
        exact gedeckt_fristenFaellig (h.core c) (hgut.1 c).1 hs
      | _ => exact hruhe (FristRuhe.aufruf hs trivial)
    | initCore hs => exact ⟨hruhe (FristRuhe.initCore hs), h.unterwegs⟩
    | spawnParked hop hs => exact ⟨hruhe (FristRuhe.spawnParked hs), h.unterwegs⟩
    | spawn hs => exact ⟨hruhe (FristRuhe.spawn hs), h.unterwegs⟩
    | exitCurrent hs => exact ⟨hruhe (FristRuhe.exitCurrent hs), h.unterwegs⟩
    | kill hs => exact ⟨hruhe (FristRuhe.kill hs), h.unterwegs⟩
    | reap hs => exact ⟨hruhe (FristRuhe.reap hs), h.unterwegs⟩
    | detachForMigration hs =>
      obtain ⟨hcore, i, hfrist⟩ := FristRuhe.detachForMigration hs
      refine ⟨hruhe hcore, fun m hm hne => ?_⟩
      rcases List.mem_append.mp hm with hold | hnew
      · exact h.unterwegs m hold hne
      · rw [List.mem_singleton.mp hnew, hfrist] at hne ⊢
        exact (h.core c i hne).2.2
    | attachMigrated hm hs =>
      have hmem := List.mem_of_getElem? hm
      refine ⟨?_, fun m' hm' => h.unterwegs m' (List.mem_of_mem_eraseIdx hm')⟩
      exact gedeckt_attachMigrated (h.core c) (hgut.2 _ hmem)
        (fun hne halloc => ⟨hok _ hm halloc hne, h.unterwegs _ hmem hne⟩) hs
  exact ⟨hall.1, hall.2⟩

theorem run_fristenInv {a : Ausbau} {ops : List Op} {S : System}
    (hops : Admissible step FristTreu (init a) ops) (hrun : run step (init a) ops = some S) :
    S.FristenInv := by
  have hstep : ∀ T op T', T.FristenInv ∧ T.Gut → FristTreu T op → step T op = some T' →
      T'.FristenInv ∧ T'.Gut :=
    fun T op T' hT hok hT' => ⟨step_fristenInv hT.1 hT.2 hok hT', step_gut T op T' hT.2 hT'⟩
  exact (run_invariant hstep ⟨fristenInv_init a, gut_init a⟩ hops hrun).1

/-- In every run of such steps the next deadline is at most every armed deadline of the core,
it is the mark for none only if no deadline is armed, and no due deadline is passed over. -/
theorem run_fristenGedeckt (a : Ausbau) (ops : List Op) (S : System)
    (hops : Admissible step FristTreu (init a) ops) (hrun : run step (init a) ops = some S)
    (c x : Nat) (hfrist : ((S.cores c).tcb x).frist ≠ 0) :
    (S.cores c).naechsteFrist ≤ ((S.cores c).tcb x).frist ∧
      (S.cores c).naechsteFrist ≠ 2 ^ 64 - 1 ∧
      (((S.cores c).tcb x).frist ≤ (S.cores c).now →
        ¬ (S.cores c).now < (S.cores c).naechsteFrist) := by
  obtain ⟨-, hle, hlt⟩ := (run_fristenInv hops hrun).core c x hfrist
  omega

/-- A parked thread with a deadline is moved to another core: its deadline is due there, the
next deadline says that there is none, and the scan leaves it waiting. -/
theorem attached_deadline_is_skipped :
    (run step (init ⟨2, 4, by decide⟩)
      [Op.initCore 0 0, Op.initCore 1 0, Op.spawn 0 0 100 16 1, Op.aufruf 0 (.onTick 0 true),
        Op.aufruf 0 (.fristSetzen 1 .park), Op.aufruf 0 (.parkCurrent 0),
        Op.detachForMigration 0 ⟨2, 0⟩, Op.attachMigrated 1 0, Op.aufruf 1 (.onTick 0 true),
        Op.aufruf 1 (.onTick 0 true), Op.aufruf 1 (.fristenFaellig 4)]).map
      (fun S => ((S.cores 1).naechsteFrist, (S.cores 1).now, ((S.cores 1).tcb 1).frist,
        ((S.cores 1).tcb 1).used, decide (Grund.park ∈ ((S.cores 1).tcb 1).reasons))) =
      some (2 ^ 64 - 1, 2, 2, true, true) := by
  decide +kernel

/-- On its own core the same deadline is covered. -/
theorem run_fristenGedeckt_one_deadline :
    ∃ S, run step (init ⟨2, 4, by decide⟩)
        [Op.initCore 0 0, Op.aufruf 0 (.fristSetzen 1 .park)] = some S ∧
      (S.cores 0).naechsteFrist ≤ ((S.cores 0).tcb 0).frist ∧
      (S.cores 0).naechsteFrist ≠ 2 ^ 64 - 1 ∧
      (((S.cores 0).tcb 0).frist ≤ (S.cores 0).now →
        ¬ (S.cores 0).now < (S.cores 0).naechsteFrist) := by
  have hread : (run step (init ⟨2, 4, by decide⟩)
      [Op.initCore 0 0, Op.aufruf 0 (.fristSetzen 1 .park)]).map
        (fun S => ((S.cores 0).tcb 0).frist) = some 1 := by
    decide
  have hnow : (run step (init ⟨2, 4, by decide⟩) [Op.initCore 0 0]).map
      (fun S => (S.cores 0).now) = some 0 := by
    decide
  obtain ⟨S, hS, heq⟩ := Option.map_eq_some_iff.mp hread
  refine ⟨S, hS, run_fristenGedeckt _ _ S ?_ hS 0 0 (by rw [heq]; omega)⟩
  refine ⟨trivial, fun S₁ h₁ => ⟨fun _ => ?_, fun _ _ => trivial⟩⟩
  rw [run_cons_of_step h₁] at hnow
  have hzero : (S₁.cores 0).now = 0 := Option.some.inj hnow
  omega

end System

end Caprock.Sched
