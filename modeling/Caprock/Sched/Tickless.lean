import Mathlib.Algebra.GroupWithZero.Nat
import Mathlib.Order.Bounds.Basic
import Caprock.Sched.Earliest

/-! # Without the periodic tick

A core may leave the periodic tick out when nobody is to be preempted, nobody's budget runs and
nothing is due soon.  `nohzPlan` decides this from three numbers that `nohzStand` reads off the
scheduler.  The queue counts and the refill times are exact.  But the budget is that of the
running thread, while a tick charges the account it runs on, and the next deadline is a bound
that a thread from another core may undercut.
-/

namespace Caprock.Sched

open Execution

inductive Nohz where
  | periodic
  | oneShot (ticks : Nat)
  | disarmed
  deriving DecidableEq

/-- `nohz_plan`: rivals before bounds before the next wake-up. -/
def nohzPlan (rivalen : Nat) (weckruf : Option Nat) (hatSchranke : Bool) : Nohz :=
  if 0 < rivalen then .periodic
  else if hatSchranke then .periodic
  else
    match weckruf with
    | none => .disarmed
    | some d => if d ≤ 1 then .periodic else .oneShot d

/-- The outcome wakes the core at time `t` or before; `jetzt` is the time of the decision. -/
def Nohz.Weckt (jetzt : Nat) : Nohz → Nat → Prop
  | .periodic, _ => True
  | .oneShot d, t => jetzt + d ≤ t
  | .disarmed, _ => False

/-- `w` is the least element of the set; `none` for the empty set. -/
def Frueheste (T : Set Nat) : Option Nat → Prop
  | none => T = ∅
  | some d => IsLeast T d

def frueher (bisher : Option Nat) (d : Nat) : Option Nat :=
  match bisher with
  | some b => some (min b d)
  | none => some d

theorem Frueheste.insert {T : Set Nat} {w : Option Nat} (h : Frueheste T w) (d : Nat) :
    Frueheste (T ∪ {d}) (frueher w d) := by
  cases w with
  | none =>
    have hempty : T = ∅ := h
    show IsLeast (T ∪ {d}) d
    rw [hempty, Set.empty_union]
    exact isLeast_singleton
  | some b =>
    have hb : IsLeast T b := h
    exact hb.union isLeast_singleton

theorem Frueheste.forall_le_iff {T : Set Nat} {w : Option Nat} (h : Frueheste T w) (k : Nat) :
    (∀ d, w = some d → k ≤ d) ↔ ∀ d ∈ T, k ≤ d := by
  cases w with
  | none =>
    have hempty : T = ∅ := h
    refine iff_of_true (fun d hd => nomatch hd) fun d hd => ?_
    rw [hempty] at hd
    exact absurd hd (Set.notMem_empty d)
  | some b =>
    have hb : IsLeast T b := h
    constructor
    · intro hw d hd
      exact (hw b rfl).trans (hb.2 hd)
    · intro hT d hd
      exact Option.some.inj hd ▸ hT b hb.1

theorem Frueheste.exists_le_iff {T : Set Nat} {w : Option Nat} (h : Frueheste T w) (k : Nat) :
    (∃ d, w = some d ∧ d ≤ k) ↔ ∃ d ∈ T, d ≤ k := by
  cases w with
  | none =>
    have hempty : T = ∅ := h
    refine iff_of_false (fun hd => nomatch hd) ?_
    rintro ⟨d, hd, -⟩
    rw [hempty] at hd
    exact Set.notMem_empty d hd
  | some b =>
    have hb : IsLeast T b := h
    constructor
    · rintro ⟨d, hd, hle⟩
      exact ⟨b, hb.1, Option.some.inj hd ▸ hle⟩
    · rintro ⟨d, hd, hle⟩
      exact ⟨b, rfl, (hb.2 hd).trans hle⟩

theorem nohzPlan_ne_periodic_iff (rivalen : Nat) (weckruf : Option Nat) (hatSchranke : Bool) :
    nohzPlan rivalen weckruf hatSchranke ≠ .periodic ↔
      rivalen = 0 ∧ hatSchranke = false ∧ ∀ d, weckruf = some d → 2 ≤ d := by
  unfold nohzPlan
  split
  · next hpos => exact iff_of_false (fun hne => hne rfl) fun h => by omega
  · next hzero =>
    split
    · next hb => exact iff_of_false (fun hne => hne rfl) fun h => by simp [hb] at h
    · next hb =>
      cases weckruf with
      | none =>
        refine iff_of_true (fun heq => nomatch heq) ⟨by omega, by simpa using hb, ?_⟩
        exact fun d hd => nomatch hd
      | some d =>
        dsimp only
        split
        · next hle =>
          refine iff_of_false (fun hne => hne rfl) fun h => ?_
          have htwo := h.2.2 d rfl
          omega
        · next hgt =>
          refine iff_of_true (fun heq => nomatch heq) ⟨by omega, by simpa using hb, ?_⟩
          rintro b hd
          have heq := Option.some.inj hd
          omega

theorem weckt_nohzPlan {rivalen jetzt t : Nat} {weckruf : Option Nat} {hatSchranke : Bool}
    (h : nohzPlan rivalen weckruf hatSchranke ≠ .periodic) :
    (nohzPlan rivalen weckruf hatSchranke).Weckt jetzt t ↔
      ∃ d, weckruf = some d ∧ jetzt + d ≤ t := by
  obtain ⟨hzero, hb, htwo⟩ := (nohzPlan_ne_periodic_iff rivalen weckruf hatSchranke).mp h
  unfold nohzPlan
  rw [if_neg (by omega), if_neg (by simp [hb])]
  cases weckruf with
  | none => exact iff_of_false (fun hf => hf) fun hd => nomatch hd
  | some d =>
    have hd := htwo d rfl
    dsimp only
    rw [if_neg (by omega)]
    constructor
    · intro hle
      exact ⟨d, rfl, hle⟩
    · rintro ⟨b, hb', hle⟩
      exact Option.some.inj hb' ▸ hle

namespace Scheduler

def WartetAufRefill (s : Scheduler) (i : Nat) : Prop :=
  (s.tcb i).used = true ∧ 0 < (s.tcb i).budget ∧ (s.tcb i).depleted = true

instance (s : Scheduler) (i : Nat) : Decidable (s.WartetAufRefill i) :=
  inferInstanceAs (Decidable ((s.tcb i).used = true ∧ 0 < (s.tcb i).budget ∧
    (s.tcb i).depleted = true))

def rivalen (s : Scheduler) : Nat := ((List.range nprio).map fun p => (s.queues p).count).sum

def weckrufSchritt (s : Scheduler) (w : Option Nat) (slot : Nat) : Option Nat :=
  if s.WartetAufRefill slot then frueher w ((s.tcb slot).nextRefill - s.now) else w

/-- The ticks to the next wake-up: a deadline or a refill. -/
def weckruf (s : Scheduler) : Option Nat :=
  (List.range s.tcbs.len).foldl s.weckrufSchritt
    (if s.naechsteFrist ≠ 2 ^ 64 - 1 then some (s.naechsteFrist - s.now) else none)

def hatSchranke (s : Scheduler) : Bool :=
  match s.current with
  | some cur => decide (0 < (s.tcb cur).budget)
  | none => false

/-- `nohz_stand`: ready threads, next wake-up, bounded budget of the running thread. -/
def nohzStand (s : Scheduler) : Nat × Option Nat × Bool := (s.rivalen, s.weckruf, s.hatSchranke)

def plan (s : Scheduler) : Nohz := nohzPlan s.nohzStand.1 s.nohzStand.2.1 s.nohzStand.2.2

/-- The law of the tickless core: if it is not to tick, the account the next tick would charge
is unbounded, no other thread is queued, and it wakes for every deadline and every refill. -/
structure TicklosSicher (s : Scheduler) : Prop where
  konto : ∀ cur, s.current = some cur → (s.tcb (s.konto cur)).budget = 0
  allein : ∀ x, s.current ≠ some x → (s.tcb x).queued = none
  frist : ∀ x, (s.tcb x).used = true → (s.tcb x).frist ≠ 0 → s.plan.Weckt s.now (s.tcb x).frist
  refill : ∀ x, s.WartetAufRefill x → s.plan.Weckt s.now (s.tcb x).nextRefill

structure Ruhig (s : Scheduler) : Prop where
  allein : ∀ x, (s.tcb x).queued = none
  schranke : ∀ cur, s.current = some cur → (s.tcb cur).budget = 0
  frist : s.naechsteFrist ≠ 2 ^ 64 - 1 → s.now + 2 ≤ s.naechsteFrist
  refill : ∀ x, s.WartetAufRefill x → s.now + 2 ≤ (s.tcb x).nextRefill

def FremdBegrenzt (s : Scheduler) : Prop :=
  ∃ cur a, s.current = some cur ∧ (s.tcb cur).scDonor = some a ∧ 0 < (s.tcb a).budget

def Vorgesehen (s : Scheduler) (t : Nat) : Prop :=
  s.naechsteFrist ≠ 2 ^ 64 - 1 ∧ s.naechsteFrist ≤ t ∨
    ∃ y, s.WartetAufRefill y ∧ (s.tcb y).nextRefill ≤ t

variable {s : Scheduler}

def weckzeiten (s : Scheduler) (k : Nat) : Set Nat :=
  { d | s.naechsteFrist ≠ 2 ^ 64 - 1 ∧ d = s.naechsteFrist - s.now ∨
    ∃ y, y < k ∧ s.WartetAufRefill y ∧ d = (s.tcb y).nextRefill - s.now }

theorem weckzeiten_succ (s : Scheduler) (k : Nat) :
    s.weckzeiten (k + 1) =
      if s.WartetAufRefill k then s.weckzeiten k ∪ {(s.tcb k).nextRefill - s.now}
      else s.weckzeiten k := by
  split
  · next hk =>
    ext d
    constructor
    · rintro (hd | ⟨y, hy, hw, hd⟩)
      · exact .inl (.inl hd)
      · by_cases hyk : y = k
        · exact .inr (hyk ▸ hd)
        · exact .inl (.inr ⟨y, by omega, hw, hd⟩)
    · rintro ((hd | ⟨y, hy, hw, hd⟩) | hd)
      · exact .inl hd
      · exact .inr ⟨y, by omega, hw, hd⟩
      · exact .inr ⟨k, Nat.lt_succ_self k, hk, hd⟩
  · next hk =>
    ext d
    constructor
    · rintro (hd | ⟨y, hy, hw, hd⟩)
      · exact .inl hd
      · have hne : y ≠ k := by
          rintro rfl
          exact hk hw
        exact .inr ⟨y, by omega, hw, hd⟩
    · rintro (hd | ⟨y, hy, hw, hd⟩)
      · exact .inl hd
      · exact .inr ⟨y, by omega, hw, hd⟩

theorem weckruf_spec (s : Scheduler) : Frueheste (s.weckzeiten s.tcbs.len) s.weckruf := by
  have hloop : ∀ k, Frueheste (s.weckzeiten k) ((List.range k).foldl s.weckrufSchritt
      (if s.naechsteFrist ≠ 2 ^ 64 - 1 then some (s.naechsteFrist - s.now) else none)) := by
    intro k
    induction k with
    | zero =>
      show Frueheste (s.weckzeiten 0)
        (if s.naechsteFrist ≠ 2 ^ 64 - 1 then some (s.naechsteFrist - s.now) else none)
      split
      · next hne =>
        refine ⟨.inl ⟨hne, rfl⟩, ?_⟩
        rintro d (⟨-, rfl⟩ | ⟨y, hy, -⟩)
        · exact Nat.le_refl _
        · exact absurd hy (Nat.not_lt_zero y)
      · next hnone =>
        ext d
        refine iff_of_false ?_ (Set.notMem_empty d)
        rintro (⟨hne, -⟩ | ⟨y, hy, -⟩)
        · exact hnone hne
        · exact Nat.not_lt_zero y hy
    | succ k ih =>
      rw [List.range_succ, List.foldl_append, weckzeiten_succ]
      show Frueheste _ (s.weckrufSchritt _ k)
      unfold weckrufSchritt
      split
      · exact ih.insert _
      · exact ih
  exact hloop s.tcbs.len

section

variable {l : Nat → List Nat}

theorem mem_weckzeiten (h : Ordnung s l) (d : Nat) :
    d ∈ s.weckzeiten s.tcbs.len ↔
      s.naechsteFrist ≠ 2 ^ 64 - 1 ∧ d = s.naechsteFrist - s.now ∨
        ∃ y, s.WartetAufRefill y ∧ d = (s.tcb y).nextRefill - s.now := by
  constructor
  · rintro (hd | ⟨y, -, hw, hd⟩)
    · exact .inl hd
    · exact .inr ⟨y, hw, hd⟩
  · rintro (hd | ⟨y, hw, hd⟩)
    · exact .inl hd
    · exact .inr ⟨y, h.bound y hw.1, hw, hd⟩

theorem rivalen_eq_zero_iff (h : Ordnung s l) : s.rivalen = 0 ↔ ∀ x, (s.tcb x).queued = none := by
  have hsum : s.rivalen = 0 ↔ ∀ p, p < nprio → (s.queues p).count = 0 := by
    unfold rivalen
    rw [List.sum_eq_zero_iff_forall_eq_nat]
    constructor
    · intro hall p hp
      exact hall _ (List.mem_map.mpr ⟨p, List.mem_range.mpr hp, rfl⟩)
    · intro hall n hn
      obtain ⟨p, hp, rfl⟩ := List.mem_map.mp hn
      exact hall p (List.mem_range.mp hp)
  rw [hsum]
  constructor
  · intro hcount x
    by_contra hq
    obtain ⟨p, hp⟩ := Option.ne_none_iff_exists'.mp hq
    have hempty : l p = [] :=
      List.eq_nil_of_length_eq_zero ((h.count p).symm.trans (hcount p (h.prio p x hp).1))
    have hmem := (h.mem p x).mpr hp
    rw [hempty] at hmem
    exact absurd hmem List.not_mem_nil
  · intro hnone p hp
    rw [h.count p, List.length_eq_zero_iff]
    refine List.eq_nil_iff_forall_not_mem.mpr fun x hx => ?_
    have hq := (h.mem p x).mp hx
    rw [hnone x] at hq
    cases hq

theorem plan_ne_periodic_iff (h : Ordnung s l) : s.plan ≠ .periodic ↔ s.Ruhig := by
  have hweck : (∀ d, s.weckruf = some d → 2 ≤ d) ↔ ∀ d ∈ s.weckzeiten s.tcbs.len, 2 ≤ d :=
    s.weckruf_spec.forall_le_iff 2
  have hschranke : s.hatSchranke = false ↔
      ∀ cur, s.current = some cur → (s.tcb cur).budget = 0 := by
    unfold hatSchranke
    cases s.current with
    | none | some cur => simp
  have hplan : s.plan ≠ .periodic ↔
      s.rivalen = 0 ∧ s.hatSchranke = false ∧ ∀ d, s.weckruf = some d → 2 ≤ d :=
    nohzPlan_ne_periodic_iff s.rivalen s.weckruf s.hatSchranke
  rw [hplan, rivalen_eq_zero_iff h, hschranke, hweck]
  constructor
  · rintro ⟨hallein, hfrei, htwo⟩
    refine ⟨hallein, hfrei, fun hne => ?_, fun y hy => ?_⟩
    · have hle := htwo _ ((mem_weckzeiten h _).mpr (.inl ⟨hne, rfl⟩))
      omega
    · have hle := htwo _ ((mem_weckzeiten h _).mpr (.inr ⟨y, hy, rfl⟩))
      omega
  · intro hruhig
    refine ⟨hruhig.allein, hruhig.schranke, fun d hd => ?_⟩
    rcases (mem_weckzeiten h d).mp hd with ⟨hne, rfl⟩ | ⟨y, hy, rfl⟩
    · have hle := hruhig.frist hne
      omega
    · have hle := hruhig.refill y hy
      omega

theorem weckt_plan_iff (h : Ordnung s l) (hruhig : s.Ruhig) (t : Nat) :
    s.plan.Weckt s.now t ↔ s.Vorgesehen t := by
  have hplan : s.plan.Weckt s.now t ↔ ∃ d, s.weckruf = some d ∧ s.now + d ≤ t :=
    weckt_nohzPlan ((plan_ne_periodic_iff h).mpr hruhig)
  rw [hplan]
  have hmin := s.weckruf_spec.exists_le_iff (t - s.now)
  constructor
  · rintro ⟨d, hd, hle⟩
    obtain ⟨e, he, hle'⟩ := hmin.mp ⟨d, hd, by omega⟩
    rcases (mem_weckzeiten h e).mp he with ⟨hne, rfl⟩ | ⟨y, hy, rfl⟩
    · have htwo := hruhig.frist hne
      exact .inl ⟨hne, by omega⟩
    · have htwo := hruhig.refill y hy
      exact .inr ⟨y, hy, by omega⟩
  · rintro (⟨hne, hle⟩ | ⟨y, hy, hle⟩)
    · have htwo := hruhig.frist hne
      obtain ⟨d, hd, hle'⟩ := hmin.mpr ⟨_, (mem_weckzeiten h _).mpr (.inl ⟨hne, rfl⟩), by omega⟩
      exact ⟨d, hd, by omega⟩
    · have htwo := hruhig.refill y hy
      obtain ⟨d, hd, hle'⟩ :=
        hmin.mpr ⟨_, (mem_weckzeiten h _).mpr (.inr ⟨y, hy, rfl⟩), by omega⟩
      exact ⟨d, hd, by omega⟩

theorem ticklosSicher_iff (h : Ordnung s l) :
    (s.plan ≠ .periodic → s.TicklosSicher) ↔
      (s.Ruhig → ¬ s.FremdBegrenzt ∧
        ∀ x, (s.tcb x).used = true → (s.tcb x).frist ≠ 0 → s.Vorgesehen (s.tcb x).frist) := by
  rw [plan_ne_periodic_iff h]
  refine forall_congr' fun hruhig => ?_
  constructor
  · intro hsicher
    constructor
    · rintro ⟨cur, a, hcur, hdonor, hpos⟩
      have hzero := hsicher.konto cur hcur
      rw [konto, hdonor, Option.getD_some] at hzero
      omega
    · intro x hused hne
      exact (weckt_plan_iff h hruhig _).mp (hsicher.frist x hused hne)
  · rintro ⟨hfremd, hfrist⟩
    refine ⟨fun cur hcur => ?_, fun x _ => hruhig.allein x, fun x hused hne => ?_, fun x hx => ?_⟩
    · unfold konto
      cases hdonor : (s.tcb cur).scDonor with
      | none => exact hruhig.schranke cur hcur
      | some a =>
        by_contra hne
        exact hfremd ⟨cur, a, hcur, hdonor, Nat.pos_of_ne_zero hne⟩
    · exact (weckt_plan_iff h hruhig _).mpr (hfrist x hused hne)
    · exact (weckt_plan_iff h hruhig _).mpr (.inr ⟨x, hx, Nat.le_refl _⟩)

end

end Scheduler

namespace System

open Scheduler

/-- In every reachable state a core without the tick is safe exactly if no thread runs on a
lent account that is bounded and the decision sees every armed deadline.  It does see them if
no deadline saturated and none arrived that was earlier than the next one of its core. -/
theorem run_ticklosSicher_iff (a : Ausbau) (ops : List Op) (S : System)
    (hrun : run step (init a) ops = some S) (c : Nat) :
    (((S.cores c).plan ≠ .periodic → (S.cores c).TicklosSicher) ↔
      ((S.cores c).Ruhig → ¬ (S.cores c).FremdBegrenzt ∧
        ∀ x, ((S.cores c).tcb x).used = true → ((S.cores c).tcb x).frist ≠ 0 →
          (S.cores c).Vorgesehen ((S.cores c).tcb x).frist)) ∧
    (Admissible step FristTreu (init a) ops →
      (((S.cores c).plan ≠ .periodic → (S.cores c).TicklosSicher) ↔
        ((S.cores c).Ruhig → ¬ (S.cores c).FremdBegrenzt))) := by
  obtain ⟨l, h⟩ := ((run_gut hrun).1 c).1
  refine ⟨ticklosSicher_iff h, fun hops => ?_⟩
  rw [ticklosSicher_iff h]
  refine forall_congr' fun _ => and_iff_left fun x _ hne => ?_
  have hinv := run_fristenInv hops hrun
  obtain ⟨-, hle, hlt⟩ := hinv.core c x hne
  exact .inl ⟨by omega, hle⟩

/-- The idle thread has a budget of five ticks and calls a server that waits: the server has
no bound, so the core is to stop ticking, and the call runs on past the budget. -/
theorem called_server_stops_the_tick :
    ∃ S, run step (init ⟨2, 2, by decide⟩)
        [Op.initCore 0 0, Op.spawn 0 100 0 16 1, Op.aufruf 0 (.onTick 0 true),
          Op.aufruf 0 (.blockCurrent 0), Op.aufruf 0 (.setBudget ⟨0, 0⟩ 5 10),
          Op.aufruf 0 (.switchTo 0 ⟨1, 0⟩)] = some S ∧
      (S.cores 0).plan = .disarmed ∧ ¬ (S.cores 0).TicklosSicher := by
  have hread : (run step (init ⟨2, 2, by decide⟩)
      [Op.initCore 0 0, Op.spawn 0 100 0 16 1, Op.aufruf 0 (.onTick 0 true),
        Op.aufruf 0 (.blockCurrent 0), Op.aufruf 0 (.setBudget ⟨0, 0⟩ 5 10),
        Op.aufruf 0 (.switchTo 0 ⟨1, 0⟩)]).map
      (fun S => ((S.cores 0).plan, (S.cores 0).current, (S.cores 0).konto 1,
        ((S.cores 0).tcb 0).budget)) =
      some (.disarmed, some 1, 0, 5) := by
    decide
  obtain ⟨S, hS, heq⟩ := Option.map_eq_some_iff.mp hread
  simp only [Prod.mk.injEq] at heq
  obtain ⟨hplan, hcur, hkonto, hbudget⟩ := heq
  refine ⟨S, hS, hplan, fun hsicher => ?_⟩
  have hzero := hsicher.konto 1 hcur
  rw [hkonto, hbudget] at hzero
  omega

/-- A thread without a bound arms a deadline in five ticks: the core sleeps until then. -/
theorem run_ticklosSicher_iff_one_deadline :
    ∃ S, run step (init ⟨2, 2, by decide⟩)
        [Op.initCore 0 0, Op.aufruf 0 (.fristSetzen 5 .park)] = some S ∧
      (S.cores 0).plan = .oneShot 5 ∧
      (((S.cores 0).plan ≠ .periodic → (S.cores 0).TicklosSicher) ↔
        ((S.cores 0).Ruhig → ¬ (S.cores 0).FremdBegrenzt)) := by
  have hread : (run step (init ⟨2, 2, by decide⟩)
      [Op.initCore 0 0, Op.aufruf 0 (.fristSetzen 5 .park)]).map
        (fun S => (S.cores 0).plan) = some (.oneShot 5) := by
    decide
  have hnow : (run step (init ⟨2, 2, by decide⟩) [Op.initCore 0 0]).map
      (fun S => (S.cores 0).now) = some 0 := by
    decide
  obtain ⟨S, hS, heq⟩ := Option.map_eq_some_iff.mp hread
  refine ⟨S, hS, heq, (run_ticklosSicher_iff _ _ S hS 0).2 ?_⟩
  refine ⟨trivial, fun S₁ h₁ => ⟨fun _ => ?_, fun _ _ => trivial⟩⟩
  rw [run_cons_of_step h₁] at hnow
  have hzero : (S₁.cores 0).now = 0 := Option.some.inj hnow
  omega

end System

end Caprock.Sched
