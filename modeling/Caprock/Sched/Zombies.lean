import Caprock.Lib.Ledger
import Caprock.Lib.RingBuffer
import Caprock.Sched.Frame
import Caprock.Sched.Laws

/-! # Ended threads are collected

What an ended thread leaves, its stack and its `gid`, goes into a ring and is handed out by
`reap` in the order of the ends.  The ring is as long as the table of the core, but the
`gid`s are shared by all cores: a core can see more ends between two `reap` calls than its
ring has cells, and what finds no cell is lost.
-/

namespace Caprock.Sched

open Execution Function

deriving instance DecidableEq for Zombie

/-- What `reap` is to hand out for a thread. -/
def Tcb.nachlass (t : Tcb) : Zombie := ⟨t.stackBase, t.stackLen, t.gid⟩

namespace Scheduler

def ring (s : Scheduler) : Slab Zombie × Nat × Nat × Nat := (s.zombies, s.zhead, s.ztail, s.zcount)

theorem starr_ring : Starr ring where
  blind := .of_stand fun s s' hrumpf _ => by
    have hring := congrArg ring hrumpf
    exact hring
  frist := fun _ _ _ _ => rfl
  spende := ⟨fun _ _ _ => rfl, fun _ _ _ => rfl⟩
  konto := ⟨fun _ _ _ _ => rfl, fun _ _ _ _ _ => rfl⟩
  naechste := fun _ _ => rfl

/-- The ended threads that wait to be collected, the oldest first. -/
def vorgemerkt (s : Scheduler) : List Zombie :=
  RingBuffer.read (fun i => some (s.zombies.cell i)) s.zombies.len s.zhead s.zcount

structure RingOk (s : Scheduler) : Prop where
  head : 0 < s.zombies.len → s.zhead < s.zombies.len
  count : s.zcount ≤ s.zombies.len
  tail : s.ztail = (s.zhead + s.zcount) % s.zombies.len

/-- Between `s` and `s'` the threads `tot` end and `ernte` is collected: nothing is lost
exactly if there is room for what is left behind. -/
structure Weitergabe (s s' : Scheduler) (tot ernte : List Zombie) : Prop where
  ok : s.RingOk → s'.RingOk
  law : s.RingOk → (s.vorgemerkt ++ tot = ernte ++ s'.vorgemerkt ↔
    (tot ≠ [] → s.zcount < s.zombies.len))

variable {s s' s'' : Scheduler} {v v' : Verzeichnis}

theorem Weitergabe.of_ring (h : s'.ring = s.ring) : Weitergabe s s' [] [] := by
  simp only [ring, Prod.mk.injEq] at h
  obtain ⟨hzombies, hhead, htail, hcount⟩ := h
  constructor
  · intro hok
    constructor
    · rw [hzombies, hhead]
      exact hok.head
    · rw [hzombies, hcount]
      exact hok.count
    · rw [hzombies, hhead, htail, hcount]
      exact hok.tail
  · intro _
    unfold vorgemerkt
    rw [hzombies, hhead, hcount]
    simp

/-- Steps that do not touch the ring may come first and last. -/
theorem Weitergabe.congr {t t' : Scheduler} {tot ernte : List Zombie} (h : Weitergabe t t' tot ernte)
    (hs : t.ring = s.ring) (hs' : s'.ring = t'.ring) : Weitergabe s s' tot ernte := by
  simp only [ring, Prod.mk.injEq] at hs
  obtain ⟨hzombies, hhead, htail, hcount⟩ := hs
  have hlast := of_ring hs'
  have hold : t.vorgemerkt = s.vorgemerkt := by
    unfold vorgemerkt
    rw [hzombies, hhead, hcount]
  have hok : s.RingOk → t.RingOk := by
    intro hs
    constructor
    · rw [hzombies, hhead]
      exact hs.head
    · rw [hzombies, hcount]
      exact hs.count
    · rw [hzombies, hhead, htail, hcount]
      exact hs.tail
  have hnew : s'.vorgemerkt = t'.vorgemerkt := by
    simp only [ring, Prod.mk.injEq] at hs'
    unfold vorgemerkt
    rw [hs'.1, hs'.2.1, hs'.2.2.2]
  refine ⟨fun hs => hlast.ok (h.ok (hok hs)), fun hs => ?_⟩
  have hlaw := h.law (hok hs)
  rw [hold, hzombies, hcount] at hlaw
  rw [hnew]
  exact hlaw

theorem weitergabe_zombieAblegen (s : Scheduler) (z : Zombie) :
    Weitergabe s (s.zombieAblegen z) [z] [] := by
  unfold zombieAblegen
  split
  · next hroom =>
    have hpos : 0 < s.zombies.len := Nat.lt_of_le_of_lt (Nat.zero_le _) hroom
    constructor
    · intro hok
      refine ⟨hok.head, hroom, ?_⟩
      show (s.ztail + 1) % s.zombies.len = (s.zhead + (s.zcount + 1)) % s.zombies.len
      rw [hok.tail, Nat.mod_add_mod, Nat.add_assoc]
    · intro hok
      refine iff_of_true ?_ fun _ => hroom
      have hlt := hok.head hpos
      have hframe : RingBuffer.read (fun i => some ((s.zombies.set s.ztail z).cell i)) s.zombies.len
          s.zhead s.zcount = s.vorgemerkt := by
        refine RingBuffer.read_congr hlt fun k hk => ?_
        have hne : (s.zhead + k) % s.zombies.len ≠ s.ztail := by
          rw [hok.tail]
          exact RingBuffer.add_mod_ne hk hroom
        simp only [Slab.set_cell_of_ne _ hne]
      show s.vorgemerkt ++ [z] = [] ++ RingBuffer.read
        (fun i => some ((s.zombies.set s.ztail z).cell i)) s.zombies.len s.zhead (s.zcount + 1)
      rw [RingBuffer.read_succ hlt, hframe, ← hok.tail, Slab.set_cell_self]
      rfl
  · next hfull =>
    refine ⟨fun hok => hok, fun _ => iff_of_false ?_ ?_⟩
    · intro heq
      have hlen := congrArg List.length heq
      simp at hlen
    · intro hroom
      exact hfull (hroom (List.cons_ne_nil z []))

theorem vorgemerkt_reap {z : Zombie} (h : s.reap = some (z, s')) :
    s.vorgemerkt = z :: s'.vorgemerkt ∧ s.zcount = s'.zcount + 1 := by
  unfold reap at h
  split at h
  · cases h
  · next hcount =>
    cases h
    obtain ⟨n, hn⟩ := Nat.exists_eq_succ_of_ne_zero hcount
    have hrest : s.zcount - 1 = n := by omega
    show s.vorgemerkt = s.zombies.cell s.zhead :: RingBuffer.read
      (fun i => some (s.zombies.cell i)) s.zombies.len ((s.zhead + 1) % s.zombies.len)
        (s.zcount - 1) ∧ s.zcount = s.zcount - 1 + 1
    rw [hrest, vorgemerkt, hn]
    exact ⟨rfl, rfl⟩

theorem weitergabe_reap {z : Zombie} (h : s.reap = some (z, s')) : Weitergabe s s' [] [z] := by
  have hread := vorgemerkt_reap h
  constructor
  · unfold reap at h
    split at h
    · cases h
    · next hcount =>
      cases h
      intro hok
      have hle := hok.count
      have hpos : 0 < s.zombies.len := by omega
      refine ⟨fun _ => Nat.mod_lt _ hpos, ?_, ?_⟩
      · show s.zcount - 1 ≤ s.zombies.len
        omega
      · show s.ztail = ((s.zhead + 1) % s.zombies.len + (s.zcount - 1)) % s.zombies.len
        rw [hok.tail, RingBuffer.succ_mod_add]
        congr 2
        omega
  · intro _
    refine iff_of_true ?_ fun hne => absurd rfl hne
    rw [List.append_nil, hread.1]
    rfl

theorem reap_eq_none (h : s.reap = none) : s.vorgemerkt = [] := by
  unfold reap at h
  split at h
  · next hcount =>
    unfold vorgemerkt
    rw [hcount]
    rfl
  · cases h

/-- The ring of a core after `record_zombie`: what the thread leaves is put into it. -/
theorem recordZombie_ring {i : Nat} (h : s.recordZombie v i = some (s', v')) :
    ∃ t : Scheduler, t.ring = s.ring ∧ s' = t.zombieAblegen (s.tcb i).nachlass := by
  unfold recordZombie at h
  split at h
  · cases h
  · next s₁ hrun =>
    cases h
    have hkeep := (starr_kennung i).blind.abloesen (starr_kennung i).spende hrun
    have hring := starr_ring.blind.abloesen starr_ring.spende hrun
    refine ⟨((s₁.doneeAustragen i).removeFromReady i).slotLeeren i, hring, ?_⟩
    have hleft := congrArg Tcb.nachlass hkeep
    exact congrArg _ hleft

theorem weitergabe_recordZombie {i : Nat} (h : s.recordZombie v i = some (s', v')) :
    Weitergabe s s' [(s.tcb i).nachlass] [] := by
  obtain ⟨t, ht, rfl⟩ := recordZombie_ring h
  exact (weitergabe_zombieAblegen t _).congr ht rfl

theorem weitergabe_exitCurrent {sp i : Nat} (hcur : s.current = some i)
    (h : s.exitCurrent v = some (sp, s', v')) : Weitergabe s s' [(s.tcb i).nachlass] [] := by
  obtain ⟨cur, s₁, hcur', hzombie, hw⟩ := exitCurrent_cases h
  cases (hcur.symm.trans hcur')
  exact (weitergabe_recordZombie hzombie).congr rfl (starr_ring.blind.wechseln hw)

theorem weitergabe_kill {tid : ThreadId} {b : Bool} (h : s.kill v tid = some (b, s', v')) :
    Weitergabe s s' (match s.resolve v tid with
      | none => []
      | some i => if s.current = some i then [] else [(s.tcb i).nachlass]) [] := by
  unfold kill at h
  cases hres : s.resolve v tid with
  | none =>
    rw [hres] at h
    cases h
    exact Weitergabe.of_ring rfl
  | some i =>
    rw [hres] at h
    dsimp only at h ⊢
    split at h
    · next hcur =>
      cases h
      rw [if_pos hcur]
      exact Weitergabe.of_ring rfl
    · next hcur =>
      obtain ⟨⟨s₁, v₁⟩, hz, htuple⟩ := Option.map_eq_some_iff.mp h
      cases htuple
      rw [if_neg hcur]
      have hring := starr_ring.blind.removeFromReady s i
      have hkeep := (starr_kennung i).blind.removeFromReady s i
      have hleft : ((s.removeFromReady i).tcb i).nachlass = (s.tcb i).nachlass := by
        have hfields := congrArg Tcb.nachlass hkeep
        exact hfields
      have hend := (weitergabe_recordZombie hz).congr hring rfl
      rw [hleft] at hend
      exact hend

theorem ring_allocTcb {sp priority i : Nat} (h : s.allocTcb v sp priority = some (i, s', v')) :
    s'.ring = s.ring := by
  obtain ⟨free, gid, gidFree, e, -, -, -, rfl, -⟩ := allocTcb_eq_some h
  rfl

theorem ring_spawnParked {sp base len priority i : Nat}
    (h : s.spawnParked v sp base len priority = some (i, s', v')) : s'.ring = s.ring := by
  obtain ⟨s₁, halloc, rfl⟩ := spawnParked_eq_some h
  have hring : s₁.ring = s.ring := ring_allocTcb halloc
  exact hring

theorem ring_initCore {priority i : Nat} (h : s.initCore v priority = some (i, s', v')) :
    s'.ring = s.ring := by
  obtain ⟨s₁, halloc, rfl⟩ := initCore_eq_some h
  have hring : s₁.ring = s.ring := ring_allocTcb halloc
  exact hring

theorem ring_spawn {sp base len priority : Nat} {r : Option ThreadId}
    (h : s.spawn v sp base len priority = some (r, s', v')) : s'.ring = s.ring := by
  rcases spawn_eq_some h with ⟨rfl, -, -⟩ | ⟨i, s₁, b, hparked, -, hadmit⟩
  · rfl
  · exact (starr_ring.blind.admitThread hadmit).trans (ring_spawnParked hparked)

theorem ring_detachForMigration {tid : ThreadId} {m : Migrant}
    (h : s.detachForMigration v tid = some (m, s')) : s'.ring = s.ring := by
  obtain ⟨i, n, -, rfl, -⟩ := detachForMigration_cases h
  exact starr_ring.blind.removeFromReady s i

theorem ring_attachMigrated {m : Migrant} (h : s.attachMigrated v m = some (.ok (s', v'))) :
    s'.ring = s.ring := by
  obtain ⟨i, free, -, -, ⟨-, he⟩ | ⟨-, rfl⟩⟩ := attachMigrated_aufnahme h
  · have hring := starr_ring.blind.enqueueReady he
    exact hring
  · rfl

end Scheduler

namespace System

open Scheduler

variable {S S' : System}

def gestorben (c : Nat) (S : System) : Op → List Zombie
  | .exitCurrent d =>
      if d = c then
        match (S.cores d).current with
        | none => []
        | some i => [((S.cores d).tcb i).nachlass]
      else []
  | .kill d tid =>
      if d = c then
        match (S.cores d).resolve S.verzeichnis tid with
        | none => []
        | some i => if (S.cores d).current = some i then [] else [((S.cores d).tcb i).nachlass]
      else []
  | _ => []

def geerntet (c : Nat) (S : System) : Op → List Zombie
  | .reap d => if d = c then ((S.cores d).reap.map Prod.fst).toList else []
  | _ => []

/-- No thread ends while the ring of its core is full. -/
def Platz (S : System) (op : Op) : Prop :=
  ∀ c, S.gestorben c op ≠ [] → (S.cores c).zcount < (S.cores c).zombies.len

theorem Weitergabe.update {cores : Nat → Scheduler} {s : Scheduler} {d : Nat} (c : Nat)
    {tot ernte : List Zombie}
    (h : Weitergabe (cores d) s tot ernte) :
    Weitergabe (cores c) (update cores d s c) (if d = c then tot else [])
      (if d = c then ernte else []) := by
  by_cases hd : d = c
  · subst hd
    rw [update_self, if_pos rfl, if_pos rfl]
    exact h
  · rw [update_of_ne (Ne.symm hd), if_neg hd, if_neg hd]
    exact Weitergabe.of_ring rfl

theorem Weitergabe.update_of_end {cores : Nat → Scheduler} {s : Scheduler} {d : Nat} (c : Nat)
    {tot : List Zombie} (h : Weitergabe (cores d) s tot []) :
    Weitergabe (cores c) (Function.update cores d s c) (if d = c then tot else []) [] := by
  have hstep := Weitergabe.update c h
  rw [ite_self] at hstep
  exact hstep

theorem Weitergabe.update_of_ring {cores : Nat → Scheduler} {s : Scheduler} {d : Nat} (c : Nat)
    (h : s.ring = (cores d).ring) : Weitergabe (cores c) (Function.update cores d s c) [] [] := by
  have hstep := Weitergabe.update_of_end c (Weitergabe.of_ring h)
  rw [ite_self] at hstep
  exact hstep

theorem weitergabe_of_kern (c : Nat) {op : Op} (h : S.step op = some S')
    (hexit : ∀ d, op ≠ .exitCurrent d) (hkill : ∀ d tid, op ≠ .kill d tid)
    (hreap : ∀ d, op ≠ .reap d) : Weitergabe (S.cores c) (S'.cores c) [] [] := by
  rcases step_kern h with ⟨hcores, -, -⟩ | ⟨d, s, hcores, hk⟩
  · rw [hcores]
    exact Weitergabe.of_ring rfl
  rw [hcores]
  generalize S'.migranten = ms at hk
  cases hk with
  | aufruf hs => exact Weitergabe.update_of_ring c (starr_ring.aufruf hs)
  | initCore hs => exact Weitergabe.update_of_ring c (ring_initCore hs)
  | spawnParked hop hs => exact Weitergabe.update_of_ring c (ring_spawnParked hs)
  | spawn hs => exact Weitergabe.update_of_ring c (ring_spawn hs)
  | exitCurrent hs => exact absurd rfl (hexit d)
  | kill hs => exact absurd rfl (hkill d _)
  | reap hs => exact absurd rfl (hreap d)
  | detachForMigration hs => exact Weitergabe.update_of_ring c (ring_detachForMigration hs)
  | attachMigrated hm hs => exact Weitergabe.update_of_ring c (ring_attachMigrated hs)

theorem step_weitergabe (c : Nat) {op : Op} (h : S.step op = some S') :
    Weitergabe (S.cores c) (S'.cores c) (S.gestorben c op) (S.geerntet c op) := by
  cases op with
  | exitCurrent d =>
    obtain ⟨⟨sp, s, v⟩, hs, rfl⟩ := Option.map_eq_some_iff.mp h
    obtain ⟨cur, s₁, hcur, -⟩ := exitCurrent_cases hs
    unfold gestorben geerntet
    dsimp only
    rw [hcur]
    exact Weitergabe.update_of_end c (weitergabe_exitCurrent hcur hs)
  | kill d tid =>
    obtain ⟨⟨b, s, v⟩, hs, rfl⟩ := Option.map_eq_some_iff.mp h
    exact Weitergabe.update_of_end c (weitergabe_kill hs)
  | reap d =>
    unfold step at h
    unfold gestorben geerntet
    dsimp only at h ⊢
    split at h
    · next hs =>
      cases h
      rw [hs]
      simp only [Option.map_none, Option.toList_none, ite_self]
      exact Weitergabe.of_ring rfl
    · next z s hs =>
      cases h
      rw [hs]
      have hstep := Weitergabe.update c (weitergabe_reap hs)
      rw [ite_self] at hstep
      exact hstep
  | aufruf d a | initCore d priority | spawnParked d sp base len priority
  | spawnUserAtParked d sp base len priority | spawn d sp base len priority | releaseGid k
  | detachForMigration d tid | attachMigrated d k => exact weitergabe_of_kern c h nofun nofun nofun

/-- One `reap`: it hands out the oldest, or finds nothing. -/
theorem step_reap (c : Nat) (T : System) :
    ∃ T', step T (.reap c) = some T' ∧
      T.geerntet c (.reap c) ++ (T'.cores c).vorgemerkt = (T.cores c).vorgemerkt ∧
      (T'.cores c).zcount = (T.cores c).zcount - 1 := by
  unfold step geerntet
  dsimp only
  rw [if_pos rfl]
  cases hs : (T.cores c).reap with
  | none =>
    have hempty : (T.cores c).zcount = 0 := by
      unfold reap at hs
      split at hs
      · next hzero => exact hzero
      · cases hs
    refine ⟨T, rfl, rfl, ?_⟩
    omega
  | some r =>
    obtain ⟨z, s⟩ := r
    obtain ⟨hread, hcount⟩ := vorgemerkt_reap hs
    refine ⟨_, rfl, ?_, ?_⟩
    · show [z] ++ (update T.cores c s c).vorgemerkt = _
      rw [update_self, hread]
      rfl
    · show (update T.cores c s c).zcount = _
      rw [update_self]
      omega

theorem collect_reap (c n : Nat) {T U : System}
    (h : run step T (List.replicate n (.reap c)) = some U) :
    collect step (geerntet c) T (List.replicate n (.reap c)) ++ (U.cores c).vorgemerkt =
      (T.cores c).vorgemerkt := by
  induction n generalizing T with
  | zero =>
    cases h
    rfl
  | succ n ih =>
    obtain ⟨T', hT', hread, -⟩ := step_reap c T
    rw [List.replicate_succ, run_cons_of_step hT'] at h
    rw [List.replicate_succ, collect_cons hT', List.append_assoc, ih h, hread]

theorem run_reap (c n : Nat) (T : System) (hn : (T.cores c).zcount = n) :
    ∃ U, run step T (List.replicate n (.reap c)) = some U ∧ (U.cores c).reap = none := by
  induction n generalizing T with
  | zero =>
    refine ⟨T, rfl, ?_⟩
    unfold reap
    rw [if_pos hn]
  | succ n ih =>
    obtain ⟨T', hT', -, hcount⟩ := step_reap c T
    obtain ⟨U, hU, hnone⟩ := ih T' (by omega)
    exact ⟨U, (run_cons_of_step hT' _).trans hU, hnone⟩

theorem ringOk_init (a : Ausbau) (c : Nat) : ((init a).cores c).RingOk where
  head := fun hpos => hpos
  count := Nat.zero_le _
  tail := (Nat.zero_mod _).symm

/-- Collecting until `reap` has nothing left hands out what every ended thread has left, once
and in the order of the ends, exactly if no thread ended while the ring of its core was
full. -/
theorem run_reaped_iff (a : Ausbau) (ops : List Op) (S : System)
    (hrun : run step (init a) ops = some S) :
    (∀ c xs T, xs <+: ops → run step (init a) xs = some T →
      ∃ n U, run step T (List.replicate n (.reap c)) = some U ∧ (U.cores c).reap = none ∧
        collect step (geerntet c) (init a) (xs ++ List.replicate n (.reap c)) =
          collect step (gestorben c) (init a) xs) ↔
    Admissible step Platz (init a) ops := by
  have hstep : ∀ c S op S', (S.cores c).RingOk → step S op = some S' →
      (S'.cores c).RingOk ∧ ((S.cores c).vorgemerkt ++ S.gestorben c op =
        S.geerntet c op ++ (S'.cores c).vorgemerkt ↔
        (S.gestorben c op ≠ [] → (S.cores c).zcount < (S.cores c).zombies.len)) :=
    fun c S op S' hok h => ⟨(step_weitergabe c h).ok hok, (step_weitergabe c h).law hok⟩
  refine Iff.trans (forall_congr' fun c => ?_) admissible_forall.symm
  refine Iff.trans ?_ (conserved_iff_admissible (hstep c) (ringOk_init a c) hrun)
  -- What is drained after a prefix is what waited there.
  refine forall_congr' fun xs => forall_congr' fun T => forall_congr' fun _ =>
    forall_congr' fun hxs => ?_
  have hempty : ((init a).cores c).vorgemerkt = [] := rfl
  have hdrain : ∀ n U, run step T (List.replicate n (.reap c)) = some U →
      (U.cores c).reap = none →
      collect step (geerntet c) (init a) (xs ++ List.replicate n (.reap c)) =
        collect step (geerntet c) (init a) xs ++ (T.cores c).vorgemerkt := by
    intro n U hU hnone
    rw [collect_append hxs, ← collect_reap c n hU, reap_eq_none hnone, List.append_nil]
  rw [hempty, List.nil_append]
  constructor
  · rintro ⟨n, U, hU, hnone, hall⟩
    rw [← hall, hdrain n U hU hnone]
  · intro hall
    obtain ⟨U, hU, hnone⟩ := run_reap c _ T rfl
    exact ⟨_, U, hU, hnone, by rw [hdrain _ U hU hnone, hall]⟩

def dreiEnden : List Op :=
  [Op.initCore 0 0, Op.spawnParked 0 0 100 16 1, Op.kill 0 ⟨1, 0⟩,
    Op.spawnParked 0 0 200 16 1, Op.kill 0 ⟨2, 0⟩,
    Op.spawnParked 0 0 300 16 1, Op.kill 0 ⟨3, 0⟩, Op.reap 0, Op.reap 0]

/-- The ring holds two ended threads: `reap` has nothing left, and the stack and the `gid` of
the third never come back. -/
theorem reap_misses_third_end :
    (run step (init ⟨2, 4, by decide⟩) dreiEnden).map (fun S => (S.cores 0).reap.isNone) =
        some true ∧
      collect step (gestorben 0) (init ⟨2, 4, by decide⟩) dreiEnden =
        [⟨100, 16, 1⟩, ⟨200, 16, 2⟩, ⟨300, 16, 3⟩] ∧
      collect step (geerntet 0) (init ⟨2, 4, by decide⟩) dreiEnden =
        [⟨100, 16, 1⟩, ⟨200, 16, 2⟩] := by
  decide +kernel

/-- One thread ends and is collected. -/
theorem run_reaped_iff_one_end :
    ∃ S, run step (init ⟨2, 4, by decide⟩)
        [Op.initCore 0 0, Op.spawnParked 0 0 100 16 1, Op.kill 0 ⟨1, 0⟩] = some S ∧
      ∃ n U, run step S (List.replicate n (.reap 0)) = some U ∧ (U.cores 0).reap = none ∧
        collect step (geerntet 0) (init ⟨2, 4, by decide⟩)
          ([Op.initCore 0 0, Op.spawnParked 0 0 100 16 1, Op.kill 0 ⟨1, 0⟩] ++
            List.replicate n (.reap 0)) = [⟨100, 16, 1⟩] := by
  have hread : (run step (init ⟨2, 4, by decide⟩)
      [Op.initCore 0 0, Op.spawnParked 0 0 100 16 1, Op.kill 0 ⟨1, 0⟩]).isSome = true := by
    decide
  have hroom : (run step (init ⟨2, 4, by decide⟩)
      [Op.initCore 0 0, Op.spawnParked 0 0 100 16 1]).map
        (fun S => ((S.cores 0).zcount, (S.cores 0).zombies.len)) = some (0, 2) := by
    decide
  have hdead : collect step (gestorben 0) (init ⟨2, 4, by decide⟩)
      [Op.initCore 0 0, Op.spawnParked 0 0 100 16 1, Op.kill 0 ⟨1, 0⟩] = [⟨100, 16, 1⟩] := by
    decide
  obtain ⟨S, hS⟩ := Option.isSome_iff_exists.mp hread
  refine ⟨S, hS, ?_⟩
  have hall := (run_reaped_iff _ _ S hS).mpr ?_ 0 _ S (List.prefix_refl _) hS
  · rw [hdead] at hall
    exact hall
  · refine ⟨fun c hne => absurd rfl hne, fun S₁ h₁ => ⟨fun c hne => absurd rfl hne, fun S₂ h₂ =>
      ⟨fun c hne => ?_, fun _ _ => trivial⟩⟩⟩
    rw [run_cons_of_step h₁, run_cons_of_step h₂] at hroom
    have hcore := Option.some.inj hroom
    simp only [Prod.mk.injEq] at hcore
    by_cases hc : c = 0
    · rw [hc, hcore.1, hcore.2]
      omega
    · exact absurd (if_neg (Ne.symm hc)) hne

end System

end Caprock.Sched
