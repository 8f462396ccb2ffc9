import Caprock.Sched.Operations

/-! # Threads come and go

Creation and arrival take a free slot, end and departure clear one; the rest of the table
and the running thread stay.  With these every step of the system keeps the ready lists of
every core, so they are ordered in every reachable state.
-/

namespace Caprock.Sched

open Execution LinkedList

/-- The block of a new thread: nothing holds it, no account bounds it, nobody lent to it. -/
def Tcb.Frisch (t : Tcb) : Prop :=
  ∃ gid gen sp priority base len,
    t = { Tcb.neu gid gen sp priority with stackBase := base, stackLen := len }

namespace Scheduler

/-- Thread `t` takes the free slot `i`; lists and running thread are the same. -/
structure Besetzt (s s' : Scheduler) (i : Nat) (t : Tcb) : Prop where
  free : ∃ free, s.free.alloc = some (i, free) ∧ s'.free = free
  queues : s'.queues = s.queues
  bitmap : s'.bitmap = s.bitmap
  tcbs : s'.tcbs = s.tcbs.set i t
  current : s'.current = s.current
  core : s'.core = s.core
  used : t.used = true
  queued : t.queued = none

namespace Besetzt

variable {s s' : Scheduler} {i : Nat} {t : Tcb}

theorem tcb (h : Besetzt s s' i t) (x : Nat) : s'.tcb x = if x = i then t else s.tcb x := by
  unfold Scheduler.tcb
  rw [h.tcbs]
  exact Slab.set_cell s.tcbs i x t

theorem unused (h : Besetzt s s' i t) (hs : s.Geordnet) : (s.tcb i).used = false := by
  obtain ⟨l, ho⟩ := hs
  obtain ⟨free, halloc, -⟩ := h.free
  obtain ⟨hcons, -⟩ := FreeList.alloc_eq_some halloc
  exact ((ho.free_mem i).mp (hcons ▸ List.mem_cons_self)).2

theorem gut (h : Besetzt s s' i t) (hs : s.Gut) : s'.Gut := by
  obtain ⟨free, halloc, hfree⟩ := h.free
  refine ⟨?_, ?_⟩
  · obtain ⟨l, ho⟩ := hs.1
    exact ⟨l, ho.belegen halloc h.used h.queued h.queues h.bitmap hfree h.tcbs⟩
  · intro j hj
    rw [h.current] at hj
    rw [h.tcb]
    split
    · exact h.used
    · exact hs.2 j hj

end Besetzt

/-- A new thread is unblocked, has no budget bound and is not admitted. -/
structure Neu (t : Tcb) : Prop where
  reasons : t.reasons = ∅
  depleted : t.depleted = false
  admitted : t.admitted = false

variable {s s' : Scheduler} {v v' : Verzeichnis} {i : Nat}

/-- A new thread `t` takes the free slot `i`. -/
def Zugang (s s' : Scheduler) (i : Nat) (t : Tcb) : Prop :=
  ∃ free, s.free.alloc = some (i, free) ∧ t.Frisch ∧ s' = s.belegen i free t

theorem besetzt_belegen {free : FreeList} {t : Tcb} (halloc : s.free.alloc = some (i, free))
    (hused : t.used = true) (hqueued : t.queued = none) : Besetzt s (s.belegen i free t) i t :=
  ⟨⟨free, halloc, rfl⟩, rfl, rfl, rfl, rfl, rfl, hused, hqueued⟩

theorem Zugang.besetzt {t : Tcb} (h : Zugang s s' i t) : Besetzt s s' i t := by
  obtain ⟨free, halloc, ⟨gid, gen, sp, priority, base, len, rfl⟩, rfl⟩ := h
  exact besetzt_belegen halloc rfl rfl

theorem Zugang.neu {t : Tcb} (h : Zugang s s' i t) : Neu t := by
  obtain ⟨-, -, ⟨gid, gen, sp, priority, base, len, rfl⟩, -⟩ := h
  exact ⟨rfl, rfl, rfl⟩

theorem allocTcb_cases {sp priority : Nat} (h : s.allocTcb v sp priority = some (i, s', v')) :
    ∃ t, Zugang s s' i t ∧
      ∃ v₁ : Verzeichnis, v' = v₁.store t.gid (packDir true t.gen s.core i) := by
  obtain ⟨free, gid, gidFree, e, halloc, -, -, rfl, rfl⟩ := allocTcb_eq_some h
  refine ⟨Tcb.neu gid e.gen sp priority, ⟨free, halloc, ⟨gid, e.gen, sp, priority, 0, 0, rfl⟩, rfl⟩,
    { v with gidFree := gidFree }, ?_⟩
  have htcb : (s.belegen i free (Tcb.neu gid e.gen sp priority)).tcb i =
      Tcb.neu gid e.gen sp priority := Slab.set_cell_self s.tcbs i _
  unfold publishDir
  rw [htcb]
  rfl

theorem spawnParked_cases {sp base len priority : Nat}
    (h : s.spawnParked v sp base len priority = some (i, s', v')) :
    ∃ t, Zugang s s' i t ∧
      ∃ v₁ : Verzeichnis, v' = v₁.store t.gid (packDir true t.gen s.core i) := by
  obtain ⟨s₁, halloc, rfl⟩ := spawnParked_eq_some h
  obtain ⟨t, ⟨free, hfree, ⟨gid, gen, sp', prio, base', len', rfl⟩, rfl⟩, v₂, hv⟩ :=
    allocTcb_cases halloc
  refine ⟨_, ⟨free, hfree, ⟨gid, gen, sp', prio, base, len, rfl⟩, ?_⟩, v₂, hv⟩
  unfold setStack modifyTcb belegen Slab.modify
  rw [Slab.set_cell_self]
  simp [Slab.set]

/-- The boot context takes a slot as any other thread, and runs. -/
theorem initCore_cases {priority : Nat} (h : s.initCore v priority = some (i, s', v')) :
    ∃ t s₁, Zugang s s₁ i t ∧ s' = s₁.setCurrent i := by
  obtain ⟨s₁, halloc, rfl⟩ := initCore_eq_some h
  obtain ⟨t, ht, -⟩ := allocTcb_cases halloc
  exact ⟨t, s₁, ht, rfl⟩

theorem gut_initCore {priority : Nat} (hs : s.Gut) (h : s.initCore v priority = some (i, s', v')) :
    s'.Gut := by
  obtain ⟨t, s₁, hz, rfl⟩ := initCore_cases h
  have hb := hz.besetzt
  refine gut_setCurrent (hb.gut hs).1 ?_
  rw [hb.tcb, if_pos rfl]
  exact hb.used

theorem resolve_spawned {sp base len priority j : Nat} (hs : s.Gut)
    (h : s.spawnParked v sp base len priority = some (i, s', v'))
    (hres : s'.resolve v' (s'.id i) = some j) : j = i := by
  obtain ⟨t, hz, v₁, rfl⟩ := spawnParked_cases h
  have hb := hz.besetzt
  have htcb : s'.tcb i = t := by rw [hb.tcb, if_pos rfl]
  obtain ⟨l, ho⟩ := (hb.gut hs).1
  have hlt : i < 2 ^ 16 := Nat.lt_of_lt_of_le (ho.bound i (htcb ▸ hb.used)) ho.size
  have hres := resolve_cases hres
  unfold id at hres
  rw [htcb] at hres
  have hlokal := congrArg DirEntry.lokal (Verzeichnis.get_store hres.entry)
  exact hlokal.trans (Nat.mod_eq_of_lt hlt)

/-- A thread that is created ready is admitted and linked, unless its handle is worn out. -/
theorem spawn_cases {sp base len priority : Nat} {r : Option ThreadId} (hs : s.Gut)
    (h : s.spawn v sp base len priority = some (r, s', v')) :
    s' = s ∨ ∃ i t s₁, Zugang s s₁ i t ∧
      (s' = s₁ ∨ (s₁.setAdmitted i).enqueueReady i = some s') := by
  rcases spawn_eq_some h with ⟨rfl, -⟩ | ⟨i, s₁, b, hpark, -, hadm⟩
  · exact .inl rfl
  · obtain ⟨t, ht, -⟩ := spawnParked_cases hpark
    refine .inr ⟨i, t, s₁, ht, ?_⟩
    rcases admitThread_cases hadm with rfl | ⟨j, hj, he⟩
    · exact .inl rfl
    · rw [resolve_spawned hs hpark hj] at he
      exact .inr he

theorem gut_spawn {sp base len priority : Nat} {r : Option ThreadId} (hs : s.Gut)
    (h : s.spawn v sp base len priority = some (r, s', v')) : s'.Gut := by
  rcases spawn_eq_some h with ⟨rfl, -⟩ | ⟨i, s₁, b, hparked, -, hadmit⟩
  · exact hs
  · obtain ⟨t, hz, -⟩ := spawnParked_cases hparked
    exact (Bewahrt.admitThread hadmit).gut (hz.besetzt.gut hs)

theorem tcb_slotLeeren (s : Scheduler) (i x : Nat) :
    (s.slotLeeren i).tcb x = if x = i then Tcb.empty else s.tcb x :=
  Slab.set_cell s.tcbs i x Tcb.empty

/-- The thread in slot `i` is gone; occupation of the others and the running thread stay. -/
structure Geraeumt (s s' : Scheduler) (i : Nat) : Prop where
  current : s'.current = s.current
  used : ∀ x, x ≠ i → (s'.tcb x).used = (s.tcb x).used
  empty : s'.tcb i = Tcb.empty

theorem Geraeumt.gut (h : Geraeumt s s' i) (hs : s.Laufend) (hi : s.current ≠ some i)
    (ho : s'.Geordnet) : s'.Gut := by
  refine ⟨ho, ?_⟩
  intro j hj
  rw [h.current] at hj
  have hji : j ≠ i := by
    rintro rfl
    exact hi hj
  rw [h.used j hji]
  exact hs j hj

theorem geordnet_slotLeeren (hs : s.Geordnet) (hi : (s.tcb i).used = true) :
    ((s.removeFromReady i).slotLeeren i).Geordnet ∧
      Geraeumt s ((s.removeFromReady i).slotLeeren i) i := by
  have hrem := Bewahrt.removeFromReady s i
  obtain ⟨l, ho⟩ := hrem.1 hs
  have hq : ((s.removeFromReady i).tcb i).queued = none := by
    rw [(Ordnung.flags_of_daten (daten_removeFromReady s i) i).1, if_pos rfl]
  refine ⟨⟨l, ho.leeren ((hrem.2.used i).trans hi) hq⟩, hrem.2.current, ?_, ?_⟩
  · intro x hx
    rw [tcb_slotLeeren, if_neg hx]
    exact hrem.2.used x
  · rw [tcb_slotLeeren, if_pos rfl]

theorem listengleich_zombieAblegen (s : Scheduler) (z : Zombie) :
    Listengleich s (s.zombieAblegen z) ∧ (s.zombieAblegen z).current = s.current := by
  unfold zombieAblegen
  split <;> exact ⟨⟨rfl, rfl, rfl, rfl⟩, rfl⟩

theorem tcb_of_listengleich (h : Listengleich s s') (x : Nat) : s'.tcb x = s.tcb x := by
  unfold tcb
  rw [h.tcbs]

theorem geordnet_recordZombie (hs : s.Geordnet) (hi : (s.tcb i).used = true)
    (h : s.recordZombie v i = some (s', v')) : s'.Geordnet ∧ Geraeumt s s' i := by
  obtain ⟨s₁, z, hrun, rfl⟩ := recordZombie_cases h
  have hloop : Bewahrt s (s₁.doneeAustragen i) :=
    (Bewahrt.loop (fun _ _ _ hd => Bewahrt.spendeLoesen hd) hrun).trans
      (Bewahrt.doneeAustragen s₁ i)
  obtain ⟨ho, hg⟩ := geordnet_slotLeeren (hloop.1 hs) ((hloop.2.used i).trans hi)
  obtain ⟨hz, hcur⟩ := listengleich_zombieAblegen
    (((s₁.doneeAustragen i).removeFromReady i).slotLeeren i) z
  refine ⟨ho.listengleich hz, hcur.trans (hg.current.trans hloop.2.current), ?_, ?_⟩
  · intro x hx
    rw [tcb_of_listengleich hz]
    exact (hg.used x hx).trans (hloop.2.used x)
  · rw [tcb_of_listengleich hz]
    exact hg.empty

theorem gut_exitCurrent {sp : Nat} (hs : s.Gut) (h : s.exitCurrent v = some (sp, s', v')) :
    s'.Gut := by
  obtain ⟨cur, s₁, hcur, hzombie, hw⟩ := exitCurrent_cases h
  exact gut_wechseln (geordnet_recordZombie hs.1 (hs.2 cur hcur) hzombie).1 hw

theorem gut_kill {tid : ThreadId} {b : Bool} (hs : s.Gut) (h : s.kill v tid = some (b, s', v')) :
    s'.Gut := by
  rcases kill_cases h with rfl | ⟨i, hi, hcur, hz⟩
  · exact hs
  · have hrem := Bewahrt.removeFromReady s i
    obtain ⟨ho, hg⟩ := geordnet_recordZombie (hrem.1 hs.1)
      ((hrem.2.used i).trans (resolve_used hi)) hz
    exact hg.gut (hrem.gut hs).2 (hrem.2.current.symm ▸ hcur) ho

theorem gut_reap {z : Zombie} (hs : s.Gut) (h : s.reap = some (z, s')) : s'.Gut := by
  obtain ⟨-, -, rfl⟩ := reap_eq_some h
  have hsame : Listengleich s
      { s with zhead := (s.zhead + 1) % s.zombies.len, zcount := s.zcount - 1 } :=
    ⟨rfl, rfl, rfl, rfl⟩
  exact (Bewahrt.listengleich hsame rfl).gut hs

theorem gut_detachForMigration {tid : ThreadId} {m : Migrant} (hs : s.Gut)
    (h : s.detachForMigration v tid = some (m, s')) : s'.Gut ∧ m.tcb.used = true := by
  obtain ⟨i, n, ⟨hi, hcur, -⟩, rfl, rfl⟩ := detachForMigration_cases h
  obtain ⟨ho, hg⟩ := geordnet_slotLeeren hs.1 (resolve_used hi)
  refine ⟨?_, ((Rahmen.removeFromReady s i).used i).trans (resolve_used hi)⟩
  have hsame : Listengleich ((s.removeFromReady i).slotLeeren i)
      { (s.removeFromReady i).slotLeeren i with migrationsOut := n } := ⟨rfl, rfl, rfl, rfl⟩
  exact (Bewahrt.listengleich hsame rfl).gut (hg.gut hs.2 hcur ho)

theorem besetzt_aufnehmen {free : FreeList} {t : Tcb} (halloc : s.free.alloc = some (i, free))
    (ht : t.used = true) : Besetzt s (s.aufnehmen i free (s.ankunft t)) i (s.ankunft t) :=
  ⟨⟨free, halloc, rfl⟩, rfl, rfl, rfl, rfl, rfl, ht, rfl⟩

theorem attachMigrated_cases {m : Migrant} (h : s.attachMigrated v m = some (.ok (s', v')))
    (hm : m.tcb.used = true) :
    ∃ i s₁, Besetzt s s₁ i (s.ankunft m.tcb) ∧
      (m.wasReady = true ∧ s₁.enqueueReady i = some s' ∨ m.wasReady = false ∧ s' = s₁) := by
  obtain ⟨i, free, halloc, -, hcases⟩ := attachMigrated_aufnahme h
  exact ⟨i, _, besetzt_aufnehmen halloc hm, hcases⟩

theorem gut_attachMigrated {m : Migrant} (hs : s.Gut) (hm : m.tcb.used = true)
    (h : s.attachMigrated v m = some (.ok (s', v'))) : s'.Gut := by
  obtain ⟨i, s₁, hb, ⟨-, he⟩ | ⟨-, rfl⟩⟩ := attachMigrated_cases h hm
  · refine (Bewahrt.enqueueReady ?_ he).gut (hb.gut hs)
    rw [hb.tcb, if_pos rfl]
    exact hb.used
  · exact hb.gut hs

theorem map_snd_eq_some {α : Type} {r : Option (α × Scheduler)} (h : r.map Prod.snd = some s') :
    ∃ a, r = some (a, s') := by
  obtain ⟨⟨a, t⟩, heq, rfl⟩ := Option.map_eq_some_iff.mp h
  exact ⟨a, heq⟩

theorem gut_aufruf {a : Aufruf} (hs : s.Gut) (h : s.aufruf v a = some s') : s'.Gut := by
  cases a with
  | admitThread tid =>
    obtain ⟨b, h⟩ := map_snd_eq_some h
    exact (Bewahrt.admitThread h).gut hs
  | blockCurrent frame | blockForHandler frame | blockForLoad frame =>
    obtain ⟨sp, h⟩ := map_snd_eq_some h
    exact gut_blockCurrentMit hs h
  | parkCurrent frame =>
    obtain ⟨r, h⟩ := map_snd_eq_some h
    exact gut_parkCurrent hs h
  | switchTo frame target =>
    obtain ⟨sp, h⟩ := map_snd_eq_some h
    exact gut_switchTo hs h
  | unblock tid =>
    obtain ⟨b, h⟩ := map_snd_eq_some h
    exact (Bewahrt.unblock h).gut hs
  | unpark tid =>
    obtain ⟨b, h⟩ := map_snd_eq_some h
    exact (Bewahrt.unpark h).gut hs
  | pause tid =>
    cases h
    exact (Bewahrt.anhalten s v tid .pause).gut hs
  | resume tid | handlerReply tid | loadReply tid =>
    obtain ⟨b, h⟩ := map_snd_eq_some h
    exact (Bewahrt.grundAufheben h).gut hs
  | markHandlerWait tid =>
    cases h
    exact (Bewahrt.anhalten s v tid .handler).gut hs
  | debugStop tid =>
    cases h
    exact (Bewahrt.einmalAnhalten s v tid .debug).gut hs
  | debugContinue tid | thawGroup tid =>
    obtain ⟨b, h⟩ := map_snd_eq_some h
    rcases grundAufheben_of_gesetzt h with rfl | h
    · exact hs
    · exact (Bewahrt.grundAufheben h).gut hs
  | debugReleasePd pdOf pd =>
    obtain ⟨n, h⟩ := map_snd_eq_some h
    exact (Bewahrt.debugReleasePd h).gut hs
  | freezeGroup tid =>
    cases h
    exact (Bewahrt.einmalAnhalten s v tid .freeze).gut hs
  | fristSetzen ticks grund => exact (Bewahrt.fristSetzen h).gut hs
  | fristLoeschen tid =>
    cases h
    exact (Bewahrt.fristLoeschen s v tid).gut hs
  | fristenFaellig outLen =>
    obtain ⟨out, h⟩ := map_snd_eq_some h
    exact (Bewahrt.fristenFaellig h).gut hs
  | onTick frame tick =>
    obtain ⟨sp, h⟩ := map_snd_eq_some h
    exact gut_onTick hs h
  | setBudget tid budget period =>
    obtain ⟨b, h⟩ := map_snd_eq_some h
    exact (Bewahrt.setBudget h).gut hs
  | endDonation =>
    cases h
    exact (Bewahrt.endDonation s).gut hs

end Scheduler

end Caprock.Sched
