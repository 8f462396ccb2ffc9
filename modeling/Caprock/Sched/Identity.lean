import Caprock.Sched.Registered

/-! # Which thread a handle names

A handle is a `gid` with a generation, both taken from the directory when the thread is made.
The history of the registry numbers the threads in the order in which they were made and
follows each of them through the slots of the cores.  `run_identitaet`: a handle leads exactly
to the slot of the thread it was made for, as long as no `gid` is given out more than `2 ^ 31`
times and nobody takes a slot on the core that a thread under way has left.
-/

namespace Caprock.Sched

open Execution Registry Function

def nameOf (tid : ThreadId) : Name := ⟨tid.slot, tid.gen⟩

namespace System

open Scheduler

abbrev Verfolgt : Type := System × History (Nat × Nat)

def Verfolgt.init (a : Ausbau) : Verfolgt := (System.init a, History.start)

def Verfolgt.step (Z : Verfolgt) (op : Op) : Option Verfolgt :=
  (Z.1.step op).map fun S => (S, Z.2.follow (Z.1.ereignis op))

def Verfolgt.Ungestoert (Z : Verfolgt) (op : Op) : Prop := Z.1.Ungestoert op

instance (Z : Verfolgt) (op : Op) : Decidable (Z.Ungestoert op) :=
  inferInstanceAs (Decidable (Z.1.Ungestoert op))

/-- Cores in order under their own numbers, and a directory that is sound for the history. -/
structure Registriert (Z : Verfolgt) : Prop where
  gut : Z.1.Gut
  ring : ∀ c, (Z.1.cores c).RingOk
  kern : ∀ c, (Z.1.cores c).core = c
  sound : Sound (2 ^ 31) Z.1.register Z.2

theorem registriert_init (a : Ausbau) : Registriert (Verfolgt.init a) where
  gut := gut_init a
  ring := ringOk_init a
  kern := fun _ => rfl
  sound := by
    refine sound_start (l := List.range a.threads) (a := Fach.frei) ?_ (fun _ => rfl) rfl ?_ ?_
    · rw [Multiset.coe_nodup]
      exact List.nodup_range
    · intro k
      cases k <;> rfl
    · intro g e he
      obtain ⟨d, hd, rfl⟩ := Option.map_eq_some_iff.mp he
      have hcell : d = ⟨false, 0, 0, 0⟩ := by
        unfold Slab.get at hd
        split at hd
        · exact (Option.some.inj hd).symm
        · cases hd
      rw [hcell]
      exact ⟨rfl, rfl⟩

variable {S S' : System}

theorem core_of_kern {v : Verzeichnis} {c : Nat} {s s' : Scheduler} {ms ms' : List Migrant}
    {op : Op} (hs : s.Gut) (hms : ∀ m ∈ ms, m.tcb.used = true)
    (hk : Kernschritt v c s ms op s' ms') : s'.core = s.core := by
  cases hk with
  | aufruf h => exact core_of_bild (starr_bild.aufruf h)
  | initCore h =>
    obtain ⟨nm, -, hg⟩ := geburt_initCore hs h
    exact hg.erschienen.core
  | spawnParked hop h =>
    obtain ⟨nm, -, hg⟩ := geburt_spawnParked hs h
    exact hg.erschienen.core
  | spawn h =>
    unfold spawn at h
    split at h
    · cases h
      rfl
    · next hparked =>
      obtain ⟨⟨b, s₁⟩, hadmit, htuple⟩ := Option.map_eq_some_iff.mp h
      cases htuple
      obtain ⟨nm, -, hg⟩ := geburt_spawnParked hs hparked
      exact (core_of_bild (starr_bild.blind.admitThread hadmit)).trans hg.erschienen.core
  | exitCurrent h =>
    obtain ⟨i, nm, -, he⟩ := ende_exitCurrent hs h
    exact he.core
  | kill h =>
    rcases ende_kill h with ⟨rfl, -, -⟩ | ⟨i, nm, -, -, he⟩
    · rfl
    · exact he.core
  | reap h =>
    obtain ⟨-, -, rfl⟩ := reap_eq_some h
    rfl
  | detachForMigration h =>
    obtain ⟨i, -, -, hcore, -, -⟩ := abreise h
    exact hcore
  | attachMigrated hm h =>
    obtain ⟨i, free, -, he, -⟩ := ankunft_attachMigrated hs (hms _ (List.mem_of_getElem? hm)) h
    exact he.core

theorem kern_step {op : Op} (hgut : S.Gut) (hkern : ∀ c, (S.cores c).core = c)
    (h : S.step op = some S') (c : Nat) : (S'.cores c).core = c := by
  rcases step_kern h with ⟨hcores, -, -⟩ | ⟨d, s, hcores, hk⟩
  · rw [hcores]
    exact hkern c
  · rw [hcores]
    by_cases hc : c = d
    · subst hc
      rw [update_self, core_of_kern (hgut.1 c) hgut.2 hk]
      exact hkern c
    · rw [update_of_ne hc]
      exact hkern c

theorem Registriert.step {Z : Verfolgt} (hZ : Registriert Z) {op : Op} {Z' : Verfolgt}
    (hok : Z.Ungestoert op) (h : Z.step op = some Z') : Registriert Z' := by
  obtain ⟨S', hS', rfl⟩ := Option.map_eq_some_iff.mp h
  have hstep := step_registriert hZ.gut hZ.ring hZ.kern hZ.sound.listed hok hS'
  exact ⟨step_gut Z.1 op S' hZ.gut hS', fun c => (step_weitergabe c hS').ok (hZ.ring c),
    kern_step hZ.gut hZ.kern hS', hZ.sound.step hstep⟩

theorem run_registriert {a : Ausbau} {ops : List Op} {Z : Verfolgt}
    (hok : Admissible Verfolgt.step Verfolgt.Ungestoert (Verfolgt.init a) ops)
    (h : run Verfolgt.step (Verfolgt.init a) ops = some Z) : Registriert Z :=
  run_invariant (fun _ _ _ hZ hop hstep => hZ.step hop hstep) (registriert_init a) hok h

theorem resolve_iff (hgut : S.Gut) (hkern : ∀ c, (S.cores c).core = c) (tid : ThreadId)
    (c i : Nat) :
    (S.cores c).resolve S.verzeichnis tid = some i ↔ S.register.Resolves (nameOf tid) (c, i) := by
  constructor
  · intro h
    have ha := resolve_cases h
    refine ⟨?_, ⟨((S.cores c).tcb i).gid, ((S.cores c).tcb i).gen⟩, ?_, ha.gen⟩
    · show (S.verzeichnis.directory.get tid.slot).map _ = _
      rw [ha.entry, hkern]
      rfl
    · show (if ((S.cores c).tcb i).used then _ else none) = _
      rw [ha.used]
      rfl
  · rintro ⟨hentry, o, ho, hgen⟩
    obtain ⟨d, hd, hfields⟩ := Option.map_eq_some_iff.mp hentry
    simp only [Entry.mk.injEq, Prod.mk.injEq] at hfields
    obtain ⟨hdused, hdgen, hdcore, hdlokal⟩ := hfields
    have hname : (if ((S.cores c).tcb i).used then
        some (⟨((S.cores c).tcb i).gid, ((S.cores c).tcb i).gen⟩ : Name) else none) = some o := ho
    split at hname
    · next hused =>
      cases hname
      obtain ⟨l, hordnung⟩ := (hgut.1 c).1
      have hlt := hordnung.bound i hused
      have hget : S.verzeichnis.directory.get tid.slot = some d := hd
      have hgen' : ((S.cores c).tcbs.cell i).gen = tid.gen := hgen
      have hused' : ((S.cores c).tcbs.cell i).used = true := hused
      have hdgen' : d.gen = tid.gen := hdgen
      unfold resolve
      rw [hget]
      simp [hdused, hdgen', hdcore, hkern, hdlokal, Slab.get, hlt, hused', hgen']
    · cases hname

/-- After an undisturbed run in which every `gid` was given out at most `2 ^ 31` times, the
handle of the thread that was made as number `n` is resolved by core `c` to slot `i` exactly
if that thread is there.  The thread is in one slot of one core, or under way, or has ended. -/
theorem run_identitaet (a : Ausbau) (ops : List Op) (S : System) (h : History (Nat × Nat))
    (hok : Admissible Verfolgt.step Verfolgt.Ungestoert (Verfolgt.init a) ops)
    (hrun : run Verfolgt.step (Verfolgt.init a) ops = some (S, h))
    (hbirths : ∀ gid, h.births gid ≤ 2 ^ 31)
    (n : Nat) (tid : ThreadId) (hn : h.issued[n]? = some (nameOf tid)) :
    (∀ c i, (S.cores c).resolve S.verzeichnis tid = some i ↔ h.spot (c, i) = some n) ∧
      ((∃! p, h.spot p = some n) ∧ n ∉ h.away ∧ n ∉ h.ended ∨
        (∀ p, h.spot p ≠ some n) ∧ n ∈ h.away ∧ n ∉ h.ended ∨
        (∀ p, h.spot p ≠ some n) ∧ n ∉ h.away ∧ n ∈ h.ended) := by
  have hZ := run_registriert hok hrun
  refine ⟨fun c i => ?_, hZ.sound.whereabouts (List.getElem?_eq_some_iff.mp hn).1⟩
  rw [resolve_iff hZ.gut hZ.kern]
  exact hZ.sound.resolves_iff hbirths hn (c, i)

/-- An idle thread, and one that moves to the other core; another takes the place it left. -/
def umzug : List Op :=
  [.initCore 0 0, .spawnParked 0 0 0 0 1, .detachForMigration 0 ⟨1, 0⟩, .attachMigrated 1 0,
    .spawnParked 0 0 0 0 1]

theorem run_identitaet_moved :
    ∃ S h, run Verfolgt.step (Verfolgt.init ⟨2, 4, by decide⟩) umzug = some (S, h) ∧
      h.spot (0, 1) = some 2 ∧ h.spot (1, 0) = some 1 ∧
      (S.cores 1).resolve S.verzeichnis ⟨1, 0⟩ = some 0 ∧
      (S.cores 0).resolve S.verzeichnis ⟨1, 0⟩ = none := by
  have hread : (run Verfolgt.step (Verfolgt.init ⟨2, 4, by decide⟩) umzug).map
      (fun Z => (Z.2.spot (0, 1), Z.2.spot (1, 0), Z.2.issued)) =
      some (some 2, some 1, [⟨0, 0⟩, ⟨1, 0⟩, ⟨2, 0⟩]) := by
    decide
  have hok : Admissible Verfolgt.step Verfolgt.Ungestoert (Verfolgt.init ⟨2, 4, by decide⟩)
      umzug := by
    decide
  obtain ⟨⟨S, h⟩, hrun, hdata⟩ := Option.map_eq_some_iff.mp hread
  simp only [Prod.mk.injEq] at hdata
  obtain ⟨hspot₀, hspot₁, hissued⟩ := hdata
  have hbirths : ∀ gid, h.births gid ≤ 2 ^ 31 := by
    intro gid
    have hle : h.births gid ≤ h.issued.length := List.countP_le_length
    rw [hissued] at hle
    exact hle.trans (by decide)
  obtain ⟨hres, hwo⟩ := run_identitaet ⟨2, 4, by decide⟩ umzug S h hok hrun hbirths 1 ⟨1, 0⟩
    (by rw [hissued]; rfl)
  refine ⟨S, h, hrun, hspot₀, hspot₁, (hres 1 0).mpr hspot₁, ?_⟩
  cases hnone : (S.cores 0).resolve S.verzeichnis ⟨1, 0⟩ with
  | none => rfl
  | some i =>
      -- A thread on both cores would be in two places.
      have hother := (hres 0 i).mp hnone
      rcases hwo with ⟨⟨p, hp, huniq⟩, -⟩ | ⟨hnot, -⟩ | ⟨hnot, -⟩
      · have h₀ := huniq _ hother
        have h₁ := huniq _ hspot₁
        have heq := congrArg Prod.fst (h₀.trans h₁.symm)
        cases heq
      · exact absurd hspot₁ (hnot _)
      · exact absurd hspot₁ (hnot _)

/-! ## A core with one slot

One slot and one `gid`: threads are made and killed one after the other, and after `2 ^ 31` of
them the generation is where it began.
-/

def leer (z : Nat → Zombie) : Scheduler := { attached 0 1 with zombies := ⟨1, z⟩ }

def voll (z : Nat → Zombie) (gen : Nat) : Scheduler :=
  { leer z with
    tcbs := (leer z).tcbs.set 0 (Tcb.neu 0 gen 0 0), free := ⟨1, []⟩, used := 1 }

theorem spawnParked_leer (z : Nat → Zombie) (cell : Nat → DirEntry) :
    (leer z).spawnParked ⟨⟨1, cell⟩, ⟨1, [0]⟩⟩ 0 0 0 0 =
      some (0, voll z (cell 0).gen,
        ⟨⟨1, update cell 0 (packDir true (cell 0).gen 0 0)⟩, ⟨1, []⟩⟩) := by
  have halloc : (leer z).free.alloc = some (0, ⟨1, []⟩) := rfl
  have hgid : (⟨1, [0]⟩ : FreeList).alloc = some (0, ⟨1, []⟩) := rfl
  have hcell : (⟨1, cell⟩ : Slab DirEntry).get 0 = some (cell 0) := rfl
  simp only [spawnParked, allocTcb, halloc, hgid, hcell]
  simp [voll, setStack, modifyTcb, Slab.modify, Slab.set, belegen, publishDir, Verzeichnis.store, tcb, leer, attached, Tcb.neu, Tcb.empty]

theorem kill_voll (z : Nat → Zombie) {v : Verzeichnis} {gen : Nat}
    (hv : v.directory.get 0 = some ⟨true, gen, 0, 0⟩) :
    (voll z gen).kill v ⟨0, gen⟩ =
      some (true, { leer (update z 0 ⟨0, 0, 0⟩) with zcount := 1 },
        v.store 0 (packDir false (gen + 1) 0 0)) := by
  have hres : (voll z gen).resolve v ⟨0, gen⟩ = some 0 := by
    unfold resolve
    rw [hv]
    simp [voll, leer, attached, Slab.get, Slab.set, Tcb.neu, Slab.attach]
  have hrem : (voll z gen).removeFromReady 0 = voll z gen := rfl
  have hrun : run (spendeLoesen 0) (voll z gen) (List.range 1) = some (voll z gen) := rfl
  unfold kill
  rw [hres]
  dsimp only
  rw [if_neg (by simp [voll, leer, attached]), hrem]
  unfold recordZombie
  have hlen : (voll z gen).tcbs.len = 1 := rfl
  rw [hlen, hrun]
  have hdonee : (voll z gen).doneeAustragen 0 = voll z gen := rfl
  simp only [hdonee, hrem]
  simp [voll, slotLeeren, zombieAblegen, tcb, leer, attached, Slab.set, Tcb.neu, Slab.attach, Tcb.empty]
  rfl

theorem reap_leer (z : Nat → Zombie) :
    ({ leer z with zcount := 1 } : Scheduler).reap = some (z 0, leer z) := by
  simp [reap, leer, attached]

/-- A system with one slot on core 0 and one `gid`, and nobody under way. -/
structure Einplatz (S : System) (s : Scheduler) (v : Verzeichnis) (eingesammelt : List Nat) :
    Prop where
  kern : S.cores 0 = s
  verzeichnis : S.verzeichnis = v
  migranten : S.migranten = []
  eingesammelt : S.eingesammelt = eingesammelt

theorem cores_weiter (S : System) (c : Nat) (s : Scheduler) (v : Verzeichnis) :
    (S.weiter c s v).cores c = s := update_self ..

variable {S : System} {z : Nat → Zombie} {cell : Nat → DirEntry} {v : Verzeichnis}

theorem Einplatz.spawnParked (h : Einplatz S (leer z) ⟨⟨1, cell⟩, ⟨1, [0]⟩⟩ []) :
    ∃ S', S.step (.spawnParked 0 0 0 0 0) = some S' ∧
      S.ereignis (.spawnParked 0 0 0 0 0) = .born (0, 0) ⟨0, (cell 0).gen⟩ ∧
      Einplatz S' (voll z (cell 0).gen)
        ⟨⟨1, update cell 0 (packDir true (cell 0).gen 0 0)⟩, ⟨1, []⟩⟩ [] := by
  unfold System.step ereignis
  dsimp only
  rw [h.kern, h.verzeichnis, spawnParked_leer]
  exact ⟨_, rfl, rfl, cores_weiter .., rfl, h.migranten, h.eingesammelt⟩

theorem Einplatz.kill {gen : Nat} (h : Einplatz S (voll z gen) v [])
    (hv : v.directory.get 0 = some ⟨true, gen, 0, 0⟩) :
    ∃ S', S.step (.kill 0 ⟨0, gen⟩) = some S' ∧
      Einplatz S' { leer (update z 0 ⟨0, 0, 0⟩) with zcount := 1 }
        (v.store 0 (packDir false (gen + 1) 0 0)) [] := by
  unfold System.step
  dsimp only
  rw [h.kern, h.verzeichnis, kill_voll z hv]
  exact ⟨_, rfl, cores_weiter .., rfl, h.migranten, h.eingesammelt⟩

theorem Einplatz.reap (h : Einplatz S { leer z with zcount := 1 } v []) :
    ∃ S', S.step (.reap 0) = some S' ∧ Einplatz S' (leer z) v [(z 0).gid] := by
  unfold System.step
  dsimp only
  rw [h.kern, reap_leer]
  refine ⟨_, rfl, cores_weiter S 0 (leer z) S.verzeichnis, h.verzeichnis, h.migranten, ?_⟩
  rw [h.eingesammelt]
  rfl

theorem Einplatz.releaseGid {s : Scheduler} {gid : Nat} (h : Einplatz S s v [gid]) :
    ∃ S', S.step (.releaseGid 0) = some S' ∧ Einplatz S' s (v.releaseGid gid) [] := by
  unfold System.step
  rw [h.eingesammelt, h.verzeichnis]
  exact ⟨_, rfl, h.kern, rfl, h.migranten, rfl⟩

/-- The slot is free after `n` threads, which had the names of the list. -/
structure Ruhe (n : Nat) (Z : Verfolgt) : Prop where
  platz : ∃ z cell, Einplatz Z.1 (leer z) ⟨⟨1, cell⟩, ⟨1, [0]⟩⟩ [] ∧
    cell 0 = ⟨false, n % 2 ^ 31, 0, 0⟩
  issued : Z.2.issued = (List.range n).map fun k => ⟨0, k % 2 ^ 31⟩

def leben (n : Nat) : List Op :=
  [.spawnParked 0 0 0 0 0, .kill 0 ⟨0, n % 2 ^ 31⟩, .reap 0, .releaseGid 0]

theorem issued_of_not_born {h : History (Nat × Nat)} {e : Event (Nat × Nat)}
    (he : ∀ p nm, e ≠ .born p nm) : (h.follow e).issued = h.issued := by
  cases e with
  | born p nm => exact absurd rfl (he p nm)
  | _ => rfl

theorem ereignis_kill_ne_born (S : System) (c : Nat) (tid : ThreadId) (p : Nat × Nat) (nm : Name) :
    S.ereignis (.kill c tid) ≠ .born p nm := by
  unfold ereignis
  dsimp only
  split
  · nofun
  · split <;> nofun

theorem verfolgt_step {S S' : System} {h : History (Nat × Nat)} {op : Op}
    (hstep : S.step op = some S') :
    Verfolgt.step (S, h) op = some (S', h.follow (S.ereignis op)) := by
  unfold Verfolgt.step
  rw [hstep]
  rfl

theorem ungestoert_of_nimmt {Z : Verfolgt} {op : Op} (hop : op.nimmt = none) : Z.Ungestoert op := by
  intro c k h
  rw [hop] at h
  cases h

theorem ungestoert_of_leer {Z : Verfolgt} {op : Op} (hms : Z.1.migranten = [])
    (hop : ∀ c k, op.nimmt = some (c, k) → c < 2 ^ 16) : Z.Ungestoert op := by
  intro c k h
  refine ⟨hop c k h, fun j m hj => ?_⟩
  rw [hms] at hj
  cases hj

theorem ruhe_leben {n : Nat} {Z : Verfolgt} (hZ : Ruhe n Z) :
    (∃ Z', run Verfolgt.step Z (leben n) = some Z' ∧ Ruhe (n + 1) Z') ∧
      Admissible Verfolgt.step Verfolgt.Ungestoert Z (leben n) := by
  obtain ⟨S, h⟩ := Z
  obtain ⟨⟨z, cell, hplatz, hcell⟩, hissued⟩ := hZ
  obtain ⟨S₁, hS₁, hborn, hplatz₁⟩ := hplatz.spawnParked
  rw [hcell] at hborn hplatz₁
  obtain ⟨S₂, hS₂, hplatz₂⟩ := hplatz₁.kill (by simp [Slab.get, packDir])
  obtain ⟨S₃, hS₃, hplatz₃⟩ := hplatz₂.reap
  obtain ⟨S₄, hS₄, hplatz₄⟩ := hplatz₃.releaseGid
  have hrun : ∃ h₄, run Verfolgt.step (S, h) (leben n) = some (S₄, h₄) ∧
      h₄.issued = h.issued ++ [⟨0, n % 2 ^ 31⟩] := by
    unfold leben
    rw [run_cons_of_step (verfolgt_step hS₁), run_cons_of_step (verfolgt_step hS₂),
      run_cons_of_step (verfolgt_step hS₃), run_cons_of_step (verfolgt_step hS₄), run_nil]
    refine ⟨_, rfl, ?_⟩
    show ((h.follow (S.ereignis (.spawnParked 0 0 0 0 0))).follow
      (S₁.ereignis (.kill 0 ⟨0, n % 2 ^ 31⟩))).issued = _
    rw [issued_of_not_born (ereignis_kill_ne_born _ _ _), hborn]
    rfl
  obtain ⟨h₄, hrun, hissued₄⟩ := hrun
  refine ⟨⟨(S₄, h₄), hrun, ⟨⟨_, _, hplatz₄, ?_⟩, ?_⟩⟩, ?_⟩
  · show packDir false (n % 2 ^ 31 + 1) 0 0 = _
    simp [packDir, Nat.mod_add_mod]
  · rw [hissued₄, hissued, List.range_succ, List.map_append]
    rfl
  · refine ⟨ungestoert_of_leer hplatz.migranten ?_, fun _ _ => ⟨ungestoert_of_nimmt rfl, fun _ _ =>
      ⟨ungestoert_of_nimmt rfl, fun _ _ => ⟨ungestoert_of_nimmt rfl, fun _ _ => trivial⟩⟩⟩⟩
    intro c k hop
    cases hop
    decide

theorem ruhe_init : Ruhe 0 (Verfolgt.init ⟨1, 1, by decide⟩) where
  platz := ⟨fun _ => Zombie.empty, fun _ => ⟨false, 0, 0, 0⟩, ⟨rfl, rfl, rfl, rfl⟩, rfl⟩
  issued := rfl

theorem ruhe_nach (n : Nat) :
    (∃ Z, run Verfolgt.step (Verfolgt.init ⟨1, 1, by decide⟩) ((List.range n).flatMap leben) =
        some Z ∧ Ruhe n Z) ∧
      Admissible Verfolgt.step Verfolgt.Ungestoert (Verfolgt.init ⟨1, 1, by decide⟩)
        ((List.range n).flatMap leben) := by
  induction n with
  | zero => exact ⟨⟨_, rfl, ruhe_init⟩, trivial⟩
  | succ n ih =>
    obtain ⟨⟨Z, hrun, hZ⟩, hok⟩ := ih
    obtain ⟨⟨Z', hrun', hZ'⟩, hok'⟩ := ruhe_leben hZ
    rw [List.range_succ, List.flatMap_append, List.flatMap_singleton]
    refine ⟨⟨Z', ?_, hZ'⟩, ?_⟩
    · rw [run_append, hrun]
      exact hrun'
    · refine hok.append fun t ht => ?_
      cases (hrun.symm.trans ht)
      exact hok'

theorem erster_name_wieder {n : Nat} (hn : n % 2 ^ 31 = 0) (hpos : 0 < n) :
    ∃ ops S h, Admissible Verfolgt.step Verfolgt.Ungestoert (Verfolgt.init ⟨1, 1, by decide⟩) ops ∧
      run Verfolgt.step (Verfolgt.init ⟨1, 1, by decide⟩) ops = some (S, h) ∧
      h.issued.length = n + 1 ∧ h.issued[0]? = some (nameOf ⟨0, 0⟩) ∧
      (S.cores 0).resolve S.verzeichnis ⟨0, 0⟩ = some 0 ∧ h.spot (0, 0) = some n := by
  obtain ⟨⟨⟨S, h⟩, hrun, ⟨z, cell, hplatz, hcell⟩, hissued⟩, hok⟩ := ruhe_nach n
  obtain ⟨S₁, hS₁, hborn, hplatz₁⟩ := hplatz.spawnParked
  have hgen : (cell 0).gen = 0 := by
    rw [hcell]
    exact hn
  rw [hgen] at hborn hplatz₁
  have hlen : h.issued.length = n := by
    rw [hissued, List.length_map, List.length_range]
  have hnext : Admissible Verfolgt.step Verfolgt.Ungestoert (S, h) [.spawnParked 0 0 0 0 0] := by
    refine ⟨ungestoert_of_leer hplatz.migranten ?_, fun _ _ => trivial⟩
    intro c k hop
    cases hop
    decide
  refine ⟨(List.range n).flatMap leben ++ [.spawnParked 0 0 0 0 0], S₁,
    h.follow (.born (0, 0) ⟨0, 0⟩), hok.append fun t ht => ?_, ?_, ?_, ?_, ?_, ?_⟩
  · cases (hrun.symm.trans ht)
    exact hnext
  · rw [run_append, hrun, Option.bind_some, run_cons_of_step (verfolgt_step hS₁), run_nil, hborn]
  · rw [History.follow, List.length_append, hlen]
    rfl
  · rw [History.follow, List.getElem?_append_left (by omega), hissued]
    simp [nameOf, hpos]
  · rw [hplatz₁.kern, hplatz₁.verzeichnis]
    simp [resolve, voll, leer, attached, Slab.get, packDir, Slab.set, Tcb.neu]
  · rw [History.follow, hlen]
    exact update_self (0, 0) (some n) h.spot

def nachruecker : List Op :=
  [.initCore 0 0, .spawnParked 0 0 0 0 1, .detachForMigration 0 ⟨1, 0⟩, .spawnParked 0 0 0 0 1]

/-- The handle of thread 1 is resolved to the slot of thread 2.  And without such an
interference, a `gid` that is given out `2 ^ 31 + 1` times makes the handle of the first thread
lead to the last. -/
theorem handle_names_later_thread :
    (run Verfolgt.step (Verfolgt.init ⟨2, 4, by decide⟩) nachruecker).map
        (fun Z => (Z.2.issued, (Z.1.cores 0).resolve Z.1.verzeichnis ⟨1, 0⟩, Z.2.spot (0, 1))) =
      some ([⟨0, 0⟩, ⟨1, 0⟩, ⟨2, 0⟩], some 1, some 2) ∧
    ∃ ops S h, Admissible Verfolgt.step Verfolgt.Ungestoert (Verfolgt.init ⟨1, 1, by decide⟩) ops ∧
      run Verfolgt.step (Verfolgt.init ⟨1, 1, by decide⟩) ops = some (S, h) ∧
      (∀ gid, h.births gid < 2 ^ 32) ∧ h.issued[0]? = some (nameOf ⟨0, 0⟩) ∧
      (S.cores 0).resolve S.verzeichnis ⟨0, 0⟩ = some 0 ∧ h.spot (0, 0) = some (2 ^ 31) := by
  constructor
  · decide
  · obtain ⟨ops, S, h, hok, hrun, hlen, hissued, hres, hspot⟩ :=
      erster_name_wieder (n := 2 ^ 31) (Nat.mod_self _) (by decide)
    refine ⟨ops, S, h, hok, hrun, fun gid => ?_, hissued, hres, hspot⟩
    have hle : h.births gid ≤ h.issued.length := List.countP_le_length
    omega

end System

end Caprock.Sched
