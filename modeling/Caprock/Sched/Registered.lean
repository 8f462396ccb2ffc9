import Mathlib.Data.List.Perm.Basic
import Caprock.Lib.Registry
import Caprock.Sched.Zombies

/-! # The thread directory as a registry

The cores, the thread directory and the free list of `gid`s together are a registry: places
are slots of cores, numbers are `gid`s.  Every operation is an event of it
(`step_registriert`), as long as no slot is taken on a core that a thread under way is still
listed on.
-/

namespace Caprock.Sched

open Execution Registry Function

def Tcb.name (t : Tcb) : Option Name := if t.used then some ⟨t.gid, t.gen⟩ else none

def Migrant.name (m : Migrant) : Name := ⟨m.tcb.gid, m.tcb.gen⟩

/-- Where a `gid` without thread lies. -/
inductive Fach where
  | frei
  | tot (core : Nat)
  | eingesammelt
  deriving DecidableEq

def Verzeichnis.ownerCore (v : Verzeichnis) (tid : ThreadId) : Option Nat :=
  match v.directory.get tid.slot with
  | none => none
  | some e => if e.used = false ∨ e.gen ≠ tid.gen then none else some e.core

namespace Scheduler

def bild (s : Scheduler) : Nat × (Slab Zombie × Nat × Nat × Nat) × (Nat → Option Name) :=
  (s.core, s.ring, fun x => (s.tcb x).name)

theorem name_of_kennung {t t' : Tcb} (h : t'.kennung = t.kennung) : t'.name = t.name := by
  have hname := congrArg Tcb.name h
  exact hname

theorem starr_bild : Starr bild where
  blind := .of_stand fun s s' hrumpf htcb => by
    have hcore := congrArg Scheduler.core hrumpf
    have hring := congrArg ring hrumpf
    have hnames : (fun x => (s'.tcb x).name) = fun x => (s.tcb x).name :=
      funext fun x => name_of_kennung ((starr_kennung x).blind.stand s s' hrumpf htcb)
    exact Prod.ext hcore (Prod.ext hring hnames)
  frist := fun s i d g => Prod.ext rfl (Prod.ext rfl (funext fun x =>
    name_of_kennung ((starr_kennung x).frist s i d g)))
  spende := ⟨fun s i w => Prod.ext rfl (Prod.ext rfl (funext fun x =>
      name_of_kennung ((starr_kennung x).spende.donor s i w))),
    fun s i w => Prod.ext rfl (Prod.ext rfl (funext fun x =>
      name_of_kennung ((starr_kennung x).spende.donee s i w)))⟩
  konto := ⟨fun s i f hf => Prod.ext rfl (Prod.ext rfl (funext fun x =>
      name_of_kennung ((starr_kennung x).konto.konto s i f hf))),
    fun _ _ _ _ _ => rfl⟩
  naechste := fun _ _ => rfl

variable {s s' s'' : Scheduler} {v v' : Verzeichnis} {i : Nat} {nm : Name}

def namen (s : Scheduler) (x : Nat) : Option Name := (s.tcb x).name

theorem namen_of_bild (h : s'.bild = s.bild) : s'.namen = s.namen :=
  congrArg (fun b => b.2.2) h

theorem core_of_bild (h : s'.bild = s.bild) : s'.core = s.core := congrArg (fun b => b.1) h

theorem ring_of_bild (h : s'.bild = s.bild) : s'.ring = s.ring := congrArg (fun b => b.2.1) h

/-- Thread `nm` appears in slot `i`, nothing else changes for the registry. -/
structure Erschienen (s s' : Scheduler) (i : Nat) (nm : Name) : Prop where
  core : s'.core = s.core
  ring : s'.ring = s.ring
  free : s.namen i = none
  bound : i < 2 ^ 16
  namen : s'.namen = update s.namen i (some nm)

theorem Erschienen.congr (h : Erschienen s s' i nm) (hb : s''.bild = s'.bild) :
    Erschienen s s'' i nm where
  core := (core_of_bild hb).trans h.core
  ring := (ring_of_bild hb).trans h.ring
  free := h.free
  bound := h.bound
  namen := (namen_of_bild hb).trans h.namen

theorem Besetzt.erschienen {t : Tcb} (h : Besetzt s s' i t) (hs : s.Gut) (hring : s'.ring = s.ring)
    (hname : t.name = some nm) : Erschienen s s' i nm where
  core := h.core
  ring := hring
  free := by
    unfold Scheduler.namen Tcb.name
    rw [h.unused hs.1]
    rfl
  bound := by
    obtain ⟨l, ho⟩ := (h.gut hs).1
    exact Nat.lt_of_lt_of_le (ho.bound i (by rw [h.tcb, if_pos rfl]; exact h.used)) ho.size
  namen := by
    funext x
    unfold Scheduler.namen
    rw [h.tcb, update_apply]
    split
    · exact hname
    · rfl

/-- A thread is made in slot `i`: a free `gid` with the generation of its entry. -/
structure Geburt (s : Scheduler) (v : Verzeichnis) (i : Nat) (nm : Name) (s' : Scheduler)
    (v' : Verzeichnis) : Prop where
  erschienen : Erschienen s s' i nm
  verzeichnis : ∃ gidFree e, v.gidFree.alloc = some (nm.number, gidFree) ∧
    v.directory.get nm.number = some e ∧ e.gen = nm.gen ∧
    v' = { v with gidFree := gidFree }.store nm.number (packDir true nm.gen s.core i)

theorem Geburt.congr (h : Geburt s v i nm s' v') (hb : s''.bild = s'.bild) :
    Geburt s v i nm s'' v' :=
  ⟨h.erschienen.congr hb, h.verzeichnis⟩

theorem geburt_allocTcb {sp priority : Nat} (hs : s.Gut)
    (h : s.allocTcb v sp priority = some (i, s', v')) :
    ∃ nm, (s'.tcb i).name = some nm ∧ Geburt s v i nm s' v' := by
  have hring := ring_allocTcb h
  obtain ⟨free, gid, gidFree, e, halloc, hgid, he, rfl, rfl⟩ := allocTcb_eq_some h
  have hb := besetzt_belegen (t := Tcb.neu gid e.gen sp priority) halloc rfl rfl
  have hcell := Slab.set_cell_self s.tcbs i (Tcb.neu gid e.gen sp priority)
  refine ⟨⟨gid, e.gen⟩, congrArg Tcb.name hcell, hb.erschienen hs hring rfl, gidFree, e, hgid, he,
    rfl, ?_⟩
  exact congrArg (fun t : Tcb => { v with gidFree := gidFree }.store t.gid (packDir true t.gen s.core i))
    hcell

theorem geburt_spawnParked {sp base len priority : Nat} (hs : s.Gut)
    (h : s.spawnParked v sp base len priority = some (i, s', v')) :
    ∃ nm, (s'.tcb i).name = some nm ∧ Geburt s v i nm s' v' := by
  obtain ⟨s₁, halloc, rfl⟩ := spawnParked_eq_some h
  obtain ⟨nm, hname, hg⟩ := geburt_allocTcb hs halloc
  have hb : (s₁.setStack i base len).bild = s₁.bild := by
    refine Prod.ext rfl (Prod.ext rfl (funext fun x => ?_))
    exact feld_modifyTcb Tcb.name s₁ i x fun _ => rfl
  exact ⟨nm, (congrFun (namen_of_bild hb) i).trans hname, hg.congr hb⟩

theorem geburt_initCore {priority : Nat} (hs : s.Gut)
    (h : s.initCore v priority = some (i, s', v')) :
    ∃ nm, (s'.tcb i).name = some nm ∧ Geburt s v i nm s' v' := by
  obtain ⟨s₁, halloc, rfl⟩ := initCore_eq_some h
  obtain ⟨nm, hname, hg⟩ := geburt_allocTcb hs halloc
  exact ⟨nm, hname, hg.congr rfl⟩

/-- The thread in slot `i` ends. -/
structure Ende (s : Scheduler) (v : Verzeichnis) (i : Nat) (nm : Name) (s' : Scheduler)
    (v' : Verzeichnis) : Prop where
  core : s'.core = s.core
  name : s.namen i = some nm
  namen : s'.namen = update s.namen i none
  verzeichnis : v' = v.store nm.number (packDir false (nm.gen + 1) 0 0)
  ring : s.RingOk → s'.vorgemerkt.map Zombie.gid = s.vorgemerkt.map Zombie.gid ∨
    s'.vorgemerkt.map Zombie.gid = s.vorgemerkt.map Zombie.gid ++ [nm.number]

theorem vorgemerkt_of_ring (h : s'.ring = s.ring) : s'.vorgemerkt = s.vorgemerkt := by
  simp only [ring, Prod.mk.injEq] at h
  unfold vorgemerkt
  rw [h.1, h.2.1, h.2.2.2]

theorem ringOk_of_ring (h : s'.ring = s.ring) (hs : s.RingOk) : s'.RingOk :=
  (Weitergabe.of_ring h).ok hs

theorem Ende.congr (h : Ende s v i nm s' v') {t t' : Scheduler} (hs : s.bild = t.bild)
    (hs' : t'.bild = s'.bild) : Ende t v i nm t' v' where
  core := (core_of_bild hs').trans (h.core.trans (core_of_bild hs))
  name := by
    rw [← namen_of_bild hs]
    exact h.name
  namen := by
    rw [namen_of_bild hs', ← namen_of_bild hs]
    exact h.namen
  verzeichnis := h.verzeichnis
  ring := by
    intro hok
    rw [vorgemerkt_of_ring (ring_of_bild hs'), ← vorgemerkt_of_ring (ring_of_bild hs)]
    exact h.ring (ringOk_of_ring (ring_of_bild hs) hok)

theorem namen_slotLeeren (s : Scheduler) (i : Nat) :
    (s.slotLeeren i).namen = update s.namen i none := by
  funext x
  unfold namen
  rw [tcb_slotLeeren, update_apply]
  split
  · rfl
  · rfl

theorem ende_recordZombie (hi : (s.tcb i).used = true)
    (h : s.recordZombie v i = some (s', v')) :
    Ende s v i ⟨(s.tcb i).gid, (s.tcb i).gen⟩ s' v' := by
  have hring := weitergabe_recordZombie h
  obtain ⟨t, ht, heq⟩ := recordZombie_ring h
  unfold recordZombie at h
  split at h
  · cases h
  · next s₁ hrun =>
    cases h
    have hb := starr_bild.blind.abloesen starr_bild.spende hrun
    have hk := (starr_kennung i).blind.abloesen (starr_kennung i).spende hrun
    have hgid := congrArg Tcb.gid hk
    have hgen := congrArg Tcb.gen hk
    have hcore : ((s₁.doneeAustragen i).removeFromReady i).core = s.core := core_of_bild hb
    refine ⟨?_, ?_, ?_, ?_, ?_⟩
    · unfold zombieAblegen
      split <;> exact hcore
    · unfold namen Tcb.name
      rw [hi]
      rfl
    · rw [← namen_of_bild hb, ← namen_slotLeeren]
      funext x
      unfold namen
      rw [tcb_of_listengleich (listengleich_zombieAblegen _ _).1]
    · have hgid' : (((s₁.doneeAustragen i).removeFromReady i).tcb i).gid = (s.tcb i).gid := hgid
      have hgen' : (((s₁.doneeAustragen i).removeFromReady i).tcb i).gen = (s.tcb i).gen := hgen
      rw [hgid', hgen']
    · intro hok
      by_cases hroom : s.zcount < s.zombies.len
      · right
        have hread := (hring.law hok).mpr fun _ => hroom
        rw [List.nil_append] at hread
        rw [← hread, List.map_append]
        rfl
      · left
        have hsame : t.zombieAblegen (s.tcb i).nachlass = t := by
          simp only [ring, Prod.mk.injEq] at ht
          unfold zombieAblegen
          rw [if_neg (by rw [ht.1, ht.2.2.2]; exact hroom)]
        rw [heq, hsame, vorgemerkt_of_ring ht]

theorem ende_exitCurrent {sp : Nat} (hs : s.Gut) (h : s.exitCurrent v = some (sp, s', v')) :
    ∃ i nm, s.current = some i ∧ Ende s v i nm s' v' := by
  obtain ⟨cur, s₁, hcur, hz, hw⟩ := exitCurrent_cases h
  exact ⟨cur, _, hcur, (ende_recordZombie (hs.2 cur hcur) hz).congr rfl
    (starr_bild.blind.wechseln hw)⟩

theorem ende_kill {tid : ThreadId} {b : Bool} (h : s.kill v tid = some (b, s', v')) :
    (s' = s ∧ v' = v ∧ ∀ i, s.resolve v tid = some i → s.current = some i) ∨
      ∃ i nm, s.resolve v tid = some i ∧ s.current ≠ some i ∧ Ende s v i nm s' v' := by
  unfold kill at h
  cases hres : s.resolve v tid with
  | none =>
    rw [hres] at h
    cases h
    exact .inl ⟨rfl, rfl, nofun⟩
  | some i =>
    rw [hres] at h
    dsimp only at h
    split at h
    · next hcur =>
      cases h
      refine .inl ⟨rfl, rfl, fun j hj => ?_⟩
      cases hj
      exact hcur
    · next hcur =>
      obtain ⟨⟨s₁, v₁⟩, hz, htuple⟩ := Option.map_eq_some_iff.mp h
      cases htuple
      have hused : ((s.removeFromReady i).tcb i).used = true :=
        ((Rahmen.removeFromReady s i).used i).trans (resolve_used hres)
      exact .inr ⟨i, _, rfl, hcur, (ende_recordZombie hused hz).congr
        (starr_bild.blind.removeFromReady s i) rfl⟩

theorem abreise {tid : ThreadId} {m : Migrant} (h : s.detachForMigration v tid = some (m, s')) :
    ∃ i, s.resolve v tid = some i ∧ s.namen i = some m.name ∧ s'.core = s.core ∧
      s'.ring = s.ring ∧ s'.namen = update s.namen i none := by
  have hring := ring_detachForMigration h
  obtain ⟨i, n, ⟨hres, -⟩, rfl, rfl⟩ := detachForMigration_cases h
  have hb := starr_bild.blind.removeFromReady s i
  have hk := (starr_kennung i).blind.removeFromReady s i
  have hcore : (s.removeFromReady i).core = s.core := core_of_bild hb
  refine ⟨i, hres, ?_, hcore, hring, ?_⟩
  · have hused := resolve_used hres
    have hgid := congrArg Tcb.gid hk
    have hgen := congrArg Tcb.gen hk
    have hname : s.namen i = some ⟨(s.tcb i).gid, (s.tcb i).gen⟩ := by
      unfold namen Tcb.name
      rw [hused]
      rfl
    rw [hname]
    exact congrArg some (congrArg₂ Name.mk hgid.symm hgen.symm)
  · rw [← namen_of_bild hb]
    exact namen_slotLeeren (s.removeFromReady i) i

theorem ankunft_attachMigrated {m : Migrant} (hs : s.Gut) (hm : m.tcb.used = true)
    (h : s.attachMigrated v m = some (.ok (s', v'))) :
    ∃ i free, s.free.alloc = some (i, free) ∧ Erschienen s s' i m.name ∧
      v' = v.store m.name.number (packDir true m.name.gen s.core i) := by
  obtain ⟨i, free, halloc, rfl, hcases⟩ := attachMigrated_aufnahme h
  have hb := besetzt_aufnehmen halloc hm
  have hname : (s.ankunft m.tcb).name = some m.name := by
    unfold Tcb.name
    rw [hb.used]
    rfl
  have he := hb.erschienen hs rfl hname
  have hcell : (s.aufnehmen i free (s.ankunft m.tcb)).tcb i = s.ankunft m.tcb :=
    Slab.set_cell_self s.tcbs i _
  refine ⟨i, free, halloc, ?_, ?_⟩
  · rcases hcases with ⟨-, hq⟩ | ⟨-, rfl⟩
    · exact he.congr (starr_bild.blind.enqueueReady hq)
    · exact he
  · unfold publishDir
    rw [hcell]
    rfl

end Scheduler

namespace System

open Scheduler

def faecher (frei : List Nat) (tote : Nat → List Nat) (eingesammelt : List Nat) :
    Fach → Multiset Nat
  | .frei => frei
  | .tot c => tote c
  | .eingesammelt => eingesammelt

def tote (cores : Nat → Scheduler) (c : Nat) : List Nat := (cores c).vorgemerkt.map Zombie.gid

def register (S : System) : Registry (Nat × Nat) Fach where
  entry gid := (S.verzeichnis.directory.get gid).map fun e => ⟨e.used, e.gen, (e.core, e.lokal)⟩
  occupant p := (S.cores p.1).namen p.2
  shelf := faecher S.verzeichnis.gidFree.frei (tote S.cores) S.eingesammelt
  away := S.migranten.map Migrant.name

def geburt (c : Nat) : Option (Nat × Scheduler × Verzeichnis) → Event (Nat × Nat)
  | none => .idle
  | some (i, s, _) =>
      match s.namen i with
      | none => .idle
      | some nm => .born (c, i) nm

def ereignis (S : System) : Op → Event (Nat × Nat)
  | .aufruf _ _ => .idle
  | .initCore c priority => geburt c ((S.cores c).initCore S.verzeichnis priority)
  | .spawnParked c sp base len priority =>
      geburt c ((S.cores c).spawnParked S.verzeichnis sp base len priority)
  | .spawnUserAtParked c sp base len priority =>
      geburt c ((S.cores c).spawnUserAtParked S.verzeichnis sp base len priority)
  | .spawn c sp base len priority =>
      geburt c ((S.cores c).spawnParked S.verzeichnis sp base len priority)
  | .exitCurrent c =>
      match (S.cores c).current with
      | none => .idle
      | some i => .ended (c, i)
  | .kill c tid =>
      match (S.cores c).resolve S.verzeichnis tid with
      | none => .idle
      | some i => if (S.cores c).current = some i then .idle else .ended (c, i)
  | .reap _ => .idle
  | .releaseGid _ => .idle
  | .detachForMigration c tid =>
      match (S.cores c).detachForMigration S.verzeichnis tid,
          (S.cores c).resolve S.verzeichnis tid with
      | some _, some i => .left (c, i)
      | _, _ => .idle
  | .attachMigrated c k =>
      match S.migranten[k]?, (S.cores c).free.alloc with
      | some _, some (i, _) => .arrived (c, i) k
      | _, _ => .idle

end System

/-- The core on which an operation takes a slot, and which of the threads under way takes it. -/
def Op.nimmt : Op → Option (Nat × Option Nat)
  | .initCore c _ => some (c, none)
  | .spawnParked c _ _ _ _ => some (c, none)
  | .spawnUserAtParked c _ _ _ _ => some (c, none)
  | .spawn c _ _ _ _ => some (c, none)
  | .attachMigrated c k => some (c, some k)
  | _ => none

namespace System

open Scheduler

/-- The core exists, and no other thread under way is still listed on it.  In the kernel both
cores of a move are locked until the thread has arrived; cores are numbered below
`MAX_CORES`, which is 256. -/
def Ungestoert (S : System) (op : Op) : Prop :=
  ∀ c k, op.nimmt = some (c, k) → c < 2 ^ 16 ∧
    ∀ j m, S.migranten[j]? = some m → k ≠ some j →
      S.verzeichnis.ownerCore ⟨m.tcb.gid, m.tcb.gen⟩ ≠ some c

instance (S : System) (op : Op) : Decidable (S.Ungestoert op) :=
  match hop : op.nimmt with
  | none => isTrue fun c k h => by simp [hop] at h
  | some (c, k) =>
      decidable_of_iff
        (c < 2 ^ 16 ∧ ∀ x ∈ S.migranten.zipIdx, k ≠ some x.2 →
          S.verzeichnis.ownerCore ⟨x.1.tcb.gid, x.1.tcb.gen⟩ ≠ some c) (by
        simp [Ungestoert, hop, List.mem_zipIdx_iff_getElem?]
        grind)

variable {S S' : System} {c i : Nat} {s : Scheduler} {nm : Name}

theorem entry_store {v : Verzeichnis} {gid : Nat} {e₀ : DirEntry} (he : v.directory.get gid = some e₀)
    (e : DirEntry) :
    (fun x => ((v.store gid e).directory.get x).map fun e : DirEntry =>
        (⟨e.used, e.gen, (e.core, e.lokal)⟩ : Entry (Nat × Nat))) =
      update (fun x => (v.directory.get x).map fun e : DirEntry =>
        (⟨e.used, e.gen, (e.core, e.lokal)⟩ : Entry (Nat × Nat))) gid
        (some ⟨e.used, e.gen, (e.core, e.lokal)⟩) := by
  have hlt : gid < v.directory.len := by
    unfold Slab.get at he
    split at he
    · assumption
    · cases he
  funext x
  unfold Verzeichnis.store Slab.get
  rw [if_pos hlt, update_apply]
  by_cases hx : x = gid
  · subst hx
    simp [hlt]
  · simp [hx, Slab.set_cell_of_ne]

theorem occupant_update {o : Option Name}
    (hn : s.namen = update (S.cores c).namen i o) :
    (fun p : Nat × Nat => (update S.cores c s p.1).namen p.2) =
      update (fun p : Nat × Nat => (S.cores p.1).namen p.2) (c, i) o := by
  funext ⟨d, x⟩
  by_cases hd : d = c
  · subst hd
    by_cases hx : x = i
    · subst hx
      simp [hn]
    · have hne : (d, x) ≠ (d, i) := by simpa using hx
      simp [hn, update_of_ne hne, update_of_ne hx]
  · have hne : (d, x) ≠ (c, i) := by
      simp only [ne_eq, Prod.mk.injEq, not_and]
      exact fun h => absurd h hd
    simp only [update_of_ne hd, update_of_ne hne]

theorem occupant_same (hn : s.namen = (S.cores c).namen) :
    (fun p : Nat × Nat => (update S.cores c s p.1).namen p.2) =
      fun p : Nat × Nat => (S.cores p.1).namen p.2 := by
  funext ⟨d, x⟩
  by_cases hd : d = c
  · subst hd
    simp [hn]
  · simp [update_of_ne hd]

theorem tote_update (cores : Nat → Scheduler) (c : Nat) (s : Scheduler) :
    tote (update cores c s) =
      update (tote cores) c (s.vorgemerkt.map Zombie.gid) := by
  funext d
  unfold tote
  rw [update_apply, update_apply]
  split <;> rfl

theorem tote_same (hring : s.ring = (S.cores c).ring) :
    tote (update S.cores c s) = tote S.cores := by
  rw [tote_update, vorgemerkt_of_ring hring]
  exact update_eq_self c (tote S.cores)

section

variable (frei l : List Nat) (tote : Nat → List Nat) (eingesammelt : List Nat)

theorem faecher_frei :
    faecher l tote eingesammelt = update (faecher frei tote eingesammelt) .frei l := by
  funext k
  cases k <;> rfl

theorem faecher_tot (c : Nat) :
    faecher frei (update tote c l) eingesammelt =
      update (faecher frei tote eingesammelt) (.tot c) l := by
  funext k
  cases k with
  | tot d =>
    by_cases hd : d = c
    · subst hd
      simp [faecher]
    · simp [faecher, hd]
  | _ => rfl

theorem faecher_ernten (c gid : Nat) :
    faecher frei (update tote c l) (eingesammelt ++ [gid]) =
      store (update (faecher frei tote eingesammelt) (.tot c) l) (some .eingesammelt)
        gid := by
  have hperm : ((eingesammelt ++ [gid] : List Nat) : Multiset Nat) = gid ::ₘ eingesammelt := by
    rw [Multiset.cons_coe, Multiset.coe_eq_coe]
    exact List.perm_append_singleton gid eingesammelt
  rw [← faecher_tot]
  funext k
  cases k with
  | eingesammelt =>
    rw [store, update_self]
    exact hperm
  | _ => rfl

theorem faecher_freigeben (f : FreeList) (gid : Nat) :
    ∃ b, faecher (f.free gid).frei tote l =
      store (update (faecher f.frei tote eingesammelt) .eingesammelt l) b gid := by
  unfold FreeList.free
  by_cases hcap : gid < f.capacity
  · refine ⟨some .frei, ?_⟩
    rw [if_pos hcap]
    funext k
    cases k <;> rfl
  · refine ⟨none, ?_⟩
    rw [if_neg hcap]
    funext k
    cases k <;> rfl

end

theorem store_frei (v : Verzeichnis) (gid : Nat) (e : DirEntry) :
    (v.store gid e).gidFree = v.gidFree := by
  unfold Verzeichnis.store
  split <;> rfl

theorem register_same (hcores : S'.cores = update S.cores c s)
    (hb : s.bild = (S.cores c).bild) (hv : S'.verzeichnis = S.verzeichnis)
    (hms : S'.migranten = S.migranten) (hes : S'.eingesammelt = S.eingesammelt) :
    S'.register = S.register := by
  unfold register
  rw [hcores, hv, hms, hes, occupant_same (namen_of_bild hb), tote_same (ring_of_bild hb)]

theorem clear_of_owner (hl : S.register.Listed) {k : Option Nat}
    (h : ∀ j m, S.migranten[j]? = some m → k ≠ some j →
      S.verzeichnis.ownerCore ⟨m.tcb.gid, m.tcb.gen⟩ ≠ some c) (i : Nat) :
    S.register.Clear (c, i) k := by
  intro j nm e hj hk he hplace
  have hmem := List.mem_of_getElem? hj
  obtain ⟨m, hm, rfl⟩ : ∃ m, S.migranten[j]? = some m ∧ m.name = nm := by
    simpa [register, List.getElem?_map] using hj
  obtain ⟨q, hentry, -⟩ := hl.away m.name hmem
  cases (he.symm.trans hentry)
  obtain ⟨d, hd, hfields⟩ := Option.map_eq_some_iff.mp hentry
  simp only [Entry.mk.injEq] at hfields hplace
  apply h j m hm hk
  have hget : S.verzeichnis.directory.get m.tcb.gid = some d := hd
  have hgen : d.gen = m.tcb.gen := hfields.2.1
  have hcore : d.core = c := congrArg Prod.fst (hfields.2.2.trans hplace)
  simp [Verzeichnis.ownerCore, hget, hfields.1, hgen, hcore]

theorem schritt_geboren (hcores : S'.cores = update S.cores c s)
    (hms : S'.migranten = S.migranten) (hes : S'.eingesammelt = S.eingesammelt)
    (hg : Geburt (S.cores c) S.verzeichnis i nm s S'.verzeichnis) (hcore : (S.cores c).core = c)
    (hc : c < 2 ^ 16) (hclear : S.register.Clear (c, i) none) :
    Registry.Step (2 ^ 31) S.register (.born (c, i) nm) S'.register := by
  obtain ⟨gidFree, e, halloc, he, hgen, hv⟩ := hg.verzeichnis
  obtain ⟨hfrei, -⟩ := FreeList.alloc_eq_some halloc
  have hreg : S'.register = { S.register with
      entry := update S.register.entry nm.number (some ⟨true, nm.gen % 2 ^ 31, (c, i)⟩)
      occupant := update S.register.occupant (c, i) (some nm)
      shelf := update S.register.shelf .frei (gidFree.frei : Multiset Nat) } := by
    unfold register
    rw [hcores, hms, hes, occupant_update hg.erschienen.namen, tote_same hg.erschienen.ring, hv,
      hcore, store_frei, faecher_frei S.verzeichnis.gidFree.frei]
    congr 1
    refine (entry_store (v := { S.verzeichnis with gidFree := gidFree }) he _).trans ?_
    simp only [packDir, Nat.mod_eq_of_lt hc, Nat.mod_eq_of_lt hg.erschienen.bound]
  rw [hreg]
  refine Registry.Step.born (a := Fach.frei) (e := ⟨e.used, e.gen, (e.core, e.lokal)⟩) ?_ ?_ hgen
    hg.erschienen.free hclear
  · show ((S.verzeichnis.gidFree.frei : List Nat) : Multiset Nat) = _
    rw [hfrei]
    rfl
  · show (S.verzeichnis.directory.get nm.number).map _ = _
    rw [he]
    rfl

theorem schritt_beendet (hcores : S'.cores = update S.cores c s)
    (hms : S'.migranten = S.migranten) (hes : S'.eingesammelt = S.eingesammelt)
    (he : Ende (S.cores c) S.verzeichnis i nm s S'.verzeichnis) (hl : S.register.Listed)
    (hok : (S.cores c).RingOk) :
    Registry.Step (2 ^ 31) S.register (.ended (c, i)) S'.register := by
  have hocc : S.register.occupant (c, i) = some nm := he.name
  obtain ⟨e, hget, -⟩ := Option.map_eq_some_iff.mp (hl.placed (c, i) nm hocc)
  have hentry : S'.register.entry = update S.register.entry nm.number
      (some ⟨false, (nm.gen + 1) % 2 ^ 31, (0, 0)⟩) := by
    unfold register
    rw [he.verzeichnis]
    exact entry_store hget _
  have hoccupant : S'.register.occupant = update S.register.occupant (c, i) none := by
    unfold register
    rw [hcores]
    exact occupant_update he.namen
  have haway : S'.register.away = S.register.away := congrArg (List.map Migrant.name) hms
  have hfrei : S'.verzeichnis.gidFree = S.verzeichnis.gidFree := by
    rw [he.verzeichnis, store_frei]
  -- The `gid` goes to the ended threads of the core, or is lost with a full ring.
  obtain ⟨b, hshelf⟩ : ∃ b, S'.register.shelf = store S.register.shelf b nm.number := by
    unfold register
    rw [hcores, hes, hfrei, tote_update, faecher_tot]
    rcases he.ring hok with hsame | hmore
    · refine ⟨none, ?_⟩
      rw [hsame]
      exact update_eq_self (Fach.tot c) _
    · refine ⟨some (.tot c), ?_⟩
      rw [hmore]
      have hperm : (((S.cores c).vorgemerkt.map Zombie.gid ++ [nm.number] : List Nat) :
          Multiset Nat) = nm.number ::ₘ ((S.cores c).vorgemerkt.map Zombie.gid : List Nat) := by
        rw [Multiset.cons_coe, Multiset.coe_eq_coe]
        exact List.perm_append_singleton _ _
      rw [hperm]
      rfl
  have hreg : S'.register = { S.register with
      entry := update S.register.entry nm.number
        (some ⟨false, (nm.gen + 1) % 2 ^ 31, (0, 0)⟩)
      occupant := update S.register.occupant (c, i) none
      shelf := store S.register.shelf b nm.number } := by
    rw [← hentry, ← hoccupant, ← hshelf]
    dsimp only
    rw [← haway]
  rw [hreg]
  exact .ended hocc

theorem schritt_abgereist {m : Migrant} (hcores : S'.cores = update S.cores c s)
    (hv : S'.verzeichnis = S.verzeichnis) (hms : S'.migranten = S.migranten ++ [m])
    (hes : S'.eingesammelt = S.eingesammelt) (hname : (S.cores c).namen i = some m.name)
    (hring : s.ring = (S.cores c).ring)
    (hn : s.namen = update (S.cores c).namen i none) :
    Registry.Step (2 ^ 31) S.register (.left (c, i)) S'.register := by
  have hreg : S'.register = { S.register with
      occupant := update S.register.occupant (c, i) none
      away := S.register.away ++ [m.name] } := by
    unfold register
    rw [hcores, hv, hms, hes, occupant_update hn, tote_same hring, List.map_append]
    rfl
  rw [hreg]
  exact .left hname

theorem schritt_angekommen {m : Migrant} {k : Nat} (hcores : S'.cores = update S.cores c s)
    (hk : S.migranten[k]? = some m) (hms : S'.migranten = S.migranten.eraseIdx k)
    (hes : S'.eingesammelt = S.eingesammelt)
    (hv : S'.verzeichnis = S.verzeichnis.store m.name.number
      (packDir true m.name.gen (S.cores c).core i))
    (he : Erschienen (S.cores c) s i m.name) (hcore : (S.cores c).core = c) (hc : c < 2 ^ 16)
    (hl : S.register.Listed) (hclear : S.register.Clear (c, i) (some k)) :
    Registry.Step (2 ^ 31) S.register (.arrived (c, i) k) S'.register := by
  have haway : S.register.away[k]? = some m.name := by
    simp [register, hk]
  obtain ⟨q, hentry, -⟩ := hl.away m.name (List.mem_of_getElem? haway)
  obtain ⟨e, hget, -⟩ := Option.map_eq_some_iff.mp hentry
  have hreg : S'.register = { S.register with
      entry := update S.register.entry m.name.number
        (some ⟨true, m.name.gen % 2 ^ 31, (c, i)⟩)
      occupant := update S.register.occupant (c, i) (some m.name)
      away := S.register.away.eraseIdx k } := by
    unfold register
    rw [hcores, hms, hes, occupant_update he.namen, tote_same he.ring, hv, hcore, store_frei,
      List.eraseIdx_map]
    congr 1
    refine (entry_store hget _).trans ?_
    simp only [packDir, Nat.mod_eq_of_lt hc, Nat.mod_eq_of_lt he.bound]
  rw [hreg]
  exact .arrived haway he.free hclear

theorem schritt_geerntet {z : Zombie} (hcores : S'.cores = update S.cores c s)
    (hv : S'.verzeichnis = S.verzeichnis) (hms : S'.migranten = S.migranten)
    (hes : S'.eingesammelt = S.eingesammelt ++ [z.gid]) (h : (S.cores c).reap = some (z, s)) :
    Registry.Step (2 ^ 31) S.register .idle S'.register := by
  obtain ⟨hread, -⟩ := vorgemerkt_reap h
  have hn : s.namen = (S.cores c).namen := by
    obtain ⟨-, -, rfl⟩ := reap_eq_some h
    rfl
  have hreg : S'.register = { S.register with
      shelf := store (update S.register.shelf (.tot c)
        (s.vorgemerkt.map Zombie.gid : List Nat)) (some .eingesammelt) z.gid } := by
    unfold register
    rw [hcores, hv, hms, hes, occupant_same hn, tote_update, faecher_ernten]
  rw [hreg]
  refine .moved ?_
  show (((S.cores c).vorgemerkt.map Zombie.gid : List Nat) : Multiset Nat) = _
  rw [hread]
  rfl

theorem schritt_freigegeben {k gid : Nat} (hcores : S'.cores = S.cores)
    (hv : S'.verzeichnis = S.verzeichnis.releaseGid gid) (hms : S'.migranten = S.migranten)
    (hk : S.eingesammelt[k]? = some gid) (hes : S'.eingesammelt = S.eingesammelt.eraseIdx k) :
    Registry.Step (2 ^ 31) S.register .idle S'.register := by
  obtain ⟨hlt, hget⟩ := List.getElem?_eq_some_iff.mp hk
  have hperm : (S.eingesammelt : Multiset Nat) =
      gid ::ₘ (S.eingesammelt.eraseIdx k : Multiset Nat) := by
    rw [Multiset.cons_coe, Multiset.coe_eq_coe, ← hget]
    exact (List.getElem_cons_eraseIdx_perm hlt).symm
  obtain ⟨b, hshelf⟩ := faecher_freigeben (S.eingesammelt.eraseIdx k) (tote S.cores)
    S.eingesammelt S.verzeichnis.gidFree gid
  have hreg : S'.register = { S.register with
      shelf := store (update S.register.shelf .eingesammelt
        (S.eingesammelt.eraseIdx k : List Nat)) b gid } := by
    unfold register
    rw [hcores, hv, hms, hes]
    unfold Verzeichnis.releaseGid
    rw [hshelf]
  rw [hreg]
  exact .moved hperm

theorem Ungestoert.clear {op : Op} (h : S.Ungestoert op) (hl : S.register.Listed) {k : Option Nat}
    (hop : op.nimmt = some (c, k)) (i : Nat) : c < 2 ^ 16 ∧ S.register.Clear (c, i) k :=
  ⟨(h c k hop).1, clear_of_owner hl (h c k hop).2 i⟩

theorem geburt_eq_born (c : Nat) (v : Verzeichnis) (hname : (s.tcb i).name = some nm) :
    geburt c (some (i, s, v)) = .born (c, i) nm := by
  have hnamen : s.namen i = some nm := hname
  simp [geburt, hnamen]

theorem weiter_registriert {c : Nat} (hb : s.bild = (S.cores c).bild) :
    Registry.Step (2 ^ 31) S.register .idle (S.weiter c s S.verzeichnis).register := by
  have hreg : (S.weiter c s S.verzeichnis).register = S.register :=
    register_same rfl hb rfl rfl rfl
  rw [hreg]
  exact .idle

theorem spawnParked_registriert {c sp base len priority : Nat} (hgut : S.Gut)
    (hkern : ∀ c, (S.cores c).core = c) (hl : S.register.Listed)
    (hok : S.Ungestoert (.spawnParked c sp base len priority)) :
    Registry.Step (2 ^ 31) S.register
      (geburt c ((S.cores c).spawnParked S.verzeichnis sp base len priority))
      (S.erzeugt c ((S.cores c).spawnParked S.verzeichnis sp base len priority)).register := by
  cases hs : (S.cores c).spawnParked S.verzeichnis sp base len priority with
  | none => exact .idle
  | some r =>
    obtain ⟨i, s, v⟩ := r
    obtain ⟨nm, hname, hg⟩ := geburt_spawnParked (hgut.1 c) hs
    obtain ⟨hc, hclear⟩ := hok.clear hl rfl i
    rw [geburt_eq_born c v hname]
    exact schritt_geboren (c := c) (s := s) rfl rfl rfl hg (hkern c) hc hclear

theorem spawn_registriert {c sp base len priority : Nat} (hgut : S.Gut)
    (hkern : ∀ c, (S.cores c).core = c) (hl : S.register.Listed)
    (hok : S.Ungestoert (.spawn c sp base len priority))
    (h : S.step (.spawn c sp base len priority) = some S') :
    Registry.Step (2 ^ 31) S.register (S.ereignis (.spawn c sp base len priority)) S'.register := by
  obtain ⟨⟨r, s', v'⟩, hs, rfl⟩ := Option.map_eq_some_iff.mp h
  unfold ereignis
  dsimp only
  unfold spawn at hs
  cases hparked : (S.cores c).spawnParked S.verzeichnis sp base len priority with
  | none =>
    rw [hparked] at hs
    cases hs
    exact weiter_registriert rfl
  | some r =>
    obtain ⟨i, s, v⟩ := r
    rw [hparked] at hs
    obtain ⟨⟨b, s₁⟩, hadmit, htuple⟩ := Option.map_eq_some_iff.mp hs
    cases htuple
    obtain ⟨nm, hname, hg⟩ := geburt_spawnParked (hgut.1 c) hparked
    obtain ⟨hc, hclear⟩ := hok.clear hl rfl i
    have hb := starr_bild.blind.admitThread hadmit
    rw [geburt_eq_born c v' hname]
    exact schritt_geboren (c := c) (s := s₁) rfl rfl rfl (hg.congr hb) (hkern c) hc hclear

theorem attachMigrated_registriert {c k : Nat} (hgut : S.Gut)
    (hkern : ∀ c, (S.cores c).core = c) (hl : S.register.Listed)
    (hok : S.Ungestoert (.attachMigrated c k)) (h : S.step (.attachMigrated c k) = some S') :
    Registry.Step (2 ^ 31) S.register (S.ereignis (.attachMigrated c k)) S'.register := by
  unfold step at h
  unfold ereignis
  dsimp only at h ⊢
  cases hm : S.migranten[k]? with
  | none =>
    rw [hm] at h
    cases h
    exact .idle
  | some m =>
    rw [hm] at h
    dsimp only at h
    cases hs : (S.cores c).attachMigrated S.verzeichnis m with
    | none =>
      rw [hs] at h
      cases h
    | some r =>
      rw [hs] at h
      cases r with
      | error m' =>
        cases h
        rw [alloc_of_error hs]
        exact .idle
      | ok r =>
        obtain ⟨s, v⟩ := r
        cases h
        obtain ⟨i, free, halloc, he, hv⟩ := ankunft_attachMigrated (hgut.1 c)
          (hgut.2 m (List.mem_of_getElem? hm)) hs
        obtain ⟨hc, hclear⟩ := hok.clear hl rfl i
        rw [halloc]
        exact schritt_angekommen (c := c) (s := s) rfl hm rfl rfl hv he (hkern c) hc hl
          hclear

/-- Every operation is the event of the registry that `ereignis` names. -/
theorem step_registriert {op : Op} (hgut : S.Gut) (hring : ∀ c, (S.cores c).RingOk)
    (hkern : ∀ c, (S.cores c).core = c) (hl : S.register.Listed) (hok : S.Ungestoert op)
    (h : S.step op = some S') :
    Registry.Step (2 ^ 31) S.register (S.ereignis op) S'.register := by
  cases op with
  | aufruf c a =>
    obtain ⟨s, hs, rfl⟩ := Option.map_eq_some_iff.mp h
    exact weiter_registriert (starr_bild.aufruf hs)
  | initCore c priority =>
    unfold step at h
    unfold ereignis
    dsimp only at h ⊢
    cases hs : (S.cores c).initCore S.verzeichnis priority with
    | none =>
      rw [hs] at h
      cases h
      exact .idle
    | some r =>
      obtain ⟨i, s, v⟩ := r
      rw [hs] at h
      cases h
      obtain ⟨nm, hname, hg⟩ := geburt_initCore (hgut.1 c) hs
      obtain ⟨hc, hclear⟩ := hok.clear hl rfl i
      rw [geburt_eq_born c v hname]
      exact schritt_geboren (c := c) (s := s) rfl rfl rfl hg (hkern c) hc hclear
  | spawnParked c sp base len priority | spawnUserAtParked c sp base len priority =>
    cases h
    exact spawnParked_registriert hgut hkern hl hok
  | spawn c sp base len priority => exact spawn_registriert hgut hkern hl hok h
  | exitCurrent c =>
    obtain ⟨⟨sp, s, v⟩, hs, rfl⟩ := Option.map_eq_some_iff.mp h
    obtain ⟨i, nm, hcur, he⟩ := ende_exitCurrent (hgut.1 c) hs
    unfold ereignis
    dsimp only
    rw [hcur]
    exact schritt_beendet (c := c) (s := s) rfl rfl rfl he hl (hring c)
  | kill c tid =>
    obtain ⟨⟨b, s, v⟩, hs, rfl⟩ := Option.map_eq_some_iff.mp h
    unfold ereignis
    dsimp only
    rcases ende_kill hs with ⟨rfl, rfl, hcur⟩ | ⟨i, nm, hres, hcur, he⟩
    · cases hres : (S.cores c).resolve S.verzeichnis tid with
      | none => exact weiter_registriert rfl
      | some i =>
        dsimp only
        rw [if_pos (hcur i hres)]
        exact weiter_registriert rfl
    · rw [hres]
      dsimp only
      rw [if_neg hcur]
      exact schritt_beendet (c := c) (s := s) rfl rfl rfl he hl (hring c)
  | reap c =>
    unfold step at h
    dsimp only at h
    cases hs : (S.cores c).reap with
    | none =>
      rw [hs] at h
      cases h
      exact .idle
    | some r =>
      obtain ⟨z, s⟩ := r
      rw [hs] at h
      cases h
      exact schritt_geerntet (c := c) (s := s) rfl rfl rfl rfl hs
  | releaseGid k =>
    unfold step at h
    dsimp only at h
    cases hk : S.eingesammelt[k]? with
    | none =>
      rw [hk] at h
      cases h
      exact .idle
    | some gid =>
      rw [hk] at h
      cases h
      exact schritt_freigegeben rfl rfl rfl hk rfl
  | detachForMigration c tid =>
    unfold step at h
    unfold ereignis
    dsimp only at h ⊢
    cases hs : (S.cores c).detachForMigration S.verzeichnis tid with
    | none =>
      rw [hs] at h
      cases h
      exact .idle
    | some r =>
      obtain ⟨m, s⟩ := r
      rw [hs] at h
      cases h
      obtain ⟨i, hres, hname, -, hring', hn⟩ := abreise hs
      rw [hres]
      exact schritt_abgereist (c := c) (s := s) rfl rfl rfl rfl hname hring' hn
  | attachMigrated c k => exact attachMigrated_registriert hgut hkern hl hok h

end System

end Caprock.Sched
