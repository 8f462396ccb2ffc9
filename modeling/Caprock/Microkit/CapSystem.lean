import Caprock.Cap.Rollback
import Caprock.Microkit.Caps
import Caprock.Microkit.Grant

/-! # Runs of the capability system

What a system call finds: the space after any operations on it, the table of domains after any
operations on that, and any set of stacks in use.  The calls are made of the same operations, so
these runs cover theirs.

Wherever a handle is written, it was given out before, and slots count their releases.  As long as
no count wraps round, a handle that is kept somewhere either names its slot or is older than the
slot's generation: no cspace and no stack knows the handle that the next derivation gives out.
-/

namespace Caprock.Cap.CapSpace

open Mem

variable {s s' : CapSpace} {p : CapPtr}

/-- The handle was given out: its slot still carries it, or was released since. -/
def Ausgegeben (s : CapSpace) (p : CapPtr) : Prop :=
  p.gen < (s.daten p.slot).gen ∨ p.gen = (s.daten p.slot).gen ∧ s.Used p.slot

instance (s : CapSpace) (p : CapPtr) : Decidable (s.Ausgegeben p) :=
  inferInstanceAs (Decidable (_ ∨ _))

def OhneUmlauf (s s' : CapSpace) : Prop :=
  ∀ x, s.Freigegeben s' x → (s.daten x).gen + 1 < 2 ^ 32

theorem Ausgegeben.gen_ne (h : s.Ausgegeben p) (hfree : ¬ s.Used p.slot) :
    p.gen ≠ (s.daten p.slot).gen := by
  rcases h with hlt | ⟨-, hused⟩
  · omega
  · exact absurd hused hfree

theorem Ausgegeben.fortgezaehlt (h : s.Ausgegeben p) (hf : Fortgezaehlt s s')
    (hgrenze : s.OhneUmlauf s') : s'.Ausgegeben p := by
  have hgen := hf.gen p.slot
  by_cases hfrei : s.Freigegeben s' p.slot
  · have hlimit := hgrenze p.slot hfrei
    rw [if_pos hfrei, Nat.mod_eq_of_lt hlimit] at hgen
    left
    rcases h with hlt | ⟨heq, -⟩
    · omega
    · omega
  · rw [if_neg hfrei] at hgen
    rcases h with hlt | ⟨heq, hused⟩
    · exact .inl (by omega)
    · refine .inr ⟨by omega, ?_⟩
      by_contra hgone
      exact hfrei ⟨hused, hgone⟩

def mitZaehler (s : CapSpace) (a b c d e : Nat) : CapSpace :=
  ⟨s.slots, s.objects, a, b, c, d, e⟩

end Caprock.Cap.CapSpace

namespace Caprock.Microkit

open Cap Mem Execution

namespace PdTable

structure GleicheLaeufe (pds pds' : Slab Pd) : Prop where
  len : pds'.len = pds.len
  start : ∀ i, (pds'.cell i).cspaceStart = (pds.cell i).cspaceStart
  laenge : ∀ i, (pds'.cell i).cspaceLen = (pds.cell i).cspaceLen
  next : ∀ i, (pds'.cell i).freilaufNext = (pds.cell i).freilaufNext

theorem Innen.felder {t : PdTable} (h : t.Innen) {pds : Slab Pd} (hpds : GleicheLaeufe t.pds pds) :
    ({ t with pds := pds } : PdTable).Innen where
  kurz := ⟨fun i => (hpds.next i).trans (h.kurz.next_zero i), by
    show t.cspaceVergabe.kopf - 1 < pds.len ∨ t.cspaceVergabe.kopf = 0
    rw [hpds.len]
    exact h.kurz.kopf_lt⟩
  bump_le := h.bump_le
  lauf_le := by
    intro i
    show (pds.cell i).cspaceStart + (pds.cell i).cspaceLen ≤ t.cspacePool.len
    rw [hpds.start, hpds.laenge]
    exact h.lauf_le i

theorem cell_poolSchreiben (t : PdTable) (pd slot : Nat) (c : Option CapPtr) (i : Nat) :
    (t.poolSchreiben pd slot c).cspacePool.cell i = c ∨
      (t.poolSchreiben pd slot c).cspacePool.cell i = t.cspacePool.cell i := by
  unfold poolSchreiben
  split
  · dsimp only
    split
    · dsimp only
      rw [Slab.set_cell]
      split
      · exact .inl rfl
      · exact .inr rfl
    · exact .inr rfl
  · exact .inr rfl

theorem Angelegt.pool {t t' : PdTable} {op : Op} (ha : t.Angelegt op t') :
    t'.cspacePool = t.cspacePool := by
  cases ha with
  | gleich hpool | ohneLauf hpool | mitLauf hpool => exact hpool

theorem cell_free {t : PdTable} {pd : Nat} {r : Bool × PdTable} (hr : t.free pd = some r) (i : Nat) :
    r.2.cspacePool.cell i = none ∨ r.2.cspacePool.cell i = t.cspacePool.cell i := by
  unfold free at hr
  by_cases hused : t.isUsed pd
  · rw [if_pos hused] at hr
    cases hfrei : t.cspaceVergabe.freigeben t.pds pd with
    | none =>
      rw [hfrei] at hr
      cases hr
    | some x =>
      rw [hfrei] at hr
      cases hr
      dsimp only [poolLeeren]
      split
      · exact .inl rfl
      · exact .inr rfl
  · rw [if_neg hused] at hr
    cases hr
    exact .inr rfl

theorem cell_step {t t' : PdTable} {op : Op} (hstep : t.step op = some t') {i : Nat} {p : CapPtr}
    (hp : t'.cspacePool.cell i = some p) :
    t.cspacePool.cell i = some p ∨ ∃ pd slot, op = .installCap pd slot p := by
  cases op with
  | create => exact .inl ((angelegt_create hstep).pool ▸ hp)
  | createHardwareBackend => exact .inl ((angelegt_createHardwareBackend hstep).pool ▸ hp)
  | free pd =>
    obtain ⟨r, hr, rfl⟩ := Option.map_eq_some_iff.mp hstep
    rcases cell_free hr i with hnone | hsame
    · rw [hnone] at hp
      cases hp
    · exact .inl (hsame ▸ hp)
  | setBudgetDeckel deckel =>
    cases hstep
    exact .inl hp
  | installCap pd slot cap =>
    cases hstep
    rcases t.cell_poolSchreiben pd slot (some cap) i with hneu | hsame
    · obtain rfl : cap = p := Option.some.inj (hneu.symm.trans hp)
      exact .inr ⟨pd, slot, rfl⟩
    · exact .inl (hsame ▸ hp)
  | clearCap pd slot =>
    cases hstep
    rcases t.cell_poolSchreiben pd slot none i with hleer | hsame
    · exact absurd (hleer.symm.trans hp) (by simp)
    · exact .inl (hsame ▸ hp)

theorem cell_of_capAt {t : PdTable} {pd slot : Nat} {p : CapPtr} (h : t.capAt pd slot = some p) :
    ∃ i, t.cspacePool.cell i = some p := by
  rw [capAt_eq_platz] at h
  obtain ⟨i, -, hi⟩ := Option.bind_eq_some_iff.mp h
  exact ⟨i, hi⟩

end PdTable

namespace CapKern

def boot (tab : Tabellen) (npd npool : Nat) (alloc : PhysAllocator) : CapKern :=
  ⟨⟨CapSpace.attached tab, PdTable.attached npd npool, fun _ => none⟩, alloc, fun _ => false⟩

/-- `felder` are the fields of the domains apart from their runs, `faeden` the backward table of the
threads, `stapel` the stacks of the living threads. -/
inductive Op where
  | raum (op : Cap.Op)
  | tafel (op : PdTable.Op)
  | felder (pds : Slab Pd)
  | faeden (owner : ThreadId → Option Nat)
  | stapel (stapel : CapPtr → Bool)

def raum (k : CapKern) : Kern := ⟨k.caps.cspace, k.alloc⟩

def mitRaum (k : CapKern) (r : Kern) : CapKern :=
  { k with caps := { k.caps with cspace := r.caps }, alloc := r.alloc }

def mitTafel (k : CapKern) (t : PdTable) : CapKern := { k with caps := { k.caps with pds := t } }

def step (k : CapKern) : Op → Option CapKern
  | .raum op => (k.raum.step op).map k.mitRaum
  | .tafel op => (k.caps.pds.step op).map k.mitTafel
  | .felder pds => some (k.mitTafel { k.caps.pds with pds := pds })
  | .faeden owner => some { k with caps := { k.caps with owner := owner } }
  | .stapel stapel => some { k with stapel := stapel }

/-- Only handles that were given out are written, and no generation wraps round. -/
def Zulaessig (k : CapKern) : Op → Prop
  | .raum op => ∀ r, k.raum.step op = some r → k.caps.cspace.OhneUmlauf r.caps
  | .tafel (.installCap _ _ cap) => k.caps.cspace.Ausgegeben cap
  | .tafel _ => True
  | .felder pds => PdTable.GleicheLaeufe k.caps.pds.pds pds
  | .faeden _ => True
  | .stapel stapel => ∀ p, stapel p = true → k.caps.cspace.Ausgegeben p

/-- The invariant of admissible runs. -/
structure Wohl (k : CapKern) : Prop where
  baum : ∃ kids, k.caps.cspace.Inv kids
  leer : k.caps.cspace.Leer
  innen : k.caps.pds.Innen
  pool : ∀ i p, k.caps.pds.cspacePool.cell i = some p → k.caps.cspace.Ausgegeben p
  stapel : ∀ p, k.stapel p = true → k.caps.cspace.Ausgegeben p

theorem boot_wohl (tab : Tabellen) (npd npool : Nat) (alloc : PhysAllocator) :
    (boot tab npd npool alloc).Wohl where
  baum := ⟨_, CapSpace.attached_inv tab⟩
  leer := CapSpace.attached_leer tab
  innen := PdTable.attached_innen npd npool
  pool := by
    intro i p hp
    cases hp
  stapel := by
    intro p hp
    cases hp

theorem step_wohl (k : CapKern) (op : Op) (k' : CapKern) (h : k.Wohl) (hok : k.Zulaessig op)
    (hstep : k.step op = some k') : k'.Wohl := by
  cases op with
  | raum op =>
    obtain ⟨r, hr, rfl⟩ := Option.map_eq_some_iff.mp hstep
    obtain ⟨kids, hinv⟩ := h.baum
    have hf : CapSpace.Fortgezaehlt k.caps.cspace r.caps := Kern.step_fortgezaehlt hinv hr
    have hgrenze := hok r hr
    exact ⟨Kern.step_inv k.raum op r ⟨kids, hinv⟩ hr, Kern.step_leer hinv h.leer hr, h.innen,
      fun i p hp => (h.pool i p hp).fortgezaehlt hf hgrenze,
      fun p hp => (h.stapel p hp).fortgezaehlt hf hgrenze⟩
  | tafel op =>
    obtain ⟨t, ht, rfl⟩ := Option.map_eq_some_iff.mp hstep
    refine ⟨h.baum, h.leer, PdTable.step_innen h.innen ht, fun i p hp => ?_, h.stapel⟩
    rcases PdTable.cell_step ht hp with hold | ⟨pd, slot, rfl⟩
    · exact h.pool i p hold
    · exact hok
  | felder pds =>
    cases hstep
    exact ⟨h.baum, h.leer, h.innen.felder hok, h.pool, h.stapel⟩
  | faeden owner =>
    cases hstep
    exact ⟨h.baum, h.leer, h.innen, h.pool, h.stapel⟩
  | stapel stapel =>
    cases hstep
    exact ⟨h.baum, h.leer, h.innen, h.pool, hok⟩

theorem run_wohl {tab : Tabellen} {npd npool : Nat} {alloc : PhysAllocator} {ops : List Op}
    {k : CapKern} (hops : Admissible step Zulaessig (boot tab npd npool alloc) ops)
    (hrun : run step (boot tab npd npool alloc) ops = some k) : k.Wohl :=
  run_invariant step_wohl (boot_wohl tab npd npool alloc) hops hrun

theorem Wohl.gen_ne_of_capAt {k : CapKern} (h : k.Wohl) {pd slot : Nat} {p : CapPtr}
    (hp : k.caps.pds.capAt pd slot = some p) (hfree : ¬ k.caps.cspace.Used p.slot) :
    p.gen ≠ (k.caps.cspace.daten p.slot).gen := by
  obtain ⟨i, hi⟩ := PdTable.cell_of_capAt hp
  exact (h.pool i p hi).gen_ne hfree

theorem Wohl.stapel_eq_false {k : CapKern} (h : k.Wohl) {p : CapPtr}
    (hfree : ¬ k.caps.cspace.Used p.slot) (hgen : p.gen = (k.caps.cspace.daten p.slot).gen) :
    k.stapel p = false := by
  cases hst : k.stapel p with
  | false => rfl
  | true => exact absurd hgen ((h.stapel p hst).gen_ne hfree)

/-- `k'` is `k` up to the generations of free slots and the peak counters. -/
structure WieVorher (k k' : CapKern) : Prop where
  cspace : k.caps.cspace.Wiederhergestellt k'.caps.cspace
  pds : k'.caps.pds = k.caps.pds
  owner : k'.caps.owner = k.caps.owner
  alloc : k'.alloc = k.alloc
  stapel : k'.stapel = k.stapel

theorem WieVorher.refl (k : CapKern) : WieVorher k k :=
  ⟨.refl _, rfl, rfl, rfl, rfl⟩

/-- The deletion of a new leaf goes through and takes exactly it away. -/
theorem deleteCap_neu {k' : CapKern} {s : CapSpace} {kids kids' : Nat → List Nat} {neu : Finset Nat}
    (h : s.Zuwachs k'.caps.cspace kids kids' neu) {p : CapPtr} (hp : p.slot ∈ neu)
    (hlebt : k'.caps.cspace.Lebt p) (hstapel : k'.stapel p = false) (rf : Finalized) :
    s.Zuwachs (k'.deleteCap rf p).2.caps.cspace kids (fun q => (kids' q).erase p.slot)
        (neu.erase p.slot) ∧
      (∀ q, (k'.deleteCap rf p).2.caps.cspace.Lebt q ↔ k'.caps.cspace.Lebt q ∧ q.slot ≠ p.slot) ∧
      (k'.deleteCap rf p).2.caps.pds = k'.caps.pds ∧
      (k'.deleteCap rf p).2.caps.owner = k'.caps.owner ∧
      (k'.deleteCap rf p).2.alloc = k'.alloc ∧ (k'.deleteCap rf p).2.stapel = k'.stapel := by
  have hused := ((CapSpace.lebt_iff _ _).mp hlebt).2.1
  have hleaf : k'.caps.cspace.firstChild p.slot = none := by
    have hfirst := h.inv.forest.first p.slot hused
    rw [h.blatt p.slot hp] at hfirst
    exact hfirst
  have hdel := Abbau.delete_of_leaf (a := ⟨k'.caps.cspace, k'.alloc, rf⟩) hlebt hleaf
  have heq : (k'.deleteCap rf p).2 =
      { k' with
        caps := { k'.caps with
          cspace := (Abbau.deleteLeaf ⟨k'.caps.cspace, k'.alloc, rf⟩ p.slot).caps }
        alloc := (Abbau.deleteLeaf ⟨k'.caps.cspace, k'.alloc, rf⟩ p.slot).alloc } := by
    unfold deleteCap
    rw [if_neg (by simp [hstapel]), hdel]
  rw [heq]
  have halloc : (Abbau.deleteLeaf ⟨k'.caps.cspace, k'.alloc, rf⟩ p.slot).alloc = k'.alloc :=
    CapSpace.Zuwachs.alloc_loeschen (a := ⟨k'.caps.cspace, k'.alloc, rf⟩) h hp
  exact ⟨CapSpace.Zuwachs.loeschen (a := ⟨k'.caps.cspace, k'.alloc, rf⟩) h hp,
    Abbau.lebt_deleteLeaf ⟨k'.caps.cspace, k'.alloc, rf⟩ p.slot, rfl, rfl, halloc, rfl⟩

theorem run_raum (k : CapKern) (ops : List Cap.Op) :
    run step k (ops.map .raum) = (run Kern.step k.raum ops).map k.mitRaum := by
  induction ops generalizing k with
  | nil => rfl
  | cons op ops ih =>
    rw [List.map_cons, run, run, step]
    cases hstep : k.raum.step op with
    | none => rfl
    | some r => exact ih (k.mitRaum r)

/-- Handles are written while they live. -/
def NurLebende (k : CapKern) : Op → Prop
  | .tafel (.installCap _ _ cap) => k.caps.cspace.Lebt cap
  | .stapel stapel => ∀ p, stapel p = true → k.caps.cspace.Lebt p
  | _ => True

theorem NurLebende.raum (k : CapKern) (ops : List Cap.Op) :
    Admissible step NurLebende k (ops.map .raum) := by
  induction ops generalizing k with
  | nil => trivial
  | cons op ops ih => exact ⟨trivial, fun k' _ => ih k'⟩

/-- The generation of a free slot is taken once round.  The first copy made there is still live when
`op` writes its handle; afterwards only the counters tell the difference. -/
theorem erreicht_umlauf {k : CapKern} (hinv : ∃ kids, k.caps.cspace.Inv kids)
    (hleer : k.caps.cspace.Leer) {src : CapPtr} (hsrc : k.caps.cspace.Lebt src) {x : Nat}
    (hx : k.caps.cspace.freeSlotIndex = .ok x) (hgen : (k.caps.cspace.daten x).gen < 2 ^ 32)
    (rights : Rights) (rf : Finalized) (op : Op) (k' : CapKern)
    (hop : ∀ r : Kern, r.caps.Lebt (k.caps.cspace.ptr x) → (k.mitRaum r).NurLebende op)
    (hstep : ∀ r : Kern, (k.mitRaum r).step op = some (k'.mitRaum r)) :
    ∃ ops a b c d e, Admissible step NurLebende k ops ∧
      run step k ops = some (k'.mitRaum ⟨k.caps.cspace.mitZaehler a b c d e, k.alloc⟩) := by
  obtain ⟨r₁, r, hcopy, hneu, hdel, hu⟩ := Kern.umlauf_eins (k := k.raum) hinv hleer hsrc hx rights rf
  have hgen' : (r.caps.daten x).gen < 2 ^ 32 := by
    rw [hu.gen, if_pos rfl]
    exact Nat.mod_lt _ (by decide)
  have hsrc' : r.caps.Lebt src := (hu.wie.lebt_iff src).mpr hsrc
  have hx' : r.caps.freeSlotIndex = .ok x := hu.wie.freeSlotIndex.trans hx
  obtain ⟨ops, r', hrun, hu'⟩ := Kern.umlauf hu.inv hu.leer hsrc' hx' hgen' rights rf (2 ^ 32 - 1)
  obtain ⟨hslots, hobjects, halloc⟩ := (hu.trans hu').voll hgen
  have hrest : run step (k'.mitRaum r) (ops.map .raum) = some (k'.mitRaum r') := by
    have hraum : (k'.mitRaum r).raum = r := rfl
    rw [run_raum, hraum, hrun]
    rfl
  have hrunde : step (k'.mitRaum r₁) (.raum (.delete (k.caps.cspace.ptr x) rf)) =
      some (k'.mitRaum r) := by
    have hraum : (k'.mitRaum r₁).raum = r₁ := rfl
    rw [step, hraum]
    exact congrArg (Option.map _) hdel
  have hkopie : step k (.raum (.copy src rights)) = some (k.mitRaum r₁) :=
    congrArg (Option.map k.mitRaum) hcopy
  have hok : Admissible step NurLebende k (.raum (.copy src rights) :: op ::
      .raum (.delete (k.caps.cspace.ptr x) rf) :: ops.map .raum) := by
    refine .cons_of_step ?_ hkopie (.cons_of_step (hop r₁ hneu) (hstep r₁)
      (.cons_of_step ?_ hrunde (NurLebende.raum _ ops)))
    · trivial
    · trivial
  obtain ⟨⟨slots, objects, a, b, c, d, e⟩, alloc⟩ := r'
  subst hslots hobjects halloc
  refine ⟨_, a, b, c, d, e, hok, ?_⟩
  rw [run_cons_of_step hkopie, run_cons_of_step (hstep r₁), run_cons_of_step hrunde]
  exact hrest

end CapKern

end Caprock.Microkit
