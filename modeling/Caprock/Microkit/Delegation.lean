import Caprock.Microkit.CapSystem

/-! # Collecting a delegation

`LOAD` and `LOAD_IMAGE` take a list of pairs, and for each pair derive a copy of the caller's
capability before anything is created.  A pair can be refused for four reasons; the copies made so
far are then deleted again in the order in which they were made.  No copy has a child by then, since
the caller cannot name one.
-/

namespace Caprock.Microkit

open Cap Mem Execution

def loadMaxDelegates : Nat := 8

def delegateUnpack (b : Nat) : Nat × Nat := (b >>> 4, b &&& 0xf)

/-- Source and target of pair `i` of a list. -/
def paar (liste i : Nat) : Nat × Nat := delegateUnpack (liste >>> (8 * i) &&& 0xff)

namespace CapKern

def mitCspace (k : CapKern) (s : CapSpace) : CapKern :=
  { k with caps := { k.caps with cspace := s } }

/-- `zurueck`: delete what was collected; the results are dropped. -/
def zurueck (rf : Finalized) (k : CapKern) (gesammelt : List (Nat × CapPtr)) : CapKern :=
  gesammelt.foldl (fun k e => (k.deleteCap rf e.2).2) k

/-- The loop of `sammle_endow`: `n` pairs are left, the next is pair `i`. -/
def sammleAb (pd liste : Nat) (rf : Finalized) : Nat → Nat → List (Nat × CapPtr) → CapKern →
    Except Ergebnis (List (Nat × CapPtr)) × CapKern
  | 0, _, gesammelt, k => (.ok gesammelt, k)
  | n + 1, i, gesammelt, k =>
      if gesammelt.any fun e => e.1 == (paar liste i).2 then
        (.error .errBadcap, zurueck rf k gesammelt)
      else
        match k.caps.pds.capAt pd (paar liste i).1 with
        | none => (.error .errBadcap, zurueck rf k gesammelt)
        | some c =>
            match k.caps.cspace.lookup c with
            | none => (.error .errBadcap, zurueck rf k gesammelt)
            | some (_, r, _) =>
                match k.caps.cspace.copy c r with
                | (.error _, s) => (.error .errBadcap, zurueck rf (k.mitCspace s) gesammelt)
                | (.ok copy, s) =>
                    sammleAb pd liste rf n (i + 1) (gesammelt ++ [((paar liste i).2, copy)])
                      (k.mitCspace s)

def sammleEndow (k : CapKern) (pd liste anzahl : Nat) (rf : Finalized) :
    Except Ergebnis (List (Nat × CapPtr)) × CapKern :=
  if loadMaxDelegates < anzahl then (.error .errBadcap, k) else sammleAb pd liste rf anzahl 0 [] k

def plaetze (l : List (Nat × CapPtr)) : List Nat := l.map fun e => e.2.slot

/-- Entry `e` was collected for the pair of `src` and `dst`: a new child of the capability that
stands in slot `src`. -/
structure Kind (k k' : CapKern) (pd : Nat) (p : Nat × Nat) (e : Nat × CapPtr) : Prop where
  ziel : e.1 = p.2
  neu : ¬ k.caps.cspace.Lebt e.2
  lebt : k'.caps.cspace.Lebt e.2
  quelle : ∃ c, k.caps.pds.capAt pd p.1 = some c ∧ k.caps.cspace.Lebt c ∧
    k'.caps.cspace.parent e.2.slot = some c.slot ∧
    (k.caps.cspace.daten c.slot).rights.contains (k'.caps.cspace.daten e.2.slot).rights = true ∧
    (k'.caps.cspace.daten e.2.slot).object = (k.caps.cspace.daten c.slot).object ∧
    (k'.caps.cspace.daten e.2.slot).subregion = (k.caps.cspace.daten c.slot).subregion

/-- The loop on the way from `k` to `k'`, with `l` collected. -/
structure Sammlung (k k' : CapKern) (pd liste : Nat) (kids kids' : Nat → List Nat)
    (l : List (Nat × CapPtr)) : Prop where
  zuwachs : k.caps.cspace.Zuwachs k'.caps.cspace kids kids' (plaetze l).toFinset
  gen : ∀ x, (k'.caps.cspace.daten x).gen = (k.caps.cspace.daten x).gen
  pds : k'.caps.pds = k.caps.pds
  owner : k'.caps.owner = k.caps.owner
  alloc : k'.alloc = k.alloc
  stapel : k'.stapel = k.stapel
  einmalig : (plaetze l).Nodup
  ziele : (l.map Prod.fst).Nodup
  kinder : ∀ i e, l[i]? = some e → Kind k k' pd (paar liste i) e

variable {k k' : CapKern} {pd liste : Nat} {kids kids' : Nat → List Nat} {l : List (Nat × CapPtr)}

theorem Sammlung.nil (hinv : k.caps.cspace.Inv kids) (hleer : k.caps.cspace.Leer) :
    Sammlung k k pd liste kids kids [] where
  zuwachs := .refl hinv hleer
  gen := fun _ => rfl
  pds := rfl
  owner := rfl
  alloc := rfl
  stapel := rfl
  einmalig := List.nodup_nil
  ziele := List.nodup_nil
  kinder := by simp

theorem Sammlung.kind_of_mem (h : Sammlung k k' pd liste kids kids' l) {e : Nat × CapPtr}
    (he : e ∈ l) : ∃ i, l[i]? = some e ∧ Kind k k' pd (paar liste i) e := by
  obtain ⟨i, hi⟩ := List.mem_iff_getElem?.mp he
  exact ⟨i, hi, h.kinder i e hi⟩

theorem Sammlung.frei (h : Sammlung k k' pd liste kids kids' l) {e : Nat × CapPtr} (he : e ∈ l) :
    ¬ k.caps.cspace.Used e.2.slot ∧ e.2.gen = (k.caps.cspace.daten e.2.slot).gen := by
  obtain ⟨i, -, hkind⟩ := h.kind_of_mem he
  refine ⟨h.zuwachs.frei _ (List.mem_toFinset.mpr (List.mem_map_of_mem he)), ?_⟩
  rw [← h.gen]
  exact ((CapSpace.lebt_iff _ _).mp hkind.lebt).2.2.symm

theorem Sammlung.alt (h : Sammlung k k' pd liste kids kids' l) (hw : k.Wohl) {slot : Nat}
    {c : CapPtr} (hc : k.caps.pds.capAt pd slot = some c) (hlebt : k'.caps.cspace.Lebt c) :
    k.caps.cspace.Used c.slot := by
  by_contra hfree
  obtain ⟨-, -, hgen⟩ := (CapSpace.lebt_iff _ _).mp hlebt
  rw [h.gen] at hgen
  exact hw.gen_ne_of_capAt hc hfree hgen.symm

theorem copy_of_lebt {s : CapSpace} (hinv : s.Inv kids) {c : CapPtr} (hc : s.Lebt c) (r : Rights) :
    s.copy c r = (.error .noSlot, s) ∨ ∃ x s', s.copy c r = (.ok (s'.ptr x), s') ∧
      CapSpace.Abgeleitet s s' c.slot x ((s.daten c.slot).rights.intersect r)
        (s.daten c.slot).badge (s.daten c.slot).subregion := by
  have hres : s.resolve c = .ok c.slot := hc
  have hused := ((CapSpace.lebt_iff s c).mp hc).2.1
  unfold CapSpace.copy
  rw [hres]
  exact CapSpace.ableiten_cases hinv hused r _

theorem Kind.ableiten {p : Nat × Nat} {e : Nat × CapPtr} (h : Kind k k' pd p e) {s : CapSpace}
    {q x : Nat} {rights : Rights} {badge : Nat} {fenster : Option PhysRegion}
    (ha : CapSpace.Abgeleitet k'.caps.cspace s q x rights badge fenster) :
    Kind k (k'.mitCspace s) pd p e := by
  obtain ⟨hlt, hused, hgen⟩ := (CapSpace.lebt_iff _ _).mp h.lebt
  have hne : e.2.slot ≠ x := fun heq => ha.free (heq ▸ hused)
  have hdaten : s.daten e.2.slot = k'.caps.cspace.daten e.2.slot := by rw [ha.daten, if_neg hne]
  obtain ⟨c, hc, hlebt, hparent, hrights, hobject, hfenster⟩ := h.quelle
  refine ⟨h.ziel, h.neu, (CapSpace.lebt_iff _ _).mpr ⟨ha.slotsLen ▸ hlt, ?_, ?_⟩, c, hc, hlebt, ?_,
    ?_, ?_, ?_⟩
  · exact (CapSpace.used_iff_daten s _).mpr (hdaten ▸ hused)
  · exact hdaten ▸ hgen
  · show s.parent e.2.slot = some c.slot
    rw [ha.parent, if_neg hne, hparent]
  · exact hdaten ▸ hrights
  · exact hdaten ▸ hobject
  · exact hdaten ▸ hfenster

/-- One more pair is collected. -/
theorem Sammlung.weiter (h : Sammlung k k' pd liste kids kids' l) {dst x : Nat} {c : CapPtr}
    {s : CapSpace} {r : Rights} (hdst : (paar liste l.length).2 = dst)
    (hneu : ∀ e ∈ l, e.1 ≠ dst) (hc : k.caps.pds.capAt pd (paar liste l.length).1 = some c)
    (hused : k.caps.cspace.Used c.slot) (hlebt : k'.caps.cspace.Lebt c)
    (ha : CapSpace.Abgeleitet k'.caps.cspace s c.slot x
      ((k'.caps.cspace.daten c.slot).rights.intersect r) (k'.caps.cspace.daten c.slot).badge
      (k'.caps.cspace.daten c.slot).subregion) :
    ∃ kids'', Sammlung k (k'.mitCspace s) pd liste kids kids'' (l ++ [(dst, s.ptr x)]) := by
  have hdaten : k'.caps.cspace.daten c.slot = k.caps.cspace.daten c.slot :=
    h.zuwachs.daten c.slot hused
  have hneuX : s.daten x = ⟨true, (k'.caps.cspace.daten x).gen, (k.caps.cspace.daten c.slot).object,
      (k.caps.cspace.daten c.slot).rights.intersect r, (k.caps.cspace.daten c.slot).badge,
      (k.caps.cspace.daten c.slot).subregion, Mdb.empty⟩ := by
    rw [ha.daten, if_pos rfl, hdaten]
  have hfree : ¬ k.caps.cspace.Used x := fun hx => ha.free ((h.zuwachs.used x).mpr (.inl hx))
  have hnotin : x ∉ plaetze l := by
    intro hin
    exact ha.free ((h.zuwachs.used x).mpr (.inr (List.mem_toFinset.mpr hin)))
  have hplaetze : plaetze (l ++ [(dst, s.ptr x)]) = plaetze l ++ [x] := by
    rw [plaetze, List.map_append]
    rfl
  have hset : (plaetze (l ++ [(dst, s.ptr x)])).toFinset = insert x (plaetze l).toFinset := by
    ext y
    simp [hplaetze]
  have hzuwachs := h.zuwachs.ableiten hused ha
  rw [← hset] at hzuwachs
  refine ⟨_, hzuwachs, fun y => ?_, h.pds, h.owner, h.alloc, h.stapel, ?_, ?_, fun i e hi => ?_⟩
  · show (s.daten y).gen = (k.caps.cspace.daten y).gen
    rw [ha.daten, ← h.gen]
    split
    · next heq => rw [heq]
    · rfl
  · rw [hplaetze, List.nodup_append]
    refine ⟨h.einmalig, List.nodup_singleton x, ?_⟩
    rintro y hy z hz rfl
    exact hnotin (List.mem_singleton.mp hz ▸ hy)
  · rw [List.map_append, List.nodup_append]
    refine ⟨h.ziele, List.nodup_singleton _, ?_⟩
    rintro y hy z hz rfl
    obtain ⟨e, he, rfl⟩ := List.mem_map.mp hy
    exact hneu e he (List.mem_singleton.mp hz)
  · by_cases hlt : i < l.length
    · rw [List.getElem?_append_left hlt] at hi
      exact (h.kinder i e hi).ableiten ha
    · rw [List.getElem?_append_right (Nat.le_of_not_lt hlt)] at hi
      obtain ⟨hi', rfl⟩ := List.getElem?_eq_some_iff.mp hi
      have hieq : i = l.length := by
        rw [List.length_singleton] at hi'
        omega
      subst hieq
      obtain ⟨hclt, -, hcgen⟩ := (CapSpace.lebt_iff _ _).mp hlebt
      simp only [Nat.sub_self, List.getElem_cons_zero]
      refine ⟨hdst.symm, fun hl => hfree ((CapSpace.lebt_iff _ _).mp hl).2.1,
        (CapSpace.lebt_iff _ _).mpr ⟨ha.slotsLen ▸ ha.lt, ?_, rfl⟩, c, hc, ?_, ?_, ?_, ?_, ?_⟩
      · exact (CapSpace.used_iff_daten s x).mpr (by rw [hneuX])
      · refine (CapSpace.lebt_iff _ _).mpr ⟨h.zuwachs.slotsLen ▸ hclt, hused, ?_⟩
        rw [← hdaten, hcgen]
      · show s.parent x = some c.slot
        rw [ha.parent, if_pos rfl]
      · show (k.caps.cspace.daten c.slot).rights.contains (s.daten x).rights = true
        rw [hneuX]
        exact Rights.contains_intersect_left _ _
      · show (s.daten x).object = (k.caps.cspace.daten c.slot).object
        rw [hneuX]
      · show (s.daten x).subregion = (k.caps.cspace.daten c.slot).subregion
        rw [hneuX]

theorem zurueck_spec {s : CapSpace} (rf : Finalized)
    (h : s.Zuwachs k'.caps.cspace kids kids' (plaetze l).toFinset) (hnodup : (plaetze l).Nodup)
    (hlebt : ∀ e ∈ l, k'.caps.cspace.Lebt e.2) (hstapel : ∀ e ∈ l, k'.stapel e.2 = false) :
    s.Wiederhergestellt (zurueck rf k' l).caps.cspace ∧
      (zurueck rf k' l).caps.pds = k'.caps.pds ∧ (zurueck rf k' l).caps.owner = k'.caps.owner ∧
      (zurueck rf k' l).alloc = k'.alloc ∧ (zurueck rf k' l).stapel = k'.stapel := by
  induction l generalizing k' kids' with
  | nil => exact ⟨h.wiederhergestellt, rfl, rfl, rfl, rfl⟩
  | cons e l ih =>
    obtain ⟨hnot, hrest⟩ := List.nodup_cons.mp hnodup
    have hin : e.2.slot ∈ (plaetze (e :: l)).toFinset := by simp [plaetze]
    obtain ⟨hzuwachs, hlebt', hpds, howner, halloc, hstapel'⟩ :=
      deleteCap_neu h hin (hlebt e List.mem_cons_self) (hstapel e List.mem_cons_self) rf
    have hset : (plaetze (e :: l)).toFinset.erase e.2.slot = (plaetze l).toFinset := by
      rw [plaetze, List.map_cons, List.toFinset_cons]
      exact Finset.erase_insert fun hmem => hnot (List.mem_toFinset.mp hmem)
    rw [hset] at hzuwachs
    obtain ⟨hw, hpds', howner', halloc', hst⟩ := ih hzuwachs hrest
      (fun e' he' => (hlebt' e'.2).mpr ⟨hlebt e' (List.mem_cons_of_mem _ he'), fun heq =>
        hnot (List.mem_map.mpr ⟨e', he', heq⟩)⟩)
      (fun e' he' => by rw [hstapel']; exact hstapel e' (List.mem_cons_of_mem _ he'))
    exact ⟨hw, hpds'.trans hpds, howner'.trans howner, halloc'.trans halloc, hst.trans hstapel'⟩

theorem Sammlung.zurueck (h : Sammlung k k' pd liste kids kids' l) (hw : k.Wohl) (rf : Finalized) :
    WieVorher k (zurueck rf k' l) := by
  have hlebt : ∀ e ∈ l, k'.caps.cspace.Lebt e.2 := by
    intro e he
    obtain ⟨i, -, hkind⟩ := h.kind_of_mem he
    exact hkind.lebt
  have hstapel : ∀ e ∈ l, k'.stapel e.2 = false := by
    intro e he
    obtain ⟨hfree, hgen⟩ := h.frei he
    rw [h.stapel]
    exact hw.stapel_eq_false hfree hgen
  obtain ⟨hcspace, hpds, howner, halloc, hst⟩ := zurueck_spec rf h.zuwachs h.einmalig hlebt hstapel
  exact ⟨hcspace, hpds.trans h.pds, howner.trans h.owner, halloc.trans h.alloc, hst.trans h.stapel⟩

/-- What a finished collection has made of `k`. -/
structure Gesammelt (k k' : CapKern) (pd liste anzahl : Nat) (l : List (Nat × CapPtr)) : Prop where
  laenge : l.length = anzahl
  grenze : anzahl ≤ loadMaxDelegates
  ziele : (l.map Prod.fst).Nodup
  handles : (l.map Prod.snd).Nodup
  kinder : ∀ i e, l[i]? = some e → Kind k k' pd (paar liste i) e
  lebt : ∀ p, k'.caps.cspace.Lebt p ↔ k.caps.cspace.Lebt p ∨ ∃ e ∈ l, e.2 = p
  daten : ∀ x, k.caps.cspace.Used x → k'.caps.cspace.daten x = k.caps.cspace.daten x
  pds : k'.caps.pds = k.caps.pds
  owner : k'.caps.owner = k.caps.owner
  alloc : k'.alloc = k.alloc
  stapel : k'.stapel = k.stapel

def SammelSpec (k : CapKern) (pd liste anzahl : Nat) :
    Except Ergebnis (List (Nat × CapPtr)) × CapKern → Prop
  | (.error _, k') => WieVorher k k'
  | (.ok l, k') => Gesammelt k k' pd liste anzahl l

theorem Sammlung.lebt_iff (h : Sammlung k k' pd liste kids kids' l) (p : CapPtr) :
    k'.caps.cspace.Lebt p ↔ k.caps.cspace.Lebt p ∨ ∃ e ∈ l, e.2 = p := by
  constructor
  · intro hp
    obtain ⟨hlt, hused, hgen⟩ := (CapSpace.lebt_iff _ _).mp hp
    rcases (h.zuwachs.used p.slot).mp hused with hold | hneu
    · refine .inl ((CapSpace.lebt_iff _ _).mpr ⟨h.zuwachs.slotsLen ▸ hlt, hold, ?_⟩)
      rw [← h.gen, hgen]
    · obtain ⟨e, he, heq⟩ := List.mem_map.mp (List.mem_toFinset.mp hneu)
      obtain ⟨i, -, hkind⟩ := h.kind_of_mem he
      exact .inr ⟨e, he, hkind.lebt.eq_of_slot hp heq⟩
  · rintro (hp | ⟨e, he, rfl⟩)
    · obtain ⟨hlt, hused, hgen⟩ := (CapSpace.lebt_iff _ _).mp hp
      refine (CapSpace.lebt_iff _ _).mpr ⟨h.zuwachs.slotsLen.symm ▸ hlt,
        (h.zuwachs.used _).mpr (.inl hused), ?_⟩
      rw [h.gen, hgen]
    · obtain ⟨i, -, hkind⟩ := h.kind_of_mem he
      exact hkind.lebt

theorem Sammlung.gesammelt (h : Sammlung k k' pd liste kids kids' l)
    (hle : l.length ≤ loadMaxDelegates) : Gesammelt k k' pd liste l.length l where
  laenge := rfl
  grenze := hle
  ziele := h.ziele
  handles := by
    have hmap : plaetze l = (l.map Prod.snd).map CapPtr.slot := by
      rw [plaetze, List.map_map]
      rfl
    have hnodup := h.einmalig
    rw [hmap] at hnodup
    exact hnodup.of_map
  kinder := h.kinder
  lebt := h.lebt_iff
  daten := h.zuwachs.daten
  pds := h.pds
  owner := h.owner
  alloc := h.alloc
  stapel := h.stapel

theorem sammleAb_spec (hw : k.Wohl) (rf : Finalized) (n : Nat)
    (h : Sammlung k k' pd liste kids kids' l) (hle : l.length + n ≤ loadMaxDelegates) :
    SammelSpec k pd liste (l.length + n) (sammleAb pd liste rf n l.length l k') := by
  induction n generalizing k' kids' l with
  | zero => exact h.gesammelt hle
  | succ n ih =>
    unfold sammleAb
    by_cases hdoppelt : (l.any fun e => e.1 == (paar liste l.length).2) = true
    · rw [if_pos hdoppelt]
      exact h.zurueck hw rf
    · rw [if_neg hdoppelt]
      have hneu : ∀ e ∈ l, e.1 ≠ (paar liste l.length).2 := by
        intro e he heq
        exact hdoppelt (List.any_eq_true.mpr ⟨e, he, by simp [heq]⟩)
      cases hcap : k'.caps.pds.capAt pd (paar liste l.length).1 with
      | none => exact h.zurueck hw rf
      | some c =>
        dsimp only
        cases hlook : k'.caps.cspace.lookup c with
        | none => exact h.zurueck hw rf
        | some v =>
          obtain ⟨kind, r, badge⟩ := v
          dsimp only
          rw [h.pds] at hcap
          have hlebt : k'.caps.cspace.Lebt c := by
            by_contra hnot
            rw [CapSpace.lookup, CapSpace.resolve_of_not_lebt hnot] at hlook
            cases hlook
          rcases copy_of_lebt h.zuwachs.inv hlebt r with heq | ⟨x, s, heq, ha⟩
          · rw [heq]
            exact h.zurueck hw rf
          · rw [heq]
            obtain ⟨kids'', hnext⟩ := h.weiter rfl hneu hcap (h.alt hw hcap hlebt) hlebt ha
            have hlen : (l ++ [((paar liste l.length).2, s.ptr x)]).length = l.length + 1 := by
              simp
            have hspec := ih hnext (by omega)
            rw [hlen] at hspec
            rw [show l.length + (n + 1) = l.length + 1 + n by omega]
            exact hspec

theorem sammleEndow_spec (hw : k.Wohl) (pd liste anzahl : Nat) (rf : Finalized) :
    SammelSpec k pd liste anzahl (k.sammleEndow pd liste anzahl rf) := by
  unfold sammleEndow
  by_cases hviel : loadMaxDelegates < anzahl
  · rw [if_pos hviel]
    exact .refl k
  · rw [if_neg hviel]
    obtain ⟨kids, hinv⟩ := hw.baum
    have hnil : Sammlung k k pd liste kids kids [] := .nil hinv hw.leer
    have hspec := sammleAb_spec hw rf anzahl hnil (by rw [List.length_nil]; omega)
    rw [List.length_nil, Nat.zero_add] at hspec
    exact hspec

/-- In every run without a wrapped generation. -/
theorem run_sammleEndow {tab : Tabellen} {npd npool : Nat} {alloc : PhysAllocator} {ops : List Op}
    {k : CapKern} (hops : Admissible step Zulaessig (boot tab npd npool alloc) ops)
    (hrun : run step (boot tab npd npool alloc) ops = some k) (pd liste anzahl : Nat)
    (rf : Finalized) : SammelSpec k pd liste anzahl (k.sammleEndow pd liste anzahl rf) :=
  sammleEndow_spec (run_wohl hops hrun) pd liste anzahl rf

def kleinKern : CapKern where
  caps := {
    cspace := ((CapSpace.attached (.klein 3 1)).install (.endpoint 0) Rights.rw).2
    pds := ((PdTable.attached 1 16).createMitBudgetUndCspace .userLand 16 16).elim
      (PdTable.attached 1 16) fun r => r.2.poolSchreiben 0 0 (some ⟨0, 0⟩)
    owner := fun _ => none }
  alloc := .new
  stapel := fun _ => false

def kleinOps : List Op :=
  [.tafel (.create .userLand 16 16), .raum (.install (.endpoint 0) Rights.rw),
    .tafel (.installCap 0 0 ⟨0, 0⟩)]

theorem run_kleinOps : run step (boot (.klein 3 1) 1 16 .new) kleinOps = some kleinKern :=
  rfl

/-- Slot 0 goes to places 0 and 1. -/
theorem run_sammleEndow_kleinKern :
    SammelSpec kleinKern 0 0x0100 2 (kleinKern.sammleEndow 0 0x0100 2 (Finalized.new 4 4)) ∧
      (kleinKern.sammleEndow 0 0x0100 2 (Finalized.new 4 4)).1 =
        .ok [(0, ⟨1, 0⟩), (1, ⟨2, 0⟩)] := by
  have hops : Admissible step Zulaessig (boot (.klein 3 1) 1 16 .new) kleinOps := by
    refine .cons_of_step ?_ rfl (.cons_of_step ?_ rfl (.cons_of_step ?_ rfl trivial))
    · trivial
    · exact fun r _ x hx => Bool.noConfusion hx.1
    · exact .inr ⟨rfl, rfl⟩
  exact ⟨run_sammleEndow hops run_kleinOps 0 0x0100 2 (Finalized.new 4 4), by decide⟩

theorem deleteCap_of_child {k : CapKern} {p : CapPtr} (hchild : k.caps.cspace.firstChild p.slot ≠ none)
    (rf : Finalized) : (k.deleteCap rf p).2 = k := by
  unfold deleteCap
  split
  · rfl
  · obtain ⟨e, he⟩ := Abbau.delete_of_not_leaf (a := ⟨k.caps.cspace, k.alloc, rf⟩) (p := p)
      (fun h => hchild h.2)
    rw [he]

theorem used_deleteCap {k : CapKern} {p : CapPtr} {x : Nat} (hx : k.caps.cspace.Used x)
    (hne : x ≠ p.slot) (rf : Finalized) : (k.deleteCap rf p).2.caps.cspace.Used x := by
  unfold deleteCap
  split
  · exact hx
  · by_cases hleaf : k.caps.cspace.Lebt p ∧ k.caps.cspace.firstChild p.slot = none
    · rw [Abbau.delete_of_leaf (a := ⟨k.caps.cspace, k.alloc, rf⟩) hleaf.1 hleaf.2]
      exact (Abbau.used_deleteLeaf _ _ _).mpr ⟨hx, hne⟩
    · obtain ⟨e, he⟩ := Abbau.delete_of_not_leaf (a := ⟨k.caps.cspace, k.alloc, rf⟩) hleaf
      rw [he]
      exact hx

theorem sammleAb_succ {k : CapKern} {pd liste n i : Nat} {rf : Finalized} {l : List (Nat × CapPtr)}
    {c p : CapPtr} {v : ObjectKind × Rights × Nat} {s : CapSpace}
    (hneu : (l.any fun e => e.1 == (paar liste i).2) = false)
    (hcap : k.caps.pds.capAt pd (paar liste i).1 = some c)
    (hlook : k.caps.cspace.lookup c = some v) (hcopy : k.caps.cspace.copy c v.2.1 = (.ok p, s)) :
    sammleAb pd liste rf (n + 1) i l k =
      sammleAb pd liste rf n (i + 1) (l ++ [((paar liste i).2, p)]) (k.mitCspace s) := by
  rw [sammleAb, hneu, hcap]
  dsimp only
  rw [hlook]
  dsimp only
  rw [hcopy]
  rfl

theorem sammleAb_voll {k : CapKern} {pd liste n i : Nat} {rf : Finalized} {l : List (Nat × CapPtr)}
    {c : CapPtr} {v : ObjectKind × Rights × Nat} {e : CapError} {s : CapSpace}
    (hneu : (l.any fun e => e.1 == (paar liste i).2) = false)
    (hcap : k.caps.pds.capAt pd (paar liste i).1 = some c)
    (hlook : k.caps.cspace.lookup c = some v)
    (hcopy : k.caps.cspace.copy c v.2.1 = (.error e, s)) :
    sammleAb pd liste rf (n + 1) i l k = (.error .errBadcap, zurueck rf (k.mitCspace s) l) := by
  rw [sammleAb, hneu, hcap]
  dsimp only
  rw [hlook]
  dsimp only
  rw [hcopy]
  rfl

def umgelaufen (a b c d e : Nat) : CapKern :=
  (kleinKern.mitTafel (kleinKern.caps.pds.installCap 0 1 ⟨1, 0⟩)).mitRaum
    ⟨kleinKern.caps.cspace.mitZaehler a b c d e, kleinKern.alloc⟩

theorem umgelaufen_sammleEndow (a b c d e : Nat) : ∃ k₂ : CapKern,
    (umgelaufen a b c d e).sammleEndow 0 0xf1100 3 (Finalized.new 4 4) =
      (.error .errBadcap, zurueck (Finalized.new 4 4) k₂ [(0, ⟨1, 0⟩), (1, ⟨2, 0⟩)]) ∧
    k₂.caps.cspace.Used 1 ∧ k₂.caps.cspace.firstChild 1 = some 2 := by
  set k := umgelaufen a b c d e
  set s₁ := (k.caps.cspace.copy ⟨0, 0⟩ Rights.rw).2
  set s₂ := (s₁.copy ⟨1, 0⟩ Rights.rw).2
  refine ⟨k.mitCspace s₂, ?_, rfl, rfl⟩
  have hcopy₀ : k.caps.cspace.copy ⟨0, 0⟩ Rights.rw = (.ok ⟨1, 0⟩, s₁) := Prod.ext rfl rfl
  have hcopy₁ : s₁.copy ⟨1, 0⟩ Rights.rw = (.ok ⟨2, 0⟩, s₂) := Prod.ext rfl rfl
  have hcopy₂ : s₂.copy ⟨0, 0⟩ (s₂.slots.cell 0).rights = (.error .noSlot, s₂) := rfl
  have hlook₀ : k.caps.cspace.lookup ⟨0, 0⟩ = some (.endpoint 0, Rights.rw, 0) := rfl
  have hlook₁ : s₁.lookup ⟨1, 0⟩ = some (.endpoint 0, Rights.rw, 0) := by
    have hrights : Rights.rw.intersect Rights.rw = Rights.rw := by decide
    calc s₁.lookup ⟨1, 0⟩ = some (.endpoint 0, Rights.rw.intersect Rights.rw, 0) := rfl
      _ = some (.endpoint 0, Rights.rw, 0) := by rw [hrights]
  have hlook₂ : s₂.lookup ⟨0, 0⟩ = some (s₂.kindOfSlot 0, (s₂.slots.cell 0).rights,
      (s₂.slots.cell 0).badge) := rfl
  have hcap₀ : k.caps.pds.capAt 0 0 = some ⟨0, 0⟩ := rfl
  have hcap₁ : k.caps.pds.capAt 0 1 = some ⟨1, 0⟩ := rfl
  have hcap₂ : (k.mitCspace s₂).caps.pds.capAt 0 0 = some ⟨0, 0⟩ := hcap₀
  clear_value s₂ s₁ k
  calc k.sammleEndow 0 0xf1100 3 (Finalized.new 4 4)
      = sammleAb 0 0xf1100 (Finalized.new 4 4) 3 0 [] k := by
          rw [sammleEndow, if_neg (by decide)]
    _ = sammleAb 0 0xf1100 (Finalized.new 4 4) 2 1 [(0, ⟨1, 0⟩)] (k.mitCspace s₁) :=
      sammleAb_succ rfl hcap₀ hlook₀ hcopy₀
    _ = sammleAb 0 0xf1100 (Finalized.new 4 4) 1 2 [(0, ⟨1, 0⟩), (1, ⟨2, 0⟩)] (k.mitCspace s₂) :=
      sammleAb_succ rfl hcap₁ hlook₁ hcopy₁
    _ = (.error .errBadcap, zurueck (Finalized.new 4 4) (k.mitCspace s₂)
          [(0, ⟨1, 0⟩), (1, ⟨2, 0⟩)]) := sammleAb_voll rfl hcap₂ hlook₂ hcopy₂

theorem kleinKern_wohl : (∃ kids, kleinKern.caps.cspace.Inv kids) ∧ kleinKern.caps.cspace.Leer := by
  have hstep : Kern.step (Kern.init (.klein 3 1) .new) (.install (.endpoint 0) Rights.rw) =
      some kleinKern.raum := rfl
  have hinv := CapSpace.attached_inv (.klein 3 1)
  exact ⟨Kern.step_inv _ _ _ ⟨_, hinv⟩ hstep, Kern.step_leer hinv (CapSpace.attached_leer _) hstep⟩

theorem erreicht_umgelaufen : ∃ ops a b c d e,
    Admissible step NurLebende (boot (.klein 3 1) 1 16 .new) ops ∧
      run step (boot (.klein 3 1) 1 16 .new) ops = some (umgelaufen a b c d e) := by
  obtain ⟨hinv, hleer⟩ := kleinKern_wohl
  have hgen : (kleinKern.caps.cspace.daten 1).gen < 2 ^ 32 := by decide
  have hlebt : kleinKern.caps.cspace.Lebt ⟨0, 0⟩ := rfl
  -- The copy is put into place 1 while it lives.
  obtain ⟨ops, a, b, c, d, e, hrest⟩ := erreicht_umlauf hinv hleer hlebt rfl hgen Rights.rw
    (Finalized.new 4 4) (.tafel (.installCap 0 1 ⟨1, 0⟩))
    (kleinKern.mitTafel (kleinKern.caps.pds.installCap 0 1 ⟨1, 0⟩)) (fun r hr => hr) (fun r => rfl)
  have hok : Admissible step NurLebende (boot (.klein 3 1) 1 16 .new) kleinOps := by
    refine .cons_of_step ?_ rfl (.cons_of_step ?_ rfl (.cons_of_step ?_ rfl trivial))
    · trivial
    · trivial
    · rfl
  refine ⟨kleinOps ++ ops, a, b, c, d, e, hok.append fun t ht => ?_, ?_⟩
  · cases (run_kleinOps.symm.trans ht)
    exact hrest.1
  · rw [run_append, run_kleinOps]
    exact hrest.2

/-- Once a generation has wrapped round, the rollback can miss a copy. -/
theorem sammleEndow_umlauf : ∃ ops k,
    Admissible step NurLebende (boot (.klein 3 1) 1 16 .new) ops ∧
      run step (boot (.klein 3 1) 1 16 .new) ops = some k ∧
      (k.sammleEndow 0 0xf1100 3 (Finalized.new 4 4)).1 = .error .errBadcap ∧
      ¬ k.caps.cspace.Used 1 ∧
      (k.sammleEndow 0 0xf1100 3 (Finalized.new 4 4)).2.caps.cspace.Used 1 := by
  obtain ⟨ops, a, b, c, d, e, hok, hrun⟩ := erreicht_umgelaufen
  obtain ⟨k₂, heq, hused, hchild⟩ := umgelaufen_sammleEndow a b c d e
  have hfrei : (umgelaufen a b c d e).caps.cspace.slots.cell 1 = CapSlot.empty := rfl
  refine ⟨ops, umgelaufen a b c d e, hok, hrun, by rw [heq], fun h => ?_, ?_⟩
  · rw [CapSpace.Used, hfrei] at h
    exact Bool.noConfusion h
  · rw [heq, zurueck, List.foldl_cons, deleteCap_of_child (by simp [hchild])]
    exact used_deleteCap hused (by decide) _

end CapKern

end Caprock.Microkit
