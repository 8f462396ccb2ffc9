import Caprock.Lib.Run
import Caprock.Region.Heap

/-! # What becomes of the regions of a heap

Every region that the source grants should be in one of the two tables of the heap until it goes
back.  `allocate` asks the source first and looks for a free place afterwards: with the table full
the region is dropped, and nobody can give it back any more.

Nothing is assumed of the source, of the addresses given back or of what programs write into
their blocks, so the free lists may be damaged in any way.
-/

namespace Caprock.Region

open Mem Memory Word Execution

namespace Heap

def fordertAn (h : Heap) (layout : Layout) : Bool :=
  layout.size != 0 &&
    match classFor layout.effective with
    | some ci => h.freeHeads ci == 0 && (schneiden (classSize ci) h.slabs).isNone
    | none => true

def hatPlatz (h : Heap) (layout : Layout) : Bool :=
  match classFor layout.effective with
  | some _ => h.slabs.any Option.isNone
  | none => h.large.any Option.isNone

/-- The region that `deallocate` hands to `release`. -/
def freigabe (h : Heap) (addr : Nat) (layout : Layout) : Option PhysRegion :=
  if layout.size = 0 then none
  else
    match classFor layout.effective with
    | some _ => none
    | none =>
        (h.large.findIdx? fun r => r.any fun rg => rg.base == addr).bind fun slot =>
          h.large[slot]?.join

/-- `Drop`: every region in the tables is released. -/
def drop (h : Heap) : List PhysRegion × Heap :=
  (h.regionen, { h with
    source := h.regionen.foldl Quelle.release h.source
    slabs := h.slabs.map fun _ => none
    large := h.large.map fun _ => none })

theorem schneiden_regionen {size a : Nat} {slabs slabs' : List (Option SlabRegion)}
    (h : schneiden size slabs = some (a, slabs')) :
    slabs'.reduceOption.map SlabRegion.region = slabs.reduceOption.map SlabRegion.region := by
  induction slabs generalizing a slabs' with
  | nil => cases h
  | cons x slabs ih =>
    cases x with
    | none =>
      obtain ⟨⟨b, l⟩, hl, heq⟩ := Option.map_eq_some_iff.mp h
      cases heq
      simpa using ih hl
    | some slot =>
      simp only [schneiden] at h
      split at h
      · cases h
        rfl
      · obtain ⟨⟨b, l⟩, hl, heq⟩ := Option.map_eq_some_iff.mp h
        cases heq
        simpa using ih hl

inductive Bezug (h : Heap) (layout : Layout) (antwort : Option PhysRegion) (h' : Heap) : Prop where
  | ohne (hf : h.fordertAn layout = false) (hs : h'.source = h.source)
      (hr : h'.regionen = h.regionen)
  | abgelehnt (hf : h.fordertAn layout = true) (hs : h'.source = h.source.request antwort)
      (ha : antwort = none) (hr : h'.regionen = h.regionen)
  | eingetragen (r : PhysRegion) (hf : h.fordertAn layout = true)
      (hs : h'.source = h.source.request antwort) (ha : antwort = some r)
      (hp : h.hatPlatz layout = true) (hr : h'.regionen.Perm (r :: h.regionen))
  | verloren (r : PhysRegion) (hf : h.fordertAn layout = true)
      (hs : h'.source = h.source.request antwort) (ha : antwort = some r)
      (hp : h.hatPlatz layout = false) (hr : h'.regionen = h.regionen)

theorem findIdx?_isNone_eq_none {α : Type*} {l : List (Option α)}
    (h : l.findIdx? Option.isNone = none) : l.any Option.isNone = false := by
  rw [List.any_eq_false]
  intro x hx
  have hsome := List.findIdx?_eq_none_iff.mp h x hx
  simp [hsome]

theorem any_isNone_of_findIdx? {α : Type*} {l : List (Option α)} {i : Nat}
    (h : l.findIdx? Option.isNone = some i) : l.any Option.isNone = true :=
  List.any_eq_true.mpr ⟨none, List.mem_of_getElem? (Slots.free_of_findIdx? h), rfl⟩

theorem slabAlloc_bezug {h : Heap} {m : Mem} {layout : Layout} {ci : Nat}
    {antwort : Option PhysRegion} (hsize : layout.size ≠ 0)
    (hci : classFor layout.effective = some ci) :
    Bezug h layout antwort (h.slabAlloc m ci antwort).2 := by
  by_cases hkopf : h.freeHeads ci = 0
  · have hf : h.fordertAn layout = (schneiden (classSize ci) h.slabs).isNone := by
      simp [fordertAn, hsize, hci, hkopf]
    have hp : h.hatPlatz layout = h.slabs.any Option.isNone := by simp [hatPlatz, hci]
    simp only [slabAlloc, hkopf, ne_eq, not_true_eq_false, if_false]
    cases hschnitt : schneiden (classSize ci) h.slabs with
    | some p =>
      have hr := schneiden_regionen hschnitt
      exact .ohne (by rw [hf, hschnitt]; rfl) rfl (by simp only [regionen, hr])
    | none =>
      rw [hschnitt] at hf
      cases antwort with
      | none => exact .abgelehnt hf rfl rfl rfl
      | some r =>
        cases hfree : h.slabs.findIdx? Option.isNone with
        | none =>
          exact .verloren r hf rfl rfl (by rw [hp, findIdx?_isNone_eq_none hfree]) rfl
        | some free =>
          refine .eingetragen r hf rfl rfl (by rw [hp, any_isNone_of_findIdx? hfree]) ?_
          have hfill := Slots.perm_fill (a := (⟨r, classSize ci⟩ : SlabRegion))
            (Slots.free_of_findIdx? hfree)
          exact (hfill.map SlabRegion.region).append_right h.large.reduceOption
  · have hf : h.fordertAn layout = false := by simp [fordertAn, hsize, hci, hkopf]
    simp only [slabAlloc, hkopf, ne_eq, not_false_eq_true, if_true]
    exact .ohne hf rfl rfl

theorem largeAlloc_bezug {h : Heap} {layout : Layout} {antwort : Option PhysRegion}
    (hsize : layout.size ≠ 0) (hci : classFor layout.effective = none) :
    Bezug h layout antwort (h.largeAlloc antwort).2 := by
  have hf : h.fordertAn layout = true := by simp [fordertAn, hsize, hci]
  have hp : h.hatPlatz layout = h.large.any Option.isNone := by simp [hatPlatz, hci]
  unfold largeAlloc
  cases antwort with
  | none => exact .abgelehnt hf rfl rfl rfl
  | some r =>
    dsimp only
    cases hfree : h.large.findIdx? Option.isNone with
    | none => exact .verloren r hf rfl rfl (by rw [hp, findIdx?_isNone_eq_none hfree]) rfl
    | some slot =>
      refine .eingetragen r hf rfl rfl (by rw [hp, any_isNone_of_findIdx? hfree]) ?_
      have hfill := Slots.perm_fill (a := r) (Slots.free_of_findIdx? hfree)
      exact (hfill.append_left (h.slabs.reduceOption.map SlabRegion.region)).trans
        List.perm_middle

theorem allocate_bezug (h : Heap) (m : Mem) (layout : Layout) (antwort : Option PhysRegion) :
    Bezug h layout antwort (h.allocate m layout antwort).2 := by
  unfold allocate
  by_cases hsize : layout.size = 0
  · rw [if_pos hsize]
    exact .ohne (by simp [fordertAn, hsize]) rfl rfl
  · rw [if_neg hsize]
    cases hci : classFor layout.effective with
    | some ci => exact slabAlloc_bezug hsize hci
    | none => exact largeAlloc_bezug hsize hci

theorem deallocate_bezug (h : Heap) (m : Mem) (addr : Nat) (layout : Layout) :
    (h.deallocate m addr layout).1.source =
        (h.freigabe addr layout).elim h.source h.source.release ∧
      h.regionen.Perm
        ((h.freigabe addr layout).toList ++ (h.deallocate m addr layout).1.regionen) := by
  unfold deallocate freigabe
  by_cases hsize : layout.size = 0
  · simp [hsize]
  · rw [if_neg hsize, if_neg hsize]
    cases hci : classFor layout.effective with
    | some ci => exact ⟨rfl, List.Perm.refl _⟩
    | none =>
      cases hfind : h.large.findIdx? fun r => r.any fun rg => rg.base == addr with
      | none => exact ⟨rfl, List.Perm.refl _⟩
      | some slot =>
        obtain ⟨r, hget, -⟩ := Slots.found_of_findIdx? hfind
        simp only [hget, Option.bind_some, Option.join_some, Option.elim_some]
        refine ⟨trivial, ?_⟩
        have hclear := (Slots.perm_clear hget).append_left
          (h.slabs.reduceOption.map SlabRegion.region)
        exact hclear.trans List.perm_middle

theorem release_perm {l : List PhysRegion} {q : Quelle} (h : l.Subperm q.vergeben) :
    ((l.foldl Quelle.release q).vergeben ++ l).Perm q.vergeben := by
  induction l generalizing q with
  | nil => simp
  | cons r l ih =>
    have hsub : l.Subperm (q.release r).vergeben := by
      have herase := h.erase r
      rwa [List.erase_cons_head] at herase
    have hmem : r ∈ q.vergeben := h.subset List.mem_cons_self
    exact List.perm_middle.trans (((ih hsub).cons r).trans (List.perm_cons_erase hmem).symm)

theorem drop_regionen (h : Heap) : h.drop.2.regionen = [] := by
  simp [drop, regionen]

end Heap

/-- A heap with what the source granted it and what it released, newest first. -/
structure Journal where
  heap : Heap
  mem : Mem
  gewaehrt : List PhysRegion
  freigegeben : List PhysRegion

namespace Journal

def init : Journal := ⟨Heap.new, fun _ => 0, [], []⟩

inductive Op where
  | allocate (layout : Layout) (antwort : Option PhysRegion)
  | deallocate (addr : Nat) (layout : Layout)
  | schreiben (x : Nat) (v : UInt8)

def step (s : Journal) : Op → Option Journal
  | .allocate layout antwort => some { s with
      heap := (s.heap.allocate s.mem layout antwort).2
      gewaehrt := (if s.heap.fordertAn layout then antwort.toList else []) ++ s.gewaehrt }
  | .deallocate addr layout =>
      let res := s.heap.deallocate s.mem addr layout
      some { s with
        heap := res.1
        mem := res.2
        freigegeben := (s.heap.freigabe addr layout).toList ++ s.freigegeben }
  | .schreiben x v => some { s with mem := Function.update s.mem x v }

/-- Every granted region is recorded in a table or was released, and as often as it was granted. -/
def Erhalten (s : Journal) : Prop := s.gewaehrt.Perm (s.heap.regionen ++ s.freigegeben)

def PlatzDa (s : Journal) : Op → Prop
  | .allocate layout antwort =>
      s.heap.fordertAn layout = true → antwort ≠ none → s.heap.hatPlatz layout = true
  | _ => True

theorem init_erhalten : init.Erhalten := List.Perm.refl []

theorem step_erhalten (s : Journal) (op : Op) (h : s.Erhalten) (hok : s.PlatzDa op) :
    ∃ s', s.step op = some s' ∧ s'.Erhalten := by
  cases op with
  | schreiben x v => exact ⟨_, rfl, h⟩
  | deallocate addr layout =>
    refine ⟨_, rfl, ?_⟩
    have hperm := (s.heap.deallocate_bezug s.mem addr layout).2
    have hmove := hperm.append_right s.freigegeben
    rw [List.append_assoc] at hmove
    exact (h.trans hmove).trans (List.perm_append_comm_assoc _ _ _)
  | allocate layout antwort =>
    refine ⟨_, rfl, ?_⟩
    unfold Erhalten at h ⊢
    cases s.heap.allocate_bezug s.mem layout antwort with
    | ohne hf hs hr =>
      rw [hr]
      simpa [hf] using h
    | abgelehnt hf hs ha hr =>
      rw [hr]
      simpa [ha] using h
    | eingetragen r hf hs ha hp hr =>
      have hdazu := (h.cons r).trans (hr.append_right s.freigegeben).symm
      simpa [hf, ha] using hdazu
    | verloren r hf hs ha hp hr =>
      have hplatz := hok hf (by rw [ha]; exact Option.some_ne_none r)
      rw [hp] at hplatz
      cases hplatz

theorem step_not_erhalten (s : Journal) (op : Op) (h : s.Erhalten) (hnot : ¬ s.PlatzDa op) :
    ∃ s', s.step op = some s' ∧ ¬ s'.Erhalten := by
  cases op with
  | allocate layout antwort =>
    simp only [PlatzDa, Classical.not_imp] at hnot
    obtain ⟨hf, ha, hp⟩ := hnot
    refine ⟨_, rfl, fun hneu => ?_⟩
    unfold Erhalten at h hneu
    cases s.heap.allocate_bezug s.mem layout antwort with
    | ohne hf' hs hr =>
      rw [hf] at hf'
      cases hf'
    | abgelehnt hf' hs ha' hr => exact ha ha'
    | eingetragen r hf' hs ha' hp' hr => exact hp hp'
    | verloren r hf' hs ha' hp' hr =>
      have hlen := hneu.length_eq
      rw [hr, ← h.length_eq, hf, ha'] at hlen
      simp at hlen
  | deallocate addr layout | schreiben x v => exact absurd trivial hnot

/-- For every sequence of allocations and returns, whatever the source answers: after each prefix
every granted region is recorded or was released exactly once, exactly when no region is granted
while the table that would record it is full. -/
theorem run_erhalten_iff (ops : List Op) :
    (∀ xs, xs <+: ops → ∃ s, run step init xs = some s ∧ s.Erhalten) ↔
      Admissible step PlatzDa init ops :=
  forall_prefix_iff_admissible (fun _ h => h) step_erhalten step_not_erhalten init_erhalten ops

/-- The source counts a region as out from the grant to the release, and what the heap holds
is out. -/
structure Gebucht (s : Journal) : Prop where
  draussen : s.heap.regionen.Subperm s.heap.source.vergeben
  offen : s.gewaehrt.Perm (s.heap.source.vergeben ++ s.freigegeben)

theorem init_gebucht : init.Gebucht := ⟨List.nil_subperm, List.Perm.refl []⟩

theorem gebucht_freigabe {s : Journal} (h : s.Gebucht) {r : PhysRegion} {rest : List PhysRegion}
    (hr : s.heap.regionen.Perm (r :: rest)) :
    rest.Subperm (s.heap.source.vergeben.erase r) ∧
      s.gewaehrt.Perm (s.heap.source.vergeben.erase r ++ r :: s.freigegeben) := by
  have hmem : r ∈ s.heap.source.vergeben := h.draussen.subset (hr.mem_iff.mpr List.mem_cons_self)
  constructor
  · have hsub := (hr.symm.subperm.trans h.draussen).erase r
    rwa [List.erase_cons_head] at hsub
  · have hzurueck := (List.perm_cons_erase hmem).append_right s.freigegeben
    exact (h.offen.trans hzurueck).trans List.perm_middle.symm

theorem step_gebucht (s : Journal) (op : Op) (s' : Journal) (h : s.Gebucht)
    (hs' : s.step op = some s') : s'.Gebucht := by
  cases op with
  | schreiben x v =>
    cases hs'
    exact ⟨h.draussen, h.offen⟩
  | deallocate addr layout =>
    cases hs'
    obtain ⟨hsource, hperm⟩ := s.heap.deallocate_bezug s.mem addr layout
    cases hfrei : s.heap.freigabe addr layout with
    | none =>
      rw [hfrei] at hsource hperm
      refine ⟨?_, ?_⟩
      · dsimp only
        rw [hsource]
        exact hperm.symm.subperm.trans h.draussen
      · simpa [hsource, hfrei] using h.offen
    | some r =>
      rw [hfrei] at hsource hperm
      obtain ⟨hsub, hopen⟩ := gebucht_freigabe h hperm
      refine ⟨?_, ?_⟩
      · dsimp only
        rw [hsource]
        exact hsub
      · simpa [hsource, hfrei, Quelle.release] using hopen
  | allocate layout antwort =>
    cases hs'
    have hdraussen := h.draussen
    have hoffen := h.offen
    cases s.heap.allocate_bezug s.mem layout antwort with
    | ohne hf hs hr => exact ⟨by rwa [hs, hr], by simpa [hs, hf] using hoffen⟩
    | abgelehnt hf hs ha hr =>
      subst ha
      exact ⟨by rwa [hs, hr], by simpa [hs, Quelle.request] using hoffen⟩
    | eingetragen r hf hs ha hp hr =>
      subst ha
      refine ⟨?_, by simpa [hs, hf, Quelle.request] using hoffen⟩
      rw [hs]
      exact hr.subperm.trans ((List.subperm_cons r).mpr hdraussen)
    | verloren r hf hs ha hp hr =>
      subst ha
      refine ⟨?_, by simpa [hs, hf, Quelle.request] using hoffen⟩
      rw [hs, hr]
      exact hdraussen.trans (List.sublist_cons_self r _).subperm

theorem step_total (s : Journal) (op : Op) (h : s.Gebucht) (_ : True) :
    ∃ s', s.step op = some s' ∧ s'.Gebucht := by
  obtain ⟨s', hs'⟩ : ∃ s', s.step op = some s' := by cases op <;> exact ⟨_, rfl⟩
  exact ⟨s', hs', step_gebucht s op s' h hs'⟩

/-- After every run the source counts as out what the heap holds and what it lost.  Dropping the
heap gives back exactly what it holds; nothing stays out exactly if nothing was lost. -/
theorem run_drop_bilanz (ops : List Op) : ∃ s, run step init ops = some s ∧
    s.gewaehrt.Perm (s.heap.source.vergeben ++ s.freigegeben) ∧
    (s.heap.drop.2.source.vergeben ++ s.heap.regionen).Perm s.heap.source.vergeben ∧
    s.heap.drop.2.regionen = [] ∧ (s.heap.drop.2.source.vergeben = [] ↔ s.Erhalten) := by
  obtain ⟨s, hrun, hdraussen, hoffen⟩ :=
    run_total step_total init_gebucht (Admissible.of_forall (fun _ _ => trivial) _ ops)
  have hperm := Heap.release_perm hdraussen
  refine ⟨s, hrun, hoffen, hperm, s.heap.drop_regionen, ?_⟩
  constructor
  · intro hnil
    have hall : s.heap.regionen.Perm s.heap.source.vergeben := by
      have hleft : s.heap.regionen.foldl Quelle.release s.heap.source = s.heap.drop.2.source := rfl
      rwa [hleft, hnil, List.nil_append] at hperm
    exact hoffen.trans (hall.symm.append_right _)
  · intro hs
    have hall : s.heap.source.vergeben.Perm s.heap.regionen :=
      (List.perm_append_right_iff _).mp (hoffen.symm.trans hs)
    have hlen := (hperm.trans hall).length_eq
    rw [List.length_append] at hlen
    exact List.length_eq_zero_iff.mp (Nat.add_eq_right.mp hlen)

/-- Page `i` as the source might grant it. -/
def seite (i : Nat) : PhysRegion := ⟨0x100000 + 0x1000 * i, 0x1000⟩

/-- Nine blocks of a page each: the table of large blocks has eight places, and the ninth region
is neither in it nor released. -/
theorem run_ninth_large_region_lost :
    ∃ s, run step init
        ((List.range 9).map fun i =>
          .allocate ⟨4096, 4096, ⟨12, rfl⟩, by decide⟩ (some (seite i))) = some s ∧
      seite 8 ∈ s.gewaehrt ∧ seite 8 ∉ s.heap.regionen ++ s.freigegeben ∧ ¬ s.Erhalten := by
  have hlost : ∃ s, run step init
        ((List.range 9).map fun i =>
          .allocate ⟨4096, 4096, ⟨12, rfl⟩, by decide⟩ (some (seite i))) = some s ∧
      seite 8 ∈ s.gewaehrt ∧ seite 8 ∉ s.heap.regionen ++ s.freigegeben :=
    ⟨_, rfl, by decide, by decide⟩
  obtain ⟨s, hrun, hin, hout⟩ := hlost
  exact ⟨s, hrun, hin, hout, fun h => hout (h.mem_iff.mp hin)⟩

end Journal

end Caprock.Region
