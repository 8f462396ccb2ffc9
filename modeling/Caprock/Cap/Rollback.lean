import Mathlib.Data.Finset.Basic
import Caprock.Cap.Finalize

/-! # Taking derivations back

A caller that derives several capabilities and then fails deletes them again.  `Zuwachs` is a space
with some new leaves on top of another: a derivation adds one, the deletion of a new leaf takes one
away, in whatever order.  Without new leaves the space is as it was, up to the generations of free
slots and the peak counters.
-/

namespace Caprock.Cap

open Mem LinkedList Execution Function

namespace CapSpace

variable {s s' s'' : CapSpace} {kids : Nat → List Nat} {neu : Finset Nat}

/-- A free slot keeps nothing but its generation. -/
def Leer (s : CapSpace) : Prop :=
  ∀ x, ¬ s.Used x → s.daten x = { CapSlot.empty with gen := (s.daten x).gen }

theorem attached_leer (tab : Tabellen) : (attached tab).Leer := fun _ _ => rfl

theorem Leer.of_daten (h : s.Leer)
    (hdaten : ∀ x, ¬ s'.Used x → s'.daten x = s.daten x ∨
      ∃ gen, s'.daten x = { CapSlot.empty with gen := gen }) : s'.Leer := by
  intro x hx
  rcases hdaten x hx with heq | ⟨gen, heq⟩
  · rw [heq]
    apply h
    rwa [used_iff_daten, heq, ← used_iff_daten] at hx
  · rw [heq]

theorem Leer.congr (h : s.Leer) (hslots : s'.slots = s.slots) : s'.Leer :=
  h.of_daten fun x _ => .inl (by simp only [daten, hslots])

theorem Abgeleitet.leer {p c : Nat} {rights : Rights} {badge : Nat} {fenster : Option PhysRegion}
    (ha : Abgeleitet s s' p c rights badge fenster) (h : s.Leer) : s'.Leer := by
  refine h.of_daten fun x hx => .inl ?_
  have hne : x ≠ c := by
    rintro rfl
    rw [used_iff_daten, ha.daten, if_pos rfl] at hx
    exact hx rfl
  rw [ha.daten, if_neg hne]

theorem Ableitung.leer (ha : Ableitung s s') (h : s.Leer) : s'.Leer := by
  rcases ha with rfl | ⟨p, c, rights, badge, fenster, -, ha, -⟩
  · exact h
  · exact ha.leer h

theorem Eingebracht.leer {kind : ObjectKind} {rights : Rights} {o c : Nat}
    (he : Eingebracht s s' kind rights o c) (h : s.Leer) : s'.Leer := by
  refine h.of_daten fun x hx => .inl ?_
  have hne : x ≠ c := by
    rintro rfl
    rw [used_iff_daten, he.daten, if_pos rfl] at hx
    exact hx rfl
  rw [he.daten, if_neg hne]

theorem Verschoben.leer {i d : Nat} (hv : Verschoben s s' kids i d) (hi : s.Used i) (h : s.Leer) :
    s'.Leer := by
  refine h.of_daten fun x hx => ?_
  rw [hv.daten]
  by_cases hxi : x = i
  · rw [if_pos hxi]
    exact .inr ⟨_, rfl⟩
  · by_cases hxd : x = d
    · exact absurd ((hv.used_iff hi x).mpr (.inr hxd)) hx
    · rw [if_neg hxi, if_neg hxd]
      exact .inl rfl

theorem leer_deleteLeaf {a : Abbau} (h : a.caps.Leer) (c : Nat) : (a.deleteLeaf c).caps.Leer := by
  refine h.of_daten fun x _ => ?_
  rw [a.daten_deleteLeaf]
  split
  · exact .inr ⟨_, rfl⟩
  · exact .inl rfl

end CapSpace

namespace Kern

open CapSpace

theorem step_leer {k k' : Kern} {op : Op} {kids : Nat → List Nat} (hinv : k.caps.Inv kids)
    (h : k.caps.Leer) (hstep : k.step op = some k') : k'.caps.Leer := by
  refine (step_rule hinv h ?_ hstep).2
  intro s ks s' _ _ h hs
  cases hs with
  | zurueckgerollt hz => exact h.congr hz.slots
  | eingebracht he => exact he.leer h
  | abgeleitet ha => exact ha.leer h
  | verschoben hi hv => exact hv.leer hi h
  | gezaehlt hz => exact h.congr hz.slots
  | geloescht ha =>
    subst ha
    exact leer_deleteLeaf h _

end Kern

namespace CapSpace

variable {s s' s'' : CapSpace} {kids : Nat → List Nat} {neu : Finset Nat}

/-- `s'` is `s` with the leaves `neu` on top. -/
structure Zuwachs (s s' : CapSpace) (kids kids' : Nat → List Nat) (neu : Finset Nat) : Prop where
  basis : s.Inv kids
  leer : s.Leer
  inv : s'.Inv kids'
  leer' : s'.Leer
  frei : ∀ x ∈ neu, ¬ s.Used x
  used : ∀ x, s'.Used x ↔ s.Used x ∨ x ∈ neu
  kinder : ∀ x, s.Used x → (kids' x).filter (fun c => c ∉ neu) = kids x
  blatt : ∀ x ∈ neu, kids' x = []
  quelle : ∀ x ∈ neu, ∃ q, s.Used q ∧ (s'.daten x).object = (s.daten q).object
  daten : ∀ x, s.Used x → s'.daten x = s.daten x
  slotsLen : s'.slots.len = s.slots.len
  objectsLen : s'.objects.len = s.objects.len
  objects : ∀ o, { s'.objects.cell o with refcount := 0 } = { s.objects.cell o with refcount := 0 }
  unbelegt : ∀ o, (s.objects.cell o).used = false → s'.objects.cell o = s.objects.cell o

theorem Zuwachs.refl (h : s.Inv kids) (hleer : s.Leer) : Zuwachs s s kids kids ∅ where
  basis := h
  leer := hleer
  inv := h
  leer' := hleer
  frei := fun x hx => absurd hx (Finset.notMem_empty x)
  used := fun x => by simp
  kinder := fun x _ => by simp
  blatt := fun x hx => absurd hx (Finset.notMem_empty x)
  quelle := fun x hx => absurd hx (Finset.notMem_empty x)
  daten := fun _ _ => rfl
  slotsLen := rfl
  objectsLen := rfl
  objects := fun _ => rfl
  unbelegt := fun _ _ => rfl

/-- `s'` is `s` up to the generations of free slots and the peak counters. -/
structure Wiederhergestellt (s s' : CapSpace) : Prop where
  slotsLen : s'.slots.len = s.slots.len
  slots : ∀ x, s.Used x → s'.slots.cell x = s.slots.cell x
  frei : ∀ x, ¬ s.Used x →
    s'.slots.cell x = { s.slots.cell x with gen := (s'.slots.cell x).gen }
  objects : s'.objects = s.objects
  overruns : s'.cdtWalkOverruns = s.cdtWalkOverruns

theorem Wiederhergestellt.refl (s : CapSpace) : Wiederhergestellt s s :=
  ⟨rfl, fun _ _ => rfl, fun _ _ => rfl, rfl, rfl⟩

theorem Wiederhergestellt.used_iff (h : Wiederhergestellt s s') (x : Nat) :
    s'.Used x ↔ s.Used x := by
  by_cases hx : s.Used x
  · exact iff_of_true (by rw [Used, h.slots x hx]; exact hx) hx
  · refine iff_of_false (fun hx' => hx ?_) hx
    rw [Used, h.frei x hx] at hx'
    exact hx'

theorem Wiederhergestellt.lebt_iff (h : Wiederhergestellt s s') (p : CapPtr) :
    s'.Lebt p ↔ s.Lebt p := by
  rw [CapSpace.lebt_iff, CapSpace.lebt_iff, h.slotsLen, h.used_iff]
  refine and_congr_right fun _ => and_congr_right fun hused => ?_
  rw [daten, daten, h.slots _ hused]

theorem cell_eq_of_daten {x : Nat} (hdaten : s'.daten x = s.daten x) (hlinks : s'.links = s.links) :
    s'.slots.cell x = s.slots.cell x := by
  have hmdb : (s'.slots.cell x).mdb = (s.slots.cell x).mdb := by
    have hparent : s'.parent x = s.parent x := congrFun (congrArg Links.parent hlinks) x
    have hfirst : s'.firstChild x = s.firstChild x := congrFun (congrArg Links.firstChild hlinks) x
    have hnext : s'.nextSibling x = s.nextSibling x :=
      congrFun (congrArg Links.nextSibling hlinks) x
    have hprev : s'.prevSibling x = s.prevSibling x :=
      congrFun (congrArg Links.prevSibling hlinks) x
    simp only [parent, firstChild, nextSibling, prevSibling] at hparent hfirst hnext hprev
    cases hm' : (s'.slots.cell x).mdb
    cases hm : (s.slots.cell x).mdb
    rw [hm', hm] at hparent hfirst hnext hprev
    subst hparent hfirst hnext hprev
    rfl
  calc s'.slots.cell x = { s'.daten x with mdb := (s'.slots.cell x).mdb } := rfl
    _ = { s.daten x with mdb := (s.slots.cell x).mdb } := by rw [hdaten, hmdb]
    _ = s.slots.cell x := rfl

namespace Zuwachs

variable {kids' : Nat → List Nat}

theorem not_used (h : Zuwachs s s' kids kids' neu) {x : Nat} (hx : ¬ s.Used x) (hneu : x ∉ neu) :
    ¬ s'.Used x := by
  rw [h.used]
  exact not_or.mpr ⟨hx, hneu⟩

/-- Once no new leaf is left, the space is the old one. -/
theorem wiederhergestellt (h : Zuwachs s s' kids kids' ∅) : Wiederhergestellt s s' := by
  have hused : s'.Used = s.Used := by
    funext x
    simpa using h.used x
  have hkids : ∀ x, s.Used x → kids' x = kids x := by
    intro x hx
    simpa using h.kinder x hx
  have hforest := h.inv.forest
  rw [hused] at hforest
  have hlinks : s'.links = s.links :=
    h.basis.forest.links_unique (hforest.congr_kids fun x hx => (hkids x hx).symm)
  refine ⟨h.slotsLen, fun x hx => cell_eq_of_daten (h.daten x hx) hlinks, fun x hx => ?_, ?_, ?_⟩
  · have hx' : ¬ s'.Used x := h.not_used hx (Finset.notMem_empty x)
    have hmdb := h.basis.mdb_free hx
    have hmdb' := h.inv.mdb_free hx'
    have hd : s.slots.cell x = { CapSlot.empty with gen := (s.slots.cell x).gen } := by
      calc s.slots.cell x = { s.daten x with mdb := (s.slots.cell x).mdb } := rfl
        _ = { CapSlot.empty with gen := (s.slots.cell x).gen } := by rw [h.leer x hx, hmdb]; rfl
    have hd' : s'.slots.cell x = { CapSlot.empty with gen := (s'.slots.cell x).gen } := by
      calc s'.slots.cell x = { s'.daten x with mdb := (s'.slots.cell x).mdb } := rfl
        _ = { CapSlot.empty with gen := (s'.slots.cell x).gen } := by rw [h.leer' x hx', hmdb']; rfl
    rw [hd, ← hd']
  · have hnamen : ∀ o, s'.namen o = s.namen o := by
      intro o
      ext x
      rw [mem_namen, mem_namen, hused, h.slotsLen]
      refine and_congr_right fun _ => and_congr_right fun hx => ?_
      rw [h.daten x hx]
    have hcell : s'.objects.cell = s.objects.cell := by
      funext o
      cases ho : (s.objects.cell o).used with
      | false => exact h.unbelegt o ho
      | true =>
        have hsame := h.objects o
        simp only [Object.mk.injEq] at hsame
        obtain ⟨hu, hkind, -, hgen⟩ := hsame
        have hcount : (s'.objects.cell o).refcount = (s.objects.cell o).refcount := by
          rw [(h.inv.refcount o (hu.trans ho)).2.1, (h.basis.refcount o ho).2.1, hnamen]
        cases hob' : s'.objects.cell o
        cases hob : s.objects.cell o
        rw [hob', hob] at hu hkind hgen hcount
        subst hu hkind hgen hcount
        rfl
    calc s'.objects = ⟨s'.objects.len, s'.objects.cell⟩ := rfl
      _ = ⟨s.objects.len, s.objects.cell⟩ := by rw [hcell, h.objectsLen]
  · rw [h.inv.overruns, h.basis.overruns]

/-- A derivation from an old capability adds its leaf. -/
theorem ableiten (h : Zuwachs s s' kids kids' neu) {q c : Nat} {rights : Rights} {badge : Nat}
    {fenster : Option PhysRegion} (hq : s.Used q)
    (ha : Abgeleitet s' s'' q c rights badge fenster) :
    Zuwachs s s'' kids (update (update kids' c []) q (c :: kids' q))
      (insert c neu) := by
  have hfrei := ha.free
  rw [h.used] at hfrei
  push Not at hfrei
  have hqneu : q ∉ neu := fun hin => h.frei q hin hq
  have hqc : q ≠ c := fun heq => hfrei.1 (heq ▸ hq)
  have hqused : s'.Used q := (h.used q).mpr (.inl hq)
  have hobject : (s'.daten q).object = (s.daten q).object := by rw [h.daten q hq]
  -- A free slot is in no child list.
  have hfremd : ∀ x, s.Used x → c ∉ kids' x := by
    intro x hx hin
    exact ha.free (h.inv.forest.used_of_mem ((h.used x).mpr (.inl hx)) hin)
  have hfilter : ∀ x, s.Used x →
      (kids' x).filter (fun y => y ∉ insert c neu) = (kids' x).filter fun y => y ∉ neu := by
    intro x hx
    refine List.filter_congr fun y hy => ?_
    have hyc : y ≠ c := fun heq => hfremd x hx (heq ▸ hy)
    simp [hyc]
  refine ⟨h.basis, h.leer, ha.inv h.inv hqused, ha.leer h.leer', fun x hx => ?_, fun x => ?_,
    fun x hx => ?_, fun x hx => ?_, fun x hx => ?_, fun x hx => ?_, ha.slotsLen.trans h.slotsLen,
    ha.objectsLen.trans h.objectsLen, fun o => ?_, fun o ho => ?_⟩
  · rcases Finset.mem_insert.mp hx with rfl | hx
    · exact hfrei.1
    · exact h.frei x hx
  · rw [used_iff_daten, ha.daten, Finset.mem_insert]
    by_cases hxc : x = c
    · simp [hxc]
    · rw [if_neg hxc, ← used_iff_daten, h.used]
      simp [hxc]
  · by_cases hxq : x = q
    · rw [hxq, update_self, List.filter_cons]
      rw [if_neg (by simp), hfilter q hq, h.kinder q hq]
    · have hxc : x ≠ c := fun heq => hfrei.1 (heq ▸ hx)
      rw [update_of_ne hxq, update_of_ne hxc, hfilter x hx, h.kinder x hx]
  · rcases Finset.mem_insert.mp hx with rfl | hin
    · rw [update_of_ne (Ne.symm hqc), update_self]
    · have hxq : x ≠ q := fun heq => hqneu (heq ▸ hin)
      have hxc : x ≠ c := fun heq => hfrei.2 (heq ▸ hin)
      rw [update_of_ne hxq, update_of_ne hxc, h.blatt x hin]
  · rw [ha.daten]
    by_cases hxc : x = c
    · rw [if_pos hxc]
      exact ⟨q, hq, hobject⟩
    · rw [if_neg hxc]
      exact h.quelle x (Finset.mem_of_mem_insert_of_ne hx hxc)
  · have hxc : x ≠ c := fun heq => hfrei.1 (heq ▸ hx)
    rw [ha.daten, if_neg hxc, h.daten x hx]
  · rw [ha.objects, ← h.objects o]
    split <;> rfl
  · rw [ha.objects, if_neg, h.unbelegt o ho]
    rw [hobject]
    rintro rfl
    rw [h.basis.object q hq] at ho
    cases ho

theorem zweiter_name {a : Abbau} (h : Zuwachs s a.caps kids kids' neu) {x : Nat} (hx : x ∈ neu) :
    (a.deleteLeaf x).caps.Benannt (a.caps.daten x).object := by
  obtain ⟨q, hq, hobject⟩ := h.quelle x hx
  have hqx : q ≠ x := fun heq => h.frei x hx (heq ▸ hq)
  have hqused : a.caps.Used q := (h.used q).mpr (.inl hq)
  refine ⟨q, ?_⟩
  rw [namen_deleteLeaf, Finset.mem_erase, mem_namen, hobject, h.daten q hq]
  exact ⟨hqx, h.inv.bound q hqused, hqused, rfl⟩

theorem refcount_deleteLeaf_ne_zero {a : Abbau} (h : Zuwachs s a.caps kids kids' neu) {x : Nat} (hx : x ∈ neu) :
    ((a.caps.objects.cell (a.caps.daten x).object).refcount + (2 ^ 32 - 1)) % 2 ^ 32 ≠ 0 := by
  have hused : a.caps.Used x := (h.used x).mpr (.inr hx)
  exact fun hzero => (h.inv.letzte_iff hused).mp hzero (h.zweiter_name hx)

/-- Deleting a new leaf takes it away and nothing else. -/
theorem loeschen {a : Abbau} (h : Zuwachs s a.caps kids kids' neu) {x : Nat} (hx : x ∈ neu) :
    Zuwachs s (a.deleteLeaf x).caps kids (fun p => (kids' p).erase x) (neu.erase x) := by
  have hused : a.caps.Used x := (h.used x).mpr (.inr hx)
  obtain ⟨hslen, holen, -⟩ := a.deleteLeaf_tables x
  have hold : ∀ y, s.Used y → y ≠ x := fun y hy heq => h.frei x hx (heq ▸ hy)
  have hlast := h.refcount_deleteLeaf_ne_zero hx
  refine ⟨h.basis, h.leer, Abbau.deleteLeaf_inv h.inv hused (h.blatt x hx),
    leer_deleteLeaf h.leer' x, fun y hy => h.frei y (Finset.mem_of_mem_erase hy), fun y => ?_,
    fun y hy => ?_, fun y hy => ?_, fun y hy => ?_, fun y hy => ?_, hslen.trans h.slotsLen,
    holen.trans h.objectsLen, fun o => ?_, fun o ho => ?_⟩
  · rw [a.used_deleteLeaf, h.used, Finset.mem_erase]
    constructor
    · rintro ⟨hy | hy, hne⟩
      · exact .inl hy
      · exact .inr ⟨hne, hy⟩
    · rintro (hy | ⟨hne, hy⟩)
      · exact ⟨.inl hy, hold y hy⟩
      · exact ⟨.inr hy, hne⟩
  · have hyused : a.caps.Used y := (h.used y).mpr (.inl hy)
    rw [(h.inv.forest.list y hyused).nodup.erase_eq_filter, List.filter_filter, ← h.kinder y hy]
    refine List.filter_congr fun c _ => ?_
    by_cases hc : c = x
    · simp [hc, hx]
    · simp [hc]
  · rw [h.blatt y (Finset.mem_of_mem_erase hy)]
    rfl
  · rw [a.daten_deleteLeaf, if_neg (Finset.ne_of_mem_erase hy)]
    exact h.quelle y (Finset.mem_of_mem_erase hy)
  · rw [a.daten_deleteLeaf, if_neg (hold y hy), h.daten y hy]
  · rw [a.objects_deleteLeaf, ← h.objects o]
    split
    · next heq =>
      rw [Abbau.abgeben, heq, if_neg hlast]
    · rfl
  · rw [a.objects_deleteLeaf, if_neg, h.unbelegt o ho]
    rintro rfl
    obtain ⟨q, hq, hobject⟩ := h.quelle x hx
    rw [hobject, h.basis.object q hq] at ho
    cases ho

theorem alloc_loeschen {a : Abbau} (h : Zuwachs s a.caps kids kids' neu) {x : Nat} (hx : x ∈ neu) :
    (a.deleteLeaf x).alloc = a.alloc := by
  have hlast : ¬ ((a.caps.objects.cell (a.caps.slots.cell x).object).refcount + (2 ^ 32 - 1)) %
      2 ^ 32 = 0 := h.refcount_deleteLeaf_ne_zero hx
  have haussen := Abbau.aussen_deleteLeaf a x
  unfold blattWirkungen at haussen
  dsimp only at haussen
  rw [if_neg hlast, List.append_nil] at haussen
  -- At most the report of a control right is left, and it goes to the other component.
  have halloc : (a.deleteLeaf x).alloc = (Protokoll.ausfuehren ((a.caps.debugMeldung x).map
      fun w => ((a.caps.slots.cell x).object, w)) a.aussen).1 := congrArg Prod.fst haussen
  rw [halloc]
  unfold debugMeldung
  split
  · split <;> rfl
  · rfl

end Zuwachs

theorem Wiederhergestellt.freeSlotIndex (h : Wiederhergestellt s s') :
    s'.freeSlotIndex = s.freeSlotIndex := by
  have hcell : ∀ x, (s'.slots.cell x).used = (s.slots.cell x).used := by
    intro x
    exact Bool.eq_iff_iff.mpr (h.used_iff x)
  unfold CapSpace.freeSlotIndex Slab.position
  rw [h.slotsLen]
  simp only [hcell]

theorem Wiederhergestellt.trans (h : Wiederhergestellt s s') (h' : Wiederhergestellt s' s'') :
    Wiederhergestellt s s'' where
  slotsLen := h'.slotsLen.trans h.slotsLen
  slots := fun x hx => (h'.slots x ((h.used_iff x).mpr hx)).trans (h.slots x hx)
  frei := fun x hx => by rw [h'.frei x (mt (h.used_iff x).mp hx), h.frei x hx]
  objects := h'.objects.trans h.objects
  overruns := h'.overruns.trans h.overruns

theorem Wiederhergestellt.slots_eq (h : Wiederhergestellt s s')
    (hgen : ∀ x, (s'.daten x).gen = (s.daten x).gen) : s'.slots = s.slots := by
  have hcell : s'.slots.cell = s.slots.cell := by
    funext x
    by_cases hx : s.Used x
    · exact h.slots x hx
    · have hgen' : (s'.slots.cell x).gen = (s.slots.cell x).gen := hgen x
      rw [h.frei x hx, hgen']
  calc s'.slots = ⟨s'.slots.len, s'.slots.cell⟩ := rfl
    _ = ⟨s.slots.len, s.slots.cell⟩ := by rw [hcell, h.slotsLen]

end CapSpace

namespace Kern

open CapSpace

/-- `k'` is `k` after `n` releases of the free slot `x`. -/
structure Umlauf (k k' : Kern) (x n : Nat) : Prop where
  inv : ∃ kids, k'.caps.Inv kids
  leer : k'.caps.Leer
  wie : k.caps.Wiederhergestellt k'.caps
  gen : ∀ y, (k'.caps.daten y).gen =
    if y = x then ((k.caps.daten y).gen + n) % 2 ^ 32 else (k.caps.daten y).gen
  alloc : k'.alloc = k.alloc

theorem umlauf_eins {k : Kern} (hinv : ∃ kids, k.caps.Inv kids) (hleer : k.caps.Leer)
    {src : CapPtr} (hsrc : k.caps.Lebt src) {x : Nat} (hx : k.caps.freeSlotIndex = .ok x)
    (rights : Rights) (rf : Finalized) :
    ∃ k₁ k', k.step (.copy src rights) = some k₁ ∧ k₁.caps.Lebt (k.caps.ptr x) ∧
      k₁.step (.delete (k.caps.ptr x) rf) = some k' ∧ Umlauf k k' x 1 := by
  obtain ⟨kids, hinv⟩ := hinv
  obtain ⟨p, s, hcopy⟩ := (copy_ok_iff k.caps src rights).mpr ⟨hsrc, x, hx⟩
  rcases copy_ausgang hinv src rights with ⟨e, heq⟩ | ⟨p', s', heq, -, he⟩
  · rw [hcopy] at heq
    cases heq
  · obtain ⟨rfl, rfl⟩ : p = p' ∧ s = s' := by
      rw [hcopy] at heq
      cases heq
      exact ⟨rfl, rfl⟩
    obtain ⟨rights', badge, fenster, ha⟩ := he.abgeleitet
    have hslot : p.slot = x := by
      have hplatz := he.platz
      rw [hx] at hplatz
      cases hplatz
      rfl
    have hp : k.caps.ptr x = p := hslot ▸ he.eq_ptr
    have hzuwachs := (Zuwachs.refl hinv hleer).ableiten he.used ha
    have hin : p.slot ∈ insert p.slot (∅ : Finset Nat) := Finset.mem_insert_self _ _
    have hdel := Abbau.delete_of_leaf (a := ⟨s, k.alloc, rf⟩) he.lebt (he.firstChild_self hinv)
    have hweg := Zuwachs.loeschen (a := ⟨s, k.alloc, rf⟩) hzuwachs hin
    have halloc := Zuwachs.alloc_loeschen (a := ⟨s, k.alloc, rf⟩) hzuwachs hin
    rw [Finset.erase_insert (Finset.notMem_empty _)] at hweg
    refine ⟨⟨s, k.alloc⟩, ⟨(Abbau.deleteLeaf ⟨s, k.alloc, rf⟩ p.slot).caps,
      (Abbau.deleteLeaf ⟨s, k.alloc, rf⟩ p.slot).alloc⟩, ?_, hp ▸ he.lebt, ?_, ⟨_, hweg.inv⟩,
      hweg.leer', hweg.wiederhergestellt, fun y => ?_, halloc⟩
    · rw [step, hcopy]
    · rw [hp]
      simp only [step, hdel]
    · have hdaten := Abbau.daten_deleteLeaf ⟨s, k.alloc, rf⟩ p.slot y
      rw [hdaten, ha.daten, ← hslot]
      by_cases hy : y = p.slot
      · rw [if_pos hy, if_pos hy, if_pos rfl, hy]
      · rw [if_neg hy, if_neg hy]
        rw [ha.daten, if_neg hy]

theorem Umlauf.trans {k k' k'' : Kern} {x m n : Nat} (h : Umlauf k k' x m)
    (h' : Umlauf k' k'' x n) : Umlauf k k'' x (m + n) where
  inv := h'.inv
  leer := h'.leer
  wie := h.wie.trans h'.wie
  gen := by
    intro y
    rw [h'.gen, h.gen]
    split
    · omega
    · rfl
  alloc := h'.alloc.trans h.alloc

theorem umlauf {k : Kern} (hinv : ∃ kids, k.caps.Inv kids) (hleer : k.caps.Leer) {src : CapPtr}
    (hsrc : k.caps.Lebt src) {x : Nat} (hx : k.caps.freeSlotIndex = .ok x)
    (hgen : (k.caps.daten x).gen < 2 ^ 32) (rights : Rights) (rf : Finalized) (n : Nat) :
    ∃ ops k', run step k ops = some k' ∧ Umlauf k k' x n := by
  induction n with
  | zero =>
    refine ⟨[], k, rfl, hinv, hleer, .refl _, fun y => ?_, rfl⟩
    split
    · next hy => rw [hy, Nat.add_zero, Nat.mod_eq_of_lt hgen]
    · rfl
  | succ n ih =>
    obtain ⟨ops, k', hrun, hu⟩ := ih
    have hsrc' : k'.caps.Lebt src := (hu.wie.lebt_iff src).mpr hsrc
    have hx' : k'.caps.freeSlotIndex = .ok x := hu.wie.freeSlotIndex.trans hx
    obtain ⟨k₁, k'', hcopy, -, hdel, hu'⟩ := umlauf_eins hu.inv hu.leer hsrc' hx' rights rf
    refine ⟨ops ++ [.copy src rights, .delete (k'.caps.ptr x) rf], k'', ?_, hu.trans hu'⟩
    rw [run_append, hrun, Option.bind_some, run_cons_of_step hcopy, run_cons_of_step hdel, run_nil]

theorem Umlauf.voll {k k' : Kern} {x : Nat} (h : Umlauf k k' x (2 ^ 32))
    (hgen : (k.caps.daten x).gen < 2 ^ 32) :
    k'.caps.slots = k.caps.slots ∧ k'.caps.objects = k.caps.objects ∧ k'.alloc = k.alloc := by
  refine ⟨h.wie.slots_eq fun y => ?_, h.wie.objects, h.alloc⟩
  rw [h.gen]
  split
  · next hy => rw [hy, Nat.add_mod_right, Nat.mod_eq_of_lt hgen]
  · rfl

end Kern

end Caprock.Cap
