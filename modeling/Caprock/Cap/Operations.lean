import Caprock.Cap.Tree

/-! # The operations of a capability space

For every operation: what it can do to a well-formed space, as a case distinction over
its outcomes, and that the outcome is well formed again.
-/

namespace Caprock.Cap.CapSpace

open Mem LinkedList

variable {s : CapSpace} {kids : Nat → List Nat}

theorem allocSlot_cases (s : CapSpace) (object : Nat) (rights : Rights) (badge : Nat) :
    (∃ c s', s.allocSlot object rights badge = (.ok c, s') ∧ c < s.slots.len ∧ ¬ s.Used c ∧
        (∀ x, s'.daten x = if x = c then
          ⟨true, (s.daten c).gen, object, rights, badge, none, Mdb.empty⟩ else s.daten x) ∧
        ((s.slots.cell c).mdb = Mdb.empty → s'.links = s.links) ∧ SameTables s s') ∨
      s.allocSlot object rights badge = (.error .noSlot, s) ∧ ∀ i, i < s.slots.len → s.Used i := by
  unfold allocSlot
  rcases freeSlotIndex_cases s with ⟨c, hidx, hlt, hfree⟩ | ⟨hidx, hfull⟩
  · rw [hidx]
    refine .inl ⟨c, _, rfl, hlt, hfree, ?_, ?_, ⟨rfl, rfl, rfl⟩⟩
    · intro x
      unfold daten
      rw [cell_modifySlot]
      split <;> rfl
    · intro hmdb
      apply links_congr
      intro x
      rw [cell_modifySlot]
      split
      · next heq => rw [heq, hmdb]
      · rfl
  · rw [hidx]
    exact .inr ⟨rfl, hfull⟩

theorem allocObject_cases (s : CapSpace) (kind : ObjectKind) :
    (∃ o s', s.allocObject kind = (.ok o, s') ∧ o < s.objects.len ∧
        ¬ (s.objects.cell o).used = true ∧ s'.slots = s.slots ∧
        s'.objects = s.objects.modify o (fun ob => ⟨true, kind, 1, ob.gen⟩) ∧
        s'.cdtWalkOverruns = s.cdtWalkOverruns) ∨
      s.allocObject kind = (.error .noObject, s) ∧
        ∀ o, o < s.objects.len → (s.objects.cell o).used = true := by
  unfold allocObject
  cases hpos : s.objects.position fun o => !o.used with
  | some o =>
    obtain ⟨hlt, hfree⟩ := Slab.position_eq_some hpos
    exact .inl ⟨o, _, rfl, hlt, by simpa using hfree, rfl, rfl, rfl⟩
  | none =>
    refine .inr ⟨rfl, fun o ho => ?_⟩
    have hall := Slab.position_eq_none hpos o ho
    simpa using hall

/-- The roll-back of `install`: the object entry is free again but keeps its count. -/
structure Zurueckgerollt (s s' : CapSpace) (kind : ObjectKind) (o : Nat) : Prop where
  full : ∀ i, i < s.slots.len → s.Used i
  lt : o < s.objects.len
  free : ¬ (s.objects.cell o).used = true
  slots : s'.slots = s.slots
  objectsLen : s'.objects.len = s.objects.len
  objects : ∀ x, s'.objects.cell x =
    if x = o then ⟨false, kind, 1, (s.objects.cell o).gen⟩ else s.objects.cell x
  overruns : s'.cdtWalkOverruns = s.cdtWalkOverruns

/-- A new root capability `c` on the new object `o`. -/
structure Eingebracht (s s' : CapSpace) (kind : ObjectKind) (rights : Rights) (o c : Nat) : Prop where
  lt : o < s.objects.len
  freeObject : ¬ (s.objects.cell o).used = true
  slotLt : c < s.slots.len
  freeSlot : ¬ s.Used c
  daten : ∀ x, s'.daten x =
    if x = c then ⟨true, (s.daten c).gen, o, rights, 0, none, Mdb.empty⟩ else s.daten x
  links : (s.slots.cell c).mdb = Mdb.empty → s'.links = s.links
  slotsLen : s'.slots.len = s.slots.len
  objectsLen : s'.objects.len = s.objects.len
  objects : ∀ x, s'.objects.cell x =
    if x = o then ⟨true, kind, 1, (s.objects.cell o).gen⟩ else s.objects.cell x
  overruns : s'.cdtWalkOverruns = s.cdtWalkOverruns

/-- The outcomes of `install`, with its result. -/
theorem install_ausgang (s : CapSpace) (kind : ObjectKind) (rights : Rights) :
    s.install kind rights = (.error .noObject, s) ∧
        (∀ o, o < s.objects.len → (s.objects.cell o).used = true) ∨
      (∃ o s', s.install kind rights = (.error .noSlot, s') ∧ Zurueckgerollt s s' kind o) ∨
      ∃ o c s', s.install kind rights = (.ok (s'.ptr c), s') ∧ Eingebracht s s' kind rights o c := by
  unfold install
  rcases allocObject_cases s kind with ⟨o, s₁, heq, hlt, hfree, hslots, hobjects, hover⟩ | ⟨heq, hall⟩
  · rw [heq]
    dsimp only
    have hused : ∀ i, s₁.Used i ↔ s.Used i := by
      intro i
      unfold Used
      rw [hslots]
    have hdaten₁ : ∀ x, s₁.daten x = s.daten x := by
      intro x
      unfold CapSpace.daten
      rw [hslots]
    rcases allocSlot_cases s₁ o rights 0 with
      ⟨c, s₂, heq₂, hclt, hcfree, hdaten, hlinks, htab⟩ | ⟨heq₂, hfull⟩
    · rw [heq₂]
      refine .inr (.inr ⟨o, c, s₂, rfl, hlt, hfree, hslots ▸ hclt,
        fun hu => hcfree ((hused c).mpr hu), ?_, ?_, htab.len.trans (by rw [hslots]), ?_, ?_,
        htab.overruns.trans hover⟩)
      · intro x
        rw [hdaten x, hdaten₁, hdaten₁]
      · intro hmdb
        rw [hlinks (by rw [hslots]; exact hmdb)]
        exact links_congr fun x => by rw [hslots]
      · rw [htab.objects, hobjects, Slab.modify_len]
      · intro x
        rw [htab.objects, hobjects, Slab.modify_cell]
    · rw [heq₂]
      refine .inr (.inl ⟨o, _, rfl, fun i hi => (hused i).mp (hfull i (hslots.symm ▸ hi)), hlt, hfree,
        hslots, ?_, ?_, hover⟩)
      · rw [objects_modifyObject, Slab.modify_len, hobjects, Slab.modify_len]
      · intro x
        rw [objects_modifyObject, Slab.modify_cell, hobjects, Slab.modify_cell_self]
        by_cases hxo : x = o
        · rw [if_pos hxo, if_pos hxo]
        · rw [if_neg hxo, if_neg hxo, Slab.modify_cell_of_ne _ hxo]
  · rw [heq]
    exact .inl ⟨rfl, hall⟩

theorem install_cases (s : CapSpace) (kind : ObjectKind) (rights : Rights) :
    (s.install kind rights).2 = s ∧ (∀ o, o < s.objects.len → (s.objects.cell o).used = true) ∨
      (∃ o, Zurueckgerollt s (s.install kind rights).2 kind o) ∨
      ∃ o c, Eingebracht s (s.install kind rights).2 kind rights o c := by
  rcases install_ausgang s kind rights with ⟨heq, hall⟩ | ⟨o, s', heq, hz⟩ | ⟨o, c, s', heq, he⟩
  · rw [heq]
    exact .inl ⟨rfl, hall⟩
  · rw [heq]
    exact .inr (.inl ⟨o, hz⟩)
  · rw [heq]
    exact .inr (.inr ⟨o, c, he⟩)

theorem Zurueckgerollt.inv {s' : CapSpace} {kind : ObjectKind} {o : Nat}
    (hz : Zurueckgerollt s s' kind o) (h : Inv s kids) : Inv s' kids := by
  refine h.congr hz.slots (fun x => ?_) hz.objectsLen hz.overruns
  rw [hz.objects x]
  by_cases hxo : x = o
  · rw [if_pos hxo, hxo]
    exact .inr ⟨hz.free, by simp⟩
  · rw [if_neg hxo]
    exact .inl rfl

theorem Eingebracht.inv {s' : CapSpace} {kind : ObjectKind} {rights : Rights} {o c : Nat}
    (he : Eingebracht s s' kind rights o c) (h : Inv s kids) :
    Inv s' (Function.update kids c []) := by
  have hc : s'.daten c = ⟨true, (s.daten c).gen, o, rights, 0, none, Mdb.empty⟩ := by
    rw [he.daten, if_pos rfl]
  have hobj : (s'.daten c).object = o := by rw [hc]
  refine h.add_root he.freeSlot he.slotLt (he.links (h.mdb_free he.freeSlot)) ?_ ?_ he.slotsLen
    he.objectsLen ?_ ?_ ?_ ?_ he.overruns
  · intro x hx
    rw [he.daten, if_neg hx]
  · rw [used_iff_daten, hc]
  · intro x hx
    rw [hobj] at hx
    rw [he.objects, if_neg hx]
  · rw [hobj]
    exact he.freeObject
  · rw [hobj]
    exact he.lt
  · rw [hobj, he.objects, if_pos rfl]
    exact ⟨rfl, rfl⟩

theorem resolve_cases (s : CapSpace) (p : CapPtr) :
    (∃ i, s.resolve p = .ok i ∧ i < s.slots.len ∧ s.Used i ∧ p = s.ptr i) ∨
      s.resolve p = .error .invalid := by
  unfold resolve
  split
  · next hand =>
    obtain ⟨hlt, hused, hgen⟩ := hand
    refine .inl ⟨p.slot, rfl, hlt, hused, ?_⟩
    unfold ptr
    rw [hgen]
  · exact .inr rfl

/-- A new first child `c` of `p` with the given content. -/
structure Abgeleitet (s s' : CapSpace) (p c : Nat) (rights : Rights) (badge : Nat)
    (fenster : Option PhysRegion) : Prop where
  lt : c < s.slots.len
  free : ¬ s.Used c
  daten : ∀ x, s'.daten x =
    if x = c then ⟨true, (s.daten c).gen, (s.daten p).object, rights, badge, fenster, Mdb.empty⟩
    else s.daten x
  parent : ∀ x, s'.parent x = if x = c then some p else s.parent x
  firstChild : ∀ x, s'.firstChild x = if x = p then some c else s.firstChild x
  nextSibling : ∀ x, s'.nextSibling x = if x = c then s.firstChild p else s.nextSibling x
  prevSibling : ∀ x, s'.prevSibling x =
    if x = c then none else if s.firstChild p = some x then some c else s.prevSibling x
  slotsLen : s'.slots.len = s.slots.len
  objectsLen : s'.objects.len = s.objects.len
  objects : ∀ o, s'.objects.cell o = if o = (s.daten p).object then
    { s.objects.cell o with refcount := ((s.objects.cell o).refcount + 1) % 2 ^ 32 }
    else s.objects.cell o
  overruns : s'.cdtWalkOverruns = s.cdtWalkOverruns

theorem ableiten_cases (h : Inv s kids) {p : Nat} (hp : s.Used p) (rights : Rights)
    (fenster : Option PhysRegion) :
    s.ableiten p rights fenster = (.error .noSlot, s) ∨
      ∃ c s', s.ableiten p rights fenster = (.ok (s'.ptr c), s') ∧
        Abgeleitet s s' p c ((s.daten p).rights.intersect rights) (s.daten p).badge fenster := by
  unfold ableiten
  dsimp only
  rcases allocSlot_cases s (s.slots.cell p).object ((s.slots.cell p).rights.intersect rights)
    (s.slots.cell p).badge with ⟨c, s₁, heq, hlt, hfree, hdaten, hlinks, htab⟩ | ⟨heq, -⟩
  · rw [heq]
    set s₂ := (s₁.modifySlot c fun e => { e with subregion := fenster }).modifyObject
      (s.slots.cell p).object fun o => { o with refcount := (o.refcount + 1) % 2 ^ 32 } with hs₂
    have hlinks₂ : s₂.links = s.links := by
      rw [← hlinks (h.mdb_free hfree)]
      apply links_congr
      intro x
      rw [hs₂]
      unfold modifyObject
      rw [cell_modifySlot]
      split
      · next heq => rw [heq]
      · rfl
    have hdaten₂ : ∀ x, s₂.daten x = if x = c then ⟨true, (s.daten c).gen, (s.daten p).object,
        (s.daten p).rights.intersect rights, (s.daten p).badge, fenster, Mdb.empty⟩
        else s.daten x := by
      intro x
      have hmod : s₂.daten x = if x = c then { s₁.daten c with subregion := fenster }
          else s₁.daten x := by
        rw [hs₂]
        unfold CapSpace.daten modifyObject
        rw [cell_modifySlot]
        split <;> rfl
      rw [hmod, hdaten c, hdaten x, if_pos rfl]
      split <;> rfl
    have hfirst : s₂.firstChild p ≠ some c := by
      intro hcontra
      have hread : s.firstChild p = s₂.firstChild p :=
        (congrFun (congrArg Links.firstChild hlinks₂) p).symm
      have hhead := (h.forest.first p hp).symm.trans (hread.trans hcontra)
      exact hfree (h.forest.used_of_mem hp (List.mem_of_head? hhead))
    have hobj : s₂.objects = s.objects.modify (s.daten p).object
        fun o => { o with refcount := (o.refcount + 1) % 2 ^ 32 } := by
      rw [← htab.objects]
      rfl
    have hlink := s₂.sameTables_linkChild p c
    refine .inr ⟨c, _, rfl, hlt, hfree, ?_, ?_, ?_, ?_, ?_, ?_, ?_, ?_, ?_⟩
    · intro x
      rw [daten_linkChild, hdaten₂]
    · intro x
      rw [parent_linkChild]
      exact congrArg (fun v => if x = c then some p else v)
        (congrFun (congrArg Links.parent hlinks₂) x)
    · intro x
      rw [firstChild_linkChild]
      exact congrArg (fun v => if x = p then some c else v)
        (congrFun (congrArg Links.firstChild hlinks₂) x)
    · intro x
      rw [nextSibling_linkChild]
      exact congrArg₂ (fun u v => if x = c then u else v)
        (congrFun (congrArg Links.firstChild hlinks₂) p)
        (congrFun (congrArg Links.nextSibling hlinks₂) x)
    · intro x
      rw [prevSibling_linkChild _ _ _ _ hfirst]
      exact congrArg₂ (fun u v => if x = c then none else if u = some x then some c else v)
        (congrFun (congrArg Links.firstChild hlinks₂) p)
        (congrFun (congrArg Links.prevSibling hlinks₂) x)
    · rw [hlink.len]
      exact htab.len
    · rw [hlink.objects, hobj, Slab.modify_len]
    · intro o
      rw [hlink.objects, hobj, Slab.modify_cell]
      split
      · next heq => rw [heq]
      · rfl
    · rw [hlink.overruns]
      exact htab.overruns
  · rw [heq]
    exact .inl rfl

theorem Abgeleitet.inv {s' : CapSpace} {p c : Nat} {rights : Rights} {badge : Nat}
    {fenster : Option PhysRegion} (ha : Abgeleitet s s' p c rights badge fenster)
    (h : Inv s kids) (hp : s.Used p) :
    Inv s' (Function.update (Function.update kids c []) p (c :: kids p)) := by
  have hc : s'.daten c =
      ⟨true, (s.daten c).gen, (s.daten p).object, rights, badge, fenster, Mdb.empty⟩ := by
    rw [ha.daten, if_pos rfl]
  have hdaten : ∀ x, x ≠ c → s'.daten x = s.daten x := by
    intro x hx
    rw [ha.daten, if_neg hx]
  have hc' : s'.Used c := by rw [used_iff_daten, hc]
  have hused : ∀ x, s'.Used x ↔ s.Used x ∨ x = c := by
    intro x
    by_cases hxc : x = c
    · simp [hxc, hc']
    · rw [used_iff_daten, hdaten x hxc, used_iff_daten]
      simp [hxc]
  refine h.add_child hp ha.free ha.lt hdaten hc' (by rw [hc]) ?_ ha.parent ha.slotsLen ha.objectsLen
    ha.objects ha.overruns
  exact h.forest.add_child hp ha.free hused ha.parent ha.firstChild ha.nextSibling ha.prevSibling

theorem teilfensterRechnen_inside {whole v : PhysRegion} {offset len : Nat}
    (h : teilfensterRechnen whole offset len = .ok v) : v.Inside whole := by
  unfold teilfensterRechnen at h
  split at h
  · cases h
  · cases hbase : Word.checkedAdd whole.base offset with
    | none =>
      rw [hbase] at h
      cases h
    | some base =>
      rw [hbase] at h
      dsimp only at h
      split at h
      · next ende wholeEnde hende hwhole =>
        split at h
        · cases h
        · next hle =>
          obtain rfl := Except.ok.inj h
          obtain ⟨-, rfl⟩ := Word.checkedAdd_eq_some.mp hbase
          obtain ⟨-, rfl⟩ := Word.checkedAdd_eq_some.mp hende
          obtain ⟨-, rfl⟩ := Word.checkedAdd_eq_some.mp hwhole
          exact ⟨Nat.le_add_right _ _, Nat.le_of_not_lt hle⟩
      · cases h

/-- The new content allows no more than slot `p` does. -/
structure Verengt (s : CapSpace) (p : Nat) (rights : Rights) (fenster : Option PhysRegion) : Prop where
  rights : (s.daten p).rights.contains rights = true
  fenster : fenster = (s.daten p).subregion ∨
    ∃ v w, s.wirksam p = some w ∧ fenster = some v ∧ v.Inside w

/-- The outcomes of `copy`, `mint` and `subregion`. -/
def Ableitung (s s' : CapSpace) : Prop :=
  s' = s ∨ ∃ p c rights badge fenster, s.Used p ∧ Abgeleitet s s' p c rights badge fenster ∧
    Verengt s p rights fenster

theorem copy_cases (h : Inv s kids) (src : CapPtr) (rights : Rights) :
    (s.copy src rights).2 = s ∧ (∃ e, (s.copy src rights).1 = .error e) ∨
      ∃ p c s', s.Used p ∧ s.copy src rights = (.ok (s'.ptr c), s') ∧
        Abgeleitet s s' p c ((s.daten p).rights.intersect rights) (s.daten p).badge
          (s.daten p).subregion := by
  unfold copy
  rcases resolve_cases s src with ⟨p, hres, -, hp, -⟩ | hres
  · rw [hres]
    rcases ableiten_cases h hp rights (s.slots.cell p).subregion with heq | ⟨c, s', heq, ha⟩
    · dsimp only
      rw [heq]
      exact .inl ⟨rfl, _, rfl⟩
    · dsimp only
      rw [heq]
      exact .inr ⟨p, c, s', hp, rfl, ha⟩
  · rw [hres]
    exact .inl ⟨rfl, _, rfl⟩

theorem copy_ableitung (h : Inv s kids) (src : CapPtr) (rights : Rights) :
    Ableitung s (s.copy src rights).2 := by
  rcases copy_cases h src rights with ⟨heq, -⟩ | ⟨p, c, s', hp, heq, ha⟩
  · exact .inl heq
  · rw [heq]
    exact .inr ⟨p, c, _, _, _, hp, ha, Rights.contains_intersect_left _ _, .inl rfl⟩

theorem Abgeleitet.setBadge {s' : CapSpace} {p c : Nat} {rights : Rights} {badge : Nat}
    {fenster : Option PhysRegion} (ha : Abgeleitet s s' p c rights badge fenster) (badge' : Nat) :
    Abgeleitet s (s'.modifySlot c fun e => { e with badge := badge' }) p c rights badge' fenster := by
  have hlinks : (s'.modifySlot c fun e => { e with badge := badge' }).links = s'.links := by
    apply links_congr
    intro x
    rw [cell_modifySlot]
    split
    · next heq => rw [heq]
    · rfl
  have hdaten : ∀ x, (s'.modifySlot c fun e => { e with badge := badge' }).daten x =
      if x = c then { s'.daten c with badge := badge' } else s'.daten x := by
    intro x
    unfold CapSpace.daten
    rw [cell_modifySlot]
    split <;> rfl
  refine ⟨ha.lt, ha.free, ?_, ?_, ?_, ?_, ?_, ha.slotsLen, ha.objectsLen, ha.objects, ha.overruns⟩
  · intro x
    rw [hdaten, ha.daten c, ha.daten x, if_pos rfl]
    split <;> rfl
  · exact fun x => (congrFun (congrArg Links.parent hlinks) x).trans (ha.parent x)
  · exact fun x => (congrFun (congrArg Links.firstChild hlinks) x).trans (ha.firstChild x)
  · exact fun x => (congrFun (congrArg Links.nextSibling hlinks) x).trans (ha.nextSibling x)
  · exact fun x => (congrFun (congrArg Links.prevSibling hlinks) x).trans (ha.prevSibling x)

theorem mint_ableitung (h : Inv s kids) (src : CapPtr) (rights : Rights) (badge : Nat) :
    Ableitung s (s.mint src rights badge).2 := by
  unfold mint
  rcases copy_cases h src rights with ⟨heq, e, herr⟩ | ⟨p, c, s', hp, heq, ha⟩
  · have hpair : s.copy src rights = (.error e, s) := Prod.ext herr heq
    rw [hpair]
    exact .inl rfl
  · rw [heq]
    exact .inr ⟨p, c, _, _, _, hp, ha.setBadge badge, Rights.contains_intersect_left _ _, .inl rfl⟩

theorem subregion_ableitung (h : Inv s kids) (src : CapPtr) (offset len : Nat) (rights : Rights) :
    Ableitung s (s.subregion src offset len rights).2 := by
  unfold CapSpace.subregion
  rcases resolve_cases s src with ⟨p, hres, -, hp, -⟩ | hres
  · rw [hres]
    dsimp only
    cases hw : s.wirksam p with
    | none => exact .inl rfl
    | some w =>
      dsimp only
      cases hv : teilfensterRechnen w offset len with
      | error e => exact .inl rfl
      | ok v =>
        dsimp only
        rcases ableiten_cases h hp rights (some v) with heq | ⟨c, s', heq, ha⟩
        · rw [heq]
          exact .inl rfl
        · rw [heq]
          exact .inr ⟨p, c, _, _, _, hp, ha, Rights.contains_intersect_left _ _,
            .inr ⟨v, w, hw, rfl, teilfensterRechnen_inside hv⟩⟩
  · rw [hres]
    exact .inl rfl

theorem Ableitung.inv {s' : CapSpace} (ha : Ableitung s s') (h : Inv s kids) :
    ∃ kids', Inv s' kids' := by
  rcases ha with rfl | ⟨p, c, _, _, _, hp, ha, -⟩
  · exact ⟨kids, h⟩
  · exact ⟨_, ha.inv h hp⟩

theorem umhaengen_spec (dst : Nat) (l : List Nat) (n steps : Nat) (s : CapSpace) (p : Option Nat)
    (hseg : Seg s.nextSibling s.prevSibling p l none) (hn : l.length ≤ n) :
    (umhaengen dst n steps l.head? s).1 = steps + l.length ∧
      (∀ x, (umhaengen dst n steps l.head? s).2.parent x =
        if x ∈ l then some dst else s.parent x) ∧
      (∀ x, (umhaengen dst n steps l.head? s).2.firstChild x = s.firstChild x) ∧
      (∀ x, (umhaengen dst n steps l.head? s).2.nextSibling x = s.nextSibling x) ∧
      (∀ x, (umhaengen dst n steps l.head? s).2.prevSibling x = s.prevSibling x) ∧
      (∀ x, (umhaengen dst n steps l.head? s).2.daten x = s.daten x) ∧
      SameTables s (umhaengen dst n steps l.head? s).2 := by
  induction l generalizing n steps s p with
  | nil =>
    rw [List.head?_nil, umhaengen]
    exact ⟨rfl, by simp, fun _ => rfl, fun _ => rfl, fun _ => rfl, fun _ => rfl, ⟨rfl, rfl, rfl⟩⟩
  | cons c l ih =>
    obtain ⟨-, hnext, hl⟩ := hseg
    obtain ⟨n, rfl⟩ : ∃ m, n = m + 1 := ⟨n - 1, by simp at hn; omega⟩
    rw [List.length_cons] at hn
    have hnext' : (s.setParent c (some dst)).nextSibling c = l.head? := by
      rw [nextSibling_setParent, hnext]
      simp
    have hseg' : Seg (s.setParent c (some dst)).nextSibling
        (s.setParent c (some dst)).prevSibling (some c) l none :=
      hl.congr (fun x _ => nextSibling_setParent s c x _) (fun x _ => prevSibling_setParent s c x _)
    obtain ⟨h₁, h₂, h₃, h₄, h₅, h₆, h₇⟩ :=
      ih n (steps + 1) (s.setParent c (some dst)) (some c) hseg' (by omega)
    rw [List.head?_cons, umhaengen, hnext']
    refine ⟨by rw [h₁, List.length_cons]; omega, ?_, ?_, ?_, ?_, ?_, ?_⟩
    · intro x
      rw [h₂, parent_setParent]
      by_cases hxl : x ∈ l
      · simp [hxl]
      · by_cases hxc : x = c
        · simp [hxc]
        · simp [hxl, hxc]
    · intro x
      rw [h₃, firstChild_setParent]
    · intro x
      rw [h₄, nextSibling_setParent]
    · intro x
      rw [h₅, prevSibling_setParent]
    · intro x
      rw [h₆, daten_setParent]
    · exact (sameTables_modifySlot s c _).trans h₇

/-- The capability of slot `i` stands in slot `d`, with its place in the tree. -/
structure Verschoben (s s' : CapSpace) (kids : Nat → List Nat) (i d : Nat) : Prop where
  lt : d < s.slots.len
  free : ¬ s.Used d
  daten : ∀ x, s'.daten x =
    if x = i then { CapSlot.empty with gen := ((s.daten i).gen + 1) % 2 ^ 32 }
    else if x = d then { s.daten i with gen := (s.daten d).gen } else s.daten x
  parent : ∀ x, s'.parent x =
    if x = i then none
    else if x = d then s.parent i else if x ∈ kids i then some d else s.parent x
  firstChild : ∀ x, s'.firstChild x =
    if x = i then none
    else if x = d then s.firstChild i
    else if s.prevSibling i = none ∧ s.parent i = some x then some d else s.firstChild x
  nextSibling : ∀ x, s'.nextSibling x =
    if x = i then none
    else if x = d then s.nextSibling i
    else if s.prevSibling i = some x then some d else s.nextSibling x
  prevSibling : ∀ x, s'.prevSibling x =
    if x = i then none
    else if x = d then s.prevSibling i
    else if s.nextSibling i = some x then some d else s.prevSibling x
  tables : SameTables s s'

theorem Inv.abseits (h : Inv s kids) {i d : Nat} (hi : s.Used i) (hd : ¬ s.Used d) :
    d ∉ kids i ∧ s.prevSibling i ≠ some d ∧ s.nextSibling i ≠ some d ∧ s.parent i ≠ some d := by
  refine ⟨fun hin => hd (h.forest.used_of_mem hi hin), ?_, ?_, ?_⟩
  · intro hpr
    obtain ⟨q, hq, -, hdq, -⟩ := h.forest.mem_of_prev hi hpr
    exact hd (h.forest.used_of_mem hq hdq)
  · intro hnx
    obtain ⟨q, hq, -, hdq, -⟩ := h.forest.mem_of_next hi hnx
    exact hd (h.forest.used_of_mem hq hdq)
  · exact fun hpar => hd (h.forest.parent_used i d ⟨hi, hpar⟩)

theorem mdb_kopie (s : CapSpace) (i d x : Nat) :
    (((s.modifySlot d fun c => { s.slots.cell i with gen := c.gen }).slots.cell x).mdb) =
      (s.slots.cell (if x = d then i else x)).mdb := by
  rw [cell_modifySlot]
  split <;> rfl

theorem daten_kopie (s : CapSpace) (i d x : Nat) :
    (s.modifySlot d fun c => { s.slots.cell i with gen := c.gen }).daten x =
      if x = d then { s.daten i with gen := (s.daten d).gen } else s.daten x := by
  unfold CapSpace.daten
  rw [cell_modifySlot]
  split <;> rfl

theorem read_noteWalk_releaseSlot {β : Type} (f : Mdb → β) (s : CapSpace) (steps i x : Nat) :
    f (((s.noteWalk steps).releaseSlot i).slots.cell x).mdb =
      if x = i then f Mdb.empty else f (s.slots.cell x).mdb := by
  rw [mdb_releaseSlot, (nurZaehler_noteWalk s steps).slots, apply_ite f]

theorem verschoben_of_copy (h : Inv s kids) {i d : Nat} (hi : s.Used i) (hd : ¬ s.Used d)
    (hlt : d < s.slots.len) {s₁ s₃ : CapSpace}
    (hs₁ : s₁ = s.modifySlot d fun c => { s.slots.cell i with gen := c.gen })
    (hs₃ : s₃ = (umhaengen d s.slots.len 0 (s.firstChild i)
      (s₁.nachbarnUmbiegen i (some d) (some d))).2) (steps : Nat) :
    Verschoben s ((s₃.noteWalk steps).releaseSlot i) kids i d := by
  have hid : i ≠ d := fun heq => hd (heq ▸ hi)
  obtain ⟨hkidd, hprevd, hnextd, hpard⟩ := h.abseits hi hd
  -- Slot `d` is a copy of slot `i`.
  have hmdb₁ : ∀ x, (s₁.slots.cell x).mdb = (s.slots.cell (if x = d then i else x)).mdb :=
    fun x => hs₁ ▸ mdb_kopie s i d x
  have hparent₁ : ∀ x, s₁.parent x = s.parent (if x = d then i else x) :=
    fun x => congrArg Mdb.parent (hmdb₁ x)
  have hfirst₁ : ∀ x, s₁.firstChild x = s.firstChild (if x = d then i else x) :=
    fun x => congrArg Mdb.firstChild (hmdb₁ x)
  have hnext₁ : ∀ x, s₁.nextSibling x = s.nextSibling (if x = d then i else x) :=
    fun x => congrArg Mdb.nextSibling (hmdb₁ x)
  have hprev₁ : ∀ x, s₁.prevSibling x = s.prevSibling (if x = d then i else x) :=
    fun x => congrArg Mdb.prevSibling (hmdb₁ x)
  set s₂ := s₁.nachbarnUmbiegen i (some d) (some d) with hs₂
  have hnext₂ : ∀ x, s₂.nextSibling x =
      if s.prevSibling i = some x then some d else s.nextSibling (if x = d then i else x) := by
    intro x
    rw [hs₂, nextSibling_nachbarnUmbiegen, hprev₁, if_neg hid, hnext₁]
  have hprev₂ : ∀ x, s₂.prevSibling x =
      if s.nextSibling i = some x then some d else s.prevSibling (if x = d then i else x) := by
    intro x
    rw [hs₂, prevSibling_nachbarnUmbiegen, hnext₁, if_neg hid, hprev₁]
  -- The neighbours of `i` are neither its children nor the free slot.
  have hkids : ∀ x ∈ kids i, x ≠ d ∧ s.prevSibling i ≠ some x ∧ s.nextSibling i ≠ some x :=
    fun x hx => ⟨fun heq => hkidd (heq ▸ hx), h.forest.not_sibling_of_mem_kids hi hx⟩
  have hseg : Seg s₂.nextSibling s₂.prevSibling none (kids i) none := by
    refine (h.forest.list i hi).seg.congr (fun x hx => ?_) (fun x hx => ?_)
    · obtain ⟨hxd, hpr, -⟩ := hkids x hx
      rw [hnext₂, if_neg hpr, if_neg hxd]
      rfl
    · obtain ⟨hxd, -, hnx⟩ := hkids x hx
      rw [hprev₂, if_neg hnx, if_neg hxd]
      rfl
  have hlen : (kids i).length ≤ s.slots.len := by
    have hle := h.forest.length_kids_le (Finset.range s.slots.len)
      (fun x hx => Finset.mem_range.mpr (h.bound x hx)) hi
    rwa [Finset.card_range] at hle
  obtain ⟨-, hpar₃, hfirst₃, hnext₃, hprev₃, hdaten₃, htab₃⟩ :=
    umhaengen_spec d (kids i) s.slots.len 0 s₂ none hseg hlen
  have hhead : s.firstChild i = (kids i).head? := h.forest.first i hi
  rw [← hhead, ← hs₃] at hpar₃ hfirst₃ hnext₃ hprev₃ hdaten₃ htab₃
  -- In each link the cases are: the released slot, the copy, the others.
  refine ⟨hlt, hd, ?_, ?_, ?_, ?_, ?_, ?_⟩
  · intro x
    have hdaten : ∀ x, (s₃.noteWalk steps).daten x =
        if x = d then { s.daten i with gen := (s.daten d).gen } else s.daten x := by
      intro x
      rw [(nurZaehler_noteWalk s₃ steps).daten, hdaten₃, hs₂, daten_nachbarnUmbiegen, hs₁,
        daten_kopie]
    rw [daten_releaseSlot, hdaten, hdaten, if_neg hid]
  · intro x
    refine (read_noteWalk_releaseSlot Mdb.parent s₃ steps i x).trans (if_congr Iff.rfl rfl ?_)
    have hx := hpar₃ x
    rw [hs₂, parent_nachbarnUmbiegen, hparent₁] at hx
    refine hx.trans ?_
    by_cases hxd : x = d
    · rw [hxd, if_neg hkidd, if_pos rfl, if_pos rfl]
    · rw [if_neg hxd, if_neg hxd]
  · intro x
    refine (read_noteWalk_releaseSlot Mdb.firstChild s₃ steps i x).trans (if_congr Iff.rfl rfl ?_)
    have hx := hfirst₃ x
    rw [hs₂, firstChild_nachbarnUmbiegen, hprev₁, hparent₁, hfirst₁, if_neg hid] at hx
    refine hx.trans ?_
    by_cases hxd : x = d
    · rw [hxd, if_neg fun hand => hpard hand.2, if_pos rfl, if_pos rfl]
    · rw [if_neg hxd, if_neg hxd]
  · intro x
    refine (read_noteWalk_releaseSlot Mdb.nextSibling s₃ steps i x).trans (if_congr Iff.rfl rfl ?_)
    refine ((hnext₃ x).trans (hnext₂ x)).trans ?_
    by_cases hxd : x = d
    · rw [hxd, if_neg hprevd, if_pos rfl, if_pos rfl]
    · rw [if_neg hxd, if_neg hxd]
  · intro x
    refine (read_noteWalk_releaseSlot Mdb.prevSibling s₃ steps i x).trans (if_congr Iff.rfl rfl ?_)
    refine ((hprev₃ x).trans (hprev₂ x)).trans ?_
    by_cases hxd : x = d
    · rw [hxd, if_neg hnextd, if_pos rfl, if_pos rfl]
    · rw [if_neg hxd, if_neg hxd]
  · have htab₁ : SameTables s s₁ := hs₁ ▸ sameTables_modifySlot s d _
    exact (((htab₁.trans (s₁.sameTables_nachbarnUmbiegen i _ _)).trans htab₃).trans
      (nurZaehler_noteWalk s₃ steps).sameTables).trans (sameTables_releaseSlot _ i)

/-- The outcomes of `moveCap`, with the handle it returns. -/
theorem moveCap_ausgang (h : Inv s kids) (src : CapPtr) :
    (∃ e, s.moveCap src = (.error e, s)) ∨
      ∃ d s', s.moveCap src = (.ok (s'.ptr d), s') ∧ s.Used src.slot ∧
        Verschoben s s' kids src.slot d := by
  unfold moveCap
  rcases resolve_cases s src with ⟨i, hres, -, hi, hsrc⟩ | hres
  · obtain rfl : src.slot = i := by rw [hsrc, ptr]
    rw [hres]
    rcases freeSlotIndex_cases s with ⟨d, hidx, hlt, hd⟩ | ⟨hidx, -⟩
    · rw [hidx]
      dsimp only
      have hlimit : ((s.modifySlot d fun c => { s.slots.cell src.slot with gen := c.gen }
          ).nachbarnUmbiegen src.slot (some d) (some d)).cdtStepLimit = s.slots.len := by
        unfold cdtStepLimit
        rw [(sameTables_nachbarnUmbiegen _ src.slot _ _).len]
        rfl
      rw [hlimit]
      exact .inr ⟨d, _, rfl, hi, verschoben_of_copy h hi hd hlt rfl rfl _⟩
    · rw [hidx]
      exact .inl ⟨_, rfl⟩
  · rw [hres]
    exact .inl ⟨_, rfl⟩

theorem moveCap_cases (h : Inv s kids) (src : CapPtr) :
    (s.moveCap src).2 = s ∨ ∃ i d, s.Used i ∧ Verschoben s (s.moveCap src).2 kids i d := by
  rcases moveCap_ausgang h src with ⟨e, heq⟩ | ⟨d, s', heq, hi, hv⟩
  · rw [heq]
    exact .inl rfl
  · rw [heq]
    exact .inr ⟨src.slot, d, hi, hv⟩

namespace Verschoben

variable {s' : CapSpace} {i d : Nat} (hv : Verschoben s s' kids i d)

include hv

theorem ne_free {x : Nat} (hx : s.Used x) : x ≠ d := by
  rintro rfl
  exact hv.free hx

theorem daten_free (hi : s.Used i) : s'.daten d = { s.daten i with gen := (s.daten d).gen } := by
  rw [hv.daten, if_neg (hv.ne_free hi).symm, if_pos rfl]

theorem daten_of_ne {x : Nat} (hxi : x ≠ i) (hxd : x ≠ d) : s'.daten x = s.daten x := by
  rw [hv.daten, if_neg hxi, if_neg hxd]

theorem used_iff (hi : s.Used i) (x : Nat) : s'.Used x ↔ (s.Used x ∧ x ≠ i) ∨ x = d := by
  rw [used_iff_daten]
  by_cases hxi : x = i
  · rw [hv.daten, if_pos hxi, hxi]
    simp [CapSlot.empty, hv.ne_free hi]
  · by_cases hxd : x = d
    · rw [hxd, hv.daten_free hi]
      exact ⟨fun _ => .inr rfl, fun _ => hi⟩
    · rw [hv.daten_of_ne hxi hxd, used_iff_daten]
      simp [hxi, hxd]

theorem moved (hi : s.Used i) : Forest.Moved s.Used s'.Used s.links s'.links kids i d where
  from_used := hi
  fresh := hv.free
  used_iff := hv.used_iff hi
  parent := hv.parent
  firstChild := hv.firstChild
  nextSibling := hv.nextSibling
  prevSibling := hv.prevSibling

theorem mem_namen_iff (hi : s.Used i) (o x : Nat) :
    x ∈ s'.namen o ↔ (x = d ∧ (s.daten i).object = o) ∨ (x ∈ s.namen o ∧ x ≠ i) := by
  rw [mem_namen, mem_namen, hv.tables.len, hv.used_iff hi]
  by_cases hxd : x = d
  · subst hxd
    rw [hv.daten_free hi]
    simp [hv.lt, hv.free]
  · by_cases hxi : x = i
    · simp [hxi, hv.ne_free hi]
    · rw [hv.daten_of_ne hxi hxd]
      simp [hxd, hxi]

theorem card_namen (h : Inv s kids) (hi : s.Used i) (o : Nat) :
    (s'.namen o).card = (s.namen o).card := by
  by_cases ho : (s.daten i).object = o
  · have hin : i ∈ s.namen o := mem_namen.mpr ⟨h.bound i hi, hi, ho⟩
    have heq : s'.namen o = insert d ((s.namen o).erase i) := by
      ext x
      rw [hv.mem_namen_iff hi, Finset.mem_insert, Finset.mem_erase]
      simp [ho, and_comm]
    have hnot : d ∉ (s.namen o).erase i :=
      fun hdin => not_mem_namen_of_free hv.free (Finset.mem_of_mem_erase hdin)
    rw [heq, Finset.card_insert_of_notMem hnot, Finset.card_erase_of_mem hin]
    have hpos := Finset.card_pos.mpr ⟨i, hin⟩
    omega
  · have heq : s'.namen o = s.namen o := by
      ext x
      rw [hv.mem_namen_iff hi]
      constructor
      · rintro (⟨-, hcontra⟩ | ⟨hx, -⟩)
        · exact absurd hcontra ho
        · exact hx
      · intro hx
        refine .inr ⟨hx, ?_⟩
        rintro rfl
        exact ho (mem_namen.mp hx).2.2
    rw [heq]

theorem daten_eq (hi : s.Used i) {x : Nat} (hx : s'.Used x) :
    { s'.daten x with gen := 0 } = { s.daten (if x = d then i else x) with gen := 0 } := by
  rcases (hv.used_iff hi x).mp hx with ⟨hxu, hxi⟩ | rfl
  · rw [hv.daten_of_ne hxi (hv.ne_free hxu), if_neg (hv.ne_free hxu)]
  · rw [hv.daten_free hi, if_pos rfl]

theorem object_eq (hi : s.Used i) {x : Nat} (hx : s'.Used x) :
    (s'.daten x).object = (s.daten (if x = d then i else x)).object := by
  have hobject := congrArg CapSlot.object (hv.daten_eq hi hx)
  exact hobject

theorem same_object (h : Inv s kids) (hi : s.Used i) {p x : Nat}
    (hx : Child s'.Used s'.links p x) : (s'.daten x).object = (s'.daten p).object := by
  have hp := (hv.moved hi).parent_used h.forest hx
  rw [hv.object_eq hi hx.1, hv.object_eq hi hp]
  exact h.same_object _ _ ((hv.moved hi).child_of_moved h.forest hx)

theorem inv (h : Inv s kids) (hi : s.Used i) : Inv s' (Forest.movedKids kids i d) := by
  refine ⟨(hv.moved hi).forest h.forest, ?_, ?_, ?_, fun p x hx => hv.same_object h hi hx, ?_, ?_⟩
  · intro x hx
    rw [hv.tables.len]
    rcases (hv.used_iff hi x).mp hx with ⟨hx, -⟩ | rfl
    · exact h.bound x hx
    · exact hv.lt
  · rw [hv.tables.len]
    exact h.size
  · intro x hx
    rw [hv.tables.objects, hv.object_eq hi hx]
    rcases (hv.used_iff hi x).mp hx with ⟨hxu, -⟩ | rfl
    · rw [if_neg (hv.ne_free hxu)]
      exact h.object x hxu
    · rw [if_pos rfl]
      exact h.object i hi
  · intro o ho
    rw [hv.tables.objects] at ho ⊢
    obtain ⟨hlto, href, hne⟩ := h.refcount o ho
    rw [← Finset.card_pos, hv.card_namen h hi o, Finset.card_pos]
    exact ⟨hlto, href, hne⟩
  · rw [hv.tables.overruns]
    exact h.overruns

end Verschoben

end Caprock.Cap.CapSpace
