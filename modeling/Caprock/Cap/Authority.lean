import Caprock.Cap.Reachable

/-! # Authority never grows

A child holds a subset of its parent's rights and a window inside the parent's
effective window.  Both relations compose, so along any chain of derivations a
capability allows no more than the root it descends from.
-/

namespace Caprock.Cap

open Mem LinkedList Execution

namespace CapSpace

/-- Slot `c` allows no more than slot `p`. -/
structure Enger (s : CapSpace) (p c : Nat) : Prop where
  rights : (s.daten p).rights.contains (s.daten c).rights = true
  object : (s.daten c).object = (s.daten p).object
  fenster : ∀ w, s.wirksam c = some w → ∃ v, s.wirksam p = some v ∧ w.Inside v

theorem Enger.refl (s : CapSpace) (p : Nat) : Enger s p p :=
  ⟨Rights.contains_refl _, rfl, fun w hw => ⟨w, hw, .refl w⟩⟩

theorem Enger.trans {s : CapSpace} {p c d : Nat} (h : Enger s p c) (h' : Enger s c d) :
    Enger s p d where
  rights := Rights.contains_trans h.rights h'.rights
  object := h'.object.trans h.object
  fenster := by
    intro w hw
    obtain ⟨v, hv, hwv⟩ := h'.fenster w hw
    obtain ⟨u, hu, hvu⟩ := h.fenster v hv
    exact ⟨u, hu, hwv.trans hvu⟩

theorem wirksam_eq {s s' : CapSpace} {x y : Nat}
    (hobj : (s'.daten x).object = (s.daten y).object)
    (hsub : (s'.daten x).subregion = (s.daten y).subregion)
    (hkind : (s'.objects.cell (s.daten y).object).kind = (s.objects.cell (s.daten y).object).kind) :
    s'.wirksam x = s.wirksam y := by
  have hobj' : (s'.slots.cell x).object = (s.slots.cell y).object := hobj
  have hsub' : (s'.slots.cell x).subregion = (s.slots.cell y).subregion := hsub
  have hkind' : (s'.objects.cell (s.slots.cell y).object).kind =
      (s.objects.cell (s.slots.cell y).object).kind := hkind
  unfold wirksam
  rw [hobj', hsub', hkind']

theorem Enger.congr {s s' : CapSpace} {p c p' c' : Nat} (h : Enger s p c)
    (hp : { s'.daten p' with gen := 0 } = { s.daten p with gen := 0 })
    (hc : { s'.daten c' with gen := 0 } = { s.daten c with gen := 0 })
    (hkind : (s'.objects.cell (s.daten p).object).kind =
      (s.objects.cell (s.daten p).object).kind) : Enger s' p' c' := by
  simp only [CapSlot.mk.injEq] at hp hc
  obtain ⟨-, -, hobjp, hrightsp, -, hsubp, -⟩ := hp
  obtain ⟨-, -, hobjc, hrightsc, -, hsubc, -⟩ := hc
  have hkindc : (s'.objects.cell (s.daten c).object).kind =
      (s.objects.cell (s.daten c).object).kind := by rw [h.object, hkind]
  refine ⟨?_, ?_, ?_⟩
  · rw [hrightsp, hrightsc]
    exact h.rights
  · rw [hobjp, hobjc]
    exact h.object
  · rw [wirksam_eq hobjp hsubp hkind, wirksam_eq hobjc hsubc hkindc]
    exact h.fenster

def Beschraenkt (s : CapSpace) : Prop := ∀ p c, Child s.Used s.links p c → Enger s p c

variable {s s' : CapSpace} {kids kids' : Nat → List Nat}

theorem Beschraenkt.of_erhalten (h : s.Beschraenkt) (he : Erhalten s s') (hinv' : Inv s' kids') :
    s'.Beschraenkt := by
  intro p c hc
  have hp := hinv'.forest.parent_used c p hc
  refine (h p c (he.child hc)).congr ?_ ?_ (he.kind p hp)
  · rw [he.daten p hp]
  · rw [he.daten c hc.1]

theorem Zurueckgerollt.erhalten {kind : ObjectKind} {o : Nat} (hz : Zurueckgerollt s s' kind o)
    (h : Inv s kids) : Erhalten s s' := by
  have hused : ∀ x, s'.Used x → s.Used x := by
    intro x hx
    unfold Used at hx ⊢
    rwa [hz.slots] at hx
  refine ⟨hused, ?_, ?_, ?_⟩
  · intro x _
    unfold CapSpace.daten
    rw [hz.slots]
  · intro x _
    unfold CapSpace.parent
    rw [hz.slots]
  · intro x hx
    have hne : (s.daten x).object ≠ o := by
      intro heq
      exact hz.free (heq ▸ h.object x (hused x hx))
    rw [hz.objects, if_neg hne]

theorem Beschraenkt.eingebracht {kind : ObjectKind} {rights : Rights} {o c : Nat}
    (hb : s.Beschraenkt) (he : Eingebracht s s' kind rights o c) (h : Inv s kids) :
    s'.Beschraenkt := by
  have hlinks := he.links (h.mdb_free he.freeSlot)
  have hold : ∀ x, x ≠ c → s'.daten x = s.daten x := by
    intro x hx
    rw [he.daten, if_neg hx]
  intro p x hx
  rw [hlinks] at hx
  have hxc : x ≠ c := by
    rintro rfl
    cases (h.forest.free x he.freeSlot).1.symm.trans hx.2
  have hxu : s.Used x := by
    have hxu' := hx.1
    rwa [used_iff_daten, hold x hxc] at hxu'
  have hpu := h.forest.parent_used x p ⟨hxu, hx.2⟩
  have hpc : p ≠ c := by
    rintro rfl
    exact he.freeSlot hpu
  refine (hb p x ⟨hxu, hx.2⟩).congr ?_ ?_ ?_
  · rw [hold p hpc]
  · rw [hold x hxc]
  · have hne : (s.daten p).object ≠ o := by
      intro heq
      exact he.freeObject (heq ▸ h.object p hpu)
    rw [he.objects, if_neg hne]

theorem Abgeleitet.enger {p c : Nat} {rights : Rights} {badge : Nat} {fenster : Option PhysRegion}
    (ha : Abgeleitet s s' p c rights badge fenster) (hv : Verengt s p rights fenster)
    (hp : s.Used p) : Enger s' p c := by
  have hpc : p ≠ c := fun heq => ha.free (heq ▸ hp)
  have hold : s'.daten p = s.daten p := by rw [ha.daten, if_neg hpc]
  have hc : s'.daten c =
      ⟨true, (s.daten c).gen, (s.daten p).object, rights, badge, fenster, Mdb.empty⟩ := by
    rw [ha.daten, if_pos rfl]
  have hkind : ∀ o, (s'.objects.cell o).kind = (s.objects.cell o).kind := by
    intro o
    rw [ha.objects]
    split <;> rfl
  have hwp : s'.wirksam p = s.wirksam p := wirksam_eq (by rw [hold]) (by rw [hold]) (hkind _)
  refine ⟨?_, ?_, ?_⟩
  · rw [hc, hold]
    exact hv.rights
  · rw [hc, hold]
  · intro w hw
    rw [hwp]
    rcases hv.fenster with heq | ⟨v, u, hu, heq, hin⟩
    · -- The window is taken over.
      have hwc : s'.wirksam c = s.wirksam p :=
        wirksam_eq (by rw [hc]) (by rw [hc]; exact heq) (hkind _)
      exact ⟨w, hwc ▸ hw, .refl w⟩
    · refine ⟨u, hu, ?_⟩
      have hobj : (s'.slots.cell c).object = (s.slots.cell p).object :=
        show (s'.daten c).object = (s.daten p).object by rw [hc]
      have hsub : (s'.slots.cell c).subregion = some v :=
        show (s'.daten c).subregion = some v by rw [hc, heq]
      unfold wirksam at hw hu
      rw [hobj, hkind, hsub] at hw
      cases hk : (s.objects.cell (s.slots.cell p).object).kind with
      | memory r =>
        rw [hk] at hw
        cases hw
        exact hin
      | _ =>
        rw [hk] at hw
        cases hw

theorem Beschraenkt.abgeleitet {p c : Nat} {rights : Rights} {badge : Nat}
    {fenster : Option PhysRegion} (hb : s.Beschraenkt)
    (ha : Abgeleitet s s' p c rights badge fenster) (hv : Verengt s p rights fenster)
    (h : Inv s kids) (hp : s.Used p) : s'.Beschraenkt := by
  have hold : ∀ x, x ≠ c → s'.daten x = s.daten x := by
    intro x hx
    rw [ha.daten, if_neg hx]
  have hkind : ∀ o, (s'.objects.cell o).kind = (s.objects.cell o).kind := by
    intro o
    rw [ha.objects]
    split <;> rfl
  rintro q x ⟨hx, hpar⟩
  have hpar' := (ha.parent x).symm.trans hpar
  by_cases hxc : x = c
  · rw [if_pos hxc] at hpar'
    cases hpar'
    exact hxc ▸ ha.enger hv hp
  · rw [if_neg hxc] at hpar'
    have hxu : s.Used x := by
      rwa [used_iff_daten, hold x hxc] at hx
    have hqu := h.forest.parent_used x q ⟨hxu, hpar'⟩
    have hqc : q ≠ c := fun heq => ha.free (heq ▸ hqu)
    refine (hb q x ⟨hxu, hpar'⟩).congr ?_ ?_ (hkind _)
    · rw [hold q hqc]
    · rw [hold x hxc]

theorem Beschraenkt.verschoben {i d : Nat} (hb : s.Beschraenkt) (hv : Verschoben s s' kids i d)
    (h : Inv s kids) (hi : s.Used i) : s'.Beschraenkt := by
  intro p x hx
  have hp := (hv.moved hi).parent_used h.forest hx
  have hchild := (hv.moved hi).child_of_moved h.forest hx
  refine (hb _ _ hchild).congr (hv.daten_eq hi hp) (hv.daten_eq hi hx.1) ?_
  rw [hv.tables.objects]

theorem Beschraenkt.enger_of_path (hb : s.Beschraenkt) {r c : Nat}
    (hpath : Relation.ReflTransGen (Child s.Used s.links) r c) : Enger s r c := by
  induction hpath with
  | refl => exact Enger.refl s r
  | tail _ hc ih => exact ih.trans (hb _ _ hc)

/-- What a lookup reports about memory shrinks with the window; other kinds are equal. -/
def KindInside : ObjectKind → ObjectKind → Prop
  | .memory w, .memory v => w.Inside v
  | kind, kind' => kind = kind'

theorem Enger.kindInside {r c : Nat} (h : Enger s r c) :
    KindInside (s.kindOfSlot c) (s.kindOfSlot r) := by
  have hobj : (s.slots.cell c).object = (s.slots.cell r).object := h.object
  have hfenster := h.fenster
  unfold wirksam at hfenster
  unfold kindOfSlot
  rw [hobj] at hfenster ⊢
  cases hk : (s.objects.cell (s.slots.cell r).object).kind with
  | memory m =>
    rw [hk] at hfenster
    obtain ⟨v, hv, hin⟩ := hfenster _ rfl
    cases hv
    exact hin
  | _ => exact rfl

end CapSpace

namespace Kern

open CapSpace

theorem step_beschraenkt (k : Kern) (op : Op) (k' : Kern)
    (h : (∃ kids, k.caps.Inv kids) ∧ k.caps.Beschraenkt) (hstep : k.step op = some k') :
    (∃ kids, k'.caps.Inv kids) ∧ k'.caps.Beschraenkt := by
  obtain ⟨⟨kids, hinv⟩, hb⟩ := h
  refine step_rule hinv hb ?_ hstep
  intro s ks s' _ hinv hb hs
  obtain ⟨kids', hinv'⟩ := hs.inv hinv
  cases hs with
  | zurueckgerollt hz => exact hb.of_erhalten (hz.erhalten hinv) hinv'
  | eingebracht he => exact hb.eingebracht he hinv
  | abgeleitet ha =>
    rcases ha with rfl | ⟨p, c, _, _, _, hp, ha, hv⟩
    · exact hb
    · exact hb.abgeleitet ha hv hinv hp
  | verschoben hi hv => exact hb.verschoben hv hinv hi
  | gezaehlt hz => exact hb.of_erhalten (.of_nurZaehler hz) hinv'
  | geloescht ha hc hnil =>
    subst ha
    exact hb.of_erhalten (.deleteLeaf hinv hc hnil) hinv'

theorem lookup_eq_some {s : CapSpace} {p : CapPtr} {kind : ObjectKind} {rights : Rights}
    {badge : Nat} (h : s.lookup p = some (kind, rights, badge)) :
    s.Used p.slot ∧ kind = s.kindOfSlot p.slot ∧ rights = (s.daten p.slot).rights := by
  unfold lookup at h
  rcases resolve_cases s p with ⟨i, hres, -, hi, rfl⟩ | hres
  · rw [hres] at h
    simp only [Option.some.injEq, Prod.mk.injEq] at h
    obtain ⟨rfl, rfl, -⟩ := h
    exact ⟨hi, rfl, rfl⟩
  · rw [hres] at h
    cases h

/-- In every reachable space a child holds a subset of its parent's rights on the same
object, with a window inside the parent's; and what a handle is looked up as lies within
what the root above it is looked up as. -/
theorem run_authority (tab : Tabellen) (alloc : PhysAllocator) (ops : List Op) (k : Kern)
    (hrun : run step (init tab alloc) ops = some k) :
    (∀ p c, k.caps.Used c → k.caps.parent c = some p → k.caps.Used p ∧
      (k.caps.daten p).rights.contains (k.caps.daten c).rights = true ∧
      (k.caps.daten c).object = (k.caps.daten p).object ∧
      ∀ w, k.caps.wirksam c = some w → ∃ v, k.caps.wirksam p = some v ∧ w.Inside v) ∧
    ∀ p kind rights badge, k.caps.lookup p = some (kind, rights, badge) →
      ∃ r kind₀ rights₀ badge₀, k.caps.Used r ∧ k.caps.parent r = none ∧
        Relation.ReflTransGen (Child k.caps.Used k.caps.links) r p.slot ∧
        k.caps.lookup (k.caps.ptr r) = some (kind₀, rights₀, badge₀) ∧
        rights₀.contains rights = true ∧ KindInside kind kind₀ := by
  obtain ⟨⟨kids, hinv⟩, hb⟩ := run_invariant_of_step step_beschraenkt
    ⟨⟨_, attached_inv tab⟩, fun p c hc => Bool.noConfusion hc.1⟩ hrun
  refine ⟨fun p c hc hpar => ?_, fun p kind rights badge hlook => ?_⟩
  · have henger := hb p c ⟨hc, hpar⟩
    exact ⟨hinv.forest.parent_used c p ⟨hc, hpar⟩, henger.rights, henger.object, henger.fenster⟩
  · obtain ⟨hused, rfl, rfl⟩ := lookup_eq_some hlook
    obtain ⟨r, hr, hroot, hpath⟩ := hinv.forest.exists_root hused
    have henger := hb.enger_of_path hpath
    refine ⟨r, k.caps.kindOfSlot r, (k.caps.daten r).rights, (k.caps.slots.cell r).badge, hr, hroot,
      hpath, ?_, henger.rights, henger.kindInside⟩
    unfold lookup
    rw [resolve_ptr (hinv.bound r hr) hr]
    rfl

/-- A window of a window of a region: the lookup of the innermost stays inside the root. -/
theorem run_authority_nested_windows :
    ∃ k, run step (init ⟨4, 4, by decide⟩ PhysAllocator.new)
        [.install (.memory ⟨4096, 8192⟩) Rights.rwx, .subregion ⟨0, 0⟩ 4096 4096 Rights.rw,
          .subregion ⟨1, 0⟩ 16 32 Rights.read] = some k ∧
      k.caps.lookup ⟨2, 0⟩ = some (.memory ⟨8208, 32⟩, Rights.read, 0) ∧
      ∃ r kind₀ rights₀ badge₀, k.caps.Used r ∧ k.caps.parent r = none ∧
        k.caps.lookup (k.caps.ptr r) = some (kind₀, rights₀, badge₀) ∧
        rights₀.contains Rights.read = true ∧ KindInside (.memory ⟨8208, 32⟩) kind₀ := by
  have hread : (run step (init ⟨4, 4, by decide⟩ PhysAllocator.new)
      [.install (.memory ⟨4096, 8192⟩) Rights.rwx, .subregion ⟨0, 0⟩ 4096 4096 Rights.rw,
        .subregion ⟨1, 0⟩ 16 32 Rights.read]).map (fun k => k.caps.lookup ⟨2, 0⟩) =
      some (some (.memory ⟨8208, 32⟩, Rights.read, 0)) := by
    decide
  obtain ⟨k, hk⟩ : ∃ k, run step (init ⟨4, 4, by decide⟩ PhysAllocator.new)
      [.install (.memory ⟨4096, 8192⟩) Rights.rwx, .subregion ⟨0, 0⟩ 4096 4096 Rights.rw,
        .subregion ⟨1, 0⟩ 16 32 Rights.read] = some k := ⟨_, rfl⟩
  rw [hk] at hread
  have hlook : k.caps.lookup ⟨2, 0⟩ = some (.memory ⟨8208, 32⟩, Rights.read, 0) := by
    simpa using hread
  obtain ⟨r, kind₀, rights₀, badge₀, hr, hroot, -, hlook₀, hrights, hkind⟩ :=
    (run_authority _ _ _ k hk).2 _ _ _ _ hlook
  exact ⟨k, hk, hlook, r, kind₀, rights₀, badge₀, hr, hroot, hlook₀, hrights, hkind⟩

end Kern

end Caprock.Cap
