import Mathlib.Algebra.Group.Nat.Defs
import Caprock.Cap.Live

/-! # Stale handles

A slot's generation moves on exactly when the slot is released: by a deletion, by each
deletion of a revocation, and for the source of a move.  Counting the releases of a slot
along a run therefore tells which handles still name it.
-/

namespace Caprock.Cap

open Mem Execution

namespace CapSpace

/-- The slot is given up between two states. -/
def Freigegeben (s s' : CapSpace) (x : Nat) : Prop := s.Used x ∧ ¬ s'.Used x

instance (s s' : CapSpace) (x : Nat) : Decidable (s.Freigegeben s' x) :=
  inferInstanceAs (Decidable (s.Used x ∧ ¬ s'.Used x))

structure Fortgezaehlt (s s' : CapSpace) : Prop where
  len : s'.slots.len = s.slots.len
  gen : ∀ x, (s'.daten x).gen =
    if s.Freigegeben s' x then ((s.daten x).gen + 1) % 2 ^ 32 else (s.daten x).gen

variable {s s' s'' : CapSpace} {kids : Nat → List Nat}

theorem Fortgezaehlt.of_used (hlen : s'.slots.len = s.slots.len)
    (hused : ∀ x, s.Used x → s'.Used x) (hgen : ∀ x, (s'.daten x).gen = (s.daten x).gen) :
    Fortgezaehlt s s' where
  len := hlen
  gen := by
    intro x
    rw [if_neg fun hf => hf.2 (hused x hf.1)]
    exact hgen x

theorem Fortgezaehlt.refl (s : CapSpace) : Fortgezaehlt s s :=
  .of_used rfl (fun _ hx => hx) fun _ => rfl

theorem NurZaehler.fortgezaehlt (hz : NurZaehler s s') : Fortgezaehlt s s' := by
  refine .of_used (by rw [hz.slots]) (fun x hx => hz.used.symm ▸ hx) fun x => ?_
  rw [hz.daten]

theorem Fortgezaehlt.trans (h : Fortgezaehlt s s') (h' : Fortgezaehlt s' s'')
    (hold : ∀ x, s'.Used x → s.Used x) (hold' : ∀ x, s''.Used x → s'.Used x) :
    Fortgezaehlt s s'' where
  len := h'.len.trans h.len
  gen := by
    intro x
    rw [h'.gen, h.gen]
    by_cases hx : s.Used x
    · by_cases hx' : s'.Used x
      · by_cases hx'' : s''.Used x
        · rw [if_neg fun hf => hf.2 hx'', if_neg fun hf => hf.2 hx', if_neg fun hf => hf.2 hx'']
        · rw [if_pos ⟨hx', hx''⟩, if_neg fun hf => hf.2 hx', if_pos ⟨hx, hx''⟩]
      · have hx'' : ¬ s''.Used x := fun hu => hx' (hold' x hu)
        rw [if_neg fun hf => hx' hf.1, if_pos ⟨hx, hx'⟩, if_pos ⟨hx, hx''⟩]
    · rw [if_neg fun hf => hx (hold x hf.1), if_neg fun hf => hx hf.1, if_neg fun hf => hx hf.1]

theorem Zurueckgerollt.fortgezaehlt {kind : ObjectKind} {o : Nat}
    (hz : Zurueckgerollt s s' kind o) : Fortgezaehlt s s' := by
  have hdaten : s'.daten = s.daten := by
    funext x
    simp only [CapSpace.daten, hz.slots]
  refine .of_used (by rw [hz.slots]) (fun x hx => ?_) fun x => by rw [hdaten]
  rw [used_iff_daten, hdaten]
  exact hx

theorem Eingebracht.fortgezaehlt {kind : ObjectKind} {rights : Rights} {o c : Nat}
    (he : Eingebracht s s' kind rights o c) : Fortgezaehlt s s' := by
  refine .of_used he.slotsLen (fun x hx => ?_) fun x => ?_
  · have hxc : x ≠ c := by
      rintro rfl
      exact he.freeSlot hx
    rw [used_iff_daten, he.daten, if_neg hxc]
    exact hx
  · rw [he.daten]
    split
    · next heq => rw [heq]
    · rfl

theorem Ableitung.fortgezaehlt (ha : Ableitung s s') : Fortgezaehlt s s' := by
  rcases ha with rfl | ⟨p, c, rights, badge, fenster, -, ha, -⟩
  · exact .refl _
  · refine .of_used ha.slotsLen (fun x hx => ?_) fun x => ?_
    · have hxc : x ≠ c := by
        rintro rfl
        exact ha.free hx
      rw [used_iff_daten, ha.daten, if_neg hxc]
      exact hx
    · rw [ha.daten]
      split
      · next heq => rw [heq]
      · rfl

theorem Verschoben.fortgezaehlt {i d : Nat} (hv : Verschoben s s' kids i d) (hi : s.Used i) :
    Fortgezaehlt s s' where
  len := hv.tables.len
  gen := by
    intro x
    by_cases hxi : x = i
    · have hgone : ¬ s'.Used x := by
        rw [hv.used_iff hi, hxi]
        rintro (⟨-, hne⟩ | hid)
        · exact hne rfl
        · exact hv.ne_free hi hid
      rw [if_pos ⟨hxi ▸ hi, hgone⟩, hv.daten, if_pos hxi, hxi]
    · have hkept : ¬ s.Freigegeben s' x := by
        rintro ⟨hx, hnot⟩
        exact hnot ((hv.used_iff hi x).mpr (.inl ⟨hx, hxi⟩))
      rw [if_neg hkept]
      by_cases hxd : x = d
      · rw [hxd, hv.daten_free hi]
      · rw [hv.daten_of_ne hxi hxd]

theorem fortgezaehlt_deleteLeaf {a : Abbau} {c : Nat} (hc : a.caps.Used c) :
    Fortgezaehlt a.caps (a.deleteLeaf c).caps where
  len := (a.deleteLeaf_tables c).1
  gen := by
    intro x
    rw [a.daten_deleteLeaf]
    by_cases hxc : x = c
    · rw [if_pos hxc, if_pos ⟨hxc ▸ hc, fun hu => ((a.used_deleteLeaf c x).mp hu).2 hxc⟩, hxc]
    · rw [if_neg hxc, if_neg]
      rintro ⟨hx, hnot⟩
      exact hnot ((a.used_deleteLeaf c x).mpr ⟨hx, hxc⟩)

theorem fortgezaehlt_revoke {a : Abbau} (h : a.caps.Inv kids) (p : CapPtr) :
    Fortgezaehlt a.caps (a.revoke p).2.caps := by
  cases hres : a.caps.resolve p with
  | error e =>
    rw [Abbau.revoke_of_error hres]
    exact .refl _
  | ok i =>
    obtain ⟨-, -, ⟨-, -, -, hf⟩, -⟩ := Abbau.revoke_rule
      (P := fun s ks => s.Inv ks ∧ s.Used i ∧ (∀ x, s.Used x → a.caps.Used x) ∧
        Fortgezaehlt a.caps s) hres
      (fun s ks hP => ⟨hP.1, hP.2.1⟩)
      (fun s s' ks hz hP => ⟨hP.1.nurZaehler hz, hz.used.symm ▸ hP.2.1, hz.used.symm ▸ hP.2.2.1,
        hP.2.2.2.trans hz.fortgezaehlt hP.2.2.1 fun x hx => hz.used ▸ hx⟩)
      (fun b ks c hP hc hnil hbelow => ⟨Abbau.deleteLeaf_inv hP.1 hc hnil,
        Abbau.used_deleteLeaf_of_below hP.1 hP.2.1 hbelow,
        fun x hx => hP.2.2.1 x ((b.used_deleteLeaf c x).mp hx).1,
        hP.2.2.2.trans (fortgezaehlt_deleteLeaf hc) hP.2.2.1
          fun x hx => ((b.used_deleteLeaf c x).mp hx).1⟩)
      ⟨h, Abbau.used_of_resolve hres, fun _ hx => hx, .refl _⟩
    exact hf

theorem Ausgang.lebt_of_ok {src p : CapPtr} {r : Except CapError CapPtr × CapSpace}
    (h : s.Ausgang src r) (hp : r.1.toOption = some p) : r.2.Lebt p := by
  rcases h with ⟨e, rfl⟩ | ⟨q, s', rfl, -, he⟩
  · cases hp
  · cases hp
    exact he.lebt

theorem install_lebt {kind : ObjectKind} {rights : Rights} {p : CapPtr}
    (hp : (s.install kind rights).1.toOption = some p) : (s.install kind rights).2.Lebt p := by
  rcases install_ausgang s kind rights with ⟨heq, -⟩ | ⟨o, s', heq, -⟩ | ⟨o, c, s', heq, he⟩
  · rw [heq] at hp
    cases hp
  · rw [heq] at hp
    cases hp
  · rw [heq] at hp ⊢
    cases hp
    have hused : (s'.daten c).used = true := by rw [he.daten, if_pos rfl]
    exact (lebt_iff _ _).mpr ⟨he.slotsLen.symm ▸ he.slotLt, hused, rfl⟩

theorem moveCap_lebt (h : s.Inv kids) {src p : CapPtr} (hp : (s.moveCap src).1.toOption = some p) :
    (s.moveCap src).2.Lebt p := by
  rcases moveCap_ausgang h src with ⟨e, heq⟩ | ⟨d, s', heq, hi, hv⟩
  · rw [heq] at hp
    cases hp
  · rw [heq] at hp ⊢
    cases hp
    exact (lebt_iff _ _).mpr ⟨hv.tables.len.symm ▸ hv.lt, (hv.used_iff hi d).mpr (.inr rfl), rfl⟩

theorem lebt_moveCap_of_ne (h : s.Inv kids) {src p : CapPtr} (hp : s.Lebt p)
    (hne : p.slot ≠ src.slot) : (s.moveCap src).2.Lebt p := by
  rcases moveCap_ausgang h src with ⟨e, heq⟩ | ⟨d, s', heq, hi, hv⟩
  · rw [heq]
    exact hp
  · rw [heq]
    obtain ⟨hlt, hused, hgen⟩ := (lebt_iff _ p).mp hp
    refine (lebt_iff _ p).mpr
      ⟨hv.tables.len.symm ▸ hlt, (hv.used_iff hi _).mpr (.inl ⟨hused, hne⟩), ?_⟩
    rw [hv.daten_of_ne hne (hv.ne_free hused), hgen]

end CapSpace

namespace Kern

open CapSpace

theorem step_fortgezaehlt {k k' : Kern} {op : Op} {kids : Nat → List Nat} (h : k.caps.Inv kids)
    (hstep : k.step op = some k') : Fortgezaehlt k.caps k'.caps := by
  cases op with
  | install kind rights =>
    cases hstep
    rcases install_cases k.caps kind rights with ⟨heq, -⟩ | ⟨o, hz⟩ | ⟨o, c, he⟩
    · dsimp only
      rw [heq]
      exact .refl _
    · exact hz.fortgezaehlt
    · exact he.fortgezaehlt
  | copy src rights =>
    cases hstep
    exact (copy_ableitung h src rights).fortgezaehlt
  | mint src rights badge =>
    cases hstep
    exact (mint_ableitung h src rights badge).fortgezaehlt
  | subregion src offset len rights =>
    cases hstep
    exact (subregion_ableitung h src offset len rights).fortgezaehlt
  | moveCap src =>
    cases hstep
    rcases moveCap_cases h src with heq | ⟨i, d, hi, hv⟩
    · dsimp only
      rw [heq]
      exact .refl _
    · exact hv.fortgezaehlt hi
  | delete p rf =>
    cases hstep
    rcases Abbau.delete_cases (a := ⟨k.caps, k.alloc, rf⟩) h p with heq | ⟨c, hc, -, heq⟩
    · dsimp only
      rw [heq]
      exact .refl _
    · dsimp only
      rw [heq]
      exact fortgezaehlt_deleteLeaf (a := ⟨k.caps, k.alloc, rf⟩) hc
  | revoke p rf =>
    cases hstep
    exact fortgezaehlt_revoke (a := ⟨k.caps, k.alloc, rf⟩) h p

def freigaben (x : Nat) : Kern → List Op → Nat
  | _, [] => 0
  | k, op :: ops =>
      match k.step op with
      | none => 0
      | some k' => (if k.caps.Freigegeben k'.caps x then 1 else 0) + freigaben x k' ops

theorem freigaben_cons {k k' : Kern} {op : Op} (hstep : k.step op = some k') (x : Nat)
    (ops : List Op) : freigaben x k (op :: ops) =
      (if k.caps.Freigegeben k'.caps x then 1 else 0) + freigaben x k' ops := by
  rw [freigaben, hstep]

theorem freigaben_append {k t : Kern} {xs : List Op} (hrun : run step k xs = some t) (x : Nat)
    (ys : List Op) : freigaben x k (xs ++ ys) = freigaben x k xs + freigaben x t ys := by
  induction xs generalizing k with
  | nil =>
    cases hrun
    simp [freigaben]
  | cons op xs ih =>
    obtain ⟨k', hstep, hrest⟩ := run_cons_eq_some.mp hrun
    rw [List.cons_append, freigaben_cons hstep, freigaben_cons hstep, ih hrest, Nat.add_assoc]

theorem run_gen {k t : Kern} {ops : List Op} (h : ∃ kids, k.caps.Inv kids)
    (hrun : run step k ops = some t) (x : Nat) :
    (t.caps.daten x).gen % 2 ^ 32 = ((k.caps.daten x).gen + freigaben x k ops) % 2 ^ 32 := by
  induction ops generalizing k with
  | nil =>
    cases hrun
    rfl
  | cons op ops ih =>
    obtain ⟨k', hstep, hrest⟩ := run_cons_eq_some.mp hrun
    obtain ⟨kids, hinv⟩ := h
    have hgen := (step_fortgezaehlt hinv hstep).gen x
    rw [ih (step_inv k op k' ⟨kids, hinv⟩ hstep) hrest, freigaben_cons hstep, hgen]
    split <;> omega

theorem run_lebt {k t : Kern} {ops : List Op} (h : ∃ kids, k.caps.Inv kids)
    (hrun : run step k ops = some t) {p : CapPtr} (hp : k.caps.Lebt p)
    (hkeep : freigaben p.slot k ops = 0) : t.caps.Lebt p := by
  induction ops generalizing k with
  | nil =>
    cases hrun
    exact hp
  | cons op ops ih =>
    obtain ⟨k', hstep, hrest⟩ := run_cons_eq_some.mp hrun
    obtain ⟨kids, hinv⟩ := h
    have hf := step_fortgezaehlt hinv hstep
    rw [freigaben_cons hstep] at hkeep
    have hnot : ¬ k.caps.Freigegeben k'.caps p.slot := by
      intro hrel
      rw [if_pos hrel] at hkeep
      omega
    refine ih (step_inv k op k' ⟨kids, hinv⟩ hstep) hrest ?_ (by omega)
    obtain ⟨hlt, hused, hgen⟩ := (lebt_iff _ p).mp hp
    refine (lebt_iff _ p).mpr ⟨hf.len.symm ▸ hlt, ?_, ?_⟩
    · by_contra hgone
      exact hnot ⟨hused, hgone⟩
    · rw [hf.gen, if_neg hnot, hgen]

/-- Every operation refuses the handle and leaves everything as it is. -/
structure Abgewiesen (k : Kern) (p : CapPtr) : Prop where
  lookup : k.caps.lookup p = none
  copy : ∀ rights, k.caps.copy p rights = (.error .invalid, k.caps)
  mint : ∀ rights badge, k.caps.mint p rights badge = (.error .invalid, k.caps)
  subregion : ∀ offset len rights,
    k.caps.subregion p offset len rights = (.error .invalid, k.caps)
  moveCap : k.caps.moveCap p = (.error .invalid, k.caps)
  delete : ∀ rf, Abbau.delete ⟨k.caps, k.alloc, rf⟩ p = (.error .invalid, ⟨k.caps, k.alloc, rf⟩)
  revoke : ∀ rf, Abbau.revoke ⟨k.caps, k.alloc, rf⟩ p = (.error .invalid, ⟨k.caps, k.alloc, rf⟩)

theorem abgewiesen_of_not_lebt {k : Kern} {p : CapPtr} (h : ¬ k.caps.Lebt p) : k.Abgewiesen p := by
  have hres : k.caps.resolve p = .error .invalid := resolve_of_not_lebt h
  have hcopy : ∀ rights, k.caps.copy p rights = (.error .invalid, k.caps) := by
    intro rights
    unfold CapSpace.copy
    rw [hres]
  refine ⟨?_, hcopy, fun rights badge => ?_, fun offset len rights => ?_, ?_, fun rf => ?_,
    fun rf => Abbau.revoke_of_error hres⟩
  · unfold CapSpace.lookup
    rw [hres]
  · unfold CapSpace.mint
    rw [hcopy]
  · unfold CapSpace.subregion
    rw [hres]
  · unfold CapSpace.moveCap
    rw [hres]
  · unfold Abbau.delete
    rw [hres]

def ausgegeben (k : Kern) : Op → Option CapPtr
  | .install kind rights => (k.caps.install kind rights).1.toOption
  | .copy src rights => (k.caps.copy src rights).1.toOption
  | .mint src rights badge => (k.caps.mint src rights badge).1.toOption
  | .subregion src offset len rights => (k.caps.subregion src offset len rights).1.toOption
  | .moveCap src => (k.caps.moveCap src).1.toOption
  | .delete _ _ => none
  | .revoke _ _ => none

theorem ausgegeben_lebt {k k' : Kern} {op : Op} {kids : Nat → List Nat} (h : k.caps.Inv kids)
    {p : CapPtr} (hp : k.ausgegeben op = some p) (hstep : k.step op = some k') :
    k'.caps.Lebt p := by
  cases op with
  | install kind rights =>
    cases hstep
    exact install_lebt hp
  | copy src rights =>
    cases hstep
    exact (copy_ausgang h src rights).lebt_of_ok hp
  | mint src rights badge =>
    cases hstep
    exact (mint_ausgang h src rights badge).lebt_of_ok hp
  | subregion src offset len rights =>
    cases hstep
    exact (subregion_ausgang h src offset len rights).lebt_of_ok hp
  | moveCap src =>
    cases hstep
    exact moveCap_lebt h hp
  | delete | revoke => cases hp

/-- In a run in which no slot is released `2 ^ 32` times: handles that are handed out name
their slot; every live slot is named by its handle, also after others are moved; a handle
names its slot until the slot is released, and from then on every operation refuses it. -/
theorem run_veraltet (tab : Tabellen) (alloc : PhysAllocator) (xs ys : List Op) (k₁ k₂ : Kern)
    (h₁ : run step (init tab alloc) xs = some k₁) (h₂ : run step k₁ ys = some k₂)
    (hgrenze : ∀ x, freigaben x (init tab alloc) (xs ++ ys) < 2 ^ 32) :
    (∀ op p k₃, ausgegeben k₂ op = some p → k₂.step op = some k₃ →
        k₃.caps.resolve p = .ok p.slot) ∧
      (∀ i, k₂.caps.Used i → k₂.caps.resolve (k₂.caps.ptr i) = .ok i ∧
        ∀ src, i ≠ src.slot → (k₂.caps.moveCap src).2.resolve (k₂.caps.ptr i) = .ok i) ∧
      ∀ p, k₁.caps.resolve p = .ok p.slot →
        (freigaben p.slot k₁ ys = 0 → k₂.caps.resolve p = .ok p.slot) ∧
        (0 < freigaben p.slot k₁ ys → Abgewiesen k₂ p) := by
  have hinv₁ := run_inv h₁
  obtain ⟨kids, hinv₂⟩ : ∃ kids, k₂.caps.Inv kids := run_invariant_of_step step_inv hinv₁ h₂
  refine ⟨fun op p k₃ hp hstep => ausgegeben_lebt hinv₂ hp hstep, fun i hi => ?_, fun p hp => ?_⟩
  · have hlive : k₂.caps.resolve (k₂.caps.ptr i) = .ok i := resolve_ptr (hinv₂.bound i hi) hi
    exact ⟨hlive, fun src hne => lebt_moveCap_of_ne hinv₂ (p := k₂.caps.ptr i) hlive hne⟩
  · refine ⟨fun hkeep => run_lebt hinv₁ h₂ hp hkeep, fun hpos => abgewiesen_of_not_lebt ?_⟩
    intro hlive
    -- The generation has moved on, and not all the way round.
    have hgen := run_gen hinv₁ h₂ p.slot
    have hbefore := ((lebt_iff _ p).mp hp).2.2
    have hafter := ((lebt_iff _ p).mp hlive).2.2
    have hbound := hgrenze p.slot
    rw [freigaben_append h₁] at hbound
    rw [hbefore, hafter] at hgen
    omega

theorem freigaben_le_length (x : Nat) (k : Kern) (ops : List Op) :
    freigaben x k ops ≤ ops.length := by
  induction ops generalizing k with
  | nil => exact Nat.le_refl 0
  | cons op ops ih =>
    cases hstep : k.step op with
    | none =>
      rw [freigaben, hstep]
      exact Nat.zero_le _
    | some k' =>
      have hrest := ih k'
      rw [freigaben_cons hstep, List.length_cons]
      split <;> omega

/-- Slot 1 is deleted and taken again: its first handle is refused from then on. -/
theorem run_veraltet_reused_slot :
    ∃ k₁ k₂, run step (init ⟨3, 3, by decide⟩ PhysAllocator.new)
        [.install (.endpoint 0) Rights.rwx, .copy ⟨0, 0⟩ Rights.rw] = some k₁ ∧
      run step k₁ [.delete ⟨1, 0⟩ (Finalized.new 3 3), .copy ⟨0, 0⟩ Rights.rw] = some k₂ ∧
      k₂.caps.resolve ⟨1, 1⟩ = .ok 1 ∧ k₂.Abgewiesen ⟨1, 0⟩ := by
  obtain ⟨k₁, h₁⟩ : ∃ k₁, run step (init ⟨3, 3, by decide⟩ PhysAllocator.new)
      [.install (.endpoint 0) Rights.rwx, .copy ⟨0, 0⟩ Rights.rw] = some k₁ := ⟨_, rfl⟩
  obtain ⟨k₂, h₂⟩ : ∃ k₂, run step k₁
      [.delete ⟨1, 0⟩ (Finalized.new 3 3), .copy ⟨0, 0⟩ Rights.rw] = some k₂ := ⟨_, rfl⟩
  have hread : (run step (init ⟨3, 3, by decide⟩ PhysAllocator.new)
      [.install (.endpoint 0) Rights.rwx, .copy ⟨0, 0⟩ Rights.rw]).map
        (fun k => (k.caps.resolve ⟨1, 0⟩,
          freigaben 1 k [.delete ⟨1, 0⟩ (Finalized.new 3 3), .copy ⟨0, 0⟩ Rights.rw],
          (run step k [.delete ⟨1, 0⟩ (Finalized.new 3 3), .copy ⟨0, 0⟩ Rights.rw]).map
            fun k' => k'.caps.resolve ⟨1, 1⟩)) = some (.ok 1, 1, some (.ok 1)) := by
    decide
  rw [h₁] at hread
  simp only [Option.map_some, h₂, Option.some.injEq, Prod.mk.injEq] at hread
  obtain ⟨hres, hcount, hnew⟩ := hread
  refine ⟨k₁, k₂, h₁, h₂, hnew, ?_⟩
  refine ((run_veraltet _ _ _ _ k₁ k₂ h₁ h₂ fun x => ?_).2.2 ⟨1, 0⟩ hres).2 ?_
  · exact Nat.lt_of_le_of_lt (freigaben_le_length _ _ _) (by decide)
  · show 0 < freigaben 1 k₁ _
    omega

end Kern

end Caprock.Cap
