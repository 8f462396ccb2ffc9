import Caprock.Cap.Revoke

/-! # Reachable capability spaces

Every operation, successful or not, keeps the invariant, so every run from empty tables
does.  On reachable spaces `revoke` removes exactly what was derived from a capability.
-/

namespace Caprock.Cap

open Mem LinkedList Execution

namespace CapSpace

theorem attached_inv (tab : Tabellen) : Inv (attached tab) fun _ => [] where
  forest := Forest.empty (fun _ hx => Bool.noConfusion hx) fun _ => ⟨rfl, rfl, rfl, rfl⟩
  bound := fun _ hx => Bool.noConfusion hx
  size := tab.slots_lt
  object := fun _ hx => Bool.noConfusion hx
  same_object := fun _ _ hc => Bool.noConfusion hc.1
  refcount := fun _ ho => Bool.noConfusion ho
  overruns := rfl

end CapSpace

namespace Abbau

open CapSpace

theorem delete_cases {a : Abbau} {kids : Nat → List Nat} (h : a.caps.Inv kids) (p : CapPtr) :
    (a.delete p).2 = a ∨
      ∃ c, a.caps.Used c ∧ kids c = [] ∧ (a.delete p).2 = a.deleteLeaf c := by
  unfold delete
  rcases resolve_cases a.caps p with ⟨c, hres, -, hc, -⟩ | hres
  · rw [hres]
    dsimp only
    split
    · exact .inl rfl
    · next hfirst =>
      have hnone : a.caps.firstChild c = none := by simpa using hfirst
      exact .inr ⟨c, hc, h.forest.kids_nil hc hnone, rfl⟩
  · rw [hres]
    exact .inl rfl

theorem revoke_of_error {a : Abbau} {p : CapPtr} {e : CapError} (h : a.caps.resolve p = .error e) :
    a.revoke p = (.error e, a) := by
  unfold revoke
  rw [h]

end Abbau

namespace Kern

open CapSpace

/-- The changes that the steps are made of: every step is one of them or none, and `revoke` is
a row of the last two. -/
inductive Aenderung (s : CapSpace) (kids : Nat → List Nat) : Op → CapSpace → Prop where
  | zurueckgerollt {kind : ObjectKind} {rights : Rights} {o : Nat} {s' : CapSpace}
      (hz : Zurueckgerollt s s' kind o) : Aenderung s kids (.install kind rights) s'
  | eingebracht {kind : ObjectKind} {rights : Rights} {o c : Nat} {s' : CapSpace}
      (he : Eingebracht s s' kind rights o c) : Aenderung s kids (.install kind rights) s'
  | abgeleitet {op : Op} {s' : CapSpace} (ha : Ableitung s s') : Aenderung s kids op s'
  | verschoben {op : Op} {s' : CapSpace} {i d : Nat} (hi : s.Used i)
      (hv : Verschoben s s' kids i d) : Aenderung s kids op s'
  | gezaehlt {op : Op} {s' : CapSpace} (hz : NurZaehler s s') : Aenderung s kids op s'
  | geloescht {op : Op} {a : Abbau} {c : Nat} (ha : a.caps = s) (hc : a.caps.Used c)
      (hnil : kids c = []) : Aenderung s kids op (a.deleteLeaf c).caps

theorem Aenderung.inv {s s' : CapSpace} {kids : Nat → List Nat} {op : Op} (h : s.Inv kids)
    (hs : Aenderung s kids op s') : ∃ kids', s'.Inv kids' := by
  cases hs with
  | zurueckgerollt hz => exact ⟨kids, hz.inv h⟩
  | eingebracht he => exact ⟨_, he.inv h⟩
  | abgeleitet ha => exact ha.inv h
  | verschoben hi hv => exact ⟨_, hv.inv h hi⟩
  | gezaehlt hz => exact ⟨kids, h.nurZaehler hz⟩
  | geloescht ha hc hnil =>
    subst ha
    exact ⟨_, Abbau.deleteLeaf_inv h hc hnil⟩

/-- What every change keeps, every step keeps.  Only inside a `revoke` is the space no longer
that of the call. -/
theorem step_rule {P : CapSpace → Prop} {k k' : Kern} {op : Op} {kids : Nat → List Nat}
    (hinv : k.caps.Inv kids) (hP : P k.caps)
    (hkeep : ∀ s ks s', (s = k.caps ∨ ∃ p rf, op = .revoke p rf) → s.Inv ks → P s →
      Aenderung s ks op s' → P s')
    (hstep : k.step op = some k') : (∃ ks, k'.caps.Inv ks) ∧ P k'.caps := by
  have hsame : (∃ ks, k.caps.Inv ks) ∧ P k.caps := ⟨⟨kids, hinv⟩, hP⟩
  have hone : ∀ s', Aenderung k.caps kids op s' → (∃ ks, s'.Inv ks) ∧ P s' :=
    fun s' hs => ⟨hs.inv hinv, hkeep _ kids s' (.inl rfl) hinv hP hs⟩
  cases op with
  | install kind rights =>
    cases hstep
    rcases install_cases k.caps kind rights with ⟨heq, -⟩ | ⟨o, hz⟩ | ⟨o, c, he⟩
    · rwa [heq]
    · exact hone _ (.zurueckgerollt hz)
    · exact hone _ (.eingebracht he)
  | copy src rights =>
    cases hstep
    exact hone _ (.abgeleitet (copy_ableitung hinv src rights))
  | mint src rights badge =>
    cases hstep
    exact hone _ (.abgeleitet (mint_ableitung hinv src rights badge))
  | subregion src offset len rights =>
    cases hstep
    exact hone _ (.abgeleitet (subregion_ableitung hinv src offset len rights))
  | moveCap src =>
    cases hstep
    rcases moveCap_cases hinv src with heq | ⟨i, d, hi, hv⟩
    · rwa [heq]
    · exact hone _ (.verschoben hi hv)
  | delete p rf =>
    cases hstep
    rcases Abbau.delete_cases (a := ⟨k.caps, k.alloc, rf⟩) hinv p with heq | ⟨c, hc, hnil, heq⟩
    · dsimp only
      rwa [heq]
    · dsimp only
      rw [heq]
      exact hone _ (.geloescht (a := ⟨k.caps, k.alloc, rf⟩) rfl hc hnil)
  | revoke p rf =>
    cases hstep
    cases hres : k.caps.resolve p with
    | error e => rwa [Abbau.revoke_of_error (a := ⟨k.caps, k.alloc, rf⟩) hres]
    | ok i =>
      obtain ⟨kids', -, ⟨hinv', -, hP'⟩, -⟩ := Abbau.revoke_rule
        (P := fun s ks => s.Inv ks ∧ s.Used i ∧ P s) (a := ⟨k.caps, k.alloc, rf⟩) hres
        (fun s ks h => ⟨h.1, h.2.1⟩)
        (fun s s' ks hz h => ⟨h.1.nurZaehler hz, hz.used.symm ▸ h.2.1,
          hkeep s ks s' (.inr ⟨p, rf, rfl⟩) h.1 h.2.2 (.gezaehlt hz)⟩)
        (fun b ks c h hc hnil hbelow => ⟨Abbau.deleteLeaf_inv h.1 hc hnil,
          Abbau.used_deleteLeaf_of_below h.1 h.2.1 hbelow,
          hkeep _ ks _ (.inr ⟨p, rf, rfl⟩) h.1 h.2.2 (.geloescht rfl hc hnil)⟩)
        ⟨hinv, Abbau.used_of_resolve hres, hP⟩
      exact ⟨⟨kids', hinv'⟩, hP'⟩

theorem step_inv (k : Kern) (op : Op) (k' : Kern) (h : ∃ kids, k.caps.Inv kids)
    (hstep : k.step op = some k') : ∃ kids, k'.caps.Inv kids := by
  obtain ⟨kids, hinv⟩ := h
  exact (step_rule (P := fun _ => True) hinv trivial (fun _ _ _ _ _ _ _ => trivial) hstep).1

theorem run_inv {tab : Tabellen} {alloc : PhysAllocator} {ops : List Op} {k : Kern}
    (hrun : run step (init tab alloc) ops = some k) : ∃ kids, k.caps.Inv kids :=
  run_invariant_of_step step_inv ⟨_, attached_inv tab⟩ hrun

theorem resolve_ptr {s : CapSpace} {i : Nat} (hlt : i < s.slots.len) (hi : s.Used i) :
    s.resolve (s.ptr i) = .ok i :=
  if_pos ⟨hlt, hi, rfl⟩

theorem resolve_of_free {s : CapSpace} {p : CapPtr} (h : ¬ s.Used p.slot) :
    s.resolve p = .error .invalid :=
  if_neg fun hand => h hand.2.1

theorem kindOfSlot_eq {s s' : CapSpace} (he : Erhalten s s') {x : Nat} (hx : s'.Used x) :
    s'.kindOfSlot x = s.kindOfSlot x := by
  obtain ⟨-, hobj, -, -, hsub⟩ := fields_of_daten (he.daten x hx)
  have hkind : (s'.objects.cell (s.slots.cell x).object).kind =
      (s.objects.cell (s.slots.cell x).object).kind := he.kind x hx
  unfold kindOfSlot
  rw [hobj, hsub, hkind]

theorem lookup_eq_of_erhalten {s s' : CapSpace} (he : Erhalten s s') {x : Nat} (hx : s'.Used x)
    (hlt : x < s.slots.len) (hlt' : x < s'.slots.len) :
    s'.lookup (s'.ptr x) = s.lookup (s.ptr x) := by
  obtain ⟨-, -, hrights, hbadge, -⟩ := fields_of_daten (he.daten x hx)
  unfold lookup
  rw [resolve_ptr hlt' hx, resolve_ptr hlt (he.used x hx)]
  dsimp only
  rw [kindOfSlot_eq he hx, hrights, hbadge]

/-- In every reachable space, revoking a valid handle removes exactly the slots below it:
the others keep handle, content and sibling order, and removed handles do not resolve. -/
theorem run_revoke_exact (tab : Tabellen) (alloc : PhysAllocator) (ops : List Op) (k : Kern)
    (hrun : run step (init tab alloc) ops = some k) (p : CapPtr) (i : Nat)
    (hres : k.caps.resolve p = .ok i) (rf : Finalized) :
    (Abbau.revoke ⟨k.caps, k.alloc, rf⟩ p).1 = .ok () ∧
      (Abbau.revoke ⟨k.caps, k.alloc, rf⟩ p).2.caps.Used i ∧
      (∀ x, (Abbau.revoke ⟨k.caps, k.alloc, rf⟩ p).2.caps.Used x ↔
        k.caps.Used x ∧ ¬ Below k.caps.Used k.caps.links i x) ∧
      (∀ x, (Abbau.revoke ⟨k.caps, k.alloc, rf⟩ p).2.caps.Used x →
        (Abbau.revoke ⟨k.caps, k.alloc, rf⟩ p).2.caps.daten x = k.caps.daten x ∧
        (Abbau.revoke ⟨k.caps, k.alloc, rf⟩ p).2.caps.resolve (k.caps.ptr x) = .ok x ∧
        (Abbau.revoke ⟨k.caps, k.alloc, rf⟩ p).2.caps.lookup (k.caps.ptr x) =
          k.caps.lookup (k.caps.ptr x)) ∧
      (∀ q, (Abbau.revoke ⟨k.caps, k.alloc, rf⟩ p).2.caps.Used q →
        (Abbau.revoke ⟨k.caps, k.alloc, rf⟩ p).2.caps.kinder q =
          (k.caps.kinder q).filter fun x =>
            (Abbau.revoke ⟨k.caps, k.alloc, rf⟩ p).2.caps.Used x) ∧
      ∀ q : CapPtr, k.caps.Used q.slot →
        ¬ (Abbau.revoke ⟨k.caps, k.alloc, rf⟩ p).2.caps.Used q.slot →
        (Abbau.revoke ⟨k.caps, k.alloc, rf⟩ p).2.caps.resolve q = .error .invalid := by
  obtain ⟨kids, hinv⟩ := run_inv hrun
  obtain ⟨kids', hok, hinv', hg, hi, hfirst⟩ :=
    Abbau.revoke_spec (a := ⟨k.caps, k.alloc, rf⟩) hinv hres
  set s' := (Abbau.revoke ⟨k.caps, k.alloc, rf⟩ p).2.caps
  refine ⟨hok, hi, hg.used_iff hinv' hi hfirst, fun x hx => ?_, fun q hq => ?_,
    fun q _ hq => resolve_of_free hq⟩
  · have hdaten : s'.daten x = k.caps.daten x := hg.erhalten.daten x hx
    have hptr : s'.ptr x = k.caps.ptr x := by
      unfold ptr
      rw [(fields_of_daten hdaten).1]
    refine ⟨hdaten, ?_, ?_⟩
    · rw [← hptr]
      exact resolve_ptr (hinv'.bound x hx) hx
    · rw [← hptr, lookup_eq_of_erhalten hg.erhalten hx (hinv.bound x (hg.erhalten.used x hx))
        (hinv'.bound x hx), hptr]
  · rw [hinv'.kinder_eq hq, hinv.kinder_eq (hg.erhalten.used q hq)]
    exact hg.kids q hq

/-- A root with a child and a grandchild: after the revocation the grandchild is gone. -/
theorem run_revoke_exact_chain_of_three :
    (run step (init ⟨4, 4, by decide⟩ PhysAllocator.new)
      [.install (.endpoint 0) Rights.rwx, .copy ⟨0, 0⟩ Rights.rw, .copy ⟨1, 0⟩ Rights.read]).map
        (fun k => (k.caps.resolve ⟨2, 0⟩,
          (Abbau.revoke ⟨k.caps, k.alloc, Finalized.new 4 4⟩ ⟨0, 0⟩).2.caps.resolve ⟨2, 0⟩)) =
      some (.ok 2, .error .invalid) := by
  have hread : (run step (init ⟨4, 4, by decide⟩ PhysAllocator.new)
      [.install (.endpoint 0) Rights.rwx, .copy ⟨0, 0⟩ Rights.rw, .copy ⟨1, 0⟩ Rights.read]).map
        (fun k => (k.caps.resolve ⟨0, 0⟩, k.caps.resolve ⟨2, 0⟩, decide (k.caps.Used 2),
          decide ((Abbau.revoke ⟨k.caps, k.alloc, Finalized.new 4 4⟩ ⟨0, 0⟩).2.caps.Used 2))) =
      some (.ok 0, .ok 2, true, false) := by
    decide +kernel
  obtain ⟨k, hk⟩ : ∃ k, run step (init ⟨4, 4, by decide⟩ PhysAllocator.new)
      [.install (.endpoint 0) Rights.rwx, .copy ⟨0, 0⟩ Rights.rw, .copy ⟨1, 0⟩ Rights.read] =
        some k := ⟨_, rfl⟩
  rw [hk] at hread ⊢
  simp only [Option.map_some, Option.some.injEq, Prod.mk.injEq, decide_eq_true_eq,
    decide_eq_false_iff_not] at hread ⊢
  obtain ⟨hres, hres₂, hused, hgone⟩ := hread
  exact ⟨hres₂, (run_revoke_exact _ _ _ k hk ⟨0, 0⟩ 0 hres (Finalized.new 4 4)).2.2.2.2.2 ⟨2, 0⟩
    hused hgone⟩

end Kern

end Caprock.Cap
