import Caprock.Lib.Run
import Caprock.Cap.Space

/-! # Refused operations

What an operation leaves when it returns an error.  Every refusal but one is decided before the
first write.  `install` takes an object entry first and a slot second; without a slot it gives the
entry back by its flag alone, so the entry keeps the kind and a count of one.
-/

namespace Caprock.Cap

open Mem Execution

def fehlerVon {ε α : Type} : Except ε α → Option ε
  | .error e => some e
  | .ok _ => none

namespace CapSpace

variable {s : CapSpace}

def freiesObjekt (s : CapSpace) : Option Nat := s.objects.position fun o => !o.used

theorem ableiten_of_error {i : Nat} {rights : Rights} {fenster : Option PhysRegion} {e : CapError}
    (h : fehlerVon (s.ableiten i rights fenster).1 = some e) :
    (s.ableiten i rights fenster).2 = s := by
  unfold ableiten allocSlot at h ⊢
  cases hfree : s.freeSlotIndex with
  | error e' => rfl
  | ok dst =>
    rw [hfree] at h
    cases h

theorem copy_of_error {src : CapPtr} {rights : Rights} {e : CapError}
    (h : fehlerVon (s.copy src rights).1 = some e) : (s.copy src rights).2 = s := by
  unfold copy at h ⊢
  cases hres : s.resolve src with
  | error e' => rfl
  | ok i =>
    rw [hres] at h
    exact ableiten_of_error h

theorem mint_of_error {src : CapPtr} {rights : Rights} {badge : Nat} {e : CapError}
    (h : fehlerVon (s.mint src rights badge).1 = some e) : (s.mint src rights badge).2 = s := by
  unfold mint at h ⊢
  rcases hcopy : s.copy src rights with ⟨r, s'⟩
  rw [hcopy] at h
  cases r with
  | error e' =>
    have hfehler : fehlerVon (s.copy src rights).1 = some e' := by
      rw [hcopy]
      rfl
    have hs := copy_of_error hfehler
    rw [hcopy] at hs
    exact hs
  | ok dst => cases h

theorem subregion_of_error {src : CapPtr} {offset len : Nat} {rights : Rights} {e : CapError}
    (h : fehlerVon (s.subregion src offset len rights).1 = some e) :
    (s.subregion src offset len rights).2 = s := by
  unfold subregion at h ⊢
  cases hres : s.resolve src with
  | error e' => rfl
  | ok i =>
    rw [hres] at h
    dsimp only at h ⊢
    cases hw : s.wirksam i with
    | none => rfl
    | some w =>
      rw [hw] at h
      dsimp only at h ⊢
      cases hfenster : teilfensterRechnen w offset len with
      | error e' => rfl
      | ok fenster =>
        rw [hfenster] at h
        exact ableiten_of_error h

theorem moveCap_of_error {src : CapPtr} {e : CapError} (h : fehlerVon (s.moveCap src).1 = some e) :
    (s.moveCap src).2 = s := by
  unfold moveCap at h ⊢
  cases hres : s.resolve src with
  | error e' => rfl
  | ok i =>
    rw [hres] at h
    cases hfree : s.freeSlotIndex with
    | error e' => rfl
    | ok dst =>
      rw [hfree] at h
      cases h

theorem install_of_error {kind : ObjectKind} {rights : Rights} {e : CapError}
    (h : fehlerVon (s.install kind rights).1 = some e) :
    s.freiesObjekt = none ∧ (s.install kind rights).2 = s ∨
      ∃ o e', s.freiesObjekt = some o ∧ s.freeSlotIndex = .error e' ∧
        (s.install kind rights).2.slots = s.slots ∧
        (s.install kind rights).2.objects =
          s.objects.set o ⟨false, kind, 1, (s.objects.cell o).gen⟩ := by
  unfold install allocObject allocSlot at h ⊢
  cases hpos : s.objects.position fun o => !o.used with
  | none => exact .inl ⟨hpos, rfl⟩
  | some o =>
    rw [hpos] at h
    cases hfree : s.freeSlotIndex with
    | ok i =>
      have hfree' : (s.modifyObject o fun ob => ⟨true, kind, 1, ob.gen⟩).freeSlotIndex = .ok i :=
        hfree
      simp only [modifyObject, freeSlotIndex] at hfree' h
      rw [hfree'] at h
      cases h
    | error e' =>
      right
      have hfree' : (s.modifyObject o fun ob => ⟨true, kind, 1, ob.gen⟩).freeSlotIndex =
          .error e' := hfree
      simp only [modifyObject, freeSlotIndex] at hfree' ⊢
      rw [hfree']
      refine ⟨o, e', hpos, rfl, rfl, ?_⟩
      simp [Slab.modify, Slab.set]

end CapSpace

namespace Abbau

theorem delete_of_error {a : Abbau} {p : CapPtr} {e : CapError}
    (h : fehlerVon (a.delete p).1 = some e) : (a.delete p).2 = a := by
  unfold delete at h ⊢
  cases hres : a.caps.resolve p with
  | error e' => rfl
  | ok slot =>
    rw [hres] at h
    dsimp only at h ⊢
    split at h
    · next hkind => rw [if_pos hkind]
    · cases h

theorem revoke_of_fehler {a : Abbau} {p : CapPtr} {e : CapError}
    (h : fehlerVon (a.revoke p).1 = some e) : (a.revoke p).2 = a := by
  unfold revoke at h ⊢
  cases hres : a.caps.resolve p with
  | error e' => rfl
  | ok slot =>
    rw [hres] at h
    cases h

end Abbau

namespace Kern

def fehler (k : Kern) : Op → Option CapError
  | .install kind rights => fehlerVon (k.caps.install kind rights).1
  | .copy src rights => fehlerVon (k.caps.copy src rights).1
  | .mint src rights badge => fehlerVon (k.caps.mint src rights badge).1
  | .subregion src offset len rights => fehlerVon (k.caps.subregion src offset len rights).1
  | .moveCap src => fehlerVon (k.caps.moveCap src).1
  | .delete p rf => fehlerVon (Abbau.delete ⟨k.caps, k.alloc, rf⟩ p).1
  | .revoke p rf => fehlerVon (Abbau.revoke ⟨k.caps, k.alloc, rf⟩ p).1

structure Spurlos (k k' : Kern) : Prop where
  slots : k'.caps.slots = k.caps.slots
  objects : k'.caps.objects = k.caps.objects
  alloc : k'.alloc = k.alloc

theorem Spurlos.refl (k : Kern) : k.Spurlos k := ⟨rfl, rfl, rfl⟩

def LaesstEintrag (k : Kern) : Op → Prop
  | .install kind _ => ∃ o e, k.caps.freiesObjekt = some o ∧ k.caps.freeSlotIndex = .error e ∧
      ¬ ((k.caps.objects.cell o).kind = kind ∧ (k.caps.objects.cell o).refcount = 1)
  | _ => False

/-- In every state: an operation that returns an error leaves slots, objects and allocator as they
are, except where an installation gives an object entry back. -/
theorem step_spurlos_iff (k k' : Kern) (op : Op) (e : CapError) (hstep : k.step op = some k')
    (hfehler : k.fehler op = some e) : k.Spurlos k' ↔ ¬ k.LaesstEintrag op := by
  cases op with
  | install kind rights =>
      cases hstep
      rcases CapSpace.install_of_error hfehler with ⟨hkein, heq⟩ | ⟨o, e', hpos, hfree, hslots, hobj⟩
      · refine iff_of_true (by rw [heq]; exact .refl k) ?_
        rintro ⟨o, _, hpos, -⟩
        rw [hkein] at hpos
        cases hpos
      · have hunused : (k.caps.objects.cell o).used = false := by
          simpa using (Slab.position_eq_some hpos).2
        constructor
        · rintro ⟨-, hgleich, -⟩ ⟨o', -, hpos', -, handers⟩
          obtain rfl : o = o' := Option.some.inj (hpos.symm.trans hpos')
          have hcell : k.caps.objects.cell o = ⟨false, kind, 1, (k.caps.objects.cell o).gen⟩ := by
            have hself := congrArg (fun x => x.cell o) (hobj.symm.trans hgleich)
            exact (hself.symm.trans (Slab.set_cell_self _ _ _))
          apply handers
          rw [hcell]
          exact ⟨rfl, rfl⟩
        · intro hnot
          have hschon : (k.caps.objects.cell o).kind = kind ∧
              (k.caps.objects.cell o).refcount = 1 := by
            by_contra handers
            exact hnot ⟨o, e', hpos, hfree, handers⟩
          refine ⟨hslots, hobj.trans ?_, rfl⟩
          have hcell : (⟨false, kind, 1, (k.caps.objects.cell o).gen⟩ : Object) =
              k.caps.objects.cell o := by
            rw [← hschon.1, ← hschon.2, ← hunused]
          rw [hcell, Slab.set, Function.update_eq_self]
  | copy src rights =>
      cases hstep
      rw [CapSpace.copy_of_error hfehler]
      exact iff_of_true (.refl k) not_false
  | mint src rights badge =>
      cases hstep
      rw [CapSpace.mint_of_error hfehler]
      exact iff_of_true (.refl k) not_false
  | subregion src offset len rights =>
      cases hstep
      rw [CapSpace.subregion_of_error hfehler]
      exact iff_of_true (.refl k) not_false
  | moveCap src =>
      cases hstep
      rw [CapSpace.moveCap_of_error hfehler]
      exact iff_of_true (.refl k) not_false
  | delete p rf =>
      cases hstep
      rw [Abbau.delete_of_error hfehler]
      exact iff_of_true (.refl k) not_false
  | revoke p rf =>
      cases hstep
      rw [Abbau.revoke_of_fehler hfehler]
      exact iff_of_true (.refl k) not_false

/-- A slot table that is full, with an object entry to spare. -/
def voll : Kern :=
  ⟨((CapSpace.attached ⟨1, 2, by decide⟩).install (.endpoint 0) Rights.rwx).2, PhysAllocator.new⟩

/-- A copy that finds no slot leaves no trace. -/
theorem step_spurlos_iff_copy : ∃ k', voll.step (.copy ⟨0, 0⟩ Rights.rw) = some k' ∧
    voll.Spurlos k' :=
  ⟨_, rfl, (step_spurlos_iff voll _ (.copy ⟨0, 0⟩ Rights.rw) .noSlot rfl rfl).mpr not_false⟩

/-- An installation that finds no slot leaves entry 1 with the kind it was to have. -/
theorem install_leaves_entry :
    run step (init ⟨1, 2, by decide⟩ PhysAllocator.new) [.install (.endpoint 0) Rights.rwx] =
        some voll ∧
      ∃ k', voll.step (.install (.endpoint 7) Rights.rwx) = some k' ∧
        voll.fehler (.install (.endpoint 7) Rights.rwx) = some .noSlot ∧ ¬ voll.Spurlos k' := by
  refine ⟨rfl, _, rfl, rfl, fun h => ?_⟩
  have hcell := congrArg (fun x => (x.cell 1).refcount) h.objects
  exact absurd hcell (by decide)

end Kern

end Caprock.Cap
