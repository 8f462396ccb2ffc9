import Caprock.Lib.Checks
import Caprock.Lib.Word

/-! # Stacks of spawned threads

`sub_region` narrows a capability to the window that a caller names, and `check_stack` judges the
window.  Both add and multiply with a check, so the window of an accepted request is the one that
was asked for, without a wrap.  What is refused beyond that is refused on purpose: windows below the
smallest stack, a length of zero at an offset, and capabilities that end at the end of the address
space.
-/

namespace Caprock.Cap.Spawn

open Checks Word

inductive StackRefusal where
  | notMemory
  | notWritable
  | wrongSpace
  | deviceReachable
  | badGeometry
  | overlaps
  | threadLimit
  | outsideCap
  deriving DecidableEq, Repr

def minStackBytes : Nat := 16 * 1024
def page : Nat := 4096
def maxThreadsPerPd : Nat := 64

structure SubRegion where
  base : Nat
  len : Nat
  deriving DecidableEq, Repr

structure StackProposal where
  isMemory : Bool
  writable : Bool
  normalSpace : Bool
  region : SubRegion
  deviceReachable : Bool
  overlapsExisting : Bool
  threadsNow : Nat
  deriving DecidableEq, Repr

def subRegion (capBase capLen offsetPages lengthPages : Nat) : Except StackRefusal SubRegion :=
  if offsetPages = 0 ∧ lengthPages = 0 then .ok ⟨capBase, capLen⟩
  else if lengthPages = 0 then .error .outsideCap
  else
    (okOr .outsideCap (checkedMul offsetPages page)).bind fun off =>
    (okOr .outsideCap (checkedMul lengthPages page)).bind fun len =>
    (okOr .outsideCap (checkedAdd capBase off)).bind fun base =>
    (okOr .outsideCap (checkedAdd base len)).bind fun fin =>
    (okOr .outsideCap (checkedAdd capBase capLen)).bind fun capEnd =>
    if capEnd < fin then .error .outsideCap else .ok ⟨base, len⟩

def checkStack (p : StackProposal) : Except StackRefusal Nat :=
  if p.isMemory = false then .error .notMemory
  else if p.writable = false then .error .notWritable
  else if p.normalSpace = false then .error .wrongSpace
  else if p.deviceReachable then .error .deviceReachable
  else if p.region.len < minStackBytes ∨ p.region.base % page ≠ 0 ∨ p.region.len % page ≠ 0 then
    .error .badGeometry
  else if p.overlapsExisting then .error .overlaps
  else if maxThreadsPerPd ≤ p.threadsNow then .error .threadLimit
  else okOr .badGeometry (checkedAdd p.region.base p.region.len)

def fenster (capBase capLen offsetPages lengthPages : Nat) : SubRegion :=
  if offsetPages = 0 ∧ lengthPages = 0 then ⟨capBase, capLen⟩
  else ⟨capBase + offsetPages * page, lengthPages * page⟩

structure Tragbar (capBase capLen : Nat) (r : SubRegion) : Prop where
  ausgerichtet : page ∣ r.base
  seiten : page ∣ r.len
  positiv : 0 < r.len
  unten : capBase ≤ r.base
  oben : r.base + r.len ≤ capBase + capLen
  spitze : r.base + r.len < 2 ^ 64

instance (capBase capLen : Nat) (r : SubRegion) : Decidable (Tragbar capBase capLen r) :=
  decidable_of_iff (page ∣ r.base ∧ page ∣ r.len ∧ 0 < r.len ∧ capBase ≤ r.base ∧
    r.base + r.len ≤ capBase + capLen ∧ r.base + r.len < 2 ^ 64)
    ⟨fun ⟨h₁, h₂, h₃, h₄, h₅, h₆⟩ => ⟨h₁, h₂, h₃, h₄, h₅, h₆⟩,
      fun h => ⟨h.1, h.2, h.3, h.4, h.5, h.6⟩⟩

structure StackProposal.Brauchbar (p : StackProposal) : Prop where
  isMemory : p.isMemory = true
  writable : p.writable = true
  normalSpace : p.normalSpace = true
  unreachable : p.deviceReachable = false
  apart : p.overlapsExisting = false
  threads : p.threadsNow < maxThreadsPerPd

variable {capBase capLen offsetPages lengthPages : Nat}

/-- A request that is let through: not a length of zero at an offset, inside of the capability, and
with an end of the capability that does not wrap unless all of it is meant. -/
structure Innen (capBase capLen offsetPages lengthPages : Nat) : Prop where
  eindeutig : lengthPages = 0 → offsetPages = 0
  oben : lengthPages ≠ 0 → offsetPages * page + lengthPages * page ≤ capLen
  capEnde : lengthPages ≠ 0 → capBase + capLen < 2 ^ 64

theorem subRegion_eq_ok_iff {r : SubRegion} :
    subRegion capBase capLen offsetPages lengthPages = .ok r ↔
      Innen capBase capLen offsetPages lengthPages ∧
        r = fenster capBase capLen offsetPages lengthPages := by
  unfold subRegion fenster
  by_cases hwhole : offsetPages = 0 ∧ lengthPages = 0
  · rw [if_pos hwhole, if_pos hwhole]
    constructor
    · intro h
      cases h
      exact ⟨⟨fun _ => hwhole.1, fun h => absurd hwhole.2 h, fun h => absurd hwhole.2 h⟩, rfl⟩
    · intro h
      rw [h.2]
  rw [if_neg hwhole, if_neg hwhole]
  by_cases hzero : lengthPages = 0
  · rw [if_pos hzero]
    constructor
    · intro h
      cases h
    · intro h
      exact absurd ⟨h.1.eindeutig hzero, hzero⟩ hwhole
  rw [if_neg hzero]
  simp only [bind_eq_ok, okOr_eq_ok, checkedMul_eq_some, checkedAdd_eq_some, ite_error_eq_ok]
  constructor
  · intro h
    obtain ⟨_, ⟨-, rfl⟩, _, ⟨-, rfl⟩, _, ⟨-, rfl⟩, _, ⟨-, rfl⟩, _, ⟨hend, rfl⟩, hle, hr⟩ := h
    cases hr
    exact ⟨⟨fun h => absurd h hzero, fun _ => by omega, fun _ => hend⟩, rfl⟩
  · intro h
    obtain ⟨hin, rfl⟩ := h
    have hle := hin.oben hzero
    have hend := hin.capEnde hzero
    exact ⟨_, ⟨by omega, rfl⟩, _, ⟨by omega, rfl⟩, _, ⟨by omega, rfl⟩, _, ⟨by omega, rfl⟩, _,
      ⟨hend, rfl⟩, by omega, rfl⟩

theorem checkStack_eq_ok_iff {p : StackProposal} {top : Nat} :
    checkStack p = .ok top ↔ p.Brauchbar ∧ minStackBytes ≤ p.region.len ∧ page ∣ p.region.base ∧
      page ∣ p.region.len ∧ p.region.base + p.region.len < 2 ^ 64 ∧
        top = p.region.base + p.region.len := by
  simp only [checkStack, ite_error_eq_ok, okOr_eq_ok, checkedAdd_eq_some, Nat.dvd_iff_mod_eq_zero,
    Bool.not_eq_false, Bool.not_eq_true]
  constructor
  · intro h
    obtain ⟨hmem, hwrite, hspace, hreach, hgeo, hover, hthreads, hlt, htop⟩ := h
    exact ⟨⟨hmem, hwrite, hspace, hreach, hover, by omega⟩, by omega, by omega, by omega, hlt, htop⟩
  · intro h
    obtain ⟨⟨hmem, hwrite, hspace, hreach, hover, hthreads⟩, hmin, hbase, hlen, hlt, htop⟩ := h
    exact ⟨hmem, hwrite, hspace, hreach, by omega, hover, by omega, hlt, htop⟩

theorem StackProposal.brauchbar_region {p : StackProposal} {r : SubRegion} :
    StackProposal.Brauchbar { p with region := r } ↔ p.Brauchbar :=
  ⟨fun h => ⟨h.1, h.2, h.3, h.4, h.5, h.6⟩, fun h => ⟨h.1, h.2, h.3, h.4, h.5, h.6⟩⟩

theorem Tragbar.innen
    (h : Tragbar capBase capLen (fenster capBase capLen offsetPages lengthPages))
    (heindeutig : lengthPages = 0 → offsetPages = 0) (hend : capBase + capLen < 2 ^ 64) :
    Innen capBase capLen offsetPages lengthPages := by
  refine ⟨heindeutig, fun hne => ?_, fun _ => hend⟩
  have hpart : ¬ (offsetPages = 0 ∧ lengthPages = 0) := fun h => hne h.2
  have hoben := h.oben
  rw [fenster, if_neg hpart] at hoben
  dsimp only at hoben
  omega

theorem Innen.oben_fenster (h : Innen capBase capLen offsetPages lengthPages) :
    capBase ≤ (fenster capBase capLen offsetPages lengthPages).base ∧
      (fenster capBase capLen offsetPages lengthPages).base +
        (fenster capBase capLen offsetPages lengthPages).len ≤ capBase + capLen := by
  unfold fenster
  split
  next => exact ⟨le_refl _, le_refl _⟩
  next hpart =>
    have hne : lengthPages ≠ 0 := fun hzero => hpart ⟨h.eindeutig hzero, hzero⟩
    have hoben := h.oben hne
    dsimp only
    omega

theorem Innen.ende (h : Innen capBase capLen offsetPages lengthPages)
    (hspitze : (fenster capBase capLen offsetPages lengthPages).base +
      (fenster capBase capLen offsetPages lengthPages).len < 2 ^ 64) :
    capBase + capLen < 2 ^ 64 := by
  by_cases hzero : lengthPages = 0
  · rw [fenster, if_pos ⟨h.eindeutig hzero, hzero⟩] at hspitze
    exact hspitze
  · exact h.capEnde hzero

/-- Both checks accept exactly the windows that can carry a stack, of at least the smallest size, in
a capability that does not end at the end of the address space. -/
theorem spawn_genau (capBase capLen offsetPages lengthPages : Nat) (p : StackProposal) (top : Nat) :
    ((∃ r, subRegion capBase capLen offsetPages lengthPages = .ok r ∧
        checkStack { p with region := r } = .ok top) ↔
      (Tragbar capBase capLen (fenster capBase capLen offsetPages lengthPages) ∧
        top = (fenster capBase capLen offsetPages lengthPages).base +
          (fenster capBase capLen offsetPages lengthPages).len) ∧
      (minStackBytes ≤ (fenster capBase capLen offsetPages lengthPages).len ∧
        (lengthPages = 0 → offsetPages = 0) ∧ capBase + capLen < 2 ^ 64 ∧ p.Brauchbar)) ∧
    ∀ r, subRegion capBase capLen offsetPages lengthPages = .ok r →
      r = fenster capBase capLen offsetPages lengthPages := by
  refine ⟨⟨fun h => ?_, fun h => ?_⟩, fun r hr => (subRegion_eq_ok_iff.mp hr).2⟩
  · obtain ⟨r, hr, htop⟩ := h
    obtain ⟨hin, rfl⟩ := subRegion_eq_ok_iff.mp hr
    obtain ⟨hp, hmin, hbase, hlen, hspitze, htop⟩ := checkStack_eq_ok_iff.mp htop
    dsimp only at hmin hbase hlen hspitze htop
    have hpos : 0 < minStackBytes := by decide
    exact ⟨⟨⟨hbase, hlen, by omega, hin.oben_fenster.1, hin.oben_fenster.2, hspitze⟩, htop⟩, hmin,
      hin.eindeutig, hin.ende hspitze, StackProposal.brauchbar_region.mp hp⟩
  · obtain ⟨⟨hw, htop⟩, hmin, heindeutig, hend, hp⟩ := h
    exact ⟨_, subRegion_eq_ok_iff.mpr ⟨hw.innen heindeutig hend, rfl⟩,
      checkStack_eq_ok_iff.mpr ⟨StackProposal.brauchbar_region.mpr hp, hmin, hw.ausgerichtet,
        hw.seiten, hw.spitze, htop⟩⟩

/-- One page of a writable capability is whole pages inside of it and is refused. -/
theorem spawn_einzelne_seite :
    Tragbar 0x1000 0x1000 (fenster 0x1000 0x1000 0 0) ∧
      ¬ ∃ r top, subRegion 0x1000 0x1000 0 0 = .ok r ∧
        checkStack ⟨true, true, true, r, false, false, 0⟩ = .ok top := by
  refine ⟨by decide, fun h => ?_⟩
  obtain ⟨r, top, hr, htop⟩ := h
  obtain ⟨-, rfl⟩ := subRegion_eq_ok_iff.mp hr
  obtain ⟨-, hmin, -⟩ := checkStack_eq_ok_iff.mp htop
  exact absurd hmin (by decide)

end Caprock.Cap.Spawn
