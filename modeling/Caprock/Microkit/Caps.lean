import Caprock.Cap.Live
import Caprock.Microkit.PdTable

/-! # The state behind the lock `CAPS`

System calls resolve a thread to its protection domain, a local slot to a capability
and a capability to an object.  `Caps` is what they read and write for that: the
global capability space and the table of domains.  Policy and budget of an
installation are decided here.
-/

namespace Caprock.Microkit

open Cap Mem

/-- The result codes of the system calls that are modelled. -/
inductive Ergebnis where
  | ok
  | errBadcap
  | errRights
  | errNopd
  | errHaschildren
  | errNospace
  | errQuiescing
  | errEpFull
  | errHandlerCycle
  | errHandlerGone
  | errHandlerBusy
  | errInuse
  | errSubregion
  | errTimeout
  deriving DecidableEq, Repr

/-- `ThreadId::from_raw`. -/
def threadFromRaw (raw : Nat) : ThreadId := ⟨raw % 2 ^ 32, raw / 2 ^ 32 % 2 ^ 32⟩

/-- The sentinel `u64::MAX`. -/
def u64Max : Nat := 2 ^ 64 - 1

namespace PdTable

def platz (t : PdTable) (pd slot : Nat) : Option Nat :=
  if slot < t.cspaceLenVon pd ∧ (t.pds.cell pd).cspaceStart + slot < t.cspacePool.len then
    some ((t.pds.cell pd).cspaceStart + slot)
  else none

/-- Some domain holds the handle in its cspace. -/
def Genannt (t : PdTable) (p : CapPtr) : Prop := ∃ pd slot, t.capAt pd slot = some p

theorem capAt_eq_platz (t : PdTable) (pd slot : Nat) :
    t.capAt pd slot = (t.platz pd slot).bind t.cspacePool.cell := by
  unfold capAt platz Slab.get
  by_cases hslot : slot < t.cspaceLenVon pd
  · by_cases hpool : (t.pds.cell pd).cspaceStart + slot < t.cspacePool.len
    · simp [hslot, hpool]
    · simp [hslot, hpool]
  · simp [hslot]

theorem cspaceLenVon_congr {t t' : PdTable} (hpds : t'.pds = t.pds) (pd : Nat) :
    t'.cspaceLenVon pd = t.cspaceLenVon pd := by
  have hused : t'.isUsed pd ↔ t.isUsed pd := by simp [isUsed, hpds]
  simp only [cspaceLenVon, hused, hpds]

theorem platz_congr {t t' : PdTable} (hpds : t'.pds = t.pds)
    (hlen : t'.cspacePool.len = t.cspacePool.len) (pd slot : Nat) :
    t'.platz pd slot = t.platz pd slot := by
  simp only [platz, cspaceLenVon_congr hpds, hpds, hlen]

theorem poolSchreiben_of_platz {t : PdTable} {pd slot i : Nat} (h : t.platz pd slot = some i)
    (c : Option CapPtr) :
    t.poolSchreiben pd slot c = { t with cspacePool := t.cspacePool.set i c } := by
  unfold platz at h
  split at h
  · next hand =>
    obtain ⟨hslot, hpool⟩ := hand
    cases h
    have hused : t.isUsed pd := by
      by_contra hnot
      simp [cspaceLenVon, hnot] at hslot
    rw [cspaceLenVon, if_pos hused] at hslot
    rw [poolSchreiben, if_pos ⟨hused.1, hslot⟩]
    exact if_pos hpool
  · cases h

theorem poolSchreiben_of_platz_none {t : PdTable} {pd slot : Nat} (hused : t.isUsed pd)
    (h : t.platz pd slot = none) (c : Option CapPtr) : t.poolSchreiben pd slot c = t := by
  unfold platz at h
  rw [cspaceLenVon, if_pos hused] at h
  unfold poolSchreiben
  split
  · next hand =>
    split at h
    · cases h
    · next hnot => exact if_neg fun hpool => hnot ⟨hand.2, hpool⟩
  · rfl

theorem capAt_poolSchreiben_of_platz {t : PdTable} {pd slot i : Nat}
    (h : t.platz pd slot = some i) (c : Option CapPtr) (j k : Nat) :
    (t.poolSchreiben pd slot c).capAt j k =
      if t.platz j k = some i then c else t.capAt j k := by
  rw [poolSchreiben_of_platz h, capAt_eq_platz, capAt_eq_platz]
  have hplatz : ({ t with cspacePool := t.cspacePool.set i c } : PdTable).platz j k =
      t.platz j k := platz_congr rfl rfl j k
  rw [hplatz]
  cases hjk : t.platz j k with
  | none => simp
  | some x =>
    by_cases hx : x = i
    · subst hx
      simp
    · simp [hx, Slab.set_cell_of_ne]

theorem capAt_poolSchreiben_self {t : PdTable} {pd slot : Nat}
    (hlauf : (t.pds.cell pd).cspaceStart + (t.pds.cell pd).cspaceLen ≤ t.cspacePool.len)
    (hslot : slot < t.cspaceLenVon pd) (c : Option CapPtr) :
    (t.poolSchreiben pd slot c).capAt pd = Function.update (t.capAt pd) slot c := by
  have hplatz : ∀ k, k < t.cspaceLenVon pd →
      t.platz pd k = some ((t.pds.cell pd).cspaceStart + k) := by
    intro k hk
    have hlen : t.cspaceLenVon pd ≤ (t.pds.cell pd).cspaceLen := by
      unfold cspaceLenVon
      split <;> omega
    exact if_pos ⟨hk, by omega⟩
  funext k
  rw [capAt_poolSchreiben_of_platz (hplatz slot hslot)]
  by_cases hk : k = slot
  · rw [hk, if_pos (hplatz slot hslot), Function.update_self]
  · rw [Function.update_of_ne hk, if_neg]
    intro heq
    by_cases hin : k < t.cspaceLenVon pd
    · rw [hplatz k hin, Option.some.injEq] at heq
      omega
    · simp [platz, hin] at heq

theorem genannt_iff (t : PdTable) (p : CapPtr) :
    t.Genannt p ↔ ∃ pd ∈ List.range t.pds.len,
      ∃ slot ∈ List.range (t.pds.cell pd).cspaceLen, t.capAt pd slot = some p := by
  constructor
  · rintro ⟨pd, slot, hcap⟩
    have hslot : slot < t.cspaceLenVon pd := by
      by_contra hnot
      simp [capAt, hnot] at hcap
    have hused : t.isUsed pd := by
      by_contra hnot
      simp [cspaceLenVon, hnot] at hslot
    rw [cspaceLenVon, if_pos hused] at hslot
    exact ⟨pd, List.mem_range.mpr hused.1, slot, List.mem_range.mpr hslot, hcap⟩
  · rintro ⟨pd, -, slot, -, hcap⟩
    exact ⟨pd, slot, hcap⟩

instance (t : PdTable) (p : CapPtr) : Decidable (t.Genannt p) :=
  decidable_of_iff _ (t.genannt_iff p).symm

end PdTable

/-- `Caps`.  `owner` is the backward table from threads to domains: the entry of a thread
whose recorded thread id and domain generation are current. -/
structure Caps where
  cspace : CapSpace
  pds : PdTable
  owner : ThreadId → Option Nat

def kindIsHardware : ObjectKind → Bool
  | .mmio .. | .irq .. | .dma .. => true
  | _ => false

def kindIsPdControl : ObjectKind → Bool
  | .pdControl .. | .loader .. => true
  | _ => false

def kindIsHandler : ObjectKind → Bool
  | .syscallHandler .. | .faultHandler .. => true
  | _ => false

def domainAllowsKind (domain : Domain) (kind : ObjectKind) : Bool :=
  if kindIsHardware kind then domain == .hardwareLand
  else if kindIsPdControl kind || kindIsHandler kind then domain == .trustedSas
  else true

namespace Caps

/-- `pd_of`: the domain must still be live. -/
def pdOf (g : Caps) (thread : ThreadId) : Option Nat :=
  match g.owner thread with
  | none => none
  | some pd => if g.pds.isUsed pd then some pd else none

def capAllowed (g : Caps) (pd : Nat) (cap : CapPtr) : Bool :=
  match g.pds.domainOf pd with
  | none => false
  | some domain =>
      match g.cspace.lookup cap with
      | none => false
      | some (kind, _, _) =>
          if domainAllowsKind domain kind = false then false
          else if domain = .hardwareLand then
            match kind with
            | .endpoint id => id == (g.pds.pds.cell pd).chanEp
            | .notification id =>
                id == (g.pds.pds.cell pd).chanNtfn || id == (g.pds.pds.cell pd).irqNtfn
            | _ => true
          else true

/-- `budget_allows`: replacing an occupied slot needs no budget. -/
def budgetAllows (g : Caps) (pd slot : Nat) : Bool :=
  (g.pds.capAt pd slot).isSome || decide (g.pds.capCount pd < g.pds.budgetOf pd)

def installCapChecked (g : Caps) (pd slot : Nat) (cap : CapPtr) : Bool × Caps :=
  if g.capAllowed pd cap = false ∨ g.budgetAllows pd slot = false then (false, g)
  else (true, { g with pds := g.pds.installCap pd slot cap })

/-- The generic resolution at the head of a system call: the caller's domain and what its
slot `slot` refers to. -/
def aufloesen (g : Caps) (thread : ThreadId) (slot : Nat) :
    Except Ergebnis (Nat × ObjectKind × Rights × Nat) :=
  match g.pdOf thread with
  | none => .error .errNopd
  | some pd =>
      match g.pds.capAt pd slot with
      | none => .error .errBadcap
      | some cap =>
          match g.cspace.lookup cap with
          | none => .error .errBadcap
          | some (kind, rights, badge) => .ok (pd, kind, rights, badge)

theorem isUsed_of_pdOf {g : Caps} {thread : ThreadId} {pd : Nat} (h : g.pdOf thread = some pd) :
    g.pds.isUsed pd := by
  unfold pdOf at h
  split at h
  · cases h
  · split at h
    · next hu =>
      cases h
      exact hu
    · cases h

theorem pdOf_congr {g g' : Caps} (howner : g'.owner = g.owner)
    (hused : ∀ pd, g'.pds.isUsed pd ↔ g.pds.isUsed pd) (thread : ThreadId) :
    g'.pdOf thread = g.pdOf thread := by
  simp only [pdOf, howner, hused]

end Caps

/-- What a deletion reaches: the tables, the allocator that gets memory back, and which
capabilities are the stack of a living thread (`stack_cap_in_use`). -/
structure CapKern where
  caps : Caps
  alloc : PhysAllocator
  stapel : CapPtr → Bool

/-- `dispatch_delete_cap`.  Every failure of `cap_delete` is reported as `ERR_HASCHILDREN`. -/
def CapKern.deleteCap (k : CapKern) (rf : Finalized) (cap : CapPtr) :
    Except Ergebnis Unit × CapKern :=
  if k.stapel cap then (.error .errInuse, k)
  else
    match Abbau.delete ⟨k.caps.cspace, k.alloc, rf⟩ cap with
    | (.error _, a) =>
        (.error .errHaschildren, { k with caps := { k.caps with cspace := a.caps }, alloc := a.alloc })
    | (.ok (), a) => (.ok (), { k with caps := { k.caps with cspace := a.caps }, alloc := a.alloc })

namespace CapKern

/-- The capability lives, has no child and is not in use as a stack. -/
def Loeschbar (k : CapKern) (cap : CapPtr) : Prop :=
  k.stapel cap = false ∧ k.caps.cspace.Lebt cap ∧ k.caps.cspace.firstChild cap.slot = none

instance (k : CapKern) (cap : CapPtr) : Decidable (k.Loeschbar cap) :=
  inferInstanceAs (Decidable (_ ∧ _ ∧ _))

/-- Exactly the handle `cap` died. -/
structure Geloescht (k k' : CapKern) (cap : CapPtr) : Prop where
  pds : k'.caps.pds = k.caps.pds
  owner : k'.caps.owner = k.caps.owner
  stapel : k'.stapel = k.stapel
  lebt : ∀ p, k'.caps.cspace.Lebt p ↔ k.caps.cspace.Lebt p ∧ p ≠ cap
  inv : (∃ kids, k.caps.cspace.Inv kids) → ∃ kids, k'.caps.cspace.Inv kids
  blatt : (∃ kids, k.caps.cspace.Inv kids) → ∀ x, k.caps.cspace.firstChild x = none →
    k'.caps.cspace.firstChild x = none

theorem deleteCap_of_loeschbar {k : CapKern} {cap : CapPtr} (h : k.Loeschbar cap)
    (rf : Finalized) :
    (k.deleteCap rf cap).1 = .ok () ∧ k.Geloescht (k.deleteCap rf cap).2 cap := by
  obtain ⟨hfrei, hlebt, hleaf⟩ := h
  have hdel := Abbau.delete_of_leaf (a := ⟨k.caps.cspace, k.alloc, rf⟩) hlebt hleaf
  have hnot : ¬ k.stapel cap = true := by simp [hfrei]
  unfold deleteCap
  rw [if_neg hnot, hdel]
  have hused := ((CapSpace.lebt_iff _ _).mp hlebt).2.1
  refine ⟨rfl, rfl, rfl, rfl, fun p => ?_, fun ⟨kids, hinv⟩ => ?_, fun ⟨kids, hinv⟩ x hx => ?_⟩
  · have hiff := Abbau.lebt_deleteLeaf ⟨k.caps.cspace, k.alloc, rf⟩ cap.slot p
    refine hiff.trans (and_congr_right fun hp => not_congr ⟨fun heq => ?_, fun heq => heq ▸ rfl⟩)
    exact CapSpace.Lebt.eq_of_slot hp hlebt heq
  · exact ⟨_, Abbau.deleteLeaf_inv (a := ⟨k.caps.cspace, k.alloc, rf⟩) hinv hused
      (hinv.forest.kids_nil hused hleaf)⟩
  · exact Abbau.firstChild_deleteLeaf_of_none (a := ⟨k.caps.cspace, k.alloc, rf⟩) hinv hused hleaf hx

theorem deleteCap_of_not_loeschbar {k : CapKern} {cap : CapPtr} (h : ¬ k.Loeschbar cap)
    (rf : Finalized) : ∃ e, k.deleteCap rf cap = (.error e, k) := by
  unfold deleteCap
  by_cases hst : k.stapel cap = true
  · rw [if_pos hst]
    exact ⟨_, rfl⟩
  · rw [if_neg hst]
    obtain ⟨e, heq⟩ := Abbau.delete_of_not_leaf (a := ⟨k.caps.cspace, k.alloc, rf⟩)
      fun hand => h ⟨by simpa using hst, hand⟩
    rw [heq]
    exact ⟨_, rfl⟩

end CapKern

end Caprock.Microkit
