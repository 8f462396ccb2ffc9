import Caprock.Microkit.Caps

/-! # The policy before and after an installation

`cap_allowed` decides before a capability enters a cspace, `domain_audit` judges the tables
afterwards; both are written out over the kinds of objects and the domains.  They part at two
kinds: the audit does not know the interrupt notification of a backend, which the admission
accepts, and it does not look for handler capabilities, which the admission keeps in `trustedSas`.
-/

namespace Caprock.Microkit

open Cap Mem

/-- `OwnerEntry`: the backward entry of a thread, with the domain plus one. -/
structure OwnerEntry where
  tid : Nat
  pd1 : Nat
  epoch : Nat
  deriving DecidableEq, Repr

namespace PdTable

def chanOf (t : PdTable) (pd : Nat) : Nat × Nat :=
  if pd < t.pds.len then ((t.pds.cell pd).chanEp, (t.pds.cell pd).chanNtfn) else (u32Max, u32Max)

def irqNtfnOf (t : PdTable) (pd : Nat) : Nat :=
  if pd < t.pds.len then (t.pds.cell pd).irqNtfn else u32Max

def setIrqNtfn (t : PdTable) (pd id : Nat) : Bool × PdTable :=
  if t.isUsed pd then
    (true, { t with pds := t.pds.modify pd fun p => { p with irqNtfn := id } })
  else (false, t)

def partnerOf (t : PdTable) (pd : Nat) : Option Nat :=
  if pd < t.pds.len then (t.pds.cell pd).partner else none

/-- `any_thread`; without a backward table the first thread stands for the domain. -/
def anyThread (t : PdTable) (owner : List OwnerEntry) (pd : Nat) (praedikat : ThreadId → Bool) :
    Bool :=
  if t.isUsed pd then
    if owner.isEmpty then (t.pds.cell pd).thread.any praedikat
    else owner.any fun e =>
      e.pd1 == (pd + 1) % 2 ^ 32 && e.epoch == (t.pds.cell pd).epoch &&
        praedikat (threadFromRaw e.tid)
  else false

def Vertraegt (t : PdTable) (pd : Nat) (kind : ObjectKind) : Prop :=
  ∀ domain, t.domainOf pd = some domain →
    (kindIsHardware kind = true → domain = .hardwareLand) ∧
      (kindIsPdControl kind = true → domain = .trustedSas) ∧
      (domain = .hardwareLand → (∀ id, kind = .endpoint id → id = (t.chanOf pd).1) ∧
        ∀ id, kind = .notification id → id = (t.chanOf pd).2)

/-- The rules of the audit for the domain itself. -/
def Gebunden (t : PdTable) (owner : List OwnerEntry) (isLiveGlobal : ThreadId → Bool)
    (pd : Nat) : Prop :=
  ∀ domain, t.domainOf pd = some domain →
    (domain ≠ .trustedSas → t.anyThread owner pd isLiveGlobal = false) ∧
      (domain = .hardwareLand →
        ∃ partner, t.partnerOf pd = some partner ∧ t.domainOf partner = some .trustedSas)

end PdTable

namespace Caps

def artIn (g : Caps) (pd slot : Nat) : Option ObjectKind :=
  (g.pds.capAt pd slot).bind fun cap => (g.cspace.lookup cap).map Prod.fst

def typBefund (g : Caps) (pd : Nat) (domain : Domain) (slot : Nat) : Option Nat :=
  match g.artIn pd slot with
  | none => none
  | some kind =>
      if kindIsHardware kind && domain != .hardwareLand then some 1
      else if kindIsPdControl kind && domain != .trustedSas then some 2
      else none

def kanalBefund (g : Caps) (pd slot : Nat) : Option Nat :=
  match g.artIn pd slot with
  | some (.endpoint id) => if id != (g.pds.chanOf pd).1 then some 5 else none
  | some (.notification id) => if id != (g.pds.chanOf pd).2 then some 5 else none
  | _ => none

def partnerBefund (g : Caps) (pd : Nat) : Option Nat :=
  match g.pds.partnerOf pd with
  | some t => if g.pds.domainOf t = some .trustedSas then none else some 4
  | none => some 4

def pdBefund (g : Caps) (owner : List OwnerEntry) (isLiveGlobal : ThreadId → Bool) (pd : Nat) :
    Option Nat :=
  match g.pds.domainOf pd with
  | none => none
  | some domain =>
      match (List.range (g.pds.cspaceLenVon pd)).findSome? (g.typBefund pd domain) with
      | some code => some code
      | none =>
          if domain ≠ .trustedSas ∧ g.pds.anyThread owner pd isLiveGlobal = true then some 3
          else if domain = .hardwareLand then
            match g.partnerBefund pd with
            | some code => some code
            | none => (List.range (g.pds.cspaceLenVon pd)).findSome? (g.kanalBefund pd)
          else none

/-- `domain_audit`: the code of the first anomaly, `0` without one. -/
def domainAudit (g : Caps) (owner : List OwnerEntry) (isLiveGlobal : ThreadId → Bool) : Nat :=
  ((List.range g.pds.pds.len).findSome? (g.pdBefund owner isLiveGlobal)).getD 0

def setIrqNtfn (g : Caps) (pd id : Nat) : Bool × Caps :=
  ((g.pds.setIrqNtfn pd id).1, { g with pds := (g.pds.setIrqNtfn pd id).2 })

variable {g g' : Caps} {owner : List OwnerEntry} {isLiveGlobal : ThreadId → Bool}

theorem artIn_of_le {pd slot : Nat} (h : g.pds.cspaceLenVon pd ≤ slot) :
    g.artIn pd slot = none := by
  have hcap : g.pds.capAt pd slot = none := if_neg (Nat.not_lt.mpr h)
  rw [artIn, hcap]
  rfl

theorem typBefund_eq_none {pd slot : Nat} {domain : Domain} :
    g.typBefund pd domain slot = none ↔ ∀ kind, g.artIn pd slot = some kind →
      (kindIsHardware kind = true → domain = .hardwareLand) ∧
        (kindIsPdControl kind = true → domain = .trustedSas) := by
  unfold typBefund
  cases hart : g.artIn pd slot with
  | none => simp
  | some kind =>
    simp only [Bool.and_eq_true, bne_iff_ne, ne_eq]
    split
    · next hhard =>
      refine ⟨nofun, fun h => ?_⟩
      exact absurd ((h kind rfl).1 hhard.1) hhard.2
    · next hhard =>
      split
      · next hctl =>
        refine ⟨nofun, fun h => ?_⟩
        exact absurd ((h kind rfl).2 hctl.1) hctl.2
      · next hctl =>
        refine ⟨fun _ k hk => ?_, fun _ => rfl⟩
        cases hk
        exact ⟨fun h => by_contra fun hne => hhard ⟨h, hne⟩,
          fun h => by_contra fun hne => hctl ⟨h, hne⟩⟩

theorem kanalBefund_eq_none {pd slot : Nat} :
    g.kanalBefund pd slot = none ↔ ∀ kind, g.artIn pd slot = some kind →
      (∀ id, kind = .endpoint id → id = (g.pds.chanOf pd).1) ∧
        ∀ id, kind = .notification id → id = (g.pds.chanOf pd).2 := by
  unfold kanalBefund
  cases hart : g.artIn pd slot with
  | none => simp
  | some kind => cases kind <;> simp

theorem partnerBefund_eq_none {pd : Nat} :
    g.partnerBefund pd = none ↔
      ∃ partner, g.pds.partnerOf pd = some partner ∧ g.pds.domainOf partner = some .trustedSas := by
  unfold partnerBefund
  cases g.pds.partnerOf pd with
  | none | some t => simp

theorem findSome_slots {pd : Nat} {f : Nat → Option Nat} {P : ObjectKind → Prop}
    (h : ∀ slot, f slot = none ↔ ∀ kind, g.artIn pd slot = some kind → P kind) :
    (List.range (g.pds.cspaceLenVon pd)).findSome? f = none ↔
      ∀ slot kind, g.artIn pd slot = some kind → P kind := by
  rw [List.findSome?_eq_none_iff]
  constructor
  · intro hall slot kind hart
    have hslot : slot < g.pds.cspaceLenVon pd := by
      by_contra hout
      rw [artIn_of_le (Nat.not_lt.mp hout)] at hart
      cases hart
    exact (h slot).mp (hall slot (List.mem_range.mpr hslot)) kind hart
  · intro hall slot _
    exact (h slot).mpr (hall slot)

theorem pdBefund_eq_none {pd : Nat} :
    g.pdBefund owner isLiveGlobal pd = none ↔
      g.pds.Gebunden owner isLiveGlobal pd ∧
        ∀ slot kind, g.artIn pd slot = some kind → g.pds.Vertraegt pd kind := by
  unfold pdBefund PdTable.Gebunden PdTable.Vertraegt
  cases hdom : g.pds.domainOf pd with
  | none => simp
  | some domain =>
    have htyp := findSome_slots (g := g) (f := g.typBefund pd domain)
      fun _ => typBefund_eq_none
    have hkanal := findSome_slots (g := g) (f := g.kanalBefund pd)
      fun _ => kanalBefund_eq_none
    simp only [Option.some.injEq, forall_eq']
    cases hfirst : (List.range (g.pds.cspaceLenVon pd)).findSome? (g.typBefund pd domain) with
    | some code =>
      refine ⟨nofun, fun h => ?_⟩
      have hnone := htyp.mpr fun slot kind hart =>
        ⟨(h.2 slot kind hart).1, (h.2 slot kind hart).2.1⟩
      rw [hfirst] at hnone
      cases hnone
    | none =>
      have htypes := htyp.mp hfirst
      dsimp only
      split
      · next hglobal =>
        refine ⟨nofun, fun h => ?_⟩
        rw [h.1.1 hglobal.1] at hglobal
        cases hglobal.2
      · next hglobal =>
        have hlocal : domain ≠ .trustedSas → g.pds.anyThread owner pd isLiveGlobal = false :=
          fun hne => by simpa [hne] using hglobal
        split
        · next hhard =>
          cases hpartner : g.partnerBefund pd with
          | some code =>
            refine ⟨nofun, fun h => ?_⟩
            rw [partnerBefund_eq_none.mpr (h.1.2 hhard)] at hpartner
            cases hpartner
          | none =>
            rw [hkanal]
            constructor
            · intro h
              refine ⟨⟨hlocal, fun _ => partnerBefund_eq_none.mp hpartner⟩, ?_⟩
              exact fun slot kind hart => ⟨(htypes slot kind hart).1,
                (htypes slot kind hart).2, fun _ => h slot kind hart⟩
            · exact fun h slot kind hart => (h.2 slot kind hart).2.2 hhard
        · next hsoft =>
          refine ⟨fun _ => ⟨⟨hlocal, fun h => absurd h hsoft⟩, fun slot kind hart => ?_⟩,
            fun _ => rfl⟩
          exact ⟨(htypes slot kind hart).1, (htypes slot kind hart).2, fun h => absurd h hsoft⟩

theorem typBefund_ne_zero {pd slot : Nat} {domain : Domain} :
    g.typBefund pd domain slot ≠ some 0 := by
  unfold typBefund
  cases g.artIn pd slot with
  | none => exact nofun
  | some kind =>
    dsimp only
    split
    · simp
    · split
      · simp
      · exact nofun

theorem kanalBefund_ne_zero {pd slot : Nat} : g.kanalBefund pd slot ≠ some 0 := by
  unfold kanalBefund
  split
  · split
    · simp
    · exact nofun
  · split
    · simp
    · exact nofun
  · exact nofun

theorem partnerBefund_ne_zero {pd : Nat} : g.partnerBefund pd ≠ some 0 := by
  unfold partnerBefund
  split
  · split
    · exact nofun
    · simp
  · simp

theorem findSome_ne_zero {f : Nat → Option Nat} (h : ∀ i, f i ≠ some 0) (l : List Nat) :
    l.findSome? f ≠ some 0 := by
  intro hfound
  obtain ⟨i, -, hi⟩ := List.exists_of_findSome?_eq_some hfound
  exact h i hi

theorem pdBefund_ne_zero {pd : Nat} : g.pdBefund owner isLiveGlobal pd ≠ some 0 := by
  unfold pdBefund
  cases g.pds.domainOf pd with
  | none => exact nofun
  | some domain =>
    dsimp only
    split
    · next code hcode =>
      rw [← hcode]
      exact findSome_ne_zero (fun _ => typBefund_ne_zero) _
    · split
      · simp
      · split
        · split
          · next code hcode =>
            rw [← hcode]
            exact partnerBefund_ne_zero
          · exact findSome_ne_zero (fun _ => kanalBefund_ne_zero) _
        · exact nofun

theorem domainAudit_eq_zero :
    g.domainAudit owner isLiveGlobal = 0 ↔ ∀ pd,
      g.pds.Gebunden owner isLiveGlobal pd ∧
        ∀ slot kind, g.artIn pd slot = some kind → g.pds.Vertraegt pd kind := by
  have hzero : g.domainAudit owner isLiveGlobal = 0 ↔
      (List.range g.pds.pds.len).findSome? (g.pdBefund owner isLiveGlobal) = none := by
    unfold domainAudit
    cases hfound : (List.range g.pds.pds.len).findSome? (g.pdBefund owner isLiveGlobal) with
    | none => simp
    | some code =>
      have hne := findSome_ne_zero (fun _ => pdBefund_ne_zero) (List.range g.pds.pds.len)
        (f := g.pdBefund owner isLiveGlobal)
      rw [hfound] at hne
      simpa using hne
  rw [hzero, List.findSome?_eq_none_iff]
  constructor
  · intro h pd
    by_cases hpd : pd < g.pds.pds.len
    · exact pdBefund_eq_none.mp (h pd (List.mem_range.mpr hpd))
    · have hdom : g.pds.domainOf pd = none := if_neg fun hused => hpd hused.1
      apply pdBefund_eq_none.mp
      unfold pdBefund
      rw [hdom]
  · intro h pd _
    exact pdBefund_eq_none.mpr (h pd)

def IrqAusnahme (g : Caps) (pd : Nat) (kind : ObjectKind) : Prop :=
  g.pds.domainOf pd = some .hardwareLand ∧ kind = .notification (g.pds.irqNtfnOf pd) ∧
    g.pds.irqNtfnOf pd ≠ (g.pds.chanOf pd).2

/-- What an installation must look like for the audit to pass afterwards: where the slot has a
place, the capability is not the interrupt notification of a backend, and another domain whose
cspace shares the place tolerates it. -/
def InstallationVertraeglich (g : Caps) (pd slot : Nat) (kind : ObjectKind) : Prop :=
  ∀ i, g.pds.platz pd slot = some i →
    ¬ g.IrqAusnahme pd kind ∧
      ∀ j k, j ≠ pd → g.pds.platz j k = some i → g.pds.Vertraegt j kind

theorem capAllowed_iff {pd : Nat} {cap : CapPtr} {domain : Domain} {kind : ObjectKind}
    {rights : Rights} {badge : Nat} (hdom : g.pds.domainOf pd = some domain)
    (hcap : g.cspace.lookup cap = some (kind, rights, badge)) :
    g.capAllowed pd cap = true ↔ domainAllowsKind domain kind = true ∧
      (domain = .hardwareLand → (∀ id, kind = .endpoint id → id = (g.pds.chanOf pd).1) ∧
        ∀ id, kind = .notification id → id = (g.pds.chanOf pd).2 ∨ id = g.pds.irqNtfnOf pd) := by
  have hpd : pd < g.pds.pds.len := by
    by_contra hout
    have hnone : g.pds.domainOf pd = none := if_neg fun hused => hout hused.1
    rw [hnone] at hdom
    cases hdom
  unfold capAllowed PdTable.chanOf PdTable.irqNtfnOf
  simp only [hdom, hcap, if_pos hpd]
  by_cases hallow : domainAllowsKind domain kind = true
  · by_cases hhard : domain = .hardwareLand
    · subst hhard
      cases kind <;> simp [hallow]
    · simp [hallow, hhard]
  · simp [hallow]

theorem capAllowed_vertraegt_iff {pd : Nat} {cap : CapPtr} {domain : Domain} {kind : ObjectKind}
    {rights : Rights} {badge : Nat} (hdom : g.pds.domainOf pd = some domain)
    (hcap : g.cspace.lookup cap = some (kind, rights, badge)) :
    (g.capAllowed pd cap = true ↔ g.pds.Vertraegt pd kind) ↔
      ¬ g.IrqAusnahme pd kind ∧ ¬ (kindIsHandler kind = true ∧ domain ≠ .trustedSas) := by
  rw [capAllowed_iff hdom hcap]
  unfold PdTable.Vertraegt IrqAusnahme
  rw [hdom]
  cases kind <;> cases domain <;>
    simp [domainAllowsKind, kindIsHardware, kindIsPdControl, kindIsHandler]
  case notification.hardwareLand id =>
    exact ⟨fun h heq => heq.symm.trans (h heq), fun h heq => heq.trans (h heq)⟩

theorem domainAudit_congr (hdom : ∀ pd, g'.pds.domainOf pd = g.pds.domainOf pd)
    (hchan : ∀ pd, g'.pds.chanOf pd = g.pds.chanOf pd)
    (hpartner : ∀ pd, g'.pds.partnerOf pd = g.pds.partnerOf pd)
    (hthread : ∀ pd, g'.pds.anyThread owner pd isLiveGlobal =
      g.pds.anyThread owner pd isLiveGlobal)
    (haudit : g.domainAudit owner isLiveGlobal = 0) :
    g'.domainAudit owner isLiveGlobal = 0 ↔
      ∀ pd slot kind, g'.artIn pd slot = some kind → g.pds.Vertraegt pd kind := by
  have hbound : ∀ pd, g'.pds.Gebunden owner isLiveGlobal pd ↔
      g.pds.Gebunden owner isLiveGlobal pd := by
    intro pd
    simp only [PdTable.Gebunden, hdom, hpartner, hthread]
  have hkind : ∀ pd kind, g'.pds.Vertraegt pd kind ↔ g.pds.Vertraegt pd kind := by
    intro pd kind
    simp only [PdTable.Vertraegt, hdom, hchan]
  rw [domainAudit_eq_zero] at haudit ⊢
  constructor
  · exact fun h pd slot kind hart => (hkind pd kind).mp ((h pd).2 slot kind hart)
  · intro h pd
    refine ⟨(hbound pd).mpr (haudit pd).1, fun slot kind hart => ?_⟩
    exact (hkind pd kind).mpr (h pd slot kind hart)

theorem artIn_installCap {pd slot i : Nat} (hplatz : g.pds.platz pd slot = some i) {cap : CapPtr}
    {kind : ObjectKind} {rights : Rights} {badge : Nat}
    (hcap : g.cspace.lookup cap = some (kind, rights, badge)) (j k : Nat) :
    ({ g with pds := g.pds.installCap pd slot cap } : Caps).artIn j k =
      if g.pds.platz j k = some i then some kind else g.artIn j k := by
  have hat := PdTable.capAt_poolSchreiben_of_platz hplatz (some cap) j k
  unfold artIn PdTable.installCap
  simp only [hat]
  split
  · simp [hcap]
  · rfl

theorem vertraegt_iff_of_allowed {pd : Nat} {domain : Domain} {cap : CapPtr}
    {kind : ObjectKind} {rights : Rights} {badge : Nat} (hdom : g.pds.domainOf pd = some domain)
    (hcap : g.cspace.lookup cap = some (kind, rights, badge))
    (hallow : g.capAllowed pd cap = true) :
    g.pds.Vertraegt pd kind ↔ ¬ g.IrqAusnahme pd kind := by
  have hagree := capAllowed_vertraegt_iff hdom hcap
  have hhandler : ¬ (kindIsHandler kind = true ∧ domain ≠ .trustedSas) := by
    have hkind := ((capAllowed_iff hdom hcap).mp hallow).1
    rintro ⟨hh, hne⟩
    cases kind <;> simp [kindIsHandler, domainAllowsKind, kindIsHardware] at hh hkind
    · exact hne hkind
    · exact hne hkind
  simpa [hallow, hhandler] using hagree

theorem domainAudit_installCap {pd slot : Nat} {cap : CapPtr} {kind : ObjectKind}
    {rights : Rights} {badge : Nat} (haudit : g.domainAudit owner isLiveGlobal = 0)
    (hcap : g.cspace.lookup cap = some (kind, rights, badge))
    (hallow : g.capAllowed pd cap = true) :
    ({ g with pds := g.pds.installCap pd slot cap } : Caps).domainAudit owner isLiveGlobal = 0 ↔
      g.InstallationVertraeglich pd slot kind := by
  have hused : g.pds.isUsed pd := by
    by_contra hnot
    simp [capAllowed, PdTable.domainOf, hnot] at hallow
  cases hplatz : g.pds.platz pd slot with
  | none =>
    have hsame : g.pds.installCap pd slot cap = g.pds :=
      PdTable.poolSchreiben_of_platz_none hused hplatz (some cap)
    rw [hsame]
    refine iff_of_true haudit fun i hi => ?_
    rw [hplatz] at hi
    cases hi
  | some i =>
    obtain ⟨domain, hdom⟩ : ∃ domain, g.pds.domainOf pd = some domain := ⟨_, if_pos hused⟩
    have hown := vertraegt_iff_of_allowed hdom hcap hallow
    have hpool := g.pds.poolSchreiben_eq pd slot (some cap)
    obtain ⟨cell, hcell⟩ := hpool
    have hpds : g.pds.installCap pd slot cap =
        { g.pds with cspacePool := ⟨g.pds.cspacePool.len, cell⟩ } := hcell
    have hverdict : ({ g with pds := g.pds.installCap pd slot cap } : Caps).domainAudit
          owner isLiveGlobal = 0 ↔ ∀ j k kind',
        ({ g with pds := g.pds.installCap pd slot cap } : Caps).artIn j k = some kind' →
          g.pds.Vertraegt j kind' := by
      apply domainAudit_congr _ _ _ _ haudit
      · exact fun j => by rw [hpds]; rfl
      · exact fun j => by rw [hpds]; rfl
      · exact fun j => by rw [hpds]; rfl
      · exact fun j => by rw [hpds]; rfl
    rw [hverdict]
    constructor
    · intro h i' hi'
      cases (hplatz.symm.trans hi')
      refine ⟨hown.mp (h pd slot kind ?_), fun j k _ hjk => h j k kind ?_⟩
      · rw [artIn_installCap hplatz hcap, if_pos hplatz]
      · rw [artIn_installCap hplatz hcap, if_pos hjk]
    · intro h j k kind' hart
      rw [artIn_installCap hplatz hcap] at hart
      split at hart
      · next hjk =>
        cases hart
        by_cases hj : j = pd
        · subst hj
          exact hown.mpr (h i hplatz).1
        · exact (h i hplatz).2 j k hj hjk
      · exact ((domainAudit_eq_zero.mp haudit) j).2 k kind' hart

theorem domainAudit_setIrqNtfn (haudit : g.domainAudit owner isLiveGlobal = 0) (pd id : Nat) :
    (g.setIrqNtfn pd id).2.domainAudit owner isLiveGlobal = 0 := by
  by_cases hused : g.pds.isUsed pd
  swap
  · have hsame : (g.setIrqNtfn pd id).2 = g := by
      simp [setIrqNtfn, PdTable.setIrqNtfn, hused]
    rw [hsame]
    exact haudit
  have hpds : (g.setIrqNtfn pd id).2.pds =
      { g.pds with pds := g.pds.pds.modify pd fun p => { p with irqNtfn := id } } := by
    simp [setIrqNtfn, PdTable.setIrqNtfn, hused]
  have hfield : ∀ {β : Type} (f : Pd → β), (∀ p : Pd, f { p with irqNtfn := id } = f p) →
      ∀ j, f ((g.setIrqNtfn pd id).2.pds.pds.cell j) = f (g.pds.pds.cell j) := by
    intro β f hf j
    rw [hpds]
    by_cases hj : j = pd
    · subst hj
      simp [hf]
    · rw [Slab.modify_cell_of_ne _ hj]
  have hlen : (g.setIrqNtfn pd id).2.pds.pds.len = g.pds.pds.len := by rw [hpds]; rfl
  have hpool : (g.setIrqNtfn pd id).2.pds.cspacePool = g.pds.cspacePool := by rw [hpds]
  have hlive : ∀ j, (g.setIrqNtfn pd id).2.pds.isUsed j ↔ g.pds.isUsed j := by
    intro j
    simp only [PdTable.isUsed, hlen, hfield Pd.used fun _ => rfl]
  have hart : ∀ j k, (g.setIrqNtfn pd id).2.artIn j k = g.artIn j k := by
    intro j k
    have hspace : (g.setIrqNtfn pd id).2.cspace = g.cspace := rfl
    simp only [artIn, PdTable.capAt, PdTable.cspaceLenVon, hspace, hlive, hpool,
      hfield Pd.cspaceLen fun _ => rfl, hfield Pd.cspaceStart fun _ => rfl]
    rfl
  rw [domainAudit_congr _ _ _ _ haudit]
  · intro j k kind hkind
    rw [hart] at hkind
    exact ((domainAudit_eq_zero.mp haudit) j).2 k kind hkind
  · intro j
    simp only [PdTable.domainOf, hlive, hfield Pd.domain fun _ => rfl]
  · intro j
    simp only [PdTable.chanOf, hlen, hfield Pd.chanEp fun _ => rfl,
      hfield Pd.chanNtfn fun _ => rfl]
  · intro j
    simp only [PdTable.partnerOf, hlen, hfield Pd.partner fun _ => rfl]
  · intro j
    simp only [PdTable.anyThread, hlive, hfield Pd.thread fun _ => rfl,
      hfield Pd.epoch fun _ => rfl]

/-- From tables that pass the audit: when an admitted installation passes it again, that the
interrupt notification never matters to it, and on which kinds admission and audit agree. -/
theorem domain_policy_agrees_iff (g : Caps) (owner : List OwnerEntry)
    (isLiveGlobal : ThreadId → Bool) (haudit : g.domainAudit owner isLiveGlobal = 0) :
    (∀ pd slot cap kind rights badge g', g.installCapChecked pd slot cap = (true, g') →
        g.cspace.lookup cap = some (kind, rights, badge) →
        (g'.domainAudit owner isLiveGlobal = 0 ↔ g.InstallationVertraeglich pd slot kind)) ∧
      (∀ pd id, (g.setIrqNtfn pd id).2.domainAudit owner isLiveGlobal = 0) ∧
      ∀ pd cap domain kind rights badge, g.pds.domainOf pd = some domain →
        g.cspace.lookup cap = some (kind, rights, badge) →
        ((g.capAllowed pd cap = true ↔ g.pds.Vertraegt pd kind) ↔
          ¬ g.IrqAusnahme pd kind ∧ ¬ (kindIsHandler kind = true ∧ domain ≠ .trustedSas)) := by
  refine ⟨?_, domainAudit_setIrqNtfn haudit, ?_⟩
  · intro pd slot cap kind rights badge g' hinst hcap
    unfold installCapChecked at hinst
    split at hinst
    · cases hinst
    · next hpass =>
      simp only [Prod.mk.injEq, true_and] at hinst
      subst hinst
      have hallow : g.capAllowed pd cap = true := by
        by_contra hnot
        exact hpass (.inl (by simpa using hnot))
      exact domainAudit_installCap haudit hcap hallow
  · exact fun pd cap domain kind rights badge hdom hcap => capAllowed_vertraegt_iff hdom hcap

def backendMitIrq : Caps :=
  let t := PdTable.attached 2 32
  let t := ((t.createMitBudgetUndCspace .trustedSas 0 0).map Prod.snd).getD t
  let t := ((t.createHardwareBackend 0 0 0 3).map Prod.snd).getD t
  { cspace := ((CapSpace.attached ⟨16, 16, by decide⟩).install (.notification 7) Rights.rw).2
    pds := (t.setIrqNtfn 1 7).2
    owner := fun _ => none }

/-- These tables pass the audit, and pass it with another interrupt notification. -/
theorem domain_policy_agrees_iff_backendMitIrq :
    backendMitIrq.domainAudit [] (fun _ => false) = 0 ∧
      (backendMitIrq.setIrqNtfn 1 9).2.domainAudit [] (fun _ => false) = 0 :=
  have haudit : backendMitIrq.domainAudit [] (fun _ => false) = 0 := by decide
  ⟨haudit, (domain_policy_agrees_iff backendMitIrq [] (fun _ => false) haudit).2.1 1 9⟩

/-- The backend may receive its interrupt notification and is then accused of holding it. -/
theorem install_irqNtfn_fails_audit :
    backendMitIrq.domainAudit [] (fun _ => false) = 0 ∧
      (backendMitIrq.installCapChecked 1 5 ⟨0, 0⟩).1 = true ∧
      (backendMitIrq.installCapChecked 1 5 ⟨0, 0⟩).2.domainAudit [] (fun _ => false) = 5 ∧
      ¬ ∀ (g g' : Caps) (owner : List OwnerEntry) (isLiveGlobal : ThreadId → Bool) (pd slot : Nat)
        (cap : CapPtr), g.domainAudit owner isLiveGlobal = 0 →
        g.installCapChecked pd slot cap = (true, g') → g'.domainAudit owner isLiveGlobal = 0 := by
  have hbefore : backendMitIrq.domainAudit [] (fun _ => false) = 0 := by decide
  have hinst : (backendMitIrq.installCapChecked 1 5 ⟨0, 0⟩).1 = true := by decide
  have hafter : (backendMitIrq.installCapChecked 1 5 ⟨0, 0⟩).2.domainAudit []
      (fun _ => false) = 5 := by decide
  refine ⟨hbefore, hinst, hafter, fun hall => ?_⟩
  have hzero := hall backendMitIrq (backendMitIrq.installCapChecked 1 5 ⟨0, 0⟩).2 [] (fun _ => false)
    1 5 ⟨0, 0⟩ hbefore (Prod.ext hinst rfl)
  rw [hafter] at hzero
  cases hzero

end Caps

end Caprock.Microkit
