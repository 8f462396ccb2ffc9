import Caprock.Microkit.Isolation

/-! # What creation and `free` do to the entries

`free` resets the entry it has just chained, so no entry of the table ever carries a
chain link: `Kurz`.  A walk over the free chain then ends at its head, creation and
`free` neither panic nor loop, and each of them leaves all entries but one as they
were, up to the run an entry describes.  One specification per operation says so.
-/

namespace Caprock.Microkit

open Execution

namespace PdTable

structure Kurz (t : PdTable) : Prop where
  next_zero : ∀ i, (t.pds.cell i).freilaufNext = 0
  kopf_lt : t.cspaceVergabe.kopf - 1 < t.pds.len ∨ t.cspaceVergabe.kopf = 0

theorem attached_kurz (npd npool : Nat) : (attached npd npool).Kurz where
  next_zero := by simp [attached, Pd.empty]
  kopf_lt := by simp [attached, Vergabe.neu]

variable {t t' : PdTable} {r : Except CspaceAbweisung (Nat × Nat)}

theorem Kurz.congr (h : t.Kurz) (hpds : t'.pds = t.pds) (hv : t'.cspaceVergabe = t.cspaceVergabe) :
    t'.Kurz where
  next_zero := by rw [hpds]; exact h.next_zero
  kopf_lt := by rw [hpds, hv]; exact h.kopf_lt

def PoolReicht (t : PdTable) (n : Nat) : Prop :=
  (t.cspaceVergabe.kopf ≠ 0 ∧ n ≤ (t.pds.cell (t.cspaceVergabe.kopf - 1)).cspaceLen) ∨
    t.cspaceVergabe.bump + n ≤ t.poolLen

instance (t : PdTable) (n : Nat) : Decidable (t.PoolReicht n) :=
  inferInstanceAs (Decidable (_ ∨ _))

theorem poolLen_lt (t : PdTable) : t.poolLen < 2 ^ 32 := by
  have h : t.poolLen ≤ u32Max := Nat.min_le_right _ _
  have hmax : u32Max = 2 ^ 32 - 1 := rfl
  omega

/-- Entry `p'` is entry `p` up to the run it describes. -/
def NurLauf (p p' : Pd) : Prop :=
  ∃ start len, p' = { p with cspaceStart := start, cspaceLen := len, freilaufNext := 0 }

theorem NurLauf.refl {p : Pd} (h : p.freilaufNext = 0) : NurLauf p p := by
  refine ⟨p.cspaceStart, p.cspaceLen, ?_⟩
  cases p
  subst h
  rfl

/-- `q` reads one field of an entry, and whether the entry is in use. -/
def Liest {β γ : Type} (q : PdTable → Nat → β) (feld : Pd → γ) : Prop :=
  ∀ {t t' : PdTable} {pd : Nat}, t'.pds.len = t.pds.len →
    (t'.pds.cell pd).used = (t.pds.cell pd).used →
    feld (t'.pds.cell pd) = feld (t.pds.cell pd) → q t' pd = q t pd

theorem Liest.of_eq {β γ : Type} {q : PdTable → Nat → β} {feld : Pd → γ} (f : Bool → γ → β)
    (h : ∀ t pd, q t pd = f (decide (t.isUsed pd)) (feld (t.pds.cell pd))) : Liest q feld := by
  intro t t' pd hlen hused hfeld
  have hiff : t'.isUsed pd ↔ t.isUsed pd := by simp only [isUsed, hlen, hused]
  rw [h, h, hfeld, decide_eq_decide.mpr hiff]

theorem Liest.nurLauf {β γ : Type} {q : PdTable → Nat → β} {feld : Pd → γ} (hq : Liest q feld)
    (hfeld : ∀ p start len,
      feld { p with cspaceStart := start, cspaceLen := len, freilaufNext := 0 } = feld p)
    {k : Nat} (hlen : t'.pds.len = t.pds.len) (h : NurLauf (t.pds.cell k) (t'.pds.cell k)) :
    q t' k = q t k := by
  obtain ⟨start, len, hcell⟩ := h
  exact hq hlen (by rw [hcell]) (by rw [hcell, hfeld])

structure Belegt (t : PdTable) (n : Nat) (r : Except CspaceAbweisung (Nat × Nat)) (v : Vergabe)
    (pds : Slab Pd) : Prop where
  len : pds.len = t.pds.len
  eintrag : ∀ i, NurLauf (t.pds.cell i) (pds.cell i)
  kopf_lt : v.kopf - 1 < t.pds.len ∨ v.kopf = 0
  reicht : (∃ lauf, r = .ok lauf) ↔ t.PoolReicht n

theorem Belegt.next_zero {n : Nat} {v : Vergabe} {pds : Slab Pd} (h : t.Belegt n r v pds)
    (i : Nat) : (pds.cell i).freilaufNext = 0 := by
  obtain ⟨start, len, hcell⟩ := h.eintrag i
  rw [hcell]

theorem Kurz.belegen (h : t.Kurz) {n : Nat} (hn : 0 < n) :
    ∃ r v pds, t.cspaceVergabe.belegen t.pds t.poolLen n = some (r, v, pds) ∧
      t.Belegt n r v pds := by
  by_cases hkopf : t.cspaceVergabe.kopf ≠ 0 ∧
      n ≤ (t.pds.cell (t.cspaceVergabe.kopf - 1)).cspaceLen
  · obtain ⟨hzero, hlen⟩ := hkopf
    have hkopf := lese_kopf h.next_zero h.kopf_lt hzero
    refine ⟨_, _, _, Vergabe.belegen_eq_kopf _ _ _ n hn hzero hkopf hlen, ?_⟩
    refine ⟨rfl, fun i => ?_, .inr rfl, fun _ => .inl ⟨hzero, hlen⟩, fun _ => ⟨_, rfl⟩⟩
    by_cases hi : i = t.cspaceVergabe.kopf - 1
    · exact ⟨_, _, by rw [hi]; exact Slab.modify_cell_self _ _ _⟩
    · simp only [AnkerAblage.schreibe, Slab.modify_cell_of_ne _ hi]
      exact NurLauf.refl (h.next_zero i)
  · -- The head is absent or too short, and it ends the chain.
    have hfrisch : t.cspaceVergabe.kopf = 0 ∨
        ∃ a, AnkerAblage.lese t.pds (t.cspaceVergabe.kopf - 1) = some a ∧ a.len < n ∧
          a.naechster = 0 := by
      by_cases hzero : t.cspaceVergabe.kopf = 0
      · exact .inl hzero
      · refine .inr ⟨_, lese_kopf h.next_zero h.kopf_lt hzero, ?_, rfl⟩
        have hlen : ¬ n ≤ (t.pds.cell (t.cspaceVergabe.kopf - 1)).cspaceLen :=
          fun hle => hkopf ⟨hzero, hle⟩
        exact Nat.lt_of_not_le hlen
    refine ⟨_, _, _, Vergabe.belegen_eq_frisch _ _ _ n hn hfrisch, ?_⟩
    have hpool := t.poolLen_lt
    have heintrag : ∀ i, NurLauf (t.pds.cell i) (t.pds.cell i) :=
      fun i => NurLauf.refl (h.next_zero i)
    rcases t.cspaceVergabe.frisch_cases t.poolLen n with ⟨hvoll, hf⟩ | ⟨-, hfit, hf⟩
    · rw [hf]
      refine ⟨rfl, heintrag, h.kopf_lt, ?_, ?_⟩
      · rintro ⟨lauf, hlauf⟩
        cases hlauf
      · rintro (hreicht | hreicht)
        · exact absurd hreicht hkopf
        · omega
    · rw [hf]
      exact ⟨rfl, heintrag, h.kopf_lt, fun _ => .inr hfit, fun _ => ⟨_, rfl⟩⟩

/-- No entry changed but for its run. -/
structure Unveraendert (t t' : PdTable) : Prop where
  len : t'.pds.len = t.pds.len
  eintrag : ∀ k, NurLauf (t.pds.cell k) (t'.pds.cell k)

/-- The free entry `i` became a live domain with budget `budget` and no handler. -/
structure Eingesetzt (t t' : PdTable) (i budget : Nat) : Prop where
  len : t'.pds.len = t.pds.len
  lt : i < t.pds.len
  frei : (t.pds.cell i).used = false
  used : (t'.pds.cell i).used = true
  capBudget : (t'.pds.cell i).capBudget = budget
  handlerPd : (t'.pds.cell i).handlerPd = keinHandlerPd
  eintrag : ∀ k, k ≠ i → NurLauf (t.pds.cell k) (t'.pds.cell k)

/-- The live domain `pd` is gone. -/
structure Geleert (t t' : PdTable) (pd : Nat) : Prop where
  len : t'.pds.len = t.pds.len
  used : t.isUsed pd
  frei : (t'.pds.cell pd).used = false
  eintrag : ∀ k, k ≠ pd → t'.pds.cell k = t.pds.cell k

theorem Unveraendert.of_pds (h : t.Kurz) (hpds : t'.pds = t.pds) :
    t.Unveraendert t' where
  len := by rw [hpds]
  eintrag := fun k => by rw [hpds]; exact NurLauf.refl (h.next_zero k)

theorem Belegt.unveraendert {n : Nat} {v : Vergabe} (h : t.Belegt n r v t'.pds) :
    t.Unveraendert t' :=
  ⟨h.len, h.eintrag⟩

theorem Belegt.kurz {n : Nat} (h : t.Belegt n r t'.cspaceVergabe t'.pds) :
    t'.Kurz where
  next_zero := h.next_zero
  kopf_lt := by rw [h.len]; exact h.kopf_lt

theorem Belegt.eingesetzt {n i budget : Nat} {p : Pd} {pds : Slab Pd} {v : Vergabe}
    (h : t.Belegt n r v pds) (hslot : t.freienSlotSuchen = some i) (hpds : t'.pds = pds.set i p)
    (hused : p.used = true) (hbudget : p.capBudget = budget)
    (hhandler : p.handlerPd = keinHandlerPd) : t.Eingesetzt t' i budget := by
  obtain ⟨hi, hfree⟩ := freienSlotSuchen_eq_some hslot
  have hself : t'.pds.cell i = p := by rw [hpds, Slab.set_cell_self]
  refine ⟨by rw [hpds, Slab.set_len, h.len], hi, hfree, by rw [hself, hused],
    by rw [hself, hbudget], by rw [hself, hhandler], fun k hk => ?_⟩
  rw [hpds, Slab.set_cell_of_ne _ hk]
  exact h.eintrag k

theorem Belegt.eingesetzt_kurz {n i : Nat} {p : Pd} {pds : Slab Pd} {v : Vergabe}
    (h : t.Belegt n r v pds) (hpds : t'.pds = pds.set i p) (hv : t'.cspaceVergabe = v)
    (hnext : p.freilaufNext = 0) :
    t'.Kurz where
  next_zero := by
    intro k
    by_cases hk : k = i
    · rw [hpds, hk, Slab.set_cell_self, hnext]
    · rw [hpds, Slab.set_cell_of_ne _ hk, h.next_zero]
  kopf_lt := by
    rw [hpds, hv, Slab.set_len, h.len]
    exact h.kopf_lt

/-- What the account and the entries look like after a creation. -/
theorem create_spec (h : t.Kurz) (domain : Domain) (budget plaetze : Nat) :
    ∃ r t', t.createMitBudgetUndCspace domain budget plaetze = some (r, t') ∧ t'.Kurz ∧
      t'.budgetDeckel = t.budgetDeckel ∧
      (t.Unveraendert t' ∧ t'.budgetVorrat = t.budgetVorrat ∨
        ∃ i b, t.Eingesetzt t' i (b % 2 ^ 16) ∧ b ≤ t.budgetDeckel ∧ b ≤ t.budgetVorrat ∧
          t'.budgetVorrat = t.budgetVorrat - b) := by
  unfold createMitBudgetUndCspace
  cases hanf : anforderungAufloesen budget plaetze t.budgetDeckel capBudgetPerPd with
  | error e => exact ⟨_, _, rfl, h.congr rfl rfl, rfl, .inl ⟨.of_pds h rfl, rfl⟩⟩
  | ok anf =>
    dsimp only
    by_cases hvorrat : t.budgetVorrat < anf.budget
    · rw [if_pos hvorrat]
      exact ⟨_, _, rfl, h.congr rfl rfl, rfl, .inl ⟨.of_pds h rfl, rfl⟩⟩
    · rw [if_neg hvorrat]
      cases hslot : t.freienSlotSuchen with
      | none => exact ⟨_, _, rfl, h, rfl, .inl ⟨.of_pds h rfl, rfl⟩⟩
      | some i =>
        obtain ⟨-, hdeckel, -⟩ := anforderungAufloesen_ok hanf
        obtain ⟨r, v, pds, hbel, hb⟩ :=
          h.belegen (anforderungAufloesen_plaetze_pos (by decide) hanf)
        rw [hbel]
        cases r with
        | error e => exact ⟨_, _, rfl, hb.kurz, rfl, .inl ⟨hb.unveraendert, rfl⟩⟩
        | ok lauf =>
          refine ⟨_, _, rfl, hb.eingesetzt_kurz rfl rfl rfl, rfl, .inr ⟨i, anf.budget, ?_⟩⟩
          exact ⟨hb.eingesetzt hslot rfl rfl rfl rfl, hdeckel, Nat.le_of_not_lt hvorrat, rfl⟩

/-- A backend is refused: its partner is no entry, no entry is free, or the pool does
not serve a default-sized run. -/
def BackendAbgewiesen (t : PdTable) (partner : Nat) : Prop :=
  t.pds.len ≤ partner ∨ t.freienSlotSuchen = none ∨ ¬ t.PoolReicht ncaps

instance (t : PdTable) (partner : Nat) : Decidable (t.BackendAbgewiesen partner) :=
  inferInstanceAs (Decidable (_ ∨ _ ∨ _))

theorem createHardwareBackend_spec (h : t.Kurz) (partner backendId ep ntfn : Nat) :
    ∃ r t', t.createHardwareBackend partner backendId ep ntfn = some (r, t') ∧ t'.Kurz ∧
      t'.budgetDeckel = t.budgetDeckel ∧ t'.budgetVorrat = t.budgetVorrat ∧
      (t.BackendAbgewiesen partner ∧ t.Unveraendert t' ∨
        ¬ t.BackendAbgewiesen partner ∧ ∃ i, t.Eingesetzt t' i capBudgetPerPd) := by
  unfold createHardwareBackend
  by_cases hpartner : t.pds.len ≤ partner
  · rw [if_pos hpartner]
    exact ⟨_, _, rfl, h, rfl, rfl, .inl ⟨.inl hpartner, .of_pds h rfl⟩⟩
  · rw [if_neg hpartner]
    cases hslot : t.freienSlotSuchen with
    | none => exact ⟨_, _, rfl, h, rfl, rfl, .inl ⟨.inr (.inl hslot), .of_pds h rfl⟩⟩
    | some i =>
      obtain ⟨r, v, pds, hbel, hb⟩ := h.belegen (n := ncaps) (by decide)
      rw [hbel]
      cases r with
      | error e =>
        have hnot : ¬ t.PoolReicht ncaps := by
          intro hreicht
          obtain ⟨lauf, hlauf⟩ := hb.reicht.mpr hreicht
          cases hlauf
        exact ⟨_, _, rfl, hb.kurz, rfl, rfl, .inl ⟨.inr (.inr hnot), hb.unveraendert⟩⟩
      | ok lauf =>
        have hreicht : t.PoolReicht ncaps := hb.reicht.mp ⟨lauf, rfl⟩
        have hnot : ¬ t.BackendAbgewiesen partner := by
          rintro (hlen | hnone | hpool)
          · exact hpartner hlen
          · rw [hslot] at hnone
            cases hnone
          · exact hpool hreicht
        refine ⟨_, _, rfl, hb.eingesetzt_kurz rfl rfl rfl, rfl, rfl, .inr ⟨hnot, i, ?_⟩⟩
        exact hb.eingesetzt hslot rfl rfl rfl rfl

/-- `free` credits the budget of the entry, up to the whole supply. -/
theorem free_spec (h : t.Kurz) (pd : Nat) :
    ∃ r t', t.free pd = some (r, t') ∧ t'.Kurz ∧ t'.budgetDeckel = t.budgetDeckel ∧
      (t' = t ∨ t.Geleert t' pd ∧ t'.budgetVorrat =
        min (t.budgetVorrat + (t.pds.cell pd).capBudget) capSlotsForAllPds) := by
  unfold free
  by_cases hused : t.isUsed pd
  · have hlt : pd < t.pds.len := hused.1
    simp only [if_pos hused, Vergabe.freigeben, AnkerAblage.lese, Slab.get, if_pos hlt,
      Option.map_some, AnkerAblage.schreibe]
    refine ⟨_, _, rfl, ⟨fun k => ?_, ?_⟩, rfl, .inr ⟨⟨rfl, hused, ?_, fun k hk => ?_⟩, rfl⟩⟩
    · by_cases hk : k = pd
      · rw [hk, Slab.set_cell_self]
        rfl
      · rw [Slab.set_cell_of_ne _ hk, Slab.modify_cell_of_ne _ hk, h.next_zero]
    · left
      simp only [Slab.set_len, Slab.modify_len]
      omega
    · rw [Slab.set_cell_self]
      rfl
    · rw [Slab.set_cell_of_ne _ hk, Slab.modify_cell_of_ne _ hk]
  · rw [if_neg hused]
    exact ⟨_, _, rfl, h, rfl, .inl rfl⟩

/-- The run of every entry lies inside the pool. -/
structure Innen (t : PdTable) : Prop where
  kurz : t.Kurz
  bump_le : t.cspaceVergabe.bump ≤ t.cspacePool.len
  lauf_le : ∀ i, (t.pds.cell i).cspaceStart + (t.pds.cell i).cspaceLen ≤ t.cspacePool.len

theorem attached_innen (npd npool : Nat) : (attached npd npool).Innen where
  kurz := attached_kurz npd npool
  bump_le := Nat.zero_le _
  lauf_le := fun _ => Nat.zero_le _

theorem Innen.congr (h : t.Innen) (hpds : t'.pds = t.pds)
    (hv : t'.cspaceVergabe = t.cspaceVergabe) (hlen : t'.cspacePool.len = t.cspacePool.len) :
    t'.Innen where
  kurz := h.kurz.congr hpds hv
  bump_le := by rw [hv, hlen]; exact h.bump_le
  lauf_le := by rw [hpds, hlen]; exact h.lauf_le

/-- A grant leaves all runs inside, and gives out one that is. -/
theorem Innen.belegen (h : t.Innen) {n : Nat} (hn : 0 < n) {v : Vergabe} {pds : Slab Pd}
    (hbel : t.cspaceVergabe.belegen t.pds t.poolLen n = some (r, v, pds)) :
    ({ t with pds := pds, cspaceVergabe := v } : PdTable).Innen ∧
      ∀ start len, r = .ok (start, len) → start + len ≤ t.cspacePool.len := by
  obtain ⟨r', v', pds', hbel', hb⟩ := h.kurz.belegen hn
  cases hbel.symm.trans hbel'
  have hkurz : ({ t with pds := pds, cspaceVergabe := v } : PdTable).Kurz :=
    ⟨hb.next_zero, by rw [show ({ t with pds := pds, cspaceVergabe := v } : PdTable).pds.len =
      t.pds.len from hb.len]; exact hb.kopf_lt⟩
  have hpool : t.poolLen ≤ t.cspacePool.len := Nat.min_le_left _ _
  by_cases hkopf : t.cspaceVergabe.kopf ≠ 0 ∧
      n ≤ (t.pds.cell (t.cspaceVergabe.kopf - 1)).cspaceLen
  · -- The head is handed on; its entry keeps describing the same run.
    obtain ⟨hzero, hlen⟩ := hkopf
    have hlese := lese_kopf h.kurz.next_zero h.kurz.kopf_lt hzero
    cases hbel.symm.trans (Vergabe.belegen_eq_kopf _ _ _ n hn hzero hlese hlen)
    refine ⟨⟨hkurz, h.bump_le, fun i => ?_⟩, fun start len hr => ?_⟩
    · dsimp only [AnkerAblage.schreibe]
      rw [Slab.modify_cell]
      split
      · exact h.lauf_le _
      · exact h.lauf_le i
    · cases hr
      exact h.lauf_le _
  · have hfrisch : t.cspaceVergabe.kopf = 0 ∨
        ∃ a, AnkerAblage.lese t.pds (t.cspaceVergabe.kopf - 1) = some a ∧ a.len < n ∧
          a.naechster = 0 := by
      by_cases hzero : t.cspaceVergabe.kopf = 0
      · exact .inl hzero
      · refine .inr ⟨_, lese_kopf h.kurz.next_zero h.kurz.kopf_lt hzero, ?_, rfl⟩
        exact Nat.lt_of_not_le fun hle => hkopf ⟨hzero, hle⟩
    cases hbel.symm.trans (Vergabe.belegen_eq_frisch _ _ _ n hn hfrisch)
    rcases t.cspaceVergabe.frisch_cases t.poolLen n with ⟨-, hf⟩ | ⟨-, hfit, hf⟩
    · rw [hf] at hkurz ⊢
      exact ⟨⟨hkurz, h.bump_le, h.lauf_le⟩, fun start len hr => by cases hr⟩
    · rw [hf] at hkurz ⊢
      refine ⟨⟨hkurz, hfit.trans hpool, h.lauf_le⟩, fun start len hr => ?_⟩
      cases hr
      exact hfit.trans hpool

/-- A new content of one entry, with a run inside the pool. -/
theorem Innen.set (h : t.Innen) {i : Nat} {p : Pd} (hpds : t'.pds = t.pds.set i p)
    (hv : t'.cspaceVergabe = t.cspaceVergabe) (hlen : t'.cspacePool.len = t.cspacePool.len)
    (hnext : p.freilaufNext = 0) (hlauf : p.cspaceStart + p.cspaceLen ≤ t.cspacePool.len) :
    t'.Innen where
  kurz := by
    refine ⟨fun k => ?_, ?_⟩
    · rw [hpds, Slab.set_cell]
      split
      · exact hnext
      · exact h.kurz.next_zero k
    · rw [hpds, hv, Slab.set_len]
      exact h.kurz.kopf_lt
  bump_le := by rw [hv, hlen]; exact h.bump_le
  lauf_le := by
    intro k
    rw [hpds, hlen, Slab.set_cell]
    split
    · exact hlauf
    · exact h.lauf_le k

theorem Angelegt.innen {op : Op} (ha : t.Angelegt op t') (h : t.Innen) : t'.Innen := by
  cases ha with
  | gleich hpool hpds hv => exact h.congr hpds hv (by rw [hpool])
  | ohneLauf hpool hn _ hbel =>
    exact (h.belegen hn hbel).1.congr rfl rfl (by rw [hpool])
  | mitLauf hpool hn _ hbel _ hpds hneu =>
    obtain ⟨hinnen, hlauf⟩ := h.belegen hn hbel
    exact hinnen.set hpds rfl (by rw [hpool]) hneu.next (hlauf _ _ rfl)

theorem free_innen (h : t.Innen) {pd : Nat} {r : Bool × PdTable} (hr : t.free pd = some r) :
    r.2.Innen := by
  obtain ⟨b, t', ht', hkurz, -, -⟩ := free_spec h.kurz pd
  cases hr.symm.trans ht'
  unfold free at hr
  by_cases hused : t.isUsed pd
  · simp only [if_pos hused, Vergabe.freigeben, AnkerAblage.lese, Slab.get, if_pos hused.1,
      Option.map_some, AnkerAblage.schreibe] at hr
    cases hr
    refine ⟨hkurz, h.bump_le, fun i => ?_⟩
    rw [Slab.set_cell]
    split
    · exact Nat.zero_le _
    · rw [Slab.modify_cell]
      split
      · exact h.lauf_le _
      · exact h.lauf_le i
  · rw [if_neg hused] at hr
    cases hr
    exact h

theorem step_innen {op : Op} (h : t.Innen) (hstep : t.step op = some t') : t'.Innen := by
  have hwrite : ∀ pd slot c, (t.poolSchreiben pd slot c).Innen := by
    intro pd slot c
    obtain ⟨cell, heq⟩ := t.poolSchreiben_eq pd slot c
    rw [heq]
    exact h.congr rfl rfl rfl
  cases op with
  | create => exact (angelegt_create hstep).innen h
  | createHardwareBackend => exact (angelegt_createHardwareBackend hstep).innen h
  | free pd =>
    obtain ⟨r, hr, rfl⟩ := Option.map_eq_some_iff.mp hstep
    exact free_innen h hr
  | setBudgetDeckel deckel =>
    cases hstep
    exact h.congr rfl rfl rfl
  | installCap pd slot cap =>
    cases hstep
    exact hwrite pd slot (some cap)
  | clearCap pd slot =>
    cases hstep
    exact hwrite pd slot none

end PdTable

end Caprock.Microkit
