import Mathlib
import Caprock.Microkit.Grant

/-! # Conservation of cspace places and of the capability budget

Two accounts run through the table.  The pool account: every place belongs to the
rest behind the bump pointer, to a run on the free chain or to the run of a live
domain.  The budget account: what is left of the supply and what live domains were
promised add up to the whole supply.

Both are kept by the creation path that books.  The pool account is broken by the
first `free` of a live domain, because the entry that carries the chained run is
reset right after it was chained.  The budget account is broken by the first
backend, which is promised a budget that nothing pays for.
-/

namespace Caprock.Microkit

open Execution

namespace PdTable

def Konto (t : PdTable) : Prop :=
  t.budgetVorrat + ∑ pd ∈ Finset.range t.pds.len, t.budgetOf pd = capSlotsForAllPds

variable {t t' : PdTable}

theorem sum_budgetOf_of_eq_off {pd : Nat} (hlen : t'.pds.len = t.pds.len) (hpd : pd < t.pds.len)
    (hoff : ∀ i, i ≠ pd → t'.budgetOf i = t.budgetOf i) :
    (∑ i ∈ Finset.range t'.pds.len, t'.budgetOf i) + t.budgetOf pd =
      (∑ i ∈ Finset.range t.pds.len, t.budgetOf i) + t'.budgetOf pd := by
  have hmem : pd ∈ Finset.range t.pds.len := Finset.mem_range.mpr hpd
  have hrest : ∑ i ∈ (Finset.range t.pds.len).erase pd, t'.budgetOf i =
      ∑ i ∈ (Finset.range t.pds.len).erase pd, t.budgetOf i := by
    apply Finset.sum_congr rfl
    intro i hi
    exact hoff i (Finset.ne_of_mem_erase hi)
  have hnew := Finset.add_sum_erase _ (fun i => t'.budgetOf i) hmem
  have hold := Finset.add_sum_erase _ (fun i => t.budgetOf i) hmem
  rw [hlen]
  omega

theorem budgetOf_eq_zero {pd : Nat} (h : (t.pds.cell pd).used = false) : t.budgetOf pd = 0 := by
  simp [budgetOf, isUsed, h]

theorem liest_budgetOf : Liest budgetOf Pd.capBudget :=
  Liest.of_eq (fun u n => if u then n else 0) fun t pd => by simp [budgetOf]

theorem NurLauf.budgetOf_eq {k : Nat} (hlen : t'.pds.len = t.pds.len)
    (h : NurLauf (t.pds.cell k) (t'.pds.cell k)) : t'.budgetOf k = t.budgetOf k :=
  liest_budgetOf.nurLauf (fun _ _ _ => rfl) hlen h

theorem Unveraendert.sum_budgetOf (h : t.Unveraendert t') :
    ∑ k ∈ Finset.range t'.pds.len, t'.budgetOf k =
      ∑ k ∈ Finset.range t.pds.len, t.budgetOf k := by
  rw [h.len]
  apply Finset.sum_congr rfl
  intro k _
  exact NurLauf.budgetOf_eq h.len (h.eintrag k)

theorem Eingesetzt.sum_budgetOf {i budget : Nat} (h : t.Eingesetzt t' i budget) :
    ∑ k ∈ Finset.range t'.pds.len, t'.budgetOf k =
      (∑ k ∈ Finset.range t.pds.len, t.budgetOf k) + budget := by
  have hsum := sum_budgetOf_of_eq_off h.len h.lt
    fun k hk => NurLauf.budgetOf_eq h.len (h.eintrag k hk)
  have hnew : t'.budgetOf i = budget := by
    have hu : t'.isUsed i := ⟨by rw [h.len]; exact h.lt, h.used⟩
    rw [budgetOf, if_pos hu, h.capBudget]
  rw [budgetOf_eq_zero h.frei, hnew] at hsum
  omega

theorem Geleert.sum_budgetOf {pd : Nat} (h : t.Geleert t' pd) :
    (∑ k ∈ Finset.range t'.pds.len, t'.budgetOf k) + (t.pds.cell pd).capBudget =
      ∑ k ∈ Finset.range t.pds.len, t.budgetOf k := by
  have hoff : ∀ k, k ≠ pd → t'.budgetOf k = t.budgetOf k := by
    intro k hk
    exact liest_budgetOf h.len (by rw [h.eintrag k hk]) (by rw [h.eintrag k hk])
  have hsum := sum_budgetOf_of_eq_off h.len h.used.1 hoff
  have hold : t.budgetOf pd = (t.pds.cell pd).capBudget := by rw [budgetOf, if_pos h.used]
  rwa [budgetOf_eq_zero h.frei, hold, Nat.add_zero] at hsum

/-- The operations the account speaks of; the bound on single budgets is a `u16`. -/
inductive KontoOp where
  | create (domain : Domain) (budget plaetze : Nat)
  | createHardwareBackend (partner backendId ep ntfn : Nat)
  | free (pd : Nat)
  | setBudgetDeckel (deckel : UInt16)

def KontoOp.op : KontoOp → Op
  | .create domain budget plaetze => .create domain budget plaetze
  | .createHardwareBackend partner backendId ep ntfn =>
      .createHardwareBackend partner backendId ep ntfn
  | .free pd => .free pd
  | .setBudgetDeckel deckel => .setBudgetDeckel deckel.toNat

def kontoStep (t : PdTable) (op : KontoOp) : Option PdTable :=
  t.step op.op

def KeinBackend (t : PdTable) : KontoOp → Prop
  | .createHardwareBackend partner _ _ _ => t.BackendAbgewiesen partner
  | _ => True

structure KontoInv (t : PdTable) : Prop extends Kurz t where
  deckel : t.budgetDeckel < 2 ^ 16
  konto : t.Konto

theorem attached_kontoInv (npd npool : Nat) : (attached npd npool).KontoInv where
  toKurz := attached_kurz npd npool
  deckel := by
    have hdeckel : (attached npd npool).budgetDeckel = 16 := rfl
    omega
  konto := by simp [Konto, attached, budgetOf, isUsed, Pd.empty]

theorem create_kontoInv (h : t.KontoInv) (domain : Domain) (budget plaetze : Nat) :
    ∃ r t', t.createMitBudgetUndCspace domain budget plaetze = some (r, t') ∧ t'.KontoInv := by
  obtain ⟨r, t', hcreate, hkurz, hdeckel, hcases⟩ := create_spec h.toKurz domain budget plaetze
  have hbound := h.deckel
  have hkonto := h.konto
  rw [Konto] at hkonto
  refine ⟨r, t', hcreate, hkurz, by rw [hdeckel]; exact hbound, ?_⟩
  rcases hcases with ⟨hsame, hvorrat⟩ | ⟨i, b, hneu, hb, hgedeckt, hvorrat⟩
  · rw [Konto, hsame.sum_budgetOf, hvorrat, hkonto]
  · -- The bound is a `u16`, so the cast of the budget loses nothing.
    rw [Nat.mod_eq_of_lt (by omega)] at hneu
    rw [Konto, hneu.sum_budgetOf, hvorrat]
    omega

theorem createHardwareBackend_kontoInv (h : t.KontoInv) (partner backendId ep ntfn : Nat) :
    ∃ r t', t.createHardwareBackend partner backendId ep ntfn = some (r, t') ∧
      (t.BackendAbgewiesen partner ∧ t'.KontoInv ∨
        ¬ t.BackendAbgewiesen partner ∧ ¬ t'.Konto) := by
  obtain ⟨r, t', hcreate, hkurz, hdeckel, hvorrat, hcases⟩ :=
    createHardwareBackend_spec h.toKurz partner backendId ep ntfn
  have hkonto := h.konto
  rw [Konto] at hkonto
  refine ⟨r, t', hcreate, ?_⟩
  rcases hcases with ⟨hab, hsame⟩ | ⟨hnot, i, hneu⟩
  · refine .inl ⟨hab, hkurz, by rw [hdeckel]; exact h.deckel, ?_⟩
    rw [Konto, hsame.sum_budgetOf, hvorrat, hkonto]
  · refine .inr ⟨hnot, ?_⟩
    have hpos : capBudgetPerPd = 10 := rfl
    rw [Konto, hneu.sum_budgetOf, hvorrat]
    omega

theorem free_kontoInv (h : t.KontoInv) (pd : Nat) :
    ∃ r t', t.free pd = some (r, t') ∧ t'.KontoInv := by
  obtain ⟨r, t', hfree, hkurz, hdeckel, hcases⟩ := free_spec h.toKurz pd
  refine ⟨r, t', hfree, ?_⟩
  rcases hcases with rfl | ⟨hleer, hvorrat⟩
  · exact h
  · refine ⟨hkurz, by rw [hdeckel]; exact h.deckel, ?_⟩
    have hkonto := h.konto
    have hsum := hleer.sum_budgetOf
    rw [Konto] at hkonto ⊢
    omega

theorem KontoInv.setBudgetDeckel (h : t.KontoInv) {deckel : Nat} (hdeckel : deckel < 2 ^ 16) :
    (t.setBudgetDeckel deckel).KontoInv :=
  ⟨h.toKurz.congr rfl rfl, hdeckel, h.konto⟩

theorem kontoStep_inv (t : PdTable) (op : KontoOp) (h : t.KontoInv) (hok : t.KeinBackend op) :
    ∃ t', t.kontoStep op = some t' ∧ t'.KontoInv := by
  cases op with
  | create domain budget plaetze =>
    obtain ⟨r, t', hr, hinv⟩ := create_kontoInv h domain budget plaetze
    exact ⟨t', by simp [kontoStep, KontoOp.op, step, hr], hinv⟩
  | createHardwareBackend partner backendId ep ntfn =>
    obtain ⟨r, t', hr, ⟨-, hinv⟩ | ⟨hnot, -⟩⟩ :=
      createHardwareBackend_kontoInv h partner backendId ep ntfn
    · exact ⟨t', by simp [kontoStep, KontoOp.op, step, hr], hinv⟩
    · exact absurd hok hnot
  | free pd =>
    obtain ⟨r, t', hr, hinv⟩ := free_kontoInv h pd
    exact ⟨t', by simp [kontoStep, KontoOp.op, step, hr], hinv⟩
  | setBudgetDeckel deckel => exact ⟨_, rfl, h.setBudgetDeckel deckel.toNat_lt⟩

theorem kontoStep_not_konto (t : PdTable) (op : KontoOp) (h : t.KontoInv)
    (hnot : ¬ t.KeinBackend op) : ∃ t', t.kontoStep op = some t' ∧ ¬ t'.Konto := by
  cases op with
  | createHardwareBackend partner backendId ep ntfn =>
    obtain ⟨r, t', hr, ⟨hab, -⟩ | ⟨-, hbroken⟩⟩ :=
      createHardwareBackend_kontoInv h partner backendId ep ntfn
    · exact absurd hab hnot
    · exact ⟨t', by simp [kontoStep, KontoOp.op, step, hr], hbroken⟩
  | create domain budget plaetze | free pd | setBudgetDeckel deckel => exact absurd trivial hnot

/-- For every table and every sequence of creations, frees and new bounds, the account
balances in every state passed through exactly when every backend was refused. -/
theorem run_konto_iff (npd npool : Nat) (ops : List KontoOp) :
    (∀ xs, xs <+: ops → ∃ t, run kontoStep (attached npd npool) xs = some t ∧ t.Konto) ↔
      Admissible kontoStep KeinBackend (attached npd npool) ops :=
  forall_prefix_iff_admissible (fun _ h => h.konto) kontoStep_inv kontoStep_not_konto
    (attached_kontoInv npd npool) ops

/-- A domain, then a backend that comes and goes: the supply is whole again while the
first domain still holds its budget. -/
theorem run_backend_free_overpromises :
    ∃ t, run kontoStep (attached 2 64)
        [.create .trustedSas 0 0, .createHardwareBackend 0 1 2 3, .free 1] = some t ∧
      t.budgetVorrat = capSlotsForAllPds ∧ t.budgetOf 0 = 10 ∧ ¬ t.Konto := by
  refine ⟨_, rfl, by decide, by decide, ?_⟩
  unfold Konto
  decide

/-- Who a pool place belongs to: nobody yet, a chained run, or a live domain. -/
inductive Traeger where
  | rest
  | frei (anker : Nat)
  | pd (pd : Nat)
  deriving DecidableEq

/-- Entries reached from link `i`; a chain that is longer than the table is cut off. -/
def ketteAb (pds : Slab Pd) : Nat → Nat → List Nat
  | 0, _ => []
  | fuel + 1, i => if i = 0 then [] else (i - 1) :: ketteAb pds fuel (pds.cell (i - 1)).freilaufNext

def kette (t : PdTable) : List Nat :=
  ketteAb t.pds (t.pds.len + 1) t.cspaceVergabe.kopf

def Gehoert (t : PdTable) (k : Nat) : Traeger → Prop
  | .rest => t.cspaceVergabe.bump ≤ k
  | .frei anker => anker ∈ t.kette ∧ k ∈ t.lauf anker
  | .pd pd => t.isUsed pd ∧ k ∈ t.lauf pd

/-- Every place of the pool belongs to exactly one owner. -/
def Aufgeteilt (t : PdTable) : Prop :=
  ∀ k, k < t.cspacePool.len → ∃! o, t.Gehoert k o

def NichtsFreigegeben (t : PdTable) : Op → Prop
  | .free pd => ¬ t.isUsed pd
  | _ => True

/-- What holds while nothing was freed: the chain is empty and the runs of live domains
tile the places before the bump pointer. -/
structure PoolInv (t : PdTable) : Prop extends Inv t where
  used_lt : ∀ i, (t.pds.cell i).used = true → i < t.pds.len
  kopf_zero : t.cspaceVergabe.kopf = 0
  len_pos : ∀ i, t.isUsed i → 0 < (t.pds.cell i).cspaceLen
  cover : ∀ k, k < t.cspaceVergabe.bump → ∃ i, t.isUsed i ∧ k ∈ t.lauf i

theorem attached_poolInv (npd npool : Nat) : (attached npd npool).PoolInv where
  toInv := attached_inv npd npool
  used_lt := by simp [attached, Pd.empty]
  kopf_zero := rfl
  len_pos := by simp [attached, isUsed, Pd.empty]
  cover := by simp [attached, Vergabe.neu]

theorem PoolInv.congr (h : t.PoolInv) (hpds : t'.pds = t.pds)
    (hv : t'.cspaceVergabe = t.cspaceVergabe) (hlen : t'.cspacePool.len = t.cspacePool.len) :
    t'.PoolInv where
  toInv := h.toInv.congr hpds hv hlen
  used_lt := by
    rw [hpds]
    exact h.used_lt
  kopf_zero := by rw [hv, h.kopf_zero]
  len_pos := by
    intro i
    simpa only [isUsed, hpds] using h.len_pos i
  cover := by
    intro k
    simpa only [isUsed, lauf, hpds, hv] using h.cover k

theorem PoolInv.aufgeteilt (h : t.PoolInv) : t.Aufgeteilt := by
  have hkette : t.kette = [] := by simp [kette, ketteAb, h.kopf_zero]
  intro k _
  by_cases hk : t.cspaceVergabe.bump ≤ k
  · refine ⟨.rest, hk, fun o ho => ?_⟩
    cases o with
    | rest => rfl
    | frei anker => simp [Gehoert, hkette] at ho
    | pd i =>
      obtain ⟨hi, hmem⟩ := ho
      have hle := h.run_le i hi
      simp only [lauf, Set.mem_Ico] at hmem
      omega
  · obtain ⟨i, hi, hmem⟩ := h.cover k (Nat.lt_of_not_le hk)
    refine ⟨.pd i, ⟨hi, hmem⟩, fun o ho => ?_⟩
    cases o with
    | rest => exact absurd ho hk
    | frei anker => simp [Gehoert, hkette] at ho
    | pd j =>
      obtain ⟨hj, hmem'⟩ := ho
      by_cases hij : i = j
      · rw [hij]
      · exact absurd hmem' (Set.disjoint_left.mp (h.disjoint i j hij hi hj) hmem)

/-- A fresh run continues the tiling. -/
theorem PoolInv.einsetzen (h : t.PoolInv) {i n : Nat} {p : Pd} (hn : 0 < n) (hi : i < t.pds.len)
    (hfree : (t.pds.cell i).used = false) (hpds : t'.pds = t.pds.set i p)
    (hpool : t'.cspacePool = t.cspacePool)
    (hv : t'.cspaceVergabe = { t.cspaceVergabe with bump := t.cspaceVergabe.bump + n })
    (hused : p.used = true) (hnext : p.freilaufNext = 0)
    (hstart : p.cspaceStart = t.cspaceVergabe.bump) (hlen : p.cspaceLen = n)
    (hfit : t.cspaceVergabe.bump + n ≤ t.poolLen) : t'.PoolInv := by
  have hself : t'.pds.cell i = p := by simp [hpds]
  have hother : ∀ j, j ≠ i → t'.pds.cell j = t.pds.cell j := by
    intro j hj
    rw [hpds, Slab.set_cell_of_ne _ hj]
  have hplen : t'.pds.len = t.pds.len := by simp [hpds]
  refine ⟨h.toInv.einsetzen hfree hpds hpool hv hused hnext hstart hlen hfit, ?_, ?_, ?_, ?_⟩
  · intro j hju
    by_cases hj : j = i
    · omega
    · rw [hother j hj] at hju
      rw [hplen]
      exact h.used_lt j hju
  · rw [hv]
    exact h.kopf_zero
  · rintro j ⟨hjlt, hju⟩
    by_cases hj : j = i
    · rw [hj, hself]
      omega
    · rw [hother j hj] at hju ⊢
      exact h.len_pos j ⟨by omega, hju⟩
  · intro k hk
    by_cases hkb : k < t.cspaceVergabe.bump
    · obtain ⟨j, ⟨hjlt, hju⟩, hmem⟩ := h.cover k hkb
      have hj : j ≠ i := by
        rintro rfl
        rw [hfree] at hju
        cases hju
      exact ⟨j, ⟨by omega, by rw [hother j hj, hju]⟩, by rwa [lauf_eq_of_cell (hother j hj)]⟩
    · refine ⟨i, ⟨by omega, by rw [hself, hused]⟩, ?_⟩
      rw [hv] at hk
      dsimp only at hk
      simp only [lauf, hself, Set.mem_Ico]
      omega

theorem PoolInv.not_kopfVergeben (h : t.PoolInv) (n : Nat) : ¬ t.KopfVergeben n :=
  fun hk => hk.1 h.kopf_zero

theorem Angelegt.poolInv {op : Op} (ha : t.Angelegt op t') (h : t.PoolInv)
    (hok : t.VergabeOk op) : t'.PoolInv := by
  obtain ⟨hpool, ⟨hpds, hv⟩ | ⟨i, p, hi, hfree, hpds, hpos, hneu, hstart, hv, hfit⟩⟩ :=
    ha.fortgesetzt h.toInv hok
  · exact h.congr hpds hv (by rw [hpool])
  · exact h.einsetzen hpos hi hfree hpds hpool hv hneu.used hneu.next hstart rfl hfit

theorem poolSchreiben_poolInv (h : t.PoolInv) (pd slot : Nat) (c : Option CapPtr) :
    (t.poolSchreiben pd slot c).PoolInv := by
  obtain ⟨cell, heq⟩ := t.poolSchreiben_eq pd slot c
  rw [heq]
  exact h.congr rfl rfl rfl

/-- What `free` of a live domain leaves: the same bump pointer, one entry emptied. -/
theorem free_of_isUsed {pd : Nat} (hused : t.isUsed pd) :
    ∃ t', t.free pd = some (true, t') ∧ t'.cspaceVergabe.bump = t.cspaceVergabe.bump ∧
      t'.cspacePool.len = t.cspacePool.len ∧ (t'.pds.cell pd).used = false ∧
      (t'.pds.cell pd).cspaceLen = 0 ∧ ∀ k, k ≠ pd → t'.pds.cell k = t.pds.cell k := by
  have hlt : pd < t.pds.len := hused.1
  simp only [free, if_pos hused, Vergabe.freigeben, AnkerAblage.lese, Slab.get, if_pos hlt,
    Option.map_some, AnkerAblage.schreibe]
  refine ⟨_, rfl, rfl, rfl, ?_, ?_, fun k hk => ?_⟩
  · rw [Slab.set_cell_self]
    rfl
  · rw [Slab.set_cell_self]
    rfl
  · rw [Slab.set_cell_of_ne _ hk, Slab.modify_cell_of_ne _ hk]

/-- The first place of a freed run belongs to nobody: it lies before the bump pointer, its
entry has length `0` and no other run contains it. -/
theorem free_not_aufgeteilt (h : t.PoolInv) {pd : Nat} (hused : t.isUsed pd) :
    ∃ t', t.free pd = some (true, t') ∧ ¬ t'.Aufgeteilt := by
  obtain ⟨t', hfree, hbump, hpool, -, hlen, hother⟩ := free_of_isUsed hused
  refine ⟨t', hfree, fun hauf => ?_⟩
  have hpos := h.len_pos pd hused
  have hle := h.run_le pd hused
  have hbumple := h.bump_le
  have hpoolLen : t.poolLen ≤ t.cspacePool.len := Nat.min_le_left _ _
  have hmem : (t.pds.cell pd).cspaceStart ∈ t.lauf pd := by
    simp only [lauf, Set.mem_Ico]
    omega
  have hniemand : ∀ j, (t.pds.cell pd).cspaceStart ∈ t'.lauf j → False := by
    intro j hj
    by_cases hjpd : j = pd
    · rw [hjpd, lauf, hlen] at hj
      simp at hj
    · rw [lauf_eq_of_cell (hother j hjpd)] at hj
      have hjlen : 0 < (t.pds.cell j).cspaceLen := by
        simp only [lauf, Set.mem_Ico] at hj
        omega
      have hju : (t.pds.cell j).used = true := by
        by_contra hfrei
        have hzero := h.free_len j (by simpa using hfrei)
        omega
      exact Set.disjoint_left.mp (h.disjoint j pd hjpd ⟨h.used_lt j hju, hju⟩ hused) hj hmem
  obtain ⟨o, ho, -⟩ := hauf (t.pds.cell pd).cspaceStart (by omega)
  cases o with
  | rest =>
    have hge : t'.cspaceVergabe.bump ≤ (t.pds.cell pd).cspaceStart := ho
    omega
  | frei anker => exact hniemand anker ho.2
  | pd j => exact hniemand j ho.2

theorem step_poolInv (t : PdTable) (op : Op) (h : t.PoolInv) (hok : t.NichtsFreigegeben op) :
    ∃ t', t.step op = some t' ∧ t'.PoolInv := by
  cases op with
  | create domain budget plaetze =>
    obtain ⟨t', ht'⟩ := h.toInv.create_total domain budget plaetze
    exact ⟨t', ht', (angelegt_create ht').poolInv h fun _ _ _ _ _ => h.not_kopfVergeben _⟩
  | createHardwareBackend partner backendId ep ntfn =>
    obtain ⟨t', ht'⟩ := h.toInv.createHardwareBackend_total partner backendId ep ntfn
    exact ⟨t', ht', (angelegt_createHardwareBackend ht').poolInv h
      fun _ _ _ => h.not_kopfVergeben _⟩
  | free pd =>
    have hfree : t.free pd = some (false, t) := by rw [free, if_neg hok]
    exact ⟨t, by simp [step, hfree], h⟩
  | setBudgetDeckel deckel => exact ⟨_, rfl, h.congr rfl rfl rfl⟩
  | installCap pd slot cap => exact ⟨_, rfl, poolSchreiben_poolInv h pd slot (some cap)⟩
  | clearCap pd slot => exact ⟨_, rfl, poolSchreiben_poolInv h pd slot none⟩

theorem step_not_aufgeteilt (t : PdTable) (op : Op) (h : t.PoolInv)
    (hnot : ¬ t.NichtsFreigegeben op) : ∃ t', t.step op = some t' ∧ ¬ t'.Aufgeteilt := by
  cases op with
  | free pd =>
    obtain ⟨t', hfree, hbroken⟩ := free_not_aufgeteilt h (not_not.mp hnot)
    exact ⟨t', by simp [step, hfree], hbroken⟩
  | create domain budget plaetze | createHardwareBackend partner backendId ep ntfn
  | setBudgetDeckel deckel | installCap pd slot cap | clearCap pd slot => exact absurd trivial hnot

theorem create_ok_isUsed {t₁ : PdTable} (h : t.Inv) {domain : Domain} {budget plaetze i : Nat}
    (hk : ∀ n, ¬ t.KopfVergeben n)
    (hcreate : t.createMitBudgetUndCspace domain budget plaetze = some (.ok i, t₁)) :
    t₁.isUsed i := by
  unfold createMitBudgetUndCspace at hcreate
  cases hanf : anforderungAufloesen budget plaetze t.budgetDeckel capBudgetPerPd with
  | error e => simp [hanf] at hcreate
  | ok anf =>
    simp only [hanf] at hcreate
    by_cases hvorrat : t.budgetVorrat < anf.budget
    · simp [if_pos hvorrat] at hcreate
    · rw [if_neg hvorrat] at hcreate
      cases hslot : t.freienSlotSuchen with
      | none => simp [hslot] at hcreate
      | some k =>
        have hpos : 0 < anf.plaetze := anforderungAufloesen_plaetze_pos (by decide) hanf
        simp only [hslot] at hcreate
        rw [belegen_of_not_kopfVergeben h hpos (hk _)] at hcreate
        rcases t.cspaceVergabe.frisch_cases t.poolLen anf.plaetze with
          ⟨-, hf⟩ | ⟨-, hfit, hf⟩
        · rw [hf] at hcreate
          simp at hcreate
        · rw [hf] at hcreate
          cases hcreate
          exact ⟨(freienSlotSuchen_eq_some hslot).1, by simp⟩

/-- For every table and every sequence of operations, the pool is divided up in every
state passed through, and every creation that was undone by the `free` after it succeeds
when asked for again, exactly when no `free` of the sequence names a live domain. -/
theorem run_aufgeteilt_iff (npd npool : Nat) (ops : List Op) :
    ((∀ xs, xs <+: ops → ∃ t, run step (attached npd npool) xs = some t ∧ t.Aufgeteilt) ∧
      (∀ xs domain budget plaetze i t t₁,
        xs ++ [.create domain budget plaetze, .free i, .create domain budget plaetze] <+: ops →
        run step (attached npd npool) xs = some t →
        t.createMitBudgetUndCspace domain budget plaetze = some (.ok i, t₁) →
        ∃ t₂ j t₃, t₁.free i = some (true, t₂) ∧
          t₂.createMitBudgetUndCspace domain budget plaetze = some (.ok j, t₃))) ↔
      Admissible step NichtsFreigegeben (attached npd npool) ops := by
  have hiff := forall_prefix_iff_admissible (fun _ h => PoolInv.aufgeteilt h) step_poolInv
    step_not_aufgeteilt (attached_poolInv npd npool) ops
  constructor
  · rintro ⟨hauf, -⟩
    exact hiff.mp hauf
  · intro hadm
    refine ⟨hiff.mpr hadm, ?_⟩
    intro xs domain budget plaetze i t t₁ hpre hrun hcreate
    -- The `free` in between would name the domain just created.
    exfalso
    have hsplit : xs ++ [Op.create domain budget plaetze, Op.free i,
        Op.create domain budget plaetze] =
      (xs ++ [Op.create domain budget plaetze]) ++ [Op.free i] ++
        [Op.create domain budget plaetze] := by simp
    rw [hsplit] at hpre
    have hfrei : (xs ++ [Op.create domain budget plaetze]) ++ [Op.free i] <+: ops :=
      (List.prefix_append _ _).trans hpre
    have hxs : xs <+: ops :=
      (List.prefix_append _ _).trans ((List.prefix_append _ _).trans hfrei)
    have hinv : t.PoolInv := by
      obtain ⟨t', ht', hinv⟩ :=
        run_total step_poolInv (attached_poolInv npd npool) (hadm.of_prefix hxs)
      obtain rfl : t = t' := Option.some.inj (hrun.symm.trans ht')
      exact hinv
    have hstep : t.step (.create domain budget plaetze) = some t₁ := by simp [step, hcreate]
    have hrun₁ : run step (attached npd npool) (xs ++ [Op.create domain budget plaetze]) =
        some t₁ := by
      rw [run_append, hrun, Option.bind_some, run_cons_of_step hstep, run_nil]
    have hguard := admissible_iff_forall_reached.mp hadm _ _ _ hfrei hrun₁
    exact hguard (create_ok_isUsed hinv.toInv hinv.not_kopfVergeben hcreate)

/-- A pool of 16 places serves one domain of 16 places once: after its `free` the places
belong to nobody and the same request is refused. -/
theorem run_create_free_create_exhausts_pool :
    ∃ t₁ t₂ t₃, (attached 2 16).createMitBudgetUndCspace .trustedSas 0 16 = some (.ok 0, t₁) ∧
      t₁.free 0 = some (true, t₂) ∧
      t₂.createMitBudgetUndCspace .trustedSas 0 16 = some (.error (.poolErschoepft 16 0), t₃) ∧
      ¬ t₂.Aufgeteilt := by
  have h := attached_poolInv 2 16
  obtain ⟨t₁, ht₁⟩ := h.toInv.create_total .trustedSas 0 16
  have hinv := (angelegt_create ht₁).poolInv h fun _ _ _ _ _ => h.not_kopfVergeben _
  cases ht₁
  obtain ⟨t₂, hfree, hbroken⟩ := free_not_aufgeteilt hinv (show isUsed _ 0 by decide)
  cases hfree
  exact ⟨_, _, _, rfl, rfl, rfl, hbroken⟩

end PdTable

end Caprock.Microkit
