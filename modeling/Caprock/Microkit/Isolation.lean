import Mathlib
import Caprock.Lib.Run
import Caprock.Microkit.PdTable

/-! # Cspace isolation between protection domains

`free` chains the run of a domain through its table entry and then resets that
entry, so the chain head keeps naming an entry of length `0`.  Once the entry is
used again it describes a live run, and the head still names it: a creation that
finds this run long enough is handed the cspace of a live domain.

`KopfVergeben` is that situation.  `Inv` is what holds as long as no creation meets
it.
-/

namespace Caprock.Microkit

open Execution

namespace PdTable

/-- Pool places of entry `pd`. -/
def lauf (t : PdTable) (pd : Nat) : Set Nat :=
  Set.Ico (t.pds.cell pd).cspaceStart ((t.pds.cell pd).cspaceStart + (t.pds.cell pd).cspaceLen)

/-- Cspace isolation: runs of live domains are disjoint and inside the pool, and
installing a capability in one domain is invisible to every other. -/
structure Isolated (t : PdTable) : Prop where
  disjoint : ∀ i j, i ≠ j → t.isUsed i → t.isUsed j → Disjoint (t.lauf i) (t.lauf j)
  inside : ∀ i, t.isUsed i →
    (t.pds.cell i).cspaceStart + (t.pds.cell i).cspaceLen ≤ t.cspacePool.len
  install : ∀ i j, i ≠ j → ∀ slot cap k, (t.installCap i slot cap).capAt j k = t.capAt j k

/-- The head of the free chain names a live domain whose run has `n` places. -/
def KopfVergeben (t : PdTable) (n : Nat) : Prop :=
  t.cspaceVergabe.kopf ≠ 0 ∧ (t.pds.cell (t.cspaceVergabe.kopf - 1)).used = true ∧
    n ≤ (t.pds.cell (t.cspaceVergabe.kopf - 1)).cspaceLen

instance (t : PdTable) (n : Nat) : Decidable (t.KopfVergeben n) :=
  inferInstanceAs (Decidable (_ ∧ _ ∧ _))

inductive Op where
  | create (domain : Domain) (budget plaetze : Nat)
  | createHardwareBackend (partner backendId ep ntfn : Nat)
  | free (pd : Nat)
  | setBudgetDeckel (deckel : Nat)
  | installCap (pd slot : Nat) (cap : CapPtr)
  | clearCap (pd slot : Nat)

def step (t : PdTable) : Op → Option PdTable
  | .create domain budget plaetze =>
      (t.createMitBudgetUndCspace domain budget plaetze).map Prod.snd
  | .createHardwareBackend partner backendId ep ntfn =>
      (t.createHardwareBackend partner backendId ep ntfn).map Prod.snd
  | .free pd => (t.free pd).map Prod.snd
  | .setBudgetDeckel deckel => some (t.setBudgetDeckel deckel)
  | .installCap pd slot cap => some (t.installCap pd slot cap)
  | .clearCap pd slot => some (t.clearCap pd slot)

def VergabeOk (t : PdTable) : Op → Prop
  | .create _ budget plaetze =>
      ∀ anf i, anforderungAufloesen budget plaetze t.budgetDeckel capBudgetPerPd = .ok anf →
        anf.budget ≤ t.budgetVorrat → t.freienSlotSuchen = some i → ¬ t.KopfVergeben anf.plaetze
  | .createHardwareBackend partner _ _ _ =>
      ∀ i, partner < t.pds.len → t.freienSlotSuchen = some i → ¬ t.KopfVergeben ncaps
  | _ => True

structure Inv (t : PdTable) : Prop where
  next_zero : ∀ i, (t.pds.cell i).freilaufNext = 0
  free_len : ∀ i, (t.pds.cell i).used = false → (t.pds.cell i).cspaceLen = 0
  kopf_lt : t.cspaceVergabe.kopf - 1 < t.pds.len ∨ t.cspaceVergabe.kopf = 0
  bump_le : t.cspaceVergabe.bump ≤ t.poolLen
  run_le : ∀ i, t.isUsed i →
    (t.pds.cell i).cspaceStart + (t.pds.cell i).cspaceLen ≤ t.cspaceVergabe.bump
  disjoint : ∀ i j, i ≠ j → t.isUsed i → t.isUsed j → Disjoint (t.lauf i) (t.lauf j)

theorem attached_inv (npd npool : Nat) : (attached npd npool).Inv where
  next_zero := by simp [attached, Pd.empty]
  free_len := by simp [attached, Pd.empty]
  kopf_lt := by simp [attached, Vergabe.neu]
  bump_le := by simp [attached, Vergabe.neu]
  run_le := by simp [attached, isUsed, Pd.empty]
  disjoint := by simp [attached, isUsed, Pd.empty]

variable {t t' : PdTable} {op : Op} {i j : Nat}

theorem Inv.congr (h : t.Inv) (hpds : t'.pds = t.pds) (hv : t'.cspaceVergabe = t.cspaceVergabe)
    (hlen : t'.cspacePool.len = t.cspacePool.len) : t'.Inv := by
  obtain ⟨h1, h2, h3, h4, h5, h6⟩ := h
  constructor <;> simp only [hpds, hv, isUsed, lauf, poolLen, hlen] at * <;> assumption

theorem lauf_eq_of_cell (h : t'.pds.cell i = t.pds.cell i) : t'.lauf i = t.lauf i := by
  simp [lauf, h]

/-- A fresh run behind the bump pointer in a free entry keeps the invariant. -/
theorem Inv.einsetzen (h : t.Inv) {n : Nat} {p : Pd} (hi : (t.pds.cell i).used = false)
    (hpds : t'.pds = t.pds.set i p) (hpool : t'.cspacePool = t.cspacePool)
    (hv : t'.cspaceVergabe = { t.cspaceVergabe with bump := t.cspaceVergabe.bump + n })
    (hused : p.used = true) (hnext : p.freilaufNext = 0)
    (hstart : p.cspaceStart = t.cspaceVergabe.bump) (hlen : p.cspaceLen = n)
    (hfit : t.cspaceVergabe.bump + n ≤ t.poolLen) : t'.Inv := by
  have hself : t'.pds.cell i = p := by simp [hpds]
  have hother : ∀ j, j ≠ i → t'.pds.cell j = t.pds.cell j := by
    intro j hj
    rw [hpds, Slab.set_cell_of_ne _ hj]
  have hplen : t'.pds.len = t.pds.len := by simp [hpds]
  have husedOther : ∀ j, j ≠ i → t'.isUsed j → t.isUsed j := by
    intro j hj hu
    unfold isUsed at hu ⊢
    rwa [hother j hj, hplen] at hu
  -- The new run starts where every older run has already ended.
  have hnew : ∀ j, j ≠ i → t'.isUsed j → Disjoint (t'.lauf i) (t'.lauf j) := by
    intro j hj hu
    have hle := h.run_le j (husedOther j hj hu)
    rw [Set.disjoint_left]
    intro x hx hx'
    simp only [lauf, hself, hother j hj, hstart, Set.mem_Ico] at hx hx'
    omega
  refine ⟨fun j => ?_, fun j hj => ?_, ?_, ?_, fun j hu => ?_, fun j k hjk huj huk => ?_⟩
  · by_cases hji : j = i
    · rw [hji, hself, hnext]
    · rw [hother j hji, h.next_zero j]
  · by_cases hji : j = i
    · rw [hji, hself, hused] at hj
      cases hj
    · rw [hother j hji] at hj ⊢
      exact h.free_len j hj
  · rw [hv, hplen]
    exact h.kopf_lt
  · simpa only [hv, poolLen, hpool] using hfit
  · by_cases hji : j = i
    · rw [hji, hself, hv, hstart, hlen]
    · have hle := h.run_le j (husedOther j hji hu)
      rw [hother j hji, hv]
      dsimp only
      omega
  · by_cases hji : j = i
    · subst hji
      exact hnew k (Ne.symm hjk) huk
    · by_cases hki : k = i
      · subst hki
        exact (hnew j hji huj).symm
      · rw [lauf_eq_of_cell (hother j hji), lauf_eq_of_cell (hother k hki)]
        exact h.disjoint j k hjk (husedOther j hji huj) (husedOther k hki huk)

theorem freienSlotSuchen_eq_some (h : t.freienSlotSuchen = some i) :
    i < t.pds.len ∧ (t.pds.cell i).used = false := by
  obtain ⟨hlt, hp⟩ := Slab.position_eq_some h
  exact ⟨hlt, by simpa using hp⟩

theorem lese_kopf (hnext : ∀ i, (t.pds.cell i).freilaufNext = 0)
    (hkopf_lt : t.cspaceVergabe.kopf - 1 < t.pds.len ∨ t.cspaceVergabe.kopf = 0)
    (hkopf : t.cspaceVergabe.kopf ≠ 0) :
    AnkerAblage.lese t.pds (t.cspaceVergabe.kopf - 1) =
      some ⟨(t.pds.cell (t.cspaceVergabe.kopf - 1)).cspaceStart,
        (t.pds.cell (t.cspaceVergabe.kopf - 1)).cspaceLen, 0⟩ := by
  have hlt : t.cspaceVergabe.kopf - 1 < t.pds.len := by
    rcases hkopf_lt with hlt | hzero
    · exact hlt
    · exact absurd hzero hkopf
  simp [AnkerAblage.lese, Slab.get, hlt, hnext]

theorem belegen_of_not_kopfVergeben (h : t.Inv) {n : Nat} (hn : 0 < n) (hk : ¬ t.KopfVergeben n) :
    t.cspaceVergabe.belegen t.pds t.poolLen n =
      some ((t.cspaceVergabe.frisch t.poolLen n).1, (t.cspaceVergabe.frisch t.poolLen n).2,
        t.pds) := by
  apply Vergabe.belegen_eq_frisch _ _ _ _ hn
  by_cases hzero : t.cspaceVergabe.kopf = 0
  · exact .inl hzero
  · refine .inr ⟨_, lese_kopf h.next_zero h.kopf_lt hzero, ?_, rfl⟩
    by_contra hge
    cases hu : (t.pds.cell (t.cspaceVergabe.kopf - 1)).used with
    | true => exact hk ⟨hzero, hu, by simpa using hge⟩
    | false =>
      have hlen := h.free_len _ hu
      dsimp only at hge
      omega

theorem belegen_of_kopfVergeben (h : t.Inv) {n : Nat} (hn : 0 < n) (hk : t.KopfVergeben n) :
    ∃ v pds, t.cspaceVergabe.belegen t.pds t.poolLen n =
        some (.ok ((t.pds.cell (t.cspaceVergabe.kopf - 1)).cspaceStart,
          (t.pds.cell (t.cspaceVergabe.kopf - 1)).cspaceLen), v, pds) ∧
      pds.len = t.pds.len ∧
      (pds.cell (t.cspaceVergabe.kopf - 1)).used = true ∧
      (pds.cell (t.cspaceVergabe.kopf - 1)).cspaceStart =
        (t.pds.cell (t.cspaceVergabe.kopf - 1)).cspaceStart ∧
      (pds.cell (t.cspaceVergabe.kopf - 1)).cspaceLen =
        (t.pds.cell (t.cspaceVergabe.kopf - 1)).cspaceLen := by
  obtain ⟨hzero, hu, hlen⟩ := hk
  have hbel := Vergabe.belegen_eq_kopf t.cspaceVergabe t.pds t.poolLen n hn hzero
    (lese_kopf h.next_zero h.kopf_lt hzero) hlen
  exact ⟨_, _, hbel, by simp [AnkerAblage.schreibe], by simp [AnkerAblage.schreibe, hu],
    by simp [AnkerAblage.schreibe], by simp [AnkerAblage.schreibe]⟩

theorem not_isolated_of_same_run (hij : i ≠ j) (hi : t.isUsed i) (hj : t.isUsed j)
    (hstart : (t.pds.cell i).cspaceStart = (t.pds.cell j).cspaceStart)
    (hlen : (t.pds.cell i).cspaceLen = (t.pds.cell j).cspaceLen)
    (hpos : 0 < (t.pds.cell i).cspaceLen) : ¬ t.Isolated := by
  intro hiso
  have hdisj := hiso.disjoint i j hij hi hj
  have hmem : (t.pds.cell i).cspaceStart ∈ t.lauf i := by
    simp only [lauf, Set.mem_Ico]
    omega
  refine Set.disjoint_left.mp hdisj hmem ?_
  simp only [lauf, Set.mem_Ico]
  omega

theorem Inv.belegen_total (h : t.Inv) {n : Nat} (hn : 0 < n) :
    ∃ r v pds, t.cspaceVergabe.belegen t.pds t.poolLen n = some (r, v, pds) := by
  by_cases hk : t.KopfVergeben n
  · obtain ⟨v, pds, hbel, -⟩ := belegen_of_kopfVergeben h hn hk
    exact ⟨_, v, pds, hbel⟩
  · exact ⟨_, _, _, belegen_of_not_kopfVergeben h hn hk⟩

/-- A new entry of the table, with the generation of the old one. -/
structure Neu (p : Pd) (epoch : Nat) : Prop where
  used : p.used = true
  thread : p.thread = none
  nthreads : p.nthreads = 0
  epoch : p.epoch = epoch
  next : p.freilaufNext = 0

/-- What a creation does: it gives up, or it asks for a run of `n` places for a free entry. -/
inductive Angelegt (t : PdTable) (op : Op) (t' : PdTable) : Prop where
  | gleich (hpool : t'.cspacePool = t.cspacePool) (hpds : t'.pds = t.pds)
      (hv : t'.cspaceVergabe = t.cspaceVergabe)
  | ohneLauf {n : Nat} {e : CspaceAbweisung} (hpool : t'.cspacePool = t.cspacePool) (hn : 0 < n)
      (hok : t.VergabeOk op → ¬ t.KopfVergeben n)
      (hbel : t.cspaceVergabe.belegen t.pds t.poolLen n = some (.error e, t'.cspaceVergabe, t'.pds))
  | mitLauf {pd n : Nat} {p : Pd} {pds : Slab Pd} (hpool : t'.cspacePool = t.cspacePool) (hn : 0 < n)
      (hok : t.VergabeOk op → ¬ t.KopfVergeben n)
      (hbel : t.cspaceVergabe.belegen t.pds t.poolLen n =
        some (.ok (p.cspaceStart, p.cspaceLen), t'.cspaceVergabe, pds))
      (hslot : t.freienSlotSuchen = some pd) (hpds : t'.pds = pds.set pd p)
      (hneu : Neu p (pds.cell pd).epoch)

theorem angelegt_create {domain : Domain} {budget plaetze : Nat}
    (hstep : t.step (.create domain budget plaetze) = some t') :
    t.Angelegt (.create domain budget plaetze) t' := by
  obtain ⟨r, hr, rfl⟩ := Option.map_eq_some_iff.mp hstep
  unfold createMitBudgetUndCspace at hr
  split at hr
  · cases hr
    exact .gleich rfl rfl rfl
  · next anf hanf =>
    have hpos := anforderungAufloesen_plaetze_pos (by decide) hanf
    split at hr
    · cases hr
      exact .gleich rfl rfl rfl
    · next hvorrat =>
      split at hr
      · cases hr
        exact .gleich rfl rfl rfl
      · next i hslot =>
        have hk : t.VergabeOk (.create domain budget plaetze) → ¬ t.KopfVergeben anf.plaetze :=
          fun hok => hok anf i hanf (Nat.le_of_not_lt hvorrat) hslot
        split at hr
        · cases hr
        · next hbel =>
          cases hr
          exact .ohneLauf rfl hpos hk hbel
        · next hbel =>
          cases hr
          exact .mitLauf rfl hpos hk hbel hslot rfl ⟨rfl, rfl, rfl, rfl, rfl⟩

theorem angelegt_createHardwareBackend {partner backendId ep ntfn : Nat}
    (hstep : t.step (.createHardwareBackend partner backendId ep ntfn) = some t') :
    t.Angelegt (.createHardwareBackend partner backendId ep ntfn) t' := by
  obtain ⟨r, hr, rfl⟩ := Option.map_eq_some_iff.mp hstep
  unfold createHardwareBackend at hr
  split at hr
  · cases hr
    exact .gleich rfl rfl rfl
  · next hpartner =>
    split at hr
    · cases hr
      exact .gleich rfl rfl rfl
    · next i hslot =>
      have hk : t.VergabeOk (.createHardwareBackend partner backendId ep ntfn) →
          ¬ t.KopfVergeben ncaps := fun hok => hok i (Nat.lt_of_not_le hpartner) hslot
      split at hr
      · cases hr
      · next hbel =>
        cases hr
        exact .ohneLauf rfl (by decide) hk hbel
      · next hbel =>
        cases hr
        exact .mitLauf rfl (by decide) hk hbel hslot rfl ⟨rfl, rfl, rfl, rfl, rfl⟩

theorem Inv.create_total (h : t.Inv) (domain : Domain) (budget plaetze : Nat) :
    ∃ t', t.step (.create domain budget plaetze) = some t' := by
  show ∃ t', (t.createMitBudgetUndCspace domain budget plaetze).map Prod.snd = some t'
  unfold createMitBudgetUndCspace
  split
  · exact ⟨_, rfl⟩
  · next anf hanf =>
    obtain ⟨r, v, pds, hbel⟩ := h.belegen_total (anforderungAufloesen_plaetze_pos (by decide) hanf)
    rw [hbel]
    split
    · exact ⟨_, rfl⟩
    · split
      · exact ⟨_, rfl⟩
      · cases r <;> exact ⟨_, rfl⟩

theorem Inv.createHardwareBackend_total (h : t.Inv) (partner backendId ep ntfn : Nat) :
    ∃ t', t.step (.createHardwareBackend partner backendId ep ntfn) = some t' := by
  obtain ⟨r, v, pds, hbel⟩ := h.belegen_total (n := ncaps) (by decide)
  show ∃ t', (t.createHardwareBackend partner backendId ep ntfn).map Prod.snd = some t'
  unfold createHardwareBackend
  rw [hbel]
  split
  · exact ⟨_, rfl⟩
  · split
    · exact ⟨_, rfl⟩
    · cases r <;> exact ⟨_, rfl⟩

/-- A creation that does not meet the run of a live domain takes a fresh one. -/
theorem Angelegt.fortgesetzt (ha : t.Angelegt op t') (h : t.Inv) (hok : t.VergabeOk op) :
    t'.cspacePool = t.cspacePool ∧
      (t'.pds = t.pds ∧ t'.cspaceVergabe = t.cspaceVergabe ∨
        ∃ i p, i < t.pds.len ∧ (t.pds.cell i).used = false ∧ t'.pds = t.pds.set i p ∧
          0 < p.cspaceLen ∧ Neu p (t.pds.cell i).epoch ∧ p.cspaceStart = t.cspaceVergabe.bump ∧
          t'.cspaceVergabe =
            { t.cspaceVergabe with bump := t.cspaceVergabe.bump + p.cspaceLen } ∧
          t.cspaceVergabe.bump + p.cspaceLen ≤ t.poolLen) := by
  cases ha with
  | gleich hpool hpds hv => exact ⟨hpool, .inl ⟨hpds, hv⟩⟩
  | @ohneLauf n e hpool hn hk hbel =>
    rw [belegen_of_not_kopfVergeben h hn (hk hok)] at hbel
    rcases t.cspaceVergabe.frisch_cases t.poolLen n with ⟨-, hf⟩ | ⟨-, hfit, hf⟩
    · simp only [hf, Option.some.injEq, Prod.mk.injEq] at hbel
      exact ⟨hpool, .inl ⟨hbel.2.2.symm, hbel.2.1.symm⟩⟩
    · simp [hf] at hbel
  | @mitLauf i n p pds hpool hn hk hbel hslot hpds hneu =>
    rw [belegen_of_not_kopfVergeben h hn (hk hok)] at hbel
    rcases t.cspaceVergabe.frisch_cases t.poolLen n with ⟨-, hf⟩ | ⟨-, hfit, hf⟩
    · simp [hf] at hbel
    · simp only [hf, Option.some.injEq, Prod.mk.injEq, Except.ok.injEq] at hbel
      obtain ⟨⟨hstart, rfl⟩, hv, rfl⟩ := hbel
      obtain ⟨hi, hfree⟩ := freienSlotSuchen_eq_some hslot
      exact ⟨hpool, .inr ⟨i, p, hi, hfree, hpds, hn, hneu, hstart.symm, hv.symm, hfit⟩⟩

theorem Angelegt.inv (ha : t.Angelegt op t') (h : t.Inv) (hok : t.VergabeOk op) : t'.Inv := by
  obtain ⟨hpool, ⟨hpds, hv⟩ | ⟨i, p, -, hfree, hpds, -, hneu, hstart, hv, hfit⟩⟩ :=
    ha.fortgesetzt h hok
  · exact h.congr hpds hv (by rw [hpool])
  · exact h.einsetzen hfree hpds hpool hv hneu.used hneu.next hstart rfl hfit

/-- Emptying one entry keeps the invariant, wherever the chain head then points. -/
theorem Inv.leeren (h : t.Inv) {pd : Nat} {p : Pd} (hlen : t'.pds.len = t.pds.len)
    (hself : t'.pds.cell pd = p) (hother : ∀ j, j ≠ pd → t'.pds.cell j = t.pds.cell j)
    (hused : p.used = false) (hplen : p.cspaceLen = 0) (hnext : p.freilaufNext = 0)
    (hkopf : t'.cspaceVergabe.kopf - 1 < t'.pds.len)
    (hbump : t'.cspaceVergabe.bump = t.cspaceVergabe.bump)
    (hpool : t'.cspacePool.len = t.cspacePool.len) : t'.Inv := by
  have hne : ∀ j, t'.isUsed j → j ≠ pd := by
    rintro j ⟨-, hu⟩ rfl
    rw [hself, hused] at hu
    cases hu
  have hold : ∀ j, t'.isUsed j → t.isUsed j := by
    intro j hu
    have hcell := hother j (hne j hu)
    unfold isUsed at hu ⊢
    rwa [hcell, hlen] at hu
  refine ⟨fun j => ?_, fun j hj => ?_, .inl hkopf, ?_, fun j hu => ?_, fun j k hjk huj huk => ?_⟩
  · by_cases hj : j = pd
    · rw [hj, hself, hnext]
    · rw [hother j hj, h.next_zero j]
  · by_cases hjp : j = pd
    · rw [hjp, hself, hplen]
    · rw [hother j hjp] at hj ⊢
      exact h.free_len j hj
  · have hle := h.bump_le
    unfold poolLen at hle ⊢
    rwa [hbump, hpool]
  · rw [hother j (hne j hu), hbump]
    exact h.run_le j (hold j hu)
  · rw [lauf_eq_of_cell (hother j (hne j huj)), lauf_eq_of_cell (hother k (hne k huk))]
    exact h.disjoint j k hjk (hold j huj) (hold k huk)

theorem free_inv (h : t.Inv) (pd : Nat) : ∃ r, t.free pd = some r ∧ r.2.Inv := by
  unfold free
  by_cases hused : t.isUsed pd
  · have hlt : pd < t.pds.len := hused.1
    have hlese : AnkerAblage.lese t.pds pd =
        some ⟨(t.pds.cell pd).cspaceStart, (t.pds.cell pd).cspaceLen, 0⟩ := by
      simp [AnkerAblage.lese, Slab.get, hlt, h.next_zero]
    simp only [if_pos hused, Vergabe.freigeben, hlese, Option.map_some, AnkerAblage.schreibe]
    refine ⟨_, rfl, h.leeren rfl (Slab.set_cell_self _ _ _) (fun j hj => ?_) rfl rfl rfl
      ?_ rfl rfl⟩
    · rw [Slab.set_cell_of_ne _ hj, Slab.modify_cell_of_ne _ hj]
    · simp only [Slab.set_len, Slab.modify_len]
      omega
  · rw [if_neg hused]
    exact ⟨_, rfl, h⟩

theorem poolSchreiben_inv (h : t.Inv) (pd slot : Nat) (c : Option CapPtr) :
    (t.poolSchreiben pd slot c).Inv := by
  obtain ⟨cell, heq⟩ := t.poolSchreiben_eq pd slot c
  rw [heq]
  exact h.congr rfl rfl rfl

theorem step_inv (t : PdTable) (op : Op) (h : t.Inv) (hok : t.VergabeOk op) :
    ∃ t', t.step op = some t' ∧ t'.Inv := by
  cases op with
  | create domain budget plaetze =>
    obtain ⟨t', ht'⟩ := h.create_total domain budget plaetze
    exact ⟨t', ht', (angelegt_create ht').inv h hok⟩
  | createHardwareBackend partner backendId ep ntfn =>
    obtain ⟨t', ht'⟩ := h.createHardwareBackend_total partner backendId ep ntfn
    exact ⟨t', ht', (angelegt_createHardwareBackend ht').inv h hok⟩
  | free pd =>
    obtain ⟨r, hr, hinv⟩ := free_inv h pd
    exact ⟨r.2, by simp [step, hr], hinv⟩
  | setBudgetDeckel deckel => exact ⟨_, rfl, h.congr rfl rfl rfl⟩
  | installCap pd slot cap => exact ⟨_, rfl, poolSchreiben_inv h pd slot (some cap)⟩
  | clearCap pd slot => exact ⟨_, rfl, poolSchreiben_inv h pd slot none⟩

theorem not_isolated_of_kopfVergeben {n : Nat} {pds : Slab Pd} {p : Pd} (h : t.Inv) (hn : 0 < n)
    (hk : t.KopfVergeben n) (hi : i < t.pds.len) (hfree : (t.pds.cell i).used = false)
    (hpds : t'.pds = pds.set i p) (hlen : pds.len = t.pds.len)
    (hheadUsed : (pds.cell (t.cspaceVergabe.kopf - 1)).used = true)
    (hheadStart : (pds.cell (t.cspaceVergabe.kopf - 1)).cspaceStart = p.cspaceStart)
    (hheadLen : (pds.cell (t.cspaceVergabe.kopf - 1)).cspaceLen = p.cspaceLen)
    (hused : p.used = true) (hplen : n ≤ p.cspaceLen) : ¬ t'.Isolated := by
  obtain ⟨hzero, hhead, -⟩ := hk
  have hheadLt : t.cspaceVergabe.kopf - 1 < t.pds.len := by
    rcases h.kopf_lt with hlt | hz
    · exact hlt
    · exact absurd hz hzero
  have hne : t.cspaceVergabe.kopf - 1 ≠ i := by
    intro heq
    rw [heq, hfree] at hhead
    cases hhead
  have hself : t'.pds.cell i = p := by simp [hpds]
  have hhead' : t'.pds.cell (t.cspaceVergabe.kopf - 1) = pds.cell (t.cspaceVergabe.kopf - 1) := by
    rw [hpds, Slab.set_cell_of_ne _ hne]
  have hlen' : t'.pds.len = t.pds.len := by simp [hpds, hlen]
  apply not_isolated_of_same_run (Ne.symm hne)
  · exact ⟨by rwa [hlen'], by rw [hself, hused]⟩
  · exact ⟨by rwa [hlen'], by rw [hhead', hheadUsed]⟩
  · rw [hself, hhead', hheadStart]
  · rw [hself, hhead', hheadLen]
  · rw [hself]
    omega

theorem step_not_isolated (t : PdTable) (op : Op) (h : t.Inv) (hok : ¬ t.VergabeOk op) :
    ∃ t', t.step op = some t' ∧ ¬ t'.Isolated := by
  cases op with
  | create domain budget plaetze =>
    simp only [VergabeOk, not_forall, not_not] at hok
    obtain ⟨anf, i, hanf, hvorrat, hslot, hk⟩ := hok
    have hpos : 0 < anf.plaetze := anforderungAufloesen_plaetze_pos (by decide) hanf
    obtain ⟨v, pds, hbel, hlen, hu, hs, hl⟩ := belegen_of_kopfVergeben h hpos hk
    obtain ⟨hi, hfree⟩ := freienSlotSuchen_eq_some hslot
    have hvorrat' : ¬ t.budgetVorrat < anf.budget := by omega
    simp only [step, createMitBudgetUndCspace, hanf, if_neg hvorrat', hslot, hbel,
      Option.map_some]
    exact ⟨_, rfl, not_isolated_of_kopfVergeben h hpos hk hi hfree rfl hlen hu hs hl rfl hk.2.2⟩
  | createHardwareBackend partner backendId ep ntfn =>
    simp only [VergabeOk, not_forall, not_not] at hok
    obtain ⟨i, hpartner, hslot, hk⟩ := hok
    have hpos : 0 < ncaps := by decide
    obtain ⟨v, pds, hbel, hlen, hu, hs, hl⟩ := belegen_of_kopfVergeben h hpos hk
    obtain ⟨hi, hfree⟩ := freienSlotSuchen_eq_some hslot
    have hpartner' : ¬ t.pds.len ≤ partner := by omega
    simp only [step, createHardwareBackend, if_neg hpartner', hslot, hbel, Option.map_some]
    exact ⟨_, rfl, not_isolated_of_kopfVergeben h hpos hk hi hfree rfl hlen hu hs hl rfl hk.2.2⟩
  | free pd | setBudgetDeckel deckel | installCap pd slot cap | clearCap pd slot =>
    exact absurd trivial hok

theorem capAt_congr (hpds : t'.pds = t.pds)
    (hpool : t.isUsed j → ∀ x, x ∈ t.lauf j → t'.cspacePool.get x = t.cspacePool.get x) (k : Nat) :
    t'.capAt j k = t.capAt j k := by
  have huse : t'.isUsed j ↔ t.isUsed j := by simp [isUsed, hpds]
  have hlen : t'.cspaceLenVon j = t.cspaceLenVon j := by simp only [cspaceLenVon, huse, hpds]
  unfold capAt
  rw [hlen, hpds]
  by_cases hk : k < t.cspaceLenVon j
  · have hu : t.isUsed j := by
      by_contra hnot
      simp [cspaceLenVon, hnot] at hk
    have hk' : k < (t.pds.cell j).cspaceLen := by
      simpa [cspaceLenVon, hu] using hk
    have hmem : (t.pds.cell j).cspaceStart + k ∈ t.lauf j := by
      simp only [lauf, Set.mem_Ico]
      omega
    rw [if_pos hk, if_pos hk, hpool hu _ hmem]
  · rw [if_neg hk, if_neg hk]

theorem Inv.isUsed_of_cspaceLen (h : t.Inv) (hi : i < t.pds.len)
    (hlen : 0 < (t.pds.cell i).cspaceLen) : t.isUsed i := by
  refine ⟨hi, ?_⟩
  by_contra hfree
  have hzero := h.free_len i (by simpa using hfree)
  omega

theorem capAt_poolSchreiben (h : t.Inv) (hij : i ≠ j) (slot : Nat) (c : Option CapPtr) (k : Nat) :
    (t.poolSchreiben i slot c).capAt j k = t.capAt j k := by
  unfold poolSchreiben
  by_cases hw : i < t.pds.len ∧ slot < (t.pds.cell i).cspaceLen
  · rw [if_pos hw]
    by_cases hidx : (t.pds.cell i).cspaceStart + slot < t.cspacePool.len
    · rw [if_pos hidx]
      apply capAt_congr
      · rfl
      intro hj x hx
      have hi : t.isUsed i := h.isUsed_of_cspaceLen hw.1 (by omega)
      have hmem : (t.pds.cell i).cspaceStart + slot ∈ t.lauf i := by
        simp only [lauf, Set.mem_Ico]
        omega
      have hne : x ≠ (t.pds.cell i).cspaceStart + slot := by
        intro heq
        exact Set.disjoint_left.mp (h.disjoint i j hij hi hj) hmem (heq ▸ hx)
      simp only [Slab.get, Slab.set_len, Slab.set_cell_of_ne _ hne]
    · rw [if_neg hidx]
  · rw [if_neg hw]

theorem Inv.isolated (h : t.Inv) :
    t.Isolated where
  disjoint := h.disjoint
  inside := by
    intro i hi
    have hle := h.run_le i hi
    have hbump := h.bump_le
    have hpool : t.poolLen ≤ t.cspacePool.len := Nat.min_le_left _ _
    omega
  install := fun i j hij slot cap k => capAt_poolSchreiben h hij slot (some cap) k

/-- For every table and every sequence of operations, isolation holds in every
state the sequence passes through exactly when no creation in it meets a live run
at the head of the free chain. -/
theorem run_isolated_iff (npd npool : Nat) (ops : List Op) :
    (∀ xs, xs <+: ops → ∃ t, run step (attached npd npool) xs = some t ∧ t.Isolated) ↔
      Admissible step VergabeOk (attached npd npool) ops :=
  forall_prefix_iff_admissible (fun _ h => h.isolated) step_inv step_not_isolated
    (attached_inv npd npool) ops

/-- Create, free, create, create: the third domain gets the run of the second. -/
theorem run_create_free_create_create_shares_run :
    ∃ t, run step (attached 2 64)
        [.create .trustedSas 0 0, .free 0, .create .trustedSas 0 0, .create .trustedSas 0 0] =
          some t ∧
      t.isUsed 0 ∧ t.isUsed 1 ∧ ¬ Disjoint (t.lauf 0) (t.lauf 1) ∧
      (t.installCap 0 3 ⟨7, 0⟩).capAt 1 3 ≠ t.capAt 1 3 := by
  refine ⟨_, rfl, by decide, by decide, ?_, by decide⟩
  rw [Set.not_disjoint_iff]
  exact ⟨16, by simp only [lauf, Set.mem_Ico]; decide, by simp only [lauf, Set.mem_Ico]; decide⟩

end PdTable

end Caprock.Microkit
