import Caprock.Microkit.Caps
import Caprock.Microkit.Grant

/-! # Checked installation

`install_cap_checked` asks policy and budget and then writes.  The write is silent: outside the run
of the domain, or of the pool, it does nothing, and no question before it was about that.  What the
verdict promises is therefore kept exactly where the slot has a place, and that place is its own.
-/

namespace Caprock.Microkit

open Cap Mem Execution

namespace PdTable

variable {t : PdTable} {pd slot i : Nat}

def cspaceVon (t : PdTable) (pd : Nat) : Slab (Option CapPtr) := ⟨t.cspaceLenVon pd, t.capAt pd⟩

theorem capCount_eq (t : PdTable) (pd : Nat) :
    t.capCount pd = (t.cspaceVon pd).count Option.isSome := by
  unfold capCount Slab.count cspaceVon cspaceLenVon
  by_cases hused : t.isUsed pd
  · rw [if_pos hused]
    dsimp only
    rw [if_pos hused]
    apply List.countP_congr
    intro k hk
    rw [capAt, cspaceLenVon, if_pos hused, if_pos (List.mem_range.mp hk)]
  · simp [hused]

theorem lt_of_platz (h : t.platz pd slot = some i) : slot < t.cspaceLenVon pd := by
  unfold platz at h
  split at h
  · next hand => exact hand.1
  · cases h

theorem platz_inj {j k : Nat} (hj : t.platz pd j = some i) (hk : t.platz pd k = some i) : j = k := by
  unfold platz at hj hk
  split at hj
  · split at hk
    · cases hj
      have hsum := Option.some.inj hk
      omega
    · cases hk
  · cases hj

theorem cspaceVon_poolSchreiben (h : t.platz pd slot = some i) (c : Option CapPtr) :
    (t.poolSchreiben pd slot c).cspaceVon pd = (t.cspaceVon pd).set slot c := by
  have hlen : (t.poolSchreiben pd slot c).cspaceLenVon pd = t.cspaceLenVon pd := by
    rw [poolSchreiben_of_platz h]
    exact cspaceLenVon_congr rfl pd
  unfold cspaceVon Slab.set
  rw [hlen]
  congr 1
  funext k
  rw [capAt_poolSchreiben_of_platz h]
  by_cases hk : k = slot
  · rw [hk, if_pos h, Function.update_self]
  · rw [if_neg fun hplatz => hk (platz_inj hplatz h), Function.update_of_ne hk]

theorem capCount_installCap (h : t.platz pd slot = some i) (cap : CapPtr) :
    (t.installCap pd slot cap).capCount pd + (t.capAt pd slot).isSome.toNat =
      t.capCount pd + 1 := by
  have hset := Slab.count_set (t.cspaceVon pd) (lt_of_platz h) (some cap) Option.isSome
  rw [installCap, capCount_eq, capCount_eq, cspaceVon_poolSchreiben h]
  exact hset

theorem budgetOf_installCap (t : PdTable) (pd slot : Nat) (cap : CapPtr) (j : Nat) :
    (t.installCap pd slot cap).budgetOf j = t.budgetOf j := by
  obtain ⟨cell, heq⟩ := t.poolSchreiben_eq pd slot (some cap)
  rw [installCap, heq]
  rfl

theorem capAt_installCap_self (h : t.platz pd slot = some i) (cap : CapPtr) :
    (t.installCap pd slot cap).capAt pd slot = some cap := by
  rw [installCap, capAt_poolSchreiben_of_platz h, if_pos h]

theorem capAt_installCap_of_platz_none (h : t.platz pd slot = none) (cap : CapPtr) :
    (t.installCap pd slot cap).capAt pd slot = none := by
  obtain ⟨cell, heq⟩ := t.poolSchreiben_eq pd slot (some cap)
  have hplatz : (t.installCap pd slot cap).platz pd slot = none := by
    rw [installCap, heq, ← h]
    exact platz_congr rfl rfl pd slot
  rw [capAt_eq_platz, hplatz]
  rfl

end PdTable

namespace Caps

variable {g : Caps} {pd slot : Nat} {cap : CapPtr}

/-- What the verdict of `install_cap_checked` promises. -/
structure Wahrhaftig (g : Caps) (pd slot : Nat) (cap : CapPtr) : Prop where
  eingetragen : (g.installCapChecked pd slot cap).1 = true →
    (g.installCapChecked pd slot cap).2.pds.capAt pd slot = some cap
  budget : (g.installCapChecked pd slot cap).1 = true →
    (g.installCapChecked pd slot cap).2.pds.capCount pd ≤
      (g.installCapChecked pd slot cap).2.pds.budgetOf pd
  rest : (g.installCapChecked pd slot cap).1 = true → ∀ j k, ¬ (j = pd ∧ k = slot) →
    (g.installCapChecked pd slot cap).2.pds.capAt j k = g.pds.capAt j k
  abgelehnt : (g.installCapChecked pd slot cap).1 = false → (g.installCapChecked pd slot cap).2 = g

/-- Policy or budget refuse. -/
def Verweigert (g : Caps) (pd slot : Nat) (cap : CapPtr) : Prop :=
  g.capAllowed pd cap = false ∨ g.budgetAllows pd slot = false

instance (g : Caps) (pd slot : Nat) (cap : CapPtr) : Decidable (g.Verweigert pd slot cap) :=
  inferInstanceAs (Decidable (_ ∨ _))

/-- The slot has a place in the pool that no other slot reads, unless the capability is there
already; and a domain whose slot is overwritten is within its budget. -/
def ZielTraegt (g : Caps) (pd slot : Nat) (cap : CapPtr) : Prop :=
  (∃ i, g.pds.platz pd slot = some i ∧
      (g.pds.capAt pd slot = some cap ∨ ∀ j k, g.pds.platz j k = some i → j = pd ∧ k = slot)) ∧
    ((g.pds.capAt pd slot).isSome = true → g.pds.capCount pd ≤ g.pds.budgetOf pd)

theorem installCapChecked_of_verweigert (h : g.Verweigert pd slot cap) :
    g.installCapChecked pd slot cap = (false, g) :=
  if_pos h

theorem installCapChecked_of_not_verweigert (h : ¬ g.Verweigert pd slot cap) :
    g.installCapChecked pd slot cap = (true, { g with pds := g.pds.installCap pd slot cap }) :=
  if_neg h

theorem capCount_lt_of_not_verweigert (h : ¬ g.Verweigert pd slot cap)
    (hfrei : (g.pds.capAt pd slot).isSome = false) : g.pds.capCount pd < g.pds.budgetOf pd := by
  have hbudget : g.budgetAllows pd slot = true := by
    by_contra hnot
    exact h (.inr (by simpa using hnot))
  simpa [budgetAllows, hfrei] using hbudget

theorem rest_iff {i : Nat} (hplatz : g.pds.platz pd slot = some i) :
    (∀ j k, ¬ (j = pd ∧ k = slot) → (g.pds.installCap pd slot cap).capAt j k = g.pds.capAt j k) ↔
      g.pds.capAt pd slot = some cap ∨ ∀ j k, g.pds.platz j k = some i → j = pd ∧ k = slot := by
  have hgleich : ∀ j k, g.pds.platz j k = some i → g.pds.capAt j k = g.pds.capAt pd slot := by
    intro j k hjk
    rw [PdTable.capAt_eq_platz, PdTable.capAt_eq_platz, hjk, hplatz]
  have hwrite := PdTable.capAt_poolSchreiben_of_platz hplatz (some cap)
  constructor
  · intro hrest
    by_contra hnot
    push Not at hnot
    obtain ⟨hneu, j, k, hjk, hne⟩ := hnot
    have heq := hrest j k fun hand => hne hand.1 hand.2
    rw [PdTable.installCap, hwrite, if_pos hjk, hgleich j k hjk] at heq
    exact hneu heq.symm
  · intro h j k hne
    rw [PdTable.installCap, hwrite]
    by_cases hjk : g.pds.platz j k = some i
    · rw [if_pos hjk]
      rcases h with hda | hallein
      · rw [hgleich j k hjk, hda]
      · exact absurd (hallein j k hjk) hne
    · rw [if_neg hjk]

/-- The verdict of `install_cap_checked` is true to what it did exactly if it refuses, or the
target carries the write. -/
theorem installCapChecked_wahrhaftig_iff (g : Caps) (pd slot : Nat) (cap : CapPtr) :
    g.Wahrhaftig pd slot cap ↔ g.Verweigert pd slot cap ∨ g.ZielTraegt pd slot cap := by
  by_cases hnein : g.Verweigert pd slot cap
  · refine ⟨fun _ => .inl hnein, fun _ => ?_⟩
    have heq := installCapChecked_of_verweigert hnein
    constructor <;> rw [heq] <;> intro h
    · cases h
    · cases h
    · cases h
    · rfl
  · have heq := installCapChecked_of_not_verweigert hnein
    constructor
    · intro h
      have hda := h.eingetragen
      have hbudget := h.budget
      have hrest := h.rest
      rw [heq] at hda hbudget hrest
      dsimp only at hda hbudget hrest
      right
      cases hplatz : g.pds.platz pd slot with
      | none =>
          rw [PdTable.capAt_installCap_of_platz_none hplatz] at hda
          cases hda rfl
      | some i =>
          refine ⟨⟨i, hplatz, (rest_iff hplatz).mp (hrest rfl)⟩, fun hbelegt => ?_⟩
          have hcount := PdTable.capCount_installCap hplatz cap
          have hle := hbudget rfl
          rw [PdTable.budgetOf_installCap] at hle
          rw [hbelegt] at hcount
          simp only [Bool.toNat_true] at hcount
          omega
    · rintro (h | ⟨⟨i, hplatz, hallein⟩, hbelegt⟩)
      · exact absurd h hnein
      · constructor <;> rw [heq] <;> intro hok
        · exact PdTable.capAt_installCap_self hplatz cap
        · have hcount := PdTable.capCount_installCap hplatz cap
          dsimp only
          rw [PdTable.budgetOf_installCap]
          cases hfrei : (g.pds.capAt pd slot).isSome with
          | true =>
              rw [hfrei] at hcount
              have hle := hbelegt hfrei
              simp only [Bool.toNat_true] at hcount
              omega
          | false =>
              rw [hfrei] at hcount
              have hlt := capCount_lt_of_not_verweigert hnein hfrei
              simp only [Bool.toNat_false] at hcount
              omega
        · exact (rest_iff hplatz).mpr hallein
        · cases hok

/-- One domain with the default sixteen places, and an endpoint. -/
def einePd (t : PdTable) : Caps where
  cspace := ((CapSpace.attached (.klein 4 4)).install (.endpoint 0) Rights.rw).2
  pds := t
  owner := fun _ => none

/-- Slot 16 is installed, says the verdict, and nothing was written. -/
theorem installCapChecked_beyond_run :
    ∃ t, run PdTable.step (PdTable.attached 1 64) [.create .trustedSas 0 0] = some t ∧
      ((einePd t).installCapChecked 0 16 ⟨0, 0⟩).1 = true ∧
      ((einePd t).installCapChecked 0 16 ⟨0, 0⟩).2.pds.capAt 0 16 = none ∧
      ¬ (einePd t).Wahrhaftig 0 16 ⟨0, 0⟩ := by
  refine ⟨_, rfl, by decide, by decide, fun h => ?_⟩
  have hda := h.eingetragen (by decide)
  exact absurd hda (by decide)

end Caps

end Caprock.Microkit
