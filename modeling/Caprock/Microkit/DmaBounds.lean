import Caprock.Microkit.Caps

/-! # The audit of the device memory

`dma_bounds_audit` passes once over the object table.  It judges every device region by itself
and notes the first 32 of them; among those it looks for two that overlap.  What is behind
the first 32 is judged alone and never compared.
-/

namespace Caprock.Cap.CapSpace

/-- `for_each_dma`: base and length of all device regions, in the order of the table. -/
def forEachDma (s : CapSpace) : List (Nat × Nat) :=
  (List.range s.objects.len).filterMap fun o =>
    if (s.objects.cell o).used then
      match (s.objects.cell o).kind with
      | .dma phys len _ _ => some (phys, len)
      | _ => none
    else none

end Caprock.Cap.CapSpace

namespace Caprock.Microkit

open Cap Word

def dmaRegs : Nat := 32

/-- The two variables of the pass: the regions noted, and the verdict so far. -/
structure DmaBefund where
  regs : List (Nat × Nat)
  bad : Nat

def DmaSchlecht (floor ceil : Nat) (r : Nat × Nat) : Prop :=
  r.2 = 0 ∨ r.1 % 4096 ≠ 0 ∨ r.2 % 4096 ≠ 0 ∨ r.1 < floor ∨ ceil < saturatingAdd r.1 r.2

instance (floor ceil : Nat) (r : Nat × Nat) : Decidable (DmaSchlecht floor ceil r) :=
  inferInstanceAs (Decidable (_ ∨ _))

def DmaBefund.melden (floor ceil : Nat) (b : DmaBefund) (r : Nat × Nat) : DmaBefund where
  regs := if b.regs.length < dmaRegs then b.regs ++ [r] else b.regs
  bad := if DmaSchlecht floor ceil r then 1 else b.bad

/-- The comparison of two noted regions; the sums wrap. -/
def DmaUeberlappt (a b : Nat × Nat) : Prop := a.1 < wadd b.1 b.2 ∧ b.1 < wadd a.1 a.2

instance (a b : Nat × Nat) : Decidable (DmaUeberlappt a b) := inferInstanceAs (Decidable (_ ∧ _))

def dmaPaare (regs : List (Nat × Nat)) : Nat :=
  ((List.range regs.length).findSome? fun i =>
    (List.range' (i + 1) (regs.length - (i + 1))).findSome? fun j =>
      if DmaUeberlappt (regs.getD i (0, 0)) (regs.getD j (0, 0)) then some 2 else none).getD 0

namespace Caps

def dmaBoundsAudit (g : Caps) (floor ceil : Nat) : Nat :=
  let b := g.cspace.forEachDma.foldl (DmaBefund.melden floor ceil) ⟨[], 0⟩
  if b.bad ≠ 0 then b.bad else dmaPaare b.regs

end Caps

theorem foldl_melden (floor ceil : Nat) (ds : List (Nat × Nat)) :
    (ds.foldl (DmaBefund.melden floor ceil) ⟨[], 0⟩).regs = ds.take dmaRegs ∧
      ((ds.foldl (DmaBefund.melden floor ceil) ⟨[], 0⟩).bad = 0 ↔
        ∀ r ∈ ds, ¬ DmaSchlecht floor ceil r) := by
  induction ds using List.reverseRecOn with
  | nil => simp
  | append_singleton ds r ih =>
    obtain ⟨hregs, hbad⟩ := ih
    rw [List.foldl_append, List.foldl_cons, List.foldl_nil]
    simp only [DmaBefund.melden, hregs, List.length_take]
    constructor
    · by_cases hroom : ds.length < dmaRegs
      · rw [if_pos (by omega), List.take_of_length_le (Nat.le_of_lt hroom),
          List.take_of_length_le (by simpa using Nat.succ_le_of_lt hroom)]
      · rw [if_neg (by omega), List.take_append_of_le_length (Nat.not_lt.mp hroom)]
    · by_cases hr : DmaSchlecht floor ceil r
      · rw [if_pos hr]
        exact iff_of_false Nat.one_ne_zero fun h =>
          h r (List.mem_append_right _ List.mem_cons_self) hr
      · rw [if_neg hr, hbad, List.forall_mem_append, List.forall_mem_singleton]
        exact (and_iff_left hr).symm

theorem pairwise_iff_getElem? {α : Type} {R : α → α → Prop} {l : List α} :
    l.Pairwise R ↔ ∀ (i j : Nat) (a b : α), i < j → l[i]? = some a → l[j]? = some b → R a b := by
  rw [List.pairwise_iff_getElem]
  constructor
  · intro h i j a b hij ha hb
    obtain ⟨hi, rfl⟩ := List.getElem?_eq_some_iff.mp ha
    obtain ⟨hj, rfl⟩ := List.getElem?_eq_some_iff.mp hb
    exact h i j hi hj hij
  · intro h i j hi hj hij
    exact h i j _ _ hij (List.getElem?_eq_getElem hi) (List.getElem?_eq_getElem hj)

theorem dmaPaare_eq_zero_iff (regs : List (Nat × Nat)) :
    dmaPaare regs = 0 ↔ regs.Pairwise fun a b => ¬ DmaUeberlappt a b := by
  have hcell : ∀ i a, regs[i]? = some a → regs.getD i (0, 0) = a := by
    intro i a ha
    rw [List.getD_eq_getElem?_getD, ha, Option.getD_some]
  rw [pairwise_iff_getElem?]
  unfold dmaPaare
  constructor
  · intro h i j a b hij ha hb hover
    have hj : j < regs.length := (List.getElem?_eq_some_iff.mp hb).1
    cases hfound : (List.range regs.length).findSome? fun i =>
        (List.range' (i + 1) (regs.length - (i + 1))).findSome? fun j =>
          if DmaUeberlappt (regs.getD i (0, 0)) (regs.getD j (0, 0)) then some 2 else none with
    | none =>
      have hrow := List.findSome?_eq_none_iff.mp hfound i (List.mem_range.mpr (by omega))
      have hcol := List.findSome?_eq_none_iff.mp hrow j (by
        rw [List.mem_range'_1]
        omega)
      rw [hcell i a ha, hcell j b hb, if_pos hover] at hcol
      cases hcol
    | some code =>
      rw [hfound, Option.getD_some] at h
      obtain ⟨i', -, hrow⟩ := List.exists_of_findSome?_eq_some hfound
      obtain ⟨j', -, hcol⟩ := List.exists_of_findSome?_eq_some hrow
      split at hcol
      · rw [← Option.some.inj hcol] at h
        cases h
      · cases hcol
  · intro h
    have hnone : ((List.range regs.length).findSome? fun i =>
        (List.range' (i + 1) (regs.length - (i + 1))).findSome? fun j =>
          if DmaUeberlappt (regs.getD i (0, 0)) (regs.getD j (0, 0)) then some 2 else none) =
        none := by
      rw [List.findSome?_eq_none_iff]
      intro i hi
      rw [List.findSome?_eq_none_iff]
      intro j hj
      rw [List.mem_range] at hi
      rw [List.mem_range'_1] at hj
      have hjlt : j < regs.length := by omega
      have hnot := h i j regs[i] regs[j] (by omega) (List.getElem?_eq_getElem hi)
        (List.getElem?_eq_getElem hjlt)
      rw [hcell i _ (List.getElem?_eq_getElem hi), hcell j _ (List.getElem?_eq_getElem hjlt),
        if_neg hnot]
    rw [hnone, Option.getD_none]

namespace Caps

/-- A verdict of zero: no region is bad by itself, and the first ones do not overlap. -/
theorem dmaBoundsAudit_eq_zero_iff (g : Caps) (floor ceil : Nat) :
    g.dmaBoundsAudit floor ceil = 0 ↔
      (∀ r ∈ g.cspace.forEachDma, ¬ DmaSchlecht floor ceil r) ∧
        (g.cspace.forEachDma.take dmaRegs).Pairwise fun a b => ¬ DmaUeberlappt a b := by
  obtain ⟨hregs, hbad⟩ := foldl_melden floor ceil g.cspace.forEachDma
  unfold dmaBoundsAudit
  rw [← hbad, ← dmaPaare_eq_zero_iff, ← hregs]
  dsimp only
  split
  · rename_i hne
    simp [hne]
  · rename_i heq
    rw [Decidable.not_not] at heq
    simp [heq]

/-- All device regions are whole pages in the window `[floor, ceil)`, apart from each other. -/
structure DmaGeordnet (g : Caps) (floor ceil : Nat) : Prop where
  seiten : ∀ r ∈ g.cspace.forEachDma, r.2 ≠ 0 ∧ 4096 ∣ r.1 ∧ 4096 ∣ r.2
  fenster : ∀ r ∈ g.cspace.forEachDma, floor ≤ r.1 ∧ r.1 + r.2 ≤ ceil
  getrennt : g.cspace.forEachDma.Pairwise fun a b => a.1 + a.2 ≤ b.1 ∨ b.1 + b.2 ≤ a.1

def DmaRestGetrennt (g : Caps) (floor ceil : Nat) : Prop :=
  (∀ r ∈ g.cspace.forEachDma, ¬ DmaSchlecht floor ceil r) →
    ((g.cspace.forEachDma.take dmaRegs).Pairwise fun a b => ¬ DmaUeberlappt a b) →
    (∀ r ∈ g.cspace.forEachDma, r.1 + r.2 < 2 ^ 64) ∧
      ∀ (i j : Nat) (a b : Nat × Nat), i < j → dmaRegs ≤ j →
        g.cspace.forEachDma[i]? = some a → g.cspace.forEachDma[j]? = some b →
        a.1 + a.2 ≤ b.1 ∨ b.1 + b.2 ≤ a.1

theorem not_dmaSchlecht_iff {floor ceil : Nat} {r : Nat × Nat} (hlt : r.1 + r.2 < 2 ^ 64) :
    ¬ DmaSchlecht floor ceil r ↔
      (r.2 ≠ 0 ∧ 4096 ∣ r.1 ∧ 4096 ∣ r.2) ∧ floor ≤ r.1 ∧ r.1 + r.2 ≤ ceil := by
  have hsum : saturatingAdd r.1 r.2 = r.1 + r.2 := Nat.min_eq_left (by omega)
  rw [DmaSchlecht, hsum, Nat.dvd_iff_mod_eq_zero, Nat.dvd_iff_mod_eq_zero]
  omega

theorem not_dmaUeberlappt_iff {a b : Nat × Nat} (ha : a.1 + a.2 < 2 ^ 64)
    (hb : b.1 + b.2 < 2 ^ 64) :
    ¬ DmaUeberlappt a b ↔ a.1 + a.2 ≤ b.1 ∨ b.1 + b.2 ≤ a.1 := by
  rw [DmaUeberlappt, wadd_eq ha, wadd_eq hb]
  omega

/-- The audit is exact if and only if the regions behind the first ones are in order whenever
it finds nothing else. -/
theorem dmaBoundsAudit_exact_iff (g : Caps) (floor ceil : Nat) (hceil : ceil < 2 ^ 64) :
    (g.dmaBoundsAudit floor ceil = 0 ↔ g.DmaGeordnet floor ceil) ↔
      g.DmaRestGetrennt floor ceil := by
  rw [dmaBoundsAudit_eq_zero_iff]
  constructor
  · intro h hgood hfirst
    have hord := h.mp ⟨hgood, hfirst⟩
    refine ⟨fun r hr => ?_, fun i j a b hij _ ha hb => ?_⟩
    · have hend := (hord.fenster r hr).2
      omega
    · exact (pairwise_iff_getElem?.mp hord.getrennt) i j a b hij ha hb
  · intro h
    constructor
    · rintro ⟨hgood, hfirst⟩
      obtain ⟨hlt, hrest⟩ := h hgood hfirst
      refine ⟨fun r hr => ?_, fun r hr => ?_, ?_⟩
      · exact ((not_dmaSchlecht_iff (hlt r hr)).mp (hgood r hr)).1
      · exact ((not_dmaSchlecht_iff (hlt r hr)).mp (hgood r hr)).2
      · rw [pairwise_iff_getElem?]
        intro i j a b hij ha hb
        by_cases hj : j < dmaRegs
        · have hnot := (pairwise_iff_getElem?.mp hfirst) i j a b hij
            (by rwa [List.getElem?_take_of_lt (by omega)])
            (by rwa [List.getElem?_take_of_lt hj])
          exact (not_dmaUeberlappt_iff (hlt a (List.mem_of_getElem? ha))
            (hlt b (List.mem_of_getElem? hb))).mp hnot
        · exact hrest i j a b hij (Nat.not_lt.mp hj) ha hb
    · intro hord
      have hlt : ∀ r ∈ g.cspace.forEachDma, r.1 + r.2 < 2 ^ 64 := by
        intro r hr
        have hend := (hord.fenster r hr).2
        omega
      refine ⟨fun r hr => ?_, ?_⟩
      · exact (not_dmaSchlecht_iff (hlt r hr)).mpr ⟨hord.seiten r hr, hord.fenster r hr⟩
      · rw [pairwise_iff_getElem?]
        intro i j a b hij ha hb
        have hj : j < dmaRegs := by
          by_contra hge
          rw [List.getElem?_take_eq_none (by omega)] at hb
          cases hb
        rw [List.getElem?_take_of_lt (by omega)] at ha
        rw [List.getElem?_take_of_lt hj] at hb
        exact (not_dmaUeberlappt_iff (hlt a (List.mem_of_getElem? ha))
          (hlt b (List.mem_of_getElem? hb))).mpr
          ((pairwise_iff_getElem?.mp hord.getrennt) i j a b hij ha hb)

/-- `n` device regions of one page, each with one capability; from the 33rd on they repeat. -/
def dmaTafel (n : Nat) : Caps where
  cspace :=
    { slots := ⟨n, fun i => { CapSlot.empty with used := true, object := i }⟩
      objects := ⟨n, fun i =>
        ⟨true, .dma (0x100000 + i % 32 * 0x1000) 0x1000 .bidirectional .nonCoherent, 1, 0⟩⟩
      peakSlots := n
      peakObjects := n
      peakCdtWalk := 0
      peakRevokeOps := 0
      cdtWalkOverruns := 0 }
  pds := PdTable.attached 0 0
  owner := fun _ => none

theorem dmaBoundsAudit_exact_two :
    (dmaTafel 2).dmaBoundsAudit 0x100000 0x40000000 = 0 ↔
      (dmaTafel 2).DmaGeordnet 0x100000 0x40000000 := by
  refine (dmaBoundsAudit_exact_iff (dmaTafel 2) 0x100000 0x40000000 (by decide)).mpr ?_
  have hlist : (dmaTafel 2).cspace.forEachDma = [(0x100000, 0x1000), (0x101000, 0x1000)] := rfl
  intro _ _
  rw [hlist]
  refine ⟨by decide, fun i j a b _ hj _ hb => ?_⟩
  have hlen : 2 ≤ j := Nat.le_trans (by decide) hj
  rw [List.getElem?_eq_none hlen] at hb
  cases hb

/-- The 33rd region is the first one once more, and the audit finds nothing. -/
theorem dmaBoundsAudit_overlap_unseen :
    (dmaTafel 33).dmaBoundsAudit 0x100000 0x40000000 = 0 ∧
      (dmaTafel 33).cspace.forEachDma[0]? = some (0x100000, 0x1000) ∧
      (dmaTafel 33).cspace.forEachDma[32]? = some (0x100000, 0x1000) ∧
      ¬ (dmaTafel 33).DmaGeordnet 0x100000 0x40000000 := by
  have hfirst : (dmaTafel 33).cspace.forEachDma[0]? = some (0x100000, 0x1000) := by
    decide
  have hlast : (dmaTafel 33).cspace.forEachDma[32]? = some (0x100000, 0x1000) := by
    decide
  refine ⟨by decide +kernel, hfirst, hlast, fun h => ?_⟩
  have hapart := (pairwise_iff_getElem?.mp h.getrennt) 0 32 _ _ (by decide) hfirst hlast
  exact absurd hapart (by decide)

end Caps

end Caprock.Microkit
