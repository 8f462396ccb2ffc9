import Caprock.Cap.AuditPanics

/-! # What the audit certifies

A table is a derivation forest when every link has its counterpart, no slot is its own
ancestor, no slot is its own later sibling, and every object is counted exactly.  The audit
checks all of this but one thing: it looks for rings along the parents only.  Among the
children of a slot there is none, since the first child has no sibling before it; slots
without a parent may form one.
-/

namespace Caprock.Cap

open Mem FunctionalGraph Checks

namespace CapSpace

variable {s : CapSpace} {kids : Nat → List Nat}

def geschwisterlinks (s : CapSpace) (i : Nat) : Option Nat :=
  if i < s.slots.len ∧ s.Used i then s.nextSibling i else none

theorem geschwisterlinks_eq_some {i n : Nat} :
    s.geschwisterlinks i = some n ↔ (i < s.slots.len ∧ s.Used i) ∧ s.nextSibling i = some n := by
  unfold geschwisterlinks
  by_cases hi : i < s.slots.len ∧ s.Used i
  · rw [if_pos hi]
    exact (and_iff_right hi).symm
  · rw [if_neg hi]
    exact ⟨nofun, fun h => absurd h.1 hi⟩

/-- A well-formed derivation forest. -/
structure Wald (s : CapSpace) : Prop where
  object : ∀ i, i < s.slots.len → s.Used i → (s.slots.cell i).object < s.objects.len ∧
    (s.objects.cell (s.slots.cell i).object).used = true
  refcount : ∀ o, o < s.objects.len → (s.objects.cell o).used = true →
    (s.objects.cell o).refcount = (s.namen o).card ∧ 0 < (s.namen o).card
  links : s.AlleRichtig
  eltern : Acyclic s.elternlinks
  geschwister : Acyclic s.geschwisterlinks

/-- What the audit checks of it; it counts in 32 bits. -/
def Geprueft (s : CapSpace) : Prop := s.Zaehlerstand ∧ s.AlleRichtig ∧ Acyclic s.elternlinks

/-- Slots without a parent whose sibling links lead back to the first. -/
def Ring (s : CapSpace) : Prop :=
  ∃ i, s.parent i = none ∧ Relation.TransGen (Edge s.geschwisterlinks) i i

def Ueberlauf (s : CapSpace) : Prop := ∃ o, o < s.objects.len ∧ 2 ^ 32 ≤ (s.namen o).card

theorem AlleRichtig.cycle_prev (h : s.AlleRichtig) {x y : Nat} (hx : x < s.slots.len)
    (hused : s.Used x) (hnext : s.nextSibling x = some y)
    (hcycle : Relation.TransGen (Edge s.geschwisterlinks) y y) :
    Relation.TransGen (Edge s.geschwisterlinks) x x := by
  obtain ⟨z, hyz, hzy⟩ := Relation.TransGen.tail'_iff.mp hcycle
  obtain ⟨⟨hz, hzu⟩, hznext⟩ := geschwisterlinks_eq_some.mp hzy
  have hprevz := ((h z hz hzu).next y hznext).2.2.1
  have hprevx := ((h x hx hused).next y hnext).2.2.1
  obtain rfl : x = z := by
    rw [hprevx] at hprevz
    exact Option.some.inj hprevz
  exact Relation.TransGen.head' hzy hyz

theorem AlleRichtig.parent_of_cycle (h : s.AlleRichtig) {i : Nat}
    (hcycle : Relation.TransGen (Edge s.geschwisterlinks) i i) : s.parent i = none := by
  cases hp : s.parent i with
  | none => rfl
  | some p =>
    exfalso
    obtain ⟨n, hin, -⟩ := Relation.TransGen.head'_iff.mp hcycle
    obtain ⟨⟨hi, hiu⟩, -⟩ := geschwisterlinks_eq_some.mp hin
    obtain ⟨hplt, hpu, -, c, hc, hreach⟩ := (h i hi hiu).parent p hp
    obtain ⟨hclt, hcu, -, hprev⟩ := (h p hplt hpu).firstChild c hc
    have hback : ∀ x, Reaches s.naechster x i → x < s.slots.len ∧ s.Used x →
        Relation.TransGen (Edge s.geschwisterlinks) x x := by
      intro x hx
      induction hx using Relation.ReflTransGen.head_induction_on with
      | refl => exact fun _ => hcycle
      | head hxy _ ih =>
        rintro ⟨hx, hxu⟩
        have hnext := (naechster_eq hx).symm.trans hxy
        obtain ⟨hy, hyu, -⟩ := (h _ hx hxu).next _ hnext
        exact h.cycle_prev hx hxu hnext (ih ⟨hy, hyu⟩)
    obtain ⟨w, -, hwc⟩ := Relation.TransGen.tail'_iff.mp (hback c hreach ⟨hclt, hcu⟩)
    obtain ⟨⟨hw, hwu⟩, hwnext⟩ := geschwisterlinks_eq_some.mp hwc
    have hprevw := ((h w hw hwu).next c hwnext).2.2.1
    rw [hprev] at hprevw
    cases hprevw

theorem AlleRichtig.geschwister_iff (h : s.AlleRichtig) :
    Acyclic s.geschwisterlinks ↔ ¬ s.Ring := by
  constructor
  · rintro hacyc ⟨i, -, hcycle⟩
    exact hacyc i hcycle
  · intro hno i hcycle
    exact hno ⟨i, h.parent_of_cycle hcycle, hcycle⟩

theorem Wald.geprueft (h : s.Wald)
    (hwort : ∀ o, o < s.objects.len → (s.objects.cell o).refcount < 2 ^ 32) : s.Geprueft := by
  refine ⟨⟨h.object, fun o ho hused => ?_⟩, h.links, h.eltern⟩
  obtain ⟨heq, hpos⟩ := h.refcount o ho hused
  have hlt := hwort o ho
  rw [heq] at hlt
  rw [Nat.mod_eq_of_lt hlt]
  exact ⟨heq, Nat.pos_iff_ne_zero.mp hpos⟩

theorem Wald.not_ueberlauf (h : s.Wald)
    (hwort : ∀ o, o < s.objects.len → (s.objects.cell o).refcount < 2 ^ 32) : ¬ s.Ueberlauf := by
  rintro ⟨o, ho, hmany⟩
  have hpos : 0 < (s.namen o).card := by omega
  obtain ⟨i, hi⟩ := Finset.card_pos.mp hpos
  obtain ⟨hlt, hused, hname⟩ := mem_namen.mp hi
  have hobj : (s.objects.cell o).used = true := by
    have hused' := (h.object i hlt hused).2
    rwa [show (s.slots.cell i).object = o from hname] at hused'
  have heq := (h.refcount o ho hobj).1
  have hsmall := hwort o ho
  omega

theorem Geprueft.wald (h : s.Geprueft) (hring : ¬ s.Ring) (hueb : ¬ s.Ueberlauf) : s.Wald := by
  obtain ⟨hz, hl, hacyc⟩ := h
  refine ⟨hz.object, fun o ho hused => ?_, hl, hacyc, hl.geschwister_iff.mpr hring⟩
  obtain ⟨heq, hne⟩ := hz.refcount o ho hused
  have hlt : (s.namen o).card < 2 ^ 32 := not_le.mp fun hle => hueb ⟨o, ho, hle⟩
  rw [Nat.mod_eq_of_lt hlt] at heq hne
  exact ⟨heq, Nat.pos_of_ne_zero hne⟩

/-- Every link of every slot, used or not, is an index of the table. -/
structure Verkettet (s : CapSpace) : Prop where
  parent : ∀ i x, i < s.slots.len → s.parent i = some x → x < s.slots.len
  firstChild : ∀ i x, i < s.slots.len → s.firstChild i = some x → x < s.slots.len
  next : ∀ i x, i < s.slots.len → s.nextSibling i = some x → x < s.slots.len
  prev : ∀ i x, i < s.slots.len → s.prevSibling i = some x → x < s.slots.len

theorem lt_of_reaches
    (hnext : ∀ i x, i < s.slots.len → s.nextSibling i = some x → x < s.slots.len) {c x : Nat}
    (hc : c < s.slots.len) (h : Reaches s.naechster c x) : x < s.slots.len := by
  induction h with
  | refl => exact hc
  | tail _ hxy ih => exact hnext _ _ ih ((naechster_eq ih).symm.trans hxy)

theorem Verkettet.not_leck (h : s.Verkettet) (i : Nat) : ¬ s.Leck i := by
  rintro ⟨p, c, x, -, hp, -, -, hc, hreach, hx, -⟩
  exact absurd (lt_of_reaches h.next (h.firstChild p c hp hc) hreach) (not_lt.mpr hx)

theorem pruefeCdt_isSome (hno : ∀ i, ¬ s.Leck i) (refsLen : Nat) :
    ∃ v, s.pruefeCdt refsLen = some v := by
  rw [← Option.ne_none_iff_exists', ne_eq, pruefeCdt_eq_none]
  rintro ⟨-, -, i, -, -, hleck, -⟩
  exact hno i hleck

/-- For every table whose links are indices of the table and whose counts are 32-bit words,
and a count buffer that is long enough: the audit returns.  It returns 0 exactly for the
derivation forests, exactly if the table is not one in which everything that is checked holds
while slots without a parent form a ring, or more slots name an object than a count holds. -/
theorem pruefeCdt_wald_iff (s : CapSpace) (refsLen : Nat) (hlinks : s.Verkettet)
    (hwort : ∀ o, o < s.objects.len → (s.objects.cell o).refcount < 2 ^ 32)
    (hlen : s.objects.len ≤ refsLen) :
    (∃ v, s.pruefeCdt refsLen = some v) ∧
      ((s.pruefeCdt refsLen = some 0 ↔ s.Wald) ↔ ¬ (s.Geprueft ∧ (s.Ring ∨ s.Ueberlauf))) := by
  refine ⟨pruefeCdt_isSome hlinks.not_leck refsLen, ?_⟩
  rw [pruefeCdt_eq_zero hlen, ← Geprueft]
  constructor
  · rintro hiff ⟨hg, hbad⟩
    have hw := hiff.mp hg
    rcases hbad with hring | hueb
    · exact hw.links.geschwister_iff.mp hw.geschwister hring
    · exact hw.not_ueberlauf hwort hueb
  · intro hgood
    refine ⟨fun hg => ?_, fun hw => hw.geprueft hwort⟩
    rw [not_and, not_or] at hgood
    exact hg.wald (hgood hg).1 (hgood hg).2

theorem Inv.pruefeCdt_eq (h : Inv s kids) : s.pruefeCdt s.objects.len = some 0 := by
  have hleck : ∀ i, ¬ s.Leck i := by
    rintro i ⟨p, c, x, -, -, hpu, -, hc, hreach, hx, -⟩
    have hcu : s.Used c := by
      have hhead : (kids p).head? = some c := (h.forest.first p hpu).symm.trans hc
      exact h.forest.used_of_mem hpu (List.mem_of_head? hhead)
    have hxu : s.Used x := by
      clear hx
      induction hreach with
      | refl => exact hcu
      | tail _ hxy ih =>
        have hnext := (naechster_eq (h.bound _ ih)).symm.trans hxy
        obtain ⟨q, hqu, -, hyq, -⟩ := h.forest.mem_of_next ih hnext
        exact h.forest.used_of_mem hqu hyq
    exact absurd (h.bound x hxu) (not_lt.mpr hx)
  obtain ⟨v, hv⟩ := pruefeCdt_isSome hleck s.objects.len
  have hnull : v = 0 := (auditCdt_of_pruefeCdt hv).symm.trans (h.auditCdt le_rfl)
  rwa [hnull] at hv

theorem Inv.wald (h : Inv s kids) : s.Wald := by
  refine Geprueft.wald ((pruefeCdt_eq_zero le_rfl).mp h.pruefeCdt_eq) ?_ ?_
  · rintro ⟨i, hroot, hcycle⟩
    obtain ⟨n, hin, -⟩ := Relation.TransGen.head'_iff.mp hcycle
    obtain ⟨⟨-, hiu⟩, hnext⟩ := geschwisterlinks_eq_some.mp hin
    have hnone := (h.forest.root i hiu hroot).1
    rw [show s.nextSibling i = none from hnone] at hnext
    cases hnext
  · rintro ⟨o, -, hmany⟩
    have hle := namen_card_le s o
    have hsize := h.size
    omega

/-- Whatever operations run: the table is a derivation forest, and the audit reads only what is in
the table and returns 0. -/
theorem run_wald (tab : Tabellen) (alloc : PhysAllocator) (ops : List Op) :
    ∃ k, Execution.run Kern.step (Kern.init tab alloc) ops = some k ∧ k.caps.Wald ∧
      k.caps.pruefeCdt k.caps.objects.len = some 0 := by
  have hstep : ∀ (k : Kern) (op : Op), (∃ kids, k.caps.Inv kids) → True →
      ∃ k', k.step op = some k' ∧ ∃ kids, k'.caps.Inv kids := by
    intro k op hk _
    obtain ⟨k', hk'⟩ := Kern.step_eq_some k op
    exact ⟨k', hk', Kern.step_inv k op k' hk hk'⟩
  have hinit : ∃ kids, (Kern.init tab alloc).caps.Inv kids := ⟨_, attached_inv tab⟩
  obtain ⟨k, hrun, kids, hk⟩ := Execution.run_total hstep hinit
    (Execution.Admissible.of_forall (fun _ _ => trivial) _ ops)
  exact ⟨k, hrun, hk.wald, hk.pruefeCdt_eq⟩

theorem zweiSlots_verkettet {a b : Mdb}
    (h : ∀ m, m = a ∨ m = b → ∀ x, m.parent = some x ∨ m.firstChild = some x ∨
      m.nextSibling = some x ∨ m.prevSibling = some x → x < 2) : (zweiSlots a b).Verkettet := by
  have hzelle : ∀ i, ((zweiSlots a b).slots.cell i).mdb = a ∨
      ((zweiSlots a b).slots.cell i).mdb = b := by
    intro i
    by_cases hi : i = 0
    · left
      simp [zweiSlots, tabellenSlot, hi]
    · right
      simp [zweiSlots, tabellenSlot, hi]
  constructor
  · exact fun i x _ hx => h _ (hzelle i) x (.inl hx)
  · exact fun i x _ hx => h _ (hzelle i) x (.inr (.inl hx))
  · exact fun i x _ hx => h _ (hzelle i) x (.inr (.inr (.inl hx)))
  · exact fun i x _ hx => h _ (hzelle i) x (.inr (.inr (.inr hx)))

theorem zweiSlots_refcount {a b : Mdb} {o : Nat} :
    ((zweiSlots a b).objects.cell o).refcount < 2 ^ 32 := show 2 < 2 ^ 32 by decide

/-- A root and its child. -/
theorem pruefeCdt_wald_child :
    (zweiSlots ⟨none, some 1, none, none⟩ ⟨some 0, none, none, none⟩).pruefeCdt 1 = some 0 ∧
      (zweiSlots ⟨none, some 1, none, none⟩ ⟨some 0, none, none, none⟩).Wald := by
  have hnext : ∀ i, (zweiSlots ⟨none, some 1, none, none⟩
      ⟨some 0, none, none, none⟩).nextSibling i = none := by
    intro i
    by_cases hi : i = 0 <;> simp [nextSibling, zweiSlots, tabellenSlot, hi]
  have hnull : (zweiSlots ⟨none, some 1, none, none⟩
      ⟨some 0, none, none, none⟩).pruefeCdt 1 = some 0 := by
    decide
  obtain ⟨-, hiff⟩ := pruefeCdt_wald_iff
    (zweiSlots ⟨none, some 1, none, none⟩ ⟨some 0, none, none, none⟩) 1
    (zweiSlots_verkettet (by simp +contextual)) (fun _ _ => zweiSlots_refcount) (by decide)
  refine ⟨hnull, (hiff.mpr ?_).mp hnull⟩
  rintro ⟨-, ⟨i, -, hcycle⟩ | ⟨o, -, hmany⟩⟩
  · obtain ⟨n, hin, -⟩ := Relation.TransGen.head'_iff.mp hcycle
    have hin' := (geschwisterlinks_eq_some.mp hin).2
    rw [hnext] at hin'
    cases hin'
  · exact absurd (hmany.trans (Inv.namen_card_le _ o)) (by decide)

/-- Two slots without a parent, each the sibling before and behind the other. -/
theorem pruefeCdt_passes_ring : ∃ s : CapSpace, s.Verkettet ∧
    (∀ o, o < s.objects.len → (s.objects.cell o).refcount < 2 ^ 32) ∧ s.objects.len = 1 ∧
      s.pruefeCdt 1 = some 0 ∧ ¬ s.Wald := by
  refine ⟨zweiSlots ⟨none, none, some 1, some 1⟩ ⟨none, none, some 0, some 0⟩,
    zweiSlots_verkettet (by simp +contextual), fun _ _ => zweiSlots_refcount, rfl, by decide,
    fun h => h.geschwister 0 ?_⟩
  have h01 : Edge (zweiSlots ⟨none, none, some 1, some 1⟩
      ⟨none, none, some 0, some 0⟩).geschwisterlinks 0 1 := by
    exact geschwisterlinks_eq_some.mpr ⟨⟨by decide, rfl⟩, rfl⟩
  have h10 : Edge (zweiSlots ⟨none, none, some 1, some 1⟩
      ⟨none, none, some 0, some 0⟩).geschwisterlinks 1 0 := by
    exact geschwisterlinks_eq_some.mpr ⟨⟨by decide, rfl⟩, rfl⟩
  exact .head h01 (.single h10)

end CapSpace

end Caprock.Cap
