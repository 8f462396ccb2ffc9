import Caprock.Cap.Audit
import Caprock.Lib.Checks
import Caprock.Lib.FunctionalGraph

/-! # The audit on any table

`audit_cdt` reads tables of any content, so here every access outside a table is a panic.
It range-checks each link before it follows it, except one: on its way through a child list
it takes the next sibling of a slot that it has not looked at yet.
-/

namespace Caprock.Cap

open Mem FunctionalGraph Checks

namespace CapSpace

/-- Look for `i` in a child list; at most `n` more steps. -/
def pruefeSuche (s : CapSpace) (i : Nat) : Nat → Option Nat → Check Nat
  | _, none => some (.error 4)
  | n, some c =>
      if c = i then passed
      -- The index comes before the step is counted.
      else if s.slots.len ≤ c then none
      else
        match n with
        | 0 => some (.error 7)
        | n + 1 => pruefeSuche s i n (s.nextSibling c)

def pruefeParent (s : CapSpace) (i : Nat) : Check Nat :=
  match s.parent i with
  | none => passed
  | some p =>
      if s.slots.len ≤ p ∨ (s.slots.cell p).used = false ∨
          (s.slots.cell p).object ≠ (s.slots.cell i).object then some (.error 4)
      else pruefeSuche s i s.cdtStepLimit (s.firstChild p)

def pruefeSlot (s : CapSpace) (i : Nat) : Check Nat :=
  if (s.slots.cell i).used then
    andThen (s.pruefeParent i) (andThen (report (s.auditFirstChild i))
      (andThen (report (s.auditNext i)) (report (s.auditPrev i))))
  else passed

/-- Follow the parents; at most `n` more steps. -/
def pruefeKette (s : CapSpace) : Nat → Option Nat → Check Nat
  | _, none => passed
  | 0, some _ => some (.error 7)
  | n + 1, some p => if s.slots.len ≤ p then none else pruefeKette s n (s.parent p)

def pruefeVorfahren (s : CapSpace) (i : Nat) : Check Nat :=
  if (s.slots.cell i).used then s.pruefeKette s.cdtStepLimit (s.parent i) else passed

def pruefeRest (s : CapSpace) (refs : Nat → Nat) : Check Nat :=
  andThen (each (fun o => report (s.auditObjekt refs o)) (List.range s.objects.len))
    (andThen (each s.pruefeSlot (List.range s.slots.len))
      (each s.pruefeVorfahren (List.range s.slots.len)))

/-- `audit_cdt` with a count buffer of `refsLen` entries; `none` is an index outside. -/
def pruefeCdt (s : CapSpace) (refsLen : Nat) : Option Nat :=
  if refsLen < s.objects.len then some 8
  else
    match s.auditZaehlen (List.range s.slots.len) fun _ => 0 with
    | .error code => some code
    | .ok refs =>
        match s.pruefeRest refs with
        | none => none
        | some (.error code) => some code
        | some (.ok ()) => some 0

variable {s : CapSpace}

/-- The first part of the audit: every used slot names a used object, and every used object
is named as often as its count says, in 32 bits. -/
structure Zaehlerstand (s : CapSpace) : Prop where
  object : ∀ i, i < s.slots.len → s.Used i → (s.slots.cell i).object < s.objects.len ∧
    (s.objects.cell (s.slots.cell i).object).used = true
  refcount : ∀ o, o < s.objects.len → (s.objects.cell o).used = true →
    (s.objects.cell o).refcount = (s.namen o).card % 2 ^ 32 ∧ (s.namen o).card % 2 ^ 32 ≠ 0

theorem auditZaehlen_ok {l : List Nat} {refs refs' : Nat → Nat}
    (h : s.auditZaehlen l refs = .ok refs') :
    ∀ i ∈ l, s.Used i → (s.slots.cell i).object < s.objects.len ∧
      (s.objects.cell (s.slots.cell i).object).used = true := by
  induction l generalizing refs with
  | nil => simp
  | cons i l ih =>
    rw [List.forall_mem_cons]
    rw [auditZaehlen] at h
    cases hi : (s.slots.cell i).used with
    | false =>
      simp only [hi, Bool.not_false, if_true] at h
      refine ⟨fun hused => ?_, ih h⟩
      rw [Used, hi] at hused
      cases hused
    | true =>
      simp only [hi, Bool.not_true, Bool.false_eq_true, if_false] at h
      by_cases hbad : s.objects.len ≤ (s.slots.cell i).object ∨
          (s.objects.cell (s.slots.cell i).object).used = false
      · rw [if_pos hbad] at h
        cases h
      · rw [if_neg hbad] at h
        rw [not_or, not_le, Bool.not_eq_false] at hbad
        exact ⟨fun _ => hbad, ih h⟩

theorem auditZaehlen_ne_zero {l : List Nat} {refs : Nat → Nat} :
    s.auditZaehlen l refs ≠ .error 0 := by
  induction l generalizing refs with
  | nil => simp [auditZaehlen]
  | cons i l ih =>
    rw [auditZaehlen]
    split
    · exact ih
    · split
      · simp
      · exact ih

theorem auditObjekt_eq_none {refs : Nat → Nat} {o : Nat} :
    s.auditObjekt refs o = none ↔
      ((s.objects.cell o).used = true → (s.objects.cell o).refcount = refs o ∧ refs o ≠ 0) ∧
        ((s.objects.cell o).used = false → refs o = 0) := by
  unfold auditObjekt
  cases (s.objects.cell o).used with
  | false => simp
  | true => by_cases hr : (s.objects.cell o).refcount = refs o <;> simp [hr]

theorem Zaehlerstand.zaehlen
    (hobj : ∀ i, i < s.slots.len → s.Used i → (s.slots.cell i).object < s.objects.len ∧
      (s.objects.cell (s.slots.cell i).object).used = true) :
    ∃ refs, s.auditZaehlen (List.range s.slots.len) (fun _ => 0) = .ok refs ∧
      ∀ o, refs o = (s.namen o).card % 2 ^ 32 := by
  obtain ⟨refs, heq, hread⟩ := auditZaehlen_eq (s := s) (List.range s.slots.len) (fun _ => 0)
    (fun i hi hused => hobj i (List.mem_range.mp hi) hused) (fun _ => by decide)
  refine ⟨refs, heq, fun o => ?_⟩
  rw [hread, Nat.zero_add]
  exact congrArg (· % 2 ^ 32) (countP_range_eq_card _ _)

theorem zaehlerstand_iff {refs : Nat → Nat}
    (heq : s.auditZaehlen (List.range s.slots.len) (fun _ => 0) = .ok refs) :
    (∀ o ∈ List.range s.objects.len, report (s.auditObjekt refs o) = passed) ↔ s.Zaehlerstand := by
  have hobj := fun i hi => auditZaehlen_ok heq i (List.mem_range.mpr hi)
  obtain ⟨refs', heq', hread⟩ := Zaehlerstand.zaehlen hobj
  obtain rfl : refs = refs' := by
    rw [heq] at heq'
    exact Except.ok.inj heq'
  simp only [report_eq_passed, auditObjekt_eq_none, List.mem_range, hread]
  constructor
  · exact fun h => ⟨hobj, fun o ho => (h o ho).1⟩
  · intro h o ho
    refine ⟨h.refcount o ho, fun hfree => ?_⟩
    have hleer : s.namen o = ∅ := by
      rw [Finset.eq_empty_iff_forall_notMem]
      intro i hi
      obtain ⟨hlt, hused, hname⟩ := mem_namen.mp hi
      have hobject := (h.object i hlt hused).2
      rw [show (s.slots.cell i).object = o from hname, hfree] at hobject
      cases hobject
    rw [hleer, Finset.card_empty, Nat.zero_mod]

def naechster (s : CapSpace) (i : Nat) : Option Nat :=
  if i < s.slots.len then s.nextSibling i else none

def Gelistet (s : CapSpace) (p i : Nat) : Prop :=
  ∃ c, s.firstChild p = some c ∧ Reaches s.naechster c i

theorem naechster_eq {i : Nat} (h : i < s.slots.len) : s.naechster i = s.nextSibling i := if_pos h

theorem lt_of_naechster {i j : Nat} (h : s.naechster i = some j) : i < s.slots.len := by
  by_contra hge
  rw [naechster, if_neg hge] at h
  cases h

theorem naechster_of_le {i : Nat} (h : s.slots.len ≤ i) : s.naechster i = none :=
  if_neg (not_lt.mpr h)

section Suche

variable {i n c : Nat}

theorem pruefeSuche_self : s.pruefeSuche i n (some i) = passed := by
  rw [pruefeSuche.eq_def]
  exact if_pos rfl

theorem pruefeSuche_outside (hne : c ≠ i) (h : s.slots.len ≤ c) :
    s.pruefeSuche i n (some c) = none := by
  rw [pruefeSuche.eq_def]
  dsimp only
  rw [if_neg hne, if_pos h]

theorem pruefeSuche_zero (hne : c ≠ i) (h : c < s.slots.len) :
    s.pruefeSuche i 0 (some c) = some (.error 7) := by
  rw [pruefeSuche.eq_def]
  dsimp only
  rw [if_neg hne, if_neg (not_le.mpr h)]

theorem pruefeSuche_succ (hne : c ≠ i) (h : c < s.slots.len) :
    s.pruefeSuche i (n + 1) (some c) = s.pruefeSuche i n (s.naechster c) := by
  rw [pruefeSuche.eq_def]
  dsimp only
  rw [if_neg hne, if_neg (not_le.mpr h), naechster_eq h]

theorem pruefeSuche_ne_zero {o : Option Nat} : s.pruefeSuche i n o ≠ some (.error 0) := by
  induction n generalizing o with
  | zero =>
    cases o with
    | none => simp [pruefeSuche]
    | some c =>
      rw [pruefeSuche]
      split
      · simp
      · split <;> simp
  | succ n ih =>
    cases o with
    | none => simp [pruefeSuche]
    | some c =>
      rw [pruefeSuche]
      split
      · simp
      · split
        · simp
        · exact ih

theorem pruefeSuche_sound :
    (s.pruefeSuche i n (some c) = passed → Reaches s.naechster c i) ∧
      (s.pruefeSuche i n (some c) = none →
        (∃ x, Reaches s.naechster c x ∧ s.slots.len ≤ x) ∧ ¬ Reaches s.naechster c i) := by
  induction n generalizing c with
  | zero =>
    by_cases hne : c = i
    · subst hne
      rw [pruefeSuche_self]
      exact ⟨fun _ => .refl, nofun⟩
    · by_cases hlt : c < s.slots.len
      · rw [pruefeSuche_zero hne hlt]
        exact ⟨nofun, nofun⟩
      · have hge := not_lt.mp hlt
        rw [pruefeSuche_outside hne hge]
        refine ⟨nofun, fun _ => ⟨⟨c, .refl, hge⟩, fun hreach => hne ?_⟩⟩
        exact (reaches_iff_of_none (naechster_of_le hge)).mp hreach
  | succ n ih =>
    by_cases hne : c = i
    · subst hne
      rw [pruefeSuche_self]
      exact ⟨fun _ => .refl, nofun⟩
    · by_cases hlt : c < s.slots.len
      · rw [pruefeSuche_succ hne hlt]
        cases hn : s.naechster c with
        | none =>
          rw [pruefeSuche]
          exact ⟨nofun, nofun⟩
        | some d =>
          obtain ⟨hfound, hleft⟩ := ih (c := d)
          refine ⟨fun h => .head hn (hfound h), fun h => ?_⟩
          obtain ⟨⟨x, hx, hout⟩, hno⟩ := hleft h
          refine ⟨⟨x, .head hn hx, hout⟩, ?_⟩
          rwa [reaches_iff_of_edge hn hne]
      · have hge := not_lt.mp hlt
        rw [pruefeSuche_outside hne hge]
        refine ⟨nofun, fun _ => ⟨⟨c, .refl, hge⟩, fun hreach => hne ?_⟩⟩
        exact (reaches_iff_of_none (naechster_of_le hge)).mp hreach

/-- The bound is no obstacle: from `c` the walk gets to every `t` that it does not stop before. -/
theorem pruefeSuche_walk {t : Nat} (h : Reaches s.naechster c t)
    (hstop : t = i ∨ ¬ Reaches s.naechster c i) :
    ∃ m, s.pruefeSuche i s.cdtStepLimit (some c) = s.pruefeSuche i m (some t) := by
  obtain ⟨dist, hstep, hle⟩ := exists_distance s.naechster t (Finset.range s.slots.len)
    fun a b hab => Finset.mem_range.mpr (lt_of_naechster hab)
  rw [Finset.card_range] at hle
  have hlauf : ∀ n c, Reaches s.naechster c t → (t = i ∨ ¬ Reaches s.naechster c i) →
      dist c ≤ n → ∃ m, s.pruefeSuche i n (some c) = s.pruefeSuche i m (some t) := by
    intro n
    induction n with
    | zero =>
      intro c hc _ hn
      obtain rfl | ⟨d, hcd, hd⟩ := Relation.ReflTransGen.cases_head hc
      · exact ⟨0, rfl⟩
      · by_cases hct : c = t
        · exact ⟨0, by rw [hct]⟩
        · have hless := hstep c d hct hcd hd
          omega
    | succ n ih =>
      intro c hc hstop hn
      by_cases hct : c = t
      · exact ⟨n + 1, by rw [hct]⟩
      · obtain hct' | ⟨d, hcd, hd⟩ := Relation.ReflTransGen.cases_head hc
        · exact absurd hct' hct
        · have hless := hstep c d hct hcd hd
          have hne : c ≠ i := by
            rintro rfl
            rcases hstop with rfl | hno
            · exact hct rfl
            · exact hno .refl
          have hstop' : t = i ∨ ¬ Reaches s.naechster d i := by
            rwa [← reaches_iff_of_edge hcd hne]
          rw [pruefeSuche_succ hne (lt_of_naechster hcd), show s.naechster c = some d from hcd]
          exact ih d hd hstop' (by omega)
  exact hlauf _ c h hstop (hle c)

theorem pruefeSuche_eq_passed :
    s.pruefeSuche i s.cdtStepLimit (some c) = passed ↔ Reaches s.naechster c i := by
  refine ⟨pruefeSuche_sound.1, fun h => ?_⟩
  obtain ⟨m, hm⟩ := pruefeSuche_walk h (.inl rfl)
  rw [hm, pruefeSuche_self]

theorem pruefeSuche_eq_none :
    s.pruefeSuche i s.cdtStepLimit (some c) = none ↔
      (∃ x, Reaches s.naechster c x ∧ s.slots.len ≤ x) ∧ ¬ Reaches s.naechster c i := by
  refine ⟨pruefeSuche_sound.2, ?_⟩
  rintro ⟨⟨x, hx, hout⟩, hno⟩
  obtain ⟨m, hm⟩ := pruefeSuche_walk hx (.inr hno)
  rw [hm]
  exact pruefeSuche_outside (fun heq => hno (heq ▸ hx)) hout

end Suche

structure LokalRichtig (s : CapSpace) (i : Nat) : Prop where
  parent : ∀ p, s.parent i = some p → p < s.slots.len ∧ s.Used p ∧
    (s.slots.cell p).object = (s.slots.cell i).object ∧ s.Gelistet p i
  firstChild : ∀ c, s.firstChild i = some c → c < s.slots.len ∧ s.Used c ∧
    s.parent c = some i ∧ s.prevSibling c = none
  next : ∀ n, s.nextSibling i = some n → n < s.slots.len ∧ s.Used n ∧
    s.prevSibling n = some i ∧ s.parent n = s.parent i
  prev : ∀ v, s.prevSibling i = some v → v < s.slots.len ∧ s.Used v ∧ s.nextSibling v = some i

def Leck (s : CapSpace) (i : Nat) : Prop :=
  ∃ p c x, s.parent i = some p ∧ p < s.slots.len ∧ s.Used p ∧
    (s.slots.cell p).object = (s.slots.cell i).object ∧ s.firstChild p = some c ∧
    Reaches s.naechster c x ∧ s.slots.len ≤ x ∧ ¬ Reaches s.naechster c i

variable {p i refsLen : Nat}

theorem elternzelle_iff :
    ¬ (s.slots.len ≤ p ∨ (s.slots.cell p).used = false ∨
        (s.slots.cell p).object ≠ (s.slots.cell i).object) ↔
      p < s.slots.len ∧ s.Used p ∧ (s.slots.cell p).object = (s.slots.cell i).object := by
  rw [not_or, not_or, not_le, Bool.not_eq_false, not_not]
  rfl

theorem pruefeParent_eq_passed :
    s.pruefeParent i = passed ↔ ∀ p, s.parent i = some p → p < s.slots.len ∧ s.Used p ∧
      (s.slots.cell p).object = (s.slots.cell i).object ∧ s.Gelistet p i := by
  unfold pruefeParent
  cases hp : s.parent i with
  | none => simp
  | some p =>
    simp only [Option.some.injEq, forall_eq']
    by_cases hbad : s.slots.len ≤ p ∨ (s.slots.cell p).used = false ∨
        (s.slots.cell p).object ≠ (s.slots.cell i).object
    · rw [if_pos hbad]
      exact ⟨nofun, fun h => absurd hbad (elternzelle_iff.mpr ⟨h.1, h.2.1, h.2.2.1⟩)⟩
    · rw [if_neg hbad]
      obtain ⟨hlt, hused, hobj⟩ := elternzelle_iff.mp hbad
      cases hc : s.firstChild p with
      | none =>
        rw [pruefeSuche]
        refine ⟨nofun, fun ⟨_, _, _, c, hc', _⟩ => ?_⟩
        rw [hc] at hc'
        cases hc'
      | some c =>
        rw [pruefeSuche_eq_passed]
        constructor
        · exact fun h => ⟨hlt, hused, hobj, c, hc, h⟩
        · rintro ⟨-, -, -, d, hd, h⟩
          rw [hc] at hd
          cases hd
          exact h

theorem pruefeParent_eq_none : s.pruefeParent i = none ↔ s.Leck i := by
  unfold pruefeParent
  cases hp : s.parent i with
  | none =>
    refine ⟨nofun, ?_⟩
    rintro ⟨p, c, x, hp', -⟩
    rw [hp] at hp'
    cases hp'
  | some p =>
    dsimp only
    by_cases hbad : s.slots.len ≤ p ∨ (s.slots.cell p).used = false ∨
        (s.slots.cell p).object ≠ (s.slots.cell i).object
    · rw [if_pos hbad]
      refine ⟨nofun, ?_⟩
      rintro ⟨q, c, x, hq, hlt, hused, hobj, -⟩
      rw [hp] at hq
      cases hq
      exact absurd hbad (elternzelle_iff.mpr ⟨hlt, hused, hobj⟩)
    · rw [if_neg hbad]
      obtain ⟨hlt, hused, hobj⟩ := elternzelle_iff.mp hbad
      cases hc : s.firstChild p with
      | none =>
        rw [pruefeSuche]
        refine ⟨nofun, ?_⟩
        rintro ⟨q, c, x, hq, -, -, -, hc', -⟩
        rw [hp] at hq
        cases hq
        rw [hc] at hc'
        cases hc'
      | some c =>
        rw [pruefeSuche_eq_none]
        constructor
        · rintro ⟨⟨x, hx, hout⟩, hno⟩
          exact ⟨p, c, x, hp, hlt, hused, hobj, hc, hx, hout, hno⟩
        · rintro ⟨q, d, x, hq, -, -, -, hd, hx, hout, hno⟩
          rw [hp] at hq
          cases hq
          rw [hc] at hd
          cases hd
          exact ⟨⟨x, hx, hout⟩, hno⟩

theorem auditFirstChild_eq_none :
    s.auditFirstChild i = none ↔ ∀ c, s.firstChild i = some c → c < s.slots.len ∧ s.Used c ∧
      s.parent c = some i ∧ s.prevSibling c = none := by
  unfold auditFirstChild
  cases s.firstChild i with
  | none => simp
  | some c => simp [Used]

theorem auditNext_eq_none :
    s.auditNext i = none ↔ ∀ n, s.nextSibling i = some n → n < s.slots.len ∧ s.Used n ∧
      s.prevSibling n = some i ∧ s.parent n = s.parent i := by
  unfold auditNext
  cases s.nextSibling i with
  | none => simp
  | some n => simp [Used]

theorem auditPrev_eq_none :
    s.auditPrev i = none ↔ ∀ v, s.prevSibling i = some v → v < s.slots.len ∧ s.Used v ∧
      s.nextSibling v = some i := by
  unfold auditPrev
  cases s.prevSibling i with
  | none => simp
  | some v => simp [Used]

theorem pruefeSlot_eq_passed : s.pruefeSlot i = passed ↔ (s.Used i → s.LokalRichtig i) := by
  unfold pruefeSlot
  by_cases hi : (s.slots.cell i).used = true
  · rw [if_pos hi, andThen_eq_passed, andThen_eq_passed, andThen_eq_passed, report_eq_passed,
      report_eq_passed, report_eq_passed, pruefeParent_eq_passed, auditFirstChild_eq_none,
      auditNext_eq_none, auditPrev_eq_none]
    exact ⟨fun ⟨hpar, hfirst, hnext, hprev⟩ _ => ⟨hpar, hfirst, hnext, hprev⟩,
      fun h => ⟨(h hi).parent, (h hi).firstChild, (h hi).next, (h hi).prev⟩⟩
  · rw [if_neg hi]
    exact ⟨fun _ hused => absurd hused hi, fun _ => rfl⟩

theorem pruefeSlot_eq_none : s.pruefeSlot i = none ↔ s.Used i ∧ s.Leck i := by
  unfold pruefeSlot
  by_cases hi : (s.slots.cell i).used = true
  · rw [if_pos hi, andThen_eq_none, andThen_eq_none, andThen_eq_none, pruefeParent_eq_none]
    simp only [report_ne_none, and_false, or_false]
    exact (and_iff_right hi).symm
  · rw [if_neg hi]
    exact ⟨fun h => (by cases h), fun h => absurd h.1 hi⟩

def elternlinks (s : CapSpace) (i : Nat) : Option Nat :=
  if i < s.slots.len ∧ s.Used i then s.parent i else none

theorem elternlinks_eq_some :
    s.elternlinks i = some p ↔ (i < s.slots.len ∧ s.Used i) ∧ s.parent i = some p := by
  unfold elternlinks
  by_cases hi : i < s.slots.len ∧ s.Used i
  · rw [if_pos hi]
    exact (and_iff_right hi).symm
  · rw [if_neg hi]
    exact ⟨fun h => (by cases h), fun h => absurd h.1 hi⟩

def AlleRichtig (s : CapSpace) : Prop := ∀ i, i < s.slots.len → s.Used i → s.LokalRichtig i

theorem AlleRichtig.pruefeKette_ne_none (h : s.AlleRichtig) {n : Nat} {o : Option Nat}
    (ho : ∀ p, o = some p → p < s.slots.len ∧ s.Used p) : s.pruefeKette n o ≠ none := by
  induction n generalizing o with
  | zero => cases o <;> simp [pruefeKette]
  | succ n ih =>
    cases o with
    | none => simp [pruefeKette]
    | some p =>
      obtain ⟨hlt, hused⟩ := ho p rfl
      rw [pruefeKette, if_neg (not_le.mpr hlt)]
      refine ih fun q hq => ?_
      obtain ⟨hq, hqu, -⟩ := (h p hlt hused).parent q hq
      exact ⟨hq, hqu⟩

theorem pruefeKette_ne_zero {n : Nat} {o : Option Nat} : s.pruefeKette n o ≠ some (.error 0) := by
  induction n generalizing o with
  | zero => cases o <;> simp [pruefeKette]
  | succ n ih =>
    cases o with
    | none => simp [pruefeKette]
    | some p =>
      rw [pruefeKette]
      split
      · simp
      · exact ih

theorem pruefeKette_of_cycle {n : Nat} (h : Relation.TransGen (Edge s.elternlinks) p p) :
    s.pruefeKette n (some p) ≠ passed := by
  induction n generalizing p with
  | zero => simp [pruefeKette]
  | succ n ih =>
    obtain ⟨q, hpq, -⟩ := Relation.TransGen.head'_iff.mp h
    obtain ⟨⟨hlt, -⟩, hpar⟩ := elternlinks_eq_some.mp hpq
    rw [pruefeKette, if_neg (not_le.mpr hlt), hpar]
    exact ih (cycle_edge h hpq)

theorem AlleRichtig.pruefeKette_of_rank (h : s.AlleRichtig) {rank : Nat → Nat}
    (hrank : ∀ a b, s.elternlinks a = some b → rank b < rank a) {n : Nat} (hp : p < s.slots.len)
    (hused : s.Used p) (hn : rank p < n) : s.pruefeKette n (some p) = passed := by
  induction n generalizing p with
  | zero => exact absurd hn (Nat.not_lt_zero _)
  | succ n ih =>
    rw [pruefeKette, if_neg (not_le.mpr hp)]
    cases hq : s.parent p with
    | none => rw [pruefeKette]
    | some q =>
      have hless := hrank p q (elternlinks_eq_some.mpr ⟨⟨hp, hused⟩, hq⟩)
      obtain ⟨hqlt, hqu, -⟩ := (h p hp hused).parent q hq
      exact ih hqlt hqu (by omega)

theorem AlleRichtig.pruefeVorfahren_iff (h : s.AlleRichtig) :
    (∀ i ∈ List.range s.slots.len, s.pruefeVorfahren i = passed) ↔ Acyclic s.elternlinks := by
  simp only [List.mem_range]
  constructor
  · intro hall a ha
    obtain ⟨b, hab, -⟩ := Relation.TransGen.head'_iff.mp ha
    obtain ⟨⟨hlt, hused⟩, hpar⟩ := elternlinks_eq_some.mp hab
    have hpass := hall a hlt
    have hused' : (s.slots.cell a).used = true := hused
    rw [pruefeVorfahren, if_pos hused', hpar] at hpass
    exact pruefeKette_of_cycle (cycle_edge ha hab) hpass
  · intro hacyc i hi
    rw [pruefeVorfahren]
    by_cases hused : (s.slots.cell i).used = true
    · rw [if_pos hused]
      cases hp : s.parent i with
      | none => rw [pruefeKette]
      | some p =>
        obtain ⟨rank, hrank, hle⟩ := hacyc.exists_rank (Finset.range s.slots.len)
          fun a b hab => Finset.mem_range.mpr (elternlinks_eq_some.mp hab).1.1
        rw [Finset.card_range] at hle
        obtain ⟨hplt, hpu, -⟩ := (h i hi hused).parent p hp
        have hless := hrank i p (elternlinks_eq_some.mpr ⟨⟨hi, hused⟩, hp⟩)
        exact h.pruefeKette_of_rank hrank hplt hpu (lt_of_lt_of_le hless (hle i))
    · rw [if_neg hused]

theorem AlleRichtig.pruefeVorfahren_ne_none (h : s.AlleRichtig) (hi : i < s.slots.len) :
    s.pruefeVorfahren i ≠ none := by
  rw [pruefeVorfahren]
  by_cases hused : (s.slots.cell i).used = true
  · rw [if_pos hused]
    refine h.pruefeKette_ne_none fun p hp => ?_
    obtain ⟨hplt, hpu, -⟩ := (h i hi hused).parent p hp
    exact ⟨hplt, hpu⟩
  · rw [if_neg hused]
    nofun

theorem auditObjekt_ne_zero {refs : Nat → Nat} {o : Nat} : s.auditObjekt refs o ≠ some 0 := by
  unfold auditObjekt
  split
  · split
    · simp
    · split <;> simp
  · split <;> simp

theorem report_ne_zero {o : Option Nat} (h : o ≠ some 0) : report o ≠ some (.error 0) := by
  cases o with
  | none => simp [report]
  | some c => simpa [report] using h

theorem pruefeSlot_ne_zero : s.pruefeSlot i ≠ some (.error 0) := by
  have hpar : s.pruefeParent i ≠ some (.error 0) := by
    unfold pruefeParent
    split
    · simp
    · split
      · simp
      · exact pruefeSuche_ne_zero
  have hfirst : s.auditFirstChild i ≠ some 0 := by
    unfold auditFirstChild
    split
    · simp
    · split <;> simp
  have hnext : s.auditNext i ≠ some 0 := by
    unfold auditNext
    split
    · simp
    · split <;> simp
  have hprev : s.auditPrev i ≠ some 0 := by
    unfold auditPrev
    split
    · simp
    · split <;> simp
  unfold pruefeSlot
  split
  · exact andThen_ne_error hpar (andThen_ne_error (report_ne_zero hfirst)
      (andThen_ne_error (report_ne_zero hnext) (report_ne_zero hprev)))
  · simp

theorem pruefeRest_ne_zero {refs : Nat → Nat} : s.pruefeRest refs ≠ some (.error 0) := by
  refine andThen_ne_error (each_ne_error fun o _ => report_ne_zero auditObjekt_ne_zero)
    (andThen_ne_error (each_ne_error fun i _ => pruefeSlot_ne_zero) (each_ne_error fun i _ => ?_))
  rw [pruefeVorfahren]
  split
  · exact pruefeKette_ne_zero
  · simp

theorem pruefeCdt_of_ok {refs : Nat → Nat} (hlen : s.objects.len ≤ refsLen)
    (hok : s.auditZaehlen (List.range s.slots.len) (fun _ => 0) = .ok refs) :
    (s.pruefeCdt refsLen = some 0 ↔ s.pruefeRest refs = passed) ∧
      (s.pruefeCdt refsLen = none ↔ s.pruefeRest refs = none) := by
  rw [pruefeCdt, if_neg (not_lt.mpr hlen), hok]
  dsimp only
  cases hrest : s.pruefeRest refs with
  | none => simp
  | some r =>
    cases r with
    | ok u => simp
    | error code =>
      have hne : code ≠ 0 := by
        rintro rfl
        exact pruefeRest_ne_zero hrest
      simp [hne]

theorem pruefeCdt_of_error {code : Nat} (hlen : s.objects.len ≤ refsLen)
    (herr : s.auditZaehlen (List.range s.slots.len) (fun _ => 0) = .error code) :
    s.pruefeCdt refsLen = some code ∧ code ≠ 0 ∧ ¬ s.Zaehlerstand := by
  refine ⟨by rw [pruefeCdt, if_neg (not_lt.mpr hlen), herr], ?_, fun h => ?_⟩
  · rintro rfl
    exact auditZaehlen_ne_zero herr
  · obtain ⟨refs, hok, -⟩ := Zaehlerstand.zaehlen h.object
    rw [herr] at hok
    cases hok

theorem pruefeSlots_iff : each s.pruefeSlot (List.range s.slots.len) = passed ↔ s.AlleRichtig := by
  rw [each_eq_passed]
  simp only [List.mem_range, pruefeSlot_eq_passed, AlleRichtig]

theorem pruefeCdt_eq_zero (hlen : s.objects.len ≤ refsLen) :
    s.pruefeCdt refsLen = some 0 ↔ s.Zaehlerstand ∧ s.AlleRichtig ∧ Acyclic s.elternlinks := by
  cases hz : s.auditZaehlen (List.range s.slots.len) fun _ => 0 with
  | error code =>
    obtain ⟨heq, hne, hno⟩ := pruefeCdt_of_error hlen hz
    rw [heq]
    simp [hne, hno]
  | ok refs =>
    rw [(pruefeCdt_of_ok hlen hz).1, pruefeRest, andThen_eq_passed, andThen_eq_passed,
      each_eq_passed, zaehlerstand_iff hz, pruefeSlots_iff, each_eq_passed]
    refine and_congr_right fun _ => and_congr_right fun h => ?_
    exact h.pruefeVorfahren_iff

def ErstesLeck (s : CapSpace) (i : Nat) : Prop :=
  i < s.slots.len ∧ s.Used i ∧ s.Leck i ∧ ∀ j, j < i → s.Used j → s.LokalRichtig j

theorem pruefeSlots_eq_none :
    each s.pruefeSlot (List.range s.slots.len) = none ↔ ∃ i, s.ErstesLeck i := by
  simp only [each_range_eq_none, pruefeSlot_eq_none, pruefeSlot_eq_passed, ErstesLeck, and_assoc]

theorem pruefeCdt_eq_none :
    s.pruefeCdt refsLen = none ↔
      s.objects.len ≤ refsLen ∧ s.Zaehlerstand ∧ ∃ i, s.ErstesLeck i := by
  by_cases hlen : s.objects.len ≤ refsLen
  · rw [and_iff_right hlen]
    cases hz : s.auditZaehlen (List.range s.slots.len) fun _ => 0 with
    | error code =>
      obtain ⟨heq, -, hno⟩ := pruefeCdt_of_error hlen hz
      rw [heq]
      simp [hno]
    | ok refs =>
      have hobj : each (fun o => report (s.auditObjekt refs o)) (List.range s.objects.len) ≠ none := by
        intro h
        obtain ⟨o, -, ho, -⟩ := each_range_eq_none.mp h
        exact report_ne_none ho
      have hvor : each s.pruefeSlot (List.range s.slots.len) = passed →
          each s.pruefeVorfahren (List.range s.slots.len) ≠ none := by
        intro hpass h
        obtain ⟨i, hi, hnone, -⟩ := each_range_eq_none.mp h
        exact (pruefeSlots_iff.mp hpass).pruefeVorfahren_ne_none hi hnone
      rw [(pruefeCdt_of_ok hlen hz).2, pruefeRest, andThen_eq_none, andThen_eq_none,
        or_iff_right hobj, each_eq_passed, zaehlerstand_iff hz, pruefeSlots_eq_none,
        or_iff_left fun h => hvor h.1 h.2]
  · rw [pruefeCdt, if_pos (not_le.mp hlen)]
    simp [hlen]

theorem refines_pruefeSuche (i n : Nat) (o : Option Nat) :
    Refines (s.pruefeSuche i n o) (s.auditSuche i n o) := by
  induction n generalizing o with
  | zero =>
    cases o with
    | none => exact .inr rfl
    | some c =>
      rw [pruefeSuche, auditSuche]
      split
      · exact .inr rfl
      · split
        · exact .inl rfl
        · exact .inr rfl
  | succ n ih =>
    cases o with
    | none => exact .inr rfl
    | some c =>
      rw [pruefeSuche, auditSuche]
      split
      · exact .inr rfl
      · split
        · exact .inl rfl
        · exact ih _

theorem refines_pruefeKette (n : Nat) (o : Option Nat) :
    Refines (s.pruefeKette n o) (s.auditKette n o) := by
  induction n generalizing o with
  | zero => cases o <;> exact .inr rfl
  | succ n ih =>
    cases o with
    | none => exact .inr rfl
    | some p =>
      rw [pruefeKette, auditKette]
      split
      · exact .inl rfl
      · exact ih _

theorem refines_pruefeParent (i : Nat) : Refines (s.pruefeParent i) (s.auditParent i) := by
  unfold pruefeParent auditParent
  cases s.parent i with
  | none => exact .inr rfl
  | some p =>
    dsimp only
    split
    · exact .inr rfl
    · exact refines_pruefeSuche _ _ _

theorem refines_pruefeSlot (i : Nat) : Refines (s.pruefeSlot i) (s.auditSlot i) := by
  unfold pruefeSlot auditSlot
  split
  · exact (refines_pruefeParent i).andThen ((refines_report _).andThen
      ((refines_report _).andThen (refines_report _)))
  · exact .inr rfl

theorem refines_pruefeVorfahren (i : Nat) : Refines (s.pruefeVorfahren i) (s.auditVorfahren i) := by
  unfold pruefeVorfahren auditVorfahren
  split
  · exact refines_pruefeKette _ _
  · exact .inr rfl

theorem auditCdt_of_pruefeCdt {v : Nat} (h : s.pruefeCdt refsLen = some v) :
    s.auditCdt refsLen = v := by
  unfold pruefeCdt at h
  unfold auditCdt
  split at h
  · next hlt =>
    rw [if_pos hlt]
    exact Option.some.inj h
  · next hlt =>
    rw [if_neg hlt]
    cases hz : s.auditZaehlen (List.range s.slots.len) fun _ => 0 with
    | error code =>
      rw [hz] at h
      exact Option.some.inj h
    | ok refs =>
      rw [hz] at h
      dsimp only at h ⊢
      have hrest : Refines (s.pruefeRest refs) _ :=
        (refines_each (fun o => refines_report (s.auditObjekt refs o)) _).andThen
          ((refines_each refines_pruefeSlot _).andThen (refines_each refines_pruefeVorfahren _))
      rcases hrest with hnone | heq
      · rw [hnone] at h
        cases h
      · rw [heq] at h
        cases hfund : ((List.range s.objects.len).findSome? (s.auditObjekt refs)).or
            (((List.range s.slots.len).findSome? s.auditSlot).or
              ((List.range s.slots.len).findSome? s.auditVorfahren)) with
        | none =>
          rw [hfund] at h
          exact Option.some.inj h
        | some code =>
          rw [hfund] at h
          exact Option.some.inj h

def Ausserhalb (s : CapSpace) : Prop :=
  ∃ i, i < s.slots.len ∧ s.Used i ∧ (s.objects.len ≤ (s.slots.cell i).object ∨
    ∃ x, s.slots.len ≤ x ∧ (s.parent i = some x ∨ s.firstChild i = some x ∨
      s.nextSibling i = some x ∨ s.prevSibling i = some x))

theorem not_ausserhalb (hz : s.Zaehlerstand) (h : s.AlleRichtig) : ¬ s.Ausserhalb := by
  rintro ⟨i, hi, hused, hout | ⟨x, hx, hout⟩⟩
  · exact absurd (hz.object i hi hused).1 (not_lt.mpr hout)
  · have hl := h i hi hused
    have hlt : x < s.slots.len := by
      rcases hout with hout | hout | hout | hout
      · exact (hl.parent x hout).1
      · exact (hl.firstChild x hout).1
      · exact (hl.next x hout).1
      · exact (hl.prev x hout).1
    exact absurd hlt (not_lt.mpr hx)

/-- On tables of any content: the audit returns, and not with 0 if a used slot names something
outside the tables, exactly if it does not get to a leak. -/
theorem pruefeCdt_sicher_iff (s : CapSpace) (refsLen : Nat) :
    ((∃ v, s.pruefeCdt refsLen = some v) ∧ (s.Ausserhalb → s.pruefeCdt refsLen ≠ some 0)) ↔
      ¬ (s.objects.len ≤ refsLen ∧ s.Zaehlerstand ∧ ∃ i, s.ErstesLeck i) := by
  rw [← pruefeCdt_eq_none, ← ne_eq, Option.ne_none_iff_exists']
  refine and_iff_left_of_imp fun _ hout hzero => ?_
  by_cases hlen : s.objects.len ≤ refsLen
  · obtain ⟨hz, hl, -⟩ := (pruefeCdt_eq_zero hlen).mp hzero
    exact not_ausserhalb hz hl hout
  · rw [pruefeCdt, if_pos (not_le.mp hlen)] at hzero
    cases hzero

def tabellenSlot (mdb : Mdb) : CapSlot := ⟨true, 0, 0, Rights.rwx, 0, none, mdb⟩

def zweiSlots (a b : Mdb) : CapSpace where
  slots := ⟨2, fun i => if i = 0 then tabellenSlot a else tabellenSlot b⟩
  objects := ⟨1, fun _ => ⟨true, .endpoint 0, 2, 0⟩⟩
  peakSlots := 2
  peakObjects := 1
  peakCdtWalk := 0
  peakRevokeOps := 0
  cdtWalkOverruns := 0

/-- Slot 0 is a child of slot 1, whose first child is slot 99. -/
theorem pruefeCdt_follows_first_child :
    (zweiSlots ⟨some 1, none, none, none⟩ ⟨none, some 99, none, none⟩).pruefeCdt 1 = none := by
  decide

end CapSpace

end Caprock.Cap
