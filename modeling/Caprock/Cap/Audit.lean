import Caprock.Cap.Reachable

/-! # The property oracle

`audit_cdt` recomputes the reference counts and follows every link of the derivation
tree; `0` means consistent.  On every space that meets the invariant it returns `0`.
One clause of well-formedness is not part of the invariant: an object entry is used
exactly when its reference count is positive.  The roll-back in `install` breaks it.
-/

namespace Caprock.Cap

open Mem LinkedList Execution Function

namespace CapSpace

/-- Count the slots of every object; code 1 for a slot without a used object. -/
def auditZaehlen (s : CapSpace) : List Nat → (Nat → Nat) → Except Nat (Nat → Nat)
  | [], refs => .ok refs
  | i :: is, refs =>
      let c := s.slots.cell i
      if !c.used then auditZaehlen s is refs
      else if s.objects.len ≤ c.object ∨ (s.objects.cell c.object).used = false then .error 1
      else auditZaehlen s is
        (update refs c.object ((refs c.object + 1) % 2 ^ 32))

/-- Codes 2 and 3: the count of an object does not fit. -/
def auditObjekt (s : CapSpace) (refs : Nat → Nat) (o : Nat) : Option Nat :=
  if (s.objects.cell o).used then
    if (s.objects.cell o).refcount ≠ refs o then some 2
    else if refs o = 0 then some 3 else none
  else if refs o ≠ 0 then some 3 else none

/-- Look for `i` in a child list; at most `n` more steps. -/
def auditSuche (s : CapSpace) (i : Nat) : Nat → Option Nat → Option Nat
  | _, none => some 4
  | n, some c =>
      if c = i then none
      else
        match n with
        | 0 => some 7
        | n + 1 => auditSuche s i n (s.nextSibling c)

def auditParent (s : CapSpace) (i : Nat) : Option Nat :=
  match s.parent i with
  | none => none
  | some p =>
      if s.slots.len ≤ p ∨ (s.slots.cell p).used = false ∨
          (s.slots.cell p).object ≠ (s.slots.cell i).object then some 4
      else auditSuche s i s.cdtStepLimit (s.firstChild p)

def auditFirstChild (s : CapSpace) (i : Nat) : Option Nat :=
  match s.firstChild i with
  | none => none
  | some c =>
      if s.slots.len ≤ c ∨ (s.slots.cell c).used = false ∨ s.parent c ≠ some i ∨
          s.prevSibling c ≠ none then some 6
      else none

def auditNext (s : CapSpace) (i : Nat) : Option Nat :=
  match s.nextSibling i with
  | none => none
  | some n =>
      if s.slots.len ≤ n ∨ (s.slots.cell n).used = false ∨ s.prevSibling n ≠ some i ∨
          s.parent n ≠ s.parent i then some 5
      else none

def auditPrev (s : CapSpace) (i : Nat) : Option Nat :=
  match s.prevSibling i with
  | none => none
  | some p =>
      if s.slots.len ≤ p ∨ (s.slots.cell p).used = false ∨ s.nextSibling p ≠ some i then some 5
      else none

def auditSlot (s : CapSpace) (i : Nat) : Option Nat :=
  if (s.slots.cell i).used then
    (s.auditParent i).or ((s.auditFirstChild i).or ((s.auditNext i).or (s.auditPrev i)))
  else none

/-- Follow the parents; at most `n` more steps. -/
def auditKette (s : CapSpace) : Nat → Option Nat → Option Nat
  | _, none => none
  | 0, some _ => some 7
  | n + 1, some p => auditKette s n (s.parent p)

def auditVorfahren (s : CapSpace) (i : Nat) : Option Nat :=
  if (s.slots.cell i).used then s.auditKette s.cdtStepLimit (s.parent i) else none

/-- `audit_cdt` with a count buffer of `refsLen` entries. -/
def auditCdt (s : CapSpace) (refsLen : Nat) : Nat :=
  if refsLen < s.objects.len then 8
  else
    match s.auditZaehlen (List.range s.slots.len) fun _ => 0 with
    | .error code => code
    | .ok refs =>
        (((List.range s.objects.len).findSome? (s.auditObjekt refs)).or
          (((List.range s.slots.len).findSome? s.auditSlot).or
            ((List.range s.slots.len).findSome? s.auditVorfahren))).getD 0

variable {s : CapSpace} {kids : Nat → List Nat}

theorem auditZaehlen_eq (l : List Nat) (refs : Nat → Nat)
    (hobj : ∀ i ∈ l, s.Used i → (s.daten i).object < s.objects.len ∧
      (s.objects.cell (s.daten i).object).used = true)
    (hrefs : ∀ o, refs o < 2 ^ 32) :
    ∃ refs', s.auditZaehlen l refs = .ok refs' ∧ ∀ o, refs' o =
      (refs o + l.countP fun i => s.Used i ∧ (s.daten i).object = o) % 2 ^ 32 := by
  induction l generalizing refs with
  | nil =>
    refine ⟨refs, rfl, fun o => ?_⟩
    rw [List.countP_nil, Nat.add_zero, Nat.mod_eq_of_lt (hrefs o)]
  | cons i is ih =>
    rw [auditZaehlen]
    by_cases hi : s.Used i
    · obtain ⟨hlt, hused⟩ := hobj i List.mem_cons_self hi
      have hi' : (s.slots.cell i).used = true := hi
      have hnot : ¬ (s.objects.len ≤ (s.slots.cell i).object ∨
          (s.objects.cell (s.slots.cell i).object).used = false) := by
        rintro (hle | hfalse)
        · exact absurd hlt (Nat.not_lt.mpr hle)
        · exact Bool.noConfusion (hused.symm.trans hfalse)
      simp only [hi', Bool.not_true, Bool.false_eq_true, if_false, if_neg hnot]
      obtain ⟨refs', heq, hread⟩ := ih
        (update refs (s.slots.cell i).object
          ((refs (s.slots.cell i).object + 1) % 2 ^ 32))
        (fun j hj => hobj j (List.mem_cons_of_mem _ hj)) (by
          intro o
          by_cases ho : o = (s.slots.cell i).object
          · rw [ho, update_self]
            exact Nat.mod_lt _ (by decide)
          · rw [update_of_ne ho]
            exact hrefs o)
      refine ⟨refs', heq, fun o => ?_⟩
      rw [hread, List.countP_cons]
      by_cases ho : o = (s.slots.cell i).object
      · have hpred : decide (s.Used i ∧ (s.daten i).object = o) = true :=
          decide_eq_true ⟨hi, ho.symm⟩
        rw [ho, update_self, if_pos (ho ▸ hpred), Nat.mod_add_mod]
        congr 1
        omega
      · have hpred : ¬ decide (s.Used i ∧ (s.daten i).object = o) = true := by
          intro hand
          exact ho (of_decide_eq_true hand).2.symm
        rw [update_of_ne ho, if_neg hpred, Nat.add_zero]
    · have hi' : (s.slots.cell i).used = false := by simpa [Used] using hi
      simp only [hi', Bool.not_false, if_true]
      obtain ⟨refs', heq, hread⟩ := ih refs (fun j hj => hobj j (List.mem_cons_of_mem _ hj)) hrefs
      refine ⟨refs', heq, fun o => ?_⟩
      have hpred : ¬ decide (s.Used i ∧ (s.daten i).object = o) = true := by
        intro hand
        exact hi (of_decide_eq_true hand).1
      rw [hread, List.countP_cons, if_neg hpred, Nat.add_zero]

theorem countP_range_eq_card (p : Nat → Prop) [DecidablePred p] (n : Nat) :
    (List.range n).countP (fun i => p i) = ((Finset.range n).filter p).card := by
  induction n with
  | zero => rfl
  | succ n ih =>
    rw [List.range_succ, List.countP_append, ih, Finset.range_add_one, Finset.filter_insert]
    by_cases hp : p n
    · rw [if_pos hp, Finset.card_insert_of_notMem (by simp)]
      simp [hp]
    · rw [if_neg hp]
      simp [hp]

theorem Inv.auditObjekt (h : Inv s kids) {refs : Nat → Nat}
    (hrefs : ∀ o, refs o = (s.namen o).card) (o : Nat) : s.auditObjekt refs o = none := by
  unfold CapSpace.auditObjekt
  by_cases ho : (s.objects.cell o).used = true
  · obtain ⟨-, hcount, hne⟩ := h.refcount o ho
    have hpos := Finset.card_pos.mpr hne
    rw [if_pos ho, hrefs, if_neg (not_not.mpr hcount), if_neg (by omega)]
  · rw [if_neg ho, hrefs, h.namen_eq_empty ho]
    simp

theorem auditSuche_eq_none {i n : Nat} {l : List Nat} {p : Option Nat}
    (hseg : Seg s.nextSibling s.prevSibling p l none) (hi : i ∈ l) (hn : l.length ≤ n + 1) :
    s.auditSuche i n l.head? = none := by
  induction l generalizing n p with
  | nil => exact absurd hi List.not_mem_nil
  | cons c l ih =>
    obtain ⟨-, hnext, hl⟩ := hseg
    rw [List.head?_cons, auditSuche.eq_def]
    dsimp only
    by_cases hci : c = i
    · rw [if_pos hci]
    · rw [if_neg hci]
      have hil : i ∈ l := (List.mem_cons.mp hi).resolve_left (Ne.symm hci)
      have hpos : 0 < l.length := List.length_pos_of_mem hil
      rw [List.length_cons] at hn
      obtain ⟨n, rfl⟩ : ∃ m, n = m + 1 := ⟨n - 1, by omega⟩
      have hnext' : s.nextSibling c = l.head? := by simpa using hnext
      rw [hnext']
      exact ih hl hil (by omega)

theorem Inv.used_eq_true (h : Inv s kids) {i : Nat} (hi : s.Used i) :
    i < s.slots.len ∧ (s.slots.cell i).used = true := ⟨h.bound i hi, hi⟩

theorem Inv.auditSlot (h : Inv s kids) (i : Nat) : s.auditSlot i = none := by
  unfold CapSpace.auditSlot
  by_cases hi : s.Used i
  · have hi' : (s.slots.cell i).used = true := hi
    rw [if_pos hi']
    have hparent : s.auditParent i = none := by
      unfold auditParent
      cases hp : s.parent i with
      | none => rfl
      | some p =>
        have hpu := h.forest.parent_used i p ⟨hi, hp⟩
        obtain ⟨hlt, hused⟩ := h.used_eq_true hpu
        have hobj : (s.slots.cell i).object = (s.slots.cell p).object :=
          h.same_object p i ⟨hi, hp⟩
        have hin := (h.forest.mem_kids p hpu i).mpr ⟨hi, hp⟩
        have hhead : s.firstChild p = (kids p).head? := h.forest.first p hpu
        dsimp only
        rw [if_neg, hhead]
        · exact auditSuche_eq_none (h.forest.list p hpu).seg hin
            (Nat.le_succ_of_le (h.length_kids_le hpu))
        · simp [hlt, hused, hobj]
    have hfirst : s.auditFirstChild i = none := by
      unfold auditFirstChild
      cases hc : s.firstChild i with
      | none => rfl
      | some c =>
        have hhead : (kids i).head? = some c := (h.forest.first i hi).symm.trans hc
        obtain ⟨hcu, hpar⟩ := (h.forest.mem_kids i hi c).mp (List.mem_of_head? hhead)
        obtain ⟨hlt, hused⟩ := h.used_eq_true hcu
        have hpar' : s.parent c = some i := hpar
        have hprev : s.prevSibling c = none := (h.forest.list i hi).prev_head hhead
        simp [hlt, hused, hpar', hprev]
    have hnext : s.auditNext i = none := by
      unfold auditNext
      cases hn : s.nextSibling i with
      | none => rfl
      | some n =>
        obtain ⟨p, hpu, hip, hnp, hprev⟩ := h.forest.mem_of_next hi hn
        obtain ⟨hnu, hpar⟩ := (h.forest.mem_kids p hpu n).mp hnp
        obtain ⟨hlt, hused⟩ := h.used_eq_true hnu
        have hpari : s.parent i = some p := ((h.forest.mem_kids p hpu i).mp hip).2
        have hparn : s.parent n = some p := hpar
        have hprev' : s.prevSibling n = some i := hprev
        simp [hlt, hused, hprev', hpari, hparn]
    have hprev : s.auditPrev i = none := by
      unfold auditPrev
      cases hp : s.prevSibling i with
      | none => rfl
      | some v =>
        obtain ⟨p, hpu, -, hvp, hnext⟩ := h.forest.mem_of_prev hi hp
        obtain ⟨hlt, hused⟩ := h.used_eq_true (h.forest.used_of_mem hpu hvp)
        have hnext' : s.nextSibling v = some i := hnext
        simp [hlt, hused, hnext']
    rw [hparent, hfirst, hnext, hprev]
    rfl
  · have hi' : ¬ (s.slots.cell i).used = true := hi
    rw [if_neg hi']

theorem auditKette_eq_none (h : Inv s kids) {r : Nat → Nat}
    (hchild : ∀ p c, Child s.Used s.links p c → r p < r c) {n p : Nat} (hp : s.Used p)
    (hn : r p < n) : s.auditKette n (some p) = none := by
  induction n generalizing p with
  | zero => exact absurd hn (Nat.not_lt_zero _)
  | succ n ih =>
    rw [auditKette]
    cases hq : s.parent p with
    | none => rw [auditKette]
    | some q =>
      have hlt := hchild q p ⟨hp, hq⟩
      exact ih (h.forest.parent_used p q ⟨hp, hq⟩) (by omega)

theorem Inv.auditVorfahren (h : Inv s kids) (i : Nat) : s.auditVorfahren i = none := by
  unfold CapSpace.auditVorfahren
  by_cases hi : s.Used i
  · have hi' : (s.slots.cell i).used = true := hi
    rw [if_pos hi']
    cases hp : s.parent i with
    | none => rw [auditKette]
    | some p =>
      obtain ⟨r, hr, hchild⟩ := h.forest.exists_rank (Finset.range s.slots.len)
        (fun x hx => Finset.mem_range.mpr (h.bound x hx))
      rw [Finset.card_range] at hr
      have hpu := h.forest.parent_used i p ⟨hi, hp⟩
      exact auditKette_eq_none h hchild hpu (hr p hpu)
  · have hi' : ¬ (s.slots.cell i).used = true := hi
    rw [if_neg hi']

theorem Inv.auditCdt (h : Inv s kids) {refsLen : Nat} (hlen : s.objects.len ≤ refsLen) :
    s.auditCdt refsLen = 0 := by
  obtain ⟨refs, heq, hread⟩ := auditZaehlen_eq (s := s) (List.range s.slots.len) (fun _ => 0)
    (fun i _ hi => ⟨(h.refcount _ (h.object i hi)).1, h.object i hi⟩) (fun _ => by decide)
  have hrefs : ∀ o, refs o = (s.namen o).card := by
    intro o
    have hcard : (List.range s.slots.len).countP
        (fun i => s.Used i ∧ (s.daten i).object = o) = (s.namen o).card :=
      countP_range_eq_card _ _
    have hle := namen_card_le s o
    have hsize := h.size
    rw [hread, hcard, Nat.zero_add, Nat.mod_eq_of_lt (by omega)]
  unfold CapSpace.auditCdt
  rw [if_neg (Nat.not_lt.mpr hlen), heq]
  dsimp only
  rw [List.findSome?_eq_none_iff.mpr fun o _ => h.auditObjekt hrefs o,
    List.findSome?_eq_none_iff.mpr fun i _ => h.auditSlot i,
    List.findSome?_eq_none_iff.mpr fun i _ => h.auditVorfahren i]
  rfl

theorem countFrom_eq {prev : Nat → Option Nat} {p : Option Nat} {l : List Nat} {n k : Nat}
    (hseg : Seg s.nextSibling prev p l none) (hlt : ∀ x ∈ l, x < s.slots.len)
    (hn : l.length ≤ n) : countFrom s.slots n k l.head? = some (k + l.length) := by
  induction l generalizing n k p with
  | nil =>
    rw [List.head?_nil, countFrom]
    rfl
  | cons c l ih =>
    obtain ⟨-, hnext, hl⟩ := hseg
    rw [List.length_cons] at hn
    obtain ⟨n, rfl⟩ : ∃ m, n = m + 1 := ⟨n - 1, by omega⟩
    have hget : s.slots.get c = some (s.slots.cell c) := if_pos (hlt c List.mem_cons_self)
    have hnext' : s.nextSibling c = l.head? := by simpa using hnext
    unfold nextSibling at hnext'
    rw [List.head?_cons, countFrom, hget]
    dsimp only
    rw [hnext', ih hl (fun x hx => hlt x (List.mem_cons_of_mem _ hx)) (by omega),
      List.length_cons, Nat.add_assoc, Nat.add_comm 1]

theorem Inv.countChildren (h : Inv s kids) {p : Nat} (hp : s.Used p) :
    countChildren s.slots p s.cdtStepLimit = some (kids p).length := by
  have hget : s.slots.get p = some (s.slots.cell p) := if_pos (h.bound p hp)
  have hhead : (s.slots.cell p).mdb.firstChild = (kids p).head? := h.forest.first p hp
  unfold CapSpace.countChildren cdtStepLimit
  rw [hget]
  dsimp only
  rw [hhead, countFrom_eq (h.forest.list p hp).seg
    (fun x hx => h.bound x (h.forest.used_of_mem hp hx)) (h.length_kids_le hp), Nat.zero_add]

/-- Well-formedness in the terms of the space itself: the child lists are those that
`kinder` reads off. -/
structure WohlGeformt (s : CapSpace) : Prop where
  forest : Forest s.Used s.links s.kinder
  bound : ∀ i, s.Used i → i < s.slots.len
  same_object : ∀ p c, Child s.Used s.links p c → (s.daten c).object = (s.daten p).object
  refcount : ∀ o, o < s.objects.len → (s.objects.cell o).used = true →
    (s.objects.cell o).refcount = (s.namen o).card
  used_iff : ∀ o, o < s.objects.len → ((s.objects.cell o).used = true ↔ 0 < (s.objects.cell o).refcount)
  audit : ∀ refsLen, s.objects.len ≤ refsLen → s.auditCdt refsLen = 0
  children : ∀ p, s.Used p → CapSpace.countChildren s.slots p s.cdtStepLimit = some (s.kinder p).length
  overruns : s.cdtWalkOverruns = 0

def Sauber (s : CapSpace) : Prop :=
  ∀ o, ¬ (s.objects.cell o).used = true → (s.objects.cell o).refcount = 0

theorem Inv.wohlGeformt (h : Inv s kids) (hs : s.Sauber) : s.WohlGeformt where
  forest := h.forest.congr_kids fun _ hp => h.kinder_eq hp
  bound := h.bound
  same_object := h.same_object
  refcount := fun o _ ho => (h.refcount o ho).2.1
  used_iff := by
    intro o _
    constructor
    · intro ho
      obtain ⟨-, hcount, hne⟩ := h.refcount o ho
      rw [hcount]
      exact Finset.card_pos.mpr hne
    · intro hpos
      by_contra ho
      rw [hs o ho] at hpos
      exact Nat.lt_irrefl _ hpos
  audit := fun _ hlen => h.auditCdt hlen
  children := by
    intro p hp
    rw [h.kinder_eq hp]
    exact h.countChildren hp
  overruns := h.overruns

theorem sauber_attached (tab : Tabellen) : (attached tab).Sauber := fun _ _ => rfl

theorem Sauber.of_objects {s' : CapSpace} (hs : s.Sauber)
    (hobj : ∀ o, ¬ (s'.objects.cell o).used = true →
      ¬ (s.objects.cell o).used = true ∧
        (s'.objects.cell o).refcount = (s.objects.cell o).refcount) : s'.Sauber := by
  intro o ho
  obtain ⟨hfree, heq⟩ := hobj o ho
  rw [heq]
  exact hs o hfree

theorem Eingebracht.sauber {s' : CapSpace} {kind : ObjectKind} {rights : Rights} {o c : Nat}
    (he : Eingebracht s s' kind rights o c) (hs : s.Sauber) : s'.Sauber := by
  refine hs.of_objects fun x hx => ?_
  rw [he.objects] at hx ⊢
  by_cases hxo : x = o
  · rw [if_pos hxo] at hx
    exact absurd rfl hx
  · rw [if_neg hxo] at hx ⊢
    exact ⟨hx, rfl⟩

theorem Ableitung.sauber {s' : CapSpace} (ha : Ableitung s s') (h : Inv s kids) (hs : s.Sauber) :
    s'.Sauber := by
  rcases ha with rfl | ⟨p, c, rights, badge, fenster, hp, ha, -⟩
  · exact hs
  · refine hs.of_objects fun x hx => ?_
    rw [ha.objects] at hx ⊢
    by_cases hxo : x = (s.daten p).object
    · rw [if_pos hxo, hxo] at hx
      exact absurd (h.object p hp) hx
    · rw [if_neg hxo] at hx ⊢
      exact ⟨hx, rfl⟩

theorem Verschoben.sauber {s' : CapSpace} {i d : Nat} (hv : Verschoben s s' kids i d)
    (hs : s.Sauber) : s'.Sauber := by
  intro o ho
  rw [hv.tables.objects] at ho ⊢
  exact hs o ho

theorem Sauber.nurZaehler {s' : CapSpace} (hs : s.Sauber) (hz : NurZaehler s s') : s'.Sauber := by
  intro o ho
  rw [hz.objects] at ho ⊢
  exact hs o ho

theorem sauber_deleteLeaf {a : Abbau} (h : a.caps.Inv kids) (hs : a.caps.Sauber) {c : Nat}
    (hc : a.caps.Used c) : (a.deleteLeaf c).caps.Sauber := by
  intro o ho
  rw [Abbau.objects_deleteLeaf] at ho ⊢
  by_cases hoc : o = (a.caps.daten c).object
  · rw [if_pos hoc] at ho ⊢
    unfold Abbau.abgeben at ho ⊢
    split at ho
    · next hzero =>
      rw [if_pos hzero]
      rfl
    · exact absurd (hoc ▸ h.object c hc) ho
  · rw [if_neg hoc] at ho ⊢
    exact hs o ho

end CapSpace

namespace Kern

open CapSpace

def EinbringenOk (k : Kern) : Op → Prop
  | .install _ _ =>
      ¬ ((∃ o, o < k.caps.objects.len ∧ (k.caps.objects.cell o).used = false) ∧
        ∀ i, i < k.caps.slots.len → k.caps.Used i)
  | _ => True

/-- The invariant together with clean object entries. -/
def Ordentlich (k : Kern) : Prop := (∃ kids, k.caps.Inv kids) ∧ k.caps.Sauber

theorem Ordentlich.wohlGeformt (k : Kern) (hk : k.Ordentlich) : k.caps.WohlGeformt := by
  obtain ⟨⟨kids, h⟩, hs⟩ := hk
  exact h.wohlGeformt hs

theorem step_eq_some (k : Kern) (op : Op) : ∃ k', k.step op = some k' := by
  cases op <;> exact ⟨_, rfl⟩

theorem step_sauber {k k' : Kern} {op : Op} {kids : Nat → List Nat} (h : k.caps.Inv kids)
    (hs : k.caps.Sauber) (hok : EinbringenOk k op) (hstep : k.step op = some k') :
    k'.caps.Sauber := by
  refine (step_rule h hs ?_ hstep).2
  intro s ks s' hvor h hs hchange
  cases hchange with
  | zurueckgerollt hz =>
    obtain rfl : s = k.caps := hvor.resolve_right fun ⟨_, _, hop⟩ => nomatch hop
    exact absurd ⟨⟨_, hz.lt, by simpa using hz.free⟩, hz.full⟩ hok
  | eingebracht he => exact he.sauber hs
  | abgeleitet ha => exact ha.sauber h hs
  | verschoben _ hv => exact hv.sauber hs
  | gezaehlt hz => exact hs.nurZaehler hz
  | geloescht ha hc =>
    subst ha
    exact sauber_deleteLeaf h hs hc

theorem not_wohlGeformt_of_full {s : CapSpace} (kind : ObjectKind) (rights : Rights)
    (hobj : ∃ o, o < s.objects.len ∧ (s.objects.cell o).used = false)
    (hfull : ∀ i, i < s.slots.len → s.Used i) : ¬ (s.install kind rights).2.WohlGeformt := by
  intro hw
  rcases install_cases s kind rights with ⟨-, hall⟩ | ⟨o, hz⟩ | ⟨o, c, he⟩
  · obtain ⟨o, hlt, hfree⟩ := hobj
    rw [hall o hlt] at hfree
    cases hfree
  · have hcell := hz.objects o
    rw [if_pos rfl] at hcell
    have hiff := hw.used_iff o (hz.objectsLen.symm ▸ hz.lt)
    rw [hcell] at hiff
    exact Bool.noConfusion (hiff.mpr Nat.one_pos)
  · exact he.freeSlot (hfull c he.slotLt)

/-- After every prefix of a run the space is well formed, exactly when no `install` of
the run finds a free object entry and no free slot. -/
theorem run_wohlGeformt_iff (tab : Tabellen) (alloc : PhysAllocator) (ops : List Op) :
    (∀ xs, xs <+: ops → ∃ k, run step (init tab alloc) xs = some k ∧ k.caps.WohlGeformt) ↔
      Admissible step EinbringenOk (init tab alloc) ops := by
  refine forall_prefix_iff_admissible Ordentlich.wohlGeformt ?_ ?_
    ⟨⟨_, attached_inv tab⟩, sauber_attached tab⟩ ops
  · rintro k op ⟨hinv, hs⟩ hok
    obtain ⟨k', hk'⟩ := step_eq_some k op
    obtain ⟨kids, h⟩ := hinv
    exact ⟨k', hk', step_inv k op k' ⟨kids, h⟩ hk', step_sauber h hs hok hk'⟩
  · rintro k op - hnot
    cases op with
    | install kind rights =>
        obtain ⟨hobj, hfull⟩ := not_not.mp hnot
        exact ⟨_, rfl, not_wohlGeformt_of_full kind rights hobj hfull⟩
    | copy | mint | subregion | moveCap | delete | revoke => exact absurd trivial hnot

/-- One slot and two object entries: the second `install` leaves entry 1 free with count 1. -/
theorem run_install_install_leaves_count :
    (run step (init ⟨1, 2, by decide⟩ PhysAllocator.new)
        [.install (.endpoint 0) Rights.rwx, .install (.endpoint 1) Rights.rwx]).map
      (fun k => ((k.caps.objects.cell 1).used, (k.caps.objects.cell 1).refcount)) =
        some (false, 1) ∧
    ∀ k, run step (init ⟨1, 2, by decide⟩ PhysAllocator.new)
        [.install (.endpoint 0) Rights.rwx, .install (.endpoint 1) Rights.rwx] = some k →
      ¬ k.caps.WohlGeformt := by
  have hread : (run step (init ⟨1, 2, by decide⟩ PhysAllocator.new)
      [.install (.endpoint 0) Rights.rwx, .install (.endpoint 1) Rights.rwx]).map
        (fun k => ((k.caps.objects.cell 1).used, (k.caps.objects.cell 1).refcount,
          k.caps.objects.len)) = some (false, 1, 2) := by
    decide
  obtain ⟨k, hk⟩ : ∃ k, run step (init ⟨1, 2, by decide⟩ PhysAllocator.new)
      [.install (.endpoint 0) Rights.rwx, .install (.endpoint 1) Rights.rwx] = some k := ⟨_, rfl⟩
  rw [hk] at hread ⊢
  simp only [Option.map_some, Option.some.injEq, Prod.mk.injEq] at hread ⊢
  obtain ⟨hfree, hcount, hlen⟩ := hread
  refine ⟨⟨hfree, hcount⟩, ?_⟩
  rintro k rfl hw
  have hused := (hw.used_iff 1 (by omega)).mpr (by omega)
  rw [hfree] at hused
  cases hused

end Kern

end Caprock.Cap
