import Mathlib.Data.Finset.Card
import Mathlib.Logic.Relation
import Caprock.Lib.LinkedList

/-! # Forests kept by parent, first-child and sibling links

Each used cell names its parent and the first of its children; the children of one
parent form a doubly linked list.  `Forest` says that the four link fields describe a
forest, with the child lists as a function.  The rules follow the pointer updates:
a new root, a new first child, a leaf taken out, a cell moved to another index.
-/

namespace LinkedList

open Function

variable {ι : Type*}

/-- The four link fields of every cell. -/
structure Links (ι : Type*) where
  parent : ι → Option ι
  firstChild : ι → Option ι
  nextSibling : ι → Option ι
  prevSibling : ι → Option ι

/-- `c` is a used child of `p`. -/
def Child (used : ι → Prop) (k : Links ι) (p c : ι) : Prop := used c ∧ k.parent c = some p

/-- `c` lies properly below `p`. -/
def Below (used : ι → Prop) (k : Links ι) : ι → ι → Prop := Relation.TransGen (Child used k)

theorem used_of_below {used : ι → Prop} {k : Links ι} {p c : ι} (h : Below used k p c) : used c := by
  cases h with
  | single hc | tail _ hc => exact hc.1

structure Forest (used : ι → Prop) (k : Links ι) (kids : ι → List ι) : Prop where
  list : ∀ p, used p → DList k.nextSibling k.prevSibling (kids p)
  first : ∀ p, used p → k.firstChild p = (kids p).head?
  mem_kids : ∀ p, used p → ∀ c, c ∈ kids p ↔ Child used k p c
  parent_used : ∀ c p, Child used k p c → used p
  root : ∀ c, used c → k.parent c = none → k.nextSibling c = none ∧ k.prevSibling c = none
  free : ∀ c, ¬ used c → k.parent c = none ∧ k.firstChild c = none ∧ k.nextSibling c = none ∧
    k.prevSibling c = none
  acyclic : ∃ depth : ι → Nat, ∀ p c, Child used k p c → depth p < depth c

namespace Forest

variable {used used' : ι → Prop} {k k' : Links ι} {kids : ι → List ι}

theorem ne_parent (h : Forest used k kids) {p c : ι} (hc : Child used k p c) : p ≠ c := by
  obtain ⟨depth, hdepth⟩ := h.acyclic
  rintro rfl
  exact Nat.lt_irrefl _ (hdepth p p hc)

theorem mem_of_prev (h : Forest used k kids) {c x : ι} (hc : used c)
    (hx : k.prevSibling c = some x) :
    ∃ p, used p ∧ c ∈ kids p ∧ x ∈ kids p ∧ k.nextSibling x = some c := by
  cases hp : k.parent c with
  | none =>
    rw [(h.root c hc hp).2] at hx
    cases hx
  | some p =>
    have hused := h.parent_used c p ⟨hc, hp⟩
    have hmem := (h.mem_kids p hused c).mpr ⟨hc, hp⟩
    obtain ⟨hxin, hnext⟩ := (h.list p hused).of_prev hmem hx
    exact ⟨p, hused, hmem, hxin, hnext⟩

theorem mem_of_next (h : Forest used k kids) {c x : ι} (hc : used c)
    (hx : k.nextSibling c = some x) :
    ∃ p, used p ∧ c ∈ kids p ∧ x ∈ kids p ∧ k.prevSibling x = some c := by
  cases hp : k.parent c with
  | none =>
    rw [(h.root c hc hp).1] at hx
    cases hx
  | some p =>
    have hused := h.parent_used c p ⟨hc, hp⟩
    have hmem := (h.mem_kids p hused c).mpr ⟨hc, hp⟩
    obtain ⟨hxin, hprev⟩ := (h.list p hused).of_next hmem hx
    exact ⟨p, hused, hmem, hxin, hprev⟩

theorem parent_unique (h : Forest used k kids) {p q c : ι} (hp : used p) (hq : used q)
    (hcp : c ∈ kids p) (hcq : c ∈ kids q) : p = q := by
  have h₁ := ((h.mem_kids p hp c).mp hcp).2
  have h₂ := ((h.mem_kids q hq c).mp hcq).2
  exact Option.some.inj (h₁.symm.trans h₂)

theorem used_of_mem (h : Forest used k kids) {p c : ι} (hp : used p) (hc : c ∈ kids p) : used c :=
  ((h.mem_kids p hp c).mp hc).1

theorem not_mem_self (h : Forest used k kids) {i : ι} (hi : used i) : i ∉ kids i :=
  fun hin => h.ne_parent ((h.mem_kids i hi i).mp hin) rfl

theorem not_sibling (h : Forest used k kids) {i x : ι} (hi : used i)
    (hx : ∀ p, used p → i ∈ kids p → x ∉ kids p) :
    k.prevSibling i ≠ some x ∧ k.nextSibling i ≠ some x := by
  constructor
  · intro hpr
    obtain ⟨q, hq, hiq, hxq, -⟩ := h.mem_of_prev hi hpr
    exact hx q hq hiq hxq
  · intro hnx
    obtain ⟨q, hq, hiq, hxq, -⟩ := h.mem_of_next hi hnx
    exact hx q hq hiq hxq

theorem not_sibling_of_mem_kids (h : Forest used k kids) {i x : ι} (hi : used i)
    (hx : x ∈ kids i) : k.prevSibling i ≠ some x ∧ k.nextSibling i ≠ some x :=
  h.not_sibling hi fun _ hq hiq hxq => h.not_mem_self hi (h.parent_unique hi hq hx hxq ▸ hiq)

theorem firstChild_ne (h : Forest used k kids) {p x : ι} (hp : used p) (hx : x ∉ kids p) :
    k.firstChild p ≠ some x := by
  rw [h.first p hp]
  exact fun hhead => hx (List.mem_of_head? hhead)

theorem not_mem_of_root (h : Forest used k kids) {p x : ι} (hp : used p)
    (hx : k.parent x = none) : x ∉ kids p := by
  intro hin
  rw [((h.mem_kids p hp x).mp hin).2] at hx
  cases hx

theorem below_irrefl (h : Forest used k kids) (p : ι) : ¬ Below used k p p := by
  obtain ⟨depth, hdepth⟩ := h.acyclic
  have hlt : ∀ q c, Below used k q c → depth q < depth c := by
    intro q c hc
    induction hc with
    | single hc => exact hdepth q _ hc
    | tail _ hc ih => exact Nat.lt_trans ih (hdepth _ _ hc)
  intro hp
  exact Nat.lt_irrefl _ (hlt p p hp)

theorem kids_nil (h : Forest used k kids) {p : ι} (hp : used p) (hf : k.firstChild p = none) :
    kids p = [] :=
  List.head?_eq_none_iff.mp ((h.first p hp).symm.trans hf)

theorem empty (hused : ∀ x, ¬ used x) (hfree : ∀ c, k.parent c = none ∧ k.firstChild c = none ∧
    k.nextSibling c = none ∧ k.prevSibling c = none) : Forest used k fun _ => [] where
  list := fun p hp => absurd hp (hused p)
  first := fun p hp => absurd hp (hused p)
  mem_kids := fun p hp => absurd hp (hused p)
  parent_used := fun c _ hc => absurd hc.1 (hused c)
  root := fun c hc => absurd hc (hused c)
  free := fun c _ => hfree c
  acyclic := ⟨fun _ => 0, fun _ c hc => absurd hc.1 (hused c)⟩

theorem congr_kids {kids' : ι → List ι} (h : Forest used k kids)
    (hkids : ∀ p, used p → kids' p = kids p) : Forest used k kids' where
  list := fun p hp => hkids p hp ▸ h.list p hp
  first := fun p hp => hkids p hp ▸ h.first p hp
  mem_kids := fun p hp => hkids p hp ▸ h.mem_kids p hp
  parent_used := h.parent_used
  root := h.root
  free := h.free
  acyclic := h.acyclic

/-- The cells and the child lists determine all links. -/
theorem links_unique (h : Forest used k kids) (h' : Forest used k' kids) : k' = k := by
  have hparent : ∀ x, k'.parent x = k.parent x := by
    intro x
    by_cases hx : used x
    · cases hp : k.parent x with
      | some p =>
        have hused := h.parent_used x p ⟨hx, hp⟩
        exact ((h'.mem_kids p hused x).mp ((h.mem_kids p hused x).mpr ⟨hx, hp⟩)).2
      | none =>
        cases hp' : k'.parent x with
        | none => rfl
        | some p =>
          have hused := h'.parent_used x p ⟨hx, hp'⟩
          have hchild := (h.mem_kids p hused x).mp ((h'.mem_kids p hused x).mpr ⟨hx, hp'⟩)
          exact absurd (hp.symm.trans hchild.2) (by simp)
    · rw [(h.free x hx).1, (h'.free x hx).1]
  have hfirst : ∀ x, k'.firstChild x = k.firstChild x := by
    intro x
    by_cases hx : used x
    · rw [h.first x hx, h'.first x hx]
    · rw [(h.free x hx).2.1, (h'.free x hx).2.1]
  have hsibling : ∀ x, k'.nextSibling x = k.nextSibling x ∧ k'.prevSibling x = k.prevSibling x := by
    intro x
    by_cases hx : used x
    · cases hp : k.parent x with
      | some p =>
        have hused := h.parent_used x p ⟨hx, hp⟩
        exact (h.list p hused).links_unique (h'.list p hused)
          ((h.mem_kids p hused x).mpr ⟨hx, hp⟩)
      | none =>
        obtain ⟨hnext, hprev⟩ := h.root x hx hp
        obtain ⟨hnext', hprev'⟩ := h'.root x hx ((hparent x).trans hp)
        rw [hnext, hnext', hprev, hprev']
        exact ⟨rfl, rfl⟩
    · obtain ⟨-, -, hnext, hprev⟩ := h.free x hx
      obtain ⟨-, -, hnext', hprev'⟩ := h'.free x hx
      rw [hnext, hnext', hprev, hprev']
      exact ⟨rfl, rfl⟩
  obtain ⟨par, first, next, prev⟩ := k
  obtain ⟨par', first', next', prev'⟩ := k'
  congr 1
  · exact funext hparent
  · exact funext hfirst
  · exact funext fun x => (hsibling x).1
  · exact funext fun x => (hsibling x).2

/-- In a finite forest the number of smaller cells ranks every path. -/
theorem exists_rank (h : Forest used k kids) (T : Finset ι) (hT : ∀ x, used x → x ∈ T) :
    ∃ r : ι → Nat, (∀ c, used c → r c < T.card) ∧ ∀ p c, Child used k p c → r p < r c := by
  classical
  obtain ⟨depth, hdepth⟩ := h.acyclic
  refine ⟨fun c => (T.filter fun x => used x ∧ depth x < depth c).card, ?_, ?_⟩
  · intro c hc
    apply Finset.card_lt_card
    refine Finset.filter_ssubset.mpr ⟨c, hT c hc, ?_⟩
    rintro ⟨-, hlt⟩
    exact Nat.lt_irrefl _ hlt
  · intro p c hc
    have hp := h.parent_used c p hc
    have hlt := hdepth p c hc
    apply Finset.card_lt_card
    rw [Finset.ssubset_iff_of_subset]
    · refine ⟨p, Finset.mem_filter.mpr ⟨hT p hp, hp, hlt⟩, ?_⟩
      intro hin
      exact Nat.lt_irrefl _ (Finset.mem_filter.mp hin).2.2
    · intro x hx
      obtain ⟨hxT, hxu, hxlt⟩ := Finset.mem_filter.mp hx
      exact Finset.mem_filter.mpr ⟨hxT, hxu, Nat.lt_trans hxlt hlt⟩

theorem exists_root (h : Forest used k kids) {c : ι} (hc : used c) :
    ∃ r, used r ∧ k.parent r = none ∧ Relation.ReflTransGen (Child used k) r c := by
  obtain ⟨depth, hdepth⟩ := h.acyclic
  induction hn : depth c using Nat.strong_induction_on generalizing c with
  | _ n ih =>
    cases hp : k.parent c with
    | none => exact ⟨c, hc, hp, .refl⟩
    | some p =>
      obtain ⟨r, hr, hroot, hpath⟩ :=
        ih (depth p) (hn ▸ hdepth p c ⟨hc, hp⟩) (h.parent_used c p ⟨hc, hp⟩) rfl
      exact ⟨r, hr, hroot, hpath.tail ⟨hc, hp⟩⟩

theorem length_kids_le (h : Forest used k kids) (T : Finset ι) (hT : ∀ x, used x → x ∈ T) {p : ι}
    (hp : used p) : (kids p).length ≤ T.card := by
  classical
  rw [← List.toFinset_card_of_nodup (h.list p hp).nodup]
  apply Finset.card_le_card
  intro x hx
  exact hT x (h.used_of_mem hp (List.mem_toFinset.mp hx))

variable [DecidableEq ι]

/-- A fresh cell without links is a new root. -/
theorem add_root {c : ι} (h : Forest used k kids) (hc : ¬ used c)
    (hused : ∀ x, used' x ↔ used x ∨ x = c) :
    Forest used' k (update kids c []) := by
  obtain ⟨hpar, hfirst, hnext, hprev⟩ := h.free c hc
  have hchild : ∀ p x, Child used' k p x ↔ Child used k p x := by
    intro p x
    unfold Child
    rw [hused]
    constructor
    · rintro ⟨hx | rfl, hp⟩
      · exact ⟨hx, hp⟩
      · rw [hpar] at hp
        cases hp
    · rintro ⟨hx, hp⟩
      exact ⟨.inl hx, hp⟩
  refine ⟨?_, ?_, ?_, ?_, ?_, ?_, ?_⟩
  · intro p hp
    by_cases hpc : p = c
    · rw [hpc, update_self]
      exact DList.nil
    · rw [update_of_ne hpc]
      exact h.list p (((hused p).mp hp).resolve_right hpc)
  · intro p hp
    by_cases hpc : p = c
    · rw [hpc, update_self]
      exact hfirst
    · rw [update_of_ne hpc]
      exact h.first p (((hused p).mp hp).resolve_right hpc)
  · intro p hp x
    rw [hchild]
    by_cases hpc : p = c
    · rw [hpc, update_self]
      refine ⟨fun hx => absurd hx (List.not_mem_nil), fun hx => ?_⟩
      exact absurd (h.parent_used x c hx) hc
    · rw [update_of_ne hpc]
      exact h.mem_kids p (((hused p).mp hp).resolve_right hpc) x
  · intro x p hx
    exact (hused p).mpr (.inl (h.parent_used x p ((hchild p x).mp hx)))
  · intro x hx hp
    rcases (hused x).mp hx with hx | rfl
    · exact h.root x hx hp
    · exact ⟨hnext, hprev⟩
  · intro x hx
    exact h.free x fun hu => hx ((hused x).mpr (.inl hu))
  · obtain ⟨depth, hdepth⟩ := h.acyclic
    exact ⟨depth, fun p x hx => hdepth p x ((hchild p x).mp hx)⟩

/-- A fresh cell becomes the first child of `p`. -/
theorem add_child {p c : ι} (h : Forest used k kids) (hp : used p) (hc : ¬ used c)
    (hused : ∀ x, used' x ↔ used x ∨ x = c)
    (hparent : ∀ x, k'.parent x = if x = c then some p else k.parent x)
    (hfirst : ∀ x, k'.firstChild x = if x = p then some c else k.firstChild x)
    (hnext : ∀ x, k'.nextSibling x = if x = c then k.firstChild p else k.nextSibling x)
    (hprev : ∀ x, k'.prevSibling x =
      if x = c then none else if k.firstChild p = some x then some c else k.prevSibling x) :
    Forest used' k' (update (update kids c []) p (c :: kids p)) := by
  have hpc : p ≠ c := fun heq => hc (heq ▸ hp)
  have hne : ∀ x, used x → x ≠ c := by
    rintro x hx rfl
    exact hc hx
  have hchild : ∀ q x, Child used' k' q x ↔ (q = p ∧ x = c) ∨ Child used k q x := by
    intro q x
    unfold Child
    rw [hused, hparent]
    by_cases hxc : x = c
    · subst hxc
      simp only [if_true, or_true, true_and, Option.some.injEq, and_true]
      constructor
      · rintro rfl
        exact .inl rfl
      · rintro (rfl | ⟨hx, -⟩)
        · rfl
        · exact absurd hx hc
    · simp [hxc]
  -- Everything behind the new first child keeps its links, the old first child apart.
  have hframe : ∀ q, used q → q ≠ p →
      DList k'.nextSibling k'.prevSibling (kids q) := by
    intro q hq hqp
    refine (h.list q hq).congr (fun x hx => ?_) (fun x hx => ?_)
    · rw [hnext, if_neg (hne x (h.used_of_mem hq hx))]
    · have hxp : x ∉ kids p := fun hin => hqp (h.parent_unique hq hp hx hin)
      rw [hprev, if_neg (hne x (h.used_of_mem hq hx)), if_neg (h.firstChild_ne hp hxp)]
  refine ⟨?_, ?_, ?_, ?_, ?_, ?_, ?_⟩
  · intro q hq
    by_cases hqp : q = p
    · subst hqp
      rw [update_self]
      refine (h.list q hp).push_front (fun hin => hc (h.used_of_mem hp hin)) ?_ ?_ ?_ ?_
      · rw [hnext, if_pos rfl, h.first q hp]
      · rw [hprev, if_pos rfl]
      · intro x hx
        rw [hnext, if_neg (hne x (h.used_of_mem hp hx))]
      · intro x hx
        rw [hprev, if_neg (hne x (h.used_of_mem hp hx)), h.first q hp]
    · rw [update_of_ne hqp]
      by_cases hqc : q = c
      · rw [hqc, update_self]
        exact DList.nil
      · rw [update_of_ne hqc]
        exact hframe q (((hused q).mp hq).resolve_right hqc) hqp
  · intro q hq
    rw [hfirst]
    by_cases hqp : q = p
    · rw [hqp, if_pos rfl, update_self, List.head?_cons]
    · rw [if_neg hqp, update_of_ne hqp]
      by_cases hqc : q = c
      · rw [hqc, update_self]
        exact (h.free c hc).2.1
      · rw [update_of_ne hqc]
        exact h.first q (((hused q).mp hq).resolve_right hqc)
  · intro q hq x
    rw [hchild]
    by_cases hqp : q = p
    · subst hqp
      rw [update_self, List.mem_cons, h.mem_kids q hp]
      simp
    · rw [update_of_ne hqp]
      by_cases hqc : q = c
      · rw [hqc, update_self]
        refine ⟨fun hx => absurd hx List.not_mem_nil, ?_⟩
        rintro (⟨hcp, -⟩ | hx)
        · exact absurd hcp.symm hpc
        · exact absurd (h.parent_used x c hx) hc
      · rw [update_of_ne hqc, h.mem_kids q (((hused q).mp hq).resolve_right hqc)]
        simp [hqp]
  · intro x q hx
    rcases (hchild q x).mp hx with ⟨rfl, rfl⟩ | hx
    · exact (hused q).mpr (.inl hp)
    · exact (hused q).mpr (.inl (h.parent_used x q hx))
  · intro x hx hpx
    rw [hparent] at hpx
    rcases (hused x).mp hx with hx | rfl
    · rw [if_neg (hne x hx)] at hpx
      rw [hnext, hprev, if_neg (hne x hx), if_neg (hne x hx),
        if_neg (h.firstChild_ne hp (h.not_mem_of_root hp hpx))]
      exact h.root x hx hpx
    · rw [if_pos rfl] at hpx
      cases hpx
  · intro x hx
    have hxu : ¬ used x := fun hu => hx ((hused x).mpr (.inl hu))
    have hxc : x ≠ c := fun heq => hx ((hused x).mpr (.inr heq))
    have hxp : x ≠ p := fun heq => hxu (heq ▸ hp)
    have hin : x ∉ kids p := fun hin => hxu (h.used_of_mem hp hin)
    rw [hparent, hfirst, hnext, hprev, if_neg hxc, if_neg hxp, if_neg hxc, if_neg hxc,
      if_neg (h.firstChild_ne hp hin)]
    exact h.free x hxu
  · obtain ⟨depth, hdepth⟩ := h.acyclic
    refine ⟨update depth c (depth p + 1), ?_⟩
    intro q x hx
    rcases (hchild q x).mp hx with ⟨rfl, rfl⟩ | hx
    · rw [update_self, update_of_ne hpc]
      exact Nat.lt_succ_self _
    · rw [update_of_ne (hne x hx.1), update_of_ne (hne q (h.parent_used x q hx))]
      exact hdepth q x hx

theorem remove_leaf {c : ι} (h : Forest used k kids) (hc : used c) (hleaf : kids c = [])
    (hused : ∀ x, used' x ↔ used x ∧ x ≠ c)
    (hparent : ∀ x, k'.parent x = if x = c then none else k.parent x)
    (hfirst : ∀ x, k'.firstChild x =
      if x = c then none
      else if k.prevSibling c = none ∧ k.parent c = some x then k.nextSibling c
      else k.firstChild x)
    (hnext : ∀ x, k'.nextSibling x =
      if x = c then none
      else if k.prevSibling c = some x then k.nextSibling c else k.nextSibling x)
    (hprev : ∀ x, k'.prevSibling x =
      if x = c then none
      else if k.nextSibling c = some x then k.prevSibling c else k.prevSibling x) :
    Forest used' k' fun p => (kids p).erase c := by
  have hchild : ∀ p x, Child used' k' p x ↔ Child used k p x ∧ x ≠ c := by
    intro p x
    unfold Child
    rw [hused, hparent]
    by_cases hxc : x = c
    · simp [hxc]
    · simp [hxc]
  have hapart : ∀ {p x}, used p → c ∉ kids p → x ∈ kids p →
      k.prevSibling c ≠ some x ∧ k.nextSibling c ≠ some x := by
    intro p x hp hin hx
    exact h.not_sibling hc fun q hq hcq hxq => hin (h.parent_unique hq hp hxq hx ▸ hcq)
  refine ⟨?_, ?_, ?_, ?_, ?_, ?_, ?_⟩
  · intro p hp
    obtain ⟨hpu, hpc⟩ := (hused p).mp hp
    by_cases hin : c ∈ kids p
    · refine (h.list p hpu).unlink hin (fun x _ hxc => ?_) (fun x _ hxc => ?_)
      · rw [hnext, if_neg hxc]
      · rw [hprev, if_neg hxc]
    · rw [List.erase_of_not_mem hin]
      -- Neighbours of `c` stand in the same list, so nothing changes here.
      refine (h.list p hpu).congr (fun x hx => ?_) (fun x hx => ?_)
      · rw [hnext, if_neg (ne_of_mem_of_not_mem hx hin), if_neg (hapart hpu hin hx).1]
      · rw [hprev, if_neg (ne_of_mem_of_not_mem hx hin), if_neg (hapart hpu hin hx).2]
  · intro p hp
    obtain ⟨hpu, hpc⟩ := (hused p).mp hp
    rw [hfirst, if_neg hpc]
    by_cases hpar : k.parent c = some p
    · have hin : c ∈ kids p := (h.mem_kids p hpu c).mpr ⟨hc, hpar⟩
      rw [(h.list p hpu).head?_erase hin, h.first p hpu]
      simp [hpar]
    · rw [if_neg fun hand => hpar hand.2, h.first p hpu]
      have hnot : c ∉ kids p := fun hin => hpar ((h.mem_kids p hpu c).mp hin).2
      rw [List.erase_of_not_mem hnot]
  · intro p hp x
    obtain ⟨hpu, hpc⟩ := (hused p).mp hp
    rw [hchild, (h.list p hpu).nodup.mem_erase_iff, h.mem_kids p hpu]
    exact and_comm
  · intro x p hx
    obtain ⟨hx, hxc⟩ := (hchild p x).mp hx
    refine (hused p).mpr ⟨h.parent_used x p hx, ?_⟩
    rintro rfl
    have hin := (h.mem_kids p hc x).mpr hx
    rw [hleaf] at hin
    exact absurd hin List.not_mem_nil
  · intro x hx hpx
    obtain ⟨hxu, hxc⟩ := (hused x).mp hx
    rw [hparent, if_neg hxc] at hpx
    obtain ⟨hpr, hne⟩ := h.not_sibling hc fun q hq _ => h.not_mem_of_root hq hpx
    rw [hnext, hprev, if_neg hxc, if_neg hxc, if_neg hpr, if_neg hne]
    exact h.root x hxu hpx
  · intro x hx
    by_cases hxc : x = c
    · rw [hparent, hfirst, hnext, hprev]
      simp [hxc]
    · have hxu : ¬ used x := fun hu => hx ((hused x).mpr ⟨hu, hxc⟩)
      obtain ⟨hpr, hne⟩ := h.not_sibling hc fun q hq _ hxq => hxu (h.used_of_mem hq hxq)
      have hpar : ¬ (k.prevSibling c = none ∧ k.parent c = some x) :=
        fun hand => hxu (h.parent_used c x ⟨hc, hand.2⟩)
      rw [hparent, hfirst, hnext, hprev, if_neg hxc, if_neg hxc, if_neg hxc, if_neg hxc,
        if_neg hpar, if_neg hpr, if_neg hne]
      exact h.free x hxu
  · obtain ⟨depth, hdepth⟩ := h.acyclic
    exact ⟨depth, fun p x hx => hdepth p x ((hchild p x).mp hx).1⟩

/-- `k'` is `k` with the cell `i` moved to the fresh index `d`; its neighbours, its parent and
its children follow. -/
structure Moved (used used' : ι → Prop) (k k' : Links ι) (kids : ι → List ι) (i d : ι) :
    Prop where
  from_used : used i
  fresh : ¬ used d
  used_iff : ∀ x, used' x ↔ (used x ∧ x ≠ i) ∨ x = d
  parent : ∀ x, k'.parent x =
    if x = i then none
    else if x = d then k.parent i else if x ∈ kids i then some d else k.parent x
  firstChild : ∀ x, k'.firstChild x =
    if x = i then none
    else if x = d then k.firstChild i
    else if k.prevSibling i = none ∧ k.parent i = some x then some d else k.firstChild x
  nextSibling : ∀ x, k'.nextSibling x =
    if x = i then none
    else if x = d then k.nextSibling i
    else if k.prevSibling i = some x then some d else k.nextSibling x
  prevSibling : ∀ x, k'.prevSibling x =
    if x = i then none
    else if x = d then k.prevSibling i
    else if k.nextSibling i = some x then some d else k.prevSibling x

def movedKids (kids : ι → List ι) (i d p : ι) : List ι :=
  if p = d then kids i else (kids p).map fun x => if x = i then d else x

theorem movedKids_self (kids : ι → List ι) (i d : ι) : movedKids kids i d d = kids i := if_pos rfl

theorem movedKids_of_ne {p d : ι} (hp : p ≠ d) (i : ι) :
    movedKids kids i d p = (kids p).map fun x => if x = i then d else x := if_neg hp

theorem movedKids_of_notMem {p i d : ι} (hp : p ≠ d) (hin : i ∉ kids p) :
    movedKids kids i d p = kids p := by
  rw [movedKids_of_ne hp]
  refine (List.map_congr_left fun x hx => ?_).trans (List.map_id _)
  rw [if_neg (by rintro rfl; exact hin hx), id]

namespace Moved

variable {i d : ι} (m : Moved used used' k k' kids i d)

include m

theorem fresh_ne : d ≠ i := fun heq => m.fresh (heq ▸ m.from_used)

theorem ne_fresh {x : ι} (hx : used x) : x ≠ d := by
  rintro rfl
  exact m.fresh hx

theorem used_of_ne {p : ι} (hp : used' p) (hpd : p ≠ d) : used p ∧ p ≠ i :=
  ((m.used_iff p).mp hp).resolve_right hpd

theorem child_iff (h : Forest used k kids) (p x : ι) : Child used' k' p x ↔
    (x = d ∧ k.parent i = some p) ∨ (p = d ∧ x ∈ kids i) ∨
      (x ≠ i ∧ x ∉ kids i ∧ Child used k p x) := by
  have hid := m.fresh_ne
  unfold Child
  rw [m.used_iff, m.parent]
  by_cases hxd : x = d
  · subst hxd
    have hx : x ∉ kids i := fun hin => m.fresh (h.used_of_mem m.from_used hin)
    simp [hid, hx, m.fresh]
  · by_cases hxi : x = i
    · subst hxi
      simp [hxd, h.not_mem_self m.from_used]
    · by_cases hin : x ∈ kids i
      · have hxu := h.used_of_mem m.from_used hin
        simp [hxd, hxi, hin, hxu, eq_comm]
      · simp [hxd, hxi, hin]

theorem child_of_moved (h : Forest used k kids) {p x : ι} (hx : Child used' k' p x) :
    Child used k (if p = d then i else p) (if x = d then i else x) := by
  rcases (m.child_iff h p x).mp hx with ⟨rfl, hpar⟩ | ⟨rfl, hin⟩ | ⟨-, -, hc⟩
  · rw [if_pos rfl, if_neg (m.ne_fresh (h.parent_used i p ⟨m.from_used, hpar⟩))]
    exact ⟨m.from_used, hpar⟩
  · rw [if_pos rfl, if_neg (m.ne_fresh (h.used_of_mem m.from_used hin))]
    exact (h.mem_kids i m.from_used x).mp hin
  · rw [if_neg (m.ne_fresh hc.1), if_neg (m.ne_fresh (h.parent_used x p hc))]
    exact hc

/-- The neighbours of `i` are its siblings; other cells keep their sibling links. -/
theorem nextSibling_frame (h : Forest used k kids) {x : ι} (hxi : x ≠ i) (hxd : x ≠ d)
    (hsib : ∀ p, used p → i ∈ kids p → x ∉ kids p) : k'.nextSibling x = k.nextSibling x := by
  rw [m.nextSibling, if_neg hxi, if_neg hxd, if_neg (h.not_sibling m.from_used hsib).1]

theorem prevSibling_frame (h : Forest used k kids) {x : ι} (hxi : x ≠ i) (hxd : x ≠ d)
    (hsib : ∀ p, used p → i ∈ kids p → x ∉ kids p) : k'.prevSibling x = k.prevSibling x := by
  rw [m.prevSibling, if_neg hxi, if_neg hxd, if_neg (h.not_sibling m.from_used hsib).2]

theorem dlist_of_notMem (h : Forest used k kids) {p : ι} (hp : used p) (hin : i ∉ kids p) :
    DList k'.nextSibling k'.prevSibling (kids p) := by
  have hsib : ∀ x ∈ kids p, ∀ q, used q → i ∈ kids q → x ∉ kids q := by
    intro x hx q hq hiq hxq
    exact hin (h.parent_unique hp hq hx hxq ▸ hiq)
  have hxi : ∀ x ∈ kids p, x ≠ i := fun x hx heq => hin (heq ▸ hx)
  have hxd : ∀ x ∈ kids p, x ≠ d := fun x hx => m.ne_fresh (h.used_of_mem hp hx)
  refine (h.list p hp).congr (fun x hx => ?_) (fun x hx => ?_)
  · exact m.nextSibling_frame h (hxi x hx) (hxd x hx) (hsib x hx)
  · exact m.prevSibling_frame h (hxi x hx) (hxd x hx) (hsib x hx)

theorem dlist_movedKids (h : Forest used k kids) {p : ι} (hp : used' p) :
    DList k'.nextSibling k'.prevSibling (movedKids kids i d p) := by
  by_cases hpd : p = d
  · rw [hpd, movedKids_self]
    exact m.dlist_of_notMem h m.from_used (h.not_mem_self m.from_used)
  · obtain ⟨hpu, -⟩ := m.used_of_ne hp hpd
    by_cases hin : i ∈ kids p
    · have hdin : d ∉ kids p := fun hdin => m.fresh (h.used_of_mem hpu hdin)
      rw [movedKids_of_ne hpd]
      refine (h.list p hpu).replace hin hdin ?_ ?_ ?_ ?_
      · rw [m.nextSibling, if_neg m.fresh_ne, if_pos rfl]
      · rw [m.prevSibling, if_neg m.fresh_ne, if_pos rfl]
      · intro x hx hxi
        rw [m.nextSibling, if_neg hxi, if_neg (m.ne_fresh (h.used_of_mem hpu hx))]
      · intro x hx hxi
        rw [m.prevSibling, if_neg hxi, if_neg (m.ne_fresh (h.used_of_mem hpu hx))]
    · rw [movedKids_of_notMem hpd hin]
      exact m.dlist_of_notMem h hpu hin

theorem firstChild_eq (h : Forest used k kids) {p : ι} (hp : used' p) :
    k'.firstChild p = (movedKids kids i d p).head? := by
  rw [m.firstChild]
  by_cases hpd : p = d
  · rw [if_neg (by rw [hpd]; exact m.fresh_ne), if_pos hpd, hpd, movedKids_self]
    exact h.first i m.from_used
  · obtain ⟨hpu, hpi⟩ := m.used_of_ne hp hpd
    rw [if_neg hpi, if_neg hpd]
    by_cases hpar : k.parent i = some p
    · have hin : i ∈ kids p := (h.mem_kids p hpu i).mpr ⟨m.from_used, hpar⟩
      obtain ⟨l₁, l₂, hl⟩ := List.append_of_mem hin
      have hdl := h.list p hpu
      rw [hl] at hdl
      rw [movedKids_of_ne hpd, h.first p hpu, hdl.links.1, hl]
      cases l₁ with
      | nil => simp [hpar]
      | cons b l₁ =>
        have hbi : b ≠ i := by
          rintro rfl
          simp at hdl
          exact absurd hdl.nodup (by simp)
        simp [hbi]
    · have hin : i ∉ kids p := fun hin => hpar ((h.mem_kids p hpu i).mp hin).2
      rw [if_neg fun hand => hpar hand.2, movedKids_of_notMem hpd hin, h.first p hpu]

theorem mem_movedKids (h : Forest used k kids) {p : ι} (hp : used' p) (x : ι) :
    x ∈ movedKids kids i d p ↔ Child used' k' p x := by
  rw [m.child_iff h]
  by_cases hpd : p = d
  · subst hpd
    have hpar : ∀ y, ¬ Child used k p y := fun y hy => m.fresh (h.parent_used y p hy)
    have hpari : k.parent i ≠ some p := fun heq => hpar i ⟨m.from_used, heq⟩
    rw [movedKids_self]
    simp [hpar, hpari]
  · obtain ⟨hpu, hpi⟩ := m.used_of_ne hp hpd
    rw [movedKids_of_ne hpd, List.mem_map]
    constructor
    · rintro ⟨y, hy, rfl⟩
      by_cases hyi : y = i
      · rw [if_pos hyi]
        exact .inl ⟨rfl, ((h.mem_kids p hpu i).mp (hyi ▸ hy)).2⟩
      · rw [if_neg hyi]
        refine .inr (.inr ⟨hyi, fun hin => ?_, (h.mem_kids p hpu y).mp hy⟩)
        exact hpi (h.parent_unique hpu m.from_used hy hin)
    · rintro (⟨rfl, hpar⟩ | ⟨hcontra, -⟩ | ⟨hxi, -, hx⟩)
      · exact ⟨i, (h.mem_kids p hpu i).mpr ⟨m.from_used, hpar⟩, if_pos rfl⟩
      · exact absurd hcontra hpd
      · exact ⟨x, (h.mem_kids p hpu x).mpr hx, if_neg hxi⟩

theorem parent_used (h : Forest used k kids) {x p : ι} (hx : Child used' k' p x) : used' p := by
  rcases (m.child_iff h p x).mp hx with ⟨-, hpar⟩ | ⟨rfl, -⟩ | ⟨-, hin, hx⟩
  · have hchild : Child used k p i := ⟨m.from_used, hpar⟩
    exact (m.used_iff p).mpr (.inl ⟨h.parent_used i p hchild, h.ne_parent hchild⟩)
  · exact (m.used_iff p).mpr (.inr rfl)
  · refine (m.used_iff p).mpr (.inl ⟨h.parent_used x p hx, ?_⟩)
    rintro rfl
    exact hin ((h.mem_kids p m.from_used x).mpr hx)

theorem root (h : Forest used k kids) {x : ι} (hx : used' x) (hpx : k'.parent x = none) :
    k'.nextSibling x = none ∧ k'.prevSibling x = none := by
  rw [m.parent] at hpx
  rcases (m.used_iff x).mp hx with ⟨hxu, hxi⟩ | rfl
  · have hxd := m.ne_fresh hxu
    rw [if_neg hxi, if_neg hxd] at hpx
    split at hpx
    · cases hpx
    · have hsib : ∀ q, used q → i ∈ kids q → x ∉ kids q := by
        intro q hq _ hxq
        rw [((h.mem_kids q hq x).mp hxq).2] at hpx
        cases hpx
      rw [m.nextSibling_frame h hxi hxd hsib, m.prevSibling_frame h hxi hxd hsib]
      exact h.root x hxu hpx
  · rw [if_neg m.fresh_ne, if_pos rfl] at hpx
    rw [m.nextSibling, m.prevSibling, if_neg m.fresh_ne, if_neg m.fresh_ne, if_pos rfl,
      if_pos rfl]
    exact h.root i m.from_used hpx

theorem free (h : Forest used k kids) {x : ι} (hx : ¬ used' x) :
    k'.parent x = none ∧ k'.firstChild x = none ∧ k'.nextSibling x = none ∧
      k'.prevSibling x = none := by
  by_cases hxi : x = i
  · rw [m.parent, m.firstChild, m.nextSibling, m.prevSibling]
    simp [hxi]
  · have hxd : x ≠ d := fun heq => hx ((m.used_iff x).mpr (.inr heq))
    have hxu : ¬ used x := fun hu => hx ((m.used_iff x).mpr (.inl ⟨hu, hxi⟩))
    have hsib : ∀ q, used q → i ∈ kids q → x ∉ kids q :=
      fun q hq _ hxq => hxu (h.used_of_mem hq hxq)
    have hin : x ∉ kids i := fun hin => hxu (h.used_of_mem m.from_used hin)
    have hpar : ¬ (k.prevSibling i = none ∧ k.parent i = some x) :=
      fun hand => hxu (h.parent_used i x ⟨m.from_used, hand.2⟩)
    rw [m.nextSibling_frame h hxi hxd hsib, m.prevSibling_frame h hxi hxd hsib, m.parent,
      m.firstChild, if_neg hxi, if_neg hxd, if_neg hin, if_neg hxi, if_neg hxd, if_neg hpar]
    exact h.free x hxu

theorem acyclic (h : Forest used k kids) :
    ∃ depth : ι → Nat, ∀ p c, Child used' k' p c → depth p < depth c := by
  obtain ⟨depth, hdepth⟩ := h.acyclic
  refine ⟨update depth d (depth i), ?_⟩
  intro p x hx
  rcases (m.child_iff h p x).mp hx with ⟨rfl, hpar⟩ | ⟨rfl, hin⟩ | ⟨-, -, hx⟩
  · have hchild : Child used k p i := ⟨m.from_used, hpar⟩
    rw [update_self, update_of_ne (m.ne_fresh (h.parent_used i p hchild))]
    exact hdepth p i hchild
  · rw [update_self,
      update_of_ne (m.ne_fresh (h.used_of_mem m.from_used hin))]
    exact hdepth i x ((h.mem_kids i m.from_used x).mp hin)
  · rw [update_of_ne (m.ne_fresh hx.1),
      update_of_ne (m.ne_fresh (h.parent_used x p hx))]
    exact hdepth p x hx

/-- A cell moves to a fresh index and keeps its place; its children follow. -/
theorem forest (h : Forest used k kids) : Forest used' k' (movedKids kids i d) where
  list := fun _ hp => m.dlist_movedKids h hp
  first := fun _ hp => m.firstChild_eq h hp
  mem_kids := fun _ hp x => m.mem_movedKids h hp x
  parent_used := fun _ _ hx => m.parent_used h hx
  root := fun _ hx hpx => m.root h hx hpx
  free := fun _ hx => m.free h hx
  acyclic := m.acyclic h

end Moved

end Forest

end LinkedList
