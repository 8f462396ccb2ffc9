import Mathlib.Data.Finset.Card
import Mathlib.Logic.Relation

/-! # Graphs with at most one outgoing edge

The edges are a partial function.  A walk from a node is then determined, and two
facts make it a decision procedure: in an acyclic graph with finitely many sources the
walk is no longer than their number (`exists_rank`; to a given target in any graph,
`exists_distance`), and a new edge closes a cycle exactly when its target reaches its
source (`closesCycle_iff`).
-/

namespace FunctionalGraph

variable {ι : Type*}

def Edge (f : ι → Option ι) (a b : ι) : Prop := f a = some b

/-- `b` can be reached from `a`, possibly in no step. -/
def Reaches (f : ι → Option ι) : ι → ι → Prop := Relation.ReflTransGen (Edge f)

def Acyclic (f : ι → Option ι) : Prop := ∀ a, ¬ Relation.TransGen (Edge f) a a

def ClosesCycle (f : ι → Option ι) (g h : ι) : Prop :=
  ∃ a, Relation.TransGen (fun x y => Edge f x y ∨ x = g ∧ y = h) a a

theorem acyclic_none : Acyclic fun _ : ι => (none : Option ι) := by
  intro a h
  obtain ⟨b, hab, -⟩ := Relation.TransGen.head'_iff.mp h
  cases hab

theorem Acyclic.mono {f f' : ι → Option ι} (h : Acyclic f)
    (hsub : ∀ a b, f' a = some b → f a = some b) : Acyclic f' := by
  intro a ha
  exact h a (Relation.TransGen.mono hsub _ _ ha)

theorem reaches_iff_of_none {f : ι → Option ι} {a b : ι} (h : f a = none) :
    Reaches f a b ↔ a = b := by
  constructor
  · intro hreach
    rcases Relation.ReflTransGen.cases_head hreach with heq | ⟨c, hc, -⟩
    · exact heq
    · rw [Edge, h] at hc
      cases hc
  · rintro rfl
    exact Relation.ReflTransGen.refl

theorem reaches_iff_of_edge {f : ι → Option ι} {a b n : ι} (h : f a = some n) (hne : a ≠ b) :
    Reaches f a b ↔ Reaches f n b := by
  constructor
  · intro hreach
    rcases Relation.ReflTransGen.cases_head hreach with heq | ⟨c, hc, hrest⟩
    · exact absurd heq hne
    · rw [Edge, h] at hc
      cases hc
      exact hrest
  · exact fun hreach => Relation.ReflTransGen.head h hreach

theorem cycle_edge {f : ι → Option ι} {a b : ι} (hcycle : Relation.TransGen (Edge f) a a)
    (hab : f a = some b) : Relation.TransGen (Edge f) b b := by
  obtain ⟨c, hac, hca⟩ := Relation.TransGen.head'_iff.mp hcycle
  rw [Edge, hab] at hac
  cases hac
  exact Relation.TransGen.tail' hca hab

theorem not_reaches_of_cycle {f g : ι → Option ι} (hsub : ∀ a b, g a = some b → f a = some b)
    {a t : ι} (ht : g t = none) (hcycle : Relation.TransGen (Edge g) a a) : ¬ Reaches f a t := by
  intro hreach
  induction hreach using Relation.ReflTransGen.head_induction_on with
  | refl =>
    obtain ⟨c, htc, -⟩ := Relation.TransGen.head'_iff.mp hcycle
    rw [Edge, ht] at htc
    cases htc
  | head hac _ ih =>
    obtain ⟨c, hgc, -⟩ := Relation.TransGen.head'_iff.mp hcycle
    have hsame := hsub _ _ hgc
    rw [Edge] at hac
    rw [hac] at hsame
    cases hsame
    exact ih (cycle_edge hcycle hgc)

theorem Acyclic.exists_rank {f : ι → Option ι} (h : Acyclic f) (S : Finset ι)
    (hS : ∀ a b, f a = some b → a ∈ S) :
    ∃ rank : ι → Nat, (∀ a b, f a = some b → rank b < rank a) ∧ ∀ a, rank a ≤ S.card := by
  classical
  -- The rank of a node is the number of sources it reaches.
  refine ⟨fun a => (S.filter fun x => Reaches f a x).card, ?_, fun a => Finset.card_filter_le _ _⟩
  intro a b hab
  apply Finset.card_lt_card
  rw [Finset.ssubset_iff_of_subset]
  · refine ⟨a, ?_, ?_⟩
    · exact Finset.mem_filter.mpr ⟨hS a b hab, Relation.ReflTransGen.refl⟩
    · intro hmem
      exact h a (Relation.TransGen.head' hab (Finset.mem_filter.mp hmem).2)
  · intro x hx
    obtain ⟨hxS, hbx⟩ := Finset.mem_filter.mp hx
    exact Finset.mem_filter.mpr ⟨hxS, Relation.ReflTransGen.head hab hbx⟩

/-- What reaches `t` reaches it within the number of sources, whatever cycles there are: each
step towards `t` descends. -/
theorem exists_distance (f : ι → Option ι) (t : ι) (S : Finset ι)
    (hS : ∀ a b, f a = some b → a ∈ S) :
    ∃ dist : ι → Nat, (∀ a b, a ≠ t → f a = some b → Reaches f b t → dist b < dist a) ∧
      ∀ a, dist a ≤ S.card := by
  classical
  -- The edges on the way to `t`; they are left out behind it.
  let g : ι → Option ι := fun a => if a ≠ t ∧ Reaches f a t then f a else none
  have hsub : ∀ a b, g a = some b → f a = some b := by
    intro a b hab
    by_cases ha : a ≠ t ∧ Reaches f a t
    · rwa [show g a = f a from if_pos ha] at hab
    · rw [show g a = none from if_neg ha] at hab
      cases hab
  have hg : Acyclic g := by
    intro a hcycle
    obtain ⟨c, hac, -⟩ := Relation.TransGen.head'_iff.mp hcycle
    have ha : Reaches f a t := by
      by_contra hno
      rw [Edge, show g a = none from if_neg fun h => hno h.2] at hac
      cases hac
    exact not_reaches_of_cycle hsub (if_neg fun h => h.1 rfl) hcycle ha
  obtain ⟨rank, hrank, hle⟩ := hg.exists_rank S fun a b hab => hS a b (hsub a b hab)
  refine ⟨rank, fun a b hne hab hreach => hrank a b ?_, hle⟩
  rw [show g a = f a from if_pos ⟨hne, Relation.ReflTransGen.head hab hreach⟩, hab]

theorem path_cases {f : ι → Option ι} {g h a c : ι}
    (hpath : Relation.TransGen (fun x y => Edge f x y ∨ x = g ∧ y = h) a c) :
    Relation.TransGen (Edge f) a c ∨ Reaches f a g ∧ Reaches f h c := by
  induction hpath with
  | single hab =>
    rcases hab with hab | ⟨rfl, rfl⟩
    · exact .inl (.single hab)
    · exact .inr ⟨.refl, .refl⟩
  | tail _ hbc ih =>
    rcases hbc with hbc | ⟨rfl, rfl⟩
    · rcases ih with hab | ⟨hag, hhb⟩
      · exact .inl (hab.tail hbc)
      · exact .inr ⟨hag, hhb.tail hbc⟩
    · rcases ih with hab | ⟨hag, -⟩
      · exact .inr ⟨hab.to_reflTransGen, .refl⟩
      · exact .inr ⟨hag, .refl⟩

theorem Acyclic.closesCycle_iff {f : ι → Option ι} (hf : Acyclic f) {g h : ι} :
    ClosesCycle f g h ↔ Reaches f h g := by
  constructor
  · rintro ⟨a, ha⟩
    rcases path_cases ha with hold | ⟨hag, hha⟩
    · exact absurd hold (hf a)
    · exact hha.trans hag
  · intro hreach
    refine ⟨g, Relation.TransGen.head' (.inr ⟨rfl, rfl⟩) ?_⟩
    exact Relation.ReflTransGen.mono (fun _ _ hxy => Or.inl hxy) _ _ hreach

theorem Acyclic.add {f f' : ι → Option ι} (hf : Acyclic f) {g h : ι}
    (hsub : ∀ a b, f' a = some b → f a = some b ∨ a = g ∧ b = h) (hno : ¬ Reaches f h g) :
    Acyclic f' := by
  intro a ha
  exact hno (hf.closesCycle_iff.mp ⟨a, Relation.TransGen.mono hsub _ _ ha⟩)

end FunctionalGraph
