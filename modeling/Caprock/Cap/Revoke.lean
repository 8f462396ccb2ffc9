import Caprock.Cap.Operations
import Caprock.Cap.Effects

/-! # Revocation

`revoke` deletes leaves below a capability until it has no child left.  A loop rule
carries any property that single deletions preserve over the whole loop; it also shows
that no bound is reached and that the loop ends because nothing is left to delete.
`Gestutzt` compares a space with an earlier one of which only slots below a capability
are missing.
-/

namespace Caprock.Cap

open Mem LinkedList

namespace CapSpace

variable {s : CapSpace} {kids : Nat → List Nat}

theorem geschwister_eq {slots : Slab CapSlot} {prev : Nat → Option Nat} {p : Option Nat}
    {l : List Nat} {n : Nat} (hseg : Seg (fun i => (slots.cell i).mdb.nextSibling) prev p l none)
    (hn : l.length ≤ n) : geschwister slots n l.head? = l := by
  induction l generalizing n p with
  | nil => rw [List.head?_nil, geschwister]
  | cons c l ih =>
    obtain ⟨-, hnext, hl⟩ := hseg
    rw [List.length_cons] at hn
    obtain ⟨n, rfl⟩ : ∃ m, n = m + 1 := ⟨n - 1, by omega⟩
    have hnext' : (slots.cell c).mdb.nextSibling = l.head? := by simpa using hnext
    rw [List.head?_cons, geschwister, hnext', ih hl (by omega)]

theorem Inv.length_kids_le (h : Inv s kids) {p : Nat} (hp : s.Used p) :
    (kids p).length ≤ s.slots.len := by
  have hle := h.forest.length_kids_le (Finset.range s.slots.len)
    (fun x hx => Finset.mem_range.mpr (h.bound x hx)) hp
  rwa [Finset.card_range] at hle

theorem Inv.kinder_eq (h : Inv s kids) {p : Nat} (hp : s.Used p) : s.kinder p = kids p := by
  have hhead : s.firstChild p = (kids p).head? := h.forest.first p hp
  unfold kinder
  rw [hhead]
  exact geschwister_eq (h.forest.list p hp).seg (h.length_kids_le hp)

theorem descendToLeaf_spec (h : Inv s kids) {r : Nat → Nat}
    (hr : ∀ c, s.Used c → r c < s.slots.len)
    (hchild : ∀ p c, Child s.Used s.links p c → r p < r c) (n steps c : Nat) (hc : s.Used c)
    (hn : s.slots.len ≤ n + r c + 1) :
    ∃ leaf steps', descendToLeaf s.slots n steps c = some (leaf, steps') ∧ s.Used leaf ∧
      kids leaf = [] ∧ Relation.ReflTransGen (Child s.Used s.links) c leaf := by
  induction n generalizing steps c with
  | zero =>
    have hget : s.slots.get c = some (s.slots.cell c) := if_pos (h.bound c hc)
    have hfirst : (s.slots.cell c).mdb.firstChild = none := by
      cases hf : (s.slots.cell c).mdb.firstChild with
      | none => rfl
      | some k =>
        have hin : k ∈ kids c := List.mem_of_head? ((h.forest.first c hc).symm.trans hf)
        have hk := (h.forest.mem_kids c hc k).mp hin
        have hlt := hchild c k hk
        have hbound := hr k hk.1
        omega
    refine ⟨c, steps, ?_, hc, h.forest.kids_nil hc hfirst, .refl⟩
    rw [descendToLeaf, hget]
    simp [hfirst]
  | succ n ih =>
    have hget : s.slots.get c = some (s.slots.cell c) := if_pos (h.bound c hc)
    rw [descendToLeaf, hget]
    dsimp only
    cases hf : (s.slots.cell c).mdb.firstChild with
    | none => exact ⟨c, steps, rfl, hc, h.forest.kids_nil hc hf, .refl⟩
    | some k =>
      have hin : k ∈ kids c := List.mem_of_head? ((h.forest.first c hc).symm.trans hf)
      have hk := (h.forest.mem_kids c hc k).mp hin
      have hlt := hchild c k hk
      obtain ⟨leaf, steps', heq, hleaf, hnil, hpath⟩ := ih (steps + 1) k hk.1 (by omega)
      exact ⟨leaf, steps', heq, hleaf, hnil, .head hk hpath⟩

theorem Inv.exists_leaf (h : Inv s kids) {slot child : Nat} (hslot : s.Used slot)
    (hfirst : s.firstChild slot = some child) :
    ∃ leaf steps, descendToLeaf s.slots s.slots.len 0 child = some (leaf, steps) ∧ s.Used leaf ∧
      kids leaf = [] ∧ Below s.Used s.links slot leaf := by
  have hin : child ∈ kids slot := List.mem_of_head? ((h.forest.first slot hslot).symm.trans hfirst)
  have hc := (h.forest.mem_kids slot hslot child).mp hin
  obtain ⟨r, hr, hchild⟩ := h.forest.exists_rank (Finset.range s.slots.len)
    (fun x hx => Finset.mem_range.mpr (h.bound x hx))
  rw [Finset.card_range] at hr
  obtain ⟨leaf, steps, heq, hleaf, hnil, hpath⟩ :=
    descendToLeaf_spec h hr hchild s.slots.len 0 child hc.1 (by omega)
  exact ⟨leaf, steps, heq, hleaf, hnil, Relation.TransGen.head' hc hpath⟩

def belegt (s : CapSpace) : Finset Nat := (Finset.range s.slots.len).filter fun i => s.Used i

theorem Inv.mem_belegt (h : Inv s kids) {i : Nat} : i ∈ s.belegt ↔ s.Used i := by
  rw [belegt, Finset.mem_filter, Finset.mem_range]
  exact ⟨fun hi => hi.2, fun hi => ⟨h.bound i hi, hi⟩⟩

theorem Inv.nurZaehler {s' : CapSpace} (h : Inv s kids) (hz : NurZaehler s s') : Inv s' kids :=
  h.congr hz.slots (fun o => .inl (by rw [hz.objects])) (by rw [hz.objects]) hz.overruns

end CapSpace

namespace Abbau

open CapSpace

theorem card_belegt_deleteLeaf {a : Abbau} {kids : Nat → List Nat} (h : a.caps.Inv kids) {c : Nat}
    (hc : a.caps.Used c) (hleaf : kids c = []) :
    (a.deleteLeaf c).caps.belegt.card + 1 = a.caps.belegt.card := by
  have h' := deleteLeaf_inv h hc hleaf
  have heq : (a.deleteLeaf c).caps.belegt = a.caps.belegt.erase c := by
    ext x
    rw [h'.mem_belegt, Finset.mem_erase, h.mem_belegt, used_deleteLeaf]
    exact and_comm
  rw [heq]
  exact Finset.card_erase_add_one (h.mem_belegt.mpr hc)

/-- The loop rule: what a deletion of a leaf below `slot` preserves, the loop preserves,
and it ends with `slot` childless.  The property may speak of the effects so far. -/
theorem revokeLoop_rule {P : Abbau → (Nat → List Nat) → Protokoll → Prop} {slot : Nat}
    (hinv : ∀ a kids log, P a kids log → Inv a.caps kids ∧ a.caps.Used slot)
    (hnote : ∀ a s' kids log, NurZaehler a.caps s' → P a kids log →
      P { a with caps := s' } kids log)
    (hdel : ∀ a kids log c, P a kids log → a.caps.Used c → kids c = [] →
      Below a.caps.Used a.caps.links slot c →
      P (a.deleteLeaf c) (fun p => (kids p).erase c) (log ++ a.caps.blattWirkungen c))
    (n ops : Nat) (a : Abbau) (kids : Nat → List Nat) (log : Protokoll) (limit : Nat)
    (ha : P a kids log) (hlimit : limit = a.caps.slots.len) (hn : a.caps.belegt.card ≤ n) :
    ∃ kids', P (revokeLoop slot limit n ops a).2 kids' (log ++ schleifenWirkungen slot limit n a) ∧
      (revokeLoop slot limit n ops a).2.caps.firstChild slot = none := by
  induction n generalizing ops a kids log with
  | zero =>
    -- The slot itself is used, so the measure is positive.
    obtain ⟨h, hslot⟩ := hinv _ _ _ ha
    have hpos : 0 < a.caps.belegt.card := Finset.card_pos.mpr ⟨slot, h.mem_belegt.mpr hslot⟩
    omega
  | succ n ih =>
    obtain ⟨h, hslot⟩ := hinv _ _ _ ha
    cases hfirst : a.caps.firstChild slot with
    | none =>
      rw [revokeLoop, schleifenWirkungen, hfirst]
      rw [List.append_nil]
      exact ⟨kids, ha, hfirst⟩
    | some child =>
      obtain ⟨leaf, steps, heq, hleaf, hnil, hbelow⟩ := h.exists_leaf hslot hfirst
      set a₁ : Abbau := { a with caps := a.caps.noteWalk steps } with ha₁
      have hstep : revokeLoop slot limit (n + 1) ops a =
          revokeLoop slot limit n (ops + 1) (a₁.deleteLeaf leaf) := by
        rw [revokeLoop, hfirst]
        dsimp only
        rw [hlimit, heq]
      have hlog : schleifenWirkungen slot limit (n + 1) a = a₁.caps.blattWirkungen leaf ++
          schleifenWirkungen slot limit n (a₁.deleteLeaf leaf) := by
        rw [schleifenWirkungen, hfirst]
        dsimp only
        rw [hlimit, heq]
      have hz : NurZaehler a.caps a₁.caps := nurZaehler_noteWalk a.caps steps
      have hP₁ : P a₁ kids log := hnote a _ kids log hz ha
      have hleaf₁ : a₁.caps.Used leaf := hz.used.symm ▸ hleaf
      have hbelow₁ : Below a₁.caps.Used a₁.caps.links slot leaf := by
        rw [hz.used, hz.links]
        exact hbelow
      have hP₂ := hdel a₁ kids log leaf hP₁ hleaf₁ hnil hbelow₁
      have hbelegt : a₁.caps.belegt = a.caps.belegt := by
        ext x
        rw [(hinv _ _ _ hP₁).1.mem_belegt, h.mem_belegt, hz.used]
      have hcard := card_belegt_deleteLeaf (hinv _ _ _ hP₁).1 hleaf₁ hnil
      rw [hbelegt] at hcard
      rw [hstep, hlog, ← List.append_assoc]
      refine ih (ops + 1) (a₁.deleteLeaf leaf) _ _ hP₂ ?_ (by omega)
      rw [(deleteLeaf_tables a₁ leaf).1, hz.slots, hlimit]

end Abbau

/-- The used slots of `s'` are used slots of `s` with the same content, parent and kind
of object. -/
structure Erhalten (s s' : CapSpace) : Prop where
  used : ∀ x, s'.Used x → s.Used x
  daten : ∀ x, s'.Used x → s'.daten x = s.daten x
  parent : ∀ x, s'.Used x → s'.parent x = s.parent x
  kind : ∀ x, s'.Used x → (s'.objects.cell (s.daten x).object).kind =
    (s.objects.cell (s.daten x).object).kind

namespace Erhalten

open CapSpace

variable {s s' s'' : CapSpace}

theorem refl (s : CapSpace) : Erhalten s s :=
  ⟨fun _ hx => hx, fun _ _ => rfl, fun _ _ => rfl, fun _ _ => rfl⟩

theorem trans (h : Erhalten s s') (h' : Erhalten s' s'') : Erhalten s s'' where
  used := fun x hx => h.used x (h'.used x hx)
  daten := fun x hx => (h'.daten x hx).trans (h.daten x (h'.used x hx))
  parent := fun x hx => (h'.parent x hx).trans (h.parent x (h'.used x hx))
  kind := by
    intro x hx
    rw [← h.kind x (h'.used x hx), ← h.daten x (h'.used x hx)]
    exact h'.kind x hx

theorem of_nurZaehler (hz : NurZaehler s s') : Erhalten s s' where
  used := fun x hx => hz.used ▸ hx
  daten := fun x _ => congrFun hz.daten x
  parent := fun x _ => congrFun (congrArg Links.parent hz.links) x
  kind := fun x _ => by rw [hz.objects]

theorem child (h : Erhalten s s') {p x : Nat} (hx : Child s'.Used s'.links p x) :
    Child s.Used s.links p x :=
  ⟨h.used x hx.1, (h.parent x hx.1).symm.trans hx.2⟩

theorem below (h : Erhalten s s') {p x : Nat} (hx : Below s'.Used s'.links p x) :
    Below s.Used s.links p x :=
  Relation.TransGen.mono (fun _ _ hc => h.child hc) p x hx

/-- Deleting a leaf keeps the others: an object that is still named is not cleared. -/
theorem deleteLeaf {a : Abbau} {kids : Nat → List Nat} (hinv : a.caps.Inv kids) {c : Nat}
    (hc : a.caps.Used c) (hleaf : kids c = []) : Erhalten a.caps (a.deleteLeaf c).caps := by
  have hold : ∀ x, (a.deleteLeaf c).caps.Used x → a.caps.Used x ∧ x ≠ c :=
    fun x hx => (a.used_deleteLeaf c x).mp hx
  have hinv' := Abbau.deleteLeaf_inv hinv hc hleaf
  refine ⟨fun x hx => (hold x hx).1, ?_, ?_, ?_⟩
  · intro x hx
    rw [Abbau.daten_deleteLeaf, if_neg (hold x hx).2]
  · intro x hx
    rw [Abbau.parent_deleteLeaf, if_neg (hold x hx).2]
  · intro x hx
    have hlive := hinv'.object x hx
    rw [Abbau.daten_deleteLeaf, if_neg (hold x hx).2, Abbau.objects_deleteLeaf] at hlive
    rw [Abbau.objects_deleteLeaf]
    split at hlive
    · next heq =>
      rw [if_pos heq]
      unfold Abbau.abgeben at hlive ⊢
      split at hlive
      · cases hlive
      · next hne => rw [if_neg hne]
    · next hne => rw [if_neg hne]

end Erhalten

/-- Of `s` only slots below `h` are missing in `s'`, and siblings kept their order. -/
structure Gestutzt (h : Nat) (s : CapSpace) (kids : Nat → List Nat) (s' : CapSpace)
    (kids' : Nat → List Nat) : Prop where
  erhalten : Erhalten s s'
  kids : ∀ p, s'.Used p → kids' p = (kids p).filter fun x => s'.Used x
  removed : ∀ x, s.Used x → ¬ s'.Used x → Below s.Used s.links h x

namespace Gestutzt

open CapSpace

variable {h : Nat} {s s' : CapSpace} {kids kids' : Nat → List Nat}

theorem refl (hinv : s.Inv kids) : Gestutzt h s kids s kids where
  erhalten := Erhalten.refl s
  kids := by
    intro p hp
    refine (List.filter_eq_self.mpr fun x hx => ?_).symm
    exact decide_eq_true (hinv.forest.used_of_mem hp hx)
  removed := fun x hx hnot => absurd hx hnot

theorem nurZaehler {s'' : CapSpace} (hg : Gestutzt h s kids s' kids') (hz : NurZaehler s' s'') :
    Gestutzt h s kids s'' kids' where
  erhalten := hg.erhalten.trans (Erhalten.of_nurZaehler hz)
  kids := by
    intro p hp
    rw [hz.used] at hp
    rw [hg.kids p hp]
    apply List.filter_congr
    intro x _
    rw [decide_eq_decide, hz.used]
  removed := by
    rw [hz.used]
    exact hg.removed

/-- One more leaf below `h` is deleted. -/
theorem deleteLeaf {a : Abbau} (hg : Gestutzt h s kids a.caps kids') (hinv : a.caps.Inv kids')
    {c : Nat} (hc : a.caps.Used c) (hleaf : kids' c = [])
    (hbelow : Below a.caps.Used a.caps.links h c) :
    Gestutzt h s kids (a.deleteLeaf c).caps fun p => (kids' p).erase c := by
  have hused := a.used_deleteLeaf c
  refine ⟨hg.erhalten.trans (Erhalten.deleteLeaf hinv hc hleaf), ?_, ?_⟩
  · intro p hp
    obtain ⟨hpu, -⟩ := (hused p).mp hp
    rw [(hinv.forest.list p hpu).nodup.erase_eq_filter, hg.kids p hpu, List.filter_filter]
    apply List.filter_congr
    intro x _
    rw [Bool.eq_iff_iff]
    simp [hused, and_comm]
  · intro x hx hnot
    by_cases hxu : a.caps.Used x
    · have hxc : x = c := by
        by_contra hne
        exact hnot ((hused x).mpr ⟨hxu, hne⟩)
      exact hxc ▸ hg.erhalten.below hbelow
    · exact hg.removed x hx hxu

/-- If nothing is left below `h`, exactly the slots below it are gone. -/
theorem used_iff (hg : Gestutzt h s kids s' kids') (hinv' : s'.Inv kids')
    (hh : s'.Used h) (hchild : s'.firstChild h = none) (x : Nat) :
    s'.Used x ↔ s.Used x ∧ ¬ Below s.Used s.links h x := by
  have hnil : kids' h = [] := hinv'.forest.kids_nil hh hchild
  have hgone : ∀ y, Below s.Used s.links h y → ¬ s'.Used y := by
    intro y hy
    induction hy with
    | single hc =>
      intro hu
      have hpar := (hg.erhalten.parent _ hu).trans hc.2
      have hin := (hinv'.forest.mem_kids h hh _).mpr ⟨hu, hpar⟩
      rw [hnil] at hin
      exact List.not_mem_nil hin
    | tail _ hc ih =>
      -- A used slot has a used parent, but the parent is already gone.
      intro hu
      have hpar := (hg.erhalten.parent _ hu).trans hc.2
      exact ih (hinv'.forest.parent_used _ _ ⟨hu, hpar⟩)
  constructor
  · intro hx
    exact ⟨hg.erhalten.used x hx, fun hb => hgone x hb hx⟩
  · rintro ⟨hx, hnot⟩
    by_contra hu
    exact hnot (hg.removed x hx hu)

end Gestutzt

namespace Abbau

open CapSpace

/-- What deletions below a capability preserve, `revoke` preserves; it ends with the
capability childless. -/
theorem revoke_protokoll_rule {P : Abbau → (Nat → List Nat) → Protokoll → Prop} {a : Abbau}
    {kids : Nat → List Nat} {p : CapPtr} {i : Nat} (hres : a.caps.resolve p = .ok i)
    (hinv : ∀ b ks log, P b ks log → Inv b.caps ks ∧ b.caps.Used i)
    (hnote : ∀ b s' ks log, NurZaehler b.caps s' → P b ks log → P { b with caps := s' } ks log)
    (hdel : ∀ b ks log c, P b ks log → b.caps.Used c → ks c = [] →
      Below b.caps.Used b.caps.links i c →
      P (b.deleteLeaf c) (fun q => (ks q).erase c) (log ++ b.caps.blattWirkungen c))
    (ha : P a kids []) :
    ∃ kids', (a.revoke p).1 = .ok () ∧ P (a.revoke p).2 kids' (a.revokeWirkungen p) ∧
      (a.revoke p).2.caps.firstChild i = none := by
  have hcard : a.caps.belegt.card ≤ a.caps.slots.len := by
    calc a.caps.belegt.card ≤ (Finset.range a.caps.slots.len).card := Finset.card_filter_le _ _
      _ = a.caps.slots.len := Finset.card_range _
  obtain ⟨kids', hP, hfirst⟩ := revokeLoop_rule hinv hnote hdel a.caps.slots.len 0 a kids []
    a.caps.slots.len ha rfl hcard
  rw [List.nil_append] at hP
  set r := revokeLoop i a.caps.slots.len a.caps.slots.len 0 a
  have hz := nurZaehler_noteRevoke r.2.caps r.1
  have heq : a.revoke p = (.ok (), { r.2 with caps := r.2.caps.noteRevoke r.1 }) := by
    unfold revoke
    rw [hres]
    rfl
  have hlog : a.revokeWirkungen p = schleifenWirkungen i a.caps.slots.len a.caps.slots.len a := by
    unfold revokeWirkungen
    rw [hres]
    rfl
  rw [heq, hlog]
  refine ⟨kids', rfl, hnote _ _ _ _ hz hP, ?_⟩
  exact (congrFun (congrArg Links.firstChild hz.links) i).trans hfirst

theorem revoke_rule {P : CapSpace → (Nat → List Nat) → Prop} {a : Abbau} {kids : Nat → List Nat}
    {p : CapPtr} {i : Nat} (hres : a.caps.resolve p = .ok i)
    (hinv : ∀ s ks, P s ks → Inv s ks ∧ s.Used i)
    (hnote : ∀ s s' ks, NurZaehler s s' → P s ks → P s' ks)
    (hdel : ∀ (b : Abbau) ks c, P b.caps ks → b.caps.Used c → ks c = [] →
      Below b.caps.Used b.caps.links i c → P (b.deleteLeaf c).caps fun q => (ks q).erase c)
    (ha : P a.caps kids) :
    ∃ kids', (a.revoke p).1 = .ok () ∧ P (a.revoke p).2.caps kids' ∧
      (a.revoke p).2.caps.firstChild i = none :=
  revoke_protokoll_rule (P := fun b ks _ => P b.caps ks) hres (fun b ks _ hP => hinv b.caps ks hP)
    (fun b s' ks _ hz hP => hnote b.caps s' ks hz hP)
    (fun b ks _ c hP hc hnil hbelow => hdel b ks c hP hc hnil hbelow) ha

theorem used_of_resolve {s : CapSpace} {p : CapPtr} {i : Nat} (hres : s.resolve p = .ok i) :
    s.Used i := by
  rcases resolve_cases s p with ⟨j, hj, -, hu, -⟩ | hj
  · rw [hres] at hj
    obtain rfl := Except.ok.inj hj
    exact hu
  · rw [hres] at hj
    cases hj

theorem used_deleteLeaf_of_below {b : Abbau} {ks : Nat → List Nat} (h : b.caps.Inv ks) {i c : Nat}
    (hi : b.caps.Used i) (hbelow : Below b.caps.Used b.caps.links i c) :
    (b.deleteLeaf c).caps.Used i :=
  (used_deleteLeaf b c i).mpr ⟨hi, fun heq => h.forest.below_irrefl i (heq ▸ hbelow)⟩

theorem revoke_spec {a : Abbau} {kids : Nat → List Nat} (h : a.caps.Inv kids) {p : CapPtr} {i : Nat}
    (hres : a.caps.resolve p = .ok i) :
    ∃ kids', (a.revoke p).1 = .ok () ∧ (a.revoke p).2.caps.Inv kids' ∧
      Gestutzt i a.caps kids (a.revoke p).2.caps kids' ∧ (a.revoke p).2.caps.Used i ∧
      (a.revoke p).2.caps.firstChild i = none := by
  obtain ⟨kids', hok, ⟨hinv', hu, hg⟩, hfirst⟩ := revoke_rule
    (P := fun s ks => s.Inv ks ∧ s.Used i ∧ Gestutzt i a.caps kids s ks) hres
    (fun s ks hP => ⟨hP.1, hP.2.1⟩)
    (fun s s' ks hz hP => ⟨hP.1.nurZaehler hz, hz.used.symm ▸ hP.2.1, hP.2.2.nurZaehler hz⟩)
    (fun b ks c hP hc hnil hbelow => ⟨deleteLeaf_inv hP.1 hc hnil,
      used_deleteLeaf_of_below hP.1 hP.2.1 hbelow, hP.2.2.deleteLeaf hP.1 hc hnil hbelow⟩)
    ⟨h, used_of_resolve hres, Gestutzt.refl h⟩
  exact ⟨kids', hok, hinv', hg, hu, hfirst⟩

end Abbau

end Caprock.Cap
