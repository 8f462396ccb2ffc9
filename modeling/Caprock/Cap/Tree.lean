import Caprock.Lib.Run
import Caprock.Cap.Links

/-! # The derivation tree as an invariant

`Inv` states what holds in every reachable space: the links describe a forest, each
child names the object of its parent, and the reference count of a used object is the
number of used slots that name it.  Each operation is reduced to one of the pointer
updates of the forest library together with its effect on slots and objects.
-/

namespace Caprock.Cap

open Mem LinkedList

namespace CapSpace

instance (s : CapSpace) (i : Nat) : Decidable (s.Used i) :=
  inferInstanceAs (Decidable ((s.slots.cell i).used = true))

def namen (s : CapSpace) (o : Nat) : Finset Nat :=
  (Finset.range s.slots.len).filter fun i => s.Used i ∧ (s.daten i).object = o

structure Inv (s : CapSpace) (kids : Nat → List Nat) : Prop where
  forest : Forest s.Used s.links kids
  bound : ∀ i, s.Used i → i < s.slots.len
  size : s.slots.len < 2 ^ 32
  object : ∀ i, s.Used i → (s.objects.cell (s.daten i).object).used = true
  same_object : ∀ p c, Child s.Used s.links p c → (s.daten c).object = (s.daten p).object
  refcount : ∀ o, (s.objects.cell o).used = true →
    o < s.objects.len ∧ (s.objects.cell o).refcount = (s.namen o).card ∧ (s.namen o).Nonempty
  overruns : s.cdtWalkOverruns = 0

section

variable {s s' : CapSpace} {kids : Nat → List Nat}

theorem mem_namen {o i : Nat} :
    i ∈ s.namen o ↔ i < s.slots.len ∧ s.Used i ∧ (s.daten i).object = o := by
  simp [namen]

theorem namen_insert {c : Nat} (hlt : c < s.slots.len) (hlen : s'.slots.len = s.slots.len)
    (hdaten : ∀ x, x ≠ c → s'.daten x = s.daten x) (hc : s'.Used c) (hfree : ¬ s.Used c) (o : Nat) :
    s'.namen o = if o = (s'.daten c).object then insert c (s.namen o) else s.namen o := by
  ext x
  by_cases hxc : x = c
  · subst hxc
    by_cases ho : o = (s'.daten x).object
    · simp [mem_namen, hlen, hlt, hc, ho]
    · simp [mem_namen, hfree, ho, Ne.symm ho]
  · have hused : s'.Used x ↔ s.Used x := by
      rw [used_iff_daten, hdaten x hxc, used_iff_daten]
    by_cases ho : o = (s'.daten c).object
    · rw [if_pos ho, Finset.mem_insert]
      simp [mem_namen, hlen, hused, hdaten x hxc, hxc]
    · rw [if_neg ho]
      simp [mem_namen, hlen, hused, hdaten x hxc]

theorem not_mem_namen_of_free {c o : Nat} (hfree : ¬ s.Used c) : c ∉ s.namen o :=
  fun hin => hfree (mem_namen.mp hin).2.1

namespace Inv

theorem namen_eq_empty (h : Inv s kids) {o : Nat} (ho : ¬ (s.objects.cell o).used = true) :
    s.namen o = ∅ := by
  rw [Finset.eq_empty_iff_forall_notMem]
  intro i hi
  obtain ⟨-, hused, rfl⟩ := mem_namen.mp hi
  exact ho (h.object i hused)

theorem namen_card_le (s : CapSpace) (o : Nat) : (s.namen o).card ≤ s.slots.len := by
  calc (s.namen o).card ≤ (Finset.range s.slots.len).card := Finset.card_filter_le _ _
    _ = s.slots.len := Finset.card_range _

theorem mdb_free (h : Inv s kids) {c : Nat} (hc : ¬ s.Used c) : (s.slots.cell c).mdb = Mdb.empty := by
  obtain ⟨hpar, hfirst, hnext, hprev⟩ := h.forest.free c hc
  have hmdb : (s.slots.cell c).mdb =
      ⟨s.parent c, s.firstChild c, s.nextSibling c, s.prevSibling c⟩ := rfl
  have hpar' : s.parent c = none := hpar
  have hfirst' : s.firstChild c = none := hfirst
  have hnext' : s.nextSibling c = none := hnext
  have hprev' : s.prevSibling c = none := hprev
  rw [hmdb, hpar', hfirst', hnext', hprev']
  rfl

/-- Only counters and objects outside the tree change. -/
theorem congr (h : Inv s kids) (hslots : s'.slots = s.slots)
    (hobj : ∀ o, s'.objects.cell o = s.objects.cell o ∨
      ¬ (s.objects.cell o).used = true ∧ ¬ (s'.objects.cell o).used = true)
    (hlen : s'.objects.len = s.objects.len) (hover : s'.cdtWalkOverruns = s.cdtWalkOverruns) :
    Inv s' kids := by
  have hlinks : s'.links = s.links := links_congr fun x => by rw [hslots]
  have hdaten : s'.daten = s.daten := by
    funext x
    simp only [daten, hslots]
  have hused : s'.Used = s.Used := by
    funext x
    simp only [Used, hslots]
  have hnamen : ∀ o, s'.namen o = s.namen o := by
    intro o
    ext x
    simp only [mem_namen, hused, hdaten, hslots]
  refine ⟨?_, ?_, ?_, ?_, ?_, ?_, ?_⟩
  · rw [hused, hlinks]
    exact h.forest
  · rw [hused, hslots]
    exact h.bound
  · rw [hslots]
    exact h.size
  · intro i hi
    rw [hused] at hi
    rw [hdaten]
    have hold := h.object i hi
    rcases hobj (s.daten i).object with heq | ⟨hnot, -⟩
    · rw [heq, hold]
    · exact absurd hold hnot
  · rw [hused, hlinks, hdaten]
    exact h.same_object
  · intro o ho
    rw [hnamen, hlen]
    rcases hobj o with heq | ⟨-, hnot⟩
    · rw [heq] at ho ⊢
      exact h.refcount o ho
    · exact absurd ho hnot
  · rw [hover]
    exact h.overruns

/-- A new root capability on a new object. -/
theorem add_root (h : Inv s kids) {c : Nat} (hc : ¬ s.Used c) (hlt : c < s.slots.len)
    (hlinks : s'.links = s.links) (hdaten : ∀ x, x ≠ c → s'.daten x = s.daten x)
    (hc' : s'.Used c) (hslen : s'.slots.len = s.slots.len)
    (holen : s'.objects.len = s.objects.len)
    (hobj : ∀ o, o ≠ (s'.daten c).object → s'.objects.cell o = s.objects.cell o)
    (hnew : ¬ (s.objects.cell (s'.daten c).object).used = true)
    (hnewlt : (s'.daten c).object < s.objects.len)
    (hnew' : (s'.objects.cell (s'.daten c).object).used = true ∧
      (s'.objects.cell (s'.daten c).object).refcount = 1)
    (hover : s'.cdtWalkOverruns = s.cdtWalkOverruns) :
    Inv s' (Function.update kids c []) := by
  have hused : ∀ x, s'.Used x ↔ s.Used x ∨ x = c := by
    intro x
    by_cases hxc : x = c
    · simp [hxc, hc']
    · rw [used_iff_daten, hdaten x hxc, used_iff_daten]
      simp [hxc]
  have hold : ∀ x, s.Used x → x ≠ c := by
    rintro x hx rfl
    exact hc hx
  have hnamen := namen_insert hlt hslen hdaten hc' hc
  have hobj_old : ∀ x, s.Used x → (s.daten x).object ≠ (s'.daten c).object := by
    intro x hx heq
    exact hnew (heq ▸ h.object x hx)
  refine ⟨?_, ?_, ?_, ?_, ?_, ?_, ?_⟩
  · rw [hlinks]
    exact h.forest.add_root hc hused
  · intro x hx
    rw [hslen]
    rcases (hused x).mp hx with hx | rfl
    · exact h.bound x hx
    · exact hlt
  · rw [hslen]
    exact h.size
  · intro x hx
    rcases (hused x).mp hx with hx | rfl
    · rw [hdaten x (hold x hx), hobj _ (hobj_old x hx)]
      exact h.object x hx
    · exact hnew'.1
  · intro p x hx
    rw [hlinks] at hx
    have hpar : s.links.parent c = none := (h.forest.free c hc).1
    rcases (hused x).mp hx.1 with hxu | rfl
    · have hp := h.forest.parent_used x p ⟨hxu, hx.2⟩
      rw [hdaten x (hold x hxu), hdaten p (hold p hp)]
      exact h.same_object p x ⟨hxu, hx.2⟩
    · cases hpar.symm.trans hx.2
  · intro o ho
    rw [hnamen o, holen]
    by_cases hoc : o = (s'.daten c).object
    · rw [if_pos hoc, hoc, hnew'.2, h.namen_eq_empty hnew]
      exact ⟨hnewlt, rfl, by simp⟩
    · rw [if_neg hoc, hobj o hoc]
      rw [hobj o hoc] at ho
      exact h.refcount o ho
  · rw [hover]
    exact h.overruns

/-- A new first child of `p`, on the same object. -/
theorem add_child (h : Inv s kids) {p c : Nat} (hp : s.Used p) (hc : ¬ s.Used c)
    (hlt : c < s.slots.len) (hdaten : ∀ x, x ≠ c → s'.daten x = s.daten x) (hc' : s'.Used c)
    (hobjc : (s'.daten c).object = (s.daten p).object)
    (hforest : Forest s'.Used s'.links (Function.update (Function.update kids c []) p (c :: kids p)))
    (hparent : ∀ x, s'.parent x = if x = c then some p else s.parent x)
    (hslen : s'.slots.len = s.slots.len) (holen : s'.objects.len = s.objects.len)
    (hobj : ∀ o, s'.objects.cell o = if o = (s.daten p).object then
      { s.objects.cell o with refcount := ((s.objects.cell o).refcount + 1) % 2 ^ 32 }
      else s.objects.cell o)
    (hover : s'.cdtWalkOverruns = s.cdtWalkOverruns) :
    Inv s' (Function.update (Function.update kids c []) p (c :: kids p)) := by
  have hused : ∀ x, s'.Used x ↔ s.Used x ∨ x = c := by
    intro x
    by_cases hxc : x = c
    · simp [hxc, hc']
    · rw [used_iff_daten, hdaten x hxc, used_iff_daten]
      simp [hxc]
  have hold : ∀ x, s.Used x → x ≠ c := by
    rintro x hx rfl
    exact hc hx
  have hnamen := namen_insert hlt hslen hdaten hc' hc
  have hobjused : ∀ o, (s'.objects.cell o).used = (s.objects.cell o).used := by
    intro o
    rw [hobj o]
    split <;> rfl
  refine ⟨hforest, ?_, ?_, ?_, ?_, ?_, ?_⟩
  · intro x hx
    rw [hslen]
    rcases (hused x).mp hx with hx | rfl
    · exact h.bound x hx
    · exact hlt
  · rw [hslen]
    exact h.size
  · intro x hx
    rw [hobjused]
    rcases (hused x).mp hx with hx | rfl
    · rw [hdaten x (hold x hx)]
      exact h.object x hx
    · rw [hobjc]
      exact h.object p hp
  · rintro q x ⟨hx, hpar⟩
    have hpar' : (if x = c then some p else s.parent x) = some q := (hparent x).symm.trans hpar
    rcases (hused x).mp hx with hxu | rfl
    · rw [if_neg (hold x hxu)] at hpar'
      have hq := h.forest.parent_used x q ⟨hxu, hpar'⟩
      rw [hdaten x (hold x hxu), hdaten q (hold q hq)]
      exact h.same_object q x ⟨hxu, hpar'⟩
    · rw [if_pos rfl] at hpar'
      cases hpar'
      rw [hdaten p (hold p hp)]
      exact hobjc
  · intro o ho
    rw [hobjused] at ho
    obtain ⟨hlto, hcount, hne⟩ := h.refcount o ho
    rw [hnamen o, holen, hobj o, hobjc]
    by_cases hoc : o = (s.daten p).object
    · rw [if_pos hoc, if_pos hoc, Finset.card_insert_of_notMem (not_mem_namen_of_free hc)]
      refine ⟨hlto, ?_, Finset.insert_nonempty _ _⟩
      -- The new count is bounded by the table, hence below the range of the counter.
      have hle : (s'.namen o).card ≤ s'.slots.len := namen_card_le s' o
      rw [hnamen o, hobjc, if_pos hoc, hslen,
        Finset.card_insert_of_notMem (not_mem_namen_of_free hc)] at hle
      have hsize := h.size
      rw [hcount, Nat.mod_eq_of_lt (by omega)]
    · rw [if_neg hoc, if_neg hoc]
      exact ⟨hlto, hcount, hne⟩
  · rw [hover]
    exact h.overruns

end Inv

end

end CapSpace

namespace Abbau

open CapSpace

/-- What a deletion does to the object: one reference less, and the entry is cleared
with the last one. -/
def abgeben (o : Object) : Object :=
  if (o.refcount + (2 ^ 32 - 1)) % 2 ^ 32 = 0 then { Object.empty with gen := (o.gen + 1) % 2 ^ 32 }
  else { o with refcount := (o.refcount + (2 ^ 32 - 1)) % 2 ^ 32 }

theorem caps_debugMelden (a : Abbau) (c : Nat) : (a.debugMelden c).caps = a.caps := by
  unfold debugMelden
  dsimp only
  split
  · split <;> rfl
  · rfl

theorem caps_finalisieren (a : Abbau) (o : Nat) :
    (a.finalisieren o).caps =
      a.caps.modifyObject o fun ob => { Object.empty with gen := (ob.gen + 1) % 2 ^ 32 } := by
  unfold finalisieren
  split <;> rfl

theorem modifyObject_modifyObject (s : CapSpace) (o : Nat) (f g : Object → Object) :
    (s.modifyObject o f).modifyObject o g = s.modifyObject o fun ob => g (f ob) := by
  simp [modifyObject, Slab.modify, Slab.set]

theorem modifyObject_congr {s : CapSpace} {o : Nat} {f g : Object → Object}
    (h : f (s.objects.cell o) = g (s.objects.cell o)) :
    s.modifyObject o f = s.modifyObject o g := by
  simp [modifyObject, Slab.modify, h]

theorem caps_deleteLeaf (a : Abbau) (c : Nat) :
    (a.deleteLeaf c).caps =
      ((a.caps.unlink c).releaseSlot c).modifyObject (a.caps.daten c).object abgeben := by
  unfold deleteLeaf
  dsimp only
  rw [caps_debugMelden]
  have hobj : (a.caps.slots.cell c).object = (a.caps.daten c).object := rfl
  rw [hobj]
  set s := (a.caps.unlink c).releaseSlot c
  set o := (a.caps.daten c).object
  have hcell : ((s.modifyObject o fun o =>
      { o with refcount := (o.refcount + (2 ^ 32 - 1)) % 2 ^ 32 }).objects.cell o).refcount =
      ((s.objects.cell o).refcount + (2 ^ 32 - 1)) % 2 ^ 32 := by
    simp [modifyObject]
  rw [hcell]
  split
  · next hzero =>
    rw [caps_finalisieren]
    rw [modifyObject_modifyObject]
    apply modifyObject_congr
    rw [abgeben, if_pos hzero]
  · next hpos =>
    apply modifyObject_congr
    rw [abgeben, if_neg hpos]

theorem links_deleteLeaf (a : Abbau) (c : Nat) :
    (a.deleteLeaf c).caps.links = (a.caps.unlink c).links := by
  rw [caps_deleteLeaf]
  have hmdb : ((a.caps.unlink c).slots.cell c).mdb = Mdb.empty := by
    unfold unlink setMdb modifyMdb
    rw [cell_modifySlot, if_pos rfl]
  exact links_releaseSlot hmdb

theorem daten_deleteLeaf (a : Abbau) (c x : Nat) :
    (a.deleteLeaf c).caps.daten x =
      if x = c then { CapSlot.empty with gen := ((a.caps.daten c).gen + 1) % 2 ^ 32 }
      else a.caps.daten x := by
  rw [caps_deleteLeaf]
  have hread := daten_releaseSlot (a.caps.unlink c) c x
  rw [daten_unlink, daten_unlink] at hread
  exact hread

theorem objects_deleteLeaf (a : Abbau) (c o : Nat) :
    (a.deleteLeaf c).caps.objects.cell o =
      if o = (a.caps.daten c).object then abgeben (a.caps.objects.cell o)
      else a.caps.objects.cell o := by
  have hsame : ((a.caps.unlink c).releaseSlot c).objects = a.caps.objects :=
    ((a.caps.sameTables_unlink c).trans (sameTables_releaseSlot _ c)).objects
  rw [caps_deleteLeaf, modifyObject]
  rw [Slab.modify_cell, hsame]
  split
  · next heq => rw [heq]
  · rfl

theorem deleteLeaf_tables (a : Abbau) (c : Nat) :
    (a.deleteLeaf c).caps.slots.len = a.caps.slots.len ∧
      (a.deleteLeaf c).caps.objects.len = a.caps.objects.len ∧
      (a.deleteLeaf c).caps.cdtWalkOverruns = a.caps.cdtWalkOverruns := by
  have hsame := (a.caps.sameTables_unlink c).trans (sameTables_releaseSlot _ c)
  have holen : ((a.caps.unlink c).releaseSlot c).objects.len = a.caps.objects.len := by
    rw [hsame.objects]
  rw [caps_deleteLeaf]
  exact ⟨hsame.len, holen, hsame.overruns⟩

theorem used_deleteLeaf (a : Abbau) (c x : Nat) :
    (a.deleteLeaf c).caps.Used x ↔ a.caps.Used x ∧ x ≠ c := by
  rw [used_iff_daten, daten_deleteLeaf, used_iff_daten]
  by_cases hxc : x = c
  · simp [hxc, CapSlot.empty]
  · simp [hxc]

theorem forest_deleteLeaf {a : Abbau} {kids : Nat → List Nat}
    (h : Forest a.caps.Used a.caps.links kids) {c : Nat} (hc : a.caps.Used c)
    (hleaf : kids c = []) :
    Forest (a.deleteLeaf c).caps.Used (a.deleteLeaf c).caps.links fun p => (kids p).erase c := by
  rw [links_deleteLeaf]
  exact h.remove_leaf hc hleaf (a.used_deleteLeaf c) (a.caps.parent_unlink c)
    (a.caps.firstChild_unlink c) (a.caps.nextSibling_unlink c) (a.caps.prevSibling_unlink c)

theorem parent_deleteLeaf (a : Abbau) (c x : Nat) :
    (a.deleteLeaf c).caps.parent x = if x = c then none else a.caps.parent x := by
  rw [← parent_unlink]
  exact congrFun (congrArg Links.parent (links_deleteLeaf a c)) x

theorem deleteLeaf_inv {a : Abbau} {kids : Nat → List Nat} (h : a.caps.Inv kids) {c : Nat}
    (hc : a.caps.Used c) (hleaf : kids c = []) :
    (a.deleteLeaf c).caps.Inv fun p => (kids p).erase c := by
  obtain ⟨hslen, holen, hover⟩ := a.deleteLeaf_tables c
  have hused := a.used_deleteLeaf c
  have hdaten : ∀ x, x ≠ c → (a.deleteLeaf c).caps.daten x = a.caps.daten x := by
    intro x hx
    rw [daten_deleteLeaf, if_neg hx]
  have hfree : ¬ (a.deleteLeaf c).caps.Used c := fun hu => ((hused c).mp hu).2 rfl
  have hnamen := namen_insert (hslen ▸ h.bound c hc) hslen.symm
    (fun x hx => (hdaten x hx).symm) hc hfree
  -- Slots other than `c` on the same object keep it alive.
  have hcount : ∀ o, (a.caps.objects.cell o).used = true → o = (a.caps.daten c).object →
      (a.caps.objects.cell o).refcount = ((a.deleteLeaf c).caps.namen o).card + 1 ∧
        ((a.caps.objects.cell o).refcount + (2 ^ 32 - 1)) % 2 ^ 32 =
          ((a.deleteLeaf c).caps.namen o).card := by
    intro o ho hoc
    obtain ⟨-, href, -⟩ := h.refcount o ho
    have hle := Inv.namen_card_le a.caps o
    have hsize := h.size
    rw [hnamen o, if_pos hoc, Finset.card_insert_of_notMem (not_mem_namen_of_free hfree)] at href hle
    refine ⟨href, ?_⟩
    rw [href]
    have hshift : ((a.deleteLeaf c).caps.namen o).card + 1 + (2 ^ 32 - 1) =
        ((a.deleteLeaf c).caps.namen o).card + 2 ^ 32 := by omega
    rw [hshift, Nat.add_mod_right, Nat.mod_eq_of_lt (by omega)]
  refine ⟨forest_deleteLeaf h.forest hc hleaf, ?_, ?_, ?_, ?_, ?_, ?_⟩
  · intro x hx
    rw [hslen]
    exact h.bound x ((hused x).mp hx).1
  · rw [hslen]
    exact h.size
  · intro x hx
    obtain ⟨hxu, hxc⟩ := (hused x).mp hx
    rw [hdaten x hxc, objects_deleteLeaf]
    split
    · next heq =>
      have hobj := h.object x hxu
      have hin : x ∈ (a.deleteLeaf c).caps.namen (a.caps.daten x).object :=
        mem_namen.mpr ⟨hslen ▸ h.bound x hxu, hx, by rw [hdaten x hxc]⟩
      have hpos : 0 < ((a.deleteLeaf c).caps.namen (a.caps.daten x).object).card :=
        Finset.card_pos.mpr ⟨x, hin⟩
      rw [abgeben, (hcount _ hobj heq).2, if_neg (by omega)]
      exact hobj
    · exact h.object x hxu
  · rintro p x ⟨hx, hpar⟩
    obtain ⟨hxu, hxc⟩ := (hused x).mp hx
    have hpar' : (if x = c then none else a.caps.parent x) = some p :=
      (parent_deleteLeaf a c x).symm.trans hpar
    rw [if_neg hxc] at hpar'
    have hpc : p ≠ c := by
      rintro rfl
      have hin := (h.forest.mem_kids p hc x).mpr ⟨hxu, hpar'⟩
      rw [hleaf] at hin
      exact absurd hin List.not_mem_nil
    rw [hdaten x hxc, hdaten p hpc]
    exact h.same_object p x ⟨hxu, hpar'⟩
  · intro o ho
    rw [objects_deleteLeaf] at ho ⊢
    rw [holen]
    by_cases hoc : o = (a.caps.daten c).object
    · rw [if_pos hoc] at ho ⊢
      have hobj : (a.caps.objects.cell o).used = true := hoc ▸ h.object c hc
      obtain ⟨hlto, -, -⟩ := h.refcount o hobj
      have hdec := (hcount o hobj hoc).2
      rw [abgeben, hdec] at ho ⊢
      split at ho
      · cases ho
      · next hne =>
        rw [if_neg hne]
        exact ⟨hlto, rfl, Finset.card_pos.mp (Nat.pos_of_ne_zero hne)⟩
    · rw [if_neg hoc] at ho ⊢
      have href := h.refcount o ho
      rw [hnamen o, if_neg hoc] at href
      exact href
  · rw [hover]
    exact h.overruns

end Abbau

end Caprock.Cap
