import Caprock.Mem.FreeList
import Caprock.Region.Heap

/-! # What a heap and its blocks occupy

Live blocks and free slots occupy ranges no two of which share a byte, each in the cut part of
a bump region or at the front of a large one.  A block moves between the lists with its range;
a new range comes from behind the cut of a bump region or from a fresh region, and is apart from
the others for that reason.
-/

namespace Caprock.Region

open Mem Memory Word Function

/-- A block that was granted. -/
structure Block where
  addr : Nat
  len : Nat
  layout : Layout
  deriving DecidableEq

/-- What a granted block occupies: its slot, or the front of its region. -/
def Layout.kapazitaet (layout : Layout) : Nat :=
  if layout.size = 0 then 0
  else
    match classFor layout.effective with
    | some ci => classSize ci
    | none => layout.effective

def Block.umfang (b : Block) : PhysRegion := ⟨b.addr, b.layout.kapazitaet⟩

/-- The heap, the memory and the live blocks. -/
structure Lauf where
  heap : Heap
  mem : Mem
  lebt : List Block

def Block.bytes (b : Block) : Set Nat := PhysRegion.addrs ⟨b.addr, b.len⟩

def Heap.ImSlab (h : Heap) (size a : Nat) : Prop :=
  ∃ sl ∈ h.slabs.reduceOption, sl.region.base ≤ a ∧ a + size ≤ sl.region.base + sl.bump ∧ size ∣ a

def Heap.ImGrossen (h : Heap) (size a : Nat) : Prop :=
  ∃ r ∈ h.large.reduceOption, r.base = a ∧ size ≤ r.len

/-- Where a block lies, by its layout. -/
def Block.Liegt (h : Heap) (b : Block) : Prop :=
  b.layout.size ≠ 0 →
    match classFor b.layout.effective with
    | some ci => h.ImSlab (classSize ci) b.addr
    | none => h.ImGrossen b.layout.effective b.addr

def freieSlots (frei : Nat → List Nat) : List PhysRegion :=
  (List.range 8).flatMap fun ci => (frei ci).map fun a => ⟨a, classSize ci⟩

/-- The regions of a heap: all of them are out from the source, and no two share a byte. -/
structure Heap.Geordnet (h : Heap) : Prop where
  region_ok : ∀ r ∈ h.source.vergeben, RegionOk r
  vergeben : ∀ r ∈ h.regionen, r ∈ h.source.vergeben ∧ 0 < r.len
  getrennt : h.regionen.Pairwise Apart
  bump_le : ∀ sl ∈ h.slabs.reduceOption, sl.bump ≤ sl.region.len

variable {u r : PhysRegion} {s : Lauf}

theorem Heap.Geordnet.mitKopf {h : Heap} (hg : h.Geordnet) {ci a : Nat} :
    (h.mitKopf ci a).Geordnet :=
  ⟨hg.region_ok, hg.vergeben, hg.getrennt, hg.bump_le⟩

def Lauf.umfaenge (s : Lauf) (frei : Nat → List Nat) : List PhysRegion :=
  s.lebt.map Block.umfang ++ freieSlots frei

/-- What the heap and its blocks occupy: `frei` lists the free slots of each class. -/
structure Belegung (s : Lauf) (frei : Nat → List Nat) : Prop where
  geordnet : s.heap.Geordnet
  kette : ∀ ci, Chain s.mem (s.heap.freeHeads ci) (frei ci)
  getrennt : (s.umfaenge frei).Pairwise Apart
  slots : ∀ ci a, a ∈ frei ci → ci < 8 ∧ s.heap.ImSlab (classSize ci) a
  bloecke : ∀ b ∈ s.lebt, b.Liegt s.heap ∧ (b.layout.size ≠ 0 → b.addr ≠ 0) ∧
    b.len = if b.layout.size = 0 then 0 else b.layout.actual

def Lauf.Inv (s : Lauf) : Prop := ∃ frei, Belegung s frei

theorem Belegung.new (m : Mem) : Belegung ⟨Heap.new, m, []⟩ fun _ => [] where
  geordnet := by
    constructor
    · simp [Heap.new]
    · simp [Heap.new, Heap.regionen, maxSlabRegions, maxLarge]
    · simp [Heap.new, Heap.regionen, maxSlabRegions, maxLarge]
    · simp [Heap.new, maxSlabRegions]
  kette := fun _ => rfl
  getrennt := List.Pairwise.nil
  slots := by simp
  bloecke := by simp

theorem freieSlots_perm {frei frei' : Nat → List Nat} {ci a : Nat} (hci : ci < 8)
    (hcons : frei' ci = a :: frei ci) (hne : ∀ cj, cj ≠ ci → frei' cj = frei cj) :
    (freieSlots frei').Perm (⟨a, classSize ci⟩ :: freieSlots frei) := by
  have hperm : ∀ l : List Nat, l.Nodup → ci ∈ l →
      (l.flatMap fun cj => (frei' cj).map fun x => (⟨x, classSize cj⟩ : PhysRegion)).Perm
        (⟨a, classSize ci⟩ :: l.flatMap fun cj => (frei cj).map fun x => ⟨x, classSize cj⟩) := by
    intro l hnd hmem
    induction l with
    | nil => cases hmem
    | cons cj l ih =>
      obtain ⟨hnot, hnd⟩ := List.nodup_cons.mp hnd
      rw [List.flatMap_cons, List.flatMap_cons]
      by_cases heq : cj = ci
      · subst heq
        have hrest : (l.flatMap fun ck => (frei' ck).map fun x =>
            (⟨x, classSize ck⟩ : PhysRegion)) =
            l.flatMap fun ck => (frei ck).map fun x => ⟨x, classSize ck⟩ := by
          apply List.flatMap_congr
          intro ck hck
          rw [hne ck fun h => hnot (h ▸ hck)]
        rw [hcons, hrest, List.map_cons, List.cons_append]
      · rw [hne cj heq]
        have hin : ci ∈ l := (List.mem_cons.mp hmem).resolve_left fun h => heq h.symm
        exact ((ih hnd hin).append_left _).trans List.perm_middle
  exact hperm _ List.nodup_range (List.mem_range.mpr hci)

theorem mem_freieSlots {frei : Nat → List Nat} :
    u ∈ freieSlots frei ↔ ∃ ci < 8, ∃ a ∈ frei ci, u = ⟨a, classSize ci⟩ := by
  simp only [freieSlots, List.mem_flatMap, List.mem_range, List.mem_map, eq_comm]

theorem Block.umfang_of_class {b : Block} (hsize : b.layout.size ≠ 0) {ci : Nat}
    (hci : classFor b.layout.effective = some ci) : b.umfang = ⟨b.addr, classSize ci⟩ := by
  rw [Block.umfang, Layout.kapazitaet, if_neg hsize, hci]

theorem Block.umfang_of_large {b : Block} (hsize : b.layout.size ≠ 0)
    (hci : classFor b.layout.effective = none) : b.umfang = ⟨b.addr, b.layout.effective⟩ := by
  rw [Block.umfang, Layout.kapazitaet, if_neg hsize, hci]

theorem Block.umfang_of_zero {b : Block} (hsize : b.layout.size = 0) : b.umfang.len = 0 := by
  rw [Block.umfang, Layout.kapazitaet, if_pos hsize]

theorem Block.umfang_perm {lebt : List Block} {b : Block} (hb : b ∈ lebt) :
    (lebt.map Block.umfang).Perm (b.umfang :: (lebt.erase b).map Block.umfang) :=
  (List.perm_cons_erase hb).map Block.umfang

theorem Block.Liegt.mono {h h' : Heap} {b : Block} (hb : b.Liegt h)
    (hslab : ∀ size a, h.ImSlab size a → h'.ImSlab size a)
    (hgross : ∀ size a, h.ImGrossen size a → h'.ImGrossen size a) : b.Liegt h' := by
  intro hsize
  have hold := hb hsize
  cases hci : classFor b.layout.effective with
  | none =>
    rw [hci] at hold
    exact hgross _ _ hold
  | some ci =>
    rw [hci] at hold
    exact hslab _ _ hold

/-- An occupied range lies in the cut part of a bump region or in a large region. -/
def Heap.Ort (h : Heap) (u : PhysRegion) : Prop :=
  (∃ sl ∈ h.slabs.reduceOption, u.Inside ⟨sl.region.base, sl.bump⟩) ∨
    ∃ r ∈ h.large.reduceOption, r.base = u.base ∧ u.len ≤ r.len

theorem Heap.ImSlab.ort {h : Heap} {size a : Nat} (hs : h.ImSlab size a) : h.Ort ⟨a, size⟩ := by
  obtain ⟨sl, hsl, hlo, hhi, -⟩ := hs
  exact .inl ⟨sl, hsl, hlo, hhi⟩

theorem Belegung.ort {frei : Nat → List Nat} (h : Belegung s frei) (hu : u ∈ s.umfaenge frei) :
    u.len = 0 ∨ s.heap.Ort u := by
  obtain hu | hu := List.mem_append.mp hu
  · obtain ⟨b, hb, rfl⟩ := List.mem_map.mp hu
    by_cases hsize : b.layout.size = 0
    · exact .inl (Block.umfang_of_zero hsize)
    right
    have hliegt := (h.bloecke b hb).1 hsize
    cases hci : classFor b.layout.effective with
    | none =>
      rw [hci] at hliegt
      rw [Block.umfang_of_large hsize hci]
      obtain ⟨r, hr, hbase, hle⟩ := hliegt
      exact .inr ⟨r, hr, hbase, hle⟩
    | some ci =>
      rw [hci] at hliegt
      rw [Block.umfang_of_class hsize hci]
      exact hliegt.ort
  · obtain ⟨ci, -, a, ha, rfl⟩ := mem_freieSlots.mp hu
    exact .inr (h.slots ci a ha).2.ort

theorem Heap.Ort.inside {h : Heap} (hg : h.Geordnet) (hu : h.Ort u) :
    ∃ r ∈ h.regionen, u.Inside r := by
  obtain ⟨sl, hsl, hin⟩ | ⟨r, hr, hbase, hle⟩ := hu
  · have hbump := hg.bump_le sl hsl
    have hmem : sl.region ∈ h.regionen := List.mem_append_left _ (List.mem_map_of_mem hsl)
    refine ⟨sl.region, hmem, hin.1, ?_⟩
    have hend := hin.2
    dsimp only at hend
    omega
  · exact ⟨r, List.mem_append_right _ hr, hbase.le, by omega⟩

theorem Belegung.wechsel {frei : Nat → List Nat} (h : Belegung s frei) {heap : Heap}
    (hg : heap.Geordnet) (hheads : heap.freeHeads = s.heap.freeHeads)
    (hslab : ∀ size a, s.heap.ImSlab size a → heap.ImSlab size a)
    (hgross : ∀ size a, s.heap.ImGrossen size a → heap.ImGrossen size a) :
    Belegung { s with heap := heap } frei where
  geordnet := hg
  kette := by
    intro ci
    show Chain s.mem (heap.freeHeads ci) (frei ci)
    rw [hheads]
    exact h.kette ci
  getrennt := h.getrennt
  slots := fun ci a ha => ⟨(h.slots ci a ha).1, hslab _ _ (h.slots ci a ha).2⟩
  bloecke := fun b hb => ⟨(h.bloecke b hb).1.mono hslab hgross, (h.bloecke b hb).2⟩

theorem Belegung.aufnehmen {frei : Nat → List Nat} (h : Belegung s frei) {b : Block}
    (hapart : ∀ u ∈ s.umfaenge frei, Apart b.umfang u) (hliegt : b.Liegt s.heap)
    (hne : b.layout.size ≠ 0 → b.addr ≠ 0)
    (hlen : b.len = if b.layout.size = 0 then 0 else b.layout.actual) :
    Belegung { s with lebt := b :: s.lebt } frei where
  geordnet := h.geordnet
  kette := h.kette
  getrennt := List.pairwise_cons.mpr ⟨hapart, h.getrennt⟩
  slots := h.slots
  bloecke := by
    intro c hc
    obtain rfl | hc := List.mem_cons.mp hc
    · exact ⟨hliegt, hne, hlen⟩
    · exact h.bloecke c hc

theorem pairwise_of_perm {l l' : List PhysRegion} (hperm : l.Perm l') (h : l.Pairwise Apart) :
    l'.Pairwise Apart :=
  (hperm.pairwise_iff fun hrs => hrs.symm).mp h

/-- The first free slot of a class becomes a block. -/
theorem Belegung.entnehmen {frei : Nat → List Nat} (h : Belegung s frei) {ci : Nat}
    (hhead : s.heap.freeHeads ci ≠ 0) {layout : Layout} (hsize : layout.size ≠ 0)
    (hci : classFor layout.effective = some ci) :
    Lauf.Inv ⟨s.heap.mitKopf ci (word s.mem (s.heap.freeHeads ci)),
      s.mem, ⟨s.heap.freeHeads ci, layout.actual, layout⟩ :: s.lebt⟩ := by
  let head := s.heap.freeHeads ci
  let b : Block := ⟨head, layout.actual, layout⟩
  obtain ⟨rest, hcons, hrest⟩ := (h.kette ci).pop hhead
  obtain ⟨frei', hself, hother⟩ : ∃ f : Nat → List Nat, f ci = rest ∧ ∀ cj, cj ≠ ci → f cj = frei cj :=
    ⟨update frei ci rest, update_self .., fun _ hne => update_of_ne hne _ _⟩
  have hsub : ∀ cj a, a ∈ frei' cj → a ∈ frei cj := by
    intro cj a ha
    by_cases heq : cj = ci
    · subst heq
      rw [hself] at ha
      rw [hcons]
      exact List.mem_cons_of_mem _ ha
    · rwa [hother cj heq] at ha
  have hslot := h.slots ci head (by rw [hcons]; exact List.mem_cons_self)
  have hperm : (s.umfaenge frei).Perm
      (b.umfang :: (s.lebt.map Block.umfang ++ freieSlots frei')) := by
    have hfrei : (freieSlots frei).Perm (⟨head, classSize ci⟩ :: freieSlots frei') := by
      apply freieSlots_perm hslot.1
      · rw [hself]
        exact hcons
      · exact fun cj hne => (hother cj hne).symm
    rw [Block.umfang_of_class hsize hci]
    exact (hfrei.append_left _).trans List.perm_middle
  refine ⟨frei', h.geordnet.mitKopf, ?_, pairwise_of_perm hperm h.getrennt, ?_, ?_⟩
  · intro cj
    show Chain s.mem (update s.heap.freeHeads ci (word s.mem head) cj) (frei' cj)
    by_cases heq : cj = ci
    · subst heq
      rw [update_self, hself]
      exact hrest
    · rw [update_of_ne heq, hother cj heq]
      exact h.kette cj
  · exact fun cj a ha => h.slots cj a (hsub cj a ha)
  · intro c hc
    obtain rfl | hc := List.mem_cons.mp hc
    · refine ⟨fun _ => ?_, fun _ => hhead, (if_neg hsize).symm⟩
      show match classFor layout.effective with | some ci => _ | none => _
      rw [hci]
      exact hslot.2
    · exact h.bloecke c hc

theorem Heap.ImSlab.lt {h : Heap} (hg : h.Geordnet) {size a : Nat} (hs : h.ImSlab size a) :
    a + size ≤ 2 ^ 64 := by
  obtain ⟨sl, hsl, hlo, hhi, -⟩ := hs
  have hmem : sl.region ∈ h.regionen := List.mem_append_left _ (List.mem_map_of_mem hsl)
  have hfits := (hg.region_ok _ (hg.vergeben _ hmem).1).fits
  have hbump := hg.bump_le sl hsl
  omega

/-- A block given back becomes the first free slot of its class. -/
theorem Belegung.freigeben {frei : Nat → List Nat} (h : Belegung s frei) {b : Block}
    (hb : b ∈ s.lebt) (hsize : b.layout.size ≠ 0) {ci : Nat}
    (hci : classFor b.layout.effective = some ci) :
    Lauf.Inv ⟨s.heap.mitKopf ci b.addr,
      storeWord s.mem b.addr (s.heap.freeHeads ci), s.lebt.erase b⟩ := by
  obtain ⟨hci8, -, -⟩ := classFor_eq_some hci
  have hcs := classSize_le ci hci8
  have hslot : s.heap.ImSlab (classSize ci) b.addr := by
    have hliegt := (h.bloecke b hb).1 hsize
    rwa [hci] at hliegt
  obtain ⟨frei', hself, hother⟩ : ∃ f : Nat → List Nat,
      f ci = b.addr :: frei ci ∧ ∀ cj, cj ≠ ci → f cj = frei cj :=
    ⟨update frei ci _, update_self .., fun _ hne => update_of_ne hne _ _⟩
  have hlebt := Block.umfang_perm hb
  have hfrei : (freieSlots frei').Perm (⟨b.addr, classSize ci⟩ :: freieSlots frei) :=
    freieSlots_perm hci8 hself hother
  have hperm : (s.umfaenge frei).Perm ((s.lebt.erase b).map Block.umfang ++ freieSlots frei') := by
    rw [Block.umfang_of_class hsize hci] at hlebt
    exact (hlebt.append_right _).trans (List.perm_middle.symm.trans (hfrei.symm.append_left _))
  -- The other free slots lie beside the block.
  have hbeside : ∀ cj a, a ∈ frei cj → a + 8 ≤ b.addr ∨ b.addr + 8 ≤ a := by
    intro cj a ha
    have hcj := (h.slots cj a ha).1
    have hcs' := classSize_le cj hcj
    have hmem : (⟨a, classSize cj⟩ : PhysRegion) ∈ freieSlots frei :=
      mem_freieSlots.mpr ⟨cj, hcj, a, ha, rfl⟩
    have hapart := (List.pairwise_append.mp h.getrennt).2.2 b.umfang
      (List.mem_map_of_mem hb) _ hmem
    rw [Block.umfang_of_class hsize hci] at hapart
    unfold Apart at hapart
    dsimp only at hapart
    omega
  have hheadlt : s.heap.freeHeads ci < 2 ^ 64 := by
    obtain hzero | hmem := (h.kette ci).head_eq_zero_or_mem
    · rw [hzero]
      decide
    · have hlt := (h.slots ci _ hmem).2.lt h.geordnet
      omega
  refine ⟨frei', h.geordnet.mitKopf, ?_, pairwise_of_perm hperm h.getrennt, ?_, ?_⟩
  · intro cj
    show Chain _ (update s.heap.freeHeads ci b.addr cj) (frei' cj)
    by_cases heq : cj = ci
    · subst heq
      rw [update_self, hself]
      exact (h.kette cj).push ((h.bloecke b hb).2.1 hsize) hheadlt (hbeside cj)
    · rw [update_of_ne heq, hother cj heq]
      apply (h.kette cj).congr
      intro a ha x hlo hhi
      apply storeWord_of_outside
      have hsep := hbeside cj a ha
      omega
  · intro cj a ha
    by_cases heq : cj = ci
    · subst heq
      rw [hself] at ha
      obtain rfl | ha := List.mem_cons.mp ha
      · exact ⟨hci8, hslot⟩
      · exact h.slots cj a ha
    · rw [hother cj heq] at ha
      exact h.slots cj a ha
  · exact fun c hc => h.bloecke c (List.mem_of_mem_erase hc)

theorem Heap.regionen_large_perm (h : Heap) {l : List (Option PhysRegion)}
    (hl : l.reduceOption.Perm (r :: h.large.reduceOption)) :
    ({ h with large := l } : Heap).regionen.Perm (r :: h.regionen) :=
  (hl.append_left _).trans List.perm_middle

theorem Heap.Geordnet.request {h : Heap} (hg : h.Geordnet) {n : Nat} {antwort : Option PhysRegion}
    (hant : h.source.Liefert n antwort) :
    ({ h with source := h.source.request antwort } : Heap).Geordnet := by
  refine ⟨?_, ?_, hg.getrennt, hg.bump_le⟩
  · intro r hr
    obtain hr | hr := List.mem_append.mp hr
    · exact (hant r (Option.mem_toList.mp hr)).1
    · exact hg.region_ok r hr
  · intro r hr
    exact ⟨List.mem_append_right _ (hg.vergeben r hr).1, (hg.vergeben r hr).2⟩

theorem Heap.Geordnet.apart_granted {h : Heap} (hg : h.Geordnet) {n : Nat}
    (hant : h.source.Liefert n (some r)) : ∀ t ∈ h.regionen, Apart r t :=
  fun t ht => (hant r rfl).2.2 t (hg.vergeben t ht).1

theorem Heap.Geordnet.dazu {h g : Heap} (hg : h.Geordnet) {n : Nat} (hn : 0 < n)
    (hant : h.source.Liefert n (some r)) (hsource : g.source = h.source.request (some r))
    (hperm : g.regionen.Perm (r :: h.regionen))
    (hbump : ∀ sl ∈ g.slabs.reduceOption, sl.bump ≤ sl.region.len) : g.Geordnet := by
  have hreq := hg.request hant
  obtain ⟨-, hlen, -⟩ := hant r rfl
  refine ⟨?_, ?_, ?_, hbump⟩
  · rw [hsource]
    exact hreq.region_ok
  · intro t ht
    rw [hsource]
    obtain rfl | ht := List.mem_cons.mp (hperm.mem_iff.mp ht)
    · exact ⟨List.mem_cons_self, by omega⟩
    · exact hreq.vergeben t ht
  · apply pairwise_of_perm hperm.symm
    exact List.pairwise_cons.mpr ⟨hg.apart_granted hant, hg.getrennt⟩

theorem Belegung.apart_fresh {frei : Nat → List Nat} (h : Belegung s frei) {n : Nat}
    {v : PhysRegion} (hant : s.heap.source.Liefert n (some r)) (hv : v.Inside r) :
    ∀ u ∈ s.umfaenge frei, Apart v u := by
  intro u hu
  obtain hzero | hort := h.ort hu
  · exact .inr (.inl hzero)
  · obtain ⟨t, ht, hin⟩ := hort.inside h.geordnet
    exact (h.geordnet.apart_granted hant t ht).mono hv hin

/-- A place for a new block, beside all that is occupied. -/
structure Neu (s : Lauf) (frei : Nat → List Nat) (layout : Layout) (res : Option Nat × Heap) :
    Prop where
  belegung : Belegung { s with heap := res.2 } frei
  apart : ∀ a, res.1 = some a → ∀ u ∈ s.umfaenge frei, Apart ⟨a, layout.kapazitaet⟩ u
  liegt : ∀ a, res.1 = some a → (Block.mk a layout.actual layout).Liegt res.2

theorem Belegung.request {frei : Nat → List Nat} (h : Belegung s frei) {n : Nat}
    {antwort : Option PhysRegion} (hant : s.heap.source.Liefert n antwort) :
    Belegung { s with heap := { s.heap with source := s.heap.source.request antwort } } frei :=
  h.wechsel (h.geordnet.request hant) rfl (fun _ _ hs => hs) (fun _ _ hg => hg)

theorem Belegung.nichts {frei : Nat → List Nat} {layout : Layout} {heap : Heap}
    (h : Belegung { s with heap := heap } frei) : Neu s frei layout (none, heap) :=
  ⟨h, nofun, nofun⟩

theorem Belegung.largeAlloc {frei : Nat → List Nat} (h : Belegung s frei) {layout : Layout}
    (hsize : layout.size ≠ 0) (hci : classFor layout.effective = none)
    {antwort : Option PhysRegion} (hant : s.heap.source.Liefert layout.minLen antwort) :
    Neu s frei layout (s.heap.largeAlloc antwort) := by
  have hreq := h.request hant
  cases antwort with
  | none => exact hreq.nichts
  | some r =>
    rw [Heap.largeAlloc]
    cases hfree : s.heap.large.findIdx? Option.isNone with
    | none => exact hreq.nichts
    | some i =>
      have hfill := Slots.perm_fill (a := r) (Slots.free_of_findIdx? hfree)
      have hmin : layout.minLen = layout.effective := by
        rw [Layout.minLen, hci]
        rfl
      have hkap : layout.kapazitaet = layout.effective := by
        rw [Layout.kapazitaet, if_neg hsize, hci]
      have hbig := classFor_eq_none hci
      have hlen := (hant r rfl).2.1
      have hperm := s.heap.regionen_large_perm hfill
      have hg := h.geordnet.dazu (g :=
        { s.heap with
          source := s.heap.source.request (some r)
          large := s.heap.large.set i (some r) }) (by omega) hant rfl hperm h.geordnet.bump_le
      refine ⟨h.wechsel hg rfl (fun _ _ hs => hs) ?_, ?_, ?_⟩
      · rintro size a ⟨t, ht, hbase, hle⟩
        exact ⟨t, hfill.mem_iff.mpr (List.mem_cons_of_mem _ ht), hbase, hle⟩
      · rintro a ha u hu
        cases ha
        apply h.apart_fresh hant _ u hu
        rw [hkap]
        exact ⟨Nat.le_refl _, by dsimp only; omega⟩
      · rintro a ha -
        cases ha
        dsimp only
        rw [hci]
        exact ⟨r, hfill.mem_iff.mpr List.mem_cons_self, rfl, by omega⟩

theorem schneiden_spec {size k : Nat} (hsize : size = 2 ^ k) (hk : k ≤ 11)
    {slabs slabs' : List (Option SlabRegion)} {addr : Nat}
    (hok : ∀ sl ∈ slabs.reduceOption, RegionOk sl.region ∧ sl.bump ≤ sl.region.len)
    (h : Heap.schneiden size slabs = some (addr, slabs')) :
    ∃ sl off rest, slabs.reduceOption.Perm (sl :: rest) ∧
      slabs'.reduceOption.Perm (⟨sl.region, off + size⟩ :: rest) ∧
      addr = sl.region.base + off ∧ sl.bump ≤ off ∧ size ∣ off ∧ off + size ≤ sl.region.len := by
  induction slabs generalizing slabs' with
  | nil => cases h
  | cons x rest ih =>
    cases x with
    | none =>
      obtain ⟨⟨a, rest'⟩, hrest, heq⟩ := Option.map_eq_some_iff.mp h
      cases heq
      rw [List.reduceOption_cons_of_none] at hok
      rw [List.reduceOption_cons_of_none, List.reduceOption_cons_of_none]
      exact ih hok hrest
    | some slot =>
      rw [List.reduceOption_cons_of_some] at hok
      obtain ⟨hreg, hbump⟩ := hok slot List.mem_cons_self
      have hpow : 2 ^ k ≤ 2 ^ 11 := Nat.pow_le_pow_right (by decide) hk
      have hpos : 0 < 2 ^ k := Nat.two_pow_pos k
      have hlen := hreg.len_le
      have hfits := hreg.fits
      unfold page at hlen
      have hroom : slot.bump + (2 ^ k - 1) < 2 ^ 64 := by omega
      have hdvd := dvd_alignUp (by omega) hroom
      have hle := le_alignUp (by omega) hroom
      have hup : alignUp slot.bump (2 ^ k) ≤ slot.bump + (2 ^ k - 1) := by
        rw [alignUp_eq (by omega) hroom]
        exact Nat.div_mul_le_self _ _
      rw [← hsize] at hdvd hle hup
      have hadd : wadd (alignUp slot.bump size) size = alignUp slot.bump size + size :=
        wadd_eq (by omega)
      rw [Heap.schneiden, hadd] at h
      by_cases hfit : alignUp slot.bump size + size ≤ slot.region.len
      · rw [if_pos hfit, wadd_eq (by omega)] at h
        cases h
        rw [List.reduceOption_cons_of_some, List.reduceOption_cons_of_some]
        exact ⟨slot, alignUp slot.bump size, rest.reduceOption, .refl _, .refl _, rfl, hle, hdvd,
          hfit⟩
      · rw [if_neg hfit] at h
        obtain ⟨⟨a, rest'⟩, hrest, heq⟩ := Option.map_eq_some_iff.mp h
        cases heq
        obtain ⟨sl, off, others, hold, hnew, hspec⟩ :=
          ih (fun t ht => hok t (List.mem_cons_of_mem _ ht)) hrest
        rw [List.reduceOption_cons_of_some, List.reduceOption_cons_of_some]
        exact ⟨sl, off, slot :: others, (hold.cons slot).trans (List.Perm.swap ..),
          (hnew.cons slot).trans (List.Perm.swap ..), hspec⟩

theorem classSize_dvd_page {effective ci : Nat} (hci : classFor effective = some ci) :
    classSize ci ∣ page := by
  obtain ⟨hlt, -, hpow⟩ := classFor_eq_some hci
  rw [hpow]
  exact Nat.pow_dvd_pow 2 (show ci + 4 ≤ 12 by omega)

section

variable {h : Heap} {slabs : List (Option SlabRegion)} {sl : SlabRegion} {rest : List SlabRegion}
  {n : Nat}

theorem Heap.regionen_schnitt (hold : h.slabs.reduceOption.Perm (sl :: rest))
    (hnew : slabs.reduceOption.Perm (⟨sl.region, n⟩ :: rest)) :
    ({ h with slabs := slabs } : Heap).regionen.Perm h.regionen := by
  have hmap := (hnew.map SlabRegion.region).trans (hold.map SlabRegion.region).symm
  exact hmap.append_right _

theorem Heap.Geordnet.schnitt (hg : h.Geordnet) (hold : h.slabs.reduceOption.Perm (sl :: rest))
    (hnew : slabs.reduceOption.Perm (⟨sl.region, n⟩ :: rest)) (hfit : n ≤ sl.region.len) :
    ({ h with slabs := slabs } : Heap).Geordnet := by
  have hsame := h.regionen_schnitt hold hnew
  refine ⟨hg.region_ok, fun r hr => hg.vergeben r (hsame.mem_iff.mp hr),
    pairwise_of_perm hsame.symm hg.getrennt, fun t ht => ?_⟩
  obtain rfl | ht := List.mem_cons.mp (hnew.mem_iff.mp ht)
  · exact hfit
  · exact hg.bump_le t (hold.mem_iff.mpr (List.mem_cons_of_mem _ ht))

theorem Heap.ImSlab.schnitt {size a : Nat} (hs : h.ImSlab size a)
    (hold : h.slabs.reduceOption.Perm (sl :: rest))
    (hnew : slabs.reduceOption.Perm (⟨sl.region, n⟩ :: rest)) (hbump : sl.bump ≤ n) :
    ({ h with slabs := slabs } : Heap).ImSlab size a := by
  obtain ⟨t, ht, hlo, hhi, hdvd⟩ := hs
  obtain rfl | ht := List.mem_cons.mp (hold.mem_iff.mp ht)
  · refine ⟨⟨t.region, n⟩, hnew.mem_iff.mpr List.mem_cons_self, hlo, ?_, hdvd⟩
    dsimp only
    omega
  · exact ⟨t, hnew.mem_iff.mpr (List.mem_cons_of_mem _ ht), hlo, hhi, hdvd⟩

theorem Heap.Geordnet.apart_behind (hg : h.Geordnet)
    (hold : h.slabs.reduceOption.Perm (sl :: rest)) {u v : PhysRegion} (hu : h.Ort u)
    (hv : v.Inside sl.region) (hlo : sl.region.base + sl.bump ≤ v.base) : Apart v u := by
  have hregionen : h.regionen.Perm
      (sl.region :: (rest.map SlabRegion.region ++ h.large.reduceOption)) :=
    (hold.map SlabRegion.region).append_right _
  have hother := (List.pairwise_cons.mp (pairwise_of_perm hregionen hg.getrennt)).1
  obtain ⟨t, ht, hin⟩ | ⟨r, hr, hbase, hle⟩ := hu
  · have hbump := hg.bump_le t ht
    have hend := hin.2
    dsimp only at hend
    obtain rfl | ht := List.mem_cons.mp (hold.mem_iff.mp ht)
    · right; right; right
      omega
    · apply (hother t.region _).mono hv ⟨hin.1, by omega⟩
      exact List.mem_append_left _ (List.mem_map_of_mem ht)
  · exact (hother r (List.mem_append_right _ hr)).mono hv ⟨hbase.le, by omega⟩

end

variable {s : Lauf}

/-- A slot is cut behind all others of its bump region. -/
theorem Belegung.bump {frei : Nat → List Nat} (h : Belegung s frei) {layout : Layout}
    (hsize : layout.size ≠ 0) {ci : Nat} (hci : classFor layout.effective = some ci) {addr : Nat}
    {slabs' : List (Option SlabRegion)}
    (hcut : Heap.schneiden (classSize ci) s.heap.slabs = some (addr, slabs')) :
    Neu s frei layout (some addr, { s.heap with slabs := slabs' }) := by
  obtain ⟨hci8, -, hpow⟩ := classFor_eq_some hci
  have hok : ∀ sl ∈ s.heap.slabs.reduceOption, RegionOk sl.region ∧ sl.bump ≤ sl.region.len := by
    intro sl hsl
    have hmem : sl.region ∈ s.heap.regionen := List.mem_append_left _ (List.mem_map_of_mem hsl)
    exact ⟨h.geordnet.region_ok _ (h.geordnet.vergeben _ hmem).1, h.geordnet.bump_le sl hsl⟩
  obtain ⟨sl, off, rest, hold, hnew, rfl, hoff, hdvd, hfit⟩ :=
    schneiden_spec hpow (by omega) hok hcut
  have hkap : layout.kapazitaet = classSize ci := by
    rw [Layout.kapazitaet, if_neg hsize, hci]
  refine ⟨h.wechsel (h.geordnet.schnitt hold hnew hfit) rfl
    (fun _ _ hs => hs.schnitt hold hnew (by omega)) fun _ _ hgr => hgr, ?_, ?_⟩
  · rintro a ha u hu
    cases ha
    rw [hkap]
    obtain hzero | hort := h.ort hu
    · exact .inr (.inl hzero)
    · apply h.geordnet.apart_behind hold hort
      · exact ⟨by dsimp only; omega, by dsimp only; omega⟩
      · dsimp only
        omega
  · rintro a ha -
    cases ha
    rw [hci]
    refine ⟨_, hnew.mem_iff.mpr List.mem_cons_self, Nat.le_add_right _ _, ?_, ?_⟩
    · dsimp only
      omega
    · have hpage := (hok sl (hold.mem_iff.mpr List.mem_cons_self)).1.aligned
      exact Nat.dvd_add ((classSize_dvd_page hci).trans hpage) hdvd

theorem Belegung.neueRegion {frei : Nat → List Nat} (h : Belegung s frei) {layout : Layout}
    (hsize : layout.size ≠ 0) {ci : Nat} (hci : classFor layout.effective = some ci)
    {r : PhysRegion} (hant : s.heap.source.Liefert layout.minLen (some r)) {i : Nat}
    (hfree : s.heap.slabs.findIdx? Option.isNone = some i) :
    Neu s frei layout (some r.base,
      { s.heap with
        source := s.heap.source.request (some r)
        slabs := s.heap.slabs.set i (some ⟨r, classSize ci⟩) }) := by
  let sl : SlabRegion := ⟨r, classSize ci⟩
  have hfill := Slots.perm_fill (a := sl) (Slots.free_of_findIdx? hfree)
  have hmin : layout.minLen = max slabRegionBytes (classSize ci) := by
    rw [Layout.minLen, hci]
  obtain ⟨hregok, hlen, -⟩ := hant r rfl
  have hcs := classSize_le ci (classFor_eq_some hci).1
  have hperm : ({ s.heap with
      source := s.heap.source.request (some r)
      slabs := s.heap.slabs.set i (some sl) } : Heap).regionen.Perm (r :: s.heap.regionen) :=
    (hfill.map SlabRegion.region).append_right _
  have hkap : layout.kapazitaet = classSize ci := by
    rw [Layout.kapazitaet, if_neg hsize, hci]
  have hg := h.geordnet.dazu (g :=
    { s.heap with
      source := s.heap.source.request (some r)
      slabs := s.heap.slabs.set i (some sl) }) (by omega) hant rfl hperm (by
    intro t ht
    obtain rfl | ht := List.mem_cons.mp (hfill.mem_iff.mp ht)
    · show classSize ci ≤ r.len
      omega
    · exact h.geordnet.bump_le t ht)
  refine ⟨h.wechsel hg rfl ?_ fun _ _ hgr => hgr, ?_, ?_⟩
  · rintro size a ⟨t, ht, hslot⟩
    exact ⟨t, hfill.mem_iff.mpr (List.mem_cons_of_mem _ ht), hslot⟩
  · rintro a ha u hu
    cases ha
    apply h.apart_fresh hant _ u hu
    rw [hkap]
    exact ⟨Nat.le_refl _, by dsimp only; omega⟩
  · rintro a ha -
    cases ha
    rw [hci]
    exact ⟨sl, hfill.mem_iff.mpr List.mem_cons_self, Nat.le_refl _, Nat.le_refl _,
      (classSize_dvd_page hci).trans hregok.aligned⟩

theorem Belegung.slabAlloc {frei : Nat → List Nat} (h : Belegung s frei) {layout : Layout}
    (hsize : layout.size ≠ 0) {ci : Nat} (hci : classFor layout.effective = some ci)
    {antwort : Option PhysRegion} (hant : s.heap.source.Liefert layout.minLen antwort)
    (hhead : s.heap.freeHeads ci = 0) : Neu s frei layout (s.heap.slabAlloc s.mem ci antwort) := by
  rw [Heap.slabAlloc, hhead]
  simp only [ne_eq, not_true_eq_false, if_false]
  cases hcut : Heap.schneiden (classSize ci) s.heap.slabs with
  | some p => exact h.bump hsize hci hcut
  | none =>
    have hreq := h.request hant
    cases antwort with
    | none => exact hreq.nichts
    | some r =>
      cases hfree : s.heap.slabs.findIdx? Option.isNone with
      | none => exact hreq.nichts
      | some i => exact h.neueRegion hsize hci hant hfree

theorem Neu.aufnehmen {frei : Nat → List Nat} {layout : Layout} {res : Option Nat × Heap}
    (h : Neu s frei layout res) (hsize : layout.size ≠ 0) {a : Nat} (ha : res.1 = some a)
    (hne : a ≠ 0) :
    Belegung { s with heap := res.2, lebt := ⟨a, layout.actual, layout⟩ :: s.lebt } frei :=
  h.belegung.aufnehmen (b := ⟨a, layout.actual, layout⟩) (h.apart a ha) (h.liegt a ha)
    (fun _ => hne) (if_neg hsize).symm

theorem Lauf.Inv.vergessen {heap : Heap} {m : Mem} {b : Block} {lebt : List Block}
    (h : Lauf.Inv ⟨heap, m, b :: lebt⟩) : Lauf.Inv ⟨heap, m, lebt⟩ := by
  obtain ⟨frei, hbel⟩ := h
  exact ⟨frei, hbel.geordnet, hbel.kette, (List.pairwise_cons.mp hbel.getrennt).2, hbel.slots,
    fun c hc => hbel.bloecke c (List.mem_cons_of_mem b hc)⟩

theorem bind_nonNull_eq_some {res : Option Nat} {n a len : Nat} :
    (res.bind fun a => if a = 0 then none else some (a, n)) = some (a, len) ↔
      res = some a ∧ a ≠ 0 ∧ len = n := by
  rw [Option.bind_eq_some_iff]
  constructor
  · rintro ⟨b, hb, hif⟩
    by_cases hzero : b = 0
    · rw [if_pos hzero] at hif
      cases hif
    · rw [if_neg hzero] at hif
      cases hif
      exact ⟨hb, hzero, rfl⟩
  · rintro ⟨hb, hne, rfl⟩
    exact ⟨a, hb, if_neg hne⟩

/-- A block without bytes takes no place, and without a free slot of its class a block lies
beside all that is occupied. -/
theorem Belegung.allocate {frei : Nat → List Nat} (h : Belegung s frei) {layout : Layout}
    {antwort : Option PhysRegion} (hant : s.heap.source.Liefert layout.minLen antwort)
    (hkopf : layout.size ≠ 0 → ∀ ci, classFor layout.effective = some ci → s.heap.freeHeads ci = 0) :
    Belegung { s with heap := (s.heap.allocate s.mem layout antwort).2 } frei ∧
      ∀ a len, (s.heap.allocate s.mem layout antwort).1 = some (a, len) →
        Belegung { s with
          heap := (s.heap.allocate s.mem layout antwort).2
          lebt := ⟨a, len, layout⟩ :: s.lebt } frei := by
  unfold Heap.allocate
  by_cases hsize : layout.size = 0
  · rw [if_pos hsize]
    refine ⟨h, ?_⟩
    rintro a len hres
    cases hres
    have hzero : layout.kapazitaet = 0 := if_pos hsize
    exact h.aufnehmen (b := ⟨layout.align, 0, layout⟩) (fun u _ => .inl hzero)
      (fun hne => absurd hsize hne) (fun hne => absurd hsize hne) (if_pos hsize).symm
  rw [if_neg hsize]
  cases hci : classFor layout.effective with
  | none =>
    have hneu := h.largeAlloc hsize hci hant
    refine ⟨hneu.belegung, fun a len hres => ?_⟩
    obtain ⟨ha, hne, rfl⟩ := bind_nonNull_eq_some.mp hres
    exact hneu.aufnehmen hsize ha hne
  | some ci =>
    have hneu := h.slabAlloc hsize hci hant (hkopf hsize ci hci)
    refine ⟨hneu.belegung, fun a len hres => ?_⟩
    obtain ⟨ha, hne, rfl⟩ := bind_nonNull_eq_some.mp hres
    exact hneu.aufnehmen hsize ha hne

/-- What `allocate` returns is a block of its own. -/
theorem Lauf.Inv.allocate (h : s.Inv) {layout : Layout} {antwort : Option PhysRegion}
    (hant : s.heap.source.Liefert layout.minLen antwort) :
    Lauf.Inv { s with heap := (s.heap.allocate s.mem layout antwort).2 } ∧
      ∀ a len, (s.heap.allocate s.mem layout antwort).1 = some (a, len) →
        Lauf.Inv { s with
          heap := (s.heap.allocate s.mem layout antwort).2
          lebt := ⟨a, len, layout⟩ :: s.lebt } := by
  obtain ⟨frei, hbel⟩ := h
  by_cases hkopf : layout.size ≠ 0 →
      ∀ ci, classFor layout.effective = some ci → s.heap.freeHeads ci = 0
  · obtain ⟨hheap, hblock⟩ := hbel.allocate hant hkopf
    exact ⟨⟨frei, hheap⟩, fun a len hres => ⟨frei, hblock a len hres⟩⟩
  -- A free slot of the class is taken.
  push Not at hkopf
  obtain ⟨hsize, ci, hci, hhead⟩ := hkopf
  have htake := hbel.entnehmen hhead hsize hci
  have hres : s.heap.allocate s.mem layout antwort =
      (some (s.heap.freeHeads ci, layout.actual),
        s.heap.mitKopf ci (word s.mem (s.heap.freeHeads ci))) := by
    unfold Heap.allocate
    rw [if_neg hsize, hci]
    dsimp only
    rw [Heap.slabAlloc, if_pos hhead]
    exact Prod.ext (bind_nonNull_eq_some.mpr ⟨rfl, hhead, rfl⟩) rfl
  rw [hres]
  refine ⟨htake.vergessen, fun a len heq => ?_⟩
  cases heq
  exact htake

/-- A block lies at a multiple of its alignment, up to that of the regions. -/
theorem Belegung.aligned {frei : Nat → List Nat} (h : Belegung s frei) {b : Block}
    (hb : b ∈ s.lebt) (hsize : b.layout.size ≠ 0) (halign : b.layout.align ≤ page) :
    b.layout.align ∣ b.addr := by
  have hliegt := (h.bloecke b hb).1 hsize
  obtain ⟨k, hk⟩ := b.layout.align_pow
  have hpow : ∀ n, 2 ^ k ≤ 2 ^ n → 2 ^ k ∣ 2 ^ n := fun n hn =>
    Nat.pow_dvd_pow 2 ((Nat.pow_le_pow_iff_right (by decide)).mp hn)
  cases hci : classFor b.layout.effective with
  | some ci =>
    rw [hci] at hliegt
    obtain ⟨sl, -, -, -, hdvd⟩ := hliegt
    obtain ⟨-, hle, hclass⟩ := classFor_eq_some hci
    have heff : b.layout.align ≤ b.layout.effective := Nat.le_max_right _ _
    rw [hk] at heff ⊢
    rw [hclass] at hle hdvd
    exact (hpow _ (heff.trans hle)).trans hdvd
  | none =>
    rw [hci] at hliegt
    obtain ⟨r, hr, hbase, -⟩ := hliegt
    have hheld := (h.geordnet.vergeben r (List.mem_append_right _ hr)).1
    have hpage := (h.geordnet.region_ok r hheld).aligned
    rw [hk] at halign ⊢
    rw [hbase] at hpage
    exact (hpow 12 halign).trans hpage

theorem Layout.effective_le {layout : Layout} (hsize : layout.size ≠ 0) :
    layout.effective ≤ layout.kapazitaet := by
  rw [Layout.kapazitaet, if_neg hsize]
  cases hci : classFor layout.effective with
  | none => exact Nat.le_refl _
  | some ci => exact (classFor_eq_some hci).2.1

theorem Layout.kapazitaet_pos {layout : Layout} (hsize : layout.size ≠ 0) :
    0 < layout.kapazitaet := by
  have hle := Layout.effective_le hsize
  have hmax : layout.size ≤ layout.effective := Nat.le_max_left _ _
  omega

theorem Belegung.addr_ne {frei : Nat → List Nat} (h : Belegung s frei) {b c : Block}
    (hb : b ∈ s.lebt) (hc : c ∈ s.lebt.erase b) (hbsize : b.layout.size ≠ 0)
    (hcsize : c.layout.size ≠ 0) : c.addr ≠ b.addr := by
  have hpair := pairwise_of_perm (Block.umfang_perm hb) (List.pairwise_append.mp h.getrennt).1
  have hapart := (List.pairwise_cons.mp hpair).1 c.umfang (List.mem_map_of_mem hc)
  have hbpos := Layout.kapazitaet_pos hbsize
  have hcpos := Layout.kapazitaet_pos hcsize
  unfold Apart Block.umfang at hapart
  dsimp only at hapart
  omega

/-- The region of a large block is found and given back. -/
theorem Belegung.largeFrei {frei : Nat → List Nat} (h : Belegung s frei) {b : Block}
    (hb : b ∈ s.lebt) (hsize : b.layout.size ≠ 0) (hci : classFor b.layout.effective = none) :
    ∃ i rg, s.heap.large.findIdx? (fun r => r.any fun rg => rg.base == b.addr) = some i ∧
      s.heap.large[i]? = some (some rg) ∧
      (∀ t ∈ ({ s.heap with large := s.heap.large.set i none } : Heap).regionen, Apart rg t) ∧
      Belegung ⟨{ s.heap with
        source := s.heap.source.release rg
        large := s.heap.large.set i none }, s.mem, s.lebt.erase b⟩ frei := by
  have hliegt := (h.bloecke b hb).1 hsize
  rw [hci] at hliegt
  obtain ⟨r₀, hr₀, hbase₀, -⟩ := hliegt
  cases hfind : s.heap.large.findIdx? (fun r => r.any fun rg => rg.base == b.addr) with
  | none =>
    have hnone := List.findIdx?_eq_none_iff.mp hfind (some r₀) (Slots.mem_entries.mp hr₀)
    simp [hbase₀] at hnone
  | some i =>
    obtain ⟨rg, hrg, hbase⟩ := Slots.found_of_findIdx? hfind
    have hclear := Slots.perm_clear hrg
    have hperm : s.heap.regionen.Perm (rg :: (s.heap.slabs.reduceOption.map SlabRegion.region ++
        (s.heap.large.set i none).reduceOption)) :=
      (hclear.append_left _).trans List.perm_middle
    obtain ⟨hapart, hpair⟩ := List.pairwise_cons.mp (pairwise_of_perm hperm h.geordnet.getrennt)
    refine ⟨i, rg, rfl, hrg, hapart, ⟨?_, ?_, hpair, h.geordnet.bump_le⟩, h.kette, ?_, h.slots, ?_⟩
    · exact fun t ht => h.geordnet.region_ok t (List.mem_of_mem_erase ht)
    · intro t ht
      obtain ⟨hout, hpos⟩ := h.geordnet.vergeben t (hperm.mem_iff.mpr (List.mem_cons_of_mem _ ht))
      have hne : t ≠ rg := by
        rintro rfl
        have hself := hapart t ht
        unfold Apart at hself
        omega
      exact ⟨(List.mem_erase_of_ne hne).mpr hout, hpos⟩
    · have hall := (Block.umfang_perm hb).append_right (freieSlots frei)
      exact (List.pairwise_cons.mp (pairwise_of_perm hall h.getrennt)).2
    · intro c hc
      obtain ⟨hold, hrest⟩ := h.bloecke c (List.mem_of_mem_erase hc)
      refine ⟨fun hcsize => ?_, hrest⟩
      have hplace := hold hcsize
      have hne := h.addr_ne hb hc hsize hcsize
      cases hcc : classFor c.layout.effective with
      | some cj =>
        rw [hcc] at hplace
        exact hplace
      | none =>
        rw [hcc] at hplace
        obtain ⟨t, ht, htbase, htlen⟩ := hplace
        obtain rfl | ht := List.mem_cons.mp (hclear.mem_iff.mp ht)
        · rw [beq_iff_eq] at hbase
          exact absurd (htbase.symm.trans hbase) hne
        · exact ⟨t, ht, htbase, htlen⟩

/-- A live block is given back. -/
theorem Lauf.Inv.deallocate (h : s.Inv) {b : Block} (hb : b ∈ s.lebt) :
    Lauf.Inv ⟨(s.heap.deallocate s.mem b.addr b.layout).1,
      (s.heap.deallocate s.mem b.addr b.layout).2, s.lebt.erase b⟩ := by
  obtain ⟨frei, hbel⟩ := h
  unfold Heap.deallocate
  by_cases hsize : b.layout.size = 0
  · rw [if_pos hsize]
    refine ⟨frei, hbel.geordnet, hbel.kette, ?_, hbel.slots,
      fun c hc => hbel.bloecke c (List.mem_of_mem_erase hc)⟩
    have hall := (Block.umfang_perm hb).append_right (freieSlots frei)
    exact (List.pairwise_cons.mp (pairwise_of_perm hall hbel.getrennt)).2
  rw [if_neg hsize]
  cases hci : classFor b.layout.effective with
  | some ci => exact hbel.freigeben hb hsize hci
  | none =>
    obtain ⟨i, rg, hfind, hget, -, hnew⟩ := hbel.largeFrei hb hsize hci
    simp only [hfind, hget]
    exact ⟨frei, hnew⟩

theorem Block.len_le_umfang {b : Block}
    (hlen : b.len = if b.layout.size = 0 then 0 else b.layout.actual) : b.len ≤ b.umfang.len := by
  by_cases hsize : b.layout.size = 0
  · rw [if_pos hsize] at hlen
    omega
  rw [if_neg hsize] at hlen
  rw [hlen, Layout.actual]
  cases hci : classFor b.layout.effective with
  | none =>
    rw [Block.umfang_of_large hsize hci]
    exact Nat.le_max_left _ _
  | some ci =>
    rw [Block.umfang_of_class hsize hci]

/-- A program writes into its blocks only. -/
theorem Lauf.Inv.schreiben (h : s.Inv) {b : Block} (hb : b ∈ s.lebt) {x : Nat} (hx : x ∈ b.bytes)
    (v : UInt8) : Lauf.Inv { s with mem := update s.mem x v } := by
  obtain ⟨frei, hbel⟩ := h
  refine ⟨frei, hbel.geordnet, fun ci => ?_, hbel.getrennt, hbel.slots, hbel.bloecke⟩
  apply (hbel.kette ci).congr
  intro a ha y hlo hhi
  apply update_of_ne
  rintro rfl
  have hci := (hbel.slots ci a ha).1
  have hcs := classSize_le ci hci
  have hapart := (List.pairwise_append.mp hbel.getrennt).2.2 b.umfang (List.mem_map_of_mem hb) _
    (mem_freieSlots.mpr ⟨ci, hci, a, ha, rfl⟩)
  have hlen := Block.len_le_umfang (hbel.bloecke b hb).2.2
  obtain ⟨hxlo, hxhi⟩ := hx
  unfold Apart at hapart
  have hbase : b.umfang.base = b.addr := rfl
  dsimp only at hapart hxlo hxhi
  omega

end Caprock.Region
