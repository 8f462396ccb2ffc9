import Caprock.Lib.Run
import Caprock.Mem.FreeList

/-! # Allocation and release over whole runs

Both searches return a *hit*: a fragment and an aligned start in the zone from which
the region can be cut.  With `carve_spec` a hit determines the region handed out
and the free set afterwards.

A run registers memory, allocates and releases.  The ghost lists `ram` and
`vergeben` record what was ever registered and what is handed out; releases are of
handed-out regions only.
-/

namespace Caprock.Mem

open Word Execution

namespace PhysAllocator

/-- The size actually cut: `size`, at least one byte, in whole pages. -/
def pageSize (size : Nat) : Nat := (max size 1 + (page - 1)) / page * page

theorem alignUp_page {size : Nat} (h : size ≤ 2 ^ 63) :
    alignUp (max size 1) page = pageSize size := by
  have hpage : page = 2 ^ 12 := by decide
  unfold pageSize
  rw [hpage]
  exact alignUp_eq (by omega) (by omega)

theorem max_page_eq_pow {align k : Nat} (halign : align = 2 ^ k) (hk : k ≤ 63) :
    ∃ m, m ≤ 63 ∧ max align page = 2 ^ m := by
  rcases Nat.le_total align page with hle | hle
  · exact ⟨12, by omega, by rw [Nat.max_eq_right hle]; decide⟩
  · exact ⟨k, hk, by rw [Nat.max_eq_left hle, halign]⟩

/-- Fragment `i` can serve `size` bytes from the aligned address `start` inside `[lo, hi)`. -/
structure Hit (a : PhysAllocator) (size align lo hi i start : Nat) (r : PhysRegion) : Prop where
  entry : a.regions[i]? = some r
  base_le : r.base ≤ start
  le_end : start + size ≤ r.base + r.len
  lo_le : lo ≤ start
  le_hi : start + size ≤ hi
  aligned : align ∣ start
  rest : ¬ a.keinPlatzFuerRest r start (start + size)

variable {lo hi m colors : Nat} {mask : ColorMask}

/-- The zone of a fragment: its aligned start does not wrap. -/
theorem zone_alignUp {a : PhysAllocator} (h : a.WellFormed) {i : Nat} {r : PhysRegion}
    (hr : a.regions[i]? = some r) (hm : m ≤ 63) (hzone : ¬ min r.fin hi ≤ max r.base lo) :
    2 ^ m ∣ alignUp (max r.base lo) (2 ^ m) ∧
      max r.base lo ≤ alignUp (max r.base lo) (2 ^ m) ∧ r.fin = r.base + r.len := by
  have hfits := h.separated.fits r (List.mem_of_getElem? hr)
  have hfin := PhysRegion.fin_eq_of_fits hfits
  have hpow : 2 ^ m ≤ 2 ^ 63 := Nat.pow_le_pow_right (by omega) hm
  have hroom : max r.base lo + (2 ^ m - 1) < 2 ^ 64 := by
    rw [hfin] at hzone
    omega
  exact ⟨dvd_alignUp hm hroom, le_alignUp hm hroom, hfin⟩

/-- What the search settles on was a candidate of its fragment. -/
theorem foldl_bestIn_spec {a : PhysAllocator} {size align : Nat} {l : List Nat}
    {b : Nat × Nat × Nat} (hb : l.foldl (a.bestIn size align lo hi) none = some b) :
    ∃ r, a.regions[b.1]? = some r ∧ ¬ min r.fin hi ≤ max r.base lo ∧
      b.2.1 = alignUp (max r.base lo) align ∧ r.base ≤ b.2.1 ∧ b.2.1 + size ≤ min r.fin hi ∧
      ¬ a.keinPlatzFuerRest r b.2.1 (b.2.1 + size) := by
  refine List.foldlRecOn (motive := fun best : Option (Nat × Nat × Nat) => ∀ b ∈ best,
      ∃ r, a.regions[b.1]? = some r ∧ ¬ min r.fin hi ≤ max r.base lo ∧
        b.2.1 = alignUp (max r.base lo) align ∧ r.base ≤ b.2.1 ∧ b.2.1 + size ≤ min r.fin hi ∧
        ¬ a.keinPlatzFuerRest r b.2.1 (b.2.1 + size)) l _ (by simp)
    (fun best hbest i _ => ?_) b hb
  unfold bestIn
  cases hr : a.regions[i]? with
  | none => exact hbest
  | some r =>
    dsimp only
    split
    · exact hbest
    · next hzone =>
      cases hadd : checkedAdd (alignUp (max r.base lo) align) size with
      | none => exact hbest
      | some e =>
        obtain ⟨-, rfl⟩ := checkedAdd_eq_some.mp hadd
        dsimp only
        split
        · next hfit =>
          split
          · exact hbest
          · next hrest =>
            split
            · intro b hb
              obtain rfl := Option.mem_some_iff.mp hb
              exact ⟨r, hr, hzone, rfl, hfit.1, hfit.2, hrest⟩
            · exact hbest
        · exact hbest

theorem foldl_bestIn_hit {a : PhysAllocator} (h : a.WellFormed) {size : Nat} (hm : m ≤ 63)
    {b : Nat × Nat × Nat}
    (hb : (List.range a.len).foldl (a.bestIn size (2 ^ m) lo hi) none = some b) :
    ∃ r, a.Hit size (2 ^ m) lo hi b.1 b.2.1 r := by
  obtain ⟨r, hr, hzone, hstart, hbase, hend, hrest⟩ := foldl_bestIn_spec hb
  obtain ⟨hdvd, hle, hfin⟩ := zone_alignUp h hr hm hzone
  rw [← hstart] at hdvd hle
  exact ⟨r, hr, hbase, by omega, by omega, by omega, hdvd, hrest⟩

theorem farbigerStart_spec {zoneEnd size align vorspann gefaerbt : Nat} {tries start s : Nat}
    (h : farbigerStart zoneEnd size align vorspann gefaerbt colors mask tries start = some s) :
    start ≤ s ∧ s + size ≤ zoneEnd ∧
      runIsColored (s + vorspann * page) gefaerbt colors mask = true ∧
      (max align page ∣ start → max align page ∣ s) := by
  fun_induction farbigerStart zoneEnd size align vorspann gefaerbt colors mask tries start with
  | case1 => cases h
  | case2 tries start htries hfit hcol =>
    obtain rfl : start = s := by simpa using h
    exact ⟨Nat.le_refl _, hfit.2, hcol, id⟩
  | case3 tries start htries hfit hcol hnext ih =>
    obtain ⟨hle, hend, hrun, hdvd⟩ := ih h
    exact ⟨by omega, hend, hrun, fun hstart => hdvd (Nat.dvd_add hstart (Nat.dvd_refl _))⟩
  | case4 => cases h
  | case5 => cases h

/-- All pages behind the first `vorspann` ones have a colour of the mask. -/
def Farbig (start size vorspann colors : Nat) (mask : ColorMask) : Prop :=
  ∀ j, vorspann ≤ j → j < size / page → mask.contains (colorOf (start + j * page) colors) = true

theorem farbig_of_runIsColored {start size vorspann : Nat}
    (h : runIsColored (start + vorspann * page) (size / page - vorspann) colors mask = true) :
    Farbig start size vorspann colors mask := by
  intro j hlo hhi
  have hall := List.all_eq_true.mp h (j - vorspann) (List.mem_range.mpr (by omega))
  have haddr : start + vorspann * page + (j - vorspann) * page = start + j * page := by
    rw [Nat.add_assoc, ← Nat.add_mul, Nat.add_sub_of_le hlo]
  rwa [haddr] at hall

theorem foldl_bestFarbigIn_spec {a : PhysAllocator} {vorspann size align gefaerbt n : Nat}
    {l : List Nat} {b : Nat × Nat}
    (hb : (l.foldl (a.bestFarbigIn vorspann size align gefaerbt colors mask lo hi)
      (none, n)).1 = some b) :
    ∃ r, a.regions[b.1]? = some r ∧ ¬ min r.fin hi ≤ max r.base lo ∧
      farbigerStart (min r.fin hi) size align vorspann gefaerbt colors mask 0
        (alignUp (max r.base lo) align) = some b.2 ∧
      ¬ a.keinPlatzFuerRest r b.2 (b.2 + size) := by
  refine List.foldlRecOn (motive := fun best : Option (Nat × Nat) × Nat => ∀ b ∈ best.1,
      ∃ r, a.regions[b.1]? = some r ∧ ¬ min r.fin hi ≤ max r.base lo ∧
        farbigerStart (min r.fin hi) size align vorspann gefaerbt colors mask 0
          (alignUp (max r.base lo) align) = some b.2 ∧
        ¬ a.keinPlatzFuerRest r b.2 (b.2 + size)) l _ (by simp) (fun best hbest i _ => ?_) b hb
  unfold bestFarbigIn
  cases hr : a.regions[i]? with
  | none => exact hbest
  | some r =>
    dsimp only
    split
    · exact hbest
    · next hzone =>
      split
      · exact hbest
      · next s hs =>
        split
        · exact hbest
        · next hrest =>
          split
          · intro b hb
            obtain rfl := Option.mem_some_iff.mp hb
            exact ⟨r, hr, hzone, hs, hrest⟩
          · exact hbest

theorem foldl_bestFarbigIn_hit {a : PhysAllocator} (h : a.WellFormed) {vorspann size n : Nat}
    (hm : m ≤ 63) (hpage : page ≤ 2 ^ m) {b : Nat × Nat} (hb : ((List.range a.len).foldl
      (a.bestFarbigIn vorspann size (2 ^ m) (size / page - vorspann) colors mask lo hi)
      (none, n)).1 = some b) :
    ∃ r, a.Hit size (2 ^ m) lo hi b.1 b.2 r ∧ Farbig b.2 size vorspann colors mask := by
  obtain ⟨r, hr, hzone, hs, hrest⟩ := foldl_bestFarbigIn_spec hb
  obtain ⟨hdvd, hle, hfin⟩ := zone_alignUp h hr hm hzone
  obtain ⟨hstart, hend, hcol, hsdvd⟩ := farbigerStart_spec hs
  rw [Nat.max_eq_left hpage] at hsdvd
  exact ⟨r, ⟨hr, by omega, by omega, by omega, by omega, hsdvd hdvd, hrest⟩,
    farbig_of_runIsColored hcol⟩

structure Granted (a a' : PhysAllocator) (size align lo hi : Nat) (cap : MemoryCap) : Prop where
  len_eq : cap.region.len = pageSize size
  aligned : max align page ∣ cap.region.base
  lo_le : lo ≤ cap.region.base
  le_hi : cap.region.base + cap.region.len ≤ hi
  was_free : cap.region.addrs ⊆ a.freeSet
  free_after : a'.freeSet = a.freeSet \ cap.region.addrs

/-- The outcome of an allocation: nothing happened, or a region was granted. -/
def Outcome (a : PhysAllocator) (size align lo hi : Nat) (P : MemoryCap → Prop)
    (r : Option MemoryCap × PhysAllocator) : Prop :=
  r = (none, a) ∨ ∃ cap, r.1 = some cap ∧ r.2.WellFormed ∧ a.Granted r.2 size align lo hi cap ∧
    cap.region.base + cap.region.len ≤ 2 ^ 63 ∧ P cap

theorem Outcome.granted {a : PhysAllocator} {size align : Nat} {P : MemoryCap → Prop}
    {r : Option MemoryCap × PhysAllocator} {cap : MemoryCap} (h : a.Outcome size align lo hi P r)
    (hcap : r.1 = some cap) : a.Granted r.2 size align lo hi cap ∧ P cap := by
  rcases h with rfl | ⟨c, hc, -, hgr, -, hP⟩
  · cases hcap
  · obtain rfl : c = cap := Option.some.inj (hc.symm.trans hcap)
    exact ⟨hgr, hP⟩

theorem carve_outcome {a : PhysAllocator} (h : a.WellFormed) {size align i start : Nat}
    {r : PhysRegion} {P : MemoryCap → Prop} (halign : max align page = 2 ^ m)
    (hit : a.Hit (pageSize size) (2 ^ m) lo hi i start r)
    (hP : P ⟨⟨start, pageSize size⟩, Rights.rw⟩) :
    a.Outcome size align lo hi P (a.carve i start (pageSize size)) := by
  obtain ⟨hcap, hwf, hsub, hset⟩ := carve_spec h hit.entry hit.base_le hit.le_end hit.rest
  have hfits := h.separated.fits r (List.mem_of_getElem? hit.entry)
  have hend := hit.le_end
  refine .inr ⟨_, hcap, hwf, ⟨rfl, ?_, hit.lo_le, hit.le_hi, hsub, hset⟩, ?_, hP⟩
  · rw [halign]
    exact hit.aligned
  · show start + pageSize size ≤ 2 ^ 63
    omega

theorem allocIn_outcome {a : PhysAllocator} (h : a.WellFormed) {size align k : Nat}
    (hsize : size ≤ 2 ^ 63) (halign : align = 2 ^ k) (hk : k ≤ 63) :
    a.Outcome size align lo hi (fun _ => True) (a.allocIn size align lo hi) := by
  obtain ⟨m, hm, hmax⟩ := max_page_eq_pow halign hk
  unfold allocIn
  rw [alignUp_page hsize, hmax]
  dsimp only
  split
  · exact .inl rfl
  · next i start n hbest =>
    obtain ⟨r, hit⟩ := foldl_bestIn_hit h hm hbest
    exact carve_outcome h hmax hit trivial

theorem allocColoredVorspannIn_outcome {a : PhysAllocator} (h : a.WellFormed)
    {vorspann size align k : Nat} (hsize : size ≤ 2 ^ 63) (halign : align = 2 ^ k) (hk : k ≤ 63) :
    a.Outcome size align lo hi
      (fun cap => 1 < colors → Farbig cap.region.base cap.region.len vorspann colors mask)
      (a.allocColoredVorspannIn vorspann size align colors mask lo hi) := by
  unfold allocColoredVorspannIn
  split
  · exact .inl rfl
  split
  · next hplain =>
    -- Without a colour condition to meet, the request is an ordinary one.
    rcases allocIn_outcome h hsize halign hk with hnone | ⟨cap, hcap, hwf, hgr, hfit, -⟩
    · exact .inl hnone
    · refine .inr ⟨cap, hcap, hwf, hgr, hfit, fun hcolors => ?_⟩
      rcases hplain with hle | rfl
      · omega
      · exact fun j _ _ => ColorMask.contains_all _
  obtain ⟨m, hm, hmax⟩ := max_page_eq_pow halign hk
  have hpage : page ≤ 2 ^ m := hmax ▸ Nat.le_max_right _ _
  rw [alignUp_page hsize, hmax]
  dsimp only
  split
  · exact .inl rfl
  split
  · exact .inl rfl
  split
  · exact .inl rfl
  · next i start hbest =>
    obtain ⟨r, hit, hfarbig⟩ := foldl_bestFarbigIn_hit h hm hpage hbest
    exact carve_outcome h hmax hit fun _ => hfarbig

end PhysAllocator

/-- Free and handed-out memory are disjoint parts of what was registered. -/
structure Teile (oben : Nat) (frei : Set Nat) (vergeben ram : List PhysRegion) : Prop where
  free_sub : frei ⊆ cover ram
  out_sub : ∀ r ∈ vergeben, r.addrs ⊆ cover ram
  out_fits : ∀ r ∈ vergeben, r.base + r.len ≤ oben
  out_free : ∀ r ∈ vergeben, Disjoint r.addrs frei
  out_pairwise : vergeben.Pairwise fun r t => Disjoint r.addrs t.addrs

namespace Teile

variable {oben : Nat} {frei frei' : Set Nat} {vergeben ram : List PhysRegion} {r : PhysRegion}

theorem disjoint_free (h : Teile oben frei vergeben ram)
    (hd : ∀ t ∈ ram, Disjoint r.addrs t.addrs) : Disjoint r.addrs frei := by
  rw [Set.disjoint_left]
  intro x hx hfree
  obtain ⟨t, ht, hxt⟩ := h.free_sub hfree
  exact Set.disjoint_left.mp (hd t ht) hx hxt

/-- New memory is registered, and not all of it need be accepted. -/
theorem register (h : Teile oben frei vergeben ram) (hd : ∀ t ∈ ram, Disjoint r.addrs t.addrs)
    (hsub : frei' ⊆ r.addrs ∪ frei) : Teile oben frei' vergeben (r :: ram) := by
  refine ⟨?_, fun t ht => ?_, h.out_fits, fun t ht => ?_, h.out_pairwise⟩
  · rw [cover_cons]
    exact hsub.trans (Set.union_subset_union_right _ h.free_sub)
  · rw [cover_cons]
    exact (h.out_sub t ht).trans Set.subset_union_right
  · refine Set.disjoint_of_subset_right hsub (Set.disjoint_union_right.mpr ⟨?_, h.out_free t ht⟩)
    rw [Set.disjoint_left]
    intro x hx hxr
    obtain ⟨u, hu, hxu⟩ := h.out_sub t ht hx
    exact Set.disjoint_left.mp (hd u hu) hxr hxu

theorem grant (h : Teile oben frei vergeben ram) (hsub : r.addrs ⊆ frei)
    (hfits : r.base + r.len ≤ oben) : Teile oben (frei \ r.addrs) (r :: vergeben) ram := by
  refine ⟨Set.sdiff_subset.trans h.free_sub, ?_, ?_, ?_, ?_⟩
  · exact List.forall_mem_cons.mpr ⟨hsub.trans h.free_sub, h.out_sub⟩
  · exact List.forall_mem_cons.mpr ⟨hfits, h.out_fits⟩
  · exact List.forall_mem_cons.mpr ⟨Set.disjoint_sdiff_right,
      fun t ht => (h.out_free t ht).mono_right Set.sdiff_subset⟩
  · exact List.pairwise_cons.mpr
      ⟨fun t ht => ((h.out_free t ht).mono_right hsub).symm, h.out_pairwise⟩

/-- A region that was handed out comes back, or is lost. -/
theorem release (h : Teile oben frei vergeben ram) (hmem : r ∈ vergeben)
    (hsub : frei' ⊆ r.addrs ∪ frei) : Teile oben frei' (vergeben.erase r) ram := by
  have hsymm : ∀ {t u : PhysRegion}, Disjoint t.addrs u.addrs → Disjoint u.addrs t.addrs :=
    fun hd => hd.symm
  obtain ⟨hothers, hpairwise⟩ := List.pairwise_cons.mp
    (((List.perm_cons_erase hmem).pairwise_iff hsymm).mp h.out_pairwise)
  have hsubset : vergeben.erase r ⊆ vergeben := List.erase_subset
  refine ⟨hsub.trans (Set.union_subset (h.out_sub r hmem) h.free_sub),
    fun t ht => h.out_sub t (hsubset ht), fun t ht => h.out_fits t (hsubset ht), fun t ht => ?_,
    hpairwise⟩
  exact Set.disjoint_of_subset_right hsub
    (Set.disjoint_union_right.mpr ⟨(hothers t ht).symm, h.out_free t (hsubset ht)⟩)

end Teile

/-- The allocator with what was ever registered and what is handed out. -/
structure Ledger where
  alloc : PhysAllocator
  ram : List PhysRegion
  vergeben : List PhysRegion

namespace Ledger

open PhysAllocator

def init : Ledger := ⟨PhysAllocator.new, [], []⟩

inductive Op where
  | addRegion (base len : Nat)
  | allocIn (size align lo hi : Nat)
  | allocColoredVorspannIn (vorspann size align colors : Nat) (mask : ColorMask) (lo hi : Nat)
  | freeRegion (region : PhysRegion)

def grant (s : Ledger) : Option MemoryCap × PhysAllocator → Ledger
  | (none, a) => { s with alloc := a }
  | (some cap, a) => { s with alloc := a, vergeben := cap.region :: s.vergeben }

def step (s : Ledger) : Op → Option Ledger
  | .addRegion base len =>
      some { s with alloc := (s.alloc.addRegion base len).2, ram := ⟨base, len⟩ :: s.ram }
  | .allocIn size align lo hi => some (s.grant (s.alloc.allocIn size align lo hi))
  | .allocColoredVorspannIn vorspann size align colors mask lo hi =>
      some (s.grant (s.alloc.allocColoredVorspannIn vorspann size align colors mask lo hi))
  | .freeRegion region =>
      some { s with
        alloc := (s.alloc.freeRegion region).2
        vergeben := s.vergeben.erase region }

/-- Registered ranges are disjoint and end below `2 ^ 63`; sizes are at most `2 ^ 63`,
alignments powers of two; only handed-out regions are released. -/
def OpOk (s : Ledger) : Op → Prop
  | .addRegion base len =>
      base + len ≤ 2 ^ 63 ∧ ∀ r ∈ s.ram, Disjoint (PhysRegion.addrs ⟨base, len⟩) r.addrs
  | .allocIn size align _ _ => size ≤ 2 ^ 63 ∧ ∃ k, k ≤ 63 ∧ align = 2 ^ k
  | .allocColoredVorspannIn _ size align _ _ _ _ => size ≤ 2 ^ 63 ∧ ∃ k, k ≤ 63 ∧ align = 2 ^ k
  | .freeRegion region => region ∈ s.vergeben

structure Inv (s : Ledger) : Prop where
  wellFormed : s.alloc.WellFormed
  free_sub : s.alloc.freeSet ⊆ cover s.ram
  out_sub : ∀ r ∈ s.vergeben, r.addrs ⊆ cover s.ram
  out_fits : ∀ r ∈ s.vergeben, r.base + r.len ≤ 2 ^ 63
  out_free : ∀ r ∈ s.vergeben, Disjoint r.addrs s.alloc.freeSet
  out_pairwise : s.vergeben.Pairwise fun r t => Disjoint r.addrs t.addrs

theorem init_inv : init.Inv where
  wellFormed := new_wellFormed
  free_sub := by simp [init, freeSet, PhysAllocator.new]
  out_sub := by simp [init]
  out_fits := by simp [init]
  out_free := by simp [init]
  out_pairwise := by simp [init]

theorem Inv.teile {s : Ledger} (h : s.Inv) :
    Teile (2 ^ 63) s.alloc.freeSet s.vergeben s.ram :=
  ⟨h.free_sub, h.out_sub, h.out_fits, h.out_free, h.out_pairwise⟩

theorem Inv.of_teile {s : Ledger} (hwf : s.alloc.WellFormed)
    (h : Teile (2 ^ 63) s.alloc.freeSet s.vergeben s.ram) : s.Inv :=
  ⟨hwf, h.free_sub, h.out_sub, h.out_fits, h.out_free, h.out_pairwise⟩

theorem insert_sub {a : PhysAllocator} (h : a.WellFormed) {r : PhysRegion}
    (hfits : r.base + r.len ≤ 2 ^ 63) (hd : Disjoint r.addrs a.freeSet) :
    (a.insert r).2.WellFormed ∧ (a.insert r).2.freeSet ⊆ r.addrs ∪ a.freeSet := by
  obtain ⟨hwf, -, ⟨-, hset⟩ | ⟨-, -, -, heq⟩⟩ := insert_spec h hfits hd
  · exact ⟨hwf, hset.subset⟩
  · refine ⟨hwf, ?_⟩
    rw [heq]
    exact Set.subset_union_right

theorem addRegion_inv {s : Ledger} (h : s.Inv) {base len : Nat}
    (hok : s.OpOk (.addRegion base len)) :
    Inv { s with alloc := (s.alloc.addRegion base len).2, ram := ⟨base, len⟩ :: s.ram } := by
  obtain ⟨hwf, hsub⟩ := insert_sub (r := ⟨base, len⟩) h.wellFormed hok.1 (h.teile.disjoint_free hok.2)
  exact .of_teile hwf (h.teile.register hok.2 hsub)

theorem grant_inv {s : Ledger} (h : s.Inv) {size align lo hi : Nat} {P : MemoryCap → Prop}
    {r : Option MemoryCap × PhysAllocator} (hr : s.alloc.Outcome size align lo hi P r) :
    (s.grant r).Inv := by
  rcases hr with rfl | ⟨cap, hcap, hwf, hgr, hfits, -⟩
  · exact .of_teile h.wellFormed h.teile
  · obtain ⟨c, a'⟩ := r
    subst hcap
    refine .of_teile hwf ?_
    show Teile _ a'.freeSet _ _
    rw [hgr.free_after]
    exact h.teile.grant hgr.was_free hfits

theorem freeRegion_inv {s : Ledger} (h : s.Inv) {region : PhysRegion}
    (hmem : region ∈ s.vergeben) :
    Inv { s with
      alloc := (s.alloc.freeRegion region).2
      vergeben := s.vergeben.erase region } := by
  obtain ⟨hwf, hsub⟩ := insert_sub h.wellFormed (h.out_fits region hmem) (h.out_free region hmem)
  exact .of_teile hwf (h.teile.release hmem hsub)

theorem step_inv (s : Ledger) (op : Op) (h : s.Inv) (hok : s.OpOk op) :
    ∃ s', s.step op = some s' ∧ s'.Inv := by
  cases op with
  | addRegion base len => exact ⟨_, rfl, addRegion_inv h hok⟩
  | allocIn size align lo hi =>
    obtain ⟨hsize, k, hk, halign⟩ := hok
    exact ⟨_, rfl, grant_inv h (allocIn_outcome h.wellFormed hsize halign hk)⟩
  | allocColoredVorspannIn vorspann size align colors mask lo hi =>
    obtain ⟨hsize, k, hk, halign⟩ := hok
    exact ⟨_, rfl, grant_inv h (allocColoredVorspannIn_outcome h.wellFormed hsize halign hk)⟩
  | freeRegion region => exact ⟨_, rfl, freeRegion_inv h hok⟩

/-- The free list is sorted, non-empty and gap-separated, and the next allocation,
whatever its parameters, grants exactly what it should. -/
structure Sound (s : Ledger) : Prop where
  separated : Separated s.alloc.regions
  allocIn : ∀ size align k lo hi cap, size ≤ 2 ^ 63 → k ≤ 63 → align = 2 ^ k →
    (s.alloc.allocIn size align lo hi).1 = some cap →
    s.alloc.Granted (s.alloc.allocIn size align lo hi).2 size align lo hi cap
  allocColored : ∀ vorspann size align k colors mask lo hi cap,
    size ≤ 2 ^ 63 → k ≤ 63 → align = 2 ^ k →
    (s.alloc.allocColoredVorspannIn vorspann size align colors mask lo hi).1 = some cap →
    s.alloc.Granted (s.alloc.allocColoredVorspannIn vorspann size align colors mask lo hi).2
        size align lo hi cap ∧
      (1 < colors → Farbig cap.region.base cap.region.len vorspann colors mask)

theorem Inv.sound {s : Ledger} (h : s.Inv) : s.Sound where
  separated := h.wellFormed.separated
  allocIn := by
    intro size align k lo hi cap hsize hk halign hcap
    exact ((allocIn_outcome h.wellFormed hsize halign hk).granted hcap).1
  allocColored := by
    intro vorspann size align k colors mask lo hi cap hsize hk halign hcap
    exact (allocColoredVorspannIn_outcome h.wellFormed hsize halign hk).granted hcap

/-- Every run of registrations, allocations and releases leaves a sound allocator. -/
theorem run_sound (ops : List Op) (hops : Admissible step OpOk init ops) :
    ∃ s, run step init ops = some s ∧ s.Sound := by
  obtain ⟨s, hs, hinv⟩ := run_total step_inv init_inv hops
  exact ⟨s, hs, hinv.sound⟩

/-- Register 128 KiB, allocate two pages and give them back. -/
theorem run_sound_add_alloc_free :
    ∃ s, run step init [.addRegion 65536 131072, .allocIn 5000 4096 0 (2 ^ 63),
      .freeRegion ⟨65536, 8192⟩] = some s ∧ s.Sound := by
  apply run_sound
  refine ⟨⟨by decide, by simp [init]⟩, fun s₁ h₁ => ⟨⟨by decide, 12, by decide, by decide⟩,
    fun s₂ h₂ => ⟨?_, fun _ _ => trivial⟩⟩⟩
  obtain rfl := Option.some.inj h₁
  obtain rfl := Option.some.inj h₂
  unfold OpOk
  decide

end Ledger

end Caprock.Mem
