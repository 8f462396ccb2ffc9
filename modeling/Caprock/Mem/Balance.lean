import Caprock.Mem.Accounting

/-! # No byte is lost

Free bytes, bytes handed out and bytes registered are three sums.  They balance after every
step except one: `insert` refuses a region while the free list is full, also where the region
would merge with a neighbour, and the callers of `free_region` do not look at the answer.

The sums need neither disjoint regions nor reasonable requests: sizes and alignments are
arbitrary words.
-/

namespace Caprock.Mem

open Word Execution

def bytes (l : List PhysRegion) : Nat := (l.map PhysRegion.len).sum

@[simp] theorem bytes_nil : bytes [] = 0 := rfl

@[simp] theorem bytes_cons (r : PhysRegion) (l : List PhysRegion) :
    bytes (r :: l) = r.len + bytes l := by
  simp [bytes]

@[simp] theorem bytes_append (l m : List PhysRegion) : bytes (l ++ m) = bytes l + bytes m := by
  simp [bytes]

theorem bytes_erase {l : List PhysRegion} {r : PhysRegion} (h : r ∈ l) :
    r.len + bytes (l.erase r) = bytes l := by
  have hperm := (List.perm_cons_erase h).map PhysRegion.len
  rw [← bytes_cons]
  exact hperm.sum_eq.symm

/-- No end of a region wraps. -/
def Fits (l : List PhysRegion) : Prop := ∀ r ∈ l, r.base + r.len < 2 ^ 64

theorem bytes_insertSorted (r : PhysRegion) (l : List PhysRegion) :
    bytes (PhysAllocator.insertSorted r l) = r.len + bytes l := by
  induction l with
  | nil => simp [PhysAllocator.insertSorted]
  | cons x xs ih =>
    unfold PhysAllocator.insertSorted
    split
    · rw [bytes_cons, ih, bytes_cons]
      omega
    · rw [bytes_cons]

theorem fits_insertSorted {r : PhysRegion} {l : List PhysRegion} (hr : r.base + r.len < 2 ^ 64)
    (hl : Fits l) : Fits (PhysAllocator.insertSorted r l) := by
  intro s hs
  obtain rfl | hs := mem_insertSorted.mp hs
  · exact hr
  · exact hl s hs

/-- Merging two neighbours wraps nowhere: the merged entry ends where the second one ended. -/
theorem bytes_coalesceFrom (x : PhysRegion) (l : List PhysRegion) (h : Fits (x :: l)) :
    bytes (PhysAllocator.coalesceFrom x l) = x.len + bytes l ∧
      Fits (PhysAllocator.coalesceFrom x l) := by
  induction l generalizing x with
  | nil => exact ⟨by simp [PhysAllocator.coalesceFrom], h⟩
  | cons y rest ih =>
    have hx : x.base + x.len < 2 ^ 64 := h x List.mem_cons_self
    have hy : y.base + y.len < 2 ^ 64 := h y (.tail _ List.mem_cons_self)
    have hrest : Fits rest := fun s hs => h s (.tail _ (.tail _ hs))
    unfold PhysAllocator.coalesceFrom
    by_cases heq : x.fin = y.base
    · rw [if_pos heq]
      rw [PhysRegion.fin_eq hx] at heq
      have hlen : wadd x.len y.len = x.len + y.len := wadd_eq (by omega)
      have hmerged : Fits (⟨x.base, wadd x.len y.len⟩ :: rest) := by
        intro s hs
        obtain rfl | hs := List.mem_cons.mp hs
        · show x.base + wadd x.len y.len < 2 ^ 64
          omega
        · exact hrest s hs
      obtain ⟨hsum, hfits⟩ := ih _ hmerged
      refine ⟨?_, hfits⟩
      rw [hsum, bytes_cons]
      show wadd x.len y.len + bytes rest = x.len + (y.len + bytes rest)
      omega
    · rw [if_neg heq]
      obtain ⟨hsum, hfits⟩ := ih y fun s hs => h s (.tail _ hs)
      refine ⟨by rw [bytes_cons, hsum, bytes_cons], ?_⟩
      intro s hs
      obtain rfl | hs := List.mem_cons.mp hs
      · exact hx
      · exact hfits s hs

theorem bytes_coalesce {l : List PhysRegion} (h : Fits l) :
    bytes (PhysAllocator.coalesce l) = bytes l ∧ Fits (PhysAllocator.coalesce l) := by
  cases l with
  | nil => exact ⟨rfl, h⟩
  | cons x l =>
    rw [bytes_cons]
    exact bytes_coalesceFrom x l h

namespace PhysAllocator

def freieBytes (a : PhysAllocator) : Nat := bytes a.regions

structure Buchbar (a : PhysAllocator) : Prop where
  fits : Fits a.regions
  len_le : a.len ≤ maxFragments

/-- Would `insert` take the region? -/
def Platz (a : PhysAllocator) (r : PhysRegion) : Prop := r.len = 0 ∨ a.len < maxFragments

instance (a : PhysAllocator) (r : PhysRegion) : Decidable (a.Platz r) :=
  inferInstanceAs (Decidable (_ ∨ _))

theorem insert_platz {a : PhysAllocator} (h : a.Buchbar) {r : PhysRegion}
    (hr : r.base + r.len < 2 ^ 64) (hplatz : a.Platz r) :
    (a.insert r).1 = true ∧ (a.insert r).2.Buchbar ∧
      (a.insert r).2.len ≤ a.len + (if r.len = 0 then 0 else 1) ∧
      (a.insert r).2.freieBytes = r.len + a.freieBytes := by
  unfold insert
  by_cases hempty : r.len = 0
  · rw [if_pos hempty, if_pos hempty, hempty]
    exact ⟨rfl, h, Nat.le_refl _, (Nat.zero_add _).symm⟩
  · have hroom : a.len < maxFragments := hplatz.resolve_left hempty
    rw [if_neg hempty, if_neg hempty, if_neg (Nat.not_le.mpr hroom)]
    obtain ⟨hsum, hfits⟩ := bytes_coalesce (fits_insertSorted hr h.fits)
    have hlen : (coalesce (insertSorted r a.regions)).length ≤ a.len + 1 := by
      have hle := length_coalesce_le (insertSorted r a.regions)
      rwa [length_insertSorted] at hle
    refine ⟨rfl, ⟨hfits, ?_⟩, hlen, ?_⟩
    · show (coalesce (insertSorted r a.regions)).length ≤ maxFragments
      omega
    · show bytes (coalesce (insertSorted r a.regions)) = r.len + bytes a.regions
      rw [hsum, bytes_insertSorted]

theorem insert_voll {a : PhysAllocator} {r : PhysRegion} (h : ¬ a.Platz r) :
    a.insert r = (false, a) := by
  obtain ⟨hne, hfull⟩ := not_or.mp h
  rw [insert, if_neg hne, if_pos (Nat.le_of_not_lt hfull)]

/-- A place where a region may be cut out of fragment `i`. -/
structure Schnitt (a : PhysAllocator) (size i start : Nat) : Prop where
  cut : ∃ r, a.regions[i]? = some r ∧ r.base ≤ start ∧ start + size ≤ r.base + r.len ∧
    ¬ a.keinPlatzFuerRest r start (start + size)

theorem carve_bytes {a : PhysAllocator} (h : a.Buchbar) {size i start : Nat}
    (hcut : a.Schnitt size i start) :
    (a.carve i start size).1 = some ⟨⟨start, size⟩, Rights.rw⟩ ∧ start + size < 2 ^ 64 ∧
      (a.carve i start size).2.Buchbar ∧
      size + (a.carve i start size).2.freieBytes = a.freieBytes := by
  obtain ⟨r, hr, hlo, hhi, hrest⟩ := hcut.cut
  have hfits : r.base + r.len < 2 ^ 64 := h.fits r (List.mem_of_getElem? hr)
  have hfin : r.fin = r.base + r.len := PhysRegion.fin_eq hfits
  have he : wadd start size = start + size := wadd_eq (by omega)
  have hpre : wsub start r.base = start - r.base := wsub_eq (by omega) hlo
  have hsuf : wsub r.fin (start + size) = r.base + r.len - (start + size) := by
    rw [hfin]
    exact wsub_eq (by omega) hhi
  obtain ⟨l₁, l₂, hl, herase⟩ := exists_split_of_getElem? hr
  have hlen : (a.remove i).len + 1 = a.len := by
    unfold len remove
    rw [herase, hl]
    simp only [List.length_append, List.length_cons]
    omega
  have hsum : r.len + (a.remove i).freieBytes = a.freieBytes := by
    unfold freieBytes remove
    rw [herase, hl]
    simp only [bytes_append, bytes_cons]
    omega
  have hmax := h.len_le
  have hbuch : (a.remove i).Buchbar := by
    refine ⟨fun s hs => h.fits s ?_, by omega⟩
    exact List.mem_of_mem_eraseIdx hs
  obtain ⟨-, hbuch₁, hlen₁, hsum₁⟩ := insert_platz hbuch (r := ⟨r.base, start - r.base⟩)
    (show r.base + (start - r.base) < 2 ^ 64 by omega) (.inr (by omega))
  have hplatz : ((a.remove i).insert ⟨r.base, start - r.base⟩).2.Platz
      ⟨start + size, r.base + r.len - (start + size)⟩ := by
    by_cases hsufzero : r.base + r.len - (start + size) = 0
    · exact .inl hsufzero
    right
    by_cases hprezero : start - r.base = 0
    · rw [if_pos hprezero] at hlen₁
      omega
    · rw [if_neg hprezero] at hlen₁
      -- A remainder on both sides is only cut while the list has room for one more.
      have hroom : ¬ maxFragments ≤ a.len := by
        intro hfull
        apply hrest
        exact ⟨⟨by omega, by rw [hfin]; omega⟩, hfull⟩
      omega
  obtain ⟨-, hbuch₂, -, hsum₂⟩ := insert_platz hbuch₁ (r := ⟨start + size, _⟩)
    (show start + size + (r.base + r.len - (start + size)) < 2 ^ 64 by omega) hplatz
  simp only [carve, hr, he, hpre, hsuf]
  refine ⟨trivial, by omega, hbuch₂, ?_⟩
  rw [hsum₂, hsum₁]
  dsimp only
  omega

/-- Nothing was found, or a region is cut out at a place where it may be. -/
def Zugeschnitten (a : PhysAllocator) (res : Option MemoryCap × PhysAllocator) : Prop :=
  res = (none, a) ∨ ∃ size i start, a.Schnitt size i start ∧ res = a.carve i start size

def Umgebucht (a : PhysAllocator) (res : Option MemoryCap × PhysAllocator) : Prop :=
  res = (none, a) ∨ ∃ cap, res.1 = some cap ∧ cap.region.base + cap.region.len < 2 ^ 64 ∧
    res.2.Buchbar ∧ cap.region.len + res.2.freieBytes = a.freieBytes

theorem Zugeschnitten.umgebucht {a : PhysAllocator} {res : Option MemoryCap × PhysAllocator}
    (hz : a.Zugeschnitten res) (h : a.Buchbar) : a.Umgebucht res := by
  rcases hz with rfl | ⟨size, i, start, hcut, rfl⟩
  · exact .inl rfl
  · obtain ⟨hcap, hlt, hbuch, hsum⟩ := carve_bytes h hcut
    exact .inr ⟨_, hcap, hlt, hbuch, hsum⟩

theorem zugeschnitten_allocIn {a : PhysAllocator} (h : Fits a.regions) (size align lo hi : Nat) :
    a.Zugeschnitten (a.allocIn size align lo hi) := by
  unfold allocIn
  dsimp only
  split
  · exact .inl rfl
  · next i start n hbest =>
    obtain ⟨r, hr, -, -, hbase, hend, hrest⟩ := foldl_bestIn_spec hbest
    have hfin : r.fin = r.base + r.len := PhysRegion.fin_eq (h r (List.mem_of_getElem? hr))
    dsimp only at hbase hend
    exact .inr ⟨_, _, _, ⟨r, hr, hbase, by omega, hrest⟩, rfl⟩

def RundetAuf (a : PhysAllocator) (align lo hi : Nat) : Prop :=
  ∀ r ∈ a.regions, max r.base lo < min r.fin hi →
    r.base ≤ alignUp (max r.base lo) (max align page)

/-- Either no colour is searched for, or rounding up stays in the fragments. -/
def FarbigOk (a : PhysAllocator) (align colors : Nat) (mask : ColorMask) (lo hi : Nat) : Prop :=
  mask.isEmpty = true ∨ (colors ≤ 1 ∨ mask = ColorMask.all) ∨ a.RundetAuf align lo hi

theorem zugeschnitten_allocColored {a : PhysAllocator} (h : Fits a.regions) (vorspann size : Nat)
    {align colors lo hi : Nat} {mask : ColorMask} (hok : a.FarbigOk align colors mask lo hi) :
    a.Zugeschnitten (a.allocColoredVorspannIn vorspann size align colors mask lo hi) := by
  unfold allocColoredVorspannIn
  by_cases hempty : mask.isEmpty = true
  · rw [if_pos hempty]
    exact .inl rfl
  rw [if_neg hempty]
  by_cases hplain : colors ≤ 1 ∨ mask = ColorMask.all
  · rw [if_pos hplain]
    exact zugeschnitten_allocIn h size align lo hi
  rw [if_neg hplain]
  have hrund : a.RundetAuf align lo hi := (hok.resolve_left hempty).resolve_left hplain
  dsimp only
  split
  · exact .inl rfl
  split
  · exact .inl rfl
  split
  · exact .inl rfl
  · next i start hbest =>
    obtain ⟨r, hr, hzone, hs, hrest⟩ := foldl_bestFarbigIn_spec hbest
    have hmem := List.mem_of_getElem? hr
    have hfin : r.fin = r.base + r.len := PhysRegion.fin_eq (h r hmem)
    have hle := hrund r hmem (Nat.lt_of_not_le hzone)
    obtain ⟨hstart, hend, -, -⟩ := farbigerStart_spec hs
    exact .inr ⟨_, _, _, ⟨r, hr, by omega, by omega, hrest⟩, rfl⟩

end PhysAllocator

/-- The allocator with the regions handed out and the bytes it accepted from `add_region`. -/
structure Bilanz where
  alloc : PhysAllocator
  vergeben : List PhysRegion
  ram : Nat
  deriving DecidableEq

namespace Bilanz

open PhysAllocator Ledger

def init : Bilanz := ⟨PhysAllocator.new, [], 0⟩

def grant (s : Bilanz) : Option MemoryCap × PhysAllocator → Bilanz
  | (none, a) => { s with alloc := a }
  | (some cap, a) => { s with alloc := a, vergeben := cap.region :: s.vergeben }

/-- The finalisation drops its region whatever `free_region` answers. -/
def step (s : Bilanz) : Op → Option Bilanz
  | .addRegion base len =>
      some { s with
        alloc := (s.alloc.addRegion base len).2
        ram := s.ram + if (s.alloc.addRegion base len).1 then len else 0 }
  | .allocIn size align lo hi => some (s.grant (s.alloc.allocIn size align lo hi))
  | .allocColoredVorspannIn vorspann size align colors mask lo hi =>
      some (s.grant (s.alloc.allocColoredVorspannIn vorspann size align colors mask lo hi))
  | .freeRegion region =>
      some { s with
        alloc := (s.alloc.freeRegion region).2
        vergeben := s.vergeben.erase region }

/-- Registered regions do not wrap, and only what is handed out is released. -/
def OpOk (s : Bilanz) : Op → Prop
  | .addRegion base len => base + len < 2 ^ 64
  | .allocIn .. => True
  | .allocColoredVorspannIn .. => True
  | .freeRegion region => region ∈ s.vergeben

/-- The steps that keep the balance. -/
def Bedingung (s : Bilanz) : Op → Prop
  | .addRegion .. => True
  | .allocIn .. => True
  | .allocColoredVorspannIn _ _ align colors mask lo hi => s.alloc.FarbigOk align colors mask lo hi
  | .freeRegion region => s.alloc.Platz region

/-- Free bytes and bytes handed out are the bytes registered. -/
def Ausgeglichen (s : Bilanz) : Prop := s.alloc.freieBytes + bytes s.vergeben = s.ram

structure Inv (s : Bilanz) : Prop where
  buchbar : s.alloc.Buchbar
  fits : Fits s.vergeben
  ausgeglichen : s.Ausgeglichen

theorem init_inv : init.Inv where
  buchbar := ⟨by simp [Fits, init, PhysAllocator.new], by decide⟩
  fits := by simp [Fits, init]
  ausgeglichen := rfl

theorem Inv.addRegion {s : Bilanz} (h : s.Inv) {base len : Nat} (hfits : base + len < 2 ^ 64) :
    Inv { s with
      alloc := (s.alloc.addRegion base len).2
      ram := s.ram + if (s.alloc.addRegion base len).1 then len else 0 } := by
  have hsum : s.alloc.freieBytes + bytes s.vergeben = s.ram := h.ausgeglichen
  unfold PhysAllocator.addRegion
  by_cases hplatz : s.alloc.Platz ⟨base, len⟩
  · obtain ⟨htrue, hbuch, -, hbytes⟩ := insert_platz h.buchbar hfits hplatz
    refine ⟨hbuch, h.fits, ?_⟩
    show _ + bytes s.vergeben = s.ram + _
    rw [htrue, if_pos rfl, hbytes]
    dsimp only
    omega
  · rw [insert_voll hplatz]
    exact ⟨h.buchbar, h.fits, hsum⟩

theorem Inv.grant {s : Bilanz} (h : s.Inv) {res : Option MemoryCap × PhysAllocator}
    (hres : s.alloc.Umgebucht res) : (s.grant res).Inv := by
  have hsum : s.alloc.freieBytes + bytes s.vergeben = s.ram := h.ausgeglichen
  obtain rfl | ⟨cap, hcap, hlt, hbuch, hbytes⟩ := hres
  · exact ⟨h.buchbar, h.fits, hsum⟩
  · obtain ⟨c, a⟩ := res
    dsimp only at hcap hbuch hbytes
    subst hcap
    refine ⟨hbuch, ?_, ?_⟩
    · intro r hr
      obtain rfl | hr := List.mem_cons.mp hr
      · exact hlt
      · exact h.fits r hr
    · show a.freieBytes + bytes (cap.region :: s.vergeben) = s.ram
      rw [bytes_cons]
      omega

theorem Inv.freeRegion {s : Bilanz} (h : s.Inv) {region : PhysRegion} (hmem : region ∈ s.vergeben)
    (hplatz : s.alloc.Platz region) :
    Inv { s with
      alloc := (s.alloc.freeRegion region).2
      vergeben := s.vergeben.erase region } := by
  have hsum : s.alloc.freieBytes + bytes s.vergeben = s.ram := h.ausgeglichen
  have hout := bytes_erase hmem
  obtain ⟨-, hbuch, -, hbytes⟩ := insert_platz h.buchbar (h.fits region hmem) hplatz
  refine ⟨hbuch, fun r hr => h.fits r (List.mem_of_mem_erase hr), ?_⟩
  show (s.alloc.insert region).2.freieBytes + bytes (s.vergeben.erase region) = s.ram
  omega

theorem step_inv (s : Bilanz) (op : Op) (h : s.Inv) (hok : s.OpOk op ∧ s.Bedingung op) :
    ∃ s', s.step op = some s' ∧ s'.Inv := by
  obtain ⟨hdom, hbed⟩ := hok
  cases op with
  | addRegion base len => exact ⟨_, rfl, h.addRegion hdom⟩
  | allocIn size align lo hi => exact ⟨_, rfl, h.grant ((zugeschnitten_allocIn h.buchbar.fits ..).umgebucht h.buchbar)⟩
  | allocColoredVorspannIn vorspann size align colors mask lo hi =>
    exact ⟨_, rfl, h.grant
      ((zugeschnitten_allocColored h.buchbar.fits _ _ hbed).umgebucht h.buchbar)⟩
  | freeRegion region => exact ⟨_, rfl, h.freeRegion hdom hbed⟩

theorem Inv.refused {s : Bilanz} (h : s.Inv) {region : PhysRegion} (hmem : region ∈ s.vergeben)
    (hplatz : ¬ s.alloc.Platz region) :
    (s.alloc.freeRegion region).1 = false ∧
      ∃ s', s.step (.freeRegion region) = some s' ∧ ¬ s'.Ausgeglichen := by
  have hsum : s.alloc.freieBytes + bytes s.vergeben = s.ram := h.ausgeglichen
  have hout := bytes_erase hmem
  have hvoll := insert_voll hplatz
  have hpos : region.len ≠ 0 := (not_or.mp hplatz).1
  refine ⟨by rw [PhysAllocator.freeRegion, hvoll], _, rfl, ?_⟩
  show ¬ (s.alloc.insert region).2.freieBytes + bytes (s.vergeben.erase region) = s.ram
  rw [hvoll]
  dsimp only
  omega

/-- **No byte is lost** while no region is released into a full list; the next release
keeps the balance exactly if there is room. -/
theorem run_bilanz (ops : List Op)
    (hops : Admissible step (fun s op => s.OpOk op ∧ s.Bedingung op) init ops) :
    ∃ s, run step init ops = some s ∧ s.Ausgeglichen ∧
      ∀ region ∈ s.vergeben,
        ((s.alloc.freeRegion region).1 = true ↔ s.alloc.Platz region) ∧
        ((∃ s', s.step (.freeRegion region) = some s' ∧ s'.Ausgeglichen) ↔
          s.alloc.Platz region) := by
  obtain ⟨s, hs, hinv⟩ := run_total step_inv init_inv hops
  refine ⟨s, hs, hinv.ausgeglichen, fun region hmem => ?_⟩
  by_cases hplatz : s.alloc.Platz region
  · have htrue := (insert_platz hinv.buchbar (hinv.fits region hmem) hplatz).1
    simp only [hplatz, iff_true]
    exact ⟨htrue, _, rfl, (hinv.freeRegion hmem hplatz).ausgeglichen⟩
  · obtain ⟨hfalse, s', hs', hnot⟩ := hinv.refused hmem hplatz
    simp only [hplatz, iff_false]
    refine ⟨by rw [hfalse]; exact Bool.false_ne_true, ?_⟩
    rintro ⟨t, ht, hbal⟩
    rw [hs'] at ht
    cases ht
    exact hnot hbal

/-- Register 128 KiB, allocate two pages and give them back. -/
theorem run_bilanz_add_alloc_free :
    ∃ s, run step init [.addRegion 65536 131072, .allocIn 5000 4096 0 (2 ^ 63),
      .freeRegion ⟨65536, 8192⟩] = some s ∧ s.Ausgeglichen := by
  obtain ⟨s, hs, hbal, -⟩ := run_bilanz [.addRegion 65536 131072, .allocIn 5000 4096 0 (2 ^ 63),
      .freeRegion ⟨65536, 8192⟩] (by
    refine ⟨⟨by unfold OpOk; decide, trivial⟩, fun s₁ h₁ => ⟨⟨trivial, trivial⟩,
      fun s₂ h₂ => ⟨?_, fun _ _ => trivial⟩⟩⟩
    obtain rfl := Option.some.inj h₁
    obtain rfl := Option.some.inj h₂
    unfold OpOk Bedingung
    decide)
  exact ⟨s, hs, hbal⟩

/-- Base of the `n`-th fragment counted from the highest one. -/
def basis (n : Nat) : Nat := (2000 - n) * 12288

theorem basis_succ {n : Nat} (hn : n < 1024) : basis n = basis (n + 1) + 12288 := by
  unfold basis
  omega

theorem basis_lt (n : Nat) : basis n + 12288 < 2 ^ 64 := by
  unfold basis
  omega

def streifen : Nat → List PhysRegion
  | 0 => []
  | n + 1 => ⟨basis n, 8192⟩ :: streifen n

/-- Registers the fragments, the highest first.  A run of a thousand steps is argued about, not
computed. -/
@[irreducible] def fuellen (n : Nat) : List Op :=
  (List.range n).map fun k => .addRegion (basis k) 8192

theorem fuellen_succ (n : Nat) : fuellen (n + 1) = fuellen n ++ [.addRegion (basis n) 8192] := by
  simp [fuellen, List.range_succ]

theorem streifen_length (n : Nat) : (streifen n).length = n := by
  induction n with
  | zero => rfl
  | succ n ih => rw [streifen, List.length_cons, ih]

theorem mem_streifen {n : Nat} {r : PhysRegion} (h : r ∈ streifen n) :
    r.len = 8192 ∧ r.base + 8192 < 2 ^ 64 := by
  induction n with
  | zero => cases h
  | succ n ih =>
    obtain rfl | h := List.mem_cons.mp h
    · have hlt := basis_lt n
      exact ⟨rfl, by dsimp only; omega⟩
    · exact ih h

theorem einreihen_vorn {n : Nat} {r : PhysRegion} (hn : n ≤ 1024)
    (hlt : r.base + r.len < basis n + 12288) :
    coalesce (insertSorted r (streifen n)) = r :: streifen n := by
  induction n generalizing r with
  | zero => rfl
  | succ n ih =>
    have hbasis := basis_succ (n := n) (by omega)
    have hend := basis_lt (n + 1)
    have hbase : ¬ basis n < r.base := by omega
    have hfin : r.fin ≠ basis n := by
      rw [PhysRegion.fin_eq (by omega)]
      omega
    have hrest := ih (r := ⟨basis n, 8192⟩) (by omega) (by dsimp only; omega)
    rw [streifen, insertSorted, if_neg hbase, coalesce, coalesceFrom, if_neg hfin]
    congr 1
    cases n with
    | zero => rfl
    | succ n =>
      have hvorn : ¬ basis n < basis (n + 1) := by
        have hnext := basis_succ (n := n) (by omega)
        omega
      rwa [streifen, insertSorted, if_neg hvorn, coalesce] at hrest

theorem run_fuellen {n : Nat} (hn : n ≤ 1024) :
    run step init (fuellen n) = some ⟨⟨streifen n⟩, [], n * 8192⟩ := by
  induction n with
  | zero =>
    rw [fuellen]
    rfl
  | succ n ih =>
    have hfull : ¬ maxFragments ≤ (PhysAllocator.mk (streifen n)).len := by
      rw [PhysAllocator.len, streifen_length, maxFragments]
      omega
    have hins : (PhysAllocator.mk (streifen n)).addRegion (basis n) 8192 =
        (true, ⟨streifen (n + 1)⟩) := by
      rw [PhysAllocator.addRegion, PhysAllocator.insert, if_neg (Nat.succ_ne_zero 8191), if_neg hfull,
        einreihen_vorn (by omega) (by dsimp only; omega)]
      rfl
    have hstep : step ⟨⟨streifen n⟩, [], n * 8192⟩ (.addRegion (basis n) 8192) =
        some ⟨⟨streifen (n + 1)⟩, [], n * 8192 + 8192⟩ := by
      rw [step, hins]
      rfl
    rw [fuellen_succ, run_append, ih (by omega), Option.bind_some, run_cons_of_step hstep, run_nil,
      Nat.succ_mul]

theorem bestIn_streifen {n : Nat} (i j start : Nat) :
    (PhysAllocator.mk (streifen n)).bestIn 4096 4096 0 (2 ^ 64 - 1) (some (j, start, 8192)) i =
      some (j, start, 8192) := by
  unfold bestIn
  cases hr : (PhysAllocator.mk (streifen n)).regions[i]? with
  | none => rfl
  | some r =>
    obtain ⟨hlen, hfits⟩ := mem_streifen (List.mem_of_getElem? hr)
    have hfin : r.fin = r.base + r.len := PhysRegion.fin_eq (by omega)
    have hnutzbar : ¬ min r.fin (2 ^ 64 - 1) - max r.base 0 < 8192 := by omega
    dsimp only
    split
    · rfl
    · split
      · rfl
      · simp only [Option.all_some, decide_eq_true_eq, hnutzbar, if_false, ite_self]

/-- A page from the full list: the lowest fragment is cut, and the list stays full. -/
theorem allocIn_streifen :
    (PhysAllocator.mk (streifen 1024)).allocIn 4096 4096 0 (2 ^ 64 - 1) =
      (some ⟨⟨basis 1023, 4096⟩, Rights.rw⟩,
        ⟨⟨basis 1023 + 4096, 4096⟩ :: streifen 1023⟩) := by
  have hlen : (PhysAllocator.mk (streifen 1024)).len = 1023 + 1 := streifen_length 1024
  have hfirst : (PhysAllocator.mk (streifen 1024)).bestIn 4096 4096 0 (2 ^ 64 - 1) none 0 =
      some (0, basis 1023, 8192) := rfl
  have hbest : (List.range (PhysAllocator.mk (streifen 1024)).len).foldl
      ((PhysAllocator.mk (streifen 1024)).bestIn 4096 4096 0 (2 ^ 64 - 1)) none =
      some (0, basis 1023, 8192) := by
    rw [hlen, List.range_succ_eq_map, List.foldl_cons, hfirst]
    exact List.foldl_fixed' (fun i => bestIn_streifen i 0 _) _
  have hpre : (PhysAllocator.mk (streifen 1023)).insert ⟨basis 1023, 0⟩ =
      (true, ⟨streifen 1023⟩) := rfl
  have hsuf : (PhysAllocator.mk (streifen 1023)).insert ⟨basis 1023 + 4096, 4096⟩ =
      (true, ⟨⟨basis 1023 + 4096, 4096⟩ :: streifen 1023⟩) := by
    have hroom : ¬ maxFragments ≤ (PhysAllocator.mk (streifen 1023)).len := by
      rw [PhysAllocator.len, streifen_length, maxFragments]
      omega
    rw [PhysAllocator.insert, if_neg (Nat.succ_ne_zero 4095), if_neg hroom,
      einreihen_vorn (by omega) (by decide)]
  have halign : max 4096 page = 4096 := by decide
  have hsize : alignUp (max 4096 1) page = 4096 := by decide
  rw [allocIn, halign, hsize, hbest]
  have hcarve : (PhysAllocator.mk (streifen 1024)).regions[0]? = some ⟨basis 1023, 8192⟩ := rfl
  have he : wadd (basis 1023) 4096 = basis 1023 + 4096 := by decide
  have hprelen : wsub (basis 1023) (basis 1023) = 0 := by decide
  have hsuflen : wsub (PhysRegion.mk (basis 1023) 8192).fin (basis 1023 + 4096) = 4096 := by decide
  have hremove : (PhysAllocator.mk (streifen 1024)).remove 0 = ⟨streifen 1023⟩ := rfl
  simp only [carve, hcarve, he, hprelen, hsuflen, hremove, hpre, hsuf]

theorem bytes_streifen (n : Nat) : bytes (streifen n) = n * 8192 := by
  induction n with
  | zero => rfl
  | succ n ih =>
    rw [streifen, bytes_cons, ih]
    dsimp only
    omega

theorem admissible_fuellen {n : Nat} (hn : n ≤ 1024) : Admissible step OpOk init (fuellen n) := by
  induction n with
  | zero =>
    rw [fuellen]
    trivial
  | succ n ih =>
    have hlt := basis_lt n
    have hok : basis n + 8192 < 2 ^ 64 := by omega
    rw [fuellen_succ]
    exact (ih (by omega)).append fun t _ => ⟨hok, fun _ _ => trivial⟩

/-- 1024 separate fragments are registered, one page is allocated and given back: it is
refused, although it touches the fragment that it came from, and 4096 bytes are in no list. -/
theorem run_full_list_loses_page : ∃ ops t,
    ops = fuellen 1024 ++ [.allocIn 4096 4096 0 (2 ^ 64 - 1), .freeRegion ⟨basis 1023, 4096⟩] ∧
    Admissible step OpOk init ops ∧ run step init ops = some t ∧ t.vergeben = [] ∧
    t.alloc.freieBytes + 4096 = t.ram ∧ ¬ t.Ausgeglichen := by
  let s : Bilanz := ⟨⟨streifen 1024⟩, [], 1024 * 8192⟩
  let a : PhysAllocator := ⟨⟨basis 1023 + 4096, 4096⟩ :: streifen 1023⟩
  let s' : Bilanz := ⟨a, [⟨basis 1023, 4096⟩], 1024 * 8192⟩
  have hfuell : run step init (fuellen 1024) = some s := run_fuellen (Nat.le_refl _)
  have halloc : step s (.allocIn 4096 4096 0 (2 ^ 64 - 1)) = some s' := by
    rw [step]
    exact congrArg (fun res => some (s.grant res)) allocIn_streifen
  have hvoll : ¬ a.Platz ⟨basis 1023, 4096⟩ := by
    rintro (hzero | hroom)
    · cases hzero
    · rw [PhysAllocator.len, List.length_cons, streifen_length, maxFragments] at hroom
      omega
  have hfree : step s' (.freeRegion ⟨basis 1023, 4096⟩) = some ⟨a, [], 1024 * 8192⟩ := by
    rw [step, PhysAllocator.freeRegion, insert_voll hvoll]
    rfl
  have hbytes : a.freieBytes = 4096 + 1023 * 8192 := by
    show bytes (⟨basis 1023 + 4096, 4096⟩ :: streifen 1023) = _
    rw [bytes_cons, bytes_streifen]
  have hadm : Admissible step OpOk init (fuellen 1024) :=
    admissible_fuellen (n := 1024) (by omega)
  refine ⟨_, ⟨a, [], 1024 * 8192⟩, rfl, ?_, ?_, rfl, ?_, ?_⟩
  · apply Admissible.append hadm
    intro t ht
    obtain rfl : s = t := Option.some.inj (hfuell.symm.trans ht)
    refine ⟨trivial, fun s₁ h₁ => ⟨?_, fun _ _ => trivial⟩⟩
    obtain rfl : s' = s₁ := Option.some.inj (halloc.symm.trans h₁)
    exact List.mem_cons_self
  · rw [run_append, hfuell, Option.bind_some, run_cons_of_step halloc, run_cons_of_step hfree,
      run_nil]
  · show a.freieBytes + 4096 = 1024 * 8192
    rw [hbytes]
  · show ¬ a.freieBytes + bytes [] = 1024 * 8192
    rw [hbytes, bytes_nil]
    omega

end Bilanz

end Caprock.Mem
