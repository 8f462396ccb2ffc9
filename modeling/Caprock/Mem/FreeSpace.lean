import Caprock.Mem.Balance

/-! # Free-space queries

`fully_free` looks for one fragment around the whole range, so it answers for the free
bytes only while no two fragments touch.  The run below keeps, beside the allocator, the
bytes that its history leaves free: what a registration or a release brought in, less what
an allocation took out.  While the free list denotes these bytes and is merged, both
queries are exact.
-/

namespace Caprock.Mem

open Word Execution

namespace PhysAllocator

def saturatingAdd (a b : Nat) : Nat := min (a + b) (2 ^ 64 - 1)

def fullyFree (a : PhysAllocator) (base len : Nat) : Bool :=
  if len = 0 then true
  else
    match checkedAdd base len with
    | none => false
    | some e => a.regions.any fun r => decide (r.base ≤ base) && decide (e ≤ r.fin)

def overlapsFree (a : PhysAllocator) (base len : Nat) : Bool :=
  if len = 0 then false
  else
    a.regions.any fun r =>
      decide (base < wadd r.base r.len) && decide (r.base < saturatingAdd base len)

theorem gap_cases {L : Nat} {l : List PhysRegion} (h : SeparatedUpTo L l) {r s : PhysRegion}
    (hr : r ∈ l) (hs : s ∈ l) :
    r = s ∨ r.base + r.len < s.base ∨ s.base + s.len < r.base := by
  refine List.Pairwise.forall_of_forall_of_flip
    (R := fun r s => r = s ∨ r.base + r.len < s.base ∨ s.base + s.len < r.base) ?_ ?_ ?_ hr hs
  · exact fun r _ => .inl rfl
  · exact h.sorted.imp fun hlt => .inr (.inl hlt)
  · exact h.sorted.imp fun hlt => .inr (.inr hlt)

theorem fin_not_free {L : Nat} {a : PhysAllocator} (h : a.WellFormedUpTo L) {r : PhysRegion}
    (hr : r ∈ a.regions) : r.base + r.len ∉ a.freeSet := by
  rintro ⟨s, hs, hin⟩
  simp only [PhysRegion.mem_addrs] at hin
  rcases gap_cases h.separated hr hs with rfl | hlt | hlt
  · omega
  · omega
  · omega

section

variable {L : Nat} (hL : L < 2 ^ 64) {a : PhysAllocator} (h : a.WellFormedUpTo L)

include hL h

theorem fin_eq_of_mem {r : PhysRegion} (hr : r ∈ a.regions) : r.fin = r.base + r.len :=
  PhysRegion.fin_eq (Nat.lt_of_le_of_lt (h.separated.fits r hr) hL)

theorem fullyFree_iff {base len : Nat} (hfits : base + len < 2 ^ 64) :
    a.fullyFree base len = true ↔ ∀ x, base ≤ x → x < base + len → x ∈ a.freeSet := by
  unfold fullyFree
  by_cases hlen : len = 0
  · rw [if_pos hlen]
    refine ⟨fun _ x hlo hhi => ?_, fun _ => rfl⟩
    omega
  · rw [if_neg hlen, checkedAdd_eq hfits]
    rw [List.any_eq_true]
    constructor
    · rintro ⟨r, hr, hin⟩ x hlo hhi
      simp only [Bool.and_eq_true, decide_eq_true_eq, fin_eq_of_mem hL h hr] at hin
      exact ⟨r, hr, by omega, by omega⟩
    · intro hall
      obtain ⟨r, hr, hin⟩ := hall base (Nat.le_refl _) (by omega)
      simp only [PhysRegion.mem_addrs] at hin
      refine ⟨r, hr, ?_⟩
      simp only [Bool.and_eq_true, decide_eq_true_eq, fin_eq_of_mem hL h hr]
      refine ⟨hin.1, ?_⟩
      -- Otherwise the range covers the gap behind the fragment it begins in.
      by_contra hover
      exact fin_not_free h hr (hall _ (by omega) (by omega))

theorem overlapsFree_iff {base len : Nat} (hfits : base + len < 2 ^ 64) :
    a.overlapsFree base len = true ↔ ∃ x, base ≤ x ∧ x < base + len ∧ x ∈ a.freeSet := by
  have hsat : saturatingAdd base len = base + len := Nat.min_eq_left (by omega)
  unfold overlapsFree
  by_cases hlen : len = 0
  · rw [if_pos hlen]
    constructor
    · intro hfalse
      cases hfalse
    · rintro ⟨x, hlo, hhi, -⟩
      omega
  · rw [if_neg hlen, List.any_eq_true, hsat]
    constructor
    · rintro ⟨r, hr, hin⟩
      have hpos := h.separated.pos r hr
      have hfin : wadd r.base r.len = r.base + r.len := fin_eq_of_mem hL h hr
      simp only [Bool.and_eq_true, decide_eq_true_eq, hfin] at hin
      exact ⟨max base r.base, by omega, by omega, r, hr, by omega, by omega⟩
    · rintro ⟨x, hlo, hhi, r, hr, hin⟩
      simp only [PhysRegion.mem_addrs] at hin
      have hfin : wadd r.base r.len = r.base + r.len := fin_eq_of_mem hL h hr
      refine ⟨r, hr, ?_⟩
      simp only [Bool.and_eq_true, decide_eq_true_eq, hfin]
      omega

end

theorem Schnitt.spec {L : Nat} (hL : L < 2 ^ 64) {a : PhysAllocator} (h : a.WellFormedUpTo L)
    {size i start : Nat} (hcut : a.Schnitt size i start) :
    (a.carve i start size).1 = some ⟨⟨start, size⟩, Rights.rw⟩ ∧
      (a.carve i start size).2.WellFormedUpTo L ∧ start + size ≤ L ∧
      (PhysRegion.addrs ⟨start, size⟩) ⊆ a.freeSet ∧
      (a.carve i start size).2.freeSet = a.freeSet \ PhysRegion.addrs ⟨start, size⟩ := by
  obtain ⟨r, hr, hlo, hhi, hrest⟩ := hcut.cut
  have hfits := h.separated.fits r (List.mem_of_getElem? hr)
  obtain ⟨hcap, hwf, hsub, hset⟩ := h.carve_spec hL hr hlo hhi hrest
  exact ⟨hcap, hwf, by omega, hsub, hset⟩

end PhysAllocator

/-- The allocator with what was registered, what is handed out, and the bytes the history
leaves free. -/
structure Freistand where
  alloc : PhysAllocator
  ram : List PhysRegion
  vergeben : List PhysRegion
  frei : Set Nat

namespace Freistand

open PhysAllocator Ledger

def init : Freistand := ⟨PhysAllocator.new, [], [], ∅⟩

def grant (s : Freistand) : Option MemoryCap × PhysAllocator → Freistand
  | (none, a) => { s with alloc := a }
  | (some cap, a) =>
      { s with alloc := a, vergeben := cap.region :: s.vergeben, frei := s.frei \ cap.region.addrs }

/-- The bytes of an accepted region are free, those of a refused one are not. -/
def aufnehmen (frei : Set Nat) (ok : Bool) (r : PhysRegion) : Set Nat :=
  if ok then r.addrs ∪ frei else frei

def step (s : Freistand) : Op → Option Freistand
  | .addRegion base len =>
      some { s with
        alloc := (s.alloc.addRegion base len).2
        ram := ⟨base, len⟩ :: s.ram
        frei := aufnehmen s.frei (s.alloc.addRegion base len).1 ⟨base, len⟩ }
  | .allocIn size align lo hi => some (s.grant (s.alloc.allocIn size align lo hi))
  | .allocColoredVorspannIn vorspann size align colors mask lo hi =>
      some (s.grant (s.alloc.allocColoredVorspannIn vorspann size align colors mask lo hi))
  | .freeRegion region =>
      some { s with
        alloc := (s.alloc.freeRegion region).2
        vergeben := s.vergeben.erase region
        frei := aufnehmen s.frei (s.alloc.freeRegion region).1 region }

/-- Registered ranges do not wrap and are disjoint; only what is handed out is released. -/
def OpOk (s : Freistand) : Op → Prop
  | .addRegion base len =>
      base + len < 2 ^ 64 ∧ ∀ r ∈ s.ram, Disjoint (PhysRegion.addrs ⟨base, len⟩) r.addrs
  | .allocIn .. => True
  | .allocColoredVorspannIn .. => True
  | .freeRegion region => region ∈ s.vergeben

/-- No coloured allocation rounds the start of a fragment down past its beginning. -/
def Bedingung (s : Freistand) : Op → Prop
  | .allocColoredVorspannIn _ _ align colors mask lo hi => s.alloc.FarbigOk align colors mask lo hi
  | _ => True

def Exakt (s : Freistand) : Prop :=
  ∀ base len, base + len < 2 ^ 64 →
    (s.alloc.fullyFree base len = true ↔ ∀ x, base ≤ x → x < base + len → x ∈ s.frei) ∧
    (s.alloc.overlapsFree base len = true ↔ ∃ x, base ≤ x ∧ x < base + len ∧ x ∈ s.frei)

def oben : Nat := 2 ^ 64 - 1

structure Inv (s : Freistand) : Prop where
  wellFormed : s.alloc.WellFormedUpTo oben
  frei_eq : s.alloc.freeSet = s.frei
  free_sub : s.alloc.freeSet ⊆ cover s.ram
  out_sub : ∀ r ∈ s.vergeben, r.addrs ⊆ cover s.ram
  out_fits : ∀ r ∈ s.vergeben, r.base + r.len ≤ oben
  out_free : ∀ r ∈ s.vergeben, Disjoint r.addrs s.alloc.freeSet
  out_pairwise : s.vergeben.Pairwise fun r t => Disjoint r.addrs t.addrs

theorem Inv.exakt {s : Freistand} (h : s.Inv) : s.Exakt := by
  intro base len hfits
  rw [← h.frei_eq]
  exact ⟨fullyFree_iff (by decide) h.wellFormed hfits,
    overlapsFree_iff (by decide) h.wellFormed hfits⟩

theorem init_inv : init.Inv where
  wellFormed := new_wellFormedUpTo _
  frei_eq := by simp [init, freeSet, PhysAllocator.new]
  free_sub := by simp [init, freeSet, PhysAllocator.new]
  out_sub := by simp [init]
  out_fits := by simp [init]
  out_free := by simp [init]
  out_pairwise := by simp [init]

/-- An insertion of a disjoint region: the free set follows the answer. -/
theorem insert_cases {a : PhysAllocator} (h : a.WellFormedUpTo oben) {r : PhysRegion}
    (hfits : r.base + r.len ≤ oben) (hd : Disjoint r.addrs a.freeSet) :
    (a.insert r).2.WellFormedUpTo oben ∧
      (a.insert r).2.freeSet = aufnehmen a.freeSet (a.insert r).1 r ∧
      (a.insert r).2.freeSet ⊆ r.addrs ∪ a.freeSet := by
  obtain ⟨hwf, -, ⟨htrue, hset⟩ | ⟨hfalse, -, -, heq⟩⟩ := h.insert_spec (by decide) hfits hd
  · refine ⟨hwf, ?_, hset.subset⟩
    rw [htrue]
    exact hset
  · refine ⟨hwf, ?_, ?_⟩
    · rw [hfalse, heq]
      rfl
    · rw [heq]
      exact Set.subset_union_right

theorem Inv.teile {s : Freistand} (h : s.Inv) : Teile oben s.alloc.freeSet s.vergeben s.ram :=
  ⟨h.free_sub, h.out_sub, h.out_fits, h.out_free, h.out_pairwise⟩

theorem Inv.of_teile {s : Freistand} (hwf : s.alloc.WellFormedUpTo oben)
    (hfrei : s.alloc.freeSet = s.frei) (h : Teile oben s.alloc.freeSet s.vergeben s.ram) : s.Inv :=
  ⟨hwf, hfrei, h.free_sub, h.out_sub, h.out_fits, h.out_free, h.out_pairwise⟩

theorem Inv.addRegion {s : Freistand} (h : s.Inv) {base len : Nat}
    (hok : s.OpOk (.addRegion base len)) :
    Inv { s with
      alloc := (s.alloc.addRegion base len).2
      ram := ⟨base, len⟩ :: s.ram
      frei := aufnehmen s.frei (s.alloc.addRegion base len).1 ⟨base, len⟩ } := by
  have hle : base + len ≤ oben := Nat.le_sub_one_of_lt hok.1
  obtain ⟨hwf, hset, hsub⟩ := insert_cases (r := ⟨base, len⟩) h.wellFormed hle
    (h.teile.disjoint_free hok.2)
  exact .of_teile hwf (h.frei_eq ▸ hset) (h.teile.register hok.2 hsub)

/-- A region cut out of the free list is handed out. -/
theorem Inv.grant {s : Freistand} (h : s.Inv) {res : Option MemoryCap × PhysAllocator}
    (hres : s.alloc.Zugeschnitten res) : (s.grant res).Inv := by
  rcases hres with rfl | ⟨size, i, start, hcut, rfl⟩
  · exact .of_teile h.wellFormed h.frei_eq h.teile
  · obtain ⟨hcap, hwf, hfits, hsub, hset⟩ := hcut.spec (by decide) h.wellFormed
    generalize s.alloc.carve i start size = res at hcap hwf hset
    obtain ⟨c, a'⟩ := res
    subst hcap
    refine .of_teile hwf (hset.trans (h.frei_eq ▸ rfl)) ?_
    show Teile _ a'.freeSet _ _
    rw [hset]
    exact h.teile.grant hsub hfits

theorem Inv.freeRegion {s : Freistand} (h : s.Inv) {region : PhysRegion}
    (hmem : region ∈ s.vergeben) :
    Inv { s with
      alloc := (s.alloc.freeRegion region).2
      vergeben := s.vergeben.erase region
      frei := aufnehmen s.frei (s.alloc.freeRegion region).1 region } := by
  obtain ⟨hwf, hset, hsub⟩ := insert_cases h.wellFormed (h.out_fits region hmem)
    (h.out_free region hmem)
  exact .of_teile hwf (h.frei_eq ▸ hset) (h.teile.release hmem hsub)

theorem Inv.fits {s : Freistand} (h : s.Inv) : Fits s.alloc.regions := by
  intro r hr
  have hle := h.wellFormed.separated.fits r hr
  unfold oben at hle
  omega

theorem step_inv (s : Freistand) (op : Op) (h : s.Inv) (hok : s.OpOk op ∧ s.Bedingung op) :
    ∃ s', s.step op = some s' ∧ s'.Inv := by
  obtain ⟨hdom, hbed⟩ := hok
  cases op with
  | addRegion base len => exact ⟨_, rfl, h.addRegion hdom⟩
  | allocIn size align lo hi => exact ⟨_, rfl, h.grant (zugeschnitten_allocIn h.fits ..)⟩
  | allocColoredVorspannIn vorspann size align colors mask lo hi =>
    exact ⟨_, rfl, h.grant (zugeschnitten_allocColored h.fits _ _ hbed)⟩
  | freeRegion region => exact ⟨_, rfl, h.freeRegion hdom⟩

/-- In every run whose coloured allocations round inside the fragments, both queries are
exact in the state reached. -/
theorem run_exakt (ops : List Op)
    (hops : Admissible step (fun s op => s.OpOk op ∧ s.Bedingung op) init ops) :
    ∃ s, run step init ops = some s ∧ s.Exakt := by
  obtain ⟨s, hs, hinv⟩ := run_total step_inv init_inv hops
  exact ⟨s, hs, hinv.exakt⟩

/-- Register 128 KiB, allocate two pages and give them back. -/
theorem run_exakt_add_alloc_free :
    ∃ s, run step init [.addRegion 65536 131072, .allocIn 5000 4096 0 (2 ^ 63),
      .freeRegion ⟨65536, 8192⟩] = some s ∧ s.Exakt := by
  apply run_exakt
  refine ⟨⟨⟨by decide, by simp [init]⟩, trivial⟩, fun s₁ h₁ => ⟨⟨trivial, trivial⟩,
    fun s₂ h₂ => ⟨⟨?_, trivial⟩, fun _ _ => trivial⟩⟩⟩
  obtain rfl := Option.some.inj h₁
  obtain rfl := Option.some.inj h₂
  unfold OpOk
  decide

/-- Sixteen pages above `2 ^ 63` are registered and one is asked for with alignment `2 ^ 63`:
the coloured search rounds to zero, hands out page 0 and marks nearly everything as free. -/
theorem run_coloured_wrap_inexact : ∃ ops s,
    Admissible step OpOk init ops ∧ run step init ops = some s ∧
      s.alloc.overlapsFree 8192 4096 = true ∧ (∀ x ∈ s.frei, 2 ^ 63 < x) ∧ ¬ s.Exakt := by
  have hadd : PhysAllocator.new.addRegion (2 ^ 63 + 4096) 65536 =
      (true, ⟨[⟨2 ^ 63 + 4096, 65536⟩]⟩) := by
    decide
  have hcolored : ((⟨[⟨2 ^ 63 + 4096, 65536⟩]⟩ : PhysAllocator).allocColoredVorspannIn 0 4096
      (2 ^ 63) 2 ⟨0x5555555555555555⟩ 0 (2 ^ 64 - 1)) =
        (some ⟨⟨0, 4096⟩, Rights.rw⟩,
          ⟨[⟨4096, 2 ^ 63 + 65536⟩, ⟨2 ^ 63 + 4096, 2 ^ 63 - 4096⟩]⟩) := by
    decide +kernel
  let s₁ : Freistand := ⟨⟨[⟨2 ^ 63 + 4096, 65536⟩]⟩, [⟨2 ^ 63 + 4096, 65536⟩], [],
    aufnehmen ∅ true ⟨2 ^ 63 + 4096, 65536⟩⟩
  let s₂ : Freistand := ⟨⟨[⟨4096, 2 ^ 63 + 65536⟩, ⟨2 ^ 63 + 4096, 2 ^ 63 - 4096⟩]⟩, s₁.ram,
    [⟨0, 4096⟩], s₁.frei \ PhysRegion.addrs ⟨0, 4096⟩⟩
  have h₁ : step init (.addRegion (2 ^ 63 + 4096) 65536) = some s₁ := by
    unfold step init
    dsimp only
    rw [hadd]
  have h₂ : step s₁ (.allocColoredVorspannIn 0 4096 (2 ^ 63) 2 ⟨0x5555555555555555⟩ 0
      (2 ^ 64 - 1)) = some s₂ := by
    unfold step
    dsimp only [s₁]
    rw [hcolored]
    rfl
  have hquery : s₂.alloc.overlapsFree 8192 4096 = true := by decide
  have hfrei : ∀ x ∈ s₂.frei, 2 ^ 63 < x := by
    rintro x ⟨hin | hin, -⟩
    · simp only [PhysRegion.mem_addrs] at hin
      omega
    · cases hin
  refine ⟨[.addRegion (2 ^ 63 + 4096) 65536, .allocColoredVorspannIn 0 4096 (2 ^ 63) 2
      ⟨0x5555555555555555⟩ 0 (2 ^ 64 - 1)], s₂,
    ⟨⟨by decide, by simp [init]⟩, fun s h => ⟨trivial, fun _ _ => trivial⟩⟩,
    (run_cons_of_step h₁ _).trans (run_cons_of_step h₂ []), hquery, hfrei, fun hex => ?_⟩
  obtain ⟨x, -, hhi, hin⟩ := ((hex 8192 4096 (by decide)).2).mp hquery
  have hgt := hfrei x hin
  omega

end Freistand

end Caprock.Mem
