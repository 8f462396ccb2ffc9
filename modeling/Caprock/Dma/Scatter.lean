import Caprock.Dma.Alignment
import Caprock.Dma.Limits

/-! # Mapping a scatter list

`mapSg` maps the entries one by one and gives up at the first that is not in the pool or not
within the limits of the device.  It then clears as many cells of the output as the list has
entries, and the cells behind them keep what they held.  An output that is too short is not
touched at all.
-/

namespace Caprock.Dma

open Word

structure SgEintrag where
  cpu : Nat
  len : Nat
  deriving DecidableEq, Repr

/-- The first `n` cells are cleared. -/
def leeren (n : Nat) (raus : List (Option DmaBuf)) : List (Option DmaBuf) :=
  raus.mapIdx fun i r => if i < n then none else r

def mapSgAb (pool : DmaPool) (grenzen : GeraeteGrenzen) (n : Nat) :
    Nat → List SgEintrag → List (Option DmaBuf) → Nat × List (Option DmaBuf)
  | _, [], raus => (n, raus.mapIdx fun i r => if n ≤ i then none else r)
  | i, e :: sg, raus =>
      match pool.map e.cpu e.len with
      | none => (0, leeren n raus)
      | some buf =>
          match pruefeGrenzen grenzen buf.dev buf.len with
          | .error _ => (0, leeren n raus)
          | .ok () => mapSgAb pool grenzen n (i + 1) sg (raus.set i (some buf))

def mapSg (pool : DmaPool) (sg : List SgEintrag) (raus : List (Option DmaBuf))
    (grenzen : GeraeteGrenzen) : Nat × List (Option DmaBuf) :=
  if raus.length < sg.length then (0, raus) else mapSgAb pool grenzen sg.length 0 sg raus

def abbild (pool : DmaPool) (grenzen : GeraeteGrenzen) (e : SgEintrag) : Option DmaBuf :=
  match pool.map e.cpu e.len with
  | none => none
  | some buf =>
      match pruefeGrenzen grenzen buf.dev buf.len with
      | .error _ => none
      | .ok () => some buf

variable {pool : DmaPool} {grenzen : GeraeteGrenzen}

theorem abbild_eq_some {e : SgEintrag} {buf : DmaBuf} :
    abbild pool grenzen e = some buf ↔
      pool.map e.cpu e.len = some buf ∧ pruefeGrenzen grenzen buf.dev buf.len = .ok () := by
  unfold abbild
  cases hmap : pool.map e.cpu e.len with
  | none => simp
  | some b =>
    cases hok : pruefeGrenzen grenzen b.dev b.len with
    | error f =>
      simp only [hok, reduceCtorEq, Option.some.injEq, false_iff, not_and]
      rintro rfl
      simp [hok]
    | ok u =>
      simp only [hok, Option.some.injEq, iff_self_and]
      rintro rfl
      exact hok

theorem map_innen {e : SgEintrag} {buf : DmaBuf} (h : pool.map e.cpu e.len = some buf) :
    buf.Innen pool ∧ buf.cpu = e.cpu ∧ buf.len = e.len := by
  unfold DmaPool.map at h
  split at h
  · cases h
  · rename_i hge
    split at h
    · cases h
    · rename_i ende hsum
      obtain ⟨-, rfl⟩ := checkedAdd_eq_some.mp hsum
      split at h
      · cases h
      · rename_i hfit
        cases h
        refine ⟨⟨⟨Nat.not_lt.mp hge, ?_⟩, ⟨Nat.le_add_right _ _, ?_⟩, ?_⟩, rfl, rfl⟩
        · dsimp only
          omega
        · dsimp only
          omega
        · dsimp only
          omega

theorem leeren_set {n i : Nat} (hi : i < n) (raus : List (Option DmaBuf)) (x : Option DmaBuf) :
    leeren n (raus.set i x) = leeren n raus := by
  apply List.ext_getElem
  · simp [leeren]
  · intro j hj hj'
    simp only [leeren, List.getElem_mapIdx]
    by_cases hjn : j < n
    · rw [if_pos hjn, if_pos hjn]
    · rw [if_neg hjn, if_neg hjn, List.getElem_set_ne (by omega)]

theorem mapSgAb_cons (n i : Nat) (e : SgEintrag) (sg : List SgEintrag)
    (raus : List (Option DmaBuf)) :
    mapSgAb pool grenzen n i (e :: sg) raus =
      match abbild pool grenzen e with
      | none => (0, leeren n raus)
      | some buf => mapSgAb pool grenzen n (i + 1) sg (raus.set i (some buf)) := by
  rw [mapSgAb, abbild]
  cases pool.map e.cpu e.len with
  | none => rfl
  | some buf =>
    dsimp only
    cases pruefeGrenzen grenzen buf.dev buf.len with
    | error f => rfl
    | ok u => rfl

/-- One entry that cannot be mapped: the call reports nothing and clears its cells. -/
theorem mapSgAb_fehler {n i : Nat} {sg : List SgEintrag} (raus : List (Option DmaBuf))
    (hn : i + sg.length ≤ n) (h : ∃ e ∈ sg, abbild pool grenzen e = none) :
    mapSgAb pool grenzen n i sg raus = (0, leeren n raus) := by
  induction sg generalizing i raus with
  | nil =>
    obtain ⟨e, he, -⟩ := h
    cases he
  | cons e sg ih =>
    rw [List.length_cons] at hn
    rw [mapSgAb_cons]
    cases hab : abbild pool grenzen e with
    | none => rfl
    | some buf =>
      have hrest : ∃ e ∈ sg, abbild pool grenzen e = none := by
        obtain ⟨e', he', hnone⟩ := h
        rcases List.mem_cons.mp he' with rfl | hmem
        · rw [hab] at hnone
          cases hnone
        · exact ⟨e', hmem, hnone⟩
      dsimp only
      rw [ih (raus.set i (some buf)) (by omega) hrest, leeren_set (by omega)]

/-- Every entry can be mapped: cell `i + j` gets the mapping of entry `j`, the cells before
stay, and the cells behind the list are cleared. -/
theorem mapSgAb_erfolg {n i : Nat} {sg : List SgEintrag} (raus : List (Option DmaBuf))
    (hn : i + sg.length = n) (h : ∀ e ∈ sg, abbild pool grenzen e ≠ none) :
    ∃ neu, mapSgAb pool grenzen n i sg raus = (n, neu) ∧ neu.length = raus.length ∧
      (∀ j, j < i → neu[j]? = raus[j]?) ∧
      ∀ j e, sg[j]? = some e → i + j < raus.length →
        neu[i + j]? = some (abbild pool grenzen e) := by
  induction sg generalizing i raus with
  | nil =>
    refine ⟨_, rfl, List.length_mapIdx, fun j hj => ?_, fun j e he => ?_⟩
    · rw [List.length_nil] at hn
      rw [List.getElem?_mapIdx]
      cases hr : raus[j]? with
      | none => rfl
      | some r => simp only [Option.map_some, if_neg (show ¬ n ≤ j by omega)]
    · rw [List.getElem?_nil] at he
      cases he
  | cons e sg ih =>
    rw [List.length_cons] at hn
    obtain ⟨buf, hab⟩ := Option.ne_none_iff_exists'.mp (h e List.mem_cons_self)
    obtain ⟨neu, heq, hlen, hbefore, hcells⟩ := ih (i := i + 1) (raus.set i (some buf))
      (by omega) fun e' he' => h e' (List.mem_cons_of_mem _ he')
    rw [List.length_set] at hlen hcells
    refine ⟨neu, ?_, hlen, fun j hj => ?_, fun j e' he' hj => ?_⟩
    · rw [mapSgAb_cons, hab]
      exact heq
    · rw [hbefore j (by omega), List.getElem?_set_ne (by omega)]
    · cases j with
      | zero =>
        rw [List.getElem?_cons_zero] at he'
        cases he'
        rw [hbefore (i + 0) (by omega), Nat.add_zero, List.getElem?_set_self (by omega), hab]
      | succ j =>
        rw [List.getElem?_cons_succ] at he'
        rw [show i + (j + 1) = i + 1 + j by omega]
        exact hcells j e' he' (by omega)

def GanzOderNicht (pool : DmaPool) (sg : List SgEintrag) (grenzen : GeraeteGrenzen)
    (r : Nat × List (Option DmaBuf)) : Prop :=
  (r.1 = sg.length ∧ ∀ (i : Nat) (e : SgEintrag), sg[i]? = some e → ∃ buf, r.2[i]? = some (some buf) ∧
      pool.map e.cpu e.len = some buf ∧ buf.Innen pool ∧ buf.cpu = e.cpu ∧ buf.len = e.len ∧
      pruefeGrenzen grenzen buf.dev buf.len = .ok ()) ∨
    (r.1 = 0 ∧ ∀ x ∈ r.2, x = none)

/-- What has to hold of the request: the output is long enough and every entry can be mapped,
or the cells that stay are empty before. -/
def Leerbar (pool : DmaPool) (sg : List SgEintrag) (raus : List (Option DmaBuf))
    (grenzen : GeraeteGrenzen) : Prop :=
  if raus.length < sg.length then ∀ x ∈ raus, x = none
  else (∀ e ∈ sg, ∃ buf, pool.map e.cpu e.len = some buf ∧
      pruefeGrenzen grenzen buf.dev buf.len = .ok ()) ∨
    ∀ x ∈ raus.drop sg.length, x = none

theorem mem_leeren_iff {n : Nat} {raus : List (Option DmaBuf)} :
    (∀ x ∈ leeren n raus, x = none) ↔ ∀ x ∈ raus.drop n, x = none := by
  constructor
  · intro h x hx
    obtain ⟨j, hj⟩ := List.getElem?_of_mem hx
    rw [List.getElem?_drop] at hj
    apply h
    apply List.mem_of_getElem? (i := n + j)
    rw [leeren, List.getElem?_mapIdx, hj, Option.map_some, if_neg (by omega)]
  · intro h x hx
    obtain ⟨j, hj⟩ := List.getElem?_of_mem hx
    rw [leeren, List.getElem?_mapIdx] at hj
    obtain ⟨r, hr, rfl⟩ := Option.map_eq_some_iff.mp hj
    by_cases hjn : j < n
    · rw [if_pos hjn]
    · rw [if_neg hjn]
      apply h
      apply List.mem_of_getElem? (i := j - n)
      rwa [List.getElem?_drop, Nat.add_sub_cancel' (Nat.not_lt.mp hjn)]

/-- For every pool that can be reached, the call is all or nothing exactly if the output is
long enough and all entries can be mapped, or if the cells it does not clear are empty. -/
theorem mapSg_ganzOderNicht_iff {cpuBase devBase poolLen : Nat} {p : DmaPool}
    (hnew : DmaPool.new cpuBase devBase poolLen = .ok p) (as : List DmaPool.Aufruf)
    (sg : List SgEintrag) (raus : List (Option DmaBuf)) (grenzen : GeraeteGrenzen) :
    (p.nach as).devBase + (p.nach as).len < 2 ^ 64 ∧
    (GanzOderNicht (p.nach as) sg grenzen (mapSg (p.nach as) sg raus grenzen) ↔
      Leerbar (p.nach as) sg raus grenzen) := by
  refine ⟨(DmaPool.nach_gueltig (DmaPool.new_gueltig hnew) as).1.dev_lt, ?_⟩
  unfold mapSg Leerbar GanzOderNicht
  by_cases hshort : raus.length < sg.length
  · rw [if_pos hshort, if_pos hshort]
    dsimp only
    constructor
    · rintro (⟨hzero, -⟩ | ⟨-, hall⟩)
      · omega
      · exact hall
    · intro hall
      exact .inr ⟨rfl, hall⟩
  · rw [if_neg hshort, if_neg hshort]
    have hforall : (∀ e ∈ sg, ∃ buf, (p.nach as).map e.cpu e.len = some buf ∧
        pruefeGrenzen grenzen buf.dev buf.len = .ok ()) ↔
        ∀ e ∈ sg, abbild (p.nach as) grenzen e ≠ none := by
      simp only [Option.ne_none_iff_exists', abbild_eq_some]
    rw [hforall]
    by_cases hall : ∀ e ∈ sg, abbild (p.nach as) grenzen e ≠ none
    · obtain ⟨neu, heq, hlen, -, hcells⟩ := mapSgAb_erfolg raus (Nat.zero_add _) hall
      rw [heq]
      refine iff_of_true (.inl ⟨rfl, fun i e he => ?_⟩) (.inl hall)
      have hi : i < sg.length := by
        by_contra hge
        rw [List.getElem?_eq_none (by omega)] at he
        cases he
      have hcell := hcells i e he (by omega)
      rw [Nat.zero_add] at hcell
      obtain ⟨buf, hab⟩ := Option.ne_none_iff_exists'.mp (hall e (List.mem_of_getElem? he))
      obtain ⟨hmap, hok⟩ := abbild_eq_some.mp hab
      obtain ⟨hin, hcpu, hblen⟩ := map_innen hmap
      exact ⟨buf, by rw [hcell, hab], hmap, hin, hcpu, hblen, hok⟩
    · simp only [not_forall, Decidable.not_not] at hall
      obtain ⟨e, he, hnone⟩ := hall
      have hpos : 0 < sg.length := List.length_pos_of_mem he
      rw [mapSgAb_fehler raus (by omega) ⟨e, he, hnone⟩]
      dsimp only
      rw [mem_leeren_iff]
      constructor
      · rintro (⟨hzero, -⟩ | ⟨-, hrest⟩)
        · omega
        · exact .inr hrest
      · rintro (hall | hrest)
        · exact absurd hnone (hall e he)
        · exact .inr ⟨rfl, hrest⟩

/-- Two entries in the pool, and an output with a stale cell behind them. -/
theorem mapSg_ganzOderNicht_two :
    GanzOderNicht ((DmaPool.mk 0x40000000 0x100000000 0x10000 0 0).nach [])
      [⟨0x40000000, 64⟩, ⟨0x40001000, 64⟩] ⟨2 ^ 64 - 1, 0, 0⟩
      (mapSg ((DmaPool.mk 0x40000000 0x100000000 0x10000 0 0).nach [])
        [⟨0x40000000, 64⟩, ⟨0x40001000, 64⟩] [none, none, some ⟨1, 2, 3⟩]
        ⟨2 ^ 64 - 1, 0, 0⟩) := by
  have hnew : DmaPool.new 0x40000000 0x100000000 0x10000 =
      .ok ⟨0x40000000, 0x100000000, 0x10000, 0, 0⟩ := rfl
  refine (mapSg_ganzOderNicht_iff hnew [] _ _ _).2.mpr (.inl ?_)
  intro e he
  simp only [List.mem_cons, List.not_mem_nil, or_false] at he
  rcases he with rfl | rfl
  · exact ⟨⟨0x40000000, 0x100000000, 64⟩, by decide, by decide⟩
  · exact ⟨⟨0x40001000, 0x100001000, 64⟩, by decide, by decide⟩

/-- An entry outside of the pool and an output that is longer than the list: the call reports
nothing, but the last cell still holds an old segment. -/
theorem mapSg_stale_cell :
    DmaPool.new 0x40000000 0x100000000 0x10000 =
        .ok ⟨0x40000000, 0x100000000, 0x10000, 0, 0⟩ ∧
      mapSg ⟨0x40000000, 0x100000000, 0x10000, 0, 0⟩ [⟨0x50000000, 64⟩]
        [none, some ⟨0x40000000, 0x100000000, 64⟩] ⟨2 ^ 64 - 1, 0, 0⟩ =
        (0, [none, some ⟨0x40000000, 0x100000000, 64⟩]) ∧
      ¬ GanzOderNicht ⟨0x40000000, 0x100000000, 0x10000, 0, 0⟩ [⟨0x50000000, 64⟩]
        ⟨2 ^ 64 - 1, 0, 0⟩ (0, [none, some ⟨0x40000000, 0x100000000, 64⟩]) := by
  refine ⟨rfl, by decide, ?_⟩
  rintro (⟨hzero, -⟩ | ⟨-, hall⟩)
  · cases hzero
  · exact absurd (hall (some ⟨0x40000000, 0x100000000, 64⟩) (by simp)) (by simp)

end Caprock.Dma
