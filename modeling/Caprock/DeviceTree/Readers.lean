import Mathlib.Data.List.Perm.Basic
import Mathlib.Tactic.Ring
import Caprock.DeviceTree.Flattened

/-! # What the readers see of a tree

The variables of the loops describe the node that was opened last.  Over a tree this means: a
processor or a memory is reported when it is closed with no child in between, and the name of a
memory only has to begin like one.
-/

namespace Caprock.DeviceTree

open Bytes Checks Panic

variable {data : List UInt8} {offStrings : Nat}

theorem cpuLeser_vorwaerts (data : List UInt8) : Vorwaerts (cpuLeser data) := by
  refine fun s pos => ⟨(be32_ends data pos).bind fun _ _ => ends_ok _, fun pos' r h => ?_⟩
  obtain ⟨len, -, h⟩ := bind_eq_ok.mp h
  cases h
  omega

theorem numaLeser_vorwaerts (data : List UInt8) (offStrings : Nat) :
    Vorwaerts (numaLeser data offStrings) := by
  intro s pos
  constructor
  · refine (be32_ends data pos).bind fun len _ => (be32_ends data _).bind fun nameoff _ => ?_
    refine (cstr_ends data _).bind fun pname _ => Ends.ite (fun _ => ?_) fun _ => ?_
    · exact (be32_ends data _).bind fun _ _ => ends_ok _
    · refine Ends.ite (fun _ => ?_) fun _ => ends_ok _
      exact (be64_ends data _).bind fun _ _ => (be64_ends data _).bind fun _ _ => ends_ok _
  · intro pos' r h
    obtain ⟨len, -, h⟩ := bind_eq_ok.mp h
    obtain ⟨nameoff, -, h⟩ := bind_eq_ok.mp h
    obtain ⟨pname, -, h⟩ := bind_eq_ok.mp h
    have hpos : pos' = pos + 8 + align4 len := by
      split at h
      · obtain ⟨id, -, h⟩ := bind_eq_ok.mp h
        cases h
        rfl
      · split at h
        · obtain ⟨b, -, h⟩ := bind_eq_ok.mp h
          obtain ⟨l, -, h⟩ := bind_eq_ok.mp h
          cases h
          rfl
        · cases h
          rfl
    omega

theorem memoryLeser_vorwaerts (data : List UInt8) (offStrings : Nat) :
    Vorwaerts (memoryLeser data offStrings) := by
  intro s pos
  constructor
  · refine (be32_ends data pos).bind fun len _ => (be32_ends data _).bind fun nameoff _ => ?_
    refine Ends.ite (fun _ => ?_) fun _ => ends_ok _
    refine (cstr_ends data _).bind fun pname _ => Ends.ite (fun _ => ?_) fun _ => ends_ok _
    exact (be64_ends data _).bind fun _ _ => (be64_ends data _).bind fun _ _ => ends_ok _
  · intro pos' r h
    obtain ⟨len, -, h⟩ := bind_eq_ok.mp h
    obtain ⟨nameoff, -, h⟩ := bind_eq_ok.mp h
    have hpos : pos' = pos + 8 + align4 len := by
      split at h
      · obtain ⟨pname, -, h⟩ := bind_eq_ok.mp h
        split at h
        · obtain ⟨base, -, h⟩ := bind_eq_ok.mp h
          obtain ⟨size, -, h⟩ := bind_eq_ok.mp h
          cases h
          rfl
        · cases h
          rfl
      · cases h
        rfl
    omega

theorem Dtb.ends (d : Dtb) : Ends d.cpuCount ∧ Ends d.numa ∧ Ends d.memory :=
  ⟨lauf_ends (cpuLeser_vorwaerts d.data) (by omega) _,
    lauf_ends (numaLeser_vorwaerts d.data d.offStrings) (by omega) _,
    lauf_ends (memoryLeser_vorwaerts d.data d.offStrings) (by omega) _⟩

theorem parse_ends (data : List UInt8) : Ends (Dtb.parse data) := by
  refine (be32_ends data 0).bind fun m _ => Ends.ite (fun _ => ends_err ()) fun _ => ?_
  exact (be32_ends data 8).bind fun _ _ => (be32_ends data 12).bind fun _ _ => ends_ok _

def zelle (b : List UInt8) : Option Nat := if 4 ≤ b.length then some (beNat (b.take 4)) else none

def paar (b : List UInt8) : Option (Nat × Nat) :=
  if 16 ≤ b.length then some (beNat (b.take 8), beNat ((b.drop 8).take 8)) else none

theorem leNat_append (x y : List UInt8) : leNat (x ++ y) = leNat x + 256 ^ x.length * leNat y := by
  induction x with
  | nil => simp [leNat]
  | cons c x ih =>
    rw [List.cons_append, leNat, leNat, ih, List.length_cons, Nat.pow_succ]
    ring

theorem beNat_append (x y : List UInt8) : beNat (x ++ y) = 256 ^ y.length * beNat x + beNat y := by
  rw [beNat, List.reverse_append, leNat_append, List.length_reverse, Nat.add_comm]
  rfl

theorem beNat_lt (x : List UInt8) : beNat x < 256 ^ x.length := by
  have hlt := leNat_lt x.reverse
  rwa [List.length_reverse] at hlt

theorem wort_eq_some {off : Nat} (h : off + 4 ≤ data.length) :
    wort data off = some (beNat ((data.drop off).take 4)) := by
  rw [wort, slice, if_pos h]
  rfl

theorem wort_eq_none {off : Nat} (h : data.length < off + 4) : wort data off = none := by
  rw [wort, slice, if_neg (by omega)]
  rfl

theorem be64_eq (data : List UInt8) (off : Nat) :
    be64 data off = ergebnis ((slice data off 8).map beNat) := by
  rw [be64, be32_eq]
  by_cases hfirst : off + 4 ≤ data.length
  · rw [wort_eq_some hfirst]
    change (be32 data (off + 4)).bind _ = _
    rw [be32_eq]
    by_cases hall : off + 8 ≤ data.length
    · have hlen : ((data.drop (off + 4)).take 4).length = 4 := by
        rw [List.length_take, List.length_drop]
        omega
      have hlow : beNat ((data.drop (off + 4)).take 4) < 2 ^ 32 := by
        have hlt := beNat_lt ((data.drop (off + 4)).take 4)
        rw [hlen] at hlt
        exact hlt
      have hsplit : (data.drop off).take 8 =
          (data.drop off).take 4 ++ (data.drop (off + 4)).take 4 := by
        rw [← List.drop_drop, ← List.take_add]
      have hpow : 256 ^ 4 = 2 ^ 32 := by decide
      rw [wort_eq_some (by omega), slice, if_pos hall, Option.map_some, hsplit, beNat_append, hlen,
        hpow]
      refine congrArg Except.ok ?_
      rw [Nat.shiftLeft_eq, Nat.mul_comm, Nat.two_pow_add_eq_or_of_lt hlow]
    · rw [wort_eq_none (by omega), slice, if_neg hall]
      rfl
  · rw [wort_eq_none (by omega), slice, if_neg (by omega)]
    rfl

theorem be64_be64 {β : Type} (data : List UInt8) (off : Nat) (f : Nat → Nat → Call Unit β) :
    ((be64 data off).bind fun b => (be64 data (off + 8)).bind fun l => f b l) =
      (ergebnis (paar (data.drop off))).bind fun x => f x.1 x.2 := by
  rw [be64_eq, be64_eq, paar, List.length_drop, List.drop_drop, slice, slice]
  by_cases hfirst : off + 8 ≤ data.length
  · by_cases hall : off + 8 + 8 ≤ data.length
    · rw [if_pos hfirst, if_pos hall, if_pos (by omega)]
      rfl
    · rw [if_pos hfirst, if_neg hall, if_neg (by omega)]
      rfl
  · rw [if_neg hfirst, if_neg (by omega), if_neg (by omega)]
    rfl

theorem wort_eq_zelle (data : List UInt8) (off : Nat) : wort data off = zelle (data.drop off) := by
  rw [zelle, List.length_drop]
  by_cases h : off + 4 ≤ data.length
  · rw [wort_eq_some h, if_pos (by omega)]
  · rw [wort_eq_none (by omega), if_neg (by omega)]

theorem zelle_append {x : List UInt8} (h : 4 ≤ x.length) (y : List UInt8) :
    zelle (x ++ y) = zelle x := by
  have hlen : 4 ≤ (x ++ y).length := by
    rw [List.length_append]
    omega
  rw [zelle, zelle, if_pos h, if_pos hlen, List.take_append_of_le_length h]

theorem paar_append {x : List UInt8} (h : 16 ≤ x.length) (y : List UInt8) :
    paar (x ++ y) = paar x := by
  have hlen : 16 ≤ (x ++ y).length := by
    rw [List.length_append]
    omega
  have hrest : 8 ≤ (x.drop 8).length := by
    rw [List.length_drop]
    omega
  rw [paar, paar, if_pos h, if_pos hlen, List.take_append_of_le_length (by omega),
    List.drop_append_of_le_length (by omega), List.take_append_of_le_length hrest]

theorem EigenschaftAn.drop {p : Eigenschaft} {pos : Nat}
    (h : EigenschaftAn data offStrings p pos) :
    data.drop (pos + 8) = p.wert ++ (data.drop (pos + 8)).drop p.wert.length :=
  h.ort ▸ drop_of_slice h.wert

theorem cpuLeser_gemaess (data : List UInt8) (offStrings : Nat) :
    Gemaess data offStrings (cpuLeser data) fun s _ => .ok s := by
  intro s p pos h
  change (be32 data pos).bind _ = _
  rw [be32_of_wort h.laenge]
  rfl

/-- What a property leaves in the variables of `numa`. -/
def NumaStand.nimm (s : NumaStand) (p : Eigenschaft) : NumaStand :=
  if p.name = numaNodeId ∧ 4 ≤ p.wert.length then { s with nodeId := zelle p.wert }
  else if p.name = regName ∧ s.isMem ∧ 16 ≤ p.wert.length then { s with reg := paar p.wert }
  else s

theorem numaLeser_gemaess (data : List UInt8) (offStrings : Nat) :
    Gemaess data offStrings (numaLeser data offStrings) fun s p => .ok (s.nimm p) := by
  intro s p pos h
  obtain ⟨nameoff, hoff, hname⟩ := h.name
  change (be32 data pos).bind _ = _
  rw [be32_of_wort h.laenge]
  change (be32 data (pos + 4)).bind _ = _
  rw [be32_of_wort hoff]
  change (cstr data (offStrings + nameoff)).bind _ = _
  rw [cstr_of_zeichenAn hname]
  change (if p.name = numaNodeId ∧ 4 ≤ p.wert.length then _ else _) =
    Except.ok (pos + 8 + align4 p.wert.length, Schritt.weiter (s.nimm p))
  unfold NumaStand.nimm
  by_cases hid : p.name = numaNodeId ∧ 4 ≤ p.wert.length
  · rw [if_pos hid, if_pos hid, be32_eq, wort_eq_zelle, h.drop, zelle_append hid.2]
    rw [zelle, if_pos hid.2]
    rfl
  · rw [if_neg hid, if_neg hid]
    by_cases hreg : p.name = regName ∧ s.isMem ∧ 16 ≤ p.wert.length
    · rw [if_pos hreg, if_pos hreg, be64_be64, h.drop, paar_append hreg.2.2]
      rw [paar, if_pos hreg.2.2]
      rfl
    · rw [if_neg hreg, if_neg hreg]

/-- What a property does to `memory`: the first `reg` is the result. -/
def memoryNimmt (data : List UInt8) (inMemory : Bool) (p : Eigenschaft) :
    Except (Option (Nat × Nat)) Bool :=
  if inMemory ∧ p.name = regName then .error (paar (data.drop p.ort)) else .ok inMemory

theorem memoryLeser_gemaess (data : List UInt8) (offStrings : Nat) :
    Gemaess data offStrings (memoryLeser data offStrings) (memoryNimmt data) := by
  intro s p pos h
  obtain ⟨nameoff, hoff, hname⟩ := h.name
  change (be32 data pos).bind _ = _
  rw [be32_of_wort h.laenge]
  change (be32 data (pos + 4)).bind _ = _
  rw [be32_of_wort hoff]
  change (if s then _ else _) = _
  cases s with
  | false => rfl
  | true =>
    rw [if_pos rfl, cstr_of_zeichenAn hname]
    change (if p.name = regName then _ else _) = _
    by_cases hreg : p.name = regName
    · have hnimmt : memoryNimmt data true p = .error (paar (data.drop (pos + 8))) := by
        rw [memoryNimmt, if_pos ⟨rfl, hreg⟩, h.ort]
      rw [if_pos hreg, be64_be64, hnimmt]
      cases paar (data.drop (pos + 8)) with
      | none => rfl
      | some x => rfl
    · have hnimmt : memoryNimmt data true p = .ok true := if_neg fun h => hreg h.2
      rw [if_neg hreg, hnimmt]

end Caprock.DeviceTree
