import Caprock.Fat.Fat16
import Caprock.Lib.Panic

/-! # Where the clusters lie

`parse_boot` and `cluster_lba` once more, with every index and every operation on `u32` that is not
a checked one as a place that may panic.  No boot sector reaches such a place, and in an accepted
volume the clusters fill the sectors behind the root directory one after the other.
-/

namespace Caprock.Fat

open Panic

def byteAtCall (b : List UInt8) (off : Nat) : Call FatError Nat :=
  (read b off).bind fun x => .ok x.toNat

def rd16Call (b : List UInt8) (off : Nat) : Call FatError Nat :=
  (byteAtCall b off).bind fun x => (byteAtCall b (off + 1)).bind fun y => .ok (x + 256 * y)

def rd32Call (b : List UInt8) (off : Nat) : Call FatError Nat :=
  (rd16Call b off).bind fun x => (rd16Call b (off + 2)).bind fun y => .ok (x + 2 ^ 16 * y)

def einteilenCall (spc reserved numFats fatSectors rootEntries totalSectors : Nat) :
    Call FatError Fat16 :=
  (mul 32 rootEntries dirEntry).bind fun rootBytes =>
  (div rootBytes 512).bind fun rootSectors =>
  (quiet (checkedMul numFats fatSectors)).bind fun tables =>
  (quiet (checkedAdd reserved tables)).bind fun rootLba =>
  (quiet (checkedAdd rootLba rootSectors)).bind fun dataLba =>
  if totalSectors ≤ dataLba then .error (.err .tooBig)
  else
    (sub totalSectors dataLba).bind fun rest =>
    (div rest spc).bind fun clusters =>
    if clusters < fat16MinClusters ∨ fat16MaxClusters < clusters then .error (.err .notFat16)
    else .ok {
      sectorsPerCluster := spc
      reservedSectors := reserved
      numFats := numFats
      fatSectors := fatSectors
      rootEntries := rootEntries
      totalSectors := totalSectors
      fatLba := reserved
      rootLba := rootLba
      rootSectors := rootSectors
      dataLba := dataLba
      clusters := clusters }

def parseBootCall (sector : List UInt8) : Call FatError Fat16 :=
  if sector.length < 512 then .error (.err .tooShort)
  else
    (byteAtCall sector 510).bind fun b510 =>
    (byteAtCall sector 511).bind fun b511 =>
    if b510 ≠ 0x55 ∨ b511 ≠ 0xAA then .error (.err .badSignature)
    else
      (rd16Call sector 11).bind fun groesse =>
      if groesse ≠ 512 then .error (.err .badSectorSize)
      else
        (byteAtCall sector 13).bind fun spc =>
        if spc = 0 ∨ 128 < spc ∨ Word.isPowerOfTwo spc = false then .error (.err .badClusterSize)
        else
          (rd16Call sector 14).bind fun reserved =>
          (byteAtCall sector 16).bind fun numFats =>
          (rd16Call sector 22).bind fun fatSectors =>
          if reserved = 0 ∨ numFats = 0 ∨ 4 < numFats ∨ fatSectors = 0 then
            .error (.err .badGeometry)
          else
            (rd16Call sector 17).bind fun rootEntries =>
            (mul 64 rootEntries dirEntry).bind fun rootBytes =>
            if rootEntries = 0 ∨ rootBytes % 512 ≠ 0 then .error (.err .badRootEntries)
            else
              (rd16Call sector 19).bind fun total16 =>
              (rd32Call sector 32).bind fun total32 =>
              let totalSectors := if total16 ≠ 0 then total16 else total32
              if totalSectors = 0 then .error (.err .badGeometry)
              else einteilenCall spc reserved numFats fatSectors rootEntries totalSectors

theorem byteAt_lt (b : List UInt8) (off : Nat) : byteAt b off < 2 ^ 8 :=
  (b.getD off 0).toNat_lt

theorem rd16_lt (b : List UInt8) (off : Nat) : rd16 b off < 2 ^ 16 := by
  have hlow := byteAt_lt b off
  have hhigh := byteAt_lt b (off + 1)
  unfold rd16
  omega

theorem rd32_lt (b : List UInt8) (off : Nat) : rd32 b off < 2 ^ 32 := by
  have hlow := rd16_lt b off
  have hhigh := rd16_lt b (off + 2)
  unfold rd32
  omega

section Reads

variable {α : Type*} {b : List UInt8} {off : Nat} {f : Nat → Call FatError α}

theorem byteAtCall_eq (h : off < b.length) : byteAtCall b off = .ok (byteAt b off) :=
  read_bind h 0

theorem rd16Call_eq (h : off + 1 < b.length) : rd16Call b off = .ok (rd16 b off) := by
  rw [rd16Call, byteAtCall_eq (Nat.lt_of_succ_lt h), byteAtCall_eq h]
  rfl

theorem byteAtCall_bind (h : off < b.length) : (byteAtCall b off).bind f = f (byteAt b off) := by
  rw [byteAtCall_eq h]
  rfl

theorem rd16Call_bind (h : off + 1 < b.length) : (rd16Call b off).bind f = f (rd16 b off) := by
  rw [rd16Call_eq h]
  rfl

theorem rd32Call_bind (h : off + 3 < b.length) : (rd32Call b off).bind f = f (rd32 b off) := by
  rw [rd32Call, rd16Call_eq (by omega), rd16Call_eq (by omega)]
  rfl

end Reads

theorem einteilenCall_eq {spc reserved numFats fatSectors rootEntries totalSectors : Nat}
    (hspc : spc ≠ 0) (hroot : rootEntries < 2 ^ 16) :
    einteilenCall spc reserved numFats fatSectors rootEntries totalSectors =
      quiet (einteilen spc reserved numFats fatSectors rootEntries totalSectors) := by
  have hbytes : rootEntries * dirEntry < 2 ^ 32 := by
    unfold dirEntry
    omega
  rw [einteilenCall, einteilen, mul_bind hbytes, div_bind (by decide)]
  apply bind_quiet
  intro tables _
  apply bind_quiet
  intro rootLba _
  apply bind_quiet
  intro dataLba _
  apply ite_quiet
  intro hdata
  rw [sub_bind (by omega), div_bind hspc]
  apply ite_quiet
  intro _
  rfl

theorem parseBootCall_eq (sector : List UInt8) :
    parseBootCall sector = quiet (parseBoot sector) := by
  rw [parseBootCall, parseBoot]
  apply ite_quiet
  intro hlen
  rw [byteAtCall_bind (by omega), byteAtCall_bind (by omega)]
  apply ite_quiet
  intro _
  rw [rd16Call_bind (by omega)]
  apply ite_quiet
  intro _
  rw [byteAtCall_bind (by omega)]
  apply ite_quiet
  intro hspc
  rw [rd16Call_bind (by omega), byteAtCall_bind (by omega), rd16Call_bind (by omega)]
  apply ite_quiet
  intro _
  have hroot := rd16_lt sector 17
  have hbytes : rd16 sector 17 * dirEntry < 2 ^ 64 := by
    unfold dirEntry
    omega
  rw [rd16Call_bind (by omega), mul_bind hbytes]
  apply ite_quiet
  intro _
  rw [rd16Call_bind (by omega), rd32Call_bind (by omega)]
  apply ite_quiet
  intro _
  exact einteilenCall_eq (fun hzero => hspc (.inl hzero)) hroot

namespace Fat16

def clusterLba (f : Fat16) (cluster : Nat) : Option Nat :=
  if cluster < 2 ∨ f.clusters ≤ cluster - 2 then none
  else some (f.dataLba + (cluster - 2) * f.sectorsPerCluster)

def clusterLbaCall (f : Fat16) (cluster : Nat) : Call Empty (Option Nat) :=
  if cluster < 2 then .ok none
  else
    (sub cluster 2).bind fun nr =>
    if f.clusters ≤ nr then .ok none
    else
      (mul 32 nr f.sectorsPerCluster).bind fun weite =>
      (add 32 f.dataLba weite).bind fun lba => .ok (some lba)

/-- The areas of a volume lie one behind the other and the clusters do not overlap. -/
structure Geometrie (f : Fat16) : Prop where
  definiert : ∀ c, (∃ lba, f.clusterLba c = some lba) ↔ f.Datencluster c
  imVolumen : ∀ c lba, f.clusterLba c = some lba →
    f.dataLba ≤ lba ∧ lba + f.sectorsPerCluster ≤ f.totalSectors
  getrennt : ∀ c c' lba lba', c ≠ c' → f.clusterLba c = some lba → f.clusterLba c' = some lba' →
    lba + f.sectorsPerCluster ≤ lba' ∨ lba' + f.sectorsPerCluster ≤ lba
  hinterFats : ∀ c lba k, f.clusterLba c = some lba → k < f.numFats →
    f.fatLba + (k + 1) * f.fatSectors ≤ lba
  hinterWurzel : ∀ c lba, f.clusterLba c = some lba → f.rootLba + f.rootSectors ≤ lba

theorem clusterLba_eq_some {f : Fat16} {c lba : Nat} :
    f.clusterLba c = some lba ↔
      f.Datencluster c ∧ lba = f.dataLba + (c - 2) * f.sectorsPerCluster := by
  unfold clusterLba Datencluster
  by_cases hc : c < 2 ∨ f.clusters ≤ c - 2
  · rw [if_pos hc]
    constructor
    · intro h
      cases h
    · intro h
      omega
  · rw [if_neg hc, Option.some.injEq, eq_comm]
    constructor
    · intro h
      exact ⟨by omega, h⟩
    · exact fun h => h.2

theorem Geprueft.cluster_le {f : Fat16} (h : f.Geprueft) {nr : Nat} (hnr : nr < f.clusters) :
    f.dataLba + nr * f.sectorsPerCluster + f.sectorsPerCluster ≤ f.totalSectors := by
  have hdata := h.data_lt
  have hend : (nr + 1) * f.sectorsPerCluster ≤ f.totalSectors - f.dataLba :=
    calc (nr + 1) * f.sectorsPerCluster ≤ f.clusters * f.sectorsPerCluster :=
          Nat.mul_le_mul_right _ hnr
      _ ≤ f.totalSectors - f.dataLba := by
          rw [h.clusters]
          exact Nat.div_mul_le_self ..
  rw [Nat.add_mul, Nat.one_mul] at hend
  omega

theorem Geprueft.geometrie {f : Fat16} (h : f.Geprueft) : f.Geometrie := by
  constructor
  · intro c
    constructor
    · intro hc
      obtain ⟨lba, hlba⟩ := hc
      exact (clusterLba_eq_some.mp hlba).1
    · intro hc
      exact ⟨_, clusterLba_eq_some.mpr ⟨hc, rfl⟩⟩
  · intro c lba hlba
    obtain ⟨hc, rfl⟩ := clusterLba_eq_some.mp hlba
    exact ⟨Nat.le_add_right .., h.cluster_le (by unfold Datencluster at hc; omega)⟩
  · intro c c' lba lba' hne hlba hlba'
    obtain ⟨hc, rfl⟩ := clusterLba_eq_some.mp hlba
    obtain ⟨hc', rfl⟩ := clusterLba_eq_some.mp hlba'
    unfold Datencluster at hc hc'
    rcases Nat.lt_or_gt_of_ne hne with hlt | hlt
    · have hstep := Nat.mul_le_mul_right f.sectorsPerCluster (show c - 2 + 1 ≤ c' - 2 by omega)
      rw [Nat.add_mul, Nat.one_mul] at hstep
      omega
    · have hstep := Nat.mul_le_mul_right f.sectorsPerCluster (show c' - 2 + 1 ≤ c - 2 by omega)
      rw [Nat.add_mul, Nat.one_mul] at hstep
      omega
  · intro c lba k hlba hk
    obtain ⟨-, rfl⟩ := clusterLba_eq_some.mp hlba
    have htable := Nat.mul_le_mul_right f.fatSectors (show k + 1 ≤ f.numFats from hk)
    have hroot := h.rootLba
    have hdata := h.dataLba
    omega
  · intro c lba hlba
    obtain ⟨-, rfl⟩ := clusterLba_eq_some.mp hlba
    rw [h.dataLba]
    exact Nat.le_add_right ..

theorem Geprueft.clusterLbaCall_eq {f : Fat16} (h : f.Geprueft) (htotal : f.totalSectors < 2 ^ 32)
    (c : Nat) : f.clusterLbaCall c = .ok (f.clusterLba c) := by
  unfold clusterLbaCall clusterLba
  by_cases htwo : c < 2
  · rw [if_pos htwo, if_pos (.inl htwo)]
  · rw [if_neg htwo, sub_bind (by omega)]
    by_cases hc : f.clusters ≤ c - 2
    · rw [if_pos hc, if_pos (.inr hc)]
    · have hend := h.cluster_le (Nat.lt_of_not_le hc)
      have hno : ¬ (c < 2 ∨ f.clusters ≤ c - 2) := not_or.mpr ⟨htwo, hc⟩
      rw [if_neg hc, if_neg hno, mul_bind (by omega), add_bind (by omega)]

theorem parseBoot_totalSectors_lt {sector : List UInt8} {f : Fat16}
    (h : parseBoot sector = .ok f) : f.totalSectors < 2 ^ 32 := by
  simp only [parseBoot, Checks.ite_error_eq_ok] at h
  obtain ⟨-, -, -, -, -, -, -, hok⟩ := h
  rw [(einteilen_ok hok).2.2.2.2.2.1]
  have h16 := rd16_lt sector 19
  have h32 := rd32_lt sector 32
  by_cases hzero : rd16 sector 19 ≠ 0
  · rw [if_pos hzero]
    omega
  · rwa [if_neg hzero]

/-- Nothing on the way to a cluster of an accepted volume overflows, and the clusters lie apart from
each other and behind the tables and the root directory. -/
theorem parseBoot_geometrie (sector : List UInt8) (f : Fat16) (h : parseBoot sector = .ok f) :
    parseBootCall sector = .ok f ∧ (∀ c, f.clusterLbaCall c = .ok (f.clusterLba c)) ∧
      f.Geometrie := by
  have hgood := parseBoot_geprueft h
  refine ⟨?_, hgood.clusterLbaCall_eq (parseBoot_totalSectors_lt h), hgood.geometrie⟩
  rw [parseBootCall_eq, h]
  rfl

/-- Cluster 2 of the small volume begins at sector 34. -/
theorem parseBoot_geometrie_sixteen :
    ∃ f, parseBootCall (bootsektor 16) = .ok f ∧ f.clusterLba 2 = some 34 ∧ f.Geometrie := by
  have hok : parseBoot (bootsektor 16) =
      .ok ⟨1, 1, 2, 16, 16, 4119, 1, 33, 1, 34, 4085⟩ := by decide +kernel
  obtain ⟨hcall, -, hgeo⟩ := parseBoot_geometrie _ _ hok
  exact ⟨_, hcall, rfl, hgeo⟩

end Fat16

end Caprock.Fat
