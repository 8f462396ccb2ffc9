import Mathlib.Data.List.Basic
import Caprock.Lib.Checks
import Caprock.Lib.Word

/-! # FAT16 geometry

The boot sector of a partition is read by `parseBoot`, which checks every number it uses.  The
number of clusters follows from the size of the volume and the length of the allocation table is a
field of its own: nothing compares the two, so a table may be too short for its clusters.
-/

namespace Caprock.Fat

def dirEntry : Nat := 32

def fat16MinClusters : Nat := 4085

def fat16MaxClusters : Nat := 65524

inductive FatError where
  | tooShort
  | badSignature
  | badSectorSize
  | badClusterSize
  | badGeometry
  | badRootEntries
  | tooBig
  | notFat16
  deriving DecidableEq, Repr

/-- The byte at `off`; the length of the sector is checked before the first read. -/
def byteAt (b : List UInt8) (off : Nat) : Nat := (b.getD off 0).toNat

def rd16 (b : List UInt8) (off : Nat) : Nat := byteAt b off + 256 * byteAt b (off + 1)

def rd32 (b : List UInt8) (off : Nat) : Nat := rd16 b off + 2 ^ 16 * rd16 b (off + 2)

def checkedAdd (a b : Nat) : Except FatError Nat :=
  if a + b < 2 ^ 32 then .ok (a + b) else .error .tooBig

def checkedMul (a b : Nat) : Except FatError Nat :=
  if a * b < 2 ^ 32 then .ok (a * b) else .error .tooBig

structure Fat16 where
  sectorsPerCluster : Nat
  reservedSectors : Nat
  numFats : Nat
  fatSectors : Nat
  rootEntries : Nat
  totalSectors : Nat
  fatLba : Nat
  rootLba : Nat
  rootSectors : Nat
  dataLba : Nat
  clusters : Nat
  deriving DecidableEq, Repr

def einteilen (spc reserved numFats fatSectors rootEntries totalSectors : Nat) :
    Except FatError Fat16 :=
  let rootSectors := rootEntries * dirEntry / 512
  (checkedMul numFats fatSectors).bind fun tables =>
  (checkedAdd reserved tables).bind fun rootLba =>
  (checkedAdd rootLba rootSectors).bind fun dataLba =>
  if totalSectors ≤ dataLba then .error .tooBig
  else
    let clusters := (totalSectors - dataLba) / spc
    if clusters < fat16MinClusters ∨ fat16MaxClusters < clusters then .error .notFat16
    else .ok {
      sectorsPerCluster := spc
      reservedSectors := reserved
      numFats := numFats
      fatSectors := fatSectors
      rootEntries := rootEntries
      totalSectors := totalSectors
      fatLba := reserved
      rootLba := rootLba
      rootSectors := rootSectors
      dataLba := dataLba
      clusters := clusters }

def parseBoot (sector : List UInt8) : Except FatError Fat16 :=
  if sector.length < 512 then .error .tooShort
  else if byteAt sector 510 ≠ 0x55 ∨ byteAt sector 511 ≠ 0xAA then .error .badSignature
  else if rd16 sector 11 ≠ 512 then .error .badSectorSize
  else
    let spc := byteAt sector 13
    if spc = 0 ∨ 128 < spc ∨ Word.isPowerOfTwo spc = false then .error .badClusterSize
    else
      let reserved := rd16 sector 14
      let numFats := byteAt sector 16
      let fatSectors := rd16 sector 22
      if reserved = 0 ∨ numFats = 0 ∨ 4 < numFats ∨ fatSectors = 0 then .error .badGeometry
      else
        let rootEntries := rd16 sector 17
        if rootEntries = 0 ∨ rootEntries * dirEntry % 512 ≠ 0 then .error .badRootEntries
        else
          let total16 := rd16 sector 19
          let total32 := rd32 sector 32
          let totalSectors := if total16 ≠ 0 then total16 else total32
          if totalSectors = 0 then .error .badGeometry
          else einteilen spc reserved numFats fatSectors rootEntries totalSectors

namespace Fat16

def fatEntryPos (f : Fat16) (cluster : Nat) : Nat × Nat :=
  (f.fatLba + cluster * 2 / 512, cluster * 2 % 512)

def fatCopyLba (f : Fat16) (kopie cluster : Nat) : Option Nat :=
  if f.numFats ≤ kopie then none
  else some ((f.fatEntryPos cluster).1 + kopie * f.fatSectors)

/-- The numbers fit together as the boot sector lays them out. -/
structure Geprueft (f : Fat16) : Prop where
  spc : 0 < f.sectorsPerCluster ∧ f.sectorsPerCluster ≤ 128
  reserved : 0 < f.reservedSectors
  numFats : 0 < f.numFats ∧ f.numFats ≤ 4
  fatSectors : 0 < f.fatSectors
  rootEntries : 0 < f.rootEntries ∧ f.rootEntries * dirEntry % 512 = 0
  fatLba : f.fatLba = f.reservedSectors
  rootLba : f.rootLba = f.fatLba + f.numFats * f.fatSectors
  rootSectors : f.rootSectors = f.rootEntries * dirEntry / 512
  dataLba : f.dataLba = f.rootLba + f.rootSectors
  data_lt : f.dataLba < f.totalSectors
  clusters : f.clusters = (f.totalSectors - f.dataLba) / f.sectorsPerCluster
  fat16 : fat16MinClusters ≤ f.clusters ∧ f.clusters ≤ fat16MaxClusters

theorem einteilen_ok {spc reserved numFats fatSectors rootEntries totalSectors : Nat} {f : Fat16}
    (h : einteilen spc reserved numFats fatSectors rootEntries totalSectors = .ok f) :
    f.sectorsPerCluster = spc ∧ f.reservedSectors = reserved ∧ f.numFats = numFats ∧
      f.fatSectors = fatSectors ∧ f.rootEntries = rootEntries ∧
      f.totalSectors = totalSectors ∧ f.fatLba = reserved ∧
      f.rootLba = reserved + numFats * fatSectors ∧ f.rootSectors = rootEntries * dirEntry / 512 ∧
      f.dataLba = f.rootLba + f.rootSectors ∧ f.dataLba < totalSectors ∧
      f.clusters = (totalSectors - f.dataLba) / spc ∧
      fat16MinClusters ≤ f.clusters ∧ f.clusters ≤ fat16MaxClusters := by
  simp only [einteilen, checkedMul, checkedAdd, Checks.bind_eq_ok, Checks.ite_ok_error_eq_ok,
    Checks.ite_error_eq_ok, Except.ok.injEq, not_or, Nat.not_lt, Nat.not_le] at h
  obtain ⟨-, ⟨-, rfl⟩, -, ⟨-, rfl⟩, -, ⟨-, rfl⟩, hdata, ⟨hmin, hmax⟩, rfl⟩ := h
  exact ⟨rfl, rfl, rfl, rfl, rfl, rfl, rfl, rfl, rfl, rfl, hdata, rfl, hmin, hmax⟩

theorem parseBoot_geprueft {sector : List UInt8} {f : Fat16} (h : parseBoot sector = .ok f) :
    f.Geprueft := by
  simp only [parseBoot, Checks.ite_error_eq_ok, not_or, Nat.not_lt] at h
  obtain ⟨-, -, -, ⟨hspc, hspc', -⟩, ⟨hres, hnum, hnum', hfat⟩, ⟨hroot, hroot'⟩, -, hok⟩ := h
  obtain ⟨h1, h2, h3, h4, h5, h6, h7, h8, h9, h10, h11, h12, h13, h14⟩ := einteilen_ok hok
  constructor
  · rw [h1]
    exact ⟨Nat.pos_of_ne_zero hspc, hspc'⟩
  · rw [h2]
    exact Nat.pos_of_ne_zero hres
  · rw [h3]
    exact ⟨Nat.pos_of_ne_zero hnum, hnum'⟩
  · rw [h4]
    exact Nat.pos_of_ne_zero hfat
  · rw [h5]
    exact ⟨Nat.pos_of_ne_zero hroot, by simpa using hroot'⟩
  · rw [h7, h2]
  · rw [h8, h7, h3, h4]
  · rw [h9, h5]
  · exact h10
  · rw [h6]
    exact h11
  · rw [h12, h6, h1]
  · exact ⟨h13, h14⟩

def Datencluster (f : Fat16) (c : Nat) : Prop := 2 ≤ c ∧ c < f.clusters + 2

/-- The entry of `c` lies inside the first copy, and inside every copy it is written to. -/
structure ImFat (f : Fat16) (c : Nat) : Prop where
  erste : f.fatLba ≤ (f.fatEntryPos c).1 ∧ (f.fatEntryPos c).1 < f.fatLba + f.fatSectors
  kopie : ∀ k, k < f.numFats → ∃ lba, f.fatCopyLba k c = some lba ∧
    f.fatLba + k * f.fatSectors ≤ lba ∧ lba < f.fatLba + (k + 1) * f.fatSectors ∧ lba < f.rootLba

theorem Geprueft.imFat_iff {f : Fat16} (h : f.Geprueft) (c : Nat) :
    f.ImFat c ↔ c * 2 / 512 < f.fatSectors := by
  constructor
  · intro hin
    have hlt := hin.erste.2
    simp only [fatEntryPos] at hlt
    omega
  · intro hlt
    refine ⟨⟨Nat.le_add_right .., Nat.add_lt_add_left hlt _⟩, fun k hk => ?_⟩
    have hend : (k + 1) * f.fatSectors ≤ f.numFats * f.fatSectors :=
      Nat.mul_le_mul_right _ hk
    have hsplit : (k + 1) * f.fatSectors = k * f.fatSectors + f.fatSectors := by
      rw [Nat.add_mul, Nat.one_mul]
    refine ⟨_, if_neg (Nat.not_le.mpr hk), ?_, ?_, ?_⟩
    · simp only [fatEntryPos]
      omega
    · simp only [fatEntryPos]
      omega
    · rw [h.rootLba]
      simp only [fatEntryPos]
      omega

/-- In an accepted geometry the entries of all data clusters lie inside the table exactly if the
table is long enough for them; no check of `parse_boot` sees to that. -/
theorem parseBoot_imFat_iff (sector : List UInt8) (f : Fat16) (h : parseBoot sector = .ok f) :
    (∀ c, f.Datencluster c → f.ImFat c) ↔ 2 * (f.clusters + 2) ≤ 512 * f.fatSectors := by
  have hgood := parseBoot_geprueft h
  have hpos : 0 < f.clusters := by
    have hmin := hgood.fat16.1
    unfold fat16MinClusters at hmin
    omega
  constructor
  · intro hall
    have hlast : f.Datencluster (f.clusters + 1) := ⟨by omega, by omega⟩
    have hin := (hgood.imFat_iff _).mp (hall _ hlast)
    omega
  · rintro hlen c ⟨-, hc⟩
    rw [hgood.imFat_iff]
    omega

def bootsektor (fatSectors : Nat) : List UInt8 :=
  (List.range 512).map fun i =>
    if i = 12 then 2
    else if i = 13 ∨ i = 14 then 1
    else if i = 16 then 2
    else if i = 17 then 16
    else if i = 19 then UInt8.ofNat (4087 + 2 * fatSectors)
    else if i = 20 then UInt8.ofNat ((4087 + 2 * fatSectors) / 256)
    else if i = 22 then UInt8.ofNat fatSectors
    else if i = 510 then 0x55
    else if i = 511 then 0xAA
    else 0

/-- Sixteen sectors hold the entries of 4085 clusters. -/
theorem parseBoot_imFat_iff_sixteen :
    ∃ f, parseBoot (bootsektor 16) = .ok f ∧ ∀ c, f.Datencluster c → f.ImFat c := by
  have hok : parseBoot (bootsektor 16) =
      .ok ⟨1, 1, 2, 16, 16, 4119, 1, 33, 1, 34, 4085⟩ := by decide +kernel
  exact ⟨_, hok, (parseBoot_imFat_iff _ _ hok).mpr (by decide)⟩

/-- With one sector the entry of cluster 256 is looked for in the second table, and in the root
directory for its copy. -/
theorem parseBoot_one_fatSector :
    ∃ f, parseBoot (bootsektor 1) = .ok f ∧ f.Datencluster 256 ∧ (f.fatEntryPos 256).1 = 2 ∧
      f.fatLba + f.fatSectors = 2 ∧ f.fatCopyLba 1 256 = some 3 ∧ f.rootLba = 3 ∧
      ¬ f.ImFat 256 := by
  have hok : parseBoot (bootsektor 1) =
      .ok ⟨1, 1, 2, 1, 16, 4089, 1, 3, 1, 4, 4085⟩ := by decide +kernel
  refine ⟨_, hok, ⟨by decide, by decide⟩, rfl, rfl, rfl, rfl, ?_⟩
  rw [(parseBoot_geprueft hok).imFat_iff]
  decide

end Fat16

end Caprock.Fat
