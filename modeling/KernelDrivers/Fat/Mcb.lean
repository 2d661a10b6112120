import KernelDrivers.Fat.Geometry
import KernelDrivers.Lib.Runs

/-!
# Map control blocks of the FAT driver

The driver's shims over the kernel's large map package.  The package maps sectors
to sectors; the shims take and return byte offsets and counts, 32 bits wide for
virtual ones.  A run of exactly 4 GB does not fit its 32-bit byte count and comes
back as `0xffffffff`.

## Main definitions

* `fatAddMcbEntry`, `fatRemoveMcbEntry`, `fatGetNextMcbEntry`,
  `fatLookupMcbEntry` — the shims.
* `fatGetLboFromIndex`, `fatGetIndexFromLbo` — clusters and byte offsets.
* `mcbOf g cs` — the map that sends a file onto the clusters `cs`, in order.
-/

namespace KernelDrivers.Fat

/-- A `LARGE_MCB`, in sectors. -/
abbrev Mcb := List Run

namespace Geometry

variable (g : Geometry)

/-- `1 << LogOfBytesPerSector`. -/
def sectorSize : ℕ := 2 ^ g.logOfBytesPerSector

/-- `1 << LogOfBytesPerCluster`. -/
def clusterSize : ℕ := 2 ^ g.logOfBytesPerCluster

/-- The sectors of a cluster. -/
def clusterSectors : ℕ := 2 ^ (g.logOfBytesPerCluster - g.logOfBytesPerSector)

/-- The sector in which the file area starts. -/
def fileAreaSector : ℕ := g.fileAreaLbo / g.sectorSize

theorem sectorSize_pos : 0 < g.sectorSize := Nat.two_pow_pos _

theorem clusterSize_pos : 0 < g.clusterSize := Nat.two_pow_pos _

theorem clusterSectors_pos : 0 < g.clusterSectors := Nat.two_pow_pos _

theorem clusterSectors_mul : g.clusterSectors * g.sectorSize = g.clusterSize := by
  rw [clusterSectors, sectorSize, clusterSize, ← pow_add, Nat.sub_add_cancel g.cluster_mem.1]

theorem clusterSize_le : g.clusterSize ≤ 2 ^ 19 :=
  Nat.pow_le_pow_right (by norm_num) (by have := g.cluster_mem; have := g.sector_mem; omega)

/-- A cluster size divides 4 GB. -/
theorem clusterSize_dvd : g.clusterSize ∣ 2 ^ 32 :=
  pow_dvd_pow 2 (by have := g.cluster_mem; have := g.sector_mem; omega)

theorem sectorSize_dvd : g.sectorSize ∣ g.clusterSize := ⟨g.clusterSectors, by
  rw [Nat.mul_comm, clusterSectors_mul]⟩

end Geometry

/-- `FatGetLboFromIndex`. -/
def fatGetLboFromIndex (g : Geometry) (index : ℕ) : ℕ :=
  g.fileAreaLbo + (index - 2) * g.clusterSize

/-- `FatGetIndexFromLbo`.  The difference and the shift are signed; the result is
cut to 32 bits. -/
def fatGetIndexFromLbo (g : Geometry) (lbo : ℕ) : ℕ :=
  ((((lbo : ℤ) - g.fileAreaLbo) / g.clusterSize + 2) % 2 ^ 32).toNat

/-- A byte count in whole sectors, rounded up without overflow; zero stays zero. -/
def mcbSectors (g : Geometry) (byteCount : ℕ) : ℕ :=
  if byteCount ≠ 0 then (byteCount - 1) / g.sectorSize + 1 else 0

/-- `FatAddMcbEntry`. -/
def fatAddMcbEntry (g : Geometry) (mcb : Mcb) (vbo lbo byteCount : ℕ) : Mcb :=
  Runs.add mcb (vbo / g.sectorSize) (lbo / g.sectorSize) (mcbSectors g byteCount)

/-- `FatRemoveMcbEntry`.  The count `0xffffffff` is passed on as it is. -/
def fatRemoveMcbEntry (g : Geometry) (mcb : Mcb) (vbo byteCount : ℕ) : Mcb :=
  Runs.remove mcb (vbo / g.sectorSize)
    (if byteCount ≠ 0xffffffff then mcbSectors g byteCount else byteCount)

/-- A sector number as a byte offset; the hole's number `-1`, of which only 32 bits
are compared, becomes zero. -/
def mcbLbo (g : Geometry) (base : Option ℕ) : ℕ :=
  match base with
  | none => 0
  | some l => if l % 2 ^ 32 = 2 ^ 32 - 1 then 0 else l * g.sectorSize

/-- A sector count as a 32-bit byte count, saturated when it wraps to zero. -/
def mcbByteCount (g : Geometry) (sectors : ℕ) : ℕ :=
  if ulong (sectors * g.sectorSize) = 0 ∧ sectors ≠ 0 then 0xffffffff
  else ulong (sectors * g.sectorSize)

/-- `FatGetNextMcbEntry`: the `Vbo`, `Lbo` and byte count of run number `index`. -/
def fatGetNextMcbEntry (g : Geometry) (mcb : Mcb) (index : ℕ) : Option (ℕ × ℕ × ℕ) :=
  mcb[index]?.map fun r =>
    (ulong (Runs.startOf mcb index * g.sectorSize), mcbLbo g r.base, mcbByteCount g r.count)

/-- `FatLookupMcbEntry`: the `Lbo` of `vbo`, the byte count left in its run and the
index of the run. -/
def fatLookupMcbEntry (g : Geometry) (mcb : Mcb) (vbo : ℕ) : Option (ℕ × ℕ × ℕ) :=
  (Runs.lookup mcb (vbo / g.sectorSize)).map fun x =>
    (if mcbLbo g x.1 = 0 then 0 else mcbLbo g x.1 + vbo % g.sectorSize,
      mcbByteCount g x.2.1 - vbo % g.sectorSize, x.2.2)

/-! ## The map of a list of clusters -/

/-- The map that sends sector after sector onto the clusters `cs`, in order. -/
def mcbOf (g : Geometry) (cs : List ℕ) : Mcb :=
  (Runs.ofList (cs.map (· - 2))).map (Runs.scaleRun g.fileAreaSector g.clusterSectors)

/-- The sectors of cluster `c`. -/
def sectorsOf (g : Geometry) (c : ℕ) : List ℕ :=
  List.range' (g.fileAreaSector + (c - 2) * g.clusterSectors) g.clusterSectors

theorem normal_mcbOf (g : Geometry) (cs : List ℕ) : Runs.Normal (mcbOf g cs) :=
  (Runs.normal_ofList _).scale g.clusterSectors_pos

/-- A run of mapped positions, written as a list of numbers. -/
theorem cells_eq_map_range' (l n : ℕ) :
    (Run.mk (some l) n).cells = (List.range' l n).map some := by
  rw [Run.cells, List.range'_eq_map_range, List.map_map]
  rfl

/-- The cells of the map are the sectors of the clusters, in order. -/
theorem cells_mcbOf (g : Geometry) (cs : List ℕ) :
    Runs.cells (mcbOf g cs) = (cs.flatMap (sectorsOf g)).map some := by
  rw [mcbOf, Runs.cells_map_scaleRun, Runs.cells_ofList, List.flatMap_map, List.flatMap_map,
    List.map_flatMap]
  apply List.flatMap_congr
  intro c _
  rw [Runs.cells_scaleRun_one, cells_eq_map_range', sectorsOf]

theorem length_flatMap_sectorsOf (g : Geometry) (cs : List ℕ) :
    (cs.flatMap (sectorsOf g)).length = cs.length * g.clusterSectors := by
  induction cs with
  | nil => simp
  | cons c cs ih =>
      rw [List.flatMap_cons, List.length_append, ih, List.length_cons, sectorsOf,
        List.length_range']
      ring

/-- The sectors of consecutive clusters are consecutive. -/
theorem flatMap_sectorsOf_range' (g : Geometry) {c n : ℕ} (hc : 2 ≤ c) :
    (List.range' c n).flatMap (sectorsOf g) =
      List.range' (g.fileAreaSector + (c - 2) * g.clusterSectors) (n * g.clusterSectors) := by
  induction n generalizing c with
  | zero => simp
  | succ n ih =>
      rw [List.range'_succ, List.flatMap_cons, ih (by omega), sectorsOf, Nat.add_mul,
        Nat.one_mul, Nat.add_comm (n * _)]
      rw [← List.range'_append_1]
      congr 2
      rw [show c + 1 - 2 = c - 2 + 1 by omega]
      ring

/-- The sector in which a cluster starts. -/
theorem fatGetLboFromIndex_div (g : Geometry) (c : ℕ) :
    fatGetLboFromIndex g c / g.sectorSize = g.fileAreaSector + (c - 2) * g.clusterSectors := by
  rw [fatGetLboFromIndex, ← g.clusterSectors_mul, ← Nat.mul_assoc,
    Nat.add_mul_div_right _ _ g.sectorSize_pos, Geometry.fileAreaSector]

/-- Adding a run of clusters right behind the mapped ones extends the map. -/
theorem fatAddMcbEntry_mcbOf (g : Geometry) (cs : List ℕ) {c n k : ℕ} (hc : 2 ≤ c)
    (hk : mcbSectors g k = n * g.clusterSectors) :
    fatAddMcbEntry g (mcbOf g cs) (cs.length * g.clusterSize) (fatGetLboFromIndex g c) k =
      mcbOf g (cs ++ List.range' c n) := by
  have hvbo : cs.length * g.clusterSize / g.sectorSize = (Runs.cells (mcbOf g cs)).length := by
    rw [cells_mcbOf, List.length_map, length_flatMap_sectorsOf, ← g.clusterSectors_mul,
      ← Nat.mul_assoc, Nat.mul_div_cancel _ g.sectorSize_pos]
  apply Runs.Normal.ext (Runs.normal_add (normal_mcbOf g cs) _ _ _) (normal_mcbOf g _)
  rw [hvbo, Runs.cells_add_end (normal_mcbOf g cs), hk, cells_mcbOf, cells_mcbOf,
    List.flatMap_append, List.map_append, cells_eq_map_range', flatMap_sectorsOf_range' g hc,
    fatGetLboFromIndex_div]

/-- The rounded-up count is the least number of sectors that hold the bytes. -/
theorem mcbSectors_eq (g : Geometry) {k n : ℕ} (hle : k ≤ n * g.sectorSize)
    (hlt : n * g.sectorSize < k + g.sectorSize) : mcbSectors g k = n := by
  have hs := g.sectorSize_pos
  rw [mcbSectors]
  split
  · next hne =>
      have hquot : (k - 1) / g.sectorSize = n - 1 := by
        cases n with
        | zero => omega
        | succ n =>
            rw [Nat.succ_mul] at hle hlt
            apply Nat.div_eq_of_lt_le
            · rw [Nat.add_sub_cancel]; omega
            · rw [Nat.add_sub_cancel, Nat.succ_mul]; omega
      have hpos : n ≠ 0 := by
        intro h0
        rw [h0] at hle
        omega
      omega
  · next hz =>
      by_contra hn
      have hone : 1 * g.sectorSize ≤ n * g.sectorSize := Nat.mul_le_mul_right _ (by omega)
      omega

/-- A whole number of clusters is a whole number of sectors. -/
theorem mcbSectors_mul_clusterSize (g : Geometry) (n : ℕ) :
    mcbSectors g (n * g.clusterSize) = n * g.clusterSectors := by
  have hs := g.sectorSize_pos
  apply mcbSectors_eq <;> rw [Nat.mul_assoc, g.clusterSectors_mul]
  omega

/-- The saturated byte count `0xffffffff` stands for 4 GB of sectors. -/
theorem mcbSectors_max (g : Geometry) {n : ℕ} (h : n * g.clusterSize = 2 ^ 32) :
    mcbSectors g 0xffffffff = n * g.clusterSectors := by
  have hs : 2 ^ 7 ≤ g.sectorSize := Nat.pow_le_pow_right (by norm_num) g.sector_mem.1
  apply mcbSectors_eq <;> rw [Nat.mul_assoc, g.clusterSectors_mul, h] <;> omega

end KernelDrivers.Fat
