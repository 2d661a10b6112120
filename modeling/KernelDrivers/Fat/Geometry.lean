import KernelDrivers.Fat.Bpb

/-!
# Volume geometry

What the macros of the parameter block are meant to compute, in exact integer
arithmetic, and when the 32-bit values `FatSetupAllocationSupport` stores agree
with it.

The file area starts after the reserved sectors, the FATs and the root directory.
`FatNumberOfClusters` counts sectors and not bytes, so a root directory that does
not fill its last sector (on FAT32: any root directory the boot sector claims at
all) leaves an `overhang` that the count does not see.

## Main definitions

* `GeometryExact` — the stored values are the exact ones and every cluster lies
  inside the volume.
* `GeometryFits` — the condition on the boot sector fields for this.
-/

namespace KernelDrivers.Fat

namespace Bpb

/-- The bytes before the file area. -/
def exactFileArea (b : Bpb) : ℕ :=
  b.reservedSectors.toNat * b.bytesPerSector.toNat +
    b.fats.toNat * (b.fatSectors * b.bytesPerSector.toNat) + b.rootEntries.toNat * 32

/-- The whole sectors before the file area, as `FatNumberOfClusters` counts them. -/
def exactOverhead (b : Bpb) : ℕ :=
  b.reservedSectors.toNat + b.fats.toNat * b.fatSectors +
    if b.isBpbFat32 then 0 else b.rootEntries.toNat * 32 / b.bytesPerSector.toNat

/-- The bytes of the root directory that `exactOverhead` leaves out. -/
def overhang (b : Bpb) : ℕ :=
  if b.isBpbFat32 then b.rootEntries.toNat * 32
  else b.rootEntries.toNat * 32 % b.bytesPerSector.toNat

/-- The bytes of the volume. -/
def volumeBytes (b : Bpb) : ℕ := b.totalSectors * b.bytesPerSector.toNat

/-- The bytes of a cluster. -/
def clusterBytes (b : Bpb) : ℕ := b.bytesPerSector.toNat * b.sectorsPerCluster.toNat

/-- The sectors left for clusters. -/
def dataSectors (b : Bpb) : ℕ := b.totalSectors - b.exactOverhead

/-- The whole clusters between the file area's start and the volume's end. -/
def exactDataClusters (b : Bpb) : ℤ :=
  ((b.volumeBytes : ℤ) - b.exactFileArea) / b.clusterBytes

/-- The entry width that the sector counts call for. -/
def exactWidth (b : Bpb) : FatWidth :=
  if b.isBpbFat32 then .fat32
  else if b.dataSectors / b.sectorsPerCluster.toNat < 4087 then .fat12 else .fat16

/-- The entries one FAT holds. -/
def exactFatEntries (b : Bpb) : ℕ :=
  8 * (b.fatSectors * b.bytesPerSector.toNat) / b.exactWidth.bits

end Bpb

/-- The values the mount path stores are the exact ones. -/
structure GeometryExact (b : Bpb) : Prop where
  fileAreaLbo : fatFileAreaLbo b = b.exactFileArea
  describable : (clustersDescribableByFat b : ℤ) = b.exactFatEntries - 2
  numberOfClusters :
    (setupNumberOfClusters b : ℤ) = min b.exactDataClusters (b.exactFatEntries - 2)
  inside : ∀ c, 2 ≤ c → c ≤ setupNumberOfClusters b + 1 →
    fatFileAreaLbo b + (c - 2) * b.clusterBytes + b.clusterBytes ≤ b.volumeBytes

/-- The file area starts below 4 GB and inside the volume, the FAT is below
512 MB, and the overhang of the root directory fits behind the last whole cluster
(or the FAT is too small to describe that cluster anyway). -/
structure GeometryFits (b : Bpb) : Prop where
  fileArea_lt : b.exactFileArea < 2 ^ 32
  fileArea_le : b.exactFileArea ≤ b.volumeBytes
  fatBits_lt : 8 * (b.fatSectors * b.bytesPerSector.toNat) < 2 ^ 32
  overhang_le : b.overhang ≤
      b.dataSectors % b.sectorsPerCluster.toNat * b.bytesPerSector.toNat ∨
    (b.exactFatEntries : ℤ) - 2 ≤ b.exactDataClusters

namespace Bpb

variable {b : Bpb}

theorem Accepted.bytesPerSector_mem (h : b.Accepted) :
    128 ≤ b.bytesPerSector.toNat ∧ b.bytesPerSector.toNat ≤ 4096 := by
  have := h.bytesPerSector
  simp only [List.mem_cons, List.not_mem_nil, or_false] at this
  omega

theorem Accepted.sectorsPerCluster_mem (h : b.Accepted) :
    1 ≤ b.sectorsPerCluster.toNat ∧ b.sectorsPerCluster.toNat ≤ 128 := by
  have := h.sectorsPerCluster
  simp only [List.mem_cons, List.not_mem_nil, or_false] at this
  omega

theorem totalSectors_lt (b : Bpb) : b.totalSectors < 2 ^ 32 := by
  have h16 := b.sectors.isLt
  have h32 := b.largeSectors.isLt
  unfold totalSectors
  split <;> omega

/-- The file area is the whole overhead sectors and the overhang. -/
theorem exactFileArea_eq (b : Bpb) :
    b.exactFileArea = b.exactOverhead * b.bytesPerSector.toNat + b.overhang := by
  unfold exactFileArea exactOverhead overhang
  split
  · ring
  · have hdiv := Nat.div_add_mod (b.rootEntries.toNat * 32) b.bytesPerSector.toNat
    calc _ = b.reservedSectors.toNat * b.bytesPerSector.toNat +
          b.fats.toNat * (b.fatSectors * b.bytesPerSector.toNat) +
          (b.bytesPerSector.toNat * (b.rootEntries.toNat * 32 / b.bytesPerSector.toNat) +
            b.rootEntries.toNat * 32 % b.bytesPerSector.toNat) := by rw [hdiv]
      _ = _ := by ring

theorem exactOverhead_le_totalSectors (h : b.Accepted) (hle : b.exactFileArea ≤ b.volumeBytes) :
    b.exactOverhead ≤ b.totalSectors := by
  have hB := h.bytesPerSector_mem.1
  have hmul : b.exactOverhead * b.bytesPerSector.toNat ≤
      b.totalSectors * b.bytesPerSector.toNat := by
    have := b.exactFileArea_eq
    unfold volumeBytes at hle
    omega
  exact Nat.le_of_mul_le_mul_right hmul (by omega)

theorem overhang_le_dataSectors (hle : b.exactFileArea ≤ b.volumeBytes) :
    b.overhang ≤ b.dataSectors * b.bytesPerSector.toNat := by
  have heq := b.exactFileArea_eq
  unfold volumeBytes at hle
  rw [dataSectors, Nat.sub_mul]
  omega

/-- The bytes behind the file area's start. -/
theorem volumeBytes_sub_exactFileArea (h : b.Accepted) (hle : b.exactFileArea ≤ b.volumeBytes) :
    b.volumeBytes - b.exactFileArea = b.dataSectors * b.bytesPerSector.toNat - b.overhang := by
  have hsec : b.dataSectors + b.exactOverhead = b.totalSectors := by
    have := exactOverhead_le_totalSectors h hle
    unfold dataSectors
    omega
  have hmul := Nat.add_mul b.dataSectors b.exactOverhead b.bytesPerSector.toNat
  rw [exactFileArea_eq, volumeBytes, ← hsec]
  omega

theorem exactDataClusters_eq (hle : b.exactFileArea ≤ b.volumeBytes) :
    b.exactDataClusters = ((b.volumeBytes - b.exactFileArea) / b.clusterBytes : ℕ) := by
  rw [exactDataClusters]
  push_cast [hle]
  rfl

/-- The sector count is right exactly when the overhang fits behind the last whole
cluster; otherwise it is too large. -/
theorem exactDataClusters_cases (h : b.Accepted) (hle : b.exactFileArea ≤ b.volumeBytes) :
    if b.overhang ≤ b.dataSectors % b.sectorsPerCluster.toNat * b.bytesPerSector.toNat then
      b.exactDataClusters = (b.dataSectors / b.sectorsPerCluster.toNat : ℕ)
    else b.exactDataClusters < (b.dataSectors / b.sectorsPerCluster.toNat : ℕ) := by
  have hB := h.bytesPerSector_mem.1
  have hK := h.sectorsPerCluster_mem.1
  have hdiv := Nat.div_add_mod b.dataSectors b.sectorsPerCluster.toNat
  have hmod := Nat.mod_lt b.dataSectors hK
  have hover := overhang_le_dataSectors hle
  rw [exactDataClusters_eq hle, volumeBytes_sub_exactFileArea h hle, clusterBytes]
  set B := b.bytesPerSector.toNat
  set K := b.sectorsPerCluster.toNat
  set q := b.dataSectors / K
  set r := b.dataSectors % K
  have hdata : b.dataSectors * B = q * (B * K) + r * B := by rw [← hdiv]; ring
  have hrK : r * B + B ≤ B * K := by nlinarith
  rw [hdata] at hover ⊢
  split
  · next hover =>
      norm_cast
      apply Nat.div_eq_of_lt_le
      · omega
      · rw [Nat.add_mul]; omega
  · next hover =>
      norm_cast
      rw [Nat.div_lt_iff_lt_mul (by positivity)]
      omega

end Bpb

/-! ## The 32-bit values -/

section

variable {b : Bpb}

/-- Below 4 GB no product or sum of `FatFileAreaLbo` wraps. -/
theorem fatFileAreaLbo_eq_iff (h : b.Accepted) :
    fatFileAreaLbo b = b.exactFileArea ↔ b.exactFileArea < 2 ^ 32 := by
  constructor
  · intro heq
    rw [← heq]
    exact Nat.mod_lt _ (by norm_num)
  · intro hlt
    have hF : 1 ≤ b.fats.toNat := Nat.one_le_iff_ne_zero.mpr h.fats
    have hfat : b.fatSectors * b.bytesPerSector.toNat ≤
        b.fats.toNat * (b.fatSectors * b.bytesPerSector.toNat) := Nat.le_mul_of_pos_left _ hF
    unfold Bpb.exactFileArea at hlt ⊢
    unfold fatFileAreaLbo fatRootDirectoryLbo fatRootDirectorySize fatReservedBytes fatBytesPerFat
    rw [Nat.mul_comm b.bytesPerSector.toNat b.fatSectors,
      Nat.mul_comm b.bytesPerSector.toNat b.reservedSectors.toNat]
    rw [ulong_of_lt (n := b.fatSectors * b.bytesPerSector.toNat) (by omega)]
    simp only [ulong]
    omega

/-- With the file area inside the volume the sector count is the exact number of
data sectors. -/
theorem fatNumberOfClusters_eq (h : b.Accepted) (hle : b.exactFileArea ≤ b.volumeBytes) :
    fatNumberOfClusters b = b.dataSectors / b.sectorsPerCluster.toNat := by
  have hover := Bpb.exactOverhead_le_totalSectors h hle
  have hT := b.totalSectors_lt
  have hFS : b.fats.toNat * b.fatSectors ≤ b.exactOverhead := by
    unfold Bpb.exactOverhead
    omega
  have hoverhead : fatOverheadSectors b = b.exactOverhead := by
    rw [fatOverheadSectors, ulong_of_lt (n := b.fats.toNat * b.fatSectors) (by omega),
      ← Bpb.exactOverhead, ulong_of_lt (by omega)]
  rw [fatNumberOfClusters, hoverhead, ulongSub_of_le hT hover, Bpb.dataSectors]

theorem fatIndexBitSize_eq (h : b.Accepted) (hle : b.exactFileArea ≤ b.volumeBytes) :
    fatIndexBitSize b = b.exactWidth := by
  rw [fatIndexBitSize, fatNumberOfClusters_eq h hle, Bpb.exactWidth]

/-- Below 4 GB of file area, the count of describable clusters is exact just when
the FAT has fewer than `2 ^ 32` bits. -/
theorem clustersDescribableByFat_eq_iff (h : b.Accepted) (hlt : b.exactFileArea < 2 ^ 32)
    (hle : b.exactFileArea ≤ b.volumeBytes) :
    (clustersDescribableByFat b : ℤ) = b.exactFatEntries - 2 ↔
      8 * (b.fatSectors * b.bytesPerSector.toNat) < 2 ^ 32 := by
  have hB := h.bytesPerSector_mem.1
  have hF : 1 ≤ b.fats.toNat := Nat.one_le_iff_ne_zero.mpr h.fats
  have hS : 1 ≤ b.fatSectors := Nat.one_le_iff_ne_zero.mpr h.fatSectors
  have hfat : b.fatSectors * b.bytesPerSector.toNat ≤
      b.fats.toNat * (b.fatSectors * b.bytesPerSector.toNat) := Nat.le_mul_of_pos_left _ hF
  have hSB : 128 ≤ b.fatSectors * b.bytesPerSector.toNat := by nlinarith
  have hlt : b.fatSectors * b.bytesPerSector.toNat < 2 ^ 32 := by
    unfold Bpb.exactFileArea at hlt
    omega
  rw [clustersDescribableByFat, Bpb.exactFatEntries, fatIndexBitSize_eq h hle, ulong_of_lt hlt]
  simp only [ulong, ulongSub]
  generalize b.fatSectors * b.bytesPerSector.toNat = x at hSB hlt
  have hw : 12 ≤ b.exactWidth.bits ∧ b.exactWidth.bits ≤ 32 := by
    cases b.exactWidth <;> simp [FatWidth.bits]
  have hquot : 2 ≤ 8 * x / b.exactWidth.bits := by
    rw [Nat.le_div_iff_mul_le (by omega)]
    omega
  have hquot' : 8 * x / b.exactWidth.bits < 2 ^ 32 - 2 := by
    rw [Nat.div_lt_iff_lt_mul (by omega)]
    omega
  by_cases hx : 8 * x < 2 ^ 32
  · rw [Nat.mul_comm x 8, Nat.mod_eq_of_lt hx]
    omega
  · have hless : x * 8 % 2 ^ 32 / b.exactWidth.bits + 1 ≤ 8 * x / b.exactWidth.bits := by
      rw [← Nat.add_div_right _ (by omega)]
      exact Nat.div_le_div_right (by omega)
    generalize x * 8 % 2 ^ 32 / b.exactWidth.bits = q at hless
    omega

/-- **When the mount arithmetic is exact.**  For an accepted boot sector the stored
geometry is the exact one if and only if `GeometryFits` holds of its fields. -/
theorem geometryExact_iff {fujitsuFMR : Bool} {boot : BootSector}
    (h : fatIsBootSectorFat fujitsuFMR boot = true) :
    GeometryExact (fatUnpackBios boot).clearLargeSectors ↔
      GeometryFits (fatUnpackBios boot).clearLargeSectors := by
  have hacc := accepted_of_fatIsBootSectorFat h
  generalize (fatUnpackBios boot).clearLargeSectors = b at hacc
  constructor
  · intro hex
    have hlt := (fatFileAreaLbo_eq_iff hacc).mp hex.fileAreaLbo
    have hle : b.exactFileArea ≤ b.volumeBytes := by
      by_contra hgt
      have hneg : b.exactDataClusters < 0 :=
        Int.ediv_neg_of_neg_of_pos (by omega) (by
          have hB := hacc.bytesPerSector_mem.1
          have hK := hacc.sectorsPerCluster_mem.1
          unfold Bpb.clusterBytes
          positivity)
      have hmin := hex.numberOfClusters
      omega
    refine ⟨hlt, hle, (clustersDescribableByFat_eq_iff hacc hlt hle).mp hex.describable, ?_⟩
    have hcases := Bpb.exactDataClusters_cases hacc hle
    split at hcases
    · next hover => exact Or.inl hover
    · have hmin := hex.numberOfClusters
      have hdesc := hex.describable
      rw [setupNumberOfClusters_eq_min, fatNumberOfClusters_eq hacc hle] at hmin
      right
      omega
  · rintro ⟨hlt, hle, hbits, hover⟩
    have hfile := (fatFileAreaLbo_eq_iff hacc).mpr hlt
    have hdesc := (clustersDescribableByFat_eq_iff hacc hlt hle).mpr hbits
    have hmin : (setupNumberOfClusters b : ℤ) =
        min b.exactDataClusters (b.exactFatEntries - 2) := by
      have hcases := Bpb.exactDataClusters_cases hacc hle
      rw [setupNumberOfClusters_eq_min, fatNumberOfClusters_eq hacc hle]
      split at hcases <;> omega
    refine ⟨hfile, hdesc, hmin, fun c hc hcN => ?_⟩
    have hN : setupNumberOfClusters b ≤ (b.volumeBytes - b.exactFileArea) / b.clusterBytes := by
      have := Bpb.exactDataClusters_eq hle
      omega
    have hmul : (c - 2) * b.clusterBytes + b.clusterBytes ≤ b.volumeBytes - b.exactFileArea := by
      calc (c - 2) * b.clusterBytes + b.clusterBytes
          = (c - 2 + 1) * b.clusterBytes := by ring
        _ ≤ (b.volumeBytes - b.exactFileArea) / b.clusterBytes * b.clusterBytes :=
            Nat.mul_le_mul_right _ (by omega)
        _ ≤ _ := Nat.div_mul_le_self _ _
    omega

end

/-- A 100-sector volume with one FAT of one sector, one-sector clusters and the
given number of root entries. -/
def floppyBoot (rootEntries : BitVec 8) : BootSector
  | 0 => 0xeb
  | 12 => 0x02
  | 13 => 1
  | 14 => 1
  | 16 => 1
  | 17 => rootEntries
  | 19 => 100
  | 21 => 0xf0
  | 22 => 1
  | _ => 0

/-- Sixteen root entries fill a sector, and the geometry is exact. -/
theorem geometryExact_floppyBoot_16 :
    GeometryExact (fatUnpackBios (floppyBoot 16)).clearLargeSectors :=
  (geometryExact_iff (by decide : fatIsBootSectorFat false (floppyBoot 16) = true)).mpr
    ⟨by decide, by decide, by decide, by decide⟩

/-- With seventeen the last of the 97 clusters ends 32 bytes behind the volume. -/
theorem not_geometryExact_floppyBoot_17 :
    fatIsBootSectorFat false (floppyBoot 17) = true ∧
      ¬ GeometryExact (fatUnpackBios (floppyBoot 17)).clearLargeSectors :=
  ⟨by decide, fun hex => absurd hex.numberOfClusters (by decide)⟩

/-! ## The geometry of a mounted volume -/

/-- The fields of `Vcb->AllocationSupport` that do not change while the volume is
mounted, and what every accepted boot sector guarantees about them. -/
structure Geometry where
  /-- `FatIndexBitSize`. -/
  width : FatWidth
  numberOfClusters : ℕ
  fileAreaLbo : ℕ
  logOfBytesPerSector : ℕ
  logOfBytesPerCluster : ℕ
  /-- `FatReservedBytes` of the parameter block: where the first FAT starts. -/
  reservedBytes : ℕ
  sector_mem : 7 ≤ logOfBytesPerSector ∧ logOfBytesPerSector ≤ 12
  cluster_mem : logOfBytesPerSector ≤ logOfBytesPerCluster ∧
    logOfBytesPerCluster ≤ logOfBytesPerSector + 7
  numberOfClusters_lt : numberOfClusters + 1 < 2 ^ 32
  fat12_le : width = .fat12 → numberOfClusters ≤ 4086
  fileAreaLbo_lt : fileAreaLbo < 2 ^ 32
  reserved_dvd : 128 ∣ reservedBytes

/-- `FatLogOf`: bits are knocked off until one is left. -/
def fatLogOf (n : ℕ) : ℕ := Nat.log2 n

section

variable {b : Bpb}

theorem Bpb.Accepted.sector_mem (h : b.Accepted) :
    7 ≤ fatLogOf b.bytesPerSector.toNat ∧ fatLogOf b.bytesPerSector.toNat ≤ 12 := by
  have hB := h.bytesPerSector
  generalize b.bytesPerSector.toNat = B at hB
  revert B
  decide

theorem Bpb.Accepted.cluster_mem (h : b.Accepted) :
    fatLogOf b.bytesPerSector.toNat ≤ fatLogOf (fatBytesPerCluster b) ∧
      fatLogOf (fatBytesPerCluster b) ≤ fatLogOf b.bytesPerSector.toNat + 7 := by
  have hB := h.bytesPerSector
  have hK := h.sectorsPerCluster
  unfold fatBytesPerCluster
  generalize b.bytesPerSector.toNat = B at hB
  generalize b.sectorsPerCluster.toNat = K at hK
  revert K B
  decide

theorem Bpb.Accepted.reserved_dvd (h : b.Accepted) : 128 ∣ fatReservedBytes b := by
  have hB : 128 ∣ b.bytesPerSector.toNat := by
    have hB := h.bytesPerSector
    generalize b.bytesPerSector.toNat = B at hB
    revert B
    decide
  exact (Nat.dvd_mod_iff (by norm_num)).mpr (hB.mul_right _)

/-- A FAT of a whole number of sectors never has exactly one or two entries too
few: the describable count stays below the largest 32-bit value. -/
theorem Bpb.Accepted.clustersDescribableByFat_lt (h : b.Accepted) :
    clustersDescribableByFat b + 1 < 2 ^ 32 := by
  have hB : 128 ∣ b.bytesPerSector.toNat := by
    have hB := h.bytesPerSector
    generalize b.bytesPerSector.toNat = B at hB
    revert B
    decide
  obtain ⟨m, hm⟩ := hB.mul_left b.fatSectors
  have hw : 12 ≤ (fatIndexBitSize b).bits ∧ (fatIndexBitSize b).bits ≤ 32 := by
    cases fatIndexBitSize b <;> simp [FatWidth.bits]
  have hmod : ulong (ulong (b.fatSectors * b.bytesPerSector.toNat) * 8) = 0 ∨
      64 ≤ ulong (ulong (b.fatSectors * b.bytesPerSector.toNat) * 8) := by
    simp only [ulong, hm]
    omega
  have hquot : ulong (ulong (b.fatSectors * b.bytesPerSector.toNat) * 8) /
      (fatIndexBitSize b).bits ≤ 2 ^ 32 / 12 := by
    have hlt : ulong (ulong (b.fatSectors * b.bytesPerSector.toNat) * 8) ≤ 2 ^ 32 :=
      (Nat.mod_lt _ (by norm_num)).le
    exact (Nat.div_le_div_right hlt).trans (Nat.div_le_div_left hw.1 (by norm_num))
  have hquot' : ulong (ulong (b.fatSectors * b.bytesPerSector.toNat) * 8) /
        (fatIndexBitSize b).bits = 0 ∨
      2 ≤ ulong (ulong (b.fatSectors * b.bytesPerSector.toNat) * 8) /
        (fatIndexBitSize b).bits := by
    rcases hmod with hmod | hmod
    · simp [hmod]
    · right
      rw [Nat.le_div_iff_mul_le (by omega)]
      omega
  unfold clustersDescribableByFat ulongSub
  generalize ulong (ulong (b.fatSectors * b.bytesPerSector.toNat) * 8) /
    (fatIndexBitSize b).bits = q at hquot hquot'
  omega

/-- The geometry `FatSetupAllocationSupport` computes from an accepted parameter
block. -/
def geometryOf (b : Bpb) (h : b.Accepted) : Geometry where
  width := fatIndexBitSize b
  numberOfClusters := setupNumberOfClusters b
  fileAreaLbo := fatFileAreaLbo b
  logOfBytesPerSector := fatLogOf b.bytesPerSector.toNat
  logOfBytesPerCluster := fatLogOf (fatBytesPerCluster b)
  reservedBytes := fatReservedBytes b
  sector_mem := h.sector_mem
  cluster_mem := h.cluster_mem
  numberOfClusters_lt := by
    have := h.clustersDescribableByFat_lt
    rw [setupNumberOfClusters_eq_min]
    omega
  fat12_le := fun hw => by
    have hlt : fatNumberOfClusters b < 4087 := by
      by_contra hge
      rw [fatIndexBitSize, if_neg hge] at hw
      split at hw <;> exact absurd hw (by simp)
    rw [setupNumberOfClusters_eq_min]
    omega
  fileAreaLbo_lt := Nat.mod_lt _ (by norm_num)
  reserved_dvd := h.reserved_dvd

@[simp] theorem geometryOf_width (h : b.Accepted) : (geometryOf b h).width = fatIndexBitSize b :=
  rfl

@[simp] theorem geometryOf_numberOfClusters (h : b.Accepted) :
    (geometryOf b h).numberOfClusters = setupNumberOfClusters b := rfl

end

end KernelDrivers.Fat
