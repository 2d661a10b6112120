import KernelDrivers.Lib.Bytes

/-!
# The boot sector and the BIOS parameter block

The boot sector is a string of bytes; `fatUnpackBios` reads the parameter block
out of it and `fatIsBootSectorFat` is the mount path's acceptance test.  The
macros of `fat.h` follow, in the 32-bit arithmetic the driver computes them with:
`ulong` and `ulongSub` are where a product or a difference wraps.

## Main definitions

* `Bpb`, `fatUnpackBios` — the unpacked parameter block.
* `fatIsBootSectorFat` — the acceptance test.
* `fatFileAreaLbo`, `fatNumberOfClusters`, `fatIndexBitSize` — the macros the
  allocation support is built from.
-/

namespace KernelDrivers.Fat

/-- A value reduced to a 32-bit `ULONG`. -/
def ulong (n : ℕ) : ℕ := n % 2 ^ 32

/-- Subtraction of two 32-bit values, with wrap-around. -/
def ulongSub (a b : ℕ) : ℕ := (a + 2 ^ 32 - b) % 2 ^ 32

theorem ulong_of_lt {n : ℕ} (h : n < 2 ^ 32) : ulong n = n := Nat.mod_eq_of_lt h

theorem ulongSub_of_le {a b : ℕ} (ha : a < 2 ^ 32) (h : b ≤ a) : ulongSub a b = a - b := by
  unfold ulongSub
  omega

/-- The unpacked BIOS parameter block: the fields the driver's arithmetic and its
acceptance test read. -/
structure Bpb where
  bytesPerSector : BitVec 16
  sectorsPerCluster : BitVec 8
  reservedSectors : BitVec 16
  fats : BitVec 8
  rootEntries : BitVec 16
  sectors : BitVec 16
  media : BitVec 8
  sectorsPerFat : BitVec 16
  largeSectors : BitVec 32
  largeSectorsPerFat : BitVec 32
  extendedFlags : BitVec 16
  fsVersion : BitVec 16
  deriving DecidableEq

/-- A boot sector, byte by byte. -/
abbrev BootSector := Bytes

/-- `CopyUchar2`: two bytes, low byte first. -/
def copyUchar2 (b : BootSector) (i : ℕ) : BitVec 16 := BitVec.ofNat 16 (b.read16 i)

/-- `CopyUchar4`: four bytes, low byte first. -/
def copyUchar4 (b : BootSector) (i : ℕ) : BitVec 32 := BitVec.ofNat 32 (b.read32 i)

/-- `FatUnpackBios`, at the block's place in the boot sector.  The extended fields
are read whether or not the volume is FAT32. -/
def fatUnpackBios (b : BootSector) : Bpb where
  bytesPerSector := copyUchar2 b 11
  sectorsPerCluster := b 13
  reservedSectors := copyUchar2 b 14
  fats := b 16
  rootEntries := copyUchar2 b 17
  sectors := copyUchar2 b 19
  media := b 21
  sectorsPerFat := copyUchar2 b 22
  largeSectors := copyUchar4 b 32
  largeSectorsPerFat := copyUchar4 b 36
  extendedFlags := copyUchar2 b 40
  fsVersion := copyUchar2 b 42

namespace Bpb

/-- `if (Bpb.Sectors != 0) { Bpb.LargeSectors = 0; }`, done by the acceptance test
and again at mount. -/
def clearLargeSectors (b : Bpb) : Bpb :=
  if b.sectors ≠ 0 then { b with largeSectors := 0 } else b

/-- The `MirrorDisabled` bit of the extended flags. -/
def mirrorDisabled (b : Bpb) : Bool := b.extendedFlags.getLsbD 7

/-- `IsBpbFat32`. -/
def isBpbFat32 (b : Bpb) : Bool := b.sectorsPerFat = 0

/-- The total sector count: `Sectors`, or `LargeSectors` when that is zero. -/
def totalSectors (b : Bpb) : ℕ :=
  if b.sectors ≠ 0 then b.sectors.toNat else b.largeSectors.toNat

/-- The sectors of one FAT, from the field that holds them. -/
def fatSectors (b : Bpb) : ℕ :=
  if b.isBpbFat32 then b.largeSectorsPerFat.toNat else b.sectorsPerFat.toNat

end Bpb

/-- The media bytes that are always accepted. -/
def fatMedia : List (BitVec 8) := [0xf0, 0xf8, 0xf9, 0xfb, 0xfc, 0xfd, 0xfe, 0xff]

/-- `FatIsBootSectorFat`.  `fujitsuFMR` is the driver's global flag. -/
def fatIsBootSectorFat (fujitsuFMR : Bool) (boot : BootSector) : Bool :=
  let b := (fatUnpackBios boot).clearLargeSectors
  if boot 0 ≠ 0xe9 ∧ boot 0 ≠ 0xeb ∧ boot 0 ≠ 0x49 then false
  else if b.bytesPerSector.toNat ∉ [128, 256, 512, 1024, 2048, 4096] then false
  else if b.sectorsPerCluster.toNat ∉ [1, 2, 4, 8, 16, 32, 64, 128] then false
  else if b.reservedSectors = 0 then false
  else if b.fats = 0 then false
  else if b.sectors = 0 ∧ b.largeSectors = 0 then false
  else if b.sectorsPerFat = 0 ∧ (b.largeSectorsPerFat = 0 ∨ b.fsVersion ≠ 0) then false
  else if b.media ∉ fatMedia ∧ (!fujitsuFMR ∨ b.media ∉ [0x00, 0x01, 0xfa]) then false
  else if b.sectorsPerFat ≠ 0 ∧ b.rootEntries = 0 then false
  else if b.sectorsPerFat = 0 ∧ b.mirrorDisabled then false
  else true

/-- What the acceptance test guarantees about the fields it reads. -/
structure Bpb.Accepted (b : Bpb) : Prop where
  bytesPerSector : b.bytesPerSector.toNat ∈ [128, 256, 512, 1024, 2048, 4096]
  sectorsPerCluster : b.sectorsPerCluster.toNat ∈ [1, 2, 4, 8, 16, 32, 64, 128]
  reservedSectors : b.reservedSectors.toNat ≠ 0
  fats : b.fats.toNat ≠ 0
  totalSectors : b.totalSectors ≠ 0
  fatSectors : b.fatSectors ≠ 0
  rootEntries : b.isBpbFat32 = false → b.rootEntries.toNat ≠ 0

/-- `FatBytesPerCluster`. -/
def fatBytesPerCluster (b : Bpb) : ℕ :=
  ulong (b.bytesPerSector.toNat * b.sectorsPerCluster.toNat)

/-- `FatBytesPerFat`. -/
def fatBytesPerFat (b : Bpb) : ℕ := ulong (b.bytesPerSector.toNat * b.fatSectors)

/-- `FatReservedBytes`. -/
def fatReservedBytes (b : Bpb) : ℕ := ulong (b.bytesPerSector.toNat * b.reservedSectors.toNat)

/-- `FatRootDirectorySize`; a dirent is 32 bytes. -/
def fatRootDirectorySize (b : Bpb) : ℕ := ulong (b.rootEntries.toNat * 32)

/-- `FatRootDirectoryLbo`. -/
def fatRootDirectoryLbo (b : Bpb) : ℕ :=
  ulong (fatReservedBytes b + ulong (b.fats.toNat * fatBytesPerFat b))

/-- `FatFileAreaLbo`. -/
def fatFileAreaLbo (b : Bpb) : ℕ := ulong (fatRootDirectoryLbo b + fatRootDirectorySize b)

/-- The sectors `FatNumberOfClusters` takes off before it divides.  Only the
FAT12/16 branch counts the root directory. -/
def fatOverheadSectors (b : Bpb) : ℕ :=
  ulong (b.reservedSectors.toNat + ulong (b.fats.toNat * b.fatSectors) +
    if b.isBpbFat32 then 0 else b.rootEntries.toNat * 32 / b.bytesPerSector.toNat)

/-- `FatNumberOfClusters`. -/
def fatNumberOfClusters (b : Bpb) : ℕ :=
  ulongSub b.totalSectors (fatOverheadSectors b) / b.sectorsPerCluster.toNat

/-- The three widths of a FAT entry. -/
inductive FatWidth
  | fat12
  | fat16
  | fat32
  deriving DecidableEq, Repr

/-- The number of bits of an entry, as `FatIndexBitSize` stores it. -/
def FatWidth.bits : FatWidth → ℕ
  | .fat12 => 12
  | .fat16 => 16
  | .fat32 => 32

/-- `FatIndexBitSize`. -/
def fatIndexBitSize (b : Bpb) : FatWidth :=
  if b.isBpbFat32 then .fat32
  else if fatNumberOfClusters b < 4087 then .fat12 else .fat16

/-- `ClustersDescribableByFat` of `FatSetupAllocationSupport`. -/
def clustersDescribableByFat (b : Bpb) : ℕ :=
  ulongSub (ulong (ulong (b.fatSectors * b.bytesPerSector.toNat) * 8) / (fatIndexBitSize b).bits) 2

/-- The `NumberOfClusters` that `FatSetupAllocationSupport` leaves in the volume
control block. -/
def setupNumberOfClusters (b : Bpb) : ℕ :=
  if clustersDescribableByFat b < fatNumberOfClusters b then clustersDescribableByFat b
  else fatNumberOfClusters b

theorem setupNumberOfClusters_eq_min (b : Bpb) :
    setupNumberOfClusters b = min (fatNumberOfClusters b) (clustersDescribableByFat b) := by
  unfold setupNumberOfClusters
  split <;> omega

/-- **The acceptance test's guarantees.** -/
theorem accepted_of_fatIsBootSectorFat {fujitsuFMR : Bool} {boot : BootSector}
    (h : fatIsBootSectorFat fujitsuFMR boot = true) :
    (fatUnpackBios boot).clearLargeSectors.Accepted := by
  simp only [fatIsBootSectorFat, Bool.if_false_left, Bool.and_eq_true, Bool.not_eq_true',
    decide_eq_false_iff_not, not_not, not_and, not_or] at h
  obtain ⟨-, hbps, hspc, hres, hfats, hsec, hfat, -, hroot, -⟩ := h
  generalize (fatUnpackBios boot).clearLargeSectors = b at *
  have hz16 : ∀ x : BitVec 16, x.toNat = 0 ↔ x = 0 := fun x => by
    rw [← BitVec.toNat_inj]; rfl
  have hz8 : ∀ x : BitVec 8, x.toNat = 0 ↔ x = 0 := fun x => by
    rw [← BitVec.toNat_inj]; rfl
  have hz32 : ∀ x : BitVec 32, x.toNat = 0 ↔ x = 0 := fun x => by
    rw [← BitVec.toNat_inj]; rfl
  refine ⟨hbps, hspc, fun h0 => hres ((hz16 _).mp h0), fun h0 => hfats ((hz8 _).mp h0), ?_, ?_, ?_⟩
  · unfold Bpb.totalSectors
    split
    · next hs => exact fun h0 => hs ((hz16 _).mp h0)
    · next hs => exact fun h0 => hsec (by simpa using hs) ((hz32 _).mp h0)
  · unfold Bpb.fatSectors Bpb.isBpbFat32
    by_cases hs : b.sectorsPerFat = 0
    · rw [if_pos (decide_eq_true hs)]
      exact fun h0 => (hfat hs).1 ((hz32 _).mp h0)
    · rw [if_neg (by simpa using hs)]
      exact fun h0 => hs ((hz16 _).mp h0)
  · intro h32 h0
    exact hroot (by simpa [Bpb.isBpbFat32] using h32) ((hz16 _).mp h0)

end KernelDrivers.Fat
