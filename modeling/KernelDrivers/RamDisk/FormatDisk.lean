import KernelDrivers.Fat.Bpb

/-!
# The file system of a new RAM disk

`RamDiskFormatDisk` writes a boot sector, the first bytes of a FAT and the label into the memory of a
new disk.  The sizes come from the registry; the size of the FAT is estimated twice, in 16 bits.

## Main definitions

* `DiskInfo` — the values from the registry.
* `layout` — the numbers of the boot sector.
* `ramDiskFormatDisk` — the routine.
* `Sound` — the disk is a sound FAT volume for FAST FAT.
* `Fits` — the values for which it is.

## Main results

* `stored_bpb` — what FAST FAT reads.
* `sound_iff` — the disk is sound for exactly those values.
-/

namespace KernelDrivers.RamDisk

open KernelDrivers.Fat (ulong FatWidth Bpb fatUnpackBios fatNumberOfClusters fatIndexBitSize)

/-- `DISK_INFO`. -/
structure DiskInfo where
  diskSize : UInt32
  rootDirEntries : UInt32
  sectorsPerCluster : UInt32

/-- A value reduced to a `USHORT`. -/
def ushort (n : ℕ) : ℕ := n % 2 ^ 16

/-! ## The numbers -/

/-- The entries of the root directory, rounded up to whole sectors. -/
def roundRootDirEntries (rootDirEntries : ℕ) : ℕ :=
  if rootDirEntries % 16 = 0 then rootDirEntries else ulong (rootDirEntries + 15) / 16 * 16

/-- `fatEntries`.  The difference is one of two `int`s. -/
def fatEntries (bsSectors bsRootDirEnts bsSecPerClus : ℕ) : ℕ :=
  (((bsSectors - 1 - (bsRootDirEnts / 16 : ℕ) : ℤ).tdiv bsSecPerClus + 2) % 2 ^ 16).toNat

/-- The sectors that so many entries take. -/
def sectorCount : FatWidth → ℕ → ℕ
  | .fat12, entries => ushort (((entries * 3 + 1) / 2 + 511) / 512)
  | _, entries => ushort ((entries * 2 + 511) / 512)

/-- `fatType`. -/
def fatType (fatEntries : ℕ) : FatWidth := if 4087 < fatEntries then .fat16 else .fat12

/-- `fatSectorCnt`, with entries added for the sectors of the first estimate. -/
def fatSectorCnt (fatEntries : ℕ) : ℕ :=
  sectorCount (fatType fatEntries)
    (ushort (fatEntries + sectorCount (fatType fatEntries) fatEntries))

/-- The numbers of the boot sector. -/
structure Layout where
  bsRootDirEnts : ℕ
  bsSectors : ℕ
  bsSecPerClus : ℕ

namespace Layout

variable (l : Layout)

def fatEntries : ℕ := RamDisk.fatEntries l.bsSectors l.bsRootDirEnts l.bsSecPerClus

def fatType : FatWidth := RamDisk.fatType l.fatEntries

def bsFATsecs : ℕ := fatSectorCnt l.fatEntries

end Layout

def layout (info : DiskInfo) : Layout where
  bsRootDirEnts := ushort (roundRootDirEntries info.rootDirEntries.toNat)
  bsSectors := ushort (info.diskSize.toNat / 512)
  bsSecPerClus := info.sectorsPerCluster.toNat % 2 ^ 8

/-! ## The memory -/

/-- The memory at `DiskImage`, and the start and the length of each write. -/
structure Image where
  bytes : Bytes
  written : List (ℕ × ℕ)

namespace Image

def store (im : Image) (start : ℕ) (data : List (BitVec 8)) : Image where
  bytes k := if start ≤ k ∧ k < start + data.length then data.getD (k - start) 0 else im.bytes k
  written := (start, data.length) :: im.written

/-- Stores one after the other. -/
def stores (im : Image) (l : List (ℕ × List (BitVec 8))) : Image :=
  l.foldl (fun im s => im.store s.1 s.2) im

end Image

/-- `RtlZeroMemory`. -/
def zeroMemory (memory : Bytes) (size : ℕ) : Image where
  bytes k := if k < size then 0 else memory k
  written := [(0, size)]

/-- Characters of one byte. -/
def text (s : List Char) : List (BitVec 8) := s.map fun c => BitVec.ofNat 8 c.toNat

/-- A `USHORT` in memory. -/
def word (n : ℕ) : List (BitVec 8) := [BitVec.ofNat 8 n, BitVec.ofNat 8 (n / 2 ^ 8)]

/-- `RAMDISK_MEDIA_TYPE`. -/
def mediaType : BitVec 8 := 0xF8

/-- The fields of a `BOOT_SECTOR` that are filled in. -/
def bootSector (l : Layout) : List (ℕ × List (BitVec 8)) :=
  [(0, [0xEB, 0x3C, 0x90]),
    (3, text ['R', 'a', 'j', 'u', 'R', 'a', 'm', ' ']),
    (11, word 512),
    (14, word 1),
    (16, [1]),
    (17, word l.bsRootDirEnts),
    (19, word l.bsSectors),
    (21, [mediaType]),
    (13, [BitVec.ofNat 8 l.bsSecPerClus]),
    (22, word l.bsFATsecs),
    (24, word 32),
    (26, word 2),
    (38, [0x29]),
    (39, [0x78, 0x56, 0x34, 0x12]),
    (43, text ['R', 'a', 'm', 'D', 'i', 's', 'k', ' ', ' ', ' ', ' ']),
    (54, text ['F', 'A', 'T', '1', '?', ' ', ' ', ' ']),
    (58, text [if l.fatType = .fat16 then '6' else '2']),
    (510, [0x55, 0xAA])]

/-- The first bytes of the FAT, behind the boot sector. -/
def firstFatSector (l : Layout) : List (ℕ × List (BitVec 8)) :=
  [(512, [mediaType, 0xFF, 0xFF] ++ if l.fatType = .fat16 then [0xFF] else [])]

/-- The label, behind the FAT. -/
def rootDir (l : Layout) : List (ℕ × List (BitVec 8)) :=
  [(512 + 512 * l.bsFATsecs, text ['M', 'S', '-', 'R', 'A', 'M', 'D', 'R']),
    (512 + 512 * l.bsFATsecs + 8, text ['I', 'V', 'E']),
    (512 + 512 * l.bsFATsecs + 11, [0x08])]

/-- `RamDiskFormatDisk`, for the contents of the pool at `DiskImage`.  A division by zero does not
return. -/
def ramDiskFormatDisk (memory : Bytes) (info : DiskInfo) : Option Image :=
  if (layout info).bsSecPerClus = 0 then none
  else some (((zeroMemory memory info.diskSize.toNat).stores (bootSector (layout info))).stores
    (firstFatSector (layout info) ++ rootDir (layout info)))

/-! ## A sound volume -/

/-- What FAST FAT finds in the boot sector. -/
def Image.bpb (im : Image) : Bpb := fatUnpackBios im.bytes

/-- The disk is a sound FAT volume. -/
structure Sound (info : DiskInfo) (im : Image) : Prop where
  inside : ∀ w ∈ im.written, w.1 + w.2 ≤ info.diskSize.toNat
  sectors : im.bpb.sectors.toNat = info.diskSize.toNat / 512
  rootEntries : im.bpb.rootEntries.toNat = (info.rootDirEntries.toNat + 15) / 16 * 16
  sectorsPerCluster : im.bpb.sectorsPerCluster.toNat = info.sectorsPerCluster.toNat
  areas : 512 + 512 * im.bpb.sectorsPerFat.toNat + 32 * im.bpb.rootEntries.toNat ≤
    512 * im.bpb.sectors.toNat
  entries : (fatNumberOfClusters im.bpb + 2) * (layout info).fatType.bits ≤
    8 * (512 * im.bpb.sectorsPerFat.toNat)
  width : fatIndexBitSize im.bpb = (layout info).fatType

/-- The sectors behind the boot sector and the root directory. -/
def rest (info : DiskInfo) : ℕ :=
  info.diskSize.toNat / 512 - 1 - (info.rootDirEntries.toNat + 15) / 16

/-- The values for which the disk is sound. -/
structure Fits (info : DiskInfo) : Prop where
  sectorsPerCluster : info.sectorsPerCluster.toNat < 2 ^ 8
  rootDirEntries : info.rootDirEntries.toNat ≤ 65520
  diskSize : info.diskSize.toNat / 512 < 2 ^ 16
  some_left : 1 ≤ rest info
  not_all : info.sectorsPerCluster.toNat = 1 → rest info ≤ 65278
  boundary : rest info < 4086 * info.sectorsPerCluster.toNat ∨
    4087 * info.sectorsPerCluster.toNat + 17 ≤ rest info
  label : info.rootDirEntries.toNat = 0 → 1036 ≤ info.diskSize.toNat

/-! ## The size of the FAT -/

theorem fatEntries_eq {n q s : ℕ} (h : q + 1 ≤ n) :
    fatEntries n (16 * q) s = ushort ((n - 1 - q) / s + 2) := by
  have hint : (n - 1 - (16 * q / 16 : ℕ) : ℤ) = ((n - 1 - q : ℕ) : ℤ) := by
    rw [Nat.mul_div_cancel_left q (by norm_num)]
    omega
  rw [fatEntries, hint, Int.tdiv_eq_ediv_of_nonneg (Int.natCast_nonneg _), ushort]
  norm_cast

theorem sectorCount_fat12 {e : ℕ} (h : e < 2 ^ 16) :
    sectorCount .fat12 e = ((e * 3 + 1) / 2 + 511) / 512 :=
  Nat.mod_eq_of_lt (by omega)

theorem sectorCount_fat16 {e : ℕ} (h : e < 2 ^ 16) :
    sectorCount .fat16 e = (e * 2 + 511) / 512 :=
  Nat.mod_eq_of_lt (by omega)

/-- Entries of 12 bits: the FAT has room for them and for its own sectors. -/
theorem fatSectorCnt_fat12 {e : ℕ} (h2 : 2 ≤ e) (h : e ≤ 4087) :
    3 * e ≤ 1024 * fatSectorCnt e ∧ 1 ≤ fatSectorCnt e ∧
      (fatSectorCnt e = 1 ∨ fatSectorCnt e + 2 ≤ e) := by
  have hcount : fatSectorCnt e =
      (((e + ((e * 3 + 1) / 2 + 511) / 512) * 3 + 1) / 2 + 511) / 512 := by
    have hfit : e + ((e * 3 + 1) / 2 + 511) / 512 < 2 ^ 16 := by omega
    have he : e < 2 ^ 16 := by omega
    rw [fatSectorCnt, fatType, if_neg (not_lt.mpr h), sectorCount_fat12 he, ushort,
      Nat.mod_eq_of_lt hfit, sectorCount_fat12 hfit]
  rw [hcount]
  omega

/-- Entries of 16 bits, where the sum stays in 16 bits. -/
theorem fatSectorCnt_fat16 {e : ℕ} (h : 4087 < e) (hfit : e + (e * 2 + 511) / 512 < 2 ^ 16) :
    2 * e ≤ 512 * fatSectorCnt e ∧ 17 ≤ fatSectorCnt e ∧
      (fatSectorCnt e = 17 ∨ fatSectorCnt e + 4089 ≤ e) := by
  have hcount : fatSectorCnt e = ((e + (e * 2 + 511) / 512) * 2 + 511) / 512 := by
    have he : e < 2 ^ 16 := by omega
    rw [fatSectorCnt, fatType, if_pos h, sectorCount_fat16 he, ushort,
      Nat.mod_eq_of_lt hfit, sectorCount_fat16 hfit]
  rw [hcount]
  omega

/-- Where the sum does not, next to nothing is left of the FAT. -/
theorem fatSectorCnt_wrap {e : ℕ} (h : 4087 < e) (he : e < 2 ^ 16)
    (hwrap : 2 ^ 16 ≤ e + (e * 2 + 511) / 512) : fatSectorCnt e ≤ 1 := by
  rw [fatSectorCnt, fatType, if_pos h, sectorCount_fat16 he, ushort,
    sectorCount_fat16 (Nat.mod_lt _ (by norm_num))]
  omega

theorem fatSectorCnt_le {e : ℕ} (he : e < 2 ^ 16) : fatSectorCnt e ≤ 1 + e / 200 := by
  have hmod : ushort (e + sectorCount (fatType e) e) < 2 ^ 16 := Nat.mod_lt _ (by norm_num)
  have hle : ushort (e + sectorCount (fatType e) e) ≤ e + sectorCount (fatType e) e := Nat.mod_le _ _
  rw [fatSectorCnt]
  rw [fatType] at *
  by_cases h : 4087 < e
  · rw [if_pos h] at *
    rw [sectorCount_fat16 hmod]
    rw [sectorCount_fat16 he] at hle ⊢
    omega
  · rw [if_neg h] at *
    rw [sectorCount_fat12 hmod]
    rw [sectorCount_fat12 he] at hle ⊢
    omega

/-- What is asked of a FAT of `f` sectors, with `m` sectors for it and for clusters of `s` sectors. -/
structure Covers (m s f : ℕ) (type : FatWidth) : Prop where
  room : f ≤ m
  entries : ((m - f) / s + 2) * type.bits ≤ 8 * (512 * f)
  some_left : f ≠ 0
  width : (if (m - f) / s < 4087 then FatWidth.fat12 else .fat16) = type

section Covers

variable {m s : ℕ} (hs : 0 < s)

include hs

theorem covers_fat12 (hm : 1 ≤ m) (h : m < 4086 * s) :
    Covers m s (fatSectorCnt (m / s + 2)) (fatType (m / s + 2)) := by
  have hx : m / s < 4086 := (Nat.div_lt_iff_lt_mul hs).mpr h
  have hle : m / s ≤ m := Nat.div_le_self m s
  obtain ⟨hroom, hone, hsmall⟩ := fatSectorCnt_fat12 (Nat.le_add_left 2 (m / s)) (by omega)
  have hy : (m - fatSectorCnt (m / s + 2)) / s ≤ m / s := Nat.div_le_div_right (Nat.sub_le _ _)
  have htype : fatType (m / s + 2) = .fat12 := if_neg (by omega)
  rw [htype]
  refine ⟨by omega, ?_, by omega, if_pos (by omega)⟩
  change _ * 12 ≤ _
  omega

theorem covers_fat16 (hm : m < 2 ^ 16 - 1) (hall : s = 1 → m ≤ 65278) (h : 4087 * s + 17 ≤ m) :
    Covers m s (fatSectorCnt (m / s + 2)) (fatType (m / s + 2)) := by
  have hx : 4087 ≤ m / s := (Nat.le_div_iff_mul_le hs).mpr (by omega)
  have hle : m / s ≤ m := Nat.div_le_self m s
  have hhalf : s = 1 ∨ m / s ≤ m / 2 := by
    by_cases hone : s = 1
    · exact .inl hone
    · exact .inr (Nat.div_le_div_left (by omega) (by norm_num))
  have hfit : m / s + 2 + ((m / s + 2) * 2 + 511) / 512 < 2 ^ 16 := by
    obtain hone | hhalf := hhalf
    · have := hall hone
      omega
    · omega
  obtain ⟨hroom, hleast, hsmall⟩ := fatSectorCnt_fat16 (e := m / s + 2) (by omega) hfit
  have hy : (m - fatSectorCnt (m / s + 2)) / s ≤ m / s := Nat.div_le_div_right (Nat.sub_le _ _)
  have hleft : fatSectorCnt (m / s + 2) + 4087 * s ≤ m := by
    obtain hmin | hsmall := hsmall
    · omega
    · have hover : m / s - 4087 ≤ m / s * s - 4087 * s := by
        rw [← Nat.sub_mul]
        exact Nat.le_mul_of_pos_right _ hs
      have hmul : m / s * s ≤ m := Nat.div_mul_le_self m s
      have hmul' : 4087 * s ≤ m / s * s := Nat.mul_le_mul_right s hx
      omega
  have hwide : 4087 ≤ (m - fatSectorCnt (m / s + 2)) / s :=
    (Nat.le_div_iff_mul_le hs).mpr (by omega)
  have htype : fatType (m / s + 2) = .fat16 := if_pos (by omega)
  rw [htype]
  refine ⟨by omega, ?_, by omega, if_neg (by omega)⟩
  change _ * 16 ≤ _
  omega

theorem Covers.fits (hm : m < 2 ^ 16 - 1)
    (H : Covers m s (fatSectorCnt (ushort (m / s + 2))) (fatType (ushort (m / s + 2)))) :
    1 ≤ m ∧ (s = 1 → m ≤ 65278) ∧ (m < 4086 * s ∨ 4087 * s + 17 ≤ m) := by
  have hle : m / s ≤ m := Nat.div_le_self m s
  have hpos : 1 ≤ m := by
    have := H.some_left
    have := H.room
    omega
  by_cases hsmall : m < 4086 * s
  · refine ⟨hpos, ?_, .inl hsmall⟩
    omega
  · have hx : 4086 ≤ m / s := (Nat.le_div_iff_mul_le hs).mpr (by omega)
    by_cases hall : s = 1 ∧ 65278 < m
    · exfalso
      obtain ⟨rfl, hlarge⟩ := hall
      have hone : fatSectorCnt (ushort (m / 1 + 2)) ≤ 1 := by
        by_cases htop : m = 65534
        · subst htop
          decide
        · have he : ushort (m / 1 + 2) = m + 2 := by
            rw [Nat.div_one, ushort]
            omega
          rw [he]
          exact fatSectorCnt_wrap (by omega) (by omega) (by omega)
      have hentries := H.entries
      have hbits : 12 ≤ (fatType (ushort (m / 1 + 2))).bits := by
        cases fatType (ushort (m / 1 + 2)) <;> decide
      have hmul := Nat.mul_le_mul_left
        ((m - fatSectorCnt (ushort (m / 1 + 2))) / 1 + 2) hbits
      generalize fatSectorCnt (ushort (m / 1 + 2)) = f at *
      rw [Nat.div_one] at hmul hentries
      omega
    · have hhalf : s = 1 ∨ m / s ≤ m / 2 := by
        by_cases hone : s = 1
        · exact .inl hone
        · exact .inr (Nat.div_le_div_left (by omega) (by norm_num))
      have he : ushort (m / s + 2) = m / s + 2 := by
        rw [ushort]
        omega
      have hfit : m / s + 2 + ((m / s + 2) * 2 + 511) / 512 < 2 ^ 16 := by omega
      rw [he] at H
      obtain ⟨-, hleast, -⟩ := fatSectorCnt_fat16 (e := m / s + 2) (by omega) hfit
      have hwidth := H.width
      have htype : fatType (m / s + 2) = .fat16 := if_pos (by omega)
      rw [htype] at hwidth
      have hwide : ¬ (m - fatSectorCnt (m / s + 2)) / s < 4087 := by
        intro hlt
        rw [if_pos hlt] at hwidth
        exact FatWidth.noConfusion hwidth
      have hmul := (Nat.le_div_iff_mul_le hs).mp (not_lt.mp hwide)
      have hroom := H.room
      exact ⟨hpos, by omega, .inr (by omega)⟩

end Covers

/-! ## What is in memory -/

namespace Image

variable {im : Image} {l : List (ℕ × List (BitVec 8))}

theorem bytes_stores_of_lt {k : ℕ} (h : ∀ s ∈ l, k < s.1) : (im.stores l).bytes k = im.bytes k := by
  induction l generalizing im with
  | nil => rfl
  | cons s l ih =>
    rw [List.forall_mem_cons] at h
    change ((im.store s.1 s.2).stores l).bytes k = _
    rw [ih h.2]
    exact if_neg (fun hle => absurd h.1 (not_lt.mpr hle.1))

theorem mem_written_stores {w : ℕ × ℕ} : w ∈ (im.stores l).written ↔
    w ∈ im.written ∨ ∃ s ∈ l, w = (s.1, s.2.length) := by
  induction l generalizing im with
  | nil => simp [stores]
  | cons s l ih =>
    change w ∈ ((im.store s.1 s.2).stores l).written ↔ _
    rw [ih, List.exists_mem_cons_iff]
    change w ∈ (s.1, s.2.length) :: im.written ∨ _ ↔ _
    rw [List.mem_cons]
    tauto

end Image

/-- What the fields of a boot sector are when they are read. -/
structure Stored (l : Layout) (b : Bpb) : Prop where
  bytesPerSector : b.bytesPerSector.toNat = 512
  sectorsPerCluster : b.sectorsPerCluster.toNat = l.bsSecPerClus
  reservedSectors : b.reservedSectors.toNat = 1
  fats : b.fats.toNat = 1
  rootEntries : b.rootEntries.toNat = l.bsRootDirEnts
  sectors : b.sectors.toNat = l.bsSectors
  sectorsPerFat : b.sectorsPerFat.toNat = l.bsFATsecs

theorem bsFATsecs_lt (l : Layout) : l.bsFATsecs < 2 ^ 16 := by
  rw [Layout.bsFATsecs, fatSectorCnt]
  cases fatType l.fatEntries <;> exact Nat.mod_lt _ (by norm_num)

theorem toNat_copyUchar2 {b : Bytes} {i n : ℕ} (hlow : b i = BitVec.ofNat 8 n)
    (hhigh : b (i + 1) = BitVec.ofNat 8 (n / 2 ^ 8)) (hn : n < 2 ^ 16) :
    (Fat.copyUchar2 b i).toNat = n := by
  rw [Fat.copyUchar2, Bytes.read16, hlow, hhigh, BitVec.toNat_ofNat, BitVec.toNat_ofNat,
    BitVec.toNat_ofNat]
  omega

theorem stored_bootSector (im : Image) {l : Layout} (hroot : l.bsRootDirEnts < 2 ^ 16)
    (hsectors : l.bsSectors < 2 ^ 16) (hclus : l.bsSecPerClus < 2 ^ 8) :
    Stored l (fatUnpackBios (im.stores (bootSector l)).bytes) where
  bytesPerSector := toNat_copyUchar2 rfl rfl (by norm_num)
  sectorsPerCluster := by
    change (BitVec.ofNat 8 l.bsSecPerClus).toNat = l.bsSecPerClus
    rw [BitVec.toNat_ofNat, Nat.mod_eq_of_lt hclus]
  reservedSectors := toNat_copyUchar2 rfl rfl (by norm_num)
  fats := rfl
  rootEntries := toNat_copyUchar2 rfl rfl hroot
  sectors := toNat_copyUchar2 rfl rfl hsectors
  sectorsPerFat := toNat_copyUchar2 rfl rfl (bsFATsecs_lt l)

theorem fatUnpackBios_congr {b b' : Bytes} (h : ∀ k < 44, b k = b' k) :
    fatUnpackBios b = fatUnpackBios b' := by
  simp [fatUnpackBios, Fat.copyUchar2, Fat.copyUchar4, Bytes.read16, Bytes.read32, h]

/-- What FAST FAT reads from the new disk. -/
theorem stored_bpb {memory : Bytes} {info : DiskInfo} {im : Image}
    (h : ramDiskFormatDisk memory info = some im) : Stored (layout info) im.bpb := by
  rw [ramDiskFormatDisk] at h
  by_cases hzero : (layout info).bsSecPerClus = 0
  · rw [if_pos hzero] at h
    exact absurd h (by simp)
  · rw [if_neg hzero, Option.some_inj] at h
    subst h
    have hboot := stored_bootSector (zeroMemory memory info.diskSize.toNat) (l := layout info)
      (Nat.mod_lt _ (by norm_num)) (Nat.mod_lt _ (by norm_num)) (Nat.mod_lt _ (by norm_num))
    rw [Image.bpb, fatUnpackBios_congr]
    · exact hboot
    · intro k hk
      apply Image.bytes_stores_of_lt
      intro s hs
      simp only [firstFatSector, rootDir, List.cons_append, List.nil_append, List.mem_cons,
        List.not_mem_nil, or_false] at hs
      obtain rfl | rfl | rfl | rfl := hs
      all_goals
        dsimp only
        omega

/-- The label reaches farthest. -/
theorem inside_iff {memory : Bytes} {info : DiskInfo} {im : Image}
    (h : ramDiskFormatDisk memory info = some im) :
    (∀ w ∈ im.written, w.1 + w.2 ≤ info.diskSize.toNat) ↔
      512 + 512 * (layout info).bsFATsecs + 12 ≤ info.diskSize.toNat := by
  rw [ramDiskFormatDisk] at h
  by_cases hzero : (layout info).bsSecPerClus = 0
  · rw [if_pos hzero] at h
    exact absurd h (by simp)
  · rw [if_neg hzero, Option.some_inj] at h
    subst h
    constructor
    · intro hinside
      refine hinside (512 + 512 * (layout info).bsFATsecs + 11, 1) ?_
      rw [Image.mem_written_stores]
      refine .inr ⟨(512 + 512 * (layout info).bsFATsecs + 11, [0x08]), ?_, rfl⟩
      simp [rootDir]
    · intro hle w hw
      rw [Image.mem_written_stores, Image.mem_written_stores] at hw
      obtain (hw | ⟨s, hs, rfl⟩) | ⟨s, hs, rfl⟩ := hw
      · rw [List.mem_singleton.mp hw, Nat.zero_add]
      · have hboot : ∀ s ∈ bootSector (layout info), s.1 + s.2.length ≤ 512 := by
          simp [bootSector, word, text]
        have := hboot s hs
        dsimp only
        omega
      · have hlength : (if (layout info).fatType = .fat16 then [(0xFF : BitVec 8)] else []).length
            ≤ 1 := by
          split <;> simp
        simp only [firstFatSector, rootDir, text, List.cons_append, List.nil_append, List.mem_cons,
          List.not_mem_nil, or_false] at hs
        obtain rfl | rfl | rfl | rfl := hs
        all_goals
          simp only [List.length_cons, List.length_map, List.length_nil]
          omega

/-- The clusters that FAST FAT counts. -/
theorem Stored.clusters {l : Layout} {b : Bpb} (H : Stored l b) {q : ℕ}
    (hroot : l.bsRootDirEnts = 16 * q) (hfat : l.bsFATsecs ≠ 0)
    (hareas : 1 + l.bsFATsecs + q ≤ l.bsSectors) :
    fatNumberOfClusters b = (l.bsSectors - 1 - q - l.bsFATsecs) / l.bsSecPerClus := by
  have hlt := b.sectors.isLt
  have hsectors : b.sectors ≠ 0 := by
    intro hzero
    have heq := H.sectors
    rw [hzero] at heq
    change 0 = _ at heq
    omega
  have h32 : b.isBpbFat32 = false := by
    refine decide_eq_false ?_
    intro hzero
    have heq := H.sectorsPerFat
    rw [hzero] at heq
    exact hfat heq.symm
  have hbytes : 16 * q * 32 / 512 = q := by omega
  rw [fatNumberOfClusters, Fat.fatOverheadSectors, Bpb.totalSectors, if_pos hsectors,
    Bpb.fatSectors, h32]
  simp only [Bool.false_eq_true, if_false]
  rw [H.reservedSectors, H.fats, H.sectorsPerFat, H.rootEntries, H.bytesPerSector, H.sectors,
    H.sectorsPerCluster, hroot, hbytes, Nat.one_mul]
  rw [H.sectors] at hlt
  have hinner : ulong l.bsFATsecs = l.bsFATsecs := Fat.ulong_of_lt (by omega)
  rw [hinner, Fat.ulong_of_lt (by omega), Fat.ulongSub_of_le (by omega) (by omega)]
  congr 1
  omega

theorem Stored.fatIndexBitSize {l : Layout} {b : Bpb} (H : Stored l b) (hfat : l.bsFATsecs ≠ 0) :
    fatIndexBitSize b = if fatNumberOfClusters b < 4087 then .fat12 else .fat16 := by
  rw [Fat.fatIndexBitSize, if_neg]
  rw [Bpb.isBpbFat32, decide_eq_true_eq]
  intro hzero
  have heq := H.sectorsPerFat
  rw [hzero] at heq
  exact hfat heq.symm

/-! ## Sound disks -/

/-- The boot sector has the values as they are. -/
structure Exact (info : DiskInfo) : Prop where
  sectors : (layout info).bsSectors = info.diskSize.toNat / 512
  rootDirEnts : (layout info).bsRootDirEnts = 16 * ((info.rootDirEntries.toNat + 15) / 16)
  secPerClus : (layout info).bsSecPerClus = info.sectorsPerCluster.toNat

theorem exact_iff (info : DiskInfo) : Exact info ↔ info.diskSize.toNat / 512 < 2 ^ 16 ∧
    info.rootDirEntries.toNat ≤ 65520 ∧ info.sectorsPerCluster.toNat < 2 ^ 8 := by
  have hsectors : (layout info).bsSectors = info.diskSize.toNat / 512 % 2 ^ 16 := rfl
  have hclus : (layout info).bsSecPerClus = info.sectorsPerCluster.toNat % 2 ^ 8 := rfl
  have hents : (layout info).bsRootDirEnts =
      roundRootDirEntries info.rootDirEntries.toNat % 2 ^ 16 := rfl
  constructor
  · intro H
    have h1 := H.sectors
    have h2 := H.rootDirEnts
    have h3 := H.secPerClus
    omega
  · intro h
    have hround : roundRootDirEntries info.rootDirEntries.toNat =
        16 * ((info.rootDirEntries.toNat + 15) / 16) := by
      rw [roundRootDirEntries, ulong]
      split <;> omega
    rw [hround] at hents
    constructor
    · omega
    · omega
    · omega

/-- The sectors behind the boot sector and the root directory are asked to hold a FAT and clusters. -/
theorem Exact.sound_iff_covers {memory : Bytes} {info : DiskInfo} {im : Image} (H : Exact info)
    (h : ramDiskFormatDisk memory info = some im) : Sound info im ↔
      1 ≤ rest info ∧
      Covers (rest info) info.sectorsPerCluster.toNat (layout info).bsFATsecs (layout info).fatType ∧
      512 + 512 * (layout info).bsFATsecs + 12 ≤ info.diskSize.toNat := by
  have hstored := stored_bpb h
  have hsectors := H.sectors
  have hroot := H.rootDirEnts
  have hrest : rest info =
    info.diskSize.toNat / 512 - 1 - (info.rootDirEntries.toNat + 15) / 16 := rfl
  constructor
  · intro S
    have hareas := S.areas
    rw [hstored.sectorsPerFat, hstored.rootEntries, hstored.sectors, hroot, hsectors] at hareas
    have hwidth := S.width
    have hfat : (layout info).bsFATsecs ≠ 0 := by
      intro hzero
      have h32 : im.bpb.isBpbFat32 = true := by
        have heq := hstored.sectorsPerFat
        rw [hzero] at heq
        exact decide_eq_true (BitVec.eq_of_toNat_eq heq)
      rw [fatIndexBitSize, if_pos h32, Layout.fatType, fatType] at hwidth
      split at hwidth <;> exact FatWidth.noConfusion hwidth
    have hclusters := hstored.clusters hroot hfat (by omega)
    rw [hstored.fatIndexBitSize hfat, hclusters, hsectors, H.secPerClus, ← hrest] at hwidth
    have hentries := S.entries
    rw [hclusters, hsectors, H.secPerClus, ← hrest, hstored.sectorsPerFat] at hentries
    exact ⟨by omega, ⟨by omega, hentries, hfat, hwidth⟩, (inside_iff h).mp S.inside⟩
  · rintro ⟨hpos, hcovers, hlabel⟩
    have hroom := hcovers.room
    have hfat := hcovers.some_left
    have hclusters := hstored.clusters hroot hfat (by omega)
    have hrestEq : (layout info).bsSectors - 1 - (info.rootDirEntries.toNat + 15) / 16 = rest info := by
      rw [hsectors, hrest]
    constructor
    · exact (inside_iff h).mpr hlabel
    · rw [hstored.sectors, hsectors]
    · rw [hstored.rootEntries, hroot, Nat.mul_comm]
    · rw [hstored.sectorsPerCluster, H.secPerClus]
    · rw [hstored.sectorsPerFat, hstored.rootEntries, hstored.sectors, hroot, hsectors]
      omega
    · rw [hclusters, hrestEq, H.secPerClus, hstored.sectorsPerFat]
      exact hcovers.entries
    · rw [hstored.fatIndexBitSize hfat, hclusters, hrestEq, H.secPerClus]
      exact hcovers.width

theorem Sound.exact {memory : Bytes} {info : DiskInfo} {im : Image}
    (h : ramDiskFormatDisk memory info = some im) (S : Sound info im) : Exact info := by
  have hstored := stored_bpb h
  constructor
  · rw [← hstored.sectors, S.sectors]
  · rw [← hstored.rootEntries, S.rootEntries, Nat.mul_comm]
  · rw [← hstored.sectorsPerCluster, S.sectorsPerCluster]

theorem secPerClus_ne_zero {memory : Bytes} {info : DiskInfo} {im : Image}
    (h : ramDiskFormatDisk memory info = some im) : (layout info).bsSecPerClus ≠ 0 := by
  intro hzero
  rw [ramDiskFormatDisk, if_pos hzero] at h
  exact absurd h (by simp)

theorem Exact.fatEntries {info : DiskInfo} (H : Exact info) (hpos : 1 ≤ rest info) :
    (layout info).fatEntries = ushort (rest info / info.sectorsPerCluster.toNat + 2) := by
  rw [rest] at hpos
  rw [Layout.fatEntries, H.sectors, H.rootDirEnts, H.secPerClus, fatEntries_eq (by omega)]
  rfl

/-- The label fits behind the FAT, where the root directory is not empty or the disk is not too
small. -/
theorem label_le {info : DiskInfo} (hlabel : info.rootDirEntries.toNat = 0 →
    1036 ≤ info.diskSize.toNat) {f : ℕ} (hroom : f ≤ rest info) (hone : f = rest info → f ≤ 1)
    (hpos : 1 ≤ rest info) : 512 + 512 * f + 12 ≤ info.diskSize.toNat := by
  rw [rest] at *
  by_cases hzero : info.rootDirEntries.toNat = 0
  · have := hlabel hzero
    omega
  · omega

/-- **The file system of a new RAM disk** is sound for exactly the values of `Fits`. -/
theorem sound_iff {memory : Bytes} {info : DiskInfo} {im : Image}
    (h : ramDiskFormatDisk memory info = some im) : Sound info im ↔ Fits info := by
  have hclus := secPerClus_ne_zero h
  constructor
  · intro S
    have H := S.exact h
    obtain ⟨hpos, hcovers, hlabel⟩ := (H.sound_iff_covers h).mp S
    obtain ⟨hdisk, hroot, hsmall⟩ := (exact_iff info).mp H
    have hs : 0 < info.sectorsPerCluster.toNat := by
      rw [← H.secPerClus]
      exact Nat.pos_of_ne_zero hclus
    have hm : rest info < 2 ^ 16 - 1 := by
      rw [rest] at *
      omega
    rw [Layout.bsFATsecs, Layout.fatType, H.fatEntries hpos] at hcovers
    obtain ⟨-, hall, hboundary⟩ := Covers.fits hs hm hcovers
    refine ⟨hsmall, hroot, hdisk, hpos, hall, hboundary, ?_⟩
    intro _
    have := hcovers.some_left
    rw [Layout.bsFATsecs, H.fatEntries hpos] at hlabel
    omega
  · intro F
    have H := (exact_iff info).mpr ⟨F.diskSize, F.rootDirEntries, F.sectorsPerCluster⟩
    have hpos := F.some_left
    have hs : 0 < info.sectorsPerCluster.toNat := by
      rw [← H.secPerClus]
      exact Nat.pos_of_ne_zero hclus
    have hm : rest info < 2 ^ 16 - 1 := by
      have := F.diskSize
      rw [rest] at *
      omega
    have hle : rest info / info.sectorsPerCluster.toNat ≤ rest info := Nat.div_le_self _ _
    have he : rest info / info.sectorsPerCluster.toNat + 2 < 2 ^ 16 := by
      by_cases hone : info.sectorsPerCluster.toNat = 1
      · have := F.not_all hone
        omega
      · have hhalf : rest info / info.sectorsPerCluster.toNat ≤ rest info / 2 :=
          Nat.div_le_div_left (by omega) (by norm_num)
        omega
    have hentries : (layout info).fatEntries = rest info / info.sectorsPerCluster.toNat + 2 := by
      rw [H.fatEntries hpos, ushort, Nat.mod_eq_of_lt he]
    have hcovers : Covers (rest info) info.sectorsPerCluster.toNat (layout info).bsFATsecs
        (layout info).fatType := by
      rw [Layout.bsFATsecs, Layout.fatType, hentries]
      obtain hlt | hge := F.boundary
      · exact covers_fat12 hs hpos hlt
      · exact covers_fat16 hs hm F.not_all hge
    rw [H.sound_iff_covers h]
    refine ⟨hpos, hcovers, label_le F.label hcovers.room ?_ hpos⟩
    intro heq
    have hfew := fatSectorCnt_le he
    rw [← hentries] at hfew
    change (layout info).bsFATsecs ≤ _ at hfew
    omega

/-! ## Two disks -/

/-- A disk in memory of zeros. -/
def formatted (info : DiskInfo) : Image :=
  ((zeroMemory (fun _ => 0) info.diskSize.toNat).stores (bootSector (layout info))).stores
    (firstFatSector (layout info) ++ rootDir (layout info))

/-- The default values. -/
def defaultInfo : DiskInfo := ⟨1024 * 1024, 512, 2⟩

theorem format_defaultInfo :
    ramDiskFormatDisk (fun _ => 0) defaultInfo = some (formatted defaultInfo) := rfl

theorem sound_default : Sound defaultInfo (formatted defaultInfo) :=
  (sound_iff format_defaultInfo).mpr ⟨by decide, by decide, by decide, by decide, by decide,
    by decide, by decide⟩

/-- Values that give as many clusters as there are at the boundary of the two widths. -/
def boundaryInfo : DiskInfo := ⟨4119 * 512, 512, 1⟩

/-- The FAT is written for 16 bits and read for 12. -/
theorem not_sound_boundary : ramDiskFormatDisk (fun _ => 0) boundaryInfo =
    some (formatted boundaryInfo) ∧ ¬ Sound boundaryInfo (formatted boundaryInfo) := by
  refine ⟨rfl, ?_⟩
  intro S
  exact absurd S.width (by decide +kernel)

end KernelDrivers.RamDisk
