import KernelDrivers.ImDisk.VmDisk

/-!
# The size and the geometry of a new device

`ImDiskCreateDevice` fills in what the request left out: the size from the image or the proxy, the
geometry from the first sector, from a table of floppy formats, and from defaults for the type of the
device.

## Main definitions

* `CreateData` — the request.
* `System` — the answers of the system.
* `imDiskReadFormattedGeometry`, `selectDeviceType`, `fillGeometry` — the stages behind the size.
* `openedSize`, `proxySize` — the size of an image and of a proxy.
* `imDiskCreateDevice` — the routine.
* `Usable` — the geometry has no zeros and fits the disk, and the disk fits its image.

## Main results

* `usable_iff` — when a device is usable.
* `created_vm` — a memory disk has its buffer.
-/

namespace KernelDrivers.ImDisk.CreateDevice

open Disposal Signed VmDisk

/-! ## The request -/

/-- `MEDIA_TYPE`, as far as it is named. -/
inductive MediaType
  | unknown
  | f5_1Pt2_512
  | f3_1Pt44_512
  | f3_2Pt88_512
  | f3_720_512
  | f5_360_512
  | f5_320_512
  | f5_180_512
  | f5_160_512
  | removableMedia
  | fixedMedia
  | f3_120M_512
  | f5_640_512
  | other (value : ℕ)
  deriving DecidableEq, Repr

/-- `IMDISK_CREATE_DATA`. -/
structure CreateData where
  deviceNumber : UInt32
  geometry : Geometry
  mediaType : MediaType
  imageOffset : Int64
  flags : UInt32
  fileNameLength : UInt16
  /-- The name has four characters at least and ends in `.iso`, `.nrg` or `.bin`. -/
  opticalName : Bool

/-! ### Flags -/

def readOnly (flags : UInt32) : Bool := flags &&& 0x1 != 0

def sparseFile (flags : UInt32) : Bool := flags &&& 0x4 != 0

def byteSwap (flags : UInt32) : Bool := flags &&& 0x8 != 0

/-- `IMDISK_DEVICE_TYPE`. -/
def deviceType (flags : UInt32) : UInt32 := flags &&& 0xF0

def deviceTypeHd : UInt32 := 0x10

def deviceTypeFd : UInt32 := 0x20

def deviceTypeCd : UInt32 := 0x30

/-- `IMDISK_TYPE`. -/
def imdiskType (flags : UInt32) : UInt32 := flags &&& 0xF00

def typeFile : UInt32 := 0x100

def typeVm : UInt32 := 0x200

def typeProxy : UInt32 := 0x300

/-- `IMDISK_FILE_TYPE`. -/
def fileType (flags : UInt32) : UInt32 := flags &&& 0xF000

def fileTypeAweAlloc : UInt32 := 0x1000

def fileTypeParallelIo : UInt32 := 0x2000

/-! ### The answers of the system -/

/-- `FAT_BPB`. -/
structure FatBpb where
  bytesPerSector : UInt16
  sectorsPerTrack : UInt16
  numberOfHeads : UInt16

/-- `IMDPROXY_INFO_RESP`. -/
structure ProxyInfo where
  fileSize : UInt64
  reqAlignment : UInt64
  flags : UInt64

structure System where
  build : Build
  maxDevices : UInt32
  /-- `ImDiskFindFreeDeviceNumber`. -/
  freeDeviceNumber : UInt32
  /-- The image file is opened or created, or the proxy connected. -/
  opened : Bool
  /-- `FSCTL_SET_SPARSE`. -/
  setSparse : Bool
  /-- `FileEndOfFileInformation`. -/
  setEndOfFile : Bool
  /-- `ImDiskGetDiskSize`. -/
  diskSize : Option Int64
  /-- `FileAlignmentInformation`. -/
  alignment : Bool
  /-- `ZwAllocateVirtualMemory`. -/
  allocate : ℕ → Option (Buffer UInt8)
  /-- `ImDiskQueryInformationProxy`. -/
  proxyInfo : Option ProxyInfo
  /-- The allocation of a `FAT_VBR`. -/
  pool : Bool
  /-- The first sector, with any contents. -/
  firstSector : Option FatBpb
  /-- The device object and its link are created. -/
  created : Bool

/-- Sizes are not negative, and an allocation has at least the bytes asked for. -/
structure System.Documented (s : System) : Prop where
  size : ∀ size, s.diskSize = some size → 0 ≤ size.toInt
  allocated : ∀ size buffer, s.allocate size = some buffer → size ≤ buffer.size

/-! ## The stages -/

/-- The sector size with its factors of two taken out. -/
def oddPart (tmp : UInt16) : UInt16 :=
  (List.range 16).foldl (fun tmp _ => if tmp &&& 1 = 0 then tmp >>> 1 else tmp) tmp

/-- An entry of `media_table` behind the size that it is looked up with. -/
structure Media where
  size : Int64
  cylinders : Int64
  mediaType : MediaType
  tracksPerCylinder : UInt32
  sectorsPerTrack : UInt32
  bytesPerSector : UInt32

def mediaTable : List Media :=
  [⟨234752 * 1024, 963, .f3_120M_512, 8, 32, 512⟩,
    ⟨123264 * 1024, 262, .f3_120M_512, 32, 56, 512⟩,
    ⟨2880 * 1024, 80, .f3_2Pt88_512, 2, 36, 512⟩,
    ⟨1722 * 1024, 82, .f3_1Pt44_512, 2, 21, 512⟩,
    ⟨1680 * 1024, 80, .f3_1Pt44_512, 2, 21, 512⟩,
    ⟨1440 * 1024, 80, .f3_1Pt44_512, 2, 18, 512⟩,
    ⟨820 * 1024, 82, .f3_720_512, 2, 10, 512⟩,
    ⟨720 * 1024, 80, .f3_720_512, 2, 9, 512⟩,
    ⟨1200 * 1024, 80, .f5_1Pt2_512, 2, 15, 512⟩,
    ⟨640 * 1024, 40, .f5_640_512, 2, 18, 512⟩,
    ⟨360 * 1024, 40, .f5_360_512, 2, 9, 512⟩,
    ⟨320 * 1024, 40, .f5_320_512, 2, 8, 512⟩,
    ⟨180 * 1024, 40, .f5_180_512, 1, 9, 512⟩,
    ⟨160 * 1024, 40, .f5_160_512, 1, 8, 512⟩]

/-- The `switch` on a size. -/
def findMedia (size : Int64) : Option Media := mediaTable.find? fun m => m.size == size

/-- A field that the request left zero. -/
def orElse (x y : UInt32) : UInt32 := if x = 0 then y else x

/-- `ImDiskReadFormattedGeometry`. -/
def imDiskReadFormattedGeometry (d : CreateData) (bpb : FatBpb) : CreateData :=
  if bpb.bytesPerSector = 0 then d
  else if 64 ≤ bpb.sectorsPerTrack then d
  else if 256 ≤ bpb.numberOfHeads then d
  else if oddPart bpb.bytesPerSector ≠ 1 then d
  else
    let d := { d with geometry :=
      { cylinders := d.geometry.cylinders
        tracksPerCylinder := orElse d.geometry.tracksPerCylinder bpb.numberOfHeads.toUInt32
        sectorsPerTrack := orElse d.geometry.sectorsPerTrack bpb.sectorsPerTrack.toUInt32
        bytesPerSector := orElse d.geometry.bytesPerSector bpb.bytesPerSector.toUInt32 } }
    if (deviceType d.flags = deviceTypeFd ∨ deviceType d.flags = 0) ∧ d.mediaType = .unknown then
      match findMedia d.geometry.cylinders with
      | some m => { d with flags := d.flags ||| deviceTypeFd, mediaType := m.mediaType }
      | none => d
    else d

/-- Some field of the geometry is zero. -/
def incomplete (g : Geometry) : Bool :=
  decide (g.tracksPerCylinder = 0 ∨ g.sectorsPerTrack = 0 ∨ g.bytesPerSector = 0)

/-- A new size. -/
def CreateData.setSize (d : CreateData) (size : Int64) : CreateData :=
  { d with geometry := { d.geometry with cylinders := size } }

/-- The size behind the stage that asks for it. -/
def askedSize (d : CreateData) (asked : Int64) : CreateData :=
  if d.geometry.cylinders = 0 then d.setSize asked else d

/-- The geometry from the first sector of an image file.  An error is logged, and the creation goes
on. -/
def fileGeometry (s : System) (d : CreateData) : Option CreateData :=
  if ¬ incomplete d.geometry then some d
  else if ¬ s.pool then none
  else some ((s.firstSector.map (imDiskReadFormattedGeometry d)).getD d)

/-- The geometry from the first sector of a proxy. -/
def proxyGeometry (s : System) (d : CreateData) : Option CreateData :=
  if ¬ incomplete d.geometry then some d
  else if ¬ s.pool then none
  else s.firstSector.map (imDiskReadFormattedGeometry d)

/-- The memory of a `vm` disk, whose size was `left` to the image, or the alignment of others. -/
def imageMemory (s : System) (d : CreateData) (left : Bool) : Option (Option (Buffer UInt8)) :=
  if imdiskType d.flags = typeVm then
    if s.build = .x86 ∧ left ∧ d.geometry.cylinders.toUInt64 &&& 0xFFFFFFFF80000000 ≠ 0 then none
    else (s.allocate (s.build.native d.geometry.cylinders)).map some
  else if s.alignment then some none
  else none

/-- The size, the memory and the first sector of an image file. -/
def openedSize (s : System) (d : CreateData) : Option (CreateData × Option (Buffer UInt8)) :=
  s.diskSize.bind fun diskSize =>
    let sized := askedSize d (diskSize - d.imageOffset)
    (imageMemory s sized (d.geometry.cylinders = 0)).bind fun buffer =>
      (fileGeometry s sized).map fun d => (d, buffer)

/-- The size and the first sector of a proxy. -/
def proxySize (s : System) (d : CreateData) : Option CreateData :=
  s.proxyInfo.bind fun info =>
    (proxyGeometry s (askedSize d info.fileSize.toInt64)).bind fun d =>
      if 0x1FF < info.reqAlignment - 1 ∨ d.geometry.cylinders = 0 then none
      else if info.flags &&& 1 ≠ 0 then some { d with flags := d.flags ||| 1 }
      else some d

/-- The device type, when there is none. -/
def selectDeviceType (d : CreateData) : CreateData :=
  if deviceType d.flags = 0 then
    { d with flags := d.flags |||
        if (findMedia d.geometry.cylinders).isSome then deviceTypeFd else deviceTypeHd }
  else d

/-- A round of the loop: cylinders and tracks. -/
def doubleRound (c : Int64 × UInt32) : Int64 × UInt32 :=
  if 128 < c.1 ∧ c.2 < 128 then (c.1 >>> 1, c.2 <<< 1) else c

/-- The tracks of a hard disk.  Behind seven rounds there are 128 at most, and the loop has ended. -/
def doubleTracks (calccyl : Int64) : UInt32 :=
  ((List.range 7).foldl (fun c _ => doubleRound c) (calccyl, 1)).2

/-- A signed quotient. -/
def dividedBy (x : Int64) (n : UInt32) : Int64 := x / n.toUInt64.toInt64

/-- The defaults for optical disks. -/
def fillOptical (d : CreateData) : CreateData :=
  let g := d.geometry
  let bytes := orElse g.bytesPerSector 2048
  let calccyl := dividedBy g.cylinders bytes
  let sectors := orElse g.sectorsPerTrack (if calccyl / 32 * 32 = calccyl then 32 else 1)
  let calccyl := dividedBy calccyl sectors
  let tracks := orElse g.tracksPerCylinder (if calccyl / 64 * 64 = calccyl then 64 else 1)
  { d with
    geometry := ⟨g.cylinders, tracks, sectors, bytes⟩
    mediaType := if d.mediaType = .unknown then .removableMedia else d.mediaType }

/-- A floppy disk without any geometry takes that of its format, and keeps its size. -/
def fillFloppy (d : CreateData) : CreateData :=
  let g := d.geometry
  if deviceType d.flags = deviceTypeFd ∧ g.bytesPerSector = 0 ∧ g.sectorsPerTrack = 0 ∧
      g.tracksPerCylinder = 0 ∧ d.mediaType = .unknown then
    match findMedia g.cylinders with
    | some m => { d with
        geometry := ⟨g.cylinders, m.tracksPerCylinder, m.sectorsPerTrack, m.bytesPerSector⟩
        mediaType := m.mediaType }
    | none => d
  else d

/-- The defaults for all others. -/
def fillFixed (d : CreateData) : CreateData :=
  let g := d.geometry
  let bytes := orElse g.bytesPerSector 512
  let sectors := orElse g.sectorsPerTrack 63
  let calccyl := dividedBy (dividedBy g.cylinders bytes) sectors
  let tracks := orElse g.tracksPerCylinder (if 130560 ≤ calccyl then 255 else doubleTracks calccyl)
  { d with
    geometry := ⟨g.cylinders, tracks, sectors, bytes⟩
    mediaType := if d.mediaType = .unknown then .fixedMedia else d.mediaType }

/-- What is left zero is filled in. -/
def fillGeometry (d : CreateData) : CreateData :=
  if deviceType d.flags = deviceTypeCd then fillOptical d else fillFixed (fillFloppy d)

/-- The image has a name, or is memory of its own. -/
def named (d : CreateData) : Bool :=
  d.fileNameLength != 0 ||
    (imdiskType d.flags == typeFile && fileType d.flags == fileTypeAweAlloc)

/-- The checks in front of everything else. -/
def acceptable (s : System) (d : CreateData) : Bool :=
  let large := decide (65536 < d.geometry.cylinders)
  let vm := imdiskType d.flags == typeVm
  let file := imdiskType d.flags == typeFile
  let number := if d.deviceNumber = 0xFFFFFFFF then s.freeDeviceNumber else d.deviceNumber
  !(d.fileNameLength == 0 &&
    !((vm && large) || (file && fileType d.flags == fileTypeAweAlloc && large))) &&
  !(s.build == .x86 && vm && d.geometry.cylinders.toUInt64 &&& 0xFFFFFFFF80000000 != 0) &&
  decide (number < s.maxDevices) &&
  !(byteSwap d.flags && file && fileType d.flags == fileTypeParallelIo)

/-- The type of the image, when there is none. -/
def selectType (d : CreateData) : CreateData :=
  if imdiskType d.flags = 0 then
    { d with flags := d.flags ||| if d.fileNameLength = 0 then typeVm else typeFile }
  else d

/-- The flags of an image with a name. -/
def selectFlags (s : System) (d : CreateData) : CreateData :=
  let flags := d.flags
  let flags := if deviceType flags = 0 ∧ d.opticalName then flags ||| deviceTypeCd ||| 1 else flags
  let flags := if deviceType flags = deviceTypeCd then flags ||| 1 else flags
  let flags :=
    if imdiskType flags = typeFile ∧ ¬ readOnly flags ∧ sparseFile flags ∧ ¬ s.setSparse then
      flags &&& ~~~4 else flags
  { d with flags := flags }

/-- The size of a proxy or of an image file. -/
def imageSize (s : System) (d : CreateData) : Option (CreateData × Option (Buffer UInt8)) :=
  if imdiskType d.flags = typeProxy then (proxySize s d).map fun d => (d, none) else openedSize s d

/-- The image is opened, and its size adjusted to the size asked for. -/
def openImage (s : System) (d : CreateData) : Option (CreateData × Option (Buffer UInt8)) :=
  let d := selectFlags s d
  if ¬ s.opened then none
  else if imdiskType d.flags = typeFile ∧ ¬ readOnly d.flags ∧ d.geometry.cylinders ≠ 0 ∧
      d.imageOffset = 0 ∧ ¬ s.setEndOfFile then none
  else
    (imageSize s d).bind fun r => if r.1.geometry.cylinders ≤ 65536 then none else some r

/-- The image, or the memory of a disk without one. -/
def backing (s : System) (d : CreateData) : Option (CreateData × Option (Buffer UInt8)) :=
  if named d then openImage s d
  else (s.allocate (s.build.native d.geometry.cylinders)).map fun buffer => (d, some buffer)

/-- `ImDiskCreateDevice`, as far as the size and the geometry go: the request as it is used, and the
image buffer. -/
def imDiskCreateDevice (s : System) (d : CreateData) :
    Option (CreateData × Option (Buffer UInt8)) :=
  let d := selectType d
  if ¬ acceptable s d then none
  else
    (backing s d).bind fun r =>
      if s.created then some (fillGeometry (selectDeviceType r.1), r.2) else none

/-! ## What is said of it -/

/-- `IOCTL_DISK_GET_DRIVE_GEOMETRY`. -/
def getDriveGeometry (g : Geometry) : Geometry :=
  { g with
    cylinders :=
      dividedBy (dividedBy (dividedBy g.cylinders g.tracksPerCylinder) g.sectorsPerTrack)
        g.bytesPerSector }

/-- The bytes of a geometry. -/
def described (g : Geometry) : ℤ :=
  g.cylinders.toInt * g.tracksPerCylinder.toNat * g.sectorsPerTrack.toNat * g.bytesPerSector.toNat

/-- The size of the image or proxy that was asked. -/
def queriedSize (s : System) (d : CreateData) : Option ℤ :=
  if imdiskType (selectType d).flags = typeProxy then s.proxyInfo.map fun i => (i.fileSize.toNat : ℤ)
  else s.diskSize.map Int64.toInt

/-- **A usable device.** -/
structure Usable (s : System) (d : CreateData) (g : Geometry) (offset : Int64) : Prop where
  tracks : g.tracksPerCylinder ≠ 0
  sectors : g.sectorsPerTrack ≠ 0
  bytes : g.bytesPerSector ≠ 0
  large : 65536 < g.cylinders.toInt
  fits : described (getDriveGeometry g) ≤ g.cylinders.toInt
  window : d.geometry.cylinders = 0 → ∀ size, queriedSize s d = some size →
    0 ≤ offset.toInt ∧ offset.toInt + g.cylinders.toInt ≤ size

/-! ## Small facts -/

section Facts

variable {x y : UInt32} {c : Int64}

theorem orElse_ne_zero (h : y ≠ 0) : orElse x y ≠ 0 := by
  rw [orElse]
  split
  · exact h
  · assumption

theorem toInt_dividedBy (n : UInt32) (h : 0 ≤ c.toInt) : (dividedBy c n).toInt = c.toInt / n.toNat := by
  have hlt := (bounds c).2
  have hdiv : 0 ≤ c.toInt / (n.toNat : ℤ) := Int.ediv_nonneg h (by omega)
  have hle : c.toInt / (n.toNat : ℤ) ≤ c.toInt := Int.ediv_le_self _ h
  rw [dividedBy, Int64.toInt_div, toInt_ofUInt32, Int.tdiv_eq_ediv_of_nonneg h,
    Int.bmod_eq_of_le (by omega) (by omega)]

/-- Rounded quotients describe no more than there is. -/
theorem described_getDriveGeometry_le {g : Geometry} (h : 0 ≤ g.cylinders.toInt) :
    described (getDriveGeometry g) ≤ g.cylinders.toInt := by
  have hone : 0 ≤ (dividedBy g.cylinders g.tracksPerCylinder).toInt := by
    rw [toInt_dividedBy _ h]
    exact Int.ediv_nonneg h (by omega)
  have htwo : 0 ≤ (dividedBy (dividedBy g.cylinders g.tracksPerCylinder) g.sectorsPerTrack).toInt := by
    rw [toInt_dividedBy _ hone]
    exact Int.ediv_nonneg hone (by omega)
  rw [described, getDriveGeometry]
  dsimp only
  rw [toInt_dividedBy _ htwo, toInt_dividedBy _ hone, toInt_dividedBy _ h]
  generalize g.cylinders.toInt = c at *
  generalize g.tracksPerCylinder.toNat = t
  generalize g.sectorsPerTrack.toNat = u
  generalize g.bytesPerSector.toNat = b
  rw [Int.ediv_ediv_of_nonneg (by omega), Int.ediv_ediv_of_nonneg (by positivity), mul_assoc, mul_assoc,
    ← mul_assoc (t : ℤ)]
  rcases eq_or_ne ((t : ℤ) * u * b) 0 with hzero | hne
  · rw [hzero, mul_zero]
    exact h
  · exact Int.ediv_mul_le c hne

/-- There is a track at least. -/
theorem doubleTracks_ne_zero (calccyl : Int64) : doubleTracks calccyl ≠ 0 := by
  have hrounds : ∀ n, 0 < ((List.range n).foldl (fun c _ => doubleRound c) (calccyl, 1)).2.toNat := by
    intro n
    induction n with
    | zero => simp
    | succ n ih =>
        rw [List.range_succ, List.foldl_append, List.foldl_cons, List.foldl_nil]
        generalize (List.range n).foldl (fun c _ => doubleRound c) (calccyl, 1) = p at ih
        rw [doubleRound]
        split
        · next hp =>
          have hlt : p.2.toNat < 128 := UInt32.lt_iff_toNat_lt.mp hp.2
          dsimp only
          rw [UInt32.toNat_shiftLeft]
          simp only [UInt32.reduceToNat, Nat.reduceMod, Nat.shiftLeft_eq]
          omega
        · exact ih
  intro hzero
  have := hrounds 7
  rw [doubleTracks] at hzero
  rw [hzero] at this
  exact absurd this (by decide)

end Facts

/-! ## The stages one by one -/

section Stages

variable {s : System} {d d' : CreateData} {buffer : Option (Buffer UInt8)}

/-- A stage that leaves the size, the offset and the type of the image alone. -/
structure Keeps (d d' : CreateData) : Prop where
  cylinders : d'.geometry.cylinders = d.geometry.cylinders
  offset : d'.imageOffset = d.imageOffset
  type : imdiskType d'.flags = imdiskType d.flags

theorem Keeps.refl (d : CreateData) : Keeps d d := ⟨rfl, rfl, rfl⟩

theorem Keeps.trans {d'' : CreateData} (h : Keeps d d') (h' : Keeps d' d'') : Keeps d d'' :=
  ⟨h'.cylinders.trans h.cylinders, h'.offset.trans h.offset, h'.type.trans h.type⟩

theorem or_and (a b m : UInt32) : (a ||| b) &&& m = a &&& m ||| b &&& m := by
  apply UInt32.toBitVec_inj.1
  ext i hi
  simp [Bool.and_or_distrib_right]

theorem imdiskType_or (flags : UInt32) {bits : UInt32} (h : bits &&& 0xF00 = 0) :
    imdiskType (flags ||| bits) = imdiskType flags := by
  rw [imdiskType, or_and, h, UInt32.or_zero, imdiskType]

theorem keeps_readFormattedGeometry (d : CreateData) (bpb : FatBpb) :
    Keeps d (imDiskReadFormattedGeometry d bpb) := by
  have hfd : imdiskType (d.flags ||| deviceTypeFd) = imdiskType d.flags := imdiskType_or _ (by decide)
  rw [imDiskReadFormattedGeometry]
  split_ifs
  · exact .refl d
  · exact .refl d
  · exact .refl d
  · exact .refl d
  · dsimp only
    split
    · split
      · exact ⟨rfl, rfl, hfd⟩
      · exact ⟨rfl, rfl, rfl⟩
    · exact ⟨rfl, rfl, rfl⟩

theorem keeps_selectDeviceType (d : CreateData) : Keeps d (selectDeviceType d) := by
  rw [selectDeviceType]
  split
  · refine ⟨rfl, rfl, imdiskType_or _ ?_⟩
    split <;> decide
  · exact .refl d

theorem keeps_fillFloppy (d : CreateData) : Keeps d (fillFloppy d) := by
  rw [fillFloppy]
  split
  · split <;> exact ⟨rfl, rfl, rfl⟩
  · exact .refl d

theorem keeps_fillGeometry (d : CreateData) : Keeps d (fillGeometry d) := by
  rw [fillGeometry]
  split
  · exact ⟨rfl, rfl, rfl⟩
  · exact (keeps_fillFloppy d).trans ⟨rfl, rfl, rfl⟩

theorem keeps_selectFlags (s : System) (d : CreateData) : Keeps d (selectFlags s d) := by
  refine ⟨rfl, rfl, ?_⟩
  have hclear : ∀ flags, imdiskType (flags &&& ~~~4) = imdiskType flags := by
    intro flags
    rw [imdiskType, UInt32.and_assoc]
    rfl
  have hoptical : ∀ flags, imdiskType (flags ||| deviceTypeCd ||| 1) = imdiskType flags := by
    intro flags
    rw [imdiskType_or _ (by decide), imdiskType_or _ (by decide)]
  have hreadOnly : ∀ flags, imdiskType (flags ||| 1) = imdiskType flags := fun flags =>
    imdiskType_or _ (by decide)
  rw [selectFlags]
  dsimp only
  split_ifs <;> simp only [hclear, hoptical, hreadOnly]

/-- Nothing is left zero. -/
theorem fillGeometry_ne_zero (d : CreateData) :
    (fillGeometry d).geometry.tracksPerCylinder ≠ 0 ∧ (fillGeometry d).geometry.sectorsPerTrack ≠ 0 ∧
      (fillGeometry d).geometry.bytesPerSector ≠ 0 := by
  rw [fillGeometry]
  split
  · have hone : ∀ p [Decidable p] (n : UInt32), n ≠ 0 → (if p then n else 1) ≠ 0 := by
      intro p _ n hn
      split
      · exact hn
      · decide
    exact ⟨orElse_ne_zero (hone _ 64 (by decide)), orElse_ne_zero (hone _ 32 (by decide)),
      orElse_ne_zero (by decide)⟩
  · refine ⟨orElse_ne_zero ?_, orElse_ne_zero (by decide), orElse_ne_zero (by decide)⟩
    split
    · decide
    · exact doubleTracks_ne_zero _

/-- The size behind a stage that asks for it: `asked` when the request left it zero. -/
structure Sizes (d d' : CreateData) (asked : Int64) : Prop where
  given : d.geometry.cylinders ≠ 0 → d'.geometry.cylinders = d.geometry.cylinders
  left : d.geometry.cylinders = 0 → d'.geometry.cylinders = asked
  offset : d'.imageOffset = d.imageOffset
  type : imdiskType d'.flags = imdiskType d.flags

theorem Sizes.keeps {asked : Int64} {d'' : CreateData} (h : Sizes d d' asked) (hk : Keeps d' d'') :
    Sizes d d'' asked :=
  ⟨fun hd => hk.cylinders.trans (h.given hd), fun hd => hk.cylinders.trans (h.left hd),
    hk.offset.trans h.offset, hk.type.trans h.type⟩

theorem Keeps.sizes {asked : Int64} {d'' : CreateData} (hk : Keeps d d') (h : Sizes d' d'' asked) :
    Sizes d d'' asked :=
  ⟨fun hd => (h.given (hk.cylinders ▸ hd)).trans hk.cylinders, fun hd => h.left (hk.cylinders ▸ hd),
    h.offset.trans hk.offset, h.type.trans hk.type⟩

theorem sizes_askedSize (d : CreateData) (asked : Int64) : Sizes d (askedSize d asked) asked := by
  rw [askedSize]
  split
  · next hleft => exact ⟨fun hd => absurd hleft hd, fun _ => rfl, rfl, rfl⟩
  · next hgiven => exact ⟨fun _ => rfl, fun hd => absurd hd hgiven, rfl, rfl⟩

theorem keeps_fileGeometry (h : fileGeometry s d = some d') : Keeps d d' := by
  rw [fileGeometry] at h
  split_ifs at h
  · rw [← Option.some.inj h]
    cases s.firstSector with
    | none => exact .refl d
    | some bpb => exact keeps_readFormattedGeometry d bpb
  · exact Option.some.inj h ▸ .refl d

theorem keeps_proxyGeometry (h : proxyGeometry s d = some d') : Keeps d d' := by
  rw [proxyGeometry] at h
  split_ifs at h
  · obtain ⟨bpb, -, rfl⟩ := Option.map_eq_some_iff.mp h
    exact keeps_readFormattedGeometry d bpb
  · exact Option.some.inj h ▸ .refl d

theorem proxySize_spec (h : proxySize s d = some d') :
    ∃ info, s.proxyInfo = some info ∧ Sizes d d' info.fileSize.toInt64 := by
  rw [proxySize, Option.bind_eq_some_iff] at h
  obtain ⟨info, hinfo, h⟩ := h
  rw [Option.bind_eq_some_iff] at h
  obtain ⟨d₁, hgeometry, h⟩ := h
  have hsizes := (sizes_askedSize d info.fileSize.toInt64).keeps (keeps_proxyGeometry hgeometry)
  refine ⟨info, hinfo, ?_⟩
  split_ifs at h
  · rw [← Option.some.inj h]
    exact hsizes.keeps ⟨rfl, rfl, imdiskType_or _ (by decide)⟩
  · rw [← Option.some.inj h]
    exact hsizes

/-- What a memory disk has behind its size. -/
structure Allotted (s : System) (d d' : CreateData) (buffer : Option (Buffer UInt8)) : Prop where
  allocated : ∃ b, buffer = some b ∧ s.build.native d'.geometry.cylinders ≤ b.size
  narrow : s.build = .x86 → d.geometry.cylinders = 0 →
    d'.geometry.cylinders.toUInt64 &&& 0xFFFFFFFF80000000 = 0

theorem openedSize_spec (hs : s.Documented) (h : openedSize s d = some (d', buffer)) :
    ∃ size, s.diskSize = some size ∧ Sizes d d' (size - d.imageOffset) ∧
      (imdiskType d.flags = typeVm → Allotted s d d' buffer) := by
  rw [openedSize, Option.bind_eq_some_iff] at h
  obtain ⟨size, hsize, h⟩ := h
  have hsizes := sizes_askedSize d (size - d.imageOffset)
  dsimp only at h
  generalize askedSize d (size - d.imageOffset) = sized at h hsizes
  rw [Option.bind_eq_some_iff] at h
  obtain ⟨memory, hmemory, h⟩ := h
  obtain ⟨d₁, hgeometry, hpair⟩ := Option.map_eq_some_iff.mp h
  obtain ⟨rfl, rfl⟩ := Prod.mk.inj hpair
  have hkeeps := keeps_fileGeometry hgeometry
  refine ⟨size, hsize, hsizes.keeps hkeeps, fun hvm => ?_⟩
  rw [imageMemory, if_pos (hsizes.type.trans hvm)] at hmemory
  split_ifs at hmemory with hlarge
  obtain ⟨b, hb, rfl⟩ := Option.map_eq_some_iff.mp hmemory
  rw [decide_eq_true_iff, ← hkeeps.cylinders] at hlarge
  rw [← hkeeps.cylinders] at hb
  exact ⟨⟨b, rfl, hs.allocated _ _ hb⟩, fun hx hleft => not_not.mp fun hne => hlarge ⟨hx, hleft, hne⟩⟩

/-- What an image or a proxy answers. -/
def Answered (s : System) (d : CreateData) (asked : Int64) : Prop :=
  if imdiskType d.flags = typeProxy then
    ∃ info, s.proxyInfo = some info ∧ asked = info.fileSize.toInt64
  else ∃ size, s.diskSize = some size ∧ asked = size - d.imageOffset

theorem openImage_spec (hs : s.Documented) (h : openImage s d = some (d', buffer)) :
    65536 < d'.geometry.cylinders.toInt ∧ (∃ asked, Answered s d asked ∧ Sizes d d' asked) ∧
      (imdiskType d.flags = typeVm → Allotted s d d' buffer) := by
  have hkeeps := keeps_selectFlags s d
  rw [openImage] at h
  split_ifs at h with hopened heof
  rw [Option.bind_eq_some_iff] at h
  obtain ⟨⟨d₁, memory⟩, hsized, h⟩ := h
  split_ifs at h with hsmall
  obtain ⟨rfl, rfl⟩ := Prod.mk.inj (Option.some.inj h)
  refine ⟨?_, ?_⟩
  · rw [Int64.le_iff_toInt_le, not_le] at hsmall
    exact hsmall
  · rw [imageSize, hkeeps.type] at hsized
    split_ifs at hsized with hproxy
    · obtain ⟨d₂, hsize, hpair⟩ := Option.map_eq_some_iff.mp hsized
      obtain ⟨rfl, rfl⟩ := Prod.mk.inj hpair
      obtain ⟨info, hinfo, hsizes⟩ := proxySize_spec hsize
      refine ⟨⟨_, ?_, hkeeps.sizes hsizes⟩, fun hvm => ?_⟩
      · rw [Answered, if_pos hproxy]
        exact ⟨info, hinfo, rfl⟩
      · rw [hproxy] at hvm
        exact absurd hvm (by decide)
    · obtain ⟨size, hsize, hsizes, hallotted⟩ := openedSize_spec hs hsized
      refine ⟨⟨_, ?_, hkeeps.sizes hsizes⟩, fun hvm => ?_⟩
      · rw [Answered, if_neg hproxy]
        exact ⟨size, hsize, by rw [hkeeps.offset]⟩
      · obtain ⟨hallocated, hnarrow⟩ := hallotted (hkeeps.type.trans hvm)
        exact ⟨hallocated, fun hx hleft => hnarrow hx (hkeeps.cylinders.trans hleft)⟩

/-- A disk without an image has a size. -/
theorem blank_of_acceptable (h : acceptable s d = true) (hnamed : ¬ named d) :
    imdiskType d.flags = typeVm ∧ 65536 < d.geometry.cylinders.toInt := by
  simp only [named, Bool.or_eq_true, bne_iff_ne, ne_eq, Bool.and_eq_true, beq_iff_eq, not_or, not_not,
    not_and] at hnamed
  obtain ⟨hname, hawe⟩ := hnamed
  simp only [acceptable, Bool.and_eq_true, Bool.not_eq_true', hname, beq_self_eq_true, Bool.true_and,
    Bool.not_eq_false', Bool.or_eq_true, beq_iff_eq, decide_eq_true_eq] at h
  obtain ⟨⟨⟨hblank, -⟩, -⟩, -⟩ := h
  rcases hblank with ⟨hvm, hlarge⟩ | ⟨⟨hfile, hfileType⟩, -⟩
  · exact ⟨hvm, Int64.lt_iff_toInt_lt.mp hlarge⟩
  · exact absurd hfileType (hawe hfile)

/-- A memory disk of the 32-bit driver is small. -/
theorem narrow_of_acceptable (h : acceptable s d = true) (hx : s.build = .x86)
    (hvm : imdiskType d.flags = typeVm) :
    d.geometry.cylinders.toUInt64 &&& 0xFFFFFFFF80000000 = 0 := by
  simp only [acceptable, Bool.and_eq_true, Bool.not_eq_true'] at h
  obtain ⟨⟨⟨-, hnarrow⟩, -⟩, -⟩ := h
  by_contra hne
  simp [hx, hvm, hne] at hnarrow

end Stages

/-! ## The routine -/

section Routine

variable {s : System} {d d' : CreateData} {buffer : Option (Buffer UInt8)}

theorem selectType_eq (d : CreateData) :
    (selectType d).geometry = d.geometry ∧ (selectType d).imageOffset = d.imageOffset := by
  rw [selectType]
  split <;> exact ⟨rfl, rfl⟩

/-- **What is created**: a disk of the size asked for, or of the size that was answered, with a
geometry without zeros. -/
theorem imDiskCreateDevice_spec (hs : s.Documented) (h : imDiskCreateDevice s d = some (d', buffer)) :
    (d'.geometry.tracksPerCylinder ≠ 0 ∧ d'.geometry.sectorsPerTrack ≠ 0 ∧
      d'.geometry.bytesPerSector ≠ 0) ∧
    65536 < d'.geometry.cylinders.toInt ∧
    (∃ asked, (d.geometry.cylinders = 0 → Answered s (selectType d) asked) ∧
      Sizes (selectType d) d' asked) ∧
    acceptable s (selectType d) = true ∧
    (imdiskType (selectType d).flags = typeVm → Allotted s (selectType d) d' buffer) := by
  have hgeometry := (selectType_eq d).1
  rw [imDiskCreateDevice] at h
  generalize selectType d = d₀ at h hgeometry ⊢
  rw [← hgeometry]
  have hacceptable : acceptable s d₀ = true := by
    by_contra hno
    rw [if_pos hno] at h
    cases h
  rw [if_neg (not_not.mpr hacceptable), Option.bind_eq_some_iff] at h
  obtain ⟨⟨d₁, memory⟩, hsized, h⟩ := h
  split_ifs at h with hcreated
  obtain ⟨rfl, rfl⟩ := Prod.mk.inj (Option.some.inj h)
  have hfill : Keeps d₁ (fillGeometry (selectDeviceType d₁)) :=
    (keeps_selectDeviceType d₁).trans (keeps_fillGeometry _)
  have hnonzero := fillGeometry_ne_zero (selectDeviceType d₁)
  generalize fillGeometry (selectDeviceType d₁) = d₂ at hfill hnonzero
  refine ⟨hnonzero, ?_⟩
  rw [hfill.cylinders]
  rw [backing] at hsized
  split_ifs at hsized with hnamed
  · obtain ⟨hlarge, ⟨asked, hanswered, hsizes⟩, hallotted⟩ := openImage_spec hs hsized
    refine ⟨hlarge, ⟨asked, fun _ => hanswered, hsizes.keeps hfill⟩, hacceptable, fun hvm => ?_⟩
    obtain ⟨⟨b, hb, hsize⟩, hnarrow⟩ := hallotted hvm
    exact ⟨⟨b, hb, by rw [hfill.cylinders]; exact hsize⟩, by rw [hfill.cylinders]; exact hnarrow⟩
  · obtain ⟨-, hlarge⟩ := blank_of_acceptable hacceptable hnamed
    obtain ⟨b, hb, hpair⟩ := Option.map_eq_some_iff.mp hsized
    obtain ⟨rfl, rfl⟩ := Prod.mk.inj hpair
    have hgiven : d₀.geometry.cylinders ≠ 0 := by
      intro hzero
      rw [hzero] at hlarge
      exact absurd hlarge (by decide)
    refine ⟨hlarge, ⟨0, fun hzero => absurd hzero hgiven, ⟨fun _ => hfill.cylinders,
      fun hzero => absurd hzero hgiven, hfill.offset, hfill.type⟩⟩, hacceptable, fun _ => ⟨⟨b, rfl, ?_⟩,
        fun _ hzero => absurd hzero hgiven⟩⟩
    rw [hfill.cylinders]
    exact hs.allocated _ _ hb

/-- A memory disk is what the device thread relies on. -/
theorem created_vm (hs : s.Documented) {b : Buffer UInt8}
    (h : imDiskCreateDevice s d = some (d', some b)) (hvm : imdiskType (selectType d).flags = typeVm)
    (e : Extension) (he : e.geometry = d'.geometry) : Created s.build ⟨e, b, []⟩ := by
  obtain ⟨-, hlarge, ⟨asked, -, hsizes⟩, hacceptable, hallotted⟩ := imDiskCreateDevice_spec hs h
  obtain ⟨⟨b', hb, hsize⟩, hnarrow⟩ := hallotted hvm
  cases hb
  have hcyl : (⟨e, b, []⟩ : Vm).cylinders = d'.geometry.cylinders := congrArg Geometry.cylinders he
  have hmask : s.build = .x86 → d'.geometry.cylinders.toInt < 2 ^ 31 := by
    intro hx
    have hzero : d'.geometry.cylinders.toUInt64 &&& 0xFFFFFFFF80000000 = 0 := by
      by_cases hleft : (selectType d).geometry.cylinders = 0
      · exact hnarrow hx hleft
      · rw [hsizes.given hleft]
        exact narrow_of_acceptable hacceptable hx hvm
    rw [← toNat_toUInt64 (by omega)]
    exact_mod_cast and_mask_eq_zero hzero
  refine ⟨by rw [hcyl]; omega, ?_, by rw [hcyl]; exact hmask, rfl⟩
  rw [hcyl, ← native_eq (by omega) hmask]
  exact_mod_cast hsize

/-- **When a device is usable**: the request gave a size, or its offset is not negative, and zero for a
proxy. -/
theorem usable_iff (hs : s.Documented) (h : imDiskCreateDevice s d = some (d', buffer)) :
    Usable s d d'.geometry d'.imageOffset ↔
      (d.geometry.cylinders = 0 → 0 ≤ d.imageOffset.toInt ∧
        (imdiskType (selectType d).flags = typeProxy → d.imageOffset = 0)) := by
  obtain ⟨⟨htracks, hsectors, hbytes⟩, hlarge, ⟨asked, hanswered, hsizes⟩, -, -⟩ :=
    imDiskCreateDevice_spec hs h
  have hoffset : d'.imageOffset = d.imageOffset := hsizes.offset.trans (selectType_eq d).2
  have hcyl := bounds d'.geometry.cylinders
  have hwindow : (d.geometry.cylinders = 0 → ∀ size, queriedSize s d = some size →
      0 ≤ d'.imageOffset.toInt ∧ d'.imageOffset.toInt + d'.geometry.cylinders.toInt ≤ size) ↔
      (d.geometry.cylinders = 0 → 0 ≤ d.imageOffset.toInt ∧
        (imdiskType (selectType d).flags = typeProxy → d.imageOffset = 0)) := by
    refine imp_congr_right fun hleft => ?_
    have hasked := hsizes.left (by rw [(selectType_eq d).1]; exact hleft)
    have hanswered := hanswered hleft
    rw [Answered] at hanswered
    rw [hoffset, hasked, queriedSize]
    rw [hasked] at hlarge hcyl
    split_ifs at hanswered ⊢ with hproxy
    · obtain ⟨info, hinfo, rfl⟩ := hanswered
      have hnat := toNat_toUInt64 (a := info.fileSize.toInt64) (by omega)
      rw [UInt64.toUInt64_toInt64] at hnat
      rw [hinfo]
      constructor
      · intro h
        obtain ⟨hpos, hend⟩ := h info.fileSize.toNat rfl
        refine ⟨hpos, fun _ => Int64.toInt_inj.mp ?_⟩
        rw [Int64.toInt_zero]
        omega
      · rintro ⟨hpos, hzero⟩ size hsize
        have hsize : (info.fileSize.toNat : ℤ) = size := Option.some.inj hsize
        rw [hzero hproxy, Int64.toInt_zero]
        omega
    · obtain ⟨diskSize, hdisk, rfl⟩ := hanswered
      rw [(selectType_eq d).2] at hlarge hcyl ⊢
      rw [hdisk]
      have hpos := hs.size _ hdisk
      have hdb := bounds diskSize
      have hob := bounds d.imageOffset
      constructor
      · intro h
        exact ⟨(h _ rfl).1, fun hp => absurd hp hproxy⟩
      · rintro ⟨hnonneg, -⟩ size hsize
        cases hsize
        rw [toInt_sub_of_lt (by omega) (by omega)]
        omega
  exact ⟨fun husable => hwindow.mp husable.window, fun hcond => ⟨htracks, hsectors, hbytes, hlarge,
    described_getDriveGeometry_le (by omega), hwindow.mpr hcond⟩⟩

/-! ### An image file and a proxy -/

/-- A system with an image of 16 MiB behind a file and behind a proxy. -/
def plainSystem : System where
  build := .x64
  maxDevices := 16
  freeDeviceNumber := 0
  opened := true
  setSparse := true
  setEndOfFile := true
  diskSize := some 16777216
  alignment := true
  allocate := fun n => some ⟨n, fun _ => 0⟩
  proxyInfo := some ⟨16777216, 1, 0⟩
  pool := true
  firstSector := some ⟨512, 63, 255⟩
  created := true

/-- A request for all of an image behind its first mebibyte. -/
def wholeImage (flags : UInt32) : CreateData where
  deviceNumber := 0xFFFFFFFF
  geometry := ⟨0, 0, 0, 0⟩
  mediaType := .unknown
  imageOffset := 1048576
  flags := flags
  fileNameLength := 16
  opticalName := false

theorem plainSystem_documented : plainSystem.Documented := by
  constructor
  · rintro size h
    cases h
    decide
  · rintro size buffer h
    cases h
    exact le_rfl

/-- A file. -/
theorem usable_wholeImage : ∃ d' buffer,
    imDiskCreateDevice plainSystem (wholeImage typeFile) = some (d', buffer) ∧
      Usable plainSystem (wholeImage typeFile) d'.geometry d'.imageOffset := by
  have hsome : (imDiskCreateDevice plainSystem (wholeImage typeFile)).isSome = true := by
    decide +kernel
  obtain ⟨⟨d', buffer⟩, h⟩ := Option.isSome_iff_exists.mp hsome
  exact ⟨d', buffer, h, (usable_iff plainSystem_documented h).mpr fun _ => ⟨by decide, by decide⟩⟩

/-- The disk of a proxy ends one mebibyte behind the end of the image. -/
theorem not_usable_wholeImage_proxy : ¬ ∀ s d d' buffer, System.Documented s →
    imDiskCreateDevice s d = some (d', buffer) → Usable s d d'.geometry d'.imageOffset := by
  intro hall
  have hcreate : (imDiskCreateDevice plainSystem (wholeImage typeProxy)).map
      (fun r => (r.1.geometry.cylinders, r.1.imageOffset)) = some (16777216, 1048576) := by
    decide +kernel
  obtain ⟨⟨d', buffer⟩, h, hpair⟩ := Option.map_eq_some_iff.mp hcreate
  obtain ⟨hsize, hoffset⟩ := Prod.mk.inj hpair
  have hwindow := (hall _ _ d' buffer plainSystem_documented h).window rfl 16777216 (by decide)
  dsimp only at hsize hoffset
  rw [hsize, hoffset] at hwindow
  exact absurd hwindow.2 (by decide)

end Routine

end KernelDrivers.ImDisk.CreateDevice
