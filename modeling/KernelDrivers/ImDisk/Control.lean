import Mathlib.Tactic

/-!
# The device control codes of ImDisk

The `switch` of `ImDiskDispatchDeviceControl`: what it answers to each control code, from the
contents of the request, the device extension and the answers of the system.  The sizes are those
of a 64-bit build.  The output buffers and the changes of the device extension are left out.

## Main definitions

* `Irp`, `Extension`, `Kernel` — what the dispatch routines read.
* `Answer` — a status with `IoStatus.Information`, or the request goes to the lower device.
* `controlSwitch` — the `switch`.
-/

namespace KernelDrivers.ImDisk.Disposal

/-- `NTSTATUS`. -/
abbrev Status := UInt32

namespace Status

def success : Status := 0
def pending : Status := 0x103
def unsuccessful : Status := 0xC0000001
def invalidParameter : Status := 0xC000000D
def invalidDeviceRequest : Status := 0xC0000010
def nonexistentSector : Status := 0xC0000015
def accessDenied : Status := 0xC0000022
def bufferTooSmall : Status := 0xC0000023
def objectNameNotFound : Status := 0xC0000034
def insufficientResources : Status := 0xC000009A
def mediaWriteProtected : Status := 0xC00000A2
def notSupported : Status := 0xC00000BB
def deviceRemoved : Status := 0xC00002B6

/-- `NT_SUCCESS`. -/
def ok (status : Status) : Bool := decide (status < 0x80000000)

end Status

/-- The control codes that the driver knows. -/
inductive Ioctl
  | setDeviceFlags
  | referenceHandle
  | getReferencedHandle
  | createDevice
  | removeDevice
  | ejectMedia
  | queryDriver
  | queryDevice
  | checkVerify
  | queryVersion
  | ioctlPassThrough
  | fsctlPassThrough
  | formatTracks
  | formatTracksEx
  | growPartition
  | updateProperties
  | getDriveGeometry
  | getLengthInfo
  | getPartitionInfo
  | getPartitionInfoEx
  | isWritable
  | mediaRemoval
  | manageDataSetAttributes
  | getLastSession
  | readToc
  | setPartitionInfo
  | setPartitionInfoEx
  | verify
  | getHotplugInfo
  | other (code : UInt32)
  deriving DecidableEq, Repr

inductive DeviceType
  | disk
  | cdRom
  | unknown
  deriving DecidableEq, Repr

/-- `FORMAT_PARAMETERS` and `FORMAT_EX_PARAMETERS`. -/
structure FormatParameters where
  startCylinderNumber : UInt32
  endCylinderNumber : UInt32
  startHeadNumber : UInt32
  endHeadNumber : UInt32
  formatGapLength : UInt16
  sectorsPerTrack : UInt16

/-- `AssociatedIrp.SystemBuffer`, as each control code reads it. -/
structure InputBuffer where
  flagsToChange : UInt32
  flagValues : UInt32
  fileObject : ℕ
  fileNameLength : UInt16
  deviceNumber : UInt32
  format : FormatParameters
  partitionNumber : UInt32
  bytesToGrow : Int64
  action : UInt32
  dataSetRangesOffset : UInt32
  dataSetRangesLength : UInt32
  partitionStyle : UInt32
  verifyOffset : Int64
  verifyLength : UInt32

/-- What a dispatch routine reads of the request. -/
structure Irp where
  /-- `IRP_MJ_CREATE` and not `IRP_MJ_CLOSE`, `IRP_MJ_WRITE` and not `IRP_MJ_READ`,
  `IRP_MJ_INTERNAL_DEVICE_CONTROL` and not `IRP_MJ_DEVICE_CONTROL`. -/
  major : Bool
  fileNameLength : ℕ
  byteOffset : Int64
  length : UInt32
  /-- The buffer of a write holds nothing but zeros. -/
  zero : Bool
  ioctl : Ioctl
  inputBufferLength : ℕ
  outputBufferLength : ℕ
  input : InputBuffer
  informationClass : ℕ
  informationLength : ℕ
  minorFunction : UInt8
  usageType : ℕ

structure Geometry where
  cylinders : Int64
  tracksPerCylinder : UInt32
  sectorsPerTrack : UInt32
  bytesPerSector : UInt32

structure Extension where
  /-- `ImDiskCtlDevice`. -/
  control : Bool
  deviceType : DeviceType
  terminateThread : Bool
  readOnly : Bool
  vmDisk : Bool
  useProxy : Bool
  proxyUnmap : Bool
  aweallocDisk : Bool
  parallelIo : Bool
  /-- `DO_DIRECT_IO` of the lower device. -/
  directIo : Bool
  useSetZeroData : Bool
  noFileLevelTrim : Bool
  fileHandle : Bool
  fileNameLength : UInt16
  specialFileCount : Int32
  geometry : Geometry
  lastIoData : Bool
  lastIoOffset : Int64
  lastIoLength : UInt32

/-- The answers of the system. -/
structure Kernel where
  irql : ℕ
  /-- `SeSinglePrivilegeCheck`. -/
  privilege : Bool
  /-- Whether the next allocation succeeds, one after the other. -/
  pool : ℕ → Bool
  /-- `MmGetSystemAddressForMdlSafe`, one call after the other. -/
  mapped : ℕ → Bool
  /-- The numbers of the devices, with the count of special files. -/
  devices : List (UInt32 × Int32)
  referencedObjects : List ℕ
  /-- `ObReferenceObjectByHandle`. -/
  reference : Status
  /-- `ImDiskAddVirtualDisk`. -/
  addVirtualDisk : Status
  /-- `FSCTL_SET_SPARSE`. -/
  setSparse : Status
  /-- `FSCTL_SET_ZERO_DATA` for each range, with the `Information` that it leaves. -/
  setZeroData : ℕ → Status × ℕ
  /-- `FSCTL_FILE_LEVEL_TRIM`. -/
  fileLevelTrim : Status
  /-- `IoCallDriver`. -/
  lower : Status

/-- What the `switch` comes to: a status with `IoStatus.Information`, or a return through
`ImDiskDeviceControlLowerDevice`. -/
inductive Answer
  | done (status : Status) (information : ℕ)
  | lower
  deriving DecidableEq, Repr

namespace Answer

/-- `status = …; break;`. -/
def status (s : Status) : Answer := .done s 0

/-- An output of `size` bytes, `short` being the status when there is no room for it. -/
def output (irp : Irp) (size : ℕ) (short : Status) : Answer :=
  if irp.outputBufferLength < size then .status short else .done .success size

end Answer

/-- `FlagsToChange` behind the changes that `IOCTL_IMDISK_SET_DEVICE_FLAGS` can make, and the
status of `FSCTL_SET_SPARSE` when it was called. -/
def changeFlags (irp : Irp) (e : Extension) (k : Kernel) : UInt32 × Status :=
  let flags := irp.input.flagsToChange
  let values := irp.input.flagValues
  let flags :=
    if flags &&& 1 ≠ 0 ∧ e.deviceType = .disk ∧
        ((values &&& 1 ≠ 0 ∧ e.specialFileCount ≤ 0) ∨ e.vmDisk) then flags &&& ~~~1 else flags
  let flags := if flags &&& 2 ≠ 0 ∧ e.deviceType = .disk then flags &&& ~~~2 else flags
  let flags := flags &&& ~~~0x10000
  if k.irql = 0 ∧ flags &&& 4 ≠ 0 ∧ values &&& 4 ≠ 0 ∧ ¬ e.useProxy ∧ ¬ e.vmDisk then
    (if k.setSparse.ok then flags &&& ~~~4 else flags, k.setSparse)
  else (flags, .success)

def setDeviceFlags (irp : Irp) (e : Extension) (k : Kernel) : Answer :=
  if irp.inputBufferLength < 8 then .status .invalidParameter
  else if 2 ≤ k.irql then .status .accessDenied
  else
    let (flags, status) := changeFlags irp e k
    .done (if flags = 0 then .success else if status.ok then .invalidDeviceRequest else status)
      (if 8 ≤ irp.outputBufferLength then 8 else 0)

def referenceHandle (irp : Irp) (k : Kernel) : Answer :=
  if 0 < k.irql then .status .accessDenied
  else if ¬ irp.major ∧ ¬ k.privilege then .status .accessDenied
  else if irp.inputBufferLength < 8 ∨ irp.outputBufferLength < 8 then .status .invalidParameter
  else if ¬ k.pool 0 then .status .insufficientResources
  else .done k.reference (if k.reference.ok then 8 else 0)

def getReferencedHandle (irp : Irp) (k : Kernel) : Answer :=
  if ¬ irp.major then .status .accessDenied
  else if irp.inputBufferLength < 8 then .status .invalidParameter
  else .status (if irp.input.fileObject ∈ k.referencedObjects then .success else .objectNameNotFound)

/-- `sizeof(IMDISK_CREATE_DATA)` is 56 with one character of the name. -/
def createDevice (irp : Irp) (k : Kernel) : Answer :=
  if 0 < k.irql then .status .accessDenied
  else if irp.inputBufferLength < 56 - 2 then .status .invalidParameter
  else if irp.inputBufferLength < 56 + irp.input.fileNameLength.toNat - 2 then
    .status .invalidParameter
  else
    .done k.addVirtualDisk
      (if k.addVirtualDisk.ok ∧ irp.inputBufferLength ≤ irp.outputBufferLength then
        irp.outputBufferLength else 0)

def removeDevice (irp : Irp) (k : Kernel) : Answer :=
  if irp.inputBufferLength < 4 then .status .invalidParameter
  else
    match k.devices.find? fun d => d.1 == irp.input.deviceNumber with
    | none => .status .objectNameNotFound
    | some d => .status (if 0 < d.2 then .accessDenied else .success)

/-- The control device, whose number is -1, is not in the list. -/
def queryDriver (irp : Irp) (k : Kernel) : Answer :=
  let numbers := (k.devices.map Prod.fst).filter fun n => n != 0xFFFFFFFF
  let highest := numbers.foldl max 0
  if 8 < irp.outputBufferLength then
    .done .success
      (if irp.outputBufferLength / 4 ≤ numbers.length then 4 else (numbers.length + 1) * 4)
  else if irp.outputBufferLength = 8 then
    .done (if 63 < highest then .invalidParameter else .success) 8
  else if 4 ≤ irp.outputBufferLength then
    .done (if 31 < highest then .invalidParameter else .success) 4
  else .status .invalidParameter

def queryDevice (irp : Irp) (e : Extension) : Answer :=
  if irp.outputBufferLength < 56 + e.fileNameLength.toNat + 2 then .status .bufferTooSmall
  else .done .success (56 + e.fileNameLength.toNat - 2)

def checkVerify (irp : Irp) (e : Extension) : Answer :=
  if e.vmDisk then .done .success (if 4 ≤ irp.outputBufferLength then 4 else 0)
  else .status .pending

/-- The pass-through codes are `METHOD_BUFFERED`. -/
def passThrough (irp : Irp) (e : Extension) : Answer :=
  if ¬ e.fileHandle then .status .invalidDeviceRequest
  else if irp.inputBufferLength < 4 then .status .invalidParameter
  else if e.parallelIo then .lower
  else .status .pending

/-- The checks on the track numbers, with the byte offsets computed in 32 bits. -/
def formatOutside (p : FormatParameters) (g : Geometry) : Bool :=
  let cylinders := g.cylinders / g.tracksPerCylinder.toUInt64.toInt64 /
    g.sectorsPerTrack.toUInt64.toInt64 / g.bytesPerSector.toUInt64.toInt64
  let offset := fun cylinder head : UInt32 =>
    cylinder * g.tracksPerCylinder * g.bytesPerSector * g.sectorsPerTrack +
      head * g.bytesPerSector * g.sectorsPerTrack
  decide (g.tracksPerCylinder - 1 < p.startHeadNumber) ||
  decide (g.tracksPerCylinder - 1 < p.endHeadNumber) ||
  decide (cylinders < p.startCylinderNumber.toUInt64.toInt64) ||
  decide (cylinders < p.endCylinderNumber.toUInt64.toInt64) ||
  decide (p.endCylinderNumber < p.startCylinderNumber) ||
  decide (g.cylinders ≤ (offset p.startCylinderNumber p.startHeadNumber).toUInt64.toInt64) ||
  decide (g.cylinders ≤ (offset p.endCylinderNumber p.endHeadNumber).toUInt64.toInt64)

def formatTracks (irp : Irp) (e : Extension) (k : Kernel) (ex : Bool) : Answer :=
  let p := irp.input.format
  if e.readOnly then .status .mediaWriteProtected
  else if irp.inputBufferLength < 20 then .status .invalidParameter
  else if ¬ k.pool 0 then .status .insufficientResources
  else if formatOutside p e.geometry then .status .invalidParameter
  else if ex ∧ (irp.inputBufferLength < 28 ∨
      irp.inputBufferLength < 28 + p.sectorsPerTrack.toNat * 2 - 2 ∨
      e.geometry.sectorsPerTrack < p.formatGapLength.toUInt32 ∨
      p.sectorsPerTrack.toUInt32 ≠ e.geometry.sectorsPerTrack) then .status .invalidParameter
  else .status .pending

def growPartition (irp : Irp) (e : Extension) : Answer :=
  if irp.inputBufferLength ≠ 16 then .status .bufferTooSmall
  else if e.readOnly then .status .mediaWriteProtected
  else if irp.input.partitionNumber ≠ 1 ∨
      e.geometry.cylinders + irp.input.bytesToGrow < e.geometry.cylinders then
    .status .invalidParameter
  else .status .pending

/-- The requests to zero the ranges, up to the first that fails. -/
def zeroRanges (k : Kernel) : ℕ → Status × ℕ
  | 0 => (.success, 0)
  | 1 => k.setZeroData 0
  | n + 2 =>
      let last := zeroRanges k (n + 1)
      if last.1.ok then k.setZeroData (n + 1) else last

def manageDataSetAttributes (irp : Irp) (e : Extension) (k : Kernel) : Answer :=
  let items := irp.input.dataSetRangesLength.toNat / 16
  if irp.inputBufferLength < 28 ∨ irp.inputBufferLength <
      (irp.input.dataSetRangesOffset + irp.input.dataSetRangesLength).toNat then
    .status .invalidParameter
  -- `DeviceDsmAction_Trim`
  else if irp.input.action ≠ 1 then .status .invalidDeviceRequest
  else if items = 0 then .status .success
  else if (e.useProxy ∧ ¬ e.proxyUnmap) ∨ e.vmDisk ∨ e.aweallocDisk then .status .success
  else if e.useProxy then .status .pending
  else
    let zeroed := zeroRanges k items
    if e.noFileLevelTrim then .done zeroed.1 zeroed.2
    else if ¬ k.pool 0 then .done .insufficientResources zeroed.2
    else .done (if k.fileLevelTrim.ok then k.fileLevelTrim else .success) zeroed.2

def setPartitionInfo (irp : Irp) (e : Extension) (size : ℕ) (refused : Bool) : Answer :=
  if e.readOnly then .status .mediaWriteProtected
  else if irp.inputBufferLength < size then .status .invalidParameter
  else .status (if refused then .unsuccessful else .success)

def verify (irp : Irp) (e : Extension) : Answer :=
  if irp.inputBufferLength < 16 then .status .invalidParameter
  else if e.readOnly then .status .mediaWriteProtected
  else if e.geometry.cylinders <
      irp.input.verifyOffset + irp.input.verifyLength.toUInt64.toInt64 then
    .status .nonexistentSector
  else .status .success

def controlSwitch (irp : Irp) (e : Extension) (k : Kernel) : Answer :=
  match irp.ioctl with
  | .setDeviceFlags => setDeviceFlags irp e k
  | .referenceHandle => referenceHandle irp k
  | .getReferencedHandle => getReferencedHandle irp k
  | .createDevice => createDevice irp k
  | .removeDevice => removeDevice irp k
  | .ejectMedia => .status (if 0 < e.specialFileCount then .accessDenied else .success)
  | .queryDriver => queryDriver irp k
  | .queryDevice => queryDevice irp e
  | .checkVerify => checkVerify irp e
  | .queryVersion => .output irp 4 .invalidParameter
  | .ioctlPassThrough => passThrough irp e
  | .fsctlPassThrough => passThrough irp e
  | .formatTracks => formatTracks irp e k false
  | .formatTracksEx => formatTracks irp e k true
  | .growPartition => growPartition irp e
  | .updateProperties => .status .success
  | .getDriveGeometry => .output irp 24 .bufferTooSmall
  | .getLengthInfo => .output irp 8 .bufferTooSmall
  | .getPartitionInfo => .output irp 32 .bufferTooSmall
  | .getPartitionInfoEx => .output irp 144 .bufferTooSmall
  | .isWritable => .status (if e.readOnly then .mediaWriteProtected else .success)
  | .mediaRemoval => .status .success
  | .manageDataSetAttributes => manageDataSetAttributes irp e k
  | .getLastSession => .status .success
  | .readToc =>
      if e.deviceType ≠ .cdRom then .status .invalidDeviceRequest
      else .output irp 804 .bufferTooSmall
  | .setPartitionInfo => setPartitionInfo irp e 1 false
  -- `PARTITION_STYLE_MBR` is 0
  | .setPartitionInfoEx => setPartitionInfo irp e 120 (irp.input.partitionStyle != 0)
  | .verify => verify irp e
  | .getHotplugInfo => .output irp 8 .invalidParameter
  | .other _ => .status .invalidDeviceRequest

end KernelDrivers.ImDisk.Disposal
