import KernelDrivers.ImDisk.Control

/-!
# What the dispatch routines do with a request

A dispatch routine completes its request, or puts it in the list of the device thread, or hands it
to the lower device.  The record of a call keeps what was done with the request, in order.

## Main definitions

* `Call` — `IoStatus` and the record.
* `Routine.dispatch` — the seven dispatch routines.
* `Disposed` — the request is disposed of exactly once, and the status fits.

## Main results

* `disposed_iff` — for every routine, request, device and system.
-/

namespace KernelDrivers.ImDisk.Disposal

inductive Act
  /-- `IoCompleteRequest`, with the status that the request held. -/
  | complete (status : Status)
  /-- `IoMarkIrpPending`. -/
  | markPending
  /-- `ImDiskInterlockedInsertTailList`. -/
  | insertTail
  /-- `IoCallDriver` with the request itself. -/
  | forward
  /-- `IoCallDriver` with a request whose completion routine completes this one. -/
  | send
  deriving DecidableEq, Repr

structure Call where
  status : Status
  information : ℕ
  acts : List Act
  deriving DecidableEq, Repr

namespace Call

def act (c : Call) (a : Act) : Call := { c with acts := c.acts ++ [a] }

def store (c : Call) (status : Status) : Call := { c with status := status }

def info (c : Call) (information : ℕ) : Call := { c with information := information }

/-- `IoCompleteRequest`. -/
def complete (c : Call) : Call := c.act (.complete c.status)

/-- `IoStatus` is set, the request completed and the status returned. -/
def finish (c : Call) (status : Status) (information : ℕ) : Call × Status :=
  (((c.store status).info information).complete, status)

/-- The request is marked pending and goes to the thread. -/
def queue (c : Call) : Call × Status := ((c.act .markPending).act .insertTail, .pending)

end Call

/-- What a routine leaves behind, and what it returns.  The last two are the two ways to the lower
device. -/
def Disposed (k : Kernel) (r : Call × Status) : Prop :=
  r.1.acts = [.complete r.2] ∨
  (r.1.acts = [.markPending, .insertTail] ∧ r.2 = .pending) ∨
  (r.1.acts = [.forward] ∧ r.2 = k.lower) ∨
  (r.1.acts = [.markPending, .send] ∧ r.2 = .pending)

instance (k : Kernel) (r : Call × Status) : Decidable (Disposed k r) :=
  inferInstanceAs (Decidable (_ ∨ _))

/-! ### The lower device -/

/-- `ImDiskDeviceControlLowerDevice`. -/
def deviceControlLowerDevice (k : Kernel) (c : Call) : Call × Status := (c.act .forward, k.lower)

/-- `ImDiskReadWriteLowerDevice`; `transfer` is a read or a write, and not a flush.  `map` counts
the mappings that the caller has made. -/
def readWriteLowerDevice (e : Extension) (k : Kernel) (transfer : Bool) (map : ℕ) (c : Call) :
    Call × Status :=
  if e.directIo then (c.act .forward, k.lower)
  else if ¬ k.pool 0 then c.finish .insufficientResources 0
  else if transfer ∧ ¬ k.mapped map then c.finish .insufficientResources 0
  else if ¬ k.pool 1 then c.finish .insufficientResources 0
  else if transfer ∧ ¬ k.pool 2 then c.finish .insufficientResources 0
  else ((c.act .markPending).act .send, .pending)

/-! ### The routines -/

/-- `ImDiskDispatchCreateClose`. -/
def dispatchCreateClose (irp : Irp) (e : Extension) (c : Call) : Call × Status :=
  if irp.fileNameLength ≠ 0 then c.finish .objectNameNotFound 0
  else if irp.major ∧ e.terminateThread then c.finish .deviceRemoved 0
  -- `FILE_OPENED`
  else c.finish .success 1

/-- The request starts or ends in front of the disk, in 64-bit arithmetic. -/
def negative (irp : Irp) : Bool :=
  decide (irp.byteOffset < 0) || decide (irp.byteOffset + irp.length.toUInt64.toInt64 < 0)

/-- The test on the last-I/O buffer. -/
def hit (irp : Irp) (e : Extension) : Bool :=
  e.lastIoData && decide (e.lastIoOffset ≤ irp.byteOffset) &&
    decide (irp.byteOffset + irp.length.toUInt64.toInt64 ≤
      e.lastIoOffset + e.lastIoLength.toUInt64.toInt64)

/-- `ImDiskDispatchReadWrite` behind its checks.  A write whose buffer cannot be mapped has its
error stored, and goes to the lower device all the same. -/
def transferData (irp : Irp) (e : Extension) (k : Kernel) (c : Call) : Call × Status :=
  let write := irp.major
  if ¬ write ∧ hit irp e then
    if k.mapped 0 then c.finish .success irp.length.toNat
    else c.finish .insufficientResources 0
  else if e.parallelIo then
    if e.useSetZeroData ∧ write ∧ 8 < irp.length then
      if ¬ k.mapped 0 then
        readWriteLowerDevice e k true 1 ((c.store .insufficientResources).info 0)
      else if irp.zero ∧ irp.length % 8 = 0 then c.queue
      else readWriteLowerDevice e k true 1 c
    else readWriteLowerDevice e k true 0 c
  else c.queue

/-- `ImDiskDispatchReadWrite`. -/
def dispatchReadWrite (irp : Irp) (e : Extension) (k : Kernel) (c : Call) : Call × Status :=
  if negative irp then ((c.finish .invalidParameter 0).1, .success)
  else if e.control then c.finish .invalidDeviceRequest 0
  else if e.terminateThread then c.finish .deviceRemoved 0
  else if irp.major ∧ e.readOnly then c.finish .mediaWriteProtected 0
  else if e.geometry.cylinders < irp.byteOffset + irp.length.toUInt64.toInt64 then
    c.finish .success 0
  else if irp.length = 0 then c.finish .success 0
  else transferData irp e k c

/-- The end that several routines have. -/
def settle (status : Status) (c : Call) : Call × Status :=
  if status = .pending then c.queue else ((c.store status).complete, status)

/-- The control codes that the control device takes. -/
def controlCode : Ioctl → Bool
  | .queryVersion | .createDevice | .removeDevice | .queryDriver | .referenceHandle
  | .getReferencedHandle => true
  | _ => false

/-- The control codes that only the control device takes. -/
def controlOnly : Ioctl → Bool
  | .createDevice | .removeDevice | .referenceHandle | .getReferencedHandle => true
  | _ => false

/-- `ImDiskDispatchDeviceControl`. -/
def dispatchDeviceControl (irp : Irp) (e : Extension) (k : Kernel) (c : Call) : Call × Status :=
  let c := c.info 0
  if e.terminateThread then c.finish .deviceRemoved 0
  else if e.control ∧ ¬ controlCode irp.ioctl then c.finish .invalidDeviceRequest 0
  else if ¬ e.control ∧ controlOnly irp.ioctl then c.finish .invalidDeviceRequest 0
  else
    match controlSwitch irp e k with
    | .lower => deviceControlLowerDevice k c
    | .done status information => settle status (c.info information)

/-- `ImDiskDispatchFlushBuffers`. -/
def dispatchFlushBuffers (e : Extension) (k : Kernel) (c : Call) : Call × Status :=
  if e.control then ((c.store .invalidDeviceRequest).info 0, .invalidDeviceRequest)
  else if e.terminateThread then c.finish .deviceRemoved 0
  else if e.readOnly then c.finish .mediaWriteProtected 0
  else if e.useProxy ∨ e.vmDisk then ((c.store .success).complete, .success)
  else if e.parallelIo then readWriteLowerDevice e k false 0 c
  else c.queue

/-- `FileStandardInformation` and `FilePositionInformation` are 5 and 14. -/
def queryAnswer (irp : Irp) (information : ℕ) : Status × ℕ :=
  if irp.informationClass = 5 then
    if irp.informationLength < 24 then (.bufferTooSmall, 0) else (.success, 24)
  else if irp.informationClass = 14 then
    if irp.informationLength < 8 then (.bufferTooSmall, information) else (.success, 8)
  else (.invalidDeviceRequest, 0)

/-- `ImDiskDispatchQueryInformation`. -/
def dispatchQueryInformation (irp : Irp) (e : Extension) (c : Call) : Call × Status :=
  if e.control then ((c.store .invalidDeviceRequest).info 0, .invalidDeviceRequest)
  else if e.terminateThread then c.finish .deviceRemoved 0
  else settle (queryAnswer irp c.information).1 (c.info (queryAnswer irp c.information).2)

/-- `FileBasicInformation`, `FileDispositionInformation` and `FileValidDataLengthInformation` are
4, 13 and 39. -/
def setAnswer (irp : Irp) : Status :=
  if irp.informationClass = 14 then
    if irp.informationLength < 8 then .invalidParameter else .success
  else if irp.informationClass = 4 ∨ irp.informationClass = 13 ∨ irp.informationClass = 39 then
    .success
  else .invalidDeviceRequest

/-- `ImDiskDispatchSetInformation`. -/
def dispatchSetInformation (irp : Irp) (e : Extension) (c : Call) : Call × Status :=
  if e.control then ((c.store .invalidDeviceRequest).info 0, .invalidDeviceRequest)
  else if e.terminateThread then c.finish .deviceRemoved 0
  else c.finish (setAnswer irp) 0

/-- `IRP_MN_DEVICE_USAGE_NOTIFICATION` is 0x16, `DeviceUsageTypePaging` and
`DeviceUsageTypeDumpFile` are 1 and 3.  The status of a read-only device is overwritten. -/
def pnpAnswer (irp : Irp) (information : ℕ) : Status × ℕ :=
  if irp.minorFunction = 0x16 then
    (if irp.usageType = 1 ∨ irp.usageType = 3 then .success else .notSupported, information)
  else (.invalidDeviceRequest, 0)

/-- `ImDiskDispatchPnP`. -/
def dispatchPnP (irp : Irp) (e : Extension) (c : Call) : Call × Status :=
  if e.control then c.finish .invalidDeviceRequest 0
  else if e.terminateThread then c.finish .deviceRemoved 0
  else settle (pnpAnswer irp c.information).1 (c.info (pnpAnswer irp c.information).2)

inductive Routine
  | createClose
  | readWrite
  | deviceControl
  | flushBuffers
  | queryInformation
  | setInformation
  | pnp
  deriving DecidableEq, Repr

def Routine.dispatch (r : Routine) (irp : Irp) (e : Extension) (k : Kernel) (c : Call) :
    Call × Status :=
  match r with
  | .createClose => dispatchCreateClose irp e c
  | .readWrite => dispatchReadWrite irp e k c
  | .deviceControl => dispatchDeviceControl irp e k c
  | .flushBuffers => dispatchFlushBuffers e k c
  | .queryInformation => dispatchQueryInformation irp e c
  | .setInformation => dispatchSetInformation irp e c
  | .pnp => dispatchPnP irp e c

/-! ### The ends of the routines -/

variable {irp : Irp} {e : Extension} {k : Kernel} {c : Call}

/-- A request that nothing was done with. -/
def Call.Fresh (c : Call) : Prop := c.acts = []

theorem disposed_finish (h : c.Fresh) (status : Status) (information : ℕ) :
    Disposed k (c.finish status information) := by
  left
  have hacts : c.acts = [] := h
  simp [Call.finish, Call.complete, Call.act, Call.store, Call.info, hacts]

theorem disposed_complete (h : c.Fresh) (status : Status) :
    Disposed k ((c.store status).complete, status) := by
  left
  have hacts : c.acts = [] := h
  simp [Call.complete, Call.act, Call.store, hacts]

theorem disposed_queue (h : c.Fresh) : Disposed k c.queue := by
  right
  left
  have hacts : c.acts = [] := h
  simp [Call.queue, Call.act, hacts]

theorem disposed_forward (h : c.Fresh) : Disposed k (c.act .forward, k.lower) := by
  have hacts : c.acts = [] := h
  simp [Disposed, Call.act, hacts]

theorem disposed_send (h : c.Fresh) : Disposed k ((c.act .markPending).act .send, .pending) := by
  have hacts : c.acts = [] := h
  simp [Disposed, Call.act, hacts]

theorem disposed_settle (h : c.Fresh) (status : Status) : Disposed k (settle status c) := by
  rw [settle]
  split
  · exact disposed_queue h
  · exact disposed_complete h status

theorem disposed_readWriteLowerDevice (h : c.Fresh) (transfer : Bool) (map : ℕ) :
    Disposed k (readWriteLowerDevice e k transfer map c) := by
  rw [readWriteLowerDevice]
  split
  · exact disposed_forward h
  split
  · exact disposed_finish h _ _
  split
  · exact disposed_finish h _ _
  split
  · exact disposed_finish h _ _
  split
  · exact disposed_finish h _ _
  · exact disposed_send h

/-- A request that was left alone. -/
theorem not_disposed_of_acts_eq_nil {r : Call × Status} (h : r.1.acts = []) : ¬ Disposed k r := by
  simp [Disposed, h]

/-! ### The routines, one by one -/

theorem disposed_createClose (h : c.Fresh) : Disposed k (dispatchCreateClose irp e c) := by
  rw [dispatchCreateClose]
  split
  · exact disposed_finish h _ _
  split
  · exact disposed_finish h _ _
  · exact disposed_finish h _ _

theorem disposed_transferData (h : c.Fresh) : Disposed k (transferData irp e k c) := by
  rw [transferData]
  split
  · split
    · exact disposed_finish h _ _
    · exact disposed_finish h _ _
  split
  · split
    · split
      · refine disposed_readWriteLowerDevice ?_ true 1
        exact h
      split
      · exact disposed_queue h
      · exact disposed_readWriteLowerDevice h true 1
    · exact disposed_readWriteLowerDevice h true 0
  · exact disposed_queue h

/-- The status of a request in front of the disk is not the one that is returned. -/
theorem disposed_readWrite_iff (h : c.Fresh) :
    Disposed k (dispatchReadWrite irp e k c) ↔ negative irp = false := by
  have hacts : c.acts = [] := h
  rw [dispatchReadWrite]
  split
  · next hneg =>
      refine iff_of_false ?_ (by simp [hneg])
      simp [Disposed, Call.finish, Call.complete, Call.act, Call.store, Call.info, hacts,
        Status.invalidParameter, Status.success]
  · next hneg =>
      refine iff_of_true ?_ (by simpa using hneg)
      split
      · exact disposed_finish h _ _
      split
      · exact disposed_finish h _ _
      split
      · exact disposed_finish h _ _
      split
      · exact disposed_finish h _ _
      split
      · exact disposed_finish h _ _
      · exact disposed_transferData h

theorem disposed_deviceControl (h : c.Fresh) : Disposed k (dispatchDeviceControl irp e k c) := by
  have hinfo : ∀ n, (c.info n).Fresh := fun _ => h
  rw [dispatchDeviceControl]
  split
  · exact disposed_finish (hinfo 0) _ _
  split
  · exact disposed_finish (hinfo 0) _ _
  split
  · exact disposed_finish (hinfo 0) _ _
  split
  · exact disposed_forward (hinfo 0)
  · next status information _ => exact disposed_settle (hinfo information) status

/-- The control device is left without an answer. -/
theorem disposed_flushBuffers_iff (h : c.Fresh) :
    Disposed k (dispatchFlushBuffers e k c) ↔ e.control = false := by
  rw [dispatchFlushBuffers]
  split
  · next hc => exact iff_of_false (not_disposed_of_acts_eq_nil h) (by simp [hc])
  · next hc =>
      refine iff_of_true ?_ (by simpa using hc)
      split
      · exact disposed_finish h _ _
      split
      · exact disposed_finish h _ _
      split
      · exact disposed_complete h _
      split
      · exact disposed_readWriteLowerDevice h false 0
      · exact disposed_queue h

theorem disposed_queryInformation_iff (h : c.Fresh) :
    Disposed k (dispatchQueryInformation irp e c) ↔ e.control = false := by
  rw [dispatchQueryInformation]
  split
  · next hc => exact iff_of_false (not_disposed_of_acts_eq_nil h) (by simp [hc])
  · next hc =>
      refine iff_of_true ?_ (by simpa using hc)
      split
      · exact disposed_finish h _ _
      · refine disposed_settle ?_ _
        exact h

theorem disposed_setInformation_iff (h : c.Fresh) :
    Disposed k (dispatchSetInformation irp e c) ↔ e.control = false := by
  rw [dispatchSetInformation]
  split
  · next hc => exact iff_of_false (not_disposed_of_acts_eq_nil h) (by simp [hc])
  · next hc =>
      refine iff_of_true ?_ (by simpa using hc)
      split
      · exact disposed_finish h _ _
      · exact disposed_finish h _ _

theorem disposed_pnp (h : c.Fresh) : Disposed k (dispatchPnP irp e c) := by
  rw [dispatchPnP]
  split
  · exact disposed_finish h _ _
  split
  · exact disposed_finish h _ _
  · refine disposed_settle ?_ _
    exact h

/-- What a routine needs: a transfer that does not lie in front of the disk; for a flush and for
the two information routines, a device other than the control device. -/
def Routine.Accepts (r : Routine) (irp : Irp) (e : Extension) : Prop :=
  match r with
  | .readWrite => 0 ≤ irp.byteOffset ∧ 0 ≤ irp.byteOffset + irp.length.toUInt64.toInt64
  | .flushBuffers | .queryInformation | .setInformation => e.control = false
  | _ => True

theorem negative_eq_false_iff : negative irp = false ↔ Routine.Accepts .readWrite irp e := by
  simp [negative, Routine.Accepts]

/-- Every routine, for every request, device and system: the request is disposed of exactly once,
with a status that fits, if and only if the routine accepts it. -/
theorem disposed_iff (r : Routine) (irp : Irp) (e : Extension) (k : Kernel) (status : Status)
    (information : ℕ) :
    Disposed k (r.dispatch irp e k ⟨status, information, []⟩) ↔ r.Accepts irp e := by
  have h : Call.Fresh ⟨status, information, []⟩ := rfl
  cases r with
  | createClose => exact iff_of_true (disposed_createClose h) trivial
  | readWrite => exact (disposed_readWrite_iff h).trans negative_eq_false_iff
  | deviceControl => exact iff_of_true (disposed_deviceControl h) trivial
  | flushBuffers => exact disposed_flushBuffers_iff h
  | queryInformation => exact disposed_queryInformation_iff h
  | setInformation => exact disposed_setInformation_iff h
  | pnp => exact iff_of_true (disposed_pnp h) trivial

/-! ### Two requests that are not disposed of -/

/-- A request for no byte at `offset`. -/
def bareIrp (offset : Int64) : Irp where
  major := false
  fileNameLength := 0
  byteOffset := offset
  length := 0
  zero := false
  ioctl := .other 0
  inputBufferLength := 0
  outputBufferLength := 0
  input := ⟨0, 0, 0, 0, 0, ⟨0, 0, 0, 0, 0, 0⟩, 0, 0, 0, 0, 0, 0, 0, 0⟩
  informationClass := 0
  informationLength := 0
  minorFunction := 0
  usageType := 0

/-- A disk of one sector, or the control device. -/
def plainExtension (control : Bool) : Extension where
  control := control
  deviceType := .disk
  terminateThread := false
  readOnly := false
  vmDisk := false
  useProxy := false
  proxyUnmap := false
  aweallocDisk := false
  parallelIo := false
  directIo := false
  useSetZeroData := false
  noFileLevelTrim := false
  fileHandle := true
  fileNameLength := 0
  specialFileCount := 0
  geometry := ⟨512, 1, 1, 512⟩
  lastIoData := false
  lastIoOffset := 0
  lastIoLength := 0

/-- A system where every call succeeds. -/
def plainKernel : Kernel :=
  ⟨0, true, fun _ => true, fun _ => true, [], [], .success, .success, .success,
    fun _ => (.success, 0), .success, .success⟩

/-- A read at -1 is completed with an error and reported as a success; a flush, a query and a change
of information of the control device are never completed. -/
theorem not_disposed_negativeRead_controlFlush :
    ¬ Disposed plainKernel
        (Routine.readWrite.dispatch (bareIrp (-1)) (plainExtension false) plainKernel ⟨0, 0, []⟩) ∧
      ∀ r ∈ [Routine.flushBuffers, .queryInformation, .setInformation],
        ¬ Disposed plainKernel
          (r.dispatch (bareIrp 0) (plainExtension true) plainKernel ⟨0, 0, []⟩) := by
  decide

end KernelDrivers.ImDisk.Disposal
