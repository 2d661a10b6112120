import KernelDrivers.Fat.EntryRun

/-!
# Cleanup of a handle

`FatCommonCleanup` is called when the last handle to a file object is closed.  The cleanup of the
last handle to a file or directory that is marked for deletion truncates it and deletes its
dirents.  The model has one object, the dirents of its parent, and the file objects through which
it is open.  Every step that may raise an error that the driver expects does so if the request
says so.

## Main definitions

* `Object` — the parts of a file or directory control block that the routine uses.
* `Request` — what a cleanup meets: the state of the volume and the steps that raise.
* `fatCommonCleanup` — the routine, for files and directories.
* `State`, `step` — an object with its handles, and one request after the other.
-/

namespace KernelDrivers.Fat

/-! ## Fields of a short dirent -/

namespace Dirent

def firstClusterOfFile (d : Dirent) : UInt16 := d.word 26

/-- On FAT32 only: elsewhere these bytes are the handle of the extended attributes. -/
def firstClusterOfFileHi (d : Dirent) : UInt16 := d.word 20

def fileSize (d : Dirent) : UInt32 :=
  UInt32.ofNat ((d.word 28).toNat + 65536 * (d.word 30).toNat)

def setFileSize (d : Dirent) (n : UInt32) : Dirent :=
  (d.setWord 28 (UInt16.ofNat n.toNat)).setWord 30 (UInt16.ofNat (n.toNat / 65536))

/-- The first cluster that a dirent says. -/
def cluster (isFat32 : Bool) (d : Dirent) : ℕ :=
  d.firstClusterOfFile.toNat + if isFat32 then 65536 * d.firstClusterOfFileHi.toNat else 0

def attrArchive : UInt8 := 0x20

end Dirent

namespace Cleanup

inductive NodeType
  | fcb
  | dcb
  | rootDcb
  deriving DecidableEq

inductive FcbCondition
  | good
  | bad
  | needsToBeVerified
  deriving DecidableEq

/-- What is fixed about the volume. -/
structure Site where
  isFat32 : Bool
  logOfBytesPerCluster : ℕ

def Site.roundUp (k : Site) (n : UInt32) : UInt32 :=
  let bytesPerCluster : UInt32 := UInt32.ofNat (2 ^ k.logOfBytesPerCluster)
  (n + (bytesPerCluster - 1)) &&& ~~~(bytesPerCluster - 1)

/-- A file object and its Ccb.  `ended` says that a request to clean it up was completed, with
success or not. -/
structure Handle where
  deleteOnClose : Bool
  fileModified : Bool
  fileSizeChanged : Bool
  fastIoRead : Bool
  cacheSupported : Bool
  userSetLastWrite : Bool
  userSetLastAccess : Bool
  cleanupComplete : Bool
  ended : Bool
  deriving DecidableEq

/-- A file or directory.  An allocation size that is not known yet is `none`; `chainSize` is what
the chain of its clusters then says.  `contents` are the dirents of a directory and `parent` is
the directory that holds its own, from slot `lfnOffset` to slot `direntOffset`. -/
structure Object where
  nodeType : NodeType
  deleteOnClose : Bool
  truncateOnClose : Bool
  pagingFile : Bool
  fileSize : UInt32
  validDataLength : UInt32
  validDataToDisk : UInt32
  allocationSize : Option UInt32
  chainSize : UInt32
  firstClusterOfFile : UInt32
  uncleanCount : ℕ
  nonCachedUncleanCount : ℕ
  /-- `ShareAccess.OpenCount`. -/
  shareCount : ℕ
  lfnOffset : ℕ
  direntOffset : ℕ
  parent : Dcb
  contents : List Dirent
  /-- It is in the name tables of the parent. -/
  named : Bool

/-- `AllocationSize.LowPart`; a size that is not known has all bits set. -/
def Object.allocated (o : Object) : UInt32 := o.allocationSize.getD 0xffffffff

/-- The short dirent. -/
def Object.short (o : Object) : Option Dirent := o.parent.dirents[o.direntOffset]?

/-- The object has a directory entry. -/
def Object.live (o : Object) : Bool := o.short.any (·.ordinal ≠ Dirent.deleted)

/-- A dirent that cannot be read, or cannot be marked dirty when it is changed. -/
inductive PinFault
  | getDirent
  | setDirty
  deriving DecidableEq

inductive TruncateFault
  | lookup
  | pin (f : PinFault)
  | split
  | deallocate
  deriving DecidableEq

inductive OplockStatus
  | success
  | pending
  | failed
  deriving DecidableEq

/-- What is kept of the size and first cluster for the dirent that is deleted. -/
structure DeleteContext where
  fileSize : UInt32
  firstClusterOfFile : UInt32
  deriving DecidableEq

/-- What a cleanup meets.  `fcbCondition` is the condition behind `FatVerifyFcb`; `stray` is what
the stack holds where the delete context will be; a scan raises at a slot, and so does the
deletion of the dirents. -/
structure Request where
  vcbGood : Bool
  writeProtected : Bool
  fcbCondition : FcbCondition
  chicagoMode : Bool
  /-- The last access was on another day. -/
  anotherDay : Bool
  now : FatTime
  oplock : OplockStatus
  stray : DeleteContext
  oplockScan : Option ℕ
  updateFault : Option PinFault
  deleteScan : Option ℕ
  sizeFault : Option PinFault
  zeroFault : Bool
  truncateFault : Option TruncateFault
  pageFault : Option ℕ

inductive Stop
  /-- An error that `FsRtlIsNtstatusExpected` accepts. -/
  | expected
  | bugCheck
  deriving DecidableEq

def Stop.isExpected : Stop → Bool
  | .expected => true
  | .bugCheck => false

/-! ## What the routine calls -/

/-- Change the short dirent. -/
def Object.updateShort (o : Object) (f : Dirent → Dirent) : Object :=
  { o with parent := { o.parent with dirents := o.parent.dirents.modify o.direntOffset f } }

def fatSetFileSizeInDirent (f : Option PinFault) : EStateM Stop Object Unit := do
  if f = some .getDirent then throw .expected
  modify fun o => o.updateShort (·.setFileSize o.fileSize)
  if f = some .setDirty then throw .expected

/-- What is written to the dirent of a file that was used through a handle. -/
def Handle.touch (h : Handle) (q : Request) (o : Object) (d : Dirent) : Dirent :=
  let updateLastWriteTime := h.fileModified && !h.userSetLastWrite
  let updateLastAccessTime := q.chicagoMode && (updateLastWriteTime || h.fastIoRead) &&
    !h.userSetLastAccess && q.anotherDay
  let d := if h.fileModified then d.setByte 11 (d.attributes ||| Dirent.attrArchive) else d
  let d := if updateLastWriteTime then (d.setWord 22 q.now.time).setWord 24 q.now.date else d
  let d := if updateLastAccessTime then d.setWord 18 q.now.date else d
  if o.nodeType = .fcb ∧ h.fileSizeChanged then d.setFileSize o.fileSize else d

/-- The handle was used in a way that its dirent has to say. -/
def Handle.used (h : Handle) (q : Request) (o : Object) : Bool :=
  h.fileModified || (o.nodeType = .fcb && h.fileSizeChanged) ||
    (q.chicagoMode && h.fastIoRead && !h.userSetLastAccess && q.anotherDay)

/-- Expected errors end here. -/
def fatUpdateDirentFromFcb (q : Request) (h : Handle) : EStateM Stop Object Unit := do
  let o ← get
  if q.fcbCondition ≠ .good ∨ o.nodeType = .rootDcb ∨ q.writeProtected then return
  if h.used q o then
    swallow Stop.isExpected do
      if q.updateFault = some .getDirent then throw .expected
      modify fun o => o.updateShort (h.touch q o)
      if q.updateFault = some .setDirty then throw .expected

/-- March through the dirents from slot `slot` on.  `none` says that a slot cannot be read. -/
def scanEmpty (fault : Option ℕ) : (slot : ℕ) → List Dirent → Option Bool
  | slot, [] => if fault = some slot then none else some true
  | slot, d :: ds =>
      if fault = some slot then none
      else if d.ordinal = Dirent.neverUsed then some true
      else if d.ordinal ≠ Dirent.deleted ∧ d.attributes ≠ Dirent.attrLfn then some false
      else scanEmpty fault (slot + 1) ds

/-- The dirents `.` and `..` of a directory other than the root are left out. -/
def fatIsDirectoryEmpty (fault : Option ℕ) (o : Object) : Option Bool :=
  let first := if o.nodeType = .rootDcb then 0 else 2
  scanEmpty fault first (o.contents.drop first)

/-- `fatIsDirectoryEmpty` as a routine. -/
def checkEmpty (fault : Option ℕ) : EStateM Stop Object Bool := do
  match fatIsDirectoryEmpty fault (← get) with
  | some empty => return empty
  | none => throw .expected

def fatLookupFileAllocationSize (f : Option TruncateFault) : EStateM Stop Object Unit := do
  if f = some .lookup then throw .expected
  if (← get).firstClusterOfFile ≠ 0 then
    modify fun o => { o with allocationSize := some o.chainSize }
  let o ← get
  if o.allocated < o.fileSize then throw .expected

/-- The allocation goes down to zero.  When the space cannot be given back, the map of the file
is thrown away and its clusters are lost. -/
def truncateToZero (k : Site) (f : Option TruncateFault) : EStateM Stop Object Unit := do
  let clear (d : Dirent) : Dirent :=
    if k.isFat32 then (d.setWord 26 0).setWord 20 0 else d.setWord 26 0
  match f with
  | some (.pin .getDirent) =>
      modify fun o => { o with allocationSize := some o.allocated }
      throw .expected
  | some (.pin .setDirty) =>
      let restore (n : UInt32) (d : Dirent) : Dirent :=
        let d := d.setWord 26 (UInt16.ofNat n.toNat)
        if k.isFat32 then d.setWord 20 (UInt16.ofNat (n.toNat / 65536)) else d
      modify fun o => { o with allocationSize := some o.allocated }.updateShort
        fun d => restore o.firstClusterOfFile (clear d)
      throw .expected
  | some .deallocate =>
      modify fun o => { o with
        allocationSize := some 0
        firstClusterOfFile := 0 }.updateShort clear
      throw .expected
  | _ =>
      modify fun o => { o with
        allocationSize := some 0
        firstClusterOfFile := 0 }.updateShort clear

/-- The allocation goes down to `size`, which is not zero. -/
def truncateTo (f : Option TruncateFault) (size : UInt32) : EStateM Stop Object Unit := do
  if f = some .split ∨ f = some .deallocate then
    modify fun o => { o with allocationSize := some o.allocated }
    throw .expected
  modify fun o => { o with allocationSize := some size }

/-- Truncate when the allocation size is known. -/
def truncateKnown (k : Site) (f : Option TruncateFault) (desired : UInt32) :
    EStateM Stop Object Unit := do
  let o ← get
  let size := if desired = 0 then 0 else k.roundUp desired
  if desired ≠ 0 ∧ (size = 0 ∨ o.allocated ≤ size) then return
  if size = o.allocated then return
  if size = 0 then truncateToZero k f else truncateTo f size

def fatTruncateFileAllocation (k : Site) (f : Option TruncateFault) (desired : UInt32) :
    EStateM Stop Object Unit := do
  if (← get).allocationSize = none then fatLookupFileAllocationSize f
  truncateKnown k f desired

/-- Keep the context in a dirent that is deleted. -/
def DeleteContext.record (c : DeleteContext) (d : Dirent) : Dirent :=
  (d.setFileSize c.fileSize).setWord 26 (UInt16.ofNat c.firstClusterOfFile.toNat)

/-- Delete the dirents.  When the next page cannot be pinned, those before it are deleted. -/
def fatDeleteDirent (page : Option ℕ) (c : DeleteContext) : EStateM Stop Object Unit := do
  let o ← get
  if o.allocated ≠ 0 ∨ (o.nodeType = .fcb ∧ o.fileSize ≠ 0) then throw .bugCheck
  match page.filter (· ≤ o.direntOffset) with
  | some slot =>
      if o.lfnOffset < slot then
        set { o with parent := markReservation o.lfnOffset (slot - 1) o.parent }
      throw .expected
  | none =>
      set ({ o with
        parent := Fat.fatDeleteDirent o.lfnOffset o.direntOffset o.parent }.updateShort c.record)

/-! ## The routine -/

/-- Zero a file up to its size. -/
def zeroTail (q : Request) : EStateM Stop Object Unit := do
  let o ← get
  if !o.pagingFile && o.validDataLength < o.fileSize && o.validDataToDisk < o.fileSize then
    swallow Stop.isExpected do
      if q.zeroFault then throw .expected
      modify fun o => { o with validDataToDisk := o.fileSize, validDataLength := o.fileSize }

/-- The first test of the flag: keep what the dirent will say and take the sizes to zero. -/
def prepareDelete (q : Request) : EStateM Stop Object DeleteContext := do
  let o ← get
  if o.deleteOnClose ∧ !q.writeProtected then
    set { o with fileSize := 0, validDataLength := 0, validDataToDisk := 0 }
    swallow Stop.isExpected (fatSetFileSizeInDirent q.sizeFault)
    modify fun o => { o with truncateOnClose := true }
    return ⟨o.fileSize, o.firstClusterOfFile⟩
  else
    zeroTail q
    return q.stray

/-- The truncation that was put off to the last handle. -/
def truncateFile (k : Site) (q : Request) : EStateM Stop Object Unit := do
  let o ← get
  if o.truncateOnClose then
    if q.vcbGood then fatTruncateFileAllocation k q.truncateFault o.fileSize
    modify fun o => { o with truncateOnClose := false }

/-- The second test of the flag. -/
def deleteFile (k : Site) (q : Request) (c : DeleteContext) : EStateM Stop Object Unit := do
  truncateFile k q
  let o ← get
  if o.deleteOnClose ∧ o.allocated = 0 then fatDeleteDirent q.pageFault c

/-- `FatRemoveNames`, behind the last test of the flag. -/
def removeNames : EStateM Stop Object Unit :=
  modify fun o => { o with named := o.named && !o.deleteOnClose }

/-- The last handle of a file that is good on a volume that is. -/
def lastFileHandle (k : Site) (q : Request) : EStateM Stop Object Unit := do
  let c ← prepareDelete q
  swallow Stop.isExpected (deleteFile k q c)
  removeNames

/-- The updates on disk, for a volume that is mounted. -/
def updateOnDisk (k : Site) (q : Request) (h : Handle) : EStateM Stop Object Unit := do
  if q.fcbCondition = .good then fatUpdateDirentFromFcb q h
  if (← get).uncleanCount = 1 ∧ q.fcbCondition = .good then lastFileHandle k q

/-- The case `UserFileOpen`. -/
def cleanupFile (k : Site) (q : Request) (h : Handle) : EStateM Stop Object Unit := do
  if q.vcbGood then updateOnDisk k q h
  modify fun o => { o with
    uncleanCount := o.uncleanCount - 1
    nonCachedUncleanCount := if h.cacheSupported then o.nonCachedUncleanCount
      else o.nonCachedUncleanCount - 1 }

def deleteDirectory (k : Site) (q : Request) : EStateM Stop Object Unit := do
  let o ← get
  set { o with fileSize := 0 }
  if q.vcbGood then
    fatTruncateFileAllocation k q.truncateFault 0
    if (← get).allocated = 0 then
      fatDeleteDirent q.pageFault ⟨o.fileSize, o.firstClusterOfFile⟩

/-- The last handle of a directory that is to be deleted. -/
def lastDirectoryHandle (k : Site) (q : Request) : EStateM Stop Object Unit := do
  if ← checkEmpty q.deleteScan then
    swallow Stop.isExpected (deleteDirectory k q)
    modify fun o => { o with named := false }
  else
    modify fun o => { o with deleteOnClose := false }

/-- The case `UserDirectoryOpen`. -/
def cleanupDirectory (k : Site) (q : Request) (h : Handle) : EStateM Stop Object Unit := do
  if q.vcbGood then fatUpdateDirentFromFcb q h
  let o ← get
  if o.uncleanCount = 1 ∧ o.nodeType = .dcb ∧ o.deleteOnClose ∧ q.fcbCondition = .good ∧
      !q.writeProtected then
    lastDirectoryHandle k q
  modify fun o => { o with uncleanCount := o.uncleanCount - 1 }

inductive Result
  /-- The handle was cleaned up before. -/
  | again
  /-- The request waits for the break of an oplock and will come again. -/
  | pending
  | finished
  deriving DecidableEq

/-- Whether an oplock is to be broken before the object goes away. -/
def breaksOplock (q : Request) (h : Handle) : EStateM Stop Object Bool := do
  if !h.deleteOnClose then return false
  if (← get).nodeType ≠ .dcb then return true
  checkEmpty q.oplockScan

/-- Behind the oplock. -/
def cleanupObject (k : Site) (q : Request) (h : Handle) : EStateM Stop Object Result := do
  if (← get).nodeType = .fcb then cleanupFile k q h else cleanupDirectory k q h
  modify fun o => { o with shareCount := o.shareCount - 1 }
  return .finished

def fatCommonCleanup (k : Site) (q : Request) (h : Handle) : EStateM Stop Object Result := do
  if h.cleanupComplete then return .again
  modify fun o => { o with deleteOnClose := o.deleteOnClose || h.deleteOnClose }
  if ← breaksOplock q h then
    match q.oplock with
    | .pending => return .pending
    | .failed => throw .expected
    | .success => cleanupObject k q h
  else
    cleanupObject k q h

/-! ## Runs -/

/-- An object and the handles that were opened on it. -/
structure State where
  object : Object
  handles : List Handle

inductive Event
  | cleanup (i : ℕ) (q : Request)
  /-- `FatSetDispositionInfo`, through any handle. -/
  | disposition (deleteFile : Bool)

/-- What becomes of the handle. -/
def Handle.after (h : Handle) (r : EStateM.Result Stop Object Result) : Handle :=
  match r with
  | .ok .again _ => h
  | .ok .pending _ => { h with deleteOnClose := false }
  | .ok .finished _ => { h with deleteOnClose := false, cleanupComplete := true, ended := true }
  | .error _ _ => { h with deleteOnClose := false, ended := true }

def objectAfter (r : EStateM.Result Stop Object Result) : Object :=
  match r with
  | .ok _ o => o
  | .error _ o => o

def step (k : Site) (s : State) : Event → State
  | .cleanup i q =>
      match s.handles[i]? with
      | none => s
      | some h =>
          let r := fatCommonCleanup k q h s.object
          ⟨objectAfter r, s.handles.set i (h.after r)⟩
  | .disposition deleteFile => { s with object := { s.object with deleteOnClose := deleteFile } }

end Cleanup

end KernelDrivers.Fat
