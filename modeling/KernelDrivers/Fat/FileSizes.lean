import KernelDrivers.Lib.Raise
import KernelDrivers.Lib.Reach
import KernelDrivers.Fat.Bpb

/-!
# The sizes of a file

A file has four marks: how many bytes of it are allocated, how long it is, how much of it is valid,
and how much of that is known to be on disk.  `FatCommonWrite`, `FatSetEndOfFileInfo`,
`FatSetAllocationInfo` and `FatSetValidDataLengthInfo` move them, each with an unwind of its own
for the steps that raise.  The bytes on disk are those of the clusters of the file; writes that are
not cached go to them.

## Main definitions

* `File` — the marks and the bytes.
* `fatAddFileAllocation`, `fatTruncateFileAllocation` — what they do to the allocation size.
* `fatCommonWrite`, `fatSetEndOfFileInfo`, `fatSetAllocationInfo`, `fatSetValidDataLengthInfo`.
* `Op`, `step` — one request after the other.
-/

namespace KernelDrivers.Fat.Sizes

/-- What is fixed about a volume. -/
structure Site where
  bytesPerSector : ℕ
  bytesPerCluster : ℕ
  sector_pos : 0 < bytesPerSector
  cluster_pos : 0 < bytesPerCluster
  sector_dvd : bytesPerSector ∣ bytesPerCluster
  cluster_dvd : bytesPerCluster ∣ 2 ^ 32

/-- `(n + (m - 1)) & ~(m - 1)` for a power of two. -/
def align (m n : ℕ) : ℕ := ulong (n + (m - 1)) / m * m

/-- A file.  An allocation size that is not known yet is `none`; `chainSize` is what the chain of
its clusters then says. -/
structure File where
  fileSize : ℕ
  validDataLength : ℕ
  validDataToDisk : ℕ
  allocationSize : Option ℕ
  chainSize : ℕ
  disk : ℕ → UInt8

/-- `AllocationSize.LowPart`. -/
def File.allocated (f : File) : ℕ := f.allocationSize.getD (2 ^ 32 - 1)

/-- Store bytes from offset `first` on, those that are `reached`. -/
def File.store (f : File) (first count : ℕ) (reached : ℕ → Bool) (data : ℕ → UInt8) : File :=
  { f with disk := fun i => if first ≤ i ∧ i < first + count ∧ reached i then data i else f.disk i }

/-- `FatIsIoRangeValid`. -/
def rangeValid (start length : ℕ) : Prop := start < 2 ^ 32 ∧ start + length < 2 ^ 32

instance (start length : ℕ) : Decidable (rangeValid start length) :=
  inferInstanceAs (Decidable (_ ∧ _))

/-! ## Allocation -/

inductive AddFault
  | diskFull
  | other
  deriving DecidableEq

inductive TruncateFault
  /-- The dirent cannot be pinned, or the map cannot be split. -/
  | early
  /-- `FatDeallocateDiskSpace`. -/
  | deallocate
  deriving DecidableEq

abbrev SizeM := EStateM Unit File

/-- The size is set before it is compared with the size of the file. -/
def fatLookupFileAllocationSize (fault : Bool) : SizeM Unit := do
  if fault then throw ()
  modify fun f => { f with allocationSize := some f.chainSize }
  let f ← get
  if f.allocated < f.fileSize then throw ()

/-- The allocation size behind an allocation of at least `desired` bytes.  Four gigabytes are one
byte less. -/
def allocationFor (k : Site) (allocated desired : ℕ) : ℕ :=
  let size := ulong (allocated + align k.bytesPerCluster (desired - allocated))
  if size = 0 then 2 ^ 32 - 1 else size

/-- What raises is undone. -/
def fatAddFileAllocation (k : Site) (fault : Option AddFault) (fresh : ℕ → UInt8) (desired : ℕ) :
    SizeM Unit := do
  let f ← get
  if f.allocated < desired then
    if fault.isSome then throw ()
    let size := allocationFor k f.allocated desired
    set ({ f with allocationSize := some size }.store f.allocated (size - f.allocated)
      (fun _ => true) fresh)

/-- When an allocation goes down to zero and the clusters cannot be given back, the map is thrown
away. -/
def fatTruncateFileAllocation (k : Site) (fault : Option TruncateFault) (desired : ℕ) :
    SizeM Unit := do
  let f ← get
  let size := if desired = 0 then 0 else align k.bytesPerCluster desired
  if desired ≠ 0 ∧ (size = 0 ∨ f.allocated ≤ size) then return
  if size = f.allocated then return
  match fault with
  | none => set { f with allocationSize := some size }
  | some .early => throw ()
  | some .deallocate =>
      if size = 0 then set { f with allocationSize := some 0 }
      throw ()

/-! ## Writes -/

inductive ZeroIo
  | done
  | cannotWait
  | failed
  deriving DecidableEq

inductive DiskIo
  | done
  | pending
  | failed
  deriving DecidableEq

inductive CacheIo
  | copied
  /-- An Mdl for so many bytes. -/
  | prepared (information : ℕ)
  | refused
  | cannotWait
  | failed
  deriving DecidableEq

/-- A write of a user to a file.  `early` stands for the places before the first change of the file
where the request is posted or refused; `fresh` are the bytes that new clusters hold; a transfer
that fails has changed the bytes that are `reached`. -/
structure WriteRequest where
  toEof : Bool
  start : ℕ
  count : ℕ
  data : ℕ → UInt8
  nonCached : Bool
  early : Bool
  verifyFault : Bool
  lookupFault : Bool
  freeClusters : ℕ
  chunkFault : Option AddFault
  addFault : Option AddFault
  fresh : ℕ → UInt8
  /-- `CcIsFileCached`. -/
  cached : Bool
  sizesFault : Bool
  /-- `PrivateCacheMap` is there. -/
  cacheMap : Bool
  mapFault : Bool
  zero : ZeroIo
  reached : ℕ → Bool
  diskIo : DiskIo
  cacheIo : CacheIo
  writeThrough : Bool
  direntFault : Bool
  lateSizesFault : Bool
  unpinFault : Bool

/-- A bigger chunk than needed, up to thirty-two times as much, while there is space. -/
def chunkTarget (k : Site) (freeClusters allocated fileSize : ℕ) : Option ℕ :=
  let aligned := align k.bytesPerCluster fileSize
  if aligned = 0 then none
  else
    let need := aligned - allocated
    let multiplier := min 32 (ulong (freeClusters * (k.bytesPerCluster / 32)) / need + 1)
    let target := min (allocated + multiplier * need) (2 ^ 32 - k.bytesPerCluster)
    if (target - allocated) / k.bytesPerCluster ≤ freeClusters then some target else none

/-- Try to add a chunk.  A disk that is full is not an error here. -/
def addChunk (k : Site) (q : WriteRequest) (target : ℕ) : SizeM Bool := do
  match q.chunkFault with
  | none =>
      fatAddFileAllocation k none q.fresh target
      return true
  | some .diskFull => return false
  | some .other => throw ()

/-- Allocate for a write that ends at `fileSize`. -/
def allocateFor (k : Site) (q : WriteRequest) (fileSize : ℕ) : SizeM Unit := do
  let f ← get
  if f.allocated < fileSize then
    let target := if f.allocated = 0 then none
      else chunkTarget k q.freeClusters f.allocated fileSize
    let added ← match target with
      | some target => addChunk k q target
      | none => pure false
    if !added then fatAddFileAllocation k q.addFault q.fresh fileSize

def extendFile (k : Site) (q : WriteRequest) (fileSize : ℕ) : SizeM Unit := do
  if (← get).allocationSize = none then fatLookupFileAllocationSize q.lookupFault
  allocateFor k q fileSize
  modify fun f => { f with fileSize := fileSize }
  if q.cached && q.sizesFault then throw ()

/-- The sectors that `FatZeroData` hands to `CcZeroData`: first and beyond the last byte. -/
def zeroRange (k : Site) (startingZero byteCount : ℕ) : Option (ℕ × ℕ) :=
  let zeroStart := align k.bytesPerSector startingZero
  let beyondZeroEnd :=
    (startingZero + byteCount + (k.bytesPerSector - 1)) / k.bytesPerSector * k.bytesPerSector
  if startingZero ≠ 0 ∧ zeroStart = 0 then none
  else if zeroStart = beyondZeroEnd then none
  else some (zeroStart, beyondZeroEnd)

/-- `FatZeroData` for a file that is not cached. -/
def fatZeroData (k : Site) (q : WriteRequest) (startingZero byteCount : ℕ) : SizeM Unit := do
  match zeroRange k startingZero byteCount with
  | none => return
  | some (zeroStart, beyondZeroEnd) =>
      if q.zero = .failed then
        modify fun f => f.store zeroStart (beyondZeroEnd - zeroStart) q.reached fun _ => 0
        throw ()
      modify fun f => f.store zeroStart (beyondZeroEnd - zeroStart) (fun _ => true) fun _ => 0

/-- How the body of a write gets to its end. -/
inductive Exit
  | done (information : ℕ)
  | refused
  | post
  | pending
  deriving DecidableEq

/-- The transfer of `bytesToWrite` bytes.  Only a write of valid data is still asynchronous. -/
def fatNonCachedIo (q : WriteRequest) (f₀ : File) (start fileSize bytesToWrite : ℕ) :
    SizeM Exit := do
  match q.diskIo with
  | .failed =>
      modify fun f => f.store start bytesToWrite q.reached q.data
      throw ()
  | io =>
      modify fun f => f.store start bytesToWrite (fun _ => true) q.data
      if io = .pending ∧ start + q.count ≤ f₀.validDataLength then return .pending
      modify fun f => { f with
        validDataToDisk := max f.validDataToDisk (min (start + q.count) fileSize) }
      return .done q.count

/-- The non-cached case, for a file that was `f₀`. -/
def nonCachedWrite (k : Site) (q : WriteRequest) (f₀ : File) (start fileSize : ℕ) :
    SizeM Exit := do
  let bytesToWrite := align k.bytesPerSector q.count
  if start % k.bytesPerSector ≠ 0 ∨
      (bytesToWrite ≠ q.count ∧ start + q.count < f₀.validDataLength) then return .refused
  let validDataToCheck := max f₀.validDataToDisk f₀.validDataLength
  if validDataToCheck < start then
    fatZeroData k q validDataToCheck (start - validDataToCheck)
  fatNonCachedIo q f₀ start fileSize bytesToWrite

/-- Set up the cache map of a file that has none. -/
def initializeCacheMap (q : WriteRequest) (fileSize : ℕ) : SizeM Unit := do
  if (← get).allocationSize = none then fatLookupFileAllocationSize q.lookupFault
  if (← get).allocated < fileSize then throw ()
  if q.mapFault then throw ()

/-- Zero and copy in the cache. -/
def cachedIo (q : WriteRequest) : (zero : ZeroIo) → SizeM Exit
  | .failed => throw ()
  | .cannotWait => return .post
  | .done =>
      match q.cacheIo with
      | .copied => return .done q.count
      | .prepared information => return .done information
      | .refused => return .refused
      | .cannotWait => return .post
      | .failed => throw ()

/-- The cached case. -/
def cachedWrite (k : Site) (q : WriteRequest) (f₀ : File) (start fileSize : ℕ) : SizeM Exit := do
  if !q.cacheMap then initializeCacheMap q fileSize
  let validDataToCheck := max f₀.validDataToDisk f₀.validDataLength
  cachedIo q <| if validDataToCheck < start ∧
    (zeroRange k validDataToCheck (start - validDataToCheck)).isSome then q.zero else .done

inductive Outcome
  | completed
  | refused
  | posted
  | pending
  deriving DecidableEq

/-- Behind `try_exit`. -/
def complete (q : WriteRequest) (f₀ : File) (start fileSize : ℕ) : Exit → SizeM Outcome
  | .done information => do
      if f₀.fileSize < start + q.count ∧ (q.nonCached ∨ q.writeThrough) ∧ q.direntFault then
        throw ()
      if f₀.validDataLength < start + q.count then
        modify fun f => { f with validDataLength := min fileSize (start + information) }
        if q.nonCached ∧ q.cached ∧ q.lateSizesFault then throw ()
      if q.unpinFault then throw ()
      return .completed
  | .refused => do
      if q.unpinFault then throw ()
      return .refused
  | .post => do
      if q.unpinFault then throw ()
      if f₀.fileSize < start + q.count then
        modify fun f => { f with fileSize := f₀.fileSize }
      return .posted
  | .pending => return .pending

/-- The body of a write at `start`, inside of `try`. -/
def writeAt (k : Site) (q : WriteRequest) (f₀ : File) (start : ℕ) : SizeM Outcome := do
  let fileSize := max f₀.fileSize (start + q.count)
  if f₀.fileSize < start + q.count then extendFile k q fileSize
  let exit ← if q.nonCached then nonCachedWrite k q f₀ start fileSize
    else cachedWrite k q f₀ start fileSize
  complete q f₀ start fileSize exit

/-- The unwind of a write: `ValidDataToDisk` is not among what is restored. -/
def unwindWrite (q : WriteRequest) (f₀ : File) (start : ℕ) : SizeM Unit := do
  if f₀.fileSize < start + q.count ∨ f₀.validDataLength < start + q.count then
    modify fun f => { f with fileSize := f₀.fileSize, validDataLength := f₀.validDataLength }

/-- A write at an offset that is known. -/
def writeFrom (k : Site) (q : WriteRequest) (f₀ : File) (start : ℕ) : SizeM Outcome := do
  if ¬ rangeValid start q.count then return .refused
  if q.early then return .posted
  protect (fun _ => true) (unwindWrite q f₀ start) (writeAt k q f₀ start)

/-- The case `UserFileOpen`, for writes that are not paging I/O. -/
def fatCommonWrite (k : Site) (q : WriteRequest) : SizeM Outcome := do
  if q.count = 0 then return .completed
  if !q.toEof ∧ ¬ rangeValid q.start q.count then return .refused
  if q.verifyFault then throw ()
  let f ← get
  writeFrom k q f (if q.toEof then f.fileSize else q.start)

/-! ## Changes of the sizes -/

/-- The unwind of the other routines. -/
def restoreSizes (f₀ : File) : SizeM Unit :=
  modify fun f => { f with
    fileSize := f₀.fileSize
    validDataLength := f₀.validDataLength
    validDataToDisk := f₀.validDataToDisk }

/-- Set the size of the file, and keep what is valid below it. -/
def setFileSize (n : ℕ) : SizeM Unit :=
  modify fun f => { f with
    fileSize := n
    validDataLength := min f.validDataLength n
    validDataToDisk := min f.validDataToDisk n }

/-- `mapped` says that a section of a user is in the way of a truncation. -/
structure EofRequest where
  endOfFile : ℕ
  fcbGood : Bool
  lookupFault : Bool
  mapFault : Bool
  advanceOnly : Bool
  advanceFault : Bool
  addFault : Option AddFault
  fresh : ℕ → UInt8
  mapped : Bool
  sizesFault : Bool
  direntFault : Bool
  unpinFault : Bool

/-- The part that unwinds. -/
def changeFileSize (q : EofRequest) : SizeM Outcome := do
  setFileSize q.endOfFile
  if q.sizesFault ∨ q.direntFault ∨ q.unpinFault then throw ()
  return .completed

/-- Behind the special case for the lazy write of file sizes. -/
def setEndOfFile (k : Site) (q : EofRequest) : SizeM Outcome := do
  fatAddFileAllocation k q.addFault q.fresh q.endOfFile
  let f ← get
  if f.fileSize = q.endOfFile then
    if q.unpinFault then throw ()
    return .completed
  if q.endOfFile < f.fileSize ∧ q.mapped then return .refused
  protect (fun _ => true) (restoreSizes f) (changeFileSize q)

/-- With the allocation size known, or a control block that is not good. -/
def advanceOrSet (k : Site) (q : EofRequest) : SizeM Outcome := do
  if q.mapFault then throw ()
  if q.advanceOnly then
    if q.advanceFault then throw ()
    return .completed
  setEndOfFile k q

def fatSetEndOfFileInfo (k : Site) (q : EofRequest) : SizeM Outcome := do
  if ¬ rangeValid q.endOfFile 0 then return .refused
  if (← get).allocationSize = none ∧ q.fcbGood then fatLookupFileAllocationSize q.lookupFault
  advanceOrSet k q

structure AllocationRequest where
  allocationSize : ℕ
  lookupFault : Bool
  mapFault : Bool
  addFault : Option AddFault
  fresh : ℕ → UInt8
  mapped : Bool
  truncateFault : Option TruncateFault
  sizesFault : Bool
  direntFault : Bool

/-- The part that unwinds. -/
def truncateFile (k : Site) (q : AllocationRequest) : SizeM Unit := do
  setFileSize q.allocationSize
  fatTruncateFileAllocation k q.truncateFault q.allocationSize
  if q.sizesFault then throw ()

/-- The allocation size is known. -/
def changeAllocation (k : Site) (q : AllocationRequest) : SizeM Outcome := do
  let f ← get
  if f.allocated < q.allocationSize then
    fatAddFileAllocation k q.addFault q.fresh q.allocationSize
    return .completed
  if q.allocationSize < f.fileSize then
    if q.mapped then return .refused
    protect (fun _ => true) (restoreSizes f) (truncateFile k q)
    if q.direntFault then throw ()
  else
    fatTruncateFileAllocation k q.truncateFault q.allocationSize
  return .completed

def fatSetAllocationInfo (k : Site) (q : AllocationRequest) : SizeM Outcome := do
  if ¬ rangeValid q.allocationSize 0 then return .refused
  if (← get).allocationSize = none then fatLookupFileAllocationSize q.lookupFault
  if q.mapFault then throw ()
  changeAllocation k q

/-- `refused` stands for the privilege, a section in the way and a flush that fails. -/
structure ValidDataRequest where
  validDataLength : ℕ
  refused : Bool
  sizesFault : Bool

/-- Nothing is undone. -/
def fatSetValidDataLengthInfo (q : ValidDataRequest) : SizeM Outcome := do
  if ¬ rangeValid q.validDataLength 0 then return .refused
  let f ← get
  if q.validDataLength < f.validDataLength ∨ f.fileSize < q.validDataLength then return .refused
  if q.refused then return .refused
  set { f with
    validDataLength := q.validDataLength
    validDataToDisk := q.validDataLength }
  if q.sizesFault then throw ()
  return .completed

/-! ## Runs -/

inductive Op
  | write (q : WriteRequest)
  | endOfFile (q : EofRequest)
  | allocation (q : AllocationRequest)
  | validData (q : ValidDataRequest)

def Op.run (k : Site) : Op → SizeM Outcome
  | .write q => fatCommonWrite k q
  | .endOfFile q => fatSetEndOfFileInfo k q
  | .allocation q => fatSetAllocationInfo k q
  | .validData q => fatSetValidDataLengthInfo q

/-- The file behind a routine, whether it has returned or raised. -/
def fileAfter (r : EStateM.Result Unit File Outcome) : File :=
  match r with
  | .ok _ f => f
  | .error _ f => f

def step (k : Site) (f : File) (op : Op) : File := fileAfter (op.run k f)

end KernelDrivers.Fat.Sizes
