import KernelDrivers.Fat.Lookup

/-!
# Changing the allocation of a file

`FatAddFileAllocation` appends clusters to a file and `FatTruncateFileAllocation` cuts them
off.  Both change the allocation size, the map, the dirent and the FAT one after the other,
and when a step raises they undo some of it, as their flags say.

A call is given the steps that fail besides the accesses to the FAT, which the volume counts:
finding and pinning the dirent, setting its page dirty, and the two calls of the cache manager.

## Main definitions

* `fatSplitAllocation`, `fatMergeAllocation` — cut a map and a chain in two, and join two.
* `fatAddFileAllocation`, `fatTruncateFileAllocation` — the routines, each with its body
  and its unwind.
-/

namespace KernelDrivers.Fat

namespace FcbOrDcb

/-- Change the low part of the allocation size. -/
def setLowPart (f : FcbOrDcb) (n : ℕ) : FcbOrDcb :=
  { f with allocationSize := { f.allocationSize with lowPart := n } }

/-- Set the first cluster in the file and in the dirent. -/
def setFirstCluster (g : Geometry) (f : FcbOrDcb) (cluster : ℕ) : FcbOrDcb :=
  { f with firstClusterOfFile := cluster, dirent := f.dirent.store g cluster }

end FcbOrDcb

/-- The `Lbo` of byte 0, as `FatLookupMcbEntry` returns it; zero when nothing is mapped. -/
def firstLbo (g : Geometry) (mcb : Mcb) : ℕ := ((fatLookupMcbEntry g mcb 0).map (·.1)).getD 0

/-- Fail when the call is told to. -/
def failIf {σ : Type} (fails : Bool) : EStateM Stop σ Unit :=
  if fails then throw (.raised .deviceError) else pure ()

/-! ## Split and merge -/

/-- A volume and the two maps that `FatSplitAllocation` and `FatMergeAllocation` work on:
`other` is `RemainingMcb` and `SecondMcb`. -/
structure McbPair where
  vcb : Vcb
  mcb : Mcb
  other : Mcb

namespace McbPair

/-- Run a routine of the FAT on a pair. -/
def onVol {α : Type} (x : EStateM Stop Volume α) : EStateM Stop McbPair α :=
  onPart McbPair.vcb (fun p v => { p with vcb := v }) (Vcb.onVol x)

end McbPair

/-- Move run after run from one map to another, from `sourceVbo` on and to `targetVbo` on.
The split stops when `sourceVbo` overflows.  A pass moves at least a sector, so that their
number bounds the passes. -/
def moveRuns (g : Geometry) (stopAtWrap : Bool) : ℕ → Mcb × Mcb → ℕ → ℕ → Mcb × Mcb
  | 0, ms, _, _ => ms
  | passes + 1, (source, target), sourceVbo, targetVbo =>
      match fatLookupMcbEntry g source sourceVbo with
      | none => (source, target)
      | some (lbo, byteCount, _) =>
          let target := fatAddMcbEntry g target targetVbo lbo byteCount
          let source := fatRemoveMcbEntry g source sourceVbo byteCount
          let sourceVbo := ulong (sourceVbo + byteCount)
          if stopAtWrap ∧ sourceVbo = 0 then (source, target)
          else moveRuns g stopAtWrap passes (source, target) sourceVbo
            (ulong (targetVbo + byteCount))

/-- Glue the two maps back together. -/
def unwindSplit (g : Geometry) (splitAtVbo : ℕ) (p : McbPair) : McbPair :=
  let ms := moveRuns g false (mcbSize p.other + 1) (p.other, p.mcb) 0 splitAtVbo
  { p with mcb := ms.2, other := ms.1 }

/-- `FatSplitAllocation`. -/
def fatSplitAllocation (g : Geometry) (splitAtVbo : ℕ) : EStateM Stop McbPair Unit :=
  protect Stop.isRaised (modify (unwindSplit g splitAtVbo)) do
    modify fun p =>
      let ms := moveRuns g true (mcbSize p.mcb + 1) (p.mcb, p.other) splitAtVbo 0
      { p with mcb := ms.1, other := ms.2 }
    if splitAtVbo ≠ 0 then
      let p ← get
      McbPair.onVol (fatSetFatEntry g (fatGetIndexFromLbo g (fatLookupLastMcbEntry g p.mcb).2.2)
        fatClusterLast)

/-- Append the runs of the second map to the first; the result is `TargetVbo`, too. -/
def appendRuns (g : Geometry) (second : Mcb) : ℕ → Mcb → ℕ → ℕ → Mcb × ℕ
  | 0, mcb, _, targetVbo => (mcb, targetVbo)
  | passes + 1, mcb, sourceVbo, targetVbo =>
      match fatLookupMcbEntry g second sourceVbo with
      | none => (mcb, targetVbo)
      | some (lbo, byteCount, _) =>
          appendRuns g second passes (fatAddMcbEntry g mcb targetVbo lbo byteCount)
            (ulong (sourceVbo + byteCount)) (ulong (targetVbo + byteCount))

/-- Remove the runs that were appended. -/
def unwindMerge (g : Geometry) (spliceVbo targetVbo : ℕ) (p : McbPair) : McbPair :=
  let cutLength := ulongSub targetVbo (ulong (spliceVbo + 1))
  if cutLength ≠ 0 then
    { p with mcb := fatRemoveMcbEntry g p.mcb (ulong (spliceVbo + 1)) cutLength }
  else p

/-- `FatMergeAllocation`. -/
def fatMergeAllocation (g : Geometry) : EStateM Stop McbPair Unit := do
  let p ← get
  let last := fatLookupLastMcbEntry g p.mcb
  let appended := appendRuns g p.other (mcbSize p.other + 1) p.mcb 0 (ulong (last.2.1 + 1))
  protect Stop.isRaised (modify (unwindMerge g last.2.1 appended.2)) do
    set { p with mcb := appended.1 }
    McbPair.onVol (fatSetFatEntry g (fatGetIndexFromLbo g last.2.2)
      (fatGetIndexFromLbo g (firstLbo g p.other)))

/-! ## Adding -/

/-- What a call is told of its surroundings: whether the data of its file object are cached,
and which steps fail.  `setFileSizesBack` is the call of the cache manager in the unwind. -/
structure ResizeFaults where
  fileCached : Bool
  getDirent : Bool
  setDirtyBcb : Bool
  setFileSizes : Bool
  setFileSizesBack : Bool

/-- The call for `byteCount` bytes at `hint` that the routines make.  A hint of 1 is against
an assertion of the source. -/
def Request.at (hint byteCount : ℕ) : Request where
  absoluteClusterHint := if hint = 1 then 0 else hint
  byteCount := ulong byteCount
  exactMatchRequired := false
  hint_ne := by split <;> omega
  byteCount_lt := Nat.mod_lt _ (by norm_num)

/-- The variables of `FatAddFileAllocation`.  `McbToCleanup` is `NewMcb` when that was
initialised, and else the map of the file once its space was allocated. -/
structure AddCall where
  file : FcbOrDcb
  desiredAllocationSize : ℕ
  newMcb : Mcb
  newAllocation : ℕ
  direntFound : Bool
  weAllocatedDiskSpace : Bool
  allocationSizeSet : Bool
  cacheManagerInformed : Bool
  weInitializedMcb : Bool

namespace AddCall

/-- The variables at the beginning. -/
def start (f : FcbOrDcb) (desiredAllocationSize : ℕ) : AddCall where
  file := f
  desiredAllocationSize := desiredAllocationSize
  newMcb := []
  newAllocation := 0
  direntFound := false
  weAllocatedDiskSpace := false
  allocationSizeSet := false
  cacheManagerInformed := false
  weInitializedMcb := false

/-- Allocate space in the map of the file. -/
def allocateFirst (g : Geometry) (fuel : ℕ) : EStateM Stop AddCall Unit := do
  let r := Request.at 0 (← get).desiredAllocationSize
  onPart (fun c => ⟨c.file.vcb, c.file.mcb, r.byteCount⟩)
    (fun c a => { c with
      file := { c.file with vcb := a.vcb, mcb := a.mcb }
      desiredAllocationSize := a.byteCount })
    (fatAllocateDiskSpace g r fuel)

/-- Allocate space in the new map, behind the last cluster of the file. -/
def allocateMore (g : Geometry) (fuel : ℕ) : EStateM Stop AddCall Unit := do
  let c ← get
  let lastAllocatedLbo := (fatLookupLastMcbEntry g c.file.mcb).2.2
  let r := Request.at (fatGetIndexFromLbo g (lastAllocatedLbo + 1)) c.newAllocation
  onPart (fun c => ⟨c.file.vcb, c.newMcb, r.byteCount⟩)
    (fun c a => { c with
      file := { c.file with vcb := a.vcb }, newMcb := a.mcb, newAllocation := a.byteCount })
    (fatAllocateDiskSpace g r fuel)

/-- The file had no space. -/
def addFirst (g : Geometry) (q : ResizeFaults) (fuel : ℕ) : EStateM Stop AddCall Unit := do
  failIf q.getDirent
  modify fun c => { c with direntFound := true }
  failIf q.setDirtyBcb
  allocateFirst g fuel
  modify fun c => { c with
    weAllocatedDiskSpace := true
    file := c.file.setFirstCluster g (fatGetIndexFromLbo g (firstLbo g c.file.mcb))
    newAllocation := c.desiredAllocationSize }

/-- The file had some space. -/
def addMore (g : Geometry) (fuel : ℕ) : EStateM Stop AddCall Unit := do
  modify fun c => { c with
    newAllocation := ulongSub c.desiredAllocationSize c.file.allocationSize.lowPart
    weInitializedMcb := true }
  allocateMore g fuel
  modify fun c => { c with weAllocatedDiskSpace := true }

/-- Add the new space to the size.  A sum of 4 GB wraps, and is made one byte less. -/
def growSize (c : AddCall) : AddCall :=
  let size := ulong (c.file.allocationSize.lowPart + c.newAllocation)
  if size = 0 then
    { c with
      file := c.file.setLowPart 0xffffffff
      newAllocation := ulongSub c.newAllocation 1
      allocationSizeSet := true }
  else { c with file := c.file.setLowPart size, allocationSizeSet := true }

/-- Join the new space to the file when it is held in a map of its own. -/
def join (g : Geometry) : EStateM Stop AddCall Unit := do
  let c ← get
  if c.file.allocationSize.lowPart ≠ c.newAllocation then
    onPart (fun c => ⟨c.file.vcb, c.file.mcb, c.newMcb⟩)
      (fun c p => { c with
        file := { c.file with vcb := p.vcb, mcb := p.mcb }, newMcb := p.other })
      (fatMergeAllocation g)

/-- The body of `FatAddFileAllocation`. -/
def body (g : Geometry) (q : ResizeFaults) (fuel : ℕ) : EStateM Stop AddCall Unit := do
  if (← get).file.allocationSize.lowPart = 0 then addFirst g q fuel else addMore g fuel
  modify growSize
  if q.fileCached then do
    failIf q.setFileSizes
    modify fun c => { c with cacheManagerInformed := true }
  join g

/-- Take the new space off the size again. -/
def shrinkSize (c : AddCall) : AddCall :=
  if c.allocationSizeSet then
    { c with
      file := c.file.setLowPart (ulongSub c.file.allocationSize.lowPart c.newAllocation) }
  else c

/-- A file that has no space again has no first cluster. -/
def resetFirstCluster (g : Geometry) (c : AddCall) : AddCall :=
  if c.file.allocationSize.lowPart = 0 ∧ c.direntFound then
    { c with file := c.file.setFirstCluster g 0 }
  else c

/-- Empty the map of the space that was given back. -/
def cleanUp (c : AddCall) : AddCall :=
  if c.weInitializedMcb then { c with newMcb := [] }
  else if c.weAllocatedDiskSpace then { c with file := { c.file with mcb := [] } }
  else c

/-- The unwind of `FatAddFileAllocation`. -/
def unwind (g : Geometry) (q : ResizeFaults) : EStateM Stop AddCall Unit := do
  modify shrinkSize
  if (← get).cacheManagerInformed then failIf q.setFileSizesBack
  modify (resetFirstCluster g)
  let c ← get
  protect Stop.isRaised (modify cleanUp) do
    if c.weAllocatedDiskSpace then
      onPart (fun c => c.file.vcb) (fun c v => { c with file := { c.file with vcb := v } })
        (fatDeallocateDiskSpace g (if c.weInitializedMcb then c.newMcb else c.file.mcb))
  modify cleanUp

end AddCall

/-- `FatAddFileAllocation`.  `fuel` bounds the loops. -/
def fatAddFileAllocation (g : Geometry) (q : ResizeFaults) (desiredAllocationSize fuel : ℕ) :
    EStateM Stop FcbOrDcb Unit := do
  lookupSize g fuel
  let f ← get
  if desiredAllocationSize ≤ f.allocationSize.lowPart then return
  match protect Stop.isRaised (AddCall.unwind g q) (AddCall.body g q fuel)
      (AddCall.start f desiredAllocationSize) with
  | .ok _ c => set c.file
  | .error stop c => do
      set c.file
      throw stop

/-! ## Truncating -/

/-- A size rounded up to whole clusters, in 32 bits. -/
def roundToCluster (g : Geometry) (n : ℕ) : ℕ :=
  ulong (n + (g.clusterSize - 1)) / g.clusterSize * g.clusterSize

/-- The variables of `FatTruncateFileAllocation`. -/
structure TruncateCall where
  file : FcbOrDcb
  remainingMcb : Mcb
  direntFound : Bool
  updatedDirent : Bool
  initialAllocationSize : ℕ
  initialFirstClusterOfFile : ℕ

namespace TruncateCall

/-- The variables at the beginning. -/
def start (f : FcbOrDcb) : TruncateCall where
  file := f
  remainingMcb := []
  direntFound := false
  updatedDirent := false
  initialAllocationSize := f.allocationSize.lowPart
  initialFirstClusterOfFile := f.firstClusterOfFile

/-- Deallocate the clusters of a map. -/
def deallocate (g : Geometry) (mcb : Mcb) : EStateM Stop TruncateCall Unit :=
  onPart (fun c => c.file.vcb) (fun c v => { c with file := { c.file with vcb := v } })
    (fatDeallocateDiskSpace g mcb)

/-- Unmap everything. -/
def dropMcb (g : Geometry) (c : TruncateCall) : TruncateCall :=
  { c with file := { c.file with mcb := fatRemoveMcbEntry g c.file.mcb 0 0xffffffff } }

/-- Take all clusters away. -/
def toZero (g : Geometry) (q : ResizeFaults) : EStateM Stop TruncateCall Unit := do
  failIf q.getDirent
  modify fun c => { c with direntFound := true, file := c.file.setFirstCluster g 0 }
  failIf q.setDirtyBcb
  modify fun c => { c with updatedDirent := true }
  deallocate g (← get).file.mcb
  modify (dropMcb g)

/-- Keep the clusters in front of `splitAtVbo`. -/
def toSize (g : Geometry) (splitAtVbo : ℕ) : EStateM Stop TruncateCall Unit := do
  onPart (fun c => ⟨c.file.vcb, c.file.mcb, c.remainingMcb⟩)
    (fun c p => { c with
      file := { c.file with vcb := p.vcb, mcb := p.mcb }, remainingMcb := p.other })
    (fatSplitAllocation g splitAtVbo)
  deallocate g (← get).remainingMcb

/-- The body of `FatTruncateFileAllocation`. -/
def body (g : Geometry) (q : ResizeFaults) (desiredAllocationSize : ℕ) :
    EStateM Stop TruncateCall Unit := do
  modify fun c => { c with
    file := { c.file with allocationSize := ⟨desiredAllocationSize, 0⟩ } }
  if desiredAllocationSize = 0 then toZero g q else toSize g desiredAllocationSize

/-- The unwind of `FatTruncateFileAllocation`. -/
def unwind (g : Geometry) (desiredAllocationSize : ℕ) (c : TruncateCall) : TruncateCall :=
  let c := { c with file := c.file.setLowPart c.initialAllocationSize }
  if desiredAllocationSize = 0 ∧ c.direntFound then
    if c.updatedDirent then
      -- the clusters may be lost
      let c := c.dropMcb g
      { c with file := { c.file with allocationSize := ⟨0, 0⟩ } }
    else if c.file.firstClusterOfFile = 0 then
      { c with file := c.file.setFirstCluster g c.initialFirstClusterOfFile }
    else c
  else c

end TruncateCall

/-- Whether a truncation has nothing to do.  A size that wraps lies in the last cluster of
the maximal file. -/
def keepsAll (g : Geometry) (f : FcbOrDcb) (desiredAllocationSize : ℕ) : Bool :=
  if desiredAllocationSize = 0 then f.allocationSize.lowPart = 0
  else roundToCluster g desiredAllocationSize = 0 ||
    f.allocationSize.lowPart ≤ roundToCluster g desiredAllocationSize

/-- `FatTruncateFileAllocation`.  `fuel` bounds the walk along the chain. -/
def fatTruncateFileAllocation (g : Geometry) (q : ResizeFaults)
    (desiredAllocationSize fuel : ℕ) : EStateM Stop FcbOrDcb Unit := do
  lookupSize g fuel
  let f ← get
  if keepsAll g f desiredAllocationSize then return
  let desired := if desiredAllocationSize = 0 then 0 else roundToCluster g desiredAllocationSize
  match protect Stop.isRaised (modify (TruncateCall.unwind g desired))
      (TruncateCall.body g q desired) (TruncateCall.start f) with
  | .ok _ c => set c.file
  | .error stop c => do
      set c.file
      throw stop

end KernelDrivers.Fat
