import KernelDrivers.Fat.Resize

/-!
# Moving clusters of a file

`FatMoveFile` is what a defragmenter calls: it moves a range of clusters of a file to consecutive
clusters that the caller names.  It works in passes.  A pass takes what is left of the request, cut
to a buffer and to one run of the file, allocates the target, copies the valid data, splices the
target into the chain (first the entry behind it, then the one in front of it or the dirent),
frees the clusters that were replaced and corrects the map.

The clusters of a request are 64 bits wide and byte offsets are 32 bits wide.

A call is given the steps that fail besides the accesses to the FAT, which the volume counts.  The
passes are recorded.

## Main definitions

* `Data`, `File` — a request, and what the routine reads of the file besides its chain.
* `fatComputeMoveFileParameter` — how much a pass moves, and how much of that it copies.
* `fatComputeMoveFileSplicePoints` — the splices of a pass and the map of what is replaced.
* `relocate`, `moveLoop` — a pass and the loop.
* `fatMoveFile` — the routine.
-/

namespace KernelDrivers.Fat.Move

/-! ## Requests -/

/-- `MOVE_FILE_DATA`, less its handle. -/
structure Data where
  startingVcn : UInt64
  startingLcn : UInt64
  clusterCount : UInt32

/-- The halves of a `LARGE_INTEGER`. -/
def lowPart (x : UInt64) : ℕ := x.toNat % 2 ^ 32

def highPart (x : UInt64) : ℕ := x.toNat / 2 ^ 32

inductive NodeType
  | fcb
  | dcb
  | rootDcb
  deriving DecidableEq

/-- The kind and the `ValidDataLength` of a file, which is 32 bits wide for a file proper. -/
structure File where
  nodeType : NodeType
  validDataLength : ℕ
  validDataLength_lt : nodeType = .fcb → validDataLength < 2 ^ 32

/-- `TargetCluster`. -/
def Data.targetCluster (d : Data) : ℕ := ulong (lowPart d.startingLcn + 2)

/-- The checks of the cluster numbers. -/
def Data.valid (g : Geometry) (d : Data) : Bool :=
  let afterTarget := ulong (d.targetCluster + d.clusterCount.toNat)
  highPart d.startingVcn = 0 ∧ highPart d.startingLcn = 0 ∧ 2 ≤ d.targetCluster ∧
    d.targetCluster ≤ afterTarget ∧ afterTarget ≤ g.numberOfClusters + 2 ∧
    lowPart d.startingVcn < g.numberOfClusters ∧ d.clusterCount ≠ 0

/-- The check of the file: the first cluster of a directory stays where it is, and so does a root
directory that is not a chain. -/
def File.allows (g : Geometry) (q : File) (d : Data) : Bool :=
  q.nodeType = .fcb ∨ (q.nodeType = .rootDcb → g.width = .fat32) ∧ d.startingVcn ≠ 0

/-- `FileOffset` and `ByteCount`, as they are at the beginning. -/
def Data.fileOffset (g : Geometry) (d : Data) : ℕ := ulong (lowPart d.startingVcn * g.clusterSize)

def Data.byteCount (g : Geometry) (d : Data) : ℕ := ulong (d.clusterCount.toNat * g.clusterSize)

/-- `BufferSize`; at least 64 KB. -/
def bufferSize (g : Geometry) : ℕ := if 0x10000 < g.clusterSize then g.clusterSize else 0x10000

/-! ## How much a pass moves -/

/-- What `FatComputeMoveFileParameter` returns. -/
structure Parameter where
  byteCount : ℕ
  bytesToReallocate : ℕ
  bytesToWrite : ℕ
  sourceLbo : ℕ
  deriving DecidableEq, Repr

/-- Look the size up if it is not known; that of a directory is its file size, too. -/
def lookupSize (g : Geometry) (q : File) (fuel : ℕ) : EStateM Stop FcbOrDcb Unit := do
  if (← get).allocationSize = fcbLookupAllocationSizeHint then do
    fatLookupFileAllocationSize g fuel
    if q.nodeType = .dcb ∨ q.nodeType = .rootDcb ∧ g.width = .fat32 then
      modify fun f => { f with fileSize := f.allocationSize.lowPart }

/-- `*BytesToWrite`: the bytes up to the end of the cluster in which the valid data end. -/
def bytesToWrite (g : Geometry) (q : File) (fileOffset bytesToReallocate : ℕ) : ℕ :=
  let clusterAlignedVdl := roundToCluster g (ulong q.validDataLength)
  if q.nodeType = .fcb ∧ clusterAlignedVdl < ulong (fileOffset + bytesToReallocate) then
    if clusterAlignedVdl < fileOffset then 0 else ulongSub clusterAlignedVdl fileOffset
  else bytesToReallocate

/-- `FatComputeMoveFileParameter`.  The source asserts that the first byte is allocated. -/
def fatComputeMoveFileParameter (g : Geometry) (q : File) (fileOffset byteCount fuel : ℕ) :
    EStateM Stop FcbOrDcb Parameter := do
  lookupSize g q fuel
  let allocationSize := (← get).allocationSize.lowPart
  if allocationSize < ulong (fileOffset + byteCount) ∧ allocationSize ≤ fileOffset then
    return ⟨0, 0, 0, 0⟩
  else do
    let byteCount := if allocationSize < ulong (fileOffset + byteCount) then
      allocationSize - fileOffset else byteCount
    let before := fileOffset &&& (bufferSize g - 1)
    let bytesToReallocate := if bufferSize g < ulong (before + byteCount) then
      bufferSize g - before else byteCount
    match ← fatLookupFileAllocation g fileOffset fuel with
    | none => throw (.bugCheck 0 0 0)
    | some run =>
        let bytesToReallocate := if run.byteCount < bytesToReallocate then run.byteCount
          else bytesToReallocate
        return ⟨byteCount, bytesToReallocate, bytesToWrite g q fileOffset bytesToReallocate, run.lbo⟩

/-! ## The splices -/

/-- What `FatComputeMoveFileSplicePoints` returns. -/
structure SplicePoints where
  firstSpliceSourceCluster : ℕ
  firstSpliceTargetCluster : ℕ
  secondSpliceSourceCluster : ℕ
  secondSpliceTargetCluster : ℕ
  sourceMcb : Mcb
  deriving DecidableEq, Repr

/-- The variables of the enumeration of the runs that are replaced. -/
structure SourceScan where
  sourceIndex : ℕ
  sourceLbo : ℕ
  sourceBytesInRun : ℕ
  sourceBytesRemaining : ℕ
  sourceMcbVbo : ℕ
  sourceMcbBytesInRun : ℕ
  sourceMcb : Mcb

namespace SourceScan

/-- Go to the next run, unless this is the first pass.  When there is none the variables stay. -/
def enter (g : Geometry) (mcb : Mcb) (s : SourceScan) : SourceScan :=
  if s.sourceMcbVbo ≠ 0 then
    match fatGetNextMcbEntry g mcb s.sourceIndex with
    | none => s
    | some (_, lbo, byteCount) => { s with sourceLbo := lbo, sourceBytesInRun := byteCount }
  else s

/-- Take the run, or as much of it as remains. -/
def take (g : Geometry) (s : SourceScan) : SourceScan :=
  let count := if s.sourceBytesInRun < s.sourceBytesRemaining then s.sourceBytesInRun
    else s.sourceBytesRemaining
  { s with
    sourceIndex := s.sourceIndex + 1
    sourceBytesRemaining := s.sourceBytesRemaining - count
    sourceMcbVbo := s.sourceMcbVbo + count
    sourceMcbBytesInRun := count
    sourceMcb := fatAddMcbEntry g s.sourceMcb s.sourceMcbVbo s.sourceLbo count }

/-- The loop, for at most a number of passes. -/
def run (g : Geometry) (mcb : Mcb) : ℕ → SourceScan → SourceScan
  | 0, s => s
  | passes + 1, s => if s.sourceBytesRemaining = 0 then s else run g mcb passes ((s.enter g mcb).take g)

/-- The cluster behind the ones that are replaced. -/
def behind (g : Geometry) (mcb : Mcb) (s : SourceScan) : ℕ :=
  if s.sourceMcbBytesInRun < s.sourceBytesInRun then
    fatGetIndexFromLbo g (s.sourceLbo + s.sourceMcbBytesInRun)
  else
    match fatGetNextMcbEntry g mcb s.sourceIndex with
    | none => fatClusterLast
    | some (_, lbo, _) => fatGetIndexFromLbo g lbo

end SourceScan

/-- The first run that is replaced: `SourceIndex`, `SourceLbo` and `SourceBytesInRun`. -/
structure SourceRun where
  sourceIndex : ℕ
  sourceLbo : ℕ
  sourceBytesInRun : ℕ

/-- The cluster in front of the range, which is zero for none, and the run behind it. -/
def sourceStart (g : Geometry) (mcb : Mcb) (fileOffset : ℕ) : Option (ℕ × SourceRun) :=
  if fileOffset = 0 then
    (fatGetNextMcbEntry g mcb 0).map fun run => (0, ⟨0, run.2.1, run.2.2⟩)
  else
    match fatLookupMcbEntry g mcb (fileOffset - 1) with
    | none => none
    | some (lbo, byteCount, index) =>
        if byteCount = 1 then
          (fatGetNextMcbEntry g mcb (index + 1)).map fun run =>
            (fatGetIndexFromLbo g lbo, ⟨index + 1, run.2.1, run.2.2⟩)
        else some (fatGetIndexFromLbo g lbo, ⟨index, lbo + 1, byteCount - 1⟩)

/-- `FatComputeMoveFileSplicePoints`; `none` when it raises.  A pass of its loop takes a byte at
least, so that their number bounds the passes. -/
def fatComputeMoveFileSplicePoints (g : Geometry) (mcb : Mcb)
    (fileOffset targetCluster bytesToReallocate : ℕ) (sourceMcb : Mcb) : Option SplicePoints :=
  (sourceStart g mcb fileOffset).map fun start =>
    let s := SourceScan.run g mcb bytesToReallocate
      ⟨start.2.sourceIndex, start.2.sourceLbo, start.2.sourceBytesInRun, bytesToReallocate, 0, 0,
        sourceMcb⟩
    { firstSpliceSourceCluster := start.1
      firstSpliceTargetCluster := targetCluster
      secondSpliceSourceCluster := targetCluster + bytesToReallocate / g.clusterSize - 1
      secondSpliceTargetCluster := s.behind g mcb
      sourceMcb := s.sourceMcb }

/-! ## The loop -/

/-- A pass, for the record. -/
structure Pass where
  fileOffset : ℕ
  targetCluster : ℕ
  parameter : Parameter
  deriving DecidableEq, Repr

/-- The steps of a pass that may fail besides the accesses to the FAT. -/
inductive Step
  | flushTarget
  | readData
  | writeData
  | flushSecondSplice
  | getDirent
  | setDirtyBcb
  | flushDirent
  | flushFirstSplice
  | flushDevice
  deriving DecidableEq

/-- The variables of `FatMoveFile`. -/
structure Call where
  file : FcbOrDcb
  fileOffset : ℕ
  byteCount : ℕ
  targetCluster : ℕ
  targetLbo : ℕ
  sourceMcb : Mcb
  targetMcb : Mcb
  diskSpaceAllocated : Bool
  passes : List Pass

namespace Call

/-- Run a routine of the volume inside a call. -/
def onVcb {α : Type} (x : EStateM Stop Vcb α) : EStateM Stop Call α :=
  onPart (fun c => c.file.vcb) (fun c v => { c with file := { c.file with vcb := v } }) x

end Call

/-- The call for exactly `byteCount` bytes at `hint`. -/
def exactRequest (hint byteCount : ℕ) : Request where
  absoluteClusterHint := if hint = 1 then 0 else hint
  byteCount := ulong byteCount
  exactMatchRequired := true
  hint_ne := (Request.at hint byteCount).hint_ne
  byteCount_lt := ulong_lt byteCount

/-- Compute what the pass does. -/
def computeParameter (g : Geometry) (q : File) (fuel : ℕ) : EStateM Stop Call Parameter := do
  let c ← get
  onPart Call.file (fun c f => { c with file := f })
    (fatComputeMoveFileParameter g q c.fileOffset c.byteCount fuel)

/-- Compute the splices. -/
def computeSplicePoints (g : Geometry) (p : Parameter) : EStateM Stop Call SplicePoints := do
  let c ← get
  match fatComputeMoveFileSplicePoints g c.file.mcb c.fileOffset c.targetCluster p.bytesToReallocate
      c.sourceMcb with
  | none => throw (.raised .fileCorruptError)
  | some points => do
      set { c with sourceMcb := points.sourceMcb }
      return points

/-- Allocate the target. -/
def allocateTarget (g : Geometry) (p : Parameter) (fuel : ℕ) : EStateM Stop Call Unit := do
  let r := exactRequest (← get).targetCluster p.bytesToReallocate
  onPart (fun c => ⟨c.file.vcb, c.targetMcb, r.byteCount⟩)
    (fun c a => { c with file := { c.file with vcb := a.vcb }, targetMcb := a.mcb })
    (fatAllocateDiskSpace g r fuel)
  modify fun c => { c with diskSpaceAllocated := true }

/-- Whether the target is exactly the one that was asked for. -/
def Call.exact (g : Geometry) (p : Parameter) (c : Call) : Bool :=
  c.targetMcb.length = 1 ∧
    (fatGetNextMcbEntry g c.targetMcb 0).any fun run =>
      fatGetIndexFromLbo g run.2.1 = c.targetCluster ∧ run.2.2 = p.bytesToReallocate

/-- Flush entries of the FAT.  A file without valid data does without. -/
def flushFatEntries (q : File) (fails : Bool) : EStateM Stop Call Unit :=
  if q.validDataLength ≠ 0 ∨ q.nodeType ≠ .fcb then failIf fails else pure ()

/-- Copy the data. -/
def copyData (p : Parameter) (fails : Step → Bool) : EStateM Stop Call Unit := do
  if p.bytesToWrite ≠ 0 then do
    failIf (fails .readData)
    failIf (fails .writeData)

/-- Link the last cluster of the target to the rest of the file. -/
def secondSplice (g : Geometry) (q : File) (fails : Step → Bool) (points : SplicePoints) :
    EStateM Stop Call Unit := do
  Call.onVcb (Vcb.onVol (fatSetFatEntry g points.secondSpliceSourceCluster
    points.secondSpliceTargetCluster))
  flushFatEntries q (fails .flushSecondSplice)

/-- Link what is in front of the range, a cluster or the dirent, to the target. -/
def firstSplice (g : Geometry) (q : File) (fails : Step → Bool) (points : SplicePoints) :
    EStateM Stop Call Unit := do
  if points.firstSpliceSourceCluster = 0 then do
    failIf (fails .getDirent)
    modify fun c => { c with
      file := { c.file with dirent := c.file.dirent.store g points.firstSpliceTargetCluster } }
    failIf (fails .setDirtyBcb)
    failIf (fails .flushDirent)
    modify fun c => { c with
      file := { c.file with firstClusterOfFile := points.firstSpliceTargetCluster } }
  else do
    Call.onVcb (Vcb.onVol (fatSetFatEntry g points.firstSpliceSourceCluster
      points.firstSpliceTargetCluster))
    flushFatEntries q (fails .flushFirstSplice)

/-- Free the clusters that were replaced. -/
def freeSource (g : Geometry) : EStateM Stop Call Unit := do
  let c ← get
  Call.onVcb (fatDeallocateDiskSpace g c.sourceMcb)

/-- Correct the map of the file and go on behind the range. -/
def Call.advance (g : Geometry) (p : Parameter) (c : Call) : Call :=
  let n := p.bytesToReallocate
  { c with
    file := { c.file with
      mcb := fatAddMcbEntry g (fatRemoveMcbEntry g c.file.mcb c.fileOffset n) c.fileOffset
        c.targetLbo n }
    targetCluster := ulong (c.targetCluster + n / g.clusterSize)
    fileOffset := ulong (c.fileOffset + n)
    targetLbo := c.targetLbo + n
    byteCount := ulongSub p.byteCount n
    sourceMcb := fatRemoveMcbEntry g c.sourceMcb 0 0xffffffff
    targetMcb := fatRemoveMcbEntry g c.targetMcb 0 0xffffffff }

/-- A pass behind its first step; `false` when the target is not to be had. -/
def relocate (g : Geometry) (q : File) (fails : Step → Bool) (p : Parameter) (fuel : ℕ) :
    EStateM Stop Call Bool := do
  let points ← computeSplicePoints g p
  allocateTarget g p fuel
  if (← get).exact g p then do
    flushFatEntries q (fails .flushTarget)
    copyData p fails
    secondSplice g q fails points
    firstSplice g q fails points
    modify fun c => { c with diskSpaceAllocated := false }
    freeSource g
    failIf (fails .flushDevice)
    modify (Call.advance g p)
    return true
  else return false

/-- Record the pass that begins. -/
def Call.record (p : Parameter) (c : Call) : Call :=
  { c with passes := c.passes ++ [⟨c.fileOffset, c.targetCluster, p⟩] }

/-- The loop; `false` when the target is not to be had.  `fails` says for every pass which of its
steps fail. -/
def moveLoop (g : Geometry) (q : File) (fails : ℕ → Step → Bool) (fuel : ℕ) :
    ℕ → EStateM Stop Call Bool
  | 0 => do
      if (← get).byteCount = 0 then return true else throw .outOfFuel
  | passes + 1 => do
      if (← get).byteCount = 0 then return true
      else do
        let p ← computeParameter g q fuel
        if p.byteCount = 0 then return true
        else do
          let number := (← get).passes.length
          modify (Call.record p)
          if ← relocate g q (fails number) p fuel then moveLoop g q fails fuel passes
          else return false

/-- Give the target back when it is not part of the file. -/
def freeTarget (g : Geometry) : EStateM Stop Call Unit := do
  let c ← get
  if c.diskSpaceAllocated then Call.onVcb (fatDeallocateDiskSpace g c.targetMcb)

/-- Forget the size and the map. -/
def Call.forget (g : Geometry) (c : Call) : Call :=
  { c with
    file := { c.file with
      allocationSize := if c.file.firstClusterOfFile = 0 then ⟨0, 0⟩ else fcbLookupAllocationSizeHint
      mcb := fatRemoveMcbEntry g c.file.mcb 0 0xffffffff } }

/-- The unwind of a call that raises. -/
def unwind (g : Geometry) : EStateM Stop Call Unit := do
  protect Stop.isRaised (modify (Call.forget g)) (freeTarget g)
  modify (Call.forget g)

/-- The loop with its `finally`. -/
def move (g : Geometry) (q : File) (fails : ℕ → Step → Bool) (fuel : ℕ) : EStateM Stop Call Bool := do
  let moved ← protect Stop.isRaised (unwind g) (moveLoop g q fails fuel fuel)
  protect Stop.isRaised (modify (Call.forget g)) (freeTarget g)
  return moved

/-- The variables at the beginning. -/
def Call.start (g : Geometry) (d : Data) (f : FcbOrDcb) : Call where
  file := f
  fileOffset := d.fileOffset g
  byteCount := d.byteCount g
  targetCluster := d.targetCluster
  targetLbo := fatGetLboFromIndex g d.targetCluster
  sourceMcb := []
  targetMcb := []
  diskSpaceAllocated := false
  passes := []

/-- `FatMoveFile`; `false` is `STATUS_INVALID_PARAMETER`.  `fuel` bounds the loops. -/
def fatMoveFile (g : Geometry) (q : File) (fails : ℕ → Step → Bool) (d : Data) (fuel : ℕ) :
    EStateM Stop FcbOrDcb Bool := do
  if d.valid g ∧ q.allows g d ∧ d.fileOffset g ≤ ulong (d.fileOffset g + d.byteCount g) then
    match move g q fails fuel (Call.start g d (← get)) with
    | .ok moved c => do
        set c.file
        return moved
    | .error stop c => do
        set c.file
        throw stop
  else return false

end KernelDrivers.Fat.Move
