import KernelDrivers.Fat.Deallocate

/-!
# Allocating disk space

`FatAllocateDiskSpace` takes the clusters off the volume's count
at once and then looks for them: in one piece from the hint on (the fast path), or
run by run, going from window to window, until the request is complete.

The routines run with nobody in between; the locks they take and drop leave no trace
here.  `Stop.bugCheck` is the driver's `FatBugCheck`.

## Main definitions

* `Request`, `AllocCall` — the parameters of a call, in and out.
* `RunLoop` — the local variables of the run loop; `search`, `switchWindow` and `takeFound`
  are the three parts of a pass.
* `fatAllocateDiskSpace` — the routine.
-/

namespace KernelDrivers.Fat

/-- The parameters of a call.  The source asserts that the hint is not 1. -/
structure Request where
  absoluteClusterHint : ℕ
  byteCount : ℕ
  exactMatchRequired : Bool
  hint_ne : absoluteClusterHint ≠ 1
  byteCount_lt : byteCount < 2 ^ 32

/-- What a call of `FatAllocateDiskSpace` changes: the volume, the caller's map and
`*ByteCount`. -/
structure AllocCall where
  vcb : Vcb
  mcb : Mcb
  byteCount : ℕ

/-- `*ByteCount` rounded up to whole clusters, in 32 bits. -/
def roundByteCount (g : Geometry) (byteCount : ℕ) : ℕ :=
  ulong (byteCount + (g.clusterSize - 1)) / g.clusterSize * g.clusterSize

/-- The byte count and the cluster count of a request.  A count that was rounded to
zero is the maximal file size. -/
def requestSize (g : Geometry) (byteCount : ℕ) : ℕ × ℕ :=
  if roundByteCount g byteCount = 0 then (0xffffffff, 2 ^ (32 - g.logOfBytesPerCluster))
  else (roundByteCount g byteCount, roundByteCount g byteCount / g.clusterSize)

/-- `ClusterCount`. -/
def Request.clusterCount (g : Geometry) (r : Request) : ℕ := (requestSize g r.byteCount).2

/-- Run a routine of the volume inside a call. -/
def AllocCall.onVcb {α : Type} (x : EStateM Stop Vcb α) : EStateM Stop AllocCall α :=
  onPart AllocCall.vcb (fun c v => { c with vcb := v }) x

/-- Make the window of the caller's hint the current one.  A raise gives the clusters
of the request back to the volume. -/
def switchToHint (g : Geometry) (r : Request) : EStateM Stop Vcb Unit := do
  let v ← get
  let hint := r.absoluteClusterHint
  if (hint < v.window.firstCluster ∨ v.window.lastCluster < hint) ∧
      fatWindowOfCluster hint ≠ v.currentWindow then
    protect Stop.isRaised
      (modify fun v => { v with
        numberOfFreeClusters := ulong (v.numberOfFreeClusters + r.clusterCount g) })
      (fatExamineFatEntries g (fatWindowOfCluster hint))

/-- The hint of the request.  The results are `AbsoluteClusterHint` (zero when the hint
comes from the volume) and `WindowRelativeHint`. -/
def chooseHint (g : Geometry) (r : Request) : EStateM Stop Vcb (ℕ × ℕ) := do
  let hint := r.absoluteClusterHint
  if hint ≠ 0 ∧ hint < g.numberOfClusters + 2 then
    if 1 < g.numberOfWindows then
      switchToHint g r
      return (hint, hint - (← get).window.firstCluster + 2)
    else return (hint, hint)
  else return (0, (← get).clusterHint.getD 2)

/-- The unwind of the fast path. -/
def unwindFast (g : Geometry) (window cluster clusterCount : ℕ) (c : AllocCall) : AllocCall :=
  { c with
    vcb := putBack c.vcb window cluster clusterCount
    mcb := fatRemoveMcbEntry g c.mcb 0 c.byteCount }

/-- The fast path: a run of the whole request was found at `startingCluster`, relative
to the window. -/
def allocateFast (g : Geometry) (startingCluster clusterCount : ℕ) :
    EStateM Stop AllocCall Unit := do
  let window := (← get).vcb.currentWindow
  let cluster := startingCluster + (← get).vcb.window.firstCluster - 2
  modify fun c => { c with
    vcb := takeRun c.vcb (startingCluster - 2) clusterCount
    mcb := fatAddMcbEntry g c.mcb 0 (fatGetLboFromIndex g cluster) c.byteCount }
  protect Stop.isRaised (modify (unwindFast g window cluster clusterCount))
    (AllocCall.onVcb (Vcb.onVol (fatAllocateClusters g cluster clusterCount)))

/-- The variables of the run loop.  `window` is the index of `Window`. -/
structure RunLoop where
  vcb : Vcb
  mcb : Mcb
  window : ℕ
  windowRelativeHint : ℕ
  index : ℕ
  cluster : ℕ
  currentVbo : ℕ
  priorLastCluster : ℕ
  bytesFound : ℕ
  clustersFound : ℕ
  clustersRemaining : ℕ
  lockedBitMap : Bool
  selectNextContigWindow : Bool

namespace RunLoop

/-- The clusters from the hint to the end of the window, or as many as are needed.
`none` is the refusal of an exact-match request. -/
def searchHint (g : Geometry) (exactMatchRequired : Bool) (s : RunLoop) : Option RunLoop :=
  let size := s.vcb.freeClusterBitMap.size
  let desired := min (size - (s.windowRelativeHint - 2)) s.clustersRemaining
  if s.vcb.freeClusterBitMap.areBitsClear (s.windowRelativeHint - 2) desired then
    some { s with
      index := s.windowRelativeHint - 2
      clustersFound := desired
      selectNextContigWindow := g.width = .fat32
      windowRelativeHint := if g.width = .fat32 then 2 else 0 }
  else if exactMatchRequired then none
  else some { s with windowRelativeHint := 0 }

/-- The length and the index of the run for a search without a hint: the first run of
the window that completes the request, if the window may have one; else the longest. -/
def potLuckRun (s : RunLoop) : ℕ × ℕ :=
  if s.clustersRemaining ≤ s.vcb.window.clustersFree then
    match s.vcb.freeClusterBitMap.findClearBits s.clustersRemaining 0 with
    | some i => (s.clustersRemaining, i)
    | none => s.vcb.freeClusterBitMap.findLongestRunClear
  else s.vcb.freeClusterBitMap.findLongestRunClear

/-- Take that run, or as much of it as is needed.  On FAT32 a run that ends the window
asks for the next window. -/
def searchPotLuck (g : Geometry) (s : RunLoop) : RunLoop :=
  let found := potLuckRun s
  if s.clustersRemaining ≤ found.1 then
    { s with index := found.2, clustersFound := s.clustersRemaining }
  else if found.2 + found.1 = s.vcb.freeClusterBitMap.size ∧ g.width = .fat32 then
    { s with
      index := found.2
      clustersFound := found.1
      selectNextContigWindow := true
      windowRelativeHint := 2 }
  else { s with index := found.2, clustersFound := found.1 }

/-- The search of a pass. -/
def search (g : Geometry) (exactMatchRequired : Bool) (s : RunLoop) : Option RunLoop :=
  let s := { s with clustersFound := 0 }
  if s.selectNextContigWindow then some s
  else
    (if s.windowRelativeHint ≠ 0 then searchHint g exactMatchRequired s else some s).map fun s =>
      if s.windowRelativeHint = 0 ∧ s.clustersFound = 0 then searchPotLuck g s else s

/-- Run a routine of the volume inside the loop. -/
def onVcb {α : Type} (x : EStateM Stop Vcb α) : EStateM Stop RunLoop α :=
  onPart RunLoop.vcb (fun s v => { s with vcb := v }) x

/-- Nothing was found: go to the next window when the last run ended the window, else
to the best one.  The result is `false` when an exact-match request is refused. -/
def switchWindow (g : Geometry) (exactMatchRequired : Bool) : EStateM Stop RunLoop Bool := do
  if g.numberOfWindows = 1 then throw (.bugCheck 0 5 0)
  let s ← get
  let nextWindow := s.vcb.currentWindow + 1
  let selected := s.selectNextContigWindow ∧ nextWindow < g.numberOfWindows ∧
    0 < (s.vcb.windows nextWindow).clustersFree
  if s.selectNextContigWindow ∧ ¬ selected ∧ exactMatchRequired then return false
  let faveWindow := if selected then nextWindow else fatSelectBestWindow g s.vcb
  set { s with
    selectNextContigWindow := false
    windowRelativeHint := if s.selectNextContigWindow ∧ ¬ selected then 0
      else s.windowRelativeHint }
  if (s.vcb.windows faveWindow).clustersFree = 0 then throw (.bugCheck 0 5 1)
  onVcb (fatExamineFatEntries g faveWindow)
  return true

/-- Connect the run before with the run of `count` clusters from `cluster` on, and
chain that run together. -/
def linkRun (g : Geometry) (priorLastCluster cluster count : ℕ) : EStateM Stop Volume Unit := do
  if priorLastCluster ≠ 0 then fatSetFatEntry g priorLastCluster cluster
  fatAllocateClusters g cluster count

/-- Take the run that was found in the bitmap and add it to the map. -/
def reserveFound (g : Geometry) (s : RunLoop) : RunLoop :=
  let cluster := s.index + s.vcb.window.firstCluster
  let bytesFound := ulong (s.clustersFound * g.clusterSize)
  { s with
    window := s.vcb.currentWindow
    vcb := takeRun s.vcb s.index s.clustersFound
    cluster := cluster
    lockedBitMap := false
    bytesFound := bytesFound
    mcb := fatAddMcbEntry g s.mcb s.currentVbo (fatGetLboFromIndex g cluster) bytesFound }

/-- Prepare for the next pass. -/
def advance (s : RunLoop) : RunLoop :=
  { s with
    currentVbo := ulong (s.currentVbo + s.bytesFound)
    clustersRemaining := s.clustersRemaining - s.clustersFound
    priorLastCluster := s.cluster + s.clustersFound - 1 }

/-- Take the run that was found: in the bitmap, in the map and in the FAT. -/
def takeFound (g : Geometry) : EStateM Stop RunLoop Unit := do
  modify (reserveFound g)
  let s ← get
  onVcb (Vcb.onVol (linkRun g s.priorLastCluster s.cluster s.clustersFound))
  modify advance

/-- A pass of the loop; `false` when an exact-match request is refused. -/
def pass (g : Geometry) (exactMatchRequired : Bool) : EStateM Stop RunLoop Bool := do
  modify fun s => { s with lockedBitMap := true }
  match search g exactMatchRequired (← get) with
  | none => do
      modify fun s => { s with clustersFound := 0 }
      return false
  | some s => do
      set s
      if s.clustersFound = 0 then switchWindow g exactMatchRequired
      else do
        takeFound g
        return true

/-- The loop; `false` when an exact-match request is refused. -/
def loop (g : Geometry) (exactMatchRequired : Bool) : ℕ → EStateM Stop RunLoop Bool
  | 0 => do
      if (← get).clustersRemaining = 0 then return true else throw .outOfFuel
  | fuel + 1 => do
      if (← get).clustersRemaining = 0 then return true
      else if ← pass g exactMatchRequired then loop g exactMatchRequired fuel
      else return false

/-- A raise with the bitmap unlocked has left a run behind that was taken but is not
complete: give it back. -/
def unwindRun (g : Geometry) (s : RunLoop) : RunLoop :=
  if s.lockedBitMap then s
  else
    { s with
      vcb := putBack s.vcb s.window s.cluster s.clustersFound
      mcb := fatRemoveMcbEntry g s.mcb s.currentVbo s.bytesFound }

/-- The unwind of the slow path: the last run, then everything in the map. -/
def unwind (g : Geometry) : EStateM Stop RunLoop Unit := do
  modify (unwindRun g)
  let s ← get
  protect Stop.isRaised (modify fun s => { s with mcb := fatRemoveMcbEntry g s.mcb 0 0xffffffff })
    (onVcb (fatDeallocateDiskSpace g s.mcb))
  modify fun s => { s with mcb := fatRemoveMcbEntry g s.mcb 0 0xffffffff }

/-- The slow path, with its `finally`: a raise and a refusal are unwound. -/
def run (g : Geometry) (exactMatchRequired : Bool) (fuel : ℕ) : EStateM Stop RunLoop Bool := do
  let result ← protect Stop.isRaised (unwind g) do
    if exactMatchRequired ∧ g.numberOfWindows = 1 then return false
    else loop g exactMatchRequired fuel
  if !result then unwind g
  return result

end RunLoop

/-- The variables of the slow path before the loop. -/
def RunLoop.start (g : Geometry) (r : Request) (windowRelativeHint : ℕ) (c : AllocCall) : RunLoop :=
  { vcb := c.vcb, mcb := c.mcb, window := c.vcb.currentWindow
    windowRelativeHint := windowRelativeHint, index := 0, cluster := 0, currentVbo := 0
    priorLastCluster := 0, bytesFound := 0, clustersFound := 0
    clustersRemaining := r.clusterCount g, lockedBitMap := true
    selectNextContigWindow := false }

/-- The slow path: the request is filled run by run.  Whatever stops it, the caller
gets the map and, unless the request is complete, a byte count of zero. -/
def allocateSlow (g : Geometry) (r : Request) (windowRelativeHint fuel : ℕ) :
    EStateM Stop AllocCall Unit := fun c =>
  match RunLoop.run g r.exactMatchRequired fuel (RunLoop.start g r windowRelativeHint c) with
  | .ok true s => .ok () { c with vcb := s.vcb, mcb := s.mcb }
  | .ok false s => .ok () { c with vcb := s.vcb, mcb := s.mcb, byteCount := 0 }
  | .error e s => .error e { c with vcb := s.vcb, mcb := s.mcb, byteCount := 0 }

/-- Take the clusters of the request off the volume's count. -/
def AllocCall.admitted (g : Geometry) (r : Request) (c : AllocCall) : AllocCall :=
  { c with
    byteCount := (requestSize g r.byteCount).1
    vcb := { c.vcb with
      numberOfFreeClusters := c.vcb.numberOfFreeClusters - r.clusterCount g } }

/-- With the hint chosen: the fast path when the whole request was found in one piece,
and at the hint if the caller gave one; else the slow path. -/
def allocateAt (g : Geometry) (r : Request) (fuel : ℕ) (hints : ℕ × ℕ) :
    EStateM Stop AllocCall Unit := do
  match fatFindFreeClusterRun (← get).vcb (r.clusterCount g) hints.2 with
  | some startingCluster =>
      if hints.1 = 0 ∨ startingCluster = hints.2 then
        allocateFast g startingCluster (r.clusterCount g)
      else allocateSlow g r hints.2 fuel
  | none => allocateSlow g r hints.2 fuel

/-- `FatAllocateDiskSpace`.  `fuel` bounds the passes of the run loop. -/
def fatAllocateDiskSpace (g : Geometry) (r : Request) (fuel : ℕ) : EStateM Stop AllocCall Unit := do
  if r.byteCount = 0 then return
  if (← get).vcb.numberOfFreeClusters < r.clusterCount g then
    modify fun c => { c with byteCount := (requestSize g r.byteCount).1 }
    throw (.raised .diskFull)
  modify (AllocCall.admitted g r)
  let hints ← AllocCall.onVcb (chooseHint g r)
  allocateAt g r fuel hints

end KernelDrivers.Fat
