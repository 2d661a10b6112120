import KernelDrivers.Fat.Atomic
import KernelDrivers.Fat.Splice

/-!
# Inserting a set of extended attributes

`FatAddEaSet` finds a handle for a new set and the place of its clusters in the EA file.  When
there is no unused handle, the offset table gets a cluster, too.  All new clusters are allocated
in one request.  Then the EA file is cut where the new clusters belong, and what was cut off is
merged behind them, map by map.  A flag for each cut and each merge tells the unwind what to
take back.

Every call that can raise is a `Point`, and a run is told at which of them it fails.  Cuts and
merges fail when they access the FAT.  A map that is initialised again after it was merged and
emptied can fail to be, and what it reads as then is a parameter.

## Main definitions

* `EaTables.plan` — the handle, the place and the size of the insertion.
* `body`, `unwind`, `fatAddEaSet` — the routine.
* `Plan.Reinitializes` — the points at which a merged map is initialised again.
* `LeavesFile` — the EA file and the volume are as before the call.
* `FailsSafely` — whatever such a map reads as, the unwind leaves the file as it was.
-/

namespace KernelDrivers.Fat.AddEaSet

/-! ## The place -/

/-- The base table in the header of the EA file, and its offset table. -/
structure EaTables where
  eaBaseTable : ℕ → ℕ
  offsetTable : ℕ → ℕ

/-- `UNUSED_EA_HANDLE`. -/
def unusedEaHandle : ℕ := 0xffff

/-- Walk back over handles that are used, down to an unused one.  The second result is the
last handle that was walked over, unless that is handle 1. -/
def skipUsed (offsetTable : ℕ → ℕ) : ℕ → ℕ × Option ℕ
  | 0 => (0, none)
  | i + 1 =>
      if offsetTable i = unusedEaHandle then (i, if i + 1 ≠ 1 then some (i + 1) else none)
      else skipUsed offsetTable i

/-- Walk back over handles that are unused. -/
def skipUnused (offsetTable : ℕ → ℕ) : ℕ → ℕ
  | 0 => 0
  | i + 1 => if offsetTable i ≠ unusedEaHandle then i + 1 else skipUnused offsetTable i

/-- A handle for a new set: the handle, the handle whose set it goes in front of, and whether
the offset table needs another cluster for it. -/
structure Handle where
  newEaIndex : ℕ
  next : Option ℕ
  addedOffsetTableCluster : Bool
  deriving DecidableEq

/-- Find a handle in an offset table of so many bytes. -/
def EaTables.findHandle (t : EaTables) (eaOffsetTableSize : ℕ) : Handle :=
  let last := ulongSub (eaOffsetTableSize / 2) 1 % 2 ^ 16
  let used := if t.offsetTable last ≠ unusedEaHandle then skipUsed t.offsetTable last
    else (last, none)
  let i := skipUnused t.offsetTable used.1
  if i ≠ 0 then ⟨i, used.2, false⟩
  else if t.offsetTable 1 = unusedEaHandle then ⟨1, used.2, false⟩
  else ⟨eaOffsetTableSize % 2 ^ 16 / 2, used.2, true⟩

/-- What is inserted, and where. -/
structure Plan where
  newEaIndex : ℕ
  eaNewOffsetVbo : ℕ
  eaSetVbo : ℕ
  eaSetLength : ℕ
  newAllocation : ℕ
  tailExists : Bool
  addedOffsetTableCluster : Bool

/-- The plan for a set of `eaSetLength` bytes.  It is `none` when the handle is not a legal one
or the EA file would become too large; then `STATUS_INSUFFICIENT_RESOURCES` is raised. -/
def EaTables.plan (g : Geometry) (t : EaTables) (fileSize eaSetLength : ℕ) : Option Plan :=
  let eaNewOffsetVbo := ulong (t.eaBaseTable 0 * g.clusterSize)
  -- the size of the header is 512
  let eaOffsetTableSize := ulongSub eaNewOffsetVbo 512
  let h := t.findHandle eaOffsetTableSize
  let eaSetClusterOffset := match h.next with
    | some i => t.offsetTable i + t.eaBaseTable (i / 128)
    | none => fileSize / g.clusterSize
  let eaSetLength := roundToCluster g eaSetLength
  let newAllocation := ulong (eaSetLength + if h.addedOffsetTableCluster then g.clusterSize else 0)
  -- MAX_EA_HANDLE
  if 30719 < h.newEaIndex then none
  else if ulongSub (ulong (0xffff * g.clusterSize)) fileSize < newAllocation then none
  else some
    { newEaIndex := h.newEaIndex
      eaNewOffsetVbo := eaNewOffsetVbo
      eaSetVbo := ulong (eaSetClusterOffset * g.clusterSize)
      eaSetLength := eaSetLength
      newAllocation := newAllocation
      tailExists := h.next.isSome
      addedOffsetTableCluster := h.addedOffsetTableCluster }

/-! ## The call -/

/-- What has a map of its own: `EaSetMcb`, `EaOffsetMcb`, `EaInitialEaMcb` and `EaTailMcb`. -/
inductive Piece
  | eaSet
  | eaOffset
  | eaInitialEa
  | eaTail
  deriving DecidableEq

/-- What of the EA file is pinned. -/
inductive Range
  | eaHeader
  | eaOffset
  | eaSet
  deriving DecidableEq

/-- The calls that can raise, besides the allocation.  The header and the offset table are read
before that and pinned again at the end. -/
inductive Point
  | read (range : Range)
  | initMcb (p : Piece)
  | splitNewAllocation
  | purgeCacheSection
  | split (p : Piece)
  | merge (p : Piece)
  | reinitMcb (p : Piece)
  | setDirtyBcb
  | setFileSizes
  | pin (range : Range)
  | markDirty (range : Range)
  deriving DecidableEq

/-- The point at which a run fails, and what a map reads as that could not be initialised
again. -/
structure Surroundings where
  point : Point
  uninitialized : Mcb

/-- The EA file: its Fcb, and the size in its dirent. -/
structure EaFcb where
  vcb : Vcb
  mcb : Mcb
  fileSize : LargeInteger
  allocationSize : LargeInteger
  direntFileSize : ℕ

/-- The variables of `FatAddEaSet`.  `merged` is the flag of a merge that is done, and `split`
that of a cut; for the cluster of the offset table this is the cut of the new allocation. -/
structure Call where
  file : EaFcb
  mcb : Piece → Mcb
  initialized : Piece → Bool
  merged : Piece → Bool
  split : Piece → Bool
  allocatedNewAllocation : Bool
  eaSetVbo : ℕ
  newAllocation : ℕ
  unwindPrevFileSize : ℕ

namespace Call

/-- The variables when the plan is made. -/
def start (q : Plan) (f : EaFcb) : Call where
  file := f
  mcb := fun _ => []
  initialized := fun _ => false
  merged := fun _ => false
  split := fun _ => false
  allocatedNewAllocation := false
  eaSetVbo := q.eaSetVbo
  newAllocation := q.newAllocation
  unwindPrevFileSize := 0

/-- Change the volume. -/
def setVcb (c : Call) (v : Vcb) : Call := { c with file := { c.file with vcb := v } }

/-- The map of the file and that of a piece, with the volume. -/
def pair (p : Piece) (c : Call) : McbPair := ⟨c.file.vcb, c.file.mcb, c.mcb p⟩

def setPair (p : Piece) (c : Call) (r : McbPair) : Call :=
  { c with
    file := { c.file with vcb := r.vcb, mcb := r.mcb }
    mcb := Function.update c.mcb p r.other }

/-- The map of the new set and that of the new cluster of the offset table. -/
def newPair (c : Call) : McbPair := ⟨c.file.vcb, c.mcb .eaSet, c.mcb .eaOffset⟩

def setNewPair (c : Call) (r : McbPair) : Call :=
  { c.setVcb r.vcb with
    mcb := Function.update (Function.update c.mcb .eaSet r.mcb) .eaOffset r.other }

end Call

section Body

variable (g : Geometry) (q : Plan) (s : Surroundings)

/-- A call that raises at this point. -/
def may (p : Point) : EStateM Stop Call Unit := failIf (s.point = p)

/-- A routine whose next access to the FAT fails at this point. -/
def mayFault (p : Point) (x : EStateM Stop Call Unit) : EStateM Stop Call Unit := do
  if s.point = p then
    modify fun c => c.setVcb (c.file.vcb.withFault (some 0))
  x

def initMcb (p : Piece) : EStateM Stop Call Unit := do
  may s (.initMcb p)
  modify fun c => { c with
    mcb := Function.update c.mcb p []
    initialized := Function.update c.initialized p true }

/-- Allocate everything in one request. -/
def allocate (fuel : ℕ) : EStateM Stop Call Unit := do
  let r := Request.at 0 (← get).newAllocation
  onPart (fun c => ⟨c.file.vcb, c.mcb .eaSet, r.byteCount⟩)
    (fun c a => { c.setVcb a.vcb with
      mcb := Function.update c.mcb .eaSet a.mcb, newAllocation := a.byteCount })
    (fatAllocateDiskSpace g r fuel)
  modify fun c => { c with allocatedNewAllocation := true }

/-- Cut the cluster of the offset table off the new allocation. -/
def splitNewAllocation : EStateM Stop Call Unit := do
  mayFault s .splitNewAllocation
    (onPart Call.newPair Call.setNewPair (fatSplitAllocation g q.eaSetLength))
  modify fun c => { c with split := Function.update c.split .eaOffset true }

/-- Cut the file and keep the part behind as a piece. -/
def splitFile (p : Piece) (vbo : ℕ) : EStateM Stop Call Unit := do
  mayFault s (.split p) (onPart (Call.pair p) (Call.setPair p) (fatSplitAllocation g vbo))
  modify fun c => { c with split := Function.update c.split p true }

/-- Merge a piece into the file.  Its map is uninitialised and initialised again before the flag
is set. -/
def mergeFile (p : Piece) : EStateM Stop Call Unit := do
  mayFault s (.merge p) (onPart (Call.pair p) (Call.setPair p) (fatMergeAllocation g))
  modify fun c => { c with mcb := Function.update c.mcb p s.uninitialized }
  may s (.reinitMcb p)
  modify fun c => { c with
    mcb := Function.update c.mcb p []
    merged := Function.update c.merged p true }

/-- Add the new clusters to the sizes of the file. -/
def growFile (c : Call) : Call :=
  let size : LargeInteger :=
    { c.file.fileSize with lowPart := ulong (c.file.fileSize.lowPart + c.newAllocation) }
  { c with
    unwindPrevFileSize := c.file.fileSize.lowPart
    file := { c.file with
      fileSize := size, allocationSize := size, direntFileSize := size.lowPart } }

/-- Tell the cache manager, and fill in the set and the tables. -/
def finish : EStateM Stop Call Unit := do
  may s .setDirtyBcb
  may s .setFileSizes
  may s (.pin .eaHeader)
  may s (.pin .eaOffset)
  may s (.pin .eaSet)
  may s (.markDirty .eaSet)
  may s (.markDirty .eaHeader)
  may s (.markDirty .eaOffset)

/-- When there is a new cluster of the offset table, cut it off the new allocation. -/
def splitOffOffset : EStateM Stop Call Unit := do
  if q.addedOffsetTableCluster then
    initMcb s .eaOffset
    splitNewAllocation g q s

/-- When there is such a piece, cut it off the file. -/
def splitOff (present : Bool) (p : Piece) (vbo : ℕ) : EStateM Stop Call Unit := do
  if present then
    initMcb s p
    splitFile g s p vbo

/-- Cut the new allocation and the file. -/
def cutApart : EStateM Stop Call Unit := do
  splitOffOffset g q s
  may s .purgeCacheSection
  splitOff g s q.tailExists .eaTail q.eaSetVbo
  splitOff g s (q.addedOffsetTableCluster && q.eaSetVbo != q.eaNewOffsetVbo) .eaInitialEa
    q.eaNewOffsetVbo

/-- Merge a piece when there is one. -/
def mergeIf (present : Call → Bool) (p : Piece) : EStateM Stop Call Unit := do
  if present (← get) then
    mergeFile g s p

/-- The new set begins one cluster later when the offset table got a cluster. -/
def moveSet (c : Call) : Call :=
  if q.addedOffsetTableCluster then { c with eaSetVbo := ulong (c.eaSetVbo + g.clusterSize) } else c

/-- Merge the pieces in their new order. -/
def pasteTogether : EStateM Stop Call Unit := do
  mergeIf g s (fun _ => q.addedOffsetTableCluster) .eaOffset
  mergeIf g s (fun c => c.initialized .eaInitialEa) .eaInitialEa
  modify (moveSet g q)
  mergeFile g s .eaSet
  mergeIf g s (fun c => c.initialized .eaTail) .eaTail

/-- The body of `FatAddEaSet` from the allocation on. -/
def body (fuel : ℕ) : EStateM Stop Call Unit := do
  initMcb s .eaSet
  allocate g fuel
  cutApart g q s
  pasteTogether g q s
  modify growFile
  finish s

end Body

section Unwind

variable (g : Geometry) (q : Plan)

/-- Recover the sizes of the file. -/
def restoreSizes (c : Call) : Call :=
  if c.unwindPrevFileSize ≠ 0 then
    { c with file := { c.file with
        fileSize := { c.file.fileSize with lowPart := c.unwindPrevFileSize }
        allocationSize := { c.file.allocationSize with lowPart := c.unwindPrevFileSize }
        direntFileSize := c.unwindPrevFileSize } }
  else c

/-- Cut a piece out of the file again if it was merged. -/
def splitBack (p : Piece) (vbo : ℕ) : EStateM Stop Call Unit := do
  if (← get).merged p then
    onPart (Call.pair p) (Call.setPair p) (fatSplitAllocation g vbo)

/-- Cut everything out that was merged, the last piece first. -/
def splitBacks : EStateM Stop Call Unit := do
  let eaSetVbo := (← get).eaSetVbo
  splitBack g .eaTail (ulong (eaSetVbo + q.eaSetLength))
  splitBack g .eaSet eaSetVbo
  splitBack g .eaInitialEa (ulong (q.eaNewOffsetVbo + g.clusterSize))
  splitBack g .eaOffset q.eaNewOffsetVbo

/-- Merge a piece that was cut off the file. -/
def mergeBack (p : Piece) : EStateM Stop Call Unit := do
  if (← get).split p then
    onPart (Call.pair p) (Call.setPair p) (fatMergeAllocation g)

/-- Merge everything that was cut off. -/
def mergeBacks : EStateM Stop Call Unit := do
  mergeBack g .eaInitialEa
  mergeBack g .eaTail

/-- Free the clusters of a piece. -/
def deallocate (p : Piece) : EStateM Stop Call Unit := do
  let c ← get
  onPart (fun c => c.file.vcb) Call.setVcb (fatDeallocateDiskSpace g (c.mcb p))

/-- Free the new clusters. -/
def freeNew : EStateM Stop Call Unit := do
  if (← get).split .eaOffset then
    deallocate g .eaOffset
  deallocate g .eaSet

/-- The unwind of `FatAddEaSet`. -/
def unwind : EStateM Stop Call Unit := do
  if (← get).allocatedNewAllocation then
    modify restoreSizes
    splitBacks g q
    mergeBacks g
    freeNew g

end Unwind

/-- `FatAddEaSet`.  It is `none` when `STATUS_INSUFFICIENT_RESOURCES` is raised before anything
is changed. -/
def fatAddEaSet (g : Geometry) (t : EaTables) (s : Surroundings) (eaSetLength fuel : ℕ)
    (f : EaFcb) : Option (EStateM.Result Stop EaFcb Unit) :=
  if s.point = .read .eaHeader ∨ s.point = .read .eaOffset then
    some (.error (.raised .deviceError) f)
  else
    (t.plan g f.fileSize.lowPart eaSetLength).map fun q =>
      match protect Stop.isRaised (unwind g q) (body g q s fuel) (Call.start q f) with
      | .ok _ c => .ok () c.file
      | .error stop c => .error stop c.file

/-! ## What a failed call leaves -/

/-- The points at which the call initialises a map again that it has merged. -/
def Plan.Reinitializes (q : Plan) (point : Point) : Prop :=
  point = .reinitMcb .eaSet ∨
  point = .reinitMcb .eaTail ∧ q.tailExists ∨
  point = .reinitMcb .eaOffset ∧ q.addedOffsetTableCluster ∨
  point = .reinitMcb .eaInitialEa ∧ q.addedOffsetTableCluster ∧ q.eaSetVbo ≠ q.eaNewOffsetVbo

/-- The EA file with the chain `cs` is as it was, and so is the rest of the volume: entries
outside the chain are unchanged, and the free-space books agree with the FAT. -/
structure LeavesFile (g : Geometry) (f f' : EaFcb) (cs : List ℕ) : Prop where
  chain : Leads (fatLink g.width f'.vcb.vol.fat) cs .last
  mcb : f'.mcb = f.mcb
  fileSize : f'.fileSize = f.fileSize
  allocationSize : f'.allocationSize = f.allocationSize
  direntFileSize : f'.direntFileSize = f.direntFileSize
  entry : ∀ c, c ∉ cs → lookupEntry g.width f'.vcb.vol.fat c = lookupEntry g.width f.vcb.vol.fat c
  books : Books g f'.vcb (zeroSet g f.vcb.vol.fat) 0

/-- Whatever an uninitialised map reads as: when the call stops after it has allocated space, and
the calls of its unwind succeed, the file is left. -/
def FailsSafely (g : Geometry) (q : Plan) (point : Point) (fuel : ℕ) (f : EaFcb) (cs : List ℕ) :
    Prop :=
  ∀ uninitialized stop c c', body g q ⟨point, uninitialized⟩ fuel (Call.start q f) = .error stop c →
    c.allocatedNewAllocation → unwind g q c = .ok () c' → LeavesFile g f c'.file cs

/-- An EA file with the chain `cs`: it is as long as its chain, its clusters can be counted in 16
bits, its offset table is not empty, and its sets lie between the offset table and the end. -/
structure ConsistentEaFile (g : Geometry) (t : EaTables) (f : EaFcb) (cs : List ℕ) : Prop where
  consistent : Consistent g f.vcb
  clusters : ∀ c ∈ cs, c ∈ g.clusters
  chain : Leads (fatLink g.width f.vcb.vol.fat) cs .last
  mcb : MapsFile g f.mcb cs
  length_le : cs.length ≤ 0xffff
  length_lt : cs.length * g.clusterSize < 2 ^ 32
  fileSize : f.fileSize = ⟨cs.length * g.clusterSize, 0⟩
  allocationSize : f.allocationSize = ⟨cs.length * g.clusterSize, 0⟩
  direntFileSize : f.direntFileSize = cs.length * g.clusterSize
  base_le : t.eaBaseTable 0 ≤ cs.length
  header_lt : 512 < t.eaBaseTable 0 * g.clusterSize
  sets : ∀ i, 1 < i → i < (t.eaBaseTable 0 * g.clusterSize - 512) / 2 →
    t.offsetTable i ≠ unusedEaHandle → t.eaBaseTable 0 ≤ t.offsetTable i + t.eaBaseTable (i / 128) ∧
      t.offsetTable i + t.eaBaseTable (i / 128) < cs.length

end KernelDrivers.Fat.AddEaSet
