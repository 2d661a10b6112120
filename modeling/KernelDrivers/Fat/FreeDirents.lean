import KernelDrivers.Lib.Bitmap
import KernelDrivers.Lib.Raise
import KernelDrivers.Fat.Locate

/-!
# The allocation of dirents

A directory control block has three things that say where a new entry may go: a bitmap with
one bit for each slot, the offset from which on no slot has been used, and the lowest offset
at which a deleted slot may be.  `FatCreateNewDirent` reserves a range of slots by them and
leaves the slots themselves to its caller; `FatDeleteDirent` gives a range back.  All offsets
are counted in slots here.

## Main definitions

* `Dcb` — the slots of a directory, the bitmap and the two hints.
* `DirentCall` — what a call meets: the step that raises, and the memory behind the bitmap.
* `fatRescanDirectory`, `fatDefragDirectory`, `fatPrepareWriteDirectoryFile` — find the hints,
  compact the directory, make it longer.
* `fatCreateNewDirent`, `fatDeleteDirent` — reserve and give back.
-/

namespace KernelDrivers.Fat

namespace Dirent

/-- A slot that a new entry may take. -/
def Free (d : Dirent) : Prop := d.ordinal = neverUsed ∨ d.ordinal = deleted

instance (d : Dirent) : Decidable d.Free :=
  inferInstanceAs (Decidable (d.ordinal = neverUsed ∨ d.ordinal = deleted))

def markDeleted (d : Dirent) : Dirent := d.setByte 0 deleted

/-- A slot of a cluster that has been zeroed. -/
def zero : Dirent := ⟨fun _ => 0⟩

@[simp] theorem ordinal_markDeleted (d : Dirent) : d.markDeleted.ordinal = deleted := by
  simp [markDeleted, ordinal, setByte]

theorem free_zero : zero.Free := .inl rfl

end Dirent

inductive DirentStatus
  | cannotMake
  | diskFull
  | fileCorruptError
  | ioError
  deriving DecidableEq

/-- The step of a call that raises.  `readSlot k` raises in the scan of the directory at slot `k`,
or where the scan ends before it. -/
inductive DirentFault
  | readSlot (k : ℕ)
  | compacting
  | addAllocation
  | bitmapPool
  | zeroing
  | readPrevious
  | readReserved
  deriving DecidableEq

/-- What a call meets.  `stale` are the bits behind the bytes that the bitmap gets. -/
structure DirentCall where
  fault : Option DirentFault
  stale : ℕ → Bool

/-- What is fixed about a directory. -/
structure DcbSite where
  isRoot : Bool
  isFat32 : Bool
  direntsPerCluster : ℕ
  pos : 0 < direntsPerCluster

/-- The root directory of FAT12 and FAT16 lies outside the clusters and has a fixed size. -/
def DcbSite.fixedSize (k : DcbSite) : Bool := k.isRoot && !k.isFat32

/-- The parts of a directory control block that the allocation of dirents uses.  `dirents` are
the slots below the allocation size; `none` stands for the offset `0xffffffff`. -/
structure Dcb where
  dirents : List Dirent
  freeDirentBitmap : Bitmap
  unusedDirentVbo : Option ℕ
  deletedDirentHint : ℕ

/-! ## The bitmap -/

/-- Set up a bitmap for `size` slots.  Sizes are counted in whole bytes: the last byte of the
old buffer is copied only if it is full, and what the last byte of the new one holds is not
determined unless it is full. -/
def resizeBitmap (b : Bitmap) (size : ℕ) (stale : ℕ → Bool) : Bitmap where
  size := size
  bit i := if i < 8 * (b.size / 8) then b.bit i else if i < 8 * (size / 8) then false else stale i

/-- Make the bitmap big enough for a directory of `length` slots. -/
def fatCheckFreeDirentBitmap (c : DirentCall) (length : ℕ) : EStateM DirentStatus Dcb Unit := do
  let s ← get
  if s.freeDirentBitmap.size < length then
    if c.fault = some .bitmapPool then throw .ioError
    set { s with freeDirentBitmap := resizeBitmap s.freeDirentBitmap length c.stale }

/-- What every access to the directory does first. -/
def fatOpenDirectoryFile (c : DirentCall) : EStateM DirentStatus Dcb Unit := do
  fatCheckFreeDirentBitmap c (← get).dirents.length

/-! ## Rescan -/

inductive Rescan.RunType
  | initialRun
  | freeDirents
  | allocatedDirents
  deriving DecidableEq

/-- The variables of the scan.  `index` is `DirentIndex`, and `UnusedVbo` in slots. -/
structure Rescan where
  bitmap : Bitmap
  deletedHint : Option ℕ
  currentRun : Rescan.RunType
  startIndexOfThisRun : ℕ
  index : ℕ

namespace Rescan

/-- Record the run that ends before `index`. -/
def recordRun (r : Rescan) : Bitmap :=
  match r.currentRun with
  | .allocatedDirents =>
      r.bitmap.setBits r.startIndexOfThisRun (r.index - r.startIndexOfThisRun)
  | _ => r.bitmap.clearBits r.startIndexOfThisRun (r.index - r.startIndexOfThisRun)

/-- The run that a dirent belongs to. -/
def runOf (d : Dirent) : RunType :=
  if d.ordinal = Dirent.deleted then .freeDirents else .allocatedDirents

/-- The first deleted dirent is the hint. -/
def hintAfter (r : Rescan) (d : Dirent) : Option ℕ :=
  if d.ordinal = Dirent.deleted then r.deletedHint.or (some r.index) else r.deletedHint

/-- One turn of the loop, at a dirent that has been used. -/
def step (r : Rescan) (d : Dirent) : Rescan :=
  let next := { r with deletedHint := r.hintAfter d, index := r.index + 1 }
  if r.currentRun = .initialRun then { next with currentRun := runOf d }
  else if r.currentRun = runOf d then next
  else { next with
    bitmap := r.recordRun
    currentRun := runOf d
    startIndexOfThisRun := r.index }

/-- The loop, up to the first dirent that has never been used. -/
def scan : List Dirent → Rescan → Rescan
  | [], r => r
  | d :: ds, r => if d.ordinal = Dirent.neverUsed then r else scan ds (r.step d)

end Rescan

/-- Find the hints and the bitmap from the slots.  A read that fails leaves the bits of the
runs before it. -/
def fatRescanDirectory (c : DirentCall) : EStateM DirentStatus Dcb Unit := do
  fatOpenDirectoryFile c
  let s ← get
  let start : Rescan := ⟨s.freeDirentBitmap, none, .initialRun, 0, 0⟩
  match c.fault with
  | some (.readSlot k) =>
      set { s with freeDirentBitmap := (Rescan.scan (s.dirents.take k) start).bitmap }
      throw .ioError
  | _ =>
      let r := Rescan.scan s.dirents start
      set { s with
        freeDirentBitmap := r.recordRun.clearBits r.index (s.dirents.length - r.index)
        unusedDirentVbo := some r.index
        deletedDirentHint := r.deletedHint.getD r.index }

/-! ## Defragmentation -/

/-- The local context that matches all files and a label. -/
def Ccb.matchEverything : Ccb where
  matchAll := true
  matchVolumeId := true
  skipShortNameCompare := false
  queryTemplateMixed := false
  containsWildCards := false
  oemWild := []
  oemConstant := []
  unicodeQueryTemplate := []

section Defrag

variable (nls : Nls) (chicagoMode : Bool)

/-- The runs of slots that entries use, from slot `query` on: the first slot and the number of
slots.  `none` when the search raises. -/
def entryRuns (dir : Directory) : (fuel query : ℕ) → Option (List (ℕ × ℕ))
  | 0, _ => some []
  | fuel + 1, query =>
      match fatLocateDirent nls chicagoMode true Ccb.matchEverything dir (32 * query) with
      | .notFound => some []
      | .corrupt => none
      | .found off _ lfn _ =>
          let run := (off / 32 - fatLfnDirentsNeeded lfn, fatLfnDirentsNeeded lfn + 1)
          if off / 32 + 1 < dir.dirents.length then
            (entryRuns dir fuel (off / 32 + 1)).map (run :: ·)
          else some [run]

end Defrag

/-- The slots of the runs. -/
def usedDirents (ds : List Dirent) (runs : List (ℕ × ℕ)) : List Dirent :=
  runs.flatMap fun r => (ds.drop r.1).take r.2

/-- The slots of the holes before the runs, from slot `query` on. -/
def unusedDirents (ds : List Dirent) : (query : ℕ) → List (ℕ × ℕ) → List Dirent
  | _, [] => []
  | query, r :: rs => (ds.drop query).take (r.1 - query) ++ unusedDirents ds (r.1 + r.2) rs

/-- Move the used slots to the front and mark the holes deleted.  What stands behind the last
run stays as it is. -/
def compacted (ds : List Dirent) (runs : List (ℕ × ℕ)) : List Dirent :=
  let used := usedDirents ds runs
  let unused := (unusedDirents ds 0 runs).map Dirent.markDeleted
  used ++ unused ++ ds.drop (used.length + unused.length)

/-- The number of slots that the runs have, `TotalBytesAllocated`. -/
def runsTotal (runs : List (ℕ × ℕ)) : ℕ := (runs.map Prod.snd).sum

/-- Mark the slots from `first` up to `last` deleted. -/
def markSlots (ds : List Dirent) (first last : ℕ) : List Dirent :=
  ds.mapIdx fun i d => if first ≤ i ∧ i ≤ last then d.markDeleted else d

section Calls

variable (nls : Nls) (chicagoMode : Bool) (k : DcbSite)

/-- Compact a small directory.  The result is the first slot behind the entries, or `none`
when there are not enough slots behind them.  Nothing has been changed when a step raises. -/
def fatDefragDirectory (c : DirentCall) (direntsNeeded : ℕ) :
    EStateM DirentStatus Dcb (Option ℕ) := do
  let s ← get
  if h : 32 * s.dirents.length ≤ 0x40000 then
    if c.fault = some .compacting then throw .ioError
    match entryRuns nls chicagoMode ⟨s.dirents, by omega⟩ s.dirents.length 0 with
    | none => throw .fileCorruptError
    | some runs =>
        if s.dirents.length - runsTotal runs < direntsNeeded then return none
        set { s with
          dirents := compacted s.dirents runs
          freeDirentBitmap := (s.freeDirentBitmap.setBits 0 (runsTotal runs)).clearBits
            (runsTotal runs) (s.dirents.length - runsTotal runs) }
        return some (runsTotal runs)
  else return none

/-- Prepare a write at a slot.  A slot behind the allocation makes the directory longer, and
the new clusters are zeroed; when that fails, they are given back. -/
def fatPrepareWriteDirectoryFile (c : DirentCall) (slot : ℕ) : EStateM DirentStatus Dcb Unit := do
  fatOpenDirectoryFile c
  if (← get).dirents.length ≤ slot then
    if k.fixedSize then throw .diskFull
    if c.fault = some .addAllocation then throw .ioError
    let length := (slot / k.direntsPerCluster + 1) * k.direntsPerCluster
    fatCheckFreeDirentBitmap c length
    if c.fault = some .zeroing then throw .ioError
    modify fun s => { s with
      dirents := s.dirents ++ List.replicate (length - s.dirents.length) Dirent.zero }

/-! ## Create and delete -/

/-- Where the new dirents go, and the two hints behind them. -/
structure Reservation where
  offset : ℕ
  unused : ℕ
  hint : ℕ

/-- The range for the new dirents: behind the used slots, else a hole, else in a new
cluster. -/
def chooseSlots (c : DirentCall) (n : ℕ) : EStateM DirentStatus Dcb Reservation := do
  let s ← get
  let unused := s.unusedDirentVbo.getD 0
  let hint := s.deletedDirentHint
  if unused + n ≤ s.dirents.length then return ⟨unused, unused + n, hint⟩
  let hole := s.freeDirentBitmap.findClearBits n hint
  let hole ←
    if hole = none ∧ k.fixedSize ∧ 32 * s.dirents.length ≤ 0x40000 then
      fatDefragDirectory nls chicagoMode c n
    else pure hole
  match hole with
  | some offset =>
      return ⟨offset, max unused (offset + n), if offset = hint then hint + n else hint⟩
  | none =>
      if 64 * 1024 ≤ s.dirents.length ∨ k.fixedSize then throw .cannotMake
      fatPrepareWriteDirectoryFile k c (unused + n)
      return ⟨unused, unused + n, hint⟩

/-- Delete a long-name dirent right before a single new dirent: it belongs to no name. -/
def deleteOrphan (c : DirentCall) (offset n : ℕ) : EStateM DirentStatus Dcb Unit := do
  if chicagoMode ∧ n = 1 ∧ (if k.isRoot then 0 else 2) < offset then
    if c.fault = some .readPrevious then throw .ioError
    let s ← get
    match s.dirents[offset - 1]? with
    | none => throw .fileCorruptError
    | some d =>
        if d.ordinal = Dirent.neverUsed then throw .fileCorruptError
        if d.attributes = Dirent.attrLfn ∧ d.ordinal ≠ Dirent.deleted then
          set { s with
            dirents := markSlots s.dirents (offset - 1) (offset - 1)
            freeDirentBitmap := s.freeDirentBitmap.clearBits (offset - 1) 1 }

/-- See that the slots are in fact free. -/
def checkSlots (c : DirentCall) (offset n : ℕ) : EStateM DirentStatus Dcb Unit := do
  if c.fault = some .readReserved then throw .ioError
  let s ← get
  unless (List.range n).all fun i => (s.dirents[offset + i]?).any fun d => decide d.Free do
    throw .fileCorruptError

/-- Reserve `n` slots in a row, with the hints known. -/
def reserveSlots (c : DirentCall) (n : ℕ) : EStateM DirentStatus Dcb ℕ := do
  let r ← chooseSlots nls chicagoMode k c n
  deleteOrphan chicagoMode k c r.offset n
  checkSlots c r.offset n
  modify fun s => { s with
    freeDirentBitmap := s.freeDirentBitmap.setBits r.offset n
    unusedDirentVbo := some r.unused
    deletedDirentHint := r.hint }
  return r.offset

/-- Reserve `n` slots in a row.  The result is the first one. -/
def fatCreateNewDirent (c : DirentCall) (n : ℕ) : EStateM DirentStatus Dcb ℕ := do
  if (← get).unusedDirentVbo = none then fatRescanDirectory c
  reserveSlots nls chicagoMode k c n

end Calls

/-- Delete the dirents of a file, from its first long-name dirent to its short one. -/
def fatDeleteDirent (lfnOffset direntOffset : ℕ) (s : Dcb) : Dcb where
  dirents := markSlots s.dirents lfnOffset direntOffset
  freeDirentBitmap := s.freeDirentBitmap.clearBits lfnOffset (direntOffset - lfnOffset + 1)
  unusedDirentVbo := s.unusedDirentVbo
  deletedDirentHint := if direntOffset < s.deletedDirentHint then lfnOffset else s.deletedDirentHint

/-- The state behind a routine, whether it has returned or raised. -/
def stateAfter {α : Type} (x : EStateM DirentStatus Dcb α) (s : Dcb) : Dcb :=
  match x s with
  | .ok _ t => t
  | .error _ t => t

/-- Write dirents over the slots from `offset` on. -/
def writeDirents (offset : ℕ) (es : List Dirent) (s : Dcb) : Dcb :=
  { s with dirents := s.dirents.take offset ++ es ++ s.dirents.drop (offset + es.length) }

end KernelDrivers.Fat
