import KernelDrivers.Fat.Lookup

/-!
# Transfers that pass the cache by

`FatNonCachedIo` turns a range of a file into transfers to or from the disk: one, when the range
is in a single run, or a list of one for each run.  `FatNonCachedNonAlignedRead` reads a range that
does not begin or end with a sector: the first and the last sector by way of a buffer, and what is
between them with `FatNonCachedIo`.

## Main definitions

* `IoRun` — a transfer: where it is in the file, on the disk and in the buffer.
* `fatNonCachedIo`, `fatNonCachedNonAlignedRead` — the routines, with their transfers as results.
-/

namespace KernelDrivers.Fat

/-- `IO_RUN`. -/
structure IoRun where
  vbo : ℕ
  lbo : ℕ
  offset : ℕ
  byteCount : ℕ
  deriving DecidableEq, Repr

/-- The bytes of a transfer: each with its place in the buffer and on the disk. -/
def IoRun.bytes (r : IoRun) : List (ℕ × ℕ × ℕ) :=
  (List.range r.byteCount).map fun j => (r.vbo + j, r.offset + j, r.lbo + j)

/-- The variables of the loop over the runs. -/
structure RunCursor where
  currentIndex : ℕ
  startingVbo : ℕ
  bufferOffset : ℕ
  byteCount : ℕ
  nextLbo : ℕ
  nextByteCount : ℕ

/-- The loop over the runs, for a number of passes.  What `FatGetNextMcbEntry` returns is not
looked at: it leaves the variables alone when there is no such run. -/
def ioRunsFrom (g : Geometry) (mcb : Mcb) : ℕ → RunCursor → List IoRun
  | 0, _ => []
  | passes + 1, c =>
      let count := if c.byteCount < c.nextByteCount then c.byteCount else c.nextByteCount
      let run := (fatGetNextMcbEntry g mcb (c.currentIndex + 1)).getD (0, c.nextLbo, count)
      ⟨c.startingVbo, c.nextLbo, c.bufferOffset, count⟩ ::
        ioRunsFrom g mcb passes
          { currentIndex := c.currentIndex + 1
            startingVbo := ulong (c.startingVbo + count)
            bufferOffset := ulong (c.bufferOffset + count)
            byteCount := ulongSub c.byteCount count
            nextLbo := run.2.1
            nextByteCount := run.2.2 }

/-- A lookup of a byte that has to be allocated. -/
def lookupAllocated (g : Geometry) (vbo fuel : ℕ) : EStateM Stop FcbOrDcb FileRun := do
  match ← fatLookupFileAllocation g vbo fuel with
  | none => throw (.raised .fileCorruptError)
  | some run => return run

/-- `FatNonCachedIo`: the transfers. -/
def fatNonCachedIo (g : Geometry) (startingVbo byteCount fuel : ℕ) :
    EStateM Stop FcbOrDcb (List IoRun) := do
  let first ← lookupAllocated g startingVbo fuel
  if ulongSub byteCount (if first.endOnMax then 1 else 0) ≤ first.byteCount then
    return [⟨startingVbo, first.lbo, 0, byteCount⟩]
  else
    let last ← lookupAllocated g (ulongSub (ulong (startingVbo + byteCount)) 1) fuel
    let f ← get
    return ioRunsFrom g f.mcb (last.index + 1 - first.index)
      { currentIndex := first.index
        startingVbo := startingVbo
        bufferOffset := 0
        byteCount := byteCount
        nextLbo := first.lbo
        nextByteCount := first.byteCount }

/-- The part between the first and the last sector, into its place in the user's buffer. -/
def readMiddle (g : Geometry) (originalStartingVbo startingVbo byteCount fuel : ℕ) :
    EStateM Stop FcbOrDcb (List IoRun) := do
  let ioRuns ← fatNonCachedIo g startingVbo byteCount fuel
  return ioRuns.map fun r => { r with offset := r.offset + ulongSub startingVbo originalStartingVbo }

/-- What follows the first sector: the tail that is not a sector, and then the rest. -/
def readBalance (g : Geometry) (originalStartingVbo startingVbo byteCount fuel : ℕ) :
    EStateM Stop FcbOrDcb (List IoRun) := do
  let bytesToCopy := byteCount % g.sectorSize
  if bytesToCopy ≠ 0 then
    let lastSectorVbo := ulong (startingVbo + byteCount / g.sectorSize * g.sectorSize)
    let last ← lookupAllocated g lastSectorVbo fuel
    let tail : IoRun :=
      ⟨lastSectorVbo, last.lbo, ulongSub lastSectorVbo originalStartingVbo, bytesToCopy⟩
    if ulongSub byteCount bytesToCopy = 0 then return [tail]
    else
      let middle ← readMiddle g originalStartingVbo startingVbo (ulongSub byteCount bytesToCopy) fuel
      return tail :: middle
  else readMiddle g originalStartingVbo startingVbo byteCount fuel

/-- `FatNonCachedNonAlignedRead`: what is copied from the disk to the user's buffer. -/
def fatNonCachedNonAlignedRead (g : Geometry) (startingVbo byteCount fuel : ℕ) :
    EStateM Stop FcbOrDcb (List IoRun) := do
  let hole := startingVbo % g.sectorSize
  if hole ≠ 0 then
    let first ← lookupAllocated g startingVbo fuel
    let bytesToCopy :=
      if g.sectorSize - hole ≤ byteCount then g.sectorSize - hole else byteCount
    -- the sector is read as a whole
    let head : IoRun :=
      ⟨startingVbo, first.lbo / g.sectorSize * g.sectorSize + hole, 0, bytesToCopy⟩
    if ulongSub byteCount bytesToCopy = 0 then return [head]
    else
      let balance ← readBalance g startingVbo (ulong (startingVbo + bytesToCopy))
        (ulongSub byteCount bytesToCopy) fuel
      return head :: balance
  else readBalance g startingVbo startingVbo byteCount fuel

end KernelDrivers.Fat
