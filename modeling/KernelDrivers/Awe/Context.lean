import Mathlib.Tactic

/-!
# The in-memory file of AWEAlloc

AWEAlloc keeps a file in physical memory: a list of blocks, each of them an MDL, and
one page of 2 MB that is mapped at a time.  A request maps the pages it needs one after the
other and leaves the last one behind for the next request.

## Main definitions

* `Context` — `OBJECT_CONTEXT`, with the bytes of the blocks.
* `tryAcquireProtection`, `releaseProtection` — the counters of readers and writers.
* `setSizePass` — one pass of the loop of `AWEAllocSetSize`.
* `mapPage` — `AWEAllocMapPage`.
-/

namespace KernelDrivers.Awe

inductive Status
  | success
  | deviceBusy
  | endOfFile
  | invalidParameter
  | insufficientResources
  | noMemory
  | driverInternalError
  | bufferTooSmall
  deriving DecidableEq, Repr

/-! ### Pages and offsets -/

/-- `ALLOC_PAGE_SIZE`, 2 MB. -/
def allocPageSize : ℕ := 2 * 2 ^ 20

/-- `MAX_BLOCK_SIZE`: what an MDL can hold, in whole pages. -/
def maxBlockSize : ℕ := 2 ^ 32 - 1 - (allocPageSize - 1)

/-- `AWEAllocGetPageBaseFromAbsOffset`. -/
def getPageBase (offset : ℤ) : ℤ := offset - offset % allocPageSize

/-- `AWEAllocGetPageOffsetFromAbsOffset`. -/
def getPageOffset (offset : ℤ) : ℕ := (offset % allocPageSize).toNat

/-- `AWEAllocGetRequiredPagesForSize`. -/
def getRequiredPages (size : ℤ) : ℤ := getPageBase (size + (allocPageSize - 1))

/-! ### The context of a file -/

/-- `BLOCK_DESCRIPTOR`, with the byte count of its MDL. -/
structure Block where
  offset : ℤ
  mdl : ℕ
  byteCount : ℕ
  deriving DecidableEq, Repr

/-- A partial MDL with a system address: `size` bytes from `start` on of the MDL of a block. -/
structure Mapping where
  mdl : ℕ
  start : ℕ
  size : ℕ
  deriving DecidableEq, Repr

/-- `PAGE_CONTEXT`.  Its `Mdl` and `Ptr` are both set or both zero. -/
structure PageContext where
  pageBase : ℤ
  mapping : Option Mapping
  deriving DecidableEq, Repr

/-- A zeroed page context. -/
def PageContext.empty : PageContext := ⟨0, none⟩

/-- `OBJECT_CONTEXT`.  The list of blocks starts with the newest one, as `FirstBlock` does. -/
structure Context where
  totalSize : ℤ
  virtualSize : ℤ
  blocks : List Block
  latestPageContext : PageContext
  activeReaders : ℤ
  activeWriters : ℤ
  /-- The bytes of the MDLs. -/
  memory : ℕ → ℕ → UInt8

/-- The context of a file that was just opened. -/
def Context.empty : Context := ⟨0, 0, [], PageContext.empty, 0, 0, fun _ _ => 0⟩

/-- `RtlCopyMemory` into an MDL: `n` bytes from `start` on. -/
def Context.store (c : Context) (mdl start n : ℕ) (source : ℕ → UInt8) : Context :=
  let bytes := fun a =>
    if start ≤ a ∧ a < start + n then source (a - start) else c.memory mdl a
  { c with memory := Function.update c.memory mdl bytes }

/-! ### Protection -/

/-- `AWEAllocTryAcquireProtection`, under the lock of the context.  The last test of each
branch is the one for a counter that went wrong. -/
def tryAcquireProtection (c : Context) (forWriteOperation ownsReadLock : Bool) :
    Context × Status :=
  if forWriteOperation then
    if c.activeWriters ≥ 1 ∨ c.activeReaders ≥ (if ownsReadLock then 2 else 1) then
      (c, .deviceBusy)
    else
      ({ c with activeWriters := c.activeWriters + 1 },
        if c.activeWriters + 1 ≤ 0 then .driverInternalError else .success)
  else
    if c.activeWriters ≥ 1 ∨ c.activeReaders ≥ 2 ^ 31 - 1 then
      (c, .deviceBusy)
    else
      ({ c with activeReaders := c.activeReaders + 1 },
        if c.activeReaders + 1 ≤ 0 then .driverInternalError else .success)

/-- `AWEAllocReleaseProtection`. -/
def releaseProtection (c : Context) (forReadOperation forWriteOperation : Bool) : Context :=
  { c with
    activeWriters := if forWriteOperation then c.activeWriters - 1 else c.activeWriters
    activeReaders := if forReadOperation then c.activeReaders - 1 else c.activeReaders }

/-! ### The size -/

/-- What one pass of `AWEAllocSetSize` gets: whether there is pool for the descriptor, and the
bytes that each call of `MmAllocatePagesForMdl` grants, `none` where it returns no MDL.  There
is one call on 64-bit systems, and there are up to five on 32-bit ones. -/
structure Grant where
  descriptor : Bool
  pages : List (Option ℕ)

/-- `AWEAllocAddBlock`: a block takes the whole pages of what was granted; the rest of it is
never used.  The pages come zeroed. -/
def addBlock (c : Context) (bytesToAllocate : ℕ) : Option ℕ → Option Context
  | none => none
  | some granted =>
      let byteCount := min granted bytesToAllocate
      let blockSize := getPageBase byteCount
      if blockSize = 0 then none
      else some { c with
        blocks := ⟨c.totalSize, c.blocks.length, byteCount⟩ :: c.blocks
        totalSize := (c.totalSize + blockSize).bmod (2 ^ 64)
        memory := Function.update c.memory c.blocks.length fun _ => 0 }

/-- The bytes that a pass asks for. -/
def bytesToAllocate (c : Context) (endOfFile : ℤ) : ℕ :=
  if endOfFile - c.totalSize > maxBlockSize then maxBlockSize
  else (getRequiredPages (endOfFile - c.totalSize)).toNat

/-- One pass of `AWEAllocSetSize`; `none` where the loop goes on. -/
def setSizePass (c : Context) (endOfFile : ℤ) (g : Grant) : Context × Option Status :=
  if endOfFile = 0 ∨ c.totalSize ≥ endOfFile then
    ({ c with virtualSize := endOfFile }, some .success)
  else if g.descriptor = false then
    (c, some .noMemory)
  else
    match g.pages.findSome? (addBlock c (bytesToAllocate c endOfFile)) with
    | some c => (c, none)
    | none => (c, some .noMemory)

/-! ### The mapped page -/

/-- Whether `IoAllocateMdl` and `MmGetSystemAddressForMdlSafe` succeed. -/
structure MapGrant where
  mdl : Bool
  address : Bool

/-- The page context maps the page of `offset`. -/
def PageContext.covers (p : PageContext) (offset : ℤ) : Bool :=
  decide (0 ≤ offset) && decide (p.pageBase = getPageBase offset) && p.mapping.isSome

/-- The last part of `AWEAllocMapPage`: map a page of a block. -/
def mapBlock (pageBase : ℤ) (block : Block) (g : MapGrant) : PageContext × Status :=
  if (block.byteCount : ℤ) ≤ pageBase - block.offset then
    -- "Bad sized block"
    (PageContext.empty, .driverInternalError)
  else if g.mdl = false ∨ g.address = false then
    (PageContext.empty, .insufficientResources)
  else
    let start := (pageBase - block.offset).toNat
    (⟨pageBase, some ⟨block.mdl, start, min (block.byteCount - start) allocPageSize⟩⟩, .success)

/-- `AWEAllocMapPage`: the page of the request, else the one in the context, else a new one.
The page that the request had is left in the context. -/
def mapPage (c : Context) (newOffset : ℤ) (current : PageContext) (g : MapGrant) :
    Context × PageContext × Status :=
  if current.covers newOffset then (c, current, .success)
  else
    let stored := c.latestPageContext
    let c := { c with latestPageContext := current }
    if stored.covers newOffset then (c, stored, .success)
    else if newOffset < 0 then (c, PageContext.empty, .success)
    else
      match c.blocks.find? fun b => b.offset ≤ getPageBase newOffset with
      | none =>
          -- "Cannot find block"
          (c, PageContext.empty, .driverInternalError)
      | some block => (c, mapBlock (getPageBase newOffset) block g)

end KernelDrivers.Awe
