import KernelDrivers.Fat.Bpb
import KernelDrivers.Lib.BlockMap
import KernelDrivers.Lib.Raise

/-!
# Sparse images of CoreMnt

The logic bytes of an image are cut into blocks.  A table at the front of the file has a token for
every block, and the blocks that were written follow it in the order of their tokens.

The build is for 32 bits: a `size_t` has the width of a `Uint32`.

## Main definitions

* `Image` — a `SparseImage` with its table and its file.
* `sparseImage` — the constructor.
* `read`, `write` — the two routines.
-/

namespace KernelDrivers.CoreMnt.Sparse

open KernelDrivers.Fat (ulong ulongSub)

/-- `s_unusedBlokToken`. -/
def unusedBlockToken : ℕ := 0xFFFFFFFF

/-! ## The table -/

/-- `boost::numeric_cast<Uint32>`, which throws. -/
def numericCast (n : ℕ) : Option ℕ := if n < 2 ^ 32 then some n else none

/-- `s_integer_div`. -/
def integerDiv (size block : ℕ) : Option ℕ := do
  let result ← numericCast (size / block)
  return if size % block = 0 then result else ulong (result + 1)

/-- `s_granulity_to`. -/
def granulityTo (size block : ℕ) : Option ℕ :=
  numericCast (size / block * block + if size % block = 0 then 0 else block)

/-- `sizeof(IndexTableHeader)`. -/
def headerSize : ℕ := 20

/-- `CalcDataOffset`. -/
def calcDataOffset (logicSize blockSize granulity : ℕ) : Option ℕ := do
  let blocks ← integerDiv logicSize blockSize
  granulityTo (ulong (headerSize + ulong (blocks * 4))) granulity

/-- The arguments of the constructor. -/
structure Params where
  headerOffset : ℕ
  logicSize : ℕ
  blockSize : ℕ
  granulity : ℕ

structure Image where
  params : Params
  /-- `getSize`. -/
  dataOffset : ℕ
  /-- `tableData_`. -/
  table : ℕ → UInt8
  /-- `impl_`. -/
  file : ℕ → UInt8

namespace Image

variable (im : Image)

def indexTableSize : ℕ := ofBytes (slice im.table 0 4)

def usedBlockCount : ℕ := ofBytes (slice im.table 4 4)

/-- An entry of the table. -/
def token (index : ℕ) : ℕ := ofBytes (slice im.table (headerSize + 4 * index) 4)

/-- `WriteTable`. -/
def writeTable : Image :=
  { im with file := place im.file im.params.headerOffset (slice im.table 0 im.dataOffset) }

/-- `ReadTable`, without the blocks of the log. -/
def readTable : Image :=
  { im with table := place im.table 0 (slice im.file im.params.headerOffset im.dataOffset) }

/-- The place in the file of a byte of a block. -/
def position (token offset : ℕ) : ℕ :=
  ulong (im.params.headerOffset + im.dataOffset + token * im.params.blockSize + offset)

/-- An entry with the number of entries in use. -/
def assign (index val used : ℕ) : Image :=
  { im with
    table := place (place im.table (headerSize + 4 * index) (toBytes 4 val)) 4 (toBytes 4 used) }

end Image

/-- The header of a new table and its entries. -/
def newTable (blocks blockSize : ℕ) : ℕ → UInt8 :=
  place (fun i => if headerSize ≤ i ∧ i < headerSize + 4 * blocks then 0xFF else 0) 0
    (toBytes 4 blocks ++ (toBytes 4 0 ++ (toBytes 4 unusedBlockToken ++
      (toBytes 4 unusedBlockToken ++ toBytes 4 blockSize))))

/-- The number of entries and the size of the table, when the constructors of the members and the
assertions pass.  Where the size wraps, `std::fill` runs to the end of the address space. -/
def tableSizes (p : Params) : Option (ℕ × ℕ) := do
  if p.blockSize = 0 ∨ p.granulity = 0 then none
  let blocks ← integerDiv p.logicSize p.blockSize
  let dataOffset ← calcDataOffset p.logicSize p.blockSize p.granulity
  if 2 ^ 32 ≤ headerSize + 4 * blocks then none
  if p.headerOffset % p.granulity ≠ 0 ∨ p.blockSize % p.granulity ≠ 0 then none
  return (blocks, dataOffset)

/-- The members of a `SparseImage`. -/
def construct (p : Params) (file : ℕ → UInt8) : Option Image :=
  (tableSizes p).map fun s => ⟨p, s.2, newTable s.1 p.blockSize, file⟩

/-- The constructor. -/
def sparseImage (p : Params) (file : ℕ → UInt8) (fCreate : Bool) : Option Image :=
  (construct p file).map fun im => if fCreate then im.writeTable else im.readTable

/-! ## Blocks -/

/-- A routine that throws, or whose assertion fails, raises. -/
abbrev SparseM := EStateM Unit Image

/-- `CResparseIndexTable::at`. -/
def tableAt (index : ℕ) : SparseM ℕ := do
  let im ← get
  if im.indexTableSize ≤ index then throw ()
  return im.token index

/-- `CResparseIndexTable::set`. -/
def tableSet (index val : ℕ) : SparseM Unit := do
  let im ← get
  if im.indexTableSize ≤ index then throw ()
  if im.token index ≠ unusedBlockToken ∨ val = unusedBlockToken then throw ()
  set (im.assign index val (ulong (im.usedBlockCount + 1)))

/-- `CResparseIndexTable::reset`. -/
def tableReset (index : ℕ) : SparseM Unit := do
  let im ← get
  if im.indexTableSize ≤ index then throw ()
  if im.token index = unusedBlockToken then throw ()
  set (im.assign index unusedBlockToken (ulongSub im.usedBlockCount 1))

/-- `AddNewBlock`.  The file that is modelled does not throw. -/
def addNewBlock (index : ℕ) : SparseM Unit := do
  let im ← get
  tableSet index im.usedBlockCount
  tryCatch (modify Image.writeTable) fun _ => do
    tableReset index
    throw ()

/-- `ReadFromBlock`, to a place in the buffer. -/
def readFromBlock (buffer : ℕ → UInt8) (p blockIndex offset size : ℕ) : SparseM (ℕ → UInt8) := do
  let blockToken ← tableAt blockIndex
  if blockToken = unusedBlockToken then throw ()
  let im ← get
  return place buffer p (slice im.file (im.position blockToken offset) size)

/-- `WriteToBlock`. -/
def writeToBlock (data : List UInt8) (blockIndex offset : ℕ) : SparseM Unit := do
  let blockToken ← tableAt blockIndex
  if blockToken = unusedBlockToken then throw ()
  modify fun im => { im with file := place im.file (im.position blockToken offset) data }

/-! ## Ranges -/

/-- The first block of a request and the one behind its last byte. -/
structure Span where
  blockSize : ℕ
  firstBlockIndex : ℕ
  lastBlockIndex : ℕ
  firstBlockOffset : ℕ
  lastBlockOffset : ℕ

def span (blockSize offset length : ℕ) : Option Span := do
  let firstBlockIndex ← numericCast (offset / blockSize)
  let lastBlockIndex ← numericCast ((offset + length) / blockSize)
  return ⟨blockSize, firstBlockIndex, lastBlockIndex, offset % blockSize,
    (offset + length) % blockSize⟩

namespace Span

variable (s : Span) (current : ℕ)

/-- `begin`. -/
def start : ℕ := if current = s.firstBlockIndex then s.firstBlockOffset else 0

/-- `end`. -/
def stop : ℕ := if current = s.lastBlockIndex then s.lastBlockOffset else s.blockSize

end Span

/-- The loop of `Read`, for so many blocks from `current` on, with `done` bytes of `length` stored
in front of `p`. -/
def readBlocks (s : Span) (length : ℕ) : (blocks current : ℕ) → (buffer : ℕ → UInt8) →
    (p done : ℕ) → SparseM (ℕ → UInt8)
  | 0, _, buffer, _, _ => return buffer
  | blocks + 1, current, buffer, p, done =>
      if ¬ done < length ∨ (current = s.lastBlockIndex ∧ s.lastBlockOffset = 0) then return buffer
      else do
        let currentBlockToken ← tableAt current
        if currentBlockToken = unusedBlockToken then
          readBlocks s length blocks (current + 1) buffer p done
        else if s.stop current < s.start current then throw ()
        else
          let count := s.stop current - s.start current
          let filled ← readFromBlock buffer p current (s.start current) count
          readBlocks s length blocks (current + 1) filled (p + count) (done + count)

/-- `Read`. -/
def read (buffer : ℕ → UInt8) (offset length : ℕ) : SparseM (ℕ → UInt8) := do
  let im ← get
  match span im.params.blockSize offset length with
  | none => throw ()
  | some s =>
      readBlocks s length (s.lastBlockIndex + 1 - s.firstBlockIndex) s.firstBlockIndex buffer 0 0

/-- The loop of `Write`, with the data that are left. -/
def writeBlocks (s : Span) (length : ℕ) : (blocks current : ℕ) → (data : List UInt8) →
    (done : ℕ) → SparseM Unit
  | 0, _, _, _ => return
  | blocks + 1, current, data, done =>
      if ¬ done < length then return
      else do
        let currentBlockToken ← tableAt current
        if currentBlockToken = unusedBlockToken then addNewBlock current
        if s.stop current < s.start current then throw ()
        let count := s.stop current - s.start current
        writeToBlock (data.take count) current (s.start current)
        writeBlocks s length blocks (current + 1) (data.drop count) (done + count)

/-- `Write`. -/
def write (data : List UInt8) (offset : ℕ) : SparseM Unit := do
  let im ← get
  match span im.params.blockSize offset data.length with
  | none => throw ()
  | some s =>
      writeBlocks s data.length (s.lastBlockIndex + 1 - s.firstBlockIndex) s.firstBlockIndex data 0

end KernelDrivers.CoreMnt.Sparse
