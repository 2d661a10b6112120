import KernelDrivers.Fat.Bpb
import KernelDrivers.Lib.Raise
import KernelDrivers.Lib.Wire

/-!
# Dynamic VHD images in devio

The image begins with a copy of its footer and a header, has a table with the sector of every block
that is there, and ends with the footer.  A block is a sector of bitmap with the data behind it; a
new one goes where the footer is, and the footer behind it.

The widths are those of a build for Windows, where `safeio_size_t` is a `ULONG`.

## Main definitions

* `File` — the image file.
* `detect` — what `main` takes from the header.
* `vhdRead`, `vhdWrite` — the two routines, for so many blocks.
-/

namespace KernelDrivers.ImDisk.Vhd

open KernelDrivers.Fat (ulong)

/-- A file is zero behind its end, as `pread` makes it. -/
structure File where
  bytes : ℕ → UInt8
  length : ℕ
  padded : ∀ i, length ≤ i → bytes i = 0

def File.write (f : File) (bs : List UInt8) (offset : ℕ) : File where
  bytes := place f.bytes offset bs
  length := if bs = [] then f.length else max f.length (offset + bs.length)
  padded i hi := by
    split at hi
    · rename_i hnil
      rw [hnil, place_nil]
      exact f.padded i hi
    · rw [place_of_le _ (le_trans (le_max_right _ _) hi)]
      exact f.padded i (le_trans (le_max_left _ _) hi)

/-! ## Numbers -/

/-- The high byte first. -/
def ofBigEndian (bs : List UInt8) : ℕ := ofBytes bs.reverse

/-- `ntohl` and `htonl` of a machine with the low byte first. -/
def ntohl (n : ℕ) : ℕ := ofBigEndian (toBytes 4 n)

/-- The loop of `GetBigEndian64`, over the bytes that are left.  They are of a signed type. -/
def orBytes : List UInt8 → BitVec 64 → BitVec 64
  | [], number => number
  | b :: bs, number => orBytes bs (number ||| b.toBitVec.signExtend 64 <<< (8 * bs.length))

def getBigEndian64 (storage : List UInt8) : ℤ := (orBytes storage 0).toInt

/-- `block_shift` and `sector_shift`: the first of the 64 shifts that fits, or 64. -/
def shiftOf (size : ℕ) : ℕ :=
  ((List.range 64).find? fun s => 2 ^ s % 2 ^ 32 = size).getD 64

/-! ## The header -/

def footerSize : ℕ := 512

/-- `sizeof(vhd_info)`. -/
def infoSize : ℕ := 1536

def sectorSize : ℕ := 512

def sectorShift : ℕ := shiftOf sectorSize

def footerCookie : List UInt8 := [0x63, 0x6F, 0x6E, 0x65, 0x63, 0x74, 0x69, 0x78]

def headerCookie : List UInt8 := [0x63, 0x78, 0x73, 0x70, 0x61, 0x72, 0x73, 0x65]

/-- What the routines know of an image. -/
structure Info where
  footer : List UInt8
  currentSize : ℤ
  tableOffset : ℤ
  blockSize : ℕ
  blockShift : ℕ

/-- The part of `main` that looks for an image of this kind.  An image without a size gets one from
its file afterwards; there is none here. -/
def detect (f : File) : Option Info :=
  if slice f.bytes 512 8 = headerCookie ∧ slice f.bytes 0 8 = footerCookie ∧
      ofBytes (slice f.bytes 60 4) = 0x03000000 then
    let blockSize := ntohl (ofBytes (slice f.bytes 544 4))
    some {
      footer := slice f.bytes 0 footerSize
      currentSize := getBigEndian64 (slice f.bytes 48 8)
      tableOffset := getBigEndian64 (slice f.bytes 528 8)
      blockSize := blockSize
      blockShift := shiftOf blockSize }
  else none

/-! ## Input and output -/

/-- A routine that returns `-1` raises. -/
abbrev VhdM := EStateM Unit File

def physicalRead (count : ℕ) (offset : ℤ) : VhdM (List UInt8) := do
  let f ← get
  if offset < 0 then throw ()
  return slice f.bytes offset.toNat count

def physicalWrite (bs : List UInt8) (offset : ℤ) : VhdM Unit := do
  if offset < 0 then throw ()
  modify fun f => f.write bs offset.toNat

/-- The entry of a block that is not there. -/
def noBlock : ℕ := 0xFFFFFFFF

section Parts

variable (v : Info) (size offset : ℕ)

/-- `in_block_offset`. -/
def Info.inBlock : ℕ := ulong (offset &&& ulong (v.blockSize + 2 ^ 32 - 1))

/-- The range goes on behind the end of the block. -/
def Info.crosses : Prop := v.blockSize < ulong (size + v.inBlock offset)

instance : Decidable (v.crosses size offset) := inferInstanceAs (Decidable (_ < _))

/-- `first_size`. -/
def Info.firstSize : ℕ := if v.crosses size offset then v.blockSize - v.inBlock offset else size

/-- `second_size`. -/
def Info.secondSize : ℕ := if v.crosses size offset then size - v.firstSize size offset else 0

end Parts

/-- Read into `io_ptr` from `p` on, with the number of bytes that were read. -/
def vhdRead (v : Info) : (fuel : ℕ) → (ioPtr : ℕ → UInt8) → (p size offset : ℕ) →
    VhdM (ℕ × (ℕ → UInt8))
  | 0, _, _, _, _ => throw ()
  | fuel + 1, ioPtr, p, size, offset => do
      if v.currentSize < (offset + size : ℕ) then
        return (0, ioPtr)
      else
        let blockNumber := ulong (offset >>> v.blockShift)
        let first := v.firstSize size offset
        let entry ← physicalRead 4 (v.tableOffset + (blockNumber <<< 2 : ℕ))
        let zeroed := place ioPtr p (List.replicate size 0)
        let filled ←
          if ofBytes entry = noBlock then pure zeroed
          else do
            let bytes ← physicalRead first
              ((ntohl (ofBytes entry) <<< sectorShift + sectorSize + v.inBlock offset : ℕ) : ℤ)
            pure (place zeroed p bytes)
        if 0 < v.secondSize size offset then
          let rest ← vhdRead v fuel filled (p + first) (v.secondSize size offset) (offset + first)
          return (first + rest.1, rest.2)
        else
          return (first, filled)

/-- Put a new block where the footer is, with its entry in the table. -/
def addBlock (v : Info) (dataOffset : ℤ) : VhdM ℕ := do
  let f ← get
  if f.length < footerSize then throw ()
  let position := f.length - footerSize
  let entry := ntohl (ulong (position >>> sectorShift))
  physicalWrite (toBytes 4 entry) dataOffset
  physicalWrite (List.replicate (sectorSize + v.blockSize) 0 ++ v.footer) position
  return entry

/-- `bitmap_datasize`. -/
def bitmapDatasize (count : ℕ) : ℕ := (ulong (count + sectorSize - 1) >>> sectorShift + 7) >>> 3

/-- Write to a block that is there, and set bits in its bitmap. -/
def writeBlock (entry : ℕ) (data : List UInt8) (inBlock : ℕ) : VhdM Unit := do
  physicalWrite data ((ntohl entry <<< sectorShift + sectorSize + inBlock : ℕ) : ℤ)
  physicalWrite (List.replicate (bitmapDatasize data.length) 0xFF)
    ((ntohl entry <<< sectorShift + inBlock >>> sectorShift >>> 3 : ℕ) : ℤ)

/-- Write, with the number of bytes that were written.  The scan for zeroes does not look at data
that are there; without any it runs on behind them, and no block is added. -/
def vhdWrite (v : Info) : (fuel : ℕ) → (data : List UInt8) → (offset : ℕ) → VhdM ℕ
  | 0, _, _ => throw ()
  | fuel + 1, data, offset => do
      if v.currentSize < (offset + data.length : ℕ) then
        return 0
      else
        let dataOffset := v.tableOffset + ((offset >>> v.blockShift) <<< 2 : ℕ)
        let first := v.firstSize data.length offset
        let entry ← physicalRead 4 dataOffset
        if ofBytes entry = noBlock then
          if ulong (first + 7) >>> 3 ≠ 0 then
            let entry ← addBlock v dataOffset
            writeBlock entry (data.take first) (v.inBlock offset)
        else
          writeBlock (ofBytes entry) (data.take first) (v.inBlock offset)
        if 0 < v.secondSize data.length offset then
          let rest ← vhdWrite v fuel (data.drop first) (offset + first)
          return first + rest
        else
          return first

end KernelDrivers.ImDisk.Vhd
