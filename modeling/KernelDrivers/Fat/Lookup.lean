import KernelDrivers.Fat.Allocate
import KernelDrivers.Fat.Chain

/-!
# Looking up where a file is

`FatLookupFileAllocation` translates a byte of a file to a byte of the disk.  It takes the
answer from the map of the file when that has it.  Else it follows the chain in the FAT,
beginning at the last cluster in the map, and puts the runs it has passed in the map, until it
has passed the run with the byte.

The size of a file that was just opened is not known: it is `FCB_LOOKUP_ALLOCATIONSIZE_HINT`
until a lookup of the byte `MAXULONG - 1` has walked to the end of the chain.

## Main definitions

* `FcbOrDcb` — a file on its volume.
* `walkChain` — the loop along the chain.
* `fatLookupFileAllocation`, `fatLookupFileAllocationSize` — the routines.
-/

namespace KernelDrivers.Fat

/-! ## A file -/

/-- A `LARGE_INTEGER`. -/
structure LargeInteger where
  lowPart : ℕ
  highPart : ℕ
  deriving DecidableEq, Repr

/-- `FCB_LOOKUP_ALLOCATIONSIZE_HINT`, which is `-1`. -/
def fcbLookupAllocationSizeHint : LargeInteger := ⟨0xffffffff, 0xffffffff⟩

/-- The first cluster in a dirent. -/
structure DirentCluster where
  firstClusterOfFile : ℕ
  firstClusterOfFileHi : ℕ
  deriving DecidableEq, Repr

/-- Store a cluster number; the high word counts on FAT32 only. -/
def DirentCluster.store (g : Geometry) (cluster : ℕ) (d : DirentCluster) : DirentCluster where
  firstClusterOfFile := cluster % 2 ^ 16
  firstClusterOfFileHi :=
    if g.width = .fat32 then cluster / 2 ^ 16 % 2 ^ 16 else d.firstClusterOfFileHi

/-- The cluster number a dirent holds. -/
def DirentCluster.cluster (g : Geometry) (d : DirentCluster) : ℕ :=
  if g.width = .fat32 then d.firstClusterOfFile + d.firstClusterOfFileHi * 2 ^ 16
  else d.firstClusterOfFile

/-- A file or directory with its volume and its dirent. -/
structure FcbOrDcb where
  vcb : Vcb
  allocationSize : LargeInteger
  fileSize : ℕ
  firstClusterOfFile : ℕ
  mcb : Mcb
  dirent : DirentCluster

/-- Run a routine of the volume on a file. -/
def FcbOrDcb.onVcb {α : Type} (x : EStateM Stop Vcb α) : EStateM Stop FcbOrDcb α :=
  onPart FcbOrDcb.vcb (fun f v => { f with vcb := v }) x

/-- The number of sectors up to the end of a map. -/
def mcbSize (mcb : Mcb) : ℕ := Runs.startOf mcb mcb.length

/-- `FatLookupLastMcbEntry`: whether there is one, and the `Vbo` and `Lbo` of the last byte
that is mapped.  Those of an empty map mean nothing. -/
def fatLookupLastMcbEntry (g : Geometry) (mcb : Mcb) : Bool × ℕ × ℕ :=
  match mcb.getLast? with
  | none => (false, g.sectorSize - 1, g.sectorSize - 1)
  | some run =>
      let vbo := ulong ((mcbSize mcb - 1) * g.sectorSize)
      match run.base with
      | none => (true, vbo, 0)
      | some l =>
          if (l + run.count - 1) % 2 ^ 32 = 2 ^ 32 - 1 then (true, vbo, 0)
          else (true, vbo + (g.sectorSize - 1),
            (l + run.count - 1) * g.sectorSize + (g.sectorSize - 1))

/-- `FatGetLboFromIndex` of an entry, which need not be a cluster number: the 2 is taken off
in 32 bits. -/
def lboOfEntry (g : Geometry) (entry : ℕ) : ℕ := g.fileAreaLbo + ulongSub entry 2 * g.clusterSize

/-! ## The walk -/

/-- What is said of a byte that is allocated: where it is, how many bytes follow in its run,
whether the run ends with the last byte of 4 GB, and the number of the run. -/
structure FileRun where
  lbo : ℕ
  byteCount : ℕ
  endOnMax : Bool
  index : ℕ
  deriving DecidableEq, Repr

/-- The variables of the walk.  A `firstLboOfCurrentRun` of zero stands for a run that the
map has already. -/
structure Walk where
  fatEntry : ℕ
  currentVbo : ℕ
  currentLbo : ℕ
  firstVboOfCurrentRun : ℕ
  firstLboOfCurrentRun : ℕ
  runs : ℕ

namespace Walk

/-- Put the run that ends before `currentVbo` in the map. -/
def addRun (g : Geometry) (k : Walk) (currentVbo : ℕ) (f : FcbOrDcb) : FcbOrDcb :=
  if k.firstLboOfCurrentRun ≠ 0 then
    { f with
      mcb := fatAddMcbEntry g f.mcb k.firstVboOfCurrentRun k.firstLboOfCurrentRun
        (currentVbo - k.firstVboOfCurrentRun) }
  else f

/-- The number of runs once the current one is in the map. -/
def runsAfter (k : Walk) : ℕ := if k.firstLboOfCurrentRun ≠ 0 then k.runs + 1 else k.runs

/-- The answer for a byte of the current run, which ends before `currentVbo`. -/
def found (k : Walk) (vbo currentVbo : ℕ) (endOnMax : Bool) : FileRun where
  lbo := k.firstLboOfCurrentRun + ulongSub vbo k.firstVboOfCurrentRun
  byteCount := ulongSub currentVbo vbo
  endOnMax := endOnMax
  index := ulongSub k.runsAfter 1

end Walk

/-- The loop along the chain; `none` when the byte is not allocated. -/
def walkChain (g : Geometry) (vbo : ℕ) : ℕ → Walk → EStateM Stop FcbOrDcb (Option FileRun)
  | 0, _ => throw .outOfFuel
  | fuel + 1, k => do
      let fatEntry ← FcbOrDcb.onVcb (Vcb.onVol (fatLookupFatEntry g k.fatEntry))
      let currentLbo := lboOfEntry g fatEntry
      let currentVbo := ulong (k.currentVbo + g.clusterSize)
      match fatInterpretClusterType g.width fatEntry with
      | .available | .reserved | .bad => throw (.raised .fileCorruptError)
      | .last => do
          -- the maximal file
          let endOnMax : Bool := currentVbo = 0
          let currentVbo := if currentVbo = 0 then 0xffffffff else currentVbo
          modify (k.addRun g currentVbo)
          if vbo = 0xfffffffe then
            modify fun f => { f with allocationSize := ⟨currentVbo, 0⟩ }
            return none
          else if currentVbo ≤ vbo ∧ ¬ endOnMax then return none
          else return some (k.found vbo currentVbo endOnMax)
      | .next => do
          let bytesOnVolume := g.numberOfClusters * g.clusterSize
          if currentVbo = 0 ∨ bytesOnVolume < 2 ^ 32 ∧ bytesOnVolume < currentVbo then
            throw (.raised .fileCorruptError)
          if k.currentLbo + g.clusterSize ≠ currentLbo then
            modify (k.addRun g currentVbo)
            if vbo < currentVbo then return some (k.found vbo currentVbo false)
            else
              walkChain g vbo fuel
                ⟨fatEntry, currentVbo, currentLbo, currentVbo, currentLbo, k.runsAfter⟩
          else
            walkChain g vbo fuel { k with
              fatEntry := fatEntry, currentVbo := currentVbo, currentLbo := currentLbo }

/-- Where the walk begins: at the last cluster in the map, or at the first of the file. -/
def walkStart (g : Geometry) (f : FcbOrDcb) : Option Walk :=
  let last := fatLookupLastMcbEntry g f.mcb
  if last.1 then
    let lbo := last.2.2 - (g.clusterSize - 1)
    some ⟨fatGetIndexFromLbo g lbo, last.2.1 - (g.clusterSize - 1), lbo, 0, 0, f.mcb.length⟩
  else if f.firstClusterOfFile = 0 then none
  else
    let lbo := lboOfEntry g f.firstClusterOfFile
    some ⟨fatGetIndexFromLbo g lbo, 0, lbo, 0, lbo, 0⟩

/-! ## The routines -/

/-- `FatLookupFileAllocation`; `none` when the byte is not allocated.  `fuel` bounds the
walk. -/
def fatLookupFileAllocation (g : Geometry) (vbo fuel : ℕ) :
    EStateM Stop FcbOrDcb (Option FileRun) := do
  let f ← get
  match fatLookupMcbEntry g f.mcb vbo with
  | some (lbo, byteCount, index) => return some ⟨lbo, byteCount, ulong (vbo + byteCount) = 0, index⟩
  | none =>
      if f.allocationSize.lowPart ≤ vbo then return none
      else
        match walkStart g f with
        | none => return none
        | some k => walkChain g vbo fuel k

/-- `FatLookupFileAllocationSize`. -/
def fatLookupFileAllocationSize (g : Geometry) (fuel : ℕ) : EStateM Stop FcbOrDcb Unit := do
  let _ ← fatLookupFileAllocation g 0xfffffffe fuel
  let f ← get
  if f.allocationSize.lowPart < f.fileSize then throw (.raised .fileCorruptError)

/-- Look the size up if it is not known. -/
def lookupSize (g : Geometry) (fuel : ℕ) : EStateM Stop FcbOrDcb Unit := do
  if (← get).allocationSize = fcbLookupAllocationSizeHint then fatLookupFileAllocationSize g fuel

end KernelDrivers.Fat
