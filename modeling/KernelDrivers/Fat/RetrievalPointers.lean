import KernelDrivers.Fat.MoveSplice
import KernelDrivers.Fat.ResizeRun

/-!
# Retrieval pointers

`FatGetRetrievalPointers` gives the extents of a file, from the run on that has a given cluster of it.
Where the buffer is too short the caller goes on with the cluster behind the last extent it has got.

The size of 4 GB is `0xffffffff`: the last cluster of such a file is taken for the end of the file, and
a file of one run is a cluster short.

## Main definitions

* `fatGetRetrievalPointers` — the routine.
* `Retrieves` — what the calls give that begin at a cluster of the file.
* `Describes` — the extents are the file from the run with the cluster on.
* `Fits` — when they are.

## Main results

* `answers` — what a call gives.
* `describes_iff` — the extents describe the file in exactly these cases.
-/

namespace KernelDrivers.Fat.Retrieval

open Move (NodeType)

/-- `STARTING_VCN_INPUT_BUFFER`, and the lengths of the buffers. -/
structure Request where
  inputBufferLength : ℕ
  outputBufferLength : ℕ
  startingVcn : LargeInteger

structure Extent where
  nextVcn : ℕ
  lcn : ℕ
  deriving DecidableEq

/-- `RETRIEVAL_POINTERS_BUFFER`, with the extents that are filled in. -/
structure Buffer where
  extentCount : ℕ
  startingVcn : ℕ
  extents : List Extent
  deriving DecidableEq

/-- How a request is completed. -/
inductive Answer
  | bufferTooSmall
  | endOfFile
  | bufferOverflow (b : Buffer)
  | success (b : Buffer)

/-- `FIELD_OFFSET(RETRIEVAL_POINTERS_BUFFER, Extents[index])`. -/
def extentsOffset (index : ℕ) : ℕ := ulong (16 + 16 * index)

/-! ## The routine -/

/-- Look the size up if it is not known; that of a directory is its file size, too. -/
def lookupSize (g : Geometry) (nodeType : NodeType) (fuel : ℕ) : EStateM Stop FcbOrDcb Unit := do
  if (← get).allocationSize = fcbLookupAllocationSizeHint then do
    fatLookupFileAllocationSize g fuel
    if nodeType = .dcb ∨ nodeType = .rootDcb ∧ g.width = .fat32 then
      modify fun f => { f with fileSize := f.allocationSize.lowPart }

/-- One more extent, of a run that begins at `vcn`. -/
def Buffer.store (g : Geometry) (mcb : Mcb) (startingRun : ℕ) (b : Buffer)
    (vcn lbo byteLength : ℕ) : Buffer where
  extentCount := if b.extents.length = 0 then mcb.length - startingRun else b.extentCount
  startingVcn := if b.extents.length = 0 then vcn / g.clusterSize else b.startingVcn
  extents := b.extents ++
    [⟨(vcn + byteLength) / g.clusterSize, ulongSub (fatGetIndexFromLbo g lbo) 2⟩]

/-- The loop over the runs that are left. -/
def fillExtents (g : Geometry) (mcb : Mcb) (outputBufferLength startingRun : ℕ) :
    (runs : ℕ) → Buffer → EStateM Stop FcbOrDcb Answer
  | 0, b => pure (.success b)
  | runs + 1, b =>
      if outputBufferLength < extentsOffset (b.extents.length + 1) then
        pure (.bufferOverflow { b with extentCount := b.extents.length })
      else
        match fatGetNextMcbEntry g mcb (startingRun + b.extents.length) with
        | none => throw (.bugCheck 0 0 0)
        | some (vcn, lbo, byteLength) =>
            fillExtents g mcb outputBufferLength startingRun runs
              (b.store g mcb startingRun vcn lbo byteLength)

/-- The extents of a file from the run with the starting cluster on. -/
def fillFrom (g : Geometry) (q : Request) (f : FcbOrDcb) : EStateM Stop FcbOrDcb Answer :=
  if q.startingVcn.highPart ≠ 0 ∨
      f.allocationSize.lowPart / g.clusterSize ≤ q.startingVcn.lowPart then pure .endOfFile
  else
    match fatLookupMcbEntry g f.mcb (ulong (q.startingVcn.lowPart * g.clusterSize)) with
    | none => throw (.bugCheck 0 0 0)
    | some (_, _, startingRun) =>
        fillExtents g f.mcb q.outputBufferLength startingRun (f.mcb.length - startingRun) ⟨0, 0, []⟩

/-- `FatGetRetrievalPointers`, for an open file or directory. -/
def fatGetRetrievalPointers (g : Geometry) (nodeType : NodeType) (q : Request) (fuel : ℕ) :
    EStateM Stop FcbOrDcb Answer :=
  if q.inputBufferLength < 8 ∨ q.outputBufferLength < 32 then pure .bufferTooSmall
  else do
    lookupSize g nodeType fuel
    let f ← get
    fillFrom g q f

/-! ## What is meant -/

namespace Buffer

/-- The cluster behind the last extent. -/
def nextVcn (b : Buffer) : ℕ := (b.extents.getLast?.map (·.nextVcn)).getD b.startingVcn

end Buffer

/-- Calls with a buffer of `len` bytes, the first at `vcn` and the others where the one before it has
ended, give these buffers. -/
inductive Retrieves (g : Geometry) (nodeType : NodeType) (len fuel : ℕ) :
    FcbOrDcb → ℕ → List Buffer → Prop
  | last {f t : FcbOrDcb} {vcn : ℕ} {b : Buffer}
      (h : fatGetRetrievalPointers g nodeType ⟨8, len, ⟨vcn, 0⟩⟩ fuel f = .ok (.success b) t) :
      Retrieves g nodeType len fuel f vcn [b]
  | more {f t : FcbOrDcb} {vcn : ℕ} {b : Buffer} {bs : List Buffer}
      (h : fatGetRetrievalPointers g nodeType ⟨8, len, ⟨vcn, 0⟩⟩ fuel f = .ok (.bufferOverflow b) t)
      (hmore : Retrieves g nodeType len fuel t b.nextVcn bs) :
      Retrieves g nodeType len fuel f vcn (b :: bs)

/-- The run of a file with cluster number `vcn` of it begins at `v`. -/
structure BeginsRun (cs : List ℕ) (vcn v : ℕ) : Prop where
  le : v ≤ vcn
  consecutive : ∀ j, v ≤ j → j < vcn → cs.getD (j + 1) 0 = cs.getD j 0 + 1
  first : v = 0 ∨ cs.getD v 0 ≠ cs.getD (v - 1) 0 + 1

/-- From `v` on the extents are the clusters of the file up to the last one. -/
def Tiles (cs : List ℕ) : ℕ → List Extent → Prop
  | v, [] => v = cs.length
  | v, e :: es => v < e.nextVcn ∧ e.nextVcn ≤ cs.length ∧
      (∀ j, v + j < e.nextVcn → cs.getD (v + j) 0 = e.lcn + 2 + j) ∧ Tiles cs e.nextVcn es

/-- Each buffer has as many extents as it says and begins where the one before it has ended. -/
def Joined : ℕ → List Buffer → Prop
  | _, [] => True
  | v, b :: bs => b.startingVcn = v ∧ b.extentCount = b.extents.length ∧ Joined b.nextVcn bs

/-- The buffers are the extents of the file from the run with cluster number `vcn` on. -/
def Describes (cs : List ℕ) (vcn : ℕ) (bs : List Buffer) : Prop :=
  ∃ v, BeginsRun cs vcn v ∧ Joined v bs ∧ Tiles cs v (bs.flatMap Buffer.extents)

/-- A file on a chain that is not larger than that, on a disk without faults. -/
structure Readable (g : Geometry) (f : FcbOrDcb) (cs : List ℕ) : Prop extends f.HasChain g cs where
  size : (f.allocationSize = ⟨chainBytes g cs, 0⟩ ∧ f.mcb = mcbOf g cs) ∨
    f.allocationSize = fcbLookupAllocationSizeHint ∧ cs ≠ [] ∧ ∃ k, f.Mapped g cs k
  fileSize : f.fileSize ≤ chainBytes g cs
  noFault : f.vcb.vol.io = none

/-! ## The runs of a file -/

/-- The runs of consecutive clusters of a file. -/
def runsOf (cs : List ℕ) : List Run := Runs.ofList (cs.map (· - 2))

/-- The number of the cluster of the file with which run `i` begins. -/
def firstCluster (cs : List ℕ) (i : ℕ) : ℕ := Runs.startOf (runsOf cs) i

/-- The number of runs. -/
def runCount (cs : List ℕ) : ℕ := (runsOf cs).length

/-- The run with cluster number `vcn`. -/
def runOf (cs : List ℕ) (vcn : ℕ) : ℕ :=
  ((Runs.lookup (runsOf cs) vcn).map fun x => x.2.2).getD 0

/-- The extents that a buffer has room for. -/
def capacity (len : ℕ) : ℕ := (len - 16) / 16

/-- The file has less than 4 GB; or it has several runs and the calls do not begin at its last cluster,
neither the first one nor one behind a full buffer. -/
def Fits (g : Geometry) (cs : List ℕ) (len vcn : ℕ) : Prop :=
  cs.length * g.clusterSize < 2 ^ 32 ∨
    runCount cs ≠ 1 ∧ vcn + 1 ≠ cs.length ∧
      (runOf cs (cs.length - 2) = runOf cs (cs.length - 1) ∨
        ¬ capacity len ∣ runOf cs (cs.length - 1) - runOf cs vcn)

variable {g : Geometry} {cs : List ℕ} {i v : ℕ}

theorem normal_runsOf (cs : List ℕ) : Runs.Normal (runsOf cs) := Runs.normal_ofList _

theorem length_cells_runsOf (cs : List ℕ) : (Runs.cells (runsOf cs)).length = cs.length := by
  rw [runsOf, Runs.cells_ofList, List.length_map, List.length_map]

theorem firstCluster_runCount (cs : List ℕ) : firstCluster cs (runCount cs) = cs.length := by
  rw [firstCluster, runCount, Runs.startOf, List.take_length, ← Runs.length_cells_eq_sum,
    length_cells_runsOf]

theorem firstCluster_mono (cs : List ℕ) {j : ℕ} (h : i ≤ j) :
    firstCluster cs i ≤ firstCluster cs j := Runs.startOf_mono _ h

theorem firstCluster_lt (hi : i < runCount cs) : firstCluster cs i < firstCluster cs (i + 1) := by
  have hr := List.getElem?_eq_getElem (l := runsOf cs) hi
  have hpos := (normal_runsOf cs).count_pos_of_mem (List.mem_of_getElem? hr)
  rw [firstCluster, firstCluster, Runs.startOf_succ hr]
  omega

theorem firstCluster_lt_length (hi : i < runCount cs) : firstCluster cs i < cs.length := by
  have hlast := firstCluster_mono cs (show i + 1 ≤ runCount cs from hi)
  rw [firstCluster_runCount] at hlast
  exact (firstCluster_lt hi).trans_le hlast

/-- A cluster of the file is in one of the runs. -/
theorem runOf_spec (hv : v < cs.length) : runOf cs v < runCount cs ∧
    firstCluster cs (runOf cs v) ≤ v ∧ v < firstCluster cs (runOf cs v + 1) := by
  have hsome : Runs.lookup (runsOf cs) v ≠ none := by
    rw [Ne, Runs.lookup_eq_none_iff, length_cells_runsOf]
    omega
  obtain ⟨⟨base, left, index⟩, hlookup⟩ := Option.ne_none_iff_exists'.mp hsome
  obtain ⟨r, hr, hle, hend, hleft, -⟩ := Runs.exists_run_of_lookup hlookup
  have hrun : runOf cs v = index := by
    rw [runOf, hlookup]
    rfl
  rw [hrun]
  refine ⟨(List.getElem?_eq_some_iff.mp hr).1, hle, ?_⟩
  rw [firstCluster, Runs.startOf_succ hr]
  omega

theorem runOf_eq (hi : i < runCount cs) (hle : firstCluster cs i ≤ v)
    (hlt : v < firstCluster cs (i + 1)) : runOf cs v = i := by
  have hv : v < cs.length := by
    have hlast := firstCluster_mono cs (show i + 1 ≤ runCount cs from hi)
    rw [firstCluster_runCount] at hlast
    omega
  obtain ⟨-, hle', hlt'⟩ := runOf_spec hv
  rcases Nat.lt_trichotomy (runOf cs v) i with h | h | h
  · have := firstCluster_mono cs (show runOf cs v + 1 ≤ i from h)
    omega
  · exact h
  · have := firstCluster_mono cs (show i + 1 ≤ runOf cs v from h)
    omega

/-- A number of the list less 2, as one of the cells. -/
theorem getElem?_cells_runsOf (hcs : ∀ c ∈ cs, 2 ≤ c) (hv : v < cs.length) {a : ℕ} :
    (Runs.cells (runsOf cs))[v]? = some (some a) ↔ cs.getD v 0 = a + 2 := by
  have h2 := hcs _ (List.getElem_mem hv)
  rw [runsOf, Runs.cells_ofList, List.getElem?_map, List.getElem?_map, List.getElem?_eq_getElem hv,
    List.getD_eq_getElem _ _ hv]
  simp only [Option.map_some, Option.some_inj]
  omega

/-- The run with number `i`. -/
theorem exists_run (hcs : ∀ c ∈ cs, 2 ≤ c) (hi : i < runCount cs) :
    ∃ r, (runsOf cs)[i]? = some r ∧
      r.base = some (cs.getD (firstCluster cs i) 0 - 2) ∧
      firstCluster cs (i + 1) = firstCluster cs i + r.count := by
  have hr := List.getElem?_eq_getElem (l := runsOf cs) hi
  have hlt := firstCluster_lt_length hi
  refine ⟨_, hr, ?_, Runs.startOf_succ hr⟩
  have hpos := (normal_runsOf cs).count_pos_of_mem (List.mem_of_getElem? hr)
  have hcell : (Runs.cells (runsOf cs))[firstCluster cs i]? = _ := Runs.getElem?_cells_startOf hr hpos
  have hthis : (Runs.cells (runsOf cs))[firstCluster cs i]? =
      some (some (cs.getD (firstCluster cs i) 0 - 2)) := by
    rw [getElem?_cells_runsOf hcs hlt]
    have h2 := hcs _ (List.getElem_mem hlt)
    rw [List.getD_eq_getElem _ _ hlt]
    omega
  rw [hcell, Option.some_inj] at hthis
  rw [← hthis]
  cases (runsOf cs)[i].base <;> rfl

/-- The clusters of a run are consecutive. -/
theorem getD_firstCluster_add (hcs : ∀ c ∈ cs, 2 ≤ c) (hi : i < runCount cs) {j : ℕ}
    (hj : firstCluster cs i + j < firstCluster cs (i + 1)) :
    cs.getD (firstCluster cs i + j) 0 = cs.getD (firstCluster cs i) 0 + j := by
  obtain ⟨r, hr, hbase, hcount⟩ := exists_run hcs hi
  have hlast := firstCluster_mono cs (show i + 1 ≤ runCount cs from hi)
  rw [firstCluster_runCount] at hlast
  have hlt := firstCluster_lt_length hi
  have h2 := hcs _ (List.getElem_mem hlt)
  have hcell : (Runs.cells (runsOf cs))[firstCluster cs i + j]? = _ :=
    Runs.getElem?_cells_startOf hr (show j < r.count by omega)
  simp only [hbase, Option.map_some] at hcell
  rw [(getElem?_cells_runsOf hcs (by omega)).mp hcell]
  rw [List.getD_eq_getElem _ _ hlt]
  omega

/-- Behind a run the clusters go on elsewhere. -/
theorem getD_firstCluster_ne (hcs : ∀ c ∈ cs, 2 ≤ c) (hi : i + 1 < runCount cs) :
    cs.getD (firstCluster cs (i + 1)) 0 ≠ cs.getD (firstCluster cs (i + 1) - 1) 0 + 1 := by
  have hi' : i < runCount cs := by omega
  obtain ⟨r, hr, hbase, hcount⟩ := exists_run hcs hi'
  have hnormal := normal_runsOf cs
  have hlookup := Runs.lookup_startOf (fun _ => hnormal.count_pos_of_mem) hr
  have hmax := hnormal.lookup_maximal hlookup
  have hlt := firstCluster_lt hi'
  have hlt' := firstCluster_lt_length hi'
  have h2 := hcs _ (List.getElem_mem hlt')
  rw [hbase, Option.map_some] at hmax
  intro heq
  apply hmax
  change (Runs.cells (runsOf cs))[firstCluster cs i + r.count]? = _
  rw [getElem?_cells_runsOf hcs (by rw [← hcount]; exact firstCluster_lt_length hi), ← hcount, heq]
  have hin := getD_firstCluster_add hcs hi' (j := firstCluster cs (i + 1) - 1 - firstCluster cs i)
    (by omega)
  rw [show firstCluster cs i + (firstCluster cs (i + 1) - 1 - firstCluster cs i) =
    firstCluster cs (i + 1) - 1 by omega] at hin
  rw [hin, List.getD_eq_getElem _ _ hlt']
  omega

/-- The run of a cluster begins where it is said to. -/
theorem beginsRun (hcs : ∀ c ∈ cs, 2 ≤ c) (hv : v < cs.length) :
    BeginsRun cs v (firstCluster cs (runOf cs v)) := by
  obtain ⟨hi, hle, hlt⟩ := runOf_spec hv
  refine ⟨hle, ?_, ?_⟩
  · intro j hj hjv
    obtain ⟨k, rfl⟩ := Nat.exists_eq_add_of_le hj
    rw [getD_firstCluster_add hcs hi (by omega), Nat.add_assoc,
      getD_firstCluster_add hcs hi (by omega), Nat.add_assoc]
  · cases hrun : runOf cs v with
    | zero => exact .inl rfl
    | succ i =>
        rw [hrun] at hi
        exact .inr (getD_firstCluster_ne hcs hi)

/-! ## An extent -/

theorem runStart_eq (g : Geometry) (cs : List ℕ) (i : ℕ) :
    runStart g cs i = firstCluster cs i * g.clusterSize := by
  rw [runStart, mcbOf, Runs.startOf, ← List.map_take, List.map_map, firstCluster, runsOf, Runs.startOf,
    ← g.clusterSectors_mul]
  have hcount : (Run.count ∘ Runs.scaleRun g.fileAreaSector g.clusterSectors) =
      fun r => r.count * g.clusterSectors := rfl
  rw [hcount, List.sum_map_mul_right, Nat.mul_assoc]

theorem length_mcbOf (g : Geometry) (cs : List ℕ) : (mcbOf g cs).length = runCount cs := by
  rw [mcbOf, List.length_map, runCount, runsOf]

/-- The bytes of a run, as they are counted. -/
def byteLength (g : Geometry) (cs : List ℕ) (i : ℕ) : ℕ :=
  min ((firstCluster cs (i + 1) - firstCluster cs i) * g.clusterSize) 0xffffffff

/-- The extent of run `i`. -/
def extentAt (g : Geometry) (cs : List ℕ) (i : ℕ) : Extent where
  nextVcn := (firstCluster cs i * g.clusterSize + byteLength g cs i) / g.clusterSize
  lcn := cs.getD (firstCluster cs i) 0 - 2

section Map

variable (hg : g.Mappable) (hcs : ∀ c ∈ cs, c ∈ g.clusters)
  (hle : cs.length * g.clusterSize ≤ 2 ^ 32)

include hle in
theorem firstCluster_mul_lt (hi : i < runCount cs) : firstCluster cs i * g.clusterSize < 2 ^ 32 := by
  have hlt := (Nat.mul_lt_mul_right g.clusterSize_pos).mpr (firstCluster_lt_length hi)
  omega

include hg hcs hle

/-- The entry of the map for run `i`. -/
theorem exists_entry (hi : i < runCount cs) : ∃ lbo,
    fatGetNextMcbEntry g (mcbOf g cs) i =
      some (firstCluster cs i * g.clusterSize, lbo, byteLength g cs i) ∧
    fatGetIndexFromLbo g lbo = cs.getD (firstCluster cs i) 0 := by
  have hS := g.clusterSize_pos
  have hlt := firstCluster_lt_length hi
  obtain ⟨v, lbo, byteCount, hentry, hlookup⟩ :=
    exists_fatGetNextMcbEntry (show i < (mcbOf g cs).length by rwa [length_mcbOf])
  have hstart : v = firstCluster cs i * g.clusterSize := by
    obtain ⟨r, -, hmap⟩ := Option.map_eq_some_iff.mp hentry
    rw [← (Prod.mk.inj hmap).1, ← runStart, runStart_eq, ulong_of_lt (firstCluster_mul_lt hle hi)]
  obtain ⟨-, -, hcount⟩ := run_of_lookup hle hlookup
  have hdvd : g.sectorSize ∣ runStart g cs i := by
    rw [runStart]
    exact Dvd.intro_left _ rfl
  have hin : runStart g cs i < cs.length * g.clusterSize := by
    rw [runStart_eq]
    exact (Nat.mul_lt_mul_right hS).mpr hlt
  have hlbo := (lbo_of_lookup hg hcs hle hin hlookup).1
  have hcount := hcount hdvd
  rw [runStart_eq, runStart_eq, ← Nat.sub_mul] at hcount
  refine ⟨lbo, ?_, ?_⟩
  · rw [hentry, hstart, hcount, byteLength]
  · rw [hlbo, fileLbo, runStart_eq, Nat.mul_div_cancel _ hS, Nat.mul_mod_left]
    rw [List.getD_eq_getElem _ _ hlt]
    exact fatGetIndexFromLbo_lbo (hcs _ (List.getElem_mem hlt)) hS

/-- The run in which a lookup begins. -/
theorem exists_startingRun (hv : v < cs.length) : ∃ lbo byteCount,
    fatLookupMcbEntry g (mcbOf g cs) (v * g.clusterSize) = some (lbo, byteCount, runOf cs v) := by
  have hS := g.clusterSize_pos
  obtain ⟨byteCount, index, hlookup, -⟩ := exists_fatLookupMcbEntry hg.aligned hg.area_pos
    (plain_mcbOf hg.sectors hcs) hle ((Nat.mul_lt_mul_right hS).mpr hv)
  obtain ⟨hstart, hend, -⟩ := run_of_lookup hle hlookup
  rw [runStart_eq] at hstart hend
  have hrun : runOf cs v = index := by
    have hle' := Nat.le_of_mul_le_mul_right hstart hS
    have hlt' := Nat.lt_of_mul_lt_mul_right (a := g.clusterSize) hend
    refine runOf_eq ?_ hle' hlt'
    by_contra hge
    have hmono := firstCluster_mono cs (not_lt.mp hge)
    rw [firstCluster_runCount] at hmono
    omega
  rw [hrun]
  exact ⟨_, _, hlookup⟩

end Map

/-! ## A call -/

theorem length_mcbOf_lt (hle : cs.length * g.clusterSize ≤ 2 ^ 32) : runCount cs ≤ 2 ^ 25 := by
  have hruns : runCount cs ≤ cs.length := by
    have h := (normal_runsOf cs).length_le
    rwa [length_cells_runsOf] at h
  have hS : 2 ^ 7 ≤ g.clusterSize :=
    Nat.pow_le_pow_right (by norm_num) (g.sector_mem.1.trans g.cluster_mem.1)
  have hmul := Nat.mul_le_mul_left cs.length hS
  omega

/-- The first `n` extents from run `s` on. -/
def filled (g : Geometry) (cs : List ℕ) (s n : ℕ) : Buffer where
  extentCount := if n = 0 then 0 else runCount cs - s
  startingVcn := if n = 0 then 0 else firstCluster cs s
  extents := (List.range n).map fun j => extentAt g cs (s + j)

theorem length_filled (g : Geometry) (cs : List ℕ) (s n : ℕ) :
    (filled g cs s n).extents.length = n := by
  rw [filled, List.length_map, List.length_range]

theorem filled_succ (g : Geometry) (cs : List ℕ) {s n lbo : ℕ}
    (hlbo : ulongSub (fatGetIndexFromLbo g lbo) 2 = cs.getD (firstCluster cs (s + n)) 0 - 2) :
    (filled g cs s n).store g (mcbOf g cs) s (firstCluster cs (s + n) * g.clusterSize) lbo
      (byteLength g cs (s + n)) = filled g cs s (n + 1) := by
  rw [Buffer.store, length_filled, hlbo, length_mcbOf, Nat.mul_div_cancel _ g.clusterSize_pos]
  cases n with
  | zero => rfl
  | succ n =>
      simp only [filled, Nat.add_one_ne_zero, if_false]
      rw [List.range_succ (n := n + 1), List.map_append]
      rfl

/-- What a call gives that begins in run `s`. -/
def pageAt (g : Geometry) (cs : List ℕ) (len s : ℕ) : Answer :=
  if runCount cs - s ≤ capacity len then .success (filled g cs s (runCount cs - s))
  else .bufferOverflow { filled g cs s (capacity len) with extentCount := capacity len }

/-- What a call gives. -/
def answerAt (g : Geometry) (cs : List ℕ) (len vcn : ℕ) : Answer :=
  if chainBytes g cs / g.clusterSize ≤ vcn then .endOfFile else pageAt g cs len (runOf cs vcn)

section Call

variable (hg : g.Mappable) (hcs : ∀ c ∈ cs, c ∈ g.clusters)
  (hle : cs.length * g.clusterSize ≤ 2 ^ 32)

include hg hcs hle

/-- The loop, when `n` extents are filled in. -/
theorem fillExtents_eq {len s runs n : ℕ} {f : FcbOrDcb} (hlen : len < 2 ^ 32)
    (hn : s + n + runs = runCount cs) (hcap : n ≤ capacity len) :
    fillExtents g (mcbOf g cs) len s runs (filled g cs s n) f = .ok (pageAt g cs len s) f := by
  have hcount := length_mcbOf_lt hle
  induction runs generalizing n with
  | zero =>
      have hall : runCount cs - s = n := by omega
      rw [fillExtents, pageAt, hall, if_pos hcap]
      rfl
  | succ runs ih =>
      rw [fillExtents, length_filled, extentsOffset, ulong_of_lt (by omega)]
      by_cases hfull : len < 16 + 16 * (n + 1)
      · have hexact : capacity len = n := by
          rw [capacity] at *
          omega
        rw [if_pos hfull, pageAt, hexact, if_neg (by omega)]
        rfl
      · obtain ⟨lbo, hentry, hindex⟩ := exists_entry hg hcs hle (i := s + n) (by omega)
        have hlt := firstCluster_lt_length (show s + n < runCount cs by omega)
        have hmem := Geometry.mem_clusters.mp (hcs _ (List.getElem_mem hlt))
        have hN := g.numberOfClusters_lt
        have hlcn : ulongSub (fatGetIndexFromLbo g lbo) 2 =
            cs.getD (firstCluster cs (s + n)) 0 - 2 := by
          rw [hindex, List.getD_eq_getElem _ _ hlt]
          exact ulongSub_of_le (by omega) hmem.1
        rw [if_neg hfull, hentry]
        dsimp only
        rw [filled_succ g cs hlcn]
        refine ih (by omega) ?_
        rw [capacity]
        omega

end Call

variable {f t : FcbOrDcb} {nodeType : NodeType} {fuel len : ℕ}

/-- A file whose size was found out. -/
theorem Readable.of_whole (h : Readable g f cs) (hvcb : t.vcb = f.vcb)
    (hfirst : t.firstClusterOfFile = f.firstClusterOfFile) (hwhole : t.WholeSize g cs)
    (hfile : t.fileSize ≤ chainBytes g cs) : Readable g t cs where
  chain := by
    rw [hvcb, hfirst]
    exact h.chain
  clusters := h.clusters
  le := h.le
  size := by
    rcases hwhole.size with hsize | ⟨hhint, hne⟩
    · exact .inl ⟨hsize, hwhole.mcb⟩
    · refine .inr ⟨hhint, hne, cs.length, le_rfl, ?_, wholeRuns_length cs⟩
      rw [hwhole.mcb, List.take_length]
  fileSize := hfile
  noFault := by
    rw [hvcb]
    exact h.noFault

/-- The size is found out. -/
theorem Readable.sat_lookupSize (h : Readable g f cs) (hg : g.Mappable) (hfuel : cs.length ≤ fuel) :
    Sat (lookupSize g nodeType fuel) f (fun _ t => Readable g t cs ∧ t.WholeSize g cs)
      (fun _ _ => False) := by
  obtain ⟨reads, hreads, hsat⟩ := sat_lookupSize_chain hg h.toHasChain h.size
  have hlook := hsat f.vcb.vol.io fuel
  have hsame : f.withFault f.vcb.vol.io = f := rfl
  rw [hsame] at hlook
  have hlook : Sat (Fat.lookupSize g fuel) f
      (fun _ t => Readable g t cs ∧ t.WholeSize g cs) (fun _ _ => False) := by
    refine hlook.mono ?_ ?_
    · rintro _ t ⟨hwhole, hio, ht⟩
      have hnone : t.vcb.vol.io = none := by
        rw [h.noFault] at hio
        exact Option.map_eq_none_iff.mp hio.symm
      have hvcb : t.vcb = f.vcb := by
        rw [ht, hnone, ← h.noFault]
        rfl
      refine ⟨h.of_whole hvcb ?_ hwhole ?_, hwhole⟩
      · rw [ht]
        rfl
      · rw [ht]
        exact h.fileSize
    · intro _ _ hE
      rcases hE with hshort | ⟨n, -, hio⟩ | hlarge
      · omega
      · rw [h.noFault] at hio
        exact absurd hio (by simp)
      · have := h.fileSize
        omega
  rw [lookupSize]
  apply Sat.get_bind
  by_cases hhint : f.allocationSize = fcbLookupAllocationSizeHint
  · have heq : Fat.lookupSize g fuel f = fatLookupFileAllocationSize g fuel f := by
      change (if f.allocationSize = fcbLookupAllocationSizeHint then
        fatLookupFileAllocationSize g fuel else pure ()) f = _
      rw [if_pos hhint]
    rw [if_pos hhint]
    refine Sat.bind (Sat.of_eq heq.symm hlook) ?_
    rintro _ t ⟨hread, hwhole⟩
    split
    · exact Sat.modify ⟨hread.of_whole rfl rfl ⟨hwhole.lowPart, hwhole.mcb, hwhole.size⟩
        hwhole.lowPart.le, hwhole.lowPart, hwhole.mcb, hwhole.size⟩
    · exact Sat.pure ⟨hread, hwhole⟩
  · have heq : Fat.lookupSize g fuel f = (pure () : EStateM Stop FcbOrDcb Unit) f := by
      change (if f.allocationSize = fcbLookupAllocationSizeHint then
        fatLookupFileAllocationSize g fuel else pure ()) f = _
      rw [if_neg hhint]
    rw [if_neg hhint]
    exact Sat.of_eq heq.symm hlook

/-- **What a call gives** for a cluster of the file. -/
theorem answers (h : Readable g f cs) (hg : g.Mappable) (hfuel : cs.length ≤ fuel)
    (hlen : 32 ≤ len) (hlt : len < 2 ^ 32) (hv : v < cs.length) :
    ∃ t, fatGetRetrievalPointers g nodeType ⟨8, len, ⟨v, 0⟩⟩ fuel f =
      .ok (answerAt g cs len v) t ∧ Readable g t cs := by
  have hsat : Sat (fatGetRetrievalPointers g nodeType ⟨8, len, ⟨v, 0⟩⟩ fuel) f
      (fun a t => a = answerAt g cs len v ∧ Readable g t cs) (fun _ _ => False) := by
    rw [fatGetRetrievalPointers, if_neg (by dsimp only; omega)]
    refine Sat.bind (h.sat_lookupSize hg hfuel) ?_
    rintro _ t ⟨hread, hwhole⟩
    apply Sat.get_bind
    rw [fillFrom, answerAt, hwhole.lowPart, hwhole.mcb]
    dsimp only
    by_cases hend : chainBytes g cs / g.clusterSize ≤ v
    · rw [if_pos (.inr hend), if_pos hend]
      exact Sat.pure ⟨rfl, hread⟩
    · have hmul := (Nat.mul_lt_mul_right g.clusterSize_pos).mpr hv
      have hle := h.le
      obtain ⟨lbo, byteCount, hlookup⟩ := exists_startingRun hg h.clusters hle hv
      have hrun := (runOf_spec hv).1
      have hfill : fillExtents g (mcbOf g cs) len (runOf cs v) (runCount cs - runOf cs v)
          (filled g cs (runOf cs v) 0) t = .ok (pageAt g cs len (runOf cs v)) t :=
        fillExtents_eq hg h.clusters hle hlt (by omega) (Nat.zero_le _)
      rw [if_neg (not_or.mpr ⟨not_not.mpr rfl, hend⟩), if_neg hend, ulong_of_lt (by omega), hlookup,
        length_mcbOf]
      exact Sat.of_ok hfill ⟨rfl, hread⟩
  obtain ⟨a, t, hok, rfl, hread⟩ := hsat.exists_ok fun _ _ h => h
  exact ⟨t, hok, hread⟩

section Calls

variable (hg : g.Mappable) (hfuel : cs.length ≤ fuel) (hlen : 32 ≤ len) (hlt : len < 2 ^ 32)

include hg hfuel hlen hlt

/-- The first of the calls and the others. -/
theorem Retrieves.cases (h : Readable g f cs) (hv : v < cs.length) {bs : List Buffer}
    (hbs : Retrieves g nodeType len fuel f v bs) :
    (∃ b, answerAt g cs len v = .success b ∧ bs = [b]) ∨
      ∃ b bs' t, answerAt g cs len v = .bufferOverflow b ∧ bs = b :: bs' ∧ Readable g t cs ∧
        Retrieves g nodeType len fuel t b.nextVcn bs' := by
  obtain ⟨t, hok, hread⟩ : ∃ t, fatGetRetrievalPointers g nodeType ⟨8, len, ⟨v, 0⟩⟩ fuel f =
    .ok (answerAt g cs len v) t ∧ Readable g t cs := answers h hg hfuel hlen hlt hv
  cases hbs with
  | last hcall =>
      rw [hok] at hcall
      exact .inl ⟨_, (EStateM.Result.ok.inj hcall).1, rfl⟩
  | more hcall hmore =>
      rw [hok] at hcall
      obtain ⟨hanswer, rfl⟩ := EStateM.Result.ok.inj hcall
      exact .inr ⟨_, _, t, hanswer, rfl, hread, hmore⟩

end Calls

/-! ## The calls together -/

/-- Every run is counted whole. -/
def Counted (g : Geometry) (cs : List ℕ) : Prop :=
  ∀ i < runCount cs, (firstCluster cs (i + 1) - firstCluster cs i) * g.clusterSize < 2 ^ 32

theorem counted (hle : cs.length * g.clusterSize ≤ 2 ^ 32)
    (h : cs.length * g.clusterSize < 2 ^ 32 ∨ runCount cs ≠ 1) : Counted g cs := by
  intro i hi
  have hlast := firstCluster_mono cs (show i + 1 ≤ runCount cs from hi)
  rw [firstCluster_runCount] at hlast
  rcases h with hsmall | hmany
  · exact (Nat.mul_le_mul_right _ (by omega)).trans_lt hsmall
  · refine ((Nat.mul_lt_mul_right g.clusterSize_pos).mpr ?_).trans_le hle
    cases i with
    | zero =>
        have hmore := firstCluster_lt_length (show 1 < runCount cs by omega)
        rw [Nat.zero_add]
        omega
    | succ i =>
        have hfirst := firstCluster_lt (show i < runCount cs by omega)
        have hthis := firstCluster_lt hi
        omega

theorem Counted.nextVcn (h : Counted g cs) (hi : i < runCount cs) :
    (extentAt g cs i).nextVcn = firstCluster cs (i + 1) := by
  have hlt := firstCluster_lt hi
  have hbytes := h i hi
  have hmax : byteLength g cs i =
      (firstCluster cs (i + 1) - firstCluster cs i) * g.clusterSize := by
    rw [byteLength]
    omega
  rw [extentAt, hmax, ← Nat.add_mul, Nat.mul_div_cancel _ g.clusterSize_pos]
  exact Nat.add_sub_cancel' hlt.le

/-- The extents of the runs from `s` on tile the file. -/
theorem Counted.tiles (h : Counted g cs) (hcs : ∀ c ∈ cs, 2 ≤ c) {s n : ℕ}
    (hn : s + n = runCount cs) :
    Tiles cs (firstCluster cs s) ((List.range' s n).map (extentAt g cs)) := by
  induction n generalizing s with
  | zero =>
      rw [Nat.add_zero] at hn
      rw [hn, firstCluster_runCount]
      exact rfl
  | succ n ih =>
      have hs : s < runCount cs := by omega
      have hnext := h.nextVcn hs
      have hlast := firstCluster_mono cs (show s + 1 ≤ runCount cs from hs)
      rw [firstCluster_runCount] at hlast
      rw [List.range'_succ, List.map_cons]
      refine ⟨?_, ?_, ?_, ?_⟩
      · rw [hnext]
        exact firstCluster_lt hs
      · rw [hnext]
        exact hlast
      · intro j hj
        rw [hnext] at hj
        have hlt := firstCluster_lt_length hs
        have h2 := hcs _ (List.getElem_mem hlt)
        rw [getD_firstCluster_add hcs hs hj, extentAt, List.getD_eq_getElem _ _ hlt]
        dsimp only
        omega
      · rw [hnext]
        exact ih (by omega)

theorem extents_filled (g : Geometry) (cs : List ℕ) (s n : ℕ) :
    (filled g cs s n).extents = (List.range' s n).map (extentAt g cs) := by
  rw [filled, List.range'_eq_map_range, List.map_map]
  rfl

theorem Counted.nextVcn_filled (h : Counted g cs) {s n count : ℕ} (hn : 0 < n)
    (hsn : s + n ≤ runCount cs) :
    Buffer.nextVcn { filled g cs s n with extentCount := count } = firstCluster cs (s + n) := by
  obtain ⟨k, rfl⟩ := Nat.exists_eq_add_of_lt hn
  rw [Nat.zero_add] at *
  rw [Buffer.nextVcn]
  dsimp only
  rw [extents_filled, List.range'_1_concat, List.map_append, List.map_singleton,
    List.getLast?_concat]
  exact h.nextVcn (by omega)

/-- Where the size says that the file ends. -/
theorem chainBytes_div_le (hle : cs.length * g.clusterSize ≤ 2 ^ 32) (hv : v < cs.length) :
    chainBytes g cs / g.clusterSize ≤ v ↔
      cs.length * g.clusterSize = 2 ^ 32 ∧ v + 1 = cs.length := by
  have hS := g.clusterSize_pos
  have hmul := Nat.mul_le_mul_right g.clusterSize (show v + 1 ≤ cs.length from hv)
  rw [chainBytes, ← Nat.lt_add_one_iff, Nat.div_lt_iff_lt_mul hS]
  constructor
  · intro h
    have hmax : cs.length * g.clusterSize = 2 ^ 32 := by omega
    refine ⟨hmax, ?_⟩
    by_contra hne
    have hmul' := Nat.mul_le_mul_right g.clusterSize (show v + 1 + 1 ≤ cs.length by omega)
    rw [Nat.add_mul (v + 1)] at hmul'
    omega
  · rintro ⟨hmax, hlast⟩
    rw [hlast]
    omega

theorem runOf_firstCluster (hi : i < runCount cs) : runOf cs (firstCluster cs i) = i :=
  runOf_eq hi le_rfl (firstCluster_lt hi)

theorem runOf_last (hne : 0 < cs.length) : runOf cs (cs.length - 1) + 1 = runCount cs := by
  obtain ⟨hi, -, hlt⟩ := runOf_spec (show cs.length - 1 < cs.length by omega)
  by_contra hmore
  have hlater := firstCluster_lt_length (show runOf cs (cs.length - 1) + 1 < runCount cs by omega)
  omega

/-- A run that begins with the last cluster does not have the one before it. -/
theorem runOf_ne_of_single (hi : i < runCount cs) (hfirst : firstCluster cs i + 1 = cs.length)
    (hpos : 2 ≤ cs.length) : runOf cs (cs.length - 2) ≠ runOf cs (cs.length - 1) := by
  have hlast : runOf cs (cs.length - 1) = i := by
    have heq : cs.length - 1 = firstCluster cs i := by omega
    rw [heq, runOf_firstCluster hi]
  rw [hlast]
  intro heq
  obtain ⟨-, hle, -⟩ := runOf_spec (show cs.length - 2 < cs.length by omega)
  rw [heq] at hle
  omega

section Calls

variable (hg : g.Mappable) (hfuel : cs.length ≤ fuel) (hlen : 32 ≤ len) (hlt : len < 2 ^ 32)

include hg hfuel hlen hlt

/-- The calls come to the end of the file when no one begins at its last cluster. -/
theorem exists_retrieves (h : Readable g f cs) (hcounted : Counted g cs) (hv : v < cs.length)
    (hfits : cs.length * g.clusterSize < 2 ^ 32 ∨ v + 1 ≠ cs.length ∧
      (runOf cs (cs.length - 2) = runOf cs (cs.length - 1) ∨
        ¬ capacity len ∣ runOf cs (cs.length - 1) - runOf cs v)) :
    ∃ bs, Retrieves g nodeType len fuel f v bs ∧ Joined (firstCluster cs (runOf cs v)) bs ∧
      bs.flatMap Buffer.extents =
        (List.range' (runOf cs v) (runCount cs - runOf cs v)).map (extentAt g cs) := by
  obtain ⟨n, hn⟩ : ∃ n, n = runCount cs - runOf cs v := ⟨_, rfl⟩
  induction n using Nat.strong_induction_on generalizing f v with
  | _ n ih =>
    have hle := h.le
    have hi := (runOf_spec hv).1
    have hcap : 1 ≤ capacity len := by
      rw [capacity]
      omega
    obtain ⟨t, hok, hread⟩ := answers h hg hfuel hlen hlt hv
    have hend : ¬ chainBytes g cs / g.clusterSize ≤ v := by
      rw [chainBytes_div_le hle hv]
      rintro ⟨hmax, hlast⟩
      rcases hfits with hsmall | hrest
      · omega
      · exact hrest.1 hlast
    rw [answerAt, if_neg hend, pageAt] at hok
    by_cases hall : runCount cs - runOf cs v ≤ capacity len
    · rw [if_pos hall] at hok
      refine ⟨_, .last hok, ?_, ?_⟩
      · refine ⟨?_, ?_, trivial⟩
        · exact if_neg (by omega)
        · rw [length_filled]
          exact if_neg (by omega)
      · rw [List.flatMap_singleton, extents_filled]
    · rw [if_neg hall] at hok
      -- the next call begins in the run behind those of this one
      have hi' : runOf cs v + capacity len < runCount cs := by omega
      have hnext : Buffer.nextVcn { filled g cs (runOf cs v) (capacity len) with
          extentCount := capacity len } = firstCluster cs (runOf cs v + capacity len) :=
        hcounted.nextVcn_filled hcap hi'.le
      have hv' := firstCluster_lt_length hi'
      have hrun := runOf_firstCluster hi'
      have hlast := runOf_last (by omega : 0 < cs.length)
      have hfits' : cs.length * g.clusterSize < 2 ^ 32 ∨
          firstCluster cs (runOf cs v + capacity len) + 1 ≠ cs.length ∧
          (runOf cs (cs.length - 2) = runOf cs (cs.length - 1) ∨
            ¬ capacity len ∣ runOf cs (cs.length - 1) -
              runOf cs (firstCluster cs (runOf cs v + capacity len))) := by
        rw [hrun]
        refine hfits.imp_right ?_
        rintro ⟨-, hrest⟩
        constructor
        · intro hsingle
          have hpos := firstCluster_lt (show 0 < runCount cs by omega)
          have hmono := firstCluster_mono cs (show 0 + 1 ≤ runOf cs v + capacity len by omega)
          have hne := runOf_ne_of_single hi' hsingle (by omega)
          have heq : cs.length - 1 = firstCluster cs (runOf cs v + capacity len) := by omega
          refine hrest.resolve_left hne ?_
          rw [heq, hrun, Nat.add_sub_cancel_left]
        · refine hrest.imp_right ?_
          intro hndvd hdvd
          apply hndvd
          have hsum : runOf cs (cs.length - 1) - runOf cs v =
              runOf cs (cs.length - 1) - (runOf cs v + capacity len) + capacity len := by omega
          rw [hsum]
          exact Nat.dvd_add_self_right.mpr hdvd
      obtain ⟨bs, hbs, hjoined, hextents⟩ := ih (runCount cs - (runOf cs v + capacity len)) (by omega)
        hread hv' hfits' (by rw [hrun])
      rw [hrun] at hjoined hextents
      refine ⟨_, .more hok (by rw [hnext]; exact hbs), ?_, ?_⟩
      · refine ⟨if_neg (by omega), ?_, ?_⟩
        · exact (length_filled g cs _ _).symm
        · rw [hnext]
          exact hjoined
      · rw [List.flatMap_cons, hextents]
        dsimp only
        rw [extents_filled, ← List.map_append]
        congr 1
        rw [show runCount cs - runOf cs v =
          capacity len + (runCount cs - (runOf cs v + capacity len)) by omega,
          ← List.range'_append_1]

/-- They do not when one begins there. -/
theorem not_retrieves (h : Readable g f cs) (hmax : cs.length * g.clusterSize = 2 ^ 32)
    (hsingle : runOf cs (cs.length - 2) ≠ runOf cs (cs.length - 1)) (hv : v < cs.length)
    (hdvd : capacity len ∣ runOf cs (cs.length - 1) - runOf cs v) (bs : List Buffer) :
    ¬ Retrieves g nodeType len fuel f v bs := by
  obtain ⟨d, hd⟩ : ∃ d, d = runOf cs (cs.length - 1) - runOf cs v := ⟨_, rfl⟩
  induction d using Nat.strong_induction_on generalizing f v bs with
  | _ d ih =>
    intro hbs
    obtain ⟨hi, hstart, -⟩ := runOf_spec hv
    have hlast := runOf_last (show 0 < cs.length by omega)
    have hcounted : Counted g cs := by
      refine counted h.le (.inr ?_)
      intro hone
      have hother := (runOf_spec (show cs.length - 2 < cs.length by omega)).1
      apply hsingle
      omega
    have hcap : 1 ≤ capacity len := by
      rw [capacity]
      omega
    rcases Nat.eq_zero_or_pos d with rfl | hpos
    · -- the last run is the last cluster
      have hrun : runOf cs v = runOf cs (cs.length - 1) := by omega
      have hvlast : v + 1 = cs.length := by
        by_contra hne
        apply hsingle
        rw [← hrun]
        have hend := firstCluster_runCount cs
        rw [← hlast, ← hrun] at hend
        exact runOf_eq hi (by omega) (by omega)
      have hanswer : answerAt g cs len v = .endOfFile :=
        if_pos ((chainBytes_div_le h.le hv).mpr ⟨hmax, hvlast⟩)
      obtain ⟨b, hb, -⟩ | ⟨b, bs', t, hb, -⟩ := hbs.cases hg hfuel hlen hlt h hv
      · rw [hanswer] at hb
        exact Answer.noConfusion hb
      · rw [hanswer] at hb
        exact Answer.noConfusion hb
    · have hle := Nat.le_of_dvd (by omega) hdvd
      have hend : ¬ chainBytes g cs / g.clusterSize ≤ v := by
        rw [chainBytes_div_le h.le hv]
        rintro ⟨-, hvlast⟩
        rw [← hvlast, Nat.add_sub_cancel] at hd
        omega
      have hanswer : answerAt g cs len v = .bufferOverflow
          { filled g cs (runOf cs v) (capacity len) with extentCount := capacity len } := by
        rw [answerAt, if_neg hend, pageAt, if_neg (by omega)]
      obtain ⟨b, hb, -⟩ | ⟨b, bs', t, hb, -, hread, hmore⟩ := hbs.cases hg hfuel hlen hlt h hv
      · rw [hanswer] at hb
        exact Answer.noConfusion hb
      · rw [hanswer] at hb
        obtain rfl := Answer.bufferOverflow.inj hb
        have hi' : runOf cs v + capacity len < runCount cs := by omega
        rw [hcounted.nextVcn_filled hcap hi'.le] at hmore
        have hrun := runOf_firstCluster hi'
        refine ih (d - capacity len) (by omega) hread (firstCluster_lt_length hi') ?_ bs' ?_ hmore
        · rw [hrun, Nat.sub_add_eq]
          exact Nat.dvd_sub hdvd dvd_rfl
        · rw [hrun]
          omega

/-- A file of 4 GB in one run is a cluster short. -/
theorem not_describes_oneRun (h : Readable g f cs) (hmax : cs.length * g.clusterSize = 2 ^ 32)
    (hone : runCount cs = 1) (hv : v < cs.length) (bs : List Buffer)
    (hbs : Retrieves g nodeType len fuel f v bs) : ¬ Describes cs v bs := by
  have hi := (runOf_spec hv).1
  have hrun : runOf cs v = 0 := by omega
  have hcap : 1 ≤ capacity len := by
    rw [capacity]
    omega
  have hpage : pageAt g cs len (runOf cs v) = .success (filled g cs 0 1) := by
    rw [pageAt, hrun, hone, if_pos hcap]
  obtain ⟨b, hb, rfl⟩ | ⟨b, bs', t, hb, -⟩ := hbs.cases hg hfuel hlen hlt h hv
  · rw [answerAt, hpage] at hb
    by_cases hend : chainBytes g cs / g.clusterSize ≤ v
    · rw [if_pos hend] at hb
      exact fun _ => Answer.noConfusion hb
    · rw [if_neg hend] at hb
      obtain rfl := Answer.success.inj hb
      rintro ⟨v₀, -, -, htiles⟩
      rw [List.flatMap_singleton, extents_filled] at htiles
      have hnext : (extentAt g cs 0).nextVcn = cs.length := htiles.2.2.2
      have hzero : firstCluster cs 0 = 0 := rfl
      have hall : firstCluster cs (0 + 1) = cs.length := by
        rw [← firstCluster_runCount, hone]
      rw [extentAt, byteLength, hzero, hall, Nat.zero_mul, Nat.zero_add, Nat.sub_zero, hmax] at hnext
      have hmul := Nat.div_mul_le_self (min (2 ^ 32) 0xffffffff) g.clusterSize
      dsimp only at hnext
      rw [hnext, hmax] at hmul
      omega
  · rw [answerAt, hpage] at hb
    split at hb <;> exact fun _ => Answer.noConfusion hb

/-- **Retrieval pointers** describe the file from the run with cluster number `v` on in exactly the
cases of `Fits`. -/
theorem describes_iff (h : Readable g f cs) (hv : v < cs.length) :
    (∃ bs, Retrieves g nodeType len fuel f v bs ∧ Describes cs v bs) ↔ Fits g cs len v := by
  have hle := h.le
  have h2 : ∀ c ∈ cs, 2 ≤ c := fun c hc => (Geometry.mem_clusters.mp (h.clusters c hc)).1
  constructor
  · rintro ⟨bs, hbs, hdescribes⟩
    by_cases hsmall : cs.length * g.clusterSize < 2 ^ 32
    · exact .inl hsmall
    have hmax : cs.length * g.clusterSize = 2 ^ 32 := by omega
    refine .inr ⟨?_, ?_, ?_⟩
    · intro hone
      exact not_describes_oneRun hg hfuel hlen hlt h hmax hone hv bs hbs hdescribes
    · intro hlast
      have hanswer : answerAt g cs len v = .endOfFile :=
        if_pos ((chainBytes_div_le hle hv).mpr ⟨hmax, hlast⟩)
      obtain ⟨b, hb, -⟩ | ⟨b, bs', t, hb, -⟩ := hbs.cases hg hfuel hlen hlt h hv
      · rw [hanswer] at hb
        exact Answer.noConfusion hb
      · rw [hanswer] at hb
        exact Answer.noConfusion hb
    · by_contra hnone
      rw [not_or, not_not] at hnone
      exact not_retrieves hg hfuel hlen hlt h hmax hnone.1 hv hnone.2 bs hbs
  · intro hfits
    have hcounted : Counted g cs := counted hle (hfits.imp_right fun hrest => hrest.1)
    obtain ⟨bs, hbs, hjoined, hextents⟩ := exists_retrieves hg hfuel hlen hlt h hcounted hv
      (hfits.imp_right fun hrest => hrest.2)
    refine ⟨bs, hbs, firstCluster cs (runOf cs v), beginsRun h2 hv, hjoined, ?_⟩
    rw [hextents]
    have hi := (runOf_spec hv).1
    exact hcounted.tiles h2 (by omega)

end Calls

/-! ## Two files -/

theorem readable_linkedFile :
    Readable floppy (linkedFile (mcbOf floppy [2, 3])) [2, 3] where
  toHasChain := hasChain_linkedFile floppy_width (by rw [floppy_numberOfClusters]; norm_num) _
  size := .inl ⟨by decide, rfl⟩
  fileSize := by decide
  noFault := rfl

theorem describes_floppy :
    ∃ bs, Retrieves floppy .fcb 32 2 (linkedFile (mcbOf floppy [2, 3])) 1 bs ∧ Describes [2, 3] 1 bs :=
  (describes_iff floppy_mappable (by decide) le_rfl (by decide) readable_linkedFile (by decide)).mpr
    (.inl (by decide))

/-- The file of 4 GB, with the clusters `cs` in the map. -/
def hugeMapped (cs : List ℕ) : FcbOrDcb := { hugeFile with mcb := mcbOf bigFat16 cs }

theorem readable_hugeMapped (h : hugeFile.HasChain bigFat16 cs)
    (hmax : cs.length * bigFat16.clusterSize = 2 ^ 32) : Readable bigFat16 (hugeMapped cs) cs where
  chain := h.chain
  clusters := h.clusters
  le := h.le
  size := by
    refine .inl ⟨?_, rfl⟩
    rw [chainBytes, hmax]
    rfl
  fileSize := by
    rw [chainBytes, hmax]
    exact le_rfl
  noFault := rfl

theorem length_hugeFile : (List.range' 2 8192).length * bigFat16.clusterSize = 2 ^ 32 := by
  rw [List.length_range', bigFat16_clusterSize]
  norm_num

/-- Its last cluster is not described. -/
theorem not_describes_hugeFile :
    Readable bigFat16 (hugeMapped (List.range' 2 8192)) (List.range' 2 8192) ∧
      ¬ ∃ bs, Retrieves bigFat16 .fcb 32 8192 (hugeMapped (List.range' 2 8192)) 0 bs ∧
        Describes (List.range' 2 8192) 0 bs := by
  have hread := readable_hugeMapped hasChain_hugeFile length_hugeFile
  refine ⟨hread, ?_⟩
  have hone : runCount (List.range' 2 8192) = 1 := by
    rw [runCount, runsOf, List.map_sub_range' le_rfl, Runs.ofList_range' (by norm_num)]
    rfl
  have hlength : (List.range' 2 8192).length = 8192 := List.length_range'
  rintro ⟨bs, hbs, hdescribes⟩
  exact not_describes_oneRun bigFat16_mappable hlength.le le_rfl (by norm_num) hread length_hugeFile
    hone (by rw [hlength]; norm_num) bs hbs hdescribes

end KernelDrivers.Fat.Retrieval
