import KernelDrivers.Fat.Mcb

/-!
# Transfers of a paging file

`FatPagingFileIo` cuts a transfer into one piece for each run of the file.  A piece goes down as an
associated request of the master request, which the I/O system completes when its count of
associated requests gets to zero.  When there is no pool for a memory descriptor the one that the
driver keeps in reserve is used, for which it waits; such a piece, and one for which there is no
associated request, is done with the master request itself, one at a time.

## Main definitions

* `PagingFile` — a map of runs that covers a file, and `diskByte`, what it says.
* `PagingIo` — the locals of the routine, the master request, and the pieces that were issued.
* `PagingIo.step` — the state behind an event.
-/

namespace KernelDrivers.Fat

/-- A file whose map has no hole.  Sectors have 32-bit numbers other than the one that stands for a
hole, and a file has at most 4 GB. -/
structure PagingFile where
  g : Geometry
  mcb : Mcb
  count_pos : ∀ r ∈ mcb, 0 < r.count
  mapped : ∀ r ∈ mcb, ∃ l, r.base = some l ∧ 0 < l ∧ l + r.count < 2 ^ 32
  small : Runs.startOf mcb mcb.length * g.sectorSize ≤ 2 ^ 32

namespace PagingFile

/-- The bytes of the file. -/
def size (f : PagingFile) : ℕ := Runs.startOf f.mcb f.mcb.length * f.g.sectorSize

/-- Where byte `v` of the file is on the disk. -/
def diskByte (f : PagingFile) (v : ℕ) : Option ℕ :=
  ((Runs.cells f.mcb)[v / f.g.sectorSize]?.join).map (· * f.g.sectorSize + v % f.g.sectorSize)

end PagingFile

/-- A request for some bytes inside of the file, from the start of a sector on. -/
structure PagingRequest where
  file : PagingFile
  vbo : ℕ
  byteCount : ℕ
  aligned : file.g.sectorSize ∣ vbo
  byteCount_pos : 0 < byteCount
  byteCount_lt : byteCount < 2 ^ 32
  inside : vbo + byteCount ≤ file.size

/-- What was sent to the disk. -/
structure Piece where
  vbo : ℕ
  lbo : ℕ
  length : ℕ
  deriving DecidableEq, Repr

/-- Where an associated request is; `failed` is behind the copy of its status to the master, when
the volume is to be marked first. -/
inductive AssocState
  | down
  | failed
  | done
  deriving DecidableEq, Repr

/-- The master request as a piece; `caught` is behind
`FatPagingFileCompletionRoutineCatch`, when the volume is to be marked first. -/
inductive MasterState
  | idle
  | down
  | caught
  | back
  deriving DecidableEq, Repr

inductive Reserve
  | free
  /-- Another transfer has it. -/
  | other
  /-- This transfer has it. -/
  | mine
  deriving DecidableEq, Repr

inductive PagingPc
  /-- The start of the routine. -/
  | enter
  /-- The head of the loop. -/
  | allocate
  | waitReserve
  | associate
  | drain
  | waitMaster
  | advance
  /-- Behind the loop. -/
  | finish
  | returned
  deriving DecidableEq, Repr

structure PagingIo where
  pc : PagingPc
  vbo : ℕ
  byteCount : ℕ
  nextLbo : ℕ
  nextByteCount : ℕ
  remainingByteCount : ℕ
  currentIndex : ℕ
  lastIndex : ℕ
  mdlIsReserve : Bool
  irpCount : ℕ
  /-- `AssociatedIrp.IrpCount` of the master. -/
  masterCount : ℕ
  /-- The status of the master is an error. -/
  failed : Bool
  master : MasterState
  assocs : List AssocState
  /-- The master was passed on as it is. -/
  passed : Bool
  reserve : Reserve
  issued : List Piece
  /-- The calls of `IoCompleteRequest` with the master. -/
  completions : ℕ
  deriving DecidableEq

/-- `FAT_RESERVE_MDL_SIZE * PAGE_SIZE`. -/
def reserveBytes : ℕ := 16 * 4096

namespace PagingIo

/-- The piece that the locals describe. -/
def piece (s : PagingIo) : Piece := ⟨s.vbo, s.nextLbo, s.nextByteCount⟩

/-- The lookups, and the way of a request that lies in one run.  Without an entry the system is
stopped, which the request excludes. -/
def enter (q : PagingRequest) (s : PagingIo) : PagingIo :=
  match fatLookupMcbEntry q.file.g q.file.mcb q.vbo,
      fatLookupMcbEntry q.file.g q.file.mcb (q.vbo + q.byteCount - 1) with
  | some (lbo, count, first), some (_, _, last) =>
      if q.byteCount ≤ count then
        { s with
          pc := .returned
          passed := true
          master := .down
          issued := s.issued ++ [⟨q.vbo, lbo, q.byteCount⟩] }
      else
        { s with
          pc := .allocate
          vbo := q.vbo
          byteCount := q.byteCount
          nextLbo := lbo
          nextByteCount := count
          currentIndex := first
          lastIndex := last
          failed := false
          irpCount := last - first + 1
          masterCount := last - first + 1 }
  | _, _ => s

/-- `IoAllocateMdl`. -/
def allocate (s : PagingIo) (mdl : Bool) : PagingIo :=
  { s with
    nextByteCount := min s.nextByteCount s.byteCount
    remainingByteCount := 0
    pc := if mdl then .associate else .waitReserve }

/-- The reserve is taken as soon as it is there, and the piece cut to its size. -/
def waitReserve (s : PagingIo) : PagingIo :=
  match s.reserve with
  | .free =>
      { s with
        reserve := .mine
        mdlIsReserve := true
        nextByteCount := min s.nextByteCount reserveBytes
        remainingByteCount := s.nextByteCount - reserveBytes
        pc := .associate }
  | _ => s

/-- `IoMakeAssociatedIrp`, unless it would be the last one and more is to come. -/
def associate (s : PagingIo) (irp : Bool) : PagingIo :=
  if ¬ s.mdlIsReserve ∧ irp ∧
      (s.irpCount ≠ 1 ∨ (s.currentIndex = s.lastIndex ∧ s.remainingByteCount = 0)) then
    { s with
      irpCount := s.irpCount - 1
      assocs := s.assocs ++ [.down]
      issued := s.issued ++ [s.piece]
      pc := .advance }
  else { s with pc := .drain }

/-- The associated requests are awaited; after an error the loop is left. -/
def drain (s : PagingIo) : PagingIo :=
  if s.masterCount ≠ s.irpCount then s
  else if s.failed then { s with pc := .finish }
  else { s with master := .down, issued := s.issued ++ [s.piece], pc := .waitMaster }

def waitMaster (s : PagingIo) : PagingIo :=
  match s.master with
  | .back =>
      { s with master := .idle, mdlIsReserve := false, pc := if s.failed then .finish else .advance }
  | _ => s

/-- The next run, or the rest of this one. -/
def advance (q : PagingRequest) (s : PagingIo) : PagingIo :=
  if s.remainingByteCount ≠ 0 then
    { s with
      vbo := s.vbo + s.nextByteCount
      byteCount := s.byteCount - s.nextByteCount
      nextLbo := s.nextLbo + s.nextByteCount
      nextByteCount := s.remainingByteCount
      pc := .allocate }
  else if s.currentIndex + 1 ≤ s.lastIndex then
    let next := (fatGetNextMcbEntry q.file.g q.file.mcb (s.currentIndex + 1)).getD
      (0, s.nextLbo, s.nextByteCount)
    { s with
      vbo := s.vbo + s.nextByteCount
      byteCount := s.byteCount - s.nextByteCount
      currentIndex := s.currentIndex + 1
      nextLbo := next.2.1
      nextByteCount := next.2.2
      pc := .allocate }
  else
    { s with
      vbo := s.vbo + s.nextByteCount
      byteCount := s.byteCount - s.nextByteCount
      currentIndex := s.currentIndex + 1
      pc := .finish }

/-- The master is completed by hand when not all of its associated requests were made. -/
def finish (s : PagingIo) : PagingIo :=
  if s.irpCount = 0 then { s with pc := .returned }
  else if s.masterCount ≠ s.irpCount then s
  else { s with completions := s.completions + 1, pc := .returned }

/-- The next step of the routine; `mdl` and `irp` say whether there is pool. -/
def run (q : PagingRequest) (s : PagingIo) (mdl irp : Bool) : PagingIo :=
  match s.pc with
  | .enter => s.enter q
  | .allocate => s.allocate mdl
  | .waitReserve => s.waitReserve
  | .associate => s.associate irp
  | .drain => s.drain
  | .waitMaster => s.waitMaster
  | .advance => s.advance q
  | .finish => s.finish
  | .returned => s

/-- An associated request is done: the I/O system counts it, and completes the master behind the
last one. -/
def assocDone (s : PagingIo) (i : ℕ) : PagingIo :=
  { s with
    assocs := s.assocs.set i .done
    masterCount := s.masterCount - 1
    completions := if s.masterCount = 1 then s.completions + 1 else s.completions }

/-- The disk, or the thread that marks the volume, goes on with associated request `i`. -/
def assoc (s : PagingIo) (i : ℕ) (ok : Bool) : PagingIo :=
  match s.assocs[i]? with
  | some .down =>
      if ok then s.assocDone i else { s with assocs := s.assocs.set i .failed, failed := true }
  | some .failed => s.assocDone i
  | _ => s

/-- The disk goes on with the master.  The completion routine gives the reserve back. -/
def masterDone (s : PagingIo) (ok : Bool) : PagingIo :=
  match s.master with
  | .down =>
      let s := { s with
        failed := !ok
        reserve := if s.mdlIsReserve then .free else s.reserve }
      if ok then
        if s.passed then { s with master := .back, completions := s.completions + 1 }
        else { s with master := .back }
      else { s with master := .caught }
  | .caught =>
      if s.passed then { s with master := .back, completions := s.completions + 1 }
      else { s with master := .back }
  | _ => s

/-- Another transfer takes the reserve or gives it back. -/
def others (s : PagingIo) : PagingIo :=
  match s.reserve with
  | .free => { s with reserve := .other }
  | .other => { s with reserve := .free }
  | .mine => s

end PagingIo

inductive PagingEvent
  | run (mdl irp : Bool)
  | assoc (i : ℕ) (ok : Bool)
  | master (ok : Bool)
  | others

def PagingIo.step (q : PagingRequest) (s : PagingIo) : PagingEvent → PagingIo
  | .run mdl irp => s.run q mdl irp
  | .assoc i ok => s.assoc i ok
  | .master ok => s.masterDone ok
  | .others => s.others

/-- The routine is called, and another transfer may have the reserve. -/
def PagingIo.start (busy : Bool) : PagingIo where
  pc := .enter
  vbo := 0
  byteCount := 0
  nextLbo := 0
  nextByteCount := 0
  remainingByteCount := 0
  currentIndex := 0
  lastIndex := 0
  mdlIsReserve := false
  irpCount := 0
  masterCount := 0
  failed := false
  master := .idle
  assocs := []
  passed := false
  reserve := if busy then .other else .free
  issued := []
  completions := 0

/-! ### The map -/

namespace PagingFile

variable {f : PagingFile} {i k v : ℕ} {r : Run}

/-- The first byte of run `i`. -/
def startByte (f : PagingFile) (i : ℕ) : ℕ := Runs.startOf f.mcb i * f.g.sectorSize

theorem startByte_mono {j : ℕ} (h : i ≤ j) : f.startByte i ≤ f.startByte j :=
  Nat.mul_le_mul_right _ (Runs.startOf_mono f.mcb h)

theorem startByte_succ (h : f.mcb[i]? = some r) :
    f.startByte (i + 1) = f.startByte i + r.count * f.g.sectorSize := by
  rw [startByte, startByte, Runs.startOf_succ h, Nat.add_mul]

theorem startByte_succ_le (h : f.mcb[i]? = some r) : f.startByte (i + 1) ≤ f.size :=
  startByte_mono (List.getElem?_eq_some_iff.mp h).1

/-- A run is a stretch of the disk. -/
theorem diskByte_run (h : f.mcb[i]? = some r) {l : ℕ} (hl : r.base = some l)
    (hk : k < r.count * f.g.sectorSize) :
    f.diskByte (f.startByte i + k) = some (l * f.g.sectorSize + k) := by
  have hss := f.g.sectorSize_pos
  have hdiv : (f.startByte i + k) / f.g.sectorSize = Runs.startOf f.mcb i + k / f.g.sectorSize := by
    rw [startByte, Nat.add_comm, Nat.add_mul_div_right _ _ hss, Nat.add_comm]
  have hmod : (f.startByte i + k) % f.g.sectorSize = k % f.g.sectorSize := by
    rw [startByte, Nat.add_comm, Nat.add_mul_mod_self_right]
  have hlt : k / f.g.sectorSize < r.count := (Nat.div_lt_iff_lt_mul hss).mpr hk
  rw [diskByte, hdiv, hmod, Runs.getElem?_cells_startOf h hlt, hl]
  simp only [Option.map_some, Option.join_some, Option.some.injEq]
  rw [Nat.add_mul, Nat.add_assoc, Nat.div_add_mod']

/-- The number of a sector of the file is not that of a hole. -/
theorem mcbLbo_some {l : ℕ} (hl : l < 2 ^ 32 - 1) : mcbLbo f.g (some l) = l * f.g.sectorSize := by
  rw [mcbLbo]
  exact if_neg (by rw [Nat.mod_eq_of_lt (by omega)]; omega)

/-- A count of less than 4 GB comes back as it is. -/
theorem mcbByteCount_of_lt {n : ℕ} (h : n * f.g.sectorSize < 2 ^ 32) :
    mcbByteCount f.g n = n * f.g.sectorSize := by
  have hss := f.g.sectorSize_pos
  rw [mcbByteCount, ulong_of_lt h]
  refine if_neg fun hz => hz.2 ?_
  rcases Nat.mul_eq_zero.mp hz.1 with hn | hs
  · exact hn
  · omega

/-- `FatGetNextMcbEntry` for a run that is not the first one. -/
theorem exists_nextEntry (h : f.mcb[i]? = some r) (hi : 0 < i) :
    ∃ vbo lbo, fatGetNextMcbEntry f.g f.mcb i =
        some (vbo, lbo, f.startByte (i + 1) - f.startByte i) ∧
      ∀ k < f.startByte (i + 1) - f.startByte i,
        f.diskByte (f.startByte i + k) = some (lbo + k) := by
  have hmem := List.mem_of_getElem? h
  obtain ⟨l, hl, -, hlt⟩ := f.mapped r hmem
  have hcount := f.count_pos r hmem
  have hsucc := startByte_succ h
  -- the runs in front of it are not empty
  have hfirst : 0 < f.startByte i := by
    have hlen := (List.getElem?_eq_some_iff.mp h).1
    obtain ⟨r₀, hr₀⟩ : ∃ r₀, f.mcb[0]? = some r₀ := ⟨_, List.getElem?_eq_getElem (by omega)⟩
    have h0 := startByte_succ hr₀
    have hpos := Nat.mul_pos (f.count_pos r₀ (List.mem_of_getElem? hr₀)) f.g.sectorSize_pos
    have := startByte_mono (f := f) (show 0 + 1 ≤ i from hi)
    omega
  have hsmall : r.count * f.g.sectorSize < 2 ^ 32 := by
    have := startByte_succ_le h
    have hle : f.size ≤ 2 ^ 32 := f.small
    omega
  refine ⟨ulong (f.startByte i), l * f.g.sectorSize, ?_, fun k hk => ?_⟩
  · rw [fatGetNextMcbEntry, h]
    simp only [Option.map_some, hl, mcbLbo_some (f := f) (show l < 2 ^ 32 - 1 by omega),
      mcbByteCount_of_lt hsmall, hsucc]
    rw [Nat.add_sub_cancel_left]
    rfl
  · exact diskByte_run h hl (by omega)

/-- `FatLookupMcbEntry` for a byte of the file: the index of its run. -/
theorem exists_lookupEntry (hv : v < f.size) :
    ∃ lbo count i r, fatLookupMcbEntry f.g f.mcb v = some (lbo, count, i) ∧ f.mcb[i]? = some r ∧
      f.startByte i ≤ v ∧ v < f.startByte (i + 1) := by
  have hss := f.g.sectorSize_pos
  have hlt : v / f.g.sectorSize < Runs.startOf f.mcb f.mcb.length :=
    (Nat.div_lt_iff_lt_mul hss).mpr hv
  obtain ⟨⟨base, left, i⟩, hx⟩ := Runs.exists_lookup hlt
  obtain ⟨r, hr, hle, hsum, hpos, -⟩ := Runs.exists_run_of_lookup hx
  refine ⟨_, _, i, r, by rw [fatLookupMcbEntry, hx]; rfl, hr, ?_, ?_⟩
  · exact (Nat.mul_le_mul_right _ hle).trans (Nat.div_mul_le_self v _)
  · rw [startByte, Runs.startOf_succ hr, ← hsum]
    have := Nat.lt_div_mul_add (a := v) hss
    have hmul : (v / f.g.sectorSize + 1) * f.g.sectorSize ≤
        (v / f.g.sectorSize + left) * f.g.sectorSize := Nat.mul_le_mul_right _ (by omega)
    rw [Nat.add_mul] at hmul
    omega

end PagingFile

namespace PagingRequest

variable (q : PagingRequest)

/-- The byte behind the request. -/
def stop : ℕ := q.vbo + q.byteCount

/-- The first lookup: the run of the first byte from there on, or as much as is asked for. -/
theorem exists_first : ∃ lbo count i r, fatLookupMcbEntry q.file.g q.file.mcb q.vbo =
      some (lbo, count, i) ∧ q.file.mcb[i]? = some r ∧ q.file.startByte i ≤ q.vbo ∧
    q.vbo < q.file.startByte (i + 1) ∧
    (q.byteCount ≤ count ∨ q.vbo + count = q.file.startByte (i + 1)) ∧
    q.vbo + count ≤ q.file.startByte (i + 1) ∧
    ∀ k < count, q.file.diskByte (q.vbo + k) = some (lbo + k) := by
  have hss := q.file.g.sectorSize_pos
  have hpos := q.byteCount_pos
  have hinside := q.inside
  obtain ⟨v, hv⟩ := q.aligned
  have hvdiv : q.vbo / q.file.g.sectorSize = v := by rw [hv, Nat.mul_div_cancel_left _ hss]
  have hvmod : q.vbo % q.file.g.sectorSize = 0 := by rw [hv, Nat.mul_mod_right]
  have hlt : v < Runs.startOf q.file.mcb q.file.mcb.length := by
    rw [← hvdiv]
    exact (Nat.div_lt_iff_lt_mul hss).mpr (show q.vbo < q.file.size by omega)
  obtain ⟨⟨base, left, i⟩, hx⟩ := Runs.exists_lookup hlt
  obtain ⟨r, hr, hle, hsum, hleft, hbase⟩ := Runs.exists_run_of_lookup hx
  obtain ⟨l, hl, hlpos, hllt⟩ := q.file.mapped r (List.mem_of_getElem? hr)
  rw [hl, Option.map_some] at hbase
  have hvbo : q.vbo = v * q.file.g.sectorSize := by rw [hv, Nat.mul_comm]
  have hstop : q.vbo + left * q.file.g.sectorSize = q.file.startByte (i + 1) := by
    rw [PagingFile.startByte, Runs.startOf_succ hr, ← hsum, Nat.add_mul, hvbo]
  have hstart : q.file.startByte i ≤ q.vbo := by
    rw [hvbo]
    exact Nat.mul_le_mul_right _ hle
  have hsize := PagingFile.startByte_succ_le hr
  have hsmall : q.file.size ≤ 2 ^ 32 := q.file.small
  have hleftpos : 0 < left * q.file.g.sectorSize := Nat.mul_pos hleft hss
  -- what the lookup gives
  have hentry : fatLookupMcbEntry q.file.g q.file.mcb q.vbo =
      some ((l + (v - Runs.startOf q.file.mcb i)) * q.file.g.sectorSize,
        mcbByteCount q.file.g left, i) := by
    rw [fatLookupMcbEntry, hvdiv, hx]
    simp only [Option.map_some, hbase, hvmod, Nat.sub_zero, Nat.add_zero,
      PagingFile.mcbLbo_some (f := q.file)
        (show l + (v - Runs.startOf q.file.mcb i) < 2 ^ 32 - 1 by omega)]
    split
    · next hz => rw [hz]
    · rfl
  have hcount : mcbByteCount q.file.g left = left * q.file.g.sectorSize ∨
      (mcbByteCount q.file.g left = 2 ^ 32 - 1 ∧ left * q.file.g.sectorSize = 2 ^ 32) := by
    by_cases hbig : left * q.file.g.sectorSize < 2 ^ 32
    · exact Or.inl (PagingFile.mcbByteCount_of_lt hbig)
    · have heq : left * q.file.g.sectorSize = 2 ^ 32 := by omega
      right
      refine ⟨?_, heq⟩
      rw [mcbByteCount, heq]
      exact if_pos ⟨by simp [ulong], by omega⟩
  refine ⟨_, _, i, r, hentry, hr, hstart, by omega, ?_, by omega, fun k hk => ?_⟩
  · rcases hcount with hc | ⟨hc, -⟩
    · exact Or.inr (by omega)
    · exact Or.inl (by have := q.byteCount_lt; omega)
  · have hbyte : q.vbo + k = q.file.startByte i + (q.vbo - q.file.startByte i + k) := by omega
    have hsucc := PagingFile.startByte_succ hr
    rw [hbyte, PagingFile.diskByte_run hr hl (by omega), hvbo, PagingFile.startByte, ← Nat.sub_mul,
      ← Nat.add_assoc, ← Nat.add_mul]

end PagingRequest

end KernelDrivers.Fat
