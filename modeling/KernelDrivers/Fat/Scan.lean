import KernelDrivers.Fat.Vcb

/-!
# Scanning the FAT

`FatExamineFatEntries` walks over a range of entries, a page of the FAT at a time,
and keeps the run of equal entries (free or allocated) it is in.  When a run ends
it is counted and written to the bitmap.  It is called to set up the windows of a
FAT32 volume and to switch to a window; in the second use everything is built in a
private bitmap and only put in place at the end.

## Main definitions

* `Scan`, `scanStep`, `scanEntries` — the loop.
* `fatExamineFatEntries` — the routine, in its two uses.
* `fatSetupAllocationSupport` — the state at mount.
-/

namespace KernelDrivers.Fat

/-- The run the scan is in. -/
inductive RunType
  | freeClusters
  | allocatedClusters
  | unknownClusters
  deriving DecidableEq, Repr

/-- The variables of the scan.  `FatBuffer` is the byte `pos` of page number `page` of
the volume file; `window` is the index of `CurrentWindow`. -/
structure Scan where
  currentRun : RunType
  startIndexOfThisRun : ℕ
  page : ℕ
  pos : ℕ
  bitMap : Bitmap
  freeClusterCount : ℕ
  windows : ℕ → FatWindow
  window : ℕ

/-- What a scan is for: the range, whether it sets up the windows (and then has no
bitmap), and whether it counts free clusters. -/
structure ScanMode where
  startIndex : ℕ
  endIndex : ℕ
  setupWindows : Bool
  counting : Bool

/-- `PAGE_SIZE`. -/
def pageSize : ℕ := 4096

/-- `FatIndexBitSize >> 3`. -/
def FatWidth.bytesPerEntry : FatWidth → ℕ
  | .fat12 => 1
  | .fat16 => 2
  | .fat32 => 4

namespace Scan

/-- Count a finished run of `n` free clusters for the current window and the volume. -/
def countRun (s : Scan) (n : ℕ) : Scan :=
  { s with
    freeClusterCount := s.freeClusterCount + n
    windows := Function.update s.windows s.window
      { s.windows s.window with clustersFree := (s.windows s.window).clustersFree + n } }

/-- Count the run that ends before index `i` if it is a free one. -/
def countFreeRun (s : Scan) (i : ℕ) : Scan :=
  if s.currentRun = .freeClusters then s.countRun (i - s.startIndexOfThisRun) else s

/-- When the windows are set up and index `i` is the first of a new one: finish the
current window and start the next. -/
def nextWindow (g : Geometry) (m : ScanMode) (i : ℕ) (s : Scan) : Scan :=
  if m.setupWindows ∧ m.startIndex < i ∧ (i - 2) % g.entriesPerWindow = 0 then
    let s := s.countFreeRun i
    { s with
      currentRun := .unknownClusters
      startIndexOfThisRun := i
      window := s.window + 1
      windows := Function.update
        (Function.update s.windows s.window { s.windows s.window with lastCluster := i - 1 })
        (s.window + 1) { s.windows (s.window + 1) with clustersFree := 0, firstCluster := i } }
  else s

/-- On a page boundary the next page is mapped. -/
def nextPage (s : Scan) : Scan :=
  if s.pos % pageSize = 0 then { s with page := s.page + 1, pos := 0 } else s

/-- Read the entry at `FatBuffer` and step over it. -/
def readEntry (g : Geometry) (fat : Bytes) (i : ℕ) (s : Scan) : ℕ × Scan :=
  let o := s.nextPage.page * pageSize + s.nextPage.pos - g.reservedBytes
  match g.width with
  | .fat12 => (fatLookup12BitEntry fat i, s)
  | .fat16 => (fat.read16 o, { s.nextPage with pos := s.nextPage.pos + 2 })
  | .fat32 => (fat.read32 o &&& 0x0fffffff, { s.nextPage with pos := s.nextPage.pos + 4 })

/-- Record the run that ends before index `i`.  A scan that sets up the windows has
no bitmap; its `bitMap` is not used. -/
def endRun (m : ScanMode) (i : ℕ) (s : Scan) : Scan :=
  let n := i - s.startIndexOfThisRun
  if s.currentRun = .freeClusters then
    { (if m.counting then s.countRun n else s) with
      bitMap := s.bitMap.clearBits (s.startIndexOfThisRun - m.startIndex) n }
  else { s with bitMap := s.bitMap.setBits (s.startIndexOfThisRun - m.startIndex) n }

/-- Account for the entry of index `i`. -/
def takeEntry (m : ScanMode) (i entry : ℕ) (s : Scan) : Scan :=
  let s := if s.currentRun = .unknownClusters then
      { s with currentRun := if entry = 0 then .freeClusters else .allocatedClusters } else s
  if s.currentRun = .freeClusters ∧ entry ≠ 0 then
    { s.endRun m i with currentRun := .allocatedClusters, startIndexOfThisRun := i }
  else if s.currentRun = .allocatedClusters ∧ entry = 0 then
    { s.endRun m i with currentRun := .freeClusters, startIndexOfThisRun := i }
  else s

/-- One pass of the loop. -/
def step (g : Geometry) (fat : Bytes) (m : ScanMode) (s : Scan) (i : ℕ) : Scan :=
  let r := readEntry g fat i (if g.width = .fat12 then s else nextWindow g m i s)
  takeEntry m i r.1 r.2

/-- The variables before the loop.  On FAT12 the run is begun by entry 0, on FAT16
by entry 2 whatever the range is. -/
def start (g : Geometry) (fat : Bytes) (m : ScanMode) (v : Vcb) (window : ℕ) : Scan :=
  let first :=
    match g.width with
    | .fat12 => fatLookup12BitEntry fat 0
    | w => lookupEntry w fat (if w = .fat16 then 2 else m.startIndex)
  let o := g.reservedBytes + m.startIndex * g.width.bytesPerEntry
  { currentRun := if first = 0 then .freeClusters else .allocatedClusters
    startIndexOfThisRun := m.startIndex
    page := o / pageSize
    pos := if g.width = .fat32 then o % pageSize else g.reservedBytes % pageSize + 4
    bitMap := ⟨m.endIndex + 1 - m.startIndex, fun _ => false⟩
    freeClusterCount := v.numberOfFreeClusters
    windows := v.windows
    window := window }

end Scan

/-- The scan of a whole range. -/
def scanEntries (g : Geometry) (fat : Bytes) (m : ScanMode) (v : Vcb) (window : ℕ) : Scan :=
  ((List.range' m.startIndex (m.endIndex + 1 - m.startIndex)).foldl (Scan.step g fat m)
    (Scan.start g fat m v window)).endRun m (m.endIndex + 1)

/-- `FatExamineFatEntries` with `SetupWindows`: find the windows and their free
clusters.  One of the accesses stands for all page reads of the scan. -/
def examineSetupWindows (g : Geometry) (startIndex endIndex : ℕ) : EStateM Stop Vcb Unit := do
  Vcb.onVol access
  modify fun v =>
    let v := { v with
      windows := Function.update v.windows 0
        { v.windows 0 with firstCluster := startIndex, clustersFree := 0 } }
    let s := scanEntries g v.vol.fat ⟨startIndex, endIndex, true, true⟩ v 0
    { v with
      numberOfFreeClusters := s.freeClusterCount
      windows := Function.update s.windows s.window
        { s.windows s.window with lastCluster := endIndex } }

/-- `FatExamineFatEntries` with `SwitchToWindow`: scan window `i` and make it the
current one.  Free clusters are counted for the volume only when there is a single
window.  When the allocation of the private bitmap or a page read raises, nothing
has changed yet. -/
def fatExamineFatEntries (g : Geometry) (i : ℕ) : EStateM Stop Vcb Unit := do
  Vcb.onVol access
  modify fun v =>
    let counting := !(g.width = .fat32 ∧ 1 < g.numberOfWindows : Bool)
    let m : ScanMode := ⟨(v.windows i).firstCluster, (v.windows i).lastCluster, false, counting⟩
    let s := scanEntries g v.vol.fat m v i
    let v := { v with freeClusterBitMap := s.bitMap, currentWindow := i, clusterHint := none }
    if counting then
      { v with
        numberOfFreeClusters := s.freeClusterCount
        windows := Function.update s.windows i
          { s.windows i with clustersFree := s.freeClusterCount } }
    else v

/-- The end of `FatSetupAllocationSupport`: the hint is the first free cluster of the
window, or its first cluster. -/
def setupHint (v : Vcb) : Vcb := { v with clusterHint := some (hintFrom v.freeClusterBitMap 2) }

/-- `FatSetupAllocationSupport`, after the geometry. -/
def fatSetupAllocationSupport (g : Geometry) : EStateM Stop Vcb Unit := do
  modify fun v => { v with numberOfFreeClusters := 0 }
  if 1 < g.numberOfWindows then
    examineSetupWindows g 2 (g.numberOfClusters + 2 - 1)
    modify fun v => { v with currentWindow := fatSelectBestWindow g v }
  else
    modify fun v =>
      { v with
        currentWindow := 0
        windows := Function.update v.windows 0
          { v.windows 0 with firstCluster := 2, lastCluster := g.numberOfClusters + 2 - 1 } }
  fatExamineFatEntries g (← get).currentWindow
  modify setupHint

/-! ## What a scan finds -/

/-- The number of zero entries with an index in `[a, b)`. -/
def zeros (e : ℕ → ℕ) (a b : ℕ) : ℕ := ((Finset.Ico a b).filter fun j => e j = 0).card

theorem zeros_self (e : ℕ → ℕ) (a : ℕ) : zeros e a a = 0 := by simp [zeros]

theorem zeros_succ (e : ℕ → ℕ) {a b : ℕ} (h : a ≤ b) :
    zeros e a (b + 1) = zeros e a b + if e b = 0 then 1 else 0 := by
  rw [zeros, zeros, ← Finset.insert_Ico_right_eq_Ico_add_one h, Finset.filter_insert]
  split
  · rw [Finset.card_insert_of_notMem (by simp)]
  · rfl

namespace Scan

/-- The free clusters of the current run that are not counted yet. -/
def pending (s : Scan) (i : ℕ) : ℕ :=
  if s.currentRun = .freeClusters then i - s.startIndexOfThisRun else 0

/-- The state of the scan before index `i`. -/
structure Inv (e : ℕ → ℕ) (m : ScanMode) (base i : ℕ) (s : Scan) : Prop where
  lo : m.startIndex ≤ s.startIndexOfThisRun
  hi : s.startIndexOfThisRun ≤ i
  unknown : s.currentRun = .unknownClusters → s.startIndexOfThisRun = i
  run : ∀ j, s.startIndexOfThisRun ≤ j → j < i → (e j = 0 ↔ s.currentRun = .freeClusters)
  size : s.bitMap.size = m.endIndex + 1 - m.startIndex
  bits : m.setupWindows = false → ∀ j, m.startIndex ≤ j → j < s.startIndexOfThisRun →
    (s.bitMap.bit (j - m.startIndex) = false ↔ e j = 0)
  count : m.counting = true → s.freeClusterCount + s.pending i = base + zeros e m.startIndex i

variable {e : ℕ → ℕ} {m : ScanMode} {base i : ℕ} {s : Scan}

@[simp] theorem bitMap_endRun_size : (s.endRun m i).bitMap.size = s.bitMap.size := by
  rw [endRun]
  split <;> rfl

theorem freeClusterCount_endRun (hm : m.counting = true) :
    (s.endRun m i).freeClusterCount = s.freeClusterCount + s.pending i := by
  rw [endRun, pending, hm]
  split <;> rfl

theorem bit_endRun {j : ℕ} (hj : m.startIndex ≤ j) (hlo : m.startIndex ≤ s.startIndexOfThisRun) :
    (s.endRun m i).bitMap.bit (j - m.startIndex) =
      if s.startIndexOfThisRun ≤ j ∧ j < i then !(s.currentRun = .freeClusters : Bool)
      else s.bitMap.bit (j - m.startIndex) := by
  have hrange : s.startIndexOfThisRun - m.startIndex ≤ j - m.startIndex ∧
      j - m.startIndex < s.startIndexOfThisRun - m.startIndex + (i - s.startIndexOfThisRun) ↔
      s.startIndexOfThisRun ≤ j ∧ j < i := by omega
  rw [endRun]
  split
  · next hrun =>
      simp only [Bitmap.bit_clearBits, hrange, hrun]
      simp
  · next hrun =>
      simp only [Bitmap.bit_setBits, hrange, hrun]
      simp

/-- Ending the run before `i` leaves every bit below `i` right. -/
theorem Inv.bit_endRun (h : Inv e m base i s) (hm : m.setupWindows = false) {j : ℕ}
    (hj : m.startIndex ≤ j) (hji : j < i) :
    (s.endRun m i).bitMap.bit (j - m.startIndex) = false ↔ e j = 0 := by
  rw [Scan.bit_endRun hj h.lo]
  split
  · next hin =>
      rw [h.run j hin.1 hin.2]
      simp
  · next hout => exact h.bits hm j hj (by omega)

/-- The kind of run an entry belongs to. -/
def runOf (entry : ℕ) : RunType := if entry = 0 then .freeClusters else .allocatedClusters

theorem runOf_eq_free {entry : ℕ} : runOf entry = .freeClusters ↔ entry = 0 := by
  rw [runOf]
  split <;> simp_all

/-- An entry continues the run it belongs to, or ends the run and begins the next. -/
theorem takeEntry_eq (m : ScanMode) (i entry : ℕ) (s : Scan) :
    takeEntry m i entry s =
      if s.currentRun = .unknownClusters ∨ s.currentRun = runOf entry then
        { s with currentRun := runOf entry }
      else { s.endRun m i with currentRun := runOf entry, startIndexOfThisRun := i } := by
  rcases s with ⟨run, start, page, pos, bitMap, count, windows, window⟩
  by_cases he : entry = 0
  · cases run <;> simp [takeEntry, runOf, he]
  · cases run <;> simp [takeEntry, runOf, he]

/-- One entry extends the invariant. -/
theorem Inv.takeEntry (h : Inv e m base i s) (hstart : m.startIndex ≤ i) :
    Inv e m base (i + 1) (takeEntry m i (e i) s) := by
  have hzeros := zeros_succ e hstart
  have hpend : ∀ t : Scan, t.currentRun = runOf (e i) →
      t.pending (i + 1) = if e i = 0 then i + 1 - t.startIndexOfThisRun else 0 := by
    intro t ht
    simp only [pending, ht, runOf_eq_free]
  rw [takeEntry_eq]
  split
  · next hsame =>
      refine ⟨h.lo, by have := h.hi; dsimp only; omega, fun hu => ?_, fun j hj hji => ?_, h.size,
        h.bits, fun hm => ?_⟩
      · rw [runOf] at hu
        split at hu <;> simp at hu
      · rw [runOf_eq_free]
        dsimp only at hj
        rcases Nat.lt_succ_iff_lt_or_eq.mp hji with hlt | heq
        · rcases hsame with hu | hu
          · exact absurd (h.unknown hu) (by omega)
          · rw [h.run j hj hlt, hu, runOf_eq_free]
        · rw [heq]
      · have hcount := h.count hm
        have hhi := h.hi
        rw [hpend _ rfl, hzeros]
        dsimp only
        rcases hsame with hu | hu
        · have := h.unknown hu
          rw [pending, hu, if_neg (by simp)] at hcount
          split <;> omega
        · rw [pending, hu] at hcount
          simp only [runOf_eq_free] at hcount
          split at hcount <;> split <;> omega
  · next hdiff =>
      rw [not_or] at hdiff
      refine ⟨hstart, by dsimp only; omega, fun hu => ?_, fun j hj hji => ?_, ?_,
        fun hm j hj hji => h.bit_endRun hm hj hji, fun hm => ?_⟩
      · rw [runOf] at hu
        split at hu <;> simp at hu
      · dsimp only at hj ⊢
        rw [runOf_eq_free, show j = i by omega]
      · exact bitMap_endRun_size.trans h.size
      · have hcount := h.count hm
        rw [hpend _ rfl, hzeros]
        dsimp only
        rw [freeClusterCount_endRun hm]
        split <;> omega

/-- The invariant does not depend on where the scan reads. -/
theorem Inv.move (h : Inv e m base i s) (page pos : ℕ) :
    Inv e m base i { s with page := page, pos := pos } :=
  ⟨h.lo, h.hi, h.unknown, h.run, h.size, h.bits, h.count⟩

/-- `FatBuffer` is at entry `i`, and not at the start of a page that is already
mapped. -/
def PtrAt (g : Geometry) (i : ℕ) (s : Scan) : Prop :=
  g.width ≠ .fat12 →
    s.page * pageSize + s.pos = g.reservedBytes + i * g.width.bytesPerEntry ∧
      0 < s.pos ∧ s.pos ≤ pageSize

theorem nextPage_spec {o : ℕ} (hsum : s.page * pageSize + s.pos = o) (hpos : 0 < s.pos)
    (hle : s.pos ≤ pageSize) : ∃ page pos, s.nextPage = { s with page := page, pos := pos } ∧
      page * pageSize + pos = o ∧ pos < pageSize := by
  have hsize : pageSize = 4096 := rfl
  rw [nextPage]
  by_cases hpage : s.pos % pageSize = 0
  · rw [if_pos hpage]
    have hpos : s.pos = pageSize := by
      rw [hsize] at hle hpage ⊢
      omega
    exact ⟨s.page + 1, 0, rfl, by rw [← hsum, hpos, Nat.add_mul, Nat.one_mul, Nat.add_zero],
      by omega⟩
  · rw [if_neg hpage]
    refine ⟨s.page, s.pos, rfl, hsum, ?_⟩
    rw [hsize] at hle hpage ⊢
    omega

/-- Read through the page window, the entries come one after the other. -/
theorem readEntry_spec {g : Geometry} (fat : Bytes) (h : PtrAt g i s) :
    ∃ page pos, readEntry g fat i s =
        (lookupEntry g.width fat i, { s with page := page, pos := pos }) ∧
      PtrAt g (i + 1) { s with page := page, pos := pos } := by
  obtain ⟨k, hk⟩ := g.reserved_dvd
  cases hw : g.width with
  | fat12 =>
      refine ⟨s.page, s.pos, ?_, fun hne => absurd hw hne⟩
      rw [readEntry, hw]
      rfl
  | fat16 =>
      obtain ⟨hsum, hpos, hle⟩ := h (by simp [hw])
      obtain ⟨page, pos, heq, hsum', hlt⟩ := nextPage_spec hsum hpos hle
      rw [hw, FatWidth.bytesPerEntry] at hsum'
      refine ⟨page, pos + 2, ?_, fun _ => ?_⟩
      · rw [readEntry, hw, heq]
        simp only [hsum', Nat.add_sub_cancel_left, lookupEntry]
      · rw [hw, FatWidth.bytesPerEntry]
        simp only [pageSize] at *
        omega
  | fat32 =>
      obtain ⟨hsum, hpos, hle⟩ := h (by simp [hw])
      obtain ⟨page, pos, heq, hsum', hlt⟩ := nextPage_spec hsum hpos hle
      rw [hw, FatWidth.bytesPerEntry] at hsum'
      refine ⟨page, pos + 4, ?_, fun _ => ?_⟩
      · rw [readEntry, hw, heq]
        simp only [hsum', Nat.add_sub_cancel_left, lookupEntry]
      · rw [hw, FatWidth.bytesPerEntry]
        simp only [pageSize] at *
        omega

/-- Accounting for an entry does not move the scan. -/
theorem takeEntry_ptr (m : ScanMode) (i entry : ℕ) (s : Scan) :
    (takeEntry m i entry s).page = s.page ∧ (takeEntry m i entry s).pos = s.pos := by
  rw [takeEntry_eq]
  split
  · exact ⟨rfl, rfl⟩
  · rw [endRun]
    split
    · cases m.counting <;> exact ⟨rfl, rfl⟩
    · exact ⟨rfl, rfl⟩

/-- The bounds of the windows and the choice of the current one are those of `t`. -/
def SameBounds (t s : Scan) : Prop :=
  s.window = t.window ∧ ∀ k, (s.windows k).firstCluster = (t.windows k).firstCluster ∧
    (s.windows k).lastCluster = (t.windows k).lastCluster

theorem SameBounds.refl (s : Scan) : SameBounds s s := ⟨rfl, fun _ => ⟨rfl, rfl⟩⟩

theorem SameBounds.trans {s t u : Scan} (h : SameBounds s t) (h' : SameBounds t u) :
    SameBounds s u :=
  ⟨h'.1.trans h.1, fun k => ⟨(h'.2 k).1.trans (h.2 k).1, (h'.2 k).2.trans (h.2 k).2⟩⟩

theorem sameBounds_countRun (s : Scan) (n : ℕ) : SameBounds s (s.countRun n) := by
  refine ⟨rfl, fun k => ?_⟩
  rw [countRun]
  by_cases hk : k = s.window
  · subst hk
    simp
  · simp [Function.update_of_ne hk]

theorem sameBounds_endRun (m : ScanMode) (i : ℕ) (s : Scan) : SameBounds s (s.endRun m i) := by
  rw [endRun]
  split
  · cases m.counting with
    | true => exact sameBounds_countRun s _
    | false => exact SameBounds.refl s
  · exact SameBounds.refl s

theorem sameBounds_takeEntry (m : ScanMode) (i entry : ℕ) (s : Scan) :
    SameBounds s (takeEntry m i entry s) := by
  rw [takeEntry_eq]
  split
  · exact SameBounds.refl s
  · exact sameBounds_endRun m i s

/-- A pass that does not start a new window. -/
theorem step_spec {g : Geometry} (fat : Bytes) (hm : m.setupWindows = false)
    (hstart : m.startIndex ≤ i)
    (h : Inv (lookupEntry g.width fat) m base i s ∧ PtrAt g i s) :
    (Inv (lookupEntry g.width fat) m base (i + 1) (step g fat m s i) ∧
      PtrAt g (i + 1) (step g fat m s i)) ∧ SameBounds s (step g fat m s i) := by
  have hnext : nextWindow g m i s = s := by rw [nextWindow, if_neg (by simp [hm])]
  obtain ⟨page, pos, hread, hptr⟩ := readEntry_spec fat h.2
  rw [step, hnext, ite_self, hread]
  refine ⟨⟨(h.1.move page pos).takeEntry hstart, fun hne => ?_⟩, ?_⟩
  · rw [(takeEntry_ptr _ _ _ _).1, (takeEntry_ptr _ _ _ _).2]
    exact hptr hne
  · exact sameBounds_takeEntry m i _ { s with page := page, pos := pos }

/-- The invariant holds before the loop. -/
theorem inv_start (g : Geometry) (fat : Bytes) (m : ScanMode) (v : Vcb) (window : ℕ) :
    Inv e m v.numberOfFreeClusters m.startIndex (start g fat m v window) := by
  refine ⟨le_rfl, le_rfl, fun _ => rfl, fun j hj hji => absurd hji (by
    simp only [start] at hj; omega), rfl, fun _ j hj hji => absurd hji (by
    simp only [start]; omega), fun _ => ?_⟩
  rw [zeros_self, pending]
  simp [start]

/-- The scan does not begin at the start of a page: the first entry of a window is
eight bytes behind a multiple of 32. -/
theorem ptrAt_start {g : Geometry} (fat : Bytes) {m : ScanMode} (v : Vcb) (window : ℕ)
    (h16 : g.width = .fat16 → m.startIndex = 2)
    (h32 : g.width = .fat32 → m.startIndex % 8 = 2) :
    PtrAt g m.startIndex (start g fat m v window) := by
  obtain ⟨k, hk⟩ := g.reserved_dvd
  intro hne
  cases hw : g.width with
  | fat12 => exact absurd hw hne
  | fat16 =>
      have h2 := h16 hw
      simp only [start, hw, FatWidth.bytesPerEntry, h2, pageSize, reduceCtorEq, if_false]
      omega
  | fat32 =>
      have h2 := h32 hw
      simp only [start, hw, FatWidth.bytesPerEntry, pageSize, if_true]
      omega

end Scan

/-- A scan for a bitmap that begins anywhere. -/
theorem scan_spec {g : Geometry} (fat : Bytes) {m : ScanMode} {base : ℕ} {s0 : Scan}
    (hm : m.setupWindows = false) (hle : m.startIndex ≤ m.endIndex + 1)
    (hinv : Scan.Inv (lookupEntry g.width fat) m base m.startIndex s0)
    (hptr : Scan.PtrAt g m.startIndex s0) :
    let s := ((List.range' m.startIndex (m.endIndex + 1 - m.startIndex)).foldl
      (Scan.step g fat m) s0).endRun m (m.endIndex + 1)
    s.bitMap.size = m.endIndex + 1 - m.startIndex ∧
      (∀ j < m.endIndex + 1 - m.startIndex,
        (s.bitMap.bit j = false ↔ lookupEntry g.width fat (m.startIndex + j) = 0)) ∧
      (m.counting = true → s.freeClusterCount = base +
        zeros (lookupEntry g.width fat) m.startIndex (m.endIndex + 1)) ∧
      Scan.SameBounds s0 s := by
  have hloop := foldl_range'_invariant (f := Scan.step g fat m)
    (a := s0) (s := m.startIndex) (n := m.endIndex + 1 - m.startIndex)
    (fun i s => (Scan.Inv (lookupEntry g.width fat) m base i s ∧
      Scan.PtrAt g i s) ∧ Scan.SameBounds s0 s)
    ⟨⟨hinv, hptr⟩, Scan.SameBounds.refl _⟩
    (fun i s hi _ h => by
      obtain ⟨hinv, hbounds⟩ := Scan.step_spec fat hm hi h.1
      exact ⟨hinv, h.2.trans hbounds⟩)
  rw [Nat.add_sub_cancel' hle] at hloop
  obtain ⟨⟨hinv, -⟩, hbounds⟩ := hloop
  refine ⟨Scan.bitMap_endRun_size.trans hinv.size, fun j hj => ?_, fun hc => ?_, ?_⟩
  · have := hinv.bit_endRun hm (j := m.startIndex + j) (by omega) (by omega)
    rwa [Nat.add_sub_cancel_left] at this
  · exact (Scan.freeClusterCount_endRun hc).trans (hinv.count hc)
  · exact hbounds.trans (Scan.sameBounds_endRun m _ _)

/-- **A scan for a bitmap** finds the zero entries of its range, and counts them when
it counts. -/
theorem scanEntries_spec {g : Geometry} (fat : Bytes) {m : ScanMode} (v : Vcb) (window : ℕ)
    (hm : m.setupWindows = false) (hle : m.startIndex ≤ m.endIndex + 1)
    (h16 : g.width = .fat16 → m.startIndex = 2)
    (h32 : g.width = .fat32 → m.startIndex % 8 = 2) :
    let s := scanEntries g fat m v window
    s.bitMap.size = m.endIndex + 1 - m.startIndex ∧
      (∀ j < m.endIndex + 1 - m.startIndex,
        (s.bitMap.bit j = false ↔ lookupEntry g.width fat (m.startIndex + j) = 0)) ∧
      (m.counting = true → s.freeClusterCount = v.numberOfFreeClusters +
        zeros (lookupEntry g.width fat) m.startIndex (m.endIndex + 1)) ∧
      ∀ k, (s.windows k).firstCluster = (v.windows k).firstCluster ∧
        (s.windows k).lastCluster = (v.windows k).lastCluster := by
  obtain ⟨hsize, hbit, hcount, hbounds⟩ := scan_spec fat hm hle
    (Scan.inv_start g fat m v window) (Scan.ptrAt_start fat v window h16 h32)
  exact ⟨hsize, hbit, hcount, hbounds.2⟩

/-! ## Setting up the windows -/

namespace Scan

variable {e : ℕ → ℕ} {m : ScanMode} {i : ℕ} {s : Scan}

theorem windows_countRun_of_ne (s : Scan) (n : ℕ) {k : ℕ} (hk : k ≠ s.window) :
    (s.countRun n).windows k = s.windows k := Function.update_of_ne hk _ _

theorem clustersFree_countRun (s : Scan) (n : ℕ) :
    ((s.countRun n).windows s.window).clustersFree = (s.windows s.window).clustersFree + n := by
  simp [countRun]

/-- Ending a run counts what was pending for the current window, and for no other. -/
theorem windows_endRun (hm : m.counting = true) (s : Scan) (i : ℕ) :
    ((s.endRun m i).windows s.window).clustersFree =
        (s.windows s.window).clustersFree + s.pending i ∧
      ∀ k, k ≠ s.window → (s.endRun m i).windows k = s.windows k := by
  rw [endRun, pending, hm]
  split
  · exact ⟨clustersFree_countRun s _, fun k hk => windows_countRun_of_ne s _ hk⟩
  · exact ⟨rfl, fun k _ => rfl⟩

/-- An entry adds itself to what is counted or pending for the current window. -/
theorem windows_takeEntry (hm : m.counting = true) (hhi : s.startIndexOfThisRun ≤ i)
    (hunknown : s.currentRun = .unknownClusters → s.startIndexOfThisRun = i) (entry : ℕ) :
    ((takeEntry m i entry s).windows s.window).clustersFree + (takeEntry m i entry s).pending (i + 1)
        = (s.windows s.window).clustersFree + s.pending i + (if entry = 0 then 1 else 0) ∧
      ∀ k, k ≠ s.window → (takeEntry m i entry s).windows k = s.windows k := by
  have hpend : ∀ t : Scan, t.currentRun = runOf entry →
      t.pending (i + 1) = if entry = 0 then i + 1 - t.startIndexOfThisRun else 0 := by
    intro t ht
    simp only [pending, ht, runOf_eq_free]
  rw [takeEntry_eq]
  split
  · next hsame =>
      refine ⟨?_, fun k _ => rfl⟩
      rw [hpend _ rfl]
      dsimp only
      rcases hsame with hu | hu
      · have hstart := hunknown hu
        have hnone : s.pending i = 0 := by simp [pending, hu]
        rw [hnone]
        split <;> omega
      · rw [pending, hu]
        simp only [runOf_eq_free]
        split <;> omega
  · obtain ⟨hfree, hother⟩ := windows_endRun hm s i
    refine ⟨?_, hother⟩
    rw [hpend _ rfl]
    dsimp only
    rw [hfree]
    split <;> omega

theorem countFreeRun_spec (s : Scan) (i : ℕ) :
    (s.countFreeRun i).freeClusterCount = s.freeClusterCount + s.pending i ∧
      ((s.countFreeRun i).windows s.window).clustersFree =
        (s.windows s.window).clustersFree + s.pending i ∧
      (∀ k, k ≠ s.window → (s.countFreeRun i).windows k = s.windows k) ∧
      (s.countFreeRun i).page = s.page ∧ (s.countFreeRun i).pos = s.pos ∧
      (s.countFreeRun i).bitMap = s.bitMap ∧ SameBounds s (s.countFreeRun i) := by
  rw [countFreeRun, pending]
  split
  · exact ⟨rfl, clustersFree_countRun s _, fun k hk => windows_countRun_of_ne s _ hk, rfl, rfl, rfl,
      sameBounds_countRun s _⟩
  · exact ⟨rfl, rfl, fun _ _ => rfl, rfl, rfl, rfl, SameBounds.refl s⟩

/-- The state of the set-up scan before index `i`, or, when `i` is the first index of a
window, right after the step into it. -/
structure SetupInv (g : Geometry) (e : ℕ → ℕ) (m : ScanMode) (i : ℕ) (s : Scan) : Prop where
  inv : Inv e m 0 i s
  ptr : PtrAt g i s
  window_le : g.firstOf s.window ≤ i
  le_window : i ≤ g.firstOf (s.window + 1)
  first : (s.windows s.window).firstCluster = g.firstOf s.window
  free : (s.windows s.window).clustersFree + s.pending i = zeros e (g.firstOf s.window) i
  done : ∀ k < s.window, (s.windows k).firstCluster = g.firstOf k ∧
    (s.windows k).lastCluster + 1 = g.firstOf (k + 1) ∧
    (s.windows k).clustersFree = zeros e (g.firstOf k) (g.firstOf (k + 1))

theorem firstOf_succ (g : Geometry) (k : ℕ) : g.firstOf (k + 1) = g.firstOf k + g.entriesPerWindow := by
  rw [Geometry.firstOf, Geometry.firstOf]
  ring

/-- The step into a new window. -/
theorem SetupInv.nextWindow {g : Geometry} (h : SetupInv g e m i s) (hm : m.setupWindows = true)
    (hstart : m.startIndex = 2) (hwin : 0 < g.entriesPerWindow)
    (hstrict : i = 2 ∨ g.firstOf s.window < i) :
    SetupInv g e m i (nextWindow g m i s) ∧
      i < g.firstOf ((nextWindow g m i s).window + 1) := by
  have hsucc := firstOf_succ g s.window
  have hle := h.le_window
  have hge := h.window_le
  have h2 := g.two_le_firstOf s.window
  rw [Scan.nextWindow]
  split
  · next hnew =>
      obtain ⟨-, h2i, hmod⟩ := hnew
      obtain ⟨q, hq⟩ := Nat.dvd_of_mod_eq_zero hmod
      have hi : i = g.firstOf (s.window + 1) := by
        have hlt : g.firstOf s.window < i := by omega
        rw [Geometry.firstOf] at hlt hle ⊢
        have hlo : s.window < q := Nat.lt_of_mul_lt_mul_left (a := g.entriesPerWindow) (by omega)
        have hhi : q ≤ s.window + 1 := Nat.le_of_mul_le_mul_left (by omega) hwin
        rw [show q = s.window + 1 by omega] at hq
        omega
      obtain ⟨hcount, hfree, hother, hpage, hpos, hbitMap, hwindow, hbounds⟩ := s.countFreeRun_spec i
      have hnone : ∀ t : Scan, t.currentRun = .unknownClusters → t.pending i = 0 := by
        intro t ht
        simp [pending, ht]
      have hinv : ∀ t : Scan, t.currentRun = .unknownClusters → t.startIndexOfThisRun = i →
          t.bitMap = (s.countFreeRun i).bitMap →
          t.freeClusterCount = (s.countFreeRun i).freeClusterCount → Inv e m 0 i t := by
        intro t ht hti htb htc
        refine ⟨by omega, by omega, fun _ => hti, fun j hj hji => by omega,
          by rw [htb, hbitMap]; exact h.inv.size, fun hf => by simp [hm] at hf, fun hc => ?_⟩
        rw [htc, hcount, hnone t ht]
        exact h.inv.count hc
      refine ⟨⟨hinv _ rfl rfl rfl rfl, ?_, ?_, ?_, ?_, ?_, ?_⟩, ?_⟩
      · intro hne
        dsimp only
        rw [hpage, hpos]
        exact h.ptr hne
      · dsimp only
        rw [hwindow]
        exact hi.ge
      · dsimp only
        rw [hwindow, firstOf_succ, ← hi]
        omega
      · dsimp only
        rw [Function.update_self, hwindow]
        exact hi
      · dsimp only
        rw [Function.update_self, hnone _ rfl, hwindow, ← hi, zeros_self]
      · intro k hk
        dsimp only at hk ⊢
        rw [hwindow] at hk ⊢
        rw [Function.update_of_ne (by omega)]
        by_cases hks : k = s.window
        · subst hks
          rw [Function.update_self]
          refine ⟨(hbounds _).1.trans h.first, by dsimp only; omega, ?_⟩
          dsimp only
          rw [hfree, h.free, ← hi]
        · rw [Function.update_of_ne hks, hother k hks]
          exact h.done k (by omega)
      · dsimp only
        rw [hwindow, firstOf_succ, ← hi]
        omega
  · next hold =>
      refine ⟨h, ?_⟩
      rcases hstrict with h2i | hlt
      · omega
      · refine lt_of_le_of_ne hle fun heq => hold ⟨hm, by omega, ?_⟩
        rw [heq, Geometry.firstOf, Nat.add_sub_cancel_left, Nat.mul_mod_right]

/-- A pass of the set-up scan. -/
theorem SetupInv.step {g : Geometry} {fat : Bytes}
    (h : SetupInv g (lookupEntry g.width fat) m i s) (hm : m.setupWindows = true)
    (hc : m.counting = true) (hstart : m.startIndex = 2) (hwin : 0 < g.entriesPerWindow)
    (h12 : g.width ≠ .fat12) (hi : 2 ≤ i) (hstrict : i = 2 ∨ g.firstOf s.window < i) :
    SetupInv g (lookupEntry g.width fat) m (i + 1) (step g fat m s i) ∧
      g.firstOf (step g fat m s i).window < i + 1 := by
  obtain ⟨hnext, hlt⟩ := h.nextWindow hm hstart hwin hstrict
  obtain ⟨page, pos, hread, hptr⟩ := readEntry_spec fat hnext.ptr
  rw [Scan.step, if_neg h12, hread]
  generalize Scan.nextWindow g m i s = t at *
  have hbounds := sameBounds_takeEntry m i (lookupEntry g.width fat i)
    { t with page := page, pos := pos }
  have hmove := hnext.inv.move page pos
  obtain ⟨hfree, hother⟩ := windows_takeEntry hc hmove.hi hmove.unknown (lookupEntry g.width fat i)
  have hge := hnext.window_le
  have hzeros := zeros_succ (lookupEntry g.width fat) hge
  dsimp only
  refine ⟨⟨hmove.takeEntry (by omega), fun hne => ?_, ?_, ?_, ?_, ?_, ?_⟩, ?_⟩
  · rw [(takeEntry_ptr _ _ _ _).1, (takeEntry_ptr _ _ _ _).2]
    exact hptr hne
  · rw [hbounds.1]
    exact hge.trans (Nat.le_succ i)
  · rw [hbounds.1]
    exact hlt
  · rw [(hbounds.2 _).1, hbounds.1]
    exact hnext.first
  · have hold := hnext.free
    rw [hbounds.1]
    dsimp only at hfree ⊢
    rw [hzeros, ← hold]
    exact hfree
  · intro k hk
    rw [hbounds.1] at hk
    dsimp only at hk
    rw [hother k (by dsimp only; omega)]
    exact hnext.done k hk
  · rw [hbounds.1]
    dsimp only
    omega

end Scan

/-- **The set-up scan** finds the bounds and the free clusters of every window. -/
theorem scanEntries_setup {g : Geometry} (fat : Bytes) (v : Vcb) (hmany : 1 < g.numberOfWindows)
    (hfirst : (v.windows 0).firstCluster = 2) (hfree : (v.windows 0).clustersFree = 0)
    (hzero : v.numberOfFreeClusters = 0) :
    let s := scanEntries g fat ⟨2, g.numberOfClusters + 1, true, true⟩ v 0
    s.freeClusterCount = zeros (lookupEntry g.width fat) 2 (g.numberOfClusters + 2) ∧
      s.window = g.numberOfWindows - 1 ∧
      (s.windows s.window).firstCluster = g.firstOf s.window ∧
      (s.windows s.window).clustersFree =
        zeros (lookupEntry g.width fat) (g.firstOf s.window) (g.endOf s.window) ∧
      ∀ k < s.window, (s.windows k).firstCluster = g.firstOf k ∧
        (s.windows k).lastCluster + 1 = g.endOf k ∧
        (s.windows k).clustersFree = zeros (lookupEntry g.width fat) (g.firstOf k) (g.endOf k) := by
  have hw32 := (Geometry.one_lt_numberOfWindows_iff.mp hmany).1
  have hW := Geometry.entriesPerWindow_of_many hmany
  have hWpos : 0 < g.entriesPerWindow := by rw [hW]; norm_num [maxClusterBitmapSize]
  obtain ⟨hlast, hcover⟩ := Geometry.numberOfWindows_of_many hmany
  set m : ScanMode := ⟨2, g.numberOfClusters + 1, true, true⟩
  have hinit : Scan.SetupInv g (lookupEntry g.width fat) m 2 (Scan.start g fat m v 0) := by
    refine ⟨?_, Scan.ptrAt_start fat v 0 (fun _ => rfl) (fun _ => rfl), Geometry.firstOf_zero.le, ?_,
      hfirst.trans Geometry.firstOf_zero.symm, ?_, fun k hk => absurd hk (Nat.not_lt_zero k)⟩
    · have := Scan.inv_start (e := lookupEntry g.width fat) g fat m v 0
      rwa [hzero] at this
    · exact g.two_le_firstOf _
    · have hpend : (Scan.start g fat m v 0).pending 2 = 0 := by simp [Scan.pending, Scan.start, m]
      rw [hpend]
      change (v.windows 0).clustersFree + 0 = zeros _ (g.firstOf 0) 2
      rw [hfree, Geometry.firstOf_zero, zeros_self]
  have hloop := foldl_range'_invariant (f := Scan.step g fat m) (a := Scan.start g fat m v 0)
    (s := 2) (n := g.numberOfClusters + 1 + 1 - 2)
    (fun i s => Scan.SetupInv g (lookupEntry g.width fat) m i s ∧
      (i = 2 ∨ g.firstOf s.window < i)) ⟨hinit, Or.inl rfl⟩
    (fun i s hi _ h => by
      obtain ⟨hinv, hlt⟩ := h.1.step rfl rfl rfl hWpos (by rw [hw32]; simp) hi h.2
      exact ⟨hinv, Or.inr hlt⟩)
  have hend : 2 + (g.numberOfClusters + 1 + 1 - 2) = g.numberOfClusters + 2 := by omega
  rw [hend] at hloop
  obtain ⟨hinv, hstrict⟩ := hloop
  intro s
  have hbounds := Scan.sameBounds_endRun m (m.endIndex + 1) ((List.range' 2
    (g.numberOfClusters + 1 + 1 - 2)).foldl (Scan.step g fat m) (Scan.start g fat m v 0))
  obtain ⟨hcur, hother⟩ := Scan.windows_endRun (m := m) rfl ((List.range' 2
    (g.numberOfClusters + 1 + 1 - 2)).foldl (Scan.step g fat m) (Scan.start g fat m v 0))
    (m.endIndex + 1)
  have hcount := Scan.freeClusterCount_endRun (m := m) (i := m.endIndex + 1) (s := (List.range' 2
    (g.numberOfClusters + 1 + 1 - 2)).foldl (Scan.step g fat m) (Scan.start g fat m v 0)) rfl
  change Scan.SameBounds _ s at hbounds
  change (s.windows _).clustersFree = _ at hcur
  change ∀ k, _ → s.windows k = _ at hother
  change s.freeClusterCount = _ at hcount
  generalize (List.range' 2 (g.numberOfClusters + 1 + 1 - 2)).foldl (Scan.step g fat m)
    (Scan.start g fat m v 0) = t at *
  have hwindow : t.window = g.numberOfWindows - 1 := by
    have hlo : g.entriesPerWindow * t.window < g.numberOfClusters := by
      have hwle := hinv.window_le
      rcases hstrict with h2 | hlt
      · have := (Geometry.one_lt_numberOfWindows_iff.mp hmany).2
        omega
      · rw [Geometry.firstOf] at hlt
        omega
    have hhi : g.numberOfClusters ≤ g.entriesPerWindow * (t.window + 1) := by
      have := hinv.le_window
      rw [Geometry.firstOf] at this
      omega
    rw [hW] at hlo hhi
    simp only [maxClusterBitmapSize] at *
    omega
  have hendLast := g.endOf_last (i := g.numberOfWindows - 1) (by omega)
  refine ⟨?_, hbounds.1.trans hwindow, ?_, ?_, fun k hk => ?_⟩
  · rw [hcount, hinv.inv.count rfl, Nat.zero_add]
  · rw [(hbounds.2 _).1, hbounds.1]
    exact hinv.first
  · rw [hbounds.1, hcur, hwindow, hendLast, ← hwindow]
    exact hinv.free
  · rw [hbounds.1] at hk
    rw [hother k (by omega), Geometry.endOf_eq_firstOf_succ (by omega)]
    exact hinv.done k hk

end KernelDrivers.Fat
