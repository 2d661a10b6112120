import KernelDrivers.Fat.Accounting

/-!
# The volume bitmap

`FatExamineFatEntries` has a third use: it fills a bitmap of the caller for a range of clusters.
`FatGetVolumeBitmap` asks for it when the volume has several windows, and copies the bitmap of the
window when there is only one.  The memory that a bitmap is built in is not initialised, so every
bit of the range has to be written.

## Main definitions

* `examineBitMap` — `FatExamineFatEntries` with a bitmap of the caller.
* `fatGetVolumeBitmap` — the request.
* `CallerRange` — the ranges that a bitmap is built for.

## Main results

* `scanInto_spec` — a scan writes every bit of its range.
* `scanned_eq_entries` — bitmaps, windows and reported bitmaps are those of the entries.
-/

namespace KernelDrivers.Fat

variable {g : Geometry} {v : Vcb}

/-! ## The request -/

/-- The scan of a range into memory with the bits `buffer`. -/
def scanInto (g : Geometry) (fat : Bytes) (m : ScanMode) (v : Vcb) (window : ℕ)
    (buffer : ℕ → Bool) : Scan :=
  ((List.range' m.startIndex (m.endIndex + 1 - m.startIndex)).foldl (Scan.step g fat m)
    { Scan.start g fat m v window with
      bitMap := ⟨m.endIndex + 1 - m.startIndex, buffer⟩ }).endRun m (m.endIndex + 1)

/-- `FatExamineFatEntries` with `BitMapBuffer`.  What a page read that raises leaves in the buffer
is not returned. -/
def examineBitMap (g : Geometry) (startIndex endIndex : ℕ) (buffer : ℕ → Bool) :
    EStateM Stop Vcb (ℕ → Bool) := do
  Vcb.onVol access
  let v ← get
  return (scanInto g v.vol.fat ⟨startIndex, endIndex, false, false⟩ v v.currentWindow buffer).bitMap.bit

/-- The parameters of the request.  `startingLcn` is the 64-bit value of the input buffer and
`buffer` the bits that are in the output buffer. -/
structure BitmapRequest where
  userVolumeOpen : Bool
  manageVolumeAccess : Bool
  inputBufferLength : ℕ
  outputBufferLength : ℕ
  startingLcn : ℕ
  buffer : ℕ → Bool

/-- The statuses of the request. -/
inductive BitmapStatus
  | success
  | bufferOverflow
  | bufferTooSmall
  | invalidParameter
  deriving DecidableEq, Repr

/-- `VOLUME_BITMAP_BUFFER`, with the number of bytes of `Buffer` that are returned. -/
structure VolumeBitmap where
  startingLcn : ℕ
  bitmapSize : ℕ
  buffer : ℕ → Bool
  bytesToCopy : ℕ

/-- `RtlCopyMemory` of whole bytes of the window's bitmap. -/
def copyBitMap (b : Bitmap) (startingCluster bytesToCopy : ℕ) (buffer : ℕ → Bool) (j : ℕ) : Bool :=
  if j < bytesToCopy * 8 then b.bit (startingCluster + j) else buffer j

/-- The bits that are reported.  Cluster numbers of the request begin at zero, those of the file
heap at two. -/
def reportedBits (g : Geometry) (startingCluster bytesToCopy : ℕ) (buffer : ℕ → Bool) :
    EStateM Stop Vcb (ℕ → Bool) := do
  if g.numberOfWindows = 1 then
    return copyBitMap (← get).freeClusterBitMap startingCluster bytesToCopy buffer
  else
    let endingCluster := ulong (startingCluster + bytesToCopy * 8)
    let endingCluster :=
      if g.numberOfClusters < endingCluster then g.numberOfClusters else endingCluster
    examineBitMap g (startingCluster + 2) (endingCluster + 2 - 1) buffer

/-- `FatGetVolumeBitmap`.  The fixed part of the output buffer is 16 bytes long, and 24 with the
first byte of the bitmap and its alignment. -/
def fatGetVolumeBitmap (g : Geometry) (q : BitmapRequest) :
    EStateM Stop Vcb (BitmapStatus × Option VolumeBitmap) := do
  if !q.userVolumeOpen ∨ !q.manageVolumeAccess then
    return (.invalidParameter, none)
  else if q.inputBufferLength < 8 ∨ q.outputBufferLength < 24 then
    return (.bufferTooSmall, none)
  else if 2 ^ 32 ≤ q.startingLcn ∨ g.numberOfClusters ≤ q.startingLcn then
    return (.invalidParameter, none)
  else
    let startingCluster := q.startingLcn / 8 * 8
    let desiredClusters := g.numberOfClusters - startingCluster
    let room := q.outputBufferLength - 16
    let bytes := ulong (desiredClusters + 7) / 8
    let bytesToCopy := if room < bytes then room else bytes
    let bits ← reportedBits g startingCluster bytesToCopy q.buffer
    return (if room < bytes then .bufferOverflow else .success,
      some ⟨startingCluster, desiredClusters, bits, bytesToCopy⟩)

/-! ## What a scan writes -/

/-- The ranges for which a bitmap is built: a window, and what `FatGetVolumeBitmap` asks for on a
volume with several windows. -/
inductive CallerRange (g : Geometry) : ℕ → ℕ → Prop
  | window {i : ℕ} : i < g.numberOfWindows → CallerRange g (g.firstOf i) (g.endOf i - 1)
  | volumeBitmap {c n : ℕ} : 1 < g.numberOfWindows → 8 * c < g.numberOfClusters →
      CallerRange g (8 * c + 2) (min (8 * c + n * 8) g.numberOfClusters + 2 - 1)

/-- What the first entry read and the scan's page window need. -/
theorem CallerRange.spec {s e : ℕ} (h : CallerRange g s e) :
    s ≤ e + 1 ∧ (g.width = .fat16 → s = 2) ∧ (g.width = .fat32 → s % 8 = 2) := by
  have hmod : ∀ i, g.width = .fat32 → i < g.numberOfWindows → g.firstOf i % 8 = 2 := by
    intro i hw hi
    by_cases hmany : 1 < g.numberOfWindows
    · exact Geometry.firstOf_mod_of_many hmany i
    · rw [show i = 0 by omega, g.firstOf_zero]
  cases h with
  | @window i hi =>
      have hle := Geometry.firstOf_le_endOf hi
      refine ⟨by omega, fun hw => ?_, fun hw => hmod i hw hi⟩
      have hone : ¬ 1 < g.numberOfWindows := fun hmany => by
        rw [(Geometry.one_lt_numberOfWindows_iff.mp hmany).1] at hw
        exact absurd hw (by simp)
      rw [show i = 0 by omega, g.firstOf_zero]
  | @volumeBitmap c n hmany hc =>
      refine ⟨by omega, fun hw => ?_, fun _ => by omega⟩
      rw [(Geometry.one_lt_numberOfWindows_iff.mp hmany).1] at hw
      exact absurd hw (by simp)

/-- **Every bit of the range is written,** whatever the memory held. -/
theorem scanInto_spec {s e : ℕ} (h : CallerRange g s e) (fat : Bytes) (counting : Bool) (v : Vcb)
    (window : ℕ) (buffer : ℕ → Bool) {j : ℕ} (hj : s + j ≤ e) :
    (scanInto g fat ⟨s, e, false, counting⟩ v window buffer).bitMap.bit j = false ↔
      lookupEntry g.width fat (s + j) = 0 := by
  obtain ⟨hle, h16, h32⟩ := h.spec
  have hstart := Scan.inv_start (e := lookupEntry g.width fat) g fat ⟨s, e, false, counting⟩ v window
  have hinv : Scan.Inv (lookupEntry g.width fat) ⟨s, e, false, counting⟩ v.numberOfFreeClusters s
      { Scan.start g fat ⟨s, e, false, counting⟩ v window with bitMap := ⟨e + 1 - s, buffer⟩ } :=
    ⟨hstart.lo, hstart.hi, hstart.unknown, hstart.run, rfl,
      fun _ k hk hlt => absurd (show k < s from hlt) (not_lt.mpr hk), hstart.count⟩
  have hptr := Scan.ptrAt_start fat (m := ⟨s, e, false, counting⟩) v window h16 h32
  exact (scan_spec fat (m := ⟨s, e, false, counting⟩) rfl hle hinv hptr).2.1 j (by dsimp only; omega)

/-- The memory of the private bitmaps is taken to be clear. -/
theorem scanEntries_eq (g : Geometry) (fat : Bytes) (m : ScanMode) (v : Vcb) (window : ℕ) :
    scanEntries g fat m v window = scanInto g fat m v window fun _ => false := rfl

/-- A bitmap of the caller. -/
theorem sat_examineBitMap {s e : ℕ} (h : CallerRange g s e) (v : Vcb) (buffer : ℕ → Bool) :
    Sat (examineBitMap g s e buffer) v
      (fun bits v' => v'.vol.fat = v.vol.fat ∧
        ∀ j, s + j ≤ e → (bits j = false ↔ lookupEntry g.width v.vol.fat (s + j) = 0))
      (fun _ _ => v.vol.io ≠ none) := by
  rw [examineBitMap]
  apply Sat.bind (R := fun _ v' => v'.vol.fat = v.vol.fat)
  · apply Sat.onPart
    exact sat_access.mono (fun _ _ ht => ht.1) fun _ _ ht => ht.2.2.1
  intro _ t ht
  apply Sat.get_bind
  refine Sat.pure ⟨ht, fun j hj => ?_⟩
  rw [← ht]
  exact scanInto_spec h t.vol.fat false t t.currentWindow buffer hj

/-- The bounds of the windows are those of the geometry. -/
structure WindowBounds (g : Geometry) (v : Vcb) : Prop where
  first : ∀ i < g.numberOfWindows, (v.windows i).firstCluster = g.firstOf i
  last : ∀ i < g.numberOfWindows, (v.windows i).lastCluster + 1 = g.endOf i

/-- The bitmap of a window. -/
theorem sat_fatExamineFatEntries_bits (h : WindowBounds g v) {i : ℕ} (hi : i < g.numberOfWindows) :
    Sat (fatExamineFatEntries g i) v
      (fun _ v' => v'.vol.fat = v.vol.fat ∧ ∀ j, g.firstOf i + j < g.endOf i →
        (v'.freeClusterBitMap.bit j = false ↔
          lookupEntry g.width v.vol.fat (g.firstOf i + j) = 0))
      (fun _ _ => v.vol.io ≠ none) := by
  have hfirst := h.first i hi
  have hlast : (v.windows i).lastCluster = g.endOf i - 1 := by
    have := h.last i hi
    omega
  rw [fatExamineFatEntries]
  apply Sat.bind (R := fun _ v' => v'.vol.fat = v.vol.fat ∧ v'.windows = v.windows)
  · apply Sat.onPart
    exact sat_access.mono (fun _ _ ht => ⟨ht.1, rfl⟩) fun _ _ ht => ht.2.2.1
  intro _ t ht
  apply Sat.modify
  dsimp only
  rw [ht.2, hfirst, hlast, scanEntries_eq]
  generalize (!(g.width = .fat32 ∧ 1 < g.numberOfWindows : Bool)) = counting
  have hbits := fun {j : ℕ} (hj : g.firstOf i + j < g.endOf i) =>
    @scanInto_spec g _ _ (.window hi) t.vol.fat counting t i (fun _ => false) j (by omega)
  rw [← ht.1]
  cases counting with
  | false => exact ⟨rfl, fun j hj => hbits hj⟩
  | true => exact ⟨rfl, fun j hj => hbits hj⟩

/-! ## The windows -/

/-- The windows follow each other from cluster 2 to the last one, and the count of each is that of its
zero entries. -/
structure WindowsScanned (g : Geometry) (v : Vcb) : Prop where
  first : (v.windows 0).firstCluster = 2
  next : ∀ i, i + 1 < g.numberOfWindows →
    (v.windows (i + 1)).firstCluster = (v.windows i).lastCluster + 1
  last : (v.windows (g.numberOfWindows - 1)).lastCluster = g.numberOfClusters + 1
  clustersFree : ∀ i < g.numberOfWindows, (v.windows i).clustersFree =
    zeros (lookupEntry g.width v.vol.fat) (v.windows i).firstCluster ((v.windows i).lastCluster + 1)

theorem WindowsOf.scanned (h : WindowsOf g v.windows (zeroSet g v.vol.fat)) : WindowsScanned g v := by
  have hpos := g.numberOfWindows_pos
  refine ⟨?_, fun i hi => ?_, ?_, fun i hi => ?_⟩
  · rw [h.first 0 hpos, g.firstOf_zero]
  · rw [h.first _ hi, h.last i (by omega), Geometry.endOf_eq_firstOf_succ hi]
  · have hlast := h.last (g.numberOfWindows - 1) (by omega)
    rw [Geometry.endOf_last (by omega)] at hlast
    omega
  · rw [h.first i hi, h.last i hi, h.free i hi, zeros_window]

/-- The windows of a volume that is set up. -/
theorem sat_examineSetupWindows_scanned (hmany : 1 < g.numberOfWindows) (v : Vcb) :
    Sat (examineSetupWindows g 2 (g.numberOfClusters + 2 - 1)) { v with numberOfFreeClusters := 0 }
      (fun _ v' => v'.vol.fat = v.vol.fat ∧ WindowsScanned g v') (fun _ _ => v.vol.io ≠ none) := by
  refine (sat_examineSetupWindows hmany rfl).mono ?_ fun _ _ h => h
  rintro _ v' ⟨hfat, hwindows, _, _⟩
  have hzero : zeroSet g v'.vol.fat = zeroSet g v.vol.fat := by rw [hfat]
  exact ⟨hfat, WindowsOf.scanned (hzero ▸ hwindows)⟩

/-! ## What is reported -/

/-- The bits that are reported, on either way. -/
theorem sat_reportedBits {c n : ℕ} (hlayout : Layout g v) (hbooks : Accounting g v)
    (hc : 8 * c < g.numberOfClusters) (hn : 8 * c + n * 8 < 2 ^ 32) (buffer : ℕ → Bool) :
    Sat (reportedBits g (8 * c) n buffer) v
      (fun bits v' => v'.vol.fat = v.vol.fat ∧ ∀ j, j < n * 8 → 8 * c + j < g.numberOfClusters →
        (bits j = false ↔ lookupEntry g.width v.vol.fat (8 * c + 2 + j) = 0))
      (fun _ _ => v.vol.io ≠ none) := by
  rw [reportedBits]
  by_cases hone : g.numberOfWindows = 1
  · rw [if_pos hone]
    apply Sat.get_bind
    refine Sat.pure ⟨rfl, fun j hj hlt => ?_⟩
    have hcurrent := hlayout.current
    have hzero : v.currentWindow = 0 := by omega
    have hfirst : v.window.firstCluster = 2 := by
      rw [Vcb.window, hzero, hlayout.first 0 (by omega), g.firstOf_zero]
    have hlast : v.window.lastCluster + 1 = g.numberOfClusters + 2 := by
      rw [Vcb.window, hzero, hlayout.last 0 (by omega), Geometry.endOf_last (by omega)]
    have hbit := hbooks.bitmap (8 * c + 2 + j) (Finset.mem_Icc.mpr (by omega))
    rw [hfirst, show 8 * c + 2 + j - 2 = 8 * c + j by omega] at hbit
    rw [copyBitMap, if_pos hj]
    exact hbit
  · have hpos := g.numberOfWindows_pos
    have hmin : (if g.numberOfClusters < ulong (8 * c + n * 8) then g.numberOfClusters
        else ulong (8 * c + n * 8)) = min (8 * c + n * 8) g.numberOfClusters := by
      rw [ulong_of_lt hn]
      split <;> omega
    rw [if_neg hone]
    dsimp only
    rw [hmin]
    refine (sat_examineBitMap (.volumeBitmap (by omega) hc) v buffer).mono ?_ fun _ _ h => h
    rintro bits v' ⟨hfat, hbits⟩
    exact ⟨hfat, fun j hj hlt => hbits j (by omega)⟩

/-- The bitmap tells of each cluster that it covers whether its entry is zero. -/
def VolumeBitmap.Right (g : Geometry) (fat : Bytes) (b : VolumeBitmap) : Prop :=
  ∀ j, j < b.bitmapSize → j < b.bytesToCopy * 8 →
    (b.buffer j = false ↔ lookupEntry g.width fat (b.startingLcn + 2 + j) = 0)

theorem sat_fatGetVolumeBitmap (hN : g.numberOfClusters + 7 < 2 ^ 32) (hlayout : Layout g v)
    (hbooks : Accounting g v) (q : BitmapRequest) :
    Sat (fatGetVolumeBitmap g q) v
      (fun r v' => v'.vol.fat = v.vol.fat ∧ ∀ b ∈ r.2, b.Right g v.vol.fat)
      (fun _ _ => v.vol.io ≠ none) := by
  rw [fatGetVolumeBitmap]
  split
  · exact Sat.pure ⟨rfl, by simp⟩
  split
  · exact Sat.pure ⟨rfl, by simp⟩
  split
  · exact Sat.pure ⟨rfl, by simp⟩
  · next hlcn =>
      rw [not_or, not_le, not_le] at hlcn
      have hc : 8 * (q.startingLcn / 8) < g.numberOfClusters := by omega
      dsimp only
      rw [Nat.mul_comm _ 8, ulong_of_lt (by omega)]
      generalize hbytes : (g.numberOfClusters - 8 * (q.startingLcn / 8) + 7) / 8 = bytes
      generalize hcopy : (if q.outputBufferLength - 16 < bytes then q.outputBufferLength - 16
        else bytes) = bytesToCopy
      have hle : bytesToCopy ≤ bytes := by
        rw [← hcopy]
        split <;> omega
      apply Sat.bind (sat_reportedBits hlayout hbooks hc (by omega) q.buffer)
      intro bits t ht
      refine Sat.pure ⟨ht.1, fun b hb j hj hlt => ?_⟩
      rw [Option.mem_some] at hb
      subst hb
      exact ht.2 j hlt (by dsimp only at hj; omega)

/-- **Scanned bitmaps and windows are those of the entries:** each bitmap that a caller asks for, the
windows of a volume that is set up, and so what is reported of a volume whose records agree, as they
do at mount. -/
theorem scanned_eq_entries (hN : g.numberOfClusters + 7 < 2 ^ 32) (v : Vcb) :
    (∀ s e buffer, CallerRange g s e → Sat (examineBitMap g s e buffer) v
      (fun bits _ => ∀ j, s + j ≤ e → (bits j = false ↔ lookupEntry g.width v.vol.fat (s + j) = 0))
      (fun _ _ => v.vol.io ≠ none)) ∧
    (∀ i < g.numberOfWindows, WindowBounds g v → Sat (fatExamineFatEntries g i) v
      (fun _ v' => ∀ j, g.firstOf i + j < g.endOf i → (v'.freeClusterBitMap.bit j = false ↔
        lookupEntry g.width v.vol.fat (g.firstOf i + j) = 0))
      (fun _ _ => v.vol.io ≠ none)) ∧
    (1 < g.numberOfWindows → Sat (examineSetupWindows g 2 (g.numberOfClusters + 2 - 1))
      { v with numberOfFreeClusters := 0 } (fun _ v' => WindowsScanned g v')
      (fun _ _ => v.vol.io ≠ none)) ∧
    Sat (fatSetupAllocationSupport g) v (fun _ v' => Layout g v' ∧ Accounting g v')
      (fun _ _ => v.vol.io ≠ none) ∧
    (Layout g v → Accounting g v → ∀ q, Sat (fatGetVolumeBitmap g q) v
      (fun r _ => ∀ b ∈ r.2, b.Right g v.vol.fat) (fun _ _ => v.vol.io ≠ none)) := by
  refine ⟨fun s e buffer h => ?_, fun i hi h => ?_, fun hmany => ?_, ?_, fun hlayout hbooks q => ?_⟩
  · exact (sat_examineBitMap h v buffer).mono (fun _ _ ht => ht.2) fun _ _ ht => ht
  · exact (sat_fatExamineFatEntries_bits h hi).mono (fun _ _ ht => ht.2) fun _ _ ht => ht
  · exact (sat_examineSetupWindows_scanned hmany v).mono (fun _ _ ht => ht.2) fun _ _ ht => ht
  · refine (sat_fatSetupAllocationSupport g v).mono ?_ fun _ _ ht => ht
    rintro _ v' ⟨hfat, hbooks, _⟩
    rw [← hfat] at hbooks
    exact ⟨hbooks.layout, hbooks.accounting⟩
  · exact (sat_fatGetVolumeBitmap hN hlayout hbooks q).mono (fun _ _ ht => ht.2) fun _ _ ht => ht

/-- The bitmaps that are reported of a floppy after mount. -/
theorem scanned_eq_entries_floppy :
    ∃ v, fatSetupAllocationSupport floppy (unmounted ⟨fun _ => 0, [], none⟩) = .ok () v ∧
      ∀ q, Sat (fatGetVolumeBitmap floppy q) v (fun r _ => ∀ b ∈ r.2, b.Right floppy v.vol.fat)
        (fun _ _ => False) := by
  have hN : floppy.numberOfClusters + 7 < 2 ^ 32 := by
    rw [floppy_numberOfClusters]
    norm_num
  obtain ⟨v, hmount, -, hbooks, hio⟩ := exists_mount floppy ⟨fun _ => 0, [], none⟩ rfl
  refine ⟨v, hmount, fun q => ?_⟩
  exact ((scanned_eq_entries hN v).2.2.2.2 hbooks.layout hbooks.accounting q).mono (fun _ _ h => h)
    fun _ _ h => h hio

end KernelDrivers.Fat
