import KernelDrivers.ImDisk.WriteProtect
import KernelDrivers.Lib.Signed
import KernelDrivers.Lib.Wire

/-!
# Trim requests

`IOCTL_STORAGE_MANAGE_DATA_SET_ATTRIBUTES` carries records of a start and a length.  For an image file
the dispatch routine zeroes each range and then trims all of them; for a proxy the device thread sends
them as unmap ranges.  The place of the records is checked with a 32-bit sum, and the ranges are not
compared with the size of the disk.

## Main definitions

* `TrimDisk` — the device.
* `dispatchTrim`, `threadTrim` — what the records are used for.
* `InBounds` — records are read from the input buffer, and ranges lie in the disk.
* `RecordFits` — the range of a record does not leave the disk.

## Main results

* `mem_zeroRecords` — what the loop over the records does.
* `setZeroData_inBounds_iff`, `unmap_inBounds_iff` — the range of one record.
* `inBounds_iff` — when a request stays in bounds.
-/

namespace KernelDrivers.ImDisk.Disposal

open Signed

/-- `DEVICE_DATA_SET_RANGE`. -/
structure DataSetRange where
  startingOffset : Int64
  lengthInBytes : UInt64
  deriving DecidableEq

/-- A device with an image file or a proxy. -/
structure TrimDisk where
  extension : Extension
  imageOffset : Int64
  /-- The size of the memory that is shared with the proxy. -/
  sharedMemory : Option ℕ

/-- The ranges fit the memory that is shared with the proxy. -/
def TrimDisk.sends (s : TrimDisk) (items : ℕ) : Bool :=
  match s.sharedMemory with
  | none => true
  | some size => decide (16 * items < size - 4096)

/-- What a request for a trim does. -/
inductive Access
  /-- 16 bytes are read at a place behind the start of `SystemBuffer`. -/
  | record (position : ℕ)
  /-- `FSCTL_SET_ZERO_DATA`. -/
  | setZeroData (fileOffset beyondFinalZero : Int64)
  /-- A range of `FSCTL_FILE_LEVEL_TRIM`. -/
  | fileLevelTrim (offset : Int64) (length : UInt64)
  /-- A range of `IMDPROXY_REQ_UNMAP`. -/
  | unmap (startingOffset : Int64) (lengthInBytes : UInt64)
  deriving DecidableEq

section Routines

variable (s : TrimDisk) (irp : Irp) (memory : ℕ → UInt8) (k : Kernel)

/-- Where a record is. -/
def position (i : ℕ) : ℕ := irp.input.dataSetRangesOffset.toNat + 16 * i

/-- A record, from `memory`: the input buffer and whatever is behind it. -/
def rangeAt (i : ℕ) : DataSetRange where
  startingOffset := (UInt64.ofNat (ofBytes (slice memory (position irp i) 8))).toInt64
  lengthInBytes := UInt64.ofNat (ofBytes (slice memory (position irp i + 8) 8))

/-- A record is read, and its range zeroed. -/
def zeroRecord (i : ℕ) : List Access :=
  let range := rangeAt irp memory i
  let fileOffset := range.startingOffset + s.imageOffset
  [.record (position irp i), .setZeroData fileOffset (fileOffset + range.lengthInBytes.toInt64)]

/-- The loop over the records from `i` on, up to the first that fails. -/
def zeroRecords (i : ℕ) : ℕ → List Access
  | 0 => []
  | n + 1 =>
      zeroRecord s irp memory i ++ if (k.setZeroData i).1.ok then zeroRecords (i + 1) n else []

/-- All ranges are given to the file system. -/
def trimRecords (items : ℕ) : List Access :=
  (List.range items).flatMap fun i =>
    let range := rangeAt irp memory i
    [.record (position irp i), .fileLevelTrim (range.startingOffset + s.imageOffset) range.lengthInBytes]

/-- `ImDiskDispatchDeviceControl`, for an image file. -/
def dispatchTrim : List Access :=
  if trims irp s.extension ∧ ¬ s.extension.useProxy then
    zeroRecords s irp memory k 0 (trimItems irp) ++
      if s.extension.noFileLevelTrim ∨ ¬ k.pool 0 then [] else trimRecords s irp memory (trimItems irp)
  else []

/-- A record is copied, and its range sent. -/
def unmapRecord (i : ℕ) : List Access :=
  let range := rangeAt irp memory i
  .record (position irp i) ::
    if s.sends (trimItems irp) then
      [.unmap (if 0 < s.imageOffset then range.startingOffset + s.imageOffset else range.startingOffset)
        range.lengthInBytes]
    else []

/-- `ImDiskDeviceThreadDeviceControl`, for a proxy. -/
def threadTrim (pool : Bool) : List Access :=
  if trims irp s.extension ∧ s.extension.useProxy ∧ pool then
    (List.range (trimItems irp)).flatMap (unmapRecord s irp memory)
  else []

end Routines

/-! ## Bounds -/

section Bounds

variable (s : TrimDisk) (irp : Irp) (memory : ℕ → UInt8)

/-- A byte of the image that belongs to the disk. -/
def TrimDisk.Owns (a : ℤ) : Prop :=
  s.imageOffset.toInt ≤ a ∧ a < s.imageOffset.toInt + s.extension.geometry.cylinders.toInt

/-- What is touched is in the input buffer or in the disk. -/
def Access.InBounds (s : TrimDisk) (irp : Irp) : Access → Prop
  | .record position => position + 16 ≤ irp.inputBufferLength
  | .setZeroData fileOffset beyond =>
      ∀ a, fileOffset.toInt ≤ a → a < beyond.toInt → s.Owns a
  | .unmap start length => ∀ a, start.toInt ≤ a → a < start.toInt + length.toNat → s.Owns a
  | .fileLevelTrim _ _ => True

/-- **A request stays in bounds**, whatever the system answers. -/
def InBounds : Prop :=
  ∀ (k : Kernel) (pool : Bool), ∀ a ∈ dispatchTrim s irp memory k ++ threadTrim s irp memory pool,
    a.InBounds s irp

/-- **The range of a record does not leave the disk**, or it is empty.  A range of an image file that
passes `2 ^ 63` ends in front of its start.  The ranges of a proxy are not moved by a negative offset. -/
def RecordFits (r : DataSetRange) : Prop :=
  r.lengthInBytes = 0 ∨
  (¬ s.extension.useProxy ∧
    2 ^ 63 ≤ (r.startingOffset + s.imageOffset).toInt + r.lengthInBytes.toNat) ∨
  (if s.extension.useProxy ∧ s.imageOffset.toInt < 0 then
    s.imageOffset.toInt ≤ r.startingOffset.toInt ∧
      r.startingOffset.toInt + r.lengthInBytes.toNat ≤
        s.imageOffset.toInt + s.extension.geometry.cylinders.toInt
  else
    0 ≤ r.startingOffset.toInt ∧
      r.startingOffset.toInt + r.lengthInBytes.toNat ≤ s.extension.geometry.cylinders.toInt ∧
      r.startingOffset.toInt + s.imageOffset.toInt < 2 ^ 63)

end Bounds

/-! ## The loops -/

section Loops

variable {s : TrimDisk} {irp : Irp} {memory : ℕ → UInt8} {k : Kernel}

theorem mem_zeroRecords {a : Access} {i n : ℕ} (h : a ∈ zeroRecords s irp memory k i n) :
    ∃ j, i ≤ j ∧ j < i + n ∧ a ∈ zeroRecord s irp memory j := by
  induction n generalizing i with
  | zero => cases h
  | succ n ih =>
      rw [zeroRecords, List.mem_append] at h
      rcases h with hfirst | hrest
      · exact ⟨i, le_rfl, by omega, hfirst⟩
      · split at hrest
        · obtain ⟨j, hlow, hhigh, hj⟩ := ih hrest
          exact ⟨j, by omega, by omega, hj⟩
        · cases hrest

/-- When nothing fails, all records are used. -/
theorem zeroRecords_of_ok (hok : ∀ j, (k.setZeroData j).1.ok = true) {a : Access} {i j n : ℕ}
    (hlow : i ≤ j) (hhigh : j < i + n) (h : a ∈ zeroRecord s irp memory j) :
    a ∈ zeroRecords s irp memory k i n := by
  induction n generalizing i with
  | zero => omega
  | succ n ih =>
      rw [zeroRecords, if_pos (hok i), List.mem_append]
      rcases Nat.eq_or_lt_of_le hlow with rfl | hlt
      · exact .inl h
      · exact .inr (ih hlt (by omega))

end Loops

/-! ## One range -/

section Range

variable {s : TrimDisk} {irp : Irp} {r : DataSetRange}

/-- A range of bytes lies in the disk when it is empty or when its ends do. -/
theorem forall_owns_iff {first beyond : ℤ} :
    (∀ a, first ≤ a → a < beyond → s.Owns a) ↔
      beyond ≤ first ∨ (s.imageOffset.toInt ≤ first ∧
        beyond ≤ s.imageOffset.toInt + s.extension.geometry.cylinders.toInt) := by
  constructor
  · intro h
    rcases le_or_gt beyond first with hempty | hlt
    · exact .inl hempty
    · have hfirst := h first le_rfl hlt
      have hlast := h (beyond - 1) (by omega) (by omega)
      exact .inr ⟨hfirst.1, by have := hlast.2; omega⟩
  · rintro (hempty | ⟨hfirst, hlast⟩) a hlow hhigh
    · omega
    · exact ⟨by omega, by omega⟩

/-- A start that the image offset moves past `2 ^ 63` or below `-2 ^ 63` is never in the disk. -/
theorem moved_iff {n : ℕ} (hn : 0 < n) :
    (s.imageOffset.toInt ≤ (r.startingOffset + s.imageOffset).toInt ∧
      (r.startingOffset + s.imageOffset).toInt + n ≤
        s.imageOffset.toInt + s.extension.geometry.cylinders.toInt) ↔
      (0 ≤ r.startingOffset.toInt ∧
        r.startingOffset.toInt + n ≤ s.extension.geometry.cylinders.toInt ∧
        r.startingOffset.toInt + s.imageOffset.toInt < 2 ^ 63) := by
  obtain ⟨m, hm⟩ := exists_toInt_add r.startingOffset s.imageOffset
  have hstart := bounds r.startingOffset
  have himage := bounds s.imageOffset
  have hmoved := bounds (r.startingOffset + s.imageOffset)
  have hsize := bounds s.extension.geometry.cylinders
  constructor
  · rintro ⟨hlow, hhigh⟩
    have hm₀ : m = 0 := by omega
    subst hm₀
    omega
  · rintro ⟨hlow, hhigh, hsum⟩
    have hm₀ : m = 0 := by omega
    subst hm₀
    omega

theorem toNat_length_eq_zero_iff : r.lengthInBytes.toNat = 0 ↔ r.lengthInBytes = 0 := by
  rw [← UInt64.toNat_zero, UInt64.toNat_inj]

/-- A range of an image file, in `FSCTL_SET_ZERO_DATA`. -/
theorem setZeroData_inBounds_iff (hfile : s.extension.useProxy = false) :
    (Access.setZeroData (r.startingOffset + s.imageOffset)
      (r.startingOffset + s.imageOffset + r.lengthInBytes.toInt64)).InBounds s irp ↔
      RecordFits s r := by
  have hbeyond : ∃ m : ℤ, (r.startingOffset + s.imageOffset + r.lengthInBytes.toInt64).toInt =
      (r.startingOffset + s.imageOffset).toInt + r.lengthInBytes.toNat + 2 ^ 64 * m := by
    obtain ⟨m, hm⟩ := exists_toInt_add (r.startingOffset + s.imageOffset) r.lengthInBytes.toInt64
    obtain ⟨j, hj⟩ := exists_toInt_toInt64 r.lengthInBytes
    exact ⟨m + j, by omega⟩
  obtain ⟨m, hm⟩ := hbeyond
  have hfirst := bounds (r.startingOffset + s.imageOffset)
  have hend := bounds (r.startingOffset + s.imageOffset + r.lengthInBytes.toInt64)
  have hlength := r.lengthInBytes.toNat_lt
  simp only [Access.InBounds, forall_owns_iff, RecordFits, hfile, Bool.false_eq_true, not_false_eq_true,
    true_and, false_and, if_false]
  rcases Nat.eq_zero_or_pos r.lengthInBytes.toNat with hzero | hpos
  · have hm₀ : m = 0 := by omega
    subst hm₀
    exact iff_of_true (.inl (by omega)) (.inl (toNat_length_eq_zero_iff.mp hzero))
  · have hne : r.lengthInBytes ≠ 0 := fun h => by simp [h] at hpos
    rw [← moved_iff hpos]
    by_cases hpast : 2 ^ 63 ≤ (r.startingOffset + s.imageOffset).toInt + r.lengthInBytes.toNat
    · have hm₁ : m = -1 := by omega
      subst hm₁
      exact iff_of_true (.inl (by omega)) (.inr (.inl hpast))
    · have hm₀ : m = 0 := by omega
      subst hm₀
      simp only [hne, hpast, false_or]
      constructor
      · rintro (hempty | ⟨hlow, hhigh⟩)
        · omega
        · exact ⟨hlow, by omega⟩
      · rintro ⟨hlow, hhigh⟩
        exact .inr ⟨hlow, by omega⟩

/-- A range of a proxy. -/
theorem unmap_inBounds_iff (hproxy : s.extension.useProxy = true) :
    (Access.unmap
      (if 0 < s.imageOffset then r.startingOffset + s.imageOffset else r.startingOffset)
      r.lengthInBytes).InBounds s irp ↔ RecordFits s r := by
  have hsign : 0 < s.imageOffset ↔ 0 < s.imageOffset.toInt := Int64.lt_iff_toInt_lt
  simp only [Access.InBounds, forall_owns_iff, RecordFits, hproxy, not_true_eq_false, false_and, true_and,
    false_or]
  rcases Nat.eq_zero_or_pos r.lengthInBytes.toNat with hzero | hpos
  · simp only [toNat_length_eq_zero_iff.mp hzero, true_or, iff_true]
    exact .inl (by simp)
  · have hne : r.lengthInBytes ≠ 0 := fun h => by simp [h] at hpos
    simp only [hne, false_or, hsign]
    rw [or_iff_right (by omega)]
    rcases lt_trichotomy s.imageOffset.toInt 0 with hneg | hz | himage
    · rw [if_neg (by omega), if_pos hneg]
    · have hstart := bounds r.startingOffset
      rw [if_neg (by omega), if_neg (by omega), hz]
      constructor
      · rintro ⟨hlow, hhigh⟩
        exact ⟨hlow, by omega, by omega⟩
      · rintro ⟨hlow, hhigh, -⟩
        exact ⟨hlow, by omega⟩
    · rw [if_pos himage, if_neg (by omega)]
      exact moved_iff hpos

end Range

/-! ## A request -/

variable {s : TrimDisk} {irp : Irp} {memory : ℕ → UInt8}

theorem record_inBounds_of_le {i n : ℕ} (hi : i < n) (h : position irp n ≤ irp.inputBufferLength) :
    (Access.record (position irp i)).InBounds s irp := by
  simp only [Access.InBounds, position] at h ⊢
  omega

/-- **When a trim stays in bounds**: the records end in the input buffer, and their ranges do not leave
the disk. -/
theorem inBounds_iff :
    InBounds s irp memory ↔
      (trims irp s.extension = true →
        position irp (trimItems irp) ≤ irp.inputBufferLength ∧
        ∀ i < trimItems irp, (s.extension.useProxy = true → s.sends (trimItems irp) = true) →
          RecordFits s (rangeAt irp memory i)) := by
  constructor
  · intro h htrims
    have hitems : trimItems irp ≠ 0 := by
      simp only [trims, Bool.and_eq_true, decide_eq_true_eq] at htrims
      exact htrims.1.1.1.2
    have hlast : position irp (trimItems irp) = position irp (trimItems irp - 1) + 16 := by
      simp only [position]
      omega
    cases hproxy : s.extension.useProxy with
    | false =>
        -- no range fails
        have hall : ∀ i < trimItems irp, ∀ a ∈ zeroRecord s irp memory i, a.InBounds s irp := by
          intro i hi a ha
          refine h plainKernel true a (List.mem_append_left _ ?_)
          rw [dispatchTrim, if_pos ⟨htrims, by simp [hproxy]⟩]
          exact List.mem_append_left _
            (zeroRecords_of_ok (fun _ => rfl) (Nat.zero_le i) (by omega) ha)
        refine ⟨?_, fun i hi _ => ?_⟩
        · have hrecord := hall (trimItems irp - 1) (by omega) (.record _) List.mem_cons_self
          simp only [Access.InBounds] at hrecord
          omega
        · exact (setZeroData_inBounds_iff hproxy).mp
            (hall i hi _ (List.mem_cons_of_mem _ List.mem_cons_self))
    | true =>
        have hall : ∀ i < trimItems irp, ∀ a ∈ unmapRecord s irp memory i, a.InBounds s irp := by
          intro i hi a ha
          refine h plainKernel true a (List.mem_append_right _ ?_)
          rw [threadTrim, if_pos ⟨htrims, hproxy, rfl⟩]
          exact List.mem_flatMap.mpr ⟨i, List.mem_range.mpr hi, ha⟩
        refine ⟨?_, fun i hi hsends => ?_⟩
        · have hrecord := hall (trimItems irp - 1) (by omega) (.record _) List.mem_cons_self
          simp only [Access.InBounds] at hrecord
          omega
        · refine (unmap_inBounds_iff hproxy).mp (hall i hi _ (List.mem_cons_of_mem _ ?_))
          rw [if_pos (hsends rfl)]
          exact List.mem_cons_self
  · intro h k pool a ha
    rcases List.mem_append.mp ha with hdispatch | hthread
    · rw [dispatchTrim] at hdispatch
      split at hdispatch
      next hcond =>
        obtain ⟨htrims, hproxy⟩ := hcond
        obtain ⟨hrecords, hranges⟩ := h htrims
        rcases List.mem_append.mp hdispatch with hzero | htrim
        · obtain ⟨i, -, hi, hmem⟩ := mem_zeroRecords hzero
          simp only [zeroRecord, List.mem_cons, List.not_mem_nil, or_false] at hmem
          rcases hmem with rfl | rfl
          · exact record_inBounds_of_le (by omega) hrecords
          · exact (setZeroData_inBounds_iff (by simpa using hproxy)).mpr
              (hranges i (by omega) (fun hp => absurd hp hproxy))
        · split at htrim
          · cases htrim
          · obtain ⟨i, hi, hmem⟩ := List.mem_flatMap.mp htrim
            simp only [List.mem_cons, List.not_mem_nil, or_false] at hmem
            rcases hmem with rfl | rfl
            · exact record_inBounds_of_le (List.mem_range.mp hi) hrecords
            · trivial
      next => cases hdispatch
    · rw [threadTrim] at hthread
      split at hthread
      next hcond =>
        obtain ⟨htrims, hproxy, -⟩ := hcond
        obtain ⟨hrecords, hranges⟩ := h htrims
        obtain ⟨i, hi, hmem⟩ := List.mem_flatMap.mp hthread
        rw [unmapRecord] at hmem
        rcases List.mem_cons.mp hmem with rfl | hunmap
        · exact record_inBounds_of_le (List.mem_range.mp hi) hrecords
        · split at hunmap
          next hsends =>
            rw [List.mem_singleton] at hunmap
            subst hunmap
            exact (unmap_inBounds_iff hproxy).mpr (hranges i (List.mem_range.mp hi) fun _ => hsends)
          next => cases hunmap
      next => cases hthread

/-! ## Two partitions of an image -/

/-- The second partition of an image, both of 1 MiB. -/
def secondPartition : TrimDisk :=
  ⟨{ plainExtension false with geometry := { (plainExtension false).geometry with
      cylinders := 0x100000 } }, 0x100000, none⟩

/-- One record, or two that are said to be in front of the end of the address space. -/
def trimAt (offset length : UInt32) : Irp :=
  { bareIrp 0 with
    ioctl := .manageDataSetAttributes
    inputBufferLength := 44
    input := { (bareIrp 0).input with
      action := 1, dataSetRangesOffset := offset, dataSetRangesLength := length } }

/-- The MiB behind the disk. -/
def behindTheDisk (i : ℕ) : UInt8 := if i = 30 ∨ i = 38 then 0x10 else 0

/-- A range behind the disk is zeroed in the image; an offset close to `2 ^ 32` passes the check, and the
records are read far behind the input buffer. -/
theorem not_inBounds_secondPartition :
    ¬ InBounds secondPartition (trimAt 28 16) behindTheDisk ∧
      ¬ InBounds secondPartition (trimAt 0xFFFFFFF0 0x20) behindTheDisk := by
  constructor
  · intro h
    have hbytes := h plainKernel true (.setZeroData 0x200000 0x300000) (by decide +kernel)
    exact absurd (hbytes 0x200000 (by decide) (by decide)).2 (by decide)
  · intro h
    have hrecord := h plainKernel true (.record 0xFFFFFFF0) (by decide +kernel)
    have hle : 0xFFFFFFF0 + 16 ≤ 44 := hrecord
    omega

end KernelDrivers.ImDisk.Disposal
