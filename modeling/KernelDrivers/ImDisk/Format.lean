import KernelDrivers.ImDisk.Disposal
import KernelDrivers.Lib.Signed

/-!
# Formatting tracks

`ImDiskFloppyFormat` fills a range of tracks.  The range is computed in 32 bits, from the first byte of
the first track to the first byte of the last one.  A memory disk is filled at once, an image track by
track.  The last-I/O buffer is left as it is.

## Main definitions

* `Disk` — the image, and the device in front of it.
* `imDiskFloppyFormat` — the routine.
* `first`, `last` — the range, without wrap-around.
* `Formats` — the range is filled, inside the disk, and reads return so.
* `Fits`, `Uncached` — no sum wraps, and no byte of the range is kept in the last-I/O buffer.

## Main results

* `vm_exact_iff`, `file_exact_iff` — what is filled is the range.
* `formats_iff` — when formatting does what it should.
-/

namespace KernelDrivers.ImDisk.Format

open Disposal Signed

/-! ## The routine -/

/-- `MEDIA_FORMAT_FILL_DATA`. -/
def mediaFormatFillData : UInt8 := 0xF6

/-- A device with its image: the image buffer, the image file or what is behind the proxy. -/
structure Disk where
  extension : Extension
  imageOffset : Int64
  image : ℤ → UInt8
  /-- `last_io_data`. -/
  lastIo : ℕ → UInt8
  tracksPerCylinder : extension.geometry.tracksPerCylinder ≠ 0
  sectorsPerTrack : extension.geometry.sectorsPerTrack ≠ 0
  bytesPerSector : extension.geometry.bytesPerSector ≠ 0
  /-- What is kept has been read or written. -/
  kept : 0 ≤ extension.lastIoOffset.toInt ∧
    extension.lastIoOffset.toInt + extension.lastIoLength.toNat < 2 ^ 63

/-- A range of the image that is filled. -/
structure Write where
  offset : ℤ
  length : ℕ
  deriving DecidableEq

def Write.Covers (w : Write) (a : ℤ) : Prop := w.offset ≤ a ∧ a < w.offset + w.length

instance (w : Write) (a : ℤ) : Decidable (w.Covers a) := inferInstanceAs (Decidable (_ ∧ _))

/-- The answers of the system. -/
structure Environment where
  pool : Bool
  /-- `NtWriteFile` or `ImDiskWriteProxy`, one call after the other. -/
  write : ℕ → Status

/-- `track_length`. -/
def trackLength (g : Geometry) : UInt32 := g.bytesPerSector * g.sectorsPerTrack

/-- `start_offset` and `end_offset`, in 32 bits. -/
def trackOffset (g : Geometry) (cylinder head : UInt32) : UInt32 :=
  cylinder * g.tracksPerCylinder * trackLength g + head * trackLength g

/-- The loop over the tracks of an image. -/
def writeTracks (x : Environment) (track : UInt32) (endOffset : Int64) :
    ℕ → ℕ → Int64 → Option (List Write × Status)
  | 0, _, _ => none
  | fuel + 1, n, startOffset =>
      if ¬ (x.write n).ok then some ([], x.write n)
      else
        let next := startOffset + track.toUInt64.toInt64
        if next ≤ endOffset then
          (writeTracks x track endOffset fuel (n + 1) next).map fun r =>
            (⟨startOffset.toInt, track.toNat⟩ :: r.1, r.2)
        else some ([⟨startOffset.toInt, track.toNat⟩], x.write n)

/-- `ImDiskFloppyFormat`: the ranges that are filled, and the status. -/
def imDiskFloppyFormat (s : Disk) (p : FormatParameters) (x : Environment) (fuel : ℕ) :
    Option (List Write × Status) :=
  let g := s.extension.geometry
  let track := trackLength g
  let startOffset := trackOffset g p.startCylinderNumber p.startHeadNumber
  let endOffset := trackOffset g p.endCylinderNumber p.endHeadNumber
  if s.extension.vmDisk then
    some ([⟨startOffset.toNat, (endOffset - startOffset + track).toNat⟩], .success)
  else if ¬ x.pool then some ([], .insufficientResources)
  else
    writeTracks x track (endOffset.toUInt64.toInt64 + s.imageOffset) fuel 0
      (startOffset.toUInt64.toInt64 + s.imageOffset)

/-! ## The range -/

section Range

variable (g : Geometry) (p : FormatParameters)

/-- The bytes of a track. -/
def track : ℕ := g.bytesPerSector.toNat * g.sectorsPerTrack.toNat

/-- The first byte of a track. -/
def trackStart (cylinder head : UInt32) : ℕ :=
  (cylinder.toNat * g.tracksPerCylinder.toNat + head.toNat) * track g

/-- The first byte of the first track. -/
def first : ℕ := trackStart g p.startCylinderNumber p.startHeadNumber

/-- The byte behind the last track. -/
def last : ℕ := trackStart g p.endCylinderNumber p.endHeadNumber + track g

def InRange (i : ℤ) : Prop := first g p ≤ i ∧ i < last g p

end Range

namespace Disk

variable (s : Disk) (p : FormatParameters)

def geometry : Geometry := s.extension.geometry

/-- Where the disk begins in the image. -/
def base : ℤ := if s.extension.vmDisk then 0 else s.imageOffset.toInt

/-- The device behind these writes. -/
def after (ws : List Write) : Disk :=
  { s with image := fun a => if ∃ w ∈ ws, w.Covers a then mediaFormatFillData else s.image a }

/-- A byte that a read is answered with, before the bytes of a pair are exchanged. -/
def answer (irp : Irp) (k : ℕ) : UInt8 :=
  if hit irp s.extension then s.lastIo ((irp.byteOffset - s.extension.lastIoOffset).toInt.toNat + k)
  else if s.extension.vmDisk then s.image (irp.byteOffset.toInt + k)
  else s.image ((irp.byteOffset + s.imageOffset).toInt + k)

/-- These writes fill the range and nothing else. -/
def Exact (ws : List Write) : Prop :=
  ∀ i : ℤ, (∃ w ∈ ws, w.Covers (s.base + i)) ↔ InRange s.geometry p i

/-- The range lies in the disk. -/
def Inside : Prop := ∀ i : ℤ, InRange s.geometry p i → 0 ≤ i ∧ i < s.geometry.cylinders.toInt

/-- Every read of bytes in the range returns the fill byte. -/
def ReadsFill : Prop :=
  ∀ irp : Irp, irp.major = false →
    (∀ k < irp.length.toNat, InRange s.geometry p (irp.byteOffset.toInt + k)) →
    ∀ k < irp.length.toNat, s.answer irp k = mediaFormatFillData

/-- **Formatting**: the routine ends, and when it reports success, it has filled the range, all of it
inside the disk, and reads return so. -/
def Formats : Prop :=
  ∀ x, (∃ fuel r, imDiskFloppyFormat s p x fuel = some r) ∧
    ∀ fuel r, imDiskFloppyFormat s p x fuel = some r → r.2.ok = true →
      s.Exact p r.1 ∧ s.Inside p ∧ (s.after r.1).ReadsFill p

/-- **No sum wraps**, and the tracks are in order and in the disk.  A memory disk has no more than the
start and the length of the range computed in 32 bits; there, a range that is empty is left alone when
the wrapped length is zero. -/
def Fits : Prop :=
  if s.extension.vmDisk then
    (first s.geometry p < last s.geometry p ∧ first s.geometry p < 2 ^ 32 ∧
      last s.geometry p - first s.geometry p < 2 ^ 32 ∧
      (last s.geometry p : ℤ) ≤ s.geometry.cylinders.toInt) ∨
    (last s.geometry p ≤ first s.geometry p ∧ 2 ^ 32 ∣ first s.geometry p - last s.geometry p)
  else
    first s.geometry p < last s.geometry p ∧ track s.geometry < 2 ^ 32 ∧
      last s.geometry p < 2 ^ 32 + track s.geometry ∧
      (last s.geometry p : ℤ) ≤ s.geometry.cylinders.toInt ∧
      s.imageOffset.toInt + last s.geometry p < 2 ^ 63

/-- No byte of the range is kept in the last-I/O buffer with another value. -/
def Uncached : Prop :=
  s.extension.lastIoData = true → ∀ k < s.extension.lastIoLength.toNat,
    InRange s.geometry p (s.extension.lastIoOffset.toInt + k) → s.lastIo k = mediaFormatFillData

end Disk

/-! ## Arithmetic -/

section Arithmetic

variable (g : Geometry)

theorem toNat_trackLength : (trackLength g).toNat = track g % 2 ^ 32 := UInt32.toNat_mul _ _

theorem toNat_trackOffset (cylinder head : UInt32) :
    (trackOffset g cylinder head).toNat = trackStart g cylinder head % 2 ^ 32 := by
  rw [trackOffset, trackStart, UInt32.toNat_add, UInt32.toNat_mul, UInt32.toNat_mul, UInt32.toNat_mul,
    toNat_trackLength, Nat.add_mul]
  simp only [Nat.add_mod, Nat.mul_mod, Nat.mod_mod]

/-- The length of the range, in 32 bits. -/
theorem toNat_length (p : FormatParameters) :
    ((trackOffset g p.endCylinderNumber p.endHeadNumber -
      trackOffset g p.startCylinderNumber p.startHeadNumber + trackLength g).toNat : ℤ) =
      ((last g p : ℤ) - first g p) % 2 ^ 32 := by
  rw [UInt32.toNat_add, UInt32.toNat_sub, toNat_trackOffset, toNat_trackOffset, toNat_trackLength, last,
    first]
  omega

/-- A wrapped range that is a given one. -/
theorem wrapped_range_iff (a b : ℕ) :
    (∀ i : ℤ, (((a % 2 ^ 32 : ℕ) : ℤ) ≤ i ∧ i < (a % 2 ^ 32 : ℕ) + ((b : ℤ) - a) % 2 ^ 32) ↔
      (a ≤ i ∧ i < b)) ↔
    (a < b ∧ a < 2 ^ 32 ∧ b - a < 2 ^ 32) ∨ (b ≤ a ∧ 2 ^ 32 ∣ a - b) := by
  constructor
  · intro h
    rcases Nat.lt_or_ge a b with hab | hba
    · have hfirst := (h a).mpr (by omega)
      have hlow := (h (a % 2 ^ 32 : ℕ)).mp (by omega)
      have hlast := (h (b - 1)).mpr (by omega)
      have hhigh := (h ((a % 2 ^ 32 : ℕ) + ((b : ℤ) - a) % 2 ^ 32 - 1)).mp (by omega)
      exact .inl (by omega)
    · have hempty := (h (a % 2 ^ 32 : ℕ)).mp
      exact .inr (by omega)
  · intro h i
    omega

end Arithmetic

/-! ## The loop -/

section Loop

variable {x : Environment} {t : UInt32} {start stop : Int64} {fuel n : ℕ} {r : List Write × Status}

/-- The first track is written. -/
theorem mem_writeTracks (h : writeTracks x t stop fuel n start = some r) (hok : r.2.ok = true) :
    ⟨start.toInt, t.toNat⟩ ∈ r.1 := by
  cases fuel with
  | zero => cases h
  | succ fuel =>
      rw [writeTracks] at h
      split at h
      · next hfail =>
        cases h
        exact absurd hok hfail
      · dsimp only at h
        split at h
        · obtain ⟨r', -, rfl⟩ := Option.map_eq_some_iff.mp h
          exact List.mem_cons_self
        · cases h
          exact List.mem_cons_self

/-- Every write has the length of a track. -/
theorem length_of_mem_writeTracks (h : writeTracks x t stop fuel n start = some r) {w : Write}
    (hw : w ∈ r.1) : w.length = t.toNat := by
  induction fuel generalizing n start r with
  | zero => cases h
  | succ fuel ih =>
      rw [writeTracks] at h
      split at h
      · cases h
        cases hw
      · dsimp only at h
        split at h
        · obtain ⟨r', hrest, rfl⟩ := Option.map_eq_some_iff.mp h
          rcases List.mem_cons.mp hw with rfl | hw
          · rfl
          · exact ih hrest hw
        · cases h
          rw [List.mem_singleton.mp hw]

/-- Behind a track that does not end the loop the next one is written. -/
theorem next_mem_writeTracks (h : writeTracks x t stop fuel n start = some r) (hok : r.2.ok = true)
    {y : Int64} (hy : ⟨y.toInt, t.toNat⟩ ∈ r.1) (hle : y + t.toUInt64.toInt64 ≤ stop) :
    ⟨(y + t.toUInt64.toInt64).toInt, t.toNat⟩ ∈ r.1 := by
  induction fuel generalizing n start r with
  | zero => cases h
  | succ fuel ih =>
      rw [writeTracks] at h
      split at h
      · next hfail =>
        cases h
        exact absurd hok hfail
      · dsimp only at h
        split at h
        · obtain ⟨r', hrest, rfl⟩ := Option.map_eq_some_iff.mp h
          rcases List.mem_cons.mp hy with heq | hy
          · rw [Int64.toInt_inj.mp (congrArg Write.offset heq)]
            exact List.mem_cons_of_mem _ (mem_writeTracks hrest hok)
          · exact List.mem_cons_of_mem _ (ih hrest hok hy)
        · next hgt =>
          cases h
          rw [Int64.toInt_inj.mp (congrArg Write.offset (List.mem_singleton.mp hy))] at hle
          exact absurd hle hgt

/-- **The loop**: as long as no sum that it goes on with wraps, the tracks are written one behind the
other, up to the last that does not start behind the end. -/
theorem writeTracks_spec (h : writeTracks x t stop fuel n start = some r) (hok : r.2.ok = true)
    (hwrap : ∀ y : Int64, ⟨y.toInt, t.toNat⟩ ∈ r.1 → (y = start ∨ y ≤ stop) →
      y + t.toUInt64.toInt64 ≤ stop → (y + t.toUInt64.toInt64).toInt = y.toInt + t.toNat) :
    ∃ m : ℕ, ∃ z : Int64, z.toInt = start.toInt + m * t.toNat ∧
      (∀ a, (∃ w ∈ r.1, w.Covers a) ↔ start.toInt ≤ a ∧ a < start.toInt + (m + 1 : ℕ) * t.toNat) ∧
      (m = 0 ∨ z.toInt ≤ stop.toInt) ∧ stop.toInt < (z + t.toUInt64.toInt64).toInt := by
  induction fuel generalizing n start r with
  | zero => cases h
  | succ fuel ih =>
      rw [writeTracks] at h
      split at h
      · next hfail =>
        cases h
        exact absurd hok hfail
      · dsimp only at h
        split at h
        · next hle =>
          obtain ⟨r', hrest, rfl⟩ := Option.map_eq_some_iff.mp h
          have hnext := hwrap start List.mem_cons_self (.inl rfl) hle
          obtain ⟨m, z, hz, hcovers, hlast, hbehind⟩ := ih hrest hok fun y hy hyle hynext =>
            hwrap y (List.mem_cons_of_mem _ hy) (.inr (hyle.elim (fun heq => heq ▸ hle) id)) hynext
          rw [hnext] at hz hcovers
          refine ⟨m + 1, z, by rw [hz]; push_cast; ring, fun a => ?_, .inr ?_, hbehind⟩
          · rw [List.exists_mem_cons_iff, hcovers, Write.Covers]
            dsimp only
            have hmul : ((m + 1 + 1 : ℕ) * t.toNat : ℤ) = (m + 1 : ℕ) * t.toNat + t.toNat := by
              push_cast
              ring
            have hnonneg : (0 : ℤ) ≤ (m + 1 : ℕ) * t.toNat := by positivity
            rw [hmul]
            omega
          · rcases hlast with hzero | hz'
            · rw [hz, hzero, Nat.cast_zero, zero_mul, add_zero, ← hnext]
              exact Int64.le_iff_toInt_le.mp hle
            · exact hz'
        · next hgt =>
          cases h
          rw [Int64.le_iff_toInt_le, not_le] at hgt
          refine ⟨0, start, by simp, fun a => ?_, .inl rfl, hgt⟩
          simp [Write.Covers]

/-- A track without bytes is written again and again. -/
theorem writeTracks_zero (hok : ∀ n, (x.write n).ok = true) (hle : start ≤ stop) :
    writeTracks x 0 stop fuel n start = none := by
  induction fuel generalizing n with
  | zero => rfl
  | succ fuel ih =>
      have hsame : start + (0 : UInt32).toUInt64.toInt64 = start := Int64.add_zero start
      rw [writeTracks, if_neg (not_not.mpr (hok n)), hsame]
      dsimp only
      rw [if_pos hle, ih]
      rfl

/-- Without a wrap the loop ends. -/
theorem exists_writeTracks (ht : 0 < t.toNat) (hle : start.toInt ≤ stop.toInt)
    (hstop : stop.toInt + t.toNat < 2 ^ 63) (left n : ℕ) (hleft : stop.toInt - start.toInt < left) :
    ∃ fuel r, writeTracks x t stop fuel n start = some r := by
  induction left generalizing n start with
  | zero => omega
  | succ left ih =>
      have hlen := toInt_ofUInt32 t
      have hlow := bounds start
      have hnext : (start + t.toUInt64.toInt64).toInt = start.toInt + t.toNat := by
        rw [← hlen]
        exact toInt_add_of_lt (by omega) (by omega)
      by_cases hfail : (x.write n).ok = true
      · by_cases hgo : start + t.toUInt64.toInt64 ≤ stop
        · have hgo' := Int64.le_iff_toInt_le.mp hgo
          obtain ⟨fuel, r, hr⟩ := ih hgo' (n + 1) (by omega)
          refine ⟨fuel + 1, (⟨start.toInt, t.toNat⟩ :: r.1, r.2), ?_⟩
          rw [writeTracks, if_neg (not_not.mpr hfail)]
          dsimp only
          rw [if_pos hgo, hr, Option.map_some]
        · refine ⟨1, ([⟨start.toInt, t.toNat⟩], x.write n), ?_⟩
          rw [writeTracks, if_neg (not_not.mpr hfail)]
          dsimp only
          rw [if_neg hgo]
      · exact ⟨1, _, by rw [writeTracks, if_pos hfail]⟩

end Loop

/-! ## What is filled -/

section Exact

variable (s : Disk) (p : FormatParameters) {x : Environment} {fuel : ℕ} {r : List Write × Status}

theorem track_pos : 0 < track s.geometry := by
  have hbytes := s.bytesPerSector
  have hsectors := s.sectorsPerTrack
  refine Nat.mul_pos (Nat.pos_of_ne_zero fun h => hbytes ?_) (Nat.pos_of_ne_zero fun h => hsectors ?_)
  · exact UInt32.toNat_inj.mp h
  · exact UInt32.toNat_inj.mp h

/-- The start of a track is a multiple of its length. -/
theorem exists_trackStart (g : Geometry) (cylinder head : UInt32) :
    ∃ a : ℕ, trackStart g cylinder head = a * track g := ⟨_, rfl⟩

/-- What is filled on a memory disk. -/
theorem vm_covers (hvm : s.extension.vmDisk = true) (h : imDiskFloppyFormat s p x fuel = some r) (i : ℤ) :
    (∃ w ∈ r.1, w.Covers (s.base + i)) ↔
      ((first s.geometry p % 2 ^ 32 : ℕ) : ℤ) ≤ i ∧
        i < (first s.geometry p % 2 ^ 32 : ℕ) + ((last s.geometry p : ℤ) - first s.geometry p) % 2 ^ 32 := by
  rw [imDiskFloppyFormat, if_pos hvm, Option.some.injEq] at h
  subst h
  have hlength := toNat_length s.geometry p
  have hstart := toNat_trackOffset s.geometry p.startCylinderNumber p.startHeadNumber
  rw [Disk.base, if_pos hvm, zero_add]
  simp only [List.exists_mem_cons_iff, List.not_mem_nil, false_and, exists_false, or_false, Write.Covers]
  change ((trackOffset s.geometry p.startCylinderNumber p.startHeadNumber).toNat : ℤ) ≤ i ∧
    i < (trackOffset s.geometry p.startCylinderNumber p.startHeadNumber).toNat +
      (trackOffset s.geometry p.endCylinderNumber p.endHeadNumber -
        trackOffset s.geometry p.startCylinderNumber p.startHeadNumber + trackLength s.geometry).toNat ↔ _
  rw [hlength, hstart, first]

theorem inside_iff :
    s.Inside p ↔ (first s.geometry p < last s.geometry p →
      (last s.geometry p : ℤ) ≤ s.geometry.cylinders.toInt) := by
  constructor
  · intro h hlt
    have := h (last s.geometry p - 1) ⟨by omega, by omega⟩
    omega
  · intro h i hi
    obtain ⟨hlow, hhigh⟩ := hi
    have := h (by omega)
    omega

/-- **A memory disk**: start and length come out right. -/
theorem vm_exact_iff (hvm : s.extension.vmDisk = true) (h : imDiskFloppyFormat s p x fuel = some r) :
    (s.Exact p r.1 ∧ s.Inside p) ↔ s.Fits p := by
  have hexact : s.Exact p r.1 ↔ _ := wrapped_range_iff (first s.geometry p) (last s.geometry p) |>.symm.trans
    (forall_congr' fun i => by rw [vm_covers s p hvm h]; rfl) |>.symm
  rw [hexact, inside_iff, Disk.Fits, if_pos hvm]
  constructor
  · rintro ⟨⟨hlt, hfirst, hlength⟩ | hempty, hinside⟩
    · exact .inl ⟨hlt, hfirst, hlength, hinside hlt⟩
    · exact .inr hempty
  · rintro (⟨hlt, hfirst, hlength, hinside⟩ | hempty)
    · exact ⟨.inl ⟨hlt, hfirst, hlength⟩, fun _ => hinside⟩
    · exact ⟨.inr hempty, fun hlt => absurd hlt (by omega)⟩

/-- The start and the end of the loop. -/
def startOffset : Int64 :=
  (trackOffset s.geometry p.startCylinderNumber p.startHeadNumber).toUInt64.toInt64 + s.imageOffset

def endOffset : Int64 :=
  (trackOffset s.geometry p.endCylinderNumber p.endHeadNumber).toUInt64.toInt64 + s.imageOffset

theorem file_eq (hvm : ¬ s.extension.vmDisk = true) (hpool : x.pool = true) :
    imDiskFloppyFormat s p x fuel =
      writeTracks x (trackLength s.geometry) (endOffset s p) fuel 0 (startOffset s p) := by
  rw [imDiskFloppyFormat, if_neg hvm, if_neg (not_not.mpr hpool)]
  rfl

theorem exists_toInt_startOffset : ∃ k, (startOffset s p).toInt =
    s.imageOffset.toInt + (first s.geometry p % 2 ^ 32 : ℕ) + 2 ^ 64 * k := by
  obtain ⟨k, hk⟩ := exists_toInt_add
    (trackOffset s.geometry p.startCylinderNumber p.startHeadNumber).toUInt64.toInt64 s.imageOffset
  rw [toInt_ofUInt32, toNat_trackOffset] at hk
  exact ⟨k, by rw [startOffset, hk, first]; ring⟩

theorem exists_toInt_endOffset : ∃ k, (endOffset s p).toInt = s.imageOffset.toInt +
    ((last s.geometry p - track s.geometry) % 2 ^ 32 : ℕ) + 2 ^ 64 * k := by
  obtain ⟨k, hk⟩ := exists_toInt_add
    (trackOffset s.geometry p.endCylinderNumber p.endHeadNumber).toUInt64.toInt64 s.imageOffset
  rw [toInt_ofUInt32, toNat_trackOffset] at hk
  exact ⟨k, by rw [endOffset, hk, last, Nat.add_sub_cancel]; ring⟩

/-- The number of tracks in a range that is not empty. -/
theorem exists_tracks (h : first s.geometry p < last s.geometry p) :
    ∃ j : ℕ, last s.geometry p = first s.geometry p + (j + 1) * track s.geometry := by
  have hpos := track_pos s
  obtain ⟨a, ha⟩ := exists_trackStart s.geometry p.startCylinderNumber p.startHeadNumber
  obtain ⟨c, hc⟩ := exists_trackStart s.geometry p.endCylinderNumber p.endHeadNumber
  rw [last, first, ha, hc] at h ⊢
  have hac : a ≤ c := by
    by_contra hlt
    have := Nat.mul_le_mul_right (track s.geometry) (show c + 1 ≤ a by omega)
    rw [Nat.add_mul] at this
    omega
  obtain ⟨j, rfl⟩ := Nat.exists_eq_add_of_le hac
  exact ⟨j, by ring⟩

section Fitting

variable {s p}

/-- A sum that fits has not wrapped. -/
theorem eq_of_wrap {a b k : ℤ} (h : a = b + 2 ^ 64 * k) (ha : -2 ^ 63 ≤ a ∧ a < 2 ^ 63)
    (hb : -2 ^ 63 ≤ b ∧ b < 2 ^ 63) : a = b := by
  omega

/-- The offsets of a range that fits. -/
theorem offsets_of_fits (hvm : ¬ s.extension.vmDisk = true) (hfits : s.Fits p) :
    ∃ j : ℕ, (trackLength s.geometry).toNat = track s.geometry ∧
      last s.geometry p = first s.geometry p + (j + 1) * track s.geometry ∧
      (startOffset s p).toInt = s.imageOffset.toInt + first s.geometry p ∧
      (endOffset s p).toInt = (startOffset s p).toInt + j * track s.geometry ∧
      (endOffset s p).toInt + track s.geometry < 2 ^ 63 := by
  rw [Disk.Fits, if_neg hvm] at hfits
  obtain ⟨hlt, htrack, hlast, hsize, himage⟩ := hfits
  obtain ⟨j, hj⟩ := exists_tracks s p hlt
  have hmul : (j + 1) * track s.geometry = j * track s.geometry + track s.geometry := by ring
  have hfirst : first s.geometry p < 2 ^ 32 := by omega
  have hpos : last s.geometry p - track s.geometry < 2 ^ 32 := by omega
  have hlow := bounds s.imageOffset
  have hstart : (startOffset s p).toInt = s.imageOffset.toInt + first s.geometry p := by
    obtain ⟨k, hstart⟩ := exists_toInt_startOffset s p
    rw [Nat.mod_eq_of_lt hfirst] at hstart
    exact eq_of_wrap hstart (bounds _) ⟨by omega, by omega⟩
  have hend : (endOffset s p).toInt =
      s.imageOffset.toInt + (last s.geometry p - track s.geometry : ℕ) := by
    obtain ⟨k, hend⟩ := exists_toInt_endOffset s p
    rw [Nat.mod_eq_of_lt hpos] at hend
    exact eq_of_wrap hend (bounds _) ⟨by omega, by omega⟩
  have hrest : last s.geometry p - track s.geometry = first s.geometry p + j * track s.geometry := by
    omega
  rw [hrest, Nat.cast_add, Nat.cast_mul, ← add_assoc, ← hstart] at hend
  refine ⟨j, ?_, hj, hstart, hend, ?_⟩
  · rw [toNat_trackLength, Nat.mod_eq_of_lt htrack]
  · rw [hend, hstart]
    push_cast [hj] at himage
    linarith only [himage]

theorem file_ends (hvm : ¬ s.extension.vmDisk = true) (hfits : s.Fits p) (x : Environment) :
    ∃ fuel r, imDiskFloppyFormat s p x fuel = some r := by
  by_cases hpool : x.pool = true
  · obtain ⟨j, hlen, -, -, hend, hbound⟩ := offsets_of_fits hvm hfits
    have hpos := track_pos s
    have hnonneg : (0 : ℤ) ≤ j * track s.geometry := by positivity
    obtain ⟨fuel, r, hr⟩ : ∃ fuel r,
        writeTracks x (trackLength s.geometry) (endOffset s p) fuel 0 (startOffset s p) = some r :=
      exists_writeTracks (by omega) (by omega) (by omega) (j * track s.geometry + 1) 0
        (by push_cast; omega)
    exact ⟨fuel, r, by rw [file_eq s p hvm hpool, hr]⟩
  · refine ⟨0, ([], .insufficientResources), ?_⟩
    rw [imDiskFloppyFormat, if_neg hvm, if_pos hpool]

/-- **An image**: a range that fits is filled. -/
theorem file_exact (hvm : ¬ s.extension.vmDisk = true) (hfits : s.Fits p)
    (h : imDiskFloppyFormat s p x fuel = some r) (hok : r.2.ok = true) : s.Exact p r.1 := by
  have hpool : x.pool = true := by
    by_contra hno
    rw [imDiskFloppyFormat, if_neg hvm, if_pos hno, Option.some.injEq] at h
    subst h
    exact absurd hok (by decide)
  rw [file_eq s p hvm hpool] at h
  obtain ⟨j, hlen, hlast, hstart, hend, hbound⟩ := offsets_of_fits hvm hfits
  have hpos := track_pos s
  have hlen' := toInt_ofUInt32 (trackLength s.geometry)
  have hnonneg : (0 : ℤ) ≤ j * track s.geometry := by positivity
  have hnowrap : ∀ y : Int64, y.toInt ≤ (endOffset s p).toInt →
      (y + (trackLength s.geometry).toUInt64.toInt64).toInt = y.toInt + track s.geometry := by
    intro y hy
    have := bounds y
    rw [toInt_add_of_lt (by omega) (by omega), hlen', hlen]
  obtain ⟨m, z, hz, hcovers, hlast', hbehind⟩ := writeTracks_spec h hok fun y _ hy _ => by
    rw [hlen]
    refine hnowrap y ?_
    rcases hy with rfl | hy
    · omega
    · exact Int64.le_iff_toInt_le.mp hy
  rw [hlen] at hz hcovers
  -- the last track starts at the end of the range and not behind it
  have hz' : z.toInt ≤ (endOffset s p).toInt := by
    rcases hlast' with hzero | hle
    · rw [hz, hzero]
      simp only [Nat.cast_zero, zero_mul, add_zero]
      omega
    · exact hle
  rw [hnowrap z hz'] at hbehind
  have hmj : m = j := by
    have hle : (m * track s.geometry : ℤ) ≤ j * track s.geometry := by omega
    have hlt : (j * track s.geometry : ℤ) < (m + 1) * track s.geometry := by
      rw [add_mul, one_mul]
      omega
    have hpos' : (0 : ℤ) < track s.geometry := by omega
    have h₁ := le_of_mul_le_mul_right hle hpos'
    have h₂ := lt_of_mul_lt_mul_right hlt hpos'.le
    omega
  subst hmj
  have hmul : ((m + 1 : ℕ) * track s.geometry : ℤ) = (last s.geometry p : ℤ) - first s.geometry p := by
    rw [hlast]
    push_cast
    ring
  intro i
  rw [Disk.base, if_neg hvm, hcovers, hmul, InRange]
  omega

/-- **An image**: what is filled is the range only when it fits. -/
theorem fits_of_file (hvm : ¬ s.extension.vmDisk = true) (hpool : x.pool = true)
    (hok : ∀ n, (x.write n).ok = true) (h : imDiskFloppyFormat s p x fuel = some r)
    (hrok : r.2.ok = true) (hexact : s.Exact p r.1) (hinside : s.Inside p) : s.Fits p := by
  rw [file_eq s p hvm hpool] at h
  have hpos := track_pos s
  have hlen := toNat_trackLength s.geometry
  have hlen' := toInt_ofUInt32 (trackLength s.geometry)
  have hcovered : ∀ a : ℤ, (∃ w ∈ r.1, w.Covers a) ↔
      s.imageOffset.toInt + first s.geometry p ≤ a ∧ a < s.imageOffset.toInt + last s.geometry p := by
    intro a
    have := hexact (a - s.imageOffset.toInt)
    rw [Disk.base, if_neg hvm, add_sub_cancel, InRange] at this
    rw [this]
    omega
  have hbounds := bounds s.imageOffset
  obtain ⟨k, hstart⟩ := exists_toInt_startOffset s p
  obtain ⟨k', hend⟩ := exists_toInt_endOffset s p
  have hstartb := bounds (startOffset s p)
  have hendb := bounds (endOffset s p)
  rcases Nat.eq_zero_or_pos (trackLength s.geometry).toNat with hzero | htpos
  · -- a track whose length wraps to zero: the loop does not end
    exfalso
    obtain ⟨a, ha⟩ := exists_trackStart s.geometry p.startCylinderNumber p.startHeadNumber
    obtain ⟨c, hc⟩ := exists_trackStart s.geometry p.endCylinderNumber p.endHeadNumber
    have hdvd : 2 ^ 32 ∣ track s.geometry := Nat.dvd_of_mod_eq_zero (by omega)
    have hfirst : first s.geometry p % 2 ^ 32 = 0 := by
      rw [first, ha]
      exact Nat.mod_eq_zero_of_dvd (hdvd.mul_left a)
    have hlast : (last s.geometry p - track s.geometry) % 2 ^ 32 = 0 := by
      rw [last, Nat.add_sub_cancel, hc]
      exact Nat.mod_eq_zero_of_dvd (hdvd.mul_left c)
    have hle : startOffset s p ≤ endOffset s p := by
      rw [Int64.le_iff_toInt_le]
      omega
    rw [UInt32.toNat_inj.mp (hzero.trans UInt32.toNat_zero.symm), writeTracks_zero hok hle] at h
    cases h
  · -- every track that is written lies in the range, which is in the disk: no sum has wrapped
    have hbound : ∀ w ∈ r.1, s.imageOffset.toInt + first s.geometry p ≤ w.offset ∧
        w.offset + (trackLength s.geometry).toNat ≤ s.imageOffset.toInt + last s.geometry p := by
      intro w hw
      have hwlen := length_of_mem_writeTracks h hw
      have hlow := (hcovered w.offset).mp ⟨w, hw, by rw [Write.Covers]; omega⟩
      have hhigh := (hcovered (w.offset + w.length - 1)).mp ⟨w, hw, by rw [Write.Covers]; omega⟩
      omega
    have hstartin := hbound _ (mem_writeTracks h hrok)
    dsimp only at hstartin
    have hlt : first s.geometry p < last s.geometry p := by omega
    have hsize := (inside_iff s p).mp hinside hlt
    have hcyl := bounds s.geometry.cylinders
    obtain ⟨m, z, hz, hcovers, hlast, hbehind⟩ := writeTracks_spec h hrok fun y hy _ hle => by
      have hyin := hbound _ hy
      have hnext := hbound _ (next_mem_writeTracks h hrok hy hle)
      obtain ⟨l, hl⟩ := exists_toInt_add y (trackLength s.geometry).toUInt64.toInt64
      have := bounds y
      dsimp only at hyin hnext
      omega
    obtain ⟨j, hj⟩ := exists_tracks s p hlt
    rw [Disk.Fits, if_neg hvm]
    have htpos' : (0 : ℤ) < (m + 1 : ℕ) * (trackLength s.geometry).toNat := by positivity
    -- both ends of what is written
    have hA : (startOffset s p).toInt = s.imageOffset.toInt + first s.geometry p := by
      have hlow := (hcovers (s.imageOffset.toInt + first s.geometry p)).mp ((hcovered _).mpr (by omega))
      omega
    have hB : (startOffset s p).toInt + (m + 1 : ℕ) * (trackLength s.geometry).toNat =
        s.imageOffset.toInt + last s.geometry p := by
      have hlow := (hcovers (s.imageOffset.toInt + last s.geometry p - 1)).mp
        ((hcovered _).mpr (by omega))
      have hhigh := (hcovered ((startOffset s p).toInt +
        (m + 1 : ℕ) * (trackLength s.geometry).toNat - 1)).mp ((hcovers _).mpr (by omega))
      omega
    have hmul : ((m + 1 : ℕ) * (trackLength s.geometry).toNat : ℤ) =
        m * (trackLength s.geometry).toNat + (trackLength s.geometry).toNat := by
      push_cast
      ring
    have hmul' : (j + 1) * track s.geometry = j * track s.geometry + track s.geometry := by ring
    obtain ⟨l, hl⟩ := exists_toInt_add z (trackLength s.geometry).toUInt64.toInt64
    have hzb := bounds z
    have hzb' := bounds (z + (trackLength s.geometry).toUInt64.toInt64)
    generalize hrest : (m * (trackLength s.geometry).toNat : ℤ) = rest at hz hmul
    generalize hrest' : j * track s.geometry = rest' at hmul'
    rcases hlast with hone | hmore
    · rw [hone, Nat.cast_zero, zero_mul] at hrest
      omega
    · have htrack : track s.geometry < 2 ^ 32 := by omega
      have hsame : (trackLength s.geometry).toNat = track s.geometry := by omega
      omega

end Fitting

end Exact

/-! ## Reads behind it -/

section Reads

variable {s : Disk} {p : FormatParameters} {irp : Irp} {ws : List Write}

/-- The test on the last-I/O buffer, without wrap-around. -/
theorem hit_iff (s : Disk) (hend : 0 ≤ irp.byteOffset.toInt)
    (hlen : irp.byteOffset.toInt + irp.length.toNat < 2 ^ 63) :
    hit irp s.extension = true ↔ s.extension.lastIoData = true ∧
      s.extension.lastIoOffset.toInt ≤ irp.byteOffset.toInt ∧
      irp.byteOffset.toInt + irp.length.toNat ≤
        s.extension.lastIoOffset.toInt + s.extension.lastIoLength.toNat := by
  have hkept := s.kept
  have hoffset := bounds irp.byteOffset
  rw [hit, Bool.and_eq_true, Bool.and_eq_true, decide_eq_true_iff, decide_eq_true_iff,
    Int64.le_iff_toInt_le, Int64.le_iff_toInt_le, and_assoc,
    toInt_add_of_lt (by rw [toInt_ofUInt32]; omega) (by rw [toInt_ofUInt32]; omega),
    toInt_add_of_lt (by rw [toInt_ofUInt32]; omega) (by rw [toInt_ofUInt32]; omega),
    toInt_ofUInt32, toInt_ofUInt32]

/-- A range that fits lies where no sum of a read wraps. -/
theorem bound_of_fits (hfits : s.Fits p) {i : ℤ} (hi : InRange s.geometry p i) :
    0 ≤ i ∧ i + 1 < 2 ^ 63 ∧ (s.extension.vmDisk = true ∨ s.imageOffset.toInt + i < 2 ^ 63) := by
  obtain ⟨hlow, hhigh⟩ := hi
  have hcyl := bounds s.geometry.cylinders
  rw [Disk.Fits] at hfits
  split at hfits
  · next hvm =>
    rcases hfits with ⟨-, -, -, hsize⟩ | ⟨hempty, -⟩
    · exact ⟨by omega, by omega, .inl hvm⟩
    · omega
  · obtain ⟨-, -, -, hsize, himage⟩ := hfits
    exact ⟨by omega, by omega, .inr (by omega)⟩

/-- **Reads**: what is not kept in the last-I/O buffer comes from the image. -/
theorem readsFill (hfits : s.Fits p) (huncached : s.Uncached p) (hexact : s.Exact p ws) :
    (s.after ws).ReadsFill p := by
  intro irp _ hrange k hk
  have hfirst := bound_of_fits hfits (hrange 0 (by omega))
  have hlast := bound_of_fits hfits (hrange (irp.length.toNat - 1) (by omega))
  have hin := bound_of_fits hfits (hrange k hk)
  rw [Nat.cast_zero, add_zero] at hfirst
  have hhit : hit irp s.extension = true ↔ _ := hit_iff s hfirst.1 (by omega)
  have himage := bounds s.imageOffset
  rw [Disk.answer]
  change (if hit irp s.extension = true then
    s.lastIo ((irp.byteOffset - s.extension.lastIoOffset).toInt.toNat + k)
    else if s.extension.vmDisk = true then (s.after ws).image (irp.byteOffset.toInt + k)
    else (s.after ws).image ((irp.byteOffset + s.imageOffset).toInt + k)) = _
  have hfilled : ∀ a, (∃ w ∈ ws, w.Covers a) → (s.after ws).image a = mediaFormatFillData :=
    fun a ha => if_pos ha
  split
  · next hyes =>
    obtain ⟨hdata, hlow, hhigh⟩ := hhit.mp hyes
    have hdiff : (irp.byteOffset - s.extension.lastIoOffset).toInt =
        irp.byteOffset.toInt - s.extension.lastIoOffset.toInt := by
      have := s.kept
      have := bounds irp.byteOffset
      exact toInt_sub_of_lt (by omega) (by omega)
    have hindex : s.extension.lastIoOffset.toInt +
        ((irp.byteOffset - s.extension.lastIoOffset).toInt.toNat + k : ℕ) = irp.byteOffset.toInt + k := by
      omega
    refine huncached hdata _ (by omega) ?_
    rw [hindex]
    exact hrange k hk
  · split
    · next hvm =>
      refine hfilled _ ?_
      have := (hexact (irp.byteOffset.toInt + k)).mpr (hrange k hk)
      rwa [Disk.base, if_pos hvm, zero_add] at this
    · next hvm =>
      refine hfilled _ ?_
      have := (hexact (irp.byteOffset.toInt + k)).mpr (hrange k hk)
      have hno : ¬ s.extension.vmDisk = true := hvm
      rw [Disk.base, if_neg hno] at this
      rw [toInt_add_of_lt (by omega) (by
        rcases hfirst.2.2 with hyes | hbound
        · exact absurd hyes hno
        · omega)]
      convert this using 4
      ring

/-- A byte that is kept is what a read of it returns. -/
theorem uncached_of_readsFill (h : (s.after ws).ReadsFill p) : s.Uncached p := by
  intro hdata k hk hin
  have hkept := s.kept
  have hoffset := bounds s.extension.lastIoOffset
  have htoInt : (Int64.ofInt (s.extension.lastIoOffset.toInt + k)).toInt =
      s.extension.lastIoOffset.toInt + k :=
    Int64.toInt_ofInt_of_le (by omega) (by omega)
  generalize hoff : Int64.ofInt (s.extension.lastIoOffset.toInt + k) = offset at htoInt
  have hone : (1 : UInt32).toNat = 1 := rfl
  have hread := h { bareIrp offset with length := 1 } rfl
    (fun l hl => by
      have hl : l < 1 := hl
      have hzero : l = 0 := by omega
      subst hzero
      change InRange s.geometry p (offset.toInt + (0 : ℕ))
      rw [htoInt, Nat.cast_zero, add_zero]
      exact hin) 0 Nat.one_pos
  have hhit : hit { bareIrp offset with length := 1 } s.extension = true := by
    refine (hit_iff s ?_ ?_).mpr ⟨hdata, ?_, ?_⟩
    · change 0 ≤ offset.toInt
      omega
    · change offset.toInt + ((1 : UInt32).toNat : ℤ) < 2 ^ 63
      omega
    · change _ ≤ offset.toInt
      omega
    · change offset.toInt + ((1 : UInt32).toNat : ℤ) ≤ _
      omega
  have hdiff : (offset - s.extension.lastIoOffset).toInt = k := by
    rw [toInt_sub_of_lt (by omega) (by omega)]
    omega
  have hkept' : (s.after ws).answer { bareIrp offset with length := 1 } 0 =
      s.lastIo ((offset - s.extension.lastIoOffset).toInt.toNat + 0) := if_pos hhit
  rw [hkept', hdiff, Int.toNat_natCast, Nat.add_zero] at hread
  exact hread

end Reads

/-! ## When formatting does what it should -/

section Formats

variable {s : Disk} {p : FormatParameters}

/-- A system where every call succeeds. -/
def reliable : Environment := ⟨true, fun _ => .success⟩

theorem status_reliable {fuel : ℕ} {r : List Write × Status}
    (h : imDiskFloppyFormat s p reliable fuel = some r) : r.2.ok = true := by
  by_cases hvm : s.extension.vmDisk = true
  · rw [imDiskFloppyFormat, if_pos hvm, Option.some.injEq] at h
    subst h
    rfl
  · have hloop : ∀ fuel n t start stop r, writeTracks reliable t stop fuel n start = some r →
        r.2.ok = true := by
      intro fuel
      induction fuel with
      | zero => intro n t start stop r h; cases h
      | succ fuel ih =>
          intro n t start stop r h
          have hok : (reliable.write n).ok = true := rfl
          rw [writeTracks, if_neg (not_not.mpr hok)] at h
          dsimp only at h
          split at h
          · obtain ⟨r', hrest, rfl⟩ := Option.map_eq_some_iff.mp h
            exact ih _ _ _ _ r' hrest
          · cases h
            rfl
    rw [file_eq s p hvm rfl] at h
    exact hloop _ _ _ _ _ _ h

/-- **When tracks are formatted**: the range fits, and no byte of it is kept with another value. -/
theorem formats_iff (s : Disk) (p : FormatParameters) : s.Formats p ↔ s.Fits p ∧ s.Uncached p := by
  constructor
  · intro h
    obtain ⟨⟨fuel, r, hr⟩, hall⟩ := h reliable
    have hok := status_reliable hr
    obtain ⟨hexact, hinside, hreads⟩ := hall fuel r hr hok
    refine ⟨?_, uncached_of_readsFill hreads⟩
    by_cases hvm : s.extension.vmDisk = true
    · exact (vm_exact_iff s p hvm hr).mp ⟨hexact, hinside⟩
    · exact fits_of_file hvm rfl (fun _ => rfl) hr hok hexact hinside
  · rintro ⟨hfits, huncached⟩ x
    by_cases hvm : s.extension.vmDisk = true
    · refine ⟨⟨0, ?_⟩, fun fuel r hr _ => ?_⟩
      · rw [imDiskFloppyFormat, if_pos hvm]
        exact ⟨_, rfl⟩
      · obtain ⟨hexact, hinside⟩ := (vm_exact_iff s p hvm hr).mpr hfits
        exact ⟨hexact, hinside, readsFill hfits huncached hexact⟩
    · refine ⟨file_ends hvm hfits x, fun fuel r hr hok => ?_⟩
      have hexact := file_exact hvm hfits hr hok
      refine ⟨hexact, (inside_iff s p).mpr fun _ => ?_, readsFill hfits huncached hexact⟩
      rw [Disk.Fits, if_neg hvm] at hfits
      exact hfits.2.2.2.1

/-- An image file of 8 GiB. -/
def largeDisk : Disk where
  extension := { plainExtension false with geometry := ⟨8589934592, 255, 63, 512⟩ }
  imageOffset := 0
  image := fun _ => 0
  lastIo := fun _ => 0
  tracksPerCylinder := by decide
  sectorsPerTrack := by decide
  bytesPerSector := by decide
  kept := by decide

/-- The first track of cylinder 523, which starts behind 4 GiB. -/
def farTrack : FormatParameters := ⟨523, 523, 0, 0, 0, 0⟩

def formatIrp (p : FormatParameters) : Irp :=
  { bareIrp 0 with
    ioctl := .formatTracks
    inputBufferLength := 20
    input := { (bareIrp 0).input with format := p } }

/-- A track in the first 4 GiB is filled in its place. -/
theorem not_formats_farTrack : ¬ ∀ (s : Disk) (p : FormatParameters),
    formatTracks (formatIrp p) s.extension plainKernel false = .status .pending → s.Formats p := by
  intro hall
  have hformats := hall largeDisk farTrack (by decide)
  have hrun : imDiskFloppyFormat largeDisk farTrack reliable 1 = some ([⟨6854144, 32256⟩], .success) := by
    decide +kernel
  obtain ⟨hexact, -, -⟩ := (hformats reliable).2 1 _ hrun rfl
  have hfirst : InRange largeDisk.geometry farTrack 4301821440 := by
    constructor <;> decide +kernel
  obtain ⟨w, hw, hcovers⟩ := (hexact 4301821440).mpr hfirst
  rw [List.mem_singleton.mp hw] at hcovers
  exact absurd hcovers (by decide +kernel)

end Formats

end KernelDrivers.ImDisk.Format
