import KernelDrivers.Lib.Align
import KernelDrivers.Lib.Bytes

/-!
# Reading a set of extended attributes

The EA file starts with a header that has a table of base clusters, and goes on with offset
tables; a handle's set starts at the cluster that the two give for it.  A set is a header of
thirty bytes and the packed attributes.  The last four bytes of the header hold the length of
the list, which counts these four bytes as well.

## Main definitions

* `EaFile` — the EA file and what the driver knows of it.
* `fatPinEaRange`, `fatReadEaSet` — the routines.
* `eaSetLength` — the bytes of a set whose list has a length.

## Main results

* `fatReadEaSet_covers_iff` — when the pinned range holds the whole set.
-/

namespace KernelDrivers.Fat

/-- The statuses raised.  `cache` stands for what the cache manager or the pool raises. -/
inductive EaStatus
  | nonexistentEaEntry
  | dataError
  | cache
  deriving DecidableEq, Repr

/-- The EA file: its bytes, its allocation size, the volume's cluster size and which ranges the
cache manager can pin. -/
structure EaFile where
  file : Bytes
  allocationSize : BitVec 32
  logOfBytesPerCluster : ℕ
  log_ge : 7 ≤ logOfBytesPerCluster
  log_le : logOfBytesPerCluster ≤ 19
  pins : BitVec 32 → BitVec 32 → Bool

/-- The bytes `[startingVbo, startingVbo + length)` of the EA file, in the cache or copied from
it. -/
structure EaRange where
  startingVbo : BitVec 32
  length : BitVec 32
  deriving DecidableEq

namespace EaFile

variable (ea : EaFile)

def bytesPerCluster : BitVec 32 := BitVec.twoPow 32 ea.logOfBytesPerCluster

/-- `FatPinEaRange`. -/
def fatPinEaRange (startingVbo length : BitVec 32) (errorStatus : EaStatus) :
    Except EaStatus EaRange :=
  if length = 0 ∨ ea.allocationSize ≤ startingVbo ∨ ea.allocationSize - startingVbo < length then
    .error errorStatus
  else if ea.pins startingVbo length then .ok ⟨startingVbo, length⟩
  else .error .cache

/-- The entry of a handle in its offset table. -/
def eaOffsetCluster (eaHandle : UInt16) : ℕ :=
  ea.file.read16 (512 + (eaHandle.toNat >>> 7) <<< 8 + 2 * (eaHandle.toNat % 128))

/-- Where a handle's set starts.  `EaBaseTable` is at offset 32 of the header. -/
def eaSetVbo (eaHandle : UInt16) : BitVec 32 :=
  BitVec.ofNat 32 ((ea.file.read16 (32 + 2 * (eaHandle.toNat >>> 7)) +
    ea.eaOffsetCluster eaHandle) <<< ea.logOfBytesPerCluster)

/-- `GetcbList`, of the set of a handle. -/
def cbList (eaHandle : UInt16) : BitVec 32 :=
  BitVec.ofNat 32 (ea.file.read32 ((ea.eaSetVbo eaHandle).toNat + 26))

/-- `FatReadEaSet`. -/
def fatReadEaSet (eaHandle : UInt16) (returnEntireSet : Bool) : Except EaStatus EaRange :=
  -- MIN_EA_HANDLE and MAX_EA_HANDLE
  if eaHandle < 1 ∨ 30719 < eaHandle then throw .nonexistentEaEntry
  else do
    let _ ← ea.fatPinEaRange 0 512 .nonexistentEaEntry
    let _ ← ea.fatPinEaRange (BitVec.ofNat 32 (512 + (eaHandle.toNat >>> 7) <<< 8)) 256
      .nonexistentEaEntry
    -- UNUSED_EA_HANDLE
    if ea.eaOffsetCluster eaHandle = 0xffff then throw .nonexistentEaEntry
    else do
      let range ← ea.fatPinEaRange (ea.eaSetVbo eaHandle) ea.bytesPerCluster .dataError
      -- EA_SET_SIGNATURE and OwnEaHandle
      if ea.file.read16 (ea.eaSetVbo eaHandle).toNat ≠ 0x4145 ∨
          ea.file.read16 ((ea.eaSetVbo eaHandle).toNat + 2) ≠ eaHandle.toNat then
        throw .dataError
      else if returnEntireSet ∧ ea.bytesPerCluster < ea.cbList eaHandle then
        -- 0x1a is EA_CBLIST_OFFSET
        ea.fatPinEaRange (ea.eaSetVbo eaHandle)
          ((ea.cbList eaHandle + 0x1a + ea.bytesPerCluster - 1) &&& ~~~(ea.bytesPerCluster - 1))
          .dataError
      else return range

end EaFile

/-- The bytes of a set: the header, and the list, which starts with its own length at the end of
the header. -/
def eaSetLength (cbList : ℕ) : ℕ := max 30 (26 + cbList)

/-- The range has all bytes of the handle's set. -/
def EaRange.Covers (r : EaRange) (ea : EaFile) (eaHandle : UInt16) : Prop :=
  r.startingVbo = ea.eaSetVbo eaHandle ∧
    eaSetLength (ea.cbList eaHandle).toNat ≤ r.length.toNat

namespace EaFile

variable {ea : EaFile} {eaHandle : UInt16} {returnEntireSet : Bool} {r : EaRange}

theorem toNat_bytesPerCluster (ea : EaFile) :
    ea.bytesPerCluster.toNat = 2 ^ ea.logOfBytesPerCluster :=
  BitVec.toNat_twoPow_of_lt (by have := ea.log_le; omega)

theorem eq_of_fatPinEaRange {startingVbo length : BitVec 32} {s : EaStatus}
    (h : ea.fatPinEaRange startingVbo length s = .ok r) :
    r = ⟨startingVbo, length⟩ ∧ length ≠ 0 := by
  rw [fatPinEaRange] at h
  split at h
  · cases h
  · next hrange =>
      split at h
      · cases h
        exact ⟨rfl, fun h0 => hrange (Or.inl h0)⟩
      · cases h

theorem exists_of_bind_eq_ok {α β : Type} {x : Except EaStatus α} {f : α → Except EaStatus β} {b : β}
    (h : x >>= f = .ok b) : ∃ a, x = .ok a ∧ f a = .ok b := by
  cases x with
  | error e => cases h
  | ok a => exact ⟨a, rfl, h⟩

/-- A check that throws was passed. -/
theorem of_ite_throw_eq_ok {β : Type} {p : Prop} [Decidable p] {s : EaStatus}
    {x : Except EaStatus β} {b : β} (h : (if p then throw s else x) = .ok b) : x = .ok b := by
  split at h
  · cases h
  · exact h

/-- What a successful read has pinned. -/
theorem range_of_fatReadEaSet (h : ea.fatReadEaSet eaHandle returnEntireSet = .ok r) :
    r.length ≠ 0 ∧ r.startingVbo = ea.eaSetVbo eaHandle ∧
      r.length = if returnEntireSet ∧ ea.bytesPerCluster < ea.cbList eaHandle then
        (ea.cbList eaHandle + 0x1a + ea.bytesPerCluster - 1) &&& ~~~(ea.bytesPerCluster - 1)
      else ea.bytesPerCluster := by
  rw [fatReadEaSet] at h
  obtain ⟨_, -, h⟩ := exists_of_bind_eq_ok (of_ite_throw_eq_ok h)
  obtain ⟨_, -, h⟩ := exists_of_bind_eq_ok h
  obtain ⟨first, hfirst, h⟩ := exists_of_bind_eq_ok (of_ite_throw_eq_ok h)
  replace h := of_ite_throw_eq_ok h
  split at h
  · next hlong =>
      obtain ⟨rfl, hne⟩ := eq_of_fatPinEaRange h
      exact ⟨hne, rfl, (if_pos hlong).symm⟩
  · next hshort =>
      obtain ⟨rfl, hne⟩ := eq_of_fatPinEaRange hfirst
      cases h
      exact ⟨hne, rfl, (if_neg hshort).symm⟩

/-- **When a set is pinned as a whole.**  The whole set is wanted and was read.  It is all there if
it fits into its first cluster, or if the list alone is longer than a cluster and its length is
not so large that the sum that rounds it up wraps.  It is not if only the list fits. -/
theorem fatReadEaSet_covers_iff (h : ea.fatReadEaSet eaHandle true = .ok r) :
    r.Covers ea eaHandle ↔
      26 + (ea.cbList eaHandle).toNat ≤ 2 ^ ea.logOfBytesPerCluster ∨
        2 ^ ea.logOfBytesPerCluster < (ea.cbList eaHandle).toNat ∧
          (ea.cbList eaHandle).toNat + 26 + (2 ^ ea.logOfBytesPerCluster - 1) < 2 ^ 32 := by
  obtain ⟨hne, hstart, hlength⟩ := range_of_fatReadEaSet h
  have hbpc := toNat_bytesPerCluster ea
  have hlog : ea.logOfBytesPerCluster < 32 := by
    have := ea.log_le
    omega
  have hsmall : 2 ^ 7 ≤ 2 ^ ea.logOfBytesPerCluster := Nat.pow_le_pow_right (by norm_num) ea.log_ge
  have hbig : 2 ^ ea.logOfBytesPerCluster ≤ 2 ^ 19 := Nat.pow_le_pow_right (by norm_num) ea.log_le
  have hcb := (ea.cbList eaHandle).isLt
  have hlt : ea.bytesPerCluster < ea.cbList eaHandle ↔
      2 ^ ea.logOfBytesPerCluster < (ea.cbList eaHandle).toNat := by
    rw [BitVec.lt_def, hbpc]
  have hcovers : r.Covers ea eaHandle ↔ eaSetLength (ea.cbList eaHandle).toNat ≤ r.length.toNat :=
    and_iff_right hstart
  rw [hcovers, hlength, eaSetLength]
  by_cases hlong : 2 ^ ea.logOfBytesPerCluster < (ea.cbList eaHandle).toNat
  · rw [if_pos ⟨rfl, hlt.mpr hlong⟩, bytesPerCluster, toNat_alignUp _ hlog]
    have hsum : (ea.cbList eaHandle + 0x1a).toNat = ((ea.cbList eaHandle).toNat + 26) % 2 ^ 32 := by
      rw [BitVec.toNat_add]
      rfl
    have hceil := le_ceilTo ea.logOfBytesPerCluster (ea.cbList eaHandle + 0x1a).toNat
    have htop := ceilTo_lt ea.logOfBytesPerCluster (ea.cbList eaHandle + 0x1a).toNat
    split <;> omega
  · rw [if_neg fun hlong' => hlong (hlt.mp hlong'.2), hbpc]
    omega

end EaFile

/-- An EA file of four clusters of 512 bytes.  The set of handle 1 is in cluster 2, and its list
has 256 bytes and `low` more. -/
def smallEaFile (low : BitVec 8) : EaFile where
  file
    | 32 => 2
    | 1024 => 0x45
    | 1025 => 0x41
    | 1026 => 1
    | 1050 => low
    | 1051 => 1
    | _ => 0
  allocationSize := 2048
  logOfBytesPerCluster := 9
  log_ge := by norm_num
  log_le := by norm_num
  pins := fun _ _ => true

theorem fatReadEaSet_smallEaFile (low : BitVec 8) :
    (smallEaFile low).fatReadEaSet 1 true = .ok ⟨1024, 512⟩ := by
  revert low
  decide +kernel

/-- A list of 256 bytes fits into the cluster, with the header. -/
theorem fatReadEaSet_covers_smallEaFile : (⟨1024, 512⟩ : EaRange).Covers (smallEaFile 0) 1 :=
  (EaFile.fatReadEaSet_covers_iff (fatReadEaSet_smallEaFile 0)).mpr (Or.inl (by decide +kernel))

/-- A list of 500 bytes fits into the cluster, but not with the header. -/
theorem not_covers_smallEaFile : ∃ r, (smallEaFile 0xf4).fatReadEaSet 1 true = .ok r ∧
    ¬ r.Covers (smallEaFile 0xf4) 1 := by
  refine ⟨_, fatReadEaSet_smallEaFile 0xf4, fun h => ?_⟩
  have hlist : ((smallEaFile 0xf4).cbList 1).toNat = 500 := by decide +kernel
  have hcover := h.2
  rw [hlist] at hcover
  exact absurd hcover (by decide)

end KernelDrivers.Fat
