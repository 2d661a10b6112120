import KernelDrivers.Fat.SizeRun
import KernelDrivers.Lib.Align

/-!
# The chunk that an extending write asks for

A write behind the allocation of a file asks for more clusters than it needs, up to thirty-two times as
many, as long as there is space.  The sizes are 32 bits wide and the sums 64.

## Main definitions

* `chunking` — the computation, in the words of the machine.

## Main results

* `chunking_spec` — there is no division by zero, and the sizes are those of a longer file.
* `chunkTarget_eq` — the computation on numbers is this one.
-/

namespace KernelDrivers.Fat.Sizes

/-- What comes of the computation: a trap, no more than the minimum, or a bigger size to try. -/
inductive Chunking
  | divideByZero
  | minimumSize
  | chunk (targetAllocation addedAllocation : BitVec 64)
  deriving DecidableEq

section Computation

variable (k : ℕ) (allocationSize fileSize numberOfFreeClusters : BitVec 32)

/-- `1 << LogOfBytesPerCluster`. -/
def bytesPerCluster : BitVec 32 := BitVec.twoPow 32 k

def clusterAlignedFileSize : BitVec 32 :=
  (fileSize + (bytesPerCluster k - 1)) &&& ~~~(bytesPerCluster k - 1)

/-- `~BytesPerCluster + 1`. -/
def maximumSize : BitVec 32 := ~~~bytesPerCluster k + 1

/-- `Multiplier`, for a chunk of `need` bytes. -/
def multiplier (need : BitVec 32) : BitVec 64 :=
  let mult := (numberOfFreeClusters * (bytesPerCluster k >>> 5) / need + 1).setWidth 64
  if 32 < mult then 32 else mult

/-- `TargetAllocation`, for a chunk of `need` bytes. -/
def targetAllocation (need : BitVec 32) : BitVec 64 :=
  let target := allocationSize.setWidth 64 +
    multiplier k numberOfFreeClusters need * need.setWidth 64
  if (maximumSize k).setWidth 64 < target then (maximumSize k).setWidth 64 else target

/-- `AddedAllocation`, for a chunk of `need` bytes. -/
def addedAllocation (need : BitVec 32) : BitVec 64 :=
  let added := multiplier k numberOfFreeClusters need * need.setWidth 64
  if (maximumSize k).setWidth 64 < allocationSize.setWidth 64 + added then
    (maximumSize k).setWidth 64 - allocationSize.setWidth 64
  else added

/-- The computation in `FatCommonWrite`, for a file that has some allocation. -/
def chunking : Chunking :=
  if clusterAlignedFileSize k fileSize ≠ 0 then
    let need := clusterAlignedFileSize k fileSize - allocationSize
    if need = 0 then .divideByZero
    else
      let added := addedAllocation k allocationSize numberOfFreeClusters need
      if added / (bytesPerCluster k).setWidth 64 ≤ numberOfFreeClusters.setWidth 64 then
        .chunk (targetAllocation k allocationSize numberOfFreeClusters need) added
      else .minimumSize
  else .minimumSize

end Computation

/-- The size that is tried. -/
def Chunking.target : Chunking → Option ℕ
  | .chunk targetAllocation _ => some targetAllocation.toNat
  | _ => none

/-! ## The words as numbers -/

variable {k : ℕ} {allocationSize fileSize numberOfFreeClusters need : BitVec 32}

theorem toNat_bytesPerCluster (hk : k < 32) : (bytesPerCluster k).toNat = 2 ^ k := by
  rw [bytesPerCluster, BitVec.toNat_twoPow_of_lt hk]

theorem toNat_clusterAlignedFileSize (hk : k < 32) (n : BitVec 32) :
    (clusterAlignedFileSize k n).toNat =
      if n.toNat + (2 ^ k - 1) < 2 ^ 32 then ceilTo k n.toNat else 0 := by
  rw [← toNat_alignUp n hk, clusterAlignedFileSize, bytesPerCluster, BitVec.sub_eq_add_neg,
    BitVec.sub_eq_add_neg, BitVec.add_assoc]

theorem toNat_maximumSize (hk : k < 32) : (maximumSize k).toNat = 2 ^ 32 - 2 ^ k := by
  have hlt : 2 ^ k < 2 ^ 32 := Nat.pow_lt_pow_right (by norm_num) hk
  have hpos := Nat.two_pow_pos k
  change (~~~bytesPerCluster k + 1#32).toNat = _
  rw [← BitVec.neg_eq_not_add, BitVec.toNat_neg, toNat_bytesPerCluster hk,
    Nat.mod_eq_of_lt (by omega)]

theorem toNat_setWidth_ulong (n : BitVec 32) : (n.setWidth 64).toNat = n.toNat := by
  rw [BitVec.toNat_setWidth, Nat.mod_eq_of_lt (by omega)]

/-- The count of free clusters wraps as the source says; the sum with 1 does not. -/
theorem toNat_multiplier (hk : k < 32) (hneed : need ≠ 0) (hdvd : 2 ^ k ∣ need.toNat) :
    (multiplier k numberOfFreeClusters need).toNat =
      min 32 (ulong (numberOfFreeClusters.toNat * (2 ^ k / 32)) / need.toNat + 1) := by
  have hpos : 0 < need.toNat := Nat.pos_of_ne_zero fun h => hneed (BitVec.eq_of_toNat_eq h)
  have hle : 2 ^ k ≤ need.toNat := Nat.le_of_dvd hpos hdvd
  have hproduct : (numberOfFreeClusters * (bytesPerCluster k >>> 5)).toNat =
      ulong (numberOfFreeClusters.toNat * (2 ^ k / 32)) := by
    rw [BitVec.toNat_mul, BitVec.toNat_ushiftRight, toNat_bytesPerCluster hk,
      Nat.shiftRight_eq_div_pow, ulong]
  generalize hq : ulong (numberOfFreeClusters.toNat * (2 ^ k / 32)) / need.toNat = q
  have hlt : q + 1 < 2 ^ 32 := by
    rcases Nat.eq_zero_or_pos (2 ^ k / 32) with hzero | hlarge
    · rw [← hq, hzero, Nat.mul_zero, ulong, Nat.zero_mod, Nat.zero_div]
      norm_num
    · have htwo : 2 ≤ need.toNat := by omega
      have hmod : ulong (numberOfFreeClusters.toNat * (2 ^ k / 32)) < 2 ^ 32 :=
        Nat.mod_lt _ (by norm_num)
      have hhalf := Nat.div_le_div_left (a := ulong (numberOfFreeClusters.toNat * (2 ^ k / 32))) htwo
        (by norm_num)
      omega
  have hquotient : ((numberOfFreeClusters * (bytesPerCluster k >>> 5) / need + 1).setWidth 64).toNat =
      q + 1 := by
    change ((_ / need + 1#32).setWidth 64).toNat = _
    rw [toNat_setWidth_ulong, BitVec.toNat_add, BitVec.toNat_udiv, hproduct, hq, BitVec.toNat_ofNat,
      Nat.one_mod, Nat.mod_eq_of_lt hlt]
  rw [multiplier]
  split
  · rename_i h
    rw [BitVec.lt_def, hquotient] at h
    change 32 < q + 1 at h
    change 32 = _
    omega
  · rename_i h
    rw [BitVec.lt_def, hquotient] at h
    change ¬ 32 < q + 1 at h
    rw [hquotient]
    omega

/-! ## The chunk -/

/-- What is asked for, as numbers. -/
structure Asks (k : ℕ) (allocationSize fileSize numberOfFreeClusters need : BitVec 32) : Prop where
  sum : allocationSize.toNat + need.toNat = ceilTo k fileSize.toNat
  cap : ceilTo k fileSize.toNat ≤ 2 ^ 32 - 2 ^ k
  dvd : 2 ^ k ∣ need.toNat
  pos : 0 < need.toNat
  target : (targetAllocation k allocationSize numberOfFreeClusters need).toNat =
    min (allocationSize.toNat + (multiplier k numberOfFreeClusters need).toNat * need.toNat)
      (2 ^ 32 - 2 ^ k)
  added : allocationSize.toNat + (addedAllocation k allocationSize numberOfFreeClusters need).toNat =
    (targetAllocation k allocationSize numberOfFreeClusters need).toNat

variable (hk : k < 32) (hdvd : 2 ^ k ∣ allocationSize.toNat)
  (hlt : allocationSize.toNat < fileSize.toNat)

include hk hdvd hlt

/-- In front of the last cluster of 4 GB the need is at least a cluster. -/
theorem asks (haligned : clusterAlignedFileSize k fileSize ≠ 0) :
    Asks k allocationSize fileSize numberOfFreeClusters
      (clusterAlignedFileSize k fileSize - allocationSize) := by
  have hmod : 2 ^ k ∣ 2 ^ 32 := pow_dvd_pow 2 hk.le
  have hpos := Nat.two_pow_pos k
  have hpow : 2 ^ k < 2 ^ 32 := Nat.pow_lt_pow_right (by norm_num) hk
  have hup : (clusterAlignedFileSize k fileSize).toNat = ceilTo k fileSize.toNat ∧
      fileSize.toNat + (2 ^ k - 1) < 2 ^ 32 := by
    have hval := toNat_clusterAlignedFileSize hk fileSize
    split at hval
    · rename_i hfits
      exact ⟨hval, hfits⟩
    · exact absurd (BitVec.eq_of_toNat_eq hval) haligned
  have hle := le_ceilTo k fileSize.toNat
  have hceil : 2 ^ k ∣ ceilTo k fileSize.toNat := Dvd.intro_left _ rfl
  have hneed : (clusterAlignedFileSize k fileSize - allocationSize).toNat =
      ceilTo k fileSize.toNat - allocationSize.toNat := by
    rw [BitVec.toNat_sub_of_le, hup.1]
    rw [BitVec.le_def, hup.1]
    omega
  have hcap : ceilTo k fileSize.toNat ≤ 2 ^ 32 - 2 ^ k := by
    have hbelow := ceilTo_lt k fileSize.toNat
    have hsub := Nat.dvd_sub hmod hceil
    have := Nat.le_of_dvd (by omega) hsub
    omega
  generalize clusterAlignedFileSize k fileSize - allocationSize = need at *
  have hmult : (multiplier k numberOfFreeClusters need).toNat ≤ 32 := by
    rw [toNat_multiplier hk (fun h => by rw [h] at hneed; simp at hneed; omega)
      (hneed ▸ Nat.dvd_sub hceil hdvd)]
    exact min_le_left _ _
  have hproduct : (multiplier k numberOfFreeClusters need * need.setWidth 64).toNat =
      (multiplier k numberOfFreeClusters need).toNat * need.toNat := by
    have hbound := Nat.mul_le_mul hmult need.isLt.le
    rw [BitVec.toNat_mul, toNat_setWidth_ulong, Nat.mod_eq_of_lt (by omega)]
  have hsum : (allocationSize.setWidth 64 +
      multiplier k numberOfFreeClusters need * need.setWidth 64).toNat =
      allocationSize.toNat + (multiplier k numberOfFreeClusters need).toNat * need.toNat := by
    have hbound := Nat.mul_le_mul hmult need.isLt.le
    have ha := allocationSize.isLt
    rw [BitVec.toNat_add, toNat_setWidth_ulong, hproduct, Nat.mod_eq_of_lt (by omega)]
  have htarget : (targetAllocation k allocationSize numberOfFreeClusters need).toNat =
      min (allocationSize.toNat + (multiplier k numberOfFreeClusters need).toNat * need.toNat)
        (2 ^ 32 - 2 ^ k) := by
    rw [targetAllocation]
    split
    · rename_i h
      rw [BitVec.lt_def, hsum, toNat_setWidth_ulong, toNat_maximumSize hk] at h
      rw [toNat_setWidth_ulong, toNat_maximumSize hk, min_eq_right h.le]
    · rename_i h
      rw [BitVec.lt_def, hsum, toNat_setWidth_ulong, toNat_maximumSize hk] at h
      rw [hsum, min_eq_left (not_lt.mp h)]
  refine ⟨by omega, hcap, hneed ▸ Nat.dvd_sub hceil hdvd, by omega, htarget, ?_⟩
  rw [htarget, addedAllocation]
  split
  · rename_i h
    rw [BitVec.lt_def, hsum, toNat_setWidth_ulong, toNat_maximumSize hk] at h
    have hroom : (allocationSize.setWidth 64).toNat ≤ ((maximumSize k).setWidth 64).toNat := by
      rw [toNat_setWidth_ulong, toNat_setWidth_ulong, toNat_maximumSize hk]
      omega
    rw [BitVec.toNat_sub_of_le hroom, toNat_setWidth_ulong, toNat_setWidth_ulong,
      toNat_maximumSize hk, min_eq_right h.le]
    omega
  · rename_i h
    rw [BitVec.lt_def, hsum, toNat_setWidth_ulong, toNat_maximumSize hk] at h
    rw [hproduct, min_eq_left (not_lt.mp h)]

omit hdvd hlt in
theorem Asks.one_le (h : Asks k allocationSize fileSize numberOfFreeClusters need) :
    1 ≤ (multiplier k numberOfFreeClusters need).toNat := by
  have hne : need ≠ 0 := by
    rintro rfl
    exact absurd h.pos (lt_irrefl 0)
  rw [toNat_multiplier hk hne h.dvd]
  exact le_min (by norm_num) (Nat.succ_pos _)

/-- **Chunking near 4 GB**: nothing is divided by zero, and the chunk that is tried ends behind the
write, on a cluster, and a cluster or more in front of 4 GB. -/
theorem chunking_spec : chunking k allocationSize fileSize numberOfFreeClusters ≠ .divideByZero ∧
    ∀ target added, chunking k allocationSize fileSize numberOfFreeClusters = .chunk target added →
      target.toNat < 2 ^ 32 ∧ 2 ^ k ∣ target.toNat ∧ fileSize.toNat ≤ target.toNat ∧
        target.toNat ≤ 2 ^ 32 - 2 ^ k ∧ added.toNat = target.toNat - allocationSize.toNat := by
  have hpow : 2 ^ k < 2 ^ 32 := Nat.pow_lt_pow_right (by norm_num) hk
  rw [chunking]
  by_cases haligned : clusterAlignedFileSize k fileSize ≠ 0
  · have h : Asks k allocationSize fileSize numberOfFreeClusters _ := asks hk hdvd hlt haligned
    have hmult := Nat.le_mul_of_pos_left
      (clusterAlignedFileSize k fileSize - allocationSize).toNat (h.one_le hk)
    have hne : clusterAlignedFileSize k fileSize - allocationSize ≠ 0 := by
      intro hzero
      have hpos := h.pos
      rw [hzero] at hpos
      exact absurd hpos (lt_irrefl 0)
    rw [if_pos haligned]
    dsimp only
    rw [if_neg hne]
    split
    · refine ⟨nofun, ?_⟩
      rintro target added heq
      obtain ⟨rfl, rfl⟩ := Chunking.chunk.inj heq
      have hadded := h.added
      have hle := le_ceilTo k fileSize.toNat
      have hsum := h.sum
      have hcap := h.cap
      rw [h.target] at hadded ⊢
      refine ⟨by omega, ?_, by omega, min_le_right _ _, by omega⟩
      rcases min_choice (allocationSize.toNat + _ * _) (2 ^ 32 - 2 ^ k) with heq | heq
      · rw [heq]
        exact Nat.dvd_add hdvd (Dvd.dvd.mul_left h.dvd _)
      · rw [heq]
        exact Nat.dvd_sub (pow_dvd_pow 2 hk.le) dvd_rfl
    · exact ⟨nofun, nofun⟩
  · rw [if_neg haligned]
    exact ⟨nofun, nofun⟩

/-- On a volume with clusters of `2 ^ k` bytes the computation in numbers tries the same size. -/
theorem chunkTarget_eq {site : Site} (hsite : site.bytesPerCluster = 2 ^ k) :
    chunkTarget site numberOfFreeClusters.toNat allocationSize.toNat fileSize.toNat =
      (chunking k allocationSize fileSize numberOfFreeClusters).target := by
  have halign : align (2 ^ k) fileSize.toNat = (clusterAlignedFileSize k fileSize).toNat := by
    rw [clusterAlignedFileSize, bytesPerCluster, toNat_and_not_mask _ hk, BitVec.toNat_add,
      toNat_twoPow_sub_one hk, align, ulong]
  simp only [chunkTarget, hsite, halign]
  rw [chunking]
  by_cases haligned : clusterAlignedFileSize k fileSize ≠ 0
  · have h : Asks k allocationSize fileSize numberOfFreeClusters _ := asks hk hdvd hlt haligned
    have hne : clusterAlignedFileSize k fileSize - allocationSize ≠ 0 := by
      intro hzero
      have hpos := h.pos
      rw [hzero] at hpos
      exact absurd hpos (lt_irrefl 0)
    have hneed : (clusterAlignedFileSize k fileSize).toNat - allocationSize.toNat =
        (clusterAlignedFileSize k fileSize - allocationSize).toNat := by
      have hval := toNat_clusterAlignedFileSize hk fileSize
      split at hval
      · rw [hval, ← h.sum, Nat.add_sub_cancel_left]
      · exact absurd (BitVec.eq_of_toNat_eq hval) haligned
    have hmult : (multiplier k numberOfFreeClusters _).toNat = _ := toNat_multiplier hk hne h.dvd
    have hadded : (addedAllocation k allocationSize numberOfFreeClusters
        (clusterAlignedFileSize k fileSize - allocationSize)).toNat =
        min (allocationSize.toNat + min 32 (ulong (numberOfFreeClusters.toNat * (2 ^ k / 32)) /
          (clusterAlignedFileSize k fileSize - allocationSize).toNat + 1) *
          (clusterAlignedFileSize k fileSize - allocationSize).toNat) (2 ^ 32 - 2 ^ k) -
          allocationSize.toNat := by
      rw [← hmult, ← h.target, ← h.added, Nat.add_sub_cancel_left]
    have hnonzero : (clusterAlignedFileSize k fileSize).toNat ≠ 0 := fun hzero =>
      haligned (BitVec.eq_of_toNat_eq hzero)
    rw [if_neg hnonzero, if_pos haligned]
    dsimp only
    rw [if_neg hne, hneed, ← hadded, ← hmult, ← h.target]
    by_cases hroom : addedAllocation k allocationSize numberOfFreeClusters
        (clusterAlignedFileSize k fileSize - allocationSize) / (bytesPerCluster k).setWidth 64 ≤
        numberOfFreeClusters.setWidth 64
    · have hle := BitVec.le_def.mp hroom
      rw [BitVec.toNat_udiv, toNat_setWidth_ulong, toNat_setWidth_ulong, toNat_bytesPerCluster hk] at hle
      rw [if_pos hroom, if_pos hle]
      rfl
    · have hgt := fun hle => hroom (BitVec.le_def.mpr hle)
      rw [BitVec.toNat_udiv, toNat_setWidth_ulong, toNat_setWidth_ulong, toNat_bytesPerCluster hk] at hgt
      rw [if_neg hroom, if_neg hgt]
      rfl
  · rw [if_pos (by rw [not_not.mp haligned]; rfl), if_neg haligned]
    rfl

omit hk hdvd hlt in
/-- A file that grows into the last but one cluster of 4 GB, on a volume with much space. -/
theorem chunking_spec_almostFull : chunking 12 0xffffd000 0xffffe001 0xfffff ≠ .divideByZero ∧
    ∀ target added, chunking 12 0xffffd000 0xffffe001 0xfffff = .chunk target added →
      target.toNat < 2 ^ 32 ∧ 2 ^ 12 ∣ target.toNat ∧
        (0xffffe001 : BitVec 32).toNat ≤ target.toNat ∧ target.toNat ≤ 2 ^ 32 - 2 ^ 12 ∧
        added.toNat = target.toNat - (0xffffd000 : BitVec 32).toNat :=
  chunking_spec (by norm_num) (by decide) (by decide)

end KernelDrivers.Fat.Sizes
