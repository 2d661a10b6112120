import KernelDrivers.ImDisk.Vhd

/-!
# Two readers of the partition table

`ImDiskGetPartitionInfoIndirect` lists the four entries of the master boot record and the four of an
extended table that one of them leads to.  `devio` looks for a partition by its number: it reads an
extended table into the buffer with the master boot record and goes on with the entries behind, which
are those of the extended table then, and it counts the number down for every table it finds.

Sectors have 512 bytes.  `devio` has no arguments behind the number of the partition.

## Main definitions

* `imDiskGetPartitionInfoIndirect` — the reader of the library.
* `selectPartition` — the one in `main` of `devio`.
* `Agrees` — `devio` serves the window that the library reports.
* `chain` — the sectors that `devio` takes for extended tables.
* `OneTable` — there is one, and it is the one of the library.

## Main results

* `partitionInfo_eq` — what the library reports.
* `selectPartition_of_chain` — what `devio` serves.
* `agrees_iff` — when both are the same.
-/

namespace KernelDrivers.ImDisk.Partition

open KernelDrivers.ImDisk.Vhd (File)

/-! ## Tables -/

structure Sector where
  bytes : ℕ → UInt8

/-- A sector of an image, zero behind its end. -/
def sectorAt (f : File) (offset : ℕ) : Sector := ⟨fun i => f.bytes (offset + i)⟩

namespace Sector

variable (t : Sector) (i : ℕ)

def partitionType : UInt8 := t.bytes (512 - 66 + i <<< 4 + 4)

/-- The first sector of an entry. -/
def start : ℕ := ofBytes (slice t.bytes (512 - 66 + i <<< 4 + 8) 4)

/-- The number of sectors of an entry. -/
def count : ℕ := ofBytes (slice t.bytes (512 - 66 + i <<< 4 + 12) 4)

/-- The signature is there, and the entries begin with `0x00` or `0x80`. -/
def Valid : Prop :=
  ofBytes (slice t.bytes 0x01FE 2) = 0xAA55 ∧ t.bytes 0x01BE &&& 0x7F = 0 ∧
    t.bytes 0x01CE &&& 0x7F = 0 ∧ t.bytes 0x01DE &&& 0x7F = 0 ∧ t.bytes 0x01EE &&& 0x7F = 0

instance : Decidable t.Valid := inferInstanceAs (Decidable (_ ∧ _))

/-- The types that `devio` takes for an extended partition. -/
def IsContainer : Prop := t.partitionType i = 0x05 ∨ t.partitionType i = 0x0F

instance : Decidable (t.IsContainer i) := inferInstanceAs (Decidable (_ ∨ _))

end Sector

/-! ## The library -/

/-- `PARTITION_INFORMATION`, with two flags that are always false left out. -/
structure PartitionInformation where
  startingOffset : ℕ
  partitionLength : ℕ
  hiddenSectors : ℕ
  partitionNumber : ℕ
  partitionType : UInt8
  bootIndicator : UInt8

def PartitionInformation.zero : PartitionInformation := ⟨0, 0, 0, 0, 0, 0⟩

/-- An entry of a table whose sectors count from `base` on. -/
def partitionInformation (t : Sector) (base i : ℕ) : PartitionInformation where
  startingOffset := base + 512 * t.start i
  partitionLength := 512 * t.count i
  hiddenSectors := t.start i
  partitionNumber := i + 1
  partitionType := t.partitionType i
  bootIndicator := t.bytes (512 - 66 + i <<< 4) >>> 7

/-- `ReadFileProc` for one sector, which has to be there as a whole. -/
def readFileProc (f : File) (offset : ℕ) : Option Sector :=
  if offset + 512 ≤ f.length then some (sectorAt f offset) else none

section Library

variable (isContainerPartition : UInt8 → Bool) (f : File) (offset : ℕ)

/-- One pass of the loop over the master boot record. -/
def readEntry (buffer : Sector) (infos : ℕ → PartitionInformation) (i : ℕ) :
    Option (ℕ → PartitionInformation) := do
  let info := partitionInformation buffer 0 i
  let infos := Function.update infos i info
  if isContainerPartition info.partitionType then
    let extended ← readFileProc f (offset + info.startingOffset)
    if extended.Valid then
      return fun n => if 4 ≤ n ∧ n < 8 then partitionInformation extended info.startingOffset (n - 4)
        else infos n
    else none
  else return infos

/-- The eight partitions of the image. -/
def imDiskGetPartitionInfoIndirect : Option (ℕ → PartitionInformation) := do
  let buffer ← readFileProc f offset
  if buffer.Valid then
    (List.range 4).foldlM (readEntry isContainerPartition f offset buffer) fun _ => .zero
  else none

end Library

/-! ## devio -/

/-- `mbr`, `offset` and `partition_number`. -/
structure Selection where
  mbr : Sector
  offset : ℕ
  partitionNumber : ℤ

/-- One pass of the loop for an extended table, which is read into `mbr`. -/
def readExtended (f : File) (s : Selection) (i : ℕ) : Selection :=
  if s.mbr.IsContainer i then
    let offset := s.mbr.start i <<< 9
    let mbr := sectorAt f offset
    { mbr, offset, partitionNumber := if mbr.Valid then s.partitionNumber - 4 else s.partitionNumber }
  else s

/-- The offset and the size that are served, unless the program ends. -/
def selectPartition (f : File) (partitionNumber : ℤ) : Option (ℕ × ℕ) :=
  if 1 ≤ partitionNumber ∧ partitionNumber ≤ 8 ∧ (sectorAt f 0).Valid then
    let s₀ : Selection := ⟨sectorAt f 0, 0, partitionNumber⟩
    let s := if 5 ≤ partitionNumber then (List.range 4).foldl (readExtended f) s₀ else s₀
    if 4 < s.partitionNumber then none
    else if 1 ≤ s.partitionNumber then
      let i := (s.partitionNumber - 1).toNat
      let offset := s.offset + s.mbr.start i <<< 9
      let fileSize := s.mbr.count i <<< 9
      if fileSize = 0 ∨ f.length ≠ 0 ∧ f.length < offset + fileSize then none
      else some (offset, fileSize)
    else some (s.offset, f.length)
  else some (0, f.length)

/-- When the library reports a window within the image, `devio` serves it. -/
def Agrees (isContainerPartition : UInt8 → Bool) (f : File) (k : ℕ) : Prop :=
  ∀ infos, imDiskGetPartitionInfoIndirect isContainerPartition f 0 = some infos →
    (infos (k - 1)).partitionLength ≠ 0 →
    (infos (k - 1)).startingOffset + (infos (k - 1)).partitionLength ≤ f.length →
    selectPartition f k = some ((infos (k - 1)).startingOffset, (infos (k - 1)).partitionLength)

/-! ## The tables of both -/

/-- The sectors that container entries lead to, each in a table that was read last, at the positions
`is`. -/
def chain (f : File) : List ℕ → Sector → List ℕ
  | [], _ => []
  | i :: is, t =>
      if t.IsContainer i then t.start i :: chain f is (sectorAt f (512 * t.start i))
      else chain f is t

/-- The sector of the container entry that comes last. -/
def lastContainer (t : Sector) : Option ℕ :=
  (((List.range 4).filter t.IsContainer).getLast?).map t.start

/-- The sectors that `devio` takes for extended tables. -/
def extendedTables (f : File) : List ℕ := chain f (List.range 4) (sectorAt f 0)

/-- The window of an entry of the extended table in sector `c`. -/
def window (f : File) (c j : ℕ) : ℕ × ℕ :=
  (512 * c + 512 * (sectorAt f (512 * c)).start j, 512 * (sectorAt f (512 * c)).count j)

/-- `devio` comes to one extended table only, and it is the one of the library. -/
def OneTable (f : File) : Prop :=
  ∃ c, extendedTables f = [c] ∧ lastContainer (sectorAt f 0) = some c

/-- The extended tables that `devio` takes for valid. -/
def validTables (f : File) : ℕ :=
  (extendedTables f).countP fun c => (sectorAt f (512 * c)).Valid

/-- What `devio` comes to with other tables is the window of entry `j` of the table in sector `c₁`
all the same. -/
def SameByChance (f : File) (c₁ j : ℕ) : Prop :=
  ∃ c, (extendedTables f).getLast? = some c ∧
    window f c₁ j = if validTables f = 1 then window f c j else (512 * c, f.length)

section Library

variable {isContainerPartition : UInt8 → Bool} {f : File} {t : Sector} {is : List ℕ}
  {infos infos' : ℕ → PartitionInformation}

/-- What one pass of the library does. -/
theorem readEntry_eq_some (hcontainer : ∀ b, isContainerPartition b = true ↔ b = 0x05 ∨ b = 0x0F)
    {i : ℕ} (h : readEntry isContainerPartition f 0 t infos i = some infos') :
    (t.IsContainer i → 512 * t.start i + 512 ≤ f.length ∧ (sectorAt f (512 * t.start i)).Valid) ∧
      ∀ n, infos' n = if t.IsContainer i ∧ 4 ≤ n ∧ n < 8 then
          partitionInformation (sectorAt f (512 * t.start i)) (512 * t.start i) (n - 4)
        else Function.update infos i (partitionInformation t 0 i) n := by
  have htype : (partitionInformation t 0 i).partitionType = t.partitionType i := rfl
  have hstart : 0 + (partitionInformation t 0 i).startingOffset = 512 * t.start i := by
    simp [partitionInformation]
  rw [readEntry] at h
  by_cases hc : t.IsContainer i
  · have htrue : isContainerPartition (partitionInformation t 0 i).partitionType = true :=
      (hcontainer _).mpr hc
    simp only [htrue, if_true, hstart, readFileProc] at h
    by_cases hlen : 512 * t.start i + 512 ≤ f.length
    · rw [if_pos hlen] at h
      by_cases hvalid : (sectorAt f (512 * t.start i)).Valid
      · simp only [Option.bind_eq_bind, Option.bind_some, if_pos hvalid, Option.pure_def,
          Option.some.injEq] at h
        refine ⟨fun _ => ⟨hlen, hvalid⟩, fun n => ?_⟩
        rw [← h]
        rw [Nat.zero_add] at hstart
        simp only [hc, true_and, hstart]
      · simp [hvalid] at h
    · simp [hlen] at h
  · have hfalse : isContainerPartition (partitionInformation t 0 i).partitionType = false := by
      rw [Bool.eq_false_iff, Ne, hcontainer]
      exact hc
    simp only [hfalse, Bool.false_eq_true, if_false, Option.pure_def, Option.some.injEq] at h
    refine ⟨fun hc' => absurd hc' hc, fun n => ?_⟩
    rw [← h, if_neg (fun hc' => hc hc'.1)]

/-- The sector of the container entry among these that comes last. -/
def lastOf (t : Sector) (is : List ℕ) : Option ℕ := ((is.filter t.IsContainer).getLast?).map t.start

theorem lastOf_cons (i : ℕ) : lastOf t (i :: is) =
    if t.IsContainer i then some ((lastOf t is).getD (t.start i)) else lastOf t is := by
  rw [lastOf, lastOf, List.filter_cons]
  by_cases hc : t.IsContainer i
  · simp only [hc, decide_true, if_true, List.getLast?_cons, Option.map_some]
    cases (is.filter t.IsContainer).getLast? <;> rfl
  · simp [hc]

/-- What the loop of the library reports. -/
theorem foldlM_readEntry (hcontainer : ∀ b, isContainerPartition b = true ↔ b = 0x05 ∨ b = 0x0F)
    (his : ∀ i ∈ is, i < 4)
    (h : is.foldlM (readEntry isContainerPartition f 0 t) infos = some infos') :
    (∀ i ∈ is, t.IsContainer i → (sectorAt f (512 * t.start i)).Valid) ∧
      (∀ i < 4, infos' i = if i ∈ is then partitionInformation t 0 i else infos i) ∧
      ∀ n, 4 ≤ n → n < 8 → infos' n = (lastOf t is).elim (infos n) fun c =>
        partitionInformation (sectorAt f (512 * c)) (512 * c) (n - 4) := by
  induction is generalizing infos with
  | nil =>
      simp only [List.foldlM_nil, Option.pure_def, Option.some.injEq] at h
      subst h
      simp [lastOf]
  | cons i is ih =>
      rw [List.foldlM_cons, Option.bind_eq_bind, Option.bind_eq_some_iff] at h
      obtain ⟨infos₁, hone, hrest⟩ := h
      obtain ⟨hvalid, hinfos⟩ := readEntry_eq_some hcontainer hone
      obtain ⟨hvalid', hlow, hhigh⟩ := ih (fun j hj => his j (List.mem_cons_of_mem i hj)) hrest
      have hi := his i List.mem_cons_self
      refine ⟨fun j hj hc => ?_, fun j hj => ?_, fun n hn hn' => ?_⟩
      · rcases List.mem_cons.mp hj with rfl | hj
        · exact (hvalid hc).2
        · exact hvalid' j hj hc
      · have hupdate : infos₁ j = Function.update infos i (partitionInformation t 0 i) j := by
          rw [hinfos j, if_neg fun hc => absurd hc.2.1 (by omega)]
        rw [hlow j hj, hupdate]
        by_cases hji : j = i
        · simp [hji]
        · simp [hji]
      · rw [hhigh n hn hn', hinfos n, lastOf_cons]
        by_cases hc : t.IsContainer i
        · rw [if_pos ⟨hc, hn, hn'⟩, if_pos hc]
          cases lastOf t is <;> rfl
        · rw [if_neg (fun hc' => hc hc'.1), if_neg hc, Function.update_of_ne (by omega)]

/-- **What the library reports**: the entries of the boot record, and those of the extended table that
its last container entry leads to. -/
theorem partitionInfo_eq (hcontainer : ∀ b, isContainerPartition b = true ↔ b = 0x05 ∨ b = 0x0F)
    (h : imDiskGetPartitionInfoIndirect isContainerPartition f 0 = some infos) :
    (sectorAt f 0).Valid ∧
      (∀ i < 4, (sectorAt f 0).IsContainer i →
        (sectorAt f (512 * (sectorAt f 0).start i)).Valid) ∧
      (∀ i < 4, infos i = partitionInformation (sectorAt f 0) 0 i) ∧
      ∀ j < 4, infos (4 + j) = (lastContainer (sectorAt f 0)).elim .zero fun c =>
        partitionInformation (sectorAt f (512 * c)) (512 * c) j := by
  rw [imDiskGetPartitionInfoIndirect, readFileProc] at h
  by_cases hlen : 0 + 512 ≤ f.length
  · rw [if_pos hlen] at h
    simp only [Option.bind_eq_bind, Option.bind_some] at h
    by_cases hvalid : (sectorAt f 0).Valid
    · rw [if_pos hvalid] at h
      obtain ⟨hcontainers, hlow, hhigh⟩ := foldlM_readEntry hcontainer (by simp) h
      refine ⟨hvalid, fun i hi => hcontainers i (by simpa using hi), fun i hi => ?_, fun j hj => ?_⟩
      · rw [hlow i hi, if_pos (by simpa using hi)]
      · rw [hhigh (4 + j) (by omega) (by omega), Nat.add_sub_cancel_left]
        rfl
    · simp [hvalid] at h
  · simp [hlen] at h

end Library

section Devio

variable {f : File} {t : Sector} {is : List ℕ} {c k : ℕ}

theorem elim_some_getD {α β : Type} (o : Option α) (a : α) (b : β) (g : α → β) :
    (some (o.getD a)).elim b g = o.elim (g a) g := by
  cases o <;> rfl

/-- **What the loop of `devio` does.** -/
theorem foldl_readExtended (f : File) (is : List ℕ) (s : Selection) :
    is.foldl (readExtended f) s =
      { mbr := ((chain f is s.mbr).getLast?).elim s.mbr fun c => sectorAt f (512 * c)
        offset := ((chain f is s.mbr).getLast?).elim s.offset fun c => 512 * c
        partitionNumber := s.partitionNumber -
          4 * ((chain f is s.mbr).countP fun c => (sectorAt f (512 * c)).Valid) } := by
  induction is generalizing s with
  | nil => simp [chain]
  | cons i is ih =>
      rw [List.foldl_cons, ih, readExtended, chain]
      by_cases hc : s.mbr.IsContainer i
      · have hoffset : s.mbr.start i <<< 9 = 512 * s.mbr.start i := by
          rw [Nat.shiftLeft_eq, Nat.mul_comm]
        rw [if_pos hc, if_pos hc, hoffset]
        dsimp only
        generalize s.mbr.start i = c
        rw [List.getLast?_cons, elim_some_getD, elim_some_getD, List.countP_cons]
        by_cases hvalid : (sectorAt f (512 * c)).Valid
        · rw [if_pos hvalid, if_pos (by simpa using hvalid)]
          push_cast
          ring_nf
        · rw [if_neg hvalid, if_neg (by simpa using hvalid), Nat.add_zero]
      · rw [if_neg hc, if_neg hc]

theorem head_chain {cs : List ℕ} (h : chain f is t = c :: cs) :
    ∃ i ∈ is, t.IsContainer i ∧ c = t.start i := by
  induction is with
  | nil => simp [chain] at h
  | cons i is ih =>
      rw [chain] at h
      by_cases hc : t.IsContainer i
      · rw [if_pos hc] at h
        exact ⟨i, List.mem_cons_self, hc, (List.cons.inj h).1.symm⟩
      · rw [if_neg hc] at h
        obtain ⟨j, hj, hcontainer, heq⟩ := ih h
        exact ⟨j, List.mem_cons_of_mem i hj, hcontainer, heq⟩

theorem chain_eq_nil_iff : chain f is t = [] ↔ lastOf t is = none := by
  induction is with
  | nil => simp [chain, lastOf]
  | cons i is ih =>
      rw [chain, lastOf_cons]
      by_cases hc : t.IsContainer i
      · simp [hc]
      · simp [hc, ih]

/-- One of the first four partitions. -/
theorem selectPartition_of_le (hvalid : (sectorAt f 0).Valid) (hk : 1 ≤ k) (hk' : k ≤ 4) :
    selectPartition f k = if 512 * (sectorAt f 0).count (k - 1) = 0 ∨
        f.length ≠ 0 ∧ f.length < 512 * (sectorAt f 0).start (k - 1) +
          512 * (sectorAt f 0).count (k - 1) then none
      else some (512 * (sectorAt f 0).start (k - 1), 512 * (sectorAt f 0).count (k - 1)) := by
  have hindex : ((k : ℤ) - 1).toNat = k - 1 := by omega
  have hshift (n : ℕ) : n <<< 9 = 512 * n := by rw [Nat.shiftLeft_eq, Nat.mul_comm]
  rw [selectPartition, if_pos ⟨by omega, by omega, hvalid⟩]
  dsimp only
  rw [if_neg (by omega : ¬5 ≤ (k : ℤ)), if_neg (by dsimp only; omega), if_pos (by dsimp only; omega)]
  simp only [hindex, hshift, Nat.zero_add]

/-- One of the last four, behind the extended tables. -/
theorem selectPartition_of_chain (hvalid : (sectorAt f 0).Valid) (hk : 5 ≤ k) (hk' : k ≤ 8)
    (hlast : (extendedTables f).getLast? = some c) :
    selectPartition f k =
      if validTables f = 0 then none
      else if validTables f = 1 then
        if (window f c (k - 5)).2 = 0 ∨
          f.length ≠ 0 ∧ f.length < (window f c (k - 5)).1 + (window f c (k - 5)).2 then none
        else some (window f c (k - 5))
      else some (512 * c, f.length) := by
  have hshift (n : ℕ) : n <<< 9 = 512 * n := by rw [Nat.shiftLeft_eq, Nat.mul_comm]
  have hloop : (List.range 4).foldl (readExtended f) ⟨sectorAt f 0, 0, k⟩ =
      ⟨sectorAt f (512 * c), 512 * c, k - 4 * validTables f⟩ := by
    rw [extendedTables] at hlast
    rw [foldl_readExtended, hlast]
    rfl
  rw [selectPartition, if_pos ⟨by omega, by omega, hvalid⟩]
  dsimp only
  rw [if_pos (by omega : 5 ≤ (k : ℤ)), hloop]
  dsimp only
  rcases Nat.lt_trichotomy (validTables f) 1 with hnone | hone | hmore
  · rw [if_pos (by omega : 4 < (k : ℤ) - 4 * validTables f), if_pos (by omega)]
  · have hindex : ((k : ℤ) - 4 * validTables f - 1).toNat = k - 5 := by omega
    rw [if_neg (by omega : ¬4 < (k : ℤ) - 4 * validTables f),
      if_pos (by omega : 1 ≤ (k : ℤ) - 4 * validTables f), if_neg (by omega : ¬validTables f = 0),
      if_pos hone]
    rw [hindex, hshift, hshift]
    rfl
  · rw [if_neg (by omega : ¬4 < (k : ℤ) - 4 * validTables f),
      if_neg (by omega : ¬1 ≤ (k : ℤ) - 4 * validTables f), if_neg (by omega : ¬validTables f = 0),
      if_neg (by omega : ¬validTables f = 1)]

end Devio

/-! ## When both agree -/

/-- **`devio` serves what the library reports** if and only if it is one of the first four partitions,
or there is one extended table for both, or the windows are the same by chance. -/
theorem agrees_iff (isContainerPartition : UInt8 → Bool)
    (hcontainer : ∀ b, isContainerPartition b = true ↔ b = 0x05 ∨ b = 0x0F) (f : File) {k : ℕ}
    (hk : 1 ≤ k) (hk' : k ≤ 8) :
    Agrees isContainerPartition f k ↔ (4 < k → ∀ infos c₁,
      imDiskGetPartitionInfoIndirect isContainerPartition f 0 = some infos →
      lastContainer (sectorAt f 0) = some c₁ → (window f c₁ (k - 5)).2 ≠ 0 →
      (window f c₁ (k - 5)).1 + (window f c₁ (k - 5)).2 ≤ f.length →
      OneTable f ∨ SameByChance f c₁ (k - 5)) := by
  rcases Nat.lt_or_ge 4 k with hlogical | hprimary
  · have hindex : k - 1 = 4 + (k - 5) := by omega
    -- what both come to, when the library has something to report
    have hboth {infos : ℕ → PartitionInformation} {c₁ : ℕ}
        (hok : imDiskGetPartitionInfoIndirect isContainerPartition f 0 = some infos)
        (hlast : lastContainer (sectorAt f 0) = some c₁) :
        infos (k - 1) = partitionInformation (sectorAt f (512 * c₁)) (512 * c₁) (k - 5) ∧
          ∃ c, (extendedTables f).getLast? = some c ∧ validTables f ≠ 0 := by
      obtain ⟨-, hcontainers, -, hinfos⟩ := partitionInfo_eq hcontainer hok
      refine ⟨by rw [hindex, hinfos (k - 5) (by omega), hlast]; rfl, ?_⟩
      have hne : extendedTables f ≠ [] := by
        rw [extendedTables, Ne, chain_eq_nil_iff]
        exact fun hnone => by rw [lastContainer] at hlast; rw [lastOf, hlast] at hnone; cases hnone
      obtain ⟨c₀, cs, hcs⟩ := List.exists_cons_of_ne_nil hne
      obtain ⟨i, hi, hc, rfl⟩ := head_chain hcs
      refine ⟨_, by rw [hcs, List.getLast?_cons], ?_⟩
      rw [validTables, hcs, List.countP_cons,
        if_pos (by simpa using hcontainers i (List.mem_range.mp hi) hc)]
      omega
    constructor
    · intro hagrees _ infos c₁ hok hlast hlen hin
      obtain ⟨hinfo, c, hc, hsome⟩ := hboth hok hlast
      have hserved := hagrees infos hok (by rw [hinfo]; exact hlen) (by rw [hinfo]; exact hin)
      rw [hinfo, selectPartition_of_chain (partitionInfo_eq hcontainer hok).1 hlogical hk' hc,
        if_neg hsome] at hserved
      refine .inr ⟨c, hc, ?_⟩
      by_cases hone : validTables f = 1
      · rw [if_pos hone] at hserved ⊢
        by_cases hout : (window f c (k - 5)).2 = 0 ∨
            f.length ≠ 0 ∧ f.length < (window f c (k - 5)).1 + (window f c (k - 5)).2
        · rw [if_pos hout] at hserved
          cases hserved
        · rw [if_neg hout] at hserved
          exact (Option.some.inj hserved).symm
      · rw [if_neg hone] at hserved ⊢
        exact (Option.some.inj hserved).symm
    · intro hcond infos hok hlen hin
      obtain ⟨hvalid, -, -, hinfos⟩ := partitionInfo_eq hcontainer hok
      cases hlast : lastContainer (sectorAt f 0) with
      | none =>
          rw [hindex, hinfos (k - 5) (by omega), hlast] at hlen
          exact absurd rfl hlen
      | some c₁ =>
          obtain ⟨hinfo, c, hc, hsome⟩ := hboth hok hlast
          rw [hinfo] at hlen hin ⊢
          have hlen' : (window f c₁ (k - 5)).2 ≠ 0 := hlen
          have hin' : (window f c₁ (k - 5)).1 + (window f c₁ (k - 5)).2 ≤ f.length := hin
          have hwindow : ((partitionInformation (sectorAt f (512 * c₁)) (512 * c₁) (k - 5)).startingOffset,
              (partitionInformation (sectorAt f (512 * c₁)) (512 * c₁) (k - 5)).partitionLength) =
              window f c₁ (k - 5) := rfl
          rw [hwindow, selectPartition_of_chain hvalid hlogical hk' hc, if_neg hsome]
          have hchance : SameByChance f c₁ (k - 5) := by
            refine (hcond hlogical infos c₁ hok hlast hlen' hin').elim ?_ id
            rintro ⟨c', htables, hlast'⟩
            obtain rfl : c₁ = c' := Option.some.inj (hlast.symm.trans hlast')
            have hone : validTables f = 1 := by
              have hle : validTables f ≤ 1 := by
                rw [validTables, htables]
                exact List.countP_le_length
              omega
            exact ⟨c₁, by rw [htables]; rfl, by rw [if_pos hone]⟩
          obtain ⟨c', hc', hsame⟩ := hchance
          obtain rfl : c = c' := Option.some.inj (hc.symm.trans hc')
          by_cases hone : validTables f = 1
          · rw [if_pos hone] at hsame ⊢
            rw [← hsame, if_neg (by omega)]
          · rw [if_neg hone] at hsame ⊢
            rw [hsame]
  · have hvacuous : ∀ P : Prop, (4 < k → P) ↔ True := by
      intro P
      simp [Nat.not_lt.mpr hprimary]
    rw [hvacuous, iff_true]
    intro infos hok hlen hin
    obtain ⟨hvalid, -, hinfos, -⟩ := partitionInfo_eq hcontainer hok
    rw [hinfos (k - 1) (by omega)] at hlen hin ⊢
    simp only [partitionInformation, Nat.zero_add] at hlen hin ⊢
    rw [selectPartition_of_le hvalid hk hprimary, if_neg (by omega)]

/-- The macro `IsContainerPartition`. -/
def isContainerPartition (b : UInt8) : Bool := b = 0x05 || b = 0x0F

theorem isContainerPartition_iff (b : UInt8) : isContainerPartition b = true ↔ b = 0x05 ∨ b = 0x0F := by
  simp [isContainerPartition]

/-- A disk of 8 sectors with an extended partition from sector 1 on, and a logical one of one sector
behind its table. -/
def oneLogical : File :=
  let bytes := place (place (fun _ => 0) 450 [0x05, 0, 0, 0, 1, 0, 0, 0, 7, 0, 0, 0]) 510 [0x55, 0xAA]
  let disk : File := ⟨fun i => if i < 512 then bytes i else 0, 4096, fun i hi => if_neg (by omega)⟩
  (disk.write [0x06, 0, 0, 0, 1, 0, 0, 0, 1, 0, 0, 0] 962).write [0x55, 0xAA] 1022

theorem agrees_oneLogical : Agrees isContainerPartition oneLogical 5 := by
  refine (agrees_iff isContainerPartition isContainerPartition_iff oneLogical (by decide)
    (by decide)).mpr fun _ infos c₁ _ _ _ _ => .inl ⟨1, ?_, ?_⟩
  · decide +kernel
  · decide +kernel

/-- With a second logical partition, in the table behind the first one. -/
def twoLogical : File := oneLogical.write [0x05, 0, 0, 0, 2, 0, 0, 0, 2, 0, 0, 0] 978

/-- The entry of the second table is taken for one of the boot record. -/
theorem not_agrees : ¬ ∀ (isContainerPartition : UInt8 → Bool) (f : File) (k : ℕ),
    (∀ b, isContainerPartition b = true ↔ b = 0x05 ∨ b = 0x0F) → 1 ≤ k → k ≤ 8 →
    Agrees isContainerPartition f k := by
  intro hall
  have hagrees := hall isContainerPartition twoLogical 5 isContainerPartition_iff (by decide) (by decide)
  have hreport : ((imDiskGetPartitionInfoIndirect isContainerPartition twoLogical 0).map fun infos =>
      ((infos 4).startingOffset, (infos 4).partitionLength)) = some (1024, 512) := by
    decide +kernel
  have hlength : twoLogical.length = 4096 := by decide +kernel
  have hserved : selectPartition twoLogical 5 = none := by decide +kernel
  obtain ⟨infos, hok, hinfo⟩ := Option.map_eq_some_iff.mp hreport
  obtain ⟨hstart, hlen⟩ := Prod.mk.inj hinfo
  have := hagrees infos hok (by rw [hlen]; decide) (by rw [hstart, hlen, hlength]; decide)
  rw [Nat.cast_ofNat, hserved] at this
  cases this

end KernelDrivers.ImDisk.Partition
