import KernelDrivers.ImDisk.Partition

/-!
# Partition tables

`ImDiskBuildMBR` stores up to four partitions in a copy of a default master boot record, and
`ImDiskGetPartitionInfoIndirect` reads a table back, for sectors of any size.  The cylinder, head and
sector of a partition are three bytes, stored with four bytes of a number; what follows them is stored
afterwards.

The reader keeps two sectors in a buffer on its stack.  Here the buffer is a memory in which the first
sector begins at 0, and what lies around it is arbitrary.  That the stack can run out is left out.

## Main definitions

* `imDiskConvertLBAToCHS`, `imDiskConvertCHSToLBA` — the packed cylinder, head and sector.
* `imDiskBuildMBR` — the writer.
* `imDiskGetPartitionInfoIndirect` — the reader.
* `RoundTrips` — the reader reports what was written.

## Main results

* `convertCHSToLBA_convertLBAToCHS` — an addressable sector comes back.
* `writeEntries_spec` — what is in the table.
* `roundTrips` — every table that is built comes back.
-/

namespace KernelDrivers.ImDisk.Mbr

open KernelDrivers.Fat (ulong ulongSub ulong_of_lt)
open KernelDrivers.ImDisk.Vhd

/-! ## Cylinder, head and sector -/

/-- What a partition table needs of a `DISK_GEOMETRY`. -/
structure DiskGeometry where
  tracksPerCylinder : ℕ
  sectorsPerTrack : ℕ
  bytesPerSector : ℕ

structure Chs where
  cylinder : ℕ
  head : ℕ
  sector : ℕ

namespace Chs

/-- The three fit their bits. -/
def Addressable (c : Chs) : Prop := c.cylinder < 1024 ∧ c.head < 256 ∧ c.sector < 64

instance (c : Chs) : Decidable c.Addressable := inferInstanceAs (Decidable (_ ∧ _))

/-- The cylinder lies in the third byte, and its high bits in the second. -/
def pack (c : Chs) : ℕ :=
  c.head ||| c.sector <<< 8 ||| (c.cylinder &&& 0x0FF) <<< 16 ||| (c.cylinder &&& 0x300) <<< 6

/-- Bits above those that are in use. -/
theorem or_shiftLeft {low k : ℕ} (n : ℕ) (h : low < 2 ^ k) : low ||| n <<< k = low + n * 2 ^ k := by
  have hadd := Nat.shiftLeft_add_eq_or_of_lt h n
  rw [Nat.or_comm, ← hadd, Nat.shiftLeft_eq, Nat.add_comm]

/-- The two high bits of a cylinder. -/
theorem and_high {n : ℕ} (h : n < 1024) : n &&& 0x300 = (n / 256) <<< 8 := by
  have hbits : n &&& 3 <<< 8 = (n >>> 8 &&& 3) <<< 8 := by
    apply Nat.eq_of_testBit_eq
    intro j
    rw [Nat.testBit_and, Nat.testBit_shiftLeft, Nat.testBit_shiftLeft, Nat.testBit_and,
      Nat.testBit_shiftRight]
    by_cases hj : 8 ≤ j
    · simp [hj]
    · simp [hj]
  have hmod := Nat.and_two_pow_sub_one_eq_mod (n >>> 8) 2
  rw [Nat.shiftRight_eq_div_pow] at hmod hbits
  rw [show 0x300 = 3 <<< 8 from rfl, hbits, hmod, Nat.mod_eq_of_lt (by omega)]

/-- The bytes are the head, the sector with the high bits of the cylinder, and its low bits. -/
theorem pack_eq {c : Chs} (h : c.Addressable) : c.pack =
    c.head + 2 ^ 8 * (c.sector + 64 * (c.cylinder / 256)) + 2 ^ 16 * (c.cylinder % 256) := by
  obtain ⟨hcylinder, hhead, hsector⟩ := h
  have hlow : c.cylinder &&& 0x0FF = c.cylinder % 256 := Nat.and_two_pow_sub_one_eq_mod _ 8
  have hhigh : (c.cylinder &&& 0x300) <<< 6 = (c.cylinder / 256) <<< 14 := by
    rw [and_high hcylinder, ← Nat.shiftLeft_add]
  have hswap (a b c : ℕ) : a ||| b ||| c = a ||| c ||| b := by
    rw [Nat.or_assoc, Nat.or_comm b, ← Nat.or_assoc]
  rw [pack, hlow, hhigh, hswap, or_shiftLeft (k := 8) _ hhead, or_shiftLeft (k := 14),
    or_shiftLeft (k := 16)]
  · omega
  · omega
  · omega

end Chs

section Convert

variable (g : DiskGeometry)

/-- The place of a sector, its number counting from 1. -/
def lbaToChs (lba : ℕ) : Chs :=
  let sectorsPerCylinder := ulong (g.tracksPerCylinder * g.sectorsPerTrack)
  let temp := lba % sectorsPerCylinder
  ⟨lba / sectorsPerCylinder, temp / g.sectorsPerTrack, ulong (temp % g.sectorsPerTrack + 1)⟩

/-- A place that does not fit its bits is clamped. -/
def imDiskConvertLBAToCHS (lba : ℕ) : ℕ :=
  if (lbaToChs g lba).Addressable then (lbaToChs g lba).pack else Chs.pack ⟨1023, 254, 63⟩

/-- From three bytes. -/
def imDiskConvertCHSToLBA (chs : List UInt8) : ℕ :=
  let byte := fun i => (chs.getD i 0).toNat
  let cylinder := (byte 1 &&& 0xC0) <<< 2 ||| byte 2
  let heads := byte 0
  let sector := byte 1 &&& 0x3F
  ulongSub (ulong (ulong (ulong (cylinder * g.tracksPerCylinder + heads) * g.sectorsPerTrack) + sector)) 1

variable {g} {lba : ℕ}

/-- The place of a sector says which sector it is. -/
theorem lbaToChs_spec (hprod : g.tracksPerCylinder * g.sectorsPerTrack < 2 ^ 32)
    (htracks : g.tracksPerCylinder ≠ 0) (hsectors : g.sectorsPerTrack ≠ 0) :
    ((lbaToChs g lba).cylinder * g.tracksPerCylinder + (lbaToChs g lba).head) * g.sectorsPerTrack +
      (lbaToChs g lba).sector = lba + 1 := by
  have hle := Nat.le_mul_of_pos_left g.sectorsPerTrack (Nat.pos_of_ne_zero htracks)
  rw [lbaToChs, ulong_of_lt hprod]
  dsimp only
  generalize hcylinder : lba / (g.tracksPerCylinder * g.sectorsPerTrack) = cylinder
  generalize htemp : lba % (g.tracksPerCylinder * g.sectorsPerTrack) = temp
  have hlba := Nat.div_add_mod' lba (g.tracksPerCylinder * g.sectorsPerTrack)
  have hhead := Nat.div_add_mod' temp g.sectorsPerTrack
  rw [hcylinder, htemp, ← Nat.mul_assoc] at hlba
  rw [Nat.add_mul]
  have hlt := Nat.mod_lt temp (Nat.pos_of_ne_zero hsectors)
  rw [ulong_of_lt (by omega)]
  omega

/-- **An addressable sector comes back** from its three bytes. -/
theorem convertCHSToLBA_convertLBAToCHS (hprod : g.tracksPerCylinder * g.sectorsPerTrack < 2 ^ 32)
    (htracks : g.tracksPerCylinder ≠ 0) (hsectors : g.sectorsPerTrack ≠ 0) (hlba : lba < 2 ^ 32)
    (haddressable : (lbaToChs g lba).Addressable) :
    imDiskConvertCHSToLBA g (toBytes 3 (imDiskConvertLBAToCHS g lba)) = lba := by
  have hspec := @lbaToChs_spec g lba hprod htracks hsectors
  rw [imDiskConvertLBAToCHS, if_pos haddressable, Chs.pack_eq haddressable]
  generalize lbaToChs g lba = c at hspec haddressable
  obtain ⟨hcylinder, hhead, hsector⟩ := haddressable
  -- the bits of the second byte
  have hbits : ∀ x < 256, (x &&& 0xC0) <<< 2 = (x / 64) * 2 ^ 8 ∧ x &&& 0x3F = x % 64 := by
    decide +kernel
  obtain ⟨hhigh, hlow⟩ := hbits (c.sector + 64 * (c.cylinder / 256)) (by omega)
  have hmiddle : (c.sector + 64 * (c.cylinder / 256)) / 64 = c.cylinder / 256 := by omega
  have hcylinder' : (c.sector + 64 * (c.cylinder / 256) &&& 0xC0) <<< 2 ||| c.cylinder % 256 =
      c.cylinder := by
    rw [hhigh, hmiddle, Nat.or_comm, ← Nat.shiftLeft_eq, Chs.or_shiftLeft (k := 8) _ (by omega)]
    omega
  generalize hn : c.head + 2 ^ 8 * (c.sector + 64 * (c.cylinder / 256)) +
    2 ^ 16 * (c.cylinder % 256) = n
  have hzero : n % 2 ^ 8 = c.head := by omega
  have hone : n / 256 % 2 ^ 8 = c.sector + 64 * (c.cylinder / 256) := by omega
  have htwo : n / 256 / 256 % 2 ^ 8 = c.cylinder % 256 := by omega
  simp only [imDiskConvertCHSToLBA, toBytes, List.getD_cons_zero, List.getD_cons_succ,
    UInt8.toNat_ofNat', hzero, hone, htwo, hcylinder', hlow]
  have hsector' : (c.sector + 64 * (c.cylinder / 256)) % 64 = c.sector := by omega
  -- the sums and products are taken modulo 2 ^ 32, which is more than what comes out
  rw [hsector', ulongSub, ulong, ulong, ulong, Nat.mod_mul_mod, Nat.mod_add_mod, hspec]
  omega

end Convert

/-! ## The writer -/

/-- `PARTITION_INFORMATION`, with two flags that are always false left out. -/
structure PartitionInformation where
  startingOffset : Int64
  partitionLength : Int64
  hiddenSectors : ℕ
  partitionNumber : ℕ
  partitionType : UInt8
  bootIndicator : UInt8

def PartitionInformation.zero : PartitionInformation := ⟨0, 0, 0, 0, 0, 0⟩

/-- The loader in `default_mbr`. -/
def loader : List UInt8 :=
  [0xfa, 0x33, 0xc0, 0x8e, 0xd0, 0xbc, 0x00, 0x7c, 0x8b, 0xf4, 0x50, 0x07, 0x50, 0x1f, 0xfb, 0xfc,
    0xbf, 0x00, 0x06, 0xb9, 0x00, 0x01, 0xf3, 0xa5, 0xea, 0x1d, 0x06, 0x00, 0x00, 0xbe, 0xbe, 0x07,
    0xb3, 0x04, 0x80, 0x3c, 0x80, 0x74, 0x0e, 0x80, 0x3c, 0x00, 0x75, 0x1c, 0x83, 0xc6, 0x10, 0xfe,
    0xcb, 0x75, 0xef, 0xcd, 0x18, 0x8b, 0x14, 0x8b, 0x4c, 0x02, 0x8b, 0xee, 0x83, 0xc6, 0x10, 0xfe,
    0xcb, 0x74, 0x1a, 0x80, 0x3c, 0x00, 0x74, 0xf4, 0xbe, 0x8b, 0x06, 0xac, 0x3c, 0x00, 0x74, 0x0b,
    0x56, 0xbb, 0x07, 0x00, 0xb4, 0x0e, 0xcd, 0x10, 0x5e, 0xeb, 0xf0, 0xeb, 0xfe, 0xbf, 0x05, 0x00,
    0xbb, 0x00, 0x7c, 0xb8, 0x01, 0x02, 0x57, 0xcd, 0x13, 0x5f, 0x73, 0x0c, 0x33, 0xc0, 0xcd, 0x13,
    0x4f, 0x75, 0xed, 0xbe, 0xa3, 0x06, 0xeb, 0xd3, 0xbe, 0xc2, 0x06, 0xbf, 0xfe, 0x7d, 0x81, 0x3d,
    0x55, 0xaa, 0x75, 0xc7, 0x8b, 0xf5, 0xea, 0x00, 0x7c, 0x00, 0x00, 0x49, 0x6e, 0x76, 0x61, 0x6c,
    0x69, 0x64, 0x20, 0x70, 0x61, 0x72, 0x74, 0x69, 0x74, 0x69, 0x6f, 0x6e, 0x20, 0x74, 0x61, 0x62,
    0x6c, 0x65, 0x00, 0x45, 0x72, 0x72, 0x6f, 0x72, 0x20, 0x6c, 0x6f, 0x61, 0x64, 0x69, 0x6e, 0x67,
    0x20, 0x6f, 0x70, 0x65, 0x72, 0x61, 0x74, 0x69, 0x6e, 0x67, 0x20, 0x73, 0x79, 0x73, 0x74, 0x65,
    0x6d, 0x00, 0x4d, 0x69, 0x73, 0x73, 0x69, 0x6e, 0x67, 0x20, 0x6f, 0x70, 0x65, 0x72, 0x61, 0x74,
    0x69, 0x6e, 0x67, 0x20, 0x73, 0x79, 0x73, 0x74, 0x65, 0x6d]

/-- `default_mbr`: the loader, an empty table and the signature. -/
def defaultMbr : List UInt8 := loader ++ (List.replicate 292 0 ++ [0x55, 0xaa])

theorem length_loader : loader.length = 218 := by decide +kernel

/-- A number of bytes in sectors, as a `ULONGLONG`. -/
def sectors (x : Int64) (bytesPerSector : ℕ) : ℕ := (x.toInt.tdiv bytesPerSector % 2 ^ 64).toNat

/-- Where an entry of a table begins. -/
def entryOffset (i : ℕ) : ℕ := 512 - 66 + i <<< 4

section Writer

variable (g : DiskGeometry)

/-- One pass of the loop.  It fails when a number of sectors does not fit 32 bits. -/
def writeEntry (info : PartitionInformation) (mbr : ℕ → UInt8) (i : ℕ) : Option (ℕ → UInt8) :=
  let startSector := sectors info.startingOffset g.bytesPerSector
  let numberOfSectors := sectors info.partitionLength g.bytesPerSector
  let endSector := (startSector + numberOfSectors + 2 ^ 64 - 1) % 2 ^ 64
  if 2 ^ 32 ≤ startSector ∨ 2 ^ 32 ≤ numberOfSectors ∨ 2 ^ 32 ≤ endSector then none
  else
    let entry := entryOffset i
    let mbr := if info.bootIndicator ≠ 0 then place mbr entry [0x80] else mbr
    let mbr := place mbr (entry + 1) (toBytes 4 (imDiskConvertLBAToCHS g startSector))
    let mbr := place mbr (entry + 4) [info.partitionType]
    let mbr := place mbr (entry + 5) (toBytes 4 (imDiskConvertLBAToCHS g endSector))
    let mbr := place mbr (entry + 8) (toBytes 4 startSector)
    some (place mbr (entry + 12) (toBytes 4 numberOfSectors))

/-- The loop over the partitions. -/
def writeEntries : ℕ → List PartitionInformation → (ℕ → UInt8) → Option (ℕ → UInt8)
  | _, [], mbr => some mbr
  | i, info :: infos, mbr => (writeEntry g info mbr i).bind (writeEntries (i + 1) infos)

/-- The buffer, when the function succeeds. -/
def imDiskBuildMBR (infos : List PartitionInformation) (mbr : ℕ → UInt8) (mbrSize : ℕ) :
    Option (ℕ → UInt8) :=
  if mbrSize < defaultMbr.length then none
  else if 4 < infos.length then none
  else writeEntries g 0 infos (place mbr 0 defaultMbr)

end Writer

/-- What an entry of a table holds of a partition. -/
structure Holds (g : DiskGeometry) (m : ℕ → UInt8) (info : PartitionInformation) (entry : ℕ) : Prop where
  boot : m entry = if info.bootIndicator ≠ 0 then 0x80 else 0
  chs : slice m (entry + 1) 3 =
    toBytes 3 (imDiskConvertLBAToCHS g (sectors info.startingOffset g.bytesPerSector))
  partitionType : m (entry + 4) = info.partitionType
  start : ofBytes (slice m (entry + 8) 4) = sectors info.startingOffset g.bytesPerSector
  start_lt : sectors info.startingOffset g.bytesPerSector < 2 ^ 32
  count : ofBytes (slice m (entry + 12) 4) = sectors info.partitionLength g.bytesPerSector
  count_lt : sectors info.partitionLength g.bytesPerSector < 2 ^ 32

section Writer

variable {g : DiskGeometry} {m m' : ℕ → UInt8} {info : PartitionInformation}
  {infos : List PartitionInformation} {i : ℕ}

/-- **One entry.**  Four bytes of a packed place reach into what is stored after it. -/
theorem writeEntry_spec (h : writeEntry g info m i = some m') (hm : m (entryOffset i) = 0) :
    Holds g m' info (entryOffset i) ∧
      ∀ k, k < entryOffset i ∨ entryOffset i + 16 ≤ k → m' k = m k := by
  rw [writeEntry] at h
  generalize hstart : sectors info.startingOffset g.bytesPerSector = startSector at h
  generalize hcount : sectors info.partitionLength g.bytesPerSector = numberOfSectors at h
  generalize (startSector + numberOfSectors + 2 ^ 64 - 1) % 2 ^ 64 = endSector at h
  generalize entryOffset i = entry at *
  by_cases hlarge : 2 ^ 32 ≤ startSector ∨ 2 ^ 32 ≤ numberOfSectors ∨ 2 ^ 32 ≤ endSector
  · rw [if_pos hlarge] at h
    cases h
  rw [if_neg hlarge, Option.some.injEq] at h
  obtain ⟨boot, hboot, hat, hother⟩ : ∃ boot : ℕ → UInt8,
      (if info.bootIndicator ≠ 0 then place m entry [0x80] else m) = boot ∧
      boot entry = (if info.bootIndicator ≠ 0 then 0x80 else 0) ∧ ∀ k, k ≠ entry → boot k = m k := by
    refine ⟨_, rfl, ?_, fun k hk => ?_⟩
    · split
      · exact place_of_getElem? m le_rfl (by simp)
      · exact hm
    · split
      · rcases Nat.lt_or_gt_of_ne hk with hlt | hgt
        · exact place_of_lt _ _ hlt
        · exact place_of_le _ (by simpa using hgt)
      · rfl
  rw [hboot] at h
  subst h
  refine ⟨⟨?_, ?_, ?_, ?_, ?_, ?_, ?_⟩, fun k hk => ?_⟩
  · rw [place_of_lt _ _ (by omega), place_of_lt _ _ (by omega), place_of_lt _ _ (by omega),
      place_of_lt _ _ (by omega), place_of_lt _ _ (by omega), hat]
  · -- the type is stored over the fourth byte
    rw [slice_place_of_disjoint _ (.inl (by omega)), slice_place_of_disjoint _ (.inl (by omega)),
      slice_place_of_disjoint _ (.inl (by omega)), slice_place_of_disjoint _ (.inl (by omega)),
      ← take_slice _ (entry + 1) 3 1]
    have hfour := slice_place boot (entry + 1) (toBytes 4 (imDiskConvertLBAToCHS g startSector))
    rw [length_toBytes] at hfour
    rw [hfour, hstart]
    rfl
  · rw [place_of_lt _ _ (by omega), place_of_lt _ _ (by omega), place_of_lt _ _ (by omega)]
    exact place_of_getElem? _ le_rfl (by simp)
  · -- the first sector is stored over the fourth byte of the place of the last one
    have hfour := fun m : ℕ → UInt8 => slice_place m (entry + 8) (toBytes 4 startSector)
    rw [length_toBytes] at hfour
    rw [slice_place_of_disjoint _ (.inl (by omega)), hfour, ofBytes_toBytes_of_lt (by omega), hstart]
  · omega
  · have hfour := fun m : ℕ → UInt8 => slice_place m (entry + 12) (toBytes 4 numberOfSectors)
    rw [length_toBytes] at hfour
    rw [hfour, ofBytes_toBytes_of_lt (by omega), hcount]
  · omega
  · rcases hk with hlt | hge
    · rw [place_of_lt _ _ (by omega), place_of_lt _ _ (by omega), place_of_lt _ _ (by omega),
        place_of_lt _ _ (by omega), place_of_lt _ _ (by omega)]
      exact hother k (by omega)
    · have hlen : ∀ n, (toBytes 4 n).length = 4 := length_toBytes 4
      rw [place_of_le _ (by rw [hlen]; omega), place_of_le _ (by rw [hlen]; omega),
        place_of_le _ (by rw [hlen]; omega), place_of_le _ (by simp; omega),
        place_of_le _ (by rw [hlen]; omega)]
      exact hother k (by omega)

theorem Holds.congr {entry : ℕ} (h : Holds g m info entry)
    (heq : ∀ k, entry ≤ k → k < entry + 16 → m' k = m k) : Holds g m' info entry := by
  have hslice : ∀ p n, entry ≤ p → p + n ≤ entry + 16 → slice m' p n = slice m p n := fun p n hp hn =>
    slice_congr m' fun k hk hk' => heq k (by omega) (by omega)
  refine ⟨?_, ?_, ?_, ?_, h.start_lt, ?_, h.count_lt⟩
  · rw [heq _ le_rfl (by omega), h.boot]
  · rw [hslice _ _ (by omega) (by omega), h.chs]
  · rw [heq _ (by omega) (by omega), h.partitionType]
  · rw [hslice _ _ (by omega) (by omega), h.start]
  · rw [hslice _ _ (by omega) (by omega), h.count]

/-- The loop fills the entries from number `i` on. -/
theorem writeEntries_spec (h : writeEntries g i infos m = some m')
    (hm : ∀ k < infos.length, m (entryOffset (i + k)) = 0) :
    (∀ k info, infos[k]? = some info → Holds g m' info (entryOffset (i + k))) ∧
      ∀ k, k < entryOffset i ∨ entryOffset (i + infos.length) ≤ k → m' k = m k := by
  induction infos generalizing i m with
  | nil =>
      rw [writeEntries, Option.some.injEq] at h
      subst h
      exact ⟨fun k info hk => by simp at hk, fun k _ => rfl⟩
  | cons info infos ih =>
      rw [writeEntries, Option.bind_eq_some_iff] at h
      obtain ⟨m₁, hone, hrest⟩ := h
      obtain ⟨hholds, hframe⟩ := writeEntry_spec hone (hm 0 (by simp))
      have hstep : ∀ k, entryOffset (i + 1 + k) = entryOffset i + 16 + 16 * k := by
        intro k
        simp only [entryOffset, Nat.shiftLeft_eq]
        omega
      obtain ⟨hholds', hframe'⟩ := ih hrest fun k hk => by
        rw [hframe _ (.inr (by rw [hstep]; omega)), Nat.add_assoc, Nat.add_comm 1 k]
        exact hm (k + 1) (by simpa using hk)
      have hnext := hstep 0
      rw [Nat.add_zero] at hnext
      refine ⟨fun k info' hk => ?_, fun k hk => ?_⟩
      · cases k with
        | zero =>
            rw [List.getElem?_cons_zero, Option.some.injEq] at hk
            subst hk
            exact hholds.congr fun k hk hk' => hframe' k (.inl (by rw [hnext]; exact hk'))
        | succ k =>
            rw [List.getElem?_cons_succ] at hk
            rw [Nat.add_comm k 1, ← Nat.add_assoc]
            exact hholds' k info' hk
      · have hend := hstep infos.length
        rw [List.length_cons, Nat.add_comm infos.length 1, ← Nat.add_assoc, hend] at hk
        rw [hframe' k (by rw [hnext, hend]; omega)]
        exact hframe k (by omega)

/-- What is built: the entries of the partitions, an empty rest, and the signature. -/
theorem imDiskBuildMBR_spec {n : ℕ} (h : imDiskBuildMBR g infos m n = some m') :
    infos.length ≤ 4 ∧ (∀ k info, infos[k]? = some info → Holds g m' info (entryOffset k)) ∧
      (∀ k, entryOffset infos.length ≤ k → k < 510 → m' k = 0) ∧ m' 510 = 0x55 ∧ m' 511 = 0xaa := by
  rw [imDiskBuildMBR] at h
  by_cases hsize : n < defaultMbr.length
  · rw [if_pos hsize] at h
    cases h
  by_cases hmany : 4 < infos.length
  · rw [if_neg hsize, if_pos hmany] at h
    cases h
  rw [if_neg hsize, if_neg hmany] at h
  have hrest : ∀ k, defaultMbr[218 + k]? = (List.replicate 292 0 ++ [0x55, 0xaa])[k]? := fun k => by
    rw [defaultMbr, List.getElem?_append_right (by rw [length_loader]; omega), length_loader,
      Nat.add_sub_cancel_left]
  have hempty : ∀ k < 510, 218 ≤ k → defaultMbr[k]? = some 0 := by
    intro k hk hk'
    have h := hrest (k - 218)
    rwa [Nat.add_sub_cancel' hk', List.getElem?_append_left (by rw [List.length_replicate]; omega),
      List.getElem?_replicate, if_pos (by omega)] at h
  have hsign : defaultMbr[510]? = some 0x55 ∧ defaultMbr[511]? = some 0xaa := ⟨hrest 292, hrest 293⟩
  have hentry : ∀ k, entryOffset k = 446 + 16 * k := fun k => by
    rw [entryOffset, Nat.shiftLeft_eq]
    omega
  have hzero : ∀ k < 510, 218 ≤ k → place m 0 defaultMbr k = 0 := fun k hk hk' =>
    place_of_getElem? m (Nat.zero_le k) (hempty k hk hk')
  obtain ⟨hholds, hframe⟩ := writeEntries_spec h fun k hk => hzero _
    (by rw [hentry]; omega) (by rw [hentry]; omega)
  rw [Nat.zero_add, hentry 0, hentry infos.length] at hframe
  refine ⟨by omega, fun k info hk => by simpa using hholds k info hk, fun k hk hk' => ?_, ?_, ?_⟩
  · rw [hentry] at hk
    rw [hframe k (.inr hk)]
    exact hzero k hk' (by omega)
  · rw [hframe 510 (.inr (by omega))]
    exact place_of_getElem? m (Nat.zero_le _) hsign.1
  · rw [hframe 511 (.inr (by omega))]
    exact place_of_getElem? m (Nat.zero_le _) hsign.2

end Writer

/-! ## The reader -/

/-- A number in the buffer. -/
def number (m : ℤ → UInt8) (p : ℤ) (n : ℕ) : ℕ := ofBytes ((List.range n).map fun i : ℕ => m (p + i))

/-- Read bytes into the buffer. -/
def readInto (m : ℤ → UInt8) (p : ℤ) (bytes : ℕ → UInt8) (n : ℕ) : ℤ → UInt8 := fun k =>
  if p ≤ k ∧ k < p + n then bytes (k - p).toNat else m k

/-- The signature is there, and the entries begin with `0x00` or `0x80`. -/
def Valid (m : ℤ → UInt8) (p : ℤ) : Prop :=
  number m (p + 0x01FE) 2 = 0xAA55 ∧ m (p + 0x01BE) &&& 0x7F = 0 ∧ m (p + 0x01CE) &&& 0x7F = 0 ∧
    m (p + 0x01DE) &&& 0x7F = 0 ∧ m (p + 0x01EE) &&& 0x7F = 0

instance (m : ℤ → UInt8) (p : ℤ) : Decidable (Valid m p) := inferInstanceAs (Decidable (_ ∧ _))

/-- An entry of a table whose sectors count from `base` on. -/
def partitionInformation (m : ℤ → UInt8) (entry : ℤ) (sectorSize : ℕ) (base : Int64) (i : ℕ) :
    PartitionInformation where
  startingOffset := base + Int64.ofInt (sectorSize * number m (entry + 8) 4)
  partitionLength := Int64.ofInt (sectorSize * number m (entry + 12) 4)
  hiddenSectors := number m (entry + 8) 4
  partitionNumber := i + 1
  partitionType := m (entry + 4)
  bootIndicator := m entry >>> 7

/-- `ReadFileProc` for bytes that have to be there as a whole. -/
def readFileProc (f : File) (offset : Int64) (n : ℕ) : Option (ℕ → UInt8) :=
  if 0 ≤ offset.toInt ∧ offset.toInt + n ≤ f.length then
    some fun k => f.bytes (offset.toInt.toNat + k)
  else none

/-- The buffer and `PartitionInformation`. -/
structure Reading where
  buffer : ℤ → UInt8
  infos : ℕ → PartitionInformation

/-- Where an entry of the extended table is looked for. -/
def extendedEntry (sectorSize j : ℕ) : ℤ := (ulong (sectorSize <<< 1) : ℤ) - 66 + (j <<< 4 : ℕ)

section Reader

variable (isContainerPartition : UInt8 → Bool) (f : File) (sectorSize : ℕ) (offset : Int64)

/-- One pass of the loop over the master boot record. -/
def readEntry (s : Reading) (i : ℕ) : Option Reading := do
  let info := partitionInformation s.buffer (entryOffset i) sectorSize 0 i
  let infos := Function.update s.infos i info
  if isContainerPartition info.partitionType then
    let extended ← readFileProc f (offset + info.startingOffset) sectorSize
    let buffer := readInto s.buffer sectorSize extended sectorSize
    if Valid buffer sectorSize then
      return ⟨buffer, fun n =>
        if 4 ≤ n ∧ n < 8 then
          partitionInformation buffer (extendedEntry sectorSize (n - 4)) sectorSize
            info.startingOffset (n - 4)
        else infos n⟩
    else none
  else return ⟨s.buffer, infos⟩

/-- The eight partitions of the image.  `stack` is what is there before the buffer is read into. -/
def imDiskGetPartitionInfoIndirect (stack : ℤ → UInt8) : Option (ℕ → PartitionInformation) := do
  let sectorSize := if sectorSize = 0 then 512 else sectorSize
  let sector ← readFileProc f offset sectorSize
  let buffer := readInto stack 0 sector sectorSize
  if Valid buffer 0 then
    let s ← (List.range 4).foldlM (readEntry isContainerPartition f sectorSize offset)
      ⟨buffer, fun _ => .zero⟩
    return s.infos
  else none

end Reader

/-! ## Round trips -/

/-- What comes back of a partition. -/
structure Same (info info' : PartitionInformation) : Prop where
  startingOffset : info'.startingOffset = info.startingOffset
  partitionLength : info'.partitionLength = info.partitionLength
  partitionType : info'.partitionType = info.partitionType
  bootIndicator : info'.bootIndicator = if info.bootIndicator ≠ 0 then 1 else 0

/-- Every disk that begins with the table is read as the partitions it was built from, and the rest is
empty; the place of the first sector of a partition leads to it when it is addressable. -/
def RoundTrips (isContainerPartition : UInt8 → Bool) (g : DiskGeometry)
    (infos : List PartitionInformation) (mbr : ℕ → UInt8) : Prop :=
  (∀ (f : File) (offset : Int64) (stack : ℤ → UInt8), 0 ≤ offset.toInt →
    offset.toInt + g.bytesPerSector ≤ f.length →
    (∀ k < 512, f.bytes (offset.toInt.toNat + k) = mbr k) →
    ∃ report, imDiskGetPartitionInfoIndirect isContainerPartition f g.bytesPerSector offset stack =
        some report ∧ (∀ (i : ℕ) info, infos[i]? = some info → Same info (report i)) ∧
      ∀ i < 8, infos.length ≤ i → (report i).partitionLength = 0) ∧
  ∀ (i : ℕ) info, infos[i]? = some info →
    (lbaToChs g (sectors info.startingOffset g.bytesPerSector)).Addressable →
    (g.bytesPerSector * imDiskConvertCHSToLBA g (slice mbr (entryOffset i + 1) 3) : ℤ) =
      info.startingOffset.toInt

section RoundTrip

variable {isContainerPartition : UInt8 → Bool} {f : File} {offset : Int64} {sectorSize : ℕ}
  {m : ℤ → UInt8} {is : List ℕ} {infos : ℕ → PartitionInformation}

theorem number_eq {b : ℕ → UInt8} {p : ℤ} {q n : ℕ} (h : ∀ k < n, m (p + k) = b (q + k)) :
    number m p n = ofBytes (slice b q n) := by
  rw [number, slice]
  congr 1
  exact List.map_congr_left fun k hk => h k (List.mem_range.mp hk)

/-- A table without containers is read from the first sector alone. -/
theorem foldlM_readEntry
    (h : ∀ i ∈ is, isContainerPartition (m (entryOffset i + 4)) = false) :
    is.foldlM (readEntry isContainerPartition f sectorSize offset) ⟨m, infos⟩ =
      some ⟨m, fun n =>
        if n ∈ is then partitionInformation m (entryOffset n) sectorSize 0 n else infos n⟩ := by
  induction is generalizing infos with
  | nil => simp
  | cons i is ih =>
      have hone : readEntry isContainerPartition f sectorSize offset ⟨m, infos⟩ i =
          some ⟨m, Function.update infos i (partitionInformation m (entryOffset i) sectorSize 0 i)⟩ := by
        have hfalse := h i List.mem_cons_self
        rw [readEntry, if_neg]
        · rfl
        · simpa [partitionInformation] using hfalse
      rw [List.foldlM_cons, hone, Option.bind_eq_bind, Option.bind_some,
        ih fun j hj => h j (List.mem_cons_of_mem i hj)]
      congr 2
      funext n
      by_cases hn : n = i
      · simp [hn]
      · simp [hn]

/-- A whole number of sectors that fits 32 bits. -/
theorem toInt_eq_sectors {x : Int64} (hpos : 0 < sectorSize) (hdvd : (sectorSize : ℤ) ∣ x.toInt)
    (hlt : sectors x sectorSize < 2 ^ 32) : x.toInt = sectorSize * sectors x sectorSize := by
  obtain ⟨q, hq⟩ := hdvd
  have hlow := x.le_toInt
  have hhigh := x.toInt_lt
  have hne : (sectorSize : ℤ) ≠ 0 := by omega
  rw [sectors, hq, Int.mul_tdiv_cancel_left q hne] at hlt
  rw [sectors, hq, Int.mul_tdiv_cancel_left q hne]
  rw [hq] at hlow hhigh
  have hone : (1 : ℤ) ≤ sectorSize := by omega
  rcases lt_or_ge q 0 with hneg | hnonneg
  · -- a negative number of sectors has high bits
    have hle : sectorSize * q ≤ q := by nlinarith
    omega
  · have hle : q ≤ sectorSize * q := by nlinarith
    congr 1
    omega

/-- What the reader makes of an entry that is written. -/
theorem Holds.same {g : DiskGeometry} {b : ℕ → UInt8} {info : PartitionInformation} {i : ℕ}
    (h : Holds g b info (entryOffset i)) (hpos : 0 < g.bytesPerSector)
    (heq : ∀ k : ℕ, k < 512 → m k = b k) (hi : i < 4)
    (hstart : (g.bytesPerSector : ℤ) ∣ info.startingOffset.toInt)
    (hlength : (g.bytesPerSector : ℤ) ∣ info.partitionLength.toInt) :
    Same info (partitionInformation m (entryOffset i) g.bytesPerSector 0 i) := by
  have hentry : entryOffset i = 446 + 16 * i := by
    rw [entryOffset, Nat.shiftLeft_eq]
    omega
  have hnumber : ∀ q : ℕ, q + 4 ≤ 16 → number m (entryOffset i + q) 4 = ofBytes (slice b (entryOffset i + q) 4) := by
    intro q hq
    refine number_eq fun k hk => ?_
    rw [← heq _ (by omega)]
    push_cast
    rfl
  refine ⟨?_, ?_, ?_, ?_⟩
  · have hnum : number m (entryOffset i + 8) 4 = sectors info.startingOffset g.bytesPerSector :=
      (hnumber 8 (by norm_num)).trans h.start
    rw [partitionInformation]
    dsimp only
    rw [hnum, ← toInt_eq_sectors hpos hstart h.start_lt, Int64.ofInt_toInt, Int64.zero_add]
  · have hnum : number m (entryOffset i + 12) 4 = sectors info.partitionLength g.bytesPerSector :=
      (hnumber 12 (by norm_num)).trans h.count
    rw [partitionInformation]
    dsimp only
    rw [hnum, ← toInt_eq_sectors hpos hlength h.count_lt, Int64.ofInt_toInt]
  · have htype : m (entryOffset i + 4) = b (entryOffset i + 4) := by
      rw [← heq _ (by omega)]
      push_cast
      rfl
    exact htype.trans h.partitionType
  · have hboot : m (entryOffset i) = b (entryOffset i) := heq _ (by omega)
    rw [partitionInformation]
    dsimp only
    rw [hboot, h.boot]
    split
    · rfl
    · rfl

section Built

variable {g : DiskGeometry} {infos : List PartitionInformation} {b mbr : ℕ → UInt8} {n : ℕ}
  (hbuild : imDiskBuildMBR g infos b n = some mbr)

include hbuild

theorem boot_and (i : ℕ) (hi : i < 4) : mbr (entryOffset i) &&& 0x7F = 0 := by
  obtain ⟨-, hholds, hempty, -⟩ := imDiskBuildMBR_spec hbuild
  rcases Nat.lt_or_ge i infos.length with hin | hout
  · rw [(hholds i _ (List.getElem?_eq_getElem hin)).boot]
    split
    · rfl
    · rfl
  · rw [hempty _ (by simp only [entryOffset, Nat.shiftLeft_eq]; omega)
      (by simp only [entryOffset, Nat.shiftLeft_eq]; omega)]
    rfl

/-- The table that was built is valid. -/
theorem valid_of_build (heq : ∀ k : ℕ, k < 512 → m k = mbr k) : Valid m 0 := by
  obtain ⟨-, -, -, hlow, hhigh⟩ := imDiskBuildMBR_spec hbuild
  have hboot := boot_and hbuild
  refine ⟨?_, ?_, ?_, ?_, ?_⟩
  · have hsign : number m 510 2 = ofBytes (slice mbr 510 2) := by
      refine number_eq fun k hk => ?_
      rw [← heq _ (by omega)]
      push_cast
      rfl
    have hslice : slice mbr 510 2 = [0x55, 0xaa] := by
      rw [slice_succ, slice_succ, slice_zero, hlow, hhigh]
    exact hsign.trans (by rw [hslice]; rfl)
  · exact (congrArg (· &&& 0x7F) (heq 446 (by norm_num))).trans (hboot 0 (by norm_num))
  · exact (congrArg (· &&& 0x7F) (heq 462 (by norm_num))).trans (hboot 1 (by norm_num))
  · exact (congrArg (· &&& 0x7F) (heq 478 (by norm_num))).trans (hboot 2 (by norm_num))
  · exact (congrArg (· &&& 0x7F) (heq 494 (by norm_num))).trans (hboot 3 (by norm_num))

/-- **Partition tables round-trip.** -/
theorem roundTrips (hcontainer : ∀ c, isContainerPartition c = true ↔ c = 0x05 ∨ c = 0x0F)
    (htracks : g.tracksPerCylinder ≠ 0) (hsectors : g.sectorsPerTrack ≠ 0)
    (hprod : g.tracksPerCylinder * g.sectorsPerTrack < 2 ^ 32) (hbytes : 512 ≤ g.bytesPerSector)
    (hinfos : ∀ info ∈ infos, isContainerPartition info.partitionType = false ∧
      (g.bytesPerSector : ℤ) ∣ info.startingOffset.toInt ∧
      (g.bytesPerSector : ℤ) ∣ info.partitionLength.toInt) :
    RoundTrips isContainerPartition g infos mbr := by
  obtain ⟨hfour, hholds, hempty, -⟩ := imDiskBuildMBR_spec hbuild
  have hentry : ∀ k, entryOffset k = 446 + 16 * k := fun k => by
    rw [entryOffset, Nat.shiftLeft_eq]
    omega
  refine ⟨fun f offset stack hoffset hlen hdisk => ?_, fun i info hi haddressable => ?_⟩
  · have hread : readFileProc f offset g.bytesPerSector =
        some fun k => f.bytes (offset.toInt.toNat + k) := if_pos ⟨hoffset, hlen⟩
    have heq : ∀ k : ℕ, k < 512 →
        readInto stack 0 (fun k => f.bytes (offset.toInt.toNat + k)) g.bytesPerSector k = mbr k := by
      intro k hk
      rw [readInto, if_pos ⟨by omega, by omega⟩, ← hdisk k hk]
      simp
    generalize hm : readInto stack 0 (fun k => f.bytes (offset.toInt.toNat + k)) g.bytesPerSector =
      m at heq
    have hnone : ∀ i ∈ List.range 4, isContainerPartition (m (entryOffset i + 4)) = false := by
      intro i hi
      have hi := List.mem_range.mp hi
      have htype : m (entryOffset i + 4) = mbr (entryOffset i + 4) := by
        rw [← heq _ (by rw [hentry]; omega)]
        push_cast
        rfl
      rw [htype]
      rcases Nat.lt_or_ge i infos.length with hin | hout
      · rw [(hholds i _ (List.getElem?_eq_getElem hin)).partitionType]
        exact (hinfos _ (List.getElem_mem hin)).1
      · rw [hempty _ (by rw [hentry, hentry]; omega) (by rw [hentry]; omega), Bool.eq_false_iff, Ne,
          hcontainer]
        decide
    have hreport : imDiskGetPartitionInfoIndirect isContainerPartition f g.bytesPerSector offset stack =
        some fun n => if n ∈ List.range 4 then
          partitionInformation m (entryOffset n) g.bytesPerSector 0 n else .zero := by
      rw [imDiskGetPartitionInfoIndirect, if_neg (by omega), hread, Option.bind_eq_bind,
        Option.bind_some, hm, if_pos (valid_of_build hbuild heq), foldlM_readEntry hnone]
      rfl
    refine ⟨_, hreport, fun i info hi => ?_, fun i hi hout => ?_⟩
    · have hin : i < infos.length := (List.getElem?_eq_some_iff.mp hi).1
      have hmem := List.mem_of_getElem? hi
      rw [if_pos (List.mem_range.mpr (by omega))]
      exact (hholds i info hi).same (by omega) heq (by omega) (hinfos info hmem).2.1 (hinfos info hmem).2.2
    · split
      · next hlow =>
          have hlow := List.mem_range.mp hlow
          have hnum : number m (entryOffset i + 12) 4 = ofBytes (slice mbr (entryOffset i + 12) 4) := by
            refine number_eq fun k hk => ?_
            rw [← heq _ (by rw [hentry]; omega)]
            push_cast
            rfl
          have hslice : slice mbr (entryOffset i + 12) 4 = slice (fun _ => 0) (entryOffset i + 12) 4 :=
            slice_congr mbr fun k hk hk' =>
              hempty k (by rw [hentry] at hk ⊢; omega) (by rw [hentry] at hk'; omega)
          have hzero : ofBytes (slice (fun _ => 0) (entryOffset i + 12) 4) = 0 := rfl
          rw [partitionInformation]
          dsimp only
          rw [hnum, hslice, hzero, Nat.cast_zero, Int.mul_zero]
          rfl
      · rfl
  · obtain ⟨-, hstart, -⟩ := hinfos info (List.mem_of_getElem? hi)
    have hlt := (hholds i info hi).start_lt
    rw [(hholds i info hi).chs, convertCHSToLBA_convertLBAToCHS hprod htracks hsectors hlt haddressable,
      ← toInt_eq_sectors (by omega) hstart hlt]

end Built

/-- The table of a disk with one active partition from sector 63 on. -/
theorem roundTrips_onePartition : ∃ mbr,
    imDiskBuildMBR ⟨255, 63, 512⟩ [⟨32256, 1048576, 63, 1, 7, 1⟩] (fun _ => 0) 512 = some mbr ∧
      RoundTrips Partition.isContainerPartition ⟨255, 63, 512⟩ [⟨32256, 1048576, 63, 1, 7, 1⟩] mbr := by
  have hsome : (imDiskBuildMBR ⟨255, 63, 512⟩ [⟨32256, 1048576, 63, 1, 7, 1⟩] (fun _ => 0) 512).isSome := by
    decide +kernel
  obtain ⟨mbr, hbuild⟩ := Option.isSome_iff_exists.mp hsome
  refine ⟨mbr, hbuild, roundTrips hbuild Partition.isContainerPartition_iff (by decide) (by decide)
    (by decide) (by decide) fun info hinfo => ?_⟩
  rw [List.mem_singleton.mp hinfo]
  decide

end RoundTrip

end KernelDrivers.ImDisk.Mbr
