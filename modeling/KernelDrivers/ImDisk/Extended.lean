import KernelDrivers.ImDisk.Mbr

/-!
# Extended partition tables

`ImDiskGetPartitionInfoIndirect` looks for the table of the first sector at byte 446, and for that of
an extended sector at 66 bytes before its end.  Both are the same for sectors of 512 bytes only.  The
signature is looked for at byte 510 of either.

There is room for one extended table in what is reported, so that of the last container entry is.

## Main definitions

* `Decodes` — the table of every container entry is reported.
* `lookedAt` — what is reported of an extended table.
* `tableEntry` — what is in it.
* `IsLast` — the container entry that is reported.

## Main results

* `report_eq` — what is reported.
* `decodes_iff` — when that is every extended table.
-/

namespace KernelDrivers.ImDisk.Mbr

open KernelDrivers.Fat (ulong)
open KernelDrivers.ImDisk.Vhd

variable (isContainerPartition : UInt8 → Bool) (f : File) (sectorSize : ℕ) (offset : Int64)
  (stack : ℤ → UInt8)

/-! ## Two places -/

/-- The sector of an extended table. -/
def extendedSector (base : Int64) : ℕ → UInt8 := fun k => f.bytes ((offset + base).toInt.toNat + k)

/-- An entry of an extended table, in the place where it is in a master boot record. -/
def tableEntry (base : Int64) (j : ℕ) : PartitionInformation :=
  partitionInformation (fun p => extendedSector f offset base p.toNat) (entryOffset j) sectorSize base j

/-- What is reported of an entry of an extended table that was read into the buffer. -/
def lookedAt (base : Int64) (j : ℕ) : PartitionInformation :=
  partitionInformation (readInto stack sectorSize (extendedSector f offset base) sectorSize)
    (extendedEntry sectorSize j) sectorSize base j

/-- The sector is in the image and carries a table. -/
def HasTable (base : Int64) : Prop :=
  (0 ≤ (offset + base).toInt ∧ (offset + base).toInt + sectorSize ≤ f.length) ∧
    Valid (fun p => extendedSector f offset base p.toNat) 0

/-- The first sector carries a table, and so does that of every container entry. -/
def Readable : Prop :=
  HasTable f sectorSize offset 0 ∧ ∀ i < 4,
    isContainerPartition (tableEntry f sectorSize offset 0 i).partitionType = true →
      HasTable f sectorSize offset (tableEntry f sectorSize offset 0 i).startingOffset

/-- Of every container entry the four entries of its table are reported. -/
def Decodes : Prop :=
  ∀ report, imDiskGetPartitionInfoIndirect isContainerPartition f sectorSize offset stack = some report →
    ∀ i < 4, isContainerPartition (report i).partitionType = true → ∀ j < 4,
      report (4 + j) = tableEntry f sectorSize offset (report i).startingOffset j

/-- The last container entry of a table. -/
def IsLast (entries : ℕ → PartitionInformation) (l : ℕ) : Prop :=
  l < 4 ∧ isContainerPartition (entries l).partitionType = true ∧
    ∀ i, l < i → i < 4 → isContainerPartition (entries i).partitionType = false

section Entry

variable {m m' : ℤ → UInt8} {f sectorSize offset stack} {base : Int64} {j : ℕ}

/-- An entry is 16 bytes. -/
theorem partitionInformation_congr {p p' : ℤ} (h : ∀ k : ℤ, 0 ≤ k → k < 16 → m (p + k) = m' (p' + k)) :
    partitionInformation m p sectorSize base j = partitionInformation m' p' sectorSize base j := by
  have hnumber : ∀ q : ℤ, 0 ≤ q → q + 4 ≤ 16 → number m (p + q) 4 = number m' (p' + q) 4 := by
    intro q hq hq'
    rw [number, number]
    congr 1
    refine List.map_congr_left fun k hk => ?_
    have hk := List.mem_range.mp hk
    rw [Int.add_assoc, Int.add_assoc]
    exact h _ (by omega) (by omega)
  have htype := h 4 (by norm_num) (by norm_num)
  have hboot := h 0 le_rfl (by norm_num)
  rw [Int.add_zero, Int.add_zero] at hboot
  rw [partitionInformation, partitionInformation, hnumber 8 (by norm_num) (by norm_num),
    hnumber 12 (by norm_num) (by norm_num), htype, hboot]

theorem valid_congr {p p' : ℤ} (h : ∀ k : ℤ, 0 ≤ k → k < 512 → m (p + k) = m' (p' + k)) :
    Valid m p ↔ Valid m' p' := by
  have hsignature : number m (p + 0x01FE) 2 = number m' (p' + 0x01FE) 2 := by
    rw [number, number]
    congr 1
    refine List.map_congr_left fun k hk => ?_
    have hk := List.mem_range.mp hk
    rw [Int.add_assoc, Int.add_assoc]
    exact h _ (by omega) (by omega)
  rw [Valid, Valid, hsignature, h _ (by norm_num) (by norm_num), h _ (by norm_num) (by norm_num),
    h _ (by norm_num) (by norm_num), h _ (by norm_num) (by norm_num)]

/-- The place that is looked at lies in the second sector, or in front of the buffer when the size of
both sectors wraps to zero. -/
theorem extendedEntry_eq (hle : sectorSize ≤ 2 ^ 31) :
    (sectorSize < 2 ^ 31 ∧ extendedEntry sectorSize j = 2 * sectorSize - 66 + 16 * j) ∨
      (sectorSize = 2 ^ 31 ∧ extendedEntry sectorSize j = -66 + 16 * j) := by
  rw [extendedEntry, Nat.shiftLeft_eq, Nat.shiftLeft_eq, ulong]
  omega

/-- For sectors of 512 bytes both places are the same. -/
theorem lookedAt_eq_tableEntry (hj : j < 4) :
    lookedAt f 512 offset stack base j = tableEntry f 512 offset base j := by
  refine partitionInformation_congr fun k hk hk' => ?_
  have hplace : extendedEntry 512 j = 512 + entryOffset j := by
    rw [extendedEntry, entryOffset, Nat.shiftLeft_eq, ulong]
    omega
  have hentry : (entryOffset j : ℤ) = 446 + 16 * j := by
    rw [entryOffset, Nat.shiftLeft_eq]
    omega
  rw [hplace, readInto, if_pos (by push_cast; omega)]
  congr 1
  push_cast
  omega

end Entry

/-! ## The loop -/

section Loop

variable {isContainerPartition f sectorSize offset stack} {s s' : Reading} {i : ℕ} {is : List ℕ}

/-- The buffer behind a pass: the first sector, and whatever is outside of both. -/
def Keeps (f : File) (sectorSize : ℕ) (offset : Int64) (stack m : ℤ → UInt8) : Prop :=
  ∀ p : ℤ, p < sectorSize → m p = if 0 ≤ p then extendedSector f offset 0 p.toNat else stack p

/-- The last container entry among these. -/
def lastOf (isContainerPartition : UInt8 → Bool) (entries : ℕ → PartitionInformation) (is : List ℕ) :
    Option ℕ :=
  (is.filter fun i => isContainerPartition (entries i).partitionType).getLast?

theorem lastOf_cons (entries : ℕ → PartitionInformation) (i : ℕ) (is : List ℕ) :
    lastOf isContainerPartition entries (i :: is) =
      if isContainerPartition (entries i).partitionType then
        some ((lastOf isContainerPartition entries is).getD i)
      else lastOf isContainerPartition entries is := by
  rw [lastOf, lastOf, List.filter_cons]
  split
  · rw [List.getLast?_cons]
  · rfl

theorem Keeps.tableEntry_eq {m : ℤ → UInt8} (h : Keeps f sectorSize offset stack m)
    (hsize : 512 ≤ sectorSize) (hi : i < 4) :
    partitionInformation m (entryOffset i) sectorSize 0 i = tableEntry f sectorSize offset 0 i := by
  have hentry : (entryOffset i : ℤ) = 446 + 16 * i := by
    rw [entryOffset, Nat.shiftLeft_eq]
    omega
  refine partitionInformation_congr fun k hk hk' => ?_
  rw [h _ (by omega), if_pos (by omega)]

/-- **When a pass goes on**: a container entry leads to a table. -/
theorem readEntry_isSome (hk : Keeps f sectorSize offset stack s.buffer) (hsize : 512 ≤ sectorSize)
    (hi : i < 4) :
    (∃ s', readEntry isContainerPartition f sectorSize offset s i = some s') ↔
      (isContainerPartition (tableEntry f sectorSize offset 0 i).partitionType = true →
        HasTable f sectorSize offset (tableEntry f sectorSize offset 0 i).startingOffset) := by
  rw [readEntry, hk.tableEntry_eq hsize hi]
  generalize tableEntry f sectorSize offset 0 i = info
  by_cases hc : isContainerPartition info.partitionType = true
  · rw [if_pos hc, readFileProc, HasTable]
    by_cases hin : 0 ≤ (offset + info.startingOffset).toInt ∧
        (offset + info.startingOffset).toInt + sectorSize ≤ f.length
    · have hvalid : Valid (readInto s.buffer sectorSize (extendedSector f offset info.startingOffset)
          sectorSize) sectorSize ↔ Valid (fun p => extendedSector f offset info.startingOffset p.toNat) 0 :=
        valid_congr fun k hk₀ hk₁ => by
          rw [readInto, if_pos (by omega)]
          congr 1
          omega
      rw [if_pos hin, Option.bind_eq_bind, Option.bind_some]
      dsimp only
      split
      · next hyes => exact ⟨fun _ _ => ⟨hin, hvalid.mp hyes⟩, fun _ => ⟨_, rfl⟩⟩
      · next hno =>
          refine iff_of_false ?_ fun htable => hno (hvalid.mpr (htable hc).2)
          rintro ⟨s', hs'⟩
          cases hs'
    · rw [if_neg hin, Option.bind_eq_bind, Option.bind_none]
      refine iff_of_false ?_ fun htable => hin (htable hc).1
      rintro ⟨s', hs'⟩
      cases hs'
  · rw [if_neg hc]
    exact ⟨fun _ h => absurd h hc, fun _ => ⟨_, rfl⟩⟩

/-- **One pass.** -/
theorem readEntry_spec (hk : Keeps f sectorSize offset stack s.buffer) (hsize : 512 ≤ sectorSize)
    (hle : sectorSize ≤ 2 ^ 31) (hi : i < 4)
    (h : readEntry isContainerPartition f sectorSize offset s i = some s') :
    Keeps f sectorSize offset stack s'.buffer ∧
      ∀ n < 8, s'.infos n =
        if isContainerPartition (tableEntry f sectorSize offset 0 i).partitionType ∧ 4 ≤ n then
          lookedAt f sectorSize offset stack (tableEntry f sectorSize offset 0 i).startingOffset (n - 4)
        else Function.update s.infos i (tableEntry f sectorSize offset 0 i) n := by
  rw [readEntry, hk.tableEntry_eq hsize hi] at h
  generalize tableEntry f sectorSize offset 0 i = info at h ⊢
  by_cases hc : isContainerPartition info.partitionType = true
  · rw [if_pos hc, Option.bind_eq_bind, Option.bind_eq_some_iff] at h
    obtain ⟨extended, hread, h⟩ := h
    rw [readFileProc] at hread
    by_cases hin : 0 ≤ (offset + info.startingOffset).toInt ∧
        (offset + info.startingOffset).toInt + sectorSize ≤ f.length
    · rw [if_pos hin, Option.some.injEq] at hread
      subst hread
      dsimp only at h
      split at h
      · rw [Option.pure_def, Option.some.injEq] at h
        subst h
        refine ⟨fun p hp => ?_, fun n hn => ?_⟩
        · dsimp only
          rw [readInto, if_neg (by omega), hk p hp]
        · dsimp only
          by_cases hfour : 4 ≤ n
          · rw [if_pos ⟨hfour, hn⟩, if_pos ⟨hc, hfour⟩, lookedAt]
            refine partitionInformation_congr fun k hk₀ hk₁ => ?_
            -- the place is in the second sector or in front of the buffer
            have hplace := extendedEntry_eq (j := n - 4) hle
            rw [readInto, readInto]
            split
            · rfl
            · next hout =>
                rw [hk _ (by omega), if_neg (by omega)]
          · rw [if_neg fun hn => hfour hn.1, if_neg fun hn => hfour hn.2]
      · cases h
    · rw [if_neg hin] at hread
      cases hread
  · simp only [hc, Bool.false_eq_true, if_false, Option.pure_def, Option.some.injEq] at h
    subst h
    refine ⟨hk, fun n hn => ?_⟩
    rw [if_neg fun hn => hc hn.1]

/-- The loop over the first table. -/
theorem foldlM_readEntry_spec (hk : Keeps f sectorSize offset stack s.buffer) (hsize : 512 ≤ sectorSize)
    (hle : sectorSize ≤ 2 ^ 31) (his : ∀ i ∈ is, i < 4)
    (h : is.foldlM (readEntry isContainerPartition f sectorSize offset) s = some s') :
    (∀ n < 4, s'.infos n = if n ∈ is then tableEntry f sectorSize offset 0 n else s.infos n) ∧
      ∀ n, 4 ≤ n → n < 8 → s'.infos n =
        (lastOf isContainerPartition (tableEntry f sectorSize offset 0) is).elim (s.infos n) fun l =>
          lookedAt f sectorSize offset stack (tableEntry f sectorSize offset 0 l).startingOffset
            (n - 4) := by
  induction is generalizing s with
  | nil =>
      simp only [List.foldlM_nil, Option.pure_def, Option.some.injEq] at h
      subst h
      simp [lastOf]
  | cons i is ih =>
      rw [List.foldlM_cons, Option.bind_eq_bind, Option.bind_eq_some_iff] at h
      obtain ⟨s₁, hone, hrest⟩ := h
      have hi := his i List.mem_cons_self
      obtain ⟨hk₁, hinfos⟩ := readEntry_spec hk hsize hle hi hone
      obtain ⟨hlow, hhigh⟩ := ih hk₁ (fun j hj => his j (List.mem_cons_of_mem i hj)) hrest
      refine ⟨fun n hn => ?_, fun n hn hn' => ?_⟩
      · have hupdate : s₁.infos n = Function.update s.infos i (tableEntry f sectorSize offset 0 i) n := by
          rw [hinfos n (by omega), if_neg fun hc => absurd hc.2 (by omega)]
        rw [hlow n hn, hupdate]
        by_cases hni : n = i
        · simp [hni]
        · simp [hni]
      · rw [hhigh n hn hn', hinfos n hn', lastOf_cons]
        by_cases hc : isContainerPartition (tableEntry f sectorSize offset 0 i).partitionType = true
        · rw [if_pos ⟨hc, hn⟩, if_pos hc]
          cases lastOf isContainerPartition (tableEntry f sectorSize offset 0) is <;> rfl
        · rw [if_neg (fun hc' => hc hc'.1), if_neg hc, Function.update_of_ne (by omega)]

/-- The loop ends when every container entry leads to a table. -/
theorem foldlM_readEntry_isSome (hk : Keeps f sectorSize offset stack s.buffer)
    (hsize : 512 ≤ sectorSize) (hle : sectorSize ≤ 2 ^ 31) (his : ∀ i ∈ is, i < 4) :
    (∃ s', is.foldlM (readEntry isContainerPartition f sectorSize offset) s = some s') ↔
      ∀ i ∈ is, isContainerPartition (tableEntry f sectorSize offset 0 i).partitionType = true →
        HasTable f sectorSize offset (tableEntry f sectorSize offset 0 i).startingOffset := by
  induction is generalizing s with
  | nil => simp
  | cons i is ih =>
      have hi := his i List.mem_cons_self
      have his' : ∀ j ∈ is, j < 4 := fun j hj => his j (List.mem_cons_of_mem i hj)
      rw [List.forall_mem_cons, ← readEntry_isSome hk hsize hi]
      constructor
      · rintro ⟨s', h⟩
        rw [List.foldlM_cons, Option.bind_eq_bind, Option.bind_eq_some_iff] at h
        obtain ⟨s₁, hone, hrest⟩ := h
        exact ⟨⟨s₁, hone⟩, (ih (readEntry_spec hk hsize hle hi hone).1 his').mp ⟨s', hrest⟩⟩
      · rintro ⟨⟨s₁, hone⟩, hall⟩
        obtain ⟨s', hrest⟩ := (ih (readEntry_spec hk hsize hle hi hone).1 his').mpr hall
        refine ⟨s', ?_⟩
        rw [List.foldlM_cons, hone, Option.bind_eq_bind, Option.bind_some, hrest]

/-- The buffer before the loop. -/
theorem keeps_readInto (f : File) (sectorSize : ℕ) (offset : Int64) (stack : ℤ → UInt8) :
    Keeps f sectorSize offset stack (readInto stack 0 (extendedSector f offset 0) sectorSize) := by
  intro p hp
  rw [readInto, Int.sub_zero, Int.zero_add]
  by_cases hp' : 0 ≤ p
  · rw [if_pos ⟨hp', hp⟩, if_pos hp']
  · rw [if_neg fun hp => hp' hp.1, if_neg hp']

/-- The reader is the loop behind the check of the first sector. -/
theorem imDiskGetPartitionInfoIndirect_eq_some {report : ℕ → PartitionInformation}
    (hsize : 512 ≤ sectorSize) :
    imDiskGetPartitionInfoIndirect isContainerPartition f sectorSize offset stack = some report ↔
      HasTable f sectorSize offset 0 ∧ ∃ s,
        (List.range 4).foldlM (readEntry isContainerPartition f sectorSize offset)
          ⟨readInto stack 0 (extendedSector f offset 0) sectorSize, fun _ => .zero⟩ = some s ∧
        s.infos = report := by
  rw [imDiskGetPartitionInfoIndirect, if_neg (by omega), readFileProc, HasTable]
  have hvalid : Valid (readInto stack 0 (extendedSector f offset 0) sectorSize) 0 ↔
      Valid (fun p => extendedSector f offset 0 p.toNat) 0 :=
    valid_congr fun k hk₀ hk₁ => by rw [readInto, if_pos (by omega), Int.sub_zero]
  rw [← hvalid, Int64.add_zero]
  by_cases hin : 0 ≤ offset.toInt ∧ offset.toInt + sectorSize ≤ f.length
  · have hsector : (fun k => f.bytes (offset.toInt.toNat + k)) = extendedSector f offset 0 := by
      funext k
      rw [extendedSector, Int64.add_zero]
    rw [if_pos hin, hsector, Option.bind_eq_bind, Option.bind_some]
    dsimp only
    split
    · next hyes =>
        rw [Option.bind_eq_bind, Option.bind_eq_some_iff]
        simp only [Option.pure_def, Option.some.injEq]
        exact ⟨fun h => ⟨⟨hin, hyes⟩, h⟩, fun h => h.2⟩
    · next hno => exact ⟨fun h => (by cases h), fun h => absurd h.1.2 hno⟩
  · rw [if_neg hin]
    exact ⟨fun h => (by cases h), fun h => absurd h.1.1 hin⟩

/-- **When there is a report.** -/
theorem report_isSome (hsize : 512 ≤ sectorSize) (hle : sectorSize ≤ 2 ^ 31) :
    (∃ report, imDiskGetPartitionInfoIndirect isContainerPartition f sectorSize offset stack =
      some report) ↔ Readable isContainerPartition f sectorSize offset := by
  have hloop : (∃ s, (List.range 4).foldlM (readEntry isContainerPartition f sectorSize offset)
      ⟨readInto stack 0 (extendedSector f offset 0) sectorSize, fun _ => .zero⟩ = some s) ↔ _ :=
    foldlM_readEntry_isSome (keeps_readInto f sectorSize offset stack) hsize hle (by simp)
  simp only [List.mem_range] at hloop
  rw [Readable, ← hloop]
  constructor
  · rintro ⟨report, h⟩
    obtain ⟨hfirst, s, hs, -⟩ := (imDiskGetPartitionInfoIndirect_eq_some hsize).mp h
    exact ⟨hfirst, s, hs⟩
  · rintro ⟨hfirst, s, hs⟩
    exact ⟨s.infos, (imDiskGetPartitionInfoIndirect_eq_some hsize).mpr ⟨hfirst, s, hs, rfl⟩⟩

/-- **What is reported**: the first table, and what is looked at for its last container entry. -/
theorem report_eq {report : ℕ → PartitionInformation} (hsize : 512 ≤ sectorSize)
    (hle : sectorSize ≤ 2 ^ 31)
    (h : imDiskGetPartitionInfoIndirect isContainerPartition f sectorSize offset stack = some report) :
    (∀ i < 4, report i = tableEntry f sectorSize offset 0 i) ∧
      ∀ j < 4, report (4 + j) =
        (lastOf isContainerPartition (tableEntry f sectorSize offset 0) (List.range 4)).elim .zero fun l =>
          lookedAt f sectorSize offset stack (tableEntry f sectorSize offset 0 l).startingOffset j := by
  obtain ⟨-, s, hloop, rfl⟩ := (imDiskGetPartitionInfoIndirect_eq_some hsize).mp h
  obtain ⟨hlow, hhigh⟩ := foldlM_readEntry_spec (keeps_readInto f sectorSize offset stack) hsize hle
    (by simp) hloop
  constructor
  · intro i hi
    rw [hlow i hi, if_pos (List.mem_range.mpr hi)]
  · intro j hj
    rw [hhigh (4 + j) (by omega) (by omega), Nat.add_sub_cancel_left]

end Loop

/-! ## When the tables are decoded -/

section Decodes

variable {isContainerPartition f sectorSize offset stack}

theorem getLast?_filter_range (p : ℕ → Bool) (n l : ℕ) :
    ((List.range n).filter p).getLast? = some l ↔ l < n ∧ p l = true ∧ ∀ i, l < i → i < n → p i = false := by
  induction n with
  | zero => simp
  | succ n ih =>
      rw [List.range_succ, List.filter_append, List.filter_singleton]
      by_cases hn : p n = true
      · rw [hn, cond_true, List.getLast?_concat, Option.some.injEq]
        constructor
        · rintro rfl
          exact ⟨by omega, hn, fun i hi hi' => by omega⟩
        · rintro ⟨hl, -, hnone⟩
          by_contra hne
          rw [hnone n (by omega) (by omega)] at hn
          cases hn
      · rw [Bool.not_eq_true] at hn
        rw [hn, cond_false, List.append_nil, ih]
        refine ⟨fun ⟨hl, hp, hnone⟩ => ⟨by omega, hp, fun i hi hi' => ?_⟩,
          fun ⟨hl, hp, hnone⟩ => ⟨?_, hp, fun i hi hi' => hnone i hi (by omega)⟩⟩
        · rcases Nat.lt_succ_iff_lt_or_eq.mp hi' with hlt | rfl
          · exact hnone i hi hlt
          · exact hn
        · refine lt_of_le_of_ne (Nat.le_of_lt_succ hl) fun heq => ?_
          rw [heq, hn] at hp
          cases hp

theorem lastOf_range {entries : ℕ → PartitionInformation} {l : ℕ} :
    lastOf isContainerPartition entries (List.range 4) = some l ↔
      IsLast isContainerPartition entries l :=
  getLast?_filter_range _ 4 l

/-- **When extended tables are decoded**: the sectors have 512 bytes, or what lies in the other place
reads the same; and all container entries lead to what the last one leads to. -/
theorem decodes_iff (hsize : ∃ k, 9 ≤ k ∧ k < 32 ∧ sectorSize = 2 ^ k) :
    Decodes isContainerPartition f sectorSize offset stack ↔
      (Readable isContainerPartition f sectorSize offset →
        ∀ l, IsLast isContainerPartition (tableEntry f sectorSize offset 0) l →
          (sectorSize = 512 ∨ ∀ j < 4,
            lookedAt f sectorSize offset stack (tableEntry f sectorSize offset 0 l).startingOffset j =
              tableEntry f sectorSize offset (tableEntry f sectorSize offset 0 l).startingOffset j) ∧
          ∀ i < l, isContainerPartition (tableEntry f sectorSize offset 0 i).partitionType = true →
            ∀ j < 4,
              tableEntry f sectorSize offset (tableEntry f sectorSize offset 0 i).startingOffset j =
                tableEntry f sectorSize offset (tableEntry f sectorSize offset 0 l).startingOffset j) := by
  obtain ⟨k, hk, hk', rfl⟩ := hsize
  have hsize : 512 ≤ 2 ^ k := (Nat.pow_le_pow_right (by norm_num) hk : 2 ^ 9 ≤ 2 ^ k)
  have hle : 2 ^ k ≤ 2 ^ 31 := Nat.pow_le_pow_right (show 0 < 2 by norm_num) (show k ≤ 31 by omega)
  rw [← @report_isSome _ _ _ _ stack hsize hle]
  constructor
  · rintro hdecodes ⟨report, hreport⟩ l hlast
    obtain ⟨hfirst, hsecond⟩ := report_eq hsize hle hreport
    obtain ⟨hl, hcontainer, -⟩ := id hlast
    rw [lastOf_range.mpr hlast] at hsecond
    have hdecoded : ∀ i < 4,
        isContainerPartition (tableEntry f (2 ^ k) offset 0 i).partitionType = true → ∀ j < 4,
          lookedAt f (2 ^ k) offset stack (tableEntry f (2 ^ k) offset 0 l).startingOffset j =
            tableEntry f (2 ^ k) offset (tableEntry f (2 ^ k) offset 0 i).startingOffset j := by
      intro i hi hc j hj
      have hentry := hdecodes report hreport i hi (by rw [hfirst i hi]; exact hc) j hj
      rw [hsecond j hj, hfirst i hi, Option.elim_some] at hentry
      exact hentry
    refine ⟨.inr (hdecoded l hl hcontainer), fun i hi hc j hj => ?_⟩
    rw [← hdecoded l hl hcontainer j hj]
    exact (hdecoded i (by omega) hc j hj).symm
  · intro hcond report hreport i hi hc j hj
    obtain ⟨hfirst, hsecond⟩ := report_eq hsize hle hreport
    rw [hfirst i hi] at hc ⊢
    have hsome : lastOf isContainerPartition (tableEntry f (2 ^ k) offset 0) (List.range 4) ≠ none := by
      rw [lastOf, Ne, List.getLast?_eq_none_iff]
      exact List.ne_nil_of_mem (List.mem_filter.mpr ⟨List.mem_range.mpr hi, hc⟩)
    obtain ⟨l, hl⟩ := Option.ne_none_iff_exists'.mp hsome
    have hlast := lastOf_range.mp hl
    obtain ⟨hplace, hothers⟩ := hcond ⟨report, hreport⟩ l hlast
    have hlooked : lookedAt f (2 ^ k) offset stack (tableEntry f (2 ^ k) offset 0 l).startingOffset j =
        tableEntry f (2 ^ k) offset (tableEntry f (2 ^ k) offset 0 l).startingOffset j := by
      rcases hplace with hbytes | hchance
      · rw [hbytes]
        exact lookedAt_eq_tableEntry hj
      · exact hchance j hj
    rw [hsecond j hj, hl, Option.elim_some, hlooked]
    rcases Nat.lt_trichotomy i l with hlt | rfl | hgt
    · exact (hothers i hlt hc j hj).symm
    · rfl
    · rw [hlast.2.2 i hgt hi] at hc
      cases hc

/-- A disk of 8 sectors of 512 bytes with a logical partition. -/
theorem decodes_oneLogical :
    Decodes Partition.isContainerPartition Partition.oneLogical 512 0 (fun _ => 0) := by
  refine (decodes_iff ⟨9, by norm_num, by norm_num, by norm_num⟩).mpr
    fun _ l hlast => ⟨.inl rfl, fun i hi hcontainer => absurd hcontainer ?_⟩
  have hzero : l = 0 := by
    obtain ⟨hl, htype, -⟩ := hlast
    by_contra hne
    have hother : ∀ i < 4, i ≠ 0 → Partition.isContainerPartition
        (tableEntry Partition.oneLogical 512 0 0 i).partitionType = false := by decide +kernel
    rw [hother l hl hne] at htype
    cases htype
  omega

/-- Bytes kept for the first sector of 512 bytes only are padded. -/
theorem padded_sector (bytes : ℕ → UInt8) (i : ℕ) (hi : 4096 ≤ i) :
    (if i < 512 then bytes i else 0) = 0 := if_neg (by omega)

/-- A disk of 4 sectors of 1024 bytes with an extended partition from sector 1 on, and a logical one
of one sector behind its table. -/
def largeSectors : File :=
  let bytes := place (place (fun _ => 0) 450 [0x05, 0, 0, 0, 1, 0, 0, 0, 3, 0, 0, 0]) 510 [0x55, 0xAA]
  let disk : File := ⟨fun i => if i < 512 then bytes i else 0, 4096, padded_sector bytes⟩
  (disk.write [0x06, 0, 0, 0, 1, 0, 0, 0, 1, 0, 0, 0] 1474).write [0x55, 0xAA] 1534

/-- The reader reports no logical partition. -/
theorem not_decodes_largeSectors :
    ¬ Decodes Partition.isContainerPartition largeSectors 1024 0 (fun _ => 0) := by
  intro hdecodes
  have hreport : ((imDiskGetPartitionInfoIndirect Partition.isContainerPartition largeSectors 1024 0
      (fun _ => 0)).map fun report => ((report 0).partitionType, (report 0).startingOffset,
        (report 4).partitionLength)) = some (0x05, 1024, 0) := by
    decide +kernel
  obtain ⟨report, hok, hinfo⟩ := Option.map_eq_some_iff.mp hreport
  obtain ⟨htype, hinfo⟩ := Prod.mk.inj hinfo
  obtain ⟨hstart, hlength⟩ := Prod.mk.inj hinfo
  have hentry := hdecodes report hok 0 (by norm_num) (by rw [htype]; decide) 0 (by norm_num)
  have htable : (tableEntry largeSectors 1024 0 1024 0).partitionLength = 1024 := by decide +kernel
  rw [hstart] at hentry
  rw [← hentry, hlength] at htable
  exact absurd htable (by decide)

end Decodes

end KernelDrivers.ImDisk.Mbr
