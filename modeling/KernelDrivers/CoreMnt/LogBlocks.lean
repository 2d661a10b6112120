import KernelDrivers.CoreMnt.Sparse
import KernelDrivers.Lib.Reach
import Mathlib.Data.Finset.Sort

/-!
# The log blocks of an index table

Beside the blocks with data an index table hands out blocks for log messages, from the same counter.  The
messages go to the current log block; the blocks that are full are kept in a set, which is not written to
the file: when the table is loaded the set is made again, of the blocks below the current log block that
no entry of the table has.

## Main definitions

* `IndexTable` — a `CResparseIndexTable`.
* `getNextLogMessagePosition`, `logMessageOffset2FileOffset`, `getLogBlock` — the routines for the log.
* `History` — a table with what was handed out.
* `Consistent` — the views of the log agree.
* `FirstBlock` — a call that does not leave the first log block.

## Main results

* `consistent_of_reach` — in every run of such calls the views agree.
* `not_consistent_of_second` — they do not when a second block is begun.
-/

namespace KernelDrivers.CoreMnt.Sparse

open KernelDrivers.Fat (ulong ulongSub)

/-- `IndexTableHeader`, with the entries behind it. -/
structure Header where
  indexTableSize : ℕ
  usedBlockCount : ℕ
  firstLogBlock : ℕ
  currentLogBlock : ℕ
  currentLogOffset : ℕ
  table : ℕ → ℕ

structure IndexTable where
  blockSize : ℕ
  header : Header
  /-- `logBlocks_`. -/
  logBlocks : Finset ℕ

/-- The constructor.  Where the size of the table wraps, `std::fill` runs to the end of the address
space. -/
def indexTable (logicSize blockSize granulity : ℕ) : Option IndexTable :=
  if blockSize = 0 ∨ granulity = 0 then none
  else
    (integerDiv logicSize blockSize).bind fun blocks =>
      (calcDataOffset logicSize blockSize granulity).bind fun _ =>
        if 2 ^ 32 ≤ headerSize + 4 * blocks then none
        else some ⟨blockSize, ⟨blocks, 0, unusedBlockToken, unusedBlockToken, blockSize,
          fun _ => unusedBlockToken⟩, ∅⟩

namespace IndexTable

variable (t : IndexTable)

/-- `blockSize_ - currentLogOffset`. -/
def room : ℕ := ulongSub t.blockSize t.header.currentLogOffset

/-- The tokens that entries of the table have. -/
def usedBlock : Finset ℕ :=
  ((Finset.range t.header.indexTableSize).image t.header.table).erase unusedBlockToken

/-- `getLogBlock`. -/
def getLogBlock : IndexTable :=
  if t.header.currentLogBlock = unusedBlockToken then t
  else { t with logBlocks := t.logBlocks ∪ (Finset.range t.header.currentLogBlock \ t.usedBlock) }

/-- The table in memory when it was saved and loaded by a new object. -/
def reload : IndexTable := getLogBlock { t with logBlocks := ∅ }

/-- `getMessageBlocksSize`. -/
def getMessageBlocksSize : ℕ :=
  (t.logBlocks.card * t.blockSize +
    if t.header.currentLogBlock = unusedBlockToken then 0 else t.header.currentLogOffset) % 2 ^ 64

/-- `LogMessageOffset2FileOffset`. -/
def logMessageOffset2FileOffset (virtualOffset : ℕ) : Option ℕ :=
  if t.getMessageBlocksSize < virtualOffset then none
  else
    (numericCast (virtualOffset / t.blockSize)).map fun logBlockIndex =>
      let logBlockNum :=
        if logBlockIndex = t.logBlocks.card then t.header.currentLogBlock
        else (t.logBlocks.sort (· ≤ ·)).getD logBlockIndex unusedBlockToken
      ulong (logBlockNum * t.blockSize + virtualOffset % t.blockSize)

/-- Begin a new log block. -/
def beginLogBlock : IndexTable where
  blockSize := t.blockSize
  header := { t.header with
    currentLogBlock := t.header.usedBlockCount
    currentLogOffset := 0
    usedBlockCount := ulong (t.header.usedBlockCount + 1)
    firstLogBlock :=
      if t.header.firstLogBlock = unusedBlockToken then t.header.usedBlockCount
      else t.header.firstLogBlock }
  logBlocks :=
    if t.header.firstLogBlock = unusedBlockToken then t.logBlocks
    else insert t.header.usedBlockCount t.logBlocks

/-- A message of so many bytes behind the others in the current log block. -/
def addMessage (messageSize : ℕ) : IndexTable :=
  { t with header.currentLogOffset := ulong (t.header.currentLogOffset + messageSize) }

/-- The position behind the messages in the current log block. -/
def position : ℕ := ulong (t.header.currentLogBlock * t.blockSize + t.header.currentLogOffset)

/-- The next number in an entry. -/
def assignNext (index : ℕ) : IndexTable :=
  { t with
    header.table := Function.update t.header.table index t.header.usedBlockCount
    header.usedBlockCount := ulong (t.header.usedBlockCount + 1) }

end IndexTable

/-- A routine of the table that throws raises. -/
abbrev TableM := EStateM Unit IndexTable

/-- `getNextLogMessagePosition`. -/
def getNextLogMessagePosition (messageSize : ℕ) : TableM ℕ := fun t =>
  let t := if t.room < messageSize then t.beginLogBlock else t
  if t.room < messageSize then .error () t else .ok t.position (t.addMessage messageSize)

/-- `set`, with the number that `getUsedCount` hands out. -/
def setNextBlock (index : ℕ) : TableM Unit := fun t =>
  if t.header.indexTableSize ≤ index then .error () t
  else if t.header.table index ≠ unusedBlockToken ∨ t.header.usedBlockCount = unusedBlockToken then
    .error () t
  else .ok () (t.assignNext index)

/-! ## Runs -/

/-- A table, what it has handed out and which calls have thrown. -/
structure History where
  table : IndexTable
  dataBlocks : List ℕ
  logBlocks : List ℕ
  /-- The size of all messages so far. -/
  virtualOffset : ℕ
  /-- The virtual offset of each message and the position that was returned for it. -/
  messages : List (ℕ × ℕ)
  /-- Each log block was full when the next one was begun. -/
  filled : Bool
  /-- The table before and after each call that has thrown. -/
  failures : List (IndexTable × IndexTable)

/-- The calls; a block of data is given the next number. -/
inductive TableOp
  | set (index : UInt32)
  | message (messageSize : UInt32)

namespace History

/-- The history of a new table. -/
def new (t : IndexTable) : History := ⟨t, [], [], 0, [], true, []⟩

/-- A log block that was begun. -/
def begin (h : History) : History :=
  { h with
    logBlocks := h.logBlocks ++ [h.table.header.usedBlockCount]
    filled := h.filled && h.table.header.currentLogOffset == h.table.blockSize }

/-- What is known behind a call of `set`. -/
def afterSet (h : History) : EStateM.Result Unit IndexTable Unit → History
  | .ok _ t => { h with table := t, dataBlocks := h.dataBlocks ++ [h.table.header.usedBlockCount] }
  | .error _ t => { h with table := t, failures := (h.table, t) :: h.failures }

/-- What is known behind a call of `getNextLogMessagePosition`, when a block that it begins is. -/
def afterMessage (h : History) (messageSize : ℕ) : EStateM.Result Unit IndexTable ℕ → History
  | .ok position t => { h with
      table := t
      virtualOffset := h.virtualOffset + messageSize
      messages := (h.virtualOffset, position) :: h.messages }
  | .error _ t => { h with table := t, failures := (h.table, t) :: h.failures }

def step (h : History) : TableOp → History
  | .set index => h.afterSet (setNextBlock index.toNat h.table)
  | .message messageSize =>
      (if h.table.room < messageSize.toNat then h.begin else h).afterMessage messageSize.toNat
        (getNextLogMessagePosition messageSize.toNat h.table)

/-- The views of the log agree. -/
structure Consistent (h : History) : Prop where
  distinct : (h.dataBlocks ++ h.logBlocks).Nodup
  reload : h.table.reload.logBlocks = h.table.logBlocks
  mapped : h.filled = true → ∀ m ∈ h.messages,
    h.table.logMessageOffset2FileOffset m.1 = some m.2
  unchanged : ∀ f ∈ h.failures, f.2.header = f.1.header

/-- The call stays in the first log block: a message fits behind those before it, and one of no bytes
does not come where a block would have to be begun. -/
def FirstBlock (h : History) : TableOp → Prop
  | .set _ => True
  | .message messageSize =>
      if h.table.header.currentLogBlock = unusedBlockToken then
        0 < messageSize.toNat ∧ messageSize.toNat ≤ h.table.blockSize
      else
        h.table.header.currentLogOffset < h.table.blockSize ∧
          h.table.header.currentLogOffset + messageSize.toNat ≤ h.table.blockSize

instance (h : History) : ∀ op, Decidable (h.FirstBlock op)
  | .set _ => inferInstanceAs (Decidable True)
  | .message _ => inferInstanceAs (Decidable (ite _ _ _))

end History

/-! ## The routines by cases -/

variable {t : IndexTable} {m : ℕ}

theorem getNext_of_room (h : ¬ t.room < m) :
    getNextLogMessagePosition m t = .ok t.position (t.addMessage m) := by
  simp only [getNextLogMessagePosition, if_neg h]

theorem getNext_of_begin (h : t.room < m) (hroom : ¬ t.beginLogBlock.room < m) :
    getNextLogMessagePosition m t = .ok t.beginLogBlock.position (t.beginLogBlock.addMessage m) := by
  simp only [getNextLogMessagePosition, if_pos h, if_neg hroom]

theorem setNextBlock_cases (t : IndexTable) (index : ℕ) :
    setNextBlock index t = .error () t ∨
      setNextBlock index t = .ok () (t.assignNext index) ∧ index < t.header.indexTableSize ∧
        t.header.table index = unusedBlockToken ∧ t.header.usedBlockCount ≠ unusedBlockToken := by
  rw [setNextBlock]
  by_cases hrange : t.header.indexTableSize ≤ index
  · exact .inl (if_pos hrange)
  · rw [if_neg hrange]
    by_cases hused : t.header.table index ≠ unusedBlockToken ∨
        t.header.usedBlockCount = unusedBlockToken
    · exact .inl (if_pos hused)
    · rw [if_neg hused]
      rw [not_or, not_not] at hused
      exact .inr ⟨rfl, not_le.mp hrange, hused.1, hused.2⟩

theorem mem_usedBlock {b : ℕ} : b ∈ t.usedBlock ↔
    b ≠ unusedBlockToken ∧ ∃ i < t.header.indexTableSize, t.header.table i = b := by
  simp [IndexTable.usedBlock]

theorem card_usedBlock_le (t : IndexTable) : t.usedBlock.card ≤ t.header.indexTableSize := by
  calc t.usedBlock.card ≤ ((Finset.range t.header.indexTableSize).image t.header.table).card :=
        Finset.card_le_card (Finset.erase_subset _ _)
    _ ≤ (Finset.range t.header.indexTableSize).card := Finset.card_image_le
    _ = t.header.indexTableSize := Finset.card_range _

theorem mem_usedBlock_assignNext {index b : ℕ} (hrange : index < t.header.indexTableSize)
    (hfree : t.header.table index = unusedBlockToken)
    (hval : t.header.usedBlockCount ≠ unusedBlockToken) :
    b ∈ (t.assignNext index).usedBlock ↔ b = t.header.usedBlockCount ∨ b ∈ t.usedBlock := by
  rw [mem_usedBlock, mem_usedBlock]
  constructor
  · rintro ⟨hb, i, hi, heq⟩
    change Function.update t.header.table index t.header.usedBlockCount i = b at heq
    by_cases hii : i = index
    · rw [hii, Function.update_self] at heq
      exact .inl heq.symm
    · rw [Function.update_of_ne hii] at heq
      exact .inr ⟨hb, i, hi, heq⟩
  · rintro (rfl | ⟨hb, i, hi, heq⟩)
    · exact ⟨hval, index, hrange, Function.update_self _ _ _⟩
    · refine ⟨hb, i, hi, ?_⟩
      change Function.update t.header.table index t.header.usedBlockCount i = b
      rw [Function.update_of_ne, heq]
      rintro rfl
      exact hb (heq.symm.trans hfree)

/-! ## The first log block -/

namespace History

/-- No log block was begun. -/
structure NoLog (h : History) : Prop where
  blocks : h.logBlocks = []
  current : h.table.header.currentLogBlock = unusedBlockToken
  first : h.table.header.firstLogBlock = unusedBlockToken
  offset : h.table.header.currentLogOffset = h.table.blockSize
  virtual : h.virtualOffset = 0
  messages : h.messages = []

/-- One log block was begun. -/
structure OneLog (h : History) (b : ℕ) : Prop where
  blocks : h.logBlocks = [b]
  current : h.table.header.currentLogBlock = b
  offset : h.table.header.currentLogOffset = h.virtualOffset
  room : h.virtualOffset ≤ h.table.blockSize
  messages : ∀ m ∈ h.messages, m.1 < h.table.blockSize ∧ m.1 ≤ h.virtualOffset ∧
    m.2 = ulong (b * h.table.blockSize + m.1)

/-- What every call that does not leave the first log block keeps. -/
structure Inv (h : History) : Prop where
  small : h.table.header.indexTableSize < 2 ^ 30
  positive : 0 < h.table.blockSize
  narrow : h.table.blockSize < 2 ^ 32
  empty : h.table.logBlocks = ∅
  numbers : (h.dataBlocks ++ h.logBlocks).Perm (List.range h.table.header.usedBlockCount)
  used : ∀ b, b ∈ h.table.usedBlock ↔ b ∈ h.dataBlocks
  unchanged : ∀ f ∈ h.failures, f.2.header = f.1.header
  log : h.NoLog ∨ ∃ b, h.OneLog b

variable {h : History}

theorem Inv.distinct (H : h.Inv) : (h.dataBlocks ++ h.logBlocks).Nodup :=
  H.numbers.nodup_iff.mpr List.nodup_range

theorem Inv.logBlocks_length_le (H : h.Inv) : h.logBlocks.length ≤ 1 := by
  obtain hlog | ⟨b, hlog⟩ := H.log
  · simp [hlog.blocks]
  · simp [hlog.blocks]

/-- Every number but one is that of an entry, so the counter is far from its end. -/
theorem Inv.usedBlockCount_le (H : h.Inv) : h.table.header.usedBlockCount ≤ 2 ^ 30 := by
  have hnodup : h.dataBlocks.Nodup := (List.nodup_append.mp H.distinct).1
  have hdata : h.dataBlocks.length ≤ h.table.usedBlock.card := by
    rw [← List.toFinset_card_of_nodup hnodup]
    apply Finset.card_le_card
    intro b hb
    exact (H.used b).mpr (List.mem_toFinset.mp hb)
  have hlength : h.dataBlocks.length + h.logBlocks.length = h.table.header.usedBlockCount := by
    simpa using H.numbers.length_eq
  have hcard := card_usedBlock_le h.table
  have hone := H.logBlocks_length_le
  have hsmall := H.small
  omega

theorem Inv.usedBlockCount_succ (H : h.Inv) :
    ulong (h.table.header.usedBlockCount + 1) = h.table.header.usedBlockCount + 1 := by
  have hle := H.usedBlockCount_le
  exact Nat.mod_eq_of_lt (by omega)

/-- The numbers that were handed out are those below the counter. -/
theorem Inv.mem_iff (H : h.Inv) {b : ℕ} :
    b ∈ h.dataBlocks ∨ b ∈ h.logBlocks ↔ b < h.table.header.usedBlockCount := by
  rw [← List.mem_append, H.numbers.mem_iff, List.mem_range]

theorem Inv.numbers_data (H : h.Inv) :
    (h.dataBlocks ++ [h.table.header.usedBlockCount] ++ h.logBlocks).Perm
      (List.range (h.table.header.usedBlockCount + 1)) := by
  have hswap : (h.dataBlocks ++ [h.table.header.usedBlockCount] ++ h.logBlocks).Perm
      (h.dataBlocks ++ h.logBlocks ++ [h.table.header.usedBlockCount]) := by
    rw [List.append_assoc, List.append_assoc]
    exact List.perm_append_comm.append_left _
  rw [List.range_succ]
  exact hswap.trans (H.numbers.append_right _)

theorem Inv.numbers_log (H : h.Inv) :
    (h.dataBlocks ++ (h.logBlocks ++ [h.table.header.usedBlockCount])).Perm
      (List.range (h.table.header.usedBlockCount + 1)) := by
  rw [List.range_succ, ← List.append_assoc]
  exact H.numbers.append_right _

/-- A call that has thrown and left the table as it was. -/
theorem Inv.failed (H : h.Inv) : { h with failures := (h.table, h.table) :: h.failures }.Inv where
  small := H.small
  positive := H.positive
  narrow := H.narrow
  empty := H.empty
  numbers := H.numbers
  used := H.used
  unchanged := by
    intro f hf
    obtain rfl | hf := List.mem_cons.mp hf
    · rfl
    · exact H.unchanged f hf
  log := by
    obtain hlog | ⟨b, hlog⟩ := H.log
    · exact .inl { hlog with }
    · exact .inr ⟨b, { hlog with }⟩

/-- A number that an entry gets. -/
theorem Inv.assigned (H : h.Inv) {index : ℕ} (hrange : index < h.table.header.indexTableSize)
    (hfree : h.table.header.table index = unusedBlockToken)
    (hval : h.table.header.usedBlockCount ≠ unusedBlockToken) :
    { h with
      table := h.table.assignNext index
      dataBlocks := h.dataBlocks ++ [h.table.header.usedBlockCount] }.Inv where
  small := H.small
  positive := H.positive
  narrow := H.narrow
  empty := H.empty
  numbers := by
    simp only [IndexTable.assignNext]
    rw [H.usedBlockCount_succ]
    exact H.numbers_data
  used := by
    intro b
    rw [mem_usedBlock_assignNext hrange hfree hval, H.used, List.mem_append, List.mem_singleton,
      or_comm]
  unchanged := H.unchanged
  log := by
    obtain hlog | ⟨b, hlog⟩ := H.log
    · exact .inl ⟨hlog.blocks, hlog.current, hlog.first, hlog.offset, hlog.virtual, hlog.messages⟩
    · exact .inr ⟨b, ⟨hlog.blocks, hlog.current, hlog.offset, hlog.room, hlog.messages⟩⟩

theorem Inv.set (H : h.Inv) (index : UInt32) : (h.step (.set index)).Inv := by
  obtain heq | ⟨heq, hrange, hfree, hval⟩ := setNextBlock_cases h.table index.toNat
  · rw [step, heq]
    exact H.failed
  · rw [step, heq]
    exact H.assigned hrange hfree hval

theorem room_eq {t : IndexTable} (hle : t.header.currentLogOffset ≤ t.blockSize)
    (hnarrow : t.blockSize < 2 ^ 32) : t.room = t.blockSize - t.header.currentLogOffset :=
  Fat.ulongSub_of_le hnarrow hle

theorem room_beginLogBlock {t : IndexTable} (hnarrow : t.blockSize < 2 ^ 32) :
    t.beginLogBlock.room = t.blockSize :=
  Fat.ulongSub_of_le hnarrow (Nat.zero_le _)

/-- The first message begins the first log block. -/
theorem Inv.message_begin (H : h.Inv) (hlog : h.NoLog) {m : ℕ} (hpos : 0 < m)
    (hle : m ≤ h.table.blockSize) :
    ((if h.table.room < m then h.begin else h).afterMessage m
      (getNextLogMessagePosition m h.table)).Inv := by
  have hroom : h.table.room < m := by
    rw [room_eq hlog.offset.le H.narrow, hlog.offset, Nat.sub_self]
    exact hpos
  have hnext : ¬ h.table.beginLogBlock.room < m := by
    rw [room_beginLogBlock H.narrow]
    exact not_lt.mpr hle
  have hm : ulong (0 + m) = m := by
    rw [Nat.zero_add]
    exact Fat.ulong_of_lt (hle.trans_lt H.narrow)
  rw [if_pos hroom, getNext_of_begin hroom hnext]
  constructor
  · exact H.small
  · exact H.positive
  · exact H.narrow
  · change ite _ _ _ = _
    rw [if_pos hlog.first]
    exact H.empty
  · change List.Perm _ (List.range (ulong (h.table.header.usedBlockCount + 1)))
    rw [H.usedBlockCount_succ]
    exact H.numbers_log
  · exact H.used
  · exact H.unchanged
  · right
    refine ⟨h.table.header.usedBlockCount, ?_, rfl, ?_, ?_, ?_⟩
    · change h.logBlocks ++ _ = _
      rw [hlog.blocks, List.nil_append]
    · change ulong (0 + m) = h.virtualOffset + m
      rw [hm, hlog.virtual, Nat.zero_add]
    · change h.virtualOffset + m ≤ _
      rw [hlog.virtual, Nat.zero_add]
      exact hle
    · intro x hx
      change x ∈ (h.virtualOffset, h.table.beginLogBlock.position) :: h.messages at hx
      rw [hlog.messages, List.mem_singleton, hlog.virtual] at hx
      subst hx
      exact ⟨H.positive, Nat.zero_le _, rfl⟩

/-- A message behind the others. -/
theorem Inv.message_add (H : h.Inv) {b : ℕ} (hlog : h.OneLog b) {m : ℕ}
    (hlt : h.table.header.currentLogOffset < h.table.blockSize)
    (hle : h.table.header.currentLogOffset + m ≤ h.table.blockSize) :
    ((if h.table.room < m then h.begin else h).afterMessage m
      (getNextLogMessagePosition m h.table)).Inv := by
  have hroom : ¬ h.table.room < m := by
    rw [room_eq hlt.le H.narrow]
    omega
  have hm : ulong (h.table.header.currentLogOffset + m) = h.table.header.currentLogOffset + m :=
    Fat.ulong_of_lt (hle.trans_lt H.narrow)
  rw [if_neg hroom, getNext_of_room hroom]
  constructor
  · exact H.small
  · exact H.positive
  · exact H.narrow
  · exact H.empty
  · exact H.numbers
  · exact H.used
  · exact H.unchanged
  · right
    refine ⟨b, hlog.blocks, hlog.current, ?_, ?_, ?_⟩
    · change ulong (h.table.header.currentLogOffset + m) = h.virtualOffset + m
      rw [hm, hlog.offset]
    · change h.virtualOffset + m ≤ h.table.blockSize
      rw [← hlog.offset]
      exact hle
    · intro x hx
      change x ∈ (h.virtualOffset, h.table.position) :: h.messages at hx
      change x.1 < h.table.blockSize ∧ x.1 ≤ h.virtualOffset + m ∧ _
      obtain rfl | hx := List.mem_cons.mp hx
      · refine ⟨hlog.offset ▸ hlt, Nat.le_add_right _ _, ?_⟩
        change h.table.position = _
        rw [IndexTable.position, hlog.current, hlog.offset]
        rfl
      · obtain ⟨hv, hvirtual, hposition⟩ := hlog.messages x hx
        exact ⟨hv, hvirtual.trans (Nat.le_add_right _ _), hposition⟩

theorem OneLog.current_ne (H : h.Inv) {b : ℕ} (hlog : h.OneLog b) : b ≠ unusedBlockToken := by
  have hlt : b < h.table.header.usedBlockCount := by
    rw [← H.mem_iff, hlog.blocks]
    exact .inr (List.mem_singleton_self b)
  have hle := H.usedBlockCount_le
  have hunused : unusedBlockToken = 0xFFFFFFFF := rfl
  omega

theorem Inv.step (H : h.Inv) {op : TableOp} (hop : h.FirstBlock op) : (h.step op).Inv := by
  cases op with
  | set index => exact H.set index
  | message messageSize =>
    obtain hlog | ⟨b, hlog⟩ := H.log
    · rw [FirstBlock, if_pos hlog.current] at hop
      exact H.message_begin hlog hop.1 hop.2
    · rw [FirstBlock, if_neg (hlog.current ▸ hlog.current_ne H)] at hop
      exact H.message_add hlog hop.1 hop.2

/-! ## The views -/

/-- The blocks below the only log block all have entries. -/
theorem Inv.reload (H : h.Inv) : h.table.reload.logBlocks = h.table.logBlocks := by
  rw [H.empty, IndexTable.reload, IndexTable.getLogBlock]
  obtain hlog | ⟨b, hlog⟩ := H.log
  · rw [if_pos hlog.current]
  · rw [if_neg (hlog.current ▸ hlog.current_ne H)]
    change ∅ ∪ (Finset.range h.table.header.currentLogBlock \ h.table.usedBlock) = ∅
    rw [Finset.empty_union, Finset.sdiff_eq_empty_iff_subset, hlog.current]
    intro c hc
    rw [Finset.mem_range] at hc
    have hb : b < h.table.header.usedBlockCount := by
      rw [← H.mem_iff, hlog.blocks]
      exact .inr (List.mem_singleton_self b)
    have hmem := H.mem_iff.mpr (hc.trans hb)
    rw [hlog.blocks, List.mem_singleton] at hmem
    exact (H.used c).mpr (hmem.resolve_right hc.ne)

theorem Inv.mapped (H : h.Inv) {x : ℕ × ℕ} (hx : x ∈ h.messages) :
    h.table.logMessageOffset2FileOffset x.1 = some x.2 := by
  obtain hlog | ⟨b, hlog⟩ := H.log
  · rw [hlog.messages] at hx
    exact absurd hx List.not_mem_nil
  · obtain ⟨hv, hvirtual, hposition⟩ := hlog.messages x hx
    have hsize : h.table.getMessageBlocksSize = h.virtualOffset := by
      rw [IndexTable.getMessageBlocksSize, H.empty, Finset.card_empty, Nat.zero_mul, Nat.zero_add,
        if_neg (hlog.current ▸ hlog.current_ne H), hlog.offset]
      exact Nat.mod_eq_of_lt (by have := hlog.room; have := H.narrow; omega)
    rw [IndexTable.logMessageOffset2FileOffset, hsize, if_neg (not_lt.mpr hvirtual),
      Nat.div_eq_of_lt hv, Nat.mod_eq_of_lt hv, H.empty, Finset.card_empty, hlog.current, hposition]
    rfl

theorem Inv.consistent (H : h.Inv) : h.Consistent :=
  ⟨H.distinct, H.reload, fun _ _ hx => H.mapped hx, H.unchanged⟩

/-- A new table. -/
theorem inv_new {logicSize blockSize granulity : ℕ} {t : IndexTable}
    (ht : indexTable logicSize blockSize granulity = some t) (hnarrow : blockSize < 2 ^ 32) :
    (new t).Inv := by
  rw [indexTable] at ht
  by_cases hzero : blockSize = 0 ∨ granulity = 0
  · rw [if_pos hzero] at ht
    exact absurd ht (by simp)
  · rw [if_neg hzero, Option.bind_eq_some_iff] at ht
    obtain ⟨blocks, -, ht⟩ := ht
    rw [Option.bind_eq_some_iff] at ht
    obtain ⟨_, -, ht⟩ := ht
    by_cases hwrap : 2 ^ 32 ≤ headerSize + 4 * blocks
    · rw [if_pos hwrap] at ht
      exact absurd ht (by simp)
    · rw [if_neg hwrap, Option.some_inj] at ht
      subst ht
      constructor
      · change blocks < 2 ^ 30
        rw [headerSize] at hwrap
        omega
      · exact Nat.pos_of_ne_zero (not_or.mp hzero).1
      · exact hnarrow
      · rfl
      · rfl
      · intro b
        rw [mem_usedBlock]
        constructor
        · rintro ⟨hb, i, -, rfl⟩
          exact absurd rfl hb
        · intro hb
          exact absurd hb List.not_mem_nil
      · intro f hf
        exact absurd hf List.not_mem_nil
      · exact .inl ⟨rfl, rfl, rfl, rfl, rfl, rfl⟩

/-- In every run of calls that do not leave the first log block of a new table the views of the log
agree. -/
theorem consistent_of_reach {logicSize blockSize granulity : ℕ} {t : IndexTable} {h : History}
    (ht : indexTable logicSize blockSize granulity = some t) (hnarrow : blockSize < 2 ^ 32)
    (hreach : Reach History.step History.FirstBlock (new t) h) : h.Consistent :=
  (hreach.invariant (inv_new ht hnarrow) fun _ _ H hop => H.step hop).consistent

/-- The set that is made again has no block from the current one on. -/
theorem reload_ne_of_mem {t : IndexTable} (hcurrent : t.header.currentLogBlock ∈ t.logBlocks) :
    t.reload.logBlocks ≠ t.logBlocks := by
  intro heq
  rw [← heq, IndexTable.reload, IndexTable.getLogBlock] at hcurrent
  by_cases hunused : t.header.currentLogBlock = unusedBlockToken
  · rw [if_pos hunused] at hcurrent
    exact absurd hcurrent (Finset.notMem_empty _)
  · rw [if_neg hunused] at hcurrent
    simp at hcurrent

/-- Whatever was done before, the views differ when a second log block is begun. -/
theorem not_consistent_of_second (hfirst : h.table.header.firstLogBlock ≠ unusedBlockToken)
    {messageSize : UInt32} (hroom : h.table.room < messageSize.toNat) :
    ¬ (h.step (.message messageSize)).Consistent := by
  intro hconsistent
  have hmem : h.table.header.usedBlockCount ∈ h.table.beginLogBlock.logBlocks := by
    change _ ∈ ite _ _ _
    rw [if_neg hfirst]
    exact Finset.mem_insert_self _ _
  have hne := hconsistent.reload
  rw [History.step, if_pos hroom] at hne
  by_cases hnext : h.table.beginLogBlock.room < messageSize.toNat
  · have heq : getNextLogMessagePosition messageSize.toNat h.table =
        .error () h.table.beginLogBlock := by
      simp only [getNextLogMessagePosition, if_pos hroom, if_pos hnext]
    rw [heq] at hne
    exact reload_ne_of_mem hmem hne
  · rw [getNext_of_begin hroom hnext] at hne
    exact reload_ne_of_mem (t := h.table.beginLogBlock.addMessage messageSize.toNat) hmem hne

/-! ## A table of four blocks -/

/-- The new table of four blocks of 8 bytes. -/
def fourBlocks : IndexTable :=
  ⟨8, ⟨4, 0, unusedBlockToken, unusedBlockToken, 8, fun _ => unusedBlockToken⟩, ∅⟩

theorem fourBlocks_new : indexTable 32 8 4 = some fourBlocks := rfl

theorem consistent_fourBlocks : ([.set 1, .message 3, .set 0, .message 5].foldl step
    (new fourBlocks)).Consistent :=
  consistent_of_reach fourBlocks_new (by decide)
    (Reach.foldl .start ⟨trivial, by decide, trivial, by decide, trivial⟩)

/-- Two messages that fill their blocks: the set in memory has the block 1 and the one made again the
block 0. -/
theorem not_consistent_twoBlocks :
    indexTable 32 8 4 = some fourBlocks ∧
      ¬ ([.message 8, .message 8].foldl step (new fourBlocks)).Consistent := by
  refine ⟨rfl, ?_⟩
  intro hconsistent
  exact absurd hconsistent.reload (by decide)

end History

end KernelDrivers.CoreMnt.Sparse
