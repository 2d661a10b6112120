import KernelDrivers.Fat.Mcb
import KernelDrivers.Lib.Bytes
import KernelDrivers.Lib.Raise

/-!
# The file allocation table

The first FAT is a memory of bytes, addressed from its own start.  An entry takes
12, 16 or 32 bits there; of a 32-bit entry the top four bits are reserved.
`lookupEntry` is the value of an entry as every reader of the driver sees it, and
`lookupEntry_storeEntry` says that the table is an array for it.

Reading or pinning a piece of the FAT can fail.  `Volume.io` counts the accesses
that still succeed: the one that finds it at `some 0` raises, and later ones
succeed again.  `none` is a device without faults.

## Main definitions

* `Volume` — the FAT, the map of its dirty sectors and the fault to come.
* `fatLookupFatEntry`, `fatSetFatEntry`, `fatSetFatRun` — the routines.
* `fatInterpretClusterType` — what an entry says about its cluster.
* `entryAfterRun` — the entries after a run was written.
-/

namespace KernelDrivers.Fat

/-- The statuses the modelled routines raise.  `deviceError` stands for whatever
status the failed access carries. -/
inductive Status
  | diskFull
  | fileCorruptError
  | deviceError
  deriving DecidableEq, Repr

/-- Why a routine did not return: it raised, or it crashed the machine, or the
model ran out of fuel for its loop. -/
inductive Stop
  | raised (status : Status)
  | bugCheck (p1 p2 p3 : ℕ)
  | outOfFuel
  deriving DecidableEq, Repr

/-- The stops that run the source's `finally` blocks. -/
def Stop.isRaised : Stop → Bool
  | raised _ => true
  | _ => false

@[simp] theorem Stop.isRaised_raised (s : Status) : (Stop.raised s).isRaised = true := rfl

/-- `FAT_CLUSTER_LAST`. -/
def fatClusterLast : ℕ := 0x0fffffff

/-- `FAT_CLUSTER_AVAILABLE`. -/
def fatClusterAvailable : ℕ := 0

/-! ## Entries -/

/-- `FatLookup12BitEntry`. -/
def fatLookup12BitEntry (fat : Bytes) (index : ℕ) : ℕ :=
  0xfff &&& if index % 2 = 1 then fat.read16 (index * 3 / 2) >>> 4 else fat.read16 (index * 3 / 2)

/-- `FatSet12BitEntry`. -/
def fatSet12BitEntry (fat : Bytes) (index entry : ℕ) : Bytes :=
  fat.write16 (index * 3 / 2)
    (if index % 2 = 1 then (entry <<< 4) ||| (fat.read16 (index * 3 / 2) &&& 0xf)
      else entry ||| (fat.read16 (index * 3 / 2) &&& 0xf000))

/-- The value of an entry. -/
def lookupEntry (w : FatWidth) (fat : Bytes) (index : ℕ) : ℕ :=
  match w with
  | .fat12 => fatLookup12BitEntry fat index
  | .fat16 => fat.read16 (index * 2)
  | .fat32 => fat.read32 (index * 4) &&& 0x0fffffff

/-- Store a value over an entry, reserved bits included. -/
def storeEntry (w : FatWidth) (fat : Bytes) (index entry : ℕ) : Bytes :=
  match w with
  | .fat12 => fatSet12BitEntry fat index entry
  | .fat16 => fat.write16 (index * 2) entry
  | .fat32 => fat.write32 (index * 4) entry

/-- The bits of an entry that hold a cluster number. -/
def FatWidth.linkBits : FatWidth → ℕ
  | .fat12 => 12
  | .fat16 => 16
  | .fat32 => 28

theorem lookup12_eq (fat : Bytes) (index : ℕ) :
    fatLookup12BitEntry fat index =
      if index % 2 = 1 then fat.read16 (index * 3 / 2) / 2 ^ 4
      else fat.read16 (index * 3 / 2) % 2 ^ 12 := by
  have hmask : ∀ n : ℕ, 0xfff &&& n = n % 2 ^ 12 := fun n => by
    rw [Nat.and_comm]
    exact Nat.and_two_pow_sub_one_eq_mod n 12
  have hlt := fat.read16_lt (index * 3 / 2)
  rw [fatLookup12BitEntry, hmask]
  split
  · rw [Nat.shiftRight_eq_div_pow]
    omega
  · rfl

/-- The word that `FatSet12BitEntry` stores, without bit operations. -/
theorem set12_word (t e : ℕ) (ht : t < 2 ^ 16) (he : e < 2 ^ 12) :
    (e <<< 4) ||| (t &&& 0xf) = e * 2 ^ 4 + t % 2 ^ 4 ∧
      e ||| (t &&& 0xf000) = t / 2 ^ 12 * 2 ^ 12 + e := by
  have hlow : t &&& 0xf = t % 2 ^ 4 := Nat.and_two_pow_sub_one_eq_mod t 4
  have hhigh : t &&& 0xf000 = (t / 2 ^ 12) <<< 12 := by
    apply Nat.eq_of_testBit_eq
    intro i
    rw [show (0xf000 : ℕ) = (2 ^ 4 - 1) <<< 12 by rfl, Nat.testBit_and,
      Nat.testBit_shiftLeft, Nat.testBit_shiftLeft, Nat.testBit_two_pow_sub_one,
      ← Nat.shiftRight_eq_div_pow, Nat.testBit_shiftRight]
    by_cases hi : 12 ≤ i
    · rw [Nat.add_sub_cancel' hi]
      by_cases hi' : i < 16
      · simp [hi, show i - 12 < 4 by omega]
      · have htest : t.testBit i = false :=
          Nat.testBit_lt_two_pow (ht.trans_le (Nat.pow_le_pow_right (by norm_num) (by omega)))
        simp [htest]
    · simp [hi]
  constructor
  · rw [hlow, ← Nat.shiftLeft_add_eq_or_of_lt (Nat.mod_lt _ (by norm_num)), Nat.shiftLeft_eq]
  · rw [hhigh, Nat.or_comm, ← Nat.shiftLeft_add_eq_or_of_lt he, Nat.shiftLeft_eq]

/-- Two 12-bit entries share a byte exactly when they are the halves of one pair;
the write keeps the other half's four bits. -/
theorem lookup12_set12 (fat : Bytes) {i e : ℕ} (j : ℕ) (he : e < 2 ^ 12) :
    fatLookup12BitEntry (fatSet12BitEntry fat i e) j =
      if j = i then e else fatLookup12BitEntry fat j := by
  have hlt := fat.read16_lt (i * 3 / 2)
  obtain ⟨hodd, heven⟩ := set12_word _ e hlt he
  simp only [lookup12_eq, fatSet12BitEntry, hodd, heven]
  by_cases hji : j = i
  · subst hji
    simp only [Bytes.read16_write16, if_true]
    split <;> omega
  · rw [if_neg hji]
    by_cases hpair : j / 2 = i / 2
    · -- the two halves of a pair: compare byte by byte
      have hb0 := (fat (j * 3 / 2)).isLt
      have hb1 := (fat (j * 3 / 2 + 1)).isLt
      have hb2 := (fat (i * 3 / 2)).isLt
      have hb3 := (fat (i * 3 / 2 + 1)).isLt
      by_cases hi : i % 2 = 1
      · have hj : j % 2 ≠ 1 := by omega
        have hoff : i * 3 / 2 = j * 3 / 2 + 1 := by omega
        rw [if_pos hi, if_neg hj, if_neg hj, hoff] at *
        rw [Bytes.read16, Bytes.read16, Bytes.write16_apply_zero,
          Bytes.write16_apply_of_disjoint _ _ (by omega), BitVec.toNat_ofNat, Bytes.read16]
        omega
      · have hj : j % 2 = 1 := by omega
        have hoff : j * 3 / 2 = i * 3 / 2 + 1 := by omega
        rw [if_neg hi, if_pos hj, if_pos hj, hoff] at *
        rw [Bytes.read16, Bytes.read16, Bytes.write16_apply_one,
          Bytes.write16_apply_of_disjoint _ _ (by omega), BitVec.toNat_ofNat, Bytes.read16]
        omega
    · have hoff : ∀ k : ℕ, k * 3 / 2 = 3 * (k / 2) + k % 2 := fun k => by omega
      have hdis : j * 3 / 2 + 2 ≤ i * 3 / 2 ∨ i * 3 / 2 + 2 ≤ j * 3 / 2 := by
        rw [hoff i, hoff j]
        omega
      rw [Bytes.read16_write16_of_disjoint _ _ hdis]

/-- **The table is an array.**  Storing a value changes the entry at the index to
the value's link bits and no other entry. -/
theorem lookupEntry_storeEntry {w : FatWidth} (fat : Bytes) {i e : ℕ} (j : ℕ)
    (he : w = .fat12 → e < 2 ^ 12) :
    lookupEntry w (storeEntry w fat i e) j =
      if j = i then e % 2 ^ w.linkBits else lookupEntry w fat j := by
  cases w with
  | fat12 =>
      rw [lookupEntry, storeEntry, lookup12_set12 fat j (he rfl)]
      have := he rfl
      simp only [lookupEntry, FatWidth.linkBits, Nat.mod_eq_of_lt this]
  | fat16 =>
      simp only [lookupEntry, storeEntry, FatWidth.linkBits]
      by_cases hji : j = i
      · rw [if_pos hji, hji, Bytes.read16_write16]
      · rw [if_neg hji, Bytes.read16_write16_of_disjoint _ _ (by omega)]
  | fat32 =>
      have hmask : ∀ n : ℕ, n &&& 0x0fffffff = n % 2 ^ 28 := fun n =>
        Nat.and_two_pow_sub_one_eq_mod n 28
      simp only [lookupEntry, storeEntry, FatWidth.linkBits, hmask]
      by_cases hji : j = i
      · rw [if_pos hji, hji, Bytes.read32_write32]
        omega
      · rw [if_neg hji, Bytes.read32_write32_of_disjoint _ _ (by omega)]

theorem lookupEntry_lt (w : FatWidth) (fat : Bytes) (i : ℕ) :
    lookupEntry w fat i < 2 ^ w.linkBits := by
  cases w with
  | fat12 =>
      have hlt := fat.read16_lt (i * 3 / 2)
      rw [lookupEntry, lookup12_eq, FatWidth.linkBits]
      split <;> omega
  | fat16 => exact fat.read16_lt _
  | fat32 =>
      have hmask : fat.read32 (i * 4) &&& 0x0fffffff = fat.read32 (i * 4) % 2 ^ 28 :=
        Nat.and_two_pow_sub_one_eq_mod _ 28
      rw [lookupEntry, hmask, FatWidth.linkBits]
      exact Nat.mod_lt _ (by norm_num)

/-! ## The routines -/

/-- What the FAT routines work on. -/
structure Volume where
  fat : Bytes
  /-- `DirtyFatMcb`: the sectors of the FAT to write out. -/
  dirtyFatMcb : Mcb
  io : Option ℕ

/-- Pin or read a piece of the FAT. -/
def access : EStateM Stop Volume Unit := fun vol =>
  match vol.io with
  | none => .ok () vol
  | some 0 => .error (.raised .deviceError) { vol with io := none }
  | some (n + 1) => .ok () { vol with io := some n }

/-- `FatVerifyIndexIsValid`. -/
def fatVerifyIndexIsValid (g : Geometry) (index : ℕ) : EStateM Stop Volume Unit := do
  if index < 2 ∨ g.numberOfClusters + 1 < index then throw (.raised .fileCorruptError)

/-- Add the sectors of the volume's bytes `first` to `last` to the dirty map. -/
def markDirty (g : Geometry) (first last : ℕ) (vol : Volume) : Volume :=
  { vol with
    dirtyFatMcb :=
      (List.range' (first / g.sectorSize) (last / g.sectorSize + 1 - first / g.sectorSize)).foldl
        (fun m k => fatAddMcbEntry g m (k * g.sectorSize) (k * g.sectorSize) g.sectorSize)
        vol.dirtyFatMcb }

/-- `FatLookupFatEntry`. -/
def fatLookupFatEntry (g : Geometry) (index : ℕ) : EStateM Stop Volume ℕ := do
  fatVerifyIndexIsValid g index
  access
  return lookupEntry g.width (← get).fat index

/-- The byte of the volume at which an entry starts. -/
def entryOffset (g : Geometry) (index : ℕ) : ℕ :=
  match g.width with
  | .fat12 => g.reservedBytes + index * 3 / 2
  | .fat16 => g.reservedBytes + index * 2
  | .fat32 => g.reservedBytes + index * 4

/-- The value that goes into entry 1, which holds the volume's dirty bit: the clean
and the dirty mark of each width.  Nothing else may be stored there. -/
def dirtyBitEntry (w : FatWidth) (entry : ℕ) : EStateM Stop Volume ℕ :=
  if entry = 0xf0000000 then pure 0xffffffff
  else if entry = 0xf0000001 then
    match w with
    | .fat12 => pure 0x7ff
    | .fat16 => pure 0x7fff
    | .fat32 => pure 0x7fffffff
  else throw (.raised .fileCorruptError)

/-- The bytes `FatSetFatEntry` stores.  A 32-bit entry of the file heap keeps its
reserved bits. -/
def setEntry (w : FatWidth) (fat : Bytes) (index entry : ℕ) : Bytes :=
  match w with
  | .fat12 => fatSet12BitEntry fat index (entry &&& 0xfff)
  | .fat16 => fat.write16 (index * 2) entry
  | .fat32 =>
      if index ≠ 1 then
        fat.write32 (index * 4) ((fat.read32 (index * 4) &&& 0xf0000000) ||| entry)
      else fat.write32 (index * 4) entry

/-- `FatSetFatEntry`. -/
def fatSetFatEntry (g : Geometry) (index entry : ℕ) : EStateM Stop Volume Unit := do
  let entry ←
    if index = 1 then dirtyBitEntry g.width entry
    else do
      fatVerifyIndexIsValid g index
      pure entry
  access
  -- a 12-bit entry can continue in the next sector
  let last := if g.width = .fat12 then entryOffset g index + 1 else entryOffset g index
  modify fun vol => { markDirty g (entryOffset g index) last vol with
    fat := setEntry g.width vol.fat index entry }

/-- The store loop of `FatSetFatRun`: a link to the next cluster or zero in each of
`n` entries. -/
def storeLinks (w : FatWidth) (fat : Bytes) (start n : ℕ) (chainTogether : Bool) : Bytes :=
  (List.range' start n).foldl
    (fun f c => storeEntry w f c (if chainTogether then c + 1 else fatClusterAvailable)) fat

/-- The FAT32 unwind of `FatSetFatRun`, from the entry below `saved + n` down to
`saved`.  It stores the link when the run was being chained together. -/
def unwindFatRun (g : Geometry) (chainTogether : Bool) (saved : ℕ) :
    ℕ → EStateM Stop Volume Unit
  | 0 => pure ()
  | n + 1 => do
      fatSetFatEntry g (saved + n) (if chainTogether then saved + n + 1 else fatClusterAvailable)
      unwindFatRun g chainTogether saved n

/-- `MAXCOUNTCLUS`. -/
def maxCountClus : ℕ := 0x10000

/-- The stores of one chunk: links, and the mark in the last entry of the last
chunk when the run is chained together. -/
def storeChunk (fat : Bytes) (start count : ℕ) (chainTogether : Bool) : Bytes :=
  let n := min count maxCountClus
  if count ≤ maxCountClus ∧ chainTogether then
    storeEntry .fat32 (storeLinks .fat32 fat start n chainTogether) (start + n - 1) fatClusterLast
  else storeLinks .fat32 fat start n chainTogether

/-- The FAT32 loop of `FatSetFatRun`, a chunk of at most `MAXCOUNTCLUS` entries at a
time. -/
def setFatRunChunks (g : Geometry) (chainTogether : Bool) (saved start count : ℕ) :
    EStateM Stop Volume Unit := do
  protect Stop.isRaised (unwindFatRun g chainTogether saved (start - saved)) access
  modify fun vol =>
    { markDirty g (entryOffset g start)
        (entryOffset g (start + min count maxCountClus - 1)) vol with
      fat := storeChunk vol.fat start count chainTogether }
  if _h : count ≤ maxCountClus then pure ()
  else setFatRunChunks g chainTogether saved (start + maxCountClus) (count - maxCountClus)
termination_by count
decreasing_by
  rw [maxCountClus] at *
  omega

/-- `FatSetFatRun`.  The 12- and 16-bit branches pin every page before they store
anything. -/
def fatSetFatRun (g : Geometry) (start count : ℕ) (chainTogether : Bool) :
    EStateM Stop Volume Unit := do
  fatVerifyIndexIsValid g start
  fatVerifyIndexIsValid g (start + count - 1)
  if count = 0 then return
  match g.width with
  | .fat12 => do
      access
      modify fun vol =>
        let fat := storeLinks .fat12 vol.fat start (count - 1) chainTogether
        -- the last sector is the one of the end of the run's last entry
        { markDirty g (entryOffset g start)
            (g.reservedBytes + ((start + count) * 3 + 2) / 2) vol with
          fat := storeEntry .fat12 fat (start + count - 1)
            (if chainTogether then fatClusterLast &&& 0xfff else fatClusterAvailable) }
  | .fat16 => do
      access
      modify fun vol =>
        let fat := storeLinks .fat16 vol.fat start count chainTogether
        { markDirty g (entryOffset g start) (entryOffset g (start + count - 1)) vol with
          fat := if chainTogether then
            storeEntry .fat16 fat (start + count - 1) fatClusterLast else fat }
  | .fat32 => setFatRunChunks g chainTogether start start count

/-- What `FatInterpretClusterType` answers. -/
inductive ClusterType
  | available
  | next
  | reserved
  | bad
  | last
  deriving DecidableEq, Repr

/-- `FatInterpretClusterType`. -/
def fatInterpretClusterType (w : FatWidth) (entry : ℕ) : ClusterType :=
  let entry :=
    match w with
    | .fat32 => entry &&& 0x0fffffff
    | .fat12 => if 0x0ff0 ≤ entry then entry ||| 0x0ffff000 else entry
    | .fat16 => if 0xfff0 ≤ entry then entry ||| 0x0fff0000 else entry
  if entry = fatClusterAvailable then .available
  else if entry < 0x0ffffff0 then .next
  else if entry < 0x0ffffff7 then .reserved
  else if entry = 0x0ffffff7 then .bad
  else .last

/-! ## What the routines do to the entries -/

/-- The entries of `vol'` are those of `f`; no fault appears. -/
structure Volume.Wrote (vol vol' : Volume) (w : FatWidth) (f : ℕ → ℕ) : Prop where
  entry : ∀ j, lookupEntry w vol'.fat j = f j
  io : vol.io = none → vol'.io = none

/-- The fault struck, and the entries are those of `vol`. -/
structure Volume.Faulted (vol vol' : Volume) (w : FatWidth) : Prop where
  entry : ∀ j, lookupEntry w vol'.fat j = lookupEntry w vol.fat j
  io : vol.io ≠ none
  io' : vol'.io = none

/-- The entries after a run of `count` clusters from `start` was written. -/
def entryAfterRun (w : FatWidth) (fat : Bytes) (start count : ℕ) (chainTogether : Bool)
    (j : ℕ) : ℕ :=
  if start ≤ j ∧ j < start + count then
    if chainTogether then
      if j + 1 = start + count then fatClusterLast % 2 ^ w.linkBits else (j + 1) % 2 ^ w.linkBits
    else fatClusterAvailable
  else lookupEntry w fat j

variable {g : Geometry} {vol : Volume}

theorem sat_access : Sat access vol
    (fun _ vol' => vol'.fat = vol.fat ∧ (vol.io = none → vol'.io = none))
    (fun e vol' => e = .raised .deviceError ∧ vol'.fat = vol.fat ∧ vol.io ≠ none ∧
      vol'.io = none) := by
  rw [Sat, access]
  cases hio : vol.io with
  | none => exact ⟨rfl, fun _ => hio⟩
  | some n =>
      cases n with
      | zero => exact ⟨rfl, rfl, by simp, rfl⟩
      | succ n => exact ⟨rfl, fun h => absurd h (by simp)⟩

theorem sat_fatVerifyIndexIsValid {i : ℕ} (h2 : 2 ≤ i) (hi : i ≤ g.numberOfClusters + 1) :
    Sat (fatVerifyIndexIsValid g i) vol (fun _ vol' => vol' = vol) (fun _ _ => False) := by
  rw [fatVerifyIndexIsValid, if_neg (by omega)]
  exact Sat.pure rfl

/-- What `FatSetFatEntry` stores is what is read back, link bits only. -/
theorem lookupEntry_setEntry {w : FatWidth} (fat : Bytes) {i : ℕ} (e j : ℕ) (hi : i ≠ 1) :
    lookupEntry w (setEntry w fat i e) j =
      if j = i then e % 2 ^ w.linkBits else lookupEntry w fat j := by
  cases w with
  | fat12 =>
      have hmask : e &&& 0xfff = e % 2 ^ 12 := Nat.and_two_pow_sub_one_eq_mod e 12
      rw [setEntry, hmask]
      have hlt : e % 2 ^ 12 < 2 ^ 12 := Nat.mod_lt _ (by norm_num)
      have := lookupEntry_storeEntry (w := .fat12) fat (i := i) j fun _ => hlt
      rwa [FatWidth.linkBits, Nat.mod_eq_of_lt hlt] at this
  | fat16 => exact lookupEntry_storeEntry (w := .fat16) fat j (by simp)
  | fat32 =>
      have hmask : ∀ n : ℕ, n &&& 0x0fffffff = n % 2 ^ 28 := fun n =>
        Nat.and_two_pow_sub_one_eq_mod n 28
      have hor : ((fat.read32 (i * 4) &&& 0xf0000000) ||| e) % 2 ^ 28 = e % 2 ^ 28 := by
        rw [← hmask, ← hmask, Nat.and_or_distrib_right, Nat.and_assoc]
        simp
      have := lookupEntry_storeEntry (w := .fat32) fat (i := i)
        (e := (fat.read32 (i * 4) &&& 0xf0000000) ||| e) j (by simp)
      rw [FatWidth.linkBits, hor] at this
      rw [setEntry, if_pos hi]
      exact this

theorem sat_fatSetFatEntry {i : ℕ} (e : ℕ) (h2 : 2 ≤ i) (hi : i ≤ g.numberOfClusters + 1) :
    Sat (fatSetFatEntry g i e) vol
      (fun _ vol' => vol.Wrote vol' g.width fun j =>
        if j = i then e % 2 ^ g.width.linkBits else lookupEntry g.width vol.fat j)
      (fun s vol' => s = .raised .deviceError ∧ vol.Faulted vol' g.width) := by
  rw [fatSetFatEntry, if_neg (by omega)]
  simp only [pure_bind]
  apply Sat.bind ((sat_fatVerifyIndexIsValid h2 hi).mono (fun _ _ h => h) (fun _ _ h => h.elim))
  intro _ t ht
  subst ht
  apply Sat.bind (sat_access.mono (fun _ _ h => h) ?_)
  · intro _ t' ht'
    refine Sat.modify ⟨fun j => ?_, ht'.2⟩
    rw [← ht'.1]
    exact lookupEntry_setEntry _ _ _ (by omega)
  · intro s t' ht'
    exact ⟨ht'.1, fun j => by rw [ht'.2.1], ht'.2.2.1, ht'.2.2.2⟩

theorem lookupEntry_storeLinks {w : FatWidth} (fat : Bytes) {start n : ℕ} {chainTogether : Bool}
    (j : ℕ) (h12 : w = .fat12 → start + n < 2 ^ 12) :
    lookupEntry w (storeLinks w fat start n chainTogether) j =
      if start ≤ j ∧ j < start + n then
        if chainTogether then (j + 1) % 2 ^ w.linkBits else fatClusterAvailable
      else lookupEntry w fat j := by
  induction n with
  | zero => rw [if_neg (by omega)]; rfl
  | succ n ih =>
      have hlt : w = .fat12 →
          (if chainTogether then start + n + 1 else fatClusterAvailable) < 2 ^ 12 := by
        intro hw
        have := h12 hw
        split
        · omega
        · norm_num [fatClusterAvailable]
      rw [storeLinks, List.range'_concat, List.foldl_append, List.foldl_cons, List.foldl_nil,
        Nat.one_mul, lookupEntry_storeEntry _ _ hlt]
      rw [← storeLinks, ih fun hw => by have := h12 hw; omega]
      by_cases hj : j = start + n
      · have hin : start ≤ j ∧ j < start + (n + 1) := by omega
        rw [if_pos hj, if_pos hin, hj]
        cases chainTogether <;> simp [fatClusterAvailable]
      · rw [if_neg hj]
        by_cases hin : start ≤ j ∧ j < start + n
        · have hin' : start ≤ j ∧ j < start + (n + 1) := by omega
          rw [if_pos hin, if_pos hin']
        · have hout : ¬ (start ≤ j ∧ j < start + (n + 1)) := by omega
          rw [if_neg hin, if_neg hout]

/-- The whole run in one piece: links, then the mark in the last entry. -/
theorem lookupEntry_storeRun {w : FatWidth} (fat : Bytes) {start count : ℕ}
    {chainTogether : Bool} (hc : 0 < count) (h12 : w = .fat12 → start + count ≤ 2 ^ 12) {n : ℕ}
    (hn : n = count ∧ w ≠ .fat12 ∨ n + 1 = count) {v : ℕ}
    (hv : v % 2 ^ w.linkBits =
      if chainTogether then fatClusterLast % 2 ^ w.linkBits else fatClusterAvailable)
    (hv12 : w = .fat12 → v < 2 ^ 12) (j : ℕ) :
    lookupEntry w (storeEntry w (storeLinks w fat start n chainTogether) (start + count - 1) v) j =
      entryAfterRun w fat start count chainTogether j := by
  rw [lookupEntry_storeEntry _ _ hv12, entryAfterRun, hv,
    lookupEntry_storeLinks _ _ fun hw => by
      have := h12 hw
      rcases hn with hn | hn
      · exact absurd hw hn.2
      · omega]
  by_cases hj : j = start + count - 1
  · have hin : start ≤ j ∧ j < start + count := by omega
    have hlast : j + 1 = start + count := by omega
    rw [if_pos hj, if_pos hin, if_pos hlast]
  · rw [if_neg hj]
    by_cases hin : start ≤ j ∧ j < start + count
    · have hin' : start ≤ j ∧ j < start + n := by omega
      have hlast : j + 1 ≠ start + count := by omega
      rw [if_pos hin, if_pos hin', if_neg hlast]
    · have hout : ¬ (start ≤ j ∧ j < start + n) := by omega
      rw [if_neg hin, if_neg hout]

/-- An access that is protected by a handler: when the fault strikes it is on record. -/
theorem sat_protect_access {h : EStateM Stop Volume Unit} :
    Sat (protect Stop.isRaised h access) vol
      (fun _ vol' => vol'.fat = vol.fat ∧ (vol.io = none → vol'.io = none))
      (fun _ _ => vol.io ≠ none) :=
  Sat.protect_const (sat_access.mono (fun _ _ h => h) fun _ _ h => h.2.2.1)

theorem lookupEntry_storeChunk (fat : Bytes) {start count : ℕ} {chainTogether : Bool}
    (hc : 0 < count) (hle : count ≤ maxCountClus) (j : ℕ) :
    lookupEntry .fat32 (storeChunk fat start count chainTogether) j =
      entryAfterRun .fat32 fat start count chainTogether j := by
  rw [storeChunk, min_eq_left hle]
  cases chainTogether with
  | true =>
      rw [if_pos ⟨hle, rfl⟩]
      exact lookupEntry_storeRun fat hc (by simp) (Or.inl ⟨rfl, by simp⟩) (by simp) (by simp) j
  | false =>
      rw [if_neg (by simp), lookupEntry_storeLinks _ _ (by simp), entryAfterRun]
      simp

/-- A run written behind a full chunk of links is one long run. -/
theorem entryAfterRun_storeChunk (fat : Bytes) {start count : ℕ} {chainTogether : Bool}
    (hlt : maxCountClus < count) (j : ℕ) :
    entryAfterRun .fat32 (storeChunk fat start count chainTogether) (start + maxCountClus)
        (count - maxCountClus) chainTogether j =
      entryAfterRun .fat32 fat start count chainTogether j := by
  rw [storeChunk, if_neg (by omega), min_eq_right hlt.le, entryAfterRun, entryAfterRun,
    lookupEntry_storeLinks _ _ (by simp)]
  split_ifs <;> first | rfl | omega

/-- The FAT32 loop writes the whole run unless the fault strikes. -/
theorem sat_setFatRunChunks {chainTogether : Bool} {saved start count : ℕ} (hc : 0 < count) :
    Sat (setFatRunChunks g chainTogether saved start count) vol
      (fun _ vol' => vol.Wrote vol' .fat32 (entryAfterRun .fat32 vol.fat start count chainTogether))
      (fun _ _ => vol.io ≠ none) := by
  induction count using Nat.strong_induction_on generalizing vol start with
  | _ count ih =>
      rw [setFatRunChunks]
      apply Sat.bind sat_protect_access
      intro _ t ht
      apply Sat.bind (R := fun _ t' => (vol.io = none → t'.io = none) ∧
        t'.fat = storeChunk vol.fat start count chainTogether)
      · refine Sat.modify ⟨ht.2, ?_⟩
        rw [← ht.1]
      · intro _ t' ht'
        by_cases hle : count ≤ maxCountClus
        · rw [dif_pos hle]
          refine Sat.pure ⟨fun j => ?_, ht'.1⟩
          rw [ht'.2, lookupEntry_storeChunk vol.fat hc hle]
        · rw [dif_neg hle]
          have hpos : 0 < maxCountClus := by norm_num [maxCountClus]
          refine (ih _ (by omega) (by omega)).mono ?_ (fun _ _ h hnone => h (ht'.1 hnone))
          intro _ t'' ht''
          refine ⟨fun j => ?_, fun hnone => ht''.io (ht'.1 hnone)⟩
          rw [ht''.entry, ht'.2, entryAfterRun_storeChunk vol.fat (by omega)]

/-- A run of one chunk is written whole or not at all. -/
theorem sat_setFatRunChunks_one {chainTogether : Bool} {start count : ℕ} (hc : 0 < count)
    (hle : count ≤ maxCountClus) :
    Sat (setFatRunChunks g chainTogether start start count) vol
      (fun _ vol' => vol.Wrote vol' .fat32 (entryAfterRun .fat32 vol.fat start count chainTogether))
      (fun s vol' => s = .raised .deviceError ∧ vol.Faulted vol' .fat32) := by
  rw [setFatRunChunks]
  apply Sat.bind (R := fun _ t => t.fat = vol.fat ∧ (vol.io = none → t.io = none))
  · apply Sat.protect
    refine sat_access.mono (fun _ _ h => h) ?_
    intro e t ht
    rw [ht.1, if_pos (Stop.isRaised_raised _), Nat.sub_self, unwindFatRun]
    exact Sat.pure ⟨rfl, fun j => by rw [ht.2.1], ht.2.2.1, ht.2.2.2⟩
  · intro _ t ht
    apply Sat.bind (R := fun _ t' => (vol.io = none → t'.io = none) ∧
      t'.fat = storeChunk vol.fat start count chainTogether)
    · refine Sat.modify ⟨ht.2, ?_⟩
      rw [← ht.1]
    · intro _ t' ht'
      rw [dif_pos hle]
      refine Sat.pure ⟨fun j => ?_, ht'.1⟩
      rw [ht'.2, lookupEntry_storeChunk vol.fat hc hle]

/-- **`FatSetFatRun` on a valid run.**  It writes the whole run unless the fault
strikes, and then the entries are as they were; on FAT32 this takes a run of one
chunk. -/
theorem sat_fatSetFatRun {chainTogether : Bool} {start count : ℕ} (h2 : 2 ≤ start)
    (hc : 0 < count) (hend : start + count ≤ g.numberOfClusters + 2) :
    Sat (fatSetFatRun g start count chainTogether) vol
      (fun _ vol' => vol.Wrote vol' g.width
        (entryAfterRun g.width vol.fat start count chainTogether))
      (fun s vol' => vol.io ≠ none ∧ ((g.width = .fat32 → count ≤ maxCountClus) →
        s = .raised .deviceError ∧ vol.Faulted vol' g.width)) := by
  rw [fatSetFatRun]
  apply Sat.bind ((sat_fatVerifyIndexIsValid h2 (by omega)).mono (fun _ _ h => h)
    (fun _ _ h => h.elim))
  intro _ t ht
  rw [ht]
  apply Sat.bind ((sat_fatVerifyIndexIsValid (by omega) (by omega)).mono (fun _ _ h => h)
    (fun _ _ h => h.elim))
  intro _ t ht
  rw [ht, if_neg (by omega)]
  have hfault : ∀ s t', (s = Stop.raised .deviceError ∧ t'.fat = vol.fat ∧ vol.io ≠ none ∧
      t'.io = none) → vol.io ≠ none ∧ ((g.width = .fat32 → count ≤ maxCountClus) →
        s = .raised .deviceError ∧ vol.Faulted t' g.width) := by
    intro s t' h
    exact ⟨h.2.2.1, fun _ => ⟨h.1, fun j => by rw [h.2.1], h.2.2.1, h.2.2.2⟩⟩
  have h12 : g.width = .fat12 → start + count ≤ 2 ^ 12 := by
    intro hw
    have := g.fat12_le hw
    omega
  cases hw : g.width with
  | fat12 =>
      rw [hw] at hfault h12
      apply Sat.bind (sat_access.mono (fun _ _ h => h) hfault)
      intro _ t ht
      refine Sat.modify ⟨fun j => ?_, ht.2⟩
      rw [← ht.1]
      apply lookupEntry_storeRun _ hc h12 (Or.inr (by omega))
      · cases chainTogether <;> simp [FatWidth.linkBits, fatClusterAvailable, fatClusterLast]
      · intro _
        cases chainTogether <;> simp [fatClusterAvailable, fatClusterLast]
  | fat16 =>
      rw [hw] at hfault
      apply Sat.bind (sat_access.mono (fun _ _ h => h) hfault)
      intro _ t ht
      refine Sat.modify ⟨fun j => ?_, ht.2⟩
      rw [← ht.1]
      cases chainTogether with
      | true =>
          exact lookupEntry_storeRun _ hc (by simp) (Or.inl ⟨rfl, by simp⟩) (by simp) (by simp) j
      | false =>
          simp only [Bool.false_eq_true, if_false]
          rw [lookupEntry_storeLinks _ _ (by simp), entryAfterRun]
          simp
  | fat32 =>
      by_cases hle : count ≤ maxCountClus
      · exact (sat_setFatRunChunks_one hc hle).mono (fun _ _ h => h)
          fun _ _ h => ⟨h.2.io, fun _ => h⟩
      · exact (sat_setFatRunChunks hc).mono (fun _ _ h => h)
          fun _ _ h => ⟨h, fun hone => absurd (hone rfl) hle⟩

/-! ## Marks and links -/

/-- The smallest entry that is not a link. -/
def FatWidth.reservedMark : FatWidth → ℕ
  | .fat12 => 0xff0
  | .fat16 => 0xfff0
  | .fat32 => 0x0ffffff0

theorem FatWidth.reservedMark_lt (w : FatWidth) : w.reservedMark < 2 ^ w.linkBits := by
  cases w <;> decide

/-- Below the marks a non-zero entry is a link. -/
theorem fatInterpretClusterType_link {w : FatWidth} {c : ℕ} (h0 : c ≠ 0)
    (hc : c < w.reservedMark) : fatInterpretClusterType w c = .next := by
  cases w with
  | fat12 =>
      have hlt : ¬ 0xff0 ≤ c := Nat.not_le.mpr hc
      simp only [fatInterpretClusterType, fatClusterAvailable, if_neg hlt, if_neg h0]
      rw [if_pos (by omega)]
  | fat16 =>
      have hlt : ¬ 0xfff0 ≤ c := Nat.not_le.mpr hc
      simp only [fatInterpretClusterType, fatClusterAvailable, if_neg hlt, if_neg h0]
      rw [if_pos (by omega)]
  | fat32 =>
      have hlt : c < 0x0ffffff0 := hc
      have hmask : c &&& 0x0fffffff = c := by
        rw [show c &&& 0x0fffffff = c % 2 ^ 28 from Nat.and_two_pow_sub_one_eq_mod c 28]
        exact Nat.mod_eq_of_lt (by omega)
      simp only [fatInterpretClusterType, fatClusterAvailable, hmask]
      rw [if_neg h0, if_pos hlt]

theorem fatInterpretClusterType_reservedMark (w : FatWidth) :
    fatInterpretClusterType w w.reservedMark = .reserved := by
  cases w <;> decide

/-- The end-of-chain mark, as it is read back. -/
theorem fatInterpretClusterType_last (w : FatWidth) :
    fatInterpretClusterType w (fatClusterLast % 2 ^ w.linkBits) = .last := by
  cases w <;> decide

/-- Storing `c` as the link of cluster `i` and reading the entry back gives `c`, and
`c` counts as a link. -/
def LinkReadsBack (g : Geometry) (vol : Volume) (i c : ℕ) : Prop :=
  Sat (fatSetFatEntry g i c >>= fun _ => fatLookupFatEntry g i) vol
    (fun e _ => e = c ∧ fatInterpretClusterType g.width e = .next) (fun _ _ => False)

theorem sat_fatLookupFatEntry {i : ℕ} (h2 : 2 ≤ i) (hi : i ≤ g.numberOfClusters + 1) :
    Sat (fatLookupFatEntry g i) vol
      (fun e vol' => e = lookupEntry g.width vol.fat i ∧ vol.Wrote vol' g.width
        (lookupEntry g.width vol.fat))
      (fun s vol' => s = .raised .deviceError ∧ vol.Faulted vol' g.width) := by
  rw [fatLookupFatEntry]
  apply Sat.bind ((sat_fatVerifyIndexIsValid h2 hi).mono (fun _ _ h => h) (fun _ _ h => h.elim))
  intro _ t ht
  rw [ht]
  apply Sat.bind (sat_access.mono (fun _ _ h => h) ?_)
  · intro _ t' ht'
    refine Sat.of_ok rfl ⟨by rw [ht'.1], fun j => by rw [ht'.1], ht'.2⟩
  · intro s t' ht'
    exact ⟨ht'.1, fun j => by rw [ht'.2.1], ht'.2.2.1, ht'.2.2.2⟩

/-- A link that was stored is read back without its bits above the link bits. -/
theorem sat_set_lookup {i : ℕ} (c : ℕ) (h2 : 2 ≤ i) (hi : i ≤ g.numberOfClusters + 1)
    (hnone : vol.io = none) :
    Sat (fatSetFatEntry g i c >>= fun _ => fatLookupFatEntry g i) vol
      (fun e _ => e = c % 2 ^ g.width.linkBits) (fun _ _ => False) := by
  apply Sat.bind ((sat_fatSetFatEntry c h2 hi).mono (fun _ _ h => h)
    (fun _ _ h => h.2.io hnone))
  intro _ t ht
  refine (sat_fatLookupFatEntry h2 hi).mono ?_ (fun _ _ h => h.2.io (ht.io hnone))
  intro e t' ht'
  rw [ht'.1, ht.entry, if_pos rfl]

/-- A number whose link bits are a mark does not read back as a link. -/
theorem not_linkReadsBack {i c : ℕ} (h2 : 2 ≤ i) (hi : i ≤ g.numberOfClusters + 1)
    (hnone : vol.io = none)
    (hmark : fatInterpretClusterType g.width (c % 2 ^ g.width.linkBits) ≠ .next) :
    ¬ LinkReadsBack g vol i c := by
  intro hback
  have hread := sat_set_lookup c h2 hi hnone
  rw [LinkReadsBack] at hback
  cases hrun : (fatSetFatEntry g i c >>= fun _ => fatLookupFatEntry g i) vol with
  | ok e t =>
      have htype := (hback.ok hrun).2
      rw [hread.ok hrun] at htype
      exact hmark htype
  | error e t => exact hread.error hrun

/-- **Cluster numbers against marks.**  On the volume of an accepted boot sector
every valid cluster number can be stored as a link, read back and recognised as a
link, if and only if the largest of them is below the first reserved mark. -/
theorem linkReadsBack_iff {fujitsuFMR : Bool} {boot : BootSector}
    (h : fatIsBootSectorFat fujitsuFMR boot = true) :
    (∀ vol i c, vol.io = none →
        2 ≤ i → i ≤ (geometryOf _ (accepted_of_fatIsBootSectorFat h)).numberOfClusters + 1 →
        2 ≤ c → c ≤ (geometryOf _ (accepted_of_fatIsBootSectorFat h)).numberOfClusters + 1 →
        i ≠ c → LinkReadsBack (geometryOf _ (accepted_of_fatIsBootSectorFat h)) vol i c) ↔
      setupNumberOfClusters (fatUnpackBios boot).clearLargeSectors + 1 <
        (fatIndexBitSize (fatUnpackBios boot).clearLargeSectors).reservedMark := by
  set g := geometryOf _ (accepted_of_fatIsBootSectorFat h)
  change (∀ vol i c, _) ↔ g.numberOfClusters + 1 < g.width.reservedMark
  have hmark := g.width.reservedMark_lt
  constructor
  · intro hall
    by_contra hge
    have hpos : 3 ≤ g.width.reservedMark := by cases g.width <;> decide
    have htype : fatInterpretClusterType g.width
        (g.width.reservedMark % 2 ^ g.width.linkBits) ≠ .next := by
      rw [Nat.mod_eq_of_lt hmark, fatInterpretClusterType_reservedMark]
      simp
    exact not_linkReadsBack le_rfl (by omega) rfl htype
      (hall ⟨fun _ => 0, [], none⟩ 2 _ rfl le_rfl (by omega) (by omega) (by omega) (by omega))
  · intro hlt vol i c hnone h2 hi hc2 hc _
    refine (sat_set_lookup c h2 hi hnone).mono ?_ (fun _ _ h => h)
    intro e _ he
    have hec : e = c := by rw [he]; exact Nat.mod_eq_of_lt (by omega)
    rw [hec]
    exact ⟨rfl, fatInterpretClusterType_link (by omega) (by omega)⟩

theorem fatIsBootSectorFat_floppyBoot : fatIsBootSectorFat false (floppyBoot 16) = true := by
  decide

/-- On a diskette of 97 clusters the link of cluster 2 to cluster 98 reads back. -/
theorem linkReadsBack_floppyBoot : LinkReadsBack
    (geometryOf _ (accepted_of_fatIsBootSectorFat fatIsBootSectorFat_floppyBoot))
    ⟨fun _ => 0, [], none⟩ 2 98 :=
  (linkReadsBack_iff fatIsBootSectorFat_floppyBoot).mpr (by decide) _ 2 98 rfl le_rfl
    (by decide) (by norm_num) (by decide) (by norm_num)

/-- A diskette of 4100 sectors, one to a cluster, with a FAT of twelve sectors: 4086
clusters, just few enough for 12-bit entries. -/
def fullFat12Boot : BootSector
  | 0 => 0xeb
  | 12 => 0x02
  | 13 => 1
  | 14 => 1
  | 16 => 1
  | 17 => 16
  | 19 => 0x04
  | 20 => 0x10
  | 21 => 0xf0
  | 22 => 12
  | _ => 0

theorem fatIsBootSectorFat_fullFat12Boot : fatIsBootSectorFat false fullFat12Boot = true := by
  decide

/-- Its last cluster has the number of the bad-cluster mark. -/
theorem not_linkReadsBack_fullFat12Boot :
    ¬ ∀ vol i c, vol.io = none →
        2 ≤ i → i ≤ (geometryOf _ (accepted_of_fatIsBootSectorFat
          fatIsBootSectorFat_fullFat12Boot)).numberOfClusters + 1 →
        2 ≤ c → c ≤ (geometryOf _ (accepted_of_fatIsBootSectorFat
          fatIsBootSectorFat_fullFat12Boot)).numberOfClusters + 1 →
        i ≠ c → LinkReadsBack (geometryOf _ (accepted_of_fatIsBootSectorFat
          fatIsBootSectorFat_fullFat12Boot)) vol i c := by
  intro hall
  have hN : setupNumberOfClusters (fatUnpackBios fullFat12Boot).clearLargeSectors = 4086 := by
    decide
  have hw : fatIndexBitSize (fatUnpackBios fullFat12Boot).clearLargeSectors = .fat12 := by
    decide
  simp only [geometryOf_numberOfClusters, hN] at hall
  refine not_linkReadsBack (i := 2) (c := 0xff7) le_rfl ?_ rfl ?_
    (hall ⟨fun _ => 0, [], none⟩ 2 0xff7 rfl le_rfl (by norm_num) (by norm_num) (by norm_num)
      (by norm_num))
  · rw [geometryOf_numberOfClusters, hN]
    norm_num
  · rw [geometryOf_width, hw]
    decide

end KernelDrivers.Fat
