import KernelDrivers.CoreMnt.Sparse

/-!
# A sparse image as a flat string of bytes

A block that is there is at the place that its token gives it.  Tokens are given out one after the
other, so the places are apart, and everything behind the last of them is zero.

## Main definitions

* `Image.disk` — the bytes of the image.
* `WellFormed` — the layout of the file.
* `Allowed` — the calls that only use blocks that are there and places below 4 GB.

## Main results

* `WellFormed.addBlock`, `WellFormed.writeBlock` — what is done to one block.
* `sat_readBlocks`, `sat_writeBlocks` — the two loops.
* `run_eq_flatRun` — every run of allowed calls.
-/

namespace KernelDrivers.CoreMnt.Sparse

open KernelDrivers.Fat (ulong ulong_of_lt)

/-! ## The layout -/

namespace Image

variable (im : Image)

/-- Where the first block is. -/
def dataStart : ℕ := im.params.headerOffset + im.dataOffset

/-- The entry is there, and has a token. -/
def Allocated (i : ℕ) : Prop := i < im.indexTableSize ∧ im.token i ≠ unusedBlockToken

instance (i : ℕ) : Decidable (im.Allocated i) := inferInstanceAs (Decidable (_ ∧ _))

/-- Where a block is. -/
def base (i : ℕ) : Option ℕ :=
  if im.Allocated i then some (im.dataStart + im.token i * im.params.blockSize) else none

/-- The bytes of the image, zero where no block is. -/
def disk : ℕ → UInt8 := content im.params.blockSize im.base im.file

end Image

/-- What the routines keep. -/
structure WellFormed (im : Image) : Prop where
  blockSize_pos : 0 < im.params.blockSize
  castable : im.params.logicSize / im.params.blockSize < 2 ^ 32
  fits : headerSize + 4 * im.indexTableSize ≤ im.dataOffset
  stored : ∀ i, i < im.dataOffset → im.file (im.params.headerOffset + i) = im.table i
  used_lt : im.usedBlockCount < unusedBlockToken
  token_lt : ∀ i, im.Allocated i → im.token i < im.usedBlockCount
  token_inj : ∀ i j, im.Allocated i → im.Allocated j → im.token i = im.token j → i = j
  zero : ∀ x, im.dataStart + im.usedBlockCount * im.params.blockSize ≤ x → im.file x = 0
  below : ∀ i, im.Allocated i → im.dataStart + im.token i * im.params.blockSize < 2 ^ 32

/-- The same image with other blocks. -/
structure SameShape (im im' : Image) : Prop where
  params : im'.params = im.params
  dataOffset : im'.dataOffset = im.dataOffset
  size : im'.indexTableSize = im.indexTableSize

section Layout

variable {im im' : Image} {i j p q used val : ℕ} {data : List UInt8}

theorem SameShape.refl (im : Image) : SameShape im im := ⟨rfl, rfl, rfl⟩

theorem SameShape.trans {im'' : Image} (h : SameShape im im') (h' : SameShape im' im'') :
    SameShape im im'' :=
  ⟨h'.params.trans h.params, h'.dataOffset.trans h.dataOffset, h'.size.trans h.size⟩

/-! ### Entries of the table -/

theorem headerSize_eq : headerSize = 20 := rfl

@[simp]
theorem size_assign : (im.assign i val used).indexTableSize = im.indexTableSize := by
  rw [Image.indexTableSize, Image.assign, slice_place_of_disjoint _ (by omega),
    slice_place_of_disjoint _ (by rw [headerSize_eq]; omega), Image.indexTableSize]

theorem used_assign (h : used < 2 ^ 32) : (im.assign i val used).usedBlockCount = used := by
  have hslice := slice_place (place im.table (headerSize + 4 * i) (toBytes 4 val)) 4 (toBytes 4 used)
  rw [length_toBytes] at hslice
  rw [Image.usedBlockCount, Image.assign, hslice]
  exact ofBytes_toBytes_of_lt h

theorem token_assign_self (h : val < 2 ^ 32) : (im.assign i val used).token i = val := by
  have hslice := slice_place im.table (headerSize + 4 * i) (toBytes 4 val)
  rw [length_toBytes] at hslice
  rw [Image.token, Image.assign, slice_place_of_disjoint _ (by
    rw [length_toBytes, headerSize_eq]
    omega), hslice]
  exact ofBytes_toBytes_of_lt h

theorem token_assign_of_ne (h : j ≠ i) : (im.assign i val used).token j = im.token j := by
  rw [Image.token, Image.assign, slice_place_of_disjoint _ (by
    rw [length_toBytes, headerSize_eq]
    omega), slice_place_of_disjoint _ (by
    rw [length_toBytes]
    omega), Image.token]

theorem allocated_assign_self (hi : i < im.indexTableSize) (h : val < unusedBlockToken) :
    (im.assign i val used).Allocated i := by
  rw [Image.Allocated, size_assign, token_assign_self (h.trans (by decide))]
  exact ⟨hi, h.ne⟩

theorem allocated_assign_of_ne (h : j ≠ i) :
    (im.assign i val used).Allocated j ↔ im.Allocated j := by
  rw [Image.Allocated, Image.Allocated, size_assign, token_assign_of_ne h]

/-! ### Blocks -/

theorem base_of_allocated (h : im.Allocated i) :
    im.base i = some (im.dataStart + im.token i * im.params.blockSize) := if_pos h

theorem base_of_not (h : ¬ im.Allocated i) : im.base i = none := if_neg h

theorem allocated_of_base {d : ℕ} (h : im.base i = some d) :
    im.Allocated i ∧ d = im.dataStart + im.token i * im.params.blockSize := by
  rw [Image.base] at h
  split at h
  · next halloc => exact ⟨halloc, (Option.some.inj h).symm⟩
  · simp at h

/-- Tokens that differ give blocks that are apart. -/
theorem mul_apart {a b : ℕ} (bs : ℕ) (h : a < b) : a * bs + bs ≤ b * bs := by
  have := Nat.mul_le_mul_right bs (Nat.succ_le_of_lt h)
  rwa [Nat.succ_mul] at this

theorem WellFormed.apart (h : WellFormed im) (n : ℕ) : Apart im.params.blockSize n im.base := by
  intro i j d e _ _ hne hd he
  obtain ⟨hi, rfl⟩ := allocated_of_base hd
  obtain ⟨hj, rfl⟩ := allocated_of_base he
  have htoken : im.token i ≠ im.token j := fun heq => hne (h.token_inj i j hi hj heq)
  rcases Nat.lt_or_gt_of_ne htoken with hlt | hgt
  · left
    have := mul_apart im.params.blockSize hlt
    omega
  · right
    have := mul_apart im.params.blockSize hgt
    omega

/-- A part of a block is behind the table and in front of what is not in use. -/
theorem WellFormed.inside (h : WellFormed im) (hi : im.Allocated i)
    (hq : q + data.length ≤ im.params.blockSize) :
    im.dataStart ≤ im.dataStart + im.token i * im.params.blockSize + q ∧
      im.dataStart + im.token i * im.params.blockSize + q + data.length ≤
        im.dataStart + im.usedBlockCount * im.params.blockSize := by
  have := mul_apart im.params.blockSize (h.token_lt i hi)
  omega

/-- The image behind a write of `data` to a block. -/
def Image.store (im : Image) (first : ℕ) (data : List UInt8) : Image :=
  { im with file := place im.file first data }

theorem allocated_store (first : ℕ) : (im.store first data).Allocated i ↔ im.Allocated i := Iff.rfl

theorem WellFormed.store (h : WellFormed im) (hi : im.Allocated i)
    (hq : q + data.length ≤ im.params.blockSize) :
    WellFormed (im.store (im.dataStart + im.token i * im.params.blockSize + q) data) := by
  obtain ⟨hfront, hback⟩ := h.inside hi hq
  exact {
    blockSize_pos := h.blockSize_pos
    castable := h.castable
    fits := h.fits
    stored := by
      intro k hk
      refine Eq.trans ?_ (h.stored k hk)
      exact place_of_lt _ _ (lt_of_lt_of_le (Nat.add_lt_add_left hk _) hfront)
    used_lt := h.used_lt
    token_lt := h.token_lt
    token_inj := h.token_inj
    zero := by
      intro x hx
      refine Eq.trans ?_ (h.zero x hx)
      exact place_of_le _ (hback.trans hx)
    below := h.below }

theorem WellFormed.disk_store (h : WellFormed im) (hi : im.Allocated i)
    (hq : q + data.length ≤ im.params.blockSize) {x : ℕ}
    (hx : x < im.indexTableSize * im.params.blockSize) :
    (im.store (im.dataStart + im.token i * im.params.blockSize + q) data).disk x =
      place im.disk (i * im.params.blockSize + q) data x :=
  content_place (h.apart _) hi.1 (base_of_allocated hi) hq hx

/-- The image with a block of its own for an entry. -/
def Image.addBlock (im : Image) (i : ℕ) : Image :=
  (im.assign i im.usedBlockCount (im.usedBlockCount + 1)).writeTable

variable (hi : i < im.indexTableSize) (hnone : im.token i = unusedBlockToken)
  (hbelow : im.dataStart + im.usedBlockCount * im.params.blockSize < 2 ^ 32)

@[simp] theorem size_addBlock : (im.addBlock i).indexTableSize = im.indexTableSize := size_assign

theorem sameShape_addBlock : SameShape im (im.addBlock i) := ⟨rfl, rfl, size_addBlock⟩

theorem WellFormed.used_addBlock (h : WellFormed im) :
    (im.addBlock i).usedBlockCount = im.usedBlockCount + 1 := by
  have hused := h.used_lt
  exact used_assign (by rw [unusedBlockToken] at hused; omega)

theorem WellFormed.token_addBlock_self (h : WellFormed im) :
    (im.addBlock i).token i = im.usedBlockCount :=
  token_assign_self (h.used_lt.trans (by decide))

theorem token_addBlock_of_ne (h : j ≠ i) : (im.addBlock i).token j = im.token j :=
  token_assign_of_ne h

theorem WellFormed.allocated_addBlock_self (h : WellFormed im) (hi : i < im.indexTableSize) :
    (im.addBlock i).Allocated i := allocated_assign_self hi h.used_lt

theorem allocated_addBlock_of_ne (h : j ≠ i) : (im.addBlock i).Allocated j ↔ im.Allocated j :=
  allocated_assign_of_ne h

/-- The file behind the table stays as it is. -/
theorem file_addBlock {x : ℕ} (hx : im.dataStart ≤ x) : (im.addBlock i).file x = im.file x := by
  apply place_of_le
  rw [length_slice]
  exact hx

theorem WellFormed.addBlock (h : WellFormed im) (hi : i < im.indexTableSize)
    (hnone : im.token i = unusedBlockToken)
    (hbelow : im.dataStart + im.usedBlockCount * im.params.blockSize < 2 ^ 32) :
    WellFormed (im.addBlock i) := by
  have hused := h.used_addBlock (i := i)
  have hself := h.token_addBlock_self (i := i)
  have hpos := h.blockSize_pos
  have hcount : im.usedBlockCount + 1 < unusedBlockToken := by
    have hle := Nat.le_mul_of_pos_right im.usedBlockCount hpos
    have hfits := h.fits
    rw [headerSize_eq] at hfits
    rw [Image.dataStart] at hbelow
    rw [unusedBlockToken]
    omega
  exact {
    blockSize_pos := hpos
    castable := h.castable
    fits := by
      rw [size_addBlock]
      exact h.fits
    stored := by
      intro k hk
      refine place_of_getElem? _ (Nat.le_add_right _ _) ?_
      change (slice (im.addBlock i).table 0 im.dataOffset)[im.params.headerOffset + k -
        im.params.headerOffset]? = _
      rw [Nat.add_sub_cancel_left, getElem?_slice _ _ (show k < im.dataOffset from hk), Nat.zero_add]
    used_lt := by rwa [hused]
    token_lt := by
      intro j hj
      rw [hused]
      rcases eq_or_ne j i with rfl | hne
      · rw [hself]
        exact Nat.lt_succ_self _
      · rw [token_addBlock_of_ne hne]
        exact (h.token_lt j ((allocated_addBlock_of_ne hne).mp hj)).trans (Nat.lt_succ_self _)
    token_inj := by
      intro j k hj hk heq
      rcases eq_or_ne j i with rfl | hne
      · by_contra hne'
        rw [hself, token_addBlock_of_ne (Ne.symm hne')] at heq
        exact absurd heq (h.token_lt k ((allocated_addBlock_of_ne (Ne.symm hne')).mp hk)).ne'
      · rcases eq_or_ne k i with rfl | hne'
        · rw [hself, token_addBlock_of_ne hne] at heq
          exact absurd heq (h.token_lt j ((allocated_addBlock_of_ne hne).mp hj)).ne
        · rw [token_addBlock_of_ne hne, token_addBlock_of_ne hne'] at heq
          exact h.token_inj j k ((allocated_addBlock_of_ne hne).mp hj)
            ((allocated_addBlock_of_ne hne').mp hk) heq
    zero := by
      intro x hx
      rw [hused, Nat.succ_mul] at hx
      have hx' : im.dataStart + im.usedBlockCount * im.params.blockSize ≤ x := by
        refine le_trans ?_ hx
        exact Nat.add_le_add_left (Nat.le_add_right _ _) _
      rw [file_addBlock (le_trans (Nat.le_add_right _ _) hx')]
      exact h.zero x hx'
    below := by
      intro j hj
      rcases eq_or_ne j i with rfl | hne
      · rw [hself]
        exact hbelow
      · rw [token_addBlock_of_ne hne]
        exact h.below j ((allocated_addBlock_of_ne hne).mp hj) }

/-- A new block is zero, as the bytes were that had no block. -/
theorem WellFormed.disk_addBlock (h : WellFormed im) (hi : i < im.indexTableSize)
    (hnone : im.token i = unusedBlockToken) {x : ℕ} :
    (im.addBlock i).disk x = im.disk x := by
  have hself := h.token_addBlock_self (i := i)
  have hnew : (im.addBlock i).base i =
      some (im.dataStart + im.usedBlockCount * im.params.blockSize) := by
    rw [base_of_allocated (h.allocated_addBlock_self hi), hself]
    rfl
  have hold : ∀ j, j ≠ i → (im.addBlock i).base j = im.base j := by
    intro j hne
    simp only [Image.base, allocated_addBlock_of_ne hne, token_addBlock_of_ne hne]
    rfl
  have hfile : content im.params.blockSize (im.addBlock i).base (im.addBlock i).file x =
      content im.params.blockSize (im.addBlock i).base im.file x := by
    cases hbase : (im.addBlock i).base (x / im.params.blockSize) with
    | none => rw [content_of_none hbase, content_of_none hbase]
    | some d =>
        rw [content_of_some hbase, content_of_some hbase]
        obtain ⟨-, rfl⟩ := allocated_of_base hbase
        apply file_addBlock
        rw [Nat.add_assoc]
        exact Nat.le_add_right _ _
  rw [Image.disk, Image.disk]
  refine hfile.trans ?_
  refine content_of_new h.blockSize_pos (base_of_not fun halloc => halloc.2 hnone) hnew (hold _) ?_
  intro k _
  exact h.zero _ (Nat.le_add_right _ _)

end Layout

/-! ## The walk over the blocks of a range -/

/-- The span of a range, when its blocks have numbers. -/
def spanOf (bs offset length : ℕ) : Span :=
  ⟨bs, offset / bs, (offset + length) / bs, offset % bs, (offset + length) % bs⟩

/-- `current` is the block of the first byte that is left. -/
structure Cursor (bs offset length current done : ℕ) : Prop where
  le : done ≤ length
  here : done < length → current ≤ (offset + length) / bs ∧
    current * bs + (spanOf bs offset length).start current = offset + done

section Walk

variable {bs offset length current done : ℕ}

theorem span_eq (h : (offset + length) / bs < 2 ^ 32) :
    span bs offset length = some (spanOf bs offset length) := by
  have hfirst : offset / bs < 2 ^ 32 :=
    lt_of_le_of_lt (Nat.div_le_div_right (Nat.le_add_right _ _)) h
  simp only [span, numericCast, if_pos hfirst, if_pos h]
  rfl

theorem start_lt (hbs : 0 < bs) : (spanOf bs offset length).start current < bs := by
  rw [Span.start]
  split
  · exact Nat.mod_lt _ hbs
  · exact hbs

theorem div_add_mod' (x bs : ℕ) : x / bs * bs + x % bs = x := by
  rw [Nat.mul_comm]
  exact Nat.div_add_mod x bs

theorem Cursor.first (bs offset length : ℕ) : Cursor bs offset length (offset / bs) 0 := by
  constructor
  · exact Nat.zero_le _
  · intro _
    constructor
    · exact Nat.div_le_div_right (Nat.le_add_right _ _)
    · have hstart : (spanOf bs offset length).start (offset / bs) = offset % bs := if_pos rfl
      rw [hstart]
      exact div_add_mod' offset bs

/-- The block and the place in it. -/
theorem Cursor.block (h : Cursor bs offset length current done) (hbs : 0 < bs)
    (hlt : done < length) : (offset + done) / bs = current ∧
      (offset + done) % bs = (spanOf bs offset length).start current := by
  rw [← (h.here hlt).2]
  exact block_and_offset (start_lt hbs)

/-- A part begins with the range or with a block. -/
theorem Cursor.begins (h : Cursor bs offset length current done) (hlt : done < length) :
    offset + done = offset ∨ bs ∣ offset + done := by
  have hhere := (h.here hlt).2
  rw [Span.start] at hhere
  split at hhere
  · next hfirst =>
    left
    rw [← hhere, hfirst]
    exact div_add_mod' offset bs
  · right
    exact ⟨current, by rw [← hhere, Nat.add_zero, Nat.mul_comm]⟩

/-- What one round comes to. -/
structure Round (bs offset length current done : ℕ) : Prop where
  busy : ¬ (current = (offset + length) / bs ∧ (offset + length) % bs = 0)
  ordered : (spanOf bs offset length).start current ≤ (spanOf bs offset length).stop current
  within : (spanOf bs offset length).stop current ≤ bs
  next : Cursor bs offset length (current + 1)
    (done + ((spanOf bs offset length).stop current - (spanOf bs offset length).start current))

theorem Cursor.round (h : Cursor bs offset length current done) (hbs : 0 < bs)
    (hlt : done < length) : Round bs offset length current done := by
  obtain ⟨hle, hhere⟩ := h.here hlt
  have hend := div_add_mod' (offset + length) bs
  have hmod := Nat.mod_lt (offset + length) hbs
  have hstart : (spanOf bs offset length).start current < bs := start_lt hbs
  rcases Nat.eq_or_lt_of_le hle with hlast | hbefore
  · have hstop : (spanOf bs offset length).stop current = (offset + length) % bs := if_pos hlast
    rw [← hlast] at hend
    constructor
    · omega
    · omega
    · omega
    · constructor
      · omega
      · intro hmore
        omega
  · have hstop : (spanOf bs offset length).stop current = bs := if_neg hbefore.ne
    have hnext := Nat.mul_le_mul_right bs (Nat.succ_le_of_lt hbefore)
    rw [Nat.succ_mul] at hnext
    have hfirst : offset / bs ≤ current := by
      rw [← (h.block hbs hlt).1]
      exact Nat.div_le_div_right (Nat.le_add_right _ _)
    constructor
    · exact fun hlast => hbefore.ne hlast.1
    · omega
    · omega
    · constructor
      · omega
      · intro _
        have hzero : (spanOf bs offset length).start (current + 1) = 0 := by
          apply if_neg
          change current + 1 ≠ offset / bs
          omega
        constructor
        · exact hbefore
        · rw [hzero, Nat.succ_mul]
          omega

end Walk

/-! ## The routines for one block -/

section Routines

variable {im : Image} {i p q n : ℕ} {buffer : ℕ → UInt8} {data : List UInt8}
  {E : Unit → Image → Prop}

theorem position_eq {token : ℕ}
    (h : im.dataStart + token * im.params.blockSize + q < 2 ^ 32) :
    im.position token q = im.dataStart + token * im.params.blockSize + q := ulong_of_lt h

theorem sat_tableAt (hi : i < im.indexTableSize) :
    Sat (tableAt i) im (fun t im' => t = im.token i ∧ im' = im) E := by
  simp only [tableAt]
  apply Sat.get_bind
  rw [if_neg (by omega)]
  exact Sat.pure ⟨rfl, rfl⟩

/-- The bytes of a part of a block. -/
theorem slice_disk (hi : im.Allocated i) (hq : q + n ≤ im.params.blockSize) :
    slice im.disk (i * im.params.blockSize + q) n =
      slice im.file (im.dataStart + im.token i * im.params.blockSize + q) n :=
  slice_content_of_some (base_of_allocated hi) hq

theorem sat_readFromBlock (hi : im.Allocated i) (hq : q + n ≤ im.params.blockSize)
    (hpos : im.dataStart + im.token i * im.params.blockSize + q < 2 ^ 32) :
    Sat (readFromBlock buffer p i q n) im
      (fun b im' => b = place buffer p (slice im.disk (i * im.params.blockSize + q) n) ∧ im' = im)
      E := by
  simp only [readFromBlock]
  refine Sat.bind (sat_tableAt hi.1) ?_
  rintro _ _ ⟨rfl, rfl⟩
  rw [if_neg hi.2]
  apply Sat.get_bind
  rw [position_eq hpos, ← slice_disk hi hq]
  exact Sat.pure ⟨rfl, rfl⟩

theorem sat_writeToBlock (hi : im.Allocated i)
    (hpos : im.dataStart + im.token i * im.params.blockSize + q < 2 ^ 32) :
    Sat (writeToBlock data i q) im (fun _ im' =>
      im' = im.store (im.dataStart + im.token i * im.params.blockSize + q) data) E := by
  simp only [writeToBlock]
  refine Sat.bind (sat_tableAt hi.1) ?_
  rintro _ _ ⟨rfl, rfl⟩
  rw [if_neg hi.2]
  apply Sat.modify
  rw [position_eq hpos]
  rfl

theorem sat_addNewBlock (h : WellFormed im) (hi : i < im.indexTableSize)
    (hnone : im.token i = unusedBlockToken) :
    Sat (addNewBlock i) im (fun _ im' => im' = im.addBlock i) E := by
  have hused := h.used_lt
  have hfree : ¬ (im.token i ≠ unusedBlockToken ∨ im.usedBlockCount = unusedBlockToken) := by
    rintro (hne | heq)
    · exact hne hnone
    · exact hused.ne heq
  have hcount : ulong (im.usedBlockCount + 1) = im.usedBlockCount + 1 :=
    ulong_of_lt (by rw [unusedBlockToken] at hused; omega)
  have hset : Sat (tableSet i im.usedBlockCount) im (fun _ im' =>
      im' = im.assign i im.usedBlockCount (im.usedBlockCount + 1)) E := by
    simp only [tableSet]
    apply Sat.get_bind
    rw [if_neg (by omega), if_neg hfree, hcount]
    exact rfl
  simp only [addNewBlock]
  apply Sat.get_bind
  refine Sat.bind hset ?_
  rintro _ _ rfl
  exact rfl

end Routines

/-! ## Reading -/

/-- The block of a byte is there, and the place of the byte is below 4 GB. -/
def Image.Readable (im : Image) (x : ℕ) : Prop :=
  im.Allocated (x / im.params.blockSize) ∧
    im.dataStart + im.token (x / im.params.blockSize) * im.params.blockSize +
      x % im.params.blockSize < 2 ^ 32

instance (im : Image) (x : ℕ) : Decidable (im.Readable x) := inferInstanceAs (Decidable (_ ∧ _))

section Reading

variable {im : Image} {bs offset length current done p blocks : ℕ} {buffer : ℕ → UInt8}
  {E : Unit → Image → Prop}

/-- **The loop of a read** over blocks that are all there. -/
theorem sat_readBlocks (h : WellFormed im) (hbs : im.params.blockSize = bs)
    (hread : ∀ x, offset ≤ x → x < offset + length → (x = offset ∨ bs ∣ x) → im.Readable x)
    (hcursor : Cursor bs offset length current done)
    (hblocks : (offset + length) / bs + 1 ≤ current + blocks) :
    Sat (readBlocks (spanOf bs offset length) length blocks current buffer p done) im
      (fun b im' => b = place buffer p (slice im.disk (offset + done) (length - done)) ∧ im' = im)
      E := by
  have hpos : 0 < bs := hbs ▸ h.blockSize_pos
  induction blocks generalizing current buffer p done with
  | zero =>
      rcases Nat.eq_or_lt_of_le hcursor.le with hdone | hlt
      · rw [hdone, Nat.sub_self, slice_zero, place_nil]
        exact Sat.pure ⟨rfl, rfl⟩
      · have := (hcursor.here hlt).1
        omega
  | succ blocks ih =>
      rw [readBlocks]
      rcases Nat.eq_or_lt_of_le hcursor.le with hdone | hlt
      · rw [if_pos (Or.inl (by omega)), hdone, Nat.sub_self, slice_zero, place_nil]
        exact Sat.pure ⟨rfl, rfl⟩
      · have hround := hcursor.round hpos hlt
        obtain ⟨hblock, hin⟩ := hcursor.block hpos hlt
        have hordered := hround.ordered
        have hwithin := hround.within
        have hnext := hround.next
        have hbyte := hread (offset + done) (by omega) (by omega) (hcursor.begins hlt)
        rw [Image.Readable, hbs, hblock, hin] at hbyte
        obtain ⟨halloc, hbelow⟩ := hbyte
        have hbusy : ¬ (¬ done < length ∨ (current = (spanOf bs offset length).lastBlockIndex ∧
            (spanOf bs offset length).lastBlockOffset = 0)) := by
          rintro (hno | hlast)
          · exact hno hlt
          · exact hround.busy hlast
        rw [if_neg hbusy]
        refine Sat.bind (sat_tableAt halloc.1) ?_
        rintro _ im ⟨rfl, rfl⟩
        rw [if_neg halloc.2, if_neg (by omega)]
        dsimp only
        generalize hstart : (spanOf bs offset length).start current = start at *
        generalize hcount : (spanOf bs offset length).stop current - start = count at *
        refine Sat.bind (sat_readFromBlock halloc (by omega) (by rwa [hbs])) ?_
        rintro _ im ⟨rfl, rfl⟩
        refine (ih hnext (by omega)).mono ?_ fun _ _ h => h
        rintro _ im ⟨rfl, rfl⟩
        refine ⟨?_, rfl⟩
        -- the bytes of this block and the bytes behind it
        have hhere := (hcursor.here hlt).2
        rw [hstart] at hhere
        have hle := hnext.le
        have hsplit := slice_append im.disk (offset + done) count (length - (done + count))
        rw [show count + (length - (done + count)) = length - done by omega] at hsplit
        rw [← hsplit, hbs, hhere, ← place_append, length_slice, Nat.add_assoc]

end Reading

/-! ## Writing -/

/-- The token that a block has, or gets from a write that begins with block `first`. -/
def Image.tokenFor (im : Image) (first i : ℕ) : ℕ :=
  if im.token i ≠ unusedBlockToken then im.token i
  else im.usedBlockCount +
    (List.range' first (i - first)).countP fun j => im.token j = unusedBlockToken

/-- The block of a byte has an entry, and the place that the byte has or gets is below 4 GB. -/
def Image.Writable (im : Image) (first x : ℕ) : Prop :=
  x / im.params.blockSize < im.indexTableSize ∧
    im.dataStart + im.tokenFor first (x / im.params.blockSize) * im.params.blockSize +
      x % im.params.blockSize < 2 ^ 32

instance (im : Image) (first x : ℕ) : Decidable (im.Writable first x) :=
  inferInstanceAs (Decidable (_ ∧ _))

/-- The image behind a write of `data` at `first`. -/
structure Stored (im : Image) (first : ℕ) (data : List UInt8) (im' : Image) : Prop where
  wellFormed : WellFormed im'
  shape : SameShape im im'
  disk : ∀ x, x < im.indexTableSize * im.params.blockSize → im'.disk x = place im.disk first data x

section Writing

variable {im im' : Image} {bs offset length current done blocks i j q : ℕ} {data : List UInt8}
  {E : Unit → Image → Prop}

theorem Stored.trans {im'' : Image} {first : ℕ} {as bs : List UInt8} (h₁ : Stored im first as im')
    (h₂ : Stored im' (first + as.length) bs im'') : Stored im first (as ++ bs) im'' where
  wellFormed := h₂.wellFormed
  shape := h₁.shape.trans h₂.shape
  disk := by
    intro x hx
    have hx' : x < im'.indexTableSize * im'.params.blockSize := by
      rwa [h₁.shape.size, h₁.shape.params]
    have hcongr : place im'.disk (first + as.length) bs x =
        place (place im.disk first as) (first + as.length) bs x := by
      rw [place, place, h₁.disk x hx]
    rw [h₂.disk x hx', hcongr, place_append]

theorem stored_nil (h : WellFormed im) (first : ℕ) : Stored im first [] im :=
  ⟨h, .refl im, fun _ _ => by rw [place_nil]⟩

theorem tokenFor_of_used (h : im.token i ≠ unusedBlockToken) (first : ℕ) :
    im.tokenFor first i = im.token i := if_pos h

/-- A block that is there takes no token. -/
theorem tokenFor_succ (h : im.token current ≠ unusedBlockToken) (hi : current < i) :
    im.tokenFor (current + 1) i = im.tokenFor current i := by
  rw [Image.tokenFor, Image.tokenFor, show i - current = i - (current + 1) + 1 by omega,
    List.range'_succ, List.countP_cons_of_neg (by simpa using h)]

/-- The tokens that are left for the blocks behind a new one. -/
theorem WellFormed.tokenFor_addBlock (h : WellFormed im)
    (hnone : im.token current = unusedBlockToken) (hi : current < i) :
    (im.addBlock current).tokenFor (current + 1) i = im.tokenFor current i := by
  have hrest : (List.range' (current + 1) (i - (current + 1))).countP
        (fun j => (im.addBlock current).token j = unusedBlockToken) =
      (List.range' (current + 1) (i - (current + 1))).countP
        fun j => im.token j = unusedBlockToken := by
    apply List.countP_congr
    intro j hj
    have hlt := (List.mem_range'_1.mp hj).1
    rw [token_addBlock_of_ne (by omega)]
  rw [Image.tokenFor, Image.tokenFor, token_addBlock_of_ne (by omega), hrest, h.used_addBlock,
    show i - current = i - (current + 1) + 1 by omega, List.range'_succ,
    List.countP_cons_of_pos (by simpa using hnone)]
  split
  · rfl
  · omega

/-- What is left to write keeps its tokens. -/
structure Prepared (im : Image) (i : ℕ) (im' : Image) : Prop where
  wellFormed : WellFormed im'
  shape : SameShape im im'
  allocated : im'.Allocated i
  token : im'.token i = im.tokenFor i i
  disk : ∀ x, im'.disk x = im.disk x
  rest : ∀ j, i < j → im'.tokenFor (i + 1) j = im.tokenFor i j

/-- A block that is not there is added. -/
theorem prepared_of_some (h : WellFormed im) (halloc : im.Allocated i) : Prepared im i im where
  wellFormed := h
  shape := .refl im
  allocated := halloc
  token := (tokenFor_of_used halloc.2 i).symm
  disk := fun _ => rfl
  rest := fun _ hj => tokenFor_succ halloc.2 hj

theorem tokenFor_self (hnone : im.token i = unusedBlockToken) :
    im.tokenFor i i = im.usedBlockCount := by
  rw [Image.tokenFor, if_neg (not_not.mpr hnone), Nat.sub_self]
  rfl

theorem prepared_of_none (h : WellFormed im) (hi : i < im.indexTableSize)
    (hnone : im.token i = unusedBlockToken)
    (hbelow : im.dataStart + im.usedBlockCount * im.params.blockSize < 2 ^ 32) :
    Prepared im i (im.addBlock i) where
  wellFormed := h.addBlock hi hnone hbelow
  shape := sameShape_addBlock
  allocated := h.allocated_addBlock_self hi
  token := by rw [tokenFor_self hnone, h.token_addBlock_self]
  disk := fun _ => h.disk_addBlock hi hnone
  rest := fun _ hj => h.tokenFor_addBlock hnone hj

theorem Prepared.store (h : Prepared im i im') (hq : q + data.length ≤ im.params.blockSize) :
    Stored im (i * im.params.blockSize + q) data
      (im'.store (im'.dataStart + im'.token i * im'.params.blockSize + q) data) where
  wellFormed := h.wellFormed.store h.allocated (by rwa [h.shape.params])
  shape := ⟨h.shape.params, h.shape.dataOffset, h.shape.size⟩
  disk := by
    intro x hx
    have hdisk : im'.disk = im.disk := funext h.disk
    rw [h.wellFormed.disk_store h.allocated (by rwa [h.shape.params])
      (by rwa [h.shape.size, h.shape.params]), hdisk, h.shape.params]

/-- The bytes behind the block of the cursor keep their places. -/
theorem Prepared.writable (h : Prepared im i im') {x : ℕ} (hx : i < x / im.params.blockSize)
    (hwritable : im.Writable i x) (first : ℕ) : (im'.store first data).Writable (i + 1) x := by
  have hstart : im'.dataStart = im.dataStart := by
    rw [Image.dataStart, Image.dataStart, h.shape.params, h.shape.dataOffset]
  constructor
  · change x / im'.params.blockSize < im'.indexTableSize
    rw [h.shape.params, h.shape.size]
    exact hwritable.1
  · change im'.dataStart + im'.tokenFor (i + 1) (x / im'.params.blockSize) * im'.params.blockSize +
      x % im'.params.blockSize < 2 ^ 32
    rw [hstart, h.shape.params, h.rest _ hx]
    exact hwritable.2

/-- **The loop of a write.** -/
theorem sat_writeBlocks (h : WellFormed im) (hbs : im.params.blockSize = bs)
    (hwrite : ∀ x, offset + done ≤ x → x < offset + length → (x = offset ∨ bs ∣ x) →
      im.Writable current x)
    (hcursor : Cursor bs offset length current done) (hdata : data.length = length - done)
    (hblocks : (offset + length) / bs + 1 ≤ current + blocks) :
    Sat (writeBlocks (spanOf bs offset length) length blocks current data done) im
      (fun _ im' => Stored im (offset + done) data im') E := by
  have hpos : 0 < bs := hbs ▸ h.blockSize_pos
  induction blocks generalizing im current data done with
  | zero =>
      rcases Nat.eq_or_lt_of_le hcursor.le with hdone | hlt
      · rw [List.length_eq_zero_iff.mp (by omega : data.length = 0)]
        exact Sat.pure (stored_nil h _)
      · have := (hcursor.here hlt).1
        omega
  | succ blocks ih =>
      rw [writeBlocks]
      rcases Nat.eq_or_lt_of_le hcursor.le with hdone | hlt
      · rw [if_pos (by omega), List.length_eq_zero_iff.mp (by omega : data.length = 0)]
        exact Sat.pure (stored_nil h _)
      · have hround := hcursor.round hpos hlt
        obtain ⟨hblock, hin⟩ := hcursor.block hpos hlt
        have hordered := hround.ordered
        have hwithin := hround.within
        have hnext := hround.next
        have hbyte := hwrite (offset + done) (Nat.le_refl _) (by omega) (hcursor.begins hlt)
        rw [Image.Writable, hbs, hblock, hin] at hbyte
        obtain ⟨hi, hbelow⟩ := hbyte
        rw [if_neg (not_not.mpr hlt)]
        refine Sat.bind (sat_tableAt hi) ?_
        rintro _ im ⟨rfl, rfl⟩
        dsimp only
        generalize hstart : (spanOf bs offset length).start current = start at *
        generalize hcount : (spanOf bs offset length).stop current - start = count at *
        have hlen : (data.take count).length = count := by
          have := hnext.le
          rw [List.length_take]
          omega
        have hhere := (hcursor.here hlt).2
        rw [hstart] at hhere
        have htail : ∀ im', Prepared im current im' →
            Sat (do
              writeToBlock (data.take count) current start
              writeBlocks (spanOf bs offset length) length blocks (current + 1) (data.drop count)
                (done + count)) im' (fun _ im' => Stored im (offset + done) data im') E := by
          intro im' hprepared
          have hplace : im'.dataStart + im'.token current * im'.params.blockSize + start < 2 ^ 32 := by
            rw [Image.dataStart, hprepared.shape.params, hprepared.shape.dataOffset,
              hprepared.token, hbs]
            exact hbelow
          refine Sat.bind (sat_writeToBlock hprepared.allocated hplace) ?_
          rintro _ _ rfl
          have hstored : Stored im (current * im.params.blockSize + start) (data.take count)
              (im'.store (im'.dataStart + im'.token current * im'.params.blockSize + start)
                (data.take count)) := hprepared.store (by omega)
          rw [hbs, hhere] at hstored
          refine (ih hstored.wellFormed (hprepared.shape.params ▸ hbs) ?_ hnext
            (by rw [List.length_drop]; omega) (by omega)).mono ?_ fun _ _ h => h
          · intro x hx hx' hbegin
            have hblock' : current < x / bs := by
              have hnext' := (hnext.here (by omega)).2
              apply Nat.lt_of_succ_le
              rw [Nat.le_div_iff_mul_le hpos]
              exact le_trans (Nat.le_add_right _ _) (hnext'.trans_le hx)
            exact hprepared.writable (hbs ▸ hblock') (hwrite x (by omega) hx' hbegin) _
          · intro _ im'' hrest
            have hoffset : offset + (done + count) = offset + done + (data.take count).length := by
              rw [hlen, Nat.add_assoc]
            rw [hoffset] at hrest
            have hall := hstored.trans hrest
            rwa [List.take_append_drop] at hall
        split
        · next hnone =>
          rw [tokenFor_self hnone] at hbelow
          refine Sat.bind (sat_addNewBlock h hi hnone) ?_
          rintro _ _ rfl
          rw [if_neg (by omega)]
          exact htail _ (prepared_of_none h hi hnone (by rw [hbs]; omega))
        · next hsome =>
          rw [if_neg (by omega)]
          exact htail _ (prepared_of_some h ⟨hi, hsome⟩)

end Writing

/-! ## The constructor -/

/-- The constructor gives tables of this size. -/
def Made (p : Params) (dataOffset : ℕ) : Prop :=
  ∃ table, ∀ file, construct p file = some ⟨p, dataOffset, table, file⟩

/-- The bytes of a table are all that counts. -/
structure SameTable (im im' : Image) : Prop where
  params : im'.params = im.params
  dataOffset : im'.dataOffset = im.dataOffset
  file : im'.file = im.file
  table : ∀ i, i < im.dataOffset → im'.table i = im.table i

section Constructor

variable {p : Params} {im im' : Image} {file : ℕ → UInt8} {blocks blockSize i n : ℕ}

theorem le_granulityTo {size block : ℕ} (hpos : 0 < block) (h : granulityTo size block = some n) :
    size ≤ n := by
  have hround : size ≤ size / block * block + if size % block = 0 then 0 else block := by
    have hsplit := div_add_mod' size block
    have hmod := Nat.mod_lt size hpos
    split <;> omega
  rw [granulityTo, numericCast] at h
  generalize (size / block * block + if size % block = 0 then 0 else block) = rounded at *
  split at h
  · exact hround.trans_eq (Option.some.inj h)
  · simp at h

theorem lt_of_integerDiv {size block : ℕ} (h : integerDiv size block = some n) :
    size / block < 2 ^ 32 := by
  rw [integerDiv, numericCast] at h
  by_contra hge
  rw [if_neg hge] at h
  simp at h

/-- What the constructor has checked. -/
structure Checked (p : Params) (blocks dataOffset : ℕ) : Prop where
  blockSize_pos : 0 < p.blockSize
  castable : p.logicSize / p.blockSize < 2 ^ 32
  fits : headerSize + 4 * blocks ≤ dataOffset
  small : headerSize + 4 * blocks < 2 ^ 32

theorem checked_of_sizes {dataOffset : ℕ} (h : tableSizes p = some (blocks, dataOffset)) :
    Checked p blocks dataOffset := by
  simp only [tableSizes] at h
  split at h
  · simp at h
  · next hzero =>
    cases hdiv : integerDiv p.logicSize p.blockSize with
    | none => simp [hdiv] at h
    | some n =>
        cases hcalc : calcDataOffset p.logicSize p.blockSize p.granulity with
        | none => simp [hdiv, hcalc] at h
        | some size =>
            rw [hdiv, hcalc] at h
            simp only [Option.bind_eq_bind, Option.bind_some] at h
            split at h
            · simp at h
            · next hsmall =>
              split at h
              · simp at h
              · obtain ⟨rfl, rfl⟩ := Prod.mk.inj (Option.some.inj h)
                have hfour : ulong (headerSize + ulong (n * 4)) = headerSize + 4 * n := by
                  rw [ulong_of_lt (show n * 4 < 2 ^ 32 by omega), ulong_of_lt (by omega)]
                  omega
                rw [calcDataOffset, hdiv] at hcalc
                simp only [Option.bind_eq_bind, Option.bind_some, hfour] at hcalc
                exact ⟨by omega, lt_of_integerDiv hdiv, le_granulityTo (by omega) hcalc, by omega⟩

theorem construct_cases (h : construct p file = some im) :
    ∃ blocks dataOffset, im = ⟨p, dataOffset, newTable blocks p.blockSize, file⟩ ∧
      Checked p blocks dataOffset ∧ Made p dataOffset := by
  rw [construct, Option.map_eq_some_iff] at h
  obtain ⟨⟨blocks, dataOffset⟩, hsizes, rfl⟩ := h
  refine ⟨blocks, dataOffset, rfl, checked_of_sizes hsizes, newTable blocks p.blockSize, ?_⟩
  intro file'
  rw [construct, hsizes]
  rfl

/-! ### A new table -/

theorem size_newTable (h : blocks < 2 ^ 32) :
    ofBytes (slice (newTable blocks blockSize) 0 4) = blocks := by
  rw [newTable, ← place_append, slice_place_of_disjoint _ (by left; rw [length_toBytes])]
  have hslice := slice_place (fun i => if headerSize ≤ i ∧ i < headerSize + 4 * blocks
    then (0xFF : UInt8) else 0) 0 (toBytes 4 blocks)
  rw [length_toBytes] at hslice
  rw [hslice]
  exact ofBytes_toBytes_of_lt h

theorem used_newTable : ofBytes (slice (newTable blocks blockSize) 4 4) = 0 := by
  have hslice := slice_place (place (fun i => if headerSize ≤ i ∧ i < headerSize + 4 * blocks
    then (0xFF : UInt8) else 0) 0 (toBytes 4 blocks)) 4 (toBytes 4 0)
  rw [length_toBytes] at hslice
  have hfirst : (0 : ℕ) + (toBytes 4 blocks).length = 4 := by rw [length_toBytes]
  have hsecond : (4 : ℕ) + (toBytes 4 0).length = 8 := by rw [length_toBytes]
  rw [newTable, ← place_append, hfirst, ← place_append, hsecond,
    slice_place_of_disjoint _ (by left; omega), hslice]
  exact ofBytes_toBytes_of_lt (by decide)

theorem token_newTable (hi : i < blocks) :
    ofBytes (slice (newTable blocks blockSize) (headerSize + 4 * i) 4) = unusedBlockToken := by
  have hbytes : slice (newTable blocks blockSize) (headerSize + 4 * i) 4 =
      List.replicate 4 0xFF := by
    rw [newTable, slice_place_of_disjoint _ (by
      right
      simp only [List.length_append, length_toBytes, headerSize_eq]
      omega), List.eq_replicate_iff]
    refine ⟨length_slice _ _ _, ?_⟩
    intro b hb
    rw [slice, List.mem_map] at hb
    obtain ⟨k, hk, rfl⟩ := hb
    have hlt := List.mem_range.mp hk
    exact if_pos ⟨by omega, by omega⟩
  rw [hbytes]
  decide

/-- **A new image** is laid out well and holds zeros. -/
theorem wellFormed_create (h : sparseImage p file true = some im)
    (hblank : ∀ x, p.headerOffset ≤ x → file x = 0) :
    WellFormed im ∧ Made p im.dataOffset ∧ im.params = p ∧ ∀ x, im.disk x = 0 := by
  rw [sparseImage, Option.map_eq_some_iff] at h
  obtain ⟨im₀, hconstruct, rfl⟩ := h
  obtain ⟨blocks, dataOffset, rfl, hchecked, hmade⟩ := construct_cases hconstruct
  have hsmall := hchecked.small
  have hsize : ofBytes (slice (newTable blocks p.blockSize) 0 4) = blocks :=
    size_newTable (by omega)
  have hnone : ∀ i, ¬ (Image.writeTable ⟨p, dataOffset, newTable blocks p.blockSize, file⟩).Allocated i := by
    rintro i ⟨hi, hsome⟩
    change i < ofBytes (slice (newTable blocks p.blockSize) 0 4) at hi
    rw [hsize] at hi
    exact hsome (token_newTable hi)
  refine ⟨?_, hmade, rfl, fun x => content_of_none (base_of_not (hnone _))⟩
  exact {
    blockSize_pos := hchecked.blockSize_pos
    castable := hchecked.castable
    fits := by
      change headerSize + 4 * ofBytes (slice (newTable blocks p.blockSize) 0 4) ≤ dataOffset
      rw [hsize]
      exact hchecked.fits
    stored := by
      intro k hk
      refine place_of_getElem? _ (Nat.le_add_right _ _) ?_
      change (slice (newTable blocks p.blockSize) 0 dataOffset)[p.headerOffset + k -
        p.headerOffset]? = _
      rw [Nat.add_sub_cancel_left, getElem?_slice _ _ (show k < dataOffset from hk), Nat.zero_add]
      rfl
    used_lt := by
      change ofBytes (slice (newTable blocks p.blockSize) 4 4) < unusedBlockToken
      rw [used_newTable]
      decide
    token_lt := fun i hi => absurd hi (hnone i)
    token_inj := fun i _ hi => absurd hi (hnone i)
    zero := by
      intro x hx
      have hfront : p.headerOffset + dataOffset ≤ x := le_trans (Nat.le_add_right _ _) hx
      refine (place_of_le _ ?_).trans (hblank x (le_trans (Nat.le_add_right _ _) hfront))
      rwa [length_slice]
    below := fun i hi => absurd hi (hnone i) }

/-! ### The image opened again -/

theorem SameTable.read (h : SameTable im im') {first count : ℕ}
    (hin : first + count ≤ im.dataOffset) :
    ofBytes (slice im'.table first count) = ofBytes (slice im.table first count) :=
  congrArg ofBytes (slice_congr _ fun i _ hi => h.table i (lt_of_lt_of_le hi hin))

theorem WellFormed.size_same (h : WellFormed im) (hsame : SameTable im im') :
    im'.indexTableSize = im.indexTableSize := by
  have hfits := h.fits
  rw [headerSize_eq] at hfits
  exact hsame.read (by omega)

theorem WellFormed.used_same (h : WellFormed im) (hsame : SameTable im im') :
    im'.usedBlockCount = im.usedBlockCount := by
  have hfits := h.fits
  rw [headerSize_eq] at hfits
  exact hsame.read (by omega)

theorem WellFormed.token_same (h : WellFormed im) (hsame : SameTable im im')
    (hi : i < im.indexTableSize) : im'.token i = im.token i := by
  have hfits := h.fits
  exact hsame.read (by omega)

theorem WellFormed.allocated_same (h : WellFormed im) (hsame : SameTable im im') (i : ℕ) :
    im'.Allocated i ↔ im.Allocated i := by
  rw [Image.Allocated, Image.Allocated, h.size_same hsame]
  constructor
  · rintro ⟨hi, hsome⟩
    exact ⟨hi, by rwa [← h.token_same hsame hi]⟩
  · rintro ⟨hi, hsome⟩
    exact ⟨hi, by rwa [h.token_same hsame hi]⟩

theorem SameTable.dataStart (h : SameTable im im') : im'.dataStart = im.dataStart := by
  rw [Image.dataStart, Image.dataStart, h.params, h.dataOffset]

theorem WellFormed.same (h : WellFormed im) (hsame : SameTable im im') : WellFormed im' := by
  have halloc := h.allocated_same hsame
  have htoken : ∀ {i}, im'.Allocated i → im'.token i = im.token i := fun hi =>
    h.token_same hsame ((halloc _).mp hi).1
  exact {
    blockSize_pos := by
      rw [hsame.params]
      exact h.blockSize_pos
    castable := by
      rw [hsame.params]
      exact h.castable
    fits := by
      rw [h.size_same hsame, hsame.dataOffset]
      exact h.fits
    stored := by
      intro k hk
      rw [hsame.dataOffset] at hk
      rw [hsame.params, hsame.file, hsame.table k hk]
      exact h.stored k hk
    used_lt := by
      rw [h.used_same hsame]
      exact h.used_lt
    token_lt := by
      intro i hi
      rw [htoken hi, h.used_same hsame]
      exact h.token_lt i ((halloc i).mp hi)
    token_inj := by
      intro i j hi hj heq
      rw [htoken hi, htoken hj] at heq
      exact h.token_inj i j ((halloc i).mp hi) ((halloc j).mp hj) heq
    zero := by
      intro x hx
      rw [hsame.dataStart, h.used_same hsame, hsame.params] at hx
      rw [hsame.file]
      exact h.zero x hx
    below := by
      intro i hi
      rw [hsame.dataStart, htoken hi, hsame.params]
      exact h.below i ((halloc i).mp hi) }

theorem WellFormed.disk_same (h : WellFormed im) (hsame : SameTable im im') : im'.disk = im.disk := by
  have hbase : im'.base = im.base := by
    funext i
    by_cases halloc : im.Allocated i
    · rw [base_of_allocated halloc, base_of_allocated ((h.allocated_same hsame i).mpr halloc),
        hsame.dataStart, h.token_same hsame halloc.1, hsame.params]
    · rw [base_of_not halloc, base_of_not (mt (h.allocated_same hsame i).mp halloc)]
  rw [Image.disk, Image.disk, hbase, hsame.params, hsame.file]

/-- **Opened again**, the image is the same. -/
theorem WellFormed.reopen (h : WellFormed im) (hmade : Made im.params im.dataOffset) :
    ∃ im', sparseImage im.params im.file false = some im' ∧ SameTable im im' := by
  obtain ⟨table, hconstruct⟩ := hmade
  refine ⟨Image.readTable ⟨im.params, im.dataOffset, table, im.file⟩, ?_, rfl, rfl, rfl, ?_⟩
  · rw [sparseImage, hconstruct]
    rfl
  · intro i hi
    rw [← h.stored i hi]
    apply place_of_getElem? _ (Nat.zero_le _)
    exact getElem?_slice _ _ hi

end Constructor

/-! ## Calls one after the other -/

/-- A call with the buffer of its caller; the image closed and opened again. -/
inductive Op
  | read (buffer : ℕ → UInt8) (offset length : ℕ)
  | write (data : List UInt8) (offset : ℕ)
  | reopen

inductive Outcome
  | thrown
  | done
  | filled (buffer : ℕ → UInt8)

def perform : Op → Image → Outcome × Image
  | .read buffer offset length, im =>
      match read buffer offset length im with
      | .ok filled im => (.filled filled, im)
      | .error _ im => (.thrown, im)
  | .write data offset, im =>
      match write data offset im with
      | .ok _ im => (.done, im)
      | .error _ im => (.thrown, im)
  | .reopen, im =>
      match sparseImage im.params im.file false with
      | some im => (.done, im)
      | none => (.thrown, im)

def run : List Op → Image → List Outcome × Image
  | [], im => ([], im)
  | op :: ops, im =>
      let first := perform op im
      let rest := run ops first.2
      (first.1 :: rest.1, rest.2)

/-- A call on a flat string of bytes. -/
def flatPerform : Op → (ℕ → UInt8) → Outcome × (ℕ → UInt8)
  | .read buffer offset length, disk => (.filled (place buffer 0 (slice disk offset length)), disk)
  | .write data offset, disk => (.done, place disk offset data)
  | .reopen, disk => (.done, disk)

def flatRun : List Op → (ℕ → UInt8) → List Outcome × (ℕ → UInt8)
  | [], disk => ([], disk)
  | op :: ops, disk =>
      let first := flatPerform op disk
      let rest := flatRun ops first.2
      (first.1 :: rest.1, rest.2)

/-- The call is inside the logic size. -/
def Op.Inside (p : Params) : Op → Prop
  | .read _ offset length => offset + length ≤ p.logicSize
  | .write data offset => offset + data.length ≤ p.logicSize
  | .reopen => True

/-- Where a part of a range begins, a read finds a block and a write an entry, with a place in the
file that 32 bits can hold. -/
def Op.Allowed (im : Image) : Op → Prop
  | .read _ offset length => ∀ x, offset ≤ x → x < offset + length →
      (x = offset ∨ im.params.blockSize ∣ x) → im.Readable x
  | .write data offset => ∀ x, offset ≤ x → x < offset + data.length →
      (x = offset ∨ im.params.blockSize ∣ x) → im.Writable (offset / im.params.blockSize) x
  | .reopen => True

/-- Every call of a run, in the state before it. -/
def Every (P : Image → Op → Prop) : List Op → Image → Prop
  | [], _ => True
  | op :: ops, im => P im op ∧ Every P ops (perform op im).2

/-- Blocks do not meet each other or the table. -/
structure Laid (im : Image) : Prop where
  apart : ∀ i j, im.Allocated i → im.Allocated j → i ≠ j →
    im.position (im.token i) 0 + im.params.blockSize ≤ im.position (im.token j) 0 ∨
      im.position (im.token j) 0 + im.params.blockSize ≤ im.position (im.token i) 0
  behind : ∀ i, im.Allocated i →
    im.params.headerOffset + im.dataOffset ≤ im.position (im.token i) 0

section Runs

variable {p : Params} {im : Image} {op : Op} {offset length : ℕ} {buffer disk : ℕ → UInt8}
  {data : List UInt8} {E : Unit → Image → Prop}

theorem WellFormed.laid (h : WellFormed im) : Laid im := by
  have hposition : ∀ {i}, im.Allocated i →
      im.position (im.token i) 0 = im.dataStart + im.token i * im.params.blockSize := fun hi =>
    position_eq (h.below _ hi)
  constructor
  · intro i j hi hj hne
    rw [hposition hi, hposition hj]
    exact h.apart (i + j + 1) i j _ _ (by omega) (by omega) hne (base_of_allocated hi)
      (base_of_allocated hj)
  · intro i hi
    rw [hposition hi]
    exact Nat.le_add_right _ _

/-- The numbers of the blocks of a range inside the image. -/
theorem WellFormed.span (h : WellFormed im) (hin : offset + length ≤ im.params.logicSize) :
    span im.params.blockSize offset length = some (spanOf im.params.blockSize offset length) :=
  span_eq (lt_of_le_of_lt (Nat.div_le_div_right hin) h.castable)

theorem sat_read (h : WellFormed im) (hin : (Op.read buffer offset length).Inside im.params)
    (hread : (Op.read buffer offset length).Allowed im) :
    Sat (read buffer offset length) im
      (fun b im' => b = place buffer 0 (slice im.disk offset length) ∧ im' = im) E := by
  simp only [read]
  apply Sat.get_bind
  rw [h.span hin]
  have hfirst : offset / im.params.blockSize ≤ (offset + length) / im.params.blockSize :=
    Nat.div_le_div_right (Nat.le_add_right _ _)
  refine sat_readBlocks h rfl hread (.first _ _ _) ?_
  simp only [spanOf]
  omega

theorem sat_write (h : WellFormed im) (hin : (Op.write data offset).Inside im.params)
    (hwrite : (Op.write data offset).Allowed im) :
    Sat (write data offset) im (fun _ im' => Stored im offset data im') E := by
  simp only [write]
  apply Sat.get_bind
  rw [h.span hin]
  have hfirst : offset / im.params.blockSize ≤ (offset + data.length) / im.params.blockSize :=
    Nat.div_le_div_right (Nat.le_add_right _ _)
  refine sat_writeBlocks h rfl hwrite (.first _ _ _) rfl ?_
  simp only [spanOf]
  omega

/-- The part of a range that a byte belongs to. -/
theorem exists_part {bs y : ℕ} (hbs : 0 < bs) (hle : offset ≤ y) :
    ∃ x, offset ≤ x ∧ x ≤ y ∧ (x = offset ∨ bs ∣ x) ∧ x / bs = y / bs := by
  rcases Nat.eq_or_lt_of_le (Nat.div_le_div_right (c := bs) hle) with heq | hlt
  · exact ⟨offset, Nat.le_refl _, hle, Or.inl rfl, heq⟩
  · refine ⟨y / bs * bs, ?_, Nat.div_mul_le_self y bs, Or.inr ⟨y / bs, Nat.mul_comm _ _⟩,
      Nat.mul_div_cancel _ hbs⟩
    have hnext := Nat.mul_le_mul_right bs (Nat.succ_le_of_lt hlt)
    rw [Nat.succ_mul] at hnext
    have hsplit := div_add_mod' offset bs
    have := Nat.mod_lt offset hbs
    omega

/-- Every byte of a range whose parts have entries is one of the blocks. -/
theorem lt_of_parts {bs n y : ℕ} (hbs : 0 < bs)
    (hparts : ∀ x, offset ≤ x → x < offset + length → (x = offset ∨ bs ∣ x) → x / bs < n)
    (hle : offset ≤ y) (hlt : y < offset + length) : y < n * bs := by
  obtain ⟨x, hx, hxy, hbegin, hblock⟩ := exists_part hbs hle
  have hy := hparts x hx (by omega) hbegin
  rw [hblock] at hy
  exact (Nat.div_lt_iff_lt_mul hbs).mp hy

/-- What one call keeps of an image that stands for `disk`. -/
structure Stands (p : Params) (entries : ℕ) (im : Image) (disk : ℕ → UInt8) : Prop where
  wellFormed : WellFormed im
  params : im.params = p
  made : Made p im.dataOffset
  size : im.indexTableSize = entries
  disk : ∀ x, x < entries * p.blockSize → im.disk x = disk x

variable {entries : ℕ}

/-- **One call.** -/
theorem perform_eq_flatPerform (h : Stands p entries im disk) (hin : op.Inside p)
    (hallowed : op.Allowed im) :
    (perform op im).1 = (flatPerform op disk).1 ∧
      Stands p entries (perform op im).2 (flatPerform op disk).2 := by
  have hwell := h.wellFormed
  rw [← h.params] at hin
  cases op with
  | read buffer offset length =>
      have hread : Sat (read buffer offset length) im
          (fun b im' => b = place buffer 0 (slice im.disk offset length) ∧ im' = im)
          fun _ _ => False := sat_read hwell hin hallowed
      obtain ⟨b, im', hok, rfl, rfl⟩ := hread.exists_ok fun _ _ h => h
      have hslice : slice im'.disk offset length = slice disk offset length := by
        apply slice_congr
        intro x hx hx'
        apply h.disk
        rw [← h.size, ← h.params]
        exact lt_of_parts hwell.blockSize_pos (fun y hy hy' hbegin =>
          (hallowed y hy hy' hbegin).1.1) hx hx'
      simp only [perform, flatPerform, hok, hslice]
      exact ⟨trivial, h⟩
  | write data offset =>
      have hwrite : Sat (write data offset) im (fun _ im' => Stored im offset data im')
          fun _ _ => False := sat_write hwell hin hallowed
      obtain ⟨_, im', hok, hstored⟩ := hwrite.exists_ok fun _ _ h => h
      simp only [perform, flatPerform, hok]
      refine ⟨trivial, hstored.wellFormed, hstored.shape.params.trans h.params, ?_,
        hstored.shape.size.trans h.size, ?_⟩
      · rw [hstored.shape.dataOffset]
        exact h.made
      · intro x hx
        rw [hstored.disk x (by rwa [h.size, h.params]), place, place, h.disk x hx]
  | reopen =>
      have hmade := h.made
      rw [← h.params] at hmade
      obtain ⟨im', hopen, hsame⟩ := hwell.reopen hmade
      simp only [perform, flatPerform, hopen]
      refine ⟨trivial, hwell.same hsame, hsame.params.trans h.params, ?_,
        (hwell.size_same hsame).trans h.size, ?_⟩
      · rw [hsame.dataOffset]
        exact h.made
      · rw [hwell.disk_same hsame]
        exact h.disk

/-- **A sparse image is a flat string of bytes** as long as a read finds every block of its range
and every place in the file is below 4 GB. -/
theorem run_eq_flatRun (p : Params) (file : ℕ → UInt8) (im : Image) (ops : List Op)
    (hcreate : sparseImage p file true = some im)
    (hblank : ∀ x, p.headerOffset ≤ x → file x = 0) (hin : ∀ op ∈ ops, op.Inside p)
    (hevery : Every (fun im op => op.Allowed im) ops im) :
    (run ops im).1 = (flatRun ops fun _ => 0).1 ∧ Laid (run ops im).2 := by
  have hgeneral (im : Image) (disk : ℕ → UInt8) (entries : ℕ) (h : Stands p entries im disk)
      (hall : Every (fun im op => op.Allowed im) ops im) :
      (run ops im).1 = (flatRun ops disk).1 ∧ WellFormed (run ops im).2 := by
    clear hcreate hevery
    induction ops generalizing im disk with
    | nil => exact ⟨rfl, h.wellFormed⟩
    | cons op ops ih =>
        obtain ⟨hone, hstands⟩ :=
          perform_eq_flatPerform h (hin op List.mem_cons_self) hall.1
        obtain ⟨hrest, hlast⟩ :=
          ih (fun o ho => hin o (List.mem_cons_of_mem op ho)) _ _ hstands hall.2
        simp only [run, flatRun, hone, hrest]
        exact ⟨trivial, hlast⟩
  obtain ⟨hwell, hmade, hparams, hzero⟩ := wellFormed_create hcreate hblank
  obtain ⟨houtcomes, hlast⟩ := hgeneral im (fun _ => 0) im.indexTableSize
    ⟨hwell, hparams, hmade, rfl, fun x _ => hzero x⟩ hevery
  exact ⟨houtcomes, hlast.laid⟩

end Runs

/-! ## An image of two blocks -/

/-- A sector per block. -/
def twoSectors : Params := ⟨0, 1024, 512, 512⟩

def emptyFile : ℕ → UInt8 := fun _ => 0

/-- A sector written, and read when the image was opened again. -/
def sectorOps : List Op :=
  [.write (List.replicate 512 7) 512, .reopen, .read emptyFile 512 512]

theorem run_eq_flatRun_sector :
    ∃ im, sparseImage twoSectors emptyFile true = some im ∧
      (run sectorOps im).1 = (flatRun sectorOps fun _ => 0).1 ∧ Laid (run sectorOps im).2 := by
  have hlength : (List.replicate 512 (7 : UInt8)).length = 512 := List.length_replicate
  have hcreate : ((sparseImage twoSectors emptyFile true).any fun im =>
      im.params.blockSize = 512 ∧ im.Writable 1 512 ∧
        (perform .reopen (perform (.write (List.replicate 512 7) 512) im).2).2.params.blockSize =
          512 ∧
        (perform .reopen (perform (.write (List.replicate 512 7) 512) im).2).2.Readable 512) =
      true := by
    decide +kernel
  obtain ⟨im, him, hfacts⟩ := (Option.any_eq_true _ _).mp hcreate
  obtain ⟨hbefore, hwritable, hafter, hreadable⟩ := of_decide_eq_true hfacts
  have hpart : ∀ x, 512 ≤ x → x < 512 + 512 → x = 512 ∨ 512 ∣ x → x = 512 := by omega
  refine ⟨im, him, run_eq_flatRun twoSectors emptyFile im sectorOps him (fun _ _ => rfl) ?_ ?_⟩
  · intro op hop
    rcases List.mem_cons.mp hop with rfl | hop
    · change 512 + (List.replicate 512 (7 : UInt8)).length ≤ 1024
      rw [hlength]
    · rcases List.mem_cons.mp hop with rfl | hop
      · trivial
      · rw [List.mem_singleton.mp hop]
        exact Nat.le_refl 1024
  · refine ⟨?_, trivial, ?_, trivial⟩
    · intro x hx hx' hbegin
      rw [hlength] at hx'
      rw [hbefore] at hbegin ⊢
      rw [hpart x hx hx' hbegin]
      exact hwritable
    · intro x hx hx' hbegin
      rw [hafter] at hbegin
      rw [hpart x hx hx' hbegin]
      exact hreadable

def Outcome.byte (i : ℕ) : Outcome → Option UInt8
  | .filled buffer => some (buffer i)
  | _ => none

/-- The second block is written, then both are read. -/
def holeOps : List Op := [.write (List.replicate 512 7) 512, .read emptyFile 0 1024]

/-- The bytes of the second block go where the ones of the first belong. -/
theorem not_run_eq_flatRun_hole :
    ¬ ∀ (p : Params) (file : ℕ → UInt8) (im : Image) (ops : List Op),
      sparseImage p file true = some im → (∀ x, p.headerOffset ≤ x → file x = 0) →
      (∀ op ∈ ops, op.Inside p) → (run ops im).1 = (flatRun ops fun _ => 0).1 := by
  intro h
  have hcreate : (sparseImage twoSectors emptyFile true).isSome := by decide +kernel
  obtain ⟨im, him⟩ := Option.isSome_iff_exists.mp hcreate
  have hrun := h twoSectors emptyFile im holeOps him (fun _ _ => rfl) (by
    intro op hop
    rcases List.mem_cons.mp hop with rfl | hop
    · change 512 + (List.replicate 512 (7 : UInt8)).length ≤ 1024
      rw [List.length_replicate]
    · rw [List.mem_singleton.mp hop]
      exact Nat.le_refl 1024)
  have hbytes : (sparseImage twoSectors emptyFile true).map
      (fun im => (run holeOps im).1.map (Outcome.byte 0)) = some [none, some 7] := by
    decide +kernel
  rw [him, Option.map_some, hrun] at hbytes
  revert hbytes
  decide +kernel

end KernelDrivers.CoreMnt.Sparse
