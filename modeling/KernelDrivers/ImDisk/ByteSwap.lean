import KernelDrivers.ImDisk.Parallel

/-!
# Byte-swapped devices

With `byte_swap` set, the image of a device holds the two bytes of every pair exchanged.  The device
thread swaps the bytes of a read behind it and those of a write in front of it, and the dispatch routine
those that it copies from the last-I/O buffer.  For a write the thread takes the length to swap from
`IoStatus.Information`, which nothing has set yet.

A device without parallel I/O, backed by a file or a proxy.

## Main definitions

* `byteSwapBuffer` — `ImDiskByteSwapBuffer`, with the bytes that it touches.
* `SwapDisk`, `Request` — the device, and a read or a write.
* `Request.mapped` — a pair of the disk as it is in the image.
* `RoundTrips` — every request leaves the right image and every read gets the right bytes.
* `Request.Swapped` — the bytes of a write that are not swapped come in equal pairs.

## Main results

* `bytes_byteSwapBuffer`, `mem_touched_byteSwapBuffer` — what the loop does.
* `right_iff` — when one request is right.
* `roundTrips_iff` — when the device does what it says.
-/

namespace KernelDrivers.ImDisk.ByteSwap

open LastIo.Device (written)
open Parallel (isBufferZero)

/-! ## The loop -/

/-- A buffer, with the offsets that have been read or written. -/
structure Memory where
  bytes : ℕ → UInt8
  touched : List ℕ

/-- One turn of the loop. -/
def swapPair (m : Memory) (ptr : ℕ) : Memory where
  bytes := fun i =>
    if i = ptr then m.bytes (ptr + 1) else if i = ptr + 1 then m.bytes ptr else m.bytes i
  touched := m.touched ++ [ptr + 1, ptr]

/-- `ImDiskByteSwapBuffer`: `ptr` is 0, 2, 4 and so on, as long as it is below `length`. -/
def byteSwapBuffer (m : Memory) (length : ℕ) : Memory :=
  (List.range' 0 ((length + 1) / 2) 2).foldl swapPair m

/-- The other byte of a pair. -/
def mate (i : ℕ) : ℕ := if i % 2 = 0 then i + 1 else i - 1

@[simp] theorem mate_mate (i : ℕ) : mate (mate i) = i := by
  simp only [mate]
  split <;> split <;> omega

/-- A byte behind an even offset. -/
theorem mate_add {first : ℕ} (heven : first % 2 = 0) (k : ℕ) : mate (first + k) = first + mate k := by
  simp only [mate]
  split <;> split <;> omega

theorem mate_lt_iff {n k : ℕ} (heven : n % 2 = 0) : mate k < n ↔ k < n := by
  simp only [mate]
  split <;> omega

/-- The turns of the loop. -/
theorem foldl_swapPair (m : Memory) (n : ℕ) :
    (∀ i, ((List.range' 0 n 2).foldl swapPair m).bytes i =
      if i < 2 * n then m.bytes (mate i) else m.bytes i) ∧
    ∀ p, p ∈ ((List.range' 0 n 2).foldl swapPair m).touched ↔ p ∈ m.touched ∨ p < 2 * n := by
  induction n with
  | zero => simp
  | succ n ih =>
      obtain ⟨hbytes, htouched⟩ := ih
      rw [List.range'_concat, List.foldl_append, List.foldl_cons, List.foldl_nil, zero_add]
      constructor
      · intro i
        simp only [swapPair, hbytes]
        by_cases hfirst : i = 2 * n
        · subst hfirst
          have hmate : mate (2 * n) = 2 * n + 1 := if_pos (by omega)
          rw [if_pos rfl, if_neg (by omega), if_pos (by omega), hmate]
        · by_cases hsecond : i = 2 * n + 1
          · subst hsecond
            have hmate : mate (2 * n + 1) = 2 * n := if_neg (by omega)
            rw [if_neg hfirst, if_pos rfl, if_neg (by omega), if_pos (by omega), hmate]
          · rw [if_neg hfirst, if_neg hsecond]
            by_cases hlt : i < 2 * n
            · rw [if_pos hlt, if_pos (by omega)]
            · rw [if_neg hlt, if_neg (by omega)]
      · intro p
        simp only [swapPair, List.mem_append, htouched, List.mem_cons, List.not_mem_nil, or_false, or_assoc]
        exact or_congr_right (by omega)

theorem bytes_byteSwapBuffer (m : Memory) (length i : ℕ) :
    (byteSwapBuffer m length).bytes i =
      if i < 2 * ((length + 1) / 2) then m.bytes (mate i) else m.bytes i :=
  (foldl_swapPair m _).1 i

theorem mem_touched_byteSwapBuffer (bytes : ℕ → UInt8) (length p : ℕ) :
    p ∈ (byteSwapBuffer ⟨bytes, []⟩ length).touched ↔ p < 2 * ((length + 1) / 2) := by
  rw [byteSwapBuffer, (foldl_swapPair ⟨bytes, []⟩ _).2]
  simp

/-- No byte from `length` on is read or written. -/
def StaysBelow (length : ℕ) : Prop :=
  ∀ bytes, ∀ p ∈ (byteSwapBuffer ⟨bytes, []⟩ length).touched, p < length

theorem staysBelow_iff {length : ℕ} : StaysBelow length ↔ length % 2 = 0 := by
  simp only [StaysBelow, mem_touched_byteSwapBuffer]
  constructor
  · intro h
    by_contra hodd
    have hlast := h (fun _ => 0) length (by omega)
    omega
  · intro heven _ p hp
    omega

/-! ## The device -/

/-- `last_io_data` with its marks. -/
structure LastIo where
  bytes : ℕ → UInt8
  offset : ℕ
  length : ℕ

/-- A device with `byte_swap` set.  The image starts at `image_offset`. -/
structure SwapDisk where
  useProxy : Bool
  proxyZero : Bool
  useSetZeroData : Bool
  image : ℕ → UInt8
  lastIo : Option LastIo

/-- A request inside the disk that succeeds. -/
inductive Request
  /-- `memory` is what the buffer of the caller holds before. -/
  | read (offset length : ℕ) (memory : ℕ → UInt8)
  /-- `information` is what `IoStatus.Information` holds when the thread gets the request, and
  `zeroed` says whether `FSCTL_SET_ZERO_DATA` succeeds. -/
  | write (offset length : ℕ) (data : ℕ → UInt8) (information : ℕ) (zeroed : Bool)

namespace SwapDisk

variable (s : SwapDisk)

/-- A device that has just been created. -/
def created (useProxy proxyZero useSetZeroData : Bool) (image : ℕ → UInt8) : SwapDisk :=
  ⟨useProxy, proxyZero, useSetZeroData, image, none⟩

/-- The test of `ImDiskDispatchReadWrite` for the last-I/O buffer. -/
def hit (offset length : ℕ) : Option LastIo :=
  s.lastIo.filter fun l => decide (l.offset ≤ offset ∧ offset + length ≤ l.offset + l.length)

/-- What the caller's buffer holds behind a read. -/
def answer (offset length : ℕ) (memory : ℕ → UInt8) : ℕ → UInt8 :=
  match s.hit offset length with
  | some l =>
      (byteSwapBuffer ⟨written memory 0 (fun k => l.bytes (offset + k - l.offset)) length, []⟩ length).bytes
  | none => (byteSwapBuffer ⟨written memory 0 (fun k => s.image (offset + k)) length, []⟩ length).bytes

/-- `ImDiskDeviceThreadRead`, or the dispatch routine for a hit. -/
def read (offset length : ℕ) : SwapDisk :=
  match s.hit offset length with
  | some _ => s
  | none => { s with lastIo := some ⟨fun k => s.image (offset + k), offset, length⟩ }

/-- `set_zero_data`. -/
def setZeroData (length : ℕ) (data : ℕ → UInt8) : Bool :=
  (s.useSetZeroData || (s.useProxy && s.proxyZero)) && isBufferZero data length

/-- `last_io_data` in front of the write. -/
def swapped (length : ℕ) (data : ℕ → UInt8) (information : ℕ) : ℕ → UInt8 :=
  if s.setZeroData length data then data else (byteSwapBuffer ⟨data, []⟩ information).bytes

/-- The range is zeroed, and not written. -/
def zeroes (length : ℕ) (data : ℕ → UInt8) (zeroed : Bool) : Bool :=
  s.setZeroData length data && if s.useProxy then s.proxyZero else zeroed

/-- What the range of the image holds behind the write. -/
def stored (length : ℕ) (data : ℕ → UInt8) (information : ℕ) (zeroed : Bool) : ℕ → UInt8 :=
  if s.zeroes length data zeroed then fun _ => 0 else s.swapped length data information

/-- `ImDiskDeviceThreadWrite`. -/
def write (offset length : ℕ) (data : ℕ → UInt8) (information : ℕ) (zeroed : Bool) : SwapDisk where
  useProxy := s.useProxy
  proxyZero := s.proxyZero
  useSetZeroData := s.useSetZeroData && (s.useProxy || !s.setZeroData length data || zeroed)
  image := written s.image offset (s.stored length data information zeroed) length
  lastIo := some ⟨s.swapped length data information, offset, length⟩

/-- The device behind a request; one of no bytes ends in the dispatch routine. -/
def serve : Request → SwapDisk
  | .read offset length _ => if length = 0 then s else s.read offset length
  | .write offset length data information zeroed =>
      if length = 0 then s else s.write offset length data information zeroed

end SwapDisk

/-! ## What the device is for -/

/-- The request starts and ends between two pairs. -/
def Request.Even : Request → Prop
  | .read offset length _ => offset % 2 = 0 ∧ length % 2 = 0
  | .write offset length _ _ _ => offset % 2 = 0 ∧ length % 2 = 0

/-- The contents of the disk behind a request. -/
def Request.after (disk : ℕ → UInt8) : Request → ℕ → UInt8
  | .read _ _ _ => disk
  | .write offset length data _ _ => written disk offset data length

/-- The image holds the disk, with the two bytes of every pair exchanged. -/
def Agrees (image disk : ℕ → UInt8) : Prop := ∀ a, image a = disk (mate a)

/-- A read gets what the disk holds. -/
def SwapDisk.Answers (s : SwapDisk) (disk : ℕ → UInt8) : Request → Prop
  | .read offset length memory => ∀ k < length, s.answer offset length memory k = disk (offset + k)
  | .write _ _ _ _ _ => True

/-- **The device round-trips**: every request of a list leaves the image as it should be, and every read
gets the data last written. -/
def RoundTrips : SwapDisk → (ℕ → UInt8) → List Request → Prop
  | _, _, [] => True
  | s, disk, r :: rs =>
      (Agrees (s.serve r).image (r.after disk) ∧ s.Answers disk r) ∧
        RoundTrips (s.serve r) (r.after disk) rs

/-! ## Requests -/

/-- The pairs of a write that are behind `information` have two equal bytes. -/
def Request.Swapped : Request → Prop
  | .read _ _ _ => True
  | .write _ length data information _ =>
      ∀ j, 2 * j < length → information ≤ 2 * j → data (2 * j) = data (2 * j + 1)

/-- The last-I/O buffer holds what the image holds, from an even offset on. -/
def SwapDisk.Coherent (s : SwapDisk) : Prop :=
  ∀ l, s.lastIo = some l → l.offset % 2 = 0 ∧ ∀ k < l.length, l.bytes k = s.image (l.offset + k)

section Requests

variable {s : SwapDisk} {disk : ℕ → UInt8} {offset length : ℕ} {data memory : ℕ → UInt8}

theorem written_of_lt {image bytes : ℕ → UInt8} {n k : ℕ} (h : k < n) :
    written image offset bytes n (offset + k) = bytes k := by
  rw [written, if_pos (by omega), Nat.add_sub_cancel_left]

theorem written_of_outside {image bytes : ℕ → UInt8} {n a : ℕ} (h : ¬ (offset ≤ a ∧ a < offset + n)) :
    written image offset bytes n a = image a := if_neg h

/-- Bytes of the image are swapped on their way to the caller. -/
theorem bytes_swap_image (hagrees : Agrees s.image disk) (hoffset : offset % 2 = 0)
    (hlength : length % 2 = 0) {bytes : ℕ → UInt8} (hbytes : ∀ k < length, bytes k = s.image (offset + k))
    {k : ℕ} (hk : k < length) :
    (byteSwapBuffer ⟨written memory 0 bytes length, []⟩ length).bytes k = disk (offset + k) := by
  have hmate := (mate_lt_iff hlength).mpr hk
  have hcopy : written memory 0 bytes length (mate k) = bytes (mate k) := by
    rw [← zero_add (mate k), written_of_lt hmate, zero_add]
  rw [bytes_byteSwapBuffer, if_pos (by omega)]
  change written memory 0 bytes length (mate k) = disk (offset + k)
  rw [hcopy, hbytes _ hmate, hagrees, mate_add hoffset, mate_mate]

theorem answers_of_coherent (hcoherent : s.Coherent) (hagrees : Agrees s.image disk)
    (hoffset : offset % 2 = 0) (hlength : length % 2 = 0) {k : ℕ} (hk : k < length) :
    s.answer offset length memory k = disk (offset + k) := by
  rw [SwapDisk.answer]
  cases hhit : s.hit offset length with
  | none => exact bytes_swap_image hagrees hoffset hlength (fun _ _ => rfl) hk
  | some l =>
      obtain ⟨hlast, hrange⟩ := Option.filter_eq_some_iff.mp hhit
      obtain ⟨hlow, hhigh⟩ := of_decide_eq_true hrange
      refine bytes_swap_image hagrees hoffset hlength (fun k hk => ?_) hk
      rw [(hcoherent l hlast).2 _ (by omega)]
      congr 1
      omega

/-- A write leaves the right image when it has stored the other byte of every pair. -/
theorem agrees_written_iff (hagrees : Agrees s.image disk) (hoffset : offset % 2 = 0)
    (hlength : length % 2 = 0) {bytes : ℕ → UInt8} :
    Agrees (written s.image offset bytes length) (written disk offset data length) ↔
      ∀ k < length, bytes k = data (mate k) := by
  constructor
  · intro h k hk
    have hbyte := h (offset + k)
    rwa [written_of_lt hk, mate_add hoffset, written_of_lt ((mate_lt_iff hlength).mpr hk)] at hbyte
  · intro h a
    by_cases hin : offset ≤ a ∧ a < offset + length
    · obtain ⟨k, rfl⟩ := Nat.exists_eq_add_of_le hin.1
      have hk : k < length := by omega
      rw [written_of_lt hk, mate_add hoffset, written_of_lt ((mate_lt_iff hlength).mpr hk)]
      exact h k hk
    · have hout : ¬ (offset ≤ mate a ∧ mate a < offset + length) := by
        simp only [mate]
        split <;> omega
      rw [written_of_outside hin, written_of_outside hout]
      exact hagrees a

/-- The loop swaps a whole write when what it leaves out comes in equal pairs. -/
theorem forall_bytes_swap_iff {information : ℕ} (hlength : length % 2 = 0) :
    (∀ k < length, (byteSwapBuffer ⟨data, []⟩ information).bytes k = data (mate k)) ↔
      ∀ j, 2 * j < length → information ≤ 2 * j → data (2 * j) = data (2 * j + 1) := by
  constructor
  · intro h j hj hinformation
    have hbyte := h (2 * j) hj
    have hmate : mate (2 * j) = 2 * j + 1 := if_pos (by omega)
    rwa [bytes_byteSwapBuffer, if_neg (by omega), hmate] at hbyte
  · intro h k hk
    rw [bytes_byteSwapBuffer]
    split
    · rfl
    · next hbehind =>
        have hpair := h (k / 2) (by omega) (by omega)
        rcases Nat.mod_two_eq_zero_or_one k with heven | hodd
        · have hfirst : 2 * (k / 2) = k := by omega
          rw [mate, if_pos heven]
          rwa [hfirst] at hpair
        · have hfirst : 2 * (k / 2) = k - 1 := by omega
          have hsecond : k - 1 + 1 = k := by omega
          rw [mate, if_neg (by omega)]
          rw [hfirst, hsecond] at hpair
          exact hpair.symm

theorem zero_of_setZeroData (h : s.setZeroData length data = true) {k : ℕ} (hk : k < length) : data k = 0 := by
  simp only [SwapDisk.setZeroData, isBufferZero, Bool.and_eq_true, List.all_eq_true, List.mem_range,
    beq_iff_eq] at h
  exact h.2.2 k hk

/-- What a write puts into the image is what it keeps in the last-I/O buffer. -/
theorem stored_eq {information : ℕ} {zeroed : Bool} {k : ℕ} (hk : k < length) :
    s.stored length data information zeroed k = s.swapped length data information k := by
  rw [SwapDisk.stored]
  cases hzeroes : s.zeroes length data zeroed with
  | false => rfl
  | true =>
      have hset : s.setZeroData length data = true := by
        rw [SwapDisk.zeroes, Bool.and_eq_true] at hzeroes
        exact hzeroes.1
      rw [if_pos rfl, SwapDisk.swapped, if_pos hset, zero_of_setZeroData hset hk]

theorem agrees_write_iff (hagrees : Agrees s.image disk) (hoffset : offset % 2 = 0)
    (hlength : length % 2 = 0) {information : ℕ} {zeroed : Bool} :
    Agrees (s.write offset length data information zeroed).image (written disk offset data length) ↔
      ∀ j, 2 * j < length → information ≤ 2 * j → data (2 * j) = data (2 * j + 1) := by
  have hagreement : Agrees (s.write offset length data information zeroed).image
      (written disk offset data length) ↔
        ∀ k < length, s.swapped length data information k = data (mate k) :=
    (agrees_written_iff hagrees hoffset hlength).trans
      (forall₂_congr fun k hk => by rw [stored_eq hk])
  rw [hagreement]
  cases hset : s.setZeroData length data with
  | false =>
      rw [SwapDisk.swapped, hset]
      exact forall_bytes_swap_iff hlength
  | true =>
      rw [SwapDisk.swapped, hset]
      refine iff_of_true (fun k hk => ?_) fun j hj _ => ?_
      · rw [if_pos rfl, zero_of_setZeroData hset hk, zero_of_setZeroData hset ((mate_lt_iff hlength).mpr hk)]
      · rw [zero_of_setZeroData hset hj, zero_of_setZeroData hset (by omega)]

end Requests

/-! ## A run -/

section Run

variable {s : SwapDisk} {disk : ℕ → UInt8} {r : Request}

theorem coherent_serve (hcoherent : s.Coherent) (heven : r.Even) : (s.serve r).Coherent := by
  cases r with
  | read offset length memory =>
      rw [SwapDisk.serve]
      split
      · exact hcoherent
      · rw [SwapDisk.read]
        split
        · exact hcoherent
        · intro l hl
          cases hl
          exact ⟨heven.1, fun _ _ => rfl⟩
  | write offset length data information zeroed =>
      rw [SwapDisk.serve]
      split
      · exact hcoherent
      · intro l hl
        cases hl
        exact ⟨heven.1, fun k hk => ((written_of_lt hk).trans (stored_eq hk)).symm⟩

/-- **One request** is right exactly when what it does not swap comes in equal pairs. -/
theorem right_iff (hcoherent : s.Coherent) (hagrees : Agrees s.image disk) (heven : r.Even) :
    (Agrees (s.serve r).image (r.after disk) ∧ s.Answers disk r) ↔ r.Swapped := by
  cases r with
  | read offset length memory =>
      have himage : (s.serve (.read offset length memory)).image = s.image := by
        rw [SwapDisk.serve]
        split
        · rfl
        · rw [SwapDisk.read]
          split <;> rfl
      rw [himage]
      exact iff_of_true
        ⟨hagrees, fun k hk => answers_of_coherent hcoherent hagrees heven.1 heven.2 hk⟩ trivial
  | write offset length data information zeroed =>
      rw [SwapDisk.serve, Request.after]
      split
      · next hzero =>
          subst hzero
          have hsame : written disk offset data 0 = disk := funext fun a => written_of_outside (by omega)
          rw [hsame]
          exact iff_of_true ⟨hagrees, trivial⟩ fun j hj => absurd hj (Nat.not_lt_zero _)
      · exact (and_iff_left trivial).trans (agrees_write_iff hagrees heven.1 heven.2)

theorem roundTrips_iff_of_coherent {rs : List Request} (hcoherent : s.Coherent)
    (hagrees : Agrees s.image disk) (heven : ∀ r ∈ rs, r.Even) :
    RoundTrips s disk rs ↔ ∀ r ∈ rs, r.Swapped := by
  induction rs generalizing s disk with
  | nil => simp [RoundTrips]
  | cons r rs ih =>
      have hr := heven r List.mem_cons_self
      have hrest : ∀ r ∈ rs, r.Even := fun r' hr' => heven r' (List.mem_cons_of_mem r hr')
      have hone := right_iff hcoherent hagrees hr
      rw [RoundTrips, List.forall_mem_cons, hone]
      refine and_congr_right fun hswapped => ?_
      exact ih (coherent_serve hcoherent hr) (hone.mpr hswapped).1 hrest

end Run

/-- **A byte-swapped device round-trips** exactly when every write leaves unswapped only what comes in
equal pairs; the loop stays below its length exactly when that is even. -/
theorem roundTrips_iff (useProxy proxyZero useSetZeroData : Bool) (image : ℕ → UInt8) {rs : List Request}
    (heven : ∀ r ∈ rs, r.Even) (length : ℕ) :
    (RoundTrips (.created useProxy proxyZero useSetZeroData image) (fun a => image (mate a)) rs ↔
      ∀ r ∈ rs, r.Swapped) ∧ (StaysBelow length ↔ length % 2 = 0) := by
  refine ⟨roundTrips_iff_of_coherent ?_ (fun a => ?_) heven, staysBelow_iff⟩
  · intro l hl
    cases hl
  · rw [mate_mate]
    rfl

/-- A write of one pair, with what the thread finds in `IoStatus.Information`, and a read of it. -/
def writeRead (information : ℕ) : List Request :=
  [.write 0 2 (fun k => if k = 0 then 1 else 2) information true, .read 0 2 fun _ => 0]

/-- A write whose length is in `IoStatus.Information` already. -/
theorem roundTrips_writeRead :
    RoundTrips (.created false false false fun _ => 0) (fun _ => 0) (writeRead 2) := by
  refine ((roundTrips_iff false false false (fun _ => 0) ?_ 2).1).mpr ?_
  · intro r hr
    fin_cases hr <;> exact ⟨rfl, rfl⟩
  · intro r hr
    fin_cases hr
    · intro j hj hinformation
      omega
    · trivial

/-- A write with nothing in `IoStatus.Information` goes to the image as it is, and a buffer of one byte is
swapped with the byte behind it. -/
theorem not_roundTrips_writeRead :
    ¬ RoundTrips (.created false false false fun _ => 0) (fun _ => 0) (writeRead 0) ∧ ¬ StaysBelow 1 := by
  constructor
  · rintro ⟨⟨himage, -⟩, -⟩
    exact absurd (himage 0) (by decide)
  · intro h
    exact absurd (h (fun _ => 0) 1 (by decide)) (by decide)

end KernelDrivers.ImDisk.ByteSwap
