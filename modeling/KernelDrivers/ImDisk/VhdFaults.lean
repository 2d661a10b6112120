import KernelDrivers.ImDisk.VhdSparse

/-!
# Writes that fail part way

A physical write to the image can fail with nothing or a part of its data written.  `vhd_write` puts
the entry of a new block into the table before it writes the block, and finds the end of the file by
its length.  When the block is not written, the next new block comes to the same place.

## Main definitions

* `Fault`, `PartFaults` — how the physical writes end.
* `vhdWriteWith` — the routine with such writes.
* `PartFaults.Harmless`, `Harmless` — an entry is written as a whole and with its block, or not at
  all.
* `Undamaged` — what a call leaves behind.

## Main results

* `vhdWriteWith_none` — without faults it is the routine of before.
* `sat_vhdWriteWith` — one call.
* `undamaged_run` — a run.
* `not_undamaged_run` — two blocks in one place.
-/

namespace KernelDrivers.ImDisk.Vhd

open KernelDrivers.Fat (ulong)

/-- How a physical write ends: well, with a smaller count, or with `-1`. -/
inductive Fault
  | none
  | short (count : ℕ)
  | failed (count : ℕ)

/-- How many of `n` bytes are written. -/
def Fault.written (n : ℕ) : Fault → ℕ
  | none => n
  | short count => min count n
  | failed count => min count n

/-- What the write of `n` bytes returns. -/
def Fault.result (n : ℕ) : Fault → ℤ
  | none => n
  | short count => (min count n : ℕ)
  | failed _ => -1

/-- The physical writes for the part of a range that is in one block. -/
structure PartFaults where
  entry : Fault
  block : Fault
  data : Fault
  bitmap : Fault

def PartFaults.none : PartFaults := ⟨.none, .none, .none, .none⟩

def physicalWriteWith (fault : Fault) (bs : List UInt8) (offset : ℤ) : VhdM ℤ := do
  if offset < 0 then
    return -1
  else
    modify fun f => f.write (bs.take (fault.written bs.length)) offset.toNat
    return fault.result bs.length

/-- The size of a new block with its bitmap and the footer. -/
def Info.newSize (v : Info) : ℕ := sectorSize + v.blockSize + footerSize

/-- Put a new block where the footer is. -/
def addBlockWith (v : Info) (io : PartFaults) (dataOffset : ℤ) : VhdM ℕ := do
  let f ← get
  if f.length < footerSize then throw ()
  let position := f.length - footerSize
  let entry := ntohl (ulong (position >>> sectorShift))
  let done ← physicalWriteWith io.entry (toBytes 4 entry) dataOffset
  if done ≠ 4 then throw ()
  let done ← physicalWriteWith io.block (List.replicate (sectorSize + v.blockSize) 0 ++ v.footer)
    position
  if done ≠ v.newSize then throw ()
  return entry

/-- Write to a block that is there, and set bits in its bitmap.  Only the count of the bits has to be
the full one. -/
def writeBlockWith (io : PartFaults) (entry : ℕ) (data : List UInt8) (inBlock : ℕ) : VhdM ℕ := do
  let done ← physicalWriteWith io.data data
    ((ntohl entry <<< sectorShift + sectorSize + inBlock : ℕ) : ℤ)
  if done = -1 then throw ()
  let bits ← physicalWriteWith io.bitmap (List.replicate (bitmapDatasize data.length) 0xFF)
    ((ntohl entry <<< sectorShift + inBlock >>> sectorShift >>> 3 : ℕ) : ℤ)
  if bits ≠ bitmapDatasize data.length then throw ()
  return done.toNat

/-- `vhd_write`, with the faults of the physical writes for each part of the range. -/
def vhdWriteWith (v : Info) : (fuel : ℕ) → (io : ℕ → PartFaults) → (data : List UInt8) →
    (offset : ℕ) → VhdM ℕ
  | 0, _, _, _ => throw ()
  | fuel + 1, io, data, offset => do
      if v.currentSize < (offset + data.length : ℕ) then
        return 0
      else
        let dataOffset := v.tableOffset + ((offset >>> v.blockShift) <<< 2 : ℕ)
        let first := v.firstSize data.length offset
        let entry ← physicalRead 4 dataOffset
        let done ←
          if ofBytes entry = noBlock then
            if ulong (first + 7) >>> 3 ≠ 0 then do
              let entry ← addBlockWith v (io 0) dataOffset
              writeBlockWith (io 0) entry (data.take first) (v.inBlock offset)
            else pure first
          else writeBlockWith (io 0) (ofBytes entry) (data.take first) (v.inBlock offset)
        if 0 < v.secondSize data.length offset then
          let rest ← vhdWriteWith v fuel (fun k => io (k + 1)) (data.drop first) (offset + first)
          return done + rest
        else
          return done

/-! ## Without faults -/

section None

variable {v : Info} {α : Type}

/-- A write without a fault in front of a caller that stops at `-1`. -/
theorem physicalWriteWith_none_bind (bs : List UInt8) (offset : ℤ) {k : ℤ → VhdM α}
    (hk : k (-1) = throw ()) :
    physicalWriteWith .none bs offset >>= k = physicalWrite bs offset >>= fun _ => k bs.length := by
  funext f
  change EStateM.bind _ _ f = EStateM.bind _ _ f
  by_cases hneg : offset < 0
  · have hwith : physicalWriteWith .none bs offset f = .ok (-1) f := by
      rw [physicalWriteWith, if_pos hneg]
      rfl
    have hwrite : physicalWrite bs offset f = .error () f := by
      rw [physicalWrite, if_pos hneg]
      rfl
    rw [EStateM.bind, EStateM.bind, hwith, hwrite]
    dsimp only
    rw [hk]
    rfl
  · have hwith : physicalWriteWith .none bs offset f = .ok (bs.length : ℤ) (f.write bs offset.toNat) := by
      rw [physicalWriteWith, if_neg hneg, Fault.written, Fault.result, List.take_length]
      rfl
    have hwrite : physicalWrite bs offset f = .ok ⟨⟩ (f.write bs offset.toNat) := by
      rw [physicalWrite, if_neg hneg]
      rfl
    rw [EStateM.bind, EStateM.bind, hwith, hwrite]

theorem writeBlockWith_none (entry : ℕ) (data : List UInt8) (inBlock : ℕ) :
    writeBlockWith .none entry data inBlock =
      (do writeBlock entry data inBlock; return data.length : VhdM ℕ) := by
  have hcount : ¬((data.length : ℤ) = -1) := by omega
  have hbits : ((List.replicate (bitmapDatasize data.length) (0xFF : UInt8)).length : ℤ) =
      bitmapDatasize data.length := by rw [List.length_replicate]
  rw [writeBlockWith, PartFaults.none, physicalWriteWith_none_bind _ _ (by rfl)]
  simp only [hcount, if_false]
  rw [physicalWriteWith_none_bind _ _ (by
    rw [if_pos (by omega)]
    rfl)]
  simp only [hbits, ne_eq, not_true_eq_false, if_false, writeBlock, bind_assoc, Int.toNat_natCast]

theorem addBlockWith_none (hfooter : v.footer.length = 512) (dataOffset : ℤ) :
    addBlockWith v .none dataOffset = addBlock v dataOffset := by
  have hsize (n : ℕ) : ((List.replicate n (0 : UInt8) ++ v.footer).length : ℤ) = n + footerSize := by
    rw [List.length_append, List.length_replicate, hfooter, footerSize]
    norm_num
  simp only [addBlockWith, addBlock, PartFaults.none]
  refine bind_congr fun f => ?_
  by_cases hlen : f.length < footerSize
  · rw [if_pos hlen, if_pos hlen]
    rfl
  · rw [if_neg hlen, if_neg hlen, physicalWriteWith_none_bind _ _ (by rfl)]
    refine bind_congr fun _ => ?_
    rw [length_toBytes, if_neg (by decide), physicalWriteWith_none_bind _ _ (by
      rw [if_pos (by omega)]
      rfl)]
    simp only [hsize, Info.newSize, Nat.cast_add, ne_eq, not_true_eq_false, if_false]

/-- **Without faults** it is the routine as it was. -/
theorem vhdWriteWith_none (hfooter : v.footer.length = 512) (fuel : ℕ) (data : List UInt8) (offset : ℕ) :
    vhdWriteWith v fuel (fun _ => .none) data offset = vhdWrite v fuel data offset := by
  induction fuel generalizing data offset with
  | zero => rfl
  | succ fuel ih =>
      have hfirst : (data.take (v.firstSize data.length offset)).length =
          v.firstSize data.length offset := by
        rw [List.length_take, min_eq_left]
        rw [Info.firstSize]
        split
        · rename_i hcross
          have hle : ulong (data.length + v.inBlock offset) ≤ data.length + v.inBlock offset :=
            Nat.mod_le _ _
          rw [Info.crosses] at hcross
          omega
        · exact le_refl _
      simp only [vhdWriteWith, vhdWrite, writeBlockWith_none, addBlockWith_none hfooter, ih, hfirst]
      split
      · rfl
      refine bind_congr fun entry => ?_
      split
      · split <;> simp only [bind_assoc, pure_bind]
      · simp only [bind_assoc, pure_bind]

end None

/-! ## Which faults do no harm -/

/-- The entry of a new block is written as a whole, and the block behind it, or nothing is. -/
def PartFaults.Harmless (io : PartFaults) (v : Info) : Prop :=
  if io.entry.result 4 = 4 then io.block.written v.newSize = v.newSize else io.entry.written 4 = 0

/-- The routine comes to the end of a part of `count` bytes, in a block that is there or not. -/
def PartFaults.GoesOn (io : PartFaults) (v : Info) (there : Prop) (count : ℕ) : Prop :=
  (there ∨ io.entry.result 4 = 4 ∧ io.block.result v.newSize = v.newSize) ∧
    io.data.result count ≠ -1 ∧ io.bitmap.result (bitmapDatasize count) = bitmapDatasize count

/-- The faults in a write of `n` bytes at `first`, part by part for so many parts, do no harm. -/
def Harmless (v : Info) (f : File) (s : ℕ) : ℕ → (ℕ → PartFaults) → ℕ → ℕ → Prop
  | 0, _, _, _ => True
  | fuel + 1, io, n, first => 0 < n →
      (f.start (first / 2 ^ s) = none → (io 0).Harmless v) ∧
        ((io 0).GoesOn v (f.start (first / 2 ^ s) ≠ none) (min n (2 ^ s - first % 2 ^ s)) →
          Harmless v f s fuel (fun k => io (k + 1)) (n - min n (2 ^ s - first % 2 ^ s))
            (first + min n (2 ^ s - first % 2 ^ s)))

/-! ## One call -/

section Call

variable {f f' f'' : File} {v : Info} {s i n p q first fuel : ℕ} {bs data : List UInt8} {fault : Fault}
  {io : PartFaults}

theorem Fault.written_le (fault : Fault) (n : ℕ) : fault.written n ≤ n := by
  cases fault with
  | none => exact le_refl n
  | short k => exact min_le_right k n
  | failed k => exact min_le_right k n

theorem Fault.result_eq (h : fault.result n ≠ -1) : fault.result n = fault.written n := by
  cases fault with
  | none => rfl
  | short k => rfl
  | failed k => exact absurd rfl h

theorem sat_physicalWriteWith {E : Unit → File → Prop} {offset : ℤ} (h : offset = (p : ℕ)) :
    Sat (physicalWriteWith fault bs offset) f (fun r f' => r = fault.result bs.length ∧
      f' = f.write (bs.take (fault.written bs.length)) p) E := by
  subst h
  simp only [physicalWriteWith]
  rw [if_neg (by omega)]
  exact ⟨rfl, rfl⟩

/-- A part of the data, and some of the bits. -/
theorem sat_writeBlockWith (h : WellFormed f s) (hi : i < f.entries) (hp : f.start i = some p)
    (he : 512 * ntohl q = p) (hfits : n + data.length ≤ 2 ^ s) (hbitmap : BitmapFits n data.length) :
    Sat (writeBlockWith io q data n) f
      (fun r f' => r ≤ data.length ∧ Stored f s (i * 2 ^ s + n) (data.take r) f' ∧ SameBlocks f f' ∧
        io.data.result data.length ≠ -1 ∧
        io.bitmap.result (bitmapDatasize data.length) = bitmapDatasize data.length)
      (fun _ f' => ∃ k, Stored f s (i * 2 ^ s + n) (data.take k) f') := by
  subst he
  have hdata : f.Inside (512 * ntohl q + 512 + n)
      (data.take (io.data.written data.length)).length := by
    rw [Nat.add_assoc]
    exact h.inside_part hi hp (by have := List.length_take_le' (io.data.written data.length) data; omega)
  simp only [writeBlockWith]
  refine Sat.bind (sat_physicalWriteWith (by rw [shiftLeft_sectorShift, sectorSize])) ?_
  rintro _ f₁ ⟨rfl, hf₁⟩
  obtain ⟨h₁, hsame₁⟩ := h.sameBlocks_write hdata
  have hdisk (x : ℕ) (hx : x < f.entries * 2 ^ s) : f₁.disk x =
      place f.disk (i * 2 ^ s + n) (data.take (io.data.written data.length)) x := by
    rw [hf₁]
    exact h.disk_write_data hi hp
      (by have := List.length_take_le' (io.data.written data.length) data; omega) hx
  rw [← hf₁] at h₁ hsame₁
  have hstored : Stored f s (i * 2 ^ s + n) (data.take (io.data.written data.length)) f₁ :=
    ⟨h₁, hsame₁.head, hdisk⟩
  split
  · exact ⟨_, hstored⟩
  rename_i hdone
  rw [shiftLeft_sectorShift, shiftRight_sectorShift, Nat.shiftRight_eq_div_pow]
  refine Sat.bind (sat_physicalWriteWith rfl) ?_
  rintro _ f₂ ⟨rfl, hf₂⟩
  rw [List.length_replicate, List.take_replicate] at hf₂
  have hcount := io.bitmap.written_le (bitmapDatasize data.length)
  rw [min_eq_left hcount] at hf₂
  have hbits : n / 512 / 2 ^ 3 + (List.replicate (io.bitmap.written (bitmapDatasize data.length))
      (0xFF : UInt8)).length ≤ 512 := by
    rw [BitmapFits] at hbitmap
    rw [List.length_replicate]
    omega
  have hi₁ : i < f₁.entries := by rwa [hsame₁.head.entries]
  have hp₁ := (hsame₁.start i hi).trans hp
  obtain ⟨h₂, hsame₂⟩ := h₁.sameBlocks_write
    (h₁.inside_part hi₁ hp₁ (hbits.trans (Nat.le_add_right _ _)))
  have hdisk₂ (x : ℕ) (hx : x < f.entries * 2 ^ s) : f₂.disk x = f₁.disk x := by
    rw [hf₂]
    exact h₁.disk_write_bitmap hi₁ hp₁ hbits (by rwa [hsame₁.head.entries])
  rw [← hf₂] at h₂ hsame₂
  have hstored₂ : Stored f s (i * 2 ^ s + n) (data.take (io.data.written data.length)) f₂ :=
    ⟨h₂, hsame₁.head.trans hsame₂.head, fun x hx => (hdisk₂ x hx).trans (hdisk x hx)⟩
  split
  · exact ⟨_, hstored₂⟩
  · rename_i hall
    rw [List.length_replicate] at hall
    have hresult := Fault.result_eq hdone
    refine Sat.pure ⟨?_, ?_, hsame₁.trans hsame₂, hdone, not_not.mp hall⟩
    · rw [hresult, Int.toNat_natCast]
      exact io.data.written_le _
    · rwa [hresult, Int.toNat_natCast]

/-- A new block, or nothing. -/
theorem sat_addBlockWith (h : WellFormed f s) (hv : v.For f s) (hi : i < f.entries)
    (hroom : (f.length - 512) / 512 < noBlock) (hio : io.Harmless v) {offset : ℤ}
    (hoffset : offset = ((f.table + 4 * i : ℕ) : ℤ)) :
    Sat (addBlockWith v io offset) f
      (fun e f' => e = ntohl ((f.length - 512) / 512) ∧ f' = f.extend s i ∧
        io.entry.result 4 = 4 ∧ io.block.result v.newSize = v.newSize)
      (fun _ f' => f' = f ∨ f' = f.extend s i) := by
  have hle := h.table_le
  have hsmall : ulong ((f.length - 512) / 512) = (f.length - 512) / 512 := by
    rw [noBlock] at hroom
    exact Nat.mod_eq_of_lt (by omega)
  have hsize : (List.replicate (sectorSize + v.blockSize) (0 : UInt8) ++ v.footer).length =
      v.newSize := by
    rw [List.length_append, List.length_replicate, hv.footer, length_slice, Info.newSize, footerSize]
  simp only [addBlockWith]
  apply Sat.get_bind
  rw [if_neg (by rw [footerSize]; omega)]
  refine Sat.bind (sat_physicalWriteWith hoffset) ?_
  rintro _ f₁ ⟨rfl, hf₁⟩
  rw [length_toBytes] at hf₁ ⊢
  rw [PartFaults.Harmless] at hio
  split
  · rename_i hshort
    rw [if_neg hshort] at hio
    rw [hio, List.take_zero, File.write_nil] at hf₁
    exact .inl hf₁
  rename_i hentry
  have hentry' : io.entry.result 4 = 4 := not_not.mp hentry
  have hwritten : io.entry.written 4 = 4 := by
    have := Fault.result_eq (show io.entry.result 4 ≠ -1 by rw [hentry']; decide)
    rw [hentry'] at this
    exact_mod_cast this.symm
  rw [if_pos hentry'] at hio
  rw [hwritten, List.take_of_length_le (by rw [length_toBytes])] at hf₁
  refine Sat.bind (sat_physicalWriteWith rfl) ?_
  rintro _ f₂ ⟨rfl, hf₂⟩
  rw [hsize, hio, ← hsize, List.take_length] at hf₂
  have hextend : f₂ = f.extend s i := by
    rw [hf₂, hf₁, File.extend, footerSize, shiftRight_sectorShift, hsmall, hv.blockSize, hv.footer,
      sectorSize]
  rw [hsize]
  split
  · exact .inr hextend
  · rename_i hall
    refine Sat.pure ⟨?_, hextend, hentry', not_not.mp hall⟩
    rw [footerSize, shiftRight_sectorShift, hsmall]

theorem stored_refl (h : WellFormed f s) (first : ℕ) : Stored f s first [] f :=
  ⟨h, ⟨fun _ _ _ => rfl⟩, fun x _ => by rw [place_nil]⟩

/-- The block is there. -/
theorem sat_part_some_with (h : WellFormed f s) (hi : first / 2 ^ s < f.entries)
    (hsome : f.entry (first / 2 ^ s) ≠ noBlock) (hfits : first % 2 ^ s + data.length ≤ 2 ^ s)
    (hbitmap : BitmapFits (first % 2 ^ s) data.length) :
    Sat (writeBlockWith io (f.entry (first / 2 ^ s)) data (first % 2 ^ s)) f
      (fun r f' => r ≤ data.length ∧ PartDone f s first (data.take r) f' ∧
        io.GoesOn v (f.start (first / 2 ^ s) ≠ none) data.length)
      (fun _ f' => ∃ k, Stored f s first (data.take k) f') := by
  have hstart : f.start (first / 2 ^ s) = some (512 * ntohl (f.entry (first / 2 ^ s))) := by
    rw [File.start, if_neg hsome]
  refine (sat_writeBlockWith h hi hstart rfl hfits hbitmap).mono ?_ ?_
  · rintro r f' ⟨hr, hstored, hsame, hdata, hbits⟩
    rw [div_mul_add_mod] at hstored
    refine ⟨hr, ⟨hstored, fun j hj _ => hsame.start j hj, ?_⟩, .inl (by simp [hstart]), hdata, hbits⟩
    rw [hsame.length, hstart]
    rfl
  · rintro _ f' ⟨k, hstored⟩
    rw [div_mul_add_mod] at hstored
    exact ⟨k, hstored⟩

/-- The block is not there yet. -/
theorem sat_part_none_with (h : WellFormed f s) (hv : v.For f s) (hi : first / 2 ^ s < f.entries)
    (hnone : f.entry (first / 2 ^ s) = noBlock) (hfits : first % 2 ^ s + data.length ≤ 2 ^ s)
    (hbitmap : BitmapFits (first % 2 ^ s) data.length)
    (hroom : (f.length - 512) / 512 < noBlock) (hio : io.Harmless v) {offset : ℤ}
    (hoffset : offset = ((f.table + 4 * (first / 2 ^ s) : ℕ) : ℤ)) :
    Sat (do
        let entry ← addBlockWith v io offset
        writeBlockWith io entry data (first % 2 ^ s) : VhdM ℕ) f
      (fun r f' => r ≤ data.length ∧ PartDone f s first (data.take r) f' ∧
        io.GoesOn v (f.start (first / 2 ^ s) ≠ none) data.length)
      (fun _ f' => ∃ k, Stored f s first (data.take k) f') := by
  have hempty : f.start (first / 2 ^ s) = none := by rw [File.start, if_pos hnone]
  have hwell := h.extend hi hroom
  have hsame := h.sameHead_extend (i := first / 2 ^ s)
  have hnew := h.start_extend_self hi hroom
  have hlength := h.length_extend hi
  have hother (j : ℕ) (hj : j < f.entries) (hne : j ≠ first / 2 ^ s) := h.start_extend_of_ne hj hne
  have hdisk (x : ℕ) (hx : x < f.entries * 2 ^ s) := h.disk_extend hi hempty hroom hx
  have hsector : 512 * ntohl (ntohl ((f.length - 512) / 512)) = f.length - 512 := by
    rw [ntohl_ntohl (by rw [noBlock] at hroom; omega)]
    exact Nat.mul_div_cancel' (Nat.dvd_sub h.sectors (Nat.dvd_refl 512))
  refine Sat.bind ((sat_addBlockWith h hv hi hroom hio hoffset).mono (fun _ _ h => h) ?_) ?_
  · intro _ f' hf'
    refine ⟨0, ?_⟩
    rw [List.take_zero]
    rcases hf' with rfl | rfl
    · exact stored_refl h first
    · exact ⟨hwell, hsame, fun x hx => by rw [place_nil, hdisk x hx]⟩
  rintro _ g ⟨rfl, hg, hentry, hblock⟩
  rw [← hg] at hwell hsame hnew hlength hother hdisk
  have hi' : first / 2 ^ s < g.entries := lt_of_lt_of_eq hi hsame.entries.symm
  have hback {bs : List UInt8} {f' : File} (hstored : Stored g s first bs f') : Stored f s first bs f' := by
    refine ⟨hstored.wellFormed, hsame.trans hstored.sameHead, fun x hx => ?_⟩
    rw [hstored.disk x (by rwa [hsame.entries]), place, place, hdisk x hx]
  refine (sat_writeBlockWith hwell hi' hnew hsector hfits hbitmap).mono ?_ ?_
  · rintro r f' ⟨hr, hstored, hblocks, hdata, hbits⟩
    rw [div_mul_add_mod] at hstored
    refine ⟨hr, ⟨hback hstored, fun j hj hne => ?_, ?_⟩, .inr ⟨hentry, hblock⟩, hdata, hbits⟩
    · rw [hblocks.start j (by rwa [hsame.entries]), hother j hj hne]
    · rw [hblocks.length, hlength, if_pos hempty]
  · rintro _ f' ⟨k, hstored⟩
    rw [div_mul_add_mod] at hstored
    exact ⟨k, hback hstored⟩

/-- No bytes are written to a block that may not even be there. -/
theorem sat_writeBlockWith_nil (e q : ℕ) :
    Sat (writeBlockWith io e [] q) f (fun r f' => r = 0 ∧ f' = f) (fun _ f' => f' = f) := by
  have hnone : bitmapDatasize ([] : List UInt8).length = 0 := by decide
  simp only [writeBlockWith, hnone, List.replicate_zero]
  refine Sat.bind (sat_physicalWriteWith rfl) ?_
  rintro _ f₁ ⟨rfl, hf₁⟩
  rw [List.take_nil, File.write_nil] at hf₁
  split
  · exact hf₁
  rename_i hdone
  refine Sat.bind (sat_physicalWriteWith rfl) ?_
  rintro _ f₂ ⟨rfl, hf₂⟩
  rw [List.take_nil, File.write_nil, hf₁] at hf₂
  split
  · exact hf₂
  · refine Sat.pure ⟨?_, hf₂⟩
    have hle := io.data.written_le 0
    rw [Fault.result_eq hdone, Int.toNat_natCast]
    exact Nat.le_zero.mp hle

/-- What holds behind every call. -/
structure After (f : File) (s first n : ℕ) (f' : File) : Prop where
  wellFormed : WellFormed f' s
  sameHead : SameHead f f'
  kept : ∀ x < f.entries * 2 ^ s, x < first ∨ first + n ≤ x → f'.disk x = f.disk x

theorem Stored.after (h : Stored f s first (data.take n) f') : After f s first data.length f' := by
  refine ⟨h.wellFormed, h.sameHead, fun x hx hout => ?_⟩
  rw [h.disk x hx]
  rcases hout with hlt | hge
  · exact place_of_lt _ _ hlt
  · refine place_of_le _ (le_trans ?_ hge)
    have := List.length_take_le' n data
    omega

/-- The rest of a call, behind a part of it. -/
theorem Stored.after_rest {k : ℕ} (h : Stored f s first (data.take n) f')
    (h' : After f' s (first + k) (data.length - k) f'') (hk : k ≤ data.length) :
    After f s first data.length f'' := by
  have hfirst := h.after
  refine ⟨h'.wellFormed, hfirst.sameHead.trans h'.sameHead, fun x hx hout => ?_⟩
  rw [h'.kept x (by rwa [hfirst.sameHead.entries]) (by omega), hfirst.kept x hx hout]

/-- Only the blocks of the range matter. -/
theorem harmless_congr (hsame : ∀ j, first / 2 ^ s ≤ j → j * 2 ^ s < first + n → f'.start j = f.start j)
    {io : ℕ → PartFaults} (h : Harmless v f s fuel io n first) : Harmless v f' s fuel io n first := by
  induction fuel generalizing io n first with
  | zero => exact trivial
  | succ fuel ih =>
      intro hn
      obtain ⟨hpart, hrest⟩ := h hn
      have hfirst : f'.start (first / 2 ^ s) = f.start (first / 2 ^ s) := by
        refine hsame _ (le_refl _) ?_
        have := Nat.div_mul_le_self first (2 ^ s)
        omega
      rw [hfirst]
      refine ⟨hpart, fun hgoes => ih (fun j hle hlt => hsame j (le_trans ?_ hle) (by omega)) (hrest hgoes)⟩
      exact Nat.div_le_div_right (Nat.le_add_right _ _)

/-- **One call.**  Its faults leave the image well formed and the other bytes as they were, and when
it returns its size the data are stored. -/
theorem sat_vhdWriteWith (h : WellFormed f s) (hv : v.For f s) (hin : first + data.length ≤ f.size)
    (hwrap : data.length + first % 2 ^ s < 2 ^ 32) (hbitmap : BitmapsFit s first data.length)
    (hroom : f.Room s first data.length) (hfuel : data.length < fuel) {io : ℕ → PartFaults}
    (hio : Harmless v f s fuel io data.length first) :
    Sat (vhdWriteWith v fuel io data first) f
      (fun r f' => r ≤ data.length ∧ After f s first data.length f' ∧
        (r = data.length → Stored f s first data f'))
      (fun _ f' => After f s first data.length f') := by
  induction fuel generalizing f data first io with
  | zero => omega
  | succ fuel ih =>
      obtain ⟨hfirst, hsecond⟩ := hv.parts h.shift_lt hwrap
      have hpos := Nat.two_pow_pos s
      have hmod := Nat.mod_lt first hpos
      have hrange : ¬ v.currentSize < (first + data.length : ℕ) := by
        rw [hv.currentSize]
        omega
      have hentry := hv.entry_place first
      rw [Harmless] at hio
      generalize hk : min data.length (2 ^ s - first % 2 ^ s) = k at hfirst hsecond hio
      have htake : (data.take k).length = k := by
        rw [List.length_take]
        omega
      -- what is left goes into the blocks behind
      have htail {r : ℕ} {f' : File} (hn : 0 < data.length) (hr : r ≤ (data.take k).length)
          (hdone : PartDone f s first ((data.take k).take r) f')
          (hgoes : (io 0).GoesOn v (f.start (first / 2 ^ s) ≠ none) k) :
          Sat (if 0 < data.length - k then do
              let rest ← vhdWriteWith v fuel (fun k => io (k + 1)) (data.drop k) (first + k)
              return r + rest
            else return r : VhdM ℕ) f'
            (fun r f' => r ≤ data.length ∧ After f s first data.length f' ∧
              (r = data.length → Stored f s first data f'))
            (fun _ f' => After f s first data.length f') := by
        have hsame := hdone.stored.sameHead
        have hstored := hdone.stored
        rw [htake] at hr
        rw [List.take_take, min_eq_left hr] at hstored
        split
        · rename_i hmore
          obtain rfl : k = 2 ^ s - first % 2 ^ s := by omega
          have hnext : (first + (2 ^ s - first % 2 ^ s)) % 2 ^ s = 0 := by
            rw [next_block]
            exact Nat.mul_mod_left _ _
          have hrest : (data.drop (2 ^ s - first % 2 ^ s)).length =
              data.length - (2 ^ s - first % 2 ^ s) := List.length_drop
          have hbits : BitmapsFit s (first + (2 ^ s - first % 2 ^ s))
              (data.length - (2 ^ s - first % 2 ^ s)) := by
            intro x hle hlt hx
            have hdvd : 2 ^ s ∣ x := by
              rcases hx with rfl | hdvd
              · exact Nat.dvd_of_mod_eq_zero hnext
              · exact hdvd
            have := hbitmap x (by omega) (by omega) (.inr hdvd)
            rwa [show first + (2 ^ s - first % 2 ^ s) + (data.length - (2 ^ s - first % 2 ^ s)) - x =
              first + data.length - x by omega]
          have hroom' := h.room_rest hin (by omega) hroom hdone.other hdone.length
          have hharmless : Harmless v f' s fuel (fun k => io (k + 1))
              (data.length - (2 ^ s - first % 2 ^ s)) (first + (2 ^ s - first % 2 ^ s)) := by
            refine harmless_congr (fun j hle hlt => ?_) ((hio hn).2 hgoes)
            have hcovers := h.covers
            have hblock : first / 2 ^ s < j := by
              rwa [next_block, Nat.mul_div_cancel _ hpos] at hle
            refine hdone.other j ?_ (Nat.ne_of_gt hblock)
            exact lt_of_mul_lt_mul_right (by omega) (Nat.zero_le (2 ^ s))
          refine Sat.bind ((ih hdone.stored.wellFormed (hv.same hsame) ?_ ?_ ?_ ?_ ?_ ?_).mono
            (fun _ _ h => h) ?_) ?_
          · rw [hrest, hsame.size]
            omega
          · rw [hrest, hnext]
            omega
          · rwa [hrest]
          · rwa [hrest]
          · rw [hrest]
            omega
          · rwa [hrest]
          · intro _ f'' hafter
            rw [hrest] at hafter
            exact hstored.after_rest hafter (by omega)
          · rintro r' f'' ⟨hr', hafter, hall⟩
            rw [hrest] at hr' hafter hall
            refine Sat.pure ⟨by omega, hstored.after_rest hafter (by omega), fun htotal => ?_⟩
            obtain rfl : r = 2 ^ s - first % 2 ^ s := by omega
            have hboth := hstored.trans (show Stored f' s (first +
              (data.take (2 ^ s - first % 2 ^ s)).length) _ f'' by
                rw [htake]
                exact hall (by omega))
            rwa [List.take_append_drop] at hboth
        · rename_i hall
          obtain rfl : k = data.length := by omega
          refine Sat.pure ⟨hr, hstored.after, fun htotal => ?_⟩
          rwa [htotal, List.take_length] at hstored
      have herror {f' : File} (hpart : ∃ j, Stored f s first ((data.take k).take j) f') :
          After f s first data.length f' := by
        obtain ⟨j, hstored⟩ := hpart
        rw [List.take_take] at hstored
        exact hstored.after
      simp only [vhdWriteWith, hfirst, hsecond, hv.blockShift, hv.inBlock h.shift_lt]
      rw [if_neg hrange]
      refine Sat.bind (sat_physicalRead hentry) ?_
      rintro _ f' ⟨rfl, rfl⟩
      rcases Nat.eq_zero_or_pos data.length with hzero | hn
      · obtain rfl := List.length_eq_zero_iff.mp hzero
        obtain rfl : k = 0 := by simpa using hk.symm
        have hsame : After f' s first ([] : List UInt8).length f' :=
          ⟨h, ⟨fun _ _ _ => rfl⟩, fun _ _ _ => rfl⟩
        change Sat (if f'.entry (first / 2 ^ s) = noBlock then _ else _) _ _ _
        split
        · rw [if_neg (by decide)]
          exact Sat.pure ⟨le_refl _, hsame, fun _ => stored_refl h first⟩
        · refine Sat.bind ((sat_writeBlockWith_nil _ _).mono (fun _ _ h => h) ?_) ?_
          · rintro _ _ rfl
            exact hsame
          · rintro _ _ ⟨rfl, rfl⟩
            exact Sat.pure ⟨le_refl _, hsame, fun _ => stored_refl h first⟩
      have hcovers := h.covers
      have hi : first / 2 ^ s < f'.entries := lt_entries (by omega)
      have hbits : BitmapFits (first % 2 ^ s) (data.take k).length := by
        have := hbitmap first (Nat.le_refl _) (by omega) (.inl rfl)
        rwa [Nat.add_sub_cancel_left, hk, ← htake] at this
      have hstart : f'.start (first / 2 ^ s) = if f'.entry (first / 2 ^ s) = noBlock then none
          else some (512 * ntohl (f'.entry (first / 2 ^ s))) := rfl
      change Sat (if f'.entry (first / 2 ^ s) = noBlock then _ else _) _ _ _
      split
      · rename_i hnone
        rw [if_pos hnone] at hstart
        have hqwords : ulong (k + 7) >>> 3 ≠ 0 := by
          have hk32 : 2 ^ s ≤ 2 ^ 31 :=
            Nat.pow_le_pow_right (by decide) (by have := h.shift_lt; omega)
          rw [ulong, Nat.mod_eq_of_lt (by omega), Nat.shiftRight_eq_div_pow]
          omega
        have hroom₀ : (f'.length - 512) / 512 < noBlock := by
          have hmissing : ¬f'.Present s first data.length := by
            rw [present_iff hn]
            exact fun hthere => hthere.1 hstart
          simp only [File.Present, not_forall, not_not] at hmissing
          obtain ⟨j, hj, hnone⟩ := hmissing
          have hfresh : 0 < f'.fresh s first data.length :=
            List.countP_pos_iff.mpr ⟨j, hj, by simpa using hnone⟩
          have := hroom 0 hfresh
          rwa [Nat.zero_mul, Nat.add_zero] at this
        rw [if_pos hqwords]
        have hpart := (sat_part_none_with h hv hi hnone (by omega) hbits hroom₀ ((hio hn).1 hstart)
          hentry).mono (fun _ _ h => h) fun _ _ hpart => herror hpart
        rw [htake] at hpart
        have hall := Sat.bind hpart fun r f₁ hdone =>
          htail hn (by rw [htake]; exact hdone.1) hdone.2.1 hdone.2.2
        rwa [bind_assoc] at hall
      · rename_i hthere
        refine Sat.bind ((sat_part_some_with (v := v) h hi hthere (by omega) hbits).mono
          (fun _ _ h => h) fun _ _ hpart => herror hpart) fun r f₁ hdone =>
            htail hn hdone.1 hdone.2.1 ?_
        have hgoes := hdone.2.2
        rwa [htake] at hgoes

end Call

/-! ## Calls one after the other -/

structure Call where
  data : List UInt8
  offset : ℕ
  io : ℕ → PartFaults

/-- The number of bytes that the call returns, unless it fails. -/
def Call.perform (v : Info) (c : Call) (f : File) : Option ℕ × File :=
  match vhdWriteWith v (c.data.length + 1) c.io c.data c.offset f with
  | .ok r f => (some r, f)
  | .error _ f => (none, f)

/-- No two blocks overlap, every read outside of the range gives what it gave before, and when the
call returned its size a read of the range gives the data. -/
structure Undamaged (v : Info) (s : ℕ) (c : Call) (f : File) (done : Option ℕ × File) : Prop where
  apart : Apart (512 + 2 ^ s) f.entries done.2.start
  kept : ∀ ioPtr n first, n < 2 ^ 31 → first + n ≤ f.size →
    first + n ≤ c.offset ∨ c.offset + c.data.length ≤ first →
    ∃ r, vhdRead v (n + 1) ioPtr 0 n first f = .ok r f ∧
      vhdRead v (n + 1) ioPtr 0 n first done.2 = .ok r done.2
  stored : done.1 = some c.data.length → c.data.length < 2 ^ 31 →
    c.offset + c.data.length ≤ f.size → ∀ ioPtr,
    vhdRead v (c.data.length + 1) ioPtr 0 c.data.length c.offset done.2 =
      .ok (c.data.length, place ioPtr 0 c.data) done.2

/-- A call within the disk has faults that do no harm, and its sizes add up, its bits stay in their
sectors and its blocks have sector numbers. -/
def Call.Fits (v : Info) (s : ℕ) (c : Call) (f : File) : Prop :=
  c.offset + c.data.length ≤ f.size → c.data.length + c.offset % 2 ^ s < 2 ^ 32 ∧
    BitmapsFit s c.offset c.data.length ∧ f.Room s c.offset c.data.length ∧
    Harmless v f s (c.data.length + 1) c.io c.data.length c.offset

/-- Every call of a run, with the state before it and what it gives. -/
def EveryCall (v : Info) (P : Call → File → Option ℕ × File → Prop) : List Call → File → Prop
  | [], _ => True
  | c :: cs, f => P c f (c.perform v f) ∧ EveryCall v P cs (c.perform v f).2

section Run

variable {f f' : File} {v : Info} {s n first : ℕ} {c : Call}

/-- What a read gives of a well-formed image. -/
theorem vhdRead_eq (h : WellFormed f s) (hv : v.For f s) (hn : n < 2 ^ 31) (hin : first + n ≤ f.size)
    (ioPtr : ℕ → UInt8) : vhdRead v (n + 1) ioPtr 0 n first f =
      .ok (n, place ioPtr 0 (slice f.disk first n)) f := by
  have hpow : 2 ^ s ≤ 2 ^ 31 :=
    Nat.pow_le_pow_right (by decide) (by have := h.shift_lt; omega)
  have hmod := Nat.mod_lt first (Nat.two_pow_pos s)
  have hread : Sat (vhdRead v (n + 1) ioPtr 0 n first) f
      (fun r f' => r = (n, place ioPtr 0 (slice f.disk first n)) ∧ f' = f) fun _ _ => False :=
    sat_vhdRead h hv hin (by omega) (Nat.lt_succ_self n)
  obtain ⟨r, f', hok, rfl, rfl⟩ := hread.exists_ok fun _ _ h => h
  exact hok

/-- Behind a call that leaves the other bytes as they were. -/
theorem After.undamaged (h : WellFormed f s) (hv : v.For f s) {done : Option ℕ × File}
    (hafter : After f s c.offset c.data.length done.2)
    (hstored : done.1 = some c.data.length → c.offset + c.data.length ≤ f.size →
      Stored f s c.offset c.data done.2) : Undamaged v s c f done := by
  have hv' := hv.same hafter.sameHead
  have hcovers := h.covers
  refine ⟨?_, fun ioPtr n first hn hin hout => ?_, fun hdone hn hin ioPtr => ?_⟩
  · have := hafter.wellFormed.apart
    rwa [hafter.sameHead.entries] at this
  · refine ⟨_, vhdRead_eq h hv hn hin ioPtr, ?_⟩
    rw [vhdRead_eq hafter.wellFormed hv' hn (by rwa [hafter.sameHead.size]) ioPtr]
    have hslice : slice done.2.disk first n = slice f.disk first n :=
      slice_congr _ fun x hle hlt => hafter.kept x (by omega) (by omega)
    rw [hslice]
  · rw [vhdRead_eq hafter.wellFormed hv' hn (by rwa [hafter.sameHead.size]) ioPtr]
    have hslice : slice done.2.disk c.offset c.data.length = c.data := by
      rw [slice_congr _ fun x _ hlt => (hstored hdone hin).disk x (by omega)]
      exact slice_place _ _ _
    rw [hslice]

/-- **A run whose faults do no harm** leaves the image undamaged behind every call. -/
theorem undamaged_run (f : File) (s : ℕ) (v : Info) (cs : List Call) (h : WellFormed f s)
    (hv : v.For f s) (hfits : EveryCall v (fun c f _ => c.Fits v s f) cs f) :
    EveryCall v (Undamaged v s) cs f := by
  induction cs generalizing f with
  | nil => exact trivial
  | cons c cs ih =>
      obtain ⟨hcall, hrest⟩ := hfits
      have hafter : After f s c.offset c.data.length (c.perform v f).2 ∧
          ((c.perform v f).1 = some c.data.length → c.offset + c.data.length ≤ f.size →
            Stored f s c.offset c.data (c.perform v f).2) := by
        rcases Nat.lt_or_ge f.size (c.offset + c.data.length) with hout | hin
        · have hrange : v.currentSize < ((c.offset + c.data.length : ℕ) : ℤ) := by
            rw [hv.currentSize]
            exact_mod_cast hout
          have hsame : (c.perform v f).2 = f := by
            rw [Call.perform, vhdWriteWith, if_pos hrange]
            rfl
          rw [hsame]
          exact ⟨⟨h, ⟨fun _ _ _ => rfl⟩, fun _ _ _ => rfl⟩, fun _ hin => absurd hin (by omega)⟩
        · obtain ⟨hwrap, hbits, hroom, hio⟩ := hcall hin
          have hsat := sat_vhdWriteWith h hv hin hwrap hbits hroom (Nat.lt_succ_self _) hio
          rw [Call.perform]
          split
          · rename_i r f' hok
            obtain ⟨-, hafter, hstored⟩ := hsat.ok hok
            exact ⟨hafter, fun hr _ => hstored (Option.some.inj hr)⟩
          · rename_i hfailed
            exact ⟨hsat.error hfailed, fun hr => by cases hr⟩
      refine ⟨hafter.1.undamaged h hv hafter.2, ih _ hafter.1.wellFormed ?_ hrest⟩
      exact hv.same hafter.1.sameHead

end Run

/-! ## Two blocks -/

/-- Two blocks of 512 bytes that are not there. -/
def twoBlocks : File :=
  ((sample [0, 0, 0, 0, 0, 0, 4, 0]).write [0, 0, 0, 2] 540).write [0, 0, 2, 0] 544

theorem wellFormed_twoBlocks : WellFormed twoBlocks 9 := by
  have hentries : twoBlocks.entries = 2 := by decide +kernel
  have hsize : twoBlocks.size = 1024 := by decide +kernel
  have htable : twoBlocks.table = 1536 := by decide +kernel
  have hlength : twoBlocks.length = 2560 := by decide +kernel
  have hnone : ∀ i < twoBlocks.entries, twoBlocks.start i = none := by
    rw [hentries]
    decide +kernel
  exact {
    footerCookie := by decide +kernel
    diskType := by decide +kernel
    headerCookie := by decide +kernel
    blockSize := by decide +kernel
    sector := le_refl 9
    size_pos := by rw [hsize]; decide
    size_lt := by rw [hsize]; decide
    covers := by rw [hsize, hentries]; decide
    sectors := by rw [hlength]; decide
    footer := by
      rw [hlength, twoBlocks, slice_write (by decide), slice_write (by decide),
        slice_write (by decide), slice_write (by decide)]
      exact slice_footer_sample _
    table_ge := by rw [htable]
    table_le := by rw [htable, hentries, hlength]; decide
    inside := by
      intro i p hi hp
      rw [hnone i hi] at hp
      cases hp
    apart := by
      intro i j d e hi hj hne hd he
      rw [hnone i hi] at hd
      cases hd }

/-- What `main` finds. -/
def twoBlocksInfo : Info where
  footer := slice twoBlocks.bytes 0 512
  currentSize := 1024
  tableOffset := 1536
  blockSize := 512
  blockShift := 9

theorem for_twoBlocks : twoBlocksInfo.For twoBlocks 9 where
  footer := by rw [twoBlocksInfo]
  currentSize := by decide +kernel
  tableOffset := by decide +kernel
  blockSize := by decide
  blockShift := by decide

/-- A write whose new block is not written. -/
def lostBlock : Call := ⟨[1], 0, fun _ => { PartFaults.none with block := .failed 0 }⟩

/-- The bits of a new block are not written. -/
theorem undamaged_run_twoBlocks : EveryCall twoBlocksInfo (Undamaged twoBlocksInfo 9)
    [⟨[1], 0, fun _ => { PartFaults.none with bitmap := .failed 0 }⟩] twoBlocks := by
  refine undamaged_run twoBlocks 9 twoBlocksInfo _ wellFormed_twoBlocks for_twoBlocks
    ⟨fun _ => ⟨by decide, bitmapsFit_of_le (by decide) 0 1, ?_, ?_⟩, trivial⟩
  · intro k hk
    have hone : twoBlocks.fresh 9 0 1 ≤ 1 := by decide +kernel
    have hlength : twoBlocks.length = 2560 := by decide +kernel
    obtain rfl : k = 0 := Nat.lt_one_iff.mp (lt_of_lt_of_le hk hone)
    rw [hlength]
    decide
  · refine fun _ => ⟨fun _ => ?_, fun _ => fun hmore => absurd hmore (by decide)⟩
    rw [PartFaults.Harmless, if_pos (by rfl)]
    rfl

/-- The next block comes to the same place. -/
theorem not_undamaged_run : ¬ ∀ (f : File) (s : ℕ) (v : Info) (cs : List Call), WellFormed f s →
    v.For f s → (∀ c ∈ cs, c.offset + c.data.length ≤ f.size) → EveryCall v (Undamaged v s) cs f := by
  intro hall
  have hsize : twoBlocks.size = 1024 := by decide +kernel
  have hrun := hall twoBlocks 9 twoBlocksInfo [lostBlock, ⟨[1], 512, fun _ => .none⟩]
    wellFormed_twoBlocks for_twoBlocks (by
      rw [hsize]
      decide)
  obtain ⟨f, hf⟩ : ∃ f, f = (lostBlock.perform twoBlocksInfo twoBlocks).2 := ⟨_, rfl⟩
  have hstarts : ((⟨[1], 512, fun _ => .none⟩ : Call).perform twoBlocksInfo f).2.start 0 = some 2048 ∧
      ((⟨[1], 512, fun _ => .none⟩ : Call).perform twoBlocksInfo f).2.start 1 = some 2048 := by
    rw [hf]
    decide +kernel
  have hentries : f.entries = 2 := by
    rw [hf]
    decide +kernel
  have hapart := hrun.2.1.apart
  rw [← hf, hentries] at hapart
  have := hapart 0 1 2048 2048 (by decide) (by decide) (by decide) hstarts.1 hstarts.2
  omega

end KernelDrivers.ImDisk.Vhd
