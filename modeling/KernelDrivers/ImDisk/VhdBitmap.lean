import KernelDrivers.ImDisk.VhdSparse

/-!
# Bits for the sectors that are written

A block of a dynamic VHD image begins with a bitmap that has a bit for each of its sectors, and a
reader takes a sector without its bit for one that was never written.  `vhd_write` sets whole bytes,
from the byte of the first sector on and as many as the length of the data needs.  Data that begin
within a sector, or with a sector within a byte, can reach one byte further.

## Main definitions

* `File.Marked` — a byte of the disk is in a sector with its bit.
* `MarksSector` — a write sets the bit of a sector.
* `CoversWritten` — what other readers need.

## Main results

* `sat_vhdWrite_marked` — the bits behind a write.
* `coversWritten_iff` — which writes set the bits of all their sectors.
-/

namespace KernelDrivers.ImDisk.Vhd

open KernelDrivers.Fat (ulong)

/-- The sector of byte `x` of the disk has its bit in the bitmap of its block.  The first sector has
the high bit. -/
def File.Marked (f : File) (s x : ℕ) : Prop :=
  ∃ p, f.start (x / 2 ^ s) = some p ∧
    (f.bytes (p + x % 2 ^ s / 512 / 8)).toNat.testBit (7 - x % 2 ^ s / 512 % 8) = true

/-- The bytes that are set in a bitmap for `count` bytes from `inBlock` on have the bit of the sector
of byte `q` of the block. -/
def MarksByte (inBlock count q : ℕ) : Prop :=
  inBlock / 512 / 8 ≤ q / 512 / 8 ∧ q / 512 / 8 < inBlock / 512 / 8 + bitmapDatasize count

/-- A write of `n` bytes at `first` sets the bit of the sector of byte `x`: the part of the range in
the block of `x` begins at `y`. -/
def MarksSector (s first n x : ℕ) : Prop :=
  ∃ y, first ≤ y ∧ y < first + n ∧ (y = first ∨ 2 ^ s ∣ y) ∧ y / 2 ^ s = x / 2 ^ s ∧
    MarksByte (y % 2 ^ s) (min (first + n - y) (2 ^ s - y % 2 ^ s)) (x % 2 ^ s)

/-- Behind a write that returns its size every sector of its range has its bit, and the bytes that
were set are in the sectors of the bitmaps. -/
def CoversWritten (v : Info) (f : File) (s first : ℕ) (data : List UInt8) : Prop :=
  ∀ fuel r f', data.length < fuel → vhdWrite v fuel data first f = .ok r f' → long r = data.length →
    BitmapsFit s first data.length ∧
      ∀ x, first ≤ x → x < first + data.length → f'.Marked s x

section Marks

variable {f f' : File} {v : Info} {s i n p q x first fuel : ℕ} {data : List UInt8}
  {E : Unit → File → Prop}

theorem testBit_ones (k : ℕ) : (0xFF : UInt8).toNat.testBit (7 - k) = true := by
  have hall : ∀ j < 8, (255 : ℕ).testBit j = true := by decide
  exact hall _ (by omega)

/-- The file behind the two writes to a block. -/
theorem sat_writeBlock_eq (he : 512 * ntohl q = p) : Sat (writeBlock q data n) f
    (fun _ f' => f' = (f.write data (p + 512 + n)).write
      (List.replicate (bitmapDatasize data.length) 0xFF) (p + n / 512 / 8)) E := by
  subst he
  simp only [writeBlock]
  refine Sat.bind (sat_physicalWrite (by rw [shiftLeft_sectorShift, sectorSize])) ?_
  rintro _ _ rfl
  rw [shiftLeft_sectorShift, shiftRight_sectorShift, Nat.shiftRight_eq_div_pow]
  exact sat_physicalWrite rfl

/-- The bits behind a write to a block that is there. -/
theorem WellFormed.marked_write (h : WellFormed f s) (hs : s ≤ 21) (hi : i < f.entries)
    (hp : f.start i = some p) (hfits : n + data.length ≤ 2 ^ s) (hbitmap : BitmapFits n data.length)
    (hx : x < f.entries * 2 ^ s) :
    ((f.write data (p + 512 + n)).write (List.replicate (bitmapDatasize data.length) 0xFF)
      (p + n / 512 / 8)).Marked s x ↔
      f.Marked s x ∨ x / 2 ^ s = i ∧ MarksByte n data.length (x % 2 ^ s) := by
  have hpow : 2 ^ s ≤ 2 ^ 21 := Nat.pow_le_pow_right (by decide) hs
  have hmod := Nat.mod_lt x (Nat.two_pow_pos s)
  have hj := lt_entries hx
  have hdata : f.Inside (p + 512 + n) data.length := by
    rw [Nat.add_assoc]
    exact h.inside_part hi hp (by omega)
  obtain ⟨h₁, hsame⟩ := h.sameBlocks_write hdata
  rw [BitmapFits] at hbitmap
  have hlen : (List.replicate (bitmapDatasize data.length) (0xFF : UInt8)).length =
      bitmapDatasize data.length := List.length_replicate
  have hbits : (f.write data (p + 512 + n)).Inside (p + n / 512 / 8)
      (List.replicate (bitmapDatasize data.length) (0xFF : UInt8)).length :=
    h₁.inside_part (by rwa [hsame.head.entries]) ((hsame.start i hi).trans hp) (by omega)
  have hstart := (start_write hbits (by rwa [hsame.head.entries])).trans (hsame.start _ hj)
  simp only [File.Marked, hstart, bytes_write, MarksByte]
  cases hp' : f.start (x / 2 ^ s) with
  | none =>
      have hne : x / 2 ^ s ≠ i := by
        rintro rfl
        simp [hp] at hp'
      simp [hne]
  | some p' =>
      simp only [Option.some.injEq, exists_eq_left']
      rcases eq_or_ne (x / 2 ^ s) i with heq | hne
      · obtain rfl : p' = p := by
          rw [heq, hp] at hp'
          exact (Option.some.inj hp').symm
        by_cases hin : n / 512 / 8 ≤ x % 2 ^ s / 512 / 8 ∧
            x % 2 ^ s / 512 / 8 < n / 512 / 8 + bitmapDatasize data.length
        · rw [place_of_getElem? (b := 0xFF) _ (by omega) (by
            rw [List.getElem?_replicate, if_pos (by omega)])]
          simp only [testBit_ones, heq, hin, and_self, or_true]
        · have hout : place (place f.bytes (p' + 512 + n) data) (p' + n / 512 / 8)
              (List.replicate (bitmapDatasize data.length) 0xFF) (p' + x % 2 ^ s / 512 / 8) =
              f.bytes (p' + x % 2 ^ s / 512 / 8) := by
            rcases Nat.lt_or_ge (x % 2 ^ s / 512 / 8) (n / 512 / 8) with hlt | hge
            · rw [place_of_lt _ _ (by omega), place_of_lt _ _ (by omega)]
            · rw [place_of_le _ (by rw [hlen]; omega), place_of_lt _ _ (by omega)]
          rw [hout]
          simp [hin]
      · have hout : place (place f.bytes (p + 512 + n) data) (p + n / 512 / 8)
            (List.replicate (bitmapDatasize data.length) 0xFF) (p' + x % 2 ^ s / 512 / 8) =
            f.bytes (p' + x % 2 ^ s / 512 / 8) := by
          rcases h.apart _ _ p' p hj hi hne hp' hp with hle | hle
          · rw [place_of_lt _ _ (by omega), place_of_lt _ _ (by omega)]
          · rw [place_of_le _ (by rw [hlen]; omega), place_of_le _ (by omega)]
        rw [hout]
        simp [hne]

/-- A new block has no bits yet. -/
theorem WellFormed.marked_extend (h : WellFormed f s) (hs : s ≤ 21) (hi : i < f.entries)
    (hnone : f.start i = none) (hroom : (f.length - 512) / 512 < noBlock)
    (hx : x < f.entries * 2 ^ s) : (f.extend s i).Marked s x ↔ f.Marked s x := by
  have hpow : 2 ^ s ≤ 2 ^ 21 := Nat.pow_le_pow_right (by decide) hs
  have hmod := Nat.mod_lt x (Nat.two_pow_pos s)
  have hle := h.table_le
  have hj := lt_entries hx
  rcases eq_or_ne (x / 2 ^ s) i with heq | hne
  · have hzero : (f.extend s i).bytes (f.length - 512 + x % 2 ^ s / 512 / 8) = 0 := by
      rw [bytes_extend, place_of_lt _ _ (by omega)]
      refine place_of_getElem? _ (by omega) ?_
      rw [List.getElem?_replicate, if_pos (by omega)]
    simp [File.Marked, heq, hnone, h.start_extend_self hi hroom, hzero]
  · rw [File.Marked, File.Marked, h.start_extend_of_ne hj hne]
    refine exists_congr fun p => and_congr_right fun hp => ?_
    obtain ⟨hfirst, hside, hend⟩ := h.inside _ p hj hp
    have hbyte : (f.extend s i).bytes (p + x % 2 ^ s / 512 / 8) =
        f.bytes (p + x % 2 ^ s / 512 / 8) := by
      rw [bytes_extend, place_of_lt _ _ (by omega), place_of_lt _ _ (by omega), bytes_write]
      rcases hside with hbefore | hbehind
      · exact place_of_lt _ _ (by omega)
      · exact place_of_le _ (by rw [length_toBytes]; omega)
    rw [hbyte]

theorem not_marksSector_zero : ¬MarksSector s first 0 x := by
  rintro ⟨y, hle, hlt, -⟩
  omega

theorem two_pow_dvd_next (first s : ℕ) : 2 ^ s ∣ first + (2 ^ s - first % 2 ^ s) := by
  rw [next_block]
  exact Nat.dvd_mul_left _ _

/-- The bits for the first part of a range, and for what is left. -/
theorem marksSector_iff (hn : 0 < n) : MarksSector s first n x ↔
    x / 2 ^ s = first / 2 ^ s ∧
        MarksByte (first % 2 ^ s) (min n (2 ^ s - first % 2 ^ s)) (x % 2 ^ s) ∨
      MarksSector s (first + min n (2 ^ s - first % 2 ^ s)) (n - min n (2 ^ s - first % 2 ^ s)) x := by
  have hmod := Nat.mod_lt first (Nat.two_pow_pos s)
  have hnext := two_pow_dvd_next first s
  constructor
  · rintro ⟨y, hle, hlt, hy, hblock, hbyte⟩
    rcases eq_or_ne y first with rfl | hne
    · rw [Nat.add_sub_cancel_left] at hbyte
      exact .inl ⟨hblock.symm, hbyte⟩
    · have hdvd : 2 ^ s ∣ y := hy.resolve_left hne
      have hge : first + (2 ^ s - first % 2 ^ s) ≤ y := by
        obtain ⟨a, ha⟩ := hnext
        obtain ⟨b, rfl⟩ := hdvd
        have hlt' : 2 ^ s * a < 2 ^ s * (b + 1) := by rw [Nat.mul_succ]; omega
        rw [ha]
        exact Nat.mul_le_mul_left _ (Nat.lt_succ_iff.mp (lt_of_mul_lt_mul_left hlt' (Nat.zero_le _)))
      refine .inr ⟨y, by omega, by omega, .inr hdvd, hblock, ?_⟩
      rwa [show first + min n (2 ^ s - first % 2 ^ s) + (n - min n (2 ^ s - first % 2 ^ s)) - y =
        first + n - y by omega]
  · rintro (⟨hblock, hbyte⟩ | ⟨y, hle, hlt, hy, hblock, hbyte⟩)
    · refine ⟨first, le_refl _, by omega, .inl rfl, hblock.symm, ?_⟩
      rwa [Nat.add_sub_cancel_left]
    · refine ⟨y, by omega, by omega, .inr ?_, hblock, ?_⟩
      · rcases hy with heq | hdvd
        · have hmore : 2 ^ s - first % 2 ^ s ≤ n := by
            rw [heq] at hlt
            omega
          rw [min_eq_right hmore] at heq
          rwa [heq]
        · exact hdvd
      · rwa [show first + min n (2 ^ s - first % 2 ^ s) + (n - min n (2 ^ s - first % 2 ^ s)) - y =
          first + n - y by omega] at hbyte

/-- The image behind the part of a write that is in one block, with its bits. -/
structure PartMarked (f : File) (s first : ℕ) (data : List UInt8) (f' : File) : Prop where
  done : PartDone f s first data f'
  marked : ∀ x < f.entries * 2 ^ s, f'.Marked s x ↔ f.Marked s x ∨
    x / 2 ^ s = first / 2 ^ s ∧ MarksByte (first % 2 ^ s) data.length (x % 2 ^ s)

theorem sat_part_some_marked (h : WellFormed f s) (hs : s ≤ 21) (hi : first / 2 ^ s < f.entries)
    (hsome : f.entry (first / 2 ^ s) ≠ noBlock) (hfits : first % 2 ^ s + data.length ≤ 2 ^ s)
    (hbitmap : BitmapFits (first % 2 ^ s) data.length) :
    Sat (writeBlock (f.entry (first / 2 ^ s)) data (first % 2 ^ s)) f
      (fun _ => PartMarked f s first data) E := by
  have hstart : f.start (first / 2 ^ s) = some (512 * ntohl (f.entry (first / 2 ^ s))) := by
    rw [File.start, if_neg hsome]
  refine ((sat_part_some (E := E) h hi hsome hfits hbitmap).and (sat_writeBlock_eq (E := E) rfl)).mono
    ?_ fun _ _ h => h.1
  rintro _ _ ⟨hdone, rfl⟩
  exact ⟨hdone, fun x hx => h.marked_write hs hi hstart hfits hbitmap hx⟩

theorem sat_part_none_marked (h : WellFormed f s) (hs : s ≤ 21) (hv : v.For f s)
    (hi : first / 2 ^ s < f.entries) (hnone : f.entry (first / 2 ^ s) = noBlock)
    (hfits : first % 2 ^ s + data.length ≤ 2 ^ s) (hbitmap : BitmapFits (first % 2 ^ s) data.length)
    (hroom : (f.length - 512) / 512 < noBlock) {offset : ℤ}
    (hoffset : offset = ((f.table + 4 * (first / 2 ^ s) : ℕ) : ℤ)) :
    Sat (do
        let entry ← addBlock v offset
        writeBlock entry data (first % 2 ^ s) : VhdM Unit) f (fun _ => PartMarked f s first data) E := by
  have hempty : f.start (first / 2 ^ s) = none := by rw [File.start, if_pos hnone]
  have hsame := h.sameHead_extend (i := first / 2 ^ s)
  have hsector : 512 * ntohl (ntohl ((f.length - 512) / 512)) = f.length - 512 := by
    rw [ntohl_ntohl (by rw [noBlock] at hroom; omega)]
    exact Nat.mul_div_cancel' (Nat.dvd_sub h.sectors (Nat.dvd_refl 512))
  have hmarked : Sat (do
        let entry ← addBlock v offset
        writeBlock entry data (first % 2 ^ s) : VhdM Unit) f (fun _ f' => ∀ x < f.entries * 2 ^ s,
      f'.Marked s x ↔ f.Marked s x ∨
        x / 2 ^ s = first / 2 ^ s ∧ MarksByte (first % 2 ^ s) data.length (x % 2 ^ s)) E := by
    refine Sat.bind (sat_addBlock h hv hi hroom hoffset) ?_
    rintro _ _ ⟨rfl, rfl⟩
    refine (sat_writeBlock_eq (E := E) hsector).mono ?_ fun _ _ h => h
    rintro _ _ rfl x hx
    have hi' : first / 2 ^ s < (f.extend s (first / 2 ^ s)).entries :=
      lt_of_lt_of_eq hi hsame.entries.symm
    have hx' : x < (f.extend s (first / 2 ^ s)).entries * 2 ^ s := by rwa [hsame.entries]
    have hnew := h.start_extend_self hi hroom
    have hextend := h.marked_extend hs hi hempty hroom hx
    have hwell := h.extend hi hroom
    generalize f.extend s (first / 2 ^ s) = g at hi' hx' hnew hextend hwell ⊢
    rw [hwell.marked_write hs hi' hnew hfits hbitmap hx', hextend]
  refine ((sat_part_none (E := E) h hv hi hnone hfits hbitmap hroom hoffset).and hmarked).mono
    ?_ fun _ _ h => h.1
  exact fun _ _ hboth => ⟨hboth.1, hboth.2⟩

/-- **The bits behind a write** are those that were there and those that it sets. -/
theorem sat_vhdWrite_marked (h : WellFormed f s) (hs : s ≤ 21) (hv : v.For f s)
    (hin : first + data.length ≤ f.size) (hwrap : data.length + first % 2 ^ s < 2 ^ 32)
    (hroom : f.Room s first data.length) (hfuel : data.length < fuel) :
    Sat (vhdWrite v fuel data first) f (fun r f' => r = data.length ∧
      ∀ x < f.entries * 2 ^ s, f'.Marked s x ↔ f.Marked s x ∨ MarksSector s first data.length x) E := by
  induction fuel generalizing f data first with
  | zero => omega
  | succ fuel ih =>
      obtain ⟨hfirst, hsecond⟩ := hv.parts h.shift_lt hwrap
      have hpos := Nat.two_pow_pos s
      have hmod := Nat.mod_lt first hpos
      have hrange : ¬ v.currentSize < (first + data.length : ℕ) := by
        rw [hv.currentSize]
        omega
      have hentry := hv.entry_place first
      have hsplit : 0 < data.length → ∀ x, (MarksSector s first data.length x ↔ _) :=
        fun hn x => marksSector_iff hn
      generalize hk : min data.length (2 ^ s - first % 2 ^ s) = k at hfirst hsecond hsplit
      have htake : (data.take k).length = k := by
        rw [List.length_take]
        omega
      -- what is left goes into the blocks behind
      have htail {f' : File} (hn : 0 < data.length) (hpart : PartMarked f s first (data.take k) f') :
          Sat (if 0 < data.length - k then do
              let rest ← vhdWrite v fuel (data.drop k) (first + k)
              return k + rest
            else return k : VhdM ℕ) f'
            (fun r f' => r = data.length ∧ ∀ x < f.entries * 2 ^ s,
              f'.Marked s x ↔ f.Marked s x ∨ MarksSector s first data.length x) E := by
        obtain ⟨hdone, hmarked⟩ := hpart
        rw [htake] at hmarked
        have hsame := hdone.stored.sameHead
        split
        · rename_i hmore
          obtain rfl : k = 2 ^ s - first % 2 ^ s := by omega
          have hnext : (first + (2 ^ s - first % 2 ^ s)) % 2 ^ s = 0 :=
            Nat.mod_eq_zero_of_dvd (two_pow_dvd_next first s)
          have hrest : (data.drop (2 ^ s - first % 2 ^ s)).length =
              data.length - (2 ^ s - first % 2 ^ s) := List.length_drop
          have hroom' := h.room_rest hin (by omega) hroom hdone.other hdone.length
          refine Sat.bind (ih hdone.stored.wellFormed (hv.same hsame) ?_ ?_ ?_ ?_) ?_
          · rw [hrest, hsame.size]
            omega
          · rw [hrest, hnext]
            omega
          · rwa [hrest]
          · rw [hrest]
            omega
          · rintro r f'' ⟨rfl, hmarked'⟩
            refine Sat.pure ⟨by rw [hrest]; omega, fun x hx => ?_⟩
            rw [hmarked' x (by rwa [hsame.entries]), hmarked x hx, hsplit hn x, hrest, or_assoc]
        · rename_i hall
          obtain rfl : k = data.length := by omega
          refine Sat.pure ⟨rfl, fun x hx => ?_⟩
          rw [hmarked x hx, hsplit hn x, Nat.sub_self]
          simp only [not_marksSector_zero, or_false]
      simp only [vhdWrite, hfirst, hsecond, hv.blockShift, hv.inBlock h.shift_lt]
      rw [if_neg hrange]
      refine Sat.bind (sat_physicalRead hentry) ?_
      rintro _ f' ⟨rfl, rfl⟩
      change Sat (if f'.entry (first / 2 ^ s) = noBlock then _ else _) _ _ _
      rcases Nat.eq_zero_or_pos data.length with hzero | hn
      · obtain rfl := List.length_eq_zero_iff.mp hzero
        obtain rfl : k = 0 := by simpa using hk.symm
        have hsame : ∀ x < f'.entries * 2 ^ s,
            f'.Marked s x ↔ f'.Marked s x ∨ MarksSector s first ([] : List UInt8).length x :=
          fun x _ => (or_iff_left not_marksSector_zero).symm
        split
        · rw [if_neg (by decide)]
          exact Sat.pure ⟨rfl, hsame⟩
        · refine Sat.bind (sat_writeBlock_nil _ _) ?_
          rintro _ _ rfl
          exact Sat.pure ⟨rfl, hsame⟩
      · have hcovers := h.covers
        have hi : first / 2 ^ s < f'.entries := lt_entries (by omega)
        have hbits : BitmapFits (first % 2 ^ s) (data.take k).length := by
          have := bitmapsFit_of_le hs first data.length first (Nat.le_refl _) (by omega) (.inl rfl)
          rwa [Nat.add_sub_cancel_left, hk, ← htake] at this
        split
        · rename_i hnone
          have hqwords : ulong (k + 7) >>> 3 ≠ 0 := by
            have hk32 : 2 ^ s ≤ 2 ^ 31 := Nat.pow_le_pow_right (by decide) (by omega)
            rw [ulong, Nat.mod_eq_of_lt (by omega), Nat.shiftRight_eq_div_pow]
            omega
          have hroom₀ : (f'.length - 512) / 512 < noBlock := by
            have hfresh : 0 < f'.fresh s first data.length := by
              have hstart : f'.start (first / 2 ^ s) = none := by rw [File.start, if_pos hnone]
              have hmissing : ¬f'.Present s first data.length := by
                rw [present_iff hn]
                exact fun hthere => hthere.1 hstart
              simp only [File.Present, not_forall, not_not] at hmissing
              obtain ⟨j, hj, hnone⟩ := hmissing
              exact List.countP_pos_iff.mpr ⟨j, hj, by simpa using hnone⟩
            have := hroom 0 hfresh
            rwa [Nat.zero_mul, Nat.add_zero] at this
          rw [if_pos hqwords]
          have hpart := sat_part_none_marked (E := E) h hs hv hi hnone (by omega) hbits hroom₀ hentry
          have hall := Sat.bind hpart fun _ f'' hdone => htail hn hdone
          rwa [bind_assoc] at hall
        · rename_i hthere
          refine Sat.bind (sat_part_some_marked h hs hi hthere (by omega) hbits) ?_
          intro _ f'' hdone
          exact htail hn hdone

/-- **A write sets the bits of all its sectors** if and only if those that it does not set were there
before. -/
theorem coversWritten_iff (h : WellFormed f s) (hs : s ≤ 21) (hv : v.For f s)
    (hroom : f.Room s first data.length) :
    CoversWritten v f s first data ↔
      (data.length < 2 ^ 31 → first + data.length ≤ f.size → ∀ x, first ≤ x →
        x < first + data.length → f.Marked s x ∨ MarksSector s first data.length x) := by
  have hcovers := h.covers
  have hsat (hlong : data.length < 2 ^ 31) (hin : first + data.length ≤ f.size) {fuel : ℕ}
      (hfuel : data.length < fuel) : Sat (vhdWrite v fuel data first) f (fun r f' => r = data.length ∧
        ∀ x < f.entries * 2 ^ s, f'.Marked s x ↔ f.Marked s x ∨ MarksSector s first data.length x)
        fun _ _ => False := by
    have hpow : 2 ^ s ≤ 2 ^ 21 := Nat.pow_le_pow_right (by decide) hs
    have hmod := Nat.mod_lt first (Nat.two_pow_pos s)
    exact sat_vhdWrite_marked h hs hv hin (by omega) hroom hfuel
  constructor
  · intro hall hlong hin x hle hlt
    obtain ⟨r, f', hok, hr, hmarked⟩ :=
      (hsat hlong hin (Nat.lt_succ_self _)).exists_ok fun _ _ h => h
    have hcount : long r = data.length := by rwa [hr, long_eq_iff]
    exact (hmarked x (by omega)).mp ((hall _ r f' (Nat.lt_succ_self _) hok hcount).2 x hle hlt)
  · intro hcond fuel r f' hfuel hok hr
    refine ⟨bitmapsFit_of_le hs _ _, fun x hle hlt => ?_⟩
    have hlong : data.length < 2 ^ 31 := by
      have := long_lt r
      omega
    have hin : first + data.length ≤ f.size := by
      by_contra hout
      obtain ⟨fuel, rfl⟩ := Nat.exists_eq_succ_of_ne_zero (Nat.ne_of_gt (Nat.zero_lt_of_lt hfuel))
      have hrange : v.currentSize < ((first + data.length : ℕ) : ℤ) := by
        rw [hv.currentSize]
        omega
      rw [vhdWrite, if_pos hrange] at hok
      have hzero : r = 0 := (EStateM.Result.ok.inj hok).1.symm
      rw [hzero, show long 0 = 0 by decide] at hr
      omega
    exact (((hsat hlong hin hfuel).ok hok).2 x (by omega)).mpr (hcond hlong hin x hle hlt)

end Marks

/-- Eight sectors from the first one of a block on. -/
theorem coversWritten_megabyte : ∃ v, v.For megabyte 21 ∧
    CoversWritten v megabyte 21 0 (List.replicate 4096 1) := by
  have hplain : Plain megabyte := ⟨by decide +kernel, by decide +kernel⟩
  obtain ⟨v, -, hv⟩ := wellFormed_megabyte.detect hplain
  have hlen : (List.replicate 4096 (1 : UInt8)).length = 4096 := List.length_replicate
  have hroom : megabyte.Room 21 0 4096 := by
    intro k hk
    have hone : megabyte.fresh 21 0 4096 ≤ 1 := by decide +kernel
    obtain rfl : k = 0 := by omega
    decide
  refine ⟨v, hv, (coversWritten_iff wellFormed_megabyte (Nat.le_refl 21) hv (by rwa [hlen])).mpr ?_⟩
  rw [hlen]
  intro _ _ x _ hx
  refine .inr ⟨0, Nat.le_refl 0, by omega, .inl rfl, by omega, ?_⟩
  have hsize : bitmapDatasize (min (0 + 4096 - 0) (2 ^ 21 - 0 % 2 ^ 21)) = 1 := by decide
  rw [MarksByte, hsize]
  omega

/-- Two sectors from the eighth one on: one byte is set, and the ninth sector has no bit. -/
theorem not_coversWritten : ¬ ∀ (f : File) (v : Info) (first : ℕ) (data : List UInt8),
    WellFormed f 21 → v.For f 21 → f.Room 21 first data.length → CoversWritten v f 21 first data := by
  intro hall
  have hplain : Plain megabyte := ⟨by decide +kernel, by decide +kernel⟩
  obtain ⟨v, -, hv⟩ := wellFormed_megabyte.detect hplain
  obtain ⟨data, hlen⟩ : ∃ data : List UInt8, data.length = 1024 :=
    ⟨List.replicate 1024 1, List.length_replicate⟩
  have hsize : megabyte.size = 0x100000 := by decide +kernel
  have hentries : megabyte.entries = 1 := by decide +kernel
  have hroom : megabyte.Room 21 3584 data.length := by
    rw [hlen]
    intro k hk
    have hone : megabyte.fresh 21 3584 1024 ≤ 1 := by decide +kernel
    obtain rfl : k = 0 := by omega
    decide
  have hsat : Sat (vhdWrite v (data.length + 1) data 3584) megabyte (fun r f' => r = data.length ∧
      ∀ x < megabyte.entries * 2 ^ 21, f'.Marked 21 x ↔ megabyte.Marked 21 x ∨
        MarksSector 21 3584 data.length x) fun _ _ => False :=
    sat_vhdWrite_marked wellFormed_megabyte (Nat.le_refl 21) hv (by omega) (by omega) hroom
      (Nat.lt_succ_self _)
  obtain ⟨r, f', hok, hr, hmarked⟩ := hsat.exists_ok fun _ _ h => h
  have hbit := (hall megabyte v 3584 data wellFormed_megabyte hv hroom _ r f' (Nat.lt_succ_self _) hok
    (by rw [hr, long_eq_iff]; omega)).2 4096 (by decide) (by omega)
  rcases (hmarked 4096 (by rw [hentries]; decide)).mp hbit with ⟨p, hp, -⟩ | ⟨y, hle, hlt, hy, -, hbyte⟩
  · have hnone : megabyte.start 0 = none := by decide +kernel
    rw [show 4096 / 2 ^ 21 = 0 by decide, hnone] at hp
    cases hp
  · obtain rfl : y = 3584 := by
      rcases hy with heq | ⟨c, hc⟩
      · exact heq
      · omega
    rw [hlen] at hbyte
    exact absurd hbyte.2 (by decide)

end KernelDrivers.ImDisk.Vhd
