import KernelDrivers.ImDisk.Vhd
import KernelDrivers.Lib.BlockMap

/-!
# Well-formed dynamic VHD images

Header and table in front, blocks apart from one another, and the footer at the end.  Bytes that are
stored in a block, or a new block with its entry, keep an image so.

## Main definitions

* `WellFormed` — the format.
* `File.disk` — the disk that the image holds.
* `File.extend` — the image with one more block.

## Main results

* `getBigEndian64_eq` — when the loop over signed bytes gives the number.
* `WellFormed.write`, `WellFormed.extend` — what keeps an image well formed.
* `WellFormed.disk_write_data`, `WellFormed.disk_write_bitmap`, `WellFormed.disk_extend` — what
  each does to the disk.
-/

namespace KernelDrivers.ImDisk.Vhd

/-! ## Numbers -/

section Numbers

variable {bs : List UInt8} {n : ℕ}

theorem ofBigEndian_cons (b : UInt8) (bs : List UInt8) :
    ofBigEndian (b :: bs) = b.toNat * 256 ^ bs.length + ofBigEndian bs := by
  rw [ofBigEndian, List.reverse_cons, ofBytes_append, List.length_reverse, ofBigEndian, ofBytes,
    ofBytes]
  ring

theorem ofBigEndian_lt (bs : List UInt8) : ofBigEndian bs < 256 ^ bs.length := by
  have := ofBytes_lt bs.reverse
  rwa [List.length_reverse] at this

theorem ntohl_ofBytes (h : bs.length = 4) : ntohl (ofBytes bs) = ofBigEndian bs := by
  rw [ntohl, ← h, toBytes_ofBytes]

/-- Swapped twice, a number is what it was. -/
theorem ntohl_ntohl (h : n < 2 ^ 32) : ntohl (ntohl n) = n := by
  have hlen : (toBytes 4 n).reverse.length = 4 := by simp
  have hback := toBytes_ofBytes (toBytes 4 n).reverse
  rw [hlen] at hback
  rw [ntohl, ntohl, ofBigEndian, ofBigEndian, hback, List.reverse_reverse,
    ofBytes_toBytes_of_lt (by simpa using h)]

theorem ntohl_lt (n : ℕ) : ntohl n < 2 ^ 32 := by
  have := ofBigEndian_lt (toBytes 4 n)
  rw [length_toBytes] at this
  exact this

/-- Only the entry of all ones is swapped to that of a block that is not there. -/
theorem ntohl_ne_noBlock (h : n < noBlock) : ntohl n ≠ noBlock := by
  intro heq
  have hback := ntohl_ntohl (show n < 2 ^ 32 by rw [noBlock] at h; omega)
  rw [heq] at hback
  have hones : ntohl noBlock = noBlock := by decide
  omega

/-- A byte that is not negative is not extended. -/
theorem signExtend_of_lt {b : UInt8} (h : b < 0x80) :
    (b.toBitVec.signExtend 64).toNat = b.toNat := by
  have hmsb : b.toBitVec.msb = false := by
    rw [BitVec.msb_eq_decide]
    have : b.toNat < 128 := h
    simpa using this
  rw [BitVec.signExtend_eq_setWidth_of_msb_false hmsb, BitVec.toNat_setWidth]
  have := b.toNat_lt
  exact Nat.mod_eq_of_lt (by simp; omega)

theorem toNat_orBytes (h : ∀ b ∈ bs, b < 0x80) {number : BitVec 64} {q : ℕ}
    (hnumber : number.toNat = 256 ^ bs.length * q) (hlen : bs.length ≤ 8) :
    (orBytes bs number).toNat = number.toNat + ofBigEndian bs := by
  induction bs generalizing number q with
  | nil => simp [orBytes, ofBigEndian, ofBytes]
  | cons b bs ih =>
      have hbyte := signExtend_of_lt (h b (List.mem_cons_self))
      have hpow : 256 ^ bs.length = 2 ^ (8 * bs.length) := by
        rw [pow_mul]
        norm_num
      have hshift : b.toNat <<< (8 * bs.length) = b.toNat * 256 ^ bs.length := by
        rw [Nat.shiftLeft_eq, hpow]
      have hlt : b.toNat * 256 ^ bs.length < 2 ^ (8 * (bs.length + 1)) := by
        rw [pow_mul, pow_succ, Nat.mul_comm]
        exact Nat.mul_lt_mul_of_pos_left b.toNat_lt (by positivity)
      have hwide : b.toNat * 256 ^ bs.length < 2 ^ 64 := by
        refine lt_of_lt_of_le hlt (Nat.pow_le_pow_right (by decide) ?_)
        rw [List.length_cons] at hlen
        omega
      have hbits : number.toNat = 2 ^ (8 * (bs.length + 1)) * q := by
        rw [hnumber, List.length_cons, pow_mul]
        norm_num
      have hor : (number ||| b.toBitVec.signExtend 64 <<< (8 * bs.length)).toNat =
          number.toNat + b.toNat * 256 ^ bs.length := by
        rw [BitVec.toNat_or, BitVec.toNat_shiftLeft, hbyte, hshift, Nat.mod_eq_of_lt hwide, hbits,
          Nat.two_pow_add_eq_or_of_lt hlt]
      have hnext : (number ||| b.toBitVec.signExtend 64 <<< (8 * bs.length)).toNat =
          256 ^ bs.length * (256 * q + b.toNat) := by
        rw [hor, hnumber, List.length_cons, pow_succ]
        ring
      have hrest : ∀ b' ∈ bs, b' < 0x80 := fun b' hb' => h b' (List.mem_cons_of_mem b hb')
      rw [orBytes, ih hrest hnext (by rw [List.length_cons] at hlen; omega), hor, ofBigEndian_cons,
        Nat.add_assoc]

/-- **The high byte of every part decides.**  Without a byte from `0x80` on the loop gives the
number. -/
theorem getBigEndian64_eq (h : ∀ b ∈ bs, b < 0x80) (hlen : bs.length = 8) :
    getBigEndian64 bs = ofBigEndian bs := by
  have hzero : (0 : BitVec 64).toNat = 256 ^ bs.length * 0 := by simp
  have hnat := toNat_orBytes h hzero hlen.le
  rw [hzero, Nat.mul_zero, Nat.zero_add] at hnat
  have hlt : ofBigEndian bs < 2 ^ 63 := by
    cases bs with
    | nil => simp at hlen
    | cons b bs =>
        have hrest : bs.length = 7 := by simpa using hlen
        have hlow := ofBigEndian_lt bs
        have hb : b.toNat < 128 := h b (List.mem_cons_self)
        rw [ofBigEndian_cons, hrest]
        rw [hrest] at hlow
        omega
  rw [getBigEndian64, BitVec.toInt_eq_toNat_of_lt (by rw [hnat]; omega), hnat]

end Numbers

/-! ## The format -/

/-- `CurrentSize`. -/
def File.size (f : File) : ℕ := ofBigEndian (slice f.bytes 48 8)

/-- `TableOffset`. -/
def File.table (f : File) : ℕ := ofBigEndian (slice f.bytes 528 8)

/-- `MaxTableEntries`. -/
def File.entries (f : File) : ℕ := ofBigEndian (slice f.bytes 540 4)

/-- `BlockSize`. -/
def File.blockSize (f : File) : ℕ := ofBigEndian (slice f.bytes 544 4)

/-- An entry of the table as it is loaded. -/
def File.entry (f : File) (i : ℕ) : ℕ := ofBytes (slice f.bytes (f.table + 4 * i) 4)

/-- Where a block begins. -/
def File.start (f : File) (i : ℕ) : Option ℕ :=
  if f.entry i = noBlock then none else some (512 * ntohl (f.entry i))

/-- Where the data of a block begin. -/
def File.base (f : File) (i : ℕ) : Option ℕ := (f.start i).map (· + 512)

/-- The disk. -/
def File.disk (f : File) : ℕ → UInt8 := content f.blockSize f.base f.bytes

/-- A range of the file between the header, the table and the footer. -/
def File.Inside (f : File) (first count : ℕ) : Prop :=
  1536 ≤ first ∧ (first + count ≤ f.table ∨ f.table + 4 * f.entries ≤ first) ∧
    first + count + 512 ≤ f.length

structure WellFormed (f : File) (s : ℕ) : Prop where
  footerCookie : slice f.bytes 0 8 = footerCookie
  diskType : ofBytes (slice f.bytes 60 4) = 0x03000000
  headerCookie : slice f.bytes 512 8 = headerCookie
  blockSize : f.blockSize = 2 ^ s
  sector : 9 ≤ s
  size_pos : 0 < f.size
  size_lt : f.size < 2 ^ 63
  covers : f.size ≤ f.entries * 2 ^ s
  sectors : 512 ∣ f.length
  footer : slice f.bytes (f.length - 512) 512 = slice f.bytes 0 512
  table_ge : 1536 ≤ f.table
  table_le : f.table + 4 * f.entries + 512 ≤ f.length
  inside : ∀ i p, i < f.entries → f.start i = some p → f.Inside p (512 + 2 ^ s)
  apart : Apart (512 + 2 ^ s) f.entries f.start

section Layout

variable {f f' : File} {s i j p first : ℕ} {bs : List UInt8}

theorem length_write (h : first + bs.length ≤ f.length) : (f.write bs first).length = f.length := by
  simp only [File.write]
  split
  · rfl
  · exact max_eq_left h

@[simp] theorem bytes_write (f : File) (bs : List UInt8) (first : ℕ) :
    (f.write bs first).bytes = place f.bytes first bs := rfl

theorem length_write_of_ne_nil (h : bs ≠ []) :
    (f.write bs first).length = max f.length (first + bs.length) := if_neg h

theorem slice_write {n : ℕ} (h : p + n ≤ first ∨ first + bs.length ≤ p) :
    slice (f.write bs first).bytes p n = slice f.bytes p n :=
  slice_place_of_disjoint f.bytes h

theorem base_of_start (h : f.start i = some p) : f.base i = some (p + 512) := by
  rw [File.base, h]
  rfl

theorem start_of_base {d : ℕ} (h : f.base i = some d) : ∃ p, f.start i = some p ∧ d = p + 512 := by
  rw [File.base, Option.map_eq_some_iff] at h
  obtain ⟨p, hp, rfl⟩ := h
  exact ⟨p, hp, rfl⟩

theorem WellFormed.apart_base (h : WellFormed f s) : Apart (2 ^ s) f.entries f.base := by
  intro i j d e hi hj hne hd he
  obtain ⟨p, hp, rfl⟩ := start_of_base hd
  obtain ⟨q, hq, rfl⟩ := start_of_base he
  have := h.apart i j p q hi hj hne hp hq
  omega

/-- The two files have the same header. -/
structure SameHead (f f' : File) : Prop where
  head : ∀ p n, p + n ≤ 1536 → slice f'.bytes p n = slice f.bytes p n

theorem SameHead.size (h : SameHead f f') : f'.size = f.size := by
  rw [File.size, h.head 48 8 (by decide), File.size]

theorem SameHead.table (h : SameHead f f') : f'.table = f.table := by
  rw [File.table, h.head 528 8 (by decide), File.table]

theorem SameHead.entries (h : SameHead f f') : f'.entries = f.entries := by
  rw [File.entries, h.head 540 4 (by decide), File.entries]

theorem SameHead.blockSize (h : SameHead f f') : f'.blockSize = f.blockSize := by
  rw [File.blockSize, h.head 544 4 (by decide), File.blockSize]

theorem sameHead_write (f : File) (bs : List UInt8) (h : 1536 ≤ first) :
    SameHead f (f.write bs first) :=
  ⟨fun _ _ hle => slice_write (.inl (by omega))⟩

theorem SameHead.trans {f'' : File} (h : SameHead f f') (h' : SameHead f' f'') : SameHead f f'' :=
  ⟨fun p n hle => (h'.head p n hle).trans (h.head p n hle)⟩

/-- Bytes stored inside leave the entries alone. -/
theorem start_write (h : f.Inside first bs.length) (hi : i < f.entries) :
    (f.write bs first).start i = f.start i := by
  have hsame := sameHead_write f bs h.1
  have hentry : (f.write bs first).entry i = f.entry i := by
    rw [File.entry, hsame.table, slice_write, File.entry]
    rcases h.2.1 with hle | hge <;> omega
  rw [File.start, hentry, File.start]

/-- Bytes stored inside keep an image well formed. -/
theorem WellFormed.write (h : WellFormed f s) (hin : f.Inside first bs.length) :
    WellFormed (f.write bs first) s := by
  have hsame := sameHead_write f bs hin.1
  obtain ⟨hfirst, hside, hend⟩ := hin
  have hlen : (f.write bs first).length = f.length := length_write (by omega)
  have htable := h.table_le
  have hstart (i : ℕ) (hi : i < f.entries) := start_write ⟨hfirst, hside, hend⟩ hi
  exact {
    footerCookie := by rw [hsame.head 0 8 (by decide), h.footerCookie]
    diskType := by rw [hsame.head 60 4 (by decide), h.diskType]
    headerCookie := by rw [hsame.head 512 8 (by decide), h.headerCookie]
    blockSize := by rw [hsame.blockSize, h.blockSize]
    sector := h.sector
    size_pos := by rw [hsame.size]; exact h.size_pos
    size_lt := by rw [hsame.size]; exact h.size_lt
    covers := by rw [hsame.size, hsame.entries]; exact h.covers
    sectors := by rw [hlen]; exact h.sectors
    footer := by
      rw [hlen, hsame.head 0 512 (by decide), slice_write (.inr (by omega)), h.footer]
    table_ge := by rw [hsame.table]; exact h.table_ge
    table_le := by rw [hsame.table, hsame.entries, hlen]; exact htable
    inside := by
      intro i p hi hp
      rw [hsame.entries] at hi
      rw [hstart i hi] at hp
      rw [File.Inside, hsame.table, hsame.entries, hlen]
      exact h.inside i p hi hp
    apart := by
      intro i j d e hi hj hne hd he
      rw [hsame.entries] at hi hj
      rw [hstart i hi] at hd
      rw [hstart j hj] at he
      exact h.apart i j d e hi hj hne hd he }

theorem base_write (h : f.Inside first bs.length) (hi : i < f.entries) :
    (f.write bs first).base i = f.base i := by
  rw [File.base, start_write h hi, File.base]

theorem lt_entries {x : ℕ} (hx : x < f.entries * 2 ^ s) : x / 2 ^ s < f.entries :=
  Nat.div_lt_of_lt_mul (by rwa [Nat.mul_comm] at hx)

/-- A part of a block is inside. -/
theorem WellFormed.inside_part (h : WellFormed f s) (hi : i < f.entries) (hp : f.start i = some p)
    {q n : ℕ} (hq : q + n ≤ 512 + 2 ^ s) : f.Inside (p + q) n := by
  obtain ⟨hfirst, hside, hend⟩ := h.inside i p hi hp
  refine ⟨by omega, ?_, by omega⟩
  rcases hside with hle | hge
  · exact .inl (by omega)
  · exact .inr (by omega)

/-- Data stored in a block are data of the disk. -/
theorem WellFormed.disk_write_data (h : WellFormed f s) (hi : i < f.entries)
    (hp : f.start i = some p) {q : ℕ} (hq : q + bs.length ≤ 2 ^ s) {x : ℕ}
    (hx : x < f.entries * 2 ^ s) :
    (f.write bs (p + 512 + q)).disk x = place f.disk (i * 2 ^ s + q) bs x := by
  have hin : f.Inside (p + 512 + q) bs.length := by
    rw [Nat.add_assoc]
    exact h.inside_part hi hp (by omega)
  have hblock : (f.write bs (p + 512 + q)).blockSize = 2 ^ s := by
    rw [(sameHead_write f bs hin.1).blockSize, h.blockSize]
  rw [File.disk, File.disk, hblock, h.blockSize, content_congr (base_write hin (lt_entries hx))]
  exact content_place h.apart_base hi (base_of_start hp) hq hx

/-- Bits set in the bitmap of a block are not. -/
theorem WellFormed.disk_write_bitmap (h : WellFormed f s) (hi : i < f.entries)
    (hp : f.start i = some p) {q : ℕ} (hq : q + bs.length ≤ 512) {x : ℕ}
    (hx : x < f.entries * 2 ^ s) : (f.write bs (p + q)).disk x = f.disk x := by
  have hin : f.Inside (p + q) bs.length := h.inside_part hi hp (hq.trans (Nat.le_add_right _ _))
  have hblock : (f.write bs (p + q)).blockSize = 2 ^ s := by
    rw [(sameHead_write f bs hin.1).blockSize, h.blockSize]
  rw [File.disk, File.disk, hblock, h.blockSize, content_congr (base_write hin (lt_entries hx))]
  refine content_place_of_outside hx ?_
  intro j e hj he
  obtain ⟨p', hp', rfl⟩ := start_of_base he
  rcases eq_or_ne j i with rfl | hne
  · obtain rfl := Option.some.inj (hp'.symm.trans hp)
    omega
  · rcases h.apart j i p' p hj hi hne hp' hp with hle | hle
    · omega
    · omega

end Layout

/-! ## A new block -/

/-- The file with a new block for entry `i` in place of the footer. -/
def File.extend (f : File) (s i : ℕ) : File :=
  (f.write (toBytes 4 (ntohl ((f.length - 512) / 512))) (f.table + 4 * i)).write
    (List.replicate (512 + 2 ^ s) 0 ++ slice f.bytes 0 512) (f.length - 512)

section Extend

variable {f : File} {s i j x : ℕ}

theorem WellFormed.sameHead_extend (h : WellFormed f s) : SameHead f (f.extend s i) := by
  have hge := h.table_ge
  have hle := h.table_le
  exact (sameHead_write f _ (by omega)).trans (sameHead_write _ _ (by omega))

theorem WellFormed.length_extend (h : WellFormed f s) (hi : i < f.entries) :
    (f.extend s i).length = f.length + (512 + 2 ^ s) := by
  have hle := h.table_le
  have hpos := Nat.two_pow_pos s
  have hfirst : (f.write (toBytes 4 (ntohl ((f.length - 512) / 512))) (f.table + 4 * i)).length =
      f.length := length_write (by rw [length_toBytes]; omega)
  have hne : List.replicate (512 + 2 ^ s) (0 : UInt8) ++ slice f.bytes 0 512 ≠ [] := by
    intro hnil
    have := congrArg List.length hnil
    simp at this
  have hlen : (List.replicate (512 + 2 ^ s) (0 : UInt8) ++ slice f.bytes 0 512).length =
      512 + 2 ^ s + 512 := by simp
  rw [File.extend, length_write_of_ne_nil hne, hfirst, hlen]
  omega

/-- The new block and the footer behind it. -/
theorem bytes_extend (f : File) (s i : ℕ) :
    (f.extend s i).bytes =
      place (place (f.write (toBytes 4 (ntohl ((f.length - 512) / 512))) (f.table + 4 * i)).bytes
        (f.length - 512) (List.replicate (512 + 2 ^ s) 0)) (f.length - 512 + (512 + 2 ^ s))
        (slice f.bytes 0 512) := by
  have happend := place_append
    (f.write (toBytes 4 (ntohl ((f.length - 512) / 512))) (f.table + 4 * i)).bytes (f.length - 512)
    (List.replicate (512 + 2 ^ s) 0) (slice f.bytes 0 512)
  rw [List.length_replicate] at happend
  rw [File.extend, bytes_write, happend]

/-- What is in front of the old footer, and not the entry, stays. -/
theorem slice_extend {p n : ℕ} (hp : p + n ≤ f.length - 512)
    (hentry : p + n ≤ f.table + 4 * i ∨ f.table + 4 * i + 4 ≤ p) :
    slice (f.extend s i).bytes p n = slice f.bytes p n := by
  rw [File.extend, slice_write (.inl hp), slice_write]
  rw [length_toBytes]
  exact hentry

theorem WellFormed.start_extend_self (h : WellFormed f s) (hi : i < f.entries)
    (hroom : (f.length - 512) / 512 < noBlock) : (f.extend s i).start i = some (f.length - 512) := by
  have hle := h.table_le
  have hsector : 512 * ((f.length - 512) / 512) = f.length - 512 :=
    Nat.mul_div_cancel' (Nat.dvd_sub h.sectors (Nat.dvd_refl 512))
  have hentry : (f.extend s i).entry i = ntohl ((f.length - 512) / 512) := by
    rw [File.entry, h.sameHead_extend.table, File.extend, slice_write (.inl (by omega))]
    have hslice := slice_place f.bytes (f.table + 4 * i) (toBytes 4 (ntohl ((f.length - 512) / 512)))
    rw [length_toBytes] at hslice
    rw [File.write]
    dsimp only
    rw [hslice, ofBytes_toBytes_of_lt (by simpa using ntohl_lt _)]
  rw [File.start, hentry, if_neg (ntohl_ne_noBlock hroom),
    ntohl_ntohl (by rw [noBlock] at hroom; omega), hsector]

theorem WellFormed.start_extend_of_ne (h : WellFormed f s) (hj : j < f.entries) (hne : j ≠ i) : (f.extend s i).start j = f.start j := by
  have hle := h.table_le
  have hentry : (f.extend s i).entry j = f.entry j := by
    rw [File.entry, h.sameHead_extend.table, slice_extend (by omega) (by omega), File.entry]
  rw [File.start, hentry, File.start]

theorem WellFormed.extend (h : WellFormed f s) (hi : i < f.entries)
    (hroom : (f.length - 512) / 512 < noBlock) : WellFormed (f.extend s i) s := by
  have hsame := h.sameHead_extend (i := i)
  have hlen := h.length_extend hi
  have htable := h.table_le
  have hself := h.start_extend_self hi hroom
  have hother (j : ℕ) (hj : j < f.entries) (hne : j ≠ i) := h.start_extend_of_ne hj hne
  have hbefore (j p : ℕ) (hj : j < f.entries) (hne : j ≠ i) (hp : (f.extend s i).start j = some p) :
      f.Inside p (512 + 2 ^ s) := h.inside j p hj (by rwa [hother j hj hne] at hp)
  have hpow : 512 ∣ 2 ^ s := pow_dvd_pow 2 h.sector
  have hpos := Nat.two_pow_pos s
  exact {
    footerCookie := by rw [hsame.head 0 8 (by decide), h.footerCookie]
    diskType := by rw [hsame.head 60 4 (by decide), h.diskType]
    headerCookie := by rw [hsame.head 512 8 (by decide), h.headerCookie]
    blockSize := by rw [hsame.blockSize, h.blockSize]
    sector := h.sector
    size_pos := by rw [hsame.size]; exact h.size_pos
    size_lt := by rw [hsame.size]; exact h.size_lt
    covers := by rw [hsame.size, hsame.entries]; exact h.covers
    sectors := by
      rw [hlen]
      exact Nat.dvd_add h.sectors (Nat.dvd_add (Nat.dvd_refl 512) hpow)
    footer := by
      rw [hlen, hsame.head 0 512 (by decide), bytes_extend,
        show f.length + (512 + 2 ^ s) - 512 = f.length - 512 + (512 + 2 ^ s) by omega]
      have hslice := slice_place (place (f.write (toBytes 4 (ntohl ((f.length - 512) / 512)))
        (f.table + 4 * i)).bytes (f.length - 512) (List.replicate (512 + 2 ^ s) 0))
        (f.length - 512 + (512 + 2 ^ s)) (slice f.bytes 0 512)
      rwa [length_slice] at hslice
    table_ge := by rw [hsame.table]; exact h.table_ge
    table_le := by rw [hsame.table, hsame.entries, hlen]; omega
    inside := by
      intro j p hj hp
      rw [hsame.entries] at hj
      rw [File.Inside, hsame.table, hsame.entries, hlen]
      rcases eq_or_ne j i with rfl | hne
      · obtain rfl := Option.some.inj (hself.symm.trans hp)
        have := h.table_ge
        omega
      · obtain ⟨hfirst, hside, hend⟩ := hbefore j p hj hne hp
        exact ⟨hfirst, hside, by omega⟩
    apart := by
      intro j k d e hj hk hne hd he
      rw [hsame.entries] at hj hk
      rcases eq_or_ne j i with rfl | hji
      · obtain rfl := Option.some.inj (hself.symm.trans hd)
        have := (hbefore k e hk (Ne.symm hne) he).2.2
        omega
      · rcases eq_or_ne k i with rfl | hki
        · obtain rfl := Option.some.inj (hself.symm.trans he)
          have := (hbefore j d hj hji hd).2.2
          omega
        · rw [hother j hj hji] at hd
          rw [hother k hk hki] at he
          exact h.apart j k d e hj hk hne hd he }

/-- A new block does not change the disk. -/
theorem WellFormed.disk_extend (h : WellFormed f s) (hi : i < f.entries) (hnone : f.start i = none)
    (hroom : (f.length - 512) / 512 < noBlock) (hx : x < f.entries * 2 ^ s) :
    (f.extend s i).disk x = f.disk x := by
  have hle := h.table_le
  have hpos := Nat.two_pow_pos s
  have hbase : f.base i = none := by rw [File.base, hnone]; rfl
  have hzero (k : ℕ) (hk : k < 2 ^ s) : (f.extend s i).bytes (f.length - 512 + 512 + k) = 0 := by
    rw [bytes_extend, place_of_lt _ _ (by omega)]
    refine place_of_getElem? _ (by omega) ?_
    rw [List.getElem?_replicate, if_pos (by omega)]
  have hblock : (f.extend s i).blockSize = 2 ^ s := by rw [h.sameHead_extend.blockSize, h.blockSize]
  have hnew : (f.extend s i).base i = some (f.length - 512 + 512) :=
    base_of_start (h.start_extend_self hi hroom)
  have hsame : x / 2 ^ s ≠ i → (f.extend s i).base (x / 2 ^ s) = f.base (x / 2 ^ s) := by
    intro hne
    rw [File.base, h.start_extend_of_ne (lt_entries hx) hne, File.base]
  rw [File.disk, File.disk, hblock, h.blockSize, content_of_new (by positivity) hbase hnew hsame hzero]
  -- neither of the two writes meets the data of a block
  have hdata (j e : ℕ) (hj : j < f.entries) (he : f.base j = some e) :
      (e + 2 ^ s ≤ f.table ∨ f.table + 4 * f.entries ≤ e) ∧ e + 2 ^ s ≤ f.length - 512 := by
    obtain ⟨p, hp, rfl⟩ := start_of_base he
    obtain ⟨-, hside, hend⟩ := h.inside j p hj hp
    omega
  have hblocks : content (2 ^ s) f.base (f.extend s i).bytes x = content (2 ^ s) f.base
      (f.write (toBytes 4 (ntohl ((f.length - 512) / 512))) (f.table + 4 * i)).bytes x := by
    rw [File.extend, bytes_write]
    refine content_place_of_outside hx ?_
    intro j e hj he
    exact .inr (hdata j e hj he).2
  rw [hblocks, bytes_write]
  refine content_place_of_outside hx ?_
  intro j e hj he
  have := (hdata j e hj he).1
  rw [length_toBytes]
  omega

end Extend

end KernelDrivers.ImDisk.Vhd
