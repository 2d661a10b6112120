import KernelDrivers.Awe.Request

/-!
# The blocks of AWEAlloc as one flat array

The blocks of a context lie one behind the other and each of them is a whole number of pages.
Through the list of blocks every offset below the total size has one byte; a page that is
mapped shows the bytes of its offsets, however long ago it was mapped.

## Main definitions

* `Tiles` — the blocks from `0` to the total size.
* `image c a` — the byte at offset `a`.
* `Sound c` — the blocks tile, the sizes are in order and the stored page is a page of a block.

## Main results

* `addBlock_spec`, `setSizePass_spec`, `mapPage_spec` — one lemma for each routine.
* `image_store` — a copy into a mapped page changes the bytes of its range and no others.
-/

namespace KernelDrivers.Awe

/-! ### Pages -/

theorem getPageBase_le (o : ℤ) : getPageBase o ≤ o := by
  have := Int.emod_nonneg o (by decide : (allocPageSize : ℤ) ≠ 0)
  rw [getPageBase]
  omega

theorem lt_getPageBase_add (o : ℤ) : o < getPageBase o + allocPageSize := by
  have := Int.emod_lt_of_pos o (by decide : (0 : ℤ) < allocPageSize)
  rw [getPageBase]
  omega

theorem dvd_getPageBase (o : ℤ) : (allocPageSize : ℤ) ∣ getPageBase o :=
  Int.dvd_self_sub_emod

theorem getPageBase_add_getPageOffset (o : ℤ) : getPageBase o + getPageOffset o = o := by
  have := Int.emod_nonneg o (by decide : (allocPageSize : ℤ) ≠ 0)
  rw [getPageBase, getPageOffset, Int.toNat_of_nonneg this]
  omega

theorem getPageOffset_lt (o : ℤ) : getPageOffset o < allocPageSize := by
  have h := getPageBase_add_getPageOffset o
  have := lt_getPageBase_add o
  omega

/-! ### Blocks -/

/-- What a block covers: the whole pages of its MDL. -/
def Block.size (b : Block) : ℤ := getPageBase b.byteCount

/-- The blocks, newest first, cover `0` to `total` one behind the other.  An MDL is known by the
number of blocks before it. -/
def Tiles : List Block → ℤ → Prop
  | [], total => total = 0
  | b :: bs, total => 0 < b.size ∧ b.offset + b.size = total ∧ b.mdl = bs.length ∧ Tiles bs b.offset

namespace Tiles

variable {bs : List Block} {total a : ℤ} {b b' : Block}

theorem nonneg (h : Tiles bs total) : 0 ≤ total := by
  induction bs generalizing total with
  | nil => exact h.ge
  | cons b bs ih =>
      have := ih h.2.2.2
      have := h.1
      have := h.2.1
      omega

theorem dvd (h : Tiles bs total) : (allocPageSize : ℤ) ∣ total := by
  induction bs generalizing total with
  | nil => exact h ▸ dvd_zero _
  | cons b bs ih =>
      rw [← h.2.1]
      exact (ih h.2.2.2).add (dvd_getPageBase _)

/-- Where a block of a tiling lies. -/
theorem of_mem (h : Tiles bs total) (hb : b ∈ bs) :
    0 < b.size ∧ 0 ≤ b.offset ∧ (allocPageSize : ℤ) ∣ b.offset ∧ b.offset + b.size ≤ total ∧
      b.mdl < bs.length := by
  induction bs generalizing total with
  | nil => simp at hb
  | cons b' bs ih =>
      have hrest := h.2.2.2
      rcases List.mem_cons.mp hb with rfl | hb
      · exact ⟨h.1, hrest.nonneg, hrest.dvd, h.2.1.le, by simp [h.2.2.1]⟩
      · obtain ⟨hpos, h0, hdvd, hend, hmdl⟩ := ih hrest hb
        have := h.1
        have := h.2.1
        exact ⟨hpos, h0, hdvd, by omega, by rw [List.length_cons]; omega⟩

theorem eq_of_mdl (h : Tiles bs total) (hb : b ∈ bs) (hb' : b' ∈ bs) (hmdl : b.mdl = b'.mdl) :
    b = b' := by
  induction bs generalizing total with
  | nil => simp at hb
  | cons d bs ih =>
      have hold : ∀ e ∈ bs, e.mdl ≠ d.mdl := by
        intro e he
        have := (h.2.2.2.of_mem he).2.2.2.2
        have := h.2.2.1
        omega
      rcases List.mem_cons.mp hb with hd | hb <;> rcases List.mem_cons.mp hb' with hd' | hb'
      · exact hd.trans hd'.symm
      · exact absurd (hd ▸ hmdl.symm) (hold _ hb')
      · exact absurd (hd' ▸ hmdl) (hold _ hb)
      · exact ih h.2.2.2 hb hb'

/-- The search from the newest block on finds the block of an offset. -/
theorem find (h : Tiles bs total) (hb : b ∈ bs) (hle : b.offset ≤ a) (hlt : a < b.offset + b.size) :
    bs.find? (fun b => b.offset ≤ a) = some b := by
  induction bs generalizing total with
  | nil => simp at hb
  | cons d bs ih =>
      rcases List.mem_cons.mp hb with rfl | hb
      · simp [hle]
      · have hend := (h.2.2.2.of_mem hb).2.2.2.1
        have hnot : ¬ d.offset ≤ a := by omega
        rw [List.find?_cons_of_neg (by simpa using hnot)]
        exact ih h.2.2.2 hb

/-- Every offset below the total size is in a block. -/
theorem exists_block (h : Tiles bs total) (h0 : 0 ≤ a) (hlt : a < total) :
    ∃ b ∈ bs, b.offset ≤ a ∧ a < b.offset + b.size := by
  induction bs generalizing total with
  | nil =>
      have : total = 0 := h
      omega
  | cons b bs ih =>
      by_cases hle : b.offset ≤ a
      · exact ⟨b, List.mem_cons_self, hle, h.2.1 ▸ hlt⟩
      · obtain ⟨d, hd, hmem⟩ := ih h.2.2.2 (by omega)
        exact ⟨d, List.mem_cons_of_mem _ hd, hmem⟩

end Tiles

/-! ### The image and the mapped pages -/

/-- The byte at an offset, through the list of blocks. -/
def image (c : Context) (a : ℤ) : UInt8 :=
  match c.blocks.find? fun b => b.offset ≤ a with
  | some b => if a < c.totalSize then c.memory b.mdl (a - b.offset).toNat else 0
  | none => 0

/-- `m` shows the page of 2 MB at `base`. -/
def Maps (bs : List Block) (base : ℤ) (m : Mapping) : Prop :=
  ∃ b ∈ bs, b.offset ≤ base ∧ base + allocPageSize ≤ b.offset + b.size ∧
    m = ⟨b.mdl, (base - b.offset).toNat, allocPageSize⟩

/-- What a page context maps, if anything, is the page it says. -/
def PageContext.Valid (bs : List Block) (p : PageContext) : Prop :=
  ∀ m, p.mapping = some m → Maps bs p.pageBase m

theorem PageContext.empty_valid (bs : List Block) : PageContext.empty.Valid bs := by
  simp [PageContext.Valid, PageContext.empty]

theorem PageContext.Valid.cons {bs : List Block} {p : PageContext} (h : p.Valid bs) (b : Block) :
    p.Valid (b :: bs) := by
  intro m hm
  obtain ⟨d, hd, hmaps⟩ := h m hm
  exact ⟨d, List.mem_cons_of_mem _ hd, hmaps⟩

/-- The largest size for which the total size stays a `LONGLONG`. -/
def sizeLimit : ℤ := 2 ^ 63 - 2 ^ 21

structure Sound (c : Context) : Prop where
  tiles : Tiles c.blocks c.totalSize
  virtual_nonneg : 0 ≤ c.virtualSize
  virtual_le : c.virtualSize ≤ c.totalSize
  total_le : c.totalSize ≤ sizeLimit
  page : c.latestPageContext.Valid c.blocks

variable {c c' : Context}

theorem image_eq (h : Tiles c.blocks c.totalSize) {b : Block} (hb : b ∈ c.blocks) {a : ℤ}
    (hle : b.offset ≤ a) (hlt : a < b.offset + b.size) :
    image c a = c.memory b.mdl (a - b.offset).toNat := by
  have hend := (h.of_mem hb).2.2.2.1
  rw [image, h.find hb hle hlt]
  exact if_pos (by omega)

/-- Outside of the blocks there is no byte. -/
theorem image_eq_zero (h : Tiles c.blocks c.totalSize) {a : ℤ} (ha : a < 0 ∨ c.totalSize ≤ a) :
    image c a = 0 := by
  rw [image]
  split
  · next b hfind =>
      have hmem := List.mem_of_find?_eq_some hfind
      have hle : b.offset ≤ a := by simpa using List.find?_some hfind
      have := (h.of_mem hmem).2.1
      exact if_neg (by omega)
  · rfl

/-- A copy of `n` bytes into a mapped page at `lo`. -/
theorem image_store (h : Tiles c.blocks c.totalSize) (source : ℕ → UInt8) {base lo : ℤ}
    {m : Mapping} {n : ℕ} (hm : Maps c.blocks base m) (hlo : base ≤ lo)
    (hhi : lo + n ≤ base + allocPageSize) (a : ℤ) :
    image (c.store m.mdl (m.start + (lo - base).toNat) n source) a =
      if lo ≤ a ∧ a < lo + n then source (a - lo).toNat else image c a := by
  obtain ⟨b, hb, hle, hend, rfl⟩ := hm
  by_cases hin : 0 ≤ a ∧ a < c.totalSize
  · obtain ⟨d, hd, hda, hda'⟩ := h.exists_block hin.1 hin.2
    rw [image_eq (c := c.store _ _ _ _) h hd hda hda', image_eq h hd hda hda', Context.store]
    dsimp only
    by_cases hmdl : d.mdl = b.mdl
    · obtain rfl := h.eq_of_mdl hd hb hmdl
      rw [Function.update_self]
      by_cases hr : lo ≤ a ∧ a < lo + n
      · rw [if_pos (by omega), if_pos hr]
        congr 1
        omega
      · rw [if_neg (by omega), if_neg hr]
    · -- another block: the offset is not in the page of `b`
      rw [Function.update_of_ne hmdl, if_neg]
      rintro ⟨hlo', hhi'⟩
      have h1 := h.find hd hda hda'
      rw [h.find hb (a := a) (by omega) (by omega)] at h1
      exact hmdl (by rw [Option.some.inj h1])
  · have hout : a < 0 ∨ c.totalSize ≤ a := by omega
    have hspec := h.of_mem hb
    rw [image_eq_zero (c := c.store _ _ _ _) h hout, image_eq_zero h hout, if_neg (by omega)]

/-! ### The size -/

/-- What a pass asks for fits under the limit. -/
theorem bytesToAllocate_le (h : Tiles c.blocks c.totalSize) {endOfFile : ℤ}
    (hlt : c.totalSize < endOfFile) (hlim : endOfFile ≤ sizeLimit) :
    c.totalSize + bytesToAllocate c endOfFile ≤ sizeLimit := by
  obtain ⟨k, hk⟩ := h.dvd
  rw [bytesToAllocate]
  split <;> simp only [getRequiredPages, getPageBase, maxBlockSize, allocPageSize, sizeLimit] at * <;>
    omega

/-- A block of zeroed pages shows the zeros that were there without it. -/
theorem image_addBlock (h : Tiles c.blocks c.totalSize) (h' : Tiles c'.blocks c'.totalSize)
    {b : Block} (hblocks : c'.blocks = b :: c.blocks) (hoff : b.offset = c.totalSize)
    (hmem : c'.memory = Function.update c.memory b.mdl fun _ => 0) (a : ℤ) :
    image c' a = image c a := by
  have hcons := h'
  rw [hblocks] at hcons
  obtain ⟨hpos, hend, hmdl, -⟩ := hcons
  by_cases hin : 0 ≤ a ∧ a < c'.totalSize
  · by_cases hold : a < c.totalSize
    · obtain ⟨d, hd, hda, hda'⟩ := h.exists_block hin.1 hold
      have hlt := (h.of_mem hd).2.2.2.2
      have hd' : d ∈ c'.blocks := hblocks ▸ List.mem_cons_of_mem _ hd
      rw [image_eq h hd hda hda', image_eq h' hd' hda hda', hmem, Function.update_of_ne (by omega)]
    · have hb' : b ∈ c'.blocks := hblocks ▸ List.mem_cons_self
      rw [image_eq_zero h (.inr (by omega)), image_eq h' hb' (by omega) (by omega), hmem,
        Function.update_self]
  · rw [image_eq_zero h' (by omega), image_eq_zero h (by omega)]

/-- `AWEAllocAddBlock` puts zeroed pages behind what is there. -/
theorem addBlock_spec (h : Sound c) {endOfFile : ℤ} {granted : Option ℕ}
    (hlt : c.totalSize < endOfFile) (hlim : endOfFile ≤ sizeLimit)
    (hadd : addBlock c (bytesToAllocate c endOfFile) granted = some c') :
    Sound c' ∧ image c' = image c ∧ c'.virtualSize = c.virtualSize ∧
      c.totalSize < c'.totalSize ∧ ∃ b, c'.blocks = b :: c.blocks := by
  have hroom := bytesToAllocate_le h.tiles hlt hlim
  have hnonneg := h.tiles.nonneg
  cases granted with
  | none => simp [addBlock] at hadd
  | some granted =>
      simp only [addBlock] at hadd
      generalize hn : min granted (bytesToAllocate c endOfFile) = n at hadd
      split at hadd
      · simp at hadd
      · next hne =>
          have hpos : 0 < getPageBase n := by
            simp only [getPageBase, allocPageSize] at hne ⊢
            omega
          have hle := getPageBase_le n
          have hsum : (c.totalSize + getPageBase n).bmod (2 ^ 64) = c.totalSize + getPageBase n := by
            apply Int.bmod_eq_of_le <;> simp only [sizeLimit] at hroom <;> omega
          rw [hsum] at hadd
          cases hadd
          have htiles : Tiles (⟨c.totalSize, c.blocks.length, n⟩ :: c.blocks)
              (c.totalSize + getPageBase n) := ⟨hpos, rfl, rfl, h.tiles⟩
          refine ⟨⟨htiles, h.virtual_nonneg, ?_, ?_, h.page.cons _⟩, ?_, rfl, by simpa using hpos,
            _, rfl⟩
          · exact h.virtual_le.trans (by simpa using hpos.le)
          · change c.totalSize + getPageBase n ≤ sizeLimit
            omega
          · funext a
            exact image_addBlock h.tiles htiles rfl rfl rfl a

/-- What a pass of `AWEAllocSetSize` leaves, by the way it ends: the loop goes on with more
memory, the size is set, or there is no memory and the size is what it was. -/
structure Sized (c : Context) (endOfFile : ℤ) (c' : Context) (status : Option Status) : Prop where
  sound : Sound c'
  image : image c' = image c
  blocks : c'.blocks = c.blocks ∨ ∃ b, c'.blocks = b :: c.blocks
  goesOn : status = none → c'.virtualSize = c.virtualSize ∧ c.totalSize < c'.totalSize ∧
    c.totalSize < endOfFile
  ends : ∀ st, status = some st → st = .success ∧ c'.virtualSize = endOfFile ∨
    st = .noMemory ∧ c'.virtualSize = c.virtualSize

theorem setSizePass_spec (h : Sound c) {endOfFile : ℤ} (h0 : 0 ≤ endOfFile)
    (hlim : endOfFile ≤ sizeLimit) (g : Grant) :
    Sized c endOfFile (setSizePass c endOfFile g).1 (setSizePass c endOfFile g).2 := by
  rw [setSizePass]
  split
  · next hfits =>
      have hnonneg := h.tiles.nonneg
      have hle : endOfFile ≤ c.totalSize := by omega
      exact ⟨⟨h.tiles, h0, hle, h.total_le, h.page⟩, rfl, .inl rfl, by simp, by simp⟩
  · next hmore =>
      have hlt : c.totalSize < endOfFile := by omega
      split
      · exact ⟨h, rfl, .inl rfl, by simp, by simp⟩
      · split
        · next c' hfind =>
            obtain ⟨granted, -, hadd⟩ := List.exists_of_findSome?_eq_some hfind
            obtain ⟨hsound, himage, hvirtual, htotal, hblocks⟩ := addBlock_spec h hlt hlim hadd
            exact ⟨hsound, himage, .inr hblocks, fun _ => ⟨hvirtual, htotal, hlt⟩, by simp⟩
        · exact ⟨h, rfl, .inl rfl, by simp, by simp⟩

/-! ### The mapped page -/

theorem PageContext.covers_iff {p : PageContext} {o : ℤ} :
    p.covers o = true ↔ 0 ≤ o ∧ p.pageBase = getPageBase o ∧ ∃ m, p.mapping = some m := by
  simp [PageContext.covers, Option.isSome_iff_exists, and_assoc]

theorem PageContext.Valid.maps {bs : List Block} {p : PageContext} {o : ℤ} (h : p.Valid bs)
    (hc : p.covers o = true) : ∃ m, p.mapping = some m ∧ Maps bs (getPageBase o) m := by
  obtain ⟨-, hbase, m, hm⟩ := PageContext.covers_iff.mp hc
  exact ⟨m, hm, hbase ▸ h m hm⟩

/-- What `AWEAllocMapPage` leaves: only the stored page of the context changes, and the page
of the request is the one of the offset, unless the system refused to map it. -/
structure Mapped (c : Context) (o : ℤ) (g : MapGrant) (c' : Context) (p : PageContext)
    (status : Status) : Prop where
  context : ∃ q : PageContext, q.Valid c.blocks ∧ c' = { c with latestPageContext := q }
  page : p.Valid c.blocks
  outcome : status = .success ∨
    status = .insufficientResources ∧ (g.mdl = false ∨ g.address = false)
  maps : 0 ≤ o → status = .success → ∃ m, p.mapping = some m ∧ Maps c.blocks (getPageBase o) m

theorem mapBlock_spec (h : Tiles c.blocks c.totalSize) {b : Block} (hb : b ∈ c.blocks) {o : ℤ}
    (hle : b.offset ≤ getPageBase o) (hlt : getPageBase o < b.offset + b.size) (g : MapGrant) :
    (mapBlock (getPageBase o) b g = (PageContext.empty, .insufficientResources) ∧
      (g.mdl = false ∨ g.address = false)) ∨
    ∃ m, mapBlock (getPageBase o) b g = (⟨getPageBase o, some m⟩, .success) ∧
      Maps c.blocks (getPageBase o) m := by
  obtain ⟨k, hk⟩ := (h.of_mem hb).2.2.1
  obtain ⟨l, hl⟩ := dvd_getPageBase o
  obtain ⟨n, hn⟩ := dvd_getPageBase b.byteCount
  have hsize := getPageBase_le b.byteCount
  -- both ends are at page boundaries, so a whole page is left in the block
  have hwhole : getPageBase o + allocPageSize ≤ b.offset + b.size := by
    simp only [Block.size, allocPageSize] at *
    omega
  have hsmall : ¬ (b.byteCount : ℤ) ≤ getPageBase o - b.offset := by
    simp only [Block.size] at hlt
    omega
  rw [mapBlock, if_neg hsmall]
  split
  · next hrefused => exact .inl ⟨rfl, hrefused⟩
  · refine .inr ⟨_, rfl, b, hb, hle, hwhole, ?_⟩
    rw [Nat.min_eq_right]
    simp only [Block.size] at hwhole
    omega

theorem mapPage_spec (h : Sound c) {p : PageContext} (hp : p.Valid c.blocks) {o : ℤ}
    (ho : o < c.totalSize) (g : MapGrant) :
    Mapped c o g (mapPage c o p g).1 (mapPage c o p g).2.1 (mapPage c o p g).2.2 := by
  unfold mapPage
  split
  · next hcov =>
      exact ⟨⟨c.latestPageContext, h.page, rfl⟩, hp, .inl rfl, fun _ _ => hp.maps hcov⟩
  · dsimp only
    split
    · next hcov => exact ⟨⟨p, hp, rfl⟩, h.page, .inl rfl, fun _ _ => h.page.maps hcov⟩
    · split
      · next hneg =>
          exact ⟨⟨p, hp, rfl⟩, PageContext.empty_valid _, .inl rfl, fun h0 => by omega⟩
      · next hneg =>
          have hbase : 0 ≤ getPageBase o := by
            simp only [getPageBase, allocPageSize]
            omega
          obtain ⟨b, hb, hle, hlt⟩ :=
            h.tiles.exists_block hbase (lt_of_le_of_lt (getPageBase_le o) ho)
          rw [h.tiles.find hb hle hlt]
          dsimp only
          obtain ⟨heq, hrefused⟩ | ⟨m, heq, hmaps⟩ := mapBlock_spec h.tiles hb hle hlt g
          · rw [heq]
            exact ⟨⟨p, hp, rfl⟩, PageContext.empty_valid _, .inr ⟨rfl, hrefused⟩, by simp⟩
          · rw [heq]
            refine ⟨⟨p, hp, rfl⟩, ?_, .inl rfl, fun _ _ => ⟨m, rfl, hmaps⟩⟩
            intro m' hm'
            rwa [← Option.some.inj hm']

end KernelDrivers.Awe
