import KernelDrivers.CoreMnt.SparseDisk
import KernelDrivers.Lib.Reach

/-!
# What a sparse image believes of its file

When an image is opened its table is read from the file, header and all: the number of entries that the
checks of an index go by is that of the file, and the size of the table in memory is that of the
constructor's arguments.  The routines are written here once more, with the entries that they access and
the places in the file that they compute.

## Main definitions

* `Traced` — an image with what was accessed.
* `openImage` — the constructor, for a file that is there.
* `Stable` — what every access keeps.
* `Safe` — every access is in the table, or behind it in the file.
* `Trustworthy` — the table can be believed.

## Main results

* `Stable.reach` — what is stable holds in every run of calls.
* `traces_read`, `traces_write` — the routines are those of the image.
* `safe_iff` — all accesses are safe in exactly these cases.
-/

namespace KernelDrivers.CoreMnt.Sparse

open KernelDrivers.Fat (ulong ulongSub ulong_of_lt)

namespace Trust

/-- The access of an entry, or the place of a byte of a block in the file. -/
inductive Event
  | entry (index : ℕ)
  | position (x : ℕ)

/-- An image, its accesses and the call of `impl_` that throws. -/
structure Traced where
  image : Image
  events : List Event
  fault : Option ℕ

namespace Traced

def add (t : Traced) (e : Event) : Traced := { t with events := e :: t.events }

def setImage (t : Traced) (im : Image) : Traced := { t with image := im }

end Traced

abbrev TraceM := EStateM Unit Traced

/-! ## The routines -/

/-- A routine of the image. -/
def onImage {α : Type} (x : SparseM α) : TraceM α := onPart Traced.image Traced.setImage x

/-- The access of an entry that is behind the check of its index. -/
@[irreducible]
def touch (index : ℕ) : TraceM Unit :=
  modify fun t => if index < t.image.indexTableSize then t.add (.entry index) else t

/-- A call of `impl_`. -/
def access : TraceM Unit := fun t =>
  if t.fault = some 0 then .error () { t with fault := none }
  else .ok () { t with fault := t.fault.map (· - 1) }

/-- `getLogBlock` goes through the table. -/
def getLogBlock (t : Traced) : Traced :=
  { t with events := (List.range t.image.indexTableSize).map Event.entry ++ t.events }

/-- The constructor, without `fCreate`. -/
def openImage (p : Params) (file : ℕ → UInt8) : Option Traced :=
  (sparseImage p file false).map fun im => getLogBlock ⟨im, [], none⟩

def tableAt (index : ℕ) : TraceM ℕ := do
  touch index
  onImage (Sparse.tableAt index)

def tableSet (index val : ℕ) : TraceM Unit := do
  touch index
  onImage (Sparse.tableSet index val)

def tableReset (index : ℕ) : TraceM Unit := do
  touch index
  onImage (Sparse.tableReset index)

def addNewBlock (index : ℕ) : TraceM Unit := do
  let t ← get
  tableSet index t.image.usedBlockCount
  tryCatch (access >>= fun _ => onImage (modify Image.writeTable)) fun _ =>
    tableReset index >>= fun _ => throw ()

/-- The place of a byte of a block in the file, where its token is not the one of unused blocks. -/
def locate (blockToken offset : ℕ) : TraceM Unit := fun t =>
  if blockToken = unusedBlockToken then .error () t
  else .ok () (t.add (.position (t.image.position blockToken offset)))

def readFromBlock (buffer : ℕ → UInt8) (p blockIndex offset size : ℕ) : TraceM (ℕ → UInt8) := do
  let blockToken ← tableAt blockIndex
  locate blockToken offset
  access
  let t ← get
  return place buffer p (slice t.image.file (t.image.position blockToken offset) size)

def writeToBlock (data : List UInt8) (blockIndex offset : ℕ) : TraceM Unit := do
  let blockToken ← tableAt blockIndex
  locate blockToken offset
  access
  onImage (modify fun im => { im with file := place im.file (im.position blockToken offset) data })

/-- The loop of `Read`. -/
def readBlocks (s : Span) (length : ℕ) : (blocks current : ℕ) → (buffer : ℕ → UInt8) →
    (p done : ℕ) → TraceM (ℕ → UInt8)
  | 0, _, buffer, _, _ => pure buffer
  | blocks + 1, current, buffer, p, done =>
      if ¬ done < length ∨ (current = s.lastBlockIndex ∧ s.lastBlockOffset = 0) then pure buffer
      else
        tableAt current >>= fun currentBlockToken =>
          if currentBlockToken = unusedBlockToken then
            readBlocks s length blocks (current + 1) buffer p done
          else if s.stop current < s.start current then throw ()
          else
            readFromBlock buffer p current (s.start current) (s.stop current - s.start current) >>=
              fun filled =>
                readBlocks s length blocks (current + 1) filled
                  (p + (s.stop current - s.start current))
                  (done + (s.stop current - s.start current))

/-- `Read`. -/
def read (buffer : ℕ → UInt8) (offset length : ℕ) : TraceM (ℕ → UInt8) := fun t =>
  match span t.image.params.blockSize offset length with
  | none => .error () t
  | some s => readBlocks s length (s.lastBlockIndex + 1 - s.firstBlockIndex) s.firstBlockIndex
      buffer 0 0 t

/-- A part of `Write`: the block is made where there is none. -/
def prepareBlock (current : ℕ) : TraceM Unit :=
  tableAt current >>= fun currentBlockToken =>
    if currentBlockToken = unusedBlockToken then addNewBlock current else pure ()

/-- A part of `Write`: the bytes for one block. -/
def writePart (s : Span) (current : ℕ) (data : List UInt8) : TraceM Unit :=
  if s.stop current < s.start current then throw ()
  else writeToBlock (data.take (s.stop current - s.start current)) current (s.start current)

/-- The loop of `Write`. -/
def writeBlocks (s : Span) (length : ℕ) : (blocks current : ℕ) → (data : List UInt8) →
    (done : ℕ) → TraceM Unit
  | 0, _, _, _ => pure ()
  | blocks + 1, current, data, done =>
      if ¬ done < length then pure ()
      else do
        prepareBlock current
        writePart s current data
        writeBlocks s length blocks (current + 1) (data.drop (s.stop current - s.start current))
          (done + (s.stop current - s.start current))

/-- `Write`. -/
def write (data : List UInt8) (offset : ℕ) : TraceM Unit := fun t =>
  match span t.image.params.blockSize offset data.length with
  | none => .error () t
  | some s => writeBlocks s data.length (s.lastBlockIndex + 1 - s.firstBlockIndex) s.firstBlockIndex
      data 0 t

/-! ## Runs -/

/-- A call, and which call of `impl_` throws in it. -/
inductive Request
  | read (buffer : ℕ → UInt8) (offset length : ℕ) (fault : Option ℕ)
  | write (data : List UInt8) (offset : ℕ) (fault : Option ℕ)

/-- The arguments have the widths of their types. -/
def Request.Valid : Request → Prop
  | .read _ offset length _ => offset < 2 ^ 64 ∧ length < 2 ^ 32
  | .write data offset _ => offset < 2 ^ 64 ∧ data.length < 2 ^ 32

/-- The state behind a routine, whether it has thrown or not. -/
def after {α : Type} (x : TraceM α) (t : Traced) : Traced :=
  match x t with
  | .ok _ t => t
  | .error _ t => t

def step (t : Traced) : Request → Traced
  | .read buffer offset length fault => after (read buffer offset length) { t with fault := fault }
  | .write data offset fault => after (write data offset) { t with fault := fault }

/-- The access is in the table, or behind it in the file. -/
def Event.Safe (p : Params) (dataOffset : ℕ) : Event → Prop
  | .entry index => headerSize + 4 * index + 4 ≤ dataOffset
  | .position x => p.headerOffset + dataOffset ≤ x

/-- Every access of every run of calls is safe. -/
def Safe (t : Traced) : Prop :=
  ∀ t', Reach step (fun _ r => r.Valid) t t' →
    ∀ e ∈ t'.events, e.Safe t.image.params t.image.dataOffset

/-- All bytes of a block with this token have places behind the table. -/
def Fits (im : Image) (token : ℕ) : Prop :=
  im.dataStart + ulong (token * im.params.blockSize) + im.params.blockSize ≤ 2 ^ 32

/-- The entries without a token. -/
def freeEntries (im : Image) : Finset ℕ :=
  (Finset.range im.indexTableSize).filter fun i => im.token i = unusedBlockToken

/-- The entries are in the table, and the tokens that are in use or will be are those of blocks behind
it. -/
structure Trustworthy (im : Image) : Prop where
  entries : headerSize + 4 * im.indexTableSize ≤ im.dataOffset
  used : ∀ i < im.indexTableSize, im.token i ≠ unusedBlockToken → Fits im (im.token i)
  next : ∀ k < (freeEntries im).card, im.usedBlockCount + k < unusedBlockToken →
    Fits im (im.usedBlockCount + k)

/-! ## What every access keeps -/

theorem ulong_lt (n : ℕ) : ulong n < 2 ^ 32 := Nat.mod_lt _ (by norm_num)

/-- What is kept by every access of an entry or a block, by a new token and by giving the last one
back. -/
structure Stable (p : Params) (P : Traced → Prop) : Prop where
  params : ∀ {t}, P t → t.image.params = p
  entry : ∀ {t i}, P t → i < t.image.indexTableSize → P (t.add (.entry i))
  position : ∀ {t i q}, P t → i < t.image.indexTableSize → t.image.token i ≠ unusedBlockToken →
    q < p.blockSize → P (t.add (.position (t.image.position (t.image.token i) q)))
  assign : ∀ {t i}, P t → i < t.image.indexTableSize → t.image.token i = unusedBlockToken →
    t.image.usedBlockCount ≠ unusedBlockToken →
    P (t.setImage (t.image.assign i t.image.usedBlockCount (ulong (t.image.usedBlockCount + 1))))
  release : ∀ {t i}, P t → i < t.image.indexTableSize → t.image.token i ≠ unusedBlockToken →
    t.image.token i = ulongSub t.image.usedBlockCount 1 →
    P (t.setImage (t.image.assign i unusedBlockToken (ulongSub t.image.usedBlockCount 1)))
  file : ∀ {t} (file), P t → P (t.setImage { t.image with file := file })
  fault : ∀ {t} (fault), P t → P { t with fault := fault }

theorem eq_spanOf {bs offset length : ℕ} {s : Span} (h : span bs offset length = some s) :
    s = spanOf bs offset length := by
  simp only [span, numericCast] at h
  by_cases hfirst : offset / bs < 2 ^ 32
  · by_cases hlast : (offset + length) / bs < 2 ^ 32
    · rw [if_pos hfirst, if_pos hlast] at h
      exact (Option.some.inj h).symm
    · rw [if_pos hfirst, if_neg hlast] at h
      exact absurd h (by simp)
  · rw [if_neg hfirst] at h
    exact absurd h (by simp)

section Stable

variable {p : Params} {P : Traced → Prop} (hP : Stable p P) {t : Traced} {i : ℕ}

include hP

theorem Stable.sat_touch {E : Unit → Traced → Prop} (h : P t) :
    Sat (touch i) t (fun _ t' => P t' ∧ t'.image = t.image) E := by
  rw [touch]
  apply Sat.modify
  split
  · next hi => exact ⟨hP.entry h hi, rfl⟩
  · exact ⟨h, rfl⟩

theorem Stable.sat_access (h : P t) :
    Sat access t (fun _ t' => P t' ∧ t'.image = t.image) (fun _ t' => P t' ∧ t'.image = t.image) := by
  by_cases hfault : t.fault = some 0
  · exact Sat.of_error (if_pos hfault) ⟨hP.fault none h, rfl⟩
  · exact Sat.of_ok (if_neg hfault) ⟨hP.fault _ h, rfl⟩

theorem Stable.sat_tableAt (h : P t) :
    Sat (tableAt i) t (fun token t' => P t' ∧ t'.image = t.image ∧ i < t.image.indexTableSize ∧
      token = t.image.token i) (fun _ t' => P t') := by
  rw [tableAt]
  refine Sat.bind (hP.sat_touch h) ?_
  rintro _ t' ⟨h', him⟩
  rw [← him]
  apply Sat.onPart
  simp only [Sparse.tableAt]
  apply Sat.get_bind
  split
  · exact Sat.throw h'
  · next hi => exact Sat.pure ⟨h', rfl, not_le.mp hi, rfl⟩

/-- The next number becomes the token of a free entry. -/
theorem Stable.sat_tableSet (h : P t) {E : Unit → Traced → Prop} (hE : ∀ t', P t' → E () t') :
    Sat (tableSet i t.image.usedBlockCount) t (fun _ t' => P t' ∧ i < t.image.indexTableSize ∧
      t.image.token i = unusedBlockToken ∧ t.image.usedBlockCount ≠ unusedBlockToken ∧
      t'.image = t.image.assign i t.image.usedBlockCount (ulong (t.image.usedBlockCount + 1))) E := by
  rw [tableSet]
  refine Sat.bind (hP.sat_touch h) ?_
  rintro _ t' ⟨h', him⟩
  rw [← him]
  apply Sat.onPart
  simp only [Sparse.tableSet]
  apply Sat.get_bind
  split
  · exact Sat.throw (hE _ h')
  · next hi =>
      split
      · exact Sat.throw (hE _ h')
      · next hfree =>
          rw [not_or, not_not] at hfree
          exact ⟨hP.assign h' (not_le.mp hi) hfree.1 hfree.2, not_le.mp hi, hfree.1, hfree.2, rfl⟩

/-- The last number that was given is taken back. -/
theorem Stable.sat_tableReset (h : P t) (hlast : i < t.image.indexTableSize →
    t.image.token i ≠ unusedBlockToken → t.image.token i = ulongSub t.image.usedBlockCount 1) :
    Sat (tableReset i) t (fun _ t' => P t') (fun _ t' => P t') := by
  rw [tableReset]
  refine Sat.bind (hP.sat_touch h) ?_
  rintro _ t' ⟨h', him⟩
  rw [← him] at hlast
  apply Sat.onPart
  simp only [Sparse.tableReset]
  apply Sat.get_bind
  split
  · exact Sat.throw h'
  · next hi =>
      split
      · exact Sat.throw h'
      · next hused => exact hP.release h' (not_le.mp hi) hused (hlast (not_le.mp hi) hused)

theorem Stable.sat_addNewBlock (h : P t) :
    Sat (addNewBlock i) t (fun _ t' => P t') (fun _ t' => P t') := by
  rw [addNewBlock]
  apply Sat.get_bind
  refine Sat.bind (hP.sat_tableSet h fun _ h' => h') ?_
  rintro _ t' ⟨h', hi, hfree, hused, him⟩
  have hlt : t.image.usedBlockCount < 2 ^ 32 := by
    have hbytes := ofBytes_lt (slice t.image.table 4 4)
    rwa [length_slice] at hbytes
  have hset : Sat (access >>= fun _ => onImage (modify Image.writeTable)) t' (fun _ t' => P t')
      (fun _ u => P u ∧ u.image = t'.image) := by
    refine Sat.bind ((hP.sat_access h').mono (fun _ _ h => h.1) fun _ _ h => h) ?_
    intro _ u hu
    apply Sat.onPart
    exact Sat.modify (hP.file _ hu)
  have hreset : ∀ u, P u ∧ u.image = t'.image →
      Sat (tableReset i >>= fun _ => (throw () : TraceM Unit)) u (fun _ t' => P t')
        (fun _ t' => P t') := by
    rintro u ⟨hu, hsame⟩
    refine Sat.bind (hP.sat_tableReset hu ?_) ?_
    · intro _ _
      rw [hsame, him, token_assign_self hlt, used_assign (ulong_lt _), ulongSub,
        ulong]
      omega
    · intro _ _ h
      exact Sat.throw h
  exact Sat.tryCatch hset fun _ => hreset

theorem Stable.sat_locate {q : ℕ} (h : P t) (hi : i < t.image.indexTableSize)
    (hq : q < p.blockSize) : Sat (locate (t.image.token i) q) t
      (fun _ t' => P t' ∧ t'.image = t.image) (fun _ t' => P t') := by
  by_cases hnone : t.image.token i = unusedBlockToken
  · exact Sat.of_error (if_pos hnone) h
  · exact Sat.of_ok (if_neg hnone) ⟨hP.position h hi hnone hq, rfl⟩

/-- The place of a byte, and a call of `impl_` there. -/
theorem Stable.sat_reachBlock {α : Type} {q : ℕ} {f : ℕ → TraceM α} (h : P t)
    (hq : q < p.blockSize) (hf : ∀ token u, P u → Sat (f token) u (fun _ t' => P t') fun _ t' => P t') :
    Sat (tableAt i >>= fun token => locate token q >>= fun _ => access >>= fun _ => f token) t
      (fun _ t' => P t') (fun _ t' => P t') := by
  refine Sat.bind (hP.sat_tableAt h) ?_
  rintro token t' ⟨h', him, hi, rfl⟩
  rw [← him] at hi ⊢
  refine Sat.bind (hP.sat_locate h' hi hq) ?_
  rintro _ u ⟨hu, -⟩
  refine Sat.bind ((hP.sat_access hu).mono (fun _ _ h => h.1) fun _ _ h => h.1) ?_
  intro _ w hw
  exact hf _ w hw

theorem Stable.sat_readFromBlock {buffer : ℕ → UInt8} {at' q size : ℕ} (h : P t)
    (hq : q < p.blockSize) : Sat (readFromBlock buffer at' i q size) t (fun _ t' => P t')
      (fun _ t' => P t') := by
  refine hP.sat_reachBlock h hq fun token u hu => ?_
  apply Sat.get_bind
  exact Sat.pure hu

theorem Stable.sat_writeToBlock {data : List UInt8} {q : ℕ} (h : P t) (hq : q < p.blockSize) :
    Sat (writeToBlock data i q) t (fun _ t' => P t') (fun _ t' => P t') := by
  refine hP.sat_reachBlock h hq fun token u hu => ?_
  apply Sat.onPart
  exact Sat.modify (hP.file _ hu)

theorem Stable.sat_readBlocks {s : Span} {length blocks current at' done : ℕ}
    {buffer : ℕ → UInt8} (hs : ∀ c, s.start c < p.blockSize) (h : P t) :
    Sat (readBlocks s length blocks current buffer at' done) t (fun _ t' => P t')
      (fun _ t' => P t') := by
  induction blocks generalizing current buffer at' done t with
  | zero => exact Sat.pure h
  | succ blocks ih =>
      rw [readBlocks]
      split
      · exact Sat.pure h
      · refine Sat.bind (hP.sat_tableAt h) ?_
        rintro token t' ⟨h', -⟩
        split
        · exact ih h'
        · split
          · exact Sat.throw h'
          · exact Sat.bind (hP.sat_readFromBlock h' (hs current)) fun _ _ hu => ih hu

theorem Stable.sat_prepareBlock (h : P t) :
    Sat (prepareBlock i) t (fun _ t' => P t') (fun _ t' => P t') := by
  refine Sat.bind (hP.sat_tableAt h) ?_
  rintro token t' ⟨h', -⟩
  split
  · exact hP.sat_addNewBlock h'
  · exact Sat.pure h'

theorem Stable.sat_writePart {s : Span} {data : List UInt8} (hs : ∀ c, s.start c < p.blockSize)
    (h : P t) : Sat (writePart s i data) t (fun _ t' => P t') (fun _ t' => P t') := by
  rw [writePart]
  split
  · exact Sat.throw h
  · exact hP.sat_writeToBlock h (hs i)

theorem Stable.sat_writeBlocks {s : Span} {length blocks current done : ℕ} {data : List UInt8}
    (hs : ∀ c, s.start c < p.blockSize) (h : P t) :
    Sat (writeBlocks s length blocks current data done) t (fun _ t' => P t') (fun _ t' => P t') := by
  induction blocks generalizing current data done t with
  | zero => exact Sat.pure h
  | succ blocks ih =>
      rw [writeBlocks]
      split
      · exact Sat.pure h
      · refine Sat.bind (hP.sat_prepareBlock h) fun _ t' h' => ?_
        exact Sat.bind (hP.sat_writePart hs h') fun _ u hu => ih hu

/-- What is stable holds behind a call, however it ends. -/
theorem Stable.step (hpos : 0 < p.blockSize) (h : P t) (r : Request) : P (step t r) := by
  have hspan : ∀ {offset length s}, Sparse.span p.blockSize offset length = some s →
      ∀ c, s.start c < p.blockSize := by
    intro offset length s hsome c
    rw [eq_spanOf hsome]
    exact start_lt hpos
  have hafter : ∀ {α : Type} {x : TraceM α} {u : Traced},
      Sat x u (fun _ t' => P t') (fun _ t' => P t') → P (after x u) := by
    intro α x u hx
    rw [after]
    cases hrun : x u with
    | ok a t' => exact hx.ok hrun
    | error e t' => exact hx.error hrun
  cases r with
  | read buffer offset length fault =>
      have hfault := hP.fault fault h
      refine hafter ?_
      rw [Sat, read, hP.params hfault]
      cases hsome : Sparse.span p.blockSize offset length with
      | none => exact hfault
      | some s => exact hP.sat_readBlocks (hspan hsome) hfault
  | write data offset fault =>
      have hfault := hP.fault fault h
      refine hafter ?_
      rw [Sat, write, hP.params hfault]
      cases hsome : Sparse.span p.blockSize offset data.length with
      | none => exact hfault
      | some s => exact hP.sat_writeBlocks (hspan hsome) hfault

/-- **What is stable** holds in every run of calls. -/
theorem Stable.reach (hpos : 0 < p.blockSize) (h : P t) {t' : Traced}
    (hreach : Reach Trust.step (fun _ r => r.Valid) t t') : P t' :=
  hreach.invariant h fun _ _ hu _ => hP.step hpos hu _

end Stable

/-! ## Tables that can be believed -/

section Fits

variable {im : Image} {i q val used token : ℕ}

/-- The place of a byte of a block. -/
theorem Fits.position (h : Fits im token) (hq : q < im.params.blockSize) :
    im.dataStart ≤ im.position token q := by
  rw [Fits, Image.dataStart, ulong] at h
  rw [Image.position, Image.dataStart, ulong]
  generalize token * im.params.blockSize = x at *
  omega

/-- If no byte of a block has a place in front of the first block, none wraps. -/
theorem fits_of_position (hpos : 0 < im.dataStart) (hbs : 0 < im.params.blockSize)
    (h : ∀ q < im.params.blockSize, im.dataStart ≤ im.position token q) : Fits im token := by
  rw [Fits]
  by_contra hover
  rw [Image.dataStart, ulong] at hover
  rw [Image.dataStart] at hpos
  generalize htoken : token * im.params.blockSize = x at *
  -- the first byte whose place wraps
  obtain ⟨q, hq⟩ : ∃ q, q = 2 ^ 32 - (im.params.headerOffset + im.dataOffset + x % 2 ^ 32) :=
    ⟨_, rfl⟩
  by_cases hfirst : im.params.headerOffset + im.dataOffset + x % 2 ^ 32 < 2 ^ 32
  · have hwrap := h q (by omega)
    rw [Image.position, Image.dataStart, ulong, htoken] at hwrap
    omega
  · have hwrap := h 0 (by omega)
    rw [Image.position, Image.dataStart, ulong, htoken] at hwrap
    omega

theorem mem_freeEntries : i ∈ freeEntries im ↔
    i < im.indexTableSize ∧ im.token i = unusedBlockToken := by
  rw [freeEntries, Finset.mem_filter, Finset.mem_range]

theorem freeEntries_assign (hval : val < unusedBlockToken) :
    freeEntries (im.assign i val used) = (freeEntries im).erase i := by
  ext j
  rw [Finset.mem_erase, mem_freeEntries, mem_freeEntries, size_assign]
  by_cases hj : j = i
  · subst hj
    rw [token_assign_self (hval.trans (by decide))]
    simp [hval.ne]
  · rw [token_assign_of_ne hj]
    simp [hj]

theorem freeEntries_release (hi : i < im.indexTableSize) :
    freeEntries (im.assign i unusedBlockToken used) = insert i (freeEntries im) := by
  ext j
  rw [Finset.mem_insert, mem_freeEntries, mem_freeEntries, size_assign]
  by_cases hj : j = i
  · subst hj
    rw [token_assign_self (by decide)]
    simp [hi]
  · rw [token_assign_of_ne hj]
    simp [hj]

theorem usedBlockCount_lt (im : Image) : im.usedBlockCount < 2 ^ 32 := by
  have hbytes := ofBytes_lt (slice im.table 4 4)
  rwa [length_slice] at hbytes

/-- A new token. -/
theorem Trustworthy.assign (h : Trustworthy im) (hi : i < im.indexTableSize)
    (hfree : im.token i = unusedBlockToken) (hused : im.usedBlockCount ≠ unusedBlockToken) :
    Trustworthy (im.assign i im.usedBlockCount (ulong (im.usedBlockCount + 1))) := by
  have hlt : im.usedBlockCount < unusedBlockToken := by
    have := usedBlockCount_lt im
    rw [unusedBlockToken] at *
    omega
  have hcount : ulong (im.usedBlockCount + 1) = im.usedBlockCount + 1 :=
    ulong_of_lt (by rw [unusedBlockToken] at hlt; omega)
  have hmem : i ∈ freeEntries im := mem_freeEntries.mpr ⟨hi, hfree⟩
  have hcard := Finset.card_pos.mpr ⟨i, hmem⟩
  rw [hcount]
  constructor
  · rw [size_assign]
    exact h.entries
  · intro j hj hnone
    rw [size_assign] at hj
    by_cases hji : j = i
    · subst hji
      rw [token_assign_self (hlt.trans (by decide))]
      exact h.next 0 hcard hlt
    · rw [token_assign_of_ne hji] at hnone ⊢
      exact h.used j hj hnone
  · intro k hk hnext
    rw [freeEntries_assign hlt, Finset.card_erase_of_mem hmem] at hk
    rw [used_assign (by rw [unusedBlockToken] at hlt; omega)] at hnext ⊢
    have hfits := h.next (k + 1) (by omega) (by omega)
    rwa [show im.usedBlockCount + 1 + k = im.usedBlockCount + (k + 1) by omega]

/-- The last token is taken back. -/
theorem Trustworthy.release (h : Trustworthy im) (hi : i < im.indexTableSize)
    (hnone : im.token i ≠ unusedBlockToken)
    (hlast : im.token i = ulongSub im.usedBlockCount 1) :
    Trustworthy (im.assign i unusedBlockToken (ulongSub im.usedBlockCount 1)) := by
  have hfits := h.used i hi hnone
  have hcount : im.usedBlockCount = im.token i + 1 := by
    have := usedBlockCount_lt im
    rw [ulongSub] at hlast
    rw [unusedBlockToken] at hnone
    omega
  have hnot : i ∉ freeEntries im := fun hmem => hnone (mem_freeEntries.mp hmem).2
  have hlt := usedBlockCount_lt im
  rw [← hlast]
  constructor
  · rw [size_assign]
    exact h.entries
  · intro j hj hused
    rw [size_assign] at hj
    by_cases hji : j = i
    · subst hji
      rw [token_assign_self (by decide)] at hused
      exact absurd rfl hused
    · rw [token_assign_of_ne hji] at hused ⊢
      exact h.used j hj hused
  · intro k hk hnext
    rw [freeEntries_release hi, Finset.card_insert_of_notMem hnot] at hk
    rw [used_assign (by omega)] at hnext ⊢
    cases k with
    | zero => exact hfits
    | succ k =>
        have hnext' := h.next k (by omega) (by omega)
        rwa [show im.token i + (k + 1) = im.usedBlockCount + k by omega]

end Fits

/-- A table that can be believed, and nothing was accessed that is not safe. -/
structure Good (p : Params) (d : ℕ) (t : Traced) : Prop where
  params : t.image.params = p
  dataOffset : t.image.dataOffset = d
  table : Trustworthy t.image
  events : ∀ e ∈ t.events, e.Safe p d

theorem stable_good (p : Params) (d : ℕ) : Stable p (Good p d) where
  params h := h.params
  entry h hi := by
    refine ⟨h.params, h.dataOffset, h.table, ?_⟩
    refine List.forall_mem_cons.mpr ⟨?_, h.events⟩
    have hentries := h.table.entries
    rw [h.dataOffset] at hentries
    rw [Event.Safe]
    omega
  position h hi hnone hq := by
    refine ⟨h.params, h.dataOffset, h.table, ?_⟩
    refine List.forall_mem_cons.mpr ⟨?_, h.events⟩
    have hplace := (h.table.used _ hi hnone).position (by rwa [h.params])
    rwa [Image.dataStart, h.params, h.dataOffset] at hplace
  assign h hi hfree hused :=
    ⟨h.params, h.dataOffset, h.table.assign hi hfree hused, h.events⟩
  release h hi hnone hlast :=
    ⟨h.params, h.dataOffset, h.table.release hi hnone hlast, h.events⟩
  file _ h := ⟨h.params, h.dataOffset, ⟨h.table.entries, h.table.used, h.table.next⟩, h.events⟩
  fault _ h := ⟨h.params, h.dataOffset, h.table, h.events⟩

/-- Something was accessed. -/
structure Seen (p : Params) (e : Event) (t : Traced) : Prop where
  params : t.image.params = p
  mem : e ∈ t.events

theorem stable_seen (p : Params) (e : Event) : Stable p (Seen p e) where
  params h := h.params
  entry h _ := ⟨h.params, List.mem_cons_of_mem _ h.mem⟩
  position h _ _ _ := ⟨h.params, List.mem_cons_of_mem _ h.mem⟩
  assign h _ _ _ := ⟨h.params, h.mem⟩
  release h _ _ _ := ⟨h.params, h.mem⟩
  file _ h := ⟨h.params, h.mem⟩
  fault _ h := ⟨h.params, h.mem⟩

/-! ## Requests for one byte -/

/-- A range of one byte in a block. -/
structure OneByte (s : Span) (i q : ℕ) : Prop where
  first : s.firstBlockIndex = i
  start : s.start i = q
  stop : s.stop i = q + 1
  blocks : i ≤ s.lastBlockIndex
  busy : ¬ (i = s.lastBlockIndex ∧ s.lastBlockOffset = 0)

section OneByte

variable {t : Traced} {bs i q token : ℕ} {E : Unit → Traced → Prop}

theorem oneByte (hq : q < bs) : OneByte (spanOf bs (i * bs + q) 1) i q := by
  obtain ⟨hdiv, hmod⟩ := block_and_offset (i := i) hq
  have hfirst : (spanOf bs (i * bs + q) 1).firstBlockIndex = i := hdiv
  have hstart : (spanOf bs (i * bs + q) 1).start i = q := by
    rw [Span.start, if_pos hfirst.symm]
    exact hmod
  by_cases hlast : q + 1 < bs
  · obtain ⟨hdiv', hmod'⟩ := block_and_offset (i := i) hlast
    have hblock : (spanOf bs (i * bs + q) 1).lastBlockIndex = i := hdiv'
    have hoffset : (spanOf bs (i * bs + q) 1).lastBlockOffset = q + 1 := hmod'
    refine ⟨hfirst, hstart, ?_, hblock.ge, ?_⟩
    · rw [Span.stop, if_pos hblock.symm, hoffset]
    · rw [hoffset]
      exact fun h => Nat.succ_ne_zero q h.2
  · -- the last byte of a block
    have hend : i * bs + q + 1 = (i + 1) * bs + 0 := by
      rw [Nat.add_mul]
      omega
    have hblock : (spanOf bs (i * bs + q) 1).lastBlockIndex = i + 1 := by
      rw [spanOf, hend]
      exact (block_and_offset (by omega)).1
    refine ⟨hfirst, hstart, ?_, by omega, by omega⟩
    rw [Span.stop, if_neg (by omega)]
    change bs = q + 1
    omega

theorem span_oneByte (hq : q < bs) (hi : i + 1 < 2 ^ 32) :
    span bs (i * bs + q) 1 = some (spanOf bs (i * bs + q) 1) := by
  have hle : (i * bs + q + 1) / bs ≤ i + 1 := by
    apply Nat.div_le_of_le_mul
    rw [Nat.mul_succ, Nat.mul_comm bs]
    omega
  exact span_eq (by omega)

/-- An offset in a block of the table is a 64 bit number. -/
theorem offset_lt (hq : q < bs) (hbs : bs < 2 ^ 32) (hi : i < 2 ^ 32) :
    i * bs + q < 2 ^ 64 := by
  have hprod : (i + 1) * bs ≤ 2 ^ 32 * 2 ^ 32 := Nat.mul_le_mul (by omega) hbs.le
  rw [Nat.add_mul] at hprod
  omega

theorem sat_touch (hi : i < t.image.indexTableSize) :
    Sat (touch i) t (fun _ t' => t'.image = t.image ∧ t'.fault = t.fault) E := by
  rw [touch]
  apply Sat.modify
  rw [if_pos hi]
  exact ⟨rfl, rfl⟩

theorem sat_tableAt (hi : i < t.image.indexTableSize) :
    Sat (tableAt i) t (fun token t' => token = t.image.token i ∧ t'.image = t.image ∧
      t'.fault = t.fault) E := by
  rw [tableAt]
  refine Sat.bind (sat_touch hi) ?_
  rintro _ t' ⟨him, hfault⟩
  rw [← him] at hi ⊢
  rw [← hfault]
  apply Sat.onPart
  simp only [Sparse.tableAt]
  apply Sat.get_bind
  rw [if_neg (not_le.mpr hi)]
  exact Sat.pure ⟨rfl, rfl, rfl⟩

theorem sat_access (h : t.fault = none) :
    Sat access t (fun _ t' => t'.image = t.image ∧ t'.fault = none) E := by
  refine Sat.of_ok (if_neg ?_) ⟨rfl, ?_⟩
  · rw [h]
    simp
  · rw [h]
    rfl

theorem sat_locate (h : token ≠ unusedBlockToken) :
    Sat (locate token q) t (fun _ t' => t' = t.add (.position (t.image.position token q))) E :=
  Sat.of_ok (if_neg h) rfl

theorem indexTableSize_lt (im : Image) : im.indexTableSize < 2 ^ 32 := by
  have hbytes := ofBytes_lt (slice im.table 0 4)
  rwa [length_slice] at hbytes

theorem sat_read {buffer : ℕ → UInt8} {offset length : ℕ} {s : Span} {Q : (ℕ → UInt8) → Traced → Prop}
    (hspan : span t.image.params.blockSize offset length = some s)
    (h : Sat (readBlocks s length (s.lastBlockIndex + 1 - s.firstBlockIndex) s.firstBlockIndex
      buffer 0 0) t Q E) : Sat (read buffer offset length) t Q E := by
  rw [Sat, read, hspan]
  exact h

theorem sat_write {data : List UInt8} {offset : ℕ} {s : Span} {Q : Unit → Traced → Prop}
    (hspan : span t.image.params.blockSize offset data.length = some s)
    (h : Sat (writeBlocks s data.length (s.lastBlockIndex + 1 - s.firstBlockIndex) s.firstBlockIndex
      data 0) t Q E) : Sat (write data offset) t Q E := by
  rw [Sat, write, hspan]
  exact h

section Reading

variable {im : Image} {s : Span} {buffer : ℕ → UInt8}

/-- The place of a byte is computed before it is read. -/
theorem sat_readFromBlock_seen {at' size : ℕ} (him : t.image = im) (hi : i < im.indexTableSize)
    (hnone : im.token i ≠ unusedBlockToken) :
    Sat (readFromBlock buffer at' i q size) t
      (fun _ t' => Seen im.params (.position (im.position (im.token i) q)) t')
      (fun _ t' => Seen im.params (.position (im.position (im.token i) q)) t') := by
  rw [readFromBlock]
  refine Sat.bind (sat_tableAt (by rwa [him])) ?_
  rintro token u ⟨rfl, hu, -⟩
  rw [him] at hu ⊢
  refine Sat.bind (sat_locate hnone) ?_
  rintro _ _ rfl
  have hseen : Seen im.params (.position (im.position (im.token i) q))
      (u.add (.position (u.image.position (im.token i) q))) := by
    rw [hu]
    exact ⟨congrArg Image.params hu, List.mem_cons_self⟩
  refine Sat.bind (((stable_seen _ _).sat_access hseen).mono (fun _ _ h => h.1) fun _ _ h => h.1) ?_
  intro _ w hw
  apply Sat.get_bind
  exact Sat.pure hw

theorem sat_readBlocks_seen {blocks : ℕ} (him : t.image = im) (hi : i < im.indexTableSize)
    (hnone : im.token i ≠ unusedBlockToken) (hone : OneByte s i q)
    (hstart : ∀ c, s.start c < im.params.blockSize) :
    Sat (readBlocks s 1 (blocks + 1) i buffer 0 0) t
      (fun _ t' => Seen im.params (.position (im.position (im.token i) q)) t')
      (fun _ t' => Seen im.params (.position (im.position (im.token i) q)) t') := by
  rw [readBlocks, if_neg (not_or.mpr ⟨by simp, hone.busy⟩)]
  refine Sat.bind (sat_tableAt (by rwa [him])) ?_
  rintro token u ⟨rfl, hu, -⟩
  rw [him] at hu ⊢
  rw [if_neg hnone, hone.start, hone.stop, if_neg (by omega)]
  refine Sat.bind (sat_readFromBlock_seen hu hi hnone) ?_
  intro _ w hw
  exact (stable_seen _ _).sat_readBlocks hstart hw

/-- A byte of a block that has a token is read at its place. -/
theorem seen_read (buffer : ℕ → UInt8) (hi : i < t.image.indexTableSize)
    (hnone : t.image.token i ≠ unusedBlockToken) (hq : q < t.image.params.blockSize) :
    Seen t.image.params (.position (t.image.position (t.image.token i) q))
      (step t (.read buffer (i * t.image.params.blockSize + q) 1 none)) := by
  have hsize := indexTableSize_lt t.image
  have hone := oneByte (i := i) hq
  obtain ⟨blocks, hblocks⟩ := Nat.exists_eq_succ_of_ne_zero (Nat.sub_ne_zero_of_lt
    (Nat.lt_succ_of_le hone.blocks))
  have hstart : ∀ c, (spanOf t.image.params.blockSize (i * t.image.params.blockSize + q) 1).start c <
      t.image.params.blockSize := fun c => start_lt (by omega)
  have hread : Sat (read buffer (i * t.image.params.blockSize + q) 1) { t with fault := none }
      (fun _ t' => Seen t.image.params (.position (t.image.position (t.image.token i) q)) t')
      (fun _ t' => Seen t.image.params (.position (t.image.position (t.image.token i) q)) t') := by
    refine sat_read (span_oneByte hq (by omega)) ?_
    rw [hone.first, hblocks]
    exact sat_readBlocks_seen rfl hi hnone hone hstart
  rw [step, after]
  cases hrun : read buffer (i * t.image.params.blockSize + q) 1 { t with fault := none } with
  | ok a t' => exact hread.ok hrun
  | error e t' => exact hread.error hrun

end Reading

section Writing

variable {im : Image} {s : Span}

/-- The image with the next number for an entry. -/
def assigned (im : Image) (i : ℕ) : Image :=
  im.assign i im.usedBlockCount (im.usedBlockCount + 1)

/-- An entry has got the next number, and bytes were stored in the file. -/
structure Took (im : Image) (i : ℕ) (t : Traced) : Prop where
  image : ∃ file, t.image = { assigned im i with file := file }
  fault : t.fault = none

theorem sat_addNewBlock (him : t.image = im) (hfault : t.fault = none) (hi : i < im.indexTableSize)
    (hfree : im.token i = unusedBlockToken) (hused : im.usedBlockCount < unusedBlockToken) :
    Sat (addNewBlock i) t (fun _ t' => Took im i t') E := by
  have hcount : ulong (im.usedBlockCount + 1) = im.usedBlockCount + 1 :=
    ulong_of_lt (by rw [unusedBlockToken] at hused; omega)
  have hset : Sat (tableSet i im.usedBlockCount) t
      (fun _ t' => t'.image = assigned im i ∧ t'.fault = none) E := by
    rw [tableSet]
    refine Sat.bind (sat_touch (by rwa [him])) ?_
    rintro _ u ⟨hu, hnone⟩
    rw [him] at hu
    rw [hfault] at hnone
    apply Sat.onPart
    simp only [Sparse.tableSet]
    apply Sat.get_bind
    rw [hu, if_neg (not_le.mpr hi), if_neg (not_or.mpr ⟨not_not.mpr hfree, hused.ne⟩), hcount]
    exact ⟨rfl, hnone⟩
  rw [addNewBlock]
  apply Sat.get_bind
  rw [him]
  refine Sat.bind hset ?_
  rintro _ u ⟨hu, hnone⟩
  refine Sat.tryCatch (R := fun _ _ => False) ?_ fun _ _ => False.elim
  refine Sat.bind (sat_access hnone) ?_
  rintro _ v ⟨hv, hnone'⟩
  apply Sat.onPart
  refine Sat.modify ⟨⟨(assigned im i).writeTable.file, ?_⟩, hnone'⟩
  change v.image.writeTable = _
  rw [hv, hu]
  rfl

theorem sat_writeToBlock {data : List UInt8} (h : Took im i t) (hi : i < im.indexTableSize)
    (hused : im.usedBlockCount < unusedBlockToken) :
    Sat (writeToBlock data i q) t (fun _ t' => Took im i t') E := by
  obtain ⟨⟨file, him⟩, hfault⟩ := h
  have hsize : i < t.image.indexTableSize := by
    rw [him]
    exact hi.trans_eq size_assign.symm
  have htoken : t.image.token i = im.usedBlockCount := by
    rw [him]
    exact token_assign_self (hused.trans (by decide))
  rw [writeToBlock]
  refine Sat.bind (sat_tableAt hsize) ?_
  rintro token u ⟨rfl, hu, hnone⟩
  refine Sat.bind (sat_locate (by rw [htoken]; exact hused.ne)) ?_
  rintro _ _ rfl
  refine Sat.bind (sat_access (by exact hnone.trans hfault)) ?_
  rintro _ v ⟨hv, hnone'⟩
  apply Sat.onPart
  refine Sat.modify
    ⟨⟨place v.image.file (v.image.position (t.image.token i) q) data, ?_⟩, hnone'⟩
  have himage : v.image = t.image := hv.trans hu
  rw [himage, him]
  rfl

/-- A byte that is written to a free entry gives it the next number. -/
theorem took_write {b : UInt8} (hi : i < t.image.indexTableSize)
    (hfree : t.image.token i = unusedBlockToken)
    (hused : t.image.usedBlockCount < unusedBlockToken) (hq : q < t.image.params.blockSize) :
    Took t.image i (step t (.write [b] (i * t.image.params.blockSize + q) none)) := by
  have hsize := indexTableSize_lt t.image
  have hone := oneByte (i := i) hq
  obtain ⟨blocks, hblocks⟩ := Nat.exists_eq_succ_of_ne_zero (Nat.sub_ne_zero_of_lt
    (Nat.lt_succ_of_le hone.blocks))
  have hwrite : Sat (write [b] (i * t.image.params.blockSize + q)) { t with fault := none }
      (fun _ t' => Took t.image i t') fun _ _ => False := by
    refine sat_write (span_oneByte hq (by omega)) ?_
    rw [hone.first, hblocks, writeBlocks, if_neg (by simp)]
    refine Sat.bind (R := fun _ t' => Took t.image i t') ?_ ?_
    · refine Sat.bind (sat_tableAt hi) ?_
      rintro token u ⟨rfl, hu, hnone⟩
      rw [if_pos hfree]
      exact sat_addNewBlock hu hnone hi hfree hused
    · intro _ u hu
      refine Sat.bind (R := fun _ t' => Took t.image i t') ?_ ?_
      · rw [writePart, hone.start, hone.stop, if_neg (by omega)]
        exact sat_writeToBlock hu hi hused
      · intro _ v hv
        -- nothing is left
        rw [hone.start, hone.stop]
        cases blocks with
        | zero => exact Sat.pure hv
        | succ blocks =>
            rw [writeBlocks, if_pos (by simp)]
            exact Sat.pure hv
  rw [step, after]
  cases hrun : write [b] (i * t.image.params.blockSize + q) { t with fault := none } with
  | ok a t' => exact hwrite.ok hrun
  | error e t' => exact (hwrite.error hrun).elim

end Writing

end OneByte

/-! ## The routines without their accesses -/

/-- Where `impl_` does not throw, `x` does what the routine `y` of the image does. -/
def Traces {α : Type} (x : TraceM α) (y : SparseM α) : Prop :=
  ∀ t : Traced, t.fault = none → Sat x t
    (fun a t' => t'.fault = none ∧ y t.image = .ok a t'.image)
    (fun e t' => t'.fault = none ∧ y t.image = .error e t'.image)

section Traces

variable {α β : Type} {x : TraceM α} {y : SparseM α} {i q : ℕ}

theorem Traces.of_pure (a : α) : Traces (pure a) (pure a) := fun _ h => Sat.pure ⟨h, rfl⟩

theorem Traces.of_throw : Traces (throw () : TraceM α) (throw ()) := fun _ h => Sat.throw ⟨h, rfl⟩

theorem Traces.throw_bind {f : β → TraceM α} {g : β → SparseM α} :
    Traces (throw () >>= f) (throw () >>= g) := fun _ h => Sat.of_error rfl ⟨h, rfl⟩

theorem Traces.bind {f : α → TraceM β} {g : α → SparseM β} (hx : Traces x y)
    (hf : ∀ a, Traces (f a) (g a)) : Traces (x >>= f) (y >>= g) := by
  intro t h
  have hx' := hx t h
  cases hrun : x t with
  | ok a u =>
      obtain ⟨hu, hy⟩ := hx'.ok hrun
      have hxf : (x >>= f) t = f a u := by
        change EStateM.bind x f t = _
        rw [EStateM.bind, hrun]
      have hyg : (y >>= g) t.image = g a u.image := by
        change EStateM.bind y g t.image = _
        rw [EStateM.bind, hy]
      rw [hyg]
      exact Sat.of_eq hxf (hf a u hu)
  | error e u =>
      obtain ⟨hu, hy⟩ := hx'.error hrun
      have hxf : (x >>= f) t = .error e u := by
        change EStateM.bind x f t = _
        rw [EStateM.bind, hrun]
      have hyg : (y >>= g) t.image = .error e u.image := by
        change EStateM.bind y g t.image = _
        rw [EStateM.bind, hy]
      exact Sat.of_error hxf ⟨hu, hyg⟩

theorem Traces.ite {c : Prop} [Decidable c] {x' : TraceM α} {y' : SparseM α} (hx : Traces x y)
    (hx' : Traces x' y') : Traces (if c then x else x') (if c then y else y') := by
  split
  · exact hx
  · exact hx'

theorem Traces.get_bind {f : Traced → TraceM α} {g : Image → SparseM α}
    (h : ∀ t : Traced, Traces (f t) (g t.image)) : Traces (get >>= f) (get >>= g) :=
  fun t ht => Sat.get_bind (h t t ht)

theorem Traces.onImage (y : SparseM α) : Traces (onImage y) y := by
  intro t h
  apply Sat.onPart
  cases hy : y t.image with
  | ok a im => exact Sat.of_ok hy ⟨h, rfl⟩
  | error e im => exact Sat.of_error hy ⟨h, rfl⟩

/-- The check of the index is the one of the table. -/
theorem Traces.touch_bind (h : Traces x y) : Traces (touch i >>= fun _ => x) y := by
  intro t ht
  have htouch : Sat (touch i) t (fun _ t' => t'.image = t.image ∧ t'.fault = none)
      fun e t' => t'.fault = none ∧ y t.image = .error e t'.image := by
    rw [touch]
    apply Sat.modify
    split
    · exact ⟨rfl, ht⟩
    · exact ⟨rfl, ht⟩
  refine Sat.bind htouch ?_
  intro _ u hu
  rw [← hu.1]
  exact h u hu.2

theorem Traces.access_bind {f : Unit → TraceM α} (h : Traces (f ()) y) :
    Traces (access >>= f) y := by
  intro t ht
  refine Sat.bind (sat_access ht) ?_
  intro _ u hu
  rw [← hu.1]
  exact h u hu.2

theorem traces_tableAt : Traces (tableAt i) (Sparse.tableAt i) :=
  Traces.touch_bind (Traces.onImage _)

theorem traces_tableSet (val : ℕ) : Traces (tableSet i val) (Sparse.tableSet i val) :=
  Traces.touch_bind (Traces.onImage _)

theorem traces_addNewBlock : Traces (addNewBlock i) (Sparse.addNewBlock i) := by
  apply Traces.get_bind
  intro t
  refine Traces.bind (traces_tableSet _) ?_
  intro _ u hu
  have hwrite : Traces (access >>= fun _ => onImage (modify Image.writeTable))
      (modify Image.writeTable) := Traces.access_bind (Traces.onImage _)
  refine Sat.tryCatch (R := fun _ _ => False) ((hwrite u hu).mono (fun _ _ h => h) ?_)
    fun _ _ => False.elim
  intro e v hv
  exact absurd hv.2 (by rintro ⟨⟩)

/-- The place of a byte. -/
theorem Traces.locate_bind {token : ℕ} {f : Unit → TraceM α} (h : Traces (f ()) y) :
    Traces (locate token q >>= f) 
      (if token = unusedBlockToken then (throw () : SparseM Unit) >>= fun _ => y else y) := by
  intro t ht
  by_cases hnone : token = unusedBlockToken
  · rw [if_pos hnone]
    have hlocate : locate token q t = .error () t := if_pos hnone
    refine Sat.bind (R := fun _ _ => False) (Sat.of_error hlocate ⟨ht, rfl⟩) ?_
    exact fun _ _ => False.elim
  · rw [if_neg hnone]
    refine Sat.bind (sat_locate hnone) ?_
    rintro _ _ rfl
    exact h _ ht

theorem traces_readFromBlock {buffer : ℕ → UInt8} {p size : ℕ} :
    Traces (readFromBlock buffer p i q size) (Sparse.readFromBlock buffer p i q size) := by
  refine Traces.bind traces_tableAt ?_
  intro token
  exact Traces.locate_bind (Traces.access_bind (Traces.get_bind fun _ => Traces.of_pure _))

theorem traces_writeToBlock (data : List UInt8) (i q : ℕ) :
    Traces (writeToBlock data i q) (Sparse.writeToBlock data i q) := by
  refine Traces.bind traces_tableAt ?_
  intro token
  exact Traces.locate_bind (Traces.access_bind (Traces.onImage _))

theorem traces_readBlocks {s : Span} {length blocks current p done : ℕ} {buffer : ℕ → UInt8} :
    Traces (readBlocks s length blocks current buffer p done)
      (Sparse.readBlocks s length blocks current buffer p done) := by
  induction blocks generalizing current buffer p done with
  | zero => exact Traces.of_pure _
  | succ blocks ih =>
      refine Traces.ite (Traces.of_pure _) (Traces.bind traces_tableAt ?_)
      intro token
      refine Traces.ite ih (Traces.ite Traces.of_throw ?_)
      exact Traces.bind traces_readFromBlock fun _ => ih

theorem traces_writeBlocks (s : Span) (length blocks current : ℕ) (data : List UInt8) (done : ℕ) :
    Traces (writeBlocks s length blocks current data done)
      (Sparse.writeBlocks s length blocks current data done) := by
  induction blocks generalizing current data done with
  | zero => exact Traces.of_pure _
  | succ blocks ih =>
      refine Traces.ite (Traces.of_pure _) ?_
      rw [prepareBlock, bind_assoc]
      refine Traces.bind traces_tableAt ?_
      intro token
      by_cases hstop : s.stop current < s.start current
      · simp only [writePart, if_pos hstop]
        split
        · exact Traces.bind traces_addNewBlock fun _ => Traces.throw_bind
        · rw [pure_bind]
          exact Traces.throw_bind
      · simp only [writePart, if_neg hstop]
        have hpart := traces_writeToBlock (data.take (s.stop current - s.start current)) current
          (s.start current)
        have hrest := ih (current + 1) (data.drop (s.stop current - s.start current))
          (done + (s.stop current - s.start current))
        have hboth := Traces.bind hpart fun _ => hrest
        split
        · exact Traces.bind traces_addNewBlock fun _ => hboth
        · exact hboth

/-- **Without a fault** a read is the one of the image. -/
theorem traces_read {buffer : ℕ → UInt8} {offset length : ℕ} :
    Traces (read buffer offset length) (Sparse.read buffer offset length) := by
  intro t ht
  rw [Sat, read, Sparse.read, get_bind_run]
  cases hspan : span t.image.params.blockSize offset length with
  | none => exact ⟨ht, rfl⟩
  | some s => exact traces_readBlocks t ht

/-- **Without a fault** a write is the one of the image. -/
theorem traces_write {data : List UInt8} {offset : ℕ} :
    Traces (write data offset) (Sparse.write data offset) := by
  intro t ht
  rw [Sat, write, Sparse.write, get_bind_run]
  cases hspan : span t.image.params.blockSize offset data.length with
  | none => exact ⟨ht, rfl⟩
  | some s => exact traces_writeBlocks s data.length _ _ data 0 t ht

end Traces

/-! ## The exact condition -/

/-- What opening leaves. -/
structure Opened (p : Params) (t : Traced) : Prop where
  params : t.image.params = p
  blockSize_pos : 0 < p.blockSize
  table : headerSize ≤ t.image.dataOffset
  events : t.events = (List.range t.image.indexTableSize).map .entry

section Exact

variable {p : Params} {file : ℕ → UInt8} {t u : Traced}

theorem opened_of_openImage (h : openImage p file = some t) : Opened p t := by
  rw [openImage, Option.map_eq_some_iff] at h
  obtain ⟨im, him, rfl⟩ := h
  rw [sparseImage, Option.map_eq_some_iff] at him
  obtain ⟨im', hmade, rfl⟩ := him
  obtain ⟨blocks, dataOffset, rfl, hchecked, -⟩ := construct_cases hmade
  exact ⟨rfl, hchecked.blockSize_pos, le_trans (Nat.le_add_right _ _) hchecked.fits,
    List.append_nil _⟩

/-- A table that can be believed is safe. -/
theorem Trustworthy.safe (h : openImage p file = some t) (htrust : Trustworthy t.image) :
    Safe t := by
  have hopened := opened_of_openImage h
  have hgood : Good p t.image.dataOffset t := by
    refine ⟨hopened.params, rfl, htrust, ?_⟩
    rw [hopened.events]
    intro e he
    obtain ⟨i, hi, rfl⟩ := List.mem_map.mp he
    have hlt := List.mem_range.mp hi
    have hentries := htrust.entries
    rw [Event.Safe]
    omega
  intro t' hreach
  rw [hopened.params]
  exact ((stable_good p _).reach hopened.blockSize_pos hgood hreach).events

/-- The entries that `getLogBlock` reads are in the table. -/
theorem Safe.entries (hopened : Opened p t) (h : Safe t) :
    headerSize + 4 * t.image.indexTableSize ≤ t.image.dataOffset := by
  cases hsize : t.image.indexTableSize with
  | zero => exact hopened.table
  | succ n =>
      have hlast : Event.entry n ∈ t.events := by
        rw [hopened.events, hsize]
        exact List.mem_map.mpr ⟨n, List.mem_range.mpr n.lt_succ_self, rfl⟩
      have hsafe := h t .start _ hlast
      rw [Event.Safe] at hsafe
      omega

/-- A state that a run leads to, with the sizes as they were. -/
structure Run (t u : Traced) : Prop where
  reach : Reach step (fun _ r => r.Valid) t u
  params : u.image.params = t.image.params
  dataOffset : u.image.dataOffset = t.image.dataOffset

/-- The block of an entry lies behind the table if all places that are computed do. -/
theorem Safe.fits (hopened : Opened p t) (hbs : p.blockSize < 2 ^ 32) (h : Safe t)
    (hrun : Run t u) {i : ℕ} (hi : i < u.image.indexTableSize)
    (hnone : u.image.token i ≠ unusedBlockToken) : Fits u.image (u.image.token i) := by
  have hparams : u.image.params = p := hrun.params.trans hopened.params
  have hsize := indexTableSize_lt u.image
  refine fits_of_position ?_ ?_ ?_
  · have htable := hopened.table
    rw [headerSize_eq] at htable
    rw [Image.dataStart, hrun.dataOffset]
    omega
  · rw [hparams]
    exact hopened.blockSize_pos
  · intro q hq
    have hseen := seen_read (fun _ => 0) hi hnone hq
    have hvalid : Request.Valid
        (.read (fun _ => 0) (i * u.image.params.blockSize + q) 1 none) := by
      refine ⟨offset_lt hq ?_ (by omega), by norm_num⟩
      rwa [hparams]
    have hsafe := h _ (.next hrun.reach hvalid) _ hseen.mem
    rw [Event.Safe] at hsafe
    rwa [Image.dataStart, hrun.params, hrun.dataOffset]

/-- A free entry can be given the next number. -/
theorem Run.exists_took (hopened : Opened p t) (hbs : p.blockSize < 2 ^ 32) (hrun : Run t u)
    (hfree : 0 < (freeEntries u.image).card) (hused : u.image.usedBlockCount < unusedBlockToken) :
    ∃ i ∈ freeEntries u.image, ∃ u', Run t u' ∧ Took u.image i u' := by
  obtain ⟨i, hmem⟩ := Finset.card_pos.mp hfree
  obtain ⟨hi, hnone⟩ := mem_freeEntries.mp hmem
  have hparams : u.image.params = p := hrun.params.trans hopened.params
  have hpos : 0 < u.image.params.blockSize := by
    rw [hparams]
    exact hopened.blockSize_pos
  have hvalid : Request.Valid (.write [0] (i * u.image.params.blockSize + 0) none) := by
    have hsize := indexTableSize_lt u.image
    refine ⟨offset_lt hpos ?_ (by omega), by simp⟩
    rwa [hparams]
  have htook := took_write (b := 0) hi hnone hused hpos
  obtain ⟨file, himage⟩ := htook.image
  refine ⟨i, hmem, _, ⟨.next hrun.reach hvalid, ?_, ?_⟩, htook⟩
  · rw [himage]
    exact hrun.params
  · rw [himage]
    exact hrun.dataOffset

/-- The numbers that are given next. -/
theorem Safe.next (hopened : Opened p t) (hbs : p.blockSize < 2 ^ 32) (h : Safe t)
    (hrun : Run t u) {k : ℕ} (hk : k < (freeEntries u.image).card)
    (hused : u.image.usedBlockCount + k < unusedBlockToken) :
    Fits u.image (u.image.usedBlockCount + k) := by
  -- by induction on the number of writes that come before
  induction k generalizing u with
  | zero =>
      obtain ⟨i, hmem, u', hrun', htook⟩ := hrun.exists_took hopened hbs hk hused
      obtain ⟨file, himage⟩ := htook.image
      have htoken : u'.image.token i = u.image.usedBlockCount := by
        rw [himage]
        exact token_assign_self (hused.trans (by decide))
      have hsize : i < u'.image.indexTableSize := by
        rw [himage]
        exact (mem_freeEntries.mp hmem).1.trans_eq size_assign.symm
      have hfits := h.fits hopened hbs hrun' hsize (by rw [htoken]; exact hused.ne)
      rw [htoken, himage] at hfits
      exact hfits
  | succ k ih =>
      have hlt : u.image.usedBlockCount < unusedBlockToken := by omega
      obtain ⟨i, hmem, u', hrun', htook⟩ := hrun.exists_took hopened hbs (by omega) hlt
      obtain ⟨file, himage⟩ := htook.image
      have hcard : (freeEntries u'.image).card = (freeEntries u.image).card - 1 := by
        rw [himage, ← Finset.card_erase_of_mem hmem, ← freeEntries_assign hlt]
        rfl
      have hcount : u'.image.usedBlockCount = u.image.usedBlockCount + 1 := by
        rw [himage]
        exact used_assign (by rw [unusedBlockToken] at hlt; omega)
      have hfits := ih hrun' (by omega) (by omega)
      rw [hcount, himage, Nat.add_right_comm, Nat.add_assoc] at hfits
      exact hfits

/-- **The accesses of an image** that is opened are safe in all runs of calls if and only if its table
can be believed. -/
theorem safe_iff (hbs : p.blockSize < 2 ^ 32) (h : openImage p file = some t) :
    Safe t ↔ Trustworthy t.image := by
  have hopened := opened_of_openImage h
  have hrun : Run t t := ⟨.start, rfl, rfl⟩
  constructor
  · intro hsafe
    exact ⟨hsafe.entries hopened, fun i hi hnone => hsafe.fits hopened hbs hrun hi hnone,
      fun k hk hused => hsafe.next hopened hbs hrun hk hused⟩
  · exact fun htrust => htrust.safe h

end Exact

/-- Four blocks of eight bytes. -/
def fourBlocks : Params := ⟨0, 32, 8, 4⟩

/-- A file whose header says that there are `n` entries, all of them free. -/
def fileOf (n : ℕ) : ℕ → UInt8 := place (fun _ => 0xFF) 0 (toBytes 4 n ++ toBytes 4 0)

def openedOf (n : ℕ) : Traced :=
  getLogBlock ⟨⟨fourBlocks, 36, place (newTable 4 8) 0 (slice (fileOf n) 0 36), fileOf n⟩, [], none⟩

theorem tableSizes_fourBlocks : tableSizes fourBlocks = some (4, 36) := by decide

theorem openImage_fileOf (n : ℕ) : openImage fourBlocks (fileOf n) = some (openedOf n) := by
  rw [openImage, sparseImage, construct, tableSizes_fourBlocks]
  rfl

theorem trustworthy_openedOf : Trustworthy (openedOf 4).image := by
  have hsize : (openedOf 4).image.indexTableSize = 4 := by decide +kernel
  have hused : (openedOf 4).image.usedBlockCount = 0 := by decide +kernel
  have hfree : ∀ i < 4, (openedOf 4).image.token i = unusedBlockToken := by decide +kernel
  constructor
  · rw [hsize]
    decide
  · intro i hi hnone
    rw [hsize] at hi
    exact absurd (hfree i hi) hnone
  · intro k hk _
    have hcard : (freeEntries (openedOf 4).image).card ≤ 4 := by
      have hle := Finset.card_filter_le (Finset.range (openedOf 4).image.indexTableSize)
        fun i => (openedOf 4).image.token i = unusedBlockToken
      rwa [Finset.card_range, hsize] at hle
    rw [hused, Nat.zero_add]
    change 0 + 36 + ulong (k * 8) + 8 ≤ 2 ^ 32
    rw [ulong_of_lt (by omega)]
    omega

theorem safe_openedOf : openImage fourBlocks (fileOf 4) = some (openedOf 4) ∧ Safe (openedOf 4) :=
  ⟨openImage_fileOf 4, (safe_iff (by decide) (openImage_fileOf 4)).mpr trustworthy_openedOf⟩

/-- The header of the file says one hundred entries, and the table in memory has four. -/
theorem not_safe_openedOf :
    ¬ ∀ p file t, p.blockSize < 2 ^ 32 → openImage p file = some t → Safe t := by
  intro h
  have hsize : (openedOf 100).image.indexTableSize = 100 := by decide +kernel
  have hmem : Event.entry 99 ∈ (openedOf 100).events := by
    have hevents := (opened_of_openImage (openImage_fileOf 100)).events
    rw [hevents, hsize]
    exact List.mem_map.mpr ⟨99, by decide, rfl⟩
  have hsafe := h _ _ _ (by decide) (openImage_fileOf 100) _ .start _ hmem
  change 20 + 4 * 99 + 4 ≤ 36 at hsafe
  omega

end Trust

end KernelDrivers.CoreMnt.Sparse
