import KernelDrivers.Fat.Bpb
import KernelDrivers.Lib.Align
import KernelDrivers.Lib.Wire

/-!
# Packing a list of extended attributes

`FatCreateEa` turns the caller's list of full attributes into the packed list of a set.  A packed
attribute has no offset to the next one: the list is walked by sizes, an attribute whose name comes
again is cut out by moving the rest down, and a new one goes to the end, in a larger pool block when
the old one is full.

## Main definitions

* `EaBuffer` — the caller's list, as bytes.
* `EaList` — the pool block that the set is built in, with its two lengths.
* `fatAppendPackedEa`, `fatDeletePackedEa`, `fatLocateEaByName` — the routines.
* `createEa` — the loop.
* `Ea`, `Packs` — an attribute, and the attributes that a block holds.

## Main results

* `createEa_packs` — after every step the block is a map of the attributes passed.
-/

namespace KernelDrivers.Fat.PackedEas

/-- The OEM code page: `RtlUpperChar`, `FsRtlIsLeadDbcsCharacter` and
`FsRtlIsAnsiCharacterLegalFat` without wild cards. -/
structure CodePage where
  upper : UInt8 → UInt8
  isLead : UInt8 → Bool
  isLegal : UInt8 → Bool
  upper_upper : ∀ c, upper (upper c) = upper c

/-- The volume's cluster size, and what a fresh pool block of a size holds. -/
structure EaPool where
  logOfBytesPerCluster : ℕ
  log_lt : logOfBytesPerCluster < 32
  fresh : ℕ → ℕ → UInt8

def EaPool.bytesPerCluster (p : EaPool) : BitVec 32 := BitVec.twoPow 32 p.logOfBytesPerCluster

/-- `(n + BytesPerCluster - 1) & ~(BytesPerCluster - 1)`. -/
def EaPool.round (p : EaPool) (n : ℕ) : ℕ :=
  ((BitVec.ofNat 32 n + p.bytesPerCluster - 1) &&& ~~~(p.bytesPerCluster - 1)).toNat

section Buffer

variable (b : ℕ → UInt8) (o : ℕ)

def nextEntryOffset : ℕ := ofBytes (slice b o 4)

def eaFlags : UInt8 := b (o + 4)

def eaNameLength : ℕ := (b (o + 5)).toNat

def eaValueLength : ℕ := ofBytes (slice b (o + 6) 2)

def eaName : List UInt8 := slice b (o + 8) (eaNameLength b o)

def sizeOfFullEa : ℕ := 4 + 1 + 1 + 2 + eaNameLength b o + 1 + eaValueLength b o

/-- The offsets that the loop visits. -/
def fullEas (length : ℕ) : ℕ → ℕ → List ℕ
  | 0, _ => []
  | n + 1, o =>
      if o < length then
        o :: fullEas length n (if nextEntryOffset b o = 0 then length else o + nextEntryOffset b o)
      else []

end Buffer

/-- The caller's list, which the I/O manager has checked: an attribute ends inside the buffer and
before the next one. -/
structure EaBuffer where
  bytes : ℕ → UInt8
  length : ℕ
  length_lt : length < 2 ^ 32
  valid : ∀ o ∈ fullEas bytes length (length + 1) 0, o + sizeOfFullEa bytes o ≤ length ∧
    (nextEntryOffset bytes o = 0 ∨ sizeOfFullEa bytes o ≤ nextEntryOffset bytes o)

def EaBuffer.eas (b : EaBuffer) : List ℕ := fullEas b.bytes b.length (b.length + 1) 0

/-- The pool block: the header of thirty bytes, with `NeedEaCount` at offset 4, and the packed
list. -/
structure EaList where
  header : ℕ → UInt8
  packedEasLength : ℕ
  allocationLength : ℕ

/-- `RtlCompareString` without regard to case gives zero. -/
def SameName (cp : CodePage) (a b : List UInt8) : Prop := a.map cp.upper = b.map cp.upper

instance (cp : CodePage) (a b : List UInt8) : Decidable (SameName cp a b) :=
  inferInstanceAs (Decidable (_ = _))

/-- The loop of `FatIsEaNameValid`. -/
def legalName (cp : CodePage) : List UInt8 → Bool
  | [] => true
  | [c] => cp.isLead c || cp.isLegal c
  | c :: d :: cs => if cp.isLead c then legalName cp cs else cp.isLegal c && legalName cp (d :: cs)

def fatIsEaNameValid (cp : CodePage) (name : List UInt8) : Bool :=
  name.length != 0 && decide (name.length ≤ 254) && legalName cp name

namespace EaList

variable (st : EaList)

def needEaCount : ℕ := ofBytes (slice st.header 4 4)

def setNeedEaCount (n : ℕ) : EaList := { st with header := place st.header 4 (toBytes 4 n) }

/-- `SizeOfPackedEa`, of the attribute at an offset of the list. -/
def sizeOfPackedEa (offset : ℕ) : ℕ :=
  1 + 1 + 2 + (st.header (30 + offset + 1)).toNat + 1 + ofBytes (slice st.header (30 + offset + 2) 2)

def fatLocateNextEa (previousOffset : ℕ) : ℕ :=
  if st.packedEasLength ≤ previousOffset then 0xffffffff
  else
    let offset := ulong (previousOffset + st.sizeOfPackedEa previousOffset)
    if st.packedEasLength ≤ offset then 0xffffffff else offset

/-- The name of the packed attribute at an offset. -/
def packedName (offset : ℕ) : List UInt8 :=
  slice st.header (30 + offset + 4) (st.header (30 + offset + 1)).toNat

/-- The loop of `FatLocateEaByName`. -/
def locateFrom (cp : CodePage) (name : List UInt8) : ℕ → ℕ → Option ℕ
  | 0, _ => none
  | n + 1, offset =>
      if offset < st.packedEasLength then
        if SameName cp name (st.packedName offset) then some offset
        else locateFrom cp name n (st.fatLocateNextEa offset)
      else none

/-- `FatLocateEaByName`.  An attribute is not empty, so the length bounds the steps. -/
def fatLocateEaByName (cp : CodePage) (name : List UInt8) : Option ℕ :=
  st.locateFrom cp name (st.packedEasLength + 1) 0

def countDown (offset : ℕ) : EaList :=
  if st.header (30 + offset) &&& 0x80 ≠ 0 then st.setNeedEaCount (ulongSub st.needEaCount 1) else st

/-- The list shrinks over an attribute and the bytes behind it become zero.  `RtlCopyMemory` moves
ranges that overlap. -/
def cut (offset size : ℕ) : EaList :=
  { st with
    header := place
      (place st.header (30 + offset)
        (slice st.header (30 + offset + size)
          (ulongSub st.packedEasLength (ulong (offset + size)))))
      (30 + ulongSub st.packedEasLength size) (List.replicate size 0)
    packedEasLength := ulongSub st.packedEasLength size }

def fatDeletePackedEa (offset : ℕ) : EaList :=
  (st.countDown offset).cut offset (st.sizeOfPackedEa offset)

/-- The larger pool block that takes `size` more bytes. -/
def grow (p : EaPool) (size : ℕ) : EaList :=
  let newAllocationSize := p.round (30 + size + st.packedEasLength)
  let oldAllocationSize := ulong (st.allocationLength + 30)
  { st with
    header := place
      (place (p.fresh newAllocationSize) 0 (slice st.header 0 oldAllocationSize))
      (30 + st.allocationLength) (List.replicate (ulongSub newAllocationSize oldAllocationSize) 0)
    allocationLength := ulongSub newAllocationSize 30 }

def makeRoom (p : EaPool) (size : ℕ) : EaList :=
  if st.allocationLength < ulong (size + st.packedEasLength) then st.grow p size else st

def countUp (flags : UInt8) : EaList :=
  if flags &&& 0x80 ≠ 0 then st.setNeedEaCount (ulong (st.needEaCount + 1)) else st

/-- The bytes of an attribute go to the end of the list, and `FatUpcaseEaName` changes its name
there. -/
def put (cp : CodePage) (ea : List UInt8) (nameLength : ℕ) : EaList :=
  let first := 30 + st.packedEasLength
  let header := place st.header first ea
  { st with
    header := place header (first + 4) ((slice header (first + 4) nameLength).map cp.upper)
    packedEasLength := ulong (st.packedEasLength + ea.length) }

/-- `FatAppendPackedEa`, of the full attribute at an offset of the caller's buffer. -/
def fatAppendPackedEa (cp : CodePage) (p : EaPool) (b : ℕ → UInt8) (o : ℕ) : EaList :=
  let packedEaSize := ulongSub (sizeOfFullEa b o) 4
  ((st.makeRoom p packedEaSize).countUp (eaFlags b o)).put cp (slice b (o + 4) packedEaSize)
    (eaNameLength b o)

end EaList

/-- The status raised, with `IoStatus.Information`. -/
inductive EaRaise
  | invalidEaName (information : ℕ)
  deriving DecidableEq, Repr

/-- The list that the loop starts with.  `owner` is the name of the file. -/
def initial (p : EaPool) (owner : List UInt8) : EaList :=
  let allocationLength := p.round 30
  { header := place (place (p.fresh allocationLength) 0 (List.replicate allocationLength 0)) 8 owner
    packedEasLength := 0
    allocationLength := ulongSub allocationLength 30 }

/-- The attribute of the same name, if there is one, goes. -/
def dropDuplicate (cp : CodePage) (name : List UInt8) (st : EaList) : EaList :=
  match st.fatLocateEaByName cp name with
  | some offset => st.fatDeletePackedEa offset
  | none => st

/-- The loop's body. -/
def createEaStep (cp : CodePage) (p : EaPool) (b : ℕ → UInt8) (st : EaList) (o : ℕ) :
    Except EaRaise EaList :=
  if fatIsEaNameValid cp (eaName b o) = false then .error (.invalidEaName o)
  -- FILE_NEED_EA
  else if eaFlags b o ≠ 0 ∧ eaFlags b o ≠ 0x80 then .error (.invalidEaName o)
  else if eaValueLength b o = 0 then .ok (dropDuplicate cp (eaName b o) st)
  else .ok ((dropDuplicate cp (eaName b o) st).fatAppendPackedEa cp p b o)

/-- The loop of `FatCreateEa`, over the first attributes of the buffer. -/
def createEa (cp : CodePage) (p : EaPool) (owner : List UInt8) (b : EaBuffer) (n : ℕ) :
    Except EaRaise EaList :=
  (b.eas.take n).foldlM (createEaStep cp p b.bytes) (initial p owner)

/-- An attribute. -/
structure Ea where
  flags : UInt8
  name : List UInt8
  terminator : UInt8
  value : List UInt8
  name_lt : name.length < 256
  value_lt : value.length < 65536

namespace Ea

/-- The packed attribute, which is the full one behind its `NextEntryOffset`. -/
def bytes (e : Ea) : List UInt8 :=
  e.flags :: UInt8.ofNat e.name.length ::
    (toBytes 2 e.value.length ++ (e.name ++ e.terminator :: e.value))

def isNeeded (e : Ea) : Bool := e.flags &&& 0x80 != 0

def upcased (cp : CodePage) (e : Ea) : Ea :=
  { e with
    name := e.name.map cp.upper
    name_lt := by rw [List.length_map]; exact e.name_lt }

theorem length_bytes (e : Ea) : e.bytes.length = 5 + e.name.length + e.value.length := by
  simp only [bytes, List.length_cons, List.length_append, length_toBytes]
  omega

@[simp] theorem length_bytes_upcased (cp : CodePage) (e : Ea) :
    (e.upcased cp).bytes.length = e.bytes.length := by
  simp only [length_bytes, upcased, List.length_map]

end Ea

/-- The full attribute at an offset of the caller's buffer. -/
def fullEaAt (b : ℕ → UInt8) (o : ℕ) : Ea where
  flags := eaFlags b o
  name := eaName b o
  terminator := b (o + 8 + eaNameLength b o)
  value := slice b (o + 9 + eaNameLength b o) (eaValueLength b o)
  name_lt := by
    rw [eaName, length_slice]
    exact (b (o + 5)).toNat_lt
  value_lt := by
    rw [length_slice, eaValueLength]
    simpa using ofBytes_lt (slice b (o + 6) 2)

/-- Attributes lie one behind the other. -/
def Listed (m : ℕ → UInt8) (first : ℕ) (es : List Ea) : Prop :=
  slice m first (es.flatMap Ea.bytes).length = es.flatMap Ea.bytes

/-- The block holds the attributes `es`. -/
structure Packs (cp : CodePage) (st : EaList) (es : List Ea) : Prop where
  listed : Listed st.header 30 es
  length_eq : st.packedEasLength = (es.flatMap Ea.bytes).length
  length_le : st.packedEasLength ≤ st.allocationLength
  distinct : es.Pairwise fun d e => ¬ SameName cp d.name e.name
  count_eq : st.needEaCount = es.countP Ea.isNeeded

/-- The attribute of a name. -/
def lookup (cp : CodePage) (es : List Ea) (name : List UInt8) : Option Ea :=
  es.find? fun e => SameName cp name e.name

/-- What a list of attributes says about a name: its last attribute, unless that has no value. -/
def lastOf (cp : CodePage) (fs : List Ea) (name : List UInt8) : Option Ea :=
  match lookup cp fs.reverse name with
  | some e => if e.value = [] then none else some (e.upcased cp)
  | none => none

/-! ## The attributes as a map -/

/-- What one attribute does to the list. -/
def update (cp : CodePage) (es : List Ea) (f : Ea) : List Ea :=
  es.filter (fun e => ¬ SameName cp f.name e.name) ++
    if f.value = [] then [] else [f.upcased cp]

section Map

variable {cp : CodePage} {es : List Ea} {f : Ea} {name : List UInt8}

theorem sameName_upcased : SameName cp name (f.upcased cp).name ↔ SameName cp name f.name := by
  have hidem : cp.upper ∘ cp.upper = cp.upper := funext cp.upper_upper
  rw [SameName, SameName, Ea.upcased, List.map_map, hidem]

/-- The attributes of other names. -/
theorem lookup_filter (es : List Ea) (other name : List UInt8) :
    lookup cp (es.filter fun e => ¬ SameName cp other e.name) name =
      if SameName cp name other then none else lookup cp es name := by
  induction es with
  | nil => simp [lookup]
  | cons e es ih =>
      simp only [lookup] at ih ⊢
      rw [List.filter_cons, List.find?_cons]
      by_cases he : SameName cp name e.name
      · by_cases hs : SameName cp name other
        · have ho : SameName cp other e.name := hs.symm.trans he
          simpa [ho, hs] using ih
        · have ho : ¬ SameName cp other e.name := fun h => hs (he.trans h.symm)
          simp [he, ho, hs]
      · by_cases ho : SameName cp other e.name
        · simpa [he, ho] using ih
        · simpa [he, ho] using ih

theorem lookup_update : lookup cp (update cp es f) name =
    if SameName cp name f.name then (if f.value = [] then none else some (f.upcased cp))
    else lookup cp es name := by
  have htail : lookup cp (if f.value = [] then [] else [f.upcased cp]) name =
      if SameName cp name f.name then (if f.value = [] then none else some (f.upcased cp))
      else none := by
    by_cases hv : f.value = [] <;> by_cases hs : SameName cp name f.name <;>
      simp [lookup, hv, hs, sameName_upcased]
  have hfilter := @lookup_filter cp es f.name name
  rw [lookup] at htail hfilter
  rw [lookup, update, List.find?_append, hfilter, htail]
  by_cases hs : SameName cp name f.name <;> simp [hs]

/-- The list after all attributes says of every name what the last of them says. -/
theorem lookup_foldl_update (cp : CodePage) (fs : List Ea) (name : List UInt8) :
    lookup cp (fs.foldl (update cp) []) name = lastOf cp fs name := by
  induction fs using List.reverseRecOn with
  | nil => rfl
  | append_singleton fs f ih =>
      rw [List.foldl_append, List.foldl_cons, List.foldl_nil, lookup_update, ih, lastOf, lastOf,
        List.reverse_append, List.reverse_singleton, List.singleton_append, lookup, lookup,
        List.find?_cons]
      by_cases hs : SameName cp name f.name <;> simp [hs]

end Map

/-! ## The bytes of attributes -/

theorem ofBytes_take_two {n : ℕ} (h : n < 65536) : ofBytes (toBytes 2 n) = n :=
  ofBytes_toBytes_of_lt (by simpa using h)

section Bytes

variable {m : ℕ → UInt8} {first : ℕ} {e : Ea} {es fs : List Ea}

@[simp] theorem listed_nil : Listed m first [] := rfl

theorem listed_append : Listed m first (es ++ fs) ↔
    Listed m first es ∧ Listed m (first + (es.flatMap Ea.bytes).length) fs := by
  rw [Listed, List.flatMap_append, slice_eq_append, Listed, Listed]

theorem listed_singleton : Listed m first [e] ↔ slice m first e.bytes.length = e.bytes := by
  simp [Listed]

theorem listed_cons : Listed m first (e :: es) ↔
    slice m first e.bytes.length = e.bytes ∧ Listed m (first + e.bytes.length) es := by
  rw [← List.singleton_append, listed_append, listed_singleton]
  simp

/-- What the bytes of an attribute say field by field. -/
theorem slice_eq_bytes : slice m first e.bytes.length = e.bytes ↔
    m first = e.flags ∧ m (first + 1) = UInt8.ofNat e.name.length ∧
      slice m (first + 2) 2 = toBytes 2 e.value.length ∧
      slice m (first + 4) e.name.length = e.name ∧
      m (first + 4 + e.name.length) = e.terminator ∧
      slice m (first + 5 + e.name.length) e.value.length = e.value := by
  have hvalue : first + 4 + e.name.length + 1 = first + 5 + e.name.length := by omega
  rw [Ea.bytes, List.length_cons, List.length_cons, slice_succ, slice_succ, List.cons.injEq,
    List.cons.injEq, slice_eq_append, length_toBytes, slice_eq_append, List.length_cons,
    slice_succ m (first + 1 + 1 + 2 + e.name.length), List.cons.injEq, ← hvalue]

theorem slice_fullEaAt (b : ℕ → UInt8) (o : ℕ) :
    slice b (o + 4) (fullEaAt b o).bytes.length = (fullEaAt b o).bytes := by
  have hname : (fullEaAt b o).name.length = eaNameLength b o := length_slice _ _ _
  have hvalue : (fullEaAt b o).value.length = eaValueLength b o := length_slice _ _ _
  have hbytes : toBytes 2 (eaValueLength b o) = slice b (o + 6) 2 := by
    have h := toBytes_ofBytes (slice b (o + 6) 2)
    rwa [length_slice] at h
  rw [slice_eq_bytes, hname, hvalue, hbytes]
  refine ⟨rfl, ?_, rfl, rfl, rfl, ?_⟩
  · rw [eaNameLength, UInt8.ofNat_toNat]
  · rw [show o + 4 + 5 = o + 9 by omega]
    rfl

theorem length_fullEaAt (b : ℕ → UInt8) (o : ℕ) :
    (fullEaAt b o).bytes.length + 4 = sizeOfFullEa b o := by
  have hname : (fullEaAt b o).name.length = eaNameLength b o := length_slice _ _ _
  have hvalue : (fullEaAt b o).value.length = eaValueLength b o := length_slice _ _ _
  rw [Ea.length_bytes, hname, hvalue, sizeOfFullEa]
  omega

theorem length_le_length_flatMap (es : List Ea) : es.length ≤ (es.flatMap Ea.bytes).length := by
  induction es with
  | nil => simp
  | cons e es ih =>
      rw [List.flatMap_cons, List.length_append, List.length_cons, Ea.length_bytes]
      omega

theorem countP_lt {st : EaList} {cp : CodePage} (h : Packs cp st es)
    (hlt : st.packedEasLength < 2 ^ 32) : es.countP Ea.isNeeded < 2 ^ 32 := by
  have hle := (List.countP_le_length (p := Ea.isNeeded)).trans (length_le_length_flatMap es)
  rw [← h.length_eq] at hle
  omega

end Bytes

namespace EaList

variable {st : EaList} {cp : CodePage} {e : Ea} {es : List Ea} {offset : ℕ} {name : List UInt8}

/-! ## Finding an attribute -/

theorem sizeOfPackedEa_eq (h : slice st.header (30 + offset) e.bytes.length = e.bytes) :
    st.sizeOfPackedEa offset = e.bytes.length := by
  obtain ⟨-, hname, hvalue, -⟩ := slice_eq_bytes.mp h
  rw [sizeOfPackedEa, hname, hvalue, ofBytes_take_two e.value_lt,
    UInt8.toNat_ofNat_of_lt' e.name_lt, Ea.length_bytes]
  omega

theorem packedName_eq (h : slice st.header (30 + offset) e.bytes.length = e.bytes) :
    st.packedName offset = e.name := by
  obtain ⟨-, hlength, -, hname, -⟩ := slice_eq_bytes.mp h
  rw [packedName, hlength, UInt8.toNat_ofNat_of_lt' e.name_lt, hname]

theorem locateFrom_of_le {n : ℕ} (h : st.packedEasLength ≤ offset) :
    st.locateFrom cp name n offset = none := by
  cases n with
  | zero => rfl
  | succ n => rw [locateFrom, if_neg (Nat.not_lt_of_le h)]

/-- Behind the last attribute the walk goes past the end, as it does from the end itself. -/
theorem locateFrom_next {n : ℕ} (hlt : st.packedEasLength < 2 ^ 32)
    (h : slice st.header (30 + offset) e.bytes.length = e.bytes)
    (hend : offset + e.bytes.length ≤ st.packedEasLength) :
    st.locateFrom cp name n (st.fatLocateNextEa offset) =
      st.locateFrom cp name n (offset + e.bytes.length) := by
  have hlen := e.length_bytes
  rw [fatLocateNextEa, if_neg (by omega), sizeOfPackedEa_eq h, ulong_of_lt (by omega)]
  dsimp only
  split
  · next hle => rw [locateFrom_of_le (by omega), locateFrom_of_le hle]
  · rfl

theorem locateFrom_eq (hlt : st.packedEasLength < 2 ^ 32) {n : ℕ} (hn : es.length < n)
    (h : Listed st.header (30 + offset) es)
    (hend : offset + (es.flatMap Ea.bytes).length = st.packedEasLength) :
    st.locateFrom cp name n offset =
      if ∀ e ∈ es, ¬ SameName cp name e.name then none
      else some (offset +
        ((es.takeWhile fun e => ¬ SameName cp name e.name).flatMap Ea.bytes).length) := by
  induction es generalizing n offset with
  | nil =>
      rw [locateFrom_of_le (by simpa using hend.ge)]
      simp
  | cons e es ih =>
      obtain ⟨hhere, hrest⟩ := listed_cons.mp h
      obtain ⟨n, rfl⟩ : ∃ k, n = k + 1 := ⟨n - 1, by rw [List.length_cons] at hn; omega⟩
      have hlen := e.length_bytes
      rw [List.flatMap_cons, List.length_append] at hend
      rw [locateFrom, if_pos (by omega), packedName_eq hhere]
      by_cases hs : SameName cp name e.name
      · simp [hs]
      · rw [if_neg hs, locateFrom_next hlt hhere (by omega),
          ih (by simpa using hn) (by rwa [← Nat.add_assoc]) (by omega)]
        simp only [List.forall_mem_cons, hs, not_false_eq_true, true_and, List.takeWhile_cons,
          decide_true, ite_true, List.flatMap_cons, List.length_append, Nat.add_assoc]

/-! ## Cutting an attribute out -/

theorem needEaCount_setNeedEaCount {n : ℕ} (h : n < 2 ^ 32) :
    (st.setNeedEaCount n).needEaCount = n := by
  have hplace := slice_place st.header 4 (toBytes 4 n)
  rw [length_toBytes] at hplace
  rw [needEaCount, setNeedEaCount, hplace, ofBytes_toBytes_of_lt (by simpa using h)]

/-- Bytes behind the header leave the count as it is. -/
theorem needEaCount_place (st : EaList) {first : ℕ} (bs : List UInt8) (h : 30 ≤ first) :
    ofBytes (slice (place st.header first bs) 4 4) = st.needEaCount := by
  rw [slice_place_of_disjoint _ (by omega), needEaCount]

theorem listed_setNeedEaCount {n : ℕ} (h : Listed st.header 30 es) :
    Listed (st.setNeedEaCount n).header 30 es := by
  rw [Listed, setNeedEaCount, slice_place_of_disjoint _ (by simp), h]

theorem listed_countDown (h : Listed st.header 30 es) :
    Listed (st.countDown offset).header 30 es := by
  unfold countDown
  split
  · exact listed_setNeedEaCount h
  · exact h

theorem listed_countUp {flags : UInt8} (h : Listed st.header 30 es) :
    Listed (st.countUp flags).header 30 es := by
  unfold countUp
  split
  · exact listed_setNeedEaCount h
  · exact h

theorem countDown_packedEasLength : (st.countDown offset).packedEasLength = st.packedEasLength := by
  unfold countDown
  split <;> rfl

theorem countDown_allocationLength :
    (st.countDown offset).allocationLength = st.allocationLength := by
  unfold countDown
  split <;> rfl

theorem countUp_packedEasLength {flags : UInt8} :
    (st.countUp flags).packedEasLength = st.packedEasLength := by
  unfold countUp
  split <;> rfl

theorem countUp_allocationLength {flags : UInt8} :
    (st.countUp flags).allocationLength = st.allocationLength := by
  unfold countUp
  split <;> rfl

theorem needEaCount_countDown {n : ℕ} (hflags : st.header (30 + offset) = e.flags)
    (hcount : st.needEaCount = n + if e.isNeeded then 1 else 0) (hlt : n + 1 < 2 ^ 32) :
    (st.countDown offset).needEaCount = n := by
  rw [countDown, hflags]
  by_cases hneed : e.isNeeded
  · have hflag : e.flags &&& 0x80 ≠ 0 := by simpa [Ea.isNeeded] using hneed
    rw [if_pos hneed] at hcount
    rw [if_pos hflag, hcount, ulongSub_of_le hlt (by omega), Nat.add_sub_cancel,
      needEaCount_setNeedEaCount (by omega)]
  · have hflag : ¬ e.flags &&& 0x80 ≠ 0 := by simpa [Ea.isNeeded] using hneed
    rw [if_neg hneed] at hcount
    rw [if_neg hflag, hcount, Nat.add_zero]

theorem needEaCount_countUp {n : ℕ} (hcount : st.needEaCount = n) (hlt : n + 1 < 2 ^ 32) :
    (st.countUp e.flags).needEaCount = n + if e.isNeeded then 1 else 0 := by
  rw [countUp]
  by_cases hneed : e.isNeeded
  · have hflag : e.flags &&& 0x80 ≠ 0 := by simpa [Ea.isNeeded] using hneed
    rw [if_pos hflag, if_pos hneed, hcount, ulong_of_lt hlt, needEaCount_setNeedEaCount hlt]
  · have hflag : ¬ e.flags &&& 0x80 ≠ 0 := by simpa [Ea.isNeeded] using hneed
    rw [if_neg hflag, if_neg hneed, hcount, Nat.add_zero]

/-- The attributes in front of the one that goes stay, and those behind it move down. -/
theorem listed_cut {as bs : List Ea} (hlt : st.packedEasLength < 2 ^ 32)
    (h : Listed st.header 30 (as ++ e :: bs))
    (hlength : st.packedEasLength = ((as ++ e :: bs).flatMap Ea.bytes).length) :
    Listed (st.cut (as.flatMap Ea.bytes).length e.bytes.length).header 30 (as ++ bs) := by
  obtain ⟨hfront, hrest⟩ := listed_append.mp h
  obtain ⟨-, hback⟩ := listed_cons.mp hrest
  rw [List.flatMap_append, List.flatMap_cons, List.length_append, List.length_append] at hlength
  have hmoved : ulongSub st.packedEasLength
      (ulong ((as.flatMap Ea.bytes).length + e.bytes.length)) = (bs.flatMap Ea.bytes).length := by
    rw [ulong_of_lt (by omega), ulongSub_of_le hlt (by omega)]
    omega
  have hlast : ulongSub st.packedEasLength e.bytes.length =
      (as.flatMap Ea.bytes).length + (bs.flatMap Ea.bytes).length := by
    rw [ulongSub_of_le hlt (by omega)]
    omega
  rw [cut, hmoved, hlast, hback]
  refine listed_append.mpr ⟨?_, ?_⟩
  · rw [Listed, slice_place_of_disjoint _ (by omega), slice_place_of_disjoint _ (by omega), hfront]
  · rw [Listed, slice_place_of_disjoint _ (by omega), slice_place]

theorem packs_fatDeletePackedEa {as bs : List Ea} (hlt : st.packedEasLength < 2 ^ 32)
    (h : Packs cp st (as ++ e :: bs)) :
    Packs cp (st.fatDeletePackedEa (as.flatMap Ea.bytes).length) (as ++ bs) := by
  have hlength := h.length_eq
  have hcount := h.count_eq
  have hcountLt := countP_lt h hlt
  have hhere := (listed_cons.mp (listed_append.mp h.listed).2).1
  have hflags := (slice_eq_bytes.mp hhere).1
  rw [List.flatMap_append, List.flatMap_cons, List.length_append, List.length_append] at hlength
  rw [List.countP_append, List.countP_cons] at hcount hcountLt
  have hsize : ulongSub st.packedEasLength e.bytes.length =
      (as.flatMap Ea.bytes).length + (bs.flatMap Ea.bytes).length := by
    rw [ulongSub_of_le hlt (by omega)]
    omega
  have hdistinct : (as ++ bs).Pairwise fun d e => ¬ SameName cp d.name e.name :=
    h.distinct.sublist (List.Sublist.append_left (List.sublist_cons_self e bs) as)
  rw [fatDeletePackedEa, sizeOfPackedEa_eq hhere]
  constructor
  · apply listed_cut
    · rwa [countDown_packedEasLength]
    · exact listed_countDown h.listed
    · rw [countDown_packedEasLength, h.length_eq]
  · rw [cut, countDown_packedEasLength, hsize, List.flatMap_append, List.length_append]
  · have hle := h.length_le
    rw [cut, countDown_packedEasLength, countDown_allocationLength, hsize]
    dsimp only
    omega
  · exact hdistinct
  · have hdown : (st.countDown (as.flatMap Ea.bytes).length).needEaCount =
        as.countP Ea.isNeeded + bs.countP Ea.isNeeded := by
      apply needEaCount_countDown hflags
      · rw [hcount]
        omega
      · have := length_le_length_flatMap as
        have := length_le_length_flatMap bs
        have := List.countP_le_length (p := Ea.isNeeded) (l := as)
        have := List.countP_le_length (p := Ea.isNeeded) (l := bs)
        have := e.length_bytes
        omega
    rw [needEaCount, cut, slice_place_of_disjoint _ (by omega),
      needEaCount_place _ _ (Nat.le_add_right 30 _), hdown, List.countP_append]

/-! ## Putting an attribute at the end -/

/-- What stands behind the header stays where it was. -/
theorem packs_grow {p : EaPool} {size : ℕ} (h : Packs cp st es)
    (hfull : st.allocationLength < size + st.packedEasLength)
    (hroom : 30 + size + st.packedEasLength < 2 ^ 32) :
    Packs cp (st.grow p size) es ∧
      size + (st.grow p size).packedEasLength ≤ (st.grow p size).allocationLength := by
  have hle := h.length_le
  have hold : ulong (st.allocationLength + 30) = 30 + st.allocationLength := by
    rw [ulong_of_lt (by omega), Nat.add_comm]
  have hnew : size + st.packedEasLength ≤
      ulongSub (p.round (30 + size + st.packedEasLength)) 30 := by
    have hx : (BitVec.ofNat 32 (30 + size + st.packedEasLength)).toNat =
        30 + size + st.packedEasLength := by
      rw [BitVec.toNat_ofNat, Nat.mod_eq_of_lt hroom]
    rw [EaPool.round, EaPool.bytesPerCluster, toNat_alignUp _ p.log_lt, hx]
    split
    · next hfits =>
        have hge := le_ceilTo p.logOfBytesPerCluster (30 + size + st.packedEasLength)
        have hlt : ceilTo p.logOfBytesPerCluster (30 + size + st.packedEasLength) < 2 ^ 32 :=
          (Nat.div_mul_le_self _ _).trans_lt hfits
        rw [ulongSub_of_le hlt (by omega)]
        omega
    · unfold ulongSub
      omega
  have hkept : ∀ {first count : ℕ}, first + count ≤ 30 + st.allocationLength →
      slice (st.grow p size).header first count = slice st.header first count := by
    intro first count hin
    rw [grow, hold]
    dsimp only
    rw [slice_place_of_disjoint _ (by omega)]
    apply slice_congr
    intro i _ hi
    apply place_of_getElem? _ (Nat.zero_le i)
    rw [getElem?_slice _ _ (by omega), Nat.zero_add]
    rfl
  have hgrown : (st.grow p size).packedEasLength = st.packedEasLength := rfl
  refine ⟨⟨?_, h.length_eq, ?_, h.distinct, ?_⟩, ?_⟩
  · rw [Listed, hkept (by rw [← h.length_eq]; omega), h.listed]
  · exact (Nat.le_add_left _ _).trans hnew
  · rw [needEaCount, hkept (by omega), ← needEaCount, h.count_eq]
  · exact hnew

theorem packs_makeRoom {p : EaPool} {size : ℕ} (h : Packs cp st es)
    (hroom : 30 + size + st.packedEasLength < 2 ^ 32) :
    Packs cp (st.makeRoom p size) es ∧
      size + (st.makeRoom p size).packedEasLength ≤ (st.makeRoom p size).allocationLength := by
  rw [makeRoom, ulong_of_lt (by omega)]
  split
  · next hfull => exact packs_grow h hfull hroom
  · next hfits => exact ⟨h, not_lt.mp hfits⟩

/-- The bytes copied are the attribute with its name in capitals, behind the others. -/
theorem listed_put
    (h : Listed st.header 30 es) (hlength : st.packedEasLength = (es.flatMap Ea.bytes).length) :
    Listed (st.put cp e.bytes e.name.length).header 30 (es ++ [e.upcased cp]) := by
  have hlen := e.length_bytes
  have hcopied : slice (place st.header (30 + st.packedEasLength) e.bytes)
      (30 + st.packedEasLength) e.bytes.length = e.bytes := slice_place _ _ _
  obtain ⟨hflags, hname, hvalue, htext, hterm, hdata⟩ := slice_eq_bytes.mp hcopied
  have hupper : ((e.name.map cp.upper).length) = e.name.length := List.length_map _
  rw [put]
  dsimp only
  rw [htext, listed_append, listed_singleton, slice_eq_bytes, ← hlength]
  refine ⟨?_, ?_, ?_, ?_, ?_, ?_, ?_⟩
  · rw [Listed, slice_place_of_disjoint _ (by omega), slice_place_of_disjoint _ (by omega), h]
  · rw [place_of_lt _ _ (by omega), hflags]
    rfl
  · rw [place_of_lt _ _ (by omega), hname, Ea.upcased, hupper]
  · rw [slice_place_of_disjoint _ (by omega), hvalue]
    rfl
  · exact slice_place _ _ _
  · rw [Ea.upcased, hupper, place_of_le _ (by rw [hupper]), hterm]
  · rw [Ea.upcased, hupper, slice_place_of_disjoint _ (by omega), hdata]

theorem packs_fatAppendPackedEa {p : EaPool} {b : ℕ → UInt8} {o : ℕ} (h : Packs cp st es)
    (hroom : 26 + sizeOfFullEa b o + st.packedEasLength < 2 ^ 32)
    (hnew : ∀ d ∈ es, ¬ SameName cp d.name (fullEaAt b o).name) :
    Packs cp (st.fatAppendPackedEa cp p b o) (es ++ [(fullEaAt b o).upcased cp]) := by
  have hlen := length_fullEaAt b o
  have hsize : ulongSub (sizeOfFullEa b o) 4 = (fullEaAt b o).bytes.length := by
    rw [ulongSub_of_le (by omega) (by omega)]
    omega
  have hname : (fullEaAt b o).name.length = eaNameLength b o := length_slice _ _ _
  rw [fatAppendPackedEa, hsize]
  obtain ⟨hroomy, hfits⟩ := @packs_makeRoom st cp es p (fullEaAt b o).bytes.length h (by omega)
  have hsame : (st.makeRoom p (fullEaAt b o).bytes.length).packedEasLength = st.packedEasLength := by
    rw [hroomy.length_eq, h.length_eq]
  generalize st.makeRoom p (fullEaAt b o).bytes.length = st' at hroomy hfits hsame
  rw [slice_fullEaAt, ← hname]
  have hcount : es.countP Ea.isNeeded + 1 < 2 ^ 32 := by
    have hle := (List.countP_le_length (p := Ea.isNeeded)).trans (length_le_length_flatMap es)
    rw [← h.length_eq] at hle
    omega
  constructor
  · apply listed_put
    · exact listed_countUp hroomy.listed
    · rw [countUp_packedEasLength, hroomy.length_eq]
  · rw [put, countUp_packedEasLength, ulong_of_lt (by omega), hroomy.length_eq,
      List.flatMap_append, List.length_append]
    simp
  · rw [put, countUp_packedEasLength, countUp_allocationLength, ulong_of_lt (by omega)]
    dsimp only
    omega
  · rw [List.pairwise_append]
    refine ⟨h.distinct, List.pairwise_singleton _ _, ?_⟩
    intro d hd g hg hsame
    rw [List.mem_singleton.mp hg, sameName_upcased] at hsame
    exact hnew d hd hsame
  · have hup := @needEaCount_countUp st' (fullEaAt b o) _ hroomy.count_eq hcount
    have hflags : ((fullEaAt b o).upcased cp).isNeeded = (fullEaAt b o).isNeeded := rfl
    rw [needEaCount, put, slice_place_of_disjoint _ (by omega),
      needEaCount_place _ _ (Nat.le_add_right 30 _), List.countP_append, List.countP_singleton,
      hflags]
    exact hup

end EaList

/-! ## The loop -/

section Loop

variable {cp : CodePage} {p : EaPool} {st st' : EaList} {es : List Ea} {name : List UInt8}

theorem exists_first (h : ¬ ∀ e ∈ es, ¬ SameName cp name e.name) :
    ∃ as e bs, es = as ++ e :: bs ∧ SameName cp name e.name ∧
      (∀ a ∈ as, ¬ SameName cp name a.name) ∧
      (es.takeWhile fun e => ¬ SameName cp name e.name) = as := by
  induction es with
  | nil => simp at h
  | cons d es ih =>
      by_cases hd : SameName cp name d.name
      · exact ⟨[], d, es, rfl, hd, by simp, by simp [hd]⟩
      · have hrest : ¬ ∀ e ∈ es, ¬ SameName cp name e.name := by simpa [hd] using h
        obtain ⟨as, e, bs, rfl, he, hbefore, htake⟩ := ih hrest
        refine ⟨d :: as, e, bs, rfl, he, ?_, ?_⟩
        · simpa [hd] using hbefore
        · rw [List.takeWhile_cons, if_pos (by simpa using hd), htake]

/-- Of the attributes one at most has the name. -/
theorem filter_first {as bs : List Ea} {e : Ea}
    (hdistinct : (as ++ e :: bs).Pairwise fun d e => ¬ SameName cp d.name e.name)
    (he : SameName cp name e.name) (hbefore : ∀ a ∈ as, ¬ SameName cp name a.name) :
    ((as ++ e :: bs).filter fun e => ¬ SameName cp name e.name) = as ++ bs := by
  have hbehind : ∀ d ∈ bs, ¬ SameName cp name d.name := by
    intro d hd hsame
    have hcons := (List.pairwise_append.mp hdistinct).2.1
    exact (List.pairwise_cons.mp hcons).1 d hd (he.symm.trans hsame)
  rw [List.filter_append, List.filter_cons_of_neg (by simpa using he),
    List.filter_eq_self.mpr (by simpa using hbefore),
    List.filter_eq_self.mpr (by simpa using hbehind)]

theorem packs_dropDuplicate (h : Packs cp st es) (hlt : st.packedEasLength < 2 ^ 32) :
    Packs cp (dropDuplicate cp name st) (es.filter fun e => ¬ SameName cp name e.name) := by
  have hfuel : es.length < st.packedEasLength + 1 := by
    have := length_le_length_flatMap es
    rw [h.length_eq]
    omega
  have hfound := @EaList.locateFrom_eq st cp es 0 name hlt _ hfuel h.listed
    (by rw [Nat.zero_add, h.length_eq])
  rw [dropDuplicate, EaList.fatLocateEaByName, hfound]
  by_cases hnone : ∀ e ∈ es, ¬ SameName cp name e.name
  · rw [if_pos hnone, List.filter_eq_self.mpr (by simpa using hnone)]
    exact h
  · obtain ⟨as, e, bs, rfl, he, hbefore, htake⟩ := exists_first hnone
    rw [if_neg hnone, htake, filter_first h.distinct he hbefore, Nat.zero_add]
    exact EaList.packs_fatDeletePackedEa hlt h

theorem length_filter_le (es : List Ea) (q : Ea → Bool) :
    ((es.filter q).flatMap Ea.bytes).length ≤ (es.flatMap Ea.bytes).length :=
  (List.filter_sublist.flatMap Ea.bytes).length_le

/-- One step of the loop. -/
theorem packs_step {b : ℕ → UInt8} {o : ℕ} (h : Packs cp st es)
    (hroom : 26 + sizeOfFullEa b o + st.packedEasLength < 2 ^ 32)
    (hstep : createEaStep cp p b st o = .ok st') :
    Packs cp st' (update cp es (fullEaAt b o)) := by
  have hdrop := @packs_dropDuplicate cp st es (eaName b o) h (by omega)
  have hvalue : (fullEaAt b o).value.length = eaValueLength b o := length_slice _ _ _
  unfold createEaStep at hstep
  split at hstep
  · cases hstep
  split at hstep
  · cases hstep
  rw [update]
  split at hstep
  · next hempty =>
      cases hstep
      have hnil : (fullEaAt b o).value = [] := List.length_eq_zero_iff.mp (hvalue.trans hempty)
      rw [if_pos hnil, List.append_nil]
      exact hdrop
  · next hsome =>
      cases hstep
      have hcons : (fullEaAt b o).value ≠ [] := by
        intro hnil
        rw [hnil] at hvalue
        exact hsome hvalue.symm
      have hlength := length_filter_le es fun e => ¬ SameName cp (eaName b o) e.name
      rw [← h.length_eq, ← hdrop.length_eq] at hlength
      rw [if_neg hcons]
      apply EaList.packs_fatAppendPackedEa hdrop
      · omega
      · intro d hd hsame
        have hother : ¬ SameName cp (eaName b o) d.name := by simpa using (List.mem_filter.mp hd).2
        exact hother hsame.symm

theorem packs_initial (cp : CodePage) (p : EaPool) (owner : List UInt8) :
    Packs cp (initial p owner) [] := by
  have hsize : 30 ≤ p.round 30 := by
    have hx : (BitVec.ofNat 32 30).toNat = 30 := rfl
    have hk : 2 ^ p.logOfBytesPerCluster ≤ 2 ^ 31 :=
      Nat.pow_le_pow_right (by norm_num) (by have := p.log_lt; omega)
    rw [EaPool.round, EaPool.bytesPerCluster, toNat_alignUp _ p.log_lt, hx, if_pos (by omega)]
    exact le_ceilTo _ 30
  refine ⟨listed_nil, rfl, Nat.zero_le _, List.Pairwise.nil, ?_⟩
  rw [EaList.needEaCount, initial]
  dsimp only
  rw [slice_place_of_disjoint _ (by omega)]
  have hzero := slice_place (p.fresh (p.round 30)) 0 (List.replicate (p.round 30) 0)
  rw [List.length_replicate] at hzero
  have hfour : slice (place (p.fresh (p.round 30)) 0 (List.replicate (p.round 30) 0)) 4 4 =
      List.replicate 4 0 := by
    apply List.ext_getElem?
    intro i
    rcases Nat.lt_or_ge i 4 with hi | hi
    · rw [getElem?_slice _ _ hi, place_of_getElem? _ (Nat.zero_le _)
        (List.getElem?_replicate_of_lt (by omega)), List.getElem?_replicate_of_lt hi]
    · rw [List.getElem?_eq_none (by simpa using hi), List.getElem?_eq_none (by simpa using hi)]
  rw [hfour]
  rfl

theorem sizeOfFullEa_le (b : ℕ → UInt8) (o : ℕ) : sizeOfFullEa b o ≤ 65799 := by
  have hlen := length_fullEaAt b o
  have hname := (fullEaAt b o).name_lt
  have hvalue := (fullEaAt b o).value_lt
  rw [Ea.length_bytes] at hlen
  omega

theorem sum_fullEas_le {b : ℕ → UInt8} {length n o : ℕ}
    (h : ∀ a ∈ fullEas b length n o, a + sizeOfFullEa b a ≤ length ∧
      (nextEntryOffset b a = 0 ∨ sizeOfFullEa b a ≤ nextEntryOffset b a)) :
    ((fullEas b length n o).map (sizeOfFullEa b)).sum ≤ length - o := by
  induction n generalizing o with
  | zero => simp [fullEas]
  | succ n ih =>
      rw [fullEas] at h ⊢
      split at h
      · next hlt =>
          rw [if_pos hlt, List.map_cons, List.sum_cons]
          obtain ⟨⟨hend, hnext⟩, hrest⟩ := List.forall_mem_cons.mp h
          have htail := ih hrest
          split at htail <;> split <;> omega
      · next hge =>
          rw [if_neg hge]
          exact Nat.zero_le _

theorem EaBuffer.sum_le (b : EaBuffer) : (b.eas.map (sizeOfFullEa b.bytes)).sum ≤ b.length :=
  sum_fullEas_le b.valid

/-- The list after the attributes at `os`, which all lie in the buffer. -/
theorem packs_run {b : ℕ → UInt8} {owner : List UInt8} {os : List ℕ} {total : ℕ}
    (htotal : total < 2 ^ 32) (hsum : (os.map (sizeOfFullEa b)).sum ≤ total)
    (h : os.foldlM (createEaStep cp p b) (initial p owner) = .ok st) :
    Packs cp st ((os.map (fullEaAt b)).foldl (update cp) []) ∧
      st.packedEasLength + 4 * os.length ≤ (os.map (sizeOfFullEa b)).sum := by
  induction os using List.reverseRecOn generalizing st with
  | nil =>
      cases h
      exact ⟨packs_initial cp p owner, Nat.le_refl _⟩
  | append_singleton os o ih =>
      have hsplit : ((os ++ [o]).map (sizeOfFullEa b)).sum =
          (os.map (sizeOfFullEa b)).sum + sizeOfFullEa b o := by
        rw [List.map_append, List.sum_append, List.map_singleton, List.sum_singleton]
      rw [hsplit] at hsum ⊢
      rw [List.foldlM_append] at h
      cases hbefore : os.foldlM (createEaStep cp p b) (initial p owner) with
      | error e =>
          rw [hbefore] at h
          cases h
      | ok before =>
          rw [hbefore] at h
          have hlast : createEaStep cp p b before o = .ok st := by
            cases hstep : createEaStep cp p b before o with
            | error e => simp [hstep, bind, Except.bind] at h
            | ok after =>
                simp only [List.foldlM_cons, List.foldlM_nil, hstep, bind, Except.bind, pure,
                  Except.pure] at h
                exact h
          obtain ⟨hpacks, hlength⟩ := ih (by omega) hbefore
          have hmany : (os.map (sizeOfFullEa b)).sum ≤ os.length * 65799 := by
            have := List.sum_le_card_nsmul (os.map (sizeOfFullEa b)) 65799 (by
              intro n hn
              obtain ⟨a, -, rfl⟩ := List.mem_map.mp hn
              exact sizeOfFullEa_le b a)
            simpa using this
          have hsize := sizeOfFullEa_le b o
          -- eight attributes leave room for the header, and fewer are short
          have hafter := packs_step hpacks (by omega) hlast
          rw [List.map_append, List.foldl_append]
          refine ⟨hafter, ?_⟩
          have hlen := length_fullEaAt b o
          have hgrown : st.packedEasLength ≤ before.packedEasLength + (fullEaAt b o).bytes.length := by
            have hfilter := length_filter_le ((os.map (fullEaAt b)).foldl (update cp) [])
              fun e => ¬ SameName cp (fullEaAt b o).name e.name
            rw [← hpacks.length_eq] at hfilter
            rw [hafter.length_eq, update, List.flatMap_append, List.length_append]
            split
            · simpa using hfilter.trans (Nat.le_add_right _ _)
            · simpa using hfilter
          rw [List.length_append, List.length_singleton]
          omega

end Loop

/-- **The packed list is a map.**  After every step the block holds whole attributes one behind the
other, of different names, within its allocation; a name has the value that came last with it, and
none where that was empty; and `NeedEaCount` counts the attributes with the flag. -/
theorem createEa_packs (cp : CodePage) (p : EaPool) (owner : List UInt8) (b : EaBuffer) (n : ℕ)
    {st : EaList} (h : createEa cp p owner b n = .ok st) :
    ∃ es, Packs cp st es ∧
      ∀ name, lookup cp es name = lastOf cp ((b.eas.take n).map (fullEaAt b.bytes)) name := by
  have hsum : ((b.eas.take n).map (sizeOfFullEa b.bytes)).sum ≤ b.length := by
    refine le_trans ?_ b.sum_le
    exact ((List.take_sublist n b.eas).map _).sum_le_sum fun _ _ => Nat.zero_le _
  obtain ⟨hpacks, -⟩ := packs_run b.length_lt hsum h
  exact ⟨_, hpacks, lookup_foldl_update cp _⟩

/-- The code page of ASCII. -/
def ascii : CodePage where
  upper c := if 0x61 ≤ c ∧ c ≤ 0x7a then c - 0x20 else c
  isLead _ := false
  isLegal c := 0x20 ≤ c
  upper_upper c := by
    have hlower : 0x61 ≤ c ∧ c ≤ 0x7a → ¬ (0x61 ≤ c - 0x20 ∧ c - 0x20 ≤ 0x7a) := by
      simp only [UInt8.le_iff_toNat_le, UInt8.toNat_sub, UInt8.reduceToNat]
      omega
    split
    · next h => rw [if_neg (hlower h)]
    · rfl

/-- `a` with two bytes, then `A`, which is needed, with one. -/
def twoEas : EaBuffer where
  bytes i := [12, 0, 0, 0, 0, 1, 2, 0, 0x61, 0, 1, 2, 0, 0, 0, 0, 0x80, 1, 1, 0, 0x41, 0, 3].getD i 0
  length := 23
  length_lt := by norm_num
  valid := by decide +kernel

theorem sectorLog_lt : 9 < 32 := by decide

theorem createEa_packs_twoEas : ∃ st es, createEa ascii ⟨9, sectorLog_lt, fun _ _ => 0⟩ [] twoEas 2 =
      .ok st ∧ Packs ascii st es ∧
      ∀ name, lookup ascii es name =
        lastOf ascii ((twoEas.eas.take 2).map (fullEaAt twoEas.bytes)) name := by
  have hok : (createEa ascii ⟨9, sectorLog_lt, fun _ _ => 0⟩ [] twoEas 2).isOk = true := by
    decide +kernel
  cases hrun : createEa ascii ⟨9, sectorLog_lt, fun _ _ => 0⟩ [] twoEas 2 with
  | error e =>
      rw [hrun] at hok
      cases hok
  | ok st =>
      obtain ⟨es, hpacks, hlast⟩ := createEa_packs _ _ _ _ _ hrun
      exact ⟨st, es, rfl, hpacks, hlast⟩

end KernelDrivers.Fat.PackedEas
