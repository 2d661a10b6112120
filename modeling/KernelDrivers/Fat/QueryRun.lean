import KernelDrivers.Fat.LongName
import KernelDrivers.Fat.QueryDirectory
import KernelDrivers.Lib.Align

/-!
# What a listing returns

The calls on a handle return the entries of the directory one after the other: what a call delivers
is a chain of records in the buffer, and the handle's offset stands behind them.  The one thing
that can go wrong is the position of the next record, a 32-bit value: where the records of a call
end within the last seven bytes below 4 GB, it wraps to zero, and the call goes on as if nothing
had been written.

## Main definitions

* `Chain` — the records of entries in a buffer, linked.
* `Served` — what a call has delivered.
* `Delivered` — what the calls of a sequence have delivered.
* `Call.Overruns` — the records of a call reach up to 4 GB.

## Main results

* `listsAll_of_admitted` — every entry is returned once, in order, in calls that do not overrun.
* `not_listsAll` — a directory and a call for which this fails.
-/

namespace KernelDrivers.Fat.QueryDir

/-! ## Records in a buffer -/

section Spec

variable (vol : Volume) (cls : InfoClass) (m : ℕ → UInt8)

/-- The record of an entry lies at `p`. -/
def Lies (p next : ℕ) (e : Entry) : Prop :=
  slice m p (recordLength vol cls e) = record vol cls next e

/-- The distance from a record to the next one. -/
def gap (e : Entry) : ℕ := ceilTo 3 (recordLength vol cls e)

/-- Records from `p` on, each with the distance to the next; the next one goes to `q`. -/
def Linked : ℕ → List Entry → ℕ → Prop
  | p, [], q => p = q
  | p, e :: es, q => Lies vol cls m p (gap vol cls e) e ∧ Linked (p + gap vol cls e) es q

/-- The records of entries from the start of the buffer on.  The last one is at `last`, has no next
one, and its name ends at `stop`. -/
def Chain (es : List Entry) (last stop : ℕ) : Prop :=
  ∃ front e, es = front ++ [e] ∧ Linked vol cls m 0 front last ∧ Lies vol cls m last 0 e ∧
    stop = last + recordLength vol cls e

/-- Where records that are laid out one behind the other end. -/
def packedEnd (es : List Entry) : ℕ :=
  es.foldl (fun n e => ceilTo 3 n + recordLength vol cls e) 0

end Spec

/-- The call has delivered the entries `es`, and the handle stands behind them.  A call that has
delivered nothing ends with an error, and with the end of the directory only if nothing was left. -/
structure Served (vol : Volume) (dir : Directory) (c : Call) (h : Handle) (r : Reply)
    (es : List Entry) : Prop where
  entries_eq : entries vol dir h.offsetToStartSearchFrom = es ++ entries vol dir r.offset
  within : ∀ i, c.userBufferLength ≤ i → r.buffer i = c.userBuffer i
  chain : es ≠ [] → r.status = .success ∧ r.information ≤ c.userBufferLength ∧
    ∃ last, Chain vol c.cls r.buffer es last r.information
  nothing : es = [] → r.status ≠ .success
  done : r.status = .noMoreFiles ∨ r.status = .noSuchFile →
    entries vol dir h.offsetToStartSearchFrom = []

section Calls

variable (vol : Volume) (dir : Directory)

/-- The calls of a sequence have delivered the groups of entries. -/
def Delivered : Handle → List Call → List (List Entry) → Prop
  | _, [], groups => groups = []
  | h, c :: cs, groups => ∃ es rest, groups = es :: rest ∧
      Served vol dir c h (fatQueryDirectory vol dir c h) es ∧
      Delivered (fatQueryDirectory vol dir c h).handle cs rest

def replies : Handle → List Call → List Reply
  | _, [] => []
  | h, c :: cs =>
      fatQueryDirectory vol dir c h :: replies (fatQueryDirectory vol dir c h).handle cs

/-- The calls return the entries from the handle's offset on, each once and in order, and all of
them if a call ends with the end of the directory. -/
def ListsAll (h : Handle) (cs : List Call) : Prop :=
  ∃ groups, Delivered vol dir h cs groups ∧
    groups.flatten <+: entries vol dir h.offsetToStartSearchFrom ∧
    ((∃ r ∈ replies vol dir h cs, r.status = .noMoreFiles ∨ r.status = .noSuchFile) →
      groups.flatten = entries vol dir h.offsetToStartSearchFrom)

/-- The buffer holds the next record. -/
def Call.Roomy (c : Call) (offset : ℕ) : Prop :=
  ∀ e ∈ (entries vol dir offset).head?, recordLength vol c.cls e ≤ c.userBufferLength

/-- The entries that a call can return. -/
def Call.considered (c : Call) (offset : ℕ) : List Entry :=
  if c.returnSingleEntry then (entries vol dir offset).take 1 else entries vol dir offset

/-- Records that fit in the buffer end so close to 4 GB that the next one would start there. -/
def Call.Overruns (c : Call) (offset : ℕ) : Prop :=
  ∃ es, es <+: c.considered vol dir offset ∧ packedEnd vol c.cls es ≤ c.userBufferLength ∧
    2 ^ 32 ≤ ceilTo 3 (packedEnd vol c.cls es)

/-- Every buffer of the sequence holds the next record. -/
def AllRoomy : Handle → List Call → Prop
  | _, [] => True
  | h, c :: cs => c.Roomy vol dir h.offsetToStartSearchFrom ∧
      AllRoomy (fatQueryDirectory vol dir c h).handle cs

/-- No call of the sequence overruns. -/
def NoneOverruns : Handle → List Call → Prop
  | _, [] => True
  | h, c :: cs => ¬ c.Overruns vol dir h.offsetToStartSearchFrom ∧
      NoneOverruns (fatQueryDirectory vol dir c h).handle cs

end Calls

/-! ## The bytes of records -/

section Bytes

variable {vol : Volume} {cls : InfoClass} {m m' : ℕ → UInt8} {e : Entry} {es : List Entry}
  {p q next : ℕ}

@[simp] theorem length_unicodeBytes (s : List UInt16) : (unicodeBytes s).length = 2 * s.length := by
  induction s with
  | nil => rfl
  | cons c s ih =>
      rw [unicodeBytes, List.flatMap_cons, List.length_append, ← unicodeBytes, ih, length_toBytes,
        List.length_cons]
      omega

@[simp] theorem length_directoryFields (next nameLength : ℕ) (e : Entry) :
    (directoryFields vol next nameLength e).length = 64 := by
  simp [directoryFields, vol.length_dirTimes]

theorem length_shortNameFields (e : Entry) : (shortNameFields vol e).length = 26 := by
  unfold shortNameFields
  split
  · simp
  · have hlen : ((unicodeBytes (vol.oemToUnicode (fat8dot3ToString e.dirent))).take 24).length +
        (24 - (unicodeBytes (vol.oemToUnicode (fat8dot3ToString e.dirent))).length) = 24 := by
      rw [List.length_take]
      omega
    simp only [List.length_append, length_toBytes, List.length_replicate]
    omega

theorem length_baseFields (next nameLength fileId : ℕ) (e : Entry) :
    (baseFields vol cls next nameLength fileId e).length = cls.baseLength := by
  cases cls <;>
    simp [baseFields, InfoClass.baseLength, length_shortNameFields]

theorem length_record (next : ℕ) (e : Entry) :
    (record vol cls next e).length = recordLength vol cls e := by
  rw [record, List.length_append, length_baseFields, recordLength]

/-- A record begins with the distance to the next one, which nothing else of it depends on. -/
theorem record_eq (next : ℕ) (e : Entry) :
    record vol cls next e = toBytes 4 next ++ (record vol cls 0 e).drop 4 := by
  have hdrop : ∀ l : List UInt8, (toBytes 4 0 ++ l).drop 4 = l := fun l => rfl
  cases cls <;> simp only [record, baseFields, directoryFields, List.append_assoc, hdrop]

theorem recordLength_le_gap (e : Entry) : recordLength vol cls e ≤ gap vol cls e :=
  le_ceilTo 3 (recordLength vol cls e)

theorem four_le_recordLength (e : Entry) : 4 ≤ recordLength vol cls e := by
  unfold recordLength
  cases cls <;> simp only [InfoClass.baseLength] <;> omega

theorem Lies.congr (h : Lies vol cls m p next e)
    (hsame : ∀ i, p ≤ i → i < p + recordLength vol cls e → m i = m' i) :
    Lies vol cls m' p next e := by
  rw [Lies, ← slice_congr m hsame]
  exact h

theorem lies_iff : Lies vol cls m p next e ↔ slice m p 4 = toBytes 4 next ∧
    slice m (p + 4) (recordLength vol cls e - 4) = (record vol cls 0 e).drop 4 := by
  have hfour := @four_le_recordLength vol cls e
  have hlen : 4 + (recordLength vol cls e - 4) = recordLength vol cls e := by omega
  rw [Lies, record_eq, ← hlen, ← slice_append, Nat.add_sub_cancel_left]
  exact ⟨fun h => List.append_inj h (by rw [length_slice, length_toBytes]),
    fun h => by rw [h.1, h.2]⟩

/-- The first four bytes of a record are replaced. -/
theorem Lies.relink (h : Lies vol cls m p 0 e) (next : ℕ) :
    Lies vol cls (place m p (toBytes 4 next)) p next e := by
  have hfour : (toBytes 4 next).length = 4 := length_toBytes 4 next
  have hhead := slice_place m p (toBytes 4 next)
  rw [hfour] at hhead
  refine lies_iff.mpr ⟨hhead, ?_⟩
  rw [slice_place_of_disjoint _ (by omega)]
  exact (lies_iff.mp h).2

theorem Linked.le (h : Linked vol cls m p es q) : p ≤ q := by
  induction es generalizing p with
  | nil => exact h.le
  | cons e es ih => exact (Nat.le_add_right _ _).trans (ih h.2)

theorem Linked.dvd (h : Linked vol cls m p es q) (hp : 8 ∣ p) : 8 ∣ q := by
  induction es generalizing p with
  | nil =>
      cases h
      exact hp
  | cons e es ih => exact ih h.2 (hp.add (Dvd.intro_left _ rfl))

theorem Linked.congr (h : Linked vol cls m p es q) (hsame : ∀ i, p ≤ i → i < q → m i = m' i) :
    Linked vol cls m' p es q := by
  induction es generalizing p with
  | nil => exact h
  | cons e es ih =>
      have hle := h.2.le
      have hgap := @recordLength_le_gap vol cls e
      refine ⟨h.1.congr fun i hi hlt => hsame i hi (by omega), ih h.2 fun i hi hlt => ?_⟩
      exact hsame i (by omega) hlt

theorem Linked.snoc (h : Linked vol cls m p es q) (he : Lies vol cls m q (gap vol cls e) e) :
    Linked vol cls m p (es ++ [e]) (q + gap vol cls e) := by
  induction es generalizing p with
  | nil =>
      cases h
      exact ⟨he, rfl⟩
  | cons d es ih => exact ⟨h.1, ih h.2⟩

theorem ceilTo_add {n k : ℕ} (h : 8 ∣ n) : ceilTo 3 (n + k) = n + ceilTo 3 k := by
  obtain ⟨a, rfl⟩ := h
  unfold ceilTo
  omega

theorem ceilTo_zero : ceilTo 3 0 = 0 := by decide

theorem quadAlign_eq {n : ℕ} (h : ceilTo 3 n < 2 ^ 32) : quadAlign n = ceilTo 3 n := by
  unfold ceilTo at h
  rw [quadAlign, ulong_of_lt (by omega)]
  rfl

/-- A record behind a chain, once the last record of the chain is linked to it. -/
theorem Chain.extend {last stop : ℕ} (h : Chain vol cls m es last stop)
    (hrecord : Lies vol cls m (ceilTo 3 stop) 0 e) :
    Chain vol cls (place m last (toBytes 4 (ceilTo 3 stop - last))) (es ++ [e]) (ceilTo 3 stop)
      (ceilTo 3 stop + recordLength vol cls e) := by
  obtain ⟨front, d, rfl, hlinked, hlast, rfl⟩ := h
  have hnext : ceilTo 3 (last + recordLength vol cls d) = last + gap vol cls d :=
    ceilTo_add (hlinked.dvd (dvd_zero 8))
  have hgap := @recordLength_le_gap vol cls d
  have hfour := @four_le_recordLength vol cls d
  rw [hnext] at hrecord ⊢
  rw [Nat.add_sub_cancel_left]
  refine ⟨front ++ [d], e, rfl, ?_, ?_, rfl⟩
  · refine Linked.snoc ?_ (hlast.relink _)
    exact hlinked.congr fun i _ hi => (place_of_lt _ _ hi).symm
  · exact hrecord.congr fun i hi _ => (place_of_le _ (by rw [length_toBytes]; omega)).symm

theorem chain_singleton (h : Lies vol cls m 0 0 e) :
    Chain vol cls m [e] 0 (recordLength vol cls e) :=
  ⟨[], e, rfl, rfl, h, (Nat.zero_add _).symm⟩

theorem packedEnd_snoc (es : List Entry) (e : Entry) : packedEnd vol cls (es ++ [e]) =
    ceilTo 3 (packedEnd vol cls es) + recordLength vol cls e := by
  rw [packedEnd, List.foldl_append, ← packedEnd]
  rfl

end Bytes

/-! ## The search goes on -/

section Search

variable {vol : Volume} {dir : Directory} {offset off n k : ℕ} {d : Dirent} {lfn : List UInt16}
  {dos : Bool}

theorem locateStep_found {run : Option LfnRun} {e : Dirent}
    (h : locateStep vol.nls vol.chicagoMode true matchAllNames off d run =
      .stop (.found offset e lfn dos)) : offset = off := by
  rw [locateStep] at h
  split_ifs at h with hnever hdeleted hlfn hlabel hvolume
  · cases h
  · rw [readLfn] at h
    split at h
    · cases h
    · split_ifs at h
      cases h
  · cases h
    rfl
  · rw [readShort] at h
    split_ifs at h with hall hshort
    · cases h
      rfl
    · exact absurd rfl hall
    · exact absurd rfl hall

theorem locateFrom_found {run : Option LfnRun} {ds : List Dirent} {e : Dirent}
    (h : locateFrom vol.nls vol.chicagoMode true matchAllNames off run ds =
      .found offset e lfn dos) : ∃ i, i < ds.length ∧ offset = off + 32 * i := by
  induction ds generalizing off run with
  | nil => cases h
  | cons d ds ih =>
      rw [locateFrom] at h
      cases hstep : locateStep vol.nls vol.chicagoMode true matchAllNames off d run with
      | stop result =>
          rw [hstep] at h
          subst h
          exact ⟨0, by simp, by rw [locateStep_found hstep]; rfl⟩
      | go run' =>
          rw [hstep] at h
          obtain ⟨i, hi, hoff⟩ := ih h
          exact ⟨i + 1, by simpa using hi, by omega⟩

/-- The slots that a search from an offset can still reach. -/
def slotsLeft (dir : Directory) (offset : ℕ) : ℕ := dir.dirents.length - startSlot offset

/-- Behind an entry there are fewer slots. -/
theorem slotsLeft_found (h : locate vol dir offset = .found off d lfn dos) :
    slotsLeft dir (off + 32) < slotsLeft dir offset ∧ off + 32 < 2 ^ 32 := by
  have hsize := dir.size_lt
  obtain ⟨i, hi, hoff⟩ := locateFrom_found h
  rw [List.length_drop] at hi
  have hstart : startSlot (off + 32) = startSlot offset + i + 1 := by
    rw [startSlot, Nat.mod_eq_of_lt (by omega)]
    omega
  rw [slotsLeft, slotsLeft, hstart]
  omega

theorem entriesFrom_nil (h : slotsLeft dir offset = 0) (n : ℕ) :
    entriesFrom vol dir n offset = [] := by
  cases n with
  | zero => rfl
  | succ n =>
      rw [entriesFrom]
      cases hlocate : locate vol dir offset with
      | found off d lfn dos =>
          have hlt := (slotsLeft_found hlocate).1
          omega
      | notFound => rfl
      | corrupt => rfl

theorem entriesFrom_of_le (hn : slotsLeft dir offset ≤ n) (hk : slotsLeft dir offset ≤ k) :
    entriesFrom vol dir n offset = entriesFrom vol dir k offset := by
  induction n generalizing offset k with
  | zero => rw [entriesFrom_nil (by omega), entriesFrom_nil (by omega)]
  | succ n ih =>
      cases k with
      | zero => rw [entriesFrom_nil (by omega), entriesFrom_nil (by omega)]
      | succ k =>
          rw [entriesFrom, entriesFrom]
          cases hlocate : locate vol dir offset with
          | found off d lfn dos =>
              have hlt := (slotsLeft_found hlocate).1
              exact congrArg (List.cons _) (ih (by omega) (by omega))
          | notFound => rfl
          | corrupt => rfl

theorem entries_found (h : locate vol dir offset = .found off d lfn dos) :
    entries vol dir offset = ⟨off, d, lfn⟩ :: entries vol dir (off + 32) := by
  have hlt := (slotsLeft_found h).1
  have hle : slotsLeft dir offset ≤ dir.dirents.length := Nat.sub_le _ _
  rw [entries, entriesFrom_of_le hle (Nat.le_succ_of_le hle), entriesFrom, h]
  rfl

theorem entries_notFound (h : locate vol dir offset = .notFound) : entries vol dir offset = [] := by
  cases hlength : dir.dirents.length with
  | zero => rw [entries, hlength, entriesFrom]
  | succ n => rw [entries, hlength, entriesFrom, h]

theorem length_entries_le (vol : Volume) (dir : Directory) (offset : ℕ) :
    (entries vol dir offset).length ≤ dir.dirents.length := by
  have hall : ∀ n offset, (entriesFrom vol dir n offset).length ≤ n := by
    intro n
    induction n with
    | zero => exact fun _ => Nat.le_refl 0
    | succ n ih =>
        intro offset
        rw [entriesFrom]
        cases locate vol dir offset with
        | found off d lfn dos => exact Nat.succ_le_succ (ih _)
        | notFound => exact Nat.zero_le _
        | corrupt => exact Nat.zero_le _
  exact hall _ _

end Search

/-! ## One record -/

/-- The variables at the top of the loop, when the call has packed the entries `es`. -/
structure Packed (vol : Volume) (dir : Directory) (c : Call) (h : Handle) (st : QueryState)
    (es : List Entry) : Prop where
  entries_eq : entries vol dir h.offsetToStartSearchFrom = es ++ entries vol dir st.currentVbo
  within : ∀ i, c.userBufferLength ≤ i → st.buffer i = c.userBuffer i
  information_eq : st.information = packedEnd vol c.cls es
  information_le : st.information ≤ c.userBufferLength
  next_eq : st.nextEntry = ceilTo 3 st.information
  next_lt : ceilTo 3 st.information < 2 ^ 32
  chain : (es = [] ∧ st.lastEntry = 0) ∨
    Chain vol c.cls st.buffer es st.lastEntry st.information

section Step

variable {vol : Volume} {dir : Directory} {c : Call} {h : Handle} {st : QueryState}
  {es : List Entry} {e : Entry}

theorem packed_start (vol : Volume) (dir : Directory) (c : Call) (h : Handle) :
    Packed vol dir c h ⟨c.userBuffer, 0, 0, 0, h.offsetToStartSearchFrom⟩ [] where
  entries_eq := rfl
  within _ _ := rfl
  information_eq := rfl
  information_le := Nat.zero_le _
  next_eq := ceilTo_zero.symm
  next_lt := ceilTo_zero.trans_lt (by norm_num)
  chain := .inl ⟨rfl, rfl⟩

theorem Packed.next_eq_zero_iff (hp : Packed vol dir c h st es) : st.nextEntry = 0 ↔ es = [] := by
  constructor
  · intro hzero
    rcases hp.chain with ⟨hnil, -⟩ | ⟨front, e, -, -, -, hstop⟩
    · exact hnil
    · have hle := le_ceilTo 3 st.information
      have hfour := @four_le_recordLength vol c.cls e
      rw [← hp.next_eq, hzero] at hle
      omega
  · rintro rfl
    rw [hp.next_eq, hp.information_eq]
    exact ceilTo_zero

/-- Where the record has room its whole name is copied. -/
theorem converted_eq
    (hroom : st.nextEntry + recordLength vol c.cls e ≤ c.userBufferLength) :
    st.converted vol c e = (nameBytes vol e).length := by
  have hlt := c.length_lt
  have hremaining : st.remaining c = c.userBufferLength - st.nextEntry :=
    ulongSub_of_le hlt (by omega)
  unfold recordLength at hroom
  rw [QueryState.converted, hremaining, ulongSub_of_le (by omega) (by omega), bytesConverted]
  split
  · next hshort =>
      have heven : (nameBytes vol e).length % 2 = 0 := by
        rw [nameBytes, if_pos hshort, shortName, length_unicodeBytes]
        omega
      omega
  · omega

/-- A record goes into the buffer behind the others. -/
theorem Packed.write (hp : Packed vol dir c h st es)
    (hroom : st.nextEntry + recordLength vol c.cls e ≤ c.userBufferLength) :
    (st.write vol c e).information = st.nextEntry + recordLength vol c.cls e ∧
      (∀ i, c.userBufferLength ≤ i → (st.write vol c e).buffer i = c.userBuffer i) ∧
      Chain vol c.cls (st.write vol c e).buffer (es ++ [e]) st.nextEntry
        (st.nextEntry + recordLength vol c.cls e) := by
  have hlt := c.length_lt
  have hnext := hp.next_eq
  have hfour := @four_le_recordLength vol c.cls e
  have hinfo : ulong (quadAlign st.information + c.cls.baseLength + (nameBytes vol e).length) =
      st.nextEntry + recordLength vol c.cls e := by
    unfold recordLength at hroom ⊢
    rw [quadAlign_eq hp.next_lt, ← hnext, ulong_of_lt (by omega), Nat.add_assoc]
  have hplaced : Lies vol c.cls (place st.buffer st.nextEntry (record vol c.cls 0 e))
      st.nextEntry 0 e := by
    rw [Lies, ← length_record 0 e, slice_place]
  have hbytes : baseFields vol c.cls 0 (nameBytes vol e).length (vol.fileId e.dirent e.byteOffset) e
      ++ nameBytes vol e = record vol c.cls 0 e := rfl
  rw [QueryState.write, converted_eq hroom, if_neg (Nat.lt_irrefl _), List.take_length, hbytes]
  dsimp only
  rcases hp.chain with ⟨hnil, hlast⟩ | hchain
  · have hzero : st.nextEntry = 0 := hp.next_eq_zero_iff.mpr hnil
    have hlink : place (place st.buffer 0 (record vol c.cls 0 e)) 0 (toBytes 4 (ulongSub 0 0)) =
        place st.buffer 0 (record vol c.cls 0 e) := by
      have hsame := place_slice (place st.buffer 0 (record vol c.cls 0 e)) 0 4
      have hhead : slice (place st.buffer 0 (record vol c.cls 0 e)) 0 4 = toBytes 4 0 := by
        rw [hzero] at hplaced
        exact (lies_iff.mp hplaced).1
      rw [hhead] at hsame
      exact hsame
    rw [hzero] at hplaced hroom hinfo ⊢
    rw [hnil, hlast, hlink, hinfo]
    refine ⟨rfl, fun i hi => ?_, ?_⟩
    · rw [place_of_le _ (by rw [length_record]; omega), hp.within i hi]
    · rw [Nat.zero_add, List.nil_append]
      exact chain_singleton hplaced
  · obtain ⟨front, d, hsnoc, hlinked, hlies, hstop⟩ := id hchain
    have hlast : st.lastEntry + 4 ≤ st.nextEntry := by
      have hle := le_ceilTo 3 st.information
      have hfour' := @four_le_recordLength vol c.cls d
      omega
    have hkept : Chain vol c.cls (place st.buffer st.nextEntry (record vol c.cls 0 e)) es
        st.lastEntry st.information := by
      have hle := le_ceilTo 3 st.information
      refine ⟨front, d, hsnoc, hlinked.congr fun i _ hi => ?_, hlies.congr fun i _ hi => ?_, hstop⟩
      · exact (place_of_lt _ _ (by omega)).symm
      · exact (place_of_lt _ _ (by omega)).symm
    rw [hinfo, ulongSub_of_le (by omega) (by omega)]
    refine ⟨rfl, fun i hi => ?_, ?_⟩
    · rw [place_of_le _ (by rw [length_toBytes]; omega),
        place_of_le _ (by rw [length_record]; omega), hp.within i hi]
    · rw [hnext] at hplaced ⊢
      rw [hnext] at hkept
      exact hkept.extend hplaced

/-- The next turn, if the position of the next record does not wrap. -/
theorem Packed.advance (hp : Packed vol dir c h st es)
    (hroom : st.nextEntry + recordLength vol c.cls e ≤ c.userBufferLength)
    (hfits : ceilTo 3 (st.nextEntry + recordLength vol c.cls e) < 2 ^ 32)
    (hentries : entries vol dir st.currentVbo = e :: entries vol dir (e.byteOffset + 32))
    (hoffset : e.byteOffset + 32 < 2 ^ 32) :
    Packed vol dir c h (st.advance vol c e) (es ++ [e]) := by
  obtain ⟨hinfo, hwithin, hchain⟩ := hp.write hroom
  have hdvd : 8 ∣ st.nextEntry := by
    rw [hp.next_eq]
    exact Dvd.intro_left _ rfl
  have hsplit : ceilTo 3 (st.nextEntry + recordLength vol c.cls e) =
      st.nextEntry + ceilTo 3 (recordLength vol c.cls e) := ceilTo_add hdvd
  have hnext : (st.advance vol c e).nextEntry =
      ceilTo 3 (st.nextEntry + recordLength vol c.cls e) := by
    rw [hsplit] at hfits ⊢
    rw [QueryState.advance, converted_eq hroom]
    dsimp only
    rw [← recordLength, quadAlign_eq (by omega), ulong_of_lt (by omega)]
  have hcurrent : (st.advance vol c e).currentVbo = e.byteOffset + 32 := ulong_of_lt hoffset
  have hsame : (st.advance vol c e).information = (st.write vol c e).information := rfl
  constructor
  · rw [hcurrent, hp.entries_eq, hentries, List.append_assoc, List.singleton_append]
  · exact hwithin
  · rw [hsame, hinfo, packedEnd_snoc, hp.next_eq, hp.information_eq]
  · rw [hsame, hinfo]
    exact hroom
  · rw [hnext, hsame, hinfo]
  · rw [hsame, hinfo]
    exact hfits
  · right
    rw [hsame, hinfo]
    exact hchain

end Step

/-! ## A call -/

section Call

variable {vol : Volume} {dir : Directory} {c : Call} {h : Handle} {st : QueryState}
  {es : List Entry}

/-- The loop ends with records in the buffer. -/
theorem Packed.served (hp : Packed vol dir c h st es) (hne : es ≠ []) :
    Served vol dir c h (st.finish .success) es where
  entries_eq := hp.entries_eq
  within := hp.within
  chain _ := by
    rcases hp.chain with ⟨hnil, -⟩ | hchain
    · exact absurd hnil hne
    · exact ⟨rfl, hp.information_le, st.lastEntry, hchain⟩
  nothing hnil := absurd hnil hne
  done hdone := by rcases hdone with hdone | hdone <;> cases hdone

/-- The next record has room: the buffer holds the first one, and the others are checked. -/
theorem Packed.room {e : Entry} {later : List Entry} (hp : Packed vol dir c h st es)
    (hroomy : c.Roomy vol dir h.offsetToStartSearchFrom)
    (hentries : entries vol dir st.currentVbo = e :: later) (hwont : ¬ st.WontFit vol c e) :
    st.nextEntry + recordLength vol c.cls e ≤ c.userBufferLength := by
  by_cases hzero : st.nextEntry = 0
  · rw [hzero, Nat.zero_add]
    apply hroomy
    rw [hp.entries_eq, hp.next_eq_zero_iff.mp hzero, hentries]
    rfl
  · have hlt := c.length_lt
    have hfits : ¬ (st.remaining c < recordLength vol c.cls e ∨
        c.userBufferLength < st.nextEntry) := fun h => hwont ⟨hzero, h⟩
    rw [not_or, not_lt, not_lt, QueryState.remaining] at hfits
    rw [ulongSub_of_le hlt hfits.2] at hfits
    omega

theorem Packed.prefix_considered {e : Entry} {later : List Entry} (hp : Packed vol dir c h st es)
    (hentries : entries vol dir st.currentVbo = e :: later)
    (hstop : ¬ (c.returnSingleEntry ∧ st.nextEntry ≠ 0)) :
    es ++ [e] <+: c.considered vol dir h.offsetToStartSearchFrom := by
  have hall : es ++ [e] <+: entries vol dir h.offsetToStartSearchFrom := by
    refine ⟨later, ?_⟩
    rw [hp.entries_eq, hentries, List.append_assoc, List.singleton_append]
  unfold Call.considered
  split
  · next hone =>
      have hnil : es = [] := by
        by_contra hne
        exact hstop ⟨hone, fun hzero => hne (hp.next_eq_zero_iff.mp hzero)⟩
      subst hnil
      exact List.prefix_take_iff.mpr ⟨hall, Nat.le_refl 1⟩
  · exact hall

/-- The loop delivers entries, whatever the call has packed before. -/
theorem queryLoop_served {n : ℕ} (hp : Packed vol dir c h st es)
    (hn : (entries vol dir st.currentVbo).length < n)
    (hroomy : c.Roomy vol dir h.offsetToStartSearchFrom)
    (hover : ¬ c.Overruns vol dir h.offsetToStartSearchFrom) :
    ∃ es', Served vol dir c h (queryLoop vol dir c h n st) es' := by
  induction n generalizing st es with
  | zero => omega
  | succ n ih =>
      rw [queryLoop]
      by_cases hstop : c.returnSingleEntry ∧ st.nextEntry ≠ 0
      · rw [if_pos hstop]
        exact ⟨es, hp.served fun hnil => hstop.2 (hp.next_eq_zero_iff.mpr hnil)⟩
      rw [if_neg hstop]
      cases hlocate : locate vol dir st.currentVbo with
      | corrupt =>
          refine ⟨[], rfl, hp.within, fun hne => absurd rfl hne, fun _ => ?_, fun hdone => ?_⟩
          · exact fun hsuccess => by cases hsuccess
          · rcases hdone with hdone | hdone <;> cases hdone
      | notFound =>
          dsimp only
          by_cases hzero : st.nextEntry = 0
          · have hnil := hp.next_eq_zero_iff.mp hzero
            have hempty : entries vol dir h.offsetToStartSearchFrom = [] := by
              rw [hp.entries_eq, hnil, entries_notFound hlocate]
              rfl
            rw [if_pos hzero]
            refine ⟨[], rfl, hp.within, fun hne => absurd rfl hne, fun _ => ?_, fun _ => hempty⟩
            dsimp only [QueryState.finish]
            split <;> exact fun hsuccess => by cases hsuccess
          · rw [if_neg hzero]
            exact ⟨es, hp.served fun hnil => hzero (hp.next_eq_zero_iff.mpr hnil)⟩
      | found off d lfn dos =>
          dsimp only
          have hentries := entries_found hlocate
          have hoffset := (slotsLeft_found hlocate).2
          by_cases hwont : st.WontFit vol c ⟨off, d, lfn⟩
          · rw [if_pos hwont]
            exact ⟨es, hp.served fun hnil => hwont.1 (hp.next_eq_zero_iff.mpr hnil)⟩
          rw [if_neg hwont]
          have hroom := hp.room hroomy hentries hwont
          have hwhole := @converted_eq vol c st ⟨off, d, lfn⟩ hroom
          rw [if_neg (by rw [hwhole]; exact Nat.lt_irrefl _)]
          have hprefix := hp.prefix_considered hentries hstop
          have hfits : ceilTo 3 (st.nextEntry + recordLength vol c.cls ⟨off, d, lfn⟩) < 2 ^ 32 := by
            by_contra hnot
            refine hover ⟨_, hprefix, ?_, ?_⟩
            · rw [packedEnd_snoc, ← hp.information_eq, ← hp.next_eq]
              exact hroom
            · rw [packedEnd_snoc, ← hp.information_eq, ← hp.next_eq]
              exact not_lt.mp hnot
          refine ih (hp.advance hroom hfits hentries hoffset) ?_
          have hcurrent : (st.advance vol c ⟨off, d, lfn⟩).currentVbo = off + 32 :=
            ulong_of_lt hoffset
          rw [hentries] at hn
          rw [hcurrent]
          simpa using hn

theorem fatQueryDirectory_served (hroomy : c.Roomy vol dir h.offsetToStartSearchFrom)
    (hover : ¬ c.Overruns vol dir h.offsetToStartSearchFrom) :
    ∃ es, Served vol dir c h (fatQueryDirectory vol dir c h) es := by
  refine queryLoop_served (packed_start vol dir c h) ?_ hroomy hover
  exact Nat.lt_succ_of_le (length_entries_le vol dir _)

end Call

/-! ## A sequence of calls -/

section Calls

variable {vol : Volume} {dir : Directory}

/-- **Every entry once, in order.**  In a sequence of calls whose buffers hold the next record and of
which none overruns, what the calls deliver is a beginning of the directory, and all of it once a
call ends with the end of the directory. -/
theorem listsAll_of_admitted (vol : Volume) (dir : Directory) (h : Handle) (cs : List Call)
    (hroomy : AllRoomy vol dir h cs) (hover : NoneOverruns vol dir h cs) :
    ListsAll vol dir h cs := by
  induction cs generalizing h with
  | nil => exact ⟨[], rfl, List.nil_prefix, fun ⟨_, hr, _⟩ => by cases hr⟩
  | cons c cs ih =>
      obtain ⟨es, hserved⟩ := fatQueryDirectory_served hroomy.1 hover.1
      obtain ⟨rest, hrest, hprefix, hall⟩ := ih _ hroomy.2 hover.2
      have hentries := hserved.entries_eq
      refine ⟨es :: rest, ⟨es, rest, rfl, hserved, hrest⟩, ?_, ?_⟩
      · rw [List.flatten_cons, hentries]
        exact (List.prefix_append_right_inj es).mpr hprefix
      · rintro ⟨r, hr, hdone⟩
        rw [List.flatten_cons, hentries]
        rcases List.mem_cons.mp hr with rfl | hr
        · have hnil := hserved.done hdone
          rw [hnil] at hentries
          obtain ⟨hes, hleft⟩ := List.append_eq_nil_iff.mp hentries.symm
          have hflat : rest.flatten = [] := by
            rw [← List.prefix_nil, ← hleft]
            exact hprefix
          rw [hflat, hes, hleft]
        · rw [hall ⟨r, hr, hdone⟩]
          rfl

end Calls

theorem not_overruns_of_le {vol : Volume} {dir : Directory} {c : Call} {offset : ℕ}
    (h : c.userBufferLength ≤ 2 ^ 32 - 8) : ¬ c.Overruns vol dir offset := by
  rintro ⟨es, -, hle, hover⟩
  unfold ceilTo at hover
  omega

/-! ## Two directories -/

/-- A volume with ASCII names. -/
def asciiVolume : Volume where
  nls := Nls.ascii
  chicagoMode := true
  isLead _ := false
  oemToUnicode s := s.map fun c => UInt16.ofNat c.toNat
  logOfBytesPerCluster := 12
  dirTimes _ := List.replicate 32 0
  eaLength _ := 0
  fileId _ offset := offset
  length_oemToUnicode s := by rw [List.length_map]
  length_dirTimes _ := List.length_replicate

def letter (i o : ℕ) : UInt8 := UInt8.ofNat (0x41 + i / 26 ^ o % 26)

/-- The `i`-th of many short entries: ten letters, the last two in the extension. -/
def manyEntry (i : ℕ) : Dirent where
  byte o := if o.val < 10 then letter i o else if o.val = 10 then 0x20 else 0

def many (n : ℕ) (h : 32 * n < 2 ^ 32) : Directory where
  dirents := (List.range n).map manyEntry
  size_lt := by rwa [List.length_map, List.length_range]

/-- A call with the largest buffer. -/
def largestCall : Call where
  cls := .idBothDirectory
  returnSingleEntry := false
  userBuffer _ := 0
  userBufferLength := 2 ^ 32 - 1
  length_lt := by norm_num

/-- A call with a buffer of 300 bytes. -/
def smallCall : Call where
  cls := .names
  returnSingleEntry := false
  userBuffer _ := 0
  userBufferLength := 300
  length_lt := by norm_num

/-- A handle that nothing has been asked of. -/
def newHandle : Handle := ⟨false, 0⟩

section Many

variable {n k : ℕ} {hn : 32 * n < 2 ^ 32}

theorem letter_toNat (i o : ℕ) : (letter i o).toNat = 0x41 + i / 26 ^ o % 26 := by
  rw [letter, UInt8.toNat_ofNat', Nat.mod_eq_of_lt (by omega)]

theorem letter_ne (i o : ℕ) {b : UInt8} (hb : b.toNat < 0x41 ∨ 0x5a < b.toNat) : letter i o ≠ b := by
  rintro rfl
  rw [letter_toNat] at hb
  omega

theorem fat8dot3ToStringCased_manyEntry (i : ℕ) :
    fat8dot3ToStringCased asciiVolume.isLead true true (manyEntry i) =
      [letter i 0, letter i 1, letter i 2, letter i 3, letter i 4, letter i 5, letter i 6,
        letter i 7, 0x2e, letter i 8, letter i 9] := by
  have hblank : ∀ o, ¬ decide (letter i o = 0x20) = true := by
    intro o h
    exact letter_ne i o (.inl (by decide)) (of_decide_eq_true h)
  have hbase : ((manyEntry i).fileName.take 8).rdropWhile (· = 0x20) =
      (manyEntry i).fileName.take 8 :=
    List.rdropWhile_concat_neg (p := fun b => decide (b = 0x20))
      [letter i 0, letter i 1, letter i 2, letter i 3, letter i 4, letter i 5, letter i 6]
      (letter i 7) (hblank 7)
  have hextension : ((manyEntry i).fileName.drop 8).rdropWhile (· = 0x20) =
      [letter i 8, letter i 9] :=
    (List.rdropWhile_concat_pos (p := fun b => decide (b = 0x20)) [letter i 8, letter i 9] 0x20
      rfl).trans
      (List.rdropWhile_concat_neg (p := fun b => decide (b = 0x20)) [letter i 8] (letter i 9)
        (hblank 9))
  have hfive : letter i 0 ≠ 0x05 := letter_ne i 0 (.inl (by decide))
  have hbyte : (manyEntry i).ntByte = 0 := rfl
  have htake : (manyEntry i).fileName.take 8 = [letter i 0, letter i 1, letter i 2, letter i 3,
      letter i 4, letter i 5, letter i 6, letter i 7] := rfl
  rw [fat8dot3ToStringCased, hbase, hextension, hbyte, htake]
  simp [joinParts, ntByte8LowerCase, ntByte3LowerCase, hfive]

theorem length_nameBytes_manyEntry (i off : ℕ) :
    (nameBytes asciiVolume ⟨off, manyEntry i, []⟩).length = 22 := by
  have hname : nameBytes asciiVolume ⟨off, manyEntry i, []⟩ =
      shortName asciiVolume (manyEntry i) := rfl
  have htext := fat8dot3ToStringCased_manyEntry i
  rw [hname, shortName, length_unicodeBytes]
  exact congrArg (2 * ·) ((List.length_map _).trans (congrArg List.length htext))

theorem locate_many (hk : k < n) : locate asciiVolume (many n hn) (32 * k) =
    .found (32 * k) (manyEntry k) [] false := by
  have hstart : startSlot (32 * k) = k := by
    rw [startSlot, Nat.mod_eq_of_lt (by omega)]
    omega
  have hused : (manyEntry k).ordinal ≠ Dirent.neverUsed := letter_ne k 0 (.inl (by decide))
  have hlive : (manyEntry k).ordinal ≠ Dirent.deleted := letter_ne k 0 (.inr (by decide))
  have hattributes : (manyEntry k).attributes = 0 := rfl
  have hdrop : (many n hn).dirents.drop k =
      manyEntry k :: ((List.range n).map manyEntry).drop (k + 1) := by
    rw [many, List.drop_eq_getElem_cons (by rwa [List.length_map, List.length_range]),
      List.getElem_map, List.getElem_range]
  have hstep : locateStep asciiVolume.nls asciiVolume.chicagoMode true matchAllNames (32 * k)
      (manyEntry k) none = .stop (.found (32 * k) (manyEntry k) [] false) := by
    rw [locateStep, if_neg hused, if_neg hlive, hattributes]
    rfl
  rw [locate, fatLocateDirent, hstart, hdrop, Nat.mul_comm k 32, locateFrom, hstep]

theorem locate_many_end : locate asciiVolume (many n hn) (32 * n) = .notFound := by
  have hstart : startSlot (32 * n) = n := by
    rw [startSlot, Nat.mod_eq_of_lt (by omega)]
    omega
  have hdrop : (many n hn).dirents.drop n = [] := by
    rw [many, List.drop_eq_nil_of_le (by rw [List.length_map, List.length_range])]
  rw [locate, fatLocateDirent, hstart, hdrop]
  rfl

theorem recordLength_manyEntry (i off : ℕ) :
    recordLength asciiVolume .idBothDirectory ⟨off, manyEntry i, []⟩ = 126 := by
  rw [recordLength, length_nameBytes_manyEntry]
  rfl

/-- A record of 126 bytes for each entry: the position behind the last one is 4 GB, and the call
ends as if it had written nothing. -/
theorem status_queryLoop_many {j fuel : ℕ} {st : QueryState} (hj : k + j = n) (hfuel : j < fuel)
    (htotal : n = 2 ^ 25) (hcurrent : st.currentVbo = 32 * k)
    (hnext : st.nextEntry = 128 * k % 2 ^ 32) :
    (queryLoop asciiVolume (many n hn) largestCall newHandle fuel st).status = .noSuchFile := by
  induction j generalizing k fuel st with
  | zero =>
      obtain ⟨fuel, rfl⟩ : ∃ f, fuel = f + 1 := ⟨fuel - 1, by omega⟩
      have hmany : ¬ (largestCall.returnSingleEntry = true ∧ st.nextEntry ≠ 0) :=
        fun h => by cases h.1
      have hzero : st.nextEntry = 0 := by omega
      have hend : locate asciiVolume (many n hn) st.currentVbo = .notFound := by
        rw [hcurrent, show 32 * k = 32 * n by omega]
        exact locate_many_end
      rw [queryLoop, if_neg hmany, hend]
      dsimp only
      rw [if_pos hzero]
      rfl
  | succ j ih =>
      obtain ⟨fuel, rfl⟩ : ∃ f, fuel = f + 1 := ⟨fuel - 1, by omega⟩
      have hmany : ¬ (largestCall.returnSingleEntry = true ∧ st.nextEntry ≠ 0) :=
        fun h => by cases h.1
      have hhere : st.nextEntry = 128 * k := by omega
      have hrecord := recordLength_manyEntry k (32 * k)
      have hroom : st.nextEntry + recordLength asciiVolume largestCall.cls
          ⟨32 * k, manyEntry k, []⟩ ≤ largestCall.userBufferLength := by
        have hlength : largestCall.userBufferLength = 2 ^ 32 - 1 := rfl
        rw [show largestCall.cls = .idBothDirectory from rfl, hrecord, hlength, hhere]
        omega
      have hwont : ¬ st.WontFit asciiVolume largestCall ⟨32 * k, manyEntry k, []⟩ := by
        rintro ⟨-, hless | hless⟩
        · rw [QueryState.remaining, ulongSub_of_le largestCall.length_lt (by omega)] at hless
          omega
        · omega
      have hwhole := @converted_eq asciiVolume largestCall st _ hroom
      have hname := length_nameBytes_manyEntry k (32 * k)
      rw [queryLoop, if_neg hmany, hcurrent, locate_many (by omega)]
      dsimp only
      rw [if_neg hwont, if_neg (by rw [hwhole]; exact Nat.lt_irrefl _)]
      have hadvance : (st.advance asciiVolume largestCall ⟨32 * k, manyEntry k, []⟩).nextEntry =
          128 * (k + 1) % 2 ^ 32 := by
        rw [QueryState.advance, hwhole, hname, hhere]
        change ulong (128 * k + quadAlign (104 + 22)) = _
        rw [show quadAlign (104 + 22) = 128 from rfl, ulong]
        ring_nf
      refine ih (by omega) (by omega) ?_ hadvance
      exact ulong_of_lt (by dsimp only; omega)

theorem not_listsAll_many (htotal : n = 2 ^ 25) :
    AllRoomy asciiVolume (many n hn) newHandle [largestCall] ∧
      ¬ ListsAll asciiVolume (many n hn) newHandle [largestCall] := by
  have hfirst : locate asciiVolume (many n hn) newHandle.offsetToStartSearchFrom =
      .found (32 * 0) (manyEntry 0) [] false := @locate_many n 0 hn (by omega)
  have hentries := entries_found hfirst
  have hstatus : (fatQueryDirectory asciiVolume (many n hn) largestCall newHandle).status =
      .noSuchFile := by
    refine status_queryLoop_many (Nat.zero_add n) ?_ htotal rfl rfl
    rw [many, List.length_map, List.length_range]
    exact Nat.lt_succ_self n
  refine ⟨⟨?_, trivial⟩, ?_⟩
  · intro e he
    rw [hentries, List.head?_cons, Option.mem_some_iff] at he
    rw [← he]
    change recordLength asciiVolume .idBothDirectory _ ≤ 2 ^ 32 - 1
    rw [recordLength_manyEntry]
    norm_num
  · rintro ⟨groups, ⟨es, rest, rfl, hserved, hrest⟩, -, hall⟩
    have hflat := hall ⟨_, List.mem_singleton_self _, .inr hstatus⟩
    have hnil : es = [] := by
      by_contra hne
      have hsuccess := (hserved.chain hne).1
      rw [hstatus] at hsuccess
      cases hsuccess
    rw [hnil, show rest = [] from hrest, hentries] at hflat
    cases hflat

end Many

/-- A directory of 1 GB. -/
def manyEntries : Directory := many (2 ^ 25) (by norm_num)

/-- **The largest buffer.**  Of a directory with 2 ^ 25 entries the first call returns none, though
the buffer holds the record of each. -/
theorem not_listsAll : AllRoomy asciiVolume manyEntries newHandle [largestCall] ∧
    ¬ ListsAll asciiVolume manyEntries newHandle [largestCall] :=
  not_listsAll_many rfl

def oneEntry : Directory := many 1 (by norm_num)

/-- Two calls for a directory with one entry. -/
theorem listsAll_one : ListsAll asciiVolume oneEntry newHandle [smallCall, smallCall] := by
  have hn : 32 * 1 < 2 ^ 32 := by norm_num
  have hsmall : smallCall.userBufferLength ≤ 2 ^ 32 - 8 := by decide
  have hfirst := @locate_many 1 0 hn (by omega)
  have hoffset : (fatQueryDirectory asciiVolume oneEntry smallCall newHandle).offset = 32 * 1 := by
    decide +kernel
  refine listsAll_of_admitted _ _ _ _ ⟨?_, ?_, trivial⟩
    ⟨not_overruns_of_le hsmall, not_overruns_of_le hsmall, trivial⟩
  · intro e he
    have hentries : entries asciiVolume oneEntry (32 * 0) = _ := entries_found hfirst
    rw [show newHandle.offsetToStartSearchFrom = 32 * 0 from rfl, hentries, List.head?_cons,
      Option.mem_some_iff] at he
    rw [← he, recordLength, length_nameBytes_manyEntry]
    decide
  · intro e he
    have hnone : entries asciiVolume oneEntry (32 * 1) = [] :=
      entries_notFound (@locate_many_end 1 hn)
    rw [Reply.handle, hoffset, hnone] at he
    cases he

end KernelDrivers.Fat.QueryDir
