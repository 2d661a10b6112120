import KernelDrivers.Lib.Reach
import KernelDrivers.Fat.Reserve

/-!
# Entries that are made, renamed and deleted, with steps that fail

`FatCreateNewDirent` moves `UnusedDirentVbo` over the slots that it reserves; the routine that
called it writes them later, and any step between the two may raise.  The model follows the
slots of one directory through `FatCreateNewFile`, `FatCreateNewDirectory`, `FatSetRenameInfo`
and `FatDeleteDirent` with the step that raises as a parameter.

## Main definitions

* `EntryFault`, `RenameFault` — the steps that may raise.
* `newEntry`, `fatSetRenameInfo`, `deleteEntry` — what the routines do to the slots.
* `Findable` — no live dirent is hidden.

## Main results

* `findable_of_reach` — in every run whose events meet `EntryEvent.Clean`.
* `not_findable_firstPage` — a slot that was never used below `UnusedDirentVbo`.
-/

namespace KernelDrivers.Fat

/-! ## The routines -/

/-- The step behind the reservation that raises.  `secondPage` is the pin of the second page of
an entry that has one, or the pool for its dirents. -/
inductive EntryFault
  | firstPage
  | secondPage
  | createFcb
  | later
  deriving DecidableEq

/-- Give the bits of a reservation back. -/
def clearReservation (off n : ℕ) (s : Dcb) : Dcb :=
  { s with freeDirentBitmap := s.freeDirentBitmap.clearBits off n }

/-- Mark slots deleted. -/
def markReservation (first last : ℕ) (s : Dcb) : Dcb :=
  { s with dirents := markSlots s.dirents first last }

/-- The slots are in two pages. -/
def crossesPage (off n : ℕ) : Bool := off / 128 ≠ (off + n - 1) / 128

/-- The last slot of the mapped view of 256 KB in which a slot lies. -/
def viewEnd (off : ℕ) : ℕ := (off / 8192 + 1) * 8192 - 1

section Routines

variable (nls : Nls) (chicagoMode : Bool) (k : DcbSite)

/-- Reserve slots for a new entry, write them and make the control block.  The unwind gives
the bits back, and marks the dirents deleted if the first page has been pinned; before the
dirents are in pool it takes the second page to follow the first one in memory. -/
def newEntry (c : DirentCall) (f : Option EntryFault) (es : List Dirent) :
    EStateM DirentStatus Dcb Unit := do
  let off ← fatCreateNewDirent nls chicagoMode k c es.length
  let last := off + es.length - 1
  match f with
  | none => modify (writeDirents off es)
  | some .firstPage =>
      modify (clearReservation off es.length)
      throw .ioError
  | some .secondPage =>
      if crossesPage off es.length then
        modify fun s => markReservation off (min last (viewEnd off))
          (clearReservation off es.length s)
        throw .ioError
      else modify (writeDirents off es)
  | some .createFcb =>
      modify fun s => markReservation off last
        (clearReservation off es.length (writeDirents off es s))
      throw .ioError
  | some .later =>
      modify fun s => fatDeleteDirent off last (writeDirents off es s)
      throw .ioError

def fatCreateNewFile (c : DirentCall) (f : Option EntryFault) (es : List Dirent) :
    EStateM DirentStatus Dcb Unit := newEntry nls chicagoMode k c f es

def fatCreateNewDirectory (c : DirentCall) (f : Option EntryFault) (es : List Dirent) :
    EStateM DirentStatus Dcb Unit := newEntry nls chicagoMode k c f es

/-- `FatDeleteDirent`, with the slot at which the next page cannot be pinned.  The bits are
cleared behind the last page only. -/
def deleteEntry (range : ℕ × ℕ) (page : Option ℕ) : EStateM DirentStatus Dcb Unit :=
  match page with
  | none => modify (fatDeleteDirent range.1 range.2)
  | some slot => do
      if range.1 < slot then modify (markReservation range.1 (slot - 1))
      throw .ioError

/-- The step of a rename, behind the reservation, that raises. -/
inductive RenameFault
  | readSource
  | sourcePage (slot : ℕ)
  | truncateTarget
  | targetPage (slot : ℕ)
  | newPage
  deriving DecidableEq

/-- What a rename does in one directory: the slots of the source and of the target that is
replaced, if they are in this directory, and the new dirents, if the new name is.  They end
`direntsRequired` slots that are new, or are those of the source, from `offset` on. -/
structure RenameSlots where
  source : Option (ℕ × ℕ)
  replaced : Option (ℕ × ℕ)
  reserve : Bool
  offset : ℕ
  direntsRequired : ℕ
  written : List Dirent

/-- Where the new dirents of a rename begin, in a range from `newOffset` on. -/
def RenameSlots.writeOffset (r : RenameSlots) (newOffset : ℕ) : ℕ :=
  newOffset + (r.direntsRequired - r.written.length)

/-- Where the deletion of the source stops. -/
def RenameFault.sourceStop : Option RenameFault → Option ℕ
  | some (.sourcePage slot) => some slot
  | _ => none

/-- Where the deletion of the target stops. -/
def RenameFault.targetStop : Option RenameFault → Option ℕ
  | some (.targetPage slot) => some slot
  | _ => none

/-- Delete an entry, if it is in this directory. -/
def deleteHere (range : Option (ℕ × ℕ)) (page : Option ℕ) : EStateM DirentStatus Dcb Unit :=
  match range with
  | some range => deleteEntry range page
  | none => pure ()

/-- Read the dirent of the source and delete its dirents. -/
def deleteSource (f : Option RenameFault) (r : RenameSlots) : EStateM DirentStatus Dcb Unit :=
  if f = some .readSource then throw .ioError
  else deleteHere r.source (RenameFault.sourceStop f)

/-- `FatDeleteFile` of the target that is replaced. -/
def deleteTarget (f : Option RenameFault) (r : RenameSlots) : EStateM DirentStatus Dcb Unit :=
  if f = some .truncateTarget ∧ r.replaced ≠ none then throw .ioError
  else deleteHere r.replaced (RenameFault.targetStop f)

/-- Write the new dirents. -/
def writeNew (f : Option RenameFault) (r : RenameSlots) (newOffset : ℕ) :
    EStateM DirentStatus Dcb Unit :=
  if f = some .newPage then throw .ioError
  else modify (writeDirents (r.writeOffset newOffset) r.written)

/-- The second phase of a rename.  Nothing of it is undone. -/
def renameAt (f : Option RenameFault) (r : RenameSlots) (newOffset : ℕ) :
    EStateM DirentStatus Dcb Unit := do
  deleteSource f r
  deleteTarget f r
  writeNew f r newOffset

def fatSetRenameInfo (c : DirentCall) (f : Option RenameFault) (r : RenameSlots) :
    EStateM DirentStatus Dcb Unit :=
  if r.reserve then do
    let newOffset ← fatCreateNewDirent nls chicagoMode k c r.direntsRequired
    renameAt f r newOffset
  else renameAt f r r.offset

/-! ## Events -/

inductive EntryEvent
  | newFile (c : DirentCall) (f : Option EntryFault) (es : List Dirent)
  | newDirectory (c : DirentCall) (f : Option EntryFault) (es : List Dirent)
  | rename (c : DirentCall) (f : Option RenameFault) (r : RenameSlots)
  | delete (range : ℕ × ℕ) (page : Option ℕ)

def entryStep (s : Dcb) : EntryEvent → Dcb
  | .newFile c f es => stateAfter (fatCreateNewFile nls chicagoMode k c f es) s
  | .newDirectory c f es => stateAfter (fatCreateNewDirectory nls chicagoMode k c f es) s
  | .rename c f r => stateAfter (fatSetRenameInfo nls chicagoMode k c f r) s
  | .delete range page => stateAfter (deleteEntry range page) s

/-- The dirents of a new entry are in use, and a name takes at most twenty long-name
dirents. -/
def EntryDirents (es : List Dirent) : Prop := 0 < es.length ∧ es.length ≤ 21 ∧ ∀ e ∈ es, ¬ e.Free

/-- The ranges of a rename: the source and the target are entries of the directory, the source
where it is after the reservation, and dirents that are written over are the source's own. -/
structure RenameSlots.Fits (c : DirentCall) (s : Dcb) (r : RenameSlots) : Prop where
  written_le : r.written.length ≤ r.direntsRequired
  required_pos : 0 < r.direntsRequired
  live : ∀ e ∈ r.written, ¬ e.Free
  source : ∀ range, r.source = some range → range.1 ≤ range.2 ∧
    if r.reserve then ∀ off t, fatCreateNewDirent nls chicagoMode k c r.direntsRequired s = .ok off t →
      LiveOn t.dirents range.1 (range.2 + 1)
    else LiveOn s.dirents range.1 (range.2 + 1)
  replaced : ∀ range, r.replaced = some range → range.1 ≤ range.2 ∧
    LiveOn s.dirents range.1 (range.2 + 1)
  place : r.reserve = false →
    LiveOn s.dirents (r.writeOffset r.offset) (r.writeOffset r.offset + r.written.length) ∧
    ∀ range, r.source = some range ∨ r.replaced = some range →
      range.2 < r.writeOffset r.offset ∨ r.writeOffset r.offset + r.written.length ≤ range.1

/-- What callers pass. -/
def EntryEvent.Allowed (s : Dcb) : EntryEvent → Prop
  | .newFile _ _ es => EntryDirents es
  | .newDirectory _ _ es => EntryDirents es
  | .rename c _ r => r.Fits nls chicagoMode k c s
  | .delete range _ => range.1 ≤ range.2 ∧ range.2 < s.dirents.length

/-- A call of `FatCreateNewDirent` for `n` slots that does not raise while it zeroes new
clusters, makes a directory longer by whole bytes of bits, and compacts one in which every
long-name dirent has an owner. -/
structure CallFits (c : DirentCall) (s : Dcb) (n : ℕ) : Prop where
  zeroing : c.fault ≠ some .zeroing
  grow : s.Crowded n → k.fixedSize = false → s.dirents.length < 64 * 1024 →
    8 ∣ s.dirents.length ∧ 8 ∣ k.direntsPerCluster
  defrag : s.Crowded n → k.fixedSize = true → 32 * s.dirents.length ≤ 0x40000 →
    chicagoMode = true → Owned s.dirents

/-- The reserved slots get written: nothing raises before that, and the new dirents fill
them. -/
def EntryEvent.Clean (s : Dcb) : EntryEvent → Prop
  | .newFile c f es => CallFits chicagoMode k c s es.length ∧
      f ≠ some .firstPage ∧ f ≠ some .secondPage
  | .newDirectory c f es => CallFits chicagoMode k c s es.length ∧
      f ≠ some .firstPage ∧ f ≠ some .secondPage
  | .rename c f r => r.reserve = true → CallFits chicagoMode k c s r.direntsRequired ∧
      f = none ∧ r.written.length = r.direntsRequired ∧
      (r.replaced ≠ none → ¬ (s.Crowded r.direntsRequired ∧ k.fixedSize = true))
  | .delete _ _ => True

end Routines

/-- No live dirent is hidden: the search meets no slot that has never been used before it, no
slot below `UnusedDirentVbo` is such a slot, and no bit behind the directory is clear. -/
structure Findable (s : Dcb) : Prop where
  noHidden : NoHidden s.dirents
  below : ∀ u, s.unusedDirentVbo = some u → ∀ (i : ℕ) (d : Dirent), i < u →
    s.dirents[i]? = some d → d.ordinal ≠ Dirent.neverUsed
  bits : ∀ i, s.dirents.length ≤ i → i < s.freeDirentBitmap.size →
    s.freeDirentBitmap.bit i = true

/-- The invariant of a run. -/
structure Sane (s : Dcb) : Prop where
  noHidden : NoHidden s.dirents
  kept : Kept False s

namespace Sane

variable {s : Dcb}

theorem findable (h : Sane s) : Findable s where
  noHidden := h.noHidden
  below u hu i d hi hd := by
    rcases h.kept with ⟨hnone, -⟩ | ⟨u', hbooked⟩
    · rw [hnone] at hu
      cases hu
    · have : u' = u := Option.some.inj (hbooked.unused_eq.symm.trans hu)
      exact hbooked.below i d (this ▸ hi) hd
  bits i hi hsize := by
    rcases h.kept with ⟨-, hle⟩ | ⟨u, hbooked⟩
    · omega
    · have := hbooked.size_eq
      omega

theorem of_booked {u : ℕ} (h : Booked False s u) : Sane s := ⟨h.noHidden, .inr ⟨u, h⟩⟩

theorem mark (h : Sane s) (first last : ℕ) : Sane (markReservation first last s) := by
  refine ⟨h.noHidden.markSlots first last, ?_⟩
  rcases h.kept with ⟨hnone, hsize⟩ | ⟨u, hbooked⟩
  · exact .inl ⟨hnone, by simpa [markReservation] using hsize⟩
  · exact .inr ⟨u, hbooked.mark first last⟩

theorem delete (h : Sane s) {range : ℕ × ℕ} (hle : range.1 ≤ range.2) :
    Sane (fatDeleteDirent range.1 range.2 s) :=
  ⟨h.noHidden.markSlots _ _, h.kept.delete hle⟩

theorem deleteEntry (h : Sane s) {range : ℕ × ℕ} (hle : range.1 ≤ range.2) (page : Option ℕ) :
    Sat (deleteEntry range page) s
      (fun _ t => Sane t ∧ t = fatDeleteDirent range.1 range.2 s) (fun _ t => Sane t) := by
  cases page with
  | none => exact ⟨h.delete hle, rfl⟩
  | some slot =>
      rw [Fat.deleteEntry]
      split
      · exact Sat.modify_bind (h.mark _ _)
      · exact h

/-- Dirents in use that are written over dirents in use. -/
theorem rewrite (h : Sane s) {off : ℕ} {es : List Dirent} (hes : ∀ e ∈ es, ¬ e.Free)
    (hold : LiveOn s.dirents off (off + es.length)) : Sane (writeDirents off es s) := by
  cases es with
  | nil =>
      have hsame : writeDirents off [] s = s := by simp [writeDirents]
      rwa [hsame]
  | cons e es =>
      have hfits : off + (e :: es).length ≤ s.dirents.length := by
        obtain ⟨d, hd, -⟩ := hold (off + (e :: es).length - 1) (by simp) (by simp)
        have := (List.getElem?_eq_some_iff.mp hd).1
        simp only [List.length_cons] at this ⊢
        omega
      have hlen := length_writeDirents hfits
      -- what stands in a slot: a new dirent over a live one, or the old dirent
      have hslot : ∀ {i : ℕ} {d : Dirent}, (writeDirents off (e :: es) s).dirents[i]? = some d →
          ¬ d.Free ∧ (∃ d', s.dirents[i]? = some d' ∧ ¬ d'.Free) ∨ s.dirents[i]? = some d := by
        intro i d hd
        rw [getElem?_writeDirents hfits] at hd
        split at hd
        · next hin => exact .inl ⟨hes d (List.mem_of_getElem? hd), hold i hin.1 hin.2⟩
        · exact .inr hd
      refine ⟨?_, ?_⟩
      · intro i j d d' hij hd hd' hnever
        rcases hslot hd with ⟨hlive, -⟩ | hd
        · exact absurd (.inl hnever) hlive
        · rcases hslot hd' with ⟨-, d'', hd'', hlive⟩ | hd'
          · exact absurd (h.noHidden i j d d'' hij hd hd'' hnever) hlive
          · exact h.noHidden i j d d' hij hd hd' hnever
      · rcases h.kept with ⟨hnone, hsize⟩ | ⟨u, hbooked⟩
        · exact .inl ⟨hnone, by rw [hlen]; exact hsize⟩
        · refine .inr ⟨u, hbooked.unused_eq, ?_, ?_, ?_, ?_, ?_, False.elim⟩
          · exact hlen ▸ hbooked.unused_le
          · exact hlen ▸ hbooked.size_eq
          · intro i d hi hd
            rcases hslot hd with ⟨hlive, -⟩ | hd
            · exact fun hnever => hlive (.inl hnever)
            · exact hbooked.below i d hi hd
          · intro i d hi hd
            rcases hslot hd with ⟨-, d', hd', hlive⟩ | hd
            · exact absurd (hbooked.above i d' hi hd') hlive
            · exact hbooked.above i d hi hd
          · intro i d hd hclear
            rcases hslot hd with ⟨-, d', hd', hlive⟩ | hd
            · exact absurd (hbooked.free_of_clear i d' hd' hclear) hlive
            · exact hbooked.free_of_clear i d hd hclear

end Sane

/-- Slots outside of a range that is deleted stay in use. -/
theorem LiveOn.delete {s : Dcb} {i j : ℕ} {range : ℕ × ℕ} (h : LiveOn s.dirents i j)
    (hout : range.2 < i ∨ j ≤ range.1) :
    LiveOn (fatDeleteDirent range.1 range.2 s).dirents i j := by
  intro m hi hj
  obtain ⟨d, hd, hlive⟩ := h m hi hj
  refine ⟨d, ?_, hlive⟩
  simp only [fatDeleteDirent, getElem?_markSlots, hd, Option.map_some]
  rw [if_neg (by omega)]

/-- A reservation next to a range that is deleted. -/
theorem Reserved.delete {s : Dcb} {u off n : ℕ} {range : ℕ × ℕ} (h : Reserved False s u off n)
    (hle : range.1 ≤ range.2) (hout : range.2 < off ∨ off + n ≤ range.1) :
    Reserved False (fatDeleteDirent range.1 range.2 s) u off n where
  unused_eq := h.unused_eq
  unused_le := by simpa [fatDeleteDirent] using h.unused_le
  size_eq := by simpa [fatDeleteDirent] using h.size_eq
  range_le := h.range_le
  free i d hi hin hd := by
    rcases getElem?_markSlots_eq_some hd with ⟨-, -, hdel⟩ | ⟨-, hd⟩
    · exact .inr hdel
    · exact h.free i d hi hin hd
  below i d hi hnot hd := by
    rcases getElem?_markSlots_eq_some hd with ⟨-, -, hdel⟩ | ⟨-, hd⟩
    · rw [hdel]
      decide
    · exact h.below i d hi hnot hd
  above i d hi hd := by
    rcases getElem?_markSlots_eq_some hd with ⟨-, -, hdel⟩ | ⟨-, hd⟩
    · exact .inr hdel
    · exact h.above i d hi hd
  set i hi hin := by
    simp only [fatDeleteDirent, Bitmap.bit_clearBits]
    rw [if_neg (by omega)]
    exact h.set i hi hin
  free_of_clear i d hd hclear := by
    simp only [fatDeleteDirent, Bitmap.bit_clearBits] at hclear
    rcases getElem?_markSlots_eq_some hd with ⟨-, -, hdel⟩ | ⟨hnot, hd⟩
    · exact .inr hdel
    · rw [if_neg (by omega)] at hclear
      exact h.free_of_clear i d hd hclear
  clear_of_free := False.elim

/-- Live slots are not in the reserved range. -/
theorem LiveOn.disjoint {ds : List Dirent} {i j off n : ℕ} (h : LiveOn ds i (j + 1))
    (hle : i ≤ j) (hfree : FreeRange ds off n) (hn : 0 < n) : j < off ∨ off + n ≤ i := by
  by_contra hmeet
  push Not at hmeet
  obtain ⟨d, hd, hlive⟩ := h (max i off) (by omega) (by omega)
  exact hlive (hfree _ d (by omega) (by omega) hd)

section Step

variable {nls : Nls} {chicagoMode : Bool} {k : DcbSite} {s : Dcb} {c : DirentCall}

theorem CallFits.sat {n : ℕ} (hfits : CallFits chicagoMode k c s n) (h : Sane s) (hn : 0 < n) :
    Sat (fatCreateNewDirent nls chicagoMode k c n) s
      (fun off t => ∃ u, Reserved False t u off n ∧
        (¬ (s.Crowded n ∧ k.fixedSize = true) → FreeRange s.dirents off n))
      (fun e t => Sane t ∧ (e = .fileCorruptError → Malformed s.dirents)) := by
  refine (sat_fatCreateNewDirent h.kept hn hfits.zeroing (fun _ => h.noHidden) hfits.grow
    hfits.defrag).mono (fun _ _ hq => hq) ?_
  rintro e t ⟨hkept, hhidden, hcorrupt⟩
  exact ⟨⟨hhidden h.noHidden, hkept⟩, hcorrupt⟩

/-- A new entry that is written, whatever raises behind that. -/
theorem Sane.newEntry {f : Option EntryFault} {es : List Dirent} (h : Sane s)
    (hes : EntryDirents es) (hfits : CallFits chicagoMode k c s es.length)
    (hfirst : f ≠ some .firstPage) (hsecond : f ≠ some .secondPage) :
    Sat (newEntry nls chicagoMode k c f es) s (fun _ t => Sane t) (fun _ t => Sane t) := by
  obtain ⟨hpos, -, hlive⟩ := hes
  rw [Fat.newEntry]
  refine Sat.bind ((hfits.sat h hpos).mono (fun _ _ hq => hq) fun _ _ he => he.1) ?_
  rintro off t ⟨u, hres, -⟩
  have hbooked := hres.write hlive
  cases f with
  | none => exact Sane.of_booked hbooked
  | some fault =>
      cases fault with
      | firstPage => exact absurd rfl hfirst
      | secondPage => exact absurd rfl hsecond
      | createFcb =>
          refine Sat.modify_bind (Sane.of_booked (u := u) ?_)
          exact hbooked.clear off es.length (writeDirents off es t).deletedDirentHint hpos
      | later => exact Sat.modify_bind (Sane.of_booked (hbooked.delete (by omega)))

/-- A rename that writes its dirents over the old ones, or none in this directory. -/
theorem Sane.renameAt {f : Option RenameFault} {r : RenameSlots} (h : Sane s)
    (hr : r.Fits nls chicagoMode k c s) (hreserve : r.reserve = false) :
    Sat (renameAt f r r.offset) s (fun _ t => Sane t) (fun _ t => Sane t) := by
  obtain ⟨hplace, hout⟩ := hr.place hreserve
  rw [Fat.renameAt]
  -- the slots that are written over stay in use up to the end
  let Q : Unit → Dcb → Prop := fun _ t => Sane t ∧
    LiveOn t.dirents (r.writeOffset r.offset) (r.writeOffset r.offset + r.written.length)
  have hdelete : ∀ t page range, Sane t → (r.source = range ∨ r.replaced = range) →
      LiveOn t.dirents (r.writeOffset r.offset) (r.writeOffset r.offset + r.written.length) →
      Sat (deleteHere range page) t Q (fun _ t => Sane t) := by
    intro t page range ht hrange hlive
    cases range with
    | none => exact ⟨ht, hlive⟩
    | some range =>
        have hle : range.1 ≤ range.2 := by
          rcases hrange with hsource | hreplaced
          · exact (hr.source range hsource).1
          · exact (hr.replaced range hreplaced).1
        refine (ht.deleteEntry hle page).mono ?_ fun _ _ he => he
        rintro _ t' ⟨ht', rfl⟩
        exact ⟨ht', hlive.delete (hout range hrange)⟩
  refine Sat.bind (R := Q) ?_ ?_
  · rw [deleteSource]
    split
    · exact h
    · exact hdelete s _ _ h (.inl rfl) hplace
  rintro _ t ⟨ht, hlive⟩
  refine Sat.bind (R := Q) ?_ ?_
  · rw [deleteTarget]
    split
    · exact ht
    · exact hdelete t _ _ ht (.inr rfl) hlive
  rintro _ t ⟨ht, hlive⟩
  rw [writeNew]
  split
  · exact ht
  · exact ht.rewrite hr.live hlive

/-- A rename that reserves slots and fills them. -/
theorem Sane.renameNew {r : RenameSlots} {t : Dcb} {u off : ℕ}
    (hr : r.Fits nls chicagoMode k c s) (hreserve : r.reserve = true)
    (hres : Reserved False t u off r.direntsRequired)
    (hok : fatCreateNewDirent nls chicagoMode k c r.direntsRequired s = .ok off t)
    (hall : r.written.length = r.direntsRequired)
    (hfree : r.replaced ≠ none → FreeRange s.dirents off r.direntsRequired) :
    Sat (Fat.renameAt none r off) t (fun _ t => Sane t) (fun _ t => Sane t) := by
  have hpos := hr.required_pos
  rw [Fat.renameAt]
  have hdelete : ∀ t' range, Reserved False t' u off r.direntsRequired →
      (∀ x, range = some x → x.1 ≤ x.2 ∧ (x.2 < off ∨ off + r.direntsRequired ≤ x.1)) →
      Sat (deleteHere range none) t' (fun _ t' => Reserved False t' u off r.direntsRequired)
        (fun _ t => Sane t) := by
    intro t' range hres' hrange
    cases range with
    | none => exact hres'
    | some range => exact hres'.delete (hrange range rfl).1 (hrange range rfl).2
  refine Sat.bind (R := fun _ t' => Reserved False t' u off r.direntsRequired) ?_ ?_
  · rw [deleteSource, if_neg (by simp)]
    refine hdelete t _ hres fun range hsource => ?_
    obtain ⟨hle, hlive⟩ := hr.source range hsource
    rw [if_pos hreserve] at hlive
    exact ⟨hle, (hlive off t hok).disjoint hle hres.free hpos⟩
  intro _ t' hres'
  refine Sat.bind (R := fun _ t' => Reserved False t' u off r.direntsRequired) ?_ ?_
  · rw [deleteTarget, if_neg (by simp)]
    refine hdelete t' _ hres' fun range hreplaced => ?_
    obtain ⟨hle, hlive⟩ := hr.replaced range hreplaced
    exact ⟨hle, hlive.disjoint hle (hfree (by simp [hreplaced])) hpos⟩
  intro _ t' hres'
  have hoff : r.writeOffset off = off := by
    rw [RenameSlots.writeOffset, hall]
    omega
  rw [writeNew, if_neg (by simp), hoff]
  rw [← hall] at hres'
  exact Sane.of_booked (hres'.write hr.live)

/-- One event keeps the invariant. -/
theorem sane_step {e : EntryEvent} (h : Sane s) (hallowed : e.Allowed nls chicagoMode k s)
    (hclean : e.Clean chicagoMode k s) : Sane (entryStep nls chicagoMode k s e) := by
  cases e with
  | newFile c f es =>
      exact stateAfter_of_sat (h.newEntry hallowed hclean.1 hclean.2.1 hclean.2.2)
  | newDirectory c f es =>
      exact stateAfter_of_sat (h.newEntry hallowed hclean.1 hclean.2.1 hclean.2.2)
  | rename c f r =>
      apply stateAfter_of_sat
      rw [fatSetRenameInfo]
      cases hreserve : r.reserve with
      | false => exact h.renameAt hallowed hreserve
      | true =>
          obtain ⟨hfits, hf, hall, hcompact⟩ := hclean hreserve
          rw [if_pos rfl, hf]
          refine Sat.bind ((hfits.sat h hallowed.required_pos).keep.mono (fun _ _ hq => hq)
            fun _ _ he => he.1) ?_
          rintro off t ⟨⟨u, hres, hfree⟩, hok⟩
          exact Sane.renameNew hallowed hreserve hres hok hall fun hne => hfree (hcompact hne)
  | delete range page =>
      exact stateAfter_of_sat ((h.deleteEntry hallowed.1 page).mono (fun _ _ hq => hq.1)
        fun _ _ he => he)

/-- In every run whose events write what they have reserved no live dirent gets hidden, and
`FatCreateNewDirent` finds no slot in use that it takes to be free. -/
theorem findable_of_reach {s₀ : Dcb} (hnone : s₀.unusedDirentVbo = none)
    (hsize : s₀.freeDirentBitmap.size ≤ s₀.dirents.length) (hhidden : NoHidden s₀.dirents)
    (hrun : Reach (entryStep nls chicagoMode k)
      (fun s e => e.Allowed nls chicagoMode k s ∧ e.Clean chicagoMode k s) s₀ s) :
    Findable s ∧ ∀ c n, 0 < n → CallFits chicagoMode k c s n →
      Sat (fatCreateNewDirent nls chicagoMode k c n) s (fun _ _ => True)
        (fun e _ => e = .fileCorruptError → Malformed s.dirents) := by
  have hsane : Sane s := hrun.invariant ⟨hhidden, .inl ⟨hnone, hsize⟩⟩
    fun s e h he => sane_step h he.1 he.2
  refine ⟨hsane.findable, fun c n hn hfits => ?_⟩
  exact (hfits.sat hsane hn).mono (fun _ _ _ => trivial) fun _ _ he => he.2

end Step

/-- A subdirectory of one cluster with nothing but its own two entries. -/
def dotsOnlyDcb : Dcb where
  dirents := [(Dirent.zero.setByte 0 0x2e).setByte 11 0x10,
    (Dirent.zero.setByte 0 0x2e).setByte 11 0x10] ++ List.replicate 14 Dirent.zero
  freeDirentBitmap := ⟨0, fun _ => false⟩
  unusedDirentVbo := none
  deletedDirentHint := 2 ^ 27 - 1

/-- A subdirectory with clusters of sixteen dirents. -/
def sixteenSite : DcbSite := ⟨false, false, 16, Nat.succ_pos 15⟩

def quietCall : DirentCall := ⟨none, fun _ => false⟩

/-- A single dirent in use. -/
def oneDirent : List Dirent := [(Dirent.zero.setByte 0 0x41).setByte 11 0x20]

theorem noHidden_dotsOnlyDcb : NoHidden dotsOnlyDcb.dirents := by
  have hlive : ∀ i < 2, ∀ d, dotsOnlyDcb.dirents[i]? = some d → d.ordinal ≠ Dirent.neverUsed := by
    decide +kernel
  intro i j d e hij hd he hnever
  have hi : 2 ≤ i := by
    by_contra hlt
    exact hlive i (by omega) d hd hnever
  have hmem : e ∈ List.replicate 14 Dirent.zero := by
    rw [dotsOnlyDcb] at he
    rw [List.getElem?_append_right (by simp; omega)] at he
    exact List.mem_of_getElem? he
  exact List.eq_of_mem_replicate hmem ▸ Dirent.free_zero

/-- A file is made in the empty directory. -/
theorem findable_dotsOnlyDcb_newFile :
    Findable (entryStep Nls.ascii true sixteenSite dotsOnlyDcb (.newFile quietCall none oneDirent)) := by
  have hcrowded : ¬ dotsOnlyDcb.Crowded 1 := by
    rw [Dcb.Crowded, if_pos (show dotsOnlyDcb.unusedDirentVbo = none from rfl)]
    exact not_noRoom_of_zero (i := 2) rfl
  have hfits : CallFits true sixteenSite quietCall dotsOnlyDcb 1 :=
    ⟨by decide, fun h => absurd h hcrowded, fun h => absurd h hcrowded⟩
  have hrun : Reach (entryStep Nls.ascii true sixteenSite)
      (fun s e => e.Allowed Nls.ascii true sixteenSite s ∧ e.Clean true sixteenSite s) dotsOnlyDcb
      (entryStep Nls.ascii true sixteenSite dotsOnlyDcb (.newFile quietCall none oneDirent)) :=
    .next .start ⟨⟨by decide, by decide, by decide⟩, hfits, by decide, by decide⟩
  exact (findable_of_reach rfl (Nat.zero_le _) noHidden_dotsOnlyDcb hrun).1

/-- The first page cannot be pinned: the slot that was reserved stays as it was, and
`UnusedDirentVbo` has gone past it. -/
theorem not_findable_firstPage :
    ¬ ∀ s, Reach (entryStep Nls.ascii true sixteenSite)
      (fun s e => e.Allowed Nls.ascii true sixteenSite s) dotsOnlyDcb s → Findable s := by
  intro hall
  have hrun : Reach (entryStep Nls.ascii true sixteenSite)
      (fun s e => e.Allowed Nls.ascii true sixteenSite s) dotsOnlyDcb
      (entryStep Nls.ascii true sixteenSite dotsOnlyDcb
        (.newFile quietCall (some .firstPage) oneDirent)) :=
    .next .start ⟨by decide, by decide, by decide⟩
  have hbelow := (hall _ hrun).below 3 (by decide +kernel) 2 Dirent.zero (by decide)
    (by decide +kernel)
  exact absurd rfl hbelow

end KernelDrivers.Fat
