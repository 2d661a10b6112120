import KernelDrivers.Fat.LiveEntries
import KernelDrivers.Fat.NameTree

/-!
# The defragmentation of a directory and its open files

`FatDefragDirectory` packs the entries at the front of the directory and then looks for the
short name of every open file to learn where the file has gone.  Three things go wrong.  A
pile whose first dirent holds nothing but the terminator of the name loses that dirent.  What
is in use behind the last entry stays where it is, with its bits cleared.  And the first
dirent with the short name of an open file is taken for the file.

## Main definitions

* `ParentDcb` — a directory and its open files.
* `fatLocateSimpleOemDirent`, `ParentDcb.fatDefragDirectory`.
* `KeepsLiveEntries` — what is asked of a call.
* `Defragmentable` — the calls that are refused, and the directories that come out right.

## Main results

* `keepsLiveEntries_iff`.
-/

namespace KernelDrivers.Fat

/-- An open file: what a defragmentation reads and writes of its Fcb. -/
structure OpenFcb where
  direntOffsetWithinDirectory : UInt32
  lfnOffsetWithinDirectory : UInt32
  shortName : List UInt8
  deleteOnClose : Bool
  uncleanCount : ℕ
  pagingFile : Bool
  fcbCondition : FcbCondition
  deriving DecidableEq

namespace OpenFcb

def isFileDeleted (f : OpenFcb) : Bool := f.deleteOnClose && f.uncleanCount == 0

/-- `FatMarkFcbCondition` of one file. -/
def markCondition (removableMedia : Bool) (condition : FcbCondition) (f : OpenFcb) : OpenFcb :=
  if !removableMedia && f.pagingFile then { f with fcbCondition := .fcbGood }
  else { f with fcbCondition := condition }

/-- Point to a dirent, with the distance to the first long-name dirent as it was. -/
def moveTo (off : UInt32) (f : OpenFcb) : OpenFcb :=
  { f with
    direntOffsetWithinDirectory := off
    lfnOffsetWithinDirectory :=
      off - (f.direntOffsetWithinDirectory - f.lfnOffsetWithinDirectory) }

end OpenFcb

/-- A directory and the files of it that are open. -/
structure ParentDcb where
  dcb : Dcb
  parentDcbQueue : List OpenFcb
  removableMedia : Bool

/-- What the end of a defragmentation meets: whether the flush raises, and for each of the open
files whether the search for it raises. -/
structure FixUpIo where
  flushRaises : Bool
  lookupRaises : ℕ → Bool

/-- The local context of a search for a short name alone. -/
def Ccb.simpleOem (name : List UInt8) : Ccb where
  matchAll := false
  matchVolumeId := false
  skipShortNameCompare := false
  queryTemplateMixed := false
  containsWildCards := false
  oemWild := []
  oemConstant := fatStringTo8dot3 name
  unicodeQueryTemplate := []

section Routines

variable (nls : Nls) (chicagoMode : Bool)

/-- The search starts at offset zero and does not ask for long names. -/
def fatLocateSimpleOemDirent (ds : List Dirent) (name : List UInt8) : Located :=
  locateFrom nls chicagoMode false (Ccb.simpleOem name) 0 none ds

/-- Find an open file again.  One that is not found is marked invalid. -/
def fixUpFcb (removableMedia : Bool) (ds : List Dirent) (invalidateFcbs : Bool) (f : OpenFcb) :
    OpenFcb :=
  if invalidateFcbs then f.markCondition removableMedia .fcbBad
  else match fatLocateSimpleOemDirent nls chicagoMode ds f.shortName with
    | .found off .. => f.moveTo (UInt32.ofNat off)
    | _ => f.markCondition removableMedia .fcbBad

/-- The loop over the open files.  Deleted ones are skipped; a search that raises invalidates
its file and all behind it. -/
def fixUpFcbs (removableMedia : Bool) (ds : List Dirent) :
    (lookupRaises : ℕ → Bool) → (invalidateFcbs : Bool) → List OpenFcb → List OpenFcb
  | _, _, [] => []
  | lookupRaises, invalidateFcbs, f :: fs =>
      let rest := fun i => lookupRaises (i + 1)
      if f.isFileDeleted then f :: fixUpFcbs removableMedia ds rest invalidateFcbs fs
      else
        let invalidateFcbs := invalidateFcbs || lookupRaises 0
        fixUpFcb nls chicagoMode removableMedia ds invalidateFcbs f ::
          fixUpFcbs removableMedia ds rest invalidateFcbs fs

/-- Compact a small directory and fix up its open files. -/
def ParentDcb.fatDefragDirectory (io : FixUpIo) (c : DirentCall) (direntsNeeded : ℕ) :
    EStateM DirentStatus ParentDcb (Option ℕ) := do
  let index ← onPart ParentDcb.dcb (fun s dcb => { s with dcb })
    (Fat.fatDefragDirectory nls chicagoMode c direntsNeeded)
  match index with
  | none => return none
  | some index =>
      modify fun s => { s with
        parentDcbQueue := fixUpFcbs nls chicagoMode s.removableMedia s.dcb.dirents
          io.lookupRaises io.flushRaises s.parentDcbQueue }
      return some index

end Routines

/-! ## What is asked -/

/-- The entries are packed in front of slot `n`, and the other slots are free. -/
structure Packed (ds : List Dirent) (es : List LiveEntry) (n : ℕ) (ds' : List Dirent) : Prop where
  front : ds'.take n = es.flatMap (LiveEntry.dirents ds)
  free : ∀ (i : ℕ) (d : Dirent), n ≤ i → ds'[i]? = some d → d.Free

/-- The slot at which the `k`th entry begins when all are packed. -/
def movedFirst (es : List LiveEntry) (k : ℕ) : ℕ := ((es.take k).map LiveEntry.width).sum

/-- The offsets of a file say where its entry begins and where its short dirent is. -/
def OpenFcb.PointsTo (f : OpenFcb) (first slot : ℕ) : Prop :=
  f.direntOffsetWithinDirectory = UInt32.ofNat (32 * slot) ∧
    f.lfnOffsetWithinDirectory = UInt32.ofNat (32 * first)

/-- A read or a write of the disk has failed before the `i`th file is found. -/
def Lost (flushRaises : Bool) (lookupRaises : ℕ → Bool) (queue : List OpenFcb) (i : ℕ) : Prop :=
  flushRaises = true ∨ ∃ (j : ℕ) (f : OpenFcb), j ≤ i ∧ queue[j]? = some f ∧
    f.isFileDeleted = false ∧ lookupRaises j = true

/-- `own i` is the entry that the `i`th open file is of; the one for extended attributes may have
none. -/
structure Owner (own : ℕ → Option ℕ) (es : List LiveEntry) (queue : List OpenFcb) (i : ℕ)
    (f : OpenFcb) (k : ℕ) (e : LiveEntry) : Prop where
  queued : queue[i]? = some f
  undeleted : f.isFileDeleted = false
  own_eq : own i = some k
  entry : es[k]? = some e
  points : f.PointsTo e.first e.slot

/-- Every open file points to its own entry, where that has gone.  When the disk fails, the files
are invalidated instead. -/
def FcbsMoved (io : FixUpIo) (own : ℕ → Option ℕ) (es : List LiveEntry) (s : ParentDcb)
    (queue : List OpenFcb) : Prop :=
  ∀ (i : ℕ) (f : OpenFcb) (k : ℕ) (e : LiveEntry), Owner own es s.parentDcbQueue i f k e →
    ∃ f', queue[i]? = some f' ∧
      (Lost io.flushRaises io.lookupRaises s.parentDcbQueue i →
        f' = f.markCondition s.removableMedia .fcbBad) ∧
      (¬ Lost io.flushRaises io.lookupRaises s.parentDcbQueue i →
        f'.PointsTo (movedFirst es k) (movedFirst es k + (e.slot - e.first)))

section Statements

variable (nls : Nls) (chicagoMode : Bool) (io : FixUpIo) (c : DirentCall) (direntsNeeded : ℕ)
  (own : ℕ → Option ℕ) (s : ParentDcb)

/-- A call that returns an index has packed the live entries and moved the open files; any other
one has changed nothing. -/
def KeepsLiveEntries : Prop :=
  match s.fatDefragDirectory nls chicagoMode io c direntsNeeded with
  | .ok (some n) t => ∃ es, liveEntries chicagoMode s.dcb.dirents = some es ∧
      Packed s.dcb.dirents es n t.dcb.dirents ∧ FcbsMoved io own es s t.parentDcbQueue
  | .ok none t => t = s
  | .error _ t => t = s

/-- The slots that the entries need by their names. -/
def slotsNeeded (es : List LiveEntry) : ℕ :=
  (es.map fun e => fatLfnDirentsNeeded e.name + 1).sum

/-- The call is refused: the directory is too large or cannot be read, or there is no room. -/
def Refused (ds : List Dirent) : Prop :=
  0x40000 < 32 * ds.length ∨ c.fault = some .compacting ∨
    ∀ es, liveEntries chicagoMode ds = some es → ds.length < slotsNeeded es + direntsNeeded

/-- A dirent that is neither a label nor of a long name, with these eleven bytes. -/
def Dirent.isNamed (fileName : List UInt8) (d : Dirent) : Bool :=
  d.attributes &&& attrVolumeId = 0 ∧ fileName = d.fileName

/-- The short dirent of the entry has this name. -/
def LiveEntry.hasShortName (ds : List Dirent) (fileName : List UInt8) (e : LiveEntry) : Bool :=
  (ds[e.slot]?).any (Dirent.isNamed fileName)

/-- The `k`th entry is the first one with the name, or no entry has the name and this one stays
where it is. -/
def LeadsTo (ds : List Dirent) (es : List LiveEntry) (fileName : List UInt8) (k : ℕ) : Prop :=
  es.findIdx? (LiveEntry.hasShortName ds fileName) = some k ∨
    (∀ e ∈ es, e.hasShortName ds fileName = false) ∧
      ∀ e, es[k]? = some e → movedFirst es k = e.first

/-- The short name of every open file leads to its entry. -/
def NamesLead (es : List LiveEntry) : Prop :=
  ∀ (i : ℕ) (f : OpenFcb) (k : ℕ) (e : LiveEntry), Owner own es s.parentDcbQueue i f k e →
    ¬ Lost io.flushRaises io.lookupRaises s.parentDcbQueue i →
    LeadsTo s.dcb.dirents es (fatStringTo8dot3 f.shortName) k

/-- No pile has a dirent too many, nothing in use stands behind the last entry, and the short
names of the open files lead to them. -/
structure Orderly (es : List LiveEntry) : Prop where
  unpadded : ∀ e ∈ es, ¬ e.Padded s.dcb.dirents
  covered : ∀ (i : ℕ) (d : Dirent), s.dcb.dirents[i]? = some d → ¬ d.Free → ∃ e ∈ es, i ≤ e.slot
  names : NamesLead io own s es

def Defragmentable : Prop :=
  Refused chicagoMode c direntsNeeded s.dcb.dirents ∨
    ∃ es, liveEntries chicagoMode s.dcb.dirents = some es ∧ Orderly io own s es

end Statements

/-! ## The directory -/

section Directory

variable {nls : Nls} {chicagoMode : Bool} {ds : List Dirent} {es : List LiveEntry}

theorem runsTotal_eq (es : List LiveEntry) :
    runsTotal (es.map LiveEntry.run) = slotsNeeded es := by
  rw [runsTotal, slotsNeeded, List.map_map]
  rfl

/-- A call, by the live entries. -/
theorem fatDefragDirectory_eq (c : DirentCall) (n : ℕ) (s : Dcb) :
    fatDefragDirectory nls chicagoMode c n s =
      if 0x40000 < 32 * s.dirents.length then .ok none s
      else if c.fault = some .compacting then .error .ioError s
      else match liveEntries chicagoMode s.dirents with
        | none => .error .fileCorruptError s
        | some es =>
            if s.dirents.length - slotsNeeded es < n then .ok none s
            else .ok (some (slotsNeeded es))
              { s with
                dirents := compacted s.dirents (es.map LiveEntry.run)
                freeDirentBitmap := (s.freeDirentBitmap.setBits 0 (slotsNeeded es)).clearBits
                  (slotsNeeded es) (s.dirents.length - slotsNeeded es) } := by
  rw [fatDefragDirectory, get_bind_run]
  by_cases hsize : 32 * s.dirents.length ≤ 0x40000
  · rw [dif_pos hsize, if_neg (show ¬ 0x40000 < 32 * s.dirents.length by omega)]
    by_cases hfault : c.fault = some .compacting
    · rw [if_pos hfault, if_pos hfault]
      rfl
    have hruns := entryRuns_eq nls chicagoMode ⟨s.dirents, by omega⟩ s.dirents.length 0
      (Nat.zero_le _) (Nat.zero_add _).ge
    rw [List.drop_zero] at hruns
    rw [if_neg hfault, if_neg hfault, hruns, liveEntries]
    cases liveFrom chicagoMode 0 none s.dirents with
    | none => rfl
    | some es =>
        simp only [Option.map_some, runsTotal_eq, pure]
        split <;> rfl
  · rw [dif_neg hsize, if_pos (by omega)]
    rfl

theorem ParentDcb.fatDefragDirectory_eq (io : FixUpIo) (c : DirentCall) (n : ℕ) (s : ParentDcb) :
    s.fatDefragDirectory nls chicagoMode io c n =
      match Fat.fatDefragDirectory nls chicagoMode c n s.dcb with
      | .ok (some index) dcb => .ok (some index)
          { s with
            dcb
            parentDcbQueue := fixUpFcbs nls chicagoMode s.removableMedia dcb.dirents
              io.lookupRaises io.flushRaises s.parentDcbQueue }
      | .ok none dcb => .ok none { s with dcb }
      | .error e dcb => .error e { s with dcb } := by
  rw [ParentDcb.fatDefragDirectory]
  simp only [bind, EStateM.bind, onPart]
  cases Fat.fatDefragDirectory nls chicagoMode c n s.dcb with
  | ok index dcb => cases index <;> rfl
  | error e dcb => rfl

/-! ### What is packed -/

theorem LiveEntry.Parsed.length_dirents {q : ℕ} {e : LiveEntry} (h : e.Parsed ds q) :
    (e.dirents ds).length = e.width := by
  obtain ⟨d, hd, -⟩ := h.own
  have hlt := (List.getElem?_eq_some_iff.mp hd).1
  have hle := h.first_le
  rw [LiveEntry.dirents, LiveEntry.width, List.length_take, List.length_drop]
  omega

theorem EntriesFrom.length_flatMap {q : ℕ} (h : EntriesFrom ds q es) :
    (es.flatMap (LiveEntry.dirents ds)).length = (es.map LiveEntry.width).sum := by
  induction es generalizing q with
  | nil => rfl
  | cons e es ih =>
      rw [List.flatMap_cons, List.length_append, h.1.length_dirents, ih h.2, List.map_cons,
        List.sum_cons]

/-- The names need all the slots only if no pile is padded. -/
theorem EntriesFrom.slotsNeeded_le {q : ℕ} (h : EntriesFrom ds q es) :
    slotsNeeded es ≤ (es.map LiveEntry.width).sum ∧
      (slotsNeeded es = (es.map LiveEntry.width).sum ↔ ∀ e ∈ es, ¬ e.Padded ds) := by
  induction es generalizing q with
  | nil => exact ⟨le_rfl, by simp [slotsNeeded]⟩
  | cons e es ih =>
      obtain ⟨hparsed, hrest⟩ := h
      obtain ⟨hle, hiff⟩ := ih hrest
      have hfirst := hparsed.first_le
      have hcons : slotsNeeded (e :: es) = fatLfnDirentsNeeded e.name + 1 + slotsNeeded es := by
        rw [slotsNeeded, slotsNeeded, List.map_cons, List.sum_cons]
      rw [hcons, List.map_cons, List.sum_cons, List.forall_mem_cons, ← hiff]
      have hwidth : e.width = e.slot + 1 - e.first := rfl
      by_cases hpad : e.Padded ds
      · have hneeded := hparsed.needed_padded hpad
        exact ⟨by omega, by omega, fun hboth => absurd hpad hboth.1⟩
      · have hneeded := hparsed.needed hpad
        exact ⟨by omega, fun heq => ⟨hpad, by omega⟩, fun hboth => by omega⟩

theorem EntriesFrom.usedDirents_eq {q : ℕ} (h : EntriesFrom ds q es)
    (hpad : ∀ e ∈ es, ¬ e.Padded ds) :
    usedDirents ds (es.map LiveEntry.run) = es.flatMap (LiveEntry.dirents ds) := by
  induction es generalizing q with
  | nil => rfl
  | cons e es ih =>
      obtain ⟨hparsed, hrest⟩ := h
      obtain ⟨hhead, htail⟩ := List.forall_mem_cons.mp hpad
      have hneeded := hparsed.needed hhead
      have hfirst : e.slot - fatLfnDirentsNeeded e.name = e.first := by omega
      have hwidth : fatLfnDirentsNeeded e.name + 1 = e.slot + 1 - e.first := by omega
      have hrec := ih hrest htail
      rw [usedDirents] at hrec ⊢
      rw [List.map_cons, List.flatMap_cons, List.flatMap_cons, hrec, LiveEntry.dirents,
        LiveEntry.width, LiveEntry.run]
      dsimp only
      rw [hfirst, hwidth]

theorem LiveEntry.Parsed.run_end {q : ℕ} {e : LiveEntry} (h : e.Parsed ds q) :
    e.run.1 + e.run.2 = e.slot + 1 := by
  have := h.needed_le
  simp only [LiveEntry.run]
  omega

/-- The last run ends behind the last entry. -/
theorem EntriesFrom.lt_runsEnd_iff {q : ℕ} (h : EntriesFrom ds q es) (i : ℕ) :
    i < runsEnd q (es.map LiveEntry.run) ↔ i < q ∨ ∃ e ∈ es, i ≤ e.slot := by
  induction es generalizing q with
  | nil => simp [runsEnd]
  | cons e es ih =>
      obtain ⟨hparsed, hrest⟩ := h
      have hfirst := hparsed.le_first
      have hle := hparsed.first_le
      rw [List.map_cons, runsEnd, hparsed.run_end, ih hrest, List.exists_mem_cons_iff,
        Nat.lt_succ_iff]
      constructor
      · rintro (hi | hi)
        · exact .inr (.inl hi)
        · exact .inr (.inr hi)
      · rintro (hi | hi | hi)
        · exact .inl (by omega)
        · exact .inl hi
        · exact .inr hi

/-- The directory comes out right if no pile is padded and the last entry has nothing in use
behind it. -/
theorem EntriesFrom.packed_iff (h : EntriesFrom ds 0 es) :
    Packed ds es (slotsNeeded es) (compacted ds (es.map LiveEntry.run)) ↔
      (∀ e ∈ es, ¬ e.Padded ds) ∧
        ∀ (i : ℕ) (d : Dirent), ds[i]? = some d → ¬ d.Free → ∃ e ∈ es, i ≤ e.slot := by
  have hruns := h.runsFrom
  have hlength := length_compacted hruns
  have htotal := runsTotal_le hruns
  have hused := length_usedDirents hruns
  have hend := (length_unusedDirents hruns (Nat.zero_le _)).2
  rw [runsTotal_eq] at htotal hused
  obtain ⟨-, hiff⟩ := h.slotsNeeded_le
  constructor
  · intro hpacked
    refine ⟨hiff.mp ?_, ?_⟩
    · have hlen := congrArg List.length hpacked.front
      rw [List.length_take, hlength, h.length_flatMap] at hlen
      omega
    · intro i d hd hlive
      have hlt : i < runsEnd 0 (es.map LiveEntry.run) := by
        by_contra hge
        push Not at hge
        rw [← getElem?_compacted hruns hge] at hd
        exact hlive (hpacked.free i d (by omega) hd)
      exact ((h.lt_runsEnd_iff i).mp hlt).resolve_left (Nat.not_lt_zero i)
  · rintro ⟨hpad, hcovered⟩
    constructor
    · rw [compacted, List.append_assoc, List.take_left' hused]
      exact h.usedDirents_eq hpad
    · intro i d hi hd
      rcases Nat.lt_or_ge i (runsEnd 0 (es.map LiveEntry.run)) with hlt | hge
      · exact .inr (deleted_compacted hruns (runsTotal_eq es ▸ hi) hlt hd)
      · rw [getElem?_compacted hruns hge] at hd
        by_contra hlive
        obtain ⟨e, he, hle⟩ := hcovered i d hd hlive
        exact absurd ((h.lt_runsEnd_iff i).mpr (.inr ⟨e, he, hle⟩)) (by omega)

end Directory

/-! ## The search for a file -/

section Search

variable {nls : Nls} {chicagoMode : Bool} {ds : List Dirent} {es : List LiveEntry}
  {name : List UInt8}

theorem isNamed_of_lfn {d : Dirent} (h : d.attributes = Dirent.attrLfn) (fileName : List UInt8) :
    d.isNamed fileName = false := by
  have hlabel : Dirent.attrLfn &&& Dirent.attrVolumeId ≠ 0 := by decide
  simp [Dirent.isNamed, h, hlabel]

/-- One turn of the search for a short name. -/
theorem locateStep_simpleOem (off : ℕ) (d : Dirent) :
    locateStep nls chicagoMode false (Ccb.simpleOem name) off d none =
      if d.ordinal = Dirent.neverUsed then .stop .notFound
      else if d.ordinal ≠ Dirent.deleted ∧ d.isNamed (fatStringTo8dot3 name) = true then
        .stop (.found off d [] true)
      else .go none := by
  rw [locateStep]
  by_cases hused : d.ordinal = Dirent.neverUsed
  · rw [if_pos hused, if_pos hused]
  rw [if_neg hused, if_neg hused]
  by_cases hdel : d.ordinal = Dirent.deleted
  · simp [hdel]
  by_cases hlabel : d.attributes &&& Dirent.attrVolumeId = 0
  · by_cases hname : fatStringTo8dot3 name = d.fileName <;>
      simp [hdel, hlabel, hname, readShort, validLfn, Ccb.simpleOem, Ccb.matchesShort,
        Dirent.isNamed]
  · simp [hdel, hlabel, Ccb.simpleOem, Dirent.isNamed]

/-- Behind the slots in use there is nothing to find. -/
theorem locateFrom_simpleOem_free {off : ℕ} {l : List Dirent} (h : ∀ d ∈ l, d.Free) :
    locateFrom nls chicagoMode false (Ccb.simpleOem name) off none l = .notFound := by
  induction l generalizing off with
  | nil => rfl
  | cons d l ih =>
      obtain ⟨hd, hl⟩ := List.forall_mem_cons.mp h
      rw [locateFrom, locateStep_simpleOem]
      rcases hd with hnever | hdel
      · rw [if_pos hnever]
      · rw [if_neg (by rw [hdel]; decide), if_neg fun hboth => hboth.1 hdel]
        exact ih hl

/-- In front of them the first dirent with the name is found. -/
theorem locateFrom_simpleOem (nls : Nls) (chicagoMode : Bool) (name : List UInt8)
    {front back : List Dirent} (p : ℕ) (hlive : ∀ d ∈ front, ¬ d.Free)
    (hfree : ∀ d ∈ back, d.Free) :
    match front.findIdx? (Dirent.isNamed (fatStringTo8dot3 name)) with
    | none => locateFrom nls chicagoMode false (Ccb.simpleOem name) (p * 32) none
        (front ++ back) = .notFound
    | some i => ∃ d, locateFrom nls chicagoMode false (Ccb.simpleOem name) (p * 32) none
        (front ++ back) = .found ((p + i) * 32) d [] true := by
  induction front generalizing p with
  | nil => exact locateFrom_simpleOem_free hfree
  | cons d front ih =>
      obtain ⟨hd, hrest⟩ := List.forall_mem_cons.mp hlive
      have hused : d.ordinal ≠ Dirent.neverUsed := fun h => hd (.inl h)
      have hdel : d.ordinal ≠ Dirent.deleted := fun h => hd (.inr h)
      have hnext : p * 32 + 32 = (p + 1) * 32 := by omega
      rw [List.findIdx?_cons, List.cons_append, locateFrom, locateStep_simpleOem, if_neg hused]
      by_cases hnamed : d.isNamed (fatStringTo8dot3 name) = true
      · rw [if_pos hnamed, if_pos ⟨hdel, hnamed⟩]
        exact ⟨d, rfl⟩
      · rw [if_neg hnamed, if_neg fun hboth => hnamed hboth.2]
        have hrec := ih (p + 1) hrest
        dsimp only
        rw [hnext]
        cases hfind : front.findIdx? (Dirent.isNamed (fatStringTo8dot3 name)) with
        | none =>
            rw [hfind] at hrec
            exact hrec
        | some i =>
            rw [hfind] at hrec
            obtain ⟨e, he⟩ := hrec
            refine ⟨e, ?_⟩
            dsimp only
            rw [he]
            congr 1
            omega

/-! ### Where an entry goes -/

/-- The slot of the `k`th short dirent when all entries are packed. -/
def movedSlot (es : List LiveEntry) (k : ℕ) : ℕ :=
  movedFirst es k + (es[k]?).elim 0 fun e => e.slot - e.first

theorem movedFirst_succ (e : LiveEntry) (es : List LiveEntry) (k : ℕ) :
    movedFirst (e :: es) (k + 1) = e.width + movedFirst es k := by
  rw [movedFirst, movedFirst, List.take_succ_cons, List.map_cons, List.sum_cons]

theorem movedSlot_succ (e : LiveEntry) (es : List LiveEntry) (k : ℕ) :
    movedSlot (e :: es) (k + 1) = movedSlot es k + e.width := by
  rw [movedSlot, movedSlot, movedFirst_succ, List.getElem?_cons_succ]
  omega

theorem LiveEntry.Parsed.findIdx_dirents {q : ℕ} {e : LiveEntry} (h : e.Parsed ds q)
    (fileName : List UInt8) :
    (e.dirents ds).findIdx? (Dirent.isNamed fileName) =
      if e.hasShortName ds fileName then some (e.slot - e.first) else none := by
  obtain ⟨d, hd, -⟩ := h.own
  have hle := h.first_le
  have hlt := (List.getElem?_eq_some_iff.mp hd).1
  have hsub : e.first + (e.slot - e.first) = e.slot := by omega
  have hwidth : e.width = e.slot - e.first + 1 := by rw [LiveEntry.width]; omega
  have hsplit : e.dirents ds = (ds.drop e.first).take (e.slot - e.first) ++ [d] := by
    rw [LiveEntry.dirents, hwidth, List.take_add_one, List.getElem?_drop, hsub, hd]
    rfl
  have hlength : ((ds.drop e.first).take (e.slot - e.first)).length = e.slot - e.first := by
    rw [List.length_take, List.length_drop]
    omega
  have hpile : ((ds.drop e.first).take (e.slot - e.first)).findIdx?
      (Dirent.isNamed fileName) = none := by
    rw [List.findIdx?_eq_none_iff]
    intro x hx
    obtain ⟨m, hm⟩ := List.mem_iff_getElem?.mp hx
    rw [List.getElem?_take] at hm
    split at hm
    · next hlt =>
        rw [List.getElem?_drop] at hm
        obtain ⟨y, hy, -, hlfn⟩ := h.lfn (e.first + m) (by omega) (by omega)
        rw [hm] at hy
        exact isNamed_of_lfn (Option.some.inj hy ▸ hlfn) fileName
    · cases hm
  have hown : e.hasShortName ds fileName = d.isNamed fileName := by
    rw [LiveEntry.hasShortName, hd]
    rfl
  rw [hsplit, List.findIdx?_append, hpile, hlength, hown, List.findIdx?_singleton]
  cases d.isNamed fileName <;> simp

/-- The first dirent with a name is that of the first entry with the name. -/
theorem EntriesFrom.findIdx_flatMap {q : ℕ} (h : EntriesFrom ds q es) (fileName : List UInt8) :
    (es.flatMap (LiveEntry.dirents ds)).findIdx? (Dirent.isNamed fileName) =
      (es.findIdx? (LiveEntry.hasShortName ds fileName)).map (movedSlot es) := by
  induction es generalizing q with
  | nil => rfl
  | cons e es ih =>
      obtain ⟨hparsed, hrest⟩ := h
      rw [List.flatMap_cons, List.findIdx?_append, hparsed.findIdx_dirents, ih hrest,
        hparsed.length_dirents, List.findIdx?_cons]
      cases e.hasShortName ds fileName with
      | true => simp [movedSlot, movedFirst]
      | false =>
          cases es.findIdx? (LiveEntry.hasShortName ds fileName) with
          | none => rfl
          | some k => simp [movedSlot_succ]

theorem movedFirst_le {k k' : ℕ} (h : k ≤ k') : movedFirst es k ≤ movedFirst es k' := by
  induction es generalizing k k' with
  | nil => simp [movedFirst]
  | cons e es ih =>
      cases k with
      | zero => simp [movedFirst]
      | succ k =>
          obtain ⟨k', rfl⟩ := Nat.exists_eq_succ_of_ne_zero (by omega : k' ≠ 0)
          have hrec := ih (Nat.le_of_succ_le_succ h)
          rw [movedFirst_succ, movedFirst_succ]
          omega

/-- The packed entries lie one behind the other. -/
theorem movedSlot_lt {q k : ℕ} {e : LiveEntry} (h : EntriesFrom ds q es) (he : es[k]? = some e) :
    movedSlot es k < movedFirst es (k + 1) := by
  induction es generalizing q k with
  | nil => cases he
  | cons e' es ih =>
      obtain ⟨hparsed, hrest⟩ := h
      cases k with
      | zero =>
          have hle := hparsed.first_le
          have hzero : ∀ l, movedFirst l 0 = 0 := fun l => rfl
          rw [movedFirst_succ, movedSlot, hzero, hzero, List.getElem?_cons_zero, Option.elim_some,
            LiveEntry.width]
          omega
      | succ k =>
          have hrec := ih hrest he
          rw [movedSlot_succ, movedFirst_succ]
          omega

theorem movedSlot_inj {q k k' : ℕ} {e e' : LiveEntry} (h : EntriesFrom ds q es)
    (he : es[k]? = some e) (he' : es[k']? = some e') (heq : movedSlot es k = movedSlot es k') :
    k = k' := by
  have hlt := movedSlot_lt h he
  have hlt' := movedSlot_lt h he'
  have hle : movedFirst es k ≤ movedSlot es k := Nat.le_add_right _ _
  have hle' : movedFirst es k' ≤ movedSlot es k' := Nat.le_add_right _ _
  rcases Nat.lt_trichotomy k k' with hk | hk | hk
  · have hmono : movedFirst es (k + 1) ≤ movedFirst es k' := movedFirst_le hk
    omega
  · exact hk
  · have hmono : movedFirst es (k' + 1) ≤ movedFirst es k := movedFirst_le hk
    omega

/-- In a packed directory the first entry with the short name is found. -/
theorem Packed.locate {n : ℕ} {ds' : List Dirent} (hpacked : Packed ds es n ds')
    (h : EntriesFrom ds 0 es) (nls : Nls) (chicagoMode : Bool) (name : List UInt8) (hlive : ∀ d ∈ ds'.take n, ¬ d.Free) :
    match es.findIdx? (LiveEntry.hasShortName ds (fatStringTo8dot3 name)) with
    | none => fatLocateSimpleOemDirent nls chicagoMode ds' name = .notFound
    | some k => ∃ d, fatLocateSimpleOemDirent nls chicagoMode ds' name =
        .found (movedSlot es k * 32) d [] true := by
  have hfree : ∀ d ∈ ds'.drop n, d.Free := by
    intro d hd
    obtain ⟨m, hm⟩ := List.mem_iff_getElem?.mp hd
    rw [List.getElem?_drop] at hm
    exact hpacked.free _ d (Nat.le_add_right n m) hm
  have hfind := locateFrom_simpleOem nls chicagoMode name 0 hlive hfree
  rw [List.take_append_drop, hpacked.front, h.findIdx_flatMap, Nat.zero_mul] at hfind
  cases hk : es.findIdx? (LiveEntry.hasShortName ds (fatStringTo8dot3 name)) with
  | none =>
      rw [hk] at hfind
      exact hfind
  | some k =>
      rw [hk] at hfind
      simpa [fatLocateSimpleOemDirent] using hfind

end Search

/-! ## The open files -/

section Files

variable {nls : Nls} {chicagoMode : Bool} {ds : List Dirent} {es : List LiveEntry}

theorem lost_zero {flush : Bool} {lookup : ℕ → Bool} {f : OpenFcb} {fs : List OpenFcb}
    (hf : f.isFileDeleted = false) :
    Lost flush lookup (f :: fs) 0 ↔ (flush || lookup 0) = true := by
  rw [Lost, Bool.or_eq_true]
  refine or_congr_right ⟨?_, fun h => ⟨0, f, le_rfl, rfl, hf, h⟩⟩
  rintro ⟨j, g, hj, -, -, hraises⟩
  exact Nat.le_zero.mp hj ▸ hraises

theorem lost_succ {flush : Bool} {lookup : ℕ → Bool} {f : OpenFcb} {fs : List OpenFcb} {i : ℕ} :
    Lost flush lookup (f :: fs) (i + 1) ↔
      Lost (flush || (!f.isFileDeleted && lookup 0)) (fun j => lookup (j + 1)) fs i := by
  rw [Lost, Lost, Bool.or_eq_true, Bool.and_eq_true, Bool.not_eq_true', or_assoc]
  refine or_congr_right ⟨?_, ?_⟩
  · rintro ⟨j, g, hj, hg, hdel, hraises⟩
    cases j with
    | zero =>
        obtain rfl := Option.some.inj hg
        exact .inl ⟨hdel, hraises⟩
    | succ j => exact .inr ⟨j, g, Nat.le_of_succ_le_succ hj, hg, hdel, hraises⟩
  · rintro (⟨hdel, hraises⟩ | ⟨j, g, hj, hg, hdel, hraises⟩)
    · exact ⟨0, f, Nat.zero_le _, rfl, hdel, hraises⟩
    · exact ⟨j + 1, g, Nat.succ_le_succ hj, hg, hdel, hraises⟩

/-- What the loop does with a file.  The induction is on the files before it. -/
theorem getElem?_fixUpFcbs (nls : Nls) (chicagoMode removableMedia : Bool) (ds : List Dirent)
    (lookup : ℕ → Bool) (flush : Bool) {queue : List OpenFcb} {i : ℕ} {f : OpenFcb} (hf : queue[i]? = some f)
    (hdel : f.isFileDeleted = false) :
    ∃ invalidate, (invalidate = true ↔ Lost flush lookup queue i) ∧
      (fixUpFcbs nls chicagoMode removableMedia ds lookup flush queue)[i]? =
        some (fixUpFcb nls chicagoMode removableMedia ds invalidate f) := by
  induction queue generalizing flush lookup i with
  | nil => cases hf
  | cons g fs ih =>
      rw [fixUpFcbs]
      cases i with
      | zero =>
          obtain rfl := Option.some.inj hf
          rw [hdel]
          exact ⟨flush || lookup 0, (lost_zero hdel).symm, rfl⟩
      | succ i =>
          have hrec := ih (fun j => lookup (j + 1)) (flush || (!g.isFileDeleted && lookup 0)) hf
          rw [lost_succ]
          cases hg : g.isFileDeleted <;> simpa [hg] using hrec

theorem sub_sub_cancel_ofNat {first slot first' : ℕ} (h : first ≤ slot) :
    UInt32.ofNat (32 * (first' + (slot - first))) -
      (UInt32.ofNat (32 * slot) - UInt32.ofNat (32 * first)) = UInt32.ofNat (32 * first') := by
  obtain ⟨w, rfl⟩ := Nat.exists_eq_add_of_le h
  rw [Nat.add_sub_cancel_left, Nat.mul_add, Nat.mul_add, UInt32.ofNat_add, UInt32.ofNat_add]
  grind

theorem movedFirst_le_sum (es : List LiveEntry) (k : ℕ) :
    movedFirst es k ≤ (es.map LiveEntry.width).sum := by
  calc movedFirst es k ≤ movedFirst es (max k es.length) := movedFirst_le (le_max_left ..)
    _ = (es.map LiveEntry.width).sum := by rw [movedFirst, List.take_of_length_le (le_max_right ..)]

theorem ofNat_inj {a b : ℕ} (ha : 32 * a < 2 ^ 32) (hb : 32 * b < 2 ^ 32)
    (h : UInt32.ofNat (32 * a) = UInt32.ofNat (32 * b)) : a = b := by
  have hnat := congrArg UInt32.toNat h
  rw [UInt32.toNat_ofNat_of_lt' ha, UInt32.toNat_ofNat_of_lt' hb] at hnat
  omega

/-- A packed directory is not longer than before. -/
theorem Packed.sum_width_le {n : ℕ} {ds' : List Dirent} (h : EntriesFrom ds 0 es)
    (hpacked : Packed ds es n ds') (hlen : ds'.length = ds.length) :
    (es.map LiveEntry.width).sum ≤ ds.length := by
  rw [← h.length_flatMap, ← hpacked.front, ← hlen]
  exact List.length_take_le' n ds'

section Owned

variable {own : ℕ → Option ℕ} {queue : List OpenFcb} {i k n : ℕ} {f : OpenFcb} {e : LiveEntry}
  {ds' : List Dirent}

theorem EntriesFrom.mem {q : ℕ} (h : EntriesFrom ds q es) (he : e ∈ es) :
    e.first ≤ e.slot ∧ e.slot < ds.length := by
  induction es generalizing q with
  | nil => cases he
  | cons e' es ih =>
      rcases List.mem_cons.mp he with rfl | he
      · obtain ⟨d, hd, -⟩ := h.1.own
        exact ⟨h.1.first_le, (List.getElem?_eq_some_iff.mp hd).1⟩
      · exact ih h.2 he

theorem Owner.movedSlot_eq (ho : Owner own es queue i f k e) :
    movedSlot es k = movedFirst es k + (e.slot - e.first) := by
  rw [movedSlot, ho.entry]
  rfl

/-- A file that the disk lets the loop look for points to its entry if its name leads there. -/
theorem Owner.pointsTo_fixUpFcb_iff {removableMedia : Bool} (ho : Owner own es queue i f k e)
    (h : EntriesFrom ds 0 es) (hsize : 32 * ds.length ≤ 0x40000) (hpacked : Packed ds es n ds')
    (hlen : ds'.length = ds.length) (hlive : ∀ d ∈ ds'.take n, ¬ d.Free) :
    (fixUpFcb nls chicagoMode removableMedia ds' false f).PointsTo (movedFirst es k)
        (movedFirst es k + (e.slot - e.first)) ↔
      LeadsTo ds es (fatStringTo8dot3 f.shortName) k := by
  obtain ⟨hfirst, hslot⟩ := h.mem (List.mem_of_getElem? ho.entry)
  have hsum := hpacked.sum_width_le h hlen
  have hmoved := movedFirst_le_sum es k
  have hlt := (movedSlot_lt h ho.entry).trans_le (movedFirst_le_sum es (k + 1))
  have hfind := hpacked.locate h nls chicagoMode f.shortName hlive
  obtain ⟨hdirent, hlfn⟩ := ho.points
  rw [fixUpFcb, if_neg (by decide), LeadsTo]
  cases hk : es.findIdx? (LiveEntry.hasShortName ds (fatStringTo8dot3 f.shortName)) with
  | none =>
      rw [hk] at hfind
      have hnone := List.findIdx?_eq_none_iff.mp hk
      have hmark : ∀ c, (f.markCondition removableMedia c).PointsTo (movedFirst es k)
          (movedFirst es k + (e.slot - e.first)) ↔ movedFirst es k = e.first := by
        intro c
        have hoffsets : (f.markCondition removableMedia c).PointsTo (movedFirst es k)
            (movedFirst es k + (e.slot - e.first)) ↔
              f.PointsTo (movedFirst es k) (movedFirst es k + (e.slot - e.first)) := by
          rw [OpenFcb.markCondition]
          split <;> rfl
        rw [hoffsets, OpenFcb.PointsTo, hdirent, hlfn]
        constructor
        · rintro ⟨-, heq⟩
          exact (ofNat_inj (by omega) (by omega) heq).symm
        · intro heq
          have hslot' : e.first + (e.slot - e.first) = e.slot := by omega
          rw [heq, hslot']
          exact ⟨rfl, rfl⟩
      rw [hfind]
      dsimp only
      rw [hmark]
      constructor
      · exact fun heq => .inr ⟨hnone, fun e' he' => Option.some.inj (ho.entry.symm.trans he') ▸ heq⟩
      · rintro (habs | ⟨-, hstays⟩)
        · cases habs
        · exact hstays e ho.entry
  | some k' =>
      rw [hk] at hfind
      obtain ⟨d, hd⟩ := hfind
      obtain ⟨hk'lt, hnamed, -⟩ := List.findIdx?_eq_some_iff_getElem.mp hk
      have hk' : es[k']? = some es[k'] := List.getElem?_eq_getElem hk'lt
      have hlt' := (movedSlot_lt h hk').trans_le (movedFirst_le_sum es (k' + 1))
      rw [hd]
      dsimp only
      rw [Nat.mul_comm, ← ho.movedSlot_eq]
      constructor
      · rintro ⟨heq, -⟩
        have hslots : movedSlot es k' = movedSlot es k := ofNat_inj (by omega) (by omega) heq
        exact .inl (congrArg some (movedSlot_inj h hk' ho.entry hslots))
      · rintro (heq | ⟨hnone, -⟩)
        · obtain rfl := Option.some.inj heq
          refine ⟨rfl, ?_⟩
          simp only [OpenFcb.moveTo, hdirent, hlfn, ho.movedSlot_eq]
          exact sub_sub_cancel_ofNat hfirst
        · rw [hnone _ (List.getElem_mem hk'lt)] at hnamed
          cases hnamed

end Owned

theorem fcbsMoved_iff {io : FixUpIo} {own : ℕ → Option ℕ} {s : ParentDcb} {n : ℕ}
    {ds' : List Dirent} (h : EntriesFrom s.dcb.dirents 0 es)
    (hsize : 32 * s.dcb.dirents.length ≤ 0x40000) (hpacked : Packed s.dcb.dirents es n ds')
    (hlen : ds'.length = s.dcb.dirents.length) (hlive : ∀ d ∈ ds'.take n, ¬ d.Free) :
    FcbsMoved io own es s (fixUpFcbs nls chicagoMode s.removableMedia ds' io.lookupRaises
        io.flushRaises s.parentDcbQueue) ↔ NamesLead io own s es := by
  constructor
  · intro hmoved i f k e ho hlost
    obtain ⟨invalidate, hinv, hget⟩ := getElem?_fixUpFcbs nls chicagoMode s.removableMedia ds'
      io.lookupRaises io.flushRaises ho.queued ho.undeleted
    obtain ⟨f', hf', -, hpoints⟩ := hmoved i f k e ho
    obtain rfl := Option.some.inj (hget.symm.trans hf')
    have hfalse : invalidate = false := Bool.eq_false_iff.mpr fun htrue => hlost (hinv.mp htrue)
    rw [hfalse] at hpoints
    exact (ho.pointsTo_fixUpFcb_iff h hsize hpacked hlen hlive).mp (hpoints hlost)
  · intro hnames i f k e ho
    obtain ⟨invalidate, hinv, hget⟩ := getElem?_fixUpFcbs nls chicagoMode s.removableMedia ds'
      io.lookupRaises io.flushRaises ho.queued ho.undeleted
    refine ⟨_, hget, fun hlost => ?_, fun hlost => ?_⟩
    · rw [hinv.mpr hlost]
      rfl
    · have hfalse : invalidate = false := Bool.eq_false_iff.mpr fun htrue => hlost (hinv.mp htrue)
      rw [hfalse]
      exact (ho.pointsTo_fixUpFcb_iff h hsize hpacked hlen hlive).mpr (hnames i f k e ho hlost)

end Files

/-! ## The calls that come out right -/

section Calls

variable {nls : Nls} {chicagoMode : Bool} {io : FixUpIo} {c : DirentCall} {direntsNeeded : ℕ}
  {own : ℕ → Option ℕ} {s : ParentDcb}

/-- A refused call changes nothing. -/
theorem keepsLiveEntries_of_refused (h : Refused chicagoMode c direntsNeeded s.dcb.dirents) :
    KeepsLiveEntries nls chicagoMode io c direntsNeeded own s := by
  rw [KeepsLiveEntries, ParentDcb.fatDefragDirectory_eq, fatDefragDirectory_eq]
  by_cases hsize : 0x40000 < 32 * s.dcb.dirents.length
  · rw [if_pos hsize]
  rw [if_neg hsize]
  by_cases hfault : c.fault = some .compacting
  · rw [if_pos hfault]
  rw [if_neg hfault]
  have hroom := (h.resolve_left hsize).resolve_left hfault
  cases hes : liveEntries chicagoMode s.dcb.dirents with
  | none => rfl
  | some es =>
      have hless := hroom es hes
      have hspec := liveEntries_spec hes
      have htotal := runsTotal_le hspec.runsFrom
      have hend := (length_unusedDirents hspec.runsFrom (Nat.zero_le _)).2
      rw [runsTotal_eq] at htotal
      dsimp only
      rw [if_pos (by omega)]

/-- For every directory, every set of open files and every failure of the disk. -/
theorem keepsLiveEntries_iff :
    KeepsLiveEntries nls chicagoMode io c direntsNeeded own s ↔
      Defragmentable chicagoMode io c direntsNeeded own s := by
  by_cases href : Refused chicagoMode c direntsNeeded s.dcb.dirents
  · exact iff_of_true (keepsLiveEntries_of_refused href) (.inl href)
  rw [Defragmentable, or_iff_right href, KeepsLiveEntries, ParentDcb.fatDefragDirectory_eq,
    fatDefragDirectory_eq]
  simp only [Refused, not_or, not_lt, not_forall] at href
  obtain ⟨hsize, hfault, es, hes, hroom⟩ := href
  have hspec := liveEntries_spec hes
  have hruns := hspec.runsFrom
  have hlen := length_compacted hruns
  rw [if_neg (by omega), if_neg hfault, hes]
  dsimp only
  rw [if_neg (by omega)]
  dsimp only
  have hlive : ∀ d ∈ (compacted s.dcb.dirents (es.map LiveEntry.run)).take (slotsNeeded es),
      ¬ d.Free := by
    intro d hd
    obtain ⟨m, hm⟩ := List.mem_iff_getElem?.mp hd
    rw [List.getElem?_take] at hm
    split at hm
    · next hlt => exact live_compacted hruns (runsTotal_eq es ▸ hlt) hm
    · cases hm
  have hone : ∀ {P : List LiveEntry → Prop}, (∃ es', some es = some es' ∧ P es') ↔ P es := by
    intro P
    simp
  rw [hone, hone]
  constructor
  · rintro ⟨hpacked, hmoved⟩
    obtain ⟨hpad, hcovered⟩ := hspec.packed_iff.mp hpacked
    exact ⟨hpad, hcovered, (fcbsMoved_iff hspec hsize hpacked hlen hlive).mp hmoved⟩
  · rintro ⟨hpad, hcovered, hnames⟩
    have hpacked := hspec.packed_iff.mpr ⟨hpad, hcovered⟩
    exact ⟨hpacked, (fcbsMoved_iff hspec hsize hpacked hlen hlive).mpr hnames⟩

end Calls

/-! ## A directory that does not come out right -/

/-- The short dirent of a file with a name of one letter. -/
def shortLetter (c : UInt8) : Dirent :=
  (setFileName Dirent.zero (fatStringTo8dot3 [c])).setByte 11 0x20

/-- A full root directory: deleted slots and seven files in turn, and at the end a long-name
dirent that belongs to no file. -/
def orphanRoot : ParentDcb where
  dcb :=
    { dirents := ([0x41, 0x42, 0x43, 0x44, 0x45, 0x46, 0x47].flatMap fun c =>
        [Dirent.zero.markDeleted, shortLetter c]) ++
          [Dirent.zero.markDeleted, lfnPiece [0x54] (fatComputeLfnChecksum (shortLetter 0x54)) 1]
      freeDirentBitmap := ⟨16, fun i => i % 2 = 1⟩
      unusedDirentVbo := some 16
      deletedDirentHint := 0 }
  parentDcbQueue := []
  removableMedia := false

/-- Two slots are asked for.  Slot 7 is returned, and slot 15 is in use. -/
theorem not_keepsLiveEntries_orphanRoot :
    ¬ KeepsLiveEntries Nls.ascii true ⟨false, fun _ => false⟩ ⟨none, fun _ => false⟩ 2
      (fun _ => none) orphanRoot := by
  intro h
  have hes : liveEntries true orphanRoot.dcb.dirents =
      some ([1, 3, 5, 7, 9, 11, 13].map fun i => ⟨i, i, []⟩) := by decide +kernel
  rw [KeepsLiveEntries, ParentDcb.fatDefragDirectory_eq, fatDefragDirectory_eq,
    if_neg (by decide), if_neg (by decide), hes] at h
  dsimp only at h
  rw [if_neg (by decide)] at h
  obtain ⟨es, -, hpacked, -⟩ := h
  have hslot : (compacted orphanRoot.dcb.dirents
      (([1, 3, 5, 7, 9, 11, 13].map fun i => (⟨i, i, []⟩ : LiveEntry)).map LiveEntry.run))[15]? =
        some (lfnPiece [0x54] (fatComputeLfnChecksum (shortLetter 0x54)) 1) := by decide +kernel
  exact absurd (hpacked.free 15 _ (by decide) hslot) (by decide +kernel)

end KernelDrivers.Fat
