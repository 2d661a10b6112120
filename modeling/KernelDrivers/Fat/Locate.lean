import KernelDrivers.Fat.Dirent

/-!
# The search of a directory

`FatLocateDirent` walks over the slots of a directory and puts long names together on the
way: a dirent with the last-entry flag opens a run, dirents with falling ordinals continue it,
and a short dirent right behind the run takes the name if the checksum is its own.

## Main definitions

* `Nls` — the system's comparisons of names.
* `Ccb` — what to match.
* `LfnRun` — the long name in progress.
* `locateStep`, `fatLocateDirent` — one turn of the loop, and the search.
* `scanOver` — the state in which the loop leaves a part of the directory.
-/

namespace KernelDrivers.Fat

/-- The routines on names that the system exports. -/
structure Nls where
  isDbcsInExpression : (expression name : List UInt8) → Bool
  upcaseUnicodeString : List UInt16 → List UInt16
  isNameInExpression : (expression name : List UInt16) → Bool
  areNamesEqual : List UInt16 → List UInt16 → (ignoreCase : Bool) → Bool
  length_upcase : ∀ s, (upcaseUnicodeString s).length = s.length
  areNamesEqual_self : ∀ s ignoreCase, areNamesEqual s s ignoreCase = true

/-- The matching information of a context control block. -/
structure Ccb where
  matchAll : Bool
  matchVolumeId : Bool
  skipShortNameCompare : Bool
  queryTemplateMixed : Bool
  containsWildCards : Bool
  oemWild : List UInt8
  oemConstant : List UInt8
  unicodeQueryTemplate : List UInt16

namespace Ccb

variable (nls : Nls) (ccb : Ccb)

/-- The comparison with the short name. -/
def matchesShort (d : Dirent) : Bool :=
  if ccb.skipShortNameCompare then false
  else if ccb.containsWildCards then
    let name := fat8dot3ToString d
    -- `..` is compared as `.`, so that it matches `????????.???`
    let name := if name = [0x2e, 0x2e] ∧ 1 < ccb.oemWild.length then [0x2e] else name
    nls.isDbcsInExpression ccb.oemWild name
  else ccb.oemConstant = d.fileName

/-- The comparison with the long name. -/
def matchesLong (name : List UInt16) : Bool :=
  if ccb.containsWildCards then
    nls.isNameInExpression ccb.unicodeQueryTemplate (nls.upcaseUnicodeString name)
  else
    ccb.unicodeQueryTemplate.length = name.length &&
      nls.areNamesEqual ccb.unicodeQueryTemplate (nls.upcaseUnicodeString name)
        ccb.queryTemplateMixed

end Ccb

/-- A long name in progress.  `chars` are the units of the buffer from `index` on. -/
structure LfnRun where
  checksum : UInt8
  size : ℕ
  index : ℕ
  ordinal : ℕ
  byteOffset : ℕ
  chars : List UInt16
  deriving DecidableEq

/-- Take a dirent that continues the run; any other one ends it. -/
def LfnRun.next (r : LfnRun) (off : ℕ) (d : Dirent) : Option LfnRun :=
  if d.ordinal &&& Dirent.lastLongEntry ≠ 0 ∨ d.ordinal = 0 ∨ d.ordinal.toNat + 1 ≠ r.ordinal ∨
      d.checksum ≠ r.checksum ∨ d.mustBeZero ≠ 0 then none
  else some { r with
    index := r.index - 13
    ordinal := d.ordinal.toNat
    byteOffset := off
    chars := d.name ++ r.chars }

/-- The loop over the units of a last dirent: the size of the name, or `none` when something
other than `0xffff` stands behind the terminator. -/
def lfnSize : (index : ℕ) → (found : Option ℕ) → List UInt16 → Option ℕ
  | index, found, [] => some (found.getD index)
  | index, none, c :: cs => lfnSize (index + 1) (if c = 0 then some index else none) cs
  | index, some size, c :: cs => if c ≠ 0xffff then none else lfnSize (index + 1) (some size) cs

/-- Open a run at a dirent with the last-entry flag, if its tail is correct. -/
def LfnRun.start (off : ℕ) (d : Dirent) : Option LfnRun :=
  let ordinal := (d.ordinal &&& ~~~Dirent.lastLongEntry).toNat
  let index := (ordinal - 1) * 13
  (lfnSize index none d.name).map fun size =>
    { checksum := d.checksum, size, index, ordinal, byteOffset := off, chars := d.name }

/-- Whether a dirent is looked at as the last one of a name. -/
def Dirent.opensRun (d : Dirent) : Bool :=
  d.ordinal &&& Dirent.lastLongEntry ≠ 0 ∧
    (d.ordinal &&& ~~~Dirent.lastLongEntry).toNat ≤ 20 ∧ d.mustBeZero = 0

inductive Located
  | notFound
  | corrupt
  | found (byteOffset : ℕ) (dirent : Dirent) (longFileName : List UInt16) (fileNameDos : Bool)
  deriving DecidableEq

/-- The end of one turn of the loop. -/
inductive Turn
  | stop (result : Located)
  | go (run : Option LfnRun)
  deriving DecidableEq

/-- A turn at a long-name dirent. -/
def readLfn (off : ℕ) (d : Dirent) (run : Option LfnRun) : Turn :=
  match run.bind (LfnRun.next · off d) with
  | some r => .go (some r)
  | none =>
      if d.opensRun then
        if d.ordinal &&& ~~~Dirent.lastLongEntry = 0 then .stop .corrupt
        else .go (LfnRun.start off d)
      else .go none

/-- The long name that a short dirent takes from the run. -/
def validLfn (off : ℕ) (d : Dirent) (run : Option LfnRun) : Option (List UInt16) :=
  run.bind fun r =>
    if off = r.byteOffset + 32 ∧ r.index = 0 ∧ fatComputeLfnChecksum d = r.checksum then
      some (r.chars.take r.size)
    else none

section Search

variable (nls : Nls) (chicagoMode wantLfn : Bool) (ccb : Ccb)

/-- A turn at a short dirent. -/
def readShort (off : ℕ) (d : Dirent) (run : Option LfnRun) : Turn :=
  let lfn := validLfn off d run
  if ccb.matchAll then .stop (.found off d (lfn.getD []) false)
  else if ccb.matchesShort nls d then .stop (.found off d (lfn.getD []) true)
  else match lfn with
    | some name => if ccb.matchesLong nls name then .stop (.found off d name false) else .go run
    | none => .go run

/-- One turn of the loop, at a slot below the allocation size. -/
def locateStep (off : ℕ) (d : Dirent) (run : Option LfnRun) : Turn :=
  if d.ordinal = Dirent.neverUsed then .stop .notFound
  else if d.ordinal = Dirent.deleted then .go none
  else if chicagoMode ∧ wantLfn ∧ d.attributes = Dirent.attrLfn then readLfn off d run
  else if d.attributes &&& Dirent.attrVolumeId ≠ 0 then
    if ccb.matchVolumeId then .stop (.found off d [] false) else .go run
  else readShort nls ccb off d run

/-- The loop, over the slots that are left. -/
def locateFrom : (off : ℕ) → (run : Option LfnRun) → List Dirent → Located
  | _, _, [] => .notFound
  | off, run, d :: ds =>
      match locateStep nls chicagoMode wantLfn ccb off d run with
      | .stop result => result
      | .go run => locateFrom (off + 32) run ds

/-- The loop over some slots: its state behind them, unless it ends before. -/
def scanOver : (off : ℕ) → (run : Option LfnRun) → List Dirent → Option (Option LfnRun)
  | _, run, [] => some run
  | off, run, d :: ds =>
      match locateStep nls chicagoMode wantLfn ccb off d run with
      | .stop _ => none
      | .go run => scanOver (off + 32) run ds

/-- The contents of a directory, with an allocation size of 32 bits. -/
structure Directory where
  dirents : List Dirent
  size_lt : 32 * dirents.length < 2 ^ 32

/-- The slot at which the search from an offset begins.  The offset is rounded up in 32
bits. -/
def startSlot (offsetToStartSearchFrom : ℕ) : ℕ := (offsetToStartSearchFrom + 31) % 2 ^ 32 / 32

/-- Locate an undeleted dirent. -/
def fatLocateDirent (dir : Directory) (offsetToStartSearchFrom : ℕ) : Located :=
  let slot := startSlot offsetToStartSearchFrom
  locateFrom nls chicagoMode wantLfn ccb (slot * 32) none (dir.dirents.drop slot)

end Search

end KernelDrivers.Fat
