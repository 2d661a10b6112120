import Mathlib.Data.List.DropRight
import Mathlib.Tactic

/-!
# Directory entries

A dirent is thirty-two bytes.  An entry of the 8.3 name space and an entry that holds
thirteen units of a long name are two views of them, told apart by the attributes.

## Main definitions

* `Dirent` — the bytes, with the fields of the two views.
* `fatStringTo8dot3`, `fat8dot3ToString` — short names on disk and as strings.
* `fatComputeLfnChecksum` — what ties long-name dirents to the short one.
* `fatConstructDirent` — write a short dirent and the long-name dirents before it.
-/

namespace KernelDrivers.Fat

structure Dirent where
  byte : Fin 32 → UInt8
  deriving DecidableEq

namespace Dirent

/-- Numerals are offsets of bytes. -/
instance instNeZeroLength : NeZero 32 := ⟨by decide⟩

/-- Two bytes, low byte first. -/
def word (d : Dirent) (o : Fin 32) : UInt16 :=
  UInt16.ofNat ((d.byte o).toNat + 256 * (d.byte (o + 1)).toNat)

def setByte (d : Dirent) (o : Fin 32) (b : UInt8) : Dirent := ⟨Function.update d.byte o b⟩

def setWord (d : Dirent) (o : Fin 32) (w : UInt16) : Dirent :=
  (d.setByte o (UInt8.ofNat w.toNat)).setByte (o + 1) (UInt8.ofNat (w.toNat / 256))

def fileName (d : Dirent) : List UInt8 :=
  [0, 1, 2, 3, 4, 5, 6, 7, 8, 9, 10].map d.byte

def attributes (d : Dirent) : UInt8 := d.byte 11

/-! The fields of a long-name dirent. -/

def ordinal (d : Dirent) : UInt8 := d.byte 0

def checksum (d : Dirent) : UInt8 := d.byte 13

def mustBeZero (d : Dirent) : UInt16 := d.word 26

/-- `Name1`, `Name2` and `Name3`. -/
def name (d : Dirent) : List UInt16 :=
  [1, 3, 5, 7, 9, 14, 16, 18, 20, 22, 24, 28, 30].map d.word

@[simp] theorem length_name (d : Dirent) : d.name.length = 13 := rfl

def neverUsed : UInt8 := 0x00
def really0e5 : UInt8 := 0x05
def deleted : UInt8 := 0xe5

def attrVolumeId : UInt8 := 0x08
def attrLfn : UInt8 := 0x0f

/-- `FAT_LAST_LONG_ENTRY`, in the ordinal. -/
def lastLongEntry : UInt8 := 0x40

end Dirent

/-! ## Short names -/

/-- A string as the eleven bytes of an 8.3 name.  An extension of more than three bytes,
which no legal name has, is cut. -/
def fatStringTo8dot3 (s : List UInt8) : List UInt8 :=
  let base := (s.takeWhile (· ≠ 0x2e)).take 11
  let extension := (s.drop (base.length + 1)).take 3
  let blanks := List.replicate 11 0x20
  let out := base ++ blanks.drop base.length
  let out := out.take 8 ++ extension ++ out.drop (8 + extension.length)
  match out with
  | 0xe5 :: cs => Dirent.really0e5 :: cs
  | cs => cs

/-- The eleven bytes of an 8.3 name as a string, in the case they have. -/
def fat8dot3ToString (d : Dirent) : List UInt8 :=
  let base := (d.fileName.take 8).rdropWhile (· = 0x20)
  let extension := (d.fileName.drop 8).rdropWhile (· = 0x20)
  let base := match base with
    | 0x05 :: cs => 0xe5 :: cs
    | cs => cs
  if extension = [] then base else base ++ 0x2e :: extension

def fatComputeLfnChecksum (d : Dirent) : UInt8 :=
  match d.fileName with
  | [] => 0
  | c :: cs => cs.foldl (fun sum b => (if sum &&& 1 ≠ 0 then (0x80 : UInt8) else 0) + (sum >>> 1) + b) c

/-- `FAT_LFN_DIRENTS_NEEDED`: thirteen units go into a dirent. -/
def fatLfnDirentsNeeded (lfn : List UInt16) : ℕ := (lfn.length + 12) / 13

/-! ## Writing dirents -/

/-- A time stamp as dirents hold it. -/
structure FatTime where
  time : UInt16
  date : UInt16
  tenMsecs : UInt8

/-- The system time and its conversion, which fails for years that do not fit. -/
structure Clock where
  systemTime : ℤ
  fatNtTimeToFatTime : ℤ → Bool → Option FatTime

/-- The creation time: the tunneled one, else the current one, else zero. -/
def creationTime (clock : Clock) (setCreationTime : Option ℤ) : FatTime :=
  ((setCreationTime.bind (clock.fatNtTimeToFatTime · false)).orElse fun _ =>
    clock.fatNtTimeToFatTime clock.systemTime false).getD ⟨0, 0, 0⟩

def setCreationFields (d : Dirent) (t : FatTime) : Dirent :=
  ((d.setWord 14 t.time).setWord 16 t.date).setByte 13 t.tenMsecs

/-- The time fields of a dirent that is initialised or gets a creation time. -/
def setTimeFields (clock : Clock) (chicagoMode zeroAndSetTimeFields : Bool)
    (setCreationTime : Option ℤ) (d : Dirent) : Dirent :=
  let d := if chicagoMode then setCreationFields d (creationTime clock setCreationTime) else d
  if zeroAndSetTimeFields then
    let now := (clock.fatNtTimeToFatTime clock.systemTime true).getD ⟨0, 0, 0⟩
    let d := (d.setWord 22 now.time).setWord 24 now.date
    if chicagoMode then d.setWord 18 now.date else d
  else d

/-- Fill in the eleven bytes of the name. -/
def setFileName (d : Dirent) (name : List UInt8) : Dirent :=
  ⟨fun o => if o.val < 11 then name.getD o.val 0 else d.byte o⟩

/-- What `FatConstructDirent` is told of the short dirent. -/
structure DirentFields where
  fileName : List UInt8
  componentReallyLowercase : Bool
  extensionReallyLowercase : Bool
  attributes : UInt8
  zeroAndSetTimeFields : Bool
  setCreationTime : Option ℤ

/-- The short dirent, from what its slot holds. -/
def constructShort (clock : Clock) (chicagoMode : Bool) (f : DirentFields) (d : Dirent) : Dirent :=
  let d := if f.zeroAndSetTimeFields then ⟨fun _ => 0⟩ else d
  let d := setFileName d (fatStringTo8dot3 f.fileName)
  let d := if f.zeroAndSetTimeFields || f.setCreationTime.isSome then
      setTimeFields clock chicagoMode f.zeroAndSetTimeFields f.setCreationTime d else d
  let d := d.setByte 11 f.attributes
  d.setByte 12 ((if f.componentReallyLowercase then 0x08 else 0) |||
    (if f.extensionReallyLowercase then 0x10 else 0))

/-- The thirteen units that the dirent with an ordinal gets.  The last one is filled up with
a terminator and `0xffff` when the name leaves room in it. -/
def lfnBuffer (lfn : List UInt16) (needed ordinal : ℕ) : List UInt16 :=
  let buffer := (lfn.drop ((ordinal - 1) * 13)).take 13
  let remainderChars := lfn.length % 13
  if ordinal = needed ∧ remainderChars ≠ 0 then
    buffer.take remainderChars ++ 0x0000 :: List.replicate (12 - remainderChars) 0xffff
  else buffer

/-- The low and the high byte of a unit. -/
def unitBytes (buffer : List UInt16) (k : ℕ) : List UInt8 :=
  [UInt8.ofNat (buffer.getD k 0).toNat, UInt8.ofNat ((buffer.getD k 0).toNat / 256)]

/-- A long-name dirent.  Its fields fill the thirty-two bytes. -/
def lfnDirent (ordinal checksum : UInt8) (buffer : List UInt16) : Dirent :=
  ⟨fun o => ([ordinal] ++ [0, 1, 2, 3, 4].flatMap (unitBytes buffer) ++
    [Dirent.attrLfn, 0, checksum] ++ [5, 6, 7, 8, 9, 10].flatMap (unitBytes buffer) ++
    [0, 0] ++ [11, 12].flatMap (unitBytes buffer)).getD o.val 0⟩

/-- The dirent that the loop writes at an ordinal. -/
def lfnPiece (lfn : List UInt16) (checksum : UInt8) (ordinal : ℕ) : Dirent :=
  let needed := fatLfnDirentsNeeded lfn
  lfnDirent (if ordinal = needed then UInt8.ofNat ordinal ||| Dirent.lastLongEntry
    else UInt8.ofNat ordinal) checksum (lfnBuffer lfn needed ordinal)

/-- The loop over the long-name dirents: `ordinal` of them are left, the next at slot `i`. -/
def constructLfn (lfn : List UInt16) (checksum : UInt8) :
    (ordinal i : ℕ) → List Dirent → List Dirent
  | 0, _, ds => ds
  | ordinal + 1, i, ds =>
      constructLfn lfn checksum ordinal (i + 1) (ds.set i (lfnPiece lfn checksum (ordinal + 1)))

/-- Write the short dirent at slot `i`, and the dirents of a long name before it. -/
def fatConstructDirent (clock : Clock) (chicagoMode : Bool) (f : DirentFields)
    (lfn : Option (List UInt16)) (i : ℕ) (ds : List Dirent) : List Dirent :=
  match ds[i]? with
  | none => ds
  | some d =>
      let short := constructShort clock chicagoMode f d
      let ds := ds.set i short
      match lfn with
      | none => ds
      | some lfn =>
          constructLfn lfn (fatComputeLfnChecksum short) (fatLfnDirentsNeeded lfn)
            (i - fatLfnDirentsNeeded lfn) ds

end KernelDrivers.Fat
