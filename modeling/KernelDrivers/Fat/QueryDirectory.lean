import KernelDrivers.Fat.Bpb
import KernelDrivers.Fat.FreeDirents
import KernelDrivers.Fat.ShortName
import KernelDrivers.Lib.Wire

/-!
# Listing a directory

`FatQueryDirectory` packs a record for each entry that `FatLocateDirent` yields into the user's
buffer.  A record is a fixed part, by the information class, and the name; its first field is the
distance to the next record, which starts at a multiple of eight.  The handle keeps the offset at
which the next call goes on.

## Main definitions

* `InfoClass`, `record` — the classes, and the bytes of a record.
* `QueryState` — the loop's variables.
* `fatQueryDirectory` — one call on a handle whose template matches all names.
* `entries` — what `FatLocateDirent` yields from an offset on.
-/

namespace KernelDrivers.Fat.QueryDir

/-- The handle's template matches all names, but no label. -/
def matchAllNames : Ccb := { Ccb.matchEverything with matchVolumeId := false }

/-- The `FILE_INFORMATION_CLASS`es that are supported. -/
inductive InfoClass
  | directory
  | fullDirectory
  | idFullDirectory
  | names
  | bothDirectory
  | idBothDirectory
  deriving DecidableEq, Repr

/-- `FIELD_OFFSET( …, FileName[0] )`. -/
def InfoClass.baseLength : InfoClass → ℕ
  | .directory => 64
  | .fullDirectory => 68
  | .idFullDirectory => 80
  | .names => 12
  | .bothDirectory => 94
  | .idBothDirectory => 104

/-- An entry as `FatLocateDirent` returns it. -/
structure Entry where
  byteOffset : ℕ
  dirent : Dirent
  longFileName : List UInt16

/-- The volume: its cluster size, the OEM code page, and what `FatGetDirTimes`, `FatGetEaLength` and
`FatGenerateFileIdFromDirentAndOffset` give for an entry. -/
structure Volume where
  nls : Nls
  chicagoMode : Bool
  isLead : UInt8 → Bool
  oemToUnicode : List UInt8 → List UInt16
  logOfBytesPerCluster : ℕ
  dirTimes : Dirent → List UInt8
  eaLength : Dirent → ℕ
  fileId : Dirent → ℕ → ℕ
  length_oemToUnicode : ∀ s, (oemToUnicode s).length ≤ s.length
  length_dirTimes : ∀ d, (dirTimes d).length = 32

/-- `QuadAlign`. -/
def quadAlign (n : ℕ) : ℕ := ulong (n + 7) / 8 * 8

def unicodeBytes (s : List UInt16) : List UInt8 := s.flatMap fun c => toBytes 2 c.toNat

section Record

variable (vol : Volume)

/-- The name of an entry without a long one, in its own case. -/
def shortName (d : Dirent) : List UInt8 :=
  unicodeBytes (vol.oemToUnicode (fat8dot3ToStringCased vol.isLead vol.chicagoMode true d))

def nameBytes (e : Entry) : List UInt8 :=
  if e.longFileName.length = 0 then shortName vol e.dirent else unicodeBytes e.longFileName

/-- `Dirent->FileSize`. -/
def fileSize (d : Dirent) : ℕ := ofBytes ([28, 29, 30, 31].map d.byte)

/-- The size in clusters, with the sums and products of a `ULONG`. -/
def allocationSize (d : Dirent) : ℕ :=
  -- FAT_DIRENT_ATTR_DIRECTORY
  if d.attributes &&& 0x10 ≠ 0 then 0
  else
    ulong (ulongSub (ulong (fileSize d + 2 ^ vol.logOfBytesPerCluster)) 1 /
      2 ^ vol.logOfBytesPerCluster * 2 ^ vol.logOfBytesPerCluster)

/-- The fields that `FILE_DIRECTORY_INFORMATION` has in front of the name. -/
def directoryFields (next nameLength : ℕ) (e : Entry) : List UInt8 :=
  toBytes 4 next ++ (toBytes 4 e.byteOffset ++ (vol.dirTimes e.dirent ++
    (toBytes 8 (fileSize e.dirent) ++ (toBytes 8 (allocationSize vol e.dirent) ++
      (toBytes 4 (if e.dirent.attributes ≠ 0 then e.dirent.attributes.toNat else 0x80) ++
        toBytes 4 nameLength)))))

/-- `ShortNameLength` and `ShortName`, which stay zero where the name itself is the short one. -/
def shortNameFields (e : Entry) : List UInt8 :=
  if e.longFileName.length = 0 then List.replicate 26 0
  else
    let name := unicodeBytes (vol.oemToUnicode (fat8dot3ToString e.dirent))
    toBytes 2 (UInt8.ofNat name.length).toNat ++ (name.take 24 ++ List.replicate (24 - name.length) 0)

/-- The fixed part of a record.  A record that is cut short gets no file id. -/
def baseFields (cls : InfoClass) (next nameLength fileId : ℕ) (e : Entry) : List UInt8 :=
  match cls with
  | .directory => directoryFields vol next nameLength e
  | .fullDirectory => directoryFields vol next nameLength e ++ toBytes 4 (vol.eaLength e.dirent)
  | .idFullDirectory =>
      directoryFields vol next nameLength e ++ (toBytes 4 (vol.eaLength e.dirent) ++
        (toBytes 4 0 ++ toBytes 8 fileId))
  | .names => toBytes 4 next ++ (toBytes 4 e.byteOffset ++ toBytes 4 nameLength)
  | .bothDirectory =>
      directoryFields vol next nameLength e ++ (toBytes 4 (vol.eaLength e.dirent) ++
        shortNameFields vol e)
  | .idBothDirectory =>
      directoryFields vol next nameLength e ++ (toBytes 4 (vol.eaLength e.dirent) ++
        (shortNameFields vol e ++ (toBytes 2 0 ++ toBytes 8 fileId)))

/-- A whole record, with the distance to the next one. -/
def record (cls : InfoClass) (next : ℕ) (e : Entry) : List UInt8 :=
  baseFields vol cls next (nameBytes vol e).length (vol.fileId e.dirent e.byteOffset) e ++
    nameBytes vol e

def recordLength (cls : InfoClass) (e : Entry) : ℕ := cls.baseLength + (nameBytes vol e).length

/-- The bytes of the name that go into the room behind the fixed part.  `RtlOemToUnicodeN` converts
whole units. -/
def bytesConverted (room : ℕ) (e : Entry) : ℕ :=
  if e.longFileName.length = 0 then min (nameBytes vol e).length (room / 2 * 2)
  else min (nameBytes vol e).length room

end Record

/-- The parameters of a call: the class, `SL_RETURN_SINGLE_ENTRY`, and the user's buffer. -/
structure Call where
  cls : InfoClass
  returnSingleEntry : Bool
  userBuffer : ℕ → UInt8
  userBufferLength : ℕ
  length_lt : userBufferLength < 2 ^ 32

/-- The handle: whether it has a template, and where the next call goes on. -/
structure Handle where
  matchAll : Bool
  offsetToStartSearchFrom : ℕ

inductive QueryStatus
  | success
  | noSuchFile
  | noMoreFiles
  | bufferOverflow
  | fileCorrupt
  deriving DecidableEq, Repr

/-- The loop's variables. -/
structure QueryState where
  buffer : ℕ → UInt8
  lastEntry : ℕ
  nextEntry : ℕ
  information : ℕ
  currentVbo : ℕ

/-- The end of a call.  `offset` is the handle's offset behind it. -/
structure Reply where
  status : QueryStatus
  information : ℕ
  buffer : ℕ → UInt8
  offset : ℕ

section Query

variable (vol : Volume) (dir : Directory) (c : Call)

def locate (offset : ℕ) : Located :=
  fatLocateDirent vol.nls vol.chicagoMode true matchAllNames dir offset

/-- `BytesRemainingInBuffer`. -/
def QueryState.remaining (st : QueryState) : ℕ := ulongSub c.userBufferLength st.nextEntry

/-- The next record does not fit behind others. -/
def QueryState.WontFit (st : QueryState) (e : Entry) : Prop :=
  st.nextEntry ≠ 0 ∧ (st.remaining c < recordLength vol c.cls e ∨ c.userBufferLength < st.nextEntry)

instance (st : QueryState) (e : Entry) : Decidable (st.WontFit vol c e) :=
  inferInstanceAs (Decidable (_ ∧ _))

/-- The bytes of the name that are copied. -/
def QueryState.converted (st : QueryState) (e : Entry) : ℕ :=
  bytesConverted vol (ulongSub (st.remaining c) c.cls.baseLength) e

/-- A record goes to `NextEntry`, and the record before it is linked to it. -/
def QueryState.write (st : QueryState) (e : Entry) : QueryState :=
  let name := nameBytes vol e
  let bytesConverted := st.converted vol c e
  let fileId := if bytesConverted < name.length then 0 else vol.fileId e.dirent e.byteOffset
  { st with
    buffer := place
      (place st.buffer st.nextEntry
        (baseFields vol c.cls 0 name.length fileId e ++ name.take bytesConverted))
      st.lastEntry (toBytes 4 (ulongSub st.nextEntry st.lastEntry))
    information := ulong (quadAlign st.information + c.cls.baseLength + bytesConverted) }

/-- The variables of the next turn. -/
def QueryState.advance (st : QueryState) (e : Entry) : QueryState :=
  { st.write vol c e with
    lastEntry := st.nextEntry
    nextEntry := ulong (st.nextEntry + quadAlign (c.cls.baseLength + st.converted vol c e))
    currentVbo := ulong (e.byteOffset + 32) }

def QueryState.finish (st : QueryState) (status : QueryStatus) : Reply where
  status := status
  information := st.information
  buffer := st.buffer
  offset := st.currentVbo

/-- The query loop.  `h` is the handle before the call. -/
def queryLoop (h : Handle) : ℕ → QueryState → Reply
  | 0, st => st.finish .success
  | n + 1, st =>
      if c.returnSingleEntry ∧ st.nextEntry ≠ 0 then st.finish .success
      else match locate vol dir st.currentVbo with
        | .corrupt => ⟨.fileCorrupt, 0, st.buffer, h.offsetToStartSearchFrom⟩
        | .notFound =>
            if st.nextEntry = 0 then
              -- UpdateCcb becomes FALSE
              { st.finish (if h.matchAll then .noMoreFiles else .noSuchFile) with
                offset := h.offsetToStartSearchFrom }
            else st.finish .success
        | .found off d lfn _ =>
            if st.WontFit vol c ⟨off, d, lfn⟩ then st.finish .success
            else if st.converted vol c ⟨off, d, lfn⟩ < (nameBytes vol ⟨off, d, lfn⟩).length then
              (st.write vol c ⟨off, d, lfn⟩).finish .bufferOverflow
            else queryLoop h n (st.advance vol c ⟨off, d, lfn⟩)

/-- `FatQueryDirectory`, without an index and without a restart.  Each turn passes a slot. -/
def fatQueryDirectory (h : Handle) : Reply :=
  queryLoop vol dir c h (dir.dirents.length + 1)
    ⟨c.userBuffer, 0, 0, 0, h.offsetToStartSearchFrom⟩

/-- The handle behind the call. -/
def Reply.handle (r : Reply) : Handle := ⟨true, r.offset⟩

/-- The first `n` entries that `FatLocateDirent` yields from an offset on, each search behind the
entry before. -/
def entriesFrom : (n offset : ℕ) → List Entry
  | 0, _ => []
  | n + 1, offset =>
      match locate vol dir offset with
      | .found off d lfn _ => ⟨off, d, lfn⟩ :: entriesFrom n (off + 32)
      | _ => []

/-- All entries from an offset on.  There are no more than slots. -/
def entries (offset : ℕ) : List Entry := entriesFrom vol dir dir.dirents.length offset

end Query

end KernelDrivers.Fat.QueryDir
