import KernelDrivers.Fat.Names
import KernelDrivers.Lib.Raise
import KernelDrivers.Lib.Splay

/-!
# The name trees of a directory

The names of the open files of a directory are in two splay trees: short names and long
names that are all OEM characters in one, other long names in Unicode in the other.
`FatConstructNamesInFcb` enters the names of a file and `FatRemoveNames` takes them out;
a name that is entered while another file has it evicts that file.

The test whether the evicted file is in normal state reads `FcbState`, a set of flags,
where it means `FcbCondition`: files in normal state are evicted, too.

## Main definitions

* `NameDcb` — the two trees and the files of one directory.
* `fatInsertName`, `fatRemoveNames`, `fatFindFcb`, `fatConstructNamesInFcb`.
* `Indexed d` — the trees are search trees of the names that the flags of the files tell.
-/

namespace KernelDrivers.Fat

/-- The condition of a file. -/
inductive FcbCondition
  | fcbGood
  | fcbBad
  | fcbNeedsToBeVerified
  deriving DecidableEq

/-- The number of a condition in the enumeration of the source. -/
def FcbCondition.value : FcbCondition → BitVec 32
  | .fcbGood => 1
  | .fcbBad => 2
  | .fcbNeedsToBeVerified => 3

/-! ## Flags -/

/-- A flag of `FcbState`. -/
inductive FcbFlag
  | pagingFile
  | namesInSplayTree
  | hasOemLongName
  | hasUnicodeLongName
  | eightLowerCase
  | threeLowerCase
  deriving DecidableEq

def FcbFlag.mask : FcbFlag → BitVec 32
  | .pagingFile => 0x4
  | .namesInSplayTree => 0x100
  | .hasOemLongName => 0x200
  | .hasUnicodeLongName => 0x400
  | .eightLowerCase => 0x1000
  | .threeLowerCase => 0x2000

def flagOn (state : BitVec 32) (f : FcbFlag) : Bool := decide (state &&& f.mask ≠ 0)

def setFlag (state : BitVec 32) (f : FcbFlag) : BitVec 32 := state ||| f.mask

def clearFlag (state : BitVec 32) (f : FcbFlag) : BitVec 32 := state &&& ~~~ f.mask

/-- The bit of a flag. -/
def FcbFlag.bit : FcbFlag → ℕ
  | .pagingFile => 2
  | .namesInSplayTree => 8
  | .hasOemLongName => 9
  | .hasUnicodeLongName => 10
  | .eightLowerCase => 12
  | .threeLowerCase => 13

theorem FcbFlag.mask_eq (f : FcbFlag) : f.mask = BitVec.twoPow 32 f.bit := by
  cases f <;> decide

theorem FcbFlag.bit_lt (f : FcbFlag) : f.bit < 32 := by
  cases f <;> decide

theorem FcbFlag.bit_injective : Function.Injective FcbFlag.bit := by
  intro f f' h
  cases f <;> cases f' <;> first | rfl | simp [bit] at h

theorem flagOn_eq_getLsbD (state : BitVec 32) (f : FcbFlag) :
    flagOn state f = state.getLsbD f.bit := by
  have hlt := f.bit_lt
  rw [flagOn, f.mask_eq, BitVec.and_twoPow]
  cases h : state.getLsbD f.bit with
  | false => simp
  | true =>
      simp only [if_true, ne_eq, decide_not, Bool.not_eq_true', decide_eq_false_iff_not]
      intro hzero
      have := congrArg (fun b => b.getLsbD f.bit) hzero
      simp [hlt] at this

@[simp] theorem flagOn_setFlag (state : BitVec 32) (f f' : FcbFlag) :
    flagOn (setFlag state f) f' = (decide (f = f') || flagOn state f') := by
  rw [flagOn_eq_getLsbD, flagOn_eq_getLsbD, setFlag, f.mask_eq, BitVec.getLsbD_or,
    BitVec.getLsbD_twoPow, Bool.or_comm]
  congr 1
  rw [decide_eq_true f.bit_lt, Bool.true_and]
  exact decide_eq_decide.mpr ⟨fun h => FcbFlag.bit_injective h, fun h => h ▸ rfl⟩

@[simp] theorem flagOn_clearFlag (state : BitVec 32) (f f' : FcbFlag) :
    flagOn (clearFlag state f) f' = (!decide (f = f') && flagOn state f') := by
  rw [flagOn_eq_getLsbD, flagOn_eq_getLsbD, clearFlag, f.mask_eq, BitVec.getLsbD_and,
    BitVec.getLsbD_not, BitVec.getLsbD_twoPow, Bool.and_comm, decide_eq_true f'.bit_lt,
    decide_eq_true f.bit_lt, Bool.true_and, Bool.true_and]
  congr 2
  exact decide_eq_decide.mpr ⟨fun h => FcbFlag.bit_injective h, fun h => h ▸ rfl⟩

/-! ## Files and trees -/

/-- A node of a tree: the file, the name, and whether it is the short name. -/
structure FileNameNode where
  fcb : ℕ
  name : Name
  fileNameDos : Bool
  deriving DecidableEq

/-- What an Fcb holds of its names.  The long name is the union of the source: which tree
it is for is in the flags. -/
structure NameFcb where
  fcbState : BitVec 32
  fcbCondition : FcbCondition
  shortName : Option Name
  longName : Option Name

inductive NameTree
  | oem
  | unicode
  deriving DecidableEq

/-- A directory: the roots of its two trees and the files that have it as parent. -/
structure NameDcb where
  rootOemNode : BinaryTree FileNameNode
  rootUnicodeNode : BinaryTree FileNameNode
  fcbs : ℕ → NameFcb
  removableMedia : Bool

namespace NameDcb

def root (d : NameDcb) : NameTree → BinaryTree FileNameNode
  | .oem => d.rootOemNode
  | .unicode => d.rootUnicodeNode

def setRoot (d : NameDcb) (t : NameTree) (root : BinaryTree FileNameNode) : NameDcb :=
  match t with
  | .oem => { d with rootOemNode := root }
  | .unicode => { d with rootUnicodeNode := root }

def updateFcb (d : NameDcb) (f : ℕ) (u : NameFcb → NameFcb) : NameDcb :=
  { d with fcbs := Function.update d.fcbs f (u (d.fcbs f)) }

/-- A flag of file `f`. -/
def on (d : NameDcb) (f : ℕ) (flag : FcbFlag) : Bool := flagOn (d.fcbs f).fcbState flag

@[simp] theorem root_setRoot_self (d : NameDcb) (t : NameTree) (root : BinaryTree FileNameNode) :
    (d.setRoot t root).root t = root := by cases t <;> rfl

@[simp] theorem root_setRoot_of_ne (d : NameDcb) {t t' : NameTree} (h : t ≠ t')
    (root : BinaryTree FileNameNode) : (d.setRoot t root).root t' = d.root t' := by
  cases t <;> cases t' <;> first | rfl | exact absurd rfl h

@[simp] theorem fcbs_setRoot (d : NameDcb) (t : NameTree) (root : BinaryTree FileNameNode) :
    (d.setRoot t root).fcbs = d.fcbs := by cases t <;> rfl

@[simp] theorem root_updateFcb (d : NameDcb) (f : ℕ) (u : NameFcb → NameFcb) (t : NameTree) :
    (d.updateFcb f u).root t = d.root t := by cases t <;> rfl

@[simp] theorem fcbs_updateFcb_self (d : NameDcb) (f : ℕ) (u : NameFcb → NameFcb) :
    (d.updateFcb f u).fcbs f = u (d.fcbs f) := Function.update_self ..

@[simp] theorem fcbs_updateFcb_of_ne (d : NameDcb) {f g : ℕ} (h : g ≠ f) (u : NameFcb → NameFcb) :
    (d.updateFcb f u).fcbs g = d.fcbs g := Function.update_of_ne h ..

end NameDcb

/-- How entering names stops: the machine is brought down, or the walk is restarted
without end. -/
inductive NameStop
  | bugCheck
  | outOfFuel
  deriving DecidableEq

section Routines

variable (rtl : SplayLinks FileNameNode)

/-- `FatMarkFcbCondition` of one file.  A paging file on fixed media stays good. -/
def fatMarkFcbCondition (f : ℕ) (condition : FcbCondition) (d : NameDcb) : NameDcb :=
  d.updateFcb f fun b =>
    if !d.removableMedia && flagOn b.fcbState .pagingFile then { b with fcbCondition := .fcbGood }
    else { b with fcbCondition := condition }

/-- Delete a node of file `f` from a tree. -/
def deleteName (t : NameTree) (f : ℕ) (name : Option Name) (dos : Bool) (d : NameDcb) : NameDcb :=
  match name with
  | none => d
  | some name => d.setRoot t (rtl.delete ⟨f, name, dos⟩ (d.root t))

/-- Take a long name out of its tree and free it. -/
def removeLongName (t : NameTree) (flag : FcbFlag) (f : ℕ) (d : NameDcb) : NameDcb :=
  if d.on f flag then
    (deleteName rtl t f (d.fcbs f).longName false d).updateFcb f fun b =>
      { b with longName := none, fcbState := clearFlag b.fcbState flag }
  else d

def fatRemoveNames (f : ℕ) (d : NameDcb) : NameDcb :=
  if d.on f .namesInSplayTree then
    let d := deleteName rtl .oem f (d.fcbs f).shortName true d
    let d := removeLongName rtl .oem .hasOemLongName f d
    let d := removeLongName rtl .unicode .hasUnicodeLongName f d
    d.updateFcb f fun b => { b with fcbState := clearFlag b.fcbState .namesInSplayTree }
  else d

/-- Enter a name.  `fuel` bounds the number of walks. -/
def fatInsertName (t : NameTree) (x : FileNameNode) : ℕ → EStateM NameStop NameDcb Unit
  | 0 => throw .outOfFuel
  | fuel + 1 => do
      let d ← get
      match insertLeaf (fun node => compareNames node.name x.name) x (d.root t) with
      | .ok root => set (d.setRoot t root)
      | .error node =>
          -- the test reads the flags of the file
          if (d.fcbs node.fcb).fcbState = FcbCondition.fcbGood.value then throw .bugCheck
          set (fatRemoveNames rtl node.fcb (fatMarkFcbCondition node.fcb .fcbBad d))
          fatInsertName t x fuel

/-- Look a name up.  A node that is found is splayed to the root. -/
def fatFindFcb (t : NameTree) (name : Name) (d : NameDcb) : Option FileNameNode × NameDcb :=
  match walk (fun node => compareNames node.name name) (d.root t) with
  | some node => (some node, d.setRoot t (rtl.splay node (d.root t)))
  | none => (none, d)

/-- What a file is named after: the short name of its dirent, the case flags of the
dirent, and the long name, which is empty when there is none. -/
structure NewNames where
  shortName : Name
  eightLower : Bool
  threeLower : Bool
  lfn : List UInt16

/-- The upper case of an ASCII character. -/
def oemUpcase (c : UInt16) : UInt8 :=
  if c < 0x61 then c.toUInt8 else if c ≤ 0x7a then (c - 0x20).toUInt8 else c.toUInt8

/-- A long name in OEM characters. -/
def oemName (lfn : List UInt16) (h : lfn ≠ []) : Name := ⟨lfn.map oemUpcase, by simpa using h⟩

/-- A long name in Unicode, as bytes.  `monocase` brings a character to its final case. -/
def unicodeName (monocase : UInt16 → UInt16) (lfn : List UInt16) (h : lfn ≠ []) : Name :=
  ⟨lfn.flatMap fun c => [(monocase c).toUInt8, (monocase c >>> 8).toUInt8], by
    cases lfn with
    | nil => exact absurd rfl h
    | cons c lfn => simp⟩

def setFlagTo (state : BitVec 32) (f : FcbFlag) (b : Bool) : BitVec 32 :=
  if b then setFlag state f else clearFlag state f

/-- Store a long name of file `f` and note its kind. -/
def setLongName (f : ℕ) (name : Name) (flag : FcbFlag) (d : NameDcb) : NameDcb :=
  d.updateFcb f fun b => { b with longName := some name, fcbState := setFlag b.fcbState flag }

/-- A long name that is not entered is freed. -/
def clearLongName (f : ℕ) (d : NameDcb) : NameDcb := d.updateFcb f fun b => { b with longName := none }

/-- Store the short name of file `f` with its case. -/
def setShortName (f : ℕ) (n : NewNames) (d : NameDcb) : NameDcb :=
  d.updateFcb f fun b =>
    { b with
      shortName := some n.shortName
      fcbState := setFlagTo (setFlagTo b.fcbState .eightLowerCase n.eightLower)
        .threeLowerCase n.threeLower }

/-- Store the long name of file `f`, unless the name is in the OEM tree anyway. -/
def buildLongName (monocase : UInt16 → UInt16) (f : ℕ) (n : NewNames) (d : NameDcb) : NameDcb :=
  if h : n.lfn = [] then d
  else if n.lfn.all (· < 0x80) then
    if n.shortName = oemName n.lfn h then clearLongName f d
    else
      match fatFindFcb rtl .oem (oemName n.lfn h) d with
      | (some _, d) => clearLongName f d
      | (none, d) => setLongName f (oemName n.lfn h) .hasOemLongName d
  else setLongName f (unicodeName monocase n.lfn h) .hasUnicodeLongName d

/-- The names of file `f`, before they are entered. -/
def buildNames (monocase : UInt16 → UInt16) (f : ℕ) (n : NewNames) (d : NameDcb) : NameDcb :=
  buildLongName rtl monocase f n (setShortName f n d)

/-- Enter the long name of file `f` if it has one for the tree. -/
def insertLongName (t : NameTree) (flag : FcbFlag) (f fuel : ℕ) : EStateM NameStop NameDcb Unit := do
  let d ← get
  if d.on f flag then
    match (d.fcbs f).longName with
    | some name => fatInsertName rtl t ⟨f, name, false⟩ fuel
    | none => pure ()

/-- Name file `f` and enter its names. -/
def fatConstructNamesInFcb (monocase : UInt16 → UInt16) (f : ℕ) (n : NewNames) (fuel : ℕ) :
    EStateM NameStop NameDcb Unit := do
  modify (buildNames rtl monocase f n)
  fatInsertName rtl .oem ⟨f, n.shortName, true⟩ fuel
  insertLongName rtl .oem .hasOemLongName f fuel
  insertLongName rtl .unicode .hasUnicodeLongName f fuel
  modify fun d => d.updateFcb f fun b => { b with fcbState := setFlag b.fcbState .namesInSplayTree }

end Routines

/-! ## Taking names out -/

/-- The nodes that the flags and names of the files tell for a tree. -/
def NameDcb.nodes (d : NameDcb) (t : NameTree) : Set FileNameNode :=
  { n | d.on n.fcb .namesInSplayTree ∧
    match t with
    | .oem => n.fileNameDos = true ∧ (d.fcbs n.fcb).shortName = some n.name ∨
        n.fileNameDos = false ∧ d.on n.fcb .hasOemLongName ∧ (d.fcbs n.fcb).longName = some n.name
    | .unicode => n.fileNameDos = false ∧ d.on n.fcb .hasUnicodeLongName ∧
        (d.fcbs n.fcb).longName = some n.name }

/-- The trees hold the nodes that the files tell, and those of `own`. -/
structure Listed (d : NameDcb) (own : NameTree → Set FileNameNode) : Prop where
  search : ∀ t, IsSearchTree FileNameNode.name (d.root t)
  mem : ∀ t n, n ∈ inorder (d.root t) ↔ n ∈ d.nodes t ∨ n ∈ own t

/-- The nodes with `P` are taken out of tree `t`. -/
structure Sheds (t : NameTree) (P : FileNameNode → Prop) (d d' : NameDcb) : Prop where
  search : ∀ t', IsSearchTree FileNameNode.name (d'.root t')
  mem : ∀ n, n ∈ inorder (d'.root t) ↔ n ∈ inorder (d.root t) ∧ ¬ P n
  other : ∀ t', t' ≠ t → d'.root t' = d.root t'

section Remove

variable (rtl : SplayLinks FileNameNode) {d : NameDcb} {f : ℕ} {t : NameTree}

theorem sheds_nothing {P : FileNameNode → Prop} (h : ∀ t, IsSearchTree FileNameNode.name (d.root t))
    (hP : ∀ n, ¬ P n) : Sheds t P d d :=
  ⟨h, fun n => (and_iff_left (hP n)).symm, fun _ _ => rfl⟩

theorem sheds_deleteName (name : Option Name) (dos : Bool)
    (h : ∀ t, IsSearchTree FileNameNode.name (d.root t))
    (hmem : ∀ x, name = some x → ⟨f, x, dos⟩ ∈ inorder (d.root t)) :
    Sheds t (fun n => n.fcb = f ∧ n.fileNameDos = dos ∧ name = some n.name) d
      (deleteName rtl t f name dos d) := by
  cases name with
  | none => exact sheds_nothing h fun n hn => by simp at hn
  | some x =>
      have hin := hmem x rfl
      have herase := rtl.inorder_delete hin (h t).nodup
      refine ⟨fun t' => ?_, fun n => ?_, fun t' ht' => ?_⟩
      · by_cases ht : t' = t
        · subst ht
          rw [deleteName, NameDcb.root_setRoot_self]
          exact (h t').of_sublist (herase ▸ List.erase_sublist)
        · rw [deleteName, NameDcb.root_setRoot_of_ne _ (Ne.symm ht)]
          exact h t'
      · rw [deleteName, NameDcb.root_setRoot_self, herase, (h t).nodup.mem_erase_iff, and_comm]
        obtain ⟨g, y, b⟩ := n
        simp only [FileNameNode.mk.injEq, Option.some.injEq, ne_eq, eq_comm (a := x),
          and_comm (a := y = x)]
      · rw [deleteName, NameDcb.root_setRoot_of_ne _ (Ne.symm ht')]

@[simp] theorem fcbs_deleteName (name : Option Name) (dos : Bool) :
    (deleteName rtl t f name dos d).fcbs = d.fcbs := by
  cases name with
  | none => rfl
  | some x => exact NameDcb.fcbs_setRoot _ _ _

@[simp] theorem on_deleteName (name : Option Name) (dos : Bool) (g : ℕ) (flag : FcbFlag) :
    (deleteName rtl t f name dos d).on g flag = d.on g flag := by
  rw [NameDcb.on, fcbs_deleteName, NameDcb.on]

theorem sheds_removeLongName (flag : FcbFlag)
    (h : ∀ t, IsSearchTree FileNameNode.name (d.root t))
    (hmem : ∀ x, d.on f flag → (d.fcbs f).longName = some x → ⟨f, x, false⟩ ∈ inorder (d.root t)) :
    Sheds t (fun n => n.fcb = f ∧ n.fileNameDos = false ∧ d.on f flag ∧
      (d.fcbs f).longName = some n.name) d (removeLongName rtl t flag f d) := by
  rw [removeLongName]
  split
  · next hon =>
      have hsheds := sheds_deleteName rtl (d.fcbs f).longName false h (hmem · hon)
      refine ⟨fun t' => ?_, fun n => ?_, fun t' ht' => ?_⟩
      · rw [NameDcb.root_updateFcb]
        exact hsheds.search t'
      · rw [NameDcb.root_updateFcb, hsheds.mem]
        simp [hon]
      · rw [NameDcb.root_updateFcb]
        exact hsheds.other t' ht'
  · next hoff => exact sheds_nothing h fun n hn => hoff hn.2.2.1

theorem fcbs_removeLongName_of_ne (flag : FcbFlag) {g : ℕ} (hg : g ≠ f) :
    (removeLongName rtl t flag f d).fcbs g = d.fcbs g := by
  rw [removeLongName]
  split
  · rw [NameDcb.fcbs_updateFcb_of_ne _ hg, fcbs_deleteName]
  · rfl

theorem on_removeLongName (flag flag' : FcbFlag) :
    (removeLongName rtl t flag f d).on f flag' = (!decide (flag = flag') && d.on f flag') := by
  rw [removeLongName]
  split
  · simp [NameDcb.on]
  · next hoff =>
      by_cases heq : flag = flag'
      · subst heq
        simpa using hoff
      · simp [heq]

theorem longName_removeLongName {flag : FcbFlag} (hoff : d.on f flag = false) :
    removeLongName rtl t flag f d = d := by
  rw [removeLongName, if_neg (by simp [hoff])]

/-- What taking the names of `f` out leaves of its flags. -/
theorem on_fatRemoveNames {flag : FcbFlag} (hon : d.on f .namesInSplayTree)
    (hflag : flag = .namesInSplayTree ∨ flag = .hasOemLongName ∨ flag = .hasUnicodeLongName) :
    (fatRemoveNames rtl f d).on f flag = false := by
  rw [fatRemoveNames, if_pos hon]
  simp only [NameDcb.on, NameDcb.fcbs_updateFcb_self, flagOn_clearFlag]
  change (!decide (FcbFlag.namesInSplayTree = flag) && NameDcb.on _ f flag) = false
  rw [on_removeLongName, on_removeLongName, on_deleteName]
  rcases hflag with rfl | rfl | rfl <;> simp

/-- Other files keep everything. -/
theorem fcbs_fatRemoveNames_of_ne {g : ℕ} (hg : g ≠ f) : (fatRemoveNames rtl f d).fcbs g = d.fcbs g := by
  rw [fatRemoveNames]
  split
  · dsimp only
    rw [NameDcb.fcbs_updateFcb_of_ne _ hg, fcbs_removeLongName_of_ne rtl _ hg,
      fcbs_removeLongName_of_ne rtl _ hg, fcbs_deleteName]
  · rfl

theorem NameDcb.nodes_congr {d d' : NameDcb} {n : FileNameNode}
    (h : d'.fcbs n.fcb = d.fcbs n.fcb) : n ∈ d'.nodes t ↔ n ∈ d.nodes t := by
  cases t <;> simp only [NameDcb.nodes, NameDcb.on, Set.mem_ofPred_eq, h]

/-- **Taking the names of a file out** takes exactly its nodes out of both trees. -/
theorem Listed.fatRemoveNames {own : NameTree → Set FileNameNode} (h : Listed d own)
    (hown : ∀ t n, n ∈ own t → n.fcb ≠ f) (hon : d.on f .namesInSplayTree)
    (hone : ¬ (d.on f .hasOemLongName ∧ d.on f .hasUnicodeLongName)) :
    Listed (fatRemoveNames rtl f d) own := by
  -- the three deletions
  have h1 := sheds_deleteName (f := f) (t := .oem) rtl (d.fcbs f).shortName true h.search
    fun x hx => (h.mem .oem _).mpr (Or.inl ⟨hon, Or.inl ⟨rfl, hx⟩⟩)
  generalize hd1 : deleteName rtl .oem f (d.fcbs f).shortName true d = d1 at h1
  have hf1 : d1.fcbs = d.fcbs := by rw [← hd1, fcbs_deleteName]
  have ho1 : ∀ flag, d1.on f flag = d.on f flag := fun flag => by rw [NameDcb.on, hf1, NameDcb.on]
  have h2 := sheds_removeLongName (d := d1) (f := f) (t := .oem) rtl .hasOemLongName h1.search
    fun x hx hlong => by
      rw [ho1] at hx
      rw [hf1] at hlong
      rw [h1.mem, h.mem]
      exact ⟨Or.inl ⟨hon, Or.inr ⟨rfl, hx, hlong⟩⟩, by simp⟩
  generalize hd2 : removeLongName rtl .oem .hasOemLongName f d1 = d2 at h2
  have ho2 : d2.on f .hasUnicodeLongName = d.on f .hasUnicodeLongName := by
    rw [← hd2, on_removeLongName, ho1]
    rfl
  have huni : d2.root .unicode = d.root .unicode := by
    rw [h2.other _ (by simp), h1.other _ (by simp)]
  have hf2 : d.on f .hasUnicodeLongName → (d2.fcbs f).longName = (d.fcbs f).longName := by
    intro hu
    have hoff : d1.on f .hasOemLongName = false := by
      rw [ho1]
      exact Bool.eq_false_iff.mpr fun ho => hone ⟨ho, hu⟩
    rw [← hd2, longName_removeLongName rtl hoff, hf1]
  have h3 := sheds_removeLongName (d := d2) (f := f) (t := .unicode) rtl .hasUnicodeLongName h2.search
    fun x hx hlong => by
      rw [ho2] at hx
      rw [hf2 hx] at hlong
      rw [huni, h.mem]
      exact Or.inl ⟨hon, rfl, hx, hlong⟩
  generalize hd3 : removeLongName rtl .unicode .hasUnicodeLongName f d2 = d3 at h3
  have hroot : ∀ t, (Fat.fatRemoveNames rtl f d).root t = d3.root t := by
    intro t
    rw [Fat.fatRemoveNames, if_pos hon]
    dsimp only
    rw [NameDcb.root_updateFcb, hd1, hd2, hd3]
  refine ⟨fun t => ?_, fun t n => ?_⟩
  · rw [hroot]
    exact h3.search t
  by_cases hn : n.fcb = f
  · -- none of its nodes is left
    refine iff_of_false (fun hmem => ?_) fun hnode => ?_
    · rw [hroot] at hmem
      cases t with
      | oem =>
          rw [h3.other _ (by simp), h2.mem, h1.mem, h.mem] at hmem
          obtain ⟨⟨hnode | ho, hshort⟩, hlong⟩ := hmem
          · obtain ⟨-, ⟨hdos, hname⟩ | ⟨hdos, hoem, hname⟩⟩ := hnode
            · exact hshort ⟨hn, hdos, hn ▸ hname⟩
            · exact hlong ⟨hn, hdos, by rw [ho1]; exact hn ▸ hoem, by rw [hf1]; exact hn ▸ hname⟩
          · exact hown _ _ ho hn
      | unicode =>
          rw [h3.mem, huni, h.mem] at hmem
          obtain ⟨hnode | ho, hlong⟩ := hmem
          · obtain ⟨-, hdos, hu, hname⟩ := hnode
            rw [hn] at hu hname
            exact hlong ⟨hn, hdos, by rw [ho2]; exact hu, by rw [hf2 hu]; exact hname⟩
          · exact hown _ _ ho hn
    · rcases hnode with hnode | ho
      · have hflag := hnode.1
        rw [hn, on_fatRemoveNames rtl hon (Or.inl rfl)] at hflag
        exact absurd hflag (by simp)
      · exact hown _ _ ho hn
  · rw [NameDcb.nodes_congr (fcbs_fatRemoveNames_of_ne rtl hn), ← h.mem, hroot]
    cases t with
    | oem =>
        rw [h3.other _ (by simp), h2.mem, h1.mem]
        simp [hn]
    | unicode =>
        rw [h3.mem, huni]
        simp [hn]

end Remove

/-! ## Entering a name -/

/-- The file in the way goes. -/
def evict (rtl : SplayLinks FileNameNode) (f : ℕ) (d : NameDcb) : NameDcb :=
  fatRemoveNames rtl f (fatMarkFcbCondition f .fcbBad d)

/-- One more node that no flag tells of yet. -/
def addOwn (own : NameTree → Set FileNameNode) (t : NameTree) (x : FileNameNode) (t' : NameTree) :
    Set FileNameNode := { n | n ∈ own t' ∨ t' = t ∧ n = x }

/-- No file with names in the trees has a long name in both. -/
def OneLongName (d : NameDcb) : Prop :=
  ∀ f, d.on f .namesInSplayTree → ¬ (d.on f .hasOemLongName ∧ d.on f .hasUnicodeLongName)

/-- The files of which a name was in the way of `x`, out of the trees. -/
inductive Evicted (rtl : SplayLinks FileNameNode) (t : NameTree) (x : FileNameNode) (d : NameDcb) :
    NameDcb → Prop
  | none : (∀ n ∈ inorder (d.root t), n.name ≠ x.name) → Evicted rtl t x d d
  | one (a : FileNameNode) : a ∈ d.nodes t → a.name = x.name → Evicted rtl t x d (evict rtl a.fcb d)

section Insert

variable (rtl : SplayLinks FileNameNode) {d : NameDcb} {f : ℕ} {t : NameTree} {x : FileNameNode}
  {own : NameTree → Set FileNameNode}

theorem fcbs_fatMarkFcbCondition_of_ne {c : FcbCondition} {g : ℕ} (hg : g ≠ f) :
    (fatMarkFcbCondition f c d).fcbs g = d.fcbs g := NameDcb.fcbs_updateFcb_of_ne _ hg _

theorem on_fatMarkFcbCondition (c : FcbCondition) (g : ℕ) (flag : FcbFlag) :
    (fatMarkFcbCondition f c d).on g flag = d.on g flag := by
  by_cases hg : g = f
  · subst hg
    rw [fatMarkFcbCondition, NameDcb.on, NameDcb.fcbs_updateFcb_self]
    split <;> rfl
  · rw [NameDcb.on, fcbs_fatMarkFcbCondition_of_ne hg, NameDcb.on]

theorem nodes_fatMarkFcbCondition (c : FcbCondition) (t : NameTree) :
    (fatMarkFcbCondition f c d).nodes t = d.nodes t := by
  have hnames : ∀ g, ((fatMarkFcbCondition f c d).fcbs g).shortName = (d.fcbs g).shortName ∧
      ((fatMarkFcbCondition f c d).fcbs g).longName = (d.fcbs g).longName := by
    intro g
    by_cases hg : g = f
    · subst hg
      rw [fatMarkFcbCondition, NameDcb.fcbs_updateFcb_self]
      split <;> exact ⟨rfl, rfl⟩
    · rw [fcbs_fatMarkFcbCondition_of_ne hg]
      exact ⟨rfl, rfl⟩
  ext n
  cases t <;> simp only [NameDcb.nodes, Set.mem_ofPred_eq, on_fatMarkFcbCondition, hnames]

theorem fcbs_evict_of_ne {g : ℕ} (hg : g ≠ f) : (evict rtl f d).fcbs g = d.fcbs g := by
  rw [evict, fcbs_fatRemoveNames_of_ne rtl hg, fcbs_fatMarkFcbCondition_of_ne hg]

theorem on_evict {flag : FcbFlag} (hon : d.on f .namesInSplayTree)
    (hflag : flag = .namesInSplayTree ∨ flag = .hasOemLongName ∨ flag = .hasUnicodeLongName) :
    (evict rtl f d).on f flag = false :=
  on_fatRemoveNames rtl (by rw [on_fatMarkFcbCondition]; exact hon) hflag

theorem Listed.evict (h : Listed d own) (hone : OneLongName d)
    (hown : ∀ t n, n ∈ own t → n.fcb ≠ f) (hon : d.on f .namesInSplayTree) :
    Listed (evict rtl f d) own := by
  have hmark : Listed (fatMarkFcbCondition f .fcbBad d) own := by
    refine ⟨fun t => ?_, fun t n => ?_⟩
    · rw [fatMarkFcbCondition, NameDcb.root_updateFcb]
      exact h.search t
    · rw [nodes_fatMarkFcbCondition, fatMarkFcbCondition, NameDcb.root_updateFcb]
      exact h.mem t n
  refine hmark.fatRemoveNames rtl hown ?_ ?_
  · rw [on_fatMarkFcbCondition]
    exact hon
  · rw [on_fatMarkFcbCondition, on_fatMarkFcbCondition]
    exact hone f hon

/-- A name that is not in the tree is entered by one walk. -/
theorem Listed.fatInsertName_of_free (h : Listed d own)
    (hfree : ∀ n ∈ inorder (d.root t), n.name ≠ x.name) (fuel : ℕ) :
    ∃ root, fatInsertName rtl t x (fuel + 1) d = .ok () (d.setRoot t root) ∧
      Listed (d.setRoot t root) (addOwn own t x) := by
  have hins := (h.search t).inserts_insertLeaf (x := x)
    (c := fun node => compareNames node.name x.name) fun a => compareNames_compares a.name x.name
  cases hrun : insertLeaf (fun node => compareNames node.name x.name) x (d.root t) with
  | error a =>
      rw [hrun] at hins
      exact absurd hins.2 (hfree a hins.1)
  | ok root =>
      rw [hrun] at hins
      obtain ⟨htree, hmem, -⟩ := hins
      refine ⟨root, ?_, fun t' => ?_, fun t' n => ?_⟩
      · rw [fatInsertName]
        rw [get_bind_run, hrun]
        rfl
      · by_cases ht : t' = t
        · subst ht
          rw [NameDcb.root_setRoot_self]
          exact htree
        · rw [NameDcb.root_setRoot_of_ne _ (Ne.symm ht)]
          exact h.search t'
      · rw [NameDcb.nodes_congr (d := d) (by rw [NameDcb.fcbs_setRoot])]
        by_cases ht : t' = t
        · subst ht
          rw [NameDcb.root_setRoot_self, hmem, h.mem]
          simp only [addOwn, Set.mem_ofPred_eq, true_and]
          tauto
        · rw [NameDcb.root_setRoot_of_ne _ (Ne.symm ht), h.mem]
          simp [addOwn, ht]

/-- **Entering a name** evicts the file in the way, if there is one, and ends after at
most two walks. -/
theorem Listed.sat_fatInsertName (h : Listed d own) (hone : OneLongName d)
    (hown : ∀ t n, n ∈ own t → d.on n.fcb .namesInSplayTree = false)
    (hnew : ∀ n ∈ own t, n.name ≠ x.name) (fuel : ℕ) :
    Sat (fatInsertName rtl t x fuel) d
      (fun _ d' => ∃ d1 root, Evicted rtl t x d d1 ∧ d' = d1.setRoot t root ∧
        Listed d' (addOwn own t x))
      (fun stop _ => stop = .outOfFuel ∧ fuel < 2) := by
  cases fuel with
  | zero => exact Sat.throw ⟨rfl, by norm_num⟩
  | succ fuel =>
      by_cases hfree : ∀ n ∈ inorder (d.root t), n.name ≠ x.name
      · obtain ⟨root, hrun, hlisted⟩ := h.fatInsertName_of_free rtl hfree fuel
        exact Sat.of_ok hrun ⟨d, root, .none hfree, rfl, hlisted⟩
      · simp only [not_forall, not_not] at hfree
        obtain ⟨a, ha, hname⟩ := hfree
        have hnode : a ∈ d.nodes t := ((h.mem t a).mp ha).resolve_right fun ho => hnew a ho hname
        have hon : d.on a.fcb .namesInSplayTree := hnode.1
        have hins := (h.search t).inserts_insertLeaf (x := x)
          (c := fun node => compareNames node.name x.name) fun a => compareNames_compares a.name x.name
        cases hrun : insertLeaf (fun node => compareNames node.name x.name) x (d.root t) with
        | ok root =>
            rw [hrun] at hins
            exact absurd hname (hins.2.2 a ha)
        | error b =>
            rw [hrun] at hins
            obtain rfl : b = a := (h.search t).eq_of_key_eq hins.1 ha (hins.2.trans hname.symm)
            -- the flags of a file in the trees are never the number of `FcbGood`
            have hstate : (d.fcbs b.fcb).fcbState ≠ FcbCondition.fcbGood.value := by
              intro heq
              rw [NameDcb.on, heq] at hon
              exact absurd hon (by decide)
            have hlisted : Listed (Fat.evict rtl b.fcb d) own := h.evict rtl hone (fun t n hn heq => by
              have := hown t n hn
              rw [heq, hon] at this
              simp at this) hon
            have hgone : ∀ n ∈ inorder ((Fat.evict rtl b.fcb d).root t), n.name ≠ x.name := by
              intro n hn heq
              rcases (hlisted.mem t n).mp hn with hn' | ho
              · have hne : n.fcb ≠ b.fcb := by
                  intro hsame
                  have := hn'.1
                  rw [hsame, on_evict rtl hon (Or.inl rfl)] at this
                  simp at this
                have hold : n ∈ inorder (d.root t) :=
                  (h.mem t n).mpr (Or.inl ((NameDcb.nodes_congr (fcbs_evict_of_ne rtl hne)).mp hn'))
                exact hne (congrArg _ ((h.search t).eq_of_key_eq hold ha (heq.trans hname.symm)))
              · exact hnew n ho heq
            have hstep : fatInsertName rtl t x (fuel + 1) d =
                fatInsertName rtl t x fuel (Fat.evict rtl b.fcb d) := by
              rw [fatInsertName]
              rw [get_bind_run, hrun]
              dsimp only
              rw [if_neg hstate]
              rfl
            refine Sat.of_eq hstep ?_
            cases fuel with
            | zero => exact Sat.throw ⟨rfl, by norm_num⟩
            | succ fuel =>
                obtain ⟨root, hdone, hlisted'⟩ := hlisted.fatInsertName_of_free rtl hgone fuel
                exact Sat.of_ok hdone ⟨_, root, .one b hnode hname, rfl, hlisted'⟩

end Insert

end KernelDrivers.Fat
