import Mathlib.Data.Finset.Basic
import Mathlib.Data.Multiset.AddSub
import Mathlib.Tactic

/-!
# Close and the tree of Fcbs

`FatCommonClose` takes an open off its Fcb and then removes what is unreferenced, upwards from
there.  A directory is held by its user opens, by its children and by the stream file through
which its contents are cached.  When only the stream file is left, close dereferences it, and
the close of the stream file may come at once, inside the routine, or at any later time.

## Main definitions

* `FcbTree` — the Fcbs in memory, and the file objects that hold them.
* `fatDeleteFcb`, `closeParents`, `removeUnreferenced` — the removal.
* `Vcb.fatCommonClose`, `Vcb.finishClose` — a close, and its end when it had to drop the Vcb
  for the global lock.
* `Vcb.step` — what threads do, in any order.
-/

namespace KernelDrivers.Fat.Teardown

inductive NodeType
  | rootDcb
  | dcb
  | fcb
  deriving DecidableEq

/-- The fields of an Fcb that close reads.  `directoryFile` is whether the pointer to the
stream file is set. -/
structure Fcb where
  nodeType : NodeType
  parentDcb : Option ℕ
  openCount : ℕ
  directoryFile : Bool
  directoryFileOpenCount : ℕ
  deriving DecidableEq

/-- What held an Fcb in the moment in which it was freed. -/
structure Freed where
  id : ℕ
  userOpens : ℕ
  children : ℕ
  streamFiles : ℕ
  deriving DecidableEq

/-- The Fcbs of a volume.  `userOpens` are the file objects of users, `released` the stream
files that were dereferenced and whose close is still to come, both by the Fcb they are for. -/
structure FcbTree where
  live : Finset ℕ
  fcb : ℕ → Fcb
  userOpens : Multiset ℕ
  released : Multiset ℕ
  freed : List Freed

namespace FcbTree

/-- The Fcbs on the `ParentDcbQueue`. -/
def children (s : FcbTree) (id : ℕ) : Finset ℕ := {n ∈ s.live | (s.fcb n).parentDcb = some id}

/-- The stream files of a directory that are not closed. -/
def streamFiles (s : FcbTree) (id : ℕ) : ℕ :=
  s.released.count id + if (s.fcb id).directoryFile then 1 else 0

def modify (s : FcbTree) (id : ℕ) (f : Fcb → Fcb) : FcbTree :=
  { s with fcb := Function.update s.fcb id (f (s.fcb id)) }

/-- Free an Fcb.  A second free, the bug check and the assertions on directories are
failures. -/
def fatDeleteFcb (s : FcbTree) (id : ℕ) : Option FcbTree :=
  if id ∉ s.live then none
  else if (s.fcb id).openCount ≠ 0 then none
  else if (s.fcb id).nodeType ≠ .fcb ∧ ((s.fcb id).directoryFileOpenCount ≠ 0 ∨
      s.children id ≠ ∅ ∨ (s.fcb id).directoryFile) then none
  else some { s with
    live := s.live.erase id
    freed := s.freed ++ [⟨id, s.userOpens.count id, (s.children id).card, s.streamFiles id⟩] }

/-- The close of a stream file, as far as it goes inside another close. -/
def closeStream (s : FcbTree) (id : ℕ) : FcbTree :=
  s.modify id fun n => { n with directoryFileOpenCount := n.directoryFileOpenCount - 1 }

/-- Clear the pointer to the stream file and dereference it.  Its close comes in at once, or
later. -/
def dereference (atOnce : ℕ → Bool) (s : FcbTree) (id : ℕ) : FcbTree :=
  let s := s.modify id fun n => { n with directoryFile := false }
  if atOnce id then s.closeStream id else { s with released := id ::ₘ s.released }

/-- The loop over the parents.  Reading an Fcb that was freed is a failure. -/
def closeParents (atOnce : ℕ → Bool) : (fuel : ℕ) → Option ℕ → FcbTree → Option FcbTree
  | 0, _, _ => none
  | _ + 1, none, _ => none
  | fuel + 1, some id, s =>
      if id ∉ s.live then none
      else if (s.fcb id).nodeType = .dcb ∧ s.children id = ∅ ∧ (s.fcb id).openCount = 0 ∧
          (s.fcb id).directoryFile then
        let s := s.dereference atOnce id
        if (s.fcb id).directoryFileOpenCount = 0 then
          (s.fatDeleteFcb id).bind (closeParents atOnce fuel (s.fcb id).parentDcb)
        else some s
      else some s

/-- Whether the Fcb that is closed can be removed. -/
def unreferenced (s : FcbTree) (id : ℕ) : Bool :=
  ((s.fcb id).nodeType = .fcb ∧ (s.fcb id).openCount = 0) ∨
    ((s.fcb id).nodeType = .dcb ∧ s.children id = ∅ ∧ (s.fcb id).openCount = 0 ∧
      (s.fcb id).directoryFileOpenCount = 0)

def removeUnreferenced (atOnce : ℕ → Bool) (s : FcbTree) (id : ℕ) : Option FcbTree :=
  if s.unreferenced id then
    (s.fatDeleteFcb id).bind (closeParents atOnce s.live.card (s.fcb id).parentDcb)
  else some s

/-- Take a user's open off an Fcb. -/
def closeOpen (s : FcbTree) (id : ℕ) : FcbTree :=
  let s := s.modify id fun n => { n with openCount := n.openCount - 1 }
  { s with userOpens := s.userOpens.erase id }

end FcbTree

/-- The kinds of opens whose close touches the tree, and the open of the volume. -/
inductive TypeOfOpen
  | userVolumeOpen
  | userOpen
  | directoryFile
  deriving DecidableEq

/-- The state of the volume at a call, the arguments, and which dereferences bring the close
of the stream file at once. -/
structure Call where
  vcbGood : Bool
  dismountInProgress : Bool
  vcbDeleted : Bool
  topLevel : Bool
  atOnce : ℕ → Bool

/-- The volume.  `waiting` are the closes that dropped the Vcb to take the global lock. -/
structure Vcb where
  tree : FcbTree
  openFileCount : ℕ
  volumeOpens : ℕ
  closeInProgress : Bool
  waiting : ℕ

namespace Vcb

/-- The part of a close that depends on the type of open. -/
def closeBody (call : Call) (recursiveClose : Bool) (v : Vcb) (id : ℕ) :
    TypeOfOpen → Option Vcb
  | .userVolumeOpen =>
      some { v with openFileCount := v.openFileCount - 1, volumeOpens := v.volumeOpens - 1 }
  | .directoryFile =>
      let s := v.tree.closeStream id
      if recursiveClose then some { v with tree := s }
      else (s.removeUnreferenced call.atOnce id).map fun s => { v with tree := s }
  | .userOpen =>
      let n := v.tree.fcb id
      let s := if n.nodeType = .dcb ∧ v.tree.children id = ∅ ∧ n.openCount = 1 ∧ n.directoryFile then
        v.tree.dereference call.atOnce id else v.tree
      ((s.closeOpen id).removeUnreferenced call.atOnce id).map fun s =>
        { v with tree := s, openFileCount := v.openFileCount - 1 }

/-- The end of a close at the top of the close chain, on a volume that stays mounted. -/
def endClose (v : Vcb) : Vcb :=
  { v with openFileCount := v.openFileCount - 1, closeInProgress := false }

/-- Close a file object. -/
def fatCommonClose (call : Call) (v : Vcb) (id : ℕ) (typeOfOpen : TypeOfOpen) : Option Vcb :=
  if v.closeInProgress then v.closeBody call true id typeOfOpen
  else
    let v := { v with closeInProgress := true, openFileCount := v.openFileCount + 1 }
    (v.closeBody call false id typeOfOpen).map fun v =>
      if v.openFileCount = 1 ∧ !call.vcbGood ∧ !call.dismountInProgress ∧ call.vcbDeleted ∧
          call.topLevel then
        { v with waiting := v.waiting + 1 }
      else v.endClose

/-- The end of a close that has the global lock and the Vcb again. -/
def finishClose (v : Vcb) : Vcb := { v.endClose with waiting := v.waiting - 1 }

/-- Move an Fcb to another directory and release the stream file of the old one if nothing
else holds it. -/
def moveFcb (v : Vcb) (id target : ℕ) : Vcb :=
  match (v.tree.fcb id).parentDcb with
  | none => v
  | some old =>
      let s := v.tree.modify id fun n => { n with parentDcb := some target }
      if s.children old = ∅ ∧ (s.fcb old).openCount = 0 ∧ (s.fcb old).directoryFile then
        { v with tree := s.dereference (fun _ => false) old }
      else { v with tree := s }

/-- What threads do. -/
inductive Event
  | closeVolume (call : Call)
  | closeUser (call : Call) (id : ℕ)
  | closeStream (call : Call) (id : ℕ)
  | finish
  | rename (id target : ℕ)

/-- A directory is below an Fcb. -/
def Below (s : FcbTree) (top n : ℕ) : Prop :=
  Relation.ReflTransGen (fun n p => (s.fcb n).parentDcb = some p) n top

/-- When an event can happen: there is a file object to close, a close that waits, or a file
with an open directory to move it to that is not below it. -/
def Enabled (v : Vcb) : Event → Prop
  | .closeVolume _ => 0 < v.volumeOpens
  | .closeUser _ id => id ∈ v.tree.userOpens
  | .closeStream _ id => id ∈ v.tree.released
  | .finish => 0 < v.waiting
  | .rename id target => id ∈ v.tree.live ∧ (v.tree.fcb id).nodeType ≠ .rootDcb ∧
      target ∈ v.tree.live ∧ (v.tree.fcb target).nodeType ≠ .fcb ∧
      (v.tree.fcb target).directoryFile ∧ ¬ Below v.tree id target

def step (v : Vcb) : Event → Option Vcb
  | .closeVolume call => v.fatCommonClose call 0 .userVolumeOpen
  | .closeUser call id => v.fatCommonClose call id .userOpen
  | .closeStream call id =>
      { v with tree := { v.tree with released := v.tree.released.erase id } }.fatCommonClose
        call id .directoryFile
  | .finish => some v.finishClose
  | .rename id target => some (v.moveFcb id target)

end Vcb

end KernelDrivers.Fat.Teardown
