import KernelDrivers.Fat.Teardown

/-!
# What close leaves of the tree

The counts of an Fcb are the file objects that hold it, a directory with children has its
stream file, and every Fcb but the root is held by something.  The first two are kept by every
close.  The third one is kept by all of them but one: a stream file that is closed while
another close waits for the global lock takes its count off and leaves the directory, because
the volume still says that a close is in progress.

## Main definitions

* `FcbTree.Sound` — the shape of the tree, its counts, and what was freed.
* `FcbTree.Held` — everything but the root is held.
* `Vcb.Orphans` — the close of a stream file that leaves a directory behind.

## Main results

* `Sound.closeParents` — what the loop over the parents keeps and removes.
* `Vcb.Sound.step` — every event is handled without a failure and keeps the invariant.
* `teardown_of_run` — what holds in every state of a run.
-/

namespace KernelDrivers.Fat.Teardown

namespace FcbTree

/-- The tree: parents are live directories, and no Fcb is its own ancestor. -/
structure Shape (s : FcbTree) : Prop where
  root : ∀ n ∈ s.live, (s.fcb n).nodeType = .rootDcb → (s.fcb n).parentDcb = none
  parent : ∀ n ∈ s.live, (s.fcb n).nodeType ≠ .rootDcb →
    ∃ p ∈ s.live, (s.fcb n).parentDcb = some p
  parent_type : ∀ n ∈ s.live, ∀ p, (s.fcb n).parentDcb = some p → (s.fcb p).nodeType ≠ .fcb
  acyclic : ∃ depth : ℕ → ℕ, ∀ n ∈ s.live, ∀ p, (s.fcb n).parentDcb = some p → depth p < depth n

/-- Directories with children have their stream file. -/
def Cached (s : FcbTree) : Prop :=
  ∀ n ∈ s.live, ∀ p, (s.fcb n).parentDcb = some p → (s.fcb p).nodeType = .dcb →
    (s.fcb p).directoryFile = true

/-- The counts are numbers of file objects. -/
structure Counted (s : FcbTree) : Prop where
  opens : ∀ n ∈ s.live, (s.fcb n).openCount = s.userOpens.count n
  opens_live : ∀ n ∈ s.userOpens, n ∈ s.live
  streams : ∀ n ∈ s.live, (s.fcb n).directoryFileOpenCount = s.streamFiles n
  file_streams : ∀ n ∈ s.live, (s.fcb n).nodeType = .fcb → s.streamFiles n = 0
  released_live : ∀ n ∈ s.released, n ∈ s.live

/-- Every Fcb was freed once, when nothing held it. -/
structure FreedIdle (s : FcbTree) : Prop where
  nodup : (s.freed.map Freed.id).Nodup
  dead : ∀ e ∈ s.freed, e.id ∉ s.live
  idle : ∀ e ∈ s.freed, e.userOpens = 0 ∧ e.children = 0 ∧ e.streamFiles = 0

structure Sound (s : FcbTree) : Prop where
  shape : s.Shape
  cached : s.Cached
  counted : s.Counted
  freedIdle : s.FreedIdle

/-- What an Fcb is held by. -/
def HeldAt (s : FcbTree) (n : ℕ) : Prop :=
  (s.fcb n).nodeType = .rootDcb ∨ 0 < (s.fcb n).openCount ∨
    ((s.fcb n).nodeType = .dcb ∧ (s.children n ≠ ∅ ∨ 0 < (s.fcb n).directoryFileOpenCount))

def Held (s : FcbTree) : Prop := ∀ n ∈ s.live, s.HeldAt n

/-- Everything but perhaps `x` is held. -/
def HeldBut (s : FcbTree) (x : ℕ) : Prop := ∀ n ∈ s.live, n ≠ x → s.HeldAt n

/-! ## Access -/

section Access

variable (s : FcbTree) (id : ℕ) (f : Fcb → Fcb)

@[simp] theorem userOpens_modify : (s.modify id f).userOpens = s.userOpens := rfl

@[simp] theorem fcb_modify_self : (s.modify id f).fcb id = f (s.fcb id) :=
  Function.update_self _ _ _

theorem fcb_modify_of_ne {n : ℕ} (h : n ≠ id) : (s.modify id f).fcb n = s.fcb n :=
  Function.update_of_ne h _ _

theorem mem_children {s : FcbTree} {id n : ℕ} :
    n ∈ s.children id ↔ n ∈ s.live ∧ (s.fcb n).parentDcb = some id := by
  simp [children]

end Access

/-- A state with the same Fcbs, up to their counts. -/
structure SameTree (s s' : FcbTree) : Prop where
  live : s'.live = s.live
  parentDcb : ∀ n, (s'.fcb n).parentDcb = (s.fcb n).parentDcb
  nodeType : ∀ n, (s'.fcb n).nodeType = (s.fcb n).nodeType
  freed : s'.freed = s.freed

namespace SameTree

variable {s s' : FcbTree}

theorem children (h : SameTree s s') (n : ℕ) : s'.children n = s.children n := by
  ext m
  simp [mem_children, h.live, h.parentDcb]

theorem shape (h : SameTree s s') (hs : s.Shape) : s'.Shape := by
  constructor
  · intro n hn htype
    rw [h.live] at hn
    rw [h.nodeType] at htype
    rw [h.parentDcb]
    exact hs.root n hn htype
  · intro n hn htype
    rw [h.live] at hn ⊢
    rw [h.nodeType] at htype
    rw [h.parentDcb]
    exact hs.parent n hn htype
  · intro n hn p hp
    rw [h.live] at hn
    rw [h.parentDcb] at hp
    rw [h.nodeType]
    exact hs.parent_type n hn p hp
  · obtain ⟨depth, hdepth⟩ := hs.acyclic
    refine ⟨depth, ?_⟩
    intro n hn p hp
    rw [h.live] at hn
    rw [h.parentDcb] at hp
    exact hdepth n hn p hp

theorem freedIdle (h : SameTree s s') (hs : s.FreedIdle) : s'.FreedIdle := by
  constructor
  · rw [h.freed]
    exact hs.nodup
  · rw [h.freed, h.live]
    exact hs.dead
  · rw [h.freed]
    exact hs.idle

/-- A modification that leaves the parent and the type alone. -/
theorem of_modify (s : FcbTree) (id : ℕ) {f : Fcb → Fcb} (hp : ∀ n, (f n).parentDcb = n.parentDcb)
    (ht : ∀ n, (f n).nodeType = n.nodeType) : SameTree s (s.modify id f) := by
  constructor
  · rfl
  · intro n
    by_cases hn : n = id
    · rw [hn, fcb_modify_self, hp]
    · rw [fcb_modify_of_ne _ _ _ hn]
  · intro n
    by_cases hn : n = id
    · rw [hn, fcb_modify_self, ht]
    · rw [fcb_modify_of_ne _ _ _ hn]
  · rfl

theorem heldAt (h : SameTree s s') {n : ℕ} (hn : s'.fcb n = s.fcb n) (hheld : s.HeldAt n) :
    s'.HeldAt n := by
  rw [HeldAt, hn, h.children]
  exact hheld

end SameTree

/-! ## Counts -/

section Counts

variable {s : FcbTree} {id : ℕ}

theorem Sound.nodeType_ne_fcb_of_streamFiles (hs : s.Sound) (hid : id ∈ s.live)
    (hpos : 0 < s.streamFiles id) : (s.fcb id).nodeType ≠ .fcb := by
  intro htype
  have := hs.counted.file_streams id hid htype
  omega

theorem sameTree_closeStream (s : FcbTree) (id : ℕ) : SameTree s (s.closeStream id) :=
  .of_modify s id (fun _ => rfl) (fun _ => rfl)

theorem sameTree_dereference (atOnce : ℕ → Bool) (s : FcbTree) (id : ℕ) :
    SameTree s (s.dereference atOnce id) := by
  have hmodify : SameTree s (s.modify id fun n => { n with directoryFile := false }) :=
    .of_modify s id (fun _ => rfl) (fun _ => rfl)
  rw [dereference]
  split
  · have hclose := sameTree_closeStream (s.modify id fun n => { n with directoryFile := false }) id
    exact ⟨hclose.live.trans hmodify.live, fun n => (hclose.parentDcb n).trans (hmodify.parentDcb n),
      fun n => (hclose.nodeType n).trans (hmodify.nodeType n), hclose.freed.trans hmodify.freed⟩
  · exact ⟨hmodify.live, hmodify.parentDcb, hmodify.nodeType, hmodify.freed⟩

theorem dereference_of_ne (atOnce : ℕ → Bool) {n : ℕ} (h : n ≠ id) :
    (s.dereference atOnce id).fcb n = s.fcb n := by
  rw [dereference]
  split
  · rw [closeStream, fcb_modify_of_ne _ _ _ h, fcb_modify_of_ne _ _ _ h]
  · exact Function.update_of_ne h _ _

theorem dereference_self (atOnce : ℕ → Bool) :
    (s.dereference atOnce id).fcb id = { s.fcb id with
      directoryFile := false
      directoryFileOpenCount := (s.fcb id).directoryFileOpenCount - if atOnce id then 1 else 0 } := by
  rw [dereference]
  cases atOnce id <;> simp [closeStream]

theorem userOpens_dereference (atOnce : ℕ → Bool) :
    (s.dereference atOnce id).userOpens = s.userOpens := by
  rw [dereference]
  split <;> rfl

theorem released_dereference (atOnce : ℕ → Bool) :
    (s.dereference atOnce id).released =
      if atOnce id then s.released else id ::ₘ s.released := by
  rw [dereference]
  split <;> rfl

/-- Dereferencing the stream file of a directory without children keeps the invariant. -/
theorem Sound.dereference (hs : s.Sound) (atOnce : ℕ → Bool) (hid : id ∈ s.live)
    (hempty : s.children id = ∅) (hfile : (s.fcb id).directoryFile = true) :
    (s.dereference atOnce id).Sound := by
  have hsame := sameTree_dereference atOnce s id
  have hstream : ∀ n, (s.dereference atOnce id).streamFiles n =
      s.streamFiles n - if n = id ∧ atOnce id then 1 else 0 := by
    intro n
    rw [streamFiles, streamFiles, released_dereference]
    by_cases hn : n = id
    · rw [hn, dereference_self]
      cases atOnce id <;> simp [hfile]
    · rw [dereference_of_ne atOnce hn]
      cases atOnce id <;> simp [hn]
  constructor
  · exact hsame.shape hs.shape
  · intro n hn p hp htype
    rw [hsame.live] at hn
    rw [hsame.parentDcb] at hp
    rw [hsame.nodeType] at htype
    -- the directory has no children, so it is nobody's parent
    have hne : p ≠ id := by
      rintro rfl
      have : n ∈ s.children p := mem_children.mpr ⟨hn, hp⟩
      rw [hempty] at this
      exact absurd this (Finset.notMem_empty n)
    rw [dereference_of_ne atOnce hne]
    exact hs.cached n hn p hp htype
  · constructor
    · intro n hn
      rw [hsame.live] at hn
      rw [userOpens_dereference, ← hs.counted.opens n hn]
      by_cases h : n = id
      · rw [h, dereference_self]
      · rw [dereference_of_ne atOnce h]
    · rw [userOpens_dereference, hsame.live]
      exact hs.counted.opens_live
    · intro n hn
      rw [hsame.live] at hn
      rw [hstream, ← hs.counted.streams n hn]
      by_cases h : n = id
      · rw [h, dereference_self]
        simp
      · rw [dereference_of_ne atOnce h]
        simp [h]
    · intro n hn htype
      rw [hsame.live] at hn
      rw [hsame.nodeType] at htype
      rw [hstream, hs.counted.file_streams n hn htype, Nat.zero_sub]
    · intro n hn
      rw [hsame.live]
      rw [released_dereference] at hn
      split at hn
      · exact hs.counted.released_live n hn
      · rcases Multiset.mem_cons.mp hn with rfl | hn
        · exact hid
        · exact hs.counted.released_live n hn
  · exact hsame.freedIdle hs.freedIdle

theorem HeldBut.dereference (h : s.HeldBut id) (atOnce : ℕ → Bool) :
    (s.dereference atOnce id).HeldBut id := by
  have hsame := sameTree_dereference atOnce s id
  intro n hn hne
  rw [hsame.live] at hn
  exact hsame.heldAt (dereference_of_ne atOnce hne) (h n hn hne)

/-- The close of a released stream file keeps the invariant. -/
theorem Sound.closeStream (hs : s.Sound) (hid : id ∈ s.released) :
    (FcbTree.closeStream { s with released := s.released.erase id } id).Sound := by
  have hsame : SameTree s (FcbTree.closeStream { s with released := s.released.erase id } id) :=
    ⟨rfl, (sameTree_closeStream _ id).parentDcb, (sameTree_closeStream _ id).nodeType, rfl⟩
  have hne : ∀ n, n ≠ id →
      (FcbTree.closeStream { s with released := s.released.erase id } id).fcb n = s.fcb n :=
    fun n hn => fcb_modify_of_ne _ _ _ hn
  have hself : (FcbTree.closeStream { s with released := s.released.erase id } id).fcb id =
      { s.fcb id with directoryFileOpenCount := (s.fcb id).directoryFileOpenCount - 1 } :=
    fcb_modify_self _ _ _
  have hfile : ∀ n, ((FcbTree.closeStream { s with released := s.released.erase id } id).fcb
      n).directoryFile = (s.fcb n).directoryFile := by
    intro n
    by_cases hn : n = id
    · rw [hn, hself]
    · rw [hne n hn]
  have hcount : 0 < s.released.count id := Multiset.count_pos.mpr hid
  have hstream : ∀ n, (FcbTree.closeStream { s with released := s.released.erase id } id).streamFiles
      n = s.streamFiles n - if n = id then 1 else 0 := by
    intro n
    rw [streamFiles, streamFiles, hfile]
    change (s.released.erase id).count n + _ = _
    by_cases hn : n = id
    · rw [hn, Multiset.count_erase_self, if_pos rfl]
      omega
    · rw [Multiset.count_erase_of_ne hn, if_neg hn, Nat.sub_zero]
  constructor
  · exact hsame.shape hs.shape
  · intro n hn p hp htype
    rw [hsame.parentDcb] at hp
    rw [hsame.nodeType] at htype
    rw [hfile]
    exact hs.cached n hn p hp htype
  · constructor
    · intro n hn
      have hopens := hs.counted.opens n hn
      by_cases h : n = id
      · rw [h, hself]
        rw [h] at hopens
        exact hopens
      · rw [hne n h]
        exact hopens
    · exact hs.counted.opens_live
    · intro n hn
      rw [hstream, ← hs.counted.streams n hn]
      by_cases h : n = id
      · rw [h, hself, if_pos rfl]
      · rw [hne n h, if_neg h, Nat.sub_zero]
    · intro n hn htype
      rw [hsame.nodeType] at htype
      rw [hstream, hs.counted.file_streams n hn htype, Nat.zero_sub]
    · intro n hn
      exact hs.counted.released_live n (Multiset.mem_of_mem_erase hn)
  · exact hsame.freedIdle hs.freedIdle

/-- Taking a user's open off keeps the invariant. -/
theorem Sound.closeOpen (hs : s.Sound) (hid : id ∈ s.userOpens) : (s.closeOpen id).Sound := by
  have hsame : SameTree s (s.closeOpen id) := by
    have hmodify : SameTree s (s.modify id fun n => { n with openCount := n.openCount - 1 }) :=
      .of_modify s id (fun _ => rfl) (fun _ => rfl)
    exact ⟨hmodify.live, hmodify.parentDcb, hmodify.nodeType, hmodify.freed⟩
  have hne : ∀ n, n ≠ id → (s.closeOpen id).fcb n = s.fcb n :=
    fun n hn => Function.update_of_ne hn _ _
  have hself : (s.closeOpen id).fcb id = { s.fcb id with openCount := (s.fcb id).openCount - 1 } :=
    Function.update_self _ _ _
  have hfile : ∀ n, ((s.closeOpen id).fcb n).directoryFile = (s.fcb n).directoryFile ∧
      ((s.closeOpen id).fcb n).directoryFileOpenCount = (s.fcb n).directoryFileOpenCount := by
    intro n
    by_cases hn : n = id
    · rw [hn, hself]
      exact ⟨rfl, rfl⟩
    · rw [hne n hn]
      exact ⟨rfl, rfl⟩
  have hstream : ∀ n, (s.closeOpen id).streamFiles n = s.streamFiles n := by
    intro n
    rw [streamFiles, streamFiles, (hfile n).1]
    rfl
  constructor
  · exact hsame.shape hs.shape
  · intro n hn p hp htype
    rw [hsame.parentDcb] at hp
    rw [hsame.nodeType] at htype
    rw [(hfile p).1]
    exact hs.cached n hn p hp htype
  · constructor
    · intro n hn
      change _ = (s.userOpens.erase id).count n
      by_cases h : n = id
      · rw [h, hself, Multiset.count_erase_self, ← hs.counted.opens id (hs.counted.opens_live id hid)]
      · rw [hne n h, Multiset.count_erase_of_ne h, hs.counted.opens n hn]
    · intro n hn
      exact hs.counted.opens_live n (Multiset.mem_of_mem_erase hn)
    · intro n hn
      rw [hstream, (hfile n).2, hs.counted.streams n hn]
    · intro n hn htype
      rw [hsame.nodeType] at htype
      rw [hstream]
      exact hs.counted.file_streams n hn htype
    · exact hs.counted.released_live
  · exact hsame.freedIdle hs.freedIdle

end Counts

/-! ## Removal -/

section Removal

variable {s : FcbTree} {id : ℕ}

theorem Sound.children_eq_empty_of_fcb (hs : s.Sound) (htype : (s.fcb id).nodeType = .fcb) :
    s.children id = ∅ := by
  rw [Finset.eq_empty_iff_forall_notMem]
  intro n hn
  obtain ⟨hlive, hparent⟩ := mem_children.mp hn
  exact hs.shape.parent_type n hlive id hparent htype

/-- The deletion of an Fcb that nothing holds does not fail. -/
theorem Sound.fatDeleteFcb (hs : s.Sound) (hid : id ∈ s.live) (hopen : (s.fcb id).openCount = 0)
    (hdcb : (s.fcb id).nodeType ≠ .fcb →
      (s.fcb id).directoryFileOpenCount = 0 ∧ s.children id = ∅) :
    ∃ s', s.fatDeleteFcb id = some s' ∧ s'.Sound ∧ s'.live = s.live.erase id ∧ s'.fcb = s.fcb ∧
      s'.userOpens = s.userOpens := by
  have hempty : s.children id = ∅ := by
    by_cases htype : (s.fcb id).nodeType = .fcb
    · exact hs.children_eq_empty_of_fcb htype
    · exact (hdcb htype).2
  have hstreams : s.streamFiles id = 0 := by
    by_cases htype : (s.fcb id).nodeType = .fcb
    · exact hs.counted.file_streams id hid htype
    · rw [← hs.counted.streams id hid, (hdcb htype).1]
  have hreleased : id ∉ s.released := by
    rw [← Multiset.count_eq_zero]
    rw [streamFiles] at hstreams
    omega
  have hopens : s.userOpens.count id = 0 := by rw [← hs.counted.opens id hid, hopen]
  have hfile : (s.fcb id).directoryFile = false := by
    by_contra htrue
    rw [streamFiles, if_pos (by simpa using htrue)] at hstreams
    omega
  have hnofail : ¬ ((s.fcb id).nodeType ≠ .fcb ∧ ((s.fcb id).directoryFileOpenCount ≠ 0 ∨
      s.children id ≠ ∅ ∨ (s.fcb id).directoryFile = true)) := by
    rintro ⟨htype, hcount | hchildren | htrue⟩
    · exact hcount (hdcb htype).1
    · exact hchildren hempty
    · rw [hfile] at htrue
      cases htrue
  have hparent : ∀ n ∈ s.live, (s.fcb n).parentDcb ≠ some id := by
    intro n hn hparent
    have hmem := mem_children.mpr ⟨hn, hparent⟩
    rw [hempty] at hmem
    exact absurd hmem (Finset.notMem_empty n)
  have hdelete : s.fatDeleteFcb id = some { s with
      live := s.live.erase id
      freed := s.freed ++ [⟨id, s.userOpens.count id, (s.children id).card, s.streamFiles id⟩] } := by
    rw [FcbTree.fatDeleteFcb, if_neg (not_not.mpr hid), if_neg (not_not.mpr hopen), if_neg hnofail]
  refine ⟨_, hdelete, ?_, rfl, rfl, rfl⟩
  constructor
  · constructor
    · intro n hn
      exact hs.shape.root n (Finset.mem_of_mem_erase hn)
    · intro n hn htype
      obtain ⟨p, hp, hpar⟩ := hs.shape.parent n (Finset.mem_of_mem_erase hn) htype
      refine ⟨p, Finset.mem_erase.mpr ⟨?_, hp⟩, hpar⟩
      rintro rfl
      exact hparent n (Finset.mem_of_mem_erase hn) hpar
    · intro n hn
      exact hs.shape.parent_type n (Finset.mem_of_mem_erase hn)
    · obtain ⟨depth, hdepth⟩ := hs.shape.acyclic
      exact ⟨depth, fun n hn => hdepth n (Finset.mem_of_mem_erase hn)⟩
  · intro n hn
    exact hs.cached n (Finset.mem_of_mem_erase hn)
  · constructor
    · intro n hn
      exact hs.counted.opens n (Finset.mem_of_mem_erase hn)
    · intro n hn
      refine Finset.mem_erase.mpr ⟨?_, hs.counted.opens_live n hn⟩
      rintro rfl
      exact Multiset.count_eq_zero.mp hopens hn
    · intro n hn
      exact hs.counted.streams n (Finset.mem_of_mem_erase hn)
    · intro n hn
      exact hs.counted.file_streams n (Finset.mem_of_mem_erase hn)
    · intro n hn
      refine Finset.mem_erase.mpr ⟨?_, hs.counted.released_live n hn⟩
      rintro rfl
      exact hreleased hn
  · constructor
    · rw [List.map_append, List.map_singleton]
      refine List.nodup_append.mpr ⟨hs.freedIdle.nodup, List.nodup_singleton id, ?_⟩
      intro a ha b hb hab
      obtain ⟨e, he, rfl⟩ := List.mem_map.mp ha
      rw [List.mem_singleton] at hb
      exact hs.freedIdle.dead e he (by rw [hab, hb]; exact hid)
    · intro e he
      rcases List.mem_append.mp he with he | he
      · exact fun hlive => hs.freedIdle.dead e he (Finset.mem_of_mem_erase hlive)
      · rw [List.mem_singleton.mp he]
        exact Finset.notMem_erase id s.live
    · intro e he
      rcases List.mem_append.mp he with he | he
      · exact hs.freedIdle.idle e he
      · rw [List.mem_singleton.mp he]
        exact ⟨hopens, by rw [hempty, Finset.card_empty], hstreams⟩

/-- A deletion takes a child from the parent only. -/
theorem HeldBut.erase {s' : FcbTree} {p : ℕ} (h : s.HeldBut id)
    (hlive : s'.live = s.live.erase id) (hfcb : s'.fcb = s.fcb)
    (hparent : (s.fcb id).parentDcb = some p) : s'.HeldBut p := by
  intro n hn hne
  rw [hlive] at hn
  have hheld := h n (Finset.mem_of_mem_erase hn) (Finset.ne_of_mem_erase hn)
  have hchildren : s'.children n = s.children n := by
    ext m
    rw [mem_children, mem_children, hlive, hfcb, Finset.mem_erase]
    constructor
    · exact fun hm => ⟨hm.1.2, hm.2⟩
    · rintro ⟨hm, hpar⟩
      refine ⟨⟨?_, hm⟩, hpar⟩
      rintro rfl
      rw [hparent] at hpar
      exact hne (Option.some.inj hpar).symm
  rw [HeldAt, hfcb, hchildren]
  exact hheld

/-- The loop over the parents does not fail, and leaves everything held. -/
theorem Sound.closeParents (atOnce : ℕ → Bool) (fuel : ℕ) {p : ℕ} (hs : s.Sound) (hp : p ∈ s.live)
    (htype : (s.fcb p).nodeType ≠ .fcb)
    (hcached : (s.fcb p).nodeType = .dcb → (s.fcb p).directoryFile = true)
    (hfuel : s.live.card ≤ fuel) :
    ∃ s', FcbTree.closeParents atOnce fuel (some p) s = some s' ∧ s'.Sound ∧
      s'.userOpens = s.userOpens ∧ (s.HeldBut p → s'.Held) := by
  induction fuel generalizing s p with
  | zero =>
      have hpos : 0 < s.live.card := Finset.card_pos.mpr ⟨p, hp⟩
      omega
  | succ fuel ih =>
      rw [FcbTree.closeParents, if_neg (not_not.mpr hp)]
      split
      · next hloop =>
          obtain ⟨hdcb, hempty, hopen, hfile⟩ := hloop
          have hsame := sameTree_dereference atOnce s p
          have hs' := hs.dereference atOnce hp hempty hfile
          simp only
          split
          · next hcount =>
              obtain ⟨q, hq, hparent⟩ := hs.shape.parent p hp (by rw [hdcb]; decide)
              have hqp : q ≠ p := by
                rintro rfl
                obtain ⟨depth, hdepth⟩ := hs.shape.acyclic
                exact lt_irrefl _ (hdepth q hp q hparent)
              obtain ⟨t, hdelete, ht, hlive, hfcb, hopens⟩ := hs'.fatDeleteFcb
                (show p ∈ _ by rw [hsame.live]; exact hp) (by rw [dereference_self]; exact hopen)
                (fun _ => ⟨hcount, by rw [hsame.children]; exact hempty⟩)
              have hqfcb : t.fcb q = s.fcb q := by rw [hfcb, dereference_of_ne atOnce hqp]
              obtain ⟨t', hrun, ht', hopens', hheld⟩ := ih (s := t) (p := q) ht
                (by rw [hlive, hsame.live]; exact Finset.mem_erase.mpr ⟨hqp, hq⟩)
                (by rw [hqfcb]; exact hs.shape.parent_type p hp q hparent)
                (by rw [hqfcb]; exact hs.cached p hp q hparent)
                (by rw [hlive, hsame.live, Finset.card_erase_of_mem hp]; omega)
              refine ⟨t', ?_, ht', ?_, ?_⟩
              · rw [hdelete, hsame.parentDcb, hparent]
                exact hrun
              · rw [hopens', hopens, userOpens_dereference]
              · intro hbut
                exact hheld ((hbut.dereference atOnce).erase hlive hfcb
                  (by rw [hsame.parentDcb]; exact hparent))
          · next hcount =>
              refine ⟨_, rfl, hs', userOpens_dereference atOnce, ?_⟩
              intro hbut n hn
              by_cases hnp : n = p
              · rw [hnp]
                exact Or.inr (Or.inr ⟨by rw [hsame.nodeType]; exact hdcb,
                  Or.inr (Nat.pos_of_ne_zero hcount)⟩)
              · exact hbut.dereference atOnce n hn hnp
      · next hstop =>
          refine ⟨s, rfl, hs, rfl, ?_⟩
          intro hbut n hn
          by_cases hnp : n = p
          · subst hnp
            cases hnode : (s.fcb n).nodeType with
            | rootDcb => exact Or.inl hnode
            | fcb => exact absurd hnode htype
            | dcb =>
                by_cases hopen : (s.fcb n).openCount = 0
                · refine Or.inr (Or.inr ⟨hnode, Or.inl ?_⟩)
                  intro hempty
                  exact hstop ⟨hnode, hempty, hopen, hcached hnode⟩
                · exact Or.inr (Or.inl (Nat.pos_of_ne_zero hopen))
          · exact hbut n hn hnp

theorem unreferenced_iff : s.unreferenced id = true ↔
    ((s.fcb id).nodeType = .fcb ∧ (s.fcb id).openCount = 0) ∨
      ((s.fcb id).nodeType = .dcb ∧ s.children id = ∅ ∧ (s.fcb id).openCount = 0 ∧
        (s.fcb id).directoryFileOpenCount = 0) :=
  decide_eq_true_iff

/-- The removal after a close does not fail, and leaves everything held. -/
theorem Sound.removeUnreferenced (atOnce : ℕ → Bool) (hs : s.Sound) (hid : id ∈ s.live) :
    ∃ s', s.removeUnreferenced atOnce id = some s' ∧ s'.Sound ∧ s'.userOpens = s.userOpens ∧
      (s.HeldBut id → s'.Held) := by
  rw [FcbTree.removeUnreferenced]
  by_cases hidle : s.unreferenced id = true
  · rw [if_pos hidle]
    have hcases := unreferenced_iff.mp hidle
    have hopen : (s.fcb id).openCount = 0 := by
      rcases hcases with h | h
      · exact h.2
      · exact h.2.2.1
    have hroot : (s.fcb id).nodeType ≠ .rootDcb := by
      rcases hcases with h | h
      · rw [h.1]
        decide
      · rw [h.1]
        decide
    have hdcb : (s.fcb id).nodeType ≠ .fcb →
        (s.fcb id).directoryFileOpenCount = 0 ∧ s.children id = ∅ := by
      intro hne
      rcases hcases with h | h
      · exact absurd h.1 hne
      · exact ⟨h.2.2.2, h.2.1⟩
    obtain ⟨q, hq, hparent⟩ := hs.shape.parent id hid hroot
    have hqid : q ≠ id := by
      rintro rfl
      obtain ⟨depth, hdepth⟩ := hs.shape.acyclic
      exact lt_irrefl _ (hdepth q hid q hparent)
    obtain ⟨t, hdelete, ht, hlive, hfcb, hopens⟩ := hs.fatDeleteFcb hid hopen hdcb
    obtain ⟨t', hrun, ht', hopens', hheld⟩ := ht.closeParents atOnce s.live.card (p := q)
      (by rw [hlive]; exact Finset.mem_erase.mpr ⟨hqid, hq⟩)
      (by rw [hfcb]; exact hs.shape.parent_type id hid q hparent)
      (by rw [hfcb]; exact hs.cached id hid q hparent)
      (by rw [hlive]; exact Finset.card_erase_le)
    refine ⟨t', ?_, ht', hopens'.trans hopens, ?_⟩
    · rw [hdelete, hparent]
      exact hrun
    · intro hbut
      exact hheld (hbut.erase hlive hfcb hparent)
  · rw [if_neg hidle]
    refine ⟨s, rfl, hs, rfl, ?_⟩
    intro hbut n hn
    by_cases hnid : n = id
    · subst hnid
      rw [unreferenced_iff] at hidle
      push Not at hidle
      cases hnode : (s.fcb n).nodeType with
      | rootDcb => exact Or.inl hnode
      | fcb => exact Or.inr (Or.inl (Nat.pos_of_ne_zero (hidle.1 hnode)))
      | dcb =>
          by_cases hopen : (s.fcb n).openCount = 0
          · refine Or.inr (Or.inr ⟨hnode, ?_⟩)
            by_cases hempty : s.children n = ∅
            · exact Or.inr (Nat.pos_of_ne_zero (hidle.2 hnode hempty hopen))
            · exact Or.inl hempty
          · exact Or.inr (Or.inl (Nat.pos_of_ne_zero hopen))
    · exact hbut n hn hnid

end Removal

end FcbTree

/-! ## Rename -/

section Rename

open FcbTree

variable {s : FcbTree} {id old target : ℕ}

/-- The tree with an Fcb under another directory. -/
theorem FcbTree.Sound.reparent (hs : s.Sound) (hid : id ∈ s.live)
    (hroot : (s.fcb id).nodeType ≠ .rootDcb) (htarget : target ∈ s.live)
    (htype : (s.fcb target).nodeType ≠ .fcb) (hfile : (s.fcb target).directoryFile = true)
    (hbelow : ¬ Vcb.Below s id target) :
    (s.modify id fun n => { n with parentDcb := some target }).Sound := by
  have hne : ∀ n, n ≠ id →
      (s.modify id fun n => { n with parentDcb := some target }).fcb n = s.fcb n :=
    fun n hn => fcb_modify_of_ne _ _ _ hn
  have hself : (s.modify id fun n => { n with parentDcb := some target }).fcb id =
      { s.fcb id with parentDcb := some target } := fcb_modify_self _ _ _
  have hkeep : ∀ n, ((s.modify id fun n => { n with parentDcb := some target }).fcb n).nodeType =
        (s.fcb n).nodeType ∧
      ((s.modify id fun n => { n with parentDcb := some target }).fcb n).openCount =
        (s.fcb n).openCount ∧
      ((s.modify id fun n => { n with parentDcb := some target }).fcb n).directoryFile =
        (s.fcb n).directoryFile ∧
      ((s.modify id fun n => { n with parentDcb := some target }).fcb n).directoryFileOpenCount =
        (s.fcb n).directoryFileOpenCount := by
    intro n
    by_cases hn : n = id
    · rw [hn, hself]
      exact ⟨rfl, rfl, rfl, rfl⟩
    · rw [hne n hn]
      exact ⟨rfl, rfl, rfl, rfl⟩
  have hstream : ∀ n, (s.modify id fun n => { n with parentDcb := some target }).streamFiles n =
      s.streamFiles n := by
    intro n
    rw [streamFiles, streamFiles, (hkeep n).2.2.1]
    rfl
  -- the parent of an Fcb is the old one, or the target
  have hparent : ∀ n p, ((s.modify id fun n => { n with parentDcb := some target }).fcb n).parentDcb =
      some p → (n ≠ id ∧ (s.fcb n).parentDcb = some p) ∨ (n = id ∧ p = target) := by
    intro n p hp
    by_cases hn : n = id
    · rw [hn, hself] at hp
      exact Or.inr ⟨hn, (Option.some.inj hp).symm⟩
    · rw [hne n hn] at hp
      exact Or.inl ⟨hn, hp⟩
  constructor
  · constructor
    · intro n hn hrootn
      rw [(hkeep n).1] at hrootn
      have hnid : n ≠ id := by
        rintro rfl
        exact hroot hrootn
      rw [hne n hnid]
      exact hs.shape.root n hn hrootn
    · intro n hn hrootn
      rw [(hkeep n).1] at hrootn
      by_cases hnid : n = id
      · rw [hnid, hself]
        exact ⟨target, htarget, rfl⟩
      · rw [hne n hnid]
        exact hs.shape.parent n hn hrootn
    · intro n hn p hp
      rw [(hkeep p).1]
      rcases hparent n p hp with ⟨-, hp⟩ | ⟨-, rfl⟩
      · exact hs.shape.parent_type n hn p hp
      · exact htype
    · obtain ⟨depth, hdepth⟩ := hs.shape.acyclic
      classical
      -- what is moved goes deeper than the target
      refine ⟨fun n => if Vcb.Below s id n then depth n + depth target + 1 else depth n, ?_⟩
      intro n hn p hp
      rcases hparent n p hp with ⟨hnid, hp⟩ | ⟨rfl, rfl⟩
      · have hiff : Vcb.Below s id n ↔ Vcb.Below s id p := by
          constructor
          · intro h
            rcases Relation.ReflTransGen.cases_head h with rfl | ⟨c, hc, hrest⟩
            · exact absurd rfl hnid
            · rw [hp] at hc
              cases hc
              exact hrest
          · exact fun h => Relation.ReflTransGen.head hp h
        have hlt := hdepth n hn p hp
        simp only [hiff]
        split <;> omega
      · have hrefl : Vcb.Below s n n := Relation.ReflTransGen.refl
        simp only [hbelow, hrefl, if_true, if_false]
        omega
  · intro n hn p hp hdcb
    rw [(hkeep p).1] at hdcb
    rw [(hkeep p).2.2.1]
    rcases hparent n p hp with ⟨-, hp⟩ | ⟨-, rfl⟩
    · exact hs.cached n hn p hp hdcb
    · exact hfile
  · constructor
    · intro n hn
      rw [(hkeep n).2.1]
      exact hs.counted.opens n hn
    · exact hs.counted.opens_live
    · intro n hn
      rw [(hkeep n).2.2.2, hstream]
      exact hs.counted.streams n hn
    · intro n hn htypen
      rw [(hkeep n).1] at htypen
      rw [hstream]
      exact hs.counted.file_streams n hn htypen
    · exact hs.counted.released_live
  · exact ⟨hs.freedIdle.nodup, hs.freedIdle.dead, hs.freedIdle.idle⟩

/-- Only the old directory may lose what holds it. -/
theorem FcbTree.Held.reparent (target : ℕ) (h : s.Held) (hparent : (s.fcb id).parentDcb = some old) :
    (s.modify id fun n => { n with parentDcb := some target }).HeldBut old := by
  intro n hn hne
  have hchildren : s.children n ⊆
      (s.modify id fun n => { n with parentDcb := some target }).children n := by
    intro m hm
    obtain ⟨hlive, hpar⟩ := mem_children.mp hm
    have hmid : m ≠ id := by
      rintro rfl
      rw [hparent] at hpar
      exact hne (Option.some.inj hpar).symm
    refine mem_children.mpr ⟨hlive, ?_⟩
    rw [fcb_modify_of_ne _ _ _ hmid]
    exact hpar
  have hheld := h n hn
  have hfields : ((s.modify id fun n => { n with parentDcb := some target }).fcb n).nodeType =
        (s.fcb n).nodeType ∧
      ((s.modify id fun n => { n with parentDcb := some target }).fcb n).openCount =
        (s.fcb n).openCount ∧
      ((s.modify id fun n => { n with parentDcb := some target }).fcb n).directoryFileOpenCount =
        (s.fcb n).directoryFileOpenCount := by
    by_cases hnid : n = id
    · rw [hnid, fcb_modify_self]
      exact ⟨rfl, rfl, rfl⟩
    · rw [fcb_modify_of_ne _ _ _ hnid]
      exact ⟨rfl, rfl, rfl⟩
  rw [HeldAt, hfields.1, hfields.2.1, hfields.2.2]
  rcases hheld with hroot | hopen | ⟨hdcb, hkids | hcount⟩
  · exact Or.inl hroot
  · exact Or.inr (Or.inl hopen)
  · refine Or.inr (Or.inr ⟨hdcb, Or.inl ?_⟩)
    intro hempty
    rw [hempty] at hchildren
    exact hkids (Finset.subset_empty.mp hchildren)
  · exact Or.inr (Or.inr ⟨hdcb, Or.inr hcount⟩)

end Rename

/-! ## Events -/

namespace Vcb

open FcbTree

/-- The open count has the user opens, the opens of the volume, and `k` closes at the top of a
close chain. -/
def OpenCountIs (v : Vcb) (k : ℕ) : Prop :=
  v.openFileCount = v.tree.userOpens.card + v.volumeOpens + k

structure Sound (v : Vcb) : Prop where
  tree : v.tree.Sound
  openCount : v.OpenCountIs v.waiting
  waiting : v.waiting = if v.closeInProgress then 1 else 0

/-- A stream file is closed while another close waits for the global lock, and it was the last
thing that held its directory. -/
def Orphans (v : Vcb) : Event → Prop
  | .closeStream _ id => v.closeInProgress = true ∧ (v.tree.fcb id).nodeType = .dcb ∧
      v.tree.children id = ∅ ∧ (v.tree.fcb id).openCount = 0 ∧
      (v.tree.fcb id).directoryFileOpenCount = 1
  | _ => False

/-- What the part of a close between its two ends does. -/
structure Closed (v v' : Vcb) : Prop where
  tree : v'.tree.Sound
  openCount : ∀ k, v.OpenCountIs k → v'.OpenCountIs k
  closeInProgress : v'.closeInProgress = v.closeInProgress
  waiting : v'.waiting = v.waiting

variable {v : Vcb} {id : ℕ}

theorem closeBody_volume (hs : v.tree.Sound) (call : Call) (recursiveClose : Bool) (id : ℕ)
    (hpos : 0 < v.volumeOpens) :
    ∃ v', v.closeBody call recursiveClose id .userVolumeOpen = some v' ∧ Closed v v' ∧
      v'.tree = v.tree := by
  refine ⟨_, rfl, ⟨hs, ?_, rfl, rfl⟩, rfl⟩
  intro k hk
  rw [OpenCountIs] at hk ⊢
  simp only
  omega

theorem closeBody_user (hs : v.tree.Sound) (call : Call) (recursiveClose : Bool)
    (hid : id ∈ v.tree.userOpens) :
    ∃ v', v.closeBody call recursiveClose id .userOpen = some v' ∧ Closed v v' ∧
      (v.tree.Held → v'.tree.Held) := by
  have hlive := hs.counted.opens_live id hid
  -- the stream file is dereferenced first, if the open is the last thing beside it
  obtain ⟨s, hs', hsame, hopens, hbut, hdef⟩ : ∃ s : FcbTree, s.Sound ∧ SameTree v.tree s ∧
      s.userOpens = v.tree.userOpens ∧ (v.tree.Held → s.HeldBut id) ∧
      s = (if (v.tree.fcb id).nodeType = .dcb ∧ v.tree.children id = ∅ ∧
        (v.tree.fcb id).openCount = 1 ∧ (v.tree.fcb id).directoryFile then
          v.tree.dereference call.atOnce id else v.tree) := by
    by_cases hlast : (v.tree.fcb id).nodeType = .dcb ∧ v.tree.children id = ∅ ∧
        (v.tree.fcb id).openCount = 1 ∧ (v.tree.fcb id).directoryFile = true
    · refine ⟨_, hs.dereference call.atOnce hlive hlast.2.1 hlast.2.2.2,
        sameTree_dereference call.atOnce v.tree id, userOpens_dereference call.atOnce, ?_,
        (if_pos hlast).symm⟩
      intro hheld
      exact HeldBut.dereference (fun n hn _ => hheld n hn) call.atOnce
    · exact ⟨v.tree, hs, ⟨rfl, fun _ => rfl, fun _ => rfl, rfl⟩, rfl, fun hheld n hn _ => hheld n hn,
        (if_neg hlast).symm⟩
  have hid' : id ∈ s.userOpens := by
    rw [hopens]
    exact hid
  obtain ⟨t, hremove, ht, htopens, hheld⟩ := (hs'.closeOpen hid').removeUnreferenced call.atOnce
    (show id ∈ (s.closeOpen id).live from hsame.live ▸ hlive)
  refine ⟨{ v with tree := t, openFileCount := v.openFileCount - 1 }, ?_, ⟨ht, ?_, rfl, rfl⟩, ?_⟩
  · rw [closeBody, ← hdef, hremove]
    rfl
  · intro k hk
    have hcard : t.userOpens.card = v.tree.userOpens.card - 1 := by
      rw [htopens, ← hopens]
      exact Multiset.card_erase_of_mem hid'
    have hpos : 0 < v.tree.userOpens.card := Multiset.card_pos_iff_exists_mem.mpr ⟨id, hid⟩
    rw [OpenCountIs] at hk ⊢
    simp only
    omega
  · intro h
    apply hheld
    intro n hn hne
    have hfcb : (s.closeOpen id).fcb n = s.fcb n := Function.update_of_ne hne _ _
    have hsame' : SameTree s (s.closeOpen id) := by
      have hmodify : SameTree s (s.modify id fun n => { n with openCount := n.openCount - 1 }) :=
        .of_modify s id (fun _ => rfl) (fun _ => rfl)
      exact ⟨hmodify.live, hmodify.parentDcb, hmodify.nodeType, hmodify.freed⟩
    exact hsame'.heldAt hfcb (hbut h n hn hne)

/-- The close of a released stream file. -/
theorem closeBody_stream (hs : v.tree.Sound) (call : Call) (recursiveClose : Bool)
    (hid : id ∈ v.tree.released) (w : Vcb)
    (hw : w = { v with tree := { v.tree with released := v.tree.released.erase id } }) :
    ∃ v', w.closeBody call recursiveClose id .directoryFile = some v' ∧ Closed w v' ∧
      (v.tree.Held → ¬ (recursiveClose = true ∧ (v.tree.fcb id).nodeType = .dcb ∧
        v.tree.children id = ∅ ∧ (v.tree.fcb id).openCount = 0 ∧
        (v.tree.fcb id).directoryFileOpenCount = 1) → v'.tree.Held) := by
  subst hw
  have hlive := hs.counted.released_live id hid
  have hclosed := hs.closeStream hid
  have hsame : SameTree v.tree
      (FcbTree.closeStream { v.tree with released := v.tree.released.erase id } id) :=
    ⟨rfl, (sameTree_closeStream _ id).parentDcb, (sameTree_closeStream _ id).nodeType, rfl⟩
  have hbut : v.tree.Held →
      (FcbTree.closeStream { v.tree with released := v.tree.released.erase id } id).HeldBut id := by
    intro hheld n hn hne
    exact hsame.heldAt (fcb_modify_of_ne _ _ _ hne) (hheld n hn)
  cases recursiveClose with
  | true =>
      refine ⟨_, rfl, ⟨hclosed, fun k hk => hk, rfl, rfl⟩, ?_⟩
      intro hheld hnot n hn
      by_cases hne : n = id
      · subst hne
        have hself : (FcbTree.closeStream { v.tree with released := v.tree.released.erase n } n).fcb n =
            { v.tree.fcb n with
              directoryFileOpenCount := (v.tree.fcb n).directoryFileOpenCount - 1 } :=
          fcb_modify_self _ _ _
        have hpos : 0 < (v.tree.fcb n).directoryFileOpenCount := by
          rw [hs.counted.streams n hlive, streamFiles]
          have := Multiset.count_pos.mpr hid
          omega
        have hfile := hs.nodeType_ne_fcb_of_streamFiles hlive
          (by rw [← hs.counted.streams n hlive]; exact hpos)
        change HeldAt (FcbTree.closeStream { v.tree with released := v.tree.released.erase n } n) n
        rw [HeldAt, hself, hsame.children]
        cases hnode : (v.tree.fcb n).nodeType with
        | rootDcb => exact Or.inl rfl
        | fcb => exact absurd hnode hfile
        | dcb =>
            by_cases hopen : (v.tree.fcb n).openCount = 0
            · refine Or.inr (Or.inr ⟨rfl, ?_⟩)
              by_cases hempty : v.tree.children n = ∅
              · right
                simp only
                by_contra hzero
                exact hnot ⟨rfl, hnode, hempty, hopen, by omega⟩
              · exact Or.inl hempty
            · exact Or.inr (Or.inl (Nat.pos_of_ne_zero hopen))
      · exact hbut hheld n hn hne
  | false =>
      obtain ⟨t, hremove, ht, htopens, hheld⟩ := hclosed.removeUnreferenced call.atOnce
        (show id ∈ (FcbTree.closeStream { v.tree with released := v.tree.released.erase id } id).live
          from hlive)
      refine ⟨{ v with tree := t }, ?_, ⟨ht, ?_, rfl, rfl⟩, ?_⟩
      · rw [closeBody]
        simp only [Bool.false_eq_true, if_false]
        rw [hremove]
        rfl
      · intro k hk
        rw [OpenCountIs] at hk ⊢
        simp only [htopens]
        exact hk
      · intro h _
        exact hheld (hbut h)

/-- The two ends of a close around its body. -/
theorem fatCommonClose_spec (call : Call) (id : ℕ) (typeOfOpen : TypeOfOpen) (P : FcbTree → Prop)
    (hopen : v.OpenCountIs v.waiting) (hwaiting : v.waiting = if v.closeInProgress then 1 else 0)
    (hbody : ∀ w recursiveClose, w.tree = v.tree → w.volumeOpens = v.volumeOpens →
      recursiveClose = v.closeInProgress →
      ∃ v', w.closeBody call recursiveClose id typeOfOpen = some v' ∧ Closed w v' ∧ P v'.tree) :
    ∃ v', v.fatCommonClose call id typeOfOpen = some v' ∧ v'.Sound ∧ P v'.tree := by
  rw [fatCommonClose]
  cases hflag : v.closeInProgress with
  | true =>
      obtain ⟨v', hclose, hclosed, hP⟩ := hbody v true rfl rfl hflag.symm
      refine ⟨v', by simpa using hclose, ⟨hclosed.tree, ?_, ?_⟩, hP⟩
      · rw [hclosed.waiting]
        exact hclosed.openCount _ hopen
      · rw [hclosed.waiting, hclosed.closeInProgress]
        exact hwaiting
  | false =>
      obtain ⟨v', hclose, hclosed, hP⟩ := hbody
        { v with closeInProgress := true, openFileCount := v.openFileCount + 1 } false rfl rfl
        hflag.symm
      have hzero : v.waiting = 0 := by simpa [hflag] using hwaiting
      have hcount : v'.OpenCountIs 1 := by
        apply hclosed.openCount
        rw [OpenCountIs] at hopen ⊢
        simp only
        omega
      have hwait : v'.waiting = 0 := by rw [hclosed.waiting, ← hzero]
      have hprogress : v'.closeInProgress = true := hclosed.closeInProgress
      simp only [Bool.false_eq_true, if_false, hclose, Option.map_some]
      refine ⟨_, rfl, ?_, ?_⟩
      · split
        · refine ⟨hclosed.tree, ?_, ?_⟩
          · rw [OpenCountIs] at hcount ⊢
            simp only
            omega
          · simp [hwait, hprogress]
        · refine ⟨hclosed.tree, ?_, ?_⟩
          · rw [OpenCountIs] at hcount ⊢
            simp only [endClose]
            omega
          · simp [endClose, hwait]
      · split
        · exact hP
        · exact hP

theorem moveFcb_spec {target : ℕ} (hs : v.Sound) (henabled : v.Enabled (.rename id target)) :
    (v.moveFcb id target).Sound ∧ (v.tree.Held → (v.moveFcb id target).tree.Held) := by
  obtain ⟨hid, hroot, htarget, htype, hfile, hbelow⟩ := henabled
  obtain ⟨old, hold, hparent⟩ := hs.tree.shape.parent id hid hroot
  have hne : old ≠ id := by
    rintro rfl
    obtain ⟨depth, hdepth⟩ := hs.tree.shape.acyclic
    exact lt_irrefl _ (hdepth old hid old hparent)
  have hmoved := hs.tree.reparent hid hroot htarget htype hfile hbelow
  have holdfcb : (v.tree.modify id fun n => { n with parentDcb := some target }).fcb old =
      v.tree.fcb old := fcb_modify_of_ne _ _ _ hne
  have hbut : v.tree.Held → _ := fun hheld => FcbTree.Held.reparent target hheld hparent
  have holdtype := hs.tree.shape.parent_type id hid old hparent
  rw [moveFcb, hparent]
  simp only
  split
  · next hlast =>
      have hs' := hmoved.dereference (fun _ => false) hold hlast.1 hlast.2.2
      refine ⟨⟨hs', ?_, hs.waiting⟩, ?_⟩
      · have hcount := hs.openCount
        rw [OpenCountIs] at hcount ⊢
        simp only [userOpens_dereference, userOpens_modify]
        exact hcount
      · intro hheld n hn
        by_cases hnold : n = old
        · rw [hnold, HeldAt, dereference_self, holdfcb]
          cases hnode : (v.tree.fcb old).nodeType with
          | rootDcb => exact Or.inl rfl
          | fcb => exact absurd hnode holdtype
          | dcb =>
              refine Or.inr (Or.inr ⟨rfl, Or.inr ?_⟩)
              have hfile : (v.tree.fcb old).directoryFile = true := by
                rw [← holdfcb]
                exact hlast.2.2
              simp [hs.tree.counted.streams old hold, streamFiles, hfile]
        · exact (hbut hheld).dereference (fun _ => false) n hn hnold
  · next hstay =>
      refine ⟨⟨hmoved, hs.openCount, hs.waiting⟩, ?_⟩
      intro hheld n hn
      by_cases hnold : n = old
      · rw [hnold, HeldAt, holdfcb]
        rw [holdfcb] at hstay
        cases hnode : (v.tree.fcb old).nodeType with
        | rootDcb => exact Or.inl rfl
        | fcb => exact absurd hnode holdtype
        | dcb =>
            by_cases hopen : (v.tree.fcb old).openCount = 0
            · refine Or.inr (Or.inr ⟨rfl, Or.inl ?_⟩)
              intro hempty
              exact hstay ⟨hempty, hopen, hs.tree.cached id hid old hparent hnode⟩
            · exact Or.inr (Or.inl (Nat.pos_of_ne_zero hopen))
      · exact hbut hheld n hn hnold

/-- Every event is handled without a failure and keeps the invariant, and all but the one that
leaves an orphan keep everything held. -/
theorem Sound.step (hs : v.Sound) {e : Event} (henabled : v.Enabled e) :
    ∃ v', v.step e = some v' ∧ v'.Sound ∧ (v.tree.Held → ¬ v.Orphans e → v'.tree.Held) := by
  cases e with
  | closeVolume call =>
      obtain ⟨v', hclose, hsound, htree⟩ := fatCommonClose_spec call 0 .userVolumeOpen
        (· = v.tree) hs.openCount hs.waiting (by
          intro w recursiveClose htree hopens _
          obtain ⟨v', hclose, hclosed, hsame⟩ := closeBody_volume (v := w)
            (by rw [htree]; exact hs.tree) call recursiveClose 0 (by rw [hopens]; exact henabled)
          exact ⟨v', hclose, hclosed, hsame.trans htree⟩)
      refine ⟨v', hclose, hsound, ?_⟩
      intro h _
      rw [htree]
      exact h
  | closeUser call id =>
      obtain ⟨v', hclose, hsound, hheld⟩ := fatCommonClose_spec call id .userOpen
        (fun t => v.tree.Held → t.Held) hs.openCount hs.waiting (by
          intro w recursiveClose htree _ _
          rw [← htree]
          exact closeBody_user (by rw [htree]; exact hs.tree) call recursiveClose
            (by rw [htree]; exact henabled))
      exact ⟨v', hclose, hsound, fun h _ => hheld h⟩
  | closeStream call id =>
      obtain ⟨v', hclose, hsound, hheld⟩ := fatCommonClose_spec
        (v := { v with tree := { v.tree with released := v.tree.released.erase id } }) call id
        .directoryFile (fun t => v.tree.Held → ¬ v.Orphans (.closeStream call id) → t.Held)
        hs.openCount hs.waiting (by
          intro w recursiveClose htree hopens hrec
          have hw : w = { { w with tree := v.tree } with
              tree := { v.tree with released := v.tree.released.erase id } } := by
            obtain ⟨tree, _, _, _, _⟩ := w
            cases htree
            rfl
          obtain ⟨v', hclose, hclosed, hheld⟩ := closeBody_stream (v := { w with tree := v.tree })
            hs.tree call recursiveClose henabled w hw
          refine ⟨v', hclose, hclosed, fun h hnot => hheld h ?_⟩
          rw [hrec]
          exact hnot)
      exact ⟨v', hclose, hsound, hheld⟩
  | finish =>
      refine ⟨_, rfl, ⟨hs.tree, ?_, ?_⟩, fun h _ => h⟩
      · have hcount := hs.openCount
        have hpos : 0 < v.waiting := henabled
        rw [OpenCountIs] at hcount ⊢
        simp only [finishClose, endClose]
        omega
      · have hwaiting := hs.waiting
        have hle : v.waiting ≤ 1 := by
          rw [hwaiting]
          split <;> omega
        simp only [finishClose, endClose, Bool.false_eq_true, if_false]
        omega
  | rename id target =>
      obtain ⟨hsound, hheld⟩ := moveFcb_spec hs henabled
      exact ⟨_, rfl, hsound, fun h _ => hheld h⟩

/-! ## Runs -/

/-- Events one after another, each enabled and of the given kind. -/
inductive Run (ok : Vcb → Event → Prop) (v : Vcb) : Vcb → Prop
  | refl : Run ok v v
  | step {v' v'' : Vcb} {e : Event} (hrun : Run ok v v') (henabled : v'.Enabled e) (hok : ok v' e)
      (hstep : v'.step e = some v'') : Run ok v v''

/-- A run goes on with an event that is handled. -/
theorem Run.get {ok : Vcb → Event → Prop} {v v' : Vcb} {e : Event} (hrun : Run ok v v')
    (henabled : v'.Enabled e) (hok : ok v' e) (hsome : (v'.step e).isSome) :
    Run ok v ((v'.step e).get hsome) :=
  hrun.step henabled hok (Option.some_get hsome).symm

theorem Run.sound {ok : Vcb → Event → Prop} {v v' : Vcb} (hrun : Run ok v v') (hs : v.Sound) :
    v'.Sound := by
  induction hrun with
  | refl => exact hs
  | step _ henabled _ hstep ih =>
      obtain ⟨w, hw, hsound, -⟩ := ih.step henabled
      rw [hstep] at hw
      cases hw
      exact hsound

theorem Run.held {v v' : Vcb} (hrun : Run (fun v e => ¬ v.Orphans e) v v') (hs : v.Sound)
    (hheld : v.tree.Held) : v'.tree.Held := by
  induction hrun with
  | refl => exact hheld
  | step hrun henabled hok hstep ih =>
      obtain ⟨w, hw, -, hkeep⟩ := (hrun.sound hs).step henabled
      rw [hstep] at hw
      cases hw
      exact hkeep ih hok

/-- Every user open and every stream file is closed, the root's apart. -/
def AllClosed (v : Vcb) : Prop :=
  v.tree.userOpens = 0 ∧ ∀ n ∈ v.tree.live, (v.tree.fcb n).nodeType ≠ .rootDcb →
    v.tree.streamFiles n = 0

def OnlyRootLeft (v : Vcb) : Prop := ∀ n ∈ v.tree.live, (v.tree.fcb n).nodeType = .rootDcb

/-- The deepest Fcb of a tree in which everything is held has an open or a stream file. -/
theorem onlyRootLeft_of_held (hs : v.Sound) (hheld : v.tree.Held) (hclosed : v.AllClosed) :
    v.OnlyRootLeft := by
  by_contra hleft
  rw [OnlyRootLeft] at hleft
  push Not at hleft
  obtain ⟨n, hn, hroot⟩ := hleft
  obtain ⟨depth, hdepth⟩ := hs.tree.shape.acyclic
  obtain ⟨m, hm, hmax⟩ := Finset.exists_max_image
    {n ∈ v.tree.live | (v.tree.fcb n).nodeType ≠ .rootDcb} depth
    ⟨n, Finset.mem_filter.mpr ⟨hn, hroot⟩⟩
  obtain ⟨hlive, hmroot⟩ := Finset.mem_filter.mp hm
  rcases hheld m hlive with hnode | hopen | ⟨-, hkids | hcount⟩
  · exact hmroot hnode
  · rw [hs.tree.counted.opens m hlive, hclosed.1] at hopen
    simp at hopen
  · obtain ⟨c, hc⟩ := Finset.nonempty_iff_ne_empty.mpr hkids
    obtain ⟨hclive, hparent⟩ := mem_children.mp hc
    have hcroot : (v.tree.fcb c).nodeType ≠ .rootDcb := by
      intro hcroot
      rw [hs.tree.shape.root c hclive hcroot] at hparent
      cases hparent
    have hle := hmax c (Finset.mem_filter.mpr ⟨hclive, hcroot⟩)
    have hlt := hdepth c hclive m hparent
    omega
  · rw [hs.tree.counted.streams m hlive, hclosed.2 m hlive hmroot] at hcount
    omega

/-- No event fails, every Fcb was freed once and when nothing held it, and the open count is
the number of user opens and of closes in progress. -/
structure Safe (v : Vcb) : Prop where
  handled : ∀ e, v.Enabled e → (v.step e).isSome
  freed_nodup : (v.tree.freed.map Freed.id).Nodup
  freed_idle : ∀ e ∈ v.tree.freed, e.userOpens = 0 ∧ e.children = 0 ∧ e.streamFiles = 0
  openFileCount : v.openFileCount = v.tree.userOpens.card + v.volumeOpens + v.waiting

theorem Sound.safe (hs : v.Sound) : v.Safe where
  handled e henabled := by
    obtain ⟨v', hstep, -⟩ := hs.step henabled
    rw [hstep]
    rfl
  freed_nodup := hs.tree.freedIdle.nodup
  freed_idle := hs.tree.freedIdle.idle
  openFileCount := hs.openCount

/-- In every order of closes the tree is taken down safely.  If no stream file that is the last
thing to hold its directory is closed while another close waits for the global lock, then the
root is left alone when everything is closed. -/
theorem teardown_of_run (v v' : Vcb) (hs : v.Sound) (hheld : v.tree.Held) :
    (Run (fun _ _ => True) v v' → v'.Safe) ∧
      (Run (fun v e => ¬ v.Orphans e) v v' → v'.Safe ∧ (v'.AllClosed → v'.OnlyRootLeft)) := by
  constructor
  · intro hrun
    exact (hrun.sound hs).safe
  · intro hrun
    have hs' := hrun.sound hs
    exact ⟨hs'.safe, onlyRootLeft_of_held hs' (hrun.held hs hheld)⟩

/-! ## A directory that is left -/

/-- The root, a directory whose stream file is released, and an open file in the root. -/
def smallVolume : Vcb where
  tree :=
    { live := {0, 1, 2}
      fcb := fun n =>
        if n = 0 then ⟨.rootDcb, none, 0, true, 1⟩
        else if n = 1 then ⟨.dcb, some 0, 0, false, 1⟩
        else ⟨.fcb, some 0, 1, false, 0⟩
      userOpens := {2}
      released := {1}
      freed := [] }
  openFileCount := 1
  volumeOpens := 0
  closeInProgress := false
  waiting := 0

/-- A close on a volume that is not good any more. -/
def badVcbCall : Call where
  vcbGood := false
  dismountInProgress := false
  vcbDeleted := true
  topLevel := true
  atOnce _ := true

theorem smallVolume_sound : smallVolume.Sound := by
  have hparent : ∀ n ∈ smallVolume.tree.live, ∀ p, (smallVolume.tree.fcb n).parentDcb = some p →
      p = 0 ∧ n ≠ 0 := by
    intro n hn p hp
    have hcases : n = 0 ∨ n = 1 ∨ n = 2 := by simpa [smallVolume] using hn
    rcases hcases with rfl | rfl | rfl
    · cases hp
    · exact ⟨(Option.some.inj hp).symm, by decide⟩
    · exact ⟨(Option.some.inj hp).symm, by decide⟩
  constructor
  · constructor
    · constructor
      · decide
      · decide
      · intro n hn p hp
        rw [(hparent n hn p hp).1]
        decide
      · refine ⟨id, ?_⟩
        intro n hn p hp
        have := hparent n hn p hp
        simp only [id]
        omega
    · intro n hn p hp hdcb
      rw [(hparent n hn p hp).1] at hdcb
      cases hdcb
    · constructor <;> decide
    · constructor <;> simp [smallVolume]
  · rfl
  · rfl

theorem smallVolume_held : smallVolume.tree.Held := by
  intro n hn
  have hcases : n = 0 ∨ n = 1 ∨ n = 2 := by simpa [smallVolume] using hn
  rcases hcases with rfl | rfl | rfl <;> simp [HeldAt, smallVolume]

/-- The stream file is closed before the file. -/
theorem teardown_of_run_smallVolume : ∃ v', Run (fun v e => ¬ v.Orphans e) smallVolume v' ∧
    v'.AllClosed ∧ v'.OnlyRootLeft := by
  have hrun₁ := (@Run.refl (fun v e => ¬ v.Orphans e) smallVolume).get
    (e := .closeStream badVcbCall 1) (by decide : 1 ∈ smallVolume.tree.released)
    (fun h => absurd h.1 (by decide)) (by decide)
  have hrun₂ := hrun₁.get (e := .closeUser badVcbCall 2) (by change 2 ∈ FcbTree.userOpens _; decide)
    id (by decide)
  have hrun₃ := hrun₂.get (e := .finish) (by change 0 < Vcb.waiting _; decide) id (by decide)
  exact ⟨_, hrun₃, ⟨by decide, by decide⟩,
    ((teardown_of_run _ _ smallVolume_sound smallVolume_held).2 hrun₃).2 ⟨by decide, by decide⟩⟩

/-- The stream file is closed while the close of the file waits for the global lock. -/
theorem not_onlyRootLeft_smallVolume : ∃ v', Run (fun _ _ => True) smallVolume v' ∧
    v'.AllClosed ∧ ¬ v'.OnlyRootLeft := by
  have hrun₁ := (@Run.refl (fun _ _ => True) smallVolume).get
    (e := .closeUser badVcbCall 2) (by decide : 2 ∈ smallVolume.tree.userOpens) trivial (by decide)
  have hrun₂ := hrun₁.get (e := .closeStream badVcbCall 1) (by change 1 ∈ FcbTree.released _; decide)
    trivial (by decide)
  have hrun₃ := hrun₂.get (e := .finish) (by change 0 < Vcb.waiting _; decide) trivial (by decide)
  refine ⟨_, hrun₃, ⟨by decide, by decide⟩, ?_⟩
  rw [OnlyRootLeft]
  decide

end Vcb

end KernelDrivers.Fat.Teardown
