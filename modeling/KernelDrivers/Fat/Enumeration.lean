import KernelDrivers.Fat.Teardown
import KernelDrivers.Lib.FiniteTree

/-!
# Walks through the tree of Fcbs

`FatGetNextFcbTopDown` and `FatGetNextFcbBottomUp` take an Fcb to the next one in a tree.  They keep no
state: all they have is the queue of the children of a directory, through which the children are linked,
and the pointer of each Fcb to its directory.

## Main definitions

* `Heap` — the Fcbs with their links.
* `fatGetNextFcbTopDown`, `fatGetNextFcbBottomUp` — the two routines.
* `Visits` — what a walk visits.
* `IsTree` — the links are those of trees.

## Main results

* `visits_topDown`, `visits_bottomUp` — the walks go through the preorder and the postorder.
* `walks` — every node of a subtree is visited once, in an order that is safe.
-/

namespace KernelDrivers.Fat.Enumeration

open Teardown (NodeType)
open FiniteTree

/-! ## The links -/

/-- Where a `LIST_ENTRY` is. -/
inductive ListEntry (α : Type)
  | parentDcbQueue (dcb : α)
  | parentDcbLinks (fcb : α)
  deriving DecidableEq

/-- An Fcb, with the `Flink` of each of its list entries. -/
structure Fcb (α : Type) where
  nodeType : NodeType
  parentDcb : Option α
  parentDcbQueue : ListEntry α
  parentDcbLinks : ListEntry α

abbrev Heap (α : Type) := α → Fcb α

/-- A null pointer is used, or there is no fuel for another turn. -/
inductive Stop
  | nullPointer
  | outOfFuel

variable {α : Type} [DecidableEq α] (heap : Heap α)

/-- `CONTAINING_RECORD`, of an entry that links a child. -/
def containingRecord : ListEntry α → Option α
  | .parentDcbLinks f => some f
  | .parentDcbQueue _ => none

/-- `FatGetFirstChild`. -/
def fatGetFirstChild (dir : α) : Option α :=
  if (heap dir).parentDcbQueue = .parentDcbQueue dir then none
  else containingRecord (heap dir).parentDcbQueue

/-- `FatGetNextSibling`. -/
def fatGetNextSibling (file : α) : Option α :=
  if (heap file).parentDcb.map .parentDcbQueue = some (heap file).parentDcbLinks then none
  else containingRecord (heap file).parentDcbLinks

/-! ## The routines -/

/-- The loop down to the first node without children. -/
def descend : ℕ → α → Except Stop α
  | 0, _ => .error .outOfFuel
  | fuel + 1, nextFcb =>
      if (heap nextFcb).nodeType = .fcb then .ok nextFcb
      else
        match fatGetFirstChild heap nextFcb with
        | none => .ok nextFcb
        | some child => descend fuel child

/-- `FatGetNextFcbBottomUp`. -/
def fatGetNextFcbBottomUp (terminationFcb : α) (fuel : ℕ) : Option α → Except Stop (Option α)
  | none => (descend heap fuel terminationFcb).map some
  | some fcb =>
      if fcb = terminationFcb then .ok none
      else
        match fatGetNextSibling heap fcb with
        | none => .ok (heap fcb).parentDcb
        | some sibling => (descend heap fuel sibling).map some

/-- The loop up to the first directory with a sibling. -/
def ascend (terminationFcb : α) : ℕ → α → Except Stop (Option α)
  | 0, _ => .error .outOfFuel
  | fuel + 1, fcb =>
      match fatGetNextSibling heap fcb with
      | some sibling => .ok (if sibling = terminationFcb then none else some sibling)
      | none =>
          if (heap fcb).parentDcb = some terminationFcb then .ok none
          else
            match (heap fcb).parentDcb with
            | none => .error .nullPointer
            | some dcb => ascend terminationFcb fuel dcb

/-- `FatGetNextFcbTopDown`. -/
def fatGetNextFcbTopDown (terminationFcb : α) (fuel : ℕ) : Option α → Except Stop (Option α)
  | none => .error .nullPointer
  | some fcb =>
      if ((heap fcb).nodeType = .dcb ∨ (heap fcb).nodeType = .rootDcb) ∧
          (heap fcb).parentDcbQueue ≠ .parentDcbQueue fcb then
        .ok (fatGetFirstChild heap fcb)
      else if fcb = terminationFcb then .ok none
      else ascend heap terminationFcb fuel fcb

/-- The nodes that a walk returns after `fcb`, until it returns none. -/
def visit (next : Option α → Except Stop (Option α)) : ℕ → Option α → Except Stop (List α)
  | 0, _ => .error .outOfFuel
  | fuel + 1, fcb =>
      match next fcb with
      | .error stop => .error stop
      | .ok none => .ok []
      | .ok (some g) => (visit next fuel (some g)).map (g :: ·)

/-! ## What a walk visits -/

/-- With enough fuel a loop ends, with `r`. -/
def Ends {β : Type} (x : ℕ → Except Stop β) (r : β) : Prop := ∃ n, ∀ m, n ≤ m → x m = .ok r

/-- With enough fuel for the loops and for the walk, the nodes after `fcb` are `l`, and the walk ends. -/
def Visits (next : ℕ → Option α → Except Stop (Option α)) (fcb : Option α) (l : List α) : Prop :=
  ∃ n, ∀ m k, n ≤ m → n ≤ k → visit (next m) k fcb = .ok l

variable {next : ℕ → Option α → Except Stop (Option α)} {fcb : Option α} {l : List α}

omit [DecidableEq α] in
theorem Visits.nil (h : Ends (fun m => next m fcb) none) : Visits next fcb [] := by
  obtain ⟨n, hn⟩ := h
  refine ⟨n + 1, fun m k hm hk => ?_⟩
  obtain ⟨k, rfl⟩ := Nat.exists_eq_add_of_le' (Nat.one_le_iff_ne_zero.mpr (by omega : k ≠ 0))
  have hstep : next m fcb = .ok none := hn m (by omega)
  rw [visit, hstep]

omit [DecidableEq α] in
theorem Visits.cons {g : α} (h : Ends (fun m => next m fcb) (some g)) (hrest : Visits next (some g) l) :
    Visits next fcb (g :: l) := by
  obtain ⟨n, hn⟩ := h
  obtain ⟨n', hn'⟩ := hrest
  refine ⟨n + n' + 1, fun m k hm hk => ?_⟩
  obtain ⟨k, rfl⟩ := Nat.exists_eq_add_of_le' (Nat.one_le_iff_ne_zero.mpr (by omega : k ≠ 0))
  have hstep : next m fcb = .ok (some g) := hn m (by omega)
  rw [visit, hstep]
  dsimp only
  rw [hn' m k (by omega) (by omega)]
  rfl

/-! ## Trees -/

/-- The entries of `cs` are linked from `entry` on, and back to the head of the queue of `dir`. -/
def LinkedFrom (heap : Heap α) (dir : α) : ListEntry α → List α → Prop
  | entry, [] => entry = .parentDcbQueue dir
  | entry, c :: cs => entry = .parentDcbLinks c ∧ LinkedFrom heap dir (heap c).parentDcbLinks cs

/-- The queues of the directories hold `children`, and going down through them ends. -/
structure IsTree (heap : Heap α) (children : α → List α) : Prop where
  directory : ∀ d, (heap d).nodeType ≠ .fcb → LinkedFrom heap d (heap d).parentDcbQueue (children d)
  file : ∀ f, (heap f).nodeType = .fcb → children f = []
  parent : ∀ {c d}, c ∈ children d → (heap c).parentDcb = some d
  wf : WellFounded fun c d => c ∈ children d

section Links

variable {heap} {dir c : α} {entry : ListEntry α} {cs : List α}

omit [DecidableEq α] in
theorem LinkedFrom.unique {cs' : List α} (h : LinkedFrom heap dir entry cs)
    (h' : LinkedFrom heap dir entry cs') : cs = cs' := by
  induction cs generalizing entry cs' with
  | nil =>
      cases cs' with
      | nil => rfl
      | cons c' cs' =>
          rw [LinkedFrom] at h
          rw [h] at h'
          cases h'.1
  | cons c cs ih =>
      cases cs' with
      | nil =>
          rw [LinkedFrom] at h'
          rw [h'] at h
          cases h.1
      | cons c' cs' =>
          obtain rfl := ListEntry.parentDcbLinks.inj (h.1.symm.trans h'.1)
          rw [ih h.2 h'.2]

omit [DecidableEq α] in
theorem LinkedFrom.behind {s t : List α} (h : LinkedFrom heap dir entry (s ++ c :: t)) :
    LinkedFrom heap dir (heap c).parentDcbLinks t := by
  induction s generalizing entry with
  | nil => exact h.2
  | cons d s ih => exact ih h.2

omit [DecidableEq α] in
/-- What is behind an entry fixes the entries behind it, so none comes twice. -/
theorem LinkedFrom.nodup (h : LinkedFrom heap dir entry cs) : cs.Nodup := by
  induction cs generalizing entry with
  | nil => exact List.nodup_nil
  | cons c cs ih =>
      refine List.nodup_cons.mpr ⟨?_, ih h.2⟩
      intro hmem
      obtain ⟨s, t, rfl⟩ := List.append_of_mem hmem
      have hlength := congrArg List.length (h.2.unique h.2.behind)
      simp at hlength
      omega

theorem firstChild_eq (h : LinkedFrom heap dir (heap dir).parentDcbQueue cs) :
    fatGetFirstChild heap dir = cs.head? := by
  rw [fatGetFirstChild]
  cases cs with
  | nil => exact if_pos h
  | cons c cs =>
      rw [h.1, if_neg (by simp)]
      rfl

theorem nextSibling_eq (hparent : (heap c).parentDcb = some dir)
    (h : LinkedFrom heap dir (heap c).parentDcbLinks cs) : fatGetNextSibling heap c = cs.head? := by
  rw [fatGetNextSibling, hparent]
  cases cs with
  | nil =>
      rw [LinkedFrom] at h
      rw [h]
      exact if_pos rfl
  | cons c' cs =>
      rw [h.1, if_neg (by simp)]
      rfl

end Links

namespace IsTree

variable {heap} {children : α → List α} {c d : α} {s t : List α} (h : IsTree heap children)

include h

omit [DecidableEq α] in
theorem isForest : IsForest children where
  nodup d := by
    by_cases hfile : (heap d).nodeType = .fcb
    · rw [h.file d hfile]
      exact List.nodup_nil
    · exact (h.directory d hfile).nodup
  unique hd he := Option.some.inj ((h.parent hd).symm.trans (h.parent he))
  wf := h.wf

omit [DecidableEq α] in
theorem directory_of_children (hc : c ∈ children d) : (heap d).nodeType ≠ .fcb := by
  intro hfile
  rw [h.file d hfile] at hc
  cases hc

theorem firstChild (hdir : (heap d).nodeType ≠ .fcb) :
    fatGetFirstChild heap d = (children d).head? := firstChild_eq (h.directory d hdir)

/-- The next sibling of a child is the child behind it. -/
theorem nextSibling (hchildren : children d = s ++ c :: t) :
    fatGetNextSibling heap c = t.head? := by
  have hc : c ∈ children d := by
    rw [hchildren]
    exact List.mem_append_right s List.mem_cons_self
  have hlinked := h.directory d (h.directory_of_children hc)
  rw [hchildren] at hlinked
  exact nextSibling_eq (h.parent hc) hlinked.behind

omit [DecidableEq α] in
/-- A child in the subtree of `d` is not `d`. -/
theorem ne_of_child {x : α} (hx : Within children x d) (hc : c ∈ children x) : c ≠ d := by
  rintro rfl
  exact h.isForest.not_below_self c (Relation.TransGen.head' hc hx)

/-! ## From the top down -/

section TopDown

variable {T x : α} {l : List α} {r : Option α}

theorem topDown_child (fuel : ℕ) (hchildren : children x = c :: t) :
    fatGetNextFcbTopDown heap T fuel (some x) = .ok (some c) := by
  have hdir := h.directory_of_children (c := c) (d := x) (hchildren ▸ List.mem_cons_self)
  have hlinked := h.directory x hdir
  rw [hchildren] at hlinked
  have hkind : (heap x).nodeType = .dcb ∨ (heap x).nodeType = .rootDcb := by
    cases hn : (heap x).nodeType with
    | fcb => exact absurd hn hdir
    | dcb => exact .inl rfl
    | rootDcb => exact .inr rfl
  rw [fatGetNextFcbTopDown, if_pos ⟨hkind, by rw [hlinked.1]; simp⟩, h.firstChild hdir, hchildren]
  rfl

theorem topDown_leaf (fuel : ℕ) (hchildren : children x = []) :
    fatGetNextFcbTopDown heap T fuel (some x) =
      if x = T then .ok none else ascend heap T fuel x := by
  rw [fatGetNextFcbTopDown, if_neg]
  rintro ⟨hkind, hqueue⟩
  have hdir : (heap x).nodeType ≠ .fcb := by
    rcases hkind with hkind | hkind
    · rw [hkind]
      simp
    · rw [hkind]
      simp
  have hlinked := h.directory x hdir
  rw [hchildren] at hlinked
  exact hqueue hlinked

theorem ascend_sibling {c' : α} (hchildren : children d = s ++ c :: c' :: t) (hne : c' ≠ T) :
    Ends (fun m => ascend heap T m c) (some c') := by
  refine ⟨1, fun m hm => ?_⟩
  obtain ⟨m, rfl⟩ := Nat.exists_eq_add_of_le' hm
  change ascend heap T (m + 1) c = _
  rw [ascend, h.nextSibling hchildren]
  exact congrArg Except.ok (if_neg hne)

theorem ascend_termination (hchildren : children T = s ++ [c]) :
    Ends (fun m => ascend heap T m c) none := by
  refine ⟨1, fun m hm => ?_⟩
  obtain ⟨m, rfl⟩ := Nat.exists_eq_add_of_le' hm
  have hc : c ∈ children T := hchildren ▸ List.mem_append_right s List.mem_cons_self
  change ascend heap T (m + 1) c = _
  rw [ascend, h.nextSibling hchildren]
  exact if_pos (h.parent hc)

theorem ascend_parent (hchildren : children d = s ++ [c]) (hne : d ≠ T)
    (hd : Ends (fun m => ascend heap T m d) r) : Ends (fun m => ascend heap T m c) r := by
  obtain ⟨n, hn⟩ := hd
  refine ⟨n + 1, fun m hm => ?_⟩
  obtain ⟨m, rfl⟩ := Nat.exists_eq_add_of_le' (Nat.one_le_iff_ne_zero.mpr (by omega : m ≠ 0))
  have hc : c ∈ children d := hchildren ▸ List.mem_append_right s List.mem_cons_self
  have hparent := h.parent hc
  change ascend heap T (m + 1) c = _
  rw [ascend, h.nextSibling hchildren]
  dsimp only [List.head?]
  rw [hparent, if_neg fun heq => hne (Option.some.inj heq)]
  exact hn m (by omega)

omit h in
/-- The walk that goes on with `r` visits `l`. -/
def GoesOn (heap : Heap α) (T : α) : Option α → List α → Prop
  | none, l => l = []
  | some y, l => ∃ l', l = y :: l' ∧ Visits (fatGetNextFcbTopDown heap T) (some y) l'

/-- Behind a child come its subtree and those of the children behind it. -/
theorem topDown_siblings (hd : Within children d T)
    (ih : ∀ c ∈ children d, ∀ r l, Ends (fun m => ascend heap T m c) r → GoesOn heap T r l →
      Visits (fatGetNextFcbTopDown heap T) (some c) ((children c).flatMap h.isForest.preorder ++ l))
    (hlast : ∀ s c, children d = s ++ [c] → Ends (fun m => ascend heap T m c) r)
    (hl : GoesOn heap T r l) (hchildren : children d = s ++ c :: t) :
    Visits (fatGetNextFcbTopDown heap T) (some c)
      ((children c).flatMap h.isForest.preorder ++ (t.flatMap h.isForest.preorder ++ l)) := by
  have hc : c ∈ children d := hchildren ▸ List.mem_append_right s List.mem_cons_self
  induction t generalizing s c with
  | nil => exact ih c hc r l (hlast s c hchildren) hl
  | cons c' t iht =>
      have hc' : c' ∈ children d :=
        hchildren ▸ List.mem_append_right s (List.mem_cons_of_mem c List.mem_cons_self)
      have hnext := iht (s := s ++ [c]) (c := c') (by rw [hchildren]; simp) hc'
      refine ih c hc (some c') _ (h.ascend_sibling hchildren (h.ne_of_child hd hc')) ⟨_, ?_, hnext⟩
      rw [List.flatMap_cons, h.isForest.preorder_eq c']
      simp

theorem topDown_from (hx : Within children x T) (hne : x ≠ T)
    (hr : Ends (fun m => ascend heap T m x) r) (hl : GoesOn heap T r l) :
    Visits (fatGetNextFcbTopDown heap T) (some x)
      ((children x).flatMap h.isForest.preorder ++ l) := by
  induction x using h.wf.induction generalizing r l with
  | _ x ih =>
      cases hchildren : children x with
      | nil =>
          have hstep : ∀ fuel, fatGetNextFcbTopDown heap T fuel (some x) = ascend heap T fuel x :=
            fun fuel => (h.topDown_leaf fuel hchildren).trans (if_neg hne)
          cases r with
          | none =>
              rw [GoesOn] at hl
              rw [hl]
              exact Visits.nil (by simpa only [hstep] using hr)
          | some y =>
              obtain ⟨l', rfl, hrest⟩ := hl
              exact Visits.cons (by simpa only [hstep] using hr) hrest
      | cons c t =>
          have hvisits := h.topDown_siblings (s := []) hx
            (fun c hc r l => ih c hc (.head hc hx) (h.ne_of_child hx hc))
            (fun s c hlast => h.ascend_parent hlast hne hr) hl hchildren
          have hvisit := Visits.cons ⟨0, fun m _ => h.topDown_child (T := T) m hchildren⟩ hvisits
          rw [List.flatMap_cons, h.isForest.preorder_eq c]
          simpa using hvisit

/-- **From the top down** the nodes behind `T` are visited in preorder. -/
theorem visits_topDown (T : α) : Visits (fatGetNextFcbTopDown heap T) (some T)
    ((children T).flatMap h.isForest.preorder) := by
  cases hchildren : children T with
  | nil => exact Visits.nil ⟨0, fun m _ => (h.topDown_leaf m hchildren).trans (if_pos rfl)⟩
  | cons c t =>
      have hvisits := h.topDown_siblings (s := []) (r := none) (l := []) .refl
        (fun c hc r l => h.topDown_from (.single hc) (h.ne_of_child .refl hc))
        (fun s c hlast => h.ascend_termination hlast) rfl hchildren
      have hvisit := Visits.cons ⟨0, fun m _ => h.topDown_child (T := T) m hchildren⟩ hvisits
      rw [List.flatMap_cons, h.isForest.preorder_eq c]
      simpa using hvisit

end TopDown

/-! ## From the bottom up -/

section BottomUp

variable {T x : α} {l : List α} {entry : Option α}

omit h in
/-- The step from `entry` goes down to the first leaf under `x`. -/
def Enters (heap : Heap α) (T : α) (entry : Option α) (x : α) : Prop :=
  ∀ r, Ends (fun m => descend heap m x) r →
    Ends (fun m => fatGetNextFcbBottomUp heap T m entry) (some r)

omit h in
theorem enters_of_eq (heq : ∀ fuel, fatGetNextFcbBottomUp heap T fuel entry =
    (descend heap fuel x).map some) : Enters heap T entry x := by
  rintro r ⟨n, hn⟩
  refine ⟨n, fun m hm => ?_⟩
  have hend : descend heap m x = .ok r := hn m hm
  change fatGetNextFcbBottomUp heap T m entry = _
  rw [heq, hend]
  rfl

omit h in
theorem enters_termination : Enters heap T none T := enters_of_eq fun _ => rfl

theorem enters_sibling {c' : α} (hchildren : children d = s ++ c :: c' :: t) (hne : c ≠ T) :
    Enters heap T (some c) c' := by
  apply enters_of_eq
  intro fuel
  rw [fatGetNextFcbBottomUp, if_neg hne, h.nextSibling hchildren]
  rfl

/-- The step goes down to the first leaf of the first child. -/
theorem enters_child (hentry : Enters heap T entry x) (hchildren : children x = c :: t) :
    Enters heap T entry c := by
  have hdir := h.directory_of_children (c := c) (d := x) (hchildren ▸ List.mem_cons_self)
  rintro r ⟨n, hn⟩
  refine hentry r ⟨n + 1, fun m hm => ?_⟩
  obtain ⟨m, rfl⟩ := Nat.exists_eq_add_of_le' (Nat.one_le_iff_ne_zero.mpr (by omega : m ≠ 0))
  change descend heap (m + 1) x = _
  rw [descend, if_neg hdir, h.firstChild hdir, hchildren]
  exact hn m (by omega)

theorem bottomUp_leaf (hentry : Enters heap T entry x) (hchildren : children x = []) :
    Ends (fun m => fatGetNextFcbBottomUp heap T m entry) (some x) := by
  refine hentry x ⟨1, fun m hm => ?_⟩
  obtain ⟨m, rfl⟩ := Nat.exists_eq_add_of_le' hm
  change descend heap (m + 1) x = _
  rw [descend]
  split
  · rfl
  · rename_i hdir
    rw [h.firstChild hdir, hchildren]
    rfl

theorem bottomUp_parent (hchildren : children x = s ++ [c]) (hne : c ≠ T) :
    Ends (fun m => fatGetNextFcbBottomUp heap T m (some c)) (some x) := by
  refine ⟨0, fun m _ => ?_⟩
  have hc : c ∈ children x := hchildren ▸ List.mem_append_right s List.mem_cons_self
  change fatGetNextFcbBottomUp heap T m (some c) = _
  rw [fatGetNextFcbBottomUp, if_neg hne, h.nextSibling hchildren]
  exact congrArg Except.ok (h.parent hc)

/-- The subtrees of a child and of the children behind it come in front of the directory. -/
theorem bottomUp_siblings (hx : Within children x T)
    (ih : ∀ c ∈ children x, ∀ entry l, Enters heap T entry c →
      Visits (fatGetNextFcbBottomUp heap T) (some c) l →
      Visits (fatGetNextFcbBottomUp heap T) entry (h.isForest.postorder c ++ l))
    (hl : Visits (fatGetNextFcbBottomUp heap T) (some x) l) (hentry : Enters heap T entry c)
    (hchildren : children x = s ++ c :: t) :
    Visits (fatGetNextFcbBottomUp heap T) entry
      ((c :: t).flatMap h.isForest.postorder ++ x :: l) := by
  have hc : c ∈ children x := hchildren ▸ List.mem_append_right s List.mem_cons_self
  induction t generalizing s c entry with
  | nil =>
      have hlast := Visits.cons (h.bottomUp_parent hchildren (h.ne_of_child hx hc)) hl
      simpa using ih c hc entry _ hentry hlast
  | cons c' t iht =>
      have hc' : c' ∈ children x :=
        hchildren ▸ List.mem_append_right s (List.mem_cons_of_mem c List.mem_cons_self)
      have hnext := iht (s := s ++ [c]) (h.enters_sibling hchildren (h.ne_of_child hx hc))
        (by rw [hchildren]; simp) hc'
      rw [List.flatMap_cons, List.append_assoc]
      exact ih c hc entry _ hentry hnext

theorem bottomUp_from (hx : Within children x T) (hentry : Enters heap T entry x)
    (hl : Visits (fatGetNextFcbBottomUp heap T) (some x) l) :
    Visits (fatGetNextFcbBottomUp heap T) entry (h.isForest.postorder x ++ l) := by
  induction x using h.wf.induction generalizing entry l with
  | _ x ih =>
      rw [h.isForest.postorder_eq, List.append_assoc]
      cases hchildren : children x with
      | nil => exact Visits.cons (h.bottomUp_leaf hentry hchildren) hl
      | cons c t =>
          exact h.bottomUp_siblings (s := []) hx
            (fun c hc entry l => ih c hc (.head hc hx)) hl (h.enters_child hentry hchildren) hchildren

/-- **From the bottom up** the nodes are visited in postorder. -/
theorem visits_bottomUp (T : α) :
    Visits (fatGetNextFcbBottomUp heap T) none (h.isForest.postorder T) := by
  have hend : Visits (fatGetNextFcbBottomUp heap T) (some T) [] :=
    Visits.nil ⟨0, fun m _ => if_pos rfl⟩
  simpa using h.bottomUp_from .refl enters_termination hend

end BottomUp

end IsTree

/-! ## The walks -/

variable {heap}

/-- **The walks** visit every node of the subtree of `T` once: the nodes under another one after it when
the walk goes from the top down, and in front of it when the walk goes from the bottom up. -/
theorem walks {children : α → List α} (h : IsTree heap children) (T : α) :
    (∃ l, Visits (fatGetNextFcbTopDown heap T) (some T) l ∧ (T :: l).Nodup ∧
      (∀ x, x ∈ T :: l ↔ Within children x T) ∧
      ∀ x y, Within children x T → Below children y x → [x, y].Sublist (T :: l)) ∧
    ∃ l, Visits (fatGetNextFcbBottomUp heap T) none l ∧ l.Nodup ∧
      (∀ x, x ∈ l ↔ Within children x T) ∧ l.getLast? = some T ∧
      ∀ x y, Within children x T → Below children y x → [y, x].Sublist l := by
  have hf := h.isForest
  constructor
  · refine ⟨_, h.visits_topDown T, ?_⟩
    rw [← hf.preorder_eq]
    exact ⟨hf.nodup_preorder T, fun _ => hf.mem_preorder T, fun _ _ => hf.sublist_preorder⟩
  · exact ⟨_, h.visits_bottomUp T, hf.nodup_postorder T, fun _ => hf.mem_postorder T,
      hf.getLast?_postorder T, fun _ _ => hf.sublist_postorder⟩

/-- A root with a directory, which has a file, and a file behind it. -/
def smallTree (f : Fin 4) : Fcb (Fin 4) :=
  [⟨.rootDcb, none, .parentDcbLinks 1, .parentDcbLinks 0⟩,
    ⟨.dcb, some 0, .parentDcbLinks 2, .parentDcbLinks 3⟩,
    ⟨.fcb, some 1, .parentDcbLinks 2, .parentDcbQueue 1⟩,
    ⟨.fcb, some 0, .parentDcbLinks 3, .parentDcbQueue 0⟩].get f

def smallChildren (f : Fin 4) : List (Fin 4) := [[1, 3], [2], [], []].get f

theorem isTree_smallTree : IsTree smallTree smallChildren where
  directory d hdir := by
    fin_cases d
    · exact ⟨rfl, rfl, rfl⟩
    · exact ⟨rfl, rfl⟩
    · exact absurd rfl hdir
    · exact absurd rfl hdir
  file := by decide
  parent {c d} := by
    revert c d
    decide
  wf := by
    have hup : ∀ c d, c ∈ smallChildren d → d < c := by decide
    exact Subrelation.wf (fun {c d} hc => hup c d hc) wellFounded_gt

theorem walks_smallTree :
    (∃ l, Visits (fatGetNextFcbTopDown smallTree 1) (some 1) l ∧ (1 :: l).Nodup ∧
      (∀ x, x ∈ 1 :: l ↔ Within smallChildren x 1) ∧
      ∀ x y, Within smallChildren x 1 → Below smallChildren y x → [x, y].Sublist (1 :: l)) ∧
    ∃ l, Visits (fatGetNextFcbBottomUp smallTree 1) none l ∧ l.Nodup ∧
      (∀ x, x ∈ l ↔ Within smallChildren x 1) ∧ l.getLast? = some 1 ∧
      ∀ x y, Within smallChildren x 1 → Below smallChildren y x → [y, x].Sublist l :=
  walks isTree_smallTree 1

end KernelDrivers.Fat.Enumeration
