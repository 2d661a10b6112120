import KernelDrivers.Lib.SearchTree

/-!
# Splaying

Routines that splay a node to the root and that delete a node, known by what they do to
the in-order sequence.  `bottomUp` is the usual implementation: rotations along the path
from the node to the root, and deletion by exchange with the predecessor.

## Main definitions

* `SplayLinks α` — a pair of routines with the in-order sequence each leaves.
* `Turn`, `plug` — the path from a node to the root.
* `bottomUp` — splaying by rotation.
-/

namespace KernelDrivers

variable {α : Type}

/-- Splaying and deletion of nodes, by their effect on the in-order sequence. -/
structure SplayLinks (α : Type) [DecidableEq α] where
  splay : α → BinaryTree α → BinaryTree α
  delete : α → BinaryTree α → BinaryTree α
  inorder_splay : ∀ {x t}, x ∈ inorder t → inorder (splay x t) = inorder t
  inorder_delete : ∀ {x t}, x ∈ inorder t → (inorder t).Nodup →
    inorder (delete x t) = (inorder t).erase x

/-- One link on the way from a node to the root: from a left child, whose parent and
right sibling are given, or from a right child. -/
inductive Turn (α : Type)
  | left (parent : α) (sibling : BinaryTree α)
  | right (sibling : BinaryTree α) (parent : α)

/-- The nodes before the focus. -/
def nodesBefore : List (Turn α) → List α
  | [] => []
  | .left _ _ :: path => nodesBefore path
  | .right l p :: path => nodesBefore path ++ inorder l ++ [p]

/-- The nodes behind the focus. -/
def nodesAfter : List (Turn α) → List α
  | [] => []
  | .left p r :: path => p :: inorder r ++ nodesAfter path
  | .right _ _ :: path => nodesAfter path

/-- The in-order sequence of the tree with `t` at the end of the path. -/
def inorderAt (t : BinaryTree α) (path : List (Turn α)) : List α :=
  nodesBefore path ++ inorder t ++ nodesAfter path

/-- Rotate the node `a` with the children `l` and `r` up the path. -/
def rotateUp (a : α) (l r : BinaryTree α) : List (Turn α) → BinaryTree α
  | [] => .node a l r
  | [.left p pr] => .node a l (.node p r pr)
  | [.right pl p] => .node a (.node p pl l) r
  | .left p pr :: .left g gr :: path => rotateUp a l (.node p r (.node g pr gr)) path
  | .right pl p :: .right gl g :: path => rotateUp a (.node p (.node g gl pl) l) r path
  | .left p pr :: .right gl g :: path => rotateUp a (.node g gl l) (.node p r pr) path
  | .right pl p :: .left g gr :: path => rotateUp a (.node p pl l) (.node g r gr) path

theorem inorder_rotateUp (a : α) (l r : BinaryTree α) (path : List (Turn α)) :
    inorder (rotateUp a l r path) = inorderAt (.node a l r) path := by
  fun_induction rotateUp a l r path with
  | case1 => simp [inorderAt, nodesBefore, nodesAfter]
  | case2 => simp [inorderAt, nodesBefore, nodesAfter]
  | case3 => simp [inorderAt, nodesBefore, nodesAfter]
  | case4 l r p pr g gr path ih => simp [ih, inorderAt, nodesBefore, nodesAfter]
  | case5 l r pl p gl g path ih => simp [ih, inorderAt, nodesBefore, nodesAfter]
  | case6 l r p pr gl g path ih => simp [ih, inorderAt, nodesBefore, nodesAfter]
  | case7 l r pl p g gr path ih => simp [ih, inorderAt, nodesBefore, nodesAfter]

/-- Put `child` in the place of its parent's child and splay the parent. -/
def replaceAt (child : BinaryTree α) : List (Turn α) → BinaryTree α
  | [] => child
  | .left p pr :: path => rotateUp p child pr path
  | .right pl p :: path => rotateUp p pl child path

theorem inorder_replaceAt (child : BinaryTree α) (path : List (Turn α)) :
    inorder (replaceAt child path) = inorderAt child path := by
  cases path with
  | nil => simp [replaceAt, inorderAt, nodesBefore, nodesAfter]
  | cons turn path =>
      cases turn <;> simp [replaceAt, inorder_rotateUp, inorderAt, nodesBefore, nodesAfter]

/-- The rightmost node of a tree with root `a`, its left child, and the path to it. -/
def rightmost (a : α) (l : BinaryTree α) : BinaryTree α → α × BinaryTree α × List (Turn α)
  | .nil => (a, l, [])
  | .node b bl br =>
      let last := rightmost b bl br
      (last.1, last.2.1, last.2.2 ++ [.right l a])

theorem nodesBefore_append (path path' : List (Turn α)) :
    nodesBefore (path ++ path') = nodesBefore path' ++ nodesBefore path := by
  induction path with
  | nil => simp [nodesBefore]
  | cons turn path ih => cases turn <;> simp [nodesBefore, ih]

theorem nodesAfter_append (path path' : List (Turn α)) :
    nodesAfter (path ++ path') = nodesAfter path ++ nodesAfter path' := by
  induction path with
  | nil => simp [nodesAfter]
  | cons turn path ih => cases turn <;> simp [nodesAfter, ih]

theorem inorder_rightmost (a : α) (l r : BinaryTree α) :
    inorder (.node a l r) =
      nodesBefore (rightmost a l r).2.2 ++ inorder (rightmost a l r).2.1 ++ [(rightmost a l r).1] ∧
    nodesAfter (rightmost a l r).2.2 = [] := by
  induction r generalizing a l with
  | nil => simp [rightmost, nodesBefore, nodesAfter]
  | node b bl br _ ih =>
      obtain ⟨hseq, hafter⟩ := ih b bl
      refine ⟨?_, by simp [rightmost, nodesAfter_append, nodesAfter, hafter]⟩
      rw [inorder_node, hseq]
      simp [rightmost, nodesBefore_append, nodesBefore]

/-- Take the node `a` with the children `l` and `r` out.  One with two children changes
places with its predecessor first. -/
def deleteAt : BinaryTree α → BinaryTree α → List (Turn α) → BinaryTree α
  | .nil, r, path => replaceAt r path
  | l, .nil, path => replaceAt l path
  | .node b bl br, r, path =>
      let last := rightmost b bl br
      replaceAt last.2.1 (last.2.2 ++ .left last.1 r :: path)

theorem inorder_deleteAt (l r : BinaryTree α) (path : List (Turn α)) :
    inorder (deleteAt l r path) = nodesBefore path ++ inorder l ++ inorder r ++ nodesAfter path := by
  cases l with
  | nil => simp [deleteAt, inorder_replaceAt, inorderAt]
  | node b bl br =>
      cases r with
      | nil => simp [deleteAt, inorder_replaceAt, inorderAt]
      | node c cl cr =>
          obtain ⟨hseq, hafter⟩ := inorder_rightmost b bl br
          rw [hseq]
          simp [deleteAt, inorder_replaceAt, inorderAt, nodesBefore_append, nodesAfter_append,
            nodesBefore, nodesAfter, hafter]

section Locate

variable [DecidableEq α] (x : α)

/-- The children of the node `x` and the path from it to the root. -/
def locate : BinaryTree α → List (Turn α) → Option (BinaryTree α × BinaryTree α × List (Turn α))
  | .nil, _ => none
  | .node a l r, path =>
      match locate l (.left a r :: path) with
      | some place => some place
      | none => if a = x then some (l, r, path) else locate r (.right l a :: path)

variable {x}

theorem inorderAt_of_locate {t l r : BinaryTree α} {path path' : List (Turn α)}
    (h : locate x t path = some (l, r, path')) :
    inorderAt (.node x l r) path' = inorderAt t path := by
  fun_induction locate x t path with
  | case1 => simp at h
  | case2 a tl tr path place hplace ih =>
      simp only [Option.some.injEq] at h
      rw [ih (by rw [hplace, h])]
      simp [inorderAt, nodesBefore, nodesAfter]
  | case3 tl tr path hnone =>
      simp only [Option.some.injEq, Prod.mk.injEq] at h
      obtain ⟨rfl, rfl, rfl⟩ := h
      rfl
  | case4 a tl tr path hnone hne _ ih =>
      rw [ih h]
      simp [inorderAt, nodesBefore, nodesAfter]

theorem notMem_of_locate {t : BinaryTree α} {path : List (Turn α)}
    (h : locate x t path = none) : x ∉ inorder t := by
  fun_induction locate x t path with
  | case1 => simp
  | case2 a tl tr path place hplace ih => simp at h
  | case3 tl tr path hnone => simp at h
  | case4 a tl tr path hnone hne ihl ihr =>
      simp only [inorder_node, List.mem_append, List.mem_cons, not_or]
      exact ⟨ihl hnone, fun heq => hne heq.symm, ihr h⟩

end Locate

/-- Splaying by rotation along the path to the root. -/
def bottomUp (α : Type) [DecidableEq α] : SplayLinks α where
  splay x t :=
    match locate x t [] with
    | none => t
    | some (l, r, path) => rotateUp x l r path
  delete x t :=
    match locate x t [] with
    | none => t
    | some (l, r, path) => deleteAt l r path
  inorder_splay := by
    intro x t hx
    cases hloc : locate x t [] with
    | none => rfl
    | some place =>
        obtain ⟨l, r, path⟩ := place
        rw [inorder_rotateUp, inorderAt_of_locate hloc]
        simp [inorderAt, nodesBefore, nodesAfter]
  inorder_delete := by
    intro x t hx hnodup
    cases hloc : locate x t [] with
    | none => exact absurd hx (notMem_of_locate hloc)
    | some place =>
        obtain ⟨l, r, path⟩ := place
        have hseq := inorderAt_of_locate hloc
        have hroot : inorderAt t [] = inorder t := by simp [inorderAt, nodesBefore, nodesAfter]
        rw [hroot] at hseq
        rw [← hseq] at hnodup ⊢
        rw [inorder_deleteAt]
        simp only [inorderAt, inorder_node, List.append_assoc, List.cons_append] at hnodup ⊢
        have hbefore : x ∉ nodesBefore path := fun hmem =>
          (List.nodup_append.mp hnodup).2.2 x hmem x (by simp) rfl
        have hleft : x ∉ inorder l := fun hmem =>
          (List.nodup_append.mp (List.nodup_append.mp hnodup).2.1).2.2 x hmem x (by simp) rfl
        rw [List.erase_append_right _ hbefore, List.erase_append_right _ hleft, List.erase_cons_head]

end KernelDrivers
