import Mathlib.Data.Tree.Basic
import Mathlib.Order.Compare
import Mathlib.Tactic

/-!
# Search trees over a key

Binary trees of nodes that are ordered by a key.  All that matters of a tree is its
in-order sequence: a tree is a search tree when the keys of the sequence ascend, so that
whatever rebalances a tree and keeps the sequence keeps search trees.

## Main definitions

* `inorder t` — the in-order sequence of a tree.
* `IsSearchTree key t` — its keys ascend.
* `walk c t` — descend by comparison to the node for which `c` is equality.
* `insertLeaf c x t` — descend likewise and hang `x` in where the descent ends.
-/

namespace KernelDrivers

variable {α κ : Type}

/-- The in-order sequence of a tree. -/
def inorder : BinaryTree α → List α
  | .nil => []
  | .node a l r => inorder l ++ a :: inorder r

@[simp] theorem inorder_nil : inorder (.nil : BinaryTree α) = [] := rfl

@[simp] theorem inorder_node (a : α) (l r : BinaryTree α) :
    inorder (.node a l r) = inorder l ++ a :: inorder r := rfl

/-- Descend from the root to the node for which `c` is equality. -/
def walk (c : α → Ordering) : BinaryTree α → Option α
  | .nil => none
  | .node a l r =>
      match c a with
      | .gt => walk c l
      | .lt => walk c r
      | .eq => some a

/-- Descend from the root and insert `x` as a leaf.  The result is the node in the way,
when there is one for which `c` is equality. -/
def insertLeaf (c : α → Ordering) (x : α) : BinaryTree α → Except α (BinaryTree α)
  | .nil => .ok (.node x .nil .nil)
  | .node a l r =>
      match c a with
      | .eq => .error a
      | .gt => (insertLeaf c x l).map fun l' => .node a l' r
      | .lt => (insertLeaf c x r).map fun r' => .node a l r'

section Key

variable [LinearOrder κ] (key : α → κ)

/-- The keys ascend from left to right. -/
def IsSearchTree (t : BinaryTree α) : Prop := (inorder t).Pairwise fun a b => key a < key b

variable {key} {a x : α} {k : κ} {l r t t' : BinaryTree α}

theorem isSearchTree_nil : IsSearchTree key (.nil : BinaryTree α) := List.Pairwise.nil

theorem isSearchTree_node : IsSearchTree key (.node a l r) ↔
    IsSearchTree key l ∧ IsSearchTree key r ∧ (∀ x ∈ inorder l, key x < key a) ∧
      ∀ x ∈ inorder r, key a < key x := by
  rw [IsSearchTree, inorder_node, List.pairwise_append, List.pairwise_cons]
  constructor
  · rintro ⟨hl, ⟨ha, hr⟩, hlr⟩
    exact ⟨hl, hr, fun x hx => hlr x hx a (by simp), ha⟩
  · rintro ⟨hl, hr, hla, har⟩
    refine ⟨hl, ⟨har, hr⟩, fun x hx y hy => ?_⟩
    rw [List.mem_cons] at hy
    obtain rfl | hy := hy
    · exact hla x hx
    · exact (hla x hx).trans (har y hy)

namespace IsSearchTree

/-- Dropping nodes from the sequence keeps a search tree. -/
theorem of_sublist (h : IsSearchTree key t) (hsub : (inorder t').Sublist (inorder t)) :
    IsSearchTree key t' := List.Pairwise.sublist hsub h

theorem of_inorder_eq (h : IsSearchTree key t) (heq : inorder t' = inorder t) :
    IsSearchTree key t' := by
  rw [IsSearchTree, heq]
  exact h

theorem nodup (h : IsSearchTree key t) : (inorder t).Nodup := by
  refine List.Pairwise.imp ?_ h
  intro a b hab heq
  rw [heq] at hab
  exact lt_irrefl _ hab

/-- A key is that of one node. -/
theorem eq_of_key_eq (h : IsSearchTree key t) {y : α} (hx : x ∈ inorder t) (hy : y ∈ inorder t)
    (hkey : key x = key y) : x = y := by
  induction t with
  | nil => exact absurd hx List.not_mem_nil
  | node a l r ihl ihr =>
      obtain ⟨hl, hr, hla, har⟩ := isSearchTree_node.mp h
      rw [inorder_node, List.mem_append, List.mem_cons] at hx hy
      rcases hx with hx | rfl | hx <;> rcases hy with hy | rfl | hy
      · exact ihl hl hx hy
      · exact absurd hkey (hla x hx).ne
      · exact absurd hkey ((hla x hx).trans (har y hy)).ne
      · exact absurd hkey (hla y hy).ne'
      · rfl
      · exact absurd hkey (har y hy).ne
      · exact absurd hkey ((hla y hy).trans (har x hx)).ne'
      · exact absurd hkey (har x hx).ne'
      · exact ihr hr hx hy

variable {c : α → Ordering}

/-- **Searching** finds the node with the key, if there is one. -/
theorem walk_eq_some_iff (h : IsSearchTree key t) (hc : ∀ a, (c a).Compares (key a) k) :
    walk c t = some x ↔ x ∈ inorder t ∧ key x = k := by
  induction t with
  | nil => simp [walk]
  | node a l r ihl ihr =>
      obtain ⟨hl, hr, hla, har⟩ := isSearchTree_node.mp h
      rw [walk, inorder_node, List.mem_append, List.mem_cons]
      cases hcmp : c a with
      | gt =>
          have hlt : k < key a := (hc a).eq_gt.mp hcmp
          refine (ihl hl).trans ⟨fun hx => ⟨Or.inl hx.1, hx.2⟩, ?_⟩
          rintro ⟨hx | rfl | hx, rfl⟩
          · exact ⟨hx, rfl⟩
          · exact absurd hlt (lt_irrefl _)
          · exact absurd (hlt.trans (har x hx)) (lt_irrefl _)
      | lt =>
          have hlt : key a < k := (hc a).eq_lt.mp hcmp
          refine (ihr hr).trans ⟨fun hx => ⟨Or.inr (Or.inr hx.1), hx.2⟩, ?_⟩
          rintro ⟨hx | rfl | hx, rfl⟩
          · exact absurd (hlt.trans (hla x hx)) (lt_irrefl _)
          · exact absurd hlt (lt_irrefl _)
          · exact ⟨hx, rfl⟩
      | eq =>
          have heq : key a = k := (hc a).eq_eq.mp hcmp
          constructor
          · rintro ⟨⟩
            exact ⟨Or.inr (Or.inl rfl), heq⟩
          · rintro ⟨hx, hkey⟩
            have hmem : x ∈ inorder (.node a l r) := by
              rw [inorder_node, List.mem_append, List.mem_cons]
              exact hx
            exact congrArg some (h.eq_of_key_eq (by simp) hmem (heq.trans hkey.symm))

end IsSearchTree

/-- What inserting a leaf comes to. -/
def Inserts (key : α → κ) (x : α) (t : BinaryTree α) : Except α (BinaryTree α) → Prop
  | .error a => a ∈ inorder t ∧ key a = key x
  | .ok t' => IsSearchTree key t' ∧ (∀ y, y ∈ inorder t' ↔ y = x ∨ y ∈ inorder t) ∧
      ∀ y ∈ inorder t, key y ≠ key x

/-- **Inserting** meets the node with the same key or adds a leaf and keeps a search
tree. -/
theorem IsSearchTree.inserts_insertLeaf {c : α → Ordering} (h : IsSearchTree key t)
    (hc : ∀ a, (c a).Compares (key a) (key x)) : Inserts key x t (insertLeaf c x t) := by
  induction t with
  | nil =>
      refine ⟨?_, fun y => by simp, fun y hy => absurd hy List.not_mem_nil⟩
      exact List.pairwise_singleton _ _
  | node a l r ihl ihr =>
      obtain ⟨hl, hr, hla, har⟩ := isSearchTree_node.mp h
      rw [insertLeaf]
      cases hcmp : c a with
      | eq => exact ⟨by simp, (hc a).eq_eq.mp hcmp⟩
      | gt =>
          have hlt : key x < key a := (hc a).eq_gt.mp hcmp
          have hih := ihl hl
          cases hins : insertLeaf c x l with
          | error b =>
              rw [hins] at hih
              exact ⟨by simp [hih.1], hih.2⟩
          | ok l' =>
              rw [hins] at hih
              obtain ⟨htree, hmem, hne⟩ := hih
              refine ⟨isSearchTree_node.mpr ⟨htree, hr, fun y hy => ?_, har⟩, fun y => ?_, ?_⟩
              · obtain rfl | hy := (hmem y).mp hy
                · exact hlt
                · exact hla y hy
              · simp only [inorder_node, List.mem_append, List.mem_cons, hmem, or_assoc]
              · intro y hy
                simp only [inorder_node, List.mem_append, List.mem_cons] at hy
                rcases hy with hy | rfl | hy
                · exact hne y hy
                · exact hlt.ne'
                · exact (hlt.trans (har y hy)).ne'
      | lt =>
          have hlt : key a < key x := (hc a).eq_lt.mp hcmp
          have hih := ihr hr
          cases hins : insertLeaf c x r with
          | error b =>
              rw [hins] at hih
              exact ⟨by simp [hih.1], hih.2⟩
          | ok r' =>
              rw [hins] at hih
              obtain ⟨htree, hmem, hne⟩ := hih
              refine ⟨isSearchTree_node.mpr ⟨hl, htree, hla, fun y hy => ?_⟩, fun y => ?_, ?_⟩
              · obtain rfl | hy := (hmem y).mp hy
                · exact hlt
                · exact har y hy
              · simp only [inorder_node, List.mem_append, List.mem_cons, hmem]
                tauto
              · intro y hy
                simp only [inorder_node, List.mem_append, List.mem_cons] at hy
                rcases hy with hy | rfl | hy
                · exact ((hla y hy).trans hlt).ne
                · exact hlt.ne
                · exact hne y hy

end Key

end KernelDrivers
