import Mathlib.Data.List.Flatten
import Mathlib.Logic.Relation
import Mathlib.Tactic

/-!
# Finite ordered trees

Trees are given by the list of the children of each node.  Going down ends, and a node is a child of one
node only.

## Main definitions

* `Within` — a node of a subtree.
* `Below` — a node under another one.
* `preorder`, `postorder` — the nodes of a subtree, each before or after those under it.

## Main results

* `mem_preorder`, `nodup_preorder`, `sublist_preorder` — the preorder has every node of the subtree
  once, and in front of the nodes under it.
* `perm_postorder`, `sublist_postorder` — the same for the postorder, from the back.
-/

namespace KernelDrivers.FiniteTree

open List (Sublist)
open scoped List

variable {α : Type} {children : α → List α} {a b c x y : α}

/-- `x` is `a` or a node under it. -/
def Within (children : α → List α) (x a : α) : Prop :=
  Relation.ReflTransGen (fun c d => c ∈ children d) x a

/-- `x` is a node under `a`. -/
def Below (children : α → List α) (x a : α) : Prop :=
  Relation.TransGen (fun c d => c ∈ children d) x a

/-- The lists of children are those of finite trees. -/
structure IsForest (children : α → List α) : Prop where
  nodup : ∀ d, (children d).Nodup
  unique : ∀ {c d e}, c ∈ children d → c ∈ children e → d = e
  wf : WellFounded fun c d => c ∈ children d

theorem within_iff : Within children x a ↔ x = a ∨ ∃ c ∈ children a, Within children x c := by
  constructor
  · intro h
    cases h with
    | refl => exact .inl rfl
    | tail h hc => exact .inr ⟨_, hc, h⟩
  · rintro (rfl | ⟨c, hc, h⟩)
    · exact .refl
    · exact .tail h hc

theorem below_iff : Below children x a ↔ ∃ c ∈ children a, Within children x c := by
  rw [Below, Relation.TransGen.tail'_iff]
  constructor
  · rintro ⟨c, h, hc⟩
    exact ⟨c, hc, h⟩
  · rintro ⟨c, hc, h⟩
    exact ⟨c, h, hc⟩

theorem sublist_flatMap {f : α → List α} {l : List α} (hx : x ∈ l) : f x <+ l.flatMap f := by
  obtain ⟨s, t, rfl⟩ := List.append_of_mem hx
  rw [List.flatMap_append, List.flatMap_cons]
  exact (List.sublist_append_left _ _).trans (List.sublist_append_right _ _)

namespace IsForest

variable (h : IsForest children)

include h

/-- The nodes of a subtree, each before those under it. -/
noncomputable def preorder : α → List α :=
  h.wf.fix fun a ih => a :: (children a).attach.flatMap fun c => ih c.1 c.2

/-- The nodes of a subtree, each after those under it. -/
noncomputable def postorder : α → List α :=
  h.wf.fix fun a ih => ((children a).attach.flatMap fun c => ih c.1 c.2) ++ [a]

theorem preorder_eq (a : α) : h.preorder a = a :: (children a).flatMap h.preorder := by
  rw [preorder, WellFounded.fix_eq]
  congr 1
  rw [List.flatMap_subtype fun _ _ => rfl, List.unattach_attach]

theorem postorder_eq (a : α) : h.postorder a = (children a).flatMap h.postorder ++ [a] := by
  rw [postorder, WellFounded.fix_eq]
  congr 1
  rw [List.flatMap_subtype fun _ _ => rfl, List.unattach_attach]

theorem not_below_self (a : α) : ¬ Below children a a :=
  fun hbelow => h.wf.transGen.irrefl.irrefl a hbelow

/-- Two children of one node have nothing under them in common. -/
theorem disjoint_children (hc : b ∈ children a) (hd : c ∈ children a) (hne : b ≠ c)
    (hx : Within children x b) : ¬ Within children x c := by
  have honly : ∀ {d e}, d ∈ children a → e ∈ children a → d ≠ e → ¬ Within children d e := by
    intro d e hd he hde hwithin
    rcases Relation.ReflTransGen.cases_head hwithin with heq | ⟨f, hf, hrest⟩
    · exact hde heq
    · rw [h.unique hf hd] at hrest
      exact h.not_below_self a (Relation.TransGen.tail' hrest he)
  have hright : Relator.RightUnique fun d e => d ∈ children e := fun _ _ _ hd he => h.unique hd he
  intro hx'
  rcases Relation.ReflTransGen.total_of_right_unique hright hx hx' with hle | hle
  · exact honly hc hd hne hle
  · exact honly hd hc hne.symm hle

/-! ## The preorder -/

theorem mem_preorder (a : α) : x ∈ h.preorder a ↔ Within children x a := by
  induction a using h.wf.induction with
  | _ a ih =>
      rw [h.preorder_eq, List.mem_cons, List.mem_flatMap, within_iff]
      refine or_congr_right (exists_congr fun c => ?_)
      exact and_congr_right fun hc => ih c hc

theorem nodup_preorder (a : α) : (h.preorder a).Nodup := by
  induction a using h.wf.induction with
  | _ a ih =>
      rw [h.preorder_eq, List.nodup_cons, List.nodup_flatMap]
      refine ⟨?_, ih, ?_⟩
      · rw [List.mem_flatMap]
        rintro ⟨c, hc, ha⟩
        exact h.not_below_self a (Relation.TransGen.tail' ((h.mem_preorder c).mp ha) hc)
      · refine (List.pairwise_iff_forall_sublist.mpr ?_)
        intro b c hsub
        have hne : b ≠ c := by
          rintro rfl
          exact absurd (hsub.nodup (h.nodup a)) (by simp)
        have hb := hsub.subset List.mem_cons_self
        have hc := hsub.subset (List.mem_cons_of_mem b List.mem_cons_self)
        intro x hx hx'
        exact h.disjoint_children hb hc hne ((h.mem_preorder b).mp hx) ((h.mem_preorder c).mp hx')

/-- A node comes before those under it. -/
theorem sublist_preorder (hx : Within children x a) (hy : Below children y x) :
    [x, y] <+ h.preorder a := by
  have hblock : h.preorder x <+ h.preorder a := by
    induction hx with
    | refl => exact List.Sublist.refl _
    | @tail _ d _ hc ih =>
        rw [h.preorder_eq d]
        exact (ih.trans (sublist_flatMap hc)).cons _
  refine List.Sublist.trans ?_ hblock
  obtain ⟨c, hc, hwithin⟩ := below_iff.mp hy
  rw [h.preorder_eq]
  exact (List.singleton_sublist.mpr
    (List.mem_flatMap.mpr ⟨c, hc, (h.mem_preorder c).mpr hwithin⟩)).cons_cons x

/-! ## The postorder -/

theorem perm_postorder (a : α) : h.postorder a ~ h.preorder a := by
  induction a using h.wf.induction with
  | _ a ih =>
      rw [h.preorder_eq, h.postorder_eq]
      exact ((List.Perm.flatMap_left _ ih).append_right _).trans (List.perm_append_singleton _ _)

theorem mem_postorder (a : α) : x ∈ h.postorder a ↔ Within children x a := by
  rw [(h.perm_postorder a).mem_iff, h.mem_preorder]

theorem nodup_postorder (a : α) : (h.postorder a).Nodup :=
  (h.perm_postorder a).nodup_iff.mpr (h.nodup_preorder a)

theorem getLast?_postorder (a : α) : (h.postorder a).getLast? = some a := by
  rw [h.postorder_eq, List.getLast?_append, List.getLast?_singleton, Option.some_or]

/-- A node comes after those under it. -/
theorem sublist_postorder (hx : Within children x a) (hy : Below children y x) :
    [y, x] <+ h.postorder a := by
  have hblock : h.postorder x <+ h.postorder a := by
    induction hx with
    | refl => exact List.Sublist.refl _
    | @tail _ d _ hc ih =>
        rw [h.postorder_eq d]
        exact (ih.trans (sublist_flatMap hc)).trans (List.sublist_append_left _ _)
  refine List.Sublist.trans ?_ hblock
  obtain ⟨c, hc, hwithin⟩ := below_iff.mp hy
  rw [h.postorder_eq]
  exact (List.singleton_sublist.mpr
    (List.mem_flatMap.mpr ⟨c, hc, (h.mem_postorder c).mpr hwithin⟩)).append (List.Sublist.refl [x])

end IsForest

end KernelDrivers.FiniteTree
