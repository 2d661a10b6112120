import Mathlib.Tactic

/-!
# Linked chains

A table that gives for every node the node after it, a mark for the end of a chain,
or something else.  `Leads link cs t` says that the nodes `cs` are linked one to the
next and that the last of them points to `t`; a chain with its end mark is
`Leads link cs .last`.

## Main definitions

* `Link` — where a node points.
* `Link.head cs` — what points to the sequence `cs`, or the end mark when that is empty.
* `Leads` — a linked sequence of nodes and where it leads.
-/

namespace KernelDrivers

/-- Where a node points. -/
inductive Link (α : Type)
  | next (a : α)
  | last
  | broken
  deriving DecidableEq, Repr

variable {α : Type} {link link' : α → Link α} {t : Link α}

/-- The link to the first of some nodes; the end mark when there is none. -/
def Link.head : List α → Link α
  | [] => .last
  | a :: _ => .next a

/-- The nodes are linked one to the next, and the last of them points to `t`. -/
def Leads (link : α → Link α) : List α → Link α → Prop
  | [], _ => False
  | [a], t => link a = t
  | a :: b :: cs, t => link a = .next b ∧ Leads link (b :: cs) t

namespace Leads

theorem ne_nil {cs : List α} (h : Leads link cs t) : cs ≠ [] := by
  rintro rfl
  exact h

/-- Only the links of the nodes themselves count. -/
theorem congr {cs : List α} (h : Leads link cs t) (heq : ∀ a ∈ cs, link' a = link a) :
    Leads link' cs t := by
  induction cs with
  | nil => exact h
  | cons a cs ih =>
      cases cs with
      | nil => exact (heq a (by simp)).trans h
      | cons b cs =>
          refine ⟨(heq a (by simp)).trans h.1, ih h.2 fun x hx => ?_⟩
          exact heq x (List.mem_cons_of_mem _ hx)

/-- No node of a sequence with an end is broken. -/
theorem ne_broken {cs : List α} (h : Leads link cs t) (ht : t ≠ .broken) {a : α} (ha : a ∈ cs) :
    link a ≠ .broken := by
  induction cs with
  | nil => simp at ha
  | cons b cs ih =>
      cases cs with
      | nil =>
          rw [List.mem_singleton] at ha
          rw [ha, show link b = t from h]
          exact ht
      | cons c cs =>
          rw [List.mem_cons] at ha
          rcases ha with heq | ha
          · rw [heq, h.1]
            simp
          · exact ih h.2 ha

/-- Two sequences one after the other. -/
theorem append_iff {cs ds : List α} {d : α} (hcs : cs ≠ []) :
    Leads link (cs ++ d :: ds) t ↔ Leads link cs (.next d) ∧ Leads link (d :: ds) t := by
  induction cs with
  | nil => exact absurd rfl hcs
  | cons a cs ih =>
      cases cs with
      | nil => exact Iff.rfl
      | cons b cs =>
          have := ih (by simp)
          simp only [List.cons_append, Leads] at this ⊢
          rw [this, and_assoc]

/-- The same with an end mark, where the second sequence may be empty. -/
theorem append_last_iff {cs ds : List α} (hcs : cs ≠ []) :
    Leads link (cs ++ ds) .last ↔
      Leads link cs (Link.head ds) ∧ (ds = [] ∨ Leads link ds .last) := by
  cases ds with
  | nil => simp [Link.head]
  | cons d ds => simp [append_iff hcs, Link.head]

/-- Where the last node points. -/
theorem link_getLast {cs : List α} (h : Leads link cs t) (hne : cs ≠ []) :
    link (cs.getLast hne) = t := by
  induction cs with
  | nil => exact absurd rfl hne
  | cons a cs ih =>
      cases cs with
      | nil => exact h
      | cons b cs => rw [List.getLast_cons_cons, ih h.2]

/-- Where the nodes in front of the last point. -/
theorem link_getElem {cs : List α} (h : Leads link cs t) {i : ℕ} (hi : i + 1 < cs.length) :
    link cs[i] = .next cs[i + 1] := by
  induction cs generalizing i with
  | nil => simp at hi
  | cons a cs ih =>
      cases cs with
      | nil => simp at hi
      | cons b cs =>
          cases i with
          | zero => exact h.1
          | succ i => exact ih h.2 (by simpa using hi)

/-- A chain is determined by its first node. -/
theorem unique {a : α} {cs ds : List α} (hc : Leads link (a :: cs) .last)
    (hd : Leads link (a :: ds) .last) : cs = ds := by
  induction cs generalizing a ds with
  | nil =>
      cases ds with
      | nil => rfl
      | cons d ds => exact absurd (hc.symm.trans hd.1) (by simp)
  | cons c cs ih =>
      cases ds with
      | nil => exact absurd (hc.1.symm.trans hd) (by simp)
      | cons d ds =>
          have heq : c = d := by simpa using hc.1.symm.trans hd.1
          subst heq
          rw [ih hc.2 hd.2]

/-- A chain with an end does not come back to a node. -/
theorem nodup {cs : List α} (h : Leads link cs .last) : cs.Nodup := by
  induction cs with
  | nil => exact List.nodup_nil
  | cons a cs ih =>
      cases cs with
      | nil => exact List.nodup_singleton a
      | cons b cs =>
          refine List.nodup_cons.mpr ⟨fun ha => ?_, ih h.2⟩
          -- from `a` on the chain would be shorter than itself
          obtain ⟨pre, post, hsplit⟩ := List.append_of_mem ha
          have hpost : Leads link (a :: post) .last := by
            have hall : Leads link ((a :: pre) ++ a :: post) .last := by
              rw [List.cons_append, ← hsplit]
              exact h
            exact ((append_iff (List.cons_ne_nil _ _)).mp hall).2
          have hlen := congrArg List.length (unique h hpost)
          have hlen' := congrArg List.length hsplit
          simp only [List.length_cons, List.length_append] at hlen hlen'
          omega

/-- The last node of a sequence is pointed elsewhere. -/
theorem retarget {cs : List α} {u : Link α} (h : Leads link cs t) (hne : cs ≠ [])
    (hnodup : cs.Nodup) (heq : ∀ a ∈ cs, a ≠ cs.getLast hne → link' a = link a)
    (hlast : link' (cs.getLast hne) = u) : Leads link' cs u := by
  induction cs with
  | nil => exact absurd rfl hne
  | cons a cs ih =>
      cases cs with
      | nil => exact hlast
      | cons b cs =>
          rw [List.nodup_cons] at hnodup
          have ha : a ≠ (a :: b :: cs).getLast hne := by
            rw [List.getLast_cons_cons]
            exact fun heq => hnodup.1 (heq ▸ List.getLast_mem _)
          refine ⟨(heq a (by simp) ha).trans h.1, ih h.2 (by simp) hnodup.2 ?_ ?_⟩
          · intro x hx hxlast
            exact heq x (List.mem_cons_of_mem _ hx) (by rwa [List.getLast_cons_cons])
          · rw [← hlast, List.getLast_cons_cons]

/-- **Splicing.**  A part of a chain is replaced by another chain: the last node of the new part is
pointed to what follows, and the last node in front of it to the new part. -/
theorem splice {as bs ds ts : List α} (h : Leads link (as ++ (bs ++ ds)) .last) (hbs : bs ≠ [])
    (ht : Leads link ts .last) (hdis : ∀ a ∈ ts, a ∉ as ++ (bs ++ ds))
    (hother : ∀ a, (∀ hne : as ≠ [], a ≠ as.getLast hne) → a ≠ ts.getLast ht.ne_nil →
      link' a = link a)
    (hlast : link' (ts.getLast ht.ne_nil) = Link.head ds)
    (hfirst : ∀ hne : as ≠ [], link' (as.getLast hne) = Link.head ts) :
    Leads link' (as ++ (ts ++ ds)) .last := by
  have hnodup := h.nodup
  rw [List.nodup_append'] at hnodup
  obtain ⟨hnodupA, hnodupB, hdisA⟩ := hnodup
  have hlastMem := List.getLast_mem ht.ne_nil
  have hnotLast : ∀ a ∈ as ++ (bs ++ ds), a ≠ ts.getLast ht.ne_nil := by
    intro a ha heq
    exact hdis _ hlastMem (heq ▸ ha)
  have hnotFirst : ∀ a, a ∉ as → ∀ hne : as ≠ [], a ≠ as.getLast hne := by
    intro a ha hne heq
    exact ha (heq ▸ List.getLast_mem hne)
  -- what follows keeps its links
  have hds : ds = [] ∨ Leads link' ds .last := by
    have hrest : Leads link (bs ++ ds) .last := by
      by_cases has : as = []
      · rwa [has] at h
      · refine ((append_last_iff has).mp h).2.resolve_left fun hnil => hbs ?_
        exact (List.append_eq_nil_iff.mp hnil).1
    refine ((append_last_iff hbs).mp hrest).2.imp_right fun hds => hds.congr fun a ha => ?_
    have hmem : a ∈ bs ++ ds := List.mem_append_right _ ha
    exact hother a (hnotFirst a fun has => hdisA has hmem)
      (hnotLast a (List.mem_append_right _ hmem))
  have hts : Leads link' (ts ++ ds) .last := by
    refine (append_last_iff ht.ne_nil).mpr ⟨?_, hds⟩
    refine ht.retarget ht.ne_nil ht.nodup (fun a ha hne => ?_) hlast
    exact hother a (hnotFirst a fun has => hdis a ha (List.mem_append_left _ has)) hne
  by_cases has : as = []
  · rwa [has, List.nil_append]
  · refine (append_last_iff has).mpr ⟨?_, Or.inr hts⟩
    have hhead : Link.head (ts ++ ds) = Link.head ts := by
      obtain ⟨a, ts', heq⟩ := List.exists_cons_of_ne_nil ht.ne_nil
      rw [heq, List.cons_append, Link.head, Link.head]
    rw [hhead]
    refine ((append_last_iff has).mp h).1.retarget has hnodupA (fun a ha hne => ?_) (hfirst has)
    exact hother a (fun _ => hne) (hnotLast a (List.mem_append_left _ ha))

end Leads

end KernelDrivers
