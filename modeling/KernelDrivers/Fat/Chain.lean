import KernelDrivers.Fat.Table
import KernelDrivers.Lib.Chain

/-!
# Cluster chains

A file is a chain of clusters: every entry holds the number of the next cluster, and
the last one an end mark.  `chainEntry w e cs` is the table `e` after the clusters
`cs` were chained together in it; the allocation code builds it run by run.

## Main definitions

* `fatLink` — where an entry points.
* `chainEntry` — a table with a chain in it.
-/

namespace KernelDrivers.Fat

/-- Where an entry points. -/
def linkOf (w : FatWidth) (entry : ℕ) : Link ℕ :=
  match fatInterpretClusterType w entry with
  | .next => .next entry
  | .last => .last
  | _ => .broken

/-- Where cluster `c` points. -/
def fatLink (w : FatWidth) (fat : Bytes) (c : ℕ) : Link ℕ := linkOf w (lookupEntry w fat c)

/-- The table `e` after the clusters were chained together. -/
def chainEntry (w : FatWidth) (e : ℕ → ℕ) : List ℕ → ℕ → ℕ
  | [], j => e j
  | [c], j => if j = c then fatClusterLast % 2 ^ w.linkBits else e j
  | c :: c' :: cs, j =>
      if j = c then c' % 2 ^ w.linkBits else chainEntry w e (c' :: cs) j

variable {w : FatWidth} {e : ℕ → ℕ} {cs ds : List ℕ} {j : ℕ}

theorem linkOf_next {c : ℕ} (h0 : c ≠ 0) (hc : c < w.reservedMark) : linkOf w c = .next c := by
  rw [linkOf, fatInterpretClusterType_link h0 hc]

theorem linkOf_last (w : FatWidth) : linkOf w (fatClusterLast % 2 ^ w.linkBits) = .last := by
  rw [linkOf, fatInterpretClusterType_last]

/-- The entry of a cluster that links to another. -/
theorem entry_of_link_next {e c : ℕ} (h : linkOf w e = .next c) :
    fatInterpretClusterType w e = .next ∧ e = c := by
  rw [linkOf] at h
  cases ht : fatInterpretClusterType w e <;> rw [ht] at h <;> simp_all

theorem entry_of_link_last {e : ℕ} (h : linkOf w e = .last) :
    fatInterpretClusterType w e = .last := by
  rw [linkOf] at h
  cases ht : fatInterpretClusterType w e <;> rw [ht] at h <;> simp_all

/-- The entries of a chain are not free. -/
theorem entry_ne_zero_of_leads (h : Leads (fun c => linkOf w (e c)) cs .last) (hj : j ∈ cs) :
    e j ≠ 0 := by
  intro hzero
  refine h.ne_broken (by simp) hj ?_
  rw [hzero]
  cases w <;> decide

theorem chainEntry_of_notMem (h : j ∉ cs) : chainEntry w e cs j = e j := by
  induction cs with
  | nil => rfl
  | cons c cs ih =>
      have hj : j ≠ c := fun heq => h (heq ▸ List.mem_cons_self)
      have ih := ih fun hm => h (List.mem_cons_of_mem _ hm)
      cases cs with
      | nil => rw [chainEntry, if_neg hj]
      | cons c' cs => rw [chainEntry, if_neg hj, ih]

/-- Chaining a second list behind the first changes the entry of the last cluster. -/
theorem chainEntry_append {d : ℕ} (hcs : cs ≠ []) (hnodup : (cs ++ d :: ds).Nodup) :
    chainEntry w e (cs ++ d :: ds) j =
      if j = cs.getLast hcs then d % 2 ^ w.linkBits
      else if j ∈ cs then chainEntry w e cs j else chainEntry w e (d :: ds) j := by
  induction cs with
  | nil => exact absurd rfl hcs
  | cons c cs ih =>
      cases cs with
      | nil =>
          simp only [List.cons_append, List.nil_append, chainEntry, List.getLast_singleton,
            List.mem_singleton]
          by_cases hj : j = c <;> simp [hj]
      | cons c' cs =>
          rw [List.cons_append, List.nodup_cons] at hnodup
          have ih := ih (by simp) hnodup.2
          have hlast : c ≠ (c' :: cs).getLast (by simp) := by
            intro heq
            apply hnodup.1
            rw [List.mem_append]
            exact Or.inl (heq ▸ List.getLast_mem _)
          simp only [List.cons_append, chainEntry, List.getLast_cons_cons] at ih ⊢
          by_cases hj : j = c
          · subst hj
            simp [hlast]
          · simp only [ih, List.mem_cons, hj, false_or, if_false]

/-- A run of consecutive clusters that is chained together. -/
theorem chainEntry_range' {c n : ℕ} :
    chainEntry w e (List.range' c n) j =
      if c ≤ j ∧ j < c + n then
        if j + 1 = c + n then fatClusterLast % 2 ^ w.linkBits else (j + 1) % 2 ^ w.linkBits
      else e j := by
  induction n generalizing c with
  | zero => rw [List.range'_zero, chainEntry, if_neg (by omega)]
  | succ n ih =>
      rw [List.range'_succ]
      cases n with
      | zero =>
          rw [List.range'_zero, chainEntry]
          by_cases hj : j = c
          · rw [if_pos hj, if_pos (by omega), if_pos (by omega)]
          · rw [if_neg hj, if_neg (by omega)]
      | succ n =>
          have ih := ih (c := c + 1)
          rw [List.range'_succ] at ih ⊢
          rw [chainEntry, ih]
          by_cases hj : j = c
          · have hlast : ¬ j + 1 = c + (n + 1 + 1) := by omega
            rw [if_pos hj, if_pos (by omega), if_neg hlast, hj]
          · have hiff : c + 1 ≤ j ∧ j < c + 1 + (n + 1) ↔ c ≤ j ∧ j < c + (n + 1 + 1) := by omega
            have hiff' : j + 1 = c + 1 + (n + 1) ↔ j + 1 = c + (n + 1 + 1) := by omega
            simp only [if_neg hj, hiff, hiff']

/-- The clusters of the chain are linked in order, and the last has the end mark. -/
theorem leads_chainEntry (hne : cs ≠ []) (hnodup : cs.Nodup)
    (hlt : ∀ c ∈ cs, c ≠ 0 ∧ c < w.reservedMark) :
    Leads (fun c => linkOf w (chainEntry w e cs c)) cs .last := by
  induction cs with
  | nil => exact absurd rfl hne
  | cons c cs ih =>
      cases cs with
      | nil =>
          change linkOf w (chainEntry w e [c] c) = .last
          rw [chainEntry, if_pos rfl, linkOf_last]
      | cons c' cs =>
          rw [List.nodup_cons] at hnodup
          have hc' := hlt c' (by simp)
          constructor
          · dsimp only
            rw [chainEntry, if_pos rfl, Nat.mod_eq_of_lt (hc'.2.trans w.reservedMark_lt),
              linkOf_next hc'.1 hc'.2]
          · refine (ih (by simp) hnodup.2 fun x hx => hlt x (List.mem_cons_of_mem _ hx)).congr ?_
            intro a ha
            have hac : a ≠ c := fun heq => hnodup.1 (heq ▸ ha)
            rw [chainEntry, if_neg hac]

/-- A run that is chained together is a chain. -/
theorem leads_storeRun (fat : Bytes) {start count v : ℕ} (hw : w ≠ .fat12)
    (hstart : 0 < start) (hcount : 0 < count) (hlt : start + count ≤ w.reservedMark)
    (hv : v % 2 ^ w.linkBits = fatClusterLast % 2 ^ w.linkBits) :
    Leads (fatLink w (storeEntry w (storeLinks w fat start count true) (start + count - 1) v))
      (List.range' start count) .last := by
  have hne : List.range' start count ≠ [] := by
    rw [Ne, List.range'_eq_nil_iff]
    omega
  have hchain := @leads_chainEntry w (lookupEntry w fat) _ hne List.nodup_range' fun c hc => by
    rw [List.mem_range'_1] at hc
    omega
  refine hchain.congr fun c _ => ?_
  rw [fatLink, chainEntry_range', lookupEntry_storeRun fat hcount (fun h => absurd h hw)
    (Or.inl ⟨rfl, hw⟩) (by rw [hv, if_pos rfl]) (fun h => absurd h hw), entryAfterRun, if_pos rfl]

/-- When cluster numbers fit the entries, the chained clusters are not free. -/
theorem chainEntry_ne_zero (hj : j ∈ cs) (hlt : ∀ c ∈ cs, c ≠ 0 ∧ c < 2 ^ w.linkBits) :
    chainEntry w e cs j ≠ 0 := by
  have hlast : fatClusterLast % 2 ^ w.linkBits ≠ 0 := by cases w <;> decide
  induction cs with
  | nil => simp at hj
  | cons c cs ih =>
      cases cs with
      | nil =>
          rw [chainEntry, if_pos (List.mem_singleton.mp hj)]
          exact hlast
      | cons c' cs =>
          rw [chainEntry]
          split
          · have hc' := hlt c' (by simp)
            rw [Nat.mod_eq_of_lt hc'.2]
            exact hc'.1
          · next hne =>
              exact ih ((List.mem_cons.mp hj).resolve_left hne)
                fun x hx => hlt x (List.mem_cons_of_mem _ hx)

end KernelDrivers.Fat
