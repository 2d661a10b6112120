import Mathlib.Data.List.DropRight
import Mathlib.Data.List.TakeDrop
import Mathlib.Tactic

/-!
# Run-length maps

A finite partial map from positions to positions, kept as a list of runs: each
run covers `count` consecutive positions and sends them to consecutive positions
from `base`, or to nothing when it is a hole.  This is the shape of the kernel's
map control blocks.

Everything is stated against `cells`, the list of values position by position.
`normalize` merges runs that continue one another and drops empty runs and
trailing holes; `Normal` is its image, and `Normal.ext` says that a normal list of
runs is determined by its cells, so an identity between maps is proved by
comparing cells.

## Main definitions

* `Run`, `Runs.cells` — a run, and the values a list of runs stands for.
* `Runs.takeRuns`, `Runs.dropRuns` — cut a list of runs at a position.
* `Runs.normalize`, `Runs.Normal` — the canonical form.
* `Runs.add`, `Runs.remove`, `Runs.lookup` — the operations on a map.
-/

namespace KernelDrivers

/-- `count` consecutive positions.  `base = none` is a hole. -/
structure Run where
  base : Option ℕ
  count : ℕ
  deriving DecidableEq, Repr

namespace Run

/-- The values of the positions a run covers. -/
def cells (r : Run) : List (Option ℕ) := (List.range r.count).map fun j => r.base.map (· + j)

/-- `r'` maps on from where `r` stops. -/
def Meets (r r' : Run) : Prop := r'.base = r.base.map (· + r.count)

instance (r r' : Run) : Decidable (r.Meets r') :=
  inferInstanceAs (Decidable (r'.base = r.base.map (· + r.count)))

@[simp] theorem length_cells (r : Run) : r.cells.length = r.count := by simp [cells]

theorem getElem?_cells (r : Run) (j : ℕ) :
    r.cells[j]? = if j < r.count then some (r.base.map (· + j)) else none := by
  by_cases h : j < r.count
  · simp [cells, h]
  · simp [cells, h]

@[simp] theorem cells_zero (b : Option ℕ) : (Run.mk b 0).cells = [] := rfl

theorem cells_hole (n : ℕ) : (Run.mk none n).cells = List.replicate n none := by
  simp [cells]

/-- A run splits at any position inside it. -/
theorem cells_add (b : Option ℕ) (n m : ℕ) :
    (Run.mk b (n + m)).cells = (Run.mk b n).cells ++ (Run.mk (b.map (· + n)) m).cells := by
  simp only [cells, List.range_add, List.map_append, List.map_map]
  congr 1
  apply List.map_congr_left
  intro j _
  cases b <;> simp [Nat.add_assoc]

end Run

namespace Runs

/-- The value of every position the runs cover, in order. -/
def cells (rs : List Run) : List (Option ℕ) := rs.flatMap Run.cells

@[simp] theorem cells_nil : cells [] = [] := rfl
@[simp] theorem cells_cons (r : Run) (rs : List Run) : cells (r :: rs) = r.cells ++ cells rs := rfl
@[simp] theorem cells_append (rs rs' : List Run) : cells (rs ++ rs') = cells rs ++ cells rs' := by
  simp [cells]

/-- The first `n` positions, padded with a hole past the end. -/
def takeRuns (n : ℕ) : List Run → List Run
  | [] => [⟨none, n⟩]
  | r :: rs => if n ≤ r.count then [⟨r.base, n⟩] else r :: takeRuns (n - r.count) rs

/-- Everything from position `n` on. -/
def dropRuns (n : ℕ) : List Run → List Run
  | [] => []
  | r :: rs =>
      if n < r.count then ⟨r.base.map (· + n), r.count - n⟩ :: rs else dropRuns (n - r.count) rs

theorem cells_takeRuns (n : ℕ) (rs : List Run) :
    cells (takeRuns n rs) =
      (cells rs).take n ++ List.replicate (n - (cells rs).length) none := by
  induction rs generalizing n with
  | nil => simp [takeRuns, Run.cells_hole]
  | cons r rs ih =>
      rw [takeRuns]
      split
      · next hle =>
          obtain ⟨m, hm⟩ := Nat.exists_eq_add_of_le hle
          have hr : r.cells = (Run.mk r.base n).cells ++ (Run.mk (r.base.map (· + n)) m).cells := by
            rw [← Run.cells_add, ← hm]
          have hlen : n - (cells (r :: rs)).length = 0 := by simp; omega
          rw [hlen, cells_cons, cells_cons, hr, List.append_assoc,
            List.take_left' (by simp)]
          simp
      · next hgt =>
          have hsub : n - (cells (r :: rs)).length = n - r.count - (cells rs).length := by
            simp; omega
          have hr : r.cells.take n = r.cells := List.take_of_length_le (by simp; omega)
          rw [cells_cons, ih, hsub, cells_cons, List.take_append, Run.length_cells, hr,
            List.append_assoc]

theorem cells_dropRuns (n : ℕ) (rs : List Run) :
    cells (dropRuns n rs) = (cells rs).drop n := by
  induction rs generalizing n with
  | nil => simp [dropRuns]
  | cons r rs ih =>
      rw [dropRuns]
      split
      · next hlt =>
          have hr : r.cells = (Run.mk r.base n).cells ++
              (Run.mk (r.base.map (· + n)) (r.count - n)).cells := by
            rw [← Run.cells_add, Nat.add_sub_cancel' hlt.le]
          rw [cells_cons, cells_cons, hr, List.append_assoc, List.drop_left' (by simp)]
      · next hge =>
          have hr : r.cells.drop n = [] := List.drop_of_length_le (by simp; omega)
          rw [ih, cells_cons, List.drop_append, Run.length_cells, hr, List.nil_append]

/-! ## The canonical form -/

/-- Put a run in front of a canonical list. -/
def glue (r : Run) (rs : List Run) : List Run :=
  if r.count = 0 then rs else
    match rs with
    | [] => if r.base = none then [] else [r]
    | r' :: rs' => if r.Meets r' then ⟨r.base, r.count + r'.count⟩ :: rs' else r :: r' :: rs'

/-- Merge what can be merged, drop empty runs and trailing holes. -/
def normalize (rs : List Run) : List Run := rs.foldr glue []

/-- No empty run, no two runs that could be one, no trailing hole. -/
def Normal : List Run → Prop
  | [] => True
  | [r] => 0 < r.count ∧ r.base ≠ none
  | r :: r' :: rs => 0 < r.count ∧ ¬ r.Meets r' ∧ Normal (r' :: rs)

/-- The cells with trailing holes removed. -/
def stripHoles (l : List (Option ℕ)) : List (Option ℕ) := l.rdropWhile Option.isNone

theorem Normal.tail {r : Run} {rs : List Run} (h : Normal (r :: rs)) : Normal rs := by
  cases rs with
  | nil => trivial
  | cons r' rs => exact h.2.2

theorem Normal.count_pos {r : Run} {rs : List Run} (h : Normal (r :: rs)) : 0 < r.count := by
  cases rs with
  | nil => exact h.1
  | cons r' rs => exact h.1

theorem normal_glue (r : Run) {rs : List Run} (h : Normal rs) : Normal (glue r rs) := by
  unfold glue
  split
  · exact h
  next hc =>
    split
    · split
      · trivial
      next hb => exact ⟨Nat.pos_of_ne_zero hc, hb⟩
    · next r' rs' =>
      split
      · next hm =>
        cases rs' with
        | nil =>
            refine ⟨by dsimp only; omega, fun hb => h.2 ?_⟩
            rw [hm]; simpa using hb
        | cons r'' rs'' =>
            refine ⟨by dsimp only; omega, fun hm' => h.2.1 ?_, h.2.2⟩
            rw [Run.Meets] at hm hm' ⊢
            rw [hm', hm]
            cases r.base <;> simp [Nat.add_assoc]
      · next hm => exact ⟨Nat.pos_of_ne_zero hc, hm, h⟩

theorem normal_normalize (rs : List Run) : Normal (normalize rs) := by
  induction rs with
  | nil => trivial
  | cons r rs ih => exact normal_glue r ih

theorem stripHoles_append (l l' : List (Option ℕ)) :
    stripHoles (l ++ l') = if stripHoles l' = [] then stripHoles l else l ++ stripHoles l' := by
  induction l' using List.reverseRecOn with
  | nil => simp [stripHoles]
  | append_singleton l' a ih =>
      unfold stripHoles at *
      rw [← List.append_assoc]
      cases a with
      | none =>
          rw [List.rdropWhile_concat_pos _ _ _ rfl, List.rdropWhile_concat_pos _ _ _ rfl, ih]
      | some a =>
          rw [List.rdropWhile_concat_neg _ _ _ (by simp), List.rdropWhile_concat_neg _ _ _ (by simp)]
          simp

theorem stripHoles_cells_run (r : Run) :
    stripHoles r.cells = if r.base = none then [] else r.cells := by
  cases hb : r.base with
  | none => simp [stripHoles, List.rdropWhile_eq_nil_iff, Run.cells, hb]
  | some b =>
      rw [if_neg (by simp), stripHoles, List.rdropWhile_eq_self_iff]
      intro hne
      obtain ⟨j, _, hj⟩ := List.mem_map.mp (List.getLast_mem hne)
      rw [← hj, hb]
      simp

theorem cells_normal_ne_nil {rs : List Run} (h : Normal rs) (hne : rs ≠ []) : cells rs ≠ [] := by
  obtain ⟨r, rs', rfl⟩ := List.exists_cons_of_ne_nil hne
  intro hnil
  have hlen := congrArg List.length hnil
  simp only [cells_cons, List.length_append, Run.length_cells, List.length_nil] at hlen
  have := h.count_pos
  omega

theorem cells_glue (r : Run) {rs : List Run} (h : Normal rs) :
    cells (glue r rs) = if cells rs = [] then stripHoles r.cells else r.cells ++ cells rs := by
  unfold glue
  split
  · next hc =>
    have hr : r.cells = [] := List.eq_nil_of_length_eq_zero (by simpa using hc)
    rw [hr]
    split <;> simp_all [stripHoles]
  next hc =>
    split
    · rw [if_pos cells_nil, stripHoles_cells_run]
      split <;> simp
    · next r' rs' =>
      rw [if_neg (cells_normal_ne_nil h (by simp))]
      split
      · next hm =>
        rw [cells_cons, cells_cons, Run.cells_add, List.append_assoc, ← hm]
      · rfl

theorem cells_normalize (rs : List Run) : cells (normalize rs) = stripHoles (cells rs) := by
  induction rs with
  | nil => rfl
  | cons r rs ih =>
      change cells (glue r (normalize rs)) = _
      rw [cells_glue r (normal_normalize rs), ih, cells_cons, stripHoles_append]

/-- **A canonical list of runs is determined by its cells.** -/
theorem Normal.ext {rs rs' : List Run} (h : Normal rs) (h' : Normal rs')
    (hcells : cells rs = cells rs') : rs = rs' := by
  induction rs generalizing rs' with
  | nil =>
      by_contra hne
      exact cells_normal_ne_nil h' (Ne.symm hne) hcells.symm
  | cons r rs ih =>
      cases rs' with
      | nil => exact absurd hcells (cells_normal_ne_nil h (by simp))
      | cons r' rs' =>
          have hbase : r.base = r'.base := head_base h.count_pos h'.count_pos hcells
          have hcount : r.count = r'.count :=
            le_antisymm (head_count h h' hbase hcells) (head_count h' h hbase.symm hcells.symm)
          have hr : r = r' := by cases r; cases r'; simp_all
          subst hr
          rw [ih h.tail h'.tail (List.append_cancel_left hcells)]
where
  head_base {r r' : Run} {rs rs' : List Run} (hp : 0 < r.count) (hp' : 0 < r'.count)
      (hcells : cells (r :: rs) = cells (r' :: rs')) : r.base = r'.base := by
    have h0 := congrArg (fun l : List (Option ℕ) => l[0]?) hcells
    simp only [cells_cons, List.getElem?_append, Run.length_cells, hp, hp', if_true,
      Run.getElem?_cells] at h0
    simpa using h0
  head_count {r r' : Run} {rs rs' : List Run} (h : Normal (r :: rs)) (h' : Normal (r' :: rs'))
      (hbase : r.base = r'.base) (hcells : cells (r :: rs) = cells (r' :: rs')) :
      r.count ≤ r'.count := by
    by_contra hgt
    -- the longer head run covers the first cell of the other list's second run
    cases rs' with
    | nil =>
        have hlen := congrArg List.length hcells
        simp only [cells_cons, cells_nil, List.length_append, Run.length_cells,
          List.length_nil] at hlen
        omega
    | cons r'' rs'' =>
        have hpos := h'.tail.count_pos
        have hat := congrArg (fun l : List (Option ℕ) => l[r'.count]?) hcells
        simp only [cells_cons, List.getElem?_append, Run.length_cells, Run.getElem?_cells] at hat
        rw [if_pos (by omega), if_pos (by omega), if_neg (by omega), if_pos (by omega),
          if_pos (by omega), Nat.sub_self] at hat
        apply h'.2.1
        rw [Run.Meets, ← hbase]
        simpa using (Option.some.inj hat).symm

theorem normalize_of_normal {rs : List Run} (h : Normal rs) : normalize rs = rs := by
  induction rs with
  | nil => rfl
  | cons r rs ih =>
      change glue r (normalize rs) = _
      rw [ih h.tail]
      cases rs with
      | nil => simp [glue, h.1.ne', h.2]
      | cons r' rs => simp [glue, h.1.ne', h.2.1]

/-- Cells that hold no hole are left alone. -/
theorem stripHoles_of_forall_ne_none {l : List (Option ℕ)} (h : ∀ x ∈ l, x ≠ none) :
    stripHoles l = l := by
  rw [stripHoles, List.rdropWhile_eq_self_iff]
  intro hne
  simpa using h _ (List.getLast_mem hne)

theorem stripHoles_append_replicate (l : List (Option ℕ)) (n : ℕ) :
    stripHoles (l ++ List.replicate n none) = stripHoles l := by
  rw [stripHoles_append, if_pos]
  simp [stripHoles, List.rdropWhile_eq_nil_iff]

/-! ## The operations -/

/-- Whatever `rs` maps is mapped to consecutive positions from `l`. -/
def compatible (l : ℕ) : List Run → Bool
  | [] => true
  | r :: rs => (r.base = none || r.base = some l) && compatible (l + r.count) rs

/-- Map the `n` positions from `v` to those from `l`.  Nothing changes when one of
them is already mapped elsewhere. -/
def add (rs : List Run) (v l n : ℕ) : List Run :=
  if compatible l (takeRuns n (dropRuns v rs)) then
    normalize (takeRuns v rs ++ ⟨some l, n⟩ :: dropRuns (v + n) rs)
  else rs

/-- Unmap the `n` positions from `v`. -/
def remove (rs : List Run) (v n : ℕ) : List Run :=
  normalize (takeRuns v rs ++ ⟨none, n⟩ :: dropRuns (v + n) rs)

/-- The value of position `v`, how many positions of its run are left from `v`
on, and the index of the run; `none` past the end. -/
def lookup : List Run → ℕ → Option (Option ℕ × ℕ × ℕ)
  | [], _ => none
  | r :: rs, v =>
      if v < r.count then some (r.base.map (· + v), r.count - v, 0)
      else (lookup rs (v - r.count)).map fun x => (x.1, x.2.1, x.2.2 + 1)

/-- The position at which run `i` starts. -/
def startOf (rs : List Run) (i : ℕ) : ℕ := ((rs.take i).map Run.count).sum

theorem startOf_succ {rs : List Run} {i : ℕ} {r : Run} (h : rs[i]? = some r) :
    startOf rs (i + 1) = startOf rs i + r.count := by
  simp [startOf, List.take_add_one, h]

theorem startOf_mono (rs : List Run) {i j : ℕ} (h : i ≤ j) : startOf rs i ≤ startOf rs j := by
  induction j, h using Nat.le_induction with
  | base => rfl
  | succ j _ ih =>
      cases hj : rs[j]? with
      | none => simpa [startOf, List.take_add_one, hj] using ih
      | some r =>
          rw [startOf_succ hj]
          omega

/-- Run `i` in the list of the values. -/
theorem getElem?_cells_startOf {rs : List Run} {i j : ℕ} {r : Run} (h : rs[i]? = some r)
    (hj : j < r.count) : (cells rs)[startOf rs i + j]? = some (r.base.map (· + j)) := by
  induction rs generalizing i with
  | nil => cases h
  | cons r' rs ih =>
      cases i with
      | zero =>
          cases h
          have hstart : startOf (r :: rs) 0 + j = j := by simp [startOf]
          rw [cells_cons, hstart, List.getElem?_append_left (by simpa using hj), Run.getElem?_cells,
            if_pos hj]
      | succ i =>
          have hstart : startOf (r' :: rs) (i + 1) = r'.count + startOf rs i := by simp [startOf]
          rw [cells_cons, hstart, List.getElem?_append_right (by simp; omega), Run.length_cells,
            show r'.count + startOf rs i + j - r'.count = startOf rs i + j by omega]
          exact ih h

/-- What is found at `v`: the run, where `v` is in it, and what is left of it. -/
theorem exists_run_of_lookup {rs : List Run} {v left index : ℕ} {base : Option ℕ}
    (h : lookup rs v = some (base, left, index)) :
    ∃ r, rs[index]? = some r ∧ startOf rs index ≤ v ∧ v + left = startOf rs index + r.count ∧
      0 < left ∧ base = r.base.map (· + (v - startOf rs index)) := by
  induction rs generalizing v index with
  | nil => cases h
  | cons r rs ih =>
      rw [lookup] at h
      split at h
      · cases h
        exact ⟨r, rfl, by simp [startOf], by simp [startOf]; omega, by omega, by simp [startOf]⟩
      · next hge =>
          obtain ⟨⟨base', left', index'⟩, hx, hmap⟩ := Option.map_eq_some_iff.mp h
          cases hmap
          obtain ⟨r', hr', hle, hsum, hpos, hbase⟩ := ih hx
          have hstart : startOf (r :: rs) (index' + 1) = r.count + startOf rs index' := by
            simp [startOf]
          refine ⟨r', hr', ?_, ?_, hpos, ?_⟩
          · rw [hstart]
            omega
          · rw [hstart]
            omega
          · rw [hbase, hstart,
              show v - r.count - startOf rs index' = v - (r.count + startOf rs index') by omega]

theorem exists_lookup {rs : List Run} {v : ℕ} (h : v < startOf rs rs.length) :
    ∃ x, lookup rs v = some x := by
  induction rs generalizing v with
  | nil => simp [startOf] at h
  | cons r rs ih =>
      rw [lookup]
      split
      · exact ⟨_, rfl⟩
      · next hge =>
          have hstart : startOf (r :: rs) (r :: rs).length = r.count + startOf rs rs.length := by
            simp [startOf]
          obtain ⟨x, hx⟩ := ih (v := v - r.count) (by omega)
          exact ⟨_, by rw [hx]; rfl⟩

theorem compatible_of_holes {rs : List Run} (h : ∀ r ∈ rs, r.base = none) (l : ℕ) :
    compatible l rs = true := by
  induction rs generalizing l with
  | nil => rfl
  | cons r rs ih =>
      have hr : r.base = none := h r (by simp)
      simp [compatible, hr, ih fun x hx => h x (by simp [hx])]

theorem dropRuns_of_length_le {rs : List Run} {n : ℕ} (h : (cells rs).length ≤ n) :
    dropRuns n rs = [] := by
  induction rs generalizing n with
  | nil => rfl
  | cons r rs ih =>
      simp only [cells_cons, List.length_append, Run.length_cells] at h
      rw [dropRuns, if_neg (by omega), ih (by omega)]

theorem normal_add {rs : List Run} (h : Normal rs) (v l n : ℕ) : Normal (add rs v l n) := by
  unfold add
  split
  · exact normal_normalize _
  · exact h

/-- Mapping the positions right after the end appends their values. -/
theorem cells_add_end {rs : List Run} (h : Normal rs) (l n : ℕ) :
    cells (add rs (cells rs).length l n) = cells rs ++ (Run.mk (some l) n).cells := by
  have hdrop : dropRuns (cells rs).length rs = [] := dropRuns_of_length_le le_rfl
  have hcomp : compatible l (takeRuns n (dropRuns (cells rs).length rs)) = true := by
    rw [hdrop]
    exact compatible_of_holes (by simp [takeRuns]) l
  have hrun : stripHoles (Run.mk (some l) n).cells = (Run.mk (some l) n).cells := by
    rw [stripHoles_cells_run, if_neg (by simp)]
  rw [add, if_pos hcomp, cells_normalize, cells_append, cells_cons, cells_takeRuns,
    dropRuns_of_length_le (by omega), cells_nil, List.append_nil, Nat.sub_self,
    List.replicate_zero, List.append_nil, List.take_length, stripHoles_append, hrun]
  split
  · next hnil => rw [hnil, List.append_nil, ← cells_normalize, normalize_of_normal h]
  · rfl

/-- Unmapping from a position to past the end keeps what is before it. -/
theorem cells_remove_end {rs : List Run} {v n : ℕ} (hv : (cells rs).length ≤ v + n) :
    cells (remove rs v n) = stripHoles ((cells rs).take v) := by
  rw [remove, cells_normalize, cells_append, cells_cons, cells_takeRuns,
    dropRuns_of_length_le hv, cells_nil, List.append_nil, Run.cells_hole, List.append_assoc,
    ← List.replicate_add, stripHoles_append_replicate]

theorem remove_all (rs : List Run) {n : ℕ} (hn : (cells rs).length ≤ n) : remove rs 0 n = [] := by
  have hcells : cells (remove rs 0 n) = cells [] := by
    rw [cells_remove_end (by omega)]
    rfl
  exact Normal.ext (normal_normalize _) trivial hcells

theorem Normal.count_pos_of_mem {rs : List Run} (h : Normal rs) {r : Run} (hr : r ∈ rs) :
    0 < r.count := by
  induction rs with
  | nil => simp at hr
  | cons r' rs ih =>
      rcases List.mem_cons.mp hr with rfl | hr
      · exact h.count_pos
      · exact ih h.tail hr

/-- In a map without holes every run has a base, and its positions are among the values. -/
theorem Normal.run_of_mem {rs : List Run} (h : Normal rs) {l : List ℕ}
    (hcells : cells rs = l.map some) {r : Run} (hr : r ∈ rs) :
    ∃ b, r = ⟨some b, r.count⟩ ∧ 0 < r.count ∧ ∀ j < r.count, b + j ∈ l := by
  have hpos := h.count_pos_of_mem hr
  have hmem : ∀ x ∈ r.cells, ∃ y ∈ l, some y = x := by
    intro x hx
    have : x ∈ l.map some := by
      rw [← hcells]
      exact List.mem_flatMap.mpr ⟨r, hr, hx⟩
    simpa using this
  have hcell : ∀ j < r.count, r.base.map (· + j) ∈ r.cells := by
    intro j hj
    exact List.mem_map.mpr ⟨j, List.mem_range.mpr hj, rfl⟩
  rcases r with ⟨_ | b, n⟩
  · obtain ⟨y, _, hy⟩ := hmem _ (hcell 0 hpos)
    simp at hy
  · refine ⟨b, rfl, hpos, fun j hj => ?_⟩
    obtain ⟨y, hyl, hy⟩ := hmem _ (hcell j hj)
    simp only [Option.map_some, Option.some.injEq] at hy
    exact hy ▸ hyl

theorem length_cells_eq_sum (rs : List Run) : (cells rs).length = (rs.map Run.count).sum := by
  induction rs with
  | nil => rfl
  | cons r rs ih => simp [ih]

/-- A canonical list has a position for each run. -/
theorem Normal.length_le {rs : List Run} (h : Normal rs) : rs.length ≤ (cells rs).length := by
  induction rs with
  | nil => simp
  | cons r rs ih =>
      have hpos := h.count_pos
      have := ih h.tail
      simp only [cells_cons, List.length_cons, List.length_append, Run.length_cells]
      omega

/-- A run together with one position for each other run. -/
theorem Normal.count_add_length_le {rs : List Run} (h : Normal rs) {r : Run} (hr : r ∈ rs) :
    r.count + rs.length ≤ (rs.map Run.count).sum + 1 := by
  induction rs with
  | nil => simp at hr
  | cons r' rs ih =>
      have hpos := h.count_pos
      simp only [List.length_cons, List.map_cons, List.sum_cons]
      rcases List.mem_cons.mp hr with rfl | hr
      · have := h.tail.length_le
        rw [length_cells_eq_sum] at this
        omega
      · have := ih h.tail hr
        omega

/-- Unmapping anywhere. -/
theorem cells_remove (rs : List Run) (v n : ℕ) :
    cells (remove rs v n) = stripHoles ((cells rs).take v ++
      List.replicate (v - (cells rs).length + n) none ++ (cells rs).drop (v + n)) := by
  rw [remove, cells_normalize, cells_append, cells_cons, cells_takeRuns, cells_dropRuns,
    Run.cells_hole, List.replicate_add]
  simp only [List.append_assoc]

theorem normal_remove (rs : List Run) (v n : ℕ) : Normal (remove rs v n) := normal_normalize _

/-- What is found at `v`, in the list of the values. -/
theorem lookup_spec {rs : List Run} {v left index : ℕ} {base : Option ℕ}
    (h : lookup rs v = some (base, left, index)) :
    0 < left ∧ v + left ≤ (cells rs).length ∧
      ((cells rs).drop v).take left = (Run.mk base left).cells := by
  induction rs generalizing v index with
  | nil => cases h
  | cons r rs ih =>
      rw [lookup] at h
      split at h
      · next hlt =>
          cases h
          have hr : r.cells = (Run.mk r.base v).cells ++
              (Run.mk (r.base.map (· + v)) (r.count - v)).cells := by
            rw [← Run.cells_add, Nat.add_sub_cancel' hlt.le]
          refine ⟨by omega, by simp; omega, ?_⟩
          rw [cells_cons, hr, List.append_assoc, List.drop_left' (by simp),
            List.take_left' (by simp)]
      · next hge =>
          obtain ⟨⟨base', left', index'⟩, hx, hmap⟩ := Option.map_eq_some_iff.mp h
          simp only [Prod.mk.injEq] at hmap
          obtain ⟨rfl, rfl, rfl⟩ := hmap
          obtain ⟨hpos, hle, hslice⟩ := ih hx
          refine ⟨hpos, ?_, ?_⟩
          · simp only [cells_cons, List.length_append, Run.length_cells]
            omega
          · rw [cells_cons, List.drop_append, Run.length_cells,
              List.drop_of_length_le (by simp; omega), List.nil_append]
            exact hslice

/-- What is found at `v`, position by position. -/
theorem getElem?_cells_of_lookup {rs : List Run} {v left index : ℕ} {base : Option ℕ}
    (h : lookup rs v = some (base, left, index)) {j : ℕ} (hj : j < left) :
    (cells rs)[v + j]? = some (base.map (· + j)) := by
  have hslice := congrArg (·[j]?) (lookup_spec h).2.2
  simp only [List.getElem?_take, List.getElem?_drop, Run.getElem?_cells, if_pos hj] at hslice
  exact hslice

/-- A run of a canonical list stops where its values do. -/
theorem Normal.lookup_maximal {rs : List Run} (h : Normal rs) {v left index : ℕ}
    {base : Option ℕ} (hl : lookup rs v = some (base, left, index)) :
    (cells rs)[v + left]? ≠ some (base.map (· + left)) := by
  induction rs generalizing v index with
  | nil => cases hl
  | cons r rs ih =>
      rw [lookup] at hl
      split at hl
      · next hlt =>
          cases hl
          rw [cells_cons, List.getElem?_append_right (by simp; omega), Run.length_cells,
            show v + (r.count - v) - r.count = 0 by omega]
          cases rs with
          | nil => simp
          | cons r' rs =>
              have hpos := h.tail.count_pos
              rw [cells_cons, List.getElem?_append_left (by simpa using hpos), Run.getElem?_cells,
                if_pos hpos]
              intro heq
              apply h.2.1
              rw [Option.some.injEq, Option.map_map] at heq
              rw [Run.Meets]
              calc r'.base = r'.base.map (· + 0) := by simp
                _ = _ := heq
                _ = r.base.map (· + r.count) := by
                  congr 1
                  funext x
                  simp only [Function.comp_apply]
                  omega
      · next hge =>
          obtain ⟨⟨base', left', index'⟩, hx, hmap⟩ := Option.map_eq_some_iff.mp hl
          cases hmap
          rw [cells_cons, List.getElem?_append_right (by simp; omega), Run.length_cells,
            show v + left' - r.count = v - r.count + left' by omega]
          exact ih h.tail hx

/-- The last position of a canonical list is not in a hole. -/
theorem Normal.getElem?_last_ne {rs : List Run} (h : Normal rs) {v : ℕ}
    (hv : v + 1 = (cells rs).length) : (cells rs)[v]? ≠ some none := by
  intro hnone
  have hlast : (cells rs).getLast? = some none := by
    rw [List.getLast?_eq_getElem?, ← hv, Nat.add_sub_cancel]
    exact hnone
  have hstrip : stripHoles (cells rs) = cells rs := by
    rw [← cells_normalize, normalize_of_normal h]
  obtain ⟨l, hl⟩ := List.getLast?_eq_some_iff.mp hlast
  have hne : cells rs ≠ [] := by simp [hl]
  rw [stripHoles, List.rdropWhile_eq_self_iff] at hstrip
  have := hstrip hne
  rw [List.getLast_eq_iff_getLast?_eq_some hne |>.mpr hlast] at this
  exact this rfl

theorem lookup_eq_none_iff {rs : List Run} {v : ℕ} :
    lookup rs v = none ↔ (cells rs).length ≤ v := by
  induction rs generalizing v with
  | nil => simp [lookup]
  | cons r rs ih =>
      rw [lookup]
      split
      · next hlt => simp; omega
      · next hge =>
          rw [Option.map_eq_none_iff, ih]
          simp
          omega

/-- The last position of a map that ends in no hole. -/
theorem getLast?_cells {rs : List Run} {r : Run} (h : Normal rs) (hr : rs.getLast? = some r) :
    (cells rs).getLast? = some (r.base.map (· + (r.count - 1))) := by
  obtain ⟨rs', rfl⟩ := List.getLast?_eq_some_iff.mp hr
  have hpos := h.count_pos_of_mem (r := r) (by simp)
  rw [cells_append, cells_cons, cells_nil, List.append_nil, List.getLast?_append,
    List.getLast?_eq_getElem?, Run.length_cells, Run.getElem?_cells, if_pos (by omega)]
  rfl

/-! ## Runs of a list of numbers, and scaled runs -/

/-- The canonical runs of a list of numbers: maximal blocks of consecutive ones. -/
def ofList (cs : List ℕ) : List Run := normalize (cs.map fun c => ⟨some c, 1⟩)

theorem normal_ofList (cs : List ℕ) : Normal (ofList cs) := normal_normalize _

theorem cells_ofList (cs : List ℕ) : cells (ofList cs) = cs.map some := by
  have hcells : cells (cs.map fun c => (⟨some c, 1⟩ : Run)) = cs.map some := by
    induction cs with
    | nil => rfl
    | cons c cs ih => rw [List.map_cons, cells_cons, ih]; rfl
  rw [ofList, cells_normalize, hcells, stripHoles_of_forall_ne_none]
  simp

/-- Canonical lists that do not continue one another make a canonical list. -/
theorem Normal.append {rs rs' : List Run} (h : Normal rs) (h' : Normal rs')
    (hmeets : ∀ r ∈ rs.getLast?, ∀ r' ∈ rs'.head?, ¬ r.Meets r') : Normal (rs ++ rs') := by
  induction rs with
  | nil => exact h'
  | cons r rs ih =>
      cases rs with
      | nil =>
          cases rs' with
          | nil => exact h
          | cons r' rs' => exact ⟨h.1, hmeets r rfl r' rfl, h'⟩
      | cons r'' rs => exact ⟨h.1, h.2.1, ih h.2.2 hmeets⟩

/-- The first value of a canonical list is that of its first run. -/
theorem Normal.head?_cells {rs : List Run} (h : Normal rs) {r : Run} (hr : r ∈ rs.head?) :
    (cells rs).head? = some r.base := by
  obtain ⟨rs', rfl⟩ := List.head?_eq_some_iff.mp hr
  have hpos := h.count_pos
  rw [cells_cons, List.head?_append, List.head?_eq_getElem?, Run.getElem?_cells, if_pos hpos]
  cases r.base <;> rfl

/-- The runs of a list of numbers are cut where it does not go on by one. -/
theorem ofList_append {as bs : List ℕ} (h : ∀ a ∈ as.getLast?, ∀ b ∈ bs.head?, b ≠ a + 1) :
    ofList (as ++ bs) = ofList as ++ ofList bs := by
  refine Normal.ext (normal_ofList _) ((normal_ofList as).append (normal_ofList bs) ?_) ?_
  · intro r hr r' hr' hmeets
    have hlast := getLast?_cells (normal_ofList as) hr
    have hhead := (normal_ofList bs).head?_cells hr'
    have hpos := (normal_ofList as).count_pos_of_mem (List.mem_of_getLast? hr)
    rw [cells_ofList, List.getLast?_map] at hlast
    rw [cells_ofList, List.head?_map, hmeets] at hhead
    obtain ⟨a, ha, hlast⟩ := Option.map_eq_some_iff.mp hlast
    obtain ⟨b, hb, hhead⟩ := Option.map_eq_some_iff.mp hhead
    cases hbase : r.base with
    | none =>
        rw [hbase] at hlast
        cases hlast
    | some l =>
        rw [hbase] at hlast hhead
        simp only [Option.map_some, Option.some.injEq] at hlast hhead
        exact h a ha b hb (by omega)
  · rw [cells_append, cells_ofList, cells_ofList, cells_ofList, List.map_append]

/-- What is found in the front part of a list of runs. -/
theorem lookup_append {rs rs' : List Run} {v : ℕ} (h : v < (cells rs).length) :
    lookup (rs ++ rs') v = lookup rs v := by
  induction rs generalizing v with
  | nil => simp at h
  | cons r rs ih =>
      simp only [cells_cons, List.length_append, Run.length_cells] at h
      rw [List.cons_append, lookup, lookup]
      split
      · rfl
      · rw [ih (by omega)]

/-- What is found behind the front part. -/
theorem lookup_append_right {rs rs' : List Run} {v : ℕ} (h : (cells rs).length ≤ v) :
    lookup (rs ++ rs') v =
      (lookup rs' (v - (cells rs).length)).map fun x => (x.1, x.2.1, x.2.2 + rs.length) := by
  induction rs generalizing v with
  | nil => simp
  | cons r rs ih =>
      simp only [cells_cons, List.length_append, Run.length_cells] at h ⊢
      rw [List.cons_append, lookup, if_neg (by omega), ih (by omega), Option.map_map,
        Nat.sub_sub]
      rfl

/-- What is found where run `i` starts. -/
theorem lookup_startOf {rs : List Run} (hpos : ∀ r ∈ rs, 0 < r.count) {i : ℕ} {r : Run}
    (h : rs[i]? = some r) : lookup rs (startOf rs i) = some (r.base, r.count, i) := by
  induction rs generalizing i with
  | nil => cases h
  | cons r' rs ih =>
      cases i with
      | zero =>
          cases h
          have hr := hpos r (by simp)
          have hstart : startOf (r :: rs) 0 = 0 := by simp [startOf]
          rw [hstart, lookup, if_pos hr]
          cases r.base <;> rfl
      | succ i =>
          have hstart : startOf (r' :: rs) (i + 1) = r'.count + startOf rs i := by simp [startOf]
          rw [hstart, lookup, if_neg (by omega), Nat.add_sub_cancel_left,
            ih (fun x hx => hpos x (by simp [hx])) h]
          rfl

/-- Consecutive numbers are one run. -/
theorem ofList_range' {a n : ℕ} (hn : 0 < n) : ofList (List.range' a n) = [⟨some a, n⟩] := by
  apply Normal.ext (normal_ofList _)
  · exact ⟨hn, by simp⟩
  · rw [cells_ofList, cells_cons, cells_nil, List.append_nil, Run.cells, List.range'_eq_map_range,
      List.map_map]
    rfl

/-- A single run is one of consecutive numbers. -/
theorem range'_of_length_ofList {l : List ℕ} (h : (ofList l).length = 1) :
    ∃ a, l = List.range' a l.length := by
  obtain ⟨run, hrun⟩ := List.length_eq_one_iff.mp h
  obtain ⟨a, ha, -, -⟩ := (normal_ofList l).run_of_mem (cells_ofList l) (r := run) (by simp [hrun])
  have hcells := cells_ofList l
  rw [hrun, cells_cons, cells_nil, List.append_nil, ha, Run.cells] at hcells
  have hlen : run.count = l.length := by simpa using congrArg List.length hcells
  refine ⟨a, List.map_injective_iff.mpr (Option.some_injective ℕ) ?_⟩
  rw [← hcells, List.range'_eq_map_range, List.map_map, hlen]
  rfl

/-- Every number becomes a block of `k` positions, number `c` the one at
`a + c * k`. -/
def scaleRun (a k : ℕ) (r : Run) : Run := ⟨r.base.map fun c => a + c * k, r.count * k⟩

theorem meets_scaleRun {a k : ℕ} (hk : 0 < k) (r r' : Run) :
    (scaleRun a k r).Meets (scaleRun a k r') ↔ r.Meets r' := by
  have hinj : ∀ x y n : ℕ, a + y * k = a + x * k + n * k ↔ y = x + n := by
    intro x y n
    rw [Nat.add_assoc, Nat.add_left_cancel_iff, ← Nat.add_mul, Nat.mul_left_inj hk.ne']
  rcases r with ⟨b, n⟩
  rcases r' with ⟨b', n'⟩
  cases b <;> cases b' <;> simp [scaleRun, Run.Meets, hinj]

/-- Scaling keeps the canonical form. -/
theorem Normal.scale {a k : ℕ} (hk : 0 < k) {rs : List Run} (h : Normal rs) :
    Normal (rs.map (scaleRun a k)) := by
  induction rs with
  | nil => trivial
  | cons r rs ih =>
      have hcount : 0 < (scaleRun a k r).count := Nat.mul_pos h.count_pos hk
      cases rs with
      | nil => exact ⟨hcount, by simpa [scaleRun] using h.2⟩
      | cons r' rs =>
          exact ⟨hcount, fun hm => h.2.1 ((meets_scaleRun hk r r').mp hm), ih h.tail⟩

theorem cells_scaleRun_one (a k c : ℕ) :
    (scaleRun a k ⟨some c, 1⟩).cells = (Run.mk (some (a + c * k)) k).cells := by
  simp [scaleRun]

theorem cells_scaleRun {a k : ℕ} (r : Run) :
    (scaleRun a k r).cells =
      (List.range r.count).flatMap fun j => (scaleRun a k ⟨r.base.map (· + j), 1⟩).cells := by
  rcases r with ⟨b, n⟩
  induction n with
  | zero => simp [scaleRun]
  | succ n ih =>
      rw [List.range_succ, List.flatMap_append, ← ih]
      simp only [scaleRun, Nat.add_mul, Nat.one_mul, List.flatMap_singleton]
      rw [Run.cells_add]
      cases b <;> simp [Nat.add_mul, Nat.add_assoc]

/-- The positions of the scaled runs are the blocks of the numbers, in order. -/
theorem cells_map_scaleRun {a k : ℕ} (rs : List Run) :
    cells (rs.map (scaleRun a k)) =
      (cells rs).flatMap fun x => (scaleRun a k ⟨x, 1⟩).cells := by
  induction rs with
  | nil => rfl
  | cons r rs ih =>
      rw [List.map_cons, cells_cons, ih, cells_cons, List.flatMap_append, cells_scaleRun]
      simp only [Run.cells, List.flatMap_map]

/-! ## Mapping positions anywhere -/

/-- Stripping trailing holes loses no value. -/
theorem getElem?_stripHoles (l : List (Option ℕ)) (j a : ℕ) :
    (stripHoles l)[j]? = some (some a) ↔ l[j]? = some (some a) := by
  induction l using List.reverseRecOn with
  | nil => rfl
  | append_singleton l x ih =>
      rw [stripHoles] at *
      cases x with
      | some b => rw [List.rdropWhile_concat_neg _ _ _ (by simp)]
      | none =>
          rw [List.rdropWhile_concat_pos _ _ _ rfl, ih]
          by_cases hj : j < l.length
          · rw [List.getElem?_append_left hj]
          · rw [List.getElem?_append_right (by omega), List.getElem?_eq_none (by omega)]
            cases h : j - l.length <;> simp

/-- **Unmapping positions** keeps the others. -/
theorem getElem?_cells_remove (rs : List Run) (v n j a : ℕ) :
    (cells (remove rs v n))[j]? = some (some a) ↔
      ¬ (v ≤ j ∧ j < v + n) ∧ (cells rs)[j]? = some (some a) := by
  rw [cells_remove, getElem?_stripHoles, List.append_assoc]
  by_cases hlt : j < v
  · have hout : ¬ (v ≤ j ∧ j < v + n) := by omega
    rw [and_iff_right hout]
    by_cases hin : j < (cells rs).length
    · rw [List.getElem?_append_left (by rw [List.length_take]; omega), List.getElem?_take_of_lt hlt]
    · rw [List.getElem?_append_right (by rw [List.length_take]; omega), List.length_take,
        List.getElem?_append_left (by rw [List.length_replicate]; omega), List.getElem?_replicate,
        List.getElem?_eq_none (by omega)]
      split <;> simp
  · by_cases hin : j < v + n
    · have hmem : v ≤ j ∧ j < v + n := ⟨by omega, hin⟩
      rw [List.getElem?_append_right (by rw [List.length_take]; omega), List.length_take,
        List.getElem?_append_left (by rw [List.length_replicate]; omega), List.getElem?_replicate]
      simp only [hmem, not_true, and_self, false_and, iff_false]
      split <;> simp
    · have hout : ¬ (v ≤ j ∧ j < v + n) := by omega
      rw [and_iff_right hout, List.getElem?_append_right (by rw [List.length_take]; omega),
        List.length_take, List.getElem?_append_right (by rw [List.length_replicate]; omega),
        List.length_replicate, List.getElem?_drop]
      by_cases hlen : j < (cells rs).length
      · rw [show v + n + (j - min v (cells rs).length - (v - (cells rs).length + n)) = j by omega]
      · rw [List.getElem?_eq_none (by omega), List.getElem?_eq_none (by omega)]

/-- Runs whose values are consecutive from `l` are compatible with them. -/
theorem compatible_of_cells {rs : List Run} (hpos : ∀ r ∈ rs, 0 < r.count) {l : ℕ}
    (h : ∀ j a, (cells rs)[j]? = some (some a) → a = l + j) : compatible l rs = true := by
  induction rs generalizing l with
  | nil => rfl
  | cons r rs ih =>
      have hr := hpos r (by simp)
      rw [compatible, Bool.and_eq_true]
      constructor
      · have hzero := h 0
        rw [cells_cons, List.getElem?_append_left (by simpa using hr), Run.getElem?_cells,
          if_pos hr] at hzero
        cases hb : r.base with
        | none => simp
        | some b =>
            have := hzero b (by simp [hb])
            simp [this]
      · apply ih fun x hx => hpos x (by simp [hx])
        intro j a hj
        have hcell := h (r.count + j) a (by
          rw [cells_cons, List.getElem?_append_right (by simp), Run.length_cells,
            Nat.add_sub_cancel_left]
          exact hj)
        omega

theorem count_pos_dropRuns {rs : List Run} (hpos : ∀ r ∈ rs, 0 < r.count) (n : ℕ) :
    ∀ r ∈ dropRuns n rs, 0 < r.count := by
  induction rs generalizing n with
  | nil => simp [dropRuns]
  | cons r rs ih =>
      intro x hx
      rw [dropRuns] at hx
      split at hx
      · rw [List.mem_cons] at hx
        rcases hx with rfl | hx
        · dsimp only
          omega
        · exact hpos x (by simp [hx])
      · exact ih (fun y hy => hpos y (by simp [hy])) _ x hx

theorem count_pos_takeRuns {rs : List Run} (hpos : ∀ r ∈ rs, 0 < r.count) {n : ℕ} (hn : 0 < n) :
    ∀ r ∈ takeRuns n rs, 0 < r.count := by
  induction rs generalizing n with
  | nil => simpa [takeRuns] using hn
  | cons r rs ih =>
      intro x hx
      rw [takeRuns] at hx
      split at hx
      · rw [List.mem_singleton] at hx
        rw [hx]
        exact hn
      · rw [List.mem_cons] at hx
        rcases hx with rfl | hx
        · exact hpos x (by simp)
        · exact ih (fun y hy => hpos y (by simp [hy])) (by omega) x hx

/-- **Mapping positions** that are not mapped elsewhere. -/
theorem getElem?_cells_add {rs : List Run} (h : Normal rs) {v l n : ℕ} (hn : 0 < n)
    (hcomp : ∀ j < n, ∀ a, (cells rs)[v + j]? = some (some a) → a = l + j) (j a : ℕ) :
    (cells (add rs v l n))[j]? = some (some a) ↔
      if v ≤ j ∧ j < v + n then a = l + (j - v) else (cells rs)[j]? = some (some a) := by
  have hpos : ∀ r ∈ rs, 0 < r.count := fun r hr => h.count_pos_of_mem hr
  have hok : compatible l (takeRuns n (dropRuns v rs)) = true := by
    apply compatible_of_cells (count_pos_takeRuns (count_pos_dropRuns hpos v) hn)
    intro i b hi
    rw [cells_takeRuns, cells_dropRuns] at hi
    by_cases hlt : i < ((cells rs).drop v).length ∧ i < n
    · rw [List.getElem?_append_left (by rw [List.length_take]; omega), List.getElem?_take_of_lt hlt.2,
        List.getElem?_drop] at hi
      exact hcomp i hlt.2 b hi
    · rw [List.getElem?_append_right (by rw [List.length_take]; omega)] at hi
      rw [List.getElem?_replicate] at hi
      split at hi <;> simp at hi
  rw [add, if_pos hok, cells_normalize, getElem?_stripHoles, cells_append, cells_cons, cells_takeRuns,
    cells_dropRuns]
  have hlen : ((cells rs).take v ++ List.replicate (v - (cells rs).length) none).length = v := by
    rw [List.length_append, List.length_take, List.length_replicate]
    omega
  by_cases hj : j < v
  · rw [List.getElem?_append_left (by rw [hlen]; exact hj), if_neg (by omega)]
    by_cases hin : j < (cells rs).length
    · rw [List.getElem?_append_left (by rw [List.length_take]; omega), List.getElem?_take_of_lt hj]
    · rw [List.getElem?_append_right (by rw [List.length_take]; omega), List.getElem?_replicate,
        List.getElem?_eq_none (by omega)]
      split <;> simp
  · rw [List.getElem?_append_right (by omega), hlen]
    by_cases hin : j < v + n
    · rw [if_pos ⟨by omega, hin⟩, List.getElem?_append_left (by rw [Run.length_cells]; dsimp only; omega),
        Run.getElem?_cells, if_pos (by dsimp only; omega)]
      simp only [Option.map_some, Option.some.injEq]
      exact eq_comm
    · rw [if_neg (by omega), List.getElem?_append_right (by rw [Run.length_cells]; dsimp only; omega),
        Run.length_cells, List.getElem?_drop, show v + n + (j - v - n) = j by omega]

/-- The mapped positions determine a canonical list. -/
theorem Normal.ext_mapped {rs rs' : List Run} (h : Normal rs) (h' : Normal rs')
    (heq : ∀ j a : ℕ, (cells rs)[j]? = some (some a) ↔ (cells rs')[j]? = some (some a)) : rs = rs' := by
  have hlen : ∀ {as bs : List Run}, Normal bs →
      (∀ j a : ℕ, (cells as)[j]? = some (some a) ↔ (cells bs)[j]? = some (some a)) →
      (cells bs).length ≤ (cells as).length := by
    intro as bs hbs hab
    by_contra hlt
    obtain ⟨v, hv⟩ : ∃ v, v + 1 = (cells bs).length := ⟨(cells bs).length - 1, by omega⟩
    -- the last position of the longer list is mapped
    have hlast := hbs.getElem?_last_ne hv
    rw [List.getElem?_eq_getElem (by omega)] at hlast
    cases hcell : (cells bs)[v] with
    | none => exact hlast (congrArg some hcell)
    | some a =>
        have hmapped := (hab v a).mpr (by rw [List.getElem?_eq_getElem (by omega), hcell])
        rw [List.getElem?_eq_none (by omega)] at hmapped
        cases hmapped
  have hle := hlen h' heq
  have hge := hlen h fun j a => (heq j a).symm
  refine h.ext h' (List.ext_getElem (by omega) fun j hj hj' => ?_)
  have hj2 := heq j
  rw [List.getElem?_eq_getElem hj, List.getElem?_eq_getElem hj'] at hj2
  simp only [Option.some.injEq] at hj2
  cases hcell : (cells rs)[j] with
  | some a => exact ((hj2 a).mp hcell).symm
  | none =>
      cases hcell' : (cells rs')[j] with
      | none => rfl
      | some a => rw [(hj2 a).mpr hcell'] at hcell; cases hcell

end Runs

end KernelDrivers
