import KernelDrivers.Fat.AllocSpec

/-!
# What a search finds

The search of a pass of the run loop, in terms of the free clusters of the current
window: the run at the hint, a run for everything that is still needed, or the first of
the longest runs.

## Main definitions

* `HintFree` — the clusters from the hint to the end of the window, or as many as are
  needed, are free.
* `LongestRun` — the first of the longest free runs of a window.
* `RunLoop.Searched` — the outcomes of a search.
* `FoundAtOnce` — the first search of the run loop finds the whole request.
-/

namespace KernelDrivers.Fat

/-- Free clusters from `x` on: to the end of window `i`, or `n` of them. -/
def HintFree (g : Geometry) (F : Finset ℕ) (i x n : ℕ) : Prop :=
  FreeRun g F i x (min (g.endOf i - x) n)

/-- The first of the longest free runs of window `i`. -/
structure LongestRun (g : Geometry) (F : Finset ℕ) (i x n : ℕ) : Prop where
  pos : 0 < n
  free : FreeRun g F i x n
  longest : ∀ y m, FreeRun g F i y m → m ≤ n
  first : ∀ y, FreeRun g F i y n → x ≤ y

variable {g : Geometry} {F : Finset ℕ} {i : ℕ}

theorem FreeRun.mem {x n y : ℕ} (h : FreeRun g F i x n) (hx : x ≤ y) (hn : y < x + n) : y ∈ F :=
  h.2.2 (Finset.mem_Ico.mpr ⟨hx, hn⟩)

theorem FreeRun.mono {x n y m : ℕ} (h : FreeRun g F i x n) (hx : x ≤ y) (hn : y + m ≤ x + n) :
    FreeRun g F i y m :=
  ⟨h.1.trans hx, hn.trans h.2.1, (Finset.Ico_subset_Ico hx hn).trans h.2.2⟩

/-- A free cluster of the window is a free run of one. -/
theorem freeRun_one_iff {x : ℕ} : FreeRun g F i x 1 ↔ x ∈ F ∩ g.window i := by
  rw [FreeRun, Finset.mem_inter, Geometry.mem_window, Nat.Ico_succ_singleton,
    Finset.singleton_subset_iff]
  constructor
  · rintro ⟨hfirst, hend, hx⟩
    exact ⟨hx, hfirst, by omega⟩
  · rintro ⟨hx, hfirst, hend⟩
    exact ⟨hfirst, by omega, hx⟩

namespace RunLoop

variable {exactMatchRequired : Bool} {s t : RunLoop}

/-- The cluster of the hint. -/
def hintCluster (g : Geometry) (s : RunLoop) : ℕ :=
  g.firstOf s.vcb.currentWindow + (s.windowRelativeHint - 2)

/-- A hint lies inside the window. -/
def HintValid (s : RunLoop) : Prop :=
  s.windowRelativeHint ≠ 0 →
    2 ≤ s.windowRelativeHint ∧ s.windowRelativeHint < s.vcb.freeClusterBitMap.size + 2

/-- The search looks anywhere in the window: there is no hint, or the clusters at the
hint are not free and need not be. -/
def PotLuck (g : Geometry) (F : Finset ℕ) (exactMatchRequired : Bool) (s : RunLoop) : Prop :=
  s.windowRelativeHint = 0 ∨ exactMatchRequired = false ∧
    ¬ HintFree g F s.vcb.currentWindow (hintCluster g s) s.clustersRemaining

/-- The outcomes of a search. -/
inductive Searched (g : Geometry) (F : Finset ℕ) (exactMatchRequired : Bool) (s t : RunLoop) : Prop
  | flagged (flag : s.selectNextContigWindow = true) (found : t.clustersFound = 0)
      (select : t.selectNextContigWindow = true)
      (hint : t.windowRelativeHint = s.windowRelativeHint)
  | atHint (flag : s.selectNextContigWindow = false) (hint : s.windowRelativeHint ≠ 0)
      (free : HintFree g F s.vcb.currentWindow (hintCluster g s) s.clustersRemaining)
      (first : firstFound g t = hintCluster g s)
      (found : t.clustersFound =
        min (g.endOf s.vcb.currentWindow - hintCluster g s) s.clustersRemaining)
      (found_ne : t.clustersFound ≠ 0)
      (select : t.selectNextContigWindow = decide (g.width = .fat32))
      (hint' : t.windowRelativeHint = if g.width = .fat32 then 2 else 0)
  | whole (flag : s.selectNextContigWindow = false) (luck : PotLuck g F exactMatchRequired s)
      (free : FreeRun g F s.vcb.currentWindow (firstFound g t) s.clustersRemaining)
      (found : t.clustersFound = s.clustersRemaining)
  | longest (flag : s.selectNextContigWindow = false) (luck : PotLuck g F exactMatchRequired s)
      (free : LongestRun g F s.vcb.currentWindow (firstFound g t) t.clustersFound)
      (lt : t.clustersFound < s.clustersRemaining)
      (index : (t.clustersFound, t.index) = s.vcb.freeClusterBitMap.findLongestRunClear)
      (select : t.selectNextContigWindow = true ↔
        firstFound g t + t.clustersFound = g.endOf s.vcb.currentWindow ∧ g.width = .fat32)
      (hint' : t.windowRelativeHint = if t.selectNextContigWindow then 2 else 0)
  | full (flag : s.selectNextContigWindow = false) (luck : PotLuck g F exactMatchRequired s)
      (found : t.clustersFound = 0) (empty : F ∩ g.window s.vcb.currentWindow = ∅)
      (select : t.selectNextContigWindow = false) (hint' : t.windowRelativeHint = 0)

section Search

variable (hb : Books g s.vcb F s.clustersRemaining) (hrem : s.clustersRemaining ≠ 0)

include hb

/-- The clusters from the hint to the end of the window. -/
theorem size_sub_hint : s.vcb.freeClusterBitMap.size - (s.windowRelativeHint - 2) =
    g.endOf s.vcb.currentWindow - hintCluster g s := by
  rw [hb.size, hintCluster, Nat.sub_sub]

/-- A longest clear run of the bitmap is a longest free run of the window. -/
theorem longestRun_of_findLongestRunClear
    (hpos : 0 < s.vcb.freeClusterBitMap.findLongestRunClear.1) :
    LongestRun g F s.vcb.currentWindow
      (g.firstOf s.vcb.currentWindow + s.vcb.freeClusterBitMap.findLongestRunClear.2)
      s.vcb.freeClusterBitMap.findLongestRunClear.1 := by
  have hclear := Bitmap.clearAt_findLongestRunClear hpos
  have hat : ∀ {y m}, FreeRun g F s.vcb.currentWindow y m →
      s.vcb.freeClusterBitMap.ClearAt (y - g.firstOf s.vcb.currentWindow) m := by
    intro y m hy
    rw [hb.clearAt_iff_freeRun, Nat.add_sub_cancel' hy.1]
    exact hy
  refine ⟨hpos, hb.clearAt_iff_freeRun.mp hclear, ?_, ?_⟩
  · intro y m hy
    exact Bitmap.le_longestRun (hat hy)
  · intro y hy
    have hsome := (Bitmap.isSome_findClearBits_iff 0 hpos).mpr ⟨_, hclear⟩
    obtain ⟨j, hj⟩ := Option.isSome_iff_exists.mp hsome
    have hindex : s.vcb.freeClusterBitMap.findLongestRunClear.2 = j := by
      have : s.vcb.freeClusterBitMap.findClearBits s.vcb.freeClusterBitMap.longestRun 0 = some j := hj
      rw [Bitmap.findLongestRunClear, this]
      rfl
    have hle := Bitmap.le_of_findClearBits_zero hpos hj (hat hy)
    have hfirst := hy.1
    omega

/-- Nothing is found only in a window without free clusters. -/
theorem findLongestRunClear_eq_zero_iff :
    s.vcb.freeClusterBitMap.findLongestRunClear.1 = 0 ↔ F ∩ g.window s.vcb.currentWindow = ∅ := by
  constructor
  · intro hzero
    rw [Finset.eq_empty_iff_forall_notMem]
    intro x hx
    rw [← freeRun_one_iff] at hx
    have hclear := hb.clearAt_iff_freeRun (i := x - g.firstOf s.vcb.currentWindow) (n := 1)
    rw [Nat.add_sub_cancel' hx.1] at hclear
    have hle := Bitmap.le_longestRun (hclear.mpr hx)
    change s.vcb.freeClusterBitMap.longestRun = 0 at hzero
    omega
  · intro hempty
    by_contra hne
    have hrun := longestRun_of_findLongestRunClear hb (Nat.pos_of_ne_zero hne)
    have hone := freeRun_one_iff.mp (hrun.free.mono le_rfl (by have := hrun.pos; omega))
    rw [hempty] at hone
    exact absurd hone (Finset.notMem_empty _)

include hrem

/-- A window is not empty. -/
theorem size_pos : 0 < s.vcb.freeClusterBitMap.size := by
  have hN : 0 < g.numberOfClusters := by
    have htotal := hb.total
    have hcard := Finset.card_le_card hb.subset
    rw [Geometry.clusters, Nat.card_Ico] at hcard
    omega
  have hlt := Geometry.firstOf_lt_endOf hb.current hN
  rw [hb.size]
  omega

/-- Whether the clusters at the hint are free. -/
theorem areBitsClear_iff (h2 : 2 ≤ s.windowRelativeHint)
    (hlt : s.windowRelativeHint < s.vcb.freeClusterBitMap.size + 2) :
    s.vcb.freeClusterBitMap.areBitsClear (s.windowRelativeHint - 2)
        (min (s.vcb.freeClusterBitMap.size - (s.windowRelativeHint - 2)) s.clustersRemaining) = true ↔
      HintFree g F s.vcb.currentWindow (hintCluster g s) s.clustersRemaining := by
  rw [Bitmap.areBitsClear, decide_eq_true_eq, hb.clearAt_iff_freeRun, HintFree, ← size_sub_hint hb]
  refine and_iff_right ?_
  omega

omit hrem in
/-- Without a run for everything that is needed the longest one is taken. -/
theorem potLuckRun_eq (hnot : ∀ x, ¬ FreeRun g F s.vcb.currentWindow x s.clustersRemaining) :
    potLuckRun s = s.vcb.freeClusterBitMap.findLongestRunClear := by
  have hnone : s.vcb.freeClusterBitMap.findClearBits s.clustersRemaining 0 = none := by
    cases hfind : s.vcb.freeClusterBitMap.findClearBits s.clustersRemaining 0 with
    | none => rfl
    | some j => exact absurd (hb.clearAt_iff_freeRun.mp (Bitmap.clearAt_of_findClearBits hfind)) (hnot _)
  rw [potLuckRun, hnone]
  exact ite_self _

/-- A run for everything that is needed is found. -/
theorem le_potLuckRun {x : ℕ} (hx : FreeRun g F s.vcb.currentWindow x s.clustersRemaining) :
    s.clustersRemaining ≤ (potLuckRun s).1 := by
  have hclear := hb.clearAt_iff_freeRun (i := x - g.firstOf s.vcb.currentWindow)
    (n := s.clustersRemaining)
  rw [Nat.add_sub_cancel' hx.1] at hclear
  have hlongest := Bitmap.le_longestRun (hclear.mpr hx)
  rw [potLuckRun]
  split
  · have hsome := (Bitmap.isSome_findClearBits_iff 0 (Nat.pos_of_ne_zero hrem)).mpr
      ⟨_, hclear.mpr hx⟩
    obtain ⟨j, hj⟩ := Option.isSome_iff_exists.mp hsome
    rw [hj]
  · exact hlongest

/-- The search without a hint. -/
theorem searched_searchPotLuck {s' : RunLoop} (hflag : s.selectNextContigWindow = false)
    (hluck : PotLuck g F exactMatchRequired s) (hvcb : s'.vcb = s.vcb)
    (hrem' : s'.clustersRemaining = s.clustersRemaining)
    (hflag' : s'.selectNextContigWindow = false) (hhint : s'.windowRelativeHint = 0) :
    Searched g F exactMatchRequired s (searchPotLuck g s') := by
  have hb' : Books g s'.vcb F s'.clustersRemaining := by
    rw [hvcb, hrem']
    exact hb
  have hne : s'.clustersRemaining ≠ 0 := hrem' ▸ hrem
  have hclear := clearAt_potLuckRun (s := s')
  simp only [searchPotLuck]
  by_cases hwhole : s'.clustersRemaining ≤ (potLuckRun s').1
  · rw [if_pos hwhole]
    refine .whole hflag hluck ?_ hrem'
    have hrun := (hclear (by omega)).mono le_rfl (Nat.add_le_add_left hwhole _)
    rw [hb'.clearAt_iff_freeRun, hvcb, hrem'] at hrun
    rw [firstFound, hvcb]
    exact hrun
  rw [if_neg hwhole]
  have hnot : ∀ x, ¬ FreeRun g F s'.vcb.currentWindow x s'.clustersRemaining := fun x hx =>
    hwhole (le_potLuckRun hb' hne hx)
  have heq := potLuckRun_eq hb' hnot
  rw [hvcb] at heq
  rw [heq] at hwhole ⊢
  rw [hvcb]
  by_cases hzero : s.vcb.freeClusterBitMap.findLongestRunClear.1 = 0
  · have hlt := Bitmap.findLongestRunClear_lt (size_pos hb hrem)
    rw [if_neg (by omega)]
    exact .full hflag hluck hzero ((findLongestRunClear_eq_zero_iff hb).mp hzero) hflag' hhint
  · have hrun := longestRun_of_findLongestRunClear hb (Nat.pos_of_ne_zero hzero)
    have hend : s.vcb.freeClusterBitMap.findLongestRunClear.2 +
          s.vcb.freeClusterBitMap.findLongestRunClear.1 = s.vcb.freeClusterBitMap.size ↔
        g.firstOf s.vcb.currentWindow + s.vcb.freeClusterBitMap.findLongestRunClear.2 +
          s.vcb.freeClusterBitMap.findLongestRunClear.1 = g.endOf s.vcb.currentWindow := by
      have hle := Geometry.firstOf_le_endOf hb.current
      have hsize := hb.size
      omega
    split
    · next hflagged =>
        refine .longest hflag hluck hrun (by dsimp only; omega) rfl ?_ rfl
        exact iff_of_true rfl ⟨hend.mp hflagged.1, hflagged.2⟩
    · next hflagged =>
        refine .longest hflag hluck hrun (by dsimp only; omega) rfl ?_ ?_
        · dsimp only
          rw [hflag']
          refine iff_of_false (by simp) fun hboth => hflagged ⟨hend.mpr hboth.1, hboth.2⟩
        · dsimp only
          rw [hflag', hhint]
          rfl

/-- **The search of a pass.** -/
theorem searched_of_search (hv : HintValid s) (h : search g exactMatchRequired s = some t) :
    Searched g F exactMatchRequired s t := by
  rw [search] at h
  dsimp only at h
  split at h
  · next hflag =>
      rw [← Option.some.inj h]
      exact .flagged hflag rfl hflag rfl
  next hflag =>
  have hflag : s.selectNextContigWindow = false := by simpa using hflag
  by_cases hhint : s.windowRelativeHint = 0
  · rw [if_neg (by simpa using hhint), Option.map_some, if_pos ⟨hhint, rfl⟩] at h
    rw [← Option.some.inj h]
    exact searched_searchPotLuck hb hrem hflag (Or.inl hhint) rfl rfl hflag hhint
  · obtain ⟨h2, hlt⟩ := hv hhint
    have hiff := areBitsClear_iff hb hrem h2 hlt
    have hsub := size_sub_hint hb
    rw [if_pos hhint, searchHint] at h
    dsimp only at h
    by_cases hfree : HintFree g F s.vcb.currentWindow (hintCluster g s) s.clustersRemaining
    · have hne : min (s.vcb.freeClusterBitMap.size - (s.windowRelativeHint - 2))
          s.clustersRemaining ≠ 0 := by omega
      rw [if_pos (hiff.mpr hfree), Option.map_some, if_neg (fun hboth => hne hboth.2)] at h
      rw [← Option.some.inj h]
      exact .atHint hflag hhint hfree rfl (by rw [← hsub]) hne rfl rfl
    · rw [if_neg (fun hclear => hfree (hiff.mp hclear))] at h
      cases exactMatchRequired with
      | true => simp at h
      | false =>
          rw [if_neg (by simp), Option.map_some, if_pos ⟨rfl, rfl⟩] at h
          rw [← Option.some.inj h]
          exact searched_searchPotLuck hb hrem hflag (Or.inr ⟨rfl, hfree⟩) rfl rfl hflag rfl

/-- An exact-match request is refused when the clusters at the hint are not free. -/
theorem search_eq_none_iff (hv : HintValid s) :
    search g exactMatchRequired s = none ↔ exactMatchRequired = true ∧
      s.selectNextContigWindow = false ∧ s.windowRelativeHint ≠ 0 ∧
      ¬ HintFree g F s.vcb.currentWindow (hintCluster g s) s.clustersRemaining := by
  rw [search]
  dsimp only
  split
  · next hflag => simp [hflag]
  next hflag =>
  have hflag : s.selectNextContigWindow = false := by simpa using hflag
  rw [Option.map_eq_none_iff]
  by_cases hhint : s.windowRelativeHint = 0
  · simp [hhint]
  · obtain ⟨h2, hlt⟩ := hv hhint
    have hiff := areBitsClear_iff hb hrem h2 hlt
    rw [if_pos hhint, searchHint]
    dsimp only
    by_cases hfree : HintFree g F s.vcb.currentWindow (hintCluster g s) s.clustersRemaining
    · rw [if_pos (hiff.mpr hfree)]
      simp [hfree]
    · rw [if_neg (fun hclear => hfree (hiff.mp hclear))]
      cases exactMatchRequired <;> simp [hflag, hhint, hfree]

omit hb hrem in
/-- A search finds something unless the window is full. -/
theorem Searched.found_ne_zero (h : Searched g F exactMatchRequired s t)
    (hflag : s.selectNextContigWindow = false) (hrem : s.clustersRemaining ≠ 0)
    (hfree : (F ∩ g.window s.vcb.currentWindow).Nonempty) : t.clustersFound ≠ 0 := by
  cases h with
  | flagged flag => exact absurd (hflag.symm.trans flag) (by simp)
  | atHint _ _ _ _ _ found_ne => exact found_ne
  | whole _ _ _ found => rwa [found]
  | longest _ _ free => exact free.pos.ne'
  | full _ _ _ empty => exact absurd empty hfree.ne_empty

/-- A volume of one window has its free clusters there. -/
theorem nonempty_of_one (hone : g.numberOfWindows = 1) :
    (F ∩ g.window s.vcb.currentWindow).Nonempty := by
  have hcur : s.vcb.currentWindow = 0 := by
    have := hb.current
    omega
  have hall : F ∩ g.window s.vcb.currentWindow = F := by
    rw [hcur, Geometry.window, g.firstOf_zero, g.endOf_last (by omega)]
    exact Finset.inter_eq_left.mpr hb.subset
  have htotal := hb.total
  rw [hall, ← Finset.card_pos]
  omega

end Search

end RunLoop

/-! ## The first search -/

/-- The first search of the run loop finds the whole request: the clusters at the hint are
not free, and need not be, and there is a free run elsewhere in the window. -/
def FoundAtOnce (g : Geometry) (r : Request) (v : Vcb) (F : Finset ℕ) : Prop :=
  r.exactMatchRequired = false ∧
    ¬ HintFree g F (startWindow g r v) (startCluster g r v) (r.clusterCount g) ∧
    ∃ x, FreeRun g F (startWindow g r v) x (r.clusterCount g)

section Start

variable {r : Request} {v : Vcb} {hints : ℕ × ℕ} {c : AllocCall}

/-- When the clusters at the hint complete the request, it is on the fast path. -/
theorem HintFree.fastPath
    (h : HintFree g F (startWindow g r v) (startCluster g r v) (r.clusterCount g))
    (hle : startCluster g r v + r.clusterCount g ≤ g.endOf (startWindow g r v)) :
    FastPath g r v F := by
  rw [HintFree, min_eq_right (by omega)] at h
  rw [FastPath]
  split
  · exact h
  · exact ⟨_, h⟩

variable (hh : HintChosen g r v hints c.vcb)

include hh

theorem RunLoop.hintValid_start : HintValid (start g r hints.2 c).lock :=
  fun _ => ⟨hh.two_le, hh.lt⟩

theorem RunLoop.hintCluster_start :
    hintCluster g (start g r hints.2 c).lock = startCluster g r v := hh.cluster

/-- What the first search finds. -/
theorem RunLoop.searched_start (hr : r.byteCount ≠ 0)
    (hb : Books g c.vcb F (r.clusterCount g)) {t : RunLoop}
    (hsearch : search g r.exactMatchRequired (start g r hints.2 c).lock = some t) :
    Searched g F r.exactMatchRequired (start g r hints.2 c).lock t :=
  searched_of_search (s := (start g r hints.2 c).lock) hb (r.clusterCount_pos hr).ne'
    (hintValid_start hh) hsearch

/-- Whether the first pass of the run loop finds everything. -/
theorem RunLoop.completesIn_start_iff (hr : r.byteCount ≠ 0)
    (hb : Books g c.vcb F (r.clusterCount g)) (hslow : ¬ FastPath g r v F) :
    CompletesIn g r.exactMatchRequired (start g r hints.2 c) ↔ FoundAtOnce g r v F := by
  have hC := r.clusterCount_pos (g := g) hr
  have hne : (start g r hints.2 c).lock.windowRelativeHint ≠ 0 := by
    have := hh.two_le
    change hints.2 ≠ 0
    omega
  have hwin : (start g r hints.2 c).lock.vcb.currentWindow = startWindow g r v := hh.window
  have hcluster := hintCluster_start hh
  cases hsearch : search g r.exactMatchRequired (start g r hints.2 c).lock with
  | none =>
      have hex := exact_of_search_eq_none hsearch
      constructor
      · rintro ⟨t, ht, -⟩
        rw [hsearch] at ht
        simp at ht
      · intro hfound
        exact absurd (hex.symm.trans hfound.1) (by simp)
  | some t =>
      have hiff : CompletesIn g r.exactMatchRequired (start g r hints.2 c) ↔
          t.clustersFound = r.clusterCount g := by
        constructor
        · rintro ⟨t', ht', heq⟩
          rw [hsearch] at ht'
          rwa [Option.some.inj ht']
        · exact fun heq => ⟨t, hsearch, heq⟩
      rw [hiff]
      cases searched_start hh hr hb hsearch with
      | flagged flag => exact absurd flag (by simp [start, lock])
      | atHint flag hint free first found =>
          rw [hwin, hcluster] at free found
          refine iff_of_false (fun heq => hslow (free.fastPath ?_)) fun hf => hf.2.1 free
          change _ = min _ (r.clusterCount g) at found
          omega
      | whole flag luck free found =>
          rw [hwin] at free
          obtain hzero | ⟨hex, hnot⟩ := luck
          · exact absurd hzero hne
          · rw [hwin, hcluster] at hnot
            exact iff_of_true found ⟨hex, hnot, _, free⟩
      | longest flag luck free lt =>
          refine iff_of_false (ne_of_lt lt) ?_
          rintro ⟨-, -, x, hx⟩
          rw [hwin] at free
          exact absurd (free.longest x _ hx) (not_le.mpr lt)
      | full flag luck found empty =>
          refine iff_of_false (by omega) ?_
          rintro ⟨-, -, x, hx⟩
          have hone := freeRun_one_iff.mp (hx.mono le_rfl (by omega))
          rw [← hwin, empty] at hone
          exact absurd hone (Finset.notMem_empty _)

end Start

end KernelDrivers.Fat
