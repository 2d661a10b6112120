import KernelDrivers.Fat.Search

/-!
# The first run of the run loop

Which run the loop takes first can be told from the free clusters alone: the clusters at
the hint, or a run of the starting window, or, when that window is full, one of the best
window.  The first run decides whether the map of a 4 GB request is complete: the byte
count of a run of 4 GB is zero in 32 bits.

## Main definitions

* `FirstRun g r v F y n` — the loop takes the `n` clusters from `y` on first.
* `RunLoop.FirstTake` — the pass that takes them.
-/

namespace KernelDrivers.Fat

variable {g : Geometry} {F : Finset ℕ} {i : ℕ} {r : Request} {v : Vcb}

/-- The run that a search without a hint finds in window `i`: a run for all `need`
clusters, else the longest. -/
def RunIn (g : Geometry) (F : Finset ℕ) (i need y n : ℕ) : Prop :=
  n = need ∧ FreeRun g F i y need ∨ n < need ∧ LongestRun g F i y n

/-- The first run of the loop. -/
inductive FirstRun (g : Geometry) (r : Request) (v : Vcb) (F : Finset ℕ) : ℕ → ℕ → Prop
  | hint : HintFree g F (startWindow g r v) (startCluster g r v) (r.clusterCount g) →
      FirstRun g r v F (startCluster g r v)
        (min (g.endOf (startWindow g r v) - startCluster g r v) (r.clusterCount g))
  | luck {y n : ℕ} : r.exactMatchRequired = false →
      ¬ HintFree g F (startWindow g r v) (startCluster g r v) (r.clusterCount g) →
      RunIn g F (startWindow g r v) (r.clusterCount g) y n → FirstRun g r v F y n
  | best {y n : ℕ} : r.exactMatchRequired = false →
      ¬ HintFree g F (startWindow g r v) (startCluster g r v) (r.clusterCount g) →
      F ∩ g.window (startWindow g r v) = ∅ →
      RunIn g F (fatSelectBestWindow g v) (r.clusterCount g) y n → FirstRun g r v F y n

theorem LongestRun.unique {y n y' n' : ℕ} (h : LongestRun g F i y n)
    (h' : LongestRun g F i y' n') : y = y' ∧ n = n' := by
  have hn : n = n' := le_antisymm (h'.longest y n h.free) (h.longest y' n' h'.free)
  subst hn
  exact ⟨le_antisymm (h.first y' h'.free) (h'.first y h.free), rfl⟩

theorem RunIn.unique {need y n y' n' : ℕ} (h : RunIn g F i need y n)
    (h' : RunIn g F i need y' n') : n = n' ∧ (n < need → y = y') := by
  obtain ⟨rfl, hfree⟩ | ⟨hlt, hlong⟩ := h
  · obtain ⟨rfl, hfree'⟩ | ⟨hlt', hlong'⟩ := h'
    · exact ⟨rfl, fun h => absurd h (lt_irrefl _)⟩
    · exact absurd (hlong'.longest _ _ hfree) (not_le.mpr hlt')
  · obtain ⟨rfl, hfree'⟩ | ⟨hlt', hlong'⟩ := h'
    · exact absurd (hlong.longest _ _ hfree') (not_le.mpr hlt)
    · obtain ⟨hy, hn⟩ := hlong.unique hlong'
      exact ⟨hn, fun _ => hy⟩

/-- A window in which a run is found is not full. -/
theorem RunIn.nonempty {need y n : ℕ} (h : RunIn g F i need y n) (hneed : 0 < need) :
    (F ∩ g.window i).Nonempty := by
  obtain ⟨rfl, hfree⟩ | ⟨-, hlong⟩ := h
  · exact ⟨y, freeRun_one_iff.mp (hfree.mono le_rfl (by omega))⟩
  · have := hlong.pos
    exact ⟨y, freeRun_one_iff.mp (hlong.free.mono le_rfl (by omega))⟩

/-- There is one first run; only where all of it is found at once its place is open. -/
theorem FirstRun.unique {y n y' n' : ℕ} (hr : r.byteCount ≠ 0) (h : FirstRun g r v F y n)
    (h' : FirstRun g r v F y' n') : n = n' ∧ (n < r.clusterCount g → y = y') := by
  have hC := r.clusterCount_pos (g := g) hr
  cases h with
  | hint hfree =>
      cases h' with
      | hint _ => exact ⟨rfl, fun _ => rfl⟩
      | luck _ hnot _ => exact absurd hfree hnot
      | best _ hnot _ _ => exact absurd hfree hnot
  | luck _ hnot hrun =>
      cases h' with
      | hint hfree => exact absurd hfree hnot
      | luck _ _ hrun' => exact hrun.unique hrun'
      | best _ _ hempty _ => exact absurd hempty (hrun.nonempty hC).ne_empty
  | best _ hnot hempty hrun =>
      cases h' with
      | hint hfree => exact absurd hfree hnot
      | luck _ _ hrun' => exact absurd hempty (hrun'.nonempty hC).ne_empty
      | best _ _ _ hrun' => exact hrun.unique hrun'

/-- The first run is free. -/
theorem FirstRun.subset {y n : ℕ} (h : FirstRun g r v F y n) : Finset.Ico y (y + n) ⊆ F := by
  have hrun : ∀ {i}, RunIn g F i (r.clusterCount g) y n → Finset.Ico y (y + n) ⊆ F := by
    rintro i (⟨rfl, hfree⟩ | ⟨-, hlong⟩)
    · exact hfree.2.2
    · exact hlong.free.2.2
  cases h with
  | hint hfree => exact hfree.2.2
  | luck _ _ h => exact hrun h
  | best _ _ _ h => exact hrun h

/-- No more than the request is taken. -/
theorem FirstRun.le {y n : ℕ} (h : FirstRun g r v F y n) : n ≤ r.clusterCount g := by
  have hrun : ∀ {i}, RunIn g F i (r.clusterCount g) y n → n ≤ r.clusterCount g := by
    rintro i (⟨rfl, -⟩ | ⟨hlt, -⟩)
    · exact le_rfl
    · exact hlt.le
  cases h with
  | hint _ => exact min_le_right _ _
  | luck _ _ h => exact hrun h
  | best _ _ _ h => exact hrun h

namespace RunLoop

variable {e : ℕ → ℕ} {C : ℕ} {cs : List ℕ} {s s' t : RunLoop} {exactMatchRequired : Bool}

/-- A search whose run could go on has reached the end of the window, and on FAT32 asks
for the next one. -/
theorem Searched.ends (h : Searched g F exactMatchRequired s t)
    (hlt : t.clustersFound < s.clustersRemaining) (hne : t.clustersFound ≠ 0)
    (hnext : firstFound g t + t.clustersFound ∈ F) :
    firstFound g t + t.clustersFound = g.endOf s.vcb.currentWindow ∧
      (g.width = .fat32 → t.selectNextContigWindow = true ∧ t.windowRelativeHint = 2) := by
  cases h with
  | flagged _ found => exact absurd found hne
  | full _ _ found => exact absurd found hne
  | whole _ _ _ found => exact absurd found hlt.ne
  | atHint _ _ free first found _ select hint' =>
      refine ⟨by omega, fun hw => ?_⟩
      rw [select, hint', if_pos hw]
      exact ⟨decide_eq_true hw, rfl⟩
  | longest _ _ free _ _ select hint' =>
      have hend : firstFound g t + t.clustersFound = g.endOf s.vcb.currentWindow := by
        by_contra hne'
        have hlong : FreeRun g F s.vcb.currentWindow (firstFound g t) (t.clustersFound + 1) := by
          obtain ⟨hfirst, hle, hsub⟩ := free.free
          refine ⟨hfirst, by omega, fun x hx => ?_⟩
          rw [Finset.mem_Ico] at hx
          by_cases hx' : x = firstFound g t + t.clustersFound
          · exact hx' ▸ hnext
          · exact hsub (Finset.mem_Ico.mpr (by omega))
        have := free.longest _ _ hlong
        omega
      refine ⟨hend, fun hw => ?_⟩
      have hsel := select.mpr ⟨hend, hw⟩
      rw [hint', hsel]
      exact ⟨rfl, rfl⟩

/-- What a pass that takes a run leaves of the variables. -/
structure AfterTake (t s' : RunLoop) : Prop where
  remaining : s'.clustersRemaining = t.clustersRemaining - t.clustersFound
  select : s'.selectNextContigWindow = t.selectNextContigWindow
  hint : s'.windowRelativeHint = t.windowRelativeHint
  window : s'.vcb.currentWindow = t.vcb.currentWindow
  bitmap : s'.vcb.freeClusterBitMap = t.vcb.freeClusterBitMap.setBits t.index t.clustersFound

theorem Takes.after (h : Takes g e F C cs t s') : AfterTake t s' := by
  obtain ⟨vol', rfl, -⟩ := h.result
  exact ⟨rfl, rfl, rfl, rfl, rfl⟩

/-- A pass goes on when nothing faults, unless a single window is full or an exact-match
request is refused. -/
theorem Taken.exists_pass (h : Taken g e F C cs s) (hF : ∀ c, c ∈ F ↔ c ∈ g.clusters ∧ e c = 0)
    (hC : C * g.clusterSize ≤ 2 ^ 32) (hrem : s.clustersRemaining ≠ 0)
    (hlinks : 1 < g.numberOfWindows → g.numberOfClusters + 1 < 2 ^ g.width.linkBits)
    (hio : s.vcb.vol.io = none) (hsearch : search g exactMatchRequired s.lock = some t)
    (hgo : t.clustersFound ≠ 0 ∨
      1 < g.numberOfWindows ∧ (exactMatchRequired = false ∨ SelectsNext g t)) :
    ∃ s', pass g exactMatchRequired s = .ok true s' ∧
      (Takes g e F C cs t s' ∨ Switches g e F C cs t s') := by
  have hsat := h.sat_pass exactMatchRequired hF hC hrem hlinks
  cases hp : pass g exactMatchRequired s with
  | error stop s' =>
      rcases hsat.error hp with ⟨-, hone, t', ht', hfound⟩ | ⟨-, k, hraises, -⟩
      · rw [hsearch] at ht'
        rw [← Option.some.inj ht'] at hfound
        rcases hgo with hne | ⟨hmany, -⟩
        · exact absurd hfound hne
        · omega
      · exact absurd hio hraises.io
  | ok b s' =>
      cases b with
      | true =>
          obtain ⟨t', ht', hstep⟩ := hsat.ok hp
          rw [hsearch] at ht'
          rw [← Option.some.inj ht'] at hstep
          exact ⟨s', rfl, hstep⟩
      | false =>
          obtain ⟨hex, -, -, hwhy⟩ := hsat.ok hp
          obtain ⟨hzero, hnext⟩ := hwhy t hsearch
          rcases hgo with hne | ⟨-, hno | hnext'⟩
          · exact absurd hzero hne
          · rw [hex] at hno
            simp at hno
          · exact absurd hnext' hnext

/-- The pass from `s` that takes the first run of the loop. -/
structure FirstTake (g : Geometry) (e : ℕ → ℕ) (F : Finset ℕ) (C : ℕ) (exactMatchRequired : Bool)
    (s t s' : RunLoop) : Prop where
  taken : Taken g e F C [] s
  remaining : s.clustersRemaining = C
  search : search g exactMatchRequired s.lock = some t
  searched : Searched g F exactMatchRequired s.lock t
  takes : Takes g e F C [] t s'

section Start

variable {hints : ℕ × ℕ} {c : AllocCall} (hh : HintChosen g r v hints c.vcb)
  (hr : r.byteCount ≠ 0) (hb : Books g c.vcb F (r.clusterCount g))

include hh hr hb

/-- A run that the first search finds is the first run. -/
theorem firstRun_of_search
    (hsearch : search g r.exactMatchRequired (start g r hints.2 c).lock = some t)
    (hne : t.clustersFound ≠ 0) : FirstRun g r v F (firstFound g t) t.clustersFound := by
  have hwin : (start g r hints.2 c).lock.vcb.currentWindow = startWindow g r v := hh.window
  have hcluster := hintCluster_start hh
  have hluck : PotLuck g F r.exactMatchRequired (start g r hints.2 c).lock →
      r.exactMatchRequired = false ∧
        ¬ HintFree g F (startWindow g r v) (startCluster g r v) (r.clusterCount g) := by
    rintro (hzero | ⟨hex, hnot⟩)
    · have h2 := hh.two_le
      change hints.2 = 0 at hzero
      omega
    · rw [hwin, hcluster] at hnot
      exact ⟨hex, hnot⟩
  cases searched_start hh hr hb hsearch with
  | flagged flag => exact absurd flag (by simp [start, lock])
  | full _ _ found => exact absurd found hne
  | atHint _ _ free first found =>
      rw [hwin, hcluster] at free found
      rw [first, hcluster, found]
      exact .hint free
  | whole _ luck free found =>
      rw [hwin] at free
      exact .luck (hluck luck).1 (hluck luck).2 (Or.inl ⟨found, free⟩)
  | longest _ luck free lt =>
      rw [hwin] at free
      exact .luck (hluck luck).1 (hluck luck).2 (Or.inr ⟨lt, free⟩)

/-- When the first search finds nothing, the starting window is full. -/
theorem full_of_search
    (hsearch : search g r.exactMatchRequired (start g r hints.2 c).lock = some t)
    (hzero : t.clustersFound = 0) :
    r.exactMatchRequired = false ∧
      ¬ HintFree g F (startWindow g r v) (startCluster g r v) (r.clusterCount g) ∧
      F ∩ g.window (startWindow g r v) = ∅ ∧
      t.selectNextContigWindow = false ∧ t.windowRelativeHint = 0 := by
  have hwin : (start g r hints.2 c).lock.vcb.currentWindow = startWindow g r v := hh.window
  have hcluster := hintCluster_start hh
  have hC := r.clusterCount_pos (g := g) hr
  cases searched_start hh hr hb hsearch with
  | flagged flag => exact absurd flag (by simp [start, lock])
  | atHint _ _ _ _ _ found_ne => exact absurd hzero found_ne
  | whole _ _ _ found =>
      change _ = r.clusterCount g at found
      omega
  | longest _ _ free => exact absurd hzero free.pos.ne'
  | full _ luck _ empty select hint' =>
      rw [hwin] at empty
      obtain hno | ⟨hex, hnot⟩ := luck
      · have h2 := hh.two_le
        change hints.2 = 0 at hno
        omega
      · rw [hwin, hcluster] at hnot
        exact ⟨hex, hnot, empty, select, hint'⟩

/-- The search in the best window finds the first run. -/
theorem firstRun_of_switch {t2 : RunLoop}
    (hsearch : search g r.exactMatchRequired (start g r hints.2 c).lock = some t)
    (hswitch : Switches g e F (r.clusterCount g) [] t s')
    (hsearch2 : search g r.exactMatchRequired s'.lock = some t2) :
    t2.clustersFound ≠ 0 ∧ FirstRun g r v F (firstFound g t2) t2.clustersFound ∧
      Searched g F r.exactMatchRequired s'.lock t2 := by
  obtain ⟨hex, hnot, hempty, hsel, hhint⟩ := full_of_search hh hr hb hsearch hswitch.found
  have htaken := hswitch.taken
  have hC := r.clusterCount_pos (g := g) hr
  have hrem := htaken.remaining
  rw [List.length_nil, Nat.add_zero] at hrem
  have hbooks : Books g s'.vcb F s'.clustersRemaining := by
    have := htaken.books
    rwa [List.toFinset_nil, Finset.sdiff_empty] at this
  obtain ⟨v', hint, heq, hfree, hto, -, -⟩ := hswitch.result
  have hnext : ¬ SelectsNext g t := by
    rintro ⟨hflag, -⟩
    rw [hsel] at hflag
    simp at hflag
  have hhint' : s'.windowRelativeHint = 0 := by
    rw [heq]
    change hint = 0
    rw [hto.hint, if_neg (by simp [hsel]), hhint]
  have hflag : s'.selectNextContigWindow = false := by rw [heq]
  have hwindows : t.vcb.windows = v.windows := by
    rw [(search_found hsearch).rest]
    exact hh.windows
  have hwin : s'.vcb.currentWindow = fatSelectBestWindow g v := by
    rw [heq]
    change v'.currentWindow = _
    rw [hto.window, if_neg hnext, fatSelectBestWindow, fatSelectBestWindow, hwindows]
  have hsome : (F ∩ g.window s'.vcb.currentWindow).Nonempty := by
    rw [← Finset.card_pos, ← hbooks.free _ hbooks.current, heq]
    exact hfree
  have hrem' : s'.clustersRemaining ≠ 0 := by omega
  have hsearched := searched_of_search (s := s'.lock) hbooks hrem'
    (fun hne => absurd hhint' hne) hsearch2
  have hne := hsearched.found_ne_zero hflag hrem' hsome
  refine ⟨hne, ?_, hsearched⟩
  have hrun : RunIn g F s'.vcb.currentWindow s'.clustersRemaining (firstFound g t2)
      t2.clustersFound := by
    cases hsearched with
    | flagged flag => exact absurd (hflag.symm.trans flag) (by simp)
    | atHint _ hint => exact absurd hhint' hint
    | whole _ _ free found => exact Or.inl ⟨found, free⟩
    | longest _ _ free lt => exact Or.inr ⟨lt, free⟩
    | full _ _ found => exact absurd found hne
  rw [hwin, hrem] at hrun
  exact .best hex hnot hempty hrun

variable (hmcb : c.mcb = [])
  (hF : ∀ x, x ∈ F ↔ x ∈ g.clusters ∧ lookupEntry g.width c.vcb.vol.fat x = 0)
  (hlinks : 1 < g.numberOfWindows → g.numberOfClusters + 1 < 2 ^ g.width.linkBits)

include hmcb hF hlinks

/-- **The first run** of a loop that completes. -/
theorem first_take {fuel : ℕ}
    (hloop : loop g r.exactMatchRequired fuel (start g r hints.2 c) = .ok true s') :
    ∃ s t s1 fuel1, FirstTake g (lookupEntry g.width c.vcb.vol.fat) F (r.clusterCount g)
        r.exactMatchRequired s t s1 ∧
      FirstRun g r v F (firstFound g t) t.clustersFound ∧
      loop g r.exactMatchRequired fuel1 s1 = .ok true s' := by
  have hC := r.clusterCount_pos (g := g) hr
  have hCle := r.clusterCount_mul_le (g := g) hr
  have hstart := taken_start hints.2 hb hmcb
  have hpass : ∀ {fuel : ℕ} {s : RunLoop}, s.clustersRemaining ≠ 0 →
      loop g r.exactMatchRequired fuel s = .ok true s' → ∃ fuel1 s1,
        pass g r.exactMatchRequired s = .ok true s1 ∧
          loop g r.exactMatchRequired fuel1 s1 = .ok true s' := by
    intro fuel s hrem hl
    cases fuel with
    | zero =>
        rw [loop, get_bind_run, if_neg hrem, throw_run] at hl
        simp at hl
    | succ fuel =>
        rw [loop_succ _ fuel hrem] at hl
        split at hl
        · next s1 hp => exact ⟨fuel, s1, hp, hl⟩
        · simp at hl
        · simp at hl
  obtain ⟨fuel1, s1, hp1, hl1⟩ := hpass hC.ne' hloop
  obtain ⟨t, hsearch, hstep⟩ := (hstart.sat_pass _ hF hCle hC.ne' hlinks).ok hp1
  rcases hstep with htakes | hswitch
  · exact ⟨_, t, s1, fuel1, ⟨hstart, rfl, hsearch, searched_start hh hr hb hsearch, htakes⟩,
      firstRun_of_search hh hr hb hsearch htakes.found, hl1⟩
  · have hrem : s1.clustersRemaining = r.clusterCount g := by
      have := hswitch.taken.remaining
      rwa [List.length_nil, Nat.add_zero] at this
    obtain ⟨fuel2, s2, hp2, hl2⟩ := hpass (by omega) hl1
    obtain ⟨t2, hsearch2, hstep2⟩ := (hswitch.taken.sat_pass _ hF hCle (by omega) hlinks).ok hp2
    obtain ⟨hne, hfirst, hsearched⟩ := firstRun_of_switch hh hr hb hsearch hswitch hsearch2
    rcases hstep2 with htakes | hswitch2
    · exact ⟨s1, t2, s2, fuel2, ⟨hswitch.taken, hrem, hsearch2, hsearched, htakes⟩, hfirst, hl2⟩
    · exact absurd hswitch2.found hne

/-- Without faults the loop takes its first run. -/
theorem exists_first_take (hio : c.vcb.vol.io = none) {y n : ℕ} (hfirst : FirstRun g r v F y n) :
    ∃ s t s1 k, FirstTake g (lookupEntry g.width c.vcb.vol.fat) F (r.clusterCount g)
        r.exactMatchRequired s t s1 ∧
      t.clustersFound = n ∧ (n < r.clusterCount g → firstFound g t = y) ∧
      s1.vcb.vol.io = none ∧
      ∀ fuel, loop g r.exactMatchRequired (fuel + k) (start g r hints.2 c) =
        loop g r.exactMatchRequired fuel s1 := by
  have hC := r.clusterCount_pos (g := g) hr
  have hCle := r.clusterCount_mul_le (g := g) hr
  have hstart := taken_start hints.2 hb hmcb
  have huniq : ∀ {t : RunLoop}, FirstRun g r v F (firstFound g t) t.clustersFound →
      t.clustersFound = n ∧ (n < r.clusterCount g → firstFound g t = y) := by
    intro t ht
    obtain ⟨hn, hy⟩ := hfirst.unique hr ht
    exact ⟨hn.symm, fun hlt => (hy hlt).symm⟩
  cases hsearch : search g r.exactMatchRequired (start g r hints.2 c).lock with
  | none =>
      exfalso
      have hnone := (search_eq_none_iff (s := (start g r hints.2 c).lock) hb hC.ne'
        (hintValid_start hh)).mp hsearch
      obtain ⟨hex, -, -, hnot⟩ := hnone
      rw [hintCluster_start hh] at hnot
      have hno : ¬ HintFree g F (startWindow g r v) (startCluster g r v) (r.clusterCount g) := by
        rw [← hh.window]
        exact hnot
      cases hfirst with
      | hint hfree => exact hno hfree
      | luck hex' => exact absurd (hex.symm.trans hex') (by simp)
      | best hex' => exact absurd (hex.symm.trans hex') (by simp)
  | some t =>
      by_cases hzero : t.clustersFound = 0
      · obtain ⟨hex, hnot, hempty, hsel, hhint⟩ := full_of_search hh hr hb hsearch hzero
        have hmany : 1 < g.numberOfWindows := by
          by_contra hone
          have hne := nonempty_of_one (s := (start g r hints.2 c).lock) hb hC.ne'
            (Geometry.numberOfWindows_eq_one hone)
          rw [show (start g r hints.2 c).lock.vcb.currentWindow = _ from hh.window, hempty] at hne
          exact absurd hne Finset.not_nonempty_empty
        obtain ⟨s1, hp1, hstep⟩ := hstart.exists_pass hF hCle hC.ne' hlinks hio hsearch
          (Or.inr ⟨hmany, Or.inl hex⟩)
        obtain htakes | hswitch := hstep
        · exact absurd hzero htakes.found
        have hrem : s1.clustersRemaining = r.clusterCount g := by
          have := hswitch.taken.remaining
          rwa [List.length_nil, Nat.add_zero] at this
        have hio1 := hstart.io_after_pass hCle hsearch (Or.inr hswitch) hio
        cases hsearch2 : search g r.exactMatchRequired s1.lock with
        | none => exact absurd ((exact_of_search_eq_none hsearch2).symm.trans hex) (by simp)
        | some t2 =>
            obtain ⟨hne, hfirst2, hsearched⟩ := firstRun_of_switch hh hr hb hsearch hswitch hsearch2
            obtain ⟨s2, hp2, hstep2⟩ := hswitch.taken.exists_pass hF hCle (by omega) hlinks hio1
              hsearch2 (Or.inl hne)
            obtain htakes | hswitch2 := hstep2
            · have hu := huniq hfirst2
              refine ⟨s1, t2, s2, 2, ⟨hswitch.taken, hrem, hsearch2, hsearched, htakes⟩, hu.1, hu.2,
                hswitch.taken.io_after_pass hCle hsearch2 (Or.inl htakes) hio1, fun fuel => ?_⟩
              rw [loop_succ _ (fuel + 1) hC.ne', hp1]
              dsimp only
              rw [loop_succ _ fuel (by omega), hp2]
            · exact absurd hswitch2.found hne
      · obtain ⟨s1, hp1, hstep⟩ := hstart.exists_pass hF hCle hC.ne' hlinks hio hsearch (Or.inl hzero)
        obtain htakes | hswitch := hstep
        · have hu := huniq (firstRun_of_search hh hr hb hsearch hzero)
          refine ⟨_, t, s1, 1, ⟨hstart, rfl, hsearch, searched_start hh hr hb hsearch, htakes⟩, hu.1,
            hu.2, hstart.io_after_pass hCle hsearch (Or.inl htakes) hio, fun fuel => ?_⟩
          rw [loop_succ _ fuel hC.ne', hp1]
        · exact absurd hswitch.found hzero

end Start

end RunLoop

end KernelDrivers.Fat
