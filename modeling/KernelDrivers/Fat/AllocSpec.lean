import KernelDrivers.Fat.RunLoop

/-!
# What an allocation does

The parts of `FatAllocateDiskSpace` around the run loop: the size of the request, the
hint and its window, the fast path, and the slow path with its unwind.  Where the
routine decides something by looking at the bitmap, the lemmas say it in terms of the
free clusters and the windows.

## Main definitions

* `Consistent` — the states in which the routine is called.
* `FreeRun` — a run of free clusters inside one window.
* `startWindow`, `startCluster` — where the search begins.
* `FastPath` — the requests that are filled in one piece.
-/

namespace KernelDrivers.Fat

variable {g : Geometry} {r : Request} {F : Finset ℕ} {v : Vcb} {c : AllocCall}

/-- A consistent allocation state: maps and links are exact, and the bitmap and the
counters are those of the FAT. -/
structure Consistent (g : Geometry) (v : Vcb) : Prop where
  sound : g.Sound
  books : Books g v (zeroSet g v.vol.fat) 0

/-! ## The size of a request -/

/-- A request is for at least one and at most 4 GB of clusters. -/
theorem requestSize_spec {byteCount : ℕ} (hpos : byteCount ≠ 0) (hlt : byteCount < 2 ^ 32) :
    0 < (requestSize g byteCount).2 ∧ (requestSize g byteCount).2 * g.clusterSize ≤ 2 ^ 32 ∧
      byteCount ≤ (requestSize g byteCount).2 * g.clusterSize ∧
      (requestSize g byteCount).1 =
        if (requestSize g byteCount).2 * g.clusterSize = 2 ^ 32 then 0xffffffff
        else (requestSize g byteCount).2 * g.clusterSize := by
  have hsize := g.clusterSize_pos
  obtain ⟨k, hk⟩ := g.clusterSize_dvd
  have hcs : 2 ^ (32 - g.logOfBytesPerCluster) * g.clusterSize = 2 ^ 32 := by
    rw [Geometry.clusterSize, ← pow_add]
    have h1 := g.cluster_mem
    have h2 := g.sector_mem
    congr 1
    omega
  by_cases hwrap : byteCount + (g.clusterSize - 1) < 2 ^ 32
  · have hround : roundByteCount g byteCount =
        (byteCount + (g.clusterSize - 1)) / g.clusterSize * g.clusterSize := by
      rw [roundByteCount, ulong_of_lt hwrap]
    have hquot : 0 < (byteCount + (g.clusterSize - 1)) / g.clusterSize :=
      Nat.div_pos (by omega) hsize
    have hne : roundByteCount g byteCount ≠ 0 := by
      rw [hround]
      exact (Nat.mul_pos hquot hsize).ne'
    have hmod := Nat.div_add_mod (byteCount + (g.clusterSize - 1)) g.clusterSize
    have hmodlt := Nat.mod_lt (byteCount + (g.clusterSize - 1)) hsize
    rw [Nat.mul_comm] at hmod
    rw [requestSize, if_neg hne, hround]
    dsimp only
    rw [Nat.mul_div_cancel _ hsize]
    refine ⟨hquot, by omega, by omega, ?_⟩
    rw [if_neg (by omega)]
  · have hzero : roundByteCount g byteCount = 0 := by
      have hle := g.clusterSize_le
      have hulong : ulong (byteCount + (g.clusterSize - 1)) < g.clusterSize := by
        rw [ulong]
        omega
      rw [roundByteCount, Nat.div_eq_of_lt hulong, Nat.zero_mul]
    rw [requestSize, if_pos hzero]
    dsimp only
    refine ⟨Nat.two_pow_pos _, by omega, by omega, ?_⟩
    rw [if_pos hcs]

section Size

variable (hr : r.byteCount ≠ 0)

include hr

theorem Request.clusterCount_pos : 0 < r.clusterCount g :=
  (requestSize_spec hr r.byteCount_lt).1

theorem Request.clusterCount_mul_le : r.clusterCount g * g.clusterSize ≤ 2 ^ 32 :=
  (requestSize_spec hr r.byteCount_lt).2.1

/-- The byte count of the request covers the sectors of its clusters. -/
theorem Request.mcbSectors_eq : mcbSectors g (requestSize g r.byteCount).1 =
    r.clusterCount g * g.clusterSectors := by
  rw [(requestSize_spec hr r.byteCount_lt).2.2.2]
  split
  · next hmax => exact mcbSectors_max g hmax
  · exact mcbSectors_mul_clusterSize g _

theorem requestSize_fst_ne_zero : (requestSize g r.byteCount).1 ≠ 0 := by
  rw [(requestSize_spec hr r.byteCount_lt).2.2.2]
  split
  · norm_num
  · exact (Nat.mul_pos (r.clusterCount_pos hr) g.clusterSize_pos).ne'

end Size

/-- The routine after its first checks. -/
theorem fatAllocateDiskSpace_eq (fuel : ℕ) (hr : r.byteCount ≠ 0) :
    fatAllocateDiskSpace g r fuel c =
      if c.vcb.numberOfFreeClusters < r.clusterCount g then
        .error (.raised .diskFull) { c with byteCount := (requestSize g r.byteCount).1 }
      else
        match chooseHint g r (c.admitted g r).vcb with
        | .ok hints v => allocateAt g r fuel hints { c.admitted g r with vcb := v }
        | .error stop v => .error stop { c.admitted g r with vcb := v } := by
  rw [fatAllocateDiskSpace, if_neg hr]
  rw [get_bind_run]
  split
  · rfl
  · change EStateM.bind (AllocCall.onVcb (chooseHint g r)) _ (c.admitted g r) = _
    rw [EStateM.bind, AllocCall.onVcb, onPart]
    cases chooseHint g r (c.admitted g r).vcb <;> rfl

/-! ## Where the search begins -/

/-- The caller's hint counts. -/
def Request.Hinted (g : Geometry) (r : Request) : Prop :=
  r.absoluteClusterHint ≠ 0 ∧ r.absoluteClusterHint < g.numberOfClusters + 2

instance (g : Geometry) (r : Request) : Decidable (r.Hinted g) := inferInstanceAs (Decidable (_ ∧ _))

/-- The window the search begins in. -/
def startWindow (g : Geometry) (r : Request) (v : Vcb) : ℕ :=
  if r.Hinted g ∧ 1 < g.numberOfWindows then g.windowOf r.absoluteClusterHint else v.currentWindow

/-- The cluster the search begins at. -/
def startCluster (g : Geometry) (r : Request) (v : Vcb) : ℕ :=
  if r.Hinted g then r.absoluteClusterHint
  else g.firstOf v.currentWindow + (v.clusterHint.getD 2 - 2)

/-- `n` free clusters from `c` on, all in window `i`. -/
def FreeRun (g : Geometry) (F : Finset ℕ) (i c n : ℕ) : Prop :=
  g.firstOf i ≤ c ∧ c + n ≤ g.endOf i ∧ Finset.Ico c (c + n) ⊆ F

/-- The request can be filled in one piece: at the hint if the caller gave one, else
anywhere in the window. -/
def FastPath (g : Geometry) (r : Request) (v : Vcb) (F : Finset ℕ) : Prop :=
  if r.Hinted g then FreeRun g F (startWindow g r v) (startCluster g r v) (r.clusterCount g)
  else ∃ x, FreeRun g F (startWindow g r v) x (r.clusterCount g)

/-- A clear run of the bitmap is a free run of the current window. -/
theorem Books.clearAt_iff_freeRun {k i n : ℕ} (h : Books g v F k) :
    v.freeClusterBitMap.ClearAt i n ↔
      FreeRun g F v.currentWindow (g.firstOf v.currentWindow + i) n := by
  have hle := Geometry.firstOf_le_endOf h.current
  rw [h.clearAt_iff, FreeRun, h.size]
  constructor
  · rintro ⟨hsize, hsub⟩
    exact ⟨by omega, by omega, hsub⟩
  · rintro ⟨-, hend, hsub⟩
    exact ⟨by omega, hsub⟩

theorem Books.exists_clearAt_iff {k n : ℕ} (h : Books g v F k) :
    (∃ i, v.freeClusterBitMap.ClearAt i n) ↔ ∃ x, FreeRun g F v.currentWindow x n := by
  constructor
  · rintro ⟨i, hi⟩
    exact ⟨_, h.clearAt_iff_freeRun.mp hi⟩
  · rintro ⟨x, hx⟩
    refine ⟨x - g.firstOf v.currentWindow, h.clearAt_iff_freeRun.mpr ?_⟩
    rwa [Nat.add_sub_cancel' hx.1]

/-- What the search starts from: the hint is inside the window. -/
structure HintChosen (g : Geometry) (r : Request) (v : Vcb) (hints : ℕ × ℕ) (v' : Vcb) : Prop where
  hint : hints.1 = if r.Hinted g then r.absoluteClusterHint else 0
  window : v'.currentWindow = startWindow g r v
  cluster : g.firstOf v'.currentWindow + (hints.2 - 2) = startCluster g r v
  two_le : 2 ≤ hints.2
  lt : hints.2 < v'.freeClusterBitMap.size + 2
  windows : v'.windows = v.windows
  fat : v'.vol.fat = v.vol.fat
  io : v.vol.io = none → v'.vol.io = none

/-- The hint's window becomes the current one. -/
theorem sat_switchToHint (h : Books g v F (r.clusterCount g)) (hzero : zeroSet g v.vol.fat = F)
    (hmany : 1 < g.numberOfWindows) (hhint : r.Hinted g) :
    Sat (switchToHint g r) v
      (fun _ v' => Books g v' F (r.clusterCount g) ∧
        v'.currentWindow = g.windowOf r.absoluteClusterHint ∧ v'.windows = v.windows ∧
        v'.vol.fat = v.vol.fat ∧ (v.vol.io = none → v'.vol.io = none))
      (fun stop v' => stop = .raised .deviceError ∧ v.vol.io ≠ none ∧ v'.vol.io = none ∧
        Books g v' F 0 ∧
        ∀ j, lookupEntry g.width v'.vol.fat j = lookupEntry g.width v.vol.fat j) := by
  have hmem : r.absoluteClusterHint ∈ g.clusters := by
    have hne := r.hint_ne
    have h0 := hhint.1
    exact Geometry.mem_clusters.mpr ⟨by omega, hhint.2⟩
  obtain ⟨hlt, hwin⟩ := Geometry.mem_window_windowOf hmem
  have hbucket : fatWindowOfCluster r.absoluteClusterHint =
      g.windowOf r.absoluteClusterHint := by
    rw [Geometry.windowOf, if_pos hmany]
  rw [switchToHint]
  apply Sat.get_bind
  dsimp only
  rw [hbucket]
  by_cases hcond : (r.absoluteClusterHint < v.window.firstCluster ∨
      v.window.lastCluster < r.absoluteClusterHint) ∧
      g.windowOf r.absoluteClusterHint ≠ v.currentWindow
  · rw [if_pos hcond]
    apply Sat.protect
    refine (sat_fatExamineFatEntries h.windowsOf h.total hmany hlt hzero).mono ?_ ?_
    · rintro _ v' ⟨hbooks, hcur, hwindows, _, hfat, hio⟩
      exact ⟨hbooks, hcur, hwindows, hfat, hio⟩
    · rintro stop _ ⟨hstop, vol', rfl, hfault⟩
      rw [hstop, if_pos (Stop.isRaised_raised _)]
      refine Sat.modify ⟨rfl, hfault.io, hfault.io', ?_, hfault.entry⟩
      have htotal := h.total
      have hcard := card_lt h.subset
      refine ⟨h.subset, h.current, h.first, h.last, h.size, h.bit, h.free, ?_, h.hint⟩
      dsimp only
      rw [ulong_of_lt (by omega)]
      omega
  · rw [if_neg hcond]
    refine Sat.pure ⟨h, ?_, rfl, rfl, fun hio => hio⟩
    by_contra hne
    apply hcond
    refine ⟨?_, fun heq => hne heq.symm⟩
    by_contra hin
    have hfirst : v.window.firstCluster = _ := h.first _ h.current
    have hlast : v.window.lastCluster + 1 = _ := h.last _ h.current
    have hmem' : r.absoluteClusterHint ∈ g.window v.currentWindow :=
      Geometry.mem_window.mpr ⟨by omega, by omega⟩
    exact hne (Geometry.windowOf_eq h.current hmem').symm

/-- **Choosing the hint.**  When the switch to the hint's window raises, the clusters of
the request are back on the count. -/
theorem sat_chooseHint (hr : r.byteCount ≠ 0) (h : Books g v F (r.clusterCount g))
    (hzero : zeroSet g v.vol.fat = F) :
    Sat (chooseHint g r) v
      (fun hints v' => Books g v' F (r.clusterCount g) ∧ HintChosen g r v hints v')
      (fun stop v' => stop = .raised .deviceError ∧ v.vol.io ≠ none ∧ v'.vol.io = none ∧
        Books g v' F 0 ∧
        ∀ j, lookupEntry g.width v'.vol.fat j = lookupEntry g.width v.vol.fat j) := by
  have hN : 0 < g.numberOfClusters := by
    have hC := r.clusterCount_pos (g := g) hr
    have htotal := h.total
    have hcard := Finset.card_le_card h.subset
    rw [Geometry.clusters, Nat.card_Ico] at hcard
    omega
  rw [chooseHint]
  by_cases hhint : r.Hinted g
  · have hne := r.hint_ne
    have h0 := hhint.1
    have hltN := hhint.2
    have hmem : r.absoluteClusterHint ∈ g.clusters := Geometry.mem_clusters.mpr ⟨by omega, hhint.2⟩
    have hcluster : startCluster g r v = r.absoluteClusterHint := if_pos hhint
    rw [if_pos (show r.absoluteClusterHint ≠ 0 ∧ _ from hhint)]
    by_cases hmany : 1 < g.numberOfWindows
    · obtain ⟨hlt, hwin⟩ := Geometry.mem_window_windowOf hmem
      rw [Geometry.mem_window] at hwin
      rw [if_pos hmany]
      apply Sat.bind (sat_switchToHint h hzero hmany hhint)
      rintro _ v' ⟨hbooks, hcur, hwindows, hfat, hio⟩
      apply Sat.get_bind
      have hfirst : v'.window.firstCluster = _ := hbooks.first _ hbooks.current
      have hsize := hbooks.size
      rw [hcur] at hfirst hsize
      refine Sat.pure ⟨hbooks, (if_pos hhint).symm, ?_, ?_, ?_, ?_, hwindows, hfat, hio⟩
      · rw [hcur, startWindow, if_pos ⟨hhint, hmany⟩]
      · rw [hcluster, hcur]
        dsimp only
        omega
      · dsimp only
        omega
      · dsimp only
        omega
    · have hone := Geometry.numberOfWindows_eq_one hmany
      have hcur : v.currentWindow = 0 := by
        have := h.current
        omega
      have hsize := h.size
      rw [hcur, g.endOf_last (by omega), g.firstOf_zero] at hsize
      rw [if_neg hmany]
      refine Sat.pure ⟨h, (if_pos hhint).symm, ?_, ?_, ?_, ?_, rfl, rfl, fun hio => hio⟩
      · rw [startWindow, if_neg (by tauto)]
      · rw [hcluster, hcur, g.firstOf_zero]
        dsimp only
        omega
      · dsimp only
        omega
      · dsimp only
        omega
  · rw [if_neg (show ¬ (r.absoluteClusterHint ≠ 0 ∧ _) from hhint)]
    apply Sat.get_bind
    have hsize := h.size
    have hwin := Geometry.firstOf_lt_endOf h.current hN
    have hbound : 2 ≤ v.clusterHint.getD 2 ∧ v.clusterHint.getD 2 < v.freeClusterBitMap.size + 2 := by
      cases hc : v.clusterHint with
      | none =>
          rw [Option.getD_none]
          omega
      | some x =>
          have := h.hint x hc
          rw [Option.getD_some]
          omega
    refine Sat.pure ⟨h, (if_neg hhint).symm, ?_, ?_, hbound.1, hbound.2, rfl, rfl, fun hio => hio⟩
    · rw [startWindow, if_neg (by tauto)]
    · rw [startCluster, if_neg hhint]

/-! ## The fast path -/

/-- What `FatFindFreeClusterRun` returns is a free run of the window. -/
theorem clearAt_of_fatFindFreeClusterRun {n hint start : ℕ}
    (h2 : 2 ≤ hint) (hlt : hint < v.freeClusterBitMap.size + 2)
    (hfind : fatFindFreeClusterRun v n hint = some start) :
    2 ≤ start ∧ v.freeClusterBitMap.ClearAt (start - 2) n := by
  rw [fatFindFreeClusterRun] at hfind
  split at hfind
  · next hone =>
      rw [← Option.some.inj hfind, hone.1]
      refine ⟨h2, by omega, fun j hj => ?_⟩
      rw [Nat.lt_one_iff.mp hj]
      exact hone.2
  · obtain ⟨i, hi, rfl⟩ := Option.map_eq_some_iff.mp hfind
    exact ⟨Nat.le_add_left 2 i, Bitmap.clearAt_of_findClearBits hi⟩

/-- The condition under which the routine takes the fast path. -/
theorem fastPath_iff {hints : ℕ × ℕ} {v' : Vcb} (hr : r.byteCount ≠ 0)
    (h : Books g v' F (r.clusterCount g)) (hh : HintChosen g r v hints v') :
    FastPath g r v F ↔ ∃ start, fatFindFreeClusterRun v' (r.clusterCount g) hints.2 = some start ∧
      (hints.1 = 0 ∨ start = hints.2) := by
  have hC := r.clusterCount_pos (g := g) hr
  have hat : v'.freeClusterBitMap.ClearAt (hints.2 - 2) (r.clusterCount g) ↔
      FreeRun g F (startWindow g r v) (startCluster g r v) (r.clusterCount g) := by
    rw [h.clearAt_iff_freeRun, hh.cluster, hh.window]
  have h2 := hh.two_le
  have hfind : (∃ start, fatFindFreeClusterRun v' (r.clusterCount g) hints.2 = some start) ↔
      ∃ i, v'.freeClusterBitMap.ClearAt i (r.clusterCount g) := by
    constructor
    · rintro ⟨start, hs⟩
      exact ⟨_, (clearAt_of_fatFindFreeClusterRun h2 hh.lt hs).2⟩
    · intro hex
      rw [fatFindFreeClusterRun]
      split
      · exact ⟨_, rfl⟩
      · have := (Bitmap.isSome_findClearBits_iff (hints.2 - 2) hC).mpr hex
        obtain ⟨i, hi⟩ := Option.isSome_iff_exists.mp this
        exact ⟨i + 2, by rw [hi]; rfl⟩
  by_cases hhint : r.Hinted g
  · have hne : hints.1 ≠ 0 := by
      rw [hh.hint, if_pos hhint]
      exact hhint.1
    rw [FastPath, if_pos hhint, ← hat]
    constructor
    · intro hclear
      refine ⟨hints.2, ?_, Or.inr rfl⟩
      rw [fatFindFreeClusterRun]
      split
      · rfl
      · rw [Bitmap.findClearBits_eq_hint hC hclear, Option.map_some, Nat.sub_add_cancel h2]
    · rintro ⟨start, hs, hz | heq⟩
      · exact absurd hz hne
      · rw [← heq]
        exact (clearAt_of_fatFindFreeClusterRun h2 hh.lt hs).2
  · have hz : hints.1 = 0 := by rw [hh.hint, if_neg hhint]
    rw [FastPath, if_neg hhint, ← hh.window, ← h.exists_clearAt_iff, ← hfind]
    simp [hz]

/-- Removing the whole request from a map that is one run. -/
theorem fatRemoveMcbEntry_request {x : ℕ} (hr : r.byteCount ≠ 0) :
    fatRemoveMcbEntry g (mcbOf g (List.range' x (r.clusterCount g))) 0
      (requestSize g r.byteCount).1 = [] := by
  obtain ⟨-, hle, -, heq⟩ := requestSize_spec (g := g) hr r.byteCount_lt
  rw [heq]
  split
  · apply RunLoop.fatRemoveMcbEntry_all
    rw [List.length_range']
    exact hle
  · have := RunLoop.fatRemoveMcbEntry_mcbOf g [] x (r.clusterCount g)
    rwa [List.length_nil, Nat.zero_mul, List.nil_append] at this

/-- **The fast path.**  One run is taken, mapped and chained; a raise puts everything
back.  The `k` clusters are off the total for other requests. -/
theorem sat_allocateFast {start k : ℕ} (hr : r.byteCount ≠ 0)
    (h : Books g c.vcb F (r.clusterCount g + k)) (h2 : 2 ≤ start)
    (hclear : c.vcb.freeClusterBitMap.ClearAt (start - 2) (r.clusterCount g))
    (hmcb : c.mcb = []) (hbytes : c.byteCount = (requestSize g r.byteCount).1) :
    let x := g.firstOf c.vcb.currentWindow + (start - 2)
    let cs := List.range' x (r.clusterCount g)
    Sat (allocateFast g start (r.clusterCount g)) c
      (fun _ c' => Books g c'.vcb (F \ cs.toFinset) k ∧ c'.mcb = mcbOf g cs ∧
        c'.byteCount = c.byteCount ∧
        (∀ j, lookupEntry g.width c'.vcb.vol.fat j =
          chainEntry g.width (lookupEntry g.width c.vcb.vol.fat) cs j) ∧
        (c.vcb.vol.io = none → c'.vcb.vol.io = none))
      (fun stop c' => stop = .raised .deviceError ∧ c.vcb.vol.io ≠ none ∧ Books g c'.vcb F k ∧
        c'.mcb = [] ∧
        ∀ j, lookupEntry g.width c'.vcb.vol.fat j = lookupEntry g.width c.vcb.vol.fat j) := by
  intro x cs
  have hC := r.clusterCount_pos (g := g) hr
  have hfirst : c.vcb.window.firstCluster = g.firstOf c.vcb.currentWindow := h.first _ h.current
  have hx : start + c.vcb.window.firstCluster - 2 = x := by
    have : x = g.firstOf c.vcb.currentWindow + (start - 2) := rfl
    omega
  have hrun := h.run_subset hclear
  change Finset.Ico x (x + r.clusterCount g) ⊆ F ∩ g.window c.vcb.currentWindow at hrun
  have hcs : cs.toFinset = Finset.Ico x (x + r.clusterCount g) := by
    ext y
    rw [List.mem_toFinset, List.mem_range'_1, Finset.mem_Ico]
  have hbooks : Books g (takeRun c.vcb (start - 2) (r.clusterCount g)) (F \ cs.toFinset) k := by
    rw [hcs]
    have hb : Books g c.vcb F (k + r.clusterCount g) := by
      rw [Nat.add_comm]
      exact h
    exact hb.takeRun hclear hC
  have hlo := Geometry.mem_clusters.mp (h.subset (Finset.mem_inter.mp
    (hrun (Finset.mem_Ico.mpr ⟨le_rfl, by omega⟩))).1)
  have hhi := Geometry.mem_clusters.mp (h.subset (Finset.mem_inter.mp (hrun (Finset.mem_Ico.mpr
    (show x ≤ x + r.clusterCount g - 1 ∧ _ by omega)))).1)
  have hone : g.width = .fat32 → r.clusterCount g ≤ maxCountClus := by
    intro hw
    have h1 := RunLoop.window_le_maxCountClus hw c.vcb.currentWindow
    have h2 := hclear.1
    rw [h.size] at h2
    omega
  have hmap : fatAddMcbEntry g c.mcb 0 (fatGetLboFromIndex g x) c.byteCount = mcbOf g cs := by
    have := fatAddMcbEntry_mcbOf g [] hlo.1 (hbytes ▸ r.mcbSectors_eq hr)
    rw [List.length_nil, Nat.zero_mul, List.nil_append] at this
    rw [hmcb]
    exact this
  rw [allocateFast]
  apply Sat.get_bind
  apply Sat.get_bind
  apply Sat.modify_bind
  rw [hx]
  apply Sat.protect
  apply Sat.onPart
  apply Sat.onPart
  refine (sat_fatAllocateClusters hlo.1 hC (by omega)).mono ?_ ?_
  · intro _ vol' hw
    refine ⟨hbooks.setVol vol', hmap, rfl, fun j => ?_, hw.io⟩
    rw [hw.entry, chainEntry_range']
    rfl
  · intro stop vol' hf
    obtain ⟨hstop, hfault⟩ := hf.2 hone
    rw [hstop, if_pos (Stop.isRaised_raised _)]
    have hback := (hbooks.setVol vol').putBack hC (hrun.trans Finset.inter_subset_right)
      (by rw [hcs]; exact Finset.sdiff_disjoint)
    rw [hcs, Finset.sdiff_union_of_subset (hrun.trans Finset.inter_subset_left)] at hback
    refine Sat.modify ⟨rfl, hf.1, hback, ?_, fun j => ?_⟩
    · change fatRemoveMcbEntry g (fatAddMcbEntry g c.mcb 0 _ c.byteCount) 0 c.byteCount = []
      rw [hmap, hbytes]
      exact fatRemoveMcbEntry_request hr
    · change lookupEntry g.width (putBack _ _ _ _).vol.fat j = _
      rw [vol_putBack]
      exact hfault.entry j

/-! ## The slow path -/

namespace RunLoop

variable {e : ℕ → ℕ} {C : ℕ} {s : RunLoop} {exactMatchRequired : Bool} {fuel : ℕ}

/-- The loop stops in a pass whose run would have completed the request. -/
def StopsCompleting (g : Geometry) (exactMatchRequired : Bool) (fuel : ℕ) (s : RunLoop) : Prop :=
  ¬ (exactMatchRequired = true ∧ g.numberOfWindows = 1) ∧
    ∃ t, failingPass g exactMatchRequired fuel s = some t ∧ CompletesIn g exactMatchRequired t

/-- After a failure `k` clusters are missing from the total; when none is, everything is
as it was. -/
def Failed (g : Geometry) (e : ℕ → ℕ) (F : Finset ℕ) (clean : Prop) (s : RunLoop) : Prop :=
  ∃ k, s.vcb.numberOfFreeClusters + k = F.card ∧ (k = 0 ↔ clean) ∧
    (k = 0 → Books g s.vcb F 0 ∧ (∀ j, lookupEntry g.width s.vcb.vol.fat j = e j) ∧ s.mcb = [])

theorem failed_of_books {k : ℕ} {clean : Prop} (h : Books g s.vcb F k) (hk : k = 0 ↔ clean)
    (hentry : ∀ j, lookupEntry g.width s.vcb.vol.fat j = e j) (hmcb : s.mcb = []) :
    Failed g e F clean s :=
  ⟨k, h.total, hk, fun h0 => ⟨h0 ▸ h, hentry, hmcb⟩⟩

/-- Unwinding a request that is refused or raised with `k` clusters unaccounted for. -/
theorem Tidy.sat_unwind {ds : List ℕ} {k : ℕ} {clean : Prop} (hg : g.Sound)
    (hF : ∀ c, c ∈ F ↔ c ∈ g.clusters ∧ e c = 0) (h : Tidy g e F ds k (unwindRun g s))
    (hk : k = 0 ↔ clean) (hio : s.vcb.vol.io = none ∨ k ≠ 0) :
    Sat (unwind g) s (fun _ s' => Failed g e F clean s') (fun _ s' => Failed g e F clean s') := by
  refine (RunLoop.sat_unwind hg hF h).mono ?_ ?_
  · rintro _ s' ⟨hbooks, hentry, hmcb⟩
    exact failed_of_books hbooks hk hentry hmcb
  · rintro _ s' ⟨hne, htotal⟩
    have hk0 := hio.resolve_left hne
    exact ⟨k + ds.length, by omega, by rw [← hk]; omega, fun h0 => absurd h0 (by omega)⟩

/-- **The slow path** completes the request, or fails with the books of `Failed`. -/
theorem Taken.sat_run (h : Taken g e F C [] s) (exactMatchRequired : Bool) (fuel : ℕ) (hg : g.Sound)
    (hF : ∀ c, c ∈ F ↔ c ∈ g.clusters ∧ e c = 0) (hC : C * g.clusterSize ≤ 2 ^ 32) (hpos : 0 < C)
    (hlocked : s.lockedBitMap = true) :
    Sat (run g exactMatchRequired fuel) s
      (fun b s' => if b then
          s'.clustersRemaining = 0 ∧ ∃ ds, Taken g e F C ds s' ∧
            (Mapped g C [] s → s'.mcb = mcbOf g ds) ∧
            (s.vcb.vol.io = none → s'.vcb.vol.io = none)
        else exactMatchRequired = true ∧
          Failed g e F (StopsCompleting g exactMatchRequired fuel s) s')
      (fun stop s' => stop.isRaised = true →
        Failed g e F (StopsCompleting g exactMatchRequired fuel s) s') := by
  have hrem : s.clustersRemaining ≠ 0 := by
    have := h.remaining
    rw [List.length_nil] at this
    omega
  have hlinks : 1 < g.numberOfWindows → g.numberOfClusters + 1 < 2 ^ g.width.linkBits :=
    fun _ => hg.links
  have hstops : ∀ t, failingPass g exactMatchRequired fuel s = some t →
      ¬ (exactMatchRequired = true ∧ g.numberOfWindows = 1) →
      (StopsCompleting g exactMatchRequired fuel s ↔ CompletesIn g exactMatchRequired t) := by
    intro t ht hnot
    rw [StopsCompleting, and_iff_right hnot, ht]
    simp
  rw [run]
  apply Sat.bind (R := fun b s' => if b then
      s'.clustersRemaining = 0 ∧ ∃ ds, Taken g e F C ds s' ∧
        (Mapped g C [] s → s'.mcb = mcbOf g ds) ∧ (s.vcb.vol.io = none → s'.vcb.vol.io = none)
    else exactMatchRequired = true ∧ ∃ ds k, Tidy g e F ds k (unwindRun g s') ∧ k ≠ 0 ∧
      ¬ StopsCompleting g exactMatchRequired fuel s)
  · apply Sat.protect
    by_cases hrefuse : exactMatchRequired = true ∧ g.numberOfWindows = 1
    · rw [if_pos hrefuse]
      exact Sat.pure ⟨hrefuse.1, [], _, h.tidy hC hrem hlocked, hrem, fun hs => hs.1 hrefuse⟩
    · rw [if_neg hrefuse]
      refine (h.sat_loop _ _ hF hC hlinks).mono ?_ ?_
      · intro b s' hb
        cases b with
        | true =>
            obtain ⟨hrem', ds, htaken, -, hrest⟩ := hb
            exact ⟨hrem', ds, htaken, hrest⟩
        | false =>
            obtain ⟨hex, ds, t, hfail, hne, href, hnot⟩ := hb
            have hrem' : s'.clustersRemaining ≠ 0 := by
              rw [href.remaining]
              exact hne
            refine ⟨hex, ds, _, href.taken.tidy hC hrem' href.locked, hrem', ?_⟩
            rw [hstops t hfail hrefuse]
            exact hnot
      · intro stop s' hstop
        split
        · next hraised =>
            obtain ⟨-, ds, t, k, hfail, hraises, hiff, -⟩ := hstop hraised
            rw [← hstops t hfail hrefuse] at hiff
            exact (hraises.tidy.sat_unwind hg hF hiff (Or.inl hraises.io')).mono
              (fun _ _ hf _ => hf) (fun _ _ hf _ => hf)
        · next hnot => exact fun hr => absurd hr hnot
  · intro b s' hb
    cases b with
    | true => exact Sat.pure hb
    | false =>
        obtain ⟨hex, ds, k, htidy, hk, hnot⟩ := hb
        refine Sat.bind ((htidy.sat_unwind hg hF (iff_of_false hk hnot) (Or.inr hk)).mono
          (fun _ _ hf => hf) (fun _ _ hf _ => hf)) ?_
        intro _ s'' hf
        exact Sat.pure ⟨hex, hf⟩

end RunLoop

/-! ## The whole routine -/

/-- The request is complete: the clusters `cs` were free and are chained together, and
the books are those of the clusters left. -/
structure Completed (g : Geometry) (r : Request) (F : Finset ℕ) (c c' : AllocCall) (cs : List ℕ) :
    Prop where
  nodup : cs.Nodup
  free : ∀ x ∈ cs, x ∈ F
  length : cs.length = r.clusterCount g
  books : Books g c'.vcb (F \ cs.toFinset) 0
  entry : ∀ j, lookupEntry g.width c'.vcb.vol.fat j =
    chainEntry g.width (lookupEntry g.width c.vcb.vol.fat) cs j
  byteCount : c'.byteCount = (requestSize g r.byteCount).1
  io : c.vcb.vol.io = none → c'.vcb.vol.io = none

/-- The loop begins with nothing taken. -/
theorem RunLoop.taken_start (hint : ℕ) (h : Books g c.vcb F (r.clusterCount g))
    (hmcb : c.mcb = []) :
    Taken g (lookupEntry g.width c.vcb.vol.fat) F (r.clusterCount g) [] (start g r hint c) := by
  refine ⟨List.nodup_nil, by simp, rfl, ?_, fun j => rfl, rfl, ?_, fun _ => hmcb⟩
  · rw [List.toFinset_nil, Finset.sdiff_empty]
    exact h
  · rw [List.length_nil, Nat.zero_mul]
    rfl

/-- A slow path that completes is a loop that completes. -/
theorem RunLoop.loop_of_run {exactMatchRequired : Bool} {fuel : ℕ} {s s' : RunLoop}
    (h : run g exactMatchRequired fuel s = .ok true s') :
    loop g exactMatchRequired fuel s = .ok true s' := by
  obtain ⟨b, t, hbody, hrest⟩ := bind_eq_ok h
  have hbody := protect_eq_ok hbody
  cases b with
  | false =>
      obtain ⟨_, _, -, hret⟩ := bind_eq_ok hrest
      simp [pure, EStateM.pure] at hret
  | true =>
      by_cases hrefuse : exactMatchRequired = true ∧ g.numberOfWindows = 1
      · rw [if_pos hrefuse] at hbody
        simp [pure, EStateM.pure] at hbody
      · rw [if_neg hrefuse] at hbody
        rw [hbody]
        exact hrest

/-- A loop that completes is a slow path that completes, unless the request is refused
beforehand. -/
theorem RunLoop.run_of_loop {exactMatchRequired : Bool} {fuel : ℕ} {s s' : RunLoop}
    (hnot : ¬ (exactMatchRequired = true ∧ g.numberOfWindows = 1))
    (h : loop g exactMatchRequired fuel s = .ok true s') :
    run g exactMatchRequired fuel s = .ok true s' := by
  have hbody : (if exactMatchRequired = true ∧ g.numberOfWindows = 1 then pure false
      else loop g exactMatchRequired fuel : EStateM Stop RunLoop Bool) s = .ok true s' := by
    rw [if_neg hnot, h]
  change EStateM.bind (protect Stop.isRaised (unwind g) _) _ s = _
  rw [EStateM.bind, protect, hbody]
  rfl

/-- The books after the admission of a request. -/
theorem Books.admitted {k : ℕ} (h : Books g c.vcb F k)
    (hadmitted : ¬ c.vcb.numberOfFreeClusters < r.clusterCount g) :
    Books g (c.admitted g r).vcb F (r.clusterCount g + k) := by
  have htotal := h.total
  refine ⟨h.subset, h.current, h.first, h.last, h.size, h.bit, h.free, ?_, h.hint⟩
  change c.vcb.numberOfFreeClusters - r.clusterCount g + (r.clusterCount g + k) = F.card
  omega

/-- The path of an admitted request whose hint was chosen. -/
inductive Path (g : Geometry) (r : Request) (fuel : ℕ) (c c1 : AllocCall) (hints : ℕ × ℕ) : Prop
  | fast (start : ℕ) (two_le : 2 ≤ start)
      (clear : c1.vcb.freeClusterBitMap.ClearAt (start - 2) (r.clusterCount g))
      (fastPath : FastPath g r c.vcb (zeroSet g c.vcb.vol.fat))
      (eq : fatAllocateDiskSpace g r fuel c = allocateFast g start (r.clusterCount g) c1)
  | slow (slowPath : ¬ FastPath g r c.vcb (zeroSet g c.vcb.vol.fat))
      (eq : fatAllocateDiskSpace g r fuel c = allocateSlow g r hints.2 fuel c1)

section Whole

variable {fuel : ℕ} {c' : AllocCall} (hr : r.byteCount ≠ 0)
  (h : Books g c.vcb (zeroSet g c.vcb.vol.fat) 0)

include hr h

/-- **The ways through the routine.**  An admitted request raises when it switches to the
window of its hint, or goes on to one of the two paths. -/
theorem fatAllocateDiskSpace_cases
    (hadmitted : ¬ c.vcb.numberOfFreeClusters < r.clusterCount g) :
    (∃ stop v, chooseHint g r (c.admitted g r).vcb = .error stop v ∧
      fatAllocateDiskSpace g r fuel c = .error stop { c.admitted g r with vcb := v }) ∨
    ∃ hints v, chooseHint g r (c.admitted g r).vcb = .ok hints v ∧
      Books g v (zeroSet g c.vcb.vol.fat) (r.clusterCount g) ∧ HintChosen g r c.vcb hints v ∧
      Path g r fuel c { c.admitted g r with vcb := v } hints := by
  have heq := fatAllocateDiskSpace_eq (g := g) (c := c) fuel hr
  rw [if_neg hadmitted] at heq
  have hsat := sat_chooseHint hr (h.admitted hadmitted) rfl
  cases hch : chooseHint g r (c.admitted g r).vcb with
  | error stop v =>
      rw [hch] at heq
      exact Or.inl ⟨stop, v, rfl, heq⟩
  | ok hints v =>
      obtain ⟨hbooks, hchosen⟩ := hsat.ok hch
      rw [hch] at heq
      have hchosen : HintChosen g r c.vcb hints v := ⟨hchosen.hint, hchosen.window, hchosen.cluster,
        hchosen.two_le, hchosen.lt, hchosen.windows, hchosen.fat, hchosen.io⟩
      refine Or.inr ⟨hints, v, rfl, hbooks, hchosen, ?_⟩
      have hfast := fastPath_iff hr hbooks hchosen
      change _ = allocateAt g r fuel hints { c.admitted g r with vcb := v } at heq
      rw [allocateAt, get_bind_run] at heq
      dsimp only at heq
      by_cases hpath : FastPath g r c.vcb (zeroSet g c.vcb.vol.fat)
      · obtain ⟨start, hstart, hor⟩ := hfast.mp hpath
        obtain ⟨h2, hclear⟩ := clearAt_of_fatFindFreeClusterRun hchosen.two_le hchosen.lt hstart
        refine .fast start h2 hclear hpath ?_
        rw [heq, hstart]
        simp only [if_pos hor]
      · refine .slow hpath ?_
        rw [heq]
        cases hstart : fatFindFreeClusterRun v (r.clusterCount g) hints.2 with
        | none => rfl
        | some start =>
            have hnot : ¬ (hints.1 = 0 ∨ start = hints.2) := fun hor =>
              hpath (hfast.mpr ⟨start, hstart, hor⟩)
            simp only [if_neg hnot]

omit h in
/-- A request that is not admitted does not return. -/
theorem admitted_of_ok (hok : fatAllocateDiskSpace g r fuel c = .ok () c') :
    ¬ c.vcb.numberOfFreeClusters < r.clusterCount g := by
  intro hlt
  rw [fatAllocateDiskSpace_eq _ hr, if_pos hlt] at hok
  simp at hok

/-- On the slow path a request that completes does so in the run loop. -/
theorem loop_of_ok (hslow : ¬ FastPath g r c.vcb (zeroSet g c.vcb.vol.fat))
    (hok : fatAllocateDiskSpace g r fuel c = .ok () c') (hne : c'.byteCount ≠ 0) :
    ∃ hints v s, Books g v (zeroSet g c.vcb.vol.fat) (r.clusterCount g) ∧
      HintChosen g r c.vcb hints v ∧
      RunLoop.loop g r.exactMatchRequired fuel
        (RunLoop.start g r hints.2 { c.admitted g r with vcb := v }) = .ok true s ∧
      c' = { c.admitted g r with vcb := s.vcb, mcb := s.mcb } := by
  rcases fatAllocateDiskSpace_cases hr h (admitted_of_ok hr hok) with
    ⟨stop, v, -, herr⟩ | ⟨hints, v, -, hbooks, hchosen, hpath⟩
  · rw [herr] at hok
    simp at hok
  cases hpath with
  | fast _ _ _ hfast => exact absurd hfast hslow
  | slow _ heq =>
      rw [heq, allocateSlow] at hok
      cases hrun : RunLoop.run g r.exactMatchRequired fuel
          (RunLoop.start g r hints.2 { c.admitted g r with vcb := v }) with
      | error stop s =>
          rw [hrun] at hok
          simp at hok
      | ok b s =>
          rw [hrun] at hok
          cases b with
          | false =>
              simp only [EStateM.Result.ok.injEq, true_and] at hok
              rw [← hok] at hne
              exact absurd rfl hne
          | true =>
              simp only [EStateM.Result.ok.injEq, true_and] at hok
              exact ⟨hints, v, s, hbooks, hchosen, RunLoop.loop_of_run hrun, hok.symm⟩

/-- A request that completes on the fast path is in one piece. -/
theorem completed_of_fast (hmcb : c.mcb = [])
    (hfast : FastPath g r c.vcb (zeroSet g c.vcb.vol.fat))
    (hok : fatAllocateDiskSpace g r fuel c = .ok () c') :
    ∃ x, Completed g r (zeroSet g c.vcb.vol.fat) c c' (List.range' x (r.clusterCount g)) ∧
      c'.mcb = mcbOf g (List.range' x (r.clusterCount g)) := by
  rcases fatAllocateDiskSpace_cases hr h (admitted_of_ok hr hok) with
    ⟨stop, v, -, herr⟩ | ⟨hints, v, -, hbooks, hchosen, hpath⟩
  · rw [herr] at hok
    simp at hok
  cases hpath with
  | slow hslow _ => exact absurd hfast hslow
  | fast start h2 hclear _ heq =>
      rw [heq] at hok
      have hsat := sat_allocateFast (c := { c.admitted g r with vcb := v }) (k := 0) hr hbooks h2 hclear hmcb rfl
      obtain ⟨hbooks', hmcb', hbytes, hentry, hio⟩ := hsat.ok hok
      refine ⟨_, ⟨List.nodup_range', fun x hx => ?_, List.length_range', hbooks', fun j => ?_, hbytes,
        fun hnone => hio (hchosen.io hnone)⟩, hmcb'⟩
      · have hrun := hbooks.run_subset hclear
        exact (Finset.mem_inter.mp (hrun (Finset.mem_Ico.mpr (List.mem_range'_1.mp hx)))).1
      · rw [hentry, ← hchosen.fat]

omit hr h in
/-- The clusters that a completed run loop has taken. -/
theorem completed_of_taken {hints : ℕ × ℕ} {v : Vcb} {s : RunLoop} {cs : List ℕ}
    (hchosen : HintChosen g r c.vcb hints v)
    (htaken : RunLoop.Taken g (lookupEntry g.width v.vol.fat) (zeroSet g c.vcb.vol.fat)
      (r.clusterCount g) cs s) (hrem : s.clustersRemaining = 0)
    (hio : v.vol.io = none → s.vcb.vol.io = none) :
    Completed g r (zeroSet g c.vcb.vol.fat) c { c.admitted g r with vcb := s.vcb, mcb := s.mcb } cs := by
  have hsum := htaken.remaining
  have hb := htaken.books
  rw [hrem] at hsum hb
  refine ⟨htaken.nodup, htaken.free, by omega, hb, fun j => ?_, rfl, fun hnone => hio (hchosen.io hnone)⟩
  rw [← hchosen.fat]
  exact htaken.entry j

/-- **A request that completes.**  On volumes with several windows cluster numbers have
to fit the entries, because the FAT is read again. -/
theorem completed_of_ok (hmcb : c.mcb = [])
    (hlinks : 1 < g.numberOfWindows → g.numberOfClusters + 1 < 2 ^ g.width.linkBits)
    (hok : fatAllocateDiskSpace g r fuel c = .ok () c') (hne : c'.byteCount ≠ 0) :
    ∃ cs, Completed g r (zeroSet g c.vcb.vol.fat) c c' cs := by
  by_cases hfast : FastPath g r c.vcb (zeroSet g c.vcb.vol.fat)
  · obtain ⟨x, hcompleted, -⟩ := completed_of_fast hr h hmcb hfast hok
    exact ⟨_, hcompleted⟩
  · obtain ⟨hints, v, s, hbooks, hchosen, hloop, rfl⟩ := loop_of_ok hr h hfast hok hne
    have hstart := RunLoop.taken_start (c := { c.admitted g r with vcb := v })
      hints.2 hbooks hmcb
    have hsat := hstart.sat_loop r.exactMatchRequired
      fuel (fun x => by rw [hchosen.fat, mem_zeroSet, Geometry.mem_clusters])
      (r.clusterCount_mul_le hr) hlinks
    obtain ⟨hrem, cs, htaken, -, -, hio⟩ := hsat.ok hloop
    exact ⟨cs, completed_of_taken hchosen htaken hrem hio⟩

/-- Without faults a loop that completes completes the request. -/
theorem ok_of_loop (hslow : ¬ FastPath g r c.vcb (zeroSet g c.vcb.vol.fat))
    (hnone : c.vcb.vol.io = none) (hadmitted : ¬ c.vcb.numberOfFreeClusters < r.clusterCount g) :
    ∃ hints v, Books g v (zeroSet g c.vcb.vol.fat) (r.clusterCount g) ∧
      HintChosen g r c.vcb hints v ∧
      ∀ fuel s, ¬ (r.exactMatchRequired = true ∧ g.numberOfWindows = 1) →
        RunLoop.loop g r.exactMatchRequired fuel
          (RunLoop.start g r hints.2 { c.admitted g r with vcb := v }) = .ok true s →
        fatAllocateDiskSpace g r fuel c = .ok () { c.admitted g r with vcb := s.vcb, mcb := s.mcb } := by
  have hsat := sat_chooseHint hr (h.admitted hadmitted) rfl
  obtain ⟨hints, v, hch, hbooks, hchosen⟩ := hsat.exists_ok fun _ _ hE => hE.2.1 hnone
  refine ⟨hints, v, hbooks, ⟨hchosen.hint, hchosen.window, hchosen.cluster, hchosen.two_le,
    hchosen.lt, hchosen.windows, hchosen.fat, hchosen.io⟩, fun fuel s hnot hloop => ?_⟩
  rcases fatAllocateDiskSpace_cases hr h hadmitted with
    ⟨stop, v', hch', -⟩ | ⟨hints', v', hch', -, -, hpath⟩
  · rw [hch] at hch'
    simp at hch'
  · rw [hch] at hch'
    obtain ⟨rfl, rfl⟩ := hch'
    cases hpath with
    | fast _ _ _ hfast => exact absurd hfast hslow
    | slow _ heq => rw [heq, allocateSlow, RunLoop.run_of_loop hnot hloop]

/-- A request that is admitted and on the fast path completes when nothing faults. -/
theorem exists_ok_of_fastPath (fuel : ℕ) (hmcb : c.mcb = []) (hnone : c.vcb.vol.io = none)
    (hadmitted : r.clusterCount g ≤ c.vcb.numberOfFreeClusters)
    (hfast : FastPath g r c.vcb (zeroSet g c.vcb.vol.fat)) :
    ∃ c', fatAllocateDiskSpace g r fuel c = .ok () c' ∧ c'.byteCount ≠ 0 := by
  have hadmitted' : ¬ c.vcb.numberOfFreeClusters < r.clusterCount g := by omega
  have hsat := sat_chooseHint hr (h.admitted hadmitted') rfl
  rcases fatAllocateDiskSpace_cases hr h hadmitted' with
    ⟨stop, v, hch, -⟩ | ⟨hints, v, -, hbooks, hchosen, hpath⟩
  · exact absurd hnone (hsat.error hch).2.1
  cases hpath with
  | slow hslow heq => exact absurd hfast hslow
  | fast start h2 hclear _ heq =>
      have hsat := sat_allocateFast (c := { c.admitted g r with vcb := v }) (k := 0) hr hbooks h2 hclear hmcb rfl
      obtain ⟨_, c', hok, _, _, hbytes, _⟩ := hsat.exists_ok fun _ _ hE => hE.2.1 (hchosen.io hnone)
      refine ⟨c', heq.trans hok, ?_⟩
      rw [hbytes]
      exact requestSize_fst_ne_zero hr

end Whole

end KernelDrivers.Fat
