import KernelDrivers.Fat.Books

/-!
# Deallocating disk space

`FatDeallocateDiskSpace` frees the runs of a map in the FAT and then gives them back
to the bitmap and the counters, which cannot fail.  The runs come out of the map as
byte offsets and 32-bit byte counts and are turned back into clusters.

## Main definitions

* `mcbRuns` — the runs of a map in clusters, as the routine computes them.
* `freeRuns` — the pass over the FAT; `releaseRun` — a run of the pass over the books.
* `fatDeallocateDiskSpace` — the routine.
-/

namespace KernelDrivers.Fat

/-- `FatFreeClusters`. -/
def fatFreeClusters (g : Geometry) (index count : ℕ) : EStateM Stop Volume Unit :=
  if count = 1 then fatSetFatEntry g index fatClusterAvailable
  else fatSetFatRun g index count false

/-- `FatAllocateClusters`. -/
def fatAllocateClusters (g : Geometry) (index count : ℕ) : EStateM Stop Volume Unit :=
  if count = 1 then fatSetFatEntry g index fatClusterLast
  else fatSetFatRun g index count true

/-- The first cluster and the cluster count of run number `k` of a map. -/
def mcbRun (g : Geometry) (mcb : Mcb) (k : ℕ) : ℕ × ℕ :=
  match fatGetNextMcbEntry g mcb k with
  | some (_, lbo, byteCount) => (fatGetIndexFromLbo g lbo, byteCount / g.clusterSize)
  | none => (0, 0)

/-- The runs of a map, in clusters. -/
def mcbRuns (g : Geometry) (mcb : Mcb) : List (ℕ × ℕ) := (List.range mcb.length).map (mcbRun g mcb)

/-- The unwind of `FatDeallocateDiskSpace`: allocate and link again all runs but the
last, which is the one that could not be freed. -/
def relinkRuns (g : Geometry) (priorLastIndex : ℕ) :
    List (ℕ × ℕ) → EStateM Stop Volume Unit
  | [] => pure ()
  | [run] => if priorLastIndex ≠ 0 then fatSetFatEntry g priorLastIndex run.1 else pure ()
  | run :: run' :: runs => do
      if priorLastIndex ≠ 0 then fatSetFatEntry g priorLastIndex run.1
      fatAllocateClusters g run.1 run.2
      relinkRuns g (run.1 + run.2 - 1) (run' :: runs)

/-- Free run after run in the FAT. -/
def freeRuns (g : Geometry) (freed : List (ℕ × ℕ)) : List (ℕ × ℕ) → EStateM Stop Volume Unit
  | [] => pure ()
  | run :: runs => do
      protect Stop.isRaised (relinkRuns g 0 (freed ++ [run])) (fatFreeClusters g run.1 run.2)
      freeRuns g (freed ++ [run]) runs

/-- The part of a run that lies in window `w`: `MyStart` and `MyLength`. -/
def overlap (w : FatWindow) (clusterIndex clusterCount : ℕ) : Option (ℕ × ℕ) :=
  let clusterEnd := clusterIndex + clusterCount - 1
  if w.lastCluster < clusterIndex ∨ clusterEnd < w.firstCluster then none
  else if clusterIndex < w.firstCluster ∧ w.lastCluster < clusterEnd then
    some (w.firstCluster, w.lastCluster - w.firstCluster + 1)
  else if clusterIndex < w.firstCluster then
    some (w.firstCluster, clusterEnd - w.firstCluster + 1)
  else
    some (clusterIndex,
      if clusterEnd ≤ w.lastCluster then clusterCount else w.lastCluster - clusterIndex + 1)

/-- Add `length` clusters from `start` on to the counts of window `i` and those behind
it.  A pass takes at least one cluster, so `length` bounds the number of passes. -/
def addFree : ℕ → Vcb → ℕ → ℕ → ℕ → Vcb
  | 0, v, _, _, _ => v
  | fuel + 1, v, i, start, length =>
      if length = 0 then v
      else
        let count := min ((v.windows i).lastCluster - start + 1) length
        let v := v.setFree i (ulong ((v.windows i).clustersFree + count))
        if length ≠ count then
          addFree fuel v (i + 1) (v.windows (i + 1)).firstCluster (length - count)
        else v

/-- Give one run back to the bitmap and the counters. -/
def releaseRun (g : Geometry) (v : Vcb) (run : ℕ × ℕ) : Vcb :=
  let count (v : Vcb) : Vcb :=
    let v := addFree run.2 v (if g.width = .fat32 then fatWindowOfCluster run.1 else 0) run.1 run.2
    { v with numberOfFreeClusters := ulong (v.numberOfFreeClusters + run.2) }
  match overlap v.window run.1 run.2 with
  | none => count v
  | some (myStart, myLength) =>
      -- the source continues with the next run, counters included
      if myLength = 0 then v
      else count (fatUnreserveClusters v (myStart - v.window.firstCluster + 2) myLength)

/-- `FatDeallocateDiskSpace`. -/
def fatDeallocateDiskSpace (g : Geometry) (mcb : Mcb) : EStateM Stop Vcb Unit := do
  if mcb.length = 0 then return
  Vcb.onVol (freeRuns g [] (mcbRuns g mcb))
  modify fun v => (mcbRuns g mcb).foldl (releaseRun g) v

/-! ## The pass over the FAT -/

variable {g : Geometry} {vol : Volume} {v : Vcb} {F : Finset ℕ} {r : ℕ}

/-- One entry or a run: the two forms in which the allocation code writes a run. -/
theorem sat_fatSetClusters {index count : ℕ} (chainTogether : Bool) (h2 : 2 ≤ index)
    (hc : 0 < count) (hend : index + count ≤ g.numberOfClusters + 2) :
    Sat (if count = 1 then
        fatSetFatEntry g index (if chainTogether then fatClusterLast else fatClusterAvailable)
      else fatSetFatRun g index count chainTogether) vol
      (fun _ vol' => vol.Wrote vol' g.width
        (entryAfterRun g.width vol.fat index count chainTogether))
      (fun s vol' => vol.io ≠ none ∧ ((g.width = .fat32 → count ≤ maxCountClus) →
        s = .raised .deviceError ∧ vol.Faulted vol' g.width)) := by
  split
  · next hone =>
      refine (sat_fatSetFatEntry _ h2 (by omega)).mono ?_ fun _ _ h => ⟨h.2.io, fun _ => h⟩
      intro _ vol' h
      refine ⟨fun j => ?_, h.io⟩
      have hiff : index ≤ j ∧ j < index + count ↔ j = index := by omega
      simp only [h.entry, entryAfterRun, hiff]
      by_cases hj : j = index
      · rw [if_pos hj, if_pos hj, hj, hone]
        cases chainTogether <;> simp [fatClusterAvailable]
      · rw [if_neg hj, if_neg hj]
  · exact sat_fatSetFatRun h2 hc hend

theorem sat_fatFreeClusters {index count : ℕ} (h2 : 2 ≤ index) (hc : 0 < count)
    (hend : index + count ≤ g.numberOfClusters + 2) :
    Sat (fatFreeClusters g index count) vol
      (fun _ vol' => vol.Wrote vol' g.width (entryAfterRun g.width vol.fat index count false))
      (fun s vol' => vol.io ≠ none ∧ ((g.width = .fat32 → count ≤ maxCountClus) →
        s = .raised .deviceError ∧ vol.Faulted vol' g.width)) :=
  sat_fatSetClusters false h2 hc hend

theorem sat_fatAllocateClusters {index count : ℕ} (h2 : 2 ≤ index) (hc : 0 < count)
    (hend : index + count ≤ g.numberOfClusters + 2) :
    Sat (fatAllocateClusters g index count) vol
      (fun _ vol' => vol.Wrote vol' g.width (entryAfterRun g.width vol.fat index count true))
      (fun s vol' => vol.io ≠ none ∧ ((g.width = .fat32 → count ≤ maxCountClus) →
        s = .raised .deviceError ∧ vol.Faulted vol' g.width)) :=
  sat_fatSetClusters true h2 hc hend

/-- The run lies among the clusters of the volume. -/
structure ValidRun (g : Geometry) (run : ℕ × ℕ) : Prop where
  two_le : 2 ≤ run.1
  pos : 0 < run.2
  le : run.1 + run.2 ≤ g.numberOfClusters + 2

/-- The clusters of some runs, in order. -/
def runClusters (runs : List (ℕ × ℕ)) : List ℕ := runs.flatMap fun run => List.range' run.1 run.2

@[simp] theorem runClusters_nil : runClusters [] = [] := rfl

@[simp] theorem runClusters_cons (run : ℕ × ℕ) (runs : List (ℕ × ℕ)) :
    runClusters (run :: runs) = List.range' run.1 run.2 ++ runClusters runs := rfl

/-- **The pass over the FAT** makes every entry of the runs zero. -/
theorem sat_freeRuns {freed runs : List (ℕ × ℕ)} (hruns : ∀ run ∈ runs, ValidRun g run) :
    Sat (freeRuns g freed runs) vol
      (fun _ vol' => vol.Wrote vol' g.width fun j =>
        if j ∈ runClusters runs then 0 else lookupEntry g.width vol.fat j)
      (fun _ _ => vol.io ≠ none) := by
  induction runs generalizing freed vol with
  | nil => exact Sat.pure ⟨fun j => by simp, fun h => h⟩
  | cons run runs ih =>
      have hrun := hruns run (by simp)
      rw [freeRuns]
      apply Sat.bind (Sat.protect_const
        ((sat_fatFreeClusters hrun.two_le hrun.pos hrun.le).mono (fun _ _ h => h) fun _ _ h => h.1))
      intro _ t ht
      refine (ih fun x hx => hruns x (by simp [hx])).mono ?_ fun _ _ h hnone => h (ht.io hnone)
      intro _ t' ht'
      refine ⟨fun j => ?_, fun hnone => ht'.io (ht.io hnone)⟩
      simp only [ht'.entry, ht.entry, entryAfterRun, runClusters_cons, List.mem_append,
        List.mem_range'_1]
      by_cases hj : j ∈ runClusters runs
      · simp [hj]
      · by_cases hin : run.1 ≤ j ∧ j < run.1 + run.2
        · simp [hj, hin, fatClusterAvailable]
        · simp [hj, hin]

/-! ## The pass over the books -/

/-- What `overlap` finds is the part of the run in the window. -/
theorem overlap_spec {w : FatWindow} {first last c n : ℕ} (hfirst : w.firstCluster = first)
    (hlast : w.lastCluster + 1 = last) (hlt : first < last) (hn : 0 < n) :
    (overlap w c n = none ∧ Finset.Ico c (c + n) ∩ Finset.Ico first last = ∅) ∨
      ∃ start length, overlap w c n = some (start, length) ∧ 0 < length ∧ first ≤ start ∧
        start + length ≤ last ∧
        Finset.Ico c (c + n) ∩ Finset.Ico first last = Finset.Ico start (start + length) := by
  rw [Finset.Ico_inter_Ico]
  have hempty : c + n ≤ first ∨ last ≤ c →
      Finset.Ico (max c first) (min (c + n) last) = ∅ := fun h => Finset.Ico_eq_empty (by omega)
  by_cases hmiss : w.lastCluster < c ∨ c + n - 1 < w.firstCluster
  · left
    rw [overlap]
    simp only [if_pos hmiss, true_and]
    exact hempty (by omega)
  · right
    rw [overlap]
    simp only [if_neg hmiss]
    by_cases hover : c < w.firstCluster ∧ w.lastCluster < c + n - 1
    · refine ⟨w.firstCluster, w.lastCluster - w.firstCluster + 1, if_pos hover, by omega, by omega,
        by omega, ?_⟩
      congr 1 <;> omega
    · by_cases hbefore : c < w.firstCluster
      · refine ⟨w.firstCluster, c + n - 1 - w.firstCluster + 1,
          by rw [if_neg hover, if_pos hbefore], by omega, by omega, by omega, ?_⟩
        congr 1 <;> omega
      · by_cases hin : c + n - 1 ≤ w.lastCluster
        · refine ⟨c, n, by rw [if_neg hover, if_neg hbefore, if_pos hin], by omega, by omega,
            by omega, ?_⟩
          congr 1 <;> omega
        · refine ⟨c, w.lastCluster - c + 1, by rw [if_neg hover, if_neg hbefore, if_neg hin],
            by omega, by omega, by omega, ?_⟩
          congr 1 <;> omega

/-- Two ranges, one behind the other. -/
theorem card_Ico_add_inter (s : Finset ℕ) (start n m : ℕ) :
    (Finset.Ico start (start + (n + m)) ∩ s).card =
      (Finset.Ico start (start + n) ∩ s).card +
        (Finset.Ico (start + n) (start + n + m) ∩ s).card := by
  have hsplit := Finset.Ico_union_Ico_eq_Ico (Nat.le_add_right start n)
    (Nat.le_add_right (start + n) m)
  have hdisjoint := Finset.Ico_disjoint_Ico_consecutive start (start + n) (start + n + m)
  rw [← Nat.add_assoc, ← hsplit, Finset.union_inter_distrib_right, Finset.card_union_of_disjoint]
  exact hdisjoint.mono Finset.inter_subset_left Finset.inter_subset_left

/-- The window counts after `length` clusters from `start` on were added. -/
structure Vcb.CountsAdded (g : Geometry) (v v' : Vcb) (start length : ℕ) : Prop where
  rest : v' = { v with windows := v'.windows }
  first : ∀ k, (v'.windows k).firstCluster = (v.windows k).firstCluster
  last : ∀ k, (v'.windows k).lastCluster = (v.windows k).lastCluster
  free : ∀ k < g.numberOfWindows, (v'.windows k).clustersFree =
    ulong ((v.windows k).clustersFree +
      (Finset.Ico start (start + length) ∩ g.window k).card)

namespace Vcb.CountsAdded

variable {v1 v2 : Vcb} {start n m i : ℕ}

theorem zero (hlt : ∀ k < g.numberOfWindows, (v.windows k).clustersFree < 2 ^ 32) :
    v.CountsAdded g v start 0 := by
  refine ⟨rfl, fun _ => rfl, fun _ => rfl, fun k hk => ?_⟩
  rw [Nat.add_zero, Finset.Ico_self, Finset.empty_inter, Finset.card_empty, Nat.add_zero,
    ulong_of_lt (hlt k hk)]

theorem trans (h : v.CountsAdded g v1 start n) (h' : v1.CountsAdded g v2 (start + n) m) :
    v.CountsAdded g v2 start (n + m) := by
  refine ⟨?_, fun k => (h'.first k).trans (h.first k), fun k => (h'.last k).trans (h.last k),
    fun k hk => ?_⟩
  · rw [h'.rest, h.rest]
  · rw [h'.free k hk, h.free k hk, card_Ico_add_inter, ulong, ulong, ulong, Nat.mod_add_mod,
      Nat.add_assoc]

/-- Clusters that all lie in window `i` are added to its count. -/
theorem setFree
    (hlt : ∀ k < g.numberOfWindows, (v.windows k).clustersFree < 2 ^ 32)
    (hlo : g.firstOf i ≤ start) (hhi : start + n ≤ g.endOf i) :
    v.CountsAdded g (v.setFree i (ulong ((v.windows i).clustersFree + n))) start n := by
  refine ⟨rfl, fun k => by simp, fun k => by simp, fun k hk => ?_⟩
  rw [Geometry.card_Ico_inter_window]
  by_cases hki : k = i
  · rw [hki, Vcb.clustersFree_setFree_self]
    congr 2
    omega
  · have hout : start + n ≤ g.firstOf k ∨ g.endOf k ≤ start := by
      rcases Nat.lt_or_gt_of_ne hki with hlt | hgt
      · exact Or.inr ((Geometry.endOf_le_firstOf hlt).trans hlo)
      · exact Or.inl (hhi.trans (Geometry.endOf_le_firstOf hgt))
    rw [Vcb.windows_setFree_of_ne _ _ hki,
      show min (start + n) (g.endOf k) - max start (g.firstOf k) = 0 by omega, Nat.add_zero,
      ulong_of_lt (hlt k hk)]

end Vcb.CountsAdded

theorem ulong_lt (n : ℕ) : ulong n < 2 ^ 32 := Nat.mod_lt _ (by norm_num)

theorem addFree_spec {fuel i : ℕ} (start length : ℕ) (hfuel : length ≤ fuel)
    (hfirst : ∀ k < g.numberOfWindows, (v.windows k).firstCluster = g.firstOf k)
    (hlast : ∀ k < g.numberOfWindows, (v.windows k).lastCluster + 1 = g.endOf k)
    (hlt : ∀ k < g.numberOfWindows, (v.windows k).clustersFree < 2 ^ 32)
    (hi : i < g.numberOfWindows) (hlo : g.firstOf i ≤ start) (hhi : start < g.endOf i)
    (hend : start + length ≤ g.numberOfClusters + 2) :
    v.CountsAdded g (addFree fuel v i start length) start length := by
  induction fuel generalizing v i start length with
  | zero =>
      rw [show length = 0 by omega]
      exact .zero hlt
  | succ fuel ih =>
      rw [addFree]
      by_cases hz : length = 0
      · rw [if_pos hz, hz]
        exact .zero hlt
      · have hlasti := hlast i hi
        have hcount : min ((v.windows i).lastCluster - start + 1) length =
            min (g.endOf i - start) length := by omega
        simp only [if_neg hz, hcount]
        generalize hn : min (g.endOf i - start) length = n at *
        have hstep := Vcb.CountsAdded.setFree (v := v) (n := n) hlt hlo
          (by omega)
        by_cases hlen : length = n
        · rw [if_neg (by simpa using hlen), hlen]
          exact hstep
        · have hnext : i + 1 < g.numberOfWindows := by
            by_contra hge
            have := g.endOf_last (i := i) (by omega)
            omega
          have hfirst' := Geometry.endOf_eq_firstOf_succ hnext
          have hnext_lt := Geometry.firstOf_lt_endOf hnext (by have := g.two_le_firstOf i; omega)
          have hih := ih (v := v.setFree i (ulong ((v.windows i).clustersFree + n))) (i := i + 1)
            (start + n) (length - n) (by omega)
            (fun k hk => by rw [Vcb.firstCluster_setFree]; exact hfirst k hk)
            (fun k hk => by rw [Vcb.lastCluster_setFree]; exact hlast k hk)
            (fun k hk => by rw [hstep.free k hk]; exact ulong_lt _) hnext (by omega) (by omega)
            (by omega)
          have hstart : (v.windows (i + 1)).firstCluster = start + n := by
            rw [hfirst _ hnext]
            omega
          rw [if_pos hlen, Vcb.firstCluster_setFree, hstart]
          have := hstep.trans hih
          rwa [Nat.add_sub_cancel' (by omega)] at this

/-- The window the source starts from is the window of the cluster. -/
theorem releaseWindow_eq {c : ℕ} (hc : c ∈ g.clusters) :
    (if g.width = .fat32 then fatWindowOfCluster c else 0) = g.windowOf c := by
  rw [Geometry.mem_clusters] at hc
  rw [Geometry.windowOf]
  by_cases hmany : 1 < g.numberOfWindows
  · rw [if_pos hmany, if_pos (Geometry.one_lt_numberOfWindows_iff.mp hmany).1]
  · rw [if_neg hmany]
    rw [Geometry.one_lt_numberOfWindows_iff] at hmany
    split
    · next hw =>
        have hN : g.numberOfClusters ≤ maxClusterBitmapSize := by
          by_contra hlt
          exact hmany ⟨hw, by omega⟩
        rw [fatWindowOfCluster]
        exact Nat.div_eq_of_lt (by omega)
    · rfl

/-- Giving a run back: first its bits (`v0`), then the counts (`v1`). -/
theorem Vcb.gives_of_countsAdded (v0 : Vcb) {v1 : Vcb} {c n : ℕ}
    (hcurrent : v0.currentWindow = v.currentWindow) (hwindows : v0.windows = v.windows)
    (htotal : v0.numberOfFreeClusters = v.numberOfFreeClusters)
    (hsize : v0.freeClusterBitMap.size = v.freeClusterBitMap.size)
    (hbit : ∀ j < v.freeClusterBitMap.size, (v0.freeClusterBitMap.bit j = false ↔
      v.freeClusterBitMap.bit j = false ∨
        g.firstOf v.currentWindow + j ∈ Finset.Ico c (c + n)))
    (hhint : ∀ h, v0.clusterHint = some h →
      v.clusterHint = some h ∨ 2 ≤ h ∧ h < v.freeClusterBitMap.size + 2)
    (hadded : v0.CountsAdded g v1 c n) :
    v.Gives g { v1 with numberOfFreeClusters := ulong (v1.numberOfFreeClusters + n) }
      (Finset.Ico c (c + n)) := by
  have hrest := hadded.rest
  have hmap : v1.freeClusterBitMap = v0.freeClusterBitMap := by rw [hrest]
  refine ⟨?_, fun i => ?_, fun i => ?_, ?_, fun j hj => ?_, fun i hi => ?_, ?_, fun h hh => ?_⟩
  · rw [hrest]
    exact hcurrent
  · rw [hadded.first, hwindows]
  · rw [hadded.last, hwindows]
  · dsimp only
    rw [hmap, hsize]
  · dsimp only
    rw [hmap, hbit j hj]
  · rw [hadded.free i hi, hwindows]
  · rw [Nat.card_Ico, Nat.add_sub_cancel_left, hrest, ← htotal]
  · refine hhint h ?_
    rw [← hh, hrest]

/-- **Giving back a run** of the map. -/
theorem Books.releaseRun {run : ℕ × ℕ} (h : Books g v F r) (hrun : ValidRun g run)
    (hdis : Disjoint F (Finset.Ico run.1 (run.1 + run.2))) :
    Books g (releaseRun g v run) (F ∪ Finset.Ico run.1 (run.1 + run.2)) r := by
  obtain ⟨c, n⟩ := run
  obtain ⟨h2, hn, hle⟩ := hrun
  dsimp only at *
  have hc : c ∈ g.clusters := Geometry.mem_clusters.mpr (by omega)
  obtain ⟨hwin, hmem⟩ := Geometry.mem_window_windowOf hc
  rw [Geometry.mem_window] at hmem
  have hsub : Finset.Ico c (c + n) ⊆ g.clusters := by
    intro x hx
    rw [Finset.mem_Ico] at hx
    exact Geometry.mem_clusters.mpr (by omega)
  have hadd : ∀ v0 : Vcb, v0.windows = v.windows → v0.CountsAdded g
      (addFree n v0 (if g.width = .fat32 then fatWindowOfCluster c else 0) c n) c n := by
    intro v0 hv0
    rw [releaseWindow_eq hc]
    apply addFree_spec _ _ le_rfl
    · rw [hv0]; exact h.first
    · rw [hv0]; exact h.last
    · rw [hv0]; exact fun k hk => h.free_lt hk
    · exact hwin
    · exact hmem.1
    · exact hmem.2
    · exact hle
  have hsize := h.size
  have hcur := Geometry.firstOf_lt_endOf h.current (by omega)
  refine h.gives hsub hdis ?_
  rcases overlap_spec (w := v.window) (c := c) (n := n) (h.first _ h.current)
    (h.last _ h.current) hcur hn with ⟨hnone, hempty⟩ | ⟨start, length, hsome, hlen, hlo, hhi, heq⟩
  · rw [Fat.releaseRun]
    simp only [hnone]
    refine Vcb.gives_of_countsAdded v rfl rfl rfl rfl (fun j hj => ?_) (fun _ hh => Or.inl hh)
      (hadd v rfl)
    rw [or_iff_left]
    intro hin
    have : g.firstOf v.currentWindow + j ∈ (∅ : Finset ℕ) := by
      rw [← hempty]
      exact Finset.mem_inter.mpr ⟨hin, Finset.mem_Ico.mpr (by omega)⟩
    simp at this
  · have hnz : length ≠ 0 := by omega
    have hfirst : v.window.firstCluster = g.firstOf v.currentWindow := h.first _ h.current
    rw [Fat.releaseRun]
    simp only [hsome, if_neg hnz, hfirst]
    refine Vcb.gives_of_countsAdded
      (fatUnreserveClusters v (start - g.firstOf v.currentWindow + 2) length) rfl rfl rfl rfl
      (fun j hj => ?_) (fun hint hh => ?_) (hadd _ rfl)
    · have hin : g.firstOf v.currentWindow + j ∈ Finset.Ico c (c + n) ↔
          g.firstOf v.currentWindow + j ∈ Finset.Ico start (start + length) := by
        rw [← heq, Finset.mem_inter, and_iff_left (Finset.mem_Ico.mpr (by omega))]
      rw [hin, Finset.mem_Ico]
      simp only [fatUnreserveClusters, Nat.add_sub_cancel, Bitmap.bit_clearBits]
      split
      · simp only [true_iff]
        right
        omega
      · rw [or_iff_left (by omega)]
    · refine (fatUnreserveClusters_hint hh).imp_right fun heq => ?_
      omega

/-- Giving back run after run. -/
theorem Books.releaseRuns {runs : List (ℕ × ℕ)} (h : Books g v F r)
    (hruns : ∀ run ∈ runs, ValidRun g run) (hnodup : (runClusters runs).Nodup)
    (hdis : Disjoint F (runClusters runs).toFinset) :
    Books g (runs.foldl (Fat.releaseRun g) v) (F ∪ (runClusters runs).toFinset) r := by
  induction runs generalizing v F with
  | nil => simpa using h
  | cons run runs ih =>
      rw [runClusters_cons, List.nodup_append'] at hnodup
      have hIco : (List.range' run.1 run.2).toFinset = Finset.Ico run.1 (run.1 + run.2) := by
        ext x
        simp
      rw [runClusters_cons, List.toFinset_append, hIco, Finset.disjoint_union_right] at hdis
      rw [List.foldl_cons, runClusters_cons, List.toFinset_append, hIco, ← Finset.union_assoc]
      apply ih (h.releaseRun (hruns run (by simp)) hdis.1) (fun x hx => hruns x (by simp [hx]))
        hnodup.2.1
      rw [Finset.disjoint_union_left, ← hIco, List.disjoint_toFinset_iff_disjoint]
      exact ⟨hdis.2, hnodup.2.2⟩

theorem Vcb.vol_addFree (fuel : ℕ) (v : Vcb) (i start length : ℕ) :
    (addFree fuel v i start length).vol = v.vol := by
  induction fuel generalizing v i start length with
  | zero => rfl
  | succ fuel ih =>
      simp only [addFree]
      split
      · rfl
      · split
        · rw [ih]
          rfl
        · rfl

/-- The pass over the books does not touch the FAT. -/
theorem vol_foldl_releaseRun (v : Vcb) (runs : List (ℕ × ℕ)) :
    (runs.foldl (releaseRun g) v).vol = v.vol := by
  induction runs generalizing v with
  | nil => rfl
  | cons run runs ih =>
      rw [List.foldl_cons, ih]
      simp only [releaseRun]
      split
      · exact Vcb.vol_addFree _ _ _ _ _
      · split
        · rfl
        · exact Vcb.vol_addFree _ _ _ _ _

/-- **Deallocation.**  When the runs of the map are runs of clusters, it makes their entries
zero. -/
theorem sat_fatDeallocateDiskSpace {mcb : Mcb} (hruns : ∀ run ∈ mcbRuns g mcb, ValidRun g run) :
    Sat (fatDeallocateDiskSpace g mcb) v
      (fun _ v' => (∃ vol', v' = (mcbRuns g mcb).foldl (releaseRun g) { v with vol := vol' }) ∧
        v.vol.Wrote v'.vol g.width fun j =>
          if j ∈ runClusters (mcbRuns g mcb) then 0 else lookupEntry g.width v.vol.fat j)
      (fun _ v' => v.vol.io ≠ none ∧ v'.numberOfFreeClusters = v.numberOfFreeClusters) := by
  rw [fatDeallocateDiskSpace]
  split
  · next hlen =>
      have hnil : mcbRuns g mcb = [] := by simp [mcbRuns, hlen]
      refine Sat.pure ⟨⟨v.vol, by rw [hnil]; rfl⟩, fun j => ?_, fun hio => hio⟩
      simp [hnil]
  · apply Sat.bind (R := fun _ v' => ∃ vol', v' = { v with vol := vol' } ∧
      v.vol.Wrote vol' g.width fun j =>
        if j ∈ runClusters (mcbRuns g mcb) then 0 else lookupEntry g.width v.vol.fat j)
    · apply Sat.onPart
      exact (sat_freeRuns hruns).mono (fun _ t ht => ⟨t, rfl, ht⟩) (fun _ _ h => ⟨h, rfl⟩)
    · rintro _ _ ⟨vol', rfl, hwrote⟩
      refine Sat.modify ⟨⟨vol', rfl⟩, ?_⟩
      rw [vol_foldl_releaseRun]
      exact hwrote

/-- It adds clusters that are not free to the books. -/
theorem Books.sat_fatDeallocateDiskSpace {mcb : Mcb} (h : Books g v F r)
    (hruns : ∀ run ∈ mcbRuns g mcb, ValidRun g run) (hnodup : (runClusters (mcbRuns g mcb)).Nodup)
    (hdis : Disjoint F (runClusters (mcbRuns g mcb)).toFinset) :
    Sat (fatDeallocateDiskSpace g mcb) v
      (fun _ v' => Books g v' (F ∪ (runClusters (mcbRuns g mcb)).toFinset) r ∧
        v.vol.Wrote v'.vol g.width fun j =>
          if j ∈ runClusters (mcbRuns g mcb) then 0 else lookupEntry g.width v.vol.fat j)
      (fun _ v' => v.vol.io ≠ none ∧ v'.numberOfFreeClusters = v.numberOfFreeClusters) := by
  refine (Fat.sat_fatDeallocateDiskSpace hruns).mono ?_ fun _ _ h => h
  rintro _ v' ⟨⟨vol', heq⟩, hwrote⟩
  rw [heq] at hwrote ⊢
  exact ⟨(h.setVol vol').releaseRuns hruns hnodup hdis, hwrote⟩

/-! ## The runs of a map of clusters -/

/-- The geometry in which maps and links are exact: cluster numbers fit the
entries, the file area starts on a sector, and sector numbers fit their 32 bits. -/
structure Geometry.Sound (g : Geometry) : Prop where
  links : g.numberOfClusters + 1 < 2 ^ g.width.linkBits
  aligned : g.sectorSize ∣ g.fileAreaLbo
  sectors : g.fileAreaSector + g.numberOfClusters * g.clusterSectors < 2 ^ 32

theorem mcbRuns_eq_map (g : Geometry) (mcb : Mcb) :
    mcbRuns g mcb = mcb.map fun run =>
      (fatGetIndexFromLbo g (mcbLbo g run.base), mcbByteCount g run.count / g.clusterSize) := by
  apply List.ext_getElem
  · simp [mcbRuns]
  · intro k _ hk
    rw [List.length_map] at hk
    simp [mcbRuns, mcbRun, fatGetNextMcbEntry, List.getElem?_eq_getElem hk]

/-- A run of clusters goes through the map unchanged unless it is 4 GB long. -/
theorem mcbRun_scaleRun (hg : g.Sound) {c n : ℕ} (hn : 0 < n)
    (hle : c + n ≤ g.numberOfClusters) :
    fatGetIndexFromLbo g (mcbLbo g (Runs.scaleRun g.fileAreaSector g.clusterSectors
      ⟨some c, n⟩).base) = c + 2 := by
  have hK := g.clusterSectors_pos
  have hbase : g.fileAreaSector + c * g.clusterSectors + 1 < 2 ^ 32 := by
    have hmul : (c + 1) * g.clusterSectors ≤ g.numberOfClusters * g.clusterSectors :=
      Nat.mul_le_mul_right _ (by omega)
    have := hg.sectors
    rw [Nat.add_mul, Nat.one_mul] at hmul
    omega
  have harea : g.fileAreaSector * g.sectorSize = g.fileAreaLbo := Nat.div_mul_cancel hg.aligned
  have hlbo : mcbLbo g (some (g.fileAreaSector + c * g.clusterSectors)) =
      g.fileAreaLbo + c * g.clusterSize := by
    have hne : ¬ (g.fileAreaSector + c * g.clusterSectors) % 2 ^ 32 = 2 ^ 32 - 1 := by
      rw [Nat.mod_eq_of_lt (by omega)]
      omega
    simp only [mcbLbo, if_neg hne]
    rw [Nat.add_mul, harea, Nat.mul_assoc, g.clusterSectors_mul]
  have hpos : (0 : ℤ) < g.clusterSize := by exact_mod_cast g.clusterSize_pos
  change fatGetIndexFromLbo g (mcbLbo g (some (g.fileAreaSector + c * g.clusterSectors))) = c + 2
  rw [hlbo, fatGetIndexFromLbo]
  push_cast
  rw [add_sub_cancel_left, Int.mul_ediv_cancel _ hpos.ne']
  have hN := g.numberOfClusters_lt
  omega

theorem mcbByteCount_scale (g : Geometry) {n : ℕ} (hn : n * g.clusterSize ≤ 2 ^ 32) :
    mcbByteCount g (n * g.clusterSectors) / g.clusterSize =
      if n * g.clusterSize = 2 ^ 32 then n - 1 else n := by
  have hpos := g.clusterSize_pos
  rw [mcbByteCount, Nat.mul_assoc, g.clusterSectors_mul]
  by_cases hmax : n * g.clusterSize = 2 ^ 32
  · have hn0 : n ≠ 0 := by
      rintro rfl
      simp at hmax
    have hne : n * g.clusterSectors ≠ 0 := Nat.mul_ne_zero hn0 g.clusterSectors_pos.ne'
    rw [if_pos ⟨by rw [hmax]; rfl, hne⟩, if_pos hmax]
    apply Nat.div_eq_of_lt_le
    · rw [Nat.sub_mul, hmax]
      omega
    · rw [Nat.sub_add_cancel (by omega), hmax]
      omega
  · rw [if_neg hmax, ulong_of_lt (by omega), if_neg, Nat.mul_div_cancel _ hpos]
    rintro ⟨hz, hne⟩
    apply hne
    rw [(Nat.mul_eq_zero.mp hz).resolve_right hpos.ne', Nat.zero_mul]

/-- A run of consecutive clusters as the routine reads it back: a run of 4 GB comes
back one cluster short. -/
def readBack (g : Geometry) (run : Run) : ℕ × ℕ :=
  (run.base.getD 0 + 2,
    if run.count * g.clusterSize = 2 ^ 32 then run.count - 1 else run.count)

variable {cs : List ℕ}

/-- The canonical runs of a list of clusters. -/
theorem run_of_mem_ofList (hcs : ∀ c ∈ cs, c ∈ g.clusters) {run : Run}
    (hrun : run ∈ Runs.ofList (cs.map (· - 2))) :
    ∃ c, run = ⟨some c, run.count⟩ ∧ 0 < run.count ∧ c + run.count ≤ g.numberOfClusters ∧
      run.count ≤ cs.length := by
  obtain ⟨c, hc, hpos, hmem⟩ := (Runs.normal_ofList _).run_of_mem (Runs.cells_ofList _) hrun
  refine ⟨c, hc, hpos, ?_, ?_⟩
  · obtain ⟨x, hx, hxc⟩ := List.mem_map.mp (hmem (run.count - 1) (by omega))
    have := Geometry.mem_clusters.mp (hcs x hx)
    omega
  · have hsum := Runs.length_cells_eq_sum (Runs.ofList (cs.map (· - 2)))
    rw [Runs.cells_ofList, List.length_map, List.length_map] at hsum
    rw [hsum]
    exact List.le_sum_of_mem (List.mem_map_of_mem hrun)

theorem mcbRuns_mcbOf (hg : g.Sound) (hcs : ∀ c ∈ cs, c ∈ g.clusters)
    (hlen : cs.length * g.clusterSize ≤ 2 ^ 32) :
    mcbRuns g (mcbOf g cs) = (Runs.ofList (cs.map (· - 2))).map (readBack g) := by
  rw [mcbRuns_eq_map, mcbOf, List.map_map]
  apply List.map_congr_left
  intro run hrun
  obtain ⟨c, hc, hpos, hle, hcount⟩ := run_of_mem_ofList hcs hrun
  rw [hc]
  refine Prod.ext (mcbRun_scaleRun hg hpos hle) ?_
  exact mcbByteCount_scale g ((Nat.mul_le_mul_right _ hcount).trans hlen)

/-- 4 GB are at least two clusters. -/
theorem two_le_of_max {n : ℕ} (h : n * g.clusterSize = 2 ^ 32) : 2 ≤ n := by
  have hsize := g.clusterSize_le
  by_contra hlt
  have : n * g.clusterSize ≤ 1 * g.clusterSize := Nat.mul_le_mul_right _ (by omega)
  omega

/-- The runs of a map of clusters are runs of the volume. -/
theorem validRun_mcbRuns (hg : g.Sound) (hcs : ∀ c ∈ cs, c ∈ g.clusters)
    (hlen : cs.length * g.clusterSize ≤ 2 ^ 32) :
    ∀ run ∈ mcbRuns g (mcbOf g cs), ValidRun g run := by
  rw [mcbRuns_mcbOf hg hcs hlen]
  intro x hx
  obtain ⟨run, hrun, rfl⟩ := List.mem_map.mp hx
  obtain ⟨c, hc, hpos, hle, -⟩ := run_of_mem_ofList hcs hrun
  rw [hc, readBack]
  dsimp only [Option.getD_some]
  split
  · next hmax =>
      have := two_le_of_max hmax
      exact ⟨by dsimp only; omega, by dsimp only; omega, by dsimp only; omega⟩
  · exact ⟨by dsimp only; omega, hpos, by dsimp only; omega⟩

/-- The runs that are not 4 GB long come back whole. -/
theorem runClusters_readBack {rs : List Run}
    (h : ∀ run ∈ rs, ∃ c, run = ⟨some c, run.count⟩ ∧ run.count * g.clusterSize ≠ 2 ^ 32) :
    runClusters (rs.map (readBack g)) = (Runs.cells rs).map fun x => x.getD 0 + 2 := by
  induction rs with
  | nil => rfl
  | cons run rs ih =>
      obtain ⟨c, hc, hne⟩ := h run (by simp)
      rw [List.map_cons, runClusters_cons, Runs.cells_cons, List.map_append,
        ih fun x hx => h x (by simp [hx])]
      congr 1
      rw [hc, readBack, if_neg hne, cells_eq_map_range', List.map_map]
      apply List.ext_getElem
      · simp
      · intro j _ _
        simp
        omega

/-- **The clusters of a map come back**, except for the last one of a map that is a
single run of 4 GB. -/
theorem runClusters_mcbRuns (hg : g.Sound) (hcs : ∀ c ∈ cs, c ∈ g.clusters)
    (hlen : cs.length * g.clusterSize ≤ 2 ^ 32) :
    runClusters (mcbRuns g (mcbOf g cs)) =
      if (mcbOf g cs).length = 1 ∧ cs.length * g.clusterSize = 2 ^ 32 then cs.dropLast else cs := by
  have hcells := Runs.cells_ofList (cs.map (· - 2))
  have hback : (cs.map (· - 2)).map (fun c => c + 2) = cs := by
    rw [List.map_map]
    conv_rhs => rw [← List.map_id cs]
    apply List.map_congr_left
    intro c hc
    have := Geometry.mem_clusters.mp (hcs c hc)
    simp only [Function.comp_apply, id]
    omega
  have hlength : (mcbOf g cs).length = (Runs.ofList (cs.map (· - 2))).length := by
    rw [mcbOf, List.length_map]
  have hsum := Runs.length_cells_eq_sum (Runs.ofList (cs.map (· - 2)))
  rw [hcells, List.length_map, List.length_map] at hsum
  have hnormal := Runs.normal_ofList (cs.map (· - 2))
  have hrun : ∀ run ∈ Runs.ofList (cs.map (· - 2)), _ := fun run h => run_of_mem_ofList hcs h
  rw [mcbRuns_mcbOf hg hcs hlen, hlength]
  generalize Runs.ofList (cs.map (· - 2)) = rs at *
  by_cases hone : rs.length = 1 ∧ cs.length * g.clusterSize = 2 ^ 32
  · rw [if_pos hone]
    obtain ⟨run, rfl⟩ := List.length_eq_one_iff.mp hone.1
    obtain ⟨c, hc, -⟩ := hrun run (by simp)
    have hcount : run.count = cs.length := by simpa using hsum.symm
    rw [hc, hcount] at hcells ⊢
    rw [Runs.cells_cons, Runs.cells_nil, List.append_nil, cells_eq_map_range'] at hcells
    have hrange : cs = List.range' (c + 2) cs.length := by
      conv_lhs => rw [← hback, ← List.map_injective_iff.mpr (Option.some_injective ℕ) hcells]
      simp only [Nat.add_comm _ 2, List.map_add_range']
    rw [List.map_cons, List.map_nil, readBack, if_pos hone.2]
    dsimp only [Option.getD_some]
    rw [runClusters_cons, runClusters_nil, List.append_nil, List.dropLast_eq_take]
    conv_rhs => rw [hrange]
    rw [List.length_range', List.take_range'_of_length_ge (by omega)]
  · rw [if_neg hone, runClusters_readBack, hcells, List.map_map]
    · exact hback
    · intro run hmem
      obtain ⟨c, hc, hpos, hle, hcount⟩ := hrun run hmem
      refine ⟨c, hc, fun hmax => hone ?_⟩
      have hge : cs.length ≤ run.count :=
        Nat.le_of_mul_le_mul_right (hlen.trans hmax.ge) g.clusterSize_pos
      have hcountlen := hnormal.count_add_length_le hmem
      have hne := List.length_pos_of_mem hmem
      refine ⟨by omega, ?_⟩
      rw [← hmax, le_antisymm hge hcount]

end KernelDrivers.Fat
