import KernelDrivers.Fat.Allocate
import KernelDrivers.Fat.Chain

/-!
# The run loop

What a pass of the run loop of `FatAllocateDiskSpace` does to the books, the map and
the FAT.  `Taken g e F C cs s` is the invariant of the loop: of the `C` clusters
requested, `cs` have been taken so far from the free clusters `F` of the table `e`.

## Main definitions

* `RunLoop.Taken` — the invariant.
* `RunLoop.Tidy` — a loop that stopped, ready to be unwound.
-/

namespace KernelDrivers.Fat

namespace RunLoop

/-- Of the `C` clusters requested, `cs` are taken. -/
structure Taken (g : Geometry) (e : ℕ → ℕ) (F : Finset ℕ) (C : ℕ) (cs : List ℕ)
    (s : RunLoop) : Prop where
  nodup : cs.Nodup
  free : ∀ c ∈ cs, c ∈ F
  remaining : s.clustersRemaining + cs.length = C
  books : Books g s.vcb (F \ cs.toFinset) s.clustersRemaining
  entry : ∀ j, lookupEntry g.width s.vcb.vol.fat j = chainEntry g.width e cs j
  prior : s.priorLastCluster = cs.getLast?.getD 0
  vbo : s.currentVbo = ulong (cs.length * g.clusterSize)
  mcb : s.clustersRemaining ≠ 0 → s.mcb = mcbOf g cs

variable {g : Geometry} {e : ℕ → ℕ} {F : Finset ℕ} {C : ℕ} {cs : List ℕ} {s : RunLoop}
  {vol : Volume}

/-! ## Searching -/

/-- What a search may change. -/
structure Found (s s' : RunLoop) : Prop where
  rest : s' = { s with
    index := s'.index
    clustersFound := s'.clustersFound
    selectNextContigWindow := s'.selectNextContigWindow
    windowRelativeHint := s'.windowRelativeHint }
  le : s'.clustersFound ≤ s.clustersRemaining
  clear : s'.clustersFound ≠ 0 → s.vcb.freeClusterBitMap.ClearAt s'.index s'.clustersFound

theorem Found.trans {s1 s2 s3 : RunLoop} (h : Found s1 s2) (h' : Found s2 s3) : Found s1 s3 := by
  have hvcb : s2.vcb = s1.vcb := by rw [h.rest]
  have hrem : s2.clustersRemaining = s1.clustersRemaining := by rw [h.rest]
  refine ⟨?_, hrem ▸ h'.le, hvcb ▸ h'.clear⟩
  rw [h'.rest, h.rest]

theorem searchHint_found {exactMatchRequired : Bool} {s' : RunLoop} (hzero : s.clustersFound = 0)
    (h : searchHint g exactMatchRequired s = some s') : Found s s' := by
  rw [searchHint] at h
  split at h
  · next hclear =>
      rw [← Option.some.inj h]
      refine ⟨rfl, min_le_right _ _, fun _ => ?_⟩
      simp only [Bitmap.areBitsClear, decide_eq_true_eq] at hclear
      exact hclear.2
  · split at h
    · simp at h
    · rw [← Option.some.inj h]
      refine ⟨by simp [hzero], by simp [hzero], fun hne => absurd hzero hne⟩

theorem clearAt_potLuckRun (h : (potLuckRun s).1 ≠ 0) :
    s.vcb.freeClusterBitMap.ClearAt (potLuckRun s).2 (potLuckRun s).1 := by
  have hlongest := Bitmap.clearAt_findLongestRunClear (b := s.vcb.freeClusterBitMap)
  rw [potLuckRun] at *
  by_cases hle : s.clustersRemaining ≤ s.vcb.window.clustersFree
  · rw [if_pos hle] at *
    cases hi : s.vcb.freeClusterBitMap.findClearBits s.clustersRemaining 0 with
    | some i => exact Bitmap.clearAt_of_findClearBits hi
    | none =>
        rw [hi] at h
        exact hlongest (Nat.pos_of_ne_zero h)
  · rw [if_neg hle] at *
    exact hlongest (Nat.pos_of_ne_zero h)

theorem searchPotLuck_found (s : RunLoop) : Found s (searchPotLuck g s) := by
  have hclear := clearAt_potLuckRun (s := s)
  simp only [searchPotLuck]
  split
  · next hle =>
      refine ⟨rfl, le_rfl, fun hne => (hclear ?_).mono le_rfl ?_⟩
      · dsimp only at hne
        omega
      · dsimp only
        omega
  · next hgt =>
      split
      · exact ⟨rfl, by dsimp only; omega, hclear⟩
      · exact ⟨rfl, by dsimp only; omega, hclear⟩

/-- **A search** changes no more than the variables of the search, and what it finds
is free. -/
theorem search_found {exactMatchRequired : Bool} {s' : RunLoop}
    (h : search g exactMatchRequired s = some s') : Found s s' := by
  have hstart : Found s { s with clustersFound := 0 } :=
    ⟨rfl, Nat.zero_le _, fun hne => absurd rfl hne⟩
  rw [search] at h
  dsimp only at h
  split at h
  · rw [← Option.some.inj h]
    exact hstart
  · rw [Option.map_eq_some_iff] at h
    obtain ⟨s1, hs1, heq⟩ := h
    have h1 : Found s s1 := by
      split at hs1
      · exact hstart.trans (searchHint_found rfl hs1)
      · rw [← Option.some.inj hs1]
        exact hstart
    split at heq
    · rw [← heq]
      exact h1.trans (searchPotLuck_found s1)
    · rw [← heq]
      exact h1

/-- Only an exact-match request is refused by a search. -/
theorem exact_of_search_eq_none {exactMatchRequired : Bool}
    (h : search g exactMatchRequired s = none) : exactMatchRequired = true := by
  rw [search] at h
  dsimp only at h
  split at h
  · simp at h
  · rw [Option.map_eq_none_iff] at h
    split at h
    · rw [searchHint] at h
      split at h
      · simp at h
      · split at h
        · assumption
        · simp at h
    · simp at h

/-! ## Taking a run -/

theorem sdiff_append_range' (F : Finset ℕ) (cs : List ℕ) (c n : ℕ) :
    F \ (cs ++ List.range' c n).toFinset = (F \ cs.toFinset) \ Finset.Ico c (c + n) := by
  ext x
  simp only [Finset.mem_sdiff, List.mem_toFinset, List.mem_append, List.mem_range'_1,
    Finset.mem_Ico, not_or, and_assoc]

/-- A FAT32 window is at most one chunk of `FatSetFatRun` long. -/
theorem window_le_maxCountClus (hw : g.width = .fat32) (i : ℕ) :
    g.endOf i - g.firstOf i ≤ maxCountClus := by
  have hle : g.entriesPerWindow ≤ maxCountClus := by
    by_cases hmany : 1 < g.numberOfWindows
    · rw [Geometry.entriesPerWindow_of_many hmany]
      rfl
    · rw [Geometry.entriesPerWindow_of_one hmany]
      rw [Geometry.one_lt_numberOfWindows_iff] at hmany
      by_contra hlt
      exact hmany ⟨hw, by rw [maxCountClus] at hlt; rw [maxClusterBitmapSize]; omega⟩
  rw [Geometry.endOf]
  omega

/-- Linking a run behind the clusters that are taken extends the chain.  When it
raises, no other entry has changed. -/
theorem sat_linkRun {c n prior : ℕ} (hn : 0 < n) (hnodup : (cs ++ List.range' c n).Nodup)
    (hmem : ∀ x ∈ cs ++ List.range' c n, x ∈ g.clusters)
    (hone : g.width = .fat32 → n ≤ maxCountClus) (hprior : prior = cs.getLast?.getD 0)
    (hentry : ∀ j, lookupEntry g.width vol.fat j = chainEntry g.width e cs j) :
    Sat (linkRun g prior c n) vol
      (fun _ vol' => vol.Wrote vol' g.width (chainEntry g.width e (cs ++ List.range' c n)))
      (fun stop vol' => stop = .raised .deviceError ∧ vol.io ≠ none ∧ vol'.io = none ∧
        ∀ j ∉ cs, lookupEntry g.width vol'.fat j = e j) := by
  have hin : ∀ x, c ≤ x → x < c + n → x ∈ List.range' c n := fun x h1 h2 =>
    List.mem_range'_1.mpr ⟨h1, h2⟩
  have hc := Geometry.mem_clusters.mp (hmem c (List.mem_append_right _ (hin c le_rfl (by omega))))
  have hlast := Geometry.mem_clusters.mp
    (hmem (c + n - 1) (List.mem_append_right _ (hin _ (by omega) (by omega))))
  rw [linkRun]
  by_cases hcs : cs = []
  · subst hcs
    rw [if_neg (by simp [hprior])]
    refine (sat_fatAllocateClusters hc.1 hn (by omega)).mono ?_ ?_
    · intro _ vol' hw
      refine ⟨fun j => ?_, hw.io⟩
      rw [hw.entry, entryAfterRun, List.nil_append, chainEntry_range', hentry]
      rfl
    · intro stop vol' hf
      obtain ⟨hstop, hfault⟩ := hf.2 hone
      exact ⟨hstop, hf.1, hfault.io', fun j _ => by rw [hfault.entry, hentry]; rfl⟩
  · have hprior' : prior = cs.getLast hcs := by
      rw [hprior, List.getLast?_eq_some_getLast hcs, Option.getD_some]
    have hpmem : prior ∈ cs := hprior' ▸ List.getLast_mem hcs
    have hp := Geometry.mem_clusters.mp (hmem prior (List.mem_append_left _ hpmem))
    rw [if_pos (by omega)]
    apply Sat.bind ((sat_fatSetFatEntry c hp.1 (by omega)).mono (fun _ _ h => h) ?_)
    · intro _ t ht
      have hoff : ∀ j ∉ cs, lookupEntry g.width t.fat j = e j := by
        intro j hj
        have hne : j ≠ prior := fun h => hj (h ▸ hpmem)
        rw [ht.entry, if_neg hne, hentry, chainEntry_of_notMem hj]
      refine (sat_fatAllocateClusters hc.1 hn (by omega)).mono ?_ ?_
      · intro _ vol' hw
        refine ⟨fun j => ?_, fun h => hw.io (ht.io h)⟩
        have hrange : List.range' c n = c :: List.range' (c + 1) (n - 1) := by
          conv_lhs => rw [show n = n - 1 + 1 by omega, List.range'_succ]
        have happ := chainEntry_append (w := g.width) (e := e) (j := j) hcs (hrange ▸ hnodup)
        rw [← hrange] at happ
        rw [hw.entry, entryAfterRun, happ, chainEntry_range', ht.entry, hentry, hprior']
        have hdis : j ∈ cs → ¬ (c ≤ j ∧ j < c + n) := fun hj hjn =>
          (List.nodup_append'.mp hnodup).2.2 hj (hin j hjn.1 hjn.2)
        by_cases hj : j ∈ cs
        · rw [if_neg (hdis hj), if_pos hj]
        · have hne : j ≠ cs.getLast hcs := fun h => hj (h ▸ List.getLast_mem hcs)
          rw [if_neg hne, if_neg hne, if_neg hj, chainEntry_of_notMem hj]
          rfl
      · intro stop vol' hf
        obtain ⟨hstop, hfault⟩ := hf.2 hone
        refine ⟨hstop, fun h => hf.1 (ht.io h), hfault.io', fun j hj => ?_⟩
        rw [hfault.entry, hoff j hj]
    · intro stop vol' hf
      refine ⟨hf.1, hf.2.io, hf.2.io', fun j hj => ?_⟩
      rw [hf.2.entry, hentry, chainEntry_of_notMem hj]

/-- The first cluster of the run that was found. -/
def firstFound (g : Geometry) (s : RunLoop) : ℕ := g.firstOf s.vcb.currentWindow + s.index

/-- A run of `n` clusters from `c` on is taken in the bitmap and added to the map. -/
structure Reserved (g : Geometry) (F : Finset ℕ) (cs : List ℕ) (c n r : ℕ) (s : RunLoop) :
    Prop where
  books : Books g s.vcb (F \ (cs ++ List.range' c n).toFinset) r
  unlocked : s.lockedBitMap = false
  window : s.window = s.vcb.currentWindow
  cluster : s.cluster = c
  clustersFound : s.clustersFound = n
  inWindow : Finset.Ico c (c + n) ⊆ g.window s.vcb.currentWindow
  vbo : s.currentVbo = cs.length * g.clusterSize
  bytesFound : s.bytesFound = ulong (n * g.clusterSize)
  mcb : s.mcb = if n * g.clusterSize = 2 ^ 32 then mcbOf g cs else mcbOf g (cs ++ List.range' c n)

/-- Replace the volume. -/
def setVol (s : RunLoop) (vol : Volume) : RunLoop := { s with vcb := { s.vcb with vol := vol } }

theorem Reserved.setVol {c n r : ℕ} (h : Reserved g F cs c n r s) (vol : Volume) :
    Reserved g F cs c n r (s.setVol vol) :=
  ⟨h.books.setVol vol, h.unlocked, h.window, h.cluster, h.clustersFound, h.inWindow, h.vbo,
    h.bytesFound, h.mcb⟩

/-- The map after a run of `n` clusters was added with its 32-bit byte count. -/
theorem fatAddMcbEntry_ulong {c n : ℕ} (hc : 2 ≤ c) (hn : n * g.clusterSize ≤ 2 ^ 32) :
    fatAddMcbEntry g (mcbOf g cs) (cs.length * g.clusterSize) (fatGetLboFromIndex g c)
        (ulong (n * g.clusterSize)) =
      if n * g.clusterSize = 2 ^ 32 then mcbOf g cs else mcbOf g (cs ++ List.range' c n) := by
  split
  · next hmax =>
      have hzero : mcbSectors g (ulong (n * g.clusterSize)) = 0 * g.clusterSectors := by
        rw [hmax, Nat.zero_mul]
        rfl
      rw [fatAddMcbEntry_mcbOf g _ hc hzero, List.range'_zero, List.append_nil]
  · next hne =>
      rw [ulong_of_lt (by omega)]
      exact fatAddMcbEntry_mcbOf g _ hc (mcbSectors_mul_clusterSize g n)

/-- The run before ended its window and the next window has free clusters. -/
def SelectsNext (g : Geometry) (s : RunLoop) : Prop :=
  s.selectNextContigWindow = true ∧ s.vcb.currentWindow + 1 < g.numberOfWindows ∧
    0 < (s.vcb.windows (s.vcb.currentWindow + 1)).clustersFree

instance (g : Geometry) (s : RunLoop) : Decidable (SelectsNext g s) :=
  inferInstanceAs (Decidable (_ ∧ _ ∧ _))

/-- The window that `s` goes to, and the hint in it. -/
structure SwitchedTo (g : Geometry) (s : RunLoop) (v : Vcb) (hint : ℕ) : Prop where
  window : v.currentWindow =
    if SelectsNext g s then s.vcb.currentWindow + 1 else fatSelectBestWindow g s.vcb
  hint : hint = if s.selectNextContigWindow = true ∧ ¬ SelectsNext g s then 0
    else s.windowRelativeHint

namespace Taken

theorem length_mul_lt (h : Taken g e F C cs s) (hC : C * g.clusterSize ≤ 2 ^ 32)
    (hrem : s.clustersRemaining ≠ 0) : cs.length * g.clusterSize < 2 ^ 32 := by
  have hlen := h.remaining
  have hlt : cs.length * g.clusterSize < C * g.clusterSize :=
    Nat.mul_lt_mul_of_pos_right (by omega) g.clusterSize_pos
  omega

/-- The invariant does not depend on the variables of the search. -/
theorem found {s' : RunLoop} (h : Taken g e F C cs s) (hf : Found s s') :
    Taken g e F C cs s' := by
  rw [hf.rest]
  exact ⟨h.nodup, h.free, h.remaining, h.books, h.entry, h.prior, h.vbo, h.mcb⟩

theorem setLocked (h : Taken g e F C cs s) (b : Bool) :
    Taken g e F C cs { s with lockedBitMap := b } :=
  ⟨h.nodup, h.free, h.remaining, h.books, h.entry, h.prior, h.vbo, h.mcb⟩

section Take

variable (h : Taken g e F C cs s) (hn : s.clustersFound ≠ 0)
  (hle : s.clustersFound ≤ s.clustersRemaining)
  (hclear : s.vcb.freeClusterBitMap.ClearAt s.index s.clustersFound)

include h hclear

/-- The run that was found consists of free clusters of the window. -/
theorem mem_found {x : ℕ} (hx : x ∈ List.range' (firstFound g s) s.clustersFound) :
    x ∈ F ∧ x ∉ cs ∧ x ∈ g.window s.vcb.currentWindow := by
  have hmem := h.books.run_subset hclear
  have hx' : x ∈ s.vcb.run g s.index s.clustersFound := by
    rw [List.mem_range'_1] at hx
    exact Finset.mem_Ico.mpr hx
  have := Finset.mem_inter.mp (hmem hx')
  simp only [Finset.mem_sdiff, List.mem_toFinset] at this
  exact ⟨this.1.1, this.1.2, this.2⟩

theorem nodup_found : (cs ++ List.range' (firstFound g s) s.clustersFound).Nodup := by
  rw [List.nodup_append']
  exact ⟨h.nodup, List.nodup_range', fun x hx hx' => (h.mem_found hclear hx').2.1 hx⟩

theorem free_found : ∀ x ∈ cs ++ List.range' (firstFound g s) s.clustersFound, x ∈ F := by
  intro x hx
  rcases List.mem_append.mp hx with hx | hx
  · exact h.free x hx
  · exact (h.mem_found hclear hx).1

include hn hle

/-- Taking the run in the bitmap and adding it to the map. -/
theorem reserved_reserveFound (hC : C * g.clusterSize ≤ 2 ^ 32) :
    Reserved g F cs (firstFound g s) s.clustersFound (s.clustersRemaining - s.clustersFound)
      (reserveFound g s) := by
  have hrem : s.clustersRemaining ≠ 0 := by omega
  have hlen := h.length_mul_lt hC hrem
  have hfirst : s.index + s.vcb.window.firstCluster = firstFound g s := by
    have : s.vcb.window.firstCluster = _ := h.books.first _ h.books.current
    rw [this, firstFound, Nat.add_comm]
  have hvbo : s.currentVbo = cs.length * g.clusterSize := by rw [h.vbo, ulong_of_lt hlen]
  refine ⟨?_, rfl, rfl, hfirst, rfl, ?_, hvbo, rfl, ?_⟩
  · have hb : Books g s.vcb (F \ cs.toFinset)
        (s.clustersRemaining - s.clustersFound + s.clustersFound) := by
      rw [Nat.sub_add_cancel hle]
      exact h.books
    rw [sdiff_append_range']
    exact hb.takeRun hclear (Nat.pos_of_ne_zero hn)
  · intro x hx
    exact (h.mem_found hclear (List.mem_range'_1.mpr (Finset.mem_Ico.mp hx))).2.2
  · have hc2 : 2 ≤ firstFound g s := (g.two_le_firstOf _).trans (Nat.le_add_right _ _)
    have hnmul : s.clustersFound * g.clusterSize ≤ 2 ^ 32 := by
      have hsum := h.remaining
      exact (Nat.mul_le_mul_right _ (by omega)).trans hC
    rw [← fatAddMcbEntry_ulong hc2 hnmul, ← h.mcb hrem, ← hvbo, ← hfirst]
    rfl

/-- **Taking the run that was found.**  The clusters join those taken before; a raise
leaves a run that is taken but not linked. -/
theorem sat_takeFound (hF : F ⊆ g.clusters) (hC : C * g.clusterSize ≤ 2 ^ 32) :
    Sat (takeFound g) s
      (fun _ s' => ∃ vol', s' = advance ((reserveFound g s).setVol vol') ∧
        Taken g e F C (cs ++ List.range' (firstFound g s) s.clustersFound) s' ∧
        (s.vcb.vol.io = none → vol'.io = none))
      (fun stop s' => stop = .raised .deviceError ∧ s.vcb.vol.io ≠ none ∧
        s'.vcb.vol.io = none ∧ (∀ j ∉ cs, lookupEntry g.width s'.vcb.vol.fat j = e j) ∧
        Reserved g F cs (firstFound g s) s.clustersFound
          (s.clustersRemaining - s.clustersFound) s') := by
  have hres := h.reserved_reserveFound hn hle hclear hC
  have hnodup := h.nodup_found hclear
  have hfree := h.free_found hclear
  have hone : g.width = .fat32 → s.clustersFound ≤ maxCountClus := by
    intro hw
    have h1 := window_le_maxCountClus hw s.vcb.currentWindow
    have h2 := hclear.1
    rw [h.books.size] at h2
    omega
  rw [takeFound]
  apply Sat.modify_bind
  apply Sat.get_bind
  apply Sat.bind (R := fun _ s' => ∃ vol', s' = (reserveFound g s).setVol vol' ∧
    s.vcb.vol.Wrote vol' g.width
      (chainEntry g.width e (cs ++ List.range' (firstFound g s) s.clustersFound)))
  · rw [hres.cluster]
    apply Sat.onPart
    apply Sat.onPart
    refine (sat_linkRun (Nat.pos_of_ne_zero hn) hnodup (fun x hx => hF (hfree x hx)) hone h.prior
      h.entry).mono (fun _ vol' hw => ⟨vol', rfl, hw⟩) ?_
    rintro stop vol' ⟨hstop, hio, hio', hentry⟩
    exact ⟨hstop, hio, hio', hentry, hres.setVol vol'⟩
  · rintro _ _ ⟨vol', rfl, hw⟩
    refine Sat.modify ⟨vol', rfl, ⟨hnodup, hfree, ?_, hres.books.setVol vol', hw.entry, ?_, ?_, ?_⟩,
      hw.io⟩
    · have hsum := h.remaining
      rw [List.length_append, List.length_range']
      change s.clustersRemaining - s.clustersFound + _ = C
      omega
    · have hne : List.range' (firstFound g s) s.clustersFound ≠ [] := by
        rw [Ne, List.range'_eq_nil_iff]
        exact hn
      rw [List.getLast?_append_of_ne_nil _ hne, List.getLast?_range', if_neg hn]
      change (reserveFound g s).cluster + s.clustersFound - 1 = _
      rw [hres.cluster, Option.getD_some]
    · rw [List.length_append, List.length_range', Nat.add_mul]
      change ulong (s.currentVbo + ulong (s.clustersFound * g.clusterSize)) = _
      rw [h.vbo, ulong, ulong, ulong, ulong, Nat.add_mod_mod, Nat.mod_add_mod]
    · intro hrem'
      change s.clustersRemaining - s.clustersFound ≠ 0 at hrem'
      have hsum := h.remaining
      have hlt : s.clustersFound * g.clusterSize < C * g.clusterSize :=
        Nat.mul_lt_mul_of_pos_right (by omega) g.clusterSize_pos
      have hmcb := hres.mcb
      rw [if_neg (by omega)] at hmcb
      exact hmcb

end Take

/-! ## Switching windows -/

section Switch

variable (h : Taken g e F C cs s) (hF : ∀ c, c ∈ F ↔ c ∈ g.clusters ∧ e c = 0)

include h hF

/-- When cluster numbers fit the entries, the FAT shows what is still free. -/
theorem zeroSet_eq (hlinks : g.numberOfClusters + 1 < 2 ^ g.width.linkBits) :
    zeroSet g s.vcb.vol.fat = F \ cs.toFinset := by
  ext c
  rw [mem_zeroSet, ← Geometry.mem_clusters, h.entry, Finset.mem_sdiff, List.mem_toFinset, hF]
  by_cases hc : c ∈ cs
  · have hne : chainEntry g.width e cs c ≠ 0 := by
      apply chainEntry_ne_zero hc
      intro x hx
      have := Geometry.mem_clusters.mp ((hF x).mp (h.free x hx)).1
      omega
    simp [hc, hne]
  · simp [hc, chainEntry_of_notMem hc]

omit hF in
/-- A change of the volume that keeps the entries keeps the invariant. -/
theorem setVcb {v : Vcb} (hbooks : Books g v (F \ cs.toFinset) s.clustersRemaining)
    (hfat : ∀ j, lookupEntry g.width v.vol.fat j = lookupEntry g.width s.vcb.vol.fat j)
    (hint : ℕ) (select : Bool) :
    Taken g e F C cs { s with
      vcb := v, windowRelativeHint := hint, selectNextContigWindow := select } :=
  ⟨h.nodup, h.free, h.remaining, hbooks, fun j => (hfat j).trans (h.entry j), h.prior, h.vbo, h.mcb⟩

omit hF in
/-- While the request is incomplete some window has free clusters. -/
theorem exists_free (hrem : s.clustersRemaining ≠ 0) :
    ∃ i < g.numberOfWindows, 0 < (s.vcb.windows i).clustersFree := by
  by_contra hnone
  have hzero : ∀ i ∈ Finset.range g.numberOfWindows, ((F \ cs.toFinset) ∩ g.window i).card = 0 := by
    intro i hi
    rw [Finset.mem_range] at hi
    rw [← h.books.free i hi]
    by_contra hne
    exact hnone ⟨i, hi, Nat.pos_of_ne_zero hne⟩
  have hcard := Geometry.card_eq_sum_windows h.books.subset
  rw [Finset.sum_eq_zero hzero] at hcard
  have := h.books.total
  omega

/-- **Switching windows** when nothing was found.  The window it goes to has free
clusters, and only a single window makes it crash. -/
theorem sat_switchWindow {exactMatchRequired : Bool} (hrem : s.clustersRemaining ≠ 0)
    (hlinks : 1 < g.numberOfWindows → g.numberOfClusters + 1 < 2 ^ g.width.linkBits) :
    Sat (switchWindow g exactMatchRequired) s
      (fun b s' => if b then
          1 < g.numberOfWindows ∧ ∃ v hint, s' = { s with
              vcb := v, windowRelativeHint := hint, selectNextContigWindow := false } ∧
            Taken g e F C cs s' ∧ 0 < v.window.clustersFree ∧
            SwitchedTo g s v hint ∧
            v.windows = s.vcb.windows ∧ (s.vcb.vol.io = none → v.vol.io = none)
        else exactMatchRequired = true ∧ s' = s ∧ ¬ SelectsNext g s)
      (fun stop s' => stop = .bugCheck 0 5 0 ∧ g.numberOfWindows = 1 ∨
        stop = .raised .deviceError ∧ s.vcb.vol.io ≠ none ∧ s'.vcb.vol.io = none ∧
          Taken g e F C cs s' ∧ s'.clustersRemaining = s.clustersRemaining ∧
          s'.lockedBitMap = s.lockedBitMap) := by
  rw [switchWindow]
  by_cases hone : g.numberOfWindows = 1
  · rw [if_pos hone]
    exact Sat.throw (Or.inl ⟨rfl, hone⟩)
  rw [if_neg hone]
  apply Sat.get_bind
  have hmany : 1 < g.numberOfWindows := by
    have := g.numberOfWindows_pos
    omega
  have hbest := fatSelectBestWindow_spec g s.vcb
  have hsel : SelectsNext g s ↔ s.selectNextContigWindow = true ∧
      s.vcb.currentWindow + 1 < g.numberOfWindows ∧
      0 < (s.vcb.windows (s.vcb.currentWindow + 1)).clustersFree := Iff.rfl
  simp only [← hsel]
  by_cases hrefuse : s.selectNextContigWindow = true ∧ ¬ SelectsNext g s ∧
      exactMatchRequired = true
  · rw [if_pos hrefuse]
    exact Sat.pure ⟨hrefuse.2.2, rfl, hrefuse.2.1⟩
  rw [if_neg hrefuse]
  apply Sat.set_bind
  have hfave : ∃ fave, fave = (if SelectsNext g s then s.vcb.currentWindow + 1
      else fatSelectBestWindow g s.vcb) ∧ fave < g.numberOfWindows ∧
      0 < (s.vcb.windows fave).clustersFree := by
    split
    · next hnext => exact ⟨_, rfl, hnext.2.1, hnext.2.2⟩
    · exact ⟨_, rfl, hbest.1, hbest.2 (h.exists_free hrem)⟩
  obtain ⟨fave, heq, hlt, hfree⟩ := hfave
  rw [← heq]
  have hne : (s.vcb.windows fave).clustersFree ≠ 0 := by omega
  simp only [if_neg hne]
  have hzero := h.zeroSet_eq hF (hlinks hmany)
  apply Sat.bind (R := fun _ s' => ∃ v hint, s' = { s with
      vcb := v, windowRelativeHint := hint, selectNextContigWindow := false } ∧
    Taken g e F C cs s' ∧ 0 < v.window.clustersFree ∧ SwitchedTo g s v hint ∧
    v.windows = s.vcb.windows ∧ (s.vcb.vol.io = none → v.vol.io = none))
  · apply Sat.onPart
    refine (sat_fatExamineFatEntries h.books.windowsOf h.books.total hmany hlt hzero).mono ?_ ?_
    · rintro _ v ⟨hbooks, hcur, hwin, _, hfat, hio⟩
      refine ⟨v, _, rfl, h.setVcb hbooks (fun j => by rw [hfat]) _ _, ?_, ⟨?_, rfl⟩, hwin, hio⟩
      · rw [Vcb.window, hcur, hwin]
        exact hfree
      · rw [hcur, heq]
    · rintro stop v ⟨hstop, vol', hv, hfault⟩
      subst hv
      exact Or.inr ⟨hstop, hfault.io, hfault.io',
        h.setVcb (h.books.setVol vol') hfault.entry _ _, rfl, rfl⟩
  · intro _ s' hs'
    exact Sat.pure ⟨hmany, hs'⟩

end Switch

end Taken

/-! ## Unwinding -/

/-- A loop that stopped with the clusters `cs` linked, ready for the map to be
deallocated; `r` clusters are off the total that nothing accounts for. -/
structure Tidy (g : Geometry) (e : ℕ → ℕ) (F : Finset ℕ) (cs : List ℕ) (r : ℕ) (s : RunLoop) :
    Prop where
  nodup : cs.Nodup
  free : ∀ c ∈ cs, c ∈ F
  short : cs.length * g.clusterSize < 2 ^ 32
  books : Books g s.vcb (F \ cs.toFinset) r
  entry : ∀ j ∉ cs, lookupEntry g.width s.vcb.vol.fat j = e j
  mcb : s.mcb = mcbOf g cs

/-- Removing the last run of a map. -/
theorem fatRemoveMcbEntry_mcbOf (g : Geometry) (cs : List ℕ) (c n : ℕ) :
    fatRemoveMcbEntry g (mcbOf g (cs ++ List.range' c n)) (cs.length * g.clusterSize)
      (n * g.clusterSize) = mcbOf g cs := by
  have hne : n * g.clusterSize ≠ 0xffffffff := by
    intro heq
    have hdvd : 2 ∣ n * g.clusterSize := by
      have h7 : 2 ^ 7 ∣ g.clusterSize :=
        pow_dvd_pow 2 (g.sector_mem.1.trans g.cluster_mem.1)
      exact (Dvd.dvd.trans (by norm_num) h7).mul_left n
    rw [heq] at hdvd
    omega
  have hvbo : cs.length * g.clusterSize / g.sectorSize = cs.length * g.clusterSectors := by
    rw [← g.clusterSectors_mul, ← Nat.mul_assoc, Nat.mul_div_cancel _ g.sectorSize_pos]
  have hcells : ∀ ds, (Runs.cells (mcbOf g ds)).length = ds.length * g.clusterSectors := by
    intro ds
    rw [cells_mcbOf, List.length_map, length_flatMap_sectorsOf]
  rw [fatRemoveMcbEntry, if_pos hne, mcbSectors_mul_clusterSize, hvbo]
  apply Runs.Normal.ext (Runs.normal_normalize _) (normal_mcbOf g cs)
  have hlen : (Runs.cells (mcbOf g (cs ++ List.range' c n))).length ≤
      cs.length * g.clusterSectors + n * g.clusterSectors := by
    rw [hcells, List.length_append, List.length_range', Nat.add_mul]
  change Runs.cells (Runs.remove _ _ _) = _
  rw [Runs.cells_remove_end hlen, cells_mcbOf, cells_mcbOf, List.flatMap_append, List.map_append,
    List.take_left' (by rw [List.length_map, length_flatMap_sectorsOf]),
    Runs.stripHoles_of_forall_ne_none]
  intro x hx
  obtain ⟨y, _, rfl⟩ := List.mem_map.mp hx
  simp

/-- Removing everything. -/
theorem fatRemoveMcbEntry_all (h : cs.length * g.clusterSize ≤ 2 ^ 32) :
    fatRemoveMcbEntry g (mcbOf g cs) 0 0xffffffff = [] := by
  have hs : 2 ^ 7 ≤ g.sectorSize := Nat.pow_le_pow_right (by norm_num) g.sector_mem.1
  rw [fatRemoveMcbEntry, if_neg (by simp), Nat.zero_div]
  apply Runs.remove_all
  rw [cells_mcbOf, List.length_map, length_flatMap_sectorsOf]
  have hmul : cs.length * g.clusterSectors * 2 ^ 7 ≤ cs.length * g.clusterSectors * g.sectorSize :=
    Nat.mul_le_mul_left _ hs
  rw [Nat.mul_assoc cs.length g.clusterSectors g.sectorSize, g.clusterSectors_mul] at hmul
  omega

/-- A stop with the bitmap locked leaves nothing to tidy up. -/
theorem Taken.tidy (h : Taken g e F C cs s) (hC : C * g.clusterSize ≤ 2 ^ 32)
    (hrem : s.clustersRemaining ≠ 0) (hlocked : s.lockedBitMap = true) :
    Tidy g e F cs s.clustersRemaining (unwindRun g s) := by
  rw [unwindRun, if_pos hlocked]
  refine ⟨h.nodup, h.free, h.length_mul_lt hC hrem, h.books, fun j hj => ?_, h.mcb hrem⟩
  rw [h.entry, chainEntry_of_notMem hj]

/-- A run that is not linked is given back. -/
theorem Reserved.tidy {c n r : ℕ} (h : Reserved g F cs c n r s) (hn : 0 < n)
    (hnodup : (cs ++ List.range' c n).Nodup) (hfree : ∀ x ∈ cs ++ List.range' c n, x ∈ F)
    (hlen : (cs.length + n) * g.clusterSize ≤ 2 ^ 32)
    (hentry : ∀ j ∉ cs, lookupEntry g.width s.vcb.vol.fat j = e j) :
    Tidy g e F cs r (unwindRun g s) := by
  have hsplit := List.nodup_append'.mp hnodup
  have hIco : ∀ x, x ∈ Finset.Ico c (c + n) ↔ x ∈ List.range' c n := by
    intro x
    rw [Finset.mem_Ico, List.mem_range'_1]
  have hbooks : Books g s.vcb ((F \ cs.toFinset) \ Finset.Ico c (c + n)) r := by
    rw [← sdiff_append_range']
    exact h.books
  have hback := hbooks.putBack hn h.inWindow Finset.sdiff_disjoint
  have hsub : Finset.Ico c (c + n) ⊆ F \ cs.toFinset := by
    intro x hx
    rw [hIco] at hx
    rw [Finset.mem_sdiff, List.mem_toFinset]
    exact ⟨hfree x (List.mem_append_right _ hx), fun hc => hsplit.2.2 hc hx⟩
  rw [Finset.sdiff_union_of_subset hsub] at hback
  have hpos := g.clusterSize_pos
  have hshort : cs.length * g.clusterSize < 2 ^ 32 := by
    have : cs.length * g.clusterSize < (cs.length + n) * g.clusterSize :=
      Nat.mul_lt_mul_of_pos_right (by omega) hpos
    omega
  rw [unwindRun, if_neg (by simp [h.unlocked])]
  refine ⟨hsplit.1, fun x hx => hfree x (List.mem_append_left _ hx), hshort, ?_, ?_, ?_⟩
  · dsimp only
    rw [h.window, h.cluster, h.clustersFound]
    exact hback
  · simpa using hentry
  · dsimp only
    rw [h.mcb, h.vbo, h.bytesFound]
    rw [Nat.add_mul] at hlen
    by_cases hmax : n * g.clusterSize = 2 ^ 32
    · have hcs : cs = [] := by
        have : cs.length * g.clusterSize = 0 := by omega
        exact List.length_eq_zero_iff.mp ((Nat.mul_eq_zero.mp this).resolve_right hpos.ne')
      rw [if_pos hmax, hmax, hcs]
      exact Runs.remove_all [] (Nat.zero_le _)
    · rw [if_neg hmax, ulong_of_lt (by omega)]
      exact fatRemoveMcbEntry_mcbOf _ _ _ _

/-- **The unwind** frees what the map holds: the table and the books are back, except
for the `r` clusters that stay off the total.  A fault that strikes only now leaves
the total as it is. -/
theorem sat_unwind {r : ℕ} (hg : g.Sound) (hF : ∀ c, c ∈ F ↔ c ∈ g.clusters ∧ e c = 0)
    (h : Tidy g e F cs r (unwindRun g s)) :
    Sat (unwind g) s
      (fun _ s' => Books g s'.vcb F r ∧ (∀ j, lookupEntry g.width s'.vcb.vol.fat j = e j) ∧
        s'.mcb = [])
      (fun _ s' => s.vcb.vol.io ≠ none ∧
        s'.vcb.numberOfFreeClusters + r + cs.length = F.card) := by
  have hvol : (unwindRun g s).vcb.vol = s.vcb.vol := by
    rw [unwindRun]
    split
    · rfl
    · simp
  have hmem : ∀ c ∈ cs, c ∈ g.clusters := fun c hc => ((hF c).mp (h.free c hc)).1
  have hclusters : runClusters (mcbRuns g (mcbOf g cs)) = cs := by
    rw [runClusters_mcbRuns hg hmem h.short.le, if_neg]
    intro hmax
    have := h.short
    omega
  rw [unwind]
  apply Sat.modify_bind
  apply Sat.get_bind
  generalize unwindRun g s = t at *
  rw [h.mcb]
  have hdealloc := h.books.sat_fatDeallocateDiskSpace
    (validRun_mcbRuns hg hmem h.short.le) (by rw [hclusters]; exact h.nodup)
    (by rw [hclusters]; exact Finset.sdiff_disjoint)
  rw [hclusters] at hdealloc
  have hsub : cs.toFinset ⊆ F := fun c hc => h.free c (List.mem_toFinset.mp hc)
  rw [Finset.sdiff_union_of_subset hsub] at hdealloc
  have hcard : t.vcb.numberOfFreeClusters + r + cs.length = F.card := by
    have htotal := h.books.total
    have hle := Finset.card_le_card hsub
    rw [Finset.card_sdiff_of_subset hsub] at htotal
    rw [List.toFinset_card_of_nodup h.nodup] at htotal hle
    omega
  apply Sat.bind (R := fun _ s' => Books g s'.vcb F r ∧
    (∀ j, lookupEntry g.width s'.vcb.vol.fat j = e j) ∧ s'.mcb = mcbOf g cs)
  · apply Sat.protect
    apply Sat.onPart
    refine hdealloc.mono ?_ fun stop v ⟨hio, htotal⟩ => ?_
    rotate_left
    · have hE : s.vcb.vol.io ≠ none ∧ v.numberOfFreeClusters + r + cs.length = F.card :=
        ⟨hvol ▸ hio, htotal ▸ hcard⟩
      split
      · exact Sat.modify hE
      · exact hE
    rintro _ v ⟨hbooks, hwrote⟩
    refine ⟨hbooks, fun j => ?_, h.mcb⟩
    rw [hwrote.entry]
    split
    · next hj => exact ((hF j).mp (h.free j hj)).2.symm
    · next hj => exact h.entry j hj
  · rintro _ s' ⟨hbooks, hentry, hmcb⟩
    refine Sat.modify ⟨hbooks, hentry, ?_⟩
    rw [hmcb]
    exact fatRemoveMcbEntry_all h.short.le

/-! ## A pass -/

/-- The bitmap is locked. -/
def lock (s : RunLoop) : RunLoop := { s with lockedBitMap := true }

/-- The search of the pass that begins in `s` finds all that remains. -/
def CompletesIn (g : Geometry) (exactMatchRequired : Bool) (s : RunLoop) : Prop :=
  ∃ t, search g exactMatchRequired s.lock = some t ∧ t.clustersFound = s.clustersRemaining

/-- A pass that takes the run found by the search `t`. -/
structure Takes (g : Geometry) (e : ℕ → ℕ) (F : Finset ℕ) (C : ℕ) (cs : List ℕ)
    (t s' : RunLoop) : Prop where
  found : t.clustersFound ≠ 0
  result : ∃ vol', s' = advance ((reserveFound g t).setVol vol') ∧
    (t.vcb.vol.io = none → vol'.io = none)
  taken : Taken g e F C (cs ++ List.range' (firstFound g t) t.clustersFound) s'

/-- A pass that goes to another window because the search `t` found nothing. -/
structure Switches (g : Geometry) (e : ℕ → ℕ) (F : Finset ℕ) (C : ℕ) (cs : List ℕ)
    (t s' : RunLoop) : Prop where
  found : t.clustersFound = 0
  many : 1 < g.numberOfWindows
  result : ∃ v hint, s' = { t with
      vcb := v, windowRelativeHint := hint, selectNextContigWindow := false } ∧
    0 < v.window.clustersFree ∧ SwitchedTo g t v hint ∧
    v.windows = t.vcb.windows ∧ (t.vcb.vol.io = none → v.vol.io = none)
  taken : Taken g e F C cs s'

/-- An exact-match request that is refused. -/
structure Refuses (g : Geometry) (e : ℕ → ℕ) (F : Finset ℕ) (C : ℕ) (cs : List ℕ)
    (s s' : RunLoop) : Prop where
  taken : Taken g e F C cs s'
  remaining : s'.clustersRemaining = s.clustersRemaining
  locked : s'.lockedBitMap = true

/-- A raise; `r` clusters are off the total that the unwind does not account for. -/
structure Raises (g : Geometry) (e : ℕ → ℕ) (F : Finset ℕ) (cs : List ℕ) (r : ℕ)
    (s s' : RunLoop) : Prop where
  tidy : Tidy g e F cs r (unwindRun g s')
  io : s.vcb.vol.io ≠ none
  io' : s'.vcb.vol.io = none

/-- **A pass of the run loop** takes a run, goes to another window, refuses an
exact-match request, raises, or crashes on a single window in which nothing was
found. -/
theorem Taken.sat_pass (h : Taken g e F C cs s) (exactMatchRequired : Bool)
    (hF : ∀ c, c ∈ F ↔ c ∈ g.clusters ∧ e c = 0) (hC : C * g.clusterSize ≤ 2 ^ 32)
    (hrem : s.clustersRemaining ≠ 0)
    (hlinks : 1 < g.numberOfWindows → g.numberOfClusters + 1 < 2 ^ g.width.linkBits) :
    Sat (pass g exactMatchRequired) s
      (fun b s' => if b then
          ∃ t, search g exactMatchRequired s.lock = some t ∧
            (Takes g e F C cs t s' ∨ Switches g e F C cs t s')
        else exactMatchRequired = true ∧ Refuses g e F C cs s s' ∧
          ¬ CompletesIn g exactMatchRequired s ∧
          ∀ t, search g exactMatchRequired s.lock = some t → t.clustersFound = 0 ∧ ¬ SelectsNext g t)
      (fun stop s' =>
        stop = .bugCheck 0 5 0 ∧ g.numberOfWindows = 1 ∧
            (∃ t, search g exactMatchRequired s.lock = some t ∧ t.clustersFound = 0) ∨
          stop = .raised .deviceError ∧ ∃ r, Raises g e F cs r s s' ∧
            (r = 0 ↔ CompletesIn g exactMatchRequired s)) := by
  have hFsub : F ⊆ g.clusters := fun c hc => ((hF c).mp hc).1
  have hlock : Taken g e F C cs s.lock := h.setLocked true
  rw [pass]
  apply Sat.modify_bind
  apply Sat.get_bind
  rw [show ({ s with lockedBitMap := true } : RunLoop) = s.lock from rfl]
  cases hsearch : search g exactMatchRequired s.lock with
  | none =>
      have hnot : ¬ CompletesIn g exactMatchRequired s := by
        rintro ⟨t, ht, -⟩
        rw [hsearch] at ht
        simp at ht
      apply Sat.modify_bind
      exact Sat.pure ⟨exact_of_search_eq_none hsearch,
        ⟨⟨h.nodup, h.free, h.remaining, h.books, h.entry, h.prior, h.vbo, h.mcb⟩, rfl, rfl⟩, hnot,
        by simp⟩
  | some t =>
      have hf := search_found hsearch
      have ht := hlock.found hf
      have hrem' : t.clustersRemaining = s.clustersRemaining := by rw [hf.rest]; rfl
      have hvcb : t.vcb = s.vcb := by rw [hf.rest]; rfl
      have hlocked : t.lockedBitMap = true := by rw [hf.rest]; rfl
      have hcompl : CompletesIn g exactMatchRequired s ↔
          t.clustersFound = s.clustersRemaining := by
        constructor
        · rintro ⟨t', ht', heq⟩
          rw [hsearch] at ht'
          rwa [Option.some.inj ht']
        · exact fun heq => ⟨t, hsearch, heq⟩
      apply Sat.set_bind
      by_cases hzero : t.clustersFound = 0
      · have hnot : ¬ CompletesIn g exactMatchRequired s := by
          rw [hcompl]
          omega
        rw [if_pos hzero]
        refine (ht.sat_switchWindow hF (by omega) hlinks).mono ?_ ?_
        · intro b s' hb
          cases b with
          | true =>
              obtain ⟨hmany, v, hint, heq, htaken, hrest⟩ := hb
              exact ⟨t, rfl, Or.inr ⟨hzero, hmany, ⟨v, hint, heq, hrest⟩, htaken⟩⟩
          | false =>
              obtain ⟨hex, rfl, hsel⟩ := hb
              refine ⟨hex, ⟨ht, hrem', hlocked⟩, hnot, fun t' ht' => ?_⟩
              rw [← Option.some.inj ht']
              exact ⟨hzero, hsel⟩
        · intro stop s' hstop
          rcases hstop with ⟨hbug, hone⟩ | ⟨hraise, hio, hio', htaken, hrem'', hlock'⟩
          · exact Or.inl ⟨hbug, hone, t, rfl, hzero⟩
          · refine Or.inr ⟨hraise, s'.clustersRemaining, ⟨?_, hvcb ▸ hio, hio'⟩, ?_⟩
            · exact htaken.tidy hC (by omega) (hlock'.trans hlocked)
            · constructor
              · intro hr
                omega
              · exact fun hc => absurd hc hnot
      · have hle : t.clustersFound ≤ t.clustersRemaining := by
          have := hf.le
          change t.clustersFound ≤ s.clustersRemaining at this
          omega
        have hclear : t.vcb.freeClusterBitMap.ClearAt t.index t.clustersFound := by
          rw [hvcb]
          exact hf.clear hzero
        rw [if_neg hzero]
        apply Sat.bind ((ht.sat_takeFound hzero hle hclear hFsub hC).mono (fun _ _ h => h) ?_)
        · rintro _ s' ⟨vol', heq, htaken, hio⟩
          exact Sat.pure ⟨t, rfl, Or.inl ⟨hzero, ⟨vol', heq, hio⟩, htaken⟩⟩
        · rintro stop s' ⟨hraise, hio, hio', hentry, hres⟩
          refine Or.inr ⟨hraise, _, ⟨hres.tidy (Nat.pos_of_ne_zero hzero)
            (ht.nodup_found hclear) (ht.free_found hclear) ?_ hentry, hvcb ▸ hio, hio'⟩, ?_⟩
          · have hsum := ht.remaining
            exact (Nat.mul_le_mul_right _ (by omega)).trans hC
          · rw [hcompl]
            omega

/-! ## The loop -/

/-- The state in which the pass begins that ends the loop early. -/
def failingPass (g : Geometry) (exactMatchRequired : Bool) : ℕ → RunLoop → Option RunLoop
  | 0, _ => none
  | fuel + 1, s =>
      if s.clustersRemaining = 0 then none
      else
        match pass g exactMatchRequired s with
        | .ok true s' => failingPass g exactMatchRequired fuel s'
        | _ => some s

/-- The map is exact from now on: the request is below 4 GB, or not in one piece. -/
def Mapped (g : Geometry) (C : ℕ) (cs : List ℕ) (s : RunLoop) : Prop :=
  s.mcb = mcbOf g cs ∧ (cs ≠ [] ∨ C * g.clusterSize < 2 ^ 32)

/-- Taking a run keeps the map exact. -/
theorem Takes.mapped {t s' : RunLoop} (h : Takes g e F C cs t s') (ht : Taken g e F C cs t)
    (hle : t.clustersFound ≤ t.clustersRemaining)
    (hclear : t.vcb.freeClusterBitMap.ClearAt t.index t.clustersFound)
    (hC : C * g.clusterSize ≤ 2 ^ 32) (hlt : t.clustersFound * g.clusterSize < 2 ^ 32) :
    Mapped g C (cs ++ List.range' (firstFound g t) t.clustersFound) s' := by
  obtain ⟨vol', heq, -⟩ := h.result
  have hres := ht.reserved_reserveFound h.found hle hclear hC
  constructor
  · have hmcb := hres.mcb
    rw [if_neg hlt.ne] at hmcb
    rw [heq, ← hmcb]
    rfl
  · left
    intro hnil
    have := (List.append_eq_nil_iff.mp hnil).2
    rw [List.range'_eq_nil_iff] at this
    exact h.found this

section Unfold

variable {exactMatchRequired : Bool} {s' : RunLoop}

theorem loop_of_zero (fuel : ℕ) (hz : s.clustersRemaining = 0) :
    loop g exactMatchRequired fuel s = .ok true s := by
  cases fuel with
  | zero =>
      rw [loop, get_bind_run, if_pos hz]
      rfl
  | succ fuel =>
      rw [loop, get_bind_run, if_pos hz]
      rfl

/-- One pass of the loop. -/
theorem loop_succ (exactMatchRequired : Bool) (fuel : ℕ) (hz : s.clustersRemaining ≠ 0) :
    loop g exactMatchRequired (fuel + 1) s =
      match pass g exactMatchRequired s with
      | .ok true s' => loop g exactMatchRequired fuel s'
      | .ok false s' => .ok false s'
      | .error stop s' => .error stop s' := by
  rw [loop, get_bind_run, if_neg hz]
  change EStateM.bind _ _ s = _
  rw [EStateM.bind]
  cases pass g exactMatchRequired s with
  | ok b s' => cases b <;> rfl
  | error stop s' => rfl

theorem failingPass_succ (fuel : ℕ) (hz : s.clustersRemaining ≠ 0) :
    failingPass g exactMatchRequired (fuel + 1) s =
      match pass g exactMatchRequired s with
      | .ok true s' => failingPass g exactMatchRequired fuel s'
      | _ => some s := by
  rw [failingPass, if_neg hz]

end Unfold

/-- Taking a run behind others, or one below 4 GB, keeps the map exact. -/
theorem Taken.mapped_takes {exactMatchRequired : Bool} {t s' : RunLoop} (h : Taken g e F C cs s)
    (hC : C * g.clusterSize ≤ 2 ^ 32) (hsearch : search g exactMatchRequired s.lock = some t)
    (htakes : Takes g e F C cs t s') (hm : Mapped g C cs s) :
    Mapped g C (cs ++ List.range' (firstFound g t) t.clustersFound) s' := by
  have hf := search_found hsearch
  have ht : Taken g e F C cs t := (h.setLocked true).found hf
  have hvcb : t.vcb = s.vcb := by rw [hf.rest]; rfl
  have hle : t.clustersFound ≤ t.clustersRemaining := by
    have := hf.le
    rw [hf.rest]
    exact this
  have hclear : t.vcb.freeClusterBitMap.ClearAt t.index t.clustersFound := by
    rw [hvcb]
    exact hf.clear htakes.found
  apply htakes.mapped ht hle hclear hC
  have hsum := ht.remaining
  have hpos := g.clusterSize_pos
  rcases hm.2 with hne | hlt
  · have hlen := List.length_pos_of_ne_nil hne
    have : t.clustersFound * g.clusterSize < C * g.clusterSize :=
      Nat.mul_lt_mul_of_pos_right (by omega) hpos
    omega
  · have : t.clustersFound * g.clusterSize ≤ C * g.clusterSize :=
      Nat.mul_le_mul_right _ (by omega)
    omega

/-- What a pass leaves is again in the invariant, with some clusters more. -/
theorem Taken.after_pass {exactMatchRequired : Bool} {t s' : RunLoop} (h : Taken g e F C cs s)
    (hC : C * g.clusterSize ≤ 2 ^ 32) (hsearch : search g exactMatchRequired s.lock = some t)
    (hpass : Takes g e F C cs t s' ∨ Switches g e F C cs t s') :
    ∃ ds, Taken g e F C ds s' ∧ cs <+: ds ∧ (Mapped g C cs s → Mapped g C ds s') ∧
      (s.vcb.vol.io = none → s'.vcb.vol.io = none) := by
  have hf := search_found hsearch
  have hvcb : t.vcb = s.vcb := by rw [hf.rest]; rfl
  rcases hpass with htakes | hswitch
  · obtain ⟨vol', heq, hio⟩ := htakes.result
    refine ⟨_, htakes.taken, List.prefix_append _ _, h.mapped_takes hC hsearch htakes,
      fun hnone => ?_⟩
    rw [heq]
    exact hio (hvcb ▸ hnone)
  · obtain ⟨v, hint, heq, -, -, -, hio⟩ := hswitch.result
    refine ⟨cs, hswitch.taken, List.prefix_rfl, fun hm => ⟨?_, hm.2⟩, fun hnone => ?_⟩
    · have hmcb : t.mcb = s.mcb := by rw [hf.rest]; rfl
      rw [heq]
      exact hmcb.trans hm.1
    · rw [heq]
      exact hio (hvcb ▸ hnone)

theorem Taken.io_after_pass {exactMatchRequired : Bool} {t s' : RunLoop} (h : Taken g e F C cs s)
    (hC : C * g.clusterSize ≤ 2 ^ 32) (hsearch : search g exactMatchRequired s.lock = some t)
    (hpass : Takes g e F C cs t s' ∨ Switches g e F C cs t s') (hio : s.vcb.vol.io = none) :
    s'.vcb.vol.io = none := by
  obtain ⟨_, _, _, _, hio'⟩ := h.after_pass hC hsearch hpass
  exact hio' hio

/-- **The run loop.**  When it completes, all `C` clusters are taken. -/
theorem Taken.sat_loop (h : Taken g e F C cs s) (exactMatchRequired : Bool) (fuel : ℕ)
    (hF : ∀ c, c ∈ F ↔ c ∈ g.clusters ∧ e c = 0) (hC : C * g.clusterSize ≤ 2 ^ 32)
    (hlinks : 1 < g.numberOfWindows → g.numberOfClusters + 1 < 2 ^ g.width.linkBits) :
    Sat (loop g exactMatchRequired fuel) s
      (fun b s' => if b then
          s'.clustersRemaining = 0 ∧ ∃ ds, Taken g e F C ds s' ∧ cs <+: ds ∧
            (Mapped g C cs s → s'.mcb = mcbOf g ds) ∧
            (s.vcb.vol.io = none → s'.vcb.vol.io = none)
        else exactMatchRequired = true ∧ ∃ ds t, failingPass g exactMatchRequired fuel s = some t ∧
          t.clustersRemaining ≠ 0 ∧ Refuses g e F C ds t s' ∧
          ¬ CompletesIn g exactMatchRequired t)
      (fun stop s' => stop.isRaised = true → stop = .raised .deviceError ∧
        ∃ ds t r, failingPass g exactMatchRequired fuel s = some t ∧ Raises g e F ds r t s' ∧
          (r = 0 ↔ CompletesIn g exactMatchRequired t) ∧ (s.vcb.vol.io = none → False)) := by
  have hdone : s.clustersRemaining = 0 → loop g exactMatchRequired fuel s = .ok true s :=
    loop_of_zero fuel
  induction fuel generalizing cs s with
  | zero =>
      by_cases hz : s.clustersRemaining = 0
      · exact Sat.of_ok (hdone hz) ⟨hz, cs, h, List.prefix_rfl, fun hm => hm.1, fun hio => hio⟩
      · rw [loop]
        apply Sat.get_bind
        rw [if_neg hz]
        exact Sat.throw fun hr => by simp [Stop.isRaised] at hr
  | succ fuel ih =>
      by_cases hz : s.clustersRemaining = 0
      · exact Sat.of_ok (hdone hz) ⟨hz, cs, h, List.prefix_rfl, fun hm => hm.1, fun hio => hio⟩
      have hpass := h.sat_pass exactMatchRequired hF hC hz hlinks
      have hloop := loop_succ (g := g) exactMatchRequired fuel hz
      rw [failingPass_succ fuel hz]
      cases hrun : pass g exactMatchRequired s with
      | error stop s' =>
          rw [hrun] at hloop
          refine Sat.of_error hloop fun hr => ?_
          rcases hpass.error hrun with ⟨hbug, -⟩ | ⟨hraise, r, hraises, hiff⟩
          · rw [hbug] at hr
            simp [Stop.isRaised] at hr
          · exact ⟨hraise, cs, s, r, rfl, hraises, hiff, hraises.io⟩
      | ok b s' =>
          have hb := hpass.ok hrun
          rw [hrun] at hloop
          cases b with
          | false =>
              obtain ⟨hex, href, hnot, -⟩ := hb
              exact Sat.of_ok hloop ⟨hex, cs, s, rfl, hz, href, hnot⟩
          | true =>
              obtain ⟨t, hsearch, hstep⟩ := hb
              obtain ⟨ds, htaken, hpre, hmap, hio⟩ := h.after_pass hC hsearch hstep
              refine Sat.of_eq hloop ((ih htaken (loop_of_zero fuel)).mono ?_ ?_)
              · intro b s'' hb
                cases b with
                | true =>
                    obtain ⟨hrem, ds', htaken', hpre', hmap', hio'⟩ := hb
                    exact ⟨hrem, ds', htaken', hpre.trans hpre', fun hm => hmap' (hmap hm),
                      fun hnone => hio' (hio hnone)⟩
                | false => exact hb
              · intro stop s'' hstop hr
                obtain ⟨hraise, ds', t', r, hfail, hraises, hiff, hnone'⟩ := hstop hr
                exact ⟨hraise, ds', t', r, hfail, hraises, hiff, fun hnone => hnone' (hio hnone)⟩

end RunLoop

end KernelDrivers.Fat
