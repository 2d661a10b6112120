import KernelDrivers.Fat.Scan

/-!
# Free-space books

The volume's free space is kept in three places: the FAT, the bitmap of the
current window, and two levels of counters.  `Books g v F r` says that the bitmap
and the counters describe the set `F` of free clusters, with `r` clusters already
taken off the volume's total for a request in progress.  That `F` is the set of
zero entries of the FAT is a separate statement, because the code updates the two
sides at different times.

The lemmas of this module say what each elementary operation does to the books:
taking a run, giving one back, switching windows, mounting.

## Main definitions

* `zeroSet` — the clusters with a zero entry.
* `Books` — what the bitmap and the counters describe.
-/

namespace KernelDrivers.Fat

/-- The clusters whose entry is zero. -/
def zeroSet (g : Geometry) (fat : Bytes) : Finset ℕ :=
  g.clusters.filter fun c => lookupEntry g.width fat c = 0

/-- The bitmap and the counters describe the free clusters `F`; `r` clusters are
taken off the total in advance. -/
structure Books (g : Geometry) (v : Vcb) (F : Finset ℕ) (r : ℕ) : Prop where
  subset : F ⊆ g.clusters
  current : v.currentWindow < g.numberOfWindows
  first : ∀ i < g.numberOfWindows, (v.windows i).firstCluster = g.firstOf i
  last : ∀ i < g.numberOfWindows, (v.windows i).lastCluster + 1 = g.endOf i
  size : v.freeClusterBitMap.size = g.endOf v.currentWindow - g.firstOf v.currentWindow
  bit : ∀ j < v.freeClusterBitMap.size,
    (v.freeClusterBitMap.bit j = false ↔ g.firstOf v.currentWindow + j ∈ F)
  free : ∀ i < g.numberOfWindows, (v.windows i).clustersFree = (F ∩ g.window i).card
  total : v.numberOfFreeClusters + r = F.card
  hint : ∀ h, v.clusterHint = some h → 2 ≤ h ∧ h < max v.freeClusterBitMap.size 1 + 2

variable {g : Geometry} {v : Vcb} {F : Finset ℕ} {r : ℕ}

theorem zeroSet_subset (fat : Bytes) : zeroSet g fat ⊆ g.clusters := Finset.filter_subset _ _

theorem mem_zeroSet {fat : Bytes} {c : ℕ} :
    c ∈ zeroSet g fat ↔ (2 ≤ c ∧ c < g.numberOfClusters + 2) ∧ lookupEntry g.width fat c = 0 := by
  rw [zeroSet, Finset.mem_filter, Geometry.mem_clusters]

theorem zeroSet_congr {fat fat' : Bytes}
    (h : ∀ j, lookupEntry g.width fat' j = lookupEntry g.width fat j) :
    zeroSet g fat' = zeroSet g fat := by
  ext c
  rw [mem_zeroSet, mem_zeroSet, h]

/-- Counting the zero entries of a window. -/
theorem zeros_window (fat : Bytes) (i : ℕ) :
    zeros (lookupEntry g.width fat) (g.firstOf i) (g.endOf i) =
      (zeroSet g fat ∩ g.window i).card := by
  rw [zeros, zeroSet, Finset.filter_inter, ← Geometry.window]
  congr 2
  exact (Finset.inter_eq_right.mpr (g.window_subset i)).symm

theorem zeros_clusters (fat : Bytes) :
    zeros (lookupEntry g.width fat) 2 (g.numberOfClusters + 2) = (zeroSet g fat).card := rfl

/-- A change of the volume alone keeps the books. -/
theorem Books.setVol (h : Books g v F r) (vol : Volume) : Books g { v with vol := vol } F r :=
  ⟨h.subset, h.current, h.first, h.last, h.size, h.bit, h.free, h.total, h.hint⟩

/-- The cluster of bit `j` lies in the current window. -/
theorem Books.mem_window (h : Books g v F r) {c : ℕ} :
    c ∈ g.window v.currentWindow ↔ ∃ j < v.freeClusterBitMap.size,
      c = g.firstOf v.currentWindow + j := by
  have hle := Geometry.firstOf_le_endOf h.current
  rw [Geometry.mem_window, h.size]
  constructor
  · intro hc
    exact ⟨c - g.firstOf v.currentWindow, by omega, by omega⟩
  · rintro ⟨j, hj, hcj⟩
    omega

/-- A clear run of the bitmap is a run of free clusters of the current window. -/
theorem Books.clearAt_iff (h : Books g v F r) {i n : ℕ} :
    v.freeClusterBitMap.ClearAt i n ↔ i + n ≤ v.freeClusterBitMap.size ∧
      Finset.Ico (g.firstOf v.currentWindow + i) (g.firstOf v.currentWindow + i + n) ⊆ F := by
  rw [Bitmap.clearAt_iff]
  refine and_congr_right fun hsize => ⟨fun hclear c hc => ?_, fun hsub j hj hjn => ?_⟩
  · rw [Finset.mem_Ico] at hc
    have hbit := hclear (c - g.firstOf v.currentWindow) (by omega) (by omega)
    rw [h.bit _ (by omega)] at hbit
    rwa [Nat.add_sub_cancel' (by omega)] at hbit
  · rw [h.bit j (by omega)]
    exact hsub (Finset.mem_Ico.mpr (by omega))

/-! ## Taking a run -/

theorem Books.free_lt (h : Books g v F r) {i : ℕ} (hi : i < g.numberOfWindows) :
    (v.windows i).clustersFree < 2 ^ 32 := by
  have hsub : F ∩ g.window i ⊆ g.clusters := Finset.inter_subset_left.trans h.subset
  have hcard := Finset.card_le_card hsub
  have hN := g.numberOfClusters_lt
  rw [h.free i hi]
  rw [Geometry.clusters, Nat.card_Ico] at hcard
  omega

theorem hintFrom_mem {b : Bitmap} (hsize : 0 < b.size) (c : ℕ) :
    2 ≤ hintFrom b c ∧ hintFrom b c < b.size + 2 := by
  rw [hintFrom]
  split
  · next i hi =>
      have := (Bitmap.clearAt_of_findClearBits hi).1
      omega
  · omega

/-- The hint that `FatReserveClusters` leaves is inside the window. -/
theorem fatReserveClusters_hint {index count : ℕ} (hsize : 0 < v.freeClusterBitMap.size) {h : ℕ}
    (hh : (fatReserveClusters v (index + 2) count).clusterHint = some h) :
    2 ≤ h ∧ h < v.freeClusterBitMap.size + 2 := by
  have hmem : ∀ c, 2 ≤ c → c < v.freeClusterBitMap.size + 2 →
      2 ≤ hintAfter (v.freeClusterBitMap.setBits (index + 2 - 2) count) c ∧
        hintAfter (v.freeClusterBitMap.setBits (index + 2 - 2) count) c <
          v.freeClusterBitMap.size + 2 := by
    intro c h2 hc
    rw [hintAfter]
    split
    · exact hintFrom_mem (b := v.freeClusterBitMap.setBits (index + 2 - 2) count) hsize c
    · exact ⟨h2, hc⟩
  rw [← Option.some.inj hh]
  split
  · exact hmem 2 le_rfl (by omega)
  · exact hmem _ (by omega) (by omega)

/-- The clusters of a run that starts at bit `index` of the current window. -/
def Vcb.run (g : Geometry) (v : Vcb) (index count : ℕ) : Finset ℕ :=
  Finset.Ico (g.firstOf v.currentWindow + index) (g.firstOf v.currentWindow + index + count)

theorem Books.run_subset (h : Books g v F r) {index count : ℕ}
    (hclear : v.freeClusterBitMap.ClearAt index count) :
    v.run g index count ⊆ F ∩ g.window v.currentWindow := by
  obtain ⟨hsize, hsub⟩ := h.clearAt_iff.mp hclear
  intro c hc
  refine Finset.mem_inter.mpr ⟨hsub hc, h.mem_window.mpr ?_⟩
  rw [Vcb.run, Finset.mem_Ico] at hc
  exact ⟨c - g.firstOf v.currentWindow, by omega, by omega⟩

/-- Clusters of one window leave the other windows' sets alone. -/
theorem inter_window_of_ne {R : Finset ℕ} {i k : ℕ} (hi : i < g.numberOfWindows)
    (hk : k < g.numberOfWindows) (hne : k ≠ i) (hR : R ⊆ g.window i) : R ∩ g.window k = ∅ := by
  rw [Finset.eq_empty_iff_forall_notMem]
  intro c hc
  rw [Finset.mem_inter] at hc
  exact hne ((Geometry.windowOf_eq hk hc.2).symm.trans (Geometry.windowOf_eq hi (hR hc.1)))

/-- **Taking a run** of clear bits takes its clusters out of the free set. -/
theorem Books.takeRun {index count : ℕ} (h : Books g v F (r + count))
    (hclear : v.freeClusterBitMap.ClearAt index count) (hcount : 0 < count) :
    Books g (takeRun v index count) (F \ v.run g index count) r := by
  have hsub := h.run_subset hclear
  have hsize : 0 < v.freeClusterBitMap.size := by have := hclear.1; omega
  have hcard : (v.run g index count).card = count := by simp [Vcb.run]
  have hbit : ∀ j, j < v.freeClusterBitMap.size →
      ((v.freeClusterBitMap.setBits index count).bit j = false ↔
        g.firstOf v.currentWindow + j ∈ F \ v.run g index count) := by
    intro j hj
    rw [Bitmap.bit_setBits, Finset.mem_sdiff, Vcb.run, Finset.mem_Ico]
    split
    · simp only [Bool.true_eq_false, false_iff, not_and]
      omega
    · rw [h.bit j hj]
      exact ⟨fun hF => ⟨hF, by omega⟩, fun hF => hF.1⟩
  refine ⟨Finset.sdiff_subset.trans h.subset, h.current, fun i hi => ?_, fun i hi => ?_, h.size,
    hbit, fun i hi => ?_, ?_, fun hint hh => ?_⟩
  · rw [Fat.takeRun, Vcb.firstCluster_setFree]
    exact h.first i hi
  · rw [Fat.takeRun, Vcb.lastCluster_setFree]
    exact h.last i hi
  · by_cases hiw : i = v.currentWindow
    · have hle : count ≤ (F ∩ g.window v.currentWindow).card :=
        hcard ▸ Finset.card_le_card hsub
      subst hiw
      rw [Fat.takeRun, Vcb.clustersFree_setFree_self, Vcb.window,
        ulongSub_of_le (h.free_lt hi) (by rw [h.free _ hi]; exact hle), h.free _ hi,
        Finset.sdiff_inter_right_comm, Finset.card_sdiff_of_subset hsub, hcard]
    · have hempty : v.run g index count ∩ g.window i = ∅ :=
        inter_window_of_ne h.current hi hiw (hsub.trans Finset.inter_subset_right)
      rw [Fat.takeRun, Vcb.windows_setFree_of_ne _ _ hiw]
      refine (h.free i hi).trans ?_
      rw [Finset.sdiff_inter_right_comm, Finset.sdiff_eq_self_of_disjoint]
      rw [Finset.disjoint_iff_inter_eq_empty, Finset.inter_right_comm, Finset.inter_assoc, hempty,
        Finset.inter_empty]
  · have htotal := h.total
    rw [Finset.card_sdiff_of_subset (hsub.trans Finset.inter_subset_left), hcard]
    change v.numberOfFreeClusters + r = _
    omega
  · have := fatReserveClusters_hint hsize hh
    change 2 ≤ hint ∧ hint < max v.freeClusterBitMap.size 1 + 2
    omega

/-! ## Giving clusters back -/

/-- The changes that add the clusters `R` to the books. -/
structure Vcb.Gives (g : Geometry) (v v' : Vcb) (R : Finset ℕ) : Prop where
  current : v'.currentWindow = v.currentWindow
  first : ∀ i, (v'.windows i).firstCluster = (v.windows i).firstCluster
  last : ∀ i, (v'.windows i).lastCluster = (v.windows i).lastCluster
  size : v'.freeClusterBitMap.size = v.freeClusterBitMap.size
  bit : ∀ j < v.freeClusterBitMap.size, (v'.freeClusterBitMap.bit j = false ↔
    v.freeClusterBitMap.bit j = false ∨ g.firstOf v.currentWindow + j ∈ R)
  free : ∀ i < g.numberOfWindows, (v'.windows i).clustersFree =
    ulong ((v.windows i).clustersFree + (R ∩ g.window i).card)
  total : v'.numberOfFreeClusters = ulong (v.numberOfFreeClusters + R.card)
  hint : ∀ h, v'.clusterHint = some h →
    v.clusterHint = some h ∨ 2 ≤ h ∧ h < v.freeClusterBitMap.size + 2

theorem card_lt (hF : F ⊆ g.clusters) : F.card < 2 ^ 32 := by
  have hcard := Finset.card_le_card hF
  have hN := g.numberOfClusters_lt
  rw [Geometry.clusters, Nat.card_Ico] at hcard
  omega

/-- **Giving clusters back** that are not free adds them to the free set. -/
theorem Books.gives {v' : Vcb} {R : Finset ℕ} (h : Books g v F r) (hR : R ⊆ g.clusters)
    (hdis : Disjoint F R) (hgives : v.Gives g v' R) : Books g v' (F ∪ R) r := by
  have hsub : F ∪ R ⊆ g.clusters := Finset.union_subset h.subset hR
  refine ⟨hsub, hgives.current ▸ h.current, fun i hi => ?_, fun i hi => ?_, ?_, fun j hj => ?_,
    fun i hi => ?_, ?_, fun hint hh => ?_⟩
  · rw [hgives.first, h.first i hi]
  · rw [hgives.last, h.last i hi]
  · rw [hgives.size, hgives.current, h.size]
  · rw [hgives.size] at hj
    rw [hgives.bit j hj, h.bit j hj, hgives.current, Finset.mem_union]
  · have hcard : ((F ∪ R) ∩ g.window i).card =
        (F ∩ g.window i).card + (R ∩ g.window i).card := by
      rw [Finset.union_inter_distrib_right, Finset.card_union_of_disjoint]
      exact hdis.mono Finset.inter_subset_left Finset.inter_subset_left
    have hlt := card_lt (F := (F ∪ R) ∩ g.window i) (Finset.inter_subset_left.trans hsub)
    rw [hgives.free i hi, h.free i hi, ← hcard, ulong_of_lt hlt]
  · have hcard := Finset.card_union_of_disjoint hdis
    have hlt := card_lt hsub
    have htotal := h.total
    rw [hgives.total, ulong_of_lt (by omega)]
    omega
  · rw [hgives.size]
    rcases hgives.hint hint hh with hold | hnew
    · exact h.hint hint hold
    · omega

/-- The hint that `FatUnreserveClusters` leaves is the old one or the run's start. -/
theorem fatUnreserveClusters_hint {index count h : ℕ}
    (hh : (fatUnreserveClusters v index count).clusterHint = some h) :
    v.clusterHint = some h ∨ h = index := by
  rw [fatUnreserveClusters] at hh
  dsimp only at hh
  split at hh
  · next h' hv =>
      split at hh
      · exact Or.inr (Option.some.inj hh).symm
      · exact Or.inl (hv.trans hh)
  · exact Or.inr (Option.some.inj hh).symm

/-- The unwinds give a run of the current window back. -/
theorem Books.putBack {cluster count : ℕ} (h : Books g v F r) (hcount : 0 < count)
    (hR : Finset.Ico cluster (cluster + count) ⊆ g.window v.currentWindow)
    (hdis : Disjoint F (Finset.Ico cluster (cluster + count))) :
    Books g (putBack v v.currentWindow cluster count)
      (F ∪ Finset.Ico cluster (cluster + count)) r := by
  have hfirst := h.first _ h.current
  have hlo := Geometry.mem_window.mp (hR (Finset.mem_Ico.mpr ⟨le_rfl, by omega⟩))
  have hhi := Geometry.mem_window.mp
    (hR (Finset.mem_Ico.mpr (show cluster ≤ cluster + count - 1 ∧ _ by omega)))
  refine h.gives (hR.trans (g.window_subset _)) hdis ⟨?_, fun i => ?_, fun i => ?_, ?_,
    fun j hj => ?_, fun i hi => ?_, ?_, fun hint hh => ?_⟩
  · simp [Fat.putBack, fatUnreserveClusters, Vcb.setFree]
  · simp [Fat.putBack, fatUnreserveClusters]
  · simp [Fat.putBack, fatUnreserveClusters]
  · simp [Fat.putBack, fatUnreserveClusters, Vcb.setFree]
  · simp only [Fat.putBack, if_true, fatUnreserveClusters, Vcb.setFree, hfirst,
      Nat.add_sub_cancel, Bitmap.bit_clearBits, Finset.mem_Ico]
    split
    · simp only [true_iff]
      right
      omega
    · rw [or_iff_left (by omega)]
  · by_cases hiw : i = v.currentWindow
    · subst hiw
      rw [Finset.inter_eq_left.mpr hR, Nat.card_Ico, Nat.add_sub_cancel_left]
      simp [Fat.putBack, fatUnreserveClusters, Vcb.setFree]
    · rw [inter_window_of_ne h.current hi hiw hR, Finset.card_empty, Nat.add_zero,
        ulong_of_lt (h.free_lt hi)]
      simp [Fat.putBack, fatUnreserveClusters, Vcb.setFree, hiw]
  · simp [Fat.putBack, fatUnreserveClusters, Vcb.setFree]
  · simp only [Fat.putBack, if_true, Vcb.setFree] at hh
    refine (fatUnreserveClusters_hint hh).imp_right fun heq => ?_
    have hsize := h.size
    omega

/-! ## Switching windows and mounting -/

theorem Geometry.firstOf_mod_of_many (hmany : 1 < g.numberOfWindows) (i : ℕ) :
    g.firstOf i % 8 = 2 := by
  rw [Geometry.firstOf, Geometry.entriesPerWindow_of_many hmany, maxClusterBitmapSize]
  omega

/-- The bounds and the counts of the windows are those of the free set `F`. -/
structure WindowsOf (g : Geometry) (windows : ℕ → FatWindow) (F : Finset ℕ) : Prop where
  first : ∀ i < g.numberOfWindows, (windows i).firstCluster = g.firstOf i
  last : ∀ i < g.numberOfWindows, (windows i).lastCluster + 1 = g.endOf i
  free : ∀ i < g.numberOfWindows, (windows i).clustersFree = (F ∩ g.window i).card

theorem Books.windowsOf (h : Books g v F r) : WindowsOf g v.windows F := ⟨h.first, h.last, h.free⟩

/-- **Switching to window `i`** when the FAT and the counters agree.  Only the bitmap,
the current window and the hint change; a raise changes nothing. -/
theorem sat_fatExamineFatEntries {i : ℕ} (h : WindowsOf g v.windows F)
    (htotal : v.numberOfFreeClusters + r = F.card) (hmany : 1 < g.numberOfWindows)
    (hi : i < g.numberOfWindows) (hzero : zeroSet g v.vol.fat = F) :
    Sat (fatExamineFatEntries g i) v
      (fun _ v' => Books g v' F r ∧ v'.currentWindow = i ∧ v'.windows = v.windows ∧
        v'.clusterHint = none ∧ v'.vol.fat = v.vol.fat ∧ (v.vol.io = none → v'.vol.io = none))
      (fun s v' => s = .raised .deviceError ∧ ∃ vol', v' = { v with vol := vol' } ∧
        v.vol.Faulted vol' g.width) := by
  have hw32 := (Geometry.one_lt_numberOfWindows_iff.mp hmany).1
  rw [fatExamineFatEntries]
  apply Sat.bind (R := fun _ v' => ∃ vol', v' = { v with vol := vol' } ∧ vol'.fat = v.vol.fat ∧
    (v.vol.io = none → vol'.io = none))
  · apply Sat.onPart
    refine sat_access.mono (fun _ t ht => ⟨t, rfl, ht⟩) ?_
    intro e t ht
    exact ⟨ht.1, t, rfl, fun j => by rw [ht.2.1], ht.2.2.1, ht.2.2.2⟩
  · rintro _ _ ⟨vol', rfl, hfat, hio⟩
    have hcounting : (!(g.width = .fat32 ∧ 1 < g.numberOfWindows : Bool)) = false := by
      simp [hw32, hmany]
    have hspec := scanEntries_spec (g := g) v.vol.fat
      (m := ⟨(v.windows i).firstCluster, (v.windows i).lastCluster, false, false⟩)
      { v with vol := vol' } i rfl
      (by have := Geometry.firstOf_le_endOf hi; rw [h.first i hi, h.last i hi]; exact this)
      (fun h16 => absurd (h16.symm.trans hw32) (by simp))
      (fun _ => by rw [h.first i hi]; exact Geometry.firstOf_mod_of_many hmany i)
    obtain ⟨hsize, hbit, -, -⟩ := hspec
    apply Sat.modify
    simp only [hcounting, hfat, Bool.false_eq_true, if_false, true_and]
    generalize scanEntries g v.vol.fat _ _ i = s at *
    simp only [h.last i hi, h.first i hi] at hsize hbit
    refine ⟨⟨hzero ▸ zeroSet_subset _, hi, h.first, h.last, hsize, fun j hj => ?_, h.free, htotal,
      by simp⟩, hio⟩
    rw [hsize] at hj
    dsimp only at hj ⊢
    rw [hbit j hj, ← hzero, mem_zeroSet, and_iff_right]
    have := g.endOf_le i
    have := g.two_le_firstOf i
    omega

/-- The loop of `FatSelectBestWindow` ends on a window with free clusters if it meets
one or starts on one. -/
theorem selectLoop_spec (free : ℕ → ℕ) {P : ℕ → Prop} (is : List ℕ) {fave : ℕ}
    (maxFree : ℕ) (firstEmpty : Option ℕ) (his : ∀ i ∈ is, P i) (hfave : P fave)
    (hmax : 0 < maxFree → free fave = maxFree)
    (hempty : ∀ i, firstEmpty = some i → P i ∧ free i = maxClusterBitmapSize) :
    let s := selectLoop free is fave maxFree firstEmpty
    P s.1 ∧ (0 < s.2.1 → free s.1 = s.2.1) ∧
      (∀ i, s.2.2 = some i → P i ∧ free i = maxClusterBitmapSize) ∧
      (s.2.2 = none → s.2.1 = 0 → firstEmpty = none ∧ maxFree = 0 ∧ ∀ i ∈ is, free i = 0) := by
  induction is generalizing fave maxFree firstEmpty with
  | nil =>
      simp only [selectLoop]
      exact ⟨hfave, hmax, hempty, fun h1 h2 => ⟨h1, h2, by simp⟩⟩
  | cons i is ih =>
      have hi : P i := his i (by simp)
      have his' : ∀ k ∈ is, P k := fun k hk => his k (by simp [hk])
      have hcap : 0 < maxClusterBitmapSize := by norm_num [maxClusterBitmapSize]
      simp only [selectLoop]
      split
      · next hfull =>
          have hor : ∀ k, firstEmpty.or (some i) = some k →
              P k ∧ free k = maxClusterBitmapSize := by
            intro k hk
            rcases Option.or_eq_some_iff.mp hk with hk | ⟨-, hk⟩
            · exact hempty k hk
            · rw [← Option.some.inj hk]
              exact ⟨hi, hfull⟩
          obtain ⟨h1, h2, h3, h4⟩ := ih _ _ his' hfave hmax hor
          refine ⟨h1, h2, h3, fun hn hz => ?_⟩
          have := (h4 hn hz).1
          rw [Option.or_eq_none_iff] at this
          exact absurd this.2 (by simp)
      · split
        · next hlt =>
            split
            · exact ⟨hi, fun _ => rfl, hempty, fun _ hz => by dsimp only at hz; omega⟩
            · obtain ⟨h1, h2, h3, h4⟩ := ih _ _ his' hi (fun _ => rfl) hempty
              exact ⟨h1, h2, h3, fun hn hz => by have := (h4 hn hz).2.1; omega⟩
        · next hle =>
            obtain ⟨h1, h2, h3, h4⟩ := ih _ _ his' hfave hmax hempty
            refine ⟨h1, h2, h3, fun hn hz => ?_⟩
            obtain ⟨h5, h6, h7⟩ := h4 hn hz
            refine ⟨h5, h6, fun k hk => ?_⟩
            rcases List.mem_cons.mp hk with rfl | hk
            · omega
            · exact h7 k hk

/-- The best window exists, and it has free clusters if any window has. -/
theorem fatSelectBestWindow_spec (g : Geometry) (v : Vcb) :
    fatSelectBestWindow g v < g.numberOfWindows ∧
      ((∃ i < g.numberOfWindows, 0 < (v.windows i).clustersFree) →
        0 < (v.windows (fatSelectBestWindow g v)).clustersFree) := by
  obtain ⟨h1, h2, h3, h4⟩ := selectLoop_spec (fun i => (v.windows i).clustersFree)
    (P := fun i => i < g.numberOfWindows) (List.range g.numberOfWindows)
    0 none (fun i hi => List.mem_range.mp hi)
    g.numberOfWindows_pos (by simp) (by simp)
  rw [fatSelectBestWindow]
  generalize selectLoop (fun i => (v.windows i).clustersFree) (List.range g.numberOfWindows) 0 0
    none = s at *
  have hcap : 1 < maxClusterBitmapSize / 2 := by norm_num [maxClusterBitmapSize]
  split
  · next hlt =>
      cases hs : s.2.2 with
      | some i =>
          obtain ⟨hi, hfree⟩ := h3 i hs
          refine ⟨hi, fun _ => ?_⟩
          rw [Option.getD_some, hfree]
          norm_num [maxClusterBitmapSize]
      | none =>
          refine ⟨h1, ?_⟩
          rintro ⟨i, hi, hfree⟩
          rw [Option.getD_none]
          rcases Nat.eq_zero_or_pos s.2.1 with hz | hpos
          · have := (h4 hs hz).2.2 i (List.mem_range.mpr hi)
            omega
          · rw [h2 hpos]
            exact hpos
  · next hge =>
      refine ⟨h1, fun _ => ?_⟩
      rw [h2 (by omega)]
      omega

/-- With several windows, the set-up scan finds them. -/
theorem sat_examineSetupWindows (hmany : 1 < g.numberOfWindows) (hnone : v.numberOfFreeClusters = 0) :
    Sat (examineSetupWindows g 2 (g.numberOfClusters + 2 - 1)) v
      (fun _ v' => v'.vol.fat = v.vol.fat ∧ WindowsOf g v'.windows (zeroSet g v.vol.fat) ∧
        v'.numberOfFreeClusters = (zeroSet g v.vol.fat).card ∧
        (v.vol.io = none → v'.vol.io = none)) (fun _ _ => v.vol.io ≠ none) := by
  rw [examineSetupWindows]
  apply Sat.bind (R := fun _ v' => ∃ vol', v' = { v with vol := vol' } ∧ vol'.fat = v.vol.fat ∧
    (v.vol.io = none → vol'.io = none))
  · apply Sat.onPart
    exact sat_access.mono (fun _ t ht => ⟨t, rfl, ht⟩) (fun _ _ h => h.2.2.1)
  · rintro _ _ ⟨vol', rfl, hfat, hio⟩
    have hspec := scanEntries_setup (g := g) v.vol.fat
      { v with
        vol := vol'
        windows := Function.update v.windows 0
          { v.windows 0 with firstCluster := 2, clustersFree := 0 } }
      hmany (by simp) (by simp) hnone
    apply Sat.modify
    simp only [hfat, show g.numberOfClusters + 2 - 1 = g.numberOfClusters + 1 from rfl]
    generalize scanEntries g v.vol.fat _ _ 0 = s at *
    obtain ⟨hcount, hwin, hfirst, hfree, hbefore⟩ := hspec
    have hlast := g.endOf_last (i := s.window) (by omega)
    have hcases : ∀ i < g.numberOfWindows, i = s.window ∨ i < s.window := fun i hi => by omega
    refine ⟨trivial, ⟨fun i hi => ?_, fun i hi => ?_, fun i hi => ?_⟩, hcount, hio⟩
    · rcases hcases i hi with rfl | hlt
      · simpa using hfirst
      · rw [Function.update_of_ne hlt.ne]
        exact (hbefore i hlt).1
    · rcases hcases i hi with rfl | hlt
      · simp [hlast]
      · rw [Function.update_of_ne hlt.ne]
        exact (hbefore i hlt).2.1
    · rw [← zeros_window]
      rcases hcases i hi with rfl | hlt
      · simpa using hfree
      · rw [Function.update_of_ne hlt.ne]
        exact (hbefore i hlt).2.2

/-- A single window is scanned and counted at once. -/
theorem sat_fatExamineFatEntries_one (hone : ¬ 1 < g.numberOfWindows)
    (hfirst : (v.windows 0).firstCluster = 2)
    (hlast : (v.windows 0).lastCluster = g.numberOfClusters + 1)
    (hnone : v.numberOfFreeClusters = 0) :
    Sat (fatExamineFatEntries g 0) v
      (fun _ v' => v'.vol.fat = v.vol.fat ∧ Books g v' (zeroSet g v.vol.fat) 0 ∧
        (v.vol.io = none → v'.vol.io = none))
      (fun _ _ => v.vol.io ≠ none) := by
  have hfirst0 := g.firstOf_zero
  have hW := Geometry.numberOfWindows_eq_one hone
  have hend0 : g.endOf 0 = g.numberOfClusters + 2 := Geometry.endOf_last hW.symm
  rw [fatExamineFatEntries]
  apply Sat.bind (R := fun _ v' => ∃ vol', v' = { v with vol := vol' } ∧ vol'.fat = v.vol.fat ∧
    (v.vol.io = none → vol'.io = none))
  · apply Sat.onPart
    exact sat_access.mono (fun _ t ht => ⟨t, rfl, ht⟩) (fun _ _ h => h.2.2.1)
  · rintro _ _ ⟨vol', rfl, hfat, hio⟩
    have hcounting : (!(g.width = .fat32 ∧ 1 < g.numberOfWindows : Bool)) = true := by
      simp [hone]
    have hspec := scanEntries_spec (g := g) v.vol.fat (m := ⟨2, g.numberOfClusters + 1, false, true⟩)
      { v with vol := vol' } 0 rfl (by dsimp only; omega) (fun _ => rfl) (fun _ => rfl)
    apply Sat.modify
    simp only [hcounting, hfat, if_true, hfirst, hlast, true_and]
    generalize scanEntries g v.vol.fat _ _ 0 = s at *
    obtain ⟨hsize, hbit, hcount, hbounds⟩ := hspec
    simp only [hnone, Nat.zero_add] at hsize hbit hcount hbounds
    rw [zeros_clusters] at hcount
    have hwindow : zeroSet g v.vol.fat ∩ g.window 0 = zeroSet g v.vol.fat := by
      rw [Geometry.window, hfirst0, hend0]
      exact Finset.inter_eq_left.mpr (zeroSet_subset _)
    refine ⟨⟨zeroSet_subset _, by dsimp only; omega, fun i hi => ?_, fun i hi => ?_, ?_,
      fun j hj => ?_, fun i hi => ?_, hcount trivial, by simp⟩, hio⟩
    · rw [show i = 0 by omega, hfirst0]
      simpa [hfirst] using (hbounds 0).1
    · rw [show i = 0 by omega, hend0]
      simpa [hlast] using (hbounds 0).2
    · rw [hend0, hfirst0, hsize]
    · rw [hsize] at hj
      dsimp only at hj ⊢
      rw [hbit j hj, hfirst0, mem_zeroSet, and_iff_right]
      omega
    · rw [show i = 0 by omega, hwindow]
      simpa using hcount trivial

/-- The hint set up at mount keeps the books. -/
theorem Books.setupHint (h : Books g v F r) : Books g (setupHint v) F r := by
  refine ⟨h.subset, h.current, h.first, h.last, h.size, h.bit, h.free, h.total, fun hint hh => ?_⟩
  rw [← Option.some.inj hh]
  change 2 ≤ hintFrom v.freeClusterBitMap 2 ∧ _ < max v.freeClusterBitMap.size 1 + 2
  rcases Nat.eq_zero_or_pos v.freeClusterBitMap.size with hz | hpos
  · have hnone : v.freeClusterBitMap.findClearBits 1 (2 - 2) = none := by
      rw [Bitmap.findClearBits_eq_none_iff (by norm_num)]
      intro i hi
      have := hi.1
      omega
    rw [hintFrom, hnone]
    dsimp only
    omega
  · have := hintFrom_mem hpos 2
    omega

/-- **Mounting.**  The books of a volume that was set up are those of its FAT; only the
fault makes the set-up raise. -/
theorem sat_fatSetupAllocationSupport (g : Geometry) (v : Vcb) :
    Sat (fatSetupAllocationSupport g) v
      (fun _ v' => v'.vol.fat = v.vol.fat ∧ Books g v' (zeroSet g v.vol.fat) 0 ∧
        (v.vol.io = none → v'.vol.io = none))
      (fun _ _ => v.vol.io ≠ none) := by
  rw [fatSetupAllocationSupport]
  apply Sat.modify_bind
  by_cases hmany : 1 < g.numberOfWindows
  · rw [if_pos hmany]
    apply Sat.bind (sat_examineSetupWindows hmany rfl)
    rintro _ v1 ⟨hfat, hwin, htotal, hio⟩
    apply Sat.modify_bind
    apply Sat.get_bind
    have hi := (fatSelectBestWindow_spec g v1).1
    apply Sat.bind ((sat_fatExamineFatEntries (r := 0)
      (v := { v1 with currentWindow := fatSelectBestWindow g v1 }) hwin htotal hmany hi
      (by rw [hfat])).mono (fun _ _ h => h) ?_)
    · rintro _ v4 ⟨hbooks, _, _, _, hfat4, hio4⟩
      exact Sat.modify ⟨hfat4.trans hfat, hbooks.setupHint, fun hnone => hio4 (hio hnone)⟩
    · rintro _ _ ⟨-, _, -, hfault⟩ hnone
      exact hfault.io (hio hnone)
  · rw [if_neg hmany]
    apply Sat.modify_bind
    apply Sat.get_bind
    apply Sat.bind (sat_fatExamineFatEntries_one hmany (by simp) (by simp) rfl)
    rintro _ v1 ⟨hfat, hbooks, hio⟩
    exact Sat.modify ⟨hfat, hbooks.setupHint, hio⟩

end KernelDrivers.Fat
