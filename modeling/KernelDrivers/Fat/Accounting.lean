import KernelDrivers.Fat.AllocSpec

/-!
# Free-space accounting

Free space is recorded three times: in the FAT, in the bitmap of the current window,
and in two levels of counters.  `Accounting` says that the three agree, in the terms
of the control block itself.  It holds at mount and every allocation that completes
and every deallocation of allocated space keeps it, as long as cluster numbers fit the
bits of an entry.  On a volume where they do not, a link to cluster `2^16` is stored
as zero and an allocated cluster looks free.

## Main definitions

* `Accounting` — bitmap, window counts and total agree with the FAT.
* `Layout` — the windows, the bitmap's size and the hint are as mounted.
* `Reachable` — the states that mounts, allocations and deallocations lead to.
-/

namespace KernelDrivers.Fat

variable {g : Geometry} {v : Vcb}

/-- The clusters of window `i`, as the control block has it, whose entry is zero. -/
def Vcb.zeroEntries (g : Geometry) (v : Vcb) (i : ℕ) : Finset ℕ :=
  (Finset.Icc (v.windows i).firstCluster (v.windows i).lastCluster).filter
    fun c => lookupEntry g.width v.vol.fat c = 0

/-- The bitmap of the current window, the counts of the windows and the total are those
of the FAT. -/
structure Accounting (g : Geometry) (v : Vcb) : Prop where
  bitmap : ∀ c ∈ Finset.Icc v.window.firstCluster v.window.lastCluster,
    (v.freeClusterBitMap.bit (c - v.window.firstCluster) = false ↔
      lookupEntry g.width v.vol.fat c = 0)
  clustersFree : ∀ i < g.numberOfWindows, (v.windows i).clustersFree = (v.zeroEntries g i).card
  total : v.numberOfFreeClusters =
    ∑ i ∈ Finset.range g.numberOfWindows, (v.windows i).clustersFree

/-- The windows divide the volume, the bitmap is as long as the current window, and the
hint lies inside it. -/
structure Layout (g : Geometry) (v : Vcb) : Prop where
  current : v.currentWindow < g.numberOfWindows
  first : ∀ i < g.numberOfWindows, (v.windows i).firstCluster = g.firstOf i
  last : ∀ i < g.numberOfWindows, (v.windows i).lastCluster + 1 = g.endOf i
  size : v.freeClusterBitMap.size = g.endOf v.currentWindow - g.firstOf v.currentWindow
  hint : ∀ h, v.clusterHint = some h → 2 ≤ h ∧ h < max v.freeClusterBitMap.size 1 + 2

namespace Layout

theorem zeroEntries_eq (h : Layout g v) {i : ℕ} (hi : i < g.numberOfWindows) :
    v.zeroEntries g i = zeroSet g v.vol.fat ∩ g.window i := by
  have hfirst := h.first i hi
  have hlast := h.last i hi
  have hend := g.endOf_le i
  have h2 := g.two_le_firstOf i
  ext c
  rw [Vcb.zeroEntries, Finset.mem_filter, Finset.mem_Icc, Finset.mem_inter, mem_zeroSet,
    Geometry.mem_window]
  constructor
  · rintro ⟨hc, hz⟩
    exact ⟨⟨by omega, hz⟩, by omega⟩
  · rintro ⟨⟨-, hz⟩, hc⟩
    exact ⟨by omega, hz⟩

/-- In a mounted volume the three records agree exactly when the books are those of the
FAT. -/
theorem accounting_iff (h : Layout g v) :
    Accounting g v ↔ Books g v (zeroSet g v.vol.fat) 0 := by
  have hfirst : v.window.firstCluster = _ := h.first _ h.current
  have hlast : v.window.lastCluster + 1 = _ := h.last _ h.current
  have hsize := h.size
  have hend := g.endOf_le v.currentWindow
  have h2 := g.two_le_firstOf v.currentWindow
  have hsum := Geometry.card_eq_sum_windows (zeroSet_subset (g := g) v.vol.fat)
  constructor
  · intro ha
    have hfree : ∀ i < g.numberOfWindows, (v.windows i).clustersFree =
        (zeroSet g v.vol.fat ∩ g.window i).card := by
      intro i hi
      rw [ha.clustersFree i hi, h.zeroEntries_eq hi]
    refine ⟨zeroSet_subset _, h.current, h.first, h.last, h.size, fun j hj => ?_, hfree, ?_, h.hint⟩
    · have hc := ha.bitmap (v.window.firstCluster + j) (Finset.mem_Icc.mpr (by omega))
      rw [Nat.add_sub_cancel_left, hfirst] at hc
      rw [hc, mem_zeroSet, and_iff_right (by omega)]
    · rw [hsum, ha.total]
      exact Finset.sum_congr rfl fun i hi => hfree i (Finset.mem_range.mp hi)
  · intro hb
    refine ⟨fun c hc => ?_, fun i hi => ?_, ?_⟩
    · rw [Finset.mem_Icc] at hc
      have := hb.bit (c - v.window.firstCluster) (by omega)
      rw [this, ← hfirst, Nat.add_sub_cancel' hc.1, mem_zeroSet, and_iff_right (by omega)]
    · rw [hb.free i hi, h.zeroEntries_eq hi]
    · have htotal := hb.total
      rw [Nat.add_zero, hsum] at htotal
      rw [htotal]
      exact Finset.sum_congr rfl fun i hi => (hb.free i (Finset.mem_range.mp hi)).symm

end Layout

theorem Books.layout {F : Finset ℕ} {k : ℕ} (h : Books g v F k) : Layout g v :=
  ⟨h.current, h.first, h.last, h.size, h.hint⟩

theorem Books.accounting (h : Books g v (zeroSet g v.vol.fat) 0) : Accounting g v :=
  h.layout.accounting_iff.mpr h

/-- A call that succeeded: nothing was asked for, or the request is complete.  A refused
request has its byte count set to zero. -/
def Succeeded (r : Request) (c' : AllocCall) : Prop := r.byteCount = 0 ∨ c'.byteCount ≠ 0

/-- The map describes allocated disk space: runs of different clusters of the volume
whose entries are not zero. -/
structure Allocated (g : Geometry) (v : Vcb) (mcb : Mcb) : Prop where
  valid : ∀ run ∈ mcbRuns g mcb, ValidRun g run
  nodup : (runClusters (mcbRuns g mcb)).Nodup
  entry : ∀ c ∈ runClusters (mcbRuns g mcb), lookupEntry g.width v.vol.fat c ≠ 0

/-- The states that a mount followed by successful calls leads to. -/
inductive Reachable (g : Geometry) : Vcb → Prop
  | setup {v v' : Vcb} : fatSetupAllocationSupport g v = .ok () v' → Reachable g v'
  | allocate {v : Vcb} {r : Request} {fuel : ℕ} {c' : AllocCall} : Reachable g v →
      fatAllocateDiskSpace g r fuel ⟨v, [], r.byteCount⟩ = .ok () c' → Succeeded r c' →
      Reachable g c'.vcb
  | deallocate {v v' : Vcb} {mcb : Mcb} : Reachable g v → Allocated g v mcb →
      fatDeallocateDiskSpace g mcb v = .ok () v' → Reachable g v'

/-- The entries of a completed request are not zero, so what is left free is what the
books say. -/
theorem Completed.zeroSet_eq {r : Request} {c c' : AllocCall} {cs : List ℕ}
    (h : Completed g r (zeroSet g c.vcb.vol.fat) c c' cs)
    (hlinks : g.numberOfClusters + 1 < 2 ^ g.width.linkBits) :
    zeroSet g c'.vcb.vol.fat = zeroSet g c.vcb.vol.fat \ cs.toFinset := by
  ext x
  rw [mem_zeroSet, h.entry, Finset.mem_sdiff, List.mem_toFinset, mem_zeroSet]
  by_cases hx : x ∈ cs
  · have hne := chainEntry_ne_zero (w := g.width) (e := lookupEntry g.width c.vcb.vol.fat) hx
      fun y hy => by
        have := mem_zeroSet.mp (h.free y hy)
        omega
    simp [hx, hne]
  · simp [hx, chainEntry_of_notMem hx]

/-- A deallocation of allocated space keeps the books. -/
theorem Books.deallocate {v' : Vcb} {mcb : Mcb} (h : Books g v (zeroSet g v.vol.fat) 0)
    (hmcb : Allocated g v mcb) (hok : fatDeallocateDiskSpace g mcb v = .ok () v') :
    Books g v' (zeroSet g v'.vol.fat) 0 := by
  have hdis : Disjoint (zeroSet g v.vol.fat) (runClusters (mcbRuns g mcb)).toFinset := by
    rw [Finset.disjoint_left]
    intro c hc hrun
    exact hmcb.entry c (List.mem_toFinset.mp hrun) (mem_zeroSet.mp hc).2
  obtain ⟨hbooks, hwrote⟩ :=
    (h.sat_fatDeallocateDiskSpace hmcb.valid hmcb.nodup hdis).ok hok
  have hzero : zeroSet g v'.vol.fat =
      zeroSet g v.vol.fat ∪ (runClusters (mcbRuns g mcb)).toFinset := by
    ext c
    rw [mem_zeroSet, hwrote.entry, Finset.mem_union, List.mem_toFinset, mem_zeroSet]
    by_cases hc : c ∈ runClusters (mcbRuns g mcb)
    · obtain ⟨run, hrun, hmem⟩ := List.mem_flatMap.mp hc
      have hvalid := hmcb.valid run hrun
      rw [List.mem_range'_1] at hmem
      have h2 := hvalid.two_le
      have hle := hvalid.le
      have hin : 2 ≤ c ∧ c < g.numberOfClusters + 2 := by omega
      simp [hc, hin]
    · simp [hc]
  rw [hzero]
  exact hbooks

/-- Every reachable state has the books of its FAT. -/
theorem Reachable.books (hlinks : g.numberOfClusters + 1 < 2 ^ g.width.linkBits)
    (h : Reachable g v) : Books g v (zeroSet g v.vol.fat) 0 := by
  induction h with
  | setup hok =>
      obtain ⟨hfat, hbooks, -⟩ := (sat_fatSetupAllocationSupport g _).ok hok
      rw [hfat]
      exact hbooks
  | @allocate v r fuel c' _ hok hsucc ih =>
      by_cases hr : r.byteCount = 0
      · rw [fatAllocateDiskSpace, if_pos hr] at hok
        simp only [pure, EStateM.pure, EStateM.Result.ok.injEq, true_and] at hok
        rw [← hok]
        exact ih
      · obtain ⟨cs, hcompleted⟩ := completed_of_ok (c := ⟨v, [], r.byteCount⟩) hr ih rfl
          (fun _ => hlinks) hok (hsucc.resolve_left hr)
        rw [hcompleted.zeroSet_eq hlinks]
        exact hcompleted.books
  | deallocate _ hmcb hok ih => exact ih.deallocate hmcb hok

/-- A control block before the set-up. -/
def unmounted (vol : Volume) : Vcb :=
  { vol := vol, windows := fun _ => ⟨0, 0, 0⟩, currentWindow := 0, freeClusterBitMap := ⟨0, fun _ => true⟩,
    clusterHint := none, numberOfFreeClusters := 0 }

/-- A device without faults mounts. -/
theorem exists_mount (g : Geometry) (vol : Volume) (hnone : vol.io = none) :
    ∃ v, fatSetupAllocationSupport g (unmounted vol) = .ok () v ∧ v.vol.fat = vol.fat ∧
      Books g v (zeroSet g v.vol.fat) 0 ∧ v.vol.io = none := by
  obtain ⟨_, v, hok, hfat, hbooks, hio⟩ :=
    (sat_fatSetupAllocationSupport g (unmounted vol)).exists_ok fun _ _ hE => hE hnone
  exact ⟨v, hok, hfat, hfat ▸ hbooks, hio hnone⟩

/-- A single window is the current one. -/
theorem Books.currentWindow_eq_zero {F : Finset ℕ} {k : ℕ} (h : Books g v F k)
    (hone : g.numberOfWindows = 1) : v.currentWindow = 0 := by
  have := h.current
  omega

/-- The request of `n` bytes without a hint. -/
def request (n : ℕ) (h : n < 2 ^ 32) : Request := ⟨0, n, false, by decide, h⟩

/-- A diskette of 97 clusters. -/
def floppy : Geometry := geometryOf _ (accepted_of_fatIsBootSectorFat fatIsBootSectorFat_floppyBoot)

theorem floppy_width : floppy.width = .fat12 := by decide

theorem floppy_numberOfClusters : floppy.numberOfClusters = 97 := by
  rw [floppy, geometryOf_numberOfClusters]
  decide

theorem floppy_numberOfWindows : floppy.numberOfWindows = 1 := by
  rw [Geometry.numberOfWindows, if_neg]
  rw [floppy_width]
  simp

theorem floppy_endOf : floppy.endOf 0 = 99 := by
  rw [floppy.endOf_last (by rw [floppy_numberOfWindows]), floppy_numberOfClusters]

theorem floppy_sound : floppy.Sound := by
  refine ⟨?_, by decide, ?_⟩
  · rw [floppy_width, floppy_numberOfClusters]
    decide
  · rw [floppy_numberOfClusters]
    decide

end KernelDrivers.Fat
