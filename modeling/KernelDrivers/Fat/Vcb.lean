import KernelDrivers.Fat.Table
import KernelDrivers.Lib.Bitmap
import Mathlib.Algebra.BigOperators.Group.Finset.Basic
import Mathlib.Data.Finset.Card

/-!
# The volume control block

The part of the control block that keeps track of free space.  The clusters of a
FAT32 volume with more than `MAX_CLUSTER_BITMAP_SIZE` of them are divided into
windows of that many; the free-cluster bitmap covers the current window only, and
every window has a count of its free clusters.  Any other volume is one window.

## Main definitions

* `Vcb`, `FatWindow` — the state.
* `fatReserveClusters`, `fatUnreserveClusters`, `fatFindFreeClusterRun` — the macros
  over the bitmap; their cluster numbers are relative to the window, from 2 on.
* `fatSelectBestWindow` — the window to allocate from next.
* `Geometry.window i` — the clusters of window `i`.
-/

namespace KernelDrivers.Fat

/-- `FAT_WINDOW`. -/
structure FatWindow where
  firstCluster : ℕ
  lastCluster : ℕ
  clustersFree : ℕ

/-- The mutable fields of the volume control block that the allocation code uses.
`clusterHint` is window-relative, from 2 on; `none` is the source's `-1`. -/
structure Vcb where
  vol : Volume
  windows : ℕ → FatWindow
  currentWindow : ℕ
  freeClusterBitMap : Bitmap
  clusterHint : Option ℕ
  numberOfFreeClusters : ℕ

/-- `MAX_CLUSTER_BITMAP_SIZE`. -/
def maxClusterBitmapSize : ℕ := 65536

/-- `FatWindowOfCluster`. -/
def fatWindowOfCluster (c : ℕ) : ℕ := (c - 2) / maxClusterBitmapSize

namespace Geometry

variable (g : Geometry)

/-- `NumberOfWindows`, as `FatSetupAllocationSupport` sets it. -/
def numberOfWindows : ℕ :=
  if g.width = .fat32 ∧ maxClusterBitmapSize < g.numberOfClusters then
    (g.numberOfClusters + maxClusterBitmapSize - 1) / maxClusterBitmapSize
  else 1

/-- `EntriesPerWindow` of `FatExamineFatEntries`. -/
def entriesPerWindow : ℕ :=
  if 1 < g.numberOfWindows then maxClusterBitmapSize else g.numberOfClusters

/-- The first cluster of window `i`. -/
def firstOf (i : ℕ) : ℕ := 2 + g.entriesPerWindow * i

/-- One past the last cluster of window `i`. -/
def endOf (i : ℕ) : ℕ := min (g.firstOf i + g.entriesPerWindow) (g.numberOfClusters + 2)

/-- The clusters of window `i`. -/
def window (i : ℕ) : Finset ℕ := Finset.Ico (g.firstOf i) (g.endOf i)

/-- The window of a cluster. -/
def windowOf (c : ℕ) : ℕ := if 1 < g.numberOfWindows then fatWindowOfCluster c else 0

/-- All clusters of the volume. -/
def clusters : Finset ℕ := Finset.Ico 2 (g.numberOfClusters + 2)

end Geometry

namespace Vcb

/-- The current window. -/
def window (v : Vcb) : FatWindow := v.windows v.currentWindow

/-- Change the count of free clusters of window `i`. -/
def setFree (v : Vcb) (i n : ℕ) : Vcb :=
  { v with windows := Function.update v.windows i { v.windows i with clustersFree := n } }

@[simp] theorem clustersFree_setFree_self (v : Vcb) (i n : ℕ) :
    ((v.setFree i n).windows i).clustersFree = n := by simp [setFree]

theorem windows_setFree_of_ne (v : Vcb) {i k : ℕ} (n : ℕ) (h : k ≠ i) :
    (v.setFree i n).windows k = v.windows k := Function.update_of_ne h _ _

@[simp] theorem firstCluster_setFree (v : Vcb) (i n k : ℕ) :
    ((v.setFree i n).windows k).firstCluster = (v.windows k).firstCluster := by
  by_cases h : k = i
  · rw [h]
    simp [setFree]
  · rw [windows_setFree_of_ne v n h]

@[simp] theorem lastCluster_setFree (v : Vcb) (i n k : ℕ) :
    ((v.setFree i n).windows k).lastCluster = (v.windows k).lastCluster := by
  by_cases h : k = i
  · rw [h]
    simp [setFree]
  · rw [windows_setFree_of_ne v n h]

/-- Run a routine of the FAT on the volume. -/
def onVol {α : Type} (x : EStateM Stop Volume α) : EStateM Stop Vcb α :=
  onPart Vcb.vol (fun v vol => { v with vol := vol }) x

end Vcb

/-- The first free cluster at or after `cluster`, else the first free one of the
window, else its first cluster. -/
def hintFrom (b : Bitmap) (cluster : ℕ) : ℕ :=
  match b.findClearBits 1 (cluster - 2) with
  | some i => i + 2
  | none => 2

/-- The cluster behind a run as the next hint, or the first free one from there on
when it is taken. -/
def hintAfter (b : Bitmap) (afterRun : ℕ) : ℕ :=
  if b.bit (afterRun - 2) then hintFrom b afterRun else afterRun

/-- `FatReserveClusters`: set the bits and move the hint to the first free cluster
behind the run, wrapping to the front. -/
def fatReserveClusters (v : Vcb) (index count : ℕ) : Vcb :=
  let afterRun := if v.freeClusterBitMap.size ≤ index + count - 2 then 2 else index + count
  let bitMap := v.freeClusterBitMap.setBits (index - 2) count
  { v with freeClusterBitMap := bitMap, clusterHint := some (hintAfter bitMap afterRun) }

/-- `FatUnreserveClusters`: clear the bits and move the hint back to the run when it
is in front of it.  A hint of `-1` is behind everything. -/
def fatUnreserveClusters (v : Vcb) (index count : ℕ) : Vcb :=
  { v with
    freeClusterBitMap := v.freeClusterBitMap.clearBits (index - 2) count
    clusterHint :=
      match v.clusterHint with
      | some h => if index < h then some index else some h
      | none => some index }

/-- Take a run of free clusters that was found at bit `index` of the current window:
set its bits and take it off the window's count. -/
def takeRun (v : Vcb) (index count : ℕ) : Vcb :=
  (fatReserveClusters v (index + 2) count).setFree v.currentWindow
    (ulongSub v.window.clustersFree count)

/-- Give a run back that was taken from `window`: its bits, when the bitmap still is of
that window, and both counts.  The unwinds of the allocation do this. -/
def putBack (v : Vcb) (window cluster count : ℕ) : Vcb :=
  let v := if window = v.currentWindow then
      fatUnreserveClusters v (cluster - (v.windows window).firstCluster + 2) count else v
  let v := v.setFree window (ulong ((v.windows window).clustersFree + count))
  { v with numberOfFreeClusters := ulong (v.numberOfFreeClusters + count) }

@[simp] theorem vol_putBack (v : Vcb) (window cluster count : ℕ) :
    (putBack v window cluster count).vol = v.vol := by
  rw [putBack]
  split <;> rfl

/-- `FatFindFreeClusterRun`.  `none` is the source's error value 1. -/
def fatFindFreeClusterRun (v : Vcb) (count hint : ℕ) : Option ℕ :=
  if count = 1 ∧ v.freeClusterBitMap.bit (hint - 2) = false then some hint
  else (v.freeClusterBitMap.findClearBits count (hint - 2)).map (· + 2)

/-- The loop of `FatSelectBestWindow` over the windows `is`, with `Fave`, `MaxFree`
and `FirstEmpty`.  It stops at a window that is half free but not empty. -/
def selectLoop (free : ℕ → ℕ) : List ℕ → ℕ → ℕ → Option ℕ → ℕ × ℕ × Option ℕ
  | [], fave, maxFree, firstEmpty => (fave, maxFree, firstEmpty)
  | i :: is, fave, maxFree, firstEmpty =>
      if free i = maxClusterBitmapSize then
        selectLoop free is fave maxFree (firstEmpty.or (some i))
      else if maxFree < free i then
        if maxClusterBitmapSize / 2 ≤ free i then (i, free i, firstEmpty)
        else selectLoop free is i (free i) firstEmpty
      else selectLoop free is fave maxFree firstEmpty

/-- `FatSelectBestWindow`. -/
def fatSelectBestWindow (g : Geometry) (v : Vcb) : ℕ :=
  let r := selectLoop (fun i => (v.windows i).clustersFree) (List.range g.numberOfWindows) 0 0 none
  if r.2.1 < maxClusterBitmapSize / 2 then r.2.2.getD r.1 else r.1

/-! ## The windows divide the volume -/

namespace Geometry

variable {g : Geometry}

theorem one_lt_numberOfWindows_iff :
    1 < g.numberOfWindows ↔ g.width = .fat32 ∧ maxClusterBitmapSize < g.numberOfClusters := by
  rw [numberOfWindows]
  split
  · next h =>
      have := h.2
      simp only [maxClusterBitmapSize] at this ⊢
      exact ⟨fun _ => h, fun _ => by omega⟩
  · next h => exact ⟨fun h' => absurd h' (by omega), fun h' => absurd h' h⟩

theorem numberOfWindows_pos : 0 < g.numberOfWindows := by
  by_cases h : 1 < g.numberOfWindows
  · omega
  · rw [one_lt_numberOfWindows_iff] at h
    rw [numberOfWindows, if_neg h]
    norm_num

theorem entriesPerWindow_of_one (h : ¬ 1 < g.numberOfWindows) :
    g.entriesPerWindow = g.numberOfClusters := by
  rw [entriesPerWindow, if_neg h]

theorem entriesPerWindow_of_many (h : 1 < g.numberOfWindows) :
    g.entriesPerWindow = maxClusterBitmapSize := by
  rw [entriesPerWindow, if_pos h]

theorem numberOfWindows_eq_one (h : ¬ 1 < g.numberOfWindows) : g.numberOfWindows = 1 := by
  have := g.numberOfWindows_pos
  omega

/-- With several windows the last one is not empty and reaches the last cluster. -/
theorem numberOfWindows_of_many (h : 1 < g.numberOfWindows) :
    maxClusterBitmapSize * (g.numberOfWindows - 1) < g.numberOfClusters ∧
      g.numberOfClusters ≤ maxClusterBitmapSize * g.numberOfWindows := by
  have hmany := one_lt_numberOfWindows_iff.mp h
  have heq : g.numberOfWindows =
      (g.numberOfClusters + maxClusterBitmapSize - 1) / maxClusterBitmapSize := by
    rw [numberOfWindows, if_pos hmany]
  simp only [maxClusterBitmapSize] at *
  omega

@[simp] theorem mem_window {c i : ℕ} : c ∈ g.window i ↔ g.firstOf i ≤ c ∧ c < g.endOf i := by
  rw [window, Finset.mem_Ico]

@[simp] theorem mem_clusters {c : ℕ} : c ∈ g.clusters ↔ 2 ≤ c ∧ c < g.numberOfClusters + 2 := by
  rw [clusters, Finset.mem_Ico]

theorem firstOf_zero : g.firstOf 0 = 2 := by rw [firstOf]; ring

theorem two_le_firstOf (i : ℕ) : 2 ≤ g.firstOf i := Nat.le_add_right 2 _

theorem endOf_le (i : ℕ) : g.endOf i ≤ g.numberOfClusters + 2 := min_le_right _ _

theorem window_subset (i : ℕ) : g.window i ⊆ g.clusters := by
  intro c hc
  have h2 := g.two_le_firstOf i
  have hend := g.endOf_le i
  simp only [mem_window, mem_clusters] at *
  omega

/-- On a volume with clusters no window is empty. -/
theorem firstOf_lt_endOf {i : ℕ} (hi : i < g.numberOfWindows) (hN : 0 < g.numberOfClusters) :
    g.firstOf i < g.endOf i := by
  by_cases hmany : 1 < g.numberOfWindows
  · have hn := numberOfWindows_of_many hmany
    rw [endOf, firstOf, entriesPerWindow_of_many hmany]
    simp only [maxClusterBitmapSize] at *
    omega
  · have hi0 : i = 0 := by have := numberOfWindows_eq_one hmany; omega
    rw [hi0, endOf, firstOf_zero, entriesPerWindow_of_one hmany]
    omega

theorem firstOf_le_endOf {i : ℕ} (hi : i < g.numberOfWindows) : g.firstOf i ≤ g.endOf i := by
  rcases Nat.eq_zero_or_pos g.numberOfClusters with hN | hN
  · have hone : ¬ 1 < g.numberOfWindows := fun h => by
      have := (one_lt_numberOfWindows_iff.mp h).2
      omega
    have hi0 : i = 0 := by have := numberOfWindows_eq_one hone; omega
    rw [hi0, endOf, firstOf_zero]
    omega
  · exact (firstOf_lt_endOf hi hN).le

/-- A window before the last ends where the next one begins. -/
theorem endOf_eq_firstOf_succ {i : ℕ} (hi : i + 1 < g.numberOfWindows) :
    g.endOf i = g.firstOf (i + 1) := by
  have hmany : 1 < g.numberOfWindows := by omega
  have hn := numberOfWindows_of_many hmany
  rw [endOf, firstOf, firstOf, entriesPerWindow_of_many hmany]
  simp only [maxClusterBitmapSize] at *
  omega

/-- The last window ends with the volume. -/
theorem endOf_last {i : ℕ} (hi : i + 1 = g.numberOfWindows) :
    g.endOf i = g.numberOfClusters + 2 := by
  rw [endOf, min_eq_right]
  by_cases hmany : 1 < g.numberOfWindows
  · have hn := numberOfWindows_of_many hmany
    rw [firstOf, entriesPerWindow_of_many hmany]
    simp only [maxClusterBitmapSize] at *
    omega
  · have hi0 : i = 0 := by omega
    rw [hi0, firstOf_zero, entriesPerWindow_of_one hmany]
    omega

/-- The windows come one after the other. -/
theorem endOf_le_firstOf {i k : ℕ} (h : i < k) : g.endOf i ≤ g.firstOf k := by
  have hle : g.firstOf i + g.entriesPerWindow ≤ g.firstOf k := by
    have hmul : g.entriesPerWindow * (i + 1) ≤ g.entriesPerWindow * k := Nat.mul_le_mul_left _ h
    rw [firstOf, firstOf]
    linarith
  exact (min_le_left _ _).trans hle

/-- How many clusters of an interval lie in window `k`. -/
theorem card_Ico_inter_window (a b k : ℕ) :
    (Finset.Ico a b ∩ g.window k).card = min b (g.endOf k) - max a (g.firstOf k) := by
  rw [window, Finset.Ico_inter_Ico, Nat.card_Ico]

/-- A cluster of window `i` has `i` as its window. -/
theorem windowOf_eq {c i : ℕ} (hi : i < g.numberOfWindows) (hc : c ∈ g.window i) :
    g.windowOf c = i := by
  rw [mem_window] at hc
  rw [windowOf]
  split
  · next h =>
      rw [endOf, firstOf, entriesPerWindow_of_many h] at hc
      simp only [fatWindowOfCluster, maxClusterBitmapSize] at *
      omega
  · next h =>
      have := numberOfWindows_eq_one h
      omega

/-- Every cluster lies in its window. -/
theorem mem_window_windowOf {c : ℕ} (hc : c ∈ g.clusters) :
    g.windowOf c < g.numberOfWindows ∧ c ∈ g.window (g.windowOf c) := by
  rw [mem_clusters] at hc
  rw [mem_window, endOf, firstOf, windowOf]
  split
  · next h =>
      have hn := numberOfWindows_of_many h
      rw [entriesPerWindow_of_many h, fatWindowOfCluster]
      simp only [maxClusterBitmapSize] at *
      omega
  · next h =>
      rw [entriesPerWindow_of_one h]
      have := g.numberOfWindows_pos
      omega

/-- A set of clusters is counted window by window. -/
theorem card_eq_sum_windows {F : Finset ℕ} (hF : F ⊆ g.clusters) :
    F.card = ∑ i ∈ Finset.range g.numberOfWindows, (F ∩ g.window i).card := by
  rw [Finset.card_eq_sum_card_fiberwise (f := g.windowOf) (t := Finset.range g.numberOfWindows)]
  · apply Finset.sum_congr rfl
    intro i hi
    rw [Finset.mem_range] at hi
    congr 1
    ext c
    rw [Finset.mem_filter, Finset.mem_inter]
    refine and_congr_right fun hcF => ⟨fun hc => ?_, fun hc => windowOf_eq hi hc⟩
    rw [← hc]
    exact (mem_window_windowOf (hF hcF)).2
  · intro c hc
    exact Finset.mem_coe.mpr (Finset.mem_range.mpr (mem_window_windowOf (hF hc)).1)

end Geometry

end KernelDrivers.Fat
