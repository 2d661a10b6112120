import KernelDrivers.Fat.ExactRun
import KernelDrivers.Fat.Interrupted
import KernelDrivers.Fat.Total

/-!
# Exact-match requests

`FatAllocateDiskSpace` drops its locks twice, each time to take `ChangeBitMapResource` again
exclusively: before it switches to the window of the hint, and before the run loop.  Other
requests go on in between, and one of them may make another window the current one.

After the first time the routine looks at the current window again.  After the second time it
does not: `WindowRelativeHint` was computed from the window of before, and the run loop searches
at that place of whatever window is the current one now.  The documentation of
`ExactMatchRequired` says that only the precise run requested is acceptable.

The source notes the window of the fast path before the gap; the run loop notes it again before
it is used, so `RunLoop.start` may take the window of after the gap.

## Main definitions

* `Others` — what other requests do in the two gaps.
* `fatAllocateDiskSpaceAmid` — the routine with the gaps.
* `PlacesExactly` — a call places the run where it was asked for, or takes nothing.
* `Displaced` — the hint is used in another window, and the clusters there are free.

## Main results

* `fatAllocateDiskSpaceAmid_quiet` — without other requests this is the routine.
* `placesExactly_iff` — a run is placed exactly unless it is displaced.
-/

namespace KernelDrivers.Fat

/-- What other requests do to the volume while the routine has dropped its locks. -/
structure Others where
  atHint : Vcb → Vcb
  atSearch : Vcb → Vcb

/-- Make the window of the caller's hint the current one.  The window is looked at again when
the locks were dropped. -/
def switchToHintAmid (g : Geometry) (r : Request) (others : Others) : EStateM Stop Vcb Unit := do
  let v ← get
  let hint := r.absoluteClusterHint
  if hint < v.window.firstCluster ∨ v.window.lastCluster < hint then
    modify others.atHint
    if fatWindowOfCluster hint ≠ (← get).currentWindow then
      protect Stop.isRaised
        (modify fun v => { v with
          numberOfFreeClusters := ulong (v.numberOfFreeClusters + r.clusterCount g) })
        (fatExamineFatEntries g (fatWindowOfCluster hint))

/-- The hint of the request. -/
def chooseHintAmid (g : Geometry) (r : Request) (others : Others) : EStateM Stop Vcb (ℕ × ℕ) := do
  let hint := r.absoluteClusterHint
  if hint ≠ 0 ∧ hint < g.numberOfClusters + 2 then
    if 1 < g.numberOfWindows then
      switchToHintAmid g r others
      return (hint, hint - (← get).window.firstCluster + 2)
    else return (hint, hint)
  else return (0, (← get).clusterHint.getD 2)

/-- The slow path, with the locks dropped before it.  The result is the volume as it is when
they are taken again. -/
def allocateSlowAmid (g : Geometry) (r : Request) (windowRelativeHint fuel : ℕ) (others : Others) :
    EStateM Stop AllocCall Vcb := do
  modify fun c => { c with vcb := others.atSearch c.vcb }
  let v := (← get).vcb
  allocateSlow g r windowRelativeHint fuel
  return v

/-- With the hint chosen. -/
def allocateAtAmid (g : Geometry) (r : Request) (fuel : ℕ) (others : Others) (hints : ℕ × ℕ) :
    EStateM Stop AllocCall Vcb := do
  match fatFindFreeClusterRun (← get).vcb (r.clusterCount g) hints.2 with
  | some startingCluster =>
      if hints.1 = 0 ∨ startingCluster = hints.2 then
        let v := (← get).vcb
        allocateFast g startingCluster (r.clusterCount g)
        return v
      else allocateSlowAmid g r hints.2 fuel others
  | none => allocateSlowAmid g r hints.2 fuel others

/-- `FatAllocateDiskSpace` amid other requests.  The result is the volume as it was when the
locks were taken for the last time. -/
def fatAllocateDiskSpaceAmid (g : Geometry) (r : Request) (fuel : ℕ) (others : Others) :
    EStateM Stop AllocCall Vcb := do
  if r.byteCount = 0 then return (← get).vcb
  if (← get).vcb.numberOfFreeClusters < r.clusterCount g then
    modify fun c => { c with byteCount := (requestSize g r.byteCount).1 }
    throw (.raised .diskFull)
  modify (AllocCall.admitted g r)
  let hints ← AllocCall.onVcb (chooseHintAmid g r others)
  allocateAtAmid g r fuel others hints

variable {g : Geometry} {r : Request} {others : Others} {v : Vcb} {k : ℕ}

/-! ## Without other requests -/

/-- Nobody does anything. -/
def Others.quiet : Others := ⟨id, id⟩

theorem switchToHintAmid_quiet : switchToHintAmid g r Others.quiet = switchToHint g r := by
  funext v
  rw [switchToHintAmid, switchToHint]
  change (if _ then _ else _ : EStateM Stop Vcb Unit) v = (if _ then _ else _ : EStateM Stop Vcb Unit) v
  by_cases hout : r.absoluteClusterHint < v.window.firstCluster ∨
      v.window.lastCluster < r.absoluteClusterHint
  · rw [if_pos hout]
    change (if _ then _ else _ : EStateM Stop Vcb Unit) v = _
    simp only [hout, true_and]
    rfl
  · rw [if_neg hout, if_neg fun h => hout h.1]

theorem chooseHintAmid_quiet : chooseHintAmid g r Others.quiet = chooseHint g r := by
  rw [chooseHintAmid, chooseHint, switchToHintAmid_quiet]

theorem allocateSlowAmid_quiet (hint fuel : ℕ) :
    (do let _ ← allocateSlowAmid g r hint fuel Others.quiet) = allocateSlow g r hint fuel := by
  funext c
  change EStateM.bind (EStateM.bind (allocateSlow g r hint fuel) fun _ => pure c.vcb)
    (fun _ => pure ()) c = _
  rw [EStateM.bind, EStateM.bind]
  cases allocateSlow g r hint fuel c <;> rfl

theorem allocateAtAmid_quiet (fuel : ℕ) (hints : ℕ × ℕ) :
    (do let _ ← allocateAtAmid g r fuel Others.quiet hints) = allocateAt g r fuel hints := by
  rw [allocateAtAmid, allocateAt, bind_assoc]
  congr 1
  funext c
  cases fatFindFreeClusterRun c.vcb (r.clusterCount g) hints.2 with
  | none => exact allocateSlowAmid_quiet _ _
  | some start =>
      dsimp only
      split
      · simp
      · exact allocateSlowAmid_quiet _ _

/-- **Nobody in between.** -/
theorem fatAllocateDiskSpaceAmid_quiet (fuel : ℕ) :
    (do let _ ← fatAllocateDiskSpaceAmid g r fuel Others.quiet) = fatAllocateDiskSpace g r fuel := by
  rw [fatAllocateDiskSpaceAmid, fatAllocateDiskSpace, chooseHintAmid_quiet]
  have hat := allocateAtAmid_quiet (g := g) (r := r) fuel
  split
  · simp
  · rw [bind_assoc]
    congr 1
    funext c
    split <;> simp only [bind_assoc, hat]

/-! ## The gap before the window of the hint -/

/-- Other requests may do anything to the volume that leaves the bitmap and the counters those of
the FAT, with the clusters of this request still off the total, and brings no fault about. -/
structure Interference (g : Geometry) (count : ℕ) (others : Vcb → Vcb) : Prop where
  books : ∀ v k, Books g v (zeroSet g v.vol.fat) (count + k) →
    ∃ k', Books g (others v) (zeroSet g (others v).vol.fat) (count + k')
  io : ∀ v, v.vol.io = none → (others v).vol.io = none

theorem interference_id (g : Geometry) (count : ℕ) : Interference g count id :=
  ⟨fun _ k h => ⟨k, h⟩, fun _ h => h⟩

/-- The hint is the caller's, in the current window. -/
structure HintReady (g : Geometry) (r : Request) (hints : ℕ × ℕ) (v : Vcb) : Prop where
  hint : hints.1 = r.absoluteClusterHint
  two_le : 2 ≤ hints.2
  lt : hints.2 < v.freeClusterBitMap.size + 2
  cluster : g.firstOf v.currentWindow + (hints.2 - 2) = r.absoluteClusterHint

section Hint

variable (hC : 0 < r.clusterCount g) (hhint : r.Hinted g) (hothers : Interference g (r.clusterCount g) others.atHint)
  (h : Books g v (zeroSet g v.vol.fat) (r.clusterCount g + k))

section

include hhint hothers h

/-- The window of the hint becomes the current one, whatever the others do. -/
theorem sat_switchToHintAmid (hmany : 1 < g.numberOfWindows) :
    Sat (switchToHintAmid g r others) v
      (fun _ w => (∃ k', Books g w (zeroSet g w.vol.fat) (r.clusterCount g + k')) ∧
        w.currentWindow = g.windowOf r.absoluteClusterHint ∧ (v.vol.io = none → w.vol.io = none))
      (fun _ _ => v.vol.io ≠ none) := by
  have hne := r.hint_ne
  have h0 := hhint.1
  have hmem : r.absoluteClusterHint ∈ g.clusters := Geometry.mem_clusters.mpr ⟨by omega, hhint.2⟩
  obtain ⟨hlt, hwin⟩ := Geometry.mem_window_windowOf hmem
  have hbucket : fatWindowOfCluster r.absoluteClusterHint = g.windowOf r.absoluteClusterHint := by
    rw [Geometry.windowOf, if_pos hmany]
  rw [switchToHintAmid]
  apply Sat.get_bind
  dsimp only
  rw [hbucket]
  by_cases hout : r.absoluteClusterHint < v.window.firstCluster ∨
      v.window.lastCluster < r.absoluteClusterHint
  · rw [if_pos hout]
    apply Sat.modify_bind
    apply Sat.get_bind
    obtain ⟨k', hbooks⟩ := hothers.books v k h
    have hio := hothers.io v
    generalize others.atHint v = w at *
    -- the window is looked at again behind the gap
    by_cases hcur : g.windowOf r.absoluteClusterHint ≠ w.currentWindow
    · rw [if_pos hcur]
      apply Sat.protect_const
      refine (sat_fatExamineFatEntries hbooks.windowsOf hbooks.total hmany hlt rfl).mono ?_ ?_
      · rintro _ w' ⟨hbooks', hcur', _, _, hfat, hio'⟩
        refine ⟨⟨k', ?_⟩, hcur', fun hnone => hio' (hio hnone)⟩
        rw [hfat]
        exact hbooks'
      · rintro stop w' ⟨_, vol', _, hfault⟩ hnone
        exact hfault.io (hio hnone)
    · rw [if_neg hcur]
      exact Sat.pure ⟨⟨k', hbooks⟩, (not_not.mp hcur).symm, hio⟩
  · rw [if_neg hout]
    refine Sat.pure ⟨⟨k, h⟩, ?_, fun hnone => hnone⟩
    have hfirst : v.window.firstCluster = _ := h.first _ h.current
    have hlast : v.window.lastCluster + 1 = _ := h.last _ h.current
    exact (Geometry.windowOf_eq h.current (Geometry.mem_window.mpr ⟨by omega, by omega⟩)).symm

/-- **Choosing the hint amid other requests.** -/
theorem sat_chooseHintAmid :
    Sat (chooseHintAmid g r others) v
      (fun hints w => (∃ k', Books g w (zeroSet g w.vol.fat) (r.clusterCount g + k')) ∧
        HintReady g r hints w ∧ (v.vol.io = none → w.vol.io = none))
      (fun _ _ => v.vol.io ≠ none) := by
  have hne := r.hint_ne
  have h0 := hhint.1
  have hmem : r.absoluteClusterHint ∈ g.clusters := Geometry.mem_clusters.mpr ⟨by omega, hhint.2⟩
  rw [chooseHintAmid, if_pos (show r.absoluteClusterHint ≠ 0 ∧ _ from hhint)]
  by_cases hmany : 1 < g.numberOfWindows
  · rw [if_pos hmany]
    apply Sat.bind (sat_switchToHintAmid hhint hothers h hmany)
    rintro _ w ⟨⟨k', hbooks⟩, hcur, hio⟩
    apply Sat.get_bind
    obtain ⟨hlt, hwin⟩ := Geometry.mem_window_windowOf hmem
    rw [Geometry.mem_window] at hwin
    have hfirst : w.window.firstCluster = _ := hbooks.first _ hbooks.current
    have hsize := hbooks.size
    rw [hcur] at hfirst hsize
    refine Sat.pure ⟨⟨k', hbooks⟩, ⟨rfl, ?_, ?_, ?_⟩, hio⟩
    · dsimp only
      omega
    · dsimp only
      omega
    · rw [hcur]
      dsimp only
      omega
  · rw [if_neg hmany]
    have hone := Geometry.numberOfWindows_eq_one hmany
    have hcur : v.currentWindow = 0 := by
      have := h.current
      omega
    have hsize := h.size
    have hclusters := Geometry.mem_clusters.mp hmem
    rw [hcur, g.endOf_last (by omega), g.firstOf_zero] at hsize
    refine Sat.pure ⟨⟨k, h⟩, ⟨rfl, ?_, ?_, ?_⟩, fun hnone => hnone⟩
    · exact hclusters.1
    · dsimp only
      omega
    · rw [hcur, g.firstOf_zero]
      dsimp only
      omega

end

include hC h

/-- Whether the run at the hint is found at once. -/
theorem HintReady.find_iff {hints : ℕ × ℕ} (hready : HintReady g r hints v) :
    fatFindFreeClusterRun v (r.clusterCount g) hints.2 = some hints.2 ↔
      FreeRun g (zeroSet g v.vol.fat) v.currentWindow r.absoluteClusterHint (r.clusterCount g) := by
  rw [← hready.cluster, ← h.clearAt_iff_freeRun]
  constructor
  · intro hfind
    exact (clearAt_of_fatFindFreeClusterRun hready.two_le hready.lt hfind).2
  · intro hclear
    rw [fatFindFreeClusterRun]
    split
    · rfl
    · rw [Bitmap.findClearBits_eq_hint hC hclear, Option.map_some,
        Nat.sub_add_cancel hready.two_le]

end Hint

/-! ## The slow path -/

/-- `n` clusters from `y` on were free in `v` and are chained together; nothing else has changed,
apart from the total. -/
structure PlacedAt (g : Geometry) (v : Vcb) (c' : AllocCall) (y n : ℕ) : Prop where
  free : ∀ c ∈ List.range' y n, c ∈ zeroSet g v.vol.fat
  entry : ∀ j, lookupEntry g.width c'.vcb.vol.fat j =
    chainEntry g.width (lookupEntry g.width v.vol.fat) (List.range' y n) j
  books : ∃ k, Books g c'.vcb (zeroSet g v.vol.fat \ (List.range' y n).toFinset) k
  mapped : n * g.clusterSize < 2 ^ 32 → c'.mcb = mcbOf g (List.range' y n)

/-- Nothing has changed in `v`, apart from the total. -/
structure NothingTaken (g : Geometry) (v : Vcb) (c' : AllocCall) : Prop where
  entry : ∀ j, lookupEntry g.width c'.vcb.vol.fat j = lookupEntry g.width v.vol.fat j
  books : ∃ k, Books g c'.vcb (zeroSet g v.vol.fat) k
  mcb : c'.mcb = []

/-- The place of the hint, in the window that is the current one in `w`. -/
def placeIn (g : Geometry) (r : Request) (v w : Vcb) : ℕ :=
  g.firstOf w.currentWindow + (r.absoluteClusterHint - g.firstOf v.currentWindow)

section Slow

variable {hints : ℕ × ℕ} {c : AllocCall} {k' fuel : ℕ} (hg : g.Sound) (hr : r.byteCount ≠ 0)
  (hexact : r.exactMatchRequired = true) (hready : HintReady g r hints v)
  (hb : Books g v (zeroSet g v.vol.fat) k) (hfuel : 2 * g.numberOfWindows ≤ fuel)

include hready hb in
/-- The run loop begins at the place of the hint. -/
theorem HintReady.course (c : AllocCall) :
    RunLoop.Course g (placeIn g r v c.vcb) 0 (RunLoop.start g r hints.2 c) := by
  have hcluster := hready.cluster
  have hsize := hb.size
  have hlt := hready.lt
  refine .next rfl hready.two_le ?_ ?_
  · change hints.2 - 2 < g.entriesPerWindow
    rw [Geometry.endOf] at hsize
    have := hready.two_le
    omega
  · change g.firstOf c.vcb.currentWindow + (hints.2 - 2) = placeIn g r v c.vcb + 0
    rw [placeIn]
    omega

include hg hr hexact hready hb hfuel

/-- **The slow path behind the gap** searches at the place of the hint in the window that is the
current one now. -/
theorem sat_allocateSlow_exact
    (hbooks : Books g c.vcb (zeroSet g c.vcb.vol.fat) (r.clusterCount g + k')) (hmcb : c.mcb = [])
    (hbytes : c.byteCount = (requestSize g r.byteCount).1) :
    Sat (allocateSlow g r hints.2 fuel) c
      (fun _ c' => if c'.byteCount = 0 then NothingTaken g c.vcb c' ∧ (1 < g.numberOfWindows →
            ¬ Finset.Ico (placeIn g r v c.vcb) (placeIn g r v c.vcb + r.clusterCount g) ⊆
              zeroSet g c.vcb.vol.fat)
        else 1 < g.numberOfWindows ∧
          PlacedAt g c.vcb c' (placeIn g r v c.vcb) (r.clusterCount g))
      (fun _ _ => c.vcb.vol.io ≠ none) := by
  have hC := r.clusterCount_pos (g := g) hr
  have htotal := hbooks.total
  have hlt := card_lt hbooks.subset
  -- the loop as it would be with nobody else waiting
  obtain ⟨v0, hv0⟩ : ∃ v0 : Vcb, v0 = { c.vcb with
    numberOfFreeClusters := c.vcb.numberOfFreeClusters + k' } := ⟨_, rfl⟩
  have hvol : v0.vol = c.vcb.vol := by rw [hv0]
  have hback : c.vcb = v0.addTotal (2 ^ 32 - k') := by
    have hsum : ulong (c.vcb.numberOfFreeClusters + k' + (2 ^ 32 - k')) =
        c.vcb.numberOfFreeClusters := by
      rw [ulong]
      omega
    rw [hv0, Vcb.addTotal, hsum]
  have hbooks0 : Books g v0 (zeroSet g c.vcb.vol.fat) (r.clusterCount g) := by
    rw [hv0]
    refine ⟨hbooks.subset, hbooks.current, hbooks.first, hbooks.last, hbooks.size, hbooks.bit,
      hbooks.free, ?_, hbooks.hint⟩
    dsimp only
    omega
  have hstart : RunLoop.start g r hints.2 c =
      (RunLoop.start g r hints.2 { c with vcb := v0 }).addTotal (2 ^ 32 - k') := by
    rw [RunLoop.start, RunLoop.start, RunLoop.addTotal, hback]
    rfl
  have hcourse : RunLoop.Course g (placeIn g r v c.vcb) 0
      (RunLoop.start g r hints.2 { c with vcb := v0 }) := by
    have := hready.course hb { c with vcb := v0 }
    rwa [placeIn, show v0.currentWindow = c.vcb.currentWindow by rw [hv0]] at this
  have hF : ∀ x, x ∈ zeroSet g c.vcb.vol.fat ↔ x ∈ g.clusters ∧ lookupEntry g.width v0.vol.fat x = 0 := by
    intro x
    rw [mem_zeroSet, Geometry.mem_clusters, hvol]
  have hquiet := (RunLoop.taken_start (c := { c with vcb := v0 }) hints.2 hbooks0 hmcb).sat_run_exact
    hg hF (r.clusterCount_mul_le hr) hC rfl hcourse hfuel
  have hrun : Sat (RunLoop.run g true fuel) (RunLoop.start g r hints.2 c)
      (fun b s' => if b then 1 < g.numberOfWindows ∧
          PlacedAt g c.vcb { c with vcb := s'.vcb, mcb := s'.mcb } (placeIn g r v c.vcb)
            (r.clusterCount g)
        else NothingTaken g c.vcb { c with vcb := s'.vcb, mcb := s'.mcb, byteCount := 0 } ∧
          (1 < g.numberOfWindows →
            ¬ Finset.Ico (placeIn g r v c.vcb) (placeIn g r v c.vcb + r.clusterCount g) ⊆
              zeroSet g c.vcb.vol.fat))
      (fun _ _ => c.vcb.vol.io ≠ none) := by
    rw [hstart]
    refine (RunLoop.mirrors_run (fun hn => ?_) fuel _).sat (hquiet.mono ?_ ?_)
    · have := g.numberOfWindows_pos
      have hone : g.numberOfWindows ≠ 1 := fun h => hn ⟨rfl, h⟩
      omega
    · intro b s' hb'
      cases b with
      | true =>
          obtain ⟨hmany, hzero, htaken, hmap, -⟩ := hb'
          have hb0 := htaken.books
          rw [hzero] at hb0
          have htotal0 := hb0.total
          have hsub : (List.range' (placeIn g r v c.vcb) (r.clusterCount g)).toFinset ⊆
              zeroSet g c.vcb.vol.fat := fun x hx => htaken.free x (List.mem_toFinset.mp hx)
          rw [Finset.card_sdiff_of_subset hsub,
            List.toFinset_card_of_nodup List.nodup_range', List.length_range'] at htotal0
          refine ⟨hmany, htaken.free, fun j => ?_, ⟨_, hb0.addTotal (p := k') (by omega)⟩, hmap⟩
          rw [← hvol]
          exact htaken.entry j
      | false =>
          obtain ⟨hnot, ⟨j, hj, hb0⟩, hentry, hmcb'⟩ := hb'
          have htotal0 := hb0.total
          refine ⟨⟨fun i => ?_, ⟨_, hb0.addTotal (p := k') (by omega)⟩, hmcb'⟩, hnot⟩
          rw [← hvol]
          exact hentry i
    · intro _ _ hio
      rwa [← hvol]
  rw [Sat, allocateSlow, hexact]
  cases hres : RunLoop.run g true fuel (RunLoop.start g r hints.2 c) with
  | error stop s' => exact hrun.error hres
  | ok b s' =>
      have hb' := hrun.ok hres
      cases b with
      | true =>
          dsimp only
          rw [if_neg (by rw [hbytes]; exact requestSize_fst_ne_zero hr)]
          exact hb'
      | false => exact hb'

end Slow

/-! ## The whole routine -/

/-- A call with enough passes that returns a byte count has taken the run at the hint, which was
free when the locks were taken for the last time; else it has taken nothing.  Only a full disk and
a fault of the device make it raise. -/
def PlacesExactly (g : Geometry) (r : Request) (others : Others) (v : Vcb) : Prop :=
  ∀ fuel, 2 * g.numberOfWindows ≤ fuel →
    Sat (fatAllocateDiskSpaceAmid g r fuel others) ⟨v, [], r.byteCount⟩
      (fun w c' => if c'.byteCount = 0 then NothingTaken g w c'
        else PlacedAt g w c' r.absoluteClusterHint (r.clusterCount g))
      (fun stop _ => stop = .raised .diskFull ∨ v.vol.io ≠ none)

/-- The run at the hint is not found at once, another request changes the window before the
search, and the clusters at the place of the hint in the new window are free. -/
def Displaced (g : Geometry) (r : Request) (others : Others) (v : Vcb) : Prop :=
  r.byteCount ≠ 0 ∧ r.clusterCount g ≤ v.numberOfFreeClusters ∧
    ∃ hints w, chooseHintAmid g r others
        { v with numberOfFreeClusters := v.numberOfFreeClusters - r.clusterCount g } = .ok hints w ∧
      ¬ FreeRun g (zeroSet g w.vol.fat) w.currentWindow r.absoluteClusterHint (r.clusterCount g) ∧
      (others.atSearch w).currentWindow ≠ w.currentWindow ∧
      Finset.Ico (placeIn g r w (others.atSearch w))
          (placeIn g r w (others.atSearch w) + r.clusterCount g) ⊆
        zeroSet g (others.atSearch w).vol.fat

/-- A run was placed at one cluster only. -/
theorem PlacedAt.unique {c' : AllocCall} {y y' n : ℕ} (hg : g.Sound) (hn : 0 < n)
    (h : PlacedAt g v c' y n) (h' : PlacedAt g v c' y' n) : y = y' := by
  -- the first cluster of either run has been linked, so it belongs to the other one too
  have hmem : ∀ {x z}, PlacedAt g v c' x n → PlacedAt g v c' z n → z ≤ x := by
    intro x z hx hz
    by_contra hlt
    have hxin : x ∈ List.range' x n := List.mem_range'_1.mpr (by omega)
    have hxout : x ∉ List.range' z n := by
      rw [List.mem_range'_1]
      omega
    have hentry := hx.entry x
    rw [hz.entry, chainEntry_of_notMem hxout, (mem_zeroSet.mp (hx.free x hxin)).2] at hentry
    refine chainEntry_ne_zero hxin (fun c hc => ?_) hentry.symm
    have := (mem_zeroSet.mp (hx.free c hc)).1
    have := hg.links
    omega
  exact le_antisymm (hmem h' h) (hmem h h')

/-- The routine after its first checks. -/
theorem fatAllocateDiskSpaceAmid_eq (others : Others) (fuel : ℕ) (hr : r.byteCount ≠ 0)
    (c : AllocCall)
    (hadmitted : ¬ c.vcb.numberOfFreeClusters < r.clusterCount g) :
    fatAllocateDiskSpaceAmid g r fuel others c =
      match chooseHintAmid g r others (c.admitted g r).vcb with
      | .ok hints w => allocateAtAmid g r fuel others hints { c.admitted g r with vcb := w }
      | .error stop w => .error stop { c.admitted g r with vcb := w } := by
  rw [fatAllocateDiskSpaceAmid, if_neg hr]
  change (if c.vcb.numberOfFreeClusters < r.clusterCount g then _ else _ :
    EStateM Stop AllocCall Vcb) c = _
  rw [if_neg hadmitted]
  change EStateM.bind (AllocCall.onVcb (chooseHintAmid g r others)) _ (c.admitted g r) = _
  rw [EStateM.bind, AllocCall.onVcb, onPart]
  cases chooseHintAmid g r others (c.admitted g r).vcb <;> rfl

section Main

variable {hints : ℕ × ℕ} {c : AllocCall} {fuel : ℕ} (hr : r.byteCount ≠ 0) (hhint : r.Hinted g)
  (hready : HintReady g r hints c.vcb)
  (hb : Books g c.vcb (zeroSet g c.vcb.vol.fat) (r.clusterCount g + k))

include hr hhint hready hb

omit hhint in
/-- The run at the hint is found at once. -/
theorem sat_allocateAtAmid_fast (hmcb : c.mcb = []) (hbytes : c.byteCount = (requestSize g r.byteCount).1)
    (hfree : FreeRun g (zeroSet g c.vcb.vol.fat) c.vcb.currentWindow r.absoluteClusterHint
      (r.clusterCount g)) :
    Sat (allocateAtAmid g r fuel others hints) c
      (fun w c' => c'.byteCount ≠ 0 ∧ PlacedAt g w c' r.absoluteClusterHint (r.clusterCount g))
      (fun _ _ => c.vcb.vol.io ≠ none) := by
  have hC := r.clusterCount_pos (g := g) hr
  have hfind := (hready.find_iff hC hb).mpr hfree
  have hclear := (clearAt_of_fatFindFreeClusterRun hready.two_le hready.lt hfind).2
  have hsat := sat_allocateFast hr hb hready.two_le hclear hmcb hbytes
  rw [hready.cluster] at hsat
  rw [allocateAtAmid]
  apply Sat.get_bind
  rw [hfind]
  dsimp only
  rw [if_pos (Or.inr rfl)]
  apply Sat.get_bind
  apply Sat.bind (hsat.mono (fun _ _ h => h) fun _ _ h => h.2.1)
  rintro _ c' ⟨hbooks, hmcb', hbytes', hentry, _⟩
  refine Sat.pure ⟨?_, fun x hx => hfree.mem ?_ ?_, hentry, ⟨_, hbooks⟩, fun _ => hmcb'⟩
  · rw [hbytes', hbytes]
    exact requestSize_fst_ne_zero hr
  · exact (List.mem_range'_1.mp hx).1
  · exact (List.mem_range'_1.mp hx).2

/-- The run at the hint is not found at once. -/
theorem allocateAtAmid_slow (hfree : ¬ FreeRun g (zeroSet g c.vcb.vol.fat) c.vcb.currentWindow
      r.absoluteClusterHint (r.clusterCount g)) :
    allocateAtAmid g r fuel others hints c = allocateSlowAmid g r hints.2 fuel others c := by
  have hC := r.clusterCount_pos (g := g) hr
  have hfind := fun h => hfree ((hready.find_iff hC hb).mp h)
  have h0 := hhint.1
  have hne : hints.1 ≠ 0 := by rw [hready.hint]; exact h0
  rw [allocateAtAmid]
  change (match fatFindFreeClusterRun c.vcb (r.clusterCount g) hints.2 with
    | some startingCluster => _ | none => _ : EStateM Stop AllocCall Vcb) c = _
  cases hstart : fatFindFreeClusterRun c.vcb (r.clusterCount g) hints.2 with
  | none => rfl
  | some start =>
      dsimp only
      rw [if_neg]
      intro hor
      rw [hor.resolve_left hne] at hstart
      exact hfind hstart

theorem sat_allocateAtAmid_slow (hg : g.Sound) (hexact : r.exactMatchRequired = true)
    (hothers : Interference g (r.clusterCount g) others.atSearch)
    (hfuel : 2 * g.numberOfWindows ≤ fuel) (hmcb : c.mcb = [])
    (hbytes : c.byteCount = (requestSize g r.byteCount).1)
    (hfree : ¬ FreeRun g (zeroSet g c.vcb.vol.fat) c.vcb.currentWindow
      r.absoluteClusterHint (r.clusterCount g)) :
    Sat (allocateAtAmid g r fuel others hints) c
      (fun w c' => w = others.atSearch c.vcb ∧
        if c'.byteCount = 0 then NothingTaken g w c' ∧ (1 < g.numberOfWindows →
            ¬ Finset.Ico (placeIn g r c.vcb w) (placeIn g r c.vcb w + r.clusterCount g) ⊆
              zeroSet g w.vol.fat)
        else 1 < g.numberOfWindows ∧ PlacedAt g w c' (placeIn g r c.vcb w) (r.clusterCount g))
      (fun _ _ => c.vcb.vol.io ≠ none) := by
  refine Sat.of_eq (allocateAtAmid_slow hr hhint hready hb hfree) ?_
  obtain ⟨k', hbooks⟩ := hothers.books c.vcb k hb
  rw [allocateSlowAmid]
  apply Sat.modify_bind
  apply Sat.get_bind
  have hslow := sat_allocateSlow_exact (c := { c with vcb := others.atSearch c.vcb }) hg hr hexact hready
    hb hfuel hbooks hmcb hbytes
  apply Sat.bind (hslow.mono (fun _ _ h => h) fun _ _ hio hnone => hio (hothers.io _ hnone))
  intro _ c' hc'
  exact Sat.pure ⟨rfl, hc'⟩

end Main

section Exact

variable (hg : g.Sound) (hb : Books g v (zeroSet g v.vol.fat) k)
  (hexact : r.exactMatchRequired = true) (hhint : r.Hinted g)
  (hatHint : Interference g (r.clusterCount g) others.atHint)
  (hatSearch : Interference g (r.clusterCount g) others.atSearch)

include hg hb hexact hhint hatHint hatSearch

/-- A run that is not displaced is placed exactly. -/
theorem placesExactly_of_not_displaced (hnot : ¬ Displaced g r others v) :
    PlacesExactly g r others v := by
  intro fuel hfuel
  by_cases hr : r.byteCount = 0
  · rw [fatAllocateDiskSpaceAmid, if_pos hr]
    apply Sat.get_bind
    refine Sat.pure ?_
    rw [if_pos hr]
    exact ⟨fun _ => rfl, ⟨k, hb⟩, rfl⟩
  by_cases hadmitted : v.numberOfFreeClusters < r.clusterCount g
  · rw [fatAllocateDiskSpaceAmid, if_neg hr]
    apply Sat.get_bind
    rw [if_pos hadmitted]
    apply Sat.modify_bind
    exact Sat.throw (Or.inl rfl)
  have heq := fatAllocateDiskSpaceAmid_eq others fuel hr ⟨v, [], r.byteCount⟩ hadmitted
  have hchoose := sat_chooseHintAmid hhint hatHint (hb.admitted (c := ⟨v, [], r.byteCount⟩) hadmitted)
  cases hch : chooseHintAmid g r others (AllocCall.admitted g r ⟨v, [], r.byteCount⟩).vcb with
  | error stop w =>
      rw [hch] at heq
      exact Sat.of_error heq (Or.inr (hchoose.error hch))
  | ok hints w =>
      obtain ⟨⟨k', hbooks⟩, hready, hio⟩ := hchoose.ok hch
      rw [hch] at heq
      refine Sat.of_eq heq ?_
      by_cases hfree : FreeRun g (zeroSet g w.vol.fat) w.currentWindow r.absoluteClusterHint
          (r.clusterCount g)
      · refine (sat_allocateAtAmid_fast
          (c := { AllocCall.admitted g r ⟨v, [], r.byteCount⟩ with vcb := w }) hr hready hbooks rfl rfl
          hfree).mono ?_ fun _ _ hE => Or.inr fun hnone => hE (hio hnone)
        rintro w' c' ⟨hne, hplaced⟩
        rw [if_neg hne]
        exact hplaced
      · refine (sat_allocateAtAmid_slow
          (c := { AllocCall.admitted g r ⟨v, [], r.byteCount⟩ with vcb := w }) hr hhint hready hbooks hg
          hexact hatSearch hfuel rfl rfl hfree).mono ?_ fun _ _ hE => Or.inr fun hnone => hE (hio hnone)
        rintro w' c' ⟨hw, hc'⟩
        rw [hw] at hc' ⊢
        by_cases hzero : c'.byteCount = 0
        · rw [if_pos hzero] at hc' ⊢
          exact hc'.1
        · rw [if_neg hzero] at hc' ⊢
          have hplace : placeIn g r w (others.atSearch w) = r.absoluteClusterHint := by
            by_cases hcur : (others.atSearch w).currentWindow = w.currentWindow
            · have hcluster := hready.cluster
              rw [placeIn, hcur]
              omega
            · refine absurd ⟨hr, not_lt.mp hadmitted, hints, w, hch, hfree, hcur, fun x hx => ?_⟩ hnot
              exact hc'.2.free x (List.mem_range'_1.mpr (Finset.mem_Ico.mp hx))
          rw [← hplace]
          exact hc'.2

/-- A run that is displaced is placed somewhere else. -/
theorem not_placesExactly_of_displaced (hnone : v.vol.io = none) (hdisplaced : Displaced g r others v) :
    ¬ PlacesExactly g r others v := by
  intro hall
  obtain ⟨hr, hle, hints, w, hch, hfree, hcur, hsub⟩ := hdisplaced
  have hadmitted : ¬ v.numberOfFreeClusters < r.clusterCount g := not_lt.mpr hle
  have heq := fatAllocateDiskSpaceAmid_eq others (2 * g.numberOfWindows) hr
    ⟨v, [], r.byteCount⟩ hadmitted
  have hchoose := sat_chooseHintAmid hhint hatHint (hb.admitted (c := ⟨v, [], r.byteCount⟩) hadmitted)
  obtain ⟨⟨k', hbooks⟩, hready, hio⟩ := hchoose.ok hch
  have hch' : chooseHintAmid g r others (AllocCall.admitted g r ⟨v, [], r.byteCount⟩).vcb =
      .ok hints w := hch
  rw [hch'] at heq
  have hslow := sat_allocateAtAmid_slow
    (c := { AllocCall.admitted g r ⟨v, [], r.byteCount⟩ with vcb := w }) hr hhint hready hbooks hg
    hexact hatSearch le_rfl rfl rfl hfree
  obtain ⟨w', c', hok, hw, hc'⟩ := hslow.exists_ok fun _ _ hE => hE (hio hnone)
  have hexactly := (hall _ le_rfl).ok (heq.trans hok)
  obtain ⟨k'', hbooks'⟩ := hatSearch.books w k' hbooks
  have hmany : 1 < g.numberOfWindows := by
    have h1 := hbooks.current
    have h2 := hbooks'.current
    omega
  rw [hw] at hc' hexactly
  have hzero : c'.byteCount ≠ 0 := by
    intro hzero
    rw [if_pos hzero] at hc'
    exact hc'.2 hmany hsub
  rw [if_neg hzero] at hc' hexactly
  have hplace : placeIn g r w (others.atSearch w) = r.absoluteClusterHint :=
    hc'.2.unique hg (r.clusterCount_pos hr) hexactly
  have hcluster := hready.cluster
  rw [placeIn, Geometry.firstOf, Geometry.firstOf, Geometry.entriesPerWindow_of_many hmany,
    maxClusterBitmapSize] at hplace
  rw [Geometry.firstOf, Geometry.entriesPerWindow_of_many hmany, maxClusterBitmapSize] at hcluster
  omega

/-- **Exact-match requests.**  Whatever other requests do while the locks are dropped, the run is
placed exactly or not at all unless it is displaced; and when it is displaced and nothing faults,
it is placed somewhere else. -/
theorem placesExactly_iff : (¬ Displaced g r others v → PlacesExactly g r others v) ∧
    (v.vol.io = none → (PlacesExactly g r others v ↔ ¬ Displaced g r others v)) := by
  have hif := placesExactly_of_not_displaced hg hb hexact hhint hatHint hatSearch
  refine ⟨hif, fun hnone => ⟨fun hall hdisplaced => ?_, hif⟩⟩
  exact not_placesExactly_of_displaced hg hb hexact hhint hatHint hatSearch hnone hdisplaced hall

end Exact

/-- The first cluster of an empty diskette is had where it is asked for. -/
theorem placesExactly_floppy : ∃ v, Books floppy v (zeroSet floppy v.vol.fat) 0 ∧
    PlacesExactly floppy exactRequest Others.quiet v := by
  obtain ⟨v, -, -, hbooks, -⟩ := exists_mount floppy ⟨fun _ => 0, [], none⟩ rfl
  refine ⟨v, hbooks, (placesExactly_iff floppy_sound hbooks rfl ?_ (interference_id _ _)
    (interference_id _ _)).1 ?_⟩
  · rw [Request.Hinted, floppy_numberOfClusters]
    decide
  · rintro ⟨_, _, _, _, _, _, hcur, _⟩
    exact hcur rfl

/-- Another request switches to window `i` and gives up again. -/
def enterWindow (g : Geometry) (i : ℕ) (v : Vcb) : Vcb :=
  match fatExamineFatEntries g i v with
  | .ok _ w => w
  | .error _ w => w

theorem enterWindow_of_io (hmany : 1 < g.numberOfWindows) {i : ℕ} (hi : i < g.numberOfWindows)
    (h : Books g v (zeroSet g v.vol.fat) k) (hnone : v.vol.io = none) :
    (enterWindow g i v).currentWindow = i ∧ (enterWindow g i v).vol.fat = v.vol.fat := by
  have hsat := sat_fatExamineFatEntries h.windowsOf h.total hmany hi rfl
  obtain ⟨_, w, hok, -, hcur, -, -, hfat, -⟩ := hsat.exists_ok fun _ _ ⟨_, _, _, hfault⟩ =>
    hfault.io hnone
  rw [enterWindow, hok]
  exact ⟨hcur, hfat⟩

theorem interference_enterWindow (hmany : 1 < g.numberOfWindows) {i : ℕ} (hi : i < g.numberOfWindows)
    (count : ℕ) : Interference g count (enterWindow g i) := by
  constructor
  · intro v k h
    have hsat := sat_fatExamineFatEntries h.windowsOf h.total hmany hi rfl
    refine ⟨k, ?_⟩
    rw [enterWindow]
    cases hrun : fatExamineFatEntries g i v with
    | ok _ w =>
        obtain ⟨hbooks, -, -, -, hfat, -⟩ := hsat.ok hrun
        dsimp only
        rwa [hfat]
    | error stop w =>
        obtain ⟨-, vol', rfl, hfault⟩ := hsat.error hrun
        dsimp only
        rw [zeroSet_congr hfault.entry]
        exact h.setVol vol'
  · intro v hnone
    have hsat : Sat (fatExamineFatEntries g i) v (fun _ w => w.vol.io = none) fun _ _ => False := by
      rw [fatExamineFatEntries]
      apply Sat.bind (R := fun _ w => w.vol.io = none)
      · apply Sat.onPart
        exact sat_access.mono (fun _ _ ht => ht.2 hnone) fun _ _ ht => ht.2.2.1 hnone
      · intro _ w hw
        apply Sat.modify
        dsimp only
        split <;> exact hw
    rw [enterWindow]
    cases hrun : fatExamineFatEntries g i v with
    | ok _ w => exact hsat.ok hrun
    | error _ w => exact absurd (hsat.error hrun) id

/-- The hint does not depend on what happens later. -/
theorem chooseHintAmid_of_quiet (hquiet : others.atHint = id) :
    chooseHintAmid g r others = chooseHint g r := by
  rw [← chooseHintAmid_quiet, chooseHintAmid, chooseHintAmid, switchToHintAmid, switchToHintAmid, hquiet]
  rfl

theorem exactPair_hint_ne : 2 ≠ 1 := by decide

theorem exactPair_byteCount_lt : 1024 < 2 ^ 32 := by decide

/-- An exact-match request for clusters 2 and 3. -/
def exactPair : Request := ⟨2, 1024, true, exactPair_hint_ne, exactPair_byteCount_lt⟩

/-- Clusters 2 and 3 of a volume of three windows are asked for, and cluster 3 is in use.  Another
request makes the second window the current one, and the first two clusters of that are taken. -/
theorem not_placesExactly_bigFat32 : ∃ v,
    fatSetupAllocationSupport bigFat32
      (unmounted ⟨storeEntry .fat32 (fun _ => 0) 3 fatClusterLast, [], none⟩) = .ok () v ∧
    Interference bigFat32 2 (enterWindow bigFat32 1) ∧
    ¬ PlacesExactly bigFat32 exactPair ⟨id, enterWindow bigFat32 1⟩ v := by
  have hN := bigFat32_numberOfClusters
  have hmany : 1 < bigFat32.numberOfWindows :=
    Geometry.one_lt_numberOfWindows_iff.mpr ⟨bigFat32_width, by rw [hN, maxClusterBitmapSize]; omega⟩
  have hfirst : ∀ i, bigFat32.firstOf i = 2 + 65536 * i := fun i => by
    rw [Geometry.firstOf, Geometry.entriesPerWindow_of_many hmany, maxClusterBitmapSize]
  obtain ⟨v, hsetup, hfat, hbooks, hnone⟩ :=
    exists_mount bigFat32 ⟨storeEntry .fat32 (fun _ => 0) 3 fatClusterLast, [], none⟩ rfl
  have hinterference := interference_enterWindow hmany hmany
  have hC : exactPair.clusterCount bigFat32 = 2 := by decide
  have hhint : exactPair.Hinted bigFat32 := by
    rw [Request.Hinted, hN]
    decide
  have hF : ∀ c, c ∈ zeroSet bigFat32 v.vol.fat ↔ (2 ≤ c ∧ c < 146305) ∧ c ≠ 3 := by
    intro c
    rw [mem_zeroSet, hN, hfat, bigFat32_width, lookupEntry_storeEntry _ _ (by simp)]
    refine and_congr_right fun _ => ?_
    split
    · next h3 => simp [h3, fatClusterLast, FatWidth.linkBits]
    · next h3 => simp [h3, lookupEntry, Bytes.read32, Bytes.read16]
  refine ⟨v, hsetup, hinterference 2, not_placesExactly_of_displaced bigFat32_sound hbooks rfl hhint
    (interference_id _ _) (hinterference _) hnone ?_⟩
  have hle : exactPair.clusterCount bigFat32 ≤ v.numberOfFreeClusters := by
    have htotal := hbooks.total
    have hsub : Finset.Ico 4 6 ⊆ zeroSet bigFat32 v.vol.fat := by
      intro c hc
      rw [Finset.mem_Ico] at hc
      rw [hF]
      omega
    have hcard := Finset.card_le_card hsub
    rw [Nat.card_Ico] at hcard
    omega
  have hadmitted := hbooks.admitted (c := ⟨v, [], 1024⟩) (not_lt.mpr hle)
  have hsat := sat_chooseHint (by decide) hadmitted rfl
  obtain ⟨hints, w, hch, hbooks', hchosen⟩ := hsat.exists_ok fun _ _ hE => hE.2.1 hnone
  have hwfat : w.vol.fat = v.vol.fat := hchosen.fat
  have hcur : w.currentWindow = 0 := by
    rw [hchosen.window, startWindow, if_pos ⟨hhint, hmany⟩, Geometry.windowOf, if_pos hmany]
    rfl
  have hzero : zeroSet bigFat32 w.vol.fat = zeroSet bigFat32 v.vol.fat := by rw [hwfat]
  have henter := enterWindow_of_io (k := exactPair.clusterCount bigFat32) hmany hmany
    (by rw [hzero]; exact hbooks') (hchosen.io hnone)
  refine ⟨by decide, hle, hints, w, (congrFun (chooseHintAmid_of_quiet rfl) _).trans hch, ?_, ?_, ?_⟩
  · rw [hzero, hC]
    intro hfree
    exact ((hF 3).mp (hfree.mem (y := 3) (by decide) (by decide))).2 rfl
  · rw [henter.1, hcur]
    exact Nat.one_ne_zero
  · rw [placeIn, henter.1, henter.2, hwfat, hcur, hfirst, hfirst, hC]
    have hat : exactPair.absoluteClusterHint = 2 := rfl
    intro c hc
    rw [hat, Finset.mem_Ico] at hc
    rw [hF]
    omega

end KernelDrivers.Fat
