import KernelDrivers.Fat.Accounting
import KernelDrivers.Fat.Search

/-!
# Allocations that fail

A call fails when it raises or when an exact-match request is refused.  `FailsAtomically`
says that whatever access of the FAT faults, a call that fails leaves everything as it
was.  The total is the problem: all clusters of the request are taken off it at the
start, and the unwind of the run loop gives only those back that were found.  So a
request fails atomically exactly when its first search finds everything.

## Main definitions

* `Fails` — the outcomes of a call that are failures.
* `Atomic` — FAT, bitmap, counts, total and map are as before.
-/

namespace KernelDrivers.Fat

variable {g : Geometry} {r : Request} {v : Vcb}

/-! ## A fault at the next access -/

section Fault

variable {vol : Volume} (h : vol.io = some 0)

include h

theorem stops_access : Stops access vol := by
  intro a t hok
  rw [access, h] at hok
  simp at hok

omit h in
theorem same_of_fatVerifyIndexIsValid {index : ℕ} {u : Unit} {t : Volume}
    (hok : fatVerifyIndexIsValid g index vol = .ok u t) : t = vol := by
  rw [fatVerifyIndexIsValid] at hok
  split at hok
  · simp [throw_run] at hok
  · simp only [pure, EStateM.pure, EStateM.Result.ok.injEq] at hok
    exact hok.2.symm

omit h in
theorem same_of_dirtyBitEntry {w : FatWidth} {entry e : ℕ} {t : Volume}
    (hok : dirtyBitEntry w entry vol = .ok e t) : t = vol := by
  unfold dirtyBitEntry at hok
  split at hok
  · simp only [pure, EStateM.pure, EStateM.Result.ok.injEq] at hok
    exact hok.2.symm
  · split at hok
    · cases w <;> simp only [pure, EStateM.pure, EStateM.Result.ok.injEq] at hok <;>
        exact hok.2.symm
    · simp [throw_run] at hok

theorem stops_fatSetFatEntry (index entry : ℕ) : Stops (fatSetFatEntry g index entry) vol := by
  rw [fatSetFatEntry]
  split
  · apply Stops.bind_of_same fun _ _ => same_of_dirtyBitEntry
    intro e
    exact (stops_access h).bind _
  · apply Stops.bind_of_same fun _ _ => same_of_fatVerifyIndexIsValid
    intro e
    exact (stops_access h).bind _

theorem stops_fatSetFatRun {start count : ℕ} (hcount : count ≠ 0) (chainTogether : Bool) :
    Stops (fatSetFatRun g start count chainTogether) vol := by
  rw [fatSetFatRun]
  apply Stops.bind_of_same fun _ _ => same_of_fatVerifyIndexIsValid
  intro _
  apply Stops.bind_of_same fun _ _ => same_of_fatVerifyIndexIsValid
  intro _
  rw [if_neg hcount]
  cases g.width with
  | fat12 => exact (stops_access h).bind _
  | fat16 => exact (stops_access h).bind _
  | fat32 =>
      dsimp only
      rw [setFatRunChunks]
      exact ((stops_access h).protect _ _).bind _

theorem stops_linkRun {prior cluster count : ℕ} (hcount : count ≠ 0) :
    Stops (RunLoop.linkRun g prior cluster count) vol := by
  have hrun : Stops (fatAllocateClusters g cluster count) vol := by
    rw [fatAllocateClusters]
    split
    · exact stops_fatSetFatEntry h _ _
    · exact stops_fatSetFatRun h hcount _
  rw [RunLoop.linkRun]
  split
  · exact (stops_fatSetFatEntry h _ _).bind _
  · exact hrun

end Fault

theorem stops_fatExamineFatEntries (h : v.vol.io = some 0) (i : ℕ) :
    Stops (fatExamineFatEntries g i) v := by
  rw [fatExamineFatEntries]
  exact (stops_access h).onPart.bind _

namespace RunLoop

variable {exactMatchRequired : Bool} {s : RunLoop}

theorem sat_switchWindow_of_fault (h : s.vcb.vol.io = some 0) :
    Sat (switchWindow g exactMatchRequired) s (fun b _ => b = false) (fun _ _ => True) := by
  rw [switchWindow]
  split
  · exact Sat.throw trivial
  apply Sat.get_bind
  dsimp only
  split
  · exact Sat.pure rfl
  apply Sat.set_bind
  generalize (if s.selectNextContigWindow = true ∧ s.vcb.currentWindow + 1 < g.numberOfWindows ∧
    0 < (s.vcb.windows (s.vcb.currentWindow + 1)).clustersFree then s.vcb.currentWindow + 1
    else fatSelectBestWindow g s.vcb) = fave
  split
  · exact Sat.throw trivial
  · apply Stops.sat
    apply Stops.bind
    apply Stops.onPart
    exact stops_fatExamineFatEntries h _

/-- A pass that meets the fault does not go on. -/
theorem pass_ne_ok_of_fault {s' : RunLoop} (h : s.vcb.vol.io = some 0) :
    pass g exactMatchRequired s ≠ .ok true s' := by
  have hsat : Sat (pass g exactMatchRequired) s (fun b _ => b = false) (fun _ _ => True) := by
    rw [pass]
    apply Sat.modify_bind
    apply Sat.get_bind
    rw [show ({ s with lockedBitMap := true } : RunLoop) = s.lock from rfl]
    cases hsearch : search g exactMatchRequired s.lock with
    | none =>
        apply Sat.modify_bind
        exact Sat.pure rfl
    | some t =>
        have hvcb : t.vcb = s.vcb := by
          rw [(search_found hsearch).rest]
          rfl
        apply Sat.set_bind
        by_cases hzero : t.clustersFound = 0
        · rw [if_pos hzero]
          exact sat_switchWindow_of_fault (hvcb ▸ h)
        · rw [if_neg hzero]
          apply Sat.bind (R := fun _ _ => False) _ (fun _ _ hf => hf.elim)
          rw [takeFound]
          apply Sat.modify_bind
          apply Sat.get_bind
          refine (Stops.bind (Stops.onPart (Stops.onPart (stops_linkRun ?_ hzero))) _).sat
          change t.vcb.vol.io = some 0
          rw [hvcb, h]
  intro hok
  exact absurd (hsat.ok hok) (by simp)

end RunLoop

/-- The volume with its fault at another access. -/
def Vcb.withFault (v : Vcb) (io : Option ℕ) : Vcb := { v with vol := { v.vol with io := io } }

/-- Some fault is the first one behind the choice of the hint. -/
theorem exists_fault (g : Geometry) (r : Request) (v : Vcb) :
    ∃ n, Sat (chooseHint g r) (v.withFault (some n)) (fun _ v' => v'.vol.io = some 0)
      (fun _ _ => False) := by
  have hexamine : ∀ i, Sat (fatExamineFatEntries g i) (v.withFault (some 1))
      (fun _ v' => v'.vol.io = some 0) (fun _ _ => False) := by
    intro i
    rw [fatExamineFatEntries]
    apply Sat.bind (R := fun _ v' => v'.vol.io = some 0)
    · apply Sat.onPart
      exact Sat.of_ok rfl rfl
    · intro _ v' hio
      apply Sat.modify
      dsimp only
      split
      · exact hio
      · exact hio
  rw [chooseHint]
  split
  · split
    · have hcond : ∀ io, (v.withFault io).window = v.window ∧
          (v.withFault io).currentWindow = v.currentWindow := fun io => ⟨rfl, rfl⟩
      by_cases hswitch : (r.absoluteClusterHint < v.window.firstCluster ∨
          v.window.lastCluster < r.absoluteClusterHint) ∧
          fatWindowOfCluster r.absoluteClusterHint ≠ v.currentWindow
      · refine ⟨1, ?_⟩
        apply Sat.bind (R := fun _ v' => v'.vol.io = some 0)
        · rw [switchToHint]
          apply Sat.get_bind
          dsimp only
          rw [(hcond _).1, (hcond _).2, if_pos hswitch]
          apply Sat.protect_const
          exact hexamine _
        · intro _ v' hio
          exact Sat.get_bind (Sat.pure hio)
      · refine ⟨0, ?_⟩
        apply Sat.bind (R := fun _ v' => v'.vol.io = some 0)
        · rw [switchToHint]
          apply Sat.get_bind
          dsimp only
          rw [(hcond _).1, (hcond _).2, if_neg hswitch]
          exact Sat.pure rfl
        · intro _ v' hio
          exact Sat.get_bind (Sat.pure hio)
    · exact ⟨0, Sat.pure rfl⟩
  · exact ⟨0, Sat.get_bind (Sat.pure rfl)⟩

/-! ## Failures -/

/-- The call of `r` failed and left `c'`: it raised, or it was refused. -/
def Fails (r : Request) (result : EStateM.Result Stop AllocCall Unit) (c' : AllocCall) : Prop :=
  (∃ status, result = .error (.raised status) c') ∨
    r.byteCount ≠ 0 ∧ result = .ok () c' ∧ c'.byteCount = 0

/-- Nothing has changed since `v` and the map is empty.  The bitmap is of the window that
is now the current one. -/
structure Atomic (g : Geometry) (v : Vcb) (c' : AllocCall) : Prop where
  entry : ∀ j, lookupEntry g.width c'.vcb.vol.fat j = lookupEntry g.width v.vol.fat j
  bitmap : ∀ c ∈ Finset.Icc c'.vcb.window.firstCluster c'.vcb.window.lastCluster,
    (c'.vcb.freeClusterBitMap.bit (c - c'.vcb.window.firstCluster) = false ↔
      lookupEntry g.width v.vol.fat c = 0)
  clustersFree : ∀ i < g.numberOfWindows,
    (c'.vcb.windows i).clustersFree = (v.windows i).clustersFree
  total : c'.vcb.numberOfFreeClusters = v.numberOfFreeClusters
  mcb : c'.mcb = []

/-- Whatever access faults, a failure of the call is atomic. -/
def FailsAtomically (g : Geometry) (r : Request) (v : Vcb) : Prop :=
  ∀ io fuel c', Fails r (fatAllocateDiskSpace g r fuel ⟨v.withFault io, [], r.byteCount⟩) c' →
    Atomic g v c'

/-- The books, the entries and the map are those from before the call. -/
structure Restored (g : Geometry) (c c' : AllocCall) : Prop where
  books : Books g c'.vcb (zeroSet g c.vcb.vol.fat) 0
  entry : ∀ j, lookupEntry g.width c'.vcb.vol.fat j = lookupEntry g.width c.vcb.vol.fat j
  mcb : c'.mcb = []

theorem Restored.atomic {io : Option ℕ} {bytes : ℕ} {c' : AllocCall}
    (hb : Books g v (zeroSet g v.vol.fat) 0) (h : Restored g ⟨v.withFault io, [], bytes⟩ c') :
    Atomic g v c' := by
  have hb' : Books g c'.vcb (zeroSet g v.vol.fat) 0 := h.books
  have hzero : zeroSet g c'.vcb.vol.fat = zeroSet g v.vol.fat := zeroSet_congr h.entry
  have hacc : Accounting g c'.vcb := (hzero ▸ hb').accounting
  refine ⟨h.entry, fun c hc => ?_, fun i hi => ?_, ?_, h.mcb⟩
  · rw [hacc.bitmap c hc, h.entry]
    rfl
  · rw [hb'.free i hi, hb.free i hi]
  · have h1 := hb'.total
    have h2 := hb.total
    omega

/-- A failure in the run loop.  `k` clusters are missing from the total, and none is
exactly when the loop stopped in a pass that had found everything. -/
structure FailedInLoop (g : Geometry) (r : Request) (fuel : ℕ) (c c' : AllocCall)
    (s : RunLoop) (k : ℕ) : Prop where
  admitted : r.clusterCount g ≤ c.vcb.numberOfFreeClusters
  slow : ¬ FastPath g r c.vcb (zeroSet g c.vcb.vol.fat)
  fuel_ne : r.exactMatchRequired = false → fuel ≠ 0
  run_ne : ∀ t, RunLoop.run g r.exactMatchRequired fuel s ≠ .ok true t
  total : c'.vcb.numberOfFreeClusters + k = (zeroSet g c.vcb.vol.fat).card
  clean : k = 0 ↔ RunLoop.StopsCompleting g r.exactMatchRequired fuel s
  restored : k = 0 → Restored g c c'

namespace RunLoop

variable {e : ℕ → ℕ} {F : Finset ℕ} {C : ℕ} {s : RunLoop} {fuel : ℕ}

theorem run_zero (hrem : s.clustersRemaining ≠ 0) :
    run g false 0 s = .error .outOfFuel s := by
  have hloop : loop g false 0 s = .error .outOfFuel s := by
    rw [loop, get_bind_run, if_neg hrem]
    rfl
  change EStateM.bind (protect Stop.isRaised (unwind g) _) _ s = _
  rw [EStateM.bind, protect, if_neg (by simp), hloop]
  rfl

/-- A loop whose first search finds everything completes in the first pass or stops in
it. -/
theorem Taken.stopsCompleting (h : Taken g e F C [] s)
    (hF : ∀ c, c ∈ F ↔ c ∈ g.clusters ∧ e c = 0) (hC : C * g.clusterSize ≤ 2 ^ 32) (hpos : 0 < C)
    (hlinks : 1 < g.numberOfWindows → g.numberOfClusters + 1 < 2 ^ g.width.linkBits)
    (hc : CompletesIn g false s) (hfuel : fuel ≠ 0) (hrun : ∀ t, run g false fuel s ≠ .ok true t) :
    StopsCompleting g false fuel s := by
  obtain ⟨n, rfl⟩ := Nat.exists_eq_succ_of_ne_zero hfuel
  have hrem : s.clustersRemaining ≠ 0 := by
    have := h.remaining
    rw [List.length_nil] at this
    omega
  refine ⟨by simp, s, ?_, hc⟩
  rw [failingPass_succ n hrem]
  cases hpass : pass g false s with
  | error stop s' => rfl
  | ok b s' =>
      cases b with
      | false => rfl
      | true =>
          exfalso
          obtain ⟨t, hsearch, hstep⟩ := (h.sat_pass _ hF hC hrem hlinks).ok hpass
          obtain ⟨t', hsearch', hfound⟩ := hc
          rw [hsearch] at hsearch'
          rw [← Option.some.inj hsearch'] at hfound
          rcases hstep with htakes | hswitch
          · obtain ⟨vol', heq, -⟩ := htakes.result
            have hf := search_found hsearch
            have hrem' : t.clustersRemaining = s.clustersRemaining := by
              rw [hf.rest]
              rfl
            have hzero : s'.clustersRemaining = 0 := by
              rw [heq]
              change t.clustersRemaining - t.clustersFound = 0
              omega
            refine hrun s' (run_of_loop (by simp) ?_)
            rw [loop_succ _ n hrem, hpass]
            exact loop_of_zero n hzero
          · exact hrem (hfound ▸ hswitch.found)

end RunLoop

section Whole

variable {c c' : AllocCall} {fuel : ℕ} (hg : g.Sound) (hr : r.byteCount ≠ 0)
  (hb : Books g c.vcb (zeroSet g c.vcb.vol.fat) 0) (hmcb : c.mcb = [])

include hg hr hb hmcb

/-- **A call that failed.**  Before the run loop everything is restored. -/
theorem Fails.restored (h : Fails r (fatAllocateDiskSpace g r fuel c) c') :
    (c.vcb.numberOfFreeClusters < r.clusterCount g ∨
        (∃ stop v, chooseHint g r (c.admitted g r).vcb = .error stop v) ∨
        FastPath g r c.vcb (zeroSet g c.vcb.vol.fat)) ∧ Restored g c c' ∨
      ∃ hints v k, chooseHint g r (c.admitted g r).vcb = .ok hints v ∧
      FailedInLoop g r fuel c c' (RunLoop.start g r hints.2 { c.admitted g r with vcb := v }) k := by
  have hne := requestSize_fst_ne_zero (g := g) hr
  by_cases hadmitted : c.vcb.numberOfFreeClusters < r.clusterCount g
  · refine Or.inl ⟨Or.inl hadmitted, ?_⟩
    rw [fatAllocateDiskSpace_eq _ hr, if_pos hadmitted] at h
    obtain ⟨status, herr⟩ | ⟨-, hok, -⟩ := h
    · simp only [EStateM.Result.error.injEq] at herr
      rw [← herr.2]
      exact ⟨hb, fun _ => rfl, hmcb⟩
    · simp at hok
  rcases fatAllocateDiskSpace_cases hr hb hadmitted with
    ⟨stop, v, hch, heq⟩ | ⟨hints, v, hch, hbooks, hchosen, hpath⟩
  · refine Or.inl ⟨Or.inr (Or.inl ⟨stop, v, hch⟩), ?_⟩
    obtain ⟨-, -, -, hbooks, hentry⟩ := (sat_chooseHint hr (hb.admitted hadmitted) rfl).error hch
    rw [heq] at h
    obtain ⟨status, herr⟩ | ⟨-, hok, -⟩ := h
    · simp only [EStateM.Result.error.injEq] at herr
      rw [← herr.2]
      exact ⟨hbooks, hentry, hmcb⟩
    · simp at hok
  cases hpath with
  | fast start h2 hclear hfast heq =>
      refine Or.inl ⟨Or.inr (Or.inr hfast), ?_⟩
      have hsat := sat_allocateFast (c := { c.admitted g r with vcb := v }) (k := 0) hr hbooks h2 hclear hmcb rfl
      rw [heq] at h
      obtain ⟨status, herr⟩ | ⟨-, hok, hzero⟩ := h
      · obtain ⟨-, -, hbooks', hmcb', hentry⟩ := hsat.error herr
        refine ⟨hbooks', fun j => ?_, hmcb'⟩
        rw [hentry, hchosen.fat]
      · obtain ⟨-, -, hbytes, -⟩ := hsat.ok hok
        rw [hzero] at hbytes
        exact absurd hbytes.symm hne
  | slow hslow heq =>
      right
      rw [heq, allocateSlow] at h
      have htaken := RunLoop.taken_start (c := { c.admitted g r with vcb := v })
        hints.2 hbooks hmcb
      have hsat := htaken.sat_run r.exactMatchRequired fuel hg
        (fun x => by rw [hchosen.fat, mem_zeroSet, Geometry.mem_clusters])
        (r.clusterCount_mul_le hr) (r.clusterCount_pos hr) rfl
      have hmake : ∀ s, RunLoop.Failed g (lookupEntry g.width v.vol.fat) (zeroSet g c.vcb.vol.fat)
          (RunLoop.StopsCompleting g r.exactMatchRequired fuel
            (RunLoop.start g r hints.2 { c.admitted g r with vcb := v })) s →
          c'.vcb = s.vcb → c'.mcb = s.mcb → (r.exactMatchRequired = false → fuel ≠ 0) →
          (∀ t, RunLoop.run g r.exactMatchRequired fuel
            (RunLoop.start g r hints.2 { c.admitted g r with vcb := v }) ≠ .ok true t) →
          ∃ hints v k, chooseHint g r (c.admitted g r).vcb = .ok hints v ∧ FailedInLoop g r fuel c c'
            (RunLoop.start g r hints.2 { c.admitted g r with vcb := v }) k := by
        rintro s ⟨k, htotal, hclean, hres⟩ hvcb hm hfuel hne
        refine ⟨hints, v, k, hch, by omega, hslow, hfuel, hne, hvcb ▸ htotal, hclean, fun h0 => ?_⟩
        obtain ⟨hb', he', hm'⟩ := hres h0
        refine ⟨hvcb ▸ hb', fun j => ?_, hm.trans hm'⟩
        rw [hvcb, he', hchosen.fat]
      cases hrun : RunLoop.run g r.exactMatchRequired fuel
          (RunLoop.start g r hints.2 { c.admitted g r with vcb := v }) with
      | error stop s =>
          rw [hrun] at h
          obtain ⟨status, herr⟩ | ⟨-, hok, -⟩ := h
          · simp only [EStateM.Result.error.injEq] at herr
            refine hmake s (hsat.error hrun (by rw [herr.1]; rfl)) ?_ ?_ ?_ (by simp [hrun])
            · rw [← herr.2]
            · rw [← herr.2]
            · rintro hex rfl
              rw [hex, RunLoop.run_zero (r.clusterCount_pos hr).ne'] at hrun
              simp only [EStateM.Result.error.injEq] at hrun
              rw [herr.1] at hrun
              exact absurd hrun.1 (by simp)
          · simp at hok
      | ok b s =>
          cases b with
          | true =>
              rw [hrun] at h
              obtain ⟨status, herr⟩ | ⟨-, hok, hzero⟩ := h
              · simp at herr
              · simp only [EStateM.Result.ok.injEq, true_and] at hok
                rw [← hok] at hzero
                exact absurd hzero hne
          | false =>
              obtain ⟨hex, hfailed⟩ := hsat.ok hrun
              rw [hrun] at h
              obtain ⟨status, herr⟩ | ⟨-, hok, -⟩ := h
              · simp at herr
              · simp only [EStateM.Result.ok.injEq, true_and] at hok
                refine hmake s hfailed ?_ ?_ (by simp [hex]) (by simp [hrun])
                · rw [← hok]
                · rw [← hok]

end Whole

/-- A run loop that raises is unwound and raises. -/
theorem RunLoop.run_of_raise {exactMatchRequired : Bool} {fuel : ℕ} {s t u : RunLoop}
    {status : Status} (hnot : ¬ (exactMatchRequired = true ∧ g.numberOfWindows = 1))
    (hloop : loop g exactMatchRequired fuel s = .error (.raised status) t)
    (hunwind : unwind g t = .ok () u) :
    run g exactMatchRequired fuel s = .error (.raised status) u := by
  change EStateM.bind (protect Stop.isRaised (unwind g) _) _ s = _
  rw [EStateM.bind, protect, if_neg hnot, hloop]
  dsimp only
  rw [if_pos (Stop.isRaised_raised _), hunwind]

/-- Unwinding a loop that has taken nothing. -/
theorem RunLoop.exists_unwind {s : RunLoop} (hlocked : s.lockedBitMap = true)
    (hmcb : s.mcb = []) : ∃ t, unwind g s = .ok () t := by
  have hsat : Sat (unwind g) s (fun _ _ => True) (fun _ _ => False) := by
    rw [unwind]
    apply Sat.modify_bind
    apply Sat.get_bind
    have hrun : unwindRun g s = s := by rw [unwindRun, if_pos hlocked]
    rw [hrun, hmcb]
    apply Sat.bind (R := fun _ _ => True)
    · apply Sat.protect_const
      apply Sat.onPart
      exact Sat.pure trivial
    · intro _ _ _
      exact Sat.modify trivial
  obtain ⟨_, t, hok, -⟩ := hsat.exists_ok fun _ _ hf => hf
  exact ⟨t, hok⟩

namespace RunLoop.Taken

variable {e : ℕ → ℕ} {F : Finset ℕ} {C : ℕ} {s : RunLoop} {exactMatchRequired : Bool}

/-- When the first access of the run loop faults, the slow path is refused or raises. -/
theorem run_of_fault (h : Taken g e F C [] s) (hg : g.Sound)
    (hF : ∀ c, c ∈ F ↔ c ∈ g.clusters ∧ e c = 0) (hC : C * g.clusterSize ≤ 2 ^ 32)
    (hrem : s.clustersRemaining ≠ 0) (hlocked : s.lockedBitMap = true)
    (hsearch : ∀ t, search g exactMatchRequired s.lock = some t → g.numberOfWindows = 1 →
      t.clustersFound ≠ 0)
    (hio : s.vcb.vol.io = some 0) :
    ∃ t, run g exactMatchRequired 1 s = .ok false t ∨
      ∃ status, run g exactMatchRequired 1 s = .error (.raised status) t := by
  have hrefused : ∀ t, t.lockedBitMap = true → t.mcb = [] →
      (if exactMatchRequired = true ∧ g.numberOfWindows = 1 then pure false
        else loop g exactMatchRequired 1 : EStateM Stop RunLoop Bool) s = .ok false t →
      ∃ u, run g exactMatchRequired 1 s = .ok false u := by
    intro t hl hm hbody
    obtain ⟨u, hu⟩ := exists_unwind (g := g) hl hm
    refine ⟨u, ?_⟩
    change EStateM.bind (protect Stop.isRaised (unwind g) _) _ s = _
    rw [EStateM.bind, protect, hbody]
    change EStateM.bind (unwind g) _ t = _
    rw [EStateM.bind, hu]
    rfl
  by_cases hnot : exactMatchRequired = true ∧ g.numberOfWindows = 1
  · obtain ⟨u, hu⟩ := hrefused s hlocked (h.mcb hrem) (by rw [if_pos hnot]; rfl)
    exact ⟨u, Or.inl hu⟩
  have hpass := h.sat_pass exactMatchRequired hF hC hrem
    fun _ => hg.links
  have hloop := loop_succ (g := g) exactMatchRequired 0 hrem
  cases hp : pass g exactMatchRequired s with
  | ok b t =>
      rw [hp] at hloop
      cases b with
      | true => exact absurd hp (pass_ne_ok_of_fault hio)
      | false =>
          obtain ⟨-, href, -⟩ := hpass.ok hp
          have hrem' : t.clustersRemaining ≠ 0 := by
            rw [href.remaining]
            exact hrem
          obtain ⟨u, hu⟩ := hrefused t href.locked (href.taken.mcb hrem')
            (by rw [if_neg hnot]; exact hloop)
          exact ⟨u, Or.inl hu⟩
  | error stop t =>
      rw [hp] at hloop
      rcases hpass.error hp with ⟨-, hone, t', ht', hfound⟩ | ⟨hstop, k, hraises, -⟩
      · exact absurd hfound (hsearch t' ht' hone)
      · have hsat := RunLoop.sat_unwind hg hF hraises.tidy
        obtain ⟨_, u, hu, -⟩ := hsat.exists_ok fun _ _ hE => hE.1 hraises.io'
        rw [hstop] at hloop
        exact ⟨u, Or.inr ⟨_, run_of_raise hnot hloop hu⟩⟩

end RunLoop.Taken

section Main

variable (h : Consistent g v)

include h

/-- A request that is empty or not admitted, or whose first search finds all of it, fails
atomically. -/
theorem failsAtomically_of_found (hfound : r.byteCount = 0 ∨
    v.numberOfFreeClusters < r.clusterCount g ∨
    FastPath g r v (zeroSet g v.vol.fat) ∨ FoundAtOnce g r v (zeroSet g v.vol.fat)) :
    FailsAtomically g r v := by
  intro io fuel c' hfails
  have hb : Books g (v.withFault io) (zeroSet g v.vol.fat) 0 := h.books.setVol _
  by_cases hr : r.byteCount = 0
  · rw [fatAllocateDiskSpace, if_pos hr] at hfails
    obtain ⟨status, herr⟩ | ⟨hr', -⟩ := hfails
    · simp [pure, EStateM.pure] at herr
    · exact absurd hr hr'
  rcases hfails.restored h.sound hr hb rfl with ⟨-, hres⟩ | ⟨hints, v1, k, hch, hfailed⟩
  · exact hres.atomic h.books
  refine (hfailed.restored (hfailed.clean.mpr ?_)).atomic h.books
  have hadmitted : ¬ v.numberOfFreeClusters < r.clusterCount g := not_lt.mpr hfailed.admitted
  have honce : FoundAtOnce g r v (zeroSet g v.vol.fat) :=
    ((hfound.resolve_left hr).resolve_left hadmitted).resolve_left hfailed.slow
  obtain ⟨hbooks, hchosen⟩ := (sat_chooseHint hr
    (Books.admitted (c := ⟨v.withFault io, [], r.byteCount⟩) hb hadmitted) rfl).ok hch
  have hcompl := (RunLoop.completesIn_start_iff
    (c := { AllocCall.admitted g r ⟨v.withFault io, [], r.byteCount⟩ with vcb := v1 })
    hchosen hr hbooks hfailed.slow).mpr honce
  have hex := honce.1
  have hfuel := hfailed.fuel_ne hex
  have hrun := hfailed.run_ne
  rw [hex] at hcompl hrun ⊢
  refine (RunLoop.taken_start _ hbooks rfl).stopsCompleting (fun x => ?_) (r.clusterCount_mul_le hr)
    (r.clusterCount_pos hr) (fun _ => h.sound.links) hcompl hfuel hrun
  dsimp only
  rw [hchosen.fat, mem_zeroSet, Geometry.mem_clusters]
  rfl

/-- Every other request has a failure that is not atomic. -/
theorem not_failsAtomically (hr : r.byteCount ≠ 0)
    (hadmitted : ¬ v.numberOfFreeClusters < r.clusterCount g)
    (hslow : ¬ FastPath g r v (zeroSet g v.vol.fat))
    (honce : ¬ FoundAtOnce g r v (zeroSet g v.vol.fat)) : ¬ FailsAtomically g r v := by
  intro hatomic
  obtain ⟨n, hn⟩ := exists_fault g r (AllocCall.admitted g r ⟨v, [], r.byteCount⟩).vcb
  obtain ⟨hints, v1, hch, hio⟩ := hn.exists_ok fun _ _ hf => hf
  change chooseHint g r (AllocCall.admitted g r ⟨v.withFault (some n), [], r.byteCount⟩).vcb = _ at hch
  have hb : Books g (v.withFault (some n)) (zeroSet g v.vol.fat) 0 := h.books.setVol _
  obtain ⟨hbooks, hchosen⟩ := (sat_chooseHint hr
    (Books.admitted (c := ⟨v.withFault (some n), [], r.byteCount⟩) hb hadmitted) rfl).ok hch
  have hC := r.clusterCount_pos (g := g) hr
  have htaken := RunLoop.taken_start
    (c := { AllocCall.admitted g r ⟨v.withFault (some n), [], r.byteCount⟩ with vcb := v1 }) hints.2 hbooks rfl
  -- the call with that fault fails
  obtain ⟨t, ht⟩ := htaken.run_of_fault h.sound
    (fun x => by rw [hchosen.fat, mem_zeroSet, Geometry.mem_clusters]; rfl)
    (r.clusterCount_mul_le hr) hC.ne' rfl
    (fun t ht hone => (RunLoop.searched_start hchosen hr hbooks ht).found_ne_zero rfl hC.ne'
      (RunLoop.nonempty_of_one (s := (RunLoop.start g r hints.2 _).lock) hbooks hC.ne' hone)) hio
  have hfails : Fails r (fatAllocateDiskSpace g r 1 ⟨v.withFault (some n), [], r.byteCount⟩)
      { AllocCall.admitted g r ⟨v.withFault (some n), [], r.byteCount⟩ with
        vcb := t.vcb, mcb := t.mcb, byteCount := 0 } := by
    rcases fatAllocateDiskSpace_cases (c := ⟨v.withFault (some n), [], r.byteCount⟩)
      hr hb hadmitted with ⟨stop, v2, hch', -⟩ | ⟨hints', v2, hch', -, -, hpath⟩
    · rw [hch] at hch'
      simp at hch'
    · rw [hch] at hch'
      obtain ⟨rfl, rfl⟩ := hch'
      cases hpath with
      | fast _ _ _ hfast => exact absurd hfast hslow
      | slow _ heq =>
          rw [heq, allocateSlow]
          rcases ht with hok | ⟨status, herr⟩
          · rw [hok]
            exact Or.inr ⟨hr, rfl, rfl⟩
          · rw [herr]
            exact Or.inl ⟨status, rfl⟩
  have htotal := (hatomic _ _ _ hfails).total
  rcases hfails.restored h.sound hr hb rfl with ⟨hwhy, -⟩ | ⟨hints', v2, k, hch', hfailed⟩
  · rcases hwhy with hlt | ⟨stop, v2, hch'⟩ | hfast
    · exact hadmitted hlt
    · rw [hch] at hch'
      simp at hch'
    · exact hslow hfast
  rw [hch] at hch'
  obtain ⟨rfl, rfl⟩ := hch'
  have hk : k = 0 := by
    have h1 := hfailed.total
    have h2 := h.books.total
    change _ = (zeroSet g v.vol.fat).card at h1
    omega
  obtain ⟨-, u, hu, hcompl⟩ := hfailed.clean.mp hk
  have hu : u = RunLoop.start g r hints.2
      { AllocCall.admitted g r ⟨v.withFault (some n), [], r.byteCount⟩ with vcb := v1 } := by
    rw [RunLoop.failingPass_succ 0 hC.ne'] at hu
    split at hu
    · simp [RunLoop.failingPass] at hu
    · exact (Option.some.inj hu).symm
  rw [hu] at hcompl
  have hfound := (RunLoop.completesIn_start_iff
    (c := { AllocCall.admitted g r ⟨v.withFault (some n), [], r.byteCount⟩ with vcb := v1 })
    hchosen hr hbooks hslow).mp hcompl
  exact honce hfound

end Main

/-- **When failures are atomic.**  In a consistent state a failure of the call restores
everything, whatever access faults, exactly when the request is empty or not admitted, or
its first search finds all of it. -/
theorem failsAtomically_iff (h : Consistent g v) :
    FailsAtomically g r v ↔ r.byteCount = 0 ∨ v.numberOfFreeClusters < r.clusterCount g ∨
      FastPath g r v (zeroSet g v.vol.fat) ∨ FoundAtOnce g r v (zeroSet g v.vol.fat) := by
  constructor
  · intro hatomic
    by_contra hnot
    simp only [not_or] at hnot
    exact not_failsAtomically h hnot.1 hnot.2.1 hnot.2.2.1 hnot.2.2.2 hatomic
  · exact failsAtomically_of_found h

/-- A request for one cluster on an empty diskette is on the fast path. -/
theorem fastPath_floppy {v : Vcb} (hfat : v.vol.fat = fun _ => 0)
    (hbooks : Books floppy v (zeroSet floppy v.vol.fat) 0) :
    FastPath floppy (request 512 (by decide)) v (zeroSet floppy v.vol.fat) := by
  have hC : (request 512 (by decide)).clusterCount floppy = 1 := by decide
  have hcur := hbooks.currentWindow_eq_zero floppy_numberOfWindows
  rw [FastPath, if_neg (by simp [Request.Hinted, request])]
  refine ⟨2, ?_⟩
  rw [startWindow, if_neg (by simp [Request.Hinted, request]), hC, freeRun_one_iff, hcur,
    Finset.mem_inter, mem_zeroSet, Geometry.mem_window, floppy.firstOf_zero, floppy_endOf,
    floppy_numberOfClusters, hfat, floppy_width]
  decide

/-- On a mounted diskette that is empty a request for one cluster fails atomically. -/
theorem failsAtomically_floppy :
    ∃ v, Consistent floppy v ∧ FailsAtomically floppy (request 512 (by decide)) v := by
  obtain ⟨v, -, hfat, hbooks, -⟩ := exists_mount floppy ⟨fun _ => 0, [], none⟩ rfl
  have hcons : Consistent floppy v := ⟨floppy_sound, hbooks⟩
  exact ⟨v, hcons, (failsAtomically_iff hcons).mpr
    (Or.inr (Or.inr (Or.inl (fastPath_floppy hfat hbooks))))⟩

/-- An exact-match request for cluster 2. -/
def exactRequest : Request := ⟨2, 512, true, by decide, by decide⟩

/-- Cluster 2 of a diskette is in use and an exact-match request asks for it.  It is
refused, and the total has lost a cluster. -/
theorem not_failsAtomically_floppy : ∃ v,
    fatSetupAllocationSupport floppy (unmounted ⟨fun i => if i = 3 then 1 else 0, [], none⟩) =
      .ok () v ∧ Consistent floppy v ∧ ¬ FailsAtomically floppy exactRequest v := by
  obtain ⟨v, hsetup, hfat, hbooks, -⟩ :=
    exists_mount floppy ⟨fun i => if i = 3 then 1 else 0, [], none⟩ rfl
  have hcons : Consistent floppy v := ⟨floppy_sound, hbooks⟩
  have hC : exactRequest.clusterCount floppy = 1 := by decide
  have hhint : exactRequest.Hinted floppy := by
    rw [Request.Hinted, floppy_numberOfClusters]
    decide
  have h2 : 2 ∉ zeroSet floppy v.vol.fat := by
    rw [mem_zeroSet, hfat, floppy_width]
    decide
  have h3 : 3 ∈ zeroSet floppy v.vol.fat := by
    rw [mem_zeroSet, hfat, floppy_width, floppy_numberOfClusters]
    decide
  refine ⟨v, hsetup, hcons, not_failsAtomically hcons (by decide) ?_ ?_ fun h => ?_⟩
  · have htotal := hbooks.total
    have hpos := Finset.card_pos.mpr ⟨3, h3⟩
    omega
  · rw [FastPath, if_pos hhint, hC, freeRun_one_iff, startCluster, if_pos hhint]
    exact fun h => h2 (Finset.mem_inter.mp h).1
  · exact absurd h.1 (by decide)

end KernelDrivers.Fat
