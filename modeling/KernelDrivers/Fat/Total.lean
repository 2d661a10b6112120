import KernelDrivers.Fat.AllocSpec

/-!
# The run loop and the total

Several requests may have taken their clusters off the volume's total without having found them
yet.  The run loop adds to the total but never reads it, so it does the same whatever the others
have taken off.

## Main definitions

* `Vcb.addTotal p` — add `p` clusters to the total, in 32 bits.

## Main results

* `RunLoop.mirrors_run` — the slow path with another total.
* `Books.addTotal` — the books with more clusters off the total.
-/

namespace KernelDrivers.Fat

variable {g : Geometry} {v : Vcb} {k : ℕ}

/-- Add `p` clusters to the total, in 32 bits. -/
def Vcb.addTotal (p : ℕ) (v : Vcb) : Vcb :=
  { v with numberOfFreeClusters := ulong (v.numberOfFreeClusters + p) }

section Total

variable {p : ℕ}

@[simp] theorem windows_addTotal (v : Vcb) : (v.addTotal p).windows = v.windows := rfl

@[simp] theorem currentWindow_addTotal (v : Vcb) :
    (v.addTotal p).currentWindow = v.currentWindow := rfl

@[simp] theorem setFree_addTotal (v : Vcb) (i n : ℕ) :
    (v.addTotal p).setFree i n = (v.setFree i n).addTotal p := rfl

@[simp] theorem fatUnreserveClusters_addTotal (v : Vcb) (index count : ℕ) :
    fatUnreserveClusters (v.addTotal p) index count =
      (fatUnreserveClusters v index count).addTotal p := rfl

/-- Two additions to the total may be made in either order. -/
theorem addTotal_comm (v : Vcb) (count : ℕ) :
    ({ v.addTotal p with
        numberOfFreeClusters := ulong ((v.addTotal p).numberOfFreeClusters + count) } : Vcb) =
      Vcb.addTotal p { v with numberOfFreeClusters := ulong (v.numberOfFreeClusters + count) } := by
  simp only [Vcb.addTotal, ulong, Nat.mod_add_mod, Nat.add_right_comm]

theorem addFree_addTotal (fuel : ℕ) (v : Vcb) (i start length : ℕ) :
    addFree fuel (v.addTotal p) i start length = (addFree fuel v i start length).addTotal p := by
  induction fuel generalizing v i start length with
  | zero => rfl
  | succ fuel ih =>
      simp only [addFree, windows_addTotal, setFree_addTotal, ih, apply_ite (Vcb.addTotal p)]

theorem releaseRun_addTotal (v : Vcb) (run : ℕ × ℕ) :
    releaseRun g (v.addTotal p) run = (releaseRun g v run).addTotal p := by
  have hwindow : (v.addTotal p).window = v.window := rfl
  rw [releaseRun, releaseRun, hwindow]
  dsimp only
  cases overlap v.window run.1 run.2 with
  | none =>
      dsimp only
      rw [addFree_addTotal, addTotal_comm]
  | some part =>
      dsimp only
      split
      · rfl
      · rw [fatUnreserveClusters_addTotal, addFree_addTotal, addTotal_comm]

theorem putBack_addTotal (v : Vcb) (window cluster count : ℕ) :
    putBack (v.addTotal p) window cluster count = (putBack v window cluster count).addTotal p := by
  by_cases hw : window = v.currentWindow
  · rw [putBack, putBack, currentWindow_addTotal, if_pos hw, if_pos hw]
    exact addTotal_comm (Vcb.setFree (fatUnreserveClusters v _ count) window _) count
  · rw [putBack, putBack, currentWindow_addTotal, if_neg hw, if_neg hw]
    exact addTotal_comm (Vcb.setFree v window _) count

theorem Vcb.mirrors_onVol {α : Type} (x : EStateM Stop Volume α) (v : Vcb) :
    Mirrors (Vcb.addTotal p) (Vcb.onVol x) (Vcb.onVol x) v := by
  have hx : Mirrors id x x v.vol := Mirrors.refl x
  exact Mirrors.onPart hx rfl fun _ => rfl

theorem mirrors_fatDeallocateDiskSpace (mcb : Mcb) (v : Vcb) :
    Mirrors (Vcb.addTotal p) (fatDeallocateDiskSpace g mcb) (fatDeallocateDiskSpace g mcb) v := by
  rw [fatDeallocateDiskSpace]
  split
  · exact Mirrors.pure _
  apply Mirrors.bind (Vcb.mirrors_onVol _ v)
  intro _ v
  apply Mirrors.modify
  induction mcbRuns g mcb generalizing v with
  | nil => rfl
  | cons run runs ih => rw [List.foldl_cons, List.foldl_cons, releaseRun_addTotal, ih]

/-- Replace the count of free clusters. -/
def Scan.setCount (n : ℕ) (s : Scan) : Scan := { s with freeClusterCount := n }

theorem Scan.readEntry_setCount (fat : Bytes) (i n : ℕ) (s : Scan) :
    readEntry g fat i (s.setCount n) =
      ((readEntry g fat i s).1, (readEntry g fat i s).2.setCount n) := by
  have hpage : (s.setCount n).nextPage = s.nextPage.setCount n := by
    rw [nextPage, nextPage]
    change (if s.pos % pageSize = 0 then _ else _) = _
    split <;> rfl
  rw [readEntry, readEntry, hpage]
  dsimp only
  cases g.width <;> rfl

/-- A scan that does not count goes on in the same way from any count. -/
theorem Scan.step_setCount {m : ScanMode} (hsetup : m.setupWindows = false)
    (hcounting : m.counting = false) (fat : Bytes) (i n : ℕ) (s : Scan) :
    step g fat m (s.setCount n) i = (step g fat m s i).setCount n := by
  have hnext : ∀ t : Scan, nextWindow g m i t = t := fun t => if_neg (by simp [hsetup])
  have hend : ∀ t : Scan, (t.setCount n).endRun m i = (t.endRun m i).setCount n := by
    intro t
    rw [endRun, endRun, hcounting]
    change (if t.currentRun = .freeClusters then _ else _) = _
    split <;> rfl
  have htake : ∀ (entry : ℕ) (t : Scan),
      (t.setCount n).takeEntry m i entry = (t.takeEntry m i entry).setCount n := by
    intro entry t
    have hrun : (t.setCount n).currentRun = t.currentRun := rfl
    rw [takeEntry_eq, takeEntry_eq, hend, hrun]
    cases t.currentRun <;> dsimp only <;> split <;> rfl
  rw [step, step]
  simp only [hnext, ite_self, readEntry_setCount, htake]

theorem scanEntries_addTotal {m : ScanMode} (hsetup : m.setupWindows = false)
    (hcounting : m.counting = false) (fat : Bytes) (v : Vcb) (window : ℕ) :
    (scanEntries g fat m (v.addTotal p) window).bitMap = (scanEntries g fat m v window).bitMap := by
  have hfold : ∀ (is : List ℕ) (n : ℕ) (s : Scan),
      is.foldl (Scan.step g fat m) (s.setCount n) = (is.foldl (Scan.step g fat m) s).setCount n := by
    intro is n s
    induction is generalizing s with
    | nil => rfl
    | cons i is ih => rw [List.foldl_cons, List.foldl_cons, Scan.step_setCount hsetup hcounting, ih]
  have hstart : Scan.start g fat m (v.addTotal p) window =
      (Scan.start g fat m v window).setCount (v.addTotal p).numberOfFreeClusters := rfl
  rw [scanEntries, scanEntries, hstart, hfold, Scan.endRun, Scan.endRun, hcounting]
  generalize (List.range' m.startIndex (m.endIndex + 1 - m.startIndex)).foldl
    (Scan.step g fat m) (Scan.start g fat m v window) = t
  change (if t.currentRun = .freeClusters then _ else _ : Scan).bitMap = _
  split <;> rfl

/-- A switch between several windows does not count free clusters. -/
theorem mirrors_fatExamineFatEntries (hmany : 1 < g.numberOfWindows) (i : ℕ) (v : Vcb) :
    Mirrors (Vcb.addTotal p) (fatExamineFatEntries g i) (fatExamineFatEntries g i) v := by
  have hw32 := (Geometry.one_lt_numberOfWindows_iff.mp hmany).1
  rw [fatExamineFatEntries]
  apply Mirrors.bind (Vcb.mirrors_onVol _ v)
  intro _ v
  apply Mirrors.modify
  simp only [hw32, hmany, and_self, decide_true, Bool.not_true, Bool.false_eq_true, if_false]
  rw [scanEntries_addTotal rfl rfl]
  rfl

namespace RunLoop

variable {exactMatchRequired : Bool} {s : RunLoop}

/-- The same for the run loop. -/
def addTotal (p : ℕ) (s : RunLoop) : RunLoop := { s with vcb := s.vcb.addTotal p }

theorem mirrors_onVcb {x : EStateM Stop Vcb Unit}
    (h : Mirrors (Vcb.addTotal p) x x s.vcb) : Mirrors (addTotal p) (onVcb x) (onVcb x) s :=
  Mirrors.onPart h rfl fun _ => rfl

theorem search_addTotal (s : RunLoop) :
    search g exactMatchRequired (s.addTotal p) =
      (search g exactMatchRequired s).map (addTotal p) := by
  have hhint : ∀ s : RunLoop, searchHint g exactMatchRequired (s.addTotal p) =
      (searchHint g exactMatchRequired s).map (addTotal p) := by
    intro s
    simp only [searchHint, apply_ite (Option.map (addTotal p))]
    rfl
  have hluck : ∀ s : RunLoop, searchPotLuck g (s.addTotal p) = (searchPotLuck g s).addTotal p := by
    intro s
    have hrun : potLuckRun (s.addTotal p) = potLuckRun s := rfl
    simp only [searchPotLuck, hrun, apply_ite (addTotal p)]
    rfl
  have hlast : ∀ t : RunLoop,
      (if (t.addTotal p).windowRelativeHint = 0 ∧ (t.addTotal p).clustersFound = 0 then
        searchPotLuck g (t.addTotal p) else t.addTotal p) =
      addTotal p (if t.windowRelativeHint = 0 ∧ t.clustersFound = 0 then searchPotLuck g t else t) := by
    intro t
    rw [hluck, apply_ite (addTotal p)]
    rfl
  have hflag : (s.addTotal p).selectNextContigWindow = s.selectNextContigWindow := rfl
  have hzero : (s.addTotal p).windowRelativeHint = s.windowRelativeHint := rfl
  simp only [search, hflag, hzero]
  by_cases hsel : s.selectNextContigWindow = true
  · rw [if_pos hsel, if_pos hsel]
    rfl
  rw [if_neg hsel, if_neg hsel]
  by_cases hne : s.windowRelativeHint ≠ 0
  · rw [if_pos hne, if_pos hne]
    refine (congrArg (Option.map _) (hhint { s with clustersFound := 0 })).trans ?_
    rw [Option.map_map, Option.map_map]
    congr 1
    exact funext hlast
  · rw [if_neg hne, if_neg hne]
    exact congrArg some (hlast { s with clustersFound := 0 })

theorem unwindRun_addTotal (s : RunLoop) :
    unwindRun g (s.addTotal p) = (unwindRun g s).addTotal p := by
  rw [unwindRun, unwindRun]
  by_cases hlocked : s.lockedBitMap = true
  · rw [if_pos hlocked, if_pos (show (s.addTotal p).lockedBitMap = true from hlocked)]
  · rw [if_neg hlocked, if_neg (show ¬ (s.addTotal p).lockedBitMap = true from hlocked)]
    change RunLoop.mk (putBack (s.vcb.addTotal p) _ _ _) _ _ _ _ _ _ _ _ _ _ _ _ = _
    rw [putBack_addTotal]
    rfl

theorem mirrors_switchWindow (hmany : 1 < g.numberOfWindows) (s : RunLoop) :
    Mirrors (addTotal p) (switchWindow g exactMatchRequired) (switchWindow g exactMatchRequired) s := by
  rw [switchWindow]
  refine Mirrors.ite Iff.rfl (fun _ => Mirrors.throw _) fun _ => Mirrors.get_bind ?_
  refine Mirrors.ite Iff.rfl (fun _ => Mirrors.pure _) fun _ => Mirrors.set_bind rfl ?_
  refine Mirrors.ite Iff.rfl (fun _ => Mirrors.throw _) fun _ => ?_
  refine Mirrors.bind (mirrors_onVcb (mirrors_fatExamineFatEntries hmany _ _)) fun _ _ => Mirrors.pure _

theorem mirrors_takeFound (s : RunLoop) :
    Mirrors (addTotal p) (takeFound g) (takeFound g) s := by
  rw [takeFound]
  refine Mirrors.modify_bind rfl (Mirrors.get_bind ?_)
  refine Mirrors.bind (mirrors_onVcb (Vcb.mirrors_onVol _ _)) fun _ _ => Mirrors.modify rfl

theorem mirrors_pass (hmany : 1 < g.numberOfWindows) (s : RunLoop) :
    Mirrors (addTotal p) (pass g exactMatchRequired) (pass g exactMatchRequired) s := by
  rw [pass]
  apply Mirrors.modify_bind
  · rfl
  apply Mirrors.get_bind
  rw [show ({ s with lockedBitMap := true } : RunLoop) = s.lock from rfl, search_addTotal]
  cases search g exactMatchRequired s.lock with
  | none => exact Mirrors.modify_bind rfl (Mirrors.pure _)
  | some t =>
      refine Mirrors.set_bind rfl (Mirrors.ite Iff.rfl (fun _ => mirrors_switchWindow hmany t) fun _ => ?_)
      exact Mirrors.bind (mirrors_takeFound t) fun _ _ => Mirrors.pure _

theorem mirrors_loop (hmany : 1 < g.numberOfWindows) (fuel : ℕ) (s : RunLoop) :
    Mirrors (addTotal p) (loop g exactMatchRequired fuel) (loop g exactMatchRequired fuel) s := by
  induction fuel generalizing s with
  | zero =>
      rw [loop]
      exact Mirrors.get_bind (Mirrors.ite Iff.rfl (fun _ => Mirrors.pure _) fun _ => Mirrors.throw _)
  | succ fuel ih =>
      rw [loop]
      refine Mirrors.get_bind (Mirrors.ite Iff.rfl (fun _ => Mirrors.pure _) fun _ => ?_)
      refine Mirrors.bind (mirrors_pass hmany s) fun b t => ?_
      exact Mirrors.ite Iff.rfl (fun _ => ih t) fun _ => Mirrors.pure _

theorem mirrors_unwind (s : RunLoop) : Mirrors (addTotal p) (unwind g) (unwind g) s := by
  rw [unwind]
  refine Mirrors.modify_bind (unwindRun_addTotal s) (Mirrors.get_bind ?_)
  refine Mirrors.bind ?_ fun _ _ => Mirrors.modify rfl
  exact Mirrors.protect (mirrors_onVcb (mirrors_fatDeallocateDiskSpace _ _)) fun _ => Mirrors.modify rfl

/-- The run loop does not depend on the total. -/
theorem mirrors_run (hmany : ¬ (exactMatchRequired = true ∧ g.numberOfWindows = 1) →
      1 < g.numberOfWindows) (fuel : ℕ) (s : RunLoop) :
    Mirrors (addTotal p) (run g exactMatchRequired fuel) (run g exactMatchRequired fuel) s := by
  rw [run]
  refine Mirrors.bind (Mirrors.protect ?_ mirrors_unwind) fun b t => ?_
  · exact Mirrors.ite Iff.rfl (fun _ => Mirrors.pure _) fun hn => mirrors_loop (hmany hn) fuel s
  · exact Mirrors.ite Iff.rfl (fun _ => Mirrors.bind (mirrors_unwind t) fun _ _ => Mirrors.pure _)
      fun _ => Mirrors.pure _

end RunLoop

end Total

/-- Clusters that are off the total for others. -/
theorem Books.addTotal {F : Finset ℕ} {p : ℕ} (h : Books g v F k) (hp : p ≤ v.numberOfFreeClusters) :
    Books g (v.addTotal (2 ^ 32 - p)) F (k + p) := by
  refine ⟨h.subset, h.current, h.first, h.last, h.size, h.bit, h.free, ?_, h.hint⟩
  have htotal := h.total
  have hlt := card_lt h.subset
  change ulong (v.numberOfFreeClusters + (2 ^ 32 - p)) + (k + p) = F.card
  rw [ulong]
  omega

end KernelDrivers.Fat
