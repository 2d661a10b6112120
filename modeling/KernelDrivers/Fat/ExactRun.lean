import KernelDrivers.Fat.FirstRun

/-!
# The run loop of an exact-match request

An exact-match request takes the clusters at its hint, up to the end of the window, then those
from the beginning of the next window on, and so on.  It is refused as soon as one of them is not
free.

## Main definitions

* `RunLoop.Course` — where the loop is.
* `RunLoop.GoesOn` — what a pass does.

## Main results

* `RunLoop.Taken.sat_pass_exact` — a pass.
* `RunLoop.Taken.sat_run_exact` — all clusters are taken, or one of them is not free.
-/

namespace KernelDrivers.Fat

variable {g : Geometry} {k : ℕ}

namespace RunLoop

variable {e : ℕ → ℕ} {F : Finset ℕ} {C y : ℕ} {s : RunLoop}

/-- Where the loop is when the `k` clusters from `y` on are taken: at the next cluster, or behind
a window that it ends. -/
inductive Course (g : Geometry) (y k : ℕ) (s : RunLoop) : Prop
  | next (select : s.selectNextContigWindow = false) (two_le : 2 ≤ s.windowRelativeHint)
      (lt : s.windowRelativeHint - 2 < g.entriesPerWindow) (cluster : hintCluster g s = y + k)
  | behind (select : s.selectNextContigWindow = true) (hint : s.windowRelativeHint = 2)
      (window : g.endOf s.vcb.currentWindow = y + k)

/-- A bound on the passes to come: two for each window, but one if the current one is finished. -/
def passesLeft (g : Geometry) (s : RunLoop) : ℕ :=
  2 * (g.numberOfWindows - s.vcb.currentWindow) - if s.selectNextContigWindow then 1 else 0

/-- A pass of an exact-match request goes on with `d` clusters more. -/
structure GoesOn (g : Geometry) (e : ℕ → ℕ) (F : Finset ℕ) (C y k d : ℕ) (s s' : RunLoop) :
    Prop where
  le : k + d ≤ C
  taken : Taken g e F C (List.range' y (k + d)) s'
  mapped : Mapped g C (List.range' y k) s → Mapped g C (List.range' y (k + d)) s'
  io : s.vcb.vol.io = none → s'.vcb.vol.io = none
  course : k + d < C → Course g y (k + d) s'
  passes : k + d < C → passesLeft g s' < passesLeft g s

/-- A hint behind the end of the window refuses the request. -/
theorem search_eq_none_of_beyond (hselect : s.selectNextContigWindow = false)
    (h2 : 2 ≤ s.windowRelativeHint)
    (hbeyond : s.vcb.freeClusterBitMap.size ≤ s.windowRelativeHint - 2) :
    search g true s = none := by
  have hclear : s.vcb.freeClusterBitMap.areBitsClear (s.windowRelativeHint - 2)
      (min (s.vcb.freeClusterBitMap.size - (s.windowRelativeHint - 2)) s.clustersRemaining) = false := by
    rw [Bitmap.areBitsClear, decide_eq_false_iff_not]
    omega
  simp only [search, hselect, Bool.false_eq_true, if_false, searchHint, hclear, if_true]
  rw [if_pos (by omega)]
  rfl

/-- A refusal leaves the volume as it is. -/
theorem Taken.vcb_of_refused {cs : List ℕ} {s' : RunLoop} (h : Taken g e F C cs s)
    (hF : ∀ c, c ∈ F ↔ c ∈ g.clusters ∧ e c = 0)
    (hlinks : 1 < g.numberOfWindows → g.numberOfClusters + 1 < 2 ^ g.width.linkBits)
    (hrem : s.clustersRemaining ≠ 0) (hp : pass g true s = .ok false s') : s'.vcb = s.vcb := by
  rw [pass, modify_bind_run, get_bind_run,
    show ({ s with lockedBitMap := true } : RunLoop) = s.lock from rfl] at hp
  cases hsearch : search g true s.lock with
  | none =>
      rw [hsearch] at hp
      obtain ⟨-, rfl⟩ := EStateM.Result.ok.inj hp
      rfl
  | some t =>
      have hf := search_found hsearch
      have hvcb : t.vcb = s.vcb := by rw [hf.rest]; rfl
      have hrem' : t.clustersRemaining ≠ 0 := by rw [hf.rest]; exact hrem
      rw [hsearch] at hp
      change (if t.clustersFound = 0 then _ else _ : EStateM Stop RunLoop Bool) t = _ at hp
      split at hp
      · rw [((((h.setLocked true).found hf).sat_switchWindow hF hrem' hlinks).ok hp).2.1, hvcb]
      · obtain ⟨_, _, -, hret⟩ := bind_eq_ok hp
        simp [pure, EStateM.pure] at hret

/-- Without a next window with free clusters the request is refused. -/
theorem pass_of_not_selectsNext (hmany : 1 < g.numberOfWindows)
    (hselect : s.selectNextContigWindow = true) (hnext : ¬ SelectsNext g s) :
    pass g true s = .ok false { s.lock with clustersFound := 0 } := by
  have hsearch : search g true s.lock = some { s.lock with clustersFound := 0 } := by
    rw [search]
    exact if_pos hselect
  have hswitch : ∀ t : RunLoop, t.selectNextContigWindow = true → ¬ SelectsNext g t →
      switchWindow g true t = .ok false t := by
    intro t ht hn
    rw [switchWindow, if_neg (by omega)]
    change (if t.selectNextContigWindow = true ∧ ¬ SelectsNext g t ∧ true = true then _ else _ :
      EStateM Stop RunLoop Bool) t = _
    rw [if_pos ⟨ht, hn, rfl⟩]
    rfl
  rw [pass, modify_bind_run, get_bind_run,
    show ({ s with lockedBitMap := true } : RunLoop) = s.lock from rfl, hsearch]
  exact hswitch _ hselect hnext

section Exact

variable (h : Taken g e F C (List.range' y k) s)
  (hF : ∀ c, c ∈ F ↔ c ∈ g.clusters ∧ e c = 0) (hC : C * g.clusterSize ≤ 2 ^ 32)
  (hlinks : 1 < g.numberOfWindows → g.numberOfClusters + 1 < 2 ^ g.width.linkBits)
  (hmany : 1 < g.numberOfWindows) (hk : k < C)

include h hF hC hlinks hmany hk

/-- The pass that takes the clusters at the hint, or refuses the request because they are not
free. -/
theorem Taken.sat_pass_next (hselect : s.selectNextContigWindow = false)
    (h2 : 2 ≤ s.windowRelativeHint) (hlt : s.windowRelativeHint - 2 < g.entriesPerWindow)
    (hcluster : hintCluster g s = y + k) :
    Sat (pass g true) s
      (fun b s' => if b then ∃ d, GoesOn g e F C y k d s s'
        else ¬ Finset.Ico y (y + C) ⊆ F ∧ Refuses g e F C (List.range' y k) s s')
      (fun _ _ => s.vcb.vol.io ≠ none) := by
  have hw32 := (Geometry.one_lt_numberOfWindows_iff.mp hmany).1
  have hrem := h.remaining
  rw [List.length_range'] at hrem
  have hne : s.lock.clustersRemaining ≠ 0 := by
    change s.clustersRemaining ≠ 0
    omega
  have hb : Books g s.lock.vcb (F \ (List.range' y k).toFinset) s.lock.clustersRemaining := h.books
  have hle := Geometry.firstOf_le_endOf hb.current
  have hsize := hb.size
  have hcl : hintCluster g s.lock = y + k := hcluster
  have hat : g.firstOf s.lock.vcb.currentWindow + (s.windowRelativeHint - 2) = y + k := hcluster
  -- the next cluster is free if all are
  have hnext : Finset.Ico y (y + C) ⊆ F → y + k ∈ F := fun hsub => hsub (Finset.mem_Ico.mpr (by omega))
  have hbeyond : s.lock.vcb.freeClusterBitMap.size ≤ s.windowRelativeHint - 2 →
      ¬ Finset.Ico y (y + C) ⊆ F := by
    intro hle' hsub
    have hmem := Geometry.mem_clusters.mp ((hF _).mp (hnext hsub)).1
    rw [Geometry.endOf] at hsize
    omega
  have hnot : ¬ HintFree g (F \ (List.range' y k).toFinset) s.lock.vcb.currentWindow
      (hintCluster g s.lock) s.lock.clustersRemaining →
      s.windowRelativeHint - 2 < s.lock.vcb.freeClusterBitMap.size →
      ¬ Finset.Ico y (y + C) ⊆ F := by
    intro hno hin hsub
    apply hno
    have hrem' : s.lock.clustersRemaining + k = C := hrem
    rw [hcl]
    refine ⟨by omega, by omega, fun x hx => ?_⟩
    rw [Finset.mem_Ico] at hx
    rw [Finset.mem_sdiff, List.mem_toFinset, List.mem_range'_1]
    exact ⟨hsub (Finset.mem_Ico.mpr (by omega)), by omega⟩
  have hv : s.windowRelativeHint - 2 < s.lock.vcb.freeClusterBitMap.size → HintValid s.lock := by
    intro hin _
    change 2 ≤ s.windowRelativeHint ∧ s.windowRelativeHint < _
    omega
  have hnoluck : ¬ PotLuck g (F \ (List.range' y k).toFinset) true s.lock := by
    rintro (hzero | ⟨hex, -⟩)
    · change s.windowRelativeHint = 0 at hzero
      omega
    · simp at hex
  have hsat := h.sat_pass true hF hC hne hlinks
  have hsearched : ∀ t, search g true s.lock = some t →
      s.windowRelativeHint - 2 < s.lock.vcb.freeClusterBitMap.size ∧
        Searched g (F \ (List.range' y k).toFinset) true s.lock t := by
    intro t ht
    have hin : s.windowRelativeHint - 2 < s.lock.vcb.freeClusterBitMap.size := by
      by_contra hout
      rw [search_eq_none_of_beyond (s := s.lock) hselect h2 (not_lt.mp hout)] at ht
      simp at ht
    exact ⟨hin, searched_of_search hb hne (hv hin) ht⟩
  cases hp : pass g true s with
  | error stop s' =>
      refine Sat.of_error hp ?_
      obtain ⟨-, hone, -⟩ | ⟨-, j, hraises, -⟩ := hsat.error hp
      · omega
      · exact hraises.io
  | ok b s' =>
      refine Sat.of_ok hp ?_
      have hb' := hsat.ok hp
      cases b with
      | false =>
          obtain ⟨-, hrefuses, -, hwhy⟩ := hb'
          refine ⟨?_, hrefuses⟩
          by_cases hin : s.windowRelativeHint - 2 < s.lock.vcb.freeClusterBitMap.size
          · cases hsearch : search g true s.lock with
            | none => exact hnot ((search_eq_none_iff hb hne (hv hin)).mp hsearch).2.2.2 hin
            | some t =>
                have hzero := (hwhy t hsearch).1
                cases (hsearched t hsearch).2 with
                | flagged flag => exact absurd (hselect.symm.trans flag) (by simp)
                | whole _ luck => exact absurd luck hnoluck
                | longest _ luck => exact absurd luck hnoluck
                | full _ luck => exact absurd luck hnoluck
                | atHint _ _ _ _ _ found_ne => exact absurd hzero found_ne
          · exact hbeyond (not_lt.mp hin)
      | true =>
          obtain ⟨t, hsearch, hstep⟩ := hb'
          cases (hsearched t hsearch).2 with
          | flagged flag => exact absurd (hselect.symm.trans flag) (by simp)
          | whole _ luck => exact absurd luck hnoluck
          | longest _ luck => exact absurd luck hnoluck
          | full _ luck => exact absurd luck hnoluck
          | atHint _ _ _ first found found_ne select hint' =>
              obtain htakes | hswitch := hstep
              · have hvcb : t.vcb = s.vcb := by rw [(search_found hsearch).rest]; rfl
                have hcs : List.range' y k ++ List.range' (firstFound g t) t.clustersFound =
                    List.range' y (k + t.clustersFound) := by
                  rw [first, hcl, List.range'_append_1]
                have htaken := htakes.taken
                rw [hcs] at htaken
                have hafter := htakes.after
                rw [hcl] at found
                change _ = min (g.endOf s.vcb.currentWindow - _) s.clustersRemaining at found
                have hselect' : s'.selectNextContigWindow = true := by
                  rw [hafter.select, select]
                  exact decide_eq_true hw32
                refine ⟨t.clustersFound, by omega, htaken, fun hm => ?_,
                  h.io_after_pass hC hsearch (Or.inl htakes), fun hlt' => .behind hselect' ?_ ?_,
                  fun _ => ?_⟩
                · have hmapped := h.mapped_takes hC hsearch htakes hm
                  rwa [hcs] at hmapped
                · rw [hafter.hint, hint', if_pos hw32]
                · rw [hafter.window, hvcb]
                  omega
                · have hcur : s.vcb.currentWindow < g.numberOfWindows := hb.current
                  rw [passesLeft, passesLeft, hselect', hselect, hafter.window, hvcb, if_pos rfl,
                    if_neg (by simp)]
                  omega
              · exact absurd hswitch.found found_ne

omit hF hlinks hC hmany hk in
/-- When the next cluster is free, the next window is selected. -/
theorem Taken.selectsNext (hFsub : F ⊆ g.clusters) (hselect : s.selectNextContigWindow = true)
    (hwindow : g.endOf s.vcb.currentWindow = y + k) (hnext : y + k ∈ F) : SelectsNext g s := by
  have hcluster := Geometry.mem_clusters.mp (hFsub hnext)
  have hcur : s.vcb.currentWindow + 1 < g.numberOfWindows := by
    by_contra hlast
    have := h.books.current
    have hend := g.endOf_last (i := s.vcb.currentWindow) (by omega)
    omega
  have hfirst := Geometry.endOf_eq_firstOf_succ hcur
  have hlt := Geometry.firstOf_lt_endOf hcur (by omega : 0 < g.numberOfClusters)
  refine ⟨hselect, hcur, ?_⟩
  rw [h.books.free _ hcur, Finset.card_pos]
  refine ⟨y + k, ?_⟩
  rw [Finset.mem_inter, Finset.mem_sdiff, List.mem_toFinset, List.mem_range'_1, Geometry.mem_window]
  exact ⟨⟨hnext, by omega⟩, by omega, by omega⟩

/-- The pass that goes to the next window, or refuses the request because it has no free
clusters. -/
theorem Taken.sat_pass_behind (hselect : s.selectNextContigWindow = true)
    (hhint : s.windowRelativeHint = 2) (hwindow : g.endOf s.vcb.currentWindow = y + k) :
    Sat (pass g true) s
      (fun b s' => if b then ∃ d, GoesOn g e F C y k d s s'
        else ¬ Finset.Ico y (y + C) ⊆ F ∧ Refuses g e F C (List.range' y k) s s')
      (fun _ _ => s.vcb.vol.io ≠ none) := by
  have hrem := h.remaining
  rw [List.length_range'] at hrem
  have hsearch : search g true s.lock = some { s.lock with clustersFound := 0 } := by
    rw [search]
    exact if_pos hselect
  by_cases hnext : SelectsNext g s
  · have hsat := h.sat_pass true hF hC (by omega) hlinks
    cases hp : pass g true s with
    | error stop s' =>
        refine Sat.of_error hp ?_
        obtain ⟨-, hone, -⟩ | ⟨-, j, hraises, -⟩ := hsat.error hp
        · omega
        · exact hraises.io
    | ok b s' =>
        refine Sat.of_ok hp ?_
        have hb := hsat.ok hp
        cases b with
        | false => exact absurd hnext (hb.2.2.2 _ hsearch).2
        | true =>
            obtain ⟨t, ht, hstep⟩ := hb
            rw [hsearch] at ht
            obtain rfl := Option.some.inj ht
            obtain htakes | hswitch := hstep
            · exact absurd rfl htakes.found
            obtain ⟨v, hint, rfl, -, hto, -, -⟩ := hswitch.result
            have hw : v.currentWindow = s.vcb.currentWindow + 1 := hto.window.trans (if_pos hnext)
            have hh : hint = s.windowRelativeHint := hto.hint.trans (if_neg fun hn => hn.2 hnext)
            have hpos := h.books.current
            refine ⟨0, hk.le, hswitch.taken, fun hm => ⟨hm.1, hm.2⟩,
              h.io_after_pass hC hsearch (Or.inr hswitch), fun _ => .next rfl ?_ ?_ ?_, fun _ => ?_⟩
            · change 2 ≤ hint
              omega
            · change hint - 2 < g.entriesPerWindow
              rw [Geometry.entriesPerWindow_of_many hmany, maxClusterBitmapSize]
              omega
            · change g.firstOf v.currentWindow + (hint - 2) = y + k
              rw [hw, ← hwindow, Geometry.endOf_eq_firstOf_succ hnext.2.1]
              omega
            · rw [passesLeft, passesLeft, hselect]
              change 2 * (g.numberOfWindows - v.currentWindow) - 0 < _
              rw [hw, if_pos rfl]
              omega
  · refine Sat.of_ok (pass_of_not_selectsNext hmany hselect hnext) ⟨fun hsub => hnext ?_, ?_⟩
    · exact h.selectsNext (fun c hc => ((hF c).mp hc).1) hselect hwindow
        (hsub (Finset.mem_Ico.mpr (by omega)))
    · exact ⟨⟨h.nodup, h.free, h.remaining, h.books, h.entry, h.prior, h.vbo, h.mcb⟩, rfl, rfl⟩

/-- **A pass of an exact-match request.** -/
theorem Taken.sat_pass_exact (hcourse : Course g y k s) :
    Sat (pass g true) s
      (fun b s' => if b then ∃ d, GoesOn g e F C y k d s s'
        else ¬ Finset.Ico y (y + C) ⊆ F ∧ Refuses g e F C (List.range' y k) s s')
      (fun _ _ => s.vcb.vol.io ≠ none) := by
  cases hcourse with
  | next select two_le lt cluster =>
      exact h.sat_pass_next hF hC hlinks hmany hk select two_le lt cluster
  | behind select hint window => exact h.sat_pass_behind hF hC hlinks hmany hk select hint window

omit hk in
/-- **The loop of an exact-match request** takes all clusters from `y` on, or stops at one that is
not free. -/
theorem Taken.sat_loop_exact (hk : k < C) (hcourse : Course g y k s) (fuel : ℕ)
    (hfuel : passesLeft g s ≤ fuel) :
    Sat (loop g true fuel) s
      (fun b s' => if b then s'.clustersRemaining = 0 ∧ Taken g e F C (List.range' y C) s' ∧
          (Mapped g C (List.range' y k) s → s'.mcb = mcbOf g (List.range' y C)) ∧
          (s.vcb.vol.io = none → s'.vcb.vol.io = none)
        else ¬ Finset.Ico y (y + C) ⊆ F ∧ (s.vcb.vol.io = none → s'.vcb.vol.io = none) ∧
          ∃ cs, Taken g e F C cs s' ∧ s'.clustersRemaining ≠ 0 ∧ s'.lockedBitMap = true)
      (fun _ _ => s.vcb.vol.io ≠ none) := by
  induction fuel generalizing k s with
  | zero =>
      have hcur := h.books.current
      rw [passesLeft] at hfuel
      split at hfuel <;> omega
  | succ fuel ih =>
      have hrem := h.remaining
      rw [List.length_range'] at hrem
      have hz : s.clustersRemaining ≠ 0 := by omega
      have hpass := h.sat_pass_exact hF hC hlinks hmany hk hcourse
      have hloop := loop_succ (g := g) true fuel hz
      cases hp : pass g true s with
      | error stop s' =>
          rw [hp] at hloop
          exact Sat.of_error hloop (hpass.error hp)
      | ok b s' =>
          have hb := hpass.ok hp
          rw [hp] at hloop
          cases b with
          | false =>
              obtain ⟨hnot, hrefuses⟩ := hb
              have hvcb := h.vcb_of_refused hF hlinks hz hp
              exact Sat.of_ok hloop ⟨hnot, fun hnone => hvcb ▸ hnone, _, hrefuses.taken, hrefuses.remaining.trans_ne hz,
                hrefuses.locked⟩
          | true =>
              obtain ⟨d, hgo⟩ := hb
              by_cases hall : k + d = C
              · have htaken := hgo.taken
                rw [hall] at htaken
                have hrem' := htaken.remaining
                rw [List.length_range'] at hrem'
                have hzero : s'.clustersRemaining = 0 := by omega
                refine Sat.of_ok (hloop.trans (loop_of_zero fuel hzero))
                  ⟨hzero, htaken, fun hm => ?_, hgo.io⟩
                have hmapped := (hgo.mapped hm).1
                rwa [hall] at hmapped
              · have hlt : k + d < C := lt_of_le_of_ne hgo.le hall
                have hpasses := hgo.passes hlt
                refine Sat.of_eq hloop ((ih hgo.taken hlt (hgo.course hlt) (by omega)).mono ?_ ?_)
                · intro b s'' hb'
                  cases b with
                  | true =>
                      obtain ⟨hzero, htaken, hmap, hio⟩ := hb'
                      exact ⟨hzero, htaken, fun hm => hmap (hgo.mapped hm), fun hnone => hio (hgo.io hnone)⟩
                  | false => exact ⟨hb'.1, fun hnone => hb'.2.1 (hgo.io hnone), hb'.2.2⟩
                · exact fun _ _ hne hnone => hne (hgo.io hnone)

end Exact

/-- **The slow path of an exact-match request.** -/
theorem Taken.sat_run_exact (h : Taken g e F C [] s) (hg : g.Sound)
    (hF : ∀ c, c ∈ F ↔ c ∈ g.clusters ∧ e c = 0) (hC : C * g.clusterSize ≤ 2 ^ 32) (hpos : 0 < C)
    (hlocked : s.lockedBitMap = true) (hcourse : Course g y 0 s)
    {fuel : ℕ} (hfuel : 2 * g.numberOfWindows ≤ fuel) :
    Sat (run g true fuel) s
      (fun b s' => if b then 1 < g.numberOfWindows ∧ s'.clustersRemaining = 0 ∧
          Taken g e F C (List.range' y C) s' ∧
          (C * g.clusterSize < 2 ^ 32 → s'.mcb = mcbOf g (List.range' y C)) ∧
          (s.vcb.vol.io = none → s'.vcb.vol.io = none)
        else (1 < g.numberOfWindows → ¬ Finset.Ico y (y + C) ⊆ F) ∧
          (∃ k ≤ C, Books g s'.vcb F k) ∧ (∀ j, lookupEntry g.width s'.vcb.vol.fat j = e j) ∧
          s'.mcb = [])
      (fun _ _ => s.vcb.vol.io ≠ none) := by
  have hrem := h.remaining
  rw [List.length_nil, Nat.add_zero] at hrem
  have hne : s.clustersRemaining ≠ 0 := by omega
  have hlinks : 1 < g.numberOfWindows → g.numberOfClusters + 1 < 2 ^ g.width.linkBits :=
    fun _ => hg.links
  rw [run]
  apply Sat.bind (R := fun b s' => if b then 1 < g.numberOfWindows ∧ s'.clustersRemaining = 0 ∧
      Taken g e F C (List.range' y C) s' ∧
      (C * g.clusterSize < 2 ^ 32 → s'.mcb = mcbOf g (List.range' y C)) ∧
      (s.vcb.vol.io = none → s'.vcb.vol.io = none)
    else (1 < g.numberOfWindows → ¬ Finset.Ico y (y + C) ⊆ F) ∧
      (s.vcb.vol.io = none → s'.vcb.vol.io = none) ∧
      ∃ cs, ∃ k ≤ C, Tidy g e F cs k (unwindRun g s'))
  · apply Sat.protect_const
    by_cases hone : g.numberOfWindows = 1
    · rw [if_pos ⟨rfl, hone⟩]
      exact Sat.pure ⟨fun hmany => by omega, fun hnone => hnone, [], _, hrem.le,
        h.tidy hC hne hlocked⟩
    · have hmany : 1 < g.numberOfWindows := by
        have := g.numberOfWindows_pos
        omega
      rw [if_neg fun hn => hone hn.2]
      refine (h.sat_loop_exact (k := 0) hF hC hlinks hmany hpos hcourse fuel ?_).mono ?_
        fun _ _ hio => hio
      · rw [passesLeft]
        omega
      · intro b s' hb
        cases b with
        | true =>
            obtain ⟨hzero, htaken, hmap, hio⟩ := hb
            exact ⟨hmany, hzero, htaken, fun hlt => hmap ⟨h.mcb hne, Or.inr hlt⟩, hio⟩
        | false =>
            obtain ⟨hnot, hio, cs, htaken, hrem', hlocked'⟩ := hb
            have hsum := htaken.remaining
            exact ⟨fun _ => hnot, hio, cs, _, by omega, htaken.tidy hC hrem' hlocked'⟩
  · intro b s' hb
    cases b with
    | true => exact Sat.pure hb
    | false =>
        obtain ⟨hnot, hio, cs, k, hk, htidy⟩ := hb
        refine Sat.bind ((sat_unwind hg hF htidy).mono (fun _ _ h => h) ?_) ?_
        · exact fun _ _ hE hnone => hE.1 (hio hnone)
        · rintro _ s'' ⟨hbooks, hentry, hmcb⟩
          exact Sat.pure ⟨hnot, ⟨k, hk, hbooks⟩, hentry, hmcb⟩

end RunLoop

end KernelDrivers.Fat
