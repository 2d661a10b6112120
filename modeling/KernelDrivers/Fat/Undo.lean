import KernelDrivers.Fat.Outcome

/-!
# Giving an allocation back

`FatDeallocateDiskSpace` on the map of a completed request.  A run of 4 GB has the byte
count zero on its way into the map and `0xffffffff` on its way out: the request comes
back whole unless it is one of 4 GB in consecutive clusters.

## Main definitions

* `Undone` — FAT, bitmap, counts and total are as before.
* `DeallocationUndoes` — the space of every completed request can be given back.
* `RunLoop.Along` — the run loop filling a request with consecutive clusters, window
  after window.
-/

namespace KernelDrivers.Fat

variable {g : Geometry} {r : Request} {v : Vcb}

/-- Nothing differs between `v` and `v'`.  The bitmap is of the window that is now the
current one. -/
structure Undone (g : Geometry) (v v' : Vcb) : Prop where
  entry : ∀ j, lookupEntry g.width v'.vol.fat j = lookupEntry g.width v.vol.fat j
  bitmap : ∀ c ∈ Finset.Icc v'.window.firstCluster v'.window.lastCluster,
    (v'.freeClusterBitMap.bit (c - v'.window.firstCluster) = false ↔
      lookupEntry g.width v.vol.fat c = 0)
  clustersFree : ∀ i < g.numberOfWindows, (v'.windows i).clustersFree = (v.windows i).clustersFree
  total : v'.numberOfFreeClusters = v.numberOfFreeClusters

/-- After every call for `r` that completes, deallocating its map restores everything
(or raises, when a fault is pending). -/
def DeallocationUndoes (g : Geometry) (r : Request) (v : Vcb) : Prop :=
  ∀ io fuel c', fatAllocateDiskSpace g r fuel ⟨v.withFault io, [], r.byteCount⟩ = .ok () c' →
    c'.byteCount ≠ 0 →
    Sat (fatDeallocateDiskSpace g c'.mcb) c'.vcb (fun _ v' => Undone g v v')
      (fun _ _ => c'.vcb.vol.io ≠ none)

/-! ## Consecutive clusters -/

/-- A map of one run is a map of consecutive clusters. -/
theorem range'_of_mcbOf {cs : List ℕ} (hcs : ∀ c ∈ cs, c ∈ g.clusters)
    (hone : (mcbOf g cs).length = 1) : ∃ y, cs = List.range' y cs.length := by
  rw [mcbOf, List.length_map] at hone
  obtain ⟨a, ha⟩ := Runs.range'_of_length_ofList hone
  rw [List.length_map] at ha
  have hback : (cs.map (· - 2)).map (2 + ·) = cs := by
    rw [List.map_map]
    conv_rhs => rw [← List.map_id cs]
    apply List.map_congr_left
    intro c hc
    have := Geometry.mem_clusters.mp (hcs c hc)
    simp only [Function.comp_apply, id]
    omega
  refine ⟨2 + a, ?_⟩
  conv_lhs => rw [← hback, ha, List.map_add_range']

theorem length_mcbOf_range' {y n : ℕ} (hy : 2 ≤ y) (hn : 0 < n) :
    (mcbOf g (List.range' y n)).length = 1 := by
  have hmap : (List.range' y n).map (· - 2) = List.range' (y - 2) n := by
    rw [List.map_sub_range' hy]
  rw [mcbOf, hmap, Runs.ofList_range' hn]
  rfl

namespace RunLoop

variable {e : ℕ → ℕ} {F : Finset ℕ} {C y k : ℕ} {exactMatchRequired : Bool} {s : RunLoop}

/-- The `k` clusters from `y` on are taken, up to the end of the window, and the next
window is asked for. -/
structure Along (g : Geometry) (e : ℕ → ℕ) (F : Finset ℕ) (C y k : ℕ) (s : RunLoop) : Prop where
  taken : Taken g e F C (List.range' y k) s
  mapped : Mapped g C (List.range' y k) s
  select : s.selectNextContigWindow = true
  hint : s.windowRelativeHint = 2
  window : g.endOf s.vcb.currentWindow = y + k
  io : s.vcb.vol.io = none

/-- The same with the next window entered. -/
structure Entered (g : Geometry) (e : ℕ → ℕ) (F : Finset ℕ) (C y k : ℕ) (s : RunLoop) : Prop where
  taken : Taken g e F C (List.range' y k) s
  mapped : Mapped g C (List.range' y k) s
  select : s.selectNextContigWindow = false
  hint : s.windowRelativeHint = 2
  first : g.firstOf s.vcb.currentWindow = y + k
  many : 1 < g.numberOfWindows
  io : s.vcb.vol.io = none

section Along

variable (hF : ∀ c, c ∈ F ↔ c ∈ g.clusters ∧ e c = 0) (hC : C * g.clusterSize ≤ 2 ^ 32)
  (hlinks : 1 < g.numberOfWindows → g.numberOfClusters + 1 < 2 ^ g.width.linkBits)
  (hsub : Finset.Ico y (y + C) ⊆ F)

include hF hC hlinks hsub

/-- The next cluster is the first of the next window, which is switched to. -/
theorem Along.exists_switch (h : Along g e F C y k s) (hk : k < C) :
    ∃ s', pass g exactMatchRequired s = .ok true s' ∧ Entered g e F C y k s' := by
  have hb := h.taken.books
  have hrem := h.taken.remaining
  rw [List.length_range'] at hrem
  have hnext : y + k ∈ F := hsub (Finset.mem_Ico.mpr (by omega))
  have hcluster := Geometry.mem_clusters.mp ((hF _).mp hnext).1
  have hcur : s.vcb.currentWindow + 1 < g.numberOfWindows := by
    by_contra hlast
    have hend := g.endOf_last (i := s.vcb.currentWindow) (by have := hb.current; omega)
    have := h.window
    omega
  have hfirst := Geometry.endOf_eq_firstOf_succ hcur
  rw [h.window] at hfirst
  have hmany : 1 < g.numberOfWindows := by omega
  have hin : y + k ∈ (F \ (List.range' y k).toFinset) ∩ g.window (s.vcb.currentWindow + 1) := by
    rw [Finset.mem_inter, Finset.mem_sdiff, List.mem_toFinset, List.mem_range'_1, Geometry.mem_window]
    have := Geometry.firstOf_lt_endOf hcur (by omega : 0 < g.numberOfClusters)
    exact ⟨⟨hnext, by omega⟩, by omega, by omega⟩
  have hselects : SelectsNext g { s.lock with clustersFound := 0 } := by
    refine ⟨h.select, hcur, ?_⟩
    change 0 < (s.vcb.windows (s.vcb.currentWindow + 1)).clustersFree
    rw [hb.free _ hcur]
    exact Finset.card_pos.mpr ⟨_, hin⟩
  have hsearch : search g exactMatchRequired s.lock = some { s.lock with clustersFound := 0 } := by
    rw [search]
    exact if_pos h.select
  obtain ⟨s', hpass, hstep⟩ := h.taken.exists_pass hF hC (by omega) hlinks h.io hsearch
    (Or.inr ⟨hmany, Or.inr hselects⟩)
  obtain htakes | hswitch := hstep
  · exact absurd rfl htakes.found
  obtain ⟨v', hint, heq, -, hto, -, -⟩ := hswitch.result
  refine ⟨s', hpass, hswitch.taken, ⟨?_, h.mapped.2⟩, ?_, ?_, ?_, hmany,
    h.taken.io_after_pass hC hsearch (Or.inr hswitch) h.io⟩
  · rw [heq]
    exact h.mapped.1
  · rw [heq]
  · rw [heq]
    change hint = 2
    rw [hto.hint, if_neg (by simp [hselects])]
    exact h.hint
  · rw [heq]
    change g.firstOf v'.currentWindow = y + k
    rw [hto.window, if_pos hselects]
    exact hfirst.symm

/-- The next run begins at the first cluster of the window. -/
theorem Entered.exists_take (h : Entered g e F C y k s) (hk : k < C) :
    ∃ s' d, pass g exactMatchRequired s = .ok true s' ∧ d ≠ 0 ∧ k + d ≤ C ∧
      Taken g e F C (List.range' y (k + d)) s' ∧ Mapped g C (List.range' y (k + d)) s' ∧
      (k + d < C → Along g e F C y (k + d) s') := by
  have hw32 := (Geometry.one_lt_numberOfWindows_iff.mp h.many).1
  have hrem := h.taken.remaining
  rw [List.length_range'] at hrem
  have hne : s.lock.clustersRemaining ≠ 0 := by
    change s.clustersRemaining ≠ 0
    omega
  have hb : Books g s.lock.vcb (F \ (List.range' y k).toFinset) s.lock.clustersRemaining :=
    h.taken.books
  have hcl : hintCluster g s.lock = y + k := by
    change g.firstOf s.vcb.currentWindow + (s.windowRelativeHint - 2) = y + k
    rw [h.hint, h.first, Nat.sub_self, Nat.add_zero]
  have hvalid : HintValid s.lock := by
    intro _
    have := size_pos hb hne
    change 2 ≤ s.windowRelativeHint ∧ s.windowRelativeHint < _
    rw [h.hint]
    exact ⟨le_rfl, by omega⟩
  have hfree : HintFree g (F \ (List.range' y k).toFinset) s.lock.vcb.currentWindow
      (hintCluster g s.lock) s.lock.clustersRemaining := by
    rw [hcl]
    have hle := Geometry.firstOf_le_endOf hb.current
    have hfirst : g.firstOf s.lock.vcb.currentWindow = y + k := h.first
    have hrem' : s.lock.clustersRemaining + k = C := hrem
    refine ⟨by omega, by omega, fun x hx => ?_⟩
    rw [Finset.mem_Ico] at hx
    rw [Finset.mem_sdiff, List.mem_toFinset, List.mem_range'_1]
    exact ⟨hsub (Finset.mem_Ico.mpr (by omega)), by omega⟩
  have hnoluck : ¬ PotLuck g (F \ (List.range' y k).toFinset) exactMatchRequired s.lock := by
    rintro (hzero | ⟨-, hnot⟩)
    · rw [show s.lock.windowRelativeHint = 2 from h.hint] at hzero
      omega
    · exact hnot hfree
  cases hsearch : search g exactMatchRequired s.lock with
  | none => exact absurd hfree ((search_eq_none_iff hb hne hvalid).mp hsearch).2.2.2
  | some t =>
      cases searched_of_search hb hne hvalid hsearch with
      | flagged flag => exact absurd (h.select.symm.trans flag) (by simp)
      | whole _ luck => exact absurd luck hnoluck
      | longest _ luck => exact absurd luck hnoluck
      | full _ luck => exact absurd luck hnoluck
      | atHint _ _ _ first found found_ne select hint' =>
          obtain ⟨s', hpass, hstep⟩ := h.taken.exists_pass hF hC hne hlinks h.io hsearch
            (Or.inl found_ne)
          obtain htakes | hswitch := hstep
          · have hf := search_found hsearch
            have hvcb : t.vcb = s.vcb := by rw [hf.rest]; rfl
            have hcs : List.range' y k ++ List.range' (firstFound g t) t.clustersFound =
                List.range' y (k + t.clustersFound) := by
              rw [first, hcl, List.range'_append_1]
            have htaken := htakes.taken
            have hmapped := h.taken.mapped_takes hC hsearch htakes h.mapped
            rw [hcs] at htaken hmapped
            have hafter := htakes.after
            have hle : k + t.clustersFound ≤ C := by
              change _ = min _ s.clustersRemaining at found
              omega
            refine ⟨s', t.clustersFound, hpass, found_ne, hle, htaken, hmapped, fun hlt => ?_⟩
            refine ⟨htaken, hmapped, ?_, ?_, ?_, h.taken.io_after_pass hC hsearch (Or.inl htakes) h.io⟩
            · rw [hafter.select, select]
              exact decide_eq_true hw32
            · rw [hafter.hint, hint', if_pos hw32]
            · rw [hafter.window, hvcb]
              rw [hcl] at found
              change _ = min (g.endOf s.vcb.currentWindow - _) s.clustersRemaining at found
              omega
          · exact absurd hswitch.found found_ne

/-- **Filling the request with consecutive clusters.** -/
theorem Along.exists_loop (h : Along g e F C y k s) (hk : k < C) :
    ∃ fuel s', loop g exactMatchRequired fuel s = .ok true s' ∧ s'.clustersRemaining = 0 ∧
      Taken g e F C (List.range' y C) s' ∧ s'.mcb = mcbOf g (List.range' y C) := by
  induction hn : C - k using Nat.strong_induction_on generalizing k s with
  | _ n ih =>
      have hlen : ∀ {j : ℕ} {u : RunLoop}, Taken g e F C (List.range' y j) u →
          u.clustersRemaining + j = C := by
        intro j u hu
        have := hu.remaining
        rwa [List.length_range'] at this
      obtain ⟨s1, hpass1, hentered⟩ :=
        h.exists_switch hF hC hlinks hsub hk
      obtain ⟨s2, d, hpass2, hd, hle, htaken, hmapped, hnext⟩ :=
        hentered.exists_take hF hC hlinks hsub hk
      have hrem := hlen h.taken
      have hrem1 := hlen hentered.taken
      have hrem2 := hlen htaken
      have hloop : ∀ fuel, loop g exactMatchRequired (fuel + 1 + 1) s =
          loop g exactMatchRequired fuel s2 := by
        intro fuel
        rw [loop_succ _ _ (by omega), hpass1]
        dsimp only
        rw [loop_succ _ _ (by omega), hpass2]
      by_cases hall : k + d = C
      · rw [hall] at htaken hmapped hrem2
        have hzero : s2.clustersRemaining = 0 := by omega
        exact ⟨0 + 1 + 1, s2, (hloop 0).trans (loop_of_zero 0 hzero), hzero, htaken, hmapped.1⟩
      · obtain ⟨fuel, s', hdone, hrest⟩ := ih (C - (k + d)) (by omega) (hnext (by omega))
          (by omega) rfl
        exact ⟨fuel + 1 + 1, s', (hloop fuel).trans hdone, hrest⟩

end Along

end RunLoop

/-- The run loop fills the request with consecutive clusters. -/
def Contiguous (g : Geometry) (r : Request) (v : Vcb) (F : Finset ℕ) : Prop :=
  ∃ y n, FirstRun g r v F y n ∧ Finset.Ico y (y + r.clusterCount g) ⊆ F

section Undo

variable {io : Option ℕ} {c' : AllocCall} {cs : List ℕ} (hg : g.Sound) (hr : r.byteCount ≠ 0)
  (h : Completed g r (zeroSet g v.vol.fat) ⟨v.withFault io, [], r.byteCount⟩ c' cs)

include hg hr h

/-- A map that gives all clusters of the request back. -/
theorem Completed.sat_undo (hb : Books g v (zeroSet g v.vol.fat) 0) (hmcb : c'.mcb = mcbOf g cs)
    (hwhole : r.clusterCount g * g.clusterSize < 2 ^ 32 ∨ (mcbOf g cs).length ≠ 1) :
    Sat (fatDeallocateDiskSpace g c'.mcb) c'.vcb (fun _ v' => Undone g v v')
      (fun _ _ => c'.vcb.vol.io ≠ none) := by
  have hC := r.clusterCount_mul_le (g := g) hr
  have hmem : ∀ c ∈ cs, c ∈ g.clusters := fun c hc => zeroSet_subset _ (h.free c hc)
  have hlen : cs.length * g.clusterSize ≤ 2 ^ 32 := by rwa [h.length]
  have hruns := runClusters_mcbRuns hg hmem hlen
  rw [if_neg (by rw [h.length]; omega)] at hruns
  have hdealloc := h.books.sat_fatDeallocateDiskSpace
    (validRun_mcbRuns hg hmem hlen) (by rw [hruns]; exact h.nodup)
    (by rw [hruns]; exact Finset.sdiff_disjoint)
  rw [hmcb]
  refine hdealloc.mono ?_ fun _ _ hE => hE.1
  rw [hruns]
  rintro _ v' ⟨hbooks, hwrote⟩
  have hsub : cs.toFinset ⊆ zeroSet g v.vol.fat := fun c hc => h.free c (List.mem_toFinset.mp hc)
  rw [Finset.sdiff_union_of_subset hsub] at hbooks
  have hentry : ∀ j, lookupEntry g.width v'.vol.fat j = lookupEntry g.width v.vol.fat j := by
    intro j
    rw [hwrote.entry]
    split
    · next hj => exact (mem_zeroSet.mp (h.free j hj)).2.symm
    · next hj =>
        rw [h.entry, chainEntry_of_notMem hj]
        rfl
  have hacc : Accounting g v' := by
    apply Books.accounting
    rw [zeroSet_congr hentry]
    exact hbooks
  refine ⟨hentry, fun c hc => ?_, fun i hi => ?_, ?_⟩
  · rw [hacc.bitmap c hc, hentry]
  · rw [hbooks.free i hi, hb.free i hi]
  · have h1 := hbooks.total
    have h2 := hb.total
    omega

omit hr in
/-- A map that leaves a cluster of the request out does not give it back. -/
theorem Completed.not_undo {ds : List ℕ} {x : ℕ} (hx : x ∈ cs)
    (hds : runClusters (mcbRuns g c'.mcb) = ds) (hxds : x ∉ ds) (hsub : ∀ c ∈ ds, c ∈ cs)
    (hnodup : ds.Nodup) (hvalid : ∀ run ∈ mcbRuns g c'.mcb, ValidRun g run)
    (hio : c'.vcb.vol.io = none) :
    ¬ Sat (fatDeallocateDiskSpace g c'.mcb) c'.vcb (fun _ v' => Undone g v v')
      (fun _ _ => c'.vcb.vol.io ≠ none) := by
  intro hsat
  obtain ⟨_, v', hok, hundone⟩ := hsat.exists_ok fun _ _ hE => hE hio
  have hdealloc := h.books.sat_fatDeallocateDiskSpace hvalid
    (by rw [hds]; exact hnodup) (by
      rw [hds, Finset.disjoint_left]
      intro c hc hcds
      exact (Finset.mem_sdiff.mp hc).2 (List.mem_toFinset.mpr (hsub c (List.mem_toFinset.mp hcds))))
  have hentry := (hdealloc.ok hok).2.entry x
  rw [hds, if_neg hxds, hundone.entry, h.entry, (mem_zeroSet.mp (h.free x hx)).2] at hentry
  refine chainEntry_ne_zero hx (fun c hc => ?_) hentry.symm
  have := (mem_zeroSet.mp (h.free c hc)).1
  have := hg.links
  omega

end Undo

/-- The first run of consecutive clusters ends its window. -/
theorem RunLoop.FirstTake.along {e : ℕ → ℕ} {F : Finset ℕ} {C y n : ℕ} {exactMatchRequired : Bool}
    {s t s' : RunLoop} (h : FirstTake g e F C exactMatchRequired s t s')
    (hF : ∀ c, c ∈ F ↔ c ∈ g.clusters ∧ e c = 0) (hC : C * g.clusterSize ≤ 2 ^ 32)
    (hsub : Finset.Ico y (y + C) ⊆ F) (hlt : n < C) (hfound : t.clustersFound = n)
    (hfirst : firstFound g t = y) (hio : s'.vcb.vol.io = none) :
    1 < g.numberOfWindows ∧ Along g e F C y n s' := by
  have hnext : y + n ∈ F := hsub (Finset.mem_Ico.mpr (by omega))
  have hends := h.searched.ends (by rw [hfound]; exact hlt.trans_eq h.remaining.symm) h.takes.found
    (by rw [hfound, hfirst]; exact hnext)
  have hwin : t.vcb.currentWindow = s.lock.vcb.currentWindow := by rw [(search_found h.search).rest]
  have hmany : 1 < g.numberOfWindows := by
    by_contra hone
    have hcur := h.taken.books.current
    have hend := g.endOf_last (i := s.vcb.currentWindow)
      (by have := Geometry.numberOfWindows_eq_one hone; omega)
    have hcluster := Geometry.mem_clusters.mp ((hF _).mp hnext).1
    have := hends.1
    change _ = g.endOf s.vcb.currentWindow at this
    omega
  have hw32 := (Geometry.one_lt_numberOfWindows_iff.mp hmany).1
  have hafter := h.takes.after
  have hpos := g.clusterSize_pos
  have hmapped := h.mapped hC (by
    rw [hfound]
    exact (Nat.mul_lt_mul_of_pos_right hlt hpos).trans_le hC)
  have htaken := h.takes.taken
  rw [List.nil_append, hfound, hfirst] at htaken
  rw [hfound, hfirst] at hmapped
  refine ⟨hmany, htaken, hmapped, ?_, ?_, ?_, hio⟩
  · rw [hafter.select]
    exact (hends.2 hw32).1
  · rw [hafter.hint]
    exact (hends.2 hw32).2
  · rw [hafter.window, hwin, ← hends.1, hfirst, hfound]

section Whole

variable (hr : r.byteCount ≠ 0) (hb : Books g v (zeroSet g v.vol.fat) 0)
  (hlinks : 1 < g.numberOfWindows → g.numberOfClusters + 1 < 2 ^ g.width.linkBits)

include hr hb hlinks

/-- A request that is filled with consecutive clusters completes. -/
theorem exists_contiguous (hslow : ¬ FastPath g r v (zeroSet g v.vol.fat))
    (hadmitted : ¬ v.numberOfFreeClusters < r.clusterCount g) {y n : ℕ}
    (hfirst : FirstRun g r v (zeroSet g v.vol.fat) y n) (hlt : n < r.clusterCount g)
    (hsub : Finset.Ico y (y + r.clusterCount g) ⊆ zeroSet g v.vol.fat) :
    ∃ fuel c', fatAllocateDiskSpace g r fuel ⟨v.withFault none, [], r.byteCount⟩ = .ok () c' ∧
      c'.byteCount ≠ 0 ∧ Completed g r (zeroSet g v.vol.fat) ⟨v.withFault none, [], r.byteCount⟩ c'
        (List.range' y (r.clusterCount g)) ∧
      c'.mcb = mcbOf g (List.range' y (r.clusterCount g)) := by
  have hb' : Books g (v.withFault none) (zeroSet g v.vol.fat) 0 := hb.setVol _
  have hC := r.clusterCount_mul_le (g := g) hr
  obtain ⟨hints, v1, hbooks, hchosen, hrun⟩ :=
    ok_of_loop (c := ⟨v.withFault none, [], r.byteCount⟩) hr hb' hslow rfl hadmitted
  have hF : ∀ x, x ∈ zeroSet g v.vol.fat ↔ x ∈ g.clusters ∧ lookupEntry g.width v1.vol.fat x = 0 := by
    intro x
    rw [hchosen.fat, mem_zeroSet, Geometry.mem_clusters]
    rfl
  obtain ⟨s0, t, s1, k, htake, hfound, hplace, hio, hloop⟩ :=
    RunLoop.exists_first_take
      (c := { AllocCall.admitted g r ⟨v.withFault none, [], r.byteCount⟩ with vcb := v1 })
      hchosen hr hbooks rfl hF hlinks (hchosen.io rfl) (firstRun_withFault.mpr hfirst)
  obtain ⟨hmany, halong⟩ := htake.along hF hC hsub hlt hfound (hplace hlt) hio
  obtain ⟨fuel, s', hdone, hrem, htaken, hmcb⟩ := halong.exists_loop
    hF hC hlinks hsub hlt
  have hok := hrun (fuel + k) s' (by omega) ((hloop fuel).trans hdone)
  have hcompleted := completed_of_taken (c := ⟨v.withFault none, [], r.byteCount⟩) hchosen htaken hrem
    (fun hnone => by
      obtain ⟨-, _, -, -, -, hio'⟩ := ((RunLoop.taken_start
        (c := { AllocCall.admitted g r ⟨v.withFault none, [], r.byteCount⟩ with vcb := v1 }) _ hbooks
        rfl).sat_loop _ _ hF hC hlinks).ok ((hloop fuel).trans hdone)
      exact hio' hnone)
  exact ⟨fuel + k, _, hok, requestSize_fst_ne_zero hr, hcompleted, hmcb⟩

end Whole

/-- A map that is not one of 4 GB in consecutive clusters has several runs. -/
theorem length_mcbOf_ne_one {cs : List ℕ} {y n : ℕ}
    (hfree : ∀ c ∈ cs, c ∈ zeroSet g v.vol.fat) (hlen : cs.length = r.clusterCount g)
    (hn : n ≠ 0) (hpre : List.range' y n <+: cs)
    (hfirst : FirstRun g r v (zeroSet g v.vol.fat) y n)
    (hnot : ¬ Contiguous g r v (zeroSet g v.vol.fat)) : (mcbOf g cs).length ≠ 1 := by
  intro hone
  obtain ⟨z, hz⟩ := range'_of_mcbOf (fun c hc => zeroSet_subset _ (hfree c hc)) hone
  have hle := hpre.length_le
  rw [List.length_range'] at hle
  have hzy : y = z := by
    obtain ⟨m, rfl⟩ := Nat.exists_eq_succ_of_ne_zero hn
    obtain ⟨k, hk⟩ := Nat.exists_eq_succ_of_ne_zero (by omega : cs.length ≠ 0)
    rw [hz, hk, List.range'_succ, List.range'_succ, List.cons_prefix_cons] at hpre
    exact hpre.1
  refine hnot ⟨y, n, hfirst, fun c hc => hfree c ?_⟩
  rw [Finset.mem_Ico] at hc
  rw [hz, List.mem_range'_1]
  omega

section Main

variable (h : Consistent g v)

include h

/-- A request of 4 GB in consecutive clusters does not come back whole. -/
theorem not_deallocationUndoes (hr : r.byteCount ≠ 0)
    (hadmitted : ¬ v.numberOfFreeClusters < r.clusterCount g)
    (hmax : r.clusterCount g * g.clusterSize = 2 ^ 32)
    (hone : FastPath g r v (zeroSet g v.vol.fat) ∨ Contiguous g r v (zeroSet g v.vol.fat)) :
    ¬ DeallocationUndoes g r v := by
  intro hundoes
  have hlinks : 1 < g.numberOfWindows → g.numberOfClusters + 1 < 2 ^ g.width.linkBits :=
    fun _ => h.sound.links
  have hb' : Books g (v.withFault none) (zeroSet g v.vol.fat) 0 := h.books.setVol _
  have htwo := two_le_of_max hmax
  -- a map that is one run of all clusters
  have hsingle : ∀ {fuel c' y},
      fatAllocateDiskSpace g r fuel ⟨v.withFault none, [], r.byteCount⟩ = .ok () c' →
      c'.byteCount ≠ 0 → Completed g r (zeroSet g v.vol.fat)
        ⟨v.withFault none, [], r.byteCount⟩ c' (List.range' y (r.clusterCount g)) →
      c'.mcb = mcbOf g (List.range' y (r.clusterCount g)) → False := by
    intro fuel c' y hok hne hcompleted hmcb
    have hmem : ∀ c ∈ List.range' y (r.clusterCount g), c ∈ g.clusters := fun c hc =>
      zeroSet_subset _ (hcompleted.free c hc)
    have hy := (Geometry.mem_clusters.mp (hmem y (List.mem_range'_1.mpr (by omega)))).1
    have hlen : (List.range' y (r.clusterCount g)).length * g.clusterSize ≤ 2 ^ 32 := by
      rw [List.length_range', hmax]
    have hruns := runClusters_mcbRuns h.sound hmem hlen
    rw [if_pos ⟨length_mcbOf_range' hy (by omega), by rw [List.length_range', hmax]⟩] at hruns
    refine hcompleted.not_undo h.sound (x := y + r.clusterCount g - 1)
      (List.mem_range'_1.mpr (by omega)) (by rw [hmcb, hruns]) ?_ (fun c hc => List.mem_of_mem_dropLast hc)
      (List.Sublist.nodup (List.dropLast_sublist _) hcompleted.nodup)
      (by rw [hmcb]; exact validRun_mcbRuns h.sound hmem hlen) (hcompleted.io rfl)
      (hundoes none fuel c' hok hne)
    rw [List.dropLast_eq_take, List.length_range', List.take_range'_of_length_ge (by omega),
      List.mem_range'_1]
    omega
  by_cases hfast : FastPath g r v (zeroSet g v.vol.fat)
  · obtain ⟨c', hok, hne⟩ := exists_ok_of_fastPath (c := ⟨v.withFault none, [], r.byteCount⟩)
      hr hb' 0 rfl rfl (not_lt.mp hadmitted) hfast
    obtain ⟨x, hcompleted, hmcb⟩ :=
      completed_of_fast (c := ⟨v.withFault none, [], r.byteCount⟩) hr hb' rfl hfast hok
    exact hsingle hok hne hcompleted hmcb
  · obtain ⟨y, n, hfirst, hsub⟩ := hone.resolve_left hfast
    by_cases hlt : n < r.clusterCount g
    · obtain ⟨fuel, c', hok, hne, hcompleted, hmcb⟩ :=
        exists_contiguous hr h.books hlinks hfast hadmitted hfirst hlt hsub
      exact hsingle hok hne hcompleted hmcb
    · obtain rfl : n = r.clusterCount g := le_antisymm hfirst.le (not_lt.mp hlt)
      obtain ⟨fuel, c', hok, hne, hmcb⟩ :=
        exists_empty_map hr h.books hlinks hfast hadmitted hmax hfirst
      obtain ⟨cs, hcompleted⟩ := completed_of_ok (c := ⟨v.withFault none, [], r.byteCount⟩)
        hr hb' rfl hlinks hok hne
      have hlen := hcompleted.length
      obtain ⟨x, hx⟩ := List.exists_mem_of_length_pos (l := cs) (by omega)
      refine hcompleted.not_undo (v := v) h.sound hx (by rw [hmcb]; rfl) List.not_mem_nil
        (fun c hc => absurd hc List.not_mem_nil) List.nodup_nil ?_ (hcompleted.io rfl)
        (hundoes none fuel c' hok hne)
      rw [hmcb]
      exact fun run hrun => absurd hrun List.not_mem_nil

/-- **Deallocation undoes allocation** in a consistent state exactly when the request is
empty or not admitted, is below 4 GB, or is not filled with consecutive clusters. -/
theorem deallocationUndoes_iff :
    DeallocationUndoes g r v ↔ r.byteCount = 0 ∨ v.numberOfFreeClusters < r.clusterCount g ∨
      r.clusterCount g * g.clusterSize < 2 ^ 32 ∨
      ¬ (FastPath g r v (zeroSet g v.vol.fat) ∨ Contiguous g r v (zeroSet g v.vol.fat)) := by
  constructor
  · intro hundoes
    by_contra hnot
    rw [not_or, not_or, not_or, not_not] at hnot
    obtain ⟨hr, hadmitted, hbig, hone⟩ := hnot
    have hmax : r.clusterCount g * g.clusterSize = 2 ^ 32 :=
      le_antisymm (r.clusterCount_mul_le hr) (not_lt.mp hbig)
    exact not_deallocationUndoes h hr hadmitted hmax hone hundoes
  · intro hcond io fuel c' hok hne
    have hb' : Books g (v.withFault io) (zeroSet g v.vol.fat) 0 := h.books.setVol _
    by_cases hr : r.byteCount = 0
    · rw [fatAllocateDiskSpace, if_pos hr] at hok
      simp only [pure, EStateM.pure, EStateM.Result.ok.injEq, true_and] at hok
      rw [← hok] at hne
      exact absurd hr hne
    have hadmitted : ¬ v.numberOfFreeClusters < r.clusterCount g :=
      admitted_of_ok (c := ⟨v.withFault io, [], r.byteCount⟩) hr hok
    have hsize := (hcond.resolve_left hr).resolve_left hadmitted
    by_cases hfast : FastPath g r v (zeroSet g v.vol.fat)
    · obtain ⟨x, hcompleted, hmcb⟩ :=
        completed_of_fast (c := ⟨v.withFault io, [], r.byteCount⟩) hr hb' rfl hfast hok
      have hlt := hsize.resolve_right fun hno => hno (Or.inl hfast)
      exact hcompleted.sat_undo h.sound hr h.books hmcb (Or.inl hlt)
    · have hwrap : r.clusterCount g * g.clusterSize < 2 ^ 32 ∨
          ∀ y, ¬ FirstRun g r v (zeroSet g v.vol.fat) y (r.clusterCount g) :=
        hsize.imp_right fun hno y hfirst => hno (Or.inr ⟨y, _, hfirst, hfirst.subset⟩)
      obtain ⟨cs, y, n, hcompleted, hmcb, hfirst, hn, hpre⟩ :=
        map_of_ok hr h.books (fun _ => h.sound.links) hfast hwrap hok hne
      refine hcompleted.sat_undo h.sound hr h.books hmcb (hsize.imp_right fun hno => ?_)
      exact length_mcbOf_ne_one hcompleted.free hcompleted.length hn hpre hfirst
        fun hcont => hno (Or.inr hcont)

end Main

/-- The space of a request for 512 bytes of a diskette can be given back. -/
theorem deallocationUndoes_floppy :
    ∃ v, Consistent floppy v ∧ DeallocationUndoes floppy (request 512 (by decide)) v := by
  obtain ⟨v, -, -, hbooks, -⟩ := exists_mount floppy ⟨fun _ => 0, [], none⟩ rfl
  refine ⟨v, ⟨floppy_sound, hbooks⟩, (deallocationUndoes_iff ⟨floppy_sound, hbooks⟩).mpr ?_⟩
  exact Or.inr (Or.inr (Or.inl (by decide)))

theorem bigFat16_sound : bigFat16.Sound := by
  refine ⟨?_, by decide, ?_⟩
  · rw [bigFat16_width, bigFat16_numberOfClusters]
    decide
  · rw [bigFat16_numberOfClusters]
    decide

/-- 4 GB of an empty volume are one run.  Its byte count is `0xffffffff` when it is given
back, and its last cluster stays allocated. -/
theorem not_deallocationUndoes_bigFat16 : ∃ v,
    fatSetupAllocationSupport bigFat16 (unmounted ⟨fun _ => 0, [], none⟩) = .ok () v ∧
      Consistent bigFat16 v ∧ ¬ DeallocationUndoes bigFat16 (bigRequest 0 (by decide)) v := by
  obtain ⟨v, hsetup, hfat, hbooks, -⟩ := exists_mount bigFat16 ⟨fun _ => 0, [], none⟩ rfl
  have hcons : Consistent bigFat16 v := ⟨bigFat16_sound, hbooks⟩
  have hcur := hbooks.currentWindow_eq_zero bigFat16_numberOfWindows
  have hF : zeroSet bigFat16 v.vol.fat = Finset.Ico 2 8202 := by
    ext c
    rw [mem_zeroSet, hfat, bigFat16_width, bigFat16_numberOfClusters, Finset.mem_Ico, lookupEntry]
    simp [Bytes.read16]
  have hC : (bigRequest 0 (by decide)).clusterCount bigFat16 = 8192 := bigFat16_requestSize
  have hhint : ¬ (bigRequest 0 (by decide)).Hinted bigFat16 := by simp [Request.Hinted, bigRequest]
  refine ⟨v, hsetup, hcons, not_deallocationUndoes hcons (by decide) ?_ ?_ (Or.inl ?_)⟩
  · have htotal := hbooks.total
    rw [hF, Nat.card_Ico] at htotal
    rw [hC]
    omega
  · rw [hC, bigFat16_clusterSize]
    norm_num
  · rw [FastPath, if_neg hhint, startWindow, if_neg (by simp [hhint]), hcur, hC, hF]
    refine ⟨2, ?_, ?_, fun c hc => ?_⟩
    · rw [bigFat16.firstOf_zero]
    · rw [bigFat16_endOf]
      omega
    · rw [Finset.mem_Ico] at hc ⊢
      omega

end KernelDrivers.Fat
