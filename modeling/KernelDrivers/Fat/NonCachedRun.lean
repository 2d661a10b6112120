import KernelDrivers.Fat.LookupRun
import KernelDrivers.Fat.NonCachedIo

/-!
# Where uncached transfers go

When a file's map holds whole runs of its chain, a lookup that has to walk leaves the map with
whole runs, and the number it gives for the run is that of the run in the map.  From this the list
of transfers follows run by run.

The exception is the last byte of a file of 4 GB, `MAXULONG`: it is looked up for the last run of
the list, and it is found only when it is in the map already.

## Main definitions

* `LookedUp` — what a lookup of an allocated byte gives.
* `TransfersRight`, `ReadsRight` — every byte goes to its place.
* `OneRun` — the clusters from a byte on are consecutive.

## Main results

* `sat_lookedUp` — lookups, with the number of the run.
* `transfers_iff` — when transfers go to their places.
-/

namespace KernelDrivers.Fat

variable {g : Geometry} {cs : List ℕ} {k m m' vbo : ℕ}

/-! ## Maps of whole runs -/

/-- The map of a longer part of the chain goes on from that of whole runs. -/
theorem exists_mcbOf_take_append (hcs : ∀ c ∈ cs, c ∈ g.clusters) (hwhole : WholeRuns cs m)
    (hmm' : m ≤ m') (hm' : m' ≤ cs.length) :
    mcbOf g (cs.take m') = mcbOf g (cs.take m) ++ mcbOf g ((cs.take m').drop m) := by
  have hsplit : cs.take m' = cs.take m ++ (cs.take m').drop m := by
    conv_lhs => rw [← List.take_append_drop m (cs.take m'), List.take_take, min_eq_left hmm']
  conv_lhs => rw [hsplit]
  rw [mcbOf, List.map_append, Runs.ofList_append, List.map_append]
  · rfl
  · intro a ha b hb hsucc
    rw [List.getLast?_map] at ha
    rw [List.head?_map] at hb
    obtain ⟨c, hc, rfl⟩ := Option.map_eq_some_iff.mp ha
    obtain ⟨d, hd, rfl⟩ := Option.map_eq_some_iff.mp hb
    have hmpos : 0 < m := by
      rcases Nat.eq_zero_or_pos m with rfl | hpos
      · simp at hc
      · exact hpos
    have hmlt : m < m' := by
      by_contra hge
      rw [List.drop_of_length_le (by rw [List.length_take]; omega)] at hd
      cases hd
    have hlast : c = cs.getD (m - 1) 0 := by
      rw [List.getLast?_eq_getElem?, List.length_take, min_eq_left (by omega),
        List.getElem?_take_of_lt (by omega)] at hc
      rw [List.getD_eq_getElem?_getD, hc]
      rfl
    have hhead : d = cs.getD m 0 := by
      rw [List.head?_drop, List.getElem?_take_of_lt hmlt] at hd
      rw [List.getD_eq_getElem?_getD, hd]
      rfl
    have hmem : ∀ i < cs.length, cs.getD i 0 ∈ g.clusters := by
      intro i hi
      rw [List.getD_eq_getElem _ _ hi]
      exact hcs _ (List.getElem_mem _)
    have hc2 := (Geometry.mem_clusters.mp (hmem (m - 1) (by omega))).1
    have hd2 := (Geometry.mem_clusters.mp (hmem m (by omega))).1
    refine hwhole (by omega) hmpos ?_
    rw [← hhead, ← hlast]
    omega

/-- A byte in the map of whole runs is found in the same run when the map has grown. -/
theorem fatLookupMcbEntry_take (hcs : ∀ c ∈ cs, c ∈ g.clusters) (hwhole : WholeRuns cs m)
    (hmm' : m ≤ m') (hm' : m' ≤ cs.length) (hvbo : vbo < m * g.clusterSize) :
    fatLookupMcbEntry g (mcbOf g (cs.take m')) vbo = fatLookupMcbEntry g (mcbOf g (cs.take m)) vbo := by
  have hlt : vbo / g.sectorSize < (Runs.cells (mcbOf g (cs.take m))).length := by
    rw [length_cells_mcbOf, List.length_take, min_eq_left (by omega)]
    apply Nat.div_lt_of_lt_mul
    rw [Nat.mul_comm, ← mul_clusterSize]
    exact hvbo
  rw [exists_mcbOf_take_append hcs hwhole hmm' hm', fatLookupMcbEntry, fatLookupMcbEntry,
    Runs.lookup_append hlt]

/-- The bytes of the first clusters. -/
theorem fileLbo_take (hm : m ≤ cs.length) (hvbo : vbo < m * g.clusterSize) :
    fileLbo g (cs.take m) vbo = fileLbo g cs vbo := by
  have hquot : vbo / g.clusterSize < m := Nat.div_lt_of_lt_mul (by rwa [Nat.mul_comm])
  rw [fileLbo, fileLbo, List.getD_eq_getElem _ _ (by rw [List.length_take]; omega),
    List.getD_eq_getElem _ _ (by omega), List.getElem_take]

/-- Consecutive clusters are one run of the map. -/
theorem mcbOf_range' {c n : ℕ} (hc : 2 ≤ c) (hn : 0 < n) :
    mcbOf g (List.range' c n) =
      [⟨some (g.fileAreaSector + (c - 2) * g.clusterSectors), n * g.clusterSectors⟩] := by
  have hmap : (List.range' c n).map (· - 2) = List.range' (c - 2) n := by
    apply List.ext_getElem
    · simp
    · intro i hi hi'
      simp
      omega
  rw [mcbOf, hmap, Runs.ofList_range' hn]
  rfl

/-! ## Lookups -/

/-- What a lookup of an allocated byte gives: the first `m` clusters, whole runs, are in the map,
and the answer is what is found there; the walk takes off the last byte of 4 GB. -/
structure LookedUp (g : Geometry) (cs : List ℕ) (k m vbo : ℕ) (run : FileRun) (t : FcbOrDcb) :
    Prop where
  le : k ≤ m
  le_length : m ≤ cs.length
  lt : vbo < m * g.clusterSize
  whole : WholeRuns cs m
  mcb : t.mcb = mcbOf g (cs.take m)
  entry : ∃ byteCount,
    fatLookupMcbEntry g (mcbOf g (cs.take m)) vbo = some (run.lbo, byteCount, run.index) ∧
      (run.byteCount = byteCount ∧ (run.endOnMax = true ↔ vbo + byteCount = 2 ^ 32) ∨
        run.endOnMax = true ∧ run.byteCount = 0xffffffff - vbo ∧
          ∀ j, vbo + j < 2 ^ 32 → fileLbo g cs (vbo + j) = run.lbo + j)
  grown : m = k ∨ m * g.clusterSize ≤ vbo + run.byteCount + 1

section Walk

variable {k : Walk} {f : FcbOrDcb} {i : ℕ}

/-- The run the walk is in becomes the last one of the map. -/
theorem Walk.At.mcbOf_take (h : k.At g cs vbo f i m) (hcs : ∀ c ∈ cs, c ∈ g.clusters)
    (hmi : m ≤ i) :
    ∃ base, mcbOf g (cs.take (i + 1)) =
      f.mcb ++ [⟨some base, (i + 1 - m) * g.clusterSectors⟩] := by
  rcases h.run with ⟨hm, -⟩ | ⟨-, -, -, hcons⟩
  · omega
  · have hi := h.lt
    have hc : 2 ≤ cs.getD m 0 := by
      rw [List.getD_eq_getElem _ _ (hmi.trans_lt hi)]
      exact (Geometry.mem_clusters.mp (hcs _ (List.getElem_mem _))).1
    have hlen : (cs.take m).length = m := by rw [List.length_take, min_eq_left (by omega)]
    have hdrop : (cs.take (i + 1)).drop m = List.range' (cs.getD m 0) (i + 1 - m) := by
      rw [take_eq_append_range' hmi hi hcons, List.drop_left' hlen]
    refine ⟨g.fileAreaSector + (cs.getD m 0 - 2) * g.clusterSectors, ?_⟩
    rw [exists_mcbOf_take_append hcs h.whole (by omega) hi, hdrop, mcbOf_range' hc (by omega),
      ← h.mcb]

/-- The number of runs the walk counts is that of the map. -/
theorem Walk.At.length_mcbOf_take (h : k.At g cs vbo f i m) (hcs : ∀ c ∈ cs, c ∈ g.clusters)
    (harea : 0 < g.fileAreaLbo) (hruns : k.runs = f.mcb.length) :
    k.runsAfter = (mcbOf g (cs.take (i + 1))).length := by
  rcases h.run with ⟨hm, hzero⟩ | ⟨hmi, hfirst, -⟩
  · rw [Walk.runsAfter, if_neg (by rw [hzero]; simp), hruns, ← hm, ← h.mcb]
  · obtain ⟨base, hmcb⟩ := h.mcbOf_take hcs hmi
    have hne : k.firstLboOfCurrentRun ≠ 0 := by
      rw [hfirst, fatGetLboFromIndex]
      omega
    rw [Walk.runsAfter, if_pos hne, hruns, hmcb, List.length_append]
    rfl

/-- What the map says of a byte of the run the walk has passed. -/
theorem Walk.At.lookedUp (h : k.At g cs vbo f i m) (hcs : ∀ c ∈ cs, c ∈ g.clusters)
    (hsectors : g.fileAreaSector + g.numberOfClusters * g.clusterSectors < 2 ^ 32)
    (hal : g.sectorSize ∣ g.fileAreaLbo)
    (harea : 0 < g.fileAreaLbo) (hcount : cs.length ≤ g.numberOfClusters)
    (hle : cs.length * g.clusterSize ≤ 2 ^ 32) (hruns : k.runs = f.mcb.length)
    (hwhole : WholeRuns cs (i + 1)) (hin : vbo < (i + 1) * g.clusterSize) {v : ℕ} {e : Bool}
    (hv : v = (i + 1) * g.clusterSize ∧ v < 2 ^ 32 ∧ e = false ∨
      v = 0xffffffff ∧ (i + 1) * g.clusterSize = 2 ^ 32 ∧ e = true) (hvbo : vbo < v)
    {t : FcbOrDcb} (ht : t.mcb = mcbOf g (cs.take (i + 1))) :
    LookedUp g cs m (i + 1) vbo (k.found vbo v e) t ∧
      (i + 1) * g.clusterSize ≤ vbo + (k.found vbo v e).byteCount + 1 := by
  have hs := g.sectorSize_pos
  have hi := h.lt
  have hmle := h.le_vbo
  have hlen : (cs.take (i + 1)).length = i + 1 := by rw [List.length_take, min_eq_left (by omega)]
  have hile : (i + 1) * g.clusterSize ≤ 2 ^ 32 := (Nat.mul_le_mul_right _ (by omega)).trans hle
  have hmi : m ≤ i := by
    have := Nat.lt_of_mul_lt_mul_right (hmle.trans_lt hin)
    omega
  obtain ⟨hlbo, hbytes⟩ := h.found hcs hin (by omega) e (v := v)
  have hplain : Plain (Runs.cells (mcbOf g (cs.take (i + 1)))) := (plain_mcbOf hsectors hcs).mcbOf_take _
  obtain ⟨byteCount, index, hlookup, hpos, hbound, -⟩ := exists_fatLookupMcbEntry hal harea hplain
    (by rw [hlen]; exact hile) (by rw [hlen]; exact hin)
  -- the byte is in the last run of the map
  obtain ⟨base, hmcb⟩ := h.mcbOf_take hcs hmi
  have hcells : (Runs.cells f.mcb).length = m * g.clusterSectors := by
    rw [h.mcb, length_cells_mcbOf, List.length_take, min_eq_left (by omega)]
  have hge : m * g.clusterSectors ≤ vbo / g.sectorSize := by
    rw [Nat.le_div_iff_mul_le hs, ← mul_clusterSize]
    exact hmle
  have hlt : vbo / g.sectorSize < (i + 1) * g.clusterSectors := by
    apply Nat.div_lt_of_lt_mul
    rw [Nat.mul_comm, ← mul_clusterSize]
    exact hin
  have hsub : (i + 1 - m) * g.clusterSectors =
      (i + 1) * g.clusterSectors - m * g.clusterSectors := Nat.sub_mul _ _ _
  have hraw : Runs.lookup (mcbOf g (cs.take (i + 1))) (vbo / g.sectorSize) =
      some (some (base + (vbo / g.sectorSize - m * g.clusterSectors)),
        (i + 1) * g.clusterSectors - vbo / g.sectorSize, f.mcb.length) := by
    rw [hmcb, Runs.lookup_append_right (by rw [hcells]; exact hge), hcells, Runs.lookup,
      if_pos (by dsimp only; omega)]
    simp only [Option.map_some, Nat.zero_add, Option.some.injEq, Prod.mk.injEq, and_true, true_and]
    omega
  have hleft : ((i + 1) * g.clusterSectors - vbo / g.sectorSize) * g.sectorSize =
      (i + 1) * g.clusterSize - vbo / g.sectorSize * g.sectorSize := by
    rw [Nat.sub_mul, ← mul_clusterSize]
  have hindex : ulongSub k.runsAfter 1 = f.mcb.length := by
    have hlast := h.length_mcbOf_take hcs harea hruns
    rw [hmcb, List.length_append, List.length_singleton] at hlast
    have hfew : f.mcb.length ≤ m * g.clusterSectors := by
      rw [← hcells, h.mcb]
      exact (normal_mcbOf g _).length_le
    have hall : m * g.clusterSectors ≤ g.numberOfClusters * g.clusterSectors :=
      Nat.mul_le_mul_right _ (by omega)
    rw [hlast, ulongSub]
    omega
  rw [fatLookupMcbEntry, hraw, Option.map_some, Option.some.injEq, Prod.mk.injEq,
    Prod.mk.injEq] at hlookup
  obtain ⟨hlookupLbo, hlookupCount, hlookupIndex⟩ := hlookup
  rw [fileLbo_take hi hin] at hlookupLbo
  have hmod := Nat.mod_lt vbo hs
  have hdiv := Nat.div_add_mod' vbo g.sectorSize
  have hfound : (k.found vbo v e).byteCount = v - vbo := by
    change ulongSub v vbo = v - vbo
    rw [ulongSub]
    omega
  have hgrown : (i + 1) * g.clusterSize ≤ vbo + (k.found vbo v e).byteCount + 1 := by omega
  refine ⟨⟨by omega, hi, hin, hwhole, ht, ⟨byteCount, ?_, ?_⟩, Or.inr hgrown⟩, hgrown⟩
  · rw [fatLookupMcbEntry, hraw, Option.map_some, hlookupLbo, hlookupCount, hlbo]
    change _ = some (_, _, ulongSub k.runsAfter 1)
    rw [hindex]
  · rw [hfound]
    rcases hv with ⟨hv, hsmall, he⟩ | ⟨hv, hmax, he⟩
    · left
      have hpos' : 0 < (i + 1) * g.clusterSectors - vbo / g.sectorSize := by omega
      have hcount' : byteCount = v - vbo := by
        rw [← hlookupCount, mcbByteCount, hleft, ulong_of_lt (by omega), if_neg (by omega)]
        omega
      refine ⟨hcount'.symm, ?_⟩
      change e = true ↔ _
      rw [he]
      simp only [Bool.false_eq_true, false_iff]
      omega
    · right
      refine ⟨he, by rw [hv], fun j hj => ?_⟩
      rw [hbytes j (by omega), hlbo]

/-- The walk gives what the map says when it has ended. -/
theorem sat_walkChain_lookedUp (hg : g.Mappable) (hcs : ∀ c ∈ cs, c ∈ g.clusters)
    (hle : cs.length * g.clusterSize ≤ 2 ^ 32) (hvbo : vbo < 0xfffffffe) {fuel : ℕ}
    (h : k.At g cs vbo f i m) (hruns : k.runs = f.mcb.length)
    (hchain : Leads (fatLink g.width f.vcb.vol.fat) cs .last)
    (hcount : cs.length ≤ g.numberOfClusters) :
    Sat (walkChain g vbo fuel k) f
      (fun r t => ∀ run ∈ r, ∃ m', LookedUp g cs m m' vbo run t ∧
        m' * g.clusterSize ≤ vbo + run.byteCount + 1)
      (fun _ _ => True) := by
  have hS := g.clusterSize_pos
  induction fuel generalizing k f i m with
  | zero => exact Sat.throw trivial
  | succ fuel ih =>
      have hi := h.lt
      have hpassed := fun io => (h.withFault io).lookedUp hcs hg.sectors hg.aligned hg.area_pos hcount
        hle hruns
      refine sat_walkChain_succ hg.area_pos hcs hle (by omega) h hchain hcount (fun _ => trivial)
        ?_ ?_ ?_
      · intro io hio hlast
        refine ⟨fun hsize => by omega, fun _ _ => by rintro run ⟨⟩, fun _ hin => ?_⟩
        rintro run ⟨⟩
        rw [← hlast] at hin
        refine ⟨i + 1, hpassed io ?_ hin ?_ ?_ ?_⟩
        · rw [hlast]
          exact wholeRuns_length cs
        · rw [chainBytes, hlast]
          by_cases hmax : cs.length * g.clusterSize = 2 ^ 32
          · exact Or.inr ⟨by rw [hmax]; rfl, hmax, decide_eq_true hmax⟩
          · exact Or.inl ⟨min_eq_left (by omega), by omega, decide_eq_false hmax⟩
        · rw [chainBytes, ← hlast]
          omega
        · rw [hlast, List.take_length]
      · intro io hio hi' hwhole hin
        rintro run ⟨⟩
        have hlt : (i + 1) * g.clusterSize < 2 ^ 32 :=
          ((Nat.mul_lt_mul_right hS).mpr hi').trans_le hle
        exact ⟨i + 1, hpassed io hwhole hin (Or.inl ⟨rfl, hlt, rfl⟩) hin rfl⟩
      · intro io k' m' hio hmm' hruns' hk'
        have hlength : k'.runs = (mcbOf g (cs.take m')).length := by
          rcases hruns' with ⟨rfl, hsame⟩ | ⟨rfl, hafter⟩
          · rw [hsame, hruns, h.mcb]
          · rw [hafter, h.length_mcbOf_take hcs hg.area_pos hruns]
        refine (ih hk' hlength hchain).mono ?_ fun _ _ => id
        intro r t hr run hrun
        obtain ⟨m'', hlooked, hgrown⟩ := hr run hrun
        exact ⟨m'', ⟨hmm'.trans hlooked.le, hlooked.le_length, hlooked.lt, hlooked.whole,
          hlooked.mcb, hlooked.entry, Or.inr hgrown⟩, hgrown⟩

end Walk

theorem runs_of_walkStart {f : FcbOrDcb} {w : Walk} (h : walkStart g f = some w) :
    w.runs = f.mcb.length := by
  rw [walkStart] at h
  dsimp only at h
  split at h
  · cases h
    rfl
  · next hlast =>
      split at h
      · cases h
      · cases h
        cases hmcb : f.mcb.getLast? with
        | none => rw [List.getLast?_eq_none_iff.mp hmcb, List.length_nil]
        | some run =>
            rw [fatLookupLastMcbEntry, hmcb] at hlast
            dsimp only at hlast
            cases hbase : run.base with
            | none =>
                rw [hbase] at hlast
                exact absurd rfl hlast
            | some l =>
                rw [hbase] at hlast
                dsimp only at hlast
                split at hlast <;> exact absurd rfl hlast

/-- **Lookups of allocated bytes**, with the number of the run. -/
theorem sat_lookedUp (hg : g.Mappable) {f : FcbOrDcb} (h : f.HasChain g cs) (hsize : f.Sized g cs)
    {k : ℕ} (hk : k ≤ cs.length) (hmcb : f.mcb = mcbOf g (cs.take k)) (hwhole : WholeRuns cs k)
    (hvbo : vbo < cs.length * g.clusterSize) (hcond : vbo < k * g.clusterSize ∨ vbo < 0xfffffffe)
    {fuel : ℕ} (hfuel : cs.length ≤ fuel) :
    Sat (lookupAllocated g vbo fuel) f
      (fun run t => ∃ m, LookedUp g cs k m vbo run t ∧ f.Extended g cs m t ∧
        (f.vcb.vol.io = none → t.vcb.vol.io = none))
      (fun s _ => s = .raised .deviceError ∧ f.vcb.vol.io ≠ none) := by
  have hplain := plain_mcbOf hg.sectors h.clusters
  have hlenk : (cs.take k).length = k := by rw [List.length_take, min_eq_left hk]
  have hkle : k * g.clusterSize ≤ 2 ^ 32 := (Nat.mul_le_mul_right _ hk).trans h.le
  rw [lookupAllocated, fatLookupFileAllocation]
  by_cases hin : vbo < k * g.clusterSize
  · -- the map has the answer
    obtain ⟨byteCount, index, hlookup, hpos, hbound, -⟩ := exists_fatLookupMcbEntry hg.aligned
      hg.area_pos (hplain.mcbOf_take k) (by rw [hlenk]; exact hkle) (by rw [hlenk]; exact hin)
    rw [hlenk] at hbound
    rw [bind_assoc]
    apply Sat.get_bind
    rw [hmcb, hlookup]
    refine Sat.pure ⟨k, ⟨le_rfl, hk, hin, hwhole, hmcb, ⟨byteCount, hlookup, Or.inl ⟨rfl, ?_⟩⟩,
      Or.inl rfl⟩, ?_, id⟩
    · dsimp only
      rw [decide_eq_true_iff, ulong]
      omega
    · rw [FcbOrDcb.Extended, ← hmcb]
      rfl
  · have hge : k * g.clusterSize ≤ vbo := Nat.le_of_not_lt hin
    have hmax : vbo < 0xfffffffe := hcond.resolve_left hin
    have hne : cs ≠ [] := by
      rintro rfl
      simp at hvbo
    obtain ⟨w, hstart, hat⟩ := exists_walkStart hg.aligned hplain h hne hk hmcb hwhole hge
    have hlow : ¬ f.allocationSize.lowPart ≤ vbo := by
      rcases hsize with hs | hs <;> rw [hs]
      · dsimp only [chainBytes]
        omega
      · dsimp only [fcbLookupAllocationSizeHint]
        omega
    rw [bind_assoc]
    apply Sat.get_bind
    rw [hmcb, fatLookupMcbEntry_eq_none (by rw [hlenk]; exact hge)]
    dsimp only
    rw [if_neg hlow, hstart]
    refine Sat.bind (((sat_walkChain hg.area_pos h.clusters h.le (by omega) hat (h.leads hne)
      h.length_le).and (sat_walkChain_lookedUp hg h.clusters h.le hmax hat (runs_of_walkStart hstart)
        (h.leads hne) h.length_le)).mono (fun _ _ => id) ?_) ?_
    · rintro s t ⟨⟨hstop, -⟩, -⟩
      rcases hstop with ⟨-, hshort⟩ | ⟨hs, n, -, hio⟩
      · omega
      · exact ⟨hs, by rw [hio]; simp⟩
    · rintro r t ⟨⟨m, n, -, hwalked, -, hio, -⟩, hr⟩
      cases r with
      | none =>
          have := hwalked.answer.2
          omega
      | some run =>
          obtain ⟨m', hlooked, -⟩ := hr run rfl
          refine Sat.pure ⟨m', hlooked, ?_, fun hnone => ?_⟩
          swap
          · rw [hnone] at hio
            exact Option.map_eq_none_iff.mp hio.symm
          have hfile := hwalked.file
          rw [if_neg (by omega)] at hfile
          have hsame : mcbOf g (cs.take m) = mcbOf g (cs.take m') := by
            rw [← hlooked.mcb, hfile]
          rw [hsame] at hfile
          exact hfile

/-! ## The list of transfers -/

/-- The bytes of a file, each with its place in the buffer and on the disk. -/
def fileBytes (g : Geometry) (cs : List ℕ) (vbo offset byteCount : ℕ) : List (ℕ × ℕ × ℕ) :=
  (List.range byteCount).map fun j => (vbo + j, offset + j, fileLbo g cs (vbo + j))

theorem fileBytes_add (g : Geometry) (cs : List ℕ) (vbo offset n n' : ℕ) :
    fileBytes g cs vbo offset (n + n') =
      fileBytes g cs vbo offset n ++ fileBytes g cs (vbo + n) (offset + n) n' := by
  simp only [fileBytes, List.range_add, List.map_append, List.map_map]
  congr 1
  apply List.map_congr_left
  intro j _
  simp only [Function.comp_apply, Nat.add_assoc]

/-- The transfer of consecutive bytes. -/
theorem IoRun.bytes_eq {r : IoRun}
    (h : ∀ j < r.byteCount, fileLbo g cs (r.vbo + j) = r.lbo + j) :
    r.bytes = fileBytes g cs r.vbo r.offset r.byteCount := by
  apply List.map_congr_left
  intro j hj
  rw [h j (List.mem_range.mp hj)]

/-- The byte of the file at which run `i` of its map starts; run `i + 1` starts where it ends. -/
def runStart (g : Geometry) (cs : List ℕ) (i : ℕ) : ℕ :=
  Runs.startOf (mcbOf g cs) i * g.sectorSize

theorem runStart_mono (g : Geometry) (cs : List ℕ) {i j : ℕ} (h : i ≤ j) :
    runStart g cs i ≤ runStart g cs j := Nat.mul_le_mul_right _ (Runs.startOf_mono _ h)

/-- The clusters from number `i` on are consecutive. -/
def OneRun (cs : List ℕ) (i : ℕ) : Prop :=
  ∀ j, i ≤ j → j + 1 < cs.length → cs.getD (j + 1) 0 = cs.getD j 0 + 1

section Runs

variable (hg : g.Mappable) (hcs : ∀ c ∈ cs, c ∈ g.clusters)
  (hle : cs.length * g.clusterSize ≤ 2 ^ 32)

include hle in
theorem runStart_le (i : ℕ) : runStart g cs i ≤ 2 ^ 32 := by
  have hall : Runs.startOf (mcbOf g cs) i ≤ (Runs.cells (mcbOf g cs)).length := by
    rw [Runs.length_cells_eq_sum, Runs.startOf, List.map_take]
    exact List.Sublist.sum_le_sum (List.take_sublist _ _) (by simp)
  rw [length_cells_mcbOf] at hall
  calc runStart g cs i ≤ cs.length * g.clusterSectors * g.sectorSize := Nat.mul_le_mul_right _ hall
    _ = cs.length * g.clusterSize := (mul_clusterSize g _).symm
    _ ≤ 2 ^ 32 := hle

include hle in
/-- The byte is in the run that is found, and the bytes left in it from its sector on are counted up
to `0xffffffff`. -/
theorem count_of_lookup {lbo byteCount i : ℕ}
    (h : fatLookupMcbEntry g (mcbOf g cs) vbo = some (lbo, byteCount, i)) :
    runStart g cs i ≤ vbo ∧ vbo < runStart g cs (i + 1) ∧
      byteCount = min (runStart g cs (i + 1) - vbo / g.sectorSize * g.sectorSize) 0xffffffff -
        vbo % g.sectorSize := by
  have hs := g.sectorSize_pos
  obtain ⟨⟨base, left, index⟩, hlookup, hmap⟩ := Option.map_eq_some_iff.mp h
  simp only [Prod.mk.injEq] at hmap
  obtain ⟨-, hcount, rfl⟩ := hmap
  obtain ⟨r, hr, hstart, hend, hpos, -⟩ := Runs.exists_run_of_lookup hlookup
  rw [← Runs.startOf_succ hr] at hend
  have hbound := runStart_le hle (index + 1)
  have hdiv := Nat.div_add_mod' vbo g.sectorSize
  have hmod := Nat.mod_lt vbo hs
  have hmulStart := Nat.mul_le_mul_right g.sectorSize hstart
  have hend' : runStart g cs (index + 1) =
      vbo / g.sectorSize * g.sectorSize + left * g.sectorSize := by
    rw [runStart, ← hend, Nat.add_mul]
  have hone : g.sectorSize ≤ left * g.sectorSize := Nat.le_mul_of_pos_left _ hpos
  refine ⟨?_, by omega, ?_⟩
  · rw [runStart]
    omega
  · have hleft : left * g.sectorSize =
        runStart g cs (index + 1) - vbo / g.sectorSize * g.sectorSize := by omega
    have hdvd : 2 ∣ left * g.sectorSize :=
      Dvd.dvd.mul_left (dvd_pow_self 2 (by have := g.sector_mem; omega)) _
    rw [← hcount, ← hleft, mcbByteCount, ulong]
    by_cases hmax : left * g.sectorSize = 2 ^ 32
    · rw [hmax, if_pos ⟨by norm_num, hpos.ne'⟩]
      rfl
    · rw [Nat.mod_eq_of_lt (by omega), if_neg (by omega)]
      omega

include hle in
/-- For the first byte of a sector these are the bytes left in the run. -/
theorem run_of_lookup {lbo byteCount i : ℕ}
    (h : fatLookupMcbEntry g (mcbOf g cs) vbo = some (lbo, byteCount, i)) :
    runStart g cs i ≤ vbo ∧ vbo < runStart g cs (i + 1) ∧
      (g.sectorSize ∣ vbo → byteCount = min (runStart g cs (i + 1) - vbo) 0xffffffff) := by
  obtain ⟨hstart, hend, hcount⟩ := count_of_lookup hle h
  refine ⟨hstart, hend, fun hal => ?_⟩
  rw [hcount, Nat.div_mul_cancel hal, Nat.mod_eq_zero_of_dvd hal, Nat.sub_zero]

include hg hcs hle

/-- What is found is where the byte is, and the bytes counted follow it. -/
theorem lbo_of_lookup {lbo byteCount i : ℕ} (hin : vbo < cs.length * g.clusterSize)
    (h : fatLookupMcbEntry g (mcbOf g cs) vbo = some (lbo, byteCount, i)) :
    lbo = fileLbo g cs vbo ∧ 0 < byteCount ∧ vbo + byteCount ≤ cs.length * g.clusterSize ∧
      ∀ j < byteCount, fileLbo g cs (vbo + j) = lbo + j := by
  obtain ⟨byteCount', i', hlookup, hpos, hbound, hrun⟩ := exists_fatLookupMcbEntry hg.aligned hg.area_pos
    (plain_mcbOf hg.sectors hcs) hle hin
  rw [h, Option.some.injEq, Prod.mk.injEq, Prod.mk.injEq] at hlookup
  obtain ⟨rfl, rfl, rfl⟩ := hlookup
  exact ⟨rfl, hpos, hbound, hrun⟩

omit hg hcs hle in
/-- The next entry of the map is what is found at its first byte. -/
theorem exists_fatGetNextMcbEntry {i : ℕ} (hi : i < (mcbOf g cs).length) :
    ∃ v lbo byteCount, fatGetNextMcbEntry g (mcbOf g cs) i = some (v, lbo, byteCount) ∧
      fatLookupMcbEntry g (mcbOf g cs) (runStart g cs i) = some (lbo, byteCount, i) := by
  have hr : (mcbOf g cs)[i]? = some (mcbOf g cs)[i] := List.getElem?_eq_getElem hi
  refine ⟨_, _, _, by rw [fatGetNextMcbEntry, hr, Option.map_some], ?_⟩
  rw [fatLookupMcbEntry, runStart, Nat.mul_div_cancel _ g.sectorSize_pos,
    Runs.lookup_startOf (fun _ => (normal_mcbOf g cs).count_pos_of_mem) hr, Option.map_some,
    Nat.mul_mod_left]
  dsimp only
  split
  · next hzero => rw [hzero, Nat.sub_zero]
  · rfl

/-- **The loop over the runs** sends every byte to its place. -/
theorem bytes_ioRunsFrom {passes last : ℕ} {c : RunCursor} (hpasses : passes = last + 1 - c.currentIndex)
    (hi : c.currentIndex ≤ last) (hlast : last < (mcbOf g cs).length)
    (hal : g.sectorSize ∣ c.startingVbo)
    (hl : fatLookupMcbEntry g (mcbOf g cs) c.startingVbo =
      some (c.nextLbo, c.nextByteCount, c.currentIndex))
    (hnext : c.startingVbo + c.nextByteCount = runStart g cs (c.currentIndex + 1))
    (hlt : runStart g cs last < c.startingVbo + c.byteCount)
    (hend : c.startingVbo + c.byteCount ≤ runStart g cs (last + 1))
    (hcount : c.byteCount < 2 ^ 32) (hoffset : c.bufferOffset + c.byteCount < 2 ^ 32) :
    (ioRunsFrom g (mcbOf g cs) passes c).flatMap IoRun.bytes =
      fileBytes g cs c.startingVbo c.bufferOffset c.byteCount := by
  induction passes generalizing c with
  | zero => omega
  | succ passes ih =>
      have hmax := runStart_le hle (last + 1)
      have hin : c.startingVbo < cs.length * g.clusterSize := by
        by_contra hge
        rw [fatLookupMcbEntry_eq_none (Nat.le_of_not_lt hge)] at hl
        cases hl
      obtain ⟨hlbo, hpos, -, hbytes⟩ := lbo_of_lookup hg hcs hle hin hl
      rw [ioRunsFrom]
      rcases Nat.eq_or_lt_of_le hi with heq | hlt'
      · -- the last run
        have hle' : c.byteCount ≤ c.nextByteCount := by
          rw [heq] at hnext
          omega
        have hmin : (if c.byteCount < c.nextByteCount then c.byteCount else c.nextByteCount) =
            c.byteCount := by
          split <;> omega
        have hzero : passes = 0 := by omega
        rw [hmin, hzero, ioRunsFrom, List.flatMap_cons, List.flatMap_nil, List.append_nil]
        exact IoRun.bytes_eq fun j hj => hbytes j (lt_of_lt_of_le hj hle')
      · have hnextStart := runStart_mono g cs (show c.currentIndex + 1 ≤ last from hlt')
        have hmin : (if c.byteCount < c.nextByteCount then c.byteCount else c.nextByteCount) =
            c.nextByteCount := if_neg (by omega)
        obtain ⟨v, lbo, byteCount, hget, hlookup⟩ : ∃ v lbo byteCount,
            fatGetNextMcbEntry g (mcbOf g cs) (c.currentIndex + 1) = some (v, lbo, byteCount) ∧
              fatLookupMcbEntry g (mcbOf g cs) (runStart g cs (c.currentIndex + 1)) =
                some (lbo, byteCount, c.currentIndex + 1) :=
          exists_fatGetNextMcbEntry (by omega)
        rw [hmin, hget, Option.getD_some]
        dsimp only
        rw [ulong_of_lt (n := c.startingVbo + c.nextByteCount) (by omega),
          ulong_of_lt (n := c.bufferOffset + c.nextByteCount) (by omega),
          ulongSub_of_le hcount (by omega), List.flatMap_cons, hnext]
        have hstart : 0 < runStart g cs (c.currentIndex + 1) := by omega
        have hbyte : g.sectorSize ∣ runStart g cs (c.currentIndex + 1) := Dvd.intro_left _ rfl
        obtain ⟨-, hinRun, hleft⟩ := run_of_lookup hle hlookup
        have hleft := hleft hbyte
        have hbound := runStart_le hle (c.currentIndex + 1 + 1)
        have hfew : runStart g cs (c.currentIndex + 1 + 1) - runStart g cs (c.currentIndex + 1) ≤
            0xffffffff := by omega
        rw [min_eq_left hfew] at hleft
        have hrest := ih (c := ⟨c.currentIndex + 1, runStart g cs (c.currentIndex + 1),
            c.bufferOffset + c.nextByteCount, c.byteCount - c.nextByteCount, lbo, byteCount⟩)
          (by dsimp only; omega) hlt' hbyte hlookup (by dsimp only; omega)
          (by dsimp only; omega) (by dsimp only; omega) (by dsimp only; omega)
          (by dsimp only; omega)
        rw [hrest, IoRun.bytes_eq hbytes]
        have hsplit : c.byteCount = c.nextByteCount + (c.byteCount - c.nextByteCount) := by omega
        conv_rhs => rw [hsplit, fileBytes_add, hnext]

/-- A run of the map that ends inside the file ends where the clusters do not go on. -/
theorem fileLbo_runStart_ne {lbo byteCount i : ℕ} (hvbo : vbo < cs.length * g.clusterSize)
    (h : fatLookupMcbEntry g (mcbOf g cs) vbo = some (lbo, byteCount, i))
    (hin : runStart g cs (i + 1) < cs.length * g.clusterSize) :
    fileLbo g cs (runStart g cs (i + 1)) ≠ lbo + (runStart g cs (i + 1) - vbo) := by
  have hs := g.sectorSize_pos
  obtain ⟨hlbo, -, -, -⟩ := lbo_of_lookup hg hcs hle hvbo h
  obtain ⟨⟨base, left, index⟩, hlookup, hmap⟩ := Option.map_eq_some_iff.mp h
  simp only [Prod.mk.injEq] at hmap
  obtain ⟨-, -, rfl⟩ := hmap
  obtain ⟨r, hr, hstart, hend, hpos, -⟩ := Runs.exists_run_of_lookup hlookup
  rw [← Runs.startOf_succ hr] at hend
  have harea : g.fileAreaSector * g.sectorSize = g.fileAreaLbo := Nat.div_mul_cancel hg.aligned
  have hsectors : ∀ p, p * g.sectorSize < cs.length * g.clusterSize →
      p < cs.length * g.clusterSectors := by
    intro p hp
    rw [mul_clusterSize] at hp
    exact Nat.lt_of_mul_lt_mul_right hp
  have hdiv := Nat.div_add_mod' vbo g.sectorSize
  have hmod := Nat.mod_lt vbo hs
  -- the sector behind the run, and the sector of the byte
  have hnext := getElem?_cells_mcbOf g (hsectors _ hin)
  have hfirst := getElem?_cells_mcbOf g (hsectors (vbo / g.sectorSize) (by omega))
  have hcell := Runs.getElem?_cells_of_lookup hlookup hpos
  rw [Nat.add_zero, hfirst] at hcell
  cases base with
  | none => cases hcell
  | some l =>
      simp only [Option.map_some, Nat.add_zero, Option.some.injEq] at hcell
      have hmax := (normal_mcbOf g cs).lookup_maximal hlookup
      rw [hend, hnext, Option.map_some, Ne, Option.some.injEq, Option.some.injEq] at hmax
      intro heq
      apply hmax
      rw [hlbo, fileLbo_eq, fileLbo_eq, runStart, Nat.mul_div_cancel _ hs, Nat.mul_mod_left,
        ← harea] at heq
      have hmul := Nat.add_mul (vbo / g.sectorSize) left g.sectorSize
      have hone : g.sectorSize ≤ left * g.sectorSize := Nat.le_mul_of_pos_left _ hpos
      rw [hend] at hmul
      apply Nat.eq_of_mul_eq_mul_right hs
      rw [Nat.add_assoc, Nat.add_mul, Nat.add_mul l, ← hcell, Nat.add_assoc g.fileAreaSector,
        Nat.add_mul g.fileAreaSector]
      omega

omit hg hle in
/-- The bytes of consecutive clusters. -/
theorem fileLbo_add_of_oneRun (h : OneRun cs (vbo / g.clusterSize)) {j : ℕ}
    (hin : vbo + j < cs.length * g.clusterSize) :
    fileLbo g cs (vbo + j) = fileLbo g cs vbo + j := by
  have hS := g.clusterSize_pos
  have hquot : vbo / g.clusterSize ≤ (vbo + j) / g.clusterSize := Nat.div_le_div_right (by omega)
  have hlt : (vbo + j) / g.clusterSize < cs.length := Nat.div_lt_of_lt_mul (by rwa [Nat.mul_comm])
  have hcluster : ∀ b, vbo / g.clusterSize ≤ b → b < cs.length →
      cs.getD b 0 = cs.getD (vbo / g.clusterSize) 0 + (b - vbo / g.clusterSize) := by
    intro b hb
    induction b, hb using Nat.le_induction with
    | base => simp
    | succ b hb ih =>
        intro hblt
        rw [h b hb hblt, ih (by omega)]
        omega
  have hc : 2 ≤ cs.getD (vbo / g.clusterSize) 0 := by
    rw [List.getD_eq_getElem _ _ (hquot.trans_lt hlt)]
    exact (Geometry.mem_clusters.mp (hcs _ (List.getElem_mem _))).1
  have hsub := Nat.sub_mul ((vbo + j) / g.clusterSize) (vbo / g.clusterSize) g.clusterSize
  have hmul := Nat.mul_le_mul_right g.clusterSize hquot
  have hdiv := Nat.div_add_mod' vbo g.clusterSize
  have hdiv' := Nat.div_add_mod' (vbo + j) g.clusterSize
  rw [fileLbo, fileLbo, hcluster _ hquot hlt, fatGetLboFromIndex_add hc]
  omega

omit hg hle in
theorem oneRun_of_fileLbo
    (h : ∀ j, vbo + j + 1 < cs.length * g.clusterSize →
      fileLbo g cs (vbo + j) = fileLbo g cs vbo + j) : OneRun cs (vbo / g.clusterSize) := by
  have hS := g.clusterSize_pos
  intro j hj hjlt
  have hvbo : vbo < (j + 1) * g.clusterSize := by
    rw [← Nat.div_lt_iff_lt_mul hS]
    omega
  have htwo : 2 ≤ g.clusterSize := by
    have h1 := g.cluster_mem
    have h2 := g.sector_mem
    exact Nat.le_self_pow (by omega) 2
  have hin : (j + 1) * g.clusterSize + g.clusterSize ≤ cs.length * g.clusterSize := by
    have hmul := Nat.mul_le_mul_right g.clusterSize (show j + 1 + 1 ≤ cs.length from hjlt)
    rwa [Nat.add_mul (j + 1), Nat.one_mul] at hmul
  -- the last byte of the cluster and the first of the next one
  have hlast := h ((j + 1) * g.clusterSize - 1 - vbo) (by omega)
  have hfirst := h ((j + 1) * g.clusterSize - vbo) (by omega)
  rw [Nat.add_sub_cancel' (by omega)] at hlast hfirst
  have hbyte : (j + 1) * g.clusterSize - 1 = g.clusterSize - 1 + j * g.clusterSize := by
    rw [Nat.add_mul, Nat.one_mul]
    omega
  have hmem : ∀ i < cs.length, 2 ≤ cs.getD i 0 := by
    intro i hi
    rw [List.getD_eq_getElem _ _ hi]
    exact (Geometry.mem_clusters.mp (hcs _ (List.getElem_mem _))).1
  have hlbo : fileLbo g cs ((j + 1) * g.clusterSize - 1) =
      fatGetLboFromIndex g (cs.getD j 0) + (g.clusterSize - 1) := by
    rw [fileLbo, hbyte, Nat.add_mul_div_right _ _ hS, Nat.div_eq_of_lt (by omega), Nat.zero_add,
      Nat.add_mul_mod_self_right, Nat.mod_eq_of_lt (by omega)]
  have hlbo' : fileLbo g cs ((j + 1) * g.clusterSize) =
      fatGetLboFromIndex g (cs.getD (j + 1) 0) := by
    rw [fileLbo, Nat.mul_div_cancel _ hS, Nat.mul_mod_left, Nat.add_zero]
  have hsucc := fatGetLboFromIndex_add (g := g) (n := 1) (hmem j (by omega))
  have hc := hmem j (by omega)
  refine fatGetLboFromIndex_inj (g := g) (hmem _ hjlt) (by omega) ?_
  omega

end Runs

/-! ## The routine -/

/-- A file with a chain of which the first `k` clusters, whole runs, are in its map. -/
structure WholeMap (g : Geometry) (f : FcbOrDcb) (cs : List ℕ) (k : ℕ) : Prop where
  chain : f.HasChain g cs
  sized : f.Sized g cs
  le : k ≤ cs.length
  mcb : f.mcb = mcbOf g (cs.take k)
  whole : WholeRuns cs k

section File

variable {f t : FcbOrDcb} {n fuel : ℕ} {run : FileRun}

theorem WholeMap.withFault (h : WholeMap g f cs k) (io : Option ℕ) :
    WholeMap g (f.withFault io) cs k :=
  ⟨⟨h.chain.chain, h.chain.clusters, h.chain.le⟩, h.sized, h.le, h.mcb, h.whole⟩

/-- The file after a lookup. -/
theorem WholeMap.lookedUp (h : WholeMap g f cs k) (hl : LookedUp g cs k m vbo run t)
    (ht : f.Extended g cs m t) : WholeMap g t cs m := by
  rw [FcbOrDcb.Extended] at ht
  refine ⟨⟨?_, h.chain.clusters, h.chain.le⟩, ?_, hl.le_length, hl.mcb, hl.whole⟩
  · rw [ht]
    exact h.chain.chain
  · rw [ht]
    exact h.sized

/-- A lookup on such a file. -/
theorem WholeMap.sat_lookupAllocated (hg : g.Mappable) (h : WholeMap g f cs k)
    (hvbo : vbo < cs.length * g.clusterSize) (hcond : vbo < k * g.clusterSize ∨ vbo < 0xfffffffe)
    (hfuel : cs.length ≤ fuel) :
    Sat (lookupAllocated g vbo fuel) f
      (fun run t => ∃ m, LookedUp g cs k m vbo run t ∧ WholeMap g t cs m ∧
        (f.vcb.vol.io = none → t.vcb.vol.io = none))
      (fun s _ => s = .raised .deviceError ∧ f.vcb.vol.io ≠ none) := by
  refine (sat_lookedUp hg h.chain h.sized h.le h.mcb h.whole hvbo hcond hfuel).mono ?_
    fun _ _ => id
  rintro run t ⟨m, hl, ht, hio⟩
  exact ⟨m, hl, h.lookedUp hl ht, hio⟩

/-- What is found, in the map of the whole file. -/
theorem LookedUp.lookup (hcs : ∀ c ∈ cs, c ∈ g.clusters) (hl : LookedUp g cs k m vbo run t)
    {m' : ℕ} (hmm' : m ≤ m') (hm' : m' ≤ cs.length) :
    ∃ byteCount, fatLookupMcbEntry g (mcbOf g (cs.take m')) vbo = some (run.lbo, byteCount, run.index) ∧
      (run.byteCount = byteCount ∧ (run.endOnMax = true ↔ vbo + byteCount = 2 ^ 32) ∨
        run.endOnMax = true ∧ run.byteCount = 0xffffffff - vbo ∧
          ∀ j, vbo + j < 2 ^ 32 → fileLbo g cs (vbo + j) = run.lbo + j) := by
  rw [fatLookupMcbEntry_take hcs hl.whole hmm' hm' hl.lt]
  exact hl.entry

section Chain

variable (hg : g.Mappable) (hcs : ∀ c ∈ cs, c ∈ g.clusters)
  (hle : cs.length * g.clusterSize ≤ 2 ^ 32) (hl : LookedUp g cs k m vbo run t)
  (hin : vbo + n ≤ cs.length * g.clusterSize) (hn : n < 2 ^ 32)

include hg hcs hle hl

theorem LookedUp.lbo_eq : run.lbo = fileLbo g cs vbo := by
  obtain ⟨byteCount, hlookup, -⟩ := hl.lookup hcs hl.le_length le_rfl
  rw [List.take_length] at hlookup
  have hmul := Nat.mul_le_mul_right g.clusterSize hl.le_length
  exact (lbo_of_lookup hg hcs hle (hl.lt.trans_le hmul) hlookup).1

include hin hn

/-- The bytes that pass for a single run are consecutive. -/
theorem LookedUp.single (hone : ulongSub n (if run.endOnMax then 1 else 0) ≤ run.byteCount) :
    ∀ j < n, fileLbo g cs (vbo + j) = run.lbo + j := by
  intro j hj
  obtain ⟨byteCount, hlookup, hcount⟩ := hl.lookup hcs hl.le_length le_rfl
  rw [List.take_length] at hlookup
  have hmul := Nat.mul_le_mul_right g.clusterSize hl.le_length
  obtain ⟨-, -, hbound, hbytes⟩ := lbo_of_lookup hg hcs hle (hl.lt.trans_le hmul) hlookup
  rcases hcount with ⟨heq, hmax⟩ | ⟨-, -, hall⟩
  · apply hbytes
    cases he : run.endOnMax with
    | false =>
        rw [he, ulongSub] at hone
        simp only [Bool.false_eq_true, if_false] at hone
        omega
    | true =>
        have := hmax.mp he
        omega
  · exact hall j (by omega)

omit hg in
/-- When the bytes do not pass for a single run, the run that is found ends before them. -/
theorem LookedUp.many (hpos : 0 < n) (hal : g.sectorSize ∣ vbo)
    (hmany : ¬ ulongSub n (if run.endOnMax then 1 else 0) ≤ run.byteCount) {m' : ℕ} (hmm' : m ≤ m')
    (hm' : m' ≤ cs.length) :
    fatLookupMcbEntry g (mcbOf g (cs.take m')) vbo = some (run.lbo, run.byteCount, run.index) ∧
      run.byteCount < n ∧ vbo + run.byteCount = runStart g (cs.take m') (run.index + 1) := by
  obtain ⟨byteCount, hlookup, hcount⟩ := hl.lookup hcs hmm' hm'
  have hle' : (cs.take m').length * g.clusterSize ≤ 2 ^ 32 := by
    rw [List.length_take, min_eq_left hm']
    exact (Nat.mul_le_mul_right _ hm').trans hle
  obtain ⟨-, hlt, hleft⟩ := run_of_lookup hle' hlookup
  have hleft := hleft hal
  rcases hcount with ⟨heq, hmax⟩ | ⟨he, heq, -⟩
  · cases he : run.endOnMax with
    | false =>
        rw [he, ulongSub] at hmany
        simp only [Bool.false_eq_true, if_false] at hmany
        rw [heq]
        exact ⟨hlookup, by omega, by omega⟩
    | true =>
        have := hmax.mp he
        rw [he, ulongSub] at hmany
        simp only [if_true] at hmany
        omega
  · rw [he, ulongSub] at hmany
    simp only [if_true] at hmany
    omega

end Chain

/-- A run that ends before the bytes do is not followed by consecutive clusters. -/
theorem LookedUp.not_oneRun (hg : g.Mappable) (hcs : ∀ c ∈ cs, c ∈ g.clusters)
    (hle : cs.length * g.clusterSize ≤ 2 ^ 32) (hl : LookedUp g cs k m vbo run t)
    (hin : vbo + n ≤ cs.length * g.clusterSize)
    (hlookup : fatLookupMcbEntry g (mcbOf g cs) vbo = some (run.lbo, run.byteCount, run.index))
    (hlt : run.byteCount < n) (hend : vbo + run.byteCount = runStart g cs (run.index + 1)) :
    ¬ OneRun cs (vbo / g.clusterSize) := by
  intro hone
  refine fileLbo_runStart_ne hg hcs hle (by omega) hlookup (by omega) ?_
  rw [← hend, Nat.add_sub_cancel_left, hl.lbo_eq hg hcs hle]
  exact fileLbo_add_of_oneRun hcs hone (by omega)

/-- The last byte of 4 GB is not found when it is not in the map. -/
theorem WholeMap.sat_lookupMax (h : WholeMap g f cs m) (hmax : cs.length * g.clusterSize = 2 ^ 32)
    (hm : m < cs.length) {Q : FileRun → FcbOrDcb → Prop} :
    Sat (lookupAllocated g 0xffffffff fuel) f Q fun s _ => s = .raised .fileCorruptError := by
  have hmlt : m * g.clusterSize < cs.length * g.clusterSize :=
    (Nat.mul_lt_mul_right g.clusterSize_pos).mpr hm
  have hlow : f.allocationSize.lowPart ≤ 0xffffffff := by
    rcases h.sized with hs | hs <;> rw [hs]
    · dsimp only [chainBytes]
      omega
    · dsimp only [fcbLookupAllocationSizeHint]
      omega
  have hnone : fatLookupMcbEntry g f.mcb 0xffffffff = none := by
    rw [h.mcb]
    exact fatLookupMcbEntry_eq_none (by rw [List.length_take, min_eq_left h.le]; omega)
  rw [lookupAllocated, fatLookupFileAllocation, bind_assoc]
  apply Sat.get_bind
  rw [hnone]
  dsimp only
  rw [if_pos hlow]
  exact Sat.throw rfl

/-- Every byte goes to its place, unless the range ends with the last byte of 4 GB, takes in more
than one run, and not all of the file is in the map. -/
theorem WholeMap.sat_fatNonCachedIo (hg : g.Mappable) (h : WholeMap g f cs k)
    (hal : g.sectorSize ∣ vbo) (hal' : g.sectorSize ∣ n) (hpos : 0 < n) (hn : n < 2 ^ 32)
    (hin : vbo + n ≤ cs.length * g.clusterSize)
    (hcond : vbo + n = 2 ^ 32 → k = cs.length ∨ OneRun cs (vbo / g.clusterSize))
    (hfuel : cs.length ≤ fuel) :
    Sat (fatNonCachedIo g vbo n fuel) f
      (fun runs _ => runs.flatMap IoRun.bytes = fileBytes g cs vbo 0 n)
      (fun s _ => s = .raised .deviceError ∧ f.vcb.vol.io ≠ none) := by
  have hle := h.chain.le
  have hcs := h.chain.clusters
  have hsector : 2 ^ 7 ≤ g.sectorSize := Nat.pow_le_pow_right (by norm_num) g.sector_mem.1
  have hdvd : g.sectorSize ∣ 2 ^ 32 := g.sectorSize_dvd.trans g.clusterSize_dvd
  have hgap : ∀ v, g.sectorSize ∣ v → v < 2 ^ 32 → v + g.sectorSize ≤ 2 ^ 32 := by
    intro v hv hlt
    have := Nat.le_of_dvd (by omega) (Nat.dvd_sub hdvd hv)
    omega
  have hvbo := hgap vbo hal (by omega)
  rw [fatNonCachedIo]
  refine Sat.bind (h.sat_lookupAllocated hg (by omega) (Or.inr (by omega)) hfuel) ?_
  rintro first t ⟨m, hl, ht, hio⟩
  by_cases hsingle : ulongSub n (if first.endOnMax then 1 else 0) ≤ first.byteCount
  · rw [if_pos hsingle]
    refine Sat.pure ?_
    rw [List.flatMap_cons, List.flatMap_nil, List.append_nil]
    exact IoRun.bytes_eq (hl.single hg hcs hle hin hn hsingle)
  · rw [if_neg hsingle]
    have hend : ulongSub (ulong (vbo + n)) 1 = vbo + n - 1 := by
      rw [ulongSub, ulong]
      omega
    obtain ⟨hall, hshort, hallEnd⟩ := hl.many hcs hle hin hn hpos hal hsingle hl.le_length le_rfl
    rw [List.take_length] at hall hallEnd
    have hnot := hl.not_oneRun hg hcs hle hin hall hshort hallEnd
    have hlast : vbo + n - 1 < m * g.clusterSize ∨ vbo + n - 1 < 0xfffffffe := by
      by_cases hmax : vbo + n = 2 ^ 32
      · left
        have hk := (hcond hmax).resolve_right hnot
        have hm : m = cs.length := le_antisymm hl.le_length (hk ▸ hl.le)
        rw [hm]
        omega
      · right
        have := hgap (vbo + n) (Nat.dvd_add hal hal') (by omega)
        omega
    rw [hend]
    refine Sat.bind ((ht.sat_lookupAllocated hg (by omega) hlast hfuel).mono (fun _ _ => id) ?_) ?_
    · rintro s _ ⟨hs, hfault⟩
      exact ⟨hs, fun hnone => hfault (hio hnone)⟩
    rintro last u ⟨m', hl', hu, _⟩
    apply Sat.get_bind
    refine Sat.pure ?_
    -- both lookups, in the map as it is now
    have hm' := hl'.le_length
    have hlen' : (cs.take m').length = m' := by rw [List.length_take, min_eq_left hm']
    have hle' : (cs.take m').length * g.clusterSize ≤ 2 ^ 32 := by
      rw [hlen']
      exact (Nat.mul_le_mul_right _ hm').trans hle
    have hcs' : ∀ c ∈ cs.take m', c ∈ g.clusters := fun c hc => hcs c (List.mem_of_mem_take hc)
    obtain ⟨hfirst, -, hfirstEnd⟩ := hl.many hcs hle hin hn hpos hal hsingle hl'.le hm'
    obtain ⟨byteCount, hlastEntry, -⟩ := hl'.entry
    obtain ⟨hstart, -, -⟩ := run_of_lookup hle' hfirst
    obtain ⟨hlastStart, hlastEnd, -⟩ := run_of_lookup hle' hlastEntry
    have hindex : first.index ≤ last.index := by
      by_contra hgt
      have := runStart_mono g (cs.take m') (show last.index + 1 ≤ first.index by omega)
      omega
    have hexists : last.index < (mcbOf g (cs.take m')).length := by
      obtain ⟨x, hx, hxmap⟩ := Option.map_eq_some_iff.mp hlastEntry
      obtain ⟨r, hr, -⟩ := Runs.exists_run_of_lookup hx
      simp only [Prod.mk.injEq] at hxmap
      rw [← hxmap.2.2]
      exact (List.getElem?_eq_some_iff.mp hr).1
    have hbytes := bytes_ioRunsFrom hg hcs' hle'
      (c := ⟨first.index, vbo, 0, n, first.lbo, first.byteCount⟩) rfl hindex hexists hal hfirst
      hfirstEnd (by dsimp only; omega) (by dsimp only; omega) hn (by dsimp only; omega)
    rw [hu.mcb, hbytes]
    have hlt := hl'.lt
    apply List.map_congr_left
    intro j hj
    have hjn : j < n := List.mem_range.mp hj
    rw [fileLbo_take hm' (by dsimp only; omega)]

/-- Otherwise the file is taken to be corrupt. -/
theorem WholeMap.sat_fatNonCachedIo_max (hg : g.Mappable) (h : WholeMap g f cs k)
    (hal : g.sectorSize ∣ vbo) (hpos : 0 < n) (hn : n < 2 ^ 32)
    (hmax : vbo + n = 2 ^ 32) (hin : vbo + n ≤ cs.length * g.clusterSize) (hk : k < cs.length)
    (hone : ¬ OneRun cs (vbo / g.clusterSize)) (hfuel : cs.length ≤ fuel) :
    Sat (fatNonCachedIo g vbo n fuel) f (fun _ _ => False) (fun _ _ => True) := by
  have hle := h.chain.le
  have hcs := h.chain.clusters
  have hS := g.clusterSize_pos
  have hsector : 2 ^ 7 ≤ g.sectorSize := Nat.pow_le_pow_right (by norm_num) g.sector_mem.1
  have hdvd : g.sectorSize ∣ 2 ^ 32 := g.sectorSize_dvd.trans g.clusterSize_dvd
  have hgap : ∀ v, g.sectorSize ∣ v → v < 2 ^ 32 → v + g.sectorSize ≤ 2 ^ 32 := by
    intro v hv hlt
    have := Nat.le_of_dvd (by omega) (Nat.dvd_sub hdvd hv)
    omega
  have hvbo := hgap vbo hal (by omega)
  rw [fatNonCachedIo]
  refine Sat.bind ((h.sat_lookupAllocated hg (by omega) (Or.inr (by omega)) hfuel).mono
    (fun _ _ => id) fun _ _ _ => trivial) ?_
  rintro first t ⟨m, hl, ht, _⟩
  by_cases hsingle : ulongSub n (if first.endOnMax then 1 else 0) ≤ first.byteCount
  · refine absurd (oneRun_of_fileLbo hcs fun j hj => ?_) hone
    rw [← hl.lbo_eq hg hcs hle]
    exact hl.single hg hcs hle hin hn hsingle j (by omega)
  · rw [if_neg hsingle]
    obtain ⟨hall, hshort, hallEnd⟩ := hl.many hcs hle hin hn hpos hal hsingle hl.le_length le_rfl
    rw [List.take_length] at hallEnd
    have hrunEnd := hgap _ (show g.sectorSize ∣ vbo + first.byteCount by
      rw [hallEnd]
      exact Dvd.intro_left _ rfl) (by omega)
    have hm : m < cs.length := by
      rcases hl.grown with hm | hm
      · omega
      · exact Nat.lt_of_mul_lt_mul_right (a := g.clusterSize) (by omega)
    have hlast : ulongSub (ulong (vbo + n)) 1 = 0xffffffff := by
      rw [hmax]
      rfl
    rw [hlast]
    refine Sat.bind ((ht.sat_lookupMax (by omega) hm (Q := fun _ _ => False)).mono (fun _ _ => id)
      fun _ _ _ => trivial) fun _ _ h => h.elim

/-! ## Ranges that are not sectors -/

/-- The first byte of a sector at or behind a byte. -/
def sectorCeil (g : Geometry) (vbo : ℕ) : ℕ :=
  (vbo + (g.sectorSize - 1)) / g.sectorSize * g.sectorSize

/-- The bytes within a sector are consecutive. -/
theorem fileLbo_add_of_lt {j : ℕ} (hj : vbo % g.sectorSize + j < g.sectorSize) :
    fileLbo g cs (vbo + j) = fileLbo g cs vbo + j := by
  have hdiv := Nat.div_add_mod' vbo g.sectorSize
  have hfirst := fileLbo_sector_add g cs (vbo / g.sectorSize) (j := vbo % g.sectorSize) (by omega)
  have hnext := fileLbo_sector_add g cs (vbo / g.sectorSize) (j := vbo % g.sectorSize + j) hj
  rw [hdiv] at hfirst
  rw [← Nat.add_assoc, hdiv] at hnext
  omega

/-- A byte is at the same place in its sector in the file and on the disk. -/
theorem fileLbo_mod (hg : g.Mappable) (cs : List ℕ) (vbo : ℕ) :
    fileLbo g cs vbo % g.sectorSize = vbo % g.sectorSize := by
  obtain ⟨q, hq⟩ := hg.aligned
  rw [fileLbo_eq, hq, Nat.mul_comm g.sectorSize q, ← Nat.add_mul, Nat.mul_add_mod', Nat.mod_mod]

/-- Transfers into another place of the buffer. -/
theorem flatMap_bytes_shift (runs : List IoRun) (d : ℕ) :
    (runs.map fun r => { r with offset := r.offset + d }).flatMap IoRun.bytes =
      (runs.flatMap IoRun.bytes).map fun x => (x.1, x.2.1 + d, x.2.2) := by
  rw [List.flatMap_map, List.map_flatMap]
  apply List.flatMap_congr
  intro r _
  simp only [IoRun.bytes, List.map_map]
  apply List.map_congr_left
  intro j _
  simp only [Function.comp_apply, Nat.add_right_comm]

theorem map_fileBytes (g : Geometry) (cs : List ℕ) (vbo n d : ℕ) :
    ((fileBytes g cs vbo 0 n).map fun x => (x.1, x.2.1 + d, x.2.2)) = fileBytes g cs vbo d n := by
  rw [fileBytes, List.map_map]
  apply List.map_congr_left
  intro j _
  simp only [Function.comp_apply, Nat.zero_add, Nat.add_comm j d]

theorem WholeMap.sat_readMiddle (hg : g.Mappable) (h : WholeMap g f cs k) {o : ℕ}
    (hal : g.sectorSize ∣ vbo) (hal' : g.sectorSize ∣ n) (hpos : 0 < n) (hn : n < 2 ^ 32)
    (hin : vbo + n ≤ cs.length * g.clusterSize)
    (hcond : vbo + n = 2 ^ 32 → k = cs.length ∨ OneRun cs (vbo / g.clusterSize))
    (hfuel : cs.length ≤ fuel) (ho : o ≤ vbo) :
    Sat (readMiddle g o vbo n fuel) f
      (fun runs _ => runs.flatMap IoRun.bytes = fileBytes g cs vbo (vbo - o) n)
      (fun s _ => s = .raised .deviceError ∧ f.vcb.vol.io ≠ none) := by
  have hle := h.chain.le
  refine Sat.bind (h.sat_fatNonCachedIo hg hal hal' hpos hn hin hcond hfuel) ?_
  intro runs t hruns
  refine Sat.pure ?_
  rw [flatMap_bytes_shift, hruns, map_fileBytes, ulongSub_of_le (by omega) ho]

theorem WholeMap.sat_readBalance (hg : g.Mappable) (h : WholeMap g f cs k) {o : ℕ}
    (hal : g.sectorSize ∣ vbo) (hpos : 0 < n) (hn : n < 2 ^ 32)
    (hin : vbo + n ≤ cs.length * g.clusterSize)
    (hcond : vbo + n = 2 ^ 32 → k = cs.length ∨ OneRun cs (vbo / g.clusterSize))
    (hfuel : cs.length ≤ fuel) (ho : o ≤ vbo) :
    Sat (readBalance g o vbo n fuel) f
      (fun runs _ => (runs.flatMap IoRun.bytes).Perm (fileBytes g cs vbo (vbo - o) n))
      (fun s _ => s = .raised .deviceError ∧ f.vcb.vol.io ≠ none) := by
  have hs := g.sectorSize_pos
  have hle := h.chain.le
  have hdiv := Nat.div_add_mod' n g.sectorSize
  have hmod := Nat.mod_lt n hs
  rw [readBalance]
  by_cases htail : n % g.sectorSize = 0
  · rw [if_neg (not_not.mpr htail)]
    refine (h.sat_readMiddle hg hal (Nat.dvd_of_mod_eq_zero htail) hpos hn hin hcond hfuel ho).mono
      (fun runs _ hruns => ?_) fun _ _ => id
    rw [hruns]
  · rw [if_pos htail]
    have hsector : vbo + n / g.sectorSize * g.sectorSize < 2 ^ 32 := by omega
    have hals : g.sectorSize ∣ vbo + n / g.sectorSize * g.sectorSize :=
      Nat.dvd_add hal (Dvd.intro_left _ rfl)
    have hgap : vbo + n / g.sectorSize * g.sectorSize < 0xfffffffe := by
      have hdvd : g.sectorSize ∣ 2 ^ 32 := g.sectorSize_dvd.trans g.clusterSize_dvd
      have := Nat.le_of_dvd (by omega) (Nat.dvd_sub hdvd hals)
      have htwo : 2 ^ 7 ≤ g.sectorSize := Nat.pow_le_pow_right (by norm_num) g.sector_mem.1
      omega
    dsimp only
    rw [ulong_of_lt hsector, ulongSub_of_le hsector (by omega), ulongSub_of_le hn (by omega)]
    refine Sat.bind (h.sat_lookupAllocated hg (by omega) (Or.inr hgap) hfuel) ?_
    rintro last t ⟨m, hl, ht, hio⟩
    have hbytes : IoRun.bytes ⟨vbo + n / g.sectorSize * g.sectorSize, last.lbo,
        vbo + n / g.sectorSize * g.sectorSize - o, n % g.sectorSize⟩ =
        fileBytes g cs (vbo + n / g.sectorSize * g.sectorSize)
          (vbo + n / g.sectorSize * g.sectorSize - o) (n % g.sectorSize) := IoRun.bytes_eq (by
      intro j hj
      rw [hl.lbo_eq hg h.chain.clusters hle]
      apply fileLbo_add_of_lt
      rw [Nat.mod_eq_zero_of_dvd hals, Nat.zero_add]
      exact lt_trans hj hmod)
    -- the tail comes first
    have hperm : (fileBytes g cs (vbo + n / g.sectorSize * g.sectorSize)
          (vbo + n / g.sectorSize * g.sectorSize - o) (n % g.sectorSize) ++
        fileBytes g cs vbo (vbo - o) (n / g.sectorSize * g.sectorSize)).Perm
          (fileBytes g cs vbo (vbo - o) n) := by
      have hsplit := fileBytes_add g cs vbo (vbo - o) (n / g.sectorSize * g.sectorSize)
        (n % g.sectorSize)
      rw [hdiv, show vbo - o + n / g.sectorSize * g.sectorSize =
        vbo + n / g.sectorSize * g.sectorSize - o by omega] at hsplit
      rw [hsplit]
      exact List.perm_append_comm
    have hrest : n - n % g.sectorSize = n / g.sectorSize * g.sectorSize := by omega
    rw [hrest]
    split
    · next hzero =>
        refine Sat.pure ?_
        have hnil : fileBytes g cs vbo (vbo - o) (n / g.sectorSize * g.sectorSize) = [] := by
          rw [hzero]
          rfl
        rw [hnil, List.append_nil] at hperm
        rw [List.flatMap_cons, List.flatMap_nil, List.append_nil, hbytes]
        exact hperm
    · next hne =>
        refine Sat.bind ((ht.sat_readMiddle hg hal (Dvd.intro_left _ rfl) (by omega) (by omega)
          (by omega) (fun hmax => by omega) hfuel ho).mono (fun _ _ => id) ?_) ?_
        · rintro s _ ⟨hs, hfault⟩
          exact ⟨hs, fun hnone => hfault (hio hnone)⟩
        · intro middle u hmiddle
          refine Sat.pure ?_
          rw [List.flatMap_cons, hbytes, hmiddle]
          exact hperm

/-- When a byte is not at the beginning of a sector, the next sector is the rest of this one away. -/
theorem sectorCeil_eq (h : vbo % g.sectorSize ≠ 0) :
    sectorCeil g vbo = vbo + (g.sectorSize - vbo % g.sectorSize) := by
  have hs := g.sectorSize_pos
  have hdiv := Nat.div_add_mod' vbo g.sectorSize
  have hmod := Nat.mod_lt vbo hs
  have hquot : (vbo + (g.sectorSize - 1)) / g.sectorSize = vbo / g.sectorSize + 1 := by
    apply Nat.div_eq_of_lt_le
    · rw [Nat.add_mul]
      omega
    · rw [Nat.add_mul, Nat.add_mul]
      omega
  rw [sectorCeil, hquot, Nat.add_mul]
  omega

theorem sectorCeil_of_dvd (h : g.sectorSize ∣ vbo) : sectorCeil g vbo = vbo := by
  have hs := g.sectorSize_pos
  obtain ⟨q, rfl⟩ := h
  rw [sectorCeil, Nat.mul_add_div hs, Nat.div_eq_of_lt (by omega), Nat.add_zero, Nat.mul_comm]

theorem dvd_sectorCeil (g : Geometry) (vbo : ℕ) : g.sectorSize ∣ sectorCeil g vbo :=
  Dvd.intro_left _ rfl

/-- The bytes of a sector that are copied out of the buffer. -/
theorem LookedUp.bytes_head (hg : g.Mappable) (hcs : ∀ c ∈ cs, c ∈ g.clusters)
    (hle : cs.length * g.clusterSize ≤ 2 ^ 32) (hl : LookedUp g cs k m vbo run t) {count : ℕ}
    (hcount : vbo % g.sectorSize + count ≤ g.sectorSize) :
    IoRun.bytes ⟨vbo, run.lbo / g.sectorSize * g.sectorSize + vbo % g.sectorSize, 0, count⟩ =
      fileBytes g cs vbo 0 count := by
  have hlbo := hl.lbo_eq hg hcs hle
  have hplace : run.lbo / g.sectorSize * g.sectorSize + vbo % g.sectorSize = run.lbo := by
    rw [← fileLbo_mod hg cs vbo, hlbo, Nat.div_add_mod']
  rw [hplace]
  refine IoRun.bytes_eq fun j hj => ?_
  rw [hlbo]
  exact fileLbo_add_of_lt (by dsimp only at hj ⊢; omega)

theorem WholeMap.sat_fatNonCachedNonAlignedRead (hg : g.Mappable) (h : WholeMap g f cs k)
    (hpos : 0 < n) (hn : n < 2 ^ 32) (hin : vbo + n ≤ cs.length * g.clusterSize)
    (hfirst : vbo < k * g.clusterSize ∨ vbo < 0xfffffffe)
    (hcond : vbo + n = 2 ^ 32 → k = cs.length ∨ OneRun cs (sectorCeil g vbo / g.clusterSize))
    (hfuel : cs.length ≤ fuel) :
    Sat (fatNonCachedNonAlignedRead g vbo n fuel) f
      (fun runs _ => (runs.flatMap IoRun.bytes).Perm (fileBytes g cs vbo 0 n))
      (fun s _ => s = .raised .deviceError ∧ f.vcb.vol.io ≠ none) := by
  have hs := g.sectorSize_pos
  have hle := h.chain.le
  have hmod := Nat.mod_lt vbo hs
  rw [fatNonCachedNonAlignedRead]
  by_cases hhole : vbo % g.sectorSize = 0
  · rw [if_neg (not_not.mpr hhole)]
    have hal := Nat.dvd_of_mod_eq_zero hhole
    rw [sectorCeil_of_dvd hal] at hcond
    have hrest := h.sat_readBalance hg hal hpos hn hin hcond hfuel (le_refl vbo)
    rwa [Nat.sub_self] at hrest
  · rw [if_pos hhole]
    have hceil := sectorCeil_eq hhole
    refine Sat.bind (h.sat_lookupAllocated hg (by omega) hfirst hfuel) ?_
    rintro first t ⟨m, hl, ht, hio⟩
    dsimp only
    have hcopy : (if g.sectorSize - vbo % g.sectorSize ≤ n then g.sectorSize - vbo % g.sectorSize
        else n) = min (g.sectorSize - vbo % g.sectorSize) n := by
      split <;> omega
    rw [hcopy, ulongSub_of_le hn (min_le_right _ _)]
    generalize hcountEq : min (g.sectorSize - vbo % g.sectorSize) n = count
    have hbytes := hl.bytes_head hg h.chain.clusters hle
      (show vbo % g.sectorSize + count ≤ g.sectorSize by omega)
    split
    · next hzero =>
        refine Sat.pure ?_
        have hall : count = n := by omega
        rw [List.flatMap_cons, List.flatMap_nil, List.append_nil, hbytes, hall]
    · next hne =>
        have hnext : vbo + count = sectorCeil g vbo := by omega
        have hcond' : sectorCeil g vbo + (n - count) = 2 ^ 32 →
            m = cs.length ∨ OneRun cs (sectorCeil g vbo / g.clusterSize) := by
          intro hmax
          exact (hcond (by omega)).imp_left fun (hk : k = cs.length) =>
            le_antisymm hl.le_length (hk ▸ hl.le)
        rw [ulong_of_lt (by omega), hnext]
        refine Sat.bind ((ht.sat_readBalance hg (dvd_sectorCeil g vbo) (by omega) (by omega)
          (by omega) hcond' hfuel (by omega)).mono (fun _ _ => id) ?_) ?_
        · rintro s _ ⟨hs, hfault⟩
          exact ⟨hs, fun hnone => hfault (hio hnone)⟩
        · intro balance u hbalance
          refine Sat.pure ?_
          have hsplit := fileBytes_add g cs vbo 0 count (n - count)
          rw [Nat.add_sub_cancel' (by omega), Nat.zero_add, hnext] at hsplit
          rw [List.flatMap_cons, hbytes, hsplit]
          refine List.Perm.append_left _ ?_
          rwa [show sectorCeil g vbo - vbo = count by omega] at hbalance

/-- The bytes that are counted for a run are consecutive. -/
theorem LookedUp.bytes (hg : g.Mappable) (hcs : ∀ c ∈ cs, c ∈ g.clusters)
    (hle : cs.length * g.clusterSize ≤ 2 ^ 32) (hl : LookedUp g cs k m vbo run t) {j : ℕ}
    (hj : j < run.byteCount) : fileLbo g cs (vbo + j) = run.lbo + j := by
  obtain ⟨byteCount, hlookup, hcount⟩ := hl.lookup hcs hl.le_length le_rfl
  rw [List.take_length] at hlookup
  have hmul := Nat.mul_le_mul_right g.clusterSize hl.le_length
  obtain ⟨-, -, -, hbytes⟩ := lbo_of_lookup hg hcs hle (hl.lt.trans_le hmul) hlookup
  rcases hcount with ⟨heq, -⟩ | ⟨-, heq, hall⟩
  · exact hbytes j (heq ▸ hj)
  · exact hall j (by omega)

/-- The lookup of `MAXULONG - 1` gives the size and not the byte. -/
theorem WholeMap.sat_lookupSize (hg : g.Mappable) (h : WholeMap g f cs k)
    (hmax : cs.length * g.clusterSize = 2 ^ 32) (hk : k * g.clusterSize ≤ 0xfffffffe)
    {Q : FileRun → FcbOrDcb → Prop} :
    Sat (lookupAllocated g 0xfffffffe fuel) f Q fun _ _ => True := by
  have hne : cs ≠ [] := by
    rintro rfl
    simp at hmax
  have hlow : f.allocationSize.lowPart = 0xffffffff := by
    rcases h.sized with hs | hs <;> rw [hs]
    · dsimp only [chainBytes]
      omega
    · rfl
  obtain ⟨reads, -, hsat⟩ := Fat.sat_lookupMax hg h.chain hne hlow h.le h.mcb h.whole hk
  rw [lookupAllocated]
  refine Sat.bind ((hsat f.vcb.vol.io fuel).mono (fun _ _ => id) fun _ _ _ => trivial) ?_
  rintro r t ⟨hr, _⟩
  rw [hr]
  exact Sat.throw trivial

theorem WholeMap.sat_fatNonCachedNonAlignedRead_head (hg : g.Mappable) (h : WholeMap g f cs k)
    (hpos : 0 < n) (hin : vbo + n ≤ cs.length * g.clusterSize)
    (hout : k * g.clusterSize ≤ vbo) (hmax : 0xfffffffe ≤ vbo) :
    Sat (fatNonCachedNonAlignedRead g vbo n fuel) f (fun _ _ => False) (fun _ _ => True) := by
  have hle := h.chain.le
  have hdvd : g.sectorSize ∣ 2 ^ 32 := g.sectorSize_dvd.trans g.clusterSize_dvd
  have hsector : 2 ^ 7 ≤ g.sectorSize := Nat.pow_le_pow_right (by norm_num) g.sector_mem.1
  have hhole : ¬ vbo % g.sectorSize = 0 := by
    intro hzero
    have := Nat.le_of_dvd (by omega) (Nat.dvd_sub hdvd (Nat.dvd_of_mod_eq_zero hzero))
    omega
  have hlen : cs.length * g.clusterSize = 2 ^ 32 := by
    obtain ⟨q, hq⟩ := g.clusterSize_dvd
    have htwo : g.sectorSize ≤ g.clusterSize := Nat.le_of_dvd g.clusterSize_pos g.sectorSize_dvd
    rw [Nat.mul_comm] at hq
    have hqle : q ≤ cs.length := by
      by_contra hlt
      have := Nat.mul_le_mul_right g.clusterSize (show cs.length + 1 ≤ q by omega)
      rw [Nat.add_mul] at this
      omega
    have := Nat.mul_le_mul_right g.clusterSize hqle
    omega
  have hk : k < cs.length := Nat.lt_of_mul_lt_mul_right (a := g.clusterSize) (by omega)
  have hnone : Sat (lookupAllocated g vbo fuel) f (fun _ _ => False) (fun _ _ => True) := by
    rcases Nat.eq_or_lt_of_le hmax with rfl | hlt
    · exact h.sat_lookupSize hg hlen hout
    · obtain rfl : vbo = 0xffffffff := by omega
      exact (h.sat_lookupMax hlen hk).mono (fun _ _ => id) fun _ _ _ => trivial
  rw [fatNonCachedNonAlignedRead, if_pos hhole]
  exact Sat.bind hnone fun _ _ h => h.elim

theorem WholeMap.sat_fatNonCachedNonAlignedRead_max (hg : g.Mappable) (h : WholeMap g f cs k)
    (hn : n < 2 ^ 32) (hmax : vbo + n = 2 ^ 32) (hin : vbo + n ≤ cs.length * g.clusterSize)
    (hk : k < cs.length) (hone : ¬ OneRun cs (sectorCeil g vbo / g.clusterSize)) (hfuel : cs.length ≤ fuel) :
    Sat (fatNonCachedNonAlignedRead g vbo n fuel) f (fun _ _ => False) (fun _ _ => True) := by
  have hs := g.sectorSize_pos
  have hle := h.chain.le
  have hlen : cs.length * g.clusterSize = 2 ^ 32 := by omega
  have hdvd : g.sectorSize ∣ 2 ^ 32 := g.sectorSize_dvd.trans g.clusterSize_dvd
  have hmod := Nat.mod_lt vbo hs
  -- the range goes on behind the first sector
  have hceil : sectorCeil g vbo < 2 ^ 32 := by
    by_contra hge
    apply hone
    intro j hj hjlt
    have hend : cs.length ≤ sectorCeil g vbo / g.clusterSize := by
      rw [Nat.le_div_iff_mul_le g.clusterSize_pos]
      omega
    omega
  have hge : vbo ≤ sectorCeil g vbo := by
    by_cases hhole : vbo % g.sectorSize = 0
    · exact (sectorCeil_of_dvd (Nat.dvd_of_mod_eq_zero hhole)).ge
    · have := sectorCeil_eq hhole
      omega
  have hfirst : vbo < 0xfffffffe := by
    have hsector : 2 ^ 7 ≤ g.sectorSize := Nat.pow_le_pow_right (by norm_num) g.sector_mem.1
    have := Nat.le_of_dvd (by omega) (Nat.dvd_sub hdvd (dvd_sectorCeil g vbo))
    omega
  have hbalance : ∀ {t : FcbOrDcb} {m o : ℕ}, WholeMap g t cs m → m < cs.length →
      Sat (readBalance g o (sectorCeil g vbo) (2 ^ 32 - sectorCeil g vbo) fuel) t
        (fun _ _ => False) (fun _ _ => True) := by
    intro t m o ht hm
    have hal := Nat.dvd_sub hdvd (dvd_sectorCeil g vbo)
    rw [readBalance, if_neg (not_not.mpr (Nat.mod_eq_zero_of_dvd hal))]
    have hio := ht.sat_fatNonCachedIo_max hg (dvd_sectorCeil g vbo)
      (n := 2 ^ 32 - sectorCeil g vbo) (by omega) (by omega) (by omega) (by omega) hm hone hfuel
    exact Sat.bind hio fun _ _ h => h.elim
  rw [fatNonCachedNonAlignedRead]
  by_cases hhole : vbo % g.sectorSize = 0
  · rw [if_neg (not_not.mpr hhole)]
    have hceilEq := sectorCeil_of_dvd (Nat.dvd_of_mod_eq_zero hhole)
    have hrest := hbalance (o := vbo) h hk
    rwa [hceilEq, show 2 ^ 32 - vbo = n by omega] at hrest
  · rw [if_pos hhole]
    have hceilEq := sectorCeil_eq hhole
    refine Sat.bind ((h.sat_lookupAllocated hg (by omega) (Or.inr hfirst) hfuel).mono (fun _ _ => id)
      fun _ _ _ => trivial) ?_
    rintro first t ⟨m, hl, ht, _⟩
    have hm : m < cs.length := by
      refine lt_of_le_of_ne hl.le_length fun heq => hone ?_
      have hgrown := hl.grown
      rw [heq] at hgrown
      -- the run goes on to the end
      have hrun : OneRun cs (vbo / g.clusterSize) := by
        refine oneRun_of_fileLbo h.chain.clusters fun j hj => ?_
        rw [← hl.lbo_eq hg h.chain.clusters hle]
        exact hl.bytes hg h.chain.clusters hle (by omega)
      exact fun j hj => hrun j ((Nat.div_le_div_right hge).trans hj)
    dsimp only
    rw [if_pos (show g.sectorSize - vbo % g.sectorSize ≤ n by omega),
      ulongSub_of_le hn (by omega), if_neg (by omega), ulong_of_lt (by omega), ← hceilEq,
      show n - (g.sectorSize - vbo % g.sectorSize) = 2 ^ 32 - sectorCeil g vbo by omega]
    exact Sat.bind (hbalance ht hm) fun _ _ h => h.elim

end File

/-! ## When every byte goes to its place -/

/-- The transfers of a range of sectors are those of its bytes, in order, whatever access to the FAT
fails. -/
def TransfersRight (g : Geometry) (f : FcbOrDcb) (cs : List ℕ) (startingVbo byteCount : ℕ) : Prop :=
  ∀ io fuel, cs.length ≤ fuel →
    Sat (fatNonCachedIo g startingVbo byteCount fuel) (f.withFault io)
      (fun runs _ => runs.flatMap IoRun.bytes = fileBytes g cs startingVbo 0 byteCount)
      (fun s _ => s = .raised .deviceError ∧ io ≠ none)

/-- Every byte of a range is copied once, to its place in the user's buffer. -/
def ReadsRight (g : Geometry) (f : FcbOrDcb) (cs : List ℕ) (startingVbo byteCount : ℕ) : Prop :=
  ∀ io fuel, cs.length ≤ fuel →
    Sat (fatNonCachedNonAlignedRead g startingVbo byteCount fuel) (f.withFault io)
      (fun runs _ => (runs.flatMap IoRun.bytes).Perm (fileBytes g cs startingVbo 0 byteCount))
      (fun s _ => s = .raised .deviceError ∧ io ≠ none)

/-- A range that ends with 4 GB is in one run from `vbo` on, or all of the file is in the map. -/
def MaxMapped (g : Geometry) (cs : List ℕ) (k vbo last : ℕ) : Prop :=
  last = 2 ^ 32 → k = cs.length ∨ OneRun cs (vbo / g.clusterSize)

/-- A routine that does not return does not do what it should. -/
theorem not_sat_none {x : EStateM Stop FcbOrDcb (List IoRun)} {f : FcbOrDcb}
    (h : Sat x (f.withFault none) (fun _ _ => False) (fun _ _ => True))
    {Q : List IoRun → FcbOrDcb → Prop}
    (h' : Sat x (f.withFault none) Q (fun s _ => s = .raised .deviceError ∧ (none : Option ℕ) ≠ none)) :
    False := by
  obtain ⟨_, _, hrun, -⟩ := h'.exists_ok fun _ _ he => he.2 rfl
  exact h.ok hrun

/-- The two ways to fail, on a device that answers. -/
theorem WholeMap.not_transfersRight (hg : g.Mappable) (h : WholeMap g f cs k)
    (hal : g.sectorSize ∣ vbo) (hpos : 0 < n) (hn : n < 2 ^ 32) (hmax : vbo + n = 2 ^ 32)
    (hin : vbo + n ≤ cs.length * g.clusterSize) (hk : k < cs.length)
    (hone : ¬ OneRun cs (vbo / g.clusterSize)) : ¬ TransfersRight g f cs vbo n := by
  intro hright
  have hfails := (h.withFault none).sat_fatNonCachedIo_max hg hal hpos hn hmax hin hk hone le_rfl
  exact not_sat_none hfails (hright none _ le_rfl)

theorem WholeMap.not_readsRight (hg : g.Mappable) (h : WholeMap g f cs k) (hpos : 0 < n)
    (hin : vbo + n ≤ cs.length * g.clusterSize) (hout : k * g.clusterSize ≤ vbo)
    (hmax : 0xfffffffe ≤ vbo) : ¬ ReadsRight g f cs vbo n := by
  intro hright
  have hread := hright none _ le_rfl
  exact not_sat_none ((h.withFault none).sat_fatNonCachedNonAlignedRead_head hg hpos hin hout hmax)
    hread

/-- **Every byte goes to its place** exactly when the range does not end with 4 GB, or is in one
run, or all of the file is in the map; a read that does not begin with a sector has to begin in the
map or before the last two bytes of 4 GB. -/
theorem transfersRight_iff (hg : g.Mappable) {f : FcbOrDcb} (h : WholeMap g f cs k) :
    (∀ startingVbo byteCount, g.sectorSize ∣ startingVbo → g.sectorSize ∣ byteCount →
      0 < byteCount → byteCount < 2 ^ 32 → startingVbo + byteCount ≤ cs.length * g.clusterSize →
      (TransfersRight g f cs startingVbo byteCount ↔
        MaxMapped g cs k startingVbo (startingVbo + byteCount))) ∧
    ∀ startingVbo byteCount, 0 < byteCount → byteCount < 2 ^ 32 →
      startingVbo + byteCount ≤ cs.length * g.clusterSize →
      (ReadsRight g f cs startingVbo byteCount ↔
        (startingVbo < k * g.clusterSize ∨ startingVbo < 0xfffffffe) ∧
          MaxMapped g cs k (sectorCeil g startingVbo) (startingVbo + byteCount)) := by
  have hnone := h.withFault none
  have hk : k ≠ cs.length → k < cs.length := fun hne => lt_of_le_of_ne h.le hne
  constructor
  · intro vbo n hal hal' hpos hn hin
    constructor
    · intro hright hmax
      by_contra hnot
      rw [not_or] at hnot
      exact h.not_transfersRight hg hal hpos hn hmax hin (hk hnot.1) hnot.2 hright
    · exact fun hcond io fuel hfuel =>
        (h.withFault io).sat_fatNonCachedIo hg hal hal' hpos hn hin hcond hfuel
  · intro vbo n hpos hn hin
    constructor
    · intro hright
      have hread := hright none _ le_rfl
      have hfirst : vbo < k * g.clusterSize ∨ vbo < 0xfffffffe := by
        by_contra hnot
        rw [not_or, not_lt, not_lt] at hnot
        exact h.not_readsRight hg hpos hin hnot.1 hnot.2 hright
      refine ⟨hfirst, fun hmax => ?_⟩
      by_contra hnot
      rw [not_or] at hnot
      exact not_sat_none (hnone.sat_fatNonCachedNonAlignedRead_max hg hn hmax hin (hk hnot.1)
        hnot.2 le_rfl) hread
    · exact fun hcond io fuel hfuel =>
        (h.withFault io).sat_fatNonCachedNonAlignedRead hg hpos hn hin hcond.1 hcond.2 hfuel

/-- The map of a file that was just opened. -/
theorem wholeMap_linkedFile : WholeMap floppy (linkedFile []) [2, 3] 0 where
  chain := hasChain_linkedFile floppy_width (by rw [floppy_numberOfClusters]; norm_num) []
  sized := Or.inl (by decide)
  le := Nat.zero_le _
  mcb := rfl
  whole := wholeRuns_zero _

/-- Two clusters, and the bytes of them that are not in the first or the last sector. -/
theorem transfersRight_floppy :
    TransfersRight floppy (linkedFile []) [2, 3] 0 1024 ∧
      ReadsRight floppy (linkedFile []) [2, 3] 100 900 := by
  obtain ⟨hsectors, hbytes⟩ := transfersRight_iff floppy_mappable wholeMap_linkedFile
  exact ⟨(hsectors 0 1024 (by decide) (by decide) (by norm_num) (by norm_num) (by decide)).mpr
      fun hmax => by norm_num at hmax,
    (hbytes 100 900 (by norm_num) (by norm_num) (by decide)).mpr
      ⟨Or.inr (by norm_num), fun hmax => by norm_num at hmax⟩⟩

/-- A 16-bit FAT in which `n` clusters from the third on, and then the second, are a chain. -/
def brokenFat (n : ℕ) : Bytes :=
  storeEntry .fat16
    (storeEntry .fat16
      (storeEntry .fat16 (storeLinks .fat16 (fun _ => 0) 3 n true) (3 + n - 1) 0xffff) (3 + n - 1) 2)
    2 0xffff

theorem leads_brokenFat {n : ℕ} (hpos : 0 < n) (hle : 3 + n ≤ FatWidth.fat16.reservedMark) :
    Leads (fatLink .fat16 (brokenFat n)) (List.range' 3 n ++ [2]) .last := by
  have hne : List.range' 3 n ≠ [] := by
    rw [Ne, List.range'_eq_nil_iff]
    omega
  have hlast : (List.range' 3 n).getLast hne = 3 + n - 1 := by
    rw [List.getLast_range']
  have hmark : FatWidth.fat16.reservedMark ≤ 2 ^ 16 := by decide
  have hrun := leads_storeRun (w := .fat16) (fun _ => 0) (v := 0xffff) (by simp) (by norm_num) hpos
    hle (by decide)
  have hlink : ∀ c, lookupEntry .fat16 (brokenFat n) c =
      if c = 2 then 0xffff else if c = 3 + n - 1 then 2
        else lookupEntry .fat16 (storeEntry .fat16 (storeLinks .fat16 (fun _ => 0) 3 n true)
          (3 + n - 1) 0xffff) c := by
    intro c
    rw [brokenFat, lookupEntry_storeEntry _ _ (by simp), lookupEntry_storeEntry _ _ (by simp)]
    rfl
  rw [Leads.append_iff hne]
  constructor
  · refine hrun.retarget hne List.nodup_range' (fun c hc hclast => ?_) ?_
    · rw [List.mem_range'_1] at hc
      rw [hlast] at hclast
      rw [fatLink, hlink, if_neg (by omega), if_neg hclast, fatLink]
    · rw [hlast, fatLink, hlink, if_neg (by omega), if_pos rfl]
      rfl
  · change fatLink .fat16 (brokenFat n) 2 = .last
    rw [fatLink, hlink, if_pos rfl]
    rfl

/-- Their file, of 4 GB, which was just opened. -/
def brokenFile : FcbOrDcb :=
  ⟨unmounted ⟨brokenFat 8191, [], none⟩, fcbLookupAllocationSizeHint, 0xffffffff, 3, [], ⟨3, 0⟩⟩

theorem wholeMap_brokenFile : WholeMap bigFat16 brokenFile (List.range' 3 8191 ++ [2]) 0 where
  chain := by
    refine ⟨?_, fun c hc => ?_, ?_⟩
    · have hleads := leads_brokenFat (n := 8191) (by norm_num) (by decide)
      rw [List.range'_succ, List.cons_append] at hleads ⊢
      rw [ChainAt, bigFat16_width]
      exact ⟨rfl, hleads⟩
    · rw [List.mem_append, List.mem_range'_1, List.mem_singleton] at hc
      rw [Geometry.mem_clusters, bigFat16_numberOfClusters]
      omega
    · rw [List.length_append, List.length_range', bigFat16_clusterSize]
      norm_num
  sized := Or.inr rfl
  le := Nat.zero_le _
  mcb := rfl
  whole := wholeRuns_zero _

theorem sectorSize_bigFat16 : bigFat16.sectorSize = 4096 := by decide

/-- The last two clusters of the file, which is taken to be corrupt, and its last byte but one. -/
theorem not_transfersRight_brokenFile :
    ¬ TransfersRight bigFat16 brokenFile (List.range' 3 8191 ++ [2]) 0xfff00000 0x100000 ∧
      ¬ ReadsRight bigFat16 brokenFile (List.range' 3 8191 ++ [2]) 0xfffffffe 1 := by
  have hlen : (List.range' 3 8191 ++ [2]).length = 8192 := by
    rw [List.length_append, List.length_range', List.length_singleton]
  have hbytes : (List.range' 3 8191 ++ [2]).length * bigFat16.clusterSize = 2 ^ 32 := by
    rw [hlen, bigFat16_clusterSize]
    norm_num
  have hin : 0xfff00000 + 0x100000 ≤ (List.range' 3 8191 ++ [2]).length * bigFat16.clusterSize := by
    rw [hbytes]
    norm_num
  have hbyte : 0xfffffffe + 1 ≤ (List.range' 3 8191 ++ [2]).length * bigFat16.clusterSize := by
    rw [hbytes]
    norm_num
  have hone : ¬ OneRun (List.range' 3 8191 ++ [2]) (0xfff00000 / bigFat16.clusterSize) := by
    intro hone
    have hnext := hone 8190 (by rw [bigFat16_clusterSize]; norm_num) (by rw [hlen]; norm_num)
    rw [List.getD_append_right _ _ _ (8190 + 1) (by simp),
      List.getD_append _ _ _ 8190 (by simp)] at hnext
    simp at hnext
  exact ⟨wholeMap_brokenFile.not_transfersRight bigFat16_mappable
      (by rw [sectorSize_bigFat16]; norm_num) (by norm_num) (by norm_num) (by norm_num) hin
      (by rw [hlen]; norm_num) hone,
    wholeMap_brokenFile.not_readsRight bigFat16_mappable (by norm_num) hbyte (by norm_num) le_rfl⟩

end KernelDrivers.Fat
