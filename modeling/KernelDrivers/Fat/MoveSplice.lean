import KernelDrivers.Fat.Move
import KernelDrivers.Fat.NonCachedRun

/-!
# The splices of a move

`FatComputeMoveFileSplicePoints` walks along the runs of the map of the file.  It comes in at the
last byte in front of the range, so that it finds the cluster in front and the first run at once,
puts the runs of the range in the map of the source, the last one cut, and ends at the cluster
behind, which is in the same run or at the beginning of the next.

With the entries that the two splices write, the chain of the file is the old one with the range
replaced by the target, whatever is in front of the range and behind it.

## Main definitions

* `InRun` — a byte of the file in its run.
* `replaced` — a chain with a range replaced.
* `Spliceable` — a range and its target.
* `SplicesRight` — the splices that are computed do what they should.

## Main results

* `fatComputeMoveFileSplicePoints_eq` — the splice points of a range.
* `Spliceable.leads_splicedEntry` — the chain after the splices.
* `exists_splicesRight` — splices are right.
-/

namespace KernelDrivers.Fat.Move

variable {g : Geometry} {cs : List ℕ} {i n m : ℕ}

/-! ## The runs that are replaced -/

/-- Runs of the map begin with clusters. -/
theorem dvd_runStart (g : Geometry) (cs : List ℕ) (j : ℕ) : g.clusterSize ∣ runStart g cs j := by
  refine ⟨Runs.startOf (Runs.ofList (cs.map (· - 2))) j, ?_⟩
  rw [runStart, mcbOf, Runs.startOf, ← List.map_take, List.map_map, Runs.startOf,
    ← g.clusterSectors_mul]
  have hcount : (Run.count ∘ Runs.scaleRun g.fileAreaSector g.clusterSectors) =
      fun r => r.count * g.clusterSectors := rfl
  rw [hcount, List.sum_map_mul_right]
  ring

theorem runStart_length (g : Geometry) (cs : List ℕ) :
    runStart g cs (mcbOf g cs).length = cs.length * g.clusterSize := by
  rw [runStart, ← mcbSize, mcbSize_eq, length_cells_mcbOf, ← mul_clusterSize]

/-- A run that begins before the end of the file is one of the map. -/
theorem lt_length_of_runStart_lt {j : ℕ} (h : runStart g cs j < cs.length * g.clusterSize) :
    j < (mcbOf g cs).length := by
  by_contra hge
  have := runStart_mono g cs (not_lt.mp hge)
  rw [runStart_length] at this
  omega

/-- Byte `v` of the file is in run `index`, at `lbo`; of a run that ends with 4 GB the last byte
may be missing in `count`. -/
structure InRun (g : Geometry) (cs : List ℕ) (v lbo count index : ℕ) : Prop where
  lookup : ∃ byteCount, fatLookupMcbEntry g (mcbOf g cs) v = some (lbo, byteCount, index)
  count : v + count = runStart g cs (index + 1) ∨
    runStart g cs (index + 1) = 2 ^ 32 ∧ 2 ^ 32 ≤ v + count + 1

section Runs

variable (hg : g.Mappable) (hcs : ∀ c ∈ cs, c ∈ g.clusters)
  (hle : cs.length * g.clusterSize ≤ 2 ^ 32)

include hle

/-- The run of an aligned byte. -/
theorem inRun_of_lookup {v lbo count index : ℕ} (hal : g.sectorSize ∣ v)
    (h : fatLookupMcbEntry g (mcbOf g cs) v = some (lbo, count, index)) :
    InRun g cs v lbo count index := by
  refine ⟨⟨count, h⟩, ?_⟩
  obtain ⟨-, hlt, hcount⟩ := run_of_lookup hle h
  have hmax := runStart_le hle (index + 1)
  have hcount := hcount hal
  omega

/-- A byte is in one run only. -/
theorem index_unique {v lbo count index j : ℕ}
    (h : fatLookupMcbEntry g (mcbOf g cs) v = some (lbo, count, index))
    (hj : runStart g cs j ≤ v) (hj' : v < runStart g cs (j + 1)) : index = j := by
  obtain ⟨hle', hlt, -⟩ := run_of_lookup hle h
  rcases Nat.lt_trichotomy index j with hlt' | heq | hgt
  · have := runStart_mono g cs (show index + 1 ≤ j from hlt')
    omega
  · exact heq
  · have := runStart_mono g cs (show j + 1 ≤ index from hgt)
    omega

/-- The bytes left in the run of the last byte of a sector: one more than in that of the first
byte of the next. -/
theorem count_of_last {v lbo count index : ℕ} (hal : g.sectorSize ∣ v + 1)
    (hin : v + 1 < cs.length * g.clusterSize)
    (h : fatLookupMcbEntry g (mcbOf g cs) v = some (lbo, count, index)) :
    v + count = runStart g cs (index + 1) ∨
      runStart g cs (index + 1) = 2 ^ 32 ∧ 2 ^ 32 ≤ v + count + 1 ∧ 2 ≤ count := by
  have hs := g.sectorSize_pos
  obtain ⟨-, hlt, hcount⟩ := count_of_lookup hle h
  have hmax := runStart_le hle (index + 1)
  have hmod := Nat.mod_lt v hs
  have hdiv := Nat.div_add_mod' v g.sectorSize
  have hsector : g.sectorSize ≤ 2 ^ 12 := Nat.pow_le_pow_right (by norm_num) g.sector_mem.2
  have hlast : g.sectorSize ≤ v % g.sectorSize + 1 := by
    have hdvd : g.sectorSize ∣ v / g.sectorSize * g.sectorSize + (v % g.sectorSize + 1) := by
      rwa [← Nat.add_assoc, hdiv]
    exact Nat.le_of_dvd (by omega) ((Nat.dvd_add_right (Dvd.intro_left _ rfl)).mp hdvd)
  omega

include hg hcs

/-- Bytes of a run are consecutive. -/
theorem InRun.fileLbo_add {v lbo count index : ℕ} (hr : InRun g cs v lbo count index)
    (hv : v < cs.length * g.clusterSize) {j : ℕ} (hj : v + j < runStart g cs (index + 1))
    (hlt : v + j + 1 < 2 ^ 32) : fileLbo g cs (v + j) = lbo + j := by
  obtain ⟨byteCount, hlookup⟩ := hr.lookup
  obtain ⟨hlbo, -, -, hbytes⟩ := lbo_of_lookup hg hcs hle hv hlookup
  obtain ⟨-, -, hcount⟩ := count_of_lookup hle hlookup
  have hdiv := Nat.div_add_mod' v g.sectorSize
  apply hbytes
  omega

/-- The first run that is replaced, and the cluster in front of it. -/
theorem sourceStart_eq (hi : i < cs.length) :
    ∃ lbo count index, sourceStart g (mcbOf g cs) (i * g.clusterSize) =
        some (if i = 0 then 0 else cs.getD (i - 1) 0, ⟨index, lbo, count⟩) ∧
      InRun g cs (i * g.clusterSize) lbo count index := by
  have hS := g.clusterSize_pos
  have hS2 : 2 ^ 7 ≤ g.clusterSize := Nat.pow_le_pow_right (by norm_num)
    (g.sector_mem.1.trans g.cluster_mem.1)
  have hlt : i * g.clusterSize < cs.length * g.clusterSize := (Nat.mul_lt_mul_right hS).mpr hi
  rw [sourceStart]
  by_cases hzero : i = 0
  · have hne : 0 < (mcbOf g cs).length :=
      List.length_pos_of_ne_nil (mcbOf_ne_nil (List.ne_nil_of_length_pos (by omega)))
    obtain ⟨v, lbo, count, hnext, hlookup⟩ := exists_fatGetNextMcbEntry (i := 0) hne
    have hstart : runStart g cs 0 = 0 := by simp [runStart, Runs.startOf]
    rw [hstart] at hlookup
    rw [if_pos (by rw [hzero, Nat.zero_mul]), hnext, if_pos hzero, hzero, Nat.zero_mul]
    exact ⟨lbo, count, 0, rfl, inRun_of_lookup hle (dvd_zero _) hlookup⟩
  have hmul : g.clusterSize ≤ i * g.clusterSize := Nat.le_mul_of_pos_left _ (by omega)
  obtain ⟨count, index, hlookup, -⟩ := exists_fatLookupMcbEntry hg.aligned hg.area_pos
    (plain_mcbOf hg.sectors hcs) hle (show i * g.clusterSize - 1 < cs.length * g.clusterSize by omega)
  have hal : g.sectorSize ∣ i * g.clusterSize - 1 + 1 := by
    rw [Nat.sub_add_cancel (by omega)]
    exact g.sectorSize_dvd.mul_left i
  have hcount := count_of_last hle hal (by omega) hlookup
  obtain ⟨hstart, hend, -⟩ := run_of_lookup hle hlookup
  obtain ⟨hlbo, hpos, -, hbytes⟩ := lbo_of_lookup hg hcs hle (by omega) hlookup
  -- the last byte of the cluster in front
  have hfront : fatGetIndexFromLbo g (fileLbo g cs (i * g.clusterSize - 1)) = cs.getD (i - 1) 0 := by
    have hsplit : i * g.clusterSize - 1 = g.clusterSize - 1 + (i - 1) * g.clusterSize := by
      rw [Nat.sub_mul, Nat.one_mul]
      omega
    have hmem : cs.getD (i - 1) 0 ∈ g.clusters := by
      rw [List.getD_eq_getElem _ _ (by omega)]
      exact hcs _ (List.getElem_mem _)
    rw [fileLbo, hsplit, Nat.add_mul_div_right _ _ hS, Nat.add_mul_mod_self_right,
      Nat.div_eq_of_lt (by omega), Nat.mod_eq_of_lt (by omega), Nat.zero_add]
    exact fatGetIndexFromLbo_lbo hmem (by omega)
  rw [if_neg (by omega), hlookup, if_neg hzero]
  dsimp only
  rw [hfront]
  by_cases hone : count = 1
  · have hrun : runStart g cs (index + 1) = i * g.clusterSize := by omega
    obtain ⟨v, lbo, count', hnext, hlookup'⟩ :=
      exists_fatGetNextMcbEntry (lt_length_of_runStart_lt (hrun ▸ hlt))
    rw [hrun] at hlookup'
    rw [if_pos hone, hnext]
    exact ⟨lbo, count', index + 1, rfl, inRun_of_lookup hle (g.sectorSize_dvd.mul_left i) hlookup'⟩
  · rw [if_neg hone]
    refine ⟨_, _, _, rfl, ?_, by omega⟩
    obtain ⟨count', index', hlookup', -⟩ := exists_fatLookupMcbEntry hg.aligned hg.area_pos
      (plain_mcbOf hg.sectors hcs) hle hlt
    have hindex : index' = index := index_unique hle hlookup' (by omega) (by omega)
    have hnext := hbytes 1 (by omega)
    rw [Nat.sub_add_cancel (by omega)] at hnext
    rw [hlookup', hindex, hnext]
    exact ⟨count', rfl⟩

omit hg hle in
/-- As many consecutive bytes as some clusters have are consecutive clusters. -/
theorem take_drop_eq_range' (hin : i + n ≤ cs.length)
    (h : ∀ b < n, fileLbo g cs ((i + b) * g.clusterSize) =
      fileLbo g cs (i * g.clusterSize) + b * g.clusterSize) :
    (cs.drop i).take n = List.range' (cs.getD i 0) n := by
  have hS := g.clusterSize_pos
  apply List.ext_getElem
  · rw [List.length_take, List.length_drop, List.length_range', min_eq_left (by omega)]
  · intro b hb hb'
    rw [List.length_range'] at hb'
    have hbytes := h b hb'
    rw [fileLbo, fileLbo, Nat.mul_div_cancel _ hS, Nat.mul_mod_left, Nat.mul_div_cancel _ hS,
      Nat.mul_mod_left, List.getD_eq_getElem _ _ (by omega), List.getD_eq_getElem _ _ (by omega)]
      at hbytes
    have hb2 := Geometry.mem_clusters.mp (hcs _ (List.getElem_mem (show i + b < cs.length by omega)))
    have hi2 := Geometry.mem_clusters.mp (hcs _ (List.getElem_mem (show i < cs.length by omega)))
    rw [fatGetLboFromIndex, fatGetLboFromIndex] at hbytes
    have hquot : cs[i + b] - 2 = cs[i] - 2 + b := by
      apply Nat.eq_of_mul_eq_mul_right hS
      rw [Nat.add_mul]
      omega
    rw [List.getElem_take, List.getElem_drop, List.getElem_range', List.getD_eq_getElem _ _ (by omega)]
    omega

/-- Taking clusters of a run adds them to the map of what is replaced. -/
theorem InRun.add_mcb {lbo count index k : ℕ} (hr : InRun g cs ((i + m) * g.clusterSize) lbo count index)
    (hpos : 0 < k) (hin : i + (m + k) ≤ cs.length) (hend : (i + (m + k)) * g.clusterSize < 2 ^ 32)
    (hrun : (i + (m + k)) * g.clusterSize ≤ runStart g cs (index + 1)) :
    fatAddMcbEntry g (mcbOf g ((cs.drop i).take m)) (m * g.clusterSize) lbo (k * g.clusterSize) =
      mcbOf g ((cs.drop i).take (m + k)) := by
  have hS := g.clusterSize_pos
  have hlt : (i + m) * g.clusterSize < cs.length * g.clusterSize :=
    (Nat.mul_lt_mul_right hS).mpr (by omega)
  have hlen : ((cs.drop i).take m).length = m := by
    rw [List.length_take, List.length_drop]
    omega
  have hmem : cs.getD (i + m) 0 ∈ g.clusters := by
    rw [List.getD_eq_getElem _ _ (by omega)]
    exact hcs _ (List.getElem_mem _)
  have hbytes : ∀ b < k, fileLbo g cs ((i + m + b) * g.clusterSize) = lbo + b * g.clusterSize := by
    intro b hb
    have hb' : (i + m + b + 1) * g.clusterSize ≤ (i + (m + k)) * g.clusterSize :=
      Nat.mul_le_mul_right _ (by omega)
    rw [Nat.add_mul _ 1, Nat.one_mul] at hb'
    have hsplit : (i + m + b) * g.clusterSize = (i + m) * g.clusterSize + b * g.clusterSize :=
      Nat.add_mul _ _ _
    rw [hsplit] at hb' ⊢
    exact hr.fileLbo_add hg hcs hle hlt (by omega) (by omega)
  have hlbo := hbytes 0 hpos
  rw [Nat.add_zero, Nat.zero_mul, Nat.add_zero] at hlbo
  have hfirst : lbo = fatGetLboFromIndex g (cs.getD (i + m) 0) := by
    rw [← hlbo, fileLbo, Nat.mul_div_cancel _ hS, Nat.mul_mod_left, Nat.add_zero]
  have hrange : (cs.drop (i + m)).take k = List.range' (cs.getD (i + m) 0) k :=
    take_drop_eq_range' hcs (by omega) fun b hb => by rw [hbytes b hb, hlbo]
  have hadd := fatAddMcbEntry_mcbOf g ((cs.drop i).take m) (Geometry.mem_clusters.mp hmem).1
    (mcbSectors_mul_clusterSize g k)
  rw [hlen] at hadd
  rw [hfirst, hadd, List.take_add, List.drop_drop, hrange]

/-- What follows a run that ends with a cluster. -/
theorem index_of_runStart {j : ℕ} (hin : i ≤ cs.length) (hrun : runStart g cs j = i * g.clusterSize) :
    (match fatGetNextMcbEntry g (mcbOf g cs) j with
      | none => fatClusterLast
      | some (_, lbo, _) => fatGetIndexFromLbo g lbo) =
      if i < cs.length then cs.getD i 0 else fatClusterLast := by
  have hS := g.clusterSize_pos
  by_cases hlt : i < cs.length
  · have hlt' : i * g.clusterSize < cs.length * g.clusterSize := (Nat.mul_lt_mul_right hS).mpr hlt
    obtain ⟨v, lbo, count, hnext, hlookup⟩ :=
      exists_fatGetNextMcbEntry (lt_length_of_runStart_lt (hrun ▸ hlt'))
    rw [hrun] at hlookup
    have hlbo := (lbo_of_lookup hg hcs hle hlt' hlookup).1
    have hmem : cs.getD i 0 ∈ g.clusters := by
      rw [List.getD_eq_getElem _ _ hlt]
      exact hcs _ (List.getElem_mem _)
    rw [hnext, if_pos hlt]
    dsimp only
    rw [hlbo, fileLbo, Nat.mul_div_cancel _ hS, Nat.mul_mod_left]
    exact fatGetIndexFromLbo_lbo hmem hS
  · have hge : ¬ j < (mcbOf g cs).length := by
      intro hj
      obtain ⟨v, lbo, count, -, hlookup⟩ := exists_fatGetNextMcbEntry hj
      have hnext := (run_of_lookup hle hlookup).2.1
      have hlast := runStart_mono g cs (show j + 1 ≤ (mcbOf g cs).length from hj)
      rw [runStart_length, show cs.length = i by omega] at hlast
      omega
    rw [fatGetNextMcbEntry, List.getElem?_eq_none (not_lt.mp hge), if_neg hlt]
    rfl

omit hg hcs hle in
theorem SourceScan.enter_frame (g : Geometry) (mcb : Mcb) (s : SourceScan) :
    (s.enter g mcb).sourceIndex = s.sourceIndex ∧
      (s.enter g mcb).sourceBytesRemaining = s.sourceBytesRemaining ∧
      (s.enter g mcb).sourceMcbVbo = s.sourceMcbVbo ∧ (s.enter g mcb).sourceMcb = s.sourceMcb := by
  rw [SourceScan.enter]
  split
  · split <;> exact ⟨rfl, rfl, rfl, rfl⟩
  · exact ⟨rfl, rfl, rfl, rfl⟩

omit hg hcs in
/-- The run that is entered behind the end of another. -/
theorem SourceScan.inRun_enter {s : SourceScan} (hm : s.sourceMcbVbo ≠ 0)
    (hlt : i * g.clusterSize < cs.length * g.clusterSize)
    (hrun : runStart g cs s.sourceIndex = i * g.clusterSize) :
    InRun g cs (i * g.clusterSize) (s.enter g (mcbOf g cs)).sourceLbo
      (s.enter g (mcbOf g cs)).sourceBytesInRun s.sourceIndex := by
  obtain ⟨v, lbo, count, hnext, hlookup⟩ :=
    exists_fatGetNextMcbEntry (lt_length_of_runStart_lt (hrun ▸ hlt))
  rw [hrun] at hlookup
  rw [SourceScan.enter, if_pos hm, hnext]
  exact inRun_of_lookup hle (g.sectorSize_dvd.mul_left i) hlookup

/-- The loop over the runs with `m` clusters taken and `r` to take. -/
structure SourceScan.At (g : Geometry) (cs : List ℕ) (i n m r : ℕ) (s : SourceScan) : Prop where
  sum : m + r = n
  remaining : s.sourceBytesRemaining = r * g.clusterSize
  vbo : s.sourceMcbVbo = m * g.clusterSize
  mcb : s.sourceMcb = mcbOf g ((cs.drop i).take m)
  run : 0 < r → InRun g cs ((i + m) * g.clusterSize) (s.enter g (mcbOf g cs)).sourceLbo
    (s.enter g (mcbOf g cs)).sourceBytesInRun s.sourceIndex
  behind : r = 0 → s.behind g (mcbOf g cs) =
    if i + n < cs.length then cs.getD (i + n) 0 else fatClusterLast

omit hg hcs hle in
/-- Clusters that end below 4 GB leave room for another. -/
theorem add_clusterSize_le {k : ℕ} (h : k * g.clusterSize < 2 ^ 32) :
    k * g.clusterSize + g.clusterSize ≤ 2 ^ 32 := by
  obtain ⟨q, hq⟩ := g.clusterSize_dvd
  rw [hq, Nat.mul_comm g.clusterSize q, Nat.mul_lt_mul_right g.clusterSize_pos] at h
  have := Nat.mul_le_mul_right g.clusterSize (show k + 1 ≤ q from h)
  rwa [Nat.add_mul, Nat.one_mul, Nat.mul_comm q, ← hq] at this

/-- A pass takes some clusters. -/
theorem SourceScan.At.next {s : SourceScan} {r : ℕ} (h : s.At g cs i n m r) (hr : 0 < r)
    (hin : i + n ≤ cs.length) (hend : (i + n) * g.clusterSize < 2 ^ 32) :
    ∃ k, 0 < k ∧ k ≤ r ∧ ((s.enter g (mcbOf g cs)).take g).At g cs i n (m + k) (r - k) := by
  have hS := g.clusterSize_pos
  have hS2 : 2 ^ 7 ≤ g.clusterSize := Nat.pow_le_pow_right (by norm_num)
    (g.sector_mem.1.trans g.cluster_mem.1)
  have hroom := add_clusterSize_le hend
  have hsum := h.sum
  obtain ⟨hindex, hremaining, hvbo, hmcb⟩ := SourceScan.enter_frame g (mcbOf g cs) s
  have hrun := h.run hr
  rw [h.remaining] at hremaining
  rw [h.vbo] at hvbo
  rw [h.mcb] at hmcb
  rw [← hindex] at hrun
  generalize s.enter g (mcbOf g cs) = t at *
  obtain ⟨hstart, hlt, -⟩ := run_of_lookup hle hrun.lookup.choose_spec
  have hcount := hrun.count
  have hmul : (i + n) * g.clusterSize = (i + m) * g.clusterSize + r * g.clusterSize := by
    rw [← Nat.add_mul, Nat.add_assoc, hsum]
  have hin' : (i + m) * g.clusterSize < cs.length * g.clusterSize :=
    (Nat.mul_lt_mul_right hS).mpr (by omega)
  by_cases hless : t.sourceBytesInRun < r * g.clusterSize
  · -- the whole run, which ends with a cluster
    have hexact : (i + m) * g.clusterSize + t.sourceBytesInRun = runStart g cs (t.sourceIndex + 1) := by
      omega
    obtain ⟨k, hk⟩ : g.clusterSize ∣ t.sourceBytesInRun := by
      have hdvd := dvd_runStart g cs (t.sourceIndex + 1)
      rw [← hexact] at hdvd
      exact (Nat.dvd_add_right (Dvd.intro_left _ rfl)).mp hdvd
    rw [Nat.mul_comm] at hk
    rw [hk] at hexact hless
    have hkr : k < r := (Nat.mul_lt_mul_right hS).mp hless
    have hkpos : 0 < k := by
      rcases Nat.eq_zero_or_pos k with h0 | hpos
      · rw [h0, Nat.zero_mul] at hexact
        omega
      · exact hpos
    have hnext : (i + (m + k)) * g.clusterSize = runStart g cs (t.sourceIndex + 1) := by
      rw [← hexact, ← Nat.add_assoc, Nat.add_mul]
    have hle' : (i + (m + k)) * g.clusterSize < (i + n) * g.clusterSize :=
      (Nat.mul_lt_mul_right hS).mpr (by omega)
    have hkS : 0 < k * g.clusterSize := Nat.mul_pos hkpos hS
    refine ⟨k, hkpos, hkr.le, ?_⟩
    rw [SourceScan.take, hremaining, hk, if_pos hless]
    refine ⟨by omega, ?_, ?_, ?_, fun _ => ?_, fun hzero => absurd hzero (by omega)⟩
    · dsimp only
      rw [Nat.sub_mul]
    · dsimp only
      rw [hvbo, Nat.add_mul]
    · dsimp only
      rw [hvbo, hmcb]
      exact hrun.add_mcb hg hcs hle hkpos (by omega) (by omega) hnext.le
    · refine SourceScan.inRun_enter hle ?_ ((Nat.mul_lt_mul_right hS).mpr (by omega)) hnext.symm
      dsimp only
      omega
  · -- what remains
    refine ⟨r, hr, le_rfl, ?_⟩
    rw [SourceScan.take, hremaining, if_neg hless]
    refine ⟨by omega, by dsimp only; rw [Nat.sub_self, Nat.sub_self, Nat.zero_mul], ?_, ?_,
      fun hpos => absurd hpos (by omega), fun _ => ?_⟩
    · dsimp only
      rw [hvbo, Nat.add_mul]
    · dsimp only
      rw [hvbo, hmcb]
      refine hrun.add_mcb hg hcs hle hr (by omega) (by rwa [hsum]) ?_
      rw [hsum]
      omega
    · rw [SourceScan.behind]
      dsimp only
      by_cases hmore : r * g.clusterSize < t.sourceBytesInRun
      · have hlast := runStart_mono g cs (show t.sourceIndex + 1 ≤ (mcbOf g cs).length from
          lt_length_of_runStart_lt (hstart.trans_lt hin'))
        rw [runStart_length] at hlast
        have hlt' : i + n < cs.length := by
          rw [← Nat.mul_lt_mul_right hS]
          omega
        have hmem : cs.getD (i + n) 0 ∈ g.clusters := by
          rw [List.getD_eq_getElem _ _ hlt']
          exact hcs _ (List.getElem_mem _)
        have hbyte := hrun.fileLbo_add hg hcs hle hin' (j := r * g.clusterSize) (by omega) (by omega)
        rw [if_pos hmore, if_pos hlt', ← hbyte, ← hmul, fileLbo, Nat.mul_div_cancel _ hS,
          Nat.mul_mod_left]
        exact fatGetIndexFromLbo_lbo hmem hS
      · rw [if_neg hmore]
        exact index_of_runStart hg hcs hle (by omega) (by omega)

/-- **The loop** takes all clusters of the range and stops at what is behind them. -/
theorem SourceScan.At.run_eq {passes : ℕ} {s : SourceScan} {r : ℕ} (h : s.At g cs i n m r)
    (hin : i + n ≤ cs.length) (hend : (i + n) * g.clusterSize < 2 ^ 32)
    (hpasses : r * g.clusterSize ≤ passes) :
    (SourceScan.run g (mcbOf g cs) passes s).sourceMcb = mcbOf g ((cs.drop i).take n) ∧
      (SourceScan.run g (mcbOf g cs) passes s).behind g (mcbOf g cs) =
        if i + n < cs.length then cs.getD (i + n) 0 else fatClusterLast := by
  have hS := g.clusterSize_pos
  have hdone : ∀ t : SourceScan, t.At g cs i n n 0 → t.sourceMcb = mcbOf g ((cs.drop i).take n) ∧
      t.behind g (mcbOf g cs) = if i + n < cs.length then cs.getD (i + n) 0 else fatClusterLast :=
    fun t ht => ⟨ht.mcb, ht.behind rfl⟩
  induction passes generalizing s m r with
  | zero =>
      have hr : r = 0 := by
        have := Nat.le_zero.mp hpasses
        exact (Nat.mul_eq_zero.mp this).resolve_right hS.ne'
      have hm : m = n := by have := h.sum; omega
      rw [hr, hm] at h
      exact hdone s h
  | succ passes ih =>
      rw [SourceScan.run]
      by_cases hr : r = 0
      · have hm : m = n := by have := h.sum; omega
        rw [h.remaining, hr, Nat.zero_mul, if_pos rfl]
        rw [hr, hm] at h
        exact hdone s h
      · have hpos : s.sourceBytesRemaining ≠ 0 := by
          rw [h.remaining]
          exact (Nat.mul_pos (Nat.pos_of_ne_zero hr) hS).ne'
        obtain ⟨k, hk, hkr, hnext⟩ := h.next hg hcs hle (Nat.pos_of_ne_zero hr) hin hend
        rw [if_neg hpos]
        refine ih hnext ?_
        have := Nat.mul_pos hk hS
        rw [Nat.sub_mul]
        omega

/-- **The splice points** of a range of the file. -/
theorem fatComputeMoveFileSplicePoints_eq (hn : 0 < n) (hin : i + n ≤ cs.length)
    (hend : (i + n) * g.clusterSize < 2 ^ 32) (t : ℕ) :
    fatComputeMoveFileSplicePoints g (mcbOf g cs) (i * g.clusterSize) t (n * g.clusterSize) [] =
      some ⟨if i = 0 then 0 else cs.getD (i - 1) 0, t, t + n - 1,
        if i + n < cs.length then cs.getD (i + n) 0 else fatClusterLast,
        mcbOf g ((cs.drop i).take n)⟩ := by
  obtain ⟨lbo, count, index, hstart, hrun⟩ := sourceStart_eq hg hcs hle (show i < cs.length by omega)
  have hat : SourceScan.At g cs i n 0 n ⟨index, lbo, count, n * g.clusterSize, 0, 0, []⟩ := by
    refine ⟨by omega, rfl, (Nat.zero_mul _).symm, rfl, fun _ => ?_, fun h => absurd h hn.ne'⟩
    rw [SourceScan.enter, if_neg (by simp)]
    exact hrun
  obtain ⟨hmcb, hbehind⟩ := hat.run_eq hg hcs hle hin hend le_rfl
  rw [fatComputeMoveFileSplicePoints, hstart, Option.map_some]
  dsimp only
  rw [hmcb, hbehind, Nat.mul_div_cancel _ g.clusterSize_pos]

end Runs

/-! ## The splices -/

/-- The clusters of a file after those from number `i` on were replaced by `n` from `t` on. -/
def replaced (cs : List ℕ) (i n t : ℕ) : List ℕ :=
  cs.take i ++ (List.range' t n ++ cs.drop (i + n))

/-- The clusters in front, the ones that are replaced and the rest. -/
theorem split_range (cs : List ℕ) (i n : ℕ) :
    cs.take i ++ ((cs.drop i).take n ++ cs.drop (i + n)) = cs := by
  rw [← List.drop_drop, List.take_append_drop, List.take_append_drop]

/-- The sectors of consecutive clusters. -/
theorem cells_mcbOf_range' {t : ℕ} (ht : 2 ≤ t) (n : ℕ) :
    Runs.cells (mcbOf g (List.range' t n)) =
      (Run.mk (some (g.fileAreaSector + (t - 2) * g.clusterSectors)) (n * g.clusterSectors)).cells := by
  rw [cells_mcbOf, flatMap_sectorsOf_range' g ht, cells_eq_map_range']

/-- Taking a range out of the map and adding the target in its place. -/
theorem fatAddMcbEntry_replaced {t : ℕ} (hn : 0 < n) (hin : i + n ≤ cs.length) (ht : 2 ≤ t) :
    fatAddMcbEntry g (fatRemoveMcbEntry g (mcbOf g cs) (i * g.clusterSize) (n * g.clusterSize))
      (i * g.clusterSize) (fatGetLboFromIndex g t) (n * g.clusterSize) = mcbOf g (replaced cs i n t) := by
  have hK := g.clusterSectors_pos
  have hnK : 0 < n * g.clusterSectors := Nat.mul_pos hn hK
  have hremove := fatRemoveMcbEntry_sectors (g := g) (mcbOf g cs) (i * g.clusterSectors)
    (n * g.clusterSectors)
  rw [← mul_clusterSize, ← mul_clusterSize] at hremove
  rw [hremove, fatAddMcbEntry, mcbSectors_mul_clusterSize, fatGetLboFromIndex_div, mul_clusterSize,
    Nat.mul_div_cancel _ g.sectorSize_pos]
  have hnormal := Runs.normal_remove (mcbOf g cs) (i * g.clusterSectors) (n * g.clusterSectors)
  refine Runs.Normal.ext_mapped (Runs.normal_add hnormal _ _ _) (normal_mcbOf g _) fun j a => ?_
  rw [Runs.getElem?_cells_add hnormal hnK, Runs.getElem?_cells_remove]
  · have hold : Runs.cells (mcbOf g cs) = Runs.cells (mcbOf g (cs.take i)) ++
        (Runs.cells (mcbOf g ((cs.drop i).take n)) ++ Runs.cells (mcbOf g (cs.drop (i + n)))) := by
      rw [← cells_mcbOf_append, ← cells_mcbOf_append, split_range]
    have hfront : (Runs.cells (mcbOf g (cs.take i))).length = i * g.clusterSectors := by
      rw [length_cells_mcbOf, List.length_take, min_eq_left (by omega)]
    have hsource : (Runs.cells (mcbOf g ((cs.drop i).take n))).length = n * g.clusterSectors := by
      rw [length_cells_mcbOf, List.length_take, List.length_drop, min_eq_left (by omega)]
    have htarget : (Run.mk (some (g.fileAreaSector + (t - 2) * g.clusterSectors))
        (n * g.clusterSectors)).cells.length = n * g.clusterSectors := Run.length_cells _
    rw [replaced, cells_mcbOf_append, cells_mcbOf_append, hold, cells_mcbOf_range' ht]
    by_cases hlt : j < i * g.clusterSectors
    · rw [if_neg (by omega), List.getElem?_append_left (hfront ▸ hlt),
        List.getElem?_append_left (hfront ▸ hlt)]
      exact ⟨And.right, fun h => ⟨by omega, h⟩⟩
    have hge := not_lt.mp (hfront ▸ hlt)
    rw [List.getElem?_append_right hge, List.getElem?_append_right hge, hfront]
    by_cases hmid : j < i * g.clusterSectors + n * g.clusterSectors
    · rw [if_pos ⟨by omega, hmid⟩, List.getElem?_append_left (by rw [Run.length_cells]; dsimp only; omega),
        Run.getElem?_cells, if_pos (by dsimp only; omega)]
      simp only [Option.map_some, Option.some.injEq]
      exact eq_comm
    · rw [if_neg (by omega), List.getElem?_append_right (by omega), hsource,
        List.getElem?_append_right (by omega), htarget]
      exact ⟨And.right, fun h => ⟨by omega, h⟩⟩
  · intro b hb x hx
    exact absurd ((Runs.getElem?_cells_remove _ _ _ _ _).mp hx).1 (by simp only [not_not]; omega)

/-- A cluster number that is stored is a link. -/
theorem linkOf_cluster (hmark : g.numberOfClusters + 1 < g.width.reservedMark) {c : ℕ}
    (hc : c ∈ g.clusters) : linkOf g.width (c % 2 ^ g.width.linkBits) = .next c := by
  have hc := Geometry.mem_clusters.mp hc
  have hlt : c < g.width.reservedMark := by omega
  rw [Nat.mod_eq_of_lt (hlt.trans g.width.reservedMark_lt)]
  exact linkOf_next (by omega) hlt

/-- The FAT after the second splice. -/
def secondEntry (w : FatWidth) (e : ℕ → ℕ) (cs : List ℕ) (i n t : ℕ) : ℕ → ℕ :=
  entrySet w e (t + n - 1) (if i + n < cs.length then cs.getD (i + n) 0 else fatClusterLast)

/-- The FAT after both splices. -/
def splicedEntry (w : FatWidth) (e : ℕ → ℕ) (cs : List ℕ) (i n t : ℕ) : ℕ → ℕ :=
  if i = 0 then secondEntry w e cs i n t
  else entrySet w (secondEntry w e cs i n t) (cs.getD (i - 1) 0) t

/-- A range of the clusters `cs` of a volume with the FAT `e`, and a chain to take its place. -/
structure Spliceable (g : Geometry) (e : ℕ → ℕ) (cs : List ℕ) (i n t : ℕ) : Prop where
  chain : Leads (fun c => linkOf g.width (e c)) cs .last
  clusters : ∀ c ∈ cs, c ∈ g.clusters
  pos : 0 < n
  le : i + n ≤ cs.length
  target : Leads (fun c => linkOf g.width (e c)) (List.range' t n) .last
  targetClusters : ∀ c ∈ List.range' t n, c ∈ g.clusters
  disjoint : ∀ c ∈ List.range' t n, c ∉ cs

namespace Spliceable

variable {e : ℕ → ℕ} {t : ℕ} (hmark : g.numberOfClusters + 1 < g.width.reservedMark)
  (h : Spliceable g e cs i n t)

include h

theorem length_replaced : (replaced cs i n t).length = cs.length := by
  have hle := h.le
  simp only [replaced, List.length_append, List.length_take, List.length_range', List.length_drop]
  omega

theorem last_mem : t + n - 1 ∈ List.range' t n := by
  have := h.pos
  rw [List.mem_range'_1]
  omega

theorem getLast_target : (List.range' t n).getLast h.target.ne_nil = t + n - 1 := by
  rw [List.getLast_range']

theorem getLast_take (hne : cs.take i ≠ []) : (cs.take i).getLast hne = cs.getD (i - 1) 0 := by
  have hle := h.le
  have hpos := h.pos
  have hi : i ≠ 0 := fun h0 => hne (by rw [h0, List.take_zero])
  rw [List.getLast_eq_getElem, List.getElem_take, List.getD_eq_getElem _ _ (by omega)]
  congr 1
  rw [List.length_take]
  omega

include hmark

/-- What the second splice stores. -/
theorem linkOf_second : linkOf g.width
    ((if i + n < cs.length then cs.getD (i + n) 0 else fatClusterLast) % 2 ^ g.width.linkBits) =
      Link.head (cs.drop (i + n)) := by
  by_cases hlt : i + n < cs.length
  · have hmem : cs.getD (i + n) 0 ∈ g.clusters := by
      rw [List.getD_eq_getElem _ _ hlt]
      exact h.clusters _ (List.getElem_mem _)
    rw [if_pos hlt, linkOf_cluster hmark hmem, List.drop_eq_getElem_cons hlt, Link.head,
      List.getD_eq_getElem _ _ hlt]
  · rw [if_neg hlt, linkOf_last, List.drop_eq_nil_of_le (by omega), Link.head]

/-- **The splices** replace the range. -/
theorem leads_splicedEntry : Leads (fun c => linkOf g.width (splicedEntry g.width e cs i n t c))
    (replaced cs i n t) .last := by
  have hpos := h.pos
  have hle := h.le
  have hsecond : ∀ c, c ≠ t + n - 1 → secondEntry g.width e cs i n t c = e c :=
    fun c hc => if_neg hc
  have htake : ∀ hne : cs.take i ≠ [], i ≠ 0 ∧ cs.getD (i - 1) 0 ∈ cs := by
    intro hne
    have hi : i ≠ 0 := fun h0 => hne (by rw [h0, List.take_zero])
    refine ⟨hi, ?_⟩
    rw [List.getD_eq_getElem _ _ (by omega)]
    exact List.getElem_mem _
  have hchain := h.chain
  rw [← split_range cs i n] at hchain
  refine hchain.splice ?_ h.target ?_ ?_ ?_ ?_
  · intro hnil
    have hlen := congrArg List.length hnil
    rw [List.length_take, List.length_drop, List.length_nil] at hlen
    omega
  · rw [split_range]
    exact h.disjoint
  · intro c hfirst hlast
    rw [h.getLast_target] at hlast
    by_cases hi : i = 0
    · rw [splicedEntry, if_pos hi, hsecond c hlast]
    · have hne : cs.take i ≠ [] := by
        rw [Ne, List.take_eq_nil_iff]
        rintro (h0 | hnil)
        · exact hi h0
        · exact h.chain.ne_nil hnil
      have hc := hfirst hne
      rw [h.getLast_take hne] at hc
      rw [splicedEntry, if_neg hi, entrySet, if_neg hc, hsecond c hlast]
  · rw [h.getLast_target, ← h.linkOf_second hmark]
    by_cases hi : i = 0
    · rw [splicedEntry, if_pos hi, secondEntry, entrySet, if_pos rfl]
    · have hne : t + n - 1 ≠ cs.getD (i - 1) 0 := by
        intro heq
        refine h.disjoint _ h.last_mem ?_
        rw [heq, List.getD_eq_getElem _ _ (by omega)]
        exact List.getElem_mem _
      rw [splicedEntry, if_neg hi, entrySet, if_neg hne, secondEntry, entrySet, if_pos rfl]
  · intro hne
    have htmem : t ∈ List.range' t n := by
      rw [List.mem_range'_1]
      omega
    obtain ⟨n', rfl⟩ := Nat.exists_eq_add_of_le' hpos
    rw [h.getLast_take hne, splicedEntry, if_neg (htake hne).1, entrySet, if_pos rfl,
      linkOf_cluster hmark (h.targetClusters t htmem), List.range'_succ, Link.head]

end Spliceable

/-! ## The steps of a pass -/

/-- The call with another FAT. -/
def Call.setVol (c : Call) (vol : Volume) : Call :=
  { c with file := { c.file with vcb := { c.file.vcb with vol := vol } } }

section Steps

variable {q : File} {fails : Step → Bool} {c : Call}

/-- An entry of the FAT is written. -/
theorem Call.sat_setEntry {j : ℕ} (v : ℕ) (hj : j ∈ g.clusters) :
    Sat (Call.onVcb (Vcb.onVol (fatSetFatEntry g j v))) c
      (fun _ c' => ∃ vol, c' = c.setVol vol ∧ c.file.vcb.vol.Wrote vol g.width
        (entrySet g.width (lookupEntry g.width c.file.vcb.vol.fat) j v))
      (fun s c' => s = .raised .deviceError ∧ ∃ vol, c' = c.setVol vol ∧
        c.file.vcb.vol.Faulted vol g.width) := by
  have hj := Geometry.mem_clusters.mp hj
  apply Sat.onPart
  apply Sat.onPart
  refine (sat_fatSetFatEntry v hj.1 (by omega)).mono ?_ ?_
  · intro _ vol hwrote
    exact ⟨vol, rfl, hwrote⟩
  · rintro s vol ⟨hs, hfault⟩
    exact ⟨hs, vol, rfl, hfault⟩

theorem sat_failIf {σ : Type} {b : Bool} {s : σ} :
    Sat (failIf b) s (fun _ t => t = s) (fun stop t => stop = .raised .deviceError ∧ b = true ∧ t = s) := by
  cases b with
  | false => exact Sat.pure rfl
  | true => exact Sat.throw ⟨rfl, rfl, rfl⟩

theorem sat_flushFatEntries {b : Bool} :
    Sat (flushFatEntries q b) c (fun _ c' => c' = c)
      (fun stop c' => stop = .raised .deviceError ∧ b = true ∧ c' = c) := by
  rw [flushFatEntries]
  split
  · exact sat_failIf
  · exact Sat.pure rfl

theorem sat_copyData {p : Parameter} :
    Sat (copyData p fails) c (fun _ c' => c' = c)
      (fun stop c' => stop = .raised .deviceError ∧ (∃ step, fails step = true) ∧ c' = c) := by
  rw [copyData]
  split
  · refine Sat.bind (sat_failIf.mono (fun _ _ h => h) fun _ _ h => ⟨h.1, ⟨_, h.2.1⟩, h.2.2⟩) ?_
    intro _ c' hc'
    rw [hc']
    exact sat_failIf.mono (fun _ _ h => h) fun _ _ h => ⟨h.1, ⟨_, h.2.1⟩, h.2.2⟩
  · exact Sat.pure rfl

/-- The splice points of a range. -/
def splicePoints (g : Geometry) (cs : List ℕ) (i n t : ℕ) : SplicePoints where
  firstSpliceSourceCluster := if i = 0 then 0 else cs.getD (i - 1) 0
  firstSpliceTargetCluster := t
  secondSpliceSourceCluster := t + n - 1
  secondSpliceTargetCluster := if i + n < cs.length then cs.getD (i + n) 0 else fatClusterLast
  sourceMcb := mcbOf g ((cs.drop i).take n)

/-- The call after both splices: a range at the beginning changes the first cluster. -/
def Call.splice (g : Geometry) (i t : ℕ) (c : Call) : Call :=
  if i = 0 then { c with file := c.file.setFirstCluster g t } else c

/-- Why a step of a pass raises. -/
def Broken (fails : Step → Bool) (c : Call) : Prop :=
  (∃ step, fails step = true) ∨ c.file.vcb.vol.io ≠ none

variable {t : ℕ} (h : Spliceable g (lookupEntry g.width c.file.vcb.vol.fat) cs i n t)

include h

theorem Spliceable.sat_secondSplice :
    Sat (secondSplice g q fails (splicePoints g cs i n t)) c
      (fun _ c' => ∃ vol, c' = c.setVol vol ∧ c.file.vcb.vol.Wrote vol g.width
        (secondEntry g.width (lookupEntry g.width c.file.vcb.vol.fat) cs i n t))
      (fun stop _ => stop = .raised .deviceError ∧ Broken fails c) := by
  rw [secondSplice]
  refine Sat.bind ((Call.sat_setEntry _ (h.targetClusters _ h.last_mem)).mono (fun _ _ h => h) ?_) ?_
  · rintro stop _ ⟨hstop, _, _, hfault⟩
    exact ⟨hstop, Or.inr hfault.io⟩
  · intro _ c' hc'
    refine sat_flushFatEntries.mono ?_ fun stop _ ⟨hstop, hfail, _⟩ => ⟨hstop, Or.inl ⟨_, hfail⟩⟩
    intro _ c'' heq
    rw [heq]
    exact hc'

end Steps

section Steps

variable {q : File} {fails : Step → Bool} {c : Call} {t : ℕ} {e : ℕ → ℕ}

theorem sat_firstSplice (hin : i ≤ cs.length) (hcs : ∀ c ∈ cs, c ∈ g.clusters) :
    Sat (firstSplice g q fails (splicePoints g cs i n t)) c
      (fun _ c' => ∃ vol, c' = (c.setVol vol).splice g i t ∧ c.file.vcb.vol.Wrote vol g.width
        (if i = 0 then lookupEntry g.width c.file.vcb.vol.fat
          else entrySet g.width (lookupEntry g.width c.file.vcb.vol.fat) (cs.getD (i - 1) 0) t))
      (fun stop _ => stop = .raised .deviceError ∧ Broken fails c) := by
  have hfail : ∀ (step : Step) (d : Call), Sat (failIf (fails step)) d (fun _ d' => d' = d)
      (fun stop _ => stop = .raised .deviceError ∧ Broken fails c) := fun step d =>
    sat_failIf.mono (fun _ _ h => h) fun _ _ ⟨hstop, hfail, _⟩ => ⟨hstop, Or.inl ⟨step, hfail⟩⟩
  rw [firstSplice]
  by_cases hi : i = 0
  · rw [splicePoints, if_pos hi, if_pos rfl, if_pos hi]
    refine Sat.bind (hfail .getDirent c) ?_
    intro _ c1 hc1
    rw [hc1]
    apply Sat.modify_bind
    refine Sat.bind (hfail .setDirtyBcb _) ?_
    intro _ c2 hc2
    rw [hc2]
    refine Sat.bind (hfail .flushDirent _) ?_
    intro _ c3 hc3
    rw [hc3]
    refine Sat.modify ⟨c.file.vcb.vol, ?_, fun _ => rfl, fun h => h⟩
    rw [Call.splice, if_pos hi]
    rfl
  · have hmem : cs.getD (i - 1) 0 ∈ g.clusters := by
      rw [List.getD_eq_getElem _ _ (by omega)]
      exact hcs _ (List.getElem_mem _)
    have hne : cs.getD (i - 1) 0 ≠ 0 := by
      have := Geometry.mem_clusters.mp hmem
      omega
    rw [splicePoints, if_neg hi, if_neg hne, if_neg hi]
    refine Sat.bind ((Call.sat_setEntry _ hmem).mono (fun _ _ h => h) ?_) ?_
    · rintro stop _ ⟨hstop, _, _, hfault⟩
      exact ⟨hstop, Or.inr hfault.io⟩
    · rintro _ c' ⟨vol, hc', hwrote⟩
      refine sat_flushFatEntries.mono ?_ fun stop _ ⟨hstop, hfail, _⟩ => ⟨hstop, Or.inl ⟨_, hfail⟩⟩
      intro _ c'' heq
      refine ⟨vol, ?_, hwrote⟩
      rw [heq, hc', Call.splice, if_neg hi]

/-- **Both splices.** -/
theorem Spliceable.sat_splices
    (h : Spliceable g (lookupEntry g.width c.file.vcb.vol.fat) cs i n t) :
    Sat (do
        secondSplice g q fails (splicePoints g cs i n t)
        firstSplice g q fails (splicePoints g cs i n t)) c
      (fun _ c' => ∃ vol, c' = (c.setVol vol).splice g i t ∧ c.file.vcb.vol.Wrote vol g.width
        (splicedEntry g.width (lookupEntry g.width c.file.vcb.vol.fat) cs i n t))
      (fun stop _ => stop = .raised .deviceError ∧ Broken fails c) := by
  have hle := h.le
  refine Sat.bind h.sat_secondSplice ?_
  rintro _ c' ⟨vol, hc', hwrote⟩
  refine (sat_firstSplice (by omega) h.clusters).mono ?_ ?_
  · rintro _ c'' ⟨vol', hc'', hwrote'⟩
    rw [hc'] at hc'' hwrote'
    refine ⟨vol', hc'', fun j => ?_, fun hio => hwrote'.io (hwrote.io hio)⟩
    have hentry := hwrote'.entry j
    have hsecond : lookupEntry g.width vol.fat =
        secondEntry g.width (lookupEntry g.width c.file.vcb.vol.fat) cs i n t :=
      funext hwrote.entry
    rw [hentry, splicedEntry]
    dsimp only [Call.setVol]
    rw [hsecond]
  · rintro stop _ ⟨hstop, hbroken⟩
    refine ⟨hstop, hbroken.imp_right fun hio hnone => hio ?_⟩
    rw [hc']
    exact hwrote.io hnone

/-- The clusters that are replaced are freed. -/
theorem sat_freeSource (hg : g.Sound) (hcs : ∀ c ∈ cs, c ∈ g.clusters)
    (hlt : cs.length * g.clusterSize < 2 ^ 32) (hmcb : c.sourceMcb = mcbOf g cs) :
    Sat (freeSource g) c
      (fun _ c' => ∃ v, c' = { c with file := { c.file with vcb := v } } ∧
        c.file.vcb.vol.Wrote v.vol g.width fun j =>
          if j ∈ cs then 0 else lookupEntry g.width c.file.vcb.vol.fat j)
      (fun _ _ => c.file.vcb.vol.io ≠ none) := by
  have hvalid := validRun_mcbRuns hg hcs hlt.le
  have hruns := runClusters_mcbRuns hg hcs hlt.le
  rw [if_neg (by omega), ← hmcb] at hruns
  rw [← hmcb] at hvalid
  rw [freeSource]
  apply Sat.get_bind
  apply Sat.onPart
  refine (sat_fatDeallocateDiskSpace hvalid).mono ?_ fun _ _ h => h.1
  rintro _ v ⟨_, hwrote⟩
  rw [hruns] at hwrote
  exact ⟨v, rfl, hwrote⟩

end Steps

/-! ## The chain of the file -/

section File

variable {f : FcbOrDcb} {e : ℕ → ℕ} {t : ℕ}

theorem Spliceable.mem_replaced (h : Spliceable g e cs i n t) {c : ℕ} (hc : c ∈ replaced cs i n t) :
    c ∈ g.clusters := by
  rw [replaced, List.mem_append, List.mem_append] at hc
  rcases hc with hc | hc | hc
  · exact h.clusters c (List.mem_of_mem_take hc)
  · exact h.targetClusters c hc
  · exact h.clusters c (List.mem_of_mem_drop hc)

/-- The clusters of the new chain are not among those that are replaced. -/
theorem Spliceable.notMem_source (h : Spliceable g e cs i n t) {c : ℕ} (hc : c ∈ replaced cs i n t) :
    c ∉ (cs.drop i).take n := by
  have hnodup := h.chain.nodup
  rw [← split_range cs i n, List.nodup_append', List.nodup_append'] at hnodup
  obtain ⟨-, ⟨-, -, hrest⟩, hfront⟩ := hnodup
  rw [replaced, List.mem_append, List.mem_append] at hc
  intro hsource
  rcases hc with hc | hc | hc
  · exact hfront hc (List.mem_append_left _ hsource)
  · exact h.disjoint c hc (List.mem_of_mem_drop (List.mem_of_mem_take hsource))
  · exact hrest hsource hc

/-- The first cluster of the new chain. -/
theorem Spliceable.chainAt (h : Spliceable g e cs i n t) {fat : Bytes} {first : ℕ}
    (hfirst : first = cs.head h.chain.ne_nil)
    (hleads : Leads (fatLink g.width fat) (replaced cs i n t) .last) :
    ChainAt g fat (if i = 0 then t else first) (replaced cs i n t) := by
  have hhead : replaced cs i n t = (if i = 0 then t else first) :: (replaced cs i n t).tail := by
    have hpos := h.pos
    obtain ⟨n', rfl⟩ := Nat.exists_eq_add_of_le' hpos
    by_cases hi : i = 0
    · rw [if_pos hi, replaced, hi, List.take_zero, List.nil_append, List.range'_succ, List.cons_append,
        List.tail_cons]
    · obtain ⟨c, cs', heq⟩ := List.exists_cons_of_ne_nil h.chain.ne_nil
      obtain ⟨i', rfl⟩ := Nat.exists_eq_succ_of_ne_zero hi
      subst heq
      rw [if_neg hi, hfirst, replaced, List.take_succ_cons, List.cons_append, List.tail_cons,
        List.head_cons]
  rw [hhead] at hleads ⊢
  exact ⟨rfl, hleads⟩

/-- The FAT of the splices gives the file its new chain. -/
theorem Spliceable.hasChain (h : Spliceable g (lookupEntry g.width f.vcb.vol.fat) cs i n t)
    (hmark : g.numberOfClusters + 1 < g.width.reservedMark) (hf : f.HasChain g cs) {f' : FcbOrDcb}
    (hentry : ∀ c ∈ replaced cs i n t, lookupEntry g.width f'.vcb.vol.fat c =
      splicedEntry g.width (lookupEntry g.width f.vcb.vol.fat) cs i n t c)
    (hfirst : f'.firstClusterOfFile = if i = 0 then t else f.firstClusterOfFile) :
    f'.HasChain g (replaced cs i n t) := by
  refine ⟨?_, fun c hc => h.mem_replaced hc, ?_⟩
  · rw [hfirst]
    refine h.chainAt ?_ ((h.leads_splicedEntry hmark).congr fun c hc => ?_)
    · obtain ⟨c, cs', heq⟩ := List.exists_cons_of_ne_nil h.chain.ne_nil
      subst heq
      exact hf.chain.1
    · rw [fatLink, hentry c hc]
  · rw [h.length_replaced]
    exact hf.le

end File

/-! ## The result -/

/-- The splice points of a range of the file `f`, which has the chain `cs`, are right: what they give
as the map of the source are the clusters of the range, the splices replace these by `n` clusters
from `t` on, and freeing the source frees these clusters and leaves the new chain alone.  A step
raises only when something fails. -/
structure SplicesRight (g : Geometry) (f : FcbOrDcb) (cs : List ℕ) (i n t : ℕ)
    (points : SplicePoints) : Prop where
  computed : fatComputeMoveFileSplicePoints g f.mcb (i * g.clusterSize) t (n * g.clusterSize) [] =
    some points
  source : points.sourceMcb = mcbOf g ((cs.drop i).take n)
  spliced : ∀ q fails c, c.file = f → c.sourceMcb = points.sourceMcb →
    Sat (do
        secondSplice g q fails points
        firstSplice g q fails points) c
      (fun _ c' => c'.file.HasChain g (replaced cs i n t) ∧
        (f.dirent.cluster g = f.firstClusterOfFile →
          c'.file.dirent.cluster g = c'.file.firstClusterOfFile) ∧
        Sat (freeSource g) c'
          (fun _ c'' => c''.file.HasChain g (replaced cs i n t) ∧
            ∀ j, lookupEntry g.width c''.file.vcb.vol.fat j =
              if j ∈ (cs.drop i).take n then 0 else lookupEntry g.width c'.file.vcb.vol.fat j)
          (fun _ _ => c'.file.vcb.vol.io ≠ none))
      (fun _ _ => Broken fails c)

/-- A cluster number that is stored in a dirent is read back. -/
theorem cluster_store (hmark : g.numberOfClusters + 1 < g.width.reservedMark) {c : ℕ}
    (hc : c ∈ g.clusters) (d : DirentCluster) : (d.store g c).cluster g = c := by
  have hc := Geometry.mem_clusters.mp hc
  have hN := g.numberOfClusters_lt
  have hlt : g.width ≠ .fat32 → c < 2 ^ 16 := by
    intro hw
    cases hwidth : g.width with
    | fat32 => exact absurd hwidth hw
    | fat12 =>
        rw [hwidth] at hmark
        change _ < 0xff0 at hmark
        omega
    | fat16 =>
        rw [hwidth] at hmark
        change _ < 0xfff0 at hmark
        omega
  rw [DirentCluster.cluster, DirentCluster.store]
  by_cases hw : g.width = .fat32
  · rw [if_pos hw]
    dsimp only
    rw [if_pos hw]
    omega
  · rw [if_neg hw]
    exact Nat.mod_eq_of_lt (hlt hw)

/-- **Splices are right** for every range of a file with all of its chain in the map and every chain
of clusters outside of the file. -/
theorem exists_splicesRight (hg : g.Mappable) (hmark : g.numberOfClusters + 1 < g.width.reservedMark)
    {f : FcbOrDcb} (hf : f.HasChain g cs) (hmcb : f.mcb = mcbOf g cs) (hn : 0 < n)
    (hin : i + n ≤ cs.length) (hend : (i + n) * g.clusterSize < 2 ^ 32) {t : ℕ}
    (htarget : Leads (fatLink g.width f.vcb.vol.fat) (List.range' t n) .last)
    (hclusters : ∀ c ∈ List.range' t n, c ∈ g.clusters) (hdis : ∀ c ∈ List.range' t n, c ∉ cs) :
    ∃ points, SplicesRight g f cs i n t points := by
  have hne : cs ≠ [] := List.ne_nil_of_length_pos (by omega)
  have h : Spliceable g (lookupEntry g.width f.vcb.vol.fat) cs i n t :=
    ⟨hf.leads hne, hf.clusters, hn, hin, htarget, hclusters, hdis⟩
  have hsound : g.Sound := ⟨hmark.trans g.width.reservedMark_lt, hg.aligned, hg.sectors⟩
  refine ⟨splicePoints g cs i n t, ?_, rfl, ?_⟩
  · rw [hmcb, fatComputeMoveFileSplicePoints_eq hg hf.clusters hf.le hn hin hend, splicePoints]
  intro q fails c hc hsource
  subst hc
  refine h.sat_splices.mono ?_ fun _ _ h => h.2
  rintro _ c' ⟨vol, hc', hwrote⟩
  have hfirst : c'.file.firstClusterOfFile = if i = 0 then t else c.file.firstClusterOfFile := by
    rw [hc', Call.splice]
    split <;> rfl
  have hvol : c'.file.vcb.vol = vol := by
    rw [hc', Call.splice]
    split <;> rfl
  refine ⟨h.hasChain hmark hf (fun j _ => by rw [hvol, hwrote.entry]) hfirst, fun hdirent => ?_, ?_⟩
  · rw [hfirst, hc', Call.splice]
    by_cases hi : i = 0
    · rw [if_pos hi, if_pos hi]
      exact cluster_store hmark (h.targetClusters t (by rw [List.mem_range'_1]; omega)) _
    · rw [if_neg hi, if_neg hi]
      exact hdirent
  · have hsource' : c'.sourceMcb = mcbOf g ((cs.drop i).take n) := by
      rw [hc', Call.splice]
      split <;> exact hsource
    have hlen : ((cs.drop i).take n).length * g.clusterSize < 2 ^ 32 := by
      rw [List.length_take, List.length_drop]
      exact (Nat.mul_le_mul_right _ (by omega : _ ≤ i + n)).trans_lt hend
    refine (sat_freeSource hsound (fun x hx => hf.clusters x (List.mem_of_mem_drop
      (List.mem_of_mem_take hx))) hlen hsource').mono ?_ fun _ _ h => h
    rintro _ c'' ⟨v, hc'', hfreed⟩
    refine ⟨h.hasChain hmark hf (fun j hj => ?_) ?_, fun j => ?_⟩
    · rw [hc'']
      dsimp only
      rw [hfreed.entry, if_neg (h.notMem_source hj), hvol, hwrote.entry]
    · rw [hc'']
      exact hfirst
    · rw [hc'']
      exact hfreed.entry j

/-- A file of the clusters 2 and 3, and the cluster 5 in a chain of its own. -/
def chainedFile : FcbOrDcb :=
  ⟨unmounted ⟨storeEntry .fat12 linkedFat 5 0xfff, [], none⟩, ⟨1024, 0⟩, 1024, 2, mcbOf floppy [2, 3],
    ⟨2, 0⟩⟩

/-- Its second cluster is replaced by cluster 5. -/
theorem exists_splicesRight_floppy : ∃ points, SplicesRight floppy chainedFile [2, 3] 1 1 5 points := by
  have hmem : ∀ c ∈ [2, 3, 5], c ∈ floppy.clusters := by
    intro c hc
    rw [Geometry.mem_clusters, floppy_numberOfClusters]
    simp only [List.mem_cons, List.not_mem_nil, or_false] at hc
    omega
  have hfive : List.range' 5 1 = [5] := rfl
  have hlink : fatLink .fat12 (storeEntry .fat12 linkedFat 5 0xfff) 3 = .last ∧
      fatLink .fat12 (storeEntry .fat12 linkedFat 5 0xfff) 5 = .last := by decide
  have hchain : chainedFile.HasChain floppy [2, 3] := by
    refine ⟨⟨rfl, ?_⟩, fun c hc => hmem c ?_, ?_⟩
    · rw [floppy_width]
      exact ⟨by decide, hlink.1⟩
    · simp only [List.mem_cons, List.not_mem_nil, or_false] at hc ⊢
      omega
    · have hle := floppy.clusterSize_le
      simp only [List.length_cons, List.length_nil]
      omega
  have hsize := floppy.clusterSize_le
  refine exists_splicesRight floppy_mappable ?_ hchain rfl (by norm_num) (by simp) (by omega) ?_ ?_ ?_
  · rw [floppy_width, floppy_numberOfClusters]
    decide
  · rw [floppy_width]
    exact hlink.2
  · rw [hfive]
    intro c hc
    exact hmem c (by simp_all)
  · rw [hfive]
    simp

end KernelDrivers.Fat.Move
