import KernelDrivers.Fat.Accounting
import KernelDrivers.Fat.Resize

/-!
# Cutting and joining maps

The loops of `FatSplitAllocation` and `FatMergeAllocation` move runs by byte offsets of 32
bits.  Cell by cell they move the tail of a map to another one and back, and append a map to
another; for maps of clusters they cut and join lists of clusters.

## Main results

* `moveRuns_spec`, `appendRuns_spec` — the loops, cell by cell.
* `sat_fatSplitAllocation`, `sat_fatMergeAllocation` — the routines, on lists of clusters.
* `splitsAndMerges` — the two routines are inverse to each other.
-/

namespace KernelDrivers.Fat

variable {g : Geometry}

/-! ## Bytes and sectors -/

/-- The cells hold sectors, and none of them has the number of a hole. -/
def Plain (cells : List (Option ℕ)) : Prop :=
  ∀ x ∈ cells, ∃ l, x = some l ∧ l % 2 ^ 32 ≠ 2 ^ 32 - 1

theorem Plain.sublist {S T : List (Option ℕ)} (h : Plain T) (hsub : ∀ x ∈ S, x ∈ T) : Plain S :=
  fun x hx => h x (hsub x hx)

theorem Plain.stripHoles {S : List (Option ℕ)} (h : Plain S) : Runs.stripHoles S = S := by
  apply Runs.stripHoles_of_forall_ne_none
  intro x hx
  obtain ⟨l, rfl, -⟩ := h x hx
  simp

theorem stripHoles_append_of_ne_nil {S T : List (Option ℕ)} (hT : T ≠ []) (h : Plain T) :
    Runs.stripHoles (S ++ T) = S ++ T := by
  rw [Runs.stripHoles_append, h.stripHoles, if_neg hT]

/-- A byte offset on a sector, looked up. -/
theorem fatLookupMcbEntry_sector {mcb : Mcb} {p left index : ℕ} {base : Option ℕ}
    (h : Runs.lookup mcb p = some (base, left, index)) {l : ℕ} (hbase : base = some l)
    (hne : l % 2 ^ 32 ≠ 2 ^ 32 - 1) (hleft : left * g.sectorSize < 2 ^ 32) :
    fatLookupMcbEntry g mcb (p * g.sectorSize) =
      some (l * g.sectorSize, left * g.sectorSize, index) := by
  have hs := g.sectorSize_pos
  have hpos := (Runs.lookup_spec h).1
  have hcount : mcbByteCount g left = left * g.sectorSize := by
    have := Nat.mul_pos hpos hs
    rw [mcbByteCount, ulong_of_lt hleft, if_neg (by omega)]
  rw [fatLookupMcbEntry, Nat.mul_div_cancel _ hs, Nat.mul_mod_left, h, Option.map_some]
  simp only [hbase, mcbLbo, if_neg hne, hcount, Nat.add_zero, Nat.sub_zero]
  split
  · next h0 => rw [h0]
  · rfl

theorem fatLookupMcbEntry_none {mcb : Mcb} {p : ℕ} (h : (Runs.cells mcb).length ≤ p) :
    fatLookupMcbEntry g mcb (p * g.sectorSize) = none := by
  rw [fatLookupMcbEntry, Nat.mul_div_cancel _ g.sectorSize_pos, Runs.lookup_eq_none_iff.mpr h]
  rfl

theorem mcbSectors_mul (g : Geometry) (n : ℕ) : mcbSectors g (n * g.sectorSize) = n := by
  have hs := g.sectorSize_pos
  exact mcbSectors_eq g le_rfl (by omega)

/-- Adding whole sectors behind the end. -/
theorem cells_fatAddMcbEntry {mcb : Mcb} (h : Runs.Normal mcb) (l n : ℕ) :
    Runs.cells (fatAddMcbEntry g mcb ((Runs.cells mcb).length * g.sectorSize) (l * g.sectorSize)
      (n * g.sectorSize)) = Runs.cells mcb ++ (Run.mk (some l) n).cells := by
  rw [fatAddMcbEntry, Nat.mul_div_cancel _ g.sectorSize_pos, Nat.mul_div_cancel _ g.sectorSize_pos,
    mcbSectors_mul, Runs.cells_add_end h]

/-- The count that the removal of whole sectors passes on. -/
theorem fatRemoveMcbEntry_sectors (mcb : Mcb) (p n : ℕ) :
    fatRemoveMcbEntry g mcb (p * g.sectorSize) (n * g.sectorSize) = Runs.remove mcb p n := by
  have hne : n * g.sectorSize ≠ 0xffffffff := by
    have hdvd : 2 ∣ g.sectorSize :=
      dvd_pow_self 2 (by have := g.sector_mem; omega)
    have := hdvd.mul_left n
    omega
  rw [fatRemoveMcbEntry, if_pos hne, mcbSectors_mul, Nat.mul_div_cancel _ g.sectorSize_pos]

/-! ## The loops -/

/-- **Moving the tail of a map.**  Of the cells `S` those from `s` on are moved behind the
cells `T`; `p` of them have been moved already. -/
theorem moveRuns_spec {S T : List (Option ℕ)} {s p passes : ℕ} {stopAtWrap : Bool}
    {source target : Mcb} (hS : Plain S) (hT : Runs.Normal target) (hN : Runs.Normal source)
    (hsource : Runs.cells source =
      Runs.stripHoles (S.take s ++ List.replicate p none ++ S.drop (s + p)))
    (htarget : Runs.cells target = T ++ (S.drop s).take p) (hsp : s + p ≤ S.length)
    (hpasses : S.length < passes + (s + p)) (hlt : (s + p) * g.sectorSize < 2 ^ 32)
    (hrest : (S.length - s) * g.sectorSize < 2 ^ 32) (hsize : S.length * g.sectorSize ≤ 2 ^ 32)
    (hstop : stopAtWrap = true ∨ S.length * g.sectorSize < 2 ^ 32)
    (hroom : (T.length + (S.length - s)) * g.sectorSize ≤ 2 ^ 32) :
    let ms := moveRuns g stopAtWrap passes (source, target) ((s + p) * g.sectorSize)
      (ulong ((T.length + p) * g.sectorSize))
    Runs.Normal ms.1 ∧ Runs.Normal ms.2 ∧ Runs.cells ms.1 = S.take s ∧
      Runs.cells ms.2 = T ++ S.drop s := by
  have hs := g.sectorSize_pos
  have htake : Plain (S.take s) := hS.sublist fun x hx => List.mem_of_mem_take hx
  -- when all is moved, only the front of the source is left
  have hdone : ∀ {source target : Mcb}, Runs.Normal source → Runs.Normal target →
      Runs.cells source =
        Runs.stripHoles (S.take s ++ List.replicate (S.length - s) none ++ S.drop S.length) →
      Runs.cells target = T ++ (S.drop s).take (S.length - s) →
      Runs.Normal source ∧ Runs.Normal target ∧ Runs.cells source = S.take s ∧
        Runs.cells target = T ++ S.drop s := by
    intro source target h1 h2 h3 h4
    refine ⟨h1, h2, ?_, ?_⟩
    · rw [h3, List.drop_length, List.append_nil, Runs.stripHoles_append_replicate, htake.stripHoles]
    · rw [h4, List.take_of_length_le (by simp)]
  induction passes generalizing p source target with
  | zero => omega
  | succ passes ih =>
      rw [moveRuns]
      by_cases hend : s + p = S.length
      · have hcells := hdone hN hT (by rw [hsource, hend, ← hend, Nat.add_sub_cancel_left])
          (by rw [htarget, ← hend, Nat.add_sub_cancel_left])
        rw [fatLookupMcbEntry_none (by rw [hcells.2.2.1, List.length_take]; omega)]
        exact hcells
      -- the source still has its cells from `s + p` on
      have hdrop : S.drop (s + p) ≠ [] := by
        rw [Ne, List.drop_eq_nil_iff]
        omega
      have hplain : Plain (S.drop (s + p)) := hS.sublist fun x hx => List.mem_of_mem_drop hx
      rw [stripHoles_append_of_ne_nil hdrop hplain] at hsource
      have hlen : (S.take s ++ List.replicate p none).length = s + p := by
        simp only [List.length_append, List.length_take, List.length_replicate]
        omega
      have hsourceLen : (Runs.cells source).length = S.length := by
        rw [hsource, List.length_append, hlen, List.length_drop]
        omega
      obtain ⟨⟨base, left, index⟩, hlookup⟩ : ∃ x, Runs.lookup source (s + p) = some x := by
        rw [← Option.ne_none_iff_exists', Ne, Runs.lookup_eq_none_iff]
        omega
      obtain ⟨hpos, hle, hslice⟩ := Runs.lookup_spec hlookup
      rw [hsource, List.drop_left' hlen] at hslice
      rw [hsourceLen] at hle
      obtain ⟨l, rfl, hl⟩ : ∃ l, base = some l ∧ l % 2 ^ 32 ≠ 2 ^ 32 - 1 := by
        have hmem : base ∈ (S.drop (s + p)).take left := by
          rw [hslice, Run.cells]
          refine List.mem_map.mpr ⟨0, List.mem_range.mpr hpos, ?_⟩
          cases base <;> rfl
        exact hplain _ (List.mem_of_mem_take hmem)
      have hmul : left * g.sectorSize ≤ (S.length - s) * g.sectorSize :=
        Nat.mul_le_mul_right _ (by omega)
      have hroom' : (T.length + p) * g.sectorSize < 2 ^ 32 :=
        (Nat.mul_lt_mul_of_pos_right (by omega) hs).trans_le hroom
      rw [fatLookupMcbEntry_sector hlookup rfl hl (by omega)]
      dsimp only
      rw [fatRemoveMcbEntry_sectors, ulong_of_lt hroom', ← Nat.add_mul, ← Nat.add_mul]
      have hN' : Runs.Normal (Runs.remove source (s + p) left) := Runs.normal_remove _ _ _
      have hsource' : Runs.cells (Runs.remove source (s + p) left) = Runs.stripHoles
          (S.take s ++ List.replicate (p + left) none ++ S.drop (s + (p + left))) := by
        have hback : (Runs.cells source).drop (s + p + left) = S.drop (s + (p + left)) := by
          rw [hsource, ← List.drop_drop, List.drop_left' hlen, List.drop_drop, Nat.add_assoc]
        rw [Runs.cells_remove, hsourceLen, Nat.sub_eq_zero_of_le (by omega), Nat.zero_add, hback,
          hsource, List.take_left' hlen, List.replicate_add, List.append_assoc (S.take s)]
      have htargetLen : (Runs.cells target).length = T.length + p := by
        rw [htarget, List.length_append, List.length_take, List.length_drop]
        omega
      have hT' := Runs.normal_add hT ((T.length + p) * g.sectorSize / g.sectorSize)
        (l * g.sectorSize / g.sectorSize) (mcbSectors g (left * g.sectorSize))
      have htarget' := cells_fatAddMcbEntry (g := g) hT l left
      rw [htargetLen, htarget, ← hslice, List.append_assoc, ← List.drop_drop,
        ← List.take_add] at htarget'
      change Runs.Normal (fatAddMcbEntry g target _ _ _) at hT'
      rw [Nat.add_assoc s p left]
      split
      · next hwrap =>
          -- the last byte of the maximal file has been moved
          have hall : s + (p + left) = S.length := by
            by_contra hne
            have hlt' : (s + (p + left)) * g.sectorSize < S.length * g.sectorSize :=
              Nat.mul_lt_mul_of_pos_right (by omega) hs
            have hzero := hwrap.2
            rw [ulong_of_lt (by omega)] at hzero
            have := Nat.mul_pos (show 0 < s + (p + left) by omega) hs
            omega
          exact hdone hN' hT' (by rw [hsource', hall, ← hall, Nat.add_sub_cancel_left])
            (by rw [htarget', ← hall, Nat.add_sub_cancel_left])
      · next hwrap =>
          have hlt' : (s + (p + left)) * g.sectorSize < 2 ^ 32 := by
            have hle' : (s + (p + left)) * g.sectorSize ≤ S.length * g.sectorSize :=
              Nat.mul_le_mul_right _ (by omega)
            rcases hstop with hstop | hstop
            · by_contra hge
              apply hwrap
              rw [show (s + (p + left)) * g.sectorSize = 2 ^ 32 by omega]
              exact ⟨hstop, rfl⟩
            · omega
          rw [ulong_of_lt hlt', Nat.add_assoc T.length p left]
          exact ih hT' hN' hsource' htarget' (by omega) (by omega) hlt'

/-- **Appending a map.**  Of the cells `S` of the second map `p` have been appended to `M`. -/
theorem appendRuns_spec {S M : List (Option ℕ)} {p passes : ℕ} {mcb second : Mcb} (hS : Plain S)
    (hsecond : Runs.cells second = S) (hN : Runs.Normal mcb)
    (hmcb : Runs.cells mcb = M ++ S.take p) (hp : p ≤ S.length) (hpasses : S.length < passes + p)
    (hlt : S.length * g.sectorSize < 2 ^ 32)
    (hroom : (M.length + S.length) * g.sectorSize ≤ 2 ^ 32) :
    let r := appendRuns g second passes mcb (p * g.sectorSize)
      (ulong ((M.length + p) * g.sectorSize))
    Runs.Normal r.1 ∧ Runs.cells r.1 = M ++ S ∧
      r.2 = ulong ((M.length + S.length) * g.sectorSize) := by
  have hs := g.sectorSize_pos
  induction passes generalizing p mcb with
  | zero => omega
  | succ passes ih =>
      rw [appendRuns]
      by_cases hend : p = S.length
      · rw [hend, fatLookupMcbEntry_none (by rw [hsecond])]
        rw [hend, List.take_length] at hmcb
        exact ⟨hN, hmcb, rfl⟩
      obtain ⟨⟨base, left, index⟩, hlookup⟩ : ∃ x, Runs.lookup second p = some x := by
        rw [← Option.ne_none_iff_exists', Ne, Runs.lookup_eq_none_iff, hsecond]
        omega
      obtain ⟨hpos, hle, hslice⟩ := Runs.lookup_spec hlookup
      rw [hsecond] at hslice hle
      obtain ⟨l, rfl, hl⟩ : ∃ l, base = some l ∧ l % 2 ^ 32 ≠ 2 ^ 32 - 1 := by
        have hmem : base ∈ (S.drop p).take left := by
          rw [hslice, Run.cells]
          refine List.mem_map.mpr ⟨0, List.mem_range.mpr hpos, ?_⟩
          cases base <;> rfl
        exact hS _ (List.mem_of_mem_drop (List.mem_of_mem_take hmem))
      have hmul : (p + left) * g.sectorSize ≤ S.length * g.sectorSize :=
        Nat.mul_le_mul_right _ hle
      have hsum := Nat.add_mul p left g.sectorSize
      have hroom' : (M.length + p) * g.sectorSize < 2 ^ 32 :=
        (Nat.mul_lt_mul_of_pos_right (by omega) hs).trans_le hroom
      have hlen : (Runs.cells mcb).length = M.length + p := by
        rw [hmcb, List.length_append, List.length_take]
        omega
      have hN' := Runs.normal_add hN ((M.length + p) * g.sectorSize / g.sectorSize)
        (l * g.sectorSize / g.sectorSize) (mcbSectors g (left * g.sectorSize))
      have hmcb' := cells_fatAddMcbEntry (g := g) hN l left
      rw [hlen, hmcb, ← hslice, List.append_assoc, ← List.take_add] at hmcb'
      rw [fatLookupMcbEntry_sector hlookup rfl hl (by omega)]
      dsimp only
      rw [ulong_of_lt hroom', ← Nat.add_mul, ← Nat.add_mul, ulong_of_lt (by omega),
        Nat.add_assoc M.length p left]
      exact ih hN' hmcb' hle (by omega)

/-! ## Maps of clusters -/

theorem mcbSize_eq (mcb : Mcb) : mcbSize mcb = (Runs.cells mcb).length := by
  rw [mcbSize, Runs.startOf, List.take_length, Runs.length_cells_eq_sum]

theorem length_cells_mcbOf (g : Geometry) (cs : List ℕ) :
    (Runs.cells (mcbOf g cs)).length = cs.length * g.clusterSectors := by
  rw [cells_mcbOf, List.length_map, length_flatMap_sectorsOf]

theorem cells_mcbOf_append (g : Geometry) (cs ds : List ℕ) :
    Runs.cells (mcbOf g (cs ++ ds)) = Runs.cells (mcbOf g cs) ++ Runs.cells (mcbOf g ds) := by
  rw [cells_mcbOf, cells_mcbOf, cells_mcbOf, List.flatMap_append, List.map_append]

theorem plain_mcbOf (hsectors : g.fileAreaSector + g.numberOfClusters * g.clusterSectors < 2 ^ 32)
    {cs : List ℕ} (hcs : ∀ c ∈ cs, c ∈ g.clusters) : Plain (Runs.cells (mcbOf g cs)) := by
  intro x hx
  rw [cells_mcbOf] at hx
  obtain ⟨l, hl, rfl⟩ := List.mem_map.mp hx
  obtain ⟨c, hc, hl⟩ := List.mem_flatMap.mp hl
  refine ⟨l, rfl, ?_⟩
  have hc := Geometry.mem_clusters.mp (hcs c hc)
  have hmul : (c - 2 + 1) * g.clusterSectors ≤ g.numberOfClusters * g.clusterSectors :=
    Nat.mul_le_mul_right _ (by omega)
  rw [Nat.add_mul, Nat.one_mul] at hmul
  rw [sectorsOf, List.mem_range'_1] at hl
  rw [Nat.mod_eq_of_lt (by omega)]
  omega

/-- Clusters are whole numbers of sectors. -/
theorem mul_clusterSize (g : Geometry) (n : ℕ) :
    n * g.clusterSize = n * g.clusterSectors * g.sectorSize := by
  rw [Nat.mul_assoc, g.clusterSectors_mul]

theorem Plain.mcbOf_append_left {cs ds : List ℕ} (h : Plain (Runs.cells (mcbOf g (cs ++ ds)))) :
    Plain (Runs.cells (mcbOf g cs)) := by
  refine h.sublist fun x hx => ?_
  rw [cells_mcbOf_append]
  exact List.mem_append_left _ hx

theorem Plain.mcbOf_append_right {cs ds : List ℕ} (h : Plain (Runs.cells (mcbOf g (cs ++ ds)))) :
    Plain (Runs.cells (mcbOf g ds)) := by
  refine h.sublist fun x hx => ?_
  rw [cells_mcbOf_append]
  exact List.mem_append_right _ hx

theorem Plain.mcbOf_take {cs : List ℕ} (h : Plain (Runs.cells (mcbOf g cs))) (k : ℕ) :
    Plain (Runs.cells (mcbOf g (cs.take k))) := by
  rw [← List.take_append_drop k cs] at h
  exact h.mcbOf_append_left

theorem Plain.mcbOf_drop {cs : List ℕ} (h : Plain (Runs.cells (mcbOf g cs))) (k : ℕ) :
    Plain (Runs.cells (mcbOf g (cs.drop k))) := by
  rw [← List.take_append_drop k cs] at h
  exact h.mcbOf_append_right

theorem eq_mcbOf {mcb : Mcb} {cs : List ℕ} (h : Runs.Normal mcb)
    (hcells : Runs.cells mcb = Runs.cells (mcbOf g cs)) : mcb = mcbOf g cs :=
  h.ext (normal_mcbOf g cs) hcells

theorem fatGetIndexFromLbo_lbo {c j : ℕ} (hc : c ∈ g.clusters) (hj : j < g.clusterSize) :
    fatGetIndexFromLbo g (fatGetLboFromIndex g c + j) = c := by
  have hpos : (0 : ℤ) < g.clusterSize := by exact_mod_cast g.clusterSize_pos
  have hc := Geometry.mem_clusters.mp hc
  have hN := g.numberOfClusters_lt
  have hdiff : ((fatGetLboFromIndex g c + j : ℕ) : ℤ) - g.fileAreaLbo =
      j + ((c - 2 : ℕ) : ℤ) * g.clusterSize := by
    rw [fatGetLboFromIndex]
    push_cast
    ring
  rw [fatGetIndexFromLbo, hdiff, Int.add_mul_ediv_right _ _ hpos.ne',
    Int.ediv_eq_zero_of_lt (by omega) (by exact_mod_cast hj)]
  omega

theorem mcbOf_ne_nil {cs : List ℕ} (hne : cs ≠ []) : mcbOf g cs ≠ [] := by
  intro hnil
  have hlen := length_cells_mcbOf g cs
  rw [hnil, Runs.cells_nil, List.length_nil, eq_comm, Nat.mul_eq_zero] at hlen
  exact hne (List.length_eq_zero_iff.mp (hlen.resolve_right g.clusterSectors_pos.ne'))

theorem getLast?_cells_mcbOf {cs : List ℕ} (hne : cs ≠ []) :
    (Runs.cells (mcbOf g cs)).getLast? = some (some (g.fileAreaSector +
      (cs.getLast hne - 2) * g.clusterSectors + (g.clusterSectors - 1))) := by
  have hK := g.clusterSectors_pos
  rw [cells_mcbOf]
  conv_lhs => rw [← List.dropLast_append_getLast hne]
  rw [List.flatMap_append, List.flatMap_singleton, List.map_append, List.getLast?_append,
    List.getLast?_map, sectorsOf, List.getLast?_range', if_neg (by omega)]
  simp only [Option.map_some, Option.some_or]
  congr 2
  omega

/-- The last byte of a map without holes. -/
theorem fatLookupLastMcbEntry_of_plain {mcb : Mcb} {l : ℕ} (hnormal : Runs.Normal mcb)
    (hplain : Plain (Runs.cells mcb)) (hlast : (Runs.cells mcb).getLast? = some (some l))
    (hlen : (Runs.cells mcb).length * g.sectorSize ≤ 2 ^ 32) :
    fatLookupLastMcbEntry g mcb = (true, (Runs.cells mcb).length * g.sectorSize - 1,
      l * g.sectorSize + (g.sectorSize - 1)) := by
  have hs := g.sectorSize_pos
  have hne : mcb ≠ [] := by
    rintro rfl
    simp at hlast
  obtain ⟨run, hrun⟩ := Option.ne_none_iff_exists'.mp (mt List.getLast?_eq_none_iff.mp hne)
  have hpos := hnormal.count_pos_of_mem (List.mem_of_getLast? hrun)
  have hcell := Runs.getLast?_cells hnormal hrun
  obtain ⟨l', hl', hmod⟩ := hplain _ (List.mem_of_getLast? hlast)
  rw [Option.some.injEq] at hl'
  subst hl'
  rw [hlast, Option.some.injEq] at hcell
  obtain ⟨b, hb, hbl⟩ := Option.map_eq_some_iff.mp hcell.symm
  have hsum : b + run.count - 1 = l := by omega
  have hcount : 1 ≤ (Runs.cells mcb).length :=
    List.length_pos_of_mem (List.mem_of_getLast? hlast)
  have hsize : ((Runs.cells mcb).length - 1) * g.sectorSize + g.sectorSize =
      (Runs.cells mcb).length * g.sectorSize := by
    rw [Nat.sub_mul, Nat.one_mul, Nat.sub_add_cancel (Nat.le_mul_of_pos_left _ hcount)]
  simp only [fatLookupLastMcbEntry, hrun, hb, hsum, if_neg hmod, mcbSize_eq]
  rw [ulong_of_lt (by omega)]
  congr 2
  omega

theorem fatLookupLastMcbEntry_mcbOf (hal : g.sectorSize ∣ g.fileAreaLbo) {cs : List ℕ}
    (hplain : Plain (Runs.cells (mcbOf g cs))) (hne : cs ≠ [])
    (hlen : cs.length * g.clusterSize ≤ 2 ^ 32) :
    fatLookupLastMcbEntry g (mcbOf g cs) = (true, cs.length * g.clusterSize - 1,
      fatGetLboFromIndex g (cs.getLast hne) + (g.clusterSize - 1)) := by
  have hs := g.sectorSize_pos
  have hK := g.clusterSectors_pos
  have hKs := g.clusterSectors_mul
  have harea : g.fileAreaSector * g.sectorSize = g.fileAreaLbo := Nat.div_mul_cancel hal
  rw [fatLookupLastMcbEntry_of_plain (normal_mcbOf g cs) hplain (getLast?_cells_mcbOf hne)]
  · rw [length_cells_mcbOf, ← mul_clusterSize, fatGetLboFromIndex, Nat.add_mul, Nat.add_mul, harea,
      Nat.mul_assoc, hKs]
    have hone : (g.clusterSectors - 1) * g.sectorSize + g.sectorSize = g.clusterSize := by
      rw [Nat.sub_mul, Nat.one_mul, hKs, Nat.sub_add_cancel]
      rw [← hKs]
      exact Nat.le_mul_of_pos_left _ hK
    congr 2
    omega
  · rw [length_cells_mcbOf, ← mul_clusterSize]
    exact hlen

/-- The first byte of a map of clusters is mapped to the first cluster. -/
theorem firstLbo_mcbOf (hal : g.sectorSize ∣ g.fileAreaLbo) {c : ℕ} {cs : List ℕ}
    (hplain : Plain (Runs.cells (mcbOf g (c :: cs)))) :
    firstLbo g (mcbOf g (c :: cs)) = fatGetLboFromIndex g c := by
  have hK := g.clusterSectors_pos
  have harea : g.fileAreaSector * g.sectorSize = g.fileAreaLbo := Nat.div_mul_cancel hal
  obtain ⟨⟨base, left, index⟩, hlookup⟩ :
      ∃ x, Runs.lookup (mcbOf g (c :: cs)) 0 = some x := by
    rw [← Option.ne_none_iff_exists', Ne, Runs.lookup_eq_none_iff, length_cells_mcbOf,
      List.length_cons, Nat.add_mul]
    omega
  obtain ⟨hpos, -, hslice⟩ := Runs.lookup_spec hlookup
  have hbase : base = some (g.fileAreaSector + (c - 2) * g.clusterSectors) := by
    have hhead := congrArg List.head? hslice
    rw [List.drop_zero, List.head?_take, if_neg (by omega), cells_mcbOf, List.flatMap_cons,
      sectorsOf] at hhead
    obtain ⟨k, hk⟩ := Nat.exists_eq_succ_of_ne_zero hK.ne'
    obtain ⟨n, rfl⟩ := Nat.exists_eq_succ_of_ne_zero hpos.ne'
    rw [hk, List.range'_succ, Run.cells, List.range_succ_eq_map] at hhead
    cases base with
    | none => simp at hhead
    | some b => simpa [hk] using hhead.symm
  obtain ⟨l, hl, hmod⟩ := hplain base (by
    have hmem : base ∈ ((Runs.cells (mcbOf g (c :: cs))).drop 0).take left := by
      rw [hslice, Run.cells]
      refine List.mem_map.mpr ⟨0, List.mem_range.mpr hpos, ?_⟩
      cases base <;> rfl
    exact List.mem_of_mem_take hmem)
  rw [hbase, Option.some.injEq] at hl
  rw [firstLbo, fatLookupMcbEntry, Nat.zero_div, Nat.zero_mod, hlookup, hbase, hl]
  simp only [Option.map_some, Option.getD_some, mcbLbo, if_neg hmod, Nat.add_zero]
  have hvalue : l * g.sectorSize = fatGetLboFromIndex g c := by
    rw [← hl, fatGetLboFromIndex, Nat.add_mul, harea, Nat.mul_assoc, g.clusterSectors_mul]
  split
  · next h0 => rw [← hvalue, h0]
  · exact hvalue

/-! ## Maps of files -/

/-- The sectors in the map of a list of clusters. -/
theorem getElem?_cells_mcbOf (g : Geometry) {cs : List ℕ} {p : ℕ}
    (hp : p < cs.length * g.clusterSectors) :
    (Runs.cells (mcbOf g cs))[p]? = some (some (g.fileAreaSector +
      (cs.getD (p / g.clusterSectors) 0 - 2) * g.clusterSectors + p % g.clusterSectors)) := by
  have hK := g.clusterSectors_pos
  rw [cells_mcbOf, List.getElem?_map]
  induction cs generalizing p with
  | nil => simp at hp
  | cons c cs ih =>
      have hlen : (sectorsOf g c).length = g.clusterSectors := by rw [sectorsOf, List.length_range']
      rw [List.flatMap_cons]
      by_cases hlt : p < g.clusterSectors
      · rw [List.getElem?_append_left (by omega), Nat.div_eq_of_lt hlt, Nat.mod_eq_of_lt hlt,
          sectorsOf, List.getElem?_range' hlt]
        simp
      · have hge : g.clusterSectors ≤ p := not_lt.mp hlt
        rw [List.length_cons, Nat.add_mul, Nat.one_mul] at hp
        have hdiv : p / g.clusterSectors = (p - g.clusterSectors) / g.clusterSectors + 1 := by
          rw [← Nat.add_div_right _ hK, Nat.sub_add_cancel hge]
        have hmod : p % g.clusterSectors = (p - g.clusterSectors) % g.clusterSectors :=
          (Nat.mod_eq_sub_mod hge)
        rw [List.getElem?_append_right (by omega), hlen, ih (by omega), hdiv, hmod,
          List.getD_cons_succ]

/-- The byte of the disk at which byte `vbo` of a file is. -/
def fileLbo (g : Geometry) (cs : List ℕ) (vbo : ℕ) : ℕ :=
  fatGetLboFromIndex g (cs.getD (vbo / g.clusterSize) 0) + vbo % g.clusterSize

/-- The same in sectors. -/
theorem fileLbo_eq (g : Geometry) (cs : List ℕ) (vbo : ℕ) :
    fileLbo g cs vbo = g.fileAreaLbo +
      ((cs.getD (vbo / g.sectorSize / g.clusterSectors) 0 - 2) * g.clusterSectors +
        vbo / g.sectorSize % g.clusterSectors) * g.sectorSize + vbo % g.sectorSize := by
  have hmul : g.sectorSize * g.clusterSectors = g.clusterSize := by
    rw [Nat.mul_comm, g.clusterSectors_mul]
  rw [fileLbo, fatGetLboFromIndex, Nat.div_div_eq_div_mul, hmul, ← hmul, Nat.mod_mul]
  ring

/-- The map holds the bytes of the clusters `cs`, and nothing behind them. -/
structure MapsFile (g : Geometry) (mcb : Mcb) (cs : List ℕ) : Prop where
  normal : Runs.Normal mcb
  length : (Runs.cells mcb).length = cs.length * g.clusterSectors
  lookup : ∀ vbo < cs.length * g.clusterSize,
    (fatLookupMcbEntry g mcb vbo).map (·.1) = some (fileLbo g cs vbo)

/-- A byte offset behind the first byte of a sector. -/
theorem fileLbo_sector_add (g : Geometry) (cs : List ℕ) (p : ℕ) {j : ℕ} (hj : j < g.sectorSize) :
    fileLbo g cs (p * g.sectorSize + j) = fileLbo g cs (p * g.sectorSize) + j := by
  have hs := g.sectorSize_pos
  have hdiv : (p * g.sectorSize + j) / g.sectorSize = p := by
    rw [Nat.add_comm, Nat.add_mul_div_right _ _ hs, Nat.div_eq_of_lt hj, Nat.zero_add]
  have hmod : (p * g.sectorSize + j) % g.sectorSize = j := by
    rw [Nat.add_comm, Nat.add_mul_mod_self_right, Nat.mod_eq_of_lt hj]
  rw [fileLbo_eq, fileLbo_eq, hdiv, hmod, Nat.mul_div_cancel _ hs, Nat.mul_mod_left, Nat.add_zero]

namespace MapsFile

variable {mcb : Mcb} {cs : List ℕ}

/-- The sector at position `p` is the one of the file. -/
theorem exists_sector (h : MapsFile g mcb cs) {p : ℕ} (hp : p < cs.length * g.clusterSectors) :
    ∃ l, (Runs.cells mcb)[p]? = some (some l) ∧ l % 2 ^ 32 ≠ 2 ^ 32 - 1 ∧
      l * g.sectorSize = fileLbo g cs (p * g.sectorSize) := by
  have hs := g.sectorSize_pos
  have htwo : 2 ≤ g.sectorSize := by
    have := g.sector_mem
    exact Nat.le_self_pow (by omega) 2
  obtain ⟨⟨base, left, index⟩, hlookup⟩ : ∃ x, Runs.lookup mcb p = some x := by
    rw [← Option.ne_none_iff_exists', Ne, Runs.lookup_eq_none_iff, h.length]
    omega
  have hbyte : p * g.sectorSize + 1 < cs.length * g.clusterSize := by
    have hle : (p + 1) * g.sectorSize ≤ cs.length * g.clusterSectors * g.sectorSize :=
      Nat.mul_le_mul_right _ (by omega)
    rw [mul_clusterSize]
    rw [Nat.add_mul, Nat.one_mul] at hle
    omega
  -- the second byte of the sector tells a hole from sector zero
  have hmap := h.lookup _ hbyte
  have hdiv : (p * g.sectorSize + 1) / g.sectorSize = p := by
    rw [Nat.add_comm, Nat.add_mul_div_right _ _ hs, Nat.div_eq_of_lt htwo, Nat.zero_add]
  rw [fatLookupMcbEntry, hdiv, hlookup, fileLbo_sector_add g cs p htwo] at hmap
  simp only [Option.map_some, Option.some.injEq, Nat.add_comm _ 1, Nat.add_mul_mod_self_right,
    Nat.mod_eq_of_lt htwo] at hmap
  have hcell := Runs.getElem?_cells_of_lookup hlookup (Runs.lookup_spec hlookup).1
  rw [Nat.add_zero] at hcell
  split at hmap
  · omega
  · next hne =>
      cases base with
      | none => exact absurd rfl hne
      | some l =>
          have hhole : ¬ l % 2 ^ 32 = 2 ^ 32 - 1 := fun heq => hne (by rw [mcbLbo, if_pos heq])
          rw [mcbLbo, if_neg hhole] at hmap
          exact ⟨l, by simpa using hcell, hhole, by omega⟩

/-- Such a map is possible only when clusters begin at sectors. -/
theorem aligned (h : MapsFile g mcb cs) (hne : cs ≠ []) : g.sectorSize ∣ g.fileAreaLbo := by
  obtain ⟨l, -, -, hl⟩ := h.exists_sector (p := 0)
    (Nat.mul_pos (List.length_pos_of_ne_nil hne) g.clusterSectors_pos)
  rw [fileLbo_eq, Nat.mul_mod_left, Nat.add_zero] at hl
  exact (Nat.dvd_add_left (Dvd.intro_left _ rfl)).mp ⟨l, by rw [← hl, Nat.mul_comm]⟩

theorem eq_mcbOf (h : MapsFile g mcb cs) : mcb = mcbOf g cs := by
  rcases List.eq_nil_or_concat cs with hnil | ⟨pre, c, hcs⟩
  · have hlen := h.length
    rw [hnil, List.length_nil, Nat.zero_mul, List.length_eq_zero_iff] at hlen
    rw [hnil]
    exact h.normal.ext (normal_mcbOf g []) hlen
  have hal := h.aligned (by rw [hcs]; simp)
  have hs := g.sectorSize_pos
  have harea : g.fileAreaSector * g.sectorSize = g.fileAreaLbo := Nat.div_mul_cancel hal
  apply h.normal.ext (normal_mcbOf g cs)
  apply List.ext_getElem?
  intro p
  by_cases hp : p < cs.length * g.clusterSectors
  · obtain ⟨l, hcell, -, hl⟩ := h.exists_sector hp
    rw [hcell, getElem?_cells_mcbOf g hp]
    rw [fileLbo_eq, Nat.mul_div_cancel _ hs, Nat.mul_mod_left, Nat.add_zero, ← harea,
      ← Nat.add_mul] at hl
    have := Nat.eq_of_mul_eq_mul_right hs hl
    rw [this, Nat.add_assoc]
  · rw [List.getElem?_eq_none (by rw [h.length]; omega),
      List.getElem?_eq_none (by rw [length_cells_mcbOf]; omega)]

theorem plain (h : MapsFile g mcb cs) : Plain (Runs.cells mcb) := by
  intro x hx
  obtain ⟨p, hp, hget⟩ := List.mem_iff_getElem.mp hx
  obtain ⟨l, hcell, hhole, -⟩ := h.exists_sector (p := p) (by rw [← h.length]; exact hp)
  rw [List.getElem?_eq_getElem hp, hget, Option.some.injEq] at hcell
  exact ⟨l, hcell, hhole⟩

end MapsFile

section Byte

variable (hal : g.sectorSize ∣ g.fileAreaLbo) (harea : 0 < g.fileAreaLbo) {cs : List ℕ}
  (hplain : Plain (Runs.cells (mcbOf g cs)))

include hal harea hplain

/-- **A byte of a file in its map**: where it is, and how many bytes follow it. -/
theorem exists_fatLookupMcbEntry (hlen : cs.length * g.clusterSize ≤ 2 ^ 32) {vbo : ℕ}
    (hvbo : vbo < cs.length * g.clusterSize) :
    ∃ byteCount index, fatLookupMcbEntry g (mcbOf g cs) vbo =
        some (fileLbo g cs vbo, byteCount, index) ∧
      0 < byteCount ∧ vbo + byteCount ≤ cs.length * g.clusterSize ∧
      ∀ j < byteCount, fileLbo g cs (vbo + j) = fileLbo g cs vbo + j := by
  have hs := g.sectorSize_pos
  have hmod := Nat.mod_lt vbo hs
  have hsplit := Nat.div_add_mod' vbo g.sectorSize
  have harea' : g.fileAreaSector * g.sectorSize = g.fileAreaLbo := Nat.div_mul_cancel hal
  have hsector : 0 < g.fileAreaSector := by
    by_contra h0
    rw [Nat.eq_zero_of_not_pos h0, Nat.zero_mul] at harea'
    omega
  rw [mul_clusterSize] at hlen hvbo ⊢
  have hp : vbo / g.sectorSize < cs.length * g.clusterSectors := Nat.div_lt_of_lt_mul (by
    rw [Nat.mul_comm]
    exact hvbo)
  obtain ⟨⟨base, left, index⟩, hlookup⟩ :
      ∃ x, Runs.lookup (mcbOf g cs) (vbo / g.sectorSize) = some x := by
    rw [← Option.ne_none_iff_exists', Ne, Runs.lookup_eq_none_iff, length_cells_mcbOf]
    omega
  obtain ⟨hpos, hle, -⟩ := Runs.lookup_spec hlookup
  rw [length_cells_mcbOf] at hle
  -- the sectors of the run, as sectors of the file
  have hcells : ∀ j < left, base.map (· + j) = some (g.fileAreaSector +
      (cs.getD ((vbo / g.sectorSize + j) / g.clusterSectors) 0 - 2) * g.clusterSectors +
        (vbo / g.sectorSize + j) % g.clusterSectors) := by
    intro j hj
    have h1 := Runs.getElem?_cells_of_lookup hlookup hj
    rw [getElem?_cells_mcbOf g (by omega), Option.some.injEq] at h1
    exact h1.symm
  have hbase := hcells 0 hpos
  obtain ⟨l, rfl⟩ : ∃ l, base = some l := by
    cases base with
    | none => simp at hbase
    | some l => exact ⟨l, rfl⟩
  have hhole : ¬ l % 2 ^ 32 = 2 ^ 32 - 1 := by
    have hcell := Runs.getElem?_cells_of_lookup hlookup hpos
    obtain ⟨x, hx, hne⟩ := hplain _ (List.mem_of_getElem? hcell)
    simp only [Option.map_some, Nat.add_zero, Option.some.injEq] at hx
    rwa [hx]
  -- byte by byte the run is the file
  have hbyte : ∀ j, j < left * g.sectorSize - vbo % g.sectorSize →
      fileLbo g cs (vbo + j) = l * g.sectorSize + vbo % g.sectorSize + j := by
    intro j hj
    have hdiv : (vbo + j) / g.sectorSize =
        vbo / g.sectorSize + (vbo % g.sectorSize + j) / g.sectorSize := by
      conv_lhs => rw [← hsplit, Nat.add_assoc, Nat.add_comm, Nat.add_mul_div_right _ _ hs,
        Nat.add_comm]
    have hlt : (vbo % g.sectorSize + j) / g.sectorSize < left := Nat.div_lt_of_lt_mul (by
      rw [Nat.mul_comm]
      omega)
    have hcell := hcells _ hlt
    rw [← hdiv, Option.map_some, Option.some.injEq] at hcell
    have hmod' := Nat.div_add_mod' (vbo % g.sectorSize + j) g.sectorSize
    have hmodeq : (vbo + j) % g.sectorSize = (vbo % g.sectorSize + j) % g.sectorSize := by
      rw [Nat.mod_add_mod]
    rw [fileLbo_eq, hmodeq, ← harea', ← Nat.add_mul, ← Nat.add_assoc, ← hcell, Nat.add_mul]
    omega
  have hfirst := hbyte 0 (by
    have := Nat.le_mul_of_pos_left g.sectorSize hpos
    omega)
  rw [Nat.add_zero, Nat.add_zero] at hfirst
  have hlpos : 0 < l := by
    rw [Option.map_some, Option.some.injEq] at hbase
    omega
  have hlbo : mcbLbo g (some l) = l * g.sectorSize := by rw [mcbLbo, if_neg hhole]
  have hbytes : vbo / g.sectorSize * g.sectorSize + left * g.sectorSize ≤
      cs.length * g.clusterSectors * g.sectorSize := by
    rw [← Nat.add_mul]
    exact Nat.mul_le_mul_right _ hle
  -- 4 GB have the byte count `0xffffffff`
  have hcount : mcbByteCount g left ≤ left * g.sectorSize ∧ g.sectorSize ≤ mcbByteCount g left := by
    have hone := Nat.le_mul_of_pos_left g.sectorSize hpos
    have hle12 : g.sectorSize ≤ 2 ^ 12 :=
      Nat.pow_le_pow_right (by norm_num) g.sector_mem.2
    rw [mcbByteCount, ulong]
    by_cases hmax : left * g.sectorSize = 2 ^ 32
    · rw [hmax, if_pos ⟨by norm_num, by omega⟩]
      omega
    · rw [Nat.mod_eq_of_lt (by omega), if_neg (by omega)]
      omega
  refine ⟨mcbByteCount g left - vbo % g.sectorSize, index, ?_, by omega, by omega, fun j hj => ?_⟩
  · rw [fatLookupMcbEntry, hlookup, Option.map_some, hlbo, if_neg (Nat.mul_pos hlpos hs).ne', hfirst]
  · rw [hbyte j (by omega), hfirst]

theorem mapsFile_mcbOf (hlen : cs.length * g.clusterSize ≤ 2 ^ 32) : MapsFile g (mcbOf g cs) cs := by
  refine ⟨normal_mcbOf g cs, length_cells_mcbOf g cs, fun vbo hvbo => ?_⟩
  obtain ⟨_, _, heq, -⟩ := exists_fatLookupMcbEntry hal harea hplain hlen hvbo
  rw [heq, Option.map_some]

end Byte

/-! ## The routines -/

/-- An entry is written with one access to the FAT. -/
theorem sat_fatSetFatEntry_io {vol : Volume} {i : ℕ} (e : ℕ) (h2 : 2 ≤ i)
    (hi : i ≤ g.numberOfClusters + 1) :
    Sat (fatSetFatEntry g i e) vol
      (fun _ vol' => vol.io ≠ some 0 ∧ vol'.io = vol.io.map (· - 1)) (fun _ _ => vol.io = some 0) := by
  rw [fatSetFatEntry, if_neg (by omega)]
  simp only [pure_bind]
  apply Sat.bind ((sat_fatVerifyIndexIsValid h2 hi).mono (fun _ _ h => h) (fun _ _ h => h.elim))
  intro _ t ht
  subst ht
  apply Sat.bind (R := fun _ t' => t.io ≠ some 0 ∧ t'.io = t.io.map (· - 1))
  · rw [Sat, access]
    cases hio : t.io with
    | none => exact ⟨by simp, hio⟩
    | some n =>
        cases n with
        | zero => rfl
        | succ n => exact ⟨by simp, rfl⟩
  · intro _ t' ht'
    exact Sat.modify ht'

/-- The table with another value at one index. -/
def entrySet (w : FatWidth) (e : ℕ → ℕ) (index value j : ℕ) : ℕ :=
  if j = index then value % 2 ^ w.linkBits else e j

/-- One entry of the FAT is written on a pair. -/
theorem McbPair.sat_setEntry {p : McbPair} {i : ℕ} (e : ℕ) (hi : i ∈ g.clusters) :
    Sat (McbPair.onVol (fatSetFatEntry g i e)) p
      (fun _ p' => ∃ vol, p' = { p with vcb := { p.vcb with vol := vol } } ∧
        p.vcb.vol.Wrote vol g.width (entrySet g.width (lookupEntry g.width p.vcb.vol.fat) i e) ∧
        p.vcb.vol.io ≠ some 0 ∧ vol.io = p.vcb.vol.io.map (· - 1))
      (fun s p' => s = .raised .deviceError ∧ p.vcb.vol.io = some 0 ∧
        ∃ vol, p' = { p with vcb := { p.vcb with vol := vol } } ∧
          p.vcb.vol.Faulted vol g.width) := by
  have hi := Geometry.mem_clusters.mp hi
  apply Sat.onPart
  apply Sat.onPart
  refine ((sat_fatSetFatEntry e hi.1 (by omega)).and
    (sat_fatSetFatEntry_io e hi.1 (by omega))).mono ?_ ?_
  · rintro _ vol ⟨hwrote, hio, hio'⟩
    exact ⟨vol, rfl, hwrote, hio, hio'⟩
  · rintro s vol ⟨⟨hs, hfault⟩, hio⟩
    exact ⟨hs, hio, vol, rfl, hfault⟩

section Split

variable {cs : List ℕ} (hplain : Plain (Runs.cells (mcbOf g cs)))
  (hlen : cs.length * g.clusterSize ≤ 2 ^ 32) {k : ℕ} (hk : 0 < k) (hlt : k < cs.length)

include hplain hlen hk hlt

/-- The first loop of the split cuts the list of clusters. -/
theorem moveRuns_split :
    moveRuns g true (mcbSize (mcbOf g cs) + 1) (mcbOf g cs, []) (k * g.clusterSize) 0 =
      (mcbOf g (cs.take k), mcbOf g (cs.drop k)) := by
  have hlenS := length_cells_mcbOf g cs
  have hsplit := cells_mcbOf_append g (cs.take k) (cs.drop k)
  have hlenk : (Runs.cells (mcbOf g (cs.take k))).length = k * g.clusterSectors := by
    rw [length_cells_mcbOf, List.length_take, min_eq_left hlt.le]
  rw [List.take_append_drop] at hsplit
  have hK : k * g.clusterSectors ≤ cs.length * g.clusterSectors := Nat.mul_le_mul_right _ hlt.le
  have hbytes : ∀ n, n * g.clusterSectors * g.sectorSize = n * g.clusterSize := fun n =>
    (mul_clusterSize g n).symm
  have hklt : k * g.clusterSize < cs.length * g.clusterSize :=
    Nat.mul_lt_mul_of_pos_right hlt g.clusterSize_pos
  have hkpos := Nat.mul_pos hk g.clusterSize_pos
  have hrest : (cs.length * g.clusterSectors - k * g.clusterSectors) * g.sectorSize =
      cs.length * g.clusterSize - k * g.clusterSize := by
    rw [Nat.sub_mul, hbytes, hbytes]
  have hspec := @moveRuns_spec g (Runs.cells (mcbOf g cs)) [] (k * g.clusterSectors) 0
    (mcbSize (mcbOf g cs) + 1) true (mcbOf g cs) [] hplain trivial (normal_mcbOf g cs)
    (by
      rw [List.replicate_zero, List.append_nil, Nat.add_zero, List.take_append_drop,
        hplain.stripHoles])
    (by rw [List.take_zero]; rfl) (by rw [hlenS]; omega) (by rw [mcbSize_eq]; omega)
    (by rw [Nat.add_zero, hbytes]; omega) (by rw [hlenS, hrest]; omega)
    (by rw [hlenS, hbytes]; exact hlen) (Or.inl rfl)
    (by rw [List.length_nil, Nat.zero_add, hlenS, hrest]; omega)
  simp only [Nat.add_zero, hbytes, List.length_nil, Nat.zero_mul, List.nil_append] at hspec
  rw [hsplit, List.take_left' hlenk, List.drop_left' hlenk] at hspec
  obtain ⟨h1, h2, h3, h4⟩ := hspec
  exact Prod.ext (eq_mcbOf h1 h3) (eq_mcbOf h2 h4)

/-- The loop of the unwind glues the lists together. -/
theorem moveRuns_glue :
    moveRuns g false (mcbSize (mcbOf g (cs.drop k)) + 1)
      (mcbOf g (cs.drop k), mcbOf g (cs.take k)) 0 (k * g.clusterSize) = ([], mcbOf g cs) := by
  have hsplit := cells_mcbOf_append g (cs.take k) (cs.drop k)
  rw [List.take_append_drop] at hsplit
  have hlenS : (Runs.cells (mcbOf g (cs.drop k))).length =
      (cs.length - k) * g.clusterSectors := by
    rw [length_cells_mcbOf, List.length_drop]
  have hlenT : (Runs.cells (mcbOf g (cs.take k))).length = k * g.clusterSectors := by
    rw [length_cells_mcbOf, List.length_take, min_eq_left hlt.le]
  have hplain : Plain (Runs.cells (mcbOf g (cs.drop k))) := hplain.mcbOf_drop k
  have hbytes : ∀ n, n * g.clusterSectors * g.sectorSize = n * g.clusterSize := fun n =>
    (mul_clusterSize g n).symm
  have hsum : k * g.clusterSize + (cs.length - k) * g.clusterSize =
      cs.length * g.clusterSize := by
    rw [← Nat.add_mul, Nat.add_sub_cancel' hlt.le]
  have hkpos := Nat.mul_pos hk g.clusterSize_pos
  have hspec := @moveRuns_spec g (Runs.cells (mcbOf g (cs.drop k)))
    (Runs.cells (mcbOf g (cs.take k))) 0 0 (mcbSize (mcbOf g (cs.drop k)) + 1) false
    (mcbOf g (cs.drop k)) (mcbOf g (cs.take k)) hplain (normal_mcbOf g _)
    (normal_mcbOf g _)
    (by
      rw [List.replicate_zero, List.take_zero, List.nil_append, List.nil_append, Nat.add_zero,
        List.drop_zero, hplain.stripHoles])
    (by rw [List.take_zero, List.append_nil]) (by omega) (by rw [mcbSize_eq]; omega)
    (by rw [Nat.zero_add, Nat.zero_mul]; norm_num) (by rw [hlenS, Nat.sub_zero, hbytes]; omega)
    (by rw [hlenS, hbytes]; omega) (Or.inr (by rw [hlenS, hbytes]; omega))
    (by rw [hlenT, hlenS, Nat.sub_zero, Nat.add_mul, hbytes, hbytes]; omega)
  have hkt : k * g.clusterSize < 2 ^ 32 := by
    have := Nat.mul_lt_mul_of_pos_right hlt g.clusterSize_pos
    omega
  simp only [Nat.add_zero, Nat.zero_mul, hlenT, hbytes, ulong_of_lt hkt, List.take_zero,
    List.drop_zero] at hspec
  rw [← hsplit] at hspec
  obtain ⟨h1, h2, h3, h4⟩ := hspec
  exact Prod.ext (h1.ext trivial h3) (eq_mcbOf h2 h4)

/-- **Split.**  The map is cut at a cluster, and the cluster in front of the cut gets the end
mark.  When that fails, everything is as it was. -/
theorem sat_fatSplitAllocation (hal : g.sectorSize ∣ g.fileAreaLbo)
    (hcs : ∀ c ∈ cs, c ∈ g.clusters) {v : Vcb} :
    Sat (fatSplitAllocation g (k * g.clusterSize)) ⟨v, mcbOf g cs, []⟩
      (fun _ p => ∃ vol, p = ⟨{ v with vol := vol }, mcbOf g (cs.take k), mcbOf g (cs.drop k)⟩ ∧
        v.vol.Wrote vol g.width (entrySet g.width (lookupEntry g.width v.vol.fat) cs[k - 1]
          fatClusterLast) ∧ v.vol.io ≠ some 0 ∧ vol.io = v.vol.io.map (· - 1))
      (fun s p => s = .raised .deviceError ∧ v.vol.io = some 0 ∧
        ∃ vol, p = ⟨{ v with vol := vol }, mcbOf g cs, []⟩ ∧ v.vol.Faulted vol g.width) := by
  have hkpos := Nat.mul_pos hk g.clusterSize_pos
  have hne : cs.take k ≠ [] := by
    rw [Ne, List.take_eq_nil_iff]
    rintro (h | h)
    · omega
    · rw [h, List.length_nil] at hlt
      omega
  have hlast : (cs.take k).getLast hne = cs[k - 1] := by
    rw [List.getLast_eq_getElem, List.getElem_take]
    congr 1
    rw [List.length_take, min_eq_left hlt.le]
  have hindex : fatGetIndexFromLbo g
      (fatLookupLastMcbEntry g (mcbOf g (cs.take k))).2.2 = cs[k - 1] := by
    have hle : (cs.take k).length * g.clusterSize ≤ 2 ^ 32 :=
      (Nat.mul_le_mul_right _ (by rw [List.length_take]; omega)).trans hlen
    have hsize := g.clusterSize_pos
    rw [fatLookupLastMcbEntry_mcbOf hal (hplain.mcbOf_take k) hne hle, hlast]
    exact fatGetIndexFromLbo_lbo (hcs _ (List.getElem_mem _)) (by omega)
  rw [fatSplitAllocation]
  apply Sat.protect
  apply Sat.modify_bind
  dsimp only
  rw [moveRuns_split hplain hlen hk hlt, if_pos hkpos.ne']
  apply Sat.get_bind
  dsimp only
  rw [hindex]
  refine (McbPair.sat_setEntry _ (hcs _ (List.getElem_mem _))).mono ?_ ?_
  · rintro _ p ⟨vol, hp, hwrote⟩
    exact ⟨vol, hp, hwrote⟩
  · rintro s p ⟨hs, hio, vol, hp, hfault⟩
    rw [hs, if_pos (Stop.isRaised_raised _), hp]
    refine Sat.modify ⟨rfl, hio, vol, ?_, hfault⟩
    rw [unwindSplit]
    dsimp only
    rw [moveRuns_glue hplain hlen hk hlt]

end Split

section Merge

variable (hal : g.sectorSize ∣ g.fileAreaLbo) {cs ds : List ℕ}
  (hplain : Plain (Runs.cells (mcbOf g (cs ++ ds)))) (hcs : ∀ c ∈ cs, c ∈ g.clusters)
  (hds : ∀ c ∈ ds, c ∈ g.clusters) (hcs0 : cs ≠ []) (hds0 : ds ≠ [])
  (hlen : (cs.length + ds.length) * g.clusterSize ≤ 2 ^ 32)

include hal hplain hcs hds hcs0 hds0 hlen

/-- **Merge.**  The second list is appended to the first, and the last cluster of the first is
linked to the first of the second.  When that fails, everything is as it was. -/
theorem sat_fatMergeAllocation {v : Vcb} :
    Sat (fatMergeAllocation g) ⟨v, mcbOf g cs, mcbOf g ds⟩
      (fun _ p => ∃ vol, p = ⟨{ v with vol := vol }, mcbOf g (cs ++ ds), mcbOf g ds⟩ ∧
        v.vol.Wrote vol g.width (entrySet g.width (lookupEntry g.width v.vol.fat)
          (cs.getLast hcs0) (ds.head hds0)) ∧ v.vol.io ≠ some 0)
      (fun s p => s = .raised .deviceError ∧ v.vol.io = some 0 ∧
        ∃ vol, p = ⟨{ v with vol := vol }, mcbOf g cs, mcbOf g ds⟩ ∧
          v.vol.Faulted vol g.width) := by
  have hsize := g.clusterSize_pos
  have hcpos := Nat.mul_pos (List.length_pos_of_ne_nil hcs0) hsize
  have hdpos := Nat.mul_pos (List.length_pos_of_ne_nil hds0) hsize
  rw [Nat.add_mul] at hlen
  have hbytes : ∀ n, n * g.clusterSectors * g.sectorSize = n * g.clusterSize := fun n =>
    (mul_clusterSize g n).symm
  have hplainc := hplain.mcbOf_append_left
  have hplaind := hplain.mcbOf_append_right
  have hlast := fatLookupLastMcbEntry_mcbOf hal hplainc hcs0 (by omega)
  have hindex := fatGetIndexFromLbo_lbo (g := g) (hcs _ (List.getLast_mem hcs0))
    (j := g.clusterSize - 1) (by omega)
  have hfirst : fatGetIndexFromLbo g (firstLbo g (mcbOf g ds)) = ds.head hds0 := by
    obtain ⟨d, ds', rfl⟩ := List.exists_cons_of_ne_nil hds0
    rw [firstLbo_mcbOf hal hplaind]
    exact fatGetIndexFromLbo_lbo (j := 0) (hds d (by simp)) hsize
  have happend : appendRuns g (mcbOf g ds) (mcbSize (mcbOf g ds) + 1) (mcbOf g cs) 0
      (ulong (cs.length * g.clusterSize)) =
        (mcbOf g (cs ++ ds), ulong ((cs.length + ds.length) * g.clusterSize)) := by
    have hspec := @appendRuns_spec g (Runs.cells (mcbOf g ds)) (Runs.cells (mcbOf g cs)) 0
      (mcbSize (mcbOf g ds) + 1) (mcbOf g cs) (mcbOf g ds) hplaind rfl
      (normal_mcbOf g cs) (by rw [List.take_zero, List.append_nil]) (by omega)
      (by rw [mcbSize_eq]; omega) (by rw [length_cells_mcbOf, hbytes]; omega)
      (by rw [length_cells_mcbOf, length_cells_mcbOf, Nat.add_mul, hbytes, hbytes]; omega)
    simp only [Nat.add_zero, Nat.zero_mul, length_cells_mcbOf, hbytes, ← Nat.add_mul,
      ← cells_mcbOf_append] at hspec
    exact Prod.ext (eq_mcbOf hspec.1 hspec.2.1) hspec.2.2
  have hundo : unwindMerge g (cs.length * g.clusterSize - 1)
      (ulong ((cs.length + ds.length) * g.clusterSize)) = fun p => { p with
        mcb := Runs.remove p.mcb (cs.length * g.clusterSectors)
          (ds.length * g.clusterSectors) } := by
    have hcut : ulongSub (ulong ((cs.length + ds.length) * g.clusterSize))
        (cs.length * g.clusterSize) = ds.length * g.clusterSize := by
      rw [ulongSub, ulong, Nat.add_mul]
      omega
    funext p
    have hlt : cs.length * g.clusterSize < 2 ^ 32 := by omega
    rw [unwindMerge, Nat.sub_add_cancel hcpos, ulong_of_lt hlt]
    simp only [hcut, if_pos hdpos.ne']
    rw [mul_clusterSize, mul_clusterSize, fatRemoveMcbEntry_sectors]
  have hback : Runs.remove (mcbOf g (cs ++ ds)) (cs.length * g.clusterSectors)
      (ds.length * g.clusterSectors) = mcbOf g cs := by
    apply eq_mcbOf (Runs.normal_remove _ _ _)
    rw [Runs.cells_remove_end (by rw [length_cells_mcbOf, List.length_append, Nat.add_mul]),
      cells_mcbOf_append, List.take_left' (length_cells_mcbOf g cs), hplainc.stripHoles]
  rw [fatMergeAllocation]
  apply Sat.get_bind
  dsimp only
  rw [hlast]
  dsimp only
  rw [Nat.sub_add_cancel hcpos, happend, hundo, hindex, hfirst]
  apply Sat.protect
  apply Sat.set_bind
  refine (McbPair.sat_setEntry _ (hcs _ (List.getLast_mem hcs0))).mono ?_ ?_
  · rintro _ p ⟨vol, hp, hwrote, hio, _⟩
    exact ⟨vol, hp, hwrote, hio⟩
  · rintro s p ⟨hs, hio, vol, hp, hfault⟩
    rw [hs, if_pos (Stop.isRaised_raised _), hp]
    refine Sat.modify ⟨rfl, hio, vol, ?_, hfault⟩
    dsimp only
    rw [hback]

end Merge

/-! ## Splitting and merging -/

/-- The two maps of a pair are those of two files, `as` and `bs`. -/
structure TwoChains (g : Geometry) (p : McbPair) (as bs : List ℕ) : Prop where
  mcb : p.mcb = mcbOf g as
  other : p.other = mcbOf g bs
  chain : Leads (fatLink g.width p.vcb.vol.fat) as .last
  otherChain : Leads (fatLink g.width p.vcb.vol.fat) bs .last

/-- The map of the file `cs` can be split in front of its cluster `k` into two files, and
merging these restores the map and the FAT.  A routine that raises leaves the maps as they
were. -/
structure SplitsAndMerges (g : Geometry) (mcb : Mcb) (cs : List ℕ) (k : ℕ) (v : Vcb) : Prop where
  split : Sat (fatSplitAllocation g (k * g.clusterSize)) ⟨v, mcb, []⟩
    (fun _ p => TwoChains g p (cs.take k) (cs.drop k) ∧
      Runs.cells p.mcb ++ Runs.cells p.other = Runs.cells mcb ∧
      Sat (fatMergeAllocation g) p
        (fun _ p' => p'.mcb = mcb ∧ Leads (fatLink g.width p'.vcb.vol.fat) cs .last ∧
          ∀ j, lookupEntry g.width p'.vcb.vol.fat j = lookupEntry g.width v.vol.fat j)
        (fun _ p' => p'.mcb = p.mcb ∧ p'.other = p.other))
    (fun _ p => v.vol.io = some 0 ∧ p.mcb = mcb ∧ p.other = [])
  merge : ∀ v', Sat (fatMergeAllocation g) ⟨v', mcbOf g (cs.take k), mcbOf g (cs.drop k)⟩
    (fun _ p => p.mcb = mcb)
    (fun _ p => v'.vol.io = some 0 ∧ p.mcb = mcbOf g (cs.take k) ∧ p.other = mcbOf g (cs.drop k))

/-- An entry that was set links elsewhere. -/
theorem linkOf_entrySet_self (w : FatWidth) (e : ℕ → ℕ) (c value : ℕ) :
    linkOf w (entrySet w e c value c) = linkOf w (value % 2 ^ w.linkBits) := by
  rw [entrySet, if_pos rfl]

theorem linkOf_entrySet_of_ne (w : FatWidth) (e : ℕ → ℕ) {c j : ℕ} (value : ℕ) (h : j ≠ c) :
    linkOf w (entrySet w e c value j) = linkOf w (e j) := by
  rw [entrySet, if_neg h]

/-- The end mark in front of cluster `k` cuts a chain. -/
theorem Leads.cut {w : FatWidth} {e : ℕ → ℕ} {cs : List ℕ} {k : ℕ}
    (h : Leads (fun c => linkOf w (e c)) cs .last) (hk : 0 < k) (hlt : k < cs.length) :
    let e' := entrySet w e cs[k - 1] fatClusterLast
    Leads (fun c => linkOf w (e' c)) (cs.take k) .last ∧
      Leads (fun c => linkOf w (e' c)) (cs.drop k) .last ∧ e cs[k - 1] = cs[k] := by
  intro e'
  have hnodup := h.nodup
  have hne : cs.take k ≠ [] := by
    rw [Ne, List.take_eq_nil_iff]
    rintro (h0 | h0)
    · omega
    · rw [h0, List.length_nil] at hlt
      omega
  have hlast : (cs.take k).getLast hne = cs[k - 1] := by
    rw [List.getLast_eq_getElem, List.getElem_take]
    congr 1
    rw [List.length_take, min_eq_left hlt.le]
  have hdrop : cs.drop k = cs[k] :: cs.drop (k + 1) := List.drop_eq_getElem_cons hlt
  have hsplit : cs.take k ++ cs[k] :: cs.drop (k + 1) = cs := by
    rw [← hdrop, List.take_append_drop]
  have hboth : Leads (fun c => linkOf w (e c)) (cs.take k ++ cs[k] :: cs.drop (k + 1)) .last := by
    rw [hsplit]
    exact h
  obtain ⟨hfront, hback⟩ := (Leads.append_iff hne).mp hboth
  refine ⟨?_, ?_, ?_⟩
  · refine hfront.retarget hne (hnodup.sublist (List.take_sublist k cs)) ?_ ?_
    · intro a _ ha
      rw [hlast] at ha
      exact linkOf_entrySet_of_ne w e _ ha
    · rw [hlast]
      exact (linkOf_entrySet_self w e _ _).trans (linkOf_last w)
  · rw [hdrop]
    refine hback.congr fun a ha => linkOf_entrySet_of_ne w e _ ?_
    -- a cluster behind the cut is not the one in front of it
    rintro rfl
    have hdis := List.disjoint_of_nodup_append (hsplit.symm ▸ hnodup)
    exact hdis (hlast ▸ List.getLast_mem hne) ha
  · have hlink : linkOf w (e cs[k - 1]) = .next cs[k] := by
      rw [← hlast]
      exact hfront.link_getLast hne
    exact (entry_of_link_next hlink).2

/-- **Split and merge are inverse** for every file and every cluster inside it. -/
theorem splitsAndMerges {cs : List ℕ} (hcs : ∀ c ∈ cs, c ∈ g.clusters)
    (hlen : cs.length * g.clusterSize ≤ 2 ^ 32) {mcb : Mcb} (hmap : MapsFile g mcb cs) {v : Vcb}
    (hchain : Leads (fatLink g.width v.vol.fat) cs .last) {k : ℕ} (hk : 0 < k)
    (hlt : k < cs.length) : SplitsAndMerges g mcb cs k v := by
  have hmcb := hmap.eq_mcbOf
  have hal := hmap.aligned hchain.ne_nil
  have hplain := hmap.plain
  rw [hmcb] at hplain
  have happend : cs.take k ++ cs.drop k = cs := List.take_append_drop k cs
  have htake : ∀ c ∈ cs.take k, c ∈ g.clusters := fun c hc => hcs c (List.mem_of_mem_take hc)
  have hdrop : ∀ c ∈ cs.drop k, c ∈ g.clusters := fun c hc => hcs c (List.mem_of_mem_drop hc)
  have htake0 : cs.take k ≠ [] := List.ne_nil_of_length_pos (by rw [List.length_take]; omega)
  have hdrop0 : cs.drop k ≠ [] := List.ne_nil_of_length_pos (by rw [List.length_drop]; omega)
  have hsum : ((cs.take k).length + (cs.drop k).length) * g.clusterSize ≤ 2 ^ 32 := by
    rw [← List.length_append, happend]
    exact hlen
  have hlast : (cs.take k).getLast htake0 = cs[k - 1] := by
    rw [List.getLast_eq_getElem, List.getElem_take]
    congr 1
    rw [List.length_take, min_eq_left hlt.le]
  have hhead : (cs.drop k).head hdrop0 = cs[k] := by
    simp only [List.drop_eq_getElem_cons hlt, List.head_cons]
  have hmerge := fun v' : Vcb => sat_fatMergeAllocation hal
    (happend.symm ▸ hplain) htake hdrop htake0 hdrop0 hsum (v := v')
  simp only [happend, hlast, hhead] at hmerge
  obtain ⟨hfirst, hsecond, hentry⟩ := Leads.cut hchain hk hlt
  rw [hmcb]
  constructor
  · refine (sat_fatSplitAllocation hplain hlen hk hlt hal hcs).mono ?_ ?_
    · rintro _ p ⟨vol, hp, hwrote, _⟩
      have hcells := cells_mcbOf_append g (cs.take k) (cs.drop k)
      rw [happend] at hcells
      rw [hp]
      refine ⟨⟨rfl, rfl, ?_, ?_⟩, hcells.symm, ?_⟩
      · exact hfirst.congr fun a _ => congrArg (linkOf g.width) (hwrote.entry a)
      · exact hsecond.congr fun a _ => congrArg (linkOf g.width) (hwrote.entry a)
      · refine (hmerge _).mono ?_ ?_
        · rintro _ p' ⟨vol', hp', hwrote', _⟩
          have hback : ∀ j, lookupEntry g.width p'.vcb.vol.fat j =
              lookupEntry g.width v.vol.fat j := by
            intro j
            rw [hp', hwrote'.entry, entrySet, hwrote.entry, entrySet]
            split
            · next hj =>
                rw [hj, ← hentry, Nat.mod_eq_of_lt (lookupEntry_lt _ _ _)]
            · rfl
          refine ⟨by rw [hp'], hchain.congr fun a _ => ?_, hback⟩
          exact congrArg (linkOf g.width) (hback a)
        · rintro _ p' ⟨-, -, vol', hp', -⟩
          rw [hp']
          exact ⟨rfl, rfl⟩
    · rintro _ p ⟨-, hio, vol, hp, -⟩
      rw [hp]
      exact ⟨hio, rfl, rfl⟩
  · intro v'
    refine (hmerge v').mono ?_ ?_
    · rintro _ p ⟨vol, hp, _⟩
      rw [hp]
    · rintro _ p ⟨-, hio, vol, hp, -⟩
      rw [hp]
      exact ⟨hio, rfl, rfl⟩

/-- A diskette on which cluster 2 links to cluster 3 and the chain ends there. -/
def linkedFat : Bytes := storeEntry .fat12 (storeEntry .fat12 (fun _ => 0) 2 3) 3 0xfff

theorem leads_linkedFat : Leads (fatLink .fat12 linkedFat) [2, 3] .last := by
  refine ⟨by decide, ?_⟩
  change linkOf .fat12 (lookupEntry .fat12 linkedFat 3) = .last
  decide

/-- A file of two clusters on a diskette is split behind the first. -/
theorem splitsAndMerges_floppy :
    SplitsAndMerges floppy (mcbOf floppy [2, 3]) [2, 3] 1 (unmounted ⟨linkedFat, [], none⟩) := by
  have hcs : ∀ c ∈ [2, 3], c ∈ floppy.clusters := by
    intro c hc
    rw [Geometry.mem_clusters, floppy_numberOfClusters]
    simp only [List.mem_cons, List.not_mem_nil, or_false] at hc
    omega
  have hlen : [2, 3].length * floppy.clusterSize ≤ 2 ^ 32 := by
    have hle := floppy.clusterSize_le
    simp only [List.length_cons, List.length_nil]
    omega
  refine splitsAndMerges hcs hlen
    (mapsFile_mcbOf floppy_sound.aligned (by decide) (plain_mcbOf floppy_sound.sectors hcs) hlen) ?_
    (by norm_num) (by simp)
  rw [floppy_width]
  exact leads_linkedFat

end KernelDrivers.Fat
