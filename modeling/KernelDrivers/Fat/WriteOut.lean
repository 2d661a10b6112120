import KernelDrivers.Fat.DirtyFat
import KernelDrivers.Fat.NonCachedIo

/-!
# Writing out the dirty sectors of the FAT

The branch of `FatCommonWrite` for the virtual volume file.  A write range is cut to the sectors
from its first dirty one to the end of its last dirty run, the same bytes are sent to every copy of
the FAT in one transfer each, and the sectors are taken out of `DirtyFatMcb` when all went well.

Everything is computed in 32 bits.  The place of a later copy, `Fat * BytesPerFat +
StartingDirtyVbo`, wraps when the copies reach 4 GB.

## Main definitions

* `dirtyRuns`, `fatWriteVolumeFile` — the loop over the dirty runs and the branch.
* `DirtyFatMcb`, `WriteRange` — the maps and the requests.
* `WritesOut` — what is written is what should be.
* `CopiesReachable`, `RunsRound` — the condition.

## Main results

* `exists_dirtyRuns_eq` — the loop finds the end of the last dirty run.
* `writesOut_iff` — when a request writes all and only what it should.
-/

namespace KernelDrivers.Fat

/-- How the loop over the dirty runs ends. -/
inductive RunScan
  | bugCheck
  | last (dirtyVbo dirtyByteCount : ℕ)
  deriving DecidableEq, Repr

/-- The loop over the dirty runs of the write range, at `DirtyVbo`: at most `fuel` passes. -/
def dirtyRuns (g : Geometry) (mcb : Mcb) (startingVbo byteCount : ℕ) : ℕ → ℕ → Option RunScan
  | 0, _ => none
  | fuel + 1, dirtyVbo =>
      match fatLookupMcbEntry g mcb dirtyVbo with
      | none => some .bugCheck
      | some (dirtyLbo, dirtyByteCount, _) =>
          if ulong (startingVbo + byteCount) ≤ ulong (ulong dirtyLbo + dirtyByteCount) then
            some (.last (ulong dirtyLbo)
              (ulongSub (ulong (startingVbo + byteCount)) (ulong dirtyLbo)))
          else
            match fatLookupMcbEntry g mcb (ulong (ulong dirtyLbo + dirtyByteCount)) with
            | none => some (.last (ulong dirtyLbo) dirtyByteCount)
            | some (_, cleanByteCount, _) =>
                if ulong (startingVbo + byteCount) ≤
                    ulong (ulong dirtyLbo + dirtyByteCount + cleanByteCount) then
                  some (.last (ulong dirtyLbo) dirtyByteCount)
                else
                  dirtyRuns g mcb startingVbo byteCount fuel
                    (ulong (ulong dirtyLbo + (dirtyByteCount + cleanByteCount)))

/-- How a write of the volume file ends. -/
inductive WriteOut
  | nothingDirty
  | bugCheck
  | written (ioRuns : List IoRun) (dirtyFatMcb : Mcb)
  | raised (ioRuns : List IoRun)
  deriving DecidableEq, Repr

/-- What follows the loop: a transfer for each copy of the FAT, and the sectors are clean when all
of them went well. -/
def finishWrite (g : Geometry) (b : Bpb) (mcb : Mcb) (startingVbo startingDirtyVbo : ℕ)
    (success : Bool) : RunScan → WriteOut
  | .bugCheck => .bugCheck
  | .last dirtyVbo dirtyByteCount =>
      let writeLength := ulongSub (ulong (dirtyVbo + dirtyByteCount)) startingDirtyVbo
      let ioRuns := (List.range b.fats.toNat).map fun fat =>
        { vbo := startingDirtyVbo
          lbo := ulong (ulong (fat * fatBytesPerFat b) + startingDirtyVbo)
          offset := ulongSub startingDirtyVbo startingVbo
          byteCount := writeLength }
      if success then .written ioRuns (fatRemoveMcbEntry g mcb startingDirtyVbo writeLength)
      else .raised ioRuns

/-- The branch of `FatCommonWrite` for the virtual volume file.  `success` is what the device
answers to the transfers. -/
def fatWriteVolumeFile (g : Geometry) (b : Bpb) (mcb : Mcb) (startingVbo byteCount : ℕ)
    (success : Bool) (fuel : ℕ) : Option WriteOut :=
  if byteCount = 0 then some .nothingDirty
  else
    match fatLookupMcbEntry g mcb startingVbo with
    | none => some .nothingDirty
    | some (dirtyLbo, dirtyByteCount, _) =>
        if dirtyLbo = 0 ∧ byteCount ≤ dirtyByteCount then some .nothingDirty
        else
          let startingDirtyVbo :=
            if ulong dirtyLbo = 0 then ulong (startingVbo + dirtyByteCount) else ulong dirtyLbo
          (dirtyRuns g mcb startingVbo byteCount fuel startingDirtyVbo).map
            (finishWrite g b mcb startingVbo startingDirtyVbo success)

variable {g : Geometry} {b : Bpb} {mcb mcb' : Mcb} {s n d k fuel : ℕ} {success : Bool}

/-! ## The map, run by run -/

/-- `DirtyFatMcb`: dirty sectors are sent to themselves, the rest is holes, and there is none at the
end.  The boot sector is never dirty, and offsets have 32 bits. -/
structure DirtyFatMcb (g : Geometry) (mcb : Mcb) : Prop extends SectorMap mcb where
  boot : 0 ∉ dirtySectors mcb
  fits : (Runs.cells mcb).length * g.sectorSize ≤ 2 ^ 32

namespace DirtyFatMcb

theorem lt_length (hk : k ∈ dirtySectors mcb) : k < (Runs.cells mcb).length :=
  (List.getElem?_eq_some_iff.mp hk).1

theorem pos_of_dirty (h : DirtyFatMcb g mcb) (hk : k ∈ dirtySectors mcb) : 0 < k := by
  rcases Nat.eq_zero_or_pos k with rfl | hpos
  · exact absurd hk h.boot
  · exact hpos

/-- A sector of the map is at an offset of 32 bits. -/
theorem mul_le (h : DirtyFatMcb g mcb) (hk : k ≤ (Runs.cells mcb).length) :
    k * g.sectorSize ≤ 2 ^ 32 :=
  (Nat.mul_le_mul_right _ hk).trans h.fits

theorem mul_lt (h : DirtyFatMcb g mcb) (hk : k < (Runs.cells mcb).length) :
    k * g.sectorSize < 2 ^ 32 := by
  have hs := g.sectorSize_pos
  have hle := h.mul_le (k := k + 1) hk
  rw [Nat.add_mul] at hle
  omega

/-- Fewer sectors than 4 GB as a byte count. -/
theorem mcbByteCount_eq (hpos : 0 < k) (hlt : k * g.sectorSize < 2 ^ 32) :
    mcbByteCount g k = k * g.sectorSize := by
  have hmul : 0 < k * g.sectorSize := Nat.mul_pos hpos g.sectorSize_pos
  rw [mcbByteCount, ulong_of_lt hlt, if_neg (by omega)]

/-- Past the end nothing is found. -/
theorem lookup_end (hk : (Runs.cells mcb).length ≤ k) :
    fatLookupMcbEntry g mcb (k * g.sectorSize) = none := by
  rw [fatLookupMcbEntry, Nat.mul_div_cancel _ g.sectorSize_pos, Runs.lookup_eq_none_iff.mpr hk]
  rfl

/-- At a dirty sector its run is found, and the run stops where the dirty sectors do. -/
theorem exists_lookup_dirty (h : DirtyFatMcb g mcb) (hk : k ∈ dirtySectors mcb) :
    ∃ left index, fatLookupMcbEntry g mcb (k * g.sectorSize) =
        some (k * g.sectorSize, left * g.sectorSize, index) ∧ 0 < left ∧
      k + left ≤ (Runs.cells mcb).length ∧ (∀ j < left, k + j ∈ dirtySectors mcb) ∧
      k + left ∉ dirtySectors mcb := by
  have hs := g.sectorSize_pos
  have hklt := lt_length hk
  cases hl : Runs.lookup mcb k with
  | none => exact absurd (Runs.lookup_eq_none_iff.mp hl) (by omega)
  | some found =>
      obtain ⟨base, left, index⟩ := found
      obtain ⟨hpos, hle, -⟩ := Runs.lookup_spec hl
      have hcell : ∀ j < left, (Runs.cells mcb)[k + j]? = some (base.map (· + j)) :=
        fun j hj => Runs.getElem?_cells_of_lookup hl hj
      have hbase : base = some k := by
        have hzero := hcell 0 hpos
        rw [Nat.add_zero, show (Runs.cells mcb)[k]? = some (some k) from hk] at hzero
        simpa using hzero.symm
      have hsectors : k * g.sectorSize < 2 ^ 32 := h.mul_lt hklt
      have hleft : left * g.sectorSize < 2 ^ 32 :=
        h.mul_lt (by have := h.pos_of_dirty hk; omega)
      have hone : 1 ≤ k := h.pos_of_dirty hk
      have hsec : 2 ^ 7 ≤ g.sectorSize := Nat.pow_le_pow_right (by norm_num) g.sector_mem.1
      have hkle : k ≤ k * g.sectorSize / 2 ^ 7 := by
        rw [Nat.le_div_iff_mul_le (by norm_num)]
        exact Nat.mul_le_mul_left _ hsec
      have hlbo : mcbLbo g (some k) = k * g.sectorSize := by
        rw [mcbLbo]
        exact if_neg (by omega)
      have hne : k * g.sectorSize ≠ 0 := (Nat.mul_pos hone hs).ne'
      refine ⟨left, index, ?_, hpos, hle, fun j hj => ?_, fun hnext => ?_⟩
      · rw [fatLookupMcbEntry, Nat.mul_div_cancel _ hs, hl, Option.map_some, Nat.mul_mod_left]
        simp only [hbase, hlbo, mcbByteCount_eq hpos hleft, if_neg hne, Nat.add_zero, Nat.sub_zero]
      · have hj' := hcell j hj
        rw [hbase] at hj'
        exact hj'
      · apply h.normal.lookup_maximal hl
        rw [hbase]
        exact hnext

/-- At a clean sector in front of the end a hole is found, and behind the hole a dirty sector. -/
theorem exists_lookup_clean (h : DirtyFatMcb g mcb) (hk : k ∉ dirtySectors mcb)
    (hlt : k < (Runs.cells mcb).length) :
    ∃ left index, fatLookupMcbEntry g mcb (k * g.sectorSize) =
        some (0, left * g.sectorSize, index) ∧ 0 < left ∧
      (∀ j < left, k + j ∉ dirtySectors mcb) ∧ k + left ∈ dirtySectors mcb := by
  have hs := g.sectorSize_pos
  cases hl : Runs.lookup mcb k with
  | none => exact absurd (Runs.lookup_eq_none_iff.mp hl) (by omega)
  | some found =>
      obtain ⟨base, left, index⟩ := found
      obtain ⟨hpos, hle, -⟩ := Runs.lookup_spec hl
      have hcell : ∀ j < left, (Runs.cells mcb)[k + j]? = some (base.map (· + j)) :=
        fun j hj => Runs.getElem?_cells_of_lookup hl hj
      have hbase : base = none := by
        have hzero := hcell 0 hpos
        cases base with
        | none => rfl
        | some a =>
            have hself := h.self k a (by simpa using hzero)
            have hdirty : (Runs.cells mcb)[k]? = some (some k) := by simpa [hself] using hzero
            exact absurd hdirty hk
      have hbehind : k + left ∈ dirtySectors mcb := by
        have hlast : k + left < (Runs.cells mcb).length := by
          refine lt_of_le_of_ne hle fun heq => ?_
          have hcell' := hcell (left - 1) (by omega)
          rw [hbase] at hcell'
          exact h.normal.getElem?_last_ne (v := k + (left - 1)) (by omega) hcell'
        have hmax := h.normal.lookup_maximal hl
        rw [hbase, List.getElem?_eq_getElem hlast] at hmax
        cases hx : (Runs.cells mcb).get ⟨k + left, hlast⟩ with
        | none => exact absurd (congrArg some hx) hmax
        | some a =>
            have hx' : (Runs.cells mcb)[k + left]? = some (some a) := by
              rw [List.getElem?_eq_getElem hlast]
              exact congrArg some hx
            rw [h.self _ _ hx'] at hx'
            exact hx'
      have hleft : left * g.sectorSize < 2 ^ 32 := h.mul_lt (by have := lt_length hbehind; omega)
      refine ⟨left, index, ?_, hpos, fun j hj hdirty => ?_, hbehind⟩
      · rw [fatLookupMcbEntry, Nat.mul_div_cancel _ hs, hl, Option.map_some, Nat.mul_mod_left]
        simp only [hbase, mcbLbo, mcbByteCount_eq hpos hleft, if_true, Nat.sub_zero]
      · have hj' := hcell j hj
        rw [hbase, show (Runs.cells mcb)[k + j]? = some (some (k + j)) from hdirty] at hj'
        cases hj'

end DirtyFatMcb

/-! ## The loop -/

/-- The write range ends below 4 GB, and the run that is dirty at its end goes on to 4 GB. -/
def RunsRound (g : Geometry) (mcb : Mcb) (last : ℕ) : Prop :=
  last < 2 ^ 32 ∧ ∀ k, last ≤ (k + 1) * g.sectorSize → (k + 1) * g.sectorSize ≤ 2 ^ 32 →
    k ∈ dirtySectors mcb

/-- The loop at a dirty sector whose run reaches the end of the range. -/
theorem dirtyRuns_of_reaches {left index : ℕ}
    (hl : fatLookupMcbEntry g mcb (d * g.sectorSize) =
      some (d * g.sectorSize, left * g.sectorSize, index))
    (hd : 0 < d) (hlt : d < s + n) (hfits : (s + n) * g.sectorSize ≤ 2 ^ 32)
    (hreach : ulong ((s + n) * g.sectorSize) ≤ ulong ((d + left) * g.sectorSize)) (fuel : ℕ) :
    dirtyRuns g mcb (s * g.sectorSize) (n * g.sectorSize) (fuel + 1) (d * g.sectorSize) =
      some (.last (d * g.sectorSize) ((s + n - d) * g.sectorSize)) := by
  have hdlt : d * g.sectorSize < (s + n) * g.sectorSize :=
    (Nat.mul_lt_mul_right g.sectorSize_pos).mpr hlt
  have hpos : 0 < d * g.sectorSize := Nat.mul_pos hd g.sectorSize_pos
  have hsub : ulongSub (ulong ((s + n) * g.sectorSize)) (d * g.sectorSize) =
      (s + n - d) * g.sectorSize := by
    rw [Nat.sub_mul, ulongSub, ulong]
    omega
  rw [dirtyRuns, hl]
  dsimp only
  rw [ulong_of_lt (n := d * g.sectorSize) (by omega), ← Nat.add_mul, ← Nat.add_mul, if_pos hreach,
    hsub]

/-- The loop at a dirty sector whose run stops inside the range. -/
theorem dirtyRuns_of_stops (h : DirtyFatMcb g mcb) {left index : ℕ}
    (hl : fatLookupMcbEntry g mcb (d * g.sectorSize) =
      some (d * g.sectorSize, left * g.sectorSize, index))
    (hclean : d + left ∉ dirtySectors mcb) (hstop : d + left < s + n)
    (hfits : (s + n) * g.sectorSize < 2 ^ 32) :
    ((∀ fuel, dirtyRuns g mcb (s * g.sectorSize) (n * g.sectorSize) (fuel + 1) (d * g.sectorSize) =
          some (.last (d * g.sectorSize) (left * g.sectorSize))) ∧
        ∀ k ∈ dirtySectors mcb, k < s + n → k < d + left) ∨
      ∃ next ∈ dirtySectors mcb, d + left < next ∧ next < s + n ∧ ∀ fuel,
        dirtyRuns g mcb (s * g.sectorSize) (n * g.sectorSize) (fuel + 1) (d * g.sectorSize) =
          dirtyRuns g mcb (s * g.sectorSize) (n * g.sectorSize) fuel (next * g.sectorSize) := by
  have hs := g.sectorSize_pos
  have hmono : (d + left) * g.sectorSize < (s + n) * g.sectorSize :=
    (Nat.mul_lt_mul_right hs).mpr hstop
  have hdle : d * g.sectorSize ≤ (d + left) * g.sectorSize := Nat.mul_le_mul_right _ (by omega)
  have hpass : ∀ fuel,
      dirtyRuns g mcb (s * g.sectorSize) (n * g.sectorSize) (fuel + 1) (d * g.sectorSize) =
        match fatLookupMcbEntry g mcb ((d + left) * g.sectorSize) with
        | none => some (.last (d * g.sectorSize) (left * g.sectorSize))
        | some (_, hole, _) =>
            if (s + n) * g.sectorSize ≤ ulong ((d + left) * g.sectorSize + hole) then
              some (.last (d * g.sectorSize) (left * g.sectorSize))
            else
              dirtyRuns g mcb (s * g.sectorSize) (n * g.sectorSize) fuel
                (ulong (d * g.sectorSize + (left * g.sectorSize + hole))) := by
    intro fuel
    rw [dirtyRuns, hl]
    dsimp only
    rw [ulong_of_lt (n := d * g.sectorSize) (by omega), ← Nat.add_mul, ← Nat.add_mul,
      ulong_of_lt hfits, ulong_of_lt (n := (d + left) * g.sectorSize) (by omega),
      if_neg (Nat.not_le.mpr hmono)]
  simp only [hpass]
  by_cases hend : (Runs.cells mcb).length ≤ d + left
  · left
    rw [DirtyFatMcb.lookup_end hend]
    refine ⟨fun _ => rfl, fun k hk _ => ?_⟩
    have := DirtyFatMcb.lt_length hk
    omega
  · obtain ⟨hole, index', hl', hpos, hholes, hnext⟩ :=
      h.exists_lookup_clean hclean (Nat.lt_of_not_le hend)
    have hnextlt := h.mul_lt (DirtyFatMcb.lt_length hnext)
    rw [hl']
    dsimp only
    rw [← Nat.add_mul, ← Nat.add_mul, ← Nat.add_mul, ← Nat.add_assoc, ulong_of_lt hnextlt]
    by_cases hpast : s + n ≤ d + left + hole
    · left
      refine ⟨fun _ => if_pos (Nat.mul_le_mul_right _ hpast), fun k hk hklt => ?_⟩
      by_contra hge
      have := hholes (k - (d + left)) (by omega)
      rw [Nat.add_sub_cancel' (by omega)] at this
      exact this hk
    · right
      exact ⟨_, hnext, by omega, by omega, fun _ =>
        if_neg fun hle => hpast (Nat.le_of_mul_le_mul_right hle hs)⟩

/-- One pass at a dirty sector of the range: this was the last dirty run, or the loop goes on at
the next one. -/
theorem dirtyRuns_succ (h : DirtyFatMcb g mcb) (hd : d ∈ dirtySectors mcb) (hlt : d < s + n)
    (hfits : (s + n) * g.sectorSize ≤ 2 ^ 32)
    (hround : ¬ RunsRound g mcb ((s + n) * g.sectorSize)) :
    (∃ len, 0 < len ∧ d + len ≤ s + n ∧
        (∀ fuel, dirtyRuns g mcb (s * g.sectorSize) (n * g.sectorSize) (fuel + 1) (d * g.sectorSize) =
          some (.last (d * g.sectorSize) (len * g.sectorSize))) ∧
        ∀ k ∈ dirtySectors mcb, k < s + n → k < d + len) ∨
      ∃ next ∈ dirtySectors mcb, d < next ∧ next < s + n ∧ ∀ fuel,
        dirtyRuns g mcb (s * g.sectorSize) (n * g.sectorSize) (fuel + 1) (d * g.sectorSize) =
          dirtyRuns g mcb (s * g.sectorSize) (n * g.sectorSize) fuel (next * g.sectorSize) := by
  have hs := g.sectorSize_pos
  obtain ⟨left, index, hl, hpos, hle, hrun, hclean⟩ := h.exists_lookup_dirty hd
  have hrunle := h.mul_le hle
  by_cases hreach : s + n ≤ d + left ∨ (s + n) * g.sectorSize = 2 ^ 32
  · left
    -- a range or a run that ends at 4 GB has the end 0
    have hulong : ulong ((s + n) * g.sectorSize) ≤ ulong ((d + left) * g.sectorSize) := by
      rcases Nat.lt_or_ge ((s + n) * g.sectorSize) (2 ^ 32) with hsmall | hlarge
      · have hcover : s + n ≤ d + left := by omega
        have hmono := Nat.mul_le_mul_right g.sectorSize hcover
        rcases Nat.lt_or_ge ((d + left) * g.sectorSize) (2 ^ 32) with hrunlt | hrunge
        · rw [ulong_of_lt hsmall, ulong_of_lt hrunlt]
          exact hmono
        · refine absurd ⟨hsmall, fun k hk hk' => ?_⟩ hround
          have hk1 := (Nat.mul_le_mul_right_iff hs).mp hk
          have hk2 : k + 1 ≤ d + left := (Nat.mul_le_mul_right_iff hs).mp (hk'.trans hrunge)
          have := hrun (k - d) (by omega)
          rwa [Nat.add_sub_cancel' (by omega)] at this
      · have hzero : ulong ((s + n) * g.sectorSize) = 0 := by
          rw [ulong]
          omega
        omega
    exact ⟨s + n - d, by omega, by omega,
      dirtyRuns_of_reaches hl (h.pos_of_dirty hd) hlt hfits hulong, fun k _ hk => by omega⟩
  · rcases dirtyRuns_of_stops h hl hclean (s := s) (n := n) (by omega) (by omega) with
      ⟨heq, hall⟩ | ⟨next, hnext, hgt, hnlt, heq⟩
    · exact Or.inl ⟨left, hpos, by omega, heq, hall⟩
    · exact Or.inr ⟨next, hnext, by omega, hnlt, heq⟩

/-- **The loop finds the end of the last dirty run.** -/
theorem exists_dirtyRuns_eq (h : DirtyFatMcb g mcb) (hfits : (s + n) * g.sectorSize ≤ 2 ^ 32)
    (hround : ¬ RunsRound g mcb ((s + n) * g.sectorSize)) (hd : d ∈ dirtySectors mcb)
    (hlt : d < s + n) :
    ∃ fuel last len, dirtyRuns g mcb (s * g.sectorSize) (n * g.sectorSize) fuel
        (d * g.sectorSize) = some (.last (last * g.sectorSize) (len * g.sectorSize)) ∧
      d ≤ last ∧ 0 < len ∧ last + len ≤ s + n ∧
      ∀ k ∈ dirtySectors mcb, k < s + n → k < last + len := by
  induction hm : s + n - d using Nat.strong_induction_on generalizing d with
  | _ m ih =>
      rcases dirtyRuns_succ h hd hlt hfits hround with
        ⟨len, hpos, hle, heq, hall⟩ | ⟨next, hnext, hgt, hnlt, heq⟩
      · exact ⟨1, d, len, heq 0, le_rfl, hpos, hle, hall⟩
      · obtain ⟨fuel, last, len, hrun, hlast, hrest⟩ :=
          ih (s + n - next) (by omega) hnext hnlt rfl
        exact ⟨fuel + 1, last, len, (heq fuel).trans hrun, by omega, hrest⟩

/-- A dirty run that goes round at 4 GB sends the loop back to the first dirty sector. -/
theorem dirtyRuns_eq_none (h : DirtyFatMcb g mcb)
    (hround : RunsRound g mcb ((s + n) * g.sectorSize)) (hd : d ∈ dirtySectors mcb)
    (hlt : d < s + n) :
    dirtyRuns g mcb (s * g.sectorSize) (n * g.sectorSize) fuel (d * g.sectorSize) = none := by
  have hs := g.sectorSize_pos
  have hlast : s + n - 1 ∈ dirtySectors mcb := by
    apply hround.2 <;> rw [Nat.sub_add_cancel (by omega)]
    exact hround.1.le
  induction fuel generalizing d with
  | zero => rfl
  | succ fuel ih =>
      obtain ⟨left, index, hl, hpos, hle, hrun, hclean⟩ := h.exists_lookup_dirty hd
      have hrunle := h.mul_le hle
      by_cases hcover : s + n ≤ d + left
      · have hend : (d + left) * g.sectorSize = 2 ^ 32 := by
          by_contra hne
          obtain ⟨q, hq⟩ := g.sectorSize_dvd.trans g.clusterSize_dvd
          rw [Nat.mul_comm] at hq
          have hqlt : d + left < q := by
            apply Nat.lt_of_mul_lt_mul_right (a := g.sectorSize)
            omega
          refine hclean (hround.2 _ (Nat.mul_le_mul_right _ (by omega)) ?_)
          rw [hq]
          exact Nat.mul_le_mul_right _ hqlt
        obtain ⟨hole, index', hl', -, hholes, hnext⟩ :=
          h.exists_lookup_clean h.boot (Nat.zero_lt_of_lt (DirtyFatMcb.lt_length hd))
        rw [Nat.zero_add] at hnext
        have hnextlt := h.mul_lt (DirtyFatMcb.lt_length hnext)
        have hfirst : hole < s + n := by
          by_contra hge
          have := hholes (s + n - 1) (by omega)
          rw [Nat.zero_add] at this
          exact this hlast
        have hpass := ih hnext hfirst
        have hgt : 0 < (s + n) * g.sectorSize := Nat.mul_pos (by omega) hs
        have hmono := Nat.mul_lt_mul_of_pos_right hfirst hs
        have hwrap : ulong (d * g.sectorSize + left * g.sectorSize) = 0 := by
          rw [← Nat.add_mul, hend]
          rfl
        have hround' : ulong (d * g.sectorSize + left * g.sectorSize + hole * g.sectorSize) =
            hole * g.sectorSize := by
          rw [← Nat.add_mul, hend, ulong, Nat.add_mod_left]
          exact Nat.mod_eq_of_lt hnextlt
        rw [Nat.zero_mul] at hl'
        rw [dirtyRuns, hl]
        dsimp only
        rw [ulong_of_lt (n := d * g.sectorSize) (h.mul_lt (DirtyFatMcb.lt_length hd)), hwrap,
          ← Nat.add_mul, ulong_of_lt hround.1, if_neg (by omega), hl']
        dsimp only
        rw [← Nat.add_assoc, hround', if_neg (by omega)]
        exact hpass
      · rcases dirtyRuns_of_stops h hl hclean (Nat.lt_of_not_le hcover) hround.1 with
          ⟨-, hall⟩ | ⟨next, hnext, -, hnlt, heq⟩
        · have := hall _ hlast (by omega)
          omega
        · rw [heq]
          exact ih hnext hnlt

/-! ## The request -/

/-- The sector is in the `byteCount` bytes from `startingVbo`. -/
def InRange (g : Geometry) (startingVbo byteCount k : ℕ) : Prop :=
  startingVbo ≤ k * g.sectorSize ∧ (k + 1) * g.sectorSize ≤ startingVbo + byteCount

theorem inRange_iff : InRange g (s * g.sectorSize) (n * g.sectorSize) k ↔ s ≤ k ∧ k < s + n := by
  have hs := g.sectorSize_pos
  rw [InRange, ← Nat.add_mul, Nat.mul_le_mul_right_iff hs, Nat.mul_le_mul_right_iff hs]
  rfl

/-- A write range is a number of whole sectors (it is a number of pages) below 4 GB. -/
structure WriteRange (g : Geometry) (startingVbo byteCount : ℕ) : Prop where
  start : g.sectorSize ∣ startingVbo
  count : g.sectorSize ∣ byteCount
  count_lt : byteCount < 2 ^ 32
  fits : startingVbo + byteCount ≤ 2 ^ 32

/-- Nothing is done without a dirty sector in the range, and otherwise the loop starts at the first
one. -/
theorem fatWriteVolumeFile_cases (b : Bpb) (success : Bool) (h : DirtyFatMcb g mcb) (hn : n * g.sectorSize < 2 ^ 32)
    (hfits : (s + n) * g.sectorSize ≤ 2 ^ 32) :
    ((∀ k ∈ dirtySectors mcb, ¬ (s ≤ k ∧ k < s + n)) ∧ ∀ fuel,
        fatWriteVolumeFile g b mcb (s * g.sectorSize) (n * g.sectorSize) success fuel =
          some .nothingDirty) ∨
      ∃ d ∈ dirtySectors mcb, s ≤ d ∧ d < s + n ∧ (∀ k ∈ dirtySectors mcb, s ≤ k → d ≤ k) ∧
        ∀ fuel, fatWriteVolumeFile g b mcb (s * g.sectorSize) (n * g.sectorSize) success fuel =
          (dirtyRuns g mcb (s * g.sectorSize) (n * g.sectorSize) fuel (d * g.sectorSize)).map
            (finishWrite g b mcb (s * g.sectorSize) (d * g.sectorSize) success) := by
  have hs := g.sectorSize_pos
  rcases Nat.eq_zero_or_pos n with rfl | hpos
  · left
    refine ⟨fun k _ hk => by omega, fun fuel => ?_⟩
    rw [fatWriteVolumeFile, if_pos (Nat.zero_mul _)]
  have hne : n * g.sectorSize ≠ 0 := (Nat.mul_pos hpos hs).ne'
  simp only [fatWriteVolumeFile, if_neg hne]
  by_cases hdirty : s ∈ dirtySectors mcb
  · right
    obtain ⟨left, index, hl, -⟩ := h.exists_lookup_dirty hdirty
    have hspos : s * g.sectorSize ≠ 0 := (Nat.mul_pos (h.pos_of_dirty hdirty) hs).ne'
    refine ⟨s, hdirty, le_rfl, by omega, fun _ _ hk => hk, fun fuel => ?_⟩
    rw [hl]
    dsimp only
    rw [ulong_of_lt (h.mul_lt (DirtyFatMcb.lt_length hdirty)), if_neg hspos,
      if_neg fun hz => hspos hz.1]
  · by_cases hend : (Runs.cells mcb).length ≤ s
    · left
      refine ⟨fun k hk hin => ?_, fun fuel => by rw [DirtyFatMcb.lookup_end hend]⟩
      have := DirtyFatMcb.lt_length hk
      omega
    · obtain ⟨hole, index, hl, hhole, hholes, hnext⟩ :=
        h.exists_lookup_clean hdirty (Nat.lt_of_not_le hend)
      have hfirst : ∀ k ∈ dirtySectors mcb, s ≤ k → s + hole ≤ k := by
        intro k hk hsk
        by_contra hlt
        have := hholes (k - s) (by omega)
        rw [Nat.add_sub_cancel' hsk] at this
        exact this hk
      rw [hl]
      dsimp only
      by_cases hpast : n ≤ hole
      · left
        refine ⟨fun k hk hin => ?_, fun _ => if_pos ⟨rfl, Nat.mul_le_mul_right _ hpast⟩⟩
        have := hfirst k hk hin.1
        omega
      · right
        refine ⟨s + hole, hnext, by omega, by omega, hfirst, fun fuel => ?_⟩
        rw [if_neg fun hz => hpast (Nat.le_of_mul_le_mul_right hz.2 hs), if_pos (by rfl),
          ← Nat.add_mul, ulong_of_lt (h.mul_lt (DirtyFatMcb.lt_length hnext))]

/-! ## What is written -/

/-- The `length` bytes from `start` are inside the range, every dirty sector of the range is in
them, and each copy of the FAT gets them at its own place. -/
structure Covers (g : Geometry) (b : Bpb) (mcb : Mcb) (startingVbo byteCount start length : ℕ)
    (ioRuns : List IoRun) : Prop where
  lower : startingVbo ≤ start
  upper : start + length ≤ startingVbo + byteCount
  dirty : ∀ k ∈ dirtySectors mcb, InRange g startingVbo byteCount k → InRange g start length k
  transfers : ioRuns = (List.range b.fats.toNat).map fun fat =>
    { vbo := start
      lbo := fat * (b.bytesPerSector.toNat * b.fatSectors) + start
      offset := start - startingVbo
      byteCount := length }

/-- All and only what should be written is written, and it is clean afterwards if all went well. -/
def WritesOut (g : Geometry) (b : Bpb) (mcb : Mcb) (startingVbo byteCount : ℕ) (success : Bool) :
    WriteOut → Prop
  | .nothingDirty => ∀ k ∈ dirtySectors mcb, ¬ InRange g startingVbo byteCount k
  | .bugCheck => False
  | .written ioRuns mcb' => success = true ∧ ∃ start length,
      Covers g b mcb startingVbo byteCount start length ioRuns ∧ SectorMap mcb' ∧
        dirtySectors mcb' = dirtySectors mcb \ {k | InRange g start length k}
  | .raised ioRuns => success = false ∧ ∃ start length,
      Covers g b mcb startingVbo byteCount start length ioRuns

/-- The place of the first dirty sector of the range in the last copy of the FAT is below 4 GB. -/
def CopiesReachable (g : Geometry) (b : Bpb) (mcb : Mcb) (startingVbo byteCount : ℕ) : Prop :=
  ∃ k ∈ dirtySectors mcb, InRange g startingVbo byteCount k ∧
    (b.fats.toNat - 1) * (b.bytesPerSector.toNat * b.fatSectors) + k * g.sectorSize < 2 ^ 32

/-- The place in a copy that is below 4 GB is what the driver computes. -/
theorem ulong_copy {fat start : ℕ}
    (h : fat * (b.bytesPerSector.toNat * b.fatSectors) + start < 2 ^ 32) :
    ulong (ulong (fat * fatBytesPerFat b) + start) =
      fat * (b.bytesPerSector.toNat * b.fatSectors) + start := by
  rw [fatBytesPerFat, ulong, ulong, ulong, Nat.mul_mod_mod, Nat.mod_add_mod]
  exact Nat.mod_eq_of_lt h

/-- The written sectors are clean afterwards and the others are as before. -/
theorem SectorMap.removed (h : SectorMap mcb) (d len : ℕ) (hlen : 0 < len) :
    SectorMap (fatRemoveMcbEntry g mcb (d * g.sectorSize) (len * g.sectorSize)) ∧
      dirtySectors (fatRemoveMcbEntry g mcb (d * g.sectorSize) (len * g.sectorSize)) =
        dirtySectors mcb \ {k | d ≤ k ∧ k < d + len} := by
  have hs := g.sectorSize_pos
  have hsec : 2 ∣ g.sectorSize := dvd_pow_self 2 (by have := g.sector_mem; omega)
  have hcount : mcbSectors g (len * g.sectorSize) = len := mcbSectors_eq g le_rfl (by omega)
  have heven : len * g.sectorSize ≠ 0xffffffff := by
    have := hsec.mul_left len
    omega
  have hpos : len * g.sectorSize ≠ 0 := (Nat.mul_pos hlen hs).ne'
  rw [fatRemoveMcbEntry, if_pos heven, Nat.mul_div_cancel _ hs, hcount]
  constructor
  · refine ⟨Runs.normal_remove _ _ _, fun j a hj => ?_⟩
    exact h.self j a ((Runs.getElem?_cells_remove mcb d len j a).mp hj).2
  · ext k
    simp only [dirtySectors, Set.mem_ofPred_eq, Set.mem_sdiff, Runs.getElem?_cells_remove]
    exact and_comm

/-- What follows the loop, in sectors. -/
theorem finishWrite_last {last len : ℕ} (hd : 0 < d) (hsd : s ≤ d) (hle : d ≤ last)
    (hlen : 0 < len) (hfits : (last + len) * g.sectorSize ≤ 2 ^ 32) :
    finishWrite g b mcb (s * g.sectorSize) (d * g.sectorSize) success
        (.last (last * g.sectorSize) (len * g.sectorSize)) =
      let ioRuns := (List.range b.fats.toNat).map fun fat =>
        { vbo := d * g.sectorSize
          lbo := ulong (ulong (fat * fatBytesPerFat b) + d * g.sectorSize)
          offset := d * g.sectorSize - s * g.sectorSize
          byteCount := (last + len - d) * g.sectorSize }
      if success then
        .written ioRuns (fatRemoveMcbEntry g mcb (d * g.sectorSize)
          ((last + len - d) * g.sectorSize))
      else .raised ioRuns := by
  have hs := g.sectorSize_pos
  have hdpos : 0 < d * g.sectorSize := Nat.mul_pos hd hs
  have hdlt : d * g.sectorSize < (last + len) * g.sectorSize :=
    Nat.mul_lt_mul_of_pos_right (by omega) hs
  have hlength : ulongSub (ulong ((last + len) * g.sectorSize)) (d * g.sectorSize) =
      (last + len - d) * g.sectorSize := by
    rw [Nat.sub_mul, ulongSub, ulong]
    omega
  have hoffset : ulongSub (d * g.sectorSize) (s * g.sectorSize) =
      d * g.sectorSize - s * g.sectorSize :=
    ulongSub_of_le (by omega) (Nat.mul_le_mul_right _ hsd)
  simp only [finishWrite, ← Nat.add_mul, hlength, hoffset]

/-- A write that meets the claim puts the last copy where it belongs. -/
theorem lt_of_covers {startingVbo byteCount start length : ℕ} {vbo offset : ℕ} {count : ℕ}
    (hfats : b.fats.toNat ≠ 0)
    (h : Covers g b mcb startingVbo byteCount start length
      ((List.range b.fats.toNat).map fun fat =>
        ⟨vbo, ulong (ulong (fat * fatBytesPerFat b) + vbo), offset, count⟩)) :
    (b.fats.toNat - 1) * (b.bytesPerSector.toNat * b.fatSectors) + vbo < 2 ^ 32 := by
  have hlast := List.map_inj_left.mp h.transfers (b.fats.toNat - 1)
    (List.mem_range.mpr (by omega))
  rw [IoRun.mk.injEq] at hlast
  rw [hlast.1, ← hlast.2.1]
  exact Nat.mod_lt _ (by norm_num)

/-- Below 4 GB the transfers and the map are right. -/
theorem writesOut_finishWrite (h : DirtyFatMcb g mcb) {last len : ℕ} (hd : d ∈ dirtySectors mcb)
    (hsd : s ≤ d) (hfirst : ∀ k ∈ dirtySectors mcb, s ≤ k → d ≤ k) (hle : d ≤ last)
    (hlen : 0 < len) (hlast : last + len ≤ s + n)
    (hall : ∀ k ∈ dirtySectors mcb, k < s + n → k < last + len)
    (hfits : (s + n) * g.sectorSize ≤ 2 ^ 32)
    (hreach : (b.fats.toNat - 1) * (b.bytesPerSector.toNat * b.fatSectors) + d * g.sectorSize <
      2 ^ 32) :
    WritesOut g b mcb (s * g.sectorSize) (n * g.sectorSize) success
      (finishWrite g b mcb (s * g.sectorSize) (d * g.sectorSize) success
        (.last (last * g.sectorSize) (len * g.sectorSize))) := by
  have hfits' : (last + len) * g.sectorSize ≤ 2 ^ 32 := (Nat.mul_le_mul_right _ hlast).trans hfits
  have hcovers : Covers g b mcb (s * g.sectorSize) (n * g.sectorSize) (d * g.sectorSize)
      ((last + len - d) * g.sectorSize)
      ((List.range b.fats.toNat).map fun fat =>
        { vbo := d * g.sectorSize
          lbo := ulong (ulong (fat * fatBytesPerFat b) + d * g.sectorSize)
          offset := d * g.sectorSize - s * g.sectorSize
          byteCount := (last + len - d) * g.sectorSize }) := by
    refine ⟨Nat.mul_le_mul_right _ hsd, ?_, fun k hk hin => ?_, ?_⟩
    · rw [← Nat.add_mul, ← Nat.add_mul]
      exact Nat.mul_le_mul_right _ (by omega)
    · rw [inRange_iff] at hin ⊢
      have := hfirst k hk hin.1
      have := hall k hk hin.2
      omega
    · apply List.map_congr_left
      intro fat hfat
      have hmem := List.mem_range.mp hfat
      have hmul : fat * (b.bytesPerSector.toNat * b.fatSectors) ≤
          (b.fats.toNat - 1) * (b.bytesPerSector.toNat * b.fatSectors) :=
        Nat.mul_le_mul_right _ (by omega)
      rw [ulong_copy (by omega)]
  rw [finishWrite_last (h.pos_of_dirty hd) hsd hle hlen hfits']
  dsimp only
  split
  · next hs =>
    obtain ⟨hmap, hremoved⟩ := h.toSectorMap.removed (g := g) d (last + len - d) (by omega)
    refine ⟨hs, _, _, hcovers, hmap, hremoved.trans ?_⟩
    congr 1
    ext k
    simp only [Set.mem_ofPred_eq, inRange_iff]
  · next hs => exact ⟨Bool.eq_false_iff.mpr hs, _, _, hcovers⟩

/-- A write that meets the claim reaches every copy. -/
theorem lt_of_writesOut {out : WriteOut} {vbo : ℕ} {scan : RunScan} {startingVbo byteCount : ℕ}
    (hfats : b.fats.toNat ≠ 0) (h : WritesOut g b mcb startingVbo byteCount success out)
    (hout : finishWrite g b mcb startingVbo vbo success scan = out) :
    (b.fats.toNat - 1) * (b.bytesPerSector.toNat * b.fatSectors) + vbo < 2 ^ 32 := by
  cases scan with
  | bugCheck =>
      rw [← hout] at h
      exact h.elim
  | last dirtyVbo dirtyByteCount =>
      rw [← hout, finishWrite] at h
      split at h
      · obtain ⟨-, _, _, hcovers, -⟩ := h
        exact lt_of_covers hfats hcovers
      · obtain ⟨-, _, _, hcovers⟩ := h
        exact lt_of_covers hfats hcovers

/-- The request in sectors. -/
theorem writesOut_sectors_iff (success : Bool) (hfats : b.fats.toNat ≠ 0) (h : DirtyFatMcb g mcb)
    (hn : n * g.sectorSize < 2 ^ 32) (hfits : (s + n) * g.sectorSize ≤ 2 ^ 32) :
    (∃ fuel out, fatWriteVolumeFile g b mcb (s * g.sectorSize) (n * g.sectorSize) success fuel =
        some out ∧ WritesOut g b mcb (s * g.sectorSize) (n * g.sectorSize) success out) ↔
      (∀ k ∈ dirtySectors mcb, ¬ InRange g (s * g.sectorSize) (n * g.sectorSize) k) ∨
        CopiesReachable g b mcb (s * g.sectorSize) (n * g.sectorSize) ∧
          ¬ RunsRound g mcb (s * g.sectorSize + n * g.sectorSize) := by
  have hmono := fun {k k' : ℕ} (hk : k ≤ k') => Nat.mul_le_mul_right g.sectorSize hk
  simp only [CopiesReachable, inRange_iff, ← Nat.add_mul]
  rcases fatWriteVolumeFile_cases b success h hn hfits with
    ⟨hnone, hrun⟩ | ⟨d, hd, hsd, hdlt, hfirst, hrun⟩
  · refine iff_of_true ⟨0, _, hrun 0, fun k hk => ?_⟩ (Or.inl hnone)
    rw [inRange_iff]
    exact hnone k hk
  · rw [or_iff_right fun hnone => hnone d hd ⟨hsd, hdlt⟩]
    simp only [hrun, Option.map_eq_some_iff]
    constructor
    · rintro ⟨fuel, out, ⟨scan, hscan, hout⟩, hwrites⟩
      refine ⟨⟨d, hd, ⟨hsd, hdlt⟩, lt_of_writesOut hfats hwrites hout⟩, fun hround => ?_⟩
      rw [dirtyRuns_eq_none h hround hd hdlt] at hscan
      cases hscan
    · rintro ⟨⟨k, hk, hin, hreach⟩, hround⟩
      obtain ⟨fuel, last, len, hscan, hle, hlen, hlast, hall⟩ :=
        exists_dirtyRuns_eq h hfits hround hd hdlt
      have hdk := hmono (hfirst k hk hin.1)
      exact ⟨fuel, _, ⟨_, hscan, rfl⟩,
        writesOut_finishWrite h hd hsd hfirst hle hlen hlast hall hfits (by omega)⟩

/-- **A write of the volume file writes all and only what it should** exactly when nothing is dirty
in the range, or every copy of the first dirty sector is below 4 GB and no dirty run goes from the
range to 4 GB. -/
theorem writesOut_iff (hb : b.Accepted) {startingVbo byteCount : ℕ}
    (h : DirtyFatMcb (geometryOf b hb) mcb)
    (hrange : WriteRange (geometryOf b hb) startingVbo byteCount) :
    (∃ fuel out, fatWriteVolumeFile (geometryOf b hb) b mcb startingVbo byteCount success fuel =
        some out ∧ WritesOut (geometryOf b hb) b mcb startingVbo byteCount success out) ↔
      (∀ k ∈ dirtySectors mcb, ¬ InRange (geometryOf b hb) startingVbo byteCount k) ∨
        CopiesReachable (geometryOf b hb) b mcb startingVbo byteCount ∧
          ¬ RunsRound (geometryOf b hb) mcb (startingVbo + byteCount) := by
  have hfats := hb.fats
  generalize geometryOf b hb = g at *
  obtain ⟨⟨s, hs⟩, ⟨n, hn⟩, hlt, hfits⟩ := hrange
  rw [Nat.mul_comm] at hs hn
  subst hs hn
  rw [← Nat.add_mul] at hfits
  exact writesOut_sectors_iff success hfats h hlt hfits

/-! ## Two volumes -/

/-- The map in which the second sector is dirty. -/
def oneDirtySector : Mcb := [⟨none, 1⟩, ⟨some 1, 1⟩]

theorem mem_dirtySectors_oneDirtySector : k ∈ dirtySectors oneDirtySector ↔ k = 1 := by
  rw [dirtySectors, Set.mem_ofPred_eq]
  rcases k with _ | _ | k
  · decide
  · decide
  · simp [oneDirtySector, Run.cells]

theorem dirtyFatMcb_oneDirtySector : DirtyFatMcb g oneDirtySector := by
  have hs := g.clusterSize_le
  have hle : g.sectorSize ≤ g.clusterSize :=
    Nat.le_of_dvd g.clusterSize_pos g.sectorSize_dvd
  refine ⟨⟨⟨one_pos, by simp [Run.Meets], one_pos, by simp⟩, fun j a hj => ?_⟩, ?_, ?_⟩
  · rcases j with _ | _ | j
    · simp [oneDirtySector, Run.cells] at hj
    · simpa [oneDirtySector, Run.cells, eq_comm] using hj
    · simp [oneDirtySector, Run.cells] at hj
  · rw [mem_dirtySectors_oneDirtySector]
    exact Nat.zero_ne_one
  · have hlen : (Runs.cells oneDirtySector).length = 2 := rfl
    rw [hlen]
    omega

theorem not_runsRound_oneDirtySector {last : ℕ} (hlast : last ≤ 3 * g.sectorSize) :
    ¬ RunsRound g oneDirtySector last := by
  intro h
  have hs := g.clusterSize_le
  have hle : g.sectorSize ≤ g.clusterSize :=
    Nat.le_of_dvd g.clusterSize_pos g.sectorSize_dvd
  have := mem_dirtySectors_oneDirtySector.mp (h.2 2 hlast (by omega))
  omega

/-- The first kilobyte of the volume file of a floppy. -/
theorem writesOut_floppyBoot :
    ∃ fuel out,
      fatWriteVolumeFile (geometryOf _ (accepted_of_fatIsBootSectorFat
        fatIsBootSectorFat_floppyBoot)) (fatUnpackBios (floppyBoot 16)).clearLargeSectors
        oneDirtySector 0 1024 true fuel = some out ∧
      WritesOut (geometryOf _ (accepted_of_fatIsBootSectorFat fatIsBootSectorFat_floppyBoot))
        (fatUnpackBios (floppyBoot 16)).clearLargeSectors oneDirtySector 0 1024 true out :=
  (writesOut_iff (accepted_of_fatIsBootSectorFat fatIsBootSectorFat_floppyBoot)
      dirtyFatMcb_oneDirtySector ⟨by decide, by decide, by decide, by decide⟩).mpr
    (Or.inr ⟨⟨1, mem_dirtySectors_oneDirtySector.mpr rfl, ⟨by decide, by decide⟩, by decide⟩,
      not_runsRound_oneDirtySector (by decide)⟩)

/-- 255 FATs of 65535 sectors each. -/
def manyFatsBoot : BootSector
  | 16 => 0xff
  | 22 => 0xff
  | 23 => 0xff
  | o => floppyBoot 16 o

theorem fatIsBootSectorFat_manyFatsBoot : fatIsBootSectorFat false manyFatsBoot = true := by
  decide

/-- The copies from the 130th on are written below 4 GB, over others. -/
theorem not_writesOut_manyFatsBoot :
    ¬ ∃ fuel out,
      fatWriteVolumeFile (geometryOf _ (accepted_of_fatIsBootSectorFat
        fatIsBootSectorFat_manyFatsBoot)) (fatUnpackBios manyFatsBoot).clearLargeSectors
        oneDirtySector 0 1024 true fuel = some out ∧
      WritesOut (geometryOf _ (accepted_of_fatIsBootSectorFat fatIsBootSectorFat_manyFatsBoot))
        (fatUnpackBios manyFatsBoot).clearLargeSectors oneDirtySector 0 1024 true out := by
  have hb := accepted_of_fatIsBootSectorFat fatIsBootSectorFat_manyFatsBoot
  have hbps : (fatUnpackBios manyFatsBoot).clearLargeSectors.bytesPerSector.toNat = 512 := by decide
  have hsize : (geometryOf _ hb).sectorSize = 512 := by
    change 2 ^ fatLogOf (fatUnpackBios manyFatsBoot).clearLargeSectors.bytesPerSector.toNat = 512
    rw [hbps]
    decide
  have hiff := writesOut_sectors_iff (g := geometryOf _ hb) (s := 0) (n := 2) true hb.fats
    dirtyFatMcb_oneDirtySector (by rw [hsize]; norm_num) (by rw [hsize]; norm_num)
  simp only [hsize] at hiff
  rw [hiff]
  rintro (hnone | ⟨⟨k, hk, -, hreach⟩, -⟩)
  · exact hnone 1 (mem_dirtySectors_oneDirtySector.mpr rfl) (by
      rw [InRange, hsize]
      norm_num)
  · have hfats : (fatUnpackBios manyFatsBoot).clearLargeSectors.fats.toNat = 255 := by decide
    have hsectors : (fatUnpackBios manyFatsBoot).clearLargeSectors.fatSectors = 65535 := by decide
    rw [hfats, hbps, hsectors] at hreach
    omega

end KernelDrivers.Fat
