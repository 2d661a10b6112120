import KernelDrivers.Fat.ExactMatch
import KernelDrivers.Fat.MoveSplice
import KernelDrivers.Fat.ResizeRun
import KernelDrivers.Fat.Undo

/-!
# The passes of a move

A pass takes the next clusters of the request: up to the end of a buffer, of a run of the file and of
the file.  It allocates the target and goes on only if the target is what was asked for, and then the
file's chain is `replaced` with these clusters in it.  So the passes of a call are for consecutive
clusters of the file, and a call that comes to its end has moved what the request covers of the file.

A pass copies the bytes up to the end of the cluster in which the valid data end.  That end is
computed in 32 bits: with valid data in the last cluster of 4 GB it is zero, and then nothing is
copied.

## Main definitions

* `Portion` — what a pass moves.
* `Call.At` — the state of the loop between two passes.
* `Passes` — the passes are for the clusters of a range, one behind the other.
* `Moved` — the state when so many clusters were moved.
* `MovesValidData` — every pass copies what is valid, and together they cover the range.

## Main results

* `Ready.sat_fatComputeMoveFileParameter` — the parameters of a pass.
* `Call.At.sat_relocate` — what one pass does.
* `Call.At.sat_moveLoop` — what the loop does.
* `Call.At.movesValidData_iff` — when valid data are moved.
-/

namespace KernelDrivers.Fat.Move

variable {g : Geometry} {q : File} {cs : List ℕ} {f : FcbOrDcb} {i n m fuel : ℕ}

/-! ## How much a pass moves -/

/-- A file with a valid chain that is not larger than that. -/
structure Ready (g : Geometry) (f : FcbOrDcb) (cs : List ℕ) : Prop extends f.Valid g cs where
  fileSize : f.fileSize ≤ chainBytes g cs

/-- The size of the file is found out, also into the file size of a directory. -/
theorem Ready.sat_lookupSize (h : Ready g f cs) (harea : 0 < g.fileAreaLbo)
    (hfuel : cs.length ≤ fuel) :
    Sat (lookupSize g q fuel) f
      (fun _ t => t.Known g cs ∧ t.fileSize ≤ chainBytes g cs ∧ t.vcb = f.vcb.withFault t.vcb.vol.io ∧
        (f.vcb.vol.io = none → t.vcb.vol.io = none))
      (fun _ _ => f.vcb.vol.io ≠ none) := by
  obtain ⟨reads, hreads, hsat⟩ := Fat.sat_lookupSize h.toValid harea
  have hfile : f.withFault f.vcb.vol.io = f := rfl
  have hsat := hsat f.vcb.vol.io fuel
  rw [hfile] at hsat
  have hlook : Sat (Fat.lookupSize g fuel) f
      (fun _ t => t.Known g cs ∧ t.fileSize ≤ chainBytes g cs ∧ t.vcb = f.vcb.withFault t.vcb.vol.io ∧
        (f.vcb.vol.io = none → t.vcb.vol.io = none)) (fun _ _ => f.vcb.vol.io ≠ none) := by
    refine hsat.mono ?_ ?_
    · rintro _ t ⟨hknown, hio, ht⟩
      refine ⟨hknown, ?_, ?_, fun hnone => ?_⟩
      · rw [ht]
        exact h.fileSize
      · rw [ht]
        rfl
      · rw [hnone] at hio
        exact Option.map_eq_none_iff.mp hio.symm
    · intro _ _ hE
      rcases hE with hshort | ⟨n, -, hio⟩ | hlarge
      · omega
      · rw [hio]
        simp
      · have := h.fileSize
        omega
  rw [lookupSize]
  apply Sat.get_bind
  by_cases hhint : f.allocationSize = fcbLookupAllocationSizeHint
  · have heq : Fat.lookupSize g fuel f = fatLookupFileAllocationSize g fuel f := by
      change (if f.allocationSize = fcbLookupAllocationSizeHint then
        fatLookupFileAllocationSize g fuel else pure ()) f = _
      rw [if_pos hhint]
    rw [if_pos hhint]
    refine Sat.bind (Sat.of_eq heq.symm hlook) ?_
    rintro _ t ⟨hknown, hsize, hvcb, hio⟩
    split
    · refine Sat.modify ⟨⟨⟨⟨⟨hknown.chain, hknown.clusters, hknown.le⟩, hknown.consistent,
        hknown.dirent⟩, hknown.size.imp_right fun ⟨hhint, hne, k, hk⟩ =>
          ⟨hhint, hne, k, hk.le, hk.mcb, hk.whole⟩⟩, hknown.lowPart, hknown.mcb⟩, ?_, hvcb, hio⟩
      exact hknown.lowPart.le
    · exact Sat.pure ⟨hknown, hsize, hvcb, hio⟩
  · have heq : Fat.lookupSize g fuel f = (pure () : EStateM Stop FcbOrDcb Unit) f := by
      change (if f.allocationSize = fcbLookupAllocationSizeHint then
        fatLookupFileAllocationSize g fuel else pure ()) f = _
      rw [if_neg hhint]
    rw [if_neg hhint]
    exact Sat.of_eq heq.symm hlook

/-- The buffer holds so many clusters. -/
theorem exists_bufferSize (g : Geometry) : ∃ k, 0 < k ∧ bufferSize g = k * g.clusterSize ∧
    ∀ x, x &&& (bufferSize g - 1) = x % bufferSize g := by
  rw [bufferSize]
  split
  · exact ⟨1, one_pos, (Nat.one_mul _).symm, fun x => Nat.and_two_pow_sub_one_eq_mod x _⟩
  · next hsmall =>
      have hlog : g.logOfBytesPerCluster ≤ 16 := by
        by_contra hgt
        have := Nat.pow_le_pow_right (show 0 < 2 by norm_num) (show 17 ≤ g.logOfBytesPerCluster by omega)
        rw [Geometry.clusterSize] at hsmall
        omega
      refine ⟨2 ^ (16 - g.logOfBytesPerCluster), Nat.two_pow_pos _, ?_,
        fun x => Nat.and_two_pow_sub_one_eq_mod x 16⟩
      rw [Geometry.clusterSize, ← pow_add, Nat.sub_add_cancel hlog]
      norm_num

/-- What remains of a request is cut to the end of a buffer. -/
theorem exists_cutToBuffer (hn : 0 < n) (hend : (i + n) * g.clusterSize < 2 ^ 32) :
    ∃ m, 0 < m ∧ m ≤ n ∧
      (if bufferSize g < ulong ((i * g.clusterSize &&& (bufferSize g - 1)) + n * g.clusterSize) then
        bufferSize g - (i * g.clusterSize &&& (bufferSize g - 1)) else n * g.clusterSize) =
      m * g.clusterSize := by
  obtain ⟨k, hk, hsize, hand⟩ := exists_bufferSize g
  have hmod := Nat.mod_lt i hk
  have hbefore : i * g.clusterSize &&& (bufferSize g - 1) = i % k * g.clusterSize := by
    rw [hand, hsize, Nat.mul_mod_mul_right]
  have hle : (i % k + n) * g.clusterSize ≤ (i + n) * g.clusterSize :=
    Nat.mul_le_mul_right _ (Nat.add_le_add_right (Nat.mod_le _ _) _)
  rw [hbefore, ← Nat.add_mul, ulong_of_lt (by omega), hsize, ← Nat.sub_mul]
  by_cases hover : k < i % k + n
  · rw [if_pos ((Nat.mul_lt_mul_right g.clusterSize_pos).mpr hover)]
    exact ⟨k - i % k, by omega, by omega, rfl⟩
  · rw [if_neg fun hlt => hover ((Nat.mul_lt_mul_right g.clusterSize_pos).mp hlt)]
    exact ⟨n, hn, le_rfl, rfl⟩

/-- What a pass moves: `m` clusters from cluster number `i` on, of a request that ends at cluster
number `e`. -/
structure Portion (g : Geometry) (q : File) (cs : List ℕ) (i e m : ℕ) (p : Parameter) : Prop where
  pos : 0 < m
  le : i + m ≤ e
  byteCount : p.byteCount = (e - i) * g.clusterSize
  bytesToReallocate : p.bytesToReallocate = m * g.clusterSize
  bytesToWrite : p.bytesToWrite = bytesToWrite g q (i * g.clusterSize) (m * g.clusterSize)
  source : ∀ b < m * g.clusterSize, fileLbo g cs (i * g.clusterSize + b) = p.sourceLbo + b

/-- **The parameters of a pass.** -/
theorem Ready.sat_fatComputeMoveFileParameter (h : Ready g f cs) (harea : 0 < g.fileAreaLbo)
    (hn : 0 < n) (hend : (i + n) * g.clusterSize < 2 ^ 32) (hfuel : cs.length ≤ fuel) :
    Sat (fatComputeMoveFileParameter g q (i * g.clusterSize) (n * g.clusterSize) fuel) f
      (fun p t => (t.Known g cs ∧ t.fileSize ≤ chainBytes g cs ∧
          t.vcb = f.vcb.withFault t.vcb.vol.io ∧ (f.vcb.vol.io = none → t.vcb.vol.io = none)) ∧
        if cs.length ≤ i then p = ⟨0, 0, 0, 0⟩
        else ∃ m, Portion g q cs i (min (i + n) cs.length) m p)
      (fun _ _ => f.vcb.vol.io ≠ none) := by
  have hS := g.clusterSize_pos
  have hg := h.consistent.sound.mappable harea
  have hcs := h.clusters
  have hle := h.le
  rw [fatComputeMoveFileParameter]
  refine Sat.bind (h.sat_lookupSize harea hfuel) ?_
  intro _ t ht
  have hknown := ht.1
  apply Sat.get_bind
  dsimp only
  have hsum : ulong (i * g.clusterSize + n * g.clusterSize) = (i + n) * g.clusterSize := by
    rw [← Nat.add_mul, ulong_of_lt hend]
  have hroom := add_clusterSize_le hend
  have hnS : g.clusterSize ≤ n * g.clusterSize := Nat.le_mul_of_pos_left _ hn
  rw [Nat.add_mul] at hend hroom hsum
  rw [hknown.lowPart, hsum, chainBytes]
  by_cases hbeyond : cs.length ≤ i
  · have hmul := Nat.mul_le_mul_right g.clusterSize hbeyond
    rw [if_pos ⟨by omega, by omega⟩]
    refine Sat.pure ⟨ht, ?_⟩
    rw [if_pos hbeyond]
  have hlt : i * g.clusterSize < cs.length * g.clusterSize :=
    (Nat.mul_lt_mul_right hS).mpr (not_le.mp hbeyond)
  have hmax : i * g.clusterSize < 0xffffffff := by omega
  rw [if_neg (by omega)]
  -- the request ends with the file
  obtain ⟨e, he⟩ : ∃ e, e = min (i + n) cs.length := ⟨_, rfl⟩
  have hei : i < e := by omega
  have hen : e ≤ i + n := by omega
  have hbytes : (if min (cs.length * g.clusterSize) 0xffffffff < i * g.clusterSize + n * g.clusterSize
      then min (cs.length * g.clusterSize) 0xffffffff - i * g.clusterSize else n * g.clusterSize) =
      (e - i) * g.clusterSize := by
    rw [he, Nat.sub_mul]
    rcases Nat.lt_or_ge cs.length (i + n) with hshort | hlong
    · have hmul := (Nat.mul_lt_mul_right hS).mpr hshort
      rw [Nat.add_mul] at hmul
      rw [min_eq_right hshort.le, if_pos (by omega), min_eq_left (by omega)]
    · have hmul := Nat.mul_le_mul_right g.clusterSize hlong
      rw [Nat.add_mul] at hmul
      rw [min_eq_left hlong, if_neg (by omega), Nat.add_mul]
      omega
  have hee : (i + (e - i)) * g.clusterSize < 2 ^ 32 := by
    refine (Nat.mul_le_mul_right g.clusterSize (show i + (e - i) ≤ i + n by omega)).trans_lt ?_
    rw [Nat.add_mul]
    exact hend
  obtain ⟨m, hm, hme, hcut⟩ := exists_cutToBuffer (show 0 < e - i by omega) hee
  rw [hbytes, hcut]
  -- the run is in the map
  obtain ⟨count, index, hlookup, hpos, hbound, hrun⟩ := exists_fatLookupMcbEntry hg.aligned
    hg.area_pos (plain_mcbOf hg.sectors hcs) hle hlt
  obtain ⟨-, -, hcount⟩ := run_of_lookup hle hlookup
  have hcount := hcount (g.sectorSize_dvd.mul_left i)
  rw [fatLookupFileAllocation, bind_assoc]
  apply Sat.get_bind
  rw [hknown.mcb, hlookup]
  dsimp only
  rw [pure_bind]
  dsimp only
  have hmS : (i + m) * g.clusterSize ≤ (i + (e - i)) * g.clusterSize :=
    Nat.mul_le_mul_right _ (by omega)
  rw [Nat.add_mul] at hmS
  have hmore := add_clusterSize_le hee
  have hS2 : 2 ≤ g.clusterSize := by
    have h1 := g.cluster_mem
    have h2 := g.sector_mem
    exact Nat.le_self_pow (by omega) 2
  obtain ⟨m', hm', hm'm, hmin⟩ : ∃ m', 0 < m' ∧ m' ≤ m ∧
      (if count < m * g.clusterSize then count else m * g.clusterSize) = m' * g.clusterSize := by
    by_cases hless : count < m * g.clusterSize
    · have hexact : i * g.clusterSize + count = runStart g cs (index + 1) := by omega
      have hdvd := dvd_runStart g cs (index + 1)
      rw [← hexact] at hdvd
      obtain ⟨k, hk⟩ := (Nat.dvd_add_right (Dvd.intro_left _ rfl)).mp hdvd
      rw [Nat.mul_comm] at hk
      rw [if_pos hless]
      refine ⟨k, ?_, ?_, hk⟩
      · by_contra hzero
        rw [Nat.eq_zero_of_not_pos hzero, Nat.zero_mul] at hk
        omega
      · rw [hk, Nat.mul_lt_mul_right hS] at hless
        exact hless.le
    · rw [if_neg hless]
      exact ⟨m, hm, le_rfl, rfl⟩
  have hcov : m' * g.clusterSize ≤ count := by
    rw [← hmin]
    split <;> omega
  rw [hmin]
  refine Sat.pure ⟨ht, ?_⟩
  rw [if_neg hbeyond, ← he]
  exact ⟨m', hm', by omega, rfl, rfl, rfl, fun b hb => hrun b (by omega)⟩

/-- The valid bytes of what is moved are copied, when rounding up does not wrap. -/
theorem lt_bytesToWrite (hend : (i + m) * g.clusterSize < 2 ^ 32)
    (hvdl : q.nodeType = .fcb → q.validDataLength + g.clusterSize ≤ 2 ^ 32) {x : ℕ}
    (hx : i * g.clusterSize ≤ x) (hx' : x < i * g.clusterSize + m * g.clusterSize)
    (hvalid : x < q.validDataLength) :
    x < i * g.clusterSize + bytesToWrite g q (i * g.clusterSize) (m * g.clusterSize) := by
  have hS := g.clusterSize_pos
  rw [Nat.add_mul] at hend
  rw [bytesToWrite]
  by_cases hfcb : q.nodeType = .fcb
  · have hvdl := hvdl hfcb
    -- rounding up does not wrap
    have hround : q.validDataLength ≤ roundToCluster g (ulong q.validDataLength) := by
      rw [ulong_of_lt (by omega), roundToCluster, ulong_of_lt (by omega)]
      have hdiv := Nat.div_add_mod' (q.validDataLength + (g.clusterSize - 1)) g.clusterSize
      have hmod := Nat.mod_lt (q.validDataLength + (g.clusterSize - 1)) hS
      omega
    have hlt : roundToCluster g (ulong q.validDataLength) < 2 ^ 32 := by
      rw [roundToCluster]
      exact (Nat.div_mul_le_self _ _).trans_lt (ulong_lt _)
    rw [ulong_of_lt hend]
    by_cases hcut : roundToCluster g (ulong q.validDataLength) <
        i * g.clusterSize + m * g.clusterSize
    · rw [if_pos ⟨hfcb, hcut⟩, if_neg (by omega), ulongSub_of_le hlt (by omega)]
      omega
    · rw [if_neg fun h => hcut h.2]
      exact hx'
  · rw [if_neg fun h => hfcb h.1]
    exact hx'

/-- Rounding the `ValidDataLength` up wraps to zero in the last cluster of 4 GB: nothing is
copied. -/
theorem bytesToWrite_eq_zero (hfcb : q.nodeType = .fcb)
    (hvdl : 2 ^ 32 < q.validDataLength + g.clusterSize) (hm : 0 < m)
    (hend : (i + m) * g.clusterSize < 2 ^ 32) :
    bytesToWrite g q (i * g.clusterSize) (m * g.clusterSize) = 0 := by
  have hS := g.clusterSize_pos
  have hlt := q.validDataLength_lt hfcb
  have hmS : g.clusterSize ≤ m * g.clusterSize := Nat.le_mul_of_pos_left _ hm
  rw [Nat.add_mul] at hend
  have hround : roundToCluster g (ulong q.validDataLength) = 0 := by
    have hwrap : ulong (q.validDataLength + (g.clusterSize - 1)) < g.clusterSize := by
      rw [ulong]
      omega
    rw [ulong_of_lt hlt, roundToCluster, Nat.div_eq_of_lt hwrap, Nat.zero_mul]
  rw [bytesToWrite]
  rw [hround, ulong_of_lt hend, if_pos ⟨hfcb, by omega⟩]
  split
  · rfl
  · next hzero =>
      rw [Nat.eq_zero_of_not_pos hzero]
      rfl

/-! ## The target -/

section Target

variable {t : ℕ}

/-- What the loop asks for: so many clusters, at a certain one. -/
theorem exactRequest_spec (ht : 2 ≤ t) (hm : 0 < m) (hlt : m * g.clusterSize < 2 ^ 32) :
    (exactRequest t (m * g.clusterSize)).byteCount = m * g.clusterSize ∧
      (exactRequest t (m * g.clusterSize)).clusterCount g = m ∧
      (exactRequest t (m * g.clusterSize)).absoluteClusterHint = t := by
  have hS := g.clusterSize_pos
  have hroom := add_clusterSize_le hlt
  have hbytes : (exactRequest t (m * g.clusterSize)).byteCount = m * g.clusterSize :=
    ulong_of_lt hlt
  have hround : roundByteCount g (m * g.clusterSize) = m * g.clusterSize := by
    rw [roundByteCount, ulong_of_lt (by omega), Nat.add_comm, Nat.add_mul_div_right _ _ hS,
      Nat.div_eq_of_lt (by omega), Nat.zero_add]
  have hpos := Nat.mul_pos hm hS
  refine ⟨hbytes, ?_, if_neg (by omega)⟩
  rw [Request.clusterCount, hbytes, requestSize, hround, if_neg (by omega)]
  exact Nat.mul_div_cancel _ hS

/-- **An exact-match request** of less than 4 GB is filled with clusters that are all in the map, or
the map stays empty.  The run at the hint is found. -/
theorem sat_fatAllocateDiskSpace_exact {r : Request} {v : Vcb} (hg : g.Sound)
    (hb : Books g v (zeroSet g v.vol.fat) 0) (hr : r.byteCount ≠ 0)
    (hexact : r.exactMatchRequired = true) (hhint : r.Hinted g)
    (hlt : r.clusterCount g * g.clusterSize < 2 ^ 32) (hfuel : 2 * g.numberOfWindows ≤ fuel) :
    Sat (fatAllocateDiskSpace g r fuel) ⟨v, [], r.byteCount⟩
      (fun _ c' => (c'.mcb = [] ∧ ¬ FastPath g r v (zeroSet g v.vol.fat)) ∨
        ∃ ds, Completed g r (zeroSet g v.vol.fat) ⟨v, [], r.byteCount⟩ c' ds ∧ c'.mcb = mcbOf g ds)
      (fun stop _ => (stop = .raised .diskFull ∧ v.numberOfFreeClusters < r.clusterCount g) ∨
        v.vol.io ≠ none) := by
  by_cases hadmitted : v.numberOfFreeClusters < r.clusterCount g
  · have heq := fatAllocateDiskSpace_eq (g := g) (c := ⟨v, [], r.byteCount⟩) fuel hr
    rw [if_pos hadmitted] at heq
    exact Sat.of_error heq (Or.inl ⟨rfl, hadmitted⟩)
  have hchoose := sat_chooseHint (v := (AllocCall.admitted g r ⟨v, [], r.byteCount⟩).vcb) hr
    (hb.admitted (c := ⟨v, [], r.byteCount⟩) hadmitted) rfl
  have hcases := @fatAllocateDiskSpace_cases g r ⟨v, [], r.byteCount⟩ fuel hr hb hadmitted
  -- the slow path searches at the hint
  have hslow : ∀ hints w, Books g w (zeroSet g v.vol.fat) (r.clusterCount g) →
      HintChosen g r v hints w →
      Sat (allocateSlow g r hints.2 fuel) { AllocCall.admitted g r ⟨v, [], r.byteCount⟩ with vcb := w }
        (fun _ c' => c'.byteCount = 0 → c'.mcb = []) (fun _ _ => w.vol.io ≠ none) := by
    intro hints w hbooks hchosen
    have hready : HintReady g r hints w := ⟨hchosen.hint.trans (if_pos hhint), hchosen.two_le,
      hchosen.lt, hchosen.cluster.trans (if_pos hhint)⟩
    rw [← hchosen.fat] at hbooks
    have hbooks' : Books g w (zeroSet g w.vol.fat) (r.clusterCount g + 0) := hbooks
    refine (sat_allocateSlow_exact (c := { AllocCall.admitted g r ⟨v, [], r.byteCount⟩ with vcb := w })
      hg hr hexact hready hbooks hfuel hbooks' rfl rfl).mono ?_ fun _ _ hE => hE
    intro _ c' hc' hzero
    rw [if_pos hzero] at hc'
    exact hc'.1.mcb
  cases hres : fatAllocateDiskSpace g r fuel ⟨v, [], r.byteCount⟩ with
  | error stop c' =>
      refine Sat.of_error hres (Or.inr ?_)
      rcases hcases with ⟨stop', w, hch, -⟩ | ⟨hints, w, -, hbooks, hchosen, hpath⟩
      · exact (hchoose.error hch).2.1
      intro hnone
      have hnone := hchosen.io hnone
      cases hpath with
      | fast start h2 hclear _ heq =>
          have hfast := sat_allocateFast (c := { AllocCall.admitted g r ⟨v, [], r.byteCount⟩ with vcb := w })
            (k := 0) hr hbooks h2 hclear rfl rfl
          exact (hfast.error (heq.symm.trans hres)).2.1 hnone
      | slow _ heq => exact (hslow hints w hbooks hchosen).error (heq.symm.trans hres) hnone
  | ok _ c' =>
      refine Sat.of_ok hres ?_
      by_cases hfast : FastPath g r v (zeroSet g v.vol.fat)
      · obtain ⟨x, hcompleted, hmcb⟩ := completed_of_fast (c := ⟨v, [], r.byteCount⟩) hr hb rfl hfast hres
        exact Or.inr ⟨_, hcompleted, hmcb⟩
      by_cases hzero : c'.byteCount = 0
      · rcases hcases with ⟨_, _, -, herr⟩ | ⟨hints, w, -, hbooks, hchosen, hpath⟩
        · rw [hres] at herr
          cases herr
        cases hpath with
        | fast _ _ _ hpath _ => exact absurd hpath hfast
        | slow _ heq =>
            exact Or.inl ⟨(hslow hints w hbooks hchosen).ok (heq.symm.trans hres) hzero, hfast⟩
      · have hb' : Books g (v.withFault v.vol.io) (zeroSet g v.vol.fat) 0 := hb.setVol _
        obtain ⟨ds, _, _, hcompleted, hmcb, -⟩ := map_of_ok hr hb
          (fun _ => hg.links) hfast (Or.inl hlt) hres hzero
        exact Or.inr ⟨ds, hcompleted, hmcb⟩

end Target

/-! ## A pass -/

/-- The loop has the clusters from number `i` on before `e` to move, to those from `t` on. -/
structure Call.At (g : Geometry) (cs : List ℕ) (i e t : ℕ) (c : Call) : Prop where
  file : Ready g c.file cs
  fileOffset : c.fileOffset = i * g.clusterSize
  byteCount : c.byteCount = (e - i) * g.clusterSize
  le : i ≤ e
  targetCluster : c.targetCluster = t
  targetLbo : c.targetLbo = fatGetLboFromIndex g t
  sourceMcb : c.sourceMcb = []
  targetMcb : c.targetMcb = []
  diskSpaceAllocated : c.diskSpaceAllocated = false

/-- The record stays as it is. -/
theorem keeps_passes (fails : Step → Bool) (p : Parameter) :
    Keeps Call.passes (relocate g q fails p fuel) := by
  have hfail : ∀ b, Keeps Call.passes (failIf b) := fun b => by
    rw [failIf]
    exact Keeps.ite (Keeps.throw _) (Keeps.pure _)
  have hflush : ∀ b, Keeps Call.passes (flushFatEntries q b) := fun b => by
    rw [flushFatEntries]
    exact Keeps.ite (hfail _) (Keeps.pure _)
  have hvcb : ∀ {α : Type} (x : EStateM Stop Vcb α), Keeps Call.passes (Call.onVcb x) :=
    fun x => Keeps.onPart (by intros; rfl) x
  have hpoints : Keeps Call.passes (computeSplicePoints g p) := by
    intro c
    rw [computeSplicePoints]
    apply Sat.get_bind
    split
    · exact Sat.throw rfl
    · apply Sat.set_bind
      exact Sat.pure rfl
  rw [relocate]
  refine Keeps.bind hpoints fun points => Keeps.bind ?_ fun _ => Keeps.get_bind fun c => ?_
  · refine Keeps.get_bind fun c => Keeps.bind (Keeps.onPart (by intros; rfl) _) fun _ => ?_
    exact Keeps.modify fun _ => rfl
  refine Keeps.ite ?_ (Keeps.pure _)
  refine Keeps.bind (hflush _) fun _ => Keeps.bind ?_ fun _ => Keeps.bind ?_ fun _ =>
    Keeps.bind ?_ fun _ => Keeps.bind (Keeps.modify fun _ => rfl) fun _ => Keeps.bind ?_ fun _ =>
    Keeps.bind (hfail _) fun _ => Keeps.bind (Keeps.modify fun _ => rfl) fun _ => Keeps.pure _
  · rw [copyData]
    exact Keeps.ite (Keeps.bind (hfail _) fun _ => hfail _) (Keeps.pure _)
  · exact Keeps.bind (hvcb _) fun _ => hflush _
  · rw [firstSplice]
    refine Keeps.ite ?_ (Keeps.bind (hvcb _) fun _ => hflush _)
    refine Keeps.bind (hfail _) fun _ => Keeps.bind (Keeps.modify fun _ => rfl) fun _ =>
      Keeps.bind (hfail _) fun _ => Keeps.bind (hfail _) fun _ => Keeps.modify fun _ => rfl
  · exact Keeps.get_bind fun c => hvcb _

section Pass

variable {c : Call} {e t : ℕ} {p : Parameter} {fails : Step → Bool}

/-- The splice points of a pass. -/
theorem Call.At.sat_computeSplicePoints (h : c.At g cs i n t) (hg : g.Mappable)
    (hmcb : c.file.mcb = mcbOf g cs) (hp : Portion g q cs i e m p) (hle : e ≤ cs.length)
    (hend : e * g.clusterSize < 2 ^ 32) :
    Sat (computeSplicePoints g p) c
      (fun points c' => points = splicePoints g cs i m t ∧
        c' = { c with sourceMcb := mcbOf g ((cs.drop i).take m) })
      (fun _ _ => False) := by
  have hlt : (i + m) * g.clusterSize < 2 ^ 32 := (Nat.mul_le_mul_right _ hp.le).trans_lt hend
  have heq := fatComputeMoveFileSplicePoints_eq hg h.file.clusters h.file.le hp.pos
    (hp.le.trans hle) hlt t
  rw [computeSplicePoints]
  apply Sat.get_bind
  rw [hmcb, h.fileOffset, h.targetCluster, hp.bytesToReallocate, h.sourceMcb, heq]
  exact Sat.set_bind (Sat.pure ⟨rfl, rfl⟩)

/-- The clusters `ds` were taken for the target. -/
structure Taken (g : Geometry) (w : Vcb) (m : ℕ) (ds : List ℕ) (v : Vcb) : Prop where
  nodup : ds.Nodup
  free : ∀ x ∈ ds, x ∈ zeroSet g w.vol.fat
  length : ds.length = m
  books : Books g v (zeroSet g w.vol.fat \ ds.toFinset) 0
  entry : ∀ j, lookupEntry g.width v.vol.fat j =
    chainEntry g.width (lookupEntry g.width w.vol.fat) ds j
  io : w.vol.io = none → v.vol.io = none

/-- The target can be had: it is free, and so is no other run as long. -/
def Available (g : Geometry) (w : Vcb) (t m : ℕ) : Prop :=
  FastPath g (exactRequest t (m * g.clusterSize)) w (zeroSet g w.vol.fat) ∧
    ∀ ds : List ℕ, ds.length = m → (∀ x ∈ ds, x ∈ zeroSet g w.vol.fat) → ds = List.range' t m

/-- The target is allocated. -/
theorem sat_allocateTarget (hg : g.Sound)
    (hb : Books g c.file.vcb (zeroSet g c.file.vcb.vol.fat) 0) (hmcb : c.targetMcb = [])
    (ht : c.targetCluster = t) (hbytes : p.bytesToReallocate = m * g.clusterSize) (hm : 0 < m)
    (hlt : m * g.clusterSize < 2 ^ 32) (ht2 : 2 ≤ t) (htN : t + m ≤ g.numberOfClusters + 2)
    (hfuel : 2 * g.numberOfWindows ≤ fuel) :
    Sat (allocateTarget g p fuel) c
      (fun _ c' => ∃ v mcb, c' = { c with
          file := { c.file with vcb := v }, targetMcb := mcb, diskSpaceAllocated := true } ∧
        ((mcb = [] ∧ ¬ Available g c.file.vcb t m) ∨ ∃ ds, Taken g c.file.vcb m ds v ∧ mcb = mcbOf g ds))
      (fun stop _ => (stop = .raised .diskFull ∧ c.file.vcb.numberOfFreeClusters < m) ∨
        c.file.vcb.vol.io ≠ none) := by
  obtain ⟨hbyteCount, hcount, hhint⟩ := exactRequest_spec ht2 hm hlt
  have hpos := Nat.mul_pos hm g.clusterSize_pos
  have hrequest : exactRequest c.targetCluster p.bytesToReallocate =
      exactRequest t (m * g.clusterSize) := by rw [ht, hbytes]
  rw [allocateTarget]
  apply Sat.get_bind
  dsimp only
  rw [hrequest]
  have hsat := sat_fatAllocateDiskSpace_exact (r := exactRequest t (m * g.clusterSize)) hg hb
    (by rw [hbyteCount]; omega) rfl (by rw [Request.Hinted, hhint]; omega) (by rwa [hcount]) hfuel
  rw [hcount] at hsat
  apply Sat.bind (R := fun _ c' => ∃ v mcb, c' = { c with
      file := { c.file with vcb := v }, targetMcb := mcb } ∧
    ((mcb = [] ∧ ¬ Available g c.file.vcb t m) ∨ ∃ ds, Taken g c.file.vcb m ds v ∧ mcb = mcbOf g ds))
  · apply Sat.onPart
    dsimp only
    rw [hmcb]
    refine hsat.mono ?_ fun _ _ hE => hE
    intro _ a ha
    refine ⟨a.vcb, a.mcb, rfl, ha.imp ?_ ?_⟩
    · exact And.imp_right fun hslow havailable => hslow havailable.1
    · rintro ⟨ds, hcompleted, hds⟩
      exact ⟨ds, ⟨hcompleted.nodup, hcompleted.free, hcompleted.length.trans hcount,
        hcompleted.books, hcompleted.entry, hcompleted.io⟩, hds⟩
  · rintro _ c' ⟨v, mcb, hc', hrest⟩
    subst hc'
    exact Sat.modify ⟨v, mcb, rfl, hrest⟩

/-- The map of consecutive clusters is one run. -/
theorem exists_run_range' (hg : g.Mappable) (hclusters : ∀ c ∈ List.range' t m, c ∈ g.clusters)
    (hm : 0 < m) (hlt : m * g.clusterSize < 2 ^ 32) :
    ∃ v, fatGetNextMcbEntry g (mcbOf g (List.range' t m)) 0 =
      some (v, fatGetLboFromIndex g t, m * g.clusterSize) := by
  have hS := g.clusterSize_pos
  have hroom := add_clusterSize_le hlt
  have hS2 : 2 ≤ g.clusterSize := by
    have h1 := g.cluster_mem
    have h2 := g.sector_mem
    exact Nat.le_self_pow (by omega) 2
  have ht := Geometry.mem_clusters.mp (hclusters t (List.mem_range'_1.mpr (by omega)))
  have hone : (mcbOf g (List.range' t m)).length = 1 := length_mcbOf_range' ht.1 hm
  have hle : (List.range' t m).length * g.clusterSize ≤ 2 ^ 32 := by
    rw [List.length_range']
    exact hlt.le
  have hlen : (List.range' t m).length * g.clusterSize = m * g.clusterSize := by
    rw [List.length_range']
  have hzero : 0 < (mcbOf g (List.range' t m)).length := by omega
  obtain ⟨v, lbo, count, hnext, hlookup⟩ := exists_fatGetNextMcbEntry hzero
  have hstart : runStart g (List.range' t m) 0 = 0 := by simp [runStart, Runs.startOf]
  have hlast := runStart_length g (List.range' t m)
  rw [hone, hlen] at hlast
  rw [hstart] at hlookup
  have hmS := Nat.mul_pos hm hS
  have hlbo := (lbo_of_lookup hg hclusters hle (by omega) hlookup).1
  have hcount := (run_of_lookup hle hlookup).2.2 (dvd_zero _)
  rw [hlast, Nat.sub_zero, min_eq_left (by omega)] at hcount
  refine ⟨v, ?_⟩
  rw [hnext, hcount, hlbo, fileLbo, Nat.zero_div, Nat.zero_mod, Nat.add_zero]
  congr 3
  rw [List.getD_eq_getElem _ _ (by rw [List.length_range']; omega), List.getElem_range']
  rw [Nat.mul_zero, Nat.add_zero]

/-- **The check of the target** finds out whether it is the one that was asked for. -/
theorem Call.exact_iff (hg : g.Mappable) {ds : List ℕ} (hds : ∀ x ∈ ds, x ∈ g.clusters)
    (hlen : ds.length = m) (hm : 0 < m) (hlt : m * g.clusterSize < 2 ^ 32)
    (hmcb : c.targetMcb = mcbOf g ds) (ht : c.targetCluster = t)
    (hbytes : p.bytesToReallocate = m * g.clusterSize) :
    c.exact g p = true ↔ ds = List.range' t m := by
  have hrun : ∀ y, ds = List.range' y m → (c.exact g p = true ↔ y = t) := by
    intro y hy
    rw [hy] at hds hmcb
    have hmem := hds y (List.mem_range'_1.mpr (by omega))
    obtain ⟨v, hnext⟩ := exists_run_range' hg hds hm hlt
    have hone := length_mcbOf_range' (g := g) (Geometry.mem_clusters.mp hmem).1 hm
    have hindex : fatGetIndexFromLbo g (fatGetLboFromIndex g y) = y :=
      fatGetIndexFromLbo_lbo (j := 0) hmem g.clusterSize_pos
    rw [Call.exact, hmcb, hone, hnext, ht, hbytes]
    simp [hindex]
  constructor
  · intro hexact
    have hone : (mcbOf g ds).length = 1 := by
      rw [Call.exact, decide_eq_true_eq, hmcb] at hexact
      exact hexact.1
    obtain ⟨y, hy⟩ := range'_of_mcbOf hds hone
    rw [hlen] at hy
    rw [hy, (hrun y hy).mp hexact]
  · exact fun heq => (hrun t heq).mpr rfl

end Pass

/-! ## The FAT after a pass -/

section Freed

variable {e : ℕ → ℕ} {t : ℕ}

/-- The splices change entries of the new chain only. -/
theorem Spliceable.splicedEntry_of_notMem (h : Spliceable g e cs i n t) {j : ℕ}
    (hj : j ∉ replaced cs i n t) : splicedEntry g.width e cs i n t j = e j := by
  have hle := h.le
  have hpos := h.pos
  rw [replaced, List.mem_append, List.mem_append, not_or, not_or] at hj
  have hlast : j ≠ t + n - 1 := fun heq => hj.2.1 (heq ▸ h.last_mem)
  have hsecond : secondEntry g.width e cs i n t j = e j := if_neg hlast
  rw [splicedEntry]
  by_cases hi : i = 0
  · rw [if_pos hi, hsecond]
  have hfront : j ≠ cs.getD (i - 1) 0 := by
    intro heq
    have hmem : (cs.take i)[i - 1]? = some j := by
      rw [List.getElem?_take_of_lt (by omega), heq, List.getD_eq_getElem _ _ (by omega)]
      exact List.getElem?_eq_getElem _
    exact hj.1 (List.mem_of_getElem? hmem)
  rw [if_neg hi, entrySet, if_neg hfront, hsecond]

/-- The free clusters when the range was replaced and freed. -/
theorem Spliceable.zeroSet_freed (h : Spliceable g e cs i n t)
    (hmark : g.numberOfClusters + 1 < g.width.reservedMark) {fat fat' : Bytes}
    (htaken : ∀ j, j ∉ List.range' t n → e j = lookupEntry g.width fat j)
    (hfreed : ∀ j, lookupEntry g.width fat' j =
      if j ∈ (cs.drop i).take n then 0 else splicedEntry g.width e cs i n t j) :
    zeroSet g fat' = zeroSet g fat \ (List.range' t n).toFinset ∪ ((cs.drop i).take n).toFinset := by
  ext j
  rw [mem_zeroSet, hfreed, Finset.mem_union, Finset.mem_sdiff, List.mem_toFinset, List.mem_toFinset,
    mem_zeroSet]
  by_cases hsource : j ∈ (cs.drop i).take n
  · have hcluster := Geometry.mem_clusters.mp
      (h.clusters j (List.mem_of_mem_drop (List.mem_of_mem_take hsource)))
    simp [hsource, hcluster]
  rw [if_neg hsource, or_iff_left hsource]
  by_cases hin : j ∈ replaced cs i n t
  · have hne := entry_ne_zero_of_leads (h.leads_splicedEntry hmark) hin
    refine iff_of_false (fun hz => hne hz.2) fun ⟨⟨_, hz⟩, htarget⟩ => ?_
    -- a cluster of the old chain
    have hold : j ∈ cs := by
      rw [replaced, List.mem_append, List.mem_append] at hin
      rcases hin with hin | hin | hin
      · exact List.mem_of_mem_take hin
      · exact absurd hin htarget
      · exact List.mem_of_mem_drop hin
    exact entry_ne_zero_of_leads h.chain hold ((htaken j htarget).trans hz)
  · have htarget : j ∉ List.range' t n := fun hmem =>
      hin (List.mem_append_right _ (List.mem_append_left _ hmem))
    rw [h.splicedEntry_of_notMem hin, htaken j htarget, and_iff_left htarget]

end Freed

section Pass

variable {c : Call} {e t : ℕ} {p : Parameter} {fails : Step → Bool}

/-- The range that was taken and the file's chain. -/
theorem Taken.spliceable {v : Vcb} (h : Taken g c.file.vcb m (List.range' t m) v)
    (hmark : g.numberOfClusters + 1 < g.width.reservedMark) (hf : c.file.HasChain g cs) (hm : 0 < m)
    (hin : i + m ≤ cs.length) : Spliceable g (lookupEntry g.width v.vol.fat) cs i m t := by
  have hlookup : lookupEntry g.width v.vol.fat =
      chainEntry g.width (lookupEntry g.width c.file.vcb.vol.fat) (List.range' t m) := funext h.entry
  have hclusters : ∀ x ∈ List.range' t m, x ∈ g.clusters := fun x hx => zeroSet_subset _ (h.free x hx)
  have hleads := hf.leads (List.ne_nil_of_length_pos (by omega))
  have hdis : ∀ x ∈ List.range' t m, x ∉ cs := fun x hx hmem =>
    entry_ne_zero_of_leads hleads hmem (mem_zeroSet.mp (h.free x hx)).2
  rw [hlookup]
  refine ⟨hleads.congr fun x hx => ?_, hf.clusters, hm, hin, ?_, hclusters, hdis⟩
  · rw [chainEntry_of_notMem fun hmem => hdis x hmem hx]
    rfl
  · refine leads_chainEntry (List.ne_nil_of_length_pos (by rw [List.length_range']; omega)) h.nodup ?_
    intro x hx
    have := Geometry.mem_clusters.mp (hclusters x hx)
    omega

/-- The file keeps its chain when the target is taken. -/
theorem Taken.hasChain {v : Vcb} (h : Spliceable g (lookupEntry g.width v.vol.fat) cs i m t)
    (hf : c.file.HasChain g cs) : ({ c.file with vcb := v } : FcbOrDcb).HasChain g cs := by
  refine ⟨?_, hf.clusters, hf.le⟩
  have hchain := hf.chain
  have hleads := h.chain
  obtain ⟨x, xs, heq⟩ := List.exists_cons_of_ne_nil hleads.ne_nil
  subst heq
  exact ⟨hchain.1, hleads⟩

/-- The variables behind a pass. -/
theorem Call.At.advance (hmark : g.numberOfClusters + 1 < g.width.reservedMark)
    (h : c.At g cs i n t) (hmcb : c.file.mcb = mcbOf g cs)
    (hp : Portion g q cs i e m p) (hle : e ≤ cs.length) (hend : e * g.clusterSize < 2 ^ 32)
    (ht : 2 ≤ t) (htN : t + m ≤ g.numberOfClusters + 2) {c' : Call} {v : Vcb}
    (heq : c' = { c.splice g i t with
      file := { (c.splice g i t).file with vcb := v }
      sourceMcb := mcbOf g ((cs.drop i).take m)
      targetMcb := mcbOf g (List.range' t m)
      diskSpaceAllocated := false })
    (hchain : c'.file.OnChain g (replaced cs i m t)) (hlen : (replaced cs i m t).length = cs.length) :
    (c'.advance g p).At g (replaced cs i m t) (i + m) e (t + m) := by
  have hS := g.clusterSize_pos
  have hN : g.width.reservedMark < 2 ^ 32 := by cases g.width <;> decide
  have hpm := hp.pos
  have hpe := hp.le
  have hbytes := hp.bytesToReallocate
  have hsum : (i + m) * g.clusterSize ≤ e * g.clusterSize := Nat.mul_le_mul_right _ hpe
  have hfields : c'.fileOffset = c.fileOffset ∧ c'.targetCluster = c.targetCluster ∧
      c'.targetLbo = c.targetLbo ∧ c'.file.mcb = c.file.mcb ∧
      c'.file.allocationSize = c.file.allocationSize ∧ c'.file.fileSize = c.file.fileSize := by
    rw [heq, Call.splice]
    split <;> exact ⟨rfl, rfl, rfl, rfl, rfl, rfl⟩
  obtain ⟨hoffset, hcluster, hlbo, hfmcb, hfsize, hffile⟩ := hfields
  rw [h.fileOffset] at hoffset
  rw [h.targetCluster] at hcluster
  rw [h.targetLbo] at hlbo
  rw [hmcb] at hfmcb
  have hmap : (c'.advance g p).file.mcb = mcbOf g (replaced cs i m t) := by
    rw [Call.advance]
    dsimp only
    rw [hfmcb, hoffset, hlbo, hbytes]
    exact fatAddMcbEntry_replaced hpm (hpe.trans hle) ht
  have hbytesEq : chainBytes g (replaced cs i m t) = chainBytes g cs := by
    rw [chainBytes, chainBytes, hlen]
  have hne : replaced cs i m t ≠ [] := List.ne_nil_of_length_pos (by omega)
  refine ⟨⟨⟨⟨⟨hchain.chain, hchain.clusters, hchain.le⟩, hchain.consistent, hchain.dirent⟩, ?_⟩, ?_⟩,
    ?_, ?_, hpe, ?_, ?_, ?_, ?_, ?_⟩
  · change c'.file.allocationSize = _ ∧ _ ∨ c'.file.allocationSize = _ ∧ _
    rw [hfsize, hbytesEq]
    refine h.file.size.imp (fun hsize => ⟨hsize.1, hmap⟩) fun hsize => ⟨hsize.1, hne, _, le_rfl, ?_,
      wholeRuns_length _⟩
    rw [List.take_length]
    exact hmap
  · change c'.file.fileSize ≤ _
    rw [hffile, hbytesEq]
    exact h.file.fileSize
  · rw [Call.advance]
    dsimp only
    rw [hoffset, hbytes, ← Nat.add_mul, ulong_of_lt (by omega)]
  · have hle' : m * g.clusterSize ≤ (e - i) * g.clusterSize := Nat.mul_le_mul_right _ (by omega)
    have hlt : (e - i) * g.clusterSize ≤ e * g.clusterSize := Nat.mul_le_mul_right _ (Nat.sub_le _ _)
    rw [Call.advance]
    dsimp only
    rw [hp.byteCount, hbytes, ulongSub_of_le (by omega) hle', ← Nat.sub_mul, Nat.sub_sub]
  · rw [Call.advance]
    dsimp only
    rw [hcluster, hbytes, Nat.mul_div_cancel _ hS, ulong_of_lt (by omega)]
  · rw [Call.advance]
    dsimp only
    rw [hlbo, hbytes, fatGetLboFromIndex_add ht]
  · rw [Call.advance, heq]
    dsimp only
    apply RunLoop.fatRemoveMcbEntry_all
    rw [List.length_take, List.length_drop]
    exact (Nat.mul_le_mul_right _ (by omega : _ ≤ i + m)).trans (by omega)
  · rw [Call.advance, heq]
    dsimp only
    apply RunLoop.fatRemoveMcbEntry_all
    rw [List.length_range']
    exact (Nat.mul_le_mul_right _ (by omega : m ≤ i + m)).trans (by omega)
  · rw [Call.advance, heq]

/-- Freeing the source adds its clusters to the books. -/
theorem sat_freeSource_books (hg : g.Sound) (hcs : ∀ c ∈ cs, c ∈ g.clusters) (hnodup : cs.Nodup)
    (hlt : cs.length * g.clusterSize < 2 ^ 32) (hmcb : c.sourceMcb = mcbOf g cs) {F : Finset ℕ}
    (hb : Books g c.file.vcb F 0) (hdis : Disjoint F cs.toFinset) :
    Sat (freeSource g) c
      (fun _ c' => ∃ v, c' = { c with file := { c.file with vcb := v } } ∧
        Books g v (F ∪ cs.toFinset) 0 ∧ c.file.vcb.vol.Wrote v.vol g.width fun j =>
          if j ∈ cs then 0 else lookupEntry g.width c.file.vcb.vol.fat j)
      (fun _ _ => c.file.vcb.vol.io ≠ none) := by
  have hruns := runClusters_mcbRuns hg hcs hlt.le
  rw [if_neg (by omega), ← hmcb] at hruns
  have hvalid : ∀ run ∈ mcbRuns g c.sourceMcb, ValidRun g run := by
    rw [hmcb]
    exact validRun_mcbRuns hg hcs hlt.le
  have hsat := hb.sat_fatDeallocateDiskSpace hvalid (by rwa [hruns]) (by rwa [hruns])
  rw [hruns] at hsat
  rw [freeSource]
  apply Sat.get_bind
  apply Sat.onPart
  exact hsat.mono (fun _ v h => ⟨v, rfl, h.1, h.2⟩) fun _ _ hE => hE.1

/-- **A pass** moves its clusters, or leaves them where they are when the target cannot be had. -/
theorem Call.At.sat_relocate (hmark : g.numberOfClusters + 1 < g.width.reservedMark)
    (harea : 0 < g.fileAreaLbo) (h : c.At g cs i n t) (hmcb : c.file.mcb = mcbOf g cs)
    (hp : Portion g q cs i e m p) (hle : e ≤ cs.length) (hend : e * g.clusterSize < 2 ^ 32)
    (ht : 2 ≤ t) (htN : t + m ≤ g.numberOfClusters + 2) (hfuel : 2 * g.numberOfWindows ≤ fuel) :
    Sat (relocate g q fails p fuel) c
      (fun moved c' => if moved then c'.At g (replaced cs i m t) (i + m) e (t + m) ∧
          (c.file.vcb.vol.io = none → c'.file.vcb.vol.io = none) ∧ ∀ x ∈ List.range' t m, x ∉ cs
        else ¬ Available g c.file.vcb t m)
      (fun stop _ => (stop = .raised .diskFull ∧ c.file.vcb.numberOfFreeClusters < m) ∨
        Broken fails c) := by
  have hsound := h.file.consistent.sound
  have hg := hsound.mappable harea
  have hpm := hp.pos
  have hin : i + m ≤ cs.length := hp.le.trans hle
  have hlt : (i + m) * g.clusterSize < 2 ^ 32 := (Nat.mul_le_mul_right _ hp.le).trans_lt hend
  have hmlt : m * g.clusterSize < 2 ^ 32 := (Nat.mul_le_mul_right _ (by omega)).trans_lt hlt
  rw [relocate]
  refine Sat.bind ((h.sat_computeSplicePoints hg hmcb hp hle hend).mono (fun _ _ h => h)
    fun _ _ h => h.elim) ?_
  rintro points c1 ⟨hpoints, hc1⟩
  subst hpoints hc1
  refine Sat.bind ((sat_allocateTarget
    (c := { c with sourceMcb := mcbOf g ((cs.drop i).take m) }) hsound h.file.consistent.books h.targetMcb h.targetCluster
    hp.bytesToReallocate hpm hmlt ht htN hfuel).mono (fun _ _ h => h)
    fun _ _ hE => hE.imp_right Or.inr) ?_
  rintro _ c2 ⟨v, mcb, hc2, hrest⟩
  apply Sat.get_bind
  obtain ⟨hnil, hnot⟩ | ⟨ds, htaken, hds⟩ := hrest
  · -- nothing was allocated
    have hexact : ¬ c2.exact g p = true := by
      rw [hc2, Call.exact, hnil]
      simp
    rw [if_neg hexact]
    exact Sat.pure hnot
  have hclusters : ∀ x ∈ ds, x ∈ g.clusters := fun x hx => zeroSet_subset _ (htaken.free x hx)
  have htarget : c2.targetCluster = t ∧ c2.targetMcb = mcbOf g ds := by
    rw [hc2]
    exact ⟨h.targetCluster, hds⟩
  have hexact : c2.exact g p = true ↔ ds = List.range' t m := Call.exact_iff hg hclusters
    htaken.length hpm hmlt htarget.2 htarget.1 hp.bytesToReallocate
  by_cases hother : ¬ c2.exact g p = true
  · rw [if_neg hother]
    refine Sat.pure fun havailable => hother (hexact.mpr (havailable.2 ds htaken.length htaken.free))
  rw [if_pos (not_not.mp hother)]
  have hrange := hexact.mp (not_not.mp hother)
  subst hrange hds
  have hs : Spliceable g (lookupEntry g.width c2.file.vcb.vol.fat) cs i m t := by
    rw [hc2]
    exact htaken.spliceable hmark h.file.toHasChain hpm hin
  have hio : Broken fails c2 → Broken fails c := by
    refine Or.imp_right fun hne hnone => hne ?_
    rw [hc2]
    exact htaken.io hnone
  refine Sat.bind (sat_flushFatEntries.mono (fun _ _ h => h)
    fun _ _ hE => Or.inr (Or.inl ⟨_, hE.2.1⟩)) ?_
  intro _ c3 hc3
  rw [hc3]
  refine Sat.bind (sat_copyData.mono (fun _ _ h => h) fun _ _ hE => Or.inr (Or.inl hE.2.1)) ?_
  intro _ c4 hc4
  rw [hc4, ← bind_assoc]
  refine Sat.bind (hs.sat_splices.mono (fun _ _ h => h) fun _ _ hE => Or.inr (hio hE.2)) ?_
  rintro _ c5 ⟨vol, hc5, hwrote⟩
  apply Sat.modify_bind
  -- what is freed is not free
  have hsource : ∀ x ∈ (cs.drop i).take m, x ∈ cs := fun x hx =>
    List.mem_of_mem_drop (List.mem_of_mem_take hx)
  have hdis : Disjoint (zeroSet g c.file.vcb.vol.fat \ (List.range' t m).toFinset)
      ((cs.drop i).take m).toFinset := by
    rw [Finset.disjoint_left]
    intro x hx hmem
    have hzero := (mem_zeroSet.mp (Finset.mem_sdiff.mp hx).1).2
    exact entry_ne_zero_of_leads (h.file.leads hs.chain.ne_nil) (hsource x (List.mem_toFinset.mp hmem))
      hzero
  have hlen : ((cs.drop i).take m).length * g.clusterSize < 2 ^ 32 := by
    rw [List.length_take, List.length_drop]
    exact (Nat.mul_le_mul_right _ (by omega : _ ≤ i + m)).trans_lt hlt
  have hc5' : c5.file.vcb = { v with vol := vol } ∧
      c5.sourceMcb = mcbOf g ((cs.drop i).take m) := by
    rw [hc5, hc2, Call.splice]
    split <;> exact ⟨rfl, rfl⟩
  have hbooks : Books g c5.file.vcb (zeroSet g c.file.vcb.vol.fat \ (List.range' t m).toFinset) 0 := by
    rw [hc5'.1]
    exact htaken.books.setVol vol
  have hc5io : c5.file.vcb.vol.io ≠ none → Broken fails c := by
    intro hne
    refine hio (Or.inr fun hnone => hne ?_)
    rw [hc5'.1]
    exact hwrote.io hnone
  refine Sat.bind ((sat_freeSource_books (c := { c5 with diskSpaceAllocated := false }) hsound
    (fun x hx => h.file.clusters x (hsource x hx)) (h.file.nodup.sublist
      ((List.take_sublist _ _).trans (List.drop_sublist _ _))) hlen hc5'.2 hbooks hdis).mono
    (fun _ _ h => h) fun _ _ hE => Or.inr (hc5io hE)) ?_
  rintro _ c6 ⟨v', hc6, hbooks', hfreed⟩
  refine Sat.bind (sat_failIf.mono (fun _ _ h => h) fun _ _ hE => Or.inr (Or.inl ⟨_, hE.2.1⟩)) ?_
  intro _ c7 hc7
  rw [hc7]
  apply Sat.modify_bind
  refine Sat.pure ?_
  rw [if_pos rfl]
  have hentry : ∀ j, lookupEntry g.width v'.vol.fat j = if j ∈ (cs.drop i).take m then 0
      else splicedEntry g.width (lookupEntry g.width c2.file.vcb.vol.fat) cs i m t j := by
    intro j
    rw [hfreed.entry]
    dsimp only
    rw [hc5'.1, ← hwrote.entry]
  have hvcb : c6.file.vcb = v' := by rw [hc6]
  have heq : c6 = { c.splice g i t with
      file := { (c.splice g i t).file with vcb := v' }
      sourceMcb := mcbOf g ((cs.drop i).take m)
      targetMcb := mcbOf g (List.range' t m)
      diskSpaceAllocated := false } := by
    rw [hc6, hc5, hc2, Call.splice, Call.splice]
    split <;> rfl
  have hfirst : c6.file.firstClusterOfFile = if i = 0 then t else c.file.firstClusterOfFile := by
    rw [heq, Call.splice]
    split <;> rfl
  have hzero : zeroSet g v'.vol.fat = zeroSet g c.file.vcb.vol.fat \ (List.range' t m).toFinset ∪
      ((cs.drop i).take m).toFinset := by
    refine hs.zeroSet_freed hmark (fun j hj => ?_) hentry
    rw [hc2]
    dsimp only
    rw [htaken.entry, chainEntry_of_notMem hj]
  have hchain : c6.file.OnChain g (replaced cs i m t) := by
    have hf : c2.file.HasChain g cs := by
      have hs' : Spliceable g (lookupEntry g.width v.vol.fat) cs i m t := by
        rw [hc2] at hs
        exact hs
      rw [hc2]
      exact Taken.hasChain hs' h.file.toHasChain
    refine ⟨hs.hasChain hmark hf (fun x hx => ?_) ?_, ⟨hsound, ?_⟩, ?_⟩
    · rw [hvcb, hentry, if_neg (hs.notMem_source hx)]
    · rw [hfirst, hc2]
    · rw [hvcb, hzero]
      exact hbooks'
    · rw [hfirst, heq, Call.splice]
      by_cases hi : i = 0
      · rw [if_pos hi, if_pos hi]
        exact cluster_store hmark (hs.targetClusters t (by rw [List.mem_range'_1]; omega)) _
      · rw [if_neg hi, if_neg hi]
        exact h.file.dirent
  refine ⟨h.advance hmark hmcb hp hle hend ht htN heq hchain hs.length_replaced, fun hnone => ?_,
    hs.disjoint⟩
  change c6.file.vcb.vol.io = none
  rw [hvcb]
  apply hfreed.io
  dsimp only
  rw [hc5'.1]
  apply hwrote.io
  rw [hc2]
  exact htaken.io hnone

end Pass

/-! ## The loop -/

/-- The clusters of a chain in which a range was replaced. -/
theorem getElem?_replaced {t : ℕ} (hin : i + n ≤ cs.length) (j : ℕ) :
    (replaced cs i n t)[j]? = if i ≤ j ∧ j < i + n then some (t + (j - i)) else cs[j]? := by
  have hfront : (cs.take i).length = i := by rw [List.length_take, min_eq_left (by omega)]
  have htarget : (List.range' t n).length = n := List.length_range'
  rw [replaced]
  by_cases hlt : j < i
  · rw [List.getElem?_append_left (by omega), List.getElem?_take_of_lt hlt, if_neg (by omega)]
  rw [List.getElem?_append_right (by omega), hfront]
  by_cases hmid : j < i + n
  · rw [List.getElem?_append_left (by omega), List.getElem?_range' (by omega), if_pos ⟨by omega, hmid⟩,
      Nat.one_mul]
  · rw [List.getElem?_append_right (by omega), htarget, List.getElem?_drop, if_neg (by omega)]
    congr 1
    omega

/-- Replacing the next range, too. -/
theorem replaced_replaced {t k : ℕ} (hin : i + (m + k) ≤ cs.length) :
    replaced (replaced cs i m t) (i + m) k (t + m) = replaced cs i (m + k) t := by
  have hlen : (replaced cs i m t).length = cs.length := by
    simp only [replaced, List.length_append, List.length_take, List.length_range', List.length_drop]
    omega
  apply List.ext_getElem?
  intro j
  rw [getElem?_replaced (by omega), getElem?_replaced (by omega), getElem?_replaced hin]
  by_cases hfirst : i ≤ j ∧ j < i + m
  · rw [if_neg (by omega), if_pos hfirst, if_pos ⟨hfirst.1, by omega⟩]
  by_cases hsecond : i + m ≤ j ∧ j < i + m + k
  · rw [if_pos hsecond, if_pos ⟨by omega, by omega⟩]
    congr 1
    omega
  · rw [if_neg hsecond, if_neg hfirst, if_neg (by omega)]

/-- The passes `ps` are for the clusters from number `i` on before `j`, one behind the other, of a
request that ends at cluster number `e`. -/
def Passes (g : Geometry) (q : File) (cs : List ℕ) (e : ℕ) : ℕ → List Pass → ℕ → Prop
  | i, [], j => i = j
  | i, p :: ps, j => p.fileOffset = i * g.clusterSize ∧
      ∃ m, Portion g q cs i e m p.parameter ∧ Passes g q cs e (i + m) ps j

/-- Only the clusters that are moved count. -/
theorem Portion.congr {cs' : List ℕ} {e : ℕ} {p : Parameter} (h : Portion g q cs' i e m p)
    (heq : ∀ k, i ≤ k → cs'.getD k 0 = cs.getD k 0) : Portion g q cs i e m p := by
  refine ⟨h.pos, h.le, h.byteCount, h.bytesToReallocate, h.bytesToWrite, fun b hb => ?_⟩
  rw [← h.source b hb, fileLbo, fileLbo, heq]
  rw [Nat.le_div_iff_mul_le g.clusterSize_pos]
  omega

theorem Passes.congr {cs' : List ℕ} {e : ℕ} {ps : List Pass} {j : ℕ} (h : Passes g q cs' e i ps j)
    (heq : ∀ k, i ≤ k → cs'.getD k 0 = cs.getD k 0) : Passes g q cs e i ps j := by
  induction ps generalizing i with
  | nil => exact h
  | cons p ps ih =>
      obtain ⟨hoffset, m, hp, hps⟩ := h
      exact ⟨hoffset, m, hp.congr heq, ih hps fun k hk => heq k (by omega)⟩

/-- Why the loop stops before its end. -/
def Excused (fails : ℕ → Step → Bool) (c : Call) (stop : Stop) : Prop :=
  stop = .raised .diskFull ∨ (∃ number step, fails number step = true) ∨ c.file.vcb.vol.io ≠ none

/-- The first `k` clusters of the request were moved, and none of them was where it is now. -/
structure Moved (g : Geometry) (cs : List ℕ) (i k t : ℕ) (c : Call) : Prop where
  file : Ready g c.file (replaced cs i k t)
  targetMcb : c.targetMcb = []
  diskSpaceAllocated : c.diskSpaceAllocated = false
  ne : ∀ j < k, t + j ≠ cs.getD (i + j) 0

/-- The passes that were recorded since `c`. -/
def Recorded (g : Geometry) (q : File) (cs : List ℕ) (i e : ℕ) (c c' : Call) (ps : List Pass)
    (j : ℕ) : Prop :=
  c'.passes = c.passes ++ ps ∧ Passes g q cs e i ps j

section Loop

variable {c : Call} {e t : ℕ} {fails : ℕ → Step → Bool}

/-- The loop's variables and the parameters of the next pass. -/
theorem Call.At.sat_computeParameter (h : c.At g cs i e t) (harea : 0 < g.fileAreaLbo) (hie : i < e)
    (hend : e * g.clusterSize < 2 ^ 32) (hfuel : cs.length ≤ fuel) :
    Sat (computeParameter g q fuel) c
      (fun p c' => c'.At g cs i e t ∧ c'.file.mcb = mcbOf g cs ∧ c'.passes = c.passes ∧
        c'.file.vcb = c.file.vcb.withFault c'.file.vcb.vol.io ∧
        (c.file.vcb.vol.io = none → c'.file.vcb.vol.io = none) ∧
        if cs.length ≤ i then p = ⟨0, 0, 0, 0⟩ else ∃ m, Portion g q cs i (min e cs.length) m p)
      (fun _ c' => c'.passes = c.passes ∧ c.file.vcb.vol.io ≠ none) := by
  have hsum : i + (e - i) = e := by omega
  have heq : fatComputeMoveFileParameter g q c.fileOffset c.byteCount fuel =
      fatComputeMoveFileParameter g q (i * g.clusterSize) ((e - i) * g.clusterSize) fuel := by
    rw [h.fileOffset, h.byteCount]
  rw [computeParameter]
  apply Sat.get_bind
  apply Sat.onPart
  rw [heq]
  refine (h.file.sat_fatComputeMoveFileParameter harea (n := e - i) (by omega) (by rwa [hsum])
    hfuel).mono ?_ fun _ _ hio => ⟨rfl, hio⟩
  rintro p f ⟨⟨hknown, hsize, hvcb, hio⟩, hp⟩
  rw [hsum] at hp
  exact ⟨⟨⟨hknown.toValid, hsize⟩, h.fileOffset, h.byteCount, h.le, h.targetCluster, h.targetLbo,
    h.sourceMcb, h.targetMcb, h.diskSpaceAllocated⟩, hknown.mcb, rfl, hvcb, hio, hp⟩

/-- Nothing is moved yet. -/
theorem Call.At.moved (h : c.At g cs i e t) : Moved g cs i 0 t c := by
  have hself : replaced cs i 0 t = cs := by
    rw [replaced, List.range'_zero, List.nil_append, Nat.add_zero, List.take_append_drop]
  refine ⟨?_, h.targetMcb, h.diskSpaceAllocated, fun j hj => absurd hj (by omega)⟩
  rw [hself]
  exact h.file

/-- **The loop** moves what the request covers of the file, unless a target cannot be had. -/
theorem Call.At.sat_moveLoop (hmark : g.numberOfClusters + 1 < g.width.reservedMark)
    (harea : 0 < g.fileAreaLbo) {passes : ℕ} (h : c.At g cs i e t)
    (hend : e * g.clusterSize < 2 ^ 32) (ht : 2 ≤ t) (htN : t + (e - i) ≤ g.numberOfClusters + 2)
    (hfuel : 2 * g.numberOfWindows ≤ fuel ∧ cs.length ≤ fuel)
    (hpasses : min e cs.length - i ≤ passes ∧ (passes = 0 → e = i)) :
    Sat (moveLoop g q fails fuel passes) c
      (fun moved c' => ∃ ps j, Recorded g q cs i (min e cs.length) c c' ps j ∧
        (i < min e cs.length → ps ≠ []) ∧ (moved = true → j = max i (min e cs.length) ∧
          Moved g cs i (min e cs.length - i) t c'))
      (fun stop c' => ∃ ps j, Recorded g q cs i (min e cs.length) c c' ps j ∧
        (i < min e cs.length → c.file.vcb.vol.io = none → ps ≠ []) ∧ Excused fails c stop) := by
  have hS := g.clusterSize_pos
  induction passes generalizing c cs i e t with
  | zero =>
      have hei := hpasses.2 rfl
      have hzero : min e cs.length - i = 0 := by omega
      rw [moveLoop]
      apply Sat.get_bind
      rw [if_pos (by rw [h.byteCount, hei, Nat.sub_self, Nat.zero_mul])]
      refine Sat.pure ⟨[], i, ⟨(List.append_nil _).symm, rfl⟩, fun hlt => absurd hlt (by omega),
        fun _ => ⟨by omega, ?_⟩⟩
      rw [hzero]
      exact h.moved
  | succ passes ih =>
      rw [moveLoop]
      apply Sat.get_bind
      have hle := h.le
      by_cases hie : i = e
      · have hzero : min e cs.length - i = 0 := by omega
        rw [if_pos (by rw [h.byteCount, hie, Nat.sub_self, Nat.zero_mul])]
        refine Sat.pure ⟨[], i, ⟨(List.append_nil _).symm, rfl⟩, fun hlt => absurd hlt (by omega),
          fun _ => ⟨by omega, ?_⟩⟩
        rw [hzero]
        exact h.moved
      have hpos := Nat.mul_pos (show 0 < e - i by omega) hS
      rw [if_neg (by rw [h.byteCount]; omega)]
      refine Sat.bind ((h.sat_computeParameter harea (by omega) hend hfuel.2).mono (fun _ _ h => h) ?_) ?_
      · rintro stop c' ⟨hrecord, hio⟩
        exact ⟨[], i, ⟨by rw [hrecord, List.append_nil], rfl⟩, fun _ hnone => absurd hnone hio,
          Or.inr (Or.inr hio)⟩
      rintro p c1 ⟨h1, hmcb, hrecord, _, hio, hp⟩
      by_cases hbeyond : cs.length ≤ i
      · have hzero : min e cs.length - i = 0 := by omega
        rw [if_pos hbeyond] at hp
        rw [if_pos (by rw [hp])]
        refine Sat.pure ⟨[], i, ⟨by rw [hrecord, List.append_nil], rfl⟩,
          fun hlt => absurd hlt (by omega), fun _ => ⟨by omega, ?_⟩⟩
        rw [hzero]
        exact h1.moved
      rw [if_neg hbeyond] at hp
      obtain ⟨m, hp⟩ := hp
      have hpm := hp.pos
      have hpe := hp.le
      have hbytes := Nat.mul_pos (show 0 < min e cs.length - i by omega) hS
      rw [if_neg (by rw [hp.byteCount]; omega)]
      apply Sat.get_bind
      apply Sat.modify_bind
      have h2 : (c1.record p).At g cs i e t := ⟨h1.file, h1.fileOffset, h1.byteCount, h1.le,
        h1.targetCluster, h1.targetLbo, h1.sourceMcb, h1.targetMcb, h1.diskSpaceAllocated⟩
      have hend' : min e cs.length * g.clusterSize < 2 ^ 32 :=
        (Nat.mul_le_mul_right _ (min_le_left _ _)).trans_lt hend
      obtain ⟨pass, hpass⟩ : ∃ pass : Pass, pass = ⟨c1.fileOffset, c1.targetCluster, p⟩ := ⟨_, rfl⟩
      have hfirst : pass.fileOffset = i * g.clusterSize ∧ pass.parameter = p := by
        rw [hpass]
        exact ⟨h1.fileOffset, rfl⟩
      have hrecord2 : (c1.record p).passes = c.passes ++ [pass] := by
        rw [Call.record, hrecord, hpass]
      have hone : Passes g q cs (min e cs.length) i [pass] (i + m) := by
        refine ⟨hfirst.1, m, ?_, rfl⟩
        rw [hfirst.2]
        exact hp
      obtain ⟨failing, hfailing⟩ : ∃ failing, failing = fails c1.passes.length := ⟨_, rfl⟩
      have hrelocate : Sat (relocate g q failing p fuel) (c1.record p) _ _ :=
        h2.sat_relocate hmark harea hmcb hp (min_le_right _ _) hend' ht (by omega) hfuel.1
      rw [hfailing] at hrelocate
      have hrelocate := hrelocate.and (keeps_passes _ p (c1.record p))
      refine Sat.bind (hrelocate.mono (fun _ _ h => h) ?_) ?_
      · -- the record holds the pass that stopped
        rintro stop c' ⟨hwhy, hkeep⟩
        refine ⟨[pass], i + m, ⟨by rw [hkeep, hrecord2], hone⟩, by simp, ?_⟩
        rcases hwhy with ⟨hstop, -⟩ | ⟨step, hstep⟩ | hne
        · exact Or.inl hstop
        · exact Or.inr (Or.inl ⟨_, step, hstep⟩)
        · exact Or.inr (Or.inr fun hnone => hne (hio hnone))
      rintro moved c' ⟨hmoved, hkeep⟩
      cases moved with
      | false =>
          rw [if_neg (by simp)]
          exact Sat.pure ⟨[pass], i + m, ⟨by rw [hkeep, hrecord2], hone⟩, by simp, by simp⟩
      | true =>
          rw [if_pos rfl] at hmoved ⊢
          obtain ⟨h3, hio', hdis⟩ := hmoved
          have hin : i + m ≤ cs.length := by omega
          have hlen : (replaced cs i m t).length = cs.length := by
            simp only [replaced, List.length_append, List.length_take, List.length_range',
              List.length_drop]
            omega
          have hmin : min (min e cs.length) (replaced cs i m t).length = min e cs.length := by
            rw [hlen]
            omega
          have hrest : ∀ k, i + m ≤ k → (replaced cs i m t).getD k 0 = cs.getD k 0 := by
            intro k hk
            rw [List.getD_eq_getElem?_getD, getElem?_replaced hin, if_neg (by omega),
              List.getD_eq_getElem?_getD]
          have hih := ih h3 hend' (by omega) (by omega) ⟨hfuel.1, by rw [hlen]; exact hfuel.2⟩
            (by rw [hmin]; omega)
          rw [hmin] at hih
          have hall : ∀ {d : Call} {ps : List Pass} {j : ℕ},
              Recorded g q (replaced cs i m t) (i + m) (min e cs.length) c' d ps j →
              Recorded g q cs i (min e cs.length) c d (pass :: ps) j := by
            rintro d ps j ⟨hd, hps⟩
            refine ⟨by rw [hd, hkeep, hrecord2, List.append_assoc]; rfl, hfirst.1, m, ?_, hps.congr hrest⟩
            rw [hfirst.2]
            exact hp
          refine hih.mono ?_ ?_
          · rintro moved d ⟨ps, j, hps, _, hmoved⟩
            refine ⟨pass :: ps, j, hall hps, by simp, fun htrue => ?_⟩
            obtain ⟨hj, hd⟩ := hmoved htrue
            refine ⟨by omega, ?_, hd.targetMcb, hd.diskSpaceAllocated, fun k hk => ?_⟩
            · have hfile := hd.file
              rw [replaced_replaced (by omega)] at hfile
              rwa [show m + (min e cs.length - (i + m)) = min e cs.length - i by omega] at hfile
            · by_cases hkm : k < m
              · intro heq
                refine hdis (t + k) (List.mem_range'_1.mpr (by omega)) ?_
                rw [heq, List.getD_eq_getElem _ _ (by omega)]
                exact List.getElem_mem _
              · have hne := hd.ne (k - m) (by omega)
                rwa [hrest _ (by omega), show t + m + (k - m) = t + k by omega,
                  show i + m + (k - m) = i + k by omega] at hne
          · rintro stop d ⟨ps, j, hps, _, hwhy⟩
            refine ⟨pass :: ps, j, hall hps, by simp, ?_⟩
            exact hwhy.imp_right (Or.imp_right fun hne hnone => hne (hio' (hio hnone)))

end Loop

/-! ## Valid data -/

/-- A pass moves some bytes of one run, no more than what is left of a request that ends at byte
`e`, and copies all of them that are valid. -/
structure Pass.Right (g : Geometry) (q : File) (cs : List ℕ) (e : ℕ) (p : Pass) : Prop where
  pos : 0 < p.parameter.bytesToReallocate
  le : p.parameter.bytesToReallocate ≤ p.parameter.byteCount
  remaining : p.fileOffset + p.parameter.byteCount = e
  source : ∀ b < p.parameter.bytesToReallocate,
    fileLbo g cs (p.fileOffset + b) = p.parameter.sourceLbo + b
  valid : ∀ x, p.fileOffset ≤ x → x < p.fileOffset + p.parameter.bytesToReallocate →
    x < q.validDataLength → x < p.fileOffset + p.parameter.bytesToWrite

/-- The passes move the bytes from `o` on before `e`, one behind the other. -/
def Tiles : ℕ → List Pass → ℕ → Prop
  | o, [], e => o = e
  | o, p :: ps, e => p.fileOffset = o ∧ Tiles (o + p.parameter.bytesToReallocate) ps e

/-- The call with the fault of its volume at another access. -/
def Call.withFault (c : Call) (io : Option ℕ) : Call := { c with file := c.file.withFault io }

/-- From the state `c` on, in which the clusters from number `i` on before `e` are to be moved, every
pass of the loop is right.  When the loop comes to its end the passes have moved what the file has of
these clusters; it stops before only if a step fails or the disk is full. -/
def MovesValidData (g : Geometry) (q : File) (cs : List ℕ) (i e : ℕ) (c : Call) : Prop :=
  ∀ io fails fuel, 2 * g.numberOfWindows + g.numberOfClusters ≤ fuel →
    Sat (moveLoop g q fails fuel fuel) (c.withFault io)
      (fun moved c' => ∃ ps, c'.passes = c.passes ++ ps ∧
        (∀ p ∈ ps, p.Right g q cs (min e cs.length * g.clusterSize)) ∧
        (moved = true → Tiles (i * g.clusterSize) ps (max i (min e cs.length) * g.clusterSize)))
      (fun stop c' => ∃ ps, c'.passes = c.passes ++ ps ∧
        (∀ p ∈ ps, p.Right g q cs (min e cs.length * g.clusterSize)) ∧
        Excused fails (c.withFault io) stop)

section Valid

variable {c : Call} {e t : ℕ}

theorem Call.At.withFault (h : c.At g cs i e t) (io : Option ℕ) : (c.withFault io).At g cs i e t :=
  ⟨⟨h.file.toValid.withFault io, h.file.fileSize⟩, h.fileOffset, h.byteCount, h.le, h.targetCluster,
    h.targetLbo, h.sourceMcb, h.targetMcb, h.diskSpaceAllocated⟩

theorem Passes.tiles {ps : List Pass} {j : ℕ} (h : Passes g q cs e i ps j) :
    Tiles (i * g.clusterSize) ps (j * g.clusterSize) := by
  induction ps generalizing i with
  | nil => exact congrArg (· * g.clusterSize) h
  | cons p ps ih =>
      obtain ⟨hoffset, m, hp, hps⟩ := h
      refine ⟨hoffset, ?_⟩
      rw [hp.bytesToReallocate, ← Nat.add_mul]
      exact ih hps

/-- Passes copy what is valid when rounding up does not wrap. -/
theorem Passes.right (hend : e * g.clusterSize < 2 ^ 32)
    (hvdl : q.nodeType = .fcb → i < e → q.validDataLength + g.clusterSize ≤ 2 ^ 32)
    {ps : List Pass} {j : ℕ} (h : Passes g q cs e i ps j) :
    ∀ p ∈ ps, p.Right g q cs (e * g.clusterSize) := by
  induction ps generalizing i with
  | nil => simp
  | cons p ps ih =>
      obtain ⟨hoffset, m, hp, hps⟩ := h
      have hpm := hp.pos
      have hpe := hp.le
      have hlt : (i + m) * g.clusterSize < 2 ^ 32 := (Nat.mul_le_mul_right _ hpe).trans_lt hend
      intro p' hp'
      rw [List.mem_cons] at hp'
      rcases hp' with heq | hp'
      · rw [heq]
        have hsum : (i + (e - i)) * g.clusterSize = e * g.clusterSize := by
          rw [Nat.add_sub_cancel' (by omega)]
        rw [Nat.add_mul] at hsum
        constructor
        · rw [hp.bytesToReallocate]
          exact Nat.mul_pos hpm g.clusterSize_pos
        · rw [hp.bytesToReallocate, hp.byteCount]
          exact Nat.mul_le_mul_right _ (by omega)
        · rw [hoffset, hp.byteCount]
          exact hsum
        · rw [hoffset, hp.bytesToReallocate]
          exact hp.source
        · rw [hoffset, hp.bytesToReallocate, hp.bytesToWrite]
          exact fun x hx hx' hvalid =>
            lt_bytesToWrite hlt (fun hfcb => hvdl hfcb (by omega)) hx hx' hvalid
      · exact ih (fun hfcb _ => hvdl hfcb (by omega)) hps p' hp'

/-- The first pass does not copy its first byte when rounding up wraps. -/
theorem Passes.not_right (hend : e * g.clusterSize < 2 ^ 32) (hfcb : q.nodeType = .fcb)
    (hvdl : 2 ^ 32 < q.validDataLength + g.clusterSize) {ps : List Pass} {j : ℕ}
    (h : Passes g q cs e i ps j) (hne : ps ≠ []) :
    ¬ ∀ p ∈ ps, p.Right g q cs (e * g.clusterSize) := by
  intro hall
  obtain ⟨p, ps, rfl⟩ := List.exists_cons_of_ne_nil hne
  obtain ⟨hoffset, m, hp, -⟩ := h
  have hright := hall p (by simp)
  have hlt : (i + m) * g.clusterSize < 2 ^ 32 := (Nat.mul_le_mul_right _ hp.le).trans_lt hend
  have hzero := bytesToWrite_eq_zero hfcb hvdl hp.pos hlt
  have hpos := hright.pos
  rw [Nat.add_mul] at hlt
  have hroom := add_clusterSize_le (g := g) (k := i) (by omega)
  have hbyte := hright.valid (i * g.clusterSize) (by rw [hoffset]) (by rw [hoffset]; omega) (by omega)
  rw [hoffset, hp.bytesToWrite, hzero] at hbyte
  omega

section

variable (hmark : g.numberOfClusters + 1 < g.width.reservedMark) (harea : 0 < g.fileAreaLbo)
  (h : c.At g cs i e t) (hend : e * g.clusterSize < 2 ^ 32) (ht : 2 ≤ t)
  (htN : t + (e - i) ≤ g.numberOfClusters + 2)

include hmark harea h hend ht htN

/-- The loop with enough passes. -/
theorem Call.At.sat_loop {fails : ℕ → Step → Bool} (io : Option ℕ) {fuel : ℕ}
    (hfuel : 2 * g.numberOfWindows + g.numberOfClusters ≤ fuel) :
    Sat (moveLoop g q fails fuel fuel) (c.withFault io)
      (fun moved c' => ∃ ps j, Recorded g q cs i (min e cs.length) c c' ps j ∧
        (i < min e cs.length → ps ≠ []) ∧ (moved = true → j = max i (min e cs.length) ∧
          Moved g cs i (min e cs.length - i) t c'))
      (fun stop c' => ∃ ps j, Recorded g q cs i (min e cs.length) c c' ps j ∧
        (i < min e cs.length → io = none → ps ≠ []) ∧ Excused fails (c.withFault io) stop) := by
  have hlen := h.file.length_le
  have hwindows := g.numberOfWindows_pos
  exact (h.withFault io).sat_moveLoop hmark harea hend ht htN ⟨by omega, by omega⟩
    ⟨by omega, fun hzero => absurd hzero (by omega)⟩

/-- A loop that copies nothing of a valid cluster. -/
theorem Call.At.not_movesValidData (hfcb : q.nodeType = .fcb) (hie : i < min e cs.length)
    (hvdl : 2 ^ 32 < q.validDataLength + g.clusterSize) : ¬ MovesValidData g q cs i e c := by
  intro hmoves
  have hend' : min e cs.length * g.clusterSize < 2 ^ 32 :=
    (Nat.mul_le_mul_right _ (min_le_left _ _)).trans_lt hend
  have hwrong : ∀ {c' : Call} {ps ps' : List Pass} {j : ℕ},
      Recorded g q cs i (min e cs.length) c c' ps j → ps ≠ [] → c'.passes = c.passes ++ ps' →
      ¬ ∀ p ∈ ps', p.Right g q cs (min e cs.length * g.clusterSize) := by
    rintro c' ps ps' j ⟨hrecord, hps⟩ hne hrecord'
    rw [hrecord, List.append_cancel_left_eq] at hrecord'
    rw [← hrecord']
    exact hps.not_right hend' hfcb hvdl hne
  obtain ⟨fuel, hfuel⟩ : ∃ fuel, 2 * g.numberOfWindows + g.numberOfClusters ≤ fuel := ⟨_, le_rfl⟩
  have hloop : Sat (moveLoop g q (fun _ _ => false) fuel fuel) (c.withFault none) _ _ :=
    h.sat_loop hmark harea hend ht htN none hfuel
  have hmoves := hmoves none (fun _ _ => false) fuel hfuel
  cases hrun : moveLoop g q (fun _ _ => false) fuel fuel (c.withFault none) with
  | ok moved c' =>
      obtain ⟨ps, j, hps, hne, -⟩ := hloop.ok hrun
      obtain ⟨ps', hps', hright, -⟩ := hmoves.ok hrun
      exact hwrong hps (hne hie) hps' hright
  | error stop c' =>
      obtain ⟨ps, j, hps, hne, -⟩ := hloop.error hrun
      obtain ⟨ps', hps', hright, -⟩ := hmoves.error hrun
      exact hwrong hps (hne hie rfl) hps' hright

/-- **Valid data are moved** unless the file has valid data in the last cluster of 4 GB and there
is something to move. -/
theorem Call.At.movesValidData_iff : MovesValidData g q cs i e c ↔
    (q.nodeType = .fcb → i < min e cs.length → q.validDataLength + g.clusterSize ≤ 2 ^ 32) := by
  constructor
  · intro hmoves hfcb hie
    by_contra hvdl
    exact h.not_movesValidData hmark harea hend ht htN hfcb hie (not_le.mp hvdl) hmoves
  · intro hcond io fails fuel hfuel
    have hend' : min e cs.length * g.clusterSize < 2 ^ 32 :=
      (Nat.mul_le_mul_right _ (min_le_left _ _)).trans_lt hend
    refine (h.sat_loop hmark harea hend ht htN io hfuel).mono ?_ ?_
    · rintro moved c' ⟨ps, j, ⟨hrecord, hps⟩, _, hmoved⟩
      refine ⟨ps, hrecord, hps.right hend' hcond, fun htrue => ?_⟩
      rw [← (hmoved htrue).1]
      exact hps.tiles
    · rintro stop c' ⟨ps, j, ⟨hrecord, hps⟩, _, hwhy⟩
      exact ⟨ps, hrecord, hps.right hend' hcond, hwhy⟩

end

end Valid

/-- The loop with a file whose chain is `cs`, as it is at the beginning. -/
def Call.of (g : Geometry) (v : Vcb) (size first : ℕ) (cs : List ℕ) (i e t : ℕ) : Call where
  file := ⟨v, ⟨chainBytes g cs, 0⟩, size, first, mcbOf g cs, ⟨first, 0⟩⟩
  fileOffset := i * g.clusterSize
  byteCount := (e - i) * g.clusterSize
  targetCluster := t
  targetLbo := fatGetLboFromIndex g t
  sourceMcb := []
  targetMcb := []
  diskSpaceAllocated := false
  passes := []

theorem Call.at_of {v : Vcb} {size first e t : ℕ} (hv : Consistent g v)
    (hchain : ChainAt g v.vol.fat first cs) (hcs : ∀ c ∈ cs, c ∈ g.clusters)
    (hle : cs.length * g.clusterSize ≤ 2 ^ 32) (hdirent : (⟨first, 0⟩ : DirentCluster).cluster g = first)
    (hsize : size ≤ chainBytes g cs) (hie : i ≤ e) : (Call.of g v size first cs i e t).At g cs i e t :=
  ⟨⟨⟨⟨⟨hchain, hcs, hle⟩, hv, hdirent⟩, Or.inl ⟨rfl, rfl⟩⟩, hsize⟩, rfl, rfl, hie, rfl, rfl, rfl, rfl, rfl⟩

theorem thousand_lt : 1000 < 2 ^ 32 := by norm_num

theorem maxUlong_lt : 0xffffffff < 2 ^ 32 := by norm_num

/-- Two clusters of a diskette. -/
theorem movesValidData_floppy : ∃ v, Consistent floppy v ∧
    MovesValidData floppy ⟨.fcb, 1000, fun _ => thousand_lt⟩ [2, 3] 0 2
      (Call.of floppy v 1000 2 [2, 3] 0 2 5) := by
  obtain ⟨v, -, hfat, hbooks, -⟩ := exists_mount floppy ⟨linkedFat, [], none⟩ rfl
  have hv : Consistent floppy v := ⟨floppy_sound, hbooks⟩
  have hmem : ∀ c ∈ [2, 3], c ∈ floppy.clusters := by
    intro c hc
    rw [Geometry.mem_clusters, floppy_numberOfClusters]
    simp only [List.mem_cons, List.not_mem_nil, or_false] at hc
    omega
  have hchain : ChainAt floppy v.vol.fat 2 [2, 3] := by
    refine ⟨rfl, ?_⟩
    rw [hfat, floppy_width]
    exact leads_linkedFat
  have hS : floppy.clusterSize = 512 := by decide
  have hlen : [2, 3].length = 2 := rfl
  refine ⟨v, hv, (Call.At.movesValidData_iff ?_ floppy_mappable.area_pos (Call.at_of hv hchain hmem ?_ ?_
    ?_ (by omega)) ?_ (by norm_num) ?_).mpr fun _ _ => ?_⟩
  · rw [floppy_width, floppy_numberOfClusters]
    decide
  · rw [hS, hlen]
    norm_num
  · decide
  · rw [chainBytes, hS, hlen]
    norm_num
  · rw [hS]
    norm_num
  · rw [floppy_numberOfClusters]
    norm_num
  · rw [hS]
    norm_num

/-- The first cluster of a file of 4 GB, with one byte less that is valid: nothing is copied. -/
theorem not_movesValidData_bigFat16 : ∃ v, Consistent bigFat16 v ∧
    ¬ MovesValidData bigFat16 ⟨.fcb, 0xffffffff, fun _ => maxUlong_lt⟩ (List.range' 2 8192) 0 1
      (Call.of bigFat16 v 0xffffffff 2 (List.range' 2 8192) 0 1 8194) := by
  obtain ⟨v, -, hfat, hbooks, -⟩ := exists_mount bigFat16 ⟨hugeFat, [], none⟩ rfl
  have hv : Consistent bigFat16 v := ⟨bigFat16_sound, hbooks⟩
  have hfile := hasChain_hugeFile
  have hchain : ChainAt bigFat16 v.vol.fat 2 (List.range' 2 8192) := by
    rw [hfat]
    exact hfile.chain
  have hlen : (List.range' 2 8192).length = 8192 := List.length_range'
  have hS := bigFat16_clusterSize
  refine ⟨v, hv, (Call.at_of hv hchain hfile.clusters hfile.le ?_ ?_ (by omega)).not_movesValidData ?_
    bigFat16_mappable.area_pos ?_ (by norm_num) ?_ rfl ?_ ?_⟩
  · decide
  · rw [chainBytes, hlen, hS]
    norm_num
  · rw [bigFat16_width, bigFat16_numberOfClusters]
    decide
  · rw [hS]
    norm_num
  · rw [bigFat16_numberOfClusters]
    norm_num
  · rw [hlen]
    norm_num
  · rw [hS]
    norm_num

end KernelDrivers.Fat.Move
