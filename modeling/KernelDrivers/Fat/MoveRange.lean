import KernelDrivers.Fat.MoveRun

/-!
# The range of a move

The clusters of a move request are 64 bits wide.  `FatMoveFile` compares their halves with the volume
and then shifts them into 32-bit byte offsets, whatever the size of the volume is.  On a volume of
more than 4 GB a shift can wrap: the request is then for other clusters, or for fewer.

## Main definitions

* `offsetLimit` — the clusters that a byte offset can tell apart.
* `RelocatesExactly` — a file has moved exactly the clusters of a request.
* `Data.Fits` — what the shifts lose of a request is behind the end of the file.

## Main results

* `Data.of_valid`, `Data.add_lt_offsetLimit` — what the checks make sure of.
* `relocatesExactly_iff` — when a chain with a range replaced is the one that was asked for.
* `sat_fatMoveFile` — when a request that is carried out moves exactly its range.
-/

namespace KernelDrivers.Fat.Move

variable {g : Geometry} {q : File} {cs : List ℕ} {f : FcbOrDcb} {d : Data} {i n t : ℕ}

/-! ## The checks of a request -/

/-- The clusters that a byte offset of 32 bits can tell apart. -/
def offsetLimit (g : Geometry) : ℕ := 2 ^ 32 / g.clusterSize

theorem offsetLimit_mul (g : Geometry) : offsetLimit g * g.clusterSize = 2 ^ 32 :=
  Nat.div_mul_cancel g.clusterSize_dvd

theorem offsetLimit_pos (g : Geometry) : 0 < offsetLimit g := by
  refine Nat.pos_of_ne_zero fun hzero => ?_
  have hmul := offsetLimit_mul g
  rw [hzero, Nat.zero_mul] at hmul
  exact absurd hmul (by norm_num)

/-- A shift into an offset. -/
theorem ulong_mul_clusterSize (g : Geometry) (n : ℕ) :
    ulong (n * g.clusterSize) = n % offsetLimit g * g.clusterSize := by
  rw [ulong, ← offsetLimit_mul g, Nat.mul_mod_mul_right]

/-- A low part is the whole of a value whose high part is zero. -/
theorem lowPart_eq {x : UInt64} (h : highPart x = 0) : lowPart x = x.toNat := by
  rw [highPart] at h
  rw [lowPart]
  omega

/-- **The checks of the numbers** keep the target on the volume. -/
theorem Data.of_valid (h : d.valid g = true) : highPart d.startingVcn = 0 ∧
    d.targetCluster = d.startingLcn.toNat + 2 ∧
    d.targetCluster + d.clusterCount.toNat ≤ g.numberOfClusters + 2 := by
  rw [Data.valid, decide_eq_true_eq] at h
  obtain ⟨hvcn, hlcn, htwo, hle, hend, -, -⟩ := h
  have hlow := lowPart_eq hlcn
  have hlt : lowPart d.startingLcn < 2 ^ 32 := Nat.mod_lt _ (by norm_num)
  have hcount := d.clusterCount.toNat_lt
  have htarget : d.targetCluster = d.startingLcn.toNat + 2 := by
    rw [Data.targetCluster, ulong, hlow] at htwo ⊢
    rw [hlow] at hlt
    omega
  refine ⟨hvcn, htarget, ?_⟩
  rw [ulong] at hle hend
  have hN := g.numberOfClusters_lt
  have htl : d.targetCluster < 2 ^ 32 := Nat.mod_lt _ (by norm_num)
  omega

/-- **The check of the sum**: the offsets of the range do not wrap once they are computed. -/
theorem Data.add_lt_offsetLimit (h : d.fileOffset g ≤ ulong (d.fileOffset g + d.byteCount g)) :
    lowPart d.startingVcn % offsetLimit g + d.clusterCount.toNat % offsetLimit g < offsetLimit g := by
  have hM := offsetLimit_pos g
  have hoffset := Nat.mod_lt (lowPart d.startingVcn) hM
  have hcount := Nat.mod_lt d.clusterCount.toNat hM
  rw [Data.fileOffset, Data.byteCount, ulong_mul_clusterSize, ulong_mul_clusterSize, ← Nat.add_mul,
    ulong_mul_clusterSize] at h
  have hle := Nat.le_of_mul_le_mul_right h g.clusterSize_pos
  generalize lowPart d.startingVcn % offsetLimit g = a at *
  generalize d.clusterCount.toNat % offsetLimit g = n at *
  by_contra hover
  rw [Nat.mod_eq_sub_mod (by omega), Nat.mod_eq_of_lt (by omega)] at hle
  omega

/-! ## The range -/

/-- The chain `cs'` is `cs` with exactly the clusters at the targets that the request names, those of
its range that the file has.  The first cluster of a directory is where it was. -/
structure RelocatesExactly (q : File) (d : Data) (cs cs' : List ℕ) : Prop where
  length : cs'.length = cs.length
  relocated : ∀ j < cs.length, d.startingVcn.toNat ≤ j →
    j < d.startingVcn.toNat + d.clusterCount.toNat →
    cs'.getD j 0 = d.startingLcn.toNat + (j - d.startingVcn.toNat) + 2 ∧ cs'.getD j 0 ≠ cs.getD j 0
  kept : ∀ j < cs.length,
    ¬ (d.startingVcn.toNat ≤ j ∧ j < d.startingVcn.toNat + d.clusterCount.toNat) →
    cs'.getD j 0 = cs.getD j 0
  first : q.nodeType ≠ .fcb → cs'.getD 0 0 = cs.getD 0 0

/-- What the shifts lose of a request does not matter for a file of so many clusters: either both
numbers fit or it is behind the end of the file. -/
def Data.Fits (g : Geometry) (d : Data) (length : ℕ) : Prop :=
  if d.startingVcn.toNat < offsetLimit g then
    d.clusterCount.toNat < offsetLimit g ∨
      length ≤ d.startingVcn.toNat + d.clusterCount.toNat % offsetLimit g
  else
    d.clusterCount.toNat % offsetLimit g = 0 ∨ length ≤ d.startingVcn.toNat % offsetLimit g

theorem replaced_zero (cs : List ℕ) (i t : ℕ) : replaced cs i 0 t = cs := by
  rw [replaced, List.range'_zero, List.nil_append, Nat.add_zero, List.take_append_drop]

/-- The clusters of a chain with a range replaced. -/
theorem getD_replaced (hin : n = 0 ∨ i + n ≤ cs.length) (j : ℕ) :
    (replaced cs i n t).getD j 0 = if i ≤ j ∧ j < i + n then t + (j - i) else cs.getD j 0 := by
  rcases hin with hzero | hin
  · rw [hzero, replaced_zero, if_neg (by omega)]
  · rw [List.getD_eq_getElem?_getD, getElem?_replaced hin]
    split
    · rfl
    · rw [List.getD_eq_getElem?_getD]

theorem length_replaced' (hin : n = 0 ∨ i + n ≤ cs.length) :
    (replaced cs i n t).length = cs.length := by
  rcases hin with hzero | hin
  · rw [hzero, replaced_zero]
  · simp only [replaced, List.length_append, List.length_take, List.length_range', List.length_drop]
    omega

/-- **A chain with a range replaced** is the one that was asked for when the request fits. -/
theorem relocatesExactly_iff (hallows : q.allows g d = true)
    (hle : cs.length ≤ offsetLimit g) {a : ℕ} (ha : a = d.startingVcn.toNat % offsetLimit g)
    {k : ℕ} (hk : k = min (a + d.clusterCount.toNat % offsetLimit g) cs.length - a)
    (ht : t = d.startingLcn.toNat + 2) (hne : ∀ j < k, t + j ≠ cs.getD (a + j) 0) :
    RelocatesExactly q d cs (replaced cs a k t) ↔ d.Fits g cs.length := by
  have hM := offsetLimit_pos g
  have hcount := Nat.mod_lt d.clusterCount.toNat hM
  have hmod := Nat.mod_le d.clusterCount.toNat (offsetLimit g)
  have hget : ∀ j, (replaced cs a k t).getD j 0 =
      if a ≤ j ∧ j < a + k then t + (j - a) else cs.getD j 0 := getD_replaced (by omega)
  rw [Data.Fits]
  by_cases hfits : d.startingVcn.toNat < offsetLimit g
  · rw [Nat.mod_eq_of_lt hfits] at ha
    rw [if_pos hfits]
    constructor
    · intro h
      by_contra hnot
      rw [not_or, not_lt, not_le] at hnot
      -- the first cluster that was asked for and is behind the wrapped range
      have hbehind := (h.relocated (a + d.clusterCount.toNat % offsetLimit g) (by omega) (by omega)
        (by omega)).2
      rw [hget, if_neg (by omega)] at hbehind
      exact hbehind rfl
    · intro h
      have hall : d.clusterCount.toNat % offsetLimit g = d.clusterCount.toNat ∨
          cs.length ≤ a + d.clusterCount.toNat % offsetLimit g := by
        rcases h with h | h
        · exact Or.inl (Nat.mod_eq_of_lt h)
        · exact Or.inr (by omega)
      refine ⟨length_replaced' (by omega), fun j hj hfirst hlast => ?_, fun j hj hout => ?_,
        fun hdcb => ?_⟩
      · rw [hget, if_pos ⟨by omega, by omega⟩]
        have hj' := hne (j - a) (by omega)
        rw [Nat.add_sub_cancel' (by omega)] at hj'
        exact ⟨by omega, hj'⟩
      · rw [hget, if_neg (by omega)]
      · have hzero : d.startingVcn.toNat ≠ 0 := by
          rw [File.allows, decide_eq_true_eq] at hallows
          intro hzero
          refine (hallows.resolve_left hdcb).2 (UInt64.toNat_inj.mp ?_)
          rw [hzero]
          rfl
        rw [hget, if_neg (by omega)]
  · rw [if_neg hfits, ← ha]
    constructor
    · intro h
      by_contra hnot
      rw [not_or, not_le] at hnot
      -- a cluster is moved that was not asked for
      have hkept := h.kept a (by omega) (by omega)
      rw [hget, if_pos ⟨by omega, by omega⟩, Nat.sub_self] at hkept
      exact hne 0 (by omega) hkept
    · intro h
      refine ⟨length_replaced' (by omega), fun j hj hfirst => absurd hfirst (by omega),
        fun j hj _ => ?_, fun _ => ?_⟩
      · rw [hget, if_neg (by omega)]
      · rw [hget, if_neg (by omega)]

/-- The loop of a request that is allowed has the clusters of the shifted range to move. -/
theorem Call.at_start (h : Ready g f cs) (hvalid : d.valid g = true) :
    (Call.start g d f).At g cs (d.startingVcn.toNat % offsetLimit g)
      (d.startingVcn.toNat % offsetLimit g + d.clusterCount.toNat % offsetLimit g)
      (d.startingLcn.toNat + 2) := by
  obtain ⟨hvcn, htarget, -⟩ := Data.of_valid hvalid
  have hoffset : d.fileOffset g = d.startingVcn.toNat % offsetLimit g * g.clusterSize := by
    rw [Data.fileOffset, lowPart_eq hvcn, ulong_mul_clusterSize]
  have hcount : d.byteCount g = d.clusterCount.toNat % offsetLimit g * g.clusterSize :=
    ulong_mul_clusterSize g _
  refine ⟨h, hoffset, ?_, Nat.le_add_right _ _, htarget, ?_, rfl, rfl, rfl⟩
  · rw [Nat.add_sub_cancel_left]
    exact hcount
  · rw [← htarget]
    rfl

/-- What holds when the loop ends holds when the routine does: it frees a target only when the target
is not part of the file. -/
theorem sat_fatMoveFile_of_loop {P : FcbOrDcb → Prop} {E : Prop} {fails : ℕ → Step → Bool} {fuel : ℕ}
    (hvalid : d.valid g = true) (hallows : q.allows g d = true)
    (hsum : d.fileOffset g ≤ ulong (d.fileOffset g + d.byteCount g))
    (hloop : Sat (moveLoop g q fails fuel fuel) (Call.start g d f)
      (fun moved c => if moved then c.diskSpaceAllocated = false ∧ P c.file else E) (fun _ _ => E)) :
    Sat (fatMoveFile g q fails d fuel) f (fun moved f' => if moved then P f' else E) (fun _ _ => E) := by
  have hmove : Sat (move g q fails fuel) (Call.start g d f)
      (fun moved c => if moved then P c.file else E) (fun _ _ => E) := by
    rw [move]
    refine Sat.bind (Sat.protect_const hloop) ?_
    intro moved c hmoved
    cases moved with
    | false =>
        rw [if_neg (by simp)] at hmoved
        have hfree : Sat (freeTarget g) c (fun _ _ => E) (fun _ _ => E) := by
          cases hrun : freeTarget g c with
          | ok _ _ => exact Sat.of_ok hrun hmoved
          | error _ _ => exact Sat.of_error hrun hmoved
        exact Sat.bind (Sat.protect_const hfree) fun _ _ hE => Sat.pure hE
    | true =>
        rw [if_pos rfl] at hmoved
        have hfree : Sat (freeTarget g) c (fun _ c' => c' = c) (fun _ _ => E) := by
          rw [freeTarget]
          apply Sat.get_bind
          rw [hmoved.1, if_neg (by simp)]
          exact Sat.pure rfl
        refine Sat.bind (Sat.protect_const hfree) ?_
        intro _ c' hc'
        rw [hc']
        exact Sat.pure hmoved.2
  rw [fatMoveFile, if_pos ⟨hvalid, hallows, hsum⟩]
  apply Sat.get_bind
  cases hrun : move g q fails fuel (Call.start g d f) with
  | ok moved c => exact Sat.set_bind (Sat.pure (hmove.ok hrun))
  | error stop c => exact Sat.set_bind (Sat.throw (hmove.error hrun))

section Range

variable (hmark : g.numberOfClusters + 1 < g.width.reservedMark) (harea : 0 < g.fileAreaLbo)
  (h : Ready g f cs) {fails : ℕ → Step → Bool} {fuel : ℕ}
  (hfuel : 2 * g.numberOfWindows + g.numberOfClusters ≤ fuel)

include hmark harea h hfuel

/-- The loop of an accepted request moves the shifted range. -/
theorem sat_moveLoop_start (hvalid : d.valid g = true)
    (hsum : d.fileOffset g ≤ ulong (d.fileOffset g + d.byteCount g)) :
    Sat (moveLoop g q fails fuel fuel) (Call.start g d f)
      (fun moved c => moved = true → Moved g cs (d.startingVcn.toNat % offsetLimit g)
        (min (d.startingVcn.toNat % offsetLimit g + d.clusterCount.toNat % offsetLimit g) cs.length -
          d.startingVcn.toNat % offsetLimit g) (d.startingLcn.toNat + 2) c)
      (fun _ _ => True) := by
  obtain ⟨hvcn, htarget, htargets⟩ := Data.of_valid hvalid
  have hlt := Data.add_lt_offsetLimit hsum
  rw [lowPart_eq hvcn] at hlt
  have hmod := Nat.mod_le d.clusterCount.toNat (offsetLimit g)
  have hend := ((Nat.mul_lt_mul_right g.clusterSize_pos).mpr hlt).trans_eq (offsetLimit_mul g)
  have hloop : Sat (moveLoop g q fails fuel fuel) (Call.start g d f) _ _ :=
    (Call.at_start h hvalid).sat_loop hmark harea hend (by omega) (by omega) f.vcb.vol.io hfuel
  exact hloop.mono (fun _ _ ⟨_, _, _, _, hmoved⟩ htrue => (hmoved htrue).2) fun _ _ _ => trivial

/-- **A move** that is carried out relocates exactly the range of its request if and only if the
request fits. -/
theorem sat_fatMoveFile : Sat (fatMoveFile g q fails d fuel) f
    (fun moved f' => moved = true → ∃ cs', f'.HasChain g cs' ∧
      (RelocatesExactly q d cs cs' ↔ d.Fits g cs.length))
    (fun _ _ => True) := by
  by_cases haccepted : d.valid g = true ∧ q.allows g d = true ∧
      d.fileOffset g ≤ ulong (d.fileOffset g + d.byteCount g)
  swap
  · rw [fatMoveFile, if_neg haccepted]
    exact Sat.pure fun hmoved => absurd hmoved (by simp)
  obtain ⟨hvalid, hallows, hsum⟩ := haccepted
  have hle : cs.length ≤ offsetLimit g := (Nat.le_div_iff_mul_le g.clusterSize_pos).mpr h.le
  have hloop : Sat (moveLoop g q fails fuel fuel) (Call.start g d f)
      (fun moved c => if moved then c.diskSpaceAllocated = false ∧ ∃ cs', c.file.HasChain g cs' ∧
        (RelocatesExactly q d cs cs' ↔ d.Fits g cs.length) else True) (fun _ _ => True) := by
    refine (sat_moveLoop_start hmark harea h hfuel hvalid hsum).mono ?_ fun _ _ h => h
    intro moved c hmoved
    cases moved with
    | false => trivial
    | true =>
        have hdone := hmoved rfl
        exact ⟨hdone.diskSpaceAllocated, _, hdone.file.toHasChain,
          relocatesExactly_iff hallows hle rfl rfl rfl hdone.ne⟩
  refine (sat_fatMoveFile_of_loop (P := fun f' => ∃ cs', f'.HasChain g cs' ∧
    (RelocatesExactly q d cs cs' ↔ d.Fits g cs.length)) hvalid hallows hsum hloop).mono ?_ fun _ _ h => h
  intro moved f' hf htrue
  rwa [if_pos htrue] at hf

end Range

/-- The range of a file on a diskette. -/
theorem sat_fatMoveFile_floppy : ∃ v, Consistent floppy v ∧ ∀ fails fuel, 2000 ≤ fuel →
    Sat (fatMoveFile floppy ⟨.fcb, 1000, fun _ => thousand_lt⟩ fails ⟨0, 3, 2⟩ fuel)
      (Call.of floppy v 1000 2 [2, 3] 0 2 5).file
      (fun moved f' => moved = true → ∃ cs', f'.HasChain floppy cs' ∧
        (RelocatesExactly ⟨.fcb, 1000, fun _ => thousand_lt⟩ ⟨0, 3, 2⟩ [2, 3] cs' ↔
          Data.Fits floppy ⟨0, 3, 2⟩ [2, 3].length))
      (fun _ _ => True) := by
  obtain ⟨v, -, hfat, hbooks, -⟩ := exists_mount floppy ⟨linkedFat, [], none⟩ rfl
  have hv : Consistent floppy v := ⟨floppy_sound, hbooks⟩
  have hmem : ∀ c ∈ [2, 3], c ∈ floppy.clusters := by
    intro c hc
    rw [Geometry.mem_clusters, floppy_numberOfClusters]
    simp only [List.mem_cons, List.not_mem_nil, or_false] at hc
    omega
  have hchain : ChainAt floppy v.vol.fat 2 [2, 3] := by
    refine ⟨rfl, ?_⟩
    rw [hfat, floppy_width]
    exact leads_linkedFat
  have hS : floppy.clusterSize = 512 := by decide
  have hlen : [2, 3].length = 2 := rfl
  have hwindows : floppy.numberOfWindows = 1 := by decide
  refine ⟨v, hv, fun fails fuel hfuel => sat_fatMoveFile ?_ floppy_mappable.area_pos
    (Call.at_of (t := 5) hv hchain hmem ?_ ?_ ?_ (Nat.zero_le 2)).file ?_⟩
  · rw [floppy_width, floppy_numberOfClusters]
    decide
  · rw [hS, hlen]
    norm_num
  · decide
  · rw [chainBytes, hS, hlen]
    norm_num
  · rw [floppy_numberOfClusters, hwindows]
    omega

/-- One cluster of a sound file moves to a target that can be had. -/
theorem Call.At.sat_moveLoop_one {c : Call} {fuel passes : ℕ}
    (hmark : g.numberOfClusters + 1 < g.width.reservedMark) (harea : 0 < g.fileAreaLbo)
    (h : c.At g cs i (i + 1) t) (hi : i < cs.length) (hend : (i + 1) * g.clusterSize < 2 ^ 32)
    (ht : 2 ≤ t) (htN : t + 1 ≤ g.numberOfClusters + 2)
    (hfuel : 2 * g.numberOfWindows ≤ fuel ∧ cs.length ≤ fuel) (hnone : c.file.vcb.vol.io = none)
    (havailable : Available g c.file.vcb t 1) (hfree : 1 ≤ c.file.vcb.numberOfFreeClusters) :
    Sat (moveLoop g q (fun _ _ => false) fuel (passes + 1)) c (fun moved _ => moved = true)
      (fun _ _ => False) := by
  have hS := g.clusterSize_pos
  have hone : i + 1 - i = 1 := by omega
  have hmin : min (i + 1) cs.length = i + 1 := by omega
  rw [moveLoop]
  apply Sat.get_bind
  rw [if_neg (by rw [h.byteCount, hone, Nat.one_mul]; omega)]
  refine Sat.bind ((h.sat_computeParameter harea (by omega) hend hfuel.2).mono (fun _ _ h => h)
    fun _ _ hE => hE.2 hnone) ?_
  rintro p c1 ⟨h1, hmcb, _, hvcb, hio, hp⟩
  rw [if_neg (by omega), hmin] at hp
  obtain ⟨m, hp⟩ := hp
  have hpm := hp.pos
  have hpe := hp.le
  obtain rfl : m = 1 := by omega
  rw [if_neg (by rw [hp.byteCount, hone, Nat.one_mul]; omega)]
  apply Sat.get_bind
  apply Sat.modify_bind
  have hvcb2 : (c1.record p).file.vcb = c.file.vcb := by
    change c1.file.vcb = _
    rw [hvcb, hio hnone, ← hnone]
    rfl
  have h2 : (c1.record p).At g cs i (i + 1) t := ⟨h1.file, h1.fileOffset, h1.byteCount, h1.le,
    h1.targetCluster, h1.targetLbo, h1.sourceMcb, h1.targetMcb, h1.diskSpaceAllocated⟩
  have hrelocate : Sat (relocate g q (fun _ => false) p fuel) (c1.record p) _ _ :=
    h2.sat_relocate hmark harea hmcb hp (by omega) hend ht htN hfuel.1
  refine Sat.bind (hrelocate.mono (fun _ _ h => h) ?_) ?_
  · intro stop _ hwhy
    rw [hvcb2] at hwhy
    rcases hwhy with ⟨_, hlt⟩ | ⟨step, hstep⟩ | hne
    · omega
    · exact absurd hstep (by simp)
    · exact hne (hvcb2 ▸ hnone)
  intro moved c' hmoved
  cases moved with
  | false =>
      rw [if_neg (by simp), hvcb2] at hmoved
      exact absurd havailable hmoved
  | true =>
      rw [if_pos rfl] at hmoved ⊢
      have hzero : c'.byteCount = 0 := by
        rw [hmoved.1.byteCount, Nat.sub_self, Nat.zero_mul]
      -- nothing is left
      cases passes <;>
      · rw [moveLoop]
        apply Sat.get_bind
        rw [if_pos hzero]
        exact Sat.pure rfl

/-- A 16-bit FAT in which only cluster 3 is free. -/
def oneFree : Bytes := storeEntry .fat16 (fun _ => 0xff) 3 0

theorem lookupEntry_oneFree (j : ℕ) :
    lookupEntry .fat16 oneFree j = if j = 3 then 0 else 0xffff := by
  rw [oneFree, lookupEntry_storeEntry _ _ (by simp)]
  have hold : lookupEntry .fat16 (fun _ => 0xff) j = 0xffff := by
    rw [lookupEntry, Bytes.read16]
    decide
  rw [hold, Nat.zero_mod]

theorem zeroSet_oneFree {x : ℕ} : x ∈ zeroSet bigFat16 oneFree ↔ x = 3 := by
  rw [mem_zeroSet, bigFat16_width, lookupEntry_oneFree, bigFat16_numberOfClusters]
  split <;> omega

theorem leads_oneFree : Leads (fatLink .fat16 oneFree) [2] .last := by
  rw [Leads, fatLink, lookupEntry_oneFree]
  decide

/-- Cluster 3 can be had. -/
theorem available_oneFree {v : Vcb} (hfat : v.vol.fat = oneFree) (hcurrent : v.currentWindow = 0) :
    Available bigFat16 v 3 1 := by
  have hS := bigFat16_clusterSize
  obtain ⟨-, hcount, hhint⟩ := exactRequest_spec (g := bigFat16) (t := 3) (m := 1) (by norm_num)
    (by norm_num) (by rw [hS]; norm_num)
  rw [Available, hfat]
  refine ⟨?_, fun ds hlen hds => ?_⟩
  · have hhinted : (exactRequest 3 (1 * bigFat16.clusterSize)).Hinted bigFat16 := by
      rw [Request.Hinted, hhint, bigFat16_numberOfClusters]
      norm_num
    rw [FastPath, if_pos hhinted, startCluster, if_pos hhinted, startWindow, bigFat16_numberOfWindows,
      if_neg (by simp), hcount, hhint, hcurrent]
    refine ⟨by decide, by rw [bigFat16_endOf]; norm_num, fun x hx => ?_⟩
    rw [Finset.mem_Ico] at hx
    rw [zeroSet_oneFree]
    omega
  · obtain ⟨x, rfl⟩ := List.length_eq_one_iff.mp hlen
    rw [zeroSet_oneFree.mp (hds x (by simp))]
    rfl

/-- The directory of one cluster in front of it. -/
def oneClusterFile (v : Vcb) : FcbOrDcb := ⟨v, ⟨2 ^ 19, 0⟩, 2 ^ 19, 2, mcbOf bigFat16 [2], ⟨2, 0⟩⟩

/-- What kind of file it is. -/
def directory : File := ⟨.dcb, 0, by simp⟩

/-- A request for the cluster behind 4 GB. -/
def behindOffsets : Data := ⟨8192, 1, 1⟩

theorem ready_oneClusterFile {v : Vcb} (hv : Consistent bigFat16 v) (hfat : v.vol.fat = oneFree) :
    Ready bigFat16 (oneClusterFile v) [2] := by
  have hS := bigFat16_clusterSize
  have hdirent : (⟨2, 0⟩ : DirentCluster).cluster bigFat16 = 2 := by decide
  have hbytes : chainBytes bigFat16 [2] = 2 ^ 19 := by
    rw [chainBytes, hS]
    decide
  refine ⟨⟨⟨⟨?_, ?_, ?_⟩, hv, hdirent⟩, Or.inl ⟨?_, rfl⟩⟩, ?_⟩
  · change ChainAt bigFat16 v.vol.fat 2 [2]
    rw [hfat, ChainAt, bigFat16_width]
    exact ⟨rfl, leads_oneFree⟩
  · intro c hc
    rw [List.mem_singleton.mp hc, Geometry.mem_clusters, bigFat16_numberOfClusters]
    norm_num
  · rw [hS]
    norm_num
  · rw [hbytes]
    rfl
  · rw [hbytes]
    exact le_rfl

/-- The loop for that directory comes to its end. -/
theorem sat_moveLoop_oneClusterFile {q : File} {v : Vcb} {c : Call}
    (hat : c.At bigFat16 [2] 0 (0 + 1) 3) (hvcb : c.file.vcb = v) (hfat : v.vol.fat = oneFree)
    (hbooks : Books bigFat16 v (zeroSet bigFat16 v.vol.fat) 0) (hnone : v.vol.io = none)
    {fuel passes : ℕ} (hfuel : 2 ≤ fuel) :
    Sat (moveLoop bigFat16 q (fun _ _ => false) fuel (passes + 1)) c (fun moved _ => moved = true)
      (fun _ _ => False) := by
  have hfree : 1 ≤ v.numberOfFreeClusters := by
    have hmem : 3 ∈ zeroSet bigFat16 v.vol.fat := by
      rw [hfat, zeroSet_oneFree]
    have := hbooks.total
    have := Finset.card_pos.mpr ⟨3, hmem⟩
    omega
  have hwindow := hbooks.currentWindow_eq_zero bigFat16_numberOfWindows
  have hone : [2].length = 1 := rfl
  refine hat.sat_moveLoop_one ?_ bigFat16_mappable.area_pos ?_ ?_ ?_ ?_ ⟨?_, ?_⟩ ?_ ?_ ?_
  · rw [bigFat16_width, bigFat16_numberOfClusters]
    decide
  · omega
  · rw [bigFat16_clusterSize]
    norm_num
  · norm_num
  · rw [bigFat16_numberOfClusters]
    norm_num
  · rw [bigFat16_numberOfWindows]
    omega
  · omega
  · rwa [hvcb]
  · rw [hvcb]
    exact available_oneFree hfat hwindow
  · rwa [hvcb]

/-- The first cluster of a directory moves although the request is for another one. -/
theorem not_relocatesExactly_bigFat16 : ∃ v, Ready bigFat16 (oneClusterFile v) [2] ∧
    ∀ fuel, 8202 ≤ fuel → ∃ f',
      fatMoveFile bigFat16 directory (fun _ _ => false) behindOffsets fuel (oneClusterFile v) =
        .ok true f' ∧
      ¬ ∃ cs', f'.HasChain bigFat16 cs' ∧
        RelocatesExactly directory behindOffsets [2] cs' := by
  obtain ⟨v, -, hfat, hbooks, hnone⟩ := exists_mount bigFat16 ⟨oneFree, [], none⟩ rfl
  have hready := ready_oneClusterFile ⟨bigFat16_sound, hbooks⟩ hfat
  have hS := bigFat16_clusterSize
  have hM : offsetLimit bigFat16 = 8192 := by
    rw [offsetLimit, hS]
    norm_num
  have hmark : bigFat16.numberOfClusters + 1 < bigFat16.width.reservedMark := by
    rw [bigFat16_width, bigFat16_numberOfClusters]
    decide
  have hvalid : behindOffsets.valid bigFat16 = true := by
    rw [Data.valid, bigFat16_numberOfClusters]
    decide
  have hsum : behindOffsets.fileOffset bigFat16 ≤
      ulong (behindOffsets.fileOffset bigFat16 + behindOffsets.byteCount bigFat16) := by
    rw [Data.fileOffset, Data.byteCount, hS]
    decide
  have hvcn : behindOffsets.startingVcn.toNat % 8192 = 0 := by decide
  have hcount : behindOffsets.clusterCount.toNat % 8192 = 1 := by decide
  have hlcn : behindOffsets.startingLcn.toNat + 2 = 3 := by decide
  have hat := Call.at_start (d := behindOffsets) hready hvalid
  rw [hM, hvcn, hcount, hlcn] at hat
  refine ⟨v, hready, fun fuel hle => ?_⟩
  have hfuel : 2 * bigFat16.numberOfWindows + bigFat16.numberOfClusters ≤ fuel := by
    rw [bigFat16_numberOfWindows, bigFat16_numberOfClusters]
    omega
  obtain ⟨passes, hpasses⟩ : ∃ passes, fuel = passes + 1 := ⟨fuel - 1, by omega⟩
  have hvcb : (Call.start bigFat16 behindOffsets (oneClusterFile v)).file.vcb = v := by
    rw [Call.start, oneClusterFile]
  have htwo : 2 ≤ fuel := le_trans (by norm_num) hle
  -- the loop does not stop, and what it moves is cluster 2
  obtain ⟨c, hc⟩ : ∃ c, c = Call.start bigFat16 behindOffsets (oneClusterFile v) := ⟨_, rfl⟩
  have hloop : Sat (moveLoop bigFat16 directory (fun _ _ => false) fuel fuel) _ _ _ :=
    sat_moveLoop_start hmark bigFat16_mappable.area_pos hready hfuel hvalid hsum
  rw [← hc, hM, hvcn, hcount, hlcn] at hloop
  rw [← hc] at hat hvcb
  have hone : Sat (moveLoop bigFat16 directory (fun _ _ => false) fuel fuel) c
      (fun moved _ => moved = true) (fun _ _ => False) := by
    rw [hpasses]
    exact sat_moveLoop_oneClusterFile hat hvcb hfat hbooks hnone (hpasses ▸ htwo)
  have hall := hone.and hloop
  rw [hc] at hall
  have hfile := sat_fatMoveFile_of_loop (P := fun f' => f'.HasChain bigFat16 [3]) (E := False) hvalid
    (by decide) hsum (hall.mono (fun moved c ⟨htrue, hmoved⟩ => by
      rw [if_pos htrue]
      exact ⟨(hmoved htrue).diskSpaceAllocated, (hmoved htrue).file.toHasChain⟩) fun _ _ hE => hE.1)
  obtain ⟨moved, f', hrun, hf'⟩ := hfile.exists_ok fun _ _ hE => hE
  cases moved with
  | false => exact hf'.elim
  | true =>
      refine ⟨f', hrun, fun ⟨cs', hchain, hexact⟩ => ?_⟩
      have hkept := hexact.kept 0 (by norm_num) (by decide)
      have hlength := hexact.length
      have hfirst : f'.firstClusterOfFile = 3 := hf'.chain.1
      cases cs' with
      | nil => simp at hlength
      | cons x xs =>
          have hx : f'.firstClusterOfFile = x := hchain.chain.1
          change x = 2 at hkept
          omega

end KernelDrivers.Fat.Move
