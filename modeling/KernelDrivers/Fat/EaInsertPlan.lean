import KernelDrivers.Fat.EaInsertStuck
import KernelDrivers.Fat.MoveRange

/-!
# The plan of an insertion

The handle that is found and the offsets of the plan, for a consistent EA file, say where the file
and the new allocation are cut.  With that the calls of a whole insertion are those of the runs
before, and a failed insertion leaves the file exactly when it does not fail to initialise a map
again.

## Main definitions

* `splitParts` — the parts of a file and a new allocation for a plan.

## Main results

* `plan_spec` — where the set goes, and how many clusters it gets.
* `exists_completed` — what the one request allocates.
* `fits_splitParts` — the parts of a consistent EA file fit the plan.
* `failsSafely_iff` — the points at which a failed call leaves the file.
-/

namespace KernelDrivers.Fat.AddEaSet

variable {g : Geometry} {t : EaTables} {q : Plan} {f : EaFcb} {cs ns : List ℕ}

/-! ## The handle -/

/-- The last used handle that was walked over comes right behind an unused one. -/
theorem skipUsed_spec {off : ℕ → ℕ} {n j i : ℕ} (hn : off n ≠ unusedEaHandle)
    (h : skipUsed off n = (j, some i)) :
    j + 1 = i ∧ 0 < j ∧ off j = unusedEaHandle ∧ i ≤ n ∧ off i ≠ unusedEaHandle := by
  induction n with
  | zero => simp [skipUsed] at h
  | succ n ih =>
      rw [skipUsed] at h
      split at h
      · next hfree =>
          by_cases hone : n + 1 = 1
          · simp [hone] at h
          · rw [if_pos hone, Prod.mk.injEq, Option.some.injEq] at h
            obtain ⟨rfl, rfl⟩ := h
            exact ⟨rfl, by omega, hfree, le_rfl, hn⟩
      · next hused =>
          obtain ⟨hji, hpos, hfree, hle, hi⟩ := ih hused h
          exact ⟨hji, hpos, hfree, by omega, hi⟩

theorem unused_of_skipUnused {off : ℕ → ℕ} {n : ℕ} (h : skipUnused off n = 0) {k : ℕ} (hk : k < n) :
    off k = unusedEaHandle := by
  induction n with
  | zero => omega
  | succ n ih =>
      rw [skipUnused] at h
      split at h
      · omega
      · next hfree =>
          rcases Nat.lt_succ_iff_lt_or_eq.mp hk with hlt | rfl
          · exact ih h hlt
          · exact not_not.mp hfree

/-- The two walks: over the used handles at the end of the table, and over the unused ones before
them. -/
theorem findHandle_spec (t : EaTables) (size : ℕ) : ∃ last used,
    last = ulongSub (size / 2) 1 % 2 ^ 16 ∧
    used = (if t.offsetTable last ≠ unusedEaHandle then skipUsed t.offsetTable last
      else (last, none)) ∧
    (t.findHandle size).next = used.2 ∧ ((t.findHandle size).addedOffsetTableCluster = true →
      skipUnused t.offsetTable used.1 = 0 ∧ t.offsetTable 1 ≠ unusedEaHandle) := by
  refine ⟨_, _, rfl, rfl, ?_⟩
  simp only [EaTables.findHandle]
  generalize (if t.offsetTable (ulongSub (size / 2) 1 % 2 ^ 16) ≠ unusedEaHandle then
    skipUsed t.offsetTable (ulongSub (size / 2) 1 % 2 ^ 16)
      else (ulongSub (size / 2) 1 % 2 ^ 16, none)) = used
  by_cases hzero : skipUnused t.offsetTable used.1 = 0
  · by_cases hone : t.offsetTable 1 = unusedEaHandle
    · simp [hzero, hone]
    · simp [hzero, hone]
  · simp [hzero]

/-- A handle that the set goes in front of is a used one of the offset table, and then the table has
room. -/
theorem findHandle_next {size i : ℕ} (h : (t.findHandle size).next = some i) :
    1 < i ∧ i ≤ ulongSub (size / 2) 1 % 2 ^ 16 ∧ t.offsetTable i ≠ unusedEaHandle ∧
      (t.findHandle size).addedOffsetTableCluster = false := by
  obtain ⟨last, used, hlast, hused, hnext, hadded⟩ := findHandle_spec t size
  rw [hnext] at h
  rw [← hlast]
  by_cases hlastUsed : t.offsetTable last ≠ unusedEaHandle
  · rw [if_pos hlastUsed] at hused
    have hskip : skipUsed t.offsetTable last = (used.1, some i) := by rw [← hused, ← h]
    obtain ⟨hji, hpos, hfree, hle, hi⟩ := skipUsed_spec hlastUsed hskip
    refine ⟨by omega, hle, hi, Bool.eq_false_iff.mpr fun htrue => ?_⟩
    -- handle 1 is unused, because all handles up to the one in front of `i` are
    obtain ⟨hzero, hone⟩ := hadded htrue
    rcases Nat.lt_or_ge 1 used.1 with hlt | hge
    · exact hone (unused_of_skipUnused hzero hlt)
    · rw [le_antisymm hge hpos] at hfree
      exact hone hfree
  · rw [hused, if_neg hlastUsed] at h
    simp at h

/-! ## The sizes -/

/-- The largest EA file leaves room for a cluster below 4 GB, and a chain whose clusters can be counted
in 16 bits and that ends below 4 GB is not longer. -/
theorem maximum_spec (g : Geometry) : ulong (0xffff * g.clusterSize) + g.clusterSize ≤ 2 ^ 32 ∧
    ∀ m ≤ 0xffff, m * g.clusterSize < 2 ^ 32 → m * g.clusterSize ≤ ulong (0xffff * g.clusterSize) := by
  have hS := g.clusterSize_pos
  rcases Nat.lt_or_ge g.clusterSize (2 ^ 16) with hsmall | hlarge
  · rw [ulong_of_lt (by omega)]
    exact ⟨by omega, fun m hm _ => Nat.mul_le_mul_right _ hm⟩
  · -- the shift loses the high bits, and what is left is one cluster less than 4 GB
    have hdvd : 2 ^ 16 ∣ g.clusterSize := by
      rw [Geometry.clusterSize] at hlarge ⊢
      exact pow_dvd_pow 2 ((Nat.pow_le_pow_iff_right (by norm_num)).mp hlarge)
    obtain ⟨j, hj⟩ := hdvd
    have hlimit := Move.offsetLimit_mul g
    have hpos := Move.offsetLimit_pos g
    rw [Move.ulong_mul_clusterSize]
    generalize Move.offsetLimit g = limit at hlimit hpos
    have hcount : limit * j = 2 ^ 16 := by
      rw [hj, Nat.mul_left_comm] at hlimit
      omega
    have hjpos : 0 < j := by
      refine Nat.pos_of_ne_zero fun hzero => ?_
      rw [hzero] at hcount
      omega
    have hmod : 0xffff % limit = limit - 1 := by
      have hsum : limit * (j - 1) + limit = 2 ^ 16 := by
        rw [Nat.mul_sub, hcount, Nat.mul_one]
        have := Nat.le_mul_of_pos_right limit hjpos
        omega
      have heq : 0xffff = limit * (j - 1) + (limit - 1) := by omega
      rw [heq, Nat.mul_add_mod, Nat.mod_eq_of_lt (by omega)]
    have hsum : (limit - 1) * g.clusterSize + g.clusterSize = 2 ^ 32 := by
      rw [Nat.sub_mul, Nat.one_mul, hlimit]
      have := Nat.le_mul_of_pos_left g.clusterSize hpos
      omega
    rw [hmod]
    refine ⟨hsum.le, fun m _ hm => Nat.mul_le_mul_right _ ?_⟩
    rw [← hlimit, Nat.mul_lt_mul_right hS] at hm
    omega

/-- A set of at least one byte, with the packed EAs and the header that its callers allow, in whole
clusters. -/
theorem roundToCluster_spec {n : ℕ} (hpos : 0 < n) (hle : n ≤ 0xffff + 30) : ∃ k, 0 < k ∧
    roundToCluster g n = k * g.clusterSize ∧ k * g.clusterSize + g.clusterSize < 2 ^ 32 := by
  have hS := g.clusterSize_pos
  have hmax := g.clusterSize_le
  refine ⟨(n + (g.clusterSize - 1)) / g.clusterSize, Nat.div_pos (by omega) hS, ?_, ?_⟩
  · rw [roundToCluster, ulong_of_lt (by omega)]
  · have := Nat.div_mul_le_self (n + (g.clusterSize - 1)) g.clusterSize
    omega

/-- The new set of an EA file goes behind `o` clusters and gets `k` clusters. -/
structure Placed (g : Geometry) (t : EaTables) (q : Plan) (cs : List ℕ) (o k : ℕ) : Prop where
  pos : 0 < o
  le : o ≤ cs.length
  count_pos : 0 < k
  eaSetVbo : q.eaSetVbo = o * g.clusterSize
  eaNewOffsetVbo : q.eaNewOffsetVbo = t.eaBaseTable 0 * g.clusterSize
  eaSetLength : q.eaSetLength = k * g.clusterSize
  newAllocation : q.newAllocation = (k + if q.addedOffsetTableCluster then 1 else 0) * g.clusterSize
  tail : q.tailExists = true ↔ o < cs.length
  offset : q.addedOffsetTableCluster = true → o = cs.length
  room : (cs.length + (k + if q.addedOffsetTableCluster then 1 else 0) + 1) * g.clusterSize ≤ 2 ^ 32

namespace ConsistentEaFile

variable (h : ConsistentEaFile g t f cs)

include h

theorem base_pos : 0 < t.eaBaseTable 0 := by
  refine Nat.pos_of_ne_zero fun hzero => ?_
  have hheader := h.header_lt
  rw [hzero] at hheader
  omega

/-- The clusters in front of the set, for the handle that was found. -/
theorem exists_offset (handle : Handle)
    (hhandle : handle = t.findHandle (ulongSub (ulong (t.eaBaseTable 0 * g.clusterSize)) 512)) :
    ∃ o, 0 < o ∧ o ≤ cs.length ∧
      (match handle.next with
        | some i => t.offsetTable i + t.eaBaseTable (i / 128)
        | none => f.fileSize.lowPart / g.clusterSize) = o ∧
      (handle.next.isSome = true ↔ o < cs.length) ∧
      (handle.addedOffsetTableCluster = true → o = cs.length) := by
  have hbase := h.base_pos
  cases hnext : handle.next with
  | none =>
      refine ⟨cs.length, hbase.trans_le h.base_le, le_rfl, ?_, by simp, fun _ => rfl⟩
      rw [h.fileSize]
      exact Nat.mul_div_cancel _ g.clusterSize_pos
  | some i =>
      rw [hhandle] at hnext
      obtain ⟨hone, hle, hused, hadded⟩ := findHandle_next hnext
      have hheader := h.header_lt
      have hmul := Nat.mul_le_mul_right g.clusterSize h.base_le
      have hlt := h.length_lt
      have heven : 2 ∣ g.clusterSize := dvd_pow_self 2 (by have := g.sector_mem; have := g.cluster_mem; omega)
      have heven := heven.mul_left (t.eaBaseTable 0)
      have hsize : ulongSub (ulong (t.eaBaseTable 0 * g.clusterSize)) 512 =
          t.eaBaseTable 0 * g.clusterSize - 512 := by
        rw [ulong_of_lt (by omega), ulongSub_of_le (by omega) (by omega)]
      rw [hsize, ulongSub_of_le (by omega) (by omega)] at hle
      have hi : i < (t.eaBaseTable 0 * g.clusterSize - 512) / 2 := by
        have := Nat.mod_le ((t.eaBaseTable 0 * g.clusterSize - 512) / 2 - 1) (2 ^ 16)
        omega
      obtain ⟨hge, hin⟩ := h.sets i hone hi hused
      refine ⟨_, by omega, hin.le, rfl, by simpa using hin, fun hcluster => ?_⟩
      rw [hhandle, hadded] at hcluster
      simp at hcluster

/-- **The plan** of an EA file that does not become too large. -/
theorem exists_placed {n : ℕ} (hpos : 0 < n) (hle : n ≤ 0xffff + 30)
    (hplan : t.plan g f.fileSize.lowPart n = some q) : ∃ o k, Placed g t q cs o k := by
  obtain ⟨k, hk, hround, hroom⟩ := roundToCluster_spec (g := g) hpos hle
  obtain ⟨o, ho, hole, hoffset, htail, hadded⟩ := h.exists_offset _ rfl
  have hlt := h.length_lt
  have hbase := (Nat.mul_le_mul_right g.clusterSize h.base_le).trans_lt hlt
  obtain ⟨hmax, hfits⟩ := maximum_spec g
  have hfits := hfits cs.length h.length_le hlt
  simp only [EaTables.plan] at hplan
  generalize t.findHandle (ulongSub (ulong (t.eaBaseTable 0 * g.clusterSize)) 512) = handle at *
  have hnew : ulong (roundToCluster g n + if handle.addedOffsetTableCluster then g.clusterSize else 0) =
      (k + if handle.addedOffsetTableCluster then 1 else 0) * g.clusterSize := by
    rw [hround, Nat.add_mul, ite_mul, Nat.one_mul, Nat.zero_mul, ulong_of_lt]
    split
    · exact hroom
    · omega
  by_cases hindex : 30719 < handle.newEaIndex
  · rw [if_pos hindex] at hplan
    simp at hplan
  rw [if_neg hindex, hnew, h.fileSize, ulongSub_of_le (by have := g.clusterSize_pos; omega) hfits] at hplan
  by_cases hsize : ulong (0xffff * g.clusterSize) - cs.length * g.clusterSize <
      (k + if handle.addedOffsetTableCluster then 1 else 0) * g.clusterSize
  · rw [if_pos hsize] at hplan
    simp at hplan
  rw [if_neg hsize, Option.some.injEq] at hplan
  subst hplan
  refine ⟨o, k, ho, hole, hk, ?_, ulong_of_lt hbase, hround, rfl, htail, hadded, ?_⟩
  · rw [h.fileSize] at hoffset
    exact (congrArg (fun m => ulong (m * g.clusterSize)) hoffset).trans
      (ulong_of_lt ((Nat.mul_le_mul_right _ hole).trans_lt hlt))
  · rw [Nat.add_mul, Nat.add_mul cs.length, Nat.one_mul]
    dsimp only
    omega

end ConsistentEaFile

/-! ## The new clusters -/

/-- A request that may be filled in pieces is not refused. -/
theorem byteCount_ne_zero_of_ok {r : Request} {v : Vcb} {a : AllocCall} {fuel : ℕ} (hg : g.Sound)
    (hb : Books g v (zeroSet g v.vol.fat) 0) (hr : r.byteCount ≠ 0)
    (hexact : r.exactMatchRequired = false) (hslow : ¬ FastPath g r v (zeroSet g v.vol.fat))
    (hok : fatAllocateDiskSpace g r fuel ⟨v, [], r.byteCount⟩ = .ok () a) : a.byteCount ≠ 0 := by
  have hadmitted := admitted_of_ok (c := ⟨v, [], r.byteCount⟩) hr hok
  rcases fatAllocateDiskSpace_cases (c := ⟨v, [], r.byteCount⟩) hr hb hadmitted with
    ⟨stop, w, -, herr⟩ | ⟨hints, w, -, hbooks, hchosen, hpath⟩
  · rw [herr] at hok
    simp at hok
  cases hpath with
  | fast _ _ _ hfast _ => exact absurd hfast hslow
  | slow _ heq =>
      rw [heq, allocateSlow] at hok
      have htaken := RunLoop.taken_start (c := { AllocCall.admitted g r ⟨v, [], r.byteCount⟩ with vcb := w })
        hints.2 hbooks rfl
      have hsat := htaken.sat_run r.exactMatchRequired fuel hg
        (fun x => by rw [hchosen.fat, mem_zeroSet, Geometry.mem_clusters])
        (r.clusterCount_mul_le hr) (r.clusterCount_pos hr) rfl
      split at hok
      · simp only [EStateM.Result.ok.injEq, true_and] at hok
        rw [← hok]
        exact requestSize_fst_ne_zero hr
      · next hrun =>
          have hrefused := (hsat.ok hrun).1
          rw [hexact] at hrefused
          simp at hrefused
      · simp at hok

/-- A request for whole clusters. -/
theorem requestSize_mul {m : ℕ} (hm : 0 < m) (hlt : m * g.clusterSize < 2 ^ 32) :
    requestSize g (m * g.clusterSize) = (m * g.clusterSize, m) := by
  have hS := g.clusterSize_pos
  have hroom := Move.add_clusterSize_le hlt
  have hround : roundByteCount g (m * g.clusterSize) = m * g.clusterSize := by
    rw [roundByteCount, ulong_of_lt (by omega), Nat.add_comm, Nat.add_mul_div_right _ _ hS,
      Nat.div_eq_of_lt (by omega), Nat.zero_add]
  have hpos := Nat.mul_pos hm hS
  rw [requestSize, hround, if_neg hpos.ne', Nat.mul_div_cancel _ hS]

/-- **The allocation.**  A request for whole clusters that succeeds chains as many clusters together
that were free, and maps them. -/
theorem exists_completed {v : Vcb} {a : AllocCall} {fuel m : ℕ} (h : Consistent g v) (hm : 0 < m)
    (hlt : m * g.clusterSize < 2 ^ 32)
    (hok : fatAllocateDiskSpace g (Request.at 0 (m * g.clusterSize)) fuel
      ⟨v, [], (Request.at 0 (m * g.clusterSize)).byteCount⟩ = .ok () a) :
    ∃ ns, Completed g (Request.at 0 (m * g.clusterSize)) (zeroSet g v.vol.fat)
        ⟨v, [], (Request.at 0 (m * g.clusterSize)).byteCount⟩ a ns ∧
      a.mcb = mcbOf g ns ∧ ns.length = m ∧ a.byteCount = m * g.clusterSize := by
  have hbytes : (Request.at 0 (m * g.clusterSize)).byteCount = m * g.clusterSize := ulong_of_lt hlt
  have hsize := requestSize_mul hm hlt
  have hcount : (Request.at 0 (m * g.clusterSize)).clusterCount g = m := by
    rw [Request.clusterCount, hbytes, hsize]
  have hr : (Request.at 0 (m * g.clusterSize)).byteCount ≠ 0 := by
    rw [hbytes]
    exact (Nat.mul_pos hm g.clusterSize_pos).ne'
  have hgive : ∀ ns, Completed g (Request.at 0 (m * g.clusterSize)) (zeroSet g v.vol.fat)
      ⟨v, [], (Request.at 0 (m * g.clusterSize)).byteCount⟩ a ns → a.mcb = mcbOf g ns →
      ∃ ns, Completed g (Request.at 0 (m * g.clusterSize)) (zeroSet g v.vol.fat)
          ⟨v, [], (Request.at 0 (m * g.clusterSize)).byteCount⟩ a ns ∧
        a.mcb = mcbOf g ns ∧ ns.length = m ∧ a.byteCount = m * g.clusterSize := by
    intro ns hcompleted hmcb
    refine ⟨ns, hcompleted, hmcb, hcompleted.length.trans hcount, ?_⟩
    rw [hcompleted.byteCount, hbytes, hsize]
  by_cases hfast : FastPath g (Request.at 0 (m * g.clusterSize)) v (zeroSet g v.vol.fat)
  · obtain ⟨x, hcompleted, hmcb⟩ := completed_of_fast
      (c := ⟨v, [], (Request.at 0 (m * g.clusterSize)).byteCount⟩) hr h.books rfl hfast hok
    exact hgive _ hcompleted hmcb
  · have hne := byteCount_ne_zero_of_ok h.sound h.books hr rfl hfast hok
    have hwrap : (Request.at 0 (m * g.clusterSize)).clusterCount g * g.clusterSize < 2 ^ 32 := by
      rw [hcount]
      exact hlt
    obtain ⟨ns, -, -, hcompleted, hmcb, -⟩ := map_of_ok hr h.books (fun _ => h.sound.links) hfast
      (Or.inl hwrap) (v := v) hok hne
    exact hgive ns hcompleted hmcb

/-! ## The parts -/

/-- The parts of a file and a new allocation: the last new cluster is that of the offset table, and
else the file is cut where the set goes. -/
def splitParts (g : Geometry) (q : Plan) (cs ns : List ℕ) : Parts :=
  if q.addedOffsetTableCluster then
    { head := cs.take (q.eaNewOffsetVbo / g.clusterSize)
      own := fun
        | .eaSet => ns.take (q.eaSetLength / g.clusterSize)
        | .eaOffset => ns.drop (q.eaSetLength / g.clusterSize)
        | .eaInitialEa => cs.drop (q.eaNewOffsetVbo / g.clusterSize)
        | .eaTail => [] }
  else
    { head := cs.take (q.eaSetVbo / g.clusterSize)
      own := fun
        | .eaSet => ns
        | .eaTail => cs.drop (q.eaSetVbo / g.clusterSize)
        | _ => [] }

/-- **The parts fit the plan** of a consistent EA file. -/
theorem fits_splitParts {o k : ℕ} {a : AllocCall} (h : ConsistentEaFile g t f cs)
    (hq : Placed g t q cs o k)
    (hcompleted : Completed g (Request.at 0 q.newAllocation) (zeroSet g f.vcb.vol.fat)
      ⟨f.vcb, [], (Request.at 0 q.newAllocation).byteCount⟩ a ns)
    (hlength : ns.length = k + if q.addedOffsetTableCluster then 1 else 0) :
    Fits g q f cs ns (splitParts g q cs ns) := by
  have hS := g.clusterSize_pos
  have hdiv : ∀ m, m * g.clusterSize / g.clusterSize = m := fun m => Nat.mul_div_cancel m hS
  have hlen : 0 < cs.length := hq.pos.trans_le hq.le
  have hcount := hq.count_pos
  have hdisjoint : List.Disjoint cs ns := by
    intro x hx hnew
    exact entry_ne_zero_of_leads h.chain hx (mem_zeroSet.mp (hcompleted.free x hnew)).2
  have hcsnodup : cs.Nodup := h.chain.nodup
  have hclusters : ∀ x ∈ cs ++ ns, x ∈ g.clusters := by
    intro x hx
    rcases List.mem_append.mp hx with hx | hx
    · exact h.clusters x hx
    · exact zeroSet_subset _ (hcompleted.free x hx)
  have hroom : ((cs ++ ns).length + 1) * g.clusterSize ≤ 2 ^ 32 := by
    rw [List.length_append, hlength]
    exact hq.room
  have hnew : q.newAllocation = ns.length * g.clusterSize := by
    rw [hlength]
    exact hq.newAllocation
  have hnodup := hcsnodup.append hcompleted.nodup hdisjoint
  have hbase := h.base_pos
  by_cases hadded : q.addedOffsetTableCluster = true
  · have ho := hq.offset hadded
    have hle := h.base_le
    rw [if_pos hadded] at hlength
    rw [splitParts, if_pos hadded, hq.eaNewOffsetVbo, hq.eaSetLength, hdiv, hdiv]
    have hset : (ns.take k).length = k := by
      rw [List.length_take]
      omega
    have hoffset : (ns.drop k).length = 1 := by
      rw [List.length_drop]
      omega
    have htail : q.tailExists = true ↔ ([] : List ℕ) ≠ [] := by
      rw [hq.tail, ho]
      simp
    have hinitial : (q.addedOffsetTableCluster = true ∧ q.eaSetVbo ≠ q.eaNewOffsetVbo) ↔
        cs.drop (t.eaBaseTable 0) ≠ [] := by
      rw [hq.eaSetVbo, hq.eaNewOffsetVbo, ho, ne_eq, Nat.mul_left_inj hS.ne', ne_eq, List.drop_eq_nil_iff]
      exact ⟨fun hne => by omega, fun hne => ⟨hadded, by omega⟩⟩
    refine ⟨(by simp), (List.take_append_drop k ns).symm, hnodup, hcompleted.free, h.chain, hclusters, hroom,
      h.mcb.eq_mcbOf, h.fileSize, h.allocationSize, h.direntFileSize, ?_, ?_,
      iff_of_true hadded ?_, fun _ => hoffset, htail, fun hne => absurd rfl hne, hinitial, ?_, fun _ => ?_, ?_,
      hnew⟩
    · exact List.ne_nil_of_length_pos (by rw [List.length_take]; omega)
    · exact List.ne_nil_of_length_pos (by dsimp only; omega)
    · exact List.ne_nil_of_length_pos (by dsimp only; omega)
    · dsimp only
      rw [List.length_take, List.length_drop, hq.eaSetVbo, ho]
      congr 1
      omega
    · dsimp only
      rw [List.length_take, Nat.min_eq_left hle, hq.eaNewOffsetVbo]
    · dsimp only
      rw [hset, hq.eaSetLength]
  · rw [if_neg hadded, Nat.add_zero] at hlength
    rw [splitParts, if_neg hadded, hq.eaSetVbo, hdiv]
    have hle := hq.le
    have hpos := hq.pos
    refine ⟨(by simp), (by simp), hnodup, hcompleted.free, h.chain, hclusters, hroom,
      h.mcb.eq_mcbOf, h.fileSize, h.allocationSize, h.direntFileSize, ?_, ?_,
      iff_of_false hadded (by simp), fun hne => absurd rfl hne, ?_, fun _ => ⟨rfl, rfl⟩,
      iff_of_false (fun hcluster => hadded hcluster.1) (by simp), ?_, fun hne => absurd rfl hne, ?_, hnew⟩
    · exact List.ne_nil_of_length_pos (by rw [List.length_take]; omega)
    · exact List.ne_nil_of_length_pos (by dsimp only; omega)
    · rw [hq.tail, ne_eq, List.drop_eq_nil_iff]
      omega
    · dsimp only
      rw [List.length_take, Nat.min_eq_left hle, List.length_nil, Nat.add_zero, hq.eaSetVbo]
    · dsimp only
      rw [hlength, hq.eaSetLength]

/-! ## Failure -/

section Failure

variable {n fuel : ℕ} {a : AllocCall} {pt : Point} (h : ConsistentEaFile g t f cs)
  (hpos : 0 < n) (hle : n ≤ 0xffff + 30) (hplan : t.plan g f.fileSize.lowPart n = some q)
  (hok : fatAllocateDiskSpace g (Request.at 0 q.newAllocation) fuel
    ⟨f.vcb, [], (Request.at 0 q.newAllocation).byteCount⟩ = .ok () a)

include h hpos hle hplan hok

/-- What is allocated for a plan fits it. -/
theorem exists_fits : ∃ ns L, Fits g q f cs ns L ∧
    Completed g (Request.at 0 q.newAllocation) (zeroSet g f.vcb.vol.fat)
      ⟨f.vcb, [], (Request.at 0 q.newAllocation).byteCount⟩ a ns ∧
    a.mcb = mcbOf g ns ∧ a.byteCount = q.newAllocation := by
  obtain ⟨o, k, hq⟩ := h.exists_placed hpos hle hplan
  have hcount : 0 < k + if q.addedOffsetTableCluster then 1 else 0 := Nat.add_pos_left hq.count_pos _
  have hlt : (k + if q.addedOffsetTableCluster then 1 else 0) * g.clusterSize < 2 ^ 32 := by
    have hroom := hq.room
    have hS := g.clusterSize_pos
    rw [Nat.add_mul, Nat.add_mul] at hroom
    omega
  have hnew := hq.newAllocation
  obtain ⟨ns, hcompleted, hmcb, hlength, hbytes⟩ := exists_completed h.consistent hcount hlt (hnew ▸ hok)
  rw [← hnew] at hcompleted hbytes
  exact ⟨ns, _, fits_splitParts h hq hcompleted hlength, hcompleted, hmcb, hbytes⟩

/-- **When a failed insertion leaves the EA file.**  Once the space is allocated, the unwind restores
a consistent EA file exactly when the call does not fail to initialise a merged map again. -/
theorem failsSafely_iff (hnone : f.vcb.vol.io = none) :
    FailsSafely g q pt fuel f cs ↔ ¬ q.Reinitializes pt := by
  have hg := h.consistent.sound
  obtain ⟨ns, L, hfits, hcompleted, hmcb, hbytes⟩ := exists_fits h hpos hle hplan hok
  exact ⟨fun hsafe hpt => not_failsSafely hg hfits hok hcompleted hmcb hbytes hnone hpt hsafe,
    failsSafely_of_not_reinitializes hg hfits hok hcompleted hmcb hbytes hnone⟩

end Failure

/-- A base table and an offset table in which every handle is unused. -/
def blankTables : EaTables := ⟨fun _ => 2, fun _ => unusedEaHandle⟩

/-- What a set of 40 bytes is planned as. -/
def blankPlan : Plan := ⟨1, 1024, 1024, 512, 512, false, false⟩

theorem plan_blankTables : blankTables.plan floppy 1024 40 = some blankPlan := by
  have hskip : ∀ n, skipUnused (fun _ => unusedEaHandle) n = 0 := by
    intro n
    induction n with
    | zero => rfl
    | succ n ih => exact ih
  have hhandle : blankTables.findHandle 512 = ⟨1, none, false⟩ := by
    rw [EaTables.findHandle]
    simp [hskip, blankTables]
  have hS : floppy.clusterSize = 512 := by decide
  have hsize : ulongSub (ulong (blankTables.eaBaseTable 0 * 512)) 512 = 512 := rfl
  have hround : roundToCluster floppy 40 = 512 := by decide
  simp only [EaTables.plan, hS, hsize, hhandle, hround]
  rfl

/-- On a diskette with an EA file of two clusters, both taken by the tables, a cluster for the first
set is allocated. -/
theorem exists_floppyEaFile : ∃ f a, ConsistentEaFile floppy blankTables f [2, 3] ∧
    f.vcb.vol.io = none ∧ blankTables.plan floppy f.fileSize.lowPart 40 = some blankPlan ∧
    fatAllocateDiskSpace floppy (Request.at 0 512) 1 ⟨f.vcb, [], 512⟩ = .ok () a := by
  obtain ⟨v, -, hfat, hbooks, hnone⟩ := exists_mount floppy ⟨linkedFat, [], none⟩ rfl
  have hmem : ∀ c ∈ [2, 3], c ∈ floppy.clusters := by
    intro c hc
    rw [Geometry.mem_clusters, floppy_numberOfClusters]
    simp only [List.mem_cons, List.not_mem_nil, or_false] at hc
    omega
  have hS : floppy.clusterSize = 512 := by decide
  have hlen : [2, 3].length = 2 := rfl
  have hmap : MapsFile floppy (mcbOf floppy [2, 3]) [2, 3] := by
    refine mapsFile_mcbOf floppy_sound.aligned (by decide) (plain_mcbOf floppy_sound.sectors hmem) ?_
    rw [hS, hlen]
    norm_num
  have hfast : FastPath floppy (Request.at 0 512) v (zeroSet floppy v.vol.fat) := by
    have hC : (Request.at 0 512).clusterCount floppy = 1 := by decide
    have hcur := hbooks.currentWindow_eq_zero floppy_numberOfWindows
    rw [FastPath, if_neg (by simp [Request.Hinted, Request.at])]
    refine ⟨4, ?_⟩
    rw [startWindow, if_neg (by simp [Request.Hinted, Request.at]), hC, freeRun_one_iff, hcur,
      Finset.mem_inter, mem_zeroSet, Geometry.mem_window, floppy.firstOf_zero, floppy_endOf,
      floppy_numberOfClusters, hfat, floppy_width]
    decide
  have hfree : 1 ≤ v.numberOfFreeClusters := by
    have htotal := hbooks.total
    have hfour : 4 ∈ zeroSet floppy v.vol.fat := by
      rw [mem_zeroSet, floppy_numberOfClusters, hfat, floppy_width]
      decide
    have := Finset.card_pos.mpr ⟨4, hfour⟩
    omega
  obtain ⟨a, hok, -⟩ := exists_ok_of_fastPath (c := ⟨v, [], 512⟩) (r := Request.at 0 512) (by decide) hbooks 1
    rfl hnone hfree hfast
  refine ⟨⟨v, mcbOf floppy [2, 3], ⟨1024, 0⟩, ⟨1024, 0⟩, 1024⟩, a, ?_, hnone, plan_blankTables, hok⟩
  refine ⟨⟨floppy_sound, hbooks⟩, hmem, ?_, hmap, by norm_num, ?_, ?_, ?_, ?_, le_rfl, ?_, ?_⟩
  · rw [hfat, floppy_width]
    exact leads_linkedFat
  · rw [hS, hlen]
    norm_num
  · rw [hS, hlen]
  · rw [hS, hlen]
  · rw [hS, hlen]
  · rw [hS]
    norm_num [blankTables]
  · intro i _ _ hused
    exact absurd rfl hused

/-- A call that fails to purge the cache is undone. -/
theorem failsSafely_floppy : ∃ f, ConsistentEaFile floppy blankTables f [2, 3] ∧
    FailsSafely floppy blankPlan .purgeCacheSection 1 f [2, 3] := by
  obtain ⟨f, a, hfile, hnone, hplan, hok⟩ := exists_floppyEaFile
  refine ⟨f, hfile, (failsSafely_iff hfile (by norm_num) (by norm_num) hplan hok hnone).mpr ?_⟩
  simp [Plan.Reinitializes]

/-- One that fails to initialise the map of the set again is not: the set stays in the file, and
clusters of the file are freed. -/
theorem not_failsSafely_floppy : ∃ f, ConsistentEaFile floppy blankTables f [2, 3] ∧
    f.vcb.vol.io = none ∧ blankTables.plan floppy f.fileSize.lowPart 40 = some blankPlan ∧
    ¬ FailsSafely floppy blankPlan (.reinitMcb .eaSet) 1 f [2, 3] := by
  obtain ⟨f, a, hfile, hnone, hplan, hok⟩ := exists_floppyEaFile
  obtain ⟨ns, L, hfits, hcompleted, hmcb, hbytes⟩ :=
    exists_fits hfile (by norm_num) (by norm_num) hplan hok
  exact ⟨f, hfile, hnone, hplan,
    not_failsSafely floppy_sound hfits hok hcompleted hmcb hbytes hnone (Or.inl rfl)⟩

end KernelDrivers.Fat.AddEaSet
