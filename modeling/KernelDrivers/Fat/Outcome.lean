import KernelDrivers.Fat.Atomic
import KernelDrivers.Fat.FirstRun

/-!
# What a completed allocation leaves

The map and the chain of a request that completes, and what is left when the space is
given back.  Both go wrong for requests of 4 GB: when the run loop finds all of it at
once, the byte count of the run is zero in 32 bits and the map stays empty; when the map
is a single run, its byte count comes back as `0xffffffff` and one cluster is not freed.

## Main definitions

* `AllocatedChain` — the map and the chain hold the same clusters, which were free.
* `Undone` — FAT, bitmap, counts and total are as before.
* `Contiguous` — the run loop fills the request with consecutive clusters.
-/

namespace KernelDrivers.Fat

variable {g : Geometry} {r : Request} {v : Vcb}

/-- The clusters `cs` were free in `v`, are mapped in order and without a hole onto the
bytes of the request, and are chained together; no other entry has changed. -/
structure AllocatedChain (g : Geometry) (v : Vcb) (c' : AllocCall) (cs : List ℕ) : Prop where
  nodup : cs.Nodup
  valid : ∀ x ∈ cs, 2 ≤ x ∧ x ≤ g.numberOfClusters + 1
  free : ∀ x ∈ cs, lookupEntry g.width v.vol.fat x = 0
  mapped : Runs.cells c'.mcb = (cs.flatMap (sectorsOf g)).map some
  length : (Runs.cells c'.mcb).length = mcbSectors g c'.byteCount
  chain : Leads (fatLink g.width c'.vcb.vol.fat) cs .last
  frame : ∀ x ∉ cs, lookupEntry g.width c'.vcb.vol.fat x = lookupEntry g.width v.vol.fat x

/-- Every call for `r` that completes allocates a chain and maps it. -/
def AllocatesChains (g : Geometry) (r : Request) (v : Vcb) : Prop :=
  ∀ io fuel c', fatAllocateDiskSpace g r fuel ⟨v.withFault io, [], r.byteCount⟩ = .ok () c' →
    c'.byteCount ≠ 0 → ∃ cs, AllocatedChain g v c' cs

/-- A completed request with the map of its clusters. -/
theorem Completed.allocatedChain {io : Option ℕ} {c' : AllocCall} {cs : List ℕ}
    (hr : r.byteCount ≠ 0) (hmark : g.numberOfClusters + 1 < g.width.reservedMark)
    (h : Completed g r (zeroSet g v.vol.fat) ⟨v.withFault io, [], r.byteCount⟩ c' cs)
    (hmcb : c'.mcb = mcbOf g cs) : AllocatedChain g v c' cs := by
  have hfree : ∀ x ∈ cs, (2 ≤ x ∧ x < g.numberOfClusters + 2) ∧
      lookupEntry g.width v.vol.fat x = 0 := fun x hx => mem_zeroSet.mp (h.free x hx)
  have hne : cs ≠ [] := by
    have hpos := r.clusterCount_pos (g := g) hr
    have hlen := h.length
    intro hnil
    rw [hnil, List.length_nil] at hlen
    omega
  refine ⟨h.nodup, fun x hx => ?_, fun x hx => (hfree x hx).2, ?_, ?_, ?_, fun x hx => ?_⟩
  · have := (hfree x hx).1
    omega
  · rw [hmcb, cells_mcbOf]
  · rw [hmcb, cells_mcbOf, List.length_map, length_flatMap_sectorsOf, h.length, h.byteCount,
      r.mcbSectors_eq hr]
  · have hleads := leads_chainEntry (w := g.width) (e := lookupEntry g.width v.vol.fat) hne h.nodup
      fun x hx => by
        have := (hfree x hx).1
        omega
    refine hleads.congr fun x _ => ?_
    rw [fatLink, h.entry]
    rfl
  · rw [h.entry, chainEntry_of_notMem hx]
    rfl

namespace RunLoop

variable {e : ℕ → ℕ} {F : Finset ℕ} {C : ℕ} {exactMatchRequired : Bool} {s t s' : RunLoop}

section FirstTake

variable (h : FirstTake g e F C exactMatchRequired s t s') (hC : C * g.clusterSize ≤ 2 ^ 32)

include h

theorem FirstTake.takenSearch : Taken g e F C [] t := (h.taken.setLocked true).found (search_found h.search)

theorem FirstTake.remaining_eq : t.clustersRemaining = C := by
  rw [(search_found h.search).rest]
  exact h.remaining

theorem FirstTake.le : t.clustersFound ≤ t.clustersRemaining := by
  have := (search_found h.search).le
  rw [h.remaining_eq, ← h.remaining]
  exact this

theorem FirstTake.clear : t.vcb.freeClusterBitMap.ClearAt t.index t.clustersFound := by
  have := (search_found h.search).clear h.takes.found
  rw [(search_found h.search).rest]
  exact this

include hC

/-- A first run below 4 GB is mapped. -/
theorem FirstTake.mapped (hlt : t.clustersFound * g.clusterSize < 2 ^ 32) :
    Mapped g C (List.range' (firstFound g t) t.clustersFound) s' := by
  have := h.takes.mapped h.takenSearch h.le h.clear hC hlt
  rwa [List.nil_append] at this

/-- A first run of 4 GB leaves the map empty. -/
theorem FirstTake.mcb_eq_nil (hmax : t.clustersFound * g.clusterSize = 2 ^ 32) : s'.mcb = [] := by
  have hres := h.takenSearch.reserved_reserveFound h.takes.found h.le h.clear hC
  obtain ⟨vol', heq, -⟩ := h.takes.result
  have hmcb := hres.mcb
  rw [if_pos hmax] at hmcb
  rw [heq]
  exact hmcb

end FirstTake

end RunLoop

/-- The first run does not depend on faults. -/
theorem firstRun_withFault {io : Option ℕ} {F : Finset ℕ} {y n : ℕ} :
    FirstRun g r (v.withFault io) F y n ↔ FirstRun g r v F y n := by
  constructor
  · intro h
    cases h with
    | hint hfree => exact .hint hfree
    | luck hex hnot hrun => exact .luck hex hnot hrun
    | best hex hnot hempty hrun => exact .best hex hnot hempty hrun
  · intro h
    cases h with
    | hint hfree => exact .hint (v := v.withFault io) hfree
    | luck hex hnot hrun => exact .luck (v := v.withFault io) hex hnot hrun
    | best hex hnot hempty hrun => exact .best (v := v.withFault io) hex hnot hempty hrun

section Map

variable {F : Finset ℕ} (hr : r.byteCount ≠ 0) (hb : Books g v (zeroSet g v.vol.fat) 0)
  (hlinks : 1 < g.numberOfWindows → g.numberOfClusters + 1 < 2 ^ g.width.linkBits)

include hr hb hlinks

/-- **The map of a completed request** is exact, unless the run loop found 4 GB at once.
Its first clusters are those of the first run. -/
theorem map_of_ok {io : Option ℕ} {fuel : ℕ} {c' : AllocCall}
    (hslow : ¬ FastPath g r v (zeroSet g v.vol.fat))
    (hwrap : r.clusterCount g * g.clusterSize < 2 ^ 32 ∨
      ∀ y, ¬ FirstRun g r v (zeroSet g v.vol.fat) y (r.clusterCount g))
    (hok : fatAllocateDiskSpace g r fuel ⟨v.withFault io, [], r.byteCount⟩ = .ok () c')
    (hne : c'.byteCount ≠ 0) :
    ∃ cs y n, Completed g r (zeroSet g v.vol.fat) ⟨v.withFault io, [], r.byteCount⟩ c' cs ∧
      c'.mcb = mcbOf g cs ∧ FirstRun g r v (zeroSet g v.vol.fat) y n ∧ n ≠ 0 ∧
      List.range' y n <+: cs := by
  have hb' : Books g (v.withFault io) (zeroSet g v.vol.fat) 0 := hb.setVol _
  have hC := r.clusterCount_mul_le (g := g) hr
  obtain ⟨hints, v1, s, hbooks, hchosen, hloop, rfl⟩ :=
    loop_of_ok (c := ⟨v.withFault io, [], r.byteCount⟩) hr hb' hslow hok hne
  have hF : ∀ x, x ∈ zeroSet g v.vol.fat ↔ x ∈ g.clusters ∧ lookupEntry g.width v1.vol.fat x = 0 := by
    intro x
    rw [hchosen.fat, mem_zeroSet, Geometry.mem_clusters]
    rfl
  obtain ⟨s0, t, s1, fuel1, hfirst, hrun, hloop1⟩ :=
    RunLoop.first_take (c := { AllocCall.admitted g r ⟨v.withFault io, [], r.byteCount⟩ with vcb := v1 })
      hchosen hr hbooks rfl hF hlinks hloop
  have hrun : FirstRun g r v (zeroSet g v.vol.fat) (RunLoop.firstFound g t) t.clustersFound :=
    firstRun_withFault.mp hrun
  have hlt : t.clustersFound * g.clusterSize < 2 ^ 32 := by
    have hle := hfirst.le
    rw [hfirst.remaining_eq] at hle
    rcases hwrap with hlt | hno
    · exact (Nat.mul_le_mul_right _ hle).trans_lt hlt
    · have hne' : t.clustersFound ≠ r.clusterCount g := fun heq => hno _ (heq ▸ hrun)
      exact (Nat.mul_lt_mul_of_pos_right (lt_of_le_of_ne hle hne') g.clusterSize_pos).trans_le hC
  have hsat := hfirst.takes.taken.sat_loop r.exactMatchRequired
    fuel1 hF hC hlinks
  obtain ⟨hrem, cs, htaken, hpre, hmap, -⟩ := hsat.ok hloop1
  rw [List.nil_append] at hpre hmap
  have hio : v1.vol.io = none → s.vcb.vol.io = none := by
    obtain ⟨-, _, -, -, -, hio⟩ := ((RunLoop.taken_start
      (c := { AllocCall.admitted g r ⟨v.withFault io, [], r.byteCount⟩ with vcb := v1 }) _ hbooks
      rfl).sat_loop _ _ hF hC hlinks).ok hloop
    exact hio
  have hcompleted := completed_of_taken (c := ⟨v.withFault io, [], r.byteCount⟩) hchosen htaken hrem hio
  exact ⟨cs, RunLoop.firstFound g t, t.clustersFound, hcompleted, hmap (hfirst.mapped hC hlt), hrun,
    hfirst.takes.found, hpre⟩

/-- A request of 4 GB that the run loop finds at once completes with an empty map. -/
theorem exists_empty_map (hslow : ¬ FastPath g r v (zeroSet g v.vol.fat))
    (hadmitted : ¬ v.numberOfFreeClusters < r.clusterCount g)
    (hmax : r.clusterCount g * g.clusterSize = 2 ^ 32) {y : ℕ}
    (hfirst : FirstRun g r v (zeroSet g v.vol.fat) y (r.clusterCount g)) :
    ∃ fuel c', fatAllocateDiskSpace g r fuel ⟨v.withFault none, [], r.byteCount⟩ = .ok () c' ∧
      c'.byteCount ≠ 0 ∧ c'.mcb = [] := by
  have hb' : Books g (v.withFault none) (zeroSet g v.vol.fat) 0 := hb.setVol _
  obtain ⟨hints, v1, hbooks, hchosen, hrun⟩ :=
    ok_of_loop (c := ⟨v.withFault none, [], r.byteCount⟩) hr hb' hslow rfl hadmitted
  have hex : r.exactMatchRequired = false := by
    cases hf : r.exactMatchRequired with
    | false => rfl
    | true =>
        exfalso
        have hC := r.clusterCount_pos (g := g) hr
        generalize hn : r.clusterCount g = n at hfirst
        cases hfirst with
        | hint hfree => exact hslow (hfree.fastPath (by omega))
        | luck hex => exact absurd (hf.symm.trans hex) (by simp)
        | best hex => exact absurd (hf.symm.trans hex) (by simp)
  obtain ⟨s0, t, s1, k, htake, hfound, -, -, hloop⟩ :=
    RunLoop.exists_first_take
      (c := { AllocCall.admitted g r ⟨v.withFault none, [], r.byteCount⟩ with vcb := v1 })
      hchosen hr hbooks rfl
      (fun x => by rw [hchosen.fat, mem_zeroSet, Geometry.mem_clusters]) hlinks
      (hchosen.io rfl) (firstRun_withFault.mpr hfirst)
  have hrem : s1.clustersRemaining = 0 := by
    rw [htake.takes.after.remaining, htake.remaining_eq, hfound, Nat.sub_self]
  have hdone := (hloop 0).trans (RunLoop.loop_of_zero 0 hrem)
  refine ⟨0 + k, _, hrun _ _ (by simp [hex]) hdone, requestSize_fst_ne_zero hr, ?_⟩
  exact htake.mcb_eq_nil hmax.le (by rw [hfound, hmax])

/-- Its clusters are not mapped. -/
theorem not_allocatesChains (hslow : ¬ FastPath g r v (zeroSet g v.vol.fat))
    (hadmitted : ¬ v.numberOfFreeClusters < r.clusterCount g)
    (hmax : r.clusterCount g * g.clusterSize = 2 ^ 32) {y : ℕ}
    (hfirst : FirstRun g r v (zeroSet g v.vol.fat) y (r.clusterCount g)) :
    ¬ AllocatesChains g r v := by
  intro hall
  obtain ⟨fuel, c', hok, hne, hmcb⟩ := exists_empty_map hr hb hlinks hslow hadmitted hmax hfirst
  obtain ⟨cs, hchain⟩ := hall none fuel c' hok hne
  have hmapped := hchain.mapped
  rw [hmcb, Runs.cells_nil] at hmapped
  have hlen := length_flatMap_sectorsOf g cs
  rw [List.map_eq_nil_iff.mp hmapped.symm, List.length_nil, eq_comm, Nat.mul_eq_zero] at hlen
  have hnil := hlen.resolve_right g.clusterSectors_pos.ne'
  exact hchain.chain.ne_nil (List.length_eq_zero_iff.mp hnil)

end Map

/-- **What a completed allocation is.**  On a volume whose cluster numbers stay below the
marks, in every state that agrees with its FAT, a completed request is a mapped chain
exactly when it is not one of 4 GB that the run loop finds at once. -/
theorem allocatesChains_iff (hl : Layout g v) (ha : Accounting g v)
    (hmark : g.numberOfClusters + 1 < g.width.reservedMark) :
    AllocatesChains g r v ↔ r.byteCount = 0 ∨ v.numberOfFreeClusters < r.clusterCount g ∨
      FastPath g r v (zeroSet g v.vol.fat) ∨ r.clusterCount g * g.clusterSize < 2 ^ 32 ∨
      ∀ y, ¬ FirstRun g r v (zeroSet g v.vol.fat) y (r.clusterCount g) := by
  have hb := hl.accounting_iff.mp ha
  have hlinks : 1 < g.numberOfWindows → g.numberOfClusters + 1 < 2 ^ g.width.linkBits :=
    fun _ => hmark.trans g.width.reservedMark_lt
  constructor
  · intro hall
    by_contra hnot
    simp only [not_or, not_forall, not_not] at hnot
    obtain ⟨hr, hadmitted, hslow, hbig, y, hfirst⟩ := hnot
    have hmax : r.clusterCount g * g.clusterSize = 2 ^ 32 :=
      le_antisymm (r.clusterCount_mul_le hr) (not_lt.mp hbig)
    exact not_allocatesChains hr hb hlinks hslow hadmitted hmax hfirst hall
  · intro hcond io fuel c' hok hne
    have hb' : Books g (v.withFault io) (zeroSet g v.vol.fat) 0 := hb.setVol _
    by_cases hr : r.byteCount = 0
    · rw [fatAllocateDiskSpace, if_pos hr] at hok
      simp only [pure, EStateM.pure, EStateM.Result.ok.injEq, true_and] at hok
      rw [← hok] at hne
      exact absurd hr hne
    by_cases hfast : FastPath g r v (zeroSet g v.vol.fat)
    · obtain ⟨x, hcompleted, hmcb⟩ :=
        completed_of_fast (c := ⟨v.withFault io, [], r.byteCount⟩) hr hb' rfl hfast hok
      exact ⟨_, hcompleted.allocatedChain hr hmark hmcb⟩
    · have hadmitted : ¬ v.numberOfFreeClusters < r.clusterCount g :=
        admitted_of_ok (c := ⟨v.withFault io, [], r.byteCount⟩) hr hok
      have hwrap := ((hcond.resolve_left hr).resolve_left hadmitted).resolve_left hfast
      obtain ⟨cs, _, _, hcompleted, hmcb, -⟩ := map_of_ok hr hb hlinks hfast hwrap hok hne
      exact ⟨cs, hcompleted.allocatedChain hr hmark hmcb⟩

/-- A completed request on an empty diskette is a mapped chain. -/
theorem allocatesChains_floppy :
    ∃ v, (Layout floppy v ∧ Accounting floppy v) ∧
      AllocatesChains floppy (request 512 (by decide)) v := by
  obtain ⟨v, -, hfat, hbooks, -⟩ := exists_mount floppy ⟨fun _ => 0, [], none⟩ rfl
  have hacc := hbooks.accounting
  refine ⟨v, ⟨hbooks.layout, hacc⟩, (allocatesChains_iff hbooks.layout hacc ?_).mpr ?_⟩
  · rw [floppy_width, floppy_numberOfClusters]
    decide
  · exact Or.inr (Or.inr (Or.inl (fastPath_floppy hfat hbooks)))

/-- A volume of 8200 clusters of 512 KB with one 16-bit FAT. -/
def bigFat16Boot : BootSector
  | 0 => 0xeb
  | 12 => 0x10
  | 13 => 128
  | 14 => 1
  | 16 => 1
  | 17 => 128
  | 21 => 0xf8
  | 22 => 5
  | 32 => 0x07
  | 33 => 0x04
  | 34 => 0x10
  | _ => 0

theorem fatIsBootSectorFat_bigFat16Boot : fatIsBootSectorFat false bigFat16Boot = true := by
  decide

/-- Its geometry. -/
def bigFat16 : Geometry := geometryOf _ (accepted_of_fatIsBootSectorFat fatIsBootSectorFat_bigFat16Boot)

theorem bigFat16_width : bigFat16.width = .fat16 := by decide

theorem bigFat16_numberOfClusters : bigFat16.numberOfClusters = 8200 := by
  rw [bigFat16, geometryOf_numberOfClusters]
  decide

theorem bigFat16_numberOfWindows : bigFat16.numberOfWindows = 1 := by
  rw [Geometry.numberOfWindows, if_neg]
  rw [bigFat16_width]
  simp

theorem bigFat16_endOf : bigFat16.endOf 0 = 8202 := by
  rw [bigFat16.endOf_last (by rw [bigFat16_numberOfWindows]), bigFat16_numberOfClusters]

theorem bigFat16_clusterSize : bigFat16.clusterSize = 2 ^ 19 := by decide

theorem bigFat16_requestSize : (requestSize bigFat16 0xffffffff).2 = 8192 := by decide

/-- A request for 4 GB with a hint. -/
def bigRequest (hint : ℕ) (h : hint ≠ 1) : Request := ⟨hint, 0xffffffff, false, h, by decide⟩

/-- A 16-bit FAT in which cluster 2 is in use. -/
def busyFat : Bytes := fun i => if i = 4 then 1 else 0

theorem lookupEntry_busyFat {c : ℕ} : lookupEntry .fat16 busyFat c = 0 ↔ c ≠ 2 := by
  have hbyte : ∀ i, (busyFat i).toNat = 0 ↔ i ≠ 4 := by
    intro i
    by_cases hi : i = 4
    · rw [busyFat, if_pos hi]
      exact iff_of_false (by decide) (by simpa using hi)
    · rw [busyFat, if_neg hi]
      exact iff_of_true rfl hi
  have h0 := hbyte (c * 2)
  have h1 := hbyte (c * 2 + 1)
  rw [lookupEntry, Bytes.read16]
  omega

/-- Cluster 2 is in use and 4 GB are asked for with the hint 2.  The run loop finds
clusters 3 to 8194 at once and leaves the map empty. -/
theorem not_allocatesChains_bigFat16 : ∃ v,
    fatSetupAllocationSupport bigFat16 (unmounted ⟨busyFat, [], none⟩) = .ok () v ∧
      (Layout bigFat16 v ∧ Accounting bigFat16 v) ∧
      ¬ AllocatesChains bigFat16 (bigRequest 2 (by decide)) v := by
  obtain ⟨v, hsetup, hfat, hbooks, -⟩ := exists_mount bigFat16 ⟨busyFat, [], none⟩ rfl
  have hcur := hbooks.currentWindow_eq_zero bigFat16_numberOfWindows
  have hzero : ∀ c, c ∈ zeroSet bigFat16 v.vol.fat ↔ 3 ≤ c ∧ c < 8202 := by
    intro c
    rw [mem_zeroSet, hfat, bigFat16_width, lookupEntry_busyFat, bigFat16_numberOfClusters]
    omega
  have hC : (bigRequest 2 (by decide)).clusterCount bigFat16 = 8192 := bigFat16_requestSize
  have hhint : (bigRequest 2 (by decide)).Hinted bigFat16 := by
    rw [Request.Hinted, bigFat16_numberOfClusters]
    decide
  have hwin : startWindow bigFat16 (bigRequest 2 (by decide)) v = 0 := by
    rw [startWindow, if_neg (by rw [bigFat16_numberOfWindows]; simp), hcur]
  have hstart : startCluster bigFat16 (bigRequest 2 (by decide)) v = 2 := if_pos hhint
  have hblocked : ¬ HintFree bigFat16 (zeroSet bigFat16 v.vol.fat) 0 2 8192 := by
    intro hfree
    have := (hzero 2).mp (hfree.mem le_rfl (by rw [bigFat16_endOf]; omega))
    omega
  refine ⟨v, hsetup, ⟨hbooks.layout, hbooks.accounting⟩,
    not_allocatesChains (by decide) hbooks ?_ ?_ ?_ ?_ (y := 3) ?_⟩
  · intro hmany
    rw [bigFat16_numberOfWindows] at hmany
    omega
  · rw [FastPath, if_pos hhint, hwin, hstart, hC]
    intro hfree
    have := (hzero 2).mp (hfree.mem le_rfl (by omega))
    omega
  · have htotal := hbooks.total
    have hF : zeroSet bigFat16 v.vol.fat = Finset.Ico 3 8202 := by
      ext c
      rw [hzero, Finset.mem_Ico]
    rw [hF, Nat.card_Ico] at htotal
    rw [hC]
    omega
  · rw [hC, bigFat16_clusterSize]
    norm_num
  · rw [hC]
    refine .luck rfl ?_ (Or.inl ⟨hC.symm, ?_⟩)
    · rw [hwin, hstart, hC]
      exact hblocked
    · rw [hwin, hC]
      refine ⟨by rw [bigFat16.firstOf_zero]; omega, by rw [bigFat16_endOf]; omega, fun c hc => ?_⟩
      rw [Finset.mem_Ico] at hc
      rw [hzero]
      omega

end KernelDrivers.Fat
