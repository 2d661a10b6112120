import KernelDrivers.Fat.MoveSplice
import KernelDrivers.Fat.ResizeRun

/-!
# Adding and truncating without device faults

What `FatAddFileAllocation` and `FatTruncateFileAllocation` do to a file below 4 GB when no access
to the FAT fails.  Whether a call returns or raises, the file has a chain and a map of it behind the
call, the clusters it got were free, those it lost are, and the entries of all others are as they were.

## Main definitions

* `FcbOrDcb.Held`, `FcbOrDcb.Whole` — a file below 4 GB, and one whose size is known.
* `Changed` — what a call may do.

## Main results

* `sat_fatAddFileAllocation`, `sat_fatTruncateFileAllocation` — the two routines.
-/

namespace KernelDrivers.Fat

variable {g : Geometry}

/-! ## Files below 4 GB -/

namespace FcbOrDcb

/-- A file with a chain of less than 4 GB, on a device without faults.  When its size is to be looked
up, the chain is long enough for it. -/
structure Held (g : Geometry) (f : FcbOrDcb) (cs : List ℕ) : Prop extends Valid g f cs where
  small : cs.length * g.clusterSize < 2 ^ 32
  fileSize : f.allocationSize = fcbLookupAllocationSizeHint → f.fileSize ≤ chainBytes g cs
  noFault : f.vcb.vol.io = none

/-- The size is known and all of the chain is in the map. -/
structure Whole (g : Geometry) (f : FcbOrDcb) (cs : List ℕ) : Prop extends Held g f cs where
  allocationSize : f.allocationSize = ⟨cs.length * g.clusterSize, 0⟩
  mcb : f.mcb = mcbOf g cs

end FcbOrDcb

/-- Whole clusters of less than 4 GB are less than the maximal size. -/
theorem mul_clusterSize_lt {n : ℕ} (h : n * g.clusterSize < 2 ^ 32) :
    n * g.clusterSize < 0xffffffff := by
  have hdvd : 2 ∣ g.clusterSize := by
    have h1 := g.cluster_mem
    have h2 := g.sector_mem
    exact dvd_pow_self 2 (by omega)
  obtain ⟨m, hm⟩ := hdvd.mul_left n
  omega

theorem chainBytes_of_small {cs : List ℕ} (h : cs.length * g.clusterSize < 2 ^ 32) :
    chainBytes g cs = cs.length * g.clusterSize := by
  have hlt := mul_clusterSize_lt h
  exact min_eq_left hlt.le

namespace FcbOrDcb

variable {f : FcbOrDcb} {cs : List ℕ}

/-- A file with all of its chain in the map. -/
theorem held_of_chain (hchain : ChainAt g f.vcb.vol.fat f.firstClusterOfFile cs)
    (hclusters : ∀ x ∈ cs, x ∈ g.clusters) (hcons : Consistent g f.vcb)
    (hdirent : f.dirent.cluster g = f.firstClusterOfFile) (hsmall : cs.length * g.clusterSize < 2 ^ 32)
    (hsize : f.allocationSize = ⟨cs.length * g.clusterSize, 0⟩) (hmcb : f.mcb = mcbOf g cs)
    (hio : f.vcb.vol.io = none) : f.Held g cs := by
  refine ⟨⟨⟨⟨hchain, hclusters, hsmall.le⟩, hcons, hdirent⟩, Or.inl ⟨?_, hmcb⟩⟩, hsmall, fun hhint => ?_,
    hio⟩
  · rw [hsize, chainBytes_of_small hsmall]
  · rw [hsize, fcbLookupAllocationSizeHint] at hhint
    simp at hhint

end FcbOrDcb

/-- A call on a file with the chain `cs` leaves it with the chain `ds`: new clusters were free, clusters
that it lost are free, and nothing else in the FAT has changed. -/
structure Changed (g : Geometry) (f f' : FcbOrDcb) (cs ds : List ℕ) : Prop where
  held : f'.Held g ds
  fresh : ∀ x ∈ ds, x ∈ cs ∨ lookupEntry g.width f.vcb.vol.fat x = 0
  freed : ∀ x ∈ cs, x ∉ ds → lookupEntry g.width f'.vcb.vol.fat x = 0
  frame : ∀ x, x ∉ cs → x ∉ ds →
    lookupEntry g.width f'.vcb.vol.fat x = lookupEntry g.width f.vcb.vol.fat x

/-- The entries have not changed. -/
theorem FcbOrDcb.Held.changed {f f' : FcbOrDcb} {cs : List ℕ} (h : f'.Held g cs)
    (hentry : ∀ x, lookupEntry g.width f'.vcb.vol.fat x = lookupEntry g.width f.vcb.vol.fat x) :
    Changed g f f' cs cs :=
  ⟨h, fun _ hx => Or.inl hx, fun _ hx hnot => absurd hx hnot, fun x _ _ => hentry x⟩

/-- The size of a file is found out. -/
theorem FcbOrDcb.Held.exists_lookupSize {f : FcbOrDcb} {cs : List ℕ} (h : f.Held g cs) (harea : 0 < g.fileAreaLbo) {fuel : ℕ}
    (hfuel : g.numberOfClusters ≤ fuel) :
    ∃ t, lookupSize g fuel f = .ok () t ∧ t.Whole g cs ∧
      ∀ f' ds, Changed g t f' cs ds → Changed g f f' cs ds := by
  have hbytes := chainBytes_of_small h.small
  have hlt := mul_clusterSize_lt h.small
  by_cases hhint : f.allocationSize = fcbLookupAllocationSizeHint
  · obtain ⟨reads, hreads, hsat⟩ := sat_lookupSize h.toValid harea
    have hsat := hsat none fuel
    have hself : f.withFault none = f := by
      rw [← h.noFault]
      rfl
    rw [hself] at hsat
    have hlen := h.toHasChain.length_le
    obtain ⟨_, t, hok, hknown, hio, ht⟩ := hsat.exists_ok fun _ _ hE => by
      have hfile := h.fileSize hhint
      rcases hE with hE | ⟨n, -, hE⟩ | hE
      · omega
      · simp at hE
      · omega
    have hnone : t.vcb.vol.io = none := by
      cases hcase : t.vcb.vol.io with
      | none => rfl
      | some n => simp [hcase] at hio
    rw [hnone, hself] at ht
    have hsize : t.allocationSize = ⟨cs.length * g.clusterSize, 0⟩ := by
      have hlow := hknown.lowPart
      rw [hbytes] at hlow
      rcases hknown.size with ⟨hsize, -⟩ | ⟨hsize, -⟩
      · rw [hsize, hbytes]
      · rw [hsize, fcbLookupAllocationSizeHint] at hlow
        dsimp only at hlow
        omega
    refine ⟨t, hok, ⟨FcbOrDcb.held_of_chain hknown.chain hknown.clusters hknown.consistent hknown.dirent h.small hsize
      hknown.mcb hnone, hsize, hknown.mcb⟩, fun f' ds hc => ?_⟩
    have hfat : t.vcb.vol.fat = f.vcb.vol.fat := by rw [ht]
    exact ⟨hc.held, hfat ▸ hc.fresh, hc.freed, hfat ▸ hc.frame⟩
  · have hsame : lookupSize g fuel f = .ok () f := by
      rw [lookupSize, get_bind_run, if_neg hhint]
      rfl
    obtain ⟨hsize, hmcb⟩ := h.size.resolve_right fun hor => hhint hor.1
    exact ⟨f, hsame, ⟨h, by rw [hsize, hbytes], hmcb⟩, fun _ _ hc => hc⟩

/-! ## The allocation -/

section Allocation

variable {r : Request} {v : Vcb} (fuel : ℕ)

/-- Without faults the slow path of a request that takes what it finds neither raises nor is refused. -/
theorem RunLoop.Taken.run_outcome {e : ℕ → ℕ} {F : Finset ℕ} {C : ℕ} {s : RunLoop}
    (h : RunLoop.Taken g e F C [] s) (hF : ∀ c, c ∈ F ↔ c ∈ g.clusters ∧ e c = 0)
    (hC : C * g.clusterSize ≤ 2 ^ 32)
    (hlinks : 1 < g.numberOfWindows → g.numberOfClusters + 1 < 2 ^ g.width.linkBits)
    (hio : s.vcb.vol.io = none) :
    Sat (RunLoop.run g false fuel) s (fun b _ => b = true) (fun stop _ => ¬ stop.isRaised = true) := by
  rw [RunLoop.run, if_neg (by simp)]
  refine Sat.bind (R := fun b _ => b = true) ?_ ?_
  · apply Sat.protect
    refine (h.sat_loop false fuel hF hC hlinks).mono (fun b s' hb => ?_) fun stop s' hstop => ?_
    · cases b with
      | true => rfl
      | false => exact absurd hb.1 (by simp)
    · split
      · next hraised =>
          obtain ⟨-, _, _, _, -, -, -, hno⟩ := hstop hraised
          exact (hno hio).elim
      · next hnot => exact hnot
  · intro b s' hb
    rw [hb]
    exact Sat.pure rfl

variable (h : Consistent g v) (hio : v.vol.io = none) (hr : r.byteCount ≠ 0)
  (hex : r.exactMatchRequired = false)

include h hio hr hex

/-- Without faults a request either completes or is not admitted. -/
theorem fatAllocateDiskSpace_outcome :
    Sat (fatAllocateDiskSpace g r fuel) ⟨v, [], r.byteCount⟩
      (fun _ c' => c'.byteCount = (requestSize g r.byteCount).1)
      (fun stop c' => stop.isRaised = true → c'.vcb = v ∧ c'.mcb = []) := by
  have hb := h.books
  generalize hc : (⟨v, [], r.byteCount⟩ : AllocCall) = c
  have hvcb : c.vcb = v := by rw [← hc]
  have hmcb : c.mcb = [] := by rw [← hc]
  rw [← hvcb] at hb hio ⊢
  by_cases hadmitted : c.vcb.numberOfFreeClusters < r.clusterCount g
  · have heq := fatAllocateDiskSpace_eq (g := g) (c := c) fuel hr
    rw [if_pos hadmitted] at heq
    exact Sat.of_error heq fun _ => ⟨rfl, hmcb⟩
  rcases @fatAllocateDiskSpace_cases g r c fuel hr hb hadmitted with
    ⟨stop, v, hch, heq⟩ | ⟨hints, v, -, hbooks, hchosen, hpath⟩
  · have hsat := sat_chooseHint hr (hb.admitted hadmitted) rfl
    exact absurd hio (hsat.error hch).2.1
  cases hpath with
  | fast start h2 hclear hfast heq =>
      have hsat := sat_allocateFast (c := { c.admitted g r with vcb := v }) (k := 0) hr hbooks h2 hclear
        hmcb rfl
      refine Sat.of_eq heq (hsat.mono (fun _ _ hQ => hQ.2.2.1) fun _ _ hE => ?_)
      exact absurd (hchosen.io hio) hE.2.1
  | slow hslow heq =>
      have htaken := RunLoop.taken_start (c := { c.admitted g r with vcb := v }) hints.2 hbooks hmcb
      have hsat := htaken.run_outcome fuel
        (fun x => by rw [hchosen.fat, mem_zeroSet, Geometry.mem_clusters])
        (r.clusterCount_mul_le hr) (fun _ => h.sound.links) (hchosen.io hio)
      rw [← hex] at hsat
      cases hres : RunLoop.run g r.exactMatchRequired fuel
          (RunLoop.start g r hints.2 { c.admitted g r with vcb := v }) with
      | ok b s =>
          have hbtrue := hsat.ok hres
          subst hbtrue
          rw [allocateSlow, hres] at heq
          exact Sat.of_ok heq rfl
      | error stop s =>
          have hnot := hsat.error hres
          rw [allocateSlow, hres] at heq
          exact Sat.of_error heq fun hraised => absurd hraised hnot

/-- Without faults a request below 4 GB gets its clusters in its map, or is not admitted. -/
theorem sat_fatAllocateDiskSpace_small (hsmall : r.clusterCount g * g.clusterSize < 2 ^ 32) :
    Sat (fatAllocateDiskSpace g r fuel) ⟨v, [], r.byteCount⟩
      (fun _ c' => ∃ ds, Completed g r (zeroSet g v.vol.fat) ⟨v, [], r.byteCount⟩ c' ds ∧
        c'.mcb = mcbOf g ds)
      (fun stop c' => stop.isRaised = true → c'.vcb = v ∧ c'.mcb = []) := by
  have hsat := fatAllocateDiskSpace_outcome fuel h hio hr hex
  cases hres : fatAllocateDiskSpace g r fuel ⟨v, [], r.byteCount⟩ with
  | error stop c' => exact Sat.of_error hres (hsat.error hres)
  | ok u c' =>
      refine Sat.of_ok hres ?_
      have hne : c'.byteCount ≠ 0 := by
        rw [hsat.ok hres]
        exact requestSize_fst_ne_zero hr
      by_cases hfast : FastPath g r v (zeroSet g v.vol.fat)
      · obtain ⟨x, hcompleted, hmap⟩ :=
          completed_of_fast (c := ⟨v, [], r.byteCount⟩) hr h.books rfl hfast hres
        exact ⟨_, hcompleted, hmap⟩
      · obtain ⟨ds, _, _, hcompleted, hmap, -⟩ :=
          map_of_ok hr h.books (fun _ => h.sound.links) hfast (Or.inl hsmall) hres hne
        exact ⟨ds, hcompleted, hmap⟩

end Allocation

/-! ## The deallocation -/

section Deallocation

variable {v : Vcb} {ds : List ℕ}

/-- Entries that change from one number that is not zero to another leave the books alone. -/
theorem Consistent.setVol (h : Consistent g v) {vol : Volume}
    (hzero : ∀ x, lookupEntry g.width vol.fat x = 0 ↔ lookupEntry g.width v.vol.fat x = 0) :
    Consistent g { v with vol := vol } := by
  have hset : zeroSet g vol.fat = zeroSet g v.vol.fat := by
    ext x
    rw [mem_zeroSet, mem_zeroSet, hzero]
  refine ⟨h.sound, ?_⟩
  change Books g { v with vol := vol } (zeroSet g vol.fat) 0
  rw [hset]
  exact h.books.setVol vol

/-- Without faults the clusters of a map below 4 GB are freed. -/
theorem Consistent.exists_deallocate (h : Consistent g v) (hclusters : ∀ x ∈ ds, x ∈ g.clusters)
    (hnodup : ds.Nodup) (hsmall : ds.length * g.clusterSize < 2 ^ 32)
    (hentry : ∀ x ∈ ds, lookupEntry g.width v.vol.fat x ≠ 0) (hio : v.vol.io = none) :
    ∃ v', fatDeallocateDiskSpace g (mcbOf g ds) v = .ok () v' ∧ Consistent g v' ∧
      v'.vol.io = none ∧
      ∀ x, lookupEntry g.width v'.vol.fat x =
        if x ∈ ds then 0 else lookupEntry g.width v.vol.fat x := by
  have hruns := runClusters_mcbRuns h.sound hclusters hsmall.le
  rw [if_neg (by omega)] at hruns
  have hvalid := validRun_mcbRuns h.sound hclusters hsmall.le
  obtain ⟨_, v', hok, ⟨_, -⟩, hwrote⟩ :=
    (sat_fatDeallocateDiskSpace (v := v) hvalid).exists_ok fun _ _ hE => hE.1 hio
  rw [hruns] at hwrote
  have halloc : Allocated g v (mcbOf g ds) := ⟨hvalid, by rwa [hruns], by rwa [hruns]⟩
  exact ⟨v', hok, ⟨h.sound, h.books.deallocate halloc hok⟩, hwrote.io hio, hwrote.entry⟩

end Deallocation

/-! ## Truncating -/

theorem FcbOrDcb.HasChain.first {f : FcbOrDcb} {cs : List ℕ} (h : f.HasChain g cs) (hne : cs ≠ []) :
    f.firstClusterOfFile = cs.head hne := by
  obtain ⟨c, cs', rfl⟩ := List.exists_cons_of_ne_nil hne
  exact h.chain.1

theorem chainAt_head {fat : Bytes} {cs : List ℕ} (hne : cs ≠ [])
    (h : Leads (fatLink g.width fat) cs .last) : ChainAt g fat (cs.head hne) cs := by
  obtain ⟨c, cs', rfl⟩ := List.exists_cons_of_ne_nil hne
  exact ⟨rfl, h⟩

theorem sat_failIf {σ : Type} {fails : Bool} {s : σ} {Q : Unit → σ → Prop} {E : Stop → σ → Prop}
    (hQ : Q () s) (hE : E (.raised .deviceError) s) : Sat (failIf fails : EStateM Stop σ Unit) s Q E := by
  rw [failIf]
  cases fails with
  | true => exact Sat.throw hE
  | false => exact Sat.pure hQ

theorem DirentCluster.cluster_store_zero (d : DirentCluster) : (d.store g 0).cluster g = 0 := by
  by_cases hw : g.width = .fat32 <;> simp [DirentCluster.store, DirentCluster.cluster, hw]

namespace TruncateCall

variable {f : FcbOrDcb} {cs : List ℕ} (h : f.Whole g cs)

include h

/-- All clusters are taken away, or the file is as it was. -/
theorem sat_body_zero (hmark : g.numberOfClusters + 1 < g.width.reservedMark) (hne : cs ≠ [])
    (q : ResizeFaults) :
    Sat (protect Stop.isRaised (modify (unwind g 0)) (body g q 0)) (start f)
      (fun _ c => Changed g f c.file cs []) (fun _ c => Changed g f c.file cs cs) := by
  have hsize := h.allocationSize
  have hfirst : f.firstClusterOfFile ∈ g.clusters := by
    rw [h.toHasChain.first hne]
    exact h.clusters _ (List.head_mem hne)
  have hfirst0 : f.firstClusterOfFile ≠ 0 := by
    have hlt := Geometry.mem_clusters.mp hfirst
    omega
  have hentry : ∀ x ∈ cs, lookupEntry g.width f.vcb.vol.fat x ≠ 0 := fun x hx =>
    entry_ne_zero_of_leads (h.toHasChain.leads hne) hx
  have hback : ∀ {dirent}, dirent.cluster g = f.firstClusterOfFile → Changed g f { f with
      allocationSize := ⟨f.allocationSize.lowPart, 0⟩, dirent := dirent } cs cs := fun hdirent =>
    FcbOrDcb.Held.changed (FcbOrDcb.held_of_chain h.chain h.clusters h.consistent hdirent h.small
      (by rw [hsize]) h.mcb h.noFault) fun _ => rfl
  apply Sat.protect
  rw [body]
  apply Sat.modify_bind
  rw [if_pos rfl, toZero]
  refine Sat.bind (R := fun _ c => c = { start f with
    file := { f with allocationSize := ⟨0, 0⟩ } }) (sat_failIf rfl ?_) ?_
  · -- the dirent was not found
    rw [if_pos (Stop.isRaised_raised _)]
    exact Sat.modify (hback h.dirent)
  intro _ c hc
  rw [hc]
  apply Sat.modify_bind
  refine Sat.bind (R := fun _ c => c = { start f with
    file := FcbOrDcb.setFirstCluster g { f with allocationSize := ⟨0, 0⟩ } 0
    direntFound := true }) (sat_failIf rfl ?_) ?_
  · -- the first cluster is given back
    rw [if_pos (Stop.isRaised_raised _)]
    exact Sat.modify (hback (Move.cluster_store hmark hfirst _))
  intro _ c hc
  rw [hc]
  apply Sat.modify_bind
  apply Sat.get_bind
  obtain ⟨v', hok, hcons, hio, hfree⟩ := h.consistent.exists_deallocate h.clusters h.toHasChain.nodup
    h.small hentry h.noFault
  rw [deallocate]
  refine Sat.bind (R := fun _ c => c = { start f with
    file := { FcbOrDcb.setFirstCluster g { f with allocationSize := ⟨0, 0⟩ } 0 with vcb := v' }
    direntFound := true, updatedDirent := true }) (Sat.onPart ?_) ?_
  · refine Sat.of_ok (t := v') (a := ()) ?_ rfl
    change fatDeallocateDiskSpace g f.mcb f.vcb = _
    rw [h.mcb, hok]
  intro _ c hc
  rw [hc]
  refine Sat.modify ⟨?_, by simp, fun x hx _ => ?_, fun x hx _ => ?_⟩
  · refine FcbOrDcb.held_of_chain rfl (by simp) hcons (DirentCluster.cluster_store_zero _) (by simp)
      (by simp [dropMcb, FcbOrDcb.setFirstCluster]) ?_ hio
    change fatRemoveMcbEntry g f.mcb 0 0xffffffff = _
    rw [h.mcb, RunLoop.fatRemoveMcbEntry_all h.le]
    rfl
  · change lookupEntry g.width v'.vol.fat x = 0
    rw [hfree, if_pos hx]
  · change lookupEntry g.width v'.vol.fat x = _
    rw [hfree, if_neg hx]

/-- The clusters behind the first `k` are cut off. -/
theorem sat_body_size {k : ℕ} (hk : 0 < k) (hlt : k < cs.length) (q : ResizeFaults) :
    Sat (body g q (k * g.clusterSize)) (start f)
      (fun _ c => Changed g f c.file cs (cs.take k)) (fun _ _ => False) := by
  have hne : cs ≠ [] := by
    rintro rfl
    simp at hlt
  have hleads := h.toHasChain.leads hne
  have hnodup := h.toHasChain.nodup
  have hsound := h.consistent.sound
  have hentry : ∀ x ∈ cs, lookupEntry g.width f.vcb.vol.fat x ≠ 0 := fun x hx =>
    entry_ne_zero_of_leads hleads hx
  have hkpos := Nat.mul_pos hk g.clusterSize_pos
  have htake : (cs.take k).length = k := by
    rw [List.length_take]
    omega
  have hksmall : k * g.clusterSize < 2 ^ 32 :=
    (Nat.mul_le_mul_right _ hlt.le).trans_lt h.small
  have hdrop : ∀ x ∈ cs.drop k, x ∈ cs := fun x hx => List.mem_of_mem_drop hx
  have hdis : ∀ x ∈ cs.take k, x ∉ cs.drop k := by
    intro x hx hx'
    rw [← List.take_append_drop k cs, List.nodup_append'] at hnodup
    exact hnodup.2.2 hx hx'
  rw [body]
  apply Sat.modify_bind
  rw [if_neg hkpos.ne', toSize]
  have hsplit := sat_fatSplitAllocation (plain_mcbOf hsound.sectors h.clusters) h.le hk hlt hsound.aligned
    h.clusters (v := f.vcb)
  obtain ⟨_, p, hok, vol, hp, hwrote, -⟩ := hsplit.exists_ok fun _ _ hE => by
    rw [h.noFault] at hE
    simp at hE
  -- the end mark takes the place of a link
  have hzero : ∀ x, lookupEntry g.width vol.fat x = 0 ↔ lookupEntry g.width f.vcb.vol.fat x = 0 := by
    intro x
    rw [hwrote.entry, entrySet]
    split
    · next heq =>
        have hmark : fatClusterLast % 2 ^ g.width.linkBits ≠ 0 := by cases g.width <;> decide
        rw [heq]
        exact iff_of_false hmark (hentry _ (List.getElem_mem _))
    · exact Iff.rfl
  obtain ⟨v', hfree, hcons, hio, hafter⟩ := (h.consistent.setVol hzero).exists_deallocate
    (fun x hx => h.clusters x (hdrop x hx)) (hnodup.sublist (List.drop_sublist k cs))
    (by rw [List.length_drop]; exact (Nat.mul_le_mul_right _ (Nat.sub_le _ _)).trans_lt h.small)
    (fun x hx hx0 => hentry x (hdrop x hx) ((hzero x).mp hx0)) (hwrote.io h.noFault)
  refine Sat.bind (R := fun _ c => c = { start f with
    file := { f with
      vcb := { f.vcb with vol := vol }, mcb := mcbOf g (cs.take k)
      allocationSize := ⟨k * g.clusterSize, 0⟩ }
    remainingMcb := mcbOf g (cs.drop k) }) (Sat.onPart ?_) ?_
  · refine Sat.of_ok (t := p) (a := ()) ?_ ?_
    · change fatSplitAllocation g (k * g.clusterSize) ⟨f.vcb, f.mcb, []⟩ = _
      rw [h.mcb, hok]
    · rw [hp]
      rfl
  intro _ c hc
  rw [hc]
  apply Sat.get_bind
  rw [deallocate]
  refine Sat.onPart (Sat.of_ok (t := v') (a := ()) hfree ⟨?_, ?_, ?_, ?_⟩)
  · have hfront : cs.take k ≠ [] := List.ne_nil_of_length_pos (by omega)
    have hcut := (Leads.cut hleads hk hlt).1
    have hchain : ChainAt g v'.vol.fat f.firstClusterOfFile (cs.take k) := by
      rw [h.toHasChain.first hne, ← List.head_take hfront]
      refine chainAt_head hfront (hcut.congr fun x hx => ?_)
      rw [fatLink, hafter, if_neg (hdis x hx)]
      exact congrArg (linkOf g.width) (hwrote.entry x)
    refine FcbOrDcb.held_of_chain hchain (fun x hx => ?_) hcons h.dirent ?_ ?_ rfl hio
    · exact h.clusters x (List.mem_of_mem_take hx)
    · rw [htake]
      exact hksmall
    · rw [htake]
  · intro x hx
    exact Or.inl (List.mem_of_mem_take hx)
  · intro x hx hnot
    have hmem : x ∈ cs.drop k := by
      rw [← List.take_append_drop k cs, List.mem_append] at hx
      exact hx.resolve_left hnot
    change lookupEntry g.width v'.vol.fat x = 0
    rw [hafter, if_pos hmem]
  · intro x hx _
    change lookupEntry g.width v'.vol.fat x = _
    rw [hafter, if_neg fun hmem => hx (hdrop x hmem)]
    change lookupEntry g.width vol.fat x = _
    rw [hwrote.entry, entrySet, if_neg]
    rintro rfl
    exact hx (List.getElem_mem _)

end TruncateCall

/-- A size that keeps some but not all clusters. -/
theorem roundToCluster_eq {n : ℕ} (hround : roundToCluster g n ≠ 0) :
    ∃ k, 0 < k ∧ roundToCluster g n = k * g.clusterSize := by
  refine ⟨ulong (n + (g.clusterSize - 1)) / g.clusterSize, ?_, rfl⟩
  rw [Nat.pos_iff_ne_zero]
  intro hzero
  rw [roundToCluster, hzero, Nat.zero_mul] at hround
  exact hround rfl

/-- **Truncating.**  Whatever fails besides the accesses to the FAT, a call cuts a file below 4 GB behind
some of its clusters or leaves it as it was. -/
theorem sat_fatTruncateFileAllocation {f : FcbOrDcb} {cs : List ℕ} (h : f.Held g cs)
    (hmark : g.numberOfClusters + 1 < g.width.reservedMark) (harea : 0 < g.fileAreaLbo)
    (q : ResizeFaults) (desiredAllocationSize : ℕ) {fuel : ℕ} (hfuel : g.numberOfClusters ≤ fuel) :
    Sat (fatTruncateFileAllocation g q desiredAllocationSize fuel) f
      (fun _ f' => ∃ k, Changed g f f' cs (cs.take k)) (fun _ f' => Changed g f f' cs cs) := by
  obtain ⟨t, hok, hwhole, hchanged⟩ := h.exists_lookupSize harea hfuel
  have hlow : t.allocationSize.lowPart = cs.length * g.clusterSize := by rw [hwhole.allocationSize]
  rw [fatTruncateFileAllocation]
  refine Sat.bind (Sat.of_ok (Q := fun _ s => s = t) hok rfl) ?_
  rintro _ s rfl
  apply Sat.get_bind
  split
  · exact Sat.pure ⟨cs.length, by
      rw [List.take_length]
      exact hchanged _ _ (hwhole.toHeld.changed fun _ => rfl)⟩
  · next hkeeps =>
      dsimp only
      generalize hdesired : (if desiredAllocationSize = 0 then 0
        else roundToCluster g desiredAllocationSize) = desired
      have hbody : Sat (protect Stop.isRaised (modify (TruncateCall.unwind g desired))
          (TruncateCall.body g q desired)) (TruncateCall.start s)
          (fun _ c => ∃ k, Changed g s c.file cs (cs.take k)) (fun _ c => Changed g s c.file cs cs) := by
        rw [← hdesired]
        by_cases hD : desiredAllocationSize = 0
        · rw [if_pos hD]
          have hne : cs ≠ [] := by
            rintro rfl
            simp [keepsAll, hD, hlow] at hkeeps
          exact (TruncateCall.sat_body_zero hwhole hmark hne q).mono
            (fun _ _ hc => ⟨0, by simpa using hc⟩) fun _ _ hc => hc
        · rw [if_neg hD]
          simp only [keepsAll, if_neg hD, Bool.or_eq_true, decide_eq_true_eq, not_or, not_le, hlow]
            at hkeeps
          obtain ⟨k, hk, hround⟩ := roundToCluster_eq hkeeps.1
          rw [hround] at hkeeps ⊢
          have hlt := Nat.lt_of_mul_lt_mul_right hkeeps.2
          apply Sat.protect
          exact (TruncateCall.sat_body_size hwhole hk hlt q).mono (fun _ _ hc => ⟨k, hc⟩)
            fun _ _ hE => hE.elim
      cases hres : protect Stop.isRaised (modify (TruncateCall.unwind g desired))
          (TruncateCall.body g q desired) (TruncateCall.start s) with
      | ok u c =>
          obtain ⟨k, hc⟩ := hbody.ok hres
          exact Sat.set_bind (Sat.pure ⟨k, hchanged _ _ hc⟩)
      | error stop c => exact Sat.set_bind (Sat.throw (hchanged _ _ (hbody.error hres)))

/-! ## Adding -/

/-- A request that leaves room for a cluster below 4 GB is for less than 4 GB. -/
theorem clusterCount_at_mul_lt (g : Geometry) (hint : ℕ) {n : ℕ} (hn : n ≠ 0) (hle : n + g.clusterSize ≤ 2 ^ 32) :
    (Request.at hint n).byteCount = n ∧
      (Request.at hint n).clusterCount g * g.clusterSize < n + g.clusterSize := by
  have hpos := g.clusterSize_pos
  have hbyte : (Request.at hint n).byteCount = n := ulong_of_lt (by omega)
  refine ⟨hbyte, ?_⟩
  have hround : roundByteCount g n = (n + (g.clusterSize - 1)) / g.clusterSize * g.clusterSize := by
    rw [roundByteCount, ulong_of_lt (by omega)]
  have hdiv := Nat.div_mul_le_self (n + (g.clusterSize - 1)) g.clusterSize
  have hne : roundByteCount g n ≠ 0 := by
    have hquot : 0 < (n + (g.clusterSize - 1)) / g.clusterSize := Nat.div_pos (by omega) hpos
    rw [hround]
    exact (Nat.mul_pos hquot hpos).ne'
  rw [Request.clusterCount, hbyte, requestSize, if_neg hne]
  dsimp only
  rw [hround, Nat.mul_div_cancel _ hpos]
  omega

/-- The clusters `ds` were free, and are a chain of less than 4 GB. -/
structure Chained (g : Geometry) (v v' : Vcb) (ds : List ℕ) : Prop where
  ne : ds ≠ []
  small : ds.length * g.clusterSize < 2 ^ 32
  clusters : ∀ x ∈ ds, x ∈ g.clusters
  leads : Leads (fatLink g.width v'.vol.fat) ds .last
  fresh : ∀ x ∈ ds, lookupEntry g.width v.vol.fat x = 0
  frame : ∀ x, x ∉ ds → lookupEntry g.width v'.vol.fat x = lookupEntry g.width v.vol.fat x
  consistent : Consistent g v'
  noFault : v'.vol.io = none

theorem Completed.chained {r : Request} {c c' : AllocCall} {ds : List ℕ}
    (h : Completed g r (zeroSet g c.vcb.vol.fat) c c' ds) (hg : g.Sound) (hr : r.byteCount ≠ 0)
    (hmark : g.numberOfClusters + 1 < g.width.reservedMark) (hio : c.vcb.vol.io = none)
    (hsmall : r.clusterCount g * g.clusterSize < 2 ^ 32) : Chained g c.vcb c'.vcb ds := by
  have hne : ds ≠ [] := List.ne_nil_of_length_pos (h.length ▸ r.clusterCount_pos hr)
  have hclusters : ∀ x ∈ ds, x ∈ g.clusters := fun x hx => zeroSet_subset _ (h.free x hx)
  have hchain := leads_chainEntry (w := g.width) (e := lookupEntry g.width c.vcb.vol.fat) hne h.nodup
    fun x hx => by
      have hmem := Geometry.mem_clusters.mp (hclusters x hx)
      omega
  refine ⟨hne, by rwa [h.length], hclusters, hchain.congr fun x _ => ?_,
    fun x hx => (mem_zeroSet.mp (h.free x hx)).2, fun x hx => ?_, ⟨hg, ?_⟩, h.io hio⟩
  · rw [fatLink, h.entry]
  · rw [h.entry, chainEntry_of_notMem hx]
  · rw [h.zeroSet_eq hg.links]
    exact h.books

/-- A request that leaves room for a cluster below 4 GB gets a chain in an empty map. -/
theorem sat_allocateChain {v : Vcb} (h : Consistent g v) (hio : v.vol.io = none)
    (hmark : g.numberOfClusters + 1 < g.width.reservedMark) (hint : ℕ) {n : ℕ} (hn : n ≠ 0)
    (hle : n + g.clusterSize ≤ 2 ^ 32) (fuel : ℕ) :
    Sat (fatAllocateDiskSpace g (Request.at hint n) fuel) ⟨v, [], (Request.at hint n).byteCount⟩
      (fun _ a => ∃ ds, Chained g v a.vcb ds ∧ a.mcb = mcbOf g ds ∧
        a.byteCount = ds.length * g.clusterSize ∧ ds.length * g.clusterSize < n + g.clusterSize)
      (fun stop a => stop.isRaised = true → a.vcb = v ∧ a.mcb = []) := by
  obtain ⟨hbyte, hcount⟩ := clusterCount_at_mul_lt g hint hn hle
  have hex : (Request.at hint n).exactMatchRequired = false := rfl
  generalize Request.at hint n = r at hbyte hcount hex
  have hr : r.byteCount ≠ 0 := by rwa [hbyte]
  have hsmall : r.clusterCount g * g.clusterSize < 2 ^ 32 := by omega
  refine (sat_fatAllocateDiskSpace_small fuel h hio hr hex hsmall).mono ?_ fun _ _ hE => hE
  intro _ a hQ
  obtain ⟨ds, hcompleted, hmap⟩ := hQ
  have hlen := hcompleted.length
  refine ⟨ds, Completed.chained (c := ⟨v, [], r.byteCount⟩) hcompleted h.sound hr hmark hio hsmall,
    hmap, ?_, by rwa [hlen]⟩
  rw [Request.clusterCount] at hlen hsmall
  rw [hcompleted.byteCount, (requestSize_spec hr r.byteCount_lt).2.2.2, hlen, if_neg hsmall.ne]

namespace Chained

variable {v v' : Vcb} {ds : List ℕ} (h : Chained g v v' ds)

include h

theorem entry_ne_zero {x : ℕ} (hx : x ∈ ds) : lookupEntry g.width v'.vol.fat x ≠ 0 :=
  entry_ne_zero_of_leads h.leads hx

/-- A chain that is given back leaves the FAT as it was. -/
theorem exists_deallocate :
    ∃ v'', fatDeallocateDiskSpace g (mcbOf g ds) v' = .ok () v'' ∧ Consistent g v'' ∧
      v''.vol.io = none ∧ ∀ x, lookupEntry g.width v''.vol.fat x = lookupEntry g.width v.vol.fat x := by
  obtain ⟨v'', hok, hcons, hio, hentry⟩ := h.consistent.exists_deallocate h.clusters h.leads.nodup
    h.small (fun x hx => h.entry_ne_zero hx) h.noFault
  refine ⟨v'', hok, hcons, hio, fun x => ?_⟩
  rw [hentry]
  split
  · next hx => exact (h.fresh x hx).symm
  · next hx => exact h.frame x hx

/-- The chain of a file that had none. -/
theorem changed_first {f f' : FcbOrDcb} (hmark : g.numberOfClusters + 1 < g.width.reservedMark)
    (hfat : f.vcb = v) {d : ℕ} (hd : ds.head? = some d) (hvcb : f'.vcb = v')
    (hmcb : f'.mcb = mcbOf g ds) (hsize : f'.allocationSize = ⟨ds.length * g.clusterSize, 0⟩)
    (hfirst : f'.firstClusterOfFile = d) (hdirent : f'.dirent = f.dirent.store g d) :
    Changed g f f' [] ds := by
  have hleads := h.leads
  obtain ⟨c, cs, rfl⟩ := List.exists_cons_of_ne_nil h.ne
  have hcd : c = d := by simpa using hd
  refine ⟨FcbOrDcb.held_of_chain ?_ h.clusters ?_ ?_ h.small hsize hmcb ?_,
    fun x hx => Or.inr ?_, fun x hx => absurd hx List.not_mem_nil, fun x _ hx => ?_⟩
  · rw [hvcb, hfirst, hcd]
    rw [hcd] at hleads
    exact ⟨rfl, hleads⟩
  · rw [hvcb]
    exact h.consistent
  · rw [hdirent, hfirst, Move.cluster_store hmark (h.clusters d (by simp [hcd]))]
  · rw [hvcb]
    exact h.noFault
  · rw [hfat]
    exact h.fresh x hx
  · rw [hvcb, hfat]
    exact h.frame x hx

/-- The last cluster of a file is linked to the chain. -/
theorem changed_more {f : FcbOrDcb} {cs : List ℕ} (hf : f.Whole g cs) (hfat : f.vcb = v)
    (hmark : g.numberOfClusters + 1 < g.width.reservedMark) (hne : cs ≠ []) {vol : Volume}
    (hwrote : v'.vol.Wrote vol g.width (entrySet g.width (lookupEntry g.width v'.vol.fat)
      (cs.getLast hne) (ds.head h.ne)))
    (hlt : (cs ++ ds).length * g.clusterSize < 2 ^ 32) :
    Changed g f { f with
      vcb := { v' with vol := vol }, mcb := mcbOf g (cs ++ ds)
      allocationSize := ⟨(cs ++ ds).length * g.clusterSize, 0⟩ } cs (cs ++ ds) := by
  subst hfat
  have hleads := hf.toHasChain.leads hne
  have hlast := List.getLast_mem hne
  have hapart : ∀ x ∈ cs, x ∉ ds := fun x hx hx' =>
    entry_ne_zero_of_leads hleads hx (h.fresh x hx')
  have hhead := h.clusters _ (List.head_mem h.ne)
  have hmod : ds.head h.ne % 2 ^ g.width.linkBits ≠ 0 := by
    have hmem := Geometry.mem_clusters.mp hhead
    rw [Nat.mod_eq_of_lt ((show ds.head h.ne < g.width.reservedMark by omega).trans
      g.width.reservedMark_lt)]
    omega
  have hzero : ∀ x, lookupEntry g.width vol.fat x = 0 ↔ lookupEntry g.width v'.vol.fat x = 0 := by
    intro x
    rw [hwrote.entry, entrySet]
    split
    · next heq =>
        rw [heq, h.frame _ (hapart _ hlast)]
        exact iff_of_false hmod (entry_ne_zero_of_leads hleads hlast)
    · exact Iff.rfl
  have hjoined : Leads (fatLink g.width vol.fat) (cs ++ ds) .last := by
    have hback := h.leads
    obtain ⟨d, ds, rfl⟩ := List.exists_cons_of_ne_nil h.ne
    refine (Leads.append_iff hne).mpr ⟨hleads.retarget hne hleads.nodup (fun x hx hx' => ?_) ?_,
      hback.congr fun x hx => ?_⟩
    · rw [fatLink, hwrote.entry, entrySet, if_neg hx', h.frame x (hapart x hx), fatLink]
    · rw [fatLink, hwrote.entry, entrySet, if_pos rfl]
      exact Move.linkOf_cluster hmark hhead
    · rw [fatLink, hwrote.entry, entrySet, if_neg, fatLink]
      intro heq
      exact hapart _ hlast (heq ▸ hx)
  refine ⟨FcbOrDcb.held_of_chain ?_ ?_ (h.consistent.setVol hzero) hf.dirent hlt rfl rfl
    (hwrote.io h.noFault), fun x hx => ?_, fun x hx hnot => ?_, fun x hx hx' => ?_⟩
  · rw [hf.toHasChain.first hne, ← (List.head_append_of_ne_nil hne : (cs ++ ds).head _ = cs.head hne)]
    exact chainAt_head (List.append_ne_nil_of_left_ne_nil hne ds) hjoined
  · intro x hx
    exact (List.mem_append.mp hx).elim (hf.clusters x) (h.clusters x)
  · exact (List.mem_append.mp hx).imp_right (h.fresh x)
  · exact absurd (List.mem_append_left ds hx) hnot
  · change lookupEntry g.width vol.fat x = _
    rw [hwrote.entry, entrySet, if_neg, h.frame x fun hmem => hx' (List.mem_append_right cs hmem)]
    rintro rfl
    exact hx hlast

end Chained

namespace FcbOrDcb

variable {f : FcbOrDcb} {cs : List ℕ} {v : Vcb} (hcons : Consistent g v) (hio : v.vol.io = none)
  (hentry : ∀ x ∈ cs, lookupEntry g.width v.vol.fat x = lookupEntry g.width f.vcb.vol.fat x)

include hentry in
/-- A file keeps its chain while the entries of it stay. -/
theorem HasChain.setVcb (h : f.HasChain g cs) : HasChain g { f with vcb := v } cs := by
  refine ⟨?_, h.clusters, h.le⟩
  have hchain := h.chain
  cases cs with
  | nil => exact hchain
  | cons c cs =>
      refine ⟨hchain.1, hchain.2.congr fun x hx => ?_⟩
      rw [fatLink, hentry x hx, fatLink]

include hcons hio hentry

theorem Held.setVcb (h : f.Held g cs) : Held g { f with vcb := v } cs where
  toHasChain := h.toHasChain.setVcb hentry
  consistent := hcons
  dirent := h.dirent
  size := by
    refine h.size.imp (fun hsize => hsize) fun hsize => ?_
    obtain ⟨hhint, hne, k, hmapped⟩ := hsize
    exact ⟨hhint, hne, k, hmapped.le, hmapped.mcb, hmapped.whole⟩
  small := h.small
  fileSize := h.fileSize
  noFault := hio

theorem Whole.setVcb (h : f.Whole g cs) : Whole g { f with vcb := v } cs :=
  ⟨h.toHeld.setVcb hcons hio hentry, h.allocationSize, h.mcb⟩

end FcbOrDcb

namespace AddCall

variable {q : ResizeFaults} {c : AddCall}

/-- The unwind, when the new clusters can be given back. -/
theorem sat_unwind {s t : AddCall} {v : Vcb} (hshrink : shrinkSize c = s)
    (hinformed : s.cacheManagerInformed = false) (hreset : resetFirstCluster g s = t)
    (hspace : (if t.weAllocatedDiskSpace then
      fatDeallocateDiskSpace g (if t.weInitializedMcb then t.newMcb else t.file.mcb) else pure ())
        t.file.vcb = .ok () v) :
    Sat (unwind g q) c (fun _ c' => c' = cleanUp { t with file := { t.file with vcb := v } })
      (fun _ _ => False) := by
  rw [unwind]
  apply Sat.modify_bind
  apply Sat.get_bind
  rw [hshrink, hinformed, if_neg Bool.false_ne_true]
  apply Sat.modify_bind
  apply Sat.get_bind
  rw [hreset]
  refine Sat.bind (R := fun _ c' => c' = { t with file := { t.file with vcb := v } })
    (Sat.protect ?_) ?_
  · split
    · next hgot =>
        rw [if_pos hgot] at hspace
        exact Sat.onPart (Sat.of_ok (t := v) (a := ()) hspace rfl)
    · next hgot =>
        rw [if_neg hgot] at hspace
        injection hspace with _ hspace
        rw [← hspace]
        exact Sat.pure rfl
  · intro _ c2 hc2
    rw [hc2]
    exact Sat.modify rfl

/-- What holds behind the unwind of everything that raises. -/
theorem sat_protected {fuel : ℕ} {Q : Unit → AddCall → Prop} {P : AddCall → Prop}
    (h : Sat (body g q fuel) c Q fun stop t => stop.isRaised = true →
      Sat (unwind g q) t (fun _ t => P t) fun _ _ => False) :
    Sat (protect Stop.isRaised (unwind g q) (body g q fuel)) c Q
      (fun stop t => stop.isRaised = true → P t) := by
  apply Sat.protect
  refine h.mono (fun _ _ hQ => hQ) fun stop t ht => ?_
  split
  · next hraised => exact (ht hraised).mono (fun _ _ hP _ => hP) fun _ _ hE => hE.elim
  · next hnot => exact fun hraised => absurd hraised hnot

/-- The size that new space makes, when the sum does not wrap. -/
theorem growSize_eq {m : ℕ} (hsum : c.file.allocationSize.lowPart + c.newAllocation = m) (hpos : 0 < m)
    (hlt : m < 2 ^ 32) :
    growSize c = { c with file := c.file.setLowPart m, allocationSizeSet := true } := by
  have hulong : ulong (c.file.allocationSize.lowPart + c.newAllocation) = m := by
    rw [hsum, ulong_of_lt hlt]
  simp only [growSize, hulong, if_neg hpos.ne']

/-- The size that is left when the new space is taken off again. -/
theorem shrinkSize_eq {m : ℕ} (hset : c.allocationSizeSet = true)
    (hsum : c.file.allocationSize.lowPart = m + c.newAllocation)
    (hlt : c.file.allocationSize.lowPart < 2 ^ 32) :
    shrinkSize c = { c with file := c.file.setLowPart m } := by
  have hsub : ulongSub c.file.allocationSize.lowPart c.newAllocation = m := by
    rw [ulongSub_of_le hlt (by omega)]
    omega
  rw [shrinkSize, if_pos hset, hsub]

/-- The variables after the first cluster of the file was allocated. -/
def gotFirst (g : Geometry) (f : FcbOrDcb) (v : Vcb) (ds : List ℕ) (first : ℕ) : AddCall :=
  { start f (ds.length * g.clusterSize) with
    file := FcbOrDcb.setFirstCluster g { f with vcb := v, mcb := mcbOf g ds } first
    newAllocation := ds.length * g.clusterSize
    direntFound := true
    weAllocatedDiskSpace := true }

/-- The variables after space behind the end of the file was allocated. -/
def gotMore (g : Geometry) (f : FcbOrDcb) (v : Vcb) (ds : List ℕ) (desired : ℕ) : AddCall :=
  { start f desired with
    file := { f with vcb := v }
    newMcb := mcbOf g ds
    newAllocation := ds.length * g.clusterSize
    weAllocatedDiskSpace := true
    weInitializedMcb := true }

section First

variable {f : FcbOrDcb} {D fuel : ℕ} (h : f.Whole g []) (hD : D ≠ 0)
  (hbound : D + g.clusterSize ≤ 2 ^ 32) (hmark : g.numberOfClusters + 1 < g.width.reservedMark)

include h hD hbound hmark

/-- A file without space gets a chain, or nothing has happened to it. -/
theorem sat_addFirst :
    Sat (addFirst g q fuel) (start f D)
      (fun _ c => ∃ v ds first, Chained g f.vcb v ds ∧ ds.head? = some first ∧
        c = gotFirst g f v ds first)
      (fun stop c => stop.isRaised = true → ∃ b n, c = { start f D with
        direntFound := b, desiredAllocationSize := n }) := by
  rw [addFirst]
  refine Sat.bind (R := fun _ c => c = start f D) (sat_failIf rfl fun _ => ⟨_, _, rfl⟩) ?_
  intro _ c hc
  rw [hc]
  apply Sat.modify_bind
  refine Sat.bind (R := fun _ c => c = { start f D with direntFound := true })
    (sat_failIf rfl fun _ => ⟨_, _, rfl⟩) ?_
  intro _ c hc
  rw [hc, allocateFirst]
  have halloc := sat_allocateChain h.consistent h.noFault hmark 0 hD hbound fuel
  refine Sat.bind (R := fun _ c => ∃ v ds, Chained g f.vcb v ds ∧ c = { start f D with
      file := { f with vcb := v, mcb := mcbOf g ds }
      desiredAllocationSize := ds.length * g.clusterSize, direntFound := true }) ?_ ?_
  · apply Sat.get_bind
    apply Sat.onPart
    have hmcb : f.mcb = [] := h.mcb
    change Sat (fatAllocateDiskSpace g (Request.at 0 D) fuel) ⟨f.vcb, f.mcb, (Request.at 0 D).byteCount⟩ _ _
    rw [hmcb]
    refine halloc.mono ?_ ?_
    · intro _ a hQ
      obtain ⟨ds, hchained, hmap, hbytes, -⟩ := hQ
      rw [hmap, hbytes]
      exact ⟨a.vcb, ds, hchained, rfl⟩
    · intro stop a hE hraised
      obtain ⟨hvcb, hnil⟩ := hE hraised
      rw [hvcb, hnil, ← hmcb]
      exact ⟨_, _, rfl⟩
  · intro _ c hc
    obtain ⟨v, ds, hchained, hc⟩ := hc
    obtain ⟨d, ds', rfl⟩ := List.exists_cons_of_ne_nil hchained.ne
    have hfirst : fatGetIndexFromLbo g (firstLbo g (mcbOf g (d :: ds'))) = d := by
      rw [firstLbo_mcbOf h.consistent.sound.aligned
        (plain_mcbOf h.consistent.sound.sectors hchained.clusters)]
      exact fatGetIndexFromLbo_lbo (j := 0) (hchained.clusters d (by simp)) g.clusterSize_pos
    rw [hc]
    apply Sat.modify
    refine ⟨v, d :: ds', d, hchained, rfl, ?_⟩
    dsimp only
    rw [hfirst]
    rfl

end First

section More

variable {f : FcbOrDcb} {cs : List ℕ} {D fuel : ℕ} (h : f.Whole g cs) (hD : cs.length * g.clusterSize < D)
  (hbound : D + g.clusterSize ≤ 2 ^ 32) (hmark : g.numberOfClusters + 1 < g.width.reservedMark)

include h hD hbound hmark

/-- A file with space gets a chain behind it, or nothing has happened to it. -/
theorem sat_addMore :
    Sat (addMore g fuel) (start f D)
      (fun _ c => ∃ v ds, Chained g f.vcb v ds ∧
        ds.length * g.clusterSize < D - cs.length * g.clusterSize + g.clusterSize ∧
        c = gotMore g f v ds D)
      (fun stop c => stop.isRaised = true → ∃ n, c = { start f D with
        newAllocation := n, weInitializedMcb := true }) := by
  have hpos := g.clusterSize_pos
  have hsub : ulongSub D f.allocationSize.lowPart = D - cs.length * g.clusterSize := by
    rw [h.allocationSize]
    exact ulongSub_of_le (by omega) hD.le
  rw [addMore]
  apply Sat.modify_bind
  have hmid : ({ start f D with
      newAllocation := ulongSub (start f D).desiredAllocationSize (start f D).file.allocationSize.lowPart
      weInitializedMcb := true } : AddCall) =
      { start f D with newAllocation := D - cs.length * g.clusterSize, weInitializedMcb := true } := by
    simp only [start, hsub]
  rw [hmid]
  refine Sat.bind (R := fun _ c => ∃ v ds, Chained g f.vcb v ds ∧
    ds.length * g.clusterSize < D - cs.length * g.clusterSize + g.clusterSize ∧
    c = { start f D with
      file := { f with vcb := v }, newMcb := mcbOf g ds
      newAllocation := ds.length * g.clusterSize, weInitializedMcb := true }) ?_ ?_
  · rw [allocateMore]
    apply Sat.get_bind
    apply Sat.onPart
    have halloc := sat_allocateChain h.consistent h.noFault hmark
      (fatGetIndexFromLbo g ((fatLookupLastMcbEntry g f.mcb).2.2 + 1))
      (n := D - cs.length * g.clusterSize) (by omega) (by omega) fuel
    refine halloc.mono ?_ ?_
    · intro _ a hQ
      obtain ⟨ds, hchained, hmap, hbytes, hlt⟩ := hQ
      rw [hmap, hbytes]
      exact ⟨a.vcb, ds, hchained, hlt, rfl⟩
    · intro stop a hE hraised
      obtain ⟨hvcb, hnil⟩ := hE hraised
      rw [hvcb, hnil]
      exact ⟨_, rfl⟩
  · intro _ c hc
    obtain ⟨v, ds, hchained, hlt, hc⟩ := hc
    rw [hc]
    exact Sat.modify ⟨v, ds, hchained, hlt, rfl⟩

end More

/-- What follows when the space is there. -/
def finish (g : Geometry) (q : ResizeFaults) : EStateM Stop AddCall Unit := do
  modify growSize
  if q.fileCached then do
    failIf q.setFileSizes
    modify fun c => { c with cacheManagerInformed := true }
  join g

theorem body_eq (fuel : ℕ) : body g q fuel = get >>= fun c =>
    (if c.file.allocationSize.lowPart = 0 then addFirst g q fuel else addMore g fuel) >>=
      fun _ => finish g q := by
  rw [body]
  congr 1
  funext c
  dsimp only
  split <;> rfl

/-- The size has grown by the new space when the cache refuses it. -/
theorem sat_finish {m : ℕ} (hsum : c.file.allocationSize.lowPart + c.newAllocation = m) (hpos : 0 < m)
    (hlt : m < 2 ^ 32) {Q : Unit → AddCall → Prop}
    (hjoin : ∀ b, Sat (join g) { c with
      file := c.file.setLowPart m, allocationSizeSet := true, cacheManagerInformed := b } Q
        fun _ _ => False) :
    Sat (finish g q) c Q fun _ c' =>
      c' = { c with file := c.file.setLowPart m, allocationSizeSet := true } := by
  rw [finish]
  apply Sat.modify_bind
  rw [growSize_eq hsum hpos hlt]
  dsimp only
  split
  · refine Sat.bind (R := fun _ c' => c' = { c with
      file := c.file.setLowPart m, allocationSizeSet := true }) (sat_failIf rfl rfl) ?_
    intro _ c' hc'
    rw [hc']
    apply Sat.modify_bind
    exact (hjoin true).mono (fun _ _ hQ => hQ) fun _ _ hE => hE.elim
  · exact (hjoin c.cacheManagerInformed).mono (fun _ _ hQ => hQ) fun _ _ hE => hE.elim

/-- What is left of the space is in the file already. -/
theorem sat_join_same (hsame : c.file.allocationSize.lowPart = c.newAllocation) :
    Sat (join g) c (fun _ c' => c' = c) fun _ _ => False := by
  rw [join]
  apply Sat.get_bind
  rw [if_neg (not_not.mpr hsame)]
  exact Sat.pure rfl

theorem sat_join_other (hother : c.file.allocationSize.lowPart ≠ c.newAllocation)
    {Q : Unit → AddCall → Prop} {E : Stop → AddCall → Prop}
    (h : Sat (fatMergeAllocation g) ⟨c.file.vcb, c.file.mcb, c.newMcb⟩
      (fun a p => Q a { c with
        file := { c.file with vcb := p.vcb, mcb := p.mcb }, newMcb := p.other })
      (fun stop p => E stop { c with
        file := { c.file with vcb := p.vcb, mcb := p.mcb }, newMcb := p.other })) :
    Sat (join g) c Q E := by
  rw [join]
  apply Sat.get_bind
  rw [if_pos hother]
  exact Sat.onPart h

/-- A file that was left without space again. -/
theorem unwound_first {f f' : FcbOrDcb} (hcons : Consistent g f'.vcb) (hio : f'.vcb.vol.io = none)
    (hmcb : f'.mcb = []) (hsize : f'.allocationSize = ⟨0, 0⟩) (hfirst : f'.firstClusterOfFile = 0)
    (hdirent : f'.dirent.cluster g = 0)
    (hentry : ∀ x, lookupEntry g.width f'.vcb.vol.fat x = lookupEntry g.width f.vcb.vol.fat x) :
    Changed g f f' [] [] := by
  refine FcbOrDcb.Held.changed (FcbOrDcb.held_of_chain hfirst (by simp) hcons (by rw [hdirent, hfirst])
    (by simp) ?_ hmcb hio) hentry
  rw [hsize, List.length_nil, Nat.zero_mul]

section First

variable {f : FcbOrDcb} {D : ℕ} (h : f.Whole g []) (hD : D ≠ 0) (hbound : D + g.clusterSize ≤ 2 ^ 32)
  (hmark : g.numberOfClusters + 1 < g.width.reservedMark)

include h hD hbound hmark

/-- A file without space gets a chain, or is left without. -/
theorem sat_body_first (fuel : ℕ) :
    Sat (protect Stop.isRaised (unwind g q) (body g q fuel)) (start f D)
      (fun _ c => ∃ ds, Changed g f c.file [] ds)
      (fun stop c => stop.isRaised = true → Changed g f c.file [] []) := by
  have hsize : f.allocationSize = ⟨0, 0⟩ := by
    rw [h.allocationSize, List.length_nil, Nat.zero_mul]
  have hmcb : f.mcb = [] := h.mcb
  have hlow : (start f D).file.allocationSize.lowPart = 0 := congrArg LargeInteger.lowPart hsize
  apply sat_protected
  rw [body_eq]
  apply Sat.get_bind
  rw [if_pos hlow]
  refine Sat.bind ((sat_addFirst h hD hbound hmark).mono (fun _ _ hQ => hQ) ?_) ?_
  · -- no clusters were got
    intro stop c hc hraised
    obtain ⟨b, n, rfl⟩ := hc hraised
    cases b with
    | false =>
        refine Sat.mono (sat_unwind (v := f.vcb) rfl rfl (if_neg fun hb => Bool.false_ne_true hb.2) rfl)
          (fun _ c' hc' => ?_) fun _ _ hE => hE
        rw [hc']
        exact h.toHeld.changed fun _ => rfl
    | true =>
        refine Sat.mono (sat_unwind (v := f.vcb) rfl rfl (if_pos ⟨hlow, rfl⟩) rfl)
          (fun _ c' hc' => ?_) fun _ _ hE => hE
        rw [hc']
        exact unwound_first h.consistent h.noFault hmcb hsize rfl
          (DirentCluster.cluster_store_zero _) fun _ => rfl
  · intro _ c hc
    obtain ⟨v, ds, d, hchained, hd, hc⟩ := hc
    have hpos : 0 < ds.length * g.clusterSize :=
      Nat.mul_pos (List.length_pos_of_ne_nil hchained.ne) g.clusterSize_pos
    rw [hc]
    refine (sat_finish (m := ds.length * g.clusterSize) ?_ hpos hchained.small fun b => ?_).mono
      (fun _ _ hQ => hQ) ?_
    · change f.allocationSize.lowPart + ds.length * g.clusterSize = _
      rw [hsize, Nat.zero_add]
    · refine (sat_join_same rfl).mono (fun _ c hc => ⟨ds, ?_⟩) fun _ _ hE => hE
      rw [hc]
      exact hchained.changed_first hmark rfl hd rfl rfl
        (congrArg (LargeInteger.mk _) (congrArg LargeInteger.highPart hsize)) rfl rfl
    · -- the chain is given back
      intro stop c hc _
      obtain ⟨v', hok, hcons, hio, hentry⟩ := hchained.exists_deallocate
      rw [hc]
      refine Sat.mono (sat_unwind (v := v') (shrinkSize_eq (m := 0) rfl (Nat.zero_add _).symm
        hchained.small) rfl (if_pos ⟨rfl, rfl⟩) hok) (fun _ c' hc' => ?_) fun _ _ hE => hE
      rw [hc']
      refine unwound_first hcons hio rfl ?_ rfl (DirentCluster.cluster_store_zero _) hentry
      exact congrArg (LargeInteger.mk 0) (congrArg LargeInteger.highPart hsize)

end First

section More

variable {f : FcbOrDcb} {cs : List ℕ} {D : ℕ} (h : f.Whole g cs) (hne : cs ≠ [])
  (hD : cs.length * g.clusterSize < D) (hbound : D + g.clusterSize ≤ 2 ^ 32)
  (hmark : g.numberOfClusters + 1 < g.width.reservedMark)

include h hne hD hbound hmark

/-- A file with space gets more, or keeps what it has. -/
theorem sat_body_more (fuel : ℕ) :
    Sat (protect Stop.isRaised (unwind g q) (body g q fuel)) (start f D)
      (fun _ c => ∃ ds, Changed g f c.file cs (cs ++ ds))
      (fun stop c => stop.isRaised = true → Changed g f c.file cs cs) := by
  have hsize := h.allocationSize
  have hcpos : 0 < cs.length * g.clusterSize :=
    Nat.mul_pos (List.length_pos_of_ne_nil hne) g.clusterSize_pos
  have hlow : (start f D).file.allocationSize.lowPart = cs.length * g.clusterSize :=
    congrArg LargeInteger.lowPart hsize
  apply sat_protected
  rw [body_eq]
  apply Sat.get_bind
  rw [if_neg (by omega)]
  refine Sat.bind ((sat_addMore h hD hbound hmark).mono (fun _ _ hQ => hQ) ?_) ?_
  · -- no clusters were got
    intro stop c hc hraised
    obtain ⟨n, rfl⟩ := hc hraised
    refine Sat.mono (sat_unwind (v := f.vcb) rfl rfl (if_neg fun hb => Bool.false_ne_true hb.2) rfl)
      (fun _ c' hc' => ?_) fun _ _ hE => hE
    rw [hc']
    exact h.toHeld.changed fun _ => rfl
  · intro _ c hc
    obtain ⟨v, ds, hchained, hlt, hc⟩ := hc
    have hlen : (cs ++ ds).length * g.clusterSize =
        cs.length * g.clusterSize + ds.length * g.clusterSize := by
      rw [List.length_append, Nat.add_mul]
    have hdpos : 0 < ds.length * g.clusterSize :=
      Nat.mul_pos (List.length_pos_of_ne_nil hchained.ne) g.clusterSize_pos
    have hsmall : (cs ++ ds).length * g.clusterSize < 2 ^ 32 := by omega
    rw [hc]
    refine (sat_finish (m := (cs ++ ds).length * g.clusterSize) ?_ (by omega) hsmall fun b => ?_).mono
      (fun _ _ hQ => hQ) ?_
    · rw [hlen]
      change f.allocationSize.lowPart + ds.length * g.clusterSize = _
      rw [hsize]
    · -- the chain is joined to the file
      have hhigh : LargeInteger.mk ((cs ++ ds).length * g.clusterSize) f.allocationSize.highPart =
          ⟨(cs ++ ds).length * g.clusterSize, 0⟩ := by rw [hsize]
      have hmerge := sat_fatMergeAllocation h.consistent.sound.aligned
        (plain_mcbOf h.consistent.sound.sectors fun x hx =>
          (List.mem_append.mp hx).elim (h.clusters x) (hchained.clusters x))
        h.clusters hchained.clusters hne hchained.ne (by rw [← List.length_append]; exact hsmall.le)
        (v := v)
      have hother : (cs ++ ds).length * g.clusterSize ≠ ds.length * g.clusterSize := by omega
      refine sat_join_other hother ?_
      change Sat (fatMergeAllocation g) ⟨v, f.mcb, mcbOf g ds⟩ _ _
      rw [h.mcb]
      refine hmerge.mono ?_ ?_
      · intro _ p hQ
        obtain ⟨vol, hp, hwrote, -⟩ := hQ
        rw [hp]
        refine ⟨ds, ?_⟩
        change Changed g f { f with
          vcb := { v with vol := vol }, mcb := mcbOf g (cs ++ ds)
          allocationSize := ⟨(cs ++ ds).length * g.clusterSize, f.allocationSize.highPart⟩ } cs (cs ++ ds)
        rw [hhigh]
        exact hchained.changed_more h rfl hmark hne hwrote hsmall
      · intro _ _ hE
        exact absurd hE.2.1 (by simp [hchained.noFault])
    · -- the chain is given back
      intro stop c hc _
      obtain ⟨v', hok, hcons, hio, hentry⟩ := hchained.exists_deallocate
      rw [hc]
      refine Sat.mono (sat_unwind (v := v') (shrinkSize_eq (m := cs.length * g.clusterSize) rfl hlen
        hsmall) rfl (if_neg fun hzero => hcpos.ne' hzero.1) hok) (fun _ c' hc' => ?_) fun _ _ hE => hE
      rw [hc']
      have hself : LargeInteger.mk (cs.length * g.clusterSize) f.allocationSize.highPart =
          f.allocationSize := by rw [hsize]
      change Changed g f { f with
        vcb := v', allocationSize := ⟨cs.length * g.clusterSize, f.allocationSize.highPart⟩ } cs cs
      rw [hself]
      exact (h.setVcb hcons hio fun x _ => hentry x).toHeld.changed hentry

end More

end AddCall

/-- **Adding.**  Whatever fails besides the accesses to the FAT, a call gives a file below 4 GB more
clusters or, when it raises, leaves it as it was. -/
theorem sat_fatAddFileAllocation {f : FcbOrDcb} {cs : List ℕ} (h : f.Held g cs)
    (hmark : g.numberOfClusters + 1 < g.width.reservedMark) (harea : 0 < g.fileAreaLbo)
    (q : ResizeFaults) {desiredAllocationSize : ℕ}
    (hbound : desiredAllocationSize + g.clusterSize ≤ 2 ^ 32) {fuel : ℕ}
    (hfuel : g.numberOfClusters ≤ fuel) :
    Sat (fatAddFileAllocation g q desiredAllocationSize fuel) f
      (fun _ f' => ∃ ds, Changed g f f' cs (cs ++ ds))
      (fun stop f' => stop.isRaised = true → Changed g f f' cs cs) := by
  obtain ⟨t, hok, hwhole, hchanged⟩ := h.exists_lookupSize harea hfuel
  have hlow : t.allocationSize.lowPart = cs.length * g.clusterSize := by rw [hwhole.allocationSize]
  rw [fatAddFileAllocation]
  refine Sat.bind (Sat.of_ok (Q := fun _ s => s = t) hok rfl) ?_
  intro _ s hs
  subst hs
  apply Sat.get_bind
  split
  · exact Sat.pure ⟨[], by
      rw [List.append_nil]
      exact hchanged _ _ (hwhole.toHeld.changed fun _ => rfl)⟩
  · next hmore =>
      rw [hlow, not_le] at hmore
      have hbody : Sat (protect Stop.isRaised (AddCall.unwind g q) (AddCall.body g q fuel))
          (AddCall.start s desiredAllocationSize) (fun _ c => ∃ ds, Changed g s c.file cs (cs ++ ds))
          (fun stop c => stop.isRaised = true → Changed g s c.file cs cs) := by
        by_cases hne : cs = []
        · subst hne
          exact AddCall.sat_body_first hwhole (by omega) hbound hmark fuel
        · exact AddCall.sat_body_more hwhole hne hmore hbound hmark fuel
      cases hres : protect Stop.isRaised (AddCall.unwind g q) (AddCall.body g q fuel)
          (AddCall.start s desiredAllocationSize) with
      | ok u c =>
          obtain ⟨ds, hc⟩ := hbody.ok hres
          exact Sat.set_bind (Sat.pure ⟨ds, hchanged _ _ hc⟩)
      | error stop c =>
          exact Sat.set_bind (Sat.throw fun hraised => hchanged _ _ (hbody.error hres hraised))

end KernelDrivers.Fat
