import KernelDrivers.Fat.LookupRun
import KernelDrivers.Fat.Resize

/-!
# What a change of the allocation does

A file with a valid chain, and what the routines that change its allocation do to it: the walk
that finds out its size, the call that adds clusters, and the call that cuts them off.

## Main definitions

* `FcbOrDcb.Valid` — a file as the routines get it; `FcbOrDcb.Known` — one whose size is known.

## Main results

* `sat_lookupSize` — the size is found out, with so many accesses to the FAT.
-/

namespace KernelDrivers.Fat

variable {g : Geometry}

namespace FcbOrDcb

/-- A file with its chain on a volume that agrees with its FAT, whatever is known of its size. -/
structure OnChain (g : Geometry) (f : FcbOrDcb) (cs : List ℕ) : Prop extends HasChain g f cs where
  consistent : Consistent g f.vcb
  dirent : f.dirent.cluster g = f.firstClusterOfFile

/-- The map holds the first `k` clusters, and no run of it goes on behind them. -/
structure Mapped (g : Geometry) (f : FcbOrDcb) (cs : List ℕ) (k : ℕ) : Prop where
  le : k ≤ cs.length
  mcb : f.mcb = mcbOf g (cs.take k)
  whole : WholeRuns cs k

/-- A file with a valid chain.  Its size is known, or it is to be looked up and the map holds
the runs that were needed so far. -/
structure Valid (g : Geometry) (f : FcbOrDcb) (cs : List ℕ) : Prop extends OnChain g f cs where
  size : (f.allocationSize = ⟨chainBytes g cs, 0⟩ ∧ f.mcb = mcbOf g cs) ∨
    f.allocationSize = fcbLookupAllocationSizeHint ∧ cs ≠ [] ∧ ∃ k, f.Mapped g cs k

/-- A file whose size was found out: all of the chain is in the map. -/
structure Known (g : Geometry) (f : FcbOrDcb) (cs : List ℕ) : Prop extends Valid g f cs where
  lowPart : f.allocationSize.lowPart = chainBytes g cs
  mcb : f.mcb = mcbOf g cs

end FcbOrDcb

/-! ## Finding out the size -/

theorem Consistent.withFault {v : Vcb} (h : Consistent g v) (io : Option ℕ) :
    Consistent g (v.withFault io) := ⟨h.sound, h.books.setVol _⟩

namespace FcbOrDcb

variable {f : FcbOrDcb} {cs : List ℕ}

/-- What a file is on its volume does not depend on the fault, the map or the size. -/
theorem OnChain.withFault (h : OnChain g f cs) (io : Option ℕ) (mcb : Mcb) (size : LargeInteger) :
    OnChain g { f with vcb := f.vcb.withFault io, mcb := mcb, allocationSize := size } cs :=
  ⟨⟨h.chain, h.clusters, h.le⟩, h.consistent.withFault io, h.dirent⟩

theorem Valid.withFault (h : Valid g f cs) (io : Option ℕ) : Valid g (f.withFault io) cs :=
  ⟨h.toOnChain.withFault io f.mcb f.allocationSize, h.size.imp_right fun ⟨hhint, hne, k, hk⟩ =>
    ⟨hhint, hne, k, hk.le, hk.mcb, hk.whole⟩⟩

end FcbOrDcb

theorem Geometry.Sound.mappable (hg : g.Sound) (harea : 0 < g.fileAreaLbo) : g.Mappable :=
  ⟨hg.aligned, harea, hg.sectors⟩

/-- The size of a file with all of its chain in the map. -/
structure FcbOrDcb.WholeSize (g : Geometry) (f : FcbOrDcb) (cs : List ℕ) : Prop where
  lowPart : f.allocationSize.lowPart = chainBytes g cs
  mcb : f.mcb = mcbOf g cs
  size : f.allocationSize = ⟨chainBytes g cs, 0⟩ ∨
    f.allocationSize = fcbLookupAllocationSizeHint ∧ cs ≠ []

/-- The size of a file on a chain is found out with so many accesses to the FAT, unless one of them
fails or the file is larger than its chain. -/
theorem sat_lookupSize_chain {f : FcbOrDcb} {cs : List ℕ} (hg : g.Mappable) (h : f.HasChain g cs)
    (hsize : (f.allocationSize = ⟨chainBytes g cs, 0⟩ ∧ f.mcb = mcbOf g cs) ∨
      f.allocationSize = fcbLookupAllocationSizeHint ∧ cs ≠ [] ∧ ∃ k, f.Mapped g cs k) :
    ∃ reads ≤ cs.length, ∀ io fuel, Sat (lookupSize g fuel) (f.withFault io)
      (fun _ t => t.WholeSize g cs ∧ io = t.vcb.vol.io.map (· + reads) ∧
        t = { f.withFault t.vcb.vol.io with
          mcb := t.mcb, allocationSize := t.allocationSize })
      (fun _ _ => fuel < reads ∨ (∃ n < reads, io = some n) ∨ chainBytes g cs < f.fileSize) := by
  rcases hsize with ⟨hsize, hmcb⟩ | ⟨hhint, hne, k, hk⟩
  · refine ⟨0, Nat.zero_le _, fun io fuel => ?_⟩
    rw [lookupSize]
    apply Sat.get_bind
    rw [if_neg]
    · refine Sat.pure ⟨⟨?_, hmcb, Or.inl hsize⟩, ?_, rfl⟩
      · exact congrArg LargeInteger.lowPart hsize
      · cases io <;> rfl
    · change ¬ f.allocationSize = fcbLookupAllocationSizeHint
      rw [hsize, fcbLookupAllocationSizeHint]
      simp
  -- what the routine does when the size is there
  have hcheck : ∀ (t : FcbOrDcb) (io : Option ℕ) (reads fuel : ℕ), t.WholeSize g cs →
      io = t.vcb.vol.io.map (· + reads) → t.fileSize = f.fileSize →
      t = { f.withFault t.vcb.vol.io with mcb := t.mcb, allocationSize := t.allocationSize } →
      Sat (do
          let f ← get
          if f.allocationSize.lowPart < f.fileSize then throw (.raised .fileCorruptError)
          : EStateM Stop FcbOrDcb Unit) t
        (fun _ t => t.WholeSize g cs ∧ io = t.vcb.vol.io.map (· + reads) ∧
          t = { f.withFault t.vcb.vol.io with
            mcb := t.mcb, allocationSize := t.allocationSize })
        (fun _ _ => fuel < reads ∨ (∃ n < reads, io = some n) ∨ chainBytes g cs < f.fileSize) := by
    intro t io reads fuel hknown hio hfile ht
    apply Sat.get_bind
    split
    · next hlt =>
        rw [hknown.lowPart, hfile] at hlt
        exact Sat.throw (Or.inr (Or.inr hlt))
    · exact Sat.pure ⟨hknown, hio, ht⟩
  have hlookup : ∀ io fuel, lookupSize g fuel (f.withFault io) =
      fatLookupFileAllocationSize g fuel (f.withFault io) := by
    intro io fuel
    change (if f.allocationSize = fcbLookupAllocationSizeHint then
      fatLookupFileAllocationSize g fuel else pure ()) (f.withFault io) = _
    rw [if_pos hhint]
  by_cases hmax : k * g.clusterSize ≤ 0xfffffffe
  · obtain ⟨reads, hreads, hlook⟩ := sat_lookupMax hg h hne
      (by rw [hhint]; rfl) hk.le hk.mcb hk.whole hmax
    refine ⟨reads, hreads, fun io fuel => Sat.of_eq (hlookup io fuel) ?_⟩
    rw [fatLookupFileAllocationSize]
    refine Sat.bind ((hlook io fuel).mono (fun _ _ h => h) fun _ _ hE => hE.imp_right Or.inl) ?_
    rintro _ t ⟨_, hio, ht⟩
    refine hcheck t io _ fuel ?_ hio (by rw [ht]; rfl) (by rw [ht]; rfl)
    rw [ht]
    exact ⟨rfl, rfl, Or.inl rfl⟩
  · -- a maximal file that is all in the map; its size stays the hint
    have hle := h.le
    have hkle := Nat.mul_le_mul_right g.clusterSize hk.le
    have hkbytes : k * g.clusterSize = 2 ^ 32 := by
      obtain ⟨q, hq⟩ := g.clusterSize_dvd
      have hbound : k ≤ q := by
        have hmul : k * g.clusterSize ≤ q * g.clusterSize := by
          rw [Nat.mul_comm q, ← hq]
          omega
        exact Nat.le_of_mul_le_mul_right hmul g.clusterSize_pos
      have htwo : 2 ≤ g.clusterSize := by
        have h1 := g.cluster_mem
        have h2 := g.sector_mem
        exact Nat.le_self_pow (by omega) 2
      have hq' : q * g.clusterSize = 2 ^ 32 := by rw [Nat.mul_comm, hq]
      rcases hbound.lt_or_eq with hlt | rfl
      · have hsub := Nat.mul_le_mul_right g.clusterSize (show k + 1 ≤ q by omega)
        rw [Nat.add_mul, Nat.one_mul] at hsub
        omega
      · exact hq'
    have hkall : k = cs.length :=
      Nat.eq_of_mul_eq_mul_right g.clusterSize_pos (by omega)
    have hmcb : f.mcb = mcbOf g cs := by rw [hk.mcb, hkall, List.take_length]
    refine ⟨0, Nat.zero_le _, fun io fuel => Sat.of_eq (hlookup io fuel) ?_⟩
    have hnone : fatLookupMcbEntry g (f.withFault io).mcb 0xfffffffe ≠ none := by
      change fatLookupMcbEntry g f.mcb 0xfffffffe ≠ none
      have hbytes := mul_clusterSize g cs.length
      have hlt : 0xfffffffe / g.sectorSize < cs.length * g.clusterSectors := by
        rw [Nat.div_lt_iff_lt_mul g.sectorSize_pos, ← hbytes, ← hkall, hkbytes]
        norm_num
      rw [hmcb, fatLookupMcbEntry, Ne, Option.map_eq_none_iff, Runs.lookup_eq_none_iff,
        length_cells_mcbOf]
      omega
    obtain ⟨⟨lbo, byteCount, index⟩, hsome⟩ := Option.ne_none_iff_exists'.mp hnone
    have hmapped : Sat (fatLookupFileAllocation g 0xfffffffe fuel) (f.withFault io)
        (fun _ t => t = f.withFault io) (fun _ _ => False) := by
      rw [fatLookupFileAllocation]
      apply Sat.get_bind
      rw [hsome]
      exact Sat.pure rfl
    rw [fatLookupFileAllocationSize]
    refine Sat.bind (hmapped.mono (fun _ _ h => h) fun _ _ h => h.elim) ?_
    intro _ t ht
    subst ht
    refine hcheck _ io 0 fuel ⟨?_, hmcb, Or.inr ⟨hhint, hne⟩⟩
      (by cases io <;> rfl) rfl rfl
    change f.allocationSize.lowPart = _
    rw [hhint, chainBytes, ← hkall, hkbytes]
    rfl

/-- **The size of a file** is known after so many accesses to the FAT, unless one of them fails
or the file is larger than its chain. -/
theorem sat_lookupSize {f : FcbOrDcb} {cs : List ℕ} (h : f.Valid g cs)
    (harea : 0 < g.fileAreaLbo) :
    ∃ reads ≤ cs.length, ∀ io fuel, Sat (lookupSize g fuel) (f.withFault io)
      (fun _ t => t.Known g cs ∧ io = t.vcb.vol.io.map (· + reads) ∧
        t = { f.withFault t.vcb.vol.io with
          mcb := t.mcb, allocationSize := t.allocationSize })
      (fun _ _ => fuel < reads ∨ (∃ n < reads, io = some n) ∨ chainBytes g cs < f.fileSize) := by
  obtain ⟨reads, hreads, hsat⟩ := sat_lookupSize_chain (h.consistent.sound.mappable harea) h.toHasChain
    h.size
  refine ⟨reads, hreads, fun io fuel => (hsat io fuel).mono ?_ fun _ _ hE => hE⟩
  rintro _ t ⟨hwhole, hio, ht⟩
  have hchain : t.OnChain g cs := by
    rw [ht]
    exact h.toOnChain.withFault t.vcb.vol.io t.mcb t.allocationSize
  refine ⟨⟨⟨hchain, ?_⟩, hwhole.lowPart, hwhole.mcb⟩, hio, ht⟩
  rcases hwhole.size with hsize | ⟨hhint, hne⟩
  · exact Or.inl ⟨hsize, hwhole.mcb⟩
  · refine Or.inr ⟨hhint, hne, cs.length, le_rfl, ?_, wholeRuns_length cs⟩
    rw [hwhole.mcb, List.take_length]

end KernelDrivers.Fat
