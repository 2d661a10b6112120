import KernelDrivers.Fat.Splice
import KernelDrivers.Fat.Undo
import Mathlib.Data.List.GetD

/-!
# What a lookup finds

On a file with a valid chain whose map holds some of its runs, `FatLookupFileAllocation` finds
every byte of the chain and no other, and the map goes on to hold a prefix of the chain.  The
walk takes up its work at the end of the map: when the map ends in the middle of a run, it
does not find the first byte of the run again.

Whatever the FAT holds, the walk ends: it goes on by a cluster at a time, and its byte offset
is checked when it has come to 4 GB.

## Main definitions

* `ChainAt` — the clusters of a file, along the FAT.
* `WholeRuns` — the first clusters of a file end a run.
* `LooksUp` — a lookup is correct.

## Main results

* `sat_walkChain` — the walk along a valid chain.
* `looksUp` — when lookups are correct.
* `lookupEnds` — every lookup ends.
-/

namespace KernelDrivers.Fat

variable {g : Geometry}

/-! ## Files -/

/-- The clusters `cs` are the chain that begins at `first`; the empty one begins at 0. -/
def ChainAt (g : Geometry) (fat : Bytes) (first : ℕ) : List ℕ → Prop
  | [] => first = 0
  | c :: cs => first = c ∧ Leads (fatLink g.width fat) (c :: cs) .last

/-- The size of a chain in bytes, in 32 bits; 4 GB are `0xffffffff`. -/
def chainBytes (g : Geometry) (cs : List ℕ) : ℕ := min (cs.length * g.clusterSize) 0xffffffff

/-- The first `k` clusters are whole runs: the next one is not consecutive. -/
def WholeRuns (cs : List ℕ) (k : ℕ) : Prop :=
  k < cs.length → 0 < k → cs.getD k 0 ≠ cs.getD (k - 1) 0 + 1

theorem wholeRuns_zero (cs : List ℕ) : WholeRuns cs 0 := fun _ h => absurd h (lt_irrefl 0)

theorem wholeRuns_length (cs : List ℕ) : WholeRuns cs cs.length := fun h => absurd h (lt_irrefl _)

namespace FcbOrDcb

/-- A file with a chain of at most 4 GB. -/
structure HasChain (g : Geometry) (f : FcbOrDcb) (cs : List ℕ) : Prop where
  chain : ChainAt g f.vcb.vol.fat f.firstClusterOfFile cs
  clusters : ∀ c ∈ cs, c ∈ g.clusters
  le : cs.length * g.clusterSize ≤ 2 ^ 32

/-- The file with the fault of its volume at another access. -/
def withFault (f : FcbOrDcb) (io : Option ℕ) : FcbOrDcb := { f with vcb := f.vcb.withFault io }

namespace HasChain

variable {f : FcbOrDcb} {cs : List ℕ}

theorem leads (h : HasChain g f cs) (hne : cs ≠ []) :
    Leads (fatLink g.width f.vcb.vol.fat) cs .last := by
  obtain ⟨c, cs, rfl⟩ := List.exists_cons_of_ne_nil hne
  exact h.chain.2

theorem nodup (h : HasChain g f cs) : cs.Nodup := by
  cases cs with
  | nil => exact List.nodup_nil
  | cons c cs => exact h.chain.2.nodup

theorem length_le (h : HasChain g f cs) : cs.length ≤ g.numberOfClusters := by
  have hsub : cs.toFinset ⊆ g.clusters := fun c hc => h.clusters c (List.mem_toFinset.mp hc)
  have hcard := Finset.card_le_card hsub
  rwa [List.toFinset_card_of_nodup h.nodup, Geometry.clusters, Nat.card_Ico,
    Nat.add_sub_cancel] at hcard

end HasChain

end FcbOrDcb

/-! ## The walk -/

/-- An access counts the fault down. -/
theorem sat_access_io {vol : Volume} :
    Sat access vol (fun _ vol' => vol' = { vol with io := vol'.io } ∧ vol.io = vol'.io.map (· + 1))
      (fun s vol' => s = .raised .deviceError ∧ vol.io = some 0 ∧
        vol' = { vol with io := none }) := by
  rw [Sat, access]
  cases hio : vol.io with
  | none => exact ⟨rfl, by rw [hio]; rfl⟩
  | some n =>
      cases n with
      | zero => exact ⟨rfl, rfl, rfl⟩
      | succ n => exact ⟨rfl, rfl⟩

/-- A read of the FAT is one access. -/
theorem sat_fatLookupFatEntry_io {vol : Volume} {i : ℕ} (hi : i ∈ g.clusters) :
    Sat (fatLookupFatEntry g i) vol
      (fun e vol' => e = lookupEntry g.width vol.fat i ∧ vol' = { vol with io := vol'.io } ∧
        vol.io = vol'.io.map (· + 1))
      (fun s vol' => s = .raised .deviceError ∧ vol.io = some 0 ∧
        vol' = { vol with io := none }) := by
  have hi := Geometry.mem_clusters.mp hi
  rw [fatLookupFatEntry]
  apply Sat.bind ((sat_fatVerifyIndexIsValid hi.1 (by omega)).mono (fun _ _ h => h)
    (fun _ _ h => h.elim))
  intro _ t ht
  subst ht
  apply Sat.bind sat_access_io
  intro _ t' ht'
  apply Sat.get_bind
  refine Sat.pure ⟨?_, ht'⟩
  rw [ht'.1]

theorem sat_lookupFatEntry {f : FcbOrDcb} {c : ℕ} (hc : c ∈ g.clusters) :
    Sat (FcbOrDcb.onVcb (Vcb.onVol (fatLookupFatEntry g c))) f
      (fun e t => e = lookupEntry g.width f.vcb.vol.fat c ∧
        ∃ io, t = f.withFault io ∧ f.vcb.vol.io = io.map (· + 1))
      (fun s t => s = .raised .deviceError ∧ f.vcb.vol.io = some 0 ∧ t = f.withFault none) := by
  apply Sat.onPart
  apply Sat.onPart
  refine (sat_fatLookupFatEntry_io hc).mono ?_ ?_
  · rintro e vol ⟨he, hvol, hio⟩
    refine ⟨he, vol.io, ?_, hio⟩
    rw [FcbOrDcb.withFault, Vcb.withFault, ← hvol]
  · rintro s vol ⟨hs, hio, hvol⟩
    rw [hvol]
    exact ⟨hs, hio, rfl⟩

theorem lboOfEntry_eq {c : ℕ} (hc : c ∈ g.clusters) :
    lboOfEntry g c = fatGetLboFromIndex g c := by
  have hc := Geometry.mem_clusters.mp hc
  have hN := g.numberOfClusters_lt
  have hsub : ulongSub c 2 = c - 2 := by
    rw [ulongSub]
    omega
  rw [lboOfEntry, fatGetLboFromIndex, hsub]

theorem fatGetLboFromIndex_add {c n : ℕ} (hc : 2 ≤ c) :
    fatGetLboFromIndex g (c + n) = fatGetLboFromIndex g c + n * g.clusterSize := by
  rw [fatGetLboFromIndex, fatGetLboFromIndex, show c + n - 2 = c - 2 + n by omega, Nat.add_mul]
  omega

theorem fatGetLboFromIndex_inj {c d : ℕ} (hc : 2 ≤ c) (hd : 2 ≤ d)
    (h : fatGetLboFromIndex g c = fatGetLboFromIndex g d) : c = d := by
  rw [fatGetLboFromIndex, fatGetLboFromIndex, Nat.add_left_cancel_iff,
    Nat.mul_left_inj g.clusterSize_pos.ne'] at h
  omega

/-- Where the walk along `cs` is: at cluster `i`, with the first `m` clusters in the map.  The
run it is in is all in the map already, or began at cluster `m`. -/
structure Walk.At (g : Geometry) (cs : List ℕ) (vbo : ℕ) (k : Walk) (f : FcbOrDcb)
    (i m : ℕ) : Prop where
  lt : i < cs.length
  entry : k.fatEntry = cs.getD i 0
  currentVbo : k.currentVbo = i * g.clusterSize
  currentLbo : k.currentLbo = fatGetLboFromIndex g (cs.getD i 0)
  mcb : f.mcb = mcbOf g (cs.take m)
  whole : WholeRuns cs m
  le_vbo : m * g.clusterSize ≤ vbo
  run : m = i + 1 ∧ k.firstLboOfCurrentRun = 0 ∨
    m ≤ i ∧ k.firstLboOfCurrentRun = fatGetLboFromIndex g (cs.getD m 0) ∧
      k.firstVboOfCurrentRun = m * g.clusterSize ∧
      ∀ j, m + j ≤ i → cs.getD (m + j) 0 = cs.getD m 0 + j

/-- Consecutive clusters of a list. -/
theorem take_eq_append_range' {cs : List ℕ} {m i : ℕ} (hm : m ≤ i) (hi : i < cs.length)
    (h : ∀ j, m + j ≤ i → cs.getD (m + j) 0 = cs.getD m 0 + j) :
    cs.take (i + 1) = cs.take m ++ List.range' (cs.getD m 0) (i + 1 - m) := by
  have hsum : i + 1 = m + (i + 1 - m) := by omega
  conv_lhs => rw [hsum, List.take_add]
  congr 1
  apply List.ext_getElem
  · rw [List.length_take, List.length_drop, List.length_range']
    omega
  · intro j hj hj'
    rw [List.length_range'] at hj'
    have hget := h j (by omega)
    rw [List.getD_eq_getElem _ _ (by omega)] at hget
    rw [List.getElem_take, List.getElem_drop, hget, List.getElem_range', Nat.one_mul]

namespace Walk.At

variable {cs : List ℕ} {vbo v i m : ℕ} {k : Walk} {f : FcbOrDcb}

theorem getD_mem (h : k.At g cs vbo f i m) : cs.getD i 0 ∈ cs := by
  rw [List.getD_eq_getElem _ _ h.lt]
  exact List.getElem_mem _

theorem withFault (h : k.At g cs vbo f i m) (io : Option ℕ) : k.At g cs vbo (f.withFault io) i m :=
  ⟨h.lt, h.entry, h.currentVbo, h.currentLbo, h.mcb, h.whole, h.le_vbo, h.run⟩

/-- The run up to cluster `i` goes into the map. -/
theorem addRun (h : k.At g cs vbo f i m) (harea : 0 < g.fileAreaLbo)
    (hclusters : ∀ c ∈ cs, c ∈ g.clusters)
    (hv : v = (i + 1) * g.clusterSize ∨ v = 0xffffffff ∧ (i + 1) * g.clusterSize = 2 ^ 32) :
    k.addRun g v f = { f with mcb := mcbOf g (cs.take (i + 1)) } := by
  have hi := h.lt
  rcases h.run with ⟨hm, hzero⟩ | ⟨hm, hfirst, hvbo, hcons⟩
  · rw [Walk.addRun, if_neg (by rw [hzero]; simp), ← hm, ← h.mcb]
  · have hne : k.firstLboOfCurrentRun ≠ 0 := by
      rw [hfirst, fatGetLboFromIndex]
      omega
    have hmlt : m < cs.length := by omega
    have hc : 2 ≤ cs.getD m 0 := by
      rw [List.getD_eq_getElem _ _ hmlt]
      exact (Geometry.mem_clusters.mp (hclusters _ (List.getElem_mem _))).1
    have hlen : (cs.take m).length = m := by rw [List.length_take, min_eq_left hmlt.le]
    have hsum : (i + 1) * g.clusterSize =
        m * g.clusterSize + (i + 1 - m) * g.clusterSize := by
      rw [← Nat.add_mul]
      congr 1
      omega
    have hsectors : mcbSectors g (v - m * g.clusterSize) = (i + 1 - m) * g.clusterSectors := by
      rcases hv with rfl | ⟨rfl, hmax⟩
      · rw [hsum, Nat.add_sub_cancel_left, mcbSectors_mul_clusterSize]
      · have hone : g.clusterSize ≤ (i + 1 - m) * g.clusterSize := Nat.le_mul_of_pos_left _ (by omega)
        have hsize : g.sectorSize ≤ g.clusterSize := Nat.le_of_dvd g.clusterSize_pos g.sectorSize_dvd
        have htwo : 2 ≤ g.sectorSize := by
          have := g.sector_mem
          exact Nat.le_self_pow (by omega) 2
        apply mcbSectors_eq <;> rw [← mul_clusterSize] <;> omega
    have hadd := fatAddMcbEntry_mcbOf g (cs.take m) hc hsectors
    rw [hlen] at hadd
    rw [Walk.addRun, if_pos hne, hfirst, hvbo, h.mcb, hadd,
      take_eq_append_range' hm hi hcons]

/-- The byte is in the run up to cluster `i`. -/
theorem found (h : k.At g cs vbo f i m) (hclusters : ∀ c ∈ cs, c ∈ g.clusters)
    (hlt : vbo < (i + 1) * g.clusterSize) (hvbo : vbo < 2 ^ 32) (e : Bool) :
    (k.found vbo v e).lbo = fileLbo g cs vbo ∧
      ∀ j, vbo + j < (i + 1) * g.clusterSize → fileLbo g cs (vbo + j) = fileLbo g cs vbo + j := by
  have hS := g.clusterSize_pos
  rcases h.run with ⟨hm, -⟩ | ⟨hm, hfirst, hfirstVbo, hcons⟩
  · have := h.le_vbo
    rw [hm] at this
    omega
  have hc : 2 ≤ cs.getD m 0 := by
    have hmlt : m < cs.length := hm.trans_lt h.lt
    rw [List.getD_eq_getElem _ _ hmlt]
    exact (Geometry.mem_clusters.mp (hclusters _ (List.getElem_mem _))).1
  -- the bytes of the run are consecutive
  have hrun : ∀ b, m * g.clusterSize ≤ b → b < (i + 1) * g.clusterSize →
      fileLbo g cs b = fatGetLboFromIndex g (cs.getD m 0) + (b - m * g.clusterSize) := by
    intro b hmb hb
    have hquot : b / g.clusterSize < i + 1 := Nat.div_lt_of_lt_mul (by rwa [Nat.mul_comm])
    have hmq : m ≤ b / g.clusterSize := (Nat.le_div_iff_mul_le hS).mpr hmb
    have hget := hcons (b / g.clusterSize - m) (by omega)
    rw [Nat.add_sub_cancel' hmq] at hget
    have hsplit := Nat.div_add_mod' b g.clusterSize
    have hsub := Nat.sub_mul (b / g.clusterSize) m g.clusterSize
    have hmul := Nat.mul_le_mul_right g.clusterSize hmq
    rw [fileLbo, hget, fatGetLboFromIndex_add hc]
    omega
  have hle := h.le_vbo
  have hsub : ulongSub vbo (m * g.clusterSize) = vbo - m * g.clusterSize := by
    rw [ulongSub]
    omega
  refine ⟨?_, fun j hj => ?_⟩
  · rw [Walk.found, hfirst, hfirstVbo, hsub, hrun vbo hle hlt]
  · rw [hrun vbo hle hlt, hrun (vbo + j) (by omega) hj]
    omega

end Walk.At

/-- The answer `r` is right for byte `vbo` of a file of which the first `m` clusters are in the
map now. -/
def Finds (g : Geometry) (cs : List ℕ) (vbo m : ℕ) : Option FileRun → Prop
  | none => m = cs.length ∧ (cs.length * g.clusterSize ≤ vbo ∨ vbo = 0xfffffffe)
  | some run => vbo ≠ 0xfffffffe ∧ vbo < m * g.clusterSize ∧ run.lbo = fileLbo g cs vbo ∧
      0 < run.byteCount ∧ vbo + run.byteCount ≤ m * g.clusterSize ∧
      ∀ j < run.byteCount, fileLbo g cs (vbo + j) = fileLbo g cs vbo + j

/-- The file has the first `m` clusters in its map, and nothing else has changed but the
fault. -/
def FcbOrDcb.Extended (g : Geometry) (f : FcbOrDcb) (cs : List ℕ) (m : ℕ) (t : FcbOrDcb) : Prop :=
  t = { f.withFault t.vcb.vol.io with mcb := mcbOf g (cs.take m) }

/-- The walk has ended at the end of the chain or of a run.  The byte `MAXULONG - 1` asks for
the size of the file. -/
structure Walked (g : Geometry) (f : FcbOrDcb) (cs : List ℕ) (vbo m : ℕ) (r : Option FileRun)
    (t : FcbOrDcb) : Prop where
  le : m ≤ cs.length
  whole : WholeRuns cs m
  answer : Finds g cs vbo m r
  file : t = { f.withFault t.vcb.vol.io with
    mcb := mcbOf g (cs.take m)
    allocationSize := if vbo = 0xfffffffe then ⟨chainBytes g cs, 0⟩ else f.allocationSize }

/-- The byte is found in the run up to cluster `i`, which ends before `v`. -/
theorem Walk.At.finds {cs : List ℕ} {vbo : ℕ} {k : Walk} {f : FcbOrDcb} {i m v : ℕ}
    (h : k.At g cs vbo f i m) (hclusters : ∀ c ∈ cs, c ∈ g.clusters)
    (hne : vbo ≠ 0xfffffffe) (hlt : vbo < v) (hv : v ≤ (i + 1) * g.clusterSize) (hmax : v < 2 ^ 32)
    (e : Bool) : Finds g cs vbo (i + 1) (some (k.found vbo v e)) := by
  obtain ⟨hlbo, hrun⟩ := h.found hclusters (by omega) (by omega) e (v := v)
  have hcount : ulongSub v vbo = v - vbo := by
    rw [ulongSub]
    omega
  refine ⟨hne, by omega, hlbo, ?_, ?_, fun j hj => hrun j ?_⟩
  · change 0 < ulongSub v vbo
    omega
  · change vbo + ulongSub v vbo ≤ _
    omega
  · change j < ulongSub v vbo at hj
    omega

section Chain

variable (harea : 0 < g.fileAreaLbo) {cs : List ℕ} (hclusters : ∀ c ∈ cs, c ∈ g.clusters)
  (hle : cs.length * g.clusterSize ≤ 2 ^ 32) {vbo : ℕ} (hvbo : vbo < 0xffffffff)

include harea hclusters hle hvbo

/-- At the last cluster everything goes into the map. -/
theorem Walk.At.walked_last {k : Walk} {f : FcbOrDcb} {i m : ℕ} (h : k.At g cs vbo f i m)
    (hi : i + 1 = cs.length) :
    let currentVbo := ulong (k.currentVbo + g.clusterSize)
    let endOnMax : Bool := currentVbo = 0
    let v := if currentVbo = 0 then 0xffffffff else currentVbo
    k.addRun g v f = { f with mcb := mcbOf g cs } ∧ v = chainBytes g cs ∧
      endOnMax = decide (cs.length * g.clusterSize = 2 ^ 32) ∧
      (v ≤ vbo ∧ ¬ endOnMax ↔ cs.length * g.clusterSize ≤ vbo) := by
  intro currentVbo endOnMax v
  have hS := g.clusterSize_pos
  have hbytes : k.currentVbo + g.clusterSize = cs.length * g.clusterSize := by
    rw [h.currentVbo, ← hi, Nat.add_mul, Nat.one_mul]
  have hpos : 0 < cs.length * g.clusterSize := Nat.mul_pos (by omega) hS
  have hcur : currentVbo = ulong (cs.length * g.clusterSize) := congrArg ulong hbytes
  have hv : v = cs.length * g.clusterSize ∧ cs.length * g.clusterSize < 2 ^ 32 ∧ currentVbo ≠ 0 ∨
      v = 0xffffffff ∧ cs.length * g.clusterSize = 2 ^ 32 ∧ currentVbo = 0 := by
    by_cases hmax : cs.length * g.clusterSize = 2 ^ 32
    · have hzero : currentVbo = 0 := by rw [hcur, hmax]; rfl
      exact Or.inr ⟨if_pos hzero, hmax, hzero⟩
    · rw [ulong_of_lt (by omega)] at hcur
      have hne : currentVbo ≠ 0 := by omega
      exact Or.inl ⟨(if_neg hne).trans hcur, by omega, hne⟩
  have hend : endOnMax = true ↔ currentVbo = 0 := decide_eq_true_iff
  clear_value v endOnMax currentVbo
  have hadd : k.addRun g v f = { f with mcb := mcbOf g cs } := by
    rw [h.addRun harea hclusters, hi, List.take_length]
    rw [hi]
    rcases hv with ⟨hv, -⟩ | ⟨hv, hmax, -⟩
    · exact Or.inl hv
    · exact Or.inr ⟨hv, hmax⟩
  have hmax : endOnMax = true ↔ cs.length * g.clusterSize = 2 ^ 32 := by
    rcases hv with ⟨-, hlt, hne⟩ | ⟨-, hmax, hzero⟩
    · exact iff_of_false (fun he => hne (hend.mp he)) hlt.ne
    · exact iff_of_true (hend.mpr hzero) hmax
  refine ⟨hadd, ?_, ?_, ?_⟩
  · rw [chainBytes]
    rcases hv with ⟨hv, hlt, -⟩ | ⟨hv, hmax, -⟩
    · rw [hv, min_eq_left (by omega)]
    · rw [hv, hmax]
      rfl
  · rw [Bool.eq_iff_iff, hmax, decide_eq_true_iff]
  · rw [hmax]
    rcases hv with ⟨hv, hlt, -⟩ | ⟨hv, hmax, -⟩ <;> omega

/-- The rule for a pass of the walk along a valid chain: an access fails, the chain ends, the run
with the byte is passed, or the walk goes on at the next cluster. -/
theorem sat_walkChain_succ {fuel : ℕ} {k : Walk} {f : FcbOrDcb} {i m : ℕ}
    (h : k.At g cs vbo f i m) (hchain : Leads (fatLink g.width f.vcb.vol.fat) cs .last)
    (hcount : cs.length ≤ g.numberOfClusters) {Q : Option FileRun → FcbOrDcb → Prop}
    {E : Stop → FcbOrDcb → Prop}
    (hfault : f.vcb.vol.io = some 0 → E (.raised .deviceError) (f.withFault none))
    (hend : ∀ io, f.vcb.vol.io = io.map (· + 1) → i + 1 = cs.length →
      (vbo = 0xfffffffe → Q none { f.withFault io with
        mcb := mcbOf g cs, allocationSize := ⟨chainBytes g cs, 0⟩ }) ∧
      (vbo ≠ 0xfffffffe → cs.length * g.clusterSize ≤ vbo →
        Q none { f.withFault io with mcb := mcbOf g cs }) ∧
      (vbo ≠ 0xfffffffe → vbo < cs.length * g.clusterSize →
        Q (some (k.found vbo (chainBytes g cs) (decide (cs.length * g.clusterSize = 2 ^ 32))))
          { f.withFault io with mcb := mcbOf g cs }))
    (hfound : ∀ io, f.vcb.vol.io = io.map (· + 1) → i + 1 < cs.length → WholeRuns cs (i + 1) →
      vbo < (i + 1) * g.clusterSize →
      Q (some (k.found vbo ((i + 1) * g.clusterSize) false))
        { f.withFault io with mcb := mcbOf g (cs.take (i + 1)) })
    (hnext : ∀ io k' m', f.vcb.vol.io = io.map (· + 1) → m ≤ m' →
      m' = m ∧ k'.runs = k.runs ∨ m' = i + 1 ∧ k'.runs = k.runsAfter →
      k'.At g cs vbo { f.withFault io with mcb := mcbOf g (cs.take m') } (i + 1) m' →
      Sat (walkChain g vbo fuel k') { f.withFault io with mcb := mcbOf g (cs.take m') } Q E) :
    Sat (walkChain g vbo (fuel + 1) k) f Q E := by
  have hS := g.clusterSize_pos
  have htwo : 2 ≤ g.clusterSize := by
    have h1 := g.cluster_mem
    have h2 := g.sector_mem
    exact Nat.le_self_pow (by omega) 2
  have hi := h.lt
  have hget : cs.getD i 0 = cs[i] := List.getD_eq_getElem _ _ hi
  have hc := hclusters _ h.getD_mem
  have hc2 := (Geometry.mem_clusters.mp hc).1
  rw [walkChain, h.entry]
  refine Sat.bind ((sat_lookupFatEntry hc).mono (fun _ _ h => h) ?_) ?_
  · rintro s t ⟨hs, hio, ht⟩
    rw [hs, ht]
    exact hfault hio
  rintro e t ⟨he, io, ht, hio⟩
  dsimp only
  have hat := h.withFault io
  rw [← ht] at hat
  have hlink : fatLink g.width f.vcb.vol.fat (cs.getD i 0) = linkOf g.width e := by
    rw [fatLink, he]
  by_cases hlast : i + 1 = cs.length
  · -- the end of the chain
    have hlinkEnd : linkOf g.width e = .last := by
      have hne : cs ≠ [] := List.ne_nil_of_length_pos (by omega)
      have hlink' := hchain.link_getLast hne
      rw [List.getLast_eq_getElem] at hlink'
      rw [← hlink', ← hlink, hget]
      congr 2
      omega
    obtain ⟨hsize, hbehind, hin⟩ := hend io hio hlast
    obtain ⟨hadd, hv, he', hbeyond⟩ := hat.walked_last harea hclusters hle hvbo hlast
    simp only [entry_of_link_last hlinkEnd]
    generalize (if ulong (k.currentVbo + g.clusterSize) = 0 then 0xffffffff
      else ulong (k.currentVbo + g.clusterSize)) = v at hadd hv hbeyond ⊢
    generalize decide (ulong (k.currentVbo + g.clusterSize) = 0) = e' at he' hbeyond ⊢
    apply Sat.modify_bind
    rw [hadd, ht]
    split
    · next hmax =>
        apply Sat.modify_bind
        rw [hv]
        exact Sat.pure (hsize hmax)
    · next hmax =>
        split
        · next hout => exact Sat.pure (hbehind hmax (hbeyond.mp hout))
        · next hout =>
            rw [hv, he']
            exact Sat.pure (hin hmax (Nat.lt_of_not_le fun hle => hout (hbeyond.mpr hle)))
  · -- the next cluster
    have hi' : i + 1 < cs.length := by omega
    have hget' : cs.getD (i + 1) 0 = cs[i + 1] := List.getD_eq_getElem _ _ hi'
    obtain ⟨hnextType, hed⟩ := entry_of_link_next
      (hlink.symm.trans ((congrArg _ hget).trans (hchain.link_getElem hi')))
    have hd : cs[i + 1] ∈ g.clusters := hclusters _ (List.getElem_mem _)
    have hd2 := (Geometry.mem_clusters.mp hd).1
    have hbytes : k.currentVbo + g.clusterSize = (i + 1) * g.clusterSize := by
      rw [h.currentVbo, Nat.add_mul, Nat.one_mul]
    have hlt : (i + 1) * g.clusterSize + g.clusterSize ≤ 2 ^ 32 := by
      have hmul := Nat.mul_le_mul_right g.clusterSize (show i + 1 + 1 ≤ cs.length by omega)
      rw [Nat.add_mul (i + 1), Nat.one_mul] at hmul
      omega
    have hpos := Nat.mul_pos (show 0 < i + 1 by omega) hS
    have hvolume : (i + 1) * g.clusterSize ≤ g.numberOfClusters * g.clusterSize :=
      Nat.mul_le_mul_right _ (by omega)
    simp only [hnextType]
    rw [hbytes, ulong_of_lt (by omega), if_neg (by omega), hed, lboOfEntry_eq hd, h.currentLbo, ht]
    have hadd := (h.withFault io).addRun harea hclusters (Or.inl rfl)
    by_cases hcontig : cs[i + 1] = cs[i] + 1
    · rw [if_neg]
      · have hmcb : f.withFault io = { f.withFault io with mcb := mcbOf g (cs.take m) } := by
          rw [← h.mcb]
          rfl
        rw [hmcb]
        refine hnext io _ m hio le_rfl (Or.inl ⟨rfl, rfl⟩) ⟨hi', hget'.symm, rfl, by rw [hget'],
          rfl, h.whole, h.le_vbo, ?_⟩
        rcases h.run with ⟨hmi, -⟩ | ⟨hmi, hfirst, hfirstVbo, hcons⟩
        · -- the map does not end inside a run
          have hbreak := h.whole (by omega) (by omega)
          rw [hmi, hget', Nat.add_sub_cancel, hget] at hbreak
          exact absurd hcontig hbreak
        · refine Or.inr ⟨by omega, hfirst, hfirstVbo, fun j hj => ?_⟩
          rcases Nat.lt_or_ge i (m + j) with hij | hij
          · have hprev := hcons (i - m) (by omega)
            rw [Nat.add_sub_cancel' hmi, hget] at hprev
            rw [show m + j = i + 1 by omega, hget', hcontig, hprev]
            omega
          · exact hcons j hij
      · rw [hget, hcontig, not_not, fatGetLboFromIndex_add (hget ▸ hc2), Nat.one_mul]
    · have hdisc : fatGetLboFromIndex g (cs.getD i 0) + g.clusterSize ≠
          fatGetLboFromIndex g cs[i + 1] := by
        intro heq
        have hsucc := fatGetLboFromIndex_add (g := g) (n := 1) hc2
        rw [Nat.one_mul] at hsucc
        have := fatGetLboFromIndex_inj (g := g) (by omega) hd2 (hsucc.trans heq)
        rw [hget] at this
        exact hcontig this.symm
      have hwhole : WholeRuns cs (i + 1) := by
        intro _ _
        rw [hget', Nat.add_sub_cancel, hget]
        exact hcontig
      have hmi : m ≤ i + 1 := by
        rcases h.run with ⟨hmi, -⟩ | ⟨hmi, -⟩ <;> omega
      rw [if_pos hdisc]
      apply Sat.modify_bind
      rw [hadd]
      split
      · next hin => exact Sat.pure (hfound io hio hi' hwhole hin)
      · next hbeyond =>
          refine hnext io _ (i + 1) hio hmi (Or.inr ⟨rfl, rfl⟩) ⟨hi', hget'.symm, rfl,
            by rw [hget'], rfl, hwhole, not_lt.mp hbeyond,
            Or.inr ⟨le_rfl, by rw [hget'], rfl, fun j hj => ?_⟩⟩
          rw [show j = 0 by omega]
          rfl

/-- **The walk along a valid chain** finds the byte or comes to the end, with an access for each
cluster it passes. -/
theorem sat_walkChain {fuel : ℕ} {k : Walk} {f : FcbOrDcb} {i m : ℕ} (h : k.At g cs vbo f i m)
    (hchain : Leads (fatLink g.width f.vcb.vol.fat) cs .last)
    (hcount : cs.length ≤ g.numberOfClusters) :
    Sat (walkChain g vbo fuel k) f
      (fun r t => ∃ m' n, m ≤ m' ∧ Walked g f cs vbo m' r t ∧ n ≤ cs.length - i ∧
        f.vcb.vol.io = t.vcb.vol.io.map (· + n) ∧ (r = none → n = cs.length - i))
      (fun s t => (s = .outOfFuel ∧ fuel < cs.length - i ∨
          s = .raised .deviceError ∧ ∃ n < cs.length - i, f.vcb.vol.io = some n) ∧
        ∃ m', m ≤ m' ∧ m' ≤ cs.length ∧ WholeRuns cs m' ∧ f.Extended g cs m' t) := by
  induction fuel generalizing k f i m with
  | zero =>
      have hi := h.lt
      have hm : m ≤ cs.length := by
        rcases h.run with ⟨hm, -⟩ | ⟨hm, -⟩ <;> omega
      refine Sat.throw ⟨Or.inl ⟨rfl, by omega⟩, m, le_rfl, hm, h.whole, ?_⟩
      rw [FcbOrDcb.Extended, ← h.mcb]
      rfl
  | succ fuel ih =>
      have hi := h.lt
      have hm : m ≤ cs.length := by
        rcases h.run with ⟨hm, -⟩ | ⟨hm, -⟩ <;> omega
      have hmi : m ≤ i + 1 := by
        rcases h.run with ⟨hmi, -⟩ | ⟨hmi, -⟩ <;> omega
      refine sat_walkChain_succ harea hclusters hle hvbo h hchain hcount ?_ ?_ ?_ ?_
      · intro hio
        refine ⟨Or.inr ⟨rfl, 0, by omega, hio⟩, m, le_rfl, hm, h.whole, ?_⟩
        rw [FcbOrDcb.Extended, ← h.mcb]
        rfl
      · intro io hio hlast
        have hn : 1 = cs.length - i := by omega
        refine ⟨fun hsize => ?_, fun hsize hbehind => ?_, fun hsize hin => ?_⟩
        · refine ⟨cs.length, 1, hm, ⟨le_rfl, wholeRuns_length cs, ⟨rfl, Or.inr hsize⟩, ?_⟩,
            by omega, hio, fun _ => hn⟩
          rw [if_pos hsize, List.take_length]
          rfl
        · refine ⟨cs.length, 1, hm, ⟨le_rfl, wholeRuns_length cs, ⟨rfl, Or.inl hbehind⟩, ?_⟩,
            by omega, hio, fun _ => hn⟩
          rw [if_neg hsize, List.take_length]
          rfl
        · refine ⟨cs.length, 1, hm, ⟨le_rfl, wholeRuns_length cs, ?_, ?_⟩, by omega, hio,
            fun hr => by simp at hr⟩
          · rw [← hlast]
            apply h.finds hclusters hsize
            · rw [chainBytes]
              omega
            · rw [chainBytes, hlast]
              exact min_le_left _ _
            · rw [chainBytes]
              omega
          · rw [if_neg hsize, List.take_length]
            rfl
      · intro io hio hi' hwhole hin
        have hlt : (i + 1) * g.clusterSize < 2 ^ 32 :=
          ((Nat.mul_lt_mul_right g.clusterSize_pos).mpr hi').trans_le hle
        have hdvd : g.clusterSize ∣ 2 ^ 32 := g.clusterSize_dvd
        have hne : vbo ≠ 0xfffffffe := by
          have htwo : 2 ≤ g.clusterSize := by
            have h1 := g.cluster_mem
            have h2 := g.sector_mem
            exact Nat.le_self_pow (by omega) 2
          have := Nat.le_of_dvd (by omega) (Nat.dvd_sub hdvd (Dvd.intro_left (i + 1) rfl))
          omega
        refine ⟨i + 1, 1, hmi, ⟨hi'.le, hwhole,
          h.finds hclusters hne hin le_rfl hlt false, ?_⟩, by omega, hio,
          fun hr => by simp at hr⟩
        rw [if_neg hne]
        rfl
      · intro io k' m' hio hmm' _ hk'
        refine (ih hk' hchain).mono ?_ ?_
        · rintro r u ⟨m'', n, hm'', hwalked, hn, hun, hnone⟩
          refine ⟨m'', n + 1, by omega, ⟨hwalked.le, hwalked.whole, hwalked.answer, hwalked.file⟩,
            by omega, ?_, fun hr => by have := hnone hr; omega⟩
          rw [hio, show io = u.vcb.vol.io.map (· + n) from hun, Option.map_map]
          rfl
        · rintro s u ⟨hstop, m'', hm'', hle'', hwhole, hext⟩
          refine ⟨?_, m'', by omega, hle'', hwhole, hext⟩
          rcases hstop with ⟨hs, hfuel⟩ | ⟨hs, n, hn, hfault⟩
          · exact Or.inl ⟨hs, by omega⟩
          · refine Or.inr ⟨hs, n + 1, by omega, ?_⟩
            rw [hio, show io = some n from hfault]
            rfl

end Chain

/-! ## The routine -/

/-- The sectors of clusters have numbers that a map can hold, and clusters begin at sectors. -/
structure Geometry.Mappable (g : Geometry) : Prop where
  aligned : g.sectorSize ∣ g.fileAreaLbo
  area_pos : 0 < g.fileAreaLbo
  sectors : g.fileAreaSector + g.numberOfClusters * g.clusterSectors < 2 ^ 32

/-- The size of a file is known, or it is to be looked up. -/
def FcbOrDcb.Sized (g : Geometry) (f : FcbOrDcb) (cs : List ℕ) : Prop :=
  f.allocationSize = ⟨chainBytes g cs, 0⟩ ∨ f.allocationSize = fcbLookupAllocationSizeHint

/-- The answer `r` for byte `vbo` is right, and the file is `t` now: its map holds a prefix of
the chain that is not shorter than before, with the byte in it when that is allocated. -/
structure Right (g : Geometry) (cs : List ℕ) (k vbo : ℕ) (r : Option FileRun) (t : FcbOrDcb) :
    Prop where
  allocated : r.isSome ↔ vbo < cs.length * g.clusterSize
  answer : ∀ run ∈ r, run.lbo = fileLbo g cs vbo ∧ 0 < run.byteCount ∧
    ∀ j < run.byteCount, vbo + j < cs.length * g.clusterSize ∧ fileLbo g cs (vbo + j) = run.lbo + j
  mcb : ∃ m, k ≤ m ∧ m ≤ cs.length ∧ MapsFile g t.mcb (cs.take m)
  again : ∀ run ∈ r, (fatLookupMcbEntry g t.mcb vbo).map (·.1) = some run.lbo

/-- Looking byte `vbo` up on a file of which the first `k` clusters are in the map gives the
right answer, or raises when an access to the FAT fails. -/
def LooksUp (g : Geometry) (f : FcbOrDcb) (cs : List ℕ) (k vbo : ℕ) : Prop :=
  ∀ io fuel, cs.length ≤ fuel → Sat (fatLookupFileAllocation g vbo fuel) (f.withFault io)
    (fun r t => Right g cs k vbo r t)
    (fun s t => s = .raised .deviceError ∧ io ≠ none ∧
      ∃ m, k ≤ m ∧ m ≤ cs.length ∧ MapsFile g t.mcb (cs.take m))

/-- The walk of a file begins at the last cluster in the map, or at the first of the file. -/
theorem exists_walkStart {f : FcbOrDcb} {cs : List ℕ} {k vbo : ℕ}
    (hal : g.sectorSize ∣ g.fileAreaLbo) (hplain : Plain (Runs.cells (mcbOf g cs)))
    (h : f.HasChain g cs) (hne : cs ≠ []) (hk : k ≤ cs.length) (hmcb : f.mcb = mcbOf g (cs.take k))
    (hwhole : WholeRuns cs k) (hle : k * g.clusterSize ≤ vbo) :
    ∃ w, walkStart g f = some w ∧ w.At g cs vbo f (k - 1) k := by
  have hsize := g.clusterSize_pos
  have hlen := List.length_pos_of_ne_nil hne
  have hindex : ∀ {c : ℕ}, c ∈ g.clusters → fatGetIndexFromLbo g (fatGetLboFromIndex g c) = c :=
    fun hc => fatGetIndexFromLbo_lbo (j := 0) hc hsize
  have hmem : ∀ {i : ℕ}, i < cs.length → cs.getD i 0 ∈ g.clusters := by
    intro i hi
    rw [List.getD_eq_getElem _ _ hi]
    exact h.clusters _ (List.getElem_mem _)
  rcases Nat.eq_zero_or_pos k with rfl | hkpos
  · have hnil : f.mcb = [] := hmcb
    have hfirst : f.firstClusterOfFile = cs.getD 0 0 := by
      obtain ⟨c, cs, rfl⟩ := List.exists_cons_of_ne_nil hne
      exact h.chain.1
    have hc := hmem hlen
    have hc2 := (Geometry.mem_clusters.mp hc).1
    refine ⟨⟨cs.getD 0 0, 0, fatGetLboFromIndex g (cs.getD 0 0), 0,
      fatGetLboFromIndex g (cs.getD 0 0), 0⟩, ?_, ?_⟩
    · rw [walkStart, hnil, if_neg (by simp [fatLookupLastMcbEntry]), hfirst, if_neg (by omega)]
      dsimp only
      rw [lboOfEntry_eq hc, hindex hc]
    · refine ⟨hlen, rfl, by simp, rfl, hmcb, hwhole, hle, Or.inr ⟨le_rfl, rfl, by simp, ?_⟩⟩
      intro j hj
      rw [show j = 0 by omega]
      rfl
  · have hlt : k - 1 < cs.length := by omega
    have hne' : cs.take k ≠ [] := List.ne_nil_of_length_pos (by rw [List.length_take]; omega)
    have hlenk : (cs.take k).length = k := by rw [List.length_take, min_eq_left hk]
    have hlast : (cs.take k).getLast hne' = cs.getD (k - 1) 0 := by
      rw [List.getLast_eq_getElem, List.getElem_take, List.getD_eq_getElem _ _ hlt]
      congr 1
      omega
    have hlookup := fatLookupLastMcbEntry_mcbOf hal (hplain.mcbOf_take k) hne'
      ((Nat.mul_le_mul_right _ (by omega)).trans h.le)
    rw [hlast, hlenk] at hlookup
    have hbytes : k * g.clusterSize = (k - 1) * g.clusterSize + g.clusterSize := by
      conv_lhs => rw [show k = k - 1 + 1 by omega, Nat.add_mul, Nat.one_mul]
    refine ⟨⟨cs.getD (k - 1) 0, (k - 1) * g.clusterSize, fatGetLboFromIndex g (cs.getD (k - 1) 0),
      0, 0, f.mcb.length⟩, ?_, ⟨hlt, rfl, rfl, rfl, hmcb, hwhole, hle, Or.inl ⟨by omega, rfl⟩⟩⟩
    rw [walkStart, hmcb, hlookup]
    dsimp only
    rw [if_pos rfl, Nat.add_sub_cancel, hindex (hmem hlt)]
    congr 2
    omega

theorem fatLookupMcbEntry_eq_none {cs : List ℕ} {vbo : ℕ}
    (h : cs.length * g.clusterSize ≤ vbo) : fatLookupMcbEntry g (mcbOf g cs) vbo = none := by
  have hp : (Runs.cells (mcbOf g cs)).length ≤ vbo / g.sectorSize := by
    rw [length_cells_mcbOf, Nat.le_div_iff_mul_le g.sectorSize_pos, ← mul_clusterSize]
    exact h
  rw [fatLookupMcbEntry, Runs.lookup_eq_none_iff.mpr hp]
  rfl

/-- The lookup of the byte `MAXULONG - 1`, which is not in the map: it finds out the size. -/
theorem sat_lookupMax (hg : g.Mappable) {f : FcbOrDcb} {cs : List ℕ} (h : f.HasChain g cs)
    (hne : cs ≠ []) (hsize : f.allocationSize.lowPart = 0xffffffff) {k : ℕ} (hk : k ≤ cs.length)
    (hmcb : f.mcb = mcbOf g (cs.take k)) (hwhole : WholeRuns cs k)
    (hmax : k * g.clusterSize ≤ 0xfffffffe) :
    ∃ reads ≤ cs.length, ∀ io fuel,
      Sat (fatLookupFileAllocation g 0xfffffffe fuel) (f.withFault io)
      (fun r t => r = none ∧ io = t.vcb.vol.io.map (· + reads) ∧
        t = { f.withFault t.vcb.vol.io with
          mcb := mcbOf g cs, allocationSize := ⟨chainBytes g cs, 0⟩ })
      (fun _ _ => fuel < reads ∨ ∃ n < reads, io = some n) := by
  obtain ⟨w, hstart, hat⟩ := exists_walkStart hg.aligned (plain_mcbOf hg.sectors h.clusters) h hne hk
    hmcb hwhole hmax
  refine ⟨cs.length - (k - 1), Nat.sub_le _ _, fun io fuel => ?_⟩
  have hnone : fatLookupMcbEntry g (f.withFault io).mcb 0xfffffffe = none := by
    change fatLookupMcbEntry g f.mcb 0xfffffffe = none
    rw [hmcb]
    exact fatLookupMcbEntry_eq_none (by rw [List.length_take, min_eq_left hk]; exact hmax)
  have hlow : ¬ (f.withFault io).allocationSize.lowPart ≤ 0xfffffffe := by
    change ¬ f.allocationSize.lowPart ≤ 0xfffffffe
    rw [hsize]
    norm_num
  have hstart' : walkStart g (f.withFault io) = some w := hstart
  rw [fatLookupFileAllocation]
  apply Sat.get_bind
  rw [hnone]
  dsimp only
  rw [if_neg hlow, hstart']
  refine (sat_walkChain hg.area_pos h.clusters h.le (by norm_num) (hat.withFault io) (h.leads hne)
    h.length_le).mono ?_ ?_
  · rintro r t ⟨m, n, _, hwalked, _, hio, hn⟩
    have hanswer := hwalked.answer
    have hfile := hwalked.file
    cases r with
    | some run => exact absurd rfl hanswer.1
    | none =>
        rw [hanswer.1, List.take_length, if_pos rfl] at hfile
        rw [hn rfl] at hio
        exact ⟨rfl, hio, hfile⟩
  · rintro s t ⟨hstop, -⟩
    rcases hstop with ⟨-, hshort⟩ | ⟨-, n, hn, hio⟩
    · exact Or.inl hshort
    · exact Or.inr ⟨n, hn, hio⟩

/-- **Lookups are correct** for a byte that is in the map, and when the map holds whole runs for
every other byte but the last two of 4 GB. -/
theorem looksUp (hg : g.Mappable) {f : FcbOrDcb} {cs : List ℕ} (h : f.HasChain g cs)
    (hsize : f.Sized g cs) {k : ℕ} (hk : k ≤ cs.length) (hmap : MapsFile g f.mcb (cs.take k))
    {vbo : ℕ} (hcond : vbo < k * g.clusterSize ∨ WholeRuns cs k ∧
      (vbo < 0xfffffffe ∨ cs.length * g.clusterSize < 2 ^ 32)) : LooksUp g f cs k vbo := by
  intro io fuel hfuel
  have hS := g.clusterSize_pos
  have hplain := plain_mcbOf hg.sectors h.clusters
  have hmcb := hmap.eq_mcbOf
  have hmaps : ∀ m ≤ cs.length, MapsFile g (mcbOf g (cs.take m)) (cs.take m) := by
    intro m hm
    refine mapsFile_mcbOf hg.aligned hg.area_pos (hplain.mcbOf_take m) ?_
    rw [List.length_take, min_eq_left hm]
    exact (Nat.mul_le_mul_right _ hm).trans h.le
  -- the bytes of a prefix are bytes of the file
  have htake : ∀ m ≤ cs.length, ∀ b < m * g.clusterSize,
      fileLbo g (cs.take m) b = fileLbo g cs b := by
    intro m hm b hb
    have hquot : b / g.clusterSize < m := Nat.div_lt_of_lt_mul (by rwa [Nat.mul_comm])
    rw [fileLbo, fileLbo, List.getD_eq_getElem _ _ (by rw [List.length_take]; omega),
      List.getD_eq_getElem _ _ (by omega), List.getElem_take]
  have hlenk : (cs.take k).length = k := by rw [List.length_take, min_eq_left hk]
  by_cases hin : vbo < k * g.clusterSize
  · -- the map has the answer
    have hkle : k * g.clusterSize ≤ cs.length * g.clusterSize := Nat.mul_le_mul_right _ hk
    obtain ⟨byteCount, index, hlookup, hpos, hbound, hrun⟩ := exists_fatLookupMcbEntry hg.aligned
      hg.area_pos (hplain.mcbOf_take k) (by rw [hlenk]; exact hkle.trans h.le)
      (by rw [hlenk]; exact hin)
    rw [hlenk] at hbound
    rw [htake k hk vbo hin] at hlookup hrun
    have hlookup' : fatLookupMcbEntry g (f.withFault io).mcb vbo =
        some (fileLbo g cs vbo, byteCount, index) := by
      change fatLookupMcbEntry g f.mcb vbo = _
      rw [hmcb]
      exact hlookup
    rw [fatLookupFileAllocation]
    apply Sat.get_bind
    rw [hlookup']
    refine Sat.pure ⟨by simp; omega, ?_, ⟨k, le_rfl, hk, hmap⟩, ?_⟩
    · rintro run ⟨⟩
      refine ⟨rfl, hpos, fun j hj => ?_⟩
      have hj : j < byteCount := hj
      have hnext := hrun j hj
      rw [htake k hk _ (by omega)] at hnext
      exact ⟨by omega, hnext⟩
    · rintro run ⟨⟩
      rw [hlookup']
      rfl
  · obtain ⟨hwhole, hvbo⟩ := hcond.resolve_left hin
    have hge : k * g.clusterSize ≤ vbo := not_lt.mp hin
    have hnone : fatLookupMcbEntry g (f.withFault io).mcb vbo = none := by
      change fatLookupMcbEntry g f.mcb vbo = none
      rw [hmcb]
      exact fatLookupMcbEntry_eq_none (by rw [hlenk]; exact hge)
    have hle := h.le
    have hright : ∀ {t : FcbOrDcb}, t.mcb = f.mcb → cs.length * g.clusterSize ≤ vbo →
        Right g cs k vbo none t := by
      intro t ht hbeyond
      refine ⟨by simp; omega, by simp, ⟨k, le_rfl, hk, ?_⟩, by simp⟩
      rw [ht]
      exact hmap
    rw [fatLookupFileAllocation]
    apply Sat.get_bind
    rw [hnone]
    dsimp only
    by_cases hbeyond : (f.withFault io).allocationSize.lowPart ≤ vbo
    · rw [if_pos hbeyond]
      refine Sat.pure (hright rfl ?_)
      have hlow : f.allocationSize.lowPart ≤ vbo := hbeyond
      rcases hsize with hs | hs
      · rw [hs, chainBytes] at hlow
        dsimp only at hlow
        omega
      · rw [hs, fcbLookupAllocationSizeHint] at hlow
        dsimp only at hlow
        omega
    · rw [if_neg hbeyond]
      have hlow : vbo < 0xffffffff := by
        have hlt : vbo < f.allocationSize.lowPart := not_le.mp hbeyond
        rcases hsize with hs | hs
        · rw [hs, chainBytes] at hlt
          dsimp only at hlt
          omega
        · rw [hs, fcbLookupAllocationSizeHint] at hlt
          exact hlt
      by_cases hnil : cs = []
      · have hstart : walkStart g (f.withFault io) = none := by
          have hmcb' : (f.withFault io).mcb = [] := by
            change f.mcb = []
            rw [hmcb, hnil, List.take_nil]
            rfl
          have hfirst : (f.withFault io).firstClusterOfFile = 0 := by
            have hchain := h.chain
            rw [hnil] at hchain
            exact hchain
          rw [walkStart, hmcb', hfirst, if_neg (by simp [fatLookupLastMcbEntry]), if_pos rfl]
        rw [hstart]
        refine Sat.pure (hright rfl ?_)
        rw [hnil, List.length_nil, Nat.zero_mul]
        exact Nat.zero_le _
      · obtain ⟨w, hstart, hat⟩ := exists_walkStart hg.aligned hplain h hnil hk hmcb hwhole hge
        have hstart' : walkStart g (f.withFault io) = some w := hstart
        rw [hstart']
        refine (sat_walkChain hg.area_pos h.clusters h.le hlow (hat.withFault io) (h.leads hnil)
          h.length_le).mono ?_ ?_
        · rintro r t ⟨m, n, hkm, hwalked, -, -, -⟩
          have hmle := hwalked.le
          have hmcb' : t.mcb = mcbOf g (cs.take m) := by rw [hwalked.file]
          have hmaps' : ∃ m, k ≤ m ∧ m ≤ cs.length ∧ MapsFile g t.mcb (cs.take m) :=
            ⟨m, hkm, hmle, by rw [hmcb']; exact hmaps m hmle⟩
          have hanswer := hwalked.answer
          have hmul := Nat.mul_le_mul_right g.clusterSize hmle
          cases r with
          | none =>
              obtain ⟨-, hend⟩ := hanswer
              refine ⟨?_, by simp, hmaps', by simp⟩
              have hcluster : 2 ≤ g.clusterSize := by
                have h1 := g.cluster_mem
                have h2 := g.sector_mem
                exact Nat.le_self_pow (by omega) 2
              have hdvd := g.clusterSize_dvd
              have hbound : cs.length * g.clusterSize < 2 ^ 32 →
                  cs.length * g.clusterSize ≤ 0xfffffffe := by
                intro hlt
                have := (Nat.dvd_sub hdvd (Dvd.intro_left cs.length rfl))
                have := Nat.le_of_dvd (by omega) this
                omega
              simp only [Option.isSome_none, Bool.false_eq_true, false_iff, not_lt]
              rcases hend with hend | hend
              · exact hend
              · have := hbound (by omega)
                omega
          | some run =>
              obtain ⟨-, hlt, hlbo, hpos, hbound, hrun⟩ := hanswer
              refine ⟨by simp; omega, ?_, hmaps', ?_⟩
              · rintro run ⟨⟩
                refine ⟨hlbo, hpos, fun j hj => ⟨by omega, ?_⟩⟩
                rw [hlbo]
                exact hrun j hj
              · rintro run ⟨⟩
                have hlookup := (hmaps m hmle).lookup vbo
                  (by rw [List.length_take, min_eq_left hmle]; exact hlt)
                rw [hmcb', hlookup, htake m hmle vbo hlt, hlbo]
        · rintro s t ⟨hstop, m, hkm, hmle, -, hext⟩
          rcases hstop with ⟨-, hshort⟩ | ⟨hs, n, -, hfault⟩
          · omega
          · have hio : io = some n := hfault
            refine ⟨hs, by rw [hio]; simp, m, hkm, hmle, ?_⟩
            have hmcb' : t.mcb = mcbOf g (cs.take m) := by rw [hext]
            rw [hmcb']
            exact hmaps m hmle

/-- A file of the clusters 2 and 3 on a volume with the FAT of `linkedFat`. -/
def linkedFile (mcb : Mcb) : FcbOrDcb :=
  ⟨unmounted ⟨linkedFat, [], none⟩, ⟨1024, 0⟩, 1024, 2, mcb, ⟨2, 0⟩⟩

theorem hasChain_linkedFile (hw : g.width = .fat12) (hN : 2 ≤ g.numberOfClusters) (mcb : Mcb) :
    (linkedFile mcb).HasChain g [2, 3] := by
  refine ⟨⟨rfl, ?_⟩, ?_, ?_⟩
  · rw [hw]
    exact leads_linkedFat
  · intro c hc
    rw [Geometry.mem_clusters]
    simp only [List.mem_cons, List.not_mem_nil, or_false] at hc
    omega
  · have hle := g.clusterSize_le
    simp only [List.length_cons, List.length_nil]
    omega

theorem floppy_mappable : floppy.Mappable where
  aligned := floppy_sound.aligned
  area_pos := by decide
  sectors := by
    rw [floppy_numberOfClusters]
    decide

/-- The second cluster of a file that is not mapped yet. -/
theorem looksUp_floppy : LooksUp floppy (linkedFile []) [2, 3] 0 512 := by
  refine looksUp floppy_mappable
    (hasChain_linkedFile floppy_width (by rw [floppy_numberOfClusters]; norm_num) [])
    (Or.inl (by decide)) (Nat.zero_le _) ?_ (Or.inr ⟨wholeRuns_zero _, Or.inl (by norm_num)⟩)
  exact ⟨trivial, (Nat.zero_mul _).symm, fun vbo hvbo => by simp at hvbo⟩

/-- A diskette with a root directory that does not end with a sector. -/
def oddFloppy : Geometry :=
  geometryOf (fatUnpackBios (floppyBoot 17)).clearLargeSectors
    (accepted_of_fatIsBootSectorFat (by decide : fatIsBootSectorFat false (floppyBoot 17) = true))

/-- A 16-bit FAT in which the clusters from 2 to 8193 are a chain. -/
def hugeFat : Bytes :=
  storeEntry .fat16 (storeLinks .fat16 (fun _ => 0) 2 8192 true) (2 + 8192 - 1) 0xffff

/-- Their file, of 4 GB. -/
def hugeFile : FcbOrDcb :=
  ⟨unmounted ⟨hugeFat, [], none⟩, ⟨0xffffffff, 0⟩, 0xffffffff, 2, [], ⟨2, 0⟩⟩

theorem bigFat16_mappable : bigFat16.Mappable where
  aligned := by decide
  area_pos := by decide
  sectors := by
    rw [bigFat16_numberOfClusters]
    decide

theorem hasChain_hugeFile : hugeFile.HasChain bigFat16 (List.range' 2 8192) := by
  refine ⟨?_, ?_, ?_⟩
  · have hleads : Leads (fatLink bigFat16.width hugeFat) (List.range' 2 8192) .last := by
      rw [bigFat16_width]
      exact leads_storeRun _ (by simp) (by norm_num) (by norm_num) (by norm_num [FatWidth.reservedMark])
        (by norm_num [fatClusterLast, FatWidth.linkBits])
    generalize 8192 = n at hleads ⊢
    cases n with
    | zero => exact absurd rfl hleads.ne_nil
    | succ n => exact ⟨rfl, hleads⟩
  · intro c hc
    rw [List.mem_range'_1] at hc
    rw [Geometry.mem_clusters, bigFat16_numberOfClusters]
    omega
  · rw [List.length_range', bigFat16_clusterSize]
    norm_num

/-- What a correct lookup that returns has done. -/
theorem LooksUp.right {f : FcbOrDcb} {cs : List ℕ} {k vbo : ℕ} (h : LooksUp g f cs k vbo)
    {r : Option FileRun} (hrun : (fatLookupFileAllocation g vbo cs.length).run' f = some r) :
    ∃ t, Right g cs k vbo r t := by
  have hsat := h f.vcb.vol.io cs.length le_rfl
  rw [show f.withFault f.vcb.vol.io = f from rfl, Sat] at hsat
  obtain ⟨t, hres⟩ := ok_of_run' hrun
  rw [hres] at hsat
  exact ⟨t, hsat⟩

/-- **Lookups fail** behind a map that ends in the middle of a run, on a volume whose clusters
do not begin at sectors, and at the last two bytes of 4 GB. -/
theorem not_looksUp :
    ((linkedFile (mcbOf floppy [2])).HasChain floppy [2, 3] ∧
        (linkedFile (mcbOf floppy [2])).Sized floppy [2, 3] ∧
        MapsFile floppy (mcbOf floppy [2]) [2] ∧
        ¬ LooksUp floppy (linkedFile (mcbOf floppy [2])) [2, 3] 1 512) ∧
      ((linkedFile []).HasChain oddFloppy [2, 3] ∧ (linkedFile []).Sized oddFloppy [2, 3] ∧
        MapsFile oddFloppy [] [] ∧ ¬ LooksUp oddFloppy (linkedFile []) [2, 3] 0 0) ∧
      hugeFile.HasChain bigFat16 (List.range' 2 8192) ∧
        hugeFile.Sized bigFat16 (List.range' 2 8192) ∧ MapsFile bigFat16 [] [] ∧
        ¬ LooksUp bigFat16 hugeFile (List.range' 2 8192) 0 0xfffffffe ∧
        ¬ LooksUp bigFat16 hugeFile (List.range' 2 8192) 0 0xffffffff := by
  have hempty : ∀ g, MapsFile g [] [] := fun g =>
    ⟨trivial, (Nat.zero_mul _).symm, fun vbo hvbo => by simp at hvbo⟩
  refine ⟨⟨hasChain_linkedFile floppy_width (by rw [floppy_numberOfClusters]; norm_num) _,
      Or.inl (by decide), ?_, ?_⟩,
    ⟨hasChain_linkedFile (by decide) (by decide) _, Or.inl (by decide), hempty _, ?_⟩,
    hasChain_hugeFile, Or.inl ?_, hempty _, ?_, ?_⟩
  · -- the map of one cluster
    refine mapsFile_mcbOf floppy_mappable.aligned floppy_mappable.area_pos
      (plain_mcbOf floppy_mappable.sectors fun c hc => ?_) (by decide)
    rw [Geometry.mem_clusters, floppy_numberOfClusters]
    simp only [List.mem_cons, List.not_mem_nil, or_false] at hc
    omega
  · -- the byte is found at the beginning of the disk
    intro h
    obtain ⟨t, ht⟩ := h.right (r := some ⟨512, 512, false, 0⟩) (by decide +kernel)
    exact absurd (ht.answer _ rfl).1 (by decide)
  · -- the map has no place for the rest of a sector
    intro h
    obtain ⟨t, ht⟩ := h.right (r := some ⟨1568, 1024, false, 0⟩) (by decide +kernel)
    have hagain := ht.again _ rfl
    obtain ⟨m, -, -, hmap⟩ := ht.mcb
    by_cases hnil : [2, 3].take m = []
    · have hlen := hmap.length
      rw [hnil, List.length_nil, Nat.zero_mul] at hlen
      rw [fatLookupMcbEntry, Runs.lookup_eq_none_iff.mpr (by rw [hlen]; exact Nat.zero_le _)] at hagain
      cases hagain
    · exact absurd (hmap.aligned hnil) (by decide)
  · rw [chainBytes, List.length_range', bigFat16_clusterSize]
    rfl
  · -- the size is found out instead
    intro h
    obtain ⟨reads, -, hmax⟩ := sat_lookupMax (k := 0) bigFat16_mappable hasChain_hugeFile (by simp) rfl
      (Nat.zero_le _) rfl (wholeRuns_zero _) (by norm_num)
    obtain ⟨fuel, hfuel⟩ : ∃ fuel, (List.range' 2 8192).length ≤ fuel := ⟨_, le_rfl⟩
    have hsize := hmax none fuel
    have hright := h none fuel hfuel
    rw [Sat] at hsize hright
    cases hres : fatLookupFileAllocation bigFat16 0xfffffffe fuel (hugeFile.withFault none) with
    | ok r t =>
        rw [hres] at hsize hright
        have hallocated := hright.allocated
        rw [hsize.1, List.length_range', bigFat16_clusterSize] at hallocated
        simp at hallocated
    | error e t =>
        rw [hres] at hright
        exact absurd rfl hright.2.1
  · -- the byte is taken to be behind the file
    intro h
    have hrun : ∀ n, (fatLookupFileAllocation bigFat16 0xffffffff n).run' hugeFile = some none := by
      intro n
      rfl
    obtain ⟨t, ht⟩ := h.right (hrun _)
    have hallocated := ht.allocated
    rw [List.length_range', bigFat16_clusterSize] at hallocated
    simp at hallocated

/-! ## Every walk ends -/

/-- A read of any entry returns, or raises: the index is no cluster, or the access fails. -/
theorem sat_lookupAnyEntry (f : FcbOrDcb) (i : ℕ) :
    Sat (FcbOrDcb.onVcb (Vcb.onVol (fatLookupFatEntry g i))) f
      (fun _ t => f.vcb.vol.io = none → t.vcb.vol.io = none)
      (fun s _ => s = .raised .fileCorruptError ∨ s = .raised .deviceError ∧ f.vcb.vol.io ≠ none) := by
  apply Sat.onPart
  apply Sat.onPart
  rw [fatLookupFatEntry, fatVerifyIndexIsValid]
  by_cases hvalid : i < 2 ∨ g.numberOfClusters + 1 < i
  · rw [if_pos hvalid]
    exact Sat.bind (R := fun _ _ => False) (Sat.throw (Or.inl rfl)) fun _ _ h => h.elim
  · rw [if_neg hvalid, pure_bind]
    refine Sat.bind (sat_access.mono (fun _ _ h => h) fun _ _ h => Or.inr ⟨h.1, h.2.2.1⟩) ?_
    intro _ t ht
    exact Sat.get_bind (Sat.pure ht.2)

/-- The walk goes on by a cluster at a time, and its byte offset comes to 4 GB when it does not
end before. -/
theorem sat_walkChain_ends {vbo fuel n : ℕ} {k : Walk} {f : FcbOrDcb}
    (hk : k.currentVbo = n * g.clusterSize) (hn : n * g.clusterSize < 2 ^ 32)
    (hfuel : 2 ^ 32 ≤ (n + fuel) * g.clusterSize) :
    Sat (walkChain g vbo fuel k) f (fun _ _ => True)
      (fun s _ => s = .raised .fileCorruptError ∨ s = .raised .deviceError ∧ f.vcb.vol.io ≠ none) := by
  induction fuel generalizing k f n with
  | zero =>
      rw [Nat.add_zero] at hfuel
      omega
  | succ fuel ih =>
      have hbytes : k.currentVbo + g.clusterSize = (n + 1) * g.clusterSize := by
        rw [hk, Nat.add_mul, Nat.one_mul]
      have hmax : (n + 1) * g.clusterSize ≤ 2 ^ 32 := by
        obtain ⟨q, hq⟩ := g.clusterSize_dvd
        rw [hq, Nat.mul_comm g.clusterSize] at hn ⊢
        exact Nat.mul_le_mul_right _ (Nat.lt_of_mul_lt_mul_right hn)
      rw [walkChain]
      refine Sat.bind (sat_lookupAnyEntry f _) ?_
      intro e t hio
      -- the rest of the walk, with any map
      have hrest : ∀ (k' : Walk) (t' : FcbOrDcb), t'.vcb = t.vcb → (n + 1) * g.clusterSize < 2 ^ 32 →
          k'.currentVbo = (n + 1) * g.clusterSize →
          Sat (walkChain g vbo fuel k') t' (fun _ _ => True)
            (fun s _ => s = .raised .fileCorruptError ∨
              s = .raised .deviceError ∧ f.vcb.vol.io ≠ none) := by
        intro k' t' ht' hlt hk'
        refine (ih hk' hlt (by rwa [Nat.add_right_comm, Nat.add_assoc])).mono (fun _ _ h => h) ?_
        rintro s u (hs | ⟨hs, hfault⟩)
        · exact Or.inl hs
        · exact Or.inr ⟨hs, fun hnone => hfault (by rw [ht', hio hnone])⟩
      dsimp only
      rw [hbytes]
      cases fatInterpretClusterType g.width e with
      | available => exact Sat.throw (Or.inl rfl)
      | reserved => exact Sat.throw (Or.inl rfl)
      | bad => exact Sat.throw (Or.inl rfl)
      | last =>
          apply Sat.modify_bind
          generalize (if ulong ((n + 1) * g.clusterSize) = 0 then 0xffffffff
            else ulong ((n + 1) * g.clusterSize)) = v
          generalize decide (ulong ((n + 1) * g.clusterSize) = 0) = wrapped
          by_cases hsize : vbo = 0xfffffffe
          · rw [if_pos hsize]
            exact Sat.modify_bind (Sat.pure trivial)
          · rw [if_neg hsize]
            by_cases hpast : v ≤ vbo ∧ ¬ wrapped = true
            · rw [if_pos hpast]
              exact Sat.pure trivial
            · rw [if_neg hpast]
              exact Sat.pure trivial
      | next =>
          dsimp only
          by_cases hcorrupt : ulong ((n + 1) * g.clusterSize) = 0 ∨
              g.numberOfClusters * g.clusterSize < 2 ^ 32 ∧
                g.numberOfClusters * g.clusterSize < ulong ((n + 1) * g.clusterSize)
          · rw [if_pos hcorrupt]
            exact Sat.bind (R := fun _ _ => False) (Sat.throw (Or.inl rfl)) fun _ _ h => h.elim
          · have hlt : (n + 1) * g.clusterSize < 2 ^ 32 := by
              by_contra hge
              rw [show (n + 1) * g.clusterSize = 2 ^ 32 by omega] at hcorrupt
              exact hcorrupt (Or.inl rfl)
            have haddRun : ∀ v, (k.addRun g v t).vcb = t.vcb := by
              intro v
              rw [Walk.addRun]
              split <;> rfl
            rw [if_neg hcorrupt, ulong_of_lt hlt]
            split
            · apply Sat.modify_bind
              split
              · exact Sat.pure trivial
              · exact hrest _ _ (haddRun _) hlt rfl
            · exact hrest _ _ rfl hlt rfl

/-- **Every lookup ends**, whatever the FAT, the first cluster and the size are: with an answer,
or by raising that the file is corrupt (or the status of a failed access).  The map holds whole
clusters; the walk passes at most as many as there are in 4 GB. -/
theorem lookupEnds {f : FcbOrDcb} {n : ℕ} (hnormal : Runs.Normal f.mcb)
    (hplain : Plain (Runs.cells f.mcb)) (hlen : (Runs.cells f.mcb).length = n * g.clusterSectors)
    (hn : n * g.clusterSize ≤ 2 ^ 32) (vbo : ℕ) (io : Option ℕ) {fuel : ℕ}
    (hfuel : 2 ^ 32 / g.clusterSize ≤ fuel) :
    Sat (fatLookupFileAllocation g vbo fuel) (f.withFault io) (fun _ _ => True)
      (fun s _ => s = .raised .fileCorruptError ∨ s = .raised .deviceError ∧ io ≠ none) := by
  have hS := g.clusterSize_pos
  have hbound : ∀ i, 2 ^ 32 ≤ (i + fuel) * g.clusterSize := by
    intro i
    rw [← Nat.div_mul_cancel g.clusterSize_dvd]
    exact Nat.mul_le_mul_right _ (by omega)
  rw [fatLookupFileAllocation]
  apply Sat.get_bind
  cases fatLookupMcbEntry g (f.withFault io).mcb vbo with
  | some x => exact Sat.pure trivial
  | none =>
      dsimp only
      split
      · exact Sat.pure trivial
      · cases hstart : walkStart g (f.withFault io) with
        | none => exact Sat.pure trivial
        | some k =>
            rw [walkStart] at hstart
            by_cases hnil : f.mcb = []
            · have hlast : fatLookupLastMcbEntry g (f.withFault io).mcb =
                  (false, g.sectorSize - 1, g.sectorSize - 1) := by
                change fatLookupLastMcbEntry g f.mcb = _
                rw [hnil]
                rfl
              rw [hlast] at hstart
              simp only [Bool.false_eq_true, if_false] at hstart
              split at hstart
              · cases hstart
              · cases hstart
                exact sat_walkChain_ends (n := 0) (Nat.zero_mul _).symm (by omega) (hbound 0)
            · obtain ⟨run, hrun⟩ := Option.ne_none_iff_exists'.mp
                (mt List.getLast?_eq_none_iff.mp hnil)
              have hcell := Runs.getLast?_cells hnormal hrun
              obtain ⟨l, hl, -⟩ := hplain _ (List.mem_of_getLast? hcell)
              rw [hl] at hcell
              have hbytes : (Runs.cells f.mcb).length * g.sectorSize = n * g.clusterSize := by
                rw [hlen, ← mul_clusterSize]
              have hlast := fatLookupLastMcbEntry_of_plain hnormal hplain hcell (hbytes ▸ hn)
              rw [hbytes] at hlast
              rw [show (f.withFault io).mcb = f.mcb from rfl, hlast] at hstart
              simp only [if_true, Option.some.injEq] at hstart
              have hpos : 0 < n := by
                by_contra h0
                have hzero : (Runs.cells f.mcb).length = 0 := by
                  rw [hlen, Nat.eq_zero_of_not_pos h0, Nat.zero_mul]
                rw [List.length_eq_zero_iff] at hzero
                rw [hzero] at hcell
                simp at hcell
              have hmul : n * g.clusterSize = (n - 1) * g.clusterSize + g.clusterSize := by
                conv_lhs => rw [show n = n - 1 + 1 by omega, Nat.add_mul, Nat.one_mul]
              refine sat_walkChain_ends (n := n - 1) ?_ (by omega) (hbound _)
              rw [← hstart]
              dsimp only
              omega

/-- A file whose only cluster links to itself. -/
def loopFile : FcbOrDcb :=
  ⟨unmounted ⟨storeEntry .fat12 (fun _ => 0) 2 2, [], none⟩, fcbLookupAllocationSizeHint, 512, 2,
    [], ⟨2, 0⟩⟩

theorem lookupEnds_floppy :
    Sat (fatLookupFileAllocation floppy 512 (2 ^ 32 / floppy.clusterSize)) (loopFile.withFault none)
      (fun _ _ => True)
      (fun s _ => s = .raised .fileCorruptError ∨
        s = .raised .deviceError ∧ (none : Option ℕ) ≠ none) :=
  lookupEnds (f := loopFile) (n := 0) trivial (by rintro a ⟨⟩) (Nat.zero_mul _).symm (by norm_num)
    512 none le_rfl

end KernelDrivers.Fat
