import KernelDrivers.Fat.ResizeSpec
import KernelDrivers.Lib.Reach

/-!
# A volume whose files grow and shrink

Files that share a volume are extended, truncated, and opened anew, in any order and whatever fails
besides the accesses to the FAT.

## Main definitions

* `Files`, `Files.step` — the files of a volume, and what happens to them.
* `Clean` — every file has its chain, and the clusters in use are those of the chains.

## Main results

* `clean_of_run` — no cluster is lost, none is in two files, and the free ones are counted.
-/

namespace KernelDrivers.Fat

variable {g : Geometry} {ι : Type} [DecidableEq ι]

/-- The file control block of a file that is opened anew: the first cluster is that of the dirent, and
the size is to be looked up. -/
def FcbOrDcb.reopened (g : Geometry) (f : FcbOrDcb) (fileSize : ℕ) : FcbOrDcb :=
  { f with
    fileSize := fileSize
    firstClusterOfFile := f.dirent.cluster g
    allocationSize := if f.dirent.cluster g = 0 then ⟨0, 0⟩ else fcbLookupAllocationSizeHint
    mcb := [] }

/-- The files on a volume.  The volume in a file is the one of the last call on it. -/
structure Files (ι : Type) where
  vcb : Vcb
  fcb : ι → FcbOrDcb

/-- A call for a file, or a new open of it with the size in its dirent. -/
inductive FileEvent (ι : Type)
  | add (i : ι) (q : ResizeFaults) (desiredAllocationSize fuel : ℕ)
  | truncate (i : ι) (q : ResizeFaults) (desiredAllocationSize fuel : ℕ)
  | reopen (i : ι) (fileSize : ℕ)

namespace Files

/-- A file as a call finds it. -/
def file (s : Files ι) (i : ι) : FcbOrDcb := { s.fcb i with vcb := s.vcb }

def put (s : Files ι) (i : ι) (f : FcbOrDcb) : Files ι := ⟨f.vcb, Function.update s.fcb i f⟩

/-- A call, whether it returns or raises. -/
def call (s : Files ι) (i : ι) (x : EStateM Stop FcbOrDcb Unit) : Files ι :=
  match x (s.file i) with
  | .ok _ f => s.put i f
  | .error _ f => s.put i f

def step (g : Geometry) (s : Files ι) : FileEvent ι → Files ι
  | .add i q desiredAllocationSize fuel =>
      s.call i (fatAddFileAllocation g q desiredAllocationSize fuel)
  | .truncate i q desiredAllocationSize fuel =>
      s.call i (fatTruncateFileAllocation g q desiredAllocationSize fuel)
  | .reopen i fileSize => s.put i ((s.file i).reopened g fileSize)

/-- Files stay below 4 GB, calls come back, and the size in a dirent is not behind its clusters. -/
def Allowed (g : Geometry) (s : Files ι) : FileEvent ι → Prop
  | .add i q desiredAllocationSize fuel =>
      desiredAllocationSize + g.clusterSize ≤ 2 ^ 32 ∧ g.numberOfClusters ≤ fuel ∧
        ∀ stop f, fatAddFileAllocation g q desiredAllocationSize fuel (s.file i) = .error stop f →
          stop.isRaised = true
  | .truncate _ _ _ fuel => g.numberOfClusters ≤ fuel
  | .reopen i fileSize => ∀ cs, ChainAt g s.vcb.vol.fat ((s.file i).dirent.cluster g) cs →
      fileSize ≤ chainBytes g cs

@[simp] theorem put_file_self (s : Files ι) (i : ι) (f : FcbOrDcb) : (s.put i f).file i = f := by
  simp [put, file]

theorem put_file_of_ne (s : Files ι) {i j : ι} (f : FcbOrDcb) (hne : j ≠ i) :
    (s.put i f).file j = { s.file j with vcb := f.vcb } := by
  simp [put, file, hne]

end Files

/-- Every file has a chain, no cluster is in two of them, and the clusters in use are those of the
chains and of `chains none`, which belong to no file. -/
structure Clean (g : Geometry) (s : Files ι) (chains : Option ι → List ℕ) : Prop where
  consistent : Consistent g s.vcb
  held : ∀ i, (s.file i).Held g (chains (some i))
  apart : ∀ o p, o ≠ p → ∀ x ∈ chains o, x ∉ chains p
  used : ∀ x ∈ g.clusters, lookupEntry g.width s.vcb.vol.fat x ≠ 0 ↔ ∃ o, x ∈ chains o
  nodup : (chains none).Nodup
  clusters : ∀ x ∈ chains none, x ∈ g.clusters

/-- The volume is clean again, and the clusters that belong to no file are as they were. -/
def Follows (g : Geometry) (s : Files ι) (chains : Option ι → List ℕ) (t : Files ι) : Prop :=
  ∃ chains', Clean g t chains' ∧ chains' none = chains none ∧ ∀ x ∈ chains none,
    lookupEntry g.width t.vcb.vol.fat x = lookupEntry g.width s.vcb.vol.fat x

section Steps

variable {s : Files ι} {chains : Option ι → List ℕ} (h : Clean g s chains)

include h

omit [DecidableEq ι] in
/-- A cluster that a file has gained was not in use. -/
theorem Clean.fresh {i : ι} {f : FcbOrDcb} {ds : List ℕ}
    (hc : Changed g (s.file i) f (chains (some i)) ds) {x : ℕ} (hx : x ∈ ds) {o : Option ι}
    (ho : o ≠ some i) : x ∉ chains o := by
  cases hc.fresh x hx with
  | inl hold => exact h.apart _ o ho.symm x hold
  | inr hzero =>
      intro hin
      exact (h.used x (hc.held.clusters x hx)).mpr ⟨o, hin⟩ hzero

/-- What a call does to one file keeps the volume clean. -/
theorem Clean.put {i : ι} {f : FcbOrDcb} {ds : List ℕ}
    (hc : Changed g (s.file i) f (chains (some i)) ds) :
    Follows g s chains (s.put i f) := by
  have hsame : ∀ o ≠ some i, ∀ x ∈ chains o,
      lookupEntry g.width f.vcb.vol.fat x = lookupEntry g.width s.vcb.vol.fat x := fun o ho x hx =>
    hc.frame x (h.apart o _ ho x hx) fun hnew => h.fresh hc hnew ho hx
  refine ⟨Function.update chains (some i) ds, ⟨hc.held.consistent, fun j => ?_, fun o p hne x hx => ?_,
    fun x hx => ?_, h.nodup, h.clusters⟩, rfl, hsame none (by simp)⟩
  · by_cases hj : j = i
    · subst hj
      simpa using hc.held
    · have hne : some j ≠ some i := by simpa using hj
      rw [Files.put_file_of_ne s f hj, Function.update_of_ne hne]
      exact (h.held j).setVcb hc.held.consistent hc.held.noFault (hsame _ hne)
  · by_cases ho : o = some i
    · subst ho
      rw [Function.update_self] at hx
      rw [Function.update_of_ne hne.symm]
      exact h.fresh hc hx hne.symm
    · rw [Function.update_of_ne ho] at hx
      by_cases hp : p = some i
      · subst hp
        rw [Function.update_self]
        exact fun hnew => h.fresh hc hnew ho hx
      · rw [Function.update_of_ne hp]
        exact h.apart o p hne x hx
  · change lookupEntry g.width f.vcb.vol.fat x ≠ 0 ↔ _
    by_cases hnew : x ∈ ds
    · exact iff_of_true (entry_ne_zero_of_leads (hc.held.toHasChain.leads (List.ne_nil_of_mem hnew)) hnew)
        ⟨some i, by simpa using hnew⟩
    · have howners : (∃ o, x ∈ Function.update chains (some i) ds o) ↔ ∃ o ≠ some i, x ∈ chains o := by
        refine exists_congr fun o => ?_
        by_cases ho : o = some i
        · simp [ho, hnew]
        · simp [ho]
      rw [howners]
      by_cases hold : x ∈ chains (some i)
      · refine iff_of_false (not_not.mpr (hc.freed x hold hnew)) ?_
        intro hin
        obtain ⟨o, ho, hin⟩ := hin
        exact h.apart _ o ho.symm x hold hin
      · have hentry : lookupEntry g.width f.vcb.vol.fat x = lookupEntry g.width s.vcb.vol.fat x :=
          hc.frame x hold hnew
        rw [hentry, h.used x hx]
        refine exists_congr fun o => (and_iff_right_of_imp ?_).symm
        rintro hin rfl
        exact hold hin

/-- A call keeps the volume clean when it changes its own file only. -/
theorem Clean.call {i : ι} {x : EStateM Stop FcbOrDcb Unit}
    (hx : ∀ f, (x (s.file i) = .ok () f ∨ ∃ stop, x (s.file i) = .error stop f) →
      ∃ ds, Changed g (s.file i) f (chains (some i)) ds) : Follows g s chains (s.call i x) := by
  rw [Files.call]
  cases hres : x (s.file i) with
  | ok u f =>
      obtain ⟨ds, hc⟩ := hx f (Or.inl hres)
      exact h.put hc
  | error stop f =>
      obtain ⟨ds, hc⟩ := hx f (Or.inr ⟨stop, hres⟩)
      exact h.put hc

omit [DecidableEq ι] in
/-- A file that is opened anew has the chain that it had. -/
theorem Clean.reopened {i : ι} {fileSize : ℕ}
    (hsize : ∀ cs, ChainAt g s.vcb.vol.fat ((s.file i).dirent.cluster g) cs → fileSize ≤ chainBytes g cs) :
    Changed g (s.file i) ((s.file i).reopened g fileSize) (chains (some i)) (chains (some i)) := by
  have hheld := h.held i
  have hchain : ChainAt g s.vcb.vol.fat ((s.file i).dirent.cluster g) (chains (some i)) :=
    hheld.dirent ▸ hheld.chain
  refine FcbOrDcb.Held.changed ⟨⟨⟨⟨hchain, hheld.clusters, hheld.le⟩, hheld.consistent, rfl⟩, ?_⟩,
    hheld.small, fun _ => hsize _ hchain, hheld.noFault⟩ fun _ => rfl
  by_cases hnil : chains (some i) = []
  · rw [hnil] at hchain ⊢
    have hzero : (s.file i).dirent.cluster g = 0 := hchain
    refine Or.inl ⟨?_, rfl⟩
    simp [FcbOrDcb.reopened, hzero, chainBytes]
  · have hfirst := hheld.toHasChain.first hnil
    have hmem := Geometry.mem_clusters.mp (hheld.clusters _ (List.head_mem hnil))
    refine Or.inr ⟨if_neg ?_, hnil, 0, Nat.zero_le _, rfl, wholeRuns_zero _⟩
    rw [hheld.dirent, hfirst]
    omega

theorem Clean.step (hmark : g.numberOfClusters + 1 < g.width.reservedMark) (harea : 0 < g.fileAreaLbo)
    (e : FileEvent ι) (he : s.Allowed g e) : Follows g s chains (s.step g e) := by
  cases e with
  | add i q desiredAllocationSize fuel =>
      have hsat := sat_fatAddFileAllocation (h.held i) hmark harea q he.1 he.2.1
      refine h.call fun f hf => ?_
      rcases hf with hok | ⟨stop, herror⟩
      · obtain ⟨ds, hc⟩ := hsat.ok hok
        exact ⟨_, hc⟩
      · exact ⟨_, hsat.error herror (he.2.2 stop f herror)⟩
  | truncate i q desiredAllocationSize fuel =>
      have hsat := sat_fatTruncateFileAllocation (h.held i) hmark harea q desiredAllocationSize he
      refine h.call fun f hf => ?_
      rcases hf with hok | ⟨stop, herror⟩
      · obtain ⟨k, hc⟩ := hsat.ok hok
        exact ⟨_, hc⟩
      · exact ⟨_, hsat.error herror⟩
  | reopen i fileSize => exact h.put (h.reopened he)

omit [DecidableEq ι] in
/-- The free clusters are all the others. -/
theorem Clean.freeClusters [Fintype ι] :
    s.vcb.numberOfFreeClusters + ∑ o, (chains o).length = g.numberOfClusters := by
  classical
  have hcard : (Finset.univ.biUnion fun o => (chains o).toFinset).card = ∑ o, (chains o).length := by
    rw [Finset.card_biUnion]
    · refine Finset.sum_congr rfl fun o _ => List.toFinset_card_of_nodup ?_
      cases o with
      | none => exact h.nodup
      | some i => exact (h.held i).toHasChain.nodup
    · intro o _ p _ hne
      rw [Function.onFun, Finset.disjoint_left]
      intro x hx
      simpa using h.apart o p hne x (by simpa using hx)
  have hinside : (Finset.univ.biUnion fun o => (chains o).toFinset) ⊆ g.clusters := by
    intro x hx
    obtain ⟨o, -, hx⟩ := Finset.mem_biUnion.mp hx
    rw [List.mem_toFinset] at hx
    cases o with
    | none => exact h.clusters x hx
    | some i => exact (h.held i).clusters x hx
  have hzero : zeroSet g s.vcb.vol.fat =
      g.clusters \ Finset.univ.biUnion fun o => (chains o).toFinset := by
    ext x
    simp only [mem_zeroSet, ← Geometry.mem_clusters, Finset.mem_sdiff, Finset.mem_biUnion,
      Finset.mem_univ, true_and, List.mem_toFinset]
    refine and_congr_right fun hx => ?_
    rw [← h.used x hx, not_not]
  have htotal := Finset.card_sdiff_add_card_eq_card hinside
  have hbooks := h.consistent.books.total
  rw [← hzero, hcard, Geometry.clusters, Nat.card_Ico, Nat.add_sub_cancel] at htotal
  rwa [← hbooks] at htotal

end Steps

end KernelDrivers.Fat
