import KernelDrivers.Fat.FileSizes

/-!
# The marks of a file stay in order

`ValidDataLength ≤ FileSize ≤ AllocationSize` and `ValidDataToDisk ≤ FileSize`, over every
sequence of writes and changes of the sizes, with the steps that raise.

## Main definitions

* `File.Ordered` — the marks are in order.
* `File.Sound` — and the sizes are whole clusters below four gigabytes.
* `Op.Clean` — an operation whose unwind puts everything back.

## Main results

* `ordered_of_sizeReach` — in every run of clean operations.
* `not_ordered_lateDirent` — a write that raises behind its transfer, and an allocation that goes
  down to zero without giving its clusters back.
-/

namespace KernelDrivers.Fat.Sizes

/-! ## Rounding -/

section Align

variable {m n : ℕ}

theorem dvd_align (m n : ℕ) : m ∣ align m n := Dvd.intro_left _ rfl

/-- Rounding up goes to the next multiple, or wraps to zero in the last one. -/
theorem align_cases (hm : 0 < m) (hdvd : m ∣ 2 ^ 32) (hn : n < 2 ^ 32) :
    (n ≤ align m n ∧ align m n < n + m ∧ align m n < 2 ^ 32) ∨
      (align m n = 0 ∧ 2 ^ 32 < n + m) := by
  have hle : m ≤ 2 ^ 32 := Nat.le_of_dvd (by decide) hdvd
  by_cases hwrap : n + (m - 1) < 2 ^ 32
  · left
    have hmul : (n + (m - 1)) / m * m ≤ n + (m - 1) := Nat.div_mul_le_self _ _
    have hnext : n + (m - 1) < ((n + (m - 1)) / m + 1) * m := by
      have := Nat.div_add_mod (n + (m - 1)) m
      have := Nat.mod_lt (n + (m - 1)) hm
      rw [Nat.add_mul, Nat.mul_comm _ m]
      omega
    rw [align, ulong, Nat.mod_eq_of_lt hwrap]
    rw [Nat.add_mul] at hnext
    omega
  · right
    have hmod : (n + (m - 1)) % 2 ^ 32 = n + (m - 1) - 2 ^ 32 := by
      rw [Nat.mod_eq_sub_mod (by omega), Nat.mod_eq_of_lt (by omega)]
    rw [align, ulong, hmod, Nat.div_eq_of_lt (by omega)]
    omega

end Align

/-- A size that an allocation can have. -/
def SizeOk (k : Site) (n : ℕ) : Prop := n < 2 ^ 32 ∧ (k.bytesPerCluster ∣ n ∨ n = 2 ^ 32 - 1)

/-- A multiple of the cluster size that is less than a cluster over four gigabytes is not over. -/
theorem le_of_dvd_of_lt (k : Site) {n : ℕ} (hn : k.bytesPerCluster ∣ n)
    (hlt : n < 2 ^ 32 + k.bytesPerCluster) : n ≤ 2 ^ 32 := by
  have hsub : k.bytesPerCluster ∣ n - 2 ^ 32 := Nat.dvd_sub hn k.cluster_dvd
  have hpos := k.cluster_pos
  have := Nat.eq_zero_of_dvd_of_lt hsub (by omega)
  omega

section Allocation

variable {k : Site} {allocated desired : ℕ}

theorem allocationFor_spec (hok : SizeOk k allocated) (hlt : allocated < desired)
    (hdesired : desired < 2 ^ 32) :
    desired ≤ allocationFor k allocated desired ∧ SizeOk k (allocationFor k allocated desired) := by
  have hdvd : k.bytesPerCluster ∣ allocated := by
    rcases hok.2 with h | h
    · exact h
    · omega
  have hsum := Nat.dvd_add hdvd (dvd_align k.bytesPerCluster (desired - allocated))
  have hlast : SizeOk k (2 ^ 32 - 1) := ⟨by omega, .inr rfl⟩
  -- a sum that is four gigabytes wraps to zero, and so does a count in the last cluster
  rcases align_cases (n := desired - allocated) k.cluster_pos k.cluster_dvd (by omega) with h | h
  · have hle := le_of_dvd_of_lt k hsum (by omega)
    rcases Nat.lt_or_eq_of_le hle with hless | heq
    · have hulong := Nat.mod_eq_of_lt hless
      have hsize : allocationFor k allocated desired =
          allocated + align k.bytesPerCluster (desired - allocated) := by
        simp only [allocationFor, ulong, hulong]
        rw [if_neg (by omega)]
      rw [hsize]
      exact ⟨by omega, hless, .inl hsum⟩
    · have hsize : allocationFor k allocated desired = 2 ^ 32 - 1 := by
        simp [allocationFor, ulong, heq]
      rw [hsize]
      exact ⟨by omega, hlast⟩
  · have hzero : allocated = 0 := Nat.eq_zero_of_dvd_of_lt hdvd (by omega)
    have hsize : allocationFor k allocated desired = 2 ^ 32 - 1 := by
      simp only [allocationFor, h.1]
      simp [hzero, ulong]
    rw [hsize]
    exact ⟨by omega, hlast⟩

theorem chunkTarget_spec {freeClusters target : ℕ} (hlt : allocated < desired)
    (hdesired : desired < 2 ^ 32)
    (htarget : chunkTarget k freeClusters allocated desired = some target) :
    desired ≤ target ∧ target < 2 ^ 32 := by
  have hpos := k.cluster_pos
  have hle : k.bytesPerCluster ≤ 2 ^ 32 := Nat.le_of_dvd (by decide) k.cluster_dvd
  simp only [chunkTarget] at htarget
  split at htarget
  · simp at htarget
  · rename_i haligned
    split at htarget
    · rcases align_cases (n := desired) hpos k.cluster_dvd hdesired with h | h
      · have hbelow : align k.bytesPerCluster desired ≤ 2 ^ 32 - k.bytesPerCluster := by
          have hsub := Nat.dvd_sub k.cluster_dvd (dvd_align k.bytesPerCluster desired)
          have := Nat.le_of_dvd (by omega) hsub
          omega
        have hneed : align k.bytesPerCluster desired - allocated ≤
            min 32 (ulong (freeClusters * (k.bytesPerCluster / 32)) /
              (align k.bytesPerCluster desired - allocated) + 1) *
              (align k.bytesPerCluster desired - allocated) :=
          Nat.le_mul_of_pos_left _ (lt_min (by decide) (Nat.succ_pos _))
        obtain rfl := Option.some.inj htarget
        omega
      · exact absurd h.1 haligned
    · simp at htarget

end Allocation

/-! ## What is kept -/

/-- The marks are in order. -/
structure File.Ordered (f : File) : Prop where
  valid : f.validDataLength ≤ f.fileSize
  size : f.fileSize ≤ f.allocated
  toDisk : f.validDataToDisk ≤ f.fileSize

/-- The sizes of the allocation are sizes that an allocation can have. -/
structure File.Allocated (k : Site) (f : File) : Prop where
  known : ∀ n, f.allocationSize = some n → SizeOk k n
  chain : SizeOk k f.chainSize

structure File.Sound (k : Site) (f : File) : Prop extends f.Ordered, f.Allocated k

theorem File.Allocated.ok {k : Site} {f : File} (h : f.Allocated k) : SizeOk k f.allocated := by
  rw [File.allocated]
  cases hf : f.allocationSize with
  | none => exact ⟨by simp, .inr rfl⟩
  | some n => exact h.known n hf

/-- A file that was given allocation, if anything. -/
structure Grown (k : Site) (f t : File) : Prop extends t.Allocated k where
  fileSize : t.fileSize = f.fileSize
  validDataLength : t.validDataLength = f.validDataLength
  validDataToDisk : t.validDataToDisk = f.validDataToDisk
  size : f.fileSize ≤ t.allocated
  stays : f.allocationSize ≠ none → t.allocationSize ≠ none

namespace Grown

variable {k : Site} {f t u : File}

theorem refl (h : f.Allocated k) (hsize : f.fileSize ≤ f.allocated) : Grown k f f :=
  ⟨h, rfl, rfl, rfl, hsize, fun h => h⟩

theorem trans (h : Grown k f t) (h' : Grown k t u) : Grown k f u where
  toAllocated := h'.toAllocated
  fileSize := h'.fileSize.trans h.fileSize
  validDataLength := h'.validDataLength.trans h.validDataLength
  validDataToDisk := h'.validDataToDisk.trans h.validDataToDisk
  size := h.fileSize ▸ h'.size
  stays hf := h'.stays (h.stays hf)

theorem sound (h : Grown k f t) (hf : f.Ordered) : t.Sound k where
  toAllocated := h.toAllocated
  valid := by
    rw [h.validDataLength, h.fileSize]
    exact hf.valid
  size := by
    rw [h.fileSize]
    exact h.size
  toDisk := by
    rw [h.validDataToDisk, h.fileSize]
    exact hf.toDisk

end Grown

theorem File.Sound.grown {k : Site} {f : File} (h : f.Sound k) : Grown k f f :=
  .refl h.toAllocated h.size

section Routines

variable {k : Site} {f : File}

/-- A chain that is long enough. -/
theorem sat_fatLookupFileAllocationSize (fault : Bool) (hf : f.Sound k)
    (hchain : f.fileSize ≤ f.chainSize) :
    Sat (fatLookupFileAllocationSize fault) f
      (fun _ t => Grown k f t ∧ t.allocationSize ≠ none) fun _ t => Grown k f t := by
  have hknown : Grown k f { f with allocationSize := some f.chainSize } := by
    refine ⟨⟨?_, hf.chain⟩, rfl, rfl, rfl, hchain, by simp⟩
    intro n hn
    obtain rfl := Option.some.inj hn
    exact hf.chain
  simp only [fatLookupFileAllocationSize]
  split
  · exact hf.grown
  · apply Sat.modify_bind
    apply Sat.get_bind
    split
    · exact Sat.throw hknown
    · exact Sat.pure ⟨hknown, by simp⟩

theorem sat_fatAddFileAllocation (fault : Option AddFault) (fresh : ℕ → UInt8) {desired : ℕ}
    (hf : f.Allocated k) (hsize : f.fileSize ≤ f.allocated) (hdesired : desired < 2 ^ 32) :
    Sat (fatAddFileAllocation k fault fresh desired) f
      (fun _ t => Grown k f t ∧ desired ≤ t.allocated) fun _ t => t = f := by
  simp only [fatAddFileAllocation]
  apply Sat.get_bind
  split
  · rename_i hlt
    obtain ⟨hle, hok⟩ := allocationFor_spec hf.ok hlt hdesired
    split
    · exact rfl
    · refine ⟨⟨⟨?_, hf.chain⟩, rfl, rfl, rfl, ?_, ?_⟩, hle⟩
      · intro n hn
        obtain rfl := Option.some.inj hn
        exact hok
      · exact (hsize.trans hlt.le).trans hle
      · simp [File.store]
  · rename_i hle
    exact Sat.pure ⟨.refl hf hsize, Nat.le_of_not_lt hle⟩

theorem sat_addChunk (q : WriteRequest) {target : ℕ} (hf : f.Allocated k)
    (hsize : f.fileSize ≤ f.allocated) (htarget : target < 2 ^ 32) :
    Sat (addChunk k q target) f
      (fun added t => Grown k f t ∧ (added → target ≤ t.allocated)) fun _ t => t = f := by
  simp only [addChunk]
  split
  · refine Sat.bind (sat_fatAddFileAllocation none q.fresh hf hsize htarget) fun _ t ht => ?_
    exact Sat.pure ⟨ht.1, fun _ => ht.2⟩
  · exact Sat.pure ⟨.refl hf hsize, by simp⟩
  · exact Sat.throw rfl

theorem sat_allocateFor (q : WriteRequest) {fileSize : ℕ} (hf : f.Allocated k)
    (hsize : f.fileSize ≤ f.allocated) (hlt : fileSize < 2 ^ 32) :
    Sat (allocateFor k q fileSize) f (fun _ t => Grown k f t ∧ fileSize ≤ t.allocated)
      fun _ t => Grown k f t := by
  have hsame : Grown k f f := .refl hf hsize
  have hmin (t : File) (ht : Grown k f t) (added : Bool) (hadded : added → fileSize ≤ t.allocated) :
      Sat (if !added then fatAddFileAllocation k q.addFault q.fresh fileSize else pure ()) t
        (fun _ u => Grown k f u ∧ fileSize ≤ u.allocated) fun _ u => Grown k f u := by
    split
    · refine (sat_fatAddFileAllocation q.addFault q.fresh ht.toAllocated
        (ht.fileSize ▸ ht.size) hlt).mono (fun _ u hu => ⟨ht.trans hu.1, hu.2⟩) ?_
      rintro _ u rfl
      exact ht
    · rename_i hnot
      exact Sat.pure ⟨ht, hadded (by simpa using hnot)⟩
  simp only [allocateFor]
  apply Sat.get_bind
  split
  · rename_i hless
    split
    · rename_i target htarget
      have hspec : fileSize ≤ target ∧ target < 2 ^ 32 := by
        split at htarget
        · simp at htarget
        · exact chunkTarget_spec hless hlt htarget
      have hchunk : Sat (addChunk k q target) f
          (fun added t => Grown k f t ∧ (added → target ≤ t.allocated)) fun _ t => Grown k f t := by
        refine (sat_addChunk q hf hsize hspec.2).mono (fun _ _ h => h) ?_
        rintro _ t rfl
        exact hsame
      refine Sat.bind hchunk ?_
      intro added t ht
      exact hmin t ht.1 added fun h => hspec.1.trans (ht.2 h)
    · exact hmin f hsame false (by simp)
  · rename_i hge
    exact Sat.pure ⟨hsame, Nat.le_of_not_lt hge⟩

/-! ## Writes -/

/-- The file in the body of a write that makes it `fileSize` bytes long. -/
structure Written (k : Site) (f₀ : File) (fileSize : ℕ) (t : File) : Prop extends t.Allocated k where
  fileSize_eq : t.fileSize = fileSize
  validDataLength : t.validDataLength = f₀.validDataLength
  size : fileSize ≤ t.allocated
  toDisk : t.validDataToDisk ≤ fileSize

/-- What the unwind of a write that ends at `fin` needs. -/
structure Undoable (k : Site) (f₀ : File) (fin : ℕ) (t : File) : Prop extends t.Allocated k where
  size : f₀.fileSize ≤ t.allocated
  toDisk : t.validDataToDisk ≤ f₀.fileSize
  same : fin ≤ f₀.fileSize → fin ≤ f₀.validDataLength →
    t.fileSize = f₀.fileSize ∧ t.validDataLength = f₀.validDataLength

theorem Grown.undoable {f₀ t : File} (h : Grown k f₀ t) (hf : f₀.Ordered) (fin : ℕ) :
    Undoable k f₀ fin t :=
  ⟨h.toAllocated, h.size, h.validDataToDisk ▸ hf.toDisk, fun _ _ => ⟨h.fileSize, h.validDataLength⟩⟩

/-- The size of the file behind a write that ends at `fin`. -/
theorem Written.undoable {f₀ t : File} {fin : ℕ} (h : Written k f₀ (max f₀.fileSize fin) t)
    (hd : t.validDataToDisk ≤ f₀.fileSize) : Undoable k f₀ fin t := by
  refine ⟨h.toAllocated, (le_max_left _ _).trans h.size, hd, ?_⟩
  intro hfin _
  rw [h.fileSize_eq, max_eq_left hfin]
  exact ⟨rfl, h.validDataLength⟩

theorem Written.store {f₀ t : File} {fileSize : ℕ} (h : Written k f₀ fileSize t) (first count : ℕ)
    (reached : ℕ → Bool) (data : ℕ → UInt8) :
    Written k f₀ fileSize (t.store first count reached data) :=
  ⟨⟨h.known, h.chain⟩, h.fileSize_eq, h.validDataLength, h.size, h.toDisk⟩

theorem sat_extendFile (q : WriteRequest) {fin : ℕ} (hf : f.Sound k)
    (hchain : f.allocationSize = none → f.fileSize ≤ f.chainSize) (hext : f.fileSize < fin)
    (hlt : fin < 2 ^ 32) :
    Sat (extendFile k q (max f.fileSize fin)) f
      (fun _ t => Written k f (max f.fileSize fin) t ∧ t.validDataToDisk = f.validDataToDisk ∧
        t.allocationSize ≠ none)
      fun _ t => Undoable k f fin t := by
  rw [max_eq_right hext.le]
  have hrest (t : File) (ht : Grown k f t) (hsome : t.allocationSize ≠ none) : Sat (do
      allocateFor k q fin
      modify fun f => { f with fileSize := fin }
      if q.cached && q.sizesFault then throw ()) t
      (fun _ t => Written k f fin t ∧ t.validDataToDisk = f.validDataToDisk ∧
        t.allocationSize ≠ none)
      fun _ t => Undoable k f fin t := by
    have hall : Sat (allocateFor k q fin) t
        (fun _ u => Grown k f u ∧ fin ≤ u.allocated ∧ u.allocationSize ≠ none)
        fun _ u => Undoable k f fin u := by
      refine (sat_allocateFor q ht.toAllocated (ht.fileSize ▸ ht.size) hlt).mono ?_ ?_
      · intro _ u hu
        exact ⟨ht.trans hu.1, hu.2, hu.1.stays hsome⟩
      · intro _ u hu
        exact (ht.trans hu).undoable hf.toOrdered fin
    refine Sat.bind hall ?_
    intro _ u hu
    have hd : u.validDataToDisk ≤ f.fileSize := hu.1.validDataToDisk ▸ hf.toDisk
    apply Sat.modify_bind
    split
    · refine Sat.throw ⟨⟨hu.1.known, hu.1.chain⟩, hu.1.size, hd, ?_⟩
      intro hle
      exact absurd hle (Nat.not_le_of_lt hext)
    · exact Sat.pure ⟨⟨⟨hu.1.known, hu.1.chain⟩, rfl, hu.1.validDataLength, hu.2.1,
        hd.trans hext.le⟩, hu.1.validDataToDisk, hu.2.2⟩
  simp only [extendFile]
  apply Sat.get_bind
  split
  · rename_i hnone
    have hlook : Sat (fatLookupFileAllocationSize q.lookupFault) f
        (fun _ t => Grown k f t ∧ t.allocationSize ≠ none) fun _ t => Undoable k f fin t :=
      (sat_fatLookupFileAllocationSize q.lookupFault hf (hchain hnone)).mono (fun _ _ h => h)
        fun _ _ h => h.undoable hf.toOrdered fin
    exact Sat.bind hlook fun _ t ht => hrest t ht.1 ht.2
  · exact hrest f hf.grown (by assumption)

/-- The marks at the end of the body of a write: only a transfer to disk that is done has moved
`ValidDataToDisk`. -/
def Body (k : Site) (f₀ : File) (q : WriteRequest) (fin : ℕ) (exit : Exit) (t : File) : Prop :=
  Written k f₀ (max f₀.fileSize fin) t ∧
    ((∃ n, exit = .done n) ∧ q.nonCached ∨ t.validDataToDisk = f₀.validDataToDisk)

variable {f₀ : File} {q : WriteRequest} {start : ℕ}

theorem sat_fatNonCachedIo (hf : f₀.Ordered) (bytesToWrite : ℕ) (hq : q.nonCached)
    (ht : Written k f₀ (max f₀.fileSize (start + q.count)) f)
    (hd : f.validDataToDisk = f₀.validDataToDisk) :
    Sat (fatNonCachedIo q f₀ start (max f₀.fileSize (start + q.count)) bytesToWrite) f
      (Body k f₀ q (start + q.count)) fun _ t => Undoable k f₀ (start + q.count) t := by
  have hd0 : f.validDataToDisk ≤ f₀.fileSize := hd ▸ hf.toDisk
  simp only [fatNonCachedIo]
  split
  · exact Sat.modify_bind (Sat.throw ((ht.store _ _ _ _).undoable hd0))
  · apply Sat.modify_bind
    split
    · exact Sat.pure ⟨ht.store _ _ _ _, .inr hd⟩
    · apply Sat.modify_bind
      have hw := ht.store start bytesToWrite (fun _ => true) q.data
      refine Sat.pure ⟨⟨⟨hw.known, hw.chain⟩, hw.fileSize_eq, hw.validDataLength, hw.size, ?_⟩,
        .inl ⟨⟨_, rfl⟩, hq⟩⟩
      exact max_le hw.toDisk (min_le_right _ _)

theorem sat_fatZeroData (hf : f₀.Ordered) (a b : ℕ)
    (ht : Written k f₀ (max f₀.fileSize (start + q.count)) f)
    (hd : f.validDataToDisk = f₀.validDataToDisk) :
    Sat (fatZeroData k q a b) f
      (fun _ t => Written k f₀ (max f₀.fileSize (start + q.count)) t ∧
        t.validDataToDisk = f₀.validDataToDisk)
      fun _ t => Undoable k f₀ (start + q.count) t := by
  have hd0 : f.validDataToDisk ≤ f₀.fileSize := hd ▸ hf.toDisk
  simp only [fatZeroData]
  split
  · exact Sat.pure ⟨ht, hd⟩
  · split
    · exact Sat.modify_bind (Sat.throw ((ht.store _ _ _ _).undoable hd0))
    · exact Sat.modify ⟨ht.store _ _ _ _, hd⟩

theorem sat_nonCachedWrite (hf : f₀.Ordered) (hq : q.nonCached)
    (ht : Written k f₀ (max f₀.fileSize (start + q.count)) f)
    (hd : f.validDataToDisk = f₀.validDataToDisk) :
    Sat (nonCachedWrite k q f₀ start (max f₀.fileSize (start + q.count))) f
      (Body k f₀ q (start + q.count)) fun _ t => Undoable k f₀ (start + q.count) t := by
  simp only [nonCachedWrite]
  split
  · exact Sat.pure ⟨ht, .inr hd⟩
  · split
    · refine Sat.bind (sat_fatZeroData hf _ _ ht hd) ?_
      intro _ t htd
      exact sat_fatNonCachedIo hf _ hq htd.1 htd.2
    · exact sat_fatNonCachedIo hf _ hq ht hd

/-- Cached writes leave `ValidDataToDisk` alone. -/
def Cached (k : Site) (f₀ : File) (fin : ℕ) (t : File) : Prop :=
  Written k f₀ (max f₀.fileSize fin) t ∧ t.validDataToDisk = f₀.validDataToDisk

theorem Cached.undoable {fin : ℕ} (h : Cached k f₀ fin f) (hf : f₀.Ordered) :
    Undoable k f₀ fin f :=
  h.1.undoable (h.2 ▸ hf.toDisk)

theorem sat_initializeCacheMap {fin : ℕ} (hf : f₀.Ordered) (ht : Cached k f₀ fin f)
    (hchain : f.allocationSize = none → max f₀.fileSize fin ≤ f.chainSize) :
    Sat (initializeCacheMap q (max f₀.fileSize fin)) f (fun _ t => Cached k f₀ fin t)
      fun _ t => Undoable k f₀ fin t := by
  have hrest (t : File) (ht : Cached k f₀ fin t) : Sat (do
      if (← get).allocated < max f₀.fileSize fin then throw ()
      if q.mapFault then throw () : SizeM Unit) t (fun _ t => Cached k f₀ fin t)
      fun _ t => Undoable k f₀ fin t := by
    have hundo := ht.undoable hf
    apply Sat.get_bind
    dsimp only
    split
    · exact hundo
    · split
      · exact hundo
      · exact Sat.pure ht
  simp only [initializeCacheMap]
  apply Sat.get_bind
  split
  · rename_i hnone
    have hsound : f.Sound k := by
      refine ⟨⟨?_, ?_, ?_⟩, ht.1.toAllocated⟩
      · rw [ht.1.validDataLength, ht.1.fileSize_eq]
        exact hf.valid.trans (le_max_left _ _)
      · rw [ht.1.fileSize_eq]
        exact ht.1.size
      · rw [ht.1.fileSize_eq]
        exact ht.1.toDisk
    have hgrown (t : File) (hg : Grown k f t) : Cached k f₀ fin t := by
      refine ⟨⟨hg.toAllocated, hg.fileSize.trans ht.1.fileSize_eq,
        hg.validDataLength.trans ht.1.validDataLength, ?_, ?_⟩, hg.validDataToDisk.trans ht.2⟩
      · rw [← ht.1.fileSize_eq]
        exact hg.size
      · rw [hg.validDataToDisk]
        exact ht.1.toDisk
    have hlook : Sat (fatLookupFileAllocationSize q.lookupFault) f (fun _ t => Cached k f₀ fin t)
        fun _ t => Undoable k f₀ fin t := by
      refine (sat_fatLookupFileAllocationSize q.lookupFault hsound ?_).mono ?_ ?_
      · rw [ht.1.fileSize_eq]
        exact hchain hnone
      · intro _ t hg
        exact hgrown t hg.1
      · intro _ t hg
        exact (hgrown t hg).undoable hf
    exact Sat.bind hlook fun _ t ht => hrest t ht
  · exact hrest f ht

theorem sat_cachedWrite (hf : f₀.Ordered) (ht : Cached k f₀ (start + q.count) f)
    (hchain : f.allocationSize = none → max f₀.fileSize (start + q.count) ≤ f.chainSize) :
    Sat (cachedWrite k q f₀ start (max f₀.fileSize (start + q.count))) f
      (Body k f₀ q (start + q.count)) fun _ t => Undoable k f₀ (start + q.count) t := by
  have hbody (t : File) (ht : Cached k f₀ (start + q.count) t) (e : Exit) :
      Body k f₀ q (start + q.count) e t := ⟨ht.1, .inr ht.2⟩
  have hrest (t : File) (ht : Cached k f₀ (start + q.count) t) (zero : ZeroIo) :
      Sat (cachedIo q zero) t (Body k f₀ q (start + q.count))
        fun _ t => Undoable k f₀ (start + q.count) t := by
    have hundo := ht.undoable hf
    cases zero with
    | failed => exact hundo
    | cannotWait => exact hbody t ht _
    | done =>
        simp only [cachedIo]
        cases q.cacheIo with
        | copied => exact hbody t ht _
        | prepared n => exact hbody t ht _
        | refused => exact hbody t ht _
        | cannotWait => exact hbody t ht _
        | failed => exact hundo
  simp only [cachedWrite]
  split
  · exact Sat.bind (sat_initializeCacheMap hf ht hchain) fun _ t ht => hrest t ht _
  · exact hrest f ht _

/-- A step behind the transfer raises. -/
def WriteRequest.LateFault (q : WriteRequest) : Prop :=
  q.direntFault ∨ (q.cached ∧ q.lateSizesFault) ∨ q.unpinFault

/-- The body has come to its end. -/
theorem Written.sound {fileSize : ℕ} (h : Written k f₀ fileSize f) (hf : f₀.Ordered)
    (hle : f₀.fileSize ≤ fileSize) : f.Sound k where
  toAllocated := h.toAllocated
  valid := by
    rw [h.validDataLength, h.fileSize_eq]
    exact hf.valid.trans hle
  size := by
    rw [h.fileSize_eq]
    exact h.size
  toDisk := by
    rw [h.fileSize_eq]
    exact h.toDisk

theorem sat_complete {exit : Exit} (hf : f₀.Ordered) (ht : Body k f₀ q (start + q.count) exit f)
    (hlate : q.nonCached → f₀.fileSize < start + q.count → ¬ q.LateFault) :
    Sat (complete q f₀ start (max f₀.fileSize (start + q.count)) exit) f
      (fun _ t => t.Sound k) fun _ t => Undoable k f₀ (start + q.count) t := by
  obtain ⟨hw, hd⟩ := ht
  have hsound := hw.sound hf (le_max_left _ _)
  -- when a late step raises, the write did not extend the file or was cached
  have hundo (hfault : q.LateFault) : Undoable k f₀ (start + q.count) f := by
    refine hw.undoable ?_
    rcases hd with ⟨-, hq⟩ | hd
    · have hnot : ¬ f₀.fileSize < start + q.count := fun hext => hlate hq hext hfault
      have htoDisk := hw.toDisk
      rwa [max_eq_left (Nat.le_of_not_lt hnot)] at htoDisk
    · rw [hd]
      exact hf.toDisk
  cases exit with
  | done n =>
      simp only [complete]
      split
      · rename_i hfault
        exact hundo (.inl hfault.2.2)
      · split
        · rename_i hext
          have hmoved : File.Sound k { f with
              validDataLength := min (max f₀.fileSize (start + q.count)) (start + n) } :=
            ⟨⟨hw.fileSize_eq.symm ▸ min_le_left _ _, hsound.size, hsound.toDisk⟩,
              ⟨hsound.known, hsound.chain⟩⟩
          have hback (hfault : q.LateFault) : Undoable k f₀ (start + q.count) { f with
              validDataLength := min (max f₀.fileSize (start + q.count)) (start + n) } := by
            refine ⟨⟨hsound.known, hsound.chain⟩, (hundo hfault).size, (hundo hfault).toDisk, ?_⟩
            intro _ hle
            exact absurd hext (Nat.not_lt_of_le hle)
          apply Sat.modify_bind
          split
          · rename_i hfault
            exact hback (.inr (.inl hfault.2))
          · split
            · rename_i hfault
              exact hback (.inr (.inr hfault))
            · exact Sat.pure hmoved
        · split
          · rename_i hfault
            exact hundo (.inr (.inr hfault))
          · exact Sat.pure hsound
  | refused =>
      simp only [complete]
      split
      · rename_i hfault
        exact hundo (.inr (.inr hfault))
      · exact Sat.pure hsound
  | post =>
      have hsame : f.validDataToDisk = f₀.validDataToDisk := by
        rcases hd with ⟨⟨n, hn⟩, -⟩ | hd
        · simp at hn
        · exact hd
      simp only [complete]
      split
      · rename_i hfault
        exact hundo (.inr (.inr hfault))
      · split
        · refine Sat.modify_bind (Sat.pure ⟨⟨?_, ?_, ?_⟩, ⟨hsound.known, hsound.chain⟩⟩)
          · exact hw.validDataLength ▸ hf.valid
          · exact (le_max_left _ _).trans hw.size
          · exact hsame ▸ hf.toDisk
        · exact Sat.pure hsound
  | pending => exact Sat.pure hsound

/-- What a write needs. -/
structure WriteRequest.Clean (q : WriteRequest) (f : File) : Prop where
  chain : f.allocationSize = none → f.fileSize ≤ f.chainSize
  late : q.nonCached → f.fileSize < (if q.toEof then f.fileSize else q.start) + q.count →
    ¬ q.LateFault

theorem sat_writeAt (hf : f.Sound k) (hlt : start + q.count < 2 ^ 32)
    (hchain : f.allocationSize = none → f.fileSize ≤ f.chainSize)
    (hlate : q.nonCached → f.fileSize < start + q.count → ¬ q.LateFault) :
    Sat (writeAt k q f start) f (fun _ t => t.Sound k)
      fun _ t => Undoable k f (start + q.count) t := by
  have hbody (t : File) (ht : Cached k f (start + q.count) t)
      (htc : t.allocationSize = none → max f.fileSize (start + q.count) ≤ t.chainSize) :
      Sat (do
        let exit ← if q.nonCached then nonCachedWrite k q f start (max f.fileSize (start + q.count))
          else cachedWrite k q f start (max f.fileSize (start + q.count))
        complete q f start (max f.fileSize (start + q.count)) exit) t (fun _ t => t.Sound k)
        fun _ t => Undoable k f (start + q.count) t := by
    dsimp only
    split
    · rename_i hq
      exact Sat.bind (sat_nonCachedWrite hf.toOrdered hq ht.1 ht.2) fun e u hu =>
        sat_complete hf.toOrdered hu hlate
    · exact Sat.bind (sat_cachedWrite hf.toOrdered ht htc) fun e u hu =>
        sat_complete hf.toOrdered hu hlate
  simp only [writeAt]
  split
  · rename_i hext
    refine Sat.bind (sat_extendFile q hf hchain hext hlt) ?_
    intro _ t ht
    exact hbody t ⟨ht.1, ht.2.1⟩ fun hnone => absurd hnone ht.2.2
  · rename_i hnot
    have hmax : max f.fileSize (start + q.count) = f.fileSize := max_eq_left (Nat.le_of_not_lt hnot)
    refine hbody f ⟨⟨hf.toAllocated, hmax.symm, rfl, ?_, ?_⟩, rfl⟩ ?_
    · rw [hmax]
      exact hf.size
    · rw [hmax]
      exact hf.toDisk
    · intro hnone
      rw [hmax]
      exact hchain hnone

theorem sat_unwindWrite (hf : f₀.Ordered) (ht : Undoable k f₀ (start + q.count) f) :
    Sat (unwindWrite q f₀ start) f (fun _ t => t.Sound k) fun _ t => t.Sound k := by
  simp only [unwindWrite]
  split
  · exact Sat.modify ⟨⟨hf.valid, ht.size, ht.toDisk⟩, ⟨ht.known, ht.chain⟩⟩
  · rename_i hnot
    obtain ⟨hsize, hvalid⟩ := ht.same (by omega) (by omega)
    refine Sat.pure ⟨⟨?_, ?_, ?_⟩, ht.toAllocated⟩
    · rw [hsize, hvalid]
      exact hf.valid
    · rw [hsize]
      exact ht.size
    · rw [hsize]
      exact ht.toDisk

theorem sat_fatCommonWrite (hf : f.Sound k) (hq : q.Clean f) :
    Sat (fatCommonWrite k q) f (fun _ t => t.Sound k) fun _ t => t.Sound k := by
  have hfrom : Sat (writeFrom k q f (if q.toEof then f.fileSize else q.start)) f
      (fun _ t => t.Sound k) fun _ t => t.Sound k := by
    have hlate := hq.late
    generalize (if q.toEof then f.fileSize else q.start) = start at hlate ⊢
    simp only [writeFrom]
    split
    · exact hf
    · rename_i hrange
      split
      · exact hf
      · apply Sat.protect
        refine (sat_writeAt hf (not_not.mp hrange).2 hq.chain hlate).mono (fun _ _ h => h) ?_
        intro _ t ht
        exact sat_unwindWrite hf.toOrdered ht
  simp only [fatCommonWrite]
  split
  · exact Sat.pure hf
  · split
    · exact Sat.pure hf
    · split
      · exact hf
      · exact Sat.get_bind hfrom

/-! ## Changes of the sizes -/

/-- A file that has lost allocation, but not below its size. -/
theorem sat_restoreSizes (hf : f₀.Ordered) (ht : f.Allocated k) (hsize : f₀.fileSize ≤ f.allocated) :
    Sat (restoreSizes f₀) f (fun _ t => t.Sound k) fun _ t => t.Sound k :=
  Sat.modify ⟨⟨hf.valid, hsize, hf.toDisk⟩, ⟨ht.known, ht.chain⟩⟩

theorem sat_changeFileSize (q : EofRequest) (hf : f.Sound k) (hsize : q.endOfFile ≤ f.allocated) :
    Sat (changeFileSize q) f (fun _ t => t.Sound k)
      fun _ t => t.Allocated k ∧ f.fileSize ≤ t.allocated := by
  simp only [changeFileSize]
  apply Sat.modify_bind
  split
  · exact Sat.throw ⟨⟨hf.known, hf.chain⟩, hf.size⟩
  · exact Sat.pure ⟨⟨min_le_right _ _, hsize, min_le_right _ _⟩, ⟨hf.known, hf.chain⟩⟩

theorem sat_setEndOfFile (q : EofRequest) (hf : f.Sound k) (hrange : rangeValid q.endOfFile 0) :
    Sat (setEndOfFile k q) f (fun _ t => t.Sound k) fun _ t => t.Sound k := by
  have hadd : Sat (fatAddFileAllocation k q.addFault q.fresh q.endOfFile) f
      (fun _ t => t.Sound k ∧ q.endOfFile ≤ t.allocated) fun _ t => t.Sound k := by
    refine (sat_fatAddFileAllocation q.addFault q.fresh hf.toAllocated hf.size hrange.1).mono ?_ ?_
    · intro _ t ht
      exact ⟨ht.1.sound hf.toOrdered, ht.2⟩
    · intro _ t ht
      rw [ht]
      exact hf
  simp only [setEndOfFile]
  refine Sat.bind hadd ?_
  intro _ t ht
  apply Sat.get_bind
  split
  · split
    · exact ht.1
    · exact Sat.pure ht.1
  · split
    · exact Sat.pure ht.1
    · apply Sat.protect
      refine (sat_changeFileSize q ht.1 ht.2).mono (fun _ _ h => h) ?_
      intro _ u hu
      exact sat_restoreSizes ht.1.toOrdered hu.1 hu.2

theorem sat_lookup_sound (fault : Bool) (hf : f.Sound k) (hchain : f.fileSize ≤ f.chainSize) :
    Sat (fatLookupFileAllocationSize fault) f
      (fun _ t => t.Sound k) fun _ t => t.Sound k :=
  (sat_fatLookupFileAllocationSize fault hf hchain).mono (fun _ _ h => h.1.sound hf.toOrdered)
    fun _ _ h => h.sound hf.toOrdered

theorem sat_fatSetEndOfFileInfo (q : EofRequest) (hf : f.Sound k)
    (hchain : f.allocationSize = none → f.fileSize ≤ f.chainSize) :
    Sat (fatSetEndOfFileInfo k q) f (fun _ t => t.Sound k) fun _ t => t.Sound k := by
  have hrest (t : File) (ht : t.Sound k) (hrange : rangeValid q.endOfFile 0) :
      Sat (advanceOrSet k q) t (fun _ t => t.Sound k) fun _ t => t.Sound k := by
    simp only [advanceOrSet]
    split
    · exact ht
    · split
      · split
        · exact ht
        · exact Sat.pure ht
      · exact sat_setEndOfFile q ht hrange
  simp only [fatSetEndOfFileInfo]
  split
  · exact Sat.pure hf
  · rename_i hrange
    apply Sat.get_bind
    split
    · rename_i hnone
      refine Sat.bind (sat_lookup_sound q.lookupFault hf (hchain hnone.1)) ?_
      intro _ t ht
      exact hrest t ht (not_not.mp hrange)
    · exact hrest f hf (not_not.mp hrange)

/-- A truncation leaves at least what was asked for.  When it raises the allocation is as it was,
unless it goes down to zero and the clusters are not given back. -/
theorem sat_fatTruncateFileAllocation (fault : Option TruncateFault) {desired : ℕ}
    (hf : f.Allocated k) (hle : desired ≤ f.allocated) :
    Sat (fatTruncateFileAllocation k fault desired) f
      (fun _ t => t.Allocated k ∧ desired ≤ t.allocated ∧ t.fileSize = f.fileSize ∧
        t.validDataLength = f.validDataLength ∧ t.validDataToDisk = f.validDataToDisk)
      fun _ t => t = f ∨ desired = 0 ∧ fault = some .deallocate ∧
        t = { f with allocationSize := some 0 } := by
  have hsame : f.Allocated k ∧ desired ≤ f.allocated ∧ f.fileSize = f.fileSize ∧
      f.validDataLength = f.validDataLength ∧ f.validDataToDisk = f.validDataToDisk :=
    ⟨hf, hle, rfl, rfl, rfl⟩
  have hsize : (if desired = 0 then 0 else align k.bytesPerCluster desired) = 0 ∧ desired ≠ 0 ∨
      SizeOk k (if desired = 0 then 0 else align k.bytesPerCluster desired) ∧
        desired ≤ (if desired = 0 then 0 else align k.bytesPerCluster desired) ∧
        ((if desired = 0 then 0 else align k.bytesPerCluster desired) = 0 → desired = 0) := by
    by_cases h0 : desired = 0
    · simp [h0, SizeOk]
    · have hlt : desired < 2 ^ 32 := hle.trans_lt hf.ok.1
      rw [if_neg h0]
      rcases align_cases k.cluster_pos k.cluster_dvd hlt with h | h
      · exact .inr ⟨⟨h.2.2, .inl (dvd_align _ _)⟩, h.1, by omega⟩
      · exact .inl ⟨h.1, h0⟩
  simp only [fatTruncateFileAllocation]
  apply Sat.get_bind
  generalize (if desired = 0 then 0 else align k.bytesPerCluster desired) = size at hsize ⊢
  split
  · exact hsame
  · rename_i hbig
    split
    · exact hsame
    · obtain ⟨hok, hless, hzero⟩ : SizeOk k size ∧ desired ≤ size ∧ (size = 0 → desired = 0) := by
        rcases hsize with h | h
        · exact absurd ⟨h.2, .inl h.1⟩ hbig
        · exact h
      split
      · refine ⟨⟨?_, hf.chain⟩, hless, rfl, rfl, rfl⟩
        intro n hn
        obtain rfl := Option.some.inj hn
        exact hok
      · exact Sat.throw (.inl rfl)
      · split
        · rename_i hz
          exact Sat.bind (Sat.modify (.inr ⟨hzero hz, rfl, rfl⟩)) fun _ _ h => Sat.throw h
        · exact Sat.throw (.inl rfl)

/-- What a change of the allocation needs: behind the point where the size of the file is down, the
clusters are given back and the cache manager takes the sizes. -/
structure AllocationRequest.Clean (q : AllocationRequest) (f : File) : Prop where
  chain : f.allocationSize = none → f.fileSize ≤ f.chainSize
  undone : q.allocationSize < f.fileSize →
    !q.sizesFault ∧ (q.allocationSize = 0 → q.truncateFault ≠ some .deallocate)

theorem sat_truncateFile {q : AllocationRequest} (hf : f.Sound k)
    (hle : q.allocationSize ≤ f.allocated) (hsizes : !q.sizesFault)
    (hfault : q.allocationSize = 0 → q.truncateFault ≠ some .deallocate) :
    Sat (truncateFile k q) f (fun _ t => t.Sound k)
      fun _ t => t.Allocated k ∧ f.fileSize ≤ t.allocated := by
  have hshort : File.Allocated k { f with
      fileSize := q.allocationSize
      validDataLength := min f.validDataLength q.allocationSize
      validDataToDisk := min f.validDataToDisk q.allocationSize } := ⟨hf.known, hf.chain⟩
  have hdown : Sat (fatTruncateFileAllocation k q.truncateFault q.allocationSize)
      { f with
        fileSize := q.allocationSize
        validDataLength := min f.validDataLength q.allocationSize
        validDataToDisk := min f.validDataToDisk q.allocationSize }
      (fun _ t => t.Sound k) fun _ t => t.Allocated k ∧ f.fileSize ≤ t.allocated := by
    refine (sat_fatTruncateFileAllocation q.truncateFault hshort hle).mono ?_ ?_
    · intro _ t ht
      obtain ⟨halloc, hsize, hfs, hvdl, hvdd⟩ := ht
      refine ⟨⟨?_, ?_, ?_⟩, halloc⟩
      · rw [hfs, hvdl]
        exact min_le_right _ _
      · rw [hfs]
        exact hsize
      · rw [hfs, hvdd]
        exact min_le_right _ _
    · intro _ t ht
      rcases ht with rfl | ⟨hzero, hdealloc, -⟩
      · exact ⟨⟨hf.known, hf.chain⟩, hf.size⟩
      · exact absurd hdealloc (hfault hzero)
  simp only [truncateFile]
  refine Sat.modify_bind (Sat.bind hdown ?_)
  intro _ t ht
  rw [if_neg (by simpa using hsizes)]
  exact Sat.pure ht

theorem sat_changeAllocation {q : AllocationRequest} (hf : f.Sound k)
    (hrange : rangeValid q.allocationSize 0)
    (hq : q.allocationSize < f.fileSize →
      !q.sizesFault ∧ (q.allocationSize = 0 → q.truncateFault ≠ some .deallocate)) :
    Sat (changeAllocation k q) f (fun _ t => t.Sound k) fun _ t => t.Sound k := by
  simp only [changeAllocation]
  apply Sat.get_bind
  split
  · have hadd : Sat (fatAddFileAllocation k q.addFault q.fresh q.allocationSize) f
        (fun _ t => t.Sound k) fun _ t => t.Sound k := by
      refine (sat_fatAddFileAllocation q.addFault q.fresh hf.toAllocated hf.size hrange.1).mono ?_ ?_
      · intro _ t ht
        exact ht.1.sound hf.toOrdered
      · intro _ t ht
        rw [ht]
        exact hf
    exact Sat.bind hadd fun _ t ht => Sat.pure ht
  · rename_i hle
    have hle := Nat.le_of_not_lt hle
    split
    · rename_i hless
      split
      · exact Sat.pure hf
      · obtain ⟨hsizes, hfault⟩ := hq hless
        have htrunc : Sat (protect (fun _ => true) (restoreSizes f) (truncateFile k q)) f
            (fun _ t => t.Sound k) fun _ t => t.Sound k := by
          apply Sat.protect
          refine (sat_truncateFile hf hle hsizes hfault).mono (fun _ _ h => h) ?_
          intro _ t ht
          exact sat_restoreSizes hf.toOrdered ht.1 ht.2
        refine Sat.bind htrunc ?_
        intro _ t ht
        split
        · exact ht
        · exact Sat.pure ht
    · rename_i hnot
      have htrunc : Sat (fatTruncateFileAllocation k q.truncateFault q.allocationSize) f
          (fun _ t => t.Sound k) fun _ t => t.Sound k := by
        refine (sat_fatTruncateFileAllocation q.truncateFault hf.toAllocated hle).mono ?_ ?_
        · intro _ t ht
          obtain ⟨halloc, hsize, hfs, hvdl, hvdd⟩ := ht
          refine ⟨⟨?_, ?_, ?_⟩, halloc⟩
          · rw [hfs, hvdl]
            exact hf.valid
          · rw [hfs]
            exact (Nat.le_of_not_lt hnot).trans hsize
          · rw [hfs, hvdd]
            exact hf.toDisk
        · intro _ t ht
          rcases ht with rfl | ⟨hzero, -, rfl⟩
          · exact hf
          · have hempty : f.fileSize ≤ 0 := by omega
            refine ⟨⟨hf.valid, hempty, hf.toDisk⟩, ⟨?_, hf.chain⟩⟩
            intro n hn
            obtain rfl := Option.some.inj hn
            exact ⟨by omega, .inl (dvd_zero _)⟩
      exact Sat.bind htrunc fun _ t ht => Sat.pure ht

theorem sat_fatSetAllocationInfo {q : AllocationRequest} (hf : f.Sound k) (hq : q.Clean f) :
    Sat (fatSetAllocationInfo k q) f (fun _ t => t.Sound k) fun _ t => t.Sound k := by
  have hrest (t : File) (ht : t.Sound k) (hsize : t.fileSize = f.fileSize)
      (hrange : rangeValid q.allocationSize 0) :
      Sat (if q.mapFault then throw () else changeAllocation k q : SizeM Outcome) t
        (fun _ t => t.Sound k) fun _ t => t.Sound k := by
    split
    · exact ht
    · exact sat_changeAllocation ht hrange (hsize ▸ hq.undone)
  simp only [fatSetAllocationInfo]
  split
  · exact Sat.pure hf
  · rename_i hrange
    apply Sat.get_bind
    split
    · rename_i hnone
      have hlook : Sat (fatLookupFileAllocationSize q.lookupFault) f
          (fun _ t => t.Sound k ∧ t.fileSize = f.fileSize) fun _ t => t.Sound k :=
        (sat_fatLookupFileAllocationSize q.lookupFault hf (hq.chain hnone)).mono
          (fun _ _ h => ⟨h.1.sound hf.toOrdered, h.1.fileSize⟩) fun _ _ h => h.sound hf.toOrdered
      refine Sat.bind hlook ?_
      intro _ t ht
      exact Sat.of_eq (by cases q.mapFault <;> rfl) (hrest t ht.1 ht.2 (not_not.mp hrange))
    · exact Sat.of_eq (by cases q.mapFault <;> rfl) (hrest f hf rfl (not_not.mp hrange))

theorem sat_fatSetValidDataLengthInfo (q : ValidDataRequest) (hf : f.Sound k) :
    Sat (fatSetValidDataLengthInfo q) f (fun _ t => t.Sound k) fun _ t => t.Sound k := by
  simp only [fatSetValidDataLengthInfo]
  split
  · exact Sat.pure hf
  · apply Sat.get_bind
    split
    · exact Sat.pure hf
    · rename_i hbetween
      split
      · exact Sat.pure hf
      · have hle : q.validDataLength ≤ f.fileSize := by omega
        have hmoved : File.Sound k { f with
            validDataLength := q.validDataLength
            validDataToDisk := q.validDataLength } :=
          ⟨⟨hle, hf.size, hle⟩, ⟨hf.known, hf.chain⟩⟩
        apply Sat.set_bind
        split
        · exact hmoved
        · exact Sat.pure hmoved

end Routines

/-! ## Runs -/

/-- An operation whose unwind puts everything back. -/
def Op.Clean (f : File) : Op → Prop
  | .write q => q.Clean f
  | .endOfFile _ => f.allocationSize = none → f.fileSize ≤ f.chainSize
  | .allocation q => q.Clean f
  | .validData _ => True

theorem fileAfter_of_sat {x : SizeM Outcome} {f : File} {P : File → Prop}
    (h : Sat x f (fun _ t => P t) fun _ t => P t) : P (fileAfter (x f)) := by
  rw [Sat] at h
  cases hx : x f with
  | ok a t => simpa [fileAfter, hx] using h
  | error e t => simpa [fileAfter, hx] using h

theorem sound_step {k : Site} {f : File} {op : Op} (hf : f.Sound k) (hop : op.Clean f) :
    (step k f op).Sound k := by
  cases op with
  | write q => exact fileAfter_of_sat (sat_fatCommonWrite hf hop)
  | endOfFile q => exact fileAfter_of_sat (sat_fatSetEndOfFileInfo q hf hop)
  | allocation q => exact fileAfter_of_sat (sat_fatSetAllocationInfo hf hop)
  | validData q => exact fileAfter_of_sat (sat_fatSetValidDataLengthInfo q hf)

/-- **The marks of a file stay in order** in every run of operations whose unwinds put everything
back. -/
theorem ordered_of_sizeReach {k : Site} {f₀ f : File} (h0 : f₀.Sound k)
    (h : Reach (step k) (fun f op => op.Clean f) f₀ f) : f.Ordered := by
  have hf : f.Sound k := h.invariant h0 fun _ _ hf hop => sound_step hf hop
  exact hf.toOrdered

/-! ## Concrete runs -/

/-- Sectors of 512 bytes and clusters of 4 KB. -/
def smallSite : Site := ⟨512, 4096, by decide, by decide, by decide, by decide⟩

/-- A file of `size` bytes, all of them valid and zero, whose chain has `chain` bytes. -/
def plainFile (size chain : ℕ) (allocationSize : Option ℕ) : File where
  fileSize := size
  validDataLength := size
  validDataToDisk := size
  allocationSize := allocationSize
  chainSize := chain
  disk := fun _ => 0

/-- A write to disk in which nothing fails. -/
def plainWrite (start count : ℕ) : WriteRequest where
  toEof := false
  start := start
  count := count
  data := fun _ => 0x55
  nonCached := true
  early := false
  verifyFault := false
  lookupFault := false
  freeClusters := 1000
  chunkFault := none
  addFault := none
  fresh := fun _ => 0xaa
  cached := false
  sizesFault := false
  cacheMap := false
  mapFault := false
  zero := .done
  reached := fun _ => false
  diskIo := .done
  cacheIo := .copied
  writeThrough := false
  direntFault := false
  lateSizesFault := false
  unpinFault := false

def plainEof (endOfFile : ℕ) : EofRequest :=
  ⟨endOfFile, true, false, false, false, false, none, fun _ => 0xaa, false, false, false, false⟩

def plainAllocation (allocationSize : ℕ) : AllocationRequest :=
  ⟨allocationSize, false, false, none, fun _ => 0xaa, false, none, false, false⟩

theorem plainWrite_clean (start count : ℕ) (f : File) (hf : f.allocationSize ≠ none) :
    Op.Clean f (.write (plainWrite start count)) := by
  refine ⟨fun hnone => absurd hnone hf, ?_⟩
  intro _ _
  simp [WriteRequest.LateFault, plainWrite]

/-- A write, then a file that is cut inside of a sector. -/
theorem ordered_writeThenCut :
    (step smallSite (step smallSite (plainFile 0 0 (some 0)) (.write (plainWrite 0 512)))
      (.endOfFile (plainEof 100))).Ordered ∧
    (step smallSite (step smallSite (plainFile 0 0 (some 0)) (.write (plainWrite 0 512)))
      (.endOfFile (plainEof 100))).fileSize = 100 := by
  have h0 : (plainFile 0 0 (some 0)).Sound smallSite := by
    refine ⟨⟨le_refl _, le_refl _, le_refl _⟩, ⟨?_, by decide, .inl (dvd_zero _)⟩⟩
    intro n hn
    obtain rfl := Option.some.inj hn
    exact ⟨by decide, .inl (dvd_zero _)⟩
  have h1 : Op.Clean (plainFile 0 0 (some 0)) (.write (plainWrite 0 512)) :=
    plainWrite_clean 0 512 _ (by simp [plainFile])
  have h2 : Op.Clean (step smallSite (plainFile 0 0 (some 0)) (.write (plainWrite 0 512)))
      (.endOfFile (plainEof 100)) := by
    intro hnone
    exact absurd hnone (by decide +kernel)
  exact ⟨ordered_of_sizeReach h0 (.next (.next .start h1) h2), by decide +kernel⟩

/-- **`ValidDataToDisk` stays above the size of the file when an extending write raises behind its
transfer, and the size of a file above its allocation when the clusters cannot be given back or the
chain is found to be too short.** -/
theorem not_ordered_lateDirent :
    ((plainFile 0 0 (some 0)).Ordered ∧
      ¬ (step smallSite (plainFile 0 0 (some 0))
        (.write { plainWrite 0 512 with direntFault := true })).Ordered) ∧
    ((plainFile 100 4096 (some 4096)).Ordered ∧
      ¬ (step smallSite (plainFile 100 4096 (some 4096))
        (.allocation { plainAllocation 0 with truncateFault := some .deallocate })).Ordered) ∧
    ((plainFile 5000 4096 none).Ordered ∧
      ¬ (step smallSite (plainFile 5000 4096 none) (.endOfFile (plainEof 6000))).Ordered) := by
  refine ⟨⟨?_, fun h => ?_⟩, ⟨?_, fun h => ?_⟩, ⟨?_, fun h => ?_⟩⟩
  · exact ⟨le_refl _, le_refl _, le_refl _⟩
  · exact absurd h.toDisk (by decide +kernel)
  · exact ⟨le_refl _, by decide +kernel, le_refl _⟩
  · exact absurd h.size (by decide +kernel)
  · exact ⟨le_refl _, by decide +kernel, le_refl _⟩
  · exact absurd h.size (by decide +kernel)

end KernelDrivers.Fat.Sizes
