import KernelDrivers.Fat.SizeRun

/-!
# No stale bytes below `ValidDataLength`

A file that is not cached, with writes of whole sectors and changes of its size.  `Tracked` carries
beside the file the byte that its user expects at each offset: the last one that was successfully
written there since the offset was last outside of the file, or zero.

## Main definitions

* `Tracked`, `Tracked.step` — the file and what is expected of it.
* `Tracked.Faithful` — the valid bytes on disk are the expected ones.
* `Op.Tidy` — in front of a write beyond the valid data the rest of their last sector is zero.

## Main results

* `noStale_of_trackedReach` — in every run of tidy requests.
* `not_noStale_cutThenExtend` — the file is cut inside of a sector, grows again, and the bytes that
  were cut off are back.
-/

namespace KernelDrivers.Fat.Sizes

/-! ## What is expected -/

/-- A file with the byte that is expected at each offset. -/
structure Tracked where
  file : File
  expected : ℕ → UInt8

/-- `StartingVbo`. -/
def WriteRequest.startingVbo (q : WriteRequest) (f : File) : ℕ :=
  if q.toEof then f.fileSize else q.start

/-- The user was told that the request is done, or is left to the device. -/
def succeeded : EStateM.Result Unit File Outcome → Bool
  | .ok .completed _ => true
  | .ok .pending _ => true
  | _ => false

/-- The byte that a request has successfully written at an offset. -/
def Op.written (k : Site) (f : File) (op : Op) (i : ℕ) : Option UInt8 :=
  match op with
  | .write q =>
      if succeeded (fatCommonWrite k q f) ∧ q.startingVbo f ≤ i ∧ i < q.startingVbo f + q.count then
        some (q.data i)
      else none
  | _ => none

/-- Outside of the file nothing is remembered. -/
def Tracked.step (k : Site) (t : Tracked) (op : Op) : Tracked where
  file := Sizes.step k t.file op
  expected i :=
    if (Sizes.step k t.file op).fileSize ≤ i then 0
    else (op.written k t.file i).getD (t.expected i)

/-- The requests of a user of the file: writes to disk of whole sectors, and changes of the size. -/
def Op.Aligned (k : Site) (f : File) : Op → Prop
  | .write q => q.nonCached ∧ q.cached = false ∧ k.bytesPerSector ∣ q.startingVbo f ∧
      k.bytesPerSector ∣ q.count
  | .endOfFile _ => True
  | .allocation _ => False
  | .validData _ => False

/-- `ValidDataToCheck`. -/
def File.validDataToCheck (f : File) : ℕ := max f.validDataToDisk f.validDataLength

/-- What a write needs: it does not raise behind its transfer, a transfer that fails has left the
valid data alone, and when the write starts beyond them the rest of their last sector is zero. -/
structure WriteRequest.Tidy (k : Site) (q : WriteRequest) (f : File) : Prop extends q.Clean f where
  unpinned : q.unpinFault = false
  torn : q.diskIo = .failed →
    ∀ i, q.startingVbo f ≤ i → i < f.validDataToCheck → q.reached i = false
  tail : f.validDataToCheck < q.startingVbo f →
    ∀ i, f.validDataToCheck ≤ i → i < align k.bytesPerSector f.validDataToCheck → f.disk i = 0

def Op.Tidy (k : Site) (f : File) : Op → Prop
  | .write q => q.Tidy k f
  | op => op.Clean f

/-- The valid bytes on disk are the expected ones, and beyond them nothing is expected. -/
structure Tracked.Faithful (k : Site) (t : Tracked) : Prop extends t.file.Sound k where
  below : ∀ i < t.file.validDataToCheck, t.file.disk i = t.expected i
  above : ∀ i, t.file.validDataToCheck ≤ i → t.expected i = 0

/-! ## Allocation leaves the bytes alone -/

/-- How many bytes have a cluster. -/
def File.backed (f : File) : ℕ := f.allocationSize.getD f.chainSize

/-- The marks and the bytes that have a cluster are as they were. -/
structure Stable (f t : File) : Prop where
  validDataLength : t.validDataLength = f.validDataLength
  validDataToDisk : t.validDataToDisk = f.validDataToDisk
  backed : f.backed ≤ t.backed
  disk : ∀ i < f.backed, t.disk i = f.disk i

namespace Stable

variable {f t u : File}

theorem refl (f : File) : Stable f f := ⟨rfl, rfl, le_rfl, fun _ _ => rfl⟩

theorem trans (h : Stable f t) (h' : Stable t u) : Stable f u where
  validDataLength := h'.validDataLength.trans h.validDataLength
  validDataToDisk := h'.validDataToDisk.trans h.validDataToDisk
  backed := h.backed.trans h'.backed
  disk i hi := (h'.disk i (hi.trans_le h.backed)).trans (h.disk i hi)

end Stable

section Routines

variable {k : Site} {f t : File} {q : WriteRequest}

theorem sat_lookup_stable (fault : Bool) (hf : f.Allocated k) (hnone : f.allocationSize = none) :
    Sat (fatLookupFileAllocationSize fault) f (fun _ t => Stable f t ∧ t.Allocated k)
      fun _ t => Stable f t := by
  have hknown : Stable f { f with allocationSize := some f.chainSize } := by
    refine ⟨rfl, rfl, ?_, fun _ _ => rfl⟩
    simp [File.backed, hnone]
  simp only [fatLookupFileAllocationSize]
  split
  · exact Stable.refl f
  · apply Sat.modify_bind
    apply Sat.get_bind
    split
    · exact Sat.throw hknown
    · refine Sat.pure ⟨hknown, ?_, hf.chain⟩
      intro n hn
      obtain rfl := Option.some.inj hn
      exact hf.chain

/-- New bytes come behind those that have a cluster. -/
theorem sat_add_stable (fault : Option AddFault) (fresh : ℕ → UInt8) {desired : ℕ}
    (hf : f.Allocated k) (hdesired : desired < 2 ^ 32) :
    Sat (fatAddFileAllocation k fault fresh desired) f (fun _ t => Stable f t)
      fun _ t => Stable f t := by
  simp only [fatAddFileAllocation]
  apply Sat.get_bind
  split
  · rename_i hlt
    split
    · exact Stable.refl f
    · have hsize := (allocationFor_spec hf.ok hlt hdesired).1
      have hbacked : f.backed = f.allocated := by
        cases hn : f.allocationSize with
        | none =>
            rw [File.allocated, hn, Option.getD_none] at hlt
            omega
        | some n => simp [File.backed, File.allocated, hn]
      refine ⟨rfl, rfl, ?_, ?_⟩
      · rw [hbacked]
        exact hlt.le.trans hsize
      · intro i hi
        simp only [File.store]
        rw [if_neg (by omega)]
  · exact Sat.pure (Stable.refl f)

theorem sat_addChunk_stable {target : ℕ} (hf : f.Allocated k) (htarget : target < 2 ^ 32) :
    Sat (addChunk k q target) f (fun added t => Stable f t ∧ (added = false → t = f))
      fun _ t => Stable f t := by
  simp only [addChunk]
  split
  · exact Sat.bind (sat_add_stable none q.fresh hf htarget) fun _ t ht => Sat.pure ⟨ht, by simp⟩
  · exact Sat.pure ⟨Stable.refl f, fun _ => rfl⟩
  · exact Sat.throw (Stable.refl f)

theorem sat_allocateFor_stable {fileSize : ℕ} (hf : f.Allocated k) (hlt : fileSize < 2 ^ 32) :
    Sat (allocateFor k q fileSize) f (fun _ t => Stable f t) fun _ t => Stable f t := by
  have hmin := sat_add_stable q.addFault q.fresh hf hlt
  simp only [allocateFor]
  apply Sat.get_bind
  split
  · rename_i hless
    split
    · rename_i target htarget
      have hspec : fileSize ≤ target ∧ target < 2 ^ 32 := by
        split at htarget
        · simp at htarget
        · exact chunkTarget_spec hless hlt htarget
      refine Sat.bind (sat_addChunk_stable hf hspec.2) ?_
      intro added t ht
      cases added with
      | true => exact Sat.pure ht.1
      | false =>
          obtain rfl := ht.2 rfl
          exact hmin
    · exact hmin
  · exact Sat.pure (Stable.refl f)

theorem sat_extendFile_stable {fileSize : ℕ} (hf : f.Allocated k) (hlt : fileSize < 2 ^ 32) :
    Sat (extendFile k q fileSize) f (fun _ t => Stable f t) fun _ t => Stable f t := by
  have hrest (t : File) (hs : Stable f t) (ht : t.Allocated k) : Sat (do
      allocateFor k q fileSize
      modify fun f => { f with fileSize := fileSize }
      if q.cached && q.sizesFault then throw ()) t (fun _ u => Stable f u)
      fun _ u => Stable f u := by
    have hall : Sat (allocateFor k q fileSize) t (fun _ u => Stable f u) fun _ u => Stable f u :=
      (sat_allocateFor_stable ht hlt).mono (fun _ _ h => hs.trans h) fun _ _ h => hs.trans h
    refine Sat.bind hall ?_
    intro _ u hu
    have hsized : Stable f { u with fileSize := fileSize } :=
      ⟨hu.validDataLength, hu.validDataToDisk, hu.backed, hu.disk⟩
    apply Sat.modify_bind
    split
    · exact Sat.throw hsized
    · exact Sat.pure hsized
  simp only [extendFile]
  apply Sat.get_bind
  split
  · rename_i hnone
    exact Sat.bind (sat_lookup_stable q.lookupFault hf hnone) fun _ t ht => hrest t ht.1 ht.2
  · exact hrest f (Stable.refl f) hf

/-! ## The gap and the transfer -/

/-- A sector that ends below four gigabytes. -/
theorem align_le_of_dvd {m n a : ℕ} (hm : 0 < m) (hdvd : m ∣ 2 ^ 32) (ha : m ∣ a) (hna : n ≤ a)
    (hlt : a < 2 ^ 32) : n ≤ align m n ∧ align m n ≤ a := by
  have hroom : a + m ≤ 2 ^ 32 := by
    have hsub := Nat.le_of_dvd (by omega) (Nat.dvd_sub hdvd ha)
    omega
  rcases align_cases hm hdvd (hna.trans_lt hlt) with h | h
  · refine ⟨h.1, ?_⟩
    by_contra hgt
    have hsub := Nat.le_of_dvd (by omega) (Nat.dvd_sub (dvd_align m n) ha)
    omega
  · omega

theorem Site.sector_dvd_limit (k : Site) : k.bytesPerSector ∣ 2 ^ 32 :=
  k.sector_dvd.trans k.cluster_dvd

theorem align_eq_of_dvd {m n : ℕ} (hm : 0 < m) (hdvd : m ∣ 2 ^ 32) (hn : m ∣ n) (hlt : n < 2 ^ 32) :
    align m n = n := by
  have h := align_le_of_dvd hm hdvd hn le_rfl hlt
  omega

theorem File.store_none (f : File) (first : ℕ) (reached : ℕ → Bool) (data : ℕ → UInt8) :
    f.store first 0 reached data = f := by
  have hdisk : (fun i => if first ≤ i ∧ i < first + 0 ∧ reached i then data i else f.disk i) =
      f.disk := by
    funext i
    rw [if_neg (by omega)]
  rw [File.store, hdisk]

/-- The whole sectors between the valid data and the start of the write become zero. -/
theorem sat_fatZeroData_disk {a start : ℕ} (ha : a < start) (hstart : k.bytesPerSector ∣ start)
    (hlt : start < 2 ^ 32) :
    Sat (fatZeroData k q a (start - a)) f
      (fun _ t => t = f.store (align k.bytesPerSector a) (start - align k.bytesPerSector a)
        (fun _ => true) fun _ => 0)
      fun _ t => t = f.store (align k.bytesPerSector a) (start - align k.bytesPerSector a)
        q.reached fun _ => 0 := by
  obtain ⟨hle, hgap⟩ := align_le_of_dvd k.sector_pos k.sector_dvd_limit hstart ha.le hlt
  have hbeyond : (a + (start - a) + (k.bytesPerSector - 1)) / k.bytesPerSector *
      k.bytesPerSector = start := by
    obtain ⟨n, rfl⟩ := hstart
    have hpos := k.sector_pos
    have hsum : a + (k.bytesPerSector * n - a) + (k.bytesPerSector - 1) =
        (k.bytesPerSector - 1) + k.bytesPerSector * n := by omega
    rw [hsum, Nat.add_mul_div_left _ _ hpos, Nat.div_eq_of_lt (by omega), Nat.zero_add,
      Nat.mul_comm]
  simp only [fatZeroData, zeroRange, hbeyond]
  rw [if_neg (by omega)]
  by_cases hsame : align k.bytesPerSector a = start
  · rw [if_pos hsame]
    refine Sat.pure ?_
    rw [hsame, Nat.sub_self, File.store_none]
  · rw [if_neg hsame]
    dsimp only
    split
    · exact Sat.modify_bind (Sat.throw rfl)
    · exact Sat.modify rfl

/-- The marks and the valid bytes are as they were. -/
structure Untouched (f t : File) : Prop where
  validDataLength : t.validDataLength = f.validDataLength
  validDataToDisk : t.validDataToDisk = f.validDataToDisk
  kept : ∀ i < f.validDataToCheck, t.disk i = f.disk i

/-- And the bytes from the valid ones up to the start of the write are zero. -/
structure Prepared (start : ℕ) (f t : File) : Prop extends Untouched f t where
  zero : ∀ i, f.validDataToCheck ≤ i → i < start → t.disk i = 0

/-- The bytes of the write are on disk. -/
structure Landed (q : WriteRequest) (start : ℕ) (f t : File) : Prop where
  written : ∀ i, start ≤ i → i < start + q.count → t.disk i = q.data i
  kept : ∀ i < f.validDataToCheck, i < start ∨ start + q.count ≤ i → t.disk i = f.disk i
  zero : ∀ i, f.validDataToCheck ≤ i → i < start → t.disk i = 0

variable {start : ℕ}

theorem Untouched.refl (f : File) : Untouched f f := ⟨rfl, rfl, fun _ _ => rfl⟩

theorem Stable.untouched (h : Stable f t) (hf : f.validDataToCheck ≤ f.backed) : Untouched f t :=
  ⟨h.validDataLength, h.validDataToDisk, fun i hi => h.disk i (hi.trans_le hf)⟩

theorem Prepared.landed (h : Prepared start f t) :
    Landed q start f (t.store start q.count (fun _ => true) q.data) where
  written i hi hlt := by
    simp only [File.store]
    rw [if_pos ⟨hi, hlt, trivial⟩]
  kept i hi hout := by
    simp only [File.store]
    rw [if_neg (by omega)]
    exact h.kept i hi
  zero i hi hlt := by
    simp only [File.store]
    rw [if_neg (by omega)]
    exact h.zero i hi hlt

/-- The end of the body of a write to disk. -/
def Moved (q : WriteRequest) (start : ℕ) (f : File) (exit : Exit) (t : File) : Prop :=
  Landed q start f t ∧ t.validDataLength = f.validDataLength ∧
    (exit = .pending ∧ start + q.count ≤ f.validDataLength ∧
        t.validDataToDisk = f.validDataToDisk ∨
      exit = .done q.count ∧ t.validDataToDisk = max f.validDataToDisk (start + q.count))

theorem sat_fatNonCachedIo_disk (h : Prepared start f t)
    (htorn : q.diskIo = .failed → ∀ i, start ≤ i → i < f.validDataToCheck → q.reached i = false) :
    Sat (fatNonCachedIo q f start (max f.fileSize (start + q.count)) q.count) t (Moved q start f)
      fun _ u => Untouched f u := by
  have hlanded : Landed q start f (t.store start q.count (fun _ => true) q.data) := h.landed
  simp only [fatNonCachedIo]
  split
  · rename_i hfailed
    refine Sat.modify_bind (Sat.throw ⟨h.validDataLength, h.validDataToDisk, ?_⟩)
    intro i hi
    simp only [File.store]
    rw [if_neg, h.kept i hi]
    intro hin
    rw [htorn hfailed i hin.1 hi] at hin
    simp at hin
  · apply Sat.modify_bind
    split
    · rename_i hpending
      exact Sat.pure ⟨hlanded, h.validDataLength, .inl ⟨rfl, hpending.2, h.validDataToDisk⟩⟩
    · apply Sat.modify_bind
      refine Sat.pure ⟨⟨hlanded.written, hlanded.kept, hlanded.zero⟩, h.validDataLength,
        .inr ⟨rfl, ?_⟩⟩
      simp only [File.store, h.validDataToDisk]
      rw [min_eq_left (le_max_right _ _)]

theorem sat_nonCachedWrite_disk (hs : Stable f t) (hbacked : f.validDataToCheck ≤ f.backed)
    (hstart : k.bytesPerSector ∣ start) (hcount : k.bytesPerSector ∣ q.count)
    (hlt : start + q.count < 2 ^ 32)
    (htail : f.validDataToCheck < start → align k.bytesPerSector f.validDataToCheck ≤ f.backed ∧
      ∀ i, f.validDataToCheck ≤ i → i < align k.bytesPerSector f.validDataToCheck → f.disk i = 0)
    (htorn : q.diskIo = .failed → ∀ i, start ≤ i → i < f.validDataToCheck → q.reached i = false) :
    Sat (nonCachedWrite k q f start (max f.fileSize (start + q.count))) t (Moved q start f)
      fun _ u => Untouched f u := by
  have hround : align k.bytesPerSector q.count = q.count :=
    align_eq_of_dvd k.sector_pos k.sector_dvd_limit hcount (by omega)
  have hcheck : max f.validDataToDisk f.validDataLength = f.validDataToCheck := rfl
  have hsame := hs.untouched hbacked
  simp only [nonCachedWrite, hround, hcheck]
  rw [if_neg (by simp [Nat.mod_eq_zero_of_dvd hstart])]
  split
  · rename_i hbeyond
    obtain ⟨hin, hzero⟩ := htail hbeyond
    have hup := (align_le_of_dvd k.sector_pos k.sector_dvd_limit hstart (Nat.le_of_lt hbeyond)
      (by omega : start < 2 ^ 32)).1
    -- whatever the zeroing has reached, it is not below the valid data
    have hfill (reached : ℕ → Bool) : Untouched f (t.store
        (align k.bytesPerSector f.validDataToCheck)
        (start - align k.bytesPerSector f.validDataToCheck) reached fun _ => 0) := by
      refine ⟨hsame.validDataLength, hsame.validDataToDisk, ?_⟩
      intro i hi
      simp only [File.store]
      rw [if_neg (by omega), hsame.kept i hi]
    have hgap : Sat (fatZeroData k q f.validDataToCheck (start - f.validDataToCheck)) t
        (fun _ u => Prepared start f u) fun _ u => Untouched f u := by
      refine (sat_fatZeroData_disk hbeyond hstart (by omega)).mono ?_ ?_
      · rintro _ u rfl
        refine ⟨hfill _, ?_⟩
        intro i hi hbelow
        simp only [File.store]
        split
        · rfl
        · rename_i hout
          have hless : i < align k.bytesPerSector f.validDataToCheck := by
            by_contra hge
            exact hout ⟨by omega, by omega, trivial⟩
          rw [hs.disk i (hless.trans_le hin)]
          exact hzero i hi hless
      · rintro _ u rfl
        exact hfill _
    exact Sat.bind hgap fun _ u hu => sat_fatNonCachedIo_disk hu htorn
  · rename_i hwithin
    refine sat_fatNonCachedIo_disk ⟨hsame, ?_⟩ htorn
    intro i hi hless
    exact absurd (hi.trans_lt hless) hwithin

/-- The write is done. -/
structure Transferred (q : WriteRequest) (start : ℕ) (f t : File) : Prop
    extends Landed q start f t where
  checked : t.validDataToCheck = max f.validDataToCheck (start + q.count)

theorem sat_complete_disk {exit : Exit} (h : Moved q start f exit t) (hcached : q.cached = false)
    (hunpin : q.unpinFault = false) (hlate : f.fileSize < start + q.count → ¬ q.LateFault) :
    Sat (complete q f start (max f.fileSize (start + q.count)) exit) t
      (fun o u => (o = .completed ∨ o = .pending) ∧ Transferred q start f u)
      fun _ u => Untouched f u := by
  obtain ⟨hlanded, hvalid, hexit⟩ := h
  rcases hexit with ⟨rfl, hle, hdisk⟩ | ⟨rfl, hdisk⟩
  · refine Sat.pure ⟨.inr rfl, hlanded, ?_⟩
    simp only [File.validDataToCheck, hvalid, hdisk]
    omega
  · simp only [complete, hunpin, hcached]
    split
    · rename_i hfault
      exact absurd (.inl hfault.2.2) (hlate hfault.1)
    · split
      · apply Sat.modify_bind
        rw [if_neg (by simp), if_neg (by simp)]
        refine Sat.pure ⟨.inl rfl, ⟨hlanded.written, hlanded.kept, hlanded.zero⟩, ?_⟩
        simp only [File.validDataToCheck, hdisk]
        omega
      · refine Sat.pure ⟨.inl rfl, hlanded, ?_⟩
        simp only [File.validDataToCheck, hvalid, hdisk]
        omega

theorem File.Sound.sizeOk_backed (hf : f.Sound k) : SizeOk k f.backed := by
  cases hn : f.allocationSize with
  | none =>
      have hback : f.backed = f.chainSize := by simp [File.backed, hn]
      rw [hback]
      exact hf.chain
  | some n =>
      have hback : f.backed = n := by simp [File.backed, hn]
      rw [hback]
      exact hf.known n hn

/-- The valid data have clusters. -/
theorem File.Sound.check_le_backed (hf : f.Sound k)
    (hchain : f.allocationSize = none → f.fileSize ≤ f.chainSize) :
    f.validDataToCheck ≤ f.backed := by
  refine (max_le hf.toDisk hf.valid).trans ?_
  cases hn : f.allocationSize with
  | none =>
      have hback : f.backed = f.chainSize := by simp [File.backed, hn]
      rw [hback]
      exact hchain hn
  | some n =>
      have hback : f.backed = f.allocated := by simp [File.backed, File.allocated, hn]
      rw [hback]
      exact hf.size

/-- And so has their last sector, when another one follows. -/
theorem File.Sound.align_le_backed (hf : f.Sound k) (hcheck : f.validDataToCheck ≤ f.backed)
    (hdvd : k.bytesPerSector ∣ start) (hbeyond : f.validDataToCheck < start)
    (hlt : start < 2 ^ 32) : align k.bytesPerSector f.validDataToCheck ≤ f.backed := by
  obtain ⟨hbacked, hwhole | hlast⟩ := hf.sizeOk_backed
  · exact (align_le_of_dvd k.sector_pos k.sector_dvd_limit (k.sector_dvd.trans hwhole) hcheck
      hbacked).2
  · have := (align_le_of_dvd k.sector_pos k.sector_dvd_limit hdvd hbeyond.le hlt).2
    omega

theorem sat_writeAt_disk (hf : f.Sound k) (hq : q.Tidy k f) (hnc : q.nonCached)
    (hcached : q.cached = false) (hstart : k.bytesPerSector ∣ q.startingVbo f)
    (hcount : k.bytesPerSector ∣ q.count) (hlt : q.startingVbo f + q.count < 2 ^ 32) :
    Sat (writeAt k q f (q.startingVbo f)) f
      (fun o t => (o = .completed ∨ o = .pending) ∧ Transferred q (q.startingVbo f) f t)
      fun _ t => Untouched f t := by
  have hcheck := hf.check_le_backed hq.chain
  have hlate : f.fileSize < q.startingVbo f + q.count → ¬ q.LateFault := hq.late hnc
  have hbody (t : File) (hs : Stable f t) : Sat (do
      let exit ← nonCachedWrite k q f (q.startingVbo f) (max f.fileSize (q.startingVbo f + q.count))
      complete q f (q.startingVbo f) (max f.fileSize (q.startingVbo f + q.count)) exit) t
      (fun o t => (o = .completed ∨ o = .pending) ∧ Transferred q (q.startingVbo f) f t)
      fun _ t => Untouched f t := by
    refine Sat.bind (sat_nonCachedWrite_disk hs hcheck hstart hcount hlt ?_ hq.torn) ?_
    · intro hbeyond
      exact ⟨hf.align_le_backed hcheck hstart hbeyond (by omega), hq.tail hbeyond⟩
    · intro exit u hu
      exact sat_complete_disk hu hcached hq.unpinned hlate
  simp only [writeAt, hnc, if_true]
  split
  · rename_i hext
    have hextend : Sat (extendFile k q (max f.fileSize (q.startingVbo f + q.count))) f
        (fun _ t => Stable f t) fun _ t => Untouched f t := by
      rw [max_eq_right (Nat.le_of_lt hext)]
      exact (sat_extendFile_stable hf.toAllocated hlt).mono (fun _ _ h => h)
        fun _ _ h => h.untouched hcheck
    exact Sat.bind hextend fun _ t ht => hbody t ht
  · exact hbody f (Stable.refl f)

/-- What the user is told, and what is true of the file. -/
def Answered (q : WriteRequest) (start : ℕ) (f : File) (o : Outcome) (t : File) : Prop :=
  (o = .completed ∨ o = .pending) ∧
      (Transferred q start f t ∨ q.count = 0 ∧ Untouched f t) ∨
    (o = .refused ∨ o = .posted) ∧ Untouched f t

theorem sat_fatCommonWrite_disk (hf : f.Sound k) (hq : q.Tidy k f)
    (haligned : Op.Aligned k f (.write q)) :
    Sat (fatCommonWrite k q) f (Answered q (q.startingVbo f) f) fun _ t => Untouched f t := by
  obtain ⟨hnc, hcached, hstart, hcount⟩ := haligned
  have hsame := Untouched.refl f
  have hfrom : Sat (writeFrom k q f (q.startingVbo f)) f (Answered q (q.startingVbo f) f)
      fun _ t => Untouched f t := by
    simp only [writeFrom]
    split
    · exact Sat.pure (.inr ⟨.inl rfl, hsame⟩)
    · rename_i hrange
      split
      · exact Sat.pure (.inr ⟨.inr rfl, hsame⟩)
      · apply Sat.protect
        refine (sat_writeAt_disk hf hq hnc hcached hstart hcount (not_not.mp hrange).2).mono ?_ ?_
        · intro o t ht
          exact .inl ⟨ht.1, .inl ht.2⟩
        · intro _ t ht
          rw [if_pos rfl]
          simp only [unwindWrite]
          split
          · exact Sat.modify ⟨rfl, ht.validDataToDisk, ht.kept⟩
          · exact Sat.pure ht
  simp only [fatCommonWrite]
  split
  · rename_i hzero
    exact Sat.pure (.inl ⟨.inl rfl, .inr ⟨hzero, hsame⟩⟩)
  · split
    · exact Sat.pure (.inr ⟨.inl rfl, hsame⟩)
    · split
      · exact hsame
      · exact Sat.get_bind hfrom

/-! ## Changes of the size -/

/-- The valid bytes are as they were, or were cut off. -/
structure Shrunk (f t : File) : Prop where
  checked : t.validDataToCheck ≤ f.validDataToCheck
  kept : ∀ i < t.validDataToCheck, t.disk i = f.disk i
  cut : ∀ i, t.validDataToCheck ≤ i → i < f.validDataToCheck → t.fileSize ≤ i

theorem Untouched.shrunk (h : Untouched f t) : Shrunk f t := by
  have hcheck : t.validDataToCheck = f.validDataToCheck := by
    rw [File.validDataToCheck, h.validDataLength, h.validDataToDisk]
    rfl
  refine ⟨hcheck.le, ?_, ?_⟩
  · rw [hcheck]
    exact h.kept
  · intro i hi hlt
    omega

theorem sat_changeFileSize_disk (p : EofRequest) (h : Untouched f t) :
    Sat (changeFileSize p) t (fun _ u => Shrunk f u) fun _ u => u.disk = t.disk := by
  simp only [changeFileSize]
  apply Sat.modify_bind
  split
  · exact Sat.throw rfl
  · have hcheck : File.validDataToCheck { t with
        fileSize := p.endOfFile
        validDataLength := min t.validDataLength p.endOfFile
        validDataToDisk := min t.validDataToDisk p.endOfFile } =
        min f.validDataToCheck p.endOfFile := by
      simp only [File.validDataToCheck, h.validDataLength, h.validDataToDisk]
      omega
    refine Sat.pure ⟨?_, ?_, ?_⟩
    · rw [hcheck]
      exact min_le_left _ _
    · intro i hi
      rw [hcheck] at hi
      exact h.kept i (hi.trans_le (min_le_left _ _))
    · intro i hi hlt
      rw [hcheck] at hi
      have hend : p.endOfFile ≤ i := by omega
      exact hend

theorem sat_setEndOfFile_disk (p : EofRequest) (ha : t.Allocated k) (hs : Stable f t)
    (hcheck : f.validDataToCheck ≤ f.backed) (hrange : rangeValid p.endOfFile 0) :
    Sat (setEndOfFile k p) t (fun _ u => Shrunk f u) fun _ u => Shrunk f u := by
  have hadd : Sat (fatAddFileAllocation k p.addFault p.fresh p.endOfFile) t
      (fun _ u => Untouched f u) fun _ u => Shrunk f u :=
    (sat_add_stable p.addFault p.fresh ha hrange.1).mono
      (fun _ _ h => (hs.trans h).untouched hcheck)
      fun _ _ h => ((hs.trans h).untouched hcheck).shrunk
  simp only [setEndOfFile]
  refine Sat.bind hadd ?_
  intro _ u hu
  apply Sat.get_bind
  split
  · split
    · exact hu.shrunk
    · exact Sat.pure hu.shrunk
  · split
    · exact Sat.pure hu.shrunk
    · apply Sat.protect
      refine (sat_changeFileSize_disk p hu).mono (fun _ _ h => h) ?_
      intro _ v hv
      rw [if_pos rfl]
      have hback : Untouched f { v with
          fileSize := u.fileSize
          validDataLength := u.validDataLength
          validDataToDisk := u.validDataToDisk } := by
        refine ⟨hu.validDataLength, hu.validDataToDisk, ?_⟩
        rw [hv]
        exact hu.kept
      exact Sat.modify hback.shrunk

theorem sat_fatSetEndOfFileInfo_disk (p : EofRequest) (hf : f.Sound k)
    (hchain : f.allocationSize = none → f.fileSize ≤ f.chainSize) :
    Sat (fatSetEndOfFileInfo k p) f (fun _ t => Shrunk f t) fun _ t => Shrunk f t := by
  have hcheck := hf.check_le_backed hchain
  have hsame := (Untouched.refl f).shrunk
  have hrest (t : File) (ha : t.Allocated k) (hs : Stable f t)
      (hrange : rangeValid p.endOfFile 0) :
      Sat (advanceOrSet k p) t (fun _ t => Shrunk f t) fun _ t => Shrunk f t := by
    have hshrunk := (hs.untouched hcheck).shrunk
    simp only [advanceOrSet]
    split
    · exact hshrunk
    · split
      · split
        · exact hshrunk
        · exact Sat.pure hshrunk
      · exact sat_setEndOfFile_disk p ha hs hcheck hrange
  simp only [fatSetEndOfFileInfo]
  split
  · exact Sat.pure hsame
  · rename_i hrange
    apply Sat.get_bind
    split
    · rename_i hnone
      have hlook : Sat (fatLookupFileAllocationSize p.lookupFault) f
          (fun _ t => Stable f t ∧ t.Allocated k) fun _ t => Shrunk f t :=
        (sat_lookup_stable p.lookupFault hf.toAllocated hnone.1).mono (fun _ _ h => h)
          fun _ _ h => (h.untouched hcheck).shrunk
      exact Sat.bind hlook fun _ t ht => hrest t ht.2 ht.1 (not_not.mp hrange)
    · exact hrest f hf.toAllocated (Stable.refl f) (not_not.mp hrange)

end Routines

/-! ## Runs -/

section Run

variable {k : Site} {t : Tracked} {u : File} {op : Op}

theorem Tracked.Faithful.shrunk (h : t.Faithful k) (hu : u.Sound k) (hs : Shrunk t.file u) :
    Tracked.Faithful k ⟨u, fun i => if u.fileSize ≤ i then 0 else t.expected i⟩ where
  toSound := hu
  below i hi := by
    have hin : i < u.fileSize := hi.trans_le (max_le hu.toDisk hu.valid)
    dsimp only
    rw [if_neg (Nat.not_le_of_lt hin), hs.kept i hi]
    exact h.below i (Nat.lt_of_lt_of_le hi hs.checked)
  above i hi := by
    dsimp only
    split
    · rfl
    · rename_i hin
      apply h.above
      by_contra hlt
      exact hin (hs.cut i hi (Nat.lt_of_not_le hlt))

theorem Tracked.Faithful.transferred {q : WriteRequest} {start : ℕ} (h : t.Faithful k)
    (hu : u.Sound k) (hw : Transferred q start t.file u) :
    Tracked.Faithful k ⟨u, fun i => if u.fileSize ≤ i then 0
      else if start ≤ i ∧ i < start + q.count then q.data i else t.expected i⟩ where
  toSound := hu
  below i hi := by
    have hin : i < u.fileSize := hi.trans_le (max_le hu.toDisk hu.valid)
    dsimp only at hi ⊢
    rw [if_neg (Nat.not_le_of_lt hin)]
    rw [hw.checked] at hi
    split
    · rename_i hwrite
      exact hw.written i hwrite.1 hwrite.2
    · rename_i hout
      by_cases hvalid : i < t.file.validDataToCheck
      · rw [hw.kept i hvalid (by omega)]
        exact h.below i hvalid
      · rw [hw.zero i (by omega) (by omega), h.above i (by omega)]
  above i hi := by
    dsimp only at hi ⊢
    rw [hw.checked] at hi
    split
    · rfl
    · rw [if_neg (by omega)]
      exact h.above i (by omega)

theorem step_of_written_none (h : ∀ i, op.written k t.file i = none) :
    t.step k op = ⟨Sizes.step k t.file op, fun i =>
      if (Sizes.step k t.file op).fileSize ≤ i then 0 else t.expected i⟩ := by
  simp [Tracked.step, h]

theorem step_of_succeeded {q : WriteRequest} (h : succeeded (fatCommonWrite k q t.file)) :
    t.step k (.write q) = ⟨Sizes.step k t.file (.write q), fun i =>
      if (Sizes.step k t.file (.write q)).fileSize ≤ i then 0
      else if q.startingVbo t.file ≤ i ∧ i < q.startingVbo t.file + q.count then q.data i
      else t.expected i⟩ := by
  simp only [Tracked.step, Op.written, h, true_and]
  congr 1
  funext i
  split
  · rfl
  · split <;> rfl

theorem faithful_write {q : WriteRequest} (h : t.Faithful k) (ha : Op.Aligned k t.file (.write q))
    (hq : q.Tidy k t.file) : (t.step k (.write q)).Faithful k := by
  have hu : (Sizes.step k t.file (.write q)).Sound k := sound_step h.toSound hq.toClean
  have hsat := sat_fatCommonWrite_disk h.toSound hq ha
  cases hx : fatCommonWrite k q t.file with
  | ok o u =>
      have hfile : Sizes.step k t.file (.write q) = u := by simp [Sizes.step, Op.run, fileAfter, hx]
      rcases hsat.ok hx with ⟨ho, hw⟩ | ⟨ho, hw⟩
      · have hsucc : succeeded (fatCommonWrite k q t.file) := by
          rw [hx]
          rcases ho with rfl | rfl <;> rfl
        rcases hw with hw | ⟨hzero, hw⟩
        · rw [step_of_succeeded hsucc]
          exact h.transferred hu (hfile.symm ▸ hw)
        · rw [step_of_written_none]
          · exact h.shrunk hu (hfile.symm ▸ hw.shrunk)
          · intro i
            simp only [Op.written, hzero]
            rw [if_neg (by omega)]
      · rw [step_of_written_none]
        · exact h.shrunk hu (hfile.symm ▸ hw.shrunk)
        · intro i
          rcases ho with rfl | rfl <;> simp [Op.written, hx, succeeded]
  | error e u =>
      have hfile : Sizes.step k t.file (.write q) = u := by simp [Sizes.step, Op.run, fileAfter, hx]
      rw [step_of_written_none]
      · exact h.shrunk hu (hfile.symm ▸ (hsat.error hx).shrunk)
      · intro i
        simp [Op.written, hx, succeeded]

theorem faithful_step (h : t.Faithful k) (ha : op.Aligned k t.file) (hop : op.Tidy k t.file) :
    (t.step k op).Faithful k := by
  cases op with
  | write q => exact faithful_write h ha hop
  | endOfFile p =>
      have hu : (Sizes.step k t.file (.endOfFile p)).Sound k := sound_step h.toSound hop
      rw [step_of_written_none fun _ => rfl]
      exact h.shrunk hu (fileAfter_of_sat (sat_fatSetEndOfFileInfo_disk p h.toSound hop))
  | allocation p => exact ha.elim
  | validData p => exact ha.elim

/-- **No stale bytes below `ValidDataLength`**: in every run of tidy requests each of them is the
last byte successfully written there since the offset was last outside of the file, or zero. -/
theorem noStale_of_trackedReach {t₀ : Tracked} (h0 : t₀.Faithful k)
    (h : Reach (Tracked.step k) (fun t op => op.Aligned k t.file ∧ op.Tidy k t.file) t₀ t) :
    ∀ i < t.file.validDataLength, t.file.disk i = t.expected i := by
  have ht : t.Faithful k := h.invariant h0 fun _ _ ht hop => faithful_step ht hop.1 hop.2
  intro i hi
  exact ht.below i (hi.trans_le (le_max_right _ _))

end Run

/-! ## Concrete runs -/

/-- Two sectors of old data. -/
def oldFile : Tracked where
  file := { plainFile 1024 4096 (some 4096) with disk := fun _ => 7 }
  expected i := if i < 1024 then 7 else 0

theorem oldFile_faithful : oldFile.Faithful smallSite where
  valid := by decide
  size := by decide
  toDisk := by decide
  known := by
    intro n hn
    obtain rfl := Option.some.inj hn
    exact ⟨by decide, .inl (by decide)⟩
  chain := ⟨by decide, .inl (by decide)⟩
  below i hi := by
    have hlt : i < 1024 := hi
    simp [oldFile, hlt]
  above i hi := by
    have hle : 1024 ≤ i := hi
    simp [oldFile, Nat.not_lt_of_le hle]

/-- The file is cut to `n` bytes, grows to 2 KB, and its third sector is written. -/
def cutThenExtend (n : ℕ) : List Op :=
  [.endOfFile (plainEof n), .endOfFile (plainEof 2048), .write (plainWrite 1024 512)]

/-- The write of the third sector is one of a whole sector. -/
theorem cutThenExtend_aligned (n : ℕ) : AllowedAll (Tracked.step smallSite)
    (fun t op => op.Aligned smallSite t.file) oldFile (cutThenExtend n) :=
  ⟨trivial, trivial, ⟨rfl, rfl, (by decide : 512 ∣ 1024), by decide⟩, trivial⟩

/-- A file that is cut at the end of a sector: what comes behind is zero. -/
theorem noStale_cutAtSector :
    (∀ i < ((cutThenExtend 512).foldl (Tracked.step smallSite) oldFile).file.validDataLength,
      ((cutThenExtend 512).foldl (Tracked.step smallSite) oldFile).file.disk i =
        ((cutThenExtend 512).foldl (Tracked.step smallSite) oldFile).expected i) ∧
    ((cutThenExtend 512).foldl (Tracked.step smallSite) oldFile).file.validDataLength = 1536 := by
  have hknown : (oldFile.step smallSite (.endOfFile (plainEof 512))).file.allocationSize ≠ none := by
    decide +kernel
  have hknown' : ((oldFile.step smallSite (.endOfFile (plainEof 512))).step smallSite
      (.endOfFile (plainEof 2048))).file.allocationSize ≠ none := by
    decide +kernel
  have hcheck : ((oldFile.step smallSite (.endOfFile (plainEof 512))).step smallSite
      (.endOfFile (plainEof 2048))).file.validDataToCheck = 512 := by
    decide +kernel
  refine ⟨noStale_of_trackedReach oldFile_faithful (Reach.start.foldl ?_), by decide +kernel⟩
  refine ⟨⟨trivial, by simp [Op.Tidy, Op.Clean, oldFile, plainFile]⟩,
    ⟨trivial, fun hnone => absurd hnone hknown⟩,
    ⟨⟨rfl, rfl, by decide, by decide⟩, ?_⟩, trivial⟩
  refine ⟨plainWrite_clean 1024 512 _ hknown', rfl, by simp [plainWrite], ?_⟩
  intro _ i hi hlt
  rw [hcheck] at hi hlt
  have hround : align smallSite.bytesPerSector 512 = 512 := by decide
  omega

/-- **Bytes that were cut off are back** when the file was cut inside of a sector and the next write
starts behind it. -/
theorem not_noStale_cutThenExtend : oldFile.Faithful smallSite ∧
    ¬ ∀ t, Reach (Tracked.step smallSite) (fun t op => op.Aligned smallSite t.file) oldFile t →
      ∀ i < t.file.validDataLength, t.file.disk i = t.expected i := by
  refine ⟨oldFile_faithful, ?_⟩
  intro h
  have hrun := h _ (Reach.start.foldl (cutThenExtend_aligned 100)) 100 (by decide +kernel)
  exact absurd hrun (by decide +kernel)

end KernelDrivers.Fat.Sizes
