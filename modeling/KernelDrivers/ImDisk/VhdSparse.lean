import KernelDrivers.ImDisk.VhdDisk

/-!
# Zeroes written to a dynamic VHD image

A block that is not there reads as zeroes, so `vhd_write` means to leave it out when zeroes are
written.  Its scan for them has the arms of its condition the wrong way round: it stops at the first
word, and a block is added whatever the data are.

## Main definitions

* `long` — the count that a call returns.
* `KeepsSparse` — a write of zeroes adds nothing to the file.
* `File.Present` — every block of a range is there.

## Main results

* `sat_vhdWrite_length` — what a write of any data does to the length of the file.
* `keepsSparse_iff` — which writes of zeroes add nothing.
-/

namespace KernelDrivers.ImDisk.Vhd

open KernelDrivers.Fat (ulong)

/-- A `LONG`. -/
def long (n : ℕ) : ℤ := (BitVec.ofNat 32 n).toInt

/-- A write of zeroes returns its full size, and leaves the length of the file and the entries of all
blocks that are not there. -/
def KeepsSparse (v : Info) (f : File) (first n : ℕ) : Prop :=
  ∀ fuel, n < fuel → ∃ r f', vhdWrite v fuel (List.replicate n 0) first f = .ok r f' ∧
    long r = n ∧ f'.length = f.length ∧ ∀ i < f.entries, f.start i = none → f'.start i = none

/-- Every block of a range is there. -/
def File.Present (f : File) (s first n : ℕ) : Prop :=
  ∀ i ∈ blocksOf (2 ^ s) first n, f.start i ≠ none

instance (f : File) (s first n : ℕ) : Decidable (f.Present s first n) :=
  inferInstanceAs (Decidable (∀ i ∈ _, _))

/-! ## The length of the file -/

section Length

variable {f : File} {v : Info} {s i n p first offset fuel : ℕ} {bs data : List UInt8}

theorem File.length_le_write (f : File) (bs : List UInt8) (p : ℕ) :
    f.length ≤ (f.write bs p).length := by
  simp only [File.write]
  split
  · exact le_refl _
  · exact le_max_left _ _

theorem sat_physicalWrite_grows (f : File) (bs : List UInt8) (offset : ℤ) :
    Sat (physicalWrite bs offset) f (fun _ f' => f.length ≤ f'.length) (fun _ _ => True) := by
  simp only [physicalWrite]
  split
  · exact trivial
  · exact f.length_le_write bs _

theorem sat_writeBlock_grows (f : File) (entry : ℕ) (data : List UInt8) (inBlock : ℕ) :
    Sat (writeBlock entry data inBlock) f (fun _ f' => f.length ≤ f'.length) (fun _ _ => True) := by
  simp only [writeBlock]
  refine Sat.bind (sat_physicalWrite_grows _ _ _) fun _ f₁ h₁ => ?_
  exact (sat_physicalWrite_grows _ _ _).mono (fun _ _ h₂ => h₁.trans h₂) fun _ _ _ => trivial

/-- A new block makes the file longer. -/
theorem sat_addBlock_grows (f : File) (hfooter : v.footer.length = 512) (offset : ℤ) :
    Sat (addBlock v offset) f (fun _ f' => f.length < f'.length) (fun _ _ => True) := by
  simp only [addBlock]
  apply Sat.get_bind
  split
  · exact trivial
  · rename_i hlen
    refine Sat.bind (sat_physicalWrite_grows _ _ _) fun _ f₁ _ => ?_
    refine Sat.bind (R := fun _ f' => f.length < f'.length) ?_ fun _ f₂ h₂ => h₂
    refine (sat_physicalWrite rfl).mono ?_ fun _ _ h => h
    intro _ f' hf'
    have hne : List.replicate (sectorSize + v.blockSize) (0 : UInt8) ++ v.footer ≠ [] := by
      intro hnil
      have := congrArg List.length hnil
      rw [List.length_append, hfooter] at this
      simp at this
    rw [hf', length_write_of_ne_nil hne, List.length_append, List.length_replicate, hfooter, sectorSize]
    rw [footerSize] at hlen ⊢
    omega

/-- No write makes the file shorter. -/
theorem sat_vhdWrite_grows (f : File) (hfooter : v.footer.length = 512) (data : List UInt8) (first : ℕ) :
    Sat (vhdWrite v fuel data first) f (fun _ f' => f.length ≤ f'.length) (fun _ _ => True) := by
  induction fuel generalizing f data first with
  | zero => exact trivial
  | succ fuel ih =>
      have htail (f₁ : File) (h₁ : f.length ≤ f₁.length) : Sat (if 0 < v.secondSize data.length first then do
            let rest ← vhdWrite v fuel (data.drop (v.firstSize data.length first))
              (first + v.firstSize data.length first)
            return v.firstSize data.length first + rest
          else return v.firstSize data.length first : VhdM ℕ) f₁
          (fun _ f' => f.length ≤ f'.length) (fun _ _ => True) := by
        split
        · refine Sat.bind (ih f₁ _ _) fun _ f₂ h₂ => ?_
          exact Sat.pure (h₁.trans h₂)
        · exact Sat.pure h₁
      simp only [vhdWrite]
      split
      · exact Sat.pure (le_refl _)
      refine Sat.bind (R := fun _ f' => f' = f) ?_ ?_
      · simp only [physicalRead]
        apply Sat.get_bind
        split
        · exact trivial
        · exact Sat.pure rfl
      · rintro entry _ rfl
        split
        · split
          · refine Sat.bind (sat_addBlock_grows _ hfooter _) fun _ f₁ h₁ => ?_
            refine Sat.bind (sat_writeBlock_grows _ _ _ _) fun _ f₂ h₂ => ?_
            exact htail f₂ (h₁.le.trans h₂)
          · exact htail _ (le_refl _)
        · refine Sat.bind (sat_writeBlock_grows _ _ _ _) fun _ f₁ h₁ => ?_
          exact htail f₁ h₁

end Length

/-! ## A write -/

section Write

variable {f f' : File} {v : Info} {s i n p q first fuel : ℕ} {data : List UInt8}
  {E : Unit → File → Prop}

/-- The two files have the same blocks. -/
structure SameBlocks (f f' : File) : Prop where
  head : SameHead f f'
  length : f'.length = f.length
  start : ∀ j < f.entries, f'.start j = f.start j

theorem SameBlocks.refl (f : File) : SameBlocks f f := ⟨⟨fun _ _ _ => rfl⟩, rfl, fun _ _ => rfl⟩

theorem SameBlocks.trans {f'' : File} (h : SameBlocks f f') (h' : SameBlocks f' f'') :
    SameBlocks f f'' where
  head := h.head.trans h'.head
  length := h'.length.trans h.length
  start j hj := (h'.start j (by rwa [h.head.entries])).trans (h.start j hj)

theorem WellFormed.sameBlocks_write (h : WellFormed f s) (hin : f.Inside first data.length) :
    WellFormed (f.write data first) s ∧ SameBlocks f (f.write data first) :=
  ⟨h.write hin, sameHead_write f data hin.1, length_write (by have := hin.2.2; omega),
    fun _ hj => start_write hin hj⟩

/-- A write to a block that is there stays in the block, with bits that do not fit in their sector
as well. -/
theorem sat_writeBlock_inside (h : WellFormed f s) (hi : i < f.entries) (hp : f.start i = some p)
    (he : 512 * ntohl q = p) (hfits : n + data.length ≤ 2 ^ s) :
    Sat (writeBlock q data n) f (fun _ f' => WellFormed f' s ∧ SameBlocks f f') E := by
  have hpow : 2 ^ s ≤ 2 ^ 31 :=
    Nat.pow_le_pow_right (by decide) (by have := h.shift_lt; omega)
  have hsize := bitmapDatasize_eq (show data.length + 511 < 2 ^ 32 by omega)
  subst he
  simp only [writeBlock]
  refine Sat.bind (sat_physicalWrite (by rw [shiftLeft_sectorShift, sectorSize])) ?_
  intro _ f₁ hf₁
  have hdata : f.Inside (512 * ntohl q + 512 + n) data.length := by
    rw [Nat.add_assoc]
    exact h.inside_part hi hp (by omega)
  obtain ⟨h₁, hsame₁⟩ := h.sameBlocks_write hdata
  rw [← hf₁] at h₁ hsame₁
  refine (sat_physicalWrite (E := E) rfl).mono ?_ fun _ _ h => h
  intro _ f₂ hf₂
  have hbits : f₁.Inside (512 * ntohl q + n >>> sectorShift >>> 3)
      (List.replicate (bitmapDatasize data.length) (0xFF : UInt8)).length := by
    refine h₁.inside_part (by rwa [hsame₁.head.entries]) ((hsame₁.start i hi).trans hp) ?_
    rw [shiftRight_sectorShift, Nat.shiftRight_eq_div_pow, List.length_replicate, hsize]
    omega
  obtain ⟨h₂, hsame₂⟩ := h₁.sameBlocks_write hbits
  rw [shiftLeft_sectorShift] at hf₂
  rw [hf₂]
  exact ⟨h₂, hsame₁.trans hsame₂⟩

/-- Where the next block begins. -/
theorem next_block (first s : ℕ) :
    first + (2 ^ s - first % 2 ^ s) = (first / 2 ^ s + 1) * 2 ^ s := by
  have := div_mul_add_mod first s
  have := Nat.mod_lt first (Nat.two_pow_pos s)
  rw [Nat.succ_mul]
  omega

theorem WellFormed.lt_entries_of_mem (h : WellFormed f s) (hin : first + n ≤ f.size)
    (hi : i ∈ blocksOf (2 ^ s) first n) : i < f.entries := by
  have hlt := (mem_blocksOf (Nat.two_pow_pos s) hi).2
  have hcovers := h.covers
  refine lt_of_mul_lt_mul_right ?_ (Nat.zero_le (2 ^ s))
  omega

theorem SameBlocks.present (h : WellFormed f s) (hsame : SameBlocks f f') (hin : first + n ≤ f.size) :
    f'.Present s first n ↔ f.Present s first n :=
  forall₂_congr fun i hi => by rw [hsame.start i (h.lt_entries_of_mem hin hi)]

@[simp] theorem present_zero (f : File) (s first : ℕ) : f.Present s first 0 := by
  simp [File.Present, blocksOf]

/-- The first block of a range, and the others. -/
theorem present_iff (hn : 0 < n) : f.Present s first n ↔ f.start (first / 2 ^ s) ≠ none ∧
    f.Present s (first + min n (2 ^ s - first % 2 ^ s)) (n - min n (2 ^ s - first % 2 ^ s)) := by
  have hpos := Nat.two_pow_pos s
  rcases Nat.lt_or_ge (2 ^ s - first % 2 ^ s) n with hlt | hge
  · rw [File.Present, blocksOf_cons hpos hlt, min_eq_right hlt.le]
    simp only [List.mem_cons, forall_eq_or_imp, File.Present]
  · rw [File.Present, blocksOf_single hpos hn hge, min_eq_left hge, Nat.sub_self]
    simp

/-- **What a write does to the file.**  When all blocks are there it stays as long as it is, with the
same blocks, and otherwise it gets longer. -/
theorem sat_vhdWrite_length (h : WellFormed f s) (hv : v.For f s) (hin : first + data.length ≤ f.size)
    (hwrap : data.length + first % 2 ^ s < 2 ^ 32) (hfuel : data.length < fuel) :
    Sat (vhdWrite v fuel data first) f
      (fun r f' => if f.Present s first data.length then r = data.length ∧ SameBlocks f f'
        else f.length < f'.length)
      (fun _ _ => ¬f.Present s first data.length) := by
  induction fuel generalizing f data first with
  | zero => omega
  | succ fuel ih =>
      obtain ⟨hfirst, hsecond⟩ := hv.parts h.shift_lt hwrap
      have hpos := Nat.two_pow_pos s
      have hmod := Nat.mod_lt first hpos
      have hfooter : v.footer.length = 512 := by rw [hv.footer, length_slice]
      have hrange : ¬ v.currentSize < (first + data.length : ℕ) := by
        rw [hv.currentSize]
        omega
      have hentry := hv.entry_place first
      have hpresent : 0 < data.length → (f.Present s first data.length ↔ _) := present_iff
      generalize hk : min data.length (2 ^ s - first % 2 ^ s) = k at hfirst hsecond hpresent
      -- what is left, behind a first block that is there
      have htail {f₁ : File} (h₁ : WellFormed f₁ s) (hsame : SameBlocks f f₁)
          (hthere : 0 < data.length → f.start (first / 2 ^ s) ≠ none) :
          Sat (if 0 < data.length - k then do
              let rest ← vhdWrite v fuel (data.drop k) (first + k)
              return k + rest
            else return k : VhdM ℕ) f₁
            (fun r f' => if f.Present s first data.length then r = data.length ∧ SameBlocks f f'
              else f.length < f'.length)
            (fun _ _ => ¬f.Present s first data.length) := by
        split
        · rename_i hmore
          obtain rfl : k = 2 ^ s - first % 2 ^ s := by omega
          have hrest : (data.drop (2 ^ s - first % 2 ^ s)).length =
              data.length - (2 ^ s - first % 2 ^ s) := List.length_drop
          have hnext : (first + (2 ^ s - first % 2 ^ s)) % 2 ^ s = 0 := by
            rw [next_block]
            exact Nat.mul_mod_left _ _
          have hiff : f.Present s first data.length ↔ f₁.Present s (first + (2 ^ s - first % 2 ^ s))
              (data.drop (2 ^ s - first % 2 ^ s)).length := by
            rw [hrest, hsame.present h (by omega), hpresent (by omega)]
            exact and_iff_right (hthere (by omega))
          simp only [hiff]
          refine Sat.bind (ih h₁ (hv.same hsame.head) ?_ ?_ ?_) ?_
          · rw [hrest, hsame.head.size]
            omega
          · rw [hrest, hnext]
            omega
          · rw [hrest]
            omega
          · intro r f₂ h₂
            apply Sat.pure
            split
            · rename_i hthere
              rw [if_pos hthere] at h₂
              exact ⟨by rw [h₂.1, hrest]; omega, hsame.trans h₂.2⟩
            · rename_i hmissing
              rwa [if_neg hmissing, hsame.length] at h₂
        · rename_i hall
          obtain rfl : k = data.length := by omega
          apply Sat.pure
          rw [if_pos]
          · exact ⟨rfl, hsame⟩
          · rcases Nat.eq_zero_or_pos data.length with hzero | hsome
            · rw [hzero]
              exact present_zero _ _ _
            · rw [hpresent hsome, Nat.sub_self]
              exact ⟨hthere hsome, present_zero _ _ _⟩
      simp only [vhdWrite, hfirst, hsecond, hv.blockShift, hv.inBlock h.shift_lt]
      rw [if_neg hrange]
      refine Sat.bind (sat_physicalRead hentry) ?_
      rintro _ f' ⟨rfl, rfl⟩
      change Sat (if f'.entry (first / 2 ^ s) = noBlock then _ else _) _ _ _
      rcases Nat.eq_zero_or_pos data.length with hzero | hsome
      · obtain rfl := List.length_eq_zero_iff.mp hzero
        obtain rfl : k = 0 := by simpa using hk.symm
        split
        · rw [if_neg (by decide)]
          exact htail h (SameBlocks.refl _) fun hpos => absurd hpos (by simp)
        · refine Sat.bind (sat_writeBlock_nil _ _) ?_
          rintro _ _ rfl
          exact htail h (SameBlocks.refl _) fun hpos => absurd hpos (by simp)
      split
      · rename_i hnone
        have hmissing : ¬f'.Present s first data.length := by
          rw [hpresent hsome, File.start, if_pos hnone]
          exact fun hthere => hthere.1 rfl
        have hqwords : ulong (k + 7) >>> 3 ≠ 0 := by
          have hpow : 2 ^ s ≤ 2 ^ 31 :=
            Nat.pow_le_pow_right (by decide) (by have := h.shift_lt; omega)
          rw [ulong, Nat.mod_eq_of_lt (by omega), Nat.shiftRight_eq_div_pow]
          omega
        simp only [if_pos hqwords, if_neg hmissing]
        refine Sat.bind ((sat_addBlock_grows f' hfooter _).mono (fun _ _ h => h) fun _ _ _ => hmissing)
          fun _ f₁ h₁ => ?_
        refine Sat.bind ((sat_writeBlock_grows f₁ _ _ _).mono (fun _ _ h => h) fun _ _ _ => hmissing)
          fun _ f₂ h₂ => ?_
        have hlonger := lt_of_lt_of_le h₁ h₂
        split
        · refine Sat.bind ((sat_vhdWrite_grows f₂ hfooter _ _).mono (fun _ _ h => h)
            fun _ _ _ => hmissing) fun _ f₃ h₃ => ?_
          exact Sat.pure (lt_of_lt_of_le hlonger h₃)
        · exact Sat.pure hlonger
      · rename_i hsome'
        have hthere : f'.start (first / 2 ^ s) = some (512 * ntohl (f'.entry (first / 2 ^ s))) :=
          if_neg hsome'
        have hi : first / 2 ^ s < f'.entries :=
          lt_entries (by have := h.covers; omega)
        refine Sat.bind (sat_writeBlock_inside h hi hthere rfl ?_) fun _ f₁ h₁ => ?_
        · rw [List.length_take]
          omega
        · exact htail h₁.1 h₁.2 fun _ => by rw [hthere]; simp

theorem long_eq_iff (n : ℕ) : long n = n ↔ n < 2 ^ 31 := by
  have hmod : (BitVec.ofNat 32 n).toNat = n % 2 ^ 32 := BitVec.toNat_ofNat n 32
  rw [long, BitVec.toInt_eq_toNat_cond, hmod]
  split <;> omega

theorem long_lt (n : ℕ) : long n < 2 ^ 31 := BitVec.toInt_lt

/-- **A write of zeroes adds nothing** if and only if its size is a count that can be returned, and
it is empty or within the disk where every block is there already. -/
theorem keepsSparse_iff (h : WellFormed f s) (hv : v.For f s) :
    KeepsSparse v f first n ↔
      n < 2 ^ 31 ∧ (n = 0 ∨ first + n ≤ f.size ∧ f.Present s first n) := by
  have hlen : (List.replicate n (0 : UInt8)).length = n := List.length_replicate
  have hwrap (hn : n < 2 ^ 31) : (List.replicate n (0 : UInt8)).length + first % 2 ^ s < 2 ^ 32 := by
    have hpow : 2 ^ s ≤ 2 ^ 31 :=
      Nat.pow_le_pow_right (by decide) (by have := h.shift_lt; omega)
    have hmod := Nat.mod_lt first (Nat.two_pow_pos s)
    omega
  have houtside {fuel : ℕ} (hout : f.size < first + n) :
      vhdWrite v (fuel + 1) (List.replicate n 0) first f = .ok 0 f := by
    have hrange : v.currentSize < ((first + (List.replicate n (0 : UInt8)).length : ℕ) : ℤ) := by
      rw [hv.currentSize, hlen]
      exact_mod_cast hout
    rw [vhdWrite, if_pos hrange]
    rfl
  constructor
  · intro hkeeps
    obtain ⟨r, f', hok, hr, hlength, -⟩ := hkeeps (n + 1) (Nat.lt_succ_self n)
    have hn : n < 2 ^ 31 := by
      have := long_lt r
      rw [hr] at this
      exact_mod_cast this
    refine ⟨hn, or_iff_not_imp_left.mpr fun hne => ?_⟩
    have hin : first + n ≤ f.size := by
      by_contra hout
      rw [houtside (Nat.lt_of_not_le hout), EStateM.Result.ok.injEq] at hok
      rw [← hok.1] at hr
      have hzero : long 0 = 0 := by decide
      rw [hzero] at hr
      omega
    refine ⟨hin, ?_⟩
    by_contra hmissing
    have hsat := (sat_vhdWrite_length h hv (by rwa [hlen]) (hwrap hn)
      (by rw [hlen]; exact Nat.lt_succ_self n)).ok hok
    rw [hlen, if_neg hmissing] at hsat
    omega
  · rintro ⟨hn, hcond⟩ fuel hfuel
    rcases Nat.lt_or_ge f.size (first + n) with hout | hin
    · obtain rfl : n = 0 := by
        rcases hcond with hzero | hin
        · exact hzero
        · omega
      obtain ⟨fuel, rfl⟩ := Nat.exists_eq_succ_of_ne_zero (Nat.ne_of_gt hfuel)
      exact ⟨0, f, houtside hout, by decide, rfl, fun _ _ hi => hi⟩
    · have hpresent : f.Present s first n := by
        rcases hcond with rfl | ⟨-, hpresent⟩
        · exact present_zero _ _ _
        · exact hpresent
      obtain ⟨r, f', hok, hsat⟩ := (sat_vhdWrite_length h hv (by rwa [hlen]) (hwrap hn)
        (by rwa [hlen])).exists_ok (by
          rw [hlen]
          exact fun _ _ hmissing => hmissing hpresent)
      rw [hlen, if_pos hpresent] at hsat
      refine ⟨r, f', hok, ?_, hsat.2.length, fun i hi hnone => ?_⟩
      · rw [hsat.1]
        exact (long_eq_iff n).mpr hn
      · rw [hsat.2.start i hi, hnone]

end Write

/-- Zeroes in a block that is there. -/
theorem keepsSparse_megabyte : ∃ v, v.For (megabyte.extend 21 0) 21 ∧
    KeepsSparse v (megabyte.extend 21 0) 0 512 := by
  have hplain : Plain megabyte := ⟨by decide +kernel, by decide +kernel⟩
  obtain ⟨v, -, hv⟩ := wellFormed_megabyte.detect hplain
  have hi : 0 < megabyte.entries := by decide +kernel
  have hroom : (megabyte.length - 512) / 512 < noBlock := by decide
  have hsame := wellFormed_megabyte.sameHead_extend (i := 0)
  have hsize : (megabyte.extend 21 0).size = 0x100000 := by
    rw [hsame.size]
    decide +kernel
  refine ⟨v, hv.same hsame, (keepsSparse_iff (wellFormed_megabyte.extend hi hroom) (hv.same hsame)).mpr
    ⟨by decide, .inr ⟨by rw [hsize]; decide, ?_⟩⟩⟩
  rw [present_iff (by decide)]
  refine ⟨?_, present_zero _ _ _⟩
  rw [Nat.zero_div, wellFormed_megabyte.start_extend_self hi hroom]
  simp

/-- 512 zeroes in a disk without a block add a block of 2 MB. -/
theorem not_keepsSparse : ¬ ∀ (f : File) (s : ℕ) (v : Info) (first n : ℕ), WellFormed f s → v.For f s →
    n < 2 ^ 31 → first + n ≤ f.size → KeepsSparse v f first n := by
  intro hall
  have hplain : Plain megabyte := ⟨by decide +kernel, by decide +kernel⟩
  obtain ⟨v, -, hv⟩ := wellFormed_megabyte.detect hplain
  have hsize : megabyte.size = 0x100000 := by decide +kernel
  obtain ⟨n, hn⟩ : ∃ n, n = 512 := ⟨_, rfl⟩
  have hlen : (List.replicate n (0 : UInt8)).length = n := List.length_replicate
  obtain ⟨r, f', hok, -, hlength, -⟩ := hall megabyte 21 v 0 n wellFormed_megabyte hv (by omega)
    (by omega) (n + 1) (by omega)
  have hmissing : ¬megabyte.Present 21 0 n := by
    rw [present_iff (by omega)]
    exact fun hthere => hthere.1 (by decide +kernel)
  have hsat := (sat_vhdWrite_length wellFormed_megabyte hv (by omega) (by omega) (by omega)).ok hok
  rw [hlen, if_neg hmissing] at hsat
  omega

end KernelDrivers.ImDisk.Vhd
