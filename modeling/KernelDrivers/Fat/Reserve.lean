import KernelDrivers.Fat.Compact

/-!
# The books of a directory

`Booked` says how the bitmap and `UnusedDirentVbo` describe the slots: a clear bit belongs to
a free slot, below the offset every slot has been used at some time, and from it on every slot
is free.  With `exact` the bits of all free slots are clear; a routine that fails after it has
deleted a slot and before it has cleared the bit leaves the weaker form.

## Main definitions

* `Booked exact s u` — the bitmap and the hints of `s` are correct, and `UnusedDirentVbo` is `u`.
* `NoHidden` — no slot that has never been used stands before one that is in use.
* `Reserved` — the books after `FatCreateNewDirent`, with a range that is still to be written.

## Main results

* `sat_fatRescanDirectory`, `sat_fatDefragDirectory`, `sat_fatPrepareWriteDirectoryFile`
* `sat_fatCreateNewDirent` — a reservation, and when there is none.
* `Reserved.write`, `Booked.delete` — what callers do with slots.
-/

namespace KernelDrivers.Fat

/-- No slot that has never been used stands before one that is in use. -/
def NoHidden (ds : List Dirent) : Prop :=
  ∀ (i j : ℕ) (d e : Dirent), i < j → ds[i]? = some d → ds[j]? = some e →
    d.ordinal = Dirent.neverUsed → e.Free

structure Booked (exact : Prop) (s : Dcb) (u : ℕ) : Prop where
  unused_eq : s.unusedDirentVbo = some u
  unused_le : u ≤ s.dirents.length
  size_eq : s.freeDirentBitmap.size = s.dirents.length
  below : ∀ (i : ℕ) (d : Dirent), i < u → s.dirents[i]? = some d → d.ordinal ≠ Dirent.neverUsed
  above : ∀ (i : ℕ) (d : Dirent), u ≤ i → s.dirents[i]? = some d → d.Free
  free_of_clear : ∀ (i : ℕ) (d : Dirent), s.dirents[i]? = some d →
    s.freeDirentBitmap.bit i = false → d.Free
  clear_of_free : exact → ∀ (i : ℕ) (d : Dirent), s.dirents[i]? = some d → d.Free →
    s.freeDirentBitmap.bit i = false

theorem Booked.noHidden {exact : Prop} {s : Dcb} {u : ℕ} (h : Booked exact s u) :
    NoHidden s.dirents := by
  intro i j d e hij hd he hnever
  by_cases hi : i < u
  · exact absurd hnever (h.below i d hi hd)
  · exact h.above j e (by omega) he

/-! ## Rescan -/

namespace Rescan

/-- The loop has read the slots below `index`; the bits of all runs but the current one are
recorded. -/
structure Scanned (ds : List Dirent) (r : Rescan) : Prop where
  index_le : r.index ≤ ds.length
  start_le : r.startIndexOfThisRun ≤ r.index
  initial : r.currentRun = .initialRun → r.index = 0
  before : ∀ (i : ℕ) (d : Dirent), i < r.startIndexOfThisRun → ds[i]? = some d →
    (r.bitmap.bit i = false ↔ d.Free)
  within : ∀ (i : ℕ) (d : Dirent), r.startIndexOfThisRun ≤ i → i < r.index → ds[i]? = some d →
    (d.Free ↔ r.currentRun = .freeDirents)
  used : ∀ (i : ℕ) (d : Dirent), i < r.index → ds[i]? = some d → d.ordinal ≠ Dirent.neverUsed

variable {ds : List Dirent} {r : Rescan}

@[simp] theorem size_recordRun (r : Rescan) : r.recordRun.size = r.bitmap.size := by
  rw [recordRun]
  split <;> simp

@[simp] theorem size_step (r : Rescan) (d : Dirent) : (r.step d).bitmap.size = r.bitmap.size := by
  simp only [step]
  split
  · rfl
  · split
    · rfl
    · exact r.size_recordRun

@[simp] theorem index_step (r : Rescan) (d : Dirent) : (r.step d).index = r.index + 1 := by
  simp only [step]
  split
  · rfl
  · split <;> rfl

theorem Scanned.recorded (h : Scanned ds r) {i : ℕ} {d : Dirent} (hi : i < r.index)
    (hd : ds[i]? = some d) : r.recordRun.bit i = false ↔ d.Free := by
  by_cases hstart : i < r.startIndexOfThisRun
  · rw [← h.before i d hstart hd, recordRun]
    split
    · rw [Bitmap.bit_setBits, if_neg (by omega)]
    · rw [Bitmap.bit_clearBits, if_neg (by omega)]
  · have hwithin := h.within i d (by omega) hi hd
    have hstart := h.start_le
    rw [hwithin, recordRun]
    cases hrun : r.currentRun with
    | initialRun =>
        have := h.initial hrun
        omega
    | freeDirents =>
        simp only [Bitmap.bit_clearBits, iff_true]
        rw [if_pos (by omega)]
    | allocatedDirents =>
        simp only [Bitmap.bit_setBits]
        rw [if_pos (by omega)]
        simp

/-- One turn of the loop. -/
theorem Scanned.step {d : Dirent} (h : Scanned ds r) (hd : ds[r.index]? = some d)
    (hused : d.ordinal ≠ Dirent.neverUsed) : Scanned ds (r.step d) := by
  have hlt := (List.getElem?_eq_some_iff.mp hd).1
  have hfree : d.Free ↔ d.ordinal = Dirent.deleted := by simp [Dirent.Free, hused]
  have hstart := h.start_le
  have husedAll : ∀ (i : ℕ) (e : Dirent), i < r.index + 1 → ds[i]? = some e →
      e.ordinal ≠ Dirent.neverUsed := by
    intro i e hi he
    rcases Nat.lt_succ_iff_lt_or_eq.mp hi with hlt | rfl
    · exact h.used i e hlt he
    · rw [hd] at he
      exact Option.some.inj he ▸ hused
  -- the run that the slot belongs to
  have hrun : d.Free ↔ runOf d = .freeDirents := by
    rw [hfree, runOf]
    split <;> simp_all
  have hnot : runOf d ≠ .initialRun := by
    rw [runOf]
    split <;> simp
  simp only [Rescan.step]
  split
  · next hinitial =>
      have hzero := h.initial hinitial
      refine ⟨by dsimp only; omega, by dsimp only; omega, fun hrun => absurd hrun hnot, ?_, ?_, husedAll⟩
      · intro i e hi he
        dsimp only at hi
        omega
      · intro i e _ hi he
        dsimp only at hi
        have hi : i = r.index := by omega
        rw [hi, hd] at he
        exact Option.some.inj he ▸ hrun
  · split
    · next hinitial hsame =>
        refine ⟨by dsimp only; omega, by dsimp only; omega, fun hrun => absurd hrun hinitial,
          h.before, ?_, husedAll⟩
        intro i e hi hlt he
        dsimp only at hlt ⊢
        rcases Nat.lt_succ_iff_lt_or_eq.mp hlt with hlt | rfl
        · exact h.within i e hi hlt he
        · rw [hd] at he
          rw [← Option.some.inj he, hrun, hsame]
    · next hinitial hother =>
        refine ⟨by dsimp only; omega, by dsimp only; omega, fun hrun => absurd hrun hnot, ?_, ?_, husedAll⟩
        · intro i e hi he
          exact h.recorded hi he
        · intro i e hi hlt he
          dsimp only at hi hlt
          have hi : i = r.index := by omega
          rw [hi, hd] at he
          exact Option.some.inj he ▸ hrun

/-- The loop ends at the end of the directory or at a slot that has never been used. -/
theorem Scanned.scan (h : Scanned ds r) :
    Scanned ds (scan (ds.drop r.index) r) ∧
      (scan (ds.drop r.index) r).bitmap.size = r.bitmap.size ∧
      ∀ d, ds[(scan (ds.drop r.index) r).index]? = some d → d.ordinal = Dirent.neverUsed := by
  induction hk : ds.length - r.index generalizing r with
  | zero =>
      rw [List.drop_eq_nil_of_le (by omega), Rescan.scan]
      refine ⟨h, rfl, fun d hd => ?_⟩
      have := (List.getElem?_eq_some_iff.mp hd).1
      omega
  | succ k ih =>
      have hlt : r.index < ds.length := by omega
      have hd : ds[r.index]? = some ds[r.index] := List.getElem?_eq_getElem hlt
      rw [List.drop_eq_getElem_cons hlt, Rescan.scan]
      split
      · next hnever =>
          refine ⟨h, rfl, fun d hd' => ?_⟩
          rw [hd] at hd'
          exact Option.some.inj hd' ▸ hnever
      · next hused =>
          have hrec := ih (h.step hd hused) (by rw [index_step]; omega)
          rw [index_step, size_step] at hrec
          exact hrec

/-- A scan never changes the size of the bitmap. -/
theorem size_scan (ds : List Dirent) (r : Rescan) : (scan ds r).bitmap.size = r.bitmap.size := by
  induction ds generalizing r with
  | nil => rfl
  | cons d ds ih =>
      rw [scan]
      split
      · rfl
      · rw [ih, size_step]

end Rescan

theorem stateAfter_of_sat {α : Type} {x : EStateM DirentStatus Dcb α} {s : Dcb} {P : Dcb → Prop}
    (h : Sat x s (fun _ t => P t) (fun _ t => P t)) : P (stateAfter x s) := by
  rw [Sat] at h
  rw [stateAfter]
  cases hx : x s with
  | ok a t => simpa [hx] using h
  | error e t => simpa [hx] using h

section Open

variable {c : DirentCall} {s : Dcb}

theorem sat_fatCheckFreeDirentBitmap (length : ℕ) :
    Sat (fatCheckFreeDirentBitmap c length) s
      (fun _ t => ∃ b, t = { s with freeDirentBitmap := b } ∧
        (s.freeDirentBitmap.size < length → b = resizeBitmap s.freeDirentBitmap length c.stale) ∧
        (length ≤ s.freeDirentBitmap.size → b = s.freeDirentBitmap))
      (fun e t => t = s ∧ e = .ioError ∧ c.fault = some .bitmapPool) := by
  rw [fatCheckFreeDirentBitmap]
  apply Sat.get_bind
  by_cases hlt : s.freeDirentBitmap.size < length
  · simp only [if_pos hlt]
    by_cases hfault : c.fault = some .bitmapPool
    · simp only [if_pos hfault]
      exact ⟨rfl, rfl, hfault⟩
    · simp only [if_neg hfault]
      exact ⟨_, rfl, fun _ => rfl, fun hle => absurd hle (by omega)⟩
  · simp only [if_neg hlt]
    exact ⟨_, rfl, fun hle => absurd hle hlt, fun _ => rfl⟩

/-- Opening the directory does nothing once the bitmap is there. -/
theorem sat_fatOpenDirectoryFile_of_le (h : s.dirents.length ≤ s.freeDirentBitmap.size) :
    Sat (fatOpenDirectoryFile c) s (fun _ t => t = s) (fun _ _ => False) := by
  rw [fatOpenDirectoryFile]
  apply Sat.get_bind
  rw [fatCheckFreeDirentBitmap]
  apply Sat.get_bind
  rw [if_neg (by omega)]
  exact rfl

theorem sat_fatOpenDirectoryFile (h : s.freeDirentBitmap.size ≤ s.dirents.length) :
    Sat (fatOpenDirectoryFile c) s
      (fun _ t => ∃ b : Bitmap, b.size = s.dirents.length ∧ t = { s with freeDirentBitmap := b })
      (fun e t => t = s ∧ e = .ioError ∧ c.fault = some .bitmapPool) := by
  rw [fatOpenDirectoryFile]
  apply Sat.get_bind
  refine (sat_fatCheckFreeDirentBitmap s.dirents.length).mono ?_ fun _ _ he => he
  rintro _ t ⟨b, rfl, hnew, hold⟩
  refine ⟨b, ?_, rfl⟩
  rcases Nat.lt_or_ge s.freeDirentBitmap.size s.dirents.length with hlt | hge
  · rw [hnew hlt, resizeBitmap]
  · rw [hold hge]
    omega

/-- The hints and the bits that a rescan finds describe the slots. -/
theorem sat_fatRescanDirectory (exact : Prop) (hsize : s.freeDirentBitmap.size ≤ s.dirents.length)
    (hhidden : NoHidden s.dirents) :
    Sat (fatRescanDirectory c) s (fun _ t => t.dirents = s.dirents ∧ ∃ u, Booked exact t u)
      (fun e t => e = .ioError ∧ c.fault ≠ none ∧ t.dirents = s.dirents ∧
        t.unusedDirentVbo = s.unusedDirentVbo ∧ t.freeDirentBitmap.size ≤ t.dirents.length) := by
  rw [fatRescanDirectory]
  refine Sat.bind ((sat_fatOpenDirectoryFile hsize).mono (fun _ _ hq => hq) ?_) ?_
  · rintro e t ⟨rfl, rfl, hfault⟩
    exact ⟨rfl, by simp [hfault], rfl, rfl, hsize⟩
  rintro _ t ⟨b, hb, rfl⟩
  apply Sat.get_bind
  split
  · next j hfault =>
      apply Sat.set_bind
      refine ⟨rfl, by simp [hfault], rfl, rfl, ?_⟩
      rw [Rescan.size_scan]
      exact hb.le
  · have hstart : Rescan.Scanned s.dirents ⟨b, none, .initialRun, 0, 0⟩ := by
      refine ⟨Nat.zero_le _, le_rfl, fun _ => rfl, ?_, ?_, ?_⟩ <;> dsimp only <;> intros <;> omega
    dsimp only
    obtain ⟨hscan, hsz, hend⟩ := hstart.scan
    rw [List.drop_zero] at hscan hsz hend
    generalize Rescan.scan s.dirents ⟨b, none, .initialRun, 0, 0⟩ = r at *
    have habove : ∀ (i : ℕ) (d : Dirent), r.index ≤ i → s.dirents[i]? = some d → d.Free := by
      intro i d hi hd
      rcases Nat.eq_or_lt_of_le hi with rfl | hlt
      · exact .inl (hend d hd)
      · have hidx : r.index < s.dirents.length := by
          have := (List.getElem?_eq_some_iff.mp hd).1
          omega
        have hd' : s.dirents[r.index]? = some s.dirents[r.index] := List.getElem?_eq_getElem hidx
        exact hhidden _ _ _ _ hlt hd' hd (hend _ hd')
    have hbit : ∀ (i : ℕ) (d : Dirent), s.dirents[i]? = some d →
        ((r.recordRun.clearBits r.index (s.dirents.length - r.index)).bit i = false ↔ d.Free) := by
      intro i d hd
      have hlt := (List.getElem?_eq_some_iff.mp hd).1
      rw [Bitmap.bit_clearBits]
      by_cases hi : i < r.index
      · rw [if_neg (by omega)]
        exact hscan.recorded hi hd
      · rw [if_pos (by omega)]
        simpa using habove i d (by omega) hd
    refine ⟨rfl, r.index, rfl, hscan.index_le, ?_, hscan.used, habove, ?_, ?_⟩
    · simp only [Bitmap.size_clearBits, Rescan.size_recordRun]
      rw [hsz]
      exact hb
    · intro i d hd hclear
      exact (hbit i d hd).mp hclear
    · intro _ i d hd hfree
      exact (hbit i d hd).mpr hfree

end Open

/-! ## Delete -/

@[simp] theorem length_markSlots (ds : List Dirent) (first last : ℕ) :
    (markSlots ds first last).length = ds.length := by
  simp [markSlots]

theorem getElem?_markSlots (ds : List Dirent) (first last i : ℕ) :
    (markSlots ds first last)[i]? =
      ds[i]?.map fun d => if first ≤ i ∧ i ≤ last then d.markDeleted else d := by
  simp [markSlots]

/-- A marked slot is free, the others are as they were. -/
theorem getElem?_markSlots_eq_some {ds : List Dirent} {first last i : ℕ} {d : Dirent}
    (h : (markSlots ds first last)[i]? = some d) :
    first ≤ i ∧ i ≤ last ∧ d.ordinal = Dirent.deleted ∨
      ¬ (first ≤ i ∧ i ≤ last) ∧ ds[i]? = some d := by
  rw [getElem?_markSlots] at h
  obtain ⟨e, he, hd⟩ := Option.map_eq_some_iff.mp h
  by_cases hi : first ≤ i ∧ i ≤ last
  · rw [if_pos hi] at hd
    exact .inl ⟨hi.1, hi.2, hd ▸ e.ordinal_markDeleted⟩
  · rw [if_neg hi] at hd
    exact .inr ⟨hi, hd ▸ he⟩

/-- Marking slots hides nothing. -/
theorem NoHidden.markSlots {ds : List Dirent} (h : NoHidden ds) (first last : ℕ) :
    NoHidden (markSlots ds first last) := by
  intro i j d e hij hd he hnever
  rcases getElem?_markSlots_eq_some he with ⟨-, -, hdel⟩ | ⟨-, he⟩
  · exact .inr hdel
  · rcases getElem?_markSlots_eq_some hd with ⟨-, -, hdel⟩ | ⟨-, hd⟩
    · rw [hnever] at hdel
      exact absurd hdel (by decide)
    · exact h i j d e hij hd he hnever

section Books

variable {exact : Prop} {s : Dcb} {u : ℕ}

/-- Slots that are marked deleted, with their bits cleared. -/
theorem Booked.clear (h : Booked exact s u) (first n hint : ℕ) (hn : 0 < n) :
    Booked exact
      { s with
        dirents := markSlots s.dirents first (first + n - 1)
        freeDirentBitmap := s.freeDirentBitmap.clearBits first n
        deletedDirentHint := hint } u where
  unused_eq := h.unused_eq
  unused_le := by simpa using h.unused_le
  size_eq := by simpa using h.size_eq
  below i d hi hd := by
    rcases getElem?_markSlots_eq_some hd with ⟨-, -, hdel⟩ | ⟨-, hd⟩
    · simp [hdel, Dirent.deleted, Dirent.neverUsed]
    · exact h.below i d hi hd
  above i d hi hd := by
    rcases getElem?_markSlots_eq_some hd with ⟨-, -, hdel⟩ | ⟨-, hd⟩
    · exact .inr hdel
    · exact h.above i d hi hd
  free_of_clear i d hd hclear := by
    rcases getElem?_markSlots_eq_some hd with ⟨-, -, hdel⟩ | ⟨hout, hd⟩
    · exact .inr hdel
    · rw [Bitmap.bit_clearBits, if_neg (by omega)] at hclear
      exact h.free_of_clear i d hd hclear
  clear_of_free hexact i d hd hfree := by
    rw [Bitmap.bit_clearBits]
    rcases getElem?_markSlots_eq_some hd with ⟨hl, hr, -⟩ | ⟨hout, hd⟩
    · rw [if_pos (by omega)]
    · split
      · rfl
      · exact h.clear_of_free hexact i d hd hfree

theorem Booked.delete (h : Booked exact s u) {lfnOffset direntOffset : ℕ}
    (hle : lfnOffset ≤ direntOffset) : Booked exact (fatDeleteDirent lfnOffset direntOffset s) u := by
  have hlast : lfnOffset + (direntOffset - lfnOffset + 1) - 1 = direntOffset := by omega
  have hclear := h.clear lfnOffset (direntOffset - lfnOffset + 1)
    (if direntOffset < s.deletedDirentHint then lfnOffset else s.deletedDirentHint) (by omega)
  rwa [hlast] at hclear

/-- Slots that are marked deleted while their bits stay set. -/
theorem Booked.mark (h : Booked False s u) (first last : ℕ) :
    Booked False { s with dirents := markSlots s.dirents first last } u where
  unused_eq := h.unused_eq
  unused_le := by simpa using h.unused_le
  size_eq := by simpa using h.size_eq
  below i d hi hd := by
    rcases getElem?_markSlots_eq_some hd with ⟨-, -, hdel⟩ | ⟨-, hd⟩
    · simp [hdel, Dirent.deleted, Dirent.neverUsed]
    · exact h.below i d hi hd
  above i d hi hd := by
    rcases getElem?_markSlots_eq_some hd with ⟨-, -, hdel⟩ | ⟨-, hd⟩
    · exact .inr hdel
    · exact h.above i d hi hd
  free_of_clear i d hd hclear := by
    rcases getElem?_markSlots_eq_some hd with ⟨-, -, hdel⟩ | ⟨-, hd⟩
    · exact .inr hdel
    · exact h.free_of_clear i d hd hclear
  clear_of_free hfalse := hfalse.elim

/-! ## Growth -/

theorem bit_resizeBitmap {b : Bitmap} {size : ℕ} {stale : ℕ → Bool} (hold : 8 ∣ b.size)
    (hnew : 8 ∣ size) {i : ℕ} (hi : i < size) :
    (resizeBitmap b size stale).bit i = if i < b.size then b.bit i else false := by
  simp only [resizeBitmap, Nat.mul_div_cancel' hold, Nat.mul_div_cancel' hnew]
  rw [if_pos hi]

/-- A write at a slot is given clusters beyond it. -/
theorem DcbSite.lt_clusters (k : DcbSite) (slot : ℕ) :
    slot < (slot / k.direntsPerCluster + 1) * k.direntsPerCluster := by
  have := Nat.lt_div_mul_add (a := slot) k.pos
  rw [Nat.add_mul, Nat.one_mul]
  exact this

/-- New slots at the end, all of them zero. -/
theorem Booked.grow (h : Booked exact s u) {length : ℕ} (stale : ℕ → Bool)
    (hlt : s.dirents.length < length) (hold : 8 ∣ s.dirents.length) (hnew : 8 ∣ length) :
    Booked exact
      { s with
        dirents := s.dirents ++ List.replicate (length - s.dirents.length) Dirent.zero
        freeDirentBitmap := resizeBitmap s.freeDirentBitmap length stale } u := by
  have hslot : ∀ {i : ℕ} {d : Dirent},
      (s.dirents ++ List.replicate (length - s.dirents.length) Dirent.zero)[i]? = some d →
      i < s.dirents.length ∧ s.dirents[i]? = some d ∨
        s.dirents.length ≤ i ∧ i < length ∧ d = Dirent.zero := by
    intro i d hd
    rcases Nat.lt_or_ge i s.dirents.length with hi | hi
    · rw [List.getElem?_append_left hi] at hd
      exact .inl ⟨hi, hd⟩
    · rw [List.getElem?_append_right hi, List.getElem?_replicate] at hd
      split at hd
      · exact .inr ⟨hi, by omega, (Option.some.inj hd).symm⟩
      · cases hd
  have hbit : ∀ {i : ℕ}, i < length → (resizeBitmap s.freeDirentBitmap length stale).bit i =
      if i < s.dirents.length then s.freeDirentBitmap.bit i else false := by
    intro i hi
    rw [bit_resizeBitmap (h.size_eq ▸ hold) hnew hi, h.size_eq]
  have hu := h.unused_le
  refine ⟨h.unused_eq, ?_, ?_, ?_, ?_, ?_, ?_⟩
  · simp only [List.length_append]
    omega
  · simp only [resizeBitmap, List.length_append, List.length_replicate]
    omega
  · intro i d hi hd
    rcases hslot hd with ⟨-, hd⟩ | ⟨hge, -, -⟩
    · exact h.below i d hi hd
    · omega
  · intro i d hi hd
    rcases hslot hd with ⟨-, hd⟩ | ⟨-, -, rfl⟩
    · exact h.above i d hi hd
    · exact Dirent.free_zero
  · intro i d hd hclear
    rcases hslot hd with ⟨hi, hd⟩ | ⟨-, -, rfl⟩
    · rw [hbit (by omega), if_pos hi] at hclear
      exact h.free_of_clear i d hd hclear
    · exact Dirent.free_zero
  · intro hexact i d hd hfree
    rcases hslot hd with ⟨hi, hd⟩ | ⟨hge, hi, -⟩
    · rw [hbit (by omega), if_pos hi]
      exact h.clear_of_free hexact i d hd hfree
    · rw [hbit hi, if_neg (by omega)]

variable {c : DirentCall} {k : DcbSite}

/-- A write behind the end makes the directory longer by slots that are free. -/
theorem sat_fatPrepareWriteDirectoryFile (h : Booked exact s u) (slot : ℕ)
    (hzeroing : c.fault ≠ some .zeroing)
    (hbytes : s.dirents.length ≤ slot → k.fixedSize = false →
      8 ∣ s.dirents.length ∧ 8 ∣ k.direntsPerCluster) :
    Sat (fatPrepareWriteDirectoryFile k c slot) s
      (fun _ t => Booked exact t u ∧ slot < t.dirents.length ∧ s.dirents <+: t.dirents)
      (fun e t => t = s ∧ e ≠ .fileCorruptError) := by
  rw [fatPrepareWriteDirectoryFile]
  refine Sat.bind ((sat_fatOpenDirectoryFile_of_le h.size_eq.ge).mono (fun _ _ hq => hq)
    fun _ _ he => he.elim) ?_
  rintro _ s rfl
  apply Sat.get_bind
  by_cases hlen : s.dirents.length ≤ slot
  · simp only [if_pos hlen]
    cases hfixed : k.fixedSize with
    | true =>
        simp only [if_true]
        exact ⟨rfl, by simp⟩
    | false =>
        simp only [Bool.false_eq_true, if_false]
        by_cases hadd : c.fault = some .addAllocation
        · simp only [if_pos hadd]
          exact ⟨rfl, by simp⟩
        simp only [if_neg hadd]
        obtain ⟨hold, hdpc⟩ := hbytes hlen hfixed
        have hnew : 8 ∣ (slot / k.direntsPerCluster + 1) * k.direntsPerCluster :=
          Dvd.dvd.mul_left hdpc _
        have hslot := k.lt_clusters slot
        refine Sat.bind ((sat_fatCheckFreeDirentBitmap _).mono (fun _ _ hq => hq) ?_) ?_
        · rintro e t ⟨rfl, rfl, -⟩
          exact ⟨rfl, by simp⟩
        rintro _ t ⟨b, rfl, hb, -⟩
        simp only [if_neg hzeroing]
        have hb := hb (by rw [h.size_eq]; omega)
        refine Sat.modify ⟨?_, ?_, List.prefix_append _ _⟩
        · rw [hb]
          exact h.grow c.stale (by omega) hold hnew
        · simp only [List.length_append, List.length_replicate]
          omega
  · simp only [if_neg hlen]
    exact ⟨h, by omega, List.prefix_rfl⟩

/-! ## Defragmentation -/

section Defrag

variable {nls : Nls} {chicagoMode : Bool}

/-- Behind the last entry nothing is in use, when every long-name dirent has an owner. -/
theorem Booked.free_behind {q : ℕ} (h : Booked exact s u) (howned : chicagoMode = true → Owned s.dirents)
    (hnone : NoEntry chicagoMode s.dirents q) {i : ℕ} {d : Dirent} (hi : q ≤ i)
    (hd : s.dirents[i]? = some d) : d.Free := by
  by_contra hlive
  have hentry : ∀ (j : ℕ) (e : Dirent), q ≤ j → s.dirents[j]? = some e → ¬ e.Free →
      ¬ (chicagoMode = true → e.attributes ≠ Dirent.attrLfn) := by
    intro j e hj he hused hattr
    obtain ⟨m, f, -, hm, hf, hnever⟩ := hnone j e hj he hused hattr
    exact hused (h.noHidden m j f e hm hf he hnever)
  have hlfn := hentry i d hi hd hlive
  push Not at hlfn
  obtain ⟨hmode, hlfn⟩ := hlfn
  obtain ⟨j, e, hij, he, hused, hattr⟩ := howned hmode i d hd hlive hlfn
  exact hentry j e (by omega) he hused fun _ => hattr

theorem Booked.compact (h : Booked exact s u) {rs : List (ℕ × ℕ)}
    (hruns : RunsFrom s.dirents 0 rs)
    (hbehind : ∀ (i : ℕ) (d : Dirent), runsEnd 0 rs ≤ i → s.dirents[i]? = some d → d.Free) :
    Booked exact
      { s with
        dirents := compacted s.dirents rs
        freeDirentBitmap := (s.freeDirentBitmap.setBits 0 (runsTotal rs)).clearBits
          (runsTotal rs) (s.dirents.length - runsTotal rs) } u := by
  have hlen := length_compacted hruns
  have hend := runsEnd_le hruns (Nat.zero_le u) h.above
  have htotal := runsTotal_le hruns
  have hfree : ∀ {i : ℕ} {d : Dirent}, (compacted s.dirents rs)[i]? = some d →
      runsTotal rs ≤ i → d.Free := by
    intro i d hd hi
    rcases Nat.lt_or_ge i (runsEnd 0 rs) with hlt | hge
    · exact .inr (deleted_compacted hruns hi hlt hd)
    · rw [getElem?_compacted hruns hge] at hd
      exact hbehind i d hge hd
  refine ⟨h.unused_eq, ?_, ?_, ?_, ?_, ?_, ?_⟩
  · exact hlen.symm ▸ h.unused_le
  · exact hlen.symm ▸ h.size_eq
  · intro i d hi hd
    rcases Nat.lt_or_ge i (runsTotal rs) with hlt | hge
    · intro hnever
      exact live_compacted hruns hlt hd (.inl hnever)
    · rcases Nat.lt_or_ge i (runsEnd 0 rs) with hlt | hge'
      · rw [deleted_compacted hruns hge hlt hd]
        decide
      · rw [getElem?_compacted hruns hge'] at hd
        exact h.below i d hi hd
  · intro i d hi hd
    exact hfree hd (by omega)
  · intro i d hd hclear
    apply hfree hd
    by_contra hlt
    rw [Bitmap.bit_clearBits, if_neg (by omega), Bitmap.bit_setBits, if_pos (by omega)] at hclear
    exact absurd hclear (by simp)
  · intro _ i d hd hfree
    have hi : runsTotal rs ≤ i := by
      by_contra hlt
      exact live_compacted hruns (by omega) hd hfree
    have hlt := (List.getElem?_eq_some_iff.mp hd).1
    dsimp only at hlt
    rw [Bitmap.bit_clearBits, if_pos (by omega)]

/-- The compacted directory ends with free slots, if there are enough of them. -/
theorem sat_fatDefragDirectory (h : Booked exact s u) (n : ℕ)
    (howned : 32 * s.dirents.length ≤ 0x40000 → chicagoMode = true → Owned s.dirents) :
    Sat (fatDefragDirectory nls chicagoMode c n) s
      (fun r t => Booked exact t u ∧ t.dirents.length = s.dirents.length ∧
        ∀ off, r = some off → off ≤ u ∧ off + n ≤ t.dirents.length ∧
          ∀ (i : ℕ) (d : Dirent), off ≤ i → t.dirents[i]? = some d → d.Free)
      (fun e t => t = s ∧ (e = .fileCorruptError → Malformed s.dirents)) := by
  rw [fatDefragDirectory]
  apply Sat.get_bind
  by_cases hsmall : 32 * s.dirents.length ≤ 0x40000
  · simp only [dif_pos hsmall]
    by_cases hfault : c.fault = some .compacting
    · simp only [if_pos hfault]
      exact ⟨rfl, by simp⟩
    simp only [if_neg hfault]
    obtain ⟨hbad, hgood⟩ := entryRuns_spec nls chicagoMode ⟨s.dirents, by omega⟩
      s.dirents.length 0 (Nat.zero_le _) (by simp)
    split
    · next hnone => exact ⟨rfl, fun _ => hbad hnone⟩
    · next runs hsome =>
        obtain ⟨hruns, hnone⟩ := hgood runs hsome
        have hbehind : ∀ (i : ℕ) (d : Dirent), runsEnd 0 runs ≤ i → s.dirents[i]? = some d →
            d.Free := fun i d hi hd => h.free_behind (howned hsmall) hnone hi hd
        have htotal := runsTotal_le hruns
        have hend := runsEnd_le hruns (Nat.zero_le u) h.above
        have hlen : (compacted s.dirents runs).length = s.dirents.length := length_compacted hruns
        have hu := h.unused_le
        by_cases hroom : s.dirents.length - runsTotal runs < n
        · simp only [if_pos hroom]
          exact ⟨h, rfl, by simp⟩
        · simp only [if_neg hroom]
          refine ⟨h.compact hruns hbehind, hlen, ?_⟩
          intro off hoff
          obtain rfl := Option.some.inj hoff
          refine ⟨by omega, by dsimp only; omega, ?_⟩
          intro i d hi hd
          rcases Nat.lt_or_ge i (runsEnd 0 runs) with hlt | hge
          · exact .inr (deleted_compacted hruns hi hlt hd)
          · dsimp only at hd
            rw [getElem?_compacted hruns hge] at hd
            exact hbehind i d hge hd
  · simp only [dif_neg hsmall]
    exact ⟨h, rfl, by simp⟩

/-! ## Create -/

/-- There is no room behind the used slots, and no hole. -/
def Dcb.Full (s : Dcb) (n : ℕ) : Prop :=
  s.dirents.length < s.unusedDirentVbo.getD 0 + n ∧
    s.freeDirentBitmap.findClearBits n s.deletedDirentHint = none

/-- A range of free slots that leaves no gap behind the used ones. -/
structure Chosen (s : Dcb) (u n : ℕ) (r : Reservation) : Prop where
  offset_le : r.offset ≤ u
  unused_eq : r.unused = max u (r.offset + n)
  fits : r.offset + n ≤ s.dirents.length
  free : ∀ (i : ℕ) (d : Dirent), r.offset ≤ i → i < r.offset + n → s.dirents[i]? = some d → d.Free

/-- What a directory must be like for a call that makes it longer or compacts it. -/
structure Roomy (chicagoMode : Bool) (k : DcbSite) (s : Dcb) (n : ℕ) : Prop where
  grow : s.Full n → k.fixedSize = false → s.dirents.length < 64 * 1024 →
    8 ∣ s.dirents.length ∧ 8 ∣ k.direntsPerCluster
  defrag : s.Full n → k.fixedSize = true → 32 * s.dirents.length ≤ 0x40000 →
    chicagoMode = true → Owned s.dirents

theorem sat_chooseSlots {n : ℕ} (h : Booked exact s u) (hzeroing : c.fault ≠ some .zeroing)
    (hroomy : Roomy chicagoMode k s n) :
    Sat (chooseSlots nls chicagoMode k c n) s
      (fun r t => Booked exact t u ∧ Chosen t u n r ∧
        (¬ (s.Full n ∧ k.fixedSize = true) → s.dirents <+: t.dirents))
      (fun e t => Booked exact t u ∧ (e = .fileCorruptError → Malformed s.dirents)) := by
  rw [chooseSlots]
  apply Sat.get_bind
  simp only [h.unused_eq, Option.getD_some]
  by_cases htail : u + n ≤ s.dirents.length
  · simp only [if_pos htail]
    refine ⟨h, ⟨le_rfl, by dsimp only; omega, htail, ?_⟩, fun _ => List.prefix_rfl⟩
    exact fun i d hi _ hd => h.above i d hi hd
  simp only [if_neg htail]
  have hfull : s.freeDirentBitmap.findClearBits n s.deletedDirentHint = none → s.Full n := by
    intro hnone
    exact ⟨by rw [h.unused_eq]; simpa using htail, hnone⟩
  cases hhole : s.freeDirentBitmap.findClearBits n s.deletedDirentHint with
  | some off =>
      have hclear := Bitmap.clearAt_iff.mp (Bitmap.clearAt_of_findClearBits hhole)
      rw [h.size_eq] at hclear
      simp only [reduceCtorEq, false_and, if_false, pure_bind]
      refine ⟨h, ⟨by dsimp only; omega, rfl, hclear.1, fun i d hi hin hd => ?_⟩,
        fun _ => List.prefix_rfl⟩
      exact h.free_of_clear i d hd (hclear.2 i hi hin)
  | none =>
      have hfull := hfull hhole
      cases hfixed : k.fixedSize with
      | true =>
          -- a hole that is not found leaves the compaction, and then nothing
          by_cases hsmall : 32 * s.dirents.length ≤ 0x40000
          · simp only [hsmall, and_self, if_true]
            refine Sat.bind ((sat_fatDefragDirectory h n (hroomy.defrag hfull hfixed)).mono
              (fun _ _ hq => hq) ?_) ?_
            · rintro e t ⟨rfl, he⟩
              exact ⟨h, he⟩
            rintro r t ⟨ht, -, hr⟩
            cases r with
            | none =>
                simp only [or_true, if_true]
                exact ⟨ht, by simp⟩
            | some off =>
                obtain ⟨hle, hfits, hfree⟩ := hr off rfl
                refine ⟨ht, ⟨hle, rfl, hfits, fun i d hi _ hd => hfree i d hi hd⟩, ?_⟩
                exact fun hnot => absurd ⟨hfull, trivial⟩ hnot
          · simp only [hsmall, and_false, if_false, pure_bind, or_true, if_true]
            exact ⟨h, by simp⟩
      | false =>
          simp only [Bool.false_eq_true, false_and, and_false, if_false, pure_bind, or_false]
          by_cases hbig : 64 * 1024 ≤ s.dirents.length
          · simp only [if_pos hbig]
            exact ⟨h, by simp⟩
          simp only [if_neg hbig]
          have hbytes := hroomy.grow hfull hfixed (by omega)
          refine Sat.bind ((sat_fatPrepareWriteDirectoryFile h (u + n) hzeroing
            fun _ _ => hbytes).mono (fun _ _ hq => hq) ?_) ?_
          · rintro e t ⟨rfl, he⟩
            exact ⟨h, fun hcorrupt => absurd hcorrupt he⟩
          rintro _ t ⟨ht, hlt, hpre⟩
          refine ⟨ht, ⟨le_rfl, by dsimp only; omega, by dsimp only; omega, ?_⟩, fun _ => hpre⟩
          exact fun i d hi _ hd => ht.above i d hi hd

/-- The slot before the range has been used, so the look at it finds nothing wrong. -/
theorem sat_deleteOrphan {n : ℕ} {r : Reservation} (h : Booked exact s u) (hr : Chosen s u n r) :
    Sat (deleteOrphan chicagoMode k c r.offset n) s
      (fun _ t => Booked exact t u ∧ Chosen t u n r)
      (fun e t => t = s ∧ e = .ioError) := by
  rw [deleteOrphan]
  by_cases hcheck : chicagoMode ∧ n = 1 ∧ (if k.isRoot then 0 else 2) < r.offset
  · rw [if_pos hcheck]
    by_cases hfault : c.fault = some .readPrevious
    · simp only [if_pos hfault]
      exact ⟨rfl, rfl⟩
    simp only [if_neg hfault]
    apply Sat.get_bind
    have hu := h.unused_le
    have hle := hr.offset_le
    have hpos : 0 < r.offset := lt_of_le_of_lt (Nat.zero_le _) hcheck.2.2
    have hlt : r.offset - 1 < s.dirents.length := by omega
    have hd : s.dirents[r.offset - 1]? = some s.dirents[r.offset - 1] :=
      List.getElem?_eq_getElem hlt
    have hused := h.below (r.offset - 1) _ (by omega) hd
    rw [hd]
    simp only [if_neg hused]
    split
    · have hclear := h.clear (r.offset - 1) 1 s.deletedDirentHint Nat.one_pos
      rw [Nat.add_sub_cancel] at hclear
      refine ⟨hclear, hle, hr.unused_eq, by simpa using hr.fits, ?_⟩
      intro i d hi hin hd
      rcases getElem?_markSlots_eq_some hd with ⟨-, -, hdel⟩ | ⟨-, hd⟩
      · exact .inr hdel
      · exact hr.free i d hi hin hd
    · exact ⟨h, hr⟩
  · rw [if_neg hcheck]
    exact ⟨h, hr⟩

theorem sat_checkSlots {n : ℕ} {r : Reservation} (hr : Chosen s u n r) :
    Sat (checkSlots c r.offset n) s (fun _ t => t = s) (fun e t => t = s ∧ e = .ioError) := by
  rw [checkSlots]
  by_cases hfault : c.fault = some .readReserved
  · simp only [if_pos hfault]
    exact ⟨rfl, rfl⟩
  simp only [if_neg hfault]
  apply Sat.get_bind
  have hall : ((List.range n).all fun i =>
      (s.dirents[r.offset + i]?).any fun d => decide d.Free) = true := by
    rw [List.all_eq_true]
    intro i hi
    have hi := List.mem_range.mp hi
    have hfits := hr.fits
    have hd : s.dirents[r.offset + i]? = some (s.dirents.get ⟨r.offset + i, by omega⟩) :=
      List.getElem?_eq_getElem (by omega)
    rw [hd, Option.any_some, decide_eq_true_iff]
    exact hr.free _ _ (by omega) (by omega) hd
  simp only [hall]
  exact rfl

/-- The books with a range that is reserved and not yet written. -/
structure Reserved (exact : Prop) (s : Dcb) (u off n : ℕ) : Prop where
  unused_eq : s.unusedDirentVbo = some u
  unused_le : u ≤ s.dirents.length
  size_eq : s.freeDirentBitmap.size = s.dirents.length
  range_le : off + n ≤ u
  free : ∀ (i : ℕ) (d : Dirent), off ≤ i → i < off + n → s.dirents[i]? = some d → d.Free
  below : ∀ (i : ℕ) (d : Dirent), i < u → ¬ (off ≤ i ∧ i < off + n) → s.dirents[i]? = some d →
    d.ordinal ≠ Dirent.neverUsed
  above : ∀ (i : ℕ) (d : Dirent), u ≤ i → s.dirents[i]? = some d → d.Free
  set : ∀ i, off ≤ i → i < off + n → s.freeDirentBitmap.bit i = true
  free_of_clear : ∀ (i : ℕ) (d : Dirent), s.dirents[i]? = some d →
    s.freeDirentBitmap.bit i = false → d.Free
  clear_of_free : exact → ∀ (i : ℕ) (d : Dirent), ¬ (off ≤ i ∧ i < off + n) →
    s.dirents[i]? = some d → d.Free → s.freeDirentBitmap.bit i = false

theorem Booked.reserve {n : ℕ} {r : Reservation} (h : Booked exact s u) (hr : Chosen s u n r) :
    Reserved exact
      { s with
        freeDirentBitmap := s.freeDirentBitmap.setBits r.offset n
        unusedDirentVbo := some r.unused
        deletedDirentHint := r.hint } r.unused r.offset n := by
  have hu := h.unused_le
  have hle := hr.offset_le
  have heq := hr.unused_eq
  have hfits := hr.fits
  refine ⟨rfl, by dsimp only; omega, h.size_eq, by omega, hr.free, ?_, ?_, ?_, ?_, ?_⟩
  · intro i d hi hout hd
    exact h.below i d (by omega) hd
  · intro i d hi hd
    exact h.above i d (by omega) hd
  · intro i hi hin
    rw [Bitmap.bit_setBits, if_pos ⟨hi, hin⟩]
  · intro i d hd hclear
    rw [Bitmap.bit_setBits] at hclear
    split at hclear
    · cases hclear
    · exact h.free_of_clear i d hd hclear
  · intro hexact i d hout hd hfree
    rw [Bitmap.bit_setBits, if_neg hout]
    exact h.clear_of_free hexact i d hd hfree

/-- The range was free before the call. -/
def FreeRange (ds : List Dirent) (off n : ℕ) : Prop :=
  ∀ (i : ℕ) (d : Dirent), off ≤ i → i < off + n → ds[i]? = some d → d.Free

/-- With correct books a range of free slots is reserved, or the books stay correct. -/
theorem sat_reserveSlots {n : ℕ} (h : Booked exact s u) (hzeroing : c.fault ≠ some .zeroing)
    (hroomy : Roomy chicagoMode k s n) :
    Sat (reserveSlots nls chicagoMode k c n) s
      (fun off t => ∃ u', Reserved exact t u' off n ∧
        (¬ (s.Full n ∧ k.fixedSize = true) → FreeRange s.dirents off n))
      (fun e t => Booked exact t u ∧ (e = .fileCorruptError → Malformed s.dirents)) := by
  rw [reserveSlots]
  refine Sat.bind (sat_chooseSlots h hzeroing hroomy) ?_
  rintro r t ⟨ht, hr, hpre⟩
  have hbefore : ¬ (s.Full n ∧ k.fixedSize = true) → FreeRange s.dirents r.offset n := by
    intro hnot i d hi hin hd
    obtain ⟨ds, hds⟩ := hpre hnot
    refine hr.free i d hi hin ?_
    rw [← hds, List.getElem?_append_left (List.getElem?_eq_some_iff.mp hd).1]
    exact hd
  refine Sat.bind ((sat_deleteOrphan ht hr).mono (fun _ _ hq => hq) ?_) ?_
  · rintro e t' ⟨rfl, rfl⟩
    exact ⟨ht, by simp⟩
  rintro _ t' ⟨ht', hr'⟩
  refine Sat.bind ((sat_checkSlots hr').mono (fun _ _ hq => hq) ?_) ?_
  · rintro e t'' ⟨rfl, rfl⟩
    exact ⟨ht', by simp⟩
  rintro _ t' rfl
  exact ⟨r.unused, ht'.reserve hr', hbefore⟩

/-- The books are correct, or are still to be found. -/
def Kept (exact : Prop) (s : Dcb) : Prop :=
  s.unusedDirentVbo = none ∧ s.freeDirentBitmap.size ≤ s.dirents.length ∨ ∃ u, Booked exact s u

theorem Kept.delete {exact : Prop} (h : Kept exact s) {lfnOffset direntOffset : ℕ}
    (hle : lfnOffset ≤ direntOffset) :
    Kept exact (fatDeleteDirent lfnOffset direntOffset s) := by
  rcases h with ⟨hnone, hsize⟩ | ⟨u, hbooked⟩
  · exact .inl ⟨hnone, by simpa [fatDeleteDirent] using hsize⟩
  · exact .inr ⟨u, hbooked.delete hle⟩

/-- No `n` slots in a row are free. -/
def NoRoom (ds : List Dirent) (n : ℕ) : Prop :=
  ∀ i, i + n ≤ ds.length → ∃ (j : ℕ) (d : Dirent), i ≤ j ∧ j < i + n ∧ ds[j]? = some d ∧ ¬ d.Free

theorem not_noRoom_of_zero {ds : List Dirent} {i : ℕ} (hi : ds[i]? = some Dirent.zero) :
    ¬ NoRoom ds 1 := by
  intro hnone
  have hlt := (List.getElem?_eq_some_iff.mp hi).1
  obtain ⟨j, d, hj, hjn, hd, hlive⟩ := hnone i (by omega)
  have hji : j = i := by omega
  rw [hji, hi] at hd
  exact hlive (Option.some.inj hd ▸ Dirent.free_zero)

/-- With correct books the search of the bitmap fails only if there is no room. -/
theorem Booked.noRoom {s : Dcb} {u n : ℕ} (h : Booked True s u) (hn : 0 < n) (hfull : s.Full n) :
    NoRoom s.dirents n := by
  intro i hi
  by_contra hfree
  push Not at hfree
  have hnone := (Bitmap.findClearBits_eq_none_iff hn).mp hfull.2
  apply hnone i
  refine Bitmap.clearAt_iff.mpr ⟨h.size_eq ▸ hi, fun j hj hjn => ?_⟩
  have hd : s.dirents[j]? = some (s.dirents.get ⟨j, by omega⟩) :=
    List.getElem?_eq_getElem (by omega)
  exact h.clear_of_free trivial j _ hd (hfree j _ hj hjn hd)

/-- A call for `n` slots finds no room: by the slots when the books are still to be found, else
by the books. -/
def Dcb.Crowded (s : Dcb) (n : ℕ) : Prop :=
  if s.unusedDirentVbo = none then NoRoom s.dirents n else s.Full n

theorem Kept.noRoom {n : ℕ} (h : Kept True s) (hn : 0 < n) (hcrowded : s.Crowded n) :
    NoRoom s.dirents n := by
  rw [Dcb.Crowded] at hcrowded
  rcases h with ⟨hnone, -⟩ | ⟨u, hbooked⟩
  · rwa [if_pos hnone] at hcrowded
  · rw [if_neg (by simp [hbooked.unused_eq])] at hcrowded
    exact hbooked.noRoom hn hcrowded

theorem Booked.weaken (h : Booked True s u) : Booked exact s u :=
  { h with clear_of_free := fun _ => h.clear_of_free trivial }

/-- `FatCreateNewDirent` reserves a range of free slots, or leaves the books correct. -/
theorem sat_fatCreateNewDirent {n : ℕ} (h : Kept exact s) (hn : 0 < n)
    (hzeroing : c.fault ≠ some .zeroing)
    (hhidden : s.unusedDirentVbo = none → NoHidden s.dirents)
    (hgrow : s.Crowded n → k.fixedSize = false → s.dirents.length < 64 * 1024 →
      8 ∣ s.dirents.length ∧ 8 ∣ k.direntsPerCluster)
    (hdefrag : s.Crowded n → k.fixedSize = true → 32 * s.dirents.length ≤ 0x40000 →
      chicagoMode = true → Owned s.dirents) :
    Sat (fatCreateNewDirent nls chicagoMode k c n) s
      (fun off t => ∃ u, Reserved exact t u off n ∧
        (¬ (s.Crowded n ∧ k.fixedSize = true) → FreeRange s.dirents off n))
      (fun e t => Kept exact t ∧ (NoHidden s.dirents → NoHidden t.dirents) ∧
        (e = .fileCorruptError → Malformed s.dirents)) := by
  rw [fatCreateNewDirent]
  apply Sat.get_bind
  rcases h with ⟨hnone, hsize⟩ | ⟨u, hbooked⟩
  · simp only [hnone, if_true]
    refine Sat.bind ((sat_fatRescanDirectory True hsize (hhidden hnone)).mono
      (fun _ _ hq => hq) ?_) ?_
    · rintro e t ⟨rfl, -, hds, hunused, hsize⟩
      exact ⟨.inl ⟨hunused.trans hnone, hsize⟩, fun hh => hds ▸ hh, by simp⟩
    rintro _ t ⟨hds, u, hbooked⟩
    -- what the new books find full is full
    have hcrowded : t.Full n → s.Crowded n := by
      intro hfull
      rw [Dcb.Crowded, if_pos hnone, ← hds]
      exact hbooked.noRoom hn hfull
    have hroomy : Roomy chicagoMode k t n := by
      refine ⟨fun hfull => ?_, fun hfull => ?_⟩
      · exact hds ▸ hgrow (hcrowded hfull)
      · exact hds ▸ hdefrag (hcrowded hfull)
    have hweak : Booked exact t u := hbooked.weaken
    refine (sat_reserveSlots hweak hzeroing hroomy).mono ?_ ?_
    · rintro off t' ⟨u', hres, hfree⟩
      exact ⟨u', hres, fun hnot => hds ▸ hfree fun hfull => hnot ⟨hcrowded hfull.1, hfull.2⟩⟩
    · rintro e t' ⟨ht', hcorrupt⟩
      exact ⟨.inr ⟨u, ht'⟩, fun _ => ht'.noHidden, fun he => hds ▸ hcorrupt he⟩
  · have hsome : s.unusedDirentVbo ≠ none := by simp [hbooked.unused_eq]
    have hcrowded : s.Full n → s.Crowded n := by
      intro hfull
      rwa [Dcb.Crowded, if_neg hsome]
    have hroomy : Roomy chicagoMode k s n :=
      ⟨fun hfull => hgrow (hcrowded hfull), fun hfull => hdefrag (hcrowded hfull)⟩
    rw [if_neg hsome]
    refine (sat_reserveSlots hbooked hzeroing hroomy).mono ?_ ?_
    · rintro off t' ⟨u', hres, hfree⟩
      exact ⟨u', hres, fun hnot => hfree fun hfull => hnot ⟨hcrowded hfull.1, hfull.2⟩⟩
    · rintro e t' ⟨ht', hcorrupt⟩
      exact ⟨.inr ⟨u, ht'⟩, fun _ => ht'.noHidden, hcorrupt⟩

/-! ## What a caller does with the range -/

theorem getElem?_writeDirents {off i : ℕ} {es : List Dirent}
    (hfits : off + es.length ≤ s.dirents.length) :
    (writeDirents off es s).dirents[i]? =
      if off ≤ i ∧ i < off + es.length then es[i - off]? else s.dirents[i]? := by
  simp only [writeDirents, List.append_assoc]
  have htake : (s.dirents.take off).length = off := by
    rw [List.length_take]
    omega
  rcases Nat.lt_or_ge i off with hi | hi
  · rw [if_neg (by omega), List.getElem?_append_left (by omega), List.getElem?_take, if_pos hi]
  · rw [List.getElem?_append_right (by omega), htake]
    split
    · rw [List.getElem?_append_left (by omega)]
    · rw [List.getElem?_append_right (by omega), List.getElem?_drop]
      congr 1
      omega

theorem length_writeDirents {off : ℕ} {es : List Dirent}
    (hfits : off + es.length ≤ s.dirents.length) :
    (writeDirents off es s).dirents.length = s.dirents.length := by
  simp only [writeDirents, List.length_append, List.length_take, List.length_drop]
  omega

/-- The range is written with dirents that are in use. -/
theorem Reserved.write {off : ℕ} {es : List Dirent} (h : Reserved exact s u off es.length)
    (hes : ∀ e ∈ es, ¬ e.Free) : Booked exact (writeDirents off es s) u := by
  have hu := h.unused_le
  have hrange := h.range_le
  have hslot : ∀ {i : ℕ} {d : Dirent}, (writeDirents off es s).dirents[i]? = some d →
      off ≤ i ∧ i < off + es.length ∧ ¬ d.Free ∨
        ¬ (off ≤ i ∧ i < off + es.length) ∧ s.dirents[i]? = some d := by
    intro i d hd
    rw [getElem?_writeDirents (by omega)] at hd
    split at hd
    · next hin => exact .inl ⟨hin.1, hin.2, hes d (List.mem_of_getElem? hd)⟩
    · next hout => exact .inr ⟨hout, hd⟩
  refine ⟨h.unused_eq, ?_, ?_, ?_, ?_, ?_, ?_⟩
  · rw [length_writeDirents (by omega)]
    exact hu
  · rw [length_writeDirents (by omega)]
    exact h.size_eq
  · intro i d hi hd
    rcases hslot hd with ⟨-, -, hlive⟩ | ⟨hout, hd⟩
    · exact fun hnever => hlive (.inl hnever)
    · exact h.below i d hi hout hd
  · intro i d hi hd
    rcases hslot hd with ⟨-, hin, -⟩ | ⟨-, hd⟩
    · omega
    · exact h.above i d hi hd
  · intro i d hd hclear
    rcases hslot hd with ⟨hl, hin, -⟩ | ⟨-, hd⟩
    · exact absurd (h.set i hl hin) (by simpa [writeDirents] using hclear)
    · exact h.free_of_clear i d hd hclear
  · intro hexact i d hd hfree
    rcases hslot hd with ⟨-, -, hlive⟩ | ⟨hout, hd⟩
    · exact absurd hfree hlive
    · exact h.clear_of_free hexact i d hout hd hfree

end Defrag

end Books

end KernelDrivers.Fat
