import Mathlib.Data.Finset.Card
import Mathlib.Data.Nat.Find
import Mathlib.Order.Interval.Finset.Nat
import Mathlib.Tactic

/-!
# Run-time bitmaps

The kernel's bitmap package, as its callers see it: a size and one bit for each
index below it.  The package's searches are given by what they are documented to
return.  `findClearBits` answers with the first clear run at or after the hint
and starts over from index zero when there is none; `findLongestRunClear` answers
with the first of the longest clear runs.

## Main definitions

* `Bitmap.ClearAt b i n` — the `n` bits from index `i` exist and are clear.
* `Bitmap.findClearBits`, `Bitmap.findLongestRunClear` — the two searches.
-/

namespace KernelDrivers

/-- A bitmap of `size` bits.  A set bit means occupied. -/
structure Bitmap where
  size : ℕ
  bit : ℕ → Bool

namespace Bitmap

/-- Set the `n` bits from index `i`. -/
def setBits (b : Bitmap) (i n : ℕ) : Bitmap :=
  { b with bit := fun j => if i ≤ j ∧ j < i + n then true else b.bit j }

/-- Clear the `n` bits from index `i`. -/
def clearBits (b : Bitmap) (i n : ℕ) : Bitmap :=
  { b with bit := fun j => if i ≤ j ∧ j < i + n then false else b.bit j }

@[simp] theorem size_setBits (b : Bitmap) (i n : ℕ) : (b.setBits i n).size = b.size := rfl
@[simp] theorem size_clearBits (b : Bitmap) (i n : ℕ) : (b.clearBits i n).size = b.size := rfl

theorem bit_setBits (b : Bitmap) (i n j : ℕ) :
    (b.setBits i n).bit j = if i ≤ j ∧ j < i + n then true else b.bit j := rfl

theorem bit_clearBits (b : Bitmap) (i n j : ℕ) :
    (b.clearBits i n).bit j = if i ≤ j ∧ j < i + n then false else b.bit j := rfl

/-- The `n` bits from index `i` lie inside the bitmap and are clear. -/
def ClearAt (b : Bitmap) (i n : ℕ) : Prop :=
  i + n ≤ b.size ∧ ∀ j < n, b.bit (i + j) = false

instance (b : Bitmap) (i n : ℕ) : Decidable (b.ClearAt i n) :=
  inferInstanceAs (Decidable (i + n ≤ b.size ∧ ∀ j < n, b.bit (i + j) = false))

theorem clearAt_iff {b : Bitmap} {i n : ℕ} :
    b.ClearAt i n ↔ i + n ≤ b.size ∧ ∀ j, i ≤ j → j < i + n → b.bit j = false := by
  refine and_congr_right fun _ => ⟨fun h j hj hjn => ?_, fun h j hj => h _ (by omega) (by omega)⟩
  have := h (j - i) (by omega)
  rwa [Nat.add_sub_cancel' hj] at this

/-- A clear run contains every shorter run inside it. -/
theorem ClearAt.mono {b : Bitmap} {i n i' n' : ℕ} (h : b.ClearAt i n)
    (hi : i ≤ i') (hn : i' + n' ≤ i + n) : b.ClearAt i' n' := by
  rw [clearAt_iff] at h ⊢
  exact ⟨by omega, fun j hj hjn => h.2 j (by omega) (by omega)⟩

/-- True when the run exists, is not empty and is clear. -/
def areBitsClear (b : Bitmap) (i n : ℕ) : Bool := decide (n ≠ 0 ∧ b.ClearAt i n)

/-- The first clear run of `n` bits at or after `hint`, else the first one in the
bitmap.  `none` stands for the package's all-ones error return. -/
def findClearBits (b : Bitmap) (n hint : ℕ) : Option ℕ :=
  ((List.range' hint (b.size - hint)).find? fun i => decide (b.ClearAt i n)).or
    ((List.range b.size).find? fun i => decide (b.ClearAt i n))

/-- A run that the search returns is clear. -/
theorem clearAt_of_findClearBits {b : Bitmap} {n hint i : ℕ}
    (h : b.findClearBits n hint = some i) : b.ClearAt i n := by
  rcases Option.or_eq_some_iff.mp h with h | ⟨_, h⟩
  · simpa using List.find?_some h
  · simpa using List.find?_some h

/-- A run that the search returns begins inside the bitmap. -/
theorem lt_of_findClearBits {b : Bitmap} {n hint i : ℕ} (h : b.findClearBits n hint = some i) :
    i < b.size := by
  rcases Option.or_eq_some_iff.mp h with h | ⟨_, h⟩
  · have := List.mem_range'_1.mp (List.mem_of_find?_eq_some h)
    omega
  · exact List.mem_range.mp (List.mem_of_find?_eq_some h)

/-- The search covers the whole bitmap: it fails only when there is no run. -/
theorem findClearBits_eq_none_iff {b : Bitmap} {n hint : ℕ} (hn : 0 < n) :
    b.findClearBits n hint = none ↔ ∀ i, ¬ b.ClearAt i n := by
  rw [findClearBits, Option.or_eq_none_iff, List.find?_eq_none, List.find?_eq_none]
  constructor
  · rintro ⟨_, h⟩ i hi
    have hlt : i < b.size := by have := hi.1; omega
    exact absurd hi (by simpa using h i (List.mem_range.mpr hlt))
  · intro h
    exact ⟨fun i _ => by simpa using h i, fun i _ => by simpa using h i⟩

theorem isSome_findClearBits_iff {b : Bitmap} {n : ℕ} (hint : ℕ) (hn : 0 < n) :
    (b.findClearBits n hint).isSome ↔ ∃ i, b.ClearAt i n := by
  rw [Option.isSome_iff_ne_none, Ne, findClearBits_eq_none_iff hn, not_forall_not]

/-- A clear run at the hint itself is the one returned. -/
theorem findClearBits_eq_hint {b : Bitmap} {n hint : ℕ} (hn : 0 < n)
    (h : b.ClearAt hint n) : b.findClearBits n hint = some hint := by
  have hlt : hint < b.size := by have := h.1; omega
  have hne : b.size - hint = (b.size - hint - 1) + 1 := by omega
  rw [findClearBits, hne, List.range'_succ, List.find?_cons_of_pos (by simpa using h)]
  rfl

/-- Searched from the front, the first clear run is returned. -/
theorem le_of_findClearBits_zero {b : Bitmap} {n i i' : ℕ} (hn : 0 < n)
    (h : b.findClearBits n 0 = some i) (h' : b.ClearAt i' n) : i ≤ i' := by
  have hlt : i' < b.size := by have := h'.1; omega
  by_contra hgt
  rw [findClearBits, ← List.range_eq_range', Nat.sub_zero, Option.or_self,
    List.find?_range_eq_some] at h
  exact absurd h' (by simpa using h.2.2 i' (by omega))

/-- How long the longest clear run is. -/
def longestRun (b : Bitmap) : ℕ :=
  Nat.findGreatest (fun n => ∃ i < b.size, b.ClearAt i n) b.size

/-- The length and the index of the first of the longest clear runs; length zero
when every bit is set. -/
def findLongestRunClear (b : Bitmap) : ℕ × ℕ :=
  (b.longestRun, (b.findClearBits b.longestRun 0).getD 0)

theorem le_longestRun {b : Bitmap} {i n : ℕ} (h : b.ClearAt i n) : n ≤ b.longestRun := by
  rcases Nat.eq_zero_or_pos n with rfl | hn
  · exact Nat.zero_le _
  · have hlt := h.1
    exact Nat.le_findGreatest (by omega) ⟨i, by omega, h⟩

theorem clearAt_findLongestRunClear {b : Bitmap} (h : 0 < b.findLongestRunClear.1) :
    b.ClearAt b.findLongestRunClear.2 b.findLongestRunClear.1 := by
  have hspec : ∃ i < b.size, b.ClearAt i b.longestRun :=
    Nat.findGreatest_of_ne_zero (P := fun n => ∃ i < b.size, b.ClearAt i n) rfl h.ne'
  obtain ⟨i, _, hi⟩ := hspec
  have hsome : (b.findClearBits b.longestRun 0).isSome :=
    (isSome_findClearBits_iff 0 h).mpr ⟨i, hi⟩
  obtain ⟨k, hk⟩ := Option.isSome_iff_exists.mp hsome
  have := clearAt_of_findClearBits hk
  simpa [findLongestRunClear, hk] using this

theorem findLongestRunClear_lt {b : Bitmap} (hsize : 0 < b.size) :
    b.findLongestRunClear.2 < b.size := by
  rw [findLongestRunClear]
  cases hfind : b.findClearBits b.longestRun 0 with
  | none => exact hsize
  | some i => exact lt_of_findClearBits hfind

end Bitmap

end KernelDrivers
