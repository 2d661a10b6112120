import KernelDrivers.Awe.Serve

/-!
# The passes of the copy loop

How much a pass copies depends on the request alone, not on the context or on what the system
answers.  The test whether a pass goes beyond its page adds two 32-bit values: when the sum wraps,
the pass is not cut and all of the request is copied at once.

## Main definitions

* `Request.nextPass` — the request behind a pass that copies.
* `Request.CopiesInPages` — the passes are parts of the request one behind the other, each in its
  page, and the last one ends with the request.

## Main results

* `Request.copyPass_eq_nextPass` — a pass of the machine is that pass.
* `Request.copiesInPages_iff` — when the loop stays in the pages.
-/

namespace KernelDrivers.Awe.Request

variable {c : Context} {r : Request} {x : Answer}

/-- The request behind a pass that copies. -/
def nextPass (r : Request) : Request := { r with lengthDone := r.lengthDone + r.bytesThisIter }

/-- The parts of a request that the copy loop goes by. -/
def extent (r : Request) : ℤ × ℕ × ℕ := (r.byteOffset, r.length, r.lengthDone)

/-- The loop ends, and what it copies up to then are consecutive parts of the request, all of them
not empty and each inside of its page. -/
def CopiesInPages (r : Request) : Prop :=
  ∃ n, (nextPass^[n] r).lengthDone = r.length ∧ ∀ k < n,
    0 < (nextPass^[k] r).bytesThisIter ∧
      getPageOffset (r.byteOffset + (nextPass^[k] r).lengthDone) + (nextPass^[k] r).bytesThisIter ≤
        allocPageSize

/-- A copy that is not outside of its page is the pass. -/
theorem transfer_eq_nextPass {m : Mapping} (hpc : (r.transfer c m).2.pc ≠ .fault) :
    (r.transfer c m).2.extent = r.nextPass.extent := by
  rw [transfer] at hpc ⊢
  dsimp only at hpc ⊢
  split at hpc
  · exact absurd rfl hpc
  · next hin =>
      rw [if_neg hin]
      split <;> rfl

/-- **A pass of the machine** from which the loop goes on is the pass, in every context. -/
theorem copyPass_eq_nextPass (hpc : (r.copyPass c x).2.pc = .copy) :
    r.lengthDone < r.length ∧ (r.copyPass c x).2.extent = r.nextPass.extent := by
  rw [copyPass] at hpc ⊢
  split at hpc
  · cases hpc
  next hlt =>
  refine ⟨not_le.mp hlt, ?_⟩
  rw [if_neg hlt]
  split at hpc
  · next page hmap =>
      cases hm : page.mapping with
      | none =>
          rw [hm] at hpc
          cases hpc
      | some m =>
          rw [hm] at hpc
          exact transfer_eq_nextPass (r := { r with page := page }) (by rw [hpc]; simp)
  · cases hpc

@[simp] theorem length_nextPass (r : Request) : r.nextPass.length = r.length := rfl

@[simp] theorem byteOffset_nextPass (r : Request) : r.nextPass.byteOffset = r.byteOffset := rfl

/-- The loop from where it is, when the sums stay in their types. -/
theorem exists_passes (h32 : r.byteOffset % allocPageSize + r.length < 2 ^ 32)
    (hle : r.lengthDone ≤ r.length) : CopiesInPages r := by
  obtain ⟨m, hm⟩ : ∃ m, m = r.length - r.lengthDone := ⟨_, rfl⟩
  induction m using Nat.strong_induction_on generalizing r with
  | _ m ih =>
      by_cases hlt : r.lengthDone < r.length
      · obtain ⟨hpos, hdone, hpage⟩ := bytesThisIter_spec h32 hlt
        obtain ⟨n, hend, hall⟩ := ih (r.length - (r.lengthDone + r.bytesThisIter)) (by omega)
          (r := r.nextPass) h32 hdone rfl
        refine ⟨n + 1, hend, fun k hk => ?_⟩
        cases k with
        | zero => exact ⟨hpos, hpage⟩
        | succ k => exact hall k (by omega)
      · exact ⟨0, by rw [Function.iterate_zero_apply]; omega, fun k hk => absurd hk (by omega)⟩

/-- **The copy loop stays in the pages** if and only if the first sum does not wrap. -/
theorem copiesInPages_iff (hdone : r.lengthDone = 0) (hlength : r.length < 2 ^ 32) :
    CopiesInPages r ↔ getPageOffset r.byteOffset + r.length < 2 ^ 32 := by
  have hpage := getPageOffset_lt r.byteOffset
  have hsum : r.byteOffset % allocPageSize + r.length < 2 ^ 32 ↔
      getPageOffset r.byteOffset + r.length < 2 ^ 32 := by
    rw [getPageOffset, allocPageSize]
    omega
  constructor
  · rintro ⟨n, hend, hall⟩
    by_contra hwrap
    have hstart : r.byteOffset + (r.lengthDone : ℤ) = r.byteOffset := by
      rw [hdone]
      simp
    cases n with
    | zero =>
        rw [Function.iterate_zero_apply, hdone] at hend
        rw [allocPageSize] at hpage
        omega
    | succ n =>
        have hfirst := (hall 0 (by omega)).2
        rw [Function.iterate_zero_apply, bytesThisIter, hstart, hdone, Nat.sub_zero] at hfirst
        -- the wrapped sum is in the page, so that nothing is cut
        rw [if_neg (by rw [allocPageSize] at hpage ⊢; omega)] at hfirst
        rw [allocPageSize] at hfirst
        omega
  · intro h32
    exact exists_passes (hsum.mpr h32) (by omega)

/-- A read that is about to copy. -/
def readAt (byteOffset : ℤ) (length : ℕ) : Request where
  major := .read
  byteOffset := byteOffset
  length := length
  systemBuffer _ := 0
  newSize := 0
  lengthDone := 0
  page := PageContext.empty
  information := 0
  pc := .copy
  holdsRead := true
  holdsWrite := false

/-- 64 MB across pages. -/
theorem copiesInPages_readAt : CopiesInPages (readAt 1 (64 * 2 ^ 20)) :=
  (copiesInPages_iff rfl (by decide)).mpr (by decide)

/-- A byte less than 4 GB from the second byte of a page on: all of it is one copy. -/
theorem not_copiesInPages : ¬ CopiesInPages (readAt 1 0xffffffff) := by
  rintro ⟨n, hend, hall⟩
  cases n with
  | zero => exact absurd hend (by decide)
  | succ n => exact absurd (hall 0 (by omega)).2 (by decide)

end KernelDrivers.Awe.Request
