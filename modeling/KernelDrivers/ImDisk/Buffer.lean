import Mathlib.Tactic

/-!
# The marks of the last-I/O buffer

`last_io_data` with `last_io_offset`, `last_io_length` and `last_io_lock`, and the test that
`ImDiskDispatchReadWrite` makes on them with a read.  The bytes are of any type.

## Main definitions

* `Marks` — the buffer, its marks and its lock.
* `Marks.look` — the next step of a read that looks at the buffer.
* `Marks.Seen` — what a read has loaded is still so.
* `Guarded` — the lock is held by the one read that is behind its acquisition.

## Main results

* `Marks.seen_look`, `Guarded.look` — a step of a read keeps both.
-/

namespace KernelDrivers.ImDisk

inductive Direction
  | read
  | write
  deriving DecidableEq, Repr

/-- `last_io_data`.  The size of the allocation is not stored in the source. -/
structure Buffer (β : Type) where
  size : ℕ
  bytes : ℕ → β

structure Marks (β : Type) where
  data : Option (Buffer β)
  lastOffset : ℕ
  lastLength : ℕ
  /-- The read whose dispatch routine holds `last_io_lock`. -/
  lock : Option ℕ

/-- Where `ImDiskDispatchReadWrite` is with a read.  `second` and `third` carry what the test has
loaded so far: whether the read starts at or behind `last_io_offset`, and `last_io_offset` as it
was loaded for the end of the range. -/
inductive LookupPc
  | acquire
  | test
  | first
  | second (above : Bool)
  | third (above : Bool) (offset : ℕ)
  | copy
  | release (answered : Bool)
  | finished (answered : Bool)
  deriving DecidableEq, Repr

namespace LookupPc

/-- The places of a read that holds the lock. -/
def locked : LookupPc → Bool
  | .acquire => false
  | .finished _ => false
  | _ => true

/-- The places between the test of `last_io_data` and the end of the copy. -/
def looking : LookupPc → Bool
  | .first => true
  | .second _ => true
  | .third _ _ => true
  | .copy => true
  | _ => false

theorem locked_of_looking {pc : LookupPc} (h : pc.looking = true) : pc.locked = true := by
  cases pc <;> simp_all [looking, locked]

end LookupPc

variable {β : Type}

namespace Marks

variable {m : Marks β} {i offset length : ℕ} {pc : LookupPc}

/-- The next step of read `i` of `length` bytes at `offset`.  Each mention of a mark in the test is
one load.  What is copied at `copy` is up to the caller. -/
def look (m : Marks β) (i offset length : ℕ) : LookupPc → Marks β × LookupPc
  | .acquire =>
      match m.lock with
      | none => ({ m with lock := some i }, .test)
      | some _ => (m, .acquire)
  | .test =>
      match m.data with
      | none => (m, .release false)
      | some _ => (m, .first)
  | .first => (m, .second (decide (m.lastOffset ≤ offset)))
  | .second above => (m, .third above m.lastOffset)
  | .third above last =>
      if above = true ∧ offset + length ≤ last + m.lastLength then (m, .copy)
      else (m, .release false)
  | .copy => (m, .release true)
  | .release answered => ({ m with lock := none }, .finished answered)
  | .finished answered => (m, .finished answered)

/-- What a read has loaded is still so, and there is a buffer behind a length. -/
def Seen (m : Marks β) (offset length : ℕ) (pc : LookupPc) : Prop :=
  (pc.looking = true → m.lastLength ≠ 0 → m.data ≠ none) ∧
  match pc with
  | .second above => above = true → m.lastOffset ≤ offset
  | .third above last => above = true → m.lastOffset ≤ offset ∧ last = m.lastOffset
  | .copy => m.lastOffset ≤ offset ∧ offset + length ≤ m.lastOffset + m.lastLength
  | _ => True

theorem seen_of_not_looking (h : pc.looking = false) : m.Seen offset length pc := by
  cases pc <;> simp_all [Seen, LookupPc.looking]

/-- A read sees no more of the marks than these. -/
theorem Seen.congr {m' : Marks β} (h : m.Seen offset length pc)
    (ho : m'.lastOffset = m.lastOffset) (hl : m'.lastLength = m.lastLength)
    (hd : pc.looking = true → m'.lastLength ≠ 0 → m'.data ≠ none) : m'.Seen offset length pc := by
  refine ⟨hd, ?_⟩
  rw [ho, hl]
  exact h.2

/-- A look changes nothing but the lock. -/
theorem look_fst (m : Marks β) (i offset length : ℕ) (pc : LookupPc) :
    ∃ lock, (m.look i offset length pc).1 = { m with lock := lock } := by
  unfold look
  split
  · split
    · exact ⟨_, rfl⟩
    · exact ⟨m.lock, rfl⟩
  · split <;> exact ⟨m.lock, rfl⟩
  · exact ⟨m.lock, rfl⟩
  · exact ⟨m.lock, rfl⟩
  · split <;> exact ⟨m.lock, rfl⟩
  · exact ⟨m.lock, rfl⟩
  · exact ⟨_, rfl⟩
  · exact ⟨m.lock, rfl⟩

theorem seen_look (h : m.Seen offset length pc) :
    (m.look i offset length pc).1.Seen offset length (m.look i offset length pc).2 := by
  cases pc with
  | acquire =>
      rw [look]
      split <;> exact seen_of_not_looking rfl
  | test =>
      rw [look]
      split
      · exact seen_of_not_looking rfl
      · next b hb => exact ⟨fun _ _ => by simp [hb], trivial⟩
  | first => exact ⟨fun _ => h.1 rfl, fun ha => of_decide_eq_true ha⟩
  | second above => exact ⟨fun _ => h.1 rfl, fun ha => ⟨h.2 ha, rfl⟩⟩
  | third above last =>
      rw [look]
      split
      · next htest =>
          obtain ⟨hle, hlast⟩ := h.2 htest.1
          exact ⟨fun _ => h.1 rfl, hle, hlast ▸ htest.2⟩
      · exact seen_of_not_looking rfl
  | copy => exact seen_of_not_looking rfl
  | release answered => exact seen_of_not_looking rfl
  | finished answered => exact seen_of_not_looking rfl

end Marks

/-! ### The lock -/

/-- The lock is held by the one read that is between its acquisition and its release. -/
structure Guarded (lock : Option ℕ) (pcs : List LookupPc) : Prop where
  locked : ∀ i pc, pcs[i]? = some pc → (pc.locked = true ↔ lock = some i)
  owner : ∀ i, lock = some i → i < pcs.length

namespace Guarded

variable {lock : Option ℕ} {pcs : List LookupPc} {m : Marks β} {i : ℕ} {pc : LookupPc}

theorem nil : Guarded none [] := ⟨by simp, by simp⟩

/-- A read that has not come to the lock yet. -/
theorem append (h : Guarded lock pcs) (hpc : pc.locked = false) : Guarded lock (pcs ++ [pc]) := by
  refine ⟨fun i pc' hi => ?_, fun i hi => ?_⟩
  · rw [List.getElem?_append] at hi
    split at hi
    · exact h.locked i pc' hi
    · next hge =>
        rw [List.getElem?_singleton] at hi
        split at hi
        · cases hi
          exact iff_of_false (by simp [hpc]) fun ho => hge (h.owner i ho)
        · cases hi
  · have := h.owner i hi
    rw [List.length_append]
    omega

/-- A free lock: nobody looks. -/
theorem not_looking (h : Guarded none pcs) (hpc : pc ∈ pcs) : pc.looking = false := by
  by_contra hlook
  obtain ⟨i, hi⟩ := List.getElem?_of_mem hpc
  have := (h.locked i pc hi).mp (LookupPc.locked_of_looking (by simpa using hlook))
  simp at this

/-- One read moves: the lock is as its place says, and is the same for all others. -/
theorem set (h : Guarded lock pcs) {lock' : Option ℕ} {pc' : LookupPc} (hi : i < pcs.length)
    (hself : pc'.locked = true ↔ lock' = some i)
    (hother : ∀ j, j ≠ i → (lock = some j ↔ lock' = some j)) : Guarded lock' (pcs.set i pc') := by
  refine ⟨fun j pc'' hj => ?_, fun j hj => ?_⟩
  · rw [List.getElem?_set] at hj
    by_cases hij : i = j
    · rw [if_pos hij, if_pos hi] at hj
      cases hj
      rw [← hij]
      exact hself
    · rw [if_neg hij] at hj
      rw [h.locked j pc'' hj, hother j fun hji => hij hji.symm]
  · rw [List.length_set]
    by_cases hij : j = i
    · rwa [hij]
    · exact h.owner j ((hother j hij).mpr hj)

theorem look (h : Guarded m.lock pcs) (hi : pcs[i]? = some pc) (offset length : ℕ) :
    Guarded (m.look i offset length pc).1.lock (pcs.set i (m.look i offset length pc).2) := by
  have hlt := (List.getElem?_eq_some_iff.mp hi).1
  have hlock := h.locked i pc hi
  cases pc with
  | acquire =>
      rw [Marks.look]
      split
      · next hfree =>
          refine h.set hlt (iff_of_true rfl rfl) fun j hj => ?_
          simp [hfree, hj.symm]
      · next k hk =>
          refine h.set hlt ?_ fun j _ => Iff.rfl
          exact hlock
  | test =>
      have hown := hlock.mp rfl
      rw [Marks.look]
      split <;> exact h.set hlt (iff_of_true rfl hown) fun j _ => Iff.rfl
  | first => exact h.set hlt (iff_of_true rfl (hlock.mp rfl)) fun j _ => Iff.rfl
  | second above => exact h.set hlt (iff_of_true rfl (hlock.mp rfl)) fun j _ => Iff.rfl
  | third above last =>
      have hown := hlock.mp rfl
      rw [Marks.look]
      split <;> exact h.set hlt (iff_of_true rfl hown) fun j _ => Iff.rfl
  | copy => exact h.set hlt (iff_of_true rfl (hlock.mp rfl)) fun j _ => Iff.rfl
  | release answered =>
      have hown := hlock.mp rfl
      refine h.set hlt (by simp [Marks.look, LookupPc.locked]) fun j hj => ?_
      simp [Marks.look, hown, hj.symm]
  | finished answered => exact h.set hlt hlock fun j _ => Iff.rfl

end Guarded

end KernelDrivers.ImDisk
