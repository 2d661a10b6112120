import KernelDrivers.ImDisk.Control
import KernelDrivers.Lib.Turns

/-!
# Stream transfers

`ImDiskSafeIOStream` moves a buffer through a lower driver in as many requests as it takes.  A request
that the driver rejects for its size is made again with half of it, with no lower limit.

## Main definitions

* `Outcome` — what comes of one request.
* `turn` — one turn of the inner loop, with what the outer loop does behind it.
* `Transfers` — the function ends, and reports success only for the whole buffer.
* `Starves` — the driver rejects every request from some point on.

## Main results

* `progress` — how far the loops have come.
* `not_ends_of_starves` — rejections without end.
* `transfers_iff` — when a transfer is right.
-/

namespace KernelDrivers.ImDisk.SafeStream

open Disposal Turns

def invalidBufferSize : Status := 0xC0000206

def connectionReset : Status := 0xC000020D

/-- What comes of a request.  A wait that is cancelled ends with what the driver then completes the
request with. -/
structure Outcome where
  /-- `IoBuildSynchronousFsdRequest` succeeds. -/
  built : Bool
  /-- What `IoCallDriver` returns. -/
  call : Status
  /-- `IoStatusBlock`, once the request is complete. -/
  status : Status
  information : ℕ

structure State where
  lengthDone : ℕ
  requestLength : ℕ
  /-- Where in the buffer bytes have been moved, and how many. -/
  moved : List (ℕ × ℕ)

structure Result where
  status : Status
  information : ℕ
  moved : List (ℕ × ℕ)

/-- The condition of the outer loop. -/
def outer (length : ℕ) (s : State) : State ⊕ Result :=
  if s.lengthDone < length then .inl { s with requestLength := length - s.lengthDone }
  else .inr ⟨.success, s.lengthDone, s.moved⟩

/-- Whether the size is tried again. -/
def tooLarge (status : Status) : Bool := status = invalidBufferSize || status = .invalidParameter

/-- One request.  A request that the driver fails at once is not made again. -/
def turn (length : ℕ) (s : State) (o : Outcome) : State ⊕ Result :=
  if ¬ o.built then .inr ⟨.insufficientResources, s.lengthDone, s.moved⟩
  else if ¬ o.call.ok then .inr ⟨o.call, 0, s.moved⟩
  else if tooLarge o.status then .inl { s with requestLength := s.requestLength / 2 }
  else if ¬ o.status.ok then .inr ⟨o.status, 0, s.moved⟩
  else if o.information = 0 then .inr ⟨connectionReset, 0, s.moved⟩
  else outer length { s with
    lengthDone := (s.lengthDone + o.information) % 2 ^ 32
    moved := s.moved ++ [(s.lengthDone, o.information)] }

/-- `ImDiskSafeIOStream`, after some requests. -/
def safeIOStream (length : UInt32) (os : ℕ → Outcome) (n : ℕ) : State ⊕ Result :=
  after (turn length.toNat) (outer length.toNat ⟨0, 0, []⟩) os n

/-- The bytes of the buffer, in the order in which they were moved. -/
def bytesMoved (moved : List (ℕ × ℕ)) : List ℕ := moved.flatMap fun m => List.range' m.1 m.2

section Specification

variable (length : UInt32) (os : ℕ → Outcome)

/-- No request moves more bytes than it asks for. -/
def Honest : Prop :=
  ∀ n s, safeIOStream length os n = .inl s → (os n).information ≤ s.requestLength

/-- Success means that each byte has been moved once, in order. -/
def Result.Right (r : Result) : Prop :=
  r.status.ok = true → bytesMoved r.moved = List.range length.toNat ∧ r.information = length.toNat

/-- **The function ends**, and when it returns success the whole buffer has been moved. -/
def Transfers : Prop :=
  ∃ r, Ends (turn length.toNat) (outer length.toNat ⟨0, 0, []⟩) os r ∧ r.Right length

/-- The driver takes the request and rejects its size. -/
def Outcome.rejected (o : Outcome) : Bool := o.built && o.call.ok && tooLarge o.status

/-- The bytes that a successful request moves. -/
def Outcome.count (o : Outcome) : ℕ := if o.built && o.call.ok && o.status.ok then o.information else 0

/-- **Rejections without end**: behind some requests that neither fail nor fill the buffer, the driver
rejects every size. -/
def Starves : Prop :=
  ∃ n, (∀ m < n, (os m).rejected = true ∨ 0 < (os m).count) ∧
    ∑ m ∈ Finset.range n, (os m).count < length.toNat ∧ ∀ m, n ≤ m → (os m).rejected = true

end Specification

/-! ## One request -/

section Turn

variable {length : ℕ} {s : State} {o : Outcome}

theorem count_of_rejected (h : o.rejected = true) : o.count = 0 := by
  have hlarge : tooLarge o.status = true := by
    simp only [Outcome.rejected, Bool.and_eq_true] at h
    exact h.2
  have hfails : o.status.ok = false := by
    simp only [tooLarge, Bool.or_eq_true, decide_eq_true_eq] at hlarge
    rcases hlarge with h | h <;> rw [h] <;> rfl
  rw [Outcome.count, hfails, Bool.and_false]
  rfl

/-- What a request comes to. -/
theorem turn_cases (length : ℕ) (s : State) (o : Outcome) :
    (o.rejected = true ∧ turn length s o = .inl { s with requestLength := s.requestLength / 2 }) ∨
    (0 < o.count ∧ turn length s o = outer length { s with
      lengthDone := (s.lengthDone + o.count) % 2 ^ 32
      moved := s.moved ++ [(s.lengthDone, o.count)] }) ∨
    (¬ (o.rejected = true ∨ 0 < o.count) ∧ ∃ r, turn length s o = .inr r ∧ r.status.ok = false) := by
  cases hbuilt : o.built with
  | false =>
      have hends : turn length s o = .inr ⟨.insufficientResources, s.lengthDone, s.moved⟩ := by
        rw [turn, if_pos (by simp [hbuilt])]
      exact .inr (.inr ⟨by simp [Outcome.rejected, Outcome.count, hbuilt], _, hends, rfl⟩)
  | true =>
      cases hcall : o.call.ok with
      | false =>
          have hends : turn length s o = .inr ⟨o.call, 0, s.moved⟩ := by
            rw [turn, if_neg (by simp [hbuilt]), if_pos (by simp [hcall])]
          exact .inr (.inr ⟨by simp [Outcome.rejected, Outcome.count, hcall], _, hends, hcall⟩)
      | true =>
          have hturn : turn length s o =
              if tooLarge o.status then .inl { s with requestLength := s.requestLength / 2 }
              else if ¬ o.status.ok then .inr ⟨o.status, 0, s.moved⟩
              else if o.information = 0 then .inr ⟨connectionReset, 0, s.moved⟩
              else outer length { s with
                lengthDone := (s.lengthDone + o.information) % 2 ^ 32
                moved := s.moved ++ [(s.lengthDone, o.information)] } := by
            rw [turn, if_neg (by simp [hbuilt]), if_neg (by simp [hcall])]
          by_cases hlarge : tooLarge o.status = true
          · exact .inl ⟨by simp [Outcome.rejected, hbuilt, hcall, hlarge], by rw [hturn, if_pos hlarge]⟩
          · rw [if_neg hlarge] at hturn
            cases hok : o.status.ok with
            | false =>
                rw [if_pos (by simp [hok])] at hturn
                exact .inr (.inr ⟨by simp [Outcome.rejected, Outcome.count, hlarge, hok], _, hturn, hok⟩)
            | true =>
                rw [if_neg (by simp [hok])] at hturn
                have hcount : o.count = o.information := by simp [Outcome.count, hbuilt, hcall, hok]
                by_cases hzero : o.information = 0
                · rw [if_pos hzero] at hturn
                  exact .inr (.inr ⟨by simp [Outcome.rejected, hlarge, hcount, hzero], _, hturn, rfl⟩)
                · exact .inr (.inl ⟨by omega, by rw [hturn, if_neg hzero, hcount]⟩)

theorem bytesMoved_append (moved : List (ℕ × ℕ)) (first count : ℕ) :
    bytesMoved (moved ++ [(first, count)]) = bytesMoved moved ++ List.range' first count := by
  simp [bytesMoved]

end Turn

/-! ## All requests -/

section Run

variable {length : UInt32} {os : ℕ → Outcome}

/-- How far the loops have come. -/
structure Progress (length : UInt32) (os : ℕ → Outcome) (n : ℕ) (s : State) : Prop where
  done : s.lengthDone = ∑ m ∈ Finset.range n, (os m).count
  more : s.lengthDone < length.toNat
  request_le : s.requestLength ≤ length.toNat - s.lengthDone
  bytes : bytesMoved s.moved = List.range s.lengthDone
  onward : ∀ m < n, (os m).rejected = true ∨ 0 < (os m).count

/-- The outer loop goes on behind the bytes that have been moved, or all of them have been. -/
theorem outer_progress {n : ℕ} {s : State} (hdone : s.lengthDone = ∑ m ∈ Finset.range n, (os m).count)
    (hle : s.lengthDone ≤ length.toNat) (hbytes : bytesMoved s.moved = List.range s.lengthDone)
    (honward : ∀ m < n, (os m).rejected = true ∨ 0 < (os m).count) :
    (outer length.toNat s).elim (Progress length os n) (Result.Right length) := by
  rw [outer]
  split
  · next hlt => exact ⟨hdone, hlt, le_rfl, hbytes, honward⟩
  · next hlt =>
      have hall : s.lengthDone = length.toNat := by omega
      exact fun _ => ⟨hall ▸ hbytes, hall⟩

theorem turn_progress {n : ℕ} {s : State} (h : Progress length os n s)
    (hcount : (os n).count ≤ s.requestLength) :
    (turn length.toNat s (os n)).elim (Progress length os (n + 1)) (Result.Right length) := by
  have hlength := length.toNat_lt
  have hmore := h.more
  have hrequest := h.request_le
  rcases turn_cases length.toNat s (os n) with ⟨hrejected, hturn⟩ | ⟨hpos, hturn⟩ | ⟨-, r, hturn, hfails⟩
  · rw [hturn]
    have honward : ∀ m < n + 1, (os m).rejected = true ∨ 0 < (os m).count := by
      intro m hm
      rcases Nat.lt_succ_iff_lt_or_eq.mp hm with hlt | rfl
      · exact h.onward m hlt
      · exact .inl hrejected
    refine ⟨?_, hmore, (Nat.div_le_self _ 2).trans hrequest, h.bytes, honward⟩
    rw [Finset.sum_range_succ, count_of_rejected hrejected, add_zero]
    exact h.done
  · rw [hturn, Nat.mod_eq_of_lt (by omega)]
    have honward : ∀ m < n + 1, (os m).rejected = true ∨ 0 < (os m).count := by
      intro m hm
      rcases Nat.lt_succ_iff_lt_or_eq.mp hm with hlt | rfl
      · exact h.onward m hlt
      · exact .inr hpos
    refine outer_progress ?_ ?_ ?_ honward
    · rw [Finset.sum_range_succ, ← h.done]
    · change s.lengthDone + (os n).count ≤ length.toNat
      omega
    · change bytesMoved (s.moved ++ [_]) = List.range (s.lengthDone + (os n).count)
      rw [bytesMoved_append, h.bytes, List.range_eq_range', List.range_eq_range', ← List.range'_append_1,
        zero_add]
  · rw [hturn]
    intro hok
    rw [hfails] at hok
    cases hok

theorem count_le_information (o : Outcome) : o.count ≤ o.information := by
  rw [Outcome.count]
  split
  · exact le_rfl
  · exact Nat.zero_le _

/-- What the loops keep, for a driver that moves no more than it is asked for. -/
theorem progress (hhonest : Honest length os) (n : ℕ) :
    (safeIOStream length os n).elim (Progress length os n) (Result.Right length) := by
  refine invariant ?_ (fun n s hs h => ?_) n
  · exact outer_progress (by simp) (Nat.zero_le _) rfl (by simp)
  · exact turn_progress h ((count_le_information _).trans (hhonest n s hs))

theorem progress_of_inl (hhonest : Honest length os) {n : ℕ} {s : State}
    (h : safeIOStream length os n = .inl s) : Progress length os n s := by
  have hprogress := progress hhonest n
  rw [h] at hprogress
  exact hprogress

/-- What one more request adds. -/
theorem lengthDone_succ {n : ℕ} {s s' : State} (h : Progress length os n s)
    (h' : Progress length os (n + 1) s') : s'.lengthDone = s.lengthDone + (os n).count := by
  rw [h'.done, h.done, Finset.sum_range_succ]

/-- Rejections without end keep the inner loop going. -/
theorem not_ends_of_starves (h : Starves length os) (r : Result) :
    ¬ Ends (turn length.toNat) (outer length.toNat ⟨0, 0, []⟩) os r := by
  obtain ⟨n, honward, hbelow, hrejected⟩ := h
  have hlength := length.toNat_lt
  have hsum : ∀ m, n ≤ m → ∑ k ∈ Finset.range m, (os k).count = ∑ k ∈ Finset.range n, (os k).count := by
    intro m hm
    induction m, hm using Nat.le_induction with
    | base => rfl
    | succ m hm ih => rw [Finset.sum_range_succ, count_of_rejected (hrejected m hm), add_zero, ih]
  have hmore : ∀ m, ∑ k ∈ Finset.range m, (os k).count < length.toNat := by
    intro m
    rcases le_total n m with hle | hle
    · rw [hsum m hle]
      exact hbelow
    · exact (Finset.sum_le_sum_of_subset (Finset.range_mono hle)).trans_lt hbelow
  have hrun : ∀ m, ∃ s, safeIOStream length os m = .inl s ∧
      s.lengthDone = ∑ k ∈ Finset.range m, (os k).count := by
    intro m
    induction m with
    | zero =>
        refine ⟨⟨0, length.toNat - 0, []⟩, ?_, (Finset.sum_range_zero _).symm⟩
        rw [safeIOStream, after, outer, if_pos (by simpa using hmore 0)]
    | succ m ih =>
        obtain ⟨s, hs, hdone⟩ := ih
        have hnext := hmore (m + 1)
        rw [safeIOStream, after_succ hs, Finset.sum_range_succ]
        rw [Finset.sum_range_succ] at hnext
        rcases turn_cases length.toNat s (os m) with ⟨hrej, hturn⟩ | ⟨-, hturn⟩ | ⟨hstop, -⟩
        · exact ⟨_, hturn, by rw [count_of_rejected hrej]; exact hdone⟩
        · rw [hturn, Nat.mod_eq_of_lt (by omega), outer, if_pos (by dsimp only; omega)]
          exact ⟨_, rfl, by dsimp only; omega⟩
        · exact absurd ((lt_or_ge m n).elim (honward m) fun hm => .inl (hrejected m hm)) hstop
  exact not_ends fun m => (hrun m).imp fun _ h => h.1

end Run

variable {length : UInt32} {os : ℕ → Outcome}

/-- A loop that does not end comes to where nothing but rejections follow. -/
theorem ends_or_starves (hhonest : Honest length os) :
    (∃ r, Ends (turn length.toNat) (outer length.toNat ⟨0, 0, []⟩) os r) ∨ Starves length os := by
  have hsucc : ∀ n s s', safeIOStream length os n = .inl s → turn length.toNat s (os n) = .inl s' →
      Progress length os n s ∧ Progress length os (n + 1) s' := fun n s s' hs hnext =>
    ⟨progress_of_inl hhonest hs, progress_of_inl hhonest ((after_succ hs).trans hnext)⟩
  have hmono : ∀ n s s', safeIOStream length os n = .inl s → turn length.toNat s (os n) = .inl s' →
      length.toNat - s'.lengthDone ≤ length.toNat - s.lengthDone := by
    intro n s s' hs hnext
    obtain ⟨h, h'⟩ := hsucc n s s' hs hnext
    have hdone := lengthDone_succ h h'
    omega
  rcases ends_or_stalls (fun s : State => length.toNat - s.lengthDone) hmono with hends | ⟨n, hstalls⟩
  · exact .inl hends
  · refine .inr ⟨n, ?_, ?_, fun m hm => ?_⟩
    · obtain ⟨s, -, hs, -⟩ := hstalls n le_rfl
      exact (progress_of_inl hhonest hs).onward
    · obtain ⟨s, -, hs, -⟩ := hstalls n le_rfl
      have hprogress := progress_of_inl hhonest hs
      exact hprogress.done ▸ hprogress.more
    · obtain ⟨s, s', hs, hnext, hsame⟩ := hstalls m hm
      obtain ⟨h, h'⟩ := hsucc m s s' hs hnext
      have hdone := lengthDone_succ h h'
      have hmore := h'.more
      exact (h'.onward m (Nat.lt_succ_self m)).resolve_right (by omega)

/-- **A stream transfer ends, and loses nothing**, exactly when the driver does not go on rejecting. -/
theorem transfers_iff (hhonest : Honest length os) : Transfers length os ↔ ¬ Starves length os := by
  constructor
  · rintro ⟨r, hends, -⟩ hstarves
    exact not_ends_of_starves hstarves r hends
  · intro h
    obtain ⟨r, n, hn⟩ := (ends_or_starves hhonest).resolve_right h
    have hright := progress hhonest n
    rw [safeIOStream, hn] at hright
    exact ⟨r, ⟨n, hn⟩, hright⟩

/-- A driver that completes each request at once. -/
def completes (information : ℕ) : ℕ → Outcome := fun _ => ⟨true, .success, .success, information⟩

/-- Two halves of a buffer. -/
theorem transfers_halves : Transfers 4096 (completes 2048) := by
  refine (transfers_iff fun n s hs => ?_).mpr ?_
  · have hend : safeIOStream 4096 (completes 2048) 2 = .inr ⟨.success, 4096, [(0, 2048), (2048, 2048)]⟩ :=
      rfl
    match n with
    | 0 | 1 =>
        cases hs
        decide
    | n + 2 =>
        rw [safeIOStream, after_of_le hend (by omega)] at hs
        cases hs
  · rintro ⟨n, -, -, h⟩
    exact absurd (h n le_rfl) Bool.false_ne_true

/-- A driver that rejects every size. -/
def rejects : ℕ → Outcome := fun _ => ⟨true, .pending, .invalidParameter, 0⟩

theorem not_transfers_rejects : Honest 4096 rejects ∧ ¬ Transfers 4096 rejects := by
  refine ⟨fun n s _ => Nat.zero_le _, ?_⟩
  rintro ⟨r, hends, -⟩
  exact not_ends_of_starves ⟨0, by omega, by decide, fun _ _ => rfl⟩ r hends

end KernelDrivers.ImDisk.SafeStream
