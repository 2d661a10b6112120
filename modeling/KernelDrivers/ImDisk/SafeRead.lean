import KernelDrivers.ImDisk.SafeStream
import KernelDrivers.Lib.Signed
import KernelDrivers.Lib.Wire

/-!
# Reads of an image file

`ImDiskSafeReadFile` reads a file through an intermediate buffer of at most 8 MiB.  A read that fails for
want of resources is made again with a quarter of its length and a new buffer.

## Main definitions

* `Answer` — what comes of one read, and of the allocation in front of it.
* `turn` — one turn of the inner loop, with what the outer loop does behind it.
* `Honest` — the file system gives no more than it is asked for, and nothing in front of the file.
* `Reads` — the function ends, with the right bytes, the right count and buffers that are large enough.
* `Refused` — an allocation fails.

## Main results

* `turn_cases` — what one turn comes to.
* `progress` — how far the loops have come.
* `reads_iff` — when a file is read as it should be.
-/

namespace KernelDrivers.ImDisk.SafeRead

open Disposal Turns Signed
open SafeStream (invalidBufferSize connectionReset bytesMoved bytesMoved_append)

/-- What comes of a read. -/
structure Answer where
  /-- `ExAllocatePoolWithTag`, where the read needs a new buffer. -/
  pool : Bool
  /-- `ZwReadFile`. -/
  status : Status
  information : ℕ

structure State where
  lengthDone : ℕ
  requestLength : ℕ
  /-- The size of `intermediate_buffer`. -/
  held : Option ℕ
  buffer : ℕ → UInt8
  /-- Where bytes have been stored in `buffer`, and how many. -/
  stored : List (ℕ × ℕ)
  /-- The length of each read, with the size of the intermediate buffer. -/
  reads : List (ℕ × ℕ)

structure Result where
  status : Status
  information : ℕ
  buffer : ℕ → UInt8
  stored : List (ℕ × ℕ)
  reads : List (ℕ × ℕ)

def State.leave (s : State) (status : Status) (information : ℕ) : Result :=
  ⟨status, information, s.buffer, s.stored, s.reads⟩

section Routine

variable (file : ℕ → UInt8) (length : UInt64) (offset : Int64)

/-- The condition of the outer loop. -/
def outer (status : Status) (s : State) : State ⊕ Result :=
  if s.lengthDone < length.toNat then
    .inl { s with requestLength := min s.requestLength (length.toNat - s.lengthDone) }
  else .inr (s.leave status s.lengthDone)

/-- `current_file_offset`. -/
def currentFileOffset (s : State) : Int64 := offset + (UInt64.ofNat s.lengthDone).toInt64

/-- The statuses after which a shorter read may succeed. -/
def retries (status : Status) : Bool :=
  status = .insufficientResources || status = invalidBufferSize || status = .invalidParameter

/-- The read is recorded. -/
def State.asked (s : State) : State :=
  { s with reads := s.reads ++ [(s.requestLength, s.held.getD 0)] }

/-- What was read is copied to the caller's buffer. -/
def State.store (s : State) (information : ℕ) : State :=
  { s with
    lengthDone := (s.lengthDone + information) % 2 ^ 64
    buffer := place s.buffer s.lengthDone
      (slice file (currentFileOffset offset s).toInt.toNat information)
    stored := s.stored ++ [(s.lengthDone, information)] }

/-- One read, with the intermediate buffer in place. -/
def attempt (s : State) (a : Answer) : State ⊕ Result :=
  if retries a.status ∧ 2048 ≤ s.requestLength then
    .inl { s.asked with held := none, requestLength := s.requestLength / 4 }
  else if ¬ a.status.ok then .inr (s.asked.leave a.status s.lengthDone)
  else if a.information = 0 then .inr (s.asked.leave connectionReset s.lengthDone)
  else outer length a.status (s.asked.store file offset a.information)

/-- One turn of the inner loop. -/
def turn (s : State) (a : Answer) : State ⊕ Result :=
  match s.held with
  | some _ => attempt file length offset s a
  | none =>
      if a.pool then attempt file length offset { s with held := some s.requestLength } a
      else .inr (s.leave .insufficientResources 0)

/-- Where the loops start. -/
def entry (buffer : ℕ → UInt8) : State ⊕ Result :=
  outer length .success ⟨0, if 2 ^ 23 < length.toNat then 2 ^ 23 else length.toNat, none, buffer, [], []⟩

/-- `ImDiskSafeReadFile`, after some turns. -/
def safeReadFile (buffer : ℕ → UInt8) (as : ℕ → Answer) (n : ℕ) : State ⊕ Result :=
  after (turn file length offset) (entry length buffer) as n

end Routine

section Specification

variable (file : ℕ → UInt8) (length : UInt64) (offset : Int64) (buffer : ℕ → UInt8) (as : ℕ → Answer)

/-- The file system reads no more than it is asked for, and not at a negative offset. -/
def Honest : Prop :=
  ∀ n s, safeReadFile file length offset buffer as n = .inl s →
    (as n).information ≤ s.requestLength ∧
    ((as n).status.ok = true → 0 ≤ (currentFileOffset offset s).toInt)

/-- The first `information` bytes have been stored, as they are in the file; on success these are all;
and no read was longer than the intermediate buffer. -/
structure Result.Right (r : Result) : Prop where
  stored : bytesMoved r.stored = List.range r.information
  bytes : ∀ k < r.information, r.buffer k = file (offset.toInt + k).toNat
  all : r.status.ok = true → r.information = length.toNat
  fits : ∀ read ∈ r.reads, read.1 ≤ read.2

/-- **The file is read**: the function ends, and its result is right. -/
def Reads : Prop :=
  ∃ r, Ends (turn file length offset) (entry length buffer) as r ∧ r.Right file length offset

/-- The intermediate buffer is to be allocated, and is not. -/
def Refused (n : ℕ) : Prop :=
  ∃ s, safeReadFile file length offset buffer as n = .inl s ∧ s.held = none ∧ (as n).pool = false

/-- No allocation fails once a read has succeeded. -/
def RefusedInTime : Prop :=
  ∀ n, Refused file length offset buffer as n → ∀ m < n, (as m).status.ok = false

end Specification

/-! ## One turn -/

section Turn

variable {file : ℕ → UInt8} {length : UInt64} {offset : Int64}

/-- A turn fails for want of a buffer, or reads into one that is large enough. -/
theorem turn_cases (s : State) (a : Answer) (hheld : ∀ size, s.held = some size → s.requestLength ≤ size) :
    (s.held = none ∧ a.pool = false ∧
      turn file length offset s a = .inr (s.leave .insufficientResources 0)) ∨
    ∃ size, s.requestLength ≤ size ∧
      turn file length offset s a = attempt file length offset { s with held := some size } a := by
  cases hs : s.held with
  | some size =>
      have hsame : { s with held := some size } = s := by rw [← hs]
      exact .inr ⟨size, hheld size hs, by rw [hsame, turn, hs]⟩
  | none =>
      cases hpool : a.pool with
      | false => exact .inl ⟨rfl, rfl, by rw [turn, hs]; simp [hpool]⟩
      | true => exact .inr ⟨_, le_rfl, by rw [turn, hs]; simp [hpool]⟩

/-- A read is made again with a quarter of its length, ends the function, or is stored. -/
theorem attempt_cases (s : State) (a : Answer) :
    (a.status.ok = false ∧ 2048 ≤ s.requestLength ∧ attempt file length offset s a =
      .inl { s.asked with held := none, requestLength := s.requestLength / 4 }) ∨
    (∃ status, status.ok = false ∧
      attempt file length offset s a = .inr (s.asked.leave status s.lengthDone)) ∨
    (a.status.ok = true ∧ 0 < a.information ∧ attempt file length offset s a =
      outer length a.status (s.asked.store file offset a.information)) := by
  by_cases hretry : retries a.status = true ∧ 2048 ≤ s.requestLength
  · have hfails : a.status.ok = false := by
      have hstatus := hretry.1
      simp only [retries, Bool.or_eq_true, decide_eq_true_eq] at hstatus
      rcases hstatus with (h | h) | h <;> rw [h] <;> rfl
    exact .inl ⟨hfails, hretry.2, by rw [attempt, if_pos hretry]⟩
  · cases hok : a.status.ok with
    | false =>
        have hends : attempt file length offset s a = .inr (s.asked.leave a.status s.lengthDone) := by
          rw [attempt, if_neg hretry, if_pos (by simp [hok])]
        exact .inr (.inl ⟨_, hok, hends⟩)
    | true =>
        by_cases hzero : a.information = 0
        · have hends : attempt file length offset s a = .inr (s.asked.leave connectionReset s.lengthDone) := by
            rw [attempt, if_neg hretry, if_neg (by simp [hok]), if_pos hzero]
          exact .inr (.inl ⟨_, rfl, hends⟩)
        · have hstores : attempt file length offset s a =
              outer length a.status (s.asked.store file offset a.information) := by
            rw [attempt, if_neg hretry, if_neg (by simp [hok]), if_neg hzero]
          exact .inr (.inr ⟨rfl, by omega, hstores⟩)

end Turn

/-! ## All turns -/

section Run

variable {file : ℕ → UInt8} {length : UInt64} {offset : Int64} {buffer : ℕ → UInt8} {as : ℕ → Answer}

/-- What has been read so far. -/
structure Sound (file : ℕ → UInt8) (offset : Int64) (as : ℕ → Answer) (n : ℕ) (s : State) : Prop where
  limit : s.requestLength ≤ 2 ^ 23
  held : ∀ size, s.held = some size → s.requestLength ≤ size
  fits : ∀ read ∈ s.reads, read.1 ≤ read.2
  stored : bytesMoved s.stored = List.range s.lengthDone
  bytes : ∀ k < s.lengthDone, s.buffer k = file (offset.toInt + k).toNat
  position : 0 < s.lengthDone → 0 ≤ offset.toInt ∧ offset.toInt + s.lengthDone < 2 ^ 63 + 2 ^ 23
  succeeded : 0 < s.lengthDone ↔ ∃ m < n, (as m).status.ok = true

structure Progress (file : ℕ → UInt8) (length : UInt64) (offset : Int64) (as : ℕ → Answer) (n : ℕ)
    (s : State) : Prop extends Sound file offset as n s where
  more : s.lengthDone < length.toNat
  request_le : s.requestLength ≤ length.toNat - s.lengthDone

/-- The next read is where it should be. -/
theorem currentFileOffset_toInt {n : ℕ} {s : State} (h : Sound file offset as n s)
    (hdone : s.lengthDone < 2 ^ 64) (hpos : 0 ≤ (currentFileOffset offset s).toInt) :
    (currentFileOffset offset s).toInt = offset.toInt + s.lengthDone := by
  obtain ⟨j, hj⟩ := exists_toInt_add offset (UInt64.ofNat s.lengthDone).toInt64
  obtain ⟨k, hk⟩ := exists_toInt_toInt64 (UInt64.ofNat s.lengthDone)
  rw [UInt64.toNat_ofNat_of_lt' hdone] at hk
  have hcurrent := bounds (currentFileOffset offset s)
  have hstart := bounds offset
  have hposition := h.position
  rw [currentFileOffset] at hpos hcurrent ⊢
  rcases Nat.eq_zero_or_pos s.lengthDone with hzero | hdone₀
  · omega
  · obtain ⟨hoffset, hlast⟩ := hposition hdone₀
    omega

/-- The outer loop goes on, or the function returns with all bytes. -/
theorem outer_progress {n : ℕ} {s : State} (h : Sound file offset as n s) (hle : s.lengthDone ≤ length.toNat)
    (status : Status) :
    (outer length status s).elim (Progress file length offset as n) (Result.Right file length offset) := by
  rw [outer]
  split
  · next hlt =>
      have hmin : min s.requestLength (length.toNat - s.lengthDone) ≤ s.requestLength := Nat.min_le_left _ _
      exact {
        limit := hmin.trans h.limit
        held := fun size hsize => hmin.trans (h.held size hsize)
        fits := h.fits
        stored := h.stored
        bytes := h.bytes
        position := h.position
        succeeded := h.succeeded
        more := hlt
        request_le := Nat.min_le_right _ _ }
  · next hlt => exact ⟨h.stored, h.bytes, fun _ => by change s.lengthDone = _; omega, h.fits⟩

/-- A read into a buffer that is large enough. -/
theorem Sound.asked {n : ℕ} {s : State} {size : ℕ} (h : Sound file offset as n s)
    (hsize : s.requestLength ≤ size) : ∀ read ∈ (State.asked { s with held := some size }).reads,
      read.1 ≤ read.2 := by
  intro read hread
  rcases List.mem_append.mp hread with hold | hnew
  · exact h.fits read hold
  · rw [List.mem_singleton.mp hnew]
    exact hsize

/-- A failed read changes nothing of what has been read. -/
theorem succeeded_succ {n : ℕ} {s : State} (h : Sound file offset as n s)
    (hfails : (as n).status.ok = false) :
    0 < s.lengthDone ↔ ∃ m < n + 1, (as m).status.ok = true := by
  rw [h.succeeded]
  constructor
  · rintro ⟨m, hm, hok⟩
    exact ⟨m, by omega, hok⟩
  · rintro ⟨m, hm, hok⟩
    rcases Nat.lt_succ_iff_lt_or_eq.mp hm with hlt | rfl
    · exact ⟨m, hlt, hok⟩
    · rw [hfails] at hok
      cases hok

/-- What a successful read stores. -/
theorem sound_store {n size : ℕ} {s : State} (h : Progress file length offset as n s)
    (hsize : s.requestLength ≤ size) (hok : (as n).status.ok = true) (hpos : 0 < (as n).information)
    (hinformation : (as n).information ≤ s.requestLength)
    (hcurrent : 0 ≤ (currentFileOffset offset s).toInt) :
    Sound file offset as (n + 1)
      ((State.asked { s with held := some size }).store file offset (as n).information) ∧
    ((State.asked { s with held := some size }).store file offset (as n).information).lengthDone =
      s.lengthDone + (as n).information := by
  have hlength := length.toNat_lt
  have hmore := h.more
  have hrequest := h.request_le
  have hlimit := h.limit
  have hwhere := currentFileOffset_toInt h.toSound (by omega) hcurrent
  have hmax := (bounds (currentFileOffset offset s)).2
  have hmod : (s.lengthDone + (as n).information) % 2 ^ 64 = s.lengthDone + (as n).information :=
    Nat.mod_eq_of_lt (by omega)
  have hoffset : 0 ≤ offset.toInt := by
    have hposition := h.position
    rcases Nat.eq_zero_or_pos s.lengthDone with hzero | hdone
    · omega
    · exact (hposition hdone).1
  have hposition : offset.toInt + (s.lengthDone + (as n).information : ℕ) < 2 ^ 63 + 2 ^ 23 := by omega
  have hbytes : ∀ k < s.lengthDone + (as n).information,
      place s.buffer s.lengthDone (slice file (currentFileOffset offset s).toInt.toNat (as n).information) k =
        file (offset.toInt + k).toNat := by
    intro k hk
    by_cases hlt : k < s.lengthDone
    · rw [place_of_lt _ _ hlt]
      exact h.bytes k hlt
    · have hget := getElem?_slice file (currentFileOffset offset s).toInt.toNat
        (show k - s.lengthDone < (as n).information by omega)
      rw [place_of_getElem? _ (by omega) hget]
      congr 1
      omega
  refine ⟨?_, hmod⟩
  rw [State.store, State.asked]
  dsimp only
  rw [hmod]
  exact {
    limit := hlimit
    held := fun size' hsize' => by cases hsize'; exact hsize
    fits := h.toSound.asked hsize
    stored := by
      rw [bytesMoved_append, h.stored, List.range_eq_range', List.range_eq_range', ← List.range'_append_1,
        zero_add]
    bytes := hbytes
    position := fun _ => ⟨hoffset, hposition⟩
    succeeded := iff_of_true (Nat.add_pos_right _ hpos) ⟨n, Nat.lt_succ_self n, hok⟩ }

/-- What one turn keeps, unless its allocation fails. -/
theorem turn_progress {n : ℕ} {s : State} (h : Progress file length offset as n s)
    (hinformation : (as n).information ≤ s.requestLength)
    (hcurrent : (as n).status.ok = true → 0 ≤ (currentFileOffset offset s).toInt)
    (hpool : s.held = none → (as n).pool = false → s.lengthDone = 0) :
    (turn file length offset s (as n)).elim (Progress file length offset as (n + 1))
      (Result.Right file length offset) := by
  have hrequest := h.request_le
  rcases turn_cases s (as n) h.held with ⟨hnone, hfails, hturn⟩ | ⟨size, hsize, hturn⟩
  · have hzero := hpool hnone hfails
    rw [hturn]
    have hstored := h.stored
    rw [hzero] at hstored
    exact ⟨hstored, fun k hk => absurd hk (Nat.not_lt_zero k), (fun hok => by cases hok), h.fits⟩
  · rw [hturn]
    rcases attempt_cases { s with held := some size } (as n) with
      ⟨hfails, hlarge, hattempt⟩ | ⟨status, hfails, hattempt⟩ | ⟨hok, hpos, hattempt⟩
    · rw [hattempt]
      have hquarter : s.requestLength / 4 ≤ s.requestLength := Nat.div_le_self _ 4
      have hsucceeded := succeeded_succ h.toSound hfails
      exact {
        limit := hquarter.trans h.limit
        held := fun size' hsize' => by cases hsize'
        fits := h.toSound.asked hsize
        stored := h.stored
        bytes := h.bytes
        position := h.position
        succeeded := hsucceeded
        more := h.more
        request_le := hquarter.trans hrequest }
    · rw [hattempt]
      refine ⟨h.stored, h.bytes, fun hok => ?_, h.toSound.asked hsize⟩
      change status.ok = true at hok
      rw [hfails] at hok
      cases hok
    · rw [hattempt]
      obtain ⟨hsound, hdone⟩ := sound_store h hsize hok hpos hinformation (hcurrent hok)
      have hmore := h.more
      exact outer_progress hsound (by omega) _

/-- Where the loops start. -/
theorem entry_progress : (entry length buffer).elim (Progress file length offset as 0)
    (Result.Right file length offset) := by
  refine outer_progress ?_ (Nat.zero_le _) _
  refine ⟨?_, nofun, nofun, rfl, fun k hk => absurd hk (Nat.not_lt_zero k), fun h => absurd h (lt_irrefl 0), ?_⟩
  · dsimp only
    split <;> omega
  · exact iff_of_false (lt_irrefl 0) (by rintro ⟨m, hm, -⟩; omega)

theorem progress (hhonest : Honest file length offset buffer as) {n : ℕ} {s : State}
    (h : safeReadFile file length offset buffer as n = .inl s) : Progress file length offset as n s := by
  refine invariant_of_inl (fun s hs => ?_) (fun n s s' hs hprogress hnext => ?_) h
  · have hentry : (entry length buffer).elim (Progress file length offset as 0)
      (Result.Right file length offset) := entry_progress
    rw [hs] at hentry
    exact hentry
  · obtain ⟨hinformation, hcurrent⟩ := hhonest n s hs
    have hturn := turn_progress hprogress hinformation hcurrent fun hnone hfails => by
      rw [turn, hnone] at hnext
      simp [hfails] at hnext
    rw [hnext] at hturn
    exact hturn

/-- A turn that goes on has stored something, or asks for less. -/
theorem lt_of_turn {n : ℕ} {s s' : State} (h : Progress file length offset as n s)
    (hinformation : (as n).information ≤ s.requestLength)
    (hcurrent : (as n).status.ok = true → 0 ≤ (currentFileOffset offset s).toInt)
    (hnext : turn file length offset s (as n) = .inl s') :
    (s.lengthDone < s'.lengthDone ∧ s'.requestLength ≤ s.requestLength) ∨
      (s'.lengthDone = s.lengthDone ∧ s'.requestLength < s.requestLength) := by
  rcases turn_cases s (as n) h.held with ⟨-, -, hturn⟩ | ⟨size, hsize, hturn⟩
  · rw [hnext] at hturn
    cases hturn
  · rw [hturn] at hnext
    rcases attempt_cases { s with held := some size } (as n) with
      ⟨-, hlarge, hattempt⟩ | ⟨status, -, hattempt⟩ | ⟨hok, hpos, hattempt⟩
    · rw [hattempt] at hnext
      cases hnext
      exact .inr ⟨rfl, Nat.div_lt_self (by omega) (by omega)⟩
    · rw [hattempt] at hnext
      cases hnext
    · obtain ⟨-, hdone⟩ := sound_store h hsize hok hpos hinformation (hcurrent hok)
      rw [hattempt, outer] at hnext
      split at hnext
      · cases hnext
        refine .inl ⟨?_, Nat.min_le_left _ _⟩
        dsimp only
        omega
      · cases hnext

end Run

variable {file : ℕ → UInt8} {length : UInt64} {offset : Int64} {buffer : ℕ → UInt8} {as : ℕ → Answer}

/-- The loops end: there is less to read, or the reads get shorter. -/
theorem exists_ends (hhonest : Honest file length offset buffer as) :
    ∃ r, Ends (turn file length offset) (entry length buffer) as r := by
  refine ends_of_wf (@wellFounded_lt ℕ _ _)
    (fun s => (length.toNat - s.lengthDone) * (2 ^ 23 + 1) + s.requestLength) fun n s s' hs hnext => ?_
  obtain ⟨hinformation, hcurrent⟩ := hhonest n s hs
  have hprogress := progress hhonest hs
  have hmore := (progress hhonest ((after_succ hs).trans hnext)).more
  have hlimit := hprogress.limit
  rcases lt_of_turn hprogress hinformation hcurrent hnext with ⟨hdone, hrequest⟩ | ⟨hdone, hrequest⟩
  · omega
  · rw [hdone]
    omega

/-- **An image file is read as it should be**, exactly when no allocation fails once bytes have been
stored. -/
theorem reads_iff (hhonest : Honest file length offset buffer as) :
    Reads file length offset buffer as ↔ RefusedInTime file length offset buffer as := by
  constructor
  · rintro ⟨r, hends, hright⟩ n ⟨s, hs, hnone, hfails⟩ m hm
    by_contra hok
    have hprogress := progress hhonest hs
    have hpos := hprogress.succeeded.mpr ⟨m, hm, by simpa using hok⟩
    have hrefused : Ends (turn file length offset) (entry length buffer) as
        (s.leave .insufficientResources 0) := by
      refine ⟨n + 1, (after_succ hs).trans ?_⟩
      rw [turn, hnone]
      simp [hfails]
    have hstored : bytesMoved s.stored = List.range 0 := by
      have hr := hright.stored
      rw [hends.unique hrefused] at hr
      exact hr
    rw [hprogress.stored] at hstored
    have hlength := congrArg List.length hstored
    simp only [List.length_range] at hlength
    omega
  · intro hpool
    obtain ⟨r, hends⟩ := exists_ends hhonest
    refine ⟨r, hends, ?_⟩
    rcases hends.exists_last with hstart | ⟨n, s, hs, hlast⟩
    · have hentry : (entry length buffer).elim (Progress file length offset as 0)
        (Result.Right file length offset) := entry_progress
      rw [hstart] at hentry
      exact hentry
    · obtain ⟨hinformation, hcurrent⟩ := hhonest n s hs
      have hprogress := progress hhonest hs
      have hturn := turn_progress hprogress hinformation hcurrent fun hnone hfails => by
        by_contra hdone
        obtain ⟨m, hm, hok⟩ := hprogress.succeeded.mp (by omega)
        rw [hpool n ⟨s, hs, hnone, hfails⟩ m hm] at hok
        cases hok
      rw [hlast] at hturn
      exact hturn

/-- A file system that gives 4 KiB at once. -/
def page : ℕ → Answer := fun _ => ⟨true, .success, 4096⟩

/-- A page at the start of a file. -/
theorem reads_page : Reads (fun _ => 1) 4096 0 (fun _ => 0) page := by
  refine (reads_iff fun n s hs => ?_).mpr ?_
  · rcases n with _ | n
    · cases hs
      decide
    · rw [safeReadFile, after_of_le (n := 1) rfl (Nat.le_add_left 1 n)] at hs
      cases hs
  · rintro n ⟨s, -, -, hpool⟩
    cases hpool

/-- The second 8 MiB of a file cannot be read, and there is no memory to try again with less. -/
def lowMemory : ℕ → Answer
  | 0 => ⟨true, .success, 2 ^ 23⟩
  | _ => ⟨false, .insufficientResources, 0⟩

/-- The function stores 8 MiB and says that it has stored nothing. -/
theorem not_reads_lowMemory :
    Honest (fun _ => 1) 0x1000000 0 (fun _ => 0) lowMemory ∧
      ¬ Reads (fun _ => 1) 0x1000000 0 (fun _ => 0) lowMemory := by
  have hthird : ∃ r, safeReadFile (fun _ => 1) 0x1000000 0 (fun _ => 0) lowMemory 3 = .inr r ∧
      r.stored = [(0, 2 ^ 23)] ∧ r.information = 0 := ⟨_, rfl, rfl, rfl⟩
  obtain ⟨r, hr, hstored, hzero⟩ := hthird
  refine ⟨fun n s hs => ?_, ?_⟩
  · have hlt : n < 3 := by
      by_contra hge
      rw [safeReadFile, after_of_le hr (Nat.le_of_not_lt hge)] at hs
      cases hs
    rcases n with _ | _ | _ | n
    · cases hs
      decide
    · cases hs
      decide
    · cases hs
      decide
    · omega
  · rintro ⟨r', hends, hright⟩
    have hlist := hright.stored
    rw [hends.unique ⟨3, hr⟩, hstored, hzero] at hlist
    have hlength := congrArg List.length hlist
    simp [bytesMoved] at hlength

end KernelDrivers.ImDisk.SafeRead
