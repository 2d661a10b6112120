import KernelDrivers.ImDisk.Buffer
import KernelDrivers.Lib.Reach

/-!
# The last-I/O buffer of an ImDisk device

The thread of a device keeps the data of its last request, with the offset and the length of
it, and the dispatch routine answers a read from there when it can.  The two marks are reset
under `last_io_lock`, and the dispatch routine looks at them under that lock; the thread
stores them again without it.

A device without parallel I/O and without byte swapping, backed by a file or a proxy.

## Main definitions

* `Device` — the buffer, the image, the thread of the device and the dispatched reads.
* `Device.step` — the device behind an event.
* `Hit.Exact` — a read that was answered from the buffer got the bytes of the image.
* `Undisturbed` — the thread stores a mark, or frees the buffer when it leaves, only while no
  dispatch routine looks at the buffer.

## Main results

* `exact_of_reach` — in every undisturbed run each hit is exact.
* `not_exact_offsetStore` — a store of the offset between two looks at it gives a hit that copies
  from in front of the buffer.
-/

namespace KernelDrivers.ImDisk.LastIo

/-- A read or a write inside the disk; `data` is the buffer of a write. -/
structure Transfer where
  direction : Direction
  offset : ℕ
  length : ℕ
  data : ℕ → UInt8

/-- The copy of the data of a write into the buffer. -/
def Transfer.fill (t : Transfer) (b : Buffer UInt8) : Buffer UInt8 :=
  match t.direction with
  | .read => b
  | .write => { b with bytes := fun j => if j < t.length then t.data j else b.bytes j }

/-- A dispatched read. -/
structure Lookup where
  transfer : Transfer
  pc : LookupPc

/-- Where the device thread is with a request, `n` being the bytes it read or wrote. -/
inductive ThreadPc
  | idle
  | reset (t : Transfer)
  | allocate (t : Transfer)
  | fill (t : Transfer)
  | io (t : Transfer)
  | storeOffset (t : Transfer) (n : ℕ)
  | storeLength (t : Transfer) (n : ℕ)

/-- From the reset of the marks until both are set again. -/
def ThreadPc.refilling : ThreadPc → Bool
  | .idle => false
  | .reset _ => false
  | _ => true

/-- A read that was answered from the buffer: what was copied, from where in an allocation of which
size, and what the image was at that time. -/
structure Hit where
  transfer : Transfer
  start : ℤ
  size : ℕ
  bytes : ℕ → UInt8
  image : ℕ → UInt8
  refilling : Bool

structure Hit.Exact (h : Hit) : Prop where
  inside : 0 ≤ h.start ∧ h.start + h.transfer.length ≤ h.size
  bytes : ∀ j < h.transfer.length, h.bytes j = h.image (h.transfer.offset + j)
  settled : h.refilling = false

structure Device where
  marks : Marks UInt8
  image : ℕ → UInt8
  queue : List Transfer
  thread : ThreadPc
  lookups : List Lookup
  hits : List Hit

namespace Device

/-- The copy from the buffer; what lies outside of the allocation is not known. -/
def hit (s : Device) (t : Transfer) : Hit where
  transfer := t
  start := t.offset - s.marks.lastOffset
  size := match s.marks.data with
    | some b => b.size
    | none => 0
  bytes := fun j =>
    match s.marks.data with
    | some b => b.bytes (t.offset + j - s.marks.lastOffset)
    | none => 0
  image := s.image
  refilling := s.thread.refilling

/-- The next step of a dispatch routine with a read.  `mapped` says whether the buffer of the
caller can be mapped.  A read that is not answered goes to the queue. -/
def dispatch (s : Device) (i : ℕ) (mapped : Bool) : Device :=
  match s.lookups[i]? with
  | none => s
  | some l =>
      let next := s.marks.look i l.transfer.offset l.transfer.length l.pc
      { s with
        marks := next.1
        lookups := s.lookups.set i { l with pc := next.2 }
        hits := if l.pc = .copy ∧ mapped then s.hit l.transfer :: s.hits else s.hits
        queue := if l.pc = .release false then s.queue ++ [l.transfer] else s.queue }

/-- What the system answers to the device thread: whether the buffer of the caller can be mapped
and whether there is pool, what new memory holds, and how the image or the proxy serves the
request: whether it succeeds, and after how many bytes it ends. -/
structure Answer where
  mapped : Bool
  pool : Bool
  junk : ℕ → UInt8
  succeeds : Bool
  done : ℕ

/-- The image with `n` bytes written at an offset. -/
def written (image : ℕ → UInt8) (offset : ℕ) (bytes : ℕ → UInt8) (n : ℕ) (a : ℕ) : UInt8 :=
  if offset ≤ a ∧ a < offset + n then bytes (a - offset) else image a

/-- `ImDiskReadProxy` or `NtReadFile` into the buffer, which may be a short read. -/
def ioRead (s : Device) (t : Transfer) (b : Buffer UInt8) (x : Answer) : Device :=
  if x.succeeds then
    let n := min x.done t.length
    let bytes := fun j => if j < n then s.image (t.offset + j) else x.junk j
    { s with
      marks := { s.marks with data := some { b with bytes := bytes } }
      thread := .storeOffset t n }
  else { s with marks := { s.marks with data := none }, thread := .idle }

/-- The write of the buffer.  A write of zeros that is made as a request to zero the range has the
same outcomes, and goes on as this one when that request is refused. -/
def ioWrite (s : Device) (t : Transfer) (b : Buffer UInt8) (x : Answer) : Device :=
  if x.succeeds then
    { s with
      image := written s.image t.offset b.bytes t.length
      thread := .storeOffset t t.length }
  else
    { s with
      image := written s.image t.offset b.bytes (min x.done t.length)
      marks := { s.marks with data := none }
      thread := .idle }

/-- The marks behind the section of the thread that holds the lock. -/
def resetMarks (m : Marks UInt8) (t : Transfer) : Marks UInt8 :=
  { m with
    data := if m.lastLength < t.length then none else m.data
    lastOffset := 0
    lastLength := 0 }

/-- The next step of the device thread. -/
def runThread (s : Device) (x : Answer) : Device :=
  match s.thread with
  | .idle =>
      match s.queue with
      | [] => s
      | t :: queue => { s with queue := queue, thread := if x.mapped then .reset t else .idle }
  | .reset t =>
      match s.marks.lock with
      | some _ => s
      | none => { s with marks := resetMarks s.marks t, thread := .allocate t }
  | .allocate t =>
      match s.marks.data with
      | some _ => { s with thread := .fill t }
      | none =>
          if x.pool then
            { s with
              marks := { s.marks with data := some ⟨t.length, x.junk⟩ }
              thread := .fill t }
          else { s with thread := .idle }
  | .fill t => { s with marks := { s.marks with data := s.marks.data.map t.fill }, thread := .io t }
  | .io t =>
      match s.marks.data with
      | none => s
      | some b =>
          match t.direction with
          | .read => s.ioRead t b x
          | .write => s.ioWrite t b x
  | .storeOffset t n =>
      { s with marks := { s.marks with lastOffset := t.offset }, thread := .storeLength t n }
  | .storeLength _ n => { s with marks := { s.marks with lastLength := n }, thread := .idle }

end Device

inductive Event
  | arrive (t : Transfer)
  | dispatch (i : ℕ) (mapped : Bool)
  | thread (x : Device.Answer)
  /-- The thread leaves, and frees the buffer. -/
  | leave

/-- A write goes to the queue, a read to the buffer first.  A request for no bytes is answered
at once. -/
def Device.step (s : Device) : Event → Device
  | .arrive t =>
      if t.length = 0 then s
      else
        match t.direction with
        | .read => { s with lookups := s.lookups ++ [⟨t, .acquire⟩] }
        | .write => { s with queue := s.queue ++ [t] }
  | .dispatch i mapped => s.dispatch i mapped
  | .thread x => s.runThread x
  | .leave =>
      match s.thread with
      | .idle => { s with marks := { s.marks with data := none } }
      | _ => s

/-! ### The invariant -/

namespace Device

/-- The buffer holds `n` bytes of the image from `offset` on. -/
def Holds (s : Device) (offset n : ℕ) (b : Buffer UInt8) : Prop :=
  n ≤ b.size ∧ ∀ j < n, b.bytes j = s.image (offset + j)

/-- What is known of the buffer at each place of the thread. -/
def Filled (s : Device) : Prop :=
  match s.thread with
  | .idle | .reset _ =>
      ∀ b, s.marks.data = some b → s.Holds s.marks.lastOffset s.marks.lastLength b
  | .allocate t => s.marks.lastLength = 0 ∧ ∀ b, s.marks.data = some b → t.length ≤ b.size
  | .fill t => s.marks.lastLength = 0 ∧ ∃ b, s.marks.data = some b ∧ t.length ≤ b.size
  | .io t => s.marks.lastLength = 0 ∧ ∃ b, s.marks.data = some b ∧ t.length ≤ b.size
  | .storeOffset t n => s.marks.lastLength = 0 ∧ ∃ b, s.marks.data = some b ∧ s.Holds t.offset n b
  | .storeLength t n => s.marks.lastLength = 0 ∧ s.marks.lastOffset = t.offset ∧
      ∃ b, s.marks.data = some b ∧ s.Holds t.offset n b

/-- The marks are what the thread says, or a read of nothing. -/
theorem Filled.refilling {s : Device} (h : s.Filled) (ht : s.thread.refilling = true) :
    s.marks.lastLength = 0 := by
  rw [Filled] at h
  cases hpc : s.thread <;> simp_all [ThreadPc.refilling]

theorem Filled.holds {s : Device} (h : s.Filled) (ht : s.thread.refilling = false) :
    ∀ b, s.marks.data = some b → s.Holds s.marks.lastOffset s.marks.lastLength b := by
  rw [Filled] at h
  cases hpc : s.thread <;> simp_all [ThreadPc.refilling]

end Device

open Device

structure Inv (s : Device) : Prop where
  filled : s.Filled
  guarded : Guarded s.marks.lock (s.lookups.map Lookup.pc)
  pos : ∀ l ∈ s.lookups, 0 < l.transfer.length
  seen : ∀ l ∈ s.lookups, s.marks.Seen l.transfer.offset l.transfer.length l.pc
  exact : ∀ h ∈ s.hits, h.Exact

/-- The thread stores a mark, or frees the buffer when it leaves, only while no dispatch routine
is between its test of `last_io_data` and the end of its copy. -/
def Undisturbed (s : Device) : Event → Prop
  | .thread _ =>
      match s.thread with
      | .storeOffset _ _ | .storeLength _ _ => ∀ l ∈ s.lookups, l.pc.looking = false
      | _ => True
  | .leave => ∀ l ∈ s.lookups, l.pc.looking = false
  | _ => True

namespace Inv

variable {s : Device} {i : ℕ} {l : Lookup}

/-- A copy that the test allowed is exact. -/
theorem exact_hit (h : Inv s) (hl : l ∈ s.lookups) (hpc : l.pc = .copy) :
    (s.hit l.transfer).Exact := by
  have hseen := h.seen l hl
  rw [hpc] at hseen
  obtain ⟨hsome, hle, hend⟩ := hseen
  have hpos := h.pos l hl
  have hlen : s.marks.lastLength ≠ 0 := by omega
  obtain ⟨b, hb⟩ := Option.ne_none_iff_exists'.mp (hsome rfl hlen)
  have hthread : s.thread.refilling = false := by
    by_contra hr
    exact hlen (h.filled.refilling (by simpa using hr))
  obtain ⟨hsize, hbytes⟩ := h.filled.holds hthread b hb
  refine ⟨?_, fun j hj => ?_, hthread⟩
  · simp only [hit, hb]
    omega
  · change j < l.transfer.length at hj
    simp only [hit, hb]
    rw [hbytes _ (by omega)]
    congr 1
    omega

theorem dispatch (h : Inv s) (i : ℕ) (mapped : Bool) : Inv (s.dispatch i mapped) := by
  rw [Device.dispatch]
  split
  · exact h
  · next l hl =>
      have hmem := List.mem_of_getElem? hl
      obtain ⟨lock, hmarks⟩ := s.marks.look_fst i l.transfer.offset l.transfer.length l.pc
      have hguarded := h.guarded.look (i := i) (by rw [List.getElem?_map, hl]; rfl)
        l.transfer.offset l.transfer.length
      have hseen := Marks.seen_look (i := i) (h.seen l hmem)
      dsimp only
      rw [hmarks] at hguarded hseen ⊢
      refine ⟨h.filled, ?_, fun l' hl' => ?_, fun l' hl' => ?_, fun hit hhit => ?_⟩
      · rwa [List.map_set]
      · rcases List.mem_or_eq_of_mem_set hl' with hold | rfl
        · exact h.pos l' hold
        · exact h.pos l hmem
      · rcases List.mem_or_eq_of_mem_set hl' with hold | rfl
        · exact h.seen l' hold
        · exact hseen
      · dsimp only at hhit
        split at hhit
        · next hcopy =>
            rcases List.mem_cons.mp hhit with rfl | hhit
            · exact h.exact_hit hmem hcopy.1
            · exact h.exact hit hhit
        · exact h.exact hit hhit

/-- The thread takes a step: what the dispatch routines have seen is still so. -/
theorem moveThread {s' : Device} (h : Inv s) (hlookups : s'.lookups = s.lookups)
    (hlock : s'.marks.lock = s.marks.lock) (hhits : s'.hits = s.hits) (hfilled : s'.Filled)
    (hlooking : ∀ l ∈ s.lookups, l.pc.looking = true → s'.marks.lastOffset = s.marks.lastOffset ∧
      s'.marks.lastLength = s.marks.lastLength ∧
      (s'.marks.lastLength ≠ 0 → s'.marks.data ≠ none)) : Inv s' := by
  refine ⟨hfilled, ?_, ?_, ?_, ?_⟩
  · rw [hlookups, hlock]
    exact h.guarded
  · rw [hlookups]
    exact h.pos
  · rw [hlookups]
    intro l hl
    by_cases hlook : l.pc.looking = true
    · obtain ⟨hoffset, hlength, hdata⟩ := hlooking l hl hlook
      exact (h.seen l hl).congr hoffset hlength fun _ => hdata
    · exact Marks.seen_of_not_looking (by simpa using hlook)
  · rw [hhits]
    exact h.exact

theorem runThread (h : Inv s) {x : Answer} (hok : Undisturbed s (.thread x)) :
    Inv (s.runThread x) := by
  have hf := h.filled
  -- the buffer and the marks as they were
  have hkeep : ∀ l ∈ s.lookups, l.pc.looking = true → s.marks.lastOffset = s.marks.lastOffset ∧
      s.marks.lastLength = s.marks.lastLength ∧
      (s.marks.lastLength ≠ 0 → s.marks.data ≠ none) := fun l hl hlook =>
    ⟨rfl, rfl, (h.seen l hl).1 hlook⟩
  rw [Device.runThread]
  split
  · next hpc =>
      simp only [Filled, hpc] at hf
      split
      · exact h
      · refine h.moveThread rfl rfl rfl ?_ hkeep
        cases hx : x.mapped <;> exact hf
  · next t hpc =>
      simp only [Filled, hpc] at hf
      split
      · exact h
      · next hfree =>
          refine h.moveThread rfl rfl rfl ⟨rfl, fun b hb => ?_⟩ fun l hl hlook => ?_
          · dsimp only [resetMarks] at hb
            split at hb
            · cases hb
            · next hbig =>
                have := (hf b hb).1
                omega
          · have := (hfree ▸ h.guarded).not_looking (List.mem_map_of_mem hl)
            simp [hlook] at this
  · next t hpc =>
      simp only [Filled, hpc] at hf
      split
      · next b hb => exact h.moveThread rfl rfl rfl ⟨hf.1, b, hb, hf.2 b hb⟩ hkeep
      · next hnone =>
          split
          · exact h.moveThread rfl rfl rfl ⟨hf.1, _, rfl, le_rfl⟩ fun l _ _ =>
              ⟨rfl, rfl, by simp⟩
          · exact h.moveThread rfl rfl rfl (fun b hb => by simp [hnone] at hb) hkeep
  · next t hpc =>
      simp only [Filled, hpc] at hf
      obtain ⟨hzero, b, hb, hsize⟩ := hf
      have hfill : t.length ≤ (t.fill b).size := by
        rw [Transfer.fill]
        split <;> exact hsize
      exact h.moveThread rfl rfl rfl ⟨hzero, t.fill b, by simp [hb], hfill⟩ fun l _ _ =>
        ⟨rfl, rfl, by simp [hb]⟩
  · next t hpc =>
      simp only [Filled, hpc] at hf
      obtain ⟨hzero, b, hb, hsize⟩ := hf
      rw [hb]
      dsimp only
      split
      · rw [ioRead]
        split
        · refine h.moveThread rfl rfl rfl ⟨hzero, _, rfl, ?_, fun j hj => ?_⟩ fun l _ _ =>
            ⟨rfl, rfl, by simp⟩
          · exact (Nat.min_le_right _ _).trans hsize
          · exact if_pos hj
        · exact h.moveThread rfl rfl rfl (by simp [Filled]) fun l _ _ =>
            ⟨rfl, rfl, fun hne => absurd hzero hne⟩
      · rw [ioWrite]
        split
        · refine h.moveThread rfl rfl rfl ⟨hzero, b, hb, hsize, fun j hj => ?_⟩ hkeep
          simp [written, hj]
        · exact h.moveThread rfl rfl rfl (by simp [Filled]) fun l _ _ =>
            ⟨rfl, rfl, fun hne => absurd hzero hne⟩
  · next t n hpc =>
      simp only [Filled, hpc] at hf
      simp only [Undisturbed, hpc] at hok
      exact h.moveThread rfl rfl rfl ⟨hf.1, rfl, hf.2⟩ fun l hl hlook => by simp [hok l hl] at hlook
  · next t n hpc =>
      simp only [Filled, hpc] at hf
      simp only [Undisturbed, hpc] at hok
      obtain ⟨-, hoffset, b, hb, hholds⟩ := hf
      refine h.moveThread rfl rfl rfl (fun b' hb' => ?_) fun l hl hlook => by
        simp [hok l hl] at hlook
      dsimp only at hb' ⊢
      rw [hb] at hb'
      cases hb'
      rw [hoffset]
      exact hholds

/-- A new read waits for the lock. -/
theorem arriveRead (h : Inv s) {t : Transfer} (ht : 0 < t.length) :
    Inv { s with lookups := s.lookups ++ [⟨t, .acquire⟩] } := by
  have hcases : ∀ l ∈ s.lookups ++ [⟨t, .acquire⟩], l ∈ s.lookups ∨ l = ⟨t, .acquire⟩ := by simp
  refine ⟨h.filled, ?_, fun l hl => ?_, fun l hl => ?_, h.exact⟩
  · rw [List.map_append]
    exact h.guarded.append rfl
  · rcases hcases l hl with hold | rfl
    · exact h.pos l hold
    · exact ht
  · rcases hcases l hl with hold | rfl
    · exact h.seen l hold
    · exact Marks.seen_of_not_looking rfl

theorem step (h : Inv s) {e : Event} (hok : Undisturbed s e) : Inv (s.step e) := by
  cases e with
  | arrive t =>
      rw [Device.step]
      split
      · exact h
      · next hlen =>
          split
          · exact h.arriveRead (Nat.pos_of_ne_zero hlen)
          · exact ⟨h.filled, h.guarded, h.pos, h.seen, h.exact⟩
  | dispatch i mapped => exact h.dispatch i mapped
  | thread x => exact h.runThread hok
  | leave =>
      rw [Device.step]
      split
      · next hpc =>
          refine h.moveThread rfl rfl rfl ?_ fun l hl hlook => ?_
          · simp [Filled, hpc]
          · simp [hok l hl] at hlook
      · exact h

end Inv

/-! ### Runs -/

/-- A device that has served no request yet. -/
def Device.start (image : ℕ → UInt8) : Device := ⟨⟨none, 0, 0, none⟩, image, [], .idle, [], []⟩

/-- Every run in which the thread stores the marks, and frees the buffer when it leaves, only while
no dispatch routine looks at the buffer: each read that was answered from the buffer was copied
from inside the allocation, got the bytes of the image, and came while the buffer was not being
filled. -/
theorem exact_of_reach {image : ℕ → UInt8} {s : Device}
    (h : Reach Device.step Undisturbed (Device.start image) s) : ∀ hit ∈ s.hits, hit.Exact := by
  have hinv : Inv s := by
    refine h.invariant ?_ fun s e hs he => hs.step he
    exact ⟨by simp [Filled, start], Guarded.nil, by simp [start], by simp [start], by simp [start]⟩
  exact hinv.exact

/-- A system that serves every request in full. -/
def Device.Answer.full : Answer := ⟨true, true, fun _ => 9, true, 100⟩

/-- A write of two bytes, and a read of the second one. -/
def writeThenRead : List Event :=
  .arrive ⟨.write, 4, 2, fun j => j.toUInt8⟩ :: List.replicate 7 (.thread .full) ++
    .arrive ⟨.read, 5, 1, fun _ => 0⟩ :: List.replicate 6 (.dispatch 0 true)

theorem exact_writeThenRead :
    (∀ hit ∈ (writeThenRead.foldl Device.step (Device.start fun _ => 0)).hits, hit.Exact) ∧
      (writeThenRead.foldl Device.step (Device.start fun _ => 0)).hits.map (fun h => h.bytes 0) =
        [1] := by
  refine ⟨exact_of_reach (Reach.start.foldl ?_), rfl⟩
  refine ⟨trivial, trivial, trivial, trivial, trivial, trivial, ?_, ?_, trivial, trivial, trivial,
    trivial, trivial, trivial, trivial, trivial⟩ <;>
  · intro l hl
    cases hl

/-- A read of ten bytes at 100 that misses, and is served up to the store of the offset; beside it a
read at 50, whose first look is before that store and whose other ones are after it. -/
def offsetStore : List Event :=
  .arrive ⟨.read, 100, 10, fun _ => 0⟩ :: List.replicate 3 (.dispatch 0 true) ++
    List.replicate 5 (.thread .full) ++
    .arrive ⟨.read, 50, 10, fun _ => 0⟩ :: List.replicate 3 (.dispatch 1 true) ++
    .thread .full :: List.replicate 3 (.dispatch 1 true)

/-- The test passes although the length is still zero, and the copy starts 50 bytes in front of the
buffer. -/
theorem not_exact_offsetStore :
    ∃ s, Reach Device.step (fun _ _ => True) (Device.start fun _ => 0) s ∧
      s.hits.map Hit.start = [-50] ∧ ¬ ∀ hit ∈ s.hits, hit.Exact := by
  refine ⟨offsetStore.foldl Device.step (Device.start fun _ => 0), Reach.start.foldl ?_, rfl, ?_⟩
  · simp [offsetStore, AllowedAll, List.replicate]
  · intro h
    have hstart := (h _ (List.mem_cons_self (l := []))).inside.1
    exact absurd hstart (by decide)

end KernelDrivers.ImDisk.LastIo
