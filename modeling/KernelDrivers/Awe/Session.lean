import KernelDrivers.Awe.Serve

/-!
# AWEAlloc is a flat byte array

Requests to one context, one after the other.

## Main definitions

* `Session` — a context with the requests it served.
* `Session.Answered` — what the next request gets.

## Main results

* `flat_of_reach` — every run of requests in range behaves like the array.
* `not_flat_fourGigabyteRead` — a read whose first page offset and length sum up to 4 GB copies
  outside of the mapped page.
-/

namespace KernelDrivers.Awe

/-- A context and the requests that it served, newest first. -/
structure Session where
  context : Context
  history : List Request

namespace Session

variable {s : Session}

def start : Session := ⟨Context.empty, []⟩

/-- Serve a request with the answers of the system. -/
def step (s : Session) (e : Request × List Answer) : Session :=
  ⟨(exec s.context e.1 e.2).1, (exec s.context e.1 e.2).2 :: s.history⟩

/-- A new request in range that is served to its end. -/
structure Serves (s : Session) (e : Request × List Answer) : Prop where
  fresh : e.1.Fresh
  inRange : InRange s.context e.1
  completed : (exec s.context e.1 e.2).2.Completed

/-- What the next request gets.  It ends, it never meets a missing block, a block of a bad size or
memory outside of its page; and a read that starts in the file and ends with success has the last
bytes written in its buffer, up to the end of the file.  It does end with success unless the system
refuses to map a page or there are `LONG_MAX` readers. -/
structure Answered (s : Session) (r : Request) : Prop where
  ends : ∃ n, ∀ xs : List Answer, n ≤ xs.length → (exec s.context r xs).2.Completed
  noError : ∀ xs, (exec s.context r xs).2.pc ≠ .completed .driverInternalError ∧
    (exec s.context r xs).2.pc ≠ .fault
  bytes : r.major = .read → r.byteOffset ≤ s.context.virtualSize → ∀ xs,
    (exec s.context r xs).2.pc = .completed .success →
      ((exec s.context r xs).2.information : ℤ) =
          min (r.length : ℤ) (s.context.virtualSize - r.byteOffset) ∧
        ∀ i < (exec s.context r xs).2.information,
          (exec s.context r xs).2.systemBuffer i = lastWritten s.history (r.byteOffset + i)
  granted : r.major = .read → 0 ≤ r.byteOffset → r.byteOffset ≤ s.context.virtualSize →
    s.context.activeReaders < 2 ^ 31 - 1 → ∀ xs, (∀ x ∈ xs, Grants x) →
      ∀ status, (exec s.context r xs).2.pc = .completed status → status = .success

/-- The invariant: the blocks show the last bytes written. -/
structure Flat (s : Session) : Prop where
  sound : Sound s.context
  bytes : image s.context = lastWritten s.history
  readers : 0 ≤ s.context.activeReaders
  writers : s.context.activeWriters = 0

theorem flat_start : Flat start := by
  refine ⟨⟨rfl, le_rfl, le_rfl, by decide, PageContext.empty_valid _⟩, ?_, le_rfl, rfl⟩
  funext a
  rfl

theorem Flat.step (h : Flat s) {e : Request × List Answer} (he : Serves s e) :
    Flat (s.step e) := by
  obtain ⟨hrun, halone⟩ :=
    running_exec (G := False) h.sound he.fresh he.inRange h.readers h.writers e.2 (by simp)
  obtain ⟨status, hpc⟩ := he.completed
  have hwrite : (exec s.context e.1 e.2).2.holdsWrite = false := by
    rcases halone.placed with hp | ⟨-, hw⟩
    · simp only [Placed, hpc] at hp
      exact hp.2
    · exact hw
  have hreaders := halone.readers
  have hwriters := halone.writers
  rw [hwrite] at hwriters
  refine ⟨hrun.sound, ?_, ?_, hwriters⟩
  · change image (exec s.context e.1 e.2).1 = written _ (lastWritten s.history)
    rw [hrun.bytes, h.bytes]
  · change 0 ≤ (exec s.context e.1 e.2).1.activeReaders
    split at hreaders <;> omega

theorem Flat.answered (h : Flat s) {r : Request} (hfresh : r.Fresh)
    (hrange : InRange s.context r) : Answered s r := by
  have hrun := fun (G : Prop) (xs : List Answer)
      (hG : G → (∀ x ∈ xs, Grants x) ∧ s.context.activeReaders < 2 ^ 31 - 1) =>
    (running_exec h.sound hfresh hrange h.readers h.writers xs hG).1
  refine ⟨⟨rank s.context r, fun xs hxs => ?_⟩, fun xs => ⟨?_, ?_⟩, ?_, ?_⟩
  · exact completed_exec h.sound hfresh hrange h.readers h.writers hxs
  · intro hpc
    have hplace := (hrun False xs (by simp)).place
    simp only [Place, hpc] at hplace
    exact hplace.1.noError rfl
  · intro hpc
    have hplace := (hrun False xs (by simp)).place
    simp only [Place, hpc] at hplace
  · intro hread hle xs hpc
    have hfinal := hrun False xs (by simp)
    have hplace := hfinal.place
    simp only [Place, hpc] at hplace
    refine ⟨hplace.1.served hread hle rfl, fun i hi => ?_⟩
    rw [hplace.2 trivial] at hi
    rw [hfinal.answer (hfinal.major.trans hread) i hi, h.bytes, hfinal.offset]
  · intro hread h0 hle hfree xs hxs status hpc
    have hplace := (hrun True xs fun _ => ⟨hxs, hfree⟩).place
    simp only [Place, hpc] at hplace
    exact hplace.1.granted hread h0 hle trivial

end Session

/-- After every sequence of requests in range, the blocks tile the total size in whole pages, the
virtual size is at most the total size, and the next request in range is answered from the flat
array of the last bytes written. -/
theorem flat_of_reach {s : Session} (h : Reach Session.step Session.Serves Session.start s) :
    Tiles s.context.blocks s.context.totalSize ∧ 0 ≤ s.context.virtualSize ∧
      s.context.virtualSize ≤ s.context.totalSize ∧
      ∀ r : Request, r.Fresh → InRange s.context r → s.Answered r := by
  have hflat : s.Flat := h.invariant Session.flat_start fun s e hs he => hs.step he
  exact ⟨hflat.sound.tiles, hflat.sound.virtual_nonneg, hflat.sound.virtual_le,
    fun r hr hrange => hflat.answered hr hrange⟩

/-- One byte written to an empty file and read back. -/
theorem flat_writeThenRead :
    (exec (Session.start.step (byteRequest .write 5, List.replicate 12 generous)).context
      (byteRequest .read 5) (List.replicate 8 generous)).2.systemBuffer 0 = 7 := by
  have hwrite : Session.Serves Session.start (byteRequest .write 5, List.replicate 12 generous) :=
    ⟨byteRequest_fresh .write (by decide) (by decide), And.intro (by decide) (by decide),
      ⟨.success, rfl⟩⟩
  have hflat := (flat_of_reach (.next .start hwrite)).2.2.2 (byteRequest .read 5)
    (byteRequest_fresh .read (by decide) (by decide)) (And.intro (by decide) (by decide))
  obtain ⟨hlen, hbytes⟩ := hflat.bytes rfl (by decide) (List.replicate 8 generous) rfl
  rw [hbytes 0 (by decide)]
  rfl

/-- The size that a request sets. -/
def setSizeRequest (newSize : ℤ) : Request :=
  { byteRequest .setInformation 0 with newSize := newSize, length := 8 }

/-- A read of 4 GB less one small page, from the second small page on. -/
def fourGigabyteRead : Request := { byteRequest .read 4096 with length := 2 ^ 32 - 4096 }

/-- A system with all the memory that is asked for. -/
def boundless : Answer := ⟨true, ⟨true, [some (2 ^ 32)]⟩, ⟨true, true⟩⟩

/-- In a file of 8 GB, the offset in the page and the length of that read sum up to `2 ^ 32`, the
test for the end of the page sees `0`, and the copy runs out of the mapped page. -/
theorem not_flat_fourGigabyteRead :
    ∃ s, Reach Session.step Session.Serves Session.start s ∧ s.context.virtualSize = 2 ^ 33 ∧
      fourGigabyteRead.Fresh ∧
      (exec s.context fourGigabyteRead (List.replicate 5 boundless)).2.pc = .fault := by
  refine ⟨Session.start.step (setSizeRequest (2 ^ 33), List.replicate 7 boundless), ?_,
    by decide +kernel, ?_, by decide +kernel⟩
  · refine .next .start ⟨⟨rfl, rfl, rfl, rfl, rfl, ?_, ?_, ?_⟩, And.intro ?_ ?_, .success, ?_⟩ <;>
      decide +kernel
  · refine ⟨rfl, rfl, rfl, rfl, rfl, ?_, ?_, ?_⟩ <;> decide

end KernelDrivers.Awe
