import KernelDrivers.ImDisk.LastIo

/-!
# Parallel I/O

A device with `parallel_io` set passes its requests on to the driver of the image file, from the
dispatch routine itself.  The completion routine of such a request leaves its buffer behind as
the last-I/O buffer; where that driver does direct I/O the request is forwarded as it is, and
nobody touches the buffer.  A write of zeros goes to the device thread when the image is sparse.

Every byte carries the write that it comes from, and each request the requests that had completed
when it was dispatched.

## Main definitions

* `Request` — a read or a write with its place, its buffer and its outcome.
* `Device.step` — the device behind an event: an arrival, a step of a dispatch routine, the
  execution by the lower device, a step of a completion routine or of the device thread.
* `Device.NotStale` — no read has returned a byte from before a write that it came after.
-/

namespace KernelDrivers.ImDisk.Parallel

open LastIo (Transfer)

/-- A byte and the write that it comes from, `none` for what the image held at the start. -/
structure Cell where
  value : UInt8
  writer : Option ℕ

/-- `ImDiskIsBufferZero`, which compares eight bytes at a time. -/
def isBufferZero (data : ℕ → UInt8) (length : ℕ) : Bool :=
  decide (8 ≤ length ∧ length % 8 = 0) && (List.range length).all fun j => data j == 0

/-- `ImDiskByteSwapBuffer`. -/
def byteSwapBuffer (bytes : ℕ → Cell) (j : ℕ) : Cell :=
  if j % 2 = 0 then bytes (j + 1) else bytes (j - 1)

inductive Stage
  /-- A read that looks at the buffer. -/
  | lookup (pc : LookupPc)
  /-- In front of `ImDiskReadWriteLowerDevice`. -/
  | send
  /-- With the lower device. -/
  | sent
  /-- In front of the completion routine. -/
  | executed
  /-- The completion routine has put its buffer in place. -/
  | installed
  /-- In the list of the device thread. -/
  | queued
  /-- With the device thread. -/
  | served
  /-- With the device thread, which has set the marks. -/
  | filled
  | completed
  deriving DecidableEq, Repr

structure Request where
  transfer : Transfer
  /-- The requests that had completed when this one was dispatched. -/
  before : ℕ → Bool
  stage : Stage
  /-- The buffer of the lower request, and what a read returns. -/
  bytes : ℕ → Cell
  /-- The bytes that a success reports. -/
  outcome : Option ℕ
  /-- The place in the order of the executions. -/
  executedAt : ℕ

namespace Request

/-- Where the dispatch routine looks at the buffer; all others do not hold the lock. -/
def pc (r : Request) : LookupPc :=
  match r.stage with
  | .lookup pc => pc
  | _ => .finished false

/-- The bytes of write `i`. -/
def cells (r : Request) (i : ℕ) (j : ℕ) : Cell := ⟨r.transfer.data j, some i⟩

/-- The bytes that were transferred. -/
def count (r : Request) : ℕ := r.outcome.getD 0

/-- Byte `x` is one of the bytes that the request reports. -/
def Covers (r : Request) (x : ℕ) : Prop :=
  r.transfer.offset ≤ x ∧ x < r.transfer.offset + r.count

instance (r : Request) (x : ℕ) : Decidable (r.Covers x) := inferInstanceAs (Decidable (_ ∧ _))

end Request

/-- Where the device thread is, and with which write. -/
inductive ThreadPc
  | idle
  | reset (i : ℕ)
  | allocate (i : ℕ)
  | fill (i : ℕ)
  | io (i : ℕ)
  | storeOffset (i : ℕ)
  | storeLength (i : ℕ)
  | complete (i : ℕ)

/-- From the reset of the marks until both are set again. -/
def ThreadPc.refilling : ThreadPc → Bool
  | .idle => false
  | .reset _ => false
  | .complete _ => false
  | _ => true

structure Device where
  marks : Marks Cell
  image : ℕ → Cell
  capacity : ℕ
  byteSwap : Bool
  /-- `DO_DIRECT_IO` of the lower device. -/
  directIo : Bool
  /-- `use_set_zero_data`. -/
  setZeroData : Bool
  requests : List Request
  queue : List ℕ
  thread : ThreadPc
  /-- The number of executions so far. -/
  time : ℕ

/-- What the system answers: whether the buffer of the caller can be mapped, whether there is pool,
what new memory holds, whether the image takes `FSCTL_SET_ZERO_DATA`, and how a read or a write of
it ends and after how many bytes. -/
structure Answer where
  mapped : Bool
  pool : Bool
  junk : ℕ → UInt8
  zeroes : Bool
  succeeds : Bool
  done : ℕ

def Answer.memory (x : Answer) (j : ℕ) : Cell := ⟨x.junk j, none⟩

/-- The image with `n` bytes written at an offset. -/
def written (image : ℕ → Cell) (offset : ℕ) (bytes : ℕ → Cell) (n : ℕ) (a : ℕ) : Cell :=
  if offset ≤ a ∧ a < offset + n then bytes (a - offset) else image a

namespace Device

def done (s : Device) (i : ℕ) : Bool :=
  match s.requests[i]? with
  | some r => decide (r.stage = .completed)
  | none => false

/-- Request `i` is replaced. -/
def put (s : Device) (i : ℕ) (r : Request) : Device := { s with requests := s.requests.set i r }

/-! ### The dispatch routine -/

/-- The first half of `ImDiskDispatchReadWrite`: a request behind the end of the disk or for no
bytes is answered at once, a read looks at the buffer, a write of zeros to a sparse image goes to
the thread, and any other one to the lower device. -/
def arrive (s : Device) (t : Transfer) (x : Answer) : Device :=
  let i := s.requests.length
  let new : Request := ⟨t, s.done, .send, x.memory, none, 0⟩
  if s.capacity < t.offset + t.length ∨ t.length = 0 then
    { s with requests := s.requests ++ [{ new with stage := .completed, outcome := some 0 }] }
  else
    match t.direction with
    | .read => { s with requests := s.requests ++ [{ new with stage := .lookup .acquire }] }
    | .write =>
        if s.setZeroData && decide (8 < t.length) && x.mapped && isBufferZero t.data t.length then
          { s with
            requests := s.requests ++ [{ new with stage := .queued }]
            queue := s.queue ++ [i] }
        else { s with requests := s.requests ++ [new] }

/-- The bytes that the copy from the buffer gives; what lies outside of it is not known. -/
def hit (s : Device) (t : Transfer) (x : Answer) (j : ℕ) : Cell :=
  match s.marks.data with
  | some b => if j < t.length then b.bytes (t.offset + j - s.marks.lastOffset) else x.memory j
  | none => x.memory j

/-- The copy of a hit.  Without a mapping the read fails, and is completed all the same. -/
def copy (s : Device) (r : Request) (x : Answer) : Request :=
  if x.mapped then
    let bytes := s.hit r.transfer x
    { r with
      bytes := if s.byteSwap then byteSwapBuffer bytes else bytes
      outcome := some r.transfer.length }
  else { r with outcome := none }

/-- A look of read `i` at the buffer. -/
def lookup (s : Device) (i : ℕ) (r : Request) (pc : LookupPc) (x : Answer) : Device :=
  let next := s.marks.look i r.transfer.offset r.transfer.length pc
  let r' := if pc = .copy then s.copy r x else r
  { s with marks := next.1, requests := s.requests.set i { r' with stage := .lookup next.2 } }

/-- `ImDiskReadWriteLowerDevice`. -/
def send (s : Device) (i : ℕ) (r : Request) (x : Answer) : Device :=
  if s.directIo ∨ (x.mapped ∧ x.pool) then
    match r.transfer.direction with
    | .read => s.put i { r with stage := .sent }
    | .write => s.put i { r with stage := .sent, bytes := r.cells i }
  else s.put i { r with stage := .completed, outcome := none }

/-- The next step of the dispatch routine with request `i`. -/
def dispatch (s : Device) (i : ℕ) (x : Answer) : Device :=
  match s.requests[i]? with
  | none => s
  | some r =>
      match r.stage with
      | .lookup (.finished true) => s.put i { r with stage := .completed }
      | .lookup (.finished false) => s.put i { r with stage := .send }
      | .lookup pc => s.lookup i r pc x
      | .send => s.send i r x
      | _ => s

/-! ### The lower device and the completion routine -/

/-- The lower device executes a read or a write; one that fails may have stored a part. -/
def perform (s : Device) (i : ℕ) (r : Request) (x : Answer) : Device :=
  let n := min x.done r.transfer.length
  let r' := { r with
    stage := .executed, outcome := if x.succeeds then some n else none, executedAt := s.time }
  match r.transfer.direction with
  | .read =>
      let bytes := fun j => if j < n then s.image (r.transfer.offset + j) else x.memory j
      { s with time := s.time + 1, requests := s.requests.set i { r' with bytes := bytes } }
  | .write =>
      { s with
        time := s.time + 1
        requests := s.requests.set i r'
        image := written s.image r.transfer.offset r.bytes n }

def execute (s : Device) (i : ℕ) (x : Answer) : Device :=
  match s.requests[i]? with
  | none => s
  | some r => if r.stage = .sent then s.perform i r x else s

/-- `last_io_data`, `last_io_offset` and `last_io_length` are set to those of the request. -/
def install (s : Device) (i : ℕ) (r : Request) : Device :=
  { s with
    marks :=
      { s.marks with
        data := some ⟨r.transfer.length, r.bytes⟩
        lastOffset := r.transfer.offset
        lastLength := r.count }
    requests := s.requests.set i { r with stage := .installed } }

/-- The next step of `ImDiskReadWriteLowerDeviceCompletion`.  A request that was forwarded, or that
failed, is completed without it. -/
def complete (s : Device) (i : ℕ) : Device :=
  match s.requests[i]? with
  | none => s
  | some r =>
      match r.stage with
      | .executed =>
          if s.directIo ∨ r.outcome = none then s.put i { r with stage := .completed }
          else
            match s.marks.lock with
            | some _ => s
            | none => s.install i r
      | .installed => s.put i { r with stage := .completed }
      | _ => s

/-! ### The device thread -/

/-- The marks behind the section of the thread that holds the lock. -/
def resetMarks (m : Marks Cell) (t : Transfer) : Marks Cell :=
  { m with
    data := if m.lastLength < t.length then none else m.data
    lastOffset := 0
    lastLength := 0 }

/-- The copy of the data of a write into the buffer. -/
def fill (i : ℕ) (r : Request) (b : Buffer Cell) : Buffer Cell :=
  { b with bytes := fun j => if j < r.transfer.length then r.cells i j else b.bytes j }

/-- Write `i` has failed. -/
def fail (s : Device) (i : ℕ) (r : Request) : Device :=
  { s with requests := s.requests.set i { r with outcome := none }, thread := .complete i }

/-- `FSCTL_SET_ZERO_DATA`, or `NtWriteFile` when the image does not take it. -/
def runIo (s : Device) (i : ℕ) (r : Request) (b : Buffer Cell) (x : Answer) : Device :=
  let t := r.transfer
  let zero := s.setZeroData &&
    (decide (8 ≤ t.length ∧ t.length % 8 = 0) &&
      (List.range t.length).all fun j => (b.bytes j).value == 0)
  let r' := { r with outcome := some t.length, executedAt := s.time }
  if zero ∧ x.zeroes then
    { s with
      time := s.time + 1
      image := written s.image t.offset (fun _ => ⟨0, some i⟩) t.length
      requests := s.requests.set i r'
      thread := .storeOffset i }
  else if x.succeeds then
    { s with
      time := s.time + 1
      setZeroData := s.setZeroData && !zero
      image := written s.image t.offset b.bytes t.length
      requests := s.requests.set i r'
      thread := .storeOffset i }
  else
    { s with
      setZeroData := s.setZeroData && !zero
      image := written s.image t.offset b.bytes (min x.done t.length)
      marks := { s.marks with data := none }
      requests := s.requests.set i { r with outcome := none }
      thread := .complete i }

/-- The next step of the device thread with write `i`. -/
def serve (s : Device) (i : ℕ) (r : Request) (x : Answer) : Device :=
  match s.thread with
  | .idle => s
  | .reset _ =>
      match s.marks.lock with
      | some _ => s
      | none => { s with marks := resetMarks s.marks r.transfer, thread := .allocate i }
  | .allocate _ =>
      match s.marks.data with
      | some _ => { s with thread := .fill i }
      | none =>
          if x.pool then
            { s with
              marks := { s.marks with data := some ⟨r.transfer.length, x.memory⟩ }
              thread := .fill i }
          else s.fail i r
  | .fill _ =>
      { s with
        marks := { s.marks with data := s.marks.data.map (fill i r) }
        thread := .io i }
  | .io _ =>
      match s.marks.data with
      | none => s
      | some b => s.runIo i r b x
  | .storeOffset _ =>
      { s with
        marks := { s.marks with lastOffset := r.transfer.offset }
        thread := .storeLength i }
  | .storeLength _ =>
      { s with
        marks := { s.marks with lastLength := r.transfer.length }
        requests := s.requests.set i { r with stage := .filled }
        thread := .complete i }
  | .complete _ =>
      { s with
        requests := s.requests.set i { r with stage := .completed }
        thread := .idle }

/-- The thread takes the first write of the list. -/
def take (s : Device) (i : ℕ) (r : Request) (queue : List ℕ) (x : Answer) : Device :=
  if x.mapped then
    { s with
      requests := s.requests.set i { r with stage := .served }
      queue := queue
      thread := .reset i }
  else
    { s with
      requests := s.requests.set i { r with stage := .served, outcome := none }
      queue := queue
      thread := .complete i }

end Device

/-- The write that the thread is with. -/
def ThreadPc.request : ThreadPc → Option ℕ
  | .idle => none
  | .reset i | .allocate i | .fill i | .io i | .storeOffset i | .storeLength i | .complete i => some i

namespace Device

def runThread (s : Device) (x : Answer) : Device :=
  match s.thread.request with
  | some i =>
      match s.requests[i]? with
      | none => s
      | some r => s.serve i r x
  | none =>
      match s.queue with
      | [] => s
      | i :: queue =>
          match s.requests[i]? with
          | none => s
          | some r => s.take i r queue x

end Device

inductive Event
  | arrive (t : Transfer) (x : Answer)
  | dispatch (i : ℕ) (x : Answer)
  | execute (i : ℕ) (x : Answer)
  | complete (i : ℕ)
  | thread (x : Answer)

def Device.step (s : Device) : Event → Device
  | .arrive t x => s.arrive t x
  | .dispatch i x => s.dispatch i x
  | .execute i x => s.execute i x
  | .complete i => s.complete i
  | .thread x => s.runThread x

/-- Read `q` has returned `n` bytes and came behind the completion of write `a` of `m` bytes: every
byte of the overlap has the value of a write that had not completed when `a` was dispatched, as `a`
itself had not. -/
def Device.NotStale (s : Device) : Prop :=
  ∀ q ∈ s.requests, q.transfer.direction = .read → q.stage = .completed →
    ∀ i a, s.requests[i]? = some a → a.transfer.direction = .write → q.before i = true →
      ∀ x, q.Covers x → a.Covers x →
        ∃ j b, s.requests[j]? = some b ∧ b.transfer.direction = .write ∧
          b.transfer.offset ≤ x ∧ x < b.transfer.offset + b.transfer.length ∧
          (q.bytes (x - q.transfer.offset)).value = b.transfer.data (x - b.transfer.offset) ∧
          a.before j = false

end KernelDrivers.ImDisk.Parallel
