import KernelDrivers.Lib.Interleave

/-!
# Requests to a disk of CoreMnt

Reads and writes of a mounted disk wait in a list.  A server takes one with a call of
`RequestExchange` and reports on it with the next call.  The disk is destroyed when the last
reference to it goes: the map has one, and every call has one of its own.

## Main definitions

* `Shared` — the disk, and what has happened to its requests.
* `Thread` — a call of `DispatchIrp`, of `RequestExchange` or of `Unmount`.
* `act` — a step of a call.
-/

namespace KernelDrivers.CoreMnt

abbrev Status := UInt32

namespace Status

def success : Status := 0
def deviceNotReady : Status := 0xC00000A3
def insufficientResources : Status := 0xC000009A

/-- `NT_SUCCESS`. -/
def ok (status : Status) : Bool := decide (status < 0x80000000)

end Status

inductive Major
  | read
  | write
  | other
  deriving DecidableEq, Repr

structure Irp where
  id : ℕ
  major : Major
  length : UInt32
  byteOffset : UInt64
  deriving DecidableEq, Repr

/-- `DiskOperationType` of `getIrpParam`. -/
def Irp.type (irp : Irp) : UInt32 :=
  match irp.major with
  | .read => 1
  | .write => 2
  | .other => 0

/-- `CORE_MNT_EXCHANGE_REQUEST`; the bytes at `data` do not count. -/
structure Request where
  deviceId : UInt32
  lastType : UInt32
  lastStatus : Status
  lastSize : UInt32
  dataSize : UInt32
  deriving DecidableEq, Repr

/-- `CORE_MNT_EXCHANGE_RESPONSE`. -/
structure Response where
  type : UInt32
  size : UInt32
  offset : UInt64
  deriving DecidableEq, Repr

/-- The report is on a read that succeeded. -/
def Request.fills (r : Request) : Bool := decide (r.lastStatus = .success) && decide (r.lastType = 1)

structure Completion where
  irp : Irp
  status : Status
  information : UInt32
  deriving DecidableEq, Repr

/-- A `memcpy` between the buffer of a request and the one of the server. -/
structure Copy where
  irp : Irp
  intoIrp : Bool
  size : UInt32
  dataSize : UInt32
  deriving DecidableEq, Repr

structure Shared where
  deviceId : UInt32
  /-- The disk is in the map. -/
  mapped : Bool
  /-- The count of the shared pointer. -/
  refs : ℕ
  /-- `irpQueue_`, with its front first. -/
  queue : List Irp
  /-- `irpQueueNotEmpty_`. -/
  notEmpty : Bool
  /-- `stopEvent_`. -/
  stop : Bool
  lastIrp : Option Irp
  /-- `lastIrp_` is completed, and not yet cleared. -/
  lastCompleted : Bool
  /-- A completion was attempted without an outstanding request. -/
  stray : Bool
  /-- The requests that were marked pending, in this order. -/
  marked : List Irp
  /-- The requests that were handed to a server, in this order. -/
  handedOut : List Irp
  /-- The requests that were completed after they had been pending. -/
  completed : List Completion
  copies : List Copy

namespace Shared

variable (s : Shared)

/-- The request that a server works on. -/
def outstanding : Option Irp := if s.lastCompleted then none else s.lastIrp

/-- `ProtectedList::push`. -/
def push (irp : Irp) : Shared :=
  { s with
    queue := irp :: s.queue
    notEmpty := s.notEmpty || decide ((irp :: s.queue).length = 1)
    marked := s.marked ++ [irp] }

/-- `ProtectedList::pop` into `lastIrp_`. -/
def pop : Shared :=
  match s.queue with
  | [] => s
  | irp :: queue =>
      { s with
        queue := queue
        notEmpty := s.notEmpty && !queue.isEmpty
        lastIrp := some irp
        lastCompleted := false
        handedOut := s.handedOut ++ [irp] }

/-- The destructor of the disk. -/
def destroy : Shared :=
  { s with
    stop := true
    queue := []
    notEmpty := s.notEmpty && s.queue.isEmpty
    lastIrp := none
    lastCompleted := false
    stray := s.stray || s.lastCompleted
    completed := s.completed ++
      (s.lastIrp.toList ++ s.queue).map fun irp => ⟨irp, .deviceNotReady, 0⟩ }

/-- A reference is given back. -/
def release : Shared :=
  if s.refs = 1 then { s with refs := 0 }.destroy else { s with refs := s.refs - 1 }

/-- `CompleteLastIrp` up to `IoCompleteRequest`. -/
def completeLast (irp : Irp) (status : Status) (information : UInt32) : Shared :=
  { s with
    stray := s.stray || s.lastCompleted
    lastCompleted := true
    completed := s.completed ++ [⟨irp, status, information⟩] }

def copy (c : Copy) : Shared := { s with copies := s.copies ++ [c] }

end Shared

/-- What a server does behind `CompleteLastIrp`. -/
inductive Rest
  | wait (r : Request)
  | leave (answer : Response)
  deriving DecidableEq, Repr

/-- A call, by its next step. -/
inductive Thread
  /-- `MountManager::DispatchIrp`. -/
  | dispatchIrp (irp : Irp)
  /-- `MountedDisk::DispatchIrp`. -/
  | queueIrp (irp : Irp)
  /-- `MountManager::RequestExchange`. -/
  | exchange (r : Request)
  /-- `MountedDisk::RequestExchange`, with the report on the last request. -/
  | finishLast (r : Request)
  | completeLast (status : Status) (information : UInt32) (rest : Rest)
  /-- The last line of `CompleteLastIrp`. -/
  | clearLast (rest : Rest)
  /-- `KeWaitForMultipleObjects`. -/
  | wait (r : Request)
  /-- The loop that pops. -/
  | takeNext (r : Request)
  /-- The data of a write. -/
  | copyOut (r : Request) (answer : Response)
  /-- `MountManager::Unmount`. -/
  | unmount
  /-- The shared pointer goes out of scope; a call that throws has no answer. -/
  | release (answer : Option Response)
  | done (answer : Option Response)
  deriving DecidableEq, Repr

def Rest.next : Rest → Thread
  | .wait r => .wait r
  | .leave answer => .release (some answer)

/-- The answer without a request. -/
def noAnswer : Response := ⟨0, 0, 0⟩

def Irp.response (irp : Irp) : Response := ⟨irp.type, irp.length, irp.byteOffset⟩

/-- A step of a call; `buffer` is whether `MmGetSystemAddressForMdlSafe` gives an address. -/
def act (s : Shared) (t : Thread) (buffer : Bool) : Shared × Thread :=
  match t with
  | .dispatchIrp irp =>
      if s.mapped then ({ s with refs := s.refs + 1 }, .queueIrp irp) else (s, .done none)
  | .queueIrp irp =>
      if irp.type = 0 then (s, .release none) else (s.push irp, .release none)
  | .exchange r =>
      if s.mapped ∧ r.deviceId = s.deviceId then ({ s with refs := s.refs + 1 }, .finishLast r)
      else (s, .done none)
  | .finishLast r =>
      if r.lastType = 0 then (s, .wait r)
      else
        match s.lastIrp with
        | none => ({ s with stray := true }, .done none)
        | some irp =>
            if r.fills then
              if buffer then
                (s.copy ⟨irp, true, r.lastSize, r.dataSize⟩,
                  .completeLast r.lastStatus r.lastSize (.wait r))
              else (s, .completeLast .insufficientResources r.lastSize (.wait r))
            else (s, .completeLast r.lastStatus r.lastSize (.wait r))
  | .completeLast status information rest =>
      match s.lastIrp with
      | none => ({ s with stray := true }, .done none)
      | some irp => (s.completeLast irp status information, .clearLast rest)
  | .clearLast rest => ({ s with lastIrp := none, lastCompleted := false }, rest.next)
  | .wait r =>
      if s.notEmpty then (s, .takeNext r) else if s.stop then (s, .release none) else (s, .wait r)
  | .takeNext r =>
      match s.queue with
      | [] => (s, .release (some noAnswer))
      | irp :: _ =>
          if irp.type = 0 then (s.pop, .takeNext r)
          else if irp.major = .write then (s.pop, .copyOut r irp.response)
          else (s.pop, .release (some irp.response))
  | .copyOut r answer =>
      match s.lastIrp with
      | none => ({ s with stray := true }, .done none)
      | some irp =>
          if buffer then (s.copy ⟨irp, false, answer.size, r.dataSize⟩, .release (some answer))
          else (s, .completeLast .insufficientResources 0 (.leave { answer with type := 0 }))
  | .unmount =>
      if s.mapped then ({ s with mapped := false }.release, .done none) else (s, .done none)
  | .release answer => (s.release, .done answer)
  | .done answer => (s, .done answer)

/-- A disk that has just been mounted. -/
def disk (deviceId : UInt32) : Conf Shared Thread :=
  ⟨⟨deviceId, true, 1, [], false, false, none, false, false, [], [], [], []⟩, []⟩

/-- A call that has not begun. -/
def Thread.Call : Thread → Prop
  | .dispatchIrp _ | .exchange _ | .unmount => True
  | _ => False

/-- New threads are calls. -/
def Arrives (_ : Conf Shared Thread) : Sched Thread Bool → Prop
  | .spawn t => t.Call
  | .run _ _ => True

/-- The thread has a reference to the disk. -/
def Thread.holds : Thread → Bool
  | .queueIrp _ | .finishLast _ | .completeLast _ _ _ | .clearLast _ | .wait _ | .takeNext _
  | .copyOut _ _ | .release _ => true
  | _ => false

def Thread.clearing : Thread → Bool
  | .clearLast _ => true
  | _ => false

end KernelDrivers.CoreMnt
