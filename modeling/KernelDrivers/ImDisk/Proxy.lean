import KernelDrivers.Fat.Bpb
import KernelDrivers.Lib.Raise
import KernelDrivers.Lib.Wire

/-!
# The proxy client

`ImDiskReadProxy` and `ImDiskWriteProxy` cut a transfer into requests and hand each of them with
`ImDiskCallProxy` to a server, over a byte stream or over a section of shared memory with two
events.

## Main definitions

* `Peer` — what is at the other end: a stream that takes and gives bytes, or a server that answers
  in the section.
* `Client`, `Event` — the client's side, with a log of what it has done.
* `imDiskCallProxy` — one request.
* `readPass`, `writePass` — one pass of the loop.
* `imDiskReadProxy`, `imDiskWriteProxy` — the loops, for so many passes.
-/

namespace KernelDrivers.ImDisk.Proxy

open KernelDrivers.Fat (ulong)

/-- `IMDPROXY_HEADER_SIZE`. -/
@[irreducible] def headerSize : ℕ := 4096

/-- A view of a section, with the width of `ULONG_PTR`. -/
structure SharedMemory where
  pointerBits : ℕ
  size : ℕ
  wide : 32 ≤ pointerBits
  fits : size < 2 ^ pointerBits

/-- `connection_type`. -/
inductive Connection
  | device
  | shm (view : SharedMemory)

/-- `IMDPROXY_READ_REQ` and `IMDPROXY_WRITE_REQ`. -/
structure Request where
  requestCode : ℕ
  offset : ℕ
  length : ℕ

/-- `IMDPROXY_READ_RESP` and `IMDPROXY_WRITE_RESP`. -/
structure Response where
  errorno : ℕ
  length : ℕ

def requestSize : ℕ := 24

def responseSize : ℕ := 16

def Request.bytes (q : Request) : List UInt8 :=
  toBytes 8 q.requestCode ++ toBytes 8 q.offset ++ toBytes 8 q.length

def Response.bytes (r : Response) : List UInt8 := toBytes 8 r.errorno ++ toBytes 8 r.length

def Response.ofBytes (bs : List UInt8) : Response where
  errorno := KernelDrivers.ofBytes (bs.take 8)
  length := KernelDrivers.ofBytes ((bs.drop 8).take 8)

/-- The two reads of a call. -/
inductive Part
  | header
  | data

/-- What is at the other end.  `send` says whether the stream took all the bytes, `receive` gives
at most as many as are asked for, and `exchange` wakes the server and waits for its answer; a wait
that is cancelled has none. -/
structure Peer (σ : Type) where
  send : List UInt8 → σ → Bool × σ
  receive : Part → ℕ → σ → List UInt8 × σ
  exchange : (ℕ → UInt8) → σ → Option (ℕ → UInt8) × σ

/-- What the client does, with offsets in the buffer of the caller or in the section. -/
inductive Event
  | request (offset length : ℕ)
  | stored (first count : ℕ)
  | acked (first count : ℕ)
  | toShared (first count : ℕ)
  | fromShared (first count : ℕ)
  deriving DecidableEq

structure Client (σ : Type) where
  peer : σ
  buffer : ℕ → UInt8
  shared : ℕ → UInt8
  trace : List Event

variable {σ : Type}

/-- A call that fails raises, with what it has done. -/
abbrev ProxyM (σ : Type) := EStateM Unit (Client σ)

def log (e : Event) : ProxyM σ Unit := modify fun c => { c with trace := c.trace ++ [e] }

/-- The arguments of `ImDiskCallProxy`.  The data of the request and of the response are in the
buffer of the caller from `position` on; a write has no response data. -/
structure Call where
  request : Request
  position : ℕ
  requestDataSize : ℕ
  responseBufferSize : Option ℕ

/-! ## A byte stream -/

/-- `ImDiskSafeIOStream` with `IRP_MJ_WRITE`.  Memory that is not there and a cancelled request
end the same way. -/
def sendStream (peer : Peer σ) (bytes : List UInt8) : ProxyM σ Unit := do
  let c ← get
  set { c with peer := (peer.send bytes c.peer).2 }
  if !(peer.send bytes c.peer).1 then throw ()

/-- `ImDiskSafeIOStream` with `IRP_MJ_READ`. -/
def receiveStream (peer : Peer σ) (part : Part) (count : ℕ) : ProxyM σ (List UInt8) := do
  let c ← get
  set { c with peer := (peer.receive part count c.peer).2 }
  return (peer.receive part count c.peer).1.take count

/-- Data go to the buffer as they come, also when the stream then fails. -/
def receiveData (peer : Peer σ) (position count : ℕ) : ProxyM σ Unit := do
  let bytes ← receiveStream peer .data count
  modify fun c => { c with buffer := place c.buffer position bytes }
  log (.stored position bytes.length)
  if bytes.length < count then throw ()

/-- `ImDiskCallProxy` for a stream.  The size of what is sent is a `ULONG`. -/
def callDevice (peer : Peer σ) (q : Call) : ProxyM σ Response := do
  log (.request q.request.offset q.request.length)
  let ioSize := ulong (requestSize + q.requestDataSize)
  let c ← get
  if 0 < ioSize then
    sendStream peer ((q.request.bytes ++ slice c.buffer q.position q.requestDataSize).take ioSize)
  let header ← receiveStream peer .header responseSize
  if header.length < responseSize then throw ()
  let response := Response.ofBytes header
  match q.responseBufferSize with
  | none => return response
  | some size =>
      -- the size of the data is the low half of the length
      if 0 < ulong response.length then
        if size < ulong response.length then throw ()
        receiveData peer q.position (ulong response.length)
      return response

/-! ## Shared memory -/

def storeShared (first : ℕ) (bytes : List UInt8) : ProxyM σ Unit := do
  log (.toShared first bytes.length)
  modify fun c => { c with shared := place c.shared first bytes }

def loadShared (first count : ℕ) : ProxyM σ (List UInt8) := do
  log (.fromShared first count)
  let c ← get
  return slice c.shared first count

/-- Set the one event and wait for the other. -/
def exchange (peer : Peer σ) (q : Request) : ProxyM σ Unit := do
  log (.request q.offset q.length)
  let c ← get
  match peer.exchange c.shared c.peer with
  | (none, s) =>
      set { c with peer := s }
      throw ()
  | (some shared, s) => set { c with peer := s, shared := shared }

/-- `ImDiskCallProxy` for shared memory. -/
def callShm (peer : Peer σ) (view : SharedMemory) (q : Call) : ProxyM σ Response := do
  if headerSize < requestSize ∨ headerSize < responseSize ∨
      view.size < ulong (q.requestDataSize + headerSize) then throw ()
  storeShared 0 q.request.bytes
  let c ← get
  if 0 < q.requestDataSize then
    storeShared headerSize (slice c.buffer q.position q.requestDataSize)
  exchange peer q.request
  let header ← loadShared 0 responseSize
  let response := Response.ofBytes header
  match q.responseBufferSize with
  | none => return response
  | some size =>
      if 0 < ulong response.length then
        if size < ulong response.length ∨
            view.size < ulong (ulong response.length + headerSize) then throw ()
        let bytes ← loadShared headerSize (ulong response.length)
        modify fun c => { c with buffer := place c.buffer q.position bytes }
        log (.stored q.position bytes.length)
      return response

def imDiskCallProxy (peer : Peer σ) : Connection → Call → ProxyM σ Response
  | .device, q => callDevice peer q
  | .shm view, q => callShm peer view q

/-! ## The loops -/

/-- `Length` and `ByteOffset`. -/
structure Transfer where
  length : ℕ
  byteOffset : ℕ
  length_lt : length < 2 ^ 32

/-- `max_transfer_size`. -/
def maxTransferSize (t : Transfer) : Connection → ℕ
  | .device => t.length
  | .shm view => (view.size + 2 ^ view.pointerBits - headerSize) % 2 ^ view.pointerBits

/-- The request for what is left behind `done` bytes. -/
def nextRequest (code : ℕ) (k : Connection) (t : Transfer) (done : ℕ) : Request where
  requestCode := code
  offset := (t.byteOffset + done) % 2 ^ 64
  length := min (t.length - done) (maxTransferSize t k)

/-- The `IO_STATUS_BLOCK`. -/
structure IoStatus where
  success : Bool
  information : ℕ
  deriving DecidableEq

/-- How a pass ends. -/
inductive Pass
  | more (done : ℕ)
  | stop (status : IoStatus)

/-- `IMDPROXY_REQ_READ`. -/
def reqRead : ℕ := 2

/-- `IMDPROXY_REQ_WRITE`. -/
def reqWrite : ℕ := 3

def readCall (k : Connection) (t : Transfer) (done : ℕ) : Call where
  request := nextRequest reqRead k t done
  position := done
  requestDataSize := 0
  responseBufferSize := some (ulong (nextRequest reqRead k t done).length)

def readPass (peer : Peer σ) (k : Connection) (t : Transfer) (done : ℕ) (c : Client σ) :
    Pass × Client σ :=
  match imDiskCallProxy peer k (readCall k t done) c with
  | .error _ c => (.stop ⟨false, done⟩, c)
  | .ok response c =>
      let done := ulong (done + ulong response.length)
      if response.errorno ≠ 0 then (.stop ⟨false, done⟩, c)
      else if response.length = 0 then (.stop ⟨true, done⟩, c)
      else (.more done, c)

def writeCall (k : Connection) (t : Transfer) (done : ℕ) : Call where
  request := nextRequest reqWrite k t done
  position := done
  requestDataSize := ulong (nextRequest reqWrite k t done).length
  responseBufferSize := none

def writePass (peer : Peer σ) (k : Connection) (t : Transfer) (done : ℕ) (c : Client σ) :
    Pass × Client σ :=
  match imDiskCallProxy peer k (writeCall k t done) c with
  | .error _ c => (.stop ⟨false, done⟩, c)
  | .ok response c =>
      if response.errorno ≠ 0 then (.stop ⟨false, done⟩, c)
      else if response.length ≠ (nextRequest reqWrite k t done).length then (.stop ⟨false, done⟩, c)
      else
        let count := ulong (nextRequest reqWrite k t done).length
        (.more (ulong (done + count)), { c with trace := c.trace ++ [.acked done count] })

/-- The loop, for at most `fuel` passes. -/
def transfer (pass : ℕ → Client σ → Pass × Client σ) (length : ℕ) :
    (fuel done : ℕ) → Client σ → Option IoStatus × Client σ
  | 0, done, c => if done < length then (none, c) else (some ⟨true, done⟩, c)
  | fuel + 1, done, c =>
      if done < length then
        match pass done c with
        | (.more done, c) => transfer pass length fuel done c
        | (.stop status, c) => (some status, c)
      else (some ⟨true, done⟩, c)

def imDiskReadProxy (peer : Peer σ) (k : Connection) (t : Transfer) (fuel : ℕ) (c : Client σ) :
    Option IoStatus × Client σ :=
  transfer (readPass peer k t) t.length fuel 0 c

def imDiskWriteProxy (peer : Peer σ) (k : Connection) (t : Transfer) (fuel : ℕ) (c : Client σ) :
    Option IoStatus × Client σ :=
  transfer (writePass peer k t) t.length fuel 0 c

end KernelDrivers.ImDisk.Proxy
