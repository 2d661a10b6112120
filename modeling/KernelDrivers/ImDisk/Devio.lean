import KernelDrivers.ImDisk.Proxy

/-!
# The devio server

`devio` answers the requests of a proxy client from an image, over a byte stream or a section of
shared memory.  In the section the request and the response have cursors of their own, which a
flush puts back to the start; the data of both stay in place behind the header.

## Main definitions

* `Image` — what the command line has fixed.
* `Server`, `Comm` — the file and the two transports.
* `commRead`, `commWrite`, `commFlush` — the transports behind one interface.
* `readData`, `writeData`, `serveOne` — one request.
* `devio` — the server as a peer of the client.
-/

namespace KernelDrivers.ImDisk.Devio

open KernelDrivers.ImDisk.Proxy

/-- The part of a file that is served, and `buffer_size`. -/
structure Image where
  offset : ℕ
  fileSize : ℕ
  bufferSize : ℕ
  readOnly : Bool
  reqAlignment : ℕ
  flags : ℕ
  inFile : offset + fileSize ≤ 2 ^ 63
  bufferSize_lt : bufferSize < 2 ^ 32

/-- A byte stream with `buf`, or the section with `shm_readptr` and `shm_writeptr`. -/
inductive Comm
  | stream (input output : List UInt8) (buf : ℕ → UInt8)
  | shm (view : ℕ → UInt8) (readptr writeptr : Option ℕ)

structure Server where
  file : ℕ → UInt8
  comm : Comm
  closed : Bool

/-- Why a request is not done: its bytes are not all there, or the server gives up. -/
inductive Halt
  | blocked
  | ended

abbrev ServerM := EStateM Halt Server

/-! ## Transports -/

def commRead (size : ℕ) : ServerM (List UInt8) := do
  let s ← get
  match s.comm with
  | .stream input output buf =>
      if input.length < size then throw .blocked
      set { s with comm := .stream (input.drop size) output buf }
      return input.take size
  | .shm view readptr writeptr =>
      if headerSize - readptr.getD 0 < size then throw .ended
      set { s with comm := .shm view (some (readptr.getD 0 + size)) writeptr }
      return slice view (readptr.getD 0) size

/-- `comm_read` into `buf`. -/
def commReadBuf (image : Image) (size : ℕ) : ServerM Unit := do
  let s ← get
  match s.comm with
  | .stream input output buf =>
      if input.length < size then throw .blocked
      set { s with comm := .stream (input.drop size) output (place buf 0 (input.take size)) }
  | .shm _ _ _ => if image.bufferSize < size then throw .ended

def commWrite (bytes : List UInt8) : ServerM Unit := do
  let s ← get
  match s.comm with
  | .stream input output buf => set { s with comm := .stream input (output ++ bytes) buf }
  | .shm view readptr writeptr =>
      if headerSize - writeptr.getD 0 < bytes.length then throw .ended
      set { s with
        comm := .shm (place view (writeptr.getD 0) bytes) readptr
          (some (writeptr.getD 0 + bytes.length)) }

/-- `comm_write` out of `buf`. -/
def commWriteBuf (image : Image) (size : ℕ) : ServerM Unit := do
  let s ← get
  match s.comm with
  | .stream input output buf => set { s with comm := .stream input (output ++ slice buf 0 size) buf }
  | .shm _ _ _ => if image.bufferSize < size then throw .ended

/-- `comm_flush`, up to the wait for the next request. -/
def commFlush : ServerM Unit := do
  let s ← get
  match s.comm with
  | .stream _ _ _ => return
  | .shm view _ _ => set { s with comm := .shm view none none }

/-- The bytes of `buf`: in the section they are behind the header. -/
def loadBuf (size : ℕ) : ServerM (List UInt8) := do
  let s ← get
  match s.comm with
  | .stream _ _ buf => return slice buf 0 size
  | .shm view _ _ => return slice view headerSize size

def storeBuf (bytes : List UInt8) : ServerM Unit := do
  let s ← get
  match s.comm with
  | .stream input output buf => set { s with comm := .stream input output (place buf 0 bytes) }
  | .shm view readptr writeptr =>
      set { s with comm := .shm (place view headerSize bytes) readptr writeptr }

/-! ## Requests -/

def ebadf : ℕ := 9

def enodev : ℕ := 19

def einval : ℕ := 22

/-- `IMDPROXY_REQ_INFO`. -/
def reqInfo : ℕ := 1

/-- `physical_read` into `buf`.  The count is an `int` and the offset a signed one, and bytes behind
the end of the file are zero. -/
def physicalRead (size offset : ℕ) : ServerM Bool := do
  if 2 ^ 31 ≤ size ∨ 2 ^ 63 ≤ offset then return false
  let s ← get
  storeBuf (slice s.file offset size)
  return true

/-- `physical_write` out of `buf`. -/
def physicalWrite (size offset : ℕ) : ServerM Bool := do
  if 2 ^ 31 ≤ size ∨ 2 ^ 63 ≤ offset then return false
  let bytes ← loadBuf size
  modify fun s => { s with file := place s.file offset bytes }
  return true

/-- The request behind its code. -/
def commReadRequest : ServerM (ℕ × ℕ) := do
  let bytes ← commRead (requestSize - 8)
  return (ofBytes (bytes.take 8), ofBytes (bytes.drop 8))

def sendInfo (image : Image) : ServerM Unit := do
  commWrite (toBytes 8 image.fileSize ++ toBytes 8 image.reqAlignment ++ toBytes 8 image.flags)
  commFlush

/-- A read behind its request.  One for more than the buffer is cut to it. -/
def answerRead (image : Image) (request : ℕ × ℕ) : ServerM Unit := do
  let size := min request.2 image.bufferSize
  storeBuf (List.replicate size 0)
  let done ← physicalRead size ((image.offset + request.1) % 2 ^ 64)
  if done then
    commWrite (Response.bytes ⟨0, size⟩)
    commWriteBuf image size
  else
    commWrite (Response.bytes ⟨einval, 0⟩)
  commFlush

def readData (image : Image) : ServerM Unit := do
  let request ← commReadRequest
  answerRead image request

/-- A write behind its request.  One of more than the buffer is refused, with the connection. -/
def answerWrite (image : Image) (request : ℕ × ℕ) : ServerM Unit := do
  if image.bufferSize < request.2 then throw .ended
  commReadBuf image request.2
  if image.readOnly then
    commWrite (Response.bytes ⟨ebadf, 0⟩)
  else
    let done ← physicalWrite request.2 ((image.offset + request.1) % 2 ^ 64)
    if done then
      commWrite (Response.bytes ⟨0, request.2⟩)
    else
      commWrite (Response.bytes ⟨einval, 2 ^ 64 - 1⟩)
  commFlush

def writeData (image : Image) : ServerM Unit := do
  let request ← commReadRequest
  answerWrite image request

/-- One pass of the loop of `do_comm`, and whether it has flushed. -/
@[irreducible] def serveOne (image : Image) : ServerM Bool := do
  let req ← commRead 8
  if ofBytes req = reqInfo then
    sendInfo image
    return true
  else if ofBytes req = reqRead then
    readData image
    return true
  else if ofBytes req = reqWrite then
    writeData image
    return true
  else
    commWrite (toBytes 8 enodev)
    return false

/-- Behind a flush of the section the server waits. -/
def waits (comm : Comm) (flushed : Bool) : Bool :=
  match comm with
  | .stream _ _ _ => false
  | .shm _ _ _ => flushed

/-- The loop, for at most `fuel` requests.  A request that is not all there is left where it is. -/
def serve (image : Image) : (fuel : ℕ) → Server → Server
  | 0, s => s
  | fuel + 1, s =>
      match serveOne image s with
      | .ok flushed t => if waits t.comm flushed then t else serve image fuel t
      | .error .blocked _ => s
      | .error .ended t => { t with closed := true }

/-! ## The server as a peer -/

/-- Bytes come in, and the server works on them. -/
def sendTo (image : Image) (bytes : List UInt8) (s : Server) : Bool × Server :=
  if s.closed then (false, s)
  else
    match s.comm with
    | .stream input output buf =>
        (true, serve image (input ++ bytes).length
          { s with comm := .stream (input ++ bytes) output buf })
    | .shm _ _ _ => (false, s)

def receiveFrom (size : ℕ) (s : Server) : List UInt8 × Server :=
  match s.comm with
  | .stream input output buf =>
      (output.take size, { s with comm := .stream input (output.drop size) buf })
  | .shm _ _ _ => ([], s)

/-- The request event is set.  The header has room for so many unknown requests. -/
def exchangeWith (image : Image) (shared : ℕ → UInt8) (s : Server) :
    Option (ℕ → UInt8) × Server :=
  if s.closed then (none, s)
  else
    match s.comm with
    | .stream _ _ _ => (none, s)
    | .shm _ readptr writeptr =>
        let t := serve image headerSize { s with comm := .shm shared readptr writeptr }
        match t.closed, t.comm with
        | false, .shm view _ _ => (some view, t)
        | _, _ => (none, t)

/-- What a proxy client sees of the server. -/
def devio (image : Image) : Peer Server where
  send := sendTo image
  receive _ := receiveFrom
  exchange := exchangeWith image

end KernelDrivers.ImDisk.Devio
