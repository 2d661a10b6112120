import KernelDrivers.Awe.Context
import KernelDrivers.Lib.Interleave

/-!
# The requests of AWEAlloc

`AWEAllocReadWrite` and the size part of `AWEAllocSetInformation`, as machines that take one
step at a time.  A step is what happens between two places where another request can come in:
one call that takes the lock of the context, one look at the size, one pass of a loop.

## Main definitions

* `Request` — an IRP with the local variables of the routine that serves it.
* `Request.act` — the next step of a request.
-/

namespace KernelDrivers.Awe

inductive Major
  | read
  | write
  | setInformation
  deriving DecidableEq, Repr

/-- Where a request is. -/
inductive Pc
  | entry
  | acquire
  | eofCheck
  | sizeCheck
  | upgrade
  | grow
  | downgrade
  | clip
  | copy
  | release (read write : Bool) (status : Status)
  | completed (status : Status)
  /-- A copy ran outside of the mapped page. -/
  | fault
  deriving DecidableEq, Repr

/-- An IRP and the variables of its dispatch routine.  `newSize` is the end of file that a
request sets, or that a write grows the file to.  `holdsRead` and `holdsWrite` are not in the
source: they say which protection the request was granted and has not given back. -/
structure Request where
  major : Major
  byteOffset : ℤ
  length : ℕ
  systemBuffer : ℕ → UInt8
  newSize : ℤ
  lengthDone : ℕ
  page : PageContext
  information : ℕ
  pc : Pc
  holdsRead : Bool
  holdsWrite : Bool

/-- What the rest of the system answers in a step. -/
structure Answer where
  /-- The buffer of the caller can be mapped. -/
  buffer : Bool
  grant : Grant
  map : MapGrant

namespace Request

/-- A request that nobody has served yet.  `Length` is a `ULONG`, offsets are `LONGLONG`s. -/
structure Fresh (r : Request) : Prop where
  pc : r.pc = .entry
  holdsRead : r.holdsRead = false
  holdsWrite : r.holdsWrite = false
  lengthDone : r.lengthDone = 0
  page : r.page = PageContext.empty
  length : r.length < 2 ^ 32
  byteOffset : -2 ^ 63 ≤ r.byteOffset ∧ r.byteOffset < 2 ^ 63
  newSize : -2 ^ 63 ≤ r.newSize ∧ r.newSize < 2 ^ 63

/-- The end of the range of a request, as a `LONGLONG`. -/
def endOffset (r : Request) : ℤ := (r.byteOffset + r.length).bmod (2 ^ 64)

def complete (r : Request) (status : Status) (information : ℕ) : Request :=
  { r with pc := .completed status, information := information }

/-- The checks before any protection is taken. -/
def enter (r : Request) (x : Answer) : Request :=
  match r.major with
  | .setInformation =>
      if r.length < 8 then r.complete .bufferTooSmall 0 else { r with pc := .acquire }
  | _ =>
      if r.byteOffset < 0 ∨ r.endOffset < 0 then r.complete .invalidParameter 0
      else if r.length = 0 then r.complete .success 0
      else if x.buffer = false then r.complete .insufficientResources 0
      else { r with pc := .acquire }

/-- The first protection of a request: for reading, or for writing to set the size. -/
def acquire (c : Context) (r : Request) : Context × Request :=
  match r.major with
  | .setInformation =>
      match tryAcquireProtection c true false with
      | (c, .success) => (c, { r with pc := .grow, holdsWrite := true })
      | (c, status) => (c, r.complete status 0)
  | _ =>
      match tryAcquireProtection c false false with
      | (c, .success) => (c, { r with pc := .eofCheck, holdsRead := true })
      | (c, status) => (c, r.complete status 0)

/-- "Read starts beyond EOF?" -/
def eofCheck (c : Context) (r : Request) : Request :=
  if r.major = .read ∧ r.byteOffset > c.virtualSize then r.complete .endOfFile 0
  else { r with pc := .sizeCheck }

def sizeCheck (c : Context) (r : Request) : Request :=
  if r.endOffset > c.virtualSize then
    { r with pc := if r.major = .write then .upgrade else .clip }
  else { r with pc := .copy }

/-- A write that grows the file needs the protection for writing, on top of its own for
reading. -/
def upgrade (c : Context) (r : Request) : Context × Request :=
  match tryAcquireProtection c true true with
  | (c, .success) => (c, { r with pc := .grow, holdsWrite := true, newSize := r.endOffset })
  | (c, status) => (c, { r with pc := .release true false status })

/-- One pass of `AWEAllocSetSize`, and where its caller goes from there. -/
def grow (c : Context) (r : Request) (x : Answer) : Context × Request :=
  match setSizePass c r.newSize x.grant with
  | (c, none) => (c, r)
  | (c, some status) =>
      if r.major = .setInformation then (c, { r with pc := .release false true status })
      else if status = .success then (c, { r with pc := .downgrade })
      else (c, { r with pc := .release true true status })

/-- "Adjust length to actual remaining range until EOF." -/
def clip (c : Context) (r : Request) : Request :=
  if r.endOffset > c.virtualSize then
    { r with pc := .copy, length := ((c.virtualSize - r.byteOffset) % 2 ^ 32).toNat }
  else { r with pc := .copy }

/-- The bytes of a pass of the copy loop: up to the end of the page.  The sum of the test is one
of two `ULONG`s. -/
def bytesThisIter (r : Request) : ℕ :=
  let pageOffset := getPageOffset (r.byteOffset + r.lengthDone)
  let bytes := r.length - r.lengthDone
  if (pageOffset + bytes) % 2 ^ 32 > allocPageSize then allocPageSize - pageOffset else bytes

/-- `RtlCopyMemory` between the buffer of the caller and the mapped page. -/
def transfer (c : Context) (r : Request) (m : Mapping) : Context × Request :=
  let pageOffset := getPageOffset (r.byteOffset + r.lengthDone)
  let bytes := r.bytesThisIter
  if pageOffset + bytes > m.size then (c, { r with pc := .fault })
  else
    let at' := m.start + pageOffset
    match r.major with
    | .write =>
        (c.store m.mdl at' bytes fun i => r.systemBuffer (r.lengthDone + i),
          { r with lengthDone := r.lengthDone + bytes })
    | _ =>
        (c, { r with
          lengthDone := r.lengthDone + bytes
          systemBuffer := fun i =>
            if r.lengthDone ≤ i ∧ i < r.lengthDone + bytes then
              c.memory m.mdl (at' + (i - r.lengthDone))
            else r.systemBuffer i })

/-- One pass of the copy loop.  Behind the last one the page goes back to the context. -/
def copyPass (c : Context) (r : Request) (x : Answer) : Context × Request :=
  if r.lengthDone ≥ r.length then
    match mapPage c (-1) r.page x.map with
    | (c, page, _) => (c, { r with page := page, pc := .release true false .success })
  else
    match mapPage c (r.byteOffset + r.lengthDone) r.page x.map with
    | (c, page, .success) =>
        match page.mapping with
        | some m => transfer c { r with page := page } m
        | none => (c, { r with page := page, pc := .fault })
    | (c, page, status) => (c, { r with page := page, pc := .release true false status })

/-- The end of a request that gives back protection. -/
def release (c : Context) (r : Request) (read write : Bool) (status : Status) :
    Context × Request :=
  (releaseProtection c read write,
    { r.complete status (if status = .success then r.lengthDone else 0) with
      holdsRead := r.holdsRead && !read
      holdsWrite := r.holdsWrite && !write })

/-- The next step of a request. -/
def act (c : Context) (r : Request) (x : Answer) : Context × Request :=
  match r.pc with
  | .entry => (c, r.enter x)
  | .acquire => r.acquire c
  | .eofCheck => (c, r.eofCheck c)
  | .sizeCheck => (c, r.sizeCheck c)
  | .upgrade => r.upgrade c
  | .grow => r.grow c x
  | .downgrade =>
      (releaseProtection c false true, { r with pc := .clip, holdsWrite := false })
  | .clip => (c, r.clip c)
  | .copy => r.copyPass c x
  | .release read write status => r.release c read write status
  | .completed _ => (c, r)
  | .fault => (c, r)

end Request

end KernelDrivers.Awe
