import KernelDrivers.ImDisk.DevioAnswers

/-!
# Client and server together are a disk

Between two calls neither side has anything left to read.  From there a read gives the bytes of
the file and a write puts its bytes into it, for every length, and the next call finds the two sides
as this one did.

## Main definitions

* `Op`, `perform`, `run` — calls of the client, one after the other.
* `flatRun` — the same on a plain string of bytes.

## Main results

* `run_devio_eq_flatRun` — the two agree.
* `imDiskWriteProxy_long` — a write over a stream that is longer than the buffer of the server.
-/

namespace KernelDrivers.ImDisk.Devio

open KernelDrivers.Fat (ulong)
open KernelDrivers.ImDisk.Proxy

/-! ## One call -/

section Calls

variable {image : Image} {k : Connection} {c c' : Client Server} {q : Call} {a b n : ℕ}
  {peer : Peer Server} {bytes data : List UInt8} {s : Server} {E : Unit → Client Server → Prop}

theorem ofBytes_bytes {r : Response} (he : r.errorno < 2 ^ 64) (hl : r.length < 2 ^ 64) :
    Response.ofBytes (Response.bytes r) = r := by
  have hlow : (Response.bytes r).take 8 = toBytes 8 r.errorno :=
    List.take_left' (length_toBytes 8 _)
  have hhigh : (Response.bytes r).drop 8 = toBytes 8 r.length :=
    List.drop_left' (length_toBytes 8 _)
  have hall : (toBytes 8 r.length).take 8 = toBytes 8 r.length :=
    List.take_of_length_le (length_toBytes 8 _).le
  rw [Response.ofBytes, hlow, hhigh, hall, ofBytes_toBytes_of_lt (by simpa using he),
    ofBytes_toBytes_of_lt (by simpa using hl)]

/-- A read of `n` bytes of the image from `a` on. -/
structure ReadDone (image : Image) (k : Connection) (q : Call) (c : Client Server) (a n : ℕ)
    (r : Response) (c' : Client Server) : Prop where
  response : r = ⟨0, n⟩
  buffer : c'.buffer = place c.buffer q.position (slice c.peer.file (image.offset + a) n)
  file : c'.peer.file = c.peer.file
  idle : Idle image k c'.peer

/-- A write of `n` bytes of the image from `a` on. -/
structure WriteDone (image : Image) (k : Connection) (q : Call) (c : Client Server) (a n : ℕ)
    (r : Response) (c' : Client Server) : Prop where
  response : r = ⟨0, n⟩
  buffer : c'.buffer = c.buffer
  file : c'.peer.file = place c.peer.file (image.offset + a) (slice c.buffer q.position n)
  idle : Idle image k c'.peer

theorem sat_log_devio (e : Proxy.Event) :
    Sat (log e) c (fun _ t => ∃ trace, t = { c with trace := trace }) E :=
  Sat.modify ⟨_, rfl⟩

theorem sat_sendStream_devio (h : peer.send bytes c.peer = (true, s)) :
    Sat (sendStream peer bytes) c (fun _ t => t = { c with peer := s }) E := by
  simp only [sendStream]
  apply Sat.get_bind
  apply Sat.set_bind
  simp only [h]
  exact Sat.pure rfl

theorem sat_receiveStream_devio {output : List UInt8} {buf : ℕ → UInt8} {part : Part}
    (h : c.peer.comm = .stream [] (bytes ++ output) buf) (hn : bytes.length = n) :
    Sat (receiveStream (devio image) part n) c
      (fun bs t => bs = bytes ∧ t = { c with peer := c.peer.withComm (.stream [] output buf) }) E := by
  have hreceive : (devio image).receive part n c.peer =
      (bytes, c.peer.withComm (.stream [] output buf)) := by
    change receiveFrom n c.peer = _
    rw [receiveFrom, h]
    dsimp only
    rw [List.take_left' hn, List.drop_left' hn]
    rfl
  simp only [receiveStream]
  apply Sat.get_bind
  apply Sat.set_bind
  simp only [hreceive]
  exact Sat.pure ⟨List.take_of_length_le hn.le, rfl⟩

theorem sat_receiveData_devio {buf : ℕ → UInt8} (h : c.peer.comm = .stream [] bytes buf)
    (hn : bytes.length = n) (p : ℕ) :
    Sat (receiveData (devio image) p n) c
      (fun _ t => ∃ trace, t = { c with
        peer := c.peer.withComm (.stream [] [] buf)
        buffer := place c.buffer p bytes
        trace := trace }) E := by
  have hall : c.peer.comm = .stream [] (bytes ++ []) buf := by rw [h, List.append_nil]
  simp only [receiveData]
  refine Sat.bind (sat_receiveStream_devio hall hn) ?_
  rintro _ _ ⟨rfl, rfl⟩
  apply Sat.modify_bind
  refine Sat.bind (sat_log_devio _) ?_
  rintro _ _ ⟨trace, rfl⟩
  rw [if_neg (by omega)]
  exact Sat.pure ⟨trace, rfl⟩

theorem sat_callDevice_read (hs : Idle image .device c.peer) (hq : q.request = ⟨reqRead, a, b⟩)
    (hdata : q.requestDataSize = 0) (hresponse : q.responseBufferSize = some b)
    (ha : a + min b image.bufferSize ≤ image.fileSize) (hb : b < 2 ^ 32)
    (hpos : 0 < min b image.bufferSize) (hbuf : image.bufferSize < 2 ^ 31) :
    Sat (callDevice (devio image) q) c (ReadDone image .device q c a (min b image.bufferSize)) E := by
  obtain ⟨buf, hsend⟩ := sendTo_read hs ha hb hpos hbuf
  have hle := Nat.min_le_left b image.bufferSize
  generalize min b image.bufferSize = n at *
  have hsent (c : Client Server) : (q.request.bytes ++ slice c.buffer q.position q.requestDataSize).take
      (ulong (requestSize + q.requestDataSize)) = Request.bytes ⟨reqRead, a, b⟩ := by
    rw [hq, hdata]
    exact List.take_left' (length_request _)
  have hlow : ulong n = n := Nat.mod_eq_of_lt (by omega)
  simp only [callDevice]
  refine Sat.bind (sat_log_devio _) ?_
  rintro _ _ ⟨trace, rfl⟩
  apply Sat.get_bind
  rw [hsent, hdata, if_pos (by decide)]
  refine Sat.bind (sat_sendStream_devio hsend) ?_
  rintro _ _ rfl
  refine Sat.bind (sat_receiveStream_devio rfl (length_bytes _)) ?_
  rintro _ _ ⟨rfl, rfl⟩
  rw [length_bytes, if_neg (by omega), ofBytes_bytes (by simp) (by simp; omega)]
  simp only [hresponse, hlow]
  rw [if_pos hpos, if_neg (by omega)]
  refine Sat.bind (sat_receiveData_devio rfl (length_slice _ _ _) q.position) ?_
  rintro _ _ ⟨trace', rfl⟩
  exact Sat.pure ⟨rfl, rfl, rfl, hs.1, buf, rfl⟩

theorem sat_callDevice_write (hs : Idle image .device c.peer) (hq : q.request = ⟨reqWrite, a, b⟩)
    (hdata : q.requestDataSize = b) (hresponse : q.responseBufferSize = none)
    (hro : image.readOnly = false) (ha : a + b ≤ image.fileSize) (hpos : 0 < b)
    (hle : b ≤ image.bufferSize) (hbuf : image.bufferSize < 2 ^ 31) :
    Sat (callDevice (devio image) q) c (WriteDone image .device q c a b) E := by
  have hcount : (slice c.buffer q.position b).length = b := length_slice _ _ _
  obtain ⟨buf, hsend⟩ := sendTo_write hs hcount hro ha hpos hle hbuf
  have hsize : ulong (requestSize + b) = requestSize + b :=
    Nat.mod_eq_of_lt (by simp only [requestSize]; omega)
  have hlength : (Request.bytes ⟨reqWrite, a, b⟩ ++ slice c.buffer q.position b).length =
      requestSize + b := by
    rw [List.length_append, length_request, length_slice]
  simp only [callDevice]
  refine Sat.bind (sat_log_devio _) ?_
  rintro _ _ ⟨trace, rfl⟩
  apply Sat.get_bind
  rw [hq, hdata, hsize, if_pos (by omega), List.take_of_length_le hlength.le]
  refine Sat.bind (sat_sendStream_devio hsend) ?_
  rintro _ _ rfl
  have hresp : Response.bytes ⟨0, b⟩ = Response.bytes ⟨0, b⟩ ++ [] := (List.append_nil _).symm
  refine Sat.bind (sat_receiveStream_devio (congrArg (Comm.stream [] · buf) hresp)
    (length_bytes _)) ?_
  rintro _ _ ⟨rfl, rfl⟩
  rw [length_bytes, if_neg (by omega), ofBytes_bytes (by simp) (by simp; omega)]
  simp only [hresponse]
  exact Sat.pure ⟨rfl, rfl, rfl, hs.1, buf, rfl⟩

theorem sat_storeShared_devio (first : ℕ) (bytes : List UInt8) :
    Sat (storeShared first bytes) c
      (fun _ t => ∃ trace, t = { c with shared := place c.shared first bytes, trace := trace }) E := by
  simp only [storeShared]
  refine Sat.bind (sat_log_devio _) ?_
  rintro _ _ ⟨trace, rfl⟩
  exact Sat.modify ⟨trace, rfl⟩

theorem sat_loadShared_devio (first count : ℕ) :
    Sat (loadShared first count) c
      (fun bs t => bs = slice c.shared first count ∧ ∃ trace, t = { c with trace := trace }) E := by
  simp only [loadShared]
  refine Sat.bind (sat_log_devio _) ?_
  rintro _ _ ⟨trace, rfl⟩
  exact ⟨rfl, trace, rfl⟩

theorem sat_exchange_devio {m : ℕ → UInt8} (h : peer.exchange c.shared c.peer = (some m, s))
    (r : Request) :
    Sat (exchange peer r) c
      (fun _ t => ∃ trace, t = { c with peer := s, shared := m, trace := trace }) E := by
  simp only [exchange]
  refine Sat.bind (sat_log_devio _) ?_
  rintro _ _ ⟨trace, rfl⟩
  apply Sat.get_bind
  simp only [h]
  exact ⟨trace, rfl⟩

theorem sat_callShm_read {view : SharedMemory} (hs : Idle image (.shm view) c.peer)
    (hq : q.request = ⟨reqRead, a, b⟩) (hdata : q.requestDataSize = 0)
    (hresponse : q.responseBufferSize = some b)
    (ha : a + min b image.bufferSize ≤ image.fileSize) (hb : b < 2 ^ 32)
    (hpos : 0 < min b image.bufferSize) (hbuf : image.bufferSize < 2 ^ 31) :
    Sat (callShm (devio image) view q) c
      (ReadDone image (.shm view) q c a (min b image.bufferSize)) E := by
  have hrequest : slice (place c.shared 0 (Request.bytes ⟨reqRead, a, b⟩)) 0 requestSize =
      Request.bytes ⟨reqRead, a, b⟩ := by
    have hslice := slice_place c.shared 0 (Request.bytes ⟨reqRead, a, b⟩)
    rwa [length_request] at hslice
  obtain ⟨m, hexchange, hheader, hbytes⟩ := exchangeWith_read hs hrequest ha hb hpos hbuf
  have hle := Nat.min_le_left b image.bufferSize
  have hview := Nat.min_le_right b image.bufferSize
  have hsize := hs.2.1
  generalize min b image.bufferSize = n at *
  have hlow : ulong n = n := Nat.mod_eq_of_lt (by omega)
  have hheaderSize : headerSize = 4096 := by simp [headerSize]
  have hroom {x : ℕ} (h : x ≤ image.bufferSize) : ulong (x + headerSize) ≤ view.size := by
    rw [ulong, Nat.mod_eq_of_lt (by omega)]
    omega
  have hcheck : ¬ (headerSize < requestSize ∨ headerSize < responseSize ∨
      view.size < ulong (0 + headerSize)) := by
    have := hroom (Nat.zero_le image.bufferSize)
    simp only [requestSize, responseSize]
    omega
  simp only [callShm, hdata, hq]
  rw [if_neg hcheck]
  refine Sat.bind (sat_storeShared_devio _ _) ?_
  rintro _ _ ⟨trace, rfl⟩
  apply Sat.get_bind
  rw [if_neg (by omega)]
  refine Sat.bind (sat_exchange_devio hexchange _) ?_
  rintro _ _ ⟨trace, rfl⟩
  refine Sat.bind (sat_loadShared_devio _ _) ?_
  rintro _ _ ⟨rfl, trace, rfl⟩
  simp only [hheader, hresponse]
  rw [ofBytes_bytes (by simp) (by simp; omega)]
  simp only [hlow]
  have hfits := hroom hview
  rw [if_pos hpos, if_neg (by omega)]
  refine Sat.bind (sat_loadShared_devio _ _) ?_
  rintro _ _ ⟨rfl, trace, rfl⟩
  apply Sat.modify_bind
  refine Sat.bind (sat_log_devio _) ?_
  rintro _ _ ⟨trace', rfl⟩
  refine Sat.pure ⟨rfl, ?_, rfl, hs.1, hsize, m, rfl⟩
  exact congrArg (place c.buffer q.position) hbytes

theorem sat_callShm_write {view : SharedMemory} (hs : Idle image (.shm view) c.peer)
    (hq : q.request = ⟨reqWrite, a, b⟩) (hdata : q.requestDataSize = b)
    (hresponse : q.responseBufferSize = none) (hro : image.readOnly = false)
    (ha : a + b ≤ image.fileSize) (hpos : 0 < b) (hle : b ≤ image.bufferSize)
    (hbuf : image.bufferSize < 2 ^ 31) :
    Sat (callShm (devio image) view q) c (WriteDone image (.shm view) q c a b) E := by
  have hheaderSize : headerSize = 4096 := by simp [headerSize]
  let m₁ := place (place c.shared 0 (Request.bytes ⟨reqWrite, a, b⟩)) headerSize
    (slice c.buffer q.position b)
  have hrequest : slice m₁ 0 requestSize = Request.bytes ⟨reqWrite, a, b⟩ := by
    have hslice := slice_place c.shared 0 (Request.bytes ⟨reqWrite, a, b⟩)
    rw [length_request] at hslice
    rw [slice_place_of_disjoint _ (.inl (by simp only [requestSize]; omega)), hslice]
  have hdata' : slice m₁ headerSize b = slice c.buffer q.position b := by
    have hslice := slice_place (place c.shared 0 (Request.bytes ⟨reqWrite, a, b⟩)) headerSize
      (slice c.buffer q.position b)
    rwa [length_slice] at hslice
  obtain ⟨m, hexchange, hheader⟩ := exchangeWith_write hs hrequest hro ha hpos hle hbuf
  rw [hdata'] at hexchange
  have hsize := hs.2.1
  have hcheck : ¬ (headerSize < requestSize ∨ headerSize < responseSize ∨
      view.size < ulong (b + headerSize)) := by
    rw [ulong, Nat.mod_eq_of_lt (by omega)]
    simp only [requestSize, responseSize]
    omega
  simp only [callShm, hdata, hq]
  rw [if_neg hcheck]
  refine Sat.bind (sat_storeShared_devio _ _) ?_
  rintro _ _ ⟨trace, rfl⟩
  apply Sat.get_bind
  rw [if_pos hpos]
  refine Sat.bind (sat_storeShared_devio _ _) ?_
  rintro _ _ ⟨trace, rfl⟩
  refine Sat.bind (sat_exchange_devio hexchange _) ?_
  rintro _ _ ⟨trace, rfl⟩
  refine Sat.bind (sat_loadShared_devio _ _) ?_
  rintro _ _ ⟨rfl, trace, rfl⟩
  simp only [hheader, hresponse]
  rw [ofBytes_bytes (by simp) (by simp; omega)]
  exact Sat.pure ⟨rfl, rfl, rfl, hs.1, hsize, m, rfl⟩

end Calls

/-! ## The loops -/

/-- An image that can be written, with a buffer of a sector at least.  The server hands its size to
the file as an `int`. -/
structure Image.Serving (image : Image) : Prop where
  writable : image.readOnly = false
  sector : 512 ≤ image.bufferSize
  int : image.bufferSize < 2 ^ 31

section Loops

variable {image : Image} {k : Connection} {c : Client Server} {t : Transfer} {p fuel code : ℕ}

theorem maxTransferSize_pos (h : image.Serving) (hs : Idle image k c.peer) (hp : p < t.length) :
    0 < maxTransferSize t k := by
  cases k with
  | device => exact Nat.lt_of_le_of_lt (Nat.zero_le p) hp
  | shm view =>
      have hsize := hs.2.1
      have hfits := view.fits
      have hsector := h.sector
      rw [maxTransferSize, show view.size + 2 ^ view.pointerBits - headerSize =
        image.bufferSize + 2 ^ view.pointerBits by omega, Nat.add_mod_right,
        Nat.mod_eq_of_lt (by omega)]
      omega

theorem maxTransferSize_le (hs : Idle image k c.peer) (hlen : k = .device → t.length ≤ image.bufferSize) :
    maxTransferSize t k ≤ image.bufferSize := by
  cases k with
  | device => exact hlen rfl
  | shm view =>
      have hsize := hs.2.1
      have hfits := view.fits
      rw [maxTransferSize, show view.size + 2 ^ view.pointerBits - headerSize =
        image.bufferSize + 2 ^ view.pointerBits by omega, Nat.add_mod_right,
        Nat.mod_eq_of_lt (by omega)]

/-- The next request of a transfer inside of the image. -/
theorem nextRequest_eq (hin : t.byteOffset + t.length ≤ image.fileSize) (hp : p < t.length) :
    nextRequest code k t p =
      ⟨code, t.byteOffset + p, min (t.length - p) (maxTransferSize t k)⟩ := by
  have := image.inFile
  rw [nextRequest, Nat.mod_eq_of_lt (by omega)]

/-- What one pass of a read does. -/
theorem readPass_devio (h : image.Serving) (hs : Idle image k c.peer)
    (hin : t.byteOffset + t.length ≤ image.fileSize) (hp : p < t.length) :
    ∃ n c', readPass (devio image) k t p c = (.more (p + n), c') ∧ 0 < n ∧ p + n ≤ t.length ∧
      c'.buffer = place c.buffer p (slice c.peer.file (image.offset + (t.byteOffset + p)) n) ∧
      c'.peer.file = c.peer.file ∧ Idle image k c'.peer := by
  have hmax := maxTransferSize_pos h hs hp
  have hlt := t.length_lt
  have hsector := h.sector
  have hint := h.int
  have hrequest : (readCall k t p).request = ⟨reqRead, t.byteOffset + p,
    min (t.length - p) (maxTransferSize t k)⟩ := nextRequest_eq hin hp
  have hnext : (nextRequest reqRead k t p).length = min (t.length - p) (maxTransferSize t k) := by
    rw [nextRequest_eq hin hp]
  have hresponse : (readCall k t p).responseBufferSize =
      some (min (t.length - p) (maxTransferSize t k)) := by
    rw [readCall, hnext]
    exact congrArg some (Nat.mod_eq_of_lt (by omega))
  generalize hlen : min (t.length - p) (maxTransferSize t k) = len at hrequest hresponse
  have hcall : Sat (imDiskCallProxy (devio image) k (readCall k t p)) c
      (ReadDone image k (readCall k t p) c (t.byteOffset + p) (min len image.bufferSize))
      fun _ _ => False := by
    cases k with
    | device =>
        exact sat_callDevice_read hs hrequest rfl hresponse (by omega) (by omega) (by omega) hint
    | shm view =>
        exact sat_callShm_read hs hrequest rfl hresponse (by omega) (by omega) (by omega) hint
  obtain ⟨r, c', hok, hdone⟩ := hcall.exists_ok fun _ _ h => h
  refine ⟨min len image.bufferSize, c', ?_, by omega, by omega, hdone.buffer, hdone.file, hdone.idle⟩
  have hcount : ulong (min len image.bufferSize) = min len image.bufferSize :=
    Nat.mod_eq_of_lt (by omega)
  have hsum : ulong (p + min len image.bufferSize) = p + min len image.bufferSize :=
    Nat.mod_eq_of_lt (by omega)
  simp only [readPass, hok, hdone.response, hcount, hsum]
  rw [if_neg (by omega), if_neg (by omega)]

/-- What one pass of a write does. -/
theorem writePass_devio (h : image.Serving) (hs : Idle image k c.peer)
    (hin : t.byteOffset + t.length ≤ image.fileSize)
    (hlen : k = .device → t.length ≤ image.bufferSize) (hp : p < t.length) :
    ∃ n c', writePass (devio image) k t p c = (.more (p + n), c') ∧ 0 < n ∧ p + n ≤ t.length ∧
      c'.buffer = c.buffer ∧
      c'.peer.file = place c.peer.file (image.offset + (t.byteOffset + p)) (slice c.buffer p n) ∧
      Idle image k c'.peer := by
  have hmax := maxTransferSize_pos h hs hp
  have hroom := maxTransferSize_le hs hlen
  have hlt := t.length_lt
  have hint := h.int
  have hrequest : (writeCall k t p).request = ⟨reqWrite, t.byteOffset + p,
    min (t.length - p) (maxTransferSize t k)⟩ := nextRequest_eq hin hp
  have hnext : (nextRequest reqWrite k t p).length = min (t.length - p) (maxTransferSize t k) := by
    rw [nextRequest_eq hin hp]
  have hdata : (writeCall k t p).requestDataSize = min (t.length - p) (maxTransferSize t k) := by
    rw [writeCall, hnext]
    exact Nat.mod_eq_of_lt (by omega)
  generalize hn : min (t.length - p) (maxTransferSize t k) = n at hrequest hdata hnext
  have hcall : Sat (imDiskCallProxy (devio image) k (writeCall k t p)) c
      (WriteDone image k (writeCall k t p) c (t.byteOffset + p) n) fun _ _ => False := by
    cases k with
    | device =>
        exact sat_callDevice_write hs hrequest hdata rfl h.writable (by omega) (by omega)
          (by omega) hint
    | shm view =>
        exact sat_callShm_write hs hrequest hdata rfl h.writable (by omega) (by omega)
          (by omega) hint
  obtain ⟨r, c', hok, hdone⟩ := hcall.exists_ok fun _ _ h => h
  have hcount : ulong n = n := Nat.mod_eq_of_lt (by omega)
  have hsum : ulong (p + n) = p + n := Nat.mod_eq_of_lt (by omega)
  refine ⟨n, { c' with trace := c'.trace ++ [.acked p n] }, ?_, by omega, by omega, hdone.buffer,
    hdone.file, hdone.idle⟩
  simp only [writePass, hok, hdone.response, hnext, hcount, hsum]
  rw [if_neg (by omega), if_neg (by simp)]

/-- A transfer that has all its bytes. -/
theorem transfer_done (pass : ℕ → Client Server → Pass × Client Server) (length fuel : ℕ)
    (c : Client Server) : Proxy.transfer pass length fuel length c = (some ⟨true, length⟩, c) := by
  cases fuel with
  | zero => rw [Proxy.transfer, if_neg (Nat.lt_irrefl _)]
  | succ fuel => rw [Proxy.transfer, if_neg (Nat.lt_irrefl _)]

/-- The rest of a read. -/
theorem transfer_read (h : image.Serving) (hin : t.byteOffset + t.length ≤ image.fileSize)
    (hs : Idle image k c.peer) (hp : p ≤ t.length) (hfuel : t.length ≤ p + fuel) :
    ∃ c', Proxy.transfer (readPass (devio image) k t) t.length fuel p c =
        (some ⟨true, t.length⟩, c') ∧
      c'.buffer = place c.buffer p
        (slice c.peer.file (image.offset + (t.byteOffset + p)) (t.length - p)) ∧
      c'.peer.file = c.peer.file ∧ Idle image k c'.peer := by
  induction fuel generalizing p c with
  | zero =>
      obtain rfl : p = t.length := by omega
      exact ⟨c, transfer_done _ _ _ _, by simp, rfl, hs⟩
  | succ fuel ih =>
      rcases Nat.lt_or_eq_of_le hp with hlt | rfl
      · obtain ⟨n, c₁, hpass, hpos, hle, hbuffer, hfile, hidle⟩ := readPass_devio h hs hin hlt
        obtain ⟨c₂, hrest, hbuffer₂, hfile₂, hidle₂⟩ := ih hidle hle (by omega)
        refine ⟨c₂, ?_, ?_, hfile₂.trans hfile, hidle₂⟩
        · rw [Proxy.transfer, if_pos hlt, hpass]
          exact hrest
        · have hplace := place_append c.buffer p
            (slice c.peer.file (image.offset + (t.byteOffset + p)) n)
            (slice c.peer.file (image.offset + (t.byteOffset + (p + n))) (t.length - (p + n)))
          have hslice := slice_append c.peer.file (image.offset + (t.byteOffset + p)) n
            (t.length - (p + n))
          rw [length_slice] at hplace
          rw [show image.offset + (t.byteOffset + p) + n = image.offset + (t.byteOffset + (p + n)) by
            omega, show n + (t.length - (p + n)) = t.length - p by omega] at hslice
          rw [hbuffer₂, hbuffer, hfile, hplace, hslice]
      · exact ⟨c, transfer_done _ _ _ _, by simp, rfl, hs⟩

/-- The rest of a write. -/
theorem transfer_write (h : image.Serving) (hin : t.byteOffset + t.length ≤ image.fileSize)
    (hlen : k = .device → t.length ≤ image.bufferSize) (hs : Idle image k c.peer)
    (hp : p ≤ t.length) (hfuel : t.length ≤ p + fuel) :
    ∃ c', Proxy.transfer (writePass (devio image) k t) t.length fuel p c =
        (some ⟨true, t.length⟩, c') ∧
      c'.buffer = c.buffer ∧
      c'.peer.file = place c.peer.file (image.offset + (t.byteOffset + p))
        (slice c.buffer p (t.length - p)) ∧
      Idle image k c'.peer := by
  induction fuel generalizing p c with
  | zero =>
      obtain rfl : p = t.length := by omega
      exact ⟨c, transfer_done _ _ _ _, rfl, by simp, hs⟩
  | succ fuel ih =>
      rcases Nat.lt_or_eq_of_le hp with hlt | rfl
      · obtain ⟨n, c₁, hpass, hpos, hle, hbuffer, hfile, hidle⟩ := writePass_devio h hs hin hlen hlt
        obtain ⟨c₂, hrest, hbuffer₂, hfile₂, hidle₂⟩ := ih hidle hle (by omega)
        refine ⟨c₂, ?_, hbuffer₂.trans hbuffer, ?_, hidle₂⟩
        · rw [Proxy.transfer, if_pos hlt, hpass]
          exact hrest
        · have hplace := place_append c.peer.file (image.offset + (t.byteOffset + p))
            (slice c.buffer p n) (slice c.buffer (p + n) (t.length - (p + n)))
          rw [length_slice, slice_append, show n + (t.length - (p + n)) = t.length - p by omega,
            show image.offset + (t.byteOffset + p) + n = image.offset + (t.byteOffset + (p + n)) by
              omega] at hplace
          rw [hfile₂, hfile, hbuffer, hplace]
      · exact ⟨c, transfer_done _ _ _ _, rfl, by simp, hs⟩

end Loops

/-! ## Calls one after the other -/

/-- A call with the buffer of its caller. -/
inductive Op
  | read (t : Transfer) (buffer : ℕ → UInt8)
  | write (t : Transfer) (buffer : ℕ → UInt8)

def Op.transfer : Op → Transfer
  | .read t _ => t
  | .write t _ => t

/-- The range is in the image.  Over a stream a write goes as one request, which the server takes
only when its buffer holds it. -/
def Op.Within (image : Image) (k : Connection) : Op → Prop
  | .read t _ => t.byteOffset + t.length ≤ image.fileSize
  | .write t _ => t.byteOffset + t.length ≤ image.fileSize ∧
      (k = .device → t.length ≤ image.bufferSize)

def perform (image : Image) (k : Connection) (fuel : ℕ) :
    Op → Client Server → Option IoStatus × Client Server
  | .read t buffer, c => imDiskReadProxy (devio image) k t fuel { c with buffer := buffer }
  | .write t buffer, c => imDiskWriteProxy (devio image) k t fuel { c with buffer := buffer }

/-- The calls with their results: the status and the buffer of the caller. -/
def run (image : Image) (k : Connection) (fuel : ℕ) :
    List Op → Client Server → List (Option IoStatus × (ℕ → UInt8)) × Client Server
  | [], c => ([], c)
  | op :: ops, c =>
      let done := perform image k fuel op c
      let rest := run image k fuel ops done.2
      ((done.1, done.2.buffer) :: rest.1, rest.2)

/-- A call on the bytes of the file. -/
def flatPerform (image : Image) : Op → (ℕ → UInt8) → (ℕ → UInt8) × (ℕ → UInt8)
  | .read t buffer, file =>
      (place buffer 0 (slice file (image.offset + t.byteOffset) t.length), file)
  | .write t buffer, file =>
      (buffer, place file (image.offset + t.byteOffset) (slice buffer 0 t.length))

def flatRun (image : Image) :
    List Op → (ℕ → UInt8) → List (Option IoStatus × (ℕ → UInt8)) × (ℕ → UInt8)
  | [], file => ([], file)
  | op :: ops, file =>
      let done := flatPerform image op file
      let rest := flatRun image ops done.2
      ((some ⟨true, op.transfer.length⟩, done.1) :: rest.1, rest.2)

theorem perform_eq_flatPerform {image : Image} {k : Connection} {c : Client Server} {op : Op}
    {fuel : ℕ} (h : image.Serving) (hs : Idle image k c.peer) (hop : op.Within image k)
    (hfuel : op.transfer.length ≤ fuel) :
    ∃ c', perform image k fuel op c = (some ⟨true, op.transfer.length⟩, c') ∧
      c'.buffer = (flatPerform image op c.peer.file).1 ∧
      c'.peer.file = (flatPerform image op c.peer.file).2 ∧ Idle image k c'.peer := by
  cases op with
  | read t buffer =>
      have hle : t.length ≤ 0 + fuel := by simpa [Op.transfer] using hfuel
      have hs' : Idle image k ({ c with buffer := buffer } : Client Server).peer := hs
      obtain ⟨c', hrun, hbuffer, hfile, hidle⟩ := transfer_read h hop hs' (Nat.zero_le _) hle
      exact ⟨c', hrun, hbuffer, hfile, hidle⟩
  | write t buffer =>
      have hle : t.length ≤ 0 + fuel := by simpa [Op.transfer] using hfuel
      have hs' : Idle image k ({ c with buffer := buffer } : Client Server).peer := hs
      obtain ⟨c', hrun, hbuffer, hfile, hidle⟩ := transfer_write h hop.1 hop.2 hs' (Nat.zero_le _) hle
      exact ⟨c', hrun, hbuffer, hfile, hidle⟩

/-- **The proxy client and the server together are a disk.**  Every call of a run succeeds, the
buffers and the file are those of a plain string of bytes, and after it the server waits for the
next request with nothing left in either direction. -/
theorem run_devio_eq_flatRun (image : Image) (k : Connection) (fuel : ℕ) (ops : List Op)
    (c : Client Server) (h : image.Serving) (hs : Idle image k c.peer)
    (hops : ∀ op ∈ ops, op.Within image k ∧ op.transfer.length ≤ fuel) :
    (run image k fuel ops c).1 = (flatRun image ops c.peer.file).1 ∧
      (run image k fuel ops c).2.peer.file = (flatRun image ops c.peer.file).2 ∧
      Idle image k (run image k fuel ops c).2.peer := by
  induction ops generalizing c with
  | nil => exact ⟨rfl, rfl, hs⟩
  | cons op ops ih =>
      obtain ⟨hop, hfuel⟩ := hops op (List.mem_cons_self)
      obtain ⟨c', hperform, hbuffer, hfile, hidle⟩ := perform_eq_flatPerform h hs hop hfuel
      obtain ⟨hresults, hlast, hidle'⟩ := ih c' hidle fun o ho => hops o (List.mem_cons_of_mem op ho)
      rw [hfile] at hresults hlast
      simp only [run, flatRun, hperform, hbuffer]
      exact ⟨congrArg _ hresults, hlast, hidle'⟩

theorem sector_lt : 512 < 2 ^ 32 := by decide

/-- An image of two sectors behind a buffer of one. -/
def oneSectorBuffer : Image where
  offset := 0
  fileSize := 1024
  bufferSize := 512
  readOnly := false
  reqAlignment := 1
  flags := 0
  inFile := by decide
  bufferSize_lt := sector_lt

def waiting (file : ℕ → UInt8) : Client Server where
  peer := ⟨file, .stream [] [] fun _ => 0, false⟩
  buffer := fun _ => 0
  shared := fun _ => 0
  trace := []

/-- A write and a read of the same sector behind it. -/
theorem run_devio_eq_flatRun_sector :
    (run oneSectorBuffer .device 512
        [.write ⟨512, 512, by decide⟩ fun _ => 1, .read ⟨512, 512, by decide⟩ fun _ => 0]
        (waiting fun _ => 0)).1 =
      (flatRun oneSectorBuffer
        [.write ⟨512, 512, by decide⟩ fun _ => 1, .read ⟨512, 512, by decide⟩ fun _ => 0]
        fun _ => 0).1 := by
  refine (run_devio_eq_flatRun oneSectorBuffer .device 512 _ (waiting fun _ => 0)
    ⟨rfl, by decide, by decide⟩ ⟨rfl, fun _ => 0, rfl⟩ ?_).1
  simp [Op.Within, Op.transfer, oneSectorBuffer]

/-! ## A write that the server refuses -/

section Refused

variable {image : Image} {c : Client Server} {s : Server} {q : Call} {t : Transfer} {a b : ℕ}

/-- The server gives the connection up behind the request of a write that is too big. -/
theorem sendTo_longWrite (bytes : List UInt8) (hs : Idle image .device s) (ha : a < 2 ^ 64) (hb : b < 2 ^ 64)
    (hlong : image.bufferSize < b) :
    ∃ t : Server, sendTo image (Request.bytes ⟨reqWrite, a, b⟩ ++ bytes) s = (true, t) ∧
      ∃ input buf, t.comm = .stream input [] buf := by
  obtain ⟨hopen, buf, hcomm⟩ := hs
  have hrequest : Request.bytes ⟨reqWrite, a, b⟩ ++ bytes = Request.bytes ⟨reqWrite, a, b⟩ ++ bytes := rfl
  obtain ⟨h₁, h₂⟩ := commRead_request s buf hrequest
  have hrefuse : Sat (answerWrite image (a, b)) (s.withComm (.stream bytes [] buf))
      (fun _ _ => False) fun e t => e = .ended ∧ t = s.withComm (.stream bytes [] buf) := by
    simp only [answerWrite]
    rw [if_pos hlong]
    exact ⟨rfl, rfl⟩
  have hone := sat_serveOne_write (P := fun _ => False) h₁ h₂ ha hb hrefuse
  obtain ⟨n, hn⟩ : ∃ n, (Request.bytes ⟨reqWrite, a, b⟩ ++ bytes).length = n + 1 :=
    ⟨23 + bytes.length, by rw [List.length_append, length_request, requestSize]; omega⟩
  have hserve : serve image (n + 1) (s.withComm (.stream (Request.bytes ⟨reqWrite, a, b⟩ ++ bytes) [] buf)) =
      { s.withComm (.stream bytes [] buf) with closed := true } := by
    rw [serve]
    cases hrun : serveOne image
        (s.withComm (.stream (Request.bytes ⟨reqWrite, a, b⟩ ++ bytes) [] buf)) with
    | ok flushed t => exact (hone.ok hrun).2.elim
    | error e t =>
        obtain ⟨rfl, rfl⟩ := hone.error hrun
        rfl
  refine ⟨{ s.withComm (.stream bytes [] buf) with closed := true }, ?_, bytes, buf, rfl⟩
  rw [sendTo, if_neg (by simp [hopen]), hcomm]
  refine congrArg (Prod.mk true) ?_
  rw [← hserve, ← hn]
  rfl

theorem sat_callDevice_longWrite (hs : Idle image .device c.peer)
    (hq : q.request = ⟨reqWrite, a, b⟩) (hdata : q.requestDataSize = b) (ha : a < 2 ^ 64)
    (hb : requestSize + b < 2 ^ 32) (hlong : image.bufferSize < b) :
    Sat (callDevice (devio image) q) c (fun _ _ => False) fun _ _ => True := by
  have hsize : ulong (requestSize + b) = requestSize + b := Nat.mod_eq_of_lt hb
  have hlength : (Request.bytes ⟨reqWrite, a, b⟩ ++ slice c.buffer q.position b).length =
      requestSize + b := by
    rw [List.length_append, length_request, length_slice]
  obtain ⟨s, hsend, input, buf, hcomm⟩ :=
    sendTo_longWrite (slice c.buffer q.position b) hs ha (show b < 2 ^ 64 by omega) hlong
  simp only [callDevice]
  refine Sat.bind (sat_log_devio _) ?_
  rintro _ _ ⟨trace, rfl⟩
  apply Sat.get_bind
  rw [hq, hdata, hsize, if_pos (by omega), List.take_of_length_le hlength.le]
  refine Sat.bind (sat_sendStream_devio hsend) ?_
  rintro _ _ rfl
  have hnothing : Sat (receiveStream (devio image) .header responseSize)
      { c with peer := s, trace := trace } (fun bs _ => bs = []) fun _ _ => True := by
    have hreceive : ((devio image).receive .header responseSize s).1 = [] := by
      change (receiveFrom responseSize s).1 = []
      rw [receiveFrom, hcomm]
      rfl
    simp only [receiveStream]
    apply Sat.get_bind
    apply Sat.set_bind
    refine Sat.pure ?_
    rw [hreceive]
    rfl
  refine Sat.bind hnothing ?_
  rintro _ _ rfl
  exact trivial

/-- A write over a stream that does not fit into the buffer of the server fails. -/
theorem imDiskWriteProxy_long (hs : Idle image .device c.peer) (hlen : requestSize + t.length < 2 ^ 32)
    (hlong : image.bufferSize < t.length) (fuel : ℕ) :
    (imDiskWriteProxy (devio image) .device t (fuel + 1) c).1 = some ⟨false, 0⟩ := by
  have hpos : 0 < t.length := Nat.lt_of_le_of_lt (Nat.zero_le _) hlong
  have hnext : nextRequest reqWrite .device t 0 = ⟨reqWrite, (t.byteOffset + 0) % 2 ^ 64, t.length⟩ := by
    rw [nextRequest, maxTransferSize, Nat.sub_zero, Nat.min_self]
  have hdata : (writeCall .device t 0).requestDataSize = t.length := by
    rw [writeCall, hnext]
    exact Nat.mod_eq_of_lt t.length_lt
  have hcall := sat_callDevice_longWrite (q := writeCall .device t 0) hs hnext hdata
    (Nat.mod_lt _ (by decide)) hlen hlong
  rw [imDiskWriteProxy, Proxy.transfer, if_pos hpos, writePass]
  cases hrun : imDiskCallProxy (devio image) .device (writeCall .device t 0) c with
  | ok r c' => exact (hcall.ok hrun).elim
  | error e c' => rfl

end Refused

/-- Over a stream the server does not cut a write down as it does with a read. -/
theorem not_run_devio_eq_flatRun_longWrite :
    ¬ ∀ (image : Image) (k : Connection) (fuel : ℕ) (ops : List Op) (c : Client Server),
      image.Serving → Idle image k c.peer →
      (∀ op ∈ ops, op.transfer.byteOffset + op.transfer.length ≤ image.fileSize ∧
        op.transfer.length ≤ fuel) →
      (run image k fuel ops c).1 = (flatRun image ops c.peer.file).1 := by
  intro h
  let t : Transfer := ⟨513, 0, by decide⟩
  have hidle : Idle oneSectorBuffer .device (waiting fun _ => 0).peer := ⟨rfl, fun _ => 0, rfl⟩
  have hrun := h oneSectorBuffer .device 513 [.write t fun _ => 1] (waiting fun _ => 0)
    ⟨rfl, by decide, by decide⟩ hidle (by simp [Op.transfer, t, oneSectorBuffer])
  have hidle' : Idle oneSectorBuffer .device
      ({ waiting (fun _ => 0) with buffer := fun _ => 1 } : Client Server).peer := hidle
  have hfail := imDiskWriteProxy_long (t := t) hidle' (by decide) (by decide) 512
  have hfirst := congrArg (fun results => results.map Prod.fst) hrun
  have hstatus : some (⟨false, 0⟩ : IoStatus) = some ⟨true, 513⟩ := by
    rw [← hfail]
    exact (List.cons.inj hfirst).1
  simp at hstatus

end KernelDrivers.ImDisk.Devio
