import KernelDrivers.ImDisk.Devio
import KernelDrivers.ImDisk.ProxySafe

/-!
# What the devio server answers

A server that has nothing left to read gets one request, with the data of a write behind it, and
answers it from its file.  Then it has nothing left to read again.

## Main definitions

* `Idle` — the server waits for the next request.
* `Server.withComm`, `Server.store` — what an answer changes.

## Main results

* `sendTo_read`, `sendTo_write` — a request over the stream.
* `exchangeWith_read`, `exchangeWith_write` — a request in the section.
-/

namespace KernelDrivers.ImDisk.Devio

open KernelDrivers.ImDisk.Proxy

/-- The server is between two requests, with nothing on the way. -/
def Idle (image : Image) (k : Connection) (s : Server) : Prop :=
  s.closed = false ∧
    match k with
    | .device => ∃ buf, s.comm = .stream [] [] buf
    | .shm view => view.size = headerSize + image.bufferSize ∧ ∃ m, s.comm = .shm m none none

/-! ## Transports -/

section Transports

variable {image : Image} {s s₁ s₂ : Server} {input output bytes rest : List UInt8}
  {buf view : ℕ → UInt8} {size a b : ℕ} {readptr writeptr : Option ℕ} {E : Halt → Server → Prop}

theorem commRead_stream (h : s.comm = .stream (bytes ++ rest) output buf)
    (hsize : bytes.length = size) :
    commRead size s = .ok bytes { s with comm := .stream rest output buf } := by
  have hlong : ¬ (bytes ++ rest).length < size := by
    rw [List.length_append]
    omega
  have hsat : Sat (commRead size) s
      (fun bs t => bs = bytes ∧ t = { s with comm := .stream rest output buf })
      fun _ _ => False := by
    simp only [commRead]
    apply Sat.get_bind
    simp only [h, hlong, if_false]
    apply Sat.set_bind
    refine Sat.pure ⟨List.take_left' hsize, ?_⟩
    rw [List.drop_left' hsize]
  obtain ⟨bs, t, hx, rfl, rfl⟩ := hsat.exists_ok fun _ _ h => h
  exact hx

theorem commRead_shm (h : s.comm = .shm view readptr writeptr)
    (hsize : readptr.getD 0 + size ≤ headerSize) :
    commRead size s = .ok (slice view (readptr.getD 0) size)
      { s with comm := .shm view (some (readptr.getD 0 + size)) writeptr } := by
  have hroom : ¬ headerSize - readptr.getD 0 < size := by omega
  have hsat : Sat (commRead size) s
      (fun bs t => bs = slice view (readptr.getD 0) size ∧
        t = { s with comm := .shm view (some (readptr.getD 0 + size)) writeptr })
      fun _ _ => False := by
    simp only [commRead]
    apply Sat.get_bind
    simp only [h, hroom, if_false]
    apply Sat.set_bind
    exact Sat.pure ⟨rfl, rfl⟩
  obtain ⟨bs, t, hx, rfl, rfl⟩ := hsat.exists_ok fun _ _ h => h
  exact hx

/-- A request whose parts have come. -/
theorem sat_commReadRequest {P : ℕ × ℕ → Server → Prop}
    (h : commRead (requestSize - 8) s = .ok (toBytes 8 a ++ toBytes 8 b) s₁) (ha : a < 2 ^ 64)
    (hb : b < 2 ^ 64) (hP : P (a, b) s₁) : Sat commReadRequest s P E := by
  have hfirst : (toBytes 8 a ++ toBytes 8 b).take 8 = toBytes 8 a :=
    List.take_left' (length_toBytes 8 a)
  have hsecond : (toBytes 8 a ++ toBytes 8 b).drop 8 = toBytes 8 b :=
    List.drop_left' (length_toBytes 8 a)
  simp only [commReadRequest]
  refine Sat.bind (Sat.of_ok (Q := fun bs t => bs = toBytes 8 a ++ toBytes 8 b ∧ t = s₁) h ⟨rfl, rfl⟩) ?_
  rintro _ _ ⟨rfl, rfl⟩
  rw [hfirst, hsecond, ofBytes_toBytes_of_lt (by simpa using ha),
    ofBytes_toBytes_of_lt (by simpa using hb)]
  exact Sat.pure hP

theorem sat_serveOne_read {P : Server → Prop} (h₁ : commRead 8 s = .ok (toBytes 8 reqRead) s₁)
    (h₂ : commRead (requestSize - 8) s₁ = .ok (toBytes 8 a ++ toBytes 8 b) s₂) (ha : a < 2 ^ 64)
    (hb : b < 2 ^ 64) (hrest : Sat (answerRead image (a, b)) s₂ (fun _ t => P t) E) :
    Sat (serveOne image) s (fun flushed t => flushed = true ∧ P t) E := by
  have hcode : ofBytes (toBytes 8 reqRead) = reqRead := ofBytes_toBytes_of_lt (by decide)
  have hread : Sat (readData image) s₁ (fun _ t => P t) E := by
    simp only [readData]
    have hrequest : Sat commReadRequest s₁ (fun r t => r = (a, b) ∧ t = s₂) E :=
      sat_commReadRequest h₂ ha hb ⟨rfl, rfl⟩
    refine Sat.bind hrequest ?_
    rintro _ _ ⟨rfl, rfl⟩
    exact hrest
  simp only [serveOne]
  refine Sat.bind (Sat.of_ok (Q := fun bs t => bs = toBytes 8 reqRead ∧ t = s₁) h₁ ⟨rfl, rfl⟩) ?_
  rintro _ _ ⟨rfl, rfl⟩
  rw [hcode, if_neg (by decide), if_pos rfl]
  exact Sat.bind hread fun _ t ht => Sat.pure ⟨rfl, ht⟩

theorem sat_serveOne_write {P : Server → Prop} (h₁ : commRead 8 s = .ok (toBytes 8 reqWrite) s₁)
    (h₂ : commRead (requestSize - 8) s₁ = .ok (toBytes 8 a ++ toBytes 8 b) s₂) (ha : a < 2 ^ 64)
    (hb : b < 2 ^ 64) (hrest : Sat (answerWrite image (a, b)) s₂ (fun _ t => P t) E) :
    Sat (serveOne image) s (fun flushed t => flushed = true ∧ P t) E := by
  have hcode : ofBytes (toBytes 8 reqWrite) = reqWrite := ofBytes_toBytes_of_lt (by decide)
  have hwrite : Sat (writeData image) s₁ (fun _ t => P t) E := by
    simp only [writeData]
    have hrequest : Sat commReadRequest s₁ (fun r t => r = (a, b) ∧ t = s₂) E :=
      sat_commReadRequest h₂ ha hb ⟨rfl, rfl⟩
    refine Sat.bind hrequest ?_
    rintro _ _ ⟨rfl, rfl⟩
    exact hrest
  simp only [serveOne]
  refine Sat.bind (Sat.of_ok (Q := fun bs t => bs = toBytes 8 reqWrite ∧ t = s₁) h₁ ⟨rfl, rfl⟩) ?_
  rintro _ _ ⟨rfl, rfl⟩
  rw [hcode, if_neg (by decide), if_neg (by decide), if_pos rfl]
  exact Sat.bind hwrite fun _ t ht => Sat.pure ⟨rfl, ht⟩

end Transports

/-! ## The server -/

section Answers

variable {image : Image} {s : Server} {output bytes : List UInt8} {buf view : ℕ → UInt8} {a b n : ℕ}
  {E : Halt → Server → Prop}

/-- The position in the file of a byte of the image. -/
theorem Image.position (h : a + n ≤ image.fileSize) :
    (image.offset + a) % 2 ^ 64 = image.offset + a ∧ image.offset + a + n ≤ 2 ^ 63 := by
  have := image.inFile
  omega

/-- The same server with another state of its transport. -/
def Server.withComm (s : Server) (comm : Comm) : Server := { s with comm := comm }

theorem sat_storeBuf_stream {P : Server → Prop} (hs : s.comm = .stream bytes output buf)
    (data : List UInt8) (h : P (s.withComm (.stream bytes output (place buf 0 data)))) :
    Sat (storeBuf data) s (fun _ => P) E := by
  simp only [storeBuf]
  apply Sat.get_bind
  rw [hs]
  exact h

theorem sat_physicalRead {P : Server → Prop} (hn : n < 2 ^ 31) (ha : a < 2 ^ 63)
    (h : Sat (storeBuf (slice s.file a n)) s (fun _ => P) E) :
    Sat (physicalRead n a) s (fun done t => done = true ∧ P t) E := by
  have hshort : ¬ (2 ^ 31 ≤ n ∨ 2 ^ 63 ≤ a) := by omega
  simp only [physicalRead]
  rw [if_neg hshort]
  apply Sat.get_bind
  exact Sat.bind h fun _ t ht => Sat.pure ⟨rfl, ht⟩

theorem sat_answerRead_stream (hs : s.comm = .stream [] [] buf)
    (ha : a + min b image.bufferSize ≤ image.fileSize) (hpos : 0 < min b image.bufferSize)
    (hbuf : image.bufferSize < 2 ^ 31) :
    Sat (answerRead image (a, b)) s (fun _ t => ∃ buf', t = s.withComm (.stream []
      (Response.bytes ⟨0, min b image.bufferSize⟩ ++
        slice s.file (image.offset + a) (min b image.bufferSize)) buf')) E := by
  obtain ⟨hmod, hend⟩ := Image.position ha
  have hle := Nat.min_le_right b image.bufferSize
  simp only [answerRead, hmod]
  generalize min b image.bufferSize = n at *
  refine Sat.bind (sat_storeBuf_stream (P := fun t =>
    t = s.withComm (.stream [] [] (place buf 0 (List.replicate n 0)))) hs _ rfl) ?_
  rintro _ _ rfl
  have hread : Sat (physicalRead n (image.offset + a))
      (s.withComm (.stream [] [] (place buf 0 (List.replicate n 0))))
      (fun done t => done = true ∧ ∃ buf', t = s.withComm (.stream [] [] buf') ∧
        slice buf' 0 n = slice s.file (image.offset + a) n) E := by
    refine sat_physicalRead (by omega) (by omega) (sat_storeBuf_stream rfl _ ⟨_, rfl, ?_⟩)
    have hslice := slice_place (place buf 0 (List.replicate n 0)) 0
      (slice s.file (image.offset + a) n)
    rwa [length_slice] at hslice
  refine Sat.bind hread ?_
  rintro _ _ ⟨rfl, buf', rfl, hbytes⟩
  rw [if_pos rfl, ← hbytes]
  simp only [commWrite, commWriteBuf, commFlush]
  exact ⟨buf', rfl⟩

theorem length_bytes (r : Response) : (Response.bytes r).length = responseSize := by
  simp [Response.bytes, responseSize]

/-- The header is long enough for a message. -/
theorem responseSize_le : responseSize ≤ headerSize := by
  simp [responseSize, headerSize]

theorem sat_storeBuf_shm {P : Server → Prop} {readptr writeptr : Option ℕ}
    (hs : s.comm = .shm view readptr writeptr) (data : List UInt8)
    (h : P (s.withComm (.shm (place view headerSize data) readptr writeptr))) :
    Sat (storeBuf data) s (fun _ => P) E := by
  simp only [storeBuf]
  apply Sat.get_bind
  rw [hs]
  exact h

theorem sat_commWrite_shm {P : Server → Prop} {readptr : Option ℕ}
    (hs : s.comm = .shm view readptr none) (hbytes : bytes.length ≤ headerSize)
    (h : P (s.withComm (.shm (place view 0 bytes) readptr (some bytes.length)))) :
    Sat (commWrite bytes) s (fun _ => P) E := by
  have hroom : ¬ headerSize - (none : Option ℕ).getD 0 < bytes.length := by
    simpa using hbytes
  simp only [commWrite]
  apply Sat.get_bind
  rw [hs]
  dsimp only
  rw [if_neg hroom, Option.getD_none, Nat.zero_add]
  exact h

theorem sat_commFlush_shm {P : Server → Prop} {readptr writeptr : Option ℕ}
    (hs : s.comm = .shm view readptr writeptr) (h : P (s.withComm (.shm view none none))) :
    Sat commFlush s (fun _ => P) E := by
  simp only [commFlush]
  apply Sat.get_bind
  rw [hs]
  exact h

theorem slice_response (r : Response) :
    slice (place view 0 (Response.bytes r)) 0 responseSize = Response.bytes r := by
  have hslice := slice_place view 0 (Response.bytes r)
  rwa [length_bytes r] at hslice

/-- A response in the header leaves the data behind it alone. -/
theorem slice_behind (r : Response) (n : ℕ) :
    slice (place view 0 (Response.bytes r)) headerSize n = slice view headerSize n := by
  refine slice_place_of_disjoint view (.inr ?_)
  rw [length_bytes, Nat.zero_add]
  exact responseSize_le

theorem sat_answerRead_shm {readptr : Option ℕ} (hs : s.comm = .shm view readptr none)
    (ha : a + min b image.bufferSize ≤ image.fileSize) (hpos : 0 < min b image.bufferSize)
    (hbuf : image.bufferSize < 2 ^ 31) :
    Sat (answerRead image (a, b)) s (fun _ t => ∃ view', t = s.withComm (.shm view' none none) ∧
      slice view' 0 responseSize = Response.bytes ⟨0, min b image.bufferSize⟩ ∧
      slice view' headerSize (min b image.bufferSize) =
        slice s.file (image.offset + a) (min b image.bufferSize)) E := by
  obtain ⟨hmod, hend⟩ := Image.position ha
  have hle := Nat.min_le_right b image.bufferSize
  simp only [answerRead, hmod]
  generalize min b image.bufferSize = n at *
  refine Sat.bind (sat_storeBuf_shm (P := fun t =>
    t = s.withComm (.shm (place view headerSize (List.replicate n 0)) readptr none)) hs _ rfl) ?_
  rintro _ _ rfl
  have hread : Sat (physicalRead n (image.offset + a))
      (s.withComm (.shm (place view headerSize (List.replicate n 0)) readptr none))
      (fun done t => done = true ∧ ∃ view', t = s.withComm (.shm view' readptr none) ∧
        slice view' headerSize n = slice s.file (image.offset + a) n) E := by
    refine sat_physicalRead (by omega) (by omega) (sat_storeBuf_shm rfl _ ⟨_, rfl, ?_⟩)
    have hslice := slice_place (place view headerSize (List.replicate n 0)) headerSize
      (slice s.file (image.offset + a) n)
    rwa [length_slice] at hslice
  refine Sat.bind hread ?_
  rintro _ _ ⟨rfl, view', rfl, hbytes⟩
  rw [if_pos rfl]
  have hresponse : Sat (commWrite (Response.bytes ⟨0, n⟩)) (s.withComm (.shm view' readptr none))
      (fun _ t => t = s.withComm
        (.shm (place view' 0 (Response.bytes ⟨0, n⟩)) readptr (some responseSize))) E := by
    refine sat_commWrite_shm rfl ?_ ?_
    · rw [length_bytes]
      exact responseSize_le
    · rw [length_bytes]
      rfl
  refine Sat.bind hresponse ?_
  rintro _ _ rfl
  have hdata : Sat (commWriteBuf image n)
      (s.withComm (.shm (place view' 0 (Response.bytes ⟨0, n⟩)) readptr (some responseSize)))
      (fun _ t => t = s.withComm
        (.shm (place view' 0 (Response.bytes ⟨0, n⟩)) readptr (some responseSize))) E := by
    have hroom : ¬ image.bufferSize < n := by omega
    simp only [commWriteBuf]
    apply Sat.get_bind
    simp only [Server.withComm, hroom, if_false]
    exact Sat.pure rfl
  refine Sat.bind hdata ?_
  rintro _ _ rfl
  refine sat_commFlush_shm rfl ⟨_, rfl, slice_response _, ?_⟩
  rw [slice_behind, hbytes]

/-! ### Writes -/

theorem sat_physicalWrite {P : Server → Prop} (hn : n < 2 ^ 31) (ha : a < 2 ^ 63)
    (hload : Sat (loadBuf n) s (fun bs t => bs = bytes ∧ t = s) E)
    (h : P { s with file := place s.file a bytes }) :
    Sat (physicalWrite n a) s (fun done t => done = true ∧ P t) E := by
  have hshort : ¬ (2 ^ 31 ≤ n ∨ 2 ^ 63 ≤ a) := by omega
  simp only [physicalWrite]
  rw [if_neg hshort]
  refine Sat.bind hload ?_
  rintro _ _ ⟨rfl, rfl⟩
  exact Sat.modify_bind (Sat.pure ⟨rfl, h⟩)

/-- The same server with bytes stored in its file. -/
def Server.store (s : Server) (first : ℕ) (bytes : List UInt8) : Server :=
  { s with file := place s.file first bytes }

theorem sat_answerWrite_stream (hs : s.comm = .stream bytes [] buf) (hb : bytes.length = b)
    (hro : image.readOnly = false) (ha : a + b ≤ image.fileSize) (hpos : 0 < b)
    (hle : b ≤ image.bufferSize) (hbuf : image.bufferSize < 2 ^ 31) :
    Sat (answerWrite image (a, b)) s (fun _ t => ∃ buf', t =
      (s.store (image.offset + a) bytes).withComm
        (.stream [] (Response.bytes ⟨0, b⟩) buf')) E := by
  obtain ⟨hmod, hend⟩ := Image.position ha
  have hroom : ¬ image.bufferSize < b := by omega
  simp only [answerWrite, hmod, hro, Bool.false_eq_true, if_false]
  rw [if_neg hroom]
  have hdata : Sat (commReadBuf image b) s
      (fun _ t => t = s.withComm (.stream [] [] (place buf 0 bytes))) E := by
    have hall : ¬ bytes.length < b := by omega
    simp only [commReadBuf]
    apply Sat.get_bind
    simp only [hs, hall, if_false]
    refine (?_ : Sat _ _ _ _)
    rw [← hb, List.drop_length, List.take_length]
    rfl
  refine Sat.bind hdata ?_
  rintro _ _ rfl
  have hload : Sat (loadBuf b) (s.withComm (.stream [] [] (place buf 0 bytes)))
      (fun bs t => bs = bytes ∧ t = s.withComm (.stream [] [] (place buf 0 bytes))) E := by
    refine (⟨?_, rfl⟩ : _ ∧ _)
    rw [← hb]
    exact slice_place buf 0 bytes
  refine Sat.bind (sat_physicalWrite (P := fun t => t = (s.store (image.offset + a) bytes).withComm
    (.stream [] [] (place buf 0 bytes))) (by omega) (by omega) hload rfl) ?_
  rintro _ _ ⟨rfl, rfl⟩
  rw [if_pos rfl]
  exact ⟨_, rfl⟩

theorem sat_answerWrite_shm {readptr : Option ℕ} (hs : s.comm = .shm view readptr none)
    (hro : image.readOnly = false) (ha : a + b ≤ image.fileSize) (hpos : 0 < b)
    (hle : b ≤ image.bufferSize) (hbuf : image.bufferSize < 2 ^ 31) :
    Sat (answerWrite image (a, b)) s (fun _ t => ∃ view', t =
      (s.store (image.offset + a) (slice view headerSize b)).withComm (.shm view' none none) ∧
        slice view' 0 responseSize = Response.bytes ⟨0, b⟩) E := by
  obtain ⟨hmod, hend⟩ := Image.position ha
  have hroom : ¬ image.bufferSize < b := by omega
  simp only [answerWrite, hmod, hro, Bool.false_eq_true, if_false]
  rw [if_neg hroom]
  have hdata : Sat (commReadBuf image b) s (fun _ t => t = s) E := by
    simp only [commReadBuf]
    apply Sat.get_bind
    simp only [hs, hroom, if_false]
    exact Sat.pure rfl
  refine Sat.bind hdata ?_
  rintro _ t rfl
  have hload : Sat (loadBuf b) t (fun bs u => bs = slice view headerSize b ∧ u = t) E := by
    simp only [loadBuf]
    apply Sat.get_bind
    rw [hs]
    exact Sat.pure ⟨rfl, rfl⟩
  refine Sat.bind (sat_physicalWrite (P := fun u =>
    u = t.store (image.offset + a) (slice view headerSize b)) (by omega) (by omega) hload rfl) ?_
  rintro _ _ ⟨rfl, rfl⟩
  rw [if_pos rfl]
  refine Sat.bind (sat_commWrite_shm (P := fun u =>
    u = (t.store (image.offset + a) (slice view headerSize b)).withComm
      (.shm (place view 0 (Response.bytes ⟨0, b⟩)) readptr (some responseSize))) hs ?_ ?_) ?_
  · rw [length_bytes]
    exact responseSize_le
  · rw [length_bytes]
  · rintro _ _ rfl
    exact sat_commFlush_shm rfl ⟨_, rfl, slice_response _⟩

end Answers

section Serve

variable {image : Image} {s t : Server} {output bytes : List UInt8} {buf view : ℕ → UInt8}
  {a b : ℕ} {fuel : ℕ}

/-- With less than a code in the stream the server waits. -/
theorem serve_empty (h : s.comm = .stream [] output buf) : serve image fuel s = s := by
  cases fuel with
  | zero => rfl
  | succ fuel =>
      have hblocked : Sat (serveOne image) s (fun _ _ => False) fun e _ => e = .blocked := by
        have hread : Sat (commRead 8) s (fun _ _ => False) fun e _ => e = .blocked := by
          simp only [commRead]
          apply Sat.get_bind
          simp only [h]
          exact Sat.throw rfl
        simp only [serveOne]
        exact Sat.bind hread fun _ _ hno => hno.elim
      simp only [serve]
      cases hone : serveOne image s with
      | ok flushed t => exact (hblocked.ok hone).elim
      | error e t =>
          have he := hblocked.error hone
          subst he
          rfl

/-- A request that is alone in the stream. -/
theorem serve_stream (hone : serveOne image s = .ok true t) (ht : t.comm = .stream [] output buf) :
    serve image (fuel + 1) s = t := by
  have hgo : waits t.comm true = false := by rw [ht, waits]
  simp only [serve, hone, hgo, Bool.false_eq_true, if_false]
  exact serve_empty ht

/-- A request in the section. -/
theorem serve_shm (hone : serveOne image s = .ok true t) (ht : t.comm = .shm view none none) :
    serve image (fuel + 1) s = t := by
  have hwait : waits t.comm true = true := by rw [ht, waits]
  simp only [serve, hone, hwait, if_true]

/-- What is behind the code of a request. -/
theorem Request.bytes_eq (code : ℕ) :
    Request.bytes ⟨code, a, b⟩ = toBytes 8 code ++ (toBytes 8 a ++ toBytes 8 b) := by
  rw [Request.bytes, List.append_assoc]

theorem length_request (q : Request) : q.bytes.length = requestSize := by
  simp [Request.bytes, requestSize]

theorem sendTo_eq (hopen : s.closed = false) (hs : s.comm = .stream [] [] buf)
    (hbytes : bytes ≠ []) (hone : serveOne image (s.withComm (.stream bytes [] buf)) = .ok true t)
    (ht : t.comm = .stream [] output view) : sendTo image bytes s = (true, t) := by
  obtain ⟨n, hn⟩ := Nat.exists_eq_succ_of_ne_zero fun h => hbytes (List.length_eq_zero_iff.mp h)
  have hserve : serve image bytes.length (s.withComm (.stream bytes [] buf)) = t := by
    rw [hn]
    exact serve_stream hone ht
  rw [sendTo, if_neg (by simp [hopen]), hs]
  exact congrArg (Prod.mk true) hserve

theorem exchangeWith_eq {m : ℕ → UInt8} (hopen : s.closed = false) (hs : s.comm = .shm view none none)
    (hone : serveOne image (s.withComm (.shm m none none)) = .ok true t) (hclosed : t.closed = false)
    (ht : t.comm = .shm buf none none) : exchangeWith image m s = (some buf, t) := by
  have hserve : serve image headerSize (s.withComm (.shm m none none)) = t := by
    rw [show headerSize = 4095 + 1 by simp [headerSize]]
    exact serve_shm hone ht
  rw [exchangeWith, if_neg (by simp [hopen]), hs]
  have hshared : ({ s with comm := .shm m none none } : Server) = s.withComm (.shm m none none) := rfl
  dsimp only
  rw [hshared, hserve, hclosed, ht]

/-- The two reads of a request in the stream. -/
theorem commRead_request (s : Server) (buf : ℕ → UInt8) {rest : List UInt8} {code : ℕ}
    (h : bytes = Request.bytes ⟨code, a, b⟩ ++ rest) :
    commRead 8 (s.withComm (.stream bytes [] buf)) =
        .ok (toBytes 8 code) (s.withComm (.stream (toBytes 8 a ++ toBytes 8 b ++ rest) [] buf)) ∧
      commRead (requestSize - 8)
          (s.withComm (.stream (toBytes 8 a ++ toBytes 8 b ++ rest) [] buf)) =
        .ok (toBytes 8 a ++ toBytes 8 b) (s.withComm (.stream rest [] buf)) := by
  subst h
  refine ⟨commRead_stream ?_ (length_toBytes 8 code), commRead_stream rfl (by simp [requestSize])⟩
  rw [Request.bytes_eq, List.append_assoc]
  rfl

/-- A read request and its answer. -/
theorem sendTo_read (hs : Idle image .device s) (ha : a + min b image.bufferSize ≤ image.fileSize)
    (hb : b < 2 ^ 32) (hpos : 0 < min b image.bufferSize) (hbuf : image.bufferSize < 2 ^ 31) :
    ∃ buf, sendTo image (Request.bytes ⟨reqRead, a, b⟩) s =
      (true, s.withComm (.stream [] (Response.bytes ⟨0, min b image.bufferSize⟩ ++
        slice s.file (image.offset + a) (min b image.bufferSize)) buf)) := by
  obtain ⟨hopen, buf, hcomm⟩ := hs
  have hend := (Image.position ha).2
  have hrequest : Request.bytes ⟨reqRead, a, b⟩ = Request.bytes ⟨reqRead, a, b⟩ ++ [] :=
    (List.append_nil _).symm
  obtain ⟨h₁, h₂⟩ := commRead_request s buf hrequest
  have hsat : Sat (serveOne image)
      (s.withComm (.stream (Request.bytes ⟨reqRead, a, b⟩) [] buf))
      (fun flushed t => flushed = true ∧ ∃ buf', t = s.withComm (.stream []
        (Response.bytes ⟨0, min b image.bufferSize⟩ ++
          slice s.file (image.offset + a) (min b image.bufferSize)) buf')) fun _ _ => False :=
    sat_serveOne_read h₁ h₂ (by omega) (by omega) (sat_answerRead_stream rfl ha hpos hbuf)
  obtain ⟨_, t, hone, rfl, buf', rfl⟩ := hsat.exists_ok fun _ _ h => h
  refine ⟨buf', sendTo_eq hopen hcomm ?_ hone rfl⟩
  intro hnil
  have := length_request ⟨reqRead, a, b⟩
  rw [hnil] at this
  simp [requestSize] at this

/-- A write request with its data, and its answer. -/
theorem sendTo_write (hs : Idle image .device s) (hb : bytes.length = b)
    (hro : image.readOnly = false) (ha : a + b ≤ image.fileSize) (hpos : 0 < b)
    (hle : b ≤ image.bufferSize) (hbuf : image.bufferSize < 2 ^ 31) :
    ∃ buf, sendTo image (Request.bytes ⟨reqWrite, a, b⟩ ++ bytes) s =
      (true, (s.store (image.offset + a) bytes).withComm
        (.stream [] (Response.bytes ⟨0, b⟩) buf)) := by
  obtain ⟨hopen, buf, hcomm⟩ := hs
  have hend := (Image.position ha).2
  have hrequest : Request.bytes ⟨reqWrite, a, b⟩ ++ bytes = Request.bytes ⟨reqWrite, a, b⟩ ++ bytes := rfl
  obtain ⟨h₁, h₂⟩ := commRead_request s buf hrequest
  have hsat : Sat (serveOne image)
      (s.withComm (.stream (Request.bytes ⟨reqWrite, a, b⟩ ++ bytes) [] buf))
      (fun flushed t => flushed = true ∧ ∃ buf', t = (s.store (image.offset + a) bytes).withComm
        (.stream [] (Response.bytes ⟨0, b⟩) buf')) fun _ _ => False :=
    sat_serveOne_write h₁ h₂ (by omega) (by omega)
      (sat_answerWrite_stream rfl hb hro ha hpos hle hbuf)
  obtain ⟨_, t, hone, rfl, buf', rfl⟩ := hsat.exists_ok fun _ _ h => h
  refine ⟨buf', sendTo_eq hopen hcomm ?_ hone rfl⟩
  intro hnil
  have hlen := length_request ⟨reqWrite, a, b⟩
  rw [(List.append_eq_nil_iff.mp hnil).1] at hlen
  simp [requestSize] at hlen

/-- The two reads of a request in the section. -/
theorem commRead_section (s : Server) {m : ℕ → UInt8} {code : ℕ}
    (h : slice m 0 requestSize = Request.bytes ⟨code, a, b⟩) :
    commRead 8 (s.withComm (.shm m none none)) =
        .ok (toBytes 8 code) (s.withComm (.shm m (some 8) none)) ∧
      commRead (requestSize - 8) (s.withComm (.shm m (some 8) none)) =
        .ok (toBytes 8 a ++ toBytes 8 b) (s.withComm (.shm m (some requestSize) none)) := by
  have hroom : 24 ≤ headerSize := by simp [headerSize]
  have hcode : slice m 0 8 = toBytes 8 code := by
    rw [← take_slice m 0 8 16]
    change (slice m 0 requestSize).take 8 = _
    rw [h, Request.bytes_eq, List.take_left' (length_toBytes 8 code)]
  have hargs : slice m 8 (requestSize - 8) = toBytes 8 a ++ toBytes 8 b := by
    change slice m (0 + 8) 16 = _
    rw [← drop_slice m 0 8 16]
    change (slice m 0 requestSize).drop 8 = _
    rw [h, Request.bytes_eq, List.drop_left' (length_toBytes 8 code)]
  refine ⟨?_, ?_⟩
  · rw [commRead_shm rfl (show 0 + 8 ≤ headerSize by omega)]
    exact congrArg (EStateM.Result.ok · _) hcode
  · rw [commRead_shm rfl (show 8 + (requestSize - 8) ≤ headerSize by exact hroom)]
    exact congrArg (EStateM.Result.ok · _) hargs

/-- A read request in the section and its answer. -/
theorem exchangeWith_read {v : SharedMemory} {m : ℕ → UInt8} (hs : Idle image (.shm v) s)
    (hm : slice m 0 requestSize = Request.bytes ⟨reqRead, a, b⟩)
    (ha : a + min b image.bufferSize ≤ image.fileSize) (hb : b < 2 ^ 32)
    (hpos : 0 < min b image.bufferSize) (hbuf : image.bufferSize < 2 ^ 31) :
    ∃ m', exchangeWith image m s = (some m', s.withComm (.shm m' none none)) ∧
      slice m' 0 responseSize = Response.bytes ⟨0, min b image.bufferSize⟩ ∧
      slice m' headerSize (min b image.bufferSize) =
        slice s.file (image.offset + a) (min b image.bufferSize) := by
  obtain ⟨hopen, -, m₀, hcomm⟩ := hs
  have hend := (Image.position ha).2
  obtain ⟨h₁, h₂⟩ := commRead_section s hm
  have hsat : Sat (serveOne image) (s.withComm (.shm m none none))
      (fun flushed t => flushed = true ∧ ∃ m', t = s.withComm (.shm m' none none) ∧
        slice m' 0 responseSize = Response.bytes ⟨0, min b image.bufferSize⟩ ∧
        slice m' headerSize (min b image.bufferSize) =
          slice s.file (image.offset + a) (min b image.bufferSize)) fun _ _ => False :=
    sat_serveOne_read h₁ h₂ (by omega) (by omega) (sat_answerRead_shm rfl ha hpos hbuf)
  obtain ⟨_, t, hone, rfl, m', rfl, hresponse, hdata⟩ := hsat.exists_ok fun _ _ h => h
  exact ⟨m', exchangeWith_eq hopen hcomm hone hopen rfl, hresponse, hdata⟩

/-- A write request in the section and its answer. -/
theorem exchangeWith_write {v : SharedMemory} {m : ℕ → UInt8} (hs : Idle image (.shm v) s)
    (hm : slice m 0 requestSize = Request.bytes ⟨reqWrite, a, b⟩)
    (hro : image.readOnly = false) (ha : a + b ≤ image.fileSize) (hpos : 0 < b)
    (hle : b ≤ image.bufferSize) (hbuf : image.bufferSize < 2 ^ 31) :
    ∃ m', exchangeWith image m s = (some m',
        (s.store (image.offset + a) (slice m headerSize b)).withComm (.shm m' none none)) ∧
      slice m' 0 responseSize = Response.bytes ⟨0, b⟩ := by
  obtain ⟨hopen, -, m₀, hcomm⟩ := hs
  have hend := (Image.position ha).2
  obtain ⟨h₁, h₂⟩ := commRead_section s hm
  have hsat : Sat (serveOne image) (s.withComm (.shm m none none))
      (fun flushed t => flushed = true ∧ ∃ m', t =
        (s.store (image.offset + a) (slice m headerSize b)).withComm (.shm m' none none) ∧
        slice m' 0 responseSize = Response.bytes ⟨0, b⟩) fun _ _ => False :=
    sat_serveOne_write h₁ h₂ (by omega) (by omega)
      (sat_answerWrite_shm rfl hro ha hpos hle hbuf)
  obtain ⟨_, t, hone, rfl, m', rfl, hresponse⟩ := hsat.exists_ok fun _ _ h => h
  exact ⟨m', exchangeWith_eq hopen hcomm hone hopen rfl, hresponse⟩

end Serve

end KernelDrivers.ImDisk.Devio
