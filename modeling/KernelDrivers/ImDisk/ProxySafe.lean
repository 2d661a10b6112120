import KernelDrivers.ImDisk.Proxy

/-!
# Where the proxy client reads and writes

Against any peer a call logs its requests, its copies and the data it stores in order: each starts
where the transfer is, and the copies stay in a section whose size passes the check for a reason.

## Main definitions

* `Fits`, `Orderly` — where each event of a log may be.
* `At` — the log is in order and has come so far.
* `Behind` — the log only grows.
* `Acknowledged` — the bytes that a server has acknowledged.

## Main results

* `sat_imDiskCallProxy`, `transfer_ok` — a call, and a loop of calls.
* `acknowledged_transfer` — a write that is reported as a success was acknowledged to its end.
-/

namespace KernelDrivers.ImDisk.Proxy

open KernelDrivers.Fat (ulong ulong_of_lt)

/-! ## Where events may be -/

/-- How far an event takes the transfer. -/
def Event.advance : Event → ℕ
  | .stored _ count => count
  | .acked _ count => count
  | _ => 0

def covered (es : List Event) : ℕ := (es.map Event.advance).sum

/-- An event of a transfer that is at `p`: a request starts there and stays inside of the range,
bytes are stored or acknowledged there, and copies stay inside of the section. -/
def Fits (k : Connection) (t : Transfer) (p : ℕ) : Event → Prop
  | .request offset length => offset = (t.byteOffset + p) % 2 ^ 64 ∧ p + length ≤ t.length
  | .stored first count => first = p ∧ p + count ≤ t.length
  | .acked first count => first = p ∧ p + count ≤ t.length
  | .toShared first count => ∀ view, k = .shm view → first + count ≤ view.size
  | .fromShared first count => ∀ view, k = .shm view → first + count ≤ view.size

def Orderly (k : Connection) (t : Transfer) : ℕ → List Event → Prop
  | _, [] => True
  | p, e :: es => Fits k t p e ∧ Orderly k t (p + e.advance) es

section Log

variable {k : Connection} {t : Transfer} {p : ℕ} {es fs : List Event} {e : Event}

@[simp] theorem covered_append : covered (es ++ fs) = covered es + covered fs := by
  simp [covered]

@[simp] theorem covered_singleton : covered [e] = e.advance := by simp [covered]

theorem orderly_append :
    Orderly k t p (es ++ fs) ↔ Orderly k t p es ∧ Orderly k t (p + covered es) fs := by
  induction es generalizing p with
  | nil => simp [Orderly, covered]
  | cons e es ih =>
      have hsum : p + e.advance + covered es = p + covered (e :: es) := by
        simp [covered, Nat.add_assoc]
      rw [List.cons_append, Orderly, Orderly, ih, hsum, and_assoc]

theorem Orderly.of_prefix (h : Orderly k t p fs) (hpre : es <+: fs) : Orderly k t p es := by
  obtain ⟨gs, rfl⟩ := hpre
  exact (orderly_append.mp h).1

/-- An event that is logged is at the place where the log is. -/
theorem Orderly.fits (h : Orderly k t p fs) (hpre : es ++ [e] <+: fs) :
    Fits k t (p + covered es) e :=
  ((orderly_append.mp (h.of_prefix hpre)).2).1

end Log

/-- The log is in order and has come to `p`. -/
def At {σ : Type} (k : Connection) (t : Transfer) (p : ℕ) (c : Client σ) : Prop :=
  Orderly k t 0 c.trace ∧ covered c.trace = p

section Calls

variable {σ : Type} {peer : Peer σ} {k : Connection} {t : Transfer} {p : ℕ} {c : Client σ}
  {q : Call}

theorem At.snoc (h : At k t p c) {e : Event} (he : Fits k t p e) {p' : ℕ}
    (hp : p' = p + e.advance) {c' : Client σ} (hc : c'.trace = c.trace ++ [e]) : At k t p' c' := by
  obtain ⟨horder, rfl⟩ := h
  refine ⟨?_, ?_⟩
  · rw [hc, orderly_append]
    refine ⟨horder, ?_, trivial⟩
    rwa [Nat.zero_add]
  · rw [hc, covered_append, covered_singleton, hp]

theorem At.same (h : At k t p c) {c' : Client σ} (hc : c'.trace = c.trace) : At k t p c' := by
  rw [At, hc]
  exact h

theorem sat_log (h : At k t p c) {e : Event} (he : Fits k t p e) {E : Unit → Client σ → Prop} :
    Sat (log e) c (fun _ c => At k t (p + e.advance) c) E :=
  Sat.modify (h.snoc he rfl rfl)

theorem sat_sendStream (h : At k t p c) (bytes : List UInt8) :
    Sat (sendStream peer bytes) c (fun _ c => At k t p c) fun _ c => At k t p c := by
  simp only [sendStream]
  apply Sat.get_bind
  apply Sat.set_bind
  split
  · exact Sat.throw (h.same rfl)
  · exact Sat.pure (h.same rfl)

theorem sat_receiveStream (h : At k t p c) (part : Part) (count : ℕ)
    {E : Unit → Client σ → Prop} :
    Sat (receiveStream peer part count) c (fun bytes c => At k t p c ∧ bytes.length ≤ count) E := by
  simp only [receiveStream]
  apply Sat.get_bind
  apply Sat.set_bind
  exact Sat.pure ⟨h.same rfl, List.length_take_le _ _⟩

theorem sat_receiveData (h : At k t p c) {count : ℕ} (hfit : p + count ≤ t.length) :
    Sat (receiveData peer p count) c (fun _ c => At k t (p + count) c)
      fun _ c => ∃ p', At k t p' c := by
  simp only [receiveData]
  refine Sat.bind (sat_receiveStream h .data count) ?_
  intro bytes c hc
  apply Sat.modify_bind
  have hlog : Sat (log (.stored p bytes.length)) { c with buffer := place c.buffer p bytes }
      (fun _ c => At k t (p + bytes.length) c) fun _ c => ∃ p', At k t p' c := by
    have hfits : Fits k t p (.stored p bytes.length) := ⟨rfl, by omega⟩
    exact sat_log (E := fun _ c => ∃ p', At k t p' c) (hc.1.same rfl) hfits
  refine Sat.bind hlog ?_
  intro _ c hat
  split
  · exact Sat.throw ⟨_, hat⟩
  · have hlen : bytes.length = count := by omega
    rw [hlen] at hat
    exact Sat.pure hat

/-- How far a call that returned `r` takes the transfer. -/
def Call.received (q : Call) (r : Response) : ℕ :=
  match q.responseBufferSize with
  | none => 0
  | some _ => ulong r.length

/-- What a call at `p` has to be. -/
structure Call.Ready (k : Connection) (t : Transfer) (p : ℕ) (q : Call) : Prop where
  request : Fits k t p (.request q.request.offset q.request.length)
  position : q.position = p
  response : ∀ size, q.responseBufferSize = some size → p + size ≤ t.length

/-- The section has room for a header. -/
def Wide (k : Connection) : Prop := ∀ view, k = .shm view → headerSize ≤ view.size

/-- A call that returns leaves the log in order, with no more data than there is room for. -/
structure Returned (k : Connection) (t : Transfer) (p : ℕ) (q : Call) (r : Response)
    (c : Client σ) : Prop where
  at_received : At k t (p + q.received r) c
  bound : ∀ size, q.responseBufferSize = some size → ulong r.length ≤ size
  wide : Wide k

theorem sat_callDevice (h : At .device t p c) (hq : q.Ready .device t p) :
    Sat (callDevice peer q) c (Returned .device t p q) fun _ c => ∃ p', At .device t p' c := by
  have hwide : Wide .device := by simp [Wide]
  have hrest (c : Client σ) (hc : At .device t p c) : Sat (do
      let header ← receiveStream peer .header responseSize
      if header.length < responseSize then throw ()
      match q.responseBufferSize with
      | none => return Response.ofBytes header
      | some size =>
          if 0 < ulong (Response.ofBytes header).length then
            if size < ulong (Response.ofBytes header).length then throw ()
            receiveData peer q.position (ulong (Response.ofBytes header).length)
          return Response.ofBytes header : ProxyM σ Response) c (Returned .device t p q)
      fun _ c => ∃ p', At .device t p' c := by
    refine Sat.bind (sat_receiveStream hc .header responseSize) ?_
    intro header c hc
    dsimp only
    split
    · exact ⟨p, hc.1⟩
    · generalize Response.ofBytes header = r
      split
      · rename_i hnone
        refine Sat.pure ⟨?_, by simp [hnone], hwide⟩
        simpa [Call.received, hnone] using hc.1
      · rename_i size hsome
        have hroom := hq.response size hsome
        have hfit (hle : ulong r.length ≤ size) : ∀ n, q.responseBufferSize = some n →
            ulong r.length ≤ n := by
          intro n hn
          obtain rfl := Option.some.inj (hsome.symm.trans hn)
          exact hle
        split
        · split
          · exact ⟨p, hc.1⟩
          · have hle : ulong r.length ≤ size := by omega
            have hdata : Sat (receiveData peer q.position (ulong r.length)) c
                (fun _ c => At .device t (p + ulong r.length) c) fun _ c => ∃ p', At .device t p' c := by
              rw [hq.position]
              exact sat_receiveData hc.1 (by omega)
            refine Sat.bind hdata ?_
            intro _ c hat
            refine Sat.pure ⟨?_, hfit hle, hwide⟩
            simpa [Call.received, hsome] using hat
        · rename_i hzero
          have hzero : ulong r.length = 0 := by omega
          refine Sat.pure ⟨?_, hfit (by omega), hwide⟩
          simpa [Call.received, hsome, hzero] using hc.1
  simp only [callDevice]
  refine Sat.bind (sat_log h hq.request) ?_
  intro _ c hc
  apply Sat.get_bind
  split
  · refine Sat.bind ((sat_sendStream hc _).mono (fun _ _ h => h) fun _ _ h => ⟨_, h⟩) ?_
    intro _ c hc
    exact hrest c hc
  · exact hrest c hc

theorem sat_storeShared (h : At k t p c) {first : ℕ} {bytes : List UInt8}
    (hfits : Fits k t p (.toShared first bytes.length)) {E : Unit → Client σ → Prop} :
    Sat (storeShared first bytes) c (fun _ c => At k t p c) E := by
  simp only [storeShared]
  refine Sat.bind (sat_log h hfits) ?_
  intro _ c hc
  exact Sat.modify (hc.same rfl)

theorem sat_loadShared (h : At k t p c) {first count : ℕ}
    (hfits : Fits k t p (.fromShared first count)) {E : Unit → Client σ → Prop} :
    Sat (loadShared first count) c (fun bytes c => At k t p c ∧ bytes.length = count) E := by
  simp only [loadShared]
  refine Sat.bind (sat_log h hfits) ?_
  intro _ c hc
  apply Sat.get_bind
  exact Sat.pure ⟨hc, length_slice _ _ _⟩

theorem sat_exchange (h : At k t p c) {r : Request} (hfits : Fits k t p (.request r.offset r.length)) :
    Sat (exchange peer r) c (fun _ c => At k t p c) fun _ c => At k t p c := by
  simp only [exchange]
  refine Sat.bind (sat_log h hfits) ?_
  intro _ c hc
  apply Sat.get_bind
  split
  · exact hc.same rfl
  · exact hc.same rfl

theorem length_requestBytes (r : Request) : r.bytes.length = requestSize := by
  simp [Request.bytes, requestSize]

/-- What passes the check of the sizes has room behind the header, unless the sum wraps. -/
theorem sat_callShm {view : SharedMemory} (h : At (.shm view) t p c) (hq : q.Ready (.shm view) t p)
    (hroom : ulong (q.requestDataSize + headerSize) ≤ view.size →
      headerSize + q.requestDataSize ≤ view.size)
    (hback : headerSize ≤ view.size → ∀ size, q.responseBufferSize = some size →
      headerSize + size ≤ view.size) :
    Sat (callShm peer view q) c (Returned (.shm view) t p q)
      fun _ c => ∃ p', At (.shm view) t p' c := by
  have hrest (c : Client σ) (hc : At (.shm view) t p c)
      (hsize : headerSize + q.requestDataSize ≤ view.size) : Sat (do
      exchange peer q.request
      let header ← loadShared 0 responseSize
      match q.responseBufferSize with
      | none => return Response.ofBytes header
      | some size =>
          if 0 < ulong (Response.ofBytes header).length then
            if size < ulong (Response.ofBytes header).length ∨
                view.size < ulong (ulong (Response.ofBytes header).length + headerSize) then
              throw ()
            let bytes ← loadShared headerSize (ulong (Response.ofBytes header).length)
            modify fun c => { c with buffer := place c.buffer q.position bytes }
            log (.stored q.position bytes.length)
          return Response.ofBytes header : ProxyM σ Response) c (Returned (.shm view) t p q)
      fun _ c => ∃ p', At (.shm view) t p' c := by
    have hwide : Wide (.shm view) := by
      intro v hv
      obtain rfl := Connection.shm.inj hv
      omega
    have hfits (first count : ℕ) (hle : first + count ≤ view.size) :
        Fits (.shm view) t p (.fromShared first count) := by
      intro v hv
      obtain rfl := Connection.shm.inj hv
      exact hle
    refine Sat.bind ((sat_exchange hc hq.request).mono (fun _ _ h => h) fun _ _ h => ⟨_, h⟩) ?_
    intro _ c hc
    have hheader := hfits 0 responseSize (by simp [responseSize, headerSize] at *; omega)
    refine Sat.bind (sat_loadShared hc hheader) ?_
    intro header c hc
    dsimp only
    generalize Response.ofBytes header = r
    split
    · rename_i hnone
      refine Sat.pure ⟨?_, by simp [hnone], hwide⟩
      simpa [Call.received, hnone] using hc.1
    · rename_i size hsome
      have hbound := hq.response size hsome
      have hfit (hle : ulong r.length ≤ size) : ∀ n, q.responseBufferSize = some n →
          ulong r.length ≤ n := by
        intro n hn
        obtain rfl := Option.some.inj (hsome.symm.trans hn)
        exact hle
      split
      · split
        · exact ⟨p, hc.1⟩
        · have hle : ulong r.length ≤ size := by omega
          have hin := hback (by omega) size hsome
          refine Sat.bind (sat_loadShared hc.1 (hfits headerSize (ulong r.length) (by omega))) ?_
          intro bytes c hc
          apply Sat.modify_bind
          have hstored : Fits (.shm view) t p (.stored q.position bytes.length) :=
            ⟨hq.position, by omega⟩
          have hlog : Sat (log (.stored q.position bytes.length))
              { c with buffer := place c.buffer q.position bytes }
              (fun _ c => At (.shm view) t (p + bytes.length) c)
              fun _ c => ∃ p', At (.shm view) t p' c :=
            sat_log (E := fun _ c => ∃ p', At (.shm view) t p' c) (hc.1.same rfl) hstored
          refine Sat.bind hlog ?_
          intro _ c hat
          refine Sat.pure ⟨?_, hfit hle, hwide⟩
          rw [hc.2] at hat
          simpa [Call.received, hsome] using hat
      · rename_i hzero
        have hzero : ulong r.length = 0 := by omega
        refine Sat.pure ⟨?_, hfit (by omega), hwide⟩
        simpa [Call.received, hsome, hzero] using hc.1
  by_cases hpass : headerSize < requestSize ∨ headerSize < responseSize ∨
      view.size < ulong (q.requestDataSize + headerSize)
  · simp only [callShm, hpass, if_true]
    exact ⟨p, h⟩
  · simp only [callShm, hpass, if_false]
    have hsize := hroom (by omega)
    have hfits (first : ℕ) (bytes : List UInt8) (hle : first + bytes.length ≤ view.size) :
        Fits (.shm view) t p (.toShared first bytes.length) := by
      intro v hv
      obtain rfl := Connection.shm.inj hv
      exact hle
    have hheader := hfits 0 q.request.bytes (by
      rw [length_requestBytes]
      simp only [requestSize, headerSize] at *
      omega)
    refine Sat.bind (sat_storeShared h hheader) ?_
    intro _ c hc
    apply Sat.get_bind
    split
    · have hdata := hfits headerSize (slice c.buffer q.position q.requestDataSize) (by simpa using hsize)
      refine Sat.bind (sat_storeShared hc hdata) ?_
      intro _ c hc
      exact hrest c hc hsize
    · exact hrest c hc hsize

theorem maxTransferSize_shm {view : SharedMemory} (h : headerSize ≤ view.size) :
    maxTransferSize t (.shm view) = view.size - headerSize := by
  have hlt := view.fits
  have hsum : view.size + 2 ^ view.pointerBits - headerSize =
      view.size - headerSize + 2 ^ view.pointerBits := by omega
  rw [maxTransferSize, hsum, Nat.add_mod_right, Nat.mod_eq_of_lt (by omega)]

/-- The size of the request data passes the check only when there is room for them. -/
def Roomy (k : Connection) (q : Call) : Prop :=
  ∀ view, k = .shm view → ulong (q.requestDataSize + headerSize) ≤ view.size →
    headerSize + q.requestDataSize ≤ view.size

theorem sat_imDiskCallProxy (h : At k t p c) (hq : q.Ready k t p) (hroom : Roomy k q)
    (hback : ∀ size, q.responseBufferSize = some size → size ≤ maxTransferSize t k) :
    Sat (imDiskCallProxy peer k q) c (Returned k t p q) fun _ c => ∃ p', At k t p' c := by
  cases k with
  | device => exact sat_callDevice h hq
  | shm view =>
      refine sat_callShm h hq (hroom view rfl) ?_
      intro hwide size hsize
      have hle := hback size hsize
      rw [maxTransferSize_shm hwide] at hle
      omega

end Calls

/-! ## Passes -/

section Passes

variable {σ : Type} {peer : Peer σ} {k : Connection} {t : Transfer} {p done : ℕ} {c : Client σ}

theorem nextRequest_fits (code : ℕ) (h : done ≤ t.length) :
    Fits k t done (.request (nextRequest code k t done).offset (nextRequest code k t done).length) := by
  refine ⟨rfl, ?_⟩
  have := Nat.min_le_left (t.length - done) (maxTransferSize t k)
  simp only [nextRequest]
  omega

theorem ulong_nextRequest (code : ℕ) :
    ulong (nextRequest code k t done).length = (nextRequest code k t done).length := by
  have := t.length_lt
  have := Nat.min_le_left (t.length - done) (maxTransferSize t k)
  refine ulong_of_lt ?_
  simp only [nextRequest]
  omega

/-- A pass of a transfer of `t.length` bytes: the log is in order, and what is reported fits. -/
structure PassOk (k : Connection) (t : Transfer) (r : Pass × Client σ) : Prop where
  more : ∀ d, r.1 = .more d → At k t d r.2 ∧ d ≤ t.length ∧ Wide k
  stop : ∀ status, r.1 = .stop status → (∃ p, At k t p r.2) ∧ status.information ≤ t.length

theorem PassOk.of_more {d : ℕ} (h : At k t d c) (hd : d ≤ t.length) (hwide : Wide k) :
    PassOk k t (.more d, c) := by
  refine ⟨?_, by simp⟩
  intro d' hd'
  obtain rfl := Pass.more.inj hd'
  exact ⟨h, hd, hwide⟩

theorem PassOk.of_stop {status : IoStatus} (h : ∃ p, At k t p c)
    (hd : status.information ≤ t.length) : PassOk k t (.stop status, c) := by
  refine ⟨by simp, ?_⟩
  intro status' hs
  obtain rfl := Pass.stop.inj hs
  exact ⟨h, hd⟩

theorem readPass_ok (h : At k t done c) (hd : done ≤ t.length) :
    PassOk k t (readPass peer k t done c) := by
  have hlen := (nextRequest_fits reqRead (k := k) hd).2
  have hready : (readCall k t done).Ready k t done := by
    refine ⟨nextRequest_fits reqRead hd, rfl, ?_⟩
    intro size hsize
    obtain rfl := Option.some.inj hsize
    rw [ulong_nextRequest]
    exact hlen
  have hroom : Roomy k (readCall k t done) := by
    intro view hview hle
    have hzero : (readCall k t done).requestDataSize = 0 := rfl
    rw [hzero, Nat.zero_add, ulong_of_lt (by simp [headerSize])] at hle
    rw [hzero]
    exact hle
  have hback (size : ℕ) (hsize : (readCall k t done).responseBufferSize = some size) :
      size ≤ maxTransferSize t k := by
    obtain rfl := Option.some.inj hsize
    rw [ulong_nextRequest]
    exact Nat.min_le_right _ _
  have hsat : Sat (imDiskCallProxy peer k (readCall k t done)) c
      (Returned k t done (readCall k t done)) fun _ c => ∃ p', At k t p' c :=
    sat_imDiskCallProxy h hready hroom hback
  simp only [readPass]
  split
  · rename_i c' hcall
    exact .of_stop (hsat.error hcall) hd
  · rename_i r c' hcall
    obtain ⟨hat, hbound, hwide⟩ := hsat.ok hcall
    have hle := hbound _ rfl
    rw [ulong_nextRequest] at hle
    have hat : At k t (done + ulong r.length) c' := hat
    have hsum : ulong (done + ulong r.length) = done + ulong r.length :=
      ulong_of_lt (by have := t.length_lt; omega)
    have hin : done + ulong r.length ≤ t.length := by omega
    rw [hsum]
    split
    · exact .of_stop ⟨_, hat⟩ hin
    · split
      · exact .of_stop ⟨_, hat⟩ hin
      · exact .of_more hat hin hwide

theorem writePass_ok (h : At k t done c) (hd : done ≤ t.length)
    (hroom : Roomy k (writeCall k t done)) : PassOk k t (writePass peer k t done c) := by
  have hlen := (nextRequest_fits reqWrite (k := k) hd).2
  have hready : (writeCall k t done).Ready k t done :=
    ⟨nextRequest_fits reqWrite hd, rfl, by simp [writeCall]⟩
  have hsat : Sat (imDiskCallProxy peer k (writeCall k t done)) c
      (Returned k t done (writeCall k t done)) fun _ c => ∃ p', At k t p' c :=
    sat_imDiskCallProxy h hready hroom (by simp [writeCall])
  simp only [writePass]
  split
  · rename_i c' hcall
    exact .of_stop (hsat.error hcall) hd
  · rename_i r c' hcall
    obtain ⟨hat, -, hwide⟩ := hsat.ok hcall
    have hat : At k t done c' := hat
    have hsum : ulong (done + ulong (nextRequest reqWrite k t done).length) =
        done + (nextRequest reqWrite k t done).length := by
      rw [ulong_nextRequest]
      exact ulong_of_lt (by have := t.length_lt; omega)
    split
    · exact .of_stop ⟨_, hat⟩ hd
    · split
      · exact .of_stop ⟨_, hat⟩ hd
      · rw [hsum]
        refine .of_more (hat.snoc (e := .acked done _) ⟨rfl, ?_⟩ ?_ rfl) hlen hwide
        · rw [ulong_nextRequest]
          exact hlen
        · simp [Event.advance, ulong_nextRequest]

/-- What a pass keeps, the loop keeps. -/
theorem transfer_ok {pass : ℕ → Client σ → Pass × Client σ}
    (hpass : ∀ done c, At k t done c → done ≤ t.length → (done = 0 ∨ Wide k) →
      PassOk k t (pass done c)) (fuel : ℕ) (h : At k t done c) (hd : done ≤ t.length)
    (hwide : done = 0 ∨ Wide k) :
    (∃ p, At k t p (transfer pass t.length fuel done c).2) ∧
      ∀ status, (transfer pass t.length fuel done c).1 = some status →
        status.information ≤ t.length := by
  induction fuel generalizing done c with
  | zero =>
      simp only [transfer]
      split
      · exact ⟨⟨done, h⟩, by simp⟩
      · exact ⟨⟨done, h⟩, by simpa using hd⟩
  | succ fuel ih =>
      have hone := hpass done c h hd hwide
      simp only [transfer]
      split
      · split
        · rename_i d c' heq
          rw [heq] at hone
          obtain ⟨hat, hle, hw⟩ := hone.more d rfl
          exact ih hat hle (.inr hw)
        · rename_i status c' heq
          rw [heq] at hone
          obtain ⟨hat, hle⟩ := hone.stop status rfl
          refine ⟨hat, ?_⟩
          intro status' hs
          obtain rfl := Option.some.inj hs
          exact hle
      · exact ⟨⟨done, h⟩, by simpa using hd⟩

end Passes

/-! ## The log only grows -/

/-- The log starts with `es`. -/
def Behind {σ : Type} (es : List Event) (c : Client σ) : Prop := es <+: c.trace

section Growth

variable {σ : Type} {peer : Peer σ} {k : Connection} {t : Transfer} {c : Client σ} {q : Call}
  {es : List Event}

theorem behind_log (h : Behind es c) (e : Event) :
    Sat (log e) c (fun _ c => Behind es c) fun _ c => Behind es c :=
  Sat.modify (h.trans (List.prefix_append _ _))

theorem behind_receiveStream (h : Behind es c) (part : Part) (count : ℕ) :
    Sat (receiveStream peer part count) c (fun _ c => Behind es c) fun _ c => Behind es c := by
  simp only [receiveStream]
  apply Sat.get_bind
  apply Sat.set_bind
  exact Sat.pure h

theorem behind_sendStream (h : Behind es c) (bytes : List UInt8) :
    Sat (sendStream peer bytes) c (fun _ c => Behind es c) fun _ c => Behind es c := by
  simp only [sendStream]
  apply Sat.get_bind
  apply Sat.set_bind
  split
  · exact Sat.throw h
  · exact Sat.pure h

theorem behind_receiveData (h : Behind es c) (position count : ℕ) :
    Sat (receiveData peer position count) c (fun _ c => Behind es c) fun _ c => Behind es c := by
  simp only [receiveData]
  refine Sat.bind (behind_receiveStream h .data count) ?_
  intro bytes c hc
  apply Sat.modify_bind
  have hplaced : Behind es { c with buffer := place c.buffer position bytes } := hc
  refine Sat.bind (behind_log hplaced _) ?_
  intro _ c hc
  split
  · exact Sat.throw hc
  · exact Sat.pure hc

theorem behind_callDevice (h : Behind es c) :
    Sat (callDevice peer q) c (fun _ c => Behind es c) fun _ c => Behind es c := by
  have hrest (c : Client σ) (hc : Behind es c) : Sat (do
      let header ← receiveStream peer .header responseSize
      if header.length < responseSize then throw ()
      match q.responseBufferSize with
      | none => return Response.ofBytes header
      | some size =>
          if 0 < ulong (Response.ofBytes header).length then
            if size < ulong (Response.ofBytes header).length then throw ()
            receiveData peer q.position (ulong (Response.ofBytes header).length)
          return Response.ofBytes header : ProxyM σ Response) c (fun _ c => Behind es c)
      fun _ c => Behind es c := by
    refine Sat.bind (behind_receiveStream hc .header responseSize) ?_
    intro header c hc
    dsimp only
    split
    · exact hc
    · split
      · exact Sat.pure hc
      · split
        · split
          · exact hc
          · exact Sat.bind (behind_receiveData hc _ _) fun _ c hc => Sat.pure hc
        · exact Sat.pure hc
  simp only [callDevice]
  refine Sat.bind (behind_log h _) ?_
  intro _ c hc
  apply Sat.get_bind
  split
  · exact Sat.bind (behind_sendStream hc _) fun _ c hc => hrest c hc
  · exact hrest c hc

theorem behind_storeShared (h : Behind es c) (first : ℕ) (bytes : List UInt8) :
    Sat (storeShared first bytes) c (fun _ c => Behind es c) fun _ c => Behind es c := by
  simp only [storeShared]
  exact Sat.bind (behind_log h _) fun _ c hc => Sat.modify hc

theorem behind_loadShared (h : Behind es c) (first count : ℕ) :
    Sat (loadShared first count) c (fun _ c => Behind es c) fun _ c => Behind es c := by
  simp only [loadShared]
  exact Sat.bind (behind_log h _) fun _ c hc => Sat.get_bind (Sat.pure hc)

theorem behind_exchange (h : Behind es c) (r : Request) :
    Sat (exchange peer r) c (fun _ c => Behind es c) fun _ c => Behind es c := by
  simp only [exchange]
  refine Sat.bind (behind_log h _) ?_
  intro _ c hc
  apply Sat.get_bind
  split
  · exact hc
  · exact hc

/-- The answer of the server and what the client takes of it. -/
theorem behind_answer (h : Behind es c) (view : SharedMemory) : Sat (do
    exchange peer q.request
    let header ← loadShared 0 responseSize
    match q.responseBufferSize with
    | none => return Response.ofBytes header
    | some size =>
        if 0 < ulong (Response.ofBytes header).length then
          if size < ulong (Response.ofBytes header).length ∨
              view.size < ulong (ulong (Response.ofBytes header).length + headerSize) then
            throw ()
          let bytes ← loadShared headerSize (ulong (Response.ofBytes header).length)
          modify fun c => { c with buffer := place c.buffer q.position bytes }
          log (.stored q.position bytes.length)
        return Response.ofBytes header : ProxyM σ Response) c (fun _ c => Behind es c)
    fun _ c => Behind es c := by
  refine Sat.bind (behind_exchange h q.request) ?_
  intro _ c hc
  refine Sat.bind (behind_loadShared hc _ _) ?_
  intro header c hc
  dsimp only
  split
  · exact Sat.pure hc
  · split
    · split
      · exact hc
      · refine Sat.bind (behind_loadShared hc _ _) ?_
        intro bytes c hc
        apply Sat.modify_bind
        have hplaced : Behind es { c with buffer := place c.buffer q.position bytes } := hc
        exact Sat.bind (behind_log hplaced _) fun _ c hc => Sat.pure hc
    · exact Sat.pure hc

theorem behind_callShm (h : Behind es c) (view : SharedMemory) :
    Sat (callShm peer view q) c (fun _ c => Behind es c) fun _ c => Behind es c := by
  by_cases hpass : headerSize < requestSize ∨ headerSize < responseSize ∨
      view.size < ulong (q.requestDataSize + headerSize)
  · simp only [callShm, hpass, if_true]
    exact h
  · simp only [callShm, hpass, if_false]
    refine Sat.bind (behind_storeShared h _ _) ?_
    intro _ c hc
    apply Sat.get_bind
    split
    · exact Sat.bind (behind_storeShared hc _ _) fun _ c hc => behind_answer hc view
    · exact behind_answer hc view

theorem behind_imDiskCallProxy (h : Behind es c) :
    Sat (imDiskCallProxy peer k q) c (fun _ c => Behind es c) fun _ c => Behind es c := by
  cases k with
  | device => exact behind_callDevice h
  | shm view => exact behind_callShm h view

theorem behind_of_call {done : ℕ}
    (hcall : Sat (imDiskCallProxy peer k (writeCall k t done)) c (fun _ c => Behind es c)
      fun _ c => Behind es c) : Behind es (writePass peer k t done c).2 := by
  simp only [writePass]
  split
  · rename_i hx
    exact hcall.error hx
  · rename_i hx
    have hc := hcall.ok hx
    split
    · exact hc
    · split
      · exact hc
      · exact hc.trans (List.prefix_append _ _)

theorem behind_writePass (h : Behind es c) (done : ℕ) : Behind es (writePass peer k t done c).2 :=
  behind_of_call (behind_imDiskCallProxy h)

theorem behind_transfer {pass : ℕ → Client σ → Pass × Client σ} {length : ℕ}
    (hpass : ∀ done c, Behind es c → Behind es (pass done c).2) (fuel done : ℕ) (h : Behind es c) :
    Behind es (transfer pass length fuel done c).2 := by
  induction fuel generalizing done c with
  | zero =>
      simp only [transfer]
      split <;> exact h
  | succ fuel ih =>
      have hone := hpass done c h
      simp only [transfer]
      split
      · split
        · rename_i heq
          rw [heq] at hone
          exact ih _ hone
        · rename_i heq
          rw [heq] at hone
          exact hone
      · exact h

/-- The bytes below `done` have been acknowledged. -/
def Acknowledged (done : ℕ) (es : List Event) : Prop :=
  ∀ i < done, ∃ first count, Event.acked first count ∈ es ∧ first ≤ i ∧ i < first + count

theorem Acknowledged.mono {done : ℕ} {fs : List Event} (h : Acknowledged done es)
    (hpre : es <+: fs) : Acknowledged done fs := by
  intro i hi
  obtain ⟨first, count, hmem, hin⟩ := h i hi
  exact ⟨first, count, hpre.subset hmem, hin⟩

theorem acknowledged_writePass {done d : ℕ} (h : Acknowledged done c.trace) (hd : done ≤ t.length)
    (hmore : (writePass peer k t done c).1 = .more d) :
    Acknowledged d (writePass peer k t done c).2.trace ∧ d ≤ t.length := by
  have hself : Behind c.trace c := List.prefix_refl _
  have hcall : Sat (imDiskCallProxy peer k (writeCall k t done)) c
      (fun _ c' => Behind c.trace c') fun _ c' => Behind c.trace c' := behind_imDiskCallProxy hself
  have hlen := (nextRequest_fits reqWrite (k := k) hd).2
  simp only [writePass] at hmore ⊢
  split at hmore
  · simp at hmore
  · rename_i r c' hx
    have hold := h.mono (hcall.ok hx)
    split at hmore
    · simp at hmore
    · rename_i hno
      split at hmore
      · simp at hmore
      · rename_i hlength
        rw [if_neg hno, if_neg hlength]
        obtain rfl := Pass.more.inj hmore
        rw [ulong_nextRequest, ulong_of_lt (by have := t.length_lt; omega)]
        refine ⟨?_, hlen⟩
        intro i hi
        rcases Nat.lt_or_ge i done with hlt | hge
        · obtain ⟨first, count, hmem, hin⟩ := hold i hlt
          exact ⟨first, count, List.mem_append_left _ hmem, hin⟩
        · exact ⟨done, _, List.mem_append_right _ List.mem_cons_self, hge, hi⟩

/-- A write only stops when something went wrong. -/
theorem writePass_stop {done : ℕ} {status : IoStatus}
    (h : (writePass peer k t done c).1 = .stop status) : ¬ status.success := by
  simp only [writePass] at h
  split at h
  · obtain rfl := Pass.stop.inj h
    simp
  · split at h
    · obtain rfl := Pass.stop.inj h
      simp
    · split at h
      · obtain rfl := Pass.stop.inj h
        simp
      · simp at h

/-- A write that is reported as a success was acknowledged to its end. -/
theorem acknowledged_transfer (fuel : ℕ) {done : ℕ} (h : Acknowledged done c.trace)
    (hd : done ≤ t.length) {status : IoStatus}
    (hdone : (transfer (writePass peer k t) t.length fuel done c).1 = some status)
    (hsuccess : status.success) :
    Acknowledged t.length (transfer (writePass peer k t) t.length fuel done c).2.trace := by
  have hend {d : ℕ} {c : Client σ} (h : Acknowledged d c.trace) (hd : d ≤ t.length)
      (hnot : ¬ d < t.length) : Acknowledged t.length c.trace := by
    obtain rfl : d = t.length := by omega
    exact h
  induction fuel generalizing done c with
  | zero =>
      simp only [transfer] at hdone ⊢
      split at hdone
      · simp at hdone
      · rename_i hnot
        rw [if_neg hnot]
        exact hend h hd hnot
  | succ fuel ih =>
      simp only [transfer] at hdone ⊢
      split at hdone
      · rename_i hlt
        rw [if_pos hlt]
        cases hx : (writePass peer k t done c).1 with
        | more d =>
            obtain ⟨hack, hle⟩ := acknowledged_writePass h hd hx
            have hpass : writePass peer k t done c = (.more d, (writePass peer k t done c).2) :=
              Prod.ext hx rfl
            rw [hpass] at hdone ⊢
            exact ih hack hle hdone
        | stop status' =>
            have hpass : writePass peer k t done c =
                (.stop status', (writePass peer k t done c).2) := Prod.ext hx rfl
            rw [hpass] at hdone
            obtain rfl := Option.some.inj hdone
            exact absurd hsuccess (writePass_stop hx)
      · rename_i hnot
        rw [if_neg hnot]
        exact hend h hd hnot

end Growth

end KernelDrivers.ImDisk.Proxy
