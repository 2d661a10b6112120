import KernelDrivers.ImDisk.ProxySafe

/-!
# When the proxy client is safe

A server is given as the list of what it does in each call.  A read ends when the lengths that come
back, as far as the client looks at them, add up or one of them ends it; a write ends when its
requests are not empty, and keeps to the section when that has room for a header.

## Main definitions

* `Answer`, `scripted` — the server.
* `Session.ReadSafe`, `Session.WriteSafe` — what is promised of a transfer.
* `Session.ReadEnds`, `Session.WriteFits` — when it is kept.

## Main results

* `proxySafe_iff` — exactly then.
* `not_proxySafe_fourGigabytes` — a read and a write without an end, and a copy out of bounds.
-/

namespace KernelDrivers.ImDisk.Proxy

open KernelDrivers.Fat (ulong ulong_of_lt)

/-! ## A server as a list of answers -/

/-- What one call meets: whether the stream takes the request, the bytes that come for the header
and for the data, or the section behind the wait. -/
structure Answer where
  sent : Bool
  header : List UInt8
  data : List UInt8
  shared : Option (ℕ → UInt8)

/-- The server that answers the calls one after the other; the state is their number. -/
def scripted (answers : ℕ → Answer) : Peer ℕ where
  send _ n := ((answers n).sent, n)
  receive part _ n :=
    match part with
    | .header => ((answers n).header, n + 1)
    | .data => ((answers (n - 1)).data, n)
  exchange _ n := ((answers n).shared, n + 1)

/-- The header of the response, when it comes. -/
def Answer.response (k : Connection) (a : Answer) : Option Response :=
  match k with
  | .device =>
      if a.sent ∧ responseSize ≤ a.header.length then
        some (Response.ofBytes (a.header.take responseSize))
      else none
  | .shm _ => a.shared.map fun m => Response.ofBytes (slice m 0 responseSize)

/-- The low half of the length. -/
def Answer.low (k : Connection) (a : Answer) : ℕ := ((a.response k).map fun r => ulong r.length).getD 0

/-- The data of the size that was announced come. -/
def Answer.Complete (k : Connection) (a : Answer) : Prop := k = .device → a.low k ≤ a.data.length

section Scripted

variable {answers : ℕ → Answer} {k : Connection} {t : Transfer} {c : Client ℕ} {q : Call} {n : ℕ}

/-- A call with response data that returns. -/
structure Call.Good (k : Connection) (q : Call) (a : Answer) (r : Response) : Prop where
  response : a.response k = some r
  bound : ∀ size, q.responseBufferSize = some size → ulong r.length ≤ size
  complete : ∀ size, q.responseBufferSize = some size → a.Complete k

theorem Answer.low_of_response {a : Answer} {r : Response} (h : a.response k = some r) :
    a.low k = ulong r.length := by
  simp [Answer.low, h]

theorem sat_log_scripted (hn : c.peer = n) (e : Event) {E : Unit → Client ℕ → Prop} :
    Sat (log e) c (fun _ c => c.peer = n) E :=
  Sat.modify hn

theorem sat_sendStream_scripted (hn : c.peer = n) (bytes : List UInt8) :
    Sat (sendStream (scripted answers) bytes) c (fun _ c => (answers n).sent ∧ c.peer = n)
      fun _ _ => ¬ (answers n).sent := by
  subst hn
  simp only [sendStream]
  apply Sat.get_bind
  apply Sat.set_bind
  split
  · rename_i hnot
    exact Sat.throw (by simpa [scripted] using hnot)
  · rename_i hsent
    exact Sat.pure ⟨by simpa [scripted] using hsent, rfl⟩

theorem sat_receiveHeader_scripted (hn : c.peer = n) (count : ℕ) {E : Unit → Client ℕ → Prop} :
    Sat (receiveStream (scripted answers) .header count) c
      (fun bytes c => bytes = (answers n).header.take count ∧ c.peer = n + 1) E := by
  subst hn
  simp only [receiveStream, scripted]
  apply Sat.get_bind
  apply Sat.set_bind
  exact Sat.pure ⟨rfl, rfl⟩

theorem sat_receiveData_scripted (hn : c.peer = n + 1) (position count : ℕ) :
    Sat (receiveData (scripted answers) position count) c
      (fun _ c => count ≤ (answers n).data.length ∧ c.peer = n + 1)
      fun _ _ => ¬ count ≤ (answers n).data.length := by
  have hdata : Sat (receiveStream (scripted answers) .data count) c
      (fun bytes c => bytes = (answers n).data.take count ∧ c.peer = n + 1)
      fun _ _ => ¬ count ≤ (answers n).data.length := by
    simp only [receiveStream, scripted]
    apply Sat.get_bind
    apply Sat.set_bind
    exact Sat.pure ⟨by rw [hn, Nat.add_sub_cancel], hn⟩
  simp only [receiveData]
  refine Sat.bind hdata ?_
  intro bytes c hc
  obtain ⟨rfl, hn⟩ := hc
  apply Sat.modify_bind
  have hlog : Sat (log (.stored position ((answers n).data.take count).length))
      { c with buffer := place c.buffer position ((answers n).data.take count) }
      (fun _ c => c.peer = n + 1) fun _ _ => ¬ count ≤ (answers n).data.length :=
    sat_log_scripted (E := fun _ _ => ¬ count ≤ (answers n).data.length) hn
      (.stored position ((answers n).data.take count).length)
  refine Sat.bind hlog ?_
  intro _ c hn
  rw [List.length_take]
  split
  · exact Sat.throw (by omega)
  · exact Sat.pure ⟨by omega, hn⟩

theorem sat_callDevice_scripted (hn : c.peer = n)
    (hsize : ulong (requestSize + q.requestDataSize) ≠ 0) :
    Sat (callDevice (scripted answers) q) c
      (fun r c => q.Good .device (answers n) r ∧ c.peer = n + 1)
      fun _ _ => ∀ r, ¬ q.Good .device (answers n) r := by
  simp only [callDevice]
  refine Sat.bind (sat_log_scripted hn _) ?_
  intro _ c hn
  apply Sat.get_bind
  rw [if_pos (Nat.pos_of_ne_zero hsize)]
  have hsend : Sat (sendStream (scripted answers)
      ((q.request.bytes ++ slice c.buffer q.position q.requestDataSize).take
        (ulong (requestSize + q.requestDataSize)))) c
      (fun _ c => (answers n).sent ∧ c.peer = n) fun _ _ => ∀ r, ¬ q.Good .device (answers n) r := by
    refine (sat_sendStream_scripted hn _).mono (fun _ _ h => h) ?_
    intro _ _ hnot r hgood
    have := hgood.response
    simp [Answer.response, hnot] at this
  refine Sat.bind hsend ?_
  intro _ c hc
  obtain ⟨hsent, hn⟩ := hc
  refine Sat.bind (sat_receiveHeader_scripted hn responseSize) ?_
  intro header c hc
  obtain ⟨rfl, hn⟩ := hc
  split
  · rename_i hshort
    refine Sat.throw ?_
    intro r hgood
    have hresponse := hgood.response
    rw [List.length_take] at hshort
    rw [Answer.response, if_neg (by omega)] at hresponse
    simp at hresponse
  · rename_i hlong
    rw [List.length_take] at hlong
    have hresponse : (answers n).response .device =
        some (Response.ofBytes ((answers n).header.take responseSize)) :=
      if_pos ⟨hsent, by omega⟩
    generalize Response.ofBytes ((answers n).header.take responseSize) = r at hresponse ⊢
    have hsame (r' : Response) (hgood : q.Good .device (answers n) r') : r' = r :=
      Option.some.inj (hgood.response.symm.trans hresponse)
    have hlow := Answer.low_of_response hresponse
    split
    · rename_i hnone
      exact Sat.pure ⟨⟨hresponse, by simp [hnone], by simp [hnone]⟩, hn⟩
    · rename_i size hsome
      have hgood (hle : ulong r.length ≤ size) (hdata : ulong r.length ≤ (answers n).data.length) :
          q.Good .device (answers n) r := by
        refine ⟨hresponse, ?_, ?_⟩
        · intro m hm
          obtain rfl := Option.some.inj (hsome.symm.trans hm)
          exact hle
        · intro _ _ _
          rw [hlow]
          exact hdata
      split
      · split
        · refine Sat.throw ?_
          intro r' h
          obtain rfl := hsame r' h
          have := h.bound size hsome
          omega
        · have hdata : Sat (receiveData (scripted answers) q.position (ulong r.length)) c
              (fun _ c => ulong r.length ≤ (answers n).data.length ∧ c.peer = n + 1)
              fun _ _ => ∀ r, ¬ q.Good .device (answers n) r := by
            refine (sat_receiveData_scripted hn _ _).mono (fun _ _ h => h) ?_
            intro _ _ hnot r' h
            have hall := h.complete size hsome rfl
            rw [hlow] at hall
            exact hnot hall
          refine Sat.bind hdata ?_
          intro _ c hc
          exact Sat.pure ⟨hgood (by omega) hc.1, hc.2⟩
      · exact Sat.pure ⟨hgood (by omega) (by omega), hn⟩

theorem sat_exchange_scripted (hn : c.peer = n) (r : Request) :
    Sat (exchange (scripted answers) r) c
      (fun _ c => (answers n).shared = some c.shared ∧ c.peer = n + 1)
      fun _ _ => (answers n).shared = none := by
  simp only [exchange]
  refine Sat.bind (sat_log_scripted hn _) ?_
  intro _ c hn
  apply Sat.get_bind
  simp only [scripted, hn]
  split
  · rename_i heq
    exact congrArg Prod.fst heq
  · rename_i heq
    exact ⟨congrArg Prod.fst heq, (congrArg Prod.snd heq).symm⟩

theorem sat_storeShared_scripted (hn : c.peer = n) (first : ℕ) (bytes : List UInt8)
    {E : Unit → Client ℕ → Prop} : Sat (storeShared first bytes) c (fun _ c => c.peer = n) E := by
  simp only [storeShared]
  exact Sat.bind (sat_log_scripted hn _) fun _ c hn => Sat.modify hn

theorem sat_loadShared_scripted (hn : c.peer = n) (first count : ℕ) {E : Unit → Client ℕ → Prop} :
    Sat (loadShared first count) c
      (fun bytes c' => bytes = slice c.shared first count ∧ c'.peer = n) E := by
  have hlog : Sat (log (.fromShared first count)) c
      (fun _ c' => c'.shared = c.shared ∧ c'.peer = n) E := Sat.modify ⟨rfl, hn⟩
  simp only [loadShared]
  refine Sat.bind hlog ?_
  intro _ c' hc
  apply Sat.get_bind
  exact Sat.pure ⟨by rw [hc.1], hc.2⟩

theorem sat_callShm_scripted {view : SharedMemory} (hn : c.peer = n)
    (hpass : ulong (q.requestDataSize + headerSize) ≤ view.size)
    (hback : ∀ size, q.responseBufferSize = some size → headerSize + size ≤ view.size) :
    Sat (callShm (scripted answers) view q) c
      (fun r c => q.Good (.shm view) (answers n) r ∧ c.peer = n + 1)
      fun _ _ => ∀ r, ¬ q.Good (.shm view) (answers n) r := by
  have hcheck : ¬ (headerSize < requestSize ∨ headerSize < responseSize ∨
      view.size < ulong (q.requestDataSize + headerSize)) := by
    simp only [headerSize, requestSize, responseSize] at hpass ⊢
    omega
  simp only [callShm, hcheck, if_false]
  refine Sat.bind (sat_storeShared_scripted hn _ _) ?_
  intro _ c hn
  apply Sat.get_bind
  split
  case' isTrue =>
    refine Sat.bind (sat_storeShared_scripted hn _ _) ?_
    intro _ c hn
  all_goals
    have hexchange : Sat (exchange (scripted answers) q.request) c
        (fun _ c => (answers n).shared = some c.shared ∧ c.peer = n + 1)
        fun _ _ => ∀ r, ¬ q.Good (.shm view) (answers n) r := by
      refine (sat_exchange_scripted hn _).mono (fun _ _ h => h) ?_
      intro _ _ hnone r hgood
      have hresponse := hgood.response
      simp [Answer.response, hnone] at hresponse
    refine Sat.bind hexchange ?_
    intro _ c hc
    have hresponse : (answers n).response (.shm view) =
        some (Response.ofBytes (slice c.shared 0 responseSize)) := by
      simp [Answer.response, hc.1]
    refine Sat.bind (sat_loadShared_scripted hc.2 _ _) ?_
    intro header c' hc'
    obtain ⟨rfl, hn⟩ := hc'
    generalize Response.ofBytes (slice c.shared 0 responseSize) = r at hresponse ⊢
    have hgood (hle : ∀ size, q.responseBufferSize = some size → ulong r.length ≤ size) :
        q.Good (.shm view) (answers n) r :=
      ⟨hresponse, hle, fun _ _ hdevice => by simp at hdevice⟩
    split
    · rename_i hnone
      exact Sat.pure ⟨hgood (by simp [hnone]), hn⟩
    · rename_i size hsome
      have hle (h : ulong r.length ≤ size) (m : ℕ) (hm : q.responseBufferSize = some m) :
          ulong r.length ≤ m := by
        obtain rfl := Option.some.inj (hsome.symm.trans hm)
        exact h
      split
      · split
        · rename_i hbad
          refine Sat.throw ?_
          intro r' h
          obtain rfl : r' = r := Option.some.inj (h.response.symm.trans hresponse)
          have hbound := h.bound size hsome
          have hroom := hback size hsome
          have hmod := Nat.mod_le (ulong r'.length + headerSize) (2 ^ 32)
          simp only [ulong] at *
          omega
        · refine Sat.bind (sat_loadShared_scripted hn _ _) ?_
          intro bytes c' hc'
          apply Sat.modify_bind
          have hlog : Sat (log (.stored q.position bytes.length))
              { c' with buffer := place c'.buffer q.position bytes }
              (fun _ c => c.peer = n + 1) fun _ _ => ∀ r, ¬ q.Good (.shm view) (answers n) r :=
            Sat.modify hc'.2
          refine Sat.bind hlog ?_
          intro _ c hn
          exact Sat.pure ⟨hgood (hle (by omega)), hn⟩
      · exact Sat.pure ⟨hgood (hle (by omega)), hn⟩

theorem Wide.device : Wide .device := by simp [Wide]

theorem wide_shm {view : SharedMemory} : Wide (.shm view) ↔ headerSize ≤ view.size := by
  refine ⟨fun h => h view rfl, ?_⟩
  intro h v hv
  obtain rfl := Connection.shm.inj hv
  exact h

/-- A section without room for a header fails the check. -/
theorem sat_callShm_narrow {peer : Peer ℕ} {view : SharedMemory}
    (h : view.size < ulong (q.requestDataSize + headerSize)) :
    Sat (callShm peer view q) c (fun _ _ => False) fun _ _ => True := by
  have hcheck : headerSize < requestSize ∨ headerSize < responseSize ∨
      view.size < ulong (q.requestDataSize + headerSize) := .inr (.inr h)
  simp only [callShm, hcheck, if_true]
  exact Sat.throw trivial

theorem sat_readCall_scripted {done : ℕ} (hn : c.peer = n) :
    Sat (imDiskCallProxy (scripted answers) k (readCall k t done)) c
      (fun r c => (Wide k ∧ (readCall k t done).Good k (answers n) r) ∧ c.peer = n + 1)
      fun _ _ => ∀ r, ¬ (Wide k ∧ (readCall k t done).Good k (answers n) r) := by
  have hzero : (readCall k t done).requestDataSize = 0 := rfl
  cases k with
  | device =>
      have hsize : ulong (requestSize + (readCall .device t done).requestDataSize) ≠ 0 := by
        simp [hzero, requestSize, ulong]
      refine (sat_callDevice_scripted hn hsize).mono ?_ ?_
      · intro r c h
        exact ⟨⟨Wide.device, h.1⟩, h.2⟩
      · intro _ _ h r hgood
        exact h r hgood.2
  | shm view =>
      have hcheck : ulong ((readCall (.shm view) t done).requestDataSize + headerSize) =
          headerSize := by
        rw [hzero, Nat.zero_add, ulong_of_lt (by simp [headerSize])]
      by_cases hwide : headerSize ≤ view.size
      · have hpass := hwide
        rw [← hcheck] at hpass
        refine (sat_callShm_scripted hn hpass ?_).mono ?_ ?_
        · intro size hsize
          obtain rfl := Option.some.inj hsize
          have hle := Nat.min_le_right (t.length - done) (maxTransferSize t (.shm view))
          rw [ulong_nextRequest]
          rw [maxTransferSize_shm hwide] at hle
          simp only [nextRequest, maxTransferSize_shm hwide]
          omega
        · intro r c h
          exact ⟨⟨wide_shm.mpr hwide, h.1⟩, h.2⟩
        · intro _ _ h r hgood
          exact h r hgood.2
      · refine (sat_callShm_narrow (by omega)).mono (fun _ _ h => h.elim) ?_
        intro _ _ _ r hgood
        exact hwide (wide_shm.mp hgood.1)

/-- A read goes on behind an answer: it has come in full, it is no error and no end, and it is not
longer than a request can be. -/
structure Answer.GoesOn (k : Connection) (t : Transfer) (a : Answer) : Prop where
  wide : Wide k
  response : ∃ r, a.response k = some r ∧ r.errorno = 0 ∧ r.length ≠ 0
  bound : a.low k ≤ maxTransferSize t k
  complete : a.Complete k

theorem readPass_more {done d : ℕ} (hn : c.peer = n) (hd : done < t.length)
    (h : (readPass (scripted answers) k t done c).1 = .more d) :
    (answers n).GoesOn k t ∧ d = done + (answers n).low k ∧
      (readPass (scripted answers) k t done c).2.peer = n + 1 := by
  have hsat : Sat (imDiskCallProxy (scripted answers) k (readCall k t done)) c
      (fun r c => (Wide k ∧ (readCall k t done).Good k (answers n) r) ∧ c.peer = n + 1)
      fun _ _ => ∀ r, ¬ (Wide k ∧ (readCall k t done).Good k (answers n) r) :=
    sat_readCall_scripted hn
  simp only [readPass] at h ⊢
  split at h
  · simp at h
  · rename_i r c' hx
    obtain ⟨⟨hwide, hgood⟩, hpeer⟩ := hsat.ok hx
    have hlow := Answer.low_of_response hgood.response
    have hbound := hgood.bound _ rfl
    rw [ulong_nextRequest] at hbound
    have hsum : ulong (done + ulong r.length) = done + ulong r.length := by
      refine ulong_of_lt ?_
      have := t.length_lt
      have := Nat.min_le_left (t.length - done) (maxTransferSize t k)
      simp only [nextRequest] at hbound
      omega
    rw [hsum] at h
    split at h
    · simp at h
    · rename_i herrorno
      split at h
      · simp at h
      · rename_i hlength
        rw [if_neg herrorno, if_neg hlength]
        obtain rfl := Pass.more.inj h
        refine ⟨⟨hwide, ⟨r, hgood.response, not_not.mp herrorno, hlength⟩, ?_,
          hgood.complete _ rfl⟩, by rw [hlow], hpeer⟩
        rw [hlow]
        exact hbound.trans (Nat.min_le_right _ _)

theorem readPass_of_goesOn {done : ℕ} (hn : c.peer = n) (h : (answers n).GoesOn k t)
    (hfit : done + (answers n).low k ≤ t.length) :
    (readPass (scripted answers) k t done c).1 = .more (done + (answers n).low k) := by
  obtain ⟨r, hresponse, herrorno, hlength⟩ := h.response
  have hlow := Answer.low_of_response hresponse
  have hgood : (readCall k t done).Good k (answers n) r := by
    refine ⟨hresponse, ?_, fun _ _ => h.complete⟩
    intro size hsize
    obtain rfl := Option.some.inj hsize
    rw [ulong_nextRequest, ← hlow]
    exact le_min (by omega) h.bound
  have hsat : Sat (imDiskCallProxy (scripted answers) k (readCall k t done)) c
      (fun r c => (Wide k ∧ (readCall k t done).Good k (answers n) r) ∧ c.peer = n + 1)
      fun _ _ => ∀ r, ¬ (Wide k ∧ (readCall k t done).Good k (answers n) r) :=
    sat_readCall_scripted hn
  simp only [readPass]
  split
  · rename_i hx
    exact absurd ⟨h.wide, hgood⟩ (hsat.error hx r)
  · rename_i r' c' hx
    obtain ⟨⟨-, hgood'⟩, -⟩ := hsat.ok hx
    obtain rfl : r' = r := Option.some.inj (hgood'.response.symm.trans hresponse)
    rw [if_neg (by simpa using herrorno), if_neg hlength, hlow,
      ulong_of_lt (by have := t.length_lt; omega)]

/-- What the first `n` answers announce. -/
def announced (k : Connection) (answers : ℕ → Answer) (n : ℕ) : ℕ :=
  ((List.range n).map fun i => (answers i).low k).sum

@[simp] theorem announced_succ (n : ℕ) :
    announced k answers (n + 1) = announced k answers n + (answers n).low k := by
  simp [announced, List.range_succ]

theorem announced_le {m : ℕ} (h : n ≤ m) : announced k answers n ≤ announced k answers m := by
  induction h with
  | refl => exact le_rfl
  | step _ ih =>
      rw [announced_succ]
      exact ih.trans (Nat.le_add_right _ _)

/-- A read that has not ended after so many passes. -/
theorem transfer_eq_none_iff (fuel : ℕ) (hn : c.peer = n) :
    (transfer (readPass (scripted answers) k t) t.length fuel (announced k answers n) c).1 = none ↔
      (∀ i, n ≤ i → i < n + fuel → (answers i).GoesOn k t) ∧
        announced k answers (n + fuel) < t.length := by
  induction fuel generalizing n c with
  | zero =>
      simp only [transfer, Nat.add_zero]
      split
      · rename_i hlt
        exact ⟨fun _ => ⟨fun i hi hi' => by omega, hlt⟩, fun _ => rfl⟩
      · rename_i hnot
        exact ⟨fun h => by simp at h, fun h => absurd h.2 hnot⟩
  | succ fuel ih =>
      have hstep : n + (fuel + 1) = n + 1 + fuel := by omega
      by_cases hlt : announced k answers n < t.length
      · simp only [transfer, hlt, if_true]
        have hpass : readPass (scripted answers) k t (announced k answers n) c =
            ((readPass (scripted answers) k t (announced k answers n) c).1,
              (readPass (scripted answers) k t (announced k answers n) c).2) := rfl
        cases hx : (readPass (scripted answers) k t (announced k answers n) c).1 with
        | more d =>
            obtain ⟨hgoes, rfl, hpeer⟩ := readPass_more hn hlt hx
            rw [hx] at hpass
            rw [hpass]
            dsimp only
            rw [← announced_succ, ih hpeer, hstep]
            refine and_congr_left fun _ => ⟨?_, ?_⟩
            · intro hrest i hi hi'
              rcases Nat.eq_or_lt_of_le hi with rfl | hgt
              · exact hgoes
              · exact hrest i hgt hi'
            · intro hall i hi hi'
              exact hall i (by omega) hi'
        | stop status =>
            rw [hx] at hpass
            rw [hpass]
            refine ⟨fun h => by simp at h, ?_⟩
            intro h
            have hle : announced k answers (n + 1) ≤ announced k answers (n + (fuel + 1)) :=
              announced_le (by omega)
            rw [announced_succ] at hle
            have hfit : announced k answers n + (answers n).low k ≤ t.length := by omega
            have hmore := readPass_of_goesOn hn (h.1 n le_rfl (by omega)) hfit
            rw [hx] at hmore
            simp at hmore
      · simp only [transfer, hlt, if_false]
        refine ⟨fun h => by simp at h, ?_⟩
        intro h
        have hle : announced k answers n ≤ announced k answers (n + (fuel + 1)) :=
          announced_le (by omega)
        omega

/-! ## Writes that end -/

theorem writePass_more {peer : Peer ℕ} {done d : ℕ}
    (h : (writePass peer k t done c).1 = .more d) (hd : done ≤ t.length) :
    d = done + (nextRequest reqWrite k t done).length := by
  have hlen := (nextRequest_fits reqWrite (k := k) hd).2
  simp only [writePass] at h
  split at h
  · simp at h
  · split at h
    · simp at h
    · split at h
      · simp at h
      · obtain rfl := Pass.more.inj h
        rw [ulong_nextRequest, ulong_of_lt (by have := t.length_lt; omega)]

/-- A loop whose passes all make progress ends. -/
theorem transfer_ne_none {pass : ℕ → Client ℕ → Pass × Client ℕ} {length : ℕ}
    (hpass : ∀ done c d, done < length → (pass done c).1 = .more d → done < d) (fuel done : ℕ)
    (hfuel : length ≤ done + fuel) : (transfer pass length fuel done c).1 ≠ none := by
  induction fuel generalizing done c with
  | zero =>
      have hend : ¬ done < length := by omega
      simp [transfer, hend]
  | succ fuel ih =>
      simp only [transfer]
      split
      · rename_i hlt
        split
        · rename_i d c' hx
          have := hpass done c d hlt (by rw [hx])
          exact ih d (by omega)
        · simp
      · simp

/-- The server acknowledges a write of nothing. -/
def Answer.Echoes (k : Connection) (a : Answer) : Prop :=
  ∃ r, a.response k = some r ∧ r.errorno = 0 ∧ r.length = 0

theorem writePass_nothing {view : SharedMemory} (hsize : view.size = headerSize)
    (hn : c.peer = n) :
    ((writePass (scripted answers) (.shm view) t 0 c).1 = .more 0 ∧
        (writePass (scripted answers) (.shm view) t 0 c).2.peer = n + 1 ∧
        (answers n).Echoes (.shm view)) ∨
      (∃ status, (writePass (scripted answers) (.shm view) t 0 c).1 = .stop status) ∧
        ¬ (answers n).Echoes (.shm view) := by
  have hmax : maxTransferSize t (.shm view) = 0 := by
    rw [maxTransferSize_shm hsize.ge, hsize, Nat.sub_self]
  have hlen : (nextRequest reqWrite (.shm view) t 0).length = 0 := by
    simp [nextRequest, hmax]
  have hdata : (writeCall (.shm view) t 0).requestDataSize = 0 := by
    simp [writeCall, hlen, ulong]
  have hcheck : ulong ((writeCall (.shm view) t 0).requestDataSize + headerSize) ≤ view.size := by
    rw [hdata, Nat.zero_add, ulong_of_lt (by simp [headerSize]), hsize]
  have hsat : Sat (imDiskCallProxy (scripted answers) (.shm view) (writeCall (.shm view) t 0)) c
      (fun r c => (writeCall (.shm view) t 0).Good (.shm view) (answers n) r ∧ c.peer = n + 1)
      fun _ _ => ∀ r, ¬ (writeCall (.shm view) t 0).Good (.shm view) (answers n) r :=
    sat_callShm_scripted hn hcheck (by simp [writeCall])
  simp only [writePass, hlen]
  split
  · rename_i hx
    refine .inr ⟨⟨_, rfl⟩, ?_⟩
    rintro ⟨r, hresponse, -⟩
    exact hsat.error hx r ⟨hresponse, by simp [writeCall], by simp [writeCall]⟩
  · rename_i r c' hx
    obtain ⟨hgood, hpeer⟩ := hsat.ok hx
    have hsame (h : (answers n).Echoes (.shm view)) : r.errorno = 0 ∧ r.length = 0 := by
      obtain ⟨r', hresponse, hzero⟩ := h
      obtain rfl : r = r' := Option.some.inj (hgood.response.symm.trans hresponse)
      exact hzero
    split
    · rename_i herrorno
      exact .inr ⟨⟨_, rfl⟩, fun h => herrorno (hsame h).1⟩
    · rename_i herrorno
      split
      · rename_i hlength
        exact .inr ⟨⟨_, rfl⟩, fun h => hlength (hsame h).2⟩
      · rename_i hlength
        refine .inl ⟨by simp [ulong], hpeer, r, hgood.response, not_not.mp herrorno,
          not_not.mp hlength⟩

/-- A write through a section that only has room for the header. -/
theorem transfer_write_eq_none_iff {view : SharedMemory} (hsize : view.size = headerSize)
    (hn : c.peer = n) (fuel : ℕ) :
    (transfer (writePass (scripted answers) (.shm view) t) t.length fuel 0 c).1 = none ↔
      0 < t.length ∧ ∀ i, n ≤ i → i < n + fuel → (answers i).Echoes (.shm view) := by
  induction fuel generalizing n c with
  | zero =>
      simp only [transfer]
      split
      · rename_i hlt
        exact ⟨fun _ => ⟨hlt, fun i hi hi' => by omega⟩, fun _ => rfl⟩
      · rename_i hnot
        exact ⟨fun h => by simp at h, fun h => absurd h.1 hnot⟩
  | succ fuel ih =>
      by_cases hlt : 0 < t.length
      · simp only [transfer, hlt, if_true, true_and]
        have hpass : writePass (scripted answers) (.shm view) t 0 c =
            ((writePass (scripted answers) (.shm view) t 0 c).1,
              (writePass (scripted answers) (.shm view) t 0 c).2) := rfl
        have hcases : (_ ∧ _ ∧ (answers n).Echoes (.shm view)) ∨ _ ∧ ¬ (answers n).Echoes _ :=
          writePass_nothing (t := t) hsize hn
        rcases hcases with ⟨hx, hpeer, hecho⟩ | ⟨⟨status, hx⟩, hno⟩
        · rw [hx] at hpass
          rw [hpass]
          dsimp only
          rw [ih hpeer]
          refine ⟨?_, ?_⟩
          · intro hrest i hi hi'
            rcases Nat.eq_or_lt_of_le hi with rfl | hgt
            · exact hecho
            · exact hrest.2 i hgt (by omega)
          · intro hall
            exact ⟨hlt, fun i hi hi' => hall i (by omega) (by omega)⟩
        · rw [hx] at hpass
          rw [hpass]
          exact ⟨fun h => by simp at h, fun h => absurd (h n le_rfl (by omega)) hno⟩
      · simp [transfer, hlt]

end Scripted

/-! ## The promise -/

/-- A transfer with what is in the buffer and in the section, and the answers of the server. -/
structure Session where
  connection : Connection
  transfer : Transfer
  buffer : ℕ → UInt8
  shared : ℕ → UInt8
  answers : ℕ → Answer

namespace Session

variable (s : Session)

def client : Client ℕ where
  peer := 0
  buffer := s.buffer
  shared := s.shared
  trace := []

def read (fuel : ℕ) : Option IoStatus × Client ℕ :=
  imDiskReadProxy (scripted s.answers) s.connection s.transfer fuel s.client

def write (fuel : ℕ) : Option IoStatus × Client ℕ :=
  imDiskWriteProxy (scripted s.answers) s.connection s.transfer fuel s.client

/-- A read sends at most one request more than it has bytes and ends, reports no more than fits,
and its requests and data are where they belong. -/
structure ReadSafe : Prop where
  ends : ∃ status, (s.read (s.transfer.length + 1)).1 = some status ∧
    status.information ≤ s.transfer.length
  orderly : ∀ fuel, Orderly s.connection s.transfer 0 (s.read fuel).2.trace

/-- And a write that is reported as a success was acknowledged to its end. -/
structure WriteSafe : Prop where
  ends : ∃ status, (s.write (s.transfer.length + 1)).1 = some status ∧
    status.information ≤ s.transfer.length ∧
    (status.success → Acknowledged s.transfer.length (s.write (s.transfer.length + 1)).2.trace)
  orderly : ∀ fuel, Orderly s.connection s.transfer 0 (s.write fuel).2.trace

/-- Not each of the first answers lets the read go on, or their lengths as the client sees them
come to the length of the read. -/
def ReadEnds : Prop :=
  ¬ ((∀ i ≤ s.transfer.length, (s.answers i).GoesOn s.connection s.transfer) ∧
    announced s.connection s.answers (s.transfer.length + 1) < s.transfer.length)

/-- A section without room for the header fails the check of the sizes, and through one that has
only room for the header the server does not acknowledge nothing again and again. -/
def WriteFits : Prop :=
  ∀ view, s.connection = .shm view →
    (view.size < headerSize → view.size <
      ulong (min s.transfer.length (maxTransferSize s.transfer s.connection) + headerSize)) ∧
    (view.size = headerSize → ¬ (0 < s.transfer.length ∧
      ∀ i ≤ s.transfer.length, (s.answers i).Echoes s.connection))

theorem at_client : At s.connection s.transfer 0 s.client := ⟨trivial, rfl⟩

theorem read_ok (fuel : ℕ) :
    (∃ p, At s.connection s.transfer p (s.read fuel).2) ∧
      ∀ status, (s.read fuel).1 = some status → status.information ≤ s.transfer.length :=
  transfer_ok (fun _ _ h hd _ => readPass_ok h hd) fuel s.at_client (Nat.zero_le _) (.inl rfl)

theorem readSafe_iff : s.ReadSafe ↔ s.ReadEnds := by
  have hnone : (s.read (s.transfer.length + 1)).1 = none ↔
      (∀ i ≤ s.transfer.length, (s.answers i).GoesOn s.connection s.transfer) ∧
        announced s.connection s.answers (s.transfer.length + 1) < s.transfer.length := by
    have hstart : s.client.peer = 0 := rfl
    have hiff : (s.read (s.transfer.length + 1)).1 = none ↔ _ :=
      transfer_eq_none_iff (s.transfer.length + 1) hstart
    rw [Nat.zero_add] at hiff
    refine hiff.trans (and_congr_left fun _ => ?_)
    exact ⟨fun h i hi => h i (Nat.zero_le i) (by omega), fun h i _ hi => h i (by omega)⟩
  rw [ReadEnds, ← hnone]
  refine ⟨?_, ?_⟩
  · intro h hx
    obtain ⟨status, hsome, -⟩ := h.ends
    simp [hx] at hsome
  · intro h
    obtain ⟨status, hsome⟩ := Option.ne_none_iff_exists'.mp h
    refine ⟨⟨status, hsome, (s.read_ok _).2 status hsome⟩, ?_⟩
    intro fuel
    obtain ⟨p, hat⟩ := (s.read_ok fuel).1
    exact hat.1

/-- The check of the sizes is right whenever a write gets to it. -/
theorem roomy_write (h : s.WriteFits) {done : ℕ} (hdone : done = 0 ∨ Wide s.connection) :
    Roomy s.connection (writeCall s.connection s.transfer done) := by
  intro view hview hpass
  have hdata : (writeCall s.connection s.transfer done).requestDataSize =
      (nextRequest reqWrite s.connection s.transfer done).length := ulong_nextRequest reqWrite
  rw [hdata] at hpass ⊢
  by_cases hwide : headerSize ≤ view.size
  · have hle := Nat.min_le_right (s.transfer.length - done) (maxTransferSize s.transfer s.connection)
    rw [hview, maxTransferSize_shm hwide] at hle
    simp only [nextRequest, hview, maxTransferSize_shm hwide]
    omega
  · have hzero : done = 0 := by
      rcases hdone with h | h
      · exact h
      · exact absurd (h view hview) hwide
    have hcheck := (h view hview).1 (by omega)
    simp only [nextRequest, hzero, Nat.sub_zero] at hpass
    omega

theorem write_ok (h : s.WriteFits) (fuel : ℕ) :
    (∃ p, At s.connection s.transfer p (s.write fuel).2) ∧
      ∀ status, (s.write fuel).1 = some status → status.information ≤ s.transfer.length :=
  transfer_ok (fun _ _ hat hd hdone => writePass_ok hat hd (s.roomy_write h hdone)) fuel s.at_client
    (Nat.zero_le _) (.inl rfl)

/-- Where requests are not empty each of them makes progress. -/
theorem write_ne_none (h : ∀ view, s.connection = .shm view → view.size ≠ headerSize) :
    (s.write (s.transfer.length + 1)).1 ≠ none := by
  refine transfer_ne_none ?_ _ 0 (by omega)
  intro done c d hlt hmore
  obtain rfl := writePass_more hmore hlt.le
  have hmax : 0 < maxTransferSize s.transfer s.connection := by
    cases hk : s.connection with
    | device => exact (Nat.zero_le done).trans_lt hlt
    | shm view =>
        have hne := h view hk
        have hfits := view.fits
        rcases Nat.lt_or_ge view.size headerSize with hsmall | hwide
        · have hpow : 2 ^ 32 ≤ 2 ^ view.pointerBits := Nat.pow_le_pow_right (by decide) view.wide
          have hheader : headerSize = 4096 := by simp [headerSize]
          rw [maxTransferSize, Nat.mod_eq_of_lt (by omega)]
          omega
        · rw [maxTransferSize_shm hwide]
          omega
  have hpos : 0 < min (s.transfer.length - done) (maxTransferSize s.transfer s.connection) :=
    lt_min (by omega) hmax
  simp only [nextRequest]
  omega

/-- A copy of the request data that the section has no room for stays in the log. -/
theorem not_orderly_write {view : SharedMemory} (hview : s.connection = .shm view)
    (hsmall : view.size < headerSize)
    (hpass : ulong (min s.transfer.length (maxTransferSize s.transfer s.connection) + headerSize) ≤
      view.size) :
    ¬ Orderly s.connection s.transfer 0 (s.write (s.transfer.length + 1)).2.trace := by
  have hheader : headerSize = 4096 := by simp [headerSize]
  have hlt := s.transfer.length_lt
  let q := writeCall s.connection s.transfer 0
  have hdata : q.requestDataSize =
      min s.transfer.length (maxTransferSize s.transfer s.connection) := ulong_nextRequest reqWrite
  rw [← hdata] at hpass
  have hpos : 0 < q.requestDataSize := by
    by_contra hzero
    rw [Nat.eq_zero_of_not_pos hzero, Nat.zero_add, ulong_of_lt (by omega)] at hpass
    omega
  have hlength : 0 < s.transfer.length := by
    have := Nat.min_le_left s.transfer.length (maxTransferSize s.transfer s.connection)
    omega
  have hcheck : ¬ (headerSize < requestSize ∨ headerSize < responseSize ∨
      view.size < ulong (q.requestDataSize + headerSize)) := by
    simp only [requestSize, responseSize]
    omega
  let es : List Event := [.toShared 0 q.request.bytes.length]
  let e : Event := .toShared headerSize q.requestDataSize
  have hcall : Sat (callShm (scripted s.answers) view q) s.client
      (fun _ c => Behind (es ++ [e]) c) fun _ c => Behind (es ++ [e]) c := by
    have hfirst : Sat (storeShared (σ := ℕ) 0 q.request.bytes) s.client (fun _ c => c.trace = es)
        fun _ c => Behind (es ++ [e]) c := rfl
    simp only [callShm, hcheck, if_false]
    refine Sat.bind hfirst ?_
    intro _ c hc
    apply Sat.get_bind
    rw [if_pos hpos]
    have hsecond : Sat (storeShared headerSize (slice c.buffer q.position q.requestDataSize)) c
        (fun _ c => Behind (es ++ [e]) c) fun _ c => Behind (es ++ [e]) c := by
      have htrace : es ++ [e] <+:
          c.trace ++ [.toShared headerSize (slice c.buffer q.position q.requestDataSize).length] := by
        rw [hc, length_slice]
      exact htrace
    exact Sat.bind hsecond fun _ c hc => behind_answer hc view
  have hpassed : Behind (es ++ [e])
      (writePass (scripted s.answers) s.connection s.transfer 0 s.client).2 := by
    have hproxy : Sat (imDiskCallProxy (scripted s.answers) s.connection q) s.client
        (fun _ c => Behind (es ++ [e]) c) fun _ c => Behind (es ++ [e]) c := by
      rw [hview]
      exact hcall
    exact behind_of_call hproxy
  have hall : Behind (es ++ [e]) (s.write (s.transfer.length + 1)).2 := by
    simp only [write, imDiskWriteProxy, Proxy.transfer, hlength, if_true]
    split
    · rename_i hx
      rw [hx] at hpassed
      exact behind_transfer (fun done c hc => behind_writePass hc done) _ _ hpassed
    · rename_i hx
      rw [hx] at hpassed
      exact hpassed
  intro horder
  have hroom : headerSize + q.requestDataSize ≤ view.size := horder.fits hall view hview
  omega

theorem write_eq_none_iff {view : SharedMemory} (hview : s.connection = .shm view)
    (hsize : view.size = headerSize) :
    (s.write (s.transfer.length + 1)).1 = none ↔
      0 < s.transfer.length ∧ ∀ i ≤ s.transfer.length, (s.answers i).Echoes s.connection := by
  have hstart : s.client.peer = 0 := rfl
  have hiff : _ ↔ 0 < s.transfer.length ∧ ∀ i, 0 ≤ i → i < 0 + (s.transfer.length + 1) →
      (s.answers i).Echoes (.shm view) :=
    transfer_write_eq_none_iff hsize hstart (s.transfer.length + 1)
  rw [write, imDiskWriteProxy, hview]
  refine hiff.trans (and_congr_right fun _ => ?_)
  exact ⟨fun h i hi => h i (Nat.zero_le i) (by omega), fun h i _ hi => h i (by omega)⟩

theorem writeSafe_iff : s.WriteSafe ↔ s.WriteFits := by
  refine ⟨?_, ?_⟩
  · intro h view hview
    refine ⟨?_, ?_⟩
    · intro hsmall
      by_contra hpass
      exact s.not_orderly_write hview hsmall (by omega) (h.orderly _)
    · intro hsize hstall
      obtain ⟨status, hsome, -⟩ := h.ends
      rw [(s.write_eq_none_iff hview hsize).mpr hstall] at hsome
      simp at hsome
  · intro h
    have hne : (s.write (s.transfer.length + 1)).1 ≠ none := by
      by_cases hsize : ∃ view, s.connection = .shm view ∧ view.size = headerSize
      · obtain ⟨view, hview, hsize⟩ := hsize
        intro hnone
        exact (h view hview).2 hsize ((s.write_eq_none_iff hview hsize).mp hnone)
      · exact s.write_ne_none fun view hview hsame => hsize ⟨view, hview, hsame⟩
    obtain ⟨status, hsome⟩ := Option.ne_none_iff_exists'.mp hne
    refine ⟨⟨status, hsome, (s.write_ok h _).2 status hsome, ?_⟩, ?_⟩
    · intro hsuccess
      have hstart : Acknowledged 0 s.client.trace := fun i hi => by omega
      exact acknowledged_transfer _ hstart (Nat.zero_le _) hsome hsuccess
    · intro fuel
      obtain ⟨p, hat⟩ := (s.write_ok h fuel).1
      exact hat.1

end Session

/-- **The proxy client is safe** exactly when the answers to a read add up or end it, and the
section of a write has room behind its header. -/
theorem proxySafe_iff (s : Session) :
    (s.ReadSafe ↔ s.ReadEnds) ∧ (s.WriteSafe ↔ s.WriteFits) :=
  ⟨s.readSafe_iff, s.writeSafe_iff⟩

/-! ## Concrete servers -/

/-- A server that says of every request that all went well, with the same length. -/
def sameAnswer (length : ℕ) : Answer where
  sent := true
  header := Response.bytes ⟨0, length⟩
  data := []
  shared := some (place (fun _ => 0) 0 (Response.bytes ⟨0, length⟩))

/-- One byte, with answers of four gigabytes. -/
def endlessRead : Session where
  connection := .device
  transfer := ⟨1, 0, by decide⟩
  buffer := fun _ => 0
  shared := fun _ => 0
  answers := fun _ => sameAnswer (2 ^ 32)

/-- A transfer to offset zero through a section of a 64-bit system. -/
def shmSession (size length : ℕ) (hsize : size < 2 ^ 64) (hlength : length < 2 ^ 32) : Session where
  connection := .shm ⟨64, size, by decide, hsize⟩
  transfer := ⟨length, 0, hlength⟩
  buffer := fun _ => 0
  shared := fun _ => 0
  answers := fun _ => sameAnswer 0

/-- **A length of four gigabytes keeps a read going for ever, an acknowledged write of nothing a
write through a section of one page, and a write of nearly four gigabytes goes past the end of a
section that is smaller.** -/
theorem not_proxySafe_fourGigabytes :
    ¬ endlessRead.ReadSafe ∧
      ¬ (shmSession 4096 1 (by decide) (by decide)).WriteSafe ∧
      ¬ (shmSession 0 (2 ^ 32 - 4096) (by decide) (by decide)).WriteSafe := by
  refine ⟨?_, ?_, ?_⟩
  · intro h
    obtain ⟨status, hsome, -⟩ := h.ends
    have hnone : (endlessRead.read 2).1 = none := by decide +kernel
    have htwo : (endlessRead.read 2).1 = some status := hsome
    rw [hnone] at htwo
    simp at htwo
  · intro h
    obtain ⟨status, hsome, -⟩ := h.ends
    have hnone : ((shmSession 4096 1 (by decide) (by decide)).write 2).1 = none := by decide +kernel
    have htwo : ((shmSession 4096 1 (by decide) (by decide)).write 2).1 = some status := hsome
    rw [hnone] at htwo
    simp at htwo
  · rw [Session.writeSafe_iff]
    intro h
    have hcheck := (h _ rfl).1 (by simp [headerSize])
    simp [shmSession, maxTransferSize, headerSize, ulong] at hcheck

end KernelDrivers.ImDisk.Proxy
