import KernelDrivers.ImDisk.Parallel
import KernelDrivers.Lib.Reach

/-!
# Runs of a device with parallel I/O

The bytes of the image are as recent as every write that was executed, those of the last-I/O
buffer as recent as every write that has put its buffer in place or is completed.

## Main definitions

* `Good` — a byte is a byte of its write, and no write that counts is newer than it.
* `Device.Inv` — the image, the buffers of the requests and the last-I/O buffer hold good bytes.
* `Orderly` — the condition on each event.

## Main results

* `notStale_of_reach` — in every orderly run no read returns stale bytes.
* `not_notStale_lateInstall` — a read that was executed before a write, and is completed after it,
  leaves old bytes behind for the next read.
-/

namespace KernelDrivers.ImDisk.Parallel

open LastIo (Transfer)

variable {rs : List Request} {i j x : ℕ} {r r' q : Request} {c : Cell}

/-! ### Bytes that are recent enough -/

/-- The byte comes from a write that had not completed when `r` was dispatched. -/
def Request.Admits (r : Request) (c : Cell) : Prop := ∃ j, c.writer = some j ∧ r.before j = false

/-- The byte at `x` is one that its writer had there. -/
def Genuine (rs : List Request) (x : ℕ) (c : Cell) : Prop :=
  ∀ j, c.writer = some j → ∃ b, rs[j]? = some b ∧ b.transfer.direction = .write ∧
    b.transfer.offset ≤ x ∧ x < b.transfer.offset + b.transfer.length ∧
    c.value = b.transfer.data (x - b.transfer.offset)

/-- A genuine byte that is not older than any of the requests of a class. -/
def Good (P : ℕ → Request → Prop) (rs : List Request) (x : ℕ) (c : Cell) : Prop :=
  Genuine rs x c ∧ ∀ i r, rs[i]? = some r → P i r → r.Covers x → r.Admits c

/-- A write that the image has taken. -/
def Stored (_ : ℕ) (r : Request) : Prop := r.transfer.direction = .write ∧ r.outcome ≠ none

def StoredBy (time : ℕ) (i : ℕ) (r : Request) : Prop := Stored i r ∧ r.executedAt ≤ time

/-- A write that is completed, or that has put its buffer in place. -/
def Landed (i : ℕ) (r : Request) : Prop :=
  Stored i r ∧ (r.stage = .installed ∨ r.stage = .filled ∨ r.stage = .completed)

/-- A write that had completed when `q` was dispatched. -/
def Known (q : Request) (i : ℕ) (r : Request) : Prop := q.before i = true ∧ Stored i r

namespace Good

variable {P Q : ℕ → Request → Prop}

theorem mono (h : Good P rs x c) (hPQ : ∀ i r, rs[i]? = some r → Q i r → r.Covers x → P i r) :
    Good Q rs x c :=
  ⟨h.1, fun i r hi hQ hx => h.2 i r hi (hPQ i r hi hQ hx) hx⟩

/-- One request is replaced. -/
theorem set (h : Good P rs x c) (hi : rs[i]? = some r) (ht : r'.transfer = r.transfer)
    (hnew : P i r' → r'.Covers x → r'.Admits c) : Good P (rs.set i r') x c := by
  have hlt := (List.getElem?_eq_some_iff.mp hi).1
  refine ⟨fun j hj => ?_, fun j q hj hP hx => ?_⟩
  · obtain ⟨b, hb, hgenuine⟩ := h.1 j hj
    by_cases hij : i = j
    · subst hij
      rw [hi] at hb
      cases hb
      refine ⟨r', by simp [hlt], ?_⟩
      rw [ht]
      exact hgenuine
    · exact ⟨b, by rw [List.getElem?_set_ne hij]; exact hb, hgenuine⟩
  · by_cases hij : i = j
    · subst hij
      rw [List.getElem?_set_self hlt] at hj
      cases hj
      exact hnew hP hx
    · rw [List.getElem?_set_ne hij] at hj
      exact h.2 j q hj hP hx

/-- One request moves on without a change of what it has stored. -/
theorem move (h : Good P rs x c) (hi : rs[i]? = some r) (ht : r'.transfer = r.transfer)
    (hb : r'.before = r.before) (hP : P i r' → P i r ∧ r'.outcome = r.outcome) :
    Good P (rs.set i r') x c := by
  refine h.set hi ht fun hnew hx => ?_
  obtain ⟨hold, ho⟩ := hP hnew
  obtain ⟨j, hj, hbefore⟩ := h.2 i r hi hold (by rwa [Request.Covers, Request.count, ← ht, ← ho])
  exact ⟨j, hj, by rwa [hb]⟩

theorem append (h : Good P rs x c) (hnew : ∀ i, P i r' → r'.Covers x → r'.Admits c) :
    Good P (rs ++ [r']) x c := by
  refine ⟨fun j hj => ?_, fun j q hj hP hx => ?_⟩
  · obtain ⟨b, hb, hgenuine⟩ := h.1 j hj
    have hlt := (List.getElem?_eq_some_iff.mp hb).1
    exact ⟨b, by rw [List.getElem?_append_left hlt]; exact hb, hgenuine⟩
  · rw [List.getElem?_append] at hj
    split at hj
    · exact h.2 j q hj hP hx
    · rw [List.getElem?_singleton] at hj
      split at hj
      · cases hj
        exact hnew j hP hx
      · cases hj

end Good

/-! ### Requests -/

/-- Request `i` is completed. -/
def Done (rs : List Request) (i : ℕ) : Prop := ∃ r, rs[i]? = some r ∧ r.stage = .completed

/-- What holds of request `i` beside its place at the lock. -/
structure Sound (rs : List Request) (time i : ℕ) (r : Request) : Prop where
  known : ∀ j, r.before j = true → Done rs j
  timed : r.executedAt < time
  bounded : r.count ≤ r.transfer.length
  written : r.transfer.direction = .write → r.stage = .sent ∨ r.stage = .executed →
    ∀ k < r.transfer.length, r.bytes k = r.cells i k
  answer : r.transfer.direction = .read →
    ∀ k < r.count, Good (Known r) rs (r.transfer.offset + k) (r.bytes k)
  recent : r.transfer.direction = .read → r.stage = .executed →
    ∀ k < r.count, Good (StoredBy r.executedAt) rs (r.transfer.offset + k) (r.bytes k)

/-- All requests are sound. -/
def AllSound (rs : List Request) (time : ℕ) : Prop := ∀ i r, rs[i]? = some r → Sound rs time i r

/-- What a request that is not completed is not: something that another one came behind. -/
theorem AllSound.before_eq_false {time : ℕ} (h : AllSound rs time) (hi : rs[i]? = some r)
    (hrun : r.stage ≠ .completed) (hj : rs[j]? = some q) : q.before i = false := by
  by_contra hne
  obtain ⟨r₁, hr₁, hdone⟩ := (h j q hj).known i (by simpa using hne)
  rw [hi] at hr₁
  cases hr₁
  exact hrun hdone

/-- The bytes of a running write are good in any class. -/
theorem AllSound.good_cells {time : ℕ} (h : AllSound rs time) {P : ℕ → Request → Prop}
    (hi : rs[i]? = some r) (hrun : r.stage ≠ .completed) (hw : r.transfer.direction = .write) {k : ℕ}
    (hk : k < r.transfer.length) : Good P rs (r.transfer.offset + k) (r.cells i k) := by
  refine ⟨fun j hj => ?_, fun j q hj _ _ => ⟨i, rfl, h.before_eq_false hi hrun hj⟩⟩
  cases hj
  exact ⟨r, hi, hw, by omega, by omega, by simp [Request.cells]⟩

theorem Done.set (h : Done rs j) (hi : rs[i]? = some r) (hrun : r.stage ≠ .completed) :
    Done (rs.set i r') j := by
  obtain ⟨q, hq, hdone⟩ := h
  by_cases hij : i = j
  · subst hij
    rw [hi] at hq
    cases hq
    exact absurd hdone hrun
  · exact ⟨q, by rw [List.getElem?_set_ne hij]; exact hq, hdone⟩

theorem Done.append (h : Done rs j) : Done (rs ++ [r']) j := by
  obtain ⟨q, hq, hdone⟩ := h
  have hlt := (List.getElem?_eq_some_iff.mp hq).1
  exact ⟨q, by rw [List.getElem?_append_left hlt]; exact hq, hdone⟩

/-- How a request moves on: what it has stored stays, or it is executed now. -/
structure Moves (time : ℕ) (r r' : Request) : Prop where
  run : r.stage ≠ .completed
  transfer : r'.transfer = r.transfer
  before : r'.before = r.before
  stored : (r'.outcome = r.outcome ∧ r'.executedAt = r.executedAt) ∨ r'.outcome = none ∨
    r'.transfer.direction = .read ∨ r'.executedAt = time

/-- A class that holds back no request which is executed now. -/
theorem Moves.good {time : ℕ} {P : ℕ → Request → Prop} (hm : Moves time r r') (hi : rs[i]? = some r)
    (hstored : ∀ q, P i q → Stored i q)
    (hP : r'.outcome = r.outcome → r'.executedAt = r.executedAt → P i r' → P i r)
    (hnow : r'.executedAt = time → ¬ P i r') (h : Good P rs x c) : Good P (rs.set i r') x c := by
  rcases hm.stored with ⟨ho, he⟩ | hnone | hread | htime
  · exact h.move hi hm.transfer hm.before fun hnew => ⟨hP ho he hnew, ho⟩
  · exact h.set hi hm.transfer fun hnew => absurd hnone (hstored _ hnew).2
  · exact h.set hi hm.transfer fun hnew => by
      have := (hstored _ hnew).1
      simp [hread] at this
  · exact h.set hi hm.transfer fun hnew => absurd hnew (hnow htime)

theorem Moves.known {time : ℕ} (hm : Moves time r r') (hs : AllSound rs time)
    (hi : rs[i]? = some r) (hj : rs[j]? = some q) (h : Good (Known q) rs x c) :
    Good (Known q) (rs.set i r') x c := by
  refine h.set hi hm.transfer fun hnew => ?_
  have := hs.before_eq_false hi hm.run hj
  simp [hnew.1] at this

theorem Moves.storedBy {time t : ℕ} (hm : Moves time r r') (hi : rs[i]? = some r) (ht : t < time)
    (h : Good (StoredBy t) rs x c) : Good (StoredBy t) (rs.set i r') x c := by
  refine hm.good hi (fun q hq => hq.1) ?_ ?_ h
  · rintro ho he ⟨⟨hw, hne⟩, hle⟩
    exact ⟨⟨hm.transfer ▸ hw, ho ▸ hne⟩, he ▸ hle⟩
  · rintro hnow ⟨-, hle⟩
    omega

/-- What holds of a request stays so when another one moves on. -/
theorem Sound.move {time time' : ℕ} (hs : AllSound rs time) (hm : Moves time r r')
    (hi : rs[i]? = some r) (hj : rs[j]? = some q) (htime : time ≤ time') :
    Sound (rs.set i r') time' j q := by
  have h := hs j q hj
  refine ⟨fun k hk => (h.known k hk).set hi hm.run, h.timed.trans_le htime, h.bounded, h.written,
    ?_, ?_⟩
  · exact fun hr k hk => hm.known hs hi hj (h.answer hr k hk)
  · exact fun hr he k hk => hm.storedBy hi h.timed (h.recent hr he k hk)

theorem AllSound.set {time time' : ℕ} (hs : AllSound rs time) (hm : Moves time r r')
    (hi : rs[i]? = some r) (htime : time ≤ time') (hnew : Sound (rs.set i r') time' i r') :
    AllSound (rs.set i r') time' := by
  intro j q hj
  by_cases hij : i = j
  · subst hij
    rw [List.getElem?_set_self (List.getElem?_eq_some_iff.mp hi).1] at hj
    cases hj
    exact hnew
  · rw [List.getElem?_set_ne hij] at hj
    exact Sound.move hs hm hi hj htime

theorem AllSound.append {time : ℕ} (hs : AllSound rs time) (hknown : ∀ j, r'.before j = true → Done rs j)
    (htime : r'.executedAt < time) (hcount : r'.count = 0) (hstage : r'.stage ≠ .sent)
    (hstage' : r'.stage ≠ .executed) : AllSound (rs ++ [r']) time := by
  -- the new request covers nothing
  have hgood {P : ℕ → Request → Prop} {x : ℕ} {c : Cell} (h : Good P rs x c) :
      Good P (rs ++ [r']) x c := by
    refine h.append fun i _ hx => ?_
    rw [Request.Covers, hcount] at hx
    omega
  intro j q hj
  rw [List.getElem?_append] at hj
  split at hj
  · have h := hs j q hj
    exact ⟨fun k hk => (h.known k hk).append, h.timed, h.bounded, h.written,
      fun hr k hk => hgood (h.answer hr k hk), fun hr he k hk => hgood (h.recent hr he k hk)⟩
  · rw [List.getElem?_singleton] at hj
    split at hj
    · cases hj
      refine ⟨fun k hk => (hknown k hk).append, htime, by omega, fun _ hst => ?_, fun _ k hk => ?_,
        fun _ he => ?_⟩
      · rcases hst with hst | hst
        · exact absurd hst hstage
        · exact absurd hst hstage'
      · omega
      · exact absurd he hstage'
    · cases hj

/-! ### The list of the thread -/

/-- How far the thread is with its write. -/
def ThreadPc.Place (t : ThreadPc) (r : Request) : Prop :=
  match t with
  | .complete _ => r.stage = .filled ∨ (r.stage = .served ∧ r.outcome = none)
  | _ => r.stage = .served

/-- The writes of the list wait, and the thread is with a write that it has taken from it. -/
structure Held (rs : List Request) (queue : List ℕ) (t : ThreadPc) : Prop where
  nodup : queue.Nodup
  queued : ∀ i ∈ queue, ∃ r, rs[i]? = some r ∧ r.transfer.direction = .write ∧ r.stage = .queued
  serving : ∀ i, t.request = some i → ∃ r, rs[i]? = some r ∧ r.transfer.direction = .write ∧ t.Place r

/-- The stages of a request that the thread has nothing to do with. -/
def Stage.apart : Stage → Bool
  | .queued => false
  | .served => false
  | .filled => false
  | _ => true

theorem ThreadPc.Place.not_apart {t : ThreadPc} (h : t.Place r) : r.stage.apart = false := by
  unfold ThreadPc.Place at h
  split at h
  · rcases h with h | h <;> simp [h, Stage.apart]
  · simp [h, Stage.apart]

theorem Held.set {queue : List ℕ} {t : ThreadPc} (h : Held rs queue t) (hi : rs[i]? = some r)
    (hr : r.stage.apart = true) : Held (rs.set i r') queue t := by
  refine ⟨h.nodup, fun j hj => ?_, fun j hj => ?_⟩
  · obtain ⟨q, hq, hw, hst⟩ := h.queued j hj
    have hij : i ≠ j := by
      rintro rfl
      rw [hi] at hq
      cases hq
      simp [hst, Stage.apart] at hr
    exact ⟨q, by rw [List.getElem?_set_ne hij]; exact hq, hw, hst⟩
  · obtain ⟨q, hq, hw, hplace⟩ := h.serving j hj
    have hij : i ≠ j := by
      rintro rfl
      rw [hi] at hq
      cases hq
      simp [hplace.not_apart] at hr
    exact ⟨q, by rw [List.getElem?_set_ne hij]; exact hq, hw, hplace⟩

/-- The thread goes on with its write. -/
theorem Held.serve {queue : List ℕ} {t t' : ThreadPc} (h : Held rs queue t) (hi : rs[i]? = some r)
    (hserving : t.request = some i) (ht : r'.transfer = r.transfer)
    (hplace : ∀ j, t'.request = some j → j = i ∧ t'.Place r') : Held (rs.set i r') queue t' := by
  obtain ⟨r₀, hr₀, hw, hold⟩ := h.serving i hserving
  rw [hi] at hr₀
  cases hr₀
  refine ⟨h.nodup, fun j hj => ?_, fun j hj => ?_⟩
  · obtain ⟨q, hq, hwq, hst⟩ := h.queued j hj
    have hij : i ≠ j := by
      rintro rfl
      rw [hi] at hq
      cases hq
      unfold ThreadPc.Place at hold
      split at hold <;> simp [hst] at hold
    exact ⟨q, by rw [List.getElem?_set_ne hij]; exact hq, hwq, hst⟩
  · obtain ⟨rfl, hnew⟩ := hplace j hj
    exact ⟨r', List.getElem?_set_self (List.getElem?_eq_some_iff.mp hi).1, ht ▸ hw, hnew⟩

/-- The thread takes the first write of the list. -/
theorem Held.take {queue : List ℕ} {t : ThreadPc} (h : Held rs (i :: queue) .idle)
    (hi : rs[i]? = some r) (ht : r'.transfer = r.transfer) (hserving : t.request = some i)
    (hplace : t.Place r') : Held (rs.set i r') queue t := by
  refine ⟨h.nodup.of_cons, fun j hj => ?_, fun j hj => ?_⟩
  · obtain ⟨q, hq, hwq, hst⟩ := h.queued j (List.mem_cons_of_mem _ hj)
    have hij : i ≠ j := fun hij => (List.nodup_cons.mp h.nodup).1 (hij ▸ hj)
    exact ⟨q, by rw [List.getElem?_set_ne hij]; exact hq, hwq, hst⟩
  · obtain ⟨r₀, hr₀, hw, -⟩ := h.queued i List.mem_cons_self
    rw [hi] at hr₀
    cases hr₀
    rw [hserving] at hj
    cases hj
    exact ⟨r', List.getElem?_set_self (List.getElem?_eq_some_iff.mp hi).1, ht ▸ hw, hplace⟩

theorem Held.append {queue : List ℕ} {t : ThreadPc} (h : Held rs queue t) :
    Held (rs ++ [r']) queue t := by
  refine ⟨h.nodup, fun j hj => ?_, fun j hj => ?_⟩
  · obtain ⟨q, hq, hwq, hst⟩ := h.queued j hj
    have hlt := (List.getElem?_eq_some_iff.mp hq).1
    exact ⟨q, by rw [List.getElem?_append_left hlt]; exact hq, hwq, hst⟩
  · obtain ⟨q, hq, hwq, hst⟩ := h.serving j hj
    have hlt := (List.getElem?_eq_some_iff.mp hq).1
    exact ⟨q, by rw [List.getElem?_append_left hlt]; exact hq, hwq, hst⟩

/-- A new write of zeros goes to the end of the list. -/
theorem Held.enqueue {queue : List ℕ} {t : ThreadPc} (h : Held rs queue t)
    (hw : r'.transfer.direction = .write) (hst : r'.stage = .queued) :
    Held (rs ++ [r']) (queue ++ [rs.length]) t := by
  have happ : Held (rs ++ [r']) queue t := h.append
  refine ⟨?_, fun j hj => ?_, happ.serving⟩
  · refine List.nodup_append.mpr ⟨h.nodup, List.nodup_singleton _, fun j hj k hk => ?_⟩
    obtain ⟨q, hq, -⟩ := h.queued j hj
    have hlt := (List.getElem?_eq_some_iff.mp hq).1
    rw [List.mem_singleton] at hk
    omega
  · rcases List.mem_append.mp hj with hj | hj
    · exact happ.queued j hj
    · rw [List.mem_singleton] at hj
      exact ⟨r', by simp [hj], hw, hst⟩

/-! ### The last-I/O buffer -/

/-- The bytes that the marks give out. -/
def Fresh (m : Marks Cell) (rs : List Request) : Prop :=
  ∀ b, m.data = some b → ∀ k < m.lastLength, Good Landed rs (m.lastOffset + k) (b.bytes k)

/-- The buffer holds the bytes of write `i`. -/
def Holds (m : Marks Cell) (rs : List Request) (i : ℕ) : Prop :=
  ∃ b, m.data = some b ∧
    ∀ r, rs[i]? = some r → ∀ k < r.transfer.length, b.bytes k = r.cells i k

/-- What is known of the buffer at each place of the thread. -/
def Filled (m : Marks Cell) (rs : List Request) : ThreadPc → Prop
  | .idle | .reset _ | .complete _ => Fresh m rs
  | .allocate _ => m.lastLength = 0
  | .fill _ => m.lastLength = 0 ∧ m.data ≠ none
  | .io i | .storeOffset i => m.lastLength = 0 ∧ Holds m rs i
  | .storeLength i => m.lastLength = 0 ∧ Holds m rs i ∧
      ∀ r, rs[i]? = some r → m.lastOffset = r.transfer.offset

theorem Fresh.of_zero {m : Marks Cell} (h : m.lastLength = 0) : Fresh m rs := by
  intro b _ k hk
  omega

theorem Filled.fresh {m : Marks Cell} {t : ThreadPc} (h : Filled m rs t) : Fresh m rs := by
  cases t with
  | idle => exact h
  | reset i => exact h
  | complete i => exact h
  | allocate i => exact Fresh.of_zero h
  | fill i => exact Fresh.of_zero h.1
  | io i => exact Fresh.of_zero h.1
  | storeOffset i => exact Fresh.of_zero h.1
  | storeLength i => exact Fresh.of_zero h.1

theorem Filled.of_fresh {m : Marks Cell} {t : ThreadPc} (h : Fresh m rs)
    (ht : t.refilling = false) : Filled m rs t := by
  cases t <;> first | exact h | simp [ThreadPc.refilling] at ht

/-- The requests change, and no buffer is put in place. -/
theorem Filled.congr {m m' : Marks Cell} {rs' : List Request} {t : ThreadPc} (h : Filled m rs t)
    (hd : m'.data = m.data) (ho : m'.lastOffset = m.lastOffset) (hl : m'.lastLength = m.lastLength)
    (hfresh : Fresh m rs → Fresh m rs')
    (hrs : ∀ i r', rs'[i]? = some r' → t.request = some i →
      ∃ r, rs[i]? = some r ∧ r'.transfer = r.transfer) : Filled m' rs' t := by
  have hfresh' : Fresh m' rs' := by
    rw [Fresh, hd, ho, hl]
    exact hfresh h.fresh
  have hholds : ∀ i, t.request = some i → Holds m rs i → Holds m' rs' i := by
    rintro i hi ⟨b, hb, hbytes⟩
    refine ⟨b, hd ▸ hb, fun r' hr' k hk => ?_⟩
    obtain ⟨r, hr, htr⟩ := hrs i r' hr' hi
    rw [htr] at hk
    rw [hbytes r hr k hk, Request.cells, Request.cells, htr]
  cases t with
  | idle => exact hfresh'
  | reset i => exact hfresh'
  | complete i => exact hfresh'
  | allocate i => exact hl.trans h
  | fill i => exact ⟨hl.trans h.1, hd ▸ h.2⟩
  | io i => exact ⟨hl.trans h.1, hholds i rfl h.2⟩
  | storeOffset i => exact ⟨hl.trans h.1, hholds i rfl h.2⟩
  | storeLength i =>
      refine ⟨hl.trans h.1, hholds i rfl h.2.1, fun r' hr' => ?_⟩
      obtain ⟨r, hr, htr⟩ := hrs i r' hr' rfl
      rw [ho, htr]
      exact h.2.2 r hr

theorem Fresh.set {m : Marks Cell} (h : Fresh m rs) (hi : rs[i]? = some r)
    (ht : r'.transfer = r.transfer) (hb : r'.before = r.before)
    (hland : Landed i r' → Landed i r ∧ r'.outcome = r.outcome) : Fresh m (rs.set i r') :=
  fun b hbuf k hk => (h b hbuf k hk).move hi ht hb hland

/-- A request that is replaced keeps its place in the list. -/
theorem transfer_of_getElem?_set (hi : rs[i]? = some r) (ht : r'.transfer = r.transfer) {q : Request}
    (hj : (rs.set i r')[j]? = some q) : ∃ q₀, rs[j]? = some q₀ ∧ q.transfer = q₀.transfer := by
  by_cases hij : i = j
  · subst hij
    rw [List.getElem?_set_self (List.getElem?_eq_some_iff.mp hi).1] at hj
    cases hj
    exact ⟨r, hi, ht⟩
  · rw [List.getElem?_set_ne hij] at hj
    exact ⟨q, hj, rfl⟩

/-! ### The invariant -/

structure Inv (s : Device) : Prop where
  sound : AllSound s.requests s.time
  image : ∀ x, Good Stored s.requests x (s.image x)
  guarded : Guarded s.marks.lock (s.requests.map Request.pc)
  seen : ∀ r ∈ s.requests, s.marks.Seen r.transfer.offset r.transfer.length r.pc
  looks : ∀ r ∈ s.requests, ∀ pc, r.stage = .lookup pc →
    r.transfer.direction = .read ∧ 0 < r.transfer.length
  held : Held s.requests s.queue s.thread
  filled : Filled s.marks s.requests s.thread
  started : 0 < s.time

/-- The thread stores a mark only while no dispatch routine looks at the buffer.  A completion
routine puts a buffer in place only while the thread is not filling one, and that of a read only
when no write that was executed after it, and has a byte in common with it, is behind that point.
A write that was forwarded is completed only while the buffer has none of its bytes.  The bytes of
a buffer are not swapped. -/
def Orderly (s : Device) : Event → Prop
  | .arrive _ _ => True
  | .dispatch i _ => s.byteSwap = true → ∀ r, s.requests[i]? = some r → r.stage ≠ .lookup .copy
  | .execute _ _ => True
  | .complete i =>
      ∀ r, s.requests[i]? = some r → r.stage = .executed → r.outcome ≠ none →
        if s.directIo then
          r.transfer.direction = .write →
            ∀ k < s.marks.lastLength, ¬ r.Covers (s.marks.lastOffset + k)
        else
          s.thread.refilling = false ∧ (r.transfer.direction = .read →
            ∀ j a, s.requests[j]? = some a → Landed j a → r.executedAt < a.executedAt →
              ∀ x, r.Covers x → ¬ a.Covers x)
  | .thread _ =>
      match s.thread with
      | .storeOffset _ | .storeLength _ => ∀ r ∈ s.requests, r.pc.looking = false
      | _ => True

/-- A request that goes on with the bytes that it has. -/
theorem Sound.keep {time time' : ℕ} (hs : AllSound rs time) (hm : Moves time r r')
    (hi : rs[i]? = some r) (htime : time ≤ time') (hbytes : r'.bytes = r.bytes)
    (hcount : r'.count ≤ r.count) (he : r'.executedAt < time') (hsent : r'.stage ≠ .sent)
    (hexecuted : r'.stage ≠ .executed) : Sound (rs.set i r') time' i r' := by
  have h : Sound (rs.set i r') time' i r := Sound.move hs hm hi hi htime
  refine ⟨?_, he, ?_, fun _ hst => ?_, fun hr k hk => ?_, fun _ hst => ?_⟩
  · rw [hm.before]
    exact h.known
  · rw [hm.transfer]
    exact hcount.trans h.bounded
  · rcases hst with hst | hst
    · exact absurd hst hsent
    · exact absurd hst hexecuted
  · rw [hm.transfer] at hr
    have := h.answer hr k (by omega)
    rw [hm.transfer, hbytes]
    exact this.mono fun j q _ hq _ => ⟨hm.before ▸ hq.1, hq.2⟩
  · exact absurd hst hexecuted

namespace Inv

variable {s : Device}

/-- A request that does not hold the lock moves on to a place where it does not hold it. -/
theorem guarded_set (h : Inv s) (hi : s.requests[i]? = some r) (hr : r.pc.locked = false)
    (hr' : r'.pc.locked = false) :
    Guarded s.marks.lock ((s.requests.set i r').map Request.pc) := by
  have hlt := (List.getElem?_eq_some_iff.mp hi).1
  have hpc : (s.requests.map Request.pc)[i]? = some r.pc := by rw [List.getElem?_map, hi]; rfl
  rw [List.map_set]
  refine h.guarded.set (by simpa using hlt) ?_ fun j _ => Iff.rfl
  have := h.guarded.locked i r.pc hpc
  rw [hr] at this
  rw [hr']
  exact this

theorem seen_set {m : Marks Cell} (hseen : ∀ r ∈ s.requests, m.Seen r.transfer.offset
    r.transfer.length r.pc) (hr' : r'.pc.looking = false) :
    ∀ q ∈ s.requests.set i r', m.Seen q.transfer.offset q.transfer.length q.pc := by
  intro q hq
  rcases List.mem_or_eq_of_mem_set hq with hold | rfl
  · exact hseen q hold
  · exact Marks.seen_of_not_looking hr'

theorem looks_set (h : Inv s) (hr' : ∀ pc, r'.stage = .lookup pc →
    r'.transfer.direction = .read ∧ 0 < r'.transfer.length) :
    ∀ q ∈ s.requests.set i r', ∀ pc, q.stage = .lookup pc →
      q.transfer.direction = .read ∧ 0 < q.transfer.length := by
  intro q hq
  rcases List.mem_or_eq_of_mem_set hq with hold | rfl
  · exact h.looks q hold
  · exact hr'

/-- A request that has nothing to do with the thread moves on, away from the lock. -/
theorem move (h : Inv s) (hi : s.requests[i]? = some r) (hm : Moves s.time r r')
    (hnew : Sound (s.requests.set i r') s.time i r')
    (hstored : Stored i r' → Stored i r ∧ r'.outcome = r.outcome)
    (hfresh : Fresh s.marks (s.requests.set i r')) (hapart : r.stage.apart = true)
    (hlocked : r.pc.locked = false) (hstage : ∀ pc, r'.stage ≠ .lookup pc) :
    Inv (s.put i r') := by
  have hpc : r'.pc = .finished false := by
    unfold Request.pc
    split
    · next pc hst => exact absurd hst (hstage pc)
    · rfl
  refine ⟨h.sound.set hm hi le_rfl hnew, fun x => ?_, ?_, ?_, ?_, h.held.set hi hapart, ?_,
    h.started⟩
  · exact (h.image x).move hi hm.transfer hm.before hstored
  · exact h.guarded_set hi hlocked (by rw [hpc]; rfl)
  · exact seen_set h.seen (by rw [hpc]; rfl)
  · exact h.looks_set fun pc hst => absurd hst (hstage pc)
  · exact h.filled.congr rfl rfl rfl (fun _ => hfresh) fun j q hj _ =>
      transfer_of_getElem?_set hi hm.transfer hj

/-- A stage that holds what the request has, and is not one of the lower device. -/
theorem moveStage (h : Inv s) (hi : s.requests[i]? = some r) (hrun : r.stage ≠ .completed)
    (hsent : r'.stage ≠ .sent) (hexecuted : r'.stage ≠ .executed)
    (hr' : r' = { r with stage := r'.stage, outcome := r'.outcome })
    (hout : r'.outcome = r.outcome ∨ r'.outcome = none)
    (hfresh : Fresh s.marks (s.requests.set i r')) (hapart : r.stage.apart = true)
    (hlocked : r.pc.locked = false) (hstage : ∀ pc, r'.stage ≠ .lookup pc) : Inv (s.put i r') := by
  have ht : r'.transfer = r.transfer := by rw [hr']
  have hb : r'.before = r.before := by rw [hr']
  have he : r'.executedAt = r.executedAt := by rw [hr']
  have hm : Moves s.time r r' := by
    refine ⟨hrun, ht, hb, ?_⟩
    rcases hout with ho | ho
    · exact Or.inl ⟨ho, he⟩
    · exact Or.inr (Or.inl ho)
  refine h.move hi hm ?_ (fun hst => ?_) hfresh hapart hlocked hstage
  · refine Sound.keep h.sound hm hi le_rfl (by rw [hr']) ?_ ?_ hsent hexecuted
    · rcases hout with ho | ho <;> simp [Request.count, ho]
    · rw [he]
      exact (h.sound i r hi).timed
  · rcases hout with ho | ho
    · exact ⟨⟨ht ▸ hst.1, ho ▸ hst.2⟩, ho⟩
    · exact absurd ho hst.2

/-- The buffer as it was, for a request that does not get behind the point where a write counts. -/
theorem fresh_set (h : Inv s) (hi : s.requests[i]? = some r) (ht : r'.transfer = r.transfer)
    (hb : r'.before = r.before) (hland : Landed i r' → Landed i r ∧ r'.outcome = r.outcome) :
    Fresh s.marks (s.requests.set i r') :=
  h.filled.fresh.set hi ht hb hland

/-- What the copy of a hit gives is not older than any write that the read came behind. -/
theorem good_hit (h : Inv s) (hi : s.requests[i]? = some r) (hst : r.stage = .lookup .copy)
    (x : Answer) {k : ℕ} (hk : k < r.transfer.length) :
    Good (Known r) s.requests (r.transfer.offset + k) (s.hit r.transfer x k) := by
  have hmem := List.mem_of_getElem? hi
  have hseen := h.seen r hmem
  rw [Request.pc, hst] at hseen
  obtain ⟨hsome, hle, hend⟩ := hseen
  obtain ⟨b, hb⟩ := Option.ne_none_iff_exists'.mp (hsome rfl (by omega))
  have hgood := h.filled.fresh b hb (r.transfer.offset + k - s.marks.lastOffset) (by omega)
  rw [show s.marks.lastOffset + (r.transfer.offset + k - s.marks.lastOffset) = r.transfer.offset + k
    by omega] at hgood
  simp only [Device.hit, hb, if_pos hk]
  -- a write that the read came behind is completed
  refine hgood.mono fun j a hj ha _ => ⟨ha.2, Or.inr (Or.inr ?_)⟩
  obtain ⟨a', ha', hdone⟩ := (h.sound i r hi).known j ha.1
  rw [hj] at ha'
  cases ha'
  exact hdone

theorem lookup (h : Inv s) (hi : s.requests[i]? = some r) {pc : LookupPc}
    (hst : r.stage = .lookup pc) (x : Answer) (hswap : pc = .copy → s.byteSwap = false) :
    Inv (s.lookup i r pc x) := by
  have hmem := List.mem_of_getElem? hi
  obtain ⟨hread, hpos⟩ := h.looks r hmem pc hst
  have hrpc : r.pc = pc := by rw [Request.pc, hst]
  obtain ⟨lock, hmarks⟩ := s.marks.look_fst i r.transfer.offset r.transfer.length pc
  have hget : (s.requests.map Request.pc)[i]? = some pc := by
    rw [List.getElem?_map, hi]
    simp [hrpc]
  have hguarded := h.guarded.look hget r.transfer.offset r.transfer.length
  have hseen := Marks.seen_look (i := i) (hrpc ▸ h.seen r hmem)
  rw [Device.lookup]
  generalize hr' : (if pc = .copy then s.copy r x else r) = r₁
  have hcopy : r₁.transfer = r.transfer ∧ r₁.before = r.before ∧ r₁.executedAt = r.executedAt := by
    subst hr'
    split
    · rw [Device.copy]
      split <;> simp
    · simp
  obtain ⟨ht, hb, he⟩ := hcopy
  generalize hnext : (s.marks.look i r.transfer.offset r.transfer.length pc).2 = pc' at *
  rw [hmarks] at hguarded hseen ⊢
  have hm : Moves s.time r { r₁ with stage := .lookup pc' } :=
    ⟨by simp [hst], ht, hb, Or.inr (Or.inr (Or.inl (by simp [ht, hread])))⟩
  have hnot : ¬ Stored i { r₁ with stage := .lookup pc' } := by simp [Stored, ht, hread]
  have hcount : r₁.count ≤ r.transfer.length := by
    rw [← hr']
    split
    · rw [Device.copy]
      split <;> simp [Request.count]
    · exact (h.sound i r hi).bounded
  have hanswer : ∀ k < r₁.count, Good (Known r) s.requests (r.transfer.offset + k) (r₁.bytes k) := by
    intro k hk
    rw [← hr'] at hk ⊢
    split at hk
    · next hpc =>
        rw [if_pos hpc]
        rw [Device.copy] at hk ⊢
        split at hk
        · next hmapped =>
            rw [if_pos hmapped]
            dsimp only
            rw [if_neg (by simp [hswap hpc])]
            exact h.good_hit hi (hpc ▸ hst) x hk
        · simp [Request.count] at hk
    · next hpc =>
        rw [if_neg hpc]
        exact (h.sound i r hi).answer hread k hk
  refine ⟨h.sound.set hm hi le_rfl ?_, fun a => ?_, ?_, fun q hq => ?_, ?_, ?_, ?_, h.started⟩
  · refine ⟨fun j hj => ?_, ?_, ht ▸ hcount, fun hw => ?_, fun _ k hk => ?_, fun _ hex => ?_⟩
    · exact ((h.sound i r hi).known j (by rwa [hb] at hj)).set hi hm.run
    · simp only [he]
      exact (h.sound i r hi).timed
    · simp [ht, hread] at hw
    · have := hm.known h.sound hi hi (hanswer k hk)
      rw [← ht] at this
      refine this.mono fun j q _ hq _ => ?_
      exact ⟨hb ▸ hq.1, hq.2⟩
    · simp at hex
  · exact (h.image a).move hi ht hb fun hs => absurd hs hnot
  · rw [List.map_set]
    exact hguarded
  · rcases List.mem_or_eq_of_mem_set hq with hold | rfl
    · exact h.seen q hold
    · dsimp only
      rw [ht]
      exact hseen
  · exact h.looks_set fun _ _ => by simp [ht, hread, hpos]
  · exact h.held.set hi (by simp [hst, Stage.apart])
  · exact h.filled.congr rfl rfl rfl (fun hf => hf.set hi ht hb fun hl => absurd hl.1 hnot)
      fun j q hj _ => transfer_of_getElem?_set hi hm.transfer hj

theorem send (h : Inv s) (hi : s.requests[i]? = some r) (hst : r.stage = .send) (x : Answer) :
    Inv (s.send i r x) := by
  have hapart : r.stage.apart = true := by simp [hst, Stage.apart]
  have hlocked : r.pc.locked = false := by simp [Request.pc, hst, LookupPc.locked]
  have hrun : r.stage ≠ .completed := by simp [hst]
  -- a request that is sent keeps what it reports
  have hsent : ∀ bytes, (r.transfer.direction = .write → bytes = r.cells i) →
      (r.transfer.direction = .read → bytes = r.bytes) →
      Inv (s.put i { r with stage := .sent, bytes := bytes }) := by
    intro bytes hwrite hread
    have hm : Moves s.time r { r with stage := .sent, bytes := bytes } :=
      ⟨hrun, rfl, rfl, Or.inl ⟨rfl, rfl⟩⟩
    have h' := Sound.move h.sound hm hi hi le_rfl
    refine h.move hi hm ⟨h'.known, h'.timed, h'.bounded, fun hw _ k hk => ?_, fun hr k hk => ?_,
      fun _ hex => ?_⟩ (fun hs => ⟨hs, rfl⟩) (h.fresh_set hi rfl rfl fun hl => ?_) hapart hlocked
      (by simp)
    · simp only [hwrite hw]
      rfl
    · have hanswer := h'.answer hr k hk
      rw [← hread hr] at hanswer
      exact hanswer
    · simp at hex
    · simp [Landed] at hl
  rw [Device.send]
  split
  · split
    · next hread => exact hsent r.bytes (fun hw => by simp [hread] at hw) fun _ => rfl
    · next hwrite => exact hsent (r.cells i) (fun _ => rfl) fun hr => by simp [hwrite] at hr
  · exact h.moveStage hi hrun (by simp) (by simp) rfl (Or.inr rfl)
      (h.fresh_set hi rfl rfl fun hl => absurd rfl hl.1.2) hapart hlocked (by simp)

theorem dispatch (h : Inv s) {x : Answer} (hok : Orderly s (.dispatch i x)) :
    Inv (s.dispatch i x) := by
  rw [Device.dispatch]
  split
  · exact h
  · next r hi =>
      have hswap : ∀ pc, r.stage = .lookup pc → pc = .copy → s.byteSwap = false := by
        intro pc hst hpc
        by_contra hne
        exact hok (by simpa using hne) r hi (hpc ▸ hst)
      have hread : ∀ pc, r.stage = .lookup pc → r.transfer.direction = .read := fun pc hst =>
        (h.looks r (List.mem_of_getElem? hi) pc hst).1
      split
      · next hst =>
          exact h.moveStage hi (by simp [hst]) (by simp) (by simp) rfl (Or.inl rfl)
            (h.fresh_set hi rfl rfl fun hl => by simp [Landed, Stored, hread _ hst] at hl)
            (by simp [hst, Stage.apart]) (by simp [Request.pc, hst, LookupPc.locked]) (by simp)
      · next hst =>
          exact h.moveStage hi (by simp [hst]) (by simp) (by simp) rfl (Or.inl rfl)
            (h.fresh_set hi rfl rfl fun hl => by simp [Landed, Stored, hread _ hst] at hl)
            (by simp [hst, Stage.apart]) (by simp [Request.pc, hst, LookupPc.locked]) (by simp)
      · next pc _ _ hst => exact h.lookup hi hst x (hswap pc hst)
      · next hst => exact h.send hi hst x
      · exact h

/-! ### The lower device -/

/-- The image takes bytes of write `i`, and the write reports no more than these. -/
theorem good_written (h : Inv s) (hi : s.requests[i]? = some r) (hrun : r.stage ≠ .completed)
    (hw : r.transfer.direction = .write) (ht : r'.transfer = r.transfer) (hb : r'.before = r.before)
    {bytes : ℕ → Cell} {n : ℕ} (hn : n ≤ r.transfer.length) (hbytes : ∀ k < n, bytes k = r.cells i k)
    (hcount : r'.count ≤ n) (x : ℕ) :
    Good Stored (s.requests.set i r') x (written s.image r.transfer.offset bytes n x) := by
  rw [written]
  split
  · next hx =>
      rw [hbytes _ (by omega)]
      have hgood := h.sound.good_cells (P := Stored) (k := x - r.transfer.offset) hi hrun hw (by omega)
      rw [show r.transfer.offset + (x - r.transfer.offset) = x by omega] at hgood
      refine hgood.set hi ht fun _ _ => ⟨i, rfl, ?_⟩
      rw [hb]
      exact h.sound.before_eq_false hi hrun hi
  · next hx =>
      refine (h.image x).set hi ht fun _ hcov => absurd ?_ hx
      rw [Request.Covers, ht] at hcov
      omega

theorem perform (h : Inv s) (hi : s.requests[i]? = some r) (hst : r.stage = .sent) (x : Answer) :
    Inv (s.perform i r x) := by
  have hr := h.sound i r hi
  have hrun : r.stage ≠ .completed := by simp [hst]
  have hapart : r.stage.apart = true := by simp [hst, Stage.apart]
  have hlocked : r.pc.locked = false := by simp [Request.pc, hst, LookupPc.locked]
  rw [Device.perform]
  generalize hn : min x.done r.transfer.length = n
  have hle : n ≤ r.transfer.length := by omega
  -- what the new request reports
  have hcount : ∀ bytes, Request.count ⟨r.transfer, r.before, .executed, bytes,
      if x.succeeds then some n else none, s.time⟩ ≤ n := by
    intro bytes
    rw [Request.count]
    split <;> simp
  have hm : ∀ bytes, Moves s.time r ⟨r.transfer, r.before, .executed, bytes,
      if x.succeeds then some n else none, s.time⟩ := fun bytes =>
    ⟨hrun, rfl, rfl, Or.inr (Or.inr (Or.inr rfl))⟩
  have hfilled : ∀ bytes, Filled s.marks (s.requests.set i ⟨r.transfer, r.before, .executed, bytes,
      if x.succeeds then some n else none, s.time⟩) s.thread := fun bytes =>
    h.filled.congr rfl rfl rfl (fun hf => hf.set hi rfl rfl fun hl => by simp [Landed] at hl)
      fun j q hj _ => transfer_of_getElem?_set hi (hm bytes).transfer hj
  split
  · next hread =>
      refine ⟨h.sound.set (hm _) hi (Nat.le_add_right s.time 1) ?_, fun a => ?_, h.guarded_set hi hlocked rfl, seen_set h.seen rfl,
        h.looks_set (by simp), h.held.set hi hapart, hfilled _, Nat.succ_pos _⟩
      · have hgood : ∀ {P : ℕ → Request → Prop} {k : ℕ}, (∀ j q, P j q → Stored j q) → k < n →
            Good P (s.requests.set i ⟨r.transfer, r.before, .executed,
              fun j => if j < n then s.image (r.transfer.offset + j) else x.memory j,
              if x.succeeds then some n else none, s.time⟩) (r.transfer.offset + k)
              (if k < n then s.image (r.transfer.offset + k) else x.memory k) := by
          intro P k hP hk
          rw [if_pos hk]
          refine ((h.image _).mono fun j q _ hq _ => hP j q hq).set hi rfl fun hnew => ?_
          have := (hP _ _ hnew).1
          simp [hread] at this
        refine ⟨fun j hj => (hr.known j hj).set hi hrun, by simp, (hcount _).trans hle, fun hw => ?_,
          fun _ k hk => ?_, fun _ _ k hk => ?_⟩
        · simp [hread] at hw
        · exact hgood (fun j q hq => hq.2) (hk.trans_le (hcount _))
        · exact hgood (fun j q hq => hq.1) (hk.trans_le (hcount _))
      · exact (h.image a).set hi rfl fun hnew => by simp [Stored, hread] at hnew
  · next hwrite =>
      have hbytes := hr.written hwrite (Or.inl hst)
      refine ⟨h.sound.set (hm _) hi (Nat.le_add_right s.time 1) ?_, fun a => ?_, h.guarded_set hi hlocked rfl, seen_set h.seen rfl,
        h.looks_set (by simp), h.held.set hi hapart, hfilled _, Nat.succ_pos _⟩
      · exact ⟨fun j hj => (hr.known j hj).set hi hrun, by simp, (hcount _).trans hle,
          fun _ _ => hbytes, fun hread => by simp [hwrite] at hread,
          fun hread => by simp [hwrite] at hread⟩
      · exact h.good_written hi hrun hwrite (hm _).transfer (hm _).before hle
          (fun k hk => hbytes k (hk.trans_le hle)) (hcount r.bytes) a

theorem execute (h : Inv s) (i : ℕ) (x : Answer) : Inv (s.execute i x) := by
  rw [Device.execute]
  split
  · exact h
  · next r hi =>
      split
      · next hst => exact h.perform hi hst x
      · exact h

/-! ### The completion routine -/

/-- The bytes of a request are put in place. -/
theorem install (h : Inv s) (hi : s.requests[i]? = some r) (hst : r.stage = .executed)
    (hfree : s.marks.lock = none) (hrefill : s.thread.refilling = false)
    (hlate : r.transfer.direction = .read → ∀ j a, s.requests[j]? = some a → Landed j a →
      r.executedAt < a.executedAt → ∀ x, r.Covers x → ¬ a.Covers x) : Inv (s.install i r) := by
  have hr := h.sound i r hi
  have hrun : r.stage ≠ .completed := by simp [hst]
  have hapart : r.stage.apart = true := by simp [hst, Stage.apart]
  have hlocked : r.pc.locked = false := by simp [Request.pc, hst, LookupPc.locked]
  have hm : Moves s.time r { r with stage := .installed } := ⟨hrun, rfl, rfl, Or.inl ⟨rfl, rfl⟩⟩
  have hnobody : ∀ q ∈ s.requests, q.pc.looking = false := fun q hq =>
    (hfree ▸ h.guarded).not_looking (List.mem_map_of_mem hq)
  rw [Device.install]
  refine ⟨h.sound.set hm hi le_rfl ?_, fun x => ?_, h.guarded_set hi hlocked rfl,
    seen_set (fun q hq => Marks.seen_of_not_looking (hnobody q hq)) rfl, h.looks_set (by simp),
    h.held.set hi hapart, Filled.of_fresh ?_ hrefill, h.started⟩
  · exact Sound.keep h.sound hm hi le_rfl rfl le_rfl hr.timed (by simp) (by simp)
  · exact (h.image x).move hi rfl rfl fun hs => ⟨hs, rfl⟩
  · intro b hb k hk
    cases hb
    dsimp only at hk ⊢
    cases hdir : r.transfer.direction with
    | read =>
        -- writes that count were executed before the read
        have hgood : Good Landed s.requests (r.transfer.offset + k) (r.bytes k) := by
          refine (hr.recent hdir hst k hk).mono fun j a hj ha hx => ⟨ha.1, ?_⟩
          by_contra hlt
          exact hlate hdir j a hj ha (by omega) _ ⟨by omega, by omega⟩ hx
        exact hgood.set hi rfl fun hl => by simp [Landed, Stored, hdir] at hl
    | write =>
        have hk' := hk.trans_le hr.bounded
        rw [hr.written hdir (Or.inr hst) k hk']
        have hown := h.sound.before_eq_false hi hrun hi
        exact (h.sound.good_cells hi hrun hdir hk').set hi rfl fun _ _ => ⟨i, rfl, hown⟩

theorem complete (h : Inv s) (hok : Orderly s (.complete i)) : Inv (s.complete i) := by
  rw [Device.complete]
  split
  · exact h
  · next r hi =>
      split
      · next hst =>
          split
          · next hdirect =>
              refine h.moveStage hi (by simp [hst]) (by simp) (by simp) rfl (Or.inl rfl) ?_
                (by simp [hst, Stage.apart]) (by simp [Request.pc, hst, LookupPc.locked]) (by simp)
              intro b hb k hk
              refine (h.filled.fresh b hb k hk).set hi rfl fun hl hx => ?_
              have hnot := hok r hi hst hl.1.2
              rw [if_pos (hdirect.resolve_right hl.1.2)] at hnot
              exact absurd hx (hnot hl.1.1 k hk)
          · next hdirect =>
              rw [not_or] at hdirect
              have hcond := hok r hi hst hdirect.2
              rw [if_neg hdirect.1] at hcond
              split
              · exact h
              · next hfree => exact h.install hi hst hfree hcond.1 hcond.2
      · next hst =>
          exact h.moveStage hi (by simp [hst]) (by simp) (by simp) rfl (Or.inl rfl)
            (h.fresh_set hi rfl rfl fun hl => ⟨⟨hl.1, Or.inl hst⟩, rfl⟩)
            (by simp [hst, Stage.apart]) (by simp [Request.pc, hst, LookupPc.locked]) (by simp)
      · exact h

/-! ### The device thread -/

/-- The thread takes a step with write `i`: what the dispatch routines have seen is still so. -/
theorem moveThread {s' : Device} (h : Inv s) (hi : s.requests[i]? = some r)
    (hm : Moves s.time r r') (hreq : s'.requests = s.requests.set i r') (htime : s.time ≤ s'.time)
    (hnew : Sound (s.requests.set i r') s'.time i r')
    (himage : ∀ x, Good Stored (s.requests.set i r') x (s'.image x))
    (hlock : s'.marks.lock = s.marks.lock) (hpc : r.pc.locked = false)
    (hpc' : r'.pc = .finished false) (hstage : ∀ pc, r'.stage ≠ .lookup pc)
    (hlooking : ∀ q ∈ s.requests, q.pc.looking = true → s'.marks.lastOffset = s.marks.lastOffset ∧
      s'.marks.lastLength = s.marks.lastLength ∧
      (s'.marks.lastLength ≠ 0 → s'.marks.data ≠ none))
    (hheld : Held (s.requests.set i r') s'.queue s'.thread)
    (hfilled : Filled s'.marks (s.requests.set i r') s'.thread) : Inv s' := by
  refine ⟨?_, ?_, ?_, ?_, ?_, ?_, ?_, h.started.trans_le htime⟩
  · rw [hreq]
    exact h.sound.set hm hi htime hnew
  · rwa [hreq]
  · rw [hreq, hlock]
    exact h.guarded_set hi hpc (by rw [hpc']; rfl)
  · rw [hreq]
    refine seen_set (fun q hq => ?_) (by rw [hpc']; rfl)
    by_cases hlook : q.pc.looking = true
    · obtain ⟨hoffset, hlength, hdata⟩ := hlooking q hq hlook
      exact (h.seen q hq).congr hoffset hlength fun _ => hdata
    · exact Marks.seen_of_not_looking (by simpa using hlook)
  · rw [hreq]
    exact h.looks_set fun pc hst => absurd hst (hstage pc)
  · rwa [hreq]
  · rwa [hreq]

/-- A step of the thread that leaves its write as it is. -/
theorem advance {s' : Device} (h : Inv s) (hi : s.requests[i]? = some r) (hst : r.stage = .served)
    (hserving : s.thread.request = some i) (hreq : s'.requests = s.requests)
    (htime : s'.time = s.time) (himage : s'.image = s.image) (hqueue : s'.queue = s.queue)
    (hthread : s'.thread.request = some i) (hplace : s'.thread.Place r)
    (hlock : s'.marks.lock = s.marks.lock)
    (hlooking : ∀ q ∈ s.requests, q.pc.looking = true → s'.marks.lastOffset = s.marks.lastOffset ∧
      s'.marks.lastLength = s.marks.lastLength ∧
      (s'.marks.lastLength ≠ 0 → s'.marks.data ≠ none))
    (hfilled : Filled s'.marks s.requests s'.thread) : Inv s' := by
  have hsame : s.requests.set i r = s.requests := by
    obtain ⟨hlt, hget⟩ := List.getElem?_eq_some_iff.mp hi
    rw [← hget]
    exact List.set_getElem_self hlt
  have hm : Moves s.time r r := ⟨by simp [hst], rfl, rfl, Or.inl ⟨rfl, rfl⟩⟩
  have hpc : r.pc = .finished false := by simp [Request.pc, hst]
  refine h.moveThread hi hm (by rw [hreq, hsame]) htime.ge ?_ ?_ hlock (by simp [hpc, LookupPc.locked])
    hpc (by simp [hst]) hlooking ?_ ?_
  · exact Sound.move h.sound hm hi hi htime.ge
  · rw [hsame, himage]
    exact h.image
  · rw [hqueue]
    refine h.held.serve hi hserving rfl fun j hj => ?_
    rw [hthread] at hj
    cases hj
    exact ⟨rfl, hplace⟩
  · rwa [hsame]

/-- The write of the thread has failed; the marks are those of an empty buffer, or as they were. -/
theorem failed {s' : Device} (h : Inv s) (hi : s.requests[i]? = some r)
    (hserving : s.thread.request = some i) (hst : r.stage = .served)
    (hreq : s'.requests = s.requests.set i { r with outcome := none }) (htime : s'.time = s.time)
    (himage : ∀ x, Good Stored (s.requests.set i { r with outcome := none }) x (s'.image x))
    (hqueue : s'.queue = s.queue) (hthread : s'.thread = .complete i)
    (hlock : s'.marks.lock = s.marks.lock) (hoffset : s'.marks.lastOffset = s.marks.lastOffset)
    (hlength : s'.marks.lastLength = s.marks.lastLength) (hzero : s.marks.lastLength = 0) : Inv s' := by
  have hm : Moves s.time r { r with outcome := none } := ⟨by simp [hst], rfl, rfl, Or.inr (Or.inl rfl)⟩
  have hpc : Request.pc { r with outcome := none } = .finished false := by simp [Request.pc, hst]
  refine h.moveThread hi hm hreq htime.ge ?_ himage hlock ?_ hpc (by simp [hst]) ?_ ?_ ?_
  · refine Sound.keep h.sound hm hi htime.ge rfl (by simp [Request.count]) ?_ (by simp [hst])
      (by simp [hst])
    rw [htime]
    exact (h.sound i r hi).timed
  · simp [Request.pc, hst, LookupPc.locked]
  · exact fun q _ _ => ⟨hoffset, hlength, fun hne => absurd (hlength.trans hzero) hne⟩
  · rw [hqueue]
    refine h.held.serve hi hserving rfl fun j hj => ?_
    rw [hthread] at hj ⊢
    cases hj
    exact ⟨rfl, Or.inr ⟨hst, rfl⟩⟩
  · rw [hthread]
    exact Fresh.of_zero (hlength.trans hzero)

/-- The image has taken the write of the thread. -/
theorem performed {s' : Device} (h : Inv s) (hi : s.requests[i]? = some r)
    (hserving : s.thread.request = some i) (hst : r.stage = .served)
    (hreq : s'.requests =
      s.requests.set i { r with outcome := some r.transfer.length, executedAt := s.time })
    (htime : s'.time = s.time + 1)
    (himage : ∀ x, Good Stored (s.requests.set i
      { r with outcome := some r.transfer.length, executedAt := s.time }) x (s'.image x))
    (hqueue : s'.queue = s.queue) (hthread : s'.thread = .storeOffset i)
    (hmarks : s'.marks = s.marks) (hzero : s.marks.lastLength = 0)
    (hholds : Holds s.marks s.requests i) : Inv s' := by
  have hm : Moves s.time r { r with outcome := some r.transfer.length, executedAt := s.time } :=
    ⟨by simp [hst], rfl, rfl, Or.inr (Or.inr (Or.inr rfl))⟩
  have hr := h.sound i r hi
  obtain ⟨r₀, hr₀, hwrite, -⟩ := h.held.serving i hserving
  rw [hi] at hr₀
  cases hr₀
  have hpc : Request.pc { r with outcome := some r.transfer.length, executedAt := s.time } =
      .finished false := by simp [Request.pc, hst]
  refine h.moveThread hi hm hreq (by omega) ?_ himage (by rw [hmarks]) ?_ hpc (by simp [hst]) ?_ ?_ ?_
  · refine ⟨fun j hj => (hr.known j hj).set hi hm.run, by simp [htime], by simp [Request.count],
      fun _ hs => ?_, fun hread => ?_, fun hread => ?_⟩
    · simp [hst] at hs
    · simp [hwrite] at hread
    · simp [hwrite] at hread
  · simp [Request.pc, hst, LookupPc.locked]
  · exact fun q _ _ => by simp [hmarks, hzero]
  · rw [hqueue]
    refine h.held.serve hi hserving rfl fun j hj => ?_
    rw [hthread] at hj ⊢
    cases hj
    exact ⟨rfl, hst⟩
  · rw [hthread, hmarks]
    obtain ⟨b, hb, hbytes⟩ := hholds
    refine ⟨hzero, b, hb, fun q hq k hk => ?_⟩
    obtain ⟨q₀, hq₀, ht⟩ := transfer_of_getElem?_set hi hm.transfer hq
    rw [ht] at hk
    rw [hbytes q₀ hq₀ k hk, Request.cells, Request.cells, ht]

theorem runIo (h : Inv s) (hi : s.requests[i]? = some r) (hthread : s.thread = .io i)
    (hst : r.stage = .served) {b : Buffer Cell} (hb : s.marks.data = some b) (x : Answer) :
    Inv (s.runIo i r b x) := by
  have hserving : s.thread.request = some i := by rw [hthread]; rfl
  have hrun : r.stage ≠ .completed := by simp [hst]
  obtain ⟨r₀, hr₀, hwrite, -⟩ := h.held.serving i hserving
  rw [hi] at hr₀
  cases hr₀
  obtain ⟨hzero, hholds⟩ : s.marks.lastLength = 0 ∧ Holds s.marks s.requests i := by
    have := h.filled
    rwa [hthread] at this
  have hbytes : ∀ k < r.transfer.length, b.bytes k = r.cells i k := by
    obtain ⟨b₀, hb₀, hbytes⟩ := hholds
    rw [hb] at hb₀
    cases hb₀
    exact hbytes r hi
  rw [Device.runIo]
  split
  · next hzeroes =>
      refine h.performed hi hserving hst rfl rfl (fun a => ?_) rfl rfl rfl hzero hholds
      refine h.good_written hi hrun hwrite ?_ ?_ le_rfl (fun k hk => ?_) ?_ a
      · rfl
      · rfl
      · -- the bytes of the write are zero
        have hall := hzeroes.1
        simp only [Bool.and_eq_true, List.all_eq_true, List.mem_range, beq_iff_eq] at hall
        have hk0 := hall.2.2 k hk
        rw [hbytes k hk] at hk0
        simp only [Request.cells] at hk0 ⊢
        rw [hk0]
      · simp [Request.count]
  · split
    · refine h.performed hi hserving hst rfl rfl (fun a => ?_) rfl rfl rfl hzero hholds
      refine h.good_written hi hrun hwrite ?_ ?_ le_rfl hbytes ?_ a
      · rfl
      · rfl
      · simp [Request.count]
    · refine h.failed hi hserving hst rfl rfl (fun a => ?_) rfl rfl rfl rfl rfl hzero
      refine h.good_written hi hrun hwrite ?_ ?_ (Nat.min_le_right _ _) (fun k hk => ?_) ?_ a
      · rfl
      · rfl
      · exact hbytes k (by omega)
      · simp [Request.count]

theorem serve (h : Inv s) (hi : s.requests[i]? = some r) (hserving : s.thread.request = some i)
    {x : Answer} (hok : Orderly s (.thread x)) : Inv (s.serve i r x) := by
  obtain ⟨r₀, hr₀, hwrite, hplace⟩ := h.held.serving i hserving
  rw [hi] at hr₀
  cases hr₀
  have hf := h.filled
  -- the marks as they were
  have hkeep : ∀ q ∈ s.requests, q.pc.looking = true → s.marks.lastOffset = s.marks.lastOffset ∧
      s.marks.lastLength = s.marks.lastLength ∧
      (s.marks.lastLength ≠ 0 → s.marks.data ≠ none) := fun q hq hlook =>
    ⟨rfl, rfl, (h.seen q hq).1 hlook⟩
  rw [Device.serve]
  cases hthread : s.thread with
  | idle => exact h
  | reset j =>
      rw [hthread] at hf hplace
      dsimp only
      split
      · exact h
      · next hfree =>
          refine h.advance hi hplace hserving rfl rfl rfl rfl rfl hplace rfl (fun q hq hlook => ?_) rfl
          have := (hfree ▸ h.guarded).not_looking (List.mem_map_of_mem hq)
          simp [hlook] at this
  | allocate j =>
      rw [hthread] at hf hplace
      dsimp only
      split
      · next b hb =>
          exact h.advance hi hplace hserving rfl rfl rfl rfl rfl hplace rfl hkeep ⟨hf, by simp [hb]⟩
      · next hnone =>
          split
          · exact h.advance hi hplace hserving rfl rfl rfl rfl rfl hplace rfl
              (fun q _ _ => ⟨rfl, rfl, by simp⟩) ⟨hf, by simp⟩
          · refine h.failed hi hserving hplace rfl rfl (fun a => ?_) rfl rfl rfl rfl rfl hf
            exact (h.image a).set hi rfl fun hs => absurd rfl hs.2
  | fill j =>
      rw [hthread] at hf hplace
      obtain ⟨hzero, hsome⟩ := hf
      obtain ⟨b, hb⟩ := Option.ne_none_iff_exists'.mp hsome
      refine h.advance hi hplace hserving rfl rfl rfl rfl rfl hplace rfl (fun q _ _ => ?_)
        ⟨hzero, Device.fill i r b, by simp [hb], fun q hq k hk => ?_⟩
      · exact ⟨rfl, rfl, by simp [hb]⟩
      · rw [hi] at hq
        cases hq
        exact if_pos hk
  | io j =>
      rw [hthread] at hplace hserving
      cases hserving
      dsimp only
      split
      · exact h
      · next b hb => exact h.runIo hi hthread hplace hb x
  | storeOffset j =>
      rw [hthread] at hf hplace
      simp only [Orderly, hthread] at hok
      obtain ⟨hzero, hholds⟩ := hf
      rw [hthread] at hserving
      cases hserving
      refine h.advance hi hplace (by rw [hthread]; rfl) rfl rfl rfl rfl rfl hplace rfl
        (fun q hq hlook => ?_) ⟨hzero, hholds, fun q hq => ?_⟩
      · simp [hok q hq] at hlook
      · rw [hi] at hq
        cases hq
        rfl
  | storeLength j =>
      rw [hthread] at hf hplace hserving
      simp only [Orderly, hthread] at hok
      cases hserving
      obtain ⟨-, ⟨b, hb, hbytes⟩, hoffset⟩ := hf
      change r.stage = .served at hplace
      have hrun : r.stage ≠ .completed := by simp [hplace]
      have hm : Moves s.time r { r with stage := .filled } := ⟨hrun, rfl, rfl, Or.inl ⟨rfl, rfl⟩⟩
      have hown := h.sound.before_eq_false hi hrun hi
      refine h.moveThread hi hm rfl le_rfl ?_ (fun a => ?_) rfl ?_ rfl (by simp) ?_ ?_ ?_
      · exact Sound.keep h.sound hm hi le_rfl rfl le_rfl (h.sound i r hi).timed (by simp) (by simp)
      · exact (h.image a).move hi rfl rfl fun hs => ⟨hs, rfl⟩
      · simp [Request.pc, hplace, LookupPc.locked]
      · intro q hq hlook
        simp [hok q hq] at hlook
      · refine h.held.serve hi (by rw [hthread]; rfl) rfl fun j hj => ?_
        cases hj
        exact ⟨rfl, Or.inl rfl⟩
      · intro b' hb' k hk
        dsimp only at hb' hk ⊢
        rw [hb] at hb'
        cases hb'
        rw [hoffset r hi, hbytes r hi k hk]
        exact (h.sound.good_cells hi hrun hwrite hk).set hi rfl fun _ _ => ⟨i, rfl, hown⟩
  | complete j =>
      rw [hthread] at hf hplace hserving
      cases hserving
      have hstage : r.stage = .filled ∨ (r.stage = .served ∧ r.outcome = none) := hplace
      have hrun : r.stage ≠ .completed := by
        rcases hstage with hst | ⟨hst, -⟩ <;> simp [hst]
      have hm : Moves s.time r { r with stage := .completed } := ⟨hrun, rfl, rfl, Or.inl ⟨rfl, rfl⟩⟩
      refine h.moveThread hi hm rfl le_rfl ?_ (fun a => ?_) rfl ?_ rfl (by simp) hkeep ?_ ?_
      · exact Sound.keep h.sound hm hi le_rfl rfl le_rfl (h.sound i r hi).timed (by simp) (by simp)
      · exact (h.image a).move hi rfl rfl fun hs => ⟨hs, rfl⟩
      · rcases hstage with hst | ⟨hst, -⟩ <;> simp [Request.pc, hst, LookupPc.locked]
      · refine h.held.serve hi (by rw [hthread]; rfl) rfl fun j hj => ?_
        cases hj
      · refine Fresh.set hf hi rfl rfl fun hl => ?_
        rcases hstage with hst | ⟨-, hnone⟩
        · exact ⟨⟨hl.1, Or.inr (Or.inl hst)⟩, rfl⟩
        · exact absurd hnone hl.1.2

theorem take (h : Inv s) (hi : s.requests[i]? = some r) (hthread : s.thread = .idle)
    {queue : List ℕ} (hqueue : s.queue = i :: queue) (x : Answer) : Inv (s.take i r queue x) := by
  have hheld : Held s.requests (i :: queue) .idle := by
    have := h.held
    rwa [hthread, hqueue] at this
  have hfresh : Fresh s.marks s.requests := h.filled.fresh
  obtain ⟨r₀, hr₀, -, hst⟩ := hheld.queued i List.mem_cons_self
  rw [hi] at hr₀
  cases hr₀
  have hkeep : ∀ q ∈ s.requests, q.pc.looking = true → s.marks.lastOffset = s.marks.lastOffset ∧
      s.marks.lastLength = s.marks.lastLength ∧
      (s.marks.lastLength ≠ 0 → s.marks.data ≠ none) := fun q hq hlook =>
    ⟨rfl, rfl, (h.seen q hq).1 hlook⟩
  have hlocked : r.pc.locked = false := by simp [Request.pc, hst, LookupPc.locked]
  rw [Device.take]
  split
  · have hm : Moves s.time r { r with stage := .served } :=
      ⟨by simp [hst], rfl, rfl, Or.inl ⟨rfl, rfl⟩⟩
    refine h.moveThread hi hm rfl le_rfl ?_ (fun a => ?_) rfl hlocked rfl (by simp) hkeep
      (hheld.take hi rfl rfl rfl) (hfresh.set hi rfl rfl fun hl => ?_)
    · exact Sound.keep h.sound hm hi le_rfl rfl le_rfl (h.sound i r hi).timed (by simp) (by simp)
    · exact (h.image a).move hi rfl rfl fun hs => ⟨hs, rfl⟩
    · simp [Landed] at hl
  · have hm : Moves s.time r { r with stage := .served, outcome := none } :=
      ⟨by simp [hst], rfl, rfl, Or.inr (Or.inl rfl)⟩
    refine h.moveThread hi hm rfl le_rfl ?_ (fun a => ?_) rfl hlocked rfl (by simp) hkeep
      (hheld.take hi rfl rfl (Or.inr ⟨rfl, rfl⟩)) (hfresh.set hi rfl rfl fun hl => ?_)
    · exact Sound.keep h.sound hm hi le_rfl rfl (by simp [Request.count]) (h.sound i r hi).timed
        (by simp) (by simp)
    · exact (h.image a).set hi rfl fun hs => absurd rfl hs.2
    · simp [Landed] at hl

theorem runThread (h : Inv s) {x : Answer} (hok : Orderly s (.thread x)) : Inv (s.runThread x) := by
  rw [Device.runThread]
  split
  · next i hserving =>
      split
      · exact h
      · next r hi => exact h.serve hi hserving hok
  · next hidle =>
      have hthread : s.thread = .idle := by
        cases ht : s.thread <;> simp_all [ThreadPc.request]
      split
      · exact h
      · next i queue hqueue =>
          split
          · exact h
          · next r hi => exact h.take hi hthread hqueue x

/-! ### Arrivals -/

/-- A new request, which reports nothing. -/
theorem arrived {s' : Device} (h : Inv s) (hreq : s'.requests = s.requests ++ [r'])
    (hmarks : s'.marks = s.marks) (himage : s'.image = s.image) (htime : s'.time = s.time)
    (hthread : s'.thread = s.thread) (hbefore : r'.before = s.done) (he : r'.executedAt = 0)
    (hcount : r'.count = 0) (hsent : r'.stage ≠ .sent) (hexecuted : r'.stage ≠ .executed)
    (hpc : r'.pc = .acquire ∨ r'.pc = .finished false)
    (hlooks : ∀ pc, r'.stage = .lookup pc → r'.transfer.direction = .read ∧ 0 < r'.transfer.length)
    (hheld : Held (s.requests ++ [r']) s'.queue s.thread) : Inv s' := by
  have hunlocked : r'.pc.locked = false := by rcases hpc with hpc | hpc <;> simp [hpc, LookupPc.locked]
  have hnotlooking : r'.pc.looking = false := by
    rcases hpc with hpc | hpc <;> simp [hpc, LookupPc.looking]
  have hgood {P : ℕ → Request → Prop} {x : ℕ} {c : Cell} (hg : Good P s.requests x c) :
      Good P (s.requests ++ [r']) x c := by
    refine hg.append fun i _ hx => ?_
    rw [Request.Covers, hcount] at hx
    omega
  have hcases : ∀ q ∈ s.requests ++ [r'], q ∈ s.requests ∨ q = r' := by simp
  refine ⟨?_, ?_, ?_, fun q hq => ?_, fun q hq => ?_, ?_, ?_, htime ▸ h.started⟩
  · rw [hreq, htime]
    refine h.sound.append (fun j hj => ?_) (he ▸ h.started) hcount hsent hexecuted
    rw [hbefore, Device.done] at hj
    split at hj
    · next q hq => exact ⟨q, hq, of_decide_eq_true hj⟩
    · cases hj
  · rw [hreq, himage]
    exact fun x => hgood (h.image x)
  · rw [hreq, hmarks, List.map_append]
    exact h.guarded.append hunlocked
  · rw [hreq] at hq
    rw [hmarks]
    rcases hcases q hq with hold | rfl
    · exact h.seen q hold
    · exact Marks.seen_of_not_looking hnotlooking
  · rw [hreq] at hq
    rcases hcases q hq with hold | rfl
    · exact h.looks q hold
    · exact hlooks
  · rw [hreq, hthread]
    exact hheld
  · rw [hreq, hmarks, hthread]
    refine h.filled.congr rfl rfl rfl (fun hf b hb k hk => hgood (hf b hb k hk)) fun j q hj hserving => ?_
    obtain ⟨q₀, hq₀, -⟩ := h.held.serving j hserving
    rw [List.getElem?_append_left (List.getElem?_eq_some_iff.mp hq₀).1] at hj
    exact ⟨q, hj, rfl⟩

theorem arrive (h : Inv s) (t : Transfer) (x : Answer) : Inv (s.arrive t x) := by
  rw [Device.arrive]
  split
  · exact h.arrived rfl rfl rfl rfl rfl rfl rfl rfl (by simp) (by simp) (Or.inr rfl) (by simp)
      h.held.append
  · next hlen =>
      rw [not_or] at hlen
      split
      · next hread =>
          refine h.arrived rfl rfl rfl rfl rfl rfl rfl rfl (by simp) (by simp) (Or.inl rfl) ?_ h.held.append
          exact fun _ _ => ⟨hread, Nat.pos_of_ne_zero hlen.2⟩
      · next hwrite =>
          split
          · exact h.arrived rfl rfl rfl rfl rfl rfl rfl rfl (by simp) (by simp) (Or.inr rfl) (by simp)
              (h.held.enqueue hwrite rfl)
          · exact h.arrived rfl rfl rfl rfl rfl rfl rfl rfl (by simp) (by simp) (Or.inr rfl) (by simp)
              h.held.append

theorem step (h : Inv s) {e : Event} (hok : Orderly s e) : Inv (s.step e) := by
  cases e with
  | arrive t x => exact h.arrive t x
  | dispatch i x => exact h.dispatch hok
  | execute i x => exact h.execute i x
  | complete i => exact h.complete hok
  | thread x => exact h.runThread hok

theorem notStale (h : Inv s) : s.NotStale := by
  intro q hq hread _ i a hi hwrite hbefore x hqx hax
  obtain ⟨n, hn⟩ := List.getElem?_of_mem hq
  obtain ⟨hle, hlt⟩ := hqx
  have hgood := (h.sound n q hn).answer hread (x - q.transfer.offset) (by omega)
  rw [show q.transfer.offset + (x - q.transfer.offset) = x by omega] at hgood
  have hstored : Stored i a := by
    refine ⟨hwrite, fun hnone => ?_⟩
    simp only [Request.Covers, Request.count, hnone, Option.getD_none] at hax
    omega
  obtain ⟨j, hj, hnot⟩ := hgood.2 i a hi ⟨hbefore, hstored⟩ hax
  obtain ⟨b, hb, hbw, hble, hblt, hvalue⟩ := hgood.1 j hj
  exact ⟨j, b, hb, hbw, hble, hblt, hvalue, hnot⟩

end Inv

/-! ### Runs -/

/-- A device that has served no request yet. -/
def Device.start (image : ℕ → UInt8) (capacity : ℕ) (byteSwap directIo setZeroData : Bool) : Device :=
  ⟨⟨none, 0, 0, none⟩, fun x => ⟨image x, none⟩, capacity, byteSwap, directIo, setZeroData, [], [],
    .idle, 1⟩

/-- Every orderly run of every device: a read that was dispatched after a write had completed
returns, for every byte that the two have in common, the value of a write that had not completed
when that one was dispatched. -/
theorem notStale_of_reach {image : ℕ → UInt8} {capacity : ℕ} {byteSwap directIo setZeroData : Bool}
    {s : Device}
    (h : Reach Device.step Orderly (Device.start image capacity byteSwap directIo setZeroData) s) :
    s.NotStale := by
  have hinv : Inv s := by
    refine h.invariant ?_ fun s e hs he => hs.step he
    refine ⟨fun i r hi => ?_, fun x => ⟨fun j hj => ?_, fun i r hi => ?_⟩, Guarded.nil, by simp [Device.start],
      by simp [Device.start], ⟨List.nodup_nil, by simp [Device.start], fun i hi => ?_⟩,
      Fresh.of_zero rfl, Nat.one_pos⟩
    · simp [Device.start] at hi
    · simp [Device.start] at hj
    · simp [Device.start] at hi
    · simp [Device.start, ThreadPc.request] at hi
  exact hinv.notStale

/-- A system that serves every request in full. -/
def Answer.full : Answer := ⟨true, true, fun _ => 9, true, true, 100⟩

/-- A write of two bytes that runs to its end, and a read of both that is answered from the
buffer. -/
def writeThenRead : List Event :=
  [.arrive ⟨.write, 4, 2, fun j => 7 + j.toUInt8⟩ .full, .dispatch 0 .full, .execute 0 .full,
    .complete 0, .complete 0, .arrive ⟨.read, 4, 2, fun _ => 0⟩ .full] ++
    List.replicate 8 (.dispatch 1 .full)

/-- The device of the runs below. -/
def Device.blank : Device := .start (fun _ => 0) 100 false false true

theorem notStale_writeThenRead :
    (writeThenRead.foldl Device.step .blank).NotStale ∧
      ((writeThenRead.foldl Device.step .blank).requests.map fun r =>
        (r.stage, (r.bytes 1).value, r.before 0)) =
        [(.completed, 8, false), (.completed, 8, true)] := by
  refine ⟨notStale_of_reach (Reach.start.foldl ?_), rfl⟩
  -- the bytes of the device are not swapped
  have hswap {P : Prop} (h : false = true) : P := absurd h Bool.false_ne_true
  refine ⟨trivial, hswap, trivial, ?_, ?_, trivial, hswap, hswap, hswap, hswap, hswap, hswap, hswap,
    hswap, trivial⟩
  · intro r hr _ _
    cases hr
    exact ⟨rfl, fun hread => by cases hread⟩
  · intro r hr hst
    cases hr
    cases hst

/-- A read of two bytes that the lower device executes first; a write of them that is executed and
runs to its end before the completion routine of the read does; and a read that comes after. -/
def lateInstall : List Event :=
  .arrive ⟨.read, 4, 2, fun _ => 0⟩ .full :: List.replicate 5 (.dispatch 0 .full) ++
    [.execute 0 .full, .arrive ⟨.write, 4, 2, fun j => 7 + j.toUInt8⟩ .full, .dispatch 1 .full,
      .execute 1 .full, .complete 1, .complete 1, .complete 0, .complete 0,
      .arrive ⟨.read, 4, 2, fun _ => 0⟩ .full] ++
    List.replicate 8 (.dispatch 2 .full)

/-- The second read gets the bytes that the image held before the write. -/
theorem not_notStale_lateInstall :
    ∃ s, Reach Device.step (fun _ _ => True) .blank s ∧ ¬ s.NotStale := by
  refine ⟨lateInstall.foldl Device.step .blank, Reach.start.foldl ?_, fun h => ?_⟩
  · simp [lateInstall, AllowedAll, List.replicate]
  · obtain ⟨j, b, hb, hw, -, -, hvalue, -⟩ := h _ (List.mem_of_getElem? (i := 2) rfl) rfl rfl 1 _ rfl rfl
      rfl 4 (by decide) (by decide)
    rcases j with _ | _ | _ | j <;> cases hb
    · cases hw
    · exact absurd hvalue (by decide)
    · cases hw

end KernelDrivers.ImDisk.Parallel
