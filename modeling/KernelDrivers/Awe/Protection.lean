import KernelDrivers.Awe.Request

/-!
# The protection of AWEAlloc is balanced

The counters of a context against the requests that hold its protection, for any number of
requests that run in any order.  A read that starts behind the end of the file completes without
giving its protection back; every run in which no request takes that exit is balanced.

## Main definitions

* `Balanced c` — the counters, the exclusion of writers, and what a request leaves behind.
* `PastEof c r` — the next step of `r` is that exit.

## Main results

* `balanced_of_reach` — every run without that exit is balanced.
* `not_balanced_pastEof` — one read past the end of an empty file is not.
-/

namespace KernelDrivers.Awe

open Request

variable {c c' : Context} {r r' : Request} {x : Answer}

def Request.Completed (r : Request) : Prop := ∃ status, r.pc = .completed status

/-- A read that was granted protection and finds that it starts behind the end of the file. -/
def PastEof (c : Context) (r : Request) : Prop :=
  r.pc = .eofCheck ∧ r.major = .read ∧ r.byteOffset > c.virtualSize

structure Balanced (c : Conf Context Request) : Prop where
  readers : c.shared.activeReaders = c.threads.countP fun r => r.holdsRead
  writers : c.shared.activeWriters = c.threads.countP fun r => r.holdsWrite
  released : ∀ r ∈ c.threads, r.Completed → r.holdsRead = false ∧ r.holdsWrite = false
  exclusive : ∀ (i j : ℕ) (r r' : Request), i ≠ j → c.threads[i]? = some r → c.threads[j]? = some r' →
    r.holdsWrite = true → r'.holdsRead = false ∧ r'.holdsWrite = false
  quiet : (∀ r ∈ c.threads, r.Completed) → c.shared.activeReaders = 0 ∧ c.shared.activeWriters = 0

/-! ### What a request holds where -/

/-- The protection that a request holds at each place. -/
def Placed (r : Request) : Prop :=
  match r.pc with
  | .entry | .acquire | .completed _ => r.holdsRead = false ∧ r.holdsWrite = false
  | .eofCheck | .sizeCheck | .clip | .copy | .fault =>
      r.holdsRead = true ∧ r.holdsWrite = false
  | .upgrade => (r.holdsRead = true ∧ r.holdsWrite = false) ∧ r.major = .write
  | .grow => r.holdsRead = decide (r.major ≠ .setInformation) ∧ r.holdsWrite = true
  | .downgrade => r.holdsRead = true ∧ r.holdsWrite = true
  | .release read write _ => r.holdsRead = read ∧ r.holdsWrite = write

/-- What a step does to the counters, and when it can be granted protection. -/
structure Effect (c : Context) (r : Request) (c' : Context) (r' : Request) : Prop where
  placed : Placed r'
  readers : c'.activeReaders + (if r.holdsRead then 1 else 0) =
    c.activeReaders + (if r'.holdsRead then 1 else 0)
  writers : c'.activeWriters + (if r.holdsWrite then 1 else 0) =
    c.activeWriters + (if r'.holdsWrite then 1 else 0)
  forRead : r.holdsRead = false → r'.holdsRead = true → c.activeWriters < 1
  forWrite : r.holdsWrite = false → r'.holdsWrite = true →
    c.activeWriters < 1 ∧ c.activeReaders < (if r.holdsRead then 2 else 1) ∧
      r'.holdsRead = r.holdsRead

/-- A step that leaves the counters and the protection of the request as they are. -/
theorem Effect.of_same (hr : c'.activeReaders = c.activeReaders)
    (hw : c'.activeWriters = c.activeWriters) (hread : r'.holdsRead = r.holdsRead)
    (hwrite : r'.holdsWrite = r.holdsWrite) (hp : Placed r') : Effect c r c' r' where
  placed := hp
  readers := by rw [hr, hread]
  writers := by rw [hw, hwrite]
  forRead h h' := by simp [hread, h] at h'
  forWrite h h' := by simp [hwrite, h] at h'

section Counters

variable (hr0 : 0 ≤ c.activeReaders) (hw0 : 0 ≤ c.activeWriters)
include hr0

theorem tryAcquireProtection_read :
    tryAcquireProtection c false false = (c, .deviceBusy) ∨
      c.activeWriters < 1 ∧ tryAcquireProtection c false false =
        ({ c with activeReaders := c.activeReaders + 1 }, .success) := by
  have hpos : ¬ c.activeReaders + 1 ≤ 0 := by omega
  by_cases hbusy : c.activeWriters ≥ 1 ∨ c.activeReaders ≥ 2 ^ 31 - 1
  · left
    simp only [tryAcquireProtection, hbusy, if_true, Bool.false_eq_true, if_false]
  · right
    refine ⟨by omega, ?_⟩
    simp only [tryAcquireProtection, hbusy, hpos, Bool.false_eq_true, if_false]

omit hr0
include hw0

theorem tryAcquireProtection_write (owns : Bool) :
    tryAcquireProtection c true owns = (c, .deviceBusy) ∨
      (c.activeWriters < 1 ∧ c.activeReaders < (if owns then 2 else 1)) ∧
        tryAcquireProtection c true owns =
          ({ c with activeWriters := c.activeWriters + 1 }, .success) := by
  have hpos : ¬ c.activeWriters + 1 ≤ 0 := by omega
  by_cases hbusy : c.activeWriters ≥ 1 ∨ c.activeReaders ≥ (if owns then 2 else 1)
  · left
    simp only [tryAcquireProtection, hbusy, if_true]
  · right
    refine ⟨by omega, ?_⟩
    simp only [tryAcquireProtection, hbusy, hpos, if_true, if_false]

end Counters

/-! ### Routines that leave the counters alone -/

theorem addBlock_counters {n : ℕ} {granted : Option ℕ} (h : addBlock c n granted = some c') :
    c'.activeReaders = c.activeReaders ∧ c'.activeWriters = c.activeWriters := by
  cases granted with
  | none => simp [addBlock] at h
  | some granted =>
      simp only [addBlock] at h
      split at h
      · simp at h
      · cases h
        exact ⟨rfl, rfl⟩

theorem setSizePass_counters (c : Context) (endOfFile : ℤ) (g : Grant) :
    (setSizePass c endOfFile g).1.activeReaders = c.activeReaders ∧
      (setSizePass c endOfFile g).1.activeWriters = c.activeWriters := by
  rw [setSizePass]
  split
  · exact ⟨rfl, rfl⟩
  · split
    · exact ⟨rfl, rfl⟩
    · split
      · next c' h =>
          obtain ⟨granted, -, hadd⟩ := List.exists_of_findSome?_eq_some h
          exact addBlock_counters hadd
      · exact ⟨rfl, rfl⟩

theorem mapPage_counters (c : Context) (o : ℤ) (p : PageContext) (g : MapGrant) :
    (mapPage c o p g).1.activeReaders = c.activeReaders ∧
      (mapPage c o p g).1.activeWriters = c.activeWriters := by
  unfold mapPage
  split
  · exact ⟨rfl, rfl⟩
  · dsimp only
    split
    · exact ⟨rfl, rfl⟩
    · split
      · exact ⟨rfl, rfl⟩
      · split <;> exact ⟨rfl, rfl⟩

/-! ### The steps of a request -/

theorem effect_enter (hpc : r.pc = .entry) (h : Placed r) (x : Answer) :
    Effect c r c (r.enter x) := by
  simp only [Placed, hpc] at h
  rw [enter]
  split
  · split <;> exact .of_same rfl rfl rfl rfl h
  · split
    · exact .of_same rfl rfl rfl rfl h
    · split
      · exact .of_same rfl rfl rfl rfl h
      · split <;> exact .of_same rfl rfl rfl rfl h

theorem effect_acquire (hpc : r.pc = .acquire) (h : Placed r) (hr0 : 0 ≤ c.activeReaders)
    (hw0 : 0 ≤ c.activeWriters) : Effect c r (r.acquire c).1 (r.acquire c).2 := by
  simp only [Placed, hpc] at h
  obtain ⟨hread, hwrite⟩ := h
  rw [Request.acquire]
  split
  · next hmajor =>
      obtain heq | ⟨hfree, heq⟩ := tryAcquireProtection_write hw0 false
      · rw [heq]
        exact .of_same rfl rfl rfl rfl ⟨hread, hwrite⟩
      · rw [heq]
        exact {
          placed := by simp [Placed, hread, hmajor]
          readers := rfl
          writers := by simp [hwrite]
          forRead := by simp [hread]
          forWrite := fun _ _ => by simpa [hread] using hfree }
  · obtain heq | ⟨hfree, heq⟩ := tryAcquireProtection_read hr0
    · rw [heq]
      exact .of_same rfl rfl rfl rfl ⟨hread, hwrite⟩
    · rw [heq]
      exact {
        placed := ⟨rfl, hwrite⟩
        readers := by simp [hread]
        writers := rfl
        forRead := fun _ _ => hfree
        forWrite := by simp [hwrite] }

theorem effect_eofCheck (hpc : r.pc = .eofCheck) (h : Placed r) (hok : ¬ PastEof c r) :
    Effect c r c (r.eofCheck c) := by
  simp only [Placed, hpc] at h
  rw [Request.eofCheck, if_neg fun hpast => hok ⟨hpc, hpast⟩]
  exact .of_same rfl rfl rfl rfl h

theorem effect_sizeCheck (hpc : r.pc = .sizeCheck) (h : Placed r) :
    Effect c r c (r.sizeCheck c) := by
  simp only [Placed, hpc] at h
  rw [Request.sizeCheck]
  split
  · split
    · next hmajor => exact .of_same rfl rfl rfl rfl ⟨h, hmajor⟩
    · exact .of_same rfl rfl rfl rfl h
  · exact .of_same rfl rfl rfl rfl h

theorem effect_upgrade (hpc : r.pc = .upgrade) (h : Placed r) (hw0 : 0 ≤ c.activeWriters) :
    Effect c r (r.upgrade c).1 (r.upgrade c).2 := by
  simp only [Placed, hpc] at h
  obtain ⟨⟨hread, hwrite⟩, hmajor⟩ := h
  rw [Request.upgrade]
  obtain heq | ⟨hfree, heq⟩ := tryAcquireProtection_write hw0 true
  · rw [heq]
    exact .of_same rfl rfl rfl rfl ⟨hread, hwrite⟩
  · rw [heq]
    exact {
      placed := by simp [Placed, hread, hmajor]
      readers := rfl
      writers := by simp [hwrite]
      forRead := by simp [hread]
      forWrite := fun _ _ => by simpa [hread] using hfree }

theorem effect_grow (hpc : r.pc = .grow) (h : Placed r) (x : Answer) :
    Effect c r (r.grow c x).1 (r.grow c x).2 := by
  have hp := h
  simp only [Placed, hpc] at h
  obtain ⟨hr, hw⟩ := setSizePass_counters c r.newSize x.grant
  rw [Request.grow]
  split
  · next c' heq =>
      rw [heq] at hr hw
      exact .of_same hr hw rfl rfl hp
  · next c' status heq =>
      rw [heq] at hr hw
      split
      · next hmajor =>
          have h : r.holdsRead = false ∧ r.holdsWrite = true := by simpa [hmajor] using h
          exact .of_same hr hw rfl rfl h
      · next hmajor =>
          have h : r.holdsRead = true ∧ r.holdsWrite = true := by simpa [hmajor] using h
          split <;> exact .of_same hr hw rfl rfl h

theorem effect_transfer {m : Mapping} (hpc : r.pc = .copy)
    (h : r.holdsRead = true ∧ r.holdsWrite = false) :
    Effect c r (r.transfer c m).1 (r.transfer c m).2 := by
  unfold Request.transfer
  dsimp only
  split
  · exact .of_same rfl rfl rfl rfl h
  · split <;> exact .of_same rfl rfl rfl rfl (by simpa only [Placed, hpc] using h)

theorem effect_copyPass (hpc : r.pc = .copy) (h : Placed r) (x : Answer) :
    Effect c r (r.copyPass c x).1 (r.copyPass c x).2 := by
  simp only [Placed, hpc] at h
  rw [Request.copyPass]
  split
  · obtain ⟨hr, hw⟩ := mapPage_counters c (-1) r.page x.map
    exact .of_same hr hw rfl rfl h
  · obtain ⟨hr, hw⟩ := mapPage_counters c (r.byteOffset + r.lengthDone) r.page x.map
    split
    · next c' page heq =>
        rw [heq] at hr hw
        split
        · next m _ =>
            -- the copy starts from the context behind the mapping
            have := effect_transfer (c := c') (r := { r with page := page }) (m := m) hpc h
            exact ⟨this.placed, by rw [← hr]; exact this.readers, by rw [← hw]; exact this.writers,
              fun h' => absurd h.1 (by simp [h']), by
                rw [← hr, ← hw]
                exact this.forWrite⟩
        · exact .of_same hr hw rfl rfl h
    · next c' page status _ heq =>
        rw [heq] at hr hw
        exact .of_same hr hw rfl rfl h

theorem effect_release {read write : Bool} {status : Status} (hpc : r.pc = .release read write status)
    (h : Placed r) :
    Effect c r (r.release c read write status).1 (r.release c read write status).2 := by
  simp only [Placed, hpc] at h
  obtain ⟨rfl, rfl⟩ := h
  exact {
    placed := by simp [Request.release, Placed, Request.complete]
    readers := by cases hh : r.holdsRead <;> simp [Request.release, releaseProtection, hh]
    writers := by cases hh : r.holdsWrite <;> simp [Request.release, releaseProtection, hh]
    forRead := by simp [Request.release]
    forWrite := by simp [Request.release] }

/-- What one step of a request does, wherever it is. -/
theorem effect_act (h : Placed r) (hr0 : 0 ≤ c.activeReaders) (hw0 : 0 ≤ c.activeWriters)
    (hok : ¬ PastEof c r) (x : Answer) : Effect c r (r.act c x).1 (r.act c x).2 := by
  unfold Request.act
  split
  · next hpc => exact effect_enter hpc h x
  · next hpc => exact effect_acquire hpc h hr0 hw0
  · next hpc => exact effect_eofCheck hpc h hok
  · next hpc => exact effect_sizeCheck hpc h
  · next hpc => exact effect_upgrade hpc h hw0
  · next hpc => exact effect_grow hpc h x
  · next hpc =>
      simp only [Placed, hpc] at h
      exact {
        placed := ⟨h.1, rfl⟩
        readers := rfl
        writers := by simp [releaseProtection, h.2]
        forRead := by simp [h.1]
        forWrite := by simp }
  · next hpc =>
      simp only [Placed, hpc] at h
      rw [Request.clip]
      split <;> exact .of_same rfl rfl rfl rfl h
  · next hpc => exact effect_copyPass hpc h x
  · next hpc => exact effect_release hpc h
  · exact .of_same rfl rfl rfl rfl h
  · exact .of_same rfl rfl rfl rfl h

/-! ### Runs -/

/-- The invariant of a run.  A writer leaves no reader but itself. -/
structure Counted (c : Conf Context Request) : Prop where
  readers : c.shared.activeReaders = c.threads.countP fun r => r.holdsRead
  writers : c.shared.activeWriters = c.threads.countP fun r => r.holdsWrite
  placed : ∀ r ∈ c.threads, Placed r
  oneWriter : c.threads.countP (fun r => r.holdsWrite) ≤ 1
  alone : 0 < c.threads.countP (fun r => r.holdsWrite) →
    c.threads.countP (fun r => r.holdsRead && !r.holdsWrite) = 0

namespace Counted

variable {k : Conf Context Request}

theorem spawn (h : Counted k) {t : Request} (ht : t.Fresh) :
    Counted { k with threads := k.threads ++ [t] } where
  readers := by simpa [ht.holdsRead] using h.readers
  writers := by simpa [ht.holdsWrite] using h.writers
  placed := by
    intro r hr
    rcases List.mem_append.mp hr with hr | hr
    · exact h.placed r hr
    · rw [List.mem_singleton.mp hr]
      simp [Placed, ht.pc, ht.holdsRead, ht.holdsWrite]
  oneWriter := by simpa [ht.holdsWrite] using h.oneWriter
  alone := by simpa [ht.holdsWrite, ht.holdsRead] using h.alone

theorem run (h : Counted k) {i : ℕ} {t : Request} (x : Answer) (hok : ¬ PastEof k.shared t)
    (ht : k.threads[i]? = some t) :
    Counted ⟨(t.act k.shared x).1, k.threads.set i (t.act k.shared x).2⟩ := by
  have hmem := List.mem_of_getElem? ht
  have e := effect_act (h.placed t hmem) (by rw [h.readers]; omega) (by rw [h.writers]; omega) hok x
  generalize t.act k.shared x = p at e
  obtain ⟨c', t'⟩ := p
  dsimp only at e
  have hR := Conf.countP_run (fun r => r.holdsRead) t' ht
  have hW := Conf.countP_run (fun r => r.holdsWrite) t' ht
  have hB := Conf.countP_run (fun r => r.holdsRead && !r.holdsWrite) t' ht
  have hBR : k.threads.countP (fun r => r.holdsRead && !r.holdsWrite) ≤
      k.threads.countP fun r => r.holdsRead :=
    List.countP_mono_left fun r _ hr => by simp_all
  have hreaders := e.readers
  have hwriters := e.writers
  rw [h.readers] at hreaders
  rw [h.writers] at hwriters
  have hgotR := e.forRead
  have hgotW := e.forWrite
  rw [h.readers, h.writers] at hgotW
  rw [h.writers] at hgotR
  have halone := h.alone
  have hone := h.oneWriter
  refine ⟨?_, ?_, ?_, ?_, ?_⟩
  · dsimp only
    split_ifs at hreaders hR <;> omega
  · dsimp only
    split_ifs at hwriters hW <;> omega
  · intro r hr
    rcases List.mem_or_eq_of_mem_set hr with hr | rfl
    · exact h.placed r hr
    · exact e.placed
  · dsimp only
    cases hw : t.holdsWrite <;> cases hw' : t'.holdsWrite <;>
      simp only [hw, hw', if_true, if_false, Bool.false_eq_true] at hW hgotW <;> try omega
    have := (hgotW trivial trivial).1
    omega
  · dsimp only
    intro hpos
    cases hw : t.holdsWrite <;> cases hw' : t'.holdsWrite <;>
      cases hr : t.holdsRead <;> cases hr' : t'.holdsRead <;>
      simp only [hw, hw', hr, hr', Bool.not_true, Bool.not_false, Bool.and_true, Bool.and_false,
        Bool.false_eq_true, if_true, if_false, forall_const, reduceCtorEq, IsEmpty.forall_iff]
        at hW hgotW hgotR hB hR <;> omega

theorem balanced (h : Counted k) : Balanced k where
  readers := h.readers
  writers := h.writers
  released r hr hc := by
    obtain ⟨status, hpc⟩ := hc
    simpa only [Placed, hpc] using h.placed r hr
  exclusive i j r r' hij hi hj hw := by
    have hpos : 0 < k.threads.countP fun r => r.holdsWrite :=
      List.countP_pos_iff.mpr ⟨r, List.mem_of_getElem? hi, hw⟩
    have hnw : r'.holdsWrite = false := by
      by_contra hw'
      have := Conf.two_le_countP (p := fun r => r.holdsWrite) hij hi hj hw (by simpa using hw')
      have := h.oneWriter
      omega
    refine ⟨?_, hnw⟩
    have hnone := List.countP_eq_zero.mp (h.alone hpos) r' (List.mem_of_getElem? hj)
    simpa [hnw] using hnone
  quiet hall := by
    have hnone : ∀ r ∈ k.threads, r.holdsRead = false ∧ r.holdsWrite = false := by
      intro r hr
      obtain ⟨status, hpc⟩ := hall r hr
      simpa only [Placed, hpc] using h.placed r hr
    refine ⟨?_, ?_⟩
    · rw [h.readers, List.countP_eq_zero.mpr fun r hr => by simp [(hnone r hr).1]]
      rfl
    · rw [h.writers, List.countP_eq_zero.mpr fun r hr => by simp [(hnone r hr).2]]
      rfl

end Counted

/-- Any request may come in at any time, and any request may take its next step. -/
def Comes (_ : Conf Context Request) : Sched Request Answer → Prop
  | .spawn r => r.Fresh
  | .run _ _ => True

/-- The same, but no read takes the exit for a start behind the end of the file. -/
def Within (k : Conf Context Request) : Sched Request Answer → Prop
  | .spawn r => r.Fresh
  | .run i _ => ∀ r, k.threads[i]? = some r → ¬ PastEof k.shared r

/-- In every run in which no granted read starts behind the end of the file, each request gives
back what it was granted, the counters are the numbers of requests that hold protection, a writer
is alone, and both counters are zero when no request is in progress. -/
theorem balanced_of_reach {k : Conf Context Request} (hr : c.activeReaders = 0)
    (hw : c.activeWriters = 0) (h : Reach (Conf.step Request.act) Within ⟨c, []⟩ k) :
    Balanced k := by
  refine Counted.balanced (Conf.reach_invariant (P := Counted) h ?_ ?_ ?_)
  · exact ⟨by simpa using hr, by simpa using hw, by simp, by simp, by simp⟩
  · intro k t hk ht
    exact hk.spawn ht
  · intro k i x t hk hok ht
    exact hk.run x (hok t ht) ht

/-- One byte at an offset. -/
def byteRequest (major : Major) (byteOffset : ℤ) : Request where
  major := major
  byteOffset := byteOffset
  length := 1
  systemBuffer := fun _ => 7
  newSize := 0
  lengthDone := 0
  page := PageContext.empty
  information := 0
  pc := .entry
  holdsRead := false
  holdsWrite := false

theorem byteRequest_fresh (major : Major) {byteOffset : ℤ} (h0 : 0 ≤ byteOffset)
    (h : byteOffset < 2 ^ 63) : (byteRequest major byteOffset).Fresh :=
  ⟨rfl, rfl, rfl, rfl, rfl, by simp [byteRequest], ⟨by change _ ≤ byteOffset; omega, h⟩,
    by simp [byteRequest]⟩

/-- A system that grants everything, one page at a time. -/
def generous : Answer := ⟨true, ⟨true, [some allocPageSize]⟩, ⟨true, true⟩⟩

/-- A write that grows an empty file, stopped where it holds both protections. -/
theorem balanced_growingWrite :
    Balanced ([.spawn (byteRequest .write 0), .run 0 generous, .run 0 generous, .run 0 generous,
      .run 0 generous, .run 0 generous].foldl (Conf.step Request.act) ⟨Context.empty, []⟩) := by
  refine balanced_of_reach (c := Context.empty) rfl rfl (Reach.start.foldl ?_)
  refine ⟨byteRequest_fresh .write (by decide) (by decide), ?_, ?_, ?_, ?_, ?_, trivial⟩ <;>
  · rintro r hr
    cases hr
    rintro ⟨-, hmajor, -⟩
    cases hmajor

/-- A read of one byte at offset 1 of an empty file completes with its protection still counted:
no later request can set the size or grow the file. -/
theorem not_balanced_pastEof :
    ∃ k, Reach (Conf.step Request.act) Comes ⟨Context.empty, []⟩ k ∧
      (∀ r ∈ k.threads, r.Completed) ∧ k.shared.activeReaders = 1 ∧ ¬ Balanced k := by
  refine ⟨[.spawn (byteRequest .read 1), .run 0 generous, .run 0 generous,
    .run 0 generous].foldl (Conf.step Request.act) ⟨Context.empty, []⟩, ?_, ?_, rfl, ?_⟩
  · exact Reach.start.foldl
      ⟨byteRequest_fresh .read (by decide) (by decide), trivial, trivial, trivial, trivial⟩
  · intro r hr
    rw [List.mem_singleton.mp hr]
    exact ⟨.endOfFile, rfl⟩
  · intro hb
    have := hb.released _ (List.mem_singleton.mpr rfl) ⟨.endOfFile, rfl⟩
    exact absurd this.1 (by decide)

end KernelDrivers.Awe
