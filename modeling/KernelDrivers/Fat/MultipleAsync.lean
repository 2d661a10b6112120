import KernelDrivers.Lib.Interleave

/-!
# Requests that run in parallel

`FatMultipleAsync` launches an associated request for every run of a transfer.  The completion
routine of a request puts the request's status into the master Irp when it is an error, and counts
down; the one that comes to zero signals the waiter, or frees the context when nobody waits.  The
routines run on any processors in any order, with others in between their two parts.

An error overwrites the one that is there, whichever run it is from.

## Main definitions

* `completionRoutine` — the two routines, which differ behind the last request only.
* `fatMultipleAsync` — the requests as they are launched.
* `run` — a schedule of the parts of the routines.
* `CompletesRight` — the contract of the routines.

## Main results

* `Taken.run` — what holds behind every schedule: the waiter is signalled once, after the last request.
* `completesRight_iff` — for which schedules the status is the one that was promised.
-/

namespace KernelDrivers.Fat.Multiple

/-- `IO_STATUS_BLOCK`.  A status is an error when it is negative. -/
structure IoStatus where
  status : ℤ
  information : ℕ
  deriving DecidableEq

/-- What a completion routine has done. -/
inductive Stage
  | launched
  | recorded
  | completed
  deriving DecidableEq

/-- An associated request, with the status that the device completes it with. -/
structure Associated where
  vbo : ℕ
  ioStatus : IoStatus
  stage : Stage

/-- The context and the master Irp.  `signals` counts the signals to the waiter, `frees` how often
the context was freed. -/
structure Context where
  irpCount : ℤ
  master : IoStatus
  wait : Bool
  requestedByteCount : ℕ
  signals : ℕ
  frees : ℕ

/-- Behind the last request. -/
def Context.finish (c : Context) : Context :=
  if c.wait then { c with signals := c.signals + 1 }
  else { c with
    master := if 0 ≤ c.master.status then { c.master with information := c.requestedByteCount }
      else c.master
    frees := c.frees + 1 }

/-- `InterlockedDecrement`, and what follows from it. -/
def Context.decrement (c : Context) : Context :=
  if c.irpCount - 1 = 0 then ({ c with irpCount := c.irpCount - 1 } : Context).finish
  else { c with irpCount := c.irpCount - 1 }

/-- `FatMultiSyncCompletionRoutine` and `FatMultiAsyncCompletionRoutine`, the next part. -/
def completionRoutine (c : Context) (t : Associated) (_ : Unit) : Context × Associated :=
  match t.stage with
  | .launched =>
      (if 0 ≤ t.ioStatus.status then c else { c with master := t.ioStatus },
        { t with stage := .recorded })
  | .recorded => (c.decrement, { t with stage := .completed })
  | .completed => (c, t)

/-- A run of the transfer. -/
structure IoRun where
  vbo : ℕ
  ioStatus : IoStatus

/-- `FatMultipleAsync`: the count is there before the first request is launched. -/
def fatMultipleAsync (wait : Bool) (requestedByteCount : ℕ) (master : IoStatus) (runs : List IoRun) :
    Conf Context Associated where
  shared := ⟨runs.length, master, wait, requestedByteCount, 0, 0⟩
  threads := runs.map fun r => ⟨r.vbo, r.ioStatus, .launched⟩

/-- The state when the routines have taken their parts in this order. -/
def run (c : Conf Context Associated) (es : List ℕ) : Conf Context Associated :=
  es.foldl (fun c i => c.step completionRoutine (.run i ())) c

/-! ## What is promised -/

/-- Every request is completed. -/
def AllDone (c : Conf Context Associated) : Prop := ∀ t ∈ c.threads, t.stage = .completed

instance (c : Conf Context Associated) : Decidable (AllDone c) :=
  inferInstanceAs (Decidable (∀ t ∈ c.threads, _))

/-- The first run, by its Vbo, that failed. -/
def FirstError (runs : List IoRun) (r : IoRun) : Prop :=
  r ∈ runs ∧ r.ioStatus.status < 0 ∧ ∀ r' ∈ runs, r'.ioStatus.status < 0 → r.vbo ≤ r'.vbo

/-- The waiter is signalled once, after the last request, and without a waiter the context is freed
then.  The final status is unchanged if no run failed and that of the first run that failed if one
did. -/
structure CompletesRight (c₀ : Conf Context Associated) (runs : List IoRun) (es : List ℕ) : Prop where
  signals : ∀ es', es' <+: es → (run c₀ es').shared.signals =
    if c₀.shared.wait = true ∧ AllDone (run c₀ es') then 1 else 0
  frees : ∀ es', es' <+: es → (run c₀ es').shared.frees =
    if c₀.shared.wait = false ∧ AllDone (run c₀ es') then 1 else 0
  success : AllDone (run c₀ es) → (∀ r ∈ runs, 0 ≤ r.ioStatus.status) →
    (run c₀ es).shared.master.status = c₀.shared.master.status
  error : AllDone (run c₀ es) → ∀ r, FirstError runs r →
    (run c₀ es).shared.master.status = r.ioStatus.status

/-- The run that was the last one to record its error. -/
def LastError (runs : List IoRun) (es : List ℕ) (r : IoRun) : Prop :=
  ∃ i ∈ es, runs[i]? = some r ∧ r.ioStatus.status < 0 ∧ ∀ j ∈ es, ∀ r', runs[j]? = some r' →
    r'.ioStatus.status < 0 → es.idxOf j ≤ es.idxOf i

/-! ## The state behind a schedule -/

/-- A request that is not completed. -/
def pending (t : Associated) : Bool := t.stage ≠ .completed

/-- What holds when the parts `es` were taken. -/
structure Taken (c₀ : Conf Context Associated) (runs : List IoRun) (es : List ℕ)
    (c : Conf Context Associated) : Prop where
  length : c.threads.length = runs.length
  request : ∀ i t, c.threads[i]? = some t → ∃ r, runs[i]? = some r ∧ t.ioStatus = r.ioStatus ∧
    (t.stage = .launched ↔ i ∉ es)
  irpCount : c.shared.irpCount = c.threads.countP pending
  wait : c.shared.wait = c₀.shared.wait
  signals : c.shared.signals =
    if c₀.shared.wait = true ∧ c.threads.countP pending = 0 then 1 else 0
  frees : c.shared.frees =
    if c₀.shared.wait = false ∧ c.threads.countP pending = 0 then 1 else 0
  success : (∀ i ∈ es, ∀ r, runs[i]? = some r → 0 ≤ r.ioStatus.status) →
    c.shared.master.status = c₀.shared.master.status
  error : ∀ r, LastError runs es r → c.shared.master.status = r.ioStatus.status

theorem allDone_iff {c : Conf Context Associated} : AllDone c ↔ c.threads.countP pending = 0 := by
  rw [List.countP_eq_zero, AllDone]
  simp [pending]

section Step

variable {c₀ c : Conf Context Associated} {runs : List IoRun} {es : List ℕ} {k : ℕ} {t : Associated}

/-- A part that was taken before, or of no request, adds no error. -/
theorem lastError_append_iff (h : k ∈ es ∨ ∀ r, runs[k]? = some r → 0 ≤ r.ioStatus.status) {r : IoRun} :
    LastError runs (es ++ [k]) r → LastError runs es r := by
  rintro ⟨i, hi, hr, hneg, hlast⟩
  have hback : ∀ j ∈ es ++ [k], ∀ r', runs[j]? = some r' → r'.ioStatus.status < 0 → j ∈ es := by
    intro j hj r' hr' hneg'
    rw [List.mem_append, List.mem_singleton] at hj
    rcases hj with hj | hj
    · exact hj
    rcases h with h | h
    · rwa [hj]
    · rw [hj] at hr'
      exact absurd (h r' hr') (by omega)
  have hi' := hback i hi r hr hneg
  refine ⟨i, hi', hr, hneg, fun j hj r' hr' hneg' => ?_⟩
  have hle := hlast j (List.mem_append_left _ hj) r' hr' hneg'
  rwa [List.idxOf_append_of_mem hj, List.idxOf_append_of_mem hi'] at hle

/-- A new error is the last one. -/
theorem eq_of_lastError_append (hk : k ∉ es) {r r' : IoRun} (hr : runs[k]? = some r)
    (hneg : r.ioStatus.status < 0) (h : LastError runs (es ++ [k]) r') : r' = r := by
  obtain ⟨i, hi, hr', -, hlast⟩ := h
  have hle := hlast k (List.mem_append_right _ (List.mem_singleton_self k)) r hr hneg
  rw [List.idxOf_append_of_notMem hk] at hle
  rw [List.mem_append, List.mem_singleton] at hi
  rcases hi with hi | hi
  · rw [List.idxOf_append_of_mem hi] at hle
    have := List.idxOf_lt_length_of_mem hi
    omega
  · rw [hi, hr] at hr'
    exact (Option.some.inj hr').symm

/-- What a count-down changes. -/
theorem Context.decrement_spec (c : Context) : c.decrement.irpCount = c.irpCount - 1 ∧
    c.decrement.wait = c.wait ∧ c.decrement.master.status = c.master.status ∧
    c.decrement.signals = c.signals + (if c.wait = true ∧ c.irpCount - 1 = 0 then 1 else 0) ∧
    c.decrement.frees = c.frees + (if c.wait = false ∧ c.irpCount - 1 = 0 then 1 else 0) := by
  rw [Context.decrement]
  by_cases hzero : c.irpCount - 1 = 0
  · rw [if_pos hzero, Context.finish]
    cases hw : c.wait with
    | true => simp [hzero]
    | false =>
        refine ⟨rfl, rfl, ?_, by simp, by simp [hzero]⟩
        simp only [Bool.false_eq_true, if_false]
        split <;> rfl
  · simp [hzero]

/-- The requests after a part that leaves request `k` behind its launch. -/
theorem Taken.request_set (h : Taken c₀ runs es c) (ht : c.threads[k]? = some t) {t' : Associated}
    (hstatus : t'.ioStatus = t.ioStatus) (hstage : t'.stage ≠ .launched) :
    ∀ i u, (c.threads.set k t')[i]? = some u → ∃ r, runs[i]? = some r ∧ u.ioStatus = r.ioStatus ∧
      (u.stage = .launched ↔ i ∉ es ++ [k]) := by
  intro i u hu
  have hk := (List.getElem?_eq_some_iff.mp ht).1
  by_cases hik : i = k
  · rw [hik, List.getElem?_set_self hk, Option.some_inj] at hu
    obtain ⟨r, hr, hio, -⟩ := h.request k t ht
    rw [hik, ← hu]
    exact ⟨r, hr, hstatus.trans hio, by simp [hstage]⟩
  · rw [List.getElem?_set_ne (Ne.symm hik)] at hu
    obtain ⟨r, hr, hio, hiff⟩ := h.request i u hu
    exact ⟨r, hr, hio, by rw [hiff]; simp [hik]⟩

/-- **One part of a completion routine.** -/
theorem Taken.step (h : Taken c₀ runs es c) (k : ℕ) :
    Taken c₀ runs (es ++ [k]) (c.step completionRoutine (.run k ())) := by
  cases ht : c.threads[k]? with
  | none =>
      have hsame : c.step completionRoutine (.run k ()) = c := by simp only [Conf.step, ht]
      have hlen := List.getElem?_eq_none_iff.mp ht
      rw [h.length] at hlen
      have hnone : runs[k]? = none := List.getElem?_eq_none hlen
      rw [hsame]
      refine { h with request := fun i t hi => ?_, success := fun hall => ?_, error := fun r hr => ?_ }
      · obtain ⟨r, hr, hio, hiff⟩ := h.request i t hi
        have hik : i ≠ k := by
          intro heq
          rw [heq, hnone] at hr
          cases hr
        exact ⟨r, hr, hio, by rw [hiff]; simp [hik]⟩
      · exact h.success fun i hi => hall i (List.mem_append_left _ hi)
      · exact h.error r (lastError_append_iff (Or.inr (by simp [hnone])) hr)
  | some t =>
      rw [Conf.step_run () ht]
      obtain ⟨r, hr, hio, hiff⟩ := h.request k t ht
      have hcount := fun t' => Conf.countP_run pending t' ht
      cases hstage : t.stage with
      | launched =>
          have hnew : k ∉ es := hiff.mp hstage
          have hsame := hcount { t with stage := .recorded }
          rw [if_pos (by simp [pending, hstage]), if_pos (by simp [pending])] at hsame
          replace hsame := Nat.add_right_cancel hsame
          have hlength : (c.threads.set k { t with stage := .recorded }).length = runs.length :=
            List.length_set.trans h.length
          have hrequest := @Taken.request_set c₀ c runs es k t h ht { t with stage := .recorded } rfl
            (by simp)
          simp only [completionRoutine, hstage]
          by_cases hok : 0 ≤ t.ioStatus.status
          · rw [if_pos hok]
            have hall : ∀ r', runs[k]? = some r' → 0 ≤ r'.ioStatus.status := by
              intro r' hr'
              rw [hr, Option.some_inj] at hr'
              rwa [← hr', ← hio]
            exact ⟨hlength, hrequest, by rw [hsame]; exact h.irpCount, h.wait,
              by rw [hsame]; exact h.signals, by rw [hsame]; exact h.frees,
              fun hall => h.success fun i hi => hall i (List.mem_append_left _ hi),
              fun r' hr' => h.error r' (lastError_append_iff (Or.inr hall) hr')⟩
          · -- the error is the last one, whichever run it is from
            rw [if_neg hok]
            have hneg : r.ioStatus.status < 0 := by rw [← hio]; omega
            refine ⟨hlength, hrequest, by rw [hsame]; exact h.irpCount, h.wait,
              by rw [hsame]; exact h.signals, by rw [hsame]; exact h.frees, fun hall => ?_,
              fun r' hr' => ?_⟩
            · have := hall k (by simp) r hr
              omega
            · rw [eq_of_lastError_append hnew hr hneg hr']
              exact congrArg IoStatus.status hio
      | recorded =>
          have hold : k ∈ es := by
            by_contra hnew
            rw [hiff.mpr hnew] at hstage
            cases hstage
          have hless := hcount { t with stage := .completed }
          rw [if_pos (by simp [pending, hstage]), if_neg (by simp [pending]), Nat.add_zero] at hless
          have hlength : (c.threads.set k { t with stage := .completed }).length = runs.length :=
            List.length_set.trans h.length
          have hrequest := @Taken.request_set c₀ c runs es k t h ht { t with stage := .completed } rfl
            (by simp)
          obtain ⟨hirp, hwait, hmaster, hsignals, hfrees⟩ := c.shared.decrement_spec
          simp only [completionRoutine, hstage]
          have hzero : c.shared.irpCount - 1 = 0 ↔
              (c.threads.set k { t with stage := .completed }).countP pending = 0 := by
            rw [h.irpCount]
            omega
          simp only [h.wait, hzero] at hsignals hfrees
          refine ⟨hlength, hrequest, ?_, hwait.trans h.wait, ?_, ?_, fun hall => ?_, fun r' hr' => ?_⟩
          · dsimp only
            rw [hirp, h.irpCount]
            omega
          · dsimp only
            rw [hsignals, h.signals, if_neg (by omega), Nat.zero_add]
          · dsimp only
            rw [hfrees, h.frees, if_neg (by omega), Nat.zero_add]
          · rw [hmaster]
            exact h.success fun i hi => hall i (List.mem_append_left _ hi)
          · rw [hmaster]
            exact h.error r' (lastError_append_iff (Or.inl hold) hr')
      | completed =>
          have hold : k ∈ es := by
            by_contra hnew
            rw [hiff.mpr hnew] at hstage
            cases hstage
          have hset : c.threads.set k t = c.threads := by
            obtain ⟨hk, heq⟩ := List.getElem?_eq_some_iff.mp ht
            rw [← heq, List.set_getElem_self]
          have hrequest := @Taken.request_set c₀ c runs es k t h ht t rfl (by rw [hstage]; simp)
          simp only [completionRoutine, hstage]
          rw [hset] at hrequest ⊢
          exact { h with
            request := hrequest
            success := fun hall => h.success fun i hi => hall i (List.mem_append_left _ hi)
            error := fun r' hr' => h.error r' (lastError_append_iff (Or.inl hold) hr') }

end Step

section Launch

variable {wait : Bool} {requestedByteCount : ℕ} {master : IoStatus} {runs : List IoRun}

/-- The requests as they are launched. -/
theorem taken_fatMultipleAsync (hne : runs ≠ []) :
    Taken (fatMultipleAsync wait requestedByteCount master runs) runs []
      (fatMultipleAsync wait requestedByteCount master runs) := by
  have hcount : (fatMultipleAsync wait requestedByteCount master runs).threads.countP pending =
      runs.length := by
    rw [fatMultipleAsync, List.countP_map, List.countP_eq_length.mpr (by simp [pending])]
  have hpos := List.length_pos_of_ne_nil hne
  refine ⟨List.length_map _, fun i t ht => ?_, ?_, rfl, ?_, ?_, fun _ => rfl, fun r hr => ?_⟩
  · rw [fatMultipleAsync, List.getElem?_map, Option.map_eq_some_iff] at ht
    obtain ⟨r, hr, rfl⟩ := ht
    exact ⟨r, hr, rfl, by simp⟩
  · rw [hcount]
    rfl
  · rw [if_neg (by omega)]
    rfl
  · rw [if_neg (by omega)]
    rfl
  · obtain ⟨i, hi, -⟩ := hr
    cases hi

/-- **A schedule.** -/
theorem Taken.run {c₀ : Conf Context Associated} (h : Taken c₀ runs [] c₀) (es : List ℕ) :
    Taken c₀ runs es (run c₀ es) := by
  induction es using List.reverseRecOn with
  | nil => exact h
  | append_singleton es k ih =>
      rw [Multiple.run, List.foldl_append]
      exact ih.step k

/-- Some error was the last one to be recorded. -/
theorem exists_lastError {es : List ℕ} {i : ℕ} {r : IoRun} (hi : i ∈ es) (hr : runs[i]? = some r)
    (hneg : r.ioStatus.status < 0) : ∃ r', LastError runs es r' := by
  classical
  obtain ⟨j, hj, hmax⟩ := (es.toFinset.filter fun j => ∃ r, runs[j]? = some r ∧
    r.ioStatus.status < 0).exists_max_image (fun j => es.idxOf j) ⟨i, by simp [hi, hr, hneg]⟩
  rw [Finset.mem_filter, List.mem_toFinset] at hj
  obtain ⟨hj, r', hr', hneg'⟩ := hj
  refine ⟨r', j, hj, hr', hneg', fun k hk r'' hr'' hneg'' => hmax k ?_⟩
  rw [Finset.mem_filter, List.mem_toFinset]
  exact ⟨hk, r'', hr'', hneg''⟩

/-- **The routines keep their contract** in a schedule if and only if the last error that is recorded
is no other than that of the first run that failed. -/
theorem completesRight_iff (hne : runs ≠ []) (es : List ℕ) :
    CompletesRight (fatMultipleAsync wait requestedByteCount master runs) runs es ↔
      (AllDone (run (fatMultipleAsync wait requestedByteCount master runs) es) →
        ∀ r r', LastError runs es r → FirstError runs r' → r.ioStatus.status = r'.ioStatus.status) := by
  have hall : ∀ es', Taken (fatMultipleAsync wait requestedByteCount master runs) runs es'
      (run (fatMultipleAsync wait requestedByteCount master runs) es') :=
    (taken_fatMultipleAsync hne).run
  have hes := hall es
  constructor
  · intro h hdone r r' hlast hfirst
    rw [← hes.error r hlast, h.error hdone r' hfirst]
  · intro hcond
    refine ⟨fun es' _ => ?_, fun es' _ => ?_, fun hdone hok => ?_, fun hdone r hfirst => ?_⟩
    · rw [(hall es').signals]
      simp only [allDone_iff]
    · rw [(hall es').frees]
      simp only [allDone_iff]
    · exact hes.success fun i _ r hr => hok r (List.mem_of_getElem? hr)
    · obtain ⟨i, hi⟩ := List.mem_iff_getElem?.mp hfirst.1
      have hmem : i ∈ es := by
        have hlt := (List.getElem?_eq_some_iff.mp hi).1
        rw [← hes.length] at hlt
        obtain ⟨_, -, -, hiff⟩ := hes.request i _ (List.getElem?_eq_getElem hlt)
        by_contra hnew
        have hstage := hdone _ (List.getElem_mem hlt)
        rw [hiff.mpr hnew] at hstage
        cases hstage
      obtain ⟨r', hr'⟩ := exists_lastError hmem hi hfirst.2.1
      rw [hes.error r' hr']
      exact hcond hdone r' r hr' hfirst

/-- Two runs of which the second fails. -/
def oneError : List IoRun := [⟨0, 0, 512⟩, ⟨512, -1073741668, 0⟩]

theorem completesRight_oneError :
    CompletesRight (fatMultipleAsync true 1024 ⟨0, 0⟩ oneError) oneError [0, 1, 1, 0] := by
  refine (completesRight_iff (by simp [oneError]) _).mpr fun _ r r' hr hr' => ?_
  obtain ⟨i, -, hi, hneg, -⟩ := hr
  have hmem := List.mem_of_getElem? hi
  obtain ⟨hmem', hneg', -⟩ := hr'
  simp only [oneError, List.mem_cons, List.not_mem_nil, or_false] at hmem hmem'
  rcases hmem with rfl | rfl <;> rcases hmem' with rfl | rfl <;> simp_all

/-- Two runs that fail in different ways. -/
def twoErrors : List IoRun := [⟨0, -1073741668, 0⟩, ⟨512, -1073741661, 0⟩]

/-- The first run records its error first, and the second run's error overwrites it. -/
theorem not_completesRight :
    ¬CompletesRight (fatMultipleAsync true 1024 ⟨0, 0⟩ twoErrors) twoErrors [0, 1, 0, 1] := by
  intro h
  have herror := h.error (by decide) ⟨0, -1073741668, 0⟩ (by simp [FirstError, twoErrors])
  exact absurd herror (by decide)

end Launch

end KernelDrivers.Fat.Multiple
