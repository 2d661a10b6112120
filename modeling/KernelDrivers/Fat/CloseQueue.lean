import Mathlib.Data.List.Perm.Basic
import Mathlib.Tactic

/-!
# The queues of deferred closes

A close that is not done at once is queued as an asynchronous or a delayed one.  Its
context is on two lists, the global one of its kind and the one of its volume, and is
taken off from either side: by the worker thread, which takes closes of any volume, and by
threads that run down one volume.

## Main definitions

* `CloseData` — the lists, counters and flags.
* `fatQueueClose`, `fatRemoveClose` — the routines under the close mutex.
* `CloseStep` — what threads do, in any order: calls of the two routines, the start of the
  worker and shutdown.
* `CloseSound`, `WorkerSound` — the invariants.
-/

namespace KernelDrivers.Fat

inductive CloseKind
  | async
  | delayed
  deriving DecidableEq

/-- A close context.  The queues read its volume only. -/
structure CloseContext where
  id : ℕ
  vcb : ℕ
  deriving DecidableEq

/-- `AsyncCloseList` and `DelayedCloseList`, of `FatData` and of each volume, the counts of
the global ones, and the flags. -/
structure CloseData where
  closeList : CloseKind → List CloseContext
  vcbCloseList : CloseKind → ℕ → List CloseContext
  closeCount : CloseKind → ℕ
  asyncCloseActive : Bool
  highAsync : Bool
  highDelayed : Bool
  shutdownStarted : Bool

namespace CloseData

/-- Insert a context at the tails of the two lists of its kind. -/
def insertTail (d : CloseData) (k : CloseKind) (c : CloseContext) : CloseData :=
  { d with
    closeList := Function.update d.closeList k (d.closeList k ++ [c])
    vcbCloseList := Function.update d.vcbCloseList k
      (Function.update (d.vcbCloseList k) c.vcb (d.vcbCloseList k c.vcb ++ [c]))
    closeCount := Function.update d.closeCount k (d.closeCount k + 1) }

/-- Remove the head of a global list and unlink it from the list of its volume. -/
def removeHead (d : CloseData) (k : CloseKind) (c : CloseContext) (rest : List CloseContext) :
    CloseData :=
  { d with
    closeList := Function.update d.closeList k rest
    vcbCloseList := fun k' v => (d.vcbCloseList k' v).erase c
    closeCount := Function.update d.closeCount k (d.closeCount k - 1) }

/-- Remove the head of a list of volume `v` and unlink it from the global list. -/
def removeVcbHead (d : CloseData) (k : CloseKind) (v : ℕ) (c : CloseContext)
    (rest : List CloseContext) : CloseData :=
  { d with
    closeList := fun k' => (d.closeList k').erase c
    vcbCloseList := Function.update d.vcbCloseList k (Function.update (d.vcbCloseList k) v rest)
    closeCount := Function.update d.closeCount k (d.closeCount k - 1) }

end CloseData

section Routines

variable (maxDelayedCloseCount : ℕ)

/-- Queue a close.  The result is whether the worker has to be started. -/
def fatQueueClose (c : CloseContext) (delayClose : Bool) (d : CloseData) : Bool × CloseData :=
  if delayClose then
    let d := d.insertTail .delayed c
    if maxDelayedCloseCount < d.closeCount .delayed && !d.asyncCloseActive then
      (true, { d with asyncCloseActive := true })
    else (false, d)
  else
    let d := d.insertTail .async c
    if !d.asyncCloseActive then (true, { d with asyncCloseActive := true })
    else (false, d)

/-- A pressure flag goes on at twice the limit and off at the limit. -/
def pressure (high : Bool) (count : ℕ) : Bool :=
  if !high && maxDelayedCloseCount * 2 < count then true
  else if high && count < maxDelayedCloseCount then false
  else high

/-- Take a close of any volume. -/
def anyClose (workerThread : Bool) (d : CloseData) : Option CloseContext × CloseData :=
  match d.closeList .async with
  | c :: rest => (some c, d.removeHead .async c rest)
  | [] =>
      match d.closeList .delayed with
      | c :: rest =>
          if maxDelayedCloseCount / 2 < d.closeCount .delayed || d.shutdownStarted then
            (some c, d.removeHead .delayed c rest)
          else (none, if workerThread then { d with asyncCloseActive := false } else d)
      | [] => (none, if workerThread then { d with asyncCloseActive := false } else d)

/-- Take a close of volume `v`, or of any when there is a hint and the volume has none. -/
def volumeClose (workerThread : Bool) (v : ℕ) (hint : Option ℕ) (d : CloseData) :
    Option CloseContext × CloseData :=
  match d.vcbCloseList .async v with
  | c :: rest => (some c, d.removeVcbHead .async v c rest)
  | [] =>
      match d.vcbCloseList .delayed v with
      | c :: rest => (some c, d.removeVcbHead .delayed v c rest)
      | [] => if hint.isSome then anyClose maxDelayedCloseCount workerThread d else (none, d)

/-- Take a close from the queues: of the volume `vcb` if there is one, else of any volume,
with `lastVcbHint` first when the queues are long. -/
def fatRemoveClose (vcb lastVcbHint : Option ℕ) (d : CloseData) : Option CloseContext × CloseData :=
  match vcb, lastVcbHint with
  | some v, hint => volumeClose maxDelayedCloseCount false v hint d
  | none, none => anyClose maxDelayedCloseCount true d
  | none, some v =>
      let d := { d with
        highAsync := pressure maxDelayedCloseCount d.highAsync (d.closeCount .async)
        highDelayed := pressure maxDelayedCloseCount d.highDelayed (d.closeCount .delayed) }
      if d.highAsync || d.highDelayed then volumeClose maxDelayedCloseCount true v (some v) d
      else anyClose maxDelayedCloseCount true d

end Routines

/-! ## The lists -/

/-- The lists hold exactly the contexts that were queued and not returned, each on the
global list and the volume's list of one kind; a thread that runs a volume down is given
contexts of that volume. -/
structure CloseSound (d : CloseData) (entered : List CloseContext)
    (returned : List (CloseContext × Option ℕ)) : Prop where
  nodup : entered.Nodup
  perm : (d.closeList .async ++ d.closeList .delayed ++ returned.map Prod.fst).Perm entered
  vcb_nodup : ∀ k v, (d.vcbCloseList k v).Nodup
  mem_vcb : ∀ k v c, c ∈ d.vcbCloseList k v ↔ c ∈ d.closeList k ∧ c.vcb = v
  count : ∀ k, d.closeCount k = (d.closeList k).length
  owner : ∀ c v, (c, some v) ∈ returned → c.vcb = v

/-- Context `c` is taken off all lists. -/
structure Took (k : CloseKind) (c : CloseContext) (d d' : CloseData) : Prop where
  mem : c ∈ d.closeList k
  list : ∀ k', d'.closeList k' = (d.closeList k').erase c
  vcb : ∀ k' v, d'.vcbCloseList k' v = (d.vcbCloseList k' v).erase c
  count : ∀ k', d'.closeCount k' = d.closeCount k' - if k' = k then 1 else 0
  active : d'.asyncCloseActive = d.asyncCloseActive

namespace CloseSound

variable {d d' : CloseData} {entered : List CloseContext} {returned : List (CloseContext × Option ℕ)}
  {c : CloseContext} {k k' : CloseKind} (h : CloseSound d entered returned)

include h

theorem nodup_all : (d.closeList .async ++ d.closeList .delayed ++ returned.map Prod.fst).Nodup :=
  h.perm.nodup_iff.mpr h.nodup

theorem list_nodup (k : CloseKind) : (d.closeList k).Nodup := by
  have hall := h.nodup_all
  rw [List.append_assoc] at hall
  cases k with
  | async => exact (List.nodup_append.mp hall).1
  | delayed => exact (List.nodup_append.mp (List.nodup_append.mp hall).2.1).1

/-- A context is on one global list only. -/
theorem kind_eq (hk : c ∈ d.closeList k) (hk' : c ∈ d.closeList k') : k = k' := by
  have hlists := (List.nodup_append.mp h.nodup_all).1
  have hne := (List.nodup_append.mp hlists).2.2
  cases k <;> cases k'
  · rfl
  · exact absurd rfl (hne c hk c hk')
  · exact absurd rfl (hne c hk' c hk)
  · rfl

theorem mem_entered (hk : c ∈ d.closeList k) : c ∈ entered := by
  apply h.perm.mem_iff.mp
  cases k <;> simp [hk]

/-- Queueing a context that was not queued before. -/
theorem insertTail (hc : c ∉ entered) : CloseSound (d.insertTail k c) (c :: entered) returned := by
  have hnot : ∀ k, c ∉ d.closeList k := fun k hk => hc (h.mem_entered hk)
  refine ⟨List.nodup_cons.mpr ⟨hc, h.nodup⟩, ?_, fun k' v => ?_, fun k' v x => ?_, fun k' => ?_, h.owner⟩
  · refine List.Perm.trans ?_ (h.perm.cons c)
    cases k with
    | async => simp [CloseData.insertTail, Function.update]
    | delayed =>
        simp only [CloseData.insertTail, Function.update, reduceCtorEq, dite_false, dite_true]
        rw [← List.append_assoc, List.append_assoc _ [c], List.singleton_append]
        exact List.perm_middle
  · by_cases hk : k' = k
    · subst hk
      by_cases hv : v = c.vcb
      · subst hv
        simp only [CloseData.insertTail, Function.update_self]
        rw [List.nodup_append]
        refine ⟨h.vcb_nodup _ _, List.nodup_singleton c, fun x hx y hy heq => ?_⟩
        rw [List.mem_singleton] at hy
        rw [heq, hy, h.mem_vcb] at hx
        exact hnot _ hx.1
      · simp only [CloseData.insertTail, Function.update_self, Function.update_of_ne hv]
        exact h.vcb_nodup _ _
    · simp only [CloseData.insertTail, Function.update_of_ne hk]
      exact h.vcb_nodup _ _
  · by_cases hk : k' = k
    · subst hk
      by_cases hv : v = c.vcb
      · subst hv
        simp only [CloseData.insertTail, Function.update_self, List.mem_append, List.mem_singleton,
          h.mem_vcb]
        constructor
        · rintro (⟨hx, hv⟩ | rfl)
          · exact ⟨Or.inl hx, hv⟩
          · exact ⟨Or.inr rfl, rfl⟩
        · rintro ⟨hx | rfl, hv⟩
          · exact Or.inl ⟨hx, hv⟩
          · exact Or.inr rfl
      · simp only [CloseData.insertTail, Function.update_self, Function.update_of_ne hv,
          List.mem_append, List.mem_singleton, h.mem_vcb]
        constructor
        · exact fun hx => ⟨Or.inl hx.1, hx.2⟩
        · rintro ⟨hx | rfl, rfl⟩
          · exact ⟨hx, rfl⟩
          · exact absurd rfl hv
    · simp only [CloseData.insertTail, Function.update_of_ne hk]
      exact h.mem_vcb _ _ _
  · by_cases hk : k' = k
    · subst hk
      simp [CloseData.insertTail, h.count]
    · simp [CloseData.insertTail, hk, h.count]

/-- Returning a context that is taken off all lists. -/
theorem took (htook : Took k c d d') {caller : Option ℕ} (hcaller : ∀ v, caller = some v → c.vcb = v) :
    CloseSound d' entered ((c, caller) :: returned) := by
  refine ⟨h.nodup, List.Perm.trans ?_ h.perm, fun k' v => ?_, fun k' v x => ?_, fun k' => ?_,
    fun x v hx => ?_⟩
  · rw [htook.list, htook.list, List.map_cons]
    have hmem := htook.mem
    have hkeep : ∀ k', k' ≠ k → (d.closeList k').erase c = d.closeList k' := fun k' hk =>
      List.erase_of_not_mem fun hc => hk (h.kind_eq hc htook.mem)
    refine List.perm_middle.trans ?_
    rw [← List.cons_append]
    refine List.Perm.append_right _ ?_
    cases k with
    | async =>
        rw [hkeep .delayed (by simp), ← List.cons_append]
        exact (List.perm_cons_erase hmem).symm.append_right _
    | delayed =>
        rw [hkeep .async (by simp)]
        exact List.perm_middle.symm.trans ((List.perm_cons_erase hmem).symm.append_left _)
  · rw [htook.vcb]
    exact (h.vcb_nodup k' v).erase c
  · rw [htook.vcb, htook.list, (h.vcb_nodup k' v).mem_erase_iff, (h.list_nodup k').mem_erase_iff,
      h.mem_vcb, and_assoc]
  · rw [htook.count, htook.list, h.count]
    by_cases hk : k' = k
    · subst hk
      rw [if_pos rfl, List.length_erase_of_mem htook.mem]
    · rw [if_neg hk, List.erase_of_not_mem fun hc => hk (h.kind_eq hc htook.mem), Nat.sub_zero]
  · rw [List.mem_cons] at hx
    rcases hx with heq | hx
    · rw [Prod.mk.injEq] at heq
      rw [heq.1]
      exact hcaller v heq.2.symm
    · exact h.owner x v hx

/-- The head of a global list. -/
theorem took_removeHead {rest : List CloseContext} (hlist : d.closeList k = c :: rest) :
    Took k c d (d.removeHead k c rest) := by
  have hmem : c ∈ d.closeList k := by simp [hlist]
  refine ⟨hmem, fun k' => ?_, fun k' v => rfl, fun k' => ?_, rfl⟩
  · by_cases hk : k' = k
    · subst hk
      simp [CloseData.removeHead, hlist]
    · rw [List.erase_of_not_mem fun hc => hk (h.kind_eq hc hmem)]
      simp [CloseData.removeHead, hk]
  · by_cases hk : k' = k
    · subst hk
      simp [CloseData.removeHead]
    · simp [CloseData.removeHead, hk]

/-- The head of a list of a volume. -/
theorem took_removeVcbHead {v : ℕ} {rest : List CloseContext} (hlist : d.vcbCloseList k v = c :: rest) :
    Took k c d (d.removeVcbHead k v c rest) ∧ c.vcb = v := by
  have hin : c ∈ d.vcbCloseList k v := by simp [hlist]
  obtain ⟨hmem, hvcb⟩ := (h.mem_vcb k v c).mp hin
  refine ⟨⟨hmem, fun k' => rfl, fun k' v' => ?_, fun k' => ?_, rfl⟩, hvcb⟩
  · by_cases hk : k' = k
    · subst hk
      by_cases hv : v' = v
      · subst hv
        simp [CloseData.removeVcbHead, hlist]
      · rw [List.erase_of_not_mem fun hc => hv (((h.mem_vcb k' v' c).mp hc).2.symm.trans hvcb)]
        simp [CloseData.removeVcbHead, hv]
    · rw [List.erase_of_not_mem fun hc => hk (h.kind_eq ((h.mem_vcb k' v' c).mp hc).1 hmem)]
      simp [CloseData.removeVcbHead, hk]
  · by_cases hk : k' = k
    · subst hk
      simp [CloseData.removeVcbHead]
    · simp [CloseData.removeVcbHead, hk]

end CloseSound

/-! ## Taking a close -/

/-- What taking a close comes to.  The worker that gets none clears the flag, and then the
queues are short. -/
def Removal (maxDelayedCloseCount : ℕ) (workerThread : Bool) (d : CloseData) :
    Option CloseContext × CloseData → Prop
  | (some c, d') => ∃ k, Took k c d d'
  | (none, d') => d'.closeList = d.closeList ∧ d'.vcbCloseList = d.vcbCloseList ∧
      d'.closeCount = d.closeCount ∧
      if workerThread then d'.asyncCloseActive = false ∧ d.closeList .async = [] ∧
        (d.closeList .delayed).length ≤ maxDelayedCloseCount
      else d'.asyncCloseActive = d.asyncCloseActive

namespace CloseSound

variable {maxDelayedCloseCount : ℕ} {d : CloseData} {entered : List CloseContext}
  {returned : List (CloseContext × Option ℕ)} (h : CloseSound d entered returned)

include h

theorem removal_anyClose (workerThread : Bool) :
    Removal maxDelayedCloseCount workerThread d (anyClose maxDelayedCloseCount workerThread d) := by
  rw [anyClose]
  cases hasync : d.closeList .async with
  | cons c rest => exact ⟨.async, h.took_removeHead hasync⟩
  | nil =>
      have hnone : (d.closeList .delayed).length ≤ maxDelayedCloseCount →
          Removal maxDelayedCloseCount workerThread d
            (none, if workerThread then { d with asyncCloseActive := false } else d) := by
        intro hle
        cases workerThread
        · exact ⟨rfl, rfl, rfl, rfl⟩
        · exact ⟨rfl, rfl, rfl, rfl, hasync, hle⟩
      cases hdelayed : d.closeList .delayed with
      | nil =>
          rw [hdelayed] at hnone
          exact hnone (Nat.zero_le _)
      | cons c rest =>
          dsimp only
          split
          · exact ⟨.delayed, h.took_removeHead hdelayed⟩
          · next hfew =>
              have hcount := h.count .delayed
              simp only [Bool.or_eq_true, decide_eq_true_eq, not_or, not_lt] at hfew
              exact hnone (by omega)

theorem removal_volumeClose {workerThread : Bool} (v : ℕ) (hint : Option ℕ)
    (hhint : hint.isSome = workerThread) :
    Removal maxDelayedCloseCount workerThread d
        (volumeClose maxDelayedCloseCount workerThread v hint d) ∧
      (workerThread = false → ∀ c, (volumeClose maxDelayedCloseCount workerThread v hint d).1 = some c →
        c.vcb = v) := by
  rw [volumeClose]
  cases hasync : d.vcbCloseList .async v with
  | cons c rest =>
      obtain ⟨htook, hvcb⟩ := h.took_removeVcbHead hasync
      exact ⟨⟨.async, htook⟩, fun _ x hx => Option.some.inj hx ▸ hvcb⟩
  | nil =>
      cases hdelayed : d.vcbCloseList .delayed v with
      | cons c rest =>
          obtain ⟨htook, hvcb⟩ := h.took_removeVcbHead hdelayed
          exact ⟨⟨.delayed, htook⟩, fun _ x hx => Option.some.inj hx ▸ hvcb⟩
      | nil =>
          dsimp only
          rw [hhint]
          cases workerThread
          · exact ⟨⟨rfl, rfl, rfl, rfl⟩, fun _ x hx => by simp at hx⟩
          · exact ⟨h.removal_anyClose true, fun hf => by simp at hf⟩

/-- The worker takes a close. -/
theorem removal_worker (hint : Option ℕ) :
    Removal maxDelayedCloseCount true d (fatRemoveClose maxDelayedCloseCount none hint d) := by
  cases hint with
  | none => exact h.removal_anyClose true
  | some v =>
      -- the pressure flags are not part of the lists
      have hflags : ∀ ha hd, CloseSound { d with highAsync := ha, highDelayed := hd } entered returned :=
        fun _ _ => ⟨h.nodup, h.perm, h.vcb_nodup, h.mem_vcb, h.count, h.owner⟩
      have hback : ∀ ha hd res, Removal maxDelayedCloseCount true
          { d with highAsync := ha, highDelayed := hd } res → Removal maxDelayedCloseCount true d res := by
        rintro ha hd ⟨_ | c, d'⟩ hres
        · exact hres
        · obtain ⟨k, htook⟩ := hres
          exact ⟨k, htook.mem, htook.list, htook.vcb, htook.count, htook.active⟩
      rw [fatRemoveClose]
      dsimp only
      split
      · exact hback _ _ _ ((hflags _ _).removal_volumeClose v (some v) rfl).1
      · exact hback _ _ _ ((hflags _ _).removal_anyClose true)

/-- A thread that runs volume `v` down takes a close. -/
theorem removal_volume (v : ℕ) :
    Removal maxDelayedCloseCount false d (fatRemoveClose maxDelayedCloseCount (some v) none d) ∧
      ∀ c, (fatRemoveClose maxDelayedCloseCount (some v) none d).1 = some c → c.vcb = v := by
  obtain ⟨hremoval, howner⟩ := h.removal_volumeClose v none rfl
  exact ⟨hremoval, howner rfl⟩

end CloseSound

/-! ## Threads -/

/-- The queues with what happened so far: the contexts that were queued and returned (with
the volume the caller asked for), calls of `FatQueueClose` that have still to queue the
work item, queued work items, and worker runs that have not been told that there is no
more. -/
structure CloseSystem where
  data : CloseData
  entered : List CloseContext
  returned : List (CloseContext × Option ℕ)
  starting : ℕ
  items : ℕ
  workers : ℕ

/-- A caller is given what `FatRemoveClose` returns. -/
def CloseSystem.give (s : CloseSystem) (caller : Option ℕ) (res : Option CloseContext × CloseData) :
    CloseSystem :=
  { s with
    data := res.2
    returned := res.1.toList.map (fun c => (c, caller)) ++ s.returned }

section System

variable (maxDelayedCloseCount : ℕ)

/-- The steps of all threads, in any order.  The mutex makes each call of a routine one
step; the work item is queued after the mutex is released. -/
inductive CloseStep : CloseSystem → CloseSystem → Prop
  | queue {s : CloseSystem} (c : CloseContext) (delayClose : Bool) : c ∉ s.entered →
      CloseStep s { s with
        data := (fatQueueClose maxDelayedCloseCount c delayClose s.data).2
        entered := c :: s.entered
        starting := s.starting + (fatQueueClose maxDelayedCloseCount c delayClose s.data).1.toNat }
  | queueWorkItem {s : CloseSystem} : 0 < s.starting →
      CloseStep s { s with starting := s.starting - 1, items := s.items + 1 }
  | startWorker {s : CloseSystem} : 0 < s.items →
      CloseStep s { s with items := s.items - 1, workers := s.workers + 1 }
  | worker {s : CloseSystem} (hint : Option ℕ) : 0 < s.workers →
      CloseStep s { s.give none (fatRemoveClose maxDelayedCloseCount none hint s.data) with
        workers := if (fatRemoveClose maxDelayedCloseCount none hint s.data).1.isSome then s.workers
          else s.workers - 1 }
  | volume {s : CloseSystem} (v : ℕ) :
      CloseStep s (s.give (some v) (fatRemoveClose maxDelayedCloseCount (some v) none s.data))
  | shutdown {s : CloseSystem} :
      CloseStep s { s with data := { s.data with shutdownStarted := true } }

/-- The driver is loaded with empty queues. -/
def CloseSystem.initial : CloseSystem :=
  ⟨⟨fun _ => [], fun _ _ => [], fun _ => 0, false, false, false, false⟩, [], [], 0, 0, 0⟩

inductive CloseReachable : CloseSystem → Prop
  | initial : CloseReachable .initial
  | step {s s' : CloseSystem} : CloseReachable s → CloseStep maxDelayedCloseCount s s' → CloseReachable s'

/-- The flag is set exactly while there is a worker run to come or under way, and it is set
while there is work. -/
structure WorkerSound (s : CloseSystem) : Prop where
  one : s.starting + s.items + s.workers = s.data.asyncCloseActive.toNat
  idle : s.data.asyncCloseActive = false → s.data.closeList .async = [] ∧
    (s.data.closeList .delayed).length ≤ maxDelayedCloseCount

variable {maxDelayedCloseCount} {s s' : CloseSystem}

theorem CloseSound.give (h : CloseSound s.data s.entered s.returned) {workerThread : Bool}
    {caller : Option ℕ} {res : Option CloseContext × CloseData}
    (hres : Removal maxDelayedCloseCount workerThread s.data res)
    (hcaller : ∀ c v, res.1 = some c → caller = some v → c.vcb = v) :
    CloseSound (s.give caller res).data (s.give caller res).entered (s.give caller res).returned := by
  obtain ⟨_ | c, d'⟩ := res
  · obtain ⟨hlist, hvcb, hcount, -⟩ := hres
    have hperm := h.perm
    have hmem := h.mem_vcb
    have hcounts := h.count
    have hnodup := h.vcb_nodup
    rw [← hlist] at hperm hmem hcounts
    rw [← hvcb] at hmem hnodup
    rw [← hcount] at hcounts
    exact ⟨h.nodup, hperm, hnodup, hmem, hcounts, h.owner⟩
  · obtain ⟨k, htook⟩ := hres
    exact h.took htook fun v => hcaller c v rfl

/-- Taking contexts off keeps the queues short. -/
theorem Took.length_le {k : CloseKind} {c : CloseContext} {d d' : CloseData} (h : Took k c d d')
    (k' : CloseKind) : (d'.closeList k').length ≤ (d.closeList k').length := by
  rw [h.list]
  exact List.Sublist.length_le List.erase_sublist

theorem CloseSound.step (h : CloseSound s.data s.entered s.returned)
    (hstep : CloseStep maxDelayedCloseCount s s') : CloseSound s'.data s'.entered s'.returned := by
  cases hstep with
  | queue c delayClose hc =>
      have hinsert : ∀ k, CloseSound (s.data.insertTail k c) (c :: s.entered) s.returned :=
        fun k => h.insertTail hc
      have hflag : ∀ k b, CloseSound { s.data.insertTail k c with asyncCloseActive := b }
          (c :: s.entered) s.returned := fun k b =>
        ⟨(hinsert k).nodup, (hinsert k).perm, (hinsert k).vcb_nodup, (hinsert k).mem_vcb,
          (hinsert k).count, (hinsert k).owner⟩
      dsimp only [fatQueueClose]
      split
      · split
        · exact hflag _ _
        · exact hinsert _
      · split
        · exact hflag _ _
        · exact hinsert _
  | queueWorkItem _ => exact h
  | startWorker _ => exact h
  | worker hint _ => exact h.give (h.removal_worker hint) fun c v _ hnone => by simp at hnone
  | volume v =>
      obtain ⟨hremoval, howner⟩ := h.removal_volume v
      exact h.give hremoval fun c w hc hw => Option.some.inj hw ▸ howner c hc
  | shutdown => exact ⟨h.nodup, h.perm, h.vcb_nodup, h.mem_vcb, h.count, h.owner⟩

/-- Queueing starts the worker when there is work and none is active. -/
theorem fatQueueClose_cases (c : CloseContext) (delayClose : Bool) (d : CloseData) :
    (∃ k, fatQueueClose maxDelayedCloseCount c delayClose d = (false, d.insertTail k c) ∧
      (d.asyncCloseActive = false → k = .delayed ∧
        (d.insertTail .delayed c).closeCount .delayed ≤ maxDelayedCloseCount)) ∨
    (∃ k, fatQueueClose maxDelayedCloseCount c delayClose d =
      (true, { d.insertTail k c with asyncCloseActive := true }) ∧ d.asyncCloseActive = false) := by
  have hactive : ∀ k, (d.insertTail k c).asyncCloseActive = d.asyncCloseActive := fun _ => rfl
  rw [fatQueueClose]
  cases delayClose with
  | true =>
      simp only [if_true, hactive]
      split
      · next hfull =>
          simp only [Bool.and_eq_true, Bool.not_eq_true'] at hfull
          exact Or.inr ⟨.delayed, rfl, hfull.2⟩
      · next hfew =>
          refine Or.inl ⟨.delayed, rfl, fun hoff => ⟨rfl, ?_⟩⟩
          simpa [hoff] using hfew
  | false =>
      simp only [Bool.false_eq_true, if_false, hactive]
      split
      · next hoff => exact Or.inr ⟨.async, rfl, by simpa using hoff⟩
      · next hon => exact Or.inl ⟨.async, rfl, fun hoff => by simp [hoff] at hon⟩

theorem WorkerSound.step (hw : WorkerSound maxDelayedCloseCount s)
    (h : CloseSound s.data s.entered s.returned) (hstep : CloseStep maxDelayedCloseCount s s') :
    WorkerSound maxDelayedCloseCount s' := by
  have hone := hw.one
  cases hstep with
  | queue c delayClose hc =>
      rcases fatQueueClose_cases c delayClose s.data with ⟨k, hq, hfew⟩ | ⟨k, hq, hoff⟩
      · rw [hq]
        refine ⟨hone, fun hoff => ?_⟩
        obtain ⟨rfl, hcount⟩ := hfew hoff
        have hlen := (h.insertTail (k := .delayed) hc).count .delayed
        refine ⟨?_, hlen ▸ hcount⟩
        rw [← (hw.idle hoff).1]
        simp [CloseData.insertTail]
      · rw [hq]
        rw [hoff] at hone
        refine ⟨?_, fun h => by simp at h⟩
        simp at hone ⊢
        omega
  | queueWorkItem hpos => exact ⟨by dsimp only; omega, hw.idle⟩
  | startWorker hpos => exact ⟨by dsimp only; omega, hw.idle⟩
  | worker hint hpos =>
      have hactive : s.data.asyncCloseActive = true := by
        by_contra hoff
        rw [Bool.eq_false_iff.mpr hoff, Bool.toNat_false] at hone
        omega
      rw [hactive, Bool.toNat_true] at hone
      have hremoval : Removal maxDelayedCloseCount true s.data _ := h.removal_worker hint
      cases hres : fatRemoveClose maxDelayedCloseCount none hint s.data with
      | mk c d' =>
          rw [hres] at hremoval
          cases c with
          | none =>
              obtain ⟨hlist, -, -, hoff, hasync, hdelayed⟩ := hremoval
              refine ⟨?_, fun _ => ?_⟩
              · simp only [CloseSystem.give, Option.isSome_none, hoff]
                simp
                omega
              · simp only [CloseSystem.give, hlist]
                exact ⟨hasync, hdelayed⟩
          | some c =>
              obtain ⟨k, htook⟩ := hremoval
              refine ⟨?_, fun hoff => ?_⟩
              · simp only [CloseSystem.give, Option.isSome_some, htook.active, hactive]
                simpa using hone
              · exact absurd (hoff.symm.trans (htook.active.trans hactive)) (by simp)
  | volume v =>
      have hremoval : Removal maxDelayedCloseCount false s.data _ := (h.removal_volume v).1
      cases hres : fatRemoveClose maxDelayedCloseCount (some v) none s.data with
      | mk c d' =>
          rw [hres] at hremoval
          cases c with
          | none =>
              obtain ⟨hlist, -, -, hactive⟩ := hremoval
              refine ⟨?_, fun hoff => ?_⟩
              · rw [← show d'.asyncCloseActive = s.data.asyncCloseActive from hactive] at hone
                exact hone
              · simp only [CloseSystem.give, hlist]
                exact hw.idle (hactive.symm.trans hoff)
          | some c =>
              obtain ⟨k, htook⟩ := hremoval
              refine ⟨?_, fun hoff => ?_⟩
              · rw [← htook.active] at hone
                exact hone
              · obtain ⟨hasync, hdelayed⟩ := hw.idle (htook.active.symm.trans hoff)
                refine ⟨?_, (htook.length_le .delayed).trans hdelayed⟩
                have hlen := htook.length_le .async
                rw [hasync] at hlen
                exact List.length_eq_zero_iff.mp (Nat.le_zero.mp hlen)
  | shutdown => exact ⟨hone, hw.idle⟩

/-- **The invariant of a run.** -/
theorem CloseReachable.sound (h : CloseReachable maxDelayedCloseCount s) :
    CloseSound s.data s.entered s.returned ∧ WorkerSound maxDelayedCloseCount s := by
  induction h with
  | initial =>
      refine ⟨⟨List.nodup_nil, List.Perm.refl _, fun _ _ => List.nodup_nil, fun k v c => ?_, fun _ => rfl,
        fun c v hc => absurd hc List.not_mem_nil⟩, rfl, fun _ => ⟨rfl, Nat.zero_le _⟩⟩
      simp [CloseSystem.initial]
  | step _ hstep ih => exact ⟨ih.1.step hstep, ih.2.step ih.1 hstep⟩

variable (maxDelayedCloseCount) in
/-- Deferred closes are neither lost nor duplicated nor stuck. -/
structure DeferredCloses (s : CloseSystem) : Prop where
  /-- A context that was queued is on one global list, once, or was returned, once. -/
  conserved : ∀ c ∈ s.entered, (s.data.closeList .async).count c + (s.data.closeList .delayed).count c +
    (s.returned.map Prod.fst).count c = 1
  /-- Nothing else is on a list or was returned. -/
  only : ∀ c, c ∈ s.data.closeList .async ∨ c ∈ s.data.closeList .delayed ∨ c ∈ s.returned.map Prod.fst →
    c ∈ s.entered
  /-- A context on a global list is on the list of the same kind of its volume, once, and
  on no other list of a volume. -/
  vcbList : ∀ k v c, (s.data.vcbCloseList k v).count c = if c ∈ s.data.closeList k ∧ c.vcb = v then 1 else 0
  count : ∀ k, s.data.closeCount k = (s.data.closeList k).length
  owner : ∀ c v, (c, some v) ∈ s.returned → c.vcb = v
  /-- While there is work, the flag is set and one worker run is queued, or is being queued
  by the call that set the flag, or is in progress. -/
  active : s.data.closeList .async ≠ [] ∨ maxDelayedCloseCount < (s.data.closeList .delayed).length →
    s.data.asyncCloseActive = true ∧ s.starting + s.items + s.workers = 1 ∧
      (s.starting = 0 → 0 < s.items ∨ 0 < s.workers)

/-- **Deferred closes** in every state that any order of the threads' steps leads to. -/
theorem deferredCloses_of_reachable (h : CloseReachable maxDelayedCloseCount s) :
    DeferredCloses maxDelayedCloseCount s := by
  obtain ⟨hc, hw⟩ := h.sound
  have hmem : ∀ c, c ∈ s.data.closeList .async ∨ c ∈ s.data.closeList .delayed ∨
      c ∈ s.returned.map Prod.fst ↔ c ∈ s.entered := by
    intro c
    rw [← hc.perm.mem_iff, List.mem_append, List.mem_append, or_assoc]
  refine ⟨fun c hin => ?_, fun c hin => (hmem c).mp hin, fun k v c => ?_, hc.count, hc.owner, fun hwork => ?_⟩
  · rw [← List.count_append, ← List.count_append, hc.perm.count_eq,
      List.count_eq_one_of_mem hc.nodup hin]
  · split
    · next hon => exact List.count_eq_one_of_mem (hc.vcb_nodup k v) ((hc.mem_vcb k v c).mpr hon)
    · next hoff => exact List.count_eq_zero_of_not_mem fun hin => hoff ((hc.mem_vcb k v c).mp hin)
  · have hactive : s.data.asyncCloseActive = true := by
      by_contra hoff
      obtain ⟨hasync, hdelayed⟩ := hw.idle (Bool.eq_false_iff.mpr hoff)
      rcases hwork with hne | hlt
      · exact hne hasync
      · omega
    have hone := hw.one
    rw [hactive, Bool.toNat_true] at hone
    exact ⟨hactive, hone, fun hzero => by omega⟩

end System

/-- An asynchronous close is queued, and the worker has still to be started. -/
theorem deferredCloses_queued : ∃ s, CloseReachable 16 s ∧ s.data.closeList .async ≠ [] ∧
    DeferredCloses 16 s := by
  have hreach := CloseReachable.initial.step
    (.queue (s := .initial) ⟨0, 0⟩ false List.not_mem_nil : CloseStep 16 _ _)
  exact ⟨_, hreach, by decide, deferredCloses_of_reachable hreach⟩

end KernelDrivers.Fat
