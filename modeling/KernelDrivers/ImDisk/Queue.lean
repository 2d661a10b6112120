import KernelDrivers.Lib.Reach
import Mathlib.Tactic

/-!
# The request queue of an ImDisk device

Dispatch routines put requests in a queue and set an event; the device thread clears the event,
takes a request, and waits when there is none.  A removal sets another event, and the thread
then releases the image of the device.  Every step of every thread is a step of the system, in
any order.

## Main definitions

* `QueueSystem` — the shared state, the thread of the device and the dispatching threads.
* `QueueSystem.step` — the system behind an event.
* `Orderly s` — each queued request is completed once, no wake-up is lost, and none is served
  from an image that was released.
* `Settled` — when the thread starts to release the image no request is on its way to it.

## Main results

* `orderly_of_reach` — every run whose shutdown is settled is orderly.
* `not_orderly_removal` — a removal while a request is between its check and the queue is not.
-/

namespace KernelDrivers.ImDisk

inductive Major
  | read
  | write
  | flush
  | deviceControl
  deriving DecidableEq, Repr

/-- Where a dispatch routine is: it looks at `terminate_thread`, inserts in the queue and sets
`request_event`.  A request that is answered without the queue is `elsewhere`. -/
inductive DispatchPc
  | check
  | insert
  | signal
  | returned
  | elsewhere
  deriving DecidableEq, Repr

structure Dispatch where
  major : Major
  pc : DispatchPc
  deriving DecidableEq, Repr

/-- Where the loop of `ImDiskDeviceThread` is. -/
inductive ThreadPc
  | clear
  | pop
  | wait
  | check
  | release
  | references
  | execute (irp : ℕ)
  | complete (irp : ℕ)
  | exited
  deriving DecidableEq, Repr

/-- The request that the thread has taken from the queue. -/
def ThreadPc.hand : ThreadPc → List ℕ
  | .execute irp => [irp]
  | .complete irp => [irp]
  | _ => []

/-- The part of a device extension that the threads share, the threads, and a record of what
they did.  A request is known by its place in the list of dispatches. -/
structure QueueSystem where
  terminateThread : Bool
  requestEvent : Bool
  queue : List ℕ
  /-- `image_buffer`, `file_handle` and the proxy are gone. -/
  released : Bool
  thread : ThreadPc
  dispatches : List Dispatch
  /-- The calls of `IoCompleteRequest` by the device thread. -/
  completed : List ℕ
  /-- The requests that the thread executed, with `released` at that time. -/
  executed : List (ℕ × Bool)

namespace QueueSystem

def setPc (s : QueueSystem) (i : ℕ) (d : Dispatch) (pc : DispatchPc) : QueueSystem :=
  { s with dispatches := s.dispatches.set i { d with pc := pc } }

/-- The next step of a dispatch routine.  `queues` says whether the request is one for the queue:
others are completed at once or handed to the lower device. -/
def dispatch (s : QueueSystem) (i : ℕ) (queues : Bool) : QueueSystem :=
  match s.dispatches[i]? with
  | none => s
  | some d =>
      match d.pc with
      | .check =>
          if s.terminateThread then s.setPc i d .elsewhere
          else s.setPc i d (if queues then .insert else .elsewhere)
      | .insert => { s.setPc i d .signal with queue := s.queue ++ [i] }
      | .signal => { s.setPc i d .returned with requestEvent := true }
      | .returned => s
      | .elsewhere => s

/-- A request that keeps a reference to the device: it came over a handle that stays open until
the dispatch routine has returned and the request is completed. -/
def Referenced (s : QueueSystem) : Prop :=
  ∃ p ∈ s.dispatches.zipIdx, p.1.pc ≠ .elsewhere ∧ ¬ (p.1.pc = .returned ∧ p.2 ∈ s.completed)

instance (s : QueueSystem) : Decidable s.Referenced :=
  inferInstanceAs (Decidable (∃ p ∈ s.dispatches.zipIdx, _))

/-- The next step of the device thread.  `handles` says whether there are other handles to the
device when the thread reads `ReferenceCount`. -/
def runThread (s : QueueSystem) (handles : Bool) : QueueSystem :=
  match s.thread with
  | .clear => { s with requestEvent := false, thread := .pop }
  | .pop =>
      match s.queue with
      | [] => { s with thread := .wait }
      | irp :: queue => { s with queue := queue, thread := .execute irp }
  | .wait => if s.requestEvent || s.terminateThread then { s with thread := .check } else s
  | .check => { s with thread := if s.requestEvent then .clear else .release }
  | .release => { s with released := true, thread := .references }
  | .references =>
      { s with thread := if handles = true ∨ s.Referenced then .clear else .exited }
  | .execute irp =>
      { s with executed := (irp, s.released) :: s.executed, thread := .complete irp }
  | .complete irp => { s with completed := irp :: s.completed, thread := .clear }
  | .exited => s

end QueueSystem

inductive Event
  /-- A request is sent to the device, which is there. -/
  | arrive (major : Major)
  | dispatch (i : ℕ) (queues : Bool)
  /-- `ImDiskRemoveVirtualDisk`. -/
  | remove
  | thread (handles : Bool)

def QueueSystem.step (s : QueueSystem) : Event → QueueSystem
  | .arrive major =>
      if s.thread = .exited then s
      else { s with dispatches := s.dispatches ++ [⟨major, .check⟩] }
  | .dispatch i queues => s.dispatch i queues
  | .remove => { s with terminateThread := true }
  | .thread handles => s.runThread handles

/-! ### Requests and their places -/

namespace QueueSystem

variable {s : QueueSystem} {i j : ℕ} {d : Dispatch} {pc : DispatchPc}

/-- The dispatch routine of `i` has put its request in the queue. -/
def Queued (s : QueueSystem) (i : ℕ) : Prop :=
  ∃ d, s.dispatches[i]? = some d ∧ (d.pc = .signal ∨ d.pc = .returned)

/-- A dispatch routine is at `pc`. -/
def SomeAt (s : QueueSystem) (pc : DispatchPc) : Prop :=
  ∃ (i : ℕ) (d : Dispatch), s.dispatches[i]? = some d ∧ d.pc = pc

theorem someAt_iff : s.SomeAt pc ↔ ∃ d ∈ s.dispatches, d.pc = pc := by
  simp only [SomeAt, List.mem_iff_getElem?]
  exact ⟨fun ⟨i, d, hd, hpc⟩ => ⟨d, ⟨i, hd⟩, hpc⟩, fun ⟨d, ⟨i, hd⟩, hpc⟩ => ⟨i, d, hd, hpc⟩⟩

instance (s : QueueSystem) (pc : DispatchPc) : Decidable (s.SomeAt pc) :=
  decidable_of_iff _ someAt_iff.symm

/-- Where a request can be, once it was queued. -/
def places (s : QueueSystem) : List ℕ := s.queue ++ s.thread.hand ++ s.completed

theorem getElem?_setPc (hd : s.dispatches[i]? = some d) :
    (s.setPc i d pc).dispatches[j]? =
      if i = j then some { d with pc := pc } else s.dispatches[j]? := by
  have hi := (List.getElem?_eq_some_iff.mp hd).1
  simp only [setPc, List.getElem?_set, if_pos hi]

theorem someAt_setPc (hd : s.dispatches[i]? = some d) : (s.setPc i d pc).SomeAt pc :=
  ⟨i, { d with pc := pc }, by rw [getElem?_setPc hd, if_pos rfl], rfl⟩

/-- A routine that is at `pc'` after another one moved. -/
theorem someAt_of_setPc {pc' : DispatchPc} (hd : s.dispatches[i]? = some d)
    (h : (s.setPc i d pc).SomeAt pc') : pc' = pc ∨ s.SomeAt pc' := by
  obtain ⟨j, e, he, hpc⟩ := h
  rw [getElem?_setPc hd] at he
  split at he
  · cases he
    exact .inl hpc.symm
  · exact .inr ⟨j, e, he, hpc⟩

theorem SomeAt.setPc {pc' : DispatchPc} (h : s.SomeAt pc') (hd : s.dispatches[i]? = some d)
    (hne : d.pc ≠ pc') : (s.setPc i d pc).SomeAt pc' := by
  obtain ⟨j, e, he, hpc⟩ := h
  refine ⟨j, e, ?_, hpc⟩
  rw [getElem?_setPc hd, if_neg]
  · exact he
  · rintro rfl
    rw [hd] at he
    cases he
    exact hne hpc

theorem queued_setPc (hd : s.dispatches[i]? = some d) :
    (s.setPc i d pc).Queued j ↔ if i = j then pc = .signal ∨ pc = .returned else s.Queued j := by
  rw [Queued, getElem?_setPc hd]
  by_cases hij : i = j
  · simp [hij]
  · simp [hij, Queued]

/-- The requests of the device, at rest. -/
theorem not_referenced_iff : ¬ s.Referenced ↔
    ∀ i d, s.dispatches[i]? = some d → d.pc = .elsewhere ∨ d.pc = .returned ∧ i ∈ s.completed := by
  constructor
  · intro h i d hd
    by_contra hnot
    refine h ⟨(d, i), List.mem_zipIdx_iff_getElem?.mpr hd, ?_⟩
    dsimp only
    tauto
  · rintro h ⟨⟨d, i⟩, hmem, hne, hopen⟩
    rcases h i d (List.mem_zipIdx_iff_getElem?.mp hmem) with hpc | hdone
    · exact hne hpc
    · exact hopen hdone

end QueueSystem

/-! ### The invariant of every run -/

open QueueSystem

structure Inv (s : QueueSystem) : Prop where
  /-- A queued request is in one place, any other is in none. -/
  once : ∀ i, s.Queued i → s.places.count i = 1
  never : ∀ i, ¬ s.Queued i → s.places.count i = 0
  /-- What lies in the queue when the thread looked at it in vain was put there later, and its
  dispatch routine sets the event behind that. -/
  woken : s.thread = .wait ∨ s.thread = .check → s.queue ≠ [] →
    s.requestEvent = true ∨ s.SomeAt .signal
  awake : s.thread = .check → s.requestEvent = true ∨ s.terminateThread = true
  leaving : s.thread = .release ∨ s.thread = .references ∨ s.thread = .exited ∨ s.released = true →
    s.terminateThread = true
  alone : s.thread = .exited → ¬ s.Referenced

namespace Inv

variable {s s' : QueueSystem} {i : ℕ}

/-- A step of the thread: requests stay where they are, or move with it. -/
theorem move (h : Inv s) (hd : s'.dispatches = s.dispatches) (hp : s'.places.Perm s.places)
    (hwoken : s'.thread = .wait ∨ s'.thread = .check → s'.queue ≠ [] →
      s'.requestEvent = true ∨ s'.SomeAt .signal)
    (hawake : s'.thread = .check → s'.requestEvent = true ∨ s'.terminateThread = true)
    (hleaving : s'.thread = .release ∨ s'.thread = .references ∨ s'.thread = .exited ∨
      s'.released = true → s'.terminateThread = true)
    (halone : s'.thread = .exited → ¬ s'.Referenced) : Inv s' := by
  refine ⟨?_, ?_, hwoken, hawake, hleaving, halone⟩
  · simp only [Queued, hd, hp.count_eq]
    exact h.once
  · simp only [Queued, hd, hp.count_eq]
    exact h.never

theorem arrive (h : Inv s) (major : Major) : Inv (s.step (.arrive major)) := by
  rw [QueueSystem.step]
  split
  · exact h
  · next hthread =>
      have hqueued : ∀ i, Queued { s with dispatches := s.dispatches ++ [⟨major, .check⟩] } i ↔
          s.Queued i := by
        intro i
        simp only [Queued, List.getElem?_append]
        split
        · rfl
        · next hlt =>
            have hnone : s.dispatches[i]? = none := List.getElem?_eq_none (by omega)
            simp only [hnone, List.getElem?_singleton]
            split <;> simp
      refine ⟨fun i hi => h.once i ((hqueued i).mp hi), fun i hi => h.never i fun hq =>
        hi ((hqueued i).mpr hq), fun hw hq => ?_, h.awake, h.leaving, fun he => absurd he hthread⟩
      rcases h.woken hw hq with hev | ⟨i, d, hd, hpc⟩
      · exact .inl hev
      · refine .inr ⟨i, d, ?_, hpc⟩
        rw [List.getElem?_append_left (List.getElem?_eq_some_iff.mp hd).1]
        exact hd

theorem remove (h : Inv s) : Inv (s.step .remove) :=
  ⟨h.once, h.never, h.woken, fun _ => .inr rfl, fun _ => rfl, h.alone⟩

theorem dispatch (h : Inv s) (i : ℕ) (queues : Bool) : Inv (s.dispatch i queues) := by
  rw [QueueSystem.dispatch]
  split
  · exact h
  · next d hd =>
      -- an exited thread has seen every request at rest
      have hrest : d.pc ≠ .elsewhere → d.pc ≠ .returned → s.thread ≠ .exited := by
        intro h1 h2 he
        rcases not_referenced_iff.mp (h.alone he) i d hd with hpc | hpc
        · exact h1 hpc
        · exact h2 hpc.1
      have hself : s.Queued i ↔ d.pc = .signal ∨ d.pc = .returned := by simp [Queued, hd]
      split
      · next hpc =>
          have hmove : ∀ pc, pc = .elsewhere ∨ pc = .insert → Inv (s.setPc i d pc) := by
            intro pc hpc'
            have hqueued : ∀ j, (s.setPc i d pc).Queued j ↔ s.Queued j := by
              intro j
              rw [queued_setPc hd]
              split
              · next hij =>
                  rw [← hij, hself, hpc]
                  rcases hpc' with rfl | rfl <;> simp
              · rfl
            refine ⟨fun j hj => h.once j ((hqueued j).mp hj), fun j hj => h.never j fun hq =>
              hj ((hqueued j).mpr hq), fun hw hq => ?_, h.awake, h.leaving, fun he => ?_⟩
            · rcases h.woken hw hq with hev | hsome
              · exact .inl hev
              · exact .inr (hsome.setPc hd (by simp [hpc]))
            · exact absurd he (hrest (by simp [hpc]) (by simp [hpc]))
          split
          · exact hmove _ (.inl rfl)
          · exact hmove _ (by cases queues <;> simp)
      · next hpc =>
          have hcount : ∀ j, (s.queue ++ [i] ++ s.thread.hand ++ s.completed).count j =
              s.places.count j + if i = j then 1 else 0 := by
            intro j
            simp only [places, List.count_append, List.count_singleton, beq_iff_eq]
            omega
          refine ⟨fun j hj => ?_, fun j hj => ?_, fun _ _ => .inr (someAt_setPc hd), h.awake,
            h.leaving, fun he => absurd he (hrest (by simp [hpc]) (by simp [hpc]))⟩
          · change (s.queue ++ [i] ++ s.thread.hand ++ s.completed).count j = 1
            rw [hcount]
            replace hj := (queued_setPc hd).mp hj
            split at hj
            · next hij =>
                rw [h.never j (by rw [← hij, hself, hpc]; simp), if_pos hij]
            · next hij => rw [h.once j hj, if_neg hij]
          · change (s.queue ++ [i] ++ s.thread.hand ++ s.completed).count j = 0
            rw [hcount]
            replace hj := fun hq => hj ((queued_setPc hd).mpr hq)
            split at hj
            · exact absurd (.inl rfl) hj
            · next hij => rw [h.never j hj, if_neg hij]
      · next hpc =>
          have hqueued : ∀ j, (s.setPc i d .returned).Queued j ↔ s.Queued j := by
            intro j
            rw [queued_setPc hd]
            split
            · next hij => simp [← hij, hself, hpc]
            · rfl
          exact ⟨fun j hj => h.once j ((hqueued j).mp hj), fun j hj => h.never j fun hq =>
            hj ((hqueued j).mpr hq), fun _ _ => .inl rfl, fun _ => .inl rfl, h.leaving,
            fun he => absurd he (hrest (by simp [hpc]) (by simp [hpc]))⟩
      · exact h
      · exact h

theorem runThread (h : Inv s) (handles : Bool) : Inv (s.runThread handles) := by
  rw [QueueSystem.runThread]
  split
  · next hpc =>
      exact h.move rfl (by simp [places, hpc, ThreadPc.hand]) (by simp) (by simp)
        (by simpa [hpc] using h.leaving) (by simp)
  · next hpc =>
      split
      · next hq =>
          exact h.move rfl (by simp [places, hpc, ThreadPc.hand]) (fun _ hne => absurd hq hne)
            (by simp) (by simpa [hpc] using h.leaving) (by simp)
      · next irp queue hq =>
          refine h.move rfl ?_ (by simp) (by simp) (by simpa [hpc] using h.leaving) (by simp)
          simp [places, hpc, hq, ThreadPc.hand, List.perm_middle]
  · next hpc =>
      split
      · next hset =>
          exact h.move rfl (by simp [places, hpc, ThreadPc.hand]) (fun _ => h.woken (.inl hpc))
            (fun _ => by simpa using hset) (by simpa [hpc] using h.leaving) (by simp)
      · exact h
  · next hpc =>
      by_cases hset : s.requestEvent = true
      · rw [if_pos hset]
        exact h.move rfl (by simp [places, hpc, ThreadPc.hand]) (by simp) (by simp)
          (by simpa [hpc] using h.leaving) (by simp)
      · rw [if_neg hset]
        exact h.move rfl (by simp [places, hpc, ThreadPc.hand]) (by simp) (by simp)
          (fun _ => (h.awake hpc).resolve_left hset) (by simp)
  · next hpc =>
      exact h.move rfl (by simp [places, hpc, ThreadPc.hand]) (by simp) (by simp)
        (fun _ => h.leaving (.inl hpc)) (by simp)
  · next hpc =>
      have hterm := h.leaving (.inr (.inl hpc))
      split
      · exact h.move rfl (by simp [places, hpc, ThreadPc.hand]) (by simp) (by simp)
          (fun _ => hterm) (by simp)
      · next hfree =>
          exact h.move rfl (by simp [places, hpc, ThreadPc.hand]) (by simp) (by simp)
            (fun _ => hterm) fun _ href => hfree (.inr href)
  · next irp hpc =>
      exact h.move rfl (by simp [places, hpc, ThreadPc.hand]) (by simp) (by simp)
        (by simpa [hpc] using h.leaving) (by simp)
  · next irp hpc =>
      exact h.move rfl (by simp [places, hpc, ThreadPc.hand]) (by simp) (by simp)
        (by simpa [hpc] using h.leaving) (by simp)
  · exact h

theorem step (h : Inv s) (e : Event) : Inv (s.step e) := by
  cases e with
  | arrive major => exact h.arrive major
  | dispatch i queues => exact h.dispatch i queues
  | remove => exact h.remove
  | thread handles => exact h.runThread handles

end Inv

/-! ### The thread empties the queue -/

/-- The steps of the thread until no request is left, when no new one comes. -/
def ThreadPc.rank (queue : List ℕ) : ThreadPc → ℕ
  | .clear => 4 * queue.length
  | .pop => 4 * queue.length - 1
  | .wait => 4 * queue.length + 2
  | .check => 4 * queue.length + 1
  | .release => 4 * queue.length + 2
  | .references => 4 * queue.length + 1
  | .execute _ => 4 * queue.length + 2
  | .complete _ => 4 * queue.length + 1
  | .exited => 0

/-- All requests that were queued are completed. -/
def Drained (s : QueueSystem) : Prop := s.queue = [] ∧ s.thread.hand = []

theorem Drained.completed {s : QueueSystem} (h : Drained s) (hs : Inv s) {i : ℕ}
    (hi : s.Queued i) : s.completed.count i = 1 := by
  have := hs.once i hi
  simpa [places, h.1, h.2] using this

/-- The thread gets on while there is a request, once no dispatch routine is about to set the
event. -/
theorem rank_runThread {s : QueueSystem} (h : Inv s) (hsignal : ¬ s.SomeAt .signal)
    (hopen : ¬ Drained s) (handles : Bool) :
    (s.runThread handles).thread.rank (s.runThread handles).queue < s.thread.rank s.queue := by
  have hqueue : s.thread.hand = [] → s.queue ≠ [] := fun hh hq => hopen ⟨hq, hh⟩
  have hlen : s.thread.hand = [] → 0 < s.queue.length := fun hh =>
    List.length_pos_iff.mpr (hqueue hh)
  -- a request in the queue is not completed, so its handle is open
  have href : s.thread.hand = [] → s.Referenced := by
    intro hh
    by_contra hno
    obtain ⟨i, hi⟩ := List.exists_mem_of_ne_nil _ (hqueue hh)
    have hmem : 0 < s.queue.count i := List.count_pos_iff.mpr hi
    have hq : s.Queued i := by
      by_contra hq
      have := h.never i hq
      simp only [places, List.count_append] at this
      omega
    have hone := h.once i hq
    simp only [places, List.count_append] at hone
    obtain ⟨d, hd, hpc⟩ := hq
    rcases not_referenced_iff.mp hno i d hd with hpc' | ⟨-, hdone⟩
    · simp [hpc'] at hpc
    · have := List.count_pos_iff.mpr hdone
      omega
  rw [QueueSystem.runThread]
  split
  · next hpc =>
      have := hlen (by simp [hpc, ThreadPc.hand])
      simp only [hpc, ThreadPc.rank]
      omega
  · next hpc =>
      have hne := hqueue (by simp [hpc, ThreadPc.hand])
      split
      · next hq => exact absurd hq hne
      · next irp queue hq =>
          simp only [hpc, hq, ThreadPc.rank, List.length_cons]
          omega
  · next hpc =>
      have hset := (h.woken (.inl hpc) (hqueue (by simp [hpc, ThreadPc.hand]))).resolve_right hsignal
      rw [if_pos (by simp [hset])]
      simp [hpc, ThreadPc.rank]
  · next hpc =>
      have hset := (h.woken (.inr hpc) (hqueue (by simp [hpc, ThreadPc.hand]))).resolve_right hsignal
      simp [hpc, hset, ThreadPc.rank]
  · next hpc => simp [hpc, ThreadPc.rank]
  · next hpc =>
      rw [if_pos (.inr (href (by simp [hpc, ThreadPc.hand])))]
      simp [hpc, ThreadPc.rank]
  · next hpc => simp [hpc, ThreadPc.rank]
  · next hpc => simp [hpc, ThreadPc.rank]
  · next hpc =>
      exact absurd (href (by simp [hpc, ThreadPc.hand])) (h.alone hpc)

theorem dispatches_runThread (s : QueueSystem) (handles : Bool) :
    (s.runThread handles).dispatches = s.dispatches := by
  unfold QueueSystem.runThread
  split <;> try rfl
  · split <;> rfl
  · split <;> rfl

/-- After as many steps of the thread as the rank, it has been through the whole queue. -/
theorem exists_drained {s : QueueSystem} (h : Inv s) (hsignal : ¬ s.SomeAt .signal) {hs : List Bool}
    (hlen : s.thread.rank s.queue ≤ hs.length) :
    ∃ hs', hs' <+: hs ∧ Inv (hs'.foldl QueueSystem.runThread s) ∧
      Drained (hs'.foldl QueueSystem.runThread s) ∧
      (hs'.foldl QueueSystem.runThread s).dispatches = s.dispatches := by
  induction hs generalizing s with
  | nil =>
      refine ⟨[], List.prefix_rfl, h, ?_, rfl⟩
      by_contra hopen
      have := rank_runThread h hsignal hopen true
      simp only [List.length_nil] at hlen
      omega
  | cons handles hs ih =>
      by_cases hopen : Drained s
      · exact ⟨[], List.nil_prefix, h, hopen, rfl⟩
      · have hrank := rank_runThread h hsignal hopen handles
        have hsame := dispatches_runThread s handles
        have hsignal' : ¬ (s.runThread handles).SomeAt .signal := by
          rwa [SomeAt, hsame]
        obtain ⟨hs', hpre, hinv, hdrained, hdisp⟩ := ih (h.runThread handles) hsignal' (by
          simp only [List.length_cons] at hlen
          omega)
        exact ⟨handles :: hs', List.cons_prefix_cons.mpr ⟨rfl, hpre⟩, hinv, hdrained,
          hdisp.trans hsame⟩

/-! ### Removal -/

/-- When the thread has found that no request was announced and starts to release the image, the
queue is empty and no dispatch routine is between its look at `terminate_thread` and the queue. -/
def Settled (s : QueueSystem) : Event → Prop
  | .thread _ => s.thread = .check → s.requestEvent = false → s.queue = [] ∧ ¬ s.SomeAt .insert
  | _ => True

/-- The invariant of a settled run: behind the decision to leave, nothing comes to the queue. -/
structure Shut (s : QueueSystem) : Prop where
  closed : s.thread = .release ∨ s.thread = .references ∨ s.released = true →
    s.queue = [] ∧ ¬ s.SomeAt .insert
  open' : ∀ irp, s.thread = .execute irp → s.released = false
  kept : ∀ p ∈ s.executed, p.2 = false

namespace Shut

variable {s : QueueSystem}

theorem arrive (h : Shut s) (major : Major) : Shut (s.step (.arrive major)) := by
  rw [QueueSystem.step]
  split
  · exact h
  · refine ⟨fun hc => ⟨(h.closed hc).1, ?_⟩, h.open', h.kept⟩
    rintro ⟨i, d, hd, hpc⟩
    dsimp only at hd
    rw [List.getElem?_append] at hd
    split at hd
    · exact (h.closed hc).2 ⟨i, d, hd, hpc⟩
    · rw [List.getElem?_singleton] at hd
      split at hd
      · cases hd
        cases hpc
      · cases hd

theorem dispatch (h : Shut s) (hinv : Inv s) (i : ℕ) (queues : Bool) :
    Shut (s.dispatch i queues) := by
  rw [QueueSystem.dispatch]
  split
  · exact h
  · next d hd =>
      have hmove : ∀ pc, pc ≠ .insert → ∀ hc : s.thread = .release ∨ s.thread = .references ∨
          s.released = true, ¬ (s.setPc i d pc).SomeAt .insert := by
        intro pc hne hc hsome
        rcases someAt_of_setPc hd hsome with hpc | hsome
        · exact hne hpc.symm
        · exact (h.closed hc).2 hsome
      split
      · split
        · exact ⟨fun hc => ⟨(h.closed hc).1, hmove _ (by simp) hc⟩, h.open', h.kept⟩
        · next hterm =>
            refine ⟨fun hc => absurd (hinv.leaving ?_) hterm, h.open', h.kept⟩
            rcases hc with hc | hc | hc
            · exact .inl hc
            · exact .inr (.inl hc)
            · exact .inr (.inr (.inr hc))
      · next hpc => exact ⟨fun hc => absurd ⟨i, d, hd, hpc⟩ (h.closed hc).2, h.open', h.kept⟩
      · exact ⟨fun hc => ⟨(h.closed hc).1, hmove _ (by simp) hc⟩, h.open', h.kept⟩
      · exact h
      · exact h

theorem runThread (h : Shut s) (handles : Bool) (hok : Settled s (.thread handles)) :
    Shut (s.runThread handles) := by
  rw [QueueSystem.runThread]
  split
  · exact ⟨fun hc => h.closed (.inr (.inr (by simpa using hc))), by simp, h.kept⟩
  · split
    · exact ⟨fun hc => h.closed (.inr (.inr (by simpa using hc))), by simp, h.kept⟩
    · next irp queue hq =>
        have hopen : s.released = false := by
          by_contra hr
          have := (h.closed (.inr (.inr (by simpa using hr)))).1
          simp [hq] at this
        exact ⟨by simp [hopen], fun _ _ => hopen, h.kept⟩
  · split
    · exact ⟨fun hc => h.closed (.inr (.inr (by simpa using hc))), by simp, h.kept⟩
    · exact h
  · next hpc =>
      by_cases hset : s.requestEvent = true
      · rw [if_pos hset]
        exact ⟨fun hc => h.closed (.inr (.inr (by simpa using hc))), by simp, h.kept⟩
      · rw [if_neg hset]
        exact ⟨fun _ => hok hpc (by simpa using hset), by simp, h.kept⟩
  · next hpc => exact ⟨fun _ => h.closed (.inl hpc), by simp, h.kept⟩
  · next hpc =>
      refine ⟨fun _ => h.closed (.inr (.inl hpc)), fun irp hirp => ?_, h.kept⟩
      dsimp only at hirp
      split at hirp <;> cases hirp
  · next irp hpc =>
      have hopen := h.open' irp hpc
      refine ⟨fun hc => h.closed (.inr (.inr (by simpa using hc))), by simp, ?_⟩
      intro p hp
      rcases List.mem_cons.mp hp with rfl | hp
      · exact hopen
      · exact h.kept p hp
  · exact ⟨fun hc => h.closed (.inr (.inr (by simpa using hc))), by simp, h.kept⟩
  · exact h

theorem step (h : Shut s) (hinv : Inv s) {e : Event} (hok : Settled s e) : Shut (s.step e) := by
  cases e with
  | arrive major => exact h.arrive major
  | dispatch i queues => exact h.dispatch hinv i queues
  | remove => exact ⟨h.closed, h.open', h.kept⟩
  | thread handles => exact h.runThread handles hok

end Shut

/-! ### Runs -/

/-- A device whose thread enters the loop.  `terminate_thread` is already set when the image could
not be loaded. -/
def QueueSystem.start (terminateThread requestEvent : Bool) : QueueSystem where
  terminateThread := terminateThread
  requestEvent := requestEvent
  queue := []
  released := false
  thread := .clear
  dispatches := []
  completed := []
  executed := []

structure Orderly (s : QueueSystem) : Prop where
  /-- No request is completed twice, and only requests of the queue are completed here. -/
  once : ∀ i, s.completed.count i ≤ 1
  queued : ∀ i ∈ s.completed, s.Queued i
  /-- The thread does not leave a queued request behind, -/
  ended : s.thread = .exited → ∀ i, s.Queued i → s.completed.count i = 1
  /-- and when the dispatch routines have set the event it completes all of them. -/
  drains : ¬ s.SomeAt .signal → ∀ hs : List Bool, s.thread.rank s.queue ≤ hs.length →
    ∃ hs', hs' <+: hs ∧ ∀ i, s.Queued i →
      (hs'.foldl QueueSystem.runThread s).completed.count i = 1
  woken : s.thread = .wait → s.queue ≠ [] → s.requestEvent = true ∨ s.SomeAt .signal
  /-- No request is executed without the image. -/
  kept : ∀ p ∈ s.executed, p.2 = false

theorem inv_of_reach {s : QueueSystem} {ok : QueueSystem → Event → Prop} {terminate event : Bool}
    (h : Reach QueueSystem.step ok (QueueSystem.start terminate event) s) : Inv s := by
  refine h.invariant ?_ fun s e hs _ => hs.step e
  refine ⟨?_, ?_, by simp [start], by simp [start], by simp [start], by simp [start]⟩
  · rintro i ⟨d, hd, -⟩
    simp [start] at hd
  · intro i _
    simp [start, places, ThreadPc.hand]

/-- Every run in which the thread starts to release the image only when no request is in the queue
or on its way to it: each queued request is completed exactly once, no wake-up is lost, and no
request is executed after the release. -/
theorem orderly_of_reach {s : QueueSystem} {terminate event : Bool}
    (h : Reach QueueSystem.step Settled (QueueSystem.start terminate event) s) : Orderly s := by
  have hinv := inv_of_reach h
  have hshut : Inv s ∧ Shut s := by
    have hstart : Reach QueueSystem.step Settled (QueueSystem.start terminate event) _ := .start
    refine h.invariant (P := fun s => Inv s ∧ Shut s) ⟨inv_of_reach hstart, ?_⟩ ?_
    · exact ⟨by simp [start], by simp [start], by simp [start]⟩
    · rintro s e ⟨hs, hshut⟩ hok
      exact ⟨hs.step e, hshut.step hs hok⟩
  have hqueued : ∀ i, 0 < s.completed.count i → s.Queued i := by
    intro i hpos
    by_contra hq
    have := hinv.never i hq
    simp only [places, List.count_append] at this
    omega
  refine ⟨fun i => ?_, fun i hi => hqueued i (List.count_pos_iff.mpr hi), fun he i hi => ?_,
    fun hsignal hs hlen => ?_, fun hw => hinv.woken (.inl hw), hshut.2.kept⟩
  · by_cases hq : s.Queued i
    · have := hinv.once i hq
      simp only [places, List.count_append] at this
      omega
    · have := hinv.never i hq
      simp only [places, List.count_append] at this
      omega
  · obtain ⟨d, hd, hpc⟩ := hi
    have hone := hinv.once i ⟨d, hd, hpc⟩
    simp only [places, List.count_append] at hone
    rcases not_referenced_iff.mp (hinv.alone he) i d hd with hpc' | ⟨-, hdone⟩
    · simp [hpc'] at hpc
    · have := List.count_pos_iff.mpr hdone
      omega
  · obtain ⟨hs', hpre, hinv', hdrained, hdisp⟩ := exists_drained hinv hsignal hlen
    refine ⟨hs', hpre, fun i hi => hdrained.completed hinv' ?_⟩
    rwa [Queued, hdisp]

/-- A read that is queued and completed, and a removal after it. -/
theorem orderly_readThenRemove :
    Orderly ([.arrive .read, .dispatch 0 true, .dispatch 0 true, .dispatch 0 true, .thread false,
      .thread false, .thread false, .thread false, .thread false, .thread false, .remove,
      .thread false, .thread false, .thread false].foldl QueueSystem.step
        (QueueSystem.start false false)) := by
  refine orderly_of_reach (Reach.start.foldl ?_)
  refine ⟨trivial, trivial, trivial, trivial, ?_, ?_, ?_, ?_, ?_, ?_, trivial, ?_, ?_, ?_, trivial⟩
  case refine_8 => exact fun _ _ => ⟨rfl, by decide⟩
  all_goals exact fun h => absurd h (by decide)

/-- A removal between the look at `terminate_thread` and the queue: the thread releases the image
and then executes the read that it finds in the queue. -/
theorem not_orderly_removal :
    ∃ s, Reach QueueSystem.step (fun _ _ => True) (QueueSystem.start false false) s ∧
      s.dispatches.map Dispatch.major = [.read] ∧ (0, true) ∈ s.executed ∧ ¬ Orderly s := by
  refine ⟨[.arrive .read, .dispatch 0 true, .thread false, .thread false, .remove, .thread false,
    .dispatch 0 true, .thread false, .thread false, .thread false, .thread false, .thread false,
    .thread false].foldl QueueSystem.step (QueueSystem.start false false), ?_, rfl, ?_, ?_⟩
  · exact Reach.start.foldl ⟨trivial, trivial, trivial, trivial, trivial, trivial, trivial, trivial,
      trivial, trivial, trivial, trivial, trivial, trivial⟩
  · decide
  · intro h
    exact absurd (h.kept (0, true) (by decide)) (by decide)

end KernelDrivers.ImDisk
