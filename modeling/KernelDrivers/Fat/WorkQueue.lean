import KernelDrivers.Lib.Interleave

/-!
# The work queue of a volume

Requests that cannot be finished in the thread of their caller are posted to the executive's worker
threads.  At most three workers serve one volume.  What is posted beyond that waits in the volume's
overflow queue, and a worker that is through with a request looks there for the next one.

A request outside the queues is in the hands of its caller, of the oplock package or of the cache
manager.  Volumes are torn down at any time; a worker that looks at the queue of such a volume reads
freed memory, and the model stops.

## Main definitions

* `fatAddToWorkque`, `fatRemoveOverflowEntry` — the two routines under the spin lock of a volume.
* `Worker`, `State.step` — the turns of `FatFspDispatch`, and what happens around it.
* `Sound` — the invariant of a mounted volume.
* `places` — in how many places a request is.

## Main results

* `sound_of_run` — the invariant holds in every run.
* `places_of_run` — no request is lost or served twice.
* `drains` — the workers come to an end, and then nothing waits.
-/

namespace KernelDrivers.Fat.WorkQueue

/-- A posted request.  `fileObject` is the volume whose device the request is for; a request that has
no file object belongs to none. -/
structure Request (V : Type) where
  id : ℕ
  fileObject : Option V
  isClose : Bool
  deriving DecidableEq

/-- The queue fields of a volume device object. -/
structure Vdo (V : Type) where
  postedRequestCount : UInt32
  overflowQueueCount : UInt32
  overflowQueue : List (Request V)

/-- An executive worker thread: without work, in the `switch` with a request, or behind it.  `volDo` is
the local variable of `FatFspDispatch`. -/
inductive Worker (V : Type)
  | idle
  | busy (volDo : Option V) (irp : Request V)
  | left (volDo : Option V)
  deriving DecidableEq

structure State (V : Type) where
  vdo : V → Vdo V
  criticalWorkQueue : List (Request V)
  workers : List (Worker V)
  outside : List (Request V)
  completed : List (Request V)
  tornDown : V → Bool
  stopped : Bool

/-- What the `switch` makes of a request: it is completed, and a close may delete the volume; it is
posted again behind a verify; or it is left with the oplock package or the cache manager. -/
inductive Outcome
  | completed (vcbDeleted : Bool)
  | posted
  | pended
  deriving DecidableEq

inductive Event (V : Type)
  | arrive (irp : Request V)
  | post (irp : Request V)
  | finish (irp : Request V)
  | hire
  | turn (i : ℕ) (o : Outcome)
  | tearDown (v : V)
  deriving DecidableEq

def fspPerDeviceThreshold : UInt32 := 2

variable {V : Type} [DecidableEq V]

namespace State

def setVdo (s : State V) (v : V) (d : Vdo V) : State V :=
  { s with vdo := Function.update s.vdo v d }

/-- Insert a request at the tail of the overflow queue. -/
def overflow (v : V) (irp : Request V) (s : State V) : State V :=
  s.setVdo v { s.vdo v with
    overflowQueue := (s.vdo v).overflowQueue ++ [irp]
    overflowQueueCount := (s.vdo v).overflowQueueCount + 1 }

/-- Count a request and send it off to a worker thread. -/
def sendOff (v : V) (irp : Request V) (s : State V) : State V :=
  { s.setVdo v { s.vdo v with postedRequestCount := (s.vdo v).postedRequestCount + 1 } with
    criticalWorkQueue := s.criticalWorkQueue ++ [irp] }

/-- `FatAddToWorkque`. -/
def fatAddToWorkque (irp : Request V) (s : State V) : State V :=
  match irp.fileObject with
  | none => { s with criticalWorkQueue := s.criticalWorkQueue ++ [irp] }
  | some v =>
      if s.tornDown v then { s with stopped := true }
      else if fspPerDeviceThreshold < (s.vdo v).postedRequestCount then s.overflow v irp
      else s.sendOff v irp

/-- `FatRemoveOverflowEntry`. -/
def fatRemoveOverflowEntry (v : V) (s : State V) : Option (Request V) × State V :=
  if 0 < (s.vdo v).overflowQueueCount then
    ((s.vdo v).overflowQueue.head?, s.setVdo v { s.vdo v with
      overflowQueue := (s.vdo v).overflowQueue.tail
      overflowQueueCount := (s.vdo v).overflowQueueCount - 1 })
  else
    (none, s.setVdo v { s.vdo v with postedRequestCount := (s.vdo v).postedRequestCount - 1 })

def setWorker (s : State V) (i : ℕ) (w : Worker V) : State V :=
  { s with workers := s.workers.set i w }

/-- One pass through the `switch` with the request `irp`. -/
def dispatch (s : State V) (i : ℕ) (volDo : Option V) (irp : Request V) : Outcome → State V
  | .completed vcbDeleted =>
      let s := { s with completed := s.completed ++ [irp] }
      match volDo with
      | some v =>
          if irp.isClose && vcbDeleted then
            { s.setWorker i (.left none) with tornDown := Function.update s.tornDown v true }
          else s.setWorker i (.left volDo)
      | none => s.setWorker i (.left volDo)
  | .posted => (s.setWorker i (.left volDo)).fatAddToWorkque irp
  | .pended => { s.setWorker i (.left volDo) with outside := s.outside ++ [irp] }

/-- The end of the loop: the next request of the volume, or back to the executive. -/
def nextEntry (s : State V) (i : ℕ) (v : V) : State V :=
  if s.tornDown v then { s with stopped := true }
  else
    match s.fatRemoveOverflowEntry v with
    | (some irp, s') => s'.setWorker i (.busy (some v) irp)
    | (none, s') => s'.setWorker i .idle

/-- A turn of worker `i`. -/
def turn (s : State V) (i : ℕ) (o : Outcome) : Worker V → State V
  | .idle =>
      match s.criticalWorkQueue with
      | [] => s
      | irp :: rest => { s.setWorker i (.busy irp.fileObject irp) with criticalWorkQueue := rest }
  | .busy volDo irp => s.dispatch i volDo irp o
  | .left none => s.setWorker i .idle
  | .left (some v) => s.nextEntry i v

def step (s : State V) (e : Event V) : State V :=
  if s.stopped then s
  else
    match e with
    | .arrive irp => { s with outside := s.outside ++ [irp] }
    | .post irp =>
        if irp ∈ s.outside then
          { s with outside := s.outside.erase irp }.fatAddToWorkque irp
        else s
    | .finish irp =>
        if irp ∈ s.outside then
          { s with outside := s.outside.erase irp, completed := s.completed ++ [irp] }
        else s
    | .hire => { s with workers := s.workers ++ [.idle] }
    | .turn i o =>
        match s.workers[i]? with
        | some w => s.turn i o w
        | none => s
    | .tearDown v => { s with tornDown := Function.update s.tornDown v true }

/-- Freshly mounted volumes and no request yet. -/
def start : State V where
  vdo _ := ⟨0, 0, []⟩
  criticalWorkQueue := []
  workers := []
  outside := []
  completed := []
  tornDown _ := false
  stopped := false

end State

/-! ## The invariant of a volume -/

namespace Worker

/-- The worker counts for volume `v`. -/
@[simp] def onVolume (v : V) : Worker V → Bool
  | .idle => false
  | .busy volDo _ => volDo = some v
  | .left volDo => volDo = some v

end Worker

/-- The request has a file object on volume `v`. -/
def Request.onVolume (v : V) (irp : Request V) : Bool := irp.fileObject = some v

namespace State

/-- The requests of volume `v` that wait for a worker, and the workers that serve the volume. -/
def posted (s : State V) (v : V) : ℕ :=
  s.criticalWorkQueue.countP (Request.onVolume v) + s.workers.countP (Worker.onVolume v)

end State

/-- What a mounted volume keeps. -/
structure Sound (s : State V) (v : V) : Prop where
  posted : (s.vdo v).postedRequestCount.toNat = s.posted v
  bound : s.posted v ≤ 3
  count : (s.vdo v).overflowQueueCount.toNat = (s.vdo v).overflowQueue.length
  full : (s.vdo v).overflowQueue ≠ [] → s.posted v = 3

/-- The volumes that were not torn down are sound, and every overflow queue holds requests of its own
volume. -/
structure AllSound (s : State V) : Prop where
  sound : ∀ v, s.tornDown v = false → Sound s v
  owner : ∀ v, ∀ irp ∈ (s.vdo v).overflowQueue, irp.fileObject = some v

/-- The counters of the overflow queues have room. -/
def HasRoom (s : State V) : Prop := ∀ v, (s.vdo v).overflowQueue.length + 1 < 2 ^ 32

namespace State

variable {s : State V} {v : V} {irp : Request V} {i : ℕ} {w : Worker V}

theorem allSound_start : AllSound (start : State V) := by
  constructor
  · intro v _
    constructor <;> simp [start, posted]
  · intro v irp hirp
    simp [start] at hirp

omit [DecidableEq V] in
@[simp] theorem setWorker_vdo (w : Worker V) : (s.setWorker i w).vdo = s.vdo := rfl

@[simp] theorem setVdo_vdo_self (d : Vdo V) : (s.setVdo v d).vdo v = d := by
  simp [setVdo]

theorem setVdo_vdo_of_ne {v' : V} (d : Vdo V) (hne : v' ≠ v) : (s.setVdo v d).vdo v' = s.vdo v' := by
  simp [setVdo, hne]

@[simp] theorem posted_setVdo (v' : V) (d : Vdo V) : (s.setVdo v d).posted v' = s.posted v' := rfl

/-- A worker that is replaced changes the count by its own part. -/
theorem posted_setWorker (w' : Worker V) (hw : s.workers[i]? = some w) :
    (s.setWorker i w').posted v + (if w.onVolume v then 1 else 0) =
      s.posted v + (if w'.onVolume v then 1 else 0) := by
  have hcount := Conf.countP_run (Worker.onVolume v) w' hw
  simp only [posted, setWorker]
  omega

theorem posted_pos (hw : s.workers[i]? = some (.left (some v))) : 0 < s.posted v :=
  Nat.add_pos_right _ (List.countP_pos_iff.mpr ⟨_, List.mem_of_getElem? hw, by simp⟩)

end State

section Kept

variable {s s' : State V} {v : V} {irp : Request V}

/-- Only what the volume's own fields and the count say matters. -/
theorem Sound.congr (h : Sound s v) (hvdo : s'.vdo v = s.vdo v) (hposted : s'.posted v = s.posted v) :
    Sound s' v := by
  constructor
  · rw [hvdo, hposted, h.posted]
  · rw [hposted]
    exact h.bound
  · rw [hvdo, h.count]
  · intro hne
    rw [hvdo] at hne
    rw [hposted, h.full hne]

/-- A step at one volume. -/
theorem AllSound.update (h : AllSound s) (hvdo : ∀ v' ≠ v, s'.vdo v' = s.vdo v')
    (hposted : ∀ v' ≠ v, s'.posted v' = s.posted v')
    (htorn : ∀ v', s'.tornDown v' = false → s.tornDown v' = false)
    (hsound : s'.tornDown v = false → Sound s' v)
    (howner : ∀ irp ∈ (s'.vdo v).overflowQueue, irp.fileObject = some v) : AllSound s' := by
  constructor
  · intro v' hv'
    by_cases hne : v' = v
    · subst hne
      exact hsound hv'
    · exact (h.sound v' (htorn v' hv')).congr (hvdo v' hne) (hposted v' hne)
  · intro v' irp hirp
    by_cases hne : v' = v
    · subst hne
      exact howner irp hirp
    · rw [hvdo v' hne] at hirp
      exact h.owner v' irp hirp

/-- A step that leaves the volumes and their counts alone. -/
theorem AllSound.congr (h : AllSound s) (hvdo : s'.vdo = s.vdo)
    (hposted : ∀ v, s'.tornDown v = false → s'.posted v = s.posted v)
    (htorn : ∀ v, s'.tornDown v = false → s.tornDown v = false) : AllSound s' := by
  constructor
  · intro v hv
    exact (h.sound v (htorn v hv)).congr (by rw [hvdo]) (hposted v hv)
  · intro v irp hirp
    rw [hvdo] at hirp
    exact h.owner v irp hirp

/-- A step that tears a volume down. -/
theorem AllSound.tearDown (h : AllSound s) (hvdo : s'.vdo = s.vdo)
    (hposted : ∀ v' ≠ v, s'.posted v' = s.posted v')
    (htorn : s'.tornDown = Function.update s.tornDown v true) : AllSound s' := by
  have hne : ∀ v', s'.tornDown v' = false → v' ≠ v := by
    rintro v' hv' rfl
    simp [htorn] at hv'
  refine h.congr hvdo (fun v' hv' => hposted v' (hne v' hv')) fun v' hv' => ?_
  simpa [htorn, hne v' hv'] using hv'

/-- A request waits in the overflow queue while three workers are taken. -/
theorem AllSound.overflow (h : AllSound s) (hroom : HasRoom s) (hfile : irp.fileObject = some v)
    (hthree : s.tornDown v = false → s.posted v = 3) : AllSound (s.overflow v irp) := by
  refine h.update (v := v) (fun v' hne => State.setVdo_vdo_of_ne _ hne) (fun _ _ => rfl)
    (fun _ hv => hv) (fun hv => ?_) (fun r hr => ?_)
  · have hsound := h.sound v hv
    constructor
    · simpa [State.overflow] using hsound.posted
    · exact hsound.bound
    · have hlen := hroom v
      have hcount := hsound.count
      simp only [State.overflow, State.setVdo_vdo_self, UInt32.toNat_add, UInt32.toNat_one,
        List.length_append, List.length_singleton]
      omega
    · intro _
      exact hthree hv
  · simp only [State.overflow, State.setVdo_vdo_self, List.mem_append, List.mem_singleton] at hr
    cases hr with
    | inl hr => exact h.owner v r hr
    | inr hr => rw [hr, hfile]

theorem State.posted_sendOff (v' : V) (hfile : irp.fileObject = some v) :
    (s.sendOff v irp).posted v' = s.posted v' + if v' = v then 1 else 0 := by
  have hown : Request.onVolume v' irp = decide (v' = v) := by
    simp [Request.onVolume, hfile, eq_comm]
  simp only [State.posted, State.sendOff, State.setVdo, List.countP_append, List.countP_singleton, hown,
    decide_eq_true_eq]
  omega

/-- A request goes to a worker while fewer than three are taken, and then none waits. -/
theorem AllSound.sendOff (h : AllSound s) (hfile : irp.fileObject = some v)
    (hlt : s.tornDown v = false → s.posted v < 3) : AllSound (s.sendOff v irp) := by
  refine h.update (v := v) (fun v' hne => State.setVdo_vdo_of_ne _ hne) (fun v' hne => ?_)
    (fun _ hv => hv) (fun hv => ?_) (fun r hr => ?_)
  · rw [State.posted_sendOff v' hfile, if_neg hne, Nat.add_zero]
  · have hsound := h.sound v hv
    have hbelow := hlt hv
    have hposted := State.posted_sendOff (s := s) v hfile
    rw [if_pos rfl] at hposted
    constructor
    · have hcount := hsound.posted
      rw [hposted]
      simp only [State.sendOff, State.setVdo_vdo_self, UInt32.toNat_add, UInt32.toNat_one]
      omega
    · rw [hposted]
      exact hbelow
    · simpa [State.sendOff] using hsound.count
    · intro hne
      have hfull := hsound.full (by simpa [State.sendOff] using hne)
      omega
  · exact h.owner v r (by simpa [State.sendOff] using hr)

/-- Posting keeps the invariant. -/
theorem AllSound.fatAddToWorkque (h : AllSound s) (hroom : HasRoom s) (irp : Request V) :
    AllSound (s.fatAddToWorkque irp) := by
  unfold State.fatAddToWorkque
  split
  · next hfile =>
      refine h.congr rfl (fun v _ => ?_) fun _ hv => hv
      simp [State.posted, Request.onVolume, hfile]
  · next v hfile =>
      split
      · exact h.congr rfl (fun _ _ => rfl) fun _ hv => hv
      · split
        · next hgt =>
            refine h.overflow hroom hfile fun hv => ?_
            have hlt := UInt32.lt_iff_toNat_lt.mp hgt
            rw [(h.sound v hv).posted] at hlt
            exact le_antisymm (h.sound v hv).bound hlt
        · next hgt =>
            refine h.sendOff hfile fun hv => ?_
            have hle := UInt32.le_iff_toNat_le.mp (UInt32.not_lt.mp hgt)
            rw [(h.sound v hv).posted] at hle
            exact Nat.lt_succ_of_le hle

/-- A worker goes on to a state that counts for the same volume. -/
theorem AllSound.setWorker {i : ℕ} {w w' : Worker V} (h : AllSound s) (hw : s.workers[i]? = some w)
    (hsame : ∀ v, w'.onVolume v = w.onVolume v) : AllSound (s.setWorker i w') := by
  refine h.congr rfl (fun v _ => ?_) fun _ hv => hv
  have hposted := State.posted_setWorker (v := v) w' hw
  rw [hsame v] at hposted
  exact Nat.add_right_cancel hposted

/-- A worker behind a request takes the first one that waits for the volume; when none waits, the volume
has one worker less. -/
theorem State.nextEntry_cases {i : ℕ} (hsound : Sound s v) (htorn : s.tornDown v = false)
    (hw : s.workers[i]? = some (.left (some v))) :
    ∃ d, (∃ r rest, s.nextEntry i v = (s.setVdo v d).setWorker i (.busy (some v) r) ∧
        (s.vdo v).overflowQueue = r :: rest ∧ d.overflowQueue = rest ∧
        d.overflowQueueCount.toNat = rest.length ∧ d.postedRequestCount = (s.vdo v).postedRequestCount) ∨
      s.nextEntry i v = (s.setVdo v d).setWorker i .idle ∧ (s.vdo v).overflowQueue = [] ∧
        d.overflowQueue = [] ∧ d.overflowQueueCount.toNat = 0 ∧
        d.postedRequestCount.toNat + 1 = s.posted v := by
  have hcount := hsound.count
  rw [nextEntry, if_neg (by simp [htorn])]
  cases hqueue : (s.vdo v).overflowQueue with
  | cons r rest =>
      rw [hqueue, List.length_cons] at hcount
      have hone : (1 : UInt32) ≤ (s.vdo v).overflowQueueCount := by
        rw [UInt32.le_iff_toNat_le, hcount]
        simp
      have hpos : 0 < (s.vdo v).overflowQueueCount := by
        rw [UInt32.lt_iff_toNat_lt, hcount]
        simp
      have hless : ((s.vdo v).overflowQueueCount - 1).toNat = rest.length := by
        rw [UInt32.toNat_sub_of_le _ _ hone, hcount]
        rfl
      have heq : s.fatRemoveOverflowEntry v = (some r, s.setVdo v { s.vdo v with
          overflowQueue := rest, overflowQueueCount := (s.vdo v).overflowQueueCount - 1 }) := by
        simp [fatRemoveOverflowEntry, hpos, hqueue]
      rw [heq]
      exact ⟨_, .inl ⟨r, rest, rfl, rfl, rfl, hless, rfl⟩⟩
  | nil =>
      rw [hqueue, List.length_nil] at hcount
      have hone : (1 : UInt32) ≤ (s.vdo v).postedRequestCount := by
        rw [UInt32.le_iff_toNat_le, hsound.posted]
        exact posted_pos hw
      have hzero : ¬ 0 < (s.vdo v).overflowQueueCount := by
        rw [UInt32.lt_iff_toNat_lt, hcount]
        simp
      have hless : ((s.vdo v).postedRequestCount - 1).toNat + 1 = s.posted v := by
        rw [UInt32.toNat_sub_of_le _ _ hone, hsound.posted]
        exact Nat.sub_add_cancel (posted_pos hw)
      have heq : s.fatRemoveOverflowEntry v = (none, s.setVdo v { s.vdo v with
          postedRequestCount := (s.vdo v).postedRequestCount - 1 }) := if_neg hzero
      rw [heq]
      exact ⟨_, .inr ⟨rfl, rfl, hqueue, hcount, hless⟩⟩

/-- The end of the loop keeps the invariant: the worker is counted until nothing waits. -/
theorem AllSound.nextEntry {i : ℕ} (h : AllSound s) (hw : s.workers[i]? = some (.left (some v))) :
    AllSound (s.nextEntry i v) := by
  by_cases htorn : s.tornDown v = true
  · rw [State.nextEntry, if_pos htorn]
    exact h.congr rfl (fun _ _ => rfl) fun _ hv => hv
  have hsound := h.sound v (by simpa using htorn)
  have hbound := hsound.bound
  obtain ⟨d, hcases⟩ := State.nextEntry_cases hsound (by simpa using htorn) hw
  rcases hcases with ⟨r, rest, heq, hqueue, hrest, hcount, hsame⟩ | ⟨heq, -, hnil, hcount, hless⟩
  · rw [heq]
    refine AllSound.setWorker (w := .left (some v)) ?_ hw fun v' => rfl
    refine h.update (v := v) (fun v' hne => State.setVdo_vdo_of_ne _ hne) (fun _ _ => rfl)
      (fun _ hv => hv) (fun _ => ?_) (fun r' hr' => ?_)
    · constructor
      · simpa [hsame] using hsound.posted
      · exact hbound
      · simpa [hrest] using hcount
      · exact fun _ => hsound.full (by simp [hqueue])
    · rw [State.setVdo_vdo_self, hrest] at hr'
      exact h.owner v r' (by simp [hqueue, hr'])
  · have hposted : ∀ v', (s.setWorker i .idle).posted v' + (if v' = v then 1 else 0) = s.posted v' := by
      intro v'
      simpa [eq_comm] using State.posted_setWorker (v := v') (.idle : Worker V) hw
    rw [heq]
    refine h.update (v := v) (fun v' hne => State.setVdo_vdo_of_ne _ hne) (fun v' hne => ?_)
      (fun _ hv => hv) (fun _ => ?_) (fun r hr => ?_)
    · have hcount := hposted v'
      rwa [if_neg hne, Nat.add_zero] at hcount
    · have hown := hposted v
      rw [if_pos rfl] at hown
      change Sound ((s.setWorker i .idle).setVdo v d) v
      constructor
      · rw [State.setVdo_vdo_self, State.posted_setVdo]
        omega
      · rw [State.posted_setVdo]
        omega
      · simpa [hnil] using hcount
      · intro hne
        simp [hnil] at hne
    · simp [hnil] at hr

/-- A pass through the `switch` keeps the invariant. -/
theorem AllSound.dispatch {i : ℕ} {volDo : Option V} (h : AllSound s) (hroom : HasRoom s)
    (hw : s.workers[i]? = some (.busy volDo irp)) (o : Outcome) :
    AllSound (s.dispatch i volDo irp o) := by
  have hleft : AllSound (s.setWorker i (.left volDo)) := h.setWorker hw fun _ => rfl
  cases o with
  | completed vcbDeleted =>
      have hdone : AllSound ({ s with completed := s.completed ++ [irp] }.setWorker i (.left volDo)) :=
        hleft.congr rfl (fun _ _ => rfl) fun _ hv => hv
      unfold State.dispatch
      cases volDo with
      | none => exact hdone
      | some v =>
          dsimp only
          split
          · refine h.tearDown rfl (fun v' hne => ?_) rfl
            have hposted : (s.setWorker i (.left none)).posted v' = s.posted v' := by
              simpa [Ne.symm hne] using State.posted_setWorker (v := v') (.left none) hw
            exact hposted
          · exact hdone
  | posted => exact hleft.fatAddToWorkque hroom irp
  | pended => exact hleft.congr rfl (fun _ _ => rfl) fun _ hv => hv

theorem AllSound.turn {i : ℕ} {w : Worker V} (h : AllSound s) (hroom : HasRoom s)
    (hw : s.workers[i]? = some w) (o : Outcome) : AllSound (s.turn i o w) := by
  unfold State.turn
  cases w with
  | idle =>
      dsimp only
      split
      · exact h
      · next irp rest hqueue =>
          refine h.congr rfl (fun v _ => ?_) fun _ hv => hv
          have hsame : (Worker.busy irp.fileObject irp).onVolume v = irp.onVolume v := rfl
          have hcount := Conf.countP_run (Worker.onVolume v) (.busy irp.fileObject irp) hw
          rw [hsame, Worker.onVolume, if_neg Bool.false_ne_true] at hcount
          simp only [State.posted, State.setWorker, hqueue, List.countP_cons]
          omega
  | busy volDo irp => exact h.dispatch hroom hw o
  | left volDo =>
      cases volDo with
      | none => exact h.setWorker hw fun _ => rfl
      | some v => exact h.nextEntry hw

theorem AllSound.step (h : AllSound s) (hroom : HasRoom s) (e : Event V) : AllSound (s.step e) := by
  unfold State.step
  split
  · exact h
  · cases e with
    | arrive irp => exact h.congr rfl (fun _ _ => rfl) fun _ hv => hv
    | post irp =>
        dsimp only
        split
        · have herase : AllSound { s with outside := s.outside.erase irp } :=
            h.congr rfl (fun _ _ => rfl) fun _ hv => hv
          exact herase.fatAddToWorkque hroom irp
        · exact h
    | finish irp =>
        dsimp only
        split
        · exact h.congr rfl (fun _ _ => rfl) fun _ hv => hv
        · exact h
    | hire =>
        refine h.congr rfl (fun v _ => ?_) fun _ hv => hv
        simp [State.posted]
    | turn i o =>
        dsimp only
        split
        · next w hw => exact h.turn hroom hw o
        · exact h
    | tearDown v => exact h.tearDown rfl (fun _ _ => rfl) rfl

/-! ## Where the requests are -/

/-- The worker is in the `switch` with request `irp`. -/
@[simp] def Worker.serves (irp : Request V) : Worker V → Bool
  | .busy _ r => r = irp
  | _ => false

namespace State

/-- How often a request is in the overflow queue of its volume. -/
def waiting (vdo : V → Vdo V) (irp : Request V) : ℕ :=
  match irp.fileObject with
  | some v => (vdo v).overflowQueue.count irp
  | none => 0

/-- In how many places a request is. -/
def places (s : State V) (irp : Request V) : ℕ :=
  s.outside.count irp + s.criticalWorkQueue.count irp + s.workers.countP (Worker.serves irp) +
    s.completed.count irp + waiting s.vdo irp

variable {r : Request V} {i : ℕ} {w : Worker V}

omit s' i w r in
/-- A queue that changes at one volume, where every request belongs to that volume. -/
theorem places_setVdo (irp : Request V) {d : Vdo V} (hold : ∀ r ∈ (s.vdo v).overflowQueue, r.fileObject = some v)
    (hnew : ∀ r ∈ d.overflowQueue, r.fileObject = some v) :
    (s.setVdo v d).places irp + (s.vdo v).overflowQueue.count irp =
      s.places irp + d.overflowQueue.count irp := by
  have hwait : waiting (s.setVdo v d).vdo irp + (s.vdo v).overflowQueue.count irp =
      waiting s.vdo irp + d.overflowQueue.count irp := by
    by_cases hfile : irp.fileObject = some v
    · simp [waiting, hfile, Nat.add_comm]
    · rw [List.count_eq_zero.mpr fun hmem => hfile (hold irp hmem),
        List.count_eq_zero.mpr fun hmem => hfile (hnew irp hmem)]
      unfold waiting
      split
      · next v' hv' =>
          rw [setVdo_vdo_of_ne d]
          rintro rfl
          exact hfile hv'
      · rfl
  simp only [places] at hwait ⊢
  simp only [setVdo] at hwait ⊢
  omega

theorem places_setWorker (irp : Request V) (w' : Worker V) (hw : s.workers[i]? = some w) :
    (s.setWorker i w').places irp + (if w.serves irp then 1 else 0) =
      s.places irp + (if w'.serves irp then 1 else 0) := by
  have hcount := Conf.countP_run (Worker.serves irp) w' hw
  simp only [places, setWorker]
  omega

omit s s' v i w in
theorem count_erase_add (irp : Request V) {l : List (Request V)} (hmem : r ∈ l) :
    (l.erase r).count irp + (if r = irp then 1 else 0) = l.count irp := by
  have hperm := (List.perm_cons_erase hmem).count_eq irp
  rw [List.count_cons] at hperm
  simpa using hperm.symm

omit s s' v i w in
theorem count_append_self (l : List (Request V)) :
    (l ++ [r]).count irp = l.count irp + if r = irp then 1 else 0 := by
  simp [List.count_singleton]

/-- Posting puts a request in one more place. -/
theorem places_fatAddToWorkque (h : AllSound s) (hrun : (s.fatAddToWorkque r).stopped = false) :
    (s.fatAddToWorkque r).places irp = s.places irp + if r = irp then 1 else 0 := by
  unfold fatAddToWorkque at hrun ⊢
  split
  · simp only [places, count_append_self]
    omega
  · next v hfile =>
      simp only [hfile] at hrun
      split at hrun
      · simp at hrun
      · next htorn =>
          rw [if_neg htorn]
          split
          · have hmoved := places_setVdo irp (h.owner v) (d := { s.vdo v with
              overflowQueue := (s.vdo v).overflowQueue ++ [r]
              overflowQueueCount := (s.vdo v).overflowQueueCount + 1 }) (by
                intro r' hr'
                simp only [List.mem_append, List.mem_singleton] at hr'
                cases hr' with
                | inl hr' => exact h.owner v r' hr'
                | inr hr' => rw [hr', hfile])
            rw [count_append_self] at hmoved
            rw [overflow]
            omega
          · have hsame := places_setVdo irp (h.owner v) (d := { s.vdo v with
              postedRequestCount := (s.vdo v).postedRequestCount + 1 }) (h.owner v)
            simp only [places] at hsame ⊢
            simp only [sendOff, setVdo, count_append_self] at hsame ⊢
            omega

theorem places_nextEntry (h : AllSound s) (hw : s.workers[i]? = some (.left (some v)))
    (hrun : (s.nextEntry i v).stopped = false) : (s.nextEntry i v).places irp = s.places irp := by
  have htorn : s.tornDown v = false := by
    by_contra htorn
    rw [nextEntry, if_pos (by simpa using htorn)] at hrun
    simp at hrun
  have hold := h.owner v
  obtain ⟨d, hcases⟩ := nextEntry_cases (h.sound v htorn) htorn hw
  rcases hcases with ⟨r, rest, heq, hqueue, hrest, -, -⟩ | ⟨heq, hqueue, hnil, -, -⟩
  · have hmoved := places_setVdo irp hold (d := d) fun r' hr' => hold r' (by simp [hqueue, hrest ▸ hr'])
    have hcount := places_setWorker (s := s.setVdo v d) irp (.busy (some v) r) hw
    rw [heq]
    simp only [hqueue, hrest, List.count_cons, beq_iff_eq, Worker.serves,
      decide_eq_true_eq, Bool.false_eq_true, if_false] at hmoved hcount ⊢
    omega
  · have hmoved := places_setVdo irp hold (d := d) (by simp [hnil])
    have hcount := places_setWorker (s := s.setVdo v d) irp .idle hw
    rw [heq]
    simp only [hqueue, hnil, Worker.serves, Bool.false_eq_true, if_false] at hmoved hcount ⊢
    omega

theorem places_dispatch {volDo : Option V} (h : AllSound s) (hw : s.workers[i]? = some (.busy volDo r))
    (o : Outcome) (hrun : (s.dispatch i volDo r o).stopped = false) :
    (s.dispatch i volDo r o).places irp = s.places irp := by
  have hleft : ∀ volDo', (s.setWorker i (.left volDo')).places irp + (if r = irp then 1 else 0) =
      s.places irp := by
    intro volDo'
    simpa using places_setWorker irp (.left volDo') hw
  cases o with
  | completed vcbDeleted =>
      have hdone : ∀ volDo', ({ s with completed := s.completed ++ [r] }.setWorker i (.left volDo')).places irp =
          s.places irp := by
        intro volDo'
        have hcount := hleft volDo'
        simp only [places] at hcount ⊢
        simp only [setWorker, count_append_self] at hcount ⊢
        omega
      unfold dispatch
      cases volDo with
      | none => exact hdone none
      | some v =>
          dsimp only
          split
          · exact hdone none
          · exact hdone (some v)
  | posted =>
      have hsound : AllSound (s.setWorker i (.left volDo)) := h.setWorker hw fun _ => rfl
      rw [dispatch, places_fatAddToWorkque hsound hrun, hleft volDo]
  | pended =>
      have hcount := hleft volDo
      rw [dispatch]
      simp only [places] at hcount ⊢
      simp only [setWorker, count_append_self] at hcount ⊢
      omega

theorem places_turn (h : AllSound s) (hw : s.workers[i]? = some w) (o : Outcome)
    (hrun : (s.turn i o w).stopped = false) : (s.turn i o w).places irp = s.places irp := by
  unfold turn at hrun ⊢
  cases w with
  | idle =>
      dsimp only
      split
      · rfl
      · next r rest hqueue =>
          have hcount := places_setWorker irp (.busy r.fileObject r) hw
          simp only [places] at hcount ⊢
          simp only [setWorker, hqueue, List.count_cons, beq_iff_eq, Worker.serves,
            decide_eq_true_eq, Bool.false_eq_true, if_false] at hcount ⊢
          omega
  | busy volDo r => exact places_dispatch h hw o hrun
  | left volDo =>
      cases volDo with
      | none => simpa using places_setWorker irp .idle hw
      | some v => exact places_nextEntry h hw hrun

/-- A request that arrives is in one more place; nothing else changes in how many places a request is. -/
theorem places_step (h : AllSound s) (e : Event V) (hrun : (s.step e).stopped = false) :
    (s.step e).places irp = s.places irp + if e = .arrive irp then 1 else 0 := by
  unfold step at hrun ⊢
  split at hrun
  · next hstop => simp [hstop] at hrun
  · next hstop =>
      rw [if_neg hstop]
      cases e with
      | arrive r =>
          simp only [places, count_append_self, Event.arrive.injEq]
          omega
      | post r =>
          dsimp only at hrun ⊢
          split at hrun
          · next hmem =>
              rw [if_pos hmem]
              have herase : AllSound { s with outside := s.outside.erase r } :=
                h.congr rfl (fun _ _ => rfl) fun _ hv => hv
              rw [places_fatAddToWorkque herase hrun]
              have hcount := count_erase_add irp hmem
              simp only [places, reduceCtorEq, if_false]
              omega
          · next hmem => simp [hmem]
      | finish r =>
          dsimp only
          split
          · next hmem =>
              have hcount := count_erase_add irp hmem
              simp only [places, reduceCtorEq, if_false, count_append_self]
              omega
          · simp
      | hire => simp [places]
      | turn i o =>
          dsimp only at hrun ⊢
          split at hrun
          · next w hw => simpa using places_turn h hw o hrun
          · simp
      | tearDown v => simp [places]

end State

end Kept

/-! ## Runs -/

section Runs

variable {s : State V} {es : List (Event V)} {irp : Request V} {v : V}

/-- A run in which the counters of the overflow queues always have room. -/
def Runs (s : State V) (es : List (Event V)) : Prop :=
  AllowedAll State.step (fun s _ => HasRoom s) s es

theorem AllSound.foldl (h : AllSound s) (hes : Runs s es) : AllSound (es.foldl State.step s) :=
  hes.invariant (P := AllSound) (fun _ e hs hroom => hs.step hroom e) h

/-- **The workers of a volume.**  In every state of every run, `PostedRequestCount` of a volume that was
not torn down is the number of its requests that wait for a worker and of the workers that serve it; it
is at most three, and when a request is in the overflow queue, it is three. -/
theorem sound_of_run (hes : Runs State.start es)
    (hv : (es.foldl State.step State.start).tornDown v = false) :
    Sound (es.foldl State.step State.start) v :=
  (State.allSound_start.foldl hes).sound v hv

theorem State.foldl_of_stopped (hstop : s.stopped = true) : es.foldl State.step s = s := by
  induction es with
  | nil => rfl
  | cons e es ih =>
      have hsame : s.step e = s := by simp [State.step, hstop]
      rw [List.foldl_cons, hsame, ih]

theorem places_foldl (h : AllSound s) (hes : Runs s es)
    (hrun : (es.foldl State.step s).stopped = false) :
    (es.foldl State.step s).places irp = s.places irp + es.count (.arrive irp) := by
  induction es generalizing s with
  | nil => simp
  | cons e es ih =>
      have hnext : (s.step e).stopped = false := by
        by_contra hstop
        rw [List.foldl_cons, State.foldl_of_stopped (by simpa using hstop)] at hrun
        exact hstop hrun
      rw [List.foldl_cons, ih (h.step hes.1 e) hes.2 hrun, State.places_step h e hnext, List.count_cons]
      simp only [beq_iff_eq]
      omega

def sampleRequest (n : ℕ) : Request Unit := ⟨n, some (), false⟩

/-- Four requests for one volume. -/
def sampleEvents : List (Event Unit) :=
  [.arrive (sampleRequest 0), .arrive (sampleRequest 1), .arrive (sampleRequest 2),
    .arrive (sampleRequest 3), .post (sampleRequest 0), .post (sampleRequest 1), .post (sampleRequest 2),
    .post (sampleRequest 3), .hire]

theorem runs_sampleEvents : Runs State.start sampleEvents := by
  refine ⟨?_, ?_, ?_, ?_, ?_, ?_, ?_, ?_, ?_, trivial⟩ <;> intro v <;> cases v <;> decide

theorem sound_of_sampleRun : Sound (sampleEvents.foldl State.step State.start) () :=
  sound_of_run runs_sampleEvents (by decide)

/-- **No request is lost and none is served twice.**  A request is in as many places as it arrived
times: outside, on its way to a worker, with a worker, completed, or in the overflow queue. -/
theorem places_of_run (hes : Runs State.start es)
    (hrun : (es.foldl State.step State.start).stopped = false) :
    (es.foldl State.step State.start).places irp = es.count (.arrive irp) := by
  have hstart : (State.start : State V).places irp = 0 := by
    cases hfile : irp.fileObject <;> simp [State.places, State.waiting, State.start, hfile]
  rw [places_foldl State.allSound_start hes hrun, hstart, Nat.zero_add]

theorem places_of_sampleRun :
    (sampleEvents.foldl State.step State.start).places (sampleRequest 3) = 1 :=
  places_of_run runs_sampleEvents (by decide)

end Runs

/-! ## The workers come to an end -/

section Drain

variable {s : State V} {es : List (Event V)} {v : V} {i : ℕ} {w : Worker V} {o : Outcome}

/-- The turns of a worker until it is idle. -/
def Worker.weight : Worker V → ℕ
  | .idle => 0
  | .busy _ _ => 2
  | .left _ => 1

/-- The turns that are still to be taken for the requests in the queues. -/
def State.work [Fintype V] (s : State V) : ℕ :=
  3 * (s.criticalWorkQueue.length + ∑ v, (s.vdo v).overflowQueue.length) +
    (s.workers.map Worker.weight).sum

/-- A worker has something to do, and what it does neither posts the request again nor deletes a
volume. -/
def Advances (s : State V) (e : Event V) : Prop :=
  ∃ i o w, e = .turn i o ∧ s.workers[i]? = some w ∧ (w = .idle → s.criticalWorkQueue ≠ []) ∧
    o ≠ .posted ∧ o ≠ .completed true

/-- The system runs and all volumes are mounted. -/
structure Mounted (s : State V) : Prop where
  sound : AllSound s
  tornDown : ∀ v, s.tornDown v = false
  stopped : s.stopped = false

theorem State.work_setVdo [Fintype V] (d : Vdo V) :
    (s.setVdo v d).work + 3 * (s.vdo v).overflowQueue.length =
      s.work + 3 * d.overflowQueue.length := by
  have hrest : ∑ v' ∈ Finset.univ.erase v, ((s.setVdo v d).vdo v').overflowQueue.length =
      ∑ v' ∈ Finset.univ.erase v, (s.vdo v').overflowQueue.length := by
    refine Finset.sum_congr rfl fun v' hv' => ?_
    rw [State.setVdo_vdo_of_ne _ (Finset.ne_of_mem_erase hv')]
  simp only [State.work, ← Finset.add_sum_erase _ _ (Finset.mem_univ v), hrest, State.setVdo_vdo_self]
  simp only [State.setVdo]
  omega

omit [DecidableEq V] in
theorem State.work_setWorker [Fintype V] (w' : Worker V) (hw : s.workers[i]? = some w) :
    (s.setWorker i w').work + w.weight = s.work + w'.weight := by
  obtain ⟨hi, rfl⟩ := List.getElem?_eq_some_iff.mp hw
  have hsum := List.sum_set (s.workers.map Worker.weight) i w'.weight
  have hold := List.sum_take_add_sum_drop (s.workers.map Worker.weight) i
  rw [List.drop_eq_getElem_cons (by simpa using hi), List.sum_cons, List.getElem_map] at hold
  rw [if_pos (by simpa using hi), ← List.map_set] at hsum
  simp only [State.work, State.setWorker]
  omega

/-- An event by which the workers get on, while the counters have room. -/
def Turns (s : State V) (e : Event V) : Prop := HasRoom s ∧ Advances s e

/-- A turn leads on and has one turn less behind it. -/
theorem Mounted.step [Fintype V] {e : Event V} (h : Mounted s) (he : Turns s e) :
    Mounted (s.step e) ∧ (s.step e).work < s.work := by
  obtain ⟨hroom, i, o, w, rfl, hw, hidle, hposted, hdeleted⟩ := he
  have hstep : s.step (.turn i o) = s.turn i o w := by simp [State.step, h.stopped, hw]
  have hsound := h.sound.turn hroom hw o
  rw [hstep]
  unfold State.turn at hsound ⊢
  cases w with
  | idle =>
      cases hqueue : s.criticalWorkQueue with
      | nil => exact absurd hqueue (hidle rfl)
      | cons irp rest =>
          simp only [hqueue] at hsound
          refine ⟨⟨hsound, h.tornDown, h.stopped⟩, ?_⟩
          have hwork := State.work_setWorker (.busy irp.fileObject irp) hw
          simp only [State.work, Worker.weight] at hwork ⊢
          simp only [State.setWorker, hqueue, List.length_cons] at hwork ⊢
          omega
  | busy volDo irp =>
      have hless : (s.setWorker i (.left volDo)).work < s.work := by
        have hwork := State.work_setWorker (.left volDo) hw
        simp only [Worker.weight] at hwork
        omega
      cases o with
      | completed vcbDeleted =>
          cases vcbDeleted with
          | true => exact absurd rfl hdeleted
          | false =>
              cases volDo with
              | none => exact ⟨⟨hsound, h.tornDown, h.stopped⟩, hless⟩
              | some v =>
                  simp only [State.dispatch, Bool.and_false, Bool.false_eq_true, if_false] at hsound ⊢
                  exact ⟨⟨hsound, h.tornDown, h.stopped⟩, hless⟩
      | posted => exact absurd rfl hposted
      | pended => exact ⟨⟨hsound, h.tornDown, h.stopped⟩, hless⟩
  | left volDo =>
      cases volDo with
      | none =>
          have hwork := State.work_setWorker .idle hw
          exact ⟨⟨hsound, h.tornDown, h.stopped⟩, Nat.lt_of_succ_le hwork.le⟩
      | some v =>
          dsimp only at hsound ⊢
          obtain ⟨d, hcases⟩ := State.nextEntry_cases (h.sound.sound v (h.tornDown v)) (h.tornDown v) hw
          have hsum := State.work_setVdo (s := s) (v := v) d
          rcases hcases with ⟨r, rest, heq, hqueue, hrest, -, -⟩ | ⟨heq, hqueue, hnil, -, -⟩
          · have hwork := State.work_setWorker (s := s.setVdo v d) (.busy (some v) r) hw
            rw [hqueue, hrest, List.length_cons] at hsum
            rw [heq] at hsound ⊢
            refine ⟨⟨hsound, h.tornDown, h.stopped⟩, ?_⟩
            simp only [Worker.weight] at hwork ⊢
            omega
          · have hwork := State.work_setWorker (s := s.setVdo v d) .idle hw
            rw [hqueue, hnil] at hsum
            rw [heq] at hsound ⊢
            refine ⟨⟨hsound, h.tornDown, h.stopped⟩, ?_⟩
            simp only [Worker.weight] at hwork ⊢
            omega

/-- All workers are idle, every queue is empty and no request is counted. -/
structure AtRest (s : State V) : Prop where
  idle : ∀ w ∈ s.workers, w = .idle
  criticalWorkQueue : s.criticalWorkQueue = []
  overflowQueue : ∀ v, (s.vdo v).overflowQueue = []
  postedRequestCount : ∀ v, (s.vdo v).postedRequestCount = 0

/-- The workers are at rest when none of them has a turn. -/
theorem Mounted.atRest (h : Mounted s) (hworkers : s.workers ≠ [])
    (hend : ∀ e, ¬ Advances s e) : AtRest s := by
  have hstuck : ∀ w ∈ s.workers, w = .idle ∧ s.criticalWorkQueue = [] := by
    intro w hmem
    obtain ⟨i, hw⟩ := List.getElem?_of_mem hmem
    by_contra hnot
    exact hend (.turn i .pended) ⟨i, .pended, w, rfl, hw, fun hidle hqueue => hnot ⟨hidle, hqueue⟩,
      by simp, by simp⟩
  have hidle : ∀ w ∈ s.workers, w = .idle := fun w hmem => (hstuck w hmem).1
  obtain ⟨w, hmem⟩ := List.exists_mem_of_ne_nil _ hworkers
  have hqueue := (hstuck w hmem).2
  have hzero : ∀ v, s.posted v = 0 := by
    intro v
    have hnone : s.workers.countP (Worker.onVolume v) = 0 := by
      refine List.countP_eq_zero.mpr fun w hmem => ?_
      simp [hidle w hmem]
    simp [State.posted, hqueue, hnone]
  have hvolume : ∀ v, Sound s v := fun v => h.sound.sound v (h.tornDown v)
  constructor
  · exact hidle
  · exact hqueue
  · intro v
    by_contra hne
    have hthree := (hvolume v).full hne
    rw [hzero v] at hthree
    omega
  · intro v
    rw [← UInt32.toNat_inj, (hvolume v).posted, hzero v]
    rfl

/-- **No request is left behind.**  From any state of a run in which the volumes stayed mounted, the
workers take at most `work` turns as long as requests are not posted again, in whatever order they take
them, and when none of them has a turn left, nothing is queued on any volume and every count is back at
zero. -/
theorem drains [Fintype V] {es turns : List (Event V)} (hes : Runs State.start es)
    (hmounted : ∀ v, (es.foldl State.step State.start).tornDown v = false)
    (hstopped : (es.foldl State.step State.start).stopped = false)
    (hturns : AllowedAll State.step Turns (es.foldl State.step State.start) turns) :
    turns.length ≤ (es.foldl State.step State.start).work ∧
      ((turns.foldl State.step (es.foldl State.step State.start)).workers ≠ [] →
        (∀ e, ¬ Advances (turns.foldl State.step (es.foldl State.step State.start)) e) →
        AtRest (turns.foldl State.step (es.foldl State.step State.start))) := by
  have hstart : Mounted (es.foldl State.step State.start) :=
    ⟨State.allSound_start.foldl hes, hmounted, hstopped⟩
  constructor
  · exact hturns.length_le (P := Mounted) (fun _ _ h he => (h.step he).1)
      (fun _ _ h he => (h.step he).2) hstart
  · intro hworkers hend
    have hlast := hturns.invariant (P := Mounted) (fun _ _ h he => (h.step he).1) hstart
    exact hlast.atRest hworkers hend

/-- The worker takes a request and completes it. -/
def sampleTurns : List (Event Unit) := [.turn 0 .pended, .turn 0 (.completed false)]

theorem drains_sample :
    sampleTurns.length ≤ (sampleEvents.foldl State.step State.start).work := by
  refine (drains runs_sampleEvents (fun v => ?_) (by decide) ?_).1
  · cases v
    decide
  · refine ⟨⟨fun v => ?_, 0, _, _, rfl, rfl, by decide, by decide, by decide⟩,
      ⟨fun v => ?_, 0, _, _, rfl, rfl, by decide, by decide, by decide⟩, trivial⟩ <;> cases v <;> decide

end Drain

end KernelDrivers.Fat.WorkQueue
