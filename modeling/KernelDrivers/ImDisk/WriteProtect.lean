import KernelDrivers.ImDisk.Disposal
import KernelDrivers.Lib.Interleave

/-!
# Writes to a device that is read-only

A dispatch routine looks at `read_only` when it takes a request, and what it decides on is done
later, by itself, by the lower device or by the device thread.  In between another thread may have
set the flag.

## Main definitions

* `Operation` — what is done to the image file, the image buffer or the proxy.
* `plan`, `serve` — what a dispatch routine and the device thread do for a request.
* `act` — a step of a thread.
* `Protected` — nothing was modified while the flag was set.

## Main results

* `protected_of_reach` — with no trim of a read-only device, and the flag set only when nothing is
  on its way.
* `not_protected_trim` — a trim has no check.
-/

namespace KernelDrivers.ImDisk.Disposal

/-- What is done to the image file, the image buffer or the proxy. -/
inductive Operation
  | read
  | flush
  | control
  | write
  | copy
  | fill
  | setZeroData
  | fileLevelTrim
  | zero
  | unmap
  | setEndOfFile
  | reallocate
  deriving DecidableEq, Repr

def Operation.modifies : Operation → Bool
  | .read | .flush | .control => false
  | _ => true

/-- What is left to do for a request. -/
inductive Todo
  | issue (op : Operation)
  | enqueue (r : Routine) (irp : Irp)
  | changeReadOnly (irp : Irp) (irql : ℕ)

/-! ### Dispatch routines -/

/-- The checks in front of the `switch`. -/
def admitted (irp : Irp) (e : Extension) : Bool :=
  !e.terminateThread && (!e.control || controlCode irp.ioctl) &&
    (e.control || !controlOnly irp.ioctl)

/-- The number of ranges of a trim. -/
def trimItems (irp : Irp) : ℕ := irp.input.dataSetRangesLength.toNat / 16

/-- The trim has ranges, and neither its contents nor the kind of the device end it early. -/
def trims (irp : Irp) (e : Extension) : Bool :=
  decide (irp.ioctl = .manageDataSetAttributes) && admitted irp e &&
    decide (28 ≤ irp.inputBufferLength) &&
    decide ((irp.input.dataSetRangesOffset + irp.input.dataSetRangesLength).toNat ≤
      irp.inputBufferLength) &&
    decide (irp.input.action = 1) && decide (trimItems irp ≠ 0) &&
    !(e.useProxy && !e.proxyUnmap) && !e.vmDisk && !e.aweallocDisk

/-- The ranges from `i` on, up to the first that fails. -/
def zeroFrom (k : Kernel) (i : ℕ) : ℕ → List Todo
  | 0 => []
  | n + 1 => .issue .setZeroData :: if (k.setZeroData i).1.ok then zeroFrom k (i + 1) n else []

/-- What a trim of an image file does in the dispatch routine. -/
def trimTodo (irp : Irp) (e : Extension) (k : Kernel) : List Todo :=
  if trims irp e ∧ ¬ e.useProxy then
    zeroFrom k 0 (trimItems irp) ++
      if e.noFileLevelTrim ∨ ¬ k.pool 0 then [] else [.issue .fileLevelTrim]
  else []

/-- What `IOCTL_IMDISK_SET_DEVICE_FLAGS` does in the dispatch routine. -/
def flagsTodo (irp : Irp) (e : Extension) (k : Kernel) : List Todo :=
  if irp.ioctl = .setDeviceFlags ∧ admitted irp e then [.changeReadOnly irp k.irql] else []

/-- What goes to the lower device. -/
def lowerOperation (r : Routine) (irp : Irp) : Operation :=
  match r with
  | .readWrite => if irp.major then .write else .read
  | .flushBuffers => .flush
  | _ => .control

/-- How the request itself leaves the routine. -/
def disposal (r : Routine) (irp : Irp) : Act → List Todo
  | .insertTail => [.enqueue r irp]
  | .forward | .send => [.issue (lowerOperation r irp)]
  | .complete _ | .markPending => []

/-- What a dispatch routine decides on. -/
def plan (r : Routine) (irp : Irp) (e : Extension) (k : Kernel) : List Todo :=
  (if r = .deviceControl then trimTodo irp e k ++ flagsTodo irp e k else []) ++
    (r.dispatch irp e k ⟨0, 0, []⟩).1.acts.flatMap (disposal r irp)

/-- `read_only` behind a change of the flags. -/
def nextReadOnly (irp : Irp) (irql : ℕ) (e : Extension) : Bool :=
  if irp.inputBufferLength < 8 ∨ 2 ≤ irql then e.readOnly
  else if irp.input.flagsToChange &&& 1 ≠ 0 ∧ e.deviceType = .disk then
    if irp.input.flagValues &&& 1 ≠ 0 ∧ e.specialFileCount ≤ 0 then true
    else if e.vmDisk then false
    else e.readOnly
  else e.readOnly

/-! ### The device thread -/

/-- What the device thread knows of its device and meets on its way. -/
structure Service where
  proxyZero : Bool
  imageOffset : Int64
  mapped : Bool
  pool : Bool
  setZeroData : Bool
  /-- Tracks behind the first, up to the last or to one that fails. -/
  tracks : ℕ
  allocate : Bool
  query : Bool
  endOfFile : Int64

/-- `ImDiskDeviceThreadRead`. -/
def serveRead (e : Extension) (s : Service) : List Operation :=
  if !s.mapped then [] else if e.vmDisk then [.read] else if !s.pool then [] else [.read]

/-- `ImDiskDeviceThreadWrite`. -/
def serveWrite (irp : Irp) (e : Extension) (s : Service) : List Operation :=
  let zeroed := (e.useSetZeroData || (e.useProxy && s.proxyZero)) &&
    (irp.zero && decide (irp.length % 8 = 0))
  if !s.mapped then []
  else if e.vmDisk then [.copy]
  else if !s.pool then []
  else if e.useProxy then if zeroed && s.proxyZero then [.zero] else [.write]
  else if zeroed then if s.setZeroData then [.setZeroData] else [.setZeroData, .write]
  else [.write]

/-- `ImDiskFloppyFormat`. -/
def floppyFormat (e : Extension) (s : Service) : List Operation :=
  if e.vmDisk then [.fill] else if !s.pool then [] else List.replicate (s.tracks + 1) .write

/-- `IOCTL_DISK_GROW_PARTITION` in the device thread. -/
def serveGrow (irp : Irp) (e : Extension) (s : Service) : List Operation :=
  let newSize := e.geometry.cylinders + irp.input.bytesToGrow
  if newSize ≤ 0 then []
  else if e.vmDisk then if s.allocate then [.reallocate] else []
  else if e.useProxy then []
  else if s.imageOffset ≠ 0 then []
  else if !s.query then []
  else if newSize ≤ s.endOfFile then []
  else [.setEndOfFile]

/-- `ImDiskDeviceThreadDeviceControl`. -/
def serveDeviceControl (irp : Irp) (e : Extension) (s : Service) : List Operation :=
  match irp.ioctl with
  | .checkVerify => if s.pool then [.read] else []
  | .ioctlPassThrough | .fsctlPassThrough => [.control]
  | .formatTracks | .formatTracksEx => floppyFormat e s
  | .manageDataSetAttributes => if s.pool then [.unmap] else []
  | .growPartition => serveGrow irp e s
  | _ => []

/-- One request of the list, by its major function.  `IRP_MJ_INTERNAL_DEVICE_CONTROL` is none that
the thread knows. -/
def serve (r : Routine) (irp : Irp) (e : Extension) (s : Service) : List Operation :=
  match r with
  | .flushBuffers => [.flush]
  | .readWrite => if irp.major then serveWrite irp e s else serveRead e s
  | .deviceControl => if irp.major then [] else serveDeviceControl irp e s
  | _ => []

/-! ### Threads -/

structure Shared where
  ext : Extension
  queue : List (Routine × Irp)
  /-- What was done, with `read_only` as it then was. -/
  log : List (Operation × Bool)

def Shared.issue (s : Shared) (op : Operation) : Shared :=
  { s with log := s.log ++ [(op, s.ext.readOnly)] }

/-- A dispatch routine in front of its checks and behind them, and the device thread. -/
inductive Thread
  | check (r : Routine) (irp : Irp) (k : Kernel)
  | act (todo : List Todo)
  | device (ops : List Operation)

/-- What a step meets: the system as the device thread finds it, and what has become of the other
fields of the extension. -/
structure Choice where
  service : Service
  ext : Extension

/-- The fields that other threads change. -/
def Extension.drift (e x : Extension) : Extension :=
  { e with
    terminateThread := x.terminateThread
    useSetZeroData := x.useSetZeroData
    noFileLevelTrim := x.noFileLevelTrim
    fileHandle := x.fileHandle
    specialFileCount := x.specialFileCount
    geometry := x.geometry
    lastIoData := x.lastIoData
    lastIoOffset := x.lastIoOffset
    lastIoLength := x.lastIoLength }

def actOn (s : Shared) (t : Thread) (x : Service) : Shared × Thread :=
  match t with
  | .check r irp k => (s, .act (plan r irp s.ext k))
  | .act [] => (s, .act [])
  | .act (.issue op :: todo) => (s.issue op, .act todo)
  | .act (.enqueue r irp :: todo) => ({ s with queue := s.queue ++ [(r, irp)] }, .act todo)
  | .act (.changeReadOnly irp irql :: todo) =>
      ({ s with ext := { s.ext with readOnly := nextReadOnly irp irql s.ext } }, .act todo)
  | .device [] =>
      match s.queue with
      | [] => (s, .device [])
      | (r, irp) :: queue => ({ s with queue := queue }, .device (serve r irp s.ext x))
  | .device (op :: ops) => (s.issue op, .device ops)

/-- A step of a thread. -/
def act (s : Shared) (t : Thread) (x : Choice) : Shared × Thread :=
  let next := actOn s t x.service
  ({ next.1 with ext := next.1.ext.drift x.ext }, next.2)

/-- A device with its thread, before the first request. -/
def device (e : Extension) : Conf Shared Thread := ⟨⟨e, [], []⟩, [.device []]⟩

/-- New threads are dispatch routines with a request. -/
def Arrives (_ : Conf Shared Thread) : Sched Thread Choice → Prop
  | .spawn t => ∃ r irp k, t = .check r irp k
  | .run _ _ => True

/-- Nothing was modified while `read_only` was set. -/
def Protected (s : Shared) : Prop := ∀ entry ∈ s.log, entry.1.modifies → entry.2 = false

/-! ### What is on its way -/

/-- A request that the device thread may modify something for. -/
def requestModifies (r : Routine) (irp : Irp) : Bool :=
  match r with
  | .readWrite => irp.major
  | .deviceControl =>
      !irp.major && decide (irp.ioctl ∈ [.formatTracks, .formatTracksEx, .manageDataSetAttributes,
        .growPartition])
  | _ => false

def Todo.modifies : Todo → Bool
  | .issue op => op.modifies
  | .enqueue r irp => requestModifies r irp
  | .changeReadOnly _ _ => false

def Thread.modifies : Thread → Bool
  | .check _ _ _ => false
  | .act todo => todo.any Todo.modifies
  | .device ops => ops.any Operation.modifies

/-- No request that modifies anything is in the list or in the hands of a thread. -/
structure Quiet (c : Conf Shared Thread) : Prop where
  queue : ∀ q ∈ c.shared.queue, requestModifies q.1 q.2 = false
  threads : ∀ t ∈ c.threads, t.modifies = false

/-- What a step must not be: a trim of a read-only device, or a change of the flags that makes the
device read-only while a request that modifies something is on its way. -/
def Careful (c : Conf Shared Thread) : Thread → Prop
  | .check .deviceControl irp _ => c.shared.ext.readOnly = true → trims irp c.shared.ext = false
  | .act (.changeReadOnly irp irql :: _) =>
      c.shared.ext.readOnly = false → nextReadOnly irp irql c.shared.ext = true → Quiet c
  | _ => True

def Allowed (c : Conf Shared Thread) (e : Sched Thread Choice) : Prop :=
  Arrives c e ∧
    match e with
    | .spawn _ => True
    | .run i _ => ∀ t, c.threads[i]? = some t → Careful c t

/-! ### A read-only device refuses what modifies it -/

section

variable {r : Routine} {irp : Irp} {e : Extension} {k : Kernel} {s : Service}

theorem disposal_quiet {todo : Todo} (hlower : (lowerOperation r irp).modifies = false)
    (hrequest : requestModifies r irp = false) (a : Act) (h : todo ∈ disposal r irp a) :
    todo.modifies = false := by
  cases a with
  | insertTail =>
      rw [List.mem_singleton.mp h]
      exact hrequest
  | forward =>
      rw [List.mem_singleton.mp h]
      exact hlower
  | send =>
      rw [List.mem_singleton.mp h]
      exact hlower
  | complete status => simp [disposal] at h
  | markPending => simp [disposal] at h

/-- A routine that only completes the request leaves nothing to do. -/
theorem flatMap_disposal_nil (r : Routine) (irp : Irp) {acts : List Act} (h : ∀ a ∈ acts, ∃ status, a = .complete status) :
    acts.flatMap (disposal r irp) = [] := by
  rw [List.flatMap_eq_nil_iff]
  intro a ha
  obtain ⟨status, rfl⟩ := h a ha
  rfl

/-- A write is turned away in one of the checks. -/
theorem write_refused (hread : e.readOnly = true) (hwrite : irp.major = true) :
    ∀ a ∈ (dispatchReadWrite irp e k ⟨0, 0, []⟩).1.acts, ∃ status, a = .complete status := by
  have hfinish : ∀ status information,
      ∀ a ∈ (Call.finish ⟨0, 0, []⟩ status information).1.acts, ∃ s, a = .complete s := by
    intro status information a ha
    exact ⟨status, List.mem_singleton.mp ha⟩
  unfold dispatchReadWrite
  split
  · exact hfinish _ _
  · split
    · exact hfinish _ _
    · split
      · exact hfinish _ _
      · rw [if_pos ⟨hwrite, hread⟩]
        exact hfinish _ _

/-- Format, grow and trim come to a status of their own while the device is read-only, but for a
trim with ranges. -/
theorem control_refused (hread : e.readOnly = true) (htrim : trims irp e = false)
    (hadmitted : admitted irp e = true)
    (hioctl : irp.ioctl ∈ [Ioctl.formatTracks, .formatTracksEx, .manageDataSetAttributes,
      .growPartition]) :
    ∃ status information, controlSwitch irp e k = .done status information ∧
      status ≠ .pending := by
  have hprotected : Status.mediaWriteProtected ≠ .pending := by decide
  rcases List.mem_cons.mp hioctl with h | hioctl
  · exact ⟨_, 0, by simp only [controlSwitch, h, formatTracks, hread, if_true]; rfl, hprotected⟩
  rcases List.mem_cons.mp hioctl with h | hioctl
  · exact ⟨_, 0, by simp only [controlSwitch, h, formatTracks, hread, if_true]; rfl, hprotected⟩
  rcases List.mem_cons.mp hioctl with h | hioctl
  · simp only [controlSwitch, h, manageDataSetAttributes]
    split
    · exact ⟨_, 0, rfl, by decide⟩
    · next hsize =>
      split
      · exact ⟨_, 0, rfl, by decide⟩
      · next haction =>
        split
        · exact ⟨_, 0, rfl, by decide⟩
        · next hitems =>
          split
          · exact ⟨_, 0, rfl, by decide⟩
          · next hkind =>
            -- a trim that comes this far is one with ranges
            exfalso
            rw [not_or, not_lt, not_lt] at hsize
            rw [not_or, not_and, not_or] at hkind
            have : trims irp e = true := by
              simp only [trims, h, hadmitted, hsize.1, hsize.2, not_not.mp haction, trimItems,
                hitems, decide_true, Bool.and_true, Bool.true_and, ne_eq, not_false_eq_true]
              cases hproxy : e.useProxy <;> simp_all
            rw [this] at htrim
            exact Bool.noConfusion htrim
  · have h := List.mem_singleton.mp hioctl
    simp only [controlSwitch, h, growPartition, hread, if_true]
    split
    · exact ⟨_, 0, rfl, by decide⟩
    · exact ⟨_, 0, rfl, hprotected⟩

theorem deviceControl_refused (hread : e.readOnly = true) (htrim : trims irp e = false)
    (hioctl : irp.ioctl ∈ [Ioctl.formatTracks, .formatTracksEx, .manageDataSetAttributes,
      .growPartition]) :
    ∀ a ∈ (dispatchDeviceControl irp e k ⟨0, 0, []⟩).1.acts, ∃ status, a = .complete status := by
  unfold dispatchDeviceControl
  dsimp only
  split
  · exact fun a ha => ⟨_, List.mem_singleton.mp ha⟩
  · next hterminate =>
    split
    · exact fun a ha => ⟨_, List.mem_singleton.mp ha⟩
    · next hcode =>
      split
      · exact fun a ha => ⟨_, List.mem_singleton.mp ha⟩
      · next honly =>
        have hadmitted : admitted irp e = true := by
          simp only [admitted]
          cases hc : e.control <;> simp_all
        obtain ⟨status, information, hswitch, hstatus⟩ :=
          control_refused (k := k) hread htrim hadmitted hioctl
        rw [hswitch]
        intro a ha
        simp only [settle, if_neg hstatus] at ha
        exact ⟨_, List.mem_singleton.mp ha⟩

theorem trimTodo_eq_nil (h : trims irp e = false) : trimTodo irp e k = [] :=
  if_neg fun htrims => Bool.noConfusion (h.symm.trans htrims.1)

/-- **A dispatch routine decides on nothing that modifies a read-only device**, a trim apart. -/
theorem plan_quiet (hread : e.readOnly = true) (htrim : r = .deviceControl → trims irp e = false) :
    ∀ todo ∈ plan r irp e k, todo.modifies = false := by
  intro todo hmem
  rcases List.mem_append.mp hmem with hown | hrequest
  · split at hown
    · next hcontrol =>
      rw [trimTodo_eq_nil (htrim hcontrol), List.nil_append, flagsTodo] at hown
      split at hown
      · rw [List.mem_singleton.mp hown]
        rfl
      · simp at hown
    · simp at hown
  · have hquiet : (lowerOperation r irp).modifies = false → requestModifies r irp = false →
        todo.modifies = false := by
      intro hlower hdone
      obtain ⟨a, -, ha⟩ := List.mem_flatMap.mp hrequest
      exact disposal_quiet hlower hdone a ha
    cases r with
    | readWrite =>
        cases hwrite : irp.major with
        | false =>
            apply hquiet
            · simp [lowerOperation, hwrite, Operation.modifies]
            · simp [requestModifies, hwrite]
        | true =>
            have hnil := flatMap_disposal_nil .readWrite irp
              (write_refused (k := k) hread hwrite)
            simp only [Routine.dispatch, hnil] at hrequest
            simp at hrequest
    | deviceControl =>
        by_cases hioctl : irp.ioctl ∈ [Ioctl.formatTracks, .formatTracksEx,
            .manageDataSetAttributes, .growPartition]
        · have hnil := flatMap_disposal_nil .deviceControl irp
            (deviceControl_refused (k := k) hread (htrim rfl) hioctl)
          simp only [Routine.dispatch, hnil] at hrequest
          simp at hrequest
        · apply hquiet rfl
          simp only [requestModifies, hioctl, decide_false, Bool.and_false]
    | createClose => exact hquiet rfl rfl
    | flushBuffers => exact hquiet rfl rfl
    | queryInformation => exact hquiet rfl rfl
    | setInformation => exact hquiet rfl rfl
    | pnp => exact hquiet rfl rfl

/-- The device thread modifies something for the requests of `requestModifies` only. -/
theorem serve_quiet (h : requestModifies r irp = false) :
    ∀ op ∈ serve r irp e s, op.modifies = false := by
  intro op hmem
  cases r with
  | readWrite =>
      have hread : irp.major = false := h
      simp only [serve, hread, serveRead] at hmem
      have hop : op = .read := by
        revert hmem
        cases s.mapped <;> cases e.vmDisk <;> cases s.pool <;> simp
      rw [hop]
      rfl
  | deviceControl =>
      simp only [serve] at hmem
      split at hmem
      · simp at hmem
      · next hmajor =>
        simp only [requestModifies, hmajor, Bool.not_false, Bool.true_and, decide_eq_false_iff_not,
          List.mem_cons, List.not_mem_nil, or_false, not_or] at h
        obtain ⟨hformat, hformatEx, htrim, hgrow⟩ := h
        unfold serveDeviceControl at hmem
        split at hmem
        · split at hmem
          · rw [List.mem_singleton.mp hmem]
            rfl
          · simp at hmem
        · rw [List.mem_singleton.mp hmem]
          rfl
        · rw [List.mem_singleton.mp hmem]
          rfl
        · next hcode => exact absurd hcode hformat
        · next hcode => exact absurd hcode hformatEx
        · next hcode => exact absurd hcode htrim
        · next hcode => exact absurd hcode hgrow
        · simp at hmem
  | flushBuffers =>
      rw [List.mem_singleton.mp hmem]
      rfl
  | createClose => simp [serve] at hmem
  | queryInformation => simp [serve] at hmem
  | setInformation => simp [serve] at hmem
  | pnp => simp [serve] at hmem

end

/-! ### Runs -/

/-- Nothing was modified under the flag, and nothing that modifies is on its way while it is set. -/
structure Guarded (c : Conf Shared Thread) : Prop where
  protect : Protected c.shared
  quiet : c.shared.ext.readOnly = true → Quiet c

section

variable {s : Shared} {ext : Extension}

theorem Protected.issue {op : Operation} (h : Protected s)
    (hop : s.ext.readOnly = true → op.modifies = false) : Protected (s.issue op) := by
  intro entry hentry hmodifies
  rcases List.mem_append.mp hentry with hold | hnew
  · exact h entry hold hmodifies
  · rw [List.mem_singleton.mp hnew] at hmodifies ⊢
    exact eq_false_of_ne_true fun hread => by simp [hop hread] at hmodifies

theorem readOnly_drift (e x : Extension) : (e.drift x).readOnly = e.readOnly := rfl

/-- A thread that modifies nothing takes the place of another. -/
theorem Quiet.set {c : Conf Shared Thread} {s : Shared} {t : Thread} (h : Quiet c) (i : ℕ)
    (hqueue : ∀ q ∈ s.queue, requestModifies q.1 q.2 = false) (ht : t.modifies = false) :
    Quiet ⟨s, c.threads.set i t⟩ := by
  constructor
  · exact hqueue
  · intro u hu
    rcases List.mem_or_eq_of_mem_set hu with hold | rfl
    · exact h.threads u hold
    · exact ht

/-- The other fields of the extension do not count. -/
theorem Guarded.drift {threads : List Thread} (h : Guarded ⟨s, threads⟩) (x : Extension) :
    Guarded ⟨{ s with ext := s.ext.drift x }, threads⟩ := by
  constructor
  · exact h.protect
  · intro hread
    exact ⟨(h.quiet hread).queue, (h.quiet hread).threads⟩

end

theorem any_modifies_cons {todo : Todo} {rest : List Todo}
    (h : (Thread.act (todo :: rest)).modifies = false) :
    todo.modifies = false ∧ (Thread.act rest).modifies = false := by
  simpa only [Thread.modifies, List.any_cons, Bool.or_eq_false_iff] using h

theorem any_modifies_device_cons {op : Operation} {rest : List Operation}
    (h : (Thread.device (op :: rest)).modifies = false) :
    op.modifies = false ∧ (Thread.device rest).modifies = false := by
  simpa only [Thread.modifies, List.any_cons, Bool.or_eq_false_iff] using h

theorem guarded_actOn {c : Conf Shared Thread} {i : ℕ} {t : Thread} (x : Service) (h : Guarded c)
    (ht : c.threads[i]? = some t) (hcareful : Careful c t) :
    Guarded ⟨(actOn c.shared t x).1, c.threads.set i (actOn c.shared t x).2⟩ := by
  have hmem : t ∈ c.threads := List.mem_of_getElem? ht
  cases t with
  | check r irp k =>
      simp only [actOn]
      constructor
      · exact h.protect
      · intro hread
        have hplan : ∀ todo ∈ plan r irp c.shared.ext k, todo.modifies = false := by
          apply plan_quiet hread
          rintro rfl
          exact hcareful hread
        apply (h.quiet hread).set i (h.quiet hread).queue
        simp only [Thread.modifies, List.any_eq_false, Bool.not_eq_true]
        exact hplan
  | act todo =>
      cases todo with
      | nil =>
          simp only [actOn]
          constructor
          · exact h.protect
          · intro hread
            exact (h.quiet hread).set i (h.quiet hread).queue rfl
      | cons first rest =>
          have hthread : c.shared.ext.readOnly = true →
              first.modifies = false ∧ (Thread.act rest).modifies = false := fun hread =>
            any_modifies_cons ((h.quiet hread).threads _ hmem)
          cases first with
          | issue op =>
              simp only [actOn]
              constructor
              · exact h.protect.issue fun hread => (hthread hread).1
              · intro hread
                exact (h.quiet hread).set i (h.quiet hread).queue (hthread hread).2
          | enqueue r irp =>
              simp only [actOn]
              constructor
              · exact h.protect
              · intro hread
                apply (h.quiet hread).set i _ (hthread hread).2
                intro q hq
                rcases List.mem_append.mp hq with hold | hnew
                · exact (h.quiet hread).queue q hold
                · rw [List.mem_singleton.mp hnew]
                  exact (hthread hread).1
          | changeReadOnly irp irql =>
              simp only [actOn]
              constructor
              · exact h.protect
              · intro hread
                have hquiet : Quiet c := by
                  cases hbefore : c.shared.ext.readOnly with
                  | true => exact h.quiet hbefore
                  | false => exact hcareful hbefore hread
                exact hquiet.set i hquiet.queue (any_modifies_cons (hquiet.threads _ hmem)).2
  | device ops =>
      cases ops with
      | nil =>
          cases hqueue : c.shared.queue with
          | nil =>
              simp only [actOn, hqueue]
              constructor
              · exact h.protect
              · intro hread
                exact (h.quiet hread).set i (h.quiet hread).queue rfl
          | cons q queue =>
              simp only [actOn, hqueue]
              constructor
              · exact h.protect
              · intro hread
                have hold := (h.quiet hread).queue
                rw [hqueue] at hold
                apply (h.quiet hread).set i
                · exact fun p hp => hold p (List.mem_cons_of_mem _ hp)
                · simp only [Thread.modifies, List.any_eq_false, Bool.not_eq_true]
                  exact serve_quiet (hold q List.mem_cons_self)
      | cons op ops =>
          have hthread : c.shared.ext.readOnly = true →
              op.modifies = false ∧ (Thread.device ops).modifies = false := fun hread =>
            any_modifies_device_cons ((h.quiet hread).threads _ hmem)
          simp only [actOn]
          constructor
          · exact h.protect.issue fun hread => (hthread hread).1
          · intro hread
            exact (h.quiet hread).set i (h.quiet hread).queue (hthread hread).2

/-- **One step of a thread.** -/
theorem guarded_step {c : Conf Shared Thread} {i : ℕ} {t : Thread} (x : Choice) (h : Guarded c)
    (ht : c.threads[i]? = some t) (hcareful : Careful c t) :
    Guarded ⟨(act c.shared t x).1, c.threads.set i (act c.shared t x).2⟩ :=
  (guarded_actOn x.service h ht hcareful).drift x.ext

theorem guarded_device (e : Extension) : Guarded (device e) := by
  constructor
  · intro entry hentry
    simp [device] at hentry
  · intro hread
    constructor
    · intro q hq
      simp [device] at hq
    · intro t ht
      rw [List.mem_singleton.mp ht]
      rfl

/-- **A read-only device is never modified**, as long as no trim with ranges is dispatched for it
and the flag is set only while nothing that modifies the device is on its way. -/
theorem protected_of_reach {e : Extension} {c : Conf Shared Thread}
    (h : Reach (Conf.step act) Allowed (device e) c) : Protected c.shared := by
  have hguarded : Guarded c := by
    apply Conf.reach_invariant h (guarded_device e)
    · intro c t hc hspawn
      obtain ⟨⟨r, irp, k, rfl⟩, -⟩ := hspawn
      constructor
      · exact hc.protect
      · intro hread
        constructor
        · exact (hc.quiet hread).queue
        · intro u hu
          rcases List.mem_append.mp hu with hold | hnew
          · exact (hc.quiet hread).threads u hold
          · rw [List.mem_singleton.mp hnew]
            rfl
    · intro c i x t hc hrun ht
      exact guarded_step x hc ht (hrun.2 t ht)
  exact hguarded.protect

/-- `IOCTL_IMDISK_SET_DEVICE_FLAGS` that makes a disk read-only. -/
def flagsIrp : Irp :=
  { bareIrp 0 with
    ioctl := .setDeviceFlags
    inputBufferLength := 8
    input := { (bareIrp 0).input with flagsToChange := 1, flagValues := 1 } }

def plainService : Service := ⟨false, 0, true, true, true, 0, true, true, 0⟩

def plainChoice : Choice := ⟨plainService, plainExtension false⟩

/-- A sector is written by the device thread, then the flag is set. -/
def writeRun : List (Sched Thread Choice) :=
  [.spawn (.check .readWrite { bareIrp 0 with major := true, length := 512 } plainKernel),
    .run 1 plainChoice, .run 1 plainChoice, .run 0 plainChoice, .run 0 plainChoice,
    .spawn (.check .deviceControl flagsIrp plainKernel),
    .run 2 plainChoice, .run 2 plainChoice]

theorem protected_of_reach_flags :
    Protected (writeRun.foldl (Conf.step act) (device (plainExtension false))).shared := by
  apply protected_of_reach (e := plainExtension false)
  apply Reach.foldl .start
  have hrun : ∀ {c : Conf Shared Thread} {i : ℕ} {t : Thread}, c.threads[i]? = some t →
      Careful c t → Allowed c (.run i plainChoice) := by
    intro c i t ht hcareful
    refine ⟨trivial, fun u hu => ?_⟩
    rw [ht, Option.some.injEq] at hu
    exact hu ▸ hcareful
  refine ⟨⟨⟨_, _, _, rfl⟩, trivial⟩, hrun rfl trivial, hrun rfl trivial, hrun rfl trivial,
    hrun rfl trivial, ⟨⟨_, _, _, rfl⟩, trivial⟩, hrun rfl ?_, hrun rfl ?_, trivial⟩
  · intro hread
    exact Bool.noConfusion hread
  · intro _ _
    constructor
    · decide
    · decide

/-! ### A trim of a read-only device -/

/-- A device with an image file that is read-only. -/
def readOnlyExtension : Extension := { plainExtension false with readOnly := true }

/-- `IOCTL_STORAGE_MANAGE_DATA_SET_ATTRIBUTES` with one range. -/
def trimIrp : Irp :=
  { bareIrp 0 with
    ioctl := .manageDataSetAttributes
    inputBufferLength := 44
    input := { (bareIrp 0).input with
      action := 1, dataSetRangesOffset := 28, dataSetRangesLength := 16 } }

/-- The request arrives, passes the checks, and is carried out. -/
def trimRun : List (Sched Thread Choice) :=
  [.spawn (.check .deviceControl trimIrp plainKernel), .run 1 plainChoice, .run 1 plainChoice]

/-- The dispatch routine zeroes the range. -/
theorem not_protected_trim :
    ¬ ∀ e c, Reach (Conf.step act) Arrives (device e) c → Protected c.shared := by
  intro h
  have hreach : Reach (Conf.step act) Arrives (device readOnlyExtension)
      (trimRun.foldl (Conf.step act) (device readOnlyExtension)) :=
    .foldl .start ⟨⟨_, _, _, rfl⟩, trivial, trivial, trivial⟩
  have hprotected := h readOnlyExtension _ hreach (.setZeroData, true)
  revert hprotected
  decide

end KernelDrivers.ImDisk.Disposal
