import KernelDrivers.ImDisk.Buffer
import KernelDrivers.ImDisk.Disposal
import KernelDrivers.Lib.Reach
import KernelDrivers.Lib.Signed

/-!
# Disks in virtual memory

A `vm_disk` keeps its image in memory of the system process.  Reads and writes are checked against the
size of the disk when they are dispatched, and the device thread copies later, when the disk may have
grown into another allocation.  Signed 64-bit offsets are narrowed to the word of the build.

## Main definitions

* `Build` — the 32-bit and the 64-bit driver.
* `Vm` — the device extension, the image buffer and the list of requests.
* `serve` — what the device thread does with a request.
* `Vm.step` — a dispatch routine or the device thread.
* `Served` — the copies are in bounds, and a grow keeps or replaces the disk as a whole.

## Main results

* `inv_step` — sizes only grow, and queued requests stay inside.
* `served_of_reach` — in every run.
-/

namespace KernelDrivers.ImDisk.VmDisk

open Disposal Signed

inductive Build
  | x86
  | x64
  deriving DecidableEq, Repr

namespace Build

/-- The number of values of `ULONG_PTR` and `SIZE_T`. -/
def words : Build → ℕ
  | .x86 => 2 ^ 32
  | .x64 => 2 ^ 64

/-- `QuadPart` or `LowPart` as a native word. -/
def native (b : Build) (x : Int64) : ℕ := x.toUInt64.toNat % b.words

end Build

/-- A request in the list, with the contents of its buffer. -/
structure Request where
  routine : Routine
  irp : Irp
  data : ℕ → UInt8

/-- The device.  `Cylinders` of the geometry is the size in bytes. -/
structure Vm where
  extension : Extension
  imageBuffer : Buffer UInt8
  listHead : List Request

/-- A range that is copied from or to an allocation of so many bytes. -/
structure Copy where
  first : ℕ
  length : ℕ
  size : ℕ

def Copy.InBounds (c : Copy) : Prop := c.first + c.length ≤ c.size

/-- The answers of the system to the device thread. -/
structure Environment where
  /-- `MmGetSystemAddressForMdlSafe`. -/
  mapped : Bool
  /-- `ZwAllocateVirtualMemory`. -/
  allocate : ℕ → Option (Buffer UInt8)

/-- An allocation has at least the bytes asked for. -/
def Environment.Documented (x : Environment) : Prop :=
  ∀ size buffer, x.allocate size = some buffer → size ≤ buffer.size

/-- What the device thread leaves behind. -/
structure Outcome where
  imageBuffer : Buffer UInt8
  cylinders : Int64
  status : Status
  information : ℕ
  /-- What a read returns. -/
  output : List UInt8
  copies : List Copy

section Thread

variable (b : Build) (s : Vm) (irp : Irp) (x : Environment)

/-- The size of the disk. -/
def Vm.cylinders (s : Vm) : Int64 := s.extension.geometry.cylinders

/-- The device is as it was. -/
def Vm.fail (s : Vm) (status : Status) : Outcome :=
  ⟨s.imageBuffer, s.cylinders, status, 0, [], []⟩

/-- `ImDiskDeviceThreadRead`. -/
def deviceThreadRead : Outcome :=
  if ¬ x.mapped then s.fail .insufficientResources
  else
    let vmOffset := b.native irp.byteOffset
    { imageBuffer := s.imageBuffer
      cylinders := s.cylinders
      status := .success
      information := irp.length.toNat
      output := (List.range irp.length.toNat).map fun i => s.imageBuffer.bytes (vmOffset + i)
      copies := [⟨vmOffset, irp.length.toNat, s.imageBuffer.size⟩] }

/-- `ImDiskDeviceThreadWrite`. -/
def deviceThreadWrite (data : ℕ → UInt8) : Outcome :=
  if ¬ x.mapped then s.fail .insufficientResources
  else
    let vmOffset := b.native irp.byteOffset
    { imageBuffer := ⟨s.imageBuffer.size, fun i =>
        if vmOffset ≤ i ∧ i < vmOffset + irp.length.toNat then data (i - vmOffset)
        else s.imageBuffer.bytes i⟩
      cylinders := s.cylinders
      status := .success
      information := irp.length.toNat
      output := []
      copies := [⟨vmOffset, irp.length.toNat, s.imageBuffer.size⟩] }

/-- `STATUS_END_OF_MEDIA`. -/
def endOfMedia : Status := 0x8000001E

/-- `STATUS_NO_MEMORY`. -/
def noMemory : Status := 0xC0000017

/-- `IOCTL_DISK_GROW_PARTITION` in `ImDiskDeviceThreadDeviceControl`. -/
def deviceThreadGrowPartition : Outcome :=
  let newSize := s.cylinders + irp.input.bytesToGrow
  if newSize ≤ 0 then s.fail endOfMedia
  else if b = .x86 ∧ newSize.toUInt64 &&& 0xFFFFFFFF80000000 ≠ 0 then s.fail .invalidDeviceRequest
  else
    let oldSize := b.native s.cylinders
    match x.allocate (b.native newSize) with
    | none => s.fail noMemory
    | some new =>
        let count := min oldSize new.size
        { imageBuffer := ⟨new.size, fun i => if i < count then s.imageBuffer.bytes i else new.bytes i⟩
          cylinders := newSize
          status := .success
          information := 0
          output := []
          copies := [⟨0, count, s.imageBuffer.size⟩, ⟨0, count, new.size⟩] }

/-- The `switch` of the device thread.  Of the control codes only the growth is looked at. -/
def serve (r : Request) : Outcome :=
  match r.routine with
  | .readWrite =>
      if r.irp.major then deviceThreadWrite b s r.irp x r.data else deviceThreadRead b s r.irp x
  | _ => deviceThreadGrowPartition b s r.irp x

end Thread

/-! ## Runs -/

inductive Event
  /-- A dispatch routine is called. -/
  | dispatch (r : Request) (k : Kernel)
  /-- The device thread takes a request. -/
  | thread (x : Environment)

/-- Whether a dispatch routine puts the request in the list. -/
def Queues (s : Vm) (r : Request) (k : Kernel) : Prop :=
  .insertTail ∈ (r.routine.dispatch r.irp s.extension k ⟨0, 0, []⟩).1.acts

instance (s : Vm) (r : Request) (k : Kernel) : Decidable (Queues s r k) :=
  inferInstanceAs (Decidable (_ ∈ _))

/-- The device behind a request. -/
def Vm.behind (s : Vm) (o : Outcome) (rest : List Request) : Vm where
  extension := { s.extension with geometry := { s.extension.geometry with cylinders := o.cylinders } }
  imageBuffer := o.imageBuffer
  listHead := rest

@[simp] theorem Vm.behind_cylinders (s : Vm) (o : Outcome) (rest : List Request) :
    (s.behind o rest).cylinders = o.cylinders := rfl

@[simp] theorem Vm.behind_imageBuffer (s : Vm) (o : Outcome) (rest : List Request) :
    (s.behind o rest).imageBuffer = o.imageBuffer := rfl

def Vm.step (b : Build) (s : Vm) : Event → Vm
  | .dispatch r k => if Queues s r k then { s with listHead := s.listHead ++ [r] } else s
  | .thread x =>
      match s.listHead with
      | [] => s
      | r :: rest => s.behind (serve b s x r) rest

/-- Reads, writes and requests to grow. -/
def Request.Transfers (r : Request) : Prop :=
  r.routine = .readWrite ∨ (r.routine = .deviceControl ∧ r.irp.ioctl = .growPartition)

/-- What may happen. -/
def Allowed (_ : Vm) : Event → Prop
  | .dispatch r _ => r.Transfers
  | .thread x => x.Documented

/-- A device as it is created. -/
structure Created (b : Build) (s : Vm) : Prop where
  positive : 0 < s.cylinders.toInt
  allocated : s.cylinders.toInt ≤ s.imageBuffer.size
  narrow : b = .x86 → s.cylinders.toInt < 2 ^ 31
  empty : s.listHead = []

/-- **What the device thread does with a request**: every copy is in bounds; a grow that succeeds adds
so many bytes to the size and keeps the contents, and one that fails changes nothing. -/
structure Served (b : Build) (s : Vm) (x : Environment) (r : Request) : Prop where
  inBounds : ∀ c ∈ (serve b s x r).copies, c.InBounds
  grown : r.routine = .deviceControl → (serve b s x r).status = .success →
    (serve b s x r).cylinders.toInt = s.cylinders.toInt + r.irp.input.bytesToGrow.toInt ∧
      ∀ i : ℕ, i < s.cylinders.toInt → (serve b s x r).imageBuffer.bytes i = s.imageBuffer.bytes i
  failed : r.routine = .deviceControl → (serve b s x r).status ≠ .success →
    (serve b s x r).cylinders = s.cylinders ∧ (serve b s x r).imageBuffer = s.imageBuffer

/-! ## The checks of the dispatch routines -/

section Dispatch

variable {b : Build} {s : Vm} {r : Request} {k : Kernel} {x : Environment}

/-- What the check of a dispatch routine says about a request in the list. -/
def Admitted (s : Vm) (r : Request) : Prop :=
  (r.routine = .readWrite → 0 ≤ r.irp.byteOffset.toInt ∧
    r.irp.byteOffset.toInt + r.irp.length.toNat ≤ s.cylinders.toInt) ∧
  (r.routine = .deviceControl → 0 ≤ r.irp.input.bytesToGrow.toInt)

/-- A request that is completed is not in the list. -/
theorem not_queued_finish (status : Status) (information : ℕ) :
    .insertTail ∉ ((⟨0, 0, []⟩ : Call).finish status information).1.acts := by
  simp [Call.finish, Call.complete, Call.act, Call.info, Call.store]

theorem admitted_readWrite {irp : Irp}
    (h : .insertTail ∈ (dispatchReadWrite irp s.extension k ⟨0, 0, []⟩).1.acts) :
    0 ≤ irp.byteOffset.toInt ∧ irp.byteOffset.toInt + irp.length.toNat ≤ s.cylinders.toInt := by
  by_cases hnegative : negative irp
  · rw [dispatchReadWrite, if_pos hnegative] at h
    exact absurd h (not_queued_finish _ _)
  · by_cases hend : s.cylinders < irp.byteOffset + irp.length.toUInt64.toInt64
    · rw [dispatchReadWrite, if_neg hnegative] at h
      split_ifs at h <;> first | exact absurd h (not_queued_finish _ _) | contradiction
    · simp only [negative, Bool.or_eq_true, decide_eq_true_eq, not_or, Int64.not_lt,
        Int64.le_iff_toInt_le] at hnegative hend
      obtain ⟨hoffset, hsum⟩ := hnegative
      have hlength := toInt_ofUInt32 irp.length
      have hexact := toInt_add_nonneg hoffset (by omega) hsum
      exact ⟨hoffset, by rw [← hlength, ← hexact]; exact hend⟩

theorem admitted_grow {irp : Irp} (hgrow : irp.ioctl = .growPartition) (hpos : 0 < s.cylinders.toInt)
    (h : .insertTail ∈ (dispatchDeviceControl irp s.extension k ⟨0, 0, []⟩).1.acts) :
    0 ≤ irp.input.bytesToGrow.toInt := by
  -- a negative number of bytes makes the sum smaller, without a wrap
  by_contra hneg
  have hsum : s.cylinders + irp.input.bytesToGrow < s.cylinders := by
    have hlo := bounds irp.input.bytesToGrow
    have hcyl := bounds s.cylinders
    rw [Int64.lt_iff_toInt_lt, toInt_add_of_lt (by omega) (by omega)]
    omega
  have hanswer : ∃ status, status ≠ .pending ∧
      controlSwitch irp s.extension k = .done status 0 := by
    simp only [controlSwitch, hgrow, growPartition]
    split_ifs with hsize hreadOnly hrefused
    · exact ⟨_, by decide, rfl⟩
    · exact ⟨_, by decide, rfl⟩
    · exact ⟨_, by decide, rfl⟩
    · exact absurd (.inr hsum) hrefused
  obtain ⟨status, hstatus, hanswer⟩ := hanswer
  rw [dispatchDeviceControl] at h
  simp only [hanswer, settle, hstatus, if_false] at h
  split_ifs at h <;> exact absurd h (not_queued_finish _ _)

theorem admitted_of_queues (hr : r.Transfers) (hpos : 0 < s.cylinders.toInt) (h : Queues s r k) :
    Admitted s r := by
  rw [Queues] at h
  rcases hr with hrw | ⟨hdc, hgrow⟩
  · rw [hrw] at h
    exact ⟨fun _ => admitted_readWrite h, fun hdc => absurd (hrw.symm.trans hdc) (by decide)⟩
  · rw [hdc] at h
    exact ⟨fun hrw => absurd (hdc.symm.trans hrw) (by decide), fun _ => admitted_grow hgrow hpos h⟩

end Dispatch

/-! ## The device thread -/

section Thread

variable {b : Build} {s : Vm} {r : Request} {x : Environment}

theorem and_mask_eq_zero {u : UInt64} (h : u &&& 0xFFFFFFFF80000000 = 0) : u.toNat < 2 ^ 31 := by
  have hnat : u.toNat &&& 0xFFFFFFFF80000000 = 0 := by
    have := congrArg UInt64.toNat h
    rwa [UInt64.toNat_and] at this
  have hhigh : (u.toNat &&& 0xFFFFFFFF80000000) / 2 ^ 31 = 0 := by rw [hnat, Nat.zero_div]
  have hmask : 0xFFFFFFFF80000000 / 2 ^ 31 = 2 ^ 33 - 1 := by norm_num
  have hlt := u.toNat_lt
  rw [Nat.and_div_two_pow, hmask, Nat.and_two_pow_sub_one_eq_mod, Nat.mod_eq_of_lt (by omega)] at hhigh
  omega

/-- A size is its native word. -/
theorem native_eq {y : Int64} (hpos : 0 ≤ y.toInt) (hnarrow : b = .x86 → y.toInt < 2 ^ 31) :
    (b.native y : ℤ) = y.toInt := by
  have hnat := toNat_toUInt64 hpos
  have hlt := y.toUInt64.toNat_lt
  rw [Build.native, Nat.mod_eq_of_lt, hnat]
  cases b with
  | x86 =>
      have := hnarrow rfl
      rw [Build.words]
      omega
  | x64 => exact hlt

/-- **The invariant**: the disk fits in its buffer, and the requests in the list fit in the disk. -/
structure Inv (b : Build) (s : Vm) : Prop where
  positive : 0 < s.cylinders.toInt
  allocated : s.cylinders.toInt ≤ s.imageBuffer.size
  narrow : b = .x86 → s.cylinders.toInt < 2 ^ 31
  admitted : ∀ r ∈ s.listHead, r.Transfers ∧ Admitted s r

theorem Created.inv (h : Created b s) : Inv b s :=
  ⟨h.positive, h.allocated, h.narrow, fun r hr => by rw [h.empty] at hr; cases hr⟩

/-- What a grow does: it fails and changes nothing, or the disk is copied to a larger allocation. -/
theorem grow_cases (h : Inv b s) (hx : x.Documented) {irp : Irp} (hgrow : 0 ≤ irp.input.bytesToGrow.toInt) :
    (∃ status, status ≠ .success ∧ deviceThreadGrowPartition b s irp x = s.fail status) ∨
    ∃ new : Buffer UInt8, ∃ newSize : Int64,
      newSize.toInt = s.cylinders.toInt + irp.input.bytesToGrow.toInt ∧
      newSize.toInt ≤ new.size ∧ (b = .x86 → newSize.toInt < 2 ^ 31) ∧
      deviceThreadGrowPartition b s irp x =
        ⟨⟨new.size, fun i => if i < s.cylinders.toInt.toNat then s.imageBuffer.bytes i else new.bytes i⟩,
          newSize, .success, 0, [],
          [⟨0, s.cylinders.toInt.toNat, s.imageBuffer.size⟩, ⟨0, s.cylinders.toInt.toNat, new.size⟩]⟩ := by
  have hpos := h.positive
  rw [deviceThreadGrowPartition]
  dsimp only
  by_cases hend : s.cylinders + irp.input.bytesToGrow ≤ 0
  · exact .inl ⟨_, by decide, if_pos hend⟩
  · rw [if_neg hend]
    by_cases hlarge : b = .x86 ∧ (s.cylinders + irp.input.bytesToGrow).toUInt64 &&& 0xFFFFFFFF80000000 ≠ 0
    · exact .inl ⟨_, by decide, if_pos hlarge⟩
    · rw [if_neg hlarge]
      rw [Int64.le_iff_toInt_le, not_le] at hend
      have hsum := toInt_add_nonneg hpos.le hgrow hend.le
      generalize s.cylinders + irp.input.bytesToGrow = newSize at hend hlarge hsum
      have hnarrow : b = .x86 → newSize.toInt < 2 ^ 31 := by
        intro hb
        have hmask := and_mask_eq_zero (not_not.mp fun hne => hlarge ⟨hb, hne⟩)
        rw [← toNat_toUInt64 hend.le]
        exact_mod_cast hmask
      have hnew := native_eq hend.le hnarrow
      have hold := native_eq hpos.le h.narrow
      cases halloc : x.allocate (b.native newSize) with
      | none => exact .inl ⟨_, by decide, rfl⟩
      | some new =>
          have hsize : newSize.toInt ≤ new.size := by
            rw [← hnew]
            exact_mod_cast hx _ _ halloc
          have hcount : min (b.native s.cylinders) new.size = s.cylinders.toInt.toNat := by
            omega
          refine .inr ⟨new, newSize, hsum, hsize, hnarrow, ?_⟩
          dsimp only
          rw [hcount]

theorem Inv.served (h : Inv b s) (hx : x.Documented) (hr : r ∈ s.listHead) : Served b s x r := by
  have hpos := h.positive
  have hsize := h.allocated
  obtain ⟨htransfers, hadmitted⟩ := h.admitted r hr
  rcases htransfers with hrw | ⟨hdc, -⟩
  · obtain ⟨hoffset, hend⟩ := hadmitted.1 hrw
    have hno : r.routine ≠ .deviceControl := by rw [hrw]; decide
    have hnarrow : b = .x86 → r.irp.byteOffset.toInt < 2 ^ 31 := by
      intro hb
      have := h.narrow hb
      omega
    have hnative := native_eq hoffset hnarrow
    refine ⟨?_, fun hdc => absurd hdc hno, fun hdc => absurd hdc hno⟩
    have hin : (⟨b.native r.irp.byteOffset, r.irp.length.toNat, s.imageBuffer.size⟩ : Copy).InBounds := by
      change b.native r.irp.byteOffset + r.irp.length.toNat ≤ s.imageBuffer.size
      omega
    rw [serve, hrw]
    dsimp only
    split
    · rw [deviceThreadWrite]
      split
      · simp [Vm.fail]
      · simpa using hin
    · rw [deviceThreadRead]
      split
      · simp [Vm.fail]
      · simpa using hin
  · have hserve : serve b s x r = deviceThreadGrowPartition b s r.irp x := by rw [serve, hdc]
    have hbytes := hadmitted.2 hdc
    rcases grow_cases h hx hbytes with ⟨status, hstatus, hfail⟩ |
      ⟨new, newSize, hsum, hnew, -, hok⟩
    · rw [hfail] at hserve
      refine ⟨?_, fun _ hs => ?_, fun _ _ => ?_⟩
      · simp [hserve, Vm.fail]
      · rw [hserve] at hs
        exact absurd hs hstatus
      · simp [hserve, Vm.fail]
    · rw [hok] at hserve
      refine ⟨?_, fun _ _ => ?_, fun _ hs => ?_⟩
      · simp only [hserve, List.forall_mem_cons, Copy.InBounds]
        refine ⟨by omega, by omega, by simp⟩
      · rw [hserve]
        exact ⟨hsum, fun i hi => if_pos (by omega)⟩
      · rw [hserve] at hs
        exact absurd rfl hs

/-- The size of the disk and of its buffer behind a request. -/
theorem serve_cases (h : Inv b s) (hx : x.Documented) (ht : r.Transfers) (ha : Admitted s r) :
    ((serve b s x r).cylinders = s.cylinders ∧
      (serve b s x r).imageBuffer.size = s.imageBuffer.size) ∨
    (s.cylinders.toInt ≤ (serve b s x r).cylinders.toInt ∧
      (serve b s x r).cylinders.toInt ≤ (serve b s x r).imageBuffer.size ∧
      (b = .x86 → (serve b s x r).cylinders.toInt < 2 ^ 31)) := by
  rcases ht with hrw | ⟨hdc, -⟩
  · left
    rw [serve, hrw]
    dsimp only
    split
    · rw [deviceThreadWrite]
      split <;> exact ⟨rfl, rfl⟩
    · rw [deviceThreadRead]
      split <;> exact ⟨rfl, rfl⟩
  · have hserve : serve b s x r = deviceThreadGrowPartition b s r.irp x := by rw [serve, hdc]
    have hbytes := ha.2 hdc
    rw [hserve]
    rcases grow_cases h hx hbytes with ⟨status, -, hfail⟩ | ⟨new, newSize, hsum, hnew, hnarrow, hok⟩
    · left
      rw [hfail]
      exact ⟨rfl, rfl⟩
    · right
      have hgrown : s.cylinders.toInt ≤ newSize.toInt := by omega
      rw [hok]
      exact ⟨hgrown, hnew, hnarrow⟩

/-- **Sizes only grow**, so that the requests in the list stay inside. -/
theorem inv_step (h : Inv b s) {e : Event} (he : Allowed s e) : Inv b (s.step b e) := by
  cases e with
  | dispatch r k =>
      rw [Vm.step]
      split
      · next hq =>
        refine ⟨h.positive, h.allocated, h.narrow, fun q hmem => ?_⟩
        rcases List.mem_append.mp hmem with hold | hnew
        · exact h.admitted q hold
        · rw [List.mem_singleton.mp hnew]
          exact ⟨he, admitted_of_queues he h.positive hq⟩
      · exact h
  | thread x =>
      rw [Vm.step]
      cases hlist : s.listHead with
      | nil => exact h
      | cons r rest =>
          have hrest : ∀ q ∈ rest, q.Transfers ∧ Admitted s q := fun q hq =>
            h.admitted q (hlist ▸ List.mem_cons_of_mem r hq)
          obtain ⟨htransfers, hadmitted⟩ := h.admitted r (hlist ▸ List.mem_cons_self)
          dsimp only
          rcases serve_cases h he htransfers hadmitted with ⟨hcyl, hsize⟩ | ⟨hgrown, hsize, hnarrow⟩
          · refine ⟨?_, ?_, fun hb => ?_, fun q hq => ⟨(hrest q hq).1, ?_⟩⟩
            · rw [Vm.behind_cylinders, hcyl]
              exact h.positive
            · rw [Vm.behind_cylinders, Vm.behind_imageBuffer, hcyl, hsize]
              exact h.allocated
            · rw [Vm.behind_cylinders, hcyl]
              exact h.narrow hb
            · rw [Admitted, Vm.behind_cylinders, hcyl]
              exact (hrest q hq).2
          · refine ⟨h.positive.trans_le hgrown, hsize, hnarrow, fun q hq => ⟨(hrest q hq).1, ?_⟩⟩
            obtain ⟨htransfer, hgrow⟩ := (hrest q hq).2
            exact ⟨fun hrw => ⟨(htransfer hrw).1, (htransfer hrw).2.trans hgrown⟩, hgrow⟩

theorem served_of_reach {s₀ : Vm} (hcreated : Created b s₀) (h : Reach (Vm.step b) Allowed s₀ s)
    {rest : List Request} (hlist : s.listHead = r :: rest) (hx : x.Documented) : Served b s x r :=
  (h.invariant hcreated.inv fun _ _ hinv he => inv_step hinv he).served hx (hlist ▸ List.mem_cons_self)

/-! ### Two requests to grow -/

/-- A disk of 128 KiB. -/
def smallDisk : Vm where
  extension := { plainExtension false with vmDisk := true, geometry := ⟨131072, 1, 1, 512⟩ }
  imageBuffer := ⟨131072, fun _ => 7⟩
  listHead := []

def growRequest : Request where
  routine := .deviceControl
  irp := { bareIrp 0 with
    ioctl := .growPartition
    inputBufferLength := 16
    input := { (bareIrp 0).input with partitionNumber := 1, bytesToGrow := 512 } }
  data := fun _ => 0

/-- Memory comes in pages. -/
def pages : Environment := ⟨true, fun n => some ⟨(n + 4095) / 4096 * 4096, fun _ => 0⟩⟩

/-- Both pass the check before the first of them is served. -/
theorem served_secondGrow : ∃ s, Reach (Vm.step .x86) Allowed smallDisk s ∧
    s.listHead = [growRequest] ∧ s.cylinders = 131584 ∧ Served .x86 s pages growRequest := by
  have hpages : pages.Documented := by
    rintro size buffer h
    cases h
    change size ≤ (size + 4095) / 4096 * 4096
    omega
  have hreach : Reach (Vm.step .x86) Allowed smallDisk
      ([.dispatch growRequest plainKernel, .dispatch growRequest plainKernel, .thread pages].foldl
        (Vm.step .x86) smallDisk) :=
    .foldl .start ⟨.inr ⟨rfl, rfl⟩, .inr ⟨rfl, rfl⟩, hpages, trivial⟩
  have hcreated : Created .x86 smallDisk := ⟨by decide, by decide, fun _ => by decide, rfl⟩
  have hdispatch : ∀ s : Vm, s.extension = smallDisk.extension →
      s.step .x86 (.dispatch growRequest plainKernel) =
        ⟨s.extension, s.imageBuffer, s.listHead ++ [growRequest]⟩ := by
    intro s hs
    refine if_pos ?_
    rw [Queues, hs]
    decide
  rw [List.foldl_cons, List.foldl_cons, List.foldl_cons, List.foldl_nil, hdispatch smallDisk rfl,
    hdispatch ⟨smallDisk.extension, smallDisk.imageBuffer, smallDisk.listHead ++ [growRequest]⟩ rfl]
    at hreach
  exact ⟨_, hreach, rfl, by decide, served_of_reach hcreated hreach rfl hpages⟩

end Thread

end KernelDrivers.ImDisk.VmDisk
