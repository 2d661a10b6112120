import KernelDrivers.Lib.Turns
import KernelDrivers.Lib.Wire

/-!
# Saving an image

`ImDiskSaveImageFile` copies the contents of a device to a file.  It stops at a read that gives nothing,
and reports success there without a look at the count of bytes that it has saved.

## Main definitions

* `Round` — what comes of one round of the loop.
* `turn` — the round.
* `AllOrFailure` — the function ends, and reports success only for a complete image.
* `NoEarlyEnd` — no read gives nothing before the end of the device.

## Main results

* `turn_cases` — what a round comes to.
* `progress` — how far the loop has come.
* `allOrFailure_iff` — when a backup that is reported is complete.
-/

namespace KernelDrivers.ImDisk.SaveImage

open Turns

/-- What comes of a round. -/
structure Round where
  /-- `CancelFlag` is given, and set. -/
  cancelled : Bool
  /-- `ReadFile`: it fails, or gives at most so many bytes. -/
  read : Option ℕ
  /-- `WriteFile`: it fails, or takes at most so many bytes. -/
  write : Option ℕ

structure State where
  savedSize : ℕ
  bufferSize : ℕ
  /-- Where the next read of the device starts. -/
  position : ℕ
  file : List UInt8

structure Result where
  returned : Bool
  /-- `IMDISK_IMAGE_MODIFIED` has been cleared. -/
  cleared : Bool
  file : List UInt8

section Routine

variable (device : ℕ → UInt8) (diskSize : ℕ)

/-- The size of the buffer, shrunk to the rest of the device. -/
def shrunk (s : State) : ℕ :=
  if diskSize - s.savedSize < s.bufferSize then diskSize - s.savedSize else s.bufferSize

/-- What was read is written. -/
def writeOut (s : State) (readSize : ℕ) : Option ℕ → State ⊕ Result
  | none => .inr ⟨false, false, s.file⟩
  | some count =>
      let writeSize := min count readSize
      let file := s.file ++ (slice device s.position readSize).take writeSize
      if writeSize ≠ readSize then .inr ⟨false, false, file⟩
      else .inl ⟨s.savedSize + writeSize, s.bufferSize, s.position + readSize, file⟩

/-- One round of the loop. -/
def turn (s : State) (r : Round) : State ⊕ Result :=
  if r.cancelled then .inr ⟨false, false, s.file⟩
  else
    match r.read with
    | none => .inr ⟨false, false, s.file⟩
    | some count =>
        if min count (shrunk diskSize s) = 0 then .inr ⟨true, true, s.file⟩
        else writeOut device { s with bufferSize := shrunk diskSize s } (min count (shrunk diskSize s)) r.write

end Routine

/-- What comes in front of the loop: `ImDiskGetVolumeSize`, and `VirtualAlloc`. -/
def entry (volumeSize : Option ℕ) (bufferSize : UInt32) (allocated : Bool) : State ⊕ Result :=
  match volumeSize with
  | none => .inr ⟨false, false, []⟩
  | some diskSize =>
      if diskSize = 0 then .inr ⟨true, false, []⟩
      else if ¬ allocated then .inr ⟨false, false, []⟩
      else .inl ⟨0, if bufferSize = 0 then 2 ^ 19 else bufferSize.toNat, 0, []⟩

section Specification

variable (device : ℕ → UInt8) (volumeSize : Option ℕ) (bufferSize : UInt32) (allocated : Bool)
  (rs : ℕ → Round)

/-- `ImDiskSaveImageFile`, after some rounds. -/
def saveImageFile (n : ℕ) : State ⊕ Result :=
  after (turn device (volumeSize.getD 0)) (entry volumeSize bufferSize allocated) rs n

/-- **All or failure**: the function ends, and it returns `TRUE` or clears the flag only when the file
holds the whole device. -/
def AllOrFailure : Prop :=
  ∃ r, Ends (turn device (volumeSize.getD 0)) (entry volumeSize bufferSize allocated) rs r ∧
    (r.returned = true ∨ r.cleared = true → volumeSize.map (slice device 0) = some r.file)

/-- No read gives nothing while there is something left to save. -/
def NoEarlyEnd : Prop :=
  ∀ n s, saveImageFile device volumeSize bufferSize allocated rs n = .inl s →
    s.savedSize < volumeSize.getD 0 → (rs n).cancelled = false → (rs n).read ≠ some 0

end Specification

/-! ## The loop -/

section Run

variable {device : ℕ → UInt8} {diskSize : ℕ} {volumeSize : Option ℕ} {bufferSize : UInt32}
  {allocated : Bool} {rs : ℕ → Round}

/-- The file holds what has been saved, and the buffer is not empty. -/
structure Progress (device : ℕ → UInt8) (diskSize : ℕ) (s : State) : Prop where
  file : s.file = slice device 0 s.savedSize
  position : s.position = s.savedSize
  le : s.savedSize ≤ diskSize
  buffer : 0 < s.bufferSize

theorem shrunk_le (s : State) : shrunk diskSize s ≤ diskSize - s.savedSize := by
  rw [shrunk]
  split <;> omega

/-- A round fails, stops at an empty read, or saves something. -/
theorem turn_cases {s : State} (h : Progress device diskSize s) (r : Round) :
    (∃ file, turn device diskSize s r = .inr ⟨false, false, file⟩) ∨
    (r.cancelled = false ∧ (r.read = some 0 ∨ s.savedSize = diskSize) ∧
      turn device diskSize s r = .inr ⟨true, true, s.file⟩) ∨
    (∃ s', s.savedSize < s'.savedSize ∧ Progress device diskSize s' ∧
      turn device diskSize s r = .inl s') := by
  have hle := @shrunk_le diskSize s
  have hdisk := h.le
  have hbuffer := h.buffer
  cases hcancelled : r.cancelled with
  | true => exact .inl ⟨_, by rw [turn, if_pos hcancelled]⟩
  | false =>
      cases hread : r.read with
      | none => exact .inl ⟨_, by simp only [turn, hcancelled, hread]; rfl⟩
      | some count =>
          have hturn : turn device diskSize s r =
              if min count (shrunk diskSize s) = 0 then .inr ⟨true, true, s.file⟩
              else writeOut device { s with bufferSize := shrunk diskSize s }
                (min count (shrunk diskSize s)) r.write := by
            simp only [turn, hcancelled, hread]
            rfl
          by_cases hempty : min count (shrunk diskSize s) = 0
          · rw [if_pos hempty] at hturn
            refine .inr (.inl ⟨rfl, ?_, hturn⟩)
            rcases Nat.eq_zero_or_pos count with hzero | hpos
            · exact .inl (by rw [hzero])
            · have hshrunk : shrunk diskSize s = 0 := by omega
              rw [shrunk] at hshrunk
              split at hshrunk
              · exact .inr (by omega)
              · omega
          · rw [if_neg hempty] at hturn
            cases hwrite : r.write with
            | none =>
                rw [hwrite] at hturn
                exact .inl ⟨_, hturn⟩
            | some taken =>
                rw [hwrite, writeOut] at hturn
                dsimp only at hturn
                split at hturn
                · exact .inl ⟨_, hturn⟩
                · next hfull =>
                    refine .inr (.inr ⟨_, ?_, ?_, hturn⟩)
                    · dsimp only
                      omega
                    · rw [not_not.mp hfull]
                      exact {
                        file := by
                          dsimp only
                          rw [List.take_of_length_le (by simp), h.file, h.position, ← slice_append, zero_add]
                        position := by
                          dsimp only
                          rw [h.position]
                        le := by
                          dsimp only
                          omega
                        buffer := by
                          dsimp only
                          omega }

theorem entry_progress : ∀ s, entry volumeSize bufferSize allocated = .inl s →
    Progress device (volumeSize.getD 0) s := by
  intro s hs
  cases volumeSize with
  | none => cases hs
  | some diskSize =>
      rw [entry] at hs
      split at hs
      · cases hs
      · split at hs
        · cases hs
        · cases hs
          refine ⟨rfl, rfl, Nat.zero_le _, ?_⟩
          dsimp only
          split
          · decide
          · next hne => exact Nat.pos_of_ne_zero fun h => hne (UInt32.toNat_inj.mp h)

/-- What the loop keeps. -/
theorem progress {n : ℕ} {s : State} (h : saveImageFile device volumeSize bufferSize allocated rs n = .inl s) :
    Progress device (volumeSize.getD 0) s := by
  refine @invariant_of_inl _ _ _ _ _ _ (fun _ s => Progress device (volumeSize.getD 0) s)
    entry_progress (fun n s s' _ hprogress hnext => ?_) n s h
  rcases turn_cases hprogress (rs n) with ⟨file, hturn⟩ | ⟨-, -, hturn⟩ | ⟨t, -, ht, hturn⟩
  · rw [hturn] at hnext
    cases hnext
  · rw [hturn] at hnext
    cases hnext
  · rw [hturn] at hnext
    cases hnext
    exact ht

/-- The loop ends: each round saves something. -/
theorem exists_ends :
    ∃ r, Ends (turn device (volumeSize.getD 0)) (entry volumeSize bufferSize allocated) rs r := by
  refine ends_of_wf (@wellFounded_lt ℕ _ _) (fun s => volumeSize.getD 0 - s.savedSize) fun n s s' hs hnext => ?_
  rcases turn_cases (progress hs) (rs n) with ⟨file, hturn⟩ | ⟨-, -, hturn⟩ | ⟨t, hlt, ht, hturn⟩
  · rw [hturn] at hnext
    cases hnext
  · rw [hturn] at hnext
    cases hnext
  · rw [hturn] at hnext
    cases hnext
    have hle := ht.le
    omega

/-- A volume whose size is not known is not read. -/
theorem exists_volumeSize {n : ℕ} {s : State}
    (h : saveImageFile device volumeSize bufferSize allocated rs n = .inl s) :
    ∃ diskSize, volumeSize = some diskSize := by
  cases volumeSize with
  | none =>
      obtain ⟨s₀, hs₀⟩ := exists_inl_of_le h (Nat.zero_le n)
      cases hs₀
  | some diskSize => exact ⟨diskSize, rfl⟩

end Run

variable {device : ℕ → UInt8} {volumeSize : Option ℕ} {bufferSize : UInt32} {allocated : Bool}
  {rs : ℕ → Round}

/-- A result before the loop is no success, or there was nothing to save. -/
theorem entry_right {r : Result} (h : entry volumeSize bufferSize allocated = .inr r)
    (hdone : r.returned = true ∨ r.cleared = true) : volumeSize.map (slice device 0) = some r.file := by
  cases volumeSize with
  | none =>
      cases h
      simp at hdone
  | some diskSize =>
      rw [entry] at h
      split at h
      · next hzero =>
          cases h
          rw [hzero]
          rfl
      · split at h
        · cases h
          simp at hdone
        · cases h

/-- **Saving an image is all or failure**, exactly when no read gives nothing before the end. -/
theorem allOrFailure_iff :
    AllOrFailure device volumeSize bufferSize allocated rs ↔
      NoEarlyEnd device volumeSize bufferSize allocated rs := by
  constructor
  · rintro ⟨r, hends, hright⟩ n s hs hmore hcancelled hread
    have hlast : Ends (turn device (volumeSize.getD 0)) (entry volumeSize bufferSize allocated) rs
        ⟨true, true, s.file⟩ := by
      refine ⟨n + 1, (after_succ hs).trans ?_⟩
      simp [turn, hcancelled, hread]
    obtain ⟨diskSize, rfl⟩ := exists_volumeSize hs
    rw [hends.unique hlast, (progress hs).file] at hright
    have hall := Option.some.inj (hright (.inl rfl))
    have hlength := congrArg List.length hall
    simp only [length_slice] at hlength
    simp only [Option.getD_some] at hmore
    omega
  · intro hnone
    obtain ⟨r, hends⟩ := @exists_ends device volumeSize bufferSize allocated rs
    refine ⟨r, hends, fun hdone => ?_⟩
    rcases hends.exists_last with hentry | ⟨n, s, hs, hlast⟩
    · exact entry_right hentry hdone
    · rcases turn_cases (progress hs) (rs n) with ⟨file, hturn⟩ | ⟨hcancelled, hempty, hturn⟩ | ⟨t, -, -, hturn⟩
      · rw [hturn] at hlast
        cases hlast
        simp at hdone
      · rw [hturn] at hlast
        cases hlast
        have hle := (progress hs).le
        have hall : s.savedSize = volumeSize.getD 0 := by
          by_contra hne
          exact hnone n s hs (by omega) hcancelled (hempty.resolve_right hne)
        obtain ⟨diskSize, rfl⟩ := exists_volumeSize hs
        rw [(progress hs).file, hall]
        rfl
      · rw [hturn] at hlast
        cases hlast

/-- The device gives 512 bytes, and then nothing. -/
def shortDevice : ℕ → Round
  | 0 => ⟨false, some 512, some 512⟩
  | _ => ⟨false, some 0, some 0⟩

/-- Half of a device of two sectors is saved, `TRUE` is returned, and the flag is cleared. -/
theorem not_allOrFailure_shortDevice :
    ¬ AllOrFailure (fun _ => 1) (some 1024) 0 true shortDevice := by
  rintro ⟨r, hends, hright⟩
  have hsecond : ∃ r, saveImageFile (fun _ => 1) (some 1024) 0 true shortDevice 2 = .inr r ∧
      r.returned = true ∧ r.file.length = 512 := ⟨_, rfl, rfl, by simp [shrunk]⟩
  obtain ⟨r', hr', hreturned, hlength⟩ := hsecond
  rw [hends.unique ⟨2, hr'⟩] at hright
  have hall := congrArg List.length (Option.some.inj (hright (.inl hreturned)))
  rw [length_slice, hlength] at hall
  omega


end KernelDrivers.ImDisk.SaveImage
