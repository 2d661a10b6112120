import Mathlib.Tactic

/-!
# Native paths as Win32 paths

`ImDiskNativePathToWin32` makes a Win32 path of a native one, in the buffer that holds the native
path: it writes over characters of the prefix and moves the pointer to where the result begins.  What
the second half of the routine does depends on the characters that the first half has left.

## Main definitions

* `imDiskNativePathToWin32` — the routine.
* `win32Path` — the Win32 path for what follows the prefix of a native path.
* `ConvertsAlike` — a path is converted to that behind both prefixes.

## Main results

* `native_ntPrefix`, `native_dosDevices` — what comes of a path behind each prefix.
* `convertsAlike_iff` — the paths that are converted alike.
-/

namespace KernelDrivers.ImDisk.NativePath

/-- A string of `WCHAR`s without its terminator.  A pointer into it is the rest of the string. -/
abbrev WideString := List UInt16

/-- A literal. -/
def wide (s : List Char) : WideString := s.map fun c => UInt16.ofNat c.toNat

def backslash : UInt16 := 0x5C
def questionMark : UInt16 := 0x3F
def colon : UInt16 := 0x3A

/-- `\??\`. -/
def ntPrefix : WideString := wide ['\\', '?', '?', '\\']

/-- `\DosDevices\`. -/
def dosDevices : WideString :=
  wide ['\\', 'D', 'o', 's', 'D', 'e', 'v', 'i', 'c', 'e', 's', '\\']

/-- `\\?\`. -/
def win32Prefix : WideString := wide ['\\', '\\', '?', '\\']

/-- `UNC\`. -/
def uncPrefix : WideString := wide ['U', 'N', 'C', '\\']

/-! ## The routine -/

/-- `wcsncmp` finds no difference in the characters of the literal. -/
def startsWith (path literal : WideString) : Bool := path.take literal.length = literal

/-- The character at `i`, which is the terminator behind the last one. -/
def charAt (path : WideString) (i : ℕ) : UInt16 := path.getD i 0

/-- Make the prefix that of a Win32 path. -/
def convertPrefix (path : WideString) : Option WideString :=
  if startsWith path ntPrefix then some (path.set 1 backslash)
  else if startsWith path dosDevices then
    some ((((path.drop 8).set 0 backslash).set 1 backslash).set 3 questionMark)
  else none

/-- Leave the prefix out where Win32 does without it. -/
def shorten (path : WideString) : WideString :=
  if charAt path 4 ≠ 0 ∧ charAt path 5 = colon then path.drop 4
  else if startsWith path (win32Prefix ++ uncPrefix) then (path.drop 6).set 0 backslash
  else path

/-- `ImDiskNativePathToWin32`, with a pointer that may be null. -/
def imDiskNativePathToWin32 : Option WideString → Option WideString
  | none => none
  | some path =>
      match convertPrefix path with
      | none => some path
      | some path => some (shorten path)

/-! ## What is meant -/

/-- A letter of the alphabet and a colon. -/
def DriveLetter (p : WideString) : Prop :=
  (0x41 ≤ charAt p 0 ∧ charAt p 0 ≤ 0x5A ∨ 0x61 ≤ charAt p 0 ∧ charAt p 0 ≤ 0x7A) ∧
    charAt p 1 = colon

instance (p : WideString) : Decidable (DriveLetter p) :=
  inferInstanceAs (Decidable ((_ ∧ _ ∨ _ ∧ _) ∧ _))

/-- The Win32 path for `p` behind the prefix of a native path. -/
def win32Path (p : WideString) : WideString :=
  if DriveLetter p then p
  else if startsWith p uncPrefix then backslash :: backslash :: p.drop 4
  else win32Prefix ++ p

/-- Behind both prefixes `p` is converted to its Win32 path. -/
def ConvertsAlike (p : WideString) : Prop :=
  imDiskNativePathToWin32 (some (dosDevices ++ p)) = some (win32Path p) ∧
    imDiskNativePathToWin32 (some (ntPrefix ++ p)) = some (win32Path p)

/-! ## What comes of a path -/

variable {p : WideString}

/-- What the routine takes for a drive letter: any character in front of a colon. -/
def Drive (p : WideString) : Prop := charAt p 0 ≠ 0 ∧ charAt p 1 = colon

instance (p : WideString) : Decidable (Drive p) := inferInstanceAs (Decidable (_ ∧ _))

theorem DriveLetter.drive (h : DriveLetter p) : Drive p := by
  refine ⟨?_, h.2⟩
  intro hzero
  have hletter := h.1
  rw [hzero] at hletter
  revert hletter
  decide

theorem startsWith_append (s t : WideString) : startsWith (s ++ p) (s ++ t) = startsWith p t := by
  rw [startsWith, startsWith, List.length_append, List.take_length_add_append]
  simp

theorem exists_of_startsWith {literal : WideString} (h : startsWith p literal = true) :
    ∃ rest, p = literal ++ rest := by
  have hsplit := List.take_append_drop literal.length p
  rw [of_decide_eq_true h] at hsplit
  exact ⟨_, hsplit.symm⟩

theorem convertPrefix_ntPrefix (p : WideString) : convertPrefix (ntPrefix ++ p) =
    some (win32Prefix ++ p) := by
  have hstarts : startsWith (ntPrefix ++ p) ntPrefix = true := by simp [startsWith]
  rw [convertPrefix, if_pos hstarts]
  rfl

/-- The question mark is written behind the place where it belongs. -/
theorem convertPrefix_dosDevices (p : WideString) : convertPrefix (dosDevices ++ p) =
    some (wide ['\\', '\\', 's', '?'] ++ p) := by
  have hstarts : startsWith (dosDevices ++ p) dosDevices = true := by simp [startsWith]
  have hother : startsWith (dosDevices ++ p) ntPrefix = false := by
    simp only [startsWith, decide_eq_false_iff_not]
    intro h
    exact (by decide : (0x44 : UInt16) ≠ 0x3F) (congrArg (charAt · 1) h)
  rw [convertPrefix, hother, if_neg Bool.false_ne_true, if_pos hstarts]
  rfl

/-- Behind `\??\`. -/
theorem native_ntPrefix (p : WideString) : imDiskNativePathToWin32 (some (ntPrefix ++ p)) =
    some (if Drive p then p
      else if startsWith p uncPrefix then backslash :: backslash :: p.drop 4
      else win32Prefix ++ p) := by
  rw [imDiskNativePathToWin32, convertPrefix_ntPrefix]
  dsimp only
  rw [shorten, startsWith_append]
  by_cases hdrive : Drive p
  · rw [if_pos hdrive]
    exact congrArg some (if_pos hdrive)
  · rw [if_neg hdrive]
    refine congrArg some ((if_neg hdrive).trans ?_)
    split
    · rename_i hunc
      obtain ⟨rest, rfl⟩ := exists_of_startsWith hunc
      rfl
    · rfl

/-- Behind `\DosDevices\`. -/
theorem native_dosDevices (p : WideString) : imDiskNativePathToWin32 (some (dosDevices ++ p)) =
    some (if Drive p then p else wide ['\\', '\\', 's', '?'] ++ p) := by
  have hother : startsWith (wide ['\\', '\\', 's', '?'] ++ p) (win32Prefix ++ uncPrefix) = false := by
    simp only [startsWith, decide_eq_false_iff_not]
    intro h
    exact (by decide : (0x73 : UInt16) ≠ 0x3F) (congrArg (charAt · 2) h)
  rw [imDiskNativePathToWin32, convertPrefix_dosDevices]
  dsimp only
  rw [shorten, hother]
  by_cases hdrive : Drive p
  · rw [if_pos hdrive]
    exact congrArg some (if_pos hdrive)
  · rw [if_neg hdrive]
    exact congrArg some (if_neg hdrive)

/-- Only a path that is no drive is given more characters or fewer. -/
theorem win32Path_ne_self (h : ¬ DriveLetter p) : win32Path p ≠ p := by
  intro heq
  have hlength := congrArg List.length heq
  rw [win32Path, if_neg h] at hlength
  split at hlength
  · rename_i hunc
    obtain ⟨rest, rfl⟩ := exists_of_startsWith hunc
    simp [uncPrefix, wide] at hlength
  · simp [win32Prefix, wide] at hlength
    omega

theorem dosDevices_ne_win32Path (h : ¬ DriveLetter p) :
    wide ['\\', '\\', 's', '?'] ++ p ≠ win32Path p := by
  intro heq
  rw [win32Path, if_neg h] at heq
  split at heq
  · have hlength := congrArg List.length heq
    simp [wide] at hlength
    omega
  · exact (by decide : (0x73 : UInt16) ≠ 0x3F) (congrArg (charAt · 2) heq)

/-- **The conversions are alike** for the paths that start with a drive letter and a colon, and for no
others. -/
theorem convertsAlike_iff (p : WideString) : ConvertsAlike p ↔ DriveLetter p := by
  constructor
  · rintro ⟨hdos, -⟩
    by_contra hletter
    rw [native_dosDevices] at hdos
    have heq := Option.some.inj hdos
    split at heq
    · exact win32Path_ne_self hletter heq.symm
    · exact dosDevices_ne_win32Path hletter heq
  · intro hletter
    have hwin : win32Path p = p := if_pos hletter
    rw [ConvertsAlike, native_dosDevices, native_ntPrefix, if_pos hletter.drive,
      if_pos hletter.drive, hwin]
    exact ⟨rfl, rfl⟩

/-- `\DosDevices\UNC\srv` becomes `\\s?UNC\srv`. -/
theorem not_convertsAlike_unc : ¬ ConvertsAlike (wide ['U', 'N', 'C', '\\', 's', 'r', 'v']) := by
  rintro ⟨hdos, -⟩
  revert hdos
  decide

end KernelDrivers.ImDisk.NativePath
