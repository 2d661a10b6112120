import KernelDrivers.Fat.RoundTrip

/-!
# Short names and their case

A legal 8.3 name has a base and perhaps an extension.  On disk both are filled up with blanks
and the first byte 0xe5 is written as 0x05.  A name whose base and extension are each of one
case is stored in upper case, with a flag for each of the two; `fatEvaluateNameCase` decides
when that will do and when the name needs a long-name entry.

## Main definitions

* `ShortName` — a legal 8.3 name in its parts.
* `fat8dot3ToStringCased` — `Fat8dot3ToString` with its flags.
* `fatEvaluateNameCase` — the flags of a name.

## Main results

* `shortName_roundTrip` — a legal name is read back as it was written.
* `caseFlags_faithful` — the flags stand in for a long name exactly when they lose nothing.
-/

namespace KernelDrivers.Fat

/-- A legal 8.3 name: no control characters, and neither part ends in a blank. -/
structure ShortName where
  base : List UInt8
  extension : List UInt8
  base_ne_nil : base ≠ []
  base_length : base.length ≤ 8
  extension_length : extension.length ≤ 3
  legal : ∀ b ∈ base ++ extension, 0x20 ≤ b ∧ b ≠ 0x2e
  base_end : base.getLast? ≠ some 0x20
  extension_end : extension.getLast? ≠ some 0x20

/-- The parts of a name with the dot between them. -/
def joinParts (base extension : List UInt8) : List UInt8 :=
  if extension = [] then base else base ++ 0x2e :: extension

def ShortName.toList (n : ShortName) : List UInt8 := joinParts n.base n.extension

/-! ## The reader with its flags -/

/-- `'A'` to `'Z'` in lower case. -/
def lowerByte (b : UInt8) : UInt8 := if 0x41 ≤ b ∧ b ≤ 0x5a then b + 0x20 else b

/-- The loop that restores the case of a part.  A lead byte and the byte after it are left
alone. -/
def restoreCase (isLead : UInt8 → Bool) : List UInt8 → List UInt8
  | [] => []
  | [b] => [if isLead b then b else lowerByte b]
  | b :: t :: bs =>
      if isLead b then b :: t :: restoreCase isLead bs
      else lowerByte b :: restoreCase isLead (t :: bs)

/-- `Dirent->NtByte`. -/
def Dirent.ntByte (d : Dirent) : UInt8 := d.byte 12

/-- `FAT_DIRENT_NT_BYTE_8_LOWER_CASE` and `FAT_DIRENT_NT_BYTE_3_LOWER_CASE`. -/
def ntByte8LowerCase : UInt8 := 0x08
def ntByte3LowerCase : UInt8 := 0x10

/-- `Fat8dot3ToString`, with `isLead` for `FsRtlIsLeadDbcsCharacter`. -/
def fat8dot3ToStringCased (isLead : UInt8 → Bool) (chicagoMode restore : Bool) (d : Dirent) :
    List UInt8 :=
  let base := (d.fileName.take 8).rdropWhile (· = 0x20)
  let extension := (d.fileName.drop 8).rdropWhile (· = 0x20)
  let base := match base with
    | 0x05 :: cs => 0xe5 :: cs
    | cs => cs
  let base := if chicagoMode && restore && d.ntByte &&& ntByte8LowerCase ≠ 0 then
    restoreCase isLead base else base
  let extension := if chicagoMode && restore && d.ntByte &&& ntByte3LowerCase ≠ 0 then
    restoreCase isLead extension else extension
  joinParts base extension

/-! ## Which flags a name gets -/

/-- The variables of the loop in `FatEvaluateNameCase`. -/
structure CaseScan where
  uppers : UInt8
  lowers : UInt8
  extensionPresent : Bool
  allLowerComponent : Bool
  createLfn : Bool

namespace CaseScan

def count (s : CaseScan) (c : UInt16) : CaseScan :=
  if 0x41 ≤ c ∧ c ≤ 0x5a then { s with uppers := s.uppers + 1 }
  else if 0x61 ≤ c ∧ c ≤ 0x7a then { s with lowers := s.lowers + 1 }
  else s

/-- One unit of the name. -/
def next (s : CaseScan) (c : UInt16) : CaseScan :=
  let s := s.count c
  if c = 0x2e then
    let mixed := s.lowers ≠ 0 && s.uppers ≠ 0
    { uppers := 0, lowers := 0, extensionPresent := true,
      allLowerComponent := !mixed && s.lowers ≠ 0, createLfn := mixed }
  else s

/-- The loop.  The flag says that it was left before the end of the name. -/
def loop (codePageInvariant : Bool) (s : CaseScan) : List UInt16 → CaseScan × Bool
  | [] => (s, false)
  | c :: cs => if codePageInvariant ∧ 0x80 ≤ c then (s, true) else loop codePageInvariant (s.next c) cs

end CaseScan

/-- What `FatEvaluateNameCase` returns. -/
structure NameCase where
  allLowerComponent : Bool
  allLowerExtension : Bool
  createLfn : Bool

/-- `FatEvaluateNameCase`. -/
def fatEvaluateNameCase (codePageInvariant : Bool) (name : List UInt16) : NameCase :=
  let (s, left) := CaseScan.loop codePageInvariant ⟨0, 0, false, false, false⟩ name
  let createLfn := s.createLfn || left || (s.lowers ≠ 0 && s.uppers ≠ 0)
  if s.extensionPresent then
    ⟨!createLfn && s.allLowerComponent, !createLfn && s.lowers ≠ 0, createLfn⟩
  else ⟨!createLfn && s.lowers ≠ 0, false, createLfn⟩

/-! ## A legal name on disk and back -/

/-- The first byte as it is on disk. -/
def hideE5 : List UInt8 → List UInt8
  | 0xe5 :: cs => Dirent.really0e5 :: cs
  | cs => cs

/-- The first byte as it is in a string. -/
def showE5 : List UInt8 → List UInt8
  | 0x05 :: cs => 0xe5 :: cs
  | cs => cs

theorem length_hideE5 (l : List UInt8) : (hideE5 l).length = l.length := by
  unfold hideE5
  split <;> rfl

theorem hideE5_append {l : List UInt8} (hne : l ≠ []) (r : List UInt8) :
    hideE5 (l ++ r) = hideE5 l ++ r := by
  cases l with
  | nil => exact absurd rfl hne
  | cons b l =>
      by_cases hb : b = 0xe5
      · subst hb
        rfl
      · have hid : ∀ l' : List UInt8, hideE5 (b :: l') = b :: l' := fun l' => by
          unfold hideE5
          split
          · next h => exact absurd (List.cons.inj h).1 hb
          · rfl
        rw [List.cons_append, hid, hid, List.cons_append]

theorem showE5_hideE5 {l : List UInt8} (hl : ∀ b ∈ l, 0x20 ≤ b) : showE5 (hideE5 l) = l := by
  cases l with
  | nil => rfl
  | cons b l =>
      by_cases hb : b = 0xe5
      · subst hb
        rfl
      · have hid : hideE5 (b :: l) = b :: l := by
          unfold hideE5
          split
          · next h => exact absurd (List.cons.inj h).1 hb
          · rfl
        rw [hid]
        unfold showE5
        split
        · next h =>
            have h5 : b = 0x05 := (List.cons.inj h).1
            subst h5
            exact absurd (hl 0x05 (by simp)) (by decide)
        · rfl

theorem getLast?_hideE5_ne {l : List UInt8} (h : l.getLast? ≠ some 0x20) :
    (hideE5 l).getLast? ≠ some 0x20 := by
  unfold hideE5
  split
  · next cs =>
      cases cs with
      | nil => simp [Dirent.really0e5]
      | cons c cs => simpa using h
  · exact h

/-- Filling up with blanks is undone by dropping them. -/
theorem rdropWhile_fill {l : List UInt8} (h : l.getLast? ≠ some 0x20) (k : ℕ) :
    (l ++ List.replicate k 0x20).rdropWhile (· = 0x20) = l := by
  induction k with
  | zero =>
      rw [List.replicate_zero, List.append_nil, List.rdropWhile_eq_self_iff]
      intro hne
      rw [List.getLast?_eq_some_getLast hne] at h
      simpa using h
  | succ k ih =>
      rw [List.replicate_succ', ← List.append_assoc, List.rdropWhile_concat_pos _ _ _ (by simp), ih]

namespace ShortName

variable (n : ShortName)

theorem takeWhile_toList : n.toList.takeWhile (· ≠ 0x2e) = n.base := by
  have hbase : ∀ b ∈ n.base, decide (b ≠ 0x2e) = true := fun b hb =>
    decide_eq_true (n.legal b (List.mem_append_left _ hb)).2
  rw [toList, joinParts]
  split
  · exact List.takeWhile_eq_self_iff.mpr hbase
  · rw [List.takeWhile_append_of_pos hbase, List.takeWhile_cons_of_neg (by simp), List.append_nil]

theorem drop_toList : n.toList.drop (n.base.length + 1) = n.extension := by
  rw [toList, joinParts]
  split
  · next h =>
      rw [h, List.drop_eq_nil_iff]
      omega
  · rw [List.drop_append, List.drop_of_length_le (by omega), Nat.add_sub_cancel_left]
    rfl

/-- The eleven bytes of a legal name. -/
theorem fatStringTo8dot3_toList :
    fatStringTo8dot3 n.toList =
      (hideE5 n.base ++ List.replicate (8 - n.base.length) 0x20) ++
        (n.extension ++ List.replicate (3 - n.extension.length) 0x20) := by
  have hb := n.base_length
  have he := n.extension_length
  have hout : (n.base ++ List.replicate (11 - n.base.length) 0x20).take 8 =
      n.base ++ List.replicate (8 - n.base.length) 0x20 := by
    rw [List.take_append, List.take_of_length_le hb, List.take_replicate]
    congr 2
    omega
  have hrest : (n.base ++ List.replicate (11 - n.base.length) 0x20).drop (8 + n.extension.length) =
      List.replicate (3 - n.extension.length) 0x20 := by
    rw [List.drop_append, List.drop_of_length_le (by omega), List.nil_append, List.drop_replicate]
    congr 1
    omega
  have hunfold : ∀ s : List UInt8, fatStringTo8dot3 s =
      hideE5 ((((s.takeWhile (· ≠ 0x2e)).take 11 ++
        (List.replicate 11 0x20).drop ((s.takeWhile (· ≠ 0x2e)).take 11).length).take 8) ++
        (s.drop (((s.takeWhile (· ≠ 0x2e)).take 11).length + 1)).take 3 ++
        ((s.takeWhile (· ≠ 0x2e)).take 11 ++
          (List.replicate 11 0x20).drop ((s.takeWhile (· ≠ 0x2e)).take 11).length).drop
            (8 + ((s.drop (((s.takeWhile (· ≠ 0x2e)).take 11).length + 1)).take 3).length)) :=
    fun _ => rfl
  have hbase : (n.toList.takeWhile (· ≠ 0x2e)).take 11 = n.base := by
    rw [takeWhile_toList, List.take_of_length_le (by omega)]
  rw [hunfold, hbase, drop_toList, List.take_of_length_le he, List.drop_replicate, hout, hrest,
    List.append_assoc, List.append_assoc, hideE5_append n.base_ne_nil, List.append_assoc]

theorem length_fatStringTo8dot3 : (fatStringTo8dot3 n.toList).length = 11 := by
  have hb := n.base_length
  have he := n.extension_length
  rw [fatStringTo8dot3_toList]
  simp only [List.length_append, length_hideE5, List.length_replicate]
  omega

/-- The base as the reader finds it. -/
theorem base_read : showE5 (((fatStringTo8dot3 n.toList).take 8).rdropWhile (· = 0x20)) = n.base := by
  have hb := n.base_length
  rw [fatStringTo8dot3_toList, List.take_left' (by simp [length_hideE5]; omega),
    rdropWhile_fill (getLast?_hideE5_ne n.base_end),
    showE5_hideE5 fun b hb => (n.legal b (List.mem_append_left _ hb)).1]

/-- The extension as the reader finds it. -/
theorem extension_read :
    ((fatStringTo8dot3 n.toList).drop 8).rdropWhile (· = 0x20) = n.extension := by
  have hb := n.base_length
  rw [fatStringTo8dot3_toList, List.drop_left' (by simp [length_hideE5]; omega),
    rdropWhile_fill n.extension_end]

theorem fat8dot3ToString_eq {d : Dirent} (hd : d.fileName = fatStringTo8dot3 n.toList) :
    fat8dot3ToString d = n.toList := by
  have hunfold : fat8dot3ToString d =
      joinParts (showE5 ((d.fileName.take 8).rdropWhile (· = 0x20)))
        ((d.fileName.drop 8).rdropWhile (· = 0x20)) := rfl
  rw [hunfold, hd, base_read, extension_read, toList]

/-- Two names with the same eleven bytes have the same parts. -/
theorem toList_injective_fatStringTo8dot3 {m : ShortName}
    (h : fatStringTo8dot3 n.toList = fatStringTo8dot3 m.toList) : n.toList = m.toList := by
  rw [toList, toList, ← base_read n, ← extension_read n, h, base_read, extension_read]

end ShortName

/-- A string that is a legal 8.3 name. -/
def Legal8dot3 (s : List UInt8) : Prop := ∃ n : ShortName, n.toList = s

/-- **Short names round-trip.**  A legal name is read back as it was written, whatever else the
dirent holds, and no other legal name has its eleven bytes. -/
theorem shortName_roundTrip {s : List UInt8} (hs : Legal8dot3 s) :
    (∀ d : Dirent, d.fileName = fatStringTo8dot3 s → fat8dot3ToString d = s) ∧
      ∀ t, Legal8dot3 t → fatStringTo8dot3 t = fatStringTo8dot3 s → t = s := by
  obtain ⟨n, rfl⟩ := hs
  refine ⟨fun d hd => n.fat8dot3ToString_eq hd, ?_⟩
  rintro _ ⟨m, rfl⟩ heq
  exact m.toList_injective_fatStringTo8dot3 heq

/-- The name of the one byte 0xe5 and the extension `A`. -/
def nameE5 : ShortName where
  base := [0xe5]
  extension := [0x41]
  base_ne_nil := by decide
  base_length := by decide
  extension_length := by decide
  legal := List.forall_mem_cons.mpr ⟨by decide, List.forall_mem_cons.mpr ⟨by decide, nofun⟩⟩
  base_end := by decide
  extension_end := by decide

theorem shortName_roundTrip_nameE5 :
    fat8dot3ToString (setFileName ⟨fun _ => 0⟩ (fatStringTo8dot3 [0xe5, 0x2e, 0x41])) =
      [0xe5, 0x2e, 0x41] :=
  (shortName_roundTrip ⟨nameE5, by decide⟩).1 _ (by decide)

/-! ## What the flags restore -/

/-- `'a'` to `'z'` in upper case. -/
def upperByte (b : UInt8) : UInt8 := if 0x61 ≤ b ∧ b ≤ 0x7a then b - 0x20 else b

def isUpper (b : UInt8) : Bool := 0x41 ≤ b ∧ b ≤ 0x5a

def isLower (b : UInt8) : Bool := 0x61 ≤ b ∧ b ≤ 0x7a

theorem upperByte_eq_self_iff (b : UInt8) : upperByte b = b ↔ isLower b = false := by
  rw [upperByte, isLower, decide_eq_false_iff_not]
  split
  · next h =>
      refine iff_of_false (fun heq => ?_) (not_not.mpr h)
      have := congrArg UInt8.toNat heq
      rw [UInt8.le_iff_toNat_le, UInt8.le_iff_toNat_le] at h
      simp only [UInt8.toNat_sub, UInt8.reduceToNat] at this h
      omega
  · next h => exact iff_of_true rfl h

theorem lowerByte_upperByte_eq_self_iff (b : UInt8) :
    lowerByte (upperByte b) = b ↔ isUpper b = false := by
  rw [isUpper, decide_eq_false_iff_not]
  by_cases hl : 0x61 ≤ b ∧ b ≤ 0x7a
  · have hup : upperByte b = b - 0x20 := if_pos hl
    rw [UInt8.le_iff_toNat_le, UInt8.le_iff_toNat_le] at hl
    have hcap : 0x41 ≤ b - 0x20 ∧ b - 0x20 ≤ 0x5a := by
      rw [UInt8.le_iff_toNat_le, UInt8.le_iff_toNat_le, UInt8.toNat_sub]
      simp only [UInt8.reduceToNat] at hl ⊢
      omega
    refine iff_of_true ?_ fun h => ?_
    · rw [hup, lowerByte, if_pos hcap, UInt8.sub_add_cancel]
    · rw [UInt8.le_iff_toNat_le, UInt8.le_iff_toNat_le] at h
      simp only [UInt8.reduceToNat] at hl h
      omega
  · rw [show upperByte b = b from if_neg hl, lowerByte]
    split
    · next h =>
        refine iff_of_false (fun heq => ?_) (not_not.mpr h)
        have := congrArg UInt8.toNat heq
        rw [UInt8.le_iff_toNat_le, UInt8.le_iff_toNat_le] at h
        simp only [UInt8.toNat_add, UInt8.reduceToNat] at this h
        omega
    · next h => exact iff_of_true rfl h

/-- A part in upper case, then in lower case if its flag is set. -/
def casedPart (flag : Bool) (part : List UInt8) : List UInt8 :=
  if flag then part.map (lowerByte ∘ upperByte) else part.map upperByte

theorem map_eq_self_iff {f : UInt8 → UInt8} (l : List UInt8) : l.map f = l ↔ ∀ b ∈ l, f b = b := by
  rw [List.map_eq_iff]
  refine ⟨fun h b hb => ?_, fun h i => ?_⟩
  · obtain ⟨i, hi⟩ := List.mem_iff_getElem?.mp hb
    have := h i
    rw [hi, Option.map_some, Option.some.injEq] at this
    exact this.symm
  · cases hi : l[i]? with
    | none => rfl
    | some b => rw [Option.map_some, h b (List.mem_of_getElem? hi)]

/-- A set flag restores the parts without upper case, a clear one those without lower case. -/
theorem casedPart_eq_self_iff (flag : Bool) (part : List UInt8) :
    casedPart flag part = part ↔
      if flag then part.any isUpper = false else part.any isLower = false := by
  rw [casedPart]
  cases flag with
  | false =>
      simp only [Bool.false_eq_true, if_false]
      rw [map_eq_self_iff, List.any_eq_false]
      exact forall₂_congr fun b _ => by rw [upperByte_eq_self_iff, Bool.not_eq_true]
  | true =>
      simp only [if_true]
      rw [map_eq_self_iff, List.any_eq_false]
      exact forall₂_congr fun b _ => by
        rw [Function.comp_apply, lowerByte_upperByte_eq_self_iff, Bool.not_eq_true]

/-- Restoring the case of bytes none of which is a lead byte. -/
theorem restoreCase_eq_map {isLead : UInt8 → Bool} (l : List UInt8) (h : ∀ b ∈ l, isLead b = false) :
    restoreCase isLead l = l.map lowerByte := by
  induction l with
  | nil => rfl
  | cons b l ih =>
      have hb : isLead b = false := h b List.mem_cons_self
      have htail := ih fun c hc => h c (List.mem_cons_of_mem _ hc)
      cases l with
      | nil => simp [restoreCase, hb]
      | cons c l => rw [restoreCase, hb, if_neg (by simp), htail, List.map_cons, List.map_cons, List.map_cons]

/-! ## Storing and reading -/

/-- A name of bytes below 0x80. -/
def ShortName.Ascii (n : ShortName) : Prop := ∀ b ∈ n.base ++ n.extension, b < 0x80

theorem upperByte_legal {b : UInt8} (h : 0x20 ≤ b ∧ b ≠ 0x2e) :
    0x20 ≤ upperByte b ∧ upperByte b ≠ 0x2e := by
  rw [upperByte]
  split
  · next hl =>
      rw [UInt8.le_iff_toNat_le, UInt8.le_iff_toNat_le] at hl
      rw [UInt8.le_iff_toNat_le, ne_eq, ← UInt8.toNat_inj, UInt8.toNat_sub]
      simp only [UInt8.reduceToNat] at hl ⊢
      omega
  · exact h

theorem upperByte_eq_blank {b : UInt8} (h : upperByte b = 0x20) : b = 0x20 := by
  rw [upperByte] at h
  split at h
  · next hl =>
      rw [UInt8.le_iff_toNat_le, UInt8.le_iff_toNat_le] at hl
      rw [← UInt8.toNat_inj, UInt8.toNat_sub] at h
      simp only [UInt8.reduceToNat] at hl h
      omega
  · exact h

theorem getLast?_map_upperByte {l : List UInt8} (h : l.getLast? ≠ some 0x20) :
    (l.map upperByte).getLast? ≠ some 0x20 := by
  rw [List.getLast?_map]
  intro hlast
  obtain ⟨b, hb, hblank⟩ := Option.map_eq_some_iff.mp hlast
  exact h (by rw [hb, upperByte_eq_blank hblank])

/-- The name in upper case, as it is stored. -/
def ShortName.upcase (n : ShortName) : ShortName where
  base := n.base.map upperByte
  extension := n.extension.map upperByte
  base_ne_nil := by simpa using n.base_ne_nil
  base_length := by simpa using n.base_length
  extension_length := by simpa using n.extension_length
  legal := by
    intro b hb
    rw [← List.map_append] at hb
    obtain ⟨c, hc, rfl⟩ := List.mem_map.mp hb
    exact upperByte_legal (n.legal c hc)
  base_end := getLast?_map_upperByte n.base_end
  extension_end := getLast?_map_upperByte n.extension_end

section Stored

variable (clock : Clock) (f : DirentFields) (d : Dirent)

theorem byte_setTimeFields {o : Fin 32} (ho : o.val < 11) (chicagoMode zeroAndSetTimeFields : Bool)
    (setCreationTime : Option ℤ) (d : Dirent) :
    (setTimeFields clock chicagoMode zeroAndSetTimeFields setCreationTime d).byte o = d.byte o := by
  have hne : ∀ p : Fin 32, 11 ≤ p.val → o ≠ p := fun p hp => by
    rintro rfl
    omega
  cases chicagoMode <;> cases zeroAndSetTimeFields <;>
    simp [setTimeFields, setCreationFields, Dirent.setWord, Dirent.setByte, hne]

theorem byte_constructShort (chicagoMode : Bool) {o : Fin 32} (ho : o.val < 11) :
    (constructShort clock chicagoMode f d).byte o = (fatStringTo8dot3 f.fileName).getD o.val 0 := by
  have hne : ∀ p : Fin 32, 11 ≤ p.val → o ≠ p := fun p hp => by
    rintro rfl
    omega
  simp only [constructShort]
  rw [byte_setByte_of_ne _ (hne _ (by decide)), byte_setByte_of_ne _ (hne _ (by decide))]
  split
  · rw [byte_setTimeFields clock ho]
    exact if_pos ho
  · exact if_pos ho

/-- The eleven bytes of a dirent that was constructed for a legal name. -/
theorem fileName_constructShort (chicagoMode : Bool)
    (hlen : (fatStringTo8dot3 f.fileName).length = 11) :
    (constructShort clock chicagoMode f d).fileName = fatStringTo8dot3 f.fileName := by
  rw [Dirent.fileName]
  refine List.ext_getElem (by simp [hlen]) fun i hi hi' => ?_
  have hi11 : i < 11 := by simpa using hi
  have hbyte : ∀ o : Fin 32, o.val < 11 →
      (constructShort clock chicagoMode f d).byte o = (fatStringTo8dot3 f.fileName).getD o.val 0 :=
    fun o ho => byte_constructShort clock f d chicagoMode ho
  have hget : (fatStringTo8dot3 f.fileName)[i] = (fatStringTo8dot3 f.fileName).getD i 0 := by
    rw [List.getD, List.getElem?_eq_getElem hi', Option.getD_some]
  rw [List.getElem_map, hget]
  interval_cases i <;> exact hbyte _ (by simp)

theorem ntByte_constructShort (chicagoMode : Bool) :
    (constructShort clock chicagoMode f d).ntByte =
      ((if f.componentReallyLowercase then 0x08 else 0) |||
        (if f.extensionReallyLowercase then 0x10 else 0)) := by
  simp [constructShort, Dirent.ntByte, Dirent.setByte]

end Stored

section Read

variable {isLead : UInt8 → Bool}

theorem ShortName.Ascii.lt_upcase {n : ShortName} (hascii : n.Ascii) :
    ∀ b ∈ n.upcase.base ++ n.upcase.extension, b < 0x80 := by
  intro b hb
  have hmap : b ∈ (n.base ++ n.extension).map upperByte := by
    rwa [List.map_append]
  obtain ⟨c, hc, rfl⟩ := List.mem_map.mp hmap
  have hlt := hascii c hc
  rw [upperByte]
  split
  · next hl =>
      rw [UInt8.le_iff_toNat_le, UInt8.le_iff_toNat_le] at hl
      rw [UInt8.lt_iff_toNat_lt, UInt8.toNat_sub]
      simp only [UInt8.reduceToNat] at hl ⊢
      omega
  · exact hlt

/-- A part of the stored name with the case that its flag restores. -/
theorem restore_part (hlead : ∀ b, b < 0x80 → isLead b = false) {part : List UInt8}
    (hpart : ∀ b ∈ part.map upperByte, b < 0x80)
    (flag : Bool) :
    (if flag then restoreCase isLead (part.map upperByte) else part.map upperByte) =
      casedPart flag part := by
  rw [casedPart, restoreCase_eq_map _ fun b hb => hlead b (hpart b hb), List.map_map]

/-- The name that is read from a dirent with the upper-case name and the two flags. -/
theorem fat8dot3ToStringCased_eq (hlead : ∀ b, b < 0x80 → isLead b = false) {n : ShortName}
    (hascii : n.Ascii) {d : Dirent}
    (hname : d.fileName = fatStringTo8dot3 n.upcase.toList) (c e : Bool)
    (hbyte : d.ntByte = ((if c then 0x08 else 0) ||| (if e then 0x10 else 0))) :
    fat8dot3ToStringCased isLead true true d =
      joinParts (casedPart c n.base) (casedPart e n.extension) := by
  have hunfold : fat8dot3ToStringCased isLead true true d =
      joinParts (if (true && true && decide (d.ntByte &&& ntByte8LowerCase ≠ 0)) = true then
          restoreCase isLead (showE5 ((d.fileName.take 8).rdropWhile (· = 0x20)))
        else showE5 ((d.fileName.take 8).rdropWhile (· = 0x20)))
      (if (true && true && decide (d.ntByte &&& ntByte3LowerCase ≠ 0)) = true then
          restoreCase isLead ((d.fileName.drop 8).rdropWhile (· = 0x20))
        else (d.fileName.drop 8).rdropWhile (· = 0x20)) := rfl
  have hflag8 : (true && true && decide (d.ntByte &&& ntByte8LowerCase ≠ 0)) = c := by
    rw [hbyte]
    cases c <;> cases e <;> rfl
  have hflag3 : (true && true && decide (d.ntByte &&& ntByte3LowerCase ≠ 0)) = e := by
    rw [hbyte]
    cases c <;> cases e <;> rfl
  have hup := hascii.lt_upcase
  rw [hunfold, hflag8, hflag3, hname, ShortName.base_read, ShortName.extension_read]
  congr 1
  · exact restore_part hlead (fun b hb => hup b (List.mem_append_left _ hb)) c
  · exact restore_part hlead (fun b hb => hup b (List.mem_append_right _ hb)) e

theorem length_casedPart (flag : Bool) (part : List UInt8) :
    (casedPart flag part).length = part.length := by
  rw [casedPart]
  split <;> rw [List.length_map]

theorem joinParts_casedPart_iff (n : ShortName) (c e : Bool) :
    joinParts (casedPart c n.base) (casedPart e n.extension) = n.toList ↔
      casedPart c n.base = n.base ∧ casedPart e n.extension = n.extension := by
  have hnil : casedPart e n.extension = [] ↔ n.extension = [] := by
    rw [← List.length_eq_zero_iff, length_casedPart, List.length_eq_zero_iff]
  rw [ShortName.toList, joinParts, joinParts]
  by_cases hext : n.extension = []
  · rw [if_pos (hnil.mpr hext), if_pos hext]
    exact (and_iff_left (by rw [hnil.mpr hext, hext])).symm
  · rw [if_neg (mt hnil.mp hext), if_neg hext]
    constructor
    · intro h
      obtain ⟨hbase, hrest⟩ := List.append_inj h (length_casedPart c n.base)
      exact ⟨hbase, (List.cons.inj hrest).2⟩
    · rintro ⟨hbase, hrest⟩
      rw [hbase, hrest]

end Read

/-! ## What the evaluator answers -/

/-- A part with letters of both cases. -/
def mixedCase (part : List UInt8) : Bool := part.any isLower && part.any isUpper

theorem toUInt16_le_iff (a b : UInt8) : a.toUInt16 ≤ b.toUInt16 ↔ a ≤ b := by
  rw [UInt16.le_iff_toNat_le, UInt8.le_iff_toNat_le, UInt8.toNat_toUInt16, UInt8.toNat_toUInt16]

namespace CaseScan

theorem count_toUInt16 (s : CaseScan) (b : UInt8) :
    s.count b.toUInt16 =
      { s with
        uppers := if isUpper b then s.uppers + 1 else s.uppers
        lowers := if isLower b then s.lowers + 1 else s.lowers } := by
  have hup : (0x41 ≤ b.toUInt16 ∧ b.toUInt16 ≤ 0x5a) ↔ isUpper b = true := by
    rw [isUpper, decide_eq_true_eq, ← toUInt16_le_iff 0x41, ← toUInt16_le_iff b 0x5a]
    rfl
  have hlow : (0x61 ≤ b.toUInt16 ∧ b.toUInt16 ≤ 0x7a) ↔ isLower b = true := by
    rw [isLower, decide_eq_true_eq, ← toUInt16_le_iff 0x61, ← toUInt16_le_iff b 0x7a]
    rfl
  have hboth : isUpper b = true → isLower b = false := by
    rw [isUpper, isLower, decide_eq_true_eq, decide_eq_false_iff_not]
    rintro ⟨-, h⟩ ⟨h', -⟩
    rw [UInt8.le_iff_toNat_le] at h h'
    simp only [UInt8.reduceToNat] at h h'
    omega
  simp only [count, hup, hlow]
  cases hu : isUpper b with
  | true => simp [hboth hu]
  | false => cases hl : isLower b <;> simp

/-- The loop over a part: no unit leaves it, and the letters are counted. -/
theorem loop_part (s : CaseScan) (part : List UInt8)
    (hpart : ∀ b ∈ part, b < 0x80 ∧ b ≠ 0x2e) (rest : List UInt16) :
    loop true s (part.map UInt8.toUInt16 ++ rest) =
      loop true { s with
        uppers := s.uppers + UInt8.ofNat (part.countP isUpper)
        lowers := s.lowers + UInt8.ofNat (part.countP isLower) } rest := by
  induction part generalizing s with
  | nil => simp
  | cons b part ih =>
      have hb := hpart b List.mem_cons_self
      have hlow : ¬ 0x80 ≤ b.toUInt16 := by
        rw [show (0x80 : UInt16) = (0x80 : UInt8).toUInt16 by rfl, toUInt16_le_iff]
        exact UInt8.not_le.mpr hb.1
      have hdot : b.toUInt16 ≠ 0x2e := by
        rw [show (0x2e : UInt16) = (0x2e : UInt8).toUInt16 by rfl]
        intro heq
        apply hb.2
        have := congrArg UInt16.toNat heq
        rw [UInt8.toNat_toUInt16, UInt8.toNat_toUInt16] at this
        exact UInt8.toNat_inj.mp this
      rw [List.map_cons, List.cons_append, loop, if_neg (by simpa using hlow), next]
      simp only [hdot, if_false]
      rw [ih _ fun c hc => hpart c (List.mem_cons_of_mem _ hc), count_toUInt16]
      congr 2
      · rw [List.countP_cons]
        cases isUpper b
        · simp
        · simp only [if_true, UInt8.ofNat_add, UInt8.add_assoc, UInt8.reduceOfNat]
          rw [UInt8.add_comm 1]
      · rw [List.countP_cons]
        cases isLower b
        · simp
        · simp only [if_true, UInt8.ofNat_add, UInt8.add_assoc, UInt8.reduceOfNat]
          rw [UInt8.add_comm 1]

end CaseScan

/-- A count of at most eight does not wrap. -/
theorem ofNat_countP_ne_zero (p : UInt8 → Bool) {part : List UInt8} (hlen : part.length ≤ 8) :
    decide (0 + UInt8.ofNat (part.countP p) ≠ 0) = part.any p := by
  have hle : part.countP p ≤ part.length := List.countP_le_length
  rw [UInt8.zero_add, Bool.eq_iff_iff, decide_eq_true_eq, ne_eq, ← UInt8.toNat_inj,
    UInt8.toNat_ofNat', List.any_eq_true, ← List.countP_pos_iff]
  simp only [UInt8.reduceToNat]
  omega

/-- The answer for an ASCII name: a long name if a part is of mixed case, else the parts that
have letters in lower case. -/
theorem fatEvaluateNameCase_toUInt16 {n : ShortName} (hascii : n.Ascii) :
    fatEvaluateNameCase true (n.toList.map UInt8.toUInt16) =
      { allLowerComponent :=
          !(mixedCase n.base || mixedCase n.extension) && n.base.any isLower
        allLowerExtension :=
          !(mixedCase n.base || mixedCase n.extension) && n.extension.any isLower
        createLfn := mixedCase n.base || mixedCase n.extension } := by
  have hbase : ∀ b ∈ n.base, b < 0x80 ∧ b ≠ 0x2e := fun b hb =>
    ⟨hascii b (List.mem_append_left _ hb), (n.legal b (List.mem_append_left _ hb)).2⟩
  have hext : ∀ b ∈ n.extension, b < 0x80 ∧ b ≠ 0x2e := fun b hb =>
    ⟨hascii b (List.mem_append_right _ hb), (n.legal b (List.mem_append_right _ hb)).2⟩
  have hblen := n.base_length
  have helen : n.extension.length ≤ 8 := n.extension_length.trans (by norm_num)
  rw [ShortName.toList, joinParts, fatEvaluateNameCase]
  by_cases hnil : n.extension = []
  · rw [if_pos hnil, ← List.append_nil (n.base.map _), CaseScan.loop_part _ _ hbase, CaseScan.loop]
    simp only [ofNat_countP_ne_zero _ hblen, hnil]
    simp [mixedCase]
  · rw [if_neg hnil, List.map_append, CaseScan.loop_part _ _ hbase, List.map_cons, CaseScan.loop,
      if_neg (by decide), CaseScan.next, ← List.append_nil (n.extension.map _),
      CaseScan.loop_part _ _ hext, CaseScan.loop]
    have hcount : ∀ s : CaseScan, s.count 0x2e = s := fun _ => rfl
    simp only [show UInt8.toUInt16 0x2e = 0x2e by rfl, hcount, if_true,
      ofNat_countP_ne_zero _ hblen, ofNat_countP_ne_zero _ helen, mixedCase]
    cases n.base.any isLower <;> cases n.base.any isUpper <;> cases n.extension.any isLower <;>
      cases n.extension.any isUpper <;> rfl

/-- The name that is read from slot `i` after `FatConstructDirent` wrote it with two flags and
without a long name. -/
def storedName (isLead : UInt8 → Bool) (clock : Clock) (f : DirentFields) (i : ℕ)
    (ds : List Dirent) (component extension : Bool) : Option (List UInt8) :=
  (fatConstructDirent clock true
    { f with
      componentReallyLowercase := component
      extensionReallyLowercase := extension } none i ds)[i]?.map
    (fat8dot3ToStringCased isLead true true)

/-- The flags bring a name back exactly when each part is of the case its flag says. -/
theorem storedName_eq_iff {isLead : UInt8 → Bool} (hlead : ∀ b, b < 0x80 → isLead b = false)
    {n : ShortName} (hascii : n.Ascii) (clock : Clock) {f : DirentFields}
    (hf : f.fileName = n.upcase.toList) {i : ℕ} {ds : List Dirent} (hi : i < ds.length)
    (c e : Bool) :
    storedName isLead clock f i ds c e = some n.toList ↔
      (if c then n.base.any isUpper = false else n.base.any isLower = false) ∧
        if e then n.extension.any isUpper = false else n.extension.any isLower = false := by
  have hslot : (fatConstructDirent clock true { f with
      componentReallyLowercase := c, extensionReallyLowercase := e } none i ds)[i]? =
      some (constructShort clock true { f with
        componentReallyLowercase := c, extensionReallyLowercase := e } ds[i]) := by
    rw [fatConstructDirent, List.getElem?_eq_getElem hi]
    simp [hi]
  have hname := fileName_constructShort clock { f with
    componentReallyLowercase := c, extensionReallyLowercase := e } ds[i] true
    (by rw [hf]; exact n.upcase.length_fatStringTo8dot3)
  replace hname := hname.trans (congrArg fatStringTo8dot3 hf)
  rw [storedName, hslot, Option.map_some, Option.some.injEq,
    fat8dot3ToStringCased_eq hlead hascii hname c e (ntByte_constructShort clock _ _ true),
    joinParts_casedPart_iff, casedPart_eq_self_iff, casedPart_eq_self_iff]

/-- **Case flags replace a long name only when they lose nothing.**  If the evaluator asks for no
long name, its flags bring back the name as it was given; if it asks for one, no flags would. -/
theorem caseFlags_faithful {isLead : UInt8 → Bool} (hlead : ∀ b, b < 0x80 → isLead b = false)
    {n : ShortName} (hascii : n.Ascii) (clock : Clock) {f : DirentFields}
    (hf : f.fileName = n.upcase.toList) {i : ℕ} {ds : List Dirent} (hi : i < ds.length) :
    let answer := fatEvaluateNameCase true (n.toList.map UInt8.toUInt16)
    (answer.createLfn = false →
      storedName isLead clock f i ds answer.allLowerComponent answer.allLowerExtension =
        some n.toList) ∧
    (answer.createLfn = true → ∀ c e, storedName isLead clock f i ds c e ≠ some n.toList) := by
  dsimp only
  rw [fatEvaluateNameCase_toUInt16 hascii]
  constructor
  · intro hno
    obtain ⟨hbase, hext⟩ := Bool.or_eq_false_iff.mp hno
    rw [storedName_eq_iff hlead hascii clock hf hi]
    rw [mixedCase] at hbase hext
    simp only [mixedCase, hbase, hext, Bool.or_self, Bool.not_false, Bool.true_and]
    constructor
    · cases hl : n.base.any isLower <;> simp_all
    · cases hl : n.extension.any isLower <;> simp_all
  · intro hlfn c e hread
    obtain ⟨hbase, hext⟩ := (storedName_eq_iff hlead hascii clock hf hi c e).mp hread
    have hunmixed : ∀ (flag : Bool) (part : List UInt8),
        (if flag then part.any isUpper = false else part.any isLower = false) →
        mixedCase part = false := by
      intro flag part h
      cases flag with
      | false => rw [mixedCase, show part.any isLower = false from h, Bool.false_and]
      | true => rw [mixedCase, show part.any isUpper = false from h, Bool.and_false]
    rw [hunmixed c _ hbase, hunmixed e _ hext] at hlfn
    exact Bool.noConfusion hlfn

/-- The name `a.B`. -/
def nameAB : ShortName where
  base := [0x61]
  extension := [0x42]
  base_ne_nil := by decide
  base_length := by decide
  extension_length := by decide
  legal := List.forall_mem_cons.mpr ⟨by decide, List.forall_mem_cons.mpr ⟨by decide, nofun⟩⟩
  base_end := by decide
  extension_end := by decide

/-- It is stored as `A.B` with the flag of the base. -/
theorem caseFlags_faithful_nameAB :
    storedName (fun b => decide (0x81 ≤ b)) ⟨0, fun _ _ => none⟩
      ⟨[0x41, 0x2e, 0x42], false, false, 0x20, true, none⟩ 0 [⟨fun _ => 0⟩] true false =
      some [0x61, 0x2e, 0x42] := by
  have hlead : ∀ b : UInt8, b < 0x80 → decide (0x81 ≤ b) = false := by
    intro b hb
    rw [decide_eq_false_iff_not, UInt8.le_iff_toNat_le]
    rw [UInt8.lt_iff_toNat_lt] at hb
    simp only [UInt8.reduceToNat] at hb ⊢
    omega
  have hascii : nameAB.Ascii :=
    List.forall_mem_cons.mpr ⟨by decide, List.forall_mem_cons.mpr ⟨by decide, nofun⟩⟩
  exact (caseFlags_faithful hlead hascii ⟨0, fun _ _ => none⟩ (by decide)
    (by decide)).1 (by decide)

end KernelDrivers.Fat
