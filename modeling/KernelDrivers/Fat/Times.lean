import KernelDrivers.Fat.Dirent
import KernelDrivers.Lib.Gregorian
import KernelDrivers.Lib.Signed

/-!
# Time stamps

An NT time counts ticks of 100 ns from 1601.  A dirent holds local time: a date from 1980 to
2107, and the time of day in steps of two seconds, with a byte that can say how many steps of
10 ms lie between.  `fatNtTimeToFatTime` also writes the rounded time back to its argument.

## Main definitions

* `TimeZone` — the local bias.
* `TimeFields` — a time in parts, and its conversions.
* `fatNtTimeToFatTime`, `fatFatTimeToNtTime` — the routines.
* `ConvertsRight` — a conversion that round-trips, rounds as it should and leaves a time it
  refuses alone.

## Main results

* `convertsRight_iff` — when a conversion does so.
-/

namespace KernelDrivers.Fat

open Gregorian Signed

/-- The bias between system and local time: whole minutes, less than a day. -/
structure TimeZone where
  bias : Int64
  whole : 600000000 ∣ bias.toInt
  bounded : |bias.toInt| < 864000000000

/-- `ExSystemTimeToLocalTime`. -/
def TimeZone.exSystemTimeToLocalTime (zone : TimeZone) (t : Int64) : Int64 := t - zone.bias

/-- `ExLocalTimeToSystemTime`. -/
def TimeZone.exLocalTimeToSystemTime (zone : TimeZone) (t : Int64) : Int64 := t + zone.bias

/-- `TIME_FIELDS`. -/
structure TimeFields where
  date : Date
  hour : ℕ
  minute : ℕ
  second : ℕ
  milliseconds : ℕ
  deriving DecidableEq

/-- The fields are those of a time that has fields. -/
def TimeFields.Valid (f : TimeFields) : Prop :=
  f.date.Valid ∧ 1601 ≤ f.date.year ∧ f.date.year ≤ 30827 ∧
    f.hour < 24 ∧ f.minute < 60 ∧ f.second < 60 ∧ f.milliseconds < 1000

instance (f : TimeFields) : Decidable f.Valid :=
  inferInstanceAs (Decidable (_ ∧ _ ∧ _ ∧ _ ∧ _ ∧ _ ∧ _))

def TimeFields.ticks (f : TimeFields) : ℤ :=
  864000000000 * f.date.toDays + 36000000000 * f.hour + 600000000 * f.minute +
    10000000 * f.second + 10000 * f.milliseconds

/-- `RtlTimeToTimeFields`. -/
def rtlTimeToTimeFields (t : Int64) : TimeFields where
  date := ofDays (t.toInt / 864000000000)
  hour := (t.toInt % 864000000000 / 36000000000).toNat
  minute := (t.toInt % 36000000000 / 600000000).toNat
  second := (t.toInt % 600000000 / 10000000).toNat
  milliseconds := (t.toInt % 10000000 / 10000).toNat

/-- `RtlTimeFieldsToTime`. -/
def rtlTimeFieldsToTime (f : TimeFields) : Option Int64 :=
  if f.Valid then some (Int64.ofInt f.ticks) else none

/-- `FAT_TIME_STAMP`. -/
structure FatTimeStamp where
  doubleSeconds : BitVec 5
  minute : BitVec 6
  hour : BitVec 5
  day : BitVec 5
  month : BitVec 4
  year : BitVec 7
  deriving DecidableEq

/-- What `FatNtTimeToFatTime` leaves in the caller's time, and what it produces: the time stamp
and the tens of milliseconds. -/
structure Converted where
  ntTime : Int64
  stamp : Option (FatTimeStamp × UInt8)
  deriving DecidableEq

/-- `AlmostTwoSeconds`. -/
def almostTwoSeconds : Int64 := 19999999

/-- The year does not fit into a dirent. -/
def yearOutOfRange (f : TimeFields) : Prop := f.date.year < 1980 ∨ 1980 + 127 < f.date.year

instance (f : TimeFields) : Decidable (yearOutOfRange f) :=
  inferInstanceAs (Decidable (_ ∨ _))

/-- The local time that is taken apart. -/
def localTime (zone : TimeZone) (rounding : Bool) (ntTime : Int64) : Int64 :=
  zone.exSystemTimeToLocalTime (if rounding then ntTime + almostTwoSeconds else ntTime)

/-- The fields that the range check looks at. -/
def localFields (zone : TimeZone) (rounding : Bool) (ntTime : Int64) : TimeFields :=
  rtlTimeToTimeFields (localTime zone rounding ntTime)

/-- The time stamp that takes over the fields. -/
def stampOf (f : TimeFields) : FatTimeStamp where
  doubleSeconds := BitVec.ofNat 5 (f.second / 2)
  minute := BitVec.ofNat 6 f.minute
  hour := BitVec.ofNat 5 f.hour
  day := BitVec.ofNat 5 f.date.day
  month := BitVec.ofNat 4 f.date.month
  year := BitVec.ofInt 7 (f.date.year - 1980)

/-- `*TenMsecs`. -/
def tenMsecsOf (rounding : Bool) (f : TimeFields) : UInt8 :=
  if rounding then 0 else UInt8.ofNat (f.milliseconds / 10 + f.second % 2 * 100)

/-- The fields without what FAT cannot hold. -/
def cutFields (rounding : Bool) (f : TimeFields) : TimeFields :=
  if rounding then { f with milliseconds := 0, second := f.second - f.second % 2 }
  else { f with milliseconds := f.milliseconds - f.milliseconds % 10 }

/-- `FatNtTimeToFatTime`. -/
def fatNtTimeToFatTime (zone : TimeZone) (rounding : Bool) (ntTime : Int64) : Converted :=
  let ntTime := if rounding then ntTime + almostTwoSeconds else ntTime
  let ntTime := zone.exSystemTimeToLocalTime ntTime
  let f := rtlTimeToTimeFields ntTime
  if yearOutOfRange f then ⟨zone.exLocalTimeToSystemTime ntTime, none⟩
  else
    -- a failed conversion back would leave the local time in place
    let ntTime := (rtlTimeFieldsToTime (cutFields rounding f)).getD ntTime
    ⟨zone.exLocalTimeToSystemTime ntTime, some (stampOf f, tenMsecsOf rounding f)⟩

/-- The fields that `FatFatTimeToNtTime` packs. -/
def packedFields (fatTime : FatTimeStamp) (tenMilliSeconds : UInt8) : TimeFields where
  date := ⟨fatTime.year.toNat + 1980, fatTime.month.toNat, fatTime.day.toNat⟩
  hour := fatTime.hour.toNat
  minute := fatTime.minute.toNat
  second := fatTime.doubleSeconds.toNat * 2 + tenMilliSeconds.toNat / 100
  milliseconds := tenMilliSeconds.toNat % 100 * 10

/-- `FatFatTimeToNtTime`. -/
def fatFatTimeToNtTime (zone : TimeZone) (fatTime : FatTimeStamp) (tenMilliSeconds : UInt8) :
    Int64 :=
  let f := packedFields fatTime tenMilliSeconds
  let f := if 59 < f.second then { f with second := 0 } else f
  match rtlTimeFieldsToTime f with
  | none => 0
  | some t => zone.exLocalTimeToSystemTime t

/-! ## What a conversion should do -/

/-- What is said of a conversion of `t`.  If the time fits, the conversion back gives the time
that was written back, which is `t` rounded as it should be and its own conversion.  A time that
does not fit is left alone. -/
def Converted.Right (zone : TimeZone) (rounding : Bool) (t : Int64) (done : Converted) : Prop :=
  match done.stamp with
  | some (stamp, tenMsecs) =>
      fatFatTimeToNtTime zone stamp tenMsecs = done.ntTime ∧
        (if rounding then IsLeast {x : ℤ | t.toInt ≤ x ∧ 20000000 ∣ x} done.ntTime.toInt
          else IsGreatest {x : ℤ | x ≤ t.toInt ∧ 100000 ∣ x} done.ntTime.toInt) ∧
        fatNtTimeToFatTime zone rounding done.ntTime = done
  | none => done.ntTime = t

def ConvertsRight (zone : TimeZone) (rounding : Bool) (t : Int64) : Prop :=
  (fatNtTimeToFatTime zone rounding t).Right zone rounding t

/-! ## Fields and ticks -/

/-- What FAT can hold, in ticks. -/
def unitTicks (rounding : Bool) : ℤ := if rounding then 20000000 else 100000

theorem unitTicks_nonneg (rounding : Bool) : 0 ≤ unitTicks rounding := by
  cases rounding with
  | false => norm_num [unitTicks]
  | true => norm_num [unitTicks]

section Fields

variable (rounding : Bool) (t : Int64)

theorem fields_bounds :
    (rtlTimeToTimeFields t).hour < 24 ∧ (rtlTimeToTimeFields t).minute < 60 ∧
      (rtlTimeToTimeFields t).second < 60 ∧ (rtlTimeToTimeFields t).milliseconds < 1000 := by
  refine ⟨?_, ?_, ?_, ?_⟩ <;> simp only [rtlTimeToTimeFields] <;> omega

/-- The fields that are left stand for the time without the rest of its unit. -/
theorem ticks_cutFields :
    (cutFields rounding (rtlTimeToTimeFields t)).ticks = t.toInt - t.toInt % unitTicks rounding := by
  have hhour : ((t.toInt % 864000000000 / 36000000000).toNat : ℤ) =
      t.toInt % 864000000000 / 36000000000 := Int.toNat_of_nonneg (by omega)
  have hminute : ((t.toInt % 36000000000 / 600000000).toNat : ℤ) =
      t.toInt % 36000000000 / 600000000 := Int.toNat_of_nonneg (by omega)
  cases rounding with
  | false =>
      have hms : (((t.toInt % 10000000 / 10000).toNat - (t.toInt % 10000000 / 10000).toNat % 10 :
          ℕ) : ℤ) = t.toInt % 10000000 / 100000 * 10 := by
        omega
      have hsecond : ((t.toInt % 600000000 / 10000000).toNat : ℤ) =
          t.toInt % 600000000 / 10000000 := Int.toNat_of_nonneg (by omega)
      simp only [cutFields, rtlTimeToTimeFields, TimeFields.ticks, toDays_ofDays, unitTicks,
        Bool.false_eq_true, if_false, hhour, hminute, hsecond, hms]
      omega
  | true =>
      have hsecond : (((t.toInt % 600000000 / 10000000).toNat -
          (t.toInt % 600000000 / 10000000).toNat % 2 : ℕ) : ℤ) =
          t.toInt % 600000000 / 20000000 * 2 := by
        omega
      simp only [cutFields, rtlTimeToTimeFields, TimeFields.ticks, toDays_ofDays, unitTicks,
        if_true, hhour, hminute, hsecond]
      omega

theorem valid_cutFields (h : ¬ yearOutOfRange (rtlTimeToTimeFields t)) :
    (cutFields rounding (rtlTimeToTimeFields t)).Valid := by
  obtain ⟨hhour, hminute, hsecond, hms⟩ := fields_bounds t
  rw [yearOutOfRange] at h
  have hdate : (rtlTimeToTimeFields t).date.Valid := valid_ofDays _
  cases rounding <;> simp only [cutFields, Bool.false_eq_true, if_false, if_true]
  · exact ⟨hdate, by dsimp only; omega, by dsimp only; omega, hhour, hminute, hsecond,
      by dsimp only; omega⟩
  · exact ⟨hdate, by dsimp only; omega, by dsimp only; omega, hhour, hminute,
      by dsimp only; omega, by norm_num⟩

/-- Times of one unit have the same date, the same stamp and the same tens of milliseconds, and
leave the same fields. -/
theorem fields_congr {t t' : Int64} (h : t.toInt / unitTicks rounding = t'.toInt / unitTicks rounding) :
    (rtlTimeToTimeFields t).date = (rtlTimeToTimeFields t').date ∧
      stampOf (rtlTimeToTimeFields t) = stampOf (rtlTimeToTimeFields t') ∧
      tenMsecsOf rounding (rtlTimeToTimeFields t) = tenMsecsOf rounding (rtlTimeToTimeFields t') ∧
      cutFields rounding (rtlTimeToTimeFields t) = cutFields rounding (rtlTimeToTimeFields t') := by
  -- a coarser unit is a number of finer ones
  have hcoarse : ∀ k : ℤ, t.toInt / (unitTicks rounding * k) = t'.toInt / (unitTicks rounding * k) := by
    intro k
    rw [← Int.ediv_ediv_of_nonneg (unitTicks_nonneg rounding), h,
      Int.ediv_ediv_of_nonneg (unitTicks_nonneg rounding)]
  have hscale : ∀ n : ℤ, t.toInt / (20000000 * n) = t'.toInt / (20000000 * n) := by
    intro n
    cases rounding with
    | false =>
        have hunit := hcoarse (200 * n)
        rwa [unitTicks, if_neg (by simp), ← mul_assoc] at hunit
    | true =>
        have hunit := hcoarse n
        rwa [unitTicks, if_pos rfl] at hunit
  have hday : t.toInt / 864000000000 = t'.toInt / 864000000000 := hscale 43200
  have hdate : (rtlTimeToTimeFields t).date = (rtlTimeToTimeFields t').date :=
    congrArg ofDays hday
  have hhour : (rtlTimeToTimeFields t).hour = (rtlTimeToTimeFields t').hour := by
    have hunit : t.toInt / 36000000000 = t'.toInt / 36000000000 := hscale 1800
    have hpart : ∀ x : ℤ, x % 864000000000 / 36000000000 = x / 36000000000 % 24 := by
      intro x
      omega
    simp only [rtlTimeToTimeFields, hpart, hunit]
  have hminute : (rtlTimeToTimeFields t).minute = (rtlTimeToTimeFields t').minute := by
    have hunit : t.toInt / 600000000 = t'.toInt / 600000000 := hscale 30
    have hpart : ∀ x : ℤ, x % 36000000000 / 600000000 = x / 600000000 % 60 := by
      intro x
      omega
    simp only [rtlTimeToTimeFields, hpart, hunit]
  have hdouble : (rtlTimeToTimeFields t).second / 2 = (rtlTimeToTimeFields t').second / 2 := by
    have hunit : t.toInt / 20000000 = t'.toInt / 20000000 := hscale 1
    have hpart : ∀ x : ℤ, (x % 600000000 / 10000000).toNat / 2 = (x / 20000000 % 30).toNat := by
      intro x
      omega
    simp only [rtlTimeToTimeFields, hpart, hunit]
  refine ⟨hdate, ?_, ?_, ?_⟩
  · rw [stampOf, stampOf, hdate, hhour, hminute, hdouble]
  · cases rounding with
    | true => simp only [tenMsecsOf, if_true]
    | false =>
        simp only [unitTicks, Bool.false_eq_true, if_false] at h
        have hsecond : (rtlTimeToTimeFields t).second = (rtlTimeToTimeFields t').second := by
          simp only [rtlTimeToTimeFields]
          omega
        have hms : (rtlTimeToTimeFields t).milliseconds / 10 =
            (rtlTimeToTimeFields t').milliseconds / 10 := by
          simp only [rtlTimeToTimeFields]
          omega
        rw [tenMsecsOf, tenMsecsOf, hsecond, hms]
  · cases rounding with
    | true =>
        simp only [cutFields, if_true, hdate, hhour, hminute, TimeFields.mk.injEq, true_and,
          and_true]
        omega
    | false =>
        simp only [unitTicks, Bool.false_eq_true, if_false] at h
        have hsecond : (rtlTimeToTimeFields t).second = (rtlTimeToTimeFields t').second := by
          simp only [rtlTimeToTimeFields]
          omega
        simp only [cutFields, Bool.false_eq_true, if_false, hdate, hhour, hminute, hsecond,
          TimeFields.mk.injEq, true_and]
        simp only [rtlTimeToTimeFields]
        omega

/-- The stamp and the tens of milliseconds hold all fields that are left. -/
theorem packedFields_stampOf (h : ¬ yearOutOfRange (rtlTimeToTimeFields t)) :
    packedFields (stampOf (rtlTimeToTimeFields t)) (tenMsecsOf rounding (rtlTimeToTimeFields t)) =
      cutFields rounding (rtlTimeToTimeFields t) := by
  obtain ⟨hhour, hminute, hsecond, hms⟩ := fields_bounds t
  obtain ⟨hmonth, hmonth', hday, hday'⟩ : (rtlTimeToTimeFields t).date.Valid := valid_ofDays _
  generalize rtlTimeToTimeFields t = f at *
  rw [yearOutOfRange] at h
  have hlen : f.date.day < 32 := by
    have hmonths : ∀ leap : Bool, ∀ m < 13, daysBeforeMonth leap (m + 1) ≤ daysBeforeMonth leap m + 31 := by
      decide
    have := hmonths (isLeap f.date.year) f.date.month (by omega)
    omega
  have hyear : ((BitVec.ofInt 7 (f.date.year - 1980)).toNat : ℤ) + 1980 = f.date.year := by
    rw [BitVec.toNat_ofInt]
    omega
  have hfields : ∀ ten : UInt8, packedFields (stampOf f) ten =
      { f with
        second := f.second / 2 * 2 + ten.toNat / 100
        milliseconds := ten.toNat % 100 * 10 } := by
    intro ten
    simp only [packedFields, stampOf, BitVec.toNat_ofNat, hyear]
    rw [Nat.mod_eq_of_lt (show f.date.month < 2 ^ 4 by omega),
      Nat.mod_eq_of_lt (show f.date.day < 2 ^ 5 by omega),
      Nat.mod_eq_of_lt (show f.hour < 2 ^ 5 by omega),
      Nat.mod_eq_of_lt (show f.minute < 2 ^ 6 by omega),
      Nat.mod_eq_of_lt (show f.second / 2 < 2 ^ 5 by omega)]
  rw [hfields]
  cases rounding with
  | true =>
      simp only [tenMsecsOf, cutFields, if_true, UInt8.reduceToNat, TimeFields.mk.injEq, true_and]
      exact ⟨by omega, trivial⟩
  | false =>
      have hten : (UInt8.ofNat (f.milliseconds / 10 + f.second % 2 * 100)).toNat =
          f.milliseconds / 10 + f.second % 2 * 100 :=
        UInt8.toNat_ofNat_of_lt' (show _ < 256 by omega)
      simp only [tenMsecsOf, cutFields, Bool.false_eq_true, if_false, hten, TimeFields.mk.injEq,
        true_and]
      omega

/-- A time whose year fits lies far from the ends of what 64 bits hold. -/
theorem toInt_bounds (h : ¬ yearOutOfRange (rtlTimeToTimeFields t)) :
    864000000000 * 138426 ≤ t.toInt ∧ t.toInt < 864000000000 * 185177 := by
  rw [yearOutOfRange] at h
  obtain ⟨hle, hlt⟩ := bounds_of_yearOf (n := t.toInt / 864000000000) (y := 1980) (z := 2107)
    (by simp only [rtlTimeToTimeFields, year_ofDays] at h; omega)
    (by simp only [rtlTimeToTimeFields, year_ofDays] at h; omega)
  rw [show daysBeforeYear 1980 = 138426 by decide] at hle
  rw [show daysBeforeYear (2107 + 1) = 185177 by decide] at hlt
  omega

end Fields

/-! ## When a conversion does what it should -/

section Conversion

variable (zone : TimeZone) (rounding : Bool) (t : Int64)

/-- If its year fits, no sum on the way to it has wrapped. -/
theorem toInt_localTime (h : ¬ yearOutOfRange (localFields zone rounding t)) :
    (localTime zone rounding t).toInt =
      t.toInt + (if rounding then 19999999 else 0) - zone.bias.toInt := by
  obtain ⟨hlo, hhi⟩ := toInt_bounds _ h
  have hbias := abs_lt.mp zone.bounded
  have ht := t.le_toInt
  have ht' := t.toInt_lt
  cases rounding with
  | false =>
      obtain ⟨k, hk⟩ := exists_toInt_sub t zone.bias
      have heq : localTime zone false t = t - zone.bias := rfl
      rw [heq] at hlo hhi ⊢
      simp only [Bool.false_eq_true, if_false]
      omega
  | true =>
      obtain ⟨k, hk⟩ := exists_toInt_sub (t + almostTwoSeconds) zone.bias
      obtain ⟨k', hk'⟩ := exists_toInt_add t almostTwoSeconds
      have heq : localTime zone true t = t + almostTwoSeconds - zone.bias := rfl
      have halmost : almostTwoSeconds.toInt = 19999999 := by decide
      rw [heq] at hlo hhi ⊢
      simp only [if_true]
      omega

/-- The local time that is converted back. -/
def cutTime : ℤ :=
  (localTime zone rounding t).toInt - (localTime zone rounding t).toInt % unitTicks rounding

theorem cutTime_bounds (h : ¬ yearOutOfRange (localFields zone rounding t)) :
    864000000000 * 138426 ≤ cutTime zone rounding t ∧
      cutTime zone rounding t < 864000000000 * 185177 := by
  obtain ⟨hlo, hhi⟩ := toInt_bounds _ h
  cases rounding <;> simp only [cutTime, unitTicks, Bool.false_eq_true, if_false, if_true] <;> omega

theorem toInt_ofInt_cutTime (h : ¬ yearOutOfRange (localFields zone rounding t)) :
    (Int64.ofInt (cutTime zone rounding t)).toInt = cutTime zone rounding t := by
  obtain ⟨hlo, hhi⟩ := cutTime_bounds zone rounding t h
  exact Int64.toInt_ofInt_of_le (by omega) (by omega)

/-- What the conversion of a time that fits gives. -/
theorem fatNtTimeToFatTime_of_fits (h : ¬ yearOutOfRange (localFields zone rounding t)) :
    fatNtTimeToFatTime zone rounding t =
      ⟨Int64.ofInt (cutTime zone rounding t) + zone.bias,
        some (stampOf (localFields zone rounding t),
          tenMsecsOf rounding (localFields zone rounding t))⟩ := by
  have hvalid := valid_cutFields rounding _ h
  have hback : rtlTimeFieldsToTime (cutFields rounding (localFields zone rounding t)) =
      some (Int64.ofInt (cutTime zone rounding t)) := by
    rw [localFields, rtlTimeFieldsToTime, if_pos hvalid, ticks_cutFields, cutTime]
  have hunfold : fatNtTimeToFatTime zone rounding t =
      if yearOutOfRange (localFields zone rounding t) then
        ⟨zone.exLocalTimeToSystemTime (localTime zone rounding t), none⟩
      else ⟨zone.exLocalTimeToSystemTime
          ((rtlTimeFieldsToTime (cutFields rounding (localFields zone rounding t))).getD
            (localTime zone rounding t)),
          some (stampOf (localFields zone rounding t),
            tenMsecsOf rounding (localFields zone rounding t))⟩ := rfl
  rw [hunfold, if_neg h, hback, Option.getD_some, TimeZone.exLocalTimeToSystemTime]

theorem fatNtTimeToFatTime_of_not_fits (h : yearOutOfRange (localFields zone rounding t)) :
    fatNtTimeToFatTime zone rounding t =
      ⟨if rounding then t + almostTwoSeconds else t, none⟩ := by
  have hunfold : fatNtTimeToFatTime zone rounding t =
      if yearOutOfRange (localFields zone rounding t) then
        ⟨zone.exLocalTimeToSystemTime (localTime zone rounding t), none⟩
      else ⟨zone.exLocalTimeToSystemTime
          ((rtlTimeFieldsToTime (cutFields rounding (localFields zone rounding t))).getD
            (localTime zone rounding t)),
          some (stampOf (localFields zone rounding t),
            tenMsecsOf rounding (localFields zone rounding t))⟩ := rfl
  rw [hunfold, if_pos h, TimeZone.exLocalTimeToSystemTime, localTime,
    TimeZone.exSystemTimeToLocalTime, Int64.sub_add_cancel]

theorem fatFatTimeToNtTime_of_fits (h : ¬ yearOutOfRange (localFields zone rounding t)) :
    fatFatTimeToNtTime zone (stampOf (localFields zone rounding t))
        (tenMsecsOf rounding (localFields zone rounding t)) =
      Int64.ofInt (cutTime zone rounding t) + zone.bias := by
  have hvalid := valid_cutFields rounding _ h
  have hpacked := packedFields_stampOf rounding _ h
  have hsecond : ¬ 59 < (cutFields rounding (rtlTimeToTimeFields (localTime zone rounding t))).second := by
    have := hvalid.2.2.2.2.2.1
    omega
  rw [fatFatTimeToNtTime, localFields, hpacked]
  rw [if_neg hsecond, rtlTimeFieldsToTime, if_pos hvalid, ticks_cutFields]
  rfl

/-- The system time that is written back: the bias is whole units, and no sum wraps. -/
theorem toInt_written (h : ¬ yearOutOfRange (localFields zone rounding t)) :
    (Int64.ofInt (cutTime zone rounding t) + zone.bias).toInt =
      cutTime zone rounding t + zone.bias.toInt := by
  obtain ⟨hlo, hhi⟩ := cutTime_bounds zone rounding t h
  have hbias := abs_lt.mp zone.bounded
  obtain ⟨k, hk⟩ := exists_toInt_add (Int64.ofInt (cutTime zone rounding t)) zone.bias
  have hle := (Int64.ofInt (cutTime zone rounding t) + zone.bias).le_toInt
  have hlt := (Int64.ofInt (cutTime zone rounding t) + zone.bias).toInt_lt
  rw [toInt_ofInt_cutTime zone rounding t h] at hk
  omega

theorem rounded_written (h : ¬ yearOutOfRange (localFields zone rounding t)) :
    if rounding then
      IsLeast {x : ℤ | t.toInt ≤ x ∧ 20000000 ∣ x}
        (Int64.ofInt (cutTime zone rounding t) + zone.bias).toInt
    else IsGreatest {x : ℤ | x ≤ t.toInt ∧ 100000 ∣ x}
      (Int64.ofInt (cutTime zone rounding t) + zone.bias).toInt := by
  have hlocal := toInt_localTime zone rounding t h
  have hwhole := zone.whole
  rw [toInt_written zone rounding t h, cutTime]
  cases rounding with
  | false =>
      simp only [unitTicks, Bool.false_eq_true, if_false] at hlocal ⊢
      refine ⟨⟨by omega, by omega⟩, ?_⟩
      rintro x ⟨hx, hdvd⟩
      omega
  | true =>
      simp only [unitTicks, if_true] at hlocal ⊢
      refine ⟨⟨by omega, by omega⟩, ?_⟩
      rintro x ⟨hx, hdvd⟩
      omega

/-- The local time of what was written back lies in the same unit. -/
theorem localTime_written (h : ¬ yearOutOfRange (localFields zone rounding t)) :
    (localTime zone rounding (Int64.ofInt (cutTime zone rounding t) + zone.bias)).toInt /
        unitTicks rounding =
      (localTime zone rounding t).toInt / unitTicks rounding := by
  obtain ⟨hlo, hhi⟩ := cutTime_bounds zone rounding t h
  have hcut := toInt_ofInt_cutTime zone rounding t h
  cases rounding with
  | false =>
      have heq : localTime zone false (Int64.ofInt (cutTime zone false t) + zone.bias) =
          Int64.ofInt (cutTime zone false t) := Int64.add_sub_cancel _ _
      rw [heq, hcut, cutTime]
      simp only [unitTicks, Bool.false_eq_true, if_false]
      omega
  | true =>
      have heq : localTime zone true (Int64.ofInt (cutTime zone true t) + zone.bias) =
          Int64.ofInt (cutTime zone true t) + almostTwoSeconds := by
        have hcomm : Int64.ofInt (cutTime zone true t) + zone.bias + almostTwoSeconds =
            Int64.ofInt (cutTime zone true t) + almostTwoSeconds + zone.bias := by
          rw [Int64.add_assoc, Int64.add_comm zone.bias, ← Int64.add_assoc]
        have hstep : localTime zone true (Int64.ofInt (cutTime zone true t) + zone.bias) =
            Int64.ofInt (cutTime zone true t) + zone.bias + almostTwoSeconds - zone.bias := rfl
        rw [hstep, hcomm, Int64.add_sub_cancel]
      obtain ⟨k, hk⟩ := exists_toInt_add (Int64.ofInt (cutTime zone true t)) almostTwoSeconds
      have hle := (Int64.ofInt (cutTime zone true t) + almostTwoSeconds).le_toInt
      have hlt := (Int64.ofInt (cutTime zone true t) + almostTwoSeconds).toInt_lt
      have halmost : almostTwoSeconds.toInt = 19999999 := by decide
      have hsum : (Int64.ofInt (cutTime zone true t) + almostTwoSeconds).toInt =
          cutTime zone true t + 19999999 := by
        rw [hcut] at hk
        omega
      rw [heq, hsum, cutTime]
      simp only [unitTicks, if_true]
      omega

/-- To convert what was written back changes nothing. -/
theorem fatNtTimeToFatTime_written (h : ¬ yearOutOfRange (localFields zone rounding t)) :
    fatNtTimeToFatTime zone rounding (Int64.ofInt (cutTime zone rounding t) + zone.bias) =
      fatNtTimeToFatTime zone rounding t := by
  have hunit := localTime_written zone rounding t h
  obtain ⟨hdate, hstamp, hten, hcut⟩ := fields_congr rounding hunit
  have hfits : ¬ yearOutOfRange
      (localFields zone rounding (Int64.ofInt (cutTime zone rounding t) + zone.bias)) := by
    rwa [yearOutOfRange, localFields, hdate]
  have hsame : cutTime zone rounding (Int64.ofInt (cutTime zone rounding t) + zone.bias) =
      cutTime zone rounding t := by
    have hticks := congrArg TimeFields.ticks hcut
    rwa [ticks_cutFields, ticks_cutFields] at hticks
  rw [fatNtTimeToFatTime_of_fits zone rounding _ hfits, fatNtTimeToFatTime_of_fits zone rounding t h,
    hsame, localFields, hstamp, hten]
  rfl

/-- **When time conversion is right.**  Every time that is not rounded up is converted as it
should be, and so is a time that is rounded up to one whose year fits.  A time that is rounded
up past the range is refused with the rounding left in it. -/
theorem convertsRight_iff :
    ConvertsRight zone rounding t ↔
      (rounding = true → ¬ yearOutOfRange (localFields zone rounding t)) := by
  rw [ConvertsRight]
  by_cases h : yearOutOfRange (localFields zone rounding t)
  · rw [fatNtTimeToFatTime_of_not_fits zone rounding t h, Converted.Right]
    cases rounding with
    | false => simp
    | true =>
        refine iff_of_false ?_ fun hnot => hnot rfl h
        intro heq
        have hzero : almostTwoSeconds = 0 := by
          have := congrArg (fun x => x - t) (show t + almostTwoSeconds = t from heq)
          rwa [Int64.add_comm, Int64.add_sub_cancel, Int64.sub_self] at this
        exact absurd hzero (by decide)
  · rw [fatNtTimeToFatTime_of_fits zone rounding t h, Converted.Right]
    refine iff_of_true ⟨fatFatTimeToNtTime_of_fits zone rounding t h,
      rounded_written zone rounding t h, ?_⟩ fun _ => h
    rw [fatNtTimeToFatTime_written zone rounding t h, fatNtTimeToFatTime_of_fits zone rounding t h]

end Conversion

/-- Local time is system time. -/
def greenwich : TimeZone where
  bias := 0
  whole := by decide
  bounded := by decide

/-- One second of the year 1601 is refused, and comes back as almost three. -/
theorem not_convertsRight_1601 : ¬ ConvertsRight greenwich true 10000000 := by
  have hout : yearOutOfRange (localFields greenwich true 10000000) := by decide +kernel
  rw [ConvertsRight, fatNtTimeToFatTime_of_not_fits greenwich true 10000000 hout, Converted.Right]
  decide

end KernelDrivers.Fat
