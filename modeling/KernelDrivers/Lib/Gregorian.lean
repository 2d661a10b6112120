import Mathlib.Tactic

/-!
# The Gregorian calendar

Days are numbered from 1 January 1601, which starts a cycle of 400 years, and the calendar is
extended to both sides.

## Main definitions

* `daysBeforeYear`, `daysBeforeMonth` — the days before a year, and in it before a month.
* `Date.toDays`, `ofDays` — the number of a date, and the date of a number.

## Main results

* `daysBeforeYear_yearOf` — a day lies in the year that `yearOf` gives.
* `valid_ofDays`, `toDays_ofDays` — a number's date is a date and has that number.
-/

namespace KernelDrivers.Gregorian

def isLeap (y : ℤ) : Bool := y % 4 = 0 ∧ (y % 100 ≠ 0 ∨ y % 400 = 0)

/-- The days from 1 January 1601 to 1 January of year `y`. -/
def daysBeforeYear (y : ℤ) : ℤ :=
  365 * (y - 1601) + (y - 1601) / 4 - (y - 1601) / 100 + (y - 1601) / 400

/-- The days of a year before its month `m`.  Month 13 is the end of the year. -/
def daysBeforeMonth (leap : Bool) (m : ℕ) : ℕ :=
  [0, 0, 31, 59, 90, 120, 151, 181, 212, 243, 273, 304, 334, 365].getD m 0 +
    if leap ∧ 2 < m then 1 else 0

structure Date where
  year : ℤ
  month : ℕ
  day : ℕ
  deriving DecidableEq, Repr

/-- The date is one of the calendar. -/
def Date.Valid (d : Date) : Prop :=
  1 ≤ d.month ∧ d.month ≤ 12 ∧ 1 ≤ d.day ∧
    daysBeforeMonth (isLeap d.year) d.month + d.day ≤ daysBeforeMonth (isLeap d.year) (d.month + 1)

instance (d : Date) : Decidable d.Valid :=
  inferInstanceAs (Decidable (_ ∧ _ ∧ _ ∧ _))

def Date.toDays (d : Date) : ℤ :=
  daysBeforeYear d.year + daysBeforeMonth (isLeap d.year) d.month + (d.day - 1)

/-! ## The year of a day -/

/-- The year of day `n`: whole cycles of 400, 100 and 4 years and then single years. -/
def yearOf (n : ℤ) : ℤ :=
  let inCycle := n % 146097
  let centuries := min (inCycle / 36524) 3
  let inCentury := inCycle - 36524 * centuries
  let years := min (inCentury % 1461 / 365) 3
  1601 + 400 * (n / 146097) + 100 * centuries + 4 * (inCentury / 1461) + years

theorem daysBeforeYear_cycles {a b c d : ℤ} (hb : 0 ≤ b ∧ b ≤ 3) (hc : 0 ≤ c ∧ c ≤ 24)
    (hd : 0 ≤ d ∧ d ≤ 3) :
    daysBeforeYear (1601 + 400 * a + 100 * b + 4 * c + d) =
      146097 * a + 36524 * b + 1461 * c + 365 * d := by
  have h4 : (1601 + 400 * a + 100 * b + 4 * c + d - 1601) / 4 = 100 * a + 25 * b + c := by omega
  have h100 : (1601 + 400 * a + 100 * b + 4 * c + d - 1601) / 100 = 4 * a + b := by omega
  have h400 : (1601 + 400 * a + 100 * b + 4 * c + d - 1601) / 400 = a := by omega
  rw [daysBeforeYear, h4, h100, h400]
  ring

theorem daysBeforeYear_succ (y : ℤ) :
    daysBeforeYear (y + 1) = daysBeforeYear y + daysBeforeMonth (isLeap y) 13 := by
  have h4 : (y + 1 - 1601) / 4 = (y - 1601) / 4 + if y % 4 = 0 then 1 else 0 := by
    split <;> omega
  have h100 : (y + 1 - 1601) / 100 = (y - 1601) / 100 + if y % 100 = 0 then 1 else 0 := by
    split <;> omega
  have h400 : (y + 1 - 1601) / 400 = (y - 1601) / 400 + if y % 400 = 0 then 1 else 0 := by
    split <;> omega
  have hyear : (daysBeforeMonth (isLeap y) 13 : ℤ) = 365 + if isLeap y then 1 else 0 := by
    cases isLeap y <;> rfl
  rw [daysBeforeYear, daysBeforeYear, h4, h100, h400, hyear, isLeap]
  simp only [decide_eq_true_eq]
  split_ifs <;> omega

/-- The leap years of a cycle: the last of four, but not the last of a century that is not the
last of the cycle. -/
theorem isLeap_cycles {a b c d : ℤ} (hb : 0 ≤ b ∧ b ≤ 3) (hc : 0 ≤ c ∧ c ≤ 24)
    (hd : 0 ≤ d ∧ d ≤ 3) :
    isLeap (1601 + 400 * a + 100 * b + 4 * c + d) = decide (d = 3 ∧ (c ≠ 24 ∨ b = 3)) := by
  have h4 : (1601 + 400 * a + 100 * b + 4 * c + d) % 4 = 0 ↔ d = 3 := by omega
  have h100 : (1601 + 400 * a + 100 * b + 4 * c + d) % 100 = 0 ↔ c = 24 ∧ d = 3 := by omega
  have h400 : (1601 + 400 * a + 100 * b + 4 * c + d) % 400 = 0 ↔ b = 3 ∧ c = 24 ∧ d = 3 := by
    omega
  rw [isLeap, decide_eq_decide, h4, ne_eq, h100, h400]
  omega

/-- The counts of a day: which cycle, century, four years and year it lies in. -/
theorem exists_cycles (n : ℤ) :
    ∃ a b c d, (0 ≤ b ∧ b ≤ 3) ∧ (0 ≤ c ∧ c ≤ 24) ∧ (0 ≤ d ∧ d ≤ 3) ∧
      yearOf n = 1601 + 400 * a + 100 * b + 4 * c + d ∧
      146097 * a + 36524 * b + 1461 * c + 365 * d ≤ n ∧
      n < 146097 * a + 36524 * b + 1461 * c + 365 * d + 365 +
        if d = 3 ∧ (c ≠ 24 ∨ b = 3) then 1 else 0 := by
  obtain ⟨b, hb⟩ : ∃ b, b = min (n % 146097 / 36524) 3 := ⟨_, rfl⟩
  obtain ⟨s, hs⟩ : ∃ s, s = n % 146097 - 36524 * b := ⟨_, rfl⟩
  obtain ⟨d, hd⟩ : ∃ d, d = min (s % 1461 / 365) 3 := ⟨_, rfl⟩
  have hb0 : 0 ≤ b ∧ b ≤ 3 := by omega
  have hs0 : 0 ≤ s ∧ s ≤ 36524 ∧ (b < 3 → s < 36524) := by omega
  have hn : n = 146097 * (n / 146097) + 36524 * b + s := by omega
  have hd0 : 0 ≤ d ∧ d ≤ 3 ∧ 365 * d ≤ s % 1461 ∧ (d < 3 → s % 1461 < 365 * d + 365) := by
    clear hn hs hb
    omega
  refine ⟨n / 146097, b, s / 1461, d, hb0, by omega, ⟨hd0.1, hd0.2.1⟩, ?_, ?_, ?_⟩
  · rw [hd, hs, hb]
    rfl
  · clear hs hb
    omega
  · clear hs hb
    split <;> omega

/-- **Day `n` lies in its year.** -/
theorem daysBeforeYear_yearOf (n : ℤ) :
    daysBeforeYear (yearOf n) ≤ n ∧ n < daysBeforeYear (yearOf n + 1) := by
  obtain ⟨a, b, c, d, hb, hc, hd, hyear, hle, hlt⟩ := exists_cycles n
  have hlen : (daysBeforeMonth (isLeap (yearOf n)) 13 : ℤ) =
      365 + if d = 3 ∧ (c ≠ 24 ∨ b = 3) then 1 else 0 := by
    rw [hyear, isLeap_cycles hb hc hd]
    by_cases h : d = 3 ∧ (c ≠ 24 ∨ b = 3)
    · rw [decide_eq_true h, if_pos h]
      rfl
    · rw [decide_eq_false h, if_neg h]
      rfl
  rw [daysBeforeYear_succ, hlen, hyear, daysBeforeYear_cycles hb hc hd]
  exact ⟨hle, by rwa [← add_assoc]⟩

/-! ## The date of a day -/

/-- The month that has day `k` of a year. -/
def monthOf (leap : Bool) (k : ℕ) : ℕ :=
  Nat.findGreatest (fun m => daysBeforeMonth leap m ≤ k) 12

theorem monthOf_spec (leap : Bool) {k : ℕ} (hk : k < daysBeforeMonth leap 13) :
    1 ≤ monthOf leap k ∧ monthOf leap k ≤ 12 ∧ daysBeforeMonth leap (monthOf leap k) ≤ k ∧
      k < daysBeforeMonth leap (monthOf leap k + 1) := by
  have hjan : daysBeforeMonth leap 1 ≤ k := by
    rw [daysBeforeMonth]
    simp
  have hle : monthOf leap k ≤ 12 := Nat.findGreatest_le 12
  refine ⟨Nat.le_findGreatest (by norm_num) hjan, hle,
    Nat.findGreatest_spec (P := fun m => daysBeforeMonth leap m ≤ k) (m := 1) (by norm_num) hjan, ?_⟩
  by_cases h12 : monthOf leap k = 12
  · rwa [h12]
  · exact not_le.mp (Nat.findGreatest_is_greatest (P := fun m => daysBeforeMonth leap m ≤ k)
      (Nat.lt_succ_self _) (show monthOf leap k + 1 ≤ 12 by omega))

/-- The date of day `n`. -/
def ofDays (n : ℤ) : Date :=
  let year := yearOf n
  let k := (n - daysBeforeYear year).toNat
  let month := monthOf (isLeap year) k
  ⟨year, month, k - daysBeforeMonth (isLeap year) month + 1⟩

@[simp] theorem year_ofDays (n : ℤ) : (ofDays n).year = yearOf n := rfl

theorem dayOfYear_lt (n : ℤ) :
    (n - daysBeforeYear (yearOf n)).toNat < daysBeforeMonth (isLeap (yearOf n)) 13 := by
  obtain ⟨hle, hlt⟩ := daysBeforeYear_yearOf n
  rw [daysBeforeYear_succ] at hlt
  omega

theorem valid_ofDays (n : ℤ) : (ofDays n).Valid := by
  obtain ⟨h1, h12, hle, hlt⟩ := monthOf_spec _ (dayOfYear_lt n)
  refine ⟨h1, h12, Nat.le_add_left _ _, ?_⟩
  simp only [ofDays]
  omega

theorem toDays_ofDays (n : ℤ) : (ofDays n).toDays = n := by
  obtain ⟨-, -, hle, -⟩ := monthOf_spec _ (dayOfYear_lt n)
  obtain ⟨hyear, -⟩ := daysBeforeYear_yearOf n
  simp only [ofDays, Date.toDays]
  omega

/-- The days of a span of years. -/
theorem bounds_of_yearOf {n y z : ℤ} (h : y ≤ yearOf n) (h' : yearOf n ≤ z) :
    daysBeforeYear y ≤ n ∧ n < daysBeforeYear (z + 1) := by
  have hmono : Monotone daysBeforeYear := monotone_int_of_le_succ fun x => by
    rw [daysBeforeYear_succ]
    omega
  obtain ⟨hle, hlt⟩ := daysBeforeYear_yearOf n
  exact ⟨(hmono h).trans hle, hlt.trans_le (hmono (by omega))⟩

end KernelDrivers.Gregorian
