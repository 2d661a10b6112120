import Mathlib.Tactic

/-!
# Signed 64-bit numbers

Sums and differences of `Int64` wrap.  For a proof it is enough to know that the wrapped value is off by
a multiple of `2 ^ 64`, and where it lies.

## Main results

* `exists_toInt_add`, `exists_toInt_sub` — a wrapped sum and difference.
* `toInt_add_of_lt`, `toInt_add_nonneg` — sums of numbers that are not negative.
* `toNat_toUInt64` — the same bits as an unsigned number.
-/

namespace KernelDrivers.Signed

theorem bounds (a : Int64) : -2 ^ 63 ≤ a.toInt ∧ a.toInt < 2 ^ 63 :=
  ⟨a.le_toInt, a.toInt_lt⟩

theorem exists_toInt_add (a b : Int64) : ∃ k, (a + b).toInt = a.toInt + b.toInt + 2 ^ 64 * k := by
  refine ⟨-((a.toInt + b.toInt - (a + b).toInt) / 2 ^ 64), ?_⟩
  have h : (a.toInt + b.toInt - (a + b).toInt) % 2 ^ 64 = 0 := by
    rw [Int64.toInt_add]
    exact Int.emod_eq_zero_of_dvd (Int.dvd_self_sub_bmod)
  omega

theorem exists_toInt_sub (a b : Int64) : ∃ k, (a - b).toInt = a.toInt - b.toInt + 2 ^ 64 * k := by
  refine ⟨-((a.toInt - b.toInt - (a - b).toInt) / 2 ^ 64), ?_⟩
  have h : (a.toInt - b.toInt - (a - b).toInt) % 2 ^ 64 = 0 := by
    rw [Int64.toInt_sub]
    exact Int.emod_eq_zero_of_dvd (Int.dvd_self_sub_bmod)
  omega

/-- An unsigned number, read as a signed one. -/
theorem exists_toInt_toInt64 (n : UInt64) : ∃ k, n.toInt64.toInt = n.toNat + 2 ^ 64 * k := by
  refine ⟨-(((n.toNat : ℤ) - n.toInt64.toInt) / 2 ^ 64), ?_⟩
  have h : ((n.toNat : ℤ) - n.toInt64.toInt) % 2 ^ 64 = 0 := by
    have hsame : n.toInt64.toInt = (n.toNat : ℤ).bmod (2 ^ 64) := by
      rw [Int64.toInt, BitVec.toInt_eq_toNat_bmod]
      rfl
    rw [hsame]
    exact Int.emod_eq_zero_of_dvd (Int.dvd_self_sub_bmod)
  omega

variable {a b : Int64}

theorem toInt_add_of_lt (ha : -2 ^ 63 ≤ a.toInt + b.toInt) (hb : a.toInt + b.toInt < 2 ^ 63) :
    (a + b).toInt = a.toInt + b.toInt := by
  obtain ⟨k, hk⟩ := exists_toInt_add a b
  have := bounds (a + b)
  omega

/-- A sum of two numbers that are not negative either is right or negative. -/
theorem toInt_add_nonneg (ha : 0 ≤ a.toInt) (hb : 0 ≤ b.toInt) (h : 0 ≤ (a + b).toInt) :
    (a + b).toInt = a.toInt + b.toInt := by
  obtain ⟨k, hk⟩ := exists_toInt_add a b
  have := bounds a
  have := bounds b
  have := bounds (a + b)
  omega

theorem toInt_sub_of_lt (ha : -2 ^ 63 ≤ a.toInt - b.toInt) (hb : a.toInt - b.toInt < 2 ^ 63) :
    (a - b).toInt = a.toInt - b.toInt := by
  obtain ⟨k, hk⟩ := exists_toInt_sub a b
  have := bounds (a - b)
  omega

theorem toNat_toUInt64 (h : 0 ≤ a.toInt) : (a.toUInt64.toNat : ℤ) = a.toInt := by
  rw [Int64.toNat_toUInt64_of_le (Int64.le_iff_toInt_le.mpr h), Int64.toNatClampNeg, Int.toNat_of_nonneg h]

/-- A 32-bit unsigned number. -/
theorem toInt_ofUInt32 (n : UInt32) : n.toUInt64.toInt64.toInt = n.toNat := by
  have hn := n.toNat_lt
  have hsame : n.toUInt64.toInt64.toUInt64.toNat = n.toNat := by
    rw [UInt64.toUInt64_toInt64, UInt32.toNat_toUInt64]
  rw [Int64.toInt, BitVec.toInt_eq_toNat_of_lt]
  · exact congrArg Nat.cast hsame
  · have : n.toUInt64.toInt64.toBitVec.toNat = n.toNat := hsame
    omega

end KernelDrivers.Signed
