import Mathlib.Tactic

/-!
# Alignment by masks

C code rounds an unsigned word to a multiple of a power of two with masks: `x & (a - 1)` is the
remainder and `x & ~(a - 1)` the multiple below.  The sum that rounds up, `x + a - 1`, is taken in
the width of the word and can wrap.

## Main results

* `toNat_and_not_mask` — what the mask computes.
* `toNat_alignUp` — the multiple above, if the sum does not wrap, and zero if it does.
-/

namespace KernelDrivers

variable {w k : ℕ}

theorem toNat_twoPow_sub_one (hk : k < w) :
    (BitVec.twoPow w k - 1).toNat = 2 ^ k - 1 := by
  have hlt : 2 ^ k < 2 ^ w := Nat.pow_lt_pow_right (by norm_num) hk
  have hpos : 0 < 2 ^ k := Nat.two_pow_pos k
  have hone : (1 : BitVec w).toNat = 1 := by
    rw [show (1 : BitVec w) = BitVec.ofNat w 1 from rfl, BitVec.toNat_ofNat,
      Nat.mod_eq_of_lt (by omega)]
  rw [BitVec.toNat_sub_of_le, BitVec.toNat_twoPow_of_lt hk, hone]
  rw [BitVec.le_def, BitVec.toNat_twoPow_of_lt hk, hone]
  omega

/-- `x & ~(a - 1)`. -/
theorem toNat_and_not_mask (x : BitVec w) (hk : k < w) :
    (x &&& ~~~(BitVec.twoPow w k - 1)).toNat = x.toNat / 2 ^ k * 2 ^ k := by
  have hx := x.isLt
  have hmask : 2 ^ k - 1 < 2 ^ w :=
    (Nat.sub_le _ _).trans_lt (Nat.pow_lt_pow_right (by norm_num) hk)
  rw [BitVec.toNat_and, BitVec.toNat_not, toNat_twoPow_sub_one hk, ← Nat.shiftLeft_eq,
    ← Nat.shiftRight_eq_div_pow]
  apply Nat.eq_of_testBit_eq
  intro i
  rw [Nat.testBit_and, Nat.testBit_shiftLeft, Nat.testBit_shiftRight,
    show 2 ^ w - 1 - (2 ^ k - 1) = 2 ^ w - ((2 ^ k - 1) + 1) by omega,
    Nat.testBit_two_pow_sub_succ hmask, Nat.testBit_two_pow_sub_one]
  by_cases hi : k ≤ i
  · rw [Nat.add_sub_cancel' hi]
    by_cases hiw : i < w
    · simp [hi, hiw]
    · have hbit : x.toNat.testBit i = false :=
        Nat.testBit_lt_two_pow (hx.trans_le (Nat.pow_le_pow_right (by norm_num) (by omega)))
      simp [hbit]
  · simp [hi, not_le.mp hi]

/-- The multiple of `2 ^ k` that is not below `n`. -/
def ceilTo (k n : ℕ) : ℕ := (n + (2 ^ k - 1)) / 2 ^ k * 2 ^ k

theorem le_ceilTo (k n : ℕ) : n ≤ ceilTo k n := by
  have hpos : 0 < 2 ^ k := Nat.two_pow_pos k
  have hdiv := Nat.div_add_mod (n + (2 ^ k - 1)) (2 ^ k)
  have hmod := Nat.mod_lt (n + (2 ^ k - 1)) hpos
  rw [ceilTo, Nat.mul_comm]
  omega

theorem ceilTo_lt (k n : ℕ) : ceilTo k n < n + 2 ^ k := by
  have hpos : 0 < 2 ^ k := Nat.two_pow_pos k
  have hle := Nat.div_mul_le_self (n + (2 ^ k - 1)) (2 ^ k)
  rw [ceilTo]
  omega

/-- `(x + a - 1) & ~(a - 1)`, where the sum is taken modulo `2 ^ w`. -/
theorem toNat_alignUp (x : BitVec w) (hk : k < w) :
    ((x + BitVec.twoPow w k - 1) &&& ~~~(BitVec.twoPow w k - 1)).toNat =
      if x.toNat + (2 ^ k - 1) < 2 ^ w then ceilTo k x.toNat else 0 := by
  have hx := x.isLt
  have hlt : 2 ^ k < 2 ^ w := Nat.pow_lt_pow_right (by norm_num) hk
  have hassoc : x + BitVec.twoPow w k - 1 = x + (BitVec.twoPow w k - 1) := by
    rw [BitVec.sub_eq_add_neg, BitVec.sub_eq_add_neg, BitVec.add_assoc]
  rw [toNat_and_not_mask _ hk, hassoc, BitVec.toNat_add, toNat_twoPow_sub_one hk]
  split
  · next h => rw [Nat.mod_eq_of_lt h, ceilTo]
  · next h =>
      have hwrap : (x.toNat + (2 ^ k - 1)) % 2 ^ w = x.toNat + (2 ^ k - 1) - 2 ^ w := by
        rw [Nat.mod_eq_sub_mod (by omega), Nat.mod_eq_of_lt (by omega)]
      rw [hwrap, Nat.div_eq_of_lt (by omega), Nat.zero_mul]

end KernelDrivers
