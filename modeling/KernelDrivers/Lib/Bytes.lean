import Mathlib.Tactic

/-!
# Byte memories

A memory is a function from offsets to bytes.  `read16` and `read32` are the
little-endian values at an offset, `write16` and `write32` store the low bits of a
value there.  The four laws say what a read sees of a write: the value reduced to
the width at the same offset, and the old contents at a disjoint one.
-/

namespace KernelDrivers

/-- A byte for every offset. -/
abbrev Bytes := ℕ → BitVec 8

namespace Bytes

/-- Two bytes, low byte first. -/
def read16 (m : Bytes) (o : ℕ) : ℕ := (m o).toNat + (m (o + 1)).toNat * 2 ^ 8

/-- Four bytes, low byte first. -/
def read32 (m : Bytes) (o : ℕ) : ℕ := m.read16 o + m.read16 (o + 2) * 2 ^ 16

/-- Store the low 16 bits of `v`. -/
def write16 (m : Bytes) (o v : ℕ) : Bytes := fun k =>
  if k = o then BitVec.ofNat 8 v
  else if k = o + 1 then BitVec.ofNat 8 (v / 2 ^ 8)
  else m k

/-- Store the low 32 bits of `v`. -/
def write32 (m : Bytes) (o v : ℕ) : Bytes := (m.write16 o v).write16 (o + 2) (v / 2 ^ 16)

theorem read16_lt (m : Bytes) (o : ℕ) : m.read16 o < 2 ^ 16 := by
  have h0 := (m o).isLt
  have h1 := (m (o + 1)).isLt
  unfold read16
  omega

theorem write16_apply_of_disjoint (m : Bytes) {o k : ℕ} (v : ℕ) (h : k < o ∨ o + 2 ≤ k) :
    m.write16 o v k = m k := by
  rw [write16, if_neg (by omega), if_neg (by omega)]

@[simp] theorem write16_apply_zero (m : Bytes) (o v : ℕ) :
    m.write16 o v o = BitVec.ofNat 8 v := if_pos rfl

@[simp] theorem write16_apply_one (m : Bytes) (o v : ℕ) :
    m.write16 o v (o + 1) = BitVec.ofNat 8 (v / 2 ^ 8) := by
  rw [write16, if_neg (by omega), if_pos rfl]

@[simp] theorem read16_write16 (m : Bytes) (o v : ℕ) :
    (m.write16 o v).read16 o = v % 2 ^ 16 := by
  simp only [read16, write16_apply_zero, write16_apply_one, BitVec.toNat_ofNat]
  omega

theorem read16_write16_of_disjoint (m : Bytes) {o p : ℕ} (v : ℕ) (h : p + 2 ≤ o ∨ o + 2 ≤ p) :
    (m.write16 o v).read16 p = m.read16 p := by
  rw [read16, write16_apply_of_disjoint _ _ (by omega), write16_apply_of_disjoint _ _ (by omega),
    read16]

@[simp] theorem read32_write32 (m : Bytes) (o v : ℕ) :
    (m.write32 o v).read32 o = v % 2 ^ 32 := by
  rw [read32, write32, read16_write16, read16_write16_of_disjoint _ _ (by omega), read16_write16]
  omega

theorem read32_write32_of_disjoint (m : Bytes) {o p : ℕ} (v : ℕ) (h : p + 4 ≤ o ∨ o + 4 ≤ p) :
    (m.write32 o v).read32 p = m.read32 p := by
  simp only [read32, write32]
  rw [read16_write16_of_disjoint _ _ (by omega), read16_write16_of_disjoint _ _ (by omega),
    read16_write16_of_disjoint _ _ (by omega), read16_write16_of_disjoint _ _ (by omega)]

end Bytes

end KernelDrivers
