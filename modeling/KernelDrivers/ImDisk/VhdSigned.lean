import KernelDrivers.ImDisk.VhdLayout

/-!
# Numbers of an image, bit by bit

`GetBigEndian64` puts its number together from bytes of a signed type.  A byte from `0x80` on is
extended with ones, which cover the bytes in front of it.  The number comes out right all the same
when these are all ones anyway.

## Main definitions

* `signed` — the value that a field holds.
* `ReadsBigEndian` — a field is read as the value that it holds, wherever it stands.
* `Extended` — the bytes in front of one from `0x80` on are all ones.

## Main results

* `getLsbD_orBytes` — the bits of the loop's result.
* `readsBigEndian_iff` — which fields are read right.
-/

namespace KernelDrivers.ImDisk.Vhd

/-- The value that a field of 8 bytes holds. -/
def signed (bs : List UInt8) : ℤ := (BitVec.ofNat 64 (ofBigEndian bs)).toInt

/-- A field is read as the value that it holds, and so are the sizes of an image that has it. -/
structure ReadsBigEndian (bs : List UInt8) : Prop where
  field : getBigEndian64 bs = signed bs
  currentSize : ∀ f v, detect f = some v → slice f.bytes 48 8 = bs → v.currentSize = signed bs
  tableOffset : ∀ f v, detect f = some v → slice f.bytes 528 8 = bs → v.tableOffset = signed bs

/-- The bytes in front of one from `0x80` on are all ones. -/
def Extended (bs : List UInt8) : Prop := bs.Pairwise fun a b => 0x80 ≤ b → a = 0xFF

instance (bs : List UInt8) : Decidable (Extended bs) := inferInstanceAs (Decidable (bs.Pairwise _))

section Bits

variable {bs : List UInt8} {number : BitVec 64} {i k : ℕ}

/-- The shift of a byte. -/
def shiftAt (bs : List UInt8) (i : ℕ) : ℕ := 8 * (bs.length - 1 - i)

/-- One of the bytes has `P` at bit `k` of the number. -/
def AtByte (P : UInt8 → ℕ → Prop) (bs : List UInt8) (k : ℕ) : Prop :=
  ∃ i b, bs[i]? = some b ∧ shiftAt bs i ≤ k ∧ P b (k - shiftAt bs i)

theorem atByte_nil (P : UInt8 → ℕ → Prop) (k : ℕ) : ¬ AtByte P [] k := by
  simp [AtByte]

theorem atByte_cons {P : UInt8 → ℕ → Prop} (b : UInt8) : AtByte P (b :: bs) k ↔
    (8 * bs.length ≤ k ∧ P b (k - 8 * bs.length)) ∨ AtByte P bs k := by
  have hhead : shiftAt (b :: bs) 0 = 8 * bs.length := by
    rw [shiftAt, List.length_cons]
    omega
  have htail : ∀ i, i < bs.length → shiftAt (b :: bs) (i + 1) = shiftAt bs i := by
    intro i hi
    rw [shiftAt, shiftAt, List.length_cons]
    omega
  constructor
  · rintro ⟨i, c, hc, hle, hbit⟩
    cases i with
    | zero =>
        rw [List.getElem?_cons_zero, Option.some_inj] at hc
        rw [hhead, ← hc] at *
        exact Or.inl ⟨hle, hbit⟩
    | succ i =>
        rw [List.getElem?_cons_succ] at hc
        have hi := (List.getElem?_eq_some_iff.mp hc).1
        rw [htail i hi] at hle hbit
        exact Or.inr ⟨i, c, hc, hle, hbit⟩
  · intro h
    rcases h with ⟨hle, hbit⟩ | ⟨i, c, hc, hle, hbit⟩
    · exact ⟨0, b, rfl, by rwa [hhead], by rwa [hhead]⟩
    · have hi := (List.getElem?_eq_some_iff.mp hc).1
      exact ⟨i + 1, c, hc, by rwa [htail i hi], by rwa [htail i hi]⟩

/-- A bit of a byte that is extended with its sign. -/
def SetsBit (b : UInt8) (t : ℕ) : Prop := (b.toBitVec.signExtend 64).getLsbD t = true

/-- **The bits of the loop's result.** -/
theorem getLsbD_orBytes (hk : k < 64) :
    (orBytes bs number).getLsbD k = true ↔ number.getLsbD k = true ∨ AtByte SetsBit bs k := by
  induction bs generalizing number with
  | nil => simp [orBytes, atByte_nil]
  | cons b bs ih =>
      rw [orBytes, ih, atByte_cons, BitVec.getLsbD_or, BitVec.getLsbD_shiftLeft]
      simp only [Bool.or_eq_true, Bool.and_eq_true, Bool.not_eq_true', decide_eq_true_eq,
        decide_eq_false_iff_not, not_lt, SetsBit]
      rw [or_assoc]
      simp only [hk, true_and]

/-- The bits of a number that is stored with its high byte first. -/
theorem testBit_ofBigEndian : (ofBigEndian bs).testBit k = true ↔
    AtByte (fun b t => b.toNat.testBit t = true) bs k := by
  induction bs with
  | nil => simp [ofBigEndian, ofBytes, atByte_nil]
  | cons b bs ih =>
      have hpow : 256 ^ bs.length = 2 ^ (8 * bs.length) := by
        rw [pow_mul]
        norm_num
      have hlt := ofBigEndian_lt bs
      rw [hpow] at hlt
      rw [ofBigEndian_cons, atByte_cons, ← ih, hpow, Nat.mul_comm, Nat.testBit_two_pow_mul_add _ hlt]
      split
      · next hlow =>
          constructor
          · exact Or.inr
          · intro h
            exact h.resolve_left fun hhigh => by omega
      · next hhigh =>
          have hzero : (ofBigEndian bs).testBit k = false :=
            Nat.testBit_lt_two_pow (hlt.trans_le (Nat.pow_le_pow_right (by norm_num) (by omega)))
          constructor
          · intro h
            exact Or.inl ⟨by omega, h⟩
          · intro h
            rw [hzero] at h
            simp at h
            exact h.2

/-- The bits of a byte, and behind them its sign. -/
theorem setsBit_iff {b : UInt8} {t : ℕ} (ht : t < 64) :
    SetsBit b t ↔ if t < 8 then b.toNat.testBit t = true else 0x80 ≤ b := by
  have hmsb : b.toBitVec.msb = true ↔ 0x80 ≤ b := by
    rw [BitVec.msb_eq_decide, decide_eq_true_eq]
    exact Iff.rfl
  rw [SetsBit, BitVec.getLsbD_signExtend]
  split
  · simp [ht]
    rfl
  · simp [ht, hmsb]

/-- A bit that the loop sets and that is not the byte's own comes from a byte behind it. -/
theorem atByte_of_setsBit (hbs : Extended bs) (hk : k < 8 * bs.length) (hk64 : k < 64)
    (h : AtByte SetsBit bs k) : AtByte (fun b t => b.toNat.testBit t = true) bs k := by
  obtain ⟨j, c, hc, hle, hbit⟩ := h
  obtain ⟨hj, hcj⟩ := List.getElem?_eq_some_iff.mp hc
  rw [setsBit_iff (by omega)] at hbit
  split at hbit
  · exact ⟨j, c, hc, hle, hbit⟩
  · -- the byte that holds the bit is all ones
    next hbehind =>
    have hi : bs.length - 1 - k / 8 < bs.length := by omega
    have hij : bs.length - 1 - k / 8 < j := by
      rw [shiftAt] at hbehind hle
      omega
    have hones := List.pairwise_iff_getElem.mp hbs _ _ hi hj hij (by rwa [hcj])
    have hshift : shiftAt bs (bs.length - 1 - k / 8) = 8 * (k / 8) := by
      rw [shiftAt]
      omega
    refine ⟨_, 0xFF, by rw [List.getElem?_eq_getElem hi, hones], by rw [hshift]; omega, ?_⟩
    have hall : ∀ t : Fin 8, (0xFF : UInt8).toNat.testBit t.val = true := by decide
    rw [hshift]
    exact hall ⟨k - 8 * (k / 8), by omega⟩

/-- A byte in front of one from `0x80` on is all ones when the loop sets no bits but its own. -/
theorem eq_of_atByte {a b : UInt8} {j : ℕ} (hij : i < j) (ha : bs[i]? = some a) (hb : bs[j]? = some b)
    (hneg : 0x80 ≤ b) (hlen : bs.length = 8)
    (h : ∀ k < 64, AtByte SetsBit bs k → AtByte (fun b t => b.toNat.testBit t = true) bs k) :
    a = 0xFF := by
  have hi := (List.getElem?_eq_some_iff.mp ha).1
  have hj := (List.getElem?_eq_some_iff.mp hb).1
  have hbits : ∀ t < 8, a.toNat.testBit t = true := by
    intro t ht
    have hset : AtByte SetsBit bs (shiftAt bs i + t) := by
      refine ⟨j, b, hb, by rw [shiftAt, shiftAt]; omega, ?_⟩
      rw [setsBit_iff (by rw [shiftAt, shiftAt]; omega), if_neg (by rw [shiftAt, shiftAt]; omega)]
      exact hneg
    obtain ⟨i', a', ha', hle, hbit⟩ := h _ (by rw [shiftAt]; omega) hset
    have hi' := (List.getElem?_eq_some_iff.mp ha').1
    -- a bit of a byte is below 8
    have hlt : shiftAt bs i + t - shiftAt bs i' < 8 := by
      by_contra hge
      have hsmall : a'.toNat < 2 ^ (shiftAt bs i + t - shiftAt bs i') :=
        lt_of_lt_of_le a'.toNat_lt (Nat.pow_le_pow_right (by norm_num) (not_lt.mp hge))
      rw [Nat.testBit_lt_two_pow hsmall] at hbit
      cases hbit
    have hii' : i' = i := by
      rw [shiftAt, shiftAt] at hle hlt
      omega
    rw [hii'] at ha' hbit
    rw [ha, Option.some_inj] at ha'
    rwa [← ha', Nat.add_sub_cancel_left] at hbit
  have hall : ∀ n : Fin 256, (∀ t < 8, n.val.testBit t = true) → n.val = 0xFF := by
    decide +kernel
  exact UInt8.toNat_inj.mp (hall ⟨a.toNat, a.toNat_lt⟩ hbits)

end Bits

/-- Which fields the loop reads right. -/
theorem getBigEndian64_eq_iff {bs : List UInt8} (h : bs.length = 8) :
    getBigEndian64 bs = signed bs ↔ Extended bs := by
  have hbits : getBigEndian64 bs = signed bs ↔ ∀ k < 64,
      (AtByte SetsBit bs k ↔ AtByte (fun b t => b.toNat.testBit t = true) bs k) := by
    rw [getBigEndian64, signed, BitVec.toInt_inj]
    constructor
    · intro heq k hk
      have hbit := @getLsbD_orBytes bs 0 k hk
      rw [heq, BitVec.getLsbD_ofNat] at hbit
      simp only [hk, decide_true, Bool.true_and, BitVec.ofNat_eq_ofNat, BitVec.getLsbD_zero,
        Bool.false_eq_true, false_or] at hbit
      rw [← hbit, testBit_ofBigEndian]
    · intro hall
      apply BitVec.eq_of_getLsbD_eq
      intro k hk
      rw [Bool.eq_iff_iff, getLsbD_orBytes hk, BitVec.getLsbD_ofNat]
      simp only [hk, decide_true, Bool.true_and, BitVec.ofNat_eq_ofNat, BitVec.getLsbD_zero,
        Bool.false_eq_true, false_or]
      rw [hall k hk, testBit_ofBigEndian]
  rw [hbits]
  constructor
  · intro hall
    refine List.pairwise_iff_getElem.mpr fun i j hi hj hij hneg => ?_
    exact eq_of_atByte hij (List.getElem?_eq_getElem hi) (List.getElem?_eq_getElem hj) hneg h
      fun k hk => (hall k hk).mp
  · intro hbs k hk
    constructor
    · exact atByte_of_setsBit hbs (by omega) hk
    · rintro ⟨i, b, hb, hle, hbit⟩
      refine ⟨i, b, hb, hle, ?_⟩
      rw [setsBit_iff (by omega), if_pos]
      · exact hbit
      · by_contra hge
        have hsmall : b.toNat < 2 ^ (k - shiftAt bs i) :=
          lt_of_lt_of_le b.toNat_lt (Nat.pow_le_pow_right (by norm_num) (not_lt.mp hge))
        exact absurd hbit (by simp [Nat.testBit_lt_two_pow hsmall])

/-- **A field is read right** if and only if the bytes in front of one from `0x80` on are all ones. -/
theorem readsBigEndian_iff {bs : List UInt8} (h : bs.length = 8) : ReadsBigEndian bs ↔ Extended bs := by
  rw [← getBigEndian64_eq_iff h]
  constructor
  · exact ReadsBigEndian.field
  · intro heq
    have hdetect : ∀ f v, detect f = some v → v.currentSize = getBigEndian64 (slice f.bytes 48 8) ∧
        v.tableOffset = getBigEndian64 (slice f.bytes 528 8) := by
      intro f v hv
      rw [detect] at hv
      split at hv
      · rw [Option.some_inj] at hv
        rw [← hv]
        exact ⟨rfl, rfl⟩
      · cases hv
    refine ⟨heq, fun f v hv hbs => ?_, fun f v hv hbs => ?_⟩
    · rw [(hdetect f v hv).1, hbs, heq]
    · rw [(hdetect f v hv).2, hbs, heq]

/-- A field of small bytes. -/
theorem readsBigEndian_small : ReadsBigEndian [0, 0, 0, 0, 0x7F, 0, 0, 1] :=
  (readsBigEndian_iff rfl).mpr (by decide)

/-- The field of an image of `0x8000` bytes is read as a negative number. -/
theorem not_readsBigEndian : ¬ ReadsBigEndian [0, 0, 0, 0, 0, 0, 0x80, 0] := by
  intro h
  exact absurd h.field (by decide)

end KernelDrivers.ImDisk.Vhd
