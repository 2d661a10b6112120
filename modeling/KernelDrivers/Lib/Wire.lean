import Mathlib.Tactic

/-!
# Values and memories as strings of bytes

A value of `k` bytes goes over a wire with its low byte first, and a range of a memory goes as the
bytes it holds.

## Main definitions

* `toBytes`, `ofBytes` — a value and its bytes.
* `slice` — the bytes of a range of a memory.
* `place` — a memory with a string of bytes stored at an offset.
-/

namespace KernelDrivers

/-- The low `k` bytes of a value, low byte first. -/
def toBytes : ℕ → ℕ → List UInt8
  | 0, _ => []
  | k + 1, n => UInt8.ofNat n :: toBytes k (n / 256)

def ofBytes : List UInt8 → ℕ
  | [] => 0
  | b :: bs => b.toNat + 256 * ofBytes bs

@[simp] theorem length_toBytes (k n : ℕ) : (toBytes k n).length = k := by
  induction k generalizing n with
  | zero => rfl
  | succ k ih => simp [toBytes, ih]

theorem ofBytes_toBytes (k n : ℕ) : ofBytes (toBytes k n) = n % 256 ^ k := by
  induction k generalizing n with
  | zero => simp [toBytes, ofBytes, Nat.mod_one]
  | succ k ih =>
      have hlow : (UInt8.ofNat n).toNat = n % 256 := UInt8.toNat_ofNat'
      have hpow : 256 ^ (k + 1) = 256 * 256 ^ k := pow_succ' 256 k
      rw [toBytes, ofBytes, ih, hlow, hpow, Nat.mod_mul]

theorem ofBytes_toBytes_of_lt {k n : ℕ} (h : n < 256 ^ k) : ofBytes (toBytes k n) = n := by
  rw [ofBytes_toBytes, Nat.mod_eq_of_lt h]

theorem ofBytes_lt (bs : List UInt8) : ofBytes bs < 256 ^ bs.length := by
  induction bs with
  | nil => simp [ofBytes]
  | cons b bs ih =>
      have hb := b.toNat_lt
      rw [ofBytes, List.length_cons, pow_succ]
      omega

theorem ofBytes_append (as bs : List UInt8) :
    ofBytes (as ++ bs) = ofBytes as + 256 ^ as.length * ofBytes bs := by
  induction as with
  | nil => simp [ofBytes]
  | cons a as ih =>
      rw [List.cons_append, ofBytes, ofBytes, ih, List.length_cons, pow_succ]
      ring

theorem toBytes_ofBytes (bs : List UInt8) : toBytes bs.length (ofBytes bs) = bs := by
  induction bs with
  | nil => rfl
  | cons b bs ih =>
      have hlow : UInt8.ofNat (b.toNat + 256 * ofBytes bs) = b := by
        apply UInt8.toNat_inj.mp
        rw [UInt8.toNat_ofNat', Nat.add_mul_mod_self_left]
        exact Nat.mod_eq_of_lt b.toNat_lt
      have hhigh : (b.toNat + 256 * ofBytes bs) / 256 = ofBytes bs := by
        have := b.toNat_lt
        omega
      rw [List.length_cons, ofBytes, toBytes, hlow, hhigh, ih]

/-- The bytes of a range of a memory. -/
def slice (m : ℕ → UInt8) (first count : ℕ) : List UInt8 :=
  (List.range count).map fun i => m (first + i)

/-- Store a string of bytes. -/
def place (m : ℕ → UInt8) (first : ℕ) (bs : List UInt8) : ℕ → UInt8 := fun i =>
  if first ≤ i then bs[i - first]?.getD (m i) else m i

section Memory

variable (m : ℕ → UInt8) {first i : ℕ}

@[simp] theorem length_slice (first count : ℕ) : (slice m first count).length = count := by
  simp [slice]

theorem getElem?_slice (first : ℕ) {count : ℕ} (h : i < count) :
    (slice m first count)[i]? = some (m (first + i)) := by
  simp [slice, h]

theorem slice_congr {m' : ℕ → UInt8} {first count : ℕ}
    (h : ∀ i, first ≤ i → i < first + count → m i = m' i) : slice m first count = slice m' first count := by
  rw [slice, slice, List.map_inj_left]
  intro i hi
  have hlt := List.mem_range.mp hi
  exact h _ (by omega) (by omega)

theorem slice_append (first a b : ℕ) :
    slice m first a ++ slice m (first + a) b = slice m first (a + b) := by
  rw [slice, slice, slice, List.range_add, List.map_append, List.map_map]
  simp only [Function.comp_def, Nat.add_assoc]

theorem slice_succ (first n : ℕ) : slice m first (n + 1) = m first :: slice m (first + 1) n := by
  rw [Nat.add_comm n 1, ← slice_append]
  rfl

/-- Two strings that lie one behind the other. -/
theorem slice_eq_append {first : ℕ} {as bs : List UInt8} :
    slice m first (as ++ bs).length = as ++ bs ↔
      slice m first as.length = as ∧ slice m (first + as.length) bs.length = bs := by
  rw [List.length_append, ← slice_append]
  exact ⟨fun h => List.append_inj h (length_slice m first as.length),
    fun h => by rw [h.1, h.2]⟩

theorem take_slice (first a b : ℕ) : (slice m first (a + b)).take a = slice m first a := by
  rw [← slice_append, List.take_left' (length_slice m first a)]

theorem drop_slice (first a b : ℕ) : (slice m first (a + b)).drop a = slice m (first + a) b := by
  rw [← slice_append, List.drop_left' (length_slice m first a)]

theorem place_of_lt (bs : List UInt8) (h : i < first) : place m first bs i = m i :=
  if_neg (Nat.not_le_of_lt h)

theorem place_of_le {bs : List UInt8} (h : first + bs.length ≤ i) : place m first bs i = m i := by
  rw [place, if_pos (by omega), List.getElem?_eq_none (by omega)]
  rfl

theorem place_of_getElem? {bs : List UInt8} {b : UInt8} (h : first ≤ i)
    (hb : bs[i - first]? = some b) : place m first bs i = b := by
  rw [place, if_pos h, hb]
  rfl

@[simp] theorem place_nil (first : ℕ) : place m first [] = m := by
  funext i
  simp [place]

@[simp] theorem slice_zero (first : ℕ) : slice m first 0 = [] := rfl

/-- Two strings that are stored one behind the other. -/
theorem place_append (first : ℕ) (as bs : List UInt8) :
    place (place m first as) (first + as.length) bs = place m first (as ++ bs) := by
  funext i
  rcases Nat.lt_or_ge i first with h | h
  · rw [place_of_lt _ _ (by omega), place_of_lt _ _ h, place_of_lt _ _ h]
  · rcases Nat.lt_or_ge i (first + as.length) with hin | hout
    · rw [place_of_lt _ _ hin, place, place, if_pos h, if_pos h,
        List.getElem?_append_left (by omega)]
    · rw [place, if_pos hout, place_of_le m hout, place, if_pos h,
        List.getElem?_append_right (by omega), Nat.sub_sub]

theorem slice_place (first : ℕ) (bs : List UInt8) : slice (place m first bs) first bs.length = bs := by
  apply List.ext_getElem?
  intro i
  rcases Nat.lt_or_ge i bs.length with h | h
  · rw [getElem?_slice _ _ h, List.getElem?_eq_getElem h]
    congr 1
    refine place_of_getElem? _ (Nat.le_add_right _ _) ?_
    rw [Nat.add_sub_cancel_left, List.getElem?_eq_getElem h]
  · rw [List.getElem?_eq_none (by simpa using h), List.getElem?_eq_none h]

/-- Bytes stored over others that do not reach further. -/
theorem place_place_of_le {as bs : List UInt8} (h : as.length ≤ bs.length) (first : ℕ) :
    place (place m first as) first bs = place m first bs := by
  funext i
  rcases Nat.lt_or_ge i first with hlt | hge
  · rw [place_of_lt _ _ hlt, place_of_lt _ _ hlt, place_of_lt _ _ hlt]
  · rcases Nat.lt_or_ge i (first + bs.length) with hin | hout
    · have hget := List.getElem?_eq_getElem (show i - first < bs.length by omega)
      rw [place_of_getElem? _ hge hget, place_of_getElem? _ hge hget]
    · rw [place_of_le _ hout, place_of_le _ hout, place_of_le _ (by omega)]

/-- Bytes that are there already. -/
theorem place_slice (first n : ℕ) : place m first (slice m first n) = m := by
  funext i
  rcases Nat.lt_or_ge i first with hlt | hge
  · exact place_of_lt _ _ hlt
  · rcases Nat.lt_or_ge i (first + n) with hin | hout
    · refine place_of_getElem? _ hge ?_
      rw [getElem?_slice _ _ (by omega), Nat.add_sub_cancel' hge]
    · exact place_of_le _ (by rwa [length_slice])

theorem slice_place_of_disjoint {p count : ℕ} {bs : List UInt8}
    (h : p + count ≤ first ∨ first + bs.length ≤ p) :
    slice (place m first bs) p count = slice m p count := by
  rw [slice, slice, List.map_inj_left]
  intro i hi
  have hlt := List.mem_range.mp hi
  rcases h with h | h
  · exact place_of_lt m bs (by omega)
  · exact place_of_le m (by omega)

end Memory

end KernelDrivers
