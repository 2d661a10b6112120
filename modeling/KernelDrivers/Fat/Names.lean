import KernelDrivers.Lib.SearchTree
import Mathlib.Data.List.Lex

/-!
# The order of names

`CompareNames` looks at the first byte of a name as unsigned and leaves the rest to
`FatCompareNames`, which looks at bytes as signed characters.  On names that are not empty
the two together are one linear order: the lexicographic order of the bytes, the first
unsigned and the others signed.

## Main definitions

* `Name` — a byte string that is not empty.
* `compareNames`, `fatCompareNames` — the comparison of the source.
* `Name.rank` — the numbers by which names are ordered.
-/

namespace KernelDrivers.Fat

/-- A name of positive length.  Unicode names are compared as bytes, too. -/
structure Name where
  bytes : List UInt8
  ne_nil : bytes ≠ []
  deriving DecidableEq

/-- The value of a byte as a `CHAR`. -/
def schar (b : UInt8) : ℤ := if b.toNat < 128 then b.toNat else b.toNat - 256

theorem schar_injective : Function.Injective schar := by
  intro a b h
  apply UInt8.toNat_inj.mp
  have ha := a.toNat_lt
  have hb := b.toNat_lt
  simp only [schar] at h
  split_ifs at h <;> omega

/-- The number of leading bytes that are equal, among the first `n`. -/
def rtlCompareMemory : List UInt8 → List UInt8 → ℕ → ℕ
  | a :: as, b :: bs, n + 1 => if a = b then rtlCompareMemory as bs n + 1 else 0
  | _, _, _ => 0

/-- Compare two names byte by byte, as characters. -/
def fatCompareNames (a b : List UInt8) : Ordering :=
  let minLength := if a.length < b.length then a.length else b.length
  let i := rtlCompareMemory a b minLength
  if i < minLength then
    if schar (a.getD i 0) < schar (b.getD i 0) then .lt else .gt
  else if a.length < b.length then .lt
  else if b.length < a.length then .gt
  else .eq

/-- Compare two names, the first byte first. -/
def compareNames (a b : Name) : Ordering :=
  let a0 := a.bytes.head a.ne_nil
  let b0 := b.bytes.head b.ne_nil
  if a0 ≠ b0 then
    if a0.toNat < b0.toNat then .lt else .gt
  else fatCompareNames a.bytes b.bytes

/-! ## Its order -/

theorem fatCompareNames_nil_cons (b : UInt8) (bs : List UInt8) :
    fatCompareNames [] (b :: bs) = .lt := by
  simp [fatCompareNames, rtlCompareMemory]

theorem fatCompareNames_cons_nil (a : UInt8) (as : List UInt8) :
    fatCompareNames (a :: as) [] = .gt := by
  simp [fatCompareNames, rtlCompareMemory]

theorem fatCompareNames_cons_self (a : UInt8) (as bs : List UInt8) :
    fatCompareNames (a :: as) (a :: bs) = fatCompareNames as bs := by
  have hmin : (if (a :: as).length < (a :: bs).length then (a :: as).length else (a :: bs).length) =
      (if as.length < bs.length then as.length else bs.length) + 1 := by
    simp only [List.length_cons]
    split_ifs <;> omega
  rw [fatCompareNames, fatCompareNames, hmin]
  simp [rtlCompareMemory]

theorem fatCompareNames_cons_of_ne {a b : UInt8} (hne : a ≠ b) (as bs : List UInt8) :
    fatCompareNames (a :: as) (b :: bs) = if schar a < schar b then .lt else .gt := by
  have hmin : (if (a :: as).length < (b :: bs).length then (a :: as).length else (b :: bs).length) =
      (if as.length < bs.length then as.length else bs.length) + 1 := by
    simp only [List.length_cons]
    split_ifs <;> omega
  rw [fatCompareNames, hmin]
  simp [rtlCompareMemory, hne]

/-- Lexicographic comparison of lists that begin differently. -/
theorem compares_cons_of_ne {a b : ℤ} (hne : a ≠ b) (as bs : List ℤ) :
    (if a < b then Ordering.lt else .gt).Compares (a :: as) (b :: bs) := by
  split
  · next hlt => exact List.cons_lt_cons_iff.mpr (Or.inl hlt)
  · next hge => exact List.cons_lt_cons_iff.mpr (Or.inl (lt_of_le_of_ne (not_lt.mp hge) hne.symm))

theorem compares_cons_self {o : Ordering} (a : ℤ) {as bs : List ℤ} (h : o.Compares as bs) :
    o.Compares (a :: as) (a :: bs) := by
  cases o with
  | lt => exact List.cons_lt_cons_iff.mpr (Or.inr ⟨rfl, h⟩)
  | eq => exact congrArg _ h
  | gt => exact List.cons_lt_cons_iff.mpr (Or.inr ⟨rfl, h⟩)

/-- `FatCompareNames` is the lexicographic order of signed characters. -/
theorem fatCompareNames_compares (a b : List UInt8) :
    (fatCompareNames a b).Compares (a.map schar) (b.map schar) := by
  induction a generalizing b with
  | nil =>
      cases b with
      | nil => rfl
      | cons b bs =>
          rw [fatCompareNames_nil_cons]
          exact List.nil_lt_cons _ _
  | cons a as ih =>
      cases b with
      | nil =>
          rw [fatCompareNames_cons_nil]
          exact List.nil_lt_cons _ _
      | cons b bs =>
          rw [List.map_cons, List.map_cons]
          by_cases hab : a = b
          · subst hab
            rw [fatCompareNames_cons_self]
            exact compares_cons_self _ (ih bs)
          · rw [fatCompareNames_cons_of_ne hab]
            exact compares_cons_of_ne (fun h => hab (schar_injective h)) _ _

/-- The numbers by which names are ordered: the first byte unsigned, the others signed. -/
def Name.rank (a : Name) : List ℤ := ((a.bytes.head a.ne_nil).toNat : ℤ) :: a.bytes.tail.map schar

theorem Name.rank_injective : Function.Injective Name.rank := by
  rintro ⟨a, ha⟩ ⟨b, hb⟩ h
  cases a with
  | nil => exact absurd rfl ha
  | cons a as =>
      cases b with
      | nil => exact absurd rfl hb
      | cons b bs =>
          simp only [rank, List.head_cons, List.tail_cons, List.cons.injEq, Nat.cast_inj] at h
          obtain ⟨h0, h1⟩ := h
          have hab : a = b := UInt8.toNat_inj.mp h0
          have hrest : as = bs := schar_injective.list_map h1
          subst hab hrest
          rfl

instance : LinearOrder Name := LinearOrder.lift' Name.rank Name.rank_injective

/-- **The order of names**: `CompareNames` compares the ranks. -/
theorem compareNames_compares (a b : Name) : (compareNames a b).Compares a b := by
  have hrank : (compareNames a b).Compares a.rank b.rank := by
    obtain ⟨a, ha⟩ := a
    obtain ⟨b, hb⟩ := b
    cases a with
    | nil => exact absurd rfl ha
    | cons a as =>
        cases b with
        | nil => exact absurd rfl hb
        | cons b bs =>
            rw [compareNames]
            by_cases hab : a = b
            · subst hab
              simp only [List.head_cons, ne_eq, not_true_eq_false, if_false, fatCompareNames_cons_self]
              exact compares_cons_self _ (fatCompareNames_compares as bs)
            · have hne : (a.toNat : ℤ) ≠ b.toNat := fun h => hab (UInt8.toNat_inj.mp (by omega))
              simp only [List.head_cons, ne_eq, hab, not_false_eq_true, if_true]
              have := compares_cons_of_ne hne (as.map schar) (bs.map schar)
              simp only [Nat.cast_lt] at this
              exact this
  cases h : compareNames a b with
  | lt => exact hrank.eq_lt.mp h
  | eq => exact Name.rank_injective (hrank.eq_eq.mp h)
  | gt => exact hrank.eq_gt.mp h

end KernelDrivers.Fat
