import KernelDrivers.Fat.LongName

/-!
# Long names are read as they are written

The dirents that `FatConstructDirent` writes for a long name are a pile without gaps, its text
is the name, and so every search that gets to them and looks for the entry returns the name.

## Main results

* `pile_constructed` — the dirents written are a pile.
* `fatLocateDirent_constructed` — the round trip.
-/

namespace KernelDrivers.Fat

/-! ## The bytes of a long-name dirent -/

theorem ofNat_bytes (c : UInt16) :
    UInt16.ofNat ((UInt8.ofNat c.toNat).toNat + 256 * (UInt8.ofNat (c.toNat / 256)).toNat) = c := by
  have hc := c.toNat_lt
  have hsum : (UInt8.ofNat c.toNat).toNat + 256 * (UInt8.ofNat (c.toNat / 256)).toNat = c.toNat := by
    simp only [UInt8.toNat_ofNat']
    omega
  rw [hsum, UInt16.ofNat_toNat]

section LfnDirent

variable (ordinal checksum : UInt8) (buffer : List UInt16)

@[simp] theorem ordinal_lfnDirent : (lfnDirent ordinal checksum buffer).ordinal = ordinal := rfl

theorem name_lfnDirent (hlen : buffer.length = 13) :
    (lfnDirent ordinal checksum buffer).name = buffer := by
  have hname : (lfnDirent ordinal checksum buffer).name =
      (List.range 13).map fun k => UInt16.ofNat ((UInt8.ofNat (buffer.getD k 0).toNat).toNat +
        256 * (UInt8.ofNat ((buffer.getD k 0).toNat / 256)).toNat) := rfl
  rw [hname]
  apply List.ext_getElem
  · simp [hlen]
  · intro k hk hk'
    rw [List.getElem_map, ofNat_bytes, List.getElem_range, List.getD_eq_getElem?_getD,
      List.getElem?_eq_getElem hk', Option.getD_some]

end LfnDirent

/-! ## The pieces of a name -/

/-- What fills the last dirent up. -/
def padding (lfn : List UInt16) : List UInt16 :=
  if lfn.length % 13 = 0 then [] else 0 :: List.replicate (12 - lfn.length % 13) 0xffff

section Pieces

variable {lfn : List UInt16} (checksum : UInt8)

theorem lfnBuffer_of_lt {n : ℕ} (hn : n < fatLfnDirentsNeeded lfn) :
    lfnBuffer lfn (fatLfnDirentsNeeded lfn) n = (lfn.drop ((n - 1) * 13)).take 13 := by
  rw [lfnBuffer, if_neg (by omega)]

theorem lfnBuffer_last (hne : lfn ≠ []) :
    lfnBuffer lfn (fatLfnDirentsNeeded lfn) (fatLfnDirentsNeeded lfn) =
      lfn.drop ((fatLfnDirentsNeeded lfn - 1) * 13) ++ padding lfn := by
  have hpos := List.length_pos_iff.mpr hne
  have hlen : (lfn.drop ((fatLfnDirentsNeeded lfn - 1) * 13)).length =
      if lfn.length % 13 = 0 then 13 else lfn.length % 13 := by
    rw [List.length_drop, fatLfnDirentsNeeded]
    split <;> omega
  rw [lfnBuffer, padding]
  by_cases hr : lfn.length % 13 = 0
  · rw [if_pos hr] at hlen
    rw [if_neg (by simp [hr]), if_pos hr, List.append_nil, List.take_of_length_le (by omega)]
  · rw [if_neg hr] at hlen
    have hlt : lfn.length % 13 < 13 := Nat.mod_lt _ (by omega)
    rw [if_pos ⟨rfl, hr⟩, if_neg hr, List.take_of_length_le (by omega : _ ≤ 13),
      List.take_of_length_le (by omega)]

theorem length_lfnBuffer {n : ℕ} (hpos : 0 < n) (hn : n ≤ fatLfnDirentsNeeded lfn) :
    (lfnBuffer lfn (fatLfnDirentsNeeded lfn) n).length = 13 := by
  have hne : lfn ≠ [] := by
    rintro rfl
    simp only [fatLfnDirentsNeeded, List.length_nil] at hn
    omega
  rcases Nat.lt_or_eq_of_le hn with hlt | rfl
  · rw [lfnBuffer_of_lt hlt, List.length_take, List.length_drop]
    rw [fatLfnDirentsNeeded] at hlt
    omega
  · have hlen := List.length_pos_iff.mpr hne
    rw [lfnBuffer_last hne, List.length_append, List.length_drop, padding]
    rw [fatLfnDirentsNeeded] at hpos ⊢
    split
    · simp only [List.length_nil]
      omega
    · simp only [List.length_cons, List.length_replicate]
      omega

theorem name_lfnPiece {n : ℕ} (hpos : 0 < n) (hn : n ≤ fatLfnDirentsNeeded lfn) :
    (lfnPiece lfn checksum n).name = lfnBuffer lfn (fatLfnDirentsNeeded lfn) n :=
  name_lfnDirent _ _ _ (length_lfnBuffer hpos hn)

/-- The pieces of a name from an ordinal up. -/
def piecesFrom (lfn : List UInt16) (checksum : UInt8) (n : ℕ) : List Dirent :=
  (List.range' n (fatLfnDirentsNeeded lfn + 1 - n)).map (lfnPiece lfn checksum)

theorem piecesFrom_eq_cons {n : ℕ} (hn : n ≤ fatLfnDirentsNeeded lfn) :
    piecesFrom lfn checksum n = lfnPiece lfn checksum n :: piecesFrom lfn checksum (n + 1) := by
  rw [piecesFrom, show fatLfnDirentsNeeded lfn + 1 - n = fatLfnDirentsNeeded lfn + 1 - (n + 1) + 1 by
    omega, List.range'_succ, List.map_cons, piecesFrom]

theorem length_piecesFrom (lfn : List UInt16) (checksum : UInt8) (n : ℕ) :
    (piecesFrom lfn checksum n).length = fatLfnDirentsNeeded lfn + 1 - n := by
  simp [piecesFrom]

/-- The units of the pieces are the rest of the name and the padding. -/
theorem flatMap_piecesFrom (hne : lfn ≠ []) {n : ℕ} (hpos : 0 < n)
    (hn : n ≤ fatLfnDirentsNeeded lfn) :
    (piecesFrom lfn checksum n).flatMap Dirent.name = lfn.drop ((n - 1) * 13) ++ padding lfn := by
  induction hk : fatLfnDirentsNeeded lfn - n generalizing n with
  | zero =>
      obtain rfl : n = fatLfnDirentsNeeded lfn := by omega
      have hnil : piecesFrom lfn checksum (fatLfnDirentsNeeded lfn + 1) = [] := by
        simp [piecesFrom]
      rw [piecesFrom_eq_cons checksum hn, hnil, List.flatMap_cons, List.flatMap_nil,
        List.append_nil, name_lfnPiece checksum hpos hn, lfnBuffer_last hne]
  | succ k ih =>
      rw [piecesFrom_eq_cons checksum hn, List.flatMap_cons, name_lfnPiece checksum hpos hn,
        lfnBuffer_of_lt (by omega), ih (by omega) (by omega) (by omega), ← List.append_assoc]
      have hdrop : lfn.drop ((n + 1 - 1) * 13) = (lfn.drop ((n - 1) * 13)).drop 13 := by
        rw [List.drop_drop]
        congr 1
        omega
      rw [hdrop, List.take_append_drop]

theorem takeWhile_append_padding (lfn : List UInt16) {cs : List UInt16} (hnul : 0 ∉ cs) :
    (cs ++ padding lfn).takeWhile (· ≠ 0) = cs := by
  have hall : ∀ c ∈ cs, decide (c ≠ 0) = true := by
    intro c hc
    simpa using ne_of_mem_of_not_mem hc hnul
  rw [List.takeWhile_append_of_pos hall, padding]
  split <;> simp

theorem padded_append_padding (lfn : List UInt16) {cs : List UInt16} (hnul : 0 ∉ cs) :
    Padded (cs ++ padding lfn) := by
  have hall : ∀ c ∈ cs, decide (c ≠ 0) = true := by
    intro c hc
    simpa using ne_of_mem_of_not_mem hc hnul
  rw [Padded, List.dropWhile_append_of_pos hall, padding]
  split
  · simp
  · simp

theorem pileText_piecesFrom (hne : lfn ≠ []) (hnul : 0 ∉ lfn) :
    pileText (piecesFrom lfn checksum 1) = lfn := by
  have hpos : 0 < fatLfnDirentsNeeded lfn := by
    have := List.length_pos_iff.mpr hne
    rw [fatLfnDirentsNeeded]
    omega
  rw [pileText, flatMap_piecesFrom checksum hne Nat.one_pos hpos]
  simpa using takeWhile_append_padding lfn hnul

end Pieces

/-! ## What is written where -/

theorem length_constructLfn (lfn : List UInt16) (checksum : UInt8) (ordinal i : ℕ)
    (ds : List Dirent) : (constructLfn lfn checksum ordinal i ds).length = ds.length := by
  induction ordinal generalizing i ds with
  | zero => rfl
  | succ ordinal ih => rw [constructLfn, ih, List.length_set]

/-- The loop fills the slots from `i` on with falling ordinals and leaves the others. -/
theorem getElem?_constructLfn (lfn : List UInt16) (checksum : UInt8) (ordinal i : ℕ)
    {ds : List Dirent} (hlen : i + ordinal ≤ ds.length) (m : ℕ) :
    (constructLfn lfn checksum ordinal i ds)[m]? =
      if i ≤ m ∧ m < i + ordinal then some (lfnPiece lfn checksum (i + ordinal - m)) else ds[m]? := by
  induction ordinal generalizing i ds with
  | zero => rw [constructLfn, if_neg (by omega)]
  | succ ordinal ih =>
      rw [constructLfn, ih (i + 1) (by rw [List.length_set]; omega)]
      by_cases hm : m = i
      · subst hm
        rw [if_neg (by omega), if_pos (by omega), List.getElem?_set_self (by omega)]
        congr 2
        omega
      · by_cases hin : i + 1 ≤ m ∧ m < i + 1 + ordinal
        · rw [if_pos hin, if_pos (by omega)]
          congr 2
          omega
        · rw [if_neg hin, if_neg (by omega), List.getElem?_set_ne (by omega)]

theorem length_fatConstructDirent (clock : Clock) (chicagoMode : Bool) (f : DirentFields)
    (lfn : Option (List UInt16)) (i : ℕ) (ds : List Dirent) :
    (fatConstructDirent clock chicagoMode f lfn i ds).length = ds.length := by
  rw [fatConstructDirent]
  split
  · rfl
  · split
    · rw [List.length_set]
    · rw [length_constructLfn, List.length_set]

/-- Write an entry into a directory. -/
def Directory.construct (dir : Directory) (clock : Clock) (f : DirentFields) (lfn : List UInt16)
    (i : ℕ) : Directory where
  dirents := fatConstructDirent clock true f (some lfn) i dir.dirents
  size_lt := by
    rw [length_fatConstructDirent]
    exact dir.size_lt

section Constructed

variable (clock : Clock) (f : DirentFields) {lfn : List UInt16} {ds : List Dirent} {i : ℕ}
  {d : Dirent}

theorem getElem?_constructed (hd : ds[i + fatLfnDirentsNeeded lfn]? = some d) (m : ℕ) :
    (fatConstructDirent clock true f (some lfn) (i + fatLfnDirentsNeeded lfn) ds)[m]? =
      if i ≤ m ∧ m < i + fatLfnDirentsNeeded lfn then
        some (lfnPiece lfn (fatComputeLfnChecksum (constructShort clock true f d))
          (i + fatLfnDirentsNeeded lfn - m))
      else if m = i + fatLfnDirentsNeeded lfn then some (constructShort clock true f d)
      else ds[m]? := by
  have hlt := (List.getElem?_eq_some_iff.mp hd).1
  simp only [fatConstructDirent, hd, Nat.add_sub_cancel]
  rw [getElem?_constructLfn _ _ _ _ (by rw [List.length_set]; omega)]
  congr 1
  split
  · next hm => rw [hm, List.getElem?_set_self hlt]
  · next hm => rw [List.getElem?_set_ne (Ne.symm hm)]

theorem fatLfnDirentsNeeded_pos (hne : lfn ≠ []) : 0 < fatLfnDirentsNeeded lfn := by
  have := List.length_pos_iff.mpr hne
  rw [fatLfnDirentsNeeded]
  omega

theorem isLfn_lfnPiece (checksum : UInt8) (n : ℕ) :
    (lfnPiece lfn checksum n).IsLfn checksum := ⟨rfl, rfl, rfl⟩

/-- The piece with the highest ordinal is the last dirent of the name. -/
theorem isLast_lfnPiece (checksum : UInt8) (hne : lfn ≠ []) (hmax : lfn.length ≤ 255)
    (hnul : 0 ∉ lfn) :
    (lfnPiece lfn checksum (fatLfnDirentsNeeded lfn)).IsLast (fatLfnDirentsNeeded lfn) := by
  have hpos := fatLfnDirentsNeeded_pos hne
  have hle : fatLfnDirentsNeeded lfn ≤ 20 := by
    rw [fatLfnDirentsNeeded]
    omega
  have hordinal : (lfnPiece lfn checksum (fatLfnDirentsNeeded lfn)).ordinal =
      UInt8.ofNat (fatLfnDirentsNeeded lfn) ||| Dirent.lastLongEntry := by
    simp [lfnPiece]
  have hall : ∀ k : Fin 21, (UInt8.ofNat k ||| Dirent.lastLongEntry) &&& Dirent.lastLongEntry ≠ 0 ∧
      ((UInt8.ofNat k ||| Dirent.lastLongEntry) &&& ~~~Dirent.lastLongEntry).toNat = k := by decide
  have hk := hall ⟨fatLfnDirentsNeeded lfn, by omega⟩
  refine ⟨hordinal ▸ hk.1, hordinal ▸ hk.2, hpos, hle, ?_⟩
  rw [name_lfnPiece checksum hpos le_rfl, lfnBuffer_last hne]
  apply padded_append_padding
  intro hmem
  exact hnul (List.mem_of_mem_drop hmem)

theorem ordinal_lfnPiece_of_lt (checksum : UInt8) (hmax : lfn.length ≤ 255) {n : ℕ}
    (hn : n < fatLfnDirentsNeeded lfn) : (lfnPiece lfn checksum n).ordinal.toNat = n := by
  rw [fatLfnDirentsNeeded] at hn
  have hordinal : (lfnPiece lfn checksum n).ordinal = UInt8.ofNat n := by
    rw [lfnPiece, fatLfnDirentsNeeded, if_neg (by omega)]
    rfl
  rw [hordinal, UInt8.toNat_ofNat', Nat.mod_eq_of_lt (by omega)]

/-- The dirents of the name are a pile without gaps. -/
theorem pile_constructed (hne : lfn ≠ []) (hmax : lfn.length ≤ 255) (hnul : 0 ∉ lfn)
    (hd : ds[i + fatLfnDirentsNeeded lfn]? = some d) {m : ℕ} (hm : m < fatLfnDirentsNeeded lfn) :
    Pile (fatConstructDirent clock true f (some lfn) (i + fatLfnDirentsNeeded lfn) ds)
      (fatComputeLfnChecksum (constructShort clock true f d)) (fatLfnDirentsNeeded lfn - m) i (i + m)
      (piecesFrom lfn (fatComputeLfnChecksum (constructShort clock true f d))
        (fatLfnDirentsNeeded lfn - m)) := by
  have hslot : ∀ m < fatLfnDirentsNeeded lfn,
      (fatConstructDirent clock true f (some lfn) (i + fatLfnDirentsNeeded lfn) ds)[i + m]? =
        some (lfnPiece lfn (fatComputeLfnChecksum (constructShort clock true f d))
          (fatLfnDirentsNeeded lfn - m)) := by
    intro m hm
    rw [getElem?_constructed clock f hd, if_pos (by omega)]
    congr 2
    omega
  induction m with
  | zero =>
      have hone : piecesFrom lfn (fatComputeLfnChecksum (constructShort clock true f d))
          (fatLfnDirentsNeeded lfn) =
          [lfnPiece lfn (fatComputeLfnChecksum (constructShort clock true f d))
            (fatLfnDirentsNeeded lfn)] := by
        rw [piecesFrom_eq_cons _ le_rfl]
        simp [piecesFrom]
      rw [Nat.sub_zero, Nat.add_zero, hone]
      exact .last (hslot 0 hm) (isLfn_lfnPiece _ _) (isLast_lfnPiece _ hne hmax hnul)
  | succ m ih =>
      have hprev := ih (by omega)
      rw [show fatLfnDirentsNeeded lfn - m = fatLfnDirentsNeeded lfn - (m + 1) + 1 by omega] at hprev
      rw [piecesFrom_eq_cons _ (by omega)]
      refine hprev.next (by omega) ?_ (hslot _ hm) (isLfn_lfnPiece _ _)
        (ordinal_lfnPiece_of_lt _ hmax (by omega)) (by omega)
      intro k hk hk'
      omega

/-! ## The short dirent -/

@[simp] theorem byte_setByte_of_ne {d : Dirent} {o o' : Fin 32} (b : UInt8) (h : o' ≠ o) :
    (d.setByte o b).byte o' = d.byte o' := Function.update_of_ne h _ _

theorem byte_zero_setTimeFields (zeroAndSetTimeFields : Bool) (setCreationTime : Option ℤ)
    (d : Dirent) :
    (setTimeFields clock true zeroAndSetTimeFields setCreationTime d).byte 0 = d.byte 0 := by
  cases zeroAndSetTimeFields <;> simp [setTimeFields, setCreationFields, Dirent.setWord]

theorem byte_zero_constructShort (d : Dirent) :
    (constructShort clock true f d).byte 0 = (fatStringTo8dot3 f.fileName).getD 0 0 := by
  simp only [constructShort]
  rw [byte_setByte_of_ne _ (by decide), byte_setByte_of_ne _ (by decide)]
  split
  · rw [byte_zero_setTimeFields]
    rfl
  · rfl

/-- The first byte of an 8.3 name marks neither a free slot nor a deleted one. -/
theorem fatStringTo8dot3_head {s : List UInt8} (hs : s.head? ≠ some 0) :
    (fatStringTo8dot3 s).getD 0 0 ≠ Dirent.neverUsed ∧
      (fatStringTo8dot3 s).getD 0 0 ≠ Dirent.deleted := by
  have hbase : ∀ c cs, (s.takeWhile (· ≠ 0x2e)).take 11 = c :: cs → c ≠ 0 := by
    rintro c cs hbase rfl
    have hprefix : (s.takeWhile (· ≠ 0x2e)).take 11 <+: s :=
      (List.take_prefix 11 _).trans (List.takeWhile_prefix _)
    rw [hbase] at hprefix
    obtain ⟨rest, rfl⟩ := hprefix
    exact hs rfl
  have hmarked : ∀ cs : List UInt8, (Dirent.really0e5 :: cs).getD 0 0 ≠ Dirent.neverUsed ∧
      (Dirent.really0e5 :: cs).getD 0 0 ≠ Dirent.deleted := by
    intro cs
    exact ⟨(by decide : Dirent.really0e5 ≠ Dirent.neverUsed),
      (by decide : Dirent.really0e5 ≠ Dirent.deleted)⟩
  rw [fatStringTo8dot3]
  cases hb : (s.takeWhile (· ≠ 0x2e)).take 11 with
  | nil =>
      exact ⟨(by decide : (0x20 : UInt8) ≠ Dirent.neverUsed),
        (by decide : (0x20 : UInt8) ≠ Dirent.deleted)⟩
  | cons c cs =>
      split
      · exact hmarked _
      · next hne =>
          refine ⟨hbase c cs hb, ?_⟩
          intro hdeleted
          exact hne _ (congrArg (· :: _) hdeleted)

theorem isShort_constructShort (hname : f.fileName.head? ≠ some 0)
    (hattr : f.attributes &&& Dirent.attrVolumeId = 0) (d : Dirent) :
    (constructShort clock true f d).IsShort := by
  have hbyte := byte_zero_constructShort clock f d
  have hhead := fatStringTo8dot3_head hname
  constructor
  · rw [Dirent.ordinal, hbyte]
    exact hhead.1
  · rw [Dirent.ordinal, hbyte]
    exact hhead.2
  · have hattributes : (constructShort clock true f d).attributes = f.attributes := by
      simp only [Dirent.attributes, constructShort]
      rw [byte_setByte_of_ne _ (by decide)]
      simp [Dirent.setByte]
    rw [hattributes]
    exact hattr

end Constructed

/-! ## The round trip -/

section RoundTrip

variable (nls : Nls) (ccb : Ccb)

/-- The search from an offset gets to slot `i` with the given run in progress. -/
def Reaches (dir : Directory) (start i : ℕ) (run : Option LfnRun) : Prop :=
  startSlot start ≤ i ∧ scanOver nls true true ccb (startSlot start * 32) none
    ((dir.dirents.take i).drop (startSlot start)) = some run

/-- Whether a search takes a short dirent with a long name. -/
def Ccb.selects (d : Dirent) (name : List UInt16) : Bool :=
  ccb.matchAll || ccb.matchesShort nls d || ccb.matchesLong nls name

/-- A search that leaves some slots behind goes on at the slot after them. -/
theorem locateFrom_append {off : ℕ} {run run' : Option LfnRun} {ds : List Dirent}
    (h : scanOver nls true true ccb off run ds = some run') (rest : List Dirent) :
    locateFrom nls true true ccb off run (ds ++ rest) =
      locateFrom nls true true ccb (off + ds.length * 32) run' rest := by
  induction ds generalizing off run with
  | nil =>
      cases h
      simp
  | cons d ds ih =>
      rw [scanOver] at h
      rw [List.cons_append, locateFrom]
      split at h
      · cases h
      · rw [ih h, List.length_cons]
        rw [show off + 32 + ds.length * 32 = off + (ds.length + 1) * 32 by ring]

theorem Reaches.locateAt_eq {dir : Directory} {start i : ℕ} {run : Option LfnRun}
    (h : Reaches nls ccb dir start i run) (hi : i ≤ dir.dirents.length) :
    fatLocateDirent nls true true ccb dir start = locateAt nls ccb dir.dirents i run := by
  obtain ⟨hle, hscan⟩ := h
  have hsplit : dir.dirents.drop (startSlot start) =
      (dir.dirents.take i).drop (startSlot start) ++ dir.dirents.drop i := by
    conv_lhs => rw [← List.take_append_drop i dir.dirents]
    rw [List.drop_append_of_le_length (by rw [List.length_take]; omega)]
  rw [fatLocateDirent_eq, locateAt, hsplit, locateFrom_append nls ccb hscan, locateAt]
  congr 1
  rw [List.length_drop, List.length_take]
  omega

/-- A search that gets to the dirents written for an entry, and is for this entry, returns its
short dirent with the long name that was written. -/
theorem fatLocateDirent_constructed (clock : Clock) (f : DirentFields) (lfn : List UInt16)
    (dir : Directory) (start i : ℕ) (run : Option LfnRun) (d : Dirent)
    (hpos : 1 ≤ lfn.length) (hmax : lfn.length ≤ 255) (hnul : 0 ∉ lfn)
    (hname : f.fileName.head? ≠ some 0) (hattr : f.attributes &&& Dirent.attrVolumeId = 0)
    (hd : (dir.construct clock f lfn (i + fatLfnDirentsNeeded lfn)).dirents[
      i + fatLfnDirentsNeeded lfn]? = some d)
    (hreach : Reaches nls ccb (dir.construct clock f lfn (i + fatLfnDirentsNeeded lfn)) start i run)
    (hselects : ccb.selects nls d lfn) :
    fatLocateDirent nls true true ccb (dir.construct clock f lfn (i + fatLfnDirentsNeeded lfn)) start =
      .found ((i + fatLfnDirentsNeeded lfn) * 32) d lfn (!ccb.matchAll && ccb.matchesShort nls d) := by
  have hne : lfn ≠ [] := List.length_pos_iff.mp hpos
  have hneeded := fatLfnDirentsNeeded_pos hne
  have hlt := (List.getElem?_eq_some_iff.mp hd).1
  obtain ⟨old, hold⟩ : ∃ old, dir.dirents[i + fatLfnDirentsNeeded lfn]? = some old := by
    rw [Directory.construct, length_fatConstructDirent] at hlt
    exact ⟨_, List.getElem?_eq_getElem hlt⟩
  obtain rfl : constructShort clock true f old = d := by
    rw [Directory.construct, getElem?_constructed clock f hold, if_neg (by omega), if_pos rfl] at hd
    exact Option.some.inj hd
  have hpile := pile_constructed clock f hne hmax hnul hold (Nat.sub_one_lt hneeded.ne')
  rw [Nat.sub_sub_self hneeded] at hpile
  change Pile (dir.construct clock f lfn (i + fatLfnDirentsNeeded lfn)).dirents _ _ _ _ _ at hpile
  have hlen := length_piecesFrom lfn
    (fatComputeLfnChecksum (constructShort clock true f old)) 1
  have htext := pileText_piecesFrom
    (fatComputeLfnChecksum (constructShort clock true f old)) hne hnul
  have htake := pileText_eq_take hpile.ne_nil (by
    rw [htext, hlen, fatLfnDirentsNeeded]
    omega)
  rw [hreach.locateAt_eq nls ccb (by omega),
    locateAt_consecutive nls ccb hpile (by rw [hlen]; omega) run]
  have hlast : i + (fatLfnDirentsNeeded lfn - 1) + 1 = i + fatLfnDirentsNeeded lfn := by omega
  apply locateAt_stop
  · rw [hlast]
    exact hd
  · rw [hlast]
    apply locateStep_short _ _ (isShort_constructShort clock f hname hattr old) _ hselects
    rw [← hlast, validLfn_pileRun, ← htake, htext]

/-- A clock whose times do not fit. -/
def Clock.stopped : Clock where
  systemTime := 0
  fatNtTimeToFatTime _ _ := none

/-- A new archive file `T`. -/
def fieldsT : DirentFields where
  fileName := [0x54]
  componentReallyLowercase := false
  extensionReallyLowercase := false
  attributes := 0x20
  zeroAndSetTimeFields := true
  setCreationTime := none

/-- A directory of sixteen free slots. -/
def freshDirectory : Directory where
  dirents := List.replicate 16 ⟨fun _ => 0⟩
  size_lt := by decide

/-- The name of fourteen units, written at the start of an empty directory. -/
theorem fatLocateDirent_constructed_fourteenA :
    fatLocateDirent Nls.ascii true true (.longNameQuery fourteenA)
      (freshDirectory.construct Clock.stopped fieldsT fourteenA 2) 0 =
      .found 64 (constructShort Clock.stopped true fieldsT ⟨fun _ => 0⟩) fourteenA false :=
  fatLocateDirent_constructed Nls.ascii (.longNameQuery fourteenA) Clock.stopped fieldsT fourteenA
    freshDirectory 0 0 none (constructShort Clock.stopped true fieldsT ⟨fun _ => 0⟩)
    (by decide) (by decide) (by decide) (by decide) (by decide) rfl ⟨le_rfl, rfl⟩ (by decide)

end RoundTrip

end KernelDrivers.Fat
