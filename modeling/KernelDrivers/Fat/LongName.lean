import KernelDrivers.Fat.Locate

/-!
# What the search takes for a long name

The long name that `FatLocateDirent` returns with a short dirent is the text of a pile:
long-name dirents with falling ordinals and one checksum.  The search does not see whether
they stand next to each other, because a short dirent or a label between two of them leaves
the run as it is.  `Spells` is what callers rely on when they compute the offset of the first
long-name dirent from the length of the name.

## Main results

* `LfnKept.go`, `LfnKept.found` — one turn of the loop keeps the run a pile, and a name that
  it returns is the text of one.
* `locateAt_pile` — every pile is found.
* `soundLongNames_iff` — the names are spelt by the slots before the short dirent exactly
  when the piles of the directory have no gaps and reach into their last dirent.
-/

namespace KernelDrivers.Fat

/-! ## Units of a last dirent -/

/-- Nothing but `0xffff` stands behind the first terminator. -/
def Padded (cs : List UInt16) : Prop := ∀ c ∈ (cs.dropWhile (· ≠ 0)).tail, c = 0xffff

instance (cs : List UInt16) : Decidable (Padded cs) :=
  inferInstanceAs (Decidable (∀ c ∈ (cs.dropWhile (· ≠ 0)).tail, c = 0xffff))

theorem lfnSize_some (index size : ℕ) (cs : List UInt16) :
    lfnSize index (some size) cs = if cs.all (· = 0xffff) then some size else none := by
  induction cs generalizing index with
  | nil => simp [lfnSize]
  | cons c cs ih =>
      rw [lfnSize, ih]
      by_cases hc : c = 0xffff <;> simp [hc]

theorem lfnSize_none (index : ℕ) (cs : List UInt16) :
    lfnSize index none cs =
      if Padded cs then some (index + (cs.takeWhile (· ≠ 0)).length) else none := by
  induction cs generalizing index with
  | nil => simp [lfnSize, Padded]
  | cons c cs ih =>
      rw [lfnSize]
      by_cases hc : c = 0
      · rw [if_pos hc, lfnSize_some]
        simp [Padded, hc]
      · rw [if_neg hc, ih]
        simp [Padded, hc, Nat.add_assoc, Nat.add_comm 1]

theorem start_eq_some_iff {off : ℕ} {d : Dirent} {r : LfnRun} :
    LfnRun.start off d = some r ↔ Padded d.name ∧
      r = { checksum := d.checksum
            size := ((d.ordinal &&& ~~~Dirent.lastLongEntry).toNat - 1) * 13 +
              (d.name.takeWhile (· ≠ 0)).length
            index := ((d.ordinal &&& ~~~Dirent.lastLongEntry).toNat - 1) * 13
            ordinal := (d.ordinal &&& ~~~Dirent.lastLongEntry).toNat
            byteOffset := off
            chars := d.name } := by
  rw [LfnRun.start, lfnSize_none]
  by_cases hp : Padded d.name
  · simp [hp, eq_comm]
  · simp [hp]

/-! ## Piles -/

namespace Dirent

/-- A slot that the search walks over without touching the long name in progress: a short
dirent or a label. -/
structure Passed (d : Dirent) : Prop where
  used : d.ordinal ≠ neverUsed
  live : d.ordinal ≠ deleted
  not_lfn : d.attributes ≠ attrLfn

structure IsShort (d : Dirent) : Prop where
  used : d.ordinal ≠ neverUsed
  live : d.ordinal ≠ deleted
  not_label : d.attributes &&& attrVolumeId = 0

theorem IsShort.passed {d : Dirent} (h : d.IsShort) : d.Passed where
  used := h.used
  live := h.live
  not_lfn hlfn := by
    have hlabel := h.not_label
    rw [hlfn] at hlabel
    exact absurd hlabel (by decide)

/-- A long-name dirent of a name with the given checksum. -/
structure IsLfn (checksum : UInt8) (d : Dirent) : Prop where
  attributes_eq : d.attributes = attrLfn
  checksum_eq : d.checksum = checksum
  mustBeZero_eq : d.mustBeZero = 0

/-- The ordinal `k` of the last dirent of a name. -/
structure IsLast (k : ℕ) (d : Dirent) : Prop where
  flag : d.ordinal &&& lastLongEntry ≠ 0
  ordinal_eq : (d.ordinal &&& ~~~lastLongEntry).toNat = k
  pos : 0 < k
  le : k ≤ 20
  padded : Padded d.name

end Dirent

/-- A pile in a directory, from slot `first` to slot `last`: `es` are its dirents from the
one at `last`, with ordinal `n`, up to the one at `first`, which is the last of the name.
Short dirents and labels may stand between them. -/
inductive Pile (ds : List Dirent) (checksum : UInt8) : (n first last : ℕ) → List Dirent → Prop
  | last {k i : ℕ} {e : Dirent} (he : ds[i]? = some e) (hlfn : e.IsLfn checksum)
      (hlast : e.IsLast k) : Pile ds checksum k i i [e]
  | next {n first i j : ℕ} {e : Dirent} {es : List Dirent} (hpile : Pile ds checksum (n + 1) first i es)
      (hlt : i < j) (hgap : ∀ m, i < m → m < j → ∃ d, ds[m]? = some d ∧ d.Passed)
      (he : ds[j]? = some e) (hlfn : e.IsLfn checksum) (hordinal : e.ordinal.toNat = n)
      (hpos : 0 < n) : Pile ds checksum n first j (e :: es)

/-- The size that the last dirent of a pile gives to the name. -/
def pileSize : List Dirent → ℕ
  | [] => 0
  | [e] => (e.name.takeWhile (· ≠ 0)).length
  | _ :: es => 13 + pileSize es

/-- The units of a pile up to the first terminator. -/
def pileText (es : List Dirent) : List UInt16 := (es.flatMap Dirent.name).takeWhile (· ≠ 0)

/-- The run that the search has built from a pile. -/
def pileRun (checksum : UInt8) (n last : ℕ) (es : List Dirent) : LfnRun where
  checksum := checksum
  size := (n - 1) * 13 + pileSize es
  index := (n - 1) * 13
  ordinal := n
  byteOffset := last * 32
  chars := es.flatMap Dirent.name

namespace Pile

variable {ds : List Dirent} {checksum : UInt8} {n first last : ℕ} {es : List Dirent}

theorem ne_nil (h : Pile ds checksum n first last es) : es ≠ [] := by
  cases h <;> simp

theorem pos (h : Pile ds checksum n first last es) : 0 < n := by
  cases h with
  | last _ _ hlast => exact hlast.pos
  | next _ _ _ _ _ _ hpos => exact hpos

theorem le_twenty (h : Pile ds checksum n first last es) : n ≤ 20 := by
  induction h with
  | last _ _ hlast => exact hlast.le
  | next _ _ _ _ _ _ _ ih => omega

/-- The dirents of a pile are at different slots. -/
theorem first_add_length_le (h : Pile ds checksum n first last es) :
    first + es.length ≤ last + 1 := by
  induction h with
  | last => simp
  | next _ _ _ _ _ _ _ ih =>
      simp only [List.length_cons]
      omega

end Pile

theorem pileSize_cons {e : Dirent} {es : List Dirent} (hne : es ≠ []) :
    pileSize (e :: es) = 13 + pileSize es := by
  cases es with
  | nil => exact absurd rfl hne
  | cons => rfl

theorem length_flatMap_name (es : List Dirent) : (es.flatMap Dirent.name).length = 13 * es.length := by
  induction es with
  | nil => rfl
  | cons e es ih =>
      rw [List.flatMap_cons, List.length_append, ih, Dirent.length_name, List.length_cons]
      ring

theorem pileSize_le {es : List Dirent} (hne : es ≠ []) :
    13 * (es.length - 1) ≤ pileSize es ∧ pileSize es ≤ 13 * es.length := by
  induction es with
  | nil => exact absurd rfl hne
  | cons e es ih =>
      cases es with
      | nil =>
          have hle : (e.name.takeWhile (· ≠ 0)).length ≤ e.name.length :=
            (List.takeWhile_prefix _).length_le
          rw [Dirent.length_name] at hle
          simpa [pileSize] using hle
      | cons e' es =>
          have h := ih (by simp)
          rw [pileSize_cons (by simp)]
          simp only [List.length_cons] at h ⊢
          omega

/-! ## One turn of the loop -/

/-- A byte with the last-entry flag. -/
theorem or_flag {b : UInt8} (h : b &&& Dirent.lastLongEntry ≠ 0) :
    b = UInt8.ofNat (b &&& ~~~Dirent.lastLongEntry).toNat ||| Dirent.lastLongEntry := by
  have hall : ∀ v : BitVec 8, v &&& 0x40#8 ≠ 0#8 → v = (v &&& ~~~0x40#8) ||| 0x40#8 := by decide
  rw [UInt8.ofNat_toNat]
  apply UInt8.toBitVec_inj.mp
  exact hall b.toBitVec fun hzero => h (UInt8.toBitVec_inj.mp hzero)

theorem opensRun_iff {d : Dirent} :
    d.opensRun = true ↔ d.ordinal &&& Dirent.lastLongEntry ≠ 0 ∧
      (d.ordinal &&& ~~~Dirent.lastLongEntry).toNat ≤ 20 ∧ d.mustBeZero = 0 :=
  decide_eq_true_iff

/-- What a dirent that continues a run is. -/
theorem next_eq_some_iff {r r' : LfnRun} {off : ℕ} {d : Dirent} (hle : r.ordinal ≤ 20) :
    r.next off d = some r' ↔ 0 < d.ordinal.toNat ∧ d.ordinal.toNat + 1 = r.ordinal ∧
      d.checksum = r.checksum ∧ d.mustBeZero = 0 ∧
      r' = { r with index := r.index - 13, ordinal := d.ordinal.toNat, byteOffset := off
                    chars := d.name ++ r.chars } := by
  have hpos : 0 < d.ordinal.toNat ↔ d.ordinal ≠ 0 := by
    rw [Nat.pos_iff_ne_zero, ne_eq, ne_eq, ← UInt8.toNat_inj]
    rfl
  have hflag : d.ordinal.toNat + 1 = r.ordinal → d.ordinal &&& Dirent.lastLongEntry = 0 := by
    intro hordinal
    have hall : ∀ v : BitVec 8, v.toNat < 20 → v &&& 0x40#8 = 0#8 := by decide
    apply UInt8.toBitVec_inj.mp
    exact hall d.ordinal.toBitVec (by rw [UInt8.toNat_toBitVec]; omega)
  rw [LfnRun.next]
  split
  · next hbad =>
      constructor
      · intro h
        cases h
      · rintro ⟨hne, hordinal, hsum, hzero, -⟩
        have hne := hpos.mp hne
        have hflag := hflag hordinal
        tauto
  · next hgood =>
      push Not at hgood
      obtain ⟨-, hne, hordinal, hsum, hzero⟩ := hgood
      simp [hpos, hne, hordinal, hsum, hzero, eq_comm]

/-- The run before slot `p` comes from a pile, behind which everything was passed. -/
def LfnKept (ds : List Dirent) (p : ℕ) (run : Option LfnRun) : Prop :=
  ∀ r, run = some r → ∃ n first last es, Pile ds r.checksum n first last es ∧
    r = pileRun r.checksum n last es ∧ last < p ∧
    ∀ m, last < m → m < p → ∃ d, ds[m]? = some d ∧ d.Passed

theorem lfnKept_none (ds : List Dirent) (p : ℕ) : LfnKept ds p none := by
  intro r hr
  cases hr

section Turn

variable {ds : List Dirent} {p : ℕ} {d : Dirent} {run run' : Option LfnRun}

/-- Passing a slot keeps the run. -/
theorem LfnKept.pass (h : LfnKept ds p run) (hd : ds[p]? = some d) (hpassed : d.Passed) :
    LfnKept ds (p + 1) run := by
  intro r hr
  obtain ⟨n, first, last, es, hpile, heq, hlt, hgap⟩ := h r hr
  refine ⟨n, first, last, es, hpile, heq, by omega, ?_⟩
  intro m hm hmp
  rcases Nat.lt_succ_iff_lt_or_eq.mp hmp with hmp | rfl
  · exact hgap m hm hmp
  · exact ⟨d, hd, hpassed⟩

/-- A continued run is a longer pile. -/
theorem LfnKept.next {r r' : LfnRun} (h : LfnKept ds p (some r)) (hd : ds[p]? = some d)
    (hlfn : d.attributes = Dirent.attrLfn) (hnext : r.next (p * 32) d = some r') :
    LfnKept ds (p + 1) (some r') := by
  obtain ⟨n, first, last, es, hpile, heq, hlt, hgap⟩ := h r rfl
  have hordinal : r.ordinal = n := by rw [heq, pileRun]
  obtain ⟨hpos, hord, hsum, hzero, rfl⟩ :=
    (next_eq_some_iff (by rw [hordinal]; exact hpile.le_twenty)).mp hnext
  have hn : d.ordinal.toNat + 1 = n := by rw [hord, hordinal]
  rw [← hn] at hpile
  intro r' hr'
  cases hr'
  refine ⟨d.ordinal.toNat, first, p, d :: es,
    hpile.next hlt hgap hd ⟨hlfn, hsum, hzero⟩ rfl hpos, ?_, by omega, ?_⟩
  · have hsize := congrArg LfnRun.size heq
    have hindex := congrArg LfnRun.index heq
    have hchars := congrArg LfnRun.chars heq
    simp only [pileRun] at hsize hindex hchars ⊢
    rw [hsize, hindex, hchars, pileSize_cons hpile.ne_nil, List.flatMap_cons]
    congr 1 <;> omega
  · intro m hm hmp
    omega

/-- A run that is opened is a pile of one dirent. -/
theorem LfnKept.start {r : LfnRun} (hd : ds[p]? = some d) (hlfn : d.attributes = Dirent.attrLfn)
    (hopens : d.opensRun = true) (hpos : d.ordinal &&& ~~~Dirent.lastLongEntry ≠ 0)
    (hstart : LfnRun.start (p * 32) d = some r) : LfnKept ds (p + 1) (some r) := by
  obtain ⟨hflag, hle, hzero⟩ := opensRun_iff.mp hopens
  obtain ⟨hpadded, rfl⟩ := start_eq_some_iff.mp hstart
  have hpos : 0 < (d.ordinal &&& ~~~Dirent.lastLongEntry).toNat := by
    apply Nat.pos_of_ne_zero
    intro hzero
    exact hpos (UInt8.toNat_inj.mp hzero)
  intro r hr
  cases hr
  refine ⟨_, p, p, [d], .last hd ⟨hlfn, rfl, hzero⟩ ⟨hflag, rfl, hpos, hle, hpadded⟩, ?_, by omega, ?_⟩
  · simp [pileRun, pileSize]
  · intro m hm hmp
    omega

/-- A turn at a long-name dirent. -/
theorem LfnKept.readLfn (h : LfnKept ds p run) (hd : ds[p]? = some d)
    (hlfn : d.attributes = Dirent.attrLfn) (hgo : readLfn (p * 32) d run = .go run') :
    LfnKept ds (p + 1) run' := by
  rw [Fat.readLfn] at hgo
  split at hgo
  · next r' hnext =>
      cases hgo
      obtain ⟨r, rfl, hnext⟩ := Option.bind_eq_some_iff.mp hnext
      exact h.next hd hlfn hnext
  · split at hgo
    · next hopens =>
        split at hgo
        · cases hgo
        · next hpos =>
            cases hgo
            cases hstart : LfnRun.start (p * 32) d with
            | none => exact lfnKept_none ds (p + 1)
            | some r => exact LfnKept.start hd hlfn hopens hpos hstart
    · cases hgo
      exact lfnKept_none ds (p + 1)

theorem validLfn_eq_some_iff {off : ℕ} {name : List UInt16} :
    validLfn off d run = some name ↔ ∃ r, run = some r ∧
      (off = r.byteOffset + 32 ∧ r.index = 0 ∧ fatComputeLfnChecksum d = r.checksum) ∧
      r.chars.take r.size = name := by
  simp [validLfn, Option.bind_eq_some_iff]

variable (nls : Nls) (ccb : Ccb)

theorem readShort_go {off : ℕ} (h : readShort nls ccb off d run = .go run') : run' = run := by
  rw [readShort] at h
  split_ifs at h
  split at h
  · split_ifs at h
    cases h
    rfl
  · cases h
    rfl

/-- One turn keeps the run a pile. -/
theorem LfnKept.go (h : LfnKept ds p run) (hd : ds[p]? = some d)
    (hgo : locateStep nls true true ccb (p * 32) d run = .go run') : LfnKept ds (p + 1) run' := by
  rw [locateStep] at hgo
  split_ifs at hgo with hnever hdeleted hlfn hlabel hvolume
  · cases hgo
    exact lfnKept_none ds (p + 1)
  · exact h.readLfn hd hlfn.2.2 hgo
  · cases hgo
    exact h.pass hd ⟨hnever, hdeleted, fun hattr => hlfn ⟨rfl, rfl, hattr⟩⟩
  · cases readShort_go nls ccb hgo
    exact h.pass hd ⟨hnever, hdeleted, fun hattr => hlfn ⟨rfl, rfl, hattr⟩⟩

/-- A name that a turn returns is the one the short dirent takes from the run. -/
theorem readShort_found {off o : ℕ} {e : Dirent} {name : List UInt16} {dos : Bool}
    (h : readShort nls ccb off d run = .stop (.found o e name dos)) (hne : name ≠ []) :
    o = off ∧ e = d ∧ validLfn off d run = some name := by
  have hget : (validLfn off d run).getD [] = name → validLfn off d run = some name := by
    intro hget
    cases hlfn : validLfn off d run with
    | none =>
        rw [hlfn] at hget
        exact absurd hget.symm hne
    | some name' =>
        rw [hlfn] at hget
        exact congrArg some hget
  rw [readShort] at h
  split_ifs at h
  · injection h with h
    injection h with ho he hname
    exact ⟨ho.symm, he.symm, hget hname⟩
  · injection h with h
    injection h with ho he hname
    exact ⟨ho.symm, he.symm, hget hname⟩
  · split at h
    · next name' hlfn =>
        split_ifs at h
        injection h with h
        injection h with ho he hname
        exact ⟨ho.symm, he.symm, hname ▸ hlfn⟩
    · cases h

/-- A name that a turn returns is the text of a pile that ends right before the slot. -/
theorem LfnKept.found {o : ℕ} {e : Dirent} {name : List UInt16} {dos : Bool}
    (h : LfnKept ds p run)
    (hstop : locateStep nls true true ccb (p * 32) d run = .stop (.found o e name dos))
    (hne : name ≠ []) :
    o = p * 32 ∧ e = d ∧ d.IsShort ∧ ∃ first last es, p = last + 1 ∧
      Pile ds (fatComputeLfnChecksum d) 1 first last es ∧
      name = (es.flatMap Dirent.name).take (pileSize es) := by
  rw [locateStep] at hstop
  split_ifs at hstop with hnever hdeleted hlfn hlabel hvolume
  · injection hstop with hstop
    cases hstop
  · exfalso
    rw [Fat.readLfn] at hstop
    split at hstop
    · cases hstop
    · split_ifs at hstop
      injection hstop with hstop
      cases hstop
  · injection hstop with hstop
    injection hstop with _ _ hname
    exact absurd hname.symm hne
  · obtain ⟨rfl, rfl, hvalid⟩ := readShort_found nls ccb hstop hne
    obtain ⟨r, rfl, ⟨hoff, hindex, hsum⟩, hname⟩ := validLfn_eq_some_iff.mp hvalid
    obtain ⟨n, first, last, es, hpile, heq, hlt, -⟩ := h r rfl
    rw [heq] at hoff hindex hname
    simp only [pileRun] at hoff hindex hname
    have hn : n = 1 := by
      have := hpile.pos
      omega
    subst hn
    refine ⟨rfl, rfl, ⟨hnever, hdeleted, not_not.mp hlabel⟩, first, last, es, by omega, ?_, ?_⟩
    · rw [hsum]
      exact hpile
    · simpa using hname.symm

end Turn

/-! ## The whole search -/

section Search

variable (nls : Nls) (ccb : Ccb)

/-- The rest of the search, from slot `p` on. -/
def locateAt (ds : List Dirent) (p : ℕ) (run : Option LfnRun) : Located :=
  locateFrom nls true true ccb (p * 32) run (ds.drop p)

theorem fatLocateDirent_eq (dir : Directory) (start : ℕ) :
    fatLocateDirent nls true true ccb dir start =
      locateAt nls ccb dir.dirents (startSlot start) none := rfl

variable {ds : List Dirent} {p : ℕ} {d : Dirent} {run run' : Option LfnRun}

theorem locateAt_eq (hd : ds[p]? = some d) :
    locateAt nls ccb ds p run =
      match locateStep nls true true ccb (p * 32) d run with
      | .stop result => result
      | .go run => locateAt nls ccb ds (p + 1) run := by
  obtain ⟨hp, rfl⟩ := List.getElem?_eq_some_iff.mp hd
  rw [locateAt, List.drop_eq_getElem_cons hp, locateFrom]
  cases locateStep nls true true ccb (p * 32) ds[p] run with
  | stop result => rfl
  | go run =>
      have hnext : (p + 1) * 32 = p * 32 + 32 := by omega
      simp only [locateAt, hnext]

theorem locateAt_go (hd : ds[p]? = some d)
    (hgo : locateStep nls true true ccb (p * 32) d run = .go run') :
    locateAt nls ccb ds p run = locateAt nls ccb ds (p + 1) run' := by
  rw [locateAt_eq nls ccb hd, hgo]

theorem locateAt_stop {result : Located} (hd : ds[p]? = some d)
    (hstop : locateStep nls true true ccb (p * 32) d run = .stop result) :
    locateAt nls ccb ds p run = result := by
  rw [locateAt_eq nls ccb hd, hstop]

theorem locateAt_of_length_le (hp : ds.length ≤ p) : locateAt nls ccb ds p run = .notFound := by
  rw [locateAt, List.drop_eq_nil_of_le hp, locateFrom]

/-- A name that the search returns is the text of a pile right before the short dirent. -/
theorem LfnKept.located {o : ℕ} {e : Dirent} {name : List UInt16} {dos : Bool}
    (hkept : LfnKept ds p run) (hfound : locateAt nls ccb ds p run = .found o e name dos)
    (hne : name ≠ []) :
    ∃ first last es, o = (last + 1) * 32 ∧ ds[last + 1]? = some e ∧ e.IsShort ∧
      Pile ds (fatComputeLfnChecksum e) 1 first last es ∧
      name = (es.flatMap Dirent.name).take (pileSize es) := by
  induction hk : ds.length - p generalizing p run with
  | zero =>
      rw [locateAt_of_length_le nls ccb (by omega)] at hfound
      cases hfound
  | succ k ih =>
      have hp : p < ds.length := by omega
      have hd : ds[p]? = some ds[p] := List.getElem?_eq_getElem hp
      cases hturn : locateStep nls true true ccb (p * 32) ds[p] run with
      | stop result =>
          rw [locateAt_stop nls ccb hd hturn] at hfound
          rw [hfound] at hturn
          obtain ⟨rfl, rfl, hshort, first, last, es, rfl, hpile, hname⟩ :=
            hkept.found nls ccb hturn hne
          exact ⟨first, last, es, rfl, hd, hshort, hpile, hname⟩
      | go run' =>
          rw [locateAt_go nls ccb hd hturn] at hfound
          exact ih (hkept.go nls ccb hd hturn) hfound (by omega)

end Search

/-! ## A search over a pile -/

section Read

variable (nls : Nls) (ccb : Ccb) {ds : List Dirent} {d : Dirent} {checksum : UInt8}

/-- A turn at a long-name dirent that is in use. -/
theorem locateStep_lfn {off : ℕ} {run : Option LfnRun} (hattr : d.attributes = Dirent.attrLfn)
    (hused : d.ordinal ≠ Dirent.neverUsed) (hlive : d.ordinal ≠ Dirent.deleted) :
    locateStep nls true true ccb off d run = readLfn off d run := by
  simp [locateStep, hattr, hused, hlive]

theorem Dirent.IsLast.ordinal_ne {k : ℕ} (h : d.IsLast k) :
    d.ordinal ≠ Dirent.neverUsed ∧ d.ordinal ≠ Dirent.deleted := by
  constructor <;> intro hordinal
  · have hflag := h.flag
    rw [hordinal] at hflag
    exact hflag (by decide)
  · have hle := h.le
    rw [← h.ordinal_eq, hordinal] at hle
    exact absurd hle (by decide)

/-- The last dirent of a name opens a run, whatever was in progress. -/
theorem locateAt_last {k i : ℕ} (hd : ds[i]? = some d) (hlfn : d.IsLfn checksum)
    (hlast : d.IsLast k) (run : Option LfnRun) :
    locateAt nls ccb ds i run =
      locateAt nls ccb ds (i + 1) (some (pileRun checksum k i [d])) := by
  apply locateAt_go _ _ hd
  rw [locateStep_lfn nls ccb hlfn.attributes_eq hlast.ordinal_ne.1 hlast.ordinal_ne.2]
  have hdropped : run.bind (LfnRun.next · (i * 32) d) = none := by
    cases run with
    | none => rfl
    | some r => simp [LfnRun.next, hlast.flag]
  have hopens : d.opensRun = true := by
    rw [opensRun_iff, hlast.ordinal_eq]
    exact ⟨hlast.flag, hlast.le, hlfn.mustBeZero_eq⟩
  have hpos : d.ordinal &&& ~~~Dirent.lastLongEntry ≠ 0 := by
    intro hzero
    have hpos := hlast.pos
    rw [← hlast.ordinal_eq, hzero] at hpos
    exact absurd hpos (by decide)
  have hstart : LfnRun.start (i * 32) d = some (pileRun checksum k i [d]) := by
    rw [start_eq_some_iff]
    refine ⟨hlast.padded, ?_⟩
    simp [pileRun, pileSize, hlast.ordinal_eq, hlfn.checksum_eq]
  simp [readLfn, hdropped, hopens, hpos, hstart]

/-- The next dirent of a pile continues its run. -/
theorem locateAt_next {n first i j : ℕ} {es : List Dirent}
    (hpile : Pile ds checksum (n + 1) first i es) (hd : ds[j]? = some d) (hlfn : d.IsLfn checksum)
    (hordinal : d.ordinal.toNat = n) (hpos : 0 < n) :
    locateAt nls ccb ds j (some (pileRun checksum (n + 1) i es)) =
      locateAt nls ccb ds (j + 1) (some (pileRun checksum n j (d :: es))) := by
  have hle := hpile.le_twenty
  have hused : d.ordinal ≠ Dirent.neverUsed := by
    intro hzero
    rw [hzero] at hordinal
    exact absurd hordinal.symm hpos.ne'
  have hlive : d.ordinal ≠ Dirent.deleted := by
    intro hdeleted
    rw [hdeleted] at hordinal
    have : Dirent.deleted.toNat = 229 := rfl
    omega
  apply locateAt_go _ _ hd
  rw [locateStep_lfn nls ccb hlfn.attributes_eq hused hlive]
  have hnext : (pileRun checksum (n + 1) i es).next (j * 32) d =
      some (pileRun checksum n j (d :: es)) := by
    rw [next_eq_some_iff hle]
    refine ⟨by omega, by simp [pileRun, hordinal], hlfn.checksum_eq, hlfn.mustBeZero_eq, ?_⟩
    simp only [pileRun, pileSize_cons hpile.ne_nil, List.flatMap_cons, hordinal]
    congr 1 <;> omega
  simp [readLfn, hnext]

/-- A pile without gaps is read in any search. -/
theorem locateAt_consecutive {n first last : ℕ} {es : List Dirent}
    (h : Pile ds checksum n first last es) (hcons : last + 1 = first + es.length)
    (run : Option LfnRun) :
    locateAt nls ccb ds first run =
      locateAt nls ccb ds (last + 1) (some (pileRun checksum n last es)) := by
  induction h with
  | last he hlfn hlast => exact locateAt_last nls ccb he hlfn hlast run
  | @next n first i j e es hpile hlt hgap he hlfn hordinal hpos ih =>
      have hle := hpile.first_add_length_le
      rw [List.length_cons] at hcons
      obtain rfl : j = i + 1 := by omega
      rw [ih (by omega), locateAt_next nls ccb hpile he hlfn hordinal hpos]

/-- A short dirent takes the name of the complete pile before it. -/
theorem validLfn_pileRun (last : ℕ) (es : List Dirent) :
    validLfn ((last + 1) * 32) d (some (pileRun (fatComputeLfnChecksum d) 1 last es)) =
      some ((es.flatMap Dirent.name).take (pileSize es)) := by
  rw [validLfn_eq_some_iff]
  refine ⟨_, rfl, ⟨?_, ?_, rfl⟩, ?_⟩
  · simp only [pileRun]
    ring
  · simp [pileRun]
  · simp [pileRun]

/-- A turn at a short dirent with a long name that the search is for. -/
theorem locateStep_short {off : ℕ} {run : Option LfnRun} {name : List UInt16}
    (hshort : d.IsShort) (hvalid : validLfn off d run = some name)
    (hselects : ccb.matchAll || ccb.matchesShort nls d || ccb.matchesLong nls name) :
    locateStep nls true true ccb off d run =
      .stop (.found off d name (!ccb.matchAll && ccb.matchesShort nls d)) := by
  have hlfn := hshort.passed.not_lfn
  cases hall : ccb.matchAll <;> cases hdos : ccb.matchesShort nls d <;>
    simp_all [locateStep, readShort, hshort.used, hshort.live, hshort.not_label]

end Read

/-! ## Every pile is found -/

/-- Look for a long name only. -/
def Ccb.longNameQuery (template : List UInt16) : Ccb where
  matchAll := false
  matchVolumeId := false
  skipShortNameCompare := true
  queryTemplateMixed := false
  containsWildCards := false
  oemWild := []
  oemConstant := []
  unicodeQueryTemplate := template

section Found

variable (nls : Nls) (template : List UInt16) {ds : List Dirent} {d : Dirent}

/-- A run that is not complete stays as it is at a short dirent or a label. -/
theorem locateStep_passed {off : ℕ} {r : LfnRun} (hpassed : d.Passed) (hindex : r.index ≠ 0) :
    locateStep nls true true (.longNameQuery template) off d (some r) = .go (some r) := by
  have hvalid : validLfn off d (some r) = none := by
    rw [Option.eq_none_iff_forall_ne_some]
    intro name hname
    obtain ⟨r', hr', ⟨-, hzero, -⟩, -⟩ := validLfn_eq_some_iff.mp hname
    cases hr'
    exact hindex hzero
  simp [locateStep, readShort, hvalid, hpassed.used, hpassed.live, hpassed.not_lfn,
    Ccb.longNameQuery, Ccb.matchesShort]

theorem locateAt_gap {i j : ℕ} {r : LfnRun} (hij : i ≤ j) (hindex : r.index ≠ 0)
    (hgap : ∀ m, i ≤ m → m < j → ∃ d, ds[m]? = some d ∧ d.Passed) :
    locateAt nls (.longNameQuery template) ds i (some r) =
      locateAt nls (.longNameQuery template) ds j (some r) := by
  induction j, hij using Nat.le_induction with
  | base => rfl
  | succ j hij ih =>
      obtain ⟨d, hd, hpassed⟩ := hgap j hij (by omega)
      rw [ih fun m him hmj => hgap m him (by omega),
        locateAt_go _ _ hd (locateStep_passed nls template hpassed hindex)]

/-- The search that begins at a pile has read it when it is behind it. -/
theorem locateAt_pile {checksum : UInt8} {n first last : ℕ} {es : List Dirent}
    (h : Pile ds checksum n first last es) (run : Option LfnRun) :
    locateAt nls (.longNameQuery template) ds first run =
      locateAt nls (.longNameQuery template) ds (last + 1) (some (pileRun checksum n last es)) := by
  induction h with
  | last he hlfn hlast => exact locateAt_last nls _ he hlfn hlast run
  | next hpile hlt hgap he hlfn hordinal hpos ih =>
      rw [ih, locateAt_gap nls template hlt (by simp [pileRun]; omega)
        fun m him hmj => hgap m him hmj, locateAt_next nls _ hpile he hlfn hordinal hpos]

/-- A search for the text of a complete pile returns it. -/
theorem locateAt_pile_found {first last : ℕ} {es : List Dirent}
    (h : Pile ds (fatComputeLfnChecksum d) 1 first last es) (hd : ds[last + 1]? = some d)
    (hshort : d.IsShort) :
    locateAt nls (.longNameQuery (nls.upcaseUnicodeString ((es.flatMap Dirent.name).take (pileSize es))))
      ds first none = .found ((last + 1) * 32) d ((es.flatMap Dirent.name).take (pileSize es)) false := by
  rw [locateAt_pile nls _ h]
  apply locateAt_stop _ _ hd
  apply locateStep_short _ _ hshort (validLfn_pileRun last es)
  simp [Ccb.longNameQuery, Ccb.matchesLong, nls.length_upcase, nls.areNamesEqual_self]

end Found

/-! ## Names and slots -/

/-- The `k` slots before slot `i`, the nearest first. -/
def slotsBefore (ds : List Dirent) (i k : ℕ) : List Dirent := ((ds.take i).drop (i - k)).reverse

/-- The ordinal byte of dirent `k` of a name in `needed` dirents. -/
def ordinalByte (needed k : ℕ) : UInt8 :=
  if k = needed then UInt8.ofNat k ||| Dirent.lastLongEntry else UInt8.ofNat k

/-- The slots before slot `i` spell a long name for the short dirent there. -/
structure Spells (ds : List Dirent) (i : ℕ) (d : Dirent) (name : List UInt16) : Prop where
  needed_le : fatLfnDirentsNeeded name ≤ i
  entry : ∀ j < fatLfnDirentsNeeded name, ∃ e, ds[i - 1 - j]? = some e ∧
    e.attributes = Dirent.attrLfn ∧ e.ordinal = ordinalByte (fatLfnDirentsNeeded name) (j + 1) ∧
    e.checksum = fatComputeLfnChecksum d
  text : name = pileText (slotsBefore ds i (fatLfnDirentsNeeded name))

/-- Every long name that a search of the directory returns is spelt by the slots right before
the short dirent. -/
def SoundLongNames (nls : Nls) (dir : Directory) : Prop :=
  ∀ ccb start o d name dos, fatLocateDirent nls true true ccb dir start = .found o d name dos →
    name ≠ [] → ∃ i, o = i * 32 ∧ dir.dirents[i]? = some d ∧ d.IsShort ∧ Spells dir.dirents i d name

/-- The complete piles of two or more dirents have no gaps, and no terminator before the
second unit of their last dirent. -/
def SoundPiles (ds : List Dirent) : Prop :=
  ∀ first last es d, Pile ds (fatComputeLfnChecksum d) 1 first last es → ds[last + 1]? = some d →
    d.IsShort → 1 < es.length →
      last + 1 = first + es.length ∧ 13 * (es.length - 1) < (pileText es).length

theorem getElem?_slotsBefore {ds : List Dirent} {i k j : ℕ} (hk : k ≤ i) (hi : i ≤ ds.length)
    (hj : j < k) : (slotsBefore ds i k)[j]? = ds[i - 1 - j]? := by
  have hlen : ((ds.take i).drop (i - k)).length = k := by
    simp only [List.length_drop, List.length_take]
    omega
  rw [slotsBefore, List.getElem?_reverse (by omega), hlen, List.getElem?_drop,
    List.getElem?_take_of_lt (by omega)]
  congr 1
  omega

theorem length_slotsBefore (ds : List Dirent) {i k : ℕ} (hk : k ≤ i) (hi : i ≤ ds.length) :
    (slotsBefore ds i k).length = k := by
  simp only [slotsBefore, List.length_reverse, List.length_drop, List.length_take]
  omega

namespace Pile

variable {ds : List Dirent} {checksum : UInt8} {n first last : ℕ} {es : List Dirent}

theorem isLfn (h : Pile ds checksum n first last es) : ∀ e ∈ es, e.IsLfn checksum := by
  induction h with
  | last _ hlfn _ => simpa using hlfn
  | next _ _ _ _ hlfn _ _ ih => simpa using ⟨hlfn, ih⟩

theorem last_lt (h : Pile ds checksum n first last es) : last < ds.length := by
  cases h with
  | last he => exact (List.getElem?_eq_some_iff.mp he).1
  | next _ _ _ he => exact (List.getElem?_eq_some_iff.mp he).1

/-- The ordinals of a pile rise by one, and the flag is on the last dirent only. -/
theorem ordinal (h : Pile ds checksum n first last es) :
    ∀ j e, es[j]? = some e →
      e.ordinal = ordinalByte (n + es.length - 1) (n + j) ∧ n + es.length - 1 ≤ 20 := by
  induction h with
  | @last k i e he hlfn hlast =>
      intro j e' hj
      obtain ⟨rfl, rfl⟩ : j = 0 ∧ e' = e := by
        cases j with
        | zero => simpa [eq_comm] using hj
        | succ j => simp at hj
      refine ⟨?_, by simpa using hlast.le⟩
      rw [ordinalByte, if_pos (by simp), Nat.add_zero, ← hlast.ordinal_eq]
      exact or_flag hlast.flag
  | @next n first i j e es hpile hlt hgap he hlfn hordinal hpos ih =>
      have hlen : es.length ≠ 0 := by simpa using hpile.ne_nil
      have hle : n + 1 + es.length - 1 ≤ 20 := by
        have h0 : es[0]? = some (es.get ⟨0, by omega⟩) := List.getElem?_eq_getElem (by omega)
        exact (ih 0 _ h0).2
      intro m e' hm
      rw [List.length_cons]
      cases m with
      | zero =>
          obtain rfl : e = e' := by simpa using hm
          refine ⟨?_, by omega⟩
          rw [ordinalByte, if_neg (by omega), Nat.add_zero, ← hordinal, UInt8.ofNat_toNat]
      | succ m =>
          have h := (ih m e' (by simpa using hm)).1
          refine ⟨?_, by omega⟩
          rw [h]
          congr 1 <;> omega

/-- As far as the slots below the end of a pile are long-name dirents, they are the pile's. -/
theorem getElem?_of_lfn (h : Pile ds checksum n first last es) {m : ℕ} (hm : m ≤ es.length)
    (hlfn : ∀ j < m, ∃ e, ds[last - j]? = some e ∧ e.attributes = Dirent.attrLfn) :
    (∀ j < m, es[j]? = ds[last - j]?) ∧ (m = es.length → last + 1 = first + es.length) := by
  induction h generalizing m with
  | @last k i e he =>
      refine ⟨?_, fun _ => by simp⟩
      intro j hj
      obtain rfl : j = 0 := by
        simp only [List.length_singleton] at hm
        omega
      simpa using he.symm
  | @next n first i j e es hpile hlt hgap he _ _ _ ih =>
      have hlen : es.length ≠ 0 := by simpa using hpile.ne_nil
      cases m with
      | zero => simp
      | succ m =>
          have hadj : m = 0 ∨ i + 1 = j := by
            by_contra! hnot
            obtain ⟨e', he', hattr⟩ := hlfn 1 (by omega)
            obtain ⟨d, hd, hpassed⟩ := hgap (j - 1) (by omega) (by omega)
            rw [hd] at he'
            cases he'
            exact hpassed.not_lfn hattr
          have hrest : (∀ j' < m, es[j']? = ds[i - j']?) ∧
              (m = es.length → i + 1 = first + es.length) := by
            apply ih (by simpa using hm)
            intro j' hj'
            obtain ⟨e', he', hattr⟩ := hlfn (j' + 1) (by omega)
            refine ⟨e', ?_, hattr⟩
            rw [← he']
            congr 1
            omega
          refine ⟨?_, ?_⟩
          · intro j' hj'
            cases j' with
            | zero => simpa using he.symm
            | succ j' =>
                rw [List.getElem?_cons_succ, hrest.1 j' (by omega)]
                congr 1
                omega
          · intro hm'
            rw [List.length_cons] at hm' ⊢
            have := hrest.2 (by omega)
            omega

/-- A pile without gaps is the slots before its end. -/
theorem getElem?_of_consecutive (h : Pile ds checksum n first last es)
    (hcons : last + 1 = first + es.length) : ∀ j < es.length, es[j]? = ds[last - j]? := by
  induction h with
  | @last k i e he =>
      intro j hj
      obtain rfl : j = 0 := by simpa using hj
      simpa using he.symm
  | @next n first i j e es hpile hlt hgap he _ _ _ ih =>
      have hle := hpile.first_add_length_le
      rw [List.length_cons] at hcons
      intro j' hj'
      cases j' with
      | zero => simpa using he.symm
      | succ j' =>
          rw [List.getElem?_cons_succ, ih (by omega) j' (by simpa using hj')]
          congr 1
          omega

theorem eq_slotsBefore (h : Pile ds checksum n first last es)
    (hslots : ∀ j < es.length, es[j]? = ds[last - j]?) (hle : es.length ≤ last + 1) :
    es = slotsBefore ds (last + 1) es.length := by
  have hlast := h.last_lt
  apply List.ext_getElem?
  intro j
  by_cases hj : j < es.length
  · rw [getElem?_slotsBefore hle (by omega) hj, hslots j hj]
    rfl
  · have hlen := length_slotsBefore ds hle (by omega)
    rw [List.getElem?_eq_none (by omega), List.getElem?_eq_none (by omega)]

end Pile

/-! ## The text of a pile -/

/-- A text that reaches into the last dirent has the size that this dirent gives. -/
theorem pileText_eq_take {es : List Dirent} (hne : es ≠ [])
    (hreach : 13 * (es.length - 1) < (pileText es).length) :
    pileText es = (es.flatMap Dirent.name).take (pileSize es) := by
  induction es with
  | nil => exact absurd rfl hne
  | cons e es ih =>
      cases hes : es with
      | nil =>
          simp only [pileText, pileSize, List.flatMap_cons, List.flatMap_nil, List.append_nil]
          exact (List.prefix_iff_eq_take.mp (List.takeWhile_prefix _))
      | cons e' es' =>
          have hne' : es ≠ [] := by simp [hes]
          rw [← hes]
          rw [List.length_cons, Nat.add_sub_cancel] at hreach
          -- the text passes the first dirent, so no terminator is in it
          have hfull : e.name.takeWhile (· ≠ 0) = e.name := by
            by_contra hstop
            have hlen : (e.name.takeWhile (· ≠ 0)).length < e.name.length := by
              apply lt_of_le_of_ne (List.takeWhile_prefix _).length_le
              intro heq
              exact hstop ((List.takeWhile_prefix _).eq_of_length heq)
            rw [pileText, List.flatMap_cons, List.takeWhile_append, if_neg hlen.ne] at hreach
            rw [Dirent.length_name] at hlen
            have : 0 < es.length := List.length_pos_iff.mpr hne'
            omega
          have htext : pileText (e :: es) = e.name ++ pileText es := by
            rw [pileText, List.flatMap_cons, List.takeWhile_append, if_pos (by rw [hfull]), pileText]
          rw [htext, List.length_append, Dirent.length_name] at hreach
          have hlen : 0 < es.length := List.length_pos_iff.mpr hne'
          have hname : e.name.take (13 + pileSize es) = e.name := List.take_of_length_le (by simp)
          rw [htext, ih hne' (by omega), pileSize_cons hne', List.flatMap_cons, List.take_append,
            hname, Dirent.length_name, Nat.add_sub_cancel_left]

/-- The name that a complete pile gives has the size of the pile. -/
theorem length_take_pileSize {es : List Dirent} (hne : es ≠ []) :
    ((es.flatMap Dirent.name).take (pileSize es)).length = pileSize es := by
  rw [List.length_take, length_flatMap_name]
  exact min_eq_left (pileSize_le hne).2

/-- A pile without gaps that its text fills is spelt by the slots before its end. -/
theorem Pile.spells {ds : List Dirent} {first last : ℕ} {es : List Dirent} {d : Dirent}
    (h : Pile ds (fatComputeLfnChecksum d) 1 first last es)
    (hcons : last + 1 = first + es.length)
    (hreach : 13 * (es.length - 1) < (pileText es).length) :
    Spells ds (last + 1) d ((es.flatMap Dirent.name).take (pileSize es)) := by
  have hne := h.ne_nil
  have hpos : 0 < es.length := List.length_pos_iff.mpr hne
  have hlen := length_take_pileSize hne
  have hsize := pileSize_le hne
  have hneeded : fatLfnDirentsNeeded ((es.flatMap Dirent.name).take (pileSize es)) = es.length := by
    rw [pileText_eq_take hne hreach, hlen] at hreach
    rw [fatLfnDirentsNeeded, hlen]
    omega
  have hslots := h.getElem?_of_consecutive hcons
  constructor
  · rw [hneeded]
    omega
  · rw [hneeded]
    intro j hj
    have hget : es[j]? = some es[j] := List.getElem?_eq_getElem hj
    have hlfn := h.isLfn _ (List.getElem_mem hj)
    have hordinal := (h.ordinal j _ hget).1
    refine ⟨es[j], ?_, hlfn.attributes_eq, ?_, hlfn.checksum_eq⟩
    · rw [← hget, hslots j hj]
      rfl
    · rw [hordinal]
      congr 1 <;> omega
  · rw [hneeded, ← h.eq_slotsBefore hslots (by omega), pileText_eq_take hne hreach]

/-- A pile whose name is spelt by the slots before its end has no gaps, and its text fills
it. -/
theorem Pile.of_spells {ds : List Dirent} {first last : ℕ} {es : List Dirent} {d : Dirent}
    (h : Pile ds (fatComputeLfnChecksum d) 1 first last es) (hlong : 1 < es.length)
    (hspells : Spells ds (last + 1) d ((es.flatMap Dirent.name).take (pileSize es))) :
    last + 1 = first + es.length ∧ 13 * (es.length - 1) < (pileText es).length := by
  have hne := h.ne_nil
  have hlen := length_take_pileSize hne
  have hsize := pileSize_le hne
  obtain ⟨hle, hentry, htext⟩ := hspells
  have hneeded : fatLfnDirentsNeeded ((es.flatMap Dirent.name).take (pileSize es)) =
      (pileSize es + 12) / 13 := by rw [fatLfnDirentsNeeded, hlen]
  rw [hneeded] at hle hentry htext
  obtain ⟨hslots, hcons⟩ := h.getElem?_of_lfn (m := (pileSize es + 12) / 13) (by omega) (by
    intro j hj
    obtain ⟨e, he, hattr, -⟩ := hentry j hj
    exact ⟨e, he, hattr⟩)
  -- were there one dirent more in the pile, the flag would be on a dirent that has none
  have hcount : (pileSize es + 12) / 13 = es.length := by
    by_contra hshort
    have hk : (pileSize es + 12) / 13 = es.length - 1 := by omega
    obtain ⟨e, he, -, hflag, -⟩ := hentry (es.length - 2) (by omega)
    have hget : es[es.length - 2]? = some e := by
      rw [hslots _ (by omega), ← he]
      rfl
    obtain ⟨hplain, hmax⟩ := h.ordinal _ _ hget
    rw [hk, ordinalByte, if_pos (by omega)] at hflag
    rw [ordinalByte, if_neg (by omega), hflag, show 1 + (es.length - 2) = es.length - 2 + 1 by omega]
      at hplain
    have hall : ∀ k : Fin 21, UInt8.ofNat k ||| Dirent.lastLongEntry ≠ UInt8.ofNat k := by decide
    exact hall ⟨es.length - 2 + 1, by omega⟩ hplain
  rw [hcount] at hslots hcons htext
  refine ⟨hcons rfl, ?_⟩
  rw [← h.eq_slotsBefore hslots (by omega)] at htext
  rw [← htext, hlen]
  omega

/-- Long names come back with the slots that spell them, exactly when the piles of the
directory have no gaps and reach into their last dirent. -/
theorem soundLongNames_iff (nls : Nls) (dir : Directory) :
    SoundLongNames nls dir ↔ SoundPiles dir.dirents := by
  constructor
  · intro hsound first last es d hpile hd hshort hlong
    have hlen := (List.getElem?_eq_some_iff.mp hd).1
    have hle := hpile.first_add_length_le
    have hsize := dir.size_lt
    have hstart : startSlot (first * 32) = first := by
      rw [startSlot]
      omega
    have hfound := locateAt_pile_found nls hpile hd hshort
    rw [← hstart, ← fatLocateDirent_eq] at hfound
    have hname : (es.flatMap Dirent.name).take (pileSize es) ≠ [] := by
      rw [← List.length_pos_iff, length_take_pileSize hpile.ne_nil]
      have := (pileSize_le hpile.ne_nil).1
      omega
    obtain ⟨i, hi, -, -, hspells⟩ := hsound _ _ _ _ _ _ hfound hname
    obtain rfl : i = last + 1 := by omega
    exact hpile.of_spells hlong hspells
  · intro hpiles ccb start o d name dos hfound hname
    rw [fatLocateDirent_eq] at hfound
    obtain ⟨first, last, es, rfl, hd, hshort, hpile, rfl⟩ :=
      (lfnKept_none _ _).located nls ccb hfound hname
    refine ⟨last + 1, rfl, hd, hshort, ?_⟩
    by_cases hlong : 1 < es.length
    · obtain ⟨hcons, hreach⟩ := hpiles first last es d hpile hd hshort hlong
      exact hpile.spells hcons hreach
    · -- one dirent has no gaps, and the name is not empty
      obtain ⟨e, rfl⟩ : ∃ e, es = [e] := by
        have hpos : 0 < es.length := List.length_pos_iff.mpr hpile.ne_nil
        exact List.length_eq_one_iff.mp (by omega)
      have hcons : last + 1 = first + [e].length := by
        cases hpile with
        | last => rfl
        | next hpile => exact absurd rfl hpile.ne_nil
      refine hpile.spells hcons ?_
      have hpos := List.length_pos_iff.mpr hname
      rw [length_take_pileSize (by simp)] at hpos
      simpa [pileText, pileSize] using hpos

/-! ## A name around a file -/

/-- Comparison of ASCII names, without wild cards in expressions. -/
def Nls.ascii : Nls where
  isDbcsInExpression expression name := expression = name
  upcaseUnicodeString s := s.map fun c => if 0x61 ≤ c ∧ c ≤ 0x7a then c - 0x20 else c
  isNameInExpression expression name := expression = name
  areNamesEqual a b _ := a = b
  length_upcase := by simp
  areNamesEqual_self := by simp

/-- The short dirent `T`, an archive file. -/
def shortT : Dirent := (setFileName ⟨fun _ => 0⟩ (fatStringTo8dot3 [0x54])).setByte 11 0x20

/-- The short dirent `S`. -/
def shortS : Dirent := (setFileName ⟨fun _ => 0⟩ (fatStringTo8dot3 [0x53])).setByte 11 0x20

/-- Fourteen units `A`. -/
def fourteenA : List UInt16 := List.replicate 14 0x41

/-- The two dirents of a long name of `T` stand on the two sides of `S`. -/
def dirAroundS : Directory where
  dirents := [lfnPiece fourteenA (fatComputeLfnChecksum shortT) 2, shortS,
    lfnPiece fourteenA (fatComputeLfnChecksum shortT) 1, shortT]
  size_lt := by decide

/-- The search for the long name finds `T`, and the two slots before it include `S`. -/
theorem not_soundLongNames_dirAroundS : ¬ SoundLongNames Nls.ascii dirAroundS := by
  intro hsound
  have hfound : fatLocateDirent Nls.ascii true true (.longNameQuery fourteenA) dirAroundS 0 =
      .found 96 shortT fourteenA false := by decide +kernel
  obtain ⟨i, hi, -, -, -, hentry, -⟩ := hsound _ _ _ _ _ _ hfound (by decide)
  obtain rfl : i = 3 := by omega
  obtain ⟨e, he, hattr, -⟩ := hentry 1 (by decide)
  obtain rfl : shortS = e := Option.some.inj he
  exact absurd hattr (by decide)

end KernelDrivers.Fat
