import KernelDrivers.Fat.Compact

/-!
# The live entries of a directory

What a directory holds, as the name parser reads it: short dirents and labels, each with the
long-name dirents of the pile that the parser puts its name together from.  The search for
everything, resumed behind each dirent that it returns, finds these entries one after the
other.

## Main definitions

* `LiveEntry`, `liveEntries` — an entry, and all of them.
* `LiveEntry.Padded` — the first dirent of the pile holds nothing but the terminator.

## Main results

* `liveEntries_spec` — the entries are in order, apart, and made of slots in use.
* `entryRuns_eq` — the runs that a defragmentation makes are one for each entry.
-/

namespace KernelDrivers.Fat

/-- An entry: the slots from the first long-name dirent to the short dirent, and the name. -/
structure LiveEntry where
  first : ℕ
  slot : ℕ
  name : List UInt16
  deriving DecidableEq

namespace LiveEntry

def width (e : LiveEntry) : ℕ := e.slot + 1 - e.first

/-- The dirents of the entry. -/
def dirents (ds : List Dirent) (e : LiveEntry) : List Dirent := (ds.drop e.first).take e.width

/-- The pile has one dirent more than the name needs. -/
def Padded (ds : List Dirent) (e : LiveEntry) : Prop :=
  e.first < e.slot ∧ ∃ d, ds[e.first]? = some d ∧ d.name.head? = some 0

/-- The run that a defragmentation makes of the entry. -/
def run (e : LiveEntry) : ℕ × ℕ :=
  (e.slot - fatLfnDirentsNeeded e.name, fatLfnDirentsNeeded e.name + 1)

end LiveEntry

/-- The number of long-name dirents that a short dirent takes: each one has brought thirteen
units. -/
def lfnDirents (off : ℕ) (d : Dirent) (run : Option LfnRun) : ℕ :=
  match validLfn off d run with
  | none => 0
  | some _ => (run.elim 0 fun r => r.chars.length) / 13

/-- The entry at a dirent that is in use.  A label has no long name. -/
def entryAt (p : ℕ) (d : Dirent) (run : Option LfnRun) : LiveEntry :=
  if d.attributes &&& Dirent.attrVolumeId ≠ 0 then ⟨p, p, []⟩
  else ⟨p - lfnDirents (p * 32) d run, p, (validLfn (p * 32) d run).getD []⟩

/-- The entries in the slots that are left.  There are none when the parser raises. -/
def liveFrom (chicagoMode : Bool) : (p : ℕ) → (run : Option LfnRun) → List Dirent →
    Option (List LiveEntry)
  | _, _, [] => some []
  | p, run, d :: ds =>
      if d.ordinal = Dirent.neverUsed then some []
      else if d.ordinal = Dirent.deleted then liveFrom chicagoMode (p + 1) none ds
      else if chicagoMode ∧ d.attributes = Dirent.attrLfn then
        match readLfn (p * 32) d run with
        | .stop _ => none
        | .go run => liveFrom chicagoMode (p + 1) run ds
      else (liveFrom chicagoMode (p + 1) none ds).map (entryAt p d run :: ·)

def liveEntries (chicagoMode : Bool) (ds : List Dirent) : Option (List LiveEntry) :=
  liveFrom chicagoMode 0 none ds

/-! ## The piles -/

section Pile

variable {ds : List Dirent} {q p : ℕ} {d : Dirent} {run run' : Option LfnRun}

/-- The slots from `i` up to `j` hold long-name dirents. -/
def LfnOn (ds : List Dirent) (i j : ℕ) : Prop :=
  ∀ m, i ≤ m → m < j → ∃ d, ds[m]? = some d ∧ ¬ d.Free ∧ d.attributes = Dirent.attrLfn

theorem LfnOn.succ {i j : ℕ} (h : LfnOn ds i j) (hd : ds[j]? = some d) (hlive : ¬ d.Free)
    (hlfn : d.attributes = Dirent.attrLfn) : LfnOn ds i (j + 1) := by
  intro m hi hm
  rcases Nat.lt_succ_iff_lt_or_eq.mp hm with hlt | rfl
  · exact h m hi hlt
  · exact ⟨d, hd, hlive, hlfn⟩

/-- The run before slot `p` is made of the last `m` slots, of which `d` is the first. -/
structure PileOf (ds : List Dirent) (q p m : ℕ) (d : Dirent) (r : LfnRun) : Prop where
  pos : 0 < m
  fits : q + m ≤ p
  lfn : LfnOn ds (p - m) p
  opening : ds[p - m]? = some d
  ordinal_pos : 0 < r.ordinal
  index_eq : r.index = 13 * (r.ordinal - 1)
  size_eq : r.size = 13 * (m + r.ordinal - 2) + (d.name.takeWhile (· ≠ 0)).length
  length_chars : r.chars.length = 13 * m

/-- The run of a parser that has been started at slot `q`. -/
def PiledUp (ds : List Dirent) (q p : ℕ) (run : Option LfnRun) : Prop :=
  ∀ r, run = some r → ∃ m d, PileOf ds q p m d r

theorem piledUp_none (ds : List Dirent) (q p : ℕ) : PiledUp ds q p none := by
  intro r h
  cases h

theorem PileOf.next {m : ℕ} {e : Dirent} {r r' : LfnRun} (h : PileOf ds q p m e r)
    (hd : ds[p]? = some d) (hlive : ¬ d.Free) (hlfn : d.attributes = Dirent.attrLfn)
    (hnext : r.next (p * 32) d = some r') : PileOf ds q (p + 1) (m + 1) e r' := by
  have hpos := h.pos
  have hfits := h.fits
  have hsub : p + 1 - (m + 1) = p - m := by omega
  rw [LfnRun.next] at hnext
  split at hnext
  · cases hnext
  next hgood =>
  push Not at hgood
  obtain ⟨-, hne, hordinal, -, -⟩ := hgood
  obtain rfl := Option.some.inj hnext
  have hne : d.ordinal.toNat ≠ 0 := fun hzero => hne (UInt8.toNat_inj.mp hzero)
  have hindex := h.index_eq
  have hsize := h.size_eq
  have hchars := h.length_chars
  constructor
  · omega
  · omega
  · rw [hsub]
    exact h.lfn.succ hd hlive hlfn
  · rw [hsub]
    exact h.opening
  · exact Nat.pos_of_ne_zero hne
  · dsimp only
    omega
  · dsimp only
    omega
  · simp only [List.length_append, Dirent.length_name]
    omega

theorem PileOf.start {r : LfnRun} (hd : ds[p]? = some d) (hlive : ¬ d.Free)
    (hlfn : d.attributes = Dirent.attrLfn) (hq : q ≤ p)
    (hordinal : d.ordinal &&& ~~~Dirent.lastLongEntry ≠ 0)
    (hstart : LfnRun.start (p * 32) d = some r) : PileOf ds q (p + 1) 1 d r := by
  obtain ⟨-, rfl⟩ := start_eq_some_iff.mp hstart
  have hne : (d.ordinal &&& ~~~Dirent.lastLongEntry).toNat ≠ 0 :=
    fun hzero => hordinal (UInt8.toNat_inj.mp hzero)
  constructor
  · exact Nat.one_pos
  · omega
  · intro m hm hmp
    have : m = p := by omega
    exact ⟨d, this ▸ hd, hlive, hlfn⟩
  · exact hd
  · exact Nat.pos_of_ne_zero hne
  · exact Nat.mul_comm _ _
  · dsimp only
    omega
  · rfl

theorem PiledUp.readLfn (h : PiledUp ds q p run) (hd : ds[p]? = some d) (hlive : ¬ d.Free)
    (hlfn : d.attributes = Dirent.attrLfn) (hq : q ≤ p)
    (hturn : readLfn (p * 32) d run = .go run') : PiledUp ds q (p + 1) run' := by
  rw [Fat.readLfn] at hturn
  split at hturn
  · next r' hnext =>
      obtain ⟨r, hrun, hnext⟩ := Option.bind_eq_some_iff.mp hnext
      cases hturn
      obtain ⟨m, e, hpile⟩ := h r hrun
      intro r'' heq
      obtain rfl := Option.some.inj heq
      exact ⟨m + 1, e, hpile.next hd hlive hlfn hnext⟩
  · split at hturn
    · split at hturn
      · cases hturn
      · next hordinal =>
          cases hturn
          intro r hr
          exact ⟨1, d, PileOf.start hd hlive hlfn hq hordinal hr⟩
    · cases hturn
      exact piledUp_none _ _ _

end Pile

/-! ## Entries in order -/

/-- An entry from slot `q` on: a pile and the dirent behind it.  The name needs all the dirents
of the pile, or all but the first one. -/
structure LiveEntry.Parsed (ds : List Dirent) (q : ℕ) (e : LiveEntry) : Prop where
  le_first : q ≤ e.first
  first_le : e.first ≤ e.slot
  own : ∃ d, ds[e.slot]? = some d ∧ ¬ d.Free
  lfn : LfnOn ds e.first e.slot
  needed : ¬ e.Padded ds → e.first + fatLfnDirentsNeeded e.name = e.slot
  needed_padded : e.Padded ds → e.first + fatLfnDirentsNeeded e.name + 1 = e.slot

theorem LiveEntry.Parsed.needed_le {ds : List Dirent} {q : ℕ} {e : LiveEntry}
    (h : e.Parsed ds q) : e.first + fatLfnDirentsNeeded e.name ≤ e.slot := by
  by_cases hpad : e.Padded ds
  · exact (Nat.le_succ _).trans_eq (h.needed_padded hpad)
  · exact (h.needed hpad).le

/-- Entries from slot `q` on, one behind the other. -/
def EntriesFrom (ds : List Dirent) : (q : ℕ) → List LiveEntry → Prop
  | _, [] => True
  | q, e :: es => e.Parsed ds q ∧ EntriesFrom ds (e.slot + 1) es

section Parse

variable {chicagoMode : Bool} {ds : List Dirent} {q p : ℕ} {d : Dirent} {run : Option LfnRun}

theorem length_takeWhile_eq_zero (d : Dirent) :
    (d.name.takeWhile (· ≠ 0)).length = 0 ↔ d.name.head? = some 0 := by
  cases h : d.name with
  | nil => exact absurd (congrArg List.length h) (by simp)
  | cons c cs => by_cases hc : c = 0 <;> simp [hc]

theorem length_takeWhile_le (d : Dirent) : (d.name.takeWhile (· ≠ 0)).length ≤ 13 := by
  have := (List.takeWhile_prefix (p := fun c : UInt16 => decide (c ≠ 0)) (l := d.name)).length_le
  simpa using this

/-- The name that a short dirent takes from a pile. -/
theorem PileOf.length_name {m : ℕ} {e : Dirent} {r : LfnRun} {name : List UInt16}
    (h : PileOf ds q p m e r) (hname : validLfn (p * 32) d (some r) = some name) :
    lfnDirents (p * 32) d (some r) = m ∧
      name.length = 13 * (m - 1) + (e.name.takeWhile (· ≠ 0)).length := by
  have hpos := h.pos
  have hordinal := h.ordinal_pos
  have hindex := h.index_eq
  have hsize := h.size_eq
  have hchars := h.length_chars
  have hle := length_takeWhile_le e
  have hcount : lfnDirents (p * 32) d (some r) = r.chars.length / 13 := by
    simp [lfnDirents, hname]
  simp only [validLfn, Option.bind_some] at hname
  split at hname
  · next hvalid =>
      obtain rfl := Option.some.inj hname
      have hzero := hvalid.2.1
      rw [List.length_take]
      constructor <;> omega
  · cases hname

/-- The entry at a dirent that is in use. -/
theorem PiledUp.parsed (h : PiledUp ds q p run) (hd : ds[p]? = some d) (hlive : ¬ d.Free)
    (hq : q ≤ p) : (entryAt p d run).Parsed ds q ∧ (entryAt p d run).slot = p := by
  have alone : (LiveEntry.mk p p []).Parsed ds q :=
    ⟨hq, le_rfl, ⟨d, hd, hlive⟩, fun m hm hmp => absurd (hm.trans_lt hmp) (lt_irrefl p),
      fun _ => by simp [fatLfnDirentsNeeded], fun hpad => absurd hpad.1 (lt_irrefl p)⟩
  rw [entryAt]
  split
  · exact ⟨alone, rfl⟩
  refine ⟨?_, rfl⟩
  cases hname : validLfn (p * 32) d run with
  | none =>
      have hcount : lfnDirents (p * 32) d run = 0 := by simp [lfnDirents, hname]
      rw [hcount]
      exact alone
  | some name =>
      cases hr : run with
      | none =>
          rw [hr] at hname
          cases hname
      | some r =>
          rw [hr] at hname
          obtain ⟨m, e, hpile⟩ := h r hr
          have hpos := hpile.pos
          have hfits := hpile.fits
          obtain ⟨hcount, hlen⟩ := hpile.length_name hname
          have hle := length_takeWhile_le e
          rw [hcount, Option.getD_some]
          have hpad : (LiveEntry.mk (p - m) p name).Padded ds ↔
              (e.name.takeWhile (· ≠ 0)).length = 0 := by
            rw [length_takeWhile_eq_zero, LiveEntry.Padded, hpile.opening]
            simp only [Option.some.injEq, exists_eq_left', and_iff_right_iff_imp]
            exact fun _ => by omega
          refine ⟨by dsimp only; omega, by dsimp only; omega, ⟨d, hd, hlive⟩, hpile.lfn, ?_, ?_⟩
          · intro hno
            rw [hpad] at hno
            simp only [fatLfnDirentsNeeded, hlen]
            omega
          · intro hyes
            rw [hpad] at hyes
            simp only [fatLfnDirentsNeeded, hlen]
            omega

/-- The parser finds entries one behind the other.  The induction is on the slots that are
left. -/
theorem PiledUp.entriesFrom {es : List LiveEntry} (h : PiledUp ds q p run) (hq : q ≤ p)
    (hes : liveFrom chicagoMode p run (ds.drop p) = some es) : EntriesFrom ds q es := by
  induction hk : ds.length - p generalizing p q run es with
  | zero =>
      rw [List.drop_eq_nil_of_le (by omega), liveFrom] at hes
      obtain rfl := Option.some.inj hes
      trivial
  | succ k ih =>
      have hp : p < ds.length := by omega
      have hd : ds[p]? = some ds[p] := List.getElem?_eq_getElem hp
      rw [List.drop_eq_getElem_cons hp, liveFrom] at hes
      split at hes
      · obtain rfl := Option.some.inj hes
        trivial
      next hused =>
      split at hes
      · exact ih (piledUp_none _ _ _) (by omega) hes (by omega)
      next hdel =>
      have hlive : ¬ ds[p].Free := by simp [Dirent.Free, hused, hdel]
      split at hes
      · next hlfn =>
          split at hes
          · cases hes
          · next hturn => exact ih (h.readLfn hd hlive hlfn.2 hq hturn) (by omega) hes (by omega)
      · obtain ⟨es', hes', rfl⟩ := Option.map_eq_some_iff.mp hes
        obtain ⟨hparsed, hslot⟩ := h.parsed hd hlive hq
        refine ⟨hparsed, ?_⟩
        rw [hslot]
        exact ih (piledUp_none _ _ _) le_rfl hes' (by omega)

theorem liveEntries_spec {es : List LiveEntry} (h : liveEntries chicagoMode ds = some es) :
    EntriesFrom ds 0 es :=
  (piledUp_none ds 0 0).entriesFrom le_rfl h

end Parse

/-! ## The runs of a defragmentation -/

section Runs

variable (nls : Nls) (chicagoMode : Bool)

/-- What the parser finds from slot `p` on, by what the search for everything returns there. -/
def Continues (p : ℕ) (run : Option LfnRun) (l : List Dirent) : Located → Prop
  | .notFound => liveFrom chicagoMode p run l = some []
  | .corrupt => liveFrom chicagoMode p run l = none
  | .found off _ lfn _ => ∃ i first, off = i * 32 ∧ p ≤ i ∧ i < p + l.length ∧
      liveFrom chicagoMode p run l =
        (liveFrom chicagoMode (i + 1) none (l.drop (i + 1 - p))).map (⟨first, i, lfn⟩ :: ·)

variable {nls chicagoMode}

theorem Continues.cons {p : ℕ} {run run' : Option LfnRun} {d : Dirent} {l : List Dirent}
    {found : Located} (h : Continues chicagoMode (p + 1) run' l found)
    (heq : liveFrom chicagoMode p run (d :: l) = liveFrom chicagoMode (p + 1) run' l) :
    Continues chicagoMode p run (d :: l) found := by
  cases found with
  | notFound => exact heq.trans h
  | corrupt => exact heq.trans h
  | found off e lfn dos =>
      obtain ⟨i, first, hoff, hle, hlt, hrest⟩ := h
      refine ⟨i, first, hoff, by omega, by rw [List.length_cons]; omega, ?_⟩
      have hdrop : i + 1 - p = i + 1 - (p + 1) + 1 := by omega
      rw [heq, hrest, hdrop, List.drop_succ_cons]

theorem continues_stop {p : ℕ} {run : Option LfnRun} {d : Dirent} {l : List Dirent}
    {lfn : List UInt16} {dos : Bool} {first : ℕ}
    (heq : liveFrom chicagoMode p run (d :: l) =
      (liveFrom chicagoMode (p + 1) none l).map (⟨first, p, lfn⟩ :: ·)) :
    Continues chicagoMode p run (d :: l) (.found (p * 32) d lfn dos) := by
  refine ⟨p, first, rfl, le_rfl, by simp, ?_⟩
  have hdrop : p + 1 - p = 0 + 1 := by omega
  rw [heq, hdrop, List.drop_succ_cons, List.drop_zero]

theorem locateFrom_continues (p : ℕ) (run : Option LfnRun) (l : List Dirent) :
    Continues chicagoMode p run l
      (locateFrom nls chicagoMode true Ccb.matchEverything (p * 32) run l) := by
  induction l generalizing p run with
  | nil => rfl
  | cons d l ih =>
      have hnext : (p + 1) * 32 = p * 32 + 32 := by omega
      rw [locateFrom, locateStep]
      by_cases hused : d.ordinal = Dirent.neverUsed
      · simp [hused, Continues, liveFrom]
      rw [if_neg hused]
      by_cases hdel : d.ordinal = Dirent.deleted
      · rw [if_pos hdel]
        refine Continues.cons (hnext ▸ ih (p + 1) none) ?_
        rw [liveFrom, if_neg hused, if_pos hdel]
      rw [if_neg hdel]
      by_cases hlfn : chicagoMode = true ∧ d.attributes = Dirent.attrLfn
      · rw [if_pos ⟨hlfn.1, rfl, hlfn.2⟩]
        have heq : liveFrom chicagoMode p run (d :: l) =
            match readLfn (p * 32) d run with
            | .stop _ => none
            | .go run => liveFrom chicagoMode (p + 1) run l := by
          rw [liveFrom, if_neg hused, if_neg hdel, if_pos hlfn]
        cases hturn : readLfn (p * 32) d run with
        | stop found =>
            have : found = .corrupt := by
              rw [readLfn] at hturn
              split at hturn
              · cases hturn
              split at hturn
              · split at hturn
                · exact (Turn.stop.inj hturn).symm
                · cases hturn
              · cases hturn
            rw [hturn] at heq
            exact this ▸ heq
        | go run' =>
            rw [hturn] at heq
            exact Continues.cons (hnext ▸ ih (p + 1) run') heq
      rw [if_neg fun h => hlfn ⟨h.1, h.2.2⟩]
      have heq : liveFrom chicagoMode p run (d :: l) =
          (liveFrom chicagoMode (p + 1) none l).map (entryAt p d run :: ·) := by
        rw [liveFrom, if_neg hused, if_neg hdel, if_neg hlfn]
      by_cases hlabel : d.attributes &&& Dirent.attrVolumeId ≠ 0
      · rw [entryAt, if_pos hlabel] at heq
        rw [if_pos hlabel]
        exact continues_stop heq
      · rw [entryAt, if_neg hlabel] at heq
        rw [if_neg hlabel]
        exact continues_stop heq

theorem liveFrom_of_length_le {ds : List Dirent} {q : ℕ} (h : ds.length ≤ q) :
    liveFrom chicagoMode q none (ds.drop q) = some [] := by
  rw [List.drop_eq_nil_of_le h, liveFrom]

/-- A run for each entry.  There is fuel for one entry a slot. -/
theorem entryRuns_eq (nls : Nls) (chicagoMode : Bool) (dir : Directory) (fuel q : ℕ)
    (hq : q ≤ dir.dirents.length) (hfuel : dir.dirents.length ≤ q + fuel) :
    entryRuns nls chicagoMode dir fuel q =
      (liveFrom chicagoMode q none (dir.dirents.drop q)).map (·.map LiveEntry.run) := by
  induction fuel generalizing q with
  | zero =>
      rw [liveFrom_of_length_le (by omega)]
      rfl
  | succ fuel ih =>
      have hslot : startSlot (32 * q) = q := by
        have := dir.size_lt
        rw [startSlot, Nat.mod_eq_of_lt (by omega)]
        omega
      have hfind : Continues chicagoMode q none (dir.dirents.drop q)
          (fatLocateDirent nls chicagoMode true Ccb.matchEverything dir (32 * q)) := by
        rw [fatLocateDirent, hslot]
        exact locateFrom_continues q none _
      rw [entryRuns]
      cases hloc : fatLocateDirent nls chicagoMode true Ccb.matchEverything dir (32 * q) with
      | notFound =>
          rw [hloc] at hfind
          have hfind : liveFrom chicagoMode q none (dir.dirents.drop q) = some [] := hfind
          rw [hfind]
          rfl
      | corrupt =>
          rw [hloc] at hfind
          have hfind : liveFrom chicagoMode q none (dir.dirents.drop q) = none := hfind
          rw [hfind]
          rfl
      | found off d lfn dos =>
          rw [hloc] at hfind
          obtain ⟨i, first, rfl, hle, hlt, hrest⟩ := hfind
          rw [List.length_drop] at hlt
          have hdrop : q + (i + 1 - q) = i + 1 := by omega
          rw [List.drop_drop, hdrop] at hrest
          dsimp only
          rw [Nat.mul_div_cancel i (by decide : 0 < 32), hrest, Option.map_map]
          split
          · rw [ih (i + 1) (by omega) (by omega), Option.map_map]
            rfl
          · rw [liveFrom_of_length_le (by omega)]
            rfl

theorem EntriesFrom.runsFrom {ds : List Dirent} {q : ℕ} {es : List LiveEntry}
    (h : EntriesFrom ds q es) : RunsFrom ds q (es.map LiveEntry.run) := by
  induction es generalizing q with
  | nil => trivial
  | cons e es ih =>
      obtain ⟨hparsed, hrest⟩ := h
      have hfirst := hparsed.le_first
      have hle := hparsed.needed_le
      obtain ⟨d, hd, hlive⟩ := hparsed.own
      have hlt := (List.getElem?_eq_some_iff.mp hd).1
      have hend : e.slot - fatLfnDirentsNeeded e.name + (fatLfnDirentsNeeded e.name + 1) =
          e.slot + 1 := by omega
      simp only [List.map_cons, RunsFrom, LiveEntry.run, hend]
      refine ⟨⟨by omega, by omega⟩, by omega, ?_, ih hrest⟩
      intro m hm hms
      rcases Nat.lt_succ_iff_lt_or_eq.mp hms with hlt | rfl
      · obtain ⟨e', he', hlive', -⟩ := hparsed.lfn m (by omega) hlt
        exact ⟨e', he', hlive'⟩
      · exact ⟨d, hd, hlive⟩

end Runs

end KernelDrivers.Fat
