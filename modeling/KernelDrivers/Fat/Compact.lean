import KernelDrivers.Fat.FreeDirents
import KernelDrivers.Fat.LongName

/-!
# What the defragmentation of a directory keeps

`FatDefragDirectory` asks the search for one entry after the other and takes the slots of an
entry from the length of its long name.  The search stops at every short dirent and at every
label, so the slots it has put together stand right before the dirent it returns, and all of
them are in use.  Behind the last entry nothing but long-name dirents without an owner can be
in use, and these stay where they are while their bits are cleared.

## Main results

* `Tight.found` — the slots that an entry uses.
* `entryRuns_spec` — the runs are in order, in use, and nothing behind them is an entry.
* `live_compacted`, `free_compacted` — the two parts of the directory afterwards.
-/

namespace KernelDrivers.Fat

/-- Every live long-name dirent has a live dirent of another kind behind it. -/
def Owned (ds : List Dirent) : Prop :=
  ∀ (i : ℕ) (d : Dirent), ds[i]? = some d → ¬ d.Free → d.attributes = Dirent.attrLfn →
    ∃ (j : ℕ) (e : Dirent), i < j ∧ ds[j]? = some e ∧ ¬ e.Free ∧ e.attributes ≠ Dirent.attrLfn

/-- A dirent with the flag of the last one of a name and no ordinal, on which the search
raises. -/
def Malformed (ds : List Dirent) : Prop :=
  ∃ d ∈ ds, d.attributes = Dirent.attrLfn ∧ d.opensRun ∧
    d.ordinal &&& ~~~Dirent.lastLongEntry = 0

/-- The slots from `i` up to `j` are in use. -/
def LiveOn (ds : List Dirent) (i j : ℕ) : Prop :=
  ∀ m, i ≤ m → m < j → ∃ d, ds[m]? = some d ∧ ¬ d.Free

theorem LiveOn.succ {ds : List Dirent} {i j : ℕ} {d : Dirent} (h : LiveOn ds i j)
    (hd : ds[j]? = some d) (hlive : ¬ d.Free) : LiveOn ds i (j + 1) := by
  intro m hi hm
  rcases Nat.lt_succ_iff_lt_or_eq.mp hm with hlt | rfl
  · exact h m hi hlt
  · exact ⟨d, hd, hlive⟩

theorem LiveOn.mono {ds : List Dirent} {i i' j : ℕ} (h : LiveOn ds i j) (hle : i ≤ i') :
    LiveOn ds i' j := fun m hi hm => h m (by omega) hm

/-- The run before slot `p` of a search from slot `q` is made of the last `m` slots. -/
def Tight (ds : List Dirent) (q p : ℕ) (run : Option LfnRun) : Prop :=
  ∀ r, run = some r → ∃ m, q + m ≤ p ∧ LiveOn ds (p - m) p ∧ 0 < r.ordinal ∧
    r.index = 13 * (r.ordinal - 1) ∧ r.size ≤ 13 * (m + r.ordinal - 1)

theorem tight_none (ds : List Dirent) (q p : ℕ) : Tight ds q p none := by
  intro r h
  cases h

section Turn

variable {nls : Nls} {chicagoMode : Bool} {ds : List Dirent} {q p : ℕ} {d : Dirent}
  {run run' : Option LfnRun}

theorem Tight.next {r r' : LfnRun} (h : Tight ds q p (some r)) (hd : ds[p]? = some d)
    (hlive : ¬ d.Free) (hnext : r.next (p * 32) d = some r') : Tight ds q (p + 1) (some r') := by
  obtain ⟨m, hm, hon, hpos, hindex, hsize⟩ := h r rfl
  rw [LfnRun.next] at hnext
  split at hnext
  · cases hnext
  · next hgood =>
      push Not at hgood
      obtain ⟨-, hne, hordinal, -, -⟩ := hgood
      obtain rfl := Option.some.inj hnext
      have hne : d.ordinal.toNat ≠ 0 := fun hzero => hne (UInt8.toNat_inj.mp hzero)
      intro r'' heq
      obtain rfl := Option.some.inj heq
      refine ⟨m + 1, by omega, ?_, Nat.pos_of_ne_zero hne, ?_, ?_⟩
      · have hsub : p + 1 - (m + 1) = p - m := by omega
        rw [hsub]
        exact hon.succ hd hlive
      · change r.index - 13 = 13 * (d.ordinal.toNat - 1)
        omega
      · change r.size ≤ 13 * (m + 1 + d.ordinal.toNat - 1)
        omega

theorem Tight.start {r : LfnRun} (hd : ds[p]? = some d) (hlive : ¬ d.Free) (hq : q ≤ p)
    (hordinal : d.ordinal &&& ~~~Dirent.lastLongEntry ≠ 0)
    (hstart : LfnRun.start (p * 32) d = some r) : Tight ds q (p + 1) (some r) := by
  obtain ⟨-, rfl⟩ := start_eq_some_iff.mp hstart
  have hne : (d.ordinal &&& ~~~Dirent.lastLongEntry).toNat ≠ 0 :=
    fun hzero => hordinal (UInt8.toNat_inj.mp hzero)
  have hlen : (d.name.takeWhile (· ≠ 0)).length ≤ 13 := by
    have := (List.takeWhile_prefix (p := fun c : UInt16 => decide (c ≠ 0)) (l := d.name)).length_le
    simpa using this
  intro r' heq
  obtain rfl := Option.some.inj heq
  refine ⟨1, by omega, ?_, Nat.pos_of_ne_zero hne, ?_, ?_⟩
  · intro m hm hmp
    have : m = p := by omega
    exact ⟨d, this ▸ hd, hlive⟩
  · exact Nat.mul_comm _ _
  · simp only [ne_eq] at hlen ⊢
    omega

theorem Tight.readLfn (h : Tight ds q p run) (hd : ds[p]? = some d) (hlive : ¬ d.Free)
    (hq : q ≤ p) (hturn : readLfn (p * 32) d run = .go run') : Tight ds q (p + 1) run' := by
  rw [Fat.readLfn] at hturn
  split at hturn
  · next r' hnext =>
      obtain ⟨r, hrun, hnext⟩ := Option.bind_eq_some_iff.mp hnext
      cases hturn
      exact Tight.next (hrun ▸ h) hd hlive hnext
  · split at hturn
    · split at hturn
      · cases hturn
      · next hordinal =>
          cases hturn
          intro r hr
          exact Tight.start hd hlive hq hordinal hr r rfl
    · cases hturn
      exact tight_none _ _ _

/-- How a turn of the search for everything goes on: the slot is not the end, and no entry. -/
theorem Tight.go (h : Tight ds q p run) (hd : ds[p]? = some d) (hq : q ≤ p)
    (hturn : locateStep nls chicagoMode true Ccb.matchEverything (p * 32) d run = .go run') :
    Tight ds q (p + 1) run' ∧ d.ordinal ≠ Dirent.neverUsed ∧
      (d.Free ∨ chicagoMode = true ∧ d.attributes = Dirent.attrLfn) := by
  rw [locateStep] at hturn
  split at hturn
  · cases hturn
  next hused =>
  split at hturn
  · next hdel =>
      cases hturn
      exact ⟨tight_none _ _ _, hused, .inl (.inr hdel)⟩
  next hdel =>
  have hlive : ¬ d.Free := by simp [Dirent.Free, hused, hdel]
  split at hturn
  · next hlfn => exact ⟨h.readLfn hd hlive hq hturn, hused, .inr ⟨hlfn.1, hlfn.2.2⟩⟩
  split at hturn
  · simp [Ccb.matchEverything] at hturn
  · simp [readShort, Ccb.matchEverything] at hturn

theorem length_validLfn_le {off : ℕ} {name : List UInt16} {r : LfnRun}
    (h : validLfn off d (some r) = some name) : r.index = 0 ∧ name.length ≤ r.size := by
  simp only [validLfn, Option.bind_some] at h
  split at h
  · next hvalid =>
      obtain rfl := Option.some.inj h
      exact ⟨hvalid.2.1, by simp⟩
  · cases h

/-- The long name of the dirent behind the run fits into the slots of the run. -/
theorem Tight.validLfn (h : Tight ds q p run) (hq : q ≤ p) :
    q + fatLfnDirentsNeeded ((validLfn (p * 32) d run).getD []) ≤ p ∧
      LiveOn ds (p - fatLfnDirentsNeeded ((validLfn (p * 32) d run).getD [])) p := by
  cases hname : Fat.validLfn (p * 32) d run with
  | none =>
      have hneeded : fatLfnDirentsNeeded ((none : Option (List UInt16)).getD []) = 0 := rfl
      rw [hneeded]
      exact ⟨hq, fun m _ _ => by omega⟩
  | some name =>
      cases run with
      | none => cases hname
      | some r =>
          obtain ⟨m, hm, hon, hpos, hindex, hsize⟩ := h r rfl
          obtain ⟨hzero, hlen⟩ := length_validLfn_le hname
          have hneeded : fatLfnDirentsNeeded ((some name).getD []) ≤ m := by
            simp only [Option.getD_some, fatLfnDirentsNeeded]
            omega
          exact ⟨by omega, hon.mono (by omega)⟩

/-- The slots of the entry at slot `i`, in a search from slot `q`. -/
structure EntryAt (ds : List Dirent) (q i : ℕ) (lfn : List UInt16) : Prop where
  fits : q + fatLfnDirentsNeeded lfn ≤ i
  live : LiveOn ds (i - fatLfnDirentsNeeded lfn) (i + 1)

theorem EntryAt.lt {lfn : List UInt16} {i : ℕ} (h : EntryAt ds q i lfn) : i < ds.length := by
  obtain ⟨d, hd, -⟩ := h.live i (by omega) (by omega)
  exact (List.getElem?_eq_some_iff.mp hd).1

/-- Nothing from slot `q` on is an entry, up to a slot that has never been used. -/
def NoEntry (chicagoMode : Bool) (ds : List Dirent) (q : ℕ) : Prop :=
  ∀ (i : ℕ) (d : Dirent), q ≤ i → ds[i]? = some d → ¬ d.Free →
    (chicagoMode = true → d.attributes ≠ Dirent.attrLfn) →
    ∃ (j : ℕ) (e : Dirent), q ≤ j ∧ j < i ∧ ds[j]? = some e ∧ e.ordinal = Dirent.neverUsed

/-- What the search for everything from slot `q` may return. -/
def Answers (chicagoMode : Bool) (ds : List Dirent) (q : ℕ) : Located → Prop
  | .found off _ lfn _ => ∃ i, off = i * 32 ∧ EntryAt ds q i lfn
  | .notFound => NoEntry chicagoMode ds q
  | .corrupt => Malformed ds

/-- Where a turn of the search for everything stops. -/
theorem Tight.stop {result : Located} (h : Tight ds q p run) (hd : ds[p]? = some d) (hq : q ≤ p)
    (hturn : locateStep nls chicagoMode true Ccb.matchEverything (p * 32) d run = .stop result) :
    result = .notFound ∧ d.ordinal = Dirent.neverUsed ∨ result = .corrupt ∧ Malformed ds ∨
      ∃ lfn dos, result = .found (p * 32) d lfn dos ∧ EntryAt ds q p lfn := by
  rw [locateStep] at hturn
  split at hturn
  · next hnever =>
      cases hturn
      exact .inl ⟨rfl, hnever⟩
  next hused =>
  split at hturn
  · cases hturn
  next hdel =>
  have hlive : ¬ d.Free := by simp [Dirent.Free, hused, hdel]
  split at hturn
  · next hlfn =>
      rw [Fat.readLfn] at hturn
      split at hturn
      · cases hturn
      split at hturn
      · next hopens =>
          split at hturn
          · next hzero =>
              cases hturn
              exact .inr (.inl ⟨rfl, d, List.mem_of_getElem? hd, hlfn.2.2, hopens, hzero⟩)
          · cases hturn
      · cases hturn
  refine .inr (.inr ?_)
  split at hturn
  · -- a label has no long name
    simp only [Ccb.matchEverything, if_true, Turn.stop.injEq] at hturn
    have hon : LiveOn ds p p := fun m _ _ => by omega
    exact ⟨[], false, hturn.symm, hq, hon.succ hd hlive⟩
  · simp only [readShort, Ccb.matchEverything, if_true, Turn.stop.injEq] at hturn
    obtain ⟨hfits, hon⟩ := h.validLfn (d := d) hq
    exact ⟨_, false, hturn.symm, hfits, hon.succ hd hlive⟩

/-- The whole search, by the slots that are left. -/
theorem Tight.answers (h : Tight ds q p run) (hq : q ≤ p)
    (hpassed : ∀ (i : ℕ) (d : Dirent), q ≤ i → i < p → ds[i]? = some d →
      d.Free ∨ chicagoMode = true ∧ d.attributes = Dirent.attrLfn) :
    Answers chicagoMode ds q
      (locateFrom nls chicagoMode true Ccb.matchEverything (p * 32) run (ds.drop p)) := by
  induction hk : ds.length - p generalizing p run with
  | zero =>
      rw [List.drop_eq_nil_of_le (by omega), locateFrom]
      intro i d hi hd hlive hattr
      have hlt := (List.getElem?_eq_some_iff.mp hd).1
      rcases hpassed i d hi (by omega) hd with hfree | ⟨hmode, hlfn⟩
      · exact absurd hfree hlive
      · exact absurd hlfn (hattr hmode)
  | succ k ih =>
      have hp : p < ds.length := by omega
      have hd : ds[p]? = some ds[p] := List.getElem?_eq_getElem hp
      rw [List.drop_eq_getElem_cons hp, locateFrom]
      cases hturn : locateStep nls chicagoMode true Ccb.matchEverything (p * 32) ds[p] run with
      | stop result =>
          rcases h.stop hd hq hturn with ⟨rfl, hnever⟩ | ⟨rfl, hbad⟩ | ⟨lfn, dos, rfl, hentry⟩
          · intro i d hi hdi hlive hattr
            rcases Nat.lt_trichotomy i p with hlt | rfl | hgt
            · rcases hpassed i d hi hlt hdi with hfree | ⟨hmode, hlfn⟩
              · exact absurd hfree hlive
              · exact absurd hlfn (hattr hmode)
            · rw [hd] at hdi
              obtain rfl := Option.some.inj hdi
              exact absurd (.inl hnever) hlive
            · exact ⟨p, ds[p], hq, hgt, hd, hnever⟩
          · exact hbad
          · exact ⟨p, rfl, hentry⟩
      | go run' =>
          obtain ⟨htight, -, hslot⟩ := h.go hd hq hturn
          have hnext := ih htight (by omega) (fun i d hi hip hdi => ?_) (by omega)
          · rwa [Nat.add_mul, Nat.one_mul] at hnext
          · rcases Nat.lt_succ_iff_lt_or_eq.mp hip with hlt | rfl
            · exact hpassed i d hi hlt hdi
            · rw [hd] at hdi
              exact Option.some.inj hdi ▸ hslot

theorem answers_fatLocateDirent (dir : Directory) (hq : q ≤ dir.dirents.length) :
    Answers chicagoMode dir.dirents q
      (fatLocateDirent nls chicagoMode true Ccb.matchEverything dir (32 * q)) := by
  have hslot : startSlot (32 * q) = q := by
    have := dir.size_lt
    rw [startSlot, Nat.mod_eq_of_lt (by omega)]
    omega
  rw [fatLocateDirent, hslot]
  exact (tight_none _ _ _).answers le_rfl fun i d hi hip => by omega

end Turn

/-! ## The runs -/

/-- Runs of slots in use, one behind the other, from slot `q` on. -/
def RunsFrom (ds : List Dirent) : (q : ℕ) → List (ℕ × ℕ) → Prop
  | _, [] => True
  | q, r :: rs => (q ≤ r.1 ∧ 0 < r.2) ∧ r.1 + r.2 ≤ ds.length ∧ LiveOn ds r.1 (r.1 + r.2) ∧
      RunsFrom ds (r.1 + r.2) rs

/-- The slot behind the last run. -/
def runsEnd : (q : ℕ) → List (ℕ × ℕ) → ℕ
  | q, [] => q
  | _, r :: rs => runsEnd (r.1 + r.2) rs

theorem noEntry_of_length_le {chicagoMode : Bool} {ds : List Dirent} {q : ℕ}
    (h : ds.length ≤ q) : NoEntry chicagoMode ds q := by
  intro i d hi hd
  have := (List.getElem?_eq_some_iff.mp hd).1
  omega

/-- The loop finds every entry from slot `q` on.  There is fuel for one entry a slot. -/
theorem entryRuns_spec (nls : Nls) (chicagoMode : Bool) (dir : Directory) (fuel q : ℕ)
    (hq : q ≤ dir.dirents.length) (hfuel : dir.dirents.length ≤ q + fuel) :
    (entryRuns nls chicagoMode dir fuel q = none → Malformed dir.dirents) ∧
      ∀ rs, entryRuns nls chicagoMode dir fuel q = some rs →
        RunsFrom dir.dirents q rs ∧ NoEntry chicagoMode dir.dirents (runsEnd q rs) := by
  induction fuel generalizing q with
  | zero =>
      refine ⟨by simp [entryRuns], fun rs hrs => ?_⟩
      obtain rfl := Option.some.inj hrs
      exact ⟨trivial, noEntry_of_length_le (by rw [runsEnd]; omega)⟩
  | succ fuel ih =>
      have hanswer : Answers chicagoMode dir.dirents q
          (fatLocateDirent nls chicagoMode true Ccb.matchEverything dir (32 * q)) :=
        answers_fatLocateDirent dir hq
      rw [entryRuns]
      cases hloc : fatLocateDirent nls chicagoMode true Ccb.matchEverything dir (32 * q) with
      | notFound =>
          rw [hloc] at hanswer
          refine ⟨by simp, fun rs hrs => ?_⟩
          obtain rfl := Option.some.inj hrs
          exact ⟨trivial, hanswer⟩
      | corrupt =>
          rw [hloc] at hanswer
          exact ⟨fun _ => hanswer, by simp⟩
      | found off e lfn dos =>
          rw [hloc] at hanswer
          obtain ⟨i, rfl, hentry⟩ := hanswer
          have hlt := hentry.lt
          have hfits := hentry.fits
          have hend : i - fatLfnDirentsNeeded lfn + (fatLfnDirentsNeeded lfn + 1) = i + 1 := by
            omega
          obtain ⟨hnone, hsome⟩ := ih (i + 1) (by omega) (by omega)
          simp only [Nat.mul_div_cancel i (by decide : 0 < 32)]
          split
          · refine ⟨fun h => hnone (Option.map_eq_none_iff.mp h), fun rs hrs => ?_⟩
            obtain ⟨rs', hrs', rfl⟩ := Option.map_eq_some_iff.mp hrs
            obtain ⟨hruns, hrest⟩ := hsome rs' hrs'
            simp only [RunsFrom, runsEnd, hend]
            exact ⟨⟨⟨by omega, by omega⟩, by omega, hentry.live, hruns⟩, hrest⟩
          · refine ⟨by simp, fun rs hrs => ?_⟩
            obtain rfl := Option.some.inj hrs
            simp only [RunsFrom, runsEnd, hend, and_true]
            exact ⟨⟨⟨by omega, by omega⟩, by omega, hentry.live⟩, noEntry_of_length_le (by omega)⟩

theorem length_usedDirents {ds : List Dirent} {q : ℕ} {rs : List (ℕ × ℕ)}
    (h : RunsFrom ds q rs) : (usedDirents ds rs).length = runsTotal rs := by
  induction rs generalizing q with
  | nil => rfl
  | cons r rs ih =>
      obtain ⟨-, hle, -, hrest⟩ := h
      have hrec := ih hrest
      simp only [usedDirents, runsTotal, List.flatMap_cons, List.length_append, List.length_take,
        List.length_drop, List.map_cons, List.sum_cons] at hrec ⊢
      omega

/-- The runs and the holes before them fill the directory up to the end of the last run. -/
theorem length_unusedDirents {ds : List Dirent} {q : ℕ} {rs : List (ℕ × ℕ)}
    (h : RunsFrom ds q rs) (hq : q ≤ ds.length) :
    q + (runsTotal rs + (unusedDirents ds q rs).length) = runsEnd q rs ∧
      runsEnd q rs ≤ ds.length := by
  induction rs generalizing q with
  | nil => exact ⟨by simp [runsTotal, unusedDirents, runsEnd], hq⟩
  | cons r rs ih =>
      obtain ⟨hr, hle, -, hrest⟩ := h
      obtain ⟨hrec, hend⟩ := ih hrest hle
      refine ⟨?_, hend⟩
      simp only [runsTotal, unusedDirents, runsEnd, List.map_cons, List.sum_cons,
        List.length_append, List.length_take, List.length_drop] at hrec ⊢
      omega

/-- The last run ends before the slots that are free up to the end. -/
theorem runsEnd_le {ds : List Dirent} {q u : ℕ} {rs : List (ℕ × ℕ)} (h : RunsFrom ds q rs)
    (hq : q ≤ u) (hfree : ∀ (i : ℕ) (d : Dirent), u ≤ i → ds[i]? = some d → d.Free) :
    runsEnd q rs ≤ u := by
  induction rs generalizing q with
  | nil => exact hq
  | cons r rs ih =>
      obtain ⟨⟨-, hpos⟩, -, hlive, hrest⟩ := h
      refine ih hrest ?_
      obtain ⟨d, hd, hd'⟩ := hlive (r.1 + r.2 - 1) (by omega) (by omega)
      by_contra hlt
      exact hd' (hfree _ d (by omega) hd)

theorem live_usedDirents {ds : List Dirent} {q : ℕ} {rs : List (ℕ × ℕ)} (h : RunsFrom ds q rs) :
    ∀ d ∈ usedDirents ds rs, ¬ d.Free := by
  induction rs generalizing q with
  | nil => simp [usedDirents]
  | cons r rs ih =>
      obtain ⟨-, hle, hlive, hrest⟩ := h
      intro d hd
      rw [usedDirents, List.flatMap_cons, List.mem_append] at hd
      rcases hd with hd | hd
      · obtain ⟨m, hm⟩ := List.mem_iff_getElem?.mp hd
        rw [List.getElem?_take] at hm
        split at hm
        · next hlt =>
            rw [List.getElem?_drop] at hm
            obtain ⟨e, he, hlive⟩ := hlive (r.1 + m) (by omega) (by omega)
            rw [hm] at he
            exact Option.some.inj he ▸ hlive
        · cases hm
      · exact ih hrest d hd

section Compacted

variable {ds : List Dirent} {rs : List (ℕ × ℕ)}

theorem runsTotal_le (h : RunsFrom ds 0 rs) : runsTotal rs ≤ runsEnd 0 rs := by
  have := (length_unusedDirents h (Nat.zero_le _)).1
  omega

theorem length_compacted (h : RunsFrom ds 0 rs) : (compacted ds rs).length = ds.length := by
  have hused := length_usedDirents h
  obtain ⟨hunused, hend⟩ := length_unusedDirents h (Nat.zero_le _)
  simp only [compacted, List.length_append, List.length_map, List.length_drop]
  omega

/-- The slots at the front are in use. -/
theorem live_compacted (h : RunsFrom ds 0 rs) {i : ℕ} {d : Dirent} (hi : i < runsTotal rs)
    (hd : (compacted ds rs)[i]? = some d) : ¬ d.Free := by
  have hused := length_usedDirents h
  rw [compacted, List.append_assoc, List.getElem?_append_left (by omega)] at hd
  exact live_usedDirents h d (List.mem_of_getElem? hd)

/-- The slots behind them, up to the end of the last run, are deleted. -/
theorem deleted_compacted (h : RunsFrom ds 0 rs) {i : ℕ} {d : Dirent} (hi : runsTotal rs ≤ i)
    (hend : i < runsEnd 0 rs) (hd : (compacted ds rs)[i]? = some d) :
    d.ordinal = Dirent.deleted := by
  have hused := length_usedDirents h
  have hunused := (length_unusedDirents h (Nat.zero_le _)).1
  rw [compacted, List.append_assoc, List.getElem?_append_right (by omega),
    List.getElem?_append_left (by rw [List.length_map]; omega), List.getElem?_map] at hd
  obtain ⟨e, -, rfl⟩ := Option.map_eq_some_iff.mp hd
  exact e.ordinal_markDeleted

/-- Behind the last run nothing has changed. -/
theorem getElem?_compacted (h : RunsFrom ds 0 rs) {i : ℕ} (hi : runsEnd 0 rs ≤ i) :
    (compacted ds rs)[i]? = ds[i]? := by
  have hused := length_usedDirents h
  have hunused := (length_unusedDirents h (Nat.zero_le _)).1
  rw [compacted, List.getElem?_append_right (by simp only [List.length_append, List.length_map]; omega),
    List.getElem?_drop]
  congr 1
  simp only [List.length_append, List.length_map]
  omega

end Compacted

end KernelDrivers.Fat
