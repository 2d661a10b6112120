import KernelDrivers.Lib.Reach
import KernelDrivers.Fat.Reserve

/-!
# The free-dirent bitmap over a whole run

A run of a directory: entries are created and deleted, the directory is made longer,
compacted and scanned again, in any order.  `BitmapSound` is what `FatCreateNewDirent` relies
on.  Three things can break it: the bitmap is resized in whole bytes, a compaction clears the
bits of long-name dirents that it leaves in place, and a scan stops at the first slot that has
never been used.

## Main results

* `kept_step` — one event keeps the books.
* `bitmapSound_of_reach` — in every run whose events meet `DirentEvent.Clean`.
* `not_bitmapSound_quarterCluster` — a directory that loses its bits when it grows.
-/

namespace KernelDrivers.Fat

/-- The bits say which slots are free, and from `UnusedDirentVbo` on all are. -/
def BitmapSound (s : Dcb) : Prop :=
  ∀ u, s.unusedDirentVbo = some u → ∀ (i : ℕ) (d : Dirent), s.dirents[i]? = some d →
    (s.freeDirentBitmap.bit i = false ↔ d.Free) ∧ (u ≤ i → d.Free)

theorem Kept.bitmapSound {s : Dcb} (h : Kept True s) : BitmapSound s := by
  intro u hu i d hd
  rcases h with ⟨hnone, -⟩ | ⟨u', hbooked⟩
  · rw [hnone] at hu
    cases hu
  · have : u' = u := Option.some.inj (hbooked.unused_eq.symm.trans hu)
    subst this
    exact ⟨⟨hbooked.free_of_clear i d hd, hbooked.clear_of_free trivial i d hd⟩,
      fun hi => hbooked.above i d hi hd⟩

section Run

variable (nls : Nls) (chicagoMode : Bool) (k : DcbSite)

/-- What happens to a directory.  `create` also writes the dirents into the range that it has
reserved. -/
inductive DirentEvent
  | create (stale : ℕ → Bool) (dirents : List Dirent)
  | delete (lfnOffset direntOffset : ℕ)
  | grow (stale : ℕ → Bool) (slot : ℕ)
  | defrag (direntsNeeded : ℕ)
  | rescan (stale : ℕ → Bool)

def createEntry (c : DirentCall) (es : List Dirent) : EStateM DirentStatus Dcb Unit := do
  let off ← fatCreateNewDirent nls chicagoMode k c es.length
  modify (writeDirents off es)

def direntStep (s : Dcb) : DirentEvent → Dcb
  | .create stale es => stateAfter (createEntry nls chicagoMode k ⟨none, stale⟩ es) s
  | .delete lfnOffset direntOffset => fatDeleteDirent lfnOffset direntOffset s
  | .grow stale slot => stateAfter (fatPrepareWriteDirectoryFile k ⟨none, stale⟩ slot) s
  | .defrag n => stateAfter (fatDefragDirectory nls chicagoMode ⟨none, fun _ => false⟩ n) s
  | .rescan stale => stateAfter (fatRescanDirectory ⟨none, stale⟩) s

/-- What callers pass: a name takes at most twenty long-name dirents, the dirents of a new
entry are in use, and those of an old one lie in the directory. -/
def DirentEvent.Allowed (s : Dcb) : DirentEvent → Prop
  | .create _ es => 0 < es.length ∧ es.length ≤ 21 ∧ ∀ e ∈ es, ¬ e.Free
  | .delete lfnOffset direntOffset => lfnOffset ≤ direntOffset ∧ direntOffset < s.dirents.length
  | _ => True

/-- A call for `n` slots that keeps out of the three traps. -/
structure CallClean (s : Dcb) (n : ℕ) : Prop where
  hidden : s.unusedDirentVbo = none → NoHidden s.dirents
  grow : NoRoom s.dirents n → k.fixedSize = false → s.dirents.length < 64 * 1024 →
    8 ∣ s.dirents.length ∧ 8 ∣ k.direntsPerCluster
  defrag : NoRoom s.dirents n → k.fixedSize = true → 32 * s.dirents.length ≤ 0x40000 →
    chicagoMode = true → Owned s.dirents

/-- An event that keeps out of the three traps: a growth has whole bytes of bits, a compaction
finds every long-name dirent with an owner, and a scan sees every live dirent. -/
def DirentEvent.Clean (s : Dcb) : DirentEvent → Prop
  | .create _ es => CallClean chicagoMode k s es.length
  | .delete _ _ => True
  | .grow _ slot => s.dirents.length ≤ slot → k.fixedSize = false →
      8 ∣ s.dirents.length ∧ 8 ∣ k.direntsPerCluster
  | .defrag _ => 32 * s.dirents.length ≤ 0x40000 → chicagoMode = true → Owned s.dirents
  | .rescan _ => NoHidden s.dirents

variable {nls chicagoMode k} {s : Dcb}

theorem CallClean.sat {n : ℕ} (hclean : CallClean chicagoMode k s n) (h : Kept True s)
    (hn : 0 < n) (stale : ℕ → Bool) :
    Sat (fatCreateNewDirent nls chicagoMode k ⟨none, stale⟩ n) s
      (fun off t => ∃ u, Reserved True t u off n)
      (fun e t => Kept True t ∧ (NoHidden s.dirents → NoHidden t.dirents) ∧
        (e = .fileCorruptError → Malformed s.dirents)) := by
  refine (sat_fatCreateNewDirent h hn (by simp) hclean.hidden ?_ ?_).mono ?_ fun _ _ he => he
  · exact fun hcrowded => hclean.grow (h.noRoom hn hcrowded)
  · exact fun hcrowded => hclean.defrag (h.noRoom hn hcrowded)
  · exact fun off t ⟨u, hres, _⟩ => ⟨u, hres⟩

/-- The books of a directory that is made longer before they have been found. -/
theorem sat_grow_of_none {stale : ℕ → Bool} (slot : ℕ) (hnone : s.unusedDirentVbo = none)
    (hsize : s.freeDirentBitmap.size ≤ s.dirents.length) :
    Sat (fatPrepareWriteDirectoryFile k ⟨none, stale⟩ slot) s (fun _ t => Kept True t)
      (fun _ t => Kept True t) := by
  rw [fatPrepareWriteDirectoryFile]
  refine Sat.bind ((sat_fatOpenDirectoryFile hsize).mono (fun _ _ hq => hq) ?_) ?_
  · intro e t he
    cases he.2.2
  rintro _ t ⟨b, hb, rfl⟩
  have hkept : Kept True { s with freeDirentBitmap := b } := .inl ⟨hnone, hb.le⟩
  apply Sat.get_bind
  split
  · next hlen =>
      cases hfixed : k.fixedSize with
      | true => exact hkept
      | false =>
          have hslot := k.lt_clusters slot
          simp only [Bool.false_eq_true, reduceCtorEq, if_false]
          dsimp only at hlen
          refine Sat.bind ((sat_fatCheckFreeDirentBitmap _).mono (fun _ _ hq => hq) ?_) ?_
          · intro e t he
            cases he.2.2
          rintro _ t ⟨b', rfl, hb', -⟩
          rw [hb' (by dsimp only; omega)]
          refine Sat.modify (.inl ⟨hnone, ?_⟩)
          simp only [resizeBitmap, List.length_append, List.length_replicate]
          omega
  · exact hkept

/-- A compaction before the books have been found. -/
theorem sat_defrag_of_none (n : ℕ) (hnone : s.unusedDirentVbo = none)
    (hsize : s.freeDirentBitmap.size ≤ s.dirents.length) :
    Sat (fatDefragDirectory nls chicagoMode ⟨none, fun _ => false⟩ n) s (fun _ t => Kept True t)
      (fun _ t => Kept True t) := by
  have hkept : Kept True s := .inl ⟨hnone, hsize⟩
  rw [fatDefragDirectory]
  apply Sat.get_bind
  by_cases hsmall : 32 * s.dirents.length ≤ 0x40000
  · simp only [dif_pos hsmall, reduceCtorEq, if_false]
    split
    · exact hkept
    · next runs hruns =>
        have hspec := (entryRuns_spec nls chicagoMode ⟨s.dirents, by omega⟩
          s.dirents.length 0 (Nat.zero_le _) (by simp)).2 runs hruns
        split
        · exact hkept
        · refine .inl ⟨hnone, ?_⟩
          have hlen : (compacted s.dirents runs).length = s.dirents.length :=
            length_compacted hspec.1
          simpa [hlen] using hsize
  · simp only [dif_neg hsmall]
    exact hkept

/-- One event keeps the books. -/
theorem kept_step {e : DirentEvent} (h : Kept True s) (hallowed : e.Allowed s)
    (hclean : e.Clean chicagoMode k s) : Kept True (direntStep nls chicagoMode k s e) := by
  cases e with
  | create stale es =>
      obtain ⟨hpos, -, hes⟩ := hallowed
      apply stateAfter_of_sat
      rw [createEntry]
      refine Sat.bind ((CallClean.sat hclean h hpos stale).mono (fun _ _ hq => hq)
        fun _ _ he => he.1) ?_
      rintro off t ⟨u, hres⟩
      exact .inr ⟨u, hres.write hes⟩
  | delete lfnOffset direntOffset => exact h.delete hallowed.1
  | grow stale slot =>
      apply stateAfter_of_sat
      rcases h with ⟨hnone, hsize⟩ | ⟨u, hbooked⟩
      · exact sat_grow_of_none slot hnone hsize
      · refine (sat_fatPrepareWriteDirectoryFile hbooked slot (by simp) hclean).mono ?_ ?_
        · exact fun _ t ht => .inr ⟨u, ht.1⟩
        · rintro _ t ⟨rfl, -⟩
          exact .inr ⟨u, hbooked⟩
  | defrag n =>
      apply stateAfter_of_sat
      rcases h with ⟨hnone, hsize⟩ | ⟨u, hbooked⟩
      · exact sat_defrag_of_none n hnone hsize
      · refine (sat_fatDefragDirectory hbooked n hclean).mono ?_ ?_
        · exact fun _ t ht => .inr ⟨u, ht.1⟩
        · rintro _ t ⟨rfl, -⟩
          exact .inr ⟨u, hbooked⟩
  | rescan stale =>
      apply stateAfter_of_sat
      have hsize : s.freeDirentBitmap.size ≤ s.dirents.length := by
        rcases h with ⟨-, hsize⟩ | ⟨u, hbooked⟩
        · exact hsize
        · exact hbooked.size_eq.le
      refine (sat_fatRescanDirectory True hsize hclean).mono ?_ ?_
      · exact fun _ t ht => .inr ht.2
      · rintro e t ⟨-, hfault, -⟩
        exact absurd rfl hfault

/-- `FatCreateNewDirent` returns slots that are free, and does not find them in use. -/
def CreatesSafely (nls : Nls) (chicagoMode : Bool) (k : DcbSite) (s : Dcb) (n : ℕ) : Prop :=
  ∀ stale, Sat (fatCreateNewDirent nls chicagoMode k ⟨none, stale⟩ n) s
    (fun off t => off + n ≤ t.dirents.length ∧ ∀ (i : ℕ) (d : Dirent), off ≤ i → i < off + n →
      t.dirents[i]? = some d → d.Free)
    (fun e _ => e = .fileCorruptError → Malformed s.dirents)

/-- In every run whose events keep out of the three traps the bitmap is sound, and a call that
does so too gets free slots. -/
theorem bitmapSound_of_reach {s₀ : Dcb} (hnone : s₀.unusedDirentVbo = none)
    (hsize : s₀.freeDirentBitmap.size ≤ s₀.dirents.length)
    (hrun : Reach (direntStep nls chicagoMode k)
      (fun s e => e.Allowed s ∧ e.Clean chicagoMode k s) s₀ s) :
    BitmapSound s ∧ ∀ n, 0 < n → CallClean chicagoMode k s n →
      CreatesSafely nls chicagoMode k s n := by
  have hkept : Kept True s :=
    hrun.invariant (.inl ⟨hnone, hsize⟩) fun s e h he => kept_step h he.1 he.2
  refine ⟨hkept.bitmapSound, fun n hn hclean stale => ?_⟩
  refine (hclean.sat hkept hn stale).mono ?_ fun _ _ he => he.2.2
  rintro off t ⟨u, hres⟩
  have hu := hres.unused_le
  have hrange := hres.range_le
  exact ⟨by omega, hres.free⟩

end Run

/-- A subdirectory with clusters of sixteen dirents. -/
def wholeSite : DcbSite := ⟨false, false, 16, by decide⟩

/-- A directory of one zeroed cluster, before its first use. -/
def zeroedDcb : Dcb := ⟨List.replicate 16 Dirent.zero, ⟨0, fun _ => false⟩, none, 2 ^ 27 - 1⟩

/-- The directory with one entry. -/
def oneEntryDcb : Dcb :=
  direntStep Nls.ascii true wholeSite zeroedDcb (.create (fun _ => true) [shortT])

theorem callClean_of_zero {chicagoMode : Bool} {k : DcbSite} {s : Dcb} {i : ℕ}
    (hi : s.dirents[i]? = some Dirent.zero) (hhidden : s.unusedDirentVbo = none → NoHidden s.dirents) :
    CallClean chicagoMode k s 1 := by
  have hroom := not_noRoom_of_zero hi
  exact ⟨hhidden, fun h => absurd h hroom, fun h => absurd h hroom⟩

theorem bitmapSound_oneEntryDcb :
    BitmapSound oneEntryDcb ∧ CreatesSafely Nls.ascii true wholeSite oneEntryDcb 1 := by
  have hhidden : NoHidden zeroedDcb.dirents := by
    intro i j d e _ _ he _
    have := List.eq_of_mem_replicate (List.mem_of_getElem? he)
    exact this ▸ Dirent.free_zero
  have hfirst : CallClean true wholeSite zeroedDcb 1 := callClean_of_zero (i := 0) rfl fun _ => hhidden
  have hnext : CallClean true wholeSite oneEntryDcb 1 := by
    refine callClean_of_zero (i := 1) (by decide +kernel) fun hnone => ?_
    exact absurd hnone (by decide +kernel)
  have hrun : Reach (direntStep Nls.ascii true wholeSite)
      (fun s e => e.Allowed s ∧ e.Clean true wholeSite s) zeroedDcb oneEntryDcb :=
    .next .start ⟨⟨by decide, by decide, by decide⟩, hfirst⟩
  have hsound := bitmapSound_of_reach rfl (Nat.zero_le _) hrun
  exact ⟨hsound.1, hsound.2 1 Nat.one_pos hnext⟩

/-- A subdirectory with clusters of 128 bytes, four dirents. -/
def quarterSite : DcbSite := ⟨false, false, 4, by decide⟩

/-- A directory with one cluster, all of it in use. -/
def quarterDcb : Dcb where
  dirents := [(Dirent.zero.setByte 0 0x2e).setByte 11 0x10, (Dirent.zero.setByte 0 0x2e).setByte 11 0x10,
    shortS, shortT]
  freeDirentBitmap := ⟨0, fun _ => false⟩
  unusedDirentVbo := none
  deletedDirentHint := 2 ^ 27 - 1

/-- One more entry makes the directory longer, and the bits of the entries that it has get
lost. -/
theorem not_bitmapSound_quarterCluster :
    ¬ ∀ s, Reach (direntStep Nls.ascii true quarterSite) (fun s e => e.Allowed s) quarterDcb s →
      BitmapSound s := by
  intro hall
  have hrun : Reach (direntStep Nls.ascii true quarterSite) (fun s e => e.Allowed s) quarterDcb
      (direntStep Nls.ascii true quarterSite quarterDcb (.create (fun _ => false) [shortT])) :=
    .next .start ⟨by decide, by decide, by decide⟩
  have hsound := hall _ hrun 5 (by decide +kernel) 2 shortS (by decide +kernel)
  have hclear := hsound.1.mp (by decide +kernel)
  exact absurd hclear (by decide)

end KernelDrivers.Fat
