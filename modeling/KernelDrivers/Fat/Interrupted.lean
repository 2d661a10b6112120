import KernelDrivers.Fat.Entrywise
import KernelDrivers.Fat.LookupRun

/-!
# Interrupted run writes

On FAT32 a long run is written chunk by chunk, and an access that fails leaves chunks that are
written already.  The unwind of `FatSetFatRun` goes over their entries again.  Its comment says
that the previous value of an entry is zero when the run was being chained together and a link
otherwise, but the routine stores a link in the first case and zero in the second: what it
leaves is what the interrupted write would have left.

`FatDeallocateDiskSpace` frees the runs of a file, and its unwind chains them together again,
each to the next.  This restores the chain unless the run that could not be freed was
interrupted in the middle.

## Main definitions

* `Unwinds` — an interrupted run write leaves the entries as they were.
* `RestoresChain` — an interrupted deallocation leaves the chain as it was.

## Main results

* `sat_fatSetFatRun_fault` — what an interrupted run write leaves.
* `unwinds_iff` — only a run of one chunk is left as it was.
* `sat_freeRuns_fault` — the runs of an interrupted deallocation are chained again.
* `restoresChain_iff` — when the chain is restored.
-/

namespace KernelDrivers.Fat

variable {g : Geometry} {vol : Volume} {start count : ℕ} {chainTogether : Bool}

/-! ## The fault -/

/-- The access that is not the one that fails. -/
theorem access_succ (vol : Volume) (n : ℕ) :
    access { vol with io := some (n + 1) } = .ok () { vol with io := some n } := rfl

/-- The access that fails. -/
theorem access_zero (vol : Volume) :
    access { vol with io := some 0 } = .error (.raised .deviceError) { vol with io := none } := rfl

/-! ## An interrupted run write -/

/-- The entry that a full chunk stores, and the unwind again. -/
def chunkEntry (chainTogether : Bool) (c : ℕ) : ℕ :=
  if chainTogether then c + 1 else fatClusterAvailable

/-- The unwind stores what the chunk stored. -/
theorem sat_unwindFatRun {saved n : ℕ} (h2 : 2 ≤ saved)
    (hend : saved + n ≤ g.numberOfClusters + 2) (hio : vol.io = none) :
    Sat (unwindFatRun g chainTogether saved n) vol
      (fun _ vol' => vol'.io = none ∧ ∀ j, lookupEntry g.width vol'.fat j =
        if saved ≤ j ∧ j < saved + n then chunkEntry chainTogether j % 2 ^ g.width.linkBits
        else lookupEntry g.width vol.fat j)
      (fun _ _ => False) := by
  induction n generalizing vol with
  | zero =>
      refine Sat.pure ⟨hio, fun j => ?_⟩
      rw [if_neg (by omega)]
  | succ n ih =>
      rw [unwindFatRun]
      refine Sat.bind ((sat_fatSetFatEntry _ (by omega) (by omega)).mono (fun _ _ h => h)
        fun _ _ h => h.2.io hio) ?_
      intro _ t ht
      refine (ih (by omega) (ht.io hio)).mono ?_ fun _ _ h => h
      intro _ t' ht'
      refine ⟨ht'.1, fun j => ?_⟩
      rw [ht'.2, ht.entry]
      by_cases hj : j = saved + n
      · have hout : ¬ (saved ≤ j ∧ j < saved + n) := by omega
        have hin : saved ≤ j ∧ j < saved + (n + 1) := by omega
        rw [if_neg hout, if_pos hj, if_pos hin, hj]
        rfl
      · have hiff : saved ≤ j ∧ j < saved + n ↔ saved ≤ j ∧ j < saved + (n + 1) := by omega
        simp only [if_neg hj, hiff]

theorem lookupEntry_storeChunk_of_lt (fat : Bytes) (hlt : maxCountClus < count) (j : ℕ) :
    lookupEntry .fat32 (storeChunk fat start count chainTogether) j =
      if start ≤ j ∧ j < start + maxCountClus then
        chunkEntry chainTogether j % 2 ^ FatWidth.fat32.linkBits
      else lookupEntry .fat32 fat j := by
  rw [storeChunk, if_neg (by omega), min_eq_right hlt.le, lookupEntry_storeLinks _ _ (by simp),
    chunkEntry]
  cases chainTogether <;> rfl

/-- The FAT32 loop when access number `n` fails: the entries of the chunks that were written stay
written, those of the chunks before too. -/
theorem sat_setFatRunChunks_fault (hw : g.width = .fat32) {saved n : ℕ} (h2 : 2 ≤ saved)
    (hsaved : saved ≤ start) (hend : start + count ≤ g.numberOfClusters + 2)
    (hn : n * maxCountClus < count) :
    Sat (setFatRunChunks g chainTogether saved start count) { vol with io := some n }
      (fun _ _ => False)
      (fun s vol' => s = .raised .deviceError ∧ vol'.io = none ∧ ∀ j, lookupEntry .fat32 vol'.fat j =
        if saved ≤ j ∧ j < start + n * maxCountClus then
          chunkEntry chainTogether j % 2 ^ FatWidth.fat32.linkBits
        else lookupEntry .fat32 vol.fat j) := by
  induction n generalizing vol start count with
  | zero =>
      rw [setFatRunChunks]
      refine Sat.bind (R := fun _ _ => False) ?_ fun _ _ h => h.elim
      apply Sat.protect
      refine Sat.of_error (access_zero vol) ?_
      rw [if_pos (Stop.isRaised_raised _)]
      refine (sat_unwindFatRun h2 (by omega) rfl).mono ?_ fun _ _ h => h.elim
      intro _ t ht
      refine ⟨rfl, ht.1, fun j => ?_⟩
      have hj := ht.2 j
      rw [hw] at hj
      rw [hj, Nat.zero_mul, Nat.add_zero, Nat.add_sub_cancel' hsaved]
  | succ n ih =>
      rw [Nat.add_mul, Nat.one_mul] at hn
      have hlt : maxCountClus < count := by omega
      rw [setFatRunChunks]
      refine Sat.bind (R := fun _ t => t = { vol with io := some n }) ?_ ?_
      · apply Sat.protect
        exact Sat.of_ok (access_succ vol n) rfl
      intro _ t ht
      subst ht
      apply Sat.modify_bind
      rw [dif_neg (by omega)]
      refine (@ih { markDirty g (entryOffset g start)
          (entryOffset g (start + min count maxCountClus - 1)) { vol with io := some n } with
        fat := storeChunk vol.fat start count chainTogether } (start + maxCountClus)
        (count - maxCountClus) (by omega) (by omega) (by omega)).mono (fun _ _ h => h) ?_
      rintro s t ⟨hs, hio, hentry⟩
      refine ⟨hs, hio, fun j => ?_⟩
      rw [hentry, lookupEntry_storeChunk_of_lt vol.fat hlt, Nat.add_mul, Nat.one_mul,
        Nat.add_comm (n * maxCountClus), Nat.add_assoc]
      by_cases hin : saved ≤ j ∧ j < start + (maxCountClus + n * maxCountClus)
      · rw [if_pos hin, if_pos hin]
      · rw [if_neg hin, if_neg hin, if_neg (by omega)]

/-- **An interrupted run write** on FAT32, `n` whole chunks after its beginning. -/
theorem sat_fatSetFatRun_fault (hw : g.width = .fat32) {n : ℕ} (h2 : 2 ≤ start)
    (hend : start + count ≤ g.numberOfClusters + 2) (hn : n * maxCountClus < count) :
    Sat (fatSetFatRun g start count chainTogether) { vol with io := some n }
      (fun _ _ => False)
      (fun s vol' => s = .raised .deviceError ∧ vol'.io = none ∧ ∀ j, lookupEntry .fat32 vol'.fat j =
        if start ≤ j ∧ j < start + n * maxCountClus then
          chunkEntry chainTogether j % 2 ^ FatWidth.fat32.linkBits
        else lookupEntry .fat32 vol.fat j) := by
  rw [fatSetFatRun]
  apply Sat.bind ((sat_fatVerifyIndexIsValid h2 (by omega)).mono (fun _ _ h => h)
    (fun _ _ h => h.elim))
  intro _ t ht
  subst ht
  apply Sat.bind ((sat_fatVerifyIndexIsValid (by omega) (by omega)).mono (fun _ _ h => h)
    (fun _ _ h => h.elim))
  intro _ t ht
  subst ht
  rw [if_neg (by omega), hw]
  exact sat_setFatRunChunks_fault hw h2 le_rfl hend hn

/-- The entries of a run as the callers of `FatSetFatRun` guarantee them: free when the run is to be
chained together, and a sequential chain when it is to be freed. -/
def RunReady (w : FatWidth) (fat : Bytes) (start count : ℕ) (chainTogether : Bool) : Prop :=
  if chainTogether then ∀ c, start ≤ c → c < start + count → lookupEntry w fat c = 0
  else ∀ c, start ≤ c → c + 1 < start + count → lookupEntry w fat c = c + 1

/-- Whenever the run write raises after it has written `n` whole chunks, the entries of these chunks
are as they were before. -/
def Unwinds (g : Geometry) (vol : Volume) (start count : ℕ) (chainTogether : Bool) : Prop :=
  ∀ n, 0 < n → n * maxCountClus < count →
    Sat (fatSetFatRun g start count chainTogether) { vol with io := some n } (fun _ _ => True)
      (fun _ vol' => ∀ j, start ≤ j → j < start + n * maxCountClus →
        lookupEntry g.width vol'.fat j = lookupEntry g.width vol.fat j)

/-- Every entry of the chunks that were written has the wrong value. -/
theorem chunkEntry_ne (hN : g.numberOfClusters + 1 < 2 ^ 28)
    (hend : start + count ≤ g.numberOfClusters + 2)
    (hready : RunReady .fat32 vol.fat start count chainTogether) {j : ℕ} (hj : start ≤ j)
    (hlt : j + 1 < start + count) :
    chunkEntry chainTogether j % 2 ^ FatWidth.fat32.linkBits ≠ lookupEntry .fat32 vol.fat j := by
  rw [RunReady] at hready
  rw [chunkEntry, FatWidth.linkBits]
  cases chainTogether with
  | true =>
      rw [if_pos rfl] at hready
      rw [if_pos rfl, hready j hj (by omega), Nat.mod_eq_of_lt (by omega)]
      omega
  | false =>
      rw [if_neg (by simp)] at hready
      rw [if_neg (by simp), hready j hj hlt, fatClusterAvailable]
      omega

/-- A run of more than one chunk is left with the wrong entries. -/
theorem not_unwinds (hw : g.width = .fat32) (hN : g.numberOfClusters + 1 < 2 ^ 28) (h2 : 2 ≤ start)
    (hend : start + count ≤ g.numberOfClusters + 2)
    (hready : RunReady .fat32 vol.fat start count chainTogether) (hlt : maxCountClus < count) :
    ¬ Unwinds g vol start count chainTogether := by
  intro hunwinds
  have hpos : 0 < maxCountClus := by norm_num [maxCountClus]
  have hone := hunwinds 1 one_pos (by rwa [Nat.one_mul])
  have hfault := @sat_fatSetFatRun_fault g vol start count chainTogether hw 1 h2 hend
    (by rwa [Nat.one_mul])
  rw [Sat] at hone hfault
  cases hrun : fatSetFatRun g start count chainTogether { vol with io := some 1 } with
  | ok a t =>
      rw [hrun] at hfault
      exact hfault
  | error s t =>
      rw [hrun] at hone hfault
      have hentry := hone start le_rfl (by omega)
      rw [hw, hfault.2.2, if_pos (by omega)] at hentry
      exact chunkEntry_ne hN hend hready le_rfl (by omega) hentry

/-- **The unwind restores the entries** only where there is nothing to restore: when the run is
written in one chunk. -/
theorem unwinds_iff (hw : g.width = .fat32) (hN : g.numberOfClusters + 1 < 2 ^ 28) (h2 : 2 ≤ start)
    (hend : start + count ≤ g.numberOfClusters + 2)
    (hready : RunReady .fat32 vol.fat start count chainTogether) :
    Unwinds g vol start count chainTogether ↔ count ≤ maxCountClus := by
  constructor
  · intro hunwinds
    by_contra hlt
    exact not_unwinds hw hN h2 hend hready (by omega) hunwinds
  · intro hle n hn hlt
    have hmul : 1 * maxCountClus ≤ n * maxCountClus := Nat.mul_le_mul_right _ hn
    omega

/-! ## An interrupted deallocation -/

/-- In the table `e` each run is a chain that goes on with the next run. -/
def RunsLinked (e : ℕ → ℕ) : List (ℕ × ℕ) → Prop
  | [] => True
  | [_] => True
  | run :: run' :: runs =>
      (∀ c, run.1 ≤ c → c + 1 < run.1 + run.2 → e c = c + 1) ∧ e (run.1 + run.2 - 1) = run'.1 ∧
        RunsLinked e (run' :: runs)

theorem RunsLinked.append_left {e : ℕ → ℕ} {runs runs' : List (ℕ × ℕ)}
    (h : RunsLinked e (runs ++ runs')) : RunsLinked e runs := by
  induction runs with
  | nil => trivial
  | cons run runs ih =>
      cases runs with
      | nil => trivial
      | cons run' runs => exact ⟨h.1, h.2.1, ih h.2.2⟩

/-- Consecutive clusters along a chain. -/
theorem entry_of_leads_range' {w : FatWidth} {fat : Bytes} {c n : ℕ} {t : Link ℕ}
    (h : Leads (fatLink w fat) (List.range' c n) t) {j : ℕ} (hj : c ≤ j) (hlt : j + 1 < c + n) :
    lookupEntry w fat j = j + 1 := by
  have hlink := h.link_getElem (i := j - c) (by rw [List.length_range']; omega)
  rw [List.getElem_range', List.getElem_range', Nat.one_mul, Nat.one_mul, Nat.add_sub_cancel' hj,
    show c + (j - c + 1) = j + 1 by omega] at hlink
  exact (entry_of_link_next hlink).2

/-- The runs of a chain are linked. -/
theorem runsLinked_of_leads {w : FatWidth} {fat : Bytes} {runs : List (ℕ × ℕ)} {t : Link ℕ}
    (hpos : ∀ run ∈ runs, 0 < run.2) (h : Leads (fatLink w fat) (runClusters runs) t) :
    RunsLinked (lookupEntry w fat) runs := by
  induction runs with
  | nil => trivial
  | cons run runs ih =>
      cases runs with
      | nil => trivial
      | cons run' runs =>
          have hrun := hpos run (by simp)
          have hrun' := hpos run' (by simp)
          obtain ⟨n, hn⟩ : ∃ n, run'.2 = n + 1 := ⟨run'.2 - 1, by omega⟩
          have hne : List.range' run.1 run.2 ≠ [] := by
            rw [Ne, List.range'_eq_nil_iff]
            omega
          have hcons : runClusters (run' :: runs) =
              run'.1 :: (List.range' (run'.1 + 1) n ++ runClusters runs) := by
            rw [runClusters_cons, hn, List.range'_succ]
            rfl
          rw [runClusters_cons, hcons, Leads.append_iff hne] at h
          refine ⟨fun c hc hlt => entry_of_leads_range' h.1 hc hlt, ?_, ?_⟩
          · have hlast := h.1.link_getLast hne
            rw [List.getLast_range'] at hlast
            exact (entry_of_link_next hlast).2
          · rw [← hcons] at h
            exact ih (fun x hx => hpos x (by simp [hx])) h.2

theorem relinkRuns_cons (g : Geometry) (p : ℕ) (run run' : ℕ × ℕ) (runs : List (ℕ × ℕ)) :
    relinkRuns g p (run :: run' :: runs) =
      (if p ≠ 0 then fatSetFatEntry g p run.1 else pure ()) >>= fun _ =>
        fatAllocateClusters g run.1 run.2 >>= fun _ =>
          relinkRuns g (run.1 + run.2 - 1) (run' :: runs) := by
  rw [relinkRuns]
  by_cases hp : p ≠ 0
  · simp only [if_pos hp]
  · simp only [if_neg hp, pure_bind]

/-- The last cluster of the run before is linked to the run. -/
theorem sat_relinkEntry {e : ℕ → ℕ} {p : ℕ} {run : ℕ × ℕ}
    (hlinks : g.numberOfClusters + 1 < 2 ^ g.width.linkBits) (hrun : ValidRun g run)
    (hp : p ≠ 0 → p ∈ g.clusters) (he : p ≠ 0 → e p = run.1) (hio : vol.io = none) :
    Sat (if p ≠ 0 then fatSetFatEntry g p run.1 else pure ()) vol
      (fun _ vol' => vol'.io = none ∧ ∀ j, lookupEntry g.width vol'.fat j =
        if p ≠ 0 ∧ j = p then e j else lookupEntry g.width vol.fat j)
      (fun _ _ => False) := by
  by_cases hzero : p = 0
  · rw [if_neg (not_not.mpr hzero)]
    refine Sat.pure ⟨hio, fun j => ?_⟩
    rw [if_neg fun h => h.1 hzero]
  · have hmem := Geometry.mem_clusters.mp (hp hzero)
    have hle := hrun.le
    have hpos := hrun.pos
    rw [if_pos hzero]
    refine (sat_fatSetFatEntry _ hmem.1 (by omega)).mono ?_ fun _ _ h => h.2.io hio
    intro _ t ht
    refine ⟨ht.io hio, fun j => ?_⟩
    rw [ht.entry, Nat.mod_eq_of_lt (by omega)]
    by_cases hj : j = p
    · rw [if_pos hj, if_pos ⟨hzero, hj⟩, hj, he hzero]
    · rw [if_neg hj, if_neg fun h => hj h.2]

/-- The unwind chains the runs but the last together again, each to the next. -/
theorem sat_relinkRuns {e : ℕ → ℕ} {p : ℕ} {runs : List (ℕ × ℕ)}
    (hlinks : g.numberOfClusters + 1 < 2 ^ g.width.linkBits)
    (hvalid : ∀ run ∈ runs, ValidRun g run) (hp : p ≠ 0 → p ∈ g.clusters)
    (hlinked : RunsLinked e runs) (hlast : ∀ run ∈ runs.head?, p ≠ 0 → e p = run.1)
    (hio : vol.io = none) :
    Sat (relinkRuns g p runs) vol
      (fun _ vol' => vol'.io = none ∧ ∀ j, lookupEntry g.width vol'.fat j =
        if j ∈ runClusters runs.dropLast ∨ runs ≠ [] ∧ p ≠ 0 ∧ j = p then e j
        else lookupEntry g.width vol.fat j)
      (fun _ _ => False) := by
  induction runs generalizing p vol with
  | nil =>
      refine Sat.pure ⟨hio, fun j => ?_⟩
      rw [if_neg (by simp)]
  | cons run runs ih =>
      have hrun := hvalid run (by simp)
      have hentry := sat_relinkEntry hlinks hrun hp (hlast run rfl) hio
      cases runs with
      | nil =>
          refine hentry.mono ?_ fun _ _ h => h
          intro _ t ht
          refine ⟨ht.1, fun j => ?_⟩
          rw [ht.2]
          simp
      | cons run' runs =>
          have hpos := hrun.pos
          have hle := hrun.le
          have h2 := hrun.two_le
          rw [relinkRuns_cons]
          refine Sat.bind hentry ?_
          rintro _ t1 ⟨hio1, ht1⟩
          refine Sat.bind ((sat_fatAllocateClusters h2 hpos hle).mono (fun _ _ h => h)
            fun _ _ h => h.1 hio1) ?_
          intro _ t2 ht2
          refine (ih (fun x hx => hvalid x (by simp [hx])) (fun _ => ?_) hlinked.2.2 ?_
            (ht2.io hio1)).mono ?_ fun _ _ h => h
          · exact Geometry.mem_clusters.mpr (by omega)
          · rintro x ⟨⟩ -
            exact hlinked.2.1
          · rintro _ t ⟨hio', ht⟩
            refine ⟨hio', fun j => ?_⟩
            have hdrop : j ∈ runClusters (run :: run' :: runs).dropLast ↔
                (run.1 ≤ j ∧ j < run.1 + run.2) ∨ j ∈ runClusters (run' :: runs).dropLast := by
              rw [← List.mem_range'_1, ← List.mem_append]
              rfl
            simp only [ht, ht2.entry, ht1, entryAfterRun, hdrop, if_true]
            by_cases hrest : j ∈ runClusters (run' :: runs).dropLast
            · simp [hrest]
            by_cases hend : j = run.1 + run.2 - 1
            · have hin : run.1 ≤ j ∧ j < run.1 + run.2 := by omega
              have hne : run.1 + run.2 - 1 ≠ 0 := by omega
              simp [hin, ← hend, show j ≠ 0 by omega]
            by_cases hin : run.1 ≤ j ∧ j < run.1 + run.2
            · have hnext := hlinked.1 j hin.1 (by omega)
              have hlast' : j + 1 ≠ run.1 + run.2 := by omega
              simp [hrest, hend, hin, hlast', hnext,
                Nat.mod_eq_of_lt (show j + 1 < 2 ^ g.width.linkBits by omega)]
            · simp [hrest, hend, hin]

/-- **An interrupted deallocation.**  When no run is longer than a chunk, the runs that were freed are
chained together again. -/
theorem sat_freeRuns_fault {e : ℕ → ℕ} {freed runs : List (ℕ × ℕ)}
    (hlinks : g.numberOfClusters + 1 < 2 ^ g.width.linkBits)
    (hvalid : ∀ run ∈ freed ++ runs, ValidRun g run) (hlinked : RunsLinked e (freed ++ runs))
    (hshort : g.width = .fat32 → ∀ run ∈ runs, run.2 ≤ maxCountClus)
    (hvol : ∀ j, j ∉ runClusters freed → lookupEntry g.width vol.fat j = e j) :
    Sat (freeRuns g freed runs) vol (fun _ _ => True)
      (fun _ vol' => ∀ j, lookupEntry g.width vol'.fat j = e j) := by
  induction runs generalizing freed vol with
  | nil => exact Sat.pure trivial
  | cons run runs ih =>
      have hrun := hvalid run (by simp)
      have hsplit : freed ++ run :: runs = (freed ++ [run]) ++ runs := by simp
      rw [freeRuns]
      refine Sat.bind (R := fun _ t => ∀ j, j ∉ runClusters (freed ++ [run]) →
        lookupEntry g.width t.fat j = e j) ?_ ?_
      · apply Sat.protect
        refine (sat_fatFreeClusters hrun.two_le hrun.pos hrun.le).mono ?_ ?_
        · intro _ t ht j hj
          simp only [runClusters, List.flatMap_append, List.mem_append, not_or] at hj
          have hout : ¬ (run.1 ≤ j ∧ j < run.1 + run.2) := by
            simpa [List.mem_range'_1] using hj.2
          rw [ht.entry, entryAfterRun, if_neg hout]
          exact hvol j hj.1
        · rintro s t ⟨_, hone⟩
          obtain ⟨rfl, hfault⟩ := hone fun hw => hshort hw run (by simp)
          rw [if_pos (Stop.isRaised_raised _)]
          rw [hsplit] at hvalid hlinked
          refine (sat_relinkRuns hlinks (fun x hx => hvalid x (List.mem_append_left _ hx))
            (fun h => absurd rfl h) hlinked.append_left (fun _ _ h => absurd rfl h)
            hfault.io').mono ?_ fun _ _ h => h.elim
          rintro _ t' ⟨_, ht'⟩ j
          rw [ht', List.dropLast_concat, hfault.entry]
          by_cases hj : j ∈ runClusters freed
          · rw [if_pos (Or.inl hj)]
          · rw [if_neg (by simp [hj])]
            exact hvol j hj
      · intro _ t ht
        rw [hsplit] at hvalid hlinked
        exact ih hvalid hlinked (fun hw x hx => hshort hw x (by simp [hx])) ht

/-- A run of at most one chunk is written with one access. -/
theorem sat_fatSetFatRun_pass {m : ℕ} (h2 : 2 ≤ start) (hc : 0 < count)
    (hend : start + count ≤ g.numberOfClusters + 2) (hone : g.width = .fat32 → count ≤ maxCountClus) :
    Sat (fatSetFatRun g start count chainTogether) { vol with io := some (m + 1) }
      (fun _ vol' => vol'.io = some m) (fun _ _ => False) := by
  have haccess : Sat access { vol with io := some (m + 1) }
      (fun _ t => t = { vol with io := some m }) (fun _ _ => False) :=
    Sat.of_ok (access_succ vol m) rfl
  rw [fatSetFatRun]
  apply Sat.bind ((sat_fatVerifyIndexIsValid h2 (by omega)).mono (fun _ _ h => h)
    (fun _ _ h => h.elim))
  intro _ t ht
  subst ht
  apply Sat.bind ((sat_fatVerifyIndexIsValid (by omega) (by omega)).mono (fun _ _ h => h)
    (fun _ _ h => h.elim))
  intro _ t ht
  subst ht
  rw [if_neg (by omega)]
  cases hw : g.width with
  | fat12 =>
      refine Sat.bind haccess ?_
      intro _ t ht
      subst ht
      exact Sat.modify rfl
  | fat16 =>
      refine Sat.bind haccess ?_
      intro _ t ht
      subst ht
      exact Sat.modify rfl
  | fat32 =>
      dsimp only
      rw [setFatRunChunks]
      refine Sat.bind (Sat.protect (haccess.mono (fun _ _ h => h) fun _ _ h => h.elim)) ?_
      intro _ t ht
      subst ht
      apply Sat.modify_bind
      rw [dif_pos (hone hw)]
      exact Sat.pure rfl

theorem sat_fatFreeClusters_pass {run : ℕ × ℕ} {m : ℕ} (hrun : ValidRun g run)
    (hone : g.width = .fat32 → run.2 ≤ maxCountClus) :
    Sat (fatFreeClusters g run.1 run.2) { vol with io := some (m + 1) }
      (fun _ vol' => vol'.io = some m ∧ ∀ j, lookupEntry g.width vol'.fat j =
        entryAfterRun g.width vol.fat run.1 run.2 false j)
      (fun _ _ => False) := by
  have hle := hrun.le
  have hpos := hrun.pos
  have hio : Sat (fatFreeClusters g run.1 run.2) { vol with io := some (m + 1) }
      (fun _ vol' => vol'.io = some m) (fun _ _ => False) := by
    rw [fatFreeClusters]
    split
    · refine (sat_fatSetFatEntry_io _ hrun.two_le (by omega)).mono ?_ fun _ _ h => by simp at h
      rintro _ t ⟨_, ht⟩
      simpa using ht
    · exact sat_fatSetFatRun_pass hrun.two_le hpos hle hone
  refine (hio.and (sat_fatFreeClusters hrun.two_le hpos hle)).mono ?_ fun _ _ h => h.1.elim
  rintro _ t ⟨hio', ht⟩
  exact ⟨hio', ht.entry⟩

/-- A run of more than one chunk that is interrupted behind the first stays broken. -/
theorem sat_freeRuns_long {e : ℕ → ℕ} {freed short rest : List (ℕ × ℕ)} {run : ℕ × ℕ}
    (hw : g.width = .fat32) (hlinks : g.numberOfClusters + 1 < 2 ^ g.width.linkBits)
    (hvalid : ∀ x ∈ freed ++ short ++ run :: rest, ValidRun g x)
    (hlinked : RunsLinked e (freed ++ short ++ run :: rest))
    (hshort : ∀ x ∈ short, x.2 ≤ maxCountClus) (hlong : maxCountClus < run.2)
    (hnotMem : run.1 ∉ runClusters (freed ++ short)) :
    Sat (freeRuns g freed (short ++ run :: rest)) { vol with io := some (short.length + 1) }
      (fun _ _ => False) (fun _ vol' => lookupEntry g.width vol'.fat run.1 = 0) := by
  induction short generalizing freed vol with
  | nil =>
      have hrun := hvalid run (by simp)
      rw [List.append_nil] at hvalid hlinked hnotMem
      rw [List.nil_append, freeRuns]
      refine Sat.bind (R := fun _ _ => False) ?_ fun _ _ h => h.elim
      apply Sat.protect
      have hfree : fatFreeClusters g run.1 run.2 = fatSetFatRun g run.1 run.2 false := by
        have : 1 ≤ maxCountClus := by norm_num [maxCountClus]
        rw [fatFreeClusters, if_neg (by omega)]
      rw [hfree]
      refine (sat_fatSetFatRun_fault hw (n := 1) hrun.two_le hrun.le (by omega)).mono
        (fun _ _ h => h) ?_
      rintro s t ⟨hs, hio, hentry⟩
      have hzero := hentry run.1
      rw [if_pos (by have : 0 < maxCountClus := by norm_num [maxCountClus]
                     omega)] at hzero
      rw [hs, if_pos (Stop.isRaised_raised _)]
      have hsplit : freed ++ run :: rest = (freed ++ [run]) ++ rest := by simp
      rw [hsplit] at hvalid hlinked
      refine (sat_relinkRuns hlinks (fun x hx => hvalid x (List.mem_append_left _ hx))
        (fun h => absurd rfl h) hlinked.append_left (fun _ _ h => absurd rfl h) hio).mono ?_
        fun _ _ h => h.elim
      rintro _ t' ⟨_, ht'⟩
      rw [ht', List.dropLast_concat, if_neg (by simp [hnotMem]), hw, hzero]
      rfl
  | cons x short ih =>
      have hx := hvalid x (by simp)
      have hsplit : freed ++ x :: short = (freed ++ [x]) ++ short := by simp
      rw [hsplit] at hvalid hlinked hnotMem
      rw [List.cons_append, freeRuns, List.length_cons]
      refine Sat.bind (Sat.protect ((sat_fatFreeClusters_pass hx fun _ =>
        hshort x (by simp)).mono (fun _ _ h => h) fun _ _ h => h.elim)) ?_
      rintro _ t ⟨hio, _⟩
      have ht : t = { t with io := some (short.length + 1) } := by rw [← hio]
      rw [ht]
      exact ih hvalid hlinked (fun y hy => hshort y (by simp [hy])) hnotMem

/-! ## The chain of a file -/

/-- Whenever the deallocation raises, the chain is as it was, and so are the bitmap and the
counters. -/
def RestoresChain (g : Geometry) (v : Vcb) (mcb : Mcb) (cs : List ℕ) : Prop :=
  ∀ n, Sat (fatDeallocateDiskSpace g mcb) (v.withFault (some n)) (fun _ _ => True)
    (fun _ v' => Leads (fatLink g.width v'.vol.fat) cs .last ∧ v' = { v with vol := v'.vol })

section Chain

variable {v : Vcb} {cs : List ℕ} (hg : g.Sound) (hcs : ∀ c ∈ cs, c ∈ g.clusters)
  (hlen : cs.length * g.clusterSize ≤ 2 ^ 32)
  (hchain : Leads (fatLink g.width v.vol.fat) cs .last)

include hg hcs hlen hchain

theorem runsLinked_mcbRuns :
    RunsLinked (lookupEntry g.width v.vol.fat) (mcbRuns g (mcbOf g cs)) := by
  have hvalid := validRun_mcbRuns hg hcs hlen
  have hclusters := runClusters_mcbRuns hg hcs hlen
  by_cases hmax : (mcbOf g cs).length = 1 ∧ cs.length * g.clusterSize = 2 ^ 32
  · obtain ⟨run, hrun⟩ := List.length_eq_one_iff.mp
      (show (mcbRuns g (mcbOf g cs)).length = 1 by simp [mcbRuns, hmax.1])
    rw [hrun]
    trivial
  · rw [if_neg hmax] at hclusters
    rw [← hclusters] at hchain
    exact runsLinked_of_leads (fun run hrun => (hvalid run hrun).pos) hchain

/-- A run of more than one chunk can be interrupted. -/
theorem not_restoresChain (hw : g.width = .fat32)
    (hlong : ∃ run ∈ mcbRuns g (mcbOf g cs), maxCountClus < run.2) :
    ¬ RestoresChain g v (mcbOf g cs) cs := by
  intro hrestores
  have hvalid := validRun_mcbRuns hg hcs hlen
  have hlinked := runsLinked_mcbRuns hg hcs hlen hchain
  have hclusters := runClusters_mcbRuns hg hcs hlen
  -- the first long run
  obtain ⟨run, hfind⟩ : ∃ run, (mcbRuns g (mcbOf g cs)).find? (maxCountClus < ·.2) = some run := by
    obtain ⟨x, hx, hlt⟩ := hlong
    rw [← Option.isSome_iff_exists, List.find?_isSome]
    exact ⟨x, hx, by simpa using hlt⟩
  obtain ⟨hlt, short, rest, hruns, hshort⟩ := List.find?_eq_some_iff_append.mp hfind
  rw [hruns] at hvalid hlinked hclusters
  simp only [decide_eq_true_eq] at hlt
  have hshort' : ∀ x ∈ short, x.2 ≤ maxCountClus := by
    intro x hx
    simpa using hshort x hx
  have hrun := hvalid run (by simp)
  have hpos := hrun.pos
  have hsub : runClusters (short ++ run :: rest) ⊆ cs := by
    rw [hclusters]
    split
    · exact List.dropLast_subset cs
    · exact List.Subset.refl cs
  have hnodup : (runClusters (short ++ run :: rest)).Nodup := by
    rw [hclusters]
    split
    · exact hchain.nodup.sublist (List.dropLast_sublist cs)
    · exact hchain.nodup
  have hmem : run.1 ∈ List.range' run.1 run.2 := by
    rw [List.mem_range'_1]
    omega
  have happend : runClusters (short ++ run :: rest) =
      runClusters short ++ (List.range' run.1 run.2 ++ runClusters rest) := by
    simp [runClusters]
  rw [happend] at hnodup hsub
  have hnotMem : run.1 ∉ runClusters ([] ++ short) := fun h =>
    List.disjoint_of_nodup_append hnodup h (List.mem_append_left _ hmem)
  have hbroken := @sat_freeRuns_long g v.vol _ [] short rest run hw hg.links hvalid hlinked hshort'
    hlt hnotMem
  have hraises : Sat (fatDeallocateDiskSpace g (mcbOf g cs)) (v.withFault (some (short.length + 1)))
      (fun _ _ => False) (fun _ v' => lookupEntry g.width v'.vol.fat run.1 = 0) := by
    rw [fatDeallocateDiskSpace, if_neg, hruns]
    · refine Sat.bind (R := fun _ _ => False) ?_ fun _ _ h => h.elim
      apply Sat.onPart
      exact hbroken.mono (fun _ _ h => h) fun _ _ h => h
    · intro hnil
      have hempty : mcbRuns g (mcbOf g cs) = [] := by simp [mcbRuns, hnil]
      rw [hruns] at hempty
      simp at hempty
  suffices hboth : Sat (fatDeallocateDiskSpace g (mcbOf g cs))
      (v.withFault (some (short.length + 1))) (fun _ _ => False) fun _ _ => False by
    obtain ⟨_, _, _, h⟩ := hboth.exists_ok fun _ _ h => h
    exact h
  refine (hraises.and (hrestores (short.length + 1))).mono (fun _ _ h => h.1) ?_
  rintro _ v' ⟨hzero, hleads, _⟩
  have hin : run.1 ∈ cs := hsub (by simp [hmem])
  obtain ⟨k, hk, hget⟩ := List.getElem_of_mem hin
  have hlink : fatLink g.width v'.vol.fat run.1 = .broken := by
    rw [fatLink, hzero, hw]
    rfl
  by_cases hlast : k + 1 < cs.length
  · have hnext := hleads.link_getElem hlast
    rw [hget, hlink] at hnext
    cases hnext
  · have hend := hleads.link_getLast hleads.ne_nil
    rw [List.getLast_eq_getElem] at hend
    simp only [show cs.length - 1 = k by omega, hget, hlink] at hend
    cases hend

end Chain

/-- **An interrupted deallocation restores the chain** exactly when on FAT32 no run of the file is
longer than a chunk. -/
theorem restoresChain_iff {v : Vcb} {mcb : Mcb} {cs : List ℕ} (hg : g.Sound)
    (hcs : ∀ c ∈ cs, c ∈ g.clusters) (hlen : cs.length * g.clusterSize ≤ 2 ^ 32)
    (hmap : MapsFile g mcb cs) (hchain : Leads (fatLink g.width v.vol.fat) cs .last) :
    RestoresChain g v mcb cs ↔
      (g.width = .fat32 → ∀ run ∈ mcbRuns g mcb, run.2 ≤ maxCountClus) := by
  rw [hmap.eq_mcbOf]
  constructor
  · intro hrestores hw run hrun
    by_contra hlong
    exact not_restoresChain hg hcs hlen hchain hw ⟨run, hrun, by omega⟩ hrestores
  · intro hshort n
    have hvalid := validRun_mcbRuns hg hcs hlen
    have hlinked := runsLinked_mcbRuns hg hcs hlen hchain
    rw [fatDeallocateDiskSpace]
    split
    · exact Sat.pure trivial
    · refine Sat.bind (R := fun _ _ => True) ?_ fun _ _ _ => Sat.modify trivial
      apply Sat.onPart
      have hfree : Sat (freeRuns g [] (mcbRuns g (mcbOf g cs))) (v.withFault (some n)).vol
          (fun _ _ => True)
          (fun _ vol' => ∀ j, lookupEntry g.width vol'.fat j = lookupEntry g.width v.vol.fat j) :=
        sat_freeRuns_fault hg.links hvalid hlinked hshort fun j _ => rfl
      refine hfree.mono (fun _ _ _ => trivial) ?_
      intro s vol' hentry
      exact ⟨hchain.congr fun c _ => congrArg (linkOf g.width) (hentry c), rfl⟩

/-! ## A long run -/

theorem bigFat32_sound : bigFat32.Sound where
  links := by
    rw [bigFat32_width, bigFat32_numberOfClusters]
    norm_num [FatWidth.linkBits]
  aligned := by decide
  sectors := by
    rw [bigFat32_numberOfClusters]
    decide

/-- A run of three clusters is freed on a FAT32. -/
theorem unwinds_bigFat32 :
    Unwinds bigFat32 ⟨storeEntry .fat32 (storeEntry .fat32 (fun _ => 0) 2 3) 3 4, [], none⟩ 2 3
      false := by
  have hN := bigFat32_numberOfClusters
  refine (unwinds_iff bigFat32_width (by omega) le_rfl (by omega) ?_).mpr (by norm_num [maxCountClus])
  rw [RunReady, if_neg (by simp)]
  intro c hc hlt
  have hcases : c = 2 ∨ c = 3 := by omega
  rcases hcases with rfl | rfl <;> decide

/-- A run of 65537 clusters is chained together on an empty FAT32. -/
theorem not_unwinds_bigFat32 :
    RunReady .fat32 (fun _ => 0) 2 65537 true ∧
      ¬ Unwinds bigFat32 ⟨fun _ => 0, [], none⟩ 2 65537 true := by
  have hN := bigFat32_numberOfClusters
  have hready : RunReady .fat32 (fun _ => 0) 2 65537 true := by
    rw [RunReady, if_pos rfl]
    intro c _ _
    simp [lookupEntry, Bytes.read32, Bytes.read16]
  exact ⟨hready, not_unwinds bigFat32_width (by omega) le_rfl (by omega) hready
    (by norm_num [maxCountClus])⟩

/-- The map of a run of less than 4 GB has one run. -/
theorem mcbRuns_range' (hg : g.Sound) {y n : ℕ} (hy : 2 ≤ y) (hn : 0 < n)
    (hle : y + n ≤ g.numberOfClusters + 2) (hlen : n * g.clusterSize < 2 ^ 32) :
    mcbRuns g (mcbOf g (List.range' y n)) = [(y, n)] := by
  have hcs : ∀ c ∈ List.range' y n, c ∈ g.clusters := by
    intro c hc
    rw [List.mem_range'_1] at hc
    exact Geometry.mem_clusters.mpr (by omega)
  rw [mcbRuns_mcbOf hg hcs (by rw [List.length_range']; exact hlen.le), List.map_sub_range' hy,
    Runs.ofList_range' hn, List.map_singleton, readBack, if_neg hlen.ne]
  simp only [Option.getD_some, Nat.sub_add_cancel hy]

theorem bigFat32_clusterSize : bigFat32.clusterSize = 512 := by decide

theorem mem_clusters_bigFat32 {n : ℕ} (hn : n ≤ 146303) :
    ∀ c ∈ List.range' 2 n, c ∈ bigFat32.clusters := by
  intro c hc
  rw [List.mem_range'_1] at hc
  rw [Geometry.mem_clusters, bigFat32_numberOfClusters]
  omega

/-- A file of two clusters. -/
theorem restoresChain_bigFat32 :
    RestoresChain bigFat32
      (unmounted ⟨storeEntry .fat32 (storeLinks .fat32 (fun _ => 0) 2 2 true) (2 + 2 - 1)
        fatClusterLast, [], none⟩)
      (mcbOf bigFat32 (List.range' 2 2)) (List.range' 2 2) := by
  have hN := bigFat32_numberOfClusters
  have hmem := mem_clusters_bigFat32 (n := 2) (by norm_num)
  have hsize : 2 * bigFat32.clusterSize < 2 ^ 32 := by
    rw [bigFat32_clusterSize]
    norm_num
  have hlen : (List.range' 2 2).length * bigFat32.clusterSize ≤ 2 ^ 32 := hsize.le
  refine (restoresChain_iff bigFat32_sound hmem hlen (mapsFile_mcbOf bigFat32_sound.aligned
    (by decide) (plain_mcbOf bigFat32_sound.sectors hmem) hlen) ?_).mpr fun _ run hrun => ?_
  · rw [bigFat32_width]
    exact leads_storeRun _ (by simp) (by norm_num) (by norm_num) (by norm_num [FatWidth.reservedMark])
      rfl
  · rw [mcbRuns_range' bigFat32_sound le_rfl (by norm_num) (by omega) hsize,
      List.mem_singleton] at hrun
    rw [hrun]
    norm_num [maxCountClus]

/-- A FAT32 in which 65537 clusters are a chain. -/
def longFat : Bytes :=
  storeEntry .fat32 (storeLinks .fat32 (fun _ => 0) 2 65537 true) (2 + 65537 - 1) fatClusterLast

/-- Their file, whose first chunk is lost when the second cannot be freed. -/
theorem not_restoresChain_longFat :
    Leads (fatLink bigFat32.width longFat) (List.range' 2 65537) .last ∧
      ¬ RestoresChain bigFat32 (unmounted ⟨longFat, [], none⟩)
        (mcbOf bigFat32 (List.range' 2 65537)) (List.range' 2 65537) := by
  have hN := bigFat32_numberOfClusters
  have hsize : 65537 * bigFat32.clusterSize < 2 ^ 32 := by
    rw [bigFat32_clusterSize]
    norm_num
  have hleads : Leads (fatLink bigFat32.width longFat) (List.range' 2 65537) .last := by
    rw [bigFat32_width]
    exact leads_storeRun _ (by simp) (by norm_num) (by norm_num) (by norm_num [FatWidth.reservedMark])
      rfl
  refine ⟨hleads, not_restoresChain bigFat32_sound (mem_clusters_bigFat32 (by norm_num))
    (by rw [List.length_range']; exact hsize.le) hleads bigFat32_width ⟨(2, 65537), ?_, ?_⟩⟩
  · rw [mcbRuns_range' bigFat32_sound le_rfl (by norm_num) (by omega) hsize]
    exact List.mem_singleton_self _
  · norm_num [maxCountClus]

end KernelDrivers.Fat
