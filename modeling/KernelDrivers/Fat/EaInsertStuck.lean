import KernelDrivers.Fat.EaInsertRun

/-!
# When a failed insertion is undone

A map that was merged and could not be initialised again is used by the unwind all the same: its
flag says that the merge was not done, so the piece stays in the file or is cut out with the one in
front of it, and what the map reads as is merged or freed.  So the file is left as it was exactly
when the call fails at another point.

## Main definitions

* `StuckAt` — a map that was merged reads as a cluster of the file.
* `FreesOld` — a cluster of the file is free.

## Main results

* `StuckAt.sat_unwind` — a cluster of the file is freed when the map reads as that cluster.
* `failsSafely_of_not_reinitializes`, `not_failsSafely` — the two kinds of points.
-/

namespace KernelDrivers.Fat.AddEaSet

variable {g : Geometry} {q : Plan} {f : EaFcb} {cs ns xs as bs : List ℕ} {c : Call} {L : Parts}
  {of : Piece → List ℕ} {s : Surroundings} {p : Piece} {vbo : ℕ}

/-! ## The unwind of a stuck call -/

namespace Maps

/-- A piece that was not merged is not cut out. -/
theorem sat_splitBack_skip (hm : c.merged p = false) :
    Sat (splitBack g p vbo) c (fun _ c' => c' = c) (fun _ _ => False) := by
  rw [splitBack]
  apply Sat.get_bind
  rw [hm, if_neg (by simp)]
  exact Sat.pure rfl

/-- A piece that was merged is cut out with all that follows. -/
theorem sat_splitBack (hg : g.Sound) (h : Maps g c (as ++ bs) of) (hnone : c.file.vcb.vol.io = none)
    (hm : c.merged p = true) (hmcb : c.mcb p = []) (hof : of p = []) (has : as ≠ []) (hbs : bs ≠ [])
    (hvbo : vbo = as.length * g.clusterSize) :
    Sat (splitBack g p vbo) c
      (fun _ c' => Maps g c' as (Function.update of p bs) ∧ c'.file.vcb.vol.io = none ∧
        SameFlags c c' ∧ ∀ p', p' ≠ p → c'.mcb p' = c.mcb p')
      (fun _ _ => False) := by
  rw [splitBack]
  apply Sat.get_bind
  rw [if_pos hm, hvbo]
  refine (h.sat_split hg hmcb has hbs).mono ?_ ?_
  · rintro _ c' ⟨vol, hc', hwrote, _⟩
    subst hc'
    exact ⟨h.setPair (together_cut hof) rfl fun _ => rfl, hwrote.io hnone, SameFlags.setPair p c _,
      fun p' hp' => Function.update_of_ne hp' _ _⟩
  · rintro _ c' ⟨_, hio, _⟩
    rw [hnone] at hio
    simp at hio

/-- A piece that was cut off is merged, whatever its map reads as. -/
theorem sat_mergeBack (hg : g.Sound) (h : Maps g c xs of) (hnone : c.file.vcb.vol.io = none)
    (hxs : xs ≠ []) (hp : c.split p = true → of p ≠ []) :
    Sat (mergeBack g p) c
      (fun _ c' => ∃ ys of', Maps g c' ys of' ∧ ys ≠ [] ∧ (∀ p', p' ≠ p → of' p' = of p') ∧
        c'.file.vcb.vol.io = none ∧ SameFlags c c')
      (fun _ _ => False) := by
  rw [mergeBack]
  apply Sat.get_bind
  split
  · next hsplit =>
      refine (h.sat_merge hg hxs (hp hsplit)).mono ?_ ?_
      · rintro _ c' ⟨vol, hc', hwrote, _⟩
        subst hc'
        exact ⟨_, _, h.setPair together_join rfl fun hne => absurd rfl hne,
          List.append_ne_nil_of_left_ne_nil hxs _, fun p' hp' => Function.update_of_ne hp' _ _,
          hwrote.io hnone, SameFlags.setPair p c _⟩
      · rintro _ c' ⟨_, hio, _⟩
        rw [hnone] at hio
        simp at hio
  · exact Sat.pure ⟨xs, of, h, hxs, fun _ _ => rfl, hnone, SameFlags.refl c⟩

/-- The clusters of a piece are freed, also when others have them. -/
theorem sat_deallocate (hg : g.Sound) (h : Maps g c xs of) (hnone : c.file.vcb.vol.io = none)
    (hxs : xs ≠ []) (hp : of p ≠ []) :
    Sat (deallocate g p) c
      (fun _ c' => ∃ v, c' = c.setVcb v ∧ v.vol.io = none ∧ ∀ j, lookupEntry g.width v.vol.fat j =
        if j ∈ of p then 0 else lookupEntry g.width c.file.vcb.vol.fat j)
      (fun _ _ => False) := by
  have hclusters : ∀ x ∈ of p, x ∈ g.clusters := fun x hx => h.clusters x (mem_together_piece hx)
  have hlt : (of p).length * g.clusterSize < 2 ^ 32 := by
    refine (Nat.mul_lt_mul_of_pos_right ?_ g.clusterSize_pos).trans_le h.room
    have hpos := List.length_pos_of_ne_nil hxs
    cases p <;> simp only [together, List.length_append] <;> omega
  have hruns := runClusters_mcbRuns hg hclusters hlt.le
  rw [if_neg (by omega)] at hruns
  have hsat := sat_fatDeallocateDiskSpace (v := c.file.vcb) (validRun_mcbRuns hg hclusters hlt.le)
  rw [hruns] at hsat
  rw [deallocate]
  apply Sat.get_bind
  apply Sat.onPart
  rw [h.piece p hp]
  refine hsat.mono ?_ fun _ _ hE => hE.1 hnone
  rintro _ v ⟨_, hwrote⟩
  exact ⟨v, rfl, hwrote.io hnone, hwrote.entry⟩

/-- The unwind after the cuts frees what the maps of the new clusters read as. -/
theorem sat_free (hg : g.Sound) (h : Maps g c xs of) (hnone : c.file.vcb.vol.io = none) (hxs : xs ≠ [])
    (hof : ∀ p, p ≠ .eaSet → c.split p = true → of p ≠ []) (hset : of .eaSet ≠ []) {x : ℕ}
    (hx : x ∈ of .eaSet ∨ (c.split .eaOffset = true ∧ x ∈ of .eaOffset)) :
    Sat (do mergeBacks g; freeNew g) c
      (fun _ c' => lookupEntry g.width c'.file.vcb.vol.fat x = 0) (fun _ _ => False) := by
  refine Sat.bind (R := fun _ c' => ∃ ys of', Maps g c' ys of' ∧ ys ≠ [] ∧ of' .eaSet = of .eaSet ∧
      of' .eaOffset = of .eaOffset ∧ c'.file.vcb.vol.io = none ∧ SameFlags c c') ?_ ?_
  · rw [mergeBacks]
    refine Sat.bind (h.sat_mergeBack hg hnone hxs (hof .eaInitialEa (by simp))) ?_
    rintro _ c1 ⟨ys, of1, h1, hys, hof1, hnone1, hflags1⟩
    refine (h1.sat_mergeBack hg hnone1 hys (p := .eaTail) fun hs => ?_).mono ?_ fun _ _ hE => hE
    · rw [hof1 _ (by simp)]
      exact hof .eaTail (by simp) (by rwa [← hflags1.split])
    · rintro _ c2 ⟨zs, of2, h2, hzs, hof2, hnone2, hflags2⟩
      exact ⟨zs, of2, h2, hzs, (hof2 _ (by simp)).trans (hof1 _ (by simp)),
        (hof2 _ (by simp)).trans (hof1 _ (by simp)), hnone2, hflags1.trans hflags2⟩
  rintro _ c2 ⟨ys, of2, h2, hys, hset2, hoffset2, hnone2, hflags2⟩
  rw [← hset2] at hset hx
  rw [← hoffset2, ← hflags2.split] at hx
  rw [freeNew]
  apply Sat.get_bind
  by_cases hs : c2.split .eaOffset = true
  · rw [if_pos hs]
    have hoffset : of2 .eaOffset ≠ [] := by
      rw [hoffset2]
      exact hof .eaOffset (by simp) (by rwa [← hflags2.split])
    refine Sat.bind (h2.sat_deallocate hg hnone2 hys hoffset) ?_
    rintro _ c3 ⟨v, hc3, hnone3, hentry⟩
    subst hc3
    refine ((h2.setVcb v).sat_deallocate hg hnone3 hys hset).mono ?_ fun _ _ hE => hE
    rintro _ c4 ⟨v', hc4, _, hentry'⟩
    subst hc4
    change lookupEntry g.width v'.vol.fat x = 0
    have hsecond : lookupEntry g.width v'.vol.fat x =
        if x ∈ of2 .eaSet then 0 else lookupEntry g.width v.vol.fat x := hentry' x
    rw [hsecond, hentry]
    rcases hx with hx | ⟨_, hx⟩
    · rw [if_pos hx]
    · rw [if_pos hx, ite_self]
  · rw [if_neg hs]
    refine (h2.sat_deallocate hg hnone2 hys hset).mono ?_ fun _ _ hE => hE
    rintro _ c4 ⟨v', hc4, _, hentry'⟩
    subst hc4
    change lookupEntry g.width v'.vol.fat x = 0
    rw [hentry', if_pos (hx.resolve_right fun h => hs h.1)]

end Maps

/-- The maps of a stuck call, when the one that could not be initialised reads as the cluster `x`. -/
structure StuckAt (g : Geometry) (cs : List ℕ) (L : Parts) (p : Piece) (x : ℕ) (c : Call) : Prop where
  maps : Maps g c (L.file (Function.update (L.mergedBefore p) p true) L.cuts)
    (Function.update (L.piece (Function.update (L.mergedBefore p) p true) L.cuts) p [x])
  io : c.file.vcb.vol.io = none
  merged : c.merged = L.mergedBefore p
  split : c.split = L.cuts
  emptied : ∀ p', L.mergedBefore p p' = true → c.mcb p' = []
  eaSetVbo : L.mergedBefore p .eaSet = true → c.eaSetVbo =
    (L.head.length + (L.own .eaInitialEa).length + (L.own .eaOffset).length) * g.clusterSize
  mem : x ∈ cs

/-- What the unwind has before it frees the new clusters: a cluster of the file is among them. -/
def FreesOld (g : Geometry) (cs : List ℕ) (c : Call) : Prop :=
  ∃ xs of x, Maps g c xs of ∧ xs ≠ [] ∧ c.file.vcb.vol.io = none ∧
    (∀ p, p ≠ .eaSet → c.split p = true → of p ≠ []) ∧ of .eaSet ≠ [] ∧ x ∈ cs ∧
    (x ∈ of .eaSet ∨ (c.split .eaOffset = true ∧ x ∈ of .eaOffset))

theorem Parts.ite_cuts {p : Piece} (hp : p ≠ .eaSet) :
    (if L.cuts p then L.own p else []) = L.own p ∧ (if L.cuts p then [] else L.own p) = [] := by
  by_cases hcut : L.cuts p = true
  · simp [hcut]
  · have hnil : L.own p = [] := by
      by_contra hne
      exact hcut ((Parts.cuts_iff hp).mpr hne)
    simp [hcut, hnil]

/-- The piece is behind everything that was merged before. -/
theorem Parts.file_stuck :
    L.file (Function.update (L.mergedBefore p) p true) L.cuts = L.head ++ match p with
      | .eaOffset => L.own .eaOffset
      | .eaInitialEa => L.own .eaOffset ++ L.own .eaInitialEa
      | .eaSet => L.own .eaOffset ++ (L.own .eaInitialEa ++ L.own .eaSet)
      | .eaTail => L.own .eaOffset ++ (L.own .eaInitialEa ++ (L.own .eaSet ++ L.own .eaTail)) := by
  have hO := Parts.ite_cuts (L := L) (p := .eaOffset) (by simp)
  have hI := Parts.ite_cuts (L := L) (p := .eaInitialEa) (by simp)
  have hT := Parts.ite_cuts (L := L) (p := .eaTail) (by simp)
  cases p <;> simp [Parts.file, Parts.mergedBefore, hO, hI, hT]

namespace StuckAt

variable {x : ℕ}

/-- The new cluster of the offset table is in the file, and its map cannot be used. -/
theorem sat_splitBacks_eaOffset (hq : Fits g q f cs ns L) (hne : L.own .eaOffset ≠ [])
    (h : StuckAt g cs L .eaOffset x c) :
    Sat (splitBacks g q) c (fun _ c' => FreesOld g cs c') (fun _ _ => False) := by
  have hm : ∀ p, c.merged p = false := by
    rw [h.merged]
    simp [Parts.mergedBefore]
  rw [splitBacks]
  apply Sat.get_bind
  refine Sat.bind (Maps.sat_splitBack_skip (hm _)) ?_
  intro _ c1 hc1
  refine Sat.bind (Maps.sat_splitBack_skip (hc1 ▸ hm _)) ?_
  intro _ c2 hc2
  refine Sat.bind (Maps.sat_splitBack_skip (hc2 ▸ hc1 ▸ hm _)) ?_
  intro _ c3 hc3
  refine (Maps.sat_splitBack_skip (hc3 ▸ hc2 ▸ hc1 ▸ hm _)).mono ?_ fun _ _ hE => hE
  intro _ c4 hc4
  rw [hc4, hc3, hc2, hc1]
  have hcut : L.cuts .eaOffset = true := (Parts.cuts_iff (by simp)).mpr hne
  have hfile : L.file (Function.update (L.mergedBefore .eaOffset) .eaOffset true) L.cuts ≠ [] := by
    rw [Parts.file]
    exact List.append_ne_nil_of_left_ne_nil hq.head_ne _
  refine ⟨_, _, x, h.maps, hfile, h.io, fun p hp hs => ?_, ?_, h.mem, Or.inr ⟨?_, ?_⟩⟩
  · rw [h.split] at hs
    have hown := (Parts.cuts_iff hp).mp hs
    have hcutOff := Parts.cutOff_cuts (L := L) hp
    cases p with
    | eaSet => exact absurd rfl hp
    | eaOffset => simp
    | eaInitialEa => simpa [Parts.piece, Parts.mergedBefore, hcutOff] using hown
    | eaTail => simpa [Parts.piece, Parts.mergedBefore, hcutOff] using hown
  · simpa [Parts.piece, Parts.mergedBefore, Parts.cutOff, hcut] using hq.set_ne
  · rw [h.split, hcut]
  · simp

/-- The sets that follow the offset table are in the file behind its new cluster. -/
theorem sat_splitBacks_eaInitialEa (hg : g.Sound) (hq : Fits g q f cs ns L)
    (hne : L.own .eaInitialEa ≠ []) (h : StuckAt g cs L .eaInitialEa x c) :
    Sat (splitBacks g q) c (fun _ c' => FreesOld g cs c') (fun _ _ => False) := by
  have hO := hq.offset.mp (hq.initial.mpr hne).1
  have hT : L.own .eaTail = [] := by
    by_contra hT
    exact hne (hq.tail_own hT).2
  have hcutO : L.cuts .eaOffset = true := (Parts.cuts_iff (by simp)).mpr hO
  have hcutT : L.cuts .eaTail = false := by simp [Parts.cuts, hT]
  have hmerged : ∀ p, p ≠ .eaOffset → c.merged p = false := by
    intro p hp
    rw [h.merged, Parts.mergedBefore, Function.update_of_ne hp]
  have hmO : c.merged .eaOffset = true := by
    rw [h.merged, Parts.mergedBefore, Function.update_self, hcutO]
  have hmcb := h.emptied .eaOffset (by rw [← h.merged, hmO])
  have hmaps := h.maps
  rw [Parts.file_stuck] at hmaps
  rw [splitBacks]
  apply Sat.get_bind
  refine Sat.bind (Maps.sat_splitBack_skip (hmerged _ (by simp))) ?_
  intro _ c1 hc1
  subst hc1
  refine Sat.bind (Maps.sat_splitBack_skip (hmerged _ (by simp))) ?_
  intro _ c2 hc2
  subst hc2
  refine Sat.bind (Maps.sat_splitBack_skip (hmerged _ (by simp))) ?_
  intro _ c3 hc3
  subst hc3
  refine (hmaps.sat_splitBack hg h.io hmO hmcb ?_ hq.head_ne (by simp [hO]) (hq.eaNewOffsetVbo hO)).mono ?_
    fun _ _ hE => hE
  · simp [Parts.piece, Parts.mergedBefore, hcutO]
  rintro _ c4 ⟨h4, hnone4, hflags4, _⟩
  obtain ⟨y, hy⟩ := List.exists_mem_of_ne_nil _ hne
  have hsplit : c4.split = L.cuts := hflags4.split.trans h.split
  refine ⟨_, _, y, h4, hq.head_ne, hnone4, fun p hp hs => ?_, ?_, ?_, Or.inr ⟨?_, ?_⟩⟩
  · rw [hsplit] at hs
    cases p with
    | eaSet => exact absurd rfl hp
    | eaOffset => simp [hO]
    | eaInitialEa => simp
    | eaTail => exact absurd hs (by simp [hcutT])
  · simpa [Parts.piece, Parts.mergedBefore, Parts.cutOff, hcutO] using hq.set_ne
  · rw [hq.file]
    simp [hy]
  · rw [hsplit, hcutO]
  · simp [hy]

/-- The tail is in the file behind the new set. -/
theorem sat_splitBacks_eaTail (hg : g.Sound) (hq : Fits g q f cs ns L) (hne : L.own .eaTail ≠ [])
    (h : StuckAt g cs L .eaTail x c) :
    Sat (splitBacks g q) c (fun _ c' => FreesOld g cs c') (fun _ _ => False) := by
  obtain ⟨hO, hI⟩ := hq.tail_own hne
  have hcutO : L.cuts .eaOffset = false := by simp [Parts.cuts, hO]
  have hcutI : L.cuts .eaInitialEa = false := by simp [Parts.cuts, hI]
  have hmerged : ∀ p, p ≠ .eaSet → c.merged p = false := by
    intro p hp
    rw [h.merged]
    cases p with
    | eaSet => exact absurd rfl hp
    | eaOffset => simp [Parts.mergedBefore, hcutO]
    | eaInitialEa => simp [Parts.mergedBefore, hcutI]
    | eaTail => simp [Parts.mergedBefore]
  have hbefore : L.mergedBefore .eaTail .eaSet = true := by simp [Parts.mergedBefore]
  have hmS : c.merged .eaSet = true := by rw [h.merged, hbefore]
  have hmcb := h.emptied .eaSet hbefore
  have hvbo : c.eaSetVbo = L.head.length * g.clusterSize := by
    rw [h.eaSetVbo hbefore, hO, hI]
    rfl
  have hmaps := h.maps
  rw [Parts.file_stuck] at hmaps
  dsimp only at hmaps
  rw [hO, hI, List.nil_append, List.nil_append] at hmaps
  rw [splitBacks]
  apply Sat.get_bind
  refine Sat.bind (Maps.sat_splitBack_skip (hmerged _ (by simp))) ?_
  intro _ c1 hc1
  subst hc1
  refine Sat.bind (hmaps.sat_splitBack hg h.io hmS hmcb ?_ hq.head_ne (by simp [hne]) hvbo) ?_
  · simp [Parts.piece, Parts.mergedBefore]
  rintro _ c2 ⟨h2, hnone2, hflags2, _⟩
  have hmerged2 : ∀ p, p ≠ .eaSet → c2.merged p = false := fun p hp => by
    rw [hflags2.merged, hmerged p hp]
  refine Sat.bind (Maps.sat_splitBack_skip (hmerged2 _ (by simp))) ?_
  intro _ c3 hc3
  subst hc3
  refine (Maps.sat_splitBack_skip (hmerged2 _ (by simp))).mono ?_ fun _ _ hE => hE
  intro _ c4 hc4
  subst hc4
  obtain ⟨y, hy⟩ := List.exists_mem_of_ne_nil _ hne
  have hsplit := hflags2.split.trans h.split
  refine ⟨_, _, y, h2, hq.head_ne, hnone2, fun p hp hs => ?_, ?_, ?_, Or.inl ?_⟩
  · rw [hsplit] at hs
    cases p with
    | eaSet => exact absurd rfl hp
    | eaOffset => exact absurd hs (by simp [hcutO])
    | eaInitialEa => exact absurd hs (by simp [hcutI])
    | eaTail => simp
  · simp [hne]
  · rw [hq.file]
    simp [hy]
  · simp [hy]

/-- The new set is in the file. -/
theorem sat_splitBacks_eaSet (hg : g.Sound) (hq : Fits g q f cs ns L) (h : StuckAt g cs L .eaSet x c) :
    Sat (splitBacks g q) c (fun _ c' => FreesOld g cs c') (fun _ _ => False) := by
  have hmerged : c.merged .eaTail = false ∧ c.merged .eaSet = false ∧
      c.merged .eaInitialEa = L.cuts .eaInitialEa ∧ c.merged .eaOffset = L.cuts .eaOffset := by
    rw [h.merged]
    simp [Parts.mergedBefore]
  obtain ⟨hmT, hmS, hmI, hmO⟩ := hmerged
  have hemptied : ∀ p, c.merged p = true → c.mcb p = [] := by
    rw [h.merged]
    exact h.emptied
  have hmaps := h.maps
  rw [Parts.file_stuck] at hmaps
  have hpieceO : L.cuts .eaOffset = true → Function.update (L.piece (Function.update (L.mergedBefore .eaSet)
      .eaSet true) L.cuts) .eaSet [x] .eaOffset = [] := by
    intro hcut
    simp [Parts.piece, Parts.mergedBefore, hcut]
  rw [splitBacks]
  apply Sat.get_bind
  refine Sat.bind (Maps.sat_splitBack_skip hmT) ?_
  intro _ c1 hc1
  subst hc1
  refine Sat.bind (Maps.sat_splitBack_skip hmS) ?_
  intro _ c2 hc2
  subst hc2
  by_cases hcutI : L.cuts .eaInitialEa = true
  · have hI := (Parts.cuts_iff (by simp)).mp hcutI
    have hO := hq.offset.mp (hq.initial.mpr hI).1
    have hcutO : L.cuts .eaOffset = true := (Parts.cuts_iff (by simp)).mpr hO
    have hT : L.own .eaTail = [] := by
      by_contra hT
      exact hI (hq.tail_own hT).2
    have hvbo : ulong (q.eaNewOffsetVbo + g.clusterSize) =
        (L.head ++ L.own .eaOffset).length * g.clusterSize := by
      have hroom := hq.room
      have hle : L.head.length + 1 ≤ (cs ++ ns).length := by
        have := List.length_pos_of_ne_nil hI
        rw [List.length_append, hq.file, List.length_append, List.length_append]
        omega
      have hmul := Nat.mul_le_mul_right g.clusterSize hle
      have hS := g.clusterSize_pos
      rw [Nat.add_mul, Nat.one_mul] at hroom hmul
      rw [hq.eaNewOffsetVbo hO, ulong_of_lt (by omega), List.length_append, hq.offset_length hO,
        Nat.add_mul, Nat.one_mul]
    dsimp only at hmaps
    rw [← List.append_assoc] at hmaps
    refine Sat.bind (hmaps.sat_splitBack hg h.io (hmI.trans hcutI) (hemptied _ (hmI.trans hcutI)) ?_
      (List.append_ne_nil_of_left_ne_nil hq.head_ne _) (by simp [hI]) hvbo) ?_
    · simp [Parts.piece, Parts.mergedBefore, hcutI]
    rintro _ c3 ⟨h3, hnone3, hflags3, hmcb3⟩
    have hmO3 : c3.merged .eaOffset = true := by rw [hflags3.merged, hmO, hcutO]
    refine (h3.sat_splitBack hg hnone3 hmO3 ?_ ?_ hq.head_ne hO (hq.eaNewOffsetVbo hO)).mono ?_
      fun _ _ hE => hE
    · rw [hmcb3 _ (by simp), hemptied _ (hmO.trans hcutO)]
    · rw [Function.update_of_ne (by simp), hpieceO hcutO]
    rintro _ c4 ⟨h4, hnone4, hflags4, _⟩
    have hsplit : c4.split = L.cuts := hflags4.split.trans (hflags3.split.trans h.split)
    refine ⟨_, _, x, h4, hq.head_ne, hnone4, fun p hp hs => ?_, by simp, h.mem, Or.inl (by simp)⟩
    rw [hsplit] at hs
    cases p with
    | eaSet => exact absurd rfl hp
    | eaOffset => simp [hO]
    | eaInitialEa => simp [hI]
    | eaTail => exact absurd ((Parts.cuts_iff (by simp)).mp hs) (by simp [hT])
  · have hI : L.own .eaInitialEa = [] := by
      by_contra hI
      exact hcutI ((Parts.cuts_iff (by simp)).mpr hI)
    refine Sat.bind (Maps.sat_splitBack_skip (hmI.trans (Bool.eq_false_iff.mpr hcutI))) ?_
    intro _ c3 hc3
    subst hc3
    by_cases hcutO : L.cuts .eaOffset = true
    · have hO := (Parts.cuts_iff (by simp)).mp hcutO
      have hT : L.own .eaTail = [] := by
        by_contra hT
        exact hO (hq.tail_own hT).1
      refine (hmaps.sat_splitBack hg h.io (hmO.trans hcutO) (hemptied _ (hmO.trans hcutO)) (hpieceO hcutO)
        hq.head_ne (by simp [hO]) (hq.eaNewOffsetVbo hO)).mono ?_ fun _ _ hE => hE
      rintro _ c4 ⟨h4, hnone4, hflags4, _⟩
      have hsplit : c4.split = L.cuts := hflags4.split.trans h.split
      refine ⟨_, _, x, h4, hq.head_ne, hnone4, fun p hp hs => ?_, by simp, h.mem, Or.inl (by simp)⟩
      rw [hsplit] at hs
      cases p with
      | eaSet => exact absurd rfl hp
      | eaOffset => simp [hO]
      | eaInitialEa => exact absurd hs hcutI
      | eaTail => exact absurd ((Parts.cuts_iff (by simp)).mp hs) (by simp [hT])
    · refine (Maps.sat_splitBack_skip (hmO.trans (Bool.eq_false_iff.mpr hcutO))).mono ?_ fun _ _ hE => hE
      intro _ c4 hc4
      subst hc4
      refine ⟨_, _, x, h.maps, ?_, h.io, fun p hp hs => ?_, by simp, h.mem, Or.inl (by simp)⟩
      · rw [Parts.file]
        exact List.append_ne_nil_of_left_ne_nil hq.head_ne _
      · rw [h.split] at hs
        have hown := (Parts.cuts_iff hp).mp hs
        have hcutOff := Parts.cutOff_cuts (L := L) hp
        cases p with
        | eaSet => exact absurd rfl hp
        | eaOffset => exact absurd hs hcutO
        | eaInitialEa => exact absurd hs hcutI
        | eaTail => simpa [Parts.piece, Parts.mergedBefore, hcutOff] using hown

/-- **The unwind of a stuck call** frees a cluster of the file. -/
theorem sat_unwind (hg : g.Sound) (hq : Fits g q f cs ns L) (hne : L.own p ≠ [])
    (h : StuckAt g cs L p x (restoreSizes c)) (hallocated : c.allocatedNewAllocation = true) :
    Sat (unwind g q) c (fun _ c' => ∃ y ∈ cs, lookupEntry g.width c'.file.vcb.vol.fat y = 0)
      (fun _ _ => False) := by
  rw [unwind]
  apply Sat.get_bind
  rw [if_pos hallocated]
  apply Sat.modify_bind
  refine Sat.bind (R := fun _ c' => FreesOld g cs c') ?_ ?_
  · cases p with
    | eaSet => exact h.sat_splitBacks_eaSet hg hq
    | eaOffset => exact h.sat_splitBacks_eaOffset hq hne
    | eaInitialEa => exact h.sat_splitBacks_eaInitialEa hg hq hne
    | eaTail => exact h.sat_splitBacks_eaTail hg hq hne
  · rintro _ c1 ⟨xs, of, y, hmaps, hxs, hnone, hof, hset, hy, hfreed⟩
    exact (hmaps.sat_free hg hnone hxs hof hset hfreed).mono (fun _ c' hzero => ⟨y, hy, hzero⟩)
      fun _ _ hE => hE

end StuckAt

/-- One more cluster in a map that counted for nothing. -/
theorem together_add {x : ℕ} (hp : of p = []) :
    (together xs (Function.update of p [x])).Perm (x :: together xs of) := by
  rw [List.perm_iff_count]
  intro a
  cases p <;> simp [together, List.count_append, List.count_cons, hp] <;> omega

theorem Stuck.stuckAt {x : ℕ} (hq : Fits g q f cs ns L) (hr : Reached g L (L.mergedBefore p) L.cuts vbo)
    (h : Stuck g f cs ns L s p (L.mergedBefore p) L.cuts vbo c)
    (hread : s.uninitialized = mcbOf g [x]) (hx : x ∈ cs) : StuckAt g cs L p x (restoreSizes c) := by
  obtain ⟨file, hrestore, hvcb, hmcb⟩ := Undoable.restoreSizes_eq c
  have hp : L.piece (Function.update (L.mergedBefore p) p true) L.cuts p = [] := by
    simp [Parts.piece]
  have hperm := @together_add (L.file (Function.update (L.mergedBefore p) p true) L.cuts) _ p x hp
  rw [hrestore]
  refine ⟨⟨hmcb.trans h.maps.file, fun p' hp' => ?_, fun y hy => ?_, ?_⟩, ?_, h.merged, h.split, h.emptied,
    fun hm => h.eaSetVbo.trans (hr.2 hm), hx⟩
  · dsimp only
    by_cases heq : p' = p
    · rw [heq, Function.update_self, h.uninitialized, hread]
    · rw [Function.update_of_ne heq] at hp' ⊢
      exact h.maps.piece p' hp'
  · rcases List.mem_cons.mp (hperm.mem_iff.mp hy) with hy | hy
    · rw [hy]
      exact hq.clusters x (List.mem_append_left _ hx)
    · exact h.maps.clusters y hy
  · rw [hperm.length_eq, List.length_cons, h.maps.perm.length_eq]
    exact hq.room
  · dsimp only
    rw [hvcb, h.io]

section Allocated

variable {a : AllocCall} {fuel : ℕ} {pt : Point} (hg : g.Sound) (hq : Fits g q f cs ns L)
  (hok : fatAllocateDiskSpace g (Request.at 0 q.newAllocation) fuel
    ⟨f.vcb, [], (Request.at 0 q.newAllocation).byteCount⟩ = .ok () a)
  (hcompleted : Completed g (Request.at 0 q.newAllocation) (zeroSet g f.vcb.vol.fat)
    ⟨f.vcb, [], (Request.at 0 q.newAllocation).byteCount⟩ a ns)
  (hmcb : a.mcb = mcbOf g ns) (hbytes : a.byteCount = q.newAllocation) (hnone : f.vcb.vol.io = none)

include hg hq hok hcompleted hmcb hbytes hnone

/-- At another point a call that fails is undone. -/
theorem failsSafely_of_not_reinitializes (hpt : ¬ q.Reinitializes pt) :
    FailsSafely g q pt fuel f cs := by
  intro uninitialized stop c c' hbody hallocated hunwind
  rcases (sat_body (s := ⟨pt, uninitialized⟩) hg hq hok hcompleted hmcb hbytes hnone).error hbody with
    ⟨_, hnot⟩ | ⟨_, hundo⟩ | ⟨p, _, hp, hne, _⟩
  · rw [hallocated] at hnot
    simp at hnot
  · exact (hundo.sat_unwind hg hq).ok hunwind
  · exact absurd (hq.reinitializes_iff.mpr ⟨p, hp, hne⟩) hpt

/-- A map that could not be initialised again can read as the first cluster of the file. -/
theorem not_failsSafely (hpt : q.Reinitializes pt) : ¬ FailsSafely g q pt fuel f cs := by
  intro hsafe
  obtain ⟨x, hx⟩ := List.exists_mem_of_ne_nil cs hq.chain.ne_nil
  have hsat := sat_body (s := ⟨pt, mcbOf g [x]⟩) hg hq hok hcompleted hmcb hbytes hnone
  cases hbody : body g q ⟨pt, mcbOf g [x]⟩ fuel (Call.start q f) with
  | ok _ c => exact hsat.ok hbody hpt
  | error stop c =>
      rcases hsat.error hbody with ⟨hinit, _⟩ | ⟨hnot, _⟩ | ⟨p, vbo, _, hne, hr, hstuck⟩
      · obtain ⟨p, hp, _⟩ := hq.reinitializes_iff.mp hpt
        rw [hp] at hinit
        simp at hinit
      · exact hnot hpt
      · have hat := hstuck.stuckAt hq hr rfl hx
        obtain ⟨_, c', hunwind, y, hy, hzero⟩ :=
          (hat.sat_unwind hg hq hne hstuck.allocated).exists_ok fun _ _ h => h
        have hleaves := hsafe _ stop c c' hbody hstuck.allocated hunwind
        exact entry_ne_zero_of_leads hleaves.chain hy hzero

end Allocated

end KernelDrivers.Fat.AddEaSet
