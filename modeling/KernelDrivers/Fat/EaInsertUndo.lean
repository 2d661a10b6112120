import KernelDrivers.Fat.EaInsertMaps

/-!
# The unwind of an insertion

The flags of a call say which pieces were cut off the file and which were merged into it, and so
what the list of the file is.  The unwind cuts out what was merged, from the end on, then merges
what was cut off, and frees the new clusters.

## Main definitions

* `Parts` — the parts of the file and of the new allocation, and the lists for given flags.
* `Fits` — the parts are those of a plan.
* `Undoable` — the lists of a call are what its flags say.

## Main results

* `Undoable.sat_unwind` — from such a state the unwind leaves the file.
-/

namespace KernelDrivers.Fat.AddEaSet

/-! ## The flags -/

/-- The parts of the file and of the new allocation: what stays in front, and the pieces. -/
structure Parts where
  head : List ℕ
  own : Piece → List ℕ

namespace Parts

variable (L : Parts) (m sp : Piece → Bool)

/-- The file, when the pieces `sp` were cut off and the pieces `m` were merged. -/
def file : List ℕ :=
  L.head ++ ((if sp .eaInitialEa then [] else L.own .eaInitialEa) ++
    ((if sp .eaTail then [] else L.own .eaTail) ++ ((if m .eaOffset then L.own .eaOffset else []) ++
      ((if m .eaInitialEa then L.own .eaInitialEa else []) ++
        ((if m .eaSet then L.own .eaSet else []) ++ if m .eaTail then L.own .eaTail else [])))))

/-- What a piece has when it was not merged. -/
def cutOff : Piece → List ℕ
  | .eaSet => if sp .eaOffset then L.own .eaSet else L.own .eaSet ++ L.own .eaOffset
  | p => if sp p then L.own p else []

def piece (p : Piece) : List ℕ := if m p then [] else L.cutOff sp p

/-- The flags that occur: a piece is merged after it was cut off, and after what goes in front of
it. -/
structure Possible : Prop where
  cut : ∀ p, p ≠ .eaSet → m p = true → sp p = true
  own : ∀ p, sp p = true → L.own p ≠ []
  offset : m .eaOffset = true → L.own .eaInitialEa ≠ [] → sp .eaInitialEa = true
  initial : m .eaInitialEa = true → m .eaOffset = true
  set : m .eaSet = true → (L.own .eaOffset ≠ [] → m .eaOffset = true) ∧
    (L.own .eaInitialEa ≠ [] → m .eaInitialEa = true) ∧ (L.own .eaTail ≠ [] → sp .eaTail = true)
  tail : m .eaTail = true → m .eaSet = true

/-- The pieces that are cut off. -/
def cuts : Piece → Bool
  | .eaSet => false
  | p => !(L.own p).isEmpty

/-- The pieces that are merged before another one is. -/
def mergedBefore : Piece → Piece → Bool
  | .eaOffset => fun _ => false
  | .eaInitialEa => Function.update (fun _ => false) .eaOffset (L.cuts .eaOffset)
  | .eaSet => Function.update (Function.update (fun _ => false) .eaOffset (L.cuts .eaOffset))
      .eaInitialEa (L.cuts .eaInitialEa)
  | .eaTail => Function.update (Function.update (Function.update (fun _ => false) .eaOffset
      (L.cuts .eaOffset)) .eaInitialEa (L.cuts .eaInitialEa)) .eaSet true

variable {L m sp}

theorem length_file : (L.file m sp).length = L.head.length +
    (if sp .eaInitialEa then 0 else (L.own .eaInitialEa).length) +
    (if sp .eaTail then 0 else (L.own .eaTail).length) +
    (if m .eaOffset then (L.own .eaOffset).length else 0) +
    (if m .eaInitialEa then (L.own .eaInitialEa).length else 0) +
    (if m .eaSet then (L.own .eaSet).length else 0) +
    if m .eaTail then (L.own .eaTail).length else 0 := by
  simp only [file, List.length_append, apply_ite List.length, List.length_nil, Nat.add_assoc]

/-- The flag of a piece counts only when the piece is not empty. -/
theorem length_of_flag {b : Bool} {xs : List ℕ} (h : xs ≠ [] → b = true) :
    (if b then xs.length else 0) = xs.length ∧ (if b then 0 else xs.length) = 0 := by
  by_cases hxs : xs = []
  · simp [hxs]
  · simp [h hxs]

theorem cuts_iff {p : Piece} (hp : p ≠ .eaSet) : L.cuts p = true ↔ L.own p ≠ [] := by
  cases p with
  | eaSet => exact absurd rfl hp
  | eaOffset => simp [cuts]
  | eaInitialEa => simp [cuts]
  | eaTail => simp [cuts]

theorem cutOff_cuts {p : Piece} (hp : p ≠ .eaSet) : L.cutOff L.cuts p = L.own p := by
  cases p with
  | eaSet => exact absurd rfl hp
  | eaOffset => simp [cutOff, cuts]
  | eaInitialEa => simp [cutOff, cuts]
  | eaTail => simp [cutOff, cuts]

/-- The next piece is merged behind those before it. -/
theorem file_merge (p : Piece) : L.file (Function.update (L.mergedBefore p) p true) sp =
    L.file (L.mergedBefore p) sp ++ L.own p := by
  cases p <;> simp [file, mergedBefore]

theorem mergedBefore_self (p : Piece) : L.mergedBefore p p = false := by
  cases p <;> simp [mergedBefore]

/-- A merged piece is at the end of the file as long as nothing was merged behind it. -/
theorem file_eq_append {p : Piece} (hp : m p = true)
    (hlast : p ≠ .eaTail → m .eaTail = false) (hset : p ≠ .eaTail → p ≠ .eaSet → m .eaSet = false)
    (hinitial : p = .eaOffset → m .eaInitialEa = false) :
    L.file m sp = L.file (Function.update m p false) sp ++ L.own p := by
  cases p <;> simp_all [file]

theorem update_piece {p : Piece} (hp : L.cutOff sp p = L.own p) :
    Function.update (L.piece m sp) p (L.own p) = L.piece (Function.update m p false) sp := by
  funext p'
  by_cases heq : p' = p
  · subst heq
    simp [piece, hp]
  · simp [piece, heq]

end Parts

/-- Two calls that differ in the maps and the volume only. -/
structure SameFlags (c c' : Call) : Prop where
  merged : c'.merged = c.merged
  split : c'.split = c.split
  fileSize : c'.file.fileSize = c.file.fileSize
  allocationSize : c'.file.allocationSize = c.file.allocationSize
  direntFileSize : c'.file.direntFileSize = c.file.direntFileSize

namespace SameFlags

theorem refl (c : Call) : SameFlags c c := ⟨rfl, rfl, rfl, rfl, rfl⟩

theorem trans {c c' c'' : Call} (h : SameFlags c c') (h' : SameFlags c' c'') : SameFlags c c'' :=
  ⟨h'.merged.trans h.merged, h'.split.trans h.split, h'.fileSize.trans h.fileSize,
    h'.allocationSize.trans h.allocationSize, h'.direntFileSize.trans h.direntFileSize⟩

theorem setPair (p : Piece) (c : Call) (r : McbPair) : SameFlags c (c.setPair p r) :=
  ⟨rfl, rfl, rfl, rfl, rfl⟩

end SameFlags

/-! ## The unwind -/

section Unwind

variable {g : Geometry} {f : EaFcb} {cs ns xs : List ℕ} {c : Call} {of : Piece → List ℕ}
  {p : Piece} {L : Parts} {m sp : Piece → Bool} (hg : g.Sound) (hnodup : (cs ++ ns).Nodup)

include hg hnodup

/-- A piece that was merged is cut out again. -/
theorem At.sat_splitBack {vbo : ℕ} (h : At g f cs ns c (L.file m sp) (L.piece m sp))
    (hnone : c.file.vcb.vol.io = none) (hm : c.merged p = m p) (hhead : L.head ≠ [])
    (hcut : m p = true → L.cutOff sp p = L.own p ∧ L.own p ≠ [] ∧ c.mcb p = [] ∧
      L.file m sp = L.file (Function.update m p false) sp ++ L.own p ∧
      vbo = (L.file (Function.update m p false) sp).length * g.clusterSize) :
    Sat (splitBack g p vbo) c
      (fun _ c' => At g f cs ns c' (L.file (Function.update m p false) sp)
          (L.piece (Function.update m p false) sp) ∧
        c'.file.vcb.vol.io = none ∧ SameFlags c c' ∧ ∀ p', p' ≠ p → c'.mcb p' = c.mcb p')
      (fun _ _ => False) := by
  rw [splitBack]
  apply Sat.get_bind
  rw [hm]
  by_cases hp : m p = true
  · obtain ⟨hown, hne, hmcb, hfile, hvbo⟩ := hcut hp
    have hof : L.piece m sp p = [] := by rw [Parts.piece, if_pos hp]
    have hfront : L.file (Function.update m p false) sp ≠ [] := by
      rw [Parts.file]
      exact List.append_ne_nil_of_left_ne_nil hhead _
    rw [hfile] at h
    rw [if_pos hp, hvbo, ← Parts.update_piece hown]
    refine (h.sat_split hg hnodup hof hmcb hfront hne).mono ?_ ?_
    · rintro _ c' ⟨_, hat, hio, r, hc'⟩
      refine ⟨hat, hio hnone, ?_⟩
      rw [hc']
      exact ⟨SameFlags.setPair p c r, fun p' hp' => Function.update_of_ne hp' _ _⟩
    · rintro _ c' ⟨hio, _⟩
      rw [hnone] at hio
      simp at hio
  · have hsame : Function.update m p false = m := by
      rw [← Bool.eq_false_iff.mpr hp, Function.update_eq_self]
    rw [if_neg hp, hsame]
    exact Sat.pure ⟨h, hnone, SameFlags.refl c, fun _ _ => rfl⟩

/-- A piece that was cut off the file is merged with it again. -/
theorem At.sat_mergeBack (h : At g f cs ns c xs of) (hnone : c.file.vcb.vol.io = none)
    (hxs : xs ≠ []) (hp : c.split p = true → of p ≠ []) :
    Sat (mergeBack g p) c
      (fun _ c' => At g f cs ns c' (if c.split p then xs ++ of p else xs)
          (if c.split p then Function.update of p [] else of) ∧
        c'.file.vcb.vol.io = none ∧ SameFlags c c')
      (fun _ _ => False) := by
  rw [mergeBack]
  apply Sat.get_bind
  split
  · next hsplit =>
      refine (h.sat_merge hg hnodup hxs (hp hsplit)).mono ?_ ?_
      · rintro _ c' ⟨_, hat, hio, r, hc'⟩
        refine ⟨hat, hio hnone, ?_⟩
        rw [hc']
        exact SameFlags.setPair p c r
      · rintro _ c' ⟨hio, _⟩
        rw [hnone] at hio
        simp at hio
  · exact Sat.pure ⟨h, hnone, SameFlags.refl c⟩

omit hnodup in
/-- The clusters of a piece are freed. -/
theorem sat_deallocate {ys : List ℕ} {F : Finset ℕ} (hmcb : c.mcb p = mcbOf g ys)
    (hys : ∀ x ∈ ys, x ∈ g.clusters) (hnd : ys.Nodup) (hlt : ys.length * g.clusterSize < 2 ^ 32)
    (hnone : c.file.vcb.vol.io = none) (hb : Books g c.file.vcb F 0) (hdis : Disjoint F ys.toFinset) :
    Sat (deallocate g p) c
      (fun _ c' => ∃ v, c' = c.setVcb v ∧ Books g v (F ∪ ys.toFinset) 0 ∧ v.vol.io = none ∧
        ∀ j, lookupEntry g.width v.vol.fat j =
          if j ∈ ys then 0 else lookupEntry g.width c.file.vcb.vol.fat j)
      (fun _ _ => False) := by
  have hruns := runClusters_mcbRuns hg hys hlt.le
  rw [if_neg (by omega), ← hmcb] at hruns
  have hvalid : ∀ run ∈ mcbRuns g (c.mcb p), ValidRun g run := by
    rw [hmcb]
    exact validRun_mcbRuns hg hys hlt.le
  have hsat := hb.sat_fatDeallocateDiskSpace hvalid (by rwa [hruns]) (by rwa [hruns])
  rw [hruns] at hsat
  rw [deallocate]
  apply Sat.get_bind
  apply Sat.onPart
  refine hsat.mono ?_ fun _ _ hE => hE.1 hnone
  rintro _ v ⟨hbooks, hwrote⟩
  exact ⟨v, rfl, hbooks, hwrote.io hnone, hwrote.entry⟩

end Unwind

/-- The parts fit the plan: the file and the new allocation fall into them, the pieces that the plan
asks for are not empty, and the offsets of the plan are where they begin. -/
structure Fits (g : Geometry) (q : Plan) (f : EaFcb) (cs ns : List ℕ) (L : Parts) : Prop where
  file : cs = L.head ++ (L.own .eaInitialEa ++ L.own .eaTail)
  new : ns = L.own .eaSet ++ L.own .eaOffset
  nodup : (cs ++ ns).Nodup
  free : ∀ x ∈ ns, x ∈ zeroSet g f.vcb.vol.fat
  chain : Leads (fatLink g.width f.vcb.vol.fat) cs .last
  clusters : ∀ x ∈ cs ++ ns, x ∈ g.clusters
  room : ((cs ++ ns).length + 1) * g.clusterSize ≤ 2 ^ 32
  mcb : f.mcb = mcbOf g cs
  fileSize : f.fileSize = ⟨cs.length * g.clusterSize, 0⟩
  allocationSize : f.allocationSize = ⟨cs.length * g.clusterSize, 0⟩
  direntFileSize : f.direntFileSize = cs.length * g.clusterSize
  head_ne : L.head ≠ []
  set_ne : L.own .eaSet ≠ []
  offset : q.addedOffsetTableCluster = true ↔ L.own .eaOffset ≠ []
  offset_length : L.own .eaOffset ≠ [] → (L.own .eaOffset).length = 1
  tail : q.tailExists = true ↔ L.own .eaTail ≠ []
  tail_own : L.own .eaTail ≠ [] → L.own .eaOffset = [] ∧ L.own .eaInitialEa = []
  initial : (q.addedOffsetTableCluster = true ∧ q.eaSetVbo ≠ q.eaNewOffsetVbo) ↔
    L.own .eaInitialEa ≠ []
  eaSetVbo : q.eaSetVbo = (L.head.length + (L.own .eaInitialEa).length) * g.clusterSize
  eaNewOffsetVbo : L.own .eaOffset ≠ [] → q.eaNewOffsetVbo = L.head.length * g.clusterSize
  eaSetLength : q.eaSetLength = (L.own .eaSet).length * g.clusterSize
  newAllocation : q.newAllocation = ns.length * g.clusterSize

/-- The lists of a call are what its flags say, and so are the other variables of the unwind. -/
structure Undoable (g : Geometry) (f : EaFcb) (cs ns : List ℕ) (L : Parts) (c : Call) : Prop where
  maps : At g f cs ns c (L.file c.merged c.split) (L.piece c.merged c.split)
  io : c.file.vcb.vol.io = none
  possible : L.Possible c.merged c.split
  emptied : ∀ p, c.merged p = true → c.mcb p = []
  allocated : c.allocatedNewAllocation = true
  eaSetVbo : c.merged .eaSet = true → c.eaSetVbo =
    (L.head.length + (L.own .eaInitialEa).length + (L.own .eaOffset).length) * g.clusterSize
  fileSize : (restoreSizes c).file.fileSize = f.fileSize
  allocationSize : (restoreSizes c).file.allocationSize = f.allocationSize
  direntFileSize : (restoreSizes c).file.direntFileSize = f.direntFileSize

namespace Undoable

variable {g : Geometry} {q : Plan} {f : EaFcb} {cs ns : List ℕ} {L : Parts} {c c0 : Call}

theorem restoreSizes_eq (c : Call) : ∃ file : EaFcb, restoreSizes c = { c with file := file } ∧
    file.vcb = c.file.vcb ∧ file.mcb = c.file.mcb := by
  rw [restoreSizes]
  split
  · exact ⟨_, rfl, rfl, rfl⟩
  · exact ⟨_, rfl, rfl, rfl⟩

/-- The pieces that were merged are cut out again, the last one first. -/
theorem sat_splitBacks (hg : g.Sound) (hq : Fits g q f cs ns L) (h : Undoable g f cs ns L c) :
    Sat (splitBacks g q) (restoreSizes c)
      (fun _ c' => At g f cs ns c' (L.file (fun _ => false) c.split) (L.piece (fun _ => false) c.split) ∧
        c'.file.vcb.vol.io = none ∧ SameFlags (restoreSizes c) c')
      (fun _ _ => False) := by
  have hp := h.possible
  have hS := g.clusterSize_pos
  obtain ⟨file, hrestore, hvcb, hmcb⟩ := restoreSizes_eq c
  have hmaps : At g f cs ns (restoreSizes c) (L.file c.merged c.split) (L.piece c.merged c.split) := by
    have hat := h.maps
    rw [hrestore]
    refine ⟨⟨hmcb.trans hat.file, hat.piece, hat.clusters, hat.room⟩, ?_⟩
    dsimp only
    rw [hvcb]
    exact hat.toKept
  have hnone : (restoreSizes c).file.vcb.vol.io = none := by
    rw [hrestore]
    dsimp only
    rw [hvcb, h.io]
  have hmerged : (restoreSizes c).merged = c.merged := by rw [hrestore]
  have hmcbs : (restoreSizes c).mcb = c.mcb := by rw [hrestore]
  have hroom : (cs.length + ns.length) * g.clusterSize < 2 ^ 32 := by
    have := hq.room
    rw [List.length_append, Nat.add_mul _ 1] at this
    omega
  have hlen : cs.length = L.head.length + ((L.own .eaInitialEa).length + (L.own .eaTail).length) := by
    rw [hq.file, List.length_append, List.length_append]
  have hlen' : ns.length = (L.own .eaSet).length + (L.own .eaOffset).length := by
    rw [hq.new, List.length_append]
  have hcut : ∀ p, p ≠ .eaSet → c.merged p = true → L.cutOff c.split p = L.own p ∧ L.own p ≠ [] := by
    intro p hne hm
    have hsplit := hp.cut p hne hm
    refine ⟨?_, hp.own p hsplit⟩
    cases p with
    | eaSet => exact absurd rfl hne
    | eaOffset => exact if_pos hsplit
    | eaInitialEa => exact if_pos hsplit
    | eaTail => exact if_pos hsplit
  have hcutSet : c.merged .eaSet = true → L.cutOff c.split .eaSet = L.own .eaSet := by
    intro hm
    rw [Parts.cutOff]
    split
    · rfl
    · next hsplit =>
        by_cases ho : L.own .eaOffset = []
        · rw [ho, List.append_nil]
        · exact absurd (hp.cut .eaOffset (by simp) ((hp.set hm).1 ho)) hsplit
  have hvbo : (restoreSizes c).eaSetVbo = c.eaSetVbo := by rw [hrestore]
  rw [splitBacks]
  apply Sat.get_bind
  dsimp only
  rw [hvbo]
  refine Sat.bind (hmaps.sat_splitBack hg hq.nodup hnone (congrFun hmerged _) hq.head_ne fun hm => ?_) ?_
  · obtain ⟨hown, hne⟩ := hcut .eaTail (by simp) hm
    obtain ⟨ho, hi⟩ := hq.tail_own hne
    have hset := hp.tail hm
    refine ⟨hown, hne, (congrFun hmcbs _).trans (h.emptied _ hm),
      Parts.file_eq_append hm (by simp) (by simp) (by simp), ?_⟩
    rw [Parts.length_file, h.eaSetVbo hset, hq.eaSetLength, ulong_of_lt]
    · simp [hset, hp.cut .eaTail (by simp) hm, ho, hi, Nat.add_mul]
    · rw [← Nat.add_mul]
      refine (Nat.mul_le_mul_right _ ?_).trans_lt hroom
      omega
  rintro _ c1 ⟨hat1, hnone1, hflags1, hmcb1⟩
  refine Sat.bind (hat1.sat_splitBack (p := .eaSet) hg hq.nodup hnone1 ?_ hq.head_ne fun hm => ?_) ?_
  · rw [hflags1.merged, hmerged, Function.update_of_ne (by simp)]
  · have hm' : c.merged .eaSet = true := by simpa using hm
    have hbefore := hp.set hm'
    refine ⟨hcutSet hm', hq.set_ne, ?_, Parts.file_eq_append hm (by simp) (by simp) (by simp), ?_⟩
    · rw [hmcb1 _ (by simp), hmcbs, h.emptied _ hm']
    · have hO := (Parts.length_of_flag hbefore.1).1
      have hI := (Parts.length_of_flag hbefore.2.1).1
      have hI' := (Parts.length_of_flag fun hne =>
        hp.cut .eaInitialEa (by simp) (hbefore.2.1 hne)).2
      have hT := (Parts.length_of_flag hbefore.2.2).2
      rw [Parts.length_file, h.eaSetVbo hm']
      simp only [Function.update_self, Function.update_of_ne, ne_eq, reduceCtorEq, not_false_eq_true,
        Bool.false_eq_true, if_false, hO, hI, hI', hT]
      ring
  rintro _ c2 ⟨hat2, hnone2, hflags2, hmcb2⟩
  refine Sat.bind (hat2.sat_splitBack (p := .eaInitialEa) hg hq.nodup hnone2 ?_ hq.head_ne
    fun hm => ?_) ?_
  · rw [hflags2.merged, hflags1.merged, hmerged, Function.update_of_ne (by simp),
      Function.update_of_ne (by simp)]
  · have hm' : c.merged .eaInitialEa = true := by simpa using hm
    have hoffset := hp.initial hm'
    obtain ⟨hown, hne⟩ := hcut .eaInitialEa (by simp) hm'
    have hneO := (hcut .eaOffset (by simp) hoffset).2
    refine ⟨hown, hne, ?_, Parts.file_eq_append hm (by simp) (by simp) (by simp), ?_⟩
    · rw [hmcb2 _ (by simp), hmcb1 _ (by simp), hmcbs, h.emptied _ hm']
    · have hT : (L.own .eaTail) = [] := by
        by_contra hne'
        exact hneO (hq.tail_own hne').1
      have hsum : (L.head.length + 1) * g.clusterSize < 2 ^ 32 := by
        refine (Nat.mul_le_mul_right _ ?_).trans_lt hroom
        have := hq.offset_length hneO
        omega
      rw [Nat.add_mul, Nat.one_mul] at hsum
      rw [Parts.length_file, hq.eaNewOffsetVbo hneO, ulong_of_lt hsum]
      simp only [Function.update_self, Function.update_of_ne, ne_eq, reduceCtorEq, not_false_eq_true,
        Bool.false_eq_true, if_false, if_true, hoffset, hT, hp.cut .eaInitialEa (by simp) hm',
        List.length_nil, ite_self, hq.offset_length hneO]
      ring
  rintro _ c3 ⟨hat3, hnone3, hflags3, hmcb3⟩
  refine (hat3.sat_splitBack (p := .eaOffset) hg hq.nodup hnone3 ?_ hq.head_ne fun hm => ?_).mono ?_
    fun _ _ hE => hE
  · rw [hflags3.merged, hflags2.merged, hflags1.merged, hmerged, Function.update_of_ne (by simp),
      Function.update_of_ne (by simp), Function.update_of_ne (by simp)]
  · have hm' : c.merged .eaOffset = true := by simpa using hm
    obtain ⟨hown, hne⟩ := hcut .eaOffset (by simp) hm'
    refine ⟨hown, hne, ?_, Parts.file_eq_append hm (by simp) (by simp) (by simp), ?_⟩
    · rw [hmcb3 _ (by simp), hmcb2 _ (by simp), hmcb1 _ (by simp), hmcbs, h.emptied _ hm']
    · have hT : (L.own .eaTail) = [] := by
        by_contra hne'
        exact hne (hq.tail_own hne').1
      have hI := (Parts.length_of_flag (hp.offset hm')).2
      rw [Parts.length_file, hq.eaNewOffsetVbo hne]
      simp [hT, hI]
  · rintro _ c4 ⟨hat4, hnone4, hflags4, _⟩
    have hall : Function.update (Function.update (Function.update (Function.update c.merged .eaTail
        false) .eaSet false) .eaInitialEa false) .eaOffset false = fun _ => false := by
      funext p
      cases p <;> simp
    rw [hall] at hat4
    exact ⟨hat4, hnone4, hflags1.trans (hflags2.trans (hflags3.trans hflags4))⟩

/-- What was cut off the file is merged with it again. -/
theorem sat_mergeBacks (hg : g.Sound) (hq : Fits g q f cs ns L) {sp : Piece → Bool}
    (hown : ∀ p, sp p = true → L.own p ≠ []) (hsplit : c.split = sp)
    (hat : At g f cs ns c (L.file (fun _ => false) sp) (L.piece (fun _ => false) sp))
    (hnone : c.file.vcb.vol.io = none) :
    Sat (mergeBacks g) c
      (fun _ c' => ∃ of, At g f cs ns c' cs of ∧ of .eaSet = L.cutOff sp .eaSet ∧
        of .eaOffset = L.cutOff sp .eaOffset ∧ c'.file.vcb.vol.io = none ∧ SameFlags c c')
      (fun _ _ => False) := by
  have hfile : L.file (fun _ => false) sp ≠ [] := by
    rw [Parts.file]
    exact List.append_ne_nil_of_left_ne_nil hq.head_ne _
  refine Sat.bind (hat.sat_mergeBack (p := .eaInitialEa) hg hq.nodup hnone hfile fun hs => ?_) ?_
  · rw [hsplit] at hs
    simpa [Parts.piece, Parts.cutOff, hs] using hown _ hs
  rintro _ c1 ⟨hat1, hnone1, hflags1⟩
  have hsplit1 : c1.split = sp := hflags1.split.trans hsplit
  rw [hsplit] at hat1
  refine (hat1.sat_mergeBack (p := .eaTail) hg hq.nodup hnone1 ?_ fun hs => ?_).mono ?_ fun _ _ hE => hE
  · split
    · exact List.append_ne_nil_of_left_ne_nil hfile _
    · exact hfile
  · rw [hsplit1] at hs
    have hne := hown _ hs
    split <;> simpa [Parts.piece, Parts.cutOff, hs] using hne
  rintro _ c2 ⟨hat2, hnone2, hflags2⟩
  rw [hsplit1] at hat2
  -- a file with a tail has no sets that follow a new cluster of the offset table
  by_cases hI : sp .eaInitialEa = true
  · have hT : L.own .eaTail = [] := by
      by_contra hne
      exact hown _ hI (hq.tail_own hne).2
    have hsT : sp .eaTail = false := by
      by_contra hs
      exact hown .eaTail (by simpa using hs) hT
    simp only [hI, hsT, if_true, Bool.false_eq_true, if_false] at hat2
    have hcs : L.file (fun _ => false) sp ++ L.piece (fun _ => false) sp .eaInitialEa = cs := by
      simp [Parts.file, Parts.piece, Parts.cutOff, hI, hT, hq.file]
    rw [hcs] at hat2
    exact ⟨_, hat2, rfl, rfl, hnone2, hflags1.trans hflags2⟩
  · simp only [hI, Bool.false_eq_true, if_false] at hat2
    by_cases hT : sp .eaTail = true
    · simp only [hT, if_true] at hat2
      have hcs : L.file (fun _ => false) sp ++ L.piece (fun _ => false) sp .eaTail = cs := by
        simp [Parts.file, Parts.piece, Parts.cutOff, hI, hT, hq.file]
      rw [hcs] at hat2
      exact ⟨_, hat2, rfl, rfl, hnone2, hflags1.trans hflags2⟩
    · simp only [hT, Bool.false_eq_true, if_false] at hat2
      have hcs : L.file (fun _ => false) sp = cs := by
        simp [Parts.file, hI, hT, hq.file]
      rw [hcs] at hat2
      exact ⟨_, hat2, rfl, rfl, hnone2, hflags1.trans hflags2⟩

/-- When the file has its clusters again and the new ones are freed, it is left. -/
theorem leavesFile (hq : Fits g q f cs ns L) {of : Piece → List ℕ} (hat : At g f cs ns c cs of)
    (hflags : SameFlags (restoreSizes c0) c) (h : Undoable g f cs ns L c0) {v : Vcb}
    (hbooks : Books g v (zeroSet g f.vcb.vol.fat) 0)
    (hentry : ∀ j, lookupEntry g.width v.vol.fat j =
      if j ∈ ns then 0 else lookupEntry g.width c.file.vcb.vol.fat j) :
    LeavesFile g f (c.setVcb v).file cs where
  chain := by
    refine Threads.leads (hat.threads.congr fun x hx => ?_) hq.chain
    have hns : x ∉ ns := List.disjoint_of_nodup_append hq.nodup hx
    change lookupEntry g.width v.vol.fat x = _
    rw [hentry, if_neg hns]
  mcb := hat.file.trans hq.mcb.symm
  fileSize := hflags.fileSize.trans h.fileSize
  allocationSize := hflags.allocationSize.trans h.allocationSize
  direntFileSize := hflags.direntFileSize.trans h.direntFileSize
  entry := by
    intro x hcs
    change lookupEntry g.width v.vol.fat x = _
    rw [hentry]
    split
    · next hns => rw [(mem_zeroSet.mp (hq.free x hns)).2]
    · next hns => exact hat.entry x hcs hns
  books := hbooks

/-- **The unwind** leaves the file as it was. -/
theorem sat_unwind (hg : g.Sound) (hq : Fits g q f cs ns L) (h : Undoable g f cs ns L c) :
    Sat (unwind g q) c (fun _ c' => LeavesFile g f c'.file cs) (fun _ _ => False) := by
  obtain ⟨file, hrestore, -, -⟩ := restoreSizes_eq c
  have hsplit : (restoreSizes c).split = c.split := by rw [hrestore]
  have hfree : ns.toFinset ⊆ zeroSet g f.vcb.vol.fat := fun x hx =>
    hq.free x (List.mem_toFinset.mp hx)
  have hnew : ns.toFinset = (L.own .eaSet).toFinset ∪ (L.own .eaOffset).toFinset := by
    rw [hq.new, List.toFinset_append]
  have hnodup := hq.nodup
  rw [List.nodup_append', hq.new, List.nodup_append'] at hnodup
  obtain ⟨-, ⟨hndS, hndO, hdisSO⟩, -⟩ := hnodup
  have hclusters : ∀ x ∈ ns, x ∈ g.clusters := fun x hx => hq.clusters x (List.mem_append_right _ hx)
  have hroom : ns.length * g.clusterSize < 2 ^ 32 := by
    have hroom := hq.room
    have hS := g.clusterSize_pos
    rw [List.length_append, Nat.add_mul, Nat.add_mul] at hroom
    omega
  rw [unwind]
  apply Sat.get_bind
  rw [if_pos h.allocated]
  apply Sat.modify_bind
  refine Sat.bind (h.sat_splitBacks hg hq) ?_
  rintro _ c1 ⟨hat1, hnone1, hflags1⟩
  refine Sat.bind (sat_mergeBacks hg hq h.possible.own (hflags1.split.trans hsplit) hat1 hnone1) ?_
  rintro _ c2 ⟨of, hat2, hset, hoffset, hnone2, hflags2⟩
  have hflags := hflags1.trans hflags2
  have hsplit2 : c2.split .eaOffset = c.split .eaOffset := by rw [hflags.split, hsplit]
  rw [freeNew]
  apply Sat.get_bind
  rw [hsplit2]
  by_cases hs : c.split .eaOffset = true
  · have hS : of .eaSet = L.own .eaSet := by rw [hset, Parts.cutOff, if_pos hs]
    have hO : of .eaOffset = L.own .eaOffset := hoffset.trans (if_pos hs)
    have hneO := h.possible.own _ hs
    have hmcbO := hat2.piece .eaOffset (by rwa [hO])
    have hmcbS := hat2.piece .eaSet (by rw [hS]; exact hq.set_ne)
    rw [hO] at hmcbO
    rw [hS] at hmcbS
    have hinS : ∀ x ∈ L.own .eaSet, x ∈ ns := fun x hx => by
      rw [hq.new]
      exact List.mem_append_left _ hx
    have hinO : ∀ x ∈ L.own .eaOffset, x ∈ ns := fun x hx => by
      rw [hq.new]
      exact List.mem_append_right _ hx
    have hroomS : (L.own .eaSet).length * g.clusterSize < 2 ^ 32 := by
      refine (Nat.mul_le_mul_right _ ?_).trans_lt hroom
      rw [hq.new, List.length_append]
      omega
    have hroomO : (L.own .eaOffset).length * g.clusterSize < 2 ^ 32 := by
      refine (Nat.mul_le_mul_right _ ?_).trans_lt hroom
      rw [hq.new, List.length_append]
      omega
    rw [if_pos hs]
    refine Sat.bind (sat_deallocate hg hmcbO (fun x hx => hclusters x (hinO x hx)) hndO hroomO hnone2
      hat2.books ?_) ?_
    · rw [Finset.disjoint_left]
      intro x hx hxO
      exact (Finset.mem_sdiff.mp hx).2 (List.mem_toFinset.mpr (hinO x (List.mem_toFinset.mp hxO)))
    rintro _ c3 ⟨v, hc3, hbooks, hnone3, hentry⟩
    subst hc3
    refine (sat_deallocate (c := c2.setVcb v) hg hmcbS (fun x hx => hclusters x (hinS x hx)) hndS hroomS
      hnone3 hbooks ?_).mono ?_ fun _ _ hE => hE
    · rw [Finset.disjoint_left]
      intro x hx hxS
      have hxS := List.mem_toFinset.mp hxS
      rcases Finset.mem_union.mp hx with hx | hx
      · exact (Finset.mem_sdiff.mp hx).2 (List.mem_toFinset.mpr (hinS x hxS))
      · exact hdisSO hxS (List.mem_toFinset.mp hx)
    rintro _ c4 ⟨v', hc4, hbooks', _, hentry'⟩
    rw [hc4]
    refine leavesFile (c := c2) hq hat2 hflags h ?_ fun j => ?_
    · rwa [Finset.union_assoc, Finset.union_comm (L.own .eaOffset).toFinset, ← hnew,
        Finset.sdiff_union_of_subset hfree] at hbooks'
    · have hsecond : lookupEntry g.width v'.vol.fat j =
          if j ∈ L.own .eaSet then 0 else lookupEntry g.width v.vol.fat j := hentry' j
      rw [hsecond, hentry, hq.new]
      by_cases hjS : j ∈ L.own .eaSet <;> simp [hjS]
  · have hS : of .eaSet = ns := by rw [hset, Parts.cutOff, if_neg hs, hq.new]
    have hne : ns ≠ [] := by
      rw [hq.new]
      exact List.append_ne_nil_of_left_ne_nil hq.set_ne _
    have hmcbS := hat2.piece .eaSet (by rwa [hS])
    rw [hS] at hmcbS
    have hnd : ns.Nodup := by
      rw [hq.new]
      exact List.nodup_append'.mpr ⟨hndS, hndO, hdisSO⟩
    rw [if_neg hs]
    refine (sat_deallocate hg hmcbS hclusters hnd hroom hnone2 hat2.books ?_).mono ?_ fun _ _ hE => hE
    · exact Finset.sdiff_disjoint
    rintro _ c3 ⟨v, hc3, hbooks, _, hentry⟩
    rw [hc3]
    refine leavesFile (c := c2) hq hat2 hflags h ?_ hentry
    rwa [Finset.sdiff_union_of_subset hfree] at hbooks

end Undoable

end KernelDrivers.Fat.AddEaSet
