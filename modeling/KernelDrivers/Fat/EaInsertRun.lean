import KernelDrivers.Fat.EaInsertUndo

/-!
# When a failed insertion is undone

Every step of the body changes the lists and sets its flag, so that what it stops with can be
undone.  The exception is a merge: its flag is set only after the map of the piece was uninitialised
and initialised again, and the second of these can raise.

## Main definitions

* `Stage` — the state of the body between two steps.
* `Stuck` — a piece is in the file and its flag is not set.
* `Failed` — the states in which the body stops.

## Main results

* `sat_body` — where the body stops, and in which state.
-/

namespace KernelDrivers.Fat.AddEaSet

/-! ## The body -/

/-- A call before the sizes are changed: the pieces `sp` were cut off and the pieces `m` were
merged, and the maps `ini` were initialised. -/
structure Stage (g : Geometry) (q : Plan) (f : EaFcb) (cs ns : List ℕ) (L : Parts)
    (m sp ini : Piece → Bool) (vbo : ℕ) (c : Call) : Prop where
  maps : At g f cs ns c (L.file m sp) (L.piece m sp)
  io : c.file.vcb.vol.io = none
  merged : c.merged = m
  split : c.split = sp
  initialized : c.initialized = ini
  emptied : ∀ p, m p = true → c.mcb p = []
  allocated : c.allocatedNewAllocation = true
  eaSetVbo : c.eaSetVbo = vbo
  newAllocation : c.newAllocation = q.newAllocation
  fileSize : c.file.fileSize = f.fileSize
  allocationSize : c.file.allocationSize = f.allocationSize
  direntFileSize : c.file.direntFileSize = f.direntFileSize
  unwindPrevFileSize : c.unwindPrevFileSize = 0

section Body

variable {g : Geometry} {q : Plan} {f : EaFcb} {cs ns : List ℕ} {L : Parts} {c : Call}
  {m sp ini : Piece → Bool} {vbo : ℕ} {s : Surroundings} {p : Piece}

/-- The flags that occur, and where the new set begins once it is merged. -/
def Reached (g : Geometry) (L : Parts) (m sp : Piece → Bool) (vbo : ℕ) : Prop :=
  L.Possible m sp ∧ (m .eaSet = true → vbo =
    (L.head.length + (L.own .eaInitialEa).length + (L.own .eaOffset).length) * g.clusterSize)

theorem Stage.undoable (h : Stage g q f cs ns L m sp ini vbo c) (hr : Reached g L m sp vbo) :
    Undoable g f cs ns L c := by
  have hrestore : restoreSizes c = c := by
    rw [restoreSizes, if_neg]
    exact fun hne => hne h.unwindPrevFileSize
  refine ⟨?_, h.io, ?_, ?_, h.allocated, ?_, ?_, ?_, ?_⟩
  · rw [h.merged, h.split]
    exact h.maps
  · rw [h.merged, h.split]
    exact hr.1
  · rw [h.merged]
    exact h.emptied
  · rw [h.merged, h.eaSetVbo]
    exact hr.2
  · rw [hrestore, h.fileSize]
  · rw [hrestore, h.allocationSize]
  · rw [hrestore, h.direntFileSize]

/-- A call that may raise does when it is told to. -/
theorem sat_may {pt : Point} : Sat (may s pt) c (fun _ c' => s.point ≠ pt ∧ c' = c)
    (fun _ c' => s.point = pt ∧ c' = c) := by
  rw [may, failIf]
  by_cases h : s.point = pt
  · rw [if_pos (by simpa using h)]
    exact Sat.throw ⟨h, rfl⟩
  · rw [if_neg (by simpa using h)]
    exact Sat.pure ⟨h, rfl⟩

/-- A routine with a fault at its next access to the FAT, or without one. -/
theorem sat_mayFault {pt : Point} {x : EStateM Stop Call Unit} {Q : Unit → Call → Prop}
    {E : Stop → Call → Prop} (hok : s.point ≠ pt → Sat x c Q E)
    (hfault : s.point = pt → Sat x (c.setVcb (c.file.vcb.withFault (some 0))) Q E) :
    Sat (mayFault s pt x) c Q E := by
  rw [mayFault]
  by_cases h : s.point = pt
  · rw [if_pos h]
    exact Sat.modify_bind (hfault h)
  · rw [if_neg h]
    exact hok h

/-- The state in which a merged map could not be initialised again: the piece is in the file, and
its flag is not set. -/
structure Stuck (g : Geometry) (f : EaFcb) (cs ns : List ℕ) (L : Parts) (s : Surroundings)
    (p : Piece) (m sp : Piece → Bool) (vbo : ℕ) (c : Call) : Prop where
  maps : At g f cs ns c (L.file (Function.update m p true) sp) (L.piece (Function.update m p true) sp)
  io : c.file.vcb.vol.io = none
  merged : c.merged = m
  split : c.split = sp
  emptied : ∀ p, m p = true → c.mcb p = []
  uninitialized : c.mcb p = s.uninitialized
  allocated : c.allocatedNewAllocation = true
  eaSetVbo : c.eaSetVbo = vbo

namespace Stage

/-- A map is initialised. -/
theorem sat_initMcb (h : Stage g q f cs ns L m sp ini vbo c) (hp : L.piece m sp p = []) :
    Sat (initMcb s p) c
      (fun _ c' => Stage g q f cs ns L m sp (Function.update ini p true) vbo c' ∧ c'.mcb p = [])
      (fun _ c' => s.point = .initMcb p ∧ Stage g q f cs ns L m sp ini vbo c') := by
  rw [initMcb]
  refine Sat.bind (sat_may.mono (fun _ _ h => h) fun _ c' ⟨hpt, hc'⟩ => ?_) ?_
  · subst hc'
    exact ⟨hpt, h⟩
  rintro _ c' ⟨_, hc'⟩
  subst hc'
  refine Sat.modify ⟨⟨h.maps.congr rfl fun p' hp' => ?_, h.io, h.merged, h.split, ?_, fun p' hp' => ?_,
    h.allocated, h.eaSetVbo, h.newAllocation, h.fileSize, h.allocationSize, h.direntFileSize,
    h.unwindPrevFileSize⟩, Function.update_self _ _ _⟩
  · have hne : p' ≠ p := fun heq => hp' (heq ▸ hp)
    exact Function.update_of_ne hne _ _
  · rw [h.initialized]
  · dsimp only
    by_cases heq : p' = p
    · rw [heq, Function.update_self]
    · rw [Function.update_of_ne heq, h.emptied p' hp']

variable (hg : g.Sound) (hnodup : (cs ++ ns).Nodup)

include hg hnodup

/-- The file is cut in front of a piece. -/
theorem sat_splitFile {as : List ℕ} (h : Stage g q f cs ns L m sp ini vbo c) (hm : m p = false)
    (hmcb : c.mcb p = []) (hof : L.piece m sp p = []) (hfile : L.file m sp = as ++ L.own p)
    (has : as ≠ []) (hne : L.own p ≠ []) (hfile' : L.file m (Function.update sp p true) = as)
    (hpiece : Function.update (L.piece m sp) p (L.own p) = L.piece m (Function.update sp p true)) :
    Sat (splitFile g s p (as.length * g.clusterSize)) c
      (fun _ c' => Stage g q f cs ns L m (Function.update sp p true) ini vbo c')
      (fun _ c' => s.point = .split p ∧ Stage g q f cs ns L m sp ini vbo c') := by
  have hat := h.maps
  rw [hfile] at hat
  have hempty : ∀ (r : McbPair) p', m p' = true → (c.setPair p r).mcb p' = [] := by
    intro r p' hp'
    have hne' : p' ≠ p := by
      rintro rfl
      rw [hm] at hp'
      simp at hp'
    exact (Function.update_of_ne hne' _ _).trans (h.emptied p' hp')
  rw [splitFile]
  refine Sat.bind (R := fun _ c' => At g f cs ns c' as (Function.update (L.piece m sp) p (L.own p)) ∧
      c'.file.vcb.vol.io = none ∧ ∃ r, c' = c.setPair p r)
    (sat_mayFault (fun _ => ?_) fun hpt => ?_) ?_
  · refine (hat.sat_split hg hnodup hof hmcb has hne).mono ?_ ?_
    · rintro _ c' ⟨_, hat', hio, hr⟩
      exact ⟨hat', hio h.io, hr⟩
    · rintro _ c' ⟨hio, _⟩
      rw [h.io] at hio
      simp at hio
  · refine ((hat.setFault (some 0)).sat_split hg hnodup hof hmcb has hne).mono ?_ ?_
    · rintro _ c' ⟨hio, _⟩
      exact absurd rfl hio
    · rintro _ c' ⟨_, hat', hio, r, hc'⟩
      rw [← hfile] at hat'
      rw [hc'] at hat' hio ⊢
      exact ⟨hpt, hat', hio, h.merged, h.split, h.initialized, hempty r, h.allocated, h.eaSetVbo,
        h.newAllocation, h.fileSize, h.allocationSize, h.direntFileSize, h.unwindPrevFileSize⟩
  · rintro _ c' ⟨hat', hio, r, hc'⟩
    rw [hpiece, ← hfile'] at hat'
    rw [hc'] at hat' hio ⊢
    refine Sat.modify ⟨hat'.congr rfl fun _ _ => rfl, hio, h.merged, ?_, h.initialized, hempty r,
      h.allocated, h.eaSetVbo, h.newAllocation, h.fileSize, h.allocationSize, h.direntFileSize,
      h.unwindPrevFileSize⟩
    exact congrArg (fun sp => Function.update sp p true) h.split

/-- A piece is merged, and its map is initialised again. -/
theorem sat_mergeFile (h : Stage g q f cs ns L m sp ini vbo c) (hm : m p = false)
    (hof : L.cutOff sp p = L.own p) (hne : L.own p ≠ []) (hhead : L.head ≠ [])
    (hfile : L.file (Function.update m p true) sp = L.file m sp ++ L.own p) :
    Sat (mergeFile g s p) c
      (fun _ c' => s.point ≠ .reinitMcb p ∧
        Stage g q f cs ns L (Function.update m p true) sp ini vbo c')
      (fun _ c' => (s.point = .merge p ∧ Stage g q f cs ns L m sp ini vbo c') ∨
        (s.point = .reinitMcb p ∧ Stuck g f cs ns L s p m sp vbo c')) := by
  have hat := h.maps
  have hpiece : L.piece m sp p = L.own p := by
    rw [Parts.piece, hm]
    exact hof
  have hxs : L.file m sp ≠ [] := by
    rw [Parts.file]
    exact List.append_ne_nil_of_left_ne_nil hhead _
  have hpieces : Function.update (L.piece m sp) p [] = L.piece (Function.update m p true) sp := by
    funext p'
    by_cases heq : p' = p
    · rw [heq, Function.update_self, Parts.piece, Function.update_self, if_pos rfl]
    · rw [Function.update_of_ne heq, Parts.piece, Parts.piece, Function.update_of_ne heq]
  have hother : ∀ p', m p' = true → p' ≠ p := by
    rintro p' hp' rfl
    rw [hm] at hp'
    simp at hp'
  have hempty : ∀ (r : McbPair) p', m p' = true → (c.setPair p r).mcb p' = [] := fun r p' hp' =>
    (Function.update_of_ne (hother p' hp') _ _).trans (h.emptied p' hp')
  rw [mergeFile]
  refine Sat.bind (R := fun _ c' => At g f cs ns c' (L.file (Function.update m p true) sp)
      (L.piece (Function.update m p true) sp) ∧ c'.file.vcb.vol.io = none ∧ ∃ r, c' = c.setPair p r)
    (sat_mayFault (fun _ => ?_) fun hpt => ?_) ?_
  · refine (hat.sat_merge hg hnodup hxs (by rwa [hpiece])).mono ?_ ?_
    · rintro _ c' ⟨_, hat', hio, hr⟩
      rw [hpieces, hpiece, ← hfile] at hat'
      exact ⟨hat', hio h.io, hr⟩
    · rintro _ c' ⟨hio, _⟩
      rw [h.io] at hio
      simp at hio
  · refine ((hat.setFault (some 0)).sat_merge hg hnodup hxs (by rwa [hpiece])).mono ?_ ?_
    · rintro _ c' ⟨hio, _⟩
      exact absurd rfl hio
    · rintro _ c' ⟨_, hat', hio, r, hc'⟩
      rw [hc'] at hat' hio ⊢
      exact Or.inl ⟨hpt, hat', hio, h.merged, h.split, h.initialized, hempty r, h.allocated, h.eaSetVbo,
        h.newAllocation, h.fileSize, h.allocationSize, h.direntFileSize, h.unwindPrevFileSize⟩
  · rintro _ c' ⟨hat', hio, r, hc'⟩
    subst hc'
    have hcount : ∀ p', L.piece (Function.update m p true) sp p' ≠ [] → p' ≠ p := by
      rintro p' hp' rfl
      rw [Parts.piece, Function.update_self, if_pos rfl] at hp'
      exact hp' rfl
    apply Sat.modify_bind
    refine Sat.bind (sat_may.mono (fun _ _ h => h) ?_) ?_
    · rintro _ c2 ⟨hpt, hc2⟩
      subst hc2
      refine Or.inr ⟨hpt, hat'.congr rfl fun p' hp' => Function.update_of_ne (hcount p' hp') _ _, hio,
        h.merged, h.split, fun p' hp' => ?_, Function.update_self _ _ _, h.allocated, h.eaSetVbo⟩
      exact (Function.update_of_ne (hother p' hp') _ _).trans (hempty r p' hp')
    · rintro _ c2 ⟨hpt, hc2⟩
      subst hc2
      refine Sat.modify ⟨hpt, hat'.congr rfl fun p' hp' => ?_, hio, ?_, h.split, h.initialized,
        fun p' hp' => ?_, h.allocated, h.eaSetVbo, h.newAllocation, h.fileSize, h.allocationSize,
        h.direntFileSize, h.unwindPrevFileSize⟩
      · exact (Function.update_of_ne (hcount p' hp') _ _).trans
          (Function.update_of_ne (hcount p' hp') _ _)
      · exact congrArg (fun m => Function.update m p true) h.merged
      · dsimp only
        by_cases heq : p' = p
        · rw [heq, Function.update_self]
        · rw [Function.update_of_ne heq] at hp'
          rw [Function.update_of_ne heq, Function.update_of_ne heq]
          exact hempty r p' hp'

/-- The cluster of the offset table is cut off the new allocation. -/
theorem sat_splitNewAllocation (hq : Fits g q f cs ns L) (hne : L.own .eaOffset ≠ [])
    (h : Stage g q f cs ns L (fun _ => false) sp ini vbo c) (hsp : sp .eaOffset = false)
    (hmcb : c.mcb .eaOffset = []) :
    Sat (splitNewAllocation g q s) c
      (fun _ c' => Stage g q f cs ns L (fun _ => false) (Function.update sp .eaOffset true) ini vbo c')
      (fun _ c' => s.point = .splitNewAllocation ∧
        Stage g q f cs ns L (fun _ => false) sp ini vbo c') := by
  have hset : L.piece (fun _ => false) sp .eaSet = L.own .eaSet ++ L.own .eaOffset := by
    simp [Parts.piece, Parts.cutOff, hsp]
  have hoffset : L.piece (fun _ => false) sp .eaOffset = [] := by
    simp [Parts.piece, Parts.cutOff, hsp]
  have hfile : L.file (fun _ => false) (Function.update sp .eaOffset true) =
      L.file (fun _ => false) sp := by simp [Parts.file]
  have hpiece : Function.update (Function.update (L.piece (fun _ => false) sp) .eaSet (L.own .eaSet))
      .eaOffset (L.own .eaOffset) =
        L.piece (fun _ => false) (Function.update sp .eaOffset true) := by
    funext p
    cases p <;> simp [Parts.piece, Parts.cutOff]
  have hat := h.maps
  rw [splitNewAllocation, hq.eaSetLength]
  refine Sat.bind (R := fun _ c' => At g f cs ns c' (L.file (fun _ => false) sp)
      (L.piece (fun _ => false) (Function.update sp .eaOffset true)) ∧
      c'.file.vcb.vol.io = none ∧ ∃ r, c' = c.setNewPair r)
    (sat_mayFault (fun _ => ?_) fun hpt => ?_) ?_
  · refine (hat.sat_splitNew hg hnodup hset hoffset hmcb hq.set_ne hne).mono ?_ ?_
    · rintro _ c' ⟨_, hat', hio, hr⟩
      rw [hpiece] at hat'
      exact ⟨hat', hio h.io, hr⟩
    · rintro _ c' ⟨hio, _⟩
      rw [h.io] at hio
      simp at hio
  · refine ((hat.setFault (some 0)).sat_splitNew hg hnodup hset hoffset hmcb hq.set_ne hne).mono ?_ ?_
    · rintro _ c' ⟨hio, _⟩
      exact absurd rfl hio
    · rintro _ c' ⟨_, hat', hio, r, hc'⟩
      rw [hc'] at hat' hio ⊢
      exact ⟨hpt, hat', hio, h.merged, h.split, h.initialized, fun _ hp => absurd hp (by simp),
        h.allocated, h.eaSetVbo, h.newAllocation, h.fileSize, h.allocationSize, h.direntFileSize,
        h.unwindPrevFileSize⟩
  · rintro _ c' ⟨hat', hio, r, hc'⟩
    rw [← hfile] at hat'
    rw [hc'] at hat' hio ⊢
    refine Sat.modify ⟨hat'.congr rfl fun _ _ => rfl, hio, h.merged, ?_, h.initialized,
      fun _ hp => absurd hp (by simp), h.allocated, h.eaSetVbo, h.newAllocation, h.fileSize,
      h.allocationSize, h.direntFileSize, h.unwindPrevFileSize⟩
    exact congrArg (fun sp => Function.update sp .eaOffset true) h.split

end Stage

theorem possible_mergedBefore (hq : Fits g q f cs ns L) (p : Piece) :
    L.Possible (L.mergedBefore p) L.cuts := by
  have hO : L.own .eaOffset = [] → L.own .eaInitialEa = [] := by
    intro hO
    by_contra hI
    exact hq.offset.mp (hq.initial.mpr hI).1 hO
  refine ⟨fun p' hp' hm => ?_, fun p' hp' => ?_, fun _ hI => ?_, fun hm => ?_, fun hm => ?_, fun hm => ?_⟩
  · cases p <;> cases p' <;> simp_all [Parts.mergedBefore]
  · cases p' with
    | eaSet => simp [Parts.cuts] at hp'
    | eaOffset => exact (Parts.cuts_iff (by simp)).mp hp'
    | eaInitialEa => exact (Parts.cuts_iff (by simp)).mp hp'
    | eaTail => exact (Parts.cuts_iff (by simp)).mp hp'
  · exact (Parts.cuts_iff (by simp)).mpr hI
  · cases p <;> simp_all [Parts.mergedBefore, Parts.cuts]
  · cases p <;> simp_all [Parts.mergedBefore, Parts.cuts]
  · cases p <;> simp_all [Parts.mergedBefore]

/-- Before the merges nothing is merged. -/
theorem reached_none (hown : ∀ p, sp p = true → L.own p ≠ []) : Reached g L (fun _ => false) sp vbo := by
  refine ⟨⟨?_, hown, ?_, ?_, ?_, ?_⟩, ?_⟩ <;> simp

/-- Where the body stops: it can be undone, or a map could not be initialised again. -/
def Failed (g : Geometry) (q : Plan) (f : EaFcb) (cs ns : List ℕ) (L : Parts) (s : Surroundings)
    (c : Call) : Prop :=
  (¬ q.Reinitializes s.point ∧ Undoable g f cs ns L c) ∨
    ∃ p vbo, s.point = .reinitMcb p ∧ L.own p ≠ [] ∧ Reached g L (L.mergedBefore p) L.cuts vbo ∧
      Stuck g f cs ns L s p (L.mergedBefore p) L.cuts vbo c

/-- Only pieces that exist are initialised again. -/
theorem Fits.reinitializes_iff (hq : Fits g q f cs ns L) {pt : Point} :
    q.Reinitializes pt ↔ ∃ p, pt = .reinitMcb p ∧ L.own p ≠ [] := by
  have hset := hq.set_ne
  have hoffset := hq.offset
  have htail := hq.tail
  have hinitial := hq.initial
  constructor
  · rintro (h | ⟨h, ht⟩ | ⟨h, ho⟩ | ⟨h, hi⟩)
    · exact ⟨_, h, hset⟩
    · exact ⟨_, h, htail.mp ht⟩
    · exact ⟨_, h, hoffset.mp ho⟩
    · exact ⟨_, h, hinitial.mp hi⟩
  · rintro ⟨p, h, hne⟩
    cases p with
    | eaSet => exact Or.inl h
    | eaOffset => exact Or.inr (Or.inr (Or.inl ⟨h, hoffset.mpr hne⟩))
    | eaInitialEa => exact Or.inr (Or.inr (Or.inr ⟨h, hinitial.mpr hne⟩))
    | eaTail => exact Or.inr (Or.inl ⟨h, htail.mpr hne⟩)

theorem Fits.not_reinitializes (hq : Fits g q f cs ns L) {pt : Point} (h : ∀ p, pt ≠ .reinitMcb p) :
    ¬ q.Reinitializes pt := by
  rw [hq.reinitializes_iff]
  exact fun ⟨p, hp, _⟩ => h p hp

namespace Stage

/-- A piece of the file is cut off when there is one. -/
theorem sat_splitOff (hg : g.Sound) (hq : Fits g q f cs ns L) {present : Bool} {at_ : ℕ}
    (hpresent : present = L.cuts p) (hp : p = .eaTail ∨ p = .eaInitialEa)
    (hown : ∀ p, sp p = true → L.own p ≠ []) (h : Stage g q f cs ns L (fun _ => false) sp ini vbo c)
    (hsp : sp p = false) (hini : ini p = false)
    (hfile : L.own p ≠ [] → L.file (fun _ => false) sp =
      L.file (fun _ => false) (Function.update sp p true) ++ L.own p)
    (hat : L.own p ≠ [] → at_ =
      (L.file (fun _ => false) (Function.update sp p true)).length * g.clusterSize) :
    Sat (splitOff g s present p at_) c
      (fun _ c' => Stage g q f cs ns L (fun _ => false) (Function.update sp p (L.cuts p))
        (Function.update ini p (L.cuts p)) vbo c')
      (fun _ c' => Failed g q f cs ns L s c') := by
  have hne' : p ≠ .eaSet := by
    rintro rfl
    simp at hp
  have hund : ∀ {ini c'}, Stage g q f cs ns L (fun _ => false) sp ini vbo c' →
      Undoable g f cs ns L c' := fun h => h.undoable (reached_none hown)
  rw [splitOff, hpresent]
  by_cases hcut : L.cuts p = true
  · have hne := (Parts.cuts_iff hne').mp hcut
    have hof : L.piece (fun _ => false) sp p = [] := by
      rcases hp with rfl | rfl <;> simp [Parts.piece, Parts.cutOff, hsp]
    have hpiece : Function.update (L.piece (fun _ => false) sp) p (L.own p) =
        L.piece (fun _ => false) (Function.update sp p true) := by
      funext p'
      rcases hp with rfl | rfl <;> cases p' <;> simp [Parts.piece, Parts.cutOff]
    have hhead : L.file (fun _ => false) (Function.update sp p true) ≠ [] := by
      rw [Parts.file]
      exact List.append_ne_nil_of_left_ne_nil hq.head_ne _
    rw [if_pos hcut, hcut, hat hne]
    refine Sat.bind ((h.sat_initMcb hof).mono (fun _ _ h => h) ?_) ?_
    · rintro _ c' ⟨hpt, hc'⟩
      exact Or.inl ⟨hq.not_reinitializes (by simp [hpt]), hund hc'⟩
    rintro _ c1 ⟨h1, hmcb⟩
    refine (h1.sat_splitFile hg hq.nodup rfl hmcb hof (hfile hne) hhead hne rfl hpiece).mono
      (fun _ _ h => h) ?_
    rintro _ c' ⟨hpt, hc'⟩
    exact Or.inl ⟨hq.not_reinitializes (by simp [hpt]), hund hc'⟩
  · have hsame : Function.update sp p false = sp := by rw [← hsp, Function.update_eq_self]
    have hsame' : Function.update ini p false = ini := by rw [← hini, Function.update_eq_self]
    rw [Bool.eq_false_iff.mpr hcut, if_neg (by simp), hsame, hsame']
    exact Sat.pure h

/-- The cluster of the offset table is cut off when there is one. -/
theorem sat_splitOffOffset (hg : g.Sound) (hq : Fits g q f cs ns L)
    (h : Stage g q f cs ns L (fun _ => false) (fun _ => false) ini vbo c)
    (hini : ini .eaOffset = false) :
    Sat (splitOffOffset g q s) c
      (fun _ c' => Stage g q f cs ns L (fun _ => false)
        (Function.update (fun _ => false) .eaOffset (L.cuts .eaOffset))
        (Function.update ini .eaOffset (L.cuts .eaOffset)) vbo c')
      (fun _ c' => Failed g q f cs ns L s c') := by
  have hund : ∀ {ini c'}, Stage g q f cs ns L (fun _ => false) (fun _ => false) ini vbo c' →
      Undoable g f cs ns L c' := fun h => h.undoable (reached_none (by simp))
  rw [splitOffOffset]
  by_cases hadded : q.addedOffsetTableCluster = true
  · have hne := hq.offset.mp hadded
    have hcut : L.cuts .eaOffset = true := (Parts.cuts_iff (by simp)).mpr hne
    have hof : L.piece (fun _ => false) (fun _ => false) .eaOffset = [] := rfl
    rw [if_pos hadded, hcut]
    refine Sat.bind ((h.sat_initMcb hof).mono (fun _ _ h => h) ?_) ?_
    · rintro _ c' ⟨hpt, hc'⟩
      exact Or.inl ⟨hq.not_reinitializes (by simp [hpt]), hund hc'⟩
    rintro _ c1 ⟨h1, hmcb⟩
    refine (sat_splitNewAllocation hg hq.nodup hq hne h1 rfl hmcb).mono (fun _ _ h => h) ?_
    rintro _ c' ⟨hpt, hc'⟩
    exact Or.inl ⟨hq.not_reinitializes (by simp [hpt]), hund hc'⟩
  · have hcut : L.cuts .eaOffset = false := by
      rw [Bool.eq_false_iff, Ne, Parts.cuts_iff (by simp), ← hq.offset]
      exact hadded
    have hsame : Function.update (fun _ : Piece => false) .eaOffset false = fun _ => false :=
      Function.update_eq_self _ _
    have hsame' : Function.update ini .eaOffset false = ini := by rw [← hini, Function.update_eq_self]
    rw [if_neg hadded, hcut, hsame, hsame']
    exact Sat.pure h

/-- A piece is merged when there is one. -/
theorem sat_mergeIf (hg : g.Sound) (hq : Fits g q f cs ns L) (hp : p ≠ .eaSet)
    {present : Call → Bool} (hpresent : present c = L.cuts p)
    (h : Stage g q f cs ns L (L.mergedBefore p) L.cuts ini vbo c)
    (hr : Reached g L (L.mergedBefore p) L.cuts vbo) :
    Sat (mergeIf g s present p) c
      (fun _ c' => (L.own p ≠ [] → s.point ≠ .reinitMcb p) ∧ Stage g q f cs ns L
        (Function.update (L.mergedBefore p) p (L.cuts p)) L.cuts ini vbo c')
      (fun _ c' => Failed g q f cs ns L s c') := by
  rw [mergeIf]
  apply Sat.get_bind
  rw [hpresent]
  by_cases hcut : L.cuts p = true
  · have hne := (Parts.cuts_iff hp).mp hcut
    rw [if_pos hcut, hcut]
    refine (h.sat_mergeFile hg hq.nodup (Parts.mergedBefore_self p) (Parts.cutOff_cuts hp) hne hq.head_ne
      (Parts.file_merge p)).mono (fun _ _ h => ⟨fun _ => h.1, h.2⟩) fun _ c' hE => ?_
    rcases hE with ⟨hpt, hc'⟩ | ⟨hpt, hc'⟩
    · exact Or.inl ⟨hq.not_reinitializes (by simp [hpt]), hc'.undoable hr⟩
    · exact Or.inr ⟨p, vbo, hpt, hne, hr, hc'⟩
  · have hne : ¬ L.own p ≠ [] := fun hne => hcut ((Parts.cuts_iff hp).mpr hne)
    have hsame : Function.update (L.mergedBefore p) p false = L.mergedBefore p := by
      rw [← Parts.mergedBefore_self p, Function.update_eq_self]
    rw [if_neg hcut, Bool.eq_false_iff.mpr hcut, hsame]
    exact Sat.pure ⟨fun h => absurd h hne, h⟩

/-- **The cuts.** -/
theorem sat_cutApart (hg : g.Sound) (hq : Fits g q f cs ns L)
    (h : Stage g q f cs ns L (fun _ => false) (fun _ => false) ini vbo c)
    (hini : ∀ p, p ≠ .eaSet → ini p = false) :
    Sat (cutApart g q s) c
      (fun _ c' => ∃ ini, Stage g q f cs ns L (fun _ => false) L.cuts ini vbo c' ∧
        ini .eaInitialEa = L.cuts .eaInitialEa ∧ ini .eaTail = L.cuts .eaTail)
      (fun _ c' => Failed g q f cs ns L s c') := by
  have hown1 : ∀ p, Function.update (fun _ => false) .eaOffset (L.cuts .eaOffset) p = true →
      L.own p ≠ [] := by
    intro p hp
    cases p with
    | eaOffset => exact (Parts.cuts_iff (by simp)).mp (by simpa using hp)
    | eaSet => simp at hp
    | eaInitialEa => simp at hp
    | eaTail => simp at hp
  have hown2 : ∀ p, Function.update (Function.update (fun _ => false) .eaOffset (L.cuts .eaOffset))
      .eaTail (L.cuts .eaTail) p = true → L.own p ≠ [] := by
    intro p hp
    cases p with
    | eaOffset => exact (Parts.cuts_iff (by simp)).mp (by simpa using hp)
    | eaSet => simp at hp
    | eaInitialEa => simp at hp
    | eaTail => exact (Parts.cuts_iff (by simp)).mp (by simpa using hp)
  have htail : q.tailExists = L.cuts .eaTail := by
    rw [Bool.eq_iff_iff, hq.tail, Parts.cuts_iff (by simp)]
  have hinitial : (q.addedOffsetTableCluster && q.eaSetVbo != q.eaNewOffsetVbo) =
      L.cuts .eaInitialEa := by
    rw [Bool.eq_iff_iff, Parts.cuts_iff (by simp), ← hq.initial]
    simp
  rw [cutApart]
  refine Sat.bind (sat_splitOffOffset hg hq h (hini _ (by simp))) ?_
  intro _ c1 h1
  refine Sat.bind (sat_may.mono (fun _ _ h => h) fun _ c' ⟨hpt, hc'⟩ => ?_) ?_
  · rw [hc']
    exact Or.inl ⟨hq.not_reinitializes (by simp [hpt]), h1.undoable (reached_none hown1)⟩
  rintro _ c1' ⟨_, hc1⟩
  subst hc1
  refine Sat.bind (sat_splitOff hg hq htail (Or.inl rfl) hown1 h1 (by simp) ?_ (fun hne => ?_)
    fun hne => ?_) ?_
  · simp [hini]
  · simp [Parts.file, (hq.tail_own hne).2]
  · rw [hq.eaSetVbo, Parts.length_file]
    simp [(hq.tail_own hne).2]
  intro _ c2 h2
  refine (sat_splitOff hg hq hinitial (Or.inr rfl) hown2 h2 (by simp) ?_ (fun hne => ?_)
    fun hne => ?_).mono ?_ fun _ _ hE => hE
  · simp [hini]
  · have hT : L.own .eaTail = [] := by
      by_contra hT
      exact hne (hq.tail_own hT).2
    simp [Parts.file, hT]
  · have hT : L.own .eaTail = [] := by
      by_contra hT
      exact hne (hq.tail_own hT).2
    have hO := hq.offset.mp (hq.initial.mpr hne).1
    rw [hq.eaNewOffsetVbo hO, Parts.length_file]
    simp [hT]
  · intro _ c3 h3
    have hall : Function.update (Function.update (Function.update (fun _ => false) .eaOffset
        (L.cuts .eaOffset)) .eaTail (L.cuts .eaTail)) .eaInitialEa (L.cuts .eaInitialEa) = L.cuts := by
      funext p
      cases p <;> simp [Parts.cuts]
    rw [hall] at h3
    exact ⟨_, h3, by simp, by simp⟩

/-- **The merges.** -/
theorem sat_pasteTogether (hg : g.Sound) (hq : Fits g q f cs ns L)
    (h : Stage g q f cs ns L (fun _ => false) L.cuts ini q.eaSetVbo c)
    (hinitial : ini .eaInitialEa = L.cuts .eaInitialEa) (htail : ini .eaTail = L.cuts .eaTail) :
    Sat (pasteTogether g q s) c
      (fun _ c' => ¬ q.Reinitializes s.point ∧ ∃ vbo,
        Stage g q f cs ns L (Function.update (L.mergedBefore .eaTail) .eaTail (L.cuts .eaTail)) L.cuts ini
          vbo c' ∧ vbo = (L.head.length + (L.own .eaInitialEa).length + (L.own .eaOffset).length) *
            g.clusterSize)
      (fun _ c' => Failed g q f cs ns L s c') := by
  have hadded : q.addedOffsetTableCluster = L.cuts .eaOffset := by
    rw [Bool.eq_iff_iff, hq.offset, Parts.cuts_iff (by simp)]
  have hreach : ∀ {p vbo}, p ≠ .eaTail → Reached g L (L.mergedBefore p) L.cuts vbo := by
    intro p vbo hp
    refine ⟨possible_mergedBefore hq p, fun hm => ?_⟩
    cases p <;> simp [Parts.mergedBefore] at hm hp
  rw [pasteTogether]
  refine Sat.bind (sat_mergeIf hg hq (by simp) hadded h (hreach (by simp))) ?_
  rintro _ c1 ⟨hpt1, h1⟩
  have hini1 : c1.initialized .eaInitialEa = L.cuts .eaInitialEa := by rw [h1.initialized, hinitial]
  refine Sat.bind (sat_mergeIf (p := .eaInitialEa) hg hq (by simp) hini1 h1 (hreach (by simp))) ?_
  rintro _ c2 ⟨hpt2, h2⟩
  apply Sat.modify_bind
  have hmove : Stage g q f cs ns L (L.mergedBefore .eaSet) L.cuts ini
      ((L.head.length + (L.own .eaInitialEa).length + (L.own .eaOffset).length) * g.clusterSize)
      (moveSet g q c2) := by
    rw [moveSet]
    split
    · next hq' =>
        have hO := hq.offset.mp hq'
        have hroom := hq.room
        have hS := g.clusterSize_pos
        have hlen : cs.length = L.head.length + ((L.own .eaInitialEa).length + (L.own .eaTail).length) := by
          rw [hq.file, List.length_append, List.length_append]
        have hlt : (L.head.length + (L.own .eaInitialEa).length) * g.clusterSize + g.clusterSize < 2 ^ 32 := by
          have hset := List.length_pos_of_ne_nil hq.set_ne
          have hle : L.head.length + (L.own .eaInitialEa).length + 2 ≤ (cs ++ ns).length + 1 := by
            rw [List.length_append, hq.new, List.length_append, hlen]
            omega
          have hmul := (Nat.mul_le_mul_right g.clusterSize hle).trans hroom
          rw [Nat.add_mul _ 2] at hmul
          omega
        refine ⟨h2.maps.congr rfl fun _ _ => rfl, h2.io, h2.merged, h2.split, h2.initialized, h2.emptied,
          h2.allocated, ?_, h2.newAllocation, h2.fileSize, h2.allocationSize, h2.direntFileSize,
          h2.unwindPrevFileSize⟩
        dsimp only
        rw [h2.eaSetVbo, hq.eaSetVbo, ulong_of_lt hlt, hq.offset_length hO, Nat.add_mul _ 1, Nat.one_mul]
    · next hq' =>
        have hO : L.own .eaOffset = [] := by
          by_contra hO
          exact hq' (hq.offset.mpr hO)
        have hvbo := h2.eaSetVbo
        rw [hq.eaSetVbo] at hvbo
        refine ⟨h2.maps, h2.io, h2.merged, h2.split, h2.initialized, h2.emptied, h2.allocated, ?_,
          h2.newAllocation, h2.fileSize, h2.allocationSize, h2.direntFileSize, h2.unwindPrevFileSize⟩
        rw [hvbo, hO, List.length_nil, Nat.add_zero]
  have hcutSet : L.cutOff L.cuts .eaSet = L.own .eaSet := by
    rw [Parts.cutOff]
    split
    · rfl
    · next hcut =>
        rw [Parts.cuts_iff (by simp), not_not] at hcut
        rw [hcut, List.append_nil]
  refine Sat.bind ((sat_mergeFile hg hq.nodup hmove (Parts.mergedBefore_self _) hcutSet hq.set_ne
    hq.head_ne (Parts.file_merge _)).mono (fun _ _ h => h) fun _ c' hE => ?_) ?_
  · rcases hE with ⟨hpt, hc'⟩ | ⟨hpt, hc'⟩
    · exact Or.inl ⟨hq.not_reinitializes (by simp [hpt]), hc'.undoable (hreach (by simp))⟩
    · exact Or.inr ⟨.eaSet, _, hpt, hq.set_ne, hreach (by simp), hc'⟩
  rintro _ c3 ⟨hpt3, h3⟩
  have hini3 : c3.initialized .eaTail = L.cuts .eaTail := by rw [h3.initialized, htail]
  refine (sat_mergeIf (p := .eaTail) hg hq (by simp) hini3 h3
    ⟨possible_mergedBefore hq .eaTail, fun _ => rfl⟩).mono ?_ fun _ _ hE => hE
  rintro _ c4 ⟨hpt4, h4⟩
  refine ⟨?_, _, h4, rfl⟩
  rw [hq.reinitializes_iff]
  rintro ⟨p, hp, hne⟩
  cases p with
  | eaSet => exact hpt3 hp
  | eaOffset => exact hpt1 hne hp
  | eaInitialEa => exact hpt2 hne hp
  | eaTail => exact hpt4 hne hp

/-- Everything is merged, and the sizes are changed. -/
theorem undoable_growFile (hq : Fits g q f cs ns L)
    (h : Stage g q f cs ns L (Function.update (L.mergedBefore .eaTail) .eaTail (L.cuts .eaTail)) L.cuts
      ini vbo c)
    (hvbo : vbo = (L.head.length + (L.own .eaInitialEa).length + (L.own .eaOffset).length) *
      g.clusterSize) : Undoable g f cs ns L (growFile c) := by
  have hbefore := possible_mergedBefore hq .eaTail
  have hpossible : L.Possible
      (Function.update (L.mergedBefore .eaTail) .eaTail (L.cuts .eaTail)) L.cuts := by
    refine ⟨fun p hp hm => ?_, hbefore.own, fun hm => hbefore.offset (by simpa using hm), fun hm => ?_,
      fun hm => ?_, fun _ => by simp [Parts.mergedBefore]⟩
    · by_cases ht : p = .eaTail
      · subst ht
        simpa using hm
      · rw [Function.update_of_ne ht] at hm
        exact hbefore.cut p hp hm
    · have := hbefore.initial (by simpa using hm)
      simpa using this
    · have := hbefore.set (by simpa using hm)
      simpa using this
  have hpos : f.fileSize.lowPart ≠ 0 := by
    rw [hq.fileSize, hq.file]
    have hhead := List.length_pos_of_ne_nil hq.head_ne
    refine (Nat.mul_pos ?_ g.clusterSize_pos).ne'
    rw [List.length_append]
    omega
  have hprev : (growFile c).unwindPrevFileSize ≠ 0 := by
    change c.file.fileSize.lowPart ≠ 0
    rwa [h.fileSize]
  have hrestore : restoreSizes (growFile c) = { growFile c with file :=
      { c.file with
        allocationSize := ⟨c.file.fileSize.lowPart, c.file.fileSize.highPart⟩
        direntFileSize := c.file.fileSize.lowPart } } := by
    rw [restoreSizes, if_pos hprev]
    rfl
  refine ⟨?_, h.io, ?_, fun p hp => h.emptied p ?_, h.allocated, fun _ => h.eaSetVbo.trans hvbo, ?_, ?_, ?_⟩
  · change At g f cs ns (growFile c) (L.file c.merged c.split) (L.piece c.merged c.split)
    rw [h.merged, h.split]
    exact ⟨⟨h.maps.file, h.maps.piece, h.maps.clusters, h.maps.room⟩, h.maps.toKept⟩
  · change L.Possible c.merged c.split
    rw [h.merged, h.split]
    exact hpossible
  · rwa [← h.merged]
  · rw [hrestore]
    exact h.fileSize
  · rw [hrestore]
    dsimp only
    rw [h.fileSize, hq.fileSize, hq.allocationSize]
  · rw [hrestore]
    dsimp only
    rw [h.fileSize, hq.fileSize, hq.direntFileSize]

end Stage

/-- The last calls change neither the maps nor the sizes. -/
theorem sat_finish : Sat (finish s) c (fun _ _ => True)
    (fun _ c' => c' = c ∧ ∀ p, s.point ≠ .reinitMcb p) := by
  have hmay : ∀ pt, (∀ p, pt ≠ Point.reinitMcb p) → ∀ {x : EStateM Stop Call Unit},
      Sat x c (fun _ _ => True) (fun _ c' => c' = c ∧ ∀ p, s.point ≠ .reinitMcb p) →
      Sat (do may s pt; x) c (fun _ _ => True)
        (fun _ c' => c' = c ∧ ∀ p, s.point ≠ .reinitMcb p) := by
    intro pt hpt x hx
    refine Sat.bind (sat_may.mono (fun _ _ h => h) fun _ c' ⟨h, hc'⟩ => ⟨hc', ?_⟩) fun _ c' ⟨_, hc'⟩ => ?_
    · rw [h]
      exact hpt
    · rwa [hc']
  rw [finish]
  iterate 7 refine hmay _ (by simp) ?_
  refine sat_may.mono (fun _ _ _ => trivial) fun _ c' ⟨h, hc'⟩ => ⟨hc', ?_⟩
  rw [h]
  simp

/-- The call after the allocation. -/
theorem stage_allocated (hg : g.Sound) (hq : Fits g q f cs ns L) {a : AllocCall}
    (hcompleted : Completed g (Request.at 0 q.newAllocation) (zeroSet g f.vcb.vol.fat)
      ⟨f.vcb, [], (Request.at 0 q.newAllocation).byteCount⟩ a ns)
    (hmcb : a.mcb = mcbOf g ns) (hbytes : a.byteCount = q.newAllocation) (hnone : f.vcb.vol.io = none)
    (ini : Piece → Bool) :
    Stage g q f cs ns L (fun _ => false) (fun _ => false) ini q.eaSetVbo
      { (Call.start q f).setVcb a.vcb with
        mcb := Function.update (Function.update (Call.start q f).mcb .eaSet []) .eaSet a.mcb
        newAllocation := a.byteCount
        initialized := ini
        allocatedNewAllocation := true } := by
  have hfile : L.file (fun _ => false) (fun _ => false) = cs := by simp [Parts.file, hq.file]
  have hset : L.piece (fun _ => false) (fun _ => false) .eaSet = ns := by
    simp [Parts.piece, Parts.cutOff, hq.new]
  have hother : ∀ p, p ≠ .eaSet → L.piece (fun _ => false) (fun _ => false) p = [] := by
    intro p hp
    cases p with
    | eaSet => exact absurd rfl hp
    | eaOffset => rfl
    | eaInitialEa => rfl
    | eaTail => rfl
  have hperm : (together cs (L.piece (fun _ => false) (fun _ => false))).Perm (cs ++ ns) := by
    rw [together, hset, hother .eaOffset (by simp), hother .eaInitialEa (by simp),
      hother .eaTail (by simp)]
    simp
  have hentry : ∀ x, x ∉ ns → lookupEntry g.width a.vcb.vol.fat x =
      lookupEntry g.width f.vcb.vol.fat x := by
    intro x hx
    rw [hcompleted.entry, chainEntry_of_notMem hx]
  have hlinks : ∀ x ∈ ns, x < 2 ^ g.width.linkBits := by
    intro x hx
    have hmem := Geometry.mem_clusters.mp (hq.clusters x (List.mem_append_right _ hx))
    have := hg.links
    omega
  have hcs : Threads g.width (lookupEntry g.width a.vcb.vol.fat) cs := by
    refine (threads_of_leads hq.chain).congr fun x hx => hentry x ?_
    exact List.disjoint_of_nodup_append hq.nodup hx
  have hns : Threads g.width (lookupEntry g.width a.vcb.vol.fat) ns :=
    (threads_chainEntry hcompleted.nodup hlinks).congr fun x _ => hcompleted.entry x
  refine ⟨⟨⟨?_, fun p hp => ?_, fun x hx => ?_, ?_⟩, ⟨?_, ?_, fun p => ?_, fun x _ hx => hentry x hx,
    hcompleted.books⟩⟩, hcompleted.io hnone, rfl, rfl, rfl, fun _ hp => absurd hp (by simp), rfl, rfl,
    hbytes, rfl, rfl, rfl, rfl⟩
  · rw [hfile]
    exact hq.mcb
  · have hset' : p = .eaSet := by
      by_contra hne
      exact hp (hother p hne)
    subst hset'
    rw [hset]
    exact hmcb
  · rw [hfile] at hx
    exact hq.clusters x (hperm.mem_iff.mp hx)
  · rw [hfile, hperm.length_eq]
    exact (Nat.mul_le_mul_right _ (by omega)).trans hq.room
  · rw [hfile]
    exact hperm
  · rw [hfile]
    exact hcs
  · by_cases hp : p = .eaSet
    · rw [hp, hset]
      exact hns
    · rw [hother p hp]
      exact Or.inl rfl

/-- **The body**, once its space is allocated. -/
theorem sat_body (hg : g.Sound) (hq : Fits g q f cs ns L) {a : AllocCall} {fuel : ℕ}
    (hok : fatAllocateDiskSpace g (Request.at 0 q.newAllocation) fuel
      ⟨f.vcb, [], (Request.at 0 q.newAllocation).byteCount⟩ = .ok () a)
    (hcompleted : Completed g (Request.at 0 q.newAllocation) (zeroSet g f.vcb.vol.fat)
      ⟨f.vcb, [], (Request.at 0 q.newAllocation).byteCount⟩ a ns)
    (hmcb : a.mcb = mcbOf g ns) (hbytes : a.byteCount = q.newAllocation)
    (hnone : f.vcb.vol.io = none) :
    Sat (body g q s fuel) (Call.start q f) (fun _ _ => ¬ q.Reinitializes s.point)
      (fun _ c => (s.point = .initMcb .eaSet ∧ c.allocatedNewAllocation = false) ∨
        Failed g q f cs ns L s c) := by
  rw [body, initMcb]
  refine Sat.bind (R := fun _ c => c = { Call.start q f with
      mcb := Function.update (Call.start q f).mcb .eaSet []
      initialized := Function.update (Call.start q f).initialized .eaSet true }) ?_ ?_
  · refine Sat.bind (sat_may.mono (fun _ _ h => h) fun _ c' ⟨hpt, hc'⟩ => ?_) fun _ c' ⟨_, hc'⟩ => ?_
    · rw [hc']
      exact Or.inl ⟨hpt, rfl⟩
    · rw [hc']
      exact Sat.modify rfl
  intro _ c0 hc0
  subst hc0
  have hini : ∀ p, p ≠ .eaSet →
      Function.update (Call.start q f).initialized .eaSet true p = false := fun p hp =>
    Function.update_of_ne hp _ _
  have hstage := stage_allocated hg hq hcompleted hmcb hbytes hnone
    (Function.update (Call.start q f).initialized .eaSet true)
  refine Sat.bind (R := fun _ c => Stage g q f cs ns L (fun _ => false) (fun _ => false)
      (Function.update (Call.start q f).initialized .eaSet true) q.eaSetVbo c) ?_ ?_
  · rw [allocate]
    apply Sat.get_bind
    refine Sat.bind (R := fun _ c => c = { (Call.start q f).setVcb a.vcb with
        mcb := Function.update (Function.update (Call.start q f).mcb .eaSet []) .eaSet a.mcb
        newAllocation := a.byteCount
        initialized := Function.update (Call.start q f).initialized .eaSet true }) ?_ ?_
    · apply Sat.onPart
      exact Sat.of_ok hok rfl
    · intro _ c hc
      rw [hc]
      exact Sat.modify hstage
  intro _ c1 h1
  refine Sat.bind ((h1.sat_cutApart hg hq hini).mono (fun _ _ h => h) fun _ _ h => Or.inr h) ?_
  rintro _ c2 ⟨ini, h2, hinitial, htail⟩
  refine Sat.bind ((h2.sat_pasteTogether hg hq hinitial htail).mono (fun _ _ h => h) fun _ _ h => Or.inr h) ?_
  rintro _ c3 ⟨hpoint, vbo, h3, hvbo⟩
  apply Sat.modify_bind
  refine sat_finish.mono (fun _ _ _ => hpoint) fun _ c4 ⟨hc4, _⟩ => ?_
  rw [hc4]
  exact Or.inr (Or.inl ⟨hpoint, h3.undoable_growFile hq hvbo⟩)

end Body

end KernelDrivers.Fat.AddEaSet
