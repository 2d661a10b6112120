import KernelDrivers.CoreMnt.ExchangeSafe

/-!
# Pending requests and the end of a disk

A request that was marked pending is in the list, outstanding, or completed.  When the disk is taken
out of the map, it goes with its last reference, and a server that waits has one.

## Main definitions

* `Placed`, `Stuck`, `Orderly` — what becomes of the requests.
* `Timely` — the steps that keep the order, the slot of the last request and the waiting servers.

## Main results

* `orderly_of_onTime` — every run of timely steps is orderly.
* `not_orderly_order` — the list is a stack.
-/

namespace KernelDrivers.CoreMnt

/-- Pending requests are in exactly one place. -/
def Placed (s : Shared) : Prop :=
  s.marked.Perm (s.completed.map Completion.irp ++ (s.outstanding.toList ++ s.queue))

/-- The call has a reference and can take a step. -/
def Thread.enabled (s : Shared) : Thread → Bool
  | .wait _ => s.notEmpty || s.stop
  | t => t.holds

/-- The disk is not in the map, something waits for it, and nothing will happen. -/
def Stuck (c : Conf Shared Thread) : Prop :=
  c.shared.mapped = false ∧
    (c.shared.queue ≠ [] ∨ c.shared.outstanding.isSome ∨ ∃ t ∈ c.threads, t.holds = true) ∧
    ∀ t ∈ c.threads, t.enabled c.shared = false

structure Orderly (c : Conf Shared Thread) : Prop where
  event : c.shared.notEmpty = !c.shared.queue.isEmpty
  placed : Placed c.shared
  order : c.shared.handedOut <+: c.shared.marked
  awake : ¬ Stuck c

/-! ### Timely steps -/

/-- A server that has to wait for a request. -/
def Thread.waits : Thread → Bool
  | .finishLast _ | .completeLast _ _ (.wait _) | .clearLast (.wait _) | .wait _ => true
  | _ => false

/-- A server that is about to take a request. -/
def Thread.takes : Thread → Bool
  | .takeNext _ => true
  | _ => false

/-- A call that is about to queue a request. -/
def Thread.queues : Thread → Bool
  | .queueIrp irp => decide (irp.type ≠ 0)
  | _ => false

/-- Every server that waits finds a request, in the list or on its way there. -/
def Served (c : Conf Shared Thread) : Prop :=
  c.threads.countP Thread.waits = 0 ∨
    c.threads.countP Thread.waits + c.threads.countP Thread.takes ≤
      c.shared.queue.length + c.threads.countP Thread.queues

/-- A report is on an outstanding request.  A request is taken when no other is in the list, and
none is with a server.  The disk is taken out of the map when every server that waits is served. -/
def Timely (c : Conf Shared Thread) : Thread → Prop
  | .finishLast r => r.lastType ≠ 0 → c.shared.outstanding.isSome
  | .completeLast _ _ _ => c.shared.outstanding.isSome
  | .copyOut _ _ => c.shared.outstanding.isSome
  | .takeNext _ => c.shared.queue ≠ [] → c.shared.lastIrp = none ∧ c.shared.queue.length = 1
  | .unmount => c.shared.mapped = true → Served c
  | _ => True

def OnTime (c : Conf Shared Thread) (e : Sched Thread Bool) : Prop :=
  Arrives c e ∧
    match e with
    | .spawn _ => True
    | .run i _ => ∀ t, c.threads[i]? = some t → Timely c t

/-! ### The ledger of a disk -/

/-- What every timely step keeps of the disk. -/
structure Ledger (s : Shared) : Prop where
  attempts : s.stray = false
  slot : s.lastCompleted = true → s.lastIrp.isSome
  event : s.notEmpty = !s.queue.isEmpty
  placed : Placed s
  typed : ∀ irp ∈ s.queue, irp.type ≠ 0
  order : s.handedOut ++ s.queue.reverse <+: s.marked
  full : s.refs ≠ 0 → s.handedOut ++ s.queue.reverse = s.marked
  gone : s.refs = 0 → s.queue = [] ∧ s.lastIrp = none

section Books

variable {s : Shared} {irp : Irp}

/-- The ledger does not look at the map, at the copies or at how many references there are. -/
theorem Ledger.keep (h : Ledger s) (mapped : Bool) {refs : ℕ} (copies : List Copy)
    (hold : s.refs ≠ 0) (hrefs : refs ≠ 0) :
    Ledger { s with mapped := mapped, refs := refs, copies := copies } :=
  ⟨h.attempts, h.slot, h.event, h.placed, h.typed, h.order, fun _ => h.full hold,
    fun hzero => absurd hzero hrefs⟩

theorem Ledger.push (h : Ledger s) (hrefs : s.refs ≠ 0) (htype : irp.type ≠ 0) :
    Ledger (s.push irp) := by
  have hfull : s.handedOut ++ (irp :: s.queue).reverse = s.marked ++ [irp] := by
    rw [List.reverse_cons, ← List.append_assoc, h.full hrefs]
  exact {
    attempts := h.attempts
    slot := h.slot
    event := by
      simp only [Shared.push, h.event]
      cases s.queue <;> rfl
    placed := by
      change (s.marked ++ [irp]).Perm
        (s.completed.map Completion.irp ++ (s.outstanding.toList ++ irp :: s.queue))
      rw [← List.append_assoc]
      refine (List.perm_append_singleton irp s.marked).trans (List.Perm.trans ?_ List.perm_middle.symm)
      rw [List.append_assoc]
      exact h.placed.cons irp
    typed := by
      intro other hmem
      rcases List.mem_cons.mp hmem with rfl | hold
      · exact htype
      · exact h.typed other hold
    order := by
      change s.handedOut ++ (irp :: s.queue).reverse <+: s.marked ++ [irp]
      rw [hfull]
    full := fun _ => hfull
    gone := fun hzero => absurd hzero hrefs }

/-- The only request of the list is taken, into an empty slot. -/
theorem Ledger.pop (h : Ledger s) (hqueue : s.queue = [irp]) (hlast : s.lastIrp = none) :
    Ledger s.pop := by
  have hcompleted : s.lastCompleted = false := by
    by_contra hno
    have := h.slot (eq_true_of_ne_false hno)
    rw [hlast] at this
    exact Bool.noConfusion this
  have hrefs : s.refs ≠ 0 := by
    intro hzero
    rw [(h.gone hzero).1] at hqueue
    exact absurd hqueue (by simp)
  have hfull := h.full hrefs
  have hplaced := h.placed
  rw [Placed, Shared.outstanding, hcompleted, hlast, hqueue] at hplaced
  rw [hqueue] at hfull
  simp only [Shared.pop, hqueue]
  exact {
    attempts := h.attempts
    slot := fun hno => absurd hno Bool.noConfusion
    event := by
      simp
    placed := hplaced
    typed := fun _ hmem => absurd hmem List.not_mem_nil
    order := by
      change (s.handedOut ++ [irp]) ++ [].reverse <+: s.marked
      rw [List.reverse_nil, List.append_nil, ← hfull]
      exact List.prefix_refl _
    full := by
      intro _
      change (s.handedOut ++ [irp]) ++ [].reverse = s.marked
      rw [List.reverse_nil, List.append_nil]
      exact hfull
    gone := fun hzero => absurd hzero hrefs }

theorem Ledger.completeLast (h : Ledger s) (hirp : s.outstanding = some irp) (status : Status)
    (information : UInt32) : Ledger (s.completeLast irp status information) := by
  obtain ⟨hlast, hcompleted⟩ := lastIrp_of_outstanding hirp
  exact {
    attempts := by
      simp only [Shared.completeLast, h.attempts, hcompleted, Bool.or_false]
    slot := by
      intro _
      change s.lastIrp.isSome
      rw [hlast]
      rfl
    event := h.event
    placed := by
      have hplaced := h.placed
      rw [Placed, hirp] at hplaced
      change s.marked.Perm ((s.completed ++ [Completion.mk irp status information]).map Completion.irp ++
        ([] ++ s.queue))
      rw [List.map_append, List.append_assoc]
      exact hplaced
    typed := h.typed
    order := h.order
    full := h.full
    gone := h.gone }

theorem Ledger.clear (h : Ledger s) (hcompleted : s.lastCompleted = true) :
    Ledger { s with lastIrp := none, lastCompleted := false } := by
  have hplaced := h.placed
  rw [Placed, Shared.outstanding, if_pos hcompleted] at hplaced
  exact ⟨h.attempts, fun hno => absurd hno Bool.noConfusion, h.event, hplaced, h.typed, h.order,
    h.full, fun hzero => ⟨(h.gone hzero).1, rfl⟩⟩

/-- The last reference goes, and with it what is left. -/
theorem Ledger.release (h : Ledger s) (hrefs : s.refs ≠ 0)
    (hcompleted : s.refs = 1 → s.lastCompleted = false) : Ledger s.release := by
  unfold Shared.release
  split
  · next hone =>
    have hopen := hcompleted hone
    have hplaced := h.placed
    rw [Placed, Shared.outstanding, hopen] at hplaced
    have hprefix : s.handedOut <+: s.marked := (List.prefix_append _ _).trans h.order
    exact {
      attempts := by
        simp only [Shared.destroy, h.attempts, hopen, Bool.or_false]
      slot := fun hno => absurd hno Bool.noConfusion
      event := by
        simp only [Shared.destroy, h.event]
        cases s.queue <;> rfl
      placed := by
        have hmap : ((s.lastIrp.toList ++ s.queue).map fun irp =>
            Completion.mk irp .deviceNotReady 0).map Completion.irp =
            s.lastIrp.toList ++ s.queue := by
          rw [List.map_map]
          exact List.map_id _
        change s.marked.Perm ((s.completed ++ (s.lastIrp.toList ++ s.queue).map fun irp =>
          Completion.mk irp .deviceNotReady 0).map Completion.irp ++ ([] ++ []))
        rw [List.map_append, hmap, List.append_nil, List.append_nil]
        exact hplaced
      typed := fun _ hmem => absurd hmem List.not_mem_nil
      order := by
        change s.handedOut ++ [].reverse <+: s.marked
        rwa [List.reverse_nil, List.append_nil]
      full := fun hno => absurd rfl hno
      gone := fun _ => ⟨rfl, rfl⟩ }
  · next hone => exact h.keep s.mapped s.copies hrefs (by omega)

end Books

/-! ### One step -/

/-- What a step of `t` in front of `t'` keeps. -/
structure StepKept (s : Shared) (t : Thread) (s' : Shared) (t' : Thread) : Prop where
  ledger : Ledger s'
  clearing : s'.lastCompleted.toNat + t.clearing.toNat =
    s.lastCompleted.toNat + t'.clearing.toNat
  /-- New servers come only while the disk is in the map, and a request that is taken is the one
  that its server was counted for. -/
  room : s'.mapped = true ∨ s'.refs = 0 ∨ ((t'.waits = true → t.waits = true) ∧
    t'.waits.toNat + t'.takes.toNat + s.queue.length + t.queues.toNat ≤
      t.waits.toNat + t.takes.toNat + s'.queue.length + t'.queues.toNat)

section Step

variable {s : Shared} {c : Conf Shared Thread}

/-- A step that only goes on. -/
theorem Ledger.goOn {t t' : Thread} (h : Ledger s) (hclearing : t.clearing = t'.clearing)
    (hwaits : t'.waits = true → t.waits = true)
    (htakes : t'.waits.toNat + t'.takes.toNat + t.queues.toNat ≤
      t.waits.toNat + t.takes.toNat + t'.queues.toNat) : StepKept s t s t' := by
  refine ⟨h, by rw [hclearing], Or.inr (Or.inr ⟨hwaits, ?_⟩)⟩
  omega

theorem release_refs_or (s : Shared) : s.release.refs = 0 ∨ s.release.queue = s.queue := by
  unfold Shared.release
  split
  · exact Or.inl rfl
  · exact Or.inr rfl

/-- The mark of the last request behind a reference given back. -/
theorem lastCompleted_release_eq (hcompleted : s.refs = 1 → s.lastCompleted = false) :
    s.release.lastCompleted = s.lastCompleted := by
  unfold Shared.release
  split
  · next hone => exact (hcompleted hone).symm
  · rfl

/-- A reference given back by a call that does not wait. -/
theorem Ledger.stepRelease {t : Thread} (h : Ledger s) (hrefs : s.refs ≠ 0)
    (hopen : s.refs = 1 → s.lastCompleted = false) (hclearing : t.clearing = false)
    (hqueues : t.queues = false) (answer : Option Response) :
    StepKept s t s.release (.done answer) := by
  refine ⟨h.release hrefs hopen, ?_, ?_⟩
  · rw [lastCompleted_release_eq hopen, hclearing]
    rfl
  · rcases release_refs_or s with hzero | hqueue
    · exact Or.inr (Or.inl hzero)
    · refine Or.inr (Or.inr ⟨fun hno => absurd hno Bool.noConfusion, ?_⟩)
      rw [hqueue, hqueues]
      simp only [Thread.waits, Thread.takes, Thread.queues, Bool.toNat_false]
      omega

/-- **One timely step.** -/
theorem stepKept_act {i : ℕ} {t : Thread} (buffer : Bool) (h : Ledger c.shared)
    (hcounted : Counted c) (hcleared : Cleared c) (ht : c.threads[i]? = some t)
    (hclearing : t.clearing = true → c.shared.lastCompleted = true) (htimely : Timely c t) :
    StepKept c.shared t (act c.shared t buffer).1 (act c.shared t buffer).2 := by
  have hcount : c.shared.refs = c.shared.mapped.toNat + c.threads.countP Thread.holds := hcounted
  have hrefs : t.holds = true → c.shared.refs ≠ 0 := by
    intro hholds
    have : 0 < c.threads.countP Thread.holds :=
      List.countP_pos_iff.mpr ⟨t, List.mem_of_getElem? ht, hholds⟩
    omega
  cases t with
  | dispatchIrp irp =>
      simp only [act]
      split
      · next hmapped =>
        rw [hmapped, Bool.toNat_true] at hcount
        exact ⟨h.keep c.shared.mapped c.shared.copies (by omega) (by omega), rfl, Or.inl hmapped⟩
      · exact h.goOn rfl (fun hno => hno) (Nat.le_refl _)
  | queueIrp irp =>
      simp only [act]
      split
      · next htype =>
        refine h.goOn rfl (fun hno => hno) ?_
        simp [Thread.queues, htype, Thread.waits, Thread.takes]
      · next htype =>
        refine ⟨h.push (hrefs rfl) htype, rfl, Or.inr (Or.inr ⟨fun hno => hno, ?_⟩)⟩
        simp only [Shared.push, Thread.waits, Thread.takes, Thread.queues, htype, ne_eq,
          not_false_eq_true, decide_true, Bool.toNat_true, Bool.toNat_false, List.length_cons]
        omega
  | exchange r =>
      simp only [act]
      split
      · next hmapped =>
        rw [hmapped.1, Bool.toNat_true] at hcount
        exact ⟨h.keep c.shared.mapped c.shared.copies (by omega) (by omega), rfl,
          Or.inl hmapped.1⟩
      · exact h.goOn rfl (fun hno => hno) (Nat.le_refl _)
  | finishLast r =>
      simp only [act]
      split
      · exact h.goOn rfl (fun _ => rfl) (Nat.le_refl _)
      · next htype =>
        obtain ⟨irp, hirp⟩ := Option.isSome_iff_exists.mp (htimely htype)
        rw [(lastIrp_of_outstanding hirp).1]
        dsimp only
        split
        · split
          · exact ⟨h.keep c.shared.mapped _ (hrefs rfl) (hrefs rfl), rfl,
              Or.inr (Or.inr ⟨fun _ => rfl, Nat.le_refl _⟩)⟩
          · exact h.goOn rfl (fun _ => rfl) (Nat.le_refl _)
        · exact h.goOn rfl (fun _ => rfl) (Nat.le_refl _)
  | completeLast status information rest =>
      obtain ⟨irp, hirp⟩ := Option.isSome_iff_exists.mp htimely
      obtain ⟨hlast, hcompleted⟩ := lastIrp_of_outstanding hirp
      simp only [act, hlast]
      refine ⟨h.completeLast hirp status information, ?_, Or.inr (Or.inr ?_)⟩
      · rw [hcompleted]
        rfl
      · cases rest
        · exact ⟨fun _ => rfl, Nat.le_refl _⟩
        · exact ⟨fun hno => hno, Nat.le_refl _⟩
  | clearLast rest =>
      have hcompleted := hclearing rfl
      refine ⟨h.clear hcompleted, ?_, Or.inr (Or.inr ?_)⟩
      · rw [hcompleted]
        cases rest <;> rfl
      · cases rest
        · exact ⟨fun _ => rfl, Nat.le_refl _⟩
        · exact ⟨fun hno => hno, Nat.le_refl _⟩
  | wait r =>
      simp only [act]
      split
      · exact h.goOn rfl (fun _ => rfl) (Nat.le_refl _)
      · split
        · exact h.goOn rfl (fun _ => rfl) (by simp [Thread.waits, Thread.takes, Thread.queues])
        · exact h.goOn rfl (fun _ => rfl) (Nat.le_refl _)
  | takeNext r =>
      simp only [act]
      cases hqueue : c.shared.queue with
      | nil => exact h.goOn rfl (fun hno => hno) (by simp [Thread.waits, Thread.takes, Thread.queues])
      | cons irp rest =>
          obtain ⟨hlast, hone⟩ := htimely (by rw [hqueue]; exact List.cons_ne_nil _ _)
          have hrest : rest = [] := by
            rw [hqueue, List.length_cons] at hone
            exact List.length_eq_zero_iff.mp (by omega)
          subst hrest
          have htype := h.typed irp (by rw [hqueue]; exact List.mem_singleton_self irp)
          have hopen : c.shared.lastCompleted = false := by
            by_contra hno
            have := h.slot (eq_true_of_ne_false hno)
            rw [hlast] at this
            exact Bool.noConfusion this
          have hpop : ∀ t', t'.clearing = false → t'.waits = false → t'.takes = false →
              StepKept c.shared (.takeNext r) c.shared.pop t' := by
            intro t' hclearing' hwaits htakes
            refine ⟨h.pop hqueue hlast, ?_, Or.inr (Or.inr ⟨?_, ?_⟩)⟩
            · rw [hopen, hclearing']
              simp only [Shared.pop, hqueue]
              rfl
            · rw [hwaits]
              exact fun hno => hno
            · rw [hwaits, htakes]
              simp only [Shared.pop, hqueue, Thread.waits, Thread.takes, Thread.queues,
                Bool.toNat_true, Bool.toNat_false, List.length_singleton, List.length_nil]
              omega
          dsimp only
          rw [if_neg htype]
          split
          · exact hpop _ rfl rfl rfl
          · exact hpop _ rfl rfl rfl
  | copyOut r answer =>
      obtain ⟨irp, hirp⟩ := Option.isSome_iff_exists.mp htimely
      simp only [act, (lastIrp_of_outstanding hirp).1]
      split
      · exact ⟨h.keep c.shared.mapped _ (hrefs rfl) (hrefs rfl), rfl,
          Or.inr (Or.inr ⟨fun hno => hno, Nat.le_refl _⟩)⟩
      · exact h.goOn rfl (fun hno => hno) (Nat.le_refl _)
  | unmount =>
      simp only [act]
      split
      · next hmapped =>
        rw [hmapped, Bool.toNat_true] at hcount
        have hunmapped : Ledger { c.shared with mapped := false } :=
          h.keep false c.shared.copies (by omega) (by omega)
        have hstep := hunmapped.stepRelease (t := .unmount) (by change c.shared.refs ≠ 0; omega)
          (fun hone => hcounted.open_of_mapped hcleared hmapped hone) rfl rfl none
        exact ⟨hstep.ledger, hstep.clearing, hstep.room⟩
      · exact h.goOn rfl (fun hno => hno) (Nat.le_refl _)
  | release answer =>
      exact h.stepRelease (hrefs rfl) (fun hone => hcounted.open_of_holds hcleared ht rfl rfl hone)
        rfl rfl answer
  | done answer => exact h.goOn rfl (fun hno => hno) (Nat.le_refl _)

end Step

/-! ### Runs -/

/-- What a run keeps. -/
structure Kept (c : Conf Shared Thread) : Prop where
  ledger : Ledger c.shared
  counted : Counted c
  clearing : c.threads.countP Thread.clearing = c.shared.lastCompleted.toNat
  served : c.shared.mapped = false → Served c

section Run

variable {c : Conf Shared Thread}

theorem Kept.cleared (h : Kept c) : Cleared c := by
  intro hcompleted
  rw [h.clearing, hcompleted]
  exact Nat.one_pos

theorem holds_of_waits {t : Thread} (h : t.waits = true) : t.holds = true := by
  cases t <;> first | rfl | exact absurd h Bool.noConfusion

/-- The servers that wait behind a step. -/
theorem served_of_step {i : ℕ} {t t' : Thread} {s' : Shared} (ht : c.threads[i]? = some t)
    (h : Served c) (hwaits : t'.waits = true → t.waits = true)
    (hroom : t'.waits.toNat + t'.takes.toNat + c.shared.queue.length + t.queues.toNat ≤
      t.waits.toNat + t.takes.toNat + s'.queue.length + t'.queues.toNat) :
    Served ⟨s', c.threads.set i t'⟩ := by
  have hbool : ∀ b : Bool, (if b = true then 1 else 0) = b.toNat := by decide
  have hW := Conf.countP_run Thread.waits t' ht
  have hT := Conf.countP_run Thread.takes t' ht
  have hQ := Conf.countP_run Thread.queues t' ht
  rw [hbool, hbool] at hW hT hQ
  have hle : t'.waits.toNat ≤ t.waits.toNat := by
    cases hnew : t'.waits with
    | false => exact Nat.zero_le _
    | true =>
        rw [hwaits hnew]
  simp only [Served] at h ⊢
  omega

/-- Only `Unmount` takes the disk out of the map. -/
theorem mapped_act {s : Shared} {t : Thread} {buffer : Bool} (h : t ≠ .unmount) :
    (act s t buffer).1.mapped = s.mapped := by
  have hpop : s.pop.mapped = s.mapped := by
    unfold Shared.pop
    split <;> rfl
  cases t with
  | unmount => exact absurd rfl h
  | release answer => exact mapped_release
  | takeNext r =>
      simp only [act]
      split
      · rfl
      · split
        · exact hpop
        · split
          · exact hpop
          · exact hpop
  | finishLast r =>
      simp only [act]
      split
      · rfl
      · split
        · rfl
        · split
          · split <;> rfl
          · rfl
  | dispatchIrp irp =>
      simp only [act]
      split <;> rfl
  | queueIrp irp =>
      simp only [act]
      split <;> rfl
  | exchange r =>
      simp only [act]
      split <;> rfl
  | completeLast status information rest =>
      simp only [act]
      split <;> rfl
  | wait r =>
      simp only [act]
      split
      · rfl
      · split <;> rfl
  | copyOut r answer =>
      simp only [act]
      split
      · rfl
      · split <;> rfl
  | clearLast rest => rfl
  | done answer => rfl

theorem kept_step {i : ℕ} {t : Thread} {buffer : Bool} (h : Kept c) (ht : c.threads[i]? = some t)
    (htimely : Timely c t) :
    Kept ⟨(act c.shared t buffer).1, c.threads.set i (act c.shared t buffer).2⟩ := by
  have hbool : ∀ b : Bool, (if b = true then 1 else 0) = b.toNat := by decide
  have hclearing : t.clearing = true → c.shared.lastCompleted = true := by
    intro hclearing
    have hpos : 0 < c.threads.countP Thread.clearing :=
      List.countP_pos_iff.mpr ⟨t, List.mem_of_getElem? ht, hclearing⟩
    rw [h.clearing] at hpos
    exact eq_true_of_ne_false fun hno => by simp [hno] at hpos
  have hstep := stepKept_act buffer h.ledger h.counted h.cleared ht hclearing htimely
  have hcounted := counted_act buffer h.counted ht hstep.ledger.attempts
  refine ⟨hstep.ledger, hcounted, ?_, ?_⟩
  · have hcount := Conf.countP_run Thread.clearing (act c.shared t buffer).2 ht
    rw [hbool, hbool] at hcount
    have hmark := hstep.clearing
    have hold := h.clearing
    change (c.threads.set i (act c.shared t buffer).2).countP Thread.clearing =
      (act c.shared t buffer).1.lastCompleted.toNat
    omega
  · intro hunmapped
    change (act c.shared t buffer).1.mapped = false at hunmapped
    rcases hstep.room with hmapped | hzero | ⟨hwaits, hroom⟩
    · rw [hunmapped] at hmapped
      exact Bool.noConfusion hmapped
    · -- without a reference no call is left that could wait
      left
      have hcount : (act c.shared t buffer).1.refs = (act c.shared t buffer).1.mapped.toNat +
          (c.threads.set i (act c.shared t buffer).2).countP Thread.holds := hcounted
      have hle : (c.threads.set i (act c.shared t buffer).2).countP Thread.waits ≤
          (c.threads.set i (act c.shared t buffer).2).countP Thread.holds :=
        List.countP_mono_left fun _ _ => holds_of_waits
      change (c.threads.set i (act c.shared t buffer).2).countP Thread.waits = 0
      omega
    · refine served_of_step ht ?_ hwaits hroom
      cases hmapped : c.shared.mapped with
      | false => exact h.served hmapped
      | true =>
          by_cases hunmount : t = .unmount
          · rw [hunmount] at htimely
            exact htimely hmapped
          · rw [mapped_act hunmount, hmapped] at hunmapped
            exact Bool.noConfusion hunmapped

/-- Nothing waits for ever: a call that waits finds a request, or another call brings one. -/
theorem Kept.awake (h : Kept c) : ¬ Stuck c := by
  rintro ⟨hunmapped, hsomething, hblocked⟩
  have hcount : c.shared.refs = c.shared.mapped.toNat + c.threads.countP Thread.holds := h.counted
  rw [hunmapped, Bool.toNat_false, Nat.zero_add] at hcount
  -- every call with a reference is at its wait
  have hwaiting : ∀ t ∈ c.threads, t.holds = true → t.waits = true ∧ c.shared.notEmpty = false := by
    intro t ht hholds
    have hno := hblocked t ht
    cases t with
    | wait r => exact ⟨rfl, (Bool.or_eq_false_iff.mp hno).1⟩
    | _ => exact absurd (hholds.symm.trans hno) Bool.noConfusion
  by_cases hrefs : c.shared.refs = 0
  · obtain ⟨hqueue, hlast⟩ := h.ledger.gone hrefs
    rw [hrefs] at hcount
    have hnone := List.countP_eq_zero.mp hcount.symm
    rcases hsomething with hne | hout | ⟨t, ht, hholds⟩
    · exact hne hqueue
    · rw [Shared.outstanding, hlast, ite_self] at hout
      exact Bool.noConfusion hout
    · exact hnone t ht hholds
  · have hpos : 0 < c.threads.countP Thread.holds := by omega
    obtain ⟨t, ht, hholds⟩ := List.countP_pos_iff.mp hpos
    obtain ⟨hwaits, hevent⟩ := hwaiting t ht hholds
    have hqueues : c.threads.countP Thread.queues = 0 := by
      rw [List.countP_eq_zero]
      intro u hu hqueue
      have huholds : u.holds = true := by
        cases u <;> first | rfl | exact absurd hqueue Bool.noConfusion
      have huwaits := (hwaiting u hu huholds).1
      cases u <;> first | exact absurd hqueue Bool.noConfusion | exact absurd huwaits Bool.noConfusion
    have hempty : c.shared.queue = [] := by
      have := h.ledger.event
      rw [hevent] at this
      simpa using this
    have hwaiters : 0 < c.threads.countP Thread.waits := List.countP_pos_iff.mpr ⟨t, ht, hwaits⟩
    rcases h.served hunmapped with hzero | hle
    · omega
    · rw [hempty, hqueues, List.length_nil] at hle
      omega

/-- **Requests are neither lost nor left hanging** when a report is on an outstanding request, a
request is taken alone, and the disk goes out of the map only when its servers are served. -/
theorem orderly_of_onTime {deviceId : UInt32} (h : Reach (Conf.step act) OnTime (disk deviceId) c) :
    Orderly c := by
  have hkept : Kept c := by
    apply Conf.reach_invariant h
    · constructor
      · constructor <;> simp [disk, Placed, Shared.outstanding]
      · rfl
      · rfl
      · exact fun hno => absurd hno Bool.noConfusion
    · intro c t hc hspawn
      obtain ⟨hholds, hclearing⟩ := Thread.Call.quiet hspawn.1
      have hnone : t.waits = false ∧ t.takes = false ∧ t.queues = false := by
        have hcall := hspawn.1
        cases t <;> first | exact ⟨rfl, rfl, rfl⟩ | exact absurd hcall id
      have hsame : ∀ p : Thread → Bool, p t = false →
          (c.threads ++ [t]).countP p = c.threads.countP p := by
        intro p hp
        rw [List.countP_append, List.countP_singleton, hp]
        rfl
      refine ⟨hc.ledger, ?_, ?_, ?_⟩
      · have hcounted : c.shared.refs =
            c.shared.mapped.toNat + c.threads.countP Thread.holds := hc.counted
        change c.shared.refs = c.shared.mapped.toNat + (c.threads ++ [t]).countP Thread.holds
        rw [hsame _ hholds]
        exact hcounted
      · change (c.threads ++ [t]).countP Thread.clearing = c.shared.lastCompleted.toNat
        rw [hsame _ hclearing]
        exact hc.clearing
      · intro hunmapped
        have hserved := hc.served hunmapped
        simp only [Served, hsame _ hnone.1, hsame _ hnone.2.1, hsame _ hnone.2.2] at hserved ⊢
        exact hserved
    · intro c i buffer t hc hrun ht
      exact kept_step hc ht (hrun.2 t ht)
  exact {
    event := hkept.ledger.event
    placed := hkept.ledger.placed
    order := (List.prefix_append _ _).trans hkept.ledger.order
    awake := hkept.awake }

end Run

/-! ### Three runs -/

/-- A server takes a read, and the disk is taken out of the map before the report. -/
def unmountRun : List (Sched Thread Bool) :=
  [.spawn (.dispatchIrp sectorRead), .run 0 true, .run 0 true, .run 0 true,
    .spawn (.exchange firstCall), .run 1 true, .run 1 true, .run 1 true, .run 1 true, .run 1 true,
    .spawn .unmount, .run 2 true]

theorem orderly_of_onTime_unmount : Orderly (unmountRun.foldl (Conf.step act) (disk 0)) := by
  apply orderly_of_onTime (c := unmountRun.foldl (Conf.step act) (disk 0))
  apply Reach.foldl .start
  have hrun : ∀ {c : Conf Shared Thread} {i : ℕ} {t : Thread}, c.threads[i]? = some t →
      Timely c t → OnTime c (.run i true) := by
    intro c i t ht htimely
    refine ⟨trivial, fun u hu => ?_⟩
    rw [ht, Option.some.injEq] at hu
    exact hu ▸ htimely
  refine ⟨⟨trivial, trivial⟩, hrun rfl trivial, hrun rfl trivial, hrun rfl trivial,
    ⟨trivial, trivial⟩, hrun rfl trivial, hrun rfl ?_, hrun rfl trivial, hrun rfl ?_,
    hrun rfl trivial, ⟨trivial, trivial⟩, hrun rfl ?_, trivial⟩
  · exact fun hno => absurd rfl hno
  · exact fun _ => ⟨rfl, rfl⟩
  · exact fun _ => Or.inl rfl

/-- A second read, of the next sector. -/
def nextRead : Irp := ⟨1, .read, 512, 512⟩

/-- Two reads wait, and a server takes one. -/
def stackRun : List (Sched Thread Bool) :=
  [.spawn (.dispatchIrp sectorRead), .run 0 true, .run 0 true,
    .spawn (.dispatchIrp nextRead), .run 1 true, .run 1 true,
    .spawn (.exchange firstCall), .run 2 true, .run 2 true, .run 2 true, .run 2 true]

/-- A server waits when the disk is taken out of the map. -/
def waitRun : List (Sched Thread Bool) :=
  [.spawn (.exchange firstCall), .run 0 true, .run 0 true, .spawn .unmount, .run 1 true]

/-- The second read is handed out first, and the server that waits is never woken. -/
theorem not_orderly_order :
    (¬ ∀ deviceId c, Reach (Conf.step act) Arrives (disk deviceId) c → Orderly c) ∧
      ∃ c, Reach (Conf.step act) Arrives (disk 0) c ∧ Stuck c := by
  constructor
  · intro h
    have hreach : Reach (Conf.step act) Arrives (disk 0) (stackRun.foldl (Conf.step act) (disk 0)) :=
      .foldl .start ⟨trivial, trivial, trivial, trivial, trivial, trivial, trivial, trivial, trivial,
        trivial, trivial, trivial⟩
    exact absurd (h 0 _ hreach).order (by decide)
  · have hreach : Reach (Conf.step act) Arrives (disk 0) (waitRun.foldl (Conf.step act) (disk 0)) :=
      .foldl .start ⟨trivial, trivial, trivial, trivial, trivial, trivial⟩
    exact ⟨_, hreach, rfl, Or.inr (Or.inr ⟨.wait firstCall, by decide, rfl⟩), by decide⟩

end KernelDrivers.CoreMnt
