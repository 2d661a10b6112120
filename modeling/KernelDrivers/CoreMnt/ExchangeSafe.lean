import KernelDrivers.CoreMnt.Exchange

/-!
# Copies and completions of an exchange

What a server reports goes into a `memcpy` and into a completion as it is.

## Main definitions

* `Counted` — the count of the shared pointer.
* `Safe` — no copy leaves its buffers, and no completion comes without an outstanding request.
* `Honest` — the reports that keep to the request they are for.

## Main results

* `safe_of_reach` — with honest reports every run is safe.
* `not_safe_size` — a size is not checked.
-/

namespace KernelDrivers.CoreMnt

/-! ### References -/

section References

variable {s : Shared} {c : Conf Shared Thread}

@[simp]
theorem mapped_release : s.release.mapped = s.mapped := by
  unfold Shared.release
  split <;> rfl

theorem refs_release : s.release.refs = s.refs - 1 := by
  unfold Shared.release
  split
  · next hone =>
    rw [hone]
    rfl
  · rfl

/-- The map and every call in the disk have one reference each. -/
def Counted (c : Conf Shared Thread) : Prop :=
  c.shared.refs = c.shared.mapped.toNat + c.threads.countP Thread.holds

theorem holds_of_clearing {t : Thread} (h : t.clearing = true) : t.holds = true := by
  cases t <;> first | rfl | exact absurd h Bool.noConfusion

theorem clearing_le_holds (threads : List Thread) :
    threads.countP Thread.clearing ≤ threads.countP Thread.holds :=
  List.countP_mono_left fun _ _ => holds_of_clearing

/-- How a step changes the count of the references. -/
theorem counted_of_step {i : ℕ} {t t' : Thread} {s' : Shared} (h : Counted c)
    (ht : c.threads[i]? = some t)
    (hrefs : s'.refs + c.shared.mapped.toNat + t.holds.toNat =
      c.shared.refs + s'.mapped.toNat + t'.holds.toNat) :
    Counted ⟨s', c.threads.set i t'⟩ := by
  have hcount := Conf.countP_run Thread.holds t' ht
  have hbool : ∀ b : Bool, (if b = true then 1 else 0) = b.toNat := by decide
  rw [hbool, hbool] at hcount
  have hold : c.shared.refs = c.shared.mapped.toNat + c.threads.countP Thread.holds := h
  change s'.refs = s'.mapped.toNat + (c.threads.set i t').countP Thread.holds
  omega

/-- Every step keeps the count, a crash apart. -/
theorem counted_act {i : ℕ} {t : Thread} (buffer : Bool) (h : Counted c)
    (ht : c.threads[i]? = some t) (hstray : (act c.shared t buffer).1.stray = false) :
    Counted ⟨(act c.shared t buffer).1, c.threads.set i (act c.shared t buffer).2⟩ := by
  have hpos : t.holds = true → 0 < c.threads.countP Thread.holds := fun hholds =>
    List.countP_pos_iff.mpr ⟨t, List.mem_of_getElem? ht, hholds⟩
  have hold : c.shared.refs = c.shared.mapped.toNat + c.threads.countP Thread.holds := h
  apply counted_of_step h ht
  cases t with
  | dispatchIrp irp =>
      simp only [act]
      split
      · simp [Thread.holds]
        omega
      · rfl
  | queueIrp irp =>
      simp only [act]
      split <;> rfl
  | exchange r =>
      simp only [act]
      split
      · simp [Thread.holds]
        omega
      · rfl
  | finishLast r =>
      simp only [act]
      split
      · rfl
      · next htype =>
        split
        · next hnone =>
          simp only [act, hnone, if_neg htype] at hstray
          exact absurd hstray Bool.noConfusion
        · split
          · split <;> rfl
          · rfl
  | completeLast status information rest =>
      simp only [act]
      split
      · next hnone =>
        simp only [act, hnone] at hstray
        exact absurd hstray Bool.noConfusion
      · rfl
  | clearLast rest =>
      cases rest <;> rfl
  | wait r =>
      simp only [act]
      split
      · rfl
      · split <;> rfl
  | takeNext r =>
      have hpop : c.shared.pop.refs = c.shared.refs ∧ c.shared.pop.mapped = c.shared.mapped := by
        unfold Shared.pop
        split <;> exact ⟨rfl, rfl⟩
      simp only [act]
      split
      · rfl
      · split
        · simp only [hpop.1, hpop.2, Thread.holds]
        · split
          · simp only [hpop.1, hpop.2, Thread.holds]
          · simp only [hpop.1, hpop.2, Thread.holds]
  | copyOut r answer =>
      simp only [act]
      split
      · next hnone =>
        simp only [act, hnone] at hstray
        exact absurd hstray Bool.noConfusion
      · split <;> rfl
  | unmount =>
      simp only [act]
      split
      · next hmapped =>
        rw [hmapped, Bool.toNat_true] at hold
        simp only [mapped_release, refs_release, hmapped, Thread.holds, Bool.toNat_true,
          Bool.toNat_false]
        omega
      · rfl
  | release answer =>
      have := hpos rfl
      simp only [act, mapped_release, refs_release, Thread.holds, Bool.toNat_true,
        Bool.toNat_false]
      omega
  | done answer => rfl

/-- A completed request that is not yet cleared is in the hands of a call. -/
def Cleared (c : Conf Shared Thread) : Prop :=
  c.shared.lastCompleted = true → 0 < c.threads.countP Thread.clearing

/-- While the disk is in the map, one reference is left for it alone. -/
theorem Counted.open_of_mapped (h : Counted c) (hcleared : Cleared c)
    (hmapped : c.shared.mapped = true) (hone : c.shared.refs = 1) :
    c.shared.lastCompleted = false := by
  by_contra hcompleted
  have hpos := lt_of_lt_of_le (hcleared (eq_true_of_ne_false hcompleted))
    (clearing_le_holds c.threads)
  have hcounted : c.shared.refs = c.shared.mapped.toNat + c.threads.countP Thread.holds := h
  rw [hmapped, Bool.toNat_true] at hcounted
  omega

/-- The call that has the last reference does not clear the slot for another. -/
theorem Counted.open_of_holds (h : Counted c) (hcleared : Cleared c) {i : ℕ} {t : Thread}
    (ht : c.threads[i]? = some t) (hholds : t.holds = true) (hclearing : t.clearing = false)
    (hone : c.shared.refs = 1) : c.shared.lastCompleted = false := by
  by_contra hcompleted
  obtain ⟨u, hu, huclearing⟩ := List.countP_pos_iff.mp (hcleared (eq_true_of_ne_false hcompleted))
  obtain ⟨j, hj⟩ := List.getElem?_of_mem hu
  have hne : i ≠ j := by
    rintro rfl
    rw [ht, Option.some.injEq] at hj
    rw [hj, huclearing] at hclearing
    exact Bool.noConfusion hclearing
  have htwo : 2 ≤ c.threads.countP Thread.holds :=
    Conf.two_le_countP hne ht hj hholds (holds_of_clearing huclearing)
  have hcounted : c.shared.refs = c.shared.mapped.toNat + c.threads.countP Thread.holds := h
  omega

end References

/-! ### Safety -/

structure Safe (s : Shared) : Prop where
  inside : ∀ c ∈ s.copies, c.size ≤ c.irp.length ∧ c.size ≤ c.dataSize
  reads : ∀ c ∈ s.copies, c.intoIrp = true → c.irp.major = .read
  attempts : s.stray = false
  information : ∀ d ∈ s.completed, d.status.ok = true → d.information ≤ d.irp.length

/-- A report is on an outstanding request, fills the buffer of a read and no more of it, and counts
no more bytes than the request has; a write has room in the buffer of the server. -/
def Honest (s : Shared) (buffer : Bool) : Thread → Prop
  | .finishLast r => r.lastType ≠ 0 → ∃ irp, s.outstanding = some irp ∧
      (r.fills = true → buffer = true →
        irp.major = .read ∧ r.lastSize ≤ irp.length ∧ r.lastSize ≤ r.dataSize)
  | .completeLast status information _ => ∃ irp, s.outstanding = some irp ∧
      (status.ok = true → information ≤ irp.length)
  | .copyOut r answer => ∃ irp, s.outstanding = some irp ∧
      (buffer = true → answer.size ≤ irp.length ∧ answer.size ≤ r.dataSize)
  | _ => True

/-- Calls arrive at any time, and every step is honest. -/
def Reported (c : Conf Shared Thread) (e : Sched Thread Bool) : Prop :=
  Arrives c e ∧
    match e with
    | .spawn _ => True
    | .run i buffer => ∀ t, c.threads[i]? = some t → Honest c.shared buffer t

section Safety

variable {s : Shared} {c : Conf Shared Thread} {irp : Irp}

theorem lastIrp_of_outstanding (h : s.outstanding = some irp) :
    s.lastIrp = some irp ∧ s.lastCompleted = false := by
  unfold Shared.outstanding at h
  split at h
  · exact absurd h (by simp)
  · next hcompleted => exact ⟨h, eq_false_of_ne_true hcompleted⟩

theorem Safe.copy (h : Safe s) {d : Copy} (hinside : d.size ≤ d.irp.length ∧ d.size ≤ d.dataSize)
    (hread : d.intoIrp = true → d.irp.major = .read) : Safe (s.copy d) where
  inside := by
    intro c hc
    rcases List.mem_append.mp hc with hold | hnew
    · exact h.inside c hold
    · rw [List.mem_singleton.mp hnew]
      exact hinside
  reads := by
    intro c hc
    rcases List.mem_append.mp hc with hold | hnew
    · exact h.reads c hold
    · rw [List.mem_singleton.mp hnew]
      exact hread
  attempts := h.attempts
  information := h.information

theorem Safe.completeLast (h : Safe s) {status : Status} {information : UInt32}
    (hcompleted : s.lastCompleted = false)
    (hinformation : status.ok = true → information ≤ irp.length) :
    Safe (s.completeLast irp status information) where
  inside := h.inside
  reads := h.reads
  attempts := by
    simp only [Shared.completeLast, h.attempts, hcompleted, Bool.or_false]
  information := by
    intro d hd
    rcases List.mem_append.mp hd with hold | hnew
    · exact h.information d hold
    · rw [List.mem_singleton.mp hnew]
      exact hinformation

/-- The destructor reports no success. -/
theorem Safe.destroy (h : Safe s) (hcompleted : s.lastCompleted = false) : Safe s.destroy where
  inside := h.inside
  reads := h.reads
  attempts := by
    simp only [Shared.destroy, h.attempts, hcompleted, Bool.or_false]
  information := by
    intro d hd hok
    rcases List.mem_append.mp hd with hold | hnew
    · exact h.information d hold hok
    · obtain ⟨irp, -, rfl⟩ := List.mem_map.mp hnew
      exact absurd hok (show ¬ Status.deviceNotReady.ok = true by decide)

theorem Safe.release (h : Safe s) (hcompleted : s.refs = 1 → s.lastCompleted = false) :
    Safe s.release := by
  unfold Shared.release
  split
  · next hone =>
    apply Safe.destroy
    · exact ⟨h.inside, h.reads, h.attempts, h.information⟩
    · exact hcompleted hone
  · exact ⟨h.inside, h.reads, h.attempts, h.information⟩

/-- What a run keeps. -/
structure Guarded (c : Conf Shared Thread) : Prop where
  safe : Safe c.shared
  counted : Counted c
  cleared : Cleared c

/-- One honest step is safe. -/
theorem safe_act {i : ℕ} {t : Thread} {buffer : Bool} (h : Guarded c)
    (ht : c.threads[i]? = some t) (hhonest : Honest c.shared buffer t) :
    Safe (act c.shared t buffer).1 := by
  have hsafe := h.safe
  have hsame : ∀ refs, Safe { c.shared with refs := refs } := fun _ =>
    ⟨hsafe.inside, hsafe.reads, hsafe.attempts, hsafe.information⟩
  cases t with
  | dispatchIrp irp =>
      simp only [act]
      split
      · exact hsame _
      · exact hsafe
  | queueIrp irp =>
      simp only [act]
      split
      · exact hsafe
      · exact ⟨hsafe.inside, hsafe.reads, hsafe.attempts, hsafe.information⟩
  | exchange r =>
      simp only [act]
      split
      · exact hsame _
      · exact hsafe
  | finishLast r =>
      simp only [act]
      split
      · exact hsafe
      · next htype =>
        obtain ⟨irp, hirp, hfills⟩ := hhonest htype
        rw [(lastIrp_of_outstanding hirp).1]
        dsimp only
        split
        · next hfill =>
          split
          · next hbuffer =>
            obtain ⟨hread, hlength, hdata⟩ := hfills hfill hbuffer
            exact hsafe.copy ⟨hlength, hdata⟩ fun _ => hread
          · exact hsafe
        · exact hsafe
  | completeLast status information rest =>
      obtain ⟨irp, hirp, hinformation⟩ := hhonest
      obtain ⟨hlast, hcompleted⟩ := lastIrp_of_outstanding hirp
      simp only [act, hlast]
      exact hsafe.completeLast hcompleted hinformation
  | clearLast rest => exact ⟨hsafe.inside, hsafe.reads, hsafe.attempts, hsafe.information⟩
  | wait r =>
      simp only [act]
      split
      · exact hsafe
      · split
        · exact hsafe
        · exact hsafe
  | takeNext r =>
      have hpop : Safe c.shared.pop := by
        unfold Shared.pop
        split
        · exact hsafe
        · exact ⟨hsafe.inside, hsafe.reads, hsafe.attempts, hsafe.information⟩
      simp only [act]
      split
      · exact hsafe
      · split
        · exact hpop
        · split
          · exact hpop
          · exact hpop
  | copyOut r answer =>
      obtain ⟨irp, hirp, hcopy⟩ := hhonest
      simp only [act, (lastIrp_of_outstanding hirp).1]
      split
      · next hbuffer => exact hsafe.copy (hcopy hbuffer) fun hinto => Bool.noConfusion hinto
      · exact hsafe
  | unmount =>
      simp only [act]
      split
      · next hmapped =>
        apply Safe.release
        · exact ⟨hsafe.inside, hsafe.reads, hsafe.attempts, hsafe.information⟩
        · exact fun hone => h.counted.open_of_mapped h.cleared hmapped hone
      · exact hsafe
  | release answer =>
      simp only [act]
      exact Safe.release hsafe fun hone => h.counted.open_of_holds h.cleared ht rfl rfl hone
  | done answer => exact hsafe

theorem lastCompleted_release (h : s.release.lastCompleted = true) : s.lastCompleted = true := by
  unfold Shared.release at h
  split at h
  · exact absurd h Bool.noConfusion
  · exact h

/-- Only a completion sets the mark, and the call that made it clears it. -/
theorem lastCompleted_act {t : Thread} {buffer : Bool}
    (h : (act s t buffer).1.lastCompleted = true) :
    (act s t buffer).2.clearing = true ∨ (s.lastCompleted = true ∧ t.clearing = false) := by
  cases t with
  | completeLast status information rest =>
      cases hlast : s.lastIrp with
      | none =>
          simp only [act, hlast] at h
          exact Or.inr ⟨h, rfl⟩
      | some irp =>
          simp only [act, hlast]
          exact Or.inl rfl
  | clearLast rest => exact absurd h Bool.noConfusion
  | unmount =>
      simp only [act] at h
      split at h
      · have hold : Shared.lastCompleted { s with mapped := false } = true :=
          lastCompleted_release h
        exact Or.inr ⟨hold, rfl⟩
      · exact Or.inr ⟨h, rfl⟩
  | release answer => exact Or.inr ⟨lastCompleted_release h, rfl⟩
  | takeNext r =>
      have hpop : s.pop.lastCompleted = true → s.lastCompleted = true := by
        unfold Shared.pop
        split
        · exact fun h => h
        · exact fun h => absurd h Bool.noConfusion
      simp only [act] at h
      right
      split at h
      · exact ⟨h, rfl⟩
      · split at h
        · exact ⟨hpop h, rfl⟩
        · split at h
          · exact ⟨hpop h, rfl⟩
          · exact ⟨hpop h, rfl⟩
  | finishLast r =>
      right
      simp only [act] at h
      split at h
      · exact ⟨h, rfl⟩
      · split at h
        · exact ⟨h, rfl⟩
        · split at h
          · split at h
            · exact ⟨h, rfl⟩
            · exact ⟨h, rfl⟩
          · exact ⟨h, rfl⟩
  | copyOut r answer =>
      right
      simp only [act] at h
      split at h
      · exact ⟨h, rfl⟩
      · split at h
        · exact ⟨h, rfl⟩
        · exact ⟨h, rfl⟩
  | dispatchIrp irp =>
      right
      simp only [act] at h
      split at h
      · exact ⟨h, rfl⟩
      · exact ⟨h, rfl⟩
  | queueIrp irp =>
      right
      simp only [act] at h
      split at h
      · exact ⟨h, rfl⟩
      · exact ⟨h, rfl⟩
  | exchange r =>
      right
      simp only [act] at h
      split at h
      · exact ⟨h, rfl⟩
      · exact ⟨h, rfl⟩
  | wait r =>
      right
      simp only [act] at h
      split at h
      · exact ⟨h, rfl⟩
      · split at h
        · exact ⟨h, rfl⟩
        · exact ⟨h, rfl⟩
  | done answer => exact Or.inr ⟨h, rfl⟩

theorem cleared_act {i : ℕ} {t : Thread} {buffer : Bool} (ht : c.threads[i]? = some t)
    (h : Cleared c) :
    Cleared ⟨(act c.shared t buffer).1, c.threads.set i (act c.shared t buffer).2⟩ := by
  intro hcompleted
  change 0 < (c.threads.set i (act c.shared t buffer).2).countP Thread.clearing
  have hcount := Conf.countP_run Thread.clearing (act c.shared t buffer).2 ht
  rcases lastCompleted_act hcompleted with hnew | ⟨hold, hno⟩
  · rw [if_pos hnew] at hcount
    have hpos : t.clearing = true → 0 < c.threads.countP Thread.clearing := fun hclearing =>
      List.countP_pos_iff.mpr ⟨t, List.mem_of_getElem? ht, hclearing⟩
    by_cases hclearing : t.clearing = true
    · have := hpos hclearing
      rw [if_pos hclearing] at hcount
      omega
    · rw [if_neg hclearing] at hcount
      omega
  · have := h hold
    rw [hno] at hcount
    simp only [Bool.false_eq_true, if_false] at hcount
    omega

/-- **One honest step.** -/
theorem guarded_step {i : ℕ} {t : Thread} {buffer : Bool} (h : Guarded c)
    (ht : c.threads[i]? = some t) (hhonest : Honest c.shared buffer t) :
    Guarded ⟨(act c.shared t buffer).1, c.threads.set i (act c.shared t buffer).2⟩ where
  safe := safe_act h ht hhonest
  counted := counted_act buffer h.counted ht (safe_act h ht hhonest).attempts
  cleared := cleared_act ht h.cleared

theorem Thread.Call.quiet {t : Thread} (h : t.Call) : t.holds = false ∧ t.clearing = false := by
  cases t <;> first | exact ⟨rfl, rfl⟩ | exact absurd h id

/-- **The exchange is safe** as long as every report keeps to the request it is for. -/
theorem safe_of_reach {deviceId : UInt32}
    (h : Reach (Conf.step act) Reported (disk deviceId) c) : Safe c.shared := by
  have hguarded : Guarded c := by
    apply Conf.reach_invariant h
    · constructor
      · constructor <;> simp [disk]
      · rfl
      · exact fun hcompleted => absurd hcompleted Bool.noConfusion
    · intro c t hc hspawn
      obtain ⟨hholds, hclearing⟩ := Thread.Call.quiet hspawn.1
      constructor
      · exact hc.safe
      · have hcounted : c.shared.refs =
            c.shared.mapped.toNat + c.threads.countP Thread.holds := hc.counted
        change c.shared.refs = c.shared.mapped.toNat + (c.threads ++ [t]).countP Thread.holds
        rw [List.countP_append, List.countP_singleton, hholds]
        exact hcounted
      · intro hcompleted
        have := hc.cleared hcompleted
        change 0 < (c.threads ++ [t]).countP Thread.clearing
        rw [List.countP_append]
        omega
    · intro c i buffer t hc hrun ht
      exact guarded_step hc ht (hrun.2 t ht)
  exact hguarded.safe

end Safety

/-! ### Two sessions -/

/-- A read of a sector. -/
def sectorRead : Irp := ⟨0, .read, 512, 0⟩

/-- A call without a report. -/
def firstCall : Request := ⟨0, 0, 0, 0, 1024⟩

/-- The report on a read of `size` bytes. -/
def readDone (size : UInt32) : Request := ⟨0, 1, 0, size, 1024⟩

/-- A server takes a read of a sector and reports on it. -/
def session (size : UInt32) : List (Sched Thread Bool) :=
  [.spawn (.dispatchIrp sectorRead), .run 0 true, .run 0 true, .run 0 true,
    .spawn (.exchange firstCall), .run 1 true, .run 1 true, .run 1 true, .run 1 true, .run 1 true,
    .spawn (.exchange (readDone size)), .run 2 true, .run 2 true, .run 2 true]

theorem safe_of_reach_session :
    Safe ((session 512).foldl (Conf.step act) (disk 0)).shared := by
  apply safe_of_reach (c := (session 512).foldl (Conf.step act) (disk 0))
  apply Reach.foldl .start
  have hrun : ∀ {c : Conf Shared Thread} {i : ℕ} {t : Thread}, c.threads[i]? = some t →
      Honest c.shared true t → Reported c (.run i true) := by
    intro c i t ht hhonest
    refine ⟨trivial, fun u hu => ?_⟩
    rw [ht, Option.some.injEq] at hu
    exact hu ▸ hhonest
  refine ⟨⟨trivial, trivial⟩, hrun rfl trivial, hrun rfl trivial, hrun rfl trivial,
    ⟨trivial, trivial⟩, hrun rfl trivial, hrun rfl ?_, hrun rfl trivial, hrun rfl trivial,
    hrun rfl trivial, ⟨trivial, trivial⟩, hrun rfl trivial, hrun rfl ?_, hrun rfl ?_, trivial⟩
  · exact fun hno => absurd rfl hno
  · exact fun _ => ⟨sectorRead, rfl, fun _ _ => ⟨rfl, by decide, by decide⟩⟩
  · exact ⟨sectorRead, rfl, fun _ => by decide⟩

/-- A report of 1024 bytes on a read of 512: all of them are copied. -/
theorem not_safe_size :
    ¬ ∀ deviceId c, Reach (Conf.step act) Arrives (disk deviceId) c → Safe c.shared := by
  intro h
  have hreach : Reach (Conf.step act) Arrives (disk 0)
      ((session 1024).foldl (Conf.step act) (disk 0)) := by
    apply Reach.foldl .start
    exact ⟨trivial, trivial, trivial, trivial, trivial, trivial, trivial, trivial, trivial, trivial,
      trivial, trivial, trivial, trivial, trivial⟩
  have hinside := (h 0 _ hreach).inside ⟨sectorRead, true, 1024, 1024⟩ (by decide)
  exact absurd hinside.1 (by decide)

end KernelDrivers.CoreMnt
