import Mathlib.Tactic

/-!
# Loops that take turns with their environment

A loop that gets an answer from its environment in each turn, and goes on in a new state or ends with a
result.

## Main definitions

* `after` — where the loop is after some turns.
* `Ends` — the loop ends with a result.

## Main results

* `invariant`, `invariant_of_inl` — what every turn keeps.
* `ends_of_wf` — a loop whose turns go down a well-founded order ends.
* `ends_or_stalls` — a loop whose turns never go up ends, or stays at one height.
-/

namespace KernelDrivers.Turns

variable {σ ε ρ : Type} {step : σ → ε → σ ⊕ ρ} {start : σ ⊕ ρ} {es : ℕ → ε}

/-- Where the loop is after `n` turns. -/
def after (step : σ → ε → σ ⊕ ρ) (start : σ ⊕ ρ) (es : ℕ → ε) : ℕ → σ ⊕ ρ
  | 0 => start
  | n + 1 =>
      match after step start es n with
      | .inl s => step s (es n)
      | .inr r => .inr r

/-- The loop ends with `r`. -/
def Ends (step : σ → ε → σ ⊕ ρ) (start : σ ⊕ ρ) (es : ℕ → ε) (r : ρ) : Prop :=
  ∃ n, after step start es n = .inr r

theorem after_succ {n : ℕ} {s : σ} (h : after step start es n = .inl s) :
    after step start es (n + 1) = step s (es n) := by
  rw [after, h]

/-- What has ended stays so. -/
theorem after_of_le {n m : ℕ} {r : ρ} (h : after step start es n = .inr r) (hle : n ≤ m) :
    after step start es m = .inr r := by
  induction m, hle using Nat.le_induction with
  | base => exact h
  | succ m _ ih => rw [after, ih]

theorem exists_inl_of_le {n m : ℕ} {s : σ} (h : after step start es m = .inl s) (hle : n ≤ m) :
    ∃ s', after step start es n = .inl s' := by
  cases hn : after step start es n with
  | inl s' => exact ⟨s', rfl⟩
  | inr r =>
      rw [after_of_le hn hle] at h
      cases h

theorem Ends.unique {r r' : ρ} (h : Ends step start es r) (h' : Ends step start es r') : r = r' := by
  obtain ⟨n, hn⟩ := h
  obtain ⟨m, hm⟩ := h'
  have hr := after_of_le hn (Nat.le_max_left n m)
  have hr' := after_of_le hm (Nat.le_max_right n m)
  exact Sum.inr.inj (hr.symm.trans hr')

/-- A loop that never goes on without an end does not end. -/
theorem not_ends {r : ρ} (h : ∀ n, ∃ s, after step start es n = .inl s) : ¬ Ends step start es r := by
  rintro ⟨n, hn⟩
  obtain ⟨s, hs⟩ := h n
  rw [hs] at hn
  cases hn

/-- What holds at the start and is kept by each turn holds after every turn. -/
theorem invariant {I : ℕ → σ → Prop} {Q : ρ → Prop} (hstart : start.elim (I 0) Q)
    (hstep : ∀ n s, after step start es n = .inl s → I n s → (step s (es n)).elim (I (n + 1)) Q)
    (n : ℕ) : (after step start es n).elim (I n) Q := by
  induction n with
  | zero => exact hstart
  | succ n ih =>
      cases hn : after step start es n with
      | inl s =>
          rw [hn] at ih
          rw [after_succ hn]
          exact hstep n s hn ih
      | inr r =>
          rw [hn] at ih
          rw [after_of_le hn (Nat.le_succ n)]
          exact ih

/-- The same for the states alone. -/
theorem invariant_of_inl {I : ℕ → σ → Prop} (hstart : ∀ s, start = .inl s → I 0 s)
    (hstep : ∀ n s s', after step start es n = .inl s → I n s → step s (es n) = .inl s' → I (n + 1) s')
    {n : ℕ} {s : σ} (h : after step start es n = .inl s) : I n s := by
  induction n generalizing s with
  | zero => exact hstart s h
  | succ n ih =>
      obtain ⟨s₀, hs₀⟩ := exists_inl_of_le h (Nat.le_succ n)
      exact hstep n s₀ s hs₀ (ih hs₀) ((after_succ hs₀).symm.trans h)

/-- A result comes from the last turn, or there was none. -/
theorem Ends.exists_last {r : ρ} (h : Ends step start es r) :
    start = .inr r ∨ ∃ n s, after step start es n = .inl s ∧ step s (es n) = .inr r := by
  obtain ⟨n, hn⟩ := h
  induction n with
  | zero => exact .inl hn
  | succ n ih =>
      cases hs : after step start es n with
      | inl s => exact .inr ⟨n, s, hs, (after_succ hs).symm.trans hn⟩
      | inr r' =>
          rw [after_of_le hs (Nat.le_succ n)] at hn
          exact ih (hs.trans hn)

/-- A loop without an end runs through states. -/
theorem exists_run (h : ¬ ∃ r, Ends step start es r) :
    ∃ run : ℕ → σ, (∀ n, after step start es n = .inl (run n)) ∧
      ∀ n, step (run n) (es n) = .inl (run (n + 1)) := by
  have hrun : ∀ n, ∃ s, after step start es n = .inl s := by
    intro n
    cases hn : after step start es n with
    | inl s => exact ⟨s, rfl⟩
    | inr r => exact absurd ⟨r, n, hn⟩ h
  choose run hrun using hrun
  exact ⟨run, hrun, fun n => (after_succ (hrun n)).symm.trans (hrun (n + 1))⟩

/-- A loop whose turns go down a well-founded order ends. -/
theorem ends_of_wf {α : Type} {r : α → α → Prop} (hwf : WellFounded r) (μ : σ → α)
    (hstep : ∀ n s s', after step start es n = .inl s → step s (es n) = .inl s' → r (μ s') (μ s)) :
    ∃ result, Ends step start es result := by
  by_contra hnever
  obtain ⟨run, hrun, hnext⟩ := exists_run hnever
  obtain ⟨_, ⟨n, rfl⟩, hmin⟩ := hwf.has_min (Set.range fun n => μ (run n)) ⟨_, 0, rfl⟩
  exact hmin _ ⟨n + 1, rfl⟩ (hstep n _ _ (hrun n) (hnext n))

/-- A loop whose turns never go up ends, or from some turn on they all stay at one height. -/
theorem ends_or_stalls (μ : σ → ℕ)
    (hstep : ∀ n s s', after step start es n = .inl s → step s (es n) = .inl s' → μ s' ≤ μ s) :
    (∃ r, Ends step start es r) ∨
      ∃ n, ∀ m, n ≤ m → ∃ s s', after step start es m = .inl s ∧ step s (es m) = .inl s' ∧ μ s' = μ s := by
  by_cases hends : ∃ r, Ends step start es r
  · exact .inl hends
  · obtain ⟨run, hrun, hnext⟩ := exists_run hends
    have hanti : Antitone fun n => μ (run n) :=
      antitone_nat_of_succ_le fun n => hstep n _ _ (hrun n) (hnext n)
    obtain ⟨_, ⟨n, rfl⟩, hmin⟩ :=
      (@wellFounded_lt ℕ _ _).has_min (Set.range fun n => μ (run n)) ⟨_, 0, rfl⟩
    refine .inr ⟨n, fun m hm => ⟨run m, run (m + 1), hrun m, hnext m, le_antisymm ?_ ?_⟩⟩
    · exact hanti (Nat.le_succ m)
    · exact (hanti hm).trans (not_lt.mp (hmin _ ⟨m + 1, rfl⟩))

end KernelDrivers.Turns
