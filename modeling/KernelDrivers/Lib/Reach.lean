import Mathlib.Order.Basic

/-!
# Reachable states

A system that takes one event after the other.  `Reach step ok s₀ s` says that some sequence
of events, each of them allowed by `ok` in the state it meets, leads from `s₀` to `s`.

## Main results

* `Reach.invariant` — what every allowed event keeps holds in every state reached.
* `Reach.foldl` — a list of allowed events leads to a state that is reached.
* `AllowedAll.length_le` — allowed events that each lower a measure come to an end.
-/

namespace KernelDrivers

variable {σ ε : Type} {step : σ → ε → σ} {ok : σ → ε → Prop} {s₀ s : σ}

inductive Reach (step : σ → ε → σ) (ok : σ → ε → Prop) (s₀ : σ) : σ → Prop
  | start : Reach step ok s₀ s₀
  | next {s : σ} (h : Reach step ok s₀ s) {e : ε} (he : ok s e) : Reach step ok s₀ (step s e)

/-- What holds at the start and is kept by every event holds in every state reached. -/
theorem Reach.invariant {P : σ → Prop} (h : Reach step ok s₀ s) (h0 : P s₀)
    (hstep : ∀ s e, P s → ok s e → P (step s e)) : P s := by
  induction h with
  | start => exact h0
  | next _ he ih => exact hstep _ _ ih he

/-- Each event of a list is allowed in the state it meets. -/
def AllowedAll (step : σ → ε → σ) (ok : σ → ε → Prop) : σ → List ε → Prop
  | _, [] => True
  | s, e :: es => ok s e ∧ AllowedAll step ok (step s e) es

/-- What every allowed event keeps holds behind a list of them. -/
theorem AllowedAll.invariant {P : σ → Prop} (hstep : ∀ s e, P s → ok s e → P (step s e))
    {es : List ε} (h0 : P s) (hes : AllowedAll step ok s es) : P (es.foldl step s) := by
  induction es generalizing s with
  | nil => exact h0
  | cons e es ih => exact ih (hstep s e h0 hes.1) hes.2

/-- No list of allowed events is longer than a measure that each of them lowers. -/
theorem AllowedAll.length_le {P : σ → Prop} {μ : σ → ℕ}
    (hstep : ∀ s e, P s → ok s e → P (step s e)) (hμ : ∀ s e, P s → ok s e → μ (step s e) < μ s)
    {es : List ε} (h0 : P s) (hes : AllowedAll step ok s es) : es.length ≤ μ s := by
  induction es generalizing s with
  | nil => exact Nat.zero_le _
  | cons e es ih =>
      have htail := ih (hstep s e h0 hes.1) hes.2
      have hlt := hμ s e h0 hes.1
      rw [List.length_cons]
      exact Nat.succ_le_of_lt (Nat.lt_of_le_of_lt htail hlt)

theorem Reach.foldl {es : List ε} (h : Reach step ok s₀ s) (hes : AllowedAll step ok s es) :
    Reach step ok s₀ (es.foldl step s) := by
  induction es generalizing s with
  | nil => exact h
  | cons e es ih => exact ih (.next h hes.1) hes.2

end KernelDrivers
