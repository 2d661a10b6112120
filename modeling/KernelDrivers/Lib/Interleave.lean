import KernelDrivers.Lib.Reach
import Mathlib.Tactic

/-!
# Threads over a shared state

Any number of threads, each with a state of its own, take steps on a shared state in any order.
A step of a thread is a function of the shared state, of the thread's state and of what the
environment chooses.

## Main definitions

* `Conf σ τ` — a shared state and the threads.
* `Sched` — the next event of a schedule: a new thread, or a step of one.
* `Conf.step` — the configuration behind an event.

## Main results

* `Conf.countP_run` — how a count over the threads changes in a step.
* `Conf.two_le_countP` — two threads count twice.
* `Conf.reach_invariant` — the invariant rule, by the step of one thread.
-/

namespace KernelDrivers

variable {σ τ χ : Type}

structure Conf (σ τ : Type) where
  shared : σ
  threads : List τ

inductive Sched (τ χ : Type)
  | spawn (t : τ)
  | run (i : ℕ) (x : χ)

namespace Conf

/-- The configuration behind an event.  A thread that does not exist takes no step. -/
def step (act : σ → τ → χ → σ × τ) (c : Conf σ τ) : Sched τ χ → Conf σ τ
  | .spawn t => { c with threads := c.threads ++ [t] }
  | .run i x =>
      match c.threads[i]? with
      | none => c
      | some t => ⟨(act c.shared t x).1, c.threads.set i (act c.shared t x).2⟩

theorem step_run {act : σ → τ → χ → σ × τ} {c : Conf σ τ} {i : ℕ} {t : τ} (x : χ)
    (ht : c.threads[i]? = some t) :
    c.step act (.run i x) = ⟨(act c.shared t x).1, c.threads.set i (act c.shared t x).2⟩ := by
  simp only [step, ht]

/-- A thread that is replaced changes a count by its own part only. -/
theorem countP_run (p : τ → Bool) {threads : List τ} {i : ℕ} {t : τ} (t' : τ)
    (ht : threads[i]? = some t) :
    (threads.set i t').countP p + (if p t then 1 else 0) =
      threads.countP p + (if p t' then 1 else 0) := by
  obtain ⟨hi, rfl⟩ := List.getElem?_eq_some_iff.mp ht
  rw [List.countP_set hi]
  have hle : (if p threads[i] then 1 else 0) ≤ threads.countP p := by
    split
    · next hp => exact List.countP_pos_iff.mpr ⟨_, List.getElem_mem hi, hp⟩
    · exact Nat.zero_le _
  omega

/-- Two threads count twice. -/
theorem two_le_countP {p : τ → Bool} {threads : List τ} {i j : ℕ} {t t' : τ} (hij : i ≠ j)
    (hi : threads[i]? = some t) (hj : threads[j]? = some t') (ht : p t) (ht' : p t') :
    2 ≤ threads.countP p := by
  induction threads generalizing i j with
  | nil => simp at hi
  | cons u us ih =>
      have htail : ∀ {k : ℕ} {v : τ}, us[k]? = some v → p v → 1 ≤ us.countP p := fun hk hv =>
        List.countP_pos_iff.mpr ⟨_, List.mem_of_getElem? hk, hv⟩
      rw [List.countP_cons]
      cases i with
      | zero =>
          cases j with
          | zero => exact absurd rfl hij
          | succ j =>
              simp only [List.getElem?_cons_zero, Option.some.injEq] at hi
              simp only [List.getElem?_cons_succ] at hj
              have := htail hj ht'
              simp only [hi, ht, if_true]
              omega
      | succ i =>
          simp only [List.getElem?_cons_succ] at hi
          cases j with
          | zero =>
              simp only [List.getElem?_cons_zero, Option.some.injEq] at hj
              have := htail hi ht
              simp only [hj, ht', if_true]
              omega
          | succ j =>
              simp only [List.getElem?_cons_succ] at hj
              have := ih (fun h => hij (congrArg _ h)) hi hj
              omega

/-- What holds at the start, is kept by new threads and by every step of a thread, holds in
every configuration reached. -/
theorem reach_invariant {act : σ → τ → χ → σ × τ} {ok : Conf σ τ → Sched τ χ → Prop}
    {c₀ c : Conf σ τ} {P : Conf σ τ → Prop} (h : Reach (step act) ok c₀ c) (h0 : P c₀)
    (hspawn : ∀ c t, P c → ok c (.spawn t) → P { c with threads := c.threads ++ [t] })
    (hrun : ∀ c i x t, P c → ok c (.run i x) → c.threads[i]? = some t →
      P ⟨(act c.shared t x).1, c.threads.set i (act c.shared t x).2⟩) : P c := by
  refine h.invariant h0 fun c e hc he => ?_
  cases e with
  | spawn t => exact hspawn c t hc he
  | run i x =>
      cases ht : c.threads[i]? with
      | none =>
          have hsame : c.step act (.run i x) = c := by simp only [step, ht]
          rwa [hsame]
      | some t =>
          rw [step_run x ht]
          exact hrun c i x t hc he ht

end Conf

end KernelDrivers
