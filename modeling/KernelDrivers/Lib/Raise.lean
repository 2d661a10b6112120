import Mathlib.Tactic

/-!
# Routines that may raise

A routine of a driver changes a state and returns, or stops part way with the
state as it then is: `EStateM`.  `Sat x s Q E` is the judgement that `x`, started
in `s`, either returns with `Q` or stops with `E`.  A routine has one lemma in this
form and its callers compose these with `Sat.bind`.

## Main definitions

* `Sat x s Q E` — what holds when `x` returns and when it stops.
* `onPart` — a routine on a part of the state.
* `protect` — the `try … finally` of the source: run a handler when the body stops.
* `swallow` — the `try … except` of the source: a stop that is caught ends there.
* `Stops x s` — `x` does not return.
* `Mirrors f x y s` — `x` does in the state `f s` what `y` does in `s`.
* `foldl_range'_invariant` — the rule for a loop over a range of numbers.
-/

namespace KernelDrivers

variable {ε σ τ α β : Type}

/-- `x` started in `s` returns with `Q` or stops with `E`. -/
def Sat (x : EStateM ε σ α) (s : σ) (Q : α → σ → Prop) (E : ε → σ → Prop) : Prop :=
  match x s with
  | .ok a t => Q a t
  | .error e t => E e t

namespace Sat

theorem of_ok {x : EStateM ε σ α} {s t : σ} {a : α} {Q : α → σ → Prop} {E : ε → σ → Prop}
    (h : x s = .ok a t) (hQ : Q a t) : Sat x s Q E := by
  rw [Sat, h]
  exact hQ

theorem of_error {x : EStateM ε σ α} {s t : σ} {e : ε} {Q : α → σ → Prop} {E : ε → σ → Prop}
    (h : x s = .error e t) (hE : E e t) : Sat x s Q E := by
  rw [Sat, h]
  exact hE

/-- Two routines that end the same way. -/
theorem of_eq {x y : EStateM ε σ α} {s t : σ} {Q : α → σ → Prop} {E : ε → σ → Prop}
    (h : x s = y t) (hy : Sat y t Q E) : Sat x s Q E := by
  rw [Sat, h]
  exact hy

theorem ok {x : EStateM ε σ α} {s t : σ} {a : α} {Q : α → σ → Prop} {E : ε → σ → Prop}
    (h : Sat x s Q E) (hx : x s = .ok a t) : Q a t := by
  rw [Sat, hx] at h
  exact h

theorem error {x : EStateM ε σ α} {s t : σ} {e : ε} {Q : α → σ → Prop} {E : ε → σ → Prop}
    (h : Sat x s Q E) (hx : x s = .error e t) : E e t := by
  rw [Sat, hx] at h
  exact h

/-- A routine that cannot stop returns. -/
theorem exists_ok {x : EStateM ε σ α} {s : σ} {Q : α → σ → Prop} {E : ε → σ → Prop}
    (h : Sat x s Q E) (hE : ∀ e t, ¬ E e t) : ∃ a t, x s = .ok a t ∧ Q a t := by
  cases hx : x s with
  | ok a t => exact ⟨a, t, rfl, h.ok hx⟩
  | error e t => exact absurd (h.error hx) (hE e t)

theorem mono {x : EStateM ε σ α} {s : σ} {Q Q' : α → σ → Prop} {E E' : ε → σ → Prop}
    (h : Sat x s Q E) (hQ : ∀ a t, Q a t → Q' a t) (hE : ∀ e t, E e t → E' e t) :
    Sat x s Q' E' := by
  rw [Sat] at *
  cases hx : x s with
  | ok a t =>
      rw [hx] at h
      exact hQ a t h
  | error e t =>
      rw [hx] at h
      exact hE e t h

/-- What is known of a routine twice. -/
theorem and {x : EStateM ε σ α} {s : σ} {Q Q' : α → σ → Prop} {E E' : ε → σ → Prop}
    (h : Sat x s Q E) (h' : Sat x s Q' E') :
    Sat x s (fun a t => Q a t ∧ Q' a t) fun e t => E e t ∧ E' e t := by
  cases hx : x s with
  | ok a t => exact of_ok hx ⟨h.ok hx, h'.ok hx⟩
  | error e t => exact of_error hx ⟨h.error hx, h'.error hx⟩

/-- A routine that returns, with the fact that it did. -/
theorem keep {x : EStateM ε σ α} {s : σ} {Q : α → σ → Prop} {E : ε → σ → Prop}
    (h : Sat x s Q E) : Sat x s (fun a t => Q a t ∧ x s = .ok a t) E := by
  cases hx : x s with
  | ok a t => exact of_ok hx ⟨h.ok hx, rfl⟩
  | error e t => exact of_error hx (h.error hx)

theorem pure {a : α} {s : σ} {Q : α → σ → Prop} {E : ε → σ → Prop} (h : Q a s) :
    Sat (pure a : EStateM ε σ α) s Q E := h

theorem throw {e : ε} {s : σ} {Q : α → σ → Prop} {E : ε → σ → Prop} (h : E e s) :
    Sat (throw e : EStateM ε σ α) s Q E := h

theorem modify {f : σ → σ} {s : σ} {Q : PUnit → σ → Prop} {E : ε → σ → Prop} (h : Q ⟨⟩ (f s)) :
    Sat (modify f : EStateM ε σ PUnit) s Q E := h

/-- The rule of sequencing. -/
theorem bind {x : EStateM ε σ α} {f : α → EStateM ε σ β} {s : σ} {R : α → σ → Prop}
    {Q : β → σ → Prop} {E : ε → σ → Prop} (hx : Sat x s R E)
    (hf : ∀ a t, R a t → Sat (f a) t Q E) : Sat (x >>= f) s Q E := by
  cases h : x s with
  | ok a t =>
      have hrun : (x >>= f) s = f a t := by
        change EStateM.bind x f s = _
        rw [EStateM.bind, h]
      have := hf a t (hx.ok h)
      rwa [Sat, ← hrun] at this
  | error e t =>
      have hrun : (x >>= f) s = .error e t := by
        change EStateM.bind x f s = _
        rw [EStateM.bind, h]
      exact of_error hrun (hx.error h)

theorem get_bind {f : σ → EStateM ε σ β} {s : σ} {Q : β → σ → Prop} {E : ε → σ → Prop}
    (h : Sat (f s) s Q E) : Sat (get >>= f) s Q E := h

theorem set_bind {f : PUnit → EStateM ε σ β} {s t : σ} {Q : β → σ → Prop} {E : ε → σ → Prop}
    (h : Sat (f ⟨⟩) t Q E) : Sat (set t >>= f) s Q E := h

theorem modify_bind {u : σ → σ} {f : PUnit → EStateM ε σ β} {s : σ} {Q : β → σ → Prop}
    {E : ε → σ → Prop} (h : Sat (f ⟨⟩) (u s) Q E) :
    Sat ((MonadStateOf.modifyGet fun s => (⟨⟩, u s) : EStateM ε σ PUnit) >>= f) s Q E := h

/-- A stop that is caught goes on in the handler. -/
theorem tryCatch {x : EStateM Unit σ α} {handler : Unit → EStateM Unit σ α} {s : σ}
    {Q : α → σ → Prop} {R E : Unit → σ → Prop} (hx : Sat x s Q R)
    (hhandler : ∀ e t, R e t → Sat (handler e) t Q E) : Sat (tryCatch x handler) s Q E := by
  have htry : (MonadExcept.tryCatch x handler) s = EStateM.tryCatch x handler s := rfl
  rw [Sat, htry, EStateM.tryCatch]
  cases hrun : x s with
  | ok a t => exact hx.ok hrun
  | error e t => exact hhandler e t (hx.error hrun)

end Sat

/-- Run a routine on the part of the state that `get` selects. -/
def onPart (get : σ → τ) (set : σ → τ → σ) (x : EStateM ε τ α) : EStateM ε σ α := fun s =>
  match x (get s) with
  | .ok a t => .ok a (set s t)
  | .error e t => .error e (set s t)

theorem Sat.onPart {get : σ → τ} {set : σ → τ → σ} {x : EStateM ε τ α} {s : σ}
    {Q : α → σ → Prop} {E : ε → σ → Prop}
    (h : Sat x (get s) (fun a t => Q a (set s t)) (fun e t => E e (set s t))) :
    Sat (onPart get set x) s Q E := by
  rw [Sat] at *
  simp only [KernelDrivers.onPart]
  cases hx : x (get s) with
  | ok a t => simpa [hx] using h
  | error e t => simpa [hx] using h

/-- `try x finally { if (AbnormalTermination()) h }`: when `x` stops, the handler
runs and the stop goes on.  `catches` says which stops reach the handler. -/
def protect (catches : ε → Bool) (h : EStateM ε σ Unit) (x : EStateM ε σ α) : EStateM ε σ α :=
  fun s =>
    match x s with
    | .ok a t => .ok a t
    | .error e t =>
        if catches e then
          match h t with
          | .ok _ t => .error e t
          | .error e' t => .error e' t
        else .error e t

theorem Sat.protect {catches : ε → Bool} {h : EStateM ε σ Unit} {x : EStateM ε σ α} {s : σ}
    {Q : α → σ → Prop} {E : ε → σ → Prop}
    (hx : Sat x s Q fun e t =>
      if catches e then Sat h t (fun _ t => E e t) E else E e t) :
    Sat (protect catches h x) s Q E := by
  rw [Sat] at *
  simp only [KernelDrivers.protect]
  cases hr : x s with
  | ok a t => simpa [hr] using hx
  | error e t =>
      rw [hr] at hx
      by_cases hc : catches e = true
      · simp only [hc, if_true] at hx ⊢
        rw [Sat] at hx
        cases hh : h t with
        | ok u t' => simpa [hh] using hx
        | error e' t' => simpa [hh] using hx
      · simpa [hc] using hx

/-- A handler cannot undo what is known of a stop whatever the state is. -/
theorem Sat.protect_const {catches : ε → Bool} {h : EStateM ε σ Unit} {x : EStateM ε σ α} {s : σ}
    {Q : α → σ → Prop} {P : Prop} (hx : Sat x s Q fun _ _ => P) :
    Sat (KernelDrivers.protect catches h x) s Q fun _ _ => P := by
  apply Sat.protect
  refine hx.mono (fun _ _ hq => hq) fun e t hP => ?_
  split
  · rw [Sat]
    cases h t <;> exact hP
  · exact hP

/-- `try x except (catches) {}`: a stop that is caught ends here, with the state as it is. -/
def swallow (catches : ε → Bool) (x : EStateM ε σ Unit) : EStateM ε σ Unit := fun s =>
  match x s with
  | .ok a t => .ok a t
  | .error e t => if catches e then .ok () t else .error e t

theorem Sat.swallow {catches : ε → Bool} {x : EStateM ε σ Unit} {s : σ} {Q : Unit → σ → Prop}
    {E : ε → σ → Prop} (hx : Sat x s Q fun e t => if catches e then Q () t else E e t) :
    Sat (swallow catches x) s Q E := by
  rw [Sat] at *
  simp only [KernelDrivers.swallow]
  cases hr : x s with
  | ok a t => simpa [hr] using hx
  | error e t =>
      rw [hr] at hx
      by_cases hc : catches e = true
      · simpa [hc] using hx
      · simpa [hc] using hx

theorem get_bind_run (f : σ → EStateM ε σ β) (s : σ) : (get >>= f) s = f s s := rfl

theorem modify_bind_run (u : σ → σ) (f : PUnit → EStateM ε σ β) (s : σ) :
    ((modify u : EStateM ε σ PUnit) >>= f) s = f ⟨⟩ (u s) := rfl

theorem throw_run (e : ε) (s : σ) : (throw e : EStateM ε σ α) s = .error e s := rfl

/-- A run that has a value returned. -/
theorem ok_of_run' {x : EStateM ε σ α} {s : σ} {a : α} (h : x.run' s = some a) :
    ∃ t, x s = .ok a t := by
  delta EStateM.run' EStateM.run at h
  cases hx : x s with
  | ok b t =>
      rw [hx] at h
      cases h
      exact ⟨t, rfl⟩
  | error e t =>
      rw [hx] at h
      cases h

/-- A sequence that returns: both parts returned. -/
theorem bind_eq_ok {x : EStateM ε σ α} {f : α → EStateM ε σ β} {s t : σ} {b : β}
    (h : (x >>= f) s = .ok b t) : ∃ a s', x s = .ok a s' ∧ f a s' = .ok b t := by
  change EStateM.bind x f s = _ at h
  rw [EStateM.bind] at h
  cases hx : x s with
  | ok a s' =>
      rw [hx] at h
      exact ⟨a, s', rfl, h⟩
  | error e s' =>
      rw [hx] at h
      simp at h

/-- Only the body of a protected routine can return. -/
theorem protect_eq_ok {catches : ε → Bool} {h : EStateM ε σ Unit} {x : EStateM ε σ α} {s t : σ}
    {a : α} (hp : protect catches h x s = .ok a t) : x s = .ok a t := by
  rw [protect] at hp
  cases hx : x s with
  | ok b s' =>
      rw [hx] at hp
      exact hp
  | error e s' =>
      rw [hx] at hp
      dsimp only at hp
      split at hp
      · split at hp <;> simp at hp
      · simp at hp

/-- `x` started in `s` does not return. -/
def Stops (x : EStateM ε σ α) (s : σ) : Prop := ∀ a t, x s ≠ .ok a t

namespace Stops

variable {x : EStateM ε σ α} {s : σ}

theorem sat (h : Stops x s) {Q : α → σ → Prop} : Sat x s Q fun _ _ => True := by
  rw [Sat]
  cases hx : x s with
  | ok a t => exact absurd hx (h a t)
  | error e t => trivial

theorem bind (h : Stops x s) (f : α → EStateM ε σ β) : Stops (x >>= f) s := by
  intro b t hok
  obtain ⟨a, s', hx, -⟩ := bind_eq_ok hok
  exact h a s' hx

/-- A routine that stops behind one that leaves the state alone. -/
theorem bind_of_same {f : α → EStateM ε σ β} (hx : ∀ a t, x s = .ok a t → t = s)
    (hf : ∀ a, Stops (f a) s) : Stops (x >>= f) s := by
  intro b t hok
  obtain ⟨a, s', hx', hf'⟩ := bind_eq_ok hok
  rw [hx a s' hx'] at hf'
  exact hf a b t hf'

theorem onPart {get : τ → σ} {set : τ → σ → τ} {u : τ} (h : Stops x (get u)) :
    Stops (onPart get set x) u := by
  intro a t hok
  rw [KernelDrivers.onPart] at hok
  cases hx : x (get u) with
  | ok b s' => exact h b s' hx
  | error e s' =>
      rw [hx] at hok
      simp at hok

theorem protect (h : Stops x s) (catches : ε → Bool) (handler : EStateM ε σ Unit) :
    Stops (protect catches handler x) s := fun a t hok => h a t (protect_eq_ok hok)

end Stops

/-- `x` started in `f s` ends as `y` started in `s` does, up to the change `f` of the state. -/
def Mirrors (f : σ → σ) (x y : EStateM ε σ α) (s : σ) : Prop :=
  x (f s) = match y s with
    | .ok a t => .ok a (f t)
    | .error e t => .error e (f t)

namespace Mirrors

variable {f : σ → σ} {x y : EStateM ε σ α} {k l : α → EStateM ε σ β} {s : σ}

/-- What is known of `y` holds of `x` up to the change. -/
theorem sat {Q : α → σ → Prop} {E : ε → σ → Prop} (h : Mirrors f x y s)
    (hy : Sat y s (fun a t => Q a (f t)) fun e t => E e (f t)) : Sat x (f s) Q E := by
  rw [Mirrors] at h
  cases hrun : y s with
  | ok a t =>
      rw [hrun] at h
      exact Sat.of_ok h (hy.ok hrun)
  | error e t =>
      rw [hrun] at h
      exact Sat.of_error h (hy.error hrun)

/-- A routine mirrors itself when nothing is changed. -/
theorem refl (x : EStateM ε σ α) : Mirrors id x x s := by
  rw [Mirrors]
  cases h : x s <;> exact h

theorem pure (a : α) : Mirrors f (pure a : EStateM ε σ α) (pure a) s := rfl

theorem throw (e : ε) : Mirrors f (throw e : EStateM ε σ α) (throw e) s := rfl

theorem modify {u v : σ → σ} (h : u (f s) = f (v s)) :
    Mirrors f (modify u : EStateM ε σ PUnit) (modify v) s := by
  change EStateM.Result.ok PUnit.unit (u (f s)) = _
  rw [h]
  rfl

theorem bind (hx : Mirrors f x y s) (hk : ∀ a t, Mirrors f (k a) (l a) t) :
    Mirrors f (x >>= k) (y >>= l) s := by
  rw [Mirrors] at hx
  change EStateM.bind x k (f s) = match EStateM.bind y l s with | .ok b t => _ | .error e t => _
  rw [EStateM.bind, EStateM.bind, hx]
  cases y s with
  | ok a t => exact hk a t
  | error e t => rfl

theorem ite {c c' : Prop} [Decidable c] [Decidable c'] {x' y' : EStateM ε σ α} (hc : c ↔ c')
    (hx : c' → Mirrors f x y s) (hx' : ¬ c' → Mirrors f x' y' s) :
    Mirrors f (if c then x else x') (if c' then y else y') s := by
  by_cases h : c'
  · rw [if_pos h, if_pos (hc.mpr h)]
    exact hx h
  · rw [if_neg h, if_neg fun hn => h (hc.mp hn)]
    exact hx' h

theorem get_bind {k l : σ → EStateM ε σ β} (h : Mirrors f (k (f s)) (l s) s) :
    Mirrors f (get >>= k) (get >>= l) s := h

theorem set_bind {k l : PUnit → EStateM ε σ β} {t t' : σ} (ht : t = f t')
    (h : Mirrors f (k ⟨⟩) (l ⟨⟩) t') : Mirrors f (set t >>= k) (set t' >>= l) s := by
  rw [ht]
  exact h

theorem modify_bind {k l : PUnit → EStateM ε σ β} {u v : σ → σ} (hu : u (f s) = f (v s))
    (h : Mirrors f (k ⟨⟩) (l ⟨⟩) (v s)) :
    Mirrors f ((MonadStateOf.modifyGet fun s => (⟨⟩, u s) : EStateM ε σ PUnit) >>= k)
      ((MonadStateOf.modifyGet fun s => (⟨⟩, v s) : EStateM ε σ PUnit) >>= l) s := by
  change k ⟨⟩ (u (f s)) = _
  rw [hu]
  exact h

theorem onPart {get : σ → τ} {set : σ → τ → σ} {f' : τ → τ} {x y : EStateM ε τ α}
    (h : Mirrors f' x y (get s)) (hget : get (f s) = f' (get s))
    (hset : ∀ t, set (f s) (f' t) = f (set s t)) :
    Mirrors f (onPart get set x) (KernelDrivers.onPart get set y) s := by
  rw [Mirrors] at *
  rw [KernelDrivers.onPart, KernelDrivers.onPart, hget, h]
  cases y (get s) with
  | ok a t => exact congrArg (EStateM.Result.ok a) (hset t)
  | error e t => exact congrArg (EStateM.Result.error e) (hset t)

theorem protect {catches : ε → Bool} {h h' : EStateM ε σ Unit} (hx : Mirrors f x y s)
    (hh : ∀ t, Mirrors f h h' t) :
    Mirrors f (protect catches h x) (KernelDrivers.protect catches h' y) s := by
  rw [Mirrors] at *
  rw [KernelDrivers.protect, KernelDrivers.protect, hx]
  cases y s with
  | ok a t => rfl
  | error e t =>
      have ht := hh t
      rw [Mirrors] at ht
      dsimp only
      split
      · rw [ht]
        cases h' t <;> rfl
      · rfl

end Mirrors

/-- `x` leaves the part `p` of the state alone, however it ends. -/
def Keeps (p : σ → τ) (x : EStateM ε σ α) : Prop :=
  ∀ s, Sat x s (fun _ t => p t = p s) fun _ t => p t = p s

namespace Keeps

variable {p : σ → τ} {x : EStateM ε σ α}

theorem pure (a : α) : Keeps p (pure a : EStateM ε σ α) := fun _ => Sat.pure rfl

theorem throw (e : ε) : Keeps p (throw e : EStateM ε σ α) := fun _ => Sat.throw rfl

theorem modify {u : σ → σ} (h : ∀ s, p (u s) = p s) :
    Keeps p (modify u : EStateM ε σ PUnit) := fun s => Sat.modify (h s)

theorem bind {f : α → EStateM ε σ β} (hx : Keeps p x) (hf : ∀ a, Keeps p (f a)) :
    Keeps p (x >>= f) := by
  intro s
  refine Sat.bind (hx s) fun a t ht => (hf a t).mono ?_ ?_
  · exact fun _ _ h => h.trans ht
  · exact fun _ _ h => h.trans ht

theorem get_bind {f : σ → EStateM ε σ β} (h : ∀ s, Keeps p (f s)) : Keeps p (get >>= f) :=
  fun s => Sat.get_bind (h s s)

theorem ite {c : Prop} [Decidable c] {y : EStateM ε σ α} (hx : Keeps p x) (hy : Keeps p y) :
    Keeps p (if c then x else y) := by
  split
  · exact hx
  · exact hy

/-- A routine on another part. -/
theorem onPart {υ : Type} {get : σ → υ} {set : σ → υ → σ} (h : ∀ s t, p (set s t) = p s)
    (y : EStateM ε υ α) : Keeps p (onPart get set y) := by
  intro s
  apply Sat.onPart
  cases hy : y (get s) with
  | ok a t => exact Sat.of_ok hy (h s t)
  | error e t => exact Sat.of_error hy (h s t)

end Keeps

/-- What holds before the first pass and is kept by every pass holds after the last. -/
theorem foldl_range'_invariant {f : α → ℕ → α} {a : α} {s n : ℕ} (P : ℕ → α → Prop)
    (h0 : P s a) (hstep : ∀ i a, s ≤ i → i < s + n → P i a → P (i + 1) (f a i)) :
    P (s + n) ((List.range' s n).foldl f a) := by
  induction n with
  | zero => exact h0
  | succ n ih =>
      rw [List.range'_concat, List.foldl_append, List.foldl_cons, List.foldl_nil, Nat.one_mul]
      rw [← Nat.add_assoc]
      exact hstep _ _ (by omega) (by omega) (ih fun i a hi hin => hstep i a hi (by omega))

end KernelDrivers
