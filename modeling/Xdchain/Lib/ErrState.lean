/-! # Go-style methods as `EStateM` computations

A method on a pointer receiver that mutates its receiver and returns an error
is an `EStateM` computation: what it changed before the error stays changed.
`attempt` gives the error back as a value, for the callers that inspect it
(`if err == X`). The lemmas below read a computation off in two directions:
forwards, when the result of the first step is known, and backwards, from a
successful run of a bind to the runs of its two parts. -/

namespace Xdchain.Lib.ErrState

variable {ε σ α β : Type}

/-- Run `x` and return its error as a value; the state is kept either way. -/
def attempt (x : EStateM ε σ α) : EStateM ε σ (Except ε α) := fun s =>
  match x s with
  | .ok a s => .ok (.ok a) s
  | .error e s => .ok (.error e) s

/-- The state a run ends in, whether it succeeded or failed. -/
def stateOf : EStateM.Result ε σ α → σ
  | .ok _ s => s
  | .error _ s => s

@[simp] theorem run_attempt (x : EStateM ε σ α) (s : σ) :
    (attempt x).run s = match x.run s with
      | .ok a s => .ok (.ok a) s
      | .error e s => .ok (.error e) s := rfl

@[simp] theorem run_throw_error (e : ε) (s : σ) :
    (throw e : EStateM ε σ α).run s = .error e s := rfl

@[simp] theorem run_map_eq (f : α → β) (x : EStateM ε σ α) (s : σ) :
    (f <$> x).run s = match x.run s with
      | .ok a s => .ok (f a) s
      | .error e s => .error e s := rfl

theorem run_bind_of_ok {x : EStateM ε σ α} {f : α → EStateM ε σ β} {s s' : σ} {a : α}
    (h : x.run s = .ok a s') : (x >>= f).run s = (f a).run s' := by
  simp [h]

theorem run_bind_of_error {x : EStateM ε σ α} {f : α → EStateM ε σ β} {s s' : σ} {e : ε}
    (h : x.run s = .error e s') : (x >>= f).run s = .error e s' := by
  simp [h]

theorem run_attempt_of_ok {x : EStateM ε σ α} {s s' : σ} {a : α} (h : x.run s = .ok a s') :
    (attempt x).run s = .ok (.ok a) s' := by
  simp [h]

theorem run_attempt_of_error {x : EStateM ε σ α} {s s' : σ} {e : ε}
    (h : x.run s = .error e s') : (attempt x).run s = .ok (.error e) s' := by
  simp [h]

theorem run_attempt_ne_error {x : EStateM ε σ α} {s s' : σ} {e : ε} :
    (attempt x).run s ≠ .error e s' := by
  rw [run_attempt]
  split <;> simp

/-- A bind that succeeds ran both of its parts successfully. -/
theorem run_bind_eq_ok {x : EStateM ε σ α} {f : α → EStateM ε σ β} {s s'' : σ} {b : β}
    (h : (x >>= f).run s = .ok b s'') :
    ∃ a s', x.run s = .ok a s' ∧ (f a).run s' = .ok b s'' := by
  rw [EStateM.run_bind] at h
  split at h
  · rename_i a s' hx
    exact ⟨a, s', hx, h⟩
  · cases h

/-- A bind that fails failed in its first part, or in its second after the first succeeded. -/
theorem run_bind_eq_error {x : EStateM ε σ α} {f : α → EStateM ε σ β} {s s'' : σ} {e : ε}
    (h : (x >>= f).run s = .error e s'') :
    x.run s = .error e s'' ∨ ∃ a s', x.run s = .ok a s' ∧ (f a).run s' = .error e s'' := by
  rw [EStateM.run_bind] at h
  split at h
  · rename_i a s' hx
    exact .inr ⟨a, s', hx, h⟩
  · rename_i e' s' hx
    cases h
    exact .inl hx

/-- `attempt` never fails: it hands back what `x` did. -/
theorem run_attempt_eq_ok {x : EStateM ε σ α} {s s' : σ} {r : Except ε α}
    (h : (attempt x).run s = .ok r s') :
    (∃ a, r = .ok a ∧ x.run s = .ok a s') ∨ (∃ e, r = .error e ∧ x.run s = .error e s') := by
  rw [run_attempt] at h
  split at h
  · rename_i a _ hx
    cases h
    exact .inl ⟨a, rfl, hx⟩
  · rename_i e _ hx
    cases h
    exact .inr ⟨e, rfl, hx⟩

/-! ## Functions that return an error

A Go function returning a value and an error, with no receiver to mutate,
is an `Except` computation: it succeeds only if each step it binds does. -/

/-- Results compare by constructor and contents, so that a run on a fixed
input can be checked by evaluation. -/
instance instDecidableEqExcept [DecidableEq ε] [DecidableEq α] : DecidableEq (Except ε α)
  | .ok a, .ok b => if h : a = b then isTrue (h ▸ rfl) else isFalse fun e => h (Except.ok.inj e)
  | .error a, .error b => if h : a = b then isTrue (h ▸ rfl) else isFalse fun e => h (Except.error.inj e)
  | .ok _, .error _ => isFalse nofun
  | .error _, .ok _ => isFalse nofun

@[simp] theorem ok_bind (a : α) (f : α → Except ε β) : (Except.ok a >>= f) = f a := rfl

@[simp] theorem error_bind (e : ε) (f : α → Except ε β) : (Except.error e >>= f) = .error e := rfl

theorem bind_eq_ok {x : Except ε α} {f : α → Except ε β} {b : β} :
    x >>= f = .ok b ↔ ∃ a, x = .ok a ∧ f a = .ok b := by
  cases x <;> simp [bind, Except.bind]

theorem map_eq_ok {x : Except ε α} {f : α → β} {b : β} : x.map f = .ok b ↔ ∃ a, x = .ok a ∧ f a = b := by
  cases x <;> simp [Except.map]

theorem mapError_eq_ok {ε' : Type} {x : Except ε α} {f : ε → ε'} {a : α} : x.mapError f = .ok a ↔ x = .ok a := by
  cases x with
  | error e => exact ⟨nofun, nofun⟩
  | ok b => exact ⟨fun h => Except.ok.inj h ▸ rfl, fun h => Except.ok.inj h ▸ rfl⟩

/-- A loop of checks that returns at the first error succeeds exactly when
every check does. -/
theorem forM_eq_ok {f : α → Except ε PUnit} :
    ∀ xs : List α, forM xs f = .ok () ↔ ∀ x ∈ xs, f x = .ok ()
  | [] => by simp [pure, Except.pure]
  | x :: xs => by
    rw [List.forM_cons, bind_eq_ok, List.forall_mem_cons, ← forM_eq_ok xs]
    constructor
    · rintro ⟨u, hx, hxs⟩
      exact ⟨hx, hxs⟩
    · rintro ⟨hx, hxs⟩
      exact ⟨(), hx, hxs⟩

end Xdchain.Lib.ErrState
