/-!
# `Proofs.Outcome` — when a sequence of fallible steps succeeds, and with which failure it ends

Every checked computation of the library is an `Except`: evaluation, binding, compilation. These
lemmas read a sequence of steps backwards, from its outcome to the outcomes of its parts, so that
later proofs take a computation apart without unfolding the monad.
-/

namespace EffectGraph.Outcome

variable {ε ε' α β : Type}

/-- A sequence succeeds when every part does. -/
@[simp] theorem bind_eq_ok {first : Except ε α} {next : α → Except ε β} {b : β} :
    first >>= next = .ok b ↔ ∃ a, first = .ok a ∧ next a = .ok b := by
  cases first with
  | ok a => show next a = .ok b ↔ _; simp
  | error e => exact ⟨nofun, nofun⟩

/-- A sequence fails with the failure of its first part, or else of the rest. -/
@[simp] theorem bind_eq_error {first : Except ε α} {next : α → Except ε β} {e : ε} :
    first >>= next = .error e ↔ first = .error e ∨ ∃ a, first = .ok a ∧ next a = .error e := by
  cases first with
  | ok a => show next a = .error e ↔ _; simp
  | error e' => show Except.error e' = .error e ↔ _; simp

@[simp] theorem pure_eq_ok {a b : α} : (pure a : Except ε α) = .ok b ↔ a = b := by
  simp [pure, Except.pure]

@[simp] theorem pure_ne_error {a : α} {e : ε} : (pure a : Except ε α) ≠ .error e := by
  simp [pure, Except.pure]

@[simp] theorem throw_eq_error {e e' : ε} : (throw e : Except ε α) = .error e' ↔ e = e' := by
  simp [throw, throwThe, MonadExceptOf.throw]

@[simp] theorem map_eq_ok {f : α → β} {outcome : Except ε α} {b : β} :
    f <$> outcome = .ok b ↔ ∃ a, outcome = .ok a ∧ f a = b := by
  cases outcome <;> simp [Functor.map, Except.map]

@[simp] theorem map_eq_error {f : α → β} {outcome : Except ε α} {e : ε} :
    f <$> outcome = .error e ↔ outcome = .error e := by
  cases outcome <;> simp [Functor.map, Except.map]

@[simp] theorem mapError_eq_ok {f : ε → ε'} {outcome : Except ε α} {a : α} :
    outcome.mapError f = .ok a ↔ outcome = .ok a := by
  cases outcome with
  | ok b => show Except.ok b = .ok a ↔ _; simp
  | error e => exact ⟨nofun, nofun⟩

@[simp] theorem mapError_eq_error {f : ε → ε'} {outcome : Except ε α} {e : ε'} :
    outcome.mapError f = .error e ↔ ∃ e', outcome = .error e' ∧ f e' = e := by
  cases outcome with
  | ok a => exact ⟨nofun, nofun⟩
  | error e' => show Except.error (f e') = .error e ↔ _; simp

/-- Computations that fail alike succeed together. -/
theorem exists_ok_congr {first : Except ε α} {second : Except ε β}
    (h : ∀ e, first = .error e ↔ second = .error e) :
    (∃ a, first = .ok a) ↔ ∃ b, second = .ok b := by
  cases first with
  | ok a =>
    cases second with
    | ok b => simp
    | error e => exact absurd ((h e).mpr rfl) nofun
  | error e =>
    rw [(h e).mp rfl]
    simp

end EffectGraph.Outcome
