import Mathlib

/-!
# Computations that roll back

A computation over a state that may fail and leaves a state either way. It rolls back from a state
if its failures of a kind leave that state. Reading the state and computing on what was read keep
the state, so a computation that first reads and computes and then only writes rolls back; one that
writes before a check must undo what it wrote.
-/

namespace Bethkit.Lib

variable {ε σ α β : Type}

/-- A computation with failures over a state. -/
abbrev Transaction (ε σ α : Type) : Type := ExceptT ε (StateM σ) α

/-- The outcome of a computation and the state it leaves. -/
def Transaction.outcome (action : Transaction ε σ α) (state : σ) : Except ε α × σ :=
  action.run.run state

/-- The failures of a kind leave the state in which the computation began. -/
def RollsBackAt (kind : ε → Prop) (state : σ) (action : Transaction ε σ α) : Prop :=
  ∀ error after, action.outcome state = (.error error, after) → kind error → after = state

namespace Transaction

/-- A value without an effect. -/
@[simp]
theorem outcome_pure (value : α) (state : σ) :
    outcome (pure value : Transaction ε σ α) state = (.ok value, state) := rfl

/-- A failure. -/
@[simp]
theorem outcome_throw (error : ε) (state : σ) :
    outcome (throw error : Transaction ε σ α) state = (.error error, state) := rfl

/-- Reading the state. -/
@[simp]
theorem outcome_get (state : σ) :
    outcome (get : Transaction ε σ σ) state = (.ok state, state) := rfl

/-- Changing the state. -/
@[simp]
theorem outcome_modify (change : σ → σ) (state : σ) :
    outcome (modify change : Transaction ε σ PUnit) state = (.ok ⟨⟩, change state) := rfl

/-- One computation after another. -/
theorem outcome_bind (action : Transaction ε σ α) (next : α → Transaction ε σ β) (state : σ) :
    outcome (action >>= next) state =
      match outcome action state with
      | (.ok value, after) => outcome (next value) after
      | (.error error, after) => (.error error, after) := by
  change ((action >>= next : ExceptT ε (StateM σ) β).run).run state = _
  rw [ExceptT.run_bind, StateT.run_bind]
  unfold outcome
  cases action.run.run state with
  | mk result after => cases result <;> rfl

/-- A computation with a handler of its failures. -/
theorem outcome_tryCatch (action : Transaction ε σ α) (handler : ε → Transaction ε σ α)
    (state : σ) :
    outcome (tryCatch action handler) state =
      match outcome action state with
      | (.ok value, after) => (.ok value, after)
      | (.error error, after) => outcome (handler error) after := by
  change ((ExceptT.tryCatch action handler : ExceptT ε (StateM σ) α).run).run state = _
  rw [ExceptT.tryCatch, ExceptT.run_mk, StateT.run_bind]
  change (do
    let p ← outcome action state
    StateT.run (match p.1 with
      | .ok value => Pure.pure (.ok value)
      | .error error => handler error) p.2 : Id (Except ε α × σ)) = _
  cases outcome action state with
  | mk result after => cases result <;> rfl

end Transaction

namespace RollsBackAt

variable {kind : ε → Prop} {state : σ}

/-- A value cannot fail. -/
theorem pure (value : α) : RollsBackAt kind state (Pure.pure value : Transaction ε σ α) := by
  intro error after failed
  simp at failed

/-- A bare failure changes nothing. -/
theorem throw (error : ε) : RollsBackAt kind state (throw error : Transaction ε σ α) := by
  intro failure after failed _
  simp only [Transaction.outcome_throw, Prod.mk.injEq] at failed
  exact failed.2.symm

/-- A change of the state cannot fail. -/
theorem modify (change : σ → σ) :
    RollsBackAt kind state (modify change : Transaction ε σ PUnit) := by
  intro error after failed
  simp at failed

/-- What follows a step that succeeds and keeps the state rolls back to it. -/
theorem bind_of_keeps {action : Transaction ε σ α} {next : α → Transaction ε σ β} {value : α}
    (kept : action.outcome state = (.ok value, state))
    (rest : RollsBackAt kind state (next value)) :
    RollsBackAt kind state (action >>= next) := by
  intro error after failed
  rw [Transaction.outcome_bind, kept] at failed
  exact rest error after failed

/-- What follows reading the state. -/
theorem bind_get {next : σ → Transaction ε σ β} (rest : RollsBackAt kind state (next state)) :
    RollsBackAt kind state (get >>= next) :=
  bind_of_keeps (Transaction.outcome_get state) rest

/-- A step that rolls back and is followed by steps that never fail in this way. -/
theorem bind_of_total {action : Transaction ε σ α} {next : α → Transaction ε σ β}
    (first : RollsBackAt kind state action)
    (total : ∀ value from_ error after,
      (next value).outcome from_ = (.error error, after) → ¬kind error) :
    RollsBackAt kind state (action >>= next) := by
  intro error after failed isKind
  rw [Transaction.outcome_bind] at failed
  cases result : action.outcome state with
  | mk outcome middle =>
    rw [result] at failed
    cases outcome with
    | error cause =>
      simp only [Prod.mk.injEq, Except.error.injEq] at failed
      obtain ⟨rfl, rfl⟩ := failed
      exact first _ _ result isKind
    | ok value => exact absurd isKind (total value middle error after failed)

end RollsBackAt

end Bethkit.Lib
