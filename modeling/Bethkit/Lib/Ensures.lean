import Bethkit.Lib.Outcome
import Bethkit.Lib.Rollback

/-!
# What computations ensure

A result ensures a property if its value has it whenever it succeeds. A computation over a state
leaves a property behind if the state has it whether the computation succeeds or fails. Both
compose along the steps of a computation, so that a property that nothing in a family of mutually
calling operations changes is proved of each operation from its callees alone.
-/

namespace Bethkit.Lib

variable {ε σ α β : Type}

/-- Every success has a property. -/
def Ensures (result : Except ε α) (good : α → Prop) : Prop := ∀ value, result = .ok value → good value

namespace Ensures

variable {good : α → Prop}

/-- A success with the property. -/
theorem ok {value : α} (holds : good value) : Ensures (.ok value : Except ε α) good := by
  intro result same
  rw [← Except.ok.inj same]
  exact holds

/-- A failure. -/
theorem error (failure : ε) : Ensures (.error failure : Except ε α) good := by
  intro result same
  cases same

/-- What follows a first step. -/
theorem bind {first : Except ε β} {next : β → Except ε α}
    (rest : ∀ value, first = .ok value → Ensures (next value) good) :
    Ensures (first >>= next) good := by
  intro result done
  obtain ⟨value, found, done⟩ := bind_eq_ok.mp done
  exact rest value found result done

/-- A choice of two results. -/
theorem ite {check : Prop} [Decidable check] {first second : Except ε α}
    (holds : Ensures first good) (otherwise : Ensures second good) :
    Ensures (if check then first else second) good := by
  by_cases passes : check
  · rw [if_pos passes]
    exact holds
  · rw [if_neg passes]
    exact otherwise

/-- A changed result. -/
theorem map {change : β → α} {result : Except ε β}
    (holds : Ensures result fun value => good (change value)) :
    Ensures (result.map change) good := by
  intro value done
  obtain ⟨cause, found, rfl⟩ := map_eq_ok.mp done
  exact holds cause found

/-- A fold whose steps keep the property. -/
theorem foldlM {step : α → β → Except ε α} {items : List β} {start : α}
    (each : ∀ state, good state → ∀ item, Ensures (step state item) good) (holds : good start) :
    Ensures (items.foldlM step start) good := by
  induction items generalizing start with
  | nil => exact ok holds
  | cons item items ih =>
    rw [List.foldlM_cons]
    exact bind fun next done => ih (each start holds item next done)

end Ensures

/-- A computation leaves a state with a property, whether it succeeds or fails. -/
def LeavesAt (good : σ → Prop) (state : σ) (action : Transaction ε σ α) : Prop :=
  good (action.outcome state).2

namespace LeavesAt

variable {good : σ → Prop} {state : σ}

/-- A computation that changes the state once. -/
theorem modify {change : σ → σ} (holds : good (change state)) :
    LeavesAt good state (modify change : Transaction ε σ PUnit) := holds

/-- A failure. -/
theorem throw {failure : ε} (holds : good state) :
    LeavesAt good state (throw failure : Transaction ε σ α) := holds

/-- A value. -/
theorem pure {value : α} (holds : good state) :
    LeavesAt good state (Pure.pure value : Transaction ε σ α) := holds

/-- What follows a computation that leaves the property. -/
theorem bind {action : Transaction ε σ β} {next : β → Transaction ε σ α}
    (first : LeavesAt good state action)
    (rest : ∀ value after, action.outcome state = (.ok value, after) → good after →
      LeavesAt good after (next value)) : LeavesAt good state (action >>= next) := by
  unfold LeavesAt at first ⊢
  rw [Transaction.outcome_bind]
  cases ran : action.outcome state with
  | mk result after =>
    rw [ran] at first
    cases result with
    | ok value => exact rest value after ran first
    | error failure => exact first

/-- What follows a read of the state. -/
theorem bind_get {next : σ → Transaction ε σ α} (rest : LeavesAt good state (next state)) :
    LeavesAt good state (get >>= next) := rest

/-- A computation whose failures are handled. -/
theorem tryCatch {action : Transaction ε σ α} {handler : ε → Transaction ε σ α}
    (first : LeavesAt good state action)
    (rest : ∀ failure after, good after → LeavesAt good after (handler failure)) :
    LeavesAt good state (tryCatch action handler) := by
  unfold LeavesAt at first ⊢
  rw [Transaction.outcome_tryCatch]
  cases ran : action.outcome state with
  | mk result after =>
    rw [ran] at first
    cases result with
    | ok value => exact first
    | error failure => exact rest failure after first

end LeavesAt

end Bethkit.Lib
