import Mathlib

/-!
# Computations on a budget

A computation takes a budget and returns what is left of it. What it spends at most, what it returns and
how it may fail are stated together, for any kind of results and faults.
-/

namespace Bethkit.Lib

variable {ε α β : Type}

/-- A computation on a budget returns such a value and spends no more than its cost, or has such a
fault. -/
def Spends (result : α → Prop) (fault : ε → Prop) (cost budget : Nat) :
    Except ε (α × Nat) → Prop
  | .ok (value, left) => result value ∧ budget ≤ left + cost
  | .error error => fault error

variable {result : α → Prop} {fault : ε → Prop} {cost budget : Nat}

/-- A value and what is left. -/
theorem Spends.ok {value : α} {left : Nat} (holds : result value) (enough : budget ≤ left + cost) :
    Spends result fault cost budget (.ok (value, left)) := ⟨holds, enough⟩

/-- A fault. -/
theorem Spends.error {error : ε} (faulty : fault error) :
    Spends result fault cost budget (.error error) := faulty

/-- A computation behind another one, on what that one leaves. -/
theorem Spends.bind {other : β → Prop} {total : Nat} {first : Except ε (α × Nat)}
    {next : α × Nat → Except ε (β × Nat)} (head : Spends result fault cost budget first)
    (rest : ∀ value left, result value → budget ≤ left + cost →
      Spends other fault total budget (next (value, left))) :
    Spends other fault total budget (first >>= next) := by
  cases first with
  | error error => exact head
  | ok pair => exact rest pair.1 pair.2 head.1 head.2

/-- What is spent from the rest of a budget is spent from the budget. -/
theorem Spends.later {spent left : Nat} {outcome : Except ε (α × Nat)}
    (later : Spends result fault cost left outcome) (enough : budget ≤ left + spent) :
    Spends result fault (spent + cost) budget outcome := by
  cases outcome with
  | error error => exact later
  | ok pair =>
    have spends := later.2
    exact ⟨later.1, by omega⟩

/-- A higher cost is a weaker bound. -/
theorem Spends.mono {more : Nat} {outcome : Except ε (α × Nat)}
    (spends : Spends result fault cost budget outcome) (less : cost ≤ more) :
    Spends result fault more budget outcome := by
  cases outcome with
  | error error => exact spends
  | ok pair =>
    have bound := spends.2
    exact ⟨spends.1, by omega⟩

end Bethkit.Lib

/-!
## Metered computations

A computation on a budget that is charged before every operation. Its outcome does not depend on the
budget, and its cost is a number: with less it is exhausted, with enough it ends with its outcome
and leaves the rest.
-/

namespace Bethkit.Lib

variable {ε α β : Type} {exhausted : ε} {bound more : Nat}

/-- A computation that ends with an outcome at a cost. -/
structure Metered (exhausted : ε) (outcome : Except ε α) (cost : Nat)
    (run : Nat → Except ε (α × Nat)) : Prop where
  /-- What exceeds the cost is left. -/
  enough : ∀ left, run (cost + left) = outcome.map fun value => (value, left)
  /-- Less than the cost does not suffice. -/
  short : ∀ budget, budget < cost → run budget = .error exhausted

/-- A computation with an outcome of its own at a cost within a bound. -/
def CostsAtMost (exhausted : ε) (bound : Nat) (run : Nat → Except ε (α × Nat)) : Prop :=
  ∃ outcome cost, cost ≤ bound ∧ outcome ≠ .error exhausted ∧ Metered exhausted outcome cost run

namespace CostsAtMost

variable {run : Nat → Except ε (α × Nat)}

/-- A value costs nothing. -/
theorem pure (value : α) : CostsAtMost exhausted 0 fun left => .ok (value, left) := by
  refine ⟨.ok value, 0, Nat.le_refl 0, ?_, ?_, ?_⟩
  · intro same
    cases same
  · intro left
    rw [Nat.zero_add]
    rfl
  · intro budget less
    omega

/-- A fault of its own costs nothing. -/
theorem fault {error : ε} (own : error ≠ exhausted) :
    CostsAtMost exhausted 0 (fun _ => .error error : Nat → Except ε (α × Nat)) := by
  refine ⟨.error error, 0, Nat.le_refl 0, fun same => own (Except.error.inj same), ?_, ?_⟩
  · exact fun _ => rfl
  · intro budget less
    omega

/-- A higher bound is weaker. -/
theorem mono (costs : CostsAtMost exhausted bound run) (less : bound ≤ more) :
    CostsAtMost exhausted more run := by
  obtain ⟨outcome, cost, within, own, metered⟩ := costs
  exact ⟨outcome, cost, Nat.le_trans within less, own, metered⟩

/-- A computation that is charged one operation first. -/
theorem charge {step : Nat → Except ε (α × Nat)} (costs : CostsAtMost exhausted bound step)
    (empty : run 0 = .error exhausted) (rest : ∀ left, run (left + 1) = step left) :
    CostsAtMost exhausted (bound + 1) run := by
  obtain ⟨outcome, cost, within, own, metered⟩ := costs
  refine ⟨outcome, cost + 1, Nat.succ_le_succ within, own, ?_, ?_⟩
  · intro left
    have split : cost + 1 + left = cost + left + 1 := by omega
    rw [split, rest]
    exact metered.enough left
  · intro budget less
    cases budget with
    | zero => exact empty
    | succ budget =>
      rw [rest]
      exact metered.short budget (by omega)

/-- A computation behind another one, on what that one leaves. -/
theorem bind {next : α × Nat → Except ε (β × Nat)} (first : CostsAtMost exhausted bound run)
    (rest : ∀ value, CostsAtMost exhausted more fun left => next (value, left)) :
    CostsAtMost exhausted (bound + more) fun left => run left >>= next := by
  obtain ⟨outcome, cost, within, own, metered⟩ := first
  cases outcome with
  | error error =>
    refine ⟨.error error, cost, by omega, fun same => own (congrArg _ (Except.error.inj same)), ?_, ?_⟩
    · intro left
      simp only [metered.enough left]
      rfl
    · intro budget less
      simp only [metered.short budget less]
      rfl
  | ok value =>
    obtain ⟨result, extra, bounded, genuine, continues⟩ := rest value
    refine ⟨result, cost + extra, by omega, genuine, ?_, ?_⟩
    · intro left
      have split : cost + extra + left = cost + (extra + left) := by omega
      simp only [split, metered.enough (extra + left)]
      exact continues.enough left
    · intro budget less
      by_cases reached : cost ≤ budget
      · have split : budget = cost + (budget - cost) := by omega
        rw [split]
        simp only [metered.enough (budget - cost)]
        exact continues.short (budget - cost) (by omega)
      · simp only [metered.short budget (by omega)]
        rfl

/-- A computation behind a check that has no budget. -/
theorem check {result : Except ε β} {next : β → Nat → Except ε (α × Nat)}
    (own : ∀ error, result = .error error → error ≠ exhausted)
    (rest : ∀ value, CostsAtMost exhausted bound (next value)) :
    CostsAtMost exhausted bound fun left => result >>= fun value => next value left := by
  cases result with
  | error error => exact (fault (own error rfl)).mono (Nat.zero_le bound)
  | ok value => exact rest value

/-- A larger budget changes nothing but exhaustion. -/
theorem stable (costs : CostsAtMost exhausted bound run) {small large : Nat} (less : small ≤ large)
    (ended : run small ≠ .error exhausted) :
    (run large).map Prod.fst = (run small).map Prod.fst := by
  obtain ⟨outcome, cost, _, _, metered⟩ := costs
  have reached : cost ≤ small := by
    by_contra short
    exact ended (metered.short small (by omega))
  have same : ∀ budget, cost ≤ budget → (run budget).map Prod.fst = outcome := by
    intro budget enough
    have split : budget = cost + (budget - cost) := by omega
    rw [split, metered.enough]
    cases outcome with
    | error error => rfl
    | ok value => rfl
  rw [same small reached, same large (Nat.le_trans reached less)]

/-- A budget of the bound is never exhausted. -/
theorem not_exhausted (costs : CostsAtMost exhausted bound run) {budget : Nat}
    (enough : bound ≤ budget) : run budget ≠ .error exhausted := by
  obtain ⟨outcome, cost, within, own, metered⟩ := costs
  have split : budget = cost + (budget - cost) := by omega
  rw [split, metered.enough]
  cases outcome with
  | error error => exact fun same => own (congrArg _ (Except.error.inj same))
  | ok value =>
    intro same
    cases same

end CostsAtMost

end Bethkit.Lib
