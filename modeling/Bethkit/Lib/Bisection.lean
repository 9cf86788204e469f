import Mathlib

/-!
# Bisection

A search for the last number of a run on which a property holds. The interval `[low, high)` keeps a
number with the property at its front and one without it at its end, and halves in every round.
-/

namespace Bethkit.Lib

variable {below : Nat → Prop} [DecidablePred below]

/-- Halve an interval as long as it holds two numbers, for a number of rounds at most. -/
def bisect (below : Nat → Prop) [DecidablePred below] : Nat → Nat → Nat → Nat
  | 0, low, _ => low
  | fuel + 1, low, high =>
    if low + 1 < high then
      let middle := low + (high - low) / 2
      if below middle then bisect below fuel middle high else bisect below fuel low middle
    else low

/-- The search ends where the property does, if the rounds suffice for the interval. -/
theorem bisect_boundary {fuel low high : Nat} (ordered : low < high) (starts : below low)
    (stops : ¬below high) (enough : high - low ≤ 2 ^ fuel) :
    below (bisect below fuel low high) ∧ ¬below (bisect below fuel low high + 1) := by
  induction fuel generalizing low high with
  | zero =>
    have single : high = low + 1 := by omega
    exact ⟨starts, single ▸ stops⟩
  | succ fuel rest =>
    have halves : 2 ^ (fuel + 1) = 2 * 2 ^ fuel := Nat.pow_succ'
    unfold bisect
    by_cases wide : low + 1 < high
    · rw [if_pos wide]
      by_cases middle : below (low + (high - low) / 2)
      · simp only [if_pos middle]
        apply rest _ middle stops
        · omega
        · omega
      · simp only [if_neg middle]
        apply rest _ starts middle
        · omega
        · omega
    · have single : high = low + 1 := by omega
      rw [if_neg wide]
      exact ⟨starts, single ▸ stops⟩

end Bethkit.Lib
