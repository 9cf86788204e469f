import Mathlib

/-!
# Agreement of two computations

Two computations in `Except` agree when they end with the same error or with related results.
Sequences agree step by step, so that a program can be compared with a variant of it.
-/

namespace Bethkit.Lib

variable {ε α α' β β' γ : Type}

/-- The same error, or related results. -/
inductive Agree (related : α → β → Prop) : Except ε α → Except ε β → Prop where
  /-- Both fail alike. -/
  | error (error : ε) : Agree related (.error error) (.error error)
  /-- Both succeed with related results. -/
  | ok {left : α} {right : β} : related left right → Agree related (.ok left) (.ok right)

namespace Agree

/-- A computation agrees with itself. -/
theorem refl (outcome : Except ε α) : Agree (fun left right => left = right) outcome outcome := by
  cases outcome with
  | error error => exact .error error
  | ok value => exact .ok rfl

/-- A coarser relation. -/
theorem mono {related coarser : α → β → Prop} {left : Except ε α} {right : Except ε β}
    (agree : Agree related left right)
    (weaken : ∀ {first second}, related first second → coarser first second) :
    Agree coarser left right := by
  cases agree with
  | error error => exact .error error
  | ok related => exact .ok (weaken related)

/-- Sequences agree if their steps do. -/
theorem bind {related : α → α' → Prop} {result : β → β' → Prop} {left : Except ε α}
    {right : Except ε α'} {next : α → Except ε β} {other : α' → Except ε β'}
    (agree : Agree related left right)
    (more : ∀ first second, related first second → Agree result (next first) (other second)) :
    Agree result (left >>= next) (right >>= other) := by
  cases agree with
  | error error => exact .error error
  | ok related => exact more _ _ related

/-- Sequences with the same first step agree if their second steps do. -/
theorem bind_same {result : β → β' → Prop} {outcome : Except ε α} {next : α → Except ε β}
    {other : α → Except ε β'} (more : ∀ value, Agree result (next value) (other value)) :
    Agree result (outcome >>= next) (outcome >>= other) :=
  (refl outcome).bind fun _ _ same => same ▸ more _

/-- Two choices by one condition. -/
theorem ite {condition : Prop} [Decidable condition] {related : α → β → Prop}
    {left middle : Except ε α} {right rest : Except ε β}
    (holds : condition → Agree related left right)
    (fails : ¬condition → Agree related middle rest) :
    Agree related (if condition then left else middle) (if condition then right else rest) := by
  split
  case isTrue given => exact holds given
  case isFalse given => exact fails given

/-- Lists are mapped alike if their items are. -/
theorem mapM {related : β → β' → Prop} {change : α → Except ε β} {other : α → Except ε β'}
    (items : List α) (each : ∀ item ∈ items, Agree related (change item) (other item)) :
    Agree (List.Forall₂ related) (items.mapM change) (items.mapM other) := by
  induction items with
  | nil => exact .ok .nil
  | cons item items rest =>
    rw [List.mapM_cons, List.mapM_cons]
    refine (each item List.mem_cons_self).bind fun first second here => ?_
    refine (rest fun other member => each other (List.mem_cons_of_mem _ member)).bind
      fun _ _ others => ?_
    exact .ok (.cons here others)

end Agree

end Bethkit.Lib
