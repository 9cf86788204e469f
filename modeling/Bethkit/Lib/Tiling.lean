import Mathlib

/-!
# Consecutive ranges

A list of half-open ranges tiles an interval when it starts where the interval starts, every
range starts where the one before it stopped, and the last one stops where the interval stops.
Every offset of a tiled interval belongs to exactly one of the ranges.
-/

namespace Bethkit.Lib

/-- A half-open range of offsets. -/
structure Range where
  /-- First offset. -/
  start : Nat
  /-- Offset after the last. -/
  stop : Nat
deriving DecidableEq

/-- The offsets of the range. -/
def Range.Contains (range : Range) (offset : Nat) : Prop :=
  range.start ≤ offset ∧ offset < range.stop

/-- The ranges cover an interval one after the other. -/
def Tiles (start stop : Nat) : List Range → Prop
  | [] => start = stop
  | range :: ranges => range.start = start ∧ start ≤ range.stop ∧ Tiles range.stop stop ranges

namespace Tiles

/-- A tiled interval is not reversed. -/
theorem le {start stop : Nat} {ranges : List Range} (tiles : Tiles start stop ranges) :
    start ≤ stop := by
  induction ranges generalizing start with
  | nil => exact Nat.le_of_eq tiles
  | cons range ranges ih =>
    obtain ⟨_, forward, rest⟩ := tiles
    exact Nat.le_trans forward (ih rest)

/-- Tilings of adjacent intervals are joined. -/
theorem append {start middle stop : Nat} {left right : List Range}
    (first : Tiles start middle left) (second : Tiles middle stop right) :
    Tiles start stop (left ++ right) := by
  induction left generalizing start with
  | nil =>
    obtain rfl : start = middle := first
    exact second
  | cons range left ih =>
    obtain ⟨starts, forward, rest⟩ := first
    exact ⟨starts, forward, ih rest⟩

/-- The ranges of a tiling stay inside its interval. -/
theorem mem_bounds {start stop : Nat} {ranges : List Range} (tiles : Tiles start stop ranges)
    {range : Range} (found : range ∈ ranges) :
    start ≤ range.start ∧ range.start ≤ range.stop ∧ range.stop ≤ stop := by
  induction ranges generalizing start with
  | nil => exact absurd found List.not_mem_nil
  | cons head ranges ih =>
    obtain ⟨rfl, forward, rest⟩ := tiles
    rcases List.mem_cons.mp found with rfl | later
    · exact ⟨Nat.le_refl _, forward, rest.le⟩
    · obtain ⟨low, middle, high⟩ := ih rest later
      exact ⟨Nat.le_trans forward low, middle, high⟩

/-- Every offset of a tiled interval belongs to exactly one range. -/
theorem existsUnique {start stop : Nat} {ranges : List Range} (tiles : Tiles start stop ranges)
    {offset : Nat} (above : start ≤ offset) (below : offset < stop) :
    ∃! index : Fin ranges.length, (ranges.get index).Contains offset := by
  induction ranges generalizing start with
  | nil =>
    have empty : start = stop := tiles
    omega
  | cons range ranges ih =>
    obtain ⟨rfl, forward, rest⟩ := tiles
    by_cases first : offset < range.stop
    · refine ⟨0, ⟨above, first⟩, ?_⟩
      intro index inside
      cases index using Fin.cases with
      | zero => rfl
      | succ index =>
        have later := rest.mem_bounds (ranges.get_mem index)
        have inside : (ranges.get index).Contains offset := inside
        have := inside.1
        omega
    · obtain ⟨index, inside, unique⟩ := ih rest (Nat.le_of_not_lt first)
      refine ⟨index.succ, inside, ?_⟩
      intro other found
      cases other using Fin.cases with
      | zero => exact absurd found.2 first
      | succ other => exact congrArg Fin.succ (unique other found)

end Tiles

end Bethkit.Lib
