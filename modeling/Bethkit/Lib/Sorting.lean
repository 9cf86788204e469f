import Mathlib

/-!
# Sorting related lists

Two lists whose items are related pairwise stay related when both are sorted, if the relation
carries the order of one list to the order of the other. Items that are sorted by a rank stand rank by rank,
and the items of a rank keep their order.
-/

namespace Bethkit.Lib

variable {α β : Type} {before : α → α → Prop} {earlier : β → β → Prop}
variable [DecidableRel before] [DecidableRel earlier] {relation : α → β → Prop}

/-- Related items are inserted at the same place. -/
theorem forall₂_orderedInsert
    (same : ∀ first second item other, relation first second → relation item other →
      (before first item ↔ earlier second other))
    {item : α} {other : β} (head : relation item other) {left : List α} {right : List β}
    (related : List.Forall₂ relation left right) :
    List.Forall₂ relation (left.orderedInsert before item)
      (right.orderedInsert earlier other) := by
  induction related with
  | nil => exact .cons head .nil
  | @cons first second _ _ here tail rest =>
    have order := same item other first second head here
    rw [List.orderedInsert_cons, List.orderedInsert_cons]
    by_cases least : before item first
    · rw [if_pos least, if_pos (order.mp least)]
      exact .cons head (.cons here tail)
    · rw [if_neg least, if_neg fun leading => least (order.mpr leading)]
      exact .cons here rest

/-- Related lists are sorted alike. -/
theorem forall₂_insertionSort
    (same : ∀ first second item other, relation first second → relation item other →
      (before first item ↔ earlier second other))
    {left : List α} {right : List β} (related : List.Forall₂ relation left right) :
    List.Forall₂ relation (left.insertionSort before) (right.insertionSort earlier) := by
  induction related with
  | nil => exact .nil
  | cons here _ rest => exact forall₂_orderedInsert same here rest

variable {rank : α → Nat}

/-- An item is inserted behind the items of lower rank. -/
theorem orderedInsert_append {item : α} {lower : List α}
    (below : ∀ other ∈ lower, rank other < rank item) (rest : List α) :
    (lower ++ rest).orderedInsert (fun first second => rank first ≤ rank second) item =
      lower ++ rest.orderedInsert (fun first second => rank first ≤ rank second) item := by
  induction lower with
  | nil => rfl
  | cons other lower ih =>
    have less := below other List.mem_cons_self
    rw [List.cons_append, List.orderedInsert_cons, if_neg (Nat.not_le.mpr less),
      ih fun later found => below later (List.mem_cons_of_mem _ found), List.cons_append]

/-- An item is inserted before the items that do not have a lower rank. -/
theorem orderedInsert_of_le {item : α} {rest : List α}
    (above : ∀ other ∈ rest, rank item ≤ rank other) :
    rest.orderedInsert (fun first second => rank first ≤ rank second) item = item :: rest := by
  cases rest with
  | nil => rfl
  | cons other rest => rw [List.orderedInsert_cons, if_pos (above other List.mem_cons_self)]

/-- Items that are sorted by a rank stand rank by rank, in the order that they had. -/
theorem insertionSort_eq_flatMap {items : List α} {bound : Nat}
    (small : ∀ item ∈ items, rank item < bound) :
    items.insertionSort (fun first second => rank first ≤ rank second) =
      (List.range bound).flatMap fun level => items.filter fun item => rank item = level := by
  induction items with
  | nil => simp
  | cons item items ih =>
    have here := small item List.mem_cons_self
    have split : List.range bound = List.range (rank item) ++
        (rank item :: (List.range (bound - rank item - 1)).map (rank item + 1 + ·)) := by
      have total : bound = rank item + 1 + (bound - rank item - 1) := by omega
      conv_lhs => rw [total, List.range_add, List.range_succ, List.append_assoc]
      rfl
    have lower : ∀ level ∈ List.range (rank item),
        ((item :: items).filter fun other => rank other = level) =
          items.filter fun other => rank other = level := by
      intro level found
      have less := List.mem_range.mp found
      rw [List.filter_cons_of_neg (by simp; omega)]
    have higher : ∀ level ∈ (List.range (bound - rank item - 1)).map (rank item + 1 + ·),
        ((item :: items).filter fun other => rank other = level) =
          items.filter fun other => rank other = level := by
      intro level found
      obtain ⟨_, _, same⟩ := List.mem_map.mp found
      rw [List.filter_cons_of_neg (by simp; omega)]
    rw [List.insertionSort_cons, ih fun other found => small other (List.mem_cons_of_mem _ found),
      split, List.flatMap_append, List.flatMap_append, List.flatMap_cons, List.flatMap_cons,
      List.flatMap_congr lower, List.flatMap_congr higher, List.filter_cons_of_pos (by simp),
      orderedInsert_append, orderedInsert_of_le, List.cons_append]
    · intro other found
      rcases List.mem_append.mp found with same | later
      · exact (of_decide_eq_true (List.mem_filter.mp same).2).ge
      · obtain ⟨level, above, among⟩ := List.mem_flatMap.mp later
        obtain ⟨_, _, same⟩ := List.mem_map.mp above
        have equal := of_decide_eq_true (List.mem_filter.mp among).2
        omega
    · intro other found
      obtain ⟨level, below, among⟩ := List.mem_flatMap.mp found
      have less := List.mem_range.mp below
      have equal := of_decide_eq_true (List.mem_filter.mp among).2
      omega

end Bethkit.Lib
