import Bethkit.Semantic.Structures

/-!
# Occurrences of repeated structures

An occurrence of a repeated node is a complete repeat stack that ends in the node: its own
counter and those of every repeat around it. The subrecords of an occurrence are those whose
stack begins with it.
-/

namespace Bethkit

open Lib

/-- The occurrences of the wanted scopes on a repeat stack, outermost first: the parts of the
stack that end in one. -/
def occurrencesOn (wanted : RepeatScope → Bool) : List RepeatScope → List (List RepeatScope)
  | [] => []
  | scope :: inner =>
    (if wanted scope then [[scope]] else []) ++ (occurrencesOn wanted inner).map (scope :: ·)

/-- The counter of the repeat that an occurrence ends in. -/
def localCounter (occurrence : List RepeatScope) : Nat :=
  (occurrence.getLast?.map RepeatScope.occurrence).getD 0

/-- The members of the outermost occurrence that every field of a record belongs to, if any. -/
def outermostOccurrences (wanted : RepeatScope → Bool) (fields : List Field) :
    List (List RepeatScope × NamedValue) :=
  fields.filterMap fun field =>
    (occurrencesOn wanted field.repeatScopes).head?.map fun occurrence =>
      (occurrence, namedFromField field)

/-- The members of all occurrences that the fields of a record belong to. -/
def allOccurrences (wanted : RepeatScope → Bool) (fields : List Field) :
    List (List RepeatScope × NamedValue) :=
  fields.flatMap fun field =>
    (occurrencesOn wanted field.repeatScopes).map fun occurrence =>
      (occurrence, namedFromField field)

/-- No two different occurrences have the same local counter. -/
def CountersTellApart (members : List (List RepeatScope × NamedValue)) : Prop :=
  ∀ first ∈ members.map Prod.fst, ∀ second ∈ members.map Prod.fst,
    localCounter first = localCounter second → first = second

instance (members : List (List RepeatScope × NamedValue)) : Decidable (CountersTellApart members) :=
  inferInstanceAs (Decidable (∀ first ∈ members.map Prod.fst, ∀ second ∈ members.map Prod.fst,
    localCounter first = localCounter second → first = second))

/-- One structure for every occurrence, of its members in record order, in any order of the
occurrences. -/
def IsStructurePerOccurrence (structures : List FieldValue)
    (members : List (List RepeatScope × NamedValue)) : Prop :=
  structures.Perm ((classes members).map FieldValue.struct)

/-- An occurrence ends in a scope. -/
theorem ne_nil_of_mem_occurrencesOn {wanted : RepeatScope → Bool} {stack occurrence :
    List RepeatScope} (member : occurrence ∈ occurrencesOn wanted stack) : occurrence ≠ [] := by
  cases stack with
  | nil => cases member
  | cons scope inner =>
    rw [occurrencesOn, List.mem_append, List.mem_map] at member
    rcases member with here | ⟨rest, _, rfl⟩
    · split at here
      case isTrue =>
        rw [List.mem_singleton.mp here]
        exact List.cons_ne_nil _ _
      case isFalse => cases here
    · exact List.cons_ne_nil _ _

/-- The scopes around an occurrence do not change its counter. -/
theorem localCounter_cons (scope : RepeatScope) {occurrence : List RepeatScope}
    (nonempty : occurrence ≠ []) : localCounter (scope :: occurrence) = localCounter occurrence := by
  rw [localCounter, List.getLast?_cons_of_ne_nil nonempty, localCounter]

/-- The counters of the occurrences on a stack are those of its wanted scopes. -/
theorem map_localCounter_occurrencesOn (wanted : RepeatScope → Bool) (stack : List RepeatScope) :
    (occurrencesOn wanted stack).map localCounter =
      (stack.filter wanted).map RepeatScope.occurrence := by
  induction stack with
  | nil => rfl
  | cons scope inner more =>
    have under : ((occurrencesOn wanted inner).map (scope :: ·)).map localCounter =
        (inner.filter wanted).map RepeatScope.occurrence := by
      rw [← more, List.map_map]
      exact List.map_congr_left fun occurrence member =>
        localCounter_cons scope (ne_nil_of_mem_occurrencesOn member)
    rw [occurrencesOn, List.map_append, under, List.filter_cons]
    cases wanted scope <;> rfl

/-- The counter of the outermost occurrence is that of the first wanted scope. -/
theorem localCounter_head_occurrencesOn (wanted : RepeatScope → Bool) (stack : List RepeatScope) :
    (occurrencesOn wanted stack).head?.map localCounter =
      (stack.find? wanted).map RepeatScope.occurrence := by
  rw [← List.head?_map, map_localCounter_occurrencesOn, List.head?_map, List.head?_filter]

end Bethkit
