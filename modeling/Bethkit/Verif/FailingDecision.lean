import Bethkit.Spec.Sample
import Bethkit.Verif.FieldAccess

/-!
# Matches that fail

A match ends with a schema error only where one of its decisions does. So a match whose decisions
find the fields that they read never ends with a missing field.
-/

namespace Bethkit

open Lib

variable {input : GrammarInput} {good : Decision → Prop} {error : SchemaError}

/-- A loop of an unordered group fails where one of its rounds does. -/
theorem unorderedLoop_fails {result : Prop}
    {round : List Nat → MatchState → Except SemanticError (Option (Nat × MatchState))}
    {every : List Nat → MatchState → Prop}
    (fails : ∀ {matched current}, every matched current →
      round matched current = .error (.schema error) → result)
    {fuel : Nat} {matched : List Nat} {current : MatchState}
    (all : unorderedLoopEvery round every fuel matched current)
    (failed : unorderedLoop round fuel matched current = .error (.schema error)) : result := by
  induction fuel generalizing matched current with
  | zero => cases failed
  | succ fuel more =>
    rw [unorderedLoop] at failed
    rcases bind_eq_error.mp failed with here | ⟨best, picked, failed⟩
    · exact fails all.1 here
    · match best with
      | none => cases failed
      | some (index, candidate) => exact more (all.2 index candidate picked) failed

/-- A loop of a repeat fails where one of its rounds does. -/
theorem repeatLoop_fails {result : Prop} {maximum : Option UInt32} {anchor : MatchState → Bool}
    {step : Nat → MatchState → Except SemanticError MatchState} {every : Nat → MatchState → Prop}
    (fails : ∀ {count current}, every count current →
      step count current = .error (.schema error) → result)
    {fuel count : Nat} {current : MatchState}
    (all : repeatLoopEvery maximum anchor step every fuel count current)
    (failed : repeatLoop maximum anchor step fuel count current = .error (.schema error)) :
    result := by
  induction fuel generalizing count current with
  | zero => cases failed
  | succ fuel more =>
    rw [repeatLoop] at failed
    split at failed
    case isTrue => cases failed
    case isFalse open_ =>
      split at failed
      case isTrue => cases failed
      case isFalse anchored =>
        obtain ⟨first, rest⟩ := all open_ (by simpa using anchored)
        rcases bind_eq_error.mp failed with here | ⟨candidate, matched, failed⟩
        · exact fails first here
        · split at failed
          case isTrue => cases failed
          case isFalse moved => exact more (rest candidate matched moved) failed

mutual

/-- A match of a node fails where one of its decisions does. -/
theorem matchNode_fails (input : GrammarInput) (node : SchemaNode) {state : MatchState}
    (all : EveryDecision input good node state)
    (failed : matchNode input node state = .error (.schema error)) :
    ∃ decision, good decision ∧ decision.Fails input error := by
  match node with
  | .sequence info children =>
    rw [EveryDecision] at all
    rw [matchNode] at failed
    rcases bind_eq_error.mp failed with here | ⟨applies, condition, failed⟩
    · exact ⟨_, all.1, here⟩
    cases applies with
    | false => cases failed
    | true => exact matchChildren_fails input children (all.2 condition) failed
  | .unordered info children =>
    rw [EveryDecision] at all
    rw [matchNode] at failed
    rcases bind_eq_error.mp failed with here | ⟨applies, condition, failed⟩
    · exact ⟨_, all.1, here⟩
    cases applies with
    | false => cases failed
    | true =>
      exact unorderedLoop_fails (fun every here => matchCandidates_fails input children every here)
        (all.2 condition) failed
  | .choice info alternatives =>
    rw [EveryDecision] at all
    rw [matchNode] at failed
    rcases bind_eq_error.mp failed with here | ⟨applies, condition, failed⟩
    · exact ⟨_, all.1, here⟩
    cases applies with
    | false => cases failed
    | true => exact matchAlternatives_fails input alternatives (all.2 condition) failed
  | .selectedChoice info selector alternatives =>
    rw [EveryDecision] at all
    rw [matchNode] at failed
    rcases bind_eq_error.mp failed with here | ⟨applies, condition, failed⟩
    · exact ⟨_, all.1, here⟩
    cases applies with
    | false => cases failed
    | true =>
      obtain ⟨selects, every⟩ := all.2 condition
      rcases bind_eq_error.mp failed with here | ⟨index, selected, failed⟩
      · exact ⟨_, selects, here⟩
      · exact matchAlternativeAt_fails input alternatives (every index selected) failed
  | .repeat info minimum maximum child =>
    rw [EveryDecision] at all
    rw [matchNode] at failed
    rcases bind_eq_error.mp failed with here | ⟨applies, condition, failed⟩
    · exact ⟨_, all.1, here⟩
    cases applies with
    | false => cases failed
    | true =>
      rcases bind_eq_error.mp failed with looped | ⟨_, _, failed⟩
      · exact repeatLoop_fails (fun every here => matchNode_fails input child every here)
          (all.2 condition) looped
      · cases failed
  | .subrecord _ _ _ | .primitive _ _ | .struct _ _ | .optionalStruct _ _ _ | .array _ _ _
  | .union _ _ _ | .custom _ _ _ | .compressed _ _ _ | .terminated _ _ _ | .reference _ _ =>
    rw [EveryDecision] at all
    · rw [matchNode] at failed
      · rcases bind_eq_error.mp failed with here | ⟨_, _, failed⟩
        · exact ⟨_, all, here⟩
        · cases failed
      all_goals simp
    all_goals simp
termination_by structural node

/-- A match of the children of a sequence fails where one of its decisions does. -/
theorem matchChildren_fails (input : GrammarInput) (children : List SchemaNode)
    {state : MatchState} (all : EveryInOrder input good children state)
    (failed : matchChildren input children state = .error (.schema error)) :
    ∃ decision, good decision ∧ decision.Fails input error := by
  match children with
  | [] => cases failed
  | child :: children =>
    rw [EveryInOrder] at all
    rw [matchChildren] at failed
    rcases bind_eq_error.mp failed with here | ⟨next, matched, failed⟩
    · exact matchNode_fails input child all.1 here
    · exact matchChildren_fails input children (all.2 next matched) failed
termination_by structural children

/-- A round of an unordered group fails where one of its decisions does. -/
theorem matchCandidates_fails (input : GrammarInput) (children : List SchemaNode) {index : Nat}
    {matched : List Nat} {current : MatchState} {best : Option (Nat × MatchState)}
    (all : EveryCandidate input good children index matched current best)
    (failed : matchCandidates input children index matched current best =
      .error (.schema error)) :
    ∃ decision, good decision ∧ decision.Fails input error := by
  match children with
  | [] => cases failed
  | child :: children =>
    rw [EveryCandidate] at all
    rw [matchCandidates] at failed
    split at failed
    case isTrue member =>
      rw [if_pos member] at all
      exact matchCandidates_fails input children all failed
    case isFalse unused =>
      rw [if_neg unused] at all
      rcases bind_eq_error.mp failed with here | ⟨candidate, matched, failed⟩
      · exact matchNode_fails input child all.1 here
      · exact matchCandidates_fails input children (all.2 candidate matched).2 failed
termination_by structural children

/-- A match of the alternatives of a choice fails where one of its decisions does. -/
theorem matchAlternatives_fails (input : GrammarInput) (alternatives : List SchemaNode)
    {state best : MatchState} (all : EveryAlternative input good alternatives state best)
    (failed : matchAlternatives input alternatives state best = .error (.schema error)) :
    ∃ decision, good decision ∧ decision.Fails input error := by
  match alternatives with
  | [] => cases failed
  | alternative :: alternatives =>
    rw [EveryAlternative] at all
    rw [matchAlternatives] at failed
    rcases bind_eq_error.mp failed with here | ⟨candidate, matched, failed⟩
    · exact matchNode_fails input alternative all.1 here
    · exact matchAlternatives_fails input alternatives (all.2 candidate matched).2 failed
termination_by structural alternatives

/-- A match of the alternative at a position fails where one of its decisions does. -/
theorem matchAlternativeAt_fails (input : GrammarInput) (alternatives : List SchemaNode)
    {path : String} {index position : Nat} {state : MatchState}
    (all : EveryAlternativeAt input good alternatives position state)
    (failed : matchAlternativeAt input path index alternatives position state =
      .error (.schema error)) :
    ∃ decision, good decision ∧ decision.Fails input error := by
  match alternatives, position with
  | [], _ => cases failed
  | alternative :: _, 0 =>
    rw [EveryAlternativeAt] at all
    rw [matchAlternativeAt] at failed
    exact matchNode_fails input alternative all failed
  | _ :: alternatives, position + 1 =>
    rw [EveryAlternativeAt] at all
    rw [matchAlternativeAt] at failed
    exact matchAlternativeAt_fails input alternatives all failed
termination_by structural alternatives

end

/-- Reading a numeric node is no schema error. -/
theorem numericPayloadValue_ne_schema {payload : Bytes} {node : SchemaNode} {offset : Nat} :
    numericPayloadValue node payload offset ≠ .error (.schema error) := by
  rw [numericPayloadValue]
  split
  case h_1 => exact fun failed => nomatch failed
  case h_2 =>
    simp only
    split
    case h_1 => exact fun failed => nomatch failed
    case h_2 => exact fun failed => nomatch failed

/-- Reading the entry of a numeric node is no schema error. -/
theorem numericEntry_ne_schema {payload : Bytes} {node : SchemaNode} {offset : Nat} :
    numericEntry payload node offset ≠ .error (.schema error) := by
  rw [numericEntry]
  exact fun failed => numericPayloadValue_ne_schema (map_eq_error.mp failed)

mutual

/-- Reading the entries of a payload node is no schema error. -/
theorem numericEntries_ne_schema (payload : Bytes) (node : SchemaNode) (offset : Nat) :
    numericEntries payload node offset ≠ .error (.schema error) := by
  match node with
  | .struct info fields | .optionalStruct info fields optionalFrom =>
    rw [numericEntries]
    intro failed
    rcases bind_eq_error.mp failed with inner | ⟨_, _, failed⟩
    · exact fieldEntries_ne_schema payload fields offset inner
    · cases failed
  | .primitive _ _ | .sequence _ _ | .unordered _ _ | .choice _ _ | .selectedChoice _ _ _
  | .repeat _ _ _ _ | .subrecord _ _ _ | .array _ _ _ | .union _ _ _ | .custom _ _ _
  | .compressed _ _ _ | .terminated _ _ _ | .reference _ _ =>
    rw [numericEntries]
    · intro failed
      rcases bind_eq_error.mp failed with inner | ⟨_, _, failed⟩
      · exact numericEntry_ne_schema inner
      · cases failed
    all_goals simp
termination_by structural node

/-- Reading the entries of fields is no schema error. -/
theorem fieldEntries_ne_schema (payload : Bytes) (fields : List SchemaNode) (cursor : Nat) :
    fieldEntries payload fields cursor ≠ .error (.schema error) := by
  match fields with
  | [] => exact fun failed => nomatch failed
  | field :: fields =>
    rw [fieldEntries]
    intro failed
    rcases bind_eq_error.mp failed with here | ⟨⟨consumed, _⟩, _, failed⟩
    · exact numericEntries_ne_schema payload field cursor here
    · cases consumed with
      | none => cases failed
      | some consumed =>
        rcases bind_eq_error.mp failed with rest | ⟨_, _, failed⟩
        · exact fieldEntries_ne_schema payload fields _ rest
        · cases failed
termination_by structural fields

end

end Bethkit
