import Bethkit.Lib.Outcome
import Bethkit.Spec.FieldAccess

/-!
# Where missing fields come from

An evaluation that fails with a missing field mentions the field and has no value for it. A
match fails with a schema error only where one of its decisions does.
-/

namespace Bethkit

open Lib

/-- Other messages do not begin like that of a missing field. -/
theorem expression_ne_missingField {message : String} (path : String)
    (other : message.toList.head? ≠ some 'f') : .expression message ≠ missingField path := by
  intro same
  rw [missingField, SchemaError.expression.injEq] at same
  apply other
  rw [same, String.toList_append, String.toList_append]
  rfl

/-- The error names its field. -/
theorem missingField_inj {first second : String} (same : missingField first = missingField second) :
    first = second := by
  rw [missingField, missingField, SchemaError.expression.injEq] at same
  have texts : "field " ++ first ++ " is unavailable at this grammar position" =
      "field " ++ second ++ " is unavailable at this grammar position" := same
  simpa using texts

namespace Expression

variable {context : EvalContext} {path : String}

/-- A value of the wrong type is not a missing field. -/
theorem asInt_ne_missingField (value : EvalValue) :
    value.asInt ≠ .error (missingField path) := by
  cases value with
  | bool => exact fun same => expression_ne_missingField path (by decide) (Except.error.inj same)
  | int => exact fun same => nomatch same

/-- A value of the wrong type is not a missing field. -/
theorem asBool_ne_missingField (value : EvalValue) :
    value.asBool ≠ .error (missingField path) := by
  cases value with
  | bool => exact fun same => nomatch same
  | int => exact fun same => expression_ne_missingField path (by decide) (Except.error.inj same)

/-- A result outside the word is not a missing field. -/
theorem checked_ne_missingField {message : String} (other : message.toList.head? ≠ some 'f')
    (result : Option Int64) : checked result message ≠ .error (missingField path) := by
  cases result with
  | none => exact fun same => expression_ne_missingField path other (Except.error.inj same)
  | some => exact fun same => nomatch same

/-- A read outside the payload is not a missing field. -/
theorem readUnsigned_ne_missingField (payload : Bytes) (offset : UInt32) (width : UInt8) :
    Bethkit.readUnsigned payload offset width ≠ .error (missingField path) := by
  intro failed
  rw [Bethkit.readUnsigned] at failed
  split at failed
  case h_1 =>
    refine expression_ne_missingField path ?_ (Except.error.inj failed)
    simp only [String.toList_append]
    show some 'r' ≠ _
    decide
  case h_2 =>
    split at failed
    case isTrue =>
      split at failed
      case h_1 => cases failed
      case h_2 => exact expression_ne_missingField path (by decide) (Except.error.inj failed)
    case isFalse =>
      refine expression_ne_missingField path ?_ (Except.error.inj failed)
      rw [String.toList_append]
      show some 'u' ≠ _
      decide

/-- A lookup table reads no field. -/
theorem lookupCase_ne_missingField (key default : Int64) (cases : List IntegerLookupCase)
    (remaining : Nat) : lookupCase key default cases remaining ≠ .error (missingField path) := by
  induction cases generalizing remaining with
  | nil => exact fun same => nomatch same
  | cons entry entries rest =>
    cases remaining with
    | zero =>
      exact fun same => expression_ne_missingField path (by decide) (Except.error.inj same)
    | succ remaining =>
      rw [lookupCase]
      split
      case isTrue => exact fun same => nomatch same
      case isFalse => exact rest remaining

/-- Two operands miss a field if one of them does. -/
theorem evaluateInts_missingField {left right : Nat → Except SchemaError (EvalValue × Nat)}
    {remaining : Nat} (failed : evaluateInts left right remaining = .error (missingField path)) :
    (∃ budget, left budget = .error (missingField path)) ∨
      ∃ budget, right budget = .error (missingField path) := by
  rw [evaluateInts] at failed
  rcases bind_eq_error.mp failed with first | ⟨⟨_, budget⟩, _, failed⟩
  · exact .inl ⟨_, first⟩
  rcases bind_eq_error.mp failed with wrong | ⟨_, _, failed⟩
  · exact absurd wrong (asInt_ne_missingField _)
  rcases bind_eq_error.mp failed with second | ⟨⟨_, budget⟩, _, failed⟩
  · exact .inr ⟨_, second⟩
  rcases bind_eq_error.mp failed with wrong | ⟨_, _, failed⟩
  · exact absurd wrong (asInt_ne_missingField _)
  · cases failed

/-- A checked operation on two operands misses a field if one of them does. -/
theorem checkedInts_missingField {left right : Nat → Except SchemaError (EvalValue × Nat)}
    {remaining : Nat} {operation : Int64 → Int64 → Option Int64} {message : String}
    (other : message.toList.head? ≠ some 'f')
    (failed : (do
      let (first, second, remaining) ← evaluateInts left right remaining
      let result ← checked (operation first second) message
      .ok (result, remaining)) = .error (missingField path)) :
    (∃ budget, left budget = .error (missingField path)) ∨
      ∃ budget, right budget = .error (missingField path) := by
  rcases bind_eq_error.mp failed with operands | ⟨_, _, failed⟩
  · exact evaluateInts_missingField operands
  rcases bind_eq_error.mp failed with overflow | ⟨_, _, failed⟩
  · exact absurd overflow (checked_ne_missingField other _)
  · cases failed

/-- An operation on one operand misses a field if the operand does. -/
theorem operand_missingField {α : Type} {value : Except SchemaError (EvalValue × Nat)}
    {read : EvalValue → Except SchemaError α}
    (typed : ∀ value, read value ≠ .error (missingField path))
    {next : EvalValue × Nat → α → Except SchemaError (EvalValue × Nat)}
    (more : ∀ step operand, next step operand ≠ .error (missingField path))
    (failed : (value >>= fun step => read step.1 >>= next step) = .error (missingField path)) :
    value = .error (missingField path) := by
  rcases bind_eq_error.mp failed with first | ⟨_, _, failed⟩
  · exact first
  rcases bind_eq_error.mp failed with wrong | ⟨_, _, failed⟩
  · exact absurd wrong (typed _)
  · exact absurd failed (more _ _)

mutual

/-- An evaluation that misses a field mentions it and has no value for it. -/
theorem evaluateInner_missingField (context : EvalContext) (expression : Expression)
    {remaining : Nat} {path : String}
    (failed : evaluateInner context expression remaining = .error (missingField path)) :
    path ∈ expression.fieldPaths ∧ context.fieldValues[path]? = none := by
  cases remaining with
  | zero =>
    rw [evaluateInner] at failed
    exact absurd (Except.error.inj failed) (expression_ne_missingField path (by decide))
  | succ remaining =>
    cases expression with
    | bool _ | int _ | formVersion | recordSignature _ =>
      rw [evaluateInner] at failed
      exact nomatch failed
    | payloadLength =>
      rw [evaluateInner] at failed
      rcases bind_eq_error.mp failed with wrong | ⟨_, _, failed⟩
      · exact absurd wrong (checked_ne_missingField (by decide) _)
      · cases failed
    | readUnsigned offset width =>
      rw [evaluateInner] at failed
      rcases bind_eq_error.mp failed with wrong | ⟨_, _, failed⟩
      · exact absurd wrong (readUnsigned_ne_missingField _ _ _)
      · cases failed
    | readField read =>
      rw [evaluateInner] at failed
      rcases bind_eq_error.mp failed with missing | ⟨_, _, failed⟩
      · rw [checked.eq_def] at missing
        split at missing
        case h_1 => cases missing
        case h_2 absent =>
          have same : read = path := missingField_inj (Except.error.inj missing)
          subst same
          exact ⟨List.mem_singleton_self _, absent⟩
      · cases failed
    | equal left right | notEqual left right =>
      rw [evaluateInner] at failed
      rcases bind_eq_error.mp failed with first | ⟨_, _, failed⟩
      · exact (evaluateInner_missingField context left first).imp_left
          (List.mem_append_left _ ·)
      rcases bind_eq_error.mp failed with second | ⟨_, _, failed⟩
      · exact (evaluateInner_missingField context right second).imp_left
          (List.mem_append_right _ ·)
      · cases failed
    | lessThan left right =>
      rw [evaluateInner] at failed
      rcases bind_eq_error.mp failed with operands | ⟨_, _, failed⟩
      · rcases evaluateInts_missingField operands with ⟨_, first⟩ | ⟨_, second⟩
        · exact (evaluateInner_missingField context left first).imp_left
            (List.mem_append_left _ ·)
        · exact (evaluateInner_missingField context right second).imp_left
            (List.mem_append_right _ ·)
      · cases failed
    | add left right | subtract left right | multiply left right | divide left right =>
      rw [evaluateInner] at failed
      rcases checkedInts_missingField (by decide) failed with ⟨_, first⟩ | ⟨_, second⟩
      · exact (evaluateInner_missingField context left first).imp_left
          (List.mem_append_left _ ·)
      · exact (evaluateInner_missingField context right second).imp_left
          (List.mem_append_right _ ·)
    | bitSet value bit =>
      rw [evaluateInner] at failed
      split at failed
      case isTrue =>
        exact absurd (Except.error.inj failed) (expression_ne_missingField path (by decide))
      case isFalse =>
        refine evaluateInner_missingField context value (operand_missingField asInt_ne_missingField ?_ failed)
        exact fun _ _ same => nomatch same
    | bitCount value =>
      rw [evaluateInner] at failed
      refine evaluateInner_missingField context value (operand_missingField asInt_ne_missingField ?_ failed)
      exact fun _ _ same => nomatch same
    | not value =>
      rw [evaluateInner] at failed
      refine evaluateInner_missingField context value (operand_missingField asBool_ne_missingField ?_ failed)
      exact fun _ _ same => nomatch same
    | integerLookup value entries default =>
      rw [evaluateInner] at failed
      refine evaluateInner_missingField context value
        (operand_missingField asInt_ne_missingField ?_ failed)
      exact fun _ _ => lookupCase_ne_missingField _ _ _ _
    | and values =>
      rw [evaluateInner] at failed
      exact evaluateAnd_missingField context values failed
    | or values =>
      rw [evaluateInner] at failed
      exact evaluateOr_missingField context values failed
    | select condition ifTrue ifFalse =>
      rw [evaluateInner] at failed
      rcases bind_eq_error.mp failed with first | ⟨_, _, failed⟩
      · exact (evaluateInner_missingField context condition first).imp_left
          (List.mem_append_left _ ·)
      rcases bind_eq_error.mp failed with wrong | ⟨holds, _, failed⟩
      · exact absurd wrong (asBool_ne_missingField _)
      cases holds with
      | true =>
        exact (evaluateInner_missingField context ifTrue failed).imp_left fun member =>
          List.mem_append_right _ (List.mem_append_left _ member)
      | false =>
        exact (evaluateInner_missingField context ifFalse failed).imp_left fun member =>
          List.mem_append_right _ (List.mem_append_right _ member)
termination_by structural expression

/-- A conjunction that misses a field mentions it and has no value for it. -/
theorem evaluateAnd_missingField (context : EvalContext) (values : List Expression)
    {remaining : Nat} {path : String}
    (failed : evaluateAnd context values remaining = .error (missingField path)) :
    path ∈ allFieldPaths values ∧ context.fieldValues[path]? = none := by
  match values with
  | [] =>
    rw [evaluateAnd] at failed
    cases failed
  | value :: values =>
    rw [evaluateAnd] at failed
    rcases bind_eq_error.mp failed with first | ⟨_, _, failed⟩
    · exact (evaluateInner_missingField context value first).imp_left (List.mem_append_left _ ·)
    rcases bind_eq_error.mp failed with wrong | ⟨holds, _, failed⟩
    · exact absurd wrong (asBool_ne_missingField _)
    cases holds with
    | true =>
      exact (evaluateAnd_missingField context values failed).imp_left (List.mem_append_right _ ·)
    | false => cases failed
termination_by structural values

/-- A disjunction that misses a field mentions it and has no value for it. -/
theorem evaluateOr_missingField (context : EvalContext) (values : List Expression)
    {remaining : Nat} {path : String}
    (failed : evaluateOr context values remaining = .error (missingField path)) :
    path ∈ allFieldPaths values ∧ context.fieldValues[path]? = none := by
  match values with
  | [] =>
    rw [evaluateOr] at failed
    cases failed
  | value :: values =>
    rw [evaluateOr] at failed
    rcases bind_eq_error.mp failed with first | ⟨_, _, failed⟩
    · exact (evaluateInner_missingField context value first).imp_left (List.mem_append_left _ ·)
    rcases bind_eq_error.mp failed with wrong | ⟨holds, _, failed⟩
    · exact absurd wrong (asBool_ne_missingField _)
    cases holds with
    | true => cases failed
    | false =>
      exact (evaluateOr_missingField context values failed).imp_left (List.mem_append_right _ ·)
termination_by structural values

end

end Expression

end Bethkit
