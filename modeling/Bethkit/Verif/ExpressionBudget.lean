import Bethkit.Lib.Budget
import Bethkit.Lib.Outcome
import Bethkit.Spec.Expressions

/-!
# The budget of an expression decides only exhaustion

Every form of expression is charged one operation and then runs its operands one after the other,
with checks between them that have no budget. So it has a cost of its own, which its size bounds.
-/

namespace Bethkit

open Lib

namespace Expression

variable {context : EvalContext}

/-- A computation whose cost is bounded. -/
abbrev Costs (bound : Nat) (run : Nat → Except SchemaError (EvalValue × Nat)) : Prop :=
  CostsAtMost budgetExhausted bound run

/-- Any other text is another error. -/
theorem expression_ne_exhausted {message : String} (other : message ≠ "operation budget exhausted") :
    SchemaError.expression message ≠ budgetExhausted :=
  fun same => other (SchemaError.expression.inj same)

/-- A result that is no boolean is another error. -/
theorem asBool_own (value : EvalValue) :
    ∀ error, value.asBool = .error error → error ≠ budgetExhausted := by
  intro error failed
  cases value with
  | bool value => cases failed
  | int value =>
    obtain rfl := Except.error.inj failed
    exact expression_ne_exhausted (by decide)

/-- A result that is no integer is another error. -/
theorem asInt_own (value : EvalValue) :
    ∀ error, value.asInt = .error error → error ≠ budgetExhausted := by
  intro error failed
  cases value with
  | int value => cases failed
  | bool value =>
    obtain rfl := Except.error.inj failed
    exact expression_ne_exhausted (by decide)

/-- A missing result is another error. -/
theorem checked_own {result : Option Int64} {message : String}
    (other : message ≠ "operation budget exhausted") :
    ∀ error, checked result message = .error error → error ≠ budgetExhausted := by
  intro error failed
  cases result with
  | some value => cases failed
  | none =>
    obtain rfl := Except.error.inj failed
    exact expression_ne_exhausted other

/-- A failed read is another error. -/
theorem readUnsigned_own (payload : Bytes) (offset : UInt32) (width : UInt8) :
    ∀ error, Bethkit.readUnsigned payload offset width = .error error →
      error ≠ budgetExhausted := by
  intro error failed
  unfold Bethkit.readUnsigned at failed
  dsimp only at failed
  cases read : payload.get offset.toNat (offset.toNat + width.toNat) with
  | none =>
    rw [read] at failed
    obtain rfl := Except.error.inj failed
    apply expression_ne_exhausted
    intro same
    have letters := congrArg String.toList same
    simp [toString] at letters
  | some bytes =>
    rw [read] at failed
    dsimp only at failed
    by_cases wide : width = 1 ∨ width = 2 ∨ width = 4 ∨ width = 8
    · rw [if_pos wide] at failed
      cases fits : i64TryFrom (leValue bytes) with
      | some value =>
        rw [fits] at failed
        cases failed
      | none =>
        rw [fits] at failed
        obtain rfl := Except.error.inj failed
        exact expression_ne_exhausted (by decide)
    · rw [if_neg wide] at failed
      obtain rfl := Except.error.inj failed
      apply expression_ne_exhausted
      intro same
      have letters := congrArg String.toList same
      simp [toString] at letters

/-- The text of a missing field is another one. -/
theorem readField_own (path : String) :
    s!"field {path} is unavailable at this grammar position" ≠ "operation budget exhausted" := by
  intro same
  have letters := congrArg String.toList same
  simp [toString] at letters

/-- The search of a table costs at most its cases. -/
theorem costs_lookupCase (key default : Int64) (cases : List IntegerLookupCase) :
    Costs cases.length (lookupCase key default cases) := by
  induction cases with
  | nil => exact .pure (EvalValue.int default)
  | cons entry entries rest =>
    by_cases here : entry.input = key
    · have found : Costs 0 fun left => .ok (EvalValue.int entry.output, left) := .pure _
      have charged : Costs 1 (lookupCase key default (entry :: entries)) :=
        found.charge rfl fun left => if_pos here
      exact charged.mono (by simp)
    · exact rest.charge rfl fun left => if_neg here

/-- Two integer operands and what is made of them. -/
theorem costs_evaluateInts {left right : Nat → Except SchemaError (EvalValue × Nat)}
    {next : Int64 × Int64 × Nat → Except SchemaError (EvalValue × Nat)} {first second more : Nat}
    (leftCosts : Costs first left) (rightCosts : Costs second right)
    (rest : ∀ leftValue rightValue,
      Costs more fun remaining => next (leftValue, rightValue, remaining)) :
    Costs (first + (second + more)) fun remaining => evaluateInts left right remaining >>= next := by
  have operands : ∀ leftValue, Costs (second + more) fun remaining =>
      right remaining >>= fun rightResult =>
        rightResult.1.asInt >>= fun rightValue => next (leftValue, rightValue, rightResult.2) := by
    intro leftValue
    apply rightCosts.bind
    intro value
    exact .check (asInt_own value) (rest leftValue)
  have whole : Costs (first + (second + more)) fun remaining =>
      left remaining >>= fun leftResult => leftResult.1.asInt >>= fun leftValue =>
        right leftResult.2 >>= fun rightResult => rightResult.1.asInt >>= fun rightValue =>
          next (leftValue, rightValue, rightResult.2) := by
    apply leftCosts.bind
    intro value
    exact .check (asInt_own value) operands
  have same : (fun remaining => evaluateInts left right remaining >>= next) = fun remaining =>
      left remaining >>= fun leftResult => leftResult.1.asInt >>= fun leftValue =>
        right leftResult.2 >>= fun rightResult => rightResult.1.asInt >>= fun rightValue =>
          next (leftValue, rightValue, rightResult.2) := by
    funext remaining
    rw [evaluateInts]
    simp only [bind_assoc]
    rfl
  rw [same]
  exact whole

/-- What is made of the boolean of an operand. -/
theorem costs_bool {run : Nat → Except SchemaError (EvalValue × Nat)}
    {next : Bool → Nat → Except SchemaError (EvalValue × Nat)} {first more : Nat}
    (costs : Costs first run) (rest : ∀ holds, Costs more (next holds)) :
    Costs (first + more) fun remaining =>
      run remaining >>= fun result => result.1.asBool >>= fun holds => next holds result.2 := by
  apply costs.bind
  intro value
  exact .check (asBool_own value) rest

/-- What is made of the integer of an operand. -/
theorem costs_int {run : Nat → Except SchemaError (EvalValue × Nat)}
    {next : Int64 → Nat → Except SchemaError (EvalValue × Nat)} {first more : Nat}
    (costs : Costs first run) (rest : ∀ value, Costs more (next value)) :
    Costs (first + more) fun remaining =>
      run remaining >>= fun result => result.1.asInt >>= fun value => next value result.2 := by
  apply costs.bind
  intro value
  exact .check (asInt_own value) rest

/-- A comparison of two values of any kind. -/
theorem costs_comparison {left right : Nat → Except SchemaError (EvalValue × Nat)}
    {first second : Nat} (compare : EvalValue → EvalValue → Bool) (leftCosts : Costs first left)
    (rightCosts : Costs second right) :
    Costs (first + (second + 0)) fun remaining => left remaining >>= fun leftResult =>
      right leftResult.2 >>= fun rightResult =>
        .ok (EvalValue.bool (compare leftResult.1 rightResult.1), rightResult.2) := by
  apply leftCosts.bind
  intro leftValue
  show Costs (second + 0) fun remaining => right remaining >>= fun rightResult =>
    .ok (EvalValue.bool (compare leftValue rightResult.1), rightResult.2)
  apply rightCosts.bind
  intro rightValue
  exact .pure (EvalValue.bool (compare leftValue rightValue))

/-- A comparison of two integers. -/
theorem costs_integerComparison {left right : Nat → Except SchemaError (EvalValue × Nat)}
    {first second : Nat} (compare : Int64 → Int64 → Bool) (leftCosts : Costs first left)
    (rightCosts : Costs second right) :
    Costs (first + (second + 0)) fun remaining => evaluateInts left right remaining >>= fun operands =>
      .ok (EvalValue.bool (compare operands.1 operands.2.1), operands.2.2) := by
  apply costs_evaluateInts leftCosts rightCosts
  intro leftValue rightValue
  exact .pure (EvalValue.bool (compare leftValue rightValue))

/-- A checked operation on two integers. -/
theorem costs_arithmetic {left right : Nat → Except SchemaError (EvalValue × Nat)}
    {first second : Nat} (operation : Int64 → Int64 → Option Int64) {message : String}
    (other : message ≠ "operation budget exhausted") (leftCosts : Costs first left)
    (rightCosts : Costs second right) :
    Costs (first + (second + 0)) fun remaining => evaluateInts left right remaining >>= fun operands =>
      checked (operation operands.1 operands.2.1) message >>= fun value =>
        .ok (value, operands.2.2) := by
  apply costs_evaluateInts leftCosts rightCosts
  intro leftValue rightValue
  exact .check (@checked_own (operation leftValue rightValue) _ other) fun value => .pure value

mutual

/-- Every expression costs at most its size. -/
theorem costs_evaluateInner (expression : Expression) :
    Costs expression.size (evaluateInner context expression) := by
  cases expression with
  | bool value =>
    have step : Costs 0 fun left => .ok (EvalValue.bool value, left) := .pure _
    exact step.charge rfl fun left => rfl
  | int value =>
    have step : Costs 0 fun left => .ok (EvalValue.int value, left) := .pure _
    exact step.charge rfl fun left => rfl
  | payloadLength =>
    have own := @checked_own (i64TryFrom context.payload.length) _
      (by decide : "payload length exceeds i64" ≠ "operation budget exhausted")
    have step : Costs 0 fun left =>
        checked (i64TryFrom context.payload.length) "payload length exceeds i64" >>= fun value =>
          .ok (value, left) := .check own fun value => .pure value
    exact step.charge rfl fun left => rfl
  | formVersion =>
    have step : Costs 0 fun left =>
      .ok (EvalValue.int (Int64.ofNat context.formVersion.toNat), left) := .pure _
    exact step.charge rfl fun left => rfl
  | readUnsigned offset width =>
    have own := readUnsigned_own context.payload offset width
    have step : Costs 0 fun left =>
        Bethkit.readUnsigned context.payload offset width >>= fun value =>
          .ok (EvalValue.int value, left) := .check own fun value => .pure (EvalValue.int value)
    exact step.charge rfl fun left => rfl
  | readField path =>
    have own := @checked_own (context.fieldValues.get? path) _ (readField_own path)
    have step : Costs 0 fun left =>
        checked (context.fieldValues.get? path)
          s!"field {path} is unavailable at this grammar position" >>= fun value =>
            .ok (value, left) := .check own fun value => .pure value
    exact step.charge rfl fun left => rfl
  | recordSignature signature =>
    have step : Costs 0 fun left =>
      .ok (EvalValue.bool (signature = context.recordSignature), left) := .pure _
    exact step.charge rfl fun left => rfl
  | equal left right =>
    have step := costs_comparison (fun first second => first = second)
      (costs_evaluateInner left) (costs_evaluateInner right)
    exact step.charge rfl fun left => rfl
  | notEqual left right =>
    have step := costs_comparison (fun first second => first ≠ second)
      (costs_evaluateInner left) (costs_evaluateInner right)
    exact step.charge rfl fun left => rfl
  | lessThan left right =>
    have step := costs_integerComparison (fun first second => first < second)
      (costs_evaluateInner left) (costs_evaluateInner right)
    exact step.charge rfl fun left => rfl
  | bitSet value bit =>
    by_cases beyond : 64 ≤ bit.toNat
    · have step : Costs 0 fun _ => .error (.expression "bit index must be below 64") :=
        .fault (expression_ne_exhausted (by decide))
      exact (step.mono (Nat.zero_le _)).charge rfl fun left => if_pos beyond
    · have step := costs_int (costs_evaluateInner value) fun raw =>
        (.pure (EvalValue.bool (raw.toUInt64.toNat.testBit bit.toNat)) :
          Costs 0 fun left => .ok (_, left))
      exact step.charge rfl fun left => if_neg beyond
  | and values =>
    have step := costs_evaluateAnd values
    exact step.charge rfl fun left => rfl
  | or values =>
    have step := costs_evaluateOr values
    exact step.charge rfl fun left => rfl
  | not value =>
    have step := costs_bool (costs_evaluateInner value) fun result =>
      (.pure (EvalValue.bool !result) : Costs 0 fun left => .ok (_, left))
    exact step.charge rfl fun left => rfl
  | add left right =>
    have step := costs_arithmetic i64CheckedAdd
      (by decide : "signed addition overflowed" ≠ "operation budget exhausted")
      (costs_evaluateInner left) (costs_evaluateInner right)
    exact step.charge rfl fun left => rfl
  | subtract left right =>
    have step := costs_arithmetic i64CheckedSub
      (by decide : "signed subtraction overflowed" ≠ "operation budget exhausted")
      (costs_evaluateInner left) (costs_evaluateInner right)
    exact step.charge rfl fun left => rfl
  | multiply left right =>
    have step := costs_arithmetic i64CheckedMul
      (by decide : "signed multiplication overflowed" ≠ "operation budget exhausted")
      (costs_evaluateInner left) (costs_evaluateInner right)
    exact step.charge rfl fun left => rfl
  | divide left right =>
    have step := costs_arithmetic i64CheckedDiv
      (by decide : "signed division by zero or overflowed" ≠ "operation budget exhausted")
      (costs_evaluateInner left) (costs_evaluateInner right)
    exact step.charge rfl fun left => rfl
  | bitCount value =>
    have step := costs_int (costs_evaluateInner value) fun raw =>
      (.pure (EvalValue.int (Int64.ofNat (u64CountOnes raw.toUInt64))) :
        Costs 0 fun left => .ok (_, left))
    exact step.charge rfl fun left => rfl
  | integerLookup value cases default =>
    have step := costs_int (costs_evaluateInner value) fun key =>
      costs_lookupCase key default cases
    exact step.charge rfl fun left => rfl
  | select condition ifTrue ifFalse =>
    have chosen : ∀ holds : Bool, Costs (ifTrue.size + ifFalse.size) fun left =>
        if holds then evaluateInner context ifTrue left else evaluateInner context ifFalse left := by
      intro holds
      cases holds with
      | true => exact (costs_evaluateInner ifTrue).mono (Nat.le_add_right _ _)
      | false => exact (costs_evaluateInner ifFalse).mono (Nat.le_add_left _ _)
    have step := costs_bool (costs_evaluateInner condition) chosen
    exact step.charge rfl fun left => rfl
termination_by structural expression

/-- Every conjunction costs at most the sizes of its operands. -/
theorem costs_evaluateAnd (values : List Expression) :
    Costs (sizes values) (evaluateAnd context values) := by
  cases values with
  | nil => exact .pure (EvalValue.bool true)
  | cons value values =>
    have rest : ∀ holds : Bool, Costs (sizes values) fun left =>
        if holds then evaluateAnd context values left else .ok (EvalValue.bool false, left) := by
      intro holds
      cases holds with
      | true => exact costs_evaluateAnd values
      | false => exact (CostsAtMost.pure _).mono (Nat.zero_le _)
    exact costs_bool (costs_evaluateInner value) rest
termination_by structural values

/-- Every disjunction costs at most the sizes of its operands. -/
theorem costs_evaluateOr (values : List Expression) :
    Costs (sizes values) (evaluateOr context values) := by
  cases values with
  | nil => exact .pure (EvalValue.bool false)
  | cons value values =>
    have rest : ∀ holds : Bool, Costs (sizes values) fun left =>
        if holds then .ok (EvalValue.bool true, left) else evaluateOr context values left := by
      intro holds
      cases holds with
      | true => exact (CostsAtMost.pure _).mono (Nat.zero_le _)
      | false => exact costs_evaluateOr values
    exact costs_bool (costs_evaluateInner value) rest
termination_by structural values

end

/-- The budget decides only whether an evaluation is exhausted. -/
theorem evaluate_budgetMonotone (expression : Expression) (context : EvalContext) :
    expression.BudgetMonotone context := by
  have costs : Costs expression.size (evaluateInner context expression) :=
    costs_evaluateInner expression
  have stable : ∀ small large, small ≤ large →
      expression.evaluate context small ≠ .error budgetExhausted →
        expression.evaluate context large = expression.evaluate context small := by
    intro small large less ended
    apply costs.stable less
    intro exhausted
    exact ended (congrArg (Except.map Prod.fst) exhausted)
  refine ⟨?_, ?_, ?_⟩
  · intro small large value less evaluated
    rw [← evaluated]
    apply stable small large less
    rw [evaluated]
    intro same
    cases same
  · intro small large error less other failed
    rw [← failed]
    apply stable small large less
    rw [failed]
    exact fun same => other (Except.error.inj same)
  · intro budget enough exhausted
    exact costs.not_exhausted enough (map_eq_error.mp exhausted)

end Expression

end Bethkit
