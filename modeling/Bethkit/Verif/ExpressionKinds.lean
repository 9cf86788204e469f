import Bethkit.Lib.Budget
import Bethkit.Lib.Outcome
import Bethkit.Schema.Package
import Bethkit.Spec.Expressions
import Bethkit.Spec.Sample

/-!
# Expressions that have their kind evaluate

By induction on how an expression gets its kind: every operand yields its kind and leaves enough of the
budget for the rest. Loading a package checks neither kinds nor costs.
-/

namespace Bethkit

open Lib

namespace Expression

/-- An evaluation on a budget. -/
abbrev Sound (expression : Expression) (kind : ValueKind) : Prop :=
  ∀ context budget, expression.operations ≤ budget →
    Spends (fun value : EvalValue => value.kind = kind) DataFault expression.operations budget
      (evaluateInner context expression budget)

/-- The integer of a result of that kind. -/
theorem exists_asInt {value : EvalValue} (kind : value.kind = .int) :
    ∃ number, value.asInt = .ok number := by
  cases value with
  | bool value => contradiction
  | int number => exact ⟨number, rfl⟩

/-- The boolean of a result of that kind. -/
theorem exists_asBool {value : EvalValue} (kind : value.kind = .bool) :
    ∃ holds, value.asBool = .ok holds := by
  cases value with
  | bool holds => exact ⟨holds, rfl⟩
  | int number => contradiction

/-- A checked integer spends nothing. -/
theorem checked_spends {result : Option Int64} {message : String} {budget left cost : Nat}
    (fault : DataFault (.expression message)) (enough : budget ≤ left + cost) :
    Spends (fun value : EvalValue => value.kind = .int) DataFault cost budget
      (checked result message >>= fun value => .ok (value, left)) := by
  cases result with
  | none => exact .error fault
  | some number => exact .ok rfl enough

/-- A read that fails has a fault of the data. -/
theorem readUnsigned_error {payload : Bytes} {offset : UInt32} {width : UInt8} {error : SchemaError}
    (failed : Bethkit.readUnsigned payload offset width = .error error) : DataFault error := by
  rw [Bethkit.readUnsigned] at failed
  split at failed
  · cases failed
    exact .range _ _ _
  · split at failed
    · split at failed
      · cases failed
      · cases failed
        exact .unsigned
    · cases failed
      exact .width _

/-- Reading bytes yields a number or has a fault. -/
theorem readUnsigned_spends (payload : Bytes) (offset : UInt32) (width : UInt8) {budget left cost : Nat}
    (enough : budget ≤ left + cost) :
    Spends (fun value : EvalValue => value.kind = .int) DataFault cost budget
      (Bethkit.readUnsigned payload offset width >>= fun value => .ok (.int value, left)) := by
  cases read : Bethkit.readUnsigned payload offset width with
  | error error => exact .error (readUnsigned_error read)
  | ok number => exact .ok rfl enough

/-- Two integer operands. -/
theorem evaluateInts_spends {left right : Expression} (leftSound : left.Sound .int)
    (rightSound : right.Sound .int) (context : EvalContext) {budget : Nat} {kind : ValueKind}
    {next : Int64 × Int64 × Nat → Except SchemaError (EvalValue × Nat)}
    (enough : left.operations + right.operations ≤ budget)
    (rest : ∀ first second remaining, budget ≤ remaining + (left.operations + right.operations) →
      Spends (fun value : EvalValue => value.kind = kind) DataFault
        (left.operations + right.operations) budget (next (first, second, remaining))) :
    Spends (fun value : EvalValue => value.kind = kind) DataFault
      (left.operations + right.operations) budget
      (evaluateInts (evaluateInner context left) (evaluateInner context right) budget >>= next) := by
  have head := leftSound context budget (by omega)
  rw [evaluateInts]
  cases first : evaluateInner context left budget with
  | error error =>
    rw [first] at head
    exact head
  | ok pair =>
    obtain ⟨value, remaining⟩ := pair
    rw [first] at head
    obtain ⟨number, isInt⟩ := exists_asInt head.1
    have spent := head.2
    have tail := rightSound context remaining (by omega)
    rw [ok_bind]
    dsimp only
    rw [isInt, ok_bind]
    cases second : evaluateInner context right remaining with
    | error error =>
      rw [second] at tail
      exact tail
    | ok other =>
      obtain ⟨value, remaining⟩ := other
      rw [second] at tail
      obtain ⟨behind, isInt⟩ := exists_asInt tail.1
      have more := tail.2
      rw [ok_bind]
      dsimp only
      rw [isInt]
      exact rest number behind remaining (by omega)

/-- The search of a table takes an operation for each case. -/
theorem lookupCase_spends (key default : Int64) (cases : List IntegerLookupCase) {budget : Nat}
    (enough : cases.length ≤ budget) :
    Spends (fun value : EvalValue => value.kind = .int) DataFault cases.length budget
      (lookupCase key default cases budget) := by
  induction cases generalizing budget with
  | nil => exact .ok rfl (Nat.le_refl _)
  | cons entry entries rest =>
    cases budget with
    | zero => contradiction
    | succ budget =>
      rw [List.length_cons] at enough ⊢
      rw [lookupCase]
      split
      · exact .ok rfl (by omega)
      · have others := rest (Nat.le_of_succ_le_succ enough)
        rw [Nat.add_comm]
        exact others.later (Nat.le_refl _)

/-- A conjunction takes the operations of its operands. -/
theorem evaluateAnd_spends {values : List Expression} (sound : ∀ value ∈ values, Sound value .bool)
    (context : EvalContext) {budget : Nat} (enough : allOperations values ≤ budget) :
    Spends (fun value : EvalValue => value.kind = .bool) DataFault (allOperations values) budget
      (evaluateAnd context values budget) := by
  induction values generalizing budget with
  | nil => exact .ok rfl (Nat.le_refl _)
  | cons value values rest =>
    rw [allOperations] at enough ⊢
    refine (sound value List.mem_cons_self context budget (by omega)).bind
      fun result left kind spent => ?_
    obtain ⟨holds, isBool⟩ := exists_asBool kind
    have others := @rest (fun other among => sound other (List.mem_cons_of_mem _ among)) left
      (by omega)
    dsimp only
    rw [isBool, ok_bind]
    cases holds with
    | false => exact .ok rfl (by omega)
    | true =>
      exact others.later spent

/-- A disjunction takes the operations of its operands. -/
theorem evaluateOr_spends {values : List Expression} (sound : ∀ value ∈ values, Sound value .bool)
    (context : EvalContext) {budget : Nat} (enough : allOperations values ≤ budget) :
    Spends (fun value : EvalValue => value.kind = .bool) DataFault (allOperations values) budget
      (evaluateOr context values budget) := by
  induction values generalizing budget with
  | nil => exact .ok rfl (Nat.le_refl _)
  | cons value values rest =>
    rw [allOperations] at enough ⊢
    refine (sound value List.mem_cons_self context budget (by omega)).bind
      fun result left kind spent => ?_
    obtain ⟨holds, isBool⟩ := exists_asBool kind
    have others := @rest (fun other among => sound other (List.mem_cons_of_mem _ among)) left
      (by omega)
    dsimp only
    rw [isBool, ok_bind]
    cases holds with
    | true => exact .ok rfl (by omega)
    | false =>
      exact others.later spent

/-- The first operation is taken from the budget. -/
theorem Spends_step {result : EvalValue → Prop} {expression : Expression} (cost : Nat)
    (costs : expression.operations = 1 + cost) {context : EvalContext}
    (body : ∀ budget, cost ≤ budget →
      Spends result DataFault cost budget (evaluateInner context expression (budget + 1)))
    {budget : Nat} (enough : expression.operations ≤ budget) :
    Spends result DataFault expression.operations budget
      (evaluateInner context expression budget) := by
  rw [costs] at enough ⊢
  cases budget with
  | zero => omega
  | succ budget =>
    exact (body budget (by omega)).later (Nat.add_comm budget 1 ▸ Nat.le_refl _)

/-- An expression that has a kind yields it and takes its operations. -/
theorem HasKind.sound {expression : Expression} {kind : ValueKind}
    (typed : expression.HasKind kind) : expression.Sound kind := by
  induction typed with
  | bool value | int value | formVersion | recordSignature signature =>
    intro context budget enough
    refine Spends_step 0 rfl (fun budget _ => ?_) enough
    rw [evaluateInner]
    exact .ok rfl (Nat.le_refl _)
  | payloadLength =>
    intro context budget enough
    refine Spends_step 0 rfl (fun budget _ => ?_) enough
    rw [evaluateInner.eq_def]
    dsimp only
    generalize i64TryFrom context.payload.length = length
    exact checked_spends .payloadLength (Nat.le_refl _)
  | readUnsigned offset width =>
    intro context budget enough
    refine Spends_step 0 rfl (fun budget _ => ?_) enough
    rw [evaluateInner]
    exact readUnsigned_spends _ _ _ (Nat.le_refl _)
  | readField path =>
    intro context budget enough
    refine Spends_step 0 rfl (fun budget _ => ?_) enough
    rw [evaluateInner]
    exact checked_spends (.field path) (Nat.le_refl _)
  | equal _ _ first second | notEqual _ _ first second =>
    intro context budget enough
    refine Spends_step _ rfl (fun budget enough => ?_) enough
    rw [evaluateInner]
    refine (first context budget (by omega)).bind fun value left _ spent => ?_
    have operand := (second context left (by omega)).later spent
    exact operand.bind fun other rest _ more => .ok rfl more
  | lessThan _ _ first second =>
    intro context budget enough
    refine Spends_step _ rfl (fun budget enough => ?_) enough
    rw [evaluateInner]
    exact evaluateInts_spends first second context enough fun _ _ _ spent => .ok rfl spent
  | bitSet bit _ operand =>
    intro context budget enough
    refine Spends_step _ rfl (fun budget enough => ?_) enough
    rw [evaluateInner]
    split
    · exact .error .bit
    · refine (operand context budget enough).bind fun value left kind spent => ?_
      obtain ⟨number, isInt⟩ := exists_asInt kind
      dsimp only
      rw [isInt]
      exact .ok rfl spent
  | and _ operands =>
    intro context budget enough
    refine Spends_step _ rfl (fun budget enough => ?_) enough
    rw [evaluateInner]
    exact evaluateAnd_spends operands context enough
  | or _ operands =>
    intro context budget enough
    refine Spends_step _ rfl (fun budget enough => ?_) enough
    rw [evaluateInner]
    exact evaluateOr_spends operands context enough
  | not _ operand =>
    intro context budget enough
    refine Spends_step _ rfl (fun budget enough => ?_) enough
    rw [evaluateInner]
    refine (operand context budget enough).bind fun value left kind spent => ?_
    obtain ⟨holds, isBool⟩ := exists_asBool kind
    dsimp only
    rw [isBool]
    exact .ok rfl spent
  | add _ _ first second =>
    intro context budget enough
    refine Spends_step _ rfl (fun budget enough => ?_) enough
    rw [evaluateInner]
    exact evaluateInts_spends first second context enough fun _ _ _ spent =>
      checked_spends .addition spent
  | subtract _ _ first second =>
    intro context budget enough
    refine Spends_step _ rfl (fun budget enough => ?_) enough
    rw [evaluateInner]
    exact evaluateInts_spends first second context enough fun _ _ _ spent =>
      checked_spends .subtraction spent
  | multiply _ _ first second =>
    intro context budget enough
    refine Spends_step _ rfl (fun budget enough => ?_) enough
    rw [evaluateInner]
    exact evaluateInts_spends first second context enough fun _ _ _ spent =>
      checked_spends .multiplication spent
  | divide _ _ first second =>
    intro context budget enough
    refine Spends_step _ rfl (fun budget enough => ?_) enough
    rw [evaluateInner]
    exact evaluateInts_spends first second context enough fun _ _ _ spent =>
      checked_spends .division spent
  | bitCount _ operand =>
    intro context budget enough
    refine Spends_step _ rfl (fun budget enough => ?_) enough
    rw [evaluateInner]
    refine (operand context budget enough).bind fun value left kind spent => ?_
    obtain ⟨number, isInt⟩ := exists_asInt kind
    dsimp only
    rw [isInt]
    exact .ok rfl spent
  | integerLookup cases default _ operand =>
    intro context budget enough
    refine Spends_step _ rfl (fun budget enough => ?_) enough
    rw [evaluateInner]
    refine (operand context budget (by omega)).bind fun value left kind spent => ?_
    obtain ⟨number, isInt⟩ := exists_asInt kind
    dsimp only
    rw [isInt, ok_bind]
    exact (lookupCase_spends number default cases (by omega)).later spent
  | select _ _ _ condition ifTrue ifFalse =>
    intro context budget enough
    refine Spends_step _ rfl (fun budget enough => ?_) enough
    rw [evaluateInner]
    refine (condition context budget (by omega)).bind fun value left kind spent => ?_
    obtain ⟨holds, isBool⟩ := exists_asBool kind
    dsimp only
    rw [isBool, ok_bind]
    cases holds with
    | true =>
      have branch := (ifTrue context left (by omega)).later spent
      exact branch.mono (by omega)
    | false =>
      have branch := (ifFalse context left (by omega)).later spent
      exact branch.mono (by omega)

/-- Resolved operands have their kind and cost what they did. -/
theorem resolveAllReads_keeps {resolve : UInt32 → UInt8 → Option Int64} {values : List Expression}
    (each : ∀ value ∈ values, (resolveReads resolve value).HasKind .bool ∧
      (resolveReads resolve value).operations = value.operations) :
    (∀ value ∈ resolveAllReads resolve values, value.HasKind .bool) ∧
      allOperations (resolveAllReads resolve values) = allOperations values := by
  induction values with
  | nil => exact ⟨nofun, rfl⟩
  | cons value values rest =>
    obtain ⟨typed, same⟩ := each value List.mem_cons_self
    obtain ⟨others, cost⟩ := rest fun other among => each other (List.mem_cons_of_mem _ among)
    rw [resolveAllReads, allOperations, allOperations, same, cost]
    exact ⟨List.forall_mem_cons.mpr ⟨typed, others⟩, rfl⟩

/-- An expression keeps its kind and its operations when reads are resolved. -/
theorem HasKind.resolveReads {expression : Expression} {kind : ValueKind}
    (typed : expression.HasKind kind) (resolve : UInt32 → UInt8 → Option Int64) :
    (resolveReads resolve expression).HasKind kind ∧
      (Bethkit.resolveReads resolve expression).operations = expression.operations := by
  induction typed with
  | bool value => exact ⟨.bool value, rfl⟩
  | int value => exact ⟨.int value, rfl⟩
  | payloadLength => exact ⟨.payloadLength, rfl⟩
  | formVersion => exact ⟨.formVersion, rfl⟩
  | readField path => exact ⟨.readField path, rfl⟩
  | recordSignature signature => exact ⟨.recordSignature signature, rfl⟩
  | readUnsigned offset width =>
    rw [Bethkit.resolveReads]
    cases resolve offset width with
    | none => exact ⟨.readUnsigned offset width, rfl⟩
    | some value => exact ⟨.int value, rfl⟩
  | equal _ _ first second =>
    rw [Bethkit.resolveReads, operations, operations, first.2, second.2]
    exact ⟨.equal first.1 second.1, rfl⟩
  | notEqual _ _ first second =>
    rw [Bethkit.resolveReads, operations, operations, first.2, second.2]
    exact ⟨.notEqual first.1 second.1, rfl⟩
  | lessThan _ _ first second =>
    rw [Bethkit.resolveReads, operations, operations, first.2, second.2]
    exact ⟨.lessThan first.1 second.1, rfl⟩
  | add _ _ first second =>
    rw [Bethkit.resolveReads, operations, operations, first.2, second.2]
    exact ⟨.add first.1 second.1, rfl⟩
  | subtract _ _ first second =>
    rw [Bethkit.resolveReads, operations, operations, first.2, second.2]
    exact ⟨.subtract first.1 second.1, rfl⟩
  | multiply _ _ first second =>
    rw [Bethkit.resolveReads, operations, operations, first.2, second.2]
    exact ⟨.multiply first.1 second.1, rfl⟩
  | divide _ _ first second =>
    rw [Bethkit.resolveReads, operations, operations, first.2, second.2]
    exact ⟨.divide first.1 second.1, rfl⟩
  | bitSet bit _ operand =>
    rw [Bethkit.resolveReads, operations, operations, operand.2]
    exact ⟨.bitSet bit operand.1, rfl⟩
  | not _ operand =>
    rw [Bethkit.resolveReads, operations, operations, operand.2]
    exact ⟨.not operand.1, rfl⟩
  | bitCount _ operand =>
    rw [Bethkit.resolveReads, operations, operations, operand.2]
    exact ⟨.bitCount operand.1, rfl⟩
  | integerLookup cases default _ operand =>
    rw [Bethkit.resolveReads, operations, operations, operand.2]
    exact ⟨.integerLookup cases default operand.1, rfl⟩
  | and _ operands =>
    obtain ⟨typed, cost⟩ := resolveAllReads_keeps operands
    rw [Bethkit.resolveReads, operations, operations, cost]
    exact ⟨.and typed, rfl⟩
  | or _ operands =>
    obtain ⟨typed, cost⟩ := resolveAllReads_keeps operands
    rw [Bethkit.resolveReads, operations, operations, cost]
    exact ⟨.or typed, rfl⟩
  | select _ _ _ condition ifTrue ifFalse =>
    rw [Bethkit.resolveReads, operations, operations, condition.2, ifTrue.2, ifFalse.2]
    exact ⟨.select condition.1 ifTrue.1 ifFalse.1, rfl⟩

/-- A small expression that has a kind yields it on the fixed budget. -/
theorem HasKind.yieldsKind {expression : Expression} {kind : ValueKind}
    (typed : expression.HasKind kind) (small : expression.operations ≤ operationBudget)
    (context : EvalContext) : expression.YieldsKind kind context := by
  have spends := typed.sound context operationBudget small
  unfold YieldsKind evaluate
  cases done : evaluateInner context expression operationBudget with
  | error error =>
    rw [done] at spends
    exact .inr ⟨error, rfl, spends⟩
  | ok pair =>
    rw [done] at spends
    exact .inl ⟨pair.1, rfl, spends.1⟩

end Expression

/-- The editor's form of an expression keeps its kind and its operations. -/
theorem RecordEditor.unionExpression_keeps {expression : Expression} {kind : ValueKind}
    (typed : expression.HasKind kind) (editor : RecordEditor) (node : SchemaNode)
    (encodedSize : Nat) (values : FieldValues) :
    (editor.unionExpression node expression encodedSize values).HasKind kind ∧
      (editor.unionExpression node expression encodedSize values).operations =
        expression.operations := by
  unfold unionExpression
  split
  · exact ⟨typed, rfl⟩
  · split
    · exact ⟨typed, rfl⟩
    · split
      · split
        · exact ⟨typed, rfl⟩
        · exact typed.resolveReads _
      · exact ⟨typed, rfl⟩

/-- The expression of a condition or selector, as the decoder and the grammar evaluate it. -/
theorem Expression.HasKind.evaluateExpression {expression : Expression} {kind : ValueKind}
    (typed : expression.HasKind kind) (small : expression.operations ≤ operationBudget)
    (context : EvalContext) :
    (∃ value, evaluateExpression expression context = .ok value ∧ value.kind = kind) ∨
      ∃ error, Bethkit.evaluateExpression expression context = .error error ∧ DataError error := by
  rcases typed.yieldsKind small context with ⟨value, done, kind⟩ | ⟨error, failed, fault⟩
  · exact .inl ⟨value, mapError_eq_ok.mpr done, kind⟩
  · exact .inr ⟨.schema error, mapError_eq_error.mpr ⟨error, failed, rfl⟩, fault⟩

/-- A result of the kind of integers. -/
theorem EvalValue.exists_int {value : EvalValue} (kind : value.kind = .int) :
    ∃ number, value = .int number := by
  cases value with
  | bool holds => contradiction
  | int number => exact ⟨number, rfl⟩

/-- A result of the kind of booleans. -/
theorem EvalValue.exists_bool {value : EvalValue} (kind : value.kind = .bool) :
    ∃ holds, value = .bool holds := by
  cases value with
  | bool holds => exact ⟨holds, rfl⟩
  | int number => contradiction

section Uses

variable {node : SchemaNode} {expression : Expression} {error : SemanticError}

/-- A number that is checked not to be negative. -/
theorem negative_error {number : Int64} {negative : SemanticError} {α : Type} {value : α}
    (failed : (if number.toInt < 0 then .error negative else .ok value : Except SemanticError α) =
      .error error) : error = negative := by
  split at failed
  · exact (Except.error.inj failed).symm
  · contradiction

/-- A condition fails in the decoder because of the data. -/
theorem Semantic.RecordView.nodeApplies_error {view : Semantic.RecordView} {payload : Bytes}
    {values : FieldValues} (wellKinded : node.WellKinded)
    (failed : view.nodeApplies node payload values = .error error) : DataError error := by
  rw [nodeApplies.eq_def] at failed
  cases conditional : node.condition with
  | none =>
    rw [conditional] at failed
    contradiction
  | some condition =>
    rw [conditional] at failed
    obtain ⟨typed, small⟩ := wellKinded condition .bool (.condition conditional)
    have outcome := typed.evaluateExpression small ⟨payload, values,
      view.record.header.formVersion, view.record.header.signature⟩
    dsimp only [evaluate] at failed
    rcases outcome with ⟨value, done, kind⟩ | ⟨fault, faulty, dataError⟩
    · obtain ⟨holds, rfl⟩ := EvalValue.exists_bool kind
      rw [done] at failed
      contradiction
    · rw [faulty] at failed
      exact Except.error.inj failed ▸ dataError

/-- A condition fails in the grammar because of the data. -/
theorem conditionApplies_error {input : GrammarInput} {state : MatchState}
    (wellKinded : node.WellKinded) (failed : conditionApplies input node state = .error error) :
    DataError error := by
  rw [conditionApplies.eq_def] at failed
  cases conditional : node.condition with
  | none =>
    rw [conditional] at failed
    contradiction
  | some condition =>
    rw [conditional] at failed
    obtain ⟨typed, small⟩ := wellKinded condition .bool (.condition conditional)
    have outcome := typed.evaluateExpression small ⟨input.payloadAt state.cursor, ∅,
      input.formVersion, input.recordSignature⟩
    dsimp only at failed
    rcases outcome with ⟨value, done, kind⟩ | ⟨fault, faulty, dataError⟩
    · obtain ⟨holds, rfl⟩ := EvalValue.exists_bool kind
      rw [done] at failed
      contradiction
    · rw [faulty] at failed
      exact Except.error.inj failed ▸ dataError

/-- The selector of a union fails in the decoder because of the data, or yields no index. -/
theorem Semantic.RecordView.selectUnionIndex_error {view : Semantic.RecordView}
    {payload current : Bytes} {values : FieldValues} {frame : DecodeFrame}
    (wellKinded : node.WellKinded) (used : node.Uses expression .int)
    (failed : view.selectUnionIndex node (.expression expression) payload current values frame =
      .error error) :
    DataError error ∨ error = .decode node.path "union selector returned a negative index" := by
  obtain ⟨typed, small⟩ := wellKinded expression .int used
  have outcome := typed.evaluateExpression small ⟨current, values,
    view.record.header.formVersion, view.record.header.signature⟩
  rw [selectUnionIndex] at failed
  dsimp only [evaluate] at failed
  rcases outcome with ⟨value, done, kind⟩ | ⟨fault, faulty, dataError⟩
  · obtain ⟨number, rfl⟩ := EvalValue.exists_int kind
    rw [done] at failed
    exact .inr (negative_error failed)
  · rw [faulty] at failed
    exact .inl (Except.error.inj failed ▸ dataError)

/-- The element count of an array fails because of the data, or is negative. -/
theorem Semantic.RecordView.resolveArrayCount_error {view : Semantic.RecordView}
    {payload : Bytes} {values : FieldValues} {frame : DecodeFrame}
    (wellKinded : node.WellKinded) (used : node.Uses expression .int)
    (failed : view.resolveArrayCount node (.expression expression) payload values frame =
      .error error) :
    DataError error ∨ error = .decode node.path "array count returned a negative value" := by
  obtain ⟨typed, small⟩ := wellKinded expression .int used
  have outcome := typed.evaluateExpression small ⟨payload, values,
    view.record.header.formVersion, view.record.header.signature⟩
  rw [resolveArrayCount] at failed
  dsimp only [evaluate] at failed
  rcases outcome with ⟨value, done, kind⟩ | ⟨fault, faulty, dataError⟩
  · obtain ⟨number, rfl⟩ := EvalValue.exists_int kind
    rw [done] at failed
    exact .inr (negative_error failed)
  · rw [faulty] at failed
    exact .inl (Except.error.inj failed ▸ dataError)

/-- The selector of an ordered choice fails because of the data, or yields no index. -/
theorem selectAlternativeIndex_error {input : GrammarInput} {state : MatchState}
    (wellKinded : node.WellKinded) (used : node.Uses expression .int)
    (failed : selectAlternativeIndex input node (.expression expression) state = .error error) :
    assignedNumericFields input state = .error error ∨ DataError error ∨ ∃ index : Int,
      error = .decode node.path s!"ordered choice selected negative alternative {index}" := by
  obtain ⟨typed, small⟩ := wellKinded expression .int used
  rw [selectAlternativeIndex] at failed
  rcases bind_eq_error.mp failed with unread | ⟨values, _, failed⟩
  · exact .inl unread
  have outcome := typed.evaluateExpression small ⟨input.payloadAt state.cursor, values,
    input.formVersion, input.recordSignature⟩
  dsimp only at failed
  rcases outcome with ⟨value, done, kind⟩ | ⟨fault, faulty, dataError⟩
  · obtain ⟨number, rfl⟩ := EvalValue.exists_int kind
    rw [done] at failed
    exact .inr (.inr ⟨number.toInt, negative_error failed⟩)
  · rw [faulty] at failed
    exact .inr (.inl (Except.error.inj failed ▸ dataError))

/-- The selector of a union yields a number for a value that is written, or the data is at fault. -/
theorem RecordEditor.unionSelection_cases {encoded : Bytes} {context : NestedValueContext}
    {valueScope : Option FieldValue} (editor : RecordEditor) (wellKinded : node.WellKinded)
    (used : node.Uses expression .int) :
    (∃ selected, editor.unionSelection node (.expression expression) encoded context valueScope =
      .ok (.ok selected)) ∨
    ∃ fault, editor.unionSelection node (.expression expression) encoded context valueScope =
      .ok (.error fault.display) ∧ DataFault fault := by
  obtain ⟨typed, small⟩ := wellKinded expression .int used
  obtain ⟨typed, same⟩ := editor.unionExpression_keeps typed node encoded.length context.fieldValues
  have outcome := typed.yieldsKind (same.trans_le small) ⟨encoded, context.fieldValues,
    editor.record.formVersion, editor.record.signature⟩
  rw [unionSelection]
  rcases outcome with ⟨value, done, kind⟩ | ⟨fault, faulty, dataFault⟩
  · obtain ⟨number, rfl⟩ := EvalValue.exists_int kind
    rw [operationBudget] at done
    rw [done]
    exact .inl ⟨number, rfl⟩
  · rw [operationBudget] at faulty
    rw [faulty]
    exact .inr ⟨fault, rfl, dataFault⟩

/-- The selector of a union fails for a default value because of the data, or yields no index. -/
theorem RecordEditor.selectDefaultUnionVariant_error {context : NestedValueContext}
    {variants : List SchemaNode} {editor : RecordEditor} (wellKinded : node.WellKinded)
    (used : node.Uses expression .int)
    (failed : editor.selectDefaultUnionVariant context node (.expression expression) variants =
      .error error) :
    (∃ fault, DataFault fault ∧ error =
      encodeError node.path s!"default union selector failed: {fault.display}") ∨
    error = encodeError node.path "default union selector returned a negative" ∨
    error = encodeError node.path "default union selector is out of range" := by
  obtain ⟨typed, small⟩ := wellKinded expression .int used
  obtain ⟨typed, same⟩ := editor.unionExpression_keeps typed node 0 context.fieldValues
  have outcome := typed.yieldsKind (same.trans_le small) ⟨[], context.fieldValues,
    context.sourceRecord.formVersion, context.sourceRecord.signature⟩
  rw [selectDefaultUnionVariant] at failed
  dsimp only at failed
  rcases outcome with ⟨value, done, kind⟩ | ⟨fault, faulty, dataFault⟩
  · obtain ⟨number, rfl⟩ := EvalValue.exists_int kind
    rw [operationBudget] at done
    rw [done] at failed
    dsimp only at failed
    rw [ok_bind] at failed
    split at failed
    · exact .inr (.inl (Except.error.inj failed).symm)
    · split at failed
      · exact .inr (.inr (Except.error.inj failed).symm)
      · contradiction
  · rw [operationBudget] at faulty
    rw [faulty] at failed
    exact .inl ⟨fault, dataFault, (Except.error.inj failed).symm⟩

end Uses

/-- Where all expressions of a node have the kinds that their uses ask for and fit the budget, they fail
because of the data alone. -/
theorem SchemaNode.WellKinded.evaluates {node : SchemaNode} (wellKinded : node.WellKinded) :
    node.Evaluates where
  decoding _ _ _ _ failed := Semantic.RecordView.nodeApplies_error wellKinded failed
  matching _ _ _ failed := conditionApplies_error wellKinded failed
  selecting _ _ _ _ _ _ _ used failed :=
    Semantic.RecordView.selectUnionIndex_error wellKinded used failed
  counting _ _ _ _ _ _ used failed :=
    Semantic.RecordView.resolveArrayCount_error wellKinded used failed
  choosing _ _ _ _ used failed := selectAlternativeIndex_error wellKinded used failed
  encoding editor _ _ _ _ used := editor.unionSelection_cases wellKinded used
  defaulting _ _ _ _ _ used failed :=
    RecordEditor.selectDefaultUnionVariant_error wellKinded used failed

/-- A subrecord with a condition. -/
def conditionalSubrecord (id : UInt32) (path : String) (signature : Signature)
    (condition : Expression) : SchemaNode :=
  .subrecord { NodeInfo.plain id path with condition := some condition } signature
    (.primitive (.plain (id + 100) (path ++ "/payload")) (.bytes none))

/-- A subrecord that older records lack. -/
def laterSubrecord : SchemaNode :=
  conditionalSubrecord 2 "DATA" .DATA (.not (.lessThan .formVersion (.int 44)))

/-- The condition of the subrecord is reliable. -/
theorem evaluates_laterSubrecord : laterSubrecord.Evaluates := by
  refine SchemaNode.WellKinded.evaluates fun expression kind used => ?_
  cases used with
  | condition given =>
    obtain rfl := Option.some.inj given
    exact ⟨.not (.lessThan .formVersion (.int 44)), by decide⟩

/-- A conjunction of conjunctions, as deep as given. -/
def nestedConjunction : Nat → Expression
  | 0 => .bool true
  | depth + 1 => .and [nestedConjunction depth, nestedConjunction depth]

/-- A nested conjunction is true, or exhausts the budget. -/
theorem evaluateInner_nestedConjunction (context : EvalContext) (depth : Nat) (budget : Nat) :
    (nestedConjunction depth).evaluateInner context budget =
      if 2 ^ (depth + 1) ≤ budget + 1 then .ok (.bool true, budget + 1 - 2 ^ (depth + 1))
      else .error (.expression "operation budget exhausted") := by
  induction depth generalizing budget with
  | zero =>
    cases budget with
    | zero => rfl
    | succ budget =>
      rw [nestedConjunction, Expression.evaluateInner, if_pos (by omega)]
      rfl
  | succ depth rest =>
    have twice : 2 ^ (depth + 1 + 1) = 2 * 2 ^ (depth + 1) := by rw [Nat.pow_succ, Nat.mul_comm]
    have positive := Nat.two_pow_pos (depth + 1)
    rw [twice]
    cases budget with
    | zero =>
      rw [if_neg (by omega)]
      rfl
    | succ budget =>
      rw [nestedConjunction, Expression.evaluateInner, Expression.evaluateAnd, rest]
      by_cases first : 2 ^ (depth + 1) ≤ budget + 1
      · rw [if_pos first, ok_bind]
        show Expression.evaluateAnd context [nestedConjunction depth] _ = _
        rw [Expression.evaluateAnd, rest]
        by_cases second : 2 ^ (depth + 1) ≤ budget + 1 - 2 ^ (depth + 1) + 1
        · rw [if_pos second, if_pos (by omega)]
          refine congrArg (fun left => Except.ok (EvalValue.bool true, left)) ?_
          omega
        · rw [if_neg second, if_neg (by omega)]
          rfl
      · rw [if_neg first, if_neg (by omega)]
        rfl

/-- A package with a number for a condition, and with a condition that is too long. -/
def unreliablePayload : PackagePayload where
  manifest := {
    formatVersion := 3
    game := .skyrimSe
    validationStatus := .candidate
    byteCoverage := 0.0
    callbacksTotal := 0
    callbacksClassified := 0
    requiredDecoders := []
    requiredHandlers := [] }
  records := [⟨.HEDR, "sample", .sequence (.plain 1 "root")
    [conditionalSubrecord 2 "DATA" .DATA (.int 0),
      conditionalSubrecord 3 "EDID" .EDID (nestedConjunction 10)]⟩]
  callbackBindings := []
  conditionFunctionTable := none

/-- A header without payload. -/
def emptyPackage : Bytes :=
  packageMagic ++ [3, 0, 0, 0] ++ List.replicate 8 0 ++ List.replicate 32 0

/-- A loaded package holds the records of its payload. -/
theorem SchemaPackage.records_of_fromBytes {sha256 : Bytes → Fixed 32}
    {fromCbor : Bytes → Except String PackagePayload} {bytes : Bytes} {package : SchemaPackage}
    (loaded : fromBytes sha256 fromCbor bytes = .ok package) :
    ∃ payload, fromCbor (bytes.drop packageHeaderLength) = .ok payload ∧
      package.records = payload.records := by
  unfold fromBytes fromBytesWithLimits at loaded
  split at loaded
  · contradiction
  split at loaded
  · contradiction
  dsimp only at loaded
  split at loaded
  · contradiction
  split at loaded
  · contradiction
  split at loaded
  · contradiction
  split at loaded
  · contradiction
  · rename_i payload decoded
    obtain ⟨_, _, loaded⟩ := bind_eq_ok.mp loaded
    exact ⟨payload, decoded, Except.ok.inj loaded ▸ rfl⟩

/-- A package with a number for a condition and one that is too long is loaded. -/
theorem exists_unreliable : ∃ package, SchemaPackage.fromBytes Sha256.constant
    (fun _ => .ok unreliablePayload) emptyPackage = .ok package ∧
    ∃ root, package.records.map (·.root) = [root] ∧
      (∀ context, ∃ node ∈ root.children, node.Uses (.int 0) .bool ∧
        (Expression.int 0).evaluate context operationBudget = .ok (.int 0)) ∧
      (∀ context, ∃ node ∈ root.children, node.Uses (nestedConjunction 10) .bool ∧
        (nestedConjunction 10).evaluate context operationBudget =
          .error (.expression "operation budget exhausted")) := by
  have loads : (SchemaPackage.fromBytes Sha256.constant (fun _ => .ok unreliablePayload)
      emptyPackage).toOption.isSome = true := by decide +kernel
  obtain ⟨package, loaded⟩ := Option.isSome_iff_exists.mp loads
  have loaded : SchemaPackage.fromBytes Sha256.constant (fun _ => .ok unreliablePayload)
      emptyPackage = .ok package := eq_ok_of_toOption loaded
  obtain ⟨payload, decoded, records⟩ := SchemaPackage.records_of_fromBytes loaded
  obtain rfl : unreliablePayload = payload := Except.ok.inj decoded
  refine ⟨package, loaded, _, congrArg (List.map (·.root)) records, fun context => ?_,
    fun context => ?_⟩
  · exact ⟨_, List.mem_cons_self, .condition rfl, rfl⟩
  · refine ⟨_, List.mem_cons_of_mem _ List.mem_cons_self, .condition rfl, ?_⟩
    rw [Expression.evaluate, evaluateInner_nestedConjunction]
    rfl

end Bethkit
