import Bethkit.Schema.Expression
import Bethkit.Semantic.Nested
import Bethkit.Semantic.View

/-!
# Kinds and costs of expressions

What an expression must be for its use: a boolean for a condition, an integer for a selector or a count,
and small enough for the fixed budget.
-/

namespace Bethkit

open Lib

/-- The kind of a result. -/
inductive ValueKind where
  /-- A boolean. -/
  | bool
  /-- An integer. -/
  | int
deriving DecidableEq

/-- The kind of a result. -/
def EvalValue.kind : EvalValue → ValueKind
  | .bool _ => .bool
  | .int _ => .int

namespace Expression

/-- All operands of an expression have the kinds that it asks for, and its result has a kind. -/
inductive HasKind : Expression → ValueKind → Prop where
  /-- A literal. -/
  | bool (value : Bool) : HasKind (.bool value) .bool
  /-- A literal. -/
  | int (value : Int64) : HasKind (.int value) .int
  /-- The length of the payload. -/
  | payloadLength : HasKind .payloadLength .int
  /-- The form version. -/
  | formVersion : HasKind .formVersion .int
  /-- Bytes of the payload. -/
  | readUnsigned (offset : UInt32) (width : UInt8) : HasKind (.readUnsigned offset width) .int
  /-- A field. -/
  | readField (path : String) : HasKind (.readField path) .int
  /-- A test of the signature. -/
  | recordSignature (signature : Signature) : HasKind (.recordSignature signature) .bool
  /-- A comparison; its operands may have different kinds. -/
  | equal {left right : Expression} {first second : ValueKind} : HasKind left first →
    HasKind right second → HasKind (.equal left right) .bool
  /-- A comparison; its operands may have different kinds. -/
  | notEqual {left right : Expression} {first second : ValueKind} : HasKind left first →
    HasKind right second → HasKind (.notEqual left right) .bool
  /-- A comparison of integers. -/
  | lessThan {left right : Expression} : HasKind left .int → HasKind right .int →
    HasKind (.lessThan left right) .bool
  /-- A bit of an integer. -/
  | bitSet {value : Expression} (bit : UInt8) : HasKind value .int →
    HasKind (.bitSet value bit) .bool
  /-- A conjunction. -/
  | and {values : List Expression} : (∀ value ∈ values, HasKind value .bool) →
    HasKind (.and values) .bool
  /-- A disjunction. -/
  | or {values : List Expression} : (∀ value ∈ values, HasKind value .bool) →
    HasKind (.or values) .bool
  /-- A negation. -/
  | not {value : Expression} : HasKind value .bool → HasKind (.not value) .bool
  /-- A sum. -/
  | add {left right : Expression} : HasKind left .int → HasKind right .int →
    HasKind (.add left right) .int
  /-- A difference. -/
  | subtract {left right : Expression} : HasKind left .int → HasKind right .int →
    HasKind (.subtract left right) .int
  /-- A product. -/
  | multiply {left right : Expression} : HasKind left .int → HasKind right .int →
    HasKind (.multiply left right) .int
  /-- A quotient. -/
  | divide {left right : Expression} : HasKind left .int → HasKind right .int →
    HasKind (.divide left right) .int
  /-- The number of set bits. -/
  | bitCount {value : Expression} : HasKind value .int → HasKind (.bitCount value) .int
  /-- A table. -/
  | integerLookup {value : Expression} (cases : List IntegerLookupCase) (default : Int64) :
    HasKind value .int → HasKind (.integerLookup value cases default) .int
  /-- A choice between two results of one kind. -/
  | select {condition ifTrue ifFalse : Expression} {kind : ValueKind} : HasKind condition .bool →
    HasKind ifTrue kind → HasKind ifFalse kind → HasKind (.select condition ifTrue ifFalse) kind

mutual

/-- The operations that an evaluation takes at most: one for every node that it can visit on one way,
and one for every case of a table. -/
def operations : Expression → Nat
  | .equal left right | .notEqual left right | .lessThan left right | .add left right
  | .subtract left right | .multiply left right | .divide left right =>
    1 + (operations left + operations right)
  | .bitSet value _ | .not value | .bitCount value => 1 + operations value
  | .and values | .or values => 1 + allOperations values
  | .integerLookup value cases _ => 1 + (operations value + cases.length)
  | .select condition ifTrue ifFalse =>
    1 + (operations condition + max (operations ifTrue) (operations ifFalse))
  | .bool _ | .int _ | .payloadLength | .formVersion | .readUnsigned _ _ | .readField _
  | .recordSignature _ => 1

/-- The operations of a list of expressions. -/
def allOperations : List Expression → Nat
  | [] => 0
  | value :: values => operations value + allOperations values

end

end Expression

/-- The faults that the data of a record can cause: missing bytes or fields, numbers that do not fit
and operands out of range. -/
inductive DataFault : SchemaError → Prop where
  /-- A payload that is too long to count. -/
  | payloadLength : DataFault (.expression "payload length exceeds i64")
  /-- A read behind the end of the payload. -/
  | range (start stop length : Nat) : DataFault (.expression
      s!"read range {start}..{stop} exceeds payload length {length}")
  /-- A width that no read has. -/
  | width (width : Nat) : DataFault (.expression s!"unsupported integer width {width}")
  /-- A number that is too large. -/
  | unsigned : DataFault (.expression "unsigned value cannot be represented as i64")
  /-- A field that was not decoded. -/
  | field (path : String) : DataFault (.expression
      s!"field {path} is unavailable at this grammar position")
  /-- A bit behind the word. -/
  | bit : DataFault (.expression "bit index must be below 64")
  /-- A sum that does not fit. -/
  | addition : DataFault (.expression "signed addition overflowed")
  /-- A difference that does not fit. -/
  | subtraction : DataFault (.expression "signed subtraction overflowed")
  /-- A product that does not fit. -/
  | multiplication : DataFault (.expression "signed multiplication overflowed")
  /-- A quotient that does not exist or does not fit. -/
  | division : DataFault (.expression "signed division by zero or overflowed")

/-- The budget of operations that every use has. -/
def operationBudget : Nat := 1024

/-- An evaluation of an expression yields a result of a kind, unless the data is at fault. -/
def Expression.YieldsKind (expression : Expression) (kind : ValueKind) (context : EvalContext) :
    Prop :=
  (∃ value, expression.evaluate context operationBudget = .ok value ∧ value.kind = kind) ∨
    ∃ error, expression.evaluate context operationBudget = .error error ∧ DataFault error

/-- The expressions of a node, with the kinds that their uses ask for. -/
inductive SchemaNode.Uses : SchemaNode → Expression → ValueKind → Prop where
  /-- The condition of a node. -/
  | condition {node : SchemaNode} {expression : Expression} : node.condition = some expression →
    Uses node expression .bool
  /-- The selector of a union. -/
  | union (info : NodeInfo) (expression : Expression) (variants : List SchemaNode) :
    Uses (.union info (.expression expression) variants) expression .int
  /-- The selector of an ordered choice. -/
  | selectedChoice (info : NodeInfo) (expression : Expression) (alternatives : List SchemaNode) :
    Uses (.selectedChoice info (.expression expression) alternatives) expression .int
  /-- The element count of an array. -/
  | array (info : NodeInfo) (element : SchemaNode) (expression : Expression) :
    Uses (.array info element (.expression expression)) expression .int

/-- All expressions of a node have the kinds that their uses ask for and fit the budget. -/
def SchemaNode.WellKinded (node : SchemaNode) : Prop :=
  ∀ expression kind, node.Uses expression kind →
    expression.HasKind kind ∧ expression.operations ≤ operationBudget

/-- An expression that failed because of the data. -/
def DataError : SemanticError → Prop
  | .schema error => DataFault error
  | _ => False

/-- Wherever an expression of a node is evaluated, it fails because of the data alone, or because the
number that it yields is no index. -/
structure SchemaNode.Evaluates (node : SchemaNode) : Prop where
  /-- The condition, for the decoder. -/
  decoding : ∀ (view : Semantic.RecordView) payload values error,
    view.nodeApplies node payload values = .error error → DataError error
  /-- The condition, for the grammar. -/
  matching : ∀ input state error, conditionApplies input node state = .error error →
    DataError error
  /-- The selector of a union, for the decoder. -/
  selecting : ∀ (view : Semantic.RecordView) expression payload current values frame error,
    node.Uses expression .int →
    view.selectUnionIndex node (.expression expression) payload current values frame =
      .error error →
    DataError error ∨ error = .decode node.path "union selector returned a negative index"
  /-- The element count of an array. -/
  counting : ∀ (view : Semantic.RecordView) expression payload values frame error,
    node.Uses expression .int →
    view.resolveArrayCount node (.expression expression) payload values frame = .error error →
    DataError error ∨ error = .decode node.path "array count returned a negative value"
  /-- The selector of an ordered choice. -/
  choosing : ∀ input state expression error, node.Uses expression .int →
    selectAlternativeIndex input node (.expression expression) state = .error error →
    assignedNumericFields input state = .error error ∨ DataError error ∨ ∃ index : Int,
      error = .decode node.path s!"ordered choice selected negative alternative {index}"
  /-- The selector of a union, for a value that is written. -/
  encoding : ∀ (editor : RecordEditor) expression encoded context valueScope,
    node.Uses expression .int →
    (∃ selected, editor.unionSelection node (.expression expression) encoded context valueScope =
      .ok (.ok selected)) ∨
    ∃ fault, editor.unionSelection node (.expression expression) encoded context valueScope =
      .ok (.error fault.display) ∧ DataFault fault
  /-- The selector of a union, for a default value. -/
  defaulting : ∀ (editor : RecordEditor) context expression variants error,
    node.Uses expression .int →
    editor.selectDefaultUnionVariant context node (.expression expression) variants =
      .error error →
    (∃ fault, DataFault fault ∧ error =
      encodeError node.path s!"default union selector failed: {fault.display}") ∨
    error = encodeError node.path "default union selector returned a negative" ∨
    error = encodeError node.path "default union selector is out of range"

/-!
## Budgets of expressions

The number of nodes and lookup cases of an expression, and what its budget decides: whether the
evaluation is exhausted, and nothing else.
-/

/-- The error of an evaluation whose budget is used up. -/
def budgetExhausted : SchemaError := .expression "operation budget exhausted"

namespace Expression

mutual

/-- The nodes of an expression and the cases of its lookups. -/
def size : Expression → Nat
  | .equal left right | .notEqual left right | .lessThan left right | .add left right
  | .subtract left right | .multiply left right | .divide left right => size left + size right + 1
  | .bitSet value _ | .not value | .bitCount value => size value + 1
  | .and values | .or values => sizes values + 1
  | .integerLookup value cases _ => size value + cases.length + 1
  | .select condition ifTrue ifFalse => size condition + (size ifTrue + size ifFalse) + 1
  | .bool _ | .int _ | .payloadLength | .formVersion | .readUnsigned _ _ | .readField _
  | .recordSignature _ => 1

/-- The nodes and cases of a list of expressions. -/
def sizes : List Expression → Nat
  | [] => 0
  | value :: values => size value + sizes values

end

/-- The budget of an evaluation decides only whether it is exhausted. -/
structure BudgetMonotone (expression : Expression) (context : EvalContext) : Prop where
  /-- A value stays under every larger budget. -/
  value : ∀ small large value, small ≤ large → expression.evaluate context small = .ok value →
    expression.evaluate context large = .ok value
  /-- Any other error stays under every larger budget. -/
  error : ∀ small large error, small ≤ large → error ≠ budgetExhausted →
    expression.evaluate context small = .error error →
      expression.evaluate context large = .error error
  /-- The size is a budget that suffices. -/
  enough : ∀ budget, expression.size ≤ budget →
    expression.evaluate context budget ≠ .error budgetExhausted

end Expression

end Bethkit
