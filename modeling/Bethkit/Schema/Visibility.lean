import Bethkit.Schema.Model

/-!
# Fields that an expression may read

Package validation walks the schema once and carries the paths that are visible at each node:
those of earlier siblings, of all siblings in an unordered group, of no field from outside a
repeat or a subrecord. An expression that reads any other path is rejected.
-/

namespace Bethkit

open Lib

/-- `validate_string`. -/
def validateString (maximumStringBytes : Nat) (value : String) : Except SchemaError Unit :=
  if maximumStringBytes < value.utf8ByteSize then
    .error (.limitExceeded s!"string is {value.utf8ByteSize} bytes, limit is {maximumStringBytes}")
  else .ok ()

namespace Expression

mutual

/-- Check that an expression reads visible fields only and that its tables are sorted. -/
def validateFields (visible : List String) (expressionPath : String) (maximumStringBytes : Nat) :
    Expression → Except SchemaError Unit
  | .readField path => do
    validateString maximumStringBytes path
    if visible.contains path then .ok ()
    else .error (.invalidGraph
      s!"field expression at {expressionPath} references unavailable or later field {path}")
  | .equal left right | .notEqual left right | .lessThan left right | .add left right
  | .subtract left right | .multiply left right | .divide left right => do
    validateFields visible expressionPath maximumStringBytes left
    validateFields visible expressionPath maximumStringBytes right
  | .bitSet value _ | .not value | .bitCount value =>
    validateFields visible expressionPath maximumStringBytes value
  | .integerLookup value cases _ => do
    validateFields visible expressionPath maximumStringBytes value
    if (cases.zip cases.tail).any fun (first, second) => second.input ≤ first.input then
      .error (.invalidGraph
        s!"integer lookup at {expressionPath} must have strictly increasing inputs")
    else .ok ()
  | .and values | .or values => validateAllFields visible expressionPath maximumStringBytes values
  | .select condition ifTrue ifFalse => do
    validateFields visible expressionPath maximumStringBytes condition
    validateFields visible expressionPath maximumStringBytes ifTrue
    validateFields visible expressionPath maximumStringBytes ifFalse
  | .bool _ | .int _ | .payloadLength | .formVersion | .readUnsigned _ _
  | .recordSignature _ => .ok ()

/-- Check the operands of a conjunction or disjunction. -/
def validateAllFields (visible : List String) (expressionPath : String)
    (maximumStringBytes : Nat) : List Expression → Except SchemaError Unit
  | [] => .ok ()
  | value :: values => do
    validateFields visible expressionPath maximumStringBytes value
    validateAllFields visible expressionPath maximumStringBytes values

end

mutual

/-- The field paths that an expression mentions. -/
def fieldPaths : Expression → List String
  | .readField path => [path]
  | .equal left right | .notEqual left right | .lessThan left right | .add left right
  | .subtract left right | .multiply left right | .divide left right =>
    fieldPaths left ++ fieldPaths right
  | .bitSet value _ | .not value | .bitCount value | .integerLookup value _ _ => fieldPaths value
  | .and values | .or values => allFieldPaths values
  | .select condition ifTrue ifFalse =>
    fieldPaths condition ++ (fieldPaths ifTrue ++ fieldPaths ifFalse)
  | .bool _ | .int _ | .payloadLength | .formVersion | .readUnsigned _ _
  | .recordSignature _ => []

/-- The field paths that a list of expressions mentions. -/
def allFieldPaths : List Expression → List String
  | [] => []
  | value :: values => fieldPaths value ++ allFieldPaths values

end

end Expression

namespace SchemaNode

mutual

/-- The paths of a tree. -/
def fieldPaths : SchemaNode → List String
  | node@(sequence _ children) | node@(unordered _ children) | node@(choice _ children)
  | node@(selectedChoice _ _ children) | node@(struct _ children)
  | node@(optionalStruct _ children _) | node@(union _ _ children) =>
    node.path :: allFieldPaths children
  | node@(«repeat» _ _ _ child) | node@(subrecord _ _ child) | node@(array _ child _)
  | node@(compressed _ _ child) | node@(terminated _ _ child) => node.path :: fieldPaths child
  | node@(primitive _ _) | node@(custom _ _ _) | node@(reference _ _) => [node.path]

/-- The paths of a list of trees. -/
def allFieldPaths : List SchemaNode → List String
  | [] => []
  | child :: children => fieldPaths child ++ allFieldPaths children

end

/-- The expression of a selector. -/
def selectorExpression : UnionSelector → Option Expression
  | .expression expression => some expression
  | .callback _ => none

/-- The expression of an element count. -/
def countExpression : ArrayCount → Option Expression
  | .expression expression => some expression
  | _ => none

/-- Check an optional expression at a path. -/
def validateExpression (visible : List String) (path : String) (maximumStringBytes : Nat)
    (expression : Option Expression) : Except SchemaError Unit :=
  match expression with
  | none => .ok ()
  | some expression => expression.validateFields visible path maximumStringBytes

mutual

/-- Check the expressions of a tree against the paths that are visible at its root. -/
def validateExpressionFieldOrder (maximumStringBytes : Nat) :
    SchemaNode → List String → Except SchemaError Unit
  | sequence info children, visible => do
    validateExpression visible info.path maximumStringBytes info.condition
    validateInOrder maximumStringBytes children visible
  | unordered info children, visible => do
    validateExpression visible info.path maximumStringBytes info.condition
    validateEach maximumStringBytes children (visible ++ allFieldPaths children)
  | choice info alternatives, visible => do
    validateExpression visible info.path maximumStringBytes info.condition
    validateEach maximumStringBytes alternatives visible
  | selectedChoice info selector alternatives, visible => do
    validateExpression visible info.path maximumStringBytes info.condition
    validateExpression visible info.path maximumStringBytes (selectorExpression selector)
    validateEach maximumStringBytes alternatives visible
  | «repeat» info _ _ child, visible | subrecord info _ child, visible => do
    validateExpression visible info.path maximumStringBytes info.condition
    validateExpressionFieldOrder maximumStringBytes child []
  | compressed info _ child, visible | terminated info _ child, visible => do
    validateExpression visible info.path maximumStringBytes info.condition
    validateExpressionFieldOrder maximumStringBytes child visible
  | array info element count, visible => do
    validateExpression visible info.path maximumStringBytes info.condition
    validateExpression visible info.path maximumStringBytes (countExpression count)
    validateExpressionFieldOrder maximumStringBytes element visible
  | struct info fields, visible | optionalStruct info fields _, visible => do
    validateExpression visible info.path maximumStringBytes info.condition
    validateFieldsInOrder maximumStringBytes fields visible
  | union info selector variants, visible => do
    validateExpression visible info.path maximumStringBytes info.condition
    validateExpression visible info.path maximumStringBytes (selectorExpression selector)
    validateEach maximumStringBytes variants visible
  | primitive info _, visible | custom info _ _, visible | reference info _, visible =>
    validateExpression visible info.path maximumStringBytes info.condition

/-- Check the children of a sequence; all paths of a child are visible behind it. -/
def validateInOrder (maximumStringBytes : Nat) :
    List SchemaNode → List String → Except SchemaError Unit
  | [], _ => .ok ()
  | child :: children, visible => do
    validateExpressionFieldOrder maximumStringBytes child visible
    validateInOrder maximumStringBytes children (visible ++ fieldPaths child)

/-- Check the fields of a struct; the path of a field is visible behind it. -/
def validateFieldsInOrder (maximumStringBytes : Nat) :
    List SchemaNode → List String → Except SchemaError Unit
  | [], _ => .ok ()
  | field :: fields, visible => do
    validateExpressionFieldOrder maximumStringBytes field visible
    validateFieldsInOrder maximumStringBytes fields (visible ++ [field.path])

/-- Check nodes with the same visible paths. -/
def validateEach (maximumStringBytes : Nat) :
    List SchemaNode → List String → Except SchemaError Unit
  | [], _ => .ok ()
  | node :: nodes, visible => do
    validateExpressionFieldOrder maximumStringBytes node visible
    validateEach maximumStringBytes nodes visible

end

end SchemaNode

end Bethkit
