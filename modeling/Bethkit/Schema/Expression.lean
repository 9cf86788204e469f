import Bethkit.Core.Types

/-!
# Schema expressions

Bounded, non-Turing-complete expressions decide conditions, union variants and array counts.
Every node visited takes one operation from the budget, and so does every case of an integer
lookup that is tried. A signed 64-bit sum, difference, product or quotient outside the word is an
error, as is a read outside the payload. The budget is passed along and returned with the value.
-/

namespace Bethkit

open Lib

/-- Errors of `bethkit-schema` that the modelled code returns. -/
inductive SchemaError where
  /-- The package exceeds a configured safety limit. -/
  | limitExceeded (message : String)
  /-- The package graph is structurally invalid. -/
  | invalidGraph (message : String)
  /-- An expression is invalid for its current evaluation context. -/
  | expression (message : String)
deriving DecidableEq

/-- `Display` of a schema error. -/
def SchemaError.display : SchemaError → String
  | .limitExceeded message => s!"schema limit exceeded: {message}"
  | .invalidGraph message => s!"invalid schema graph: {message}"
  | .expression message => s!"schema expression failed: {message}"

/-- Integer values by schema path. -/
abbrev FieldValues : Type := Std.TreeMap String Int64

/-- Runtime inputs available to a schema expression. -/
structure EvalContext where
  /-- Raw bytes of the payload currently being evaluated. -/
  payload : Bytes
  /-- Integer values decoded earlier in the same ordered payload grammar. -/
  fieldValues : FieldValues
  /-- Record form version from the plugin record header. -/
  formVersion : UInt16
  /-- Signature of the containing record. -/
  recordSignature : Signature

/-- A typed result produced by a schema expression. -/
inductive EvalValue where
  /-- Boolean condition result. -/
  | bool (value : Bool)
  /-- Signed integer result. -/
  | int (value : Int64)
deriving DecidableEq

namespace EvalValue

/-- The boolean of a result. -/
def asBool : EvalValue → Except SchemaError Bool
  | .bool value => .ok value
  | .int _ => .error (.expression "expected boolean expression result")

/-- The integer of a result. -/
def asInt : EvalValue → Except SchemaError Int64
  | .int value => .ok value
  | .bool _ => .error (.expression "expected integer expression result")

end EvalValue

/-- One deterministic integer lookup entry. -/
structure IntegerLookupCase where
  /-- Input value matched by this entry. -/
  input : Int64
  /-- Output value returned for a matching input. -/
  output : Int64
deriving DecidableEq

/-- Declarative condition expression supported by schema packages. -/
inductive Expression where
  /-- A boolean literal. -/
  | bool (value : Bool)
  /-- A signed integer literal. -/
  | int (value : Int64)
  /-- Length of the current payload in bytes. -/
  | payloadLength
  /-- Form version of the current record. -/
  | formVersion
  /-- Reads an unsigned little-endian integer from the payload. -/
  | readUnsigned (offset : UInt32) (width : UInt8)
  /-- Reads an integer decoded earlier at one stable schema path. -/
  | readField (path : String)
  /-- Tests whether the containing record has a signature. -/
  | recordSignature (signature : Signature)
  /-- Equality comparison. -/
  | equal (left right : Expression)
  /-- Inequality comparison. -/
  | notEqual (left right : Expression)
  /-- Signed less-than comparison. -/
  | lessThan (left right : Expression)
  /-- Tests whether a bit is set in an integer expression. -/
  | bitSet (value : Expression) (bit : UInt8)
  /-- Boolean conjunction, evaluated from left to right. -/
  | and (values : List Expression)
  /-- Boolean disjunction, evaluated from left to right. -/
  | or (values : List Expression)
  /-- Boolean negation. -/
  | not (value : Expression)
  /-- Checked signed addition. -/
  | add (left right : Expression)
  /-- Checked signed subtraction. -/
  | subtract (left right : Expression)
  /-- Checked signed multiplication. -/
  | multiply (left right : Expression)
  /-- Checked signed integer division. -/
  | divide (left right : Expression)
  /-- Number of set bits in the 64-bit representation of an integer. -/
  | bitCount (value : Expression)
  /-- Maps an integer operand through a deterministic lookup table. -/
  | integerLookup (value : Expression) (cases : List IntegerLookupCase) (default : Int64)
  /-- Selects one of two equally typed values from a boolean condition. -/
  | select (condition ifTrue ifFalse : Expression)

/-- `i64::try_from` of an integer. -/
def i64TryFrom (value : Int) : Option Int64 :=
  if -2 ^ 63 ≤ value ∧ value < 2 ^ 63 then some (Int64.ofInt value) else none

/-- `i64::checked_add`. -/
def i64CheckedAdd (left right : Int64) : Option Int64 := i64TryFrom (left.toInt + right.toInt)

/-- `i64::checked_sub`. -/
def i64CheckedSub (left right : Int64) : Option Int64 := i64TryFrom (left.toInt - right.toInt)

/-- `i64::checked_mul`. -/
def i64CheckedMul (left right : Int64) : Option Int64 := i64TryFrom (left.toInt * right.toInt)

/-- `i64::checked_div`: rounds toward zero. -/
def i64CheckedDiv (left right : Int64) : Option Int64 :=
  if right = 0 then none else i64TryFrom (left.toInt.tdiv right.toInt)

/-- `u64::count_ones`. -/
def u64CountOnes (value : UInt64) : Nat :=
  ((List.range 64).filter fun bit => value.toNat.testBit bit).length

/-- An operation result, or an expression error. -/
def Expression.checked (result : Option Int64) (message : String) :
    Except SchemaError EvalValue :=
  match result with
  | some value => .ok (.int value)
  | none => .error (.expression message)

/-- Read an unsigned little-endian integer of 1, 2, 4 or 8 bytes. The word is not larger than
`i64::MAX` or the read is an error. -/
def readUnsigned (payload : Bytes) (offset : UInt32) (width : UInt8) :
    Except SchemaError Int64 :=
  let start := offset.toNat
  let stop := start + width.toNat
  match payload.get start stop with
  | none => .error (.expression
      s!"read range {start}..{stop} exceeds payload length {payload.length}")
  | some bytes =>
    if width = 1 ∨ width = 2 ∨ width = 4 ∨ width = 8 then
      match i64TryFrom (leValue bytes) with
      | some value => .ok value
      | none => .error (.expression "unsigned value cannot be represented as i64")
    else .error (.expression s!"unsupported integer width {width.toNat}")

/-- The table search of an integer lookup; every case tried costs one operation. -/
def lookupCase (key default : Int64) :
    List IntegerLookupCase → Nat → Except SchemaError (EvalValue × Nat)
  | [], remaining => .ok (.int default, remaining)
  | _ :: _, 0 => .error (.expression "operation budget exhausted")
  | entry :: entries, remaining + 1 =>
    if entry.input = key then .ok (.int entry.output, remaining)
    else lookupCase key default entries remaining

namespace Expression

/-- Two integer operands, left first; the budget goes from the left one to the right one. -/
def evaluateInts (left right : Nat → Except SchemaError (EvalValue × Nat)) (remaining : Nat) :
    Except SchemaError (Int64 × Int64 × Nat) := do
  let (leftValue, remaining) ← left remaining
  let leftValue ← leftValue.asInt
  let (rightValue, remaining) ← right remaining
  let rightValue ← rightValue.asInt
  .ok (leftValue, rightValue, remaining)

mutual

/-- Evaluate with a budget of operations; returns the value and what is left of the budget. -/
def evaluateInner (context : EvalContext) :
    Expression → Nat → Except SchemaError (EvalValue × Nat)
  | _, 0 => .error (.expression "operation budget exhausted")
  | .bool value, remaining + 1 => .ok (.bool value, remaining)
  | .int value, remaining + 1 => .ok (.int value, remaining)
  | .payloadLength, remaining + 1 => do
    let length ← checked (i64TryFrom context.payload.length) "payload length exceeds i64"
    .ok (length, remaining)
  | .formVersion, remaining + 1 =>
    .ok (.int (Int64.ofNat context.formVersion.toNat), remaining)
  | .readUnsigned offset width, remaining + 1 => do
    let value ← Bethkit.readUnsigned context.payload offset width
    .ok (.int value, remaining)
  | .readField path, remaining + 1 => do
    let value ← checked (context.fieldValues.get? path)
      s!"field {path} is unavailable at this grammar position"
    .ok (value, remaining)
  | .recordSignature signature, remaining + 1 =>
    .ok (.bool (signature = context.recordSignature), remaining)
  | .equal left right, remaining + 1 => do
    let (leftValue, remaining) ← evaluateInner context left remaining
    let (rightValue, remaining) ← evaluateInner context right remaining
    .ok (.bool (leftValue = rightValue), remaining)
  | .notEqual left right, remaining + 1 => do
    let (leftValue, remaining) ← evaluateInner context left remaining
    let (rightValue, remaining) ← evaluateInner context right remaining
    .ok (.bool (leftValue ≠ rightValue), remaining)
  | .lessThan left right, remaining + 1 => do
    let (leftValue, rightValue, remaining) ← evaluateInts (evaluateInner context left) (evaluateInner context right)
      remaining
    .ok (.bool (leftValue < rightValue), remaining)
  | .bitSet value bit, remaining + 1 =>
    if 64 ≤ bit.toNat then .error (.expression "bit index must be below 64")
    else do
      let (value, remaining) ← evaluateInner context value remaining
      let raw ← value.asInt
      .ok (.bool (raw.toUInt64.toNat.testBit bit.toNat), remaining)
  | .and values, remaining + 1 => evaluateAnd context values remaining
  | .or values, remaining + 1 => evaluateOr context values remaining
  | .not value, remaining + 1 => do
    let (value, remaining) ← evaluateInner context value remaining
    let result ← value.asBool
    .ok (.bool !result, remaining)
  | .add left right, remaining + 1 => do
    let (leftValue, rightValue, remaining) ← evaluateInts (evaluateInner context left) (evaluateInner context right)
      remaining
    let sum ← checked (i64CheckedAdd leftValue rightValue) "signed addition overflowed"
    .ok (sum, remaining)
  | .subtract left right, remaining + 1 => do
    let (leftValue, rightValue, remaining) ← evaluateInts (evaluateInner context left) (evaluateInner context right)
      remaining
    let difference ← checked (i64CheckedSub leftValue rightValue) "signed subtraction overflowed"
    .ok (difference, remaining)
  | .multiply left right, remaining + 1 => do
    let (leftValue, rightValue, remaining) ← evaluateInts (evaluateInner context left) (evaluateInner context right)
      remaining
    let product ← checked (i64CheckedMul leftValue rightValue) "signed multiplication overflowed"
    .ok (product, remaining)
  | .divide left right, remaining + 1 => do
    let (leftValue, rightValue, remaining) ← evaluateInts (evaluateInner context left) (evaluateInner context right)
      remaining
    let quotient ← checked (i64CheckedDiv leftValue rightValue)
      "signed division by zero or overflowed"
    .ok (quotient, remaining)
  | .bitCount value, remaining + 1 => do
    let (value, remaining) ← evaluateInner context value remaining
    let raw ← value.asInt
    .ok (.int (Int64.ofNat (u64CountOnes raw.toUInt64)), remaining)
  | .integerLookup value cases default, remaining + 1 => do
    let (value, remaining) ← evaluateInner context value remaining
    let key ← value.asInt
    lookupCase key default cases remaining
  | .select condition ifTrue ifFalse, remaining + 1 => do
    let (value, remaining) ← evaluateInner context condition remaining
    let holds ← value.asBool
    if holds then evaluateInner context ifTrue remaining
    else evaluateInner context ifFalse remaining

/-- The operands of a conjunction up to the first false one. -/
def evaluateAnd (context : EvalContext) :
    List Expression → Nat → Except SchemaError (EvalValue × Nat)
  | [], remaining => .ok (.bool true, remaining)
  | value :: values, remaining => do
    let (value, remaining) ← evaluateInner context value remaining
    let holds ← value.asBool
    if holds then evaluateAnd context values remaining else .ok (.bool false, remaining)

/-- The operands of a disjunction up to the first true one. -/
def evaluateOr (context : EvalContext) :
    List Expression → Nat → Except SchemaError (EvalValue × Nat)
  | [], remaining => .ok (.bool false, remaining)
  | value :: values, remaining => do
    let (value, remaining) ← evaluateInner context value remaining
    let holds ← value.asBool
    if holds then .ok (.bool true, remaining) else evaluateOr context values remaining

end

/-- Evaluate with a bounded operation budget. -/
def evaluate (expression : Expression) (context : EvalContext) (maxOperations : Nat) :
    Except SchemaError EvalValue :=
  (evaluateInner context expression maxOperations).map Prod.fst

end Expression

end Bethkit
