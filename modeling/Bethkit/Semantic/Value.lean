import Bethkit.Schema.Registry

/-!
# Decoded values

Values decoded from a payload (`FieldValue`), values accepted by the editor (`OwnedFieldValue`)
and the conversions between them. The borrowed and the owned form of a decoded value of the
source are one type here, so `to_handler_value` and `into_record_value` are the identity. A
floating-point value is Lean's `Float`, the same IEEE double.
-/

namespace Bethkit

open Lib

/-- Errors of `bethkit-semantic` that the modelled code returns. -/
inductive SemanticError where
  /-- The raw plugin layer rejected an operation. -/
  | core (error : CoreError)
  /-- The schema layer rejected an operation. -/
  | schema (error : SchemaError)
  /-- No schema exists for a record signature. -/
  | missingRecordSchema (signature : String)
  /-- A package requires a custom decoder that is not registered. -/
  | missingDecoder (decoder : String)
  /-- A package requires a semantic handler that is not registered. -/
  | missingHandler (handler : String)
  /-- A custom decoder rejected its payload. -/
  | decoder (decoder message : String)
  /-- A semantic callback handler rejected an invocation. -/
  | handler (handler message : String)
  /-- A schema field could not be decoded from its bytes. -/
  | decode (path message : String)
  /-- A requested schema path does not exist. -/
  | missingPath (path : String)
  /-- A requested field occurrence does not exist. -/
  | missingOccurrence (path : String) (occurrence : Nat)
  /-- A value cannot be encoded for its schema type. -/
  | encode (path message : String)
deriving DecidableEq

/-- Half-open byte range inside a subrecord payload. -/
structure ByteSpan where
  /-- First byte included in the value. -/
  start : Nat
  /-- First byte after the value. -/
  stop : Nat
deriving DecidableEq

/-- Provenance of a decoded field. -/
inductive FieldOrigin where
  /-- Field was declared by the loaded schema package. -/
  | schema
  /-- Field is an unknown subrecord preserved by the lossless core. -/
  | unknownSubrecord
  /-- Field has a declared signature but appears outside its grammar position. -/
  | unmatchedKnownSubrecord
  /-- Field was decoded by a registered custom decoder. -/
  | customDecoder
deriving DecidableEq

mutual

/-- A decoded value. -/
inductive FieldValue where
  /-- Signed integer. -/
  | int (value : Int64)
  /-- Unsigned integer. -/
  | uint (value : UInt64)
  /-- Floating-point value. -/
  | float (value : Float)
  /-- UTF-8 string. -/
  | string (value : String)
  /-- Raw file-local FormID and allowed target signatures. -/
  | formId (value : FormId) (targets : List Signature)
  /-- Enumeration value and optional name. -/
  | enumeration (value : Int64) (name : Option String)
  /-- Raw flags value and active names. -/
  | flags (value : UInt64) (active : List String)
  /-- Raw bytes. -/
  | bytes (value : Bytes)
  /-- Packed struct fields. -/
  | struct (values : List NamedValue)
  /-- Homogeneous array values. -/
  | array (values : List FieldValue)
  /-- Node was excluded by its condition. -/
  | absent

/-- A named nested value: node identifier, path, effective path of a dynamic union, name, span
inside the containing payload and value. -/
inductive NamedValue where
  /-- The six fields in order. -/
  | mk (nodeId : SchemaNodeId) (path : String) (effectivePath : Option String) (name : String)
    (span : ByteSpan) (value : FieldValue)

end

/-- A floating-point value that is infinite or not a number. -/
def FieldValue.isNonFinite : FieldValue → Bool
  | .float value => !value.isFinite
  | _ => false

namespace NamedValue

/-- Stable schema node identifier. -/
def nodeId : NamedValue → SchemaNodeId
  | mk nodeId _ _ _ _ _ => nodeId

/-- Stable schema path. -/
def path : NamedValue → String
  | mk _ path _ _ _ _ => path

/-- Decoded value. -/
def value : NamedValue → FieldValue
  | mk _ _ _ _ _ value => value

end NamedValue

/-- Owned value accepted by the editor. -/
inductive OwnedFieldValue where
  /-- Signed integer. -/
  | int (value : Int64)
  /-- Unsigned integer. -/
  | uint (value : UInt64)
  /-- Floating-point value. -/
  | float (value : Float)
  /-- UTF-8 string. -/
  | string (value : String)
  /-- File-local FormID. -/
  | formId (value : FormId)
  /-- Raw bytes. -/
  | bytes (value : Bytes)
  /-- Packed struct values in declaration order. -/
  | struct (values : List OwnedFieldValue)
  /-- Homogeneous array values. -/
  | array (values : List OwnedFieldValue)
  /-- Struct field omitted from an optional trailing suffix. -/
  | absent

/-- The struct field is omitted. -/
def OwnedFieldValue.isAbsent : OwnedFieldValue → Bool
  | .absent => true
  | _ => false

mutual

/-- `PartialEq` of owned values; floating-point values are compared as numbers. -/
def OwnedFieldValue.beq : OwnedFieldValue → OwnedFieldValue → Bool
  | .int left, .int right => left = right
  | .uint left, .uint right => left = right
  | .float left, .float right => left == right
  | .string left, .string right => left = right
  | .formId left, .formId right => left = right
  | .bytes left, .bytes right => left = right
  | .struct left, .struct right => OwnedFieldValue.beqAll left right
  | .array left, .array right => OwnedFieldValue.beqAll left right
  | .absent, .absent => true
  | _, _ => false

/-- `PartialEq` of lists of owned values. -/
def OwnedFieldValue.beqAll : List OwnedFieldValue → List OwnedFieldValue → Bool
  | [], [] => true
  | left :: lefts, right :: rights => left.beq right && OwnedFieldValue.beqAll lefts rights
  | _, _ => false

end

mutual

/-- The editable value of a decoded one; names, targets and spans are dropped. -/
def handlerToOwnedValue : FieldValue → OwnedFieldValue
  | .int value => .int value
  | .uint value => .uint value
  | .float value => .float value
  | .string value => .string value
  | .formId value _ => .formId value
  | .enumeration value _ => .int value
  | .flags value _ => .uint value
  | .bytes value => .bytes value
  | .array values => .array (handlerToOwnedValues values)
  | .struct values => .struct (handlerToOwnedFields values)
  | .absent => .absent

/-- The editable values of array elements. -/
def handlerToOwnedValues : List FieldValue → List OwnedFieldValue
  | [] => []
  | value :: values => handlerToOwnedValue value :: handlerToOwnedValues values

/-- The editable values of struct fields. -/
def handlerToOwnedFields : List NamedValue → List OwnedFieldValue
  | [] => []
  | .mk _ _ _ _ _ value :: values => handlerToOwnedValue value :: handlerToOwnedFields values

end

mutual

/-- A leaf value in handler form; a struct without a schema becomes an array. -/
def ownedLeafToHandlerValue : OwnedFieldValue → FieldValue
  | .int value => .int value
  | .uint value => .uint value
  | .float value => .float value
  | .string value => .string value
  | .formId value => .formId value []
  | .bytes value => .bytes value
  | .struct values => .array (ownedLeavesToHandlerValues values)
  | .array values => .array (ownedLeavesToHandlerValues values)
  | .absent => .absent

/-- Leaf values in handler form. -/
def ownedLeavesToHandlerValues : List OwnedFieldValue → List FieldValue
  | [] => []
  | value :: values => ownedLeafToHandlerValue value :: ownedLeavesToHandlerValues values

end

/-- The integer of a decoded integer, flag set or enumeration; an `i128` in the source. -/
def integerHandlerValue : FieldValue → Option Int
  | .int value => some value.toInt
  | .uint value => some value.toNat
  | .flags value _ => some value.toNat
  | .enumeration value _ => some value.toInt
  | _ => none

/-- `left == right` on the integers of two decoded values, or nothing. -/
def integerValuesEqual (left right : FieldValue) : Option Bool :=
  match integerHandlerValue left, integerHandlerValue right with
  | some left, some right => some (left = right)
  | _, _ => none

mutual

/-- Equality of decoded values that ignores names, targets and integer kinds; floating-point
values are compared bit by bit. -/
def handlerValuesEqual : FieldValue → FieldValue → Bool
  | .float left, .float right => left.toBits = right.toBits
  | .string left, .string right => left = right
  | .formId left _, .formId right _ => left = right
  | .bytes left, .bytes right => left = right
  | .struct left, .struct right => namedValuesEqual left right
  | .array left, .array right => handlerListsEqual left right
  | .absent, .absent => true
  | left, right => (integerValuesEqual left right).getD false

/-- Equality of array elements. -/
def handlerListsEqual : List FieldValue → List FieldValue → Bool
  | [], [] => true
  | left :: lefts, right :: rights => handlerValuesEqual left right && handlerListsEqual lefts rights
  | _, _ => false

/-- Equality of struct fields: same node identifiers and equal values. -/
def namedValuesEqual : List NamedValue → List NamedValue → Bool
  | [], [] => true
  | .mk leftId _ _ _ _ left :: lefts, .mk rightId _ _ _ _ right :: rights =>
    leftId = rightId && handlerValuesEqual left right && namedValuesEqual lefts rights
  | _, _ => false

end

/-- Equality of owned values that reads a signed and an unsigned integer as one number. -/
def ownedValuesEqual : OwnedFieldValue → OwnedFieldValue → Bool
  | .int left, .uint right => left.toInt = right.toNat
  | .uint left, .int right => left.toNat = right.toInt
  | left, right => left.beq right

mutual

/-- Whether a value has the array lengths and struct sizes of a decoded one. -/
def sameArrayShape : FieldValue → OwnedFieldValue → Bool
  | .array before, .array after => sameArrayShapes before after
  | .struct before, .struct after => sameFieldShapes before after
  | .array _, _ | .struct _, _ | _, .array _ | _, .struct _ => false
  | _, _ => true

/-- The shapes of array elements. -/
def sameArrayShapes : List FieldValue → List OwnedFieldValue → Bool
  | [], [] => true
  | before :: befores, after :: afters => sameArrayShape before after && sameArrayShapes befores afters
  | _, _ => false

/-- The shapes of struct fields. -/
def sameFieldShapes : List NamedValue → List OwnedFieldValue → Bool
  | [], [] => true
  | .mk _ _ _ _ _ before :: befores, after :: afters =>
    sameArrayShape before after && sameFieldShapes befores afters
  | _, _ => false

end

/-- `f64::powi`: a repeated product, inverted for a negative exponent. -/
def f64Powi (base : Float) (exponent : Int) : Float :=
  let power := (List.range exponent.natAbs).foldl (fun product _ => product * base) 1.0
  if exponent < 0 then 1.0 / power else power

/-- `f64::round_ties_even`. -/
def f64RoundTiesEven (value : Float) : Float :=
  let below := value.floor
  let rest := value - below
  if rest < 0.5 then below
  else if 0.5 < rest then below + 1.0
  else if (below / 2.0).floor * 2.0 == below then below else below + 1.0

/-- Round to a number of decimal places; the least `i32` disables rounding. -/
def roundFloatToDigits (value : Float) (digits : Int32) : Float :=
  if digits = Int32.minValue ∨ !value.isFinite then value
  else
    let factor := f64Powi 10.0 (-digits.toInt)
    f64RoundTiesEven (value / factor) * factor

/-- The value of a raw floating-point number. -/
def floatFromRaw (value scale : Float) (digits : Int32) : Float :=
  roundFloatToDigits (value * scale) digits

/-- The raw number of a floating-point value. -/
def floatToRaw (value scale : Float) (digits : Int32) : Float :=
  roundFloatToDigits value digits / scale

end Bethkit
