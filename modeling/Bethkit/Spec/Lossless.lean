import Bethkit.Semantic.Editor
import Bethkit.Spec.IntegerLeaf
import Bethkit.Spec.Spans

/-!
# Lossless payloads

Payloads that the editor writes back as the view has read them. Structs, optional structs, arrays,
terminated values and unions with a settled selector are lossless around lossless leaves. What other
code reads, floating-point numbers and packed integers are left out: a number may have several
spellings.
-/

namespace Bethkit

open Lib

/-- The codec writes the bytes that it has read without an error. -/
def TextEncoding.Inverts (codec : TextEncoding) : Prop :=
  ∀ bytes text, codec.decode bytes = (text, false) → codec.encode text = (bytes, false)

/-- A view and an editor of one record. -/
structure SharesRecord (editor : RecordEditor) (view : Semantic.RecordView) : Prop where
  /-- They have the same context. -/
  context : editor.context = view.context
  /-- They have the same localization. -/
  localized : editor.localized = view.localized
  /-- They have the same form version. -/
  formVersion : editor.record.formVersion = view.record.header.formVersion
  /-- They have the same signature. -/
  signature : editor.record.signature = view.record.header.signature
  /-- The view keeps values. -/
  materializes : view.retention.materializes = true
  /-- The single-byte codec has one byte for every character. -/
  inverts : view.context.codecs.windows1252.Inverts

/-- The view of the record that an editor edits, with the codecs that the editor has recorded. -/
def RecordEditor.view (editor : RecordEditor) (schema : SchemaRecord) : Semantic.RecordView where
  context := editor.context
  record := .fromWritable editor.record
  schema
  localized := editor.localized
  inlineCodecs := some editor.inlineStringCodecs
  retention := .full

/-- No codec is chosen for inline strings. -/
structure NoPolicy (editor : RecordEditor) (view : Semantic.RecordView) : Prop where
  /-- The context has no policy. -/
  context : view.context.inlineStringEncoding = none
  /-- The view has no recorded codecs. -/
  view : ∀ codecs ∈ view.inlineCodecs.getD [], codecs = []
  /-- The editor has no recorded codecs. -/
  editor : ∀ codecs ∈ editor.inlineStringCodecs, codecs = []

/-- The bytes of a string follow from its text. -/
structure StringType.Canonical (string : StringType) : Prop where
  /-- The text is in one of the built-in encodings. -/
  encoding : textEncoding string = "utf8" ∨ textEncoding string = "windows_1252"
  /-- A terminated string has no other length. -/
  terminated : string.zeroTerminated = true →
    string.lengthPrefix = none ∧ string.fixedLength = none
  /-- The text stands directly behind its length. -/
  prefixed : ∀ lengthPrefix, string.lengthPrefix = some lengthPrefix →
    lengthPrefix.offset = lengthPrefix.width ∧ string.fixedLength = none

/-- The bytes of a primitive follow from its value. -/
def LosslessPrimitive (editor : RecordEditor) (view : Semantic.RecordView) : PrimitiveType → Prop
  | .packedUnsigned | .float _ _ _ _ => False
  | .string string => (isLocalizedString string = true ∧ view.localized = true) ∨
    ((isLocalizedString string = true → NoPolicy editor view) ∧ string.Canonical)
  | .integer _ | .bytes _ | .formId _ | .enumeration _ _ | .flags _ _ | .unused _ => True

/-- The count of an array follows from its elements. -/
def LosslessCount (registry : SchemaRegistry) (path : String) : ArrayCount → Prop
  | .packedPrefixed _ _ => False
  | .expression _ | .callback _ | .remainder => True
  | .fixed _ | .prefixed _ _ | .squaredPrefixed _ _ =>
    ∀ binding ∈ registry.callbacksAt path, binding.callbackId ≠ "array.should_include"

/-- A selector that depends neither on the payload nor on fields. -/
structure Expression.Settled (expression : Expression) : Prop where
  /-- It reads no bytes behind the payload. -/
  reads : ∀ size, hasForwardReads size expression = false
  /-- It always selects the same. -/
  same : ∀ (context : EvalContext) (payload : Bytes) (fieldValues : FieldValues),
    expression.evaluate { context with payload, fieldValues } 1024 =
      expression.evaluate context 1024

/-- A node whose value is never absent. -/
def SchemaNode.alwaysPresent : SchemaNode → Bool
  | .primitive info _ | .struct info _ | .optionalStruct info _ _ | .array info _ _ =>
    info.condition.isNone
  | .terminated info _ child => info.condition.isNone && alwaysPresent child
  | _ => false

/-- A node whose bytes follow from its value. -/
inductive Lossless (editor : RecordEditor) (view : Semantic.RecordView) : SchemaNode → Prop where
  /-- A leaf. -/
  | primitive {info : NodeInfo} {primitive : PrimitiveType} :
    ¬(SchemaNode.primitive info primitive).Foreign view.context.registry →
    LosslessPrimitive editor view primitive → Lossless editor view (.primitive info primitive)
  /-- A struct. -/
  | struct {info : NodeInfo} {fields : List SchemaNode} :
    ¬(SchemaNode.struct info fields).Foreign view.context.registry →
    (∀ field ∈ fields, Lossless editor view field) → Lossless editor view (.struct info fields)
  /-- A struct with optional members. -/
  | optionalStruct {info : NodeInfo} {fields : List SchemaNode} {optionalFrom : UInt32} :
    ¬(SchemaNode.optionalStruct info fields optionalFrom).Foreign view.context.registry →
    (∀ field ∈ fields, Lossless editor view field) →
    Lossless editor view (.optionalStruct info fields optionalFrom)
  /-- An array. -/
  | array {info : NodeInfo} {element : SchemaNode} {count : ArrayCount} :
    ¬(SchemaNode.array info element count).Foreign view.context.registry →
    LosslessCount view.context.registry info.path count → Lossless editor view element →
    Lossless editor view (.array info element count)
  /-- A union with a settled selector. -/
  | union {info : NodeInfo} {expression : Expression} {variants : List SchemaNode} :
    ¬(SchemaNode.union info (.expression expression) variants).Foreign view.context.registry →
    expression.Settled → (∀ variant ∈ variants, Lossless editor view variant) →
    Lossless editor view (.union info (.expression expression) variants)
  /-- A terminated value that is never absent. -/
  | terminated {info : NodeInfo} {terminator : UInt8} {child : SchemaNode} :
    ¬(SchemaNode.terminated info terminator child).Foreign view.context.registry →
    child.alwaysPresent = true → Lossless editor view child →
    Lossless editor view (.terminated info terminator child)

/-- The bytes that are written for the first bytes of a payload: the same ones, and behind the last
byte of the payload the terminators that strings had lacked. -/
def WritesBack (current : Bytes) (consumed : Nat) (written : Bytes) : Prop :=
  ∃ missing, written = current.take consumed ++ List.replicate missing 0 ∧
    (missing = 0 ∨ consumed = current.length)

/-! ## Values that can be written -/

/-- A leaf that can be written: a negative number has eight bytes, and a string was valid. -/
def PrimitiveType.Holds (primitive : PrimitiveType) (value : FieldValue) : Prop :=
  match primitive with
  | .integer kind | .enumeration kind _ =>
    ∀ number, value.number = some number → number < 0 → kind.width = 8
  | .string _ => ∀ bytes, value ≠ .bytes bytes
  | _ => True

/-- A node whose absent value has a handler form. -/
def SchemaNode.canLack : SchemaNode → Bool
  | .union _ _ _ => false
  | .terminated _ _ child => canLack child
  | _ => true

mutual

/-- A value that can be written under a node. -/
inductive CanWrite (view : Semantic.RecordView) : SchemaNode → FieldValue → Prop where
  /-- A leaf. -/
  | primitive {info : NodeInfo} {primitive : PrimitiveType} {value : FieldValue} :
    value ≠ .absent → primitive.Holds value → CanWrite view (.primitive info primitive) value
  /-- A struct with all members. -/
  | struct {info : NodeInfo} {fields : List SchemaNode} {values : List NamedValue} :
    CanWriteFields view none 0 fields values → CanWrite view (.struct info fields) (.struct values)
  /-- A struct that may lack its optional members. -/
  | optionalStruct {info : NodeInfo} {fields : List SchemaNode} {optionalFrom : UInt32}
    {values : List NamedValue} : CanWriteFields view (some optionalFrom.toNat) 0 fields values →
    CanWrite view (.optionalStruct info fields optionalFrom) (.struct values)
  /-- An array. -/
  | array {info : NodeInfo} {element : SchemaNode} {count : ArrayCount} {values : List FieldValue} :
    (∀ value ∈ values, CanWrite view element value) →
    CanWrite view (.array info element count) (.array values)
  /-- A union, under the variant that is selected. -/
  | union {info : NodeInfo} {expression : Expression} {variants : List SchemaNode}
    {selected : Int64} {variant : SchemaNode} {value : FieldValue} :
    view.evaluate expression [] ∅ = .ok (.int selected) →
    variants[selected.toInt.toNat]? = some variant → CanWrite view variant value →
    CanWrite view (.union info (.expression expression) variants) value
  /-- A terminated value. -/
  | terminated {info : NodeInfo} {terminator : UInt8} {child : SchemaNode} {value : FieldValue} :
    CanWrite view child value → CanWrite view (.terminated info terminator child) value

/-- Members that can be written, from an index on. -/
inductive CanWriteFields (view : Semantic.RecordView) :
    Option Nat → Nat → List SchemaNode → List NamedValue → Prop where
  /-- No member is left. -/
  | nil {optionalFrom : Option Nat} {index : Nat} : CanWriteFields view optionalFrom index [] []
  /-- One more member. -/
  | cons {optionalFrom : Option Nat} {index : Nat} {field : SchemaNode} {fields : List SchemaNode}
    {value : NamedValue} {values : List NamedValue} : CanWrite view field value.value →
    CanWriteFields view optionalFrom (index + 1) fields values →
    CanWriteFields view optionalFrom index (field :: fields) (value :: values)
  /-- The members that are left are optional and absent. -/
  | lacking {optionalFrom : Option Nat} {index : Nat} {fields : List SchemaNode}
    {values : List NamedValue} :
    optionalFrom.any (· ≤ index) = true → (∀ field ∈ fields, field.canLack = true) →
    (∀ value ∈ values, value.value = .absent) →
    CanWriteFields view optionalFrom index fields values

end

end Bethkit
