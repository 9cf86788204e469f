import Bethkit.Semantic.View

/-!
# The encoder of the record editor

The editor keeps a writable record, the codecs of its inline strings by subrecord and the decoded
value of every assigned subrecord. Encoding walks the schema and an owned value together. A union
holds no tag, so the encoder tries its variants in order and takes the first one whose bytes make
the selector choose it.
-/

namespace Bethkit

open Lib

/-- Decoded values by path and occurrence, ordered as in the source. -/
abbrev DecodedValues : Type :=
  Std.TreeMap (String × Nat) FieldValue (compareLex (compareOn Prod.fst) (compareOn Prod.snd))

/-- Lossless editor for one record. -/
structure RecordEditor where
  /-- Registry, decoders, handlers and inline encoding policy. -/
  context : SemanticContext
  /-- The edited record. -/
  record : WritableRecord
  /-- Whether the parent plugin uses localized string tables. -/
  localized : Bool
  /-- Codecs of inline strings, one list per subrecord. -/
  inlineStringCodecs : List (List InlineStringCodec)
  /-- Normalization operations applied by after-load callbacks. -/
  afterLoadMigrations : Nat
  /-- Decoded value of every field. -/
  decodedValues : DecodedValues

/-- What the encoder may look at beside the value. -/
structure NestedValueContext where
  /-- Integer values by path. -/
  fieldValues : FieldValues
  /-- The record being edited. -/
  sourceRecord : WritableRecord
  /-- The subrecord being edited. -/
  sourceSubrecordIndex : Option Nat

/-- Where a value is encoded. -/
structure EncodeScope where
  /-- Fields of the enclosing struct encoded so far. -/
  valueScope : Option FieldValue
  /-- Positions in the enclosing arrays, outermost first. -/
  arrayIndices : List Nat

mutual

/-- The innermost subrecord around the first node with a path. -/
def findContaining (path : String) : SchemaNode → Option SchemaNode → Option SchemaNode
  | node@(.subrecord info _ child), _ =>
    if info.path = path then some node else findContaining path child (some node)
  | .sequence info children, parent | .unordered info children, parent
  | .choice info children, parent | .selectedChoice info _ children, parent
  | .struct info children, parent | .optionalStruct info children _, parent
  | .union info _ children, parent =>
    if info.path = path then parent else findContainingAny path children parent
  | .repeat info _ _ child, parent | .array info child _, parent | .compressed info _ child, parent
  | .terminated info _ child, parent =>
    if info.path = path then parent else findContaining path child parent
  | .primitive info _, parent | .custom info _ _, parent | .reference info _, parent =>
    if info.path = path then parent else none

/-- The same over a list of nodes. -/
def findContainingAny (path : String) :
    List SchemaNode → Option SchemaNode → Option SchemaNode
  | [], _ => none
  | child :: children, parent =>
    match findContaining path child parent with
    | some found => some found
    | none => findContainingAny path children parent

end

/-- The subrecord that contains a path. -/
def findContainingSubrecord (root : SchemaNode) (path : String) : Option SchemaNode :=
  findContaining path root none

/-- Record an integer for later expressions; one beyond `i64` is forgotten. -/
def insertExpressionValue (path : String) (value : Option Int64) (output : FieldValues) :
    FieldValues :=
  match value with
  | some value => output.insert path value
  | none => output.erase path

mutual

/-- The integers of a decoded value, by the paths of struct members. -/
def collectExpressionFieldValues (path : String) : FieldValue → FieldValues → FieldValues
  | .int value, output | .enumeration value _, output => output.insert path value
  | .uint value, output | .flags value _, output =>
    insertExpressionValue path (i64TryFrom value.toNat) output
  | .struct values, output => collectNamedFieldValues values output
  | .array values, output => collectElementFieldValues path values output
  | _, output => output

/-- The integers of struct members. -/
def collectNamedFieldValues : List NamedValue → FieldValues → FieldValues
  | [], output => output
  | .mk _ path _ _ _ value :: values, output =>
    collectNamedFieldValues values (collectExpressionFieldValues path value output)

/-- The integers of array elements; a later element overwrites an earlier one. -/
def collectElementFieldValues (path : String) : List FieldValue → FieldValues → FieldValues
  | [], output => output
  | value :: values, output =>
    collectElementFieldValues path values (collectExpressionFieldValues path value output)

end

/-- The integers of all decoded values, in the order of their keys. -/
def expressionFieldValuesFrom (decodedValues : DecodedValues) : FieldValues :=
  decodedValues.foldl (fun output key value => collectExpressionFieldValues key.1 value output) ∅

/-- The integer of a primitive owned value. -/
def collectPrimitiveValue (path : String) (value : OwnedFieldValue) (output : FieldValues) :
    FieldValues :=
  match value with
  | .int value => output.insert path value
  | .uint value => insertExpressionValue path (i64TryFrom value.toNat) output
  | .formId value => output.insert path (Int64.ofNat value.val.toNat)
  | _ => output

mutual

/-- The integers of an owned value by schema path; every variant of a union is collected. -/
def collectOwnedExpressionFieldValues : SchemaNode → OwnedFieldValue → FieldValues → FieldValues
  | .primitive info _, value, output => collectPrimitiveValue info.path value output
  | .struct _ fields, value, output | .optionalStruct _ fields _, value, output =>
    match value with
    | .struct values =>
      if fields.length = values.length then collectOwnedFields fields values output else output
    | _ => output
  | .array _ element _, value, output =>
    match value with
    | .array values =>
      values.foldl (fun output value => collectOwnedExpressionFieldValues element value output) output
    | _ => output
  | .union _ _ variants, value, output => collectOwnedVariants variants value output
  | .subrecord _ _ child, value, output | .compressed _ _ child, value, output
  | .terminated _ _ child, value, output => collectOwnedExpressionFieldValues child value output
  | _, _, output => output

/-- The integers of struct members. -/
def collectOwnedFields : List SchemaNode → List OwnedFieldValue → FieldValues → FieldValues
  | field :: fields, value :: values, output =>
    collectOwnedFields fields values (collectOwnedExpressionFieldValues field value output)
  | _, _, output => output

/-- The integers that one value leaves under every variant. -/
def collectOwnedVariants : List SchemaNode → OwnedFieldValue → FieldValues → FieldValues
  | [], _, output => output
  | variant :: variants, value, output =>
    collectOwnedVariants variants value (collectOwnedExpressionFieldValues variant value output)

end

mutual

/-- Whether an expression reads behind a number of bytes. -/
def hasForwardReads (encodedSize : Nat) : Expression → Bool
  | .readUnsigned offset width => encodedSize < offset.toNat + width.toNat
  | .equal left right | .notEqual left right | .lessThan left right | .add left right
  | .subtract left right | .multiply left right | .divide left right =>
    hasForwardReads encodedSize left || hasForwardReads encodedSize right
  | .bitSet value _ | .not value | .bitCount value | .integerLookup value _ _ =>
    hasForwardReads encodedSize value
  | .and values | .or values => anyForwardReads encodedSize values
  | .select condition ifTrue ifFalse =>
    hasForwardReads encodedSize condition || hasForwardReads encodedSize ifTrue ||
      hasForwardReads encodedSize ifFalse
  | .bool _ | .int _ | .payloadLength | .formVersion | .readField _ | .recordSignature _ => false

/-- The same for a list of expressions. -/
def anyForwardReads (encodedSize : Nat) : List Expression → Bool
  | [] => false
  | value :: values => hasForwardReads encodedSize value || anyForwardReads encodedSize values

end

mutual

/-- Replace the reads that can be resolved by their values. -/
def resolveReads (resolve : UInt32 → UInt8 → Option Int64) : Expression → Expression
  | .readUnsigned offset width =>
    match resolve offset width with
    | some value => .int value
    | none => .readUnsigned offset width
  | .equal left right => .equal (resolveReads resolve left) (resolveReads resolve right)
  | .notEqual left right => .notEqual (resolveReads resolve left) (resolveReads resolve right)
  | .lessThan left right => .lessThan (resolveReads resolve left) (resolveReads resolve right)
  | .add left right => .add (resolveReads resolve left) (resolveReads resolve right)
  | .subtract left right => .subtract (resolveReads resolve left) (resolveReads resolve right)
  | .multiply left right => .multiply (resolveReads resolve left) (resolveReads resolve right)
  | .divide left right => .divide (resolveReads resolve left) (resolveReads resolve right)
  | .bitSet value bit => .bitSet (resolveReads resolve value) bit
  | .not value => .not (resolveReads resolve value)
  | .bitCount value => .bitCount (resolveReads resolve value)
  | .integerLookup value cases default => .integerLookup (resolveReads resolve value) cases default
  | .and values => .and (resolveAllReads resolve values)
  | .or values => .or (resolveAllReads resolve values)
  | .select condition ifTrue ifFalse => .select (resolveReads resolve condition)
      (resolveReads resolve ifTrue) (resolveReads resolve ifFalse)
  | .bool value => .bool value
  | .int value => .int value
  | .payloadLength => .payloadLength
  | .formVersion => .formVersion
  | .readField path => .readField path
  | .recordSignature signature => .recordSignature signature

/-- The same in a list of expressions. -/
def resolveAllReads (resolve : UInt32 → UInt8 → Option Int64) : List Expression → List Expression
  | [] => []
  | value :: values => resolveReads resolve value :: resolveAllReads resolve values

end

/-- The size of a primitive in a layout that reads may cross. -/
def fixedLayoutSize : PrimitiveType → Option Nat
  | .integer integer | .enumeration integer _ | .flags integer _ => some integer.width.toNat
  | .float width _ _ _ => some width.toNat
  | .formId _ => some 4
  | .bytes (some length) => some length.toNat
  | .unused length => some length.toNat
  | _ => none

mutual

/-- The size of a node whose layout is fixed and unconditional. -/
def fixedSize : SchemaNode → Option Nat
  | .primitive info primitive =>
    if info.condition.isSome then none else fixedLayoutSize primitive
  | .struct info fields => if info.condition.isSome then none else fixedSizes fields 0
  | .union info _ (variant :: variants) =>
    if info.condition.isSome then none
    else do
      let size ← fixedSize variant
      if allFixedSize variants size then some size else none
  | _ => none

/-- The size of consecutive fields. -/
def fixedSizes : List SchemaNode → Nat → Option Nat
  | [], size => some size
  | field :: fields, size => do
    let fieldSize ← fixedSize field
    let size ← usizeChecked (size + fieldSize)
    fixedSizes fields size

/-- Whether all variants have a size. -/
def allFixedSize : List SchemaNode → Nat → Bool
  | [], _ => true
  | variant :: variants, size => fixedSize variant = some size && allFixedSize variants size

end

mutual

/-- The offset of the node with a path in a fixed layout. -/
def fixedOffset (path : String) : SchemaNode → Option Nat
  | .struct info fields =>
    if info.condition.isSome then none
    else if info.path = path then some 0
    else fixedOffsetIn path fields 0
  | node => if node.condition.isSome then none else if node.path = path then some 0 else none

/-- The offset of the node with a path among fields that begin at an offset. -/
def fixedOffsetIn (path : String) : List SchemaNode → Nat → Option Nat
  | [], _ => none
  | field :: fields, offset =>
    match fixedOffset path field with
    | some nested => usizeChecked (offset + nested)
    | none => do
      let size ← fixedSize field
      let offset ← usizeChecked (offset + size)
      fixedOffsetIn path fields offset

end

/-- The primitive is a little-endian integer of a width, or a FormID read as one. -/
def isIntegerOfWidth (primitive : PrimitiveType) (width : UInt8) : Bool :=
  match primitive with
  | .integer integer | .enumeration integer _ | .flags integer _ =>
    integer.width = width && integer.byteOrder = .littleEndian
  | .formId _ => width = 4
  | _ => false

mutual

/-- The integer node that occupies exactly some bytes of a fixed layout. -/
def integerAt : SchemaNode → Nat → UInt8 → Option SchemaNode
  | .struct info fields, offset, width =>
    if info.condition.isSome then none else integerIn fields offset width
  | node@(.primitive info primitive), offset, width =>
    if info.condition.isNone && offset = 0 && isIntegerOfWidth primitive width then some node
    else none
  | _, _, _ => none

/-- The same among consecutive fields. -/
def integerIn : List SchemaNode → Nat → UInt8 → Option SchemaNode
  | [], _, _ => none
  | field :: fields, remaining, width => do
    let size ← fixedSize field
    if remaining < size then integerAt field remaining width
    else integerIn fields (remaining - size) width

end

/-- The low bytes of an integer as an unsigned number within `i64`. -/
def maskedValue (value : Int64) (width : UInt8) : Option Int64 :=
  let bits := 8 * width.toNat
  if 64 < bits ∨ bits = 0 then none else i64TryFrom (value.toUInt64.toNat % 2 ^ bits)

/-- A read behind the candidate's bytes, resolved by the current value of a later sibling. -/
def resolveForwardRead (payload : SchemaNode) (base encodedSize : Nat) (values : FieldValues)
    (offset : UInt32) (width : UInt8) : Option Int64 :=
  if offset.toNat + width.toNat ≤ encodedSize then none
  else do
    let field ← integerAt payload (base + offset.toNat) width
    let value ← values.get? field.path
    maskedValue value width

/-- The bytes in front of the elements of an array. -/
def encodeArrayPrefix (path : String) (count : ArrayCount) (length : Nat) :
    Except SemanticError Bytes :=
  match count with
  | .fixed count =>
    if length ≠ count.toNat then
      .error (encodeError path s!"array expects {count.toNat} elements, got {length}")
    else .ok []
  | .prefixed integer terminator =>
    if integer.signed then .error (encodeError path "array count prefix must be unsigned")
    else do
      let encoded ← encodeInteger integer (UInt64.ofNat length) path
      .ok (encoded ++ terminator.toList)
  | .packedPrefixed square terminator => do
    let count ← arrayPrefixCount length square path
    let encoded ← encodePackedUnsigned count path
    .ok (encoded ++ terminator.toList)
  | .squaredPrefixed integer terminator =>
    if integer.signed then .error (encodeError path "array count prefix must be unsigned")
    else do
      let count ← arrayPrefixCount length true path
      let encoded ← encodeInteger integer count path
      .ok (encoded ++ terminator.toList)
  | .expression _ | .callback _ | .remainder => .ok []

/-- A struct member in handler form; its span and effective path are not known. -/
def handlerMember (field : SchemaNode) (value : FieldValue) : NamedValue :=
  .mk field.id field.path none field.name ⟨0, 0⟩ value

/-- A struct value of the wrong size. -/
def structLengthError (path : String) (fields values : Nat) : SemanticError :=
  encodeError path s!"struct expects {fields} fields, got {values}"

/-- Struct members in handler form, each by its own conversion. -/
def handlerMembers :
    List (SchemaNode × (OwnedFieldValue → Except SemanticError FieldValue)) →
      List OwnedFieldValue → Except SemanticError (List NamedValue)
  | (field, convert) :: fields, value :: values => do
    let converted ← convert value
    let members ← handlerMembers fields values
    .ok (handlerMember field converted :: members)
  | _, _ => .ok []

/-- A struct in handler form, each member by its own conversion. -/
def handlerStruct (path : String)
    (fields : List (SchemaNode × (OwnedFieldValue → Except SemanticError FieldValue)))
    (values : List OwnedFieldValue) : Except SemanticError FieldValue :=
  if fields.length ≠ values.length then
    .error (structLengthError path fields.length values.length)
  else (handlerMembers fields values).map .struct

/-- The members of the legacy layout are primitives: their values are converted as leaves. -/
def leafConversions (fields : List SchemaNode) :
    List (SchemaNode × (OwnedFieldValue → Except SemanticError FieldValue)) :=
  fields.map fun field => (field, fun value => .ok (ownedLeafToHandlerValue value))

/-- The legacy layout of a node for the subrecord being edited. -/
def legacyPayloadNode (node : SchemaNode) (sourceSubrecordIndex : Option Nat)
    (sourceRecord : WritableRecord) : Option SchemaNode := do
  let index ← sourceSubrecordIndex
  let subrecord ← sourceRecord.subrecords[index]?
  weaponCriticalData sourceRecord.signature subrecord.signature node subrecord.data.length

namespace RecordEditor

/-- Callback metadata of the edited record. -/
def handlerRecord (editor : RecordEditor) : HandlerRecordContext where
  recordSignature := editor.record.signature
  formId := editor.record.formId
  formVersion := editor.record.formVersion
  game := editor.context.registry.package.game
  pluginLocalized := editor.localized

/-- The integers of the decoded values of the editor. -/
def expressionFieldValues (editor : RecordEditor) : FieldValues :=
  expressionFieldValuesFrom editor.decodedValues

/-- The schema of a record. -/
def schemaOf (editor : RecordEditor) (signature : Signature) :
    Except SemanticError SchemaRecord :=
  match editor.context.registry.get signature with
  | some schema => .ok schema
  | none => .error (.missingRecordSchema signature.display)

/-- The node with a path in the schema of the edited record. -/
def findNode (editor : RecordEditor) (path : String) : Except SemanticError SchemaNode := do
  let schema ← editor.schemaOf editor.record.signature
  match schema.root.findNodeByPath path with
  | some node => .ok node
  | none => .error (.missingPath path)

/-- The selector of a union with its forward reads resolved, where the layout is fixed. -/
def unionExpression (editor : RecordEditor) (node : SchemaNode) (expression : Expression)
    (encodedSize : Nat) (values : FieldValues) : Expression :=
  if !hasForwardReads encodedSize expression then expression
  else
    match editor.context.registry.get editor.record.signature with
    | none => expression
    | some schema =>
      match findContainingSubrecord schema.root node.path with
      | some (.subrecord _ _ payload) =>
        match fixedOffset node.path payload with
        | none => expression
        | some base => resolveReads (resolveForwardRead payload base encodedSize values) expression
      | _ => expression

/-- The codec in which a string of the subrecord being edited is written. -/
def writtenInlineEncoding (editor : RecordEditor) (path : String)
    (sourceSubrecordIndex : Option Nat) (arrayIndices : List Nat) : Option InlineStringEncoding :=
  let recorded : Option InlineStringCodec := do
    let index ← sourceSubrecordIndex
    let codecs ← editor.inlineStringCodecs[index]?
    codecs.find? fun codec => codec.path = path && codec.arrayIndices = arrayIndices
  match recorded with
  | some codec => some codec.encoding
  | none => editor.context.inlineStringEncoding.bind
      (·.fallbackEncoding editor.context.codecs)

/-- What a selector yields for the bytes of a candidate variant: an index, or a message when the
expression fails. -/
def unionSelection (editor : RecordEditor) (node : SchemaNode) (selector : UnionSelector)
    (encoded : Bytes) (context : NestedValueContext) (valueScope : Option FieldValue) :
    Except SemanticError (Except String Int64) :=
  match selector with
  | .expression expression =>
    let expression := editor.unionExpression node expression encoded.length context.fieldValues
    match expression.evaluate {
        payload := encoded
        fieldValues := context.fieldValues
        formVersion := editor.record.formVersion
        recordSignature := editor.record.signature } 1024 with
    | .ok (.int selected) => .ok (.ok selected)
    | .ok (.bool _) => .ok (.error "selector returned a non-integer value")
    | .error error => .ok (.error error.display)
  | .callback callbackId =>
    match (editor.context.registry.callbacksAt node.path).find? (·.callbackId = callbackId) with
    | none => .error (.handler callbackId s!"union node {node.path} has no callback binding")
    | some binding => do
      let output ← editor.context.handlers.invokeWithRecords binding editor.handlerRecord
        (.writableAt context.sourceRecord context.sourceSubrecordIndex valueScope) .unionSelection
        (some (.bytes encoded)) none
      match output with
      | .integer selected => .ok (.ok selected)
      | _ => .error (.handler callbackId "union selector returned a non-integer result")

/-- No variant encodes the value under its own selection. -/
def unmatchedVariant (path : String) (selectionError : Option String) : SemanticError :=
  match selectionError with
  | none => encodeError path "value does not match the selected union variant"
  | some error => encodeError path s!"value does not match the selected union variant: {error}"

/-- The scope of a selection outside the encoder. -/
def noScope : EncodeScope := ⟨none, []⟩

mutual

/-- The bytes of a value under a schema node. -/
def encodeNodeWithScope (editor : RecordEditor) (context : NestedValueContext) :
    SchemaNode → OwnedFieldValue → EncodeScope → Except SemanticError Bytes
  | .primitive info primitive, value, scope =>
    encodePrimitive editor.context.codecs primitive value editor.localized
      (editor.writtenInlineEncoding info.path context.sourceSubrecordIndex scope.arrayIndices)
      info.path
  | .struct info fields, value, scope =>
    match value with
    | .struct values =>
      if fields.length ≠ values.length then
        .error (structLengthError info.path fields.length values.length)
      else encodeFields editor context info.path scope.arrayIndices none fields values 0 [] []
    | _ => .error (encodeError info.path "expected a struct value")
  | .optionalStruct info fields optionalFrom, value, scope =>
    match value with
    | .struct values =>
      if fields.length ≠ values.length then
        .error (structLengthError info.path fields.length values.length)
      else
        encodeFields editor context info.path scope.arrayIndices (some optionalFrom.toNat) fields
          values 0 [] []
    | _ => .error (encodeError info.path "expected a struct value")
  | .array info element count, value, scope =>
    match value with
    | .array values => do
      let head ← encodeArrayPrefix info.path count values.length
      let elements ← values.zipIdx.mapM fun (value, index) =>
        encodeNodeWithScope editor context element value
          { scope with arrayIndices := scope.arrayIndices ++ [index] }
      .ok (head ++ elements.flatten)
    | _ => .error (encodeError info.path "expected an array value")
  | node@(.union _ selector variants), value, scope => do
    let (_, encoded) ←
      selectUnionVariant editor context node selector scope variants 0 none value
    .ok encoded
  | .custom _ decoder _, value, _ =>
    match editor.context.decoders.get decoder with
    | none => .error (.missingDecoder decoder)
    | some custom => custom.encode value
  | .terminated _ terminator child, value, scope => do
    let encoded ← encodeNodeWithScope editor context child value scope
    .ok (encoded ++ [terminator])
  | node, _, _ => .error (encodeError node.path "this schema node requires a specialized encoder")

/-- The bytes of struct members, behind those encoded so far. -/
def encodeFields (editor : RecordEditor) (context : NestedValueContext) (path : String)
    (arrayIndices : List Nat) (optionalFrom : Option Nat) :
    List SchemaNode → List OwnedFieldValue → Nat → List NamedValue → Bytes →
      Except SemanticError Bytes
  | field :: fields, value :: values, index, scopeValues, output =>
    if optionalFrom.any (· ≤ index) && value.isAbsent then
      if values.all (·.isAbsent) then .ok output
      else .error (encodeError path "optional struct fields must be absent as a trailing suffix")
    else do
      let encoded ← encodeNodeWithScope editor context field value
        ⟨some (.struct scopeValues), arrayIndices⟩
      let handlerValue ← match field with
        | .union _ _ _ => .ok (.bytes encoded)
        | field => ownedToHandlerValue editor context field value
      encodeFields editor context path arrayIndices optionalFrom fields values (index + 1)
        (scopeValues ++ [.mk field.id field.path none field.name
          ⟨output.length, output.length + encoded.length⟩ handlerValue])
        (output ++ encoded)
  | _, _, _, _, output => .ok output

/-- The first variant from a position on whose bytes make the selector choose it. -/
def selectUnionVariant (editor : RecordEditor) (context : NestedValueContext) (node : SchemaNode)
    (selector : UnionSelector) (scope : EncodeScope) :
    List SchemaNode → Nat → Option String → OwnedFieldValue → Except SemanticError (Nat × Bytes)
  | [], _, selectionError, _ => .error (unmatchedVariant node.path selectionError)
  | variant :: variants, index, selectionError, value =>
    match encodeNodeWithScope editor context variant value scope with
    | .error _ =>
      selectUnionVariant editor context node selector scope variants (index + 1) selectionError
        value
    | .ok encoded => do
      let selection ← editor.unionSelection node selector encoded context scope.valueScope
      match selection with
      | .error message =>
        selectUnionVariant editor context node selector scope variants (index + 1) (some message)
          value
      | .ok selected =>
        if selected.toInt = index then .ok (index, encoded)
        else
          selectUnionVariant editor context node selector scope variants (index + 1)
            selectionError value

/-- An owned value in handler form: struct members get their names, unions their variant. -/
def ownedToHandlerValue (editor : RecordEditor) (context : NestedValueContext) :
    SchemaNode → OwnedFieldValue → Except SemanticError FieldValue
  | node@(.struct info fields), value =>
    match value with
    | .struct values =>
      match legacyPayloadNode node context.sourceSubrecordIndex context.sourceRecord with
      | some legacy => handlerStruct legacy.path (leafConversions legacy.children) values
      | none => handlerStruct info.path (handlerConversions editor context fields) values
    | _ => .ok (ownedLeafToHandlerValue value)
  | .optionalStruct info fields _, value =>
    match value with
    | .struct values => handlerStruct info.path (handlerConversions editor context fields) values
    | _ => .ok (ownedLeafToHandlerValue value)
  | .array _ element _, value =>
    match value with
    | .array values => do
      let converted ← values.mapM (ownedToHandlerValue editor context element)
      .ok (.array converted)
    | _ => .ok (ownedLeafToHandlerValue value)
  | node@(.union _ selector variants), value => do
    let (index, _) ←
      selectUnionVariant editor context node selector noScope variants 0 none value
    ownedToHandlerValueAt editor context variants index value
  | .subrecord _ _ child, value | .compressed _ _ child, value | .terminated _ _ child, value =>
    ownedToHandlerValue editor context child value
  | _, value => .ok (ownedLeafToHandlerValue value)

/-- The conversions of struct members. -/
def handlerConversions (editor : RecordEditor) (context : NestedValueContext) :
    List SchemaNode → List (SchemaNode × (OwnedFieldValue → Except SemanticError FieldValue))
  | [] => []
  | field :: fields =>
    (field, ownedToHandlerValue editor context field) :: handlerConversions editor context fields

/-- The handler form under the variant at a position. -/
def ownedToHandlerValueAt (editor : RecordEditor) (context : NestedValueContext) :
    List SchemaNode → Nat → OwnedFieldValue → Except SemanticError FieldValue
  | [], _, value => .ok (ownedLeafToHandlerValue value)
  | variant :: _, 0, value => ownedToHandlerValue editor context variant value
  | _ :: variants, position + 1, value =>
    ownedToHandlerValueAt editor context variants position value

end

/-- The bytes of a payload; a legacy layout and an extra zero byte of the edited subrecord are
kept. -/
def encodeNodeWithFields (editor : RecordEditor) (node : SchemaNode) (value : OwnedFieldValue)
    (context : NestedValueContext) : Except SemanticError Bytes := do
  let source := context.sourceSubrecordIndex.bind fun index => context.sourceRecord.subrecords[index]?
  let node := (legacyPayloadNode node context.sourceSubrecordIndex context.sourceRecord).getD node
  let encoded ← editor.encodeNodeWithScope context node value noScope
  .ok (if source.any (fun subrecord => fixedStringTerminator node subrecord.data) then
    encoded ++ [0] else encoded)

/-- The context of a value under a node: the integers of decoded values, overlaid by its own. -/
def valueContext (decodedValues : DecodedValues) (node : SchemaNode) (value : OwnedFieldValue)
    (sourceRecord : WritableRecord) (sourceSubrecordIndex : Option Nat) : NestedValueContext where
  fieldValues :=
    collectOwnedExpressionFieldValues node value (expressionFieldValuesFrom decodedValues)
  sourceRecord
  sourceSubrecordIndex

/-- The bytes of a value for a subrecord of the edited record. -/
def encodeNodeAt (editor : RecordEditor) (node : SchemaNode) (value : OwnedFieldValue)
    (sourceSubrecordIndex : Option Nat) : Except SemanticError Bytes :=
  editor.encodeNodeWithFields node value
    (valueContext editor.decodedValues node value editor.record sourceSubrecordIndex)

/-- The bytes of a value for a subrecord of a candidate record. -/
def encodeNodeAtForRecord (editor : RecordEditor) (node : SchemaNode) (value : OwnedFieldValue)
    (sourceSubrecordIndex : Option Nat) (sourceRecord : WritableRecord)
    (decodedValues : DecodedValues) : Except SemanticError Bytes :=
  editor.encodeNodeWithFields node value
    (valueContext decodedValues node value sourceRecord sourceSubrecordIndex)

/-- The handler form of a value of the edited record. -/
def ownedToHandlerValueAtIndex (editor : RecordEditor) (node : SchemaNode)
    (value : OwnedFieldValue) (sourceSubrecordIndex : Option Nat) :
    Except SemanticError FieldValue :=
  editor.ownedToHandlerValue
    (valueContext editor.decodedValues node value editor.record sourceSubrecordIndex) node value

/-- The handler form of a value of a candidate record. -/
def ownedToHandlerValueAtForRecord (editor : RecordEditor) (node : SchemaNode)
    (value : OwnedFieldValue) (sourceSubrecordIndex : Option Nat) (sourceRecord : WritableRecord)
    (decodedValues : DecodedValues) : Except SemanticError FieldValue :=
  editor.ownedToHandlerValue
    (valueContext decodedValues node value sourceRecord sourceSubrecordIndex) node value

end RecordEditor

end Bethkit
