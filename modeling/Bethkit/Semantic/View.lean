import Bethkit.Semantic.Grammar
import Bethkit.Semantic.Legacy

/-!
# Read-only view over a record

Decoding of the payload of every assigned subrecord. The decoder of the source writes integer
values, union selections and inline codecs through mutable references; here they are a state that
every call takes and returns. A failed call ends the decoding of the record, so its state is lost.
-/

namespace Bethkit

open Lib

/-- Codec selected for a nested inline string. -/
structure InlineStringCodec where
  /-- Stable schema path of the string node. -/
  path : String
  /-- Outermost-to-innermost array indices containing this string. -/
  arrayIndices : List Nat
  /-- Codec used to decode the original bytes. -/
  encoding : InlineStringEncoding
  /-- Whether UTF-8 was selected by the opt-in per-string heuristic. -/
  heuristic : Bool
deriving DecidableEq

/-- One schema union's selected variant at an exact nested array position. -/
structure ValueSelection where
  /-- Original union node path, before selecting a variant. -/
  schemaPath : String
  /-- Outermost-to-innermost array indices containing the union occurrence. -/
  arrayIndices : List Nat
  /-- Directly selected variant path, before resolving any nested union. -/
  effectivePath : String
deriving DecidableEq

/-- One decoded top-level record field. -/
structure Field where
  /-- Source subrecord index in the containing record's ordered payload. -/
  subrecordIndex : Nat
  /-- Actual nested grammar-repeat occurrences containing this subrecord. -/
  repeatScopes : List RepeatScope
  /-- Stable schema node identifier. -/
  nodeId : SchemaNodeId
  /-- Stable schema path. -/
  path : String
  /-- Effective selected payload path for a dynamic union, when available. -/
  effectivePath : Option String
  /-- Exact dynamic-union selections, including occurrences inside arrays. -/
  valueSelections : List ValueSelection
  /-- Inline strings whose detected codec differs from their schema codec. -/
  inlineStringCodecs : List InlineStringCodec
  /-- Human-readable name. -/
  name : String
  /-- Source subrecord signature. -/
  subrecordSignature : Signature
  /-- Zero-based occurrence of the stable path, or signature for raw fields. -/
  occurrence : Nat
  /-- Byte span inside the subrecord payload. -/
  span : ByteSpan
  /-- Field provenance. -/
  origin : FieldOrigin
  /-- Decoded field value. -/
  value : FieldValue

/-- Where a node is decoded. -/
structure DecodeFrame where
  /-- Offset of the node in the payload. -/
  offset : Nat
  /-- The subrecord being decoded. -/
  sourceSubrecordIndex : Nat
  /-- Fields of the enclosing struct decoded so far. -/
  siblingValues : List NamedValue
  /-- Positions in the enclosing arrays, outermost first. -/
  arrayIndices : List Nat

/-- What the decoder collects on its way. -/
structure DecodeState where
  /-- Integer values by path, the latest of each. -/
  fieldValues : FieldValues
  /-- Union selections in the order of their ends. -/
  selections : List ValueSelection
  /-- Inline codecs. -/
  codecs : List InlineStringCodec

/-- The state before a payload. -/
def DecodeState.empty : DecodeState := ⟨∅, [], []⟩

/-- A decoded node. -/
structure Decoded where
  /-- Its value. -/
  value : FieldValue
  /-- Bytes consumed. -/
  consumed : Nat
  /-- Path of the innermost selected variant. -/
  effectivePath : Option String

/-- Read-only semantic view over one parsed record. -/
structure Semantic.RecordView where
  /-- The runtime context. -/
  context : SemanticContext
  /-- The record. -/
  record : Record
  /-- Its schema. -/
  schema : SchemaRecord
  /-- Whether the plugin uses localized string tables. -/
  localized : Bool
  /-- Codecs recorded per subrecord. -/
  inlineCodecs : Option (List (List InlineStringCodec))
  /-- What is kept of decoded containers. -/
  retention : DecodeRetention

mutual

/-- The size of a node if its layout is fixed. -/
def fixedNodeSize : SchemaNode → Option Nat
  | .primitive _ primitive => fixedPrimitiveSize primitive
  | .struct _ fields => fixedNodeSizes fields 0
  | .array _ element (.fixed count) => do
    let size ← fixedNodeSize element
    usizeChecked (size * count.toNat)
  | .terminated _ _ child => do
    let size ← fixedNodeSize child
    usizeChecked (size + 1)
  | _ => none

/-- The size of consecutive fields of fixed layout. -/
def fixedNodeSizes : List SchemaNode → Nat → Option Nat
  | [], total => some total
  | field :: fields, total => do
    let size ← fixedNodeSize field
    let total ← usizeChecked (total + size)
    fixedNodeSizes fields total

end

/-- The reading of a floating-point node: scaled and rounded. -/
def applyFloatReadSemantics (node : SchemaNode) (value : FieldValue) :
    Except SemanticError FieldValue :=
  match node with
  | .primitive info (.float _ _ scale digits) =>
    match value with
    | .float value => .ok (.float (floatFromRaw value scale digits))
    | _ => .error (.decode info.path "float schema node decoded a non-floating-point value")
  | _ => .ok value

/-- The integer that a decoded value leaves for later expressions. -/
def numericFieldValue : FieldValue → Option Int64
  | .int value | .enumeration value _ => some value
  | .uint value | .flags value _ => i64TryFrom value.toNat
  | .formId value _ => some (Int64.ofNat value.val.toNat)
  | _ => none

/-- The absent member of a struct at a position. -/
def absentMember (field : SchemaNode) (position : Nat) : NamedValue :=
  .mk field.id field.path none field.name ⟨position, position⟩ .absent

/-- Earlier assignments to a path. -/
def pathOccurrence (assignments : List (Option SchemaNode)) (index : Nat) (path : String) : Nat :=
  (assignments.take index).countP (·.any (·.path = path))

namespace Semantic.RecordView

/-- The view of a record under the schema of its signature. -/
def new (context : SemanticContext) (record : Record) (pluginLocalized : Bool) :
    Except SemanticError Semantic.RecordView :=
  match context.registry.get record.header.signature with
  | none => .error (.missingRecordSchema record.header.signature.display)
  | some schema => .ok ⟨context, record, schema, pluginLocalized, none, .full⟩

/-- The view with codecs recorded per subrecord. -/
def newWithInlineCodecs (context : SemanticContext) (record : Record) (pluginLocalized : Bool)
    (codecs : List (List InlineStringCodec)) : Except SemanticError Semantic.RecordView := do
  let view ← new context record pluginLocalized
  .ok { view with inlineCodecs := some codecs }

/-- An expression over a byte string and the values decoded so far. -/
def evaluate (view : Semantic.RecordView) (expression : Expression) (payload : Bytes)
    (fieldValues : FieldValues) : Except SemanticError EvalValue :=
  evaluateExpression expression {
    payload, fieldValues
    formVersion := view.record.header.formVersion
    recordSignature := view.record.header.signature }

/-- Whether the condition of a node holds. -/
def nodeApplies (view : Semantic.RecordView) (node : SchemaNode) (payload : Bytes)
    (fieldValues : FieldValues) : Except SemanticError Bool :=
  match node.condition with
  | none => .ok true
  | some condition => do
    let value ← view.evaluate condition payload fieldValues
    match value with
    | .bool value => .ok value
    | .int _ => .error (.decode node.path "condition did not return a boolean")

/-- What a callback of the decoder may look at. -/
def callbackAccess (view : Semantic.RecordView) (frame : DecodeFrame) (valueScope : Option FieldValue) :
    HandlerInvocationAccess :=
  (HandlerInvocationAccess.readOnlySubrecordWithScope view.record frame.sourceSubrecordIndex
    valueScope).withArrayIndices frame.arrayIndices

/-- The integer that a callback bound to a node returns. -/
def invokeIntegerCallback (view : Semantic.RecordView) (node : SchemaNode) (callbackId : String)
    (payload : Bytes) (frame : DecodeFrame) (phase : HandlerPhase)
    (valueScope : Option FieldValue) : Except SemanticError Int64 :=
  match (view.context.registry.callbacksAt node.path).find? (·.callbackId = callbackId) with
  | none => .error (.handler callbackId s!"schema node {node.path} has no callback binding")
  | some binding => do
    let output ← view.context.handlers.invokeWithRecords binding
      (view.context.handlerRecord view.record) (view.callbackAccess frame valueScope) phase
      (some (.bytes payload)) none
    match output with
    | .integer value => .ok value
    | _ => .error (.handler callbackId "callback returned a non-integer result")

/-- The index of the variant that a selector yields for the bytes at a union. -/
def selectUnionIndex (view : Semantic.RecordView) (node : SchemaNode) (selector : UnionSelector)
    (payload current : Bytes) (fieldValues : FieldValues) (frame : DecodeFrame) :
    Except SemanticError Nat := do
  let selected ← match selector with
    | .expression expression => do
      let value ← view.evaluate expression current fieldValues
      match value with
      | .int value => .ok value
      | .bool _ => .error (.decode node.path "union selector did not return an integer")
    | .callback callbackId =>
      view.invokeIntegerCallback node callbackId payload frame .unionSelection
        (some (.struct frame.siblingValues))
  if selected.toInt < 0 then
    .error (.decode node.path "union selector returned a negative index")
  else .ok selected.toInt.toNat

/-- The element count of an array that an expression or a callback selects. -/
def resolveArrayCount (view : Semantic.RecordView) (node : SchemaNode) (count : ArrayCount)
    (payload : Bytes) (fieldValues : FieldValues) (frame : DecodeFrame) :
    Except SemanticError Nat := do
  let value ← match count with
    | .expression expression => do
      let value ← view.evaluate expression payload fieldValues
      match value with
      | .int value => .ok value
      | .bool _ => .error (.decode node.path "array count expression did not return an integer")
    | .callback callbackId =>
      view.invokeIntegerCallback node callbackId payload frame .arrayCount none
    | _ => .error (.decode node.path "array count is not dynamically selected")
  if value.toInt < 0 then .error (.decode node.path "array count returned a negative value")
  else .ok value.toInt.toNat

/-- Whether a callback takes one more element. -/
def shouldIncludeArrayElement (view : Semantic.RecordView) (node : SchemaNode) (remaining : Bytes)
    (frame : DecodeFrame) : Except SemanticError Bool :=
  if !view.retention.materializes then .ok true
  else
    match (view.context.registry.callbacksAt node.path).find?
        (·.callbackId = "array.should_include") with
    | none => .ok true
    | some binding => do
      let output ← view.context.handlers.invokeWithRecords binding
        (view.context.handlerRecord view.record) (view.callbackAccess frame none)
        .arrayElementInclusion (some (.bytes remaining)) none
      match output with
      | .integer value => .ok (value ≠ 0)
      | _ => .error (.handler binding.callbackId
          "array inclusion callback returned a non-integer result")

/-- The size of the count prefix of an array and its element count; nothing when the elements
take the rest of the payload. -/
def arrayPrefix (view : Semantic.RecordView) (node : SchemaNode) (count : ArrayCount)
    (payload current : Bytes) (fieldValues : FieldValues) (frame : DecodeFrame) :
    Except SemanticError (Nat × Option Nat) :=
  match count with
  | .fixed count => .ok (0, some count.toNat)
  | .prefixed integer terminator => do
    let count ← decodeUnsignedInteger integer current node.path
    let size ← arrayPrefixSize integer.width.toNat terminator current node.path
    .ok (size, some count.toNat)
  | .packedPrefixed square terminator => do
    let (count, width) ← decodePackedUnsigned current node.path
    let count ← arrayCountValue count square node.path
    let size ← arrayPrefixSize width terminator current node.path
    .ok (size, some count)
  | .squaredPrefixed integer terminator => do
    let count ← decodeUnsignedInteger integer current node.path
    let count ← arrayCountValue count true node.path
    let size ← arrayPrefixSize integer.width.toNat terminator current node.path
    .ok (size, some count)
  | .remainder => .ok (0, none)
  | .expression _ | .callback _ => do
    let count ← view.resolveArrayCount node count payload fieldValues frame
    .ok (0, some count)

/-- The codec recorded for a string of the subrecord being decoded. -/
def explicitCodec (view : Semantic.RecordView) (path : String) (frame : DecodeFrame) :
    Option InlineStringCodec := do
  let codecs ← view.inlineCodecs
  let codecs ← codecs[frame.sourceSubrecordIndex]?
  codecs.find? fun codec => codec.path = path && codec.arrayIndices = frame.arrayIndices

/-- A primitive at the front of the bytes left. -/
def decodePrimitiveNode (view : Semantic.RecordView) (path : String) (primitive : PrimitiveType)
    (current : Bytes) (frame : DecodeFrame) (state : DecodeState) :
    Except SemanticError (Decoded × DecodeState) := do
  let consumed ← nodeDataSize primitive current view.localized path
  if current.length < consumed then
    .error (.decode path s!"primitive needs {consumed} bytes, only {current.length} remain")
  else
    let explicitCodec := view.explicitCodec path frame
    let policy := match explicitCodec with
      | some codec => some codec.encoding
      | none => view.context.inlineStringEncoding
    let (value, selected) ← decodePrimitive view.context.codecs primitive (current.take consumed)
      view.localized policy path
    let codecs := match selected.or (explicitCodec.map (·.encoding)) with
      | none => state.codecs
      | some encoding => state.codecs ++ [{
          path, encoding
          arrayIndices := frame.arrayIndices
          heuristic := match explicitCodec with
            | some codec => codec.heuristic
            | none => view.context.inlineStringEncoding.any (·.prefersUtf8) }]
    .ok (⟨value, consumed, none⟩, { state with codecs })

/-- A node with a custom decoder. -/
def decodeCustom (view : Semantic.RecordView) (path decoder : String) (current : Bytes) :
    Except SemanticError Decoded :=
  match view.context.decoders.get decoder with
  | none => .error (.missingDecoder decoder)
  | some custom => do
    let (value, consumed) ← custom.decode current
    if current.length < consumed then
      .error (.decode path
        s!"custom decoder consumed {consumed} bytes, only {current.length} remain")
    else .ok ⟨value, consumed, none⟩

/-- The structural byte behind a terminated value. -/
def decodeTerminator (path : String) (terminator : UInt8) (current : Bytes) (decoded : Decoded) :
    Except SemanticError Decoded :=
  match current[decoded.consumed]? with
  | none => .error (.decode path "terminated value is missing its terminator")
  | some actual =>
    if actual ≠ terminator then .error (.decode path
      s!"expected terminator 0x{hexByte terminator}, got 0x{hexByte actual}")
    else .ok { decoded with consumed := decoded.consumed + 1 }

/-- Normalizers, floating-point reading and numeric tracking of a decoded node. -/
def finishNode (view : Semantic.RecordView) (node : SchemaNode) (decoded : Decoded) (state : DecodeState) :
    Except SemanticError (Decoded × DecodeState) := do
  let normalized ← if view.retention.materializes then
      view.context.applyNormalizers node.path view.record decoded.value
    else .ok decoded.value
  let value ← applyFloatReadSemantics node normalized
  let fieldValues := match (numericFieldValue value).filter fun _ => view.retention.tracksNumeric with
    | some numeric => state.fieldValues.insert node.path numeric
    | none => state.fieldValues
  .ok ({ decoded with value }, { state with fieldValues })

/-- A node whose condition fails is absent; any other is decoded by its body and finished. -/
def guardNode (view : Semantic.RecordView) (payload : Bytes) (node : SchemaNode) (state : DecodeState)
    (body : Except SemanticError (Decoded × DecodeState)) :
    Except SemanticError (Decoded × DecodeState) := do
  let applies ← view.nodeApplies node payload state.fieldValues
  if applies then do
    let (decoded, state) ← body
    view.finishNode node decoded state
  else .ok (⟨.absent, 0, none⟩, state)

/-- One more value of a container, kept only if containers are. -/
def keep {α : Type} (view : Semantic.RecordView) (values : List α) (value : α) : List α :=
  if view.retention.materializes then values ++ [value] else values

/-- Whether an optional field is missing: nothing is left, it does not fit, or an earlier one was
missing. -/
def optionalFieldMissing (field : SchemaNode) (optional suffixAbsent : Bool) (remaining : Bytes) :
    Bool :=
  optional && (suffixAbsent || remaining.isEmpty ||
    (fixedNodeSize field).any (remaining.length < ·))

/-- The loop over the elements of an array, `decode` decoding one of them. With a count there are
that many rounds; without one every round consumes a byte. The first argument bounds the
rounds. -/
def arrayLoop (view : Semantic.RecordView) (node : SchemaNode) (elementPath : String) (current : Bytes)
    (elementCount : Option Nat) (frame : DecodeFrame)
    (decode : Bytes → DecodeFrame → DecodeState → Except SemanticError (Decoded × DecodeState)) :
    Nat → Nat → Nat → List FieldValue → DecodeState →
      Except SemanticError (List FieldValue × Nat × DecodeState)
  | 0, _, cursor, values, state => .ok (values, cursor, state)
  | fuel + 1, decodedCount, cursor, values, state =>
    if elementCount.any (· ≤ decodedCount) then .ok (values, cursor, state)
    else if cursor = current.length ∧ (elementCount.isNone ∨ infoFragmentLimit node) then
      .ok (values, cursor, state)
    else if current.length < cursor then
      .error (.decode node.path "array cursor exceeded payload")
    else do
      let remaining := current.drop cursor
      let included ← view.shouldIncludeArrayElement node remaining frame
      if !included then .ok (values, cursor, state)
      else do
        let (decoded, state) ← decode remaining {
          frame with
          offset := frame.offset + cursor
          arrayIndices := frame.arrayIndices ++ [decodedCount] } state
        if decoded.consumed = 0 ∧ elementCount.isNone then
          .error (.decode elementPath "array element consumed no bytes")
        else if current.length < cursor + decoded.consumed then
          .error (.decode elementPath
            s!"array element needs {decoded.consumed} bytes, only {remaining.length} remain")
        else
          arrayLoop view node elementPath current elementCount frame decode fuel
            (decodedCount + 1) (cursor + decoded.consumed) (view.keep values decoded.value) state

/-- The elements of an array behind its count prefix. -/
def decodeArray (view : Semantic.RecordView) (node element : SchemaNode) (count : ArrayCount)
    (payload current : Bytes) (frame : DecodeFrame) (state : DecodeState)
    (decode : Bytes → DecodeFrame → DecodeState → Except SemanticError (Decoded × DecodeState)) :
    Except SemanticError (Decoded × DecodeState) := do
  let (prefixSize, elementCount) ← view.arrayPrefix node count payload current state.fieldValues
    frame
  if current.length < prefixSize then
    .error (.decode node.path
      s!"array prefix needs {prefixSize} bytes, payload has {current.length}")
  else
    match view.retention.arrayBytes element elementCount (current.length - prefixSize) with
    | some consumed => .ok (⟨.absent, prefixSize + consumed, none⟩, state)
    | none => do
      let (values, cursor, state) ← view.arrayLoop node element.path current elementCount frame
        decode (elementCount.getD (current.length + 1)) 0 prefixSize [] state
      .ok (⟨if view.retention.materializes then .array values else .absent, cursor, none⟩, state)

mutual

/-- A node at the front of the bytes left. -/
def decodeNode (view : Semantic.RecordView) (payload : Bytes) :
    SchemaNode → Bytes → DecodeFrame → DecodeState → Except SemanticError (Decoded × DecodeState)
  | node@(.primitive info primitive), current, frame, state =>
    view.guardNode payload node state
      (view.decodePrimitiveNode info.path primitive current frame state)
  | node@(.struct _ fields), current, frame, state =>
    view.guardNode payload node state do
      let (values, cursor, state) ←
        decodeFields view payload current frame none fields 0 0 false [] state
      .ok (⟨if view.retention.materializes then .struct values else .absent, cursor, none⟩, state)
  | node@(.optionalStruct _ fields optionalFrom), current, frame, state =>
    view.guardNode payload node state do
      let (values, cursor, state) ←
        decodeFields view payload current frame (some optionalFrom.toNat) fields 0 0 false [] state
      .ok (⟨if view.retention.materializes then .struct values else .absent, cursor, none⟩, state)
  | node@(.array _ element count), current, frame, state =>
    view.guardNode payload node state
      (view.decodeArray node element count payload current frame state
        (decodeNode view payload element))
  | node@(.union info selector variants), current, frame, state =>
    view.guardNode payload node state do
      let index ← view.selectUnionIndex node selector payload current state.fieldValues frame
      decodeVariantAt view payload info.path index variants index current frame state
  | node@(.custom info decoder _), current, _, state =>
    view.guardNode payload node state do
      let decoded ← view.decodeCustom info.path decoder current
      .ok (decoded, state)
  | node@(.terminated info terminator child), current, frame, state =>
    view.guardNode payload node state do
      let (decoded, state) ← decodeNode view payload child current frame state
      let decoded ← decodeTerminator info.path terminator current decoded
      .ok (decoded, state)
  | node@(.compressed info _ _), _, _, state =>
    view.guardNode payload node state
      (.error (.decode info.path "compressed nodes require a registered custom decoder"))
  | node@(.reference info target), _, _, state =>
    view.guardNode payload node state
      (.error (.decode info.path s!"unresolved schema reference {target}"))
  | node, _, _, state =>
    view.guardNode payload node state
      (.error (.decode node.path "container node cannot decode a payload directly"))

/-- The fields of a struct from a position on: their values, the end and the state. -/
def decodeFields (view : Semantic.RecordView) (payload current : Bytes) (frame : DecodeFrame)
    (optionalFrom : Option Nat) :
    List SchemaNode → Nat → Nat → Bool → List NamedValue → DecodeState →
      Except SemanticError (List NamedValue × Nat × DecodeState)
  | [], _, cursor, _, values, state => .ok (values, cursor, state)
  | field :: fields, index, cursor, suffixAbsent, values, state => do
    let applies ← view.nodeApplies field payload state.fieldValues
    if !applies then
      decodeFields view payload current frame optionalFrom fields (index + 1) cursor suffixAbsent
        (view.keep values (absentMember field (frame.offset + cursor))) state
    else if current.length < cursor then
      .error (.decode field.path "struct cursor exceeded payload")
    else
      let remaining := current.drop cursor
      if optionalFieldMissing field (optionalFrom.any (· ≤ index)) suffixAbsent remaining then
        decodeFields view payload current frame optionalFrom fields (index + 1) cursor true
          (view.keep values (absentMember field (frame.offset + cursor))) state
      else do
        let (decoded, state) ← decodeNode view payload field remaining {
          frame with
          offset := frame.offset + cursor
          siblingValues := values } state
        decodeFields view payload current frame optionalFrom fields (index + 1)
          (cursor + decoded.consumed) suffixAbsent
          (view.keep values (.mk field.id field.path decoded.effectivePath field.name
            ⟨frame.offset + cursor, frame.offset + cursor + decoded.consumed⟩ decoded.value))
          state

/-- The variant of a union at a position. -/
def decodeVariantAt (view : Semantic.RecordView) (payload : Bytes) (unionPath : String) (index : Nat) :
    List SchemaNode → Nat → Bytes → DecodeFrame → DecodeState →
      Except SemanticError (Decoded × DecodeState)
  | [], _, _, _, _ => .error (.decode unionPath s!"union variant {index} does not exist")
  | variant :: _, 0, current, frame, state => do
    let (decoded, state) ← decodeNode view payload variant current frame state
    .ok ({ decoded with effectivePath := some (decoded.effectivePath.getD variant.path) },
      { state with selections :=
          state.selections ++ [⟨unionPath, frame.arrayIndices, variant.path⟩] })
  | _ :: variants, position + 1, current, frame, state =>
    decodeVariantAt view payload unionPath index variants position current frame state

end

/-- Whether a built-in operation is bound to a path. -/
def usesHandler (view : Semantic.RecordView) (path handler : String) : Bool :=
  (view.context.registry.callbacksAt path).any fun binding =>
    match binding.implementation with
    | .builtIn operation => operation.id = handler
    | _ => false

/-- A model information cache. -/
def isModelInfoPayload (view : Semantic.RecordView) (subrecord payload : SchemaNode) : Bool :=
  view.usesHandler subrecord.path "conflict.model_info_form_version" &&
    match payload with
    | .union _ _ variants =>
      variants.any fun variant => view.usesHandler variant.path "edit.model_info_counts"
    | _ => false

/-- The whole payload of an assigned subrecord: every byte must be consumed. -/
def decodePayload (view : Semantic.RecordView) (node payload : SchemaNode) (subrecord : WritableSubRecord)
    (index : Nat) : Except SemanticError (Decoded × DecodeState) := do
  let data := subrecord.data
  let fixedTerminator := fixedStringTerminator payload data
  let decodeData := if fixedTerminator then data.dropLast else data
  let (decoded, state) ←
    if data.isEmpty && (view.isModelInfoPayload node payload ||
        emptyUnusedFormId view.record.header.signature subrecord.signature payload) then
      .ok (⟨.absent, 0, none⟩, .empty)
    else decodeNode view decodeData payload decodeData ⟨0, index, [], []⟩ .empty
  let consumed := if fixedTerminator && decoded.consumed = decodeData.length then
      decoded.consumed + 1
    else decoded.consumed
  if consumed ≠ data.length then
    .error (.decode payload.path s!"{data.length - consumed} payload bytes were not consumed")
  else .ok (decoded, state)

/-- The payload node that applies to the bytes of a subrecord. -/
def payloadNode (view : Semantic.RecordView) (subrecord : WritableSubRecord) (payload : SchemaNode) :
    SchemaNode :=
  (weaponCriticalData view.record.header.signature subrecord.signature payload
    subrecord.data.length).getD payload

/-- The field of an assigned subrecord. -/
def assignedField (view : Semantic.RecordView) (grammar : GrammarMatch) (discardUnobserved : Bool)
    (index : Nat) (subrecord : WritableSubRecord) (node payload : SchemaNode) :
    Except SemanticError Field := do
  let payload := view.payloadNode subrecord payload
  let decoder := { view with
    retention := if discardUnobserved then .forPayload view.context.registry payload else .full }
  let (decoded, state) ← decoder.decodePayload node payload subrecord index
  .ok {
    subrecordIndex := index
    repeatScopes := grammar.repeatScopes.getD index []
    nodeId := node.id
    path := node.path
    effectivePath := decoded.effectivePath
    valueSelections := state.selections
    inlineStringCodecs := state.codecs
    name := node.name
    subrecordSignature := subrecord.signature
    occurrence := pathOccurrence grammar.assignments index node.path
    span := ⟨0, subrecord.data.length⟩
    origin := match payload with
      | .custom _ _ _ => .customDecoder
      | _ => .schema
    value := decoded.value }

/-- The field of a subrecord that the grammar does not assign. -/
def rawField (grammar : GrammarMatch) (subrecords : List WritableSubRecord) (index : Nat)
    (subrecord : WritableSubRecord) : Field :=
  let declared := grammar.declaredSignatures.contains subrecord.signature
  let occurrence := (subrecords.take index).countP (·.signature = subrecord.signature)
  let provenance := if declared then "unmatched" else "unknown"
  { subrecordIndex := index
    repeatScopes := grammar.repeatScopes.getD index []
    nodeId := 0xFFFFFFFF
    path := s!"{provenance}.{subrecord.signature.display}.{occurrence}"
    effectivePath := none
    valueSelections := []
    inlineStringCodecs := []
    name := if declared then "Out-of-order known subrecord" else "Unknown subrecord"
    subrecordSignature := subrecord.signature
    occurrence
    span := ⟨0, subrecord.data.length⟩
    origin := if declared then .unmatchedKnownSubrecord else .unknownSubrecord
    value := .bytes subrecord.data }

/-- The field of a subrecord. Only subrecord nodes are ever assigned. -/
def fieldAt (view : Semantic.RecordView) (grammar : GrammarMatch) (discardUnobserved : Bool)
    (subrecords : List WritableSubRecord) (entry : WritableSubRecord × Nat) :
    Except SemanticError Field :=
  match grammar.assignments.getD entry.2 none with
  | some node@(.subrecord _ _ payload) =>
    view.assignedField grammar discardUnobserved entry.2 entry.1 node payload
  | some node => .error (.decode node.path "definition was filtered to subrecord nodes")
  | none => .ok (rawField grammar subrecords entry.2 entry.1)

/-- The fields of a record, in the order of its subrecords. -/
def fieldsImpl (inflate : Inflate) (view : Semantic.RecordView) (discardUnobserved : Bool) :
    Except SemanticError (List Field) := do
  let subrecords ← (view.record.subrecords inflate).mapError SemanticError.core
  let subrecords := subrecords.map fun subrecord =>
    (⟨subrecord.signature, subrecord.asBytes⟩ : WritableSubRecord)
  let grammar ← interpretInputs view.schema.root view.record.header.signature
    view.record.header.formVersion subrecords
  subrecords.zipIdx.mapM (view.fieldAt grammar discardUnobserved subrecords)

/-- The decoded fields of a record. -/
def fields (inflate : Inflate) (view : Semantic.RecordView) : Except SemanticError (List Field) :=
  view.fieldsImpl inflate false

/-- The same decoding checks without retaining unobserved containers. -/
def checkDecodable (inflate : Inflate) (view : Semantic.RecordView) : Except SemanticError Unit :=
  (view.fieldsImpl inflate true).map fun _ => ()

end Semantic.RecordView

end Bethkit
