import Bethkit.Core.Cache
import Bethkit.Core.Strings
import Bethkit.Ffi.StringCursor
import Bethkit.Semantic.Address

/-!
# Snapshots of decoded records

The foreign interface shows decoded values as a tagged JSON document and takes edited values back in
the same form. A document is either full or a projection onto the translatable strings, which leaves
out what the schema says cannot contain any. `serde_json::Value` is a type of its own here: a number
is an integer or a floating-point number.
-/

namespace Bethkit

open Lib

/-- `serde_json::Value`. -/
inductive Json where
  /-- `null`. -/
  | null
  /-- A boolean. -/
  | bool (value : Bool)
  /-- A number without a fraction, signed or unsigned. -/
  | int (value : Int)
  /-- A finite floating-point number. -/
  | float (value : Float)
  /-- A string. -/
  | string (text : String)
  /-- An array. -/
  | array (values : List Json)
  /-- An object. -/
  | object (members : List (String × Json))

namespace Json

/-- `value[key]`: `null` where there is no such member. -/
def index (json : Json) (key : String) : Json :=
  match json with
  | .object members => ((members.find? (·.1 = key)).map (·.2)).getD .null
  | _ => .null

/-- `value[key] = member` on an object. -/
def set (json : Json) (key : String) (member : Json) : Json :=
  match json with
  | .object members => .object (members.filter (·.1 ≠ key) ++ [(key, member)])
  | other => other

/-- `as_str`. -/
def asStr : Json → Option String
  | .string text => some text
  | _ => none

/-- `as_bool`. -/
def asBool : Json → Option Bool
  | .bool value => some value
  | _ => none

/-- `as_array`. -/
def asArray : Json → Option (List Json)
  | .array values => some values
  | _ => none

/-- `as_i64`. -/
def asI64 : Json → Option Int64
  | .int value => if -2 ^ 63 ≤ value ∧ value < 2 ^ 63 then some (Int64.ofInt value) else none
  | _ => none

/-- `as_u64`. -/
def asU64 : Json → Option UInt64
  | .int value => if 0 ≤ value ∧ value < 2 ^ 64 then some (UInt64.ofNat value.toNat) else none
  | _ => none

/-- `as_f64`. -/
def asF64 : Json → Option Float
  | .int value => some (Float.ofInt value)
  | .float value => some value
  | _ => none

mutual

/-- How deep a document is nested. -/
def depth : Json → Nat
  | .array values => depthAll values + 1
  | .object members => depthMembers members + 1
  | _ => 0

/-- The depth of the deepest item. -/
def depthAll : List Json → Nat
  | [] => 0
  | value :: values => max (depth value) (depthAll values)

/-- The depth of the deepest member. -/
def depthMembers : List (String × Json) → Nat
  | [] => 0
  | (_, value) :: members => max (depth value) (depthMembers members)

end

/-- A string that may be missing. -/
def ofOption (text : Option String) : Json := (text.map Json.string).getD .null

/-- A number of bytes or items. -/
def ofNat (value : Nat) : Json := .int value

/-- The bytes of a signature. -/
def ofSignature (signature : Signature) : Json :=
  .array (signature.bytes.val.map fun byte => ofNat byte.toNat)

/-- One step of an address. -/
def ofStep : ValueStep → Json
  | .field index path =>
    .object [("kind", .string "field"), ("index", ofNat index), ("path", .string path)]
  | .index index => .object [("kind", .string "index"), ("index", ofNat index)]

/-- An address. -/
def ofAddress (address : FieldAddress) : Json :=
  .object [
    ("schema_payload_sha256", .string address.schemaPayloadSha256),
    ("structure_hash", .string address.structureHash),
    ("record_signature", ofSignature address.recordSignature),
    ("form_id", ofNat address.formId.val.toNat),
    ("subrecord_index", ofNat address.subrecordIndex),
    ("subrecord_path", .string address.subrecordPath),
    ("repeat_scopes", .array (address.repeatScopes.map fun scope =>
      .object [("path", .string scope.path), ("occurrence", ofNat scope.occurrence)])),
    ("value_steps", .array (address.valueSteps.map ofStep))]

/-- The span of a value. -/
def ofSpan (span : ByteSpan) : Json :=
  .object [("start", ofNat span.start), ("end", ofNat span.stop)]

end Json

/-- `resolve_string_kind`: the string file that holds the text of a subrecord. -/
def resolveStringKind (recordSig subrecordSig : Signature) : StringFileKind :=
  let named (signature : Signature) (name : List UInt8) : Bool := signature.bytes.val = name
  let record := named recordSig
  let subrecord := named subrecordSig
  if subrecord [0x44, 0x45, 0x53, 0x43] then .dlStrings
  else if (record [0x42, 0x4F, 0x4F, 0x4B] && subrecord [0x43, 0x4E, 0x41, 0x4D]) ||
      (record [0x51, 0x55, 0x53, 0x54] && subrecord [0x43, 0x4E, 0x41, 0x4D]) ||
      (record [0x4D, 0x47, 0x45, 0x46] && subrecord [0x44, 0x4E, 0x41, 0x4D]) ||
      (record [0x4D, 0x45, 0x53, 0x47] && subrecord [0x49, 0x54, 0x58, 0x54]) then .dlStrings
  else if record [0x49, 0x4E, 0x46, 0x4F] &&
      (subrecord [0x4E, 0x41, 0x4D, 0x31] || subrecord [0x52, 0x4E, 0x41, 0x4D]) then .ilStrings
  else .strings

/-- The name of a string file in a snapshot. -/
def StringFileKind.tableName : StringFileKind → String
  | .strings => "strings"
  | .dlStrings => "dl_strings"
  | .ilStrings => "il_strings"

/-- The name of the provenance of a field. -/
def originName : FieldOrigin → String
  | .schema => "schema"
  | .unknownSubrecord => "unknown_subrecord"
  | .unmatchedKnownSubrecord => "unmatched_known_subrecord"
  | .customDecoder => "custom_decoder"

/-- What the projection of one field reads beside its value. -/
structure WireContext where
  /-- The registry of the package. -/
  registry : SchemaRegistry
  /-- The union selections of the field. -/
  selections : List ValueSelection
  /-- The inline codecs of the field. -/
  inlineStringCodecs : List InlineStringCodec
  /-- Signature of the subrecord. -/
  subrecordSignature : Signature
  /-- Whether the plugin is localized. -/
  localized : Bool
  /-- Name of the provenance. -/
  origin : String

/-- The array positions in an address. -/
def FieldAddress.arrayIndices (address : FieldAddress) : List Nat :=
  address.valueSteps.filterMap fun step =>
    match step with
    | .index index => some index
    | .field _ _ => none

/-- The address of what one more step selects. -/
def FieldAddress.push (address : FieldAddress) (step : ValueStep) : FieldAddress :=
  { address with valueSteps := address.valueSteps ++ [step] }

/-- A translatable string. -/
def isTranslatable : SchemaNode → Bool
  | .primitive _ (.string string) => string.localized || string.encoding = "localized"
  | _ => false

namespace SchemaRegistry

/-- The loop of `payload_node`: wrappers and references are followed, so many times at most. -/
def payloadNodeLoop (registry : SchemaRegistry) (signature : Signature) :
    Nat → SchemaNode → SchemaNode
  | 0, node => node
  | fuel + 1, node =>
    match node with
    | .subrecord _ _ payload => payloadNodeLoop registry signature fuel payload
    | .compressed _ _ child | .terminated _ _ child =>
      payloadNodeLoop registry signature fuel child
    | .reference _ target =>
      match registry.getNode signature target with
      | none => node
      | some target => payloadNodeLoop registry signature fuel target
    | _ => node

/-- `payload_node`. -/
def payloadNode (registry : SchemaRegistry) (signature : Signature) (node : SchemaNode) :
    SchemaNode :=
  payloadNodeLoop registry signature 128 node

/-- `can_contain_strings`; the first number counts the levels down that are left. -/
def canContainStrings (registry : SchemaRegistry) (signature : Signature) :
    Nat → SchemaNode → Bool
  | 0, _ => true
  | left + 1, node =>
    match node with
    | .primitive _ _ => isTranslatable node
    | .struct _ children | .optionalStruct _ children _ | .sequence _ children
    | .unordered _ children | .union _ _ children | .choice _ children
    | .selectedChoice _ _ children => children.any (canContainStrings registry signature left)
    | .array _ child _ | .repeat _ _ _ child | .subrecord _ _ child | .compressed _ _ child
    | .terminated _ _ child => canContainStrings registry signature left child
    | .reference _ target =>
      match registry.getNode signature target with
      | none => true
      | some target => canContainStrings registry signature left target
    | .custom _ _ _ => true

/-- `can_contain_strings` of a whole tree: 128 levels below its root. -/
def containsStrings (registry : SchemaRegistry) (signature : Signature) (node : SchemaNode) : Bool :=
  registry.canContainStrings signature 129 node

end SchemaRegistry

namespace WireContext

/-- The loop of `selected_payload_node`: the selected variant of a union takes its place. -/
def selectedLoop (context : WireContext) (address : FieldAddress) : Nat → SchemaNode → SchemaNode
  | 0, node => node
  | fuel + 1, node =>
    let signature := address.recordSignature
    match context.registry.payloadNode signature node with
    | node@(.union _ _ _) =>
      let selection := context.selections.find? fun selection =>
        selection.schemaPath = node.path && selection.arrayIndices = address.arrayIndices
      match selection.bind fun selection =>
          context.registry.getNode signature selection.effectivePath with
      | none => node
      | some selected => selectedLoop context address fuel selected
    | node => node

/-- `selected_payload_node`. -/
def selectedPayloadNode (context : WireContext) (address : FieldAddress) (node : SchemaNode) :
    SchemaNode :=
  context.selectedLoop address 128 node

/-- The codec recorded for the string at an address. -/
def selectedInlineCodec (context : WireContext) (address : FieldAddress) (path : String) :
    Option InlineStringCodec :=
  context.inlineStringCodecs.find? fun codec =>
    codec.path = path && codec.arrayIndices = address.arrayIndices

/-- The node of a struct member. -/
def memberNode (context : WireContext) (address : FieldAddress) (path : String)
    (effectivePath : Option String) : Option SchemaNode :=
  context.registry.getNode address.recordSignature (effectivePath.getD path)

/-- The node of the elements of an array. -/
def elementNode : SchemaNode → Option SchemaNode
  | .array _ element _ => some element
  | _ => none

/-- The string table of a translatable string. -/
def stringTable (context : WireContext) (address : FieldAddress) (translatable : Bool) : Json :=
  if translatable && context.localized then
    .string (resolveStringKind address.recordSignature context.subrecordSignature).tableName
  else .null

/-- The warning at a text whose bytes were kept. -/
def decodingWarning (context : WireContext) (address : FieldAddress) (node : Option SchemaNode)
    (output : Json) : Json :=
  let output := output.set "decoding_warning" (.string ("Uncertain or damaged inline text; " ++
    "original bytes preserved; select an explicit codec"))
  match node.bind fun node => context.selectedInlineCodec address node.path with
  | some ⟨_, _, .preserveExplicit codec, _⟩ => output.set "preview_encoding" (.string codec)
  | _ => output

/-- The encoding of an inline text. -/
def inlineEncoding (context : WireContext) (address : FieldAddress) (node : Option SchemaNode)
    (output : Json) : Json :=
  match node with
  | some (.primitive info (.string string)) =>
    let selected := context.selectedInlineCodec address info.path
    let encoding := match selected with
      | some codec => codec.encoding.schemaName
      | none => if string.encoding = "localized" then "windows_1252" else string.encoding
    let source := match selected with
      | some codec => if codec.heuristic then "heuristic" else "forced"
      | none => "schema"
    (output.set "inline_encoding" (.string encoding)).set "encoding_source" (.string source)
  | _ => output

/-- What `wire_value` says about every value. -/
def describe (context : WireContext) (value : FieldValue) (address : FieldAddress)
    (node : Option SchemaNode) (output : Json) : Json :=
  let translatable := node.any isTranslatable
  let output := (((output.set "address" (.ofAddress address)).set "schema_path"
    (.ofOption (node.map (·.path)))).set "translatable" (.bool translatable)).set "string_table"
    (context.stringTable address translatable)
  if translatable && !context.localized then
    match value with
    | .bytes _ => context.decodingWarning address node output
    | .string _ => context.inlineEncoding address node output
    | _ => output
  else output

/-- A floating-point number; what is not finite is named. -/
def wireFloat (value : Float) : Json :=
  if value.isFinite then .float value
  else if value.isNaN then .string "NaN"
  else if 0 < value then .string "Infinity"
  else .string "-Infinity"

/-- The tagged form of a value without members. -/
def wireScalar : FieldValue → Json
  | .int value => .object [("kind", .string "int"), ("value", .int value.toInt)]
  | .uint value => .object [("kind", .string "uint"), ("value", .ofNat value.toNat)]
  | .float value => .object [("kind", .string "float"), ("value", wireFloat value)]
  | .string value => .object [("kind", .string "string"), ("value", .string value)]
  | .formId value targets => .object [("kind", .string "form_id"),
      ("value", .ofNat value.val.toNat),
      ("allowed_signatures", .array (targets.map Json.ofSignature))]
  | .bytes value => .object [("kind", .string "bytes"),
      ("value", .array (value.map fun byte => .ofNat byte.toNat))]
  | .enumeration value name => .object [("kind", .string "enum"), ("value", .int value.toInt),
      ("names", .array (name.toList.map Json.string))]
  | .flags value active => .object [("kind", .string "flags"), ("value", .ofNat value.toNat),
      ("names", .array (active.map Json.string))]
  | .absent | .struct _ | .array _ => .object [("kind", .string "absent"), ("value", .null)]

/-- The tagged form of a struct. -/
def wireStruct (fields : List Json) : Json :=
  .object [("kind", .string "struct"), ("fields", .array fields)]

/-- The tagged form of an array. -/
def wireArray (items : List Json) : Json :=
  .object [("kind", .string "array"), ("items", .array items)]

/-- A struct member around its value. -/
def wireMember (context : WireContext) (nodeId : SchemaNodeId) (path : String)
    (effectivePath : Option String) (name : String) (span : ByteSpan) (address : FieldAddress)
    (value : Json) : Json :=
  .object [("name", .string name), ("node_id", .ofNat nodeId.toNat), ("path", .string path),
    ("effective_path", .ofOption effectivePath), ("span", .ofSpan span),
    ("origin", .string context.origin), ("address", .ofAddress address), ("value", value)]

mutual

/-- `wire_value`. -/
def wireValue (context : WireContext) (address : FieldAddress) (node : Option SchemaNode) :
    FieldValue → Json
  | .struct fields =>
    let node := node.map (context.selectedPayloadNode address)
    context.describe (.struct fields) address node (wireStruct (wireFields context address 0 fields))
  | .array values =>
    let node := node.map (context.selectedPayloadNode address)
    context.describe (.array values) address node
      (wireArray (wireItems context address (node.bind elementNode) 0 values))
  | value =>
    let node := node.map (context.selectedPayloadNode address)
    context.describe value address node (wireScalar value)

/-- The members of a struct from a position on. -/
def wireFields (context : WireContext) (address : FieldAddress) : Nat → List NamedValue → List Json
  | _, [] => []
  | index, .mk nodeId path effectivePath name span value :: fields =>
    let member := address.push (.field index path)
    context.wireMember nodeId path effectivePath name span member
        (wireValue context member (context.memberNode address path effectivePath) value) ::
      wireFields context address (index + 1) fields

/-- The items of an array from a position on. -/
def wireItems (context : WireContext) (address : FieldAddress) (element : Option SchemaNode) :
    Nat → List FieldValue → List Json
  | _, [] => []
  | index, value :: values =>
    wireValue context (address.push (.index index)) element value ::
      wireItems context address element (index + 1) values

end

/-- What `wire_strings` says about a container that it keeps. -/
def describeStrings (address : FieldAddress) (node : Option SchemaNode) (output : Json) : Json :=
  (((output.set "address" (.ofAddress address)).set "schema_path"
    (.ofOption (node.map (·.path)))).set "translatable" (.bool false)).set "string_table" .null

/-- The schema says that no string is below a node. -/
def textFree (context : WireContext) (address : FieldAddress) (node : Option SchemaNode) : Bool :=
  node.any fun node => !context.registry.containsStrings address.recordSignature node

mutual

/-- `wire_strings`. -/
def wireStrings (context : WireContext) (address : FieldAddress) (node : Option SchemaNode) :
    FieldValue → Option Json
  | .struct fields =>
    let node := node.map (context.selectedPayloadNode address)
    if context.textFree address node then none
    else
      let selected := wireStringFields context address 0 fields
      if selected.isEmpty then none else some (describeStrings address node (wireStruct selected))
  | .array values =>
    let node := node.map (context.selectedPayloadNode address)
    if context.textFree address node then none
    else
      let items := wireStringItems context address (node.bind elementNode) 0 values
      if items.isEmpty then none else some (describeStrings address node (wireArray items))
  | value =>
    let node := node.map (context.selectedPayloadNode address)
    if context.textFree address node then none
    else if node.any isTranslatable then some (wireValue context address node value)
    else none

/-- The members of a struct with strings below them, from a position on. -/
def wireStringFields (context : WireContext) (address : FieldAddress) :
    Nat → List NamedValue → List Json
  | _, [] => []
  | index, .mk nodeId path effectivePath name span value :: fields =>
    let member := address.push (.field index path)
    match wireStrings context member (context.memberNode address path effectivePath) value with
    | none => wireStringFields context address (index + 1) fields
    | some value => context.wireMember nodeId path effectivePath name span member value ::
        wireStringFields context address (index + 1) fields

/-- The items of an array with strings below them, from a position on. -/
def wireStringItems (context : WireContext) (address : FieldAddress) (element : Option SchemaNode) :
    Nat → List FieldValue → List Json
  | _, [] => []
  | index, value :: values =>
    match wireStrings context (address.push (.index index)) element value with
    | none => wireStringItems context address element (index + 1) values
    | some value => value :: wireStringItems context address element (index + 1) values

end

end WireContext

/-- The loop of `flatten_strings`, bounded by the nesting of the document. -/
def flattenLoop : Nat → Json → List Json
  | 0, _ => []
  | fuel + 1, value =>
    if (value.index "kind").asStr = some "struct" then
      (((value.index "fields").asArray).getD []).flatMap fun field =>
        flattenLoop fuel (field.index "value")
    else if (value.index "kind").asStr = some "array" then
      (((value.index "items").asArray).getD []).flatMap (flattenLoop fuel)
    else if (value.index "kind").asStr = some "absent" then []
    else if (value.index "translatable").asBool = some true then [value]
    else []

/-- `flatten_strings`: the translatable leaves of a document. -/
def flattenStrings (value : Json) : List Json := flattenLoop (value.depth + 1) value

/-- The address of a field. -/
def Field.address (schemaHash structureHash : String) (signature : Signature) (formId : FormId)
    (field : Field) : FieldAddress where
  schemaPayloadSha256 := schemaHash
  structureHash := structureHash
  recordSignature := signature
  formId := formId
  subrecordIndex := field.subrecordIndex
  subrecordPath := field.path
  repeatScopes := field.repeatScopes
  valueSteps := []

/-- The context of a field. -/
def Field.wireContext (registry : SchemaRegistry) (localized : Bool) (field : Field) :
    WireContext where
  registry := registry
  selections := field.valueSelections
  inlineStringCodecs := field.inlineStringCodecs
  subrecordSignature := field.subrecordSignature
  localized := localized
  origin := originName field.origin

/-- The node of a field. -/
def Field.wireNode (registry : SchemaRegistry) (signature : Signature) (field : Field) :
    Option SchemaNode :=
  registry.getNode signature (field.effectivePath.getD field.path)

/-- A field of a snapshot around its value. -/
def wireField (field : Field) (address : FieldAddress) (value : Json) : Json :=
  .object [("name", .string field.name), ("node_id", .ofNat field.nodeId.toNat),
    ("path", .string field.path), ("effective_path", .ofOption field.effectivePath),
    ("span", .ofSpan field.span), ("origin", .string (originName field.origin)),
    ("address", .ofAddress address), ("value", value)]

/-- `snapshot_document`: the full document of a record, or the one of its strings. -/
def snapshotDocument (sha256 : Sha256) (registry : SchemaRegistry) (fields : List Field)
    (signature : Signature) (formId : FormId) (localized stringsOnly : Bool) : Json :=
  let schemaHash := schemaHashHex registry.package.payloadSha256
  let digest := structureHash sha256 fields
  let shown := fields.filterMap fun field =>
    let address := field.address schemaHash digest signature formId
    let node := field.wireNode registry signature
    let context := field.wireContext registry localized
    let value := if stringsOnly then context.wireStrings address node field.value
      else some (context.wireValue address node field.value)
    value.map (wireField field address)
  .object [("format_version", .int 1), ("schema_payload_sha256", .string schemaHash),
    ("structure_hash", .string digest), ("record_signature", .string signature.display),
    ("form_id", .ofNat formId.val.toNat), ("fields", .array shown),
    ("projection", .string (if stringsOnly then "strings" else "full"))]

/-- The row of a string with the identity of its record. -/
def withRecordContext (editorId : Option (Option String)) (field : Field) (row : Json) : Json :=
  match editorId with
  | none => row
  | some editorId => row.set "record_context" (.object [
      ("subrecord_signature", .ofSignature field.subrecordSignature),
      ("editor_id", .ofOption editorId)])

/-- The rows of the decoded fields of a record. -/
def fieldRows (sha256 : Sha256) (inflate : Inflate) (registry : SchemaRegistry) (record : Record)
    (localized : Bool) (fields : List Field) : List Json :=
  let schemaHash := schemaHashHex registry.package.payloadSha256
  let digest := structureHash sha256 fields
  let editorId := (record.editorId inflate).toOption
  fields.flatMap fun field =>
    let address := field.address schemaHash digest record.header.signature record.header.formId
    let node := field.wireNode registry record.header.signature
    match (field.wireContext registry localized).wireStrings address node field.value with
    | none => []
    | some value => (flattenStrings value).map (withRecordContext editorId field)

/-- `string_rows`: the translatable strings of a record. -/
def stringRows (sha256 : Sha256) (inflate : Inflate) (context : SemanticContext) (record : Record)
    (localized decodeOnly : Bool) : Except SemanticError (List Json) := do
  let view ← Semantic.RecordView.new context record localized
  if decodeOnly then do
    view.checkDecodable inflate
    .ok []
  else do
    let fields ← view.fields inflate
    .ok (fieldRows sha256 inflate context.registry record localized fields)

/-- An input that the semantic interface refuses. -/
def inputError {α : Type} (message : String) : Except FfiError α :=
  .error (.invalidArgument "semantic JSON value" message)

/-- The value of an option, or an error. -/
def expectInput {α : Type} (message : String) : Option α → Except FfiError α
  | some value => .ok value
  | none => inputError message

/-- `parse_owned_value`; the first number counts the levels down that are left. -/
def parseOwnedLoop : Nat → Json → Except FfiError OwnedFieldValue
  | 0, _ => inputError "value nesting exceeds 128 levels"
  | left + 1, input => do
    let scalar := input.index "value"
    let kind ← expectInput "value requires kind" (input.index "kind").asStr
    if kind = "int" ∨ kind = "enum" then do
      let value ← expectInput "expected i64" scalar.asI64
      .ok (.int value)
    else if kind = "uint" ∨ kind = "flags" then do
      let value ← expectInput "expected u64" scalar.asU64
      .ok (.uint value)
    else if kind = "float" then
      if scalar.asStr = some "NaN" then .ok (.float (0.0 / 0.0))
      else if scalar.asStr = some "Infinity" then .ok (.float (1.0 / 0.0))
      else if scalar.asStr = some "-Infinity" then .ok (.float (-1.0 / 0.0))
      else do
        let value ← expectInput "expected float" scalar.asF64
        .ok (.float value)
    else if kind = "string" then do
      let text ← expectInput "expected string" scalar.asStr
      .ok (.string text)
    else if kind = "form_id" then do
      let value ← expectInput "expected u32 FormID" scalar.asU64
      if value.toNat < 2 ^ 32 then .ok (.formId ⟨UInt32.ofNat value.toNat⟩)
      else inputError "FormID exceeds u32"
    else if kind = "bytes" then do
      let values ← expectInput "expected byte array" scalar.asArray
      let bytes ← values.mapM fun value => expectInput "byte outside 0..255"
        (value.asU64.bind fun value =>
          if value.toNat < 256 then some (UInt8.ofNat value.toNat) else none)
      .ok (.bytes bytes)
    else if kind = "struct" then do
      let fields ← expectInput "expected struct fields" (input.index "fields").asArray
      let values ← fields.mapM fun field => parseOwnedLoop left (field.index "value")
      .ok (.struct values)
    else if kind = "array" then do
      let items ← expectInput "expected array items" (input.index "items").asArray
      let values ← items.mapM (parseOwnedLoop left)
      .ok (.array values)
    else if kind = "absent" then .ok .absent
    else inputError "unknown value kind"

/-- `parse_owned_value` of a whole document: 128 levels below it. -/
def parseOwnedValue (input : Json) : Except FfiError OwnedFieldValue := parseOwnedLoop 129 input

/-- The fields that a node declares. -/
def SchemaNode.structFields : SchemaNode → Option (List SchemaNode)
  | .struct _ fields | .optionalStruct _ fields _ => some fields
  | _ => none

/-- A struct member that is not the declared one. -/
def wrongMember (field : Json) (definition : SchemaNode) : Bool :=
  let path := (field.index "path").asStr
  let name := (field.index "name").asStr
  path.any (· ≠ definition.path) || name.any (· ≠ definition.name) ||
    (path.isNone && name.isNone)

/-- The node of a struct member of a document. -/
def documentMemberNode (registry : SchemaRegistry) (signature : Signature) (field : Json)
    (definition : Option SchemaNode) : Option SchemaNode :=
  ((field.index "effective_path").asStr.bind (registry.getNode signature)).or definition

/-- The loop of `validate_struct_names`, bounded by the nesting of the document. -/
def validateNamesLoop (registry : SchemaRegistry) (signature : Signature) :
    Nat → Option SchemaNode → Json → Except FfiError Unit
  | 0, _, _ => .ok ()
  | fuel + 1, node, input => do
    let node := node.map (registry.payloadNode signature)
    if (input.index "kind").asStr = some "struct" then do
      let fields ← expectInput "expected struct fields" (input.index "fields").asArray
      let definitions := node.bind SchemaNode.structFields
      if definitions.any (·.length ≠ fields.length) then
        inputError "struct field count does not match schema; use absent for optional members"
      else
        fields.zipIdx.forM fun entry => do
          let definition := definitions.bind (·[entry.2]?)
          if definition.any (wrongMember entry.1) then
            inputError "struct field identity/order does not match schema"
          else
            validateNamesLoop registry signature fuel
              (documentMemberNode registry signature entry.1 definition) (entry.1.index "value")
    else if (input.index "kind").asStr = some "array" then do
      let items ← expectInput "expected array items" (input.index "items").asArray
      items.forM (validateNamesLoop registry signature fuel (node.bind WireContext.elementNode))
    else .ok ()

/-- `validate_struct_names`. -/
def validateStructNames (registry : SchemaRegistry) (signature : Signature)
    (node : Option SchemaNode) (input : Json) : Except FfiError Unit :=
  validateNamesLoop registry signature (input.depth + 1) node input

end Bethkit
