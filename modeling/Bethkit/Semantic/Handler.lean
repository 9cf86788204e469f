import Bethkit.Core.Writer
import Bethkit.Semantic.Text

/-!
# Semantic callbacks and the runtime context

A handler implements one callback role; packages bind it to schema paths, and anyone may register
one. It reads the record, never changes it, and asks for edits by returning mutations. Handlers,
custom decoders and text codecs are the open parts of a context: the model takes them as
functions.
-/

namespace Bethkit

open Lib

/-- A snapshot record of a writable one; it owns the subrecords and has no source range. -/
def Record.fromWritable (record : WritableRecord) : Record where
  header := {
    signature := record.signature
    dataSize := record.subrecords.foldl (fun size subrecord =>
      let headerSize := if 65535 < subrecord.data.length then 16 else 6
      UInt32.ofNat (min (size.toNat + min (headerSize + subrecord.data.length) (2 ^ 32 - 1))
        (2 ^ 32 - 1))) 0
    flags := record.flags
    formId := record.formId
    versionControl := 0
    formVersion := record.formVersion
    unknown := 0 }
  sourceRange := none
  data := .raw []
  parsed := some (record.subrecords.map fun subrecord =>
    ⟨subrecord.signature, .owned subrecord.data⟩)

/-- Runtime phase in which a semantic callback is invoked. -/
inductive HandlerPhase where
  | decodeNormalize | display | summary | sortKey | editValue | nativeValue | parseEditValue
  | unionSelection | arrayCount | arrayElementInclusion | defaultValue | validation | afterLoad
  | afterSet | referenceResolution | conflict | recordMetadata | removability
deriving DecidableEq

/-- Main-record metadata shared by callback invocations. -/
structure HandlerRecordContext where
  /-- Main-record signature. -/
  recordSignature : Signature
  /-- File-local main-record FormID. -/
  formId : FormId
  /-- Main-record form version. -/
  formVersion : UInt16
  /-- Game mode selected by the schema package. -/
  game : SchemaGame
  /-- Whether the source plugin uses localized string tables. -/
  pluginLocalized : Bool

/-- One transactional edit requested by a semantic handler. -/
inductive HandlerMutation where
  /-- Replace main-record flags before initial decoding. -/
  | setRecordFlags (path : String) (flags : RecordFlags)
  /-- Replace an existing field occurrence. -/
  | set (path : String) (occurrence : Nat) (value : OwnedFieldValue)
  /-- Replace a field occurrence only when it still has an expected value. -/
  | setIfEqual (path : String) (occurrence : Nat) (expected value : OwnedFieldValue)
  /-- Replace one existing subrecord payload with handler-produced bytes. -/
  | replacePayload (path : String) (occurrence : Nat) (data : Bytes)
  /-- Insert a subrecord with handler-produced bytes before initial decoding. -/
  | insertPayload (path : String) (data : Bytes)
  /-- Reset a field occurrence to the schema-native default. -/
  | resetToDefault (path : String) (occurrence : Nat)
  /-- Insert a subrecord using its schema-native default. -/
  | insertDefault (path : String)
  /-- Insert a new field. -/
  | insert (path : String) (value : OwnedFieldValue)
  /-- Remove an existing field occurrence. -/
  | remove (path : String) (occurrence : Nat)
  /-- Remove every occurrence of one subrecord field. -/
  | removeAll (path : String)
  /-- Remove every assigned subrecord contained by one structural schema node. -/
  | removeContainer (path : String)
  /-- Remove one repeated structural container and its assigned subrecords. -/
  | removeContainerOccurrence (path : String) (occurrence : Nat)
  /-- Remove every raw subrecord with one signature before initial decoding. -/
  | removeAllBySignature (path : String) (signature : Signature)
  /-- Remove the first raw subrecord with one signature before initial decoding. -/
  | removeFirstBySignature (path : String) (signature : Signature)
  /-- Make an integer counter match a decoded collection length. -/
  | synchronizeCount (path : String) (occurrence : Nat) (value : UInt64) (removeWhenZero : Bool)
  /-- Make an optional field's presence match a semantic condition. -/
  | synchronizePresence (path : String) (occurrence : Nat) (present : Bool)
    (value : OwnedFieldValue)

/-- The path that a mutation names. -/
def HandlerMutation.path : HandlerMutation → String
  | setRecordFlags path _ | set path _ _ | setIfEqual path _ _ _ | replacePayload path _ _
  | insertPayload path _ | resetToDefault path _ | insertDefault path | removeContainer path
  | removeContainerOccurrence path _ | insert path _ | remove path _ | removeAll path
  | removeAllBySignature path _ | removeFirstBySignature path _ | synchronizeCount path _ _ _
  | synchronizePresence path _ _ _ => path

/-- Typed result returned by a semantic callback handler. Links, grid cells and index keys are
never read by the modelled code; their payloads are left out. -/
inductive HandlerOutput where
  /-- The callback has no externally visible return value. -/
  | none
  /-- Transformed semantic value. -/
  | value (value : FieldValue)
  /-- Parsed edit value plus transactional sibling mutations. -/
  | parsedValue (value : FieldValue) (mutations : List HandlerMutation)
  /-- Boolean decision such as visibility, sorting, or inclusion. -/
  | boolean (value : Bool)
  /-- Integer result such as a union selection. -/
  | integer (value : Int64)
  /-- xEdit conflict priority selected for one schema node. -/
  | conflictPriority (priority : ConflictPriority)
  /-- Text result such as an editor identifier. -/
  | text (text : String)
  /-- File-local FormID result. -/
  | formId (formId : FormId)
  /-- Resolved semantic element link. -/
  | link
  /-- Exterior-cell grid coordinates. -/
  | gridCell
  /-- Record index keys. -/
  | indexKeys
  /-- Transactional record edits. -/
  | mutations (mutations : List HandlerMutation)
  /-- Plugin-level request to sort the containing INFO topic-child group. -/
  | groupSortRequested
  /-- Replacement bytes for the active top-level subrecord payload. -/
  | subrecordPayload (data : Bytes)

/-- Input supplied to a semantic callback handler. -/
structure HandlerInvocation where
  /-- Exact callback binding selected by the schema package. -/
  binding : CallbackBinding
  /-- Main-record metadata. -/
  record : HandlerRecordContext
  /-- Deterministic operation configuration from the schema package. -/
  configuration : JsonValue
  /-- Runtime phase selecting the xEdit callback behavior. -/
  phase : HandlerPhase
  /-- Optional decoded value for value-oriented callback roles. -/
  value : Option FieldValue
  /-- Previous decoded value for stateful editor callbacks. -/
  oldValue : Option FieldValue
  /-- Decoded container that owns the value and any sibling fields used by the callback. -/
  valueScope : Option FieldValue
  /-- Original main record for callbacks that inspect sibling subrecords. -/
  sourceRecord : Option Record
  /-- Transactional writable record for record-level editor callbacks. -/
  sourceWritableRecord : Option WritableRecord
  /-- Top-level subrecord being decoded or encoded. -/
  sourceSubrecordIndex : Option Nat
  /-- Zero-based positions of the enclosing schema arrays, from outermost to innermost. -/
  arrayIndices : List Nat

/-- Versioned implementation of one stable semantic handler. -/
structure SemanticHandler where
  /-- Stable identifier referenced by schema packages. -/
  id : String
  /-- Handler implementation version. -/
  version : UInt32
  /-- Executes the callback without mutating the source record. -/
  invoke : HandlerInvocation → Except SemanticError HandlerOutput

/-- The record that an invocation gives to its handler. -/
inductive HandlerRecordSource where
  /-- No record. -/
  | none
  /-- A parsed record. -/
  | readOnly (record : Record)
  /-- The record of an editor transaction. -/
  | writable (record : WritableRecord)

/-- What a handler may look at beside the value. -/
structure HandlerInvocationAccess where
  /-- The source record. -/
  source : HandlerRecordSource
  /-- The container of the value. -/
  valueScope : Option FieldValue
  /-- The active top-level subrecord. -/
  sourceSubrecordIndex : Option Nat
  /-- Positions of the enclosing arrays. -/
  arrayIndices : List Nat

namespace HandlerInvocationAccess

/-- Access to nothing. -/
def default : HandlerInvocationAccess := ⟨.none, .none, .none, []⟩

/-- Access to a parsed record and one of its subrecords. -/
def readOnlySubrecordWithScope (record : Record) (index : Nat) (valueScope : Option FieldValue) :
    HandlerInvocationAccess := ⟨.readOnly record, valueScope, some index, []⟩

/-- Access to a transactional record and one of its subrecords. -/
def writableSubrecordWithScope (record : WritableRecord) (index : Nat)
    (valueScope : Option FieldValue) : HandlerInvocationAccess :=
  ⟨.writable record, valueScope, some index, []⟩

/-- Access to a transactional record. -/
def writableWithScope (record : WritableRecord) (valueScope : Option FieldValue) :
    HandlerInvocationAccess := ⟨.writable record, valueScope, .none, []⟩

/-- Access to a transactional record and, if there is one, an active subrecord. -/
def writableAt (record : WritableRecord) (index : Option Nat) (valueScope : Option FieldValue) :
    HandlerInvocationAccess :=
  match index with
  | some index => writableSubrecordWithScope record index valueScope
  | none => writableWithScope record valueScope

/-- The same access with array positions. -/
def withArrayIndices (access : HandlerInvocationAccess) (arrayIndices : List Nat) :
    HandlerInvocationAccess := { access with arrayIndices }

end HandlerInvocationAccess

/-- Versioned semantic-handler registry. -/
structure SemanticHandlerRegistry where
  /-- Handlers by identifier. -/
  handlers : Std.TreeMap String SemanticHandler

namespace SemanticHandlerRegistry

/-- Resolve a handler satisfying a minimum implementation version. -/
def require (registry : SemanticHandlerRegistry) (id : String) (minimumVersion : UInt32) :
    Except SemanticError SemanticHandler :=
  match registry.handlers.get? id with
  | none => .error (.missingHandler id)
  | some handler =>
    if handler.version < minimumVersion then
      .error (.missingHandler s!"{id} version {minimumVersion.toNat} or newer")
    else .ok handler

/-- Execute the handler of a binding. -/
def invokeWithRecords (registry : SemanticHandlerRegistry) (binding : CallbackBinding)
    (record : HandlerRecordContext) (access : HandlerInvocationAccess) (phase : HandlerPhase)
    (value oldValue : Option FieldValue) : Except SemanticError HandlerOutput := do
  let (id, minimumVersion, configuration) ← match binding.implementation with
    | .builtIn operation => .ok (operation.id, operation.minimumVersion, operation.configuration)
    | .customHandler handler minimumHandlerVersion =>
      .ok (handler, minimumHandlerVersion, JsonValue.null)
    | _ => .error (.handler binding.callbackId "binding is not a semantic handler")
  let handler ← registry.require id minimumVersion
  handler.invoke {
    binding, record, configuration, phase, value, oldValue
    valueScope := access.valueScope
    sourceRecord := match access.source with
      | .readOnly record => some record
      | _ => .none
    sourceWritableRecord := match access.source with
      | .writable record => some record
      | _ => .none
    sourceSubrecordIndex := access.sourceSubrecordIndex
    arrayIndices := access.arrayIndices }

/-- Execute a value-oriented binding. -/
def invoke (registry : SemanticHandlerRegistry) (binding : CallbackBinding)
    (record : HandlerRecordContext) (phase : HandlerPhase) (value oldValue : Option FieldValue) :
    Except SemanticError HandlerOutput :=
  registry.invokeWithRecords binding record .default phase value oldValue

end SemanticHandlerRegistry

/-- Custom implementation for complex xEdit definitions. -/
structure CustomDecoder where
  /-- Decode a payload: the value and the number of bytes consumed. -/
  decode : Bytes → Except SemanticError (FieldValue × Nat)
  /-- Encode an owned semantic value. -/
  encode : OwnedFieldValue → Except SemanticError Bytes

/-- Custom decoders by identifier. -/
structure DecoderRegistry where
  /-- The registered decoders. -/
  decoders : Std.TreeMap String CustomDecoder

/-- A decoder by identifier. -/
def DecoderRegistry.get (registry : DecoderRegistry) (id : String) : Option CustomDecoder :=
  registry.decoders.get? id

/-- Runtime context for schema-guided operations on one game mode. -/
structure SemanticContext where
  /-- The schema package. -/
  registry : SchemaRegistry
  /-- Custom decoders. -/
  decoders : DecoderRegistry
  /-- Semantic handlers. -/
  handlers : SemanticHandlerRegistry
  /-- Encoding policy of inline strings. -/
  inlineStringEncoding : Option InlineStringEncoding
  /-- The text codecs. -/
  codecs : TextCodecs

namespace SemanticContext

/-- Callback metadata of a record. -/
def handlerRecord (context : SemanticContext) (record : Record) : HandlerRecordContext where
  recordSignature := record.header.signature
  formId := record.header.formId
  formVersion := record.header.formVersion
  game := context.registry.package.game
  pluginLocalized := false

/-- The value callback of one binding; a floating-point value that is not finite is kept. -/
def applyNormalizer (context : SemanticContext) (record : Record) (value : FieldValue)
    (binding : CallbackBinding) : Except SemanticError FieldValue :=
  if !binding.implementation.isExecutable then .ok value
  else if value.isNonFinite then .ok value
  else do
    let output ← context.handlers.invoke binding (context.handlerRecord record) .decodeNormalize
      (some value) none
    match output with
    | .value transformed => .ok transformed
    | _ => .error (.handler binding.callbackId "value callback returned a non-value result")

/-- Apply the normalizers bound to a path, in their declaration order. -/
def applyNormalizers (context : SemanticContext) (path : String) (record : Record)
    (value : FieldValue) : Except SemanticError FieldValue :=
  ((context.registry.callbacksAt path).filter (·.callbackId = "float.normalizer")).foldlM
    (context.applyNormalizer record) value

end SemanticContext

end Bethkit
