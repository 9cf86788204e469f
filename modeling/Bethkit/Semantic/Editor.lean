import Bethkit.Semantic.Address
import Bethkit.Semantic.Mutation

/-!
# The record editor

Creation of an editor with its after-load migrations, and the edit operations. A method that only
reads the editor is a function of it; a method that changes it runs in `EditorM`, whose failures
keep the state that they happen in. The codecs of inline strings stand beside the subrecords by
position; only the primary insertion or removal of an operation moves them.
-/

namespace Bethkit

open Lib

/-- Parsed edit value plus transactional sibling mutations. -/
structure ParsedEditValue where
  /-- The value. -/
  value : OwnedFieldValue
  /-- Sibling mutations. -/
  mutations : List HandlerMutation

/-- How an editor operation ends without a result. -/
inductive EditFailure where
  /-- It returns an error. -/
  | error (error : SemanticError)
  /-- It panics. -/
  | panic
deriving DecidableEq

/-- An operation on an editor: it may fail, and it leaves an editor either way. -/
abbrev EditorM : Type → Type := ExceptT EditFailure (StateM RecordEditor)

/-- The result of a method that only reads the editor. -/
def EditorM.semantic {α : Type} : Except SemanticError α → EditorM α
  | .ok value => pure value
  | .error error => throw (.error error)

/-- The text before the last slash of a path. -/
def pathParent (path : String) : Option String :=
  match path.toList.reverse.dropWhile (· ≠ '/') with
  | [] => none
  | _ :: parent => some (String.ofList parent.reverse)

/-- The generic after-load operation of worldspace records. -/
def worldspaceAfterLoadBinding : CallbackBinding where
  path := "WRLD"
  callbackId := "record.after_load"
  callbackSlot := none
  implementationFingerprint := "xedit-generic-worldspace-after-load"
  implementation := .builtIn ⟨"migrate.remove_worldspace_offset_data", 1, .null⟩

/-- `Vec::insert`: an index behind the end panics. -/
def insertSlot {α : Type} (slots : List α) (index : Nat) (slot : α) : Option (List α) :=
  if index ≤ slots.length then some (slots.insertIdx index slot) else none

namespace RecordEditor

/-- The candidate that an operation starts from. -/
def candidate (editor : RecordEditor) : Candidate := ⟨editor.record, editor.decodedValues⟩

/-- Commit a candidate. -/
def commit (editor : RecordEditor) (candidate : Candidate) : RecordEditor :=
  { editor with record := candidate.record, decodedValues := candidate.decodedValues }

/-- The path at which an after-load callback is anchored: the nearest subrecord at or above a
path, else the path itself. The first argument bounds the rounds. -/
def afterLoadAnchorFrom (editor : RecordEditor) (path : String) : Nat → String → String
  | 0, _ => path
  | fuel + 1, candidate =>
    match editor.findNode candidate with
    | .ok (.subrecord _ _ _) => candidate
    | _ =>
      match pathParent candidate with
      | none => path
      | some parent => afterLoadAnchorFrom editor path fuel parent

/-- The nearest subrecord at or above a path. -/
def afterLoadAnchorPath (editor : RecordEditor) (path : String) : String :=
  editor.afterLoadAnchorFrom path (path.length + 1) path

/-- The anchor of an after-load callback. -/
def afterLoadAnchor (editor : RecordEditor) (binding : CallbackBinding) : String :=
  match binding.implementation with
  | .builtIn operation =>
    match (operation.configuration.get "anchor_path_suffix").bind (·.asStr) with
    | some suffix => binding.path ++ suffix
    | none => editor.afterLoadAnchorPath binding.path
  | _ => editor.afterLoadAnchorPath binding.path

/-- Apply what an after-load callback returned. An index that an earlier migration removed panics
in the source. -/
def applyAfterLoadOutput (editor : RecordEditor) (binding : CallbackBinding) (target : Option Nat)
    (output : HandlerOutput) : Except SemanticError RecordEditor :=
  match output with
  | .none => .ok editor
  | .subrecordPayload data =>
    match target with
    | none => .error (.handler binding.callbackId
        "record-level after-load callback returned payload bytes")
    | some index =>
      if index < editor.record.subrecords.length then
        .ok { editor with
          record := editor.record.setPayload index data
          afterLoadMigrations := editor.afterLoadMigrations + 1 }
      else .error (.handler binding.callbackId "index out of bounds")
  | .mutations [] => .ok editor
  | .mutations mutations => do
    let updated ← editor.applyMutationsWithValues ⟨editor.record, ∅⟩ mutations
    .ok { editor with
      record := updated.record
      afterLoadMigrations := editor.afterLoadMigrations + 1 }
  | _ => .error (.handler binding.callbackId "after-load callback returned an invalid result")

/-- Run an after-load callback on the record or on one of its subrecords. -/
def runAfterLoad (binding : CallbackBinding) (editor : RecordEditor) (target : Option Nat) :
    Except SemanticError RecordEditor := do
  let output ← editor.context.handlers.invokeWithRecords binding editor.handlerRecord
    (.writableAt editor.record target none) .afterLoad none none
  editor.applyAfterLoadOutput binding target output

/-- The generic worldspace migration. -/
def applyGenericAfterLoadCallbacks (editor : RecordEditor) :
    Except SemanticError RecordEditor :=
  if editor.record.signature = .ofBytes 0x57 0x52 0x4C 0x44 then
    runAfterLoad worldspaceAfterLoadBinding editor none
  else .ok editor

/-- The subrecords on which an after-load callback runs; nothing stands for the record. -/
def afterLoadTargets (editor : RecordEditor) (recordPath : String) (binding : CallbackBinding) :
    Except SemanticError (List (Option Nat)) :=
  let anchorPath := editor.afterLoadAnchor binding
  if binding.path = recordPath ∧ anchorPath = binding.path then .ok [none]
  else do
    let grammar ← editor.grammarFor editor.record
    .ok ((grammar.assignments.zipIdx.filter (isAssignedTo anchorPath ·.1)).map (some ·.2))

/-- One after-load callback on all its targets. -/
def applyAfterLoadBinding (recordPath : String) (editor : RecordEditor)
    (binding : CallbackBinding) : Except SemanticError RecordEditor :=
  if !binding.implementation.isExecutable then
    .error (.handler binding.callbackId "after-load callback is not executable")
  else do
    let targets ← editor.afterLoadTargets recordPath binding
    targets.foldlM (runAfterLoad binding) editor

/-- The after-load callbacks of the record, in their declaration order. -/
def applyAfterLoadCallbacks (editor : RecordEditor) : Except SemanticError RecordEditor :=
  let recordPath := editor.record.signature.display
  let bindings := editor.context.registry.package.callbackBindings.filter fun binding =>
    binding.callbackId = "def.after_load" && pathIsWithin binding.path recordPath
  bindings.foldlM (applyAfterLoadBinding recordPath) editor

/-- The decoded values of fields by path and occurrence. -/
def decodedValuesOf (fields : List Field) : DecodedValues :=
  fields.foldl (fun decodedValues field =>
    decodedValues.insert (field.path, field.occurrence) field.value) ∅

/-- The editor before its after-load callbacks. A worldspace handler for the source file's load
order replaces the registered one in the editor. -/
def initial (context : SemanticContext) (record : Record) (subrecords : List WritableSubRecord)
    (pluginLocalized : Bool) (worldspaceAfterLoad : Option SemanticHandler)
    (codecs : List (List InlineStringCodec)) : RecordEditor where
  context := match worldspaceAfterLoad with
    | none => context
    | some handler =>
      { context with handlers := ⟨context.handlers.handlers.insert handler.id handler⟩ }
  record := {
    signature := record.header.signature
    flags := record.header.flags
    formId := record.header.formId
    formVersion := record.header.formVersion
    subrecords }
  localized := pluginLocalized
  inlineStringCodecs := codecs
  afterLoadMigrations := 0
  decodedValues := ∅

/-- A lossless editor for a record. There is one field per subrecord, in record order, so the
codecs by subrecord index are those of the fields. -/
def new (inflate : Inflate) (context : SemanticContext) (record : Record) (pluginLocalized : Bool)
    (worldspaceAfterLoad : Option SemanticHandler) : Except SemanticError RecordEditor :=
  match context.registry.get record.header.signature with
  | none => .error (.missingRecordSchema record.header.signature.display)
  | some _ => do
    let subrecords ← (record.subrecords inflate).mapError SemanticError.core
    let subrecords := subrecords.map fun subrecord =>
      (⟨subrecord.signature, subrecord.asBytes⟩ : WritableSubRecord)
    let codecs ← if context.inlineStringEncoding.any (·.prefersUtf8) then do
        let view ← Semantic.RecordView.new context record pluginLocalized
        let fields ← view.fields inflate
        .ok (fields.map (·.inlineStringCodecs))
      else .ok []
    let editor := initial context record subrecords pluginLocalized worldspaceAfterLoad codecs
    let editor ← editor.applyGenericAfterLoadCallbacks
    let editor ← editor.applyAfterLoadCallbacks
    let view ← Semantic.RecordView.new context (.fromWritable editor.record) pluginLocalized
    let fields ← view.fields inflate
    .ok { editor with
      inlineStringCodecs := fields.map (·.inlineStringCodecs)
      decodedValues := decodedValuesOf fields }

/-- Mutations and callbacks of an edited field. -/
def finishEdit (editor : RecordEditor) (changed : ChangedField) (candidate : Candidate)
    (mutations : List HandlerMutation) : Except SemanticError Candidate := do
  let candidate ← editor.applyLocalMutationsWithScope changed candidate mutations
  editor.applyAfterSetCallbacks changed candidate

/-- The array shape of a value with detected inline codecs may not change. -/
def checkArrayShape (editor : RecordEditor) (path : String) (index : Nat)
    (oldValue : Option FieldValue) (normalized : OwnedFieldValue) : Except SemanticError Unit :=
  if editor.context.inlineStringEncoding.any (·.prefersUtf8) &&
      editor.inlineStringCodecs[index]?.any (!·.isEmpty) &&
      oldValue.any (!sameArrayShape · normalized) then
    .error (encodeError path
      "array shape changes require an explicit codec for affected inline strings")
  else .ok ()

/-- Write a processed payload value and run the mutations and callbacks it triggers. -/
def payloadCandidate (editor : RecordEditor) (payload : SchemaNode) (path : String)
    (occurrence index : Nat) (value : OwnedFieldValue) (mutations : List HandlerMutation) :
    Except SemanticError Candidate := do
  let encoded ← editor.encodeNodeAt payload value (some index)
  let decoded ← editor.ownedToHandlerValueAtIndex payload value (some index)
  let record := editor.record.setPayload index encoded
  let changed ← editor.changedFieldAt record index
  editor.finishEdit changed
    ⟨record, editor.decodedValues.insert (path, occurrence) decoded⟩ mutations

/-- An existing top-level occurrence replaced with a typed value. -/
def setCandidate (editor : RecordEditor) (path : String) (occurrence : Nat)
    (value : OwnedFieldValue) : Except SemanticError Candidate := do
  let (_, _, payload) ←
    editor.findSubrecord path "only top-level subrecords can be replaced"
  let index ← editor.assignedSubrecordIndex editor.record path occurrence
  let normalized ← editor.normalizeValue payload.path value
  let oldValue := editor.decodedValues.get? (path, occurrence)
  let (normalized, mutations) ← editor.applyAfterSetTree payload normalized oldValue (some index)
  editor.checkArrayShape path index oldValue normalized
  editor.payloadCandidate payload path occurrence index normalized mutations

/-- Replace an existing top-level occurrence with a typed value. -/
def set (path : String) (occurrence : Nat) (value : OwnedFieldValue) : EditorM Unit := do
  let editor ← get
  let candidate ← EditorM.semantic (editor.setCandidate path occurrence value)
  modify (·.commit candidate)

/-- A parsed value, tried on the occurrences of its subrecord in turn. -/
def setParsedValueIn (editor : RecordEditor) (parent payload : SchemaNode) (path : String)
    (occurrence : Nat) (normalized : OwnedFieldValue) (mutations : List HandlerMutation) :
    List Nat → Nat → Except SemanticError Candidate
  | [], _ => .error (.missingOccurrence path occurrence)
  | parentOccurrence :: rest, remaining =>
    match editor.decodedValues.get? (parent.path, parentOccurrence) with
    | none =>
      setParsedValueIn editor parent payload path occurrence normalized mutations rest remaining
    | some current => do
      let search ← editor.setNestedValue payload (handlerToOwnedValue current) path remaining
        normalized
      match search with
      | .missing remaining =>
        setParsedValueIn editor parent payload path occurrence normalized mutations rest remaining
      | .found updated => do
        let index ← editor.assignedSubrecordIndex editor.record parent.path parentOccurrence
        let (updated, treeMutations) ←
          editor.applyAfterSetTree payload updated (some current) (some index)
        editor.payloadCandidate payload parent.path parentOccurrence index updated
          (treeMutations ++ mutations)

/-- A parsed edit value applied to one nested occurrence. -/
def setParsedCandidate (editor : RecordEditor) (path : String) (occurrence : Nat)
    (parsed : ParsedEditValue) : Except SemanticError Candidate := do
  let target ← editor.findNode path
  let parent ← editor.findContainer editor.record path
  match parent with
  | .subrecord info _ payload => do
    let normalized ← editor.normalizeValue target.path parsed.value
    let count ← editor.assignedOccurrenceCount editor.record info.path
    editor.setParsedValueIn parent payload path occurrence normalized parsed.mutations
      (List.range count) occurrence
  | _ => .error (.encode path "parsed edit has no containing subrecord")

/-- Apply a parsed edit value to one nested occurrence. -/
def setParsedValue (path : String) (occurrence : Nat) (parsed : ParsedEditValue) :
    EditorM Unit := do
  let editor ← get
  let candidate ← EditorM.semantic (editor.setParsedCandidate path occurrence parsed)
  modify (·.commit candidate)

/-- The one set mutation of an editor-ID callback. -/
def recordMetadataCandidate (editor : RecordEditor) (mutations : List HandlerMutation) :
    Except SemanticError Candidate :=
  match mutations with
  | [.set path occurrence value] => do
    let parent ← editor.findContainer editor.record path
    match decodedOccurrences editor.decodedValues parent.path with
    | [parentOccurrence] =>
      match editor.decodedValues.get? (parent.path, parentOccurrence) with
      | none => .error (.missingOccurrence parent.path parentOccurrence)
      | some current => do
        let search ← editor.setNestedValue parent (handlerToOwnedValue current) path occurrence
          value
        match search with
        | .missing _ => .error (.missingOccurrence path occurrence)
        | .found updated => do
          let (signature, encoded) ← editor.encodePath parent.path updated
          let index ← editor.assignedSubrecordIndex editor.record parent.path parentOccurrence
          checkSignature editor.record index signature parent.path signatureMismatch
          let decoded ← editor.ownedToHandlerValueAtIndex parent updated none
          .ok (editor.candidate.setField index parent.path parentOccurrence encoded decoded)
    | _ => .error (.handler "record.set_editor_id"
        s!"record metadata field {path} must have exactly one containing subrecord")
  | _ => .error (.handler "record.set_editor_id"
      "record editor-ID callback must return one set mutation")

/-- The editor ID set through its callback; nothing when the schema has none. -/
def editorIdCandidate (editor : RecordEditor) (editorId : String) :
    Except SemanticError (Option Candidate) :=
  match (editor.context.registry.callbacksAt editor.record.signature.display).filter
      (·.callbackId = "record.set_editor_id") with
  | [] => .ok none
  | [binding] =>
    if !binding.implementation.isExecutable then
      .error (.handler "record.set_editor_id" "record editor-ID callback is not executable")
    else do
      let output ← editor.context.handlers.invoke binding editor.handlerRecord .afterSet
        (some (.string editorId)) none
      match output with
      | .mutations mutations => (editor.recordMetadataCandidate mutations).map some
      | _ => .error (.handler "record.set_editor_id"
          "record editor-ID callback returned invalid mutations")
  | _ => .error (.handler "record.set_editor_id"
      "record editor-ID callback is bound more than once")

/-- Set the editor ID through its callback; false when the schema has none. -/
def setRecordEditorId (editorId : String) : EditorM Bool := do
  let editor ← get
  let candidate ← EditorM.semantic (editor.editorIdCandidate editorId)
  match candidate with
  | none => pure false
  | some candidate => do
    modify (·.commit candidate)
    pure true

/-- Commit a candidate and make room for the codecs of its inserted subrecord. -/
def commitInsertion (index : Nat) (candidate : Candidate) : EditorM Unit := do
  modify (·.commit candidate)
  let editor ← get
  match insertSlot editor.inlineStringCodecs index [] with
  | some codecs => modify ({ · with inlineStringCodecs := codecs })
  | none => throw .panic

/-- A new occurrence behind the existing ones of its path: its index and the candidate. -/
def insertCandidate (editor : RecordEditor) (path : String) (value : OwnedFieldValue) :
    Except SemanticError (Nat × Candidate) := do
  let (node, signature, payload) ←
    editor.findSubrecord path "only top-level subrecords can be inserted"
  let index ← editor.schemaInsertionIndex editor.record node
  let occurrence ← editor.assignedOccurrenceCount editor.record path
  let normalized ← editor.normalizeValue payload.path value
  let (normalized, mutations) ← editor.applyAfterSetTree payload normalized none (some index)
  let encoded ← editor.encodeNodeAt payload normalized none
  let decoded ← editor.ownedToHandlerValueAtIndex payload normalized (some index)
  let record := editor.record.insertSubrecord index ⟨signature, encoded⟩
  let changed ← editor.changedFieldAt record index
  let candidate ← editor.finishEdit changed
    ⟨record, editor.decodedValues.insert (path, occurrence) decoded⟩ mutations
  .ok (index, candidate)

/-- Insert a new top-level field after existing occurrences of its path. -/
def insert (path : String) (value : OwnedFieldValue) : EditorM Unit := do
  let editor ← get
  let (index, candidate) ← EditorM.semantic (editor.insertCandidate path value)
  commitInsertion index candidate

/-- A removed occurrence: its index and the candidate. -/
def removeCandidate (editor : RecordEditor) (path : String) (occurrence : Nat) :
    Except SemanticError (Nat × Candidate) := do
  let _ ← editor.findSubrecord path "only top-level subrecords can be removed"
  let index ← editor.assignedSubrecordIndex editor.record path occurrence
  let changed ← editor.changedFieldAt editor.record index
  let candidate ← editor.applyAfterSetCallbacks changed
    (editor.candidate.removeField index path occurrence)
  .ok (index, candidate)

/-- Remove a top-level occurrence; a codec slot that is not there is not removed. -/
def remove (path : String) (occurrence : Nat) : EditorM Unit := do
  let editor ← get
  let (index, candidate) ← EditorM.semantic (editor.removeCandidate path occurrence)
  modify fun editor => { editor.commit candidate with
    inlineStringCodecs := editor.inlineStringCodecs.eraseIdx index }

/-- The edited record, unknown subrecords included. -/
def intoWritableRecord (editor : RecordEditor) : WritableRecord := editor.record

/-- The fields of the current record state, decoded with the recorded codecs. -/
def fields (editor : RecordEditor) : Except SemanticError (List Field) := do
  let view ← Semantic.RecordView.newWithInlineCodecs editor.context (.fromWritable editor.record)
    editor.localized editor.inlineStringCodecs
  view.fields refuseInflate

/-- The field that an address selects. -/
def addressedField (sha256 : Sha256) (editor : RecordEditor) (address : FieldAddress) :
    Except SemanticError Field :=
  if address.recordSignature ≠ editor.record.signature ∨ address.formId ≠ editor.record.formId ∨
      address.schemaPayloadSha256 ≠
        schemaHashHex editor.context.registry.package.payloadSha256 then
    .error (addressError address.subrecordPath "address belongs to another record or schema")
  else do
    let fields ← editor.fields
    if address.structureHash ≠ structureHash sha256 fields then
      .error (addressError address.subrecordPath
        "stale address; refresh the record snapshot")
    else
      match fields.find? fun field => field.subrecordIndex = address.subrecordIndex &&
          field.path = address.subrecordPath && field.repeatScopes = address.repeatScopes with
      | some field => .ok field
      | none => .error (addressError address.subrecordPath
          "address does not match a grammar assignment")

/-- The field of an address and its value with another one at the address. -/
def withTarget (sha256 : Sha256) (editor : RecordEditor) (address : FieldAddress)
    (value : OwnedFieldValue) : Except SemanticError (Field × OwnedFieldValue) := do
  let field ← editor.addressedField sha256 address
  let (_, replace) ← ownedTarget field.path address.valueSteps (handlerToOwnedValue field.value)
    field.value
  .ok (field, replace value)

/-- Replace exactly one value selected by a current structural address. -/
def setAt (sha256 : Sha256) (address : FieldAddress) (value : OwnedFieldValue) :
    EditorM Unit := do
  let editor ← get
  let (field, updated) ← EditorM.semantic (editor.withTarget sha256 address value)
  set field.path field.occurrence updated

/-- The positions in arrays on the way of an address. -/
def stepIndices (steps : List ValueStep) : List Nat :=
  steps.filterMap fun
    | .index index => some index
    | .field _ _ => none

/-- Record a codec for one string of a subrecord. -/
def overrideCodec (codecs : List InlineStringCodec) (path : String) (indices : List Nat)
    (encoding : InlineStringEncoding) : List InlineStringCodec :=
  let override : InlineStringCodec := ⟨path, indices, encoding, false⟩
  match codecs.findIdx? fun codec => codec.path = path && codec.arrayIndices = indices with
  | some index => codecs.set index override
  | none => codecs ++ [override]

/-- A value that may be inline text; raw bytes are text that could not be decoded. -/
def isInlineText : FieldValue → Bool
  | .string _ | .bytes _ => true
  | _ => false

/-- The checks before a codec is selected: the subrecord and its recorded codecs. -/
def inlineTarget (sha256 : Sha256) (editor : RecordEditor) (address : FieldAddress)
    (path : String) (encoding : InlineStringEncoding) :
    Except SemanticError (Nat × List InlineStringCodec) :=
  if encoding.prefersUtf8 then
    .error (addressError path "a field override requires a concrete codec")
  else do
    let field ← editor.addressedField sha256 address
    let target ← decodedTarget path address.valueSteps field.value
    if !isInlineText target || editor.localized then
      .error (addressError path "address does not select inline text")
    else
      match editor.context.registry.getNode editor.record.signature path with
      | none => .error (addressError path "schema string path is unknown")
      | some (.primitive _ (.string string)) =>
        if !isLocalizedString string then
          .error (addressError path "technical strings keep their schema codec")
        else
          match editor.inlineStringCodecs[field.subrecordIndex]? with
          | none => .error (addressError path "subrecord codec state is missing")
          | some codecs => .ok (field.subrecordIndex, codecs)
      | some _ => .error (addressError path "schema path does not select a string")

/-- The check after a codec is selected: the address selects text. -/
def verifyInline (editor : RecordEditor) (address : FieldAddress) (path : String) :
    Except SemanticError Unit := do
  let fields ← editor.fields
  match fields.find? (·.subrecordIndex = address.subrecordIndex) with
  | none => .error (addressError path "source field disappeared")
  | some selected => do
    let target ← decodedTarget path address.valueSteps selected.value
    match target with
    | .string _ => .ok ()
    | _ => .error (addressError path "selected codec did not resolve inline text")

/-- The editor with other codecs for a subrecord. -/
def setCodecs (editor : RecordEditor) (index : Nat) (codecs : List InlineStringCodec) :
    RecordEditor :=
  { editor with inlineStringCodecs := editor.inlineStringCodecs.set index codecs }

/-- Select a concrete codec for one addressed inline string in this editor. -/
def setInlineEncodingAt (sha256 : Sha256) (address : FieldAddress) (path : String)
    (encoding : InlineStringEncoding) : EditorM Unit := do
  let editor ← get
  let (index, previous) ← EditorM.semantic (editor.inlineTarget sha256 address path encoding)
  modify (·.setCodecs index
    (overrideCodec previous path (stepIndices address.valueSteps) encoding))
  let editor ← get
  match editor.verifyInline address path with
  | .ok () => pure ()
  | .error error => do
    modify (·.setCodecs index previous)
    throw (.error error)

/-- Replace one inline string using a caller-selected codec. -/
def setStringAtWithEncoding (sha256 : Sha256) (address : FieldAddress) (path : String)
    (encoding : InlineStringEncoding) (text : String) : EditorM Unit := do
  let editor ← get
  match editor.inlineStringCodecs[address.subrecordIndex]? with
  | none => throw (.error (addressError path "subrecord codec state is missing"))
  | some previous => do
    setInlineEncodingAt sha256 address path encoding
    tryCatch (setAt sha256 address (.string text)) fun error => do
      modify (·.setCodecs address.subrecordIndex previous)
      throw error

/-- The value without an addressed item or optional member. -/
def withoutTarget (field : Field) (steps : List ValueStep) (last : ValueStep) :
    Except SemanticError OwnedFieldValue := do
  let owned := handlerToOwnedValue field.value
  let (parent, replace) ← ownedTarget field.path steps.dropLast owned field.value
  match last, parent with
  | .index index, .array items =>
    if index < items.length then .ok (replace (.array (items.eraseIdx index)))
    else .error (addressError field.path "address does not select a removable item")
  | .field _ _, _ => do
    let (_, replace) ← ownedTarget field.path steps owned field.value
    .ok (replace .absent)
  | _, _ => .error (addressError field.path "address does not select a removable item")

/-- Remove an addressed subrecord, array item, or optional struct value. -/
def removeAt (sha256 : Sha256) (address : FieldAddress) : EditorM Unit := do
  let editor ← get
  let field ← EditorM.semantic (editor.addressedField sha256 address)
  match address.valueSteps.getLast? with
  | none => remove field.path field.occurrence
  | some last => do
    let updated ← EditorM.semantic (withoutTarget field address.valueSteps last)
    set field.path field.occurrence updated

/-- An insertion before a field may not change the assignment of any existing subrecord. -/
def checkAssignmentsKept (field : Field) (index : Nat) (before after : GrammarMatch) :
    Except SemanticError Unit :=
  if before.assignments.zipIdx.all fun entry =>
      entry.1.map (·.id) =
        (after.assignments.getD (entry.2 + if index ≤ entry.2 then 1 else 0) none).map (·.id) then
    .ok ()
  else .error (addressError field.path "insertion would change an existing grammar assignment")

/-- Another occurrence before an addressed subrecord. -/
def insertBeforeCandidate (editor : RecordEditor) (field : Field) (value : OwnedFieldValue) :
    Except SemanticError Candidate := do
  let (_, signature, payload) ←
    editor.findSubrecord field.path "target is not a schema subrecord"
  let index := field.subrecordIndex
  let normalized ← editor.normalizeValue payload.path value
  let (normalized, mutations) ← editor.applyAfterSetTree payload normalized none (some index)
  let encoded ← editor.encodeNodeAt payload normalized none
  let decoded ← editor.ownedToHandlerValueAtIndex payload normalized (some index)
  let record := editor.record.insertSubrecord index ⟨signature, encoded⟩
  let before ← editor.grammarFor editor.record
  let after ← editor.grammarFor record
  checkAssignmentsKept field index before after
  let changed ← editor.changedFieldAt record index
  editor.finishEdit changed
    ⟨record, insertDecodedOccurrence editor.decodedValues field.path field.occurrence decoded⟩
    mutations

/-- The value with one more item: behind an addressed array, or before an addressed item; nothing
when the address selects a whole subrecord that is no array. -/
def withItem (field : Field) (steps : List ValueStep) (value : OwnedFieldValue) :
    Except SemanticError (Option OwnedFieldValue) := do
  let owned := handlerToOwnedValue field.value
  let (target, replace) ← ownedTarget field.path steps owned field.value
  match target, steps.getLast? with
  | .array items, _ => .ok (some (replace (.array (items ++ [value]))))
  | _, some (.index index) => do
    let (parent, replace) ← ownedTarget field.path steps.dropLast owned field.value
    match parent with
    | .array items =>
      if index ≤ items.length then .ok (some (replace (.array (items.insertIdx index value))))
      else .error (addressError field.path "array insertion index is out of bounds")
    | _ => .error (addressError field.path "array item has no array parent")
  | _, none => .ok none
  | _, some (.field _ _) =>
    .error (addressError field.path "insertion requires an array or subrecord")

/-- Insert before an addressed array item, append to an addressed array, or insert another
occurrence before an addressed subrecord. -/
def insertAt (sha256 : Sha256) (address : FieldAddress) (value : OwnedFieldValue) :
    EditorM Unit := do
  let editor ← get
  let field ← EditorM.semantic (editor.addressedField sha256 address)
  let updated ← EditorM.semantic (withItem field address.valueSteps value)
  match updated with
  | some updated => set field.path field.occurrence updated
  | none => do
    let candidate ← EditorM.semantic (editor.insertBeforeCandidate field value)
    commitInsertion field.subrecordIndex candidate

end RecordEditor

/-- An edit operation of the public interface. -/
inductive EditorOp where
  /-- `set`. -/
  | set (path : String) (occurrence : Nat) (value : OwnedFieldValue)
  /-- `set_parsed_value`. -/
  | setParsedValue (path : String) (occurrence : Nat) (parsed : ParsedEditValue)
  /-- `set_record_editor_id`. -/
  | setRecordEditorId (editorId : String)
  /-- `insert`. -/
  | insert (path : String) (value : OwnedFieldValue)
  /-- `remove`. -/
  | remove (path : String) (occurrence : Nat)
  /-- `set_at`. -/
  | setAt (address : FieldAddress) (value : OwnedFieldValue)
  /-- `insert_at`. -/
  | insertAt (address : FieldAddress) (value : OwnedFieldValue)
  /-- `remove_at`. -/
  | removeAt (address : FieldAddress)
  /-- `set_inline_encoding_at`. -/
  | setInlineEncodingAt (address : FieldAddress) (path : String) (encoding : InlineStringEncoding)
  /-- `set_string_at_with_encoding`. -/
  | setStringAtWithEncoding (address : FieldAddress) (path : String)
    (encoding : InlineStringEncoding) (text : String)

/-- Run an operation; the flag that `set_record_editor_id` returns is dropped. -/
def EditorOp.run (sha256 : Sha256) : EditorOp → EditorM Unit
  | .set path occurrence value => RecordEditor.set path occurrence value
  | .setParsedValue path occurrence parsed => RecordEditor.setParsedValue path occurrence parsed
  | .setRecordEditorId editorId => do
    let _ ← RecordEditor.setRecordEditorId editorId
    pure ()
  | .insert path value => RecordEditor.insert path value
  | .remove path occurrence => RecordEditor.remove path occurrence
  | .setAt address value => RecordEditor.setAt sha256 address value
  | .insertAt address value => RecordEditor.insertAt sha256 address value
  | .removeAt address => RecordEditor.removeAt sha256 address
  | .setInlineEncodingAt address path encoding =>
    RecordEditor.setInlineEncodingAt sha256 address path encoding
  | .setStringAtWithEncoding address path encoding text =>
    RecordEditor.setStringAtWithEncoding sha256 address path encoding text

/-- What an operation returns, and the editor it leaves. -/
def EditorOp.step (sha256 : Sha256) (op : EditorOp) (editor : RecordEditor) :
    Except EditFailure Unit × RecordEditor :=
  (op.run sha256).run.run editor

end Bethkit
