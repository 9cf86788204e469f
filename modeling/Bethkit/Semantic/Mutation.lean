import Bethkit.Semantic.Position

/-!
# Mutations requested by callbacks

A callback asks for edits of sibling subrecords. A mutation acts on a candidate record and on the
decoded values kept beside it. A mutation of a field that an enclosing repeat contains acts within
the occurrence of that repeat only: it is turned into a record-wide one, or works on the positions
of the scope directly.
-/

namespace Bethkit

open Lib

/-- The signature of an assigned subrecord must be the one its node declares. -/
def checkSignature (record : WritableRecord) (index : Nat) (signature : Signature)
    (path message : String) : Except SemanticError Unit :=
  if record.signatureAt index = some signature then .ok () else .error (.encode path message)

/-- The message of `checkSignature` for a field. -/
def signatureMismatch : String := "assigned subrecord signature does not match schema"

/-- Raw insertions and removals run before the initial decoding only. -/
def requireUndecoded (candidate : Candidate) (what path : String) : Except SemanticError Unit :=
  if candidate.decodedValues.isEmpty then .ok ()
  else .error (.handler "def.after_load" s!"raw {what} for {path} must run before initial decoding")

/-- An assigned subrecord to be removed. -/
structure Removal where
  /-- Its index. -/
  index : Nat
  /-- Its path. -/
  path : String
  /-- Its occurrence. -/
  occurrence : Nat

/-- The assigned subrecords that satisfy a predicate of their node and repeat stack. -/
def assignedRemovals (grammar : GrammarMatch) (selected : SchemaNode → List RepeatScope → Bool) :
    List Removal :=
  grammar.assignments.zipIdx.filterMap fun entry =>
    match entry.1 with
    | none => none
    | some node =>
      if selected node (grammar.repeatScopes.getD entry.2 []) then
        some ⟨entry.2, node.path, pathOccurrence grammar.assignments entry.2 node.path⟩
      else none

namespace Candidate

/-- Replace the payload and the decoded value of a field. -/
def setField (candidate : Candidate) (index : Nat) (path : String) (occurrence : Nat)
    (data : Bytes) (value : FieldValue) : Candidate where
  record := candidate.record.setPayload index data
  decodedValues := candidate.decodedValues.insert (path, occurrence) value

/-- Remove a field. -/
def removeField (candidate : Candidate) (index : Nat) (path : String) (occurrence : Nat) :
    Candidate where
  record := candidate.record.removeSubrecord index
  decodedValues := removeDecodedOccurrence candidate.decodedValues path occurrence

/-- Remove several fields, the last one first. -/
def removeFields (candidate : Candidate) (removals : List Removal) : Candidate :=
  removals.reverse.foldl (fun candidate removal =>
    candidate.removeField removal.index removal.path removal.occurrence) candidate

end Candidate

namespace RecordEditor

/-- The subrecord node with a path: signature and payload. -/
def findSubrecord (editor : RecordEditor) (path message : String) :
    Except SemanticError (SchemaNode × Signature × SchemaNode) := do
  let node ← editor.findNode path
  match node with
  | .subrecord _ signature payload => .ok (node, signature, payload)
  | _ => .error (.encode path message)

/-- The subrecord node that contains a path. -/
def findContainer (editor : RecordEditor) (record : WritableRecord) (path : String) :
    Except SemanticError SchemaNode := do
  let schema ← editor.schemaOf record.signature
  match findContainingSubrecord schema.root path with
  | some parent => .ok parent
  | none => .error (.missingPath path)

/-- The signature and the bytes of a new subrecord. -/
def encodePath (editor : RecordEditor) (path : String) (value : OwnedFieldValue) :
    Except SemanticError (Signature × Bytes) := do
  let (_, signature, payload) ←
    editor.findSubrecord path "handler mutation path is not a subrecord"
  let encoded ← editor.encodeNodeAt payload value none
  .ok (signature, encoded)

/-- Insert a new occurrence within a repeat scope. -/
def insertInScope (editor : RecordEditor) (candidate : Candidate) (repeatScope : RepeatScope)
    (path : String) (value : OwnedFieldValue) : Except SemanticError Candidate := do
  let (node, signature, payload) ←
    editor.findSubrecord path "handler mutation path is not a subrecord"
  let index ← editor.scopedSchemaInsertionIndex candidate.record node repeatScope
  let encoded ← editor.encodeNodeAtForRecord payload value (some index) candidate.record
    candidate.decodedValues
  let grammar ← editor.grammarFor candidate.record
  let occurrence := pathOccurrence grammar.assignments index path
  let record := candidate.record.insertSubrecord index ⟨signature, encoded⟩
  let decoded ← editor.ownedToHandlerValueAtForRecord payload value (some index) record
    candidate.decodedValues
  .ok ⟨record, insertDecodedOccurrence candidate.decodedValues path occurrence decoded⟩

/-- The loop of `removeAllInScope`: remove the first member until there is none. Every round
removes a subrecord, so the first argument bounds the rounds. -/
def removeAllInScopeLoop (editor : RecordEditor) (repeatScope : RepeatScope) (path : String) :
    Nat → Candidate → Except SemanticError Candidate
  | 0, candidate => .ok candidate
  | fuel + 1, candidate => do
    let selected ← editor.scopedAssignment candidate.record repeatScope path 0
    match selected with
    | none => .ok candidate
    | some (index, occurrence) => do
      let (_, signature, _) ←
        editor.findSubrecord path "handler mutation path is not a subrecord"
      checkSignature candidate.record index signature path signatureMismatch
      removeAllInScopeLoop editor repeatScope path fuel
        (candidate.removeField index path occurrence)

/-- Remove every occurrence of a path within a repeat scope. -/
def removeAllInScope (editor : RecordEditor) (candidate : Candidate) (repeatScope : RepeatScope)
    (path : String) : Except SemanticError Candidate :=
  editor.removeAllInScopeLoop repeatScope path (candidate.record.subrecords.length + 1) candidate

/-- The loop of a record-wide removal of every occurrence of a path. -/
def removeAllLoop (editor : RecordEditor) (path : String) (signature : Signature) :
    Nat → Candidate → Except SemanticError Candidate
  | 0, candidate => .ok candidate
  | fuel + 1, candidate => do
    let existing ← editor.existingSubrecordIndex candidate.record path 0
    match existing with
    | none => .ok candidate
    | some index => do
      checkSignature candidate.record index signature path signatureMismatch
      removeAllLoop editor path signature fuel (candidate.removeField index path 0)

/-- Insert a new occurrence with its schema-native default. -/
def insertDefault (editor : RecordEditor) (candidate : Candidate)
    (repeatScope : Option RepeatScope) (path : String) : Except SemanticError Candidate := do
  let (node, signature, payload) ←
    editor.findSubrecord path "schema-native insertion path is not a subrecord"
  let index ← match repeatScope with
    | some scope => editor.scopedSchemaInsertionIndex candidate.record node scope
    | none => editor.schemaInsertionIndex candidate.record node
  let context : NestedValueContext :=
    ⟨expressionFieldValuesFrom candidate.decodedValues, candidate.record, some index⟩
  let value ← editor.defaultValueForNodeAt context payload 0 []
  match repeatScope with
  | some scope => editor.insertInScope candidate scope path value
  | none => do
    let encoded ← editor.encodeNodeAtForRecord payload value (some index) candidate.record
      candidate.decodedValues
    let occurrence ← editor.assignedOccurrenceCount candidate.record path
    let record := candidate.record.insertSubrecord index ⟨signature, encoded⟩
    let decoded ← editor.ownedToHandlerValueAtForRecord payload value (some index) record
      candidate.decodedValues
    .ok ⟨record, insertDecodedOccurrence candidate.decodedValues path occurrence decoded⟩

/-- Remove every assigned subrecord at or below a path. -/
def removeContainerAssignments (editor : RecordEditor) (candidate : Candidate)
    (repeatScope : Option RepeatScope) (path : String) : Except SemanticError Candidate := do
  let _ ← editor.findNode path
  let grammar ← editor.grammarFor candidate.record
  .ok (candidate.removeFields (assignedRemovals grammar fun node scopes =>
    repeatScope.all scopes.contains && pathIsWithin node.path path))

/-- Remove one repeated structural container and its assigned subrecords. -/
def removeContainerOccurrence (editor : RecordEditor) (candidate : Candidate)
    (repeatScope : Option RepeatScope) (path : String) (localOccurrence : Nat) :
    Except SemanticError Candidate := do
  let node ← editor.findNode path
  match node with
  | .sequence _ _ =>
    if 2 ^ 32 ≤ localOccurrence then
      .error (.encode path "repeated container occurrence exceeds u32")
    else do
      let grammar ← editor.grammarFor candidate.record
      let selected := fun scopes : List RepeatScope =>
        scopes.contains ⟨path, localOccurrence⟩ && repeatScope.all scopes.contains
      if grammar.repeatScopes.any selected then
        .ok (candidate.removeFields (assignedRemovals grammar fun _ scopes => selected scopes))
      else .error (.missingOccurrence path localOccurrence)
  | _ => .error (.encode path "repeated container removal path is not a sequence")

/-- Reset a field to its schema-native default. -/
def resetSubrecordToDefault (editor : RecordEditor) (candidate : Candidate) (path : String)
    (index occurrence : Nat) : Except SemanticError Candidate := do
  let (_, signature, payload) ←
    editor.findSubrecord path "schema-native default path is not a subrecord"
  checkSignature candidate.record index signature path signatureMismatch
  let context : NestedValueContext :=
    ⟨expressionFieldValuesFrom candidate.decodedValues, candidate.record, some index⟩
  let value ← editor.defaultValueForNodeAt context payload 0 []
  let encoded ← editor.encodeNodeAtForRecord payload value (some index) candidate.record
    candidate.decodedValues
  let record := candidate.record.setPayload index encoded
  let decoded ← editor.ownedToHandlerValueAtForRecord payload value (some index) record
    candidate.decodedValues
  .ok ⟨record, candidate.decodedValues.insert (path, occurrence) decoded⟩

/-- Write a changed value of the subrecord that contains an edited field. -/
def commitNested (editor : RecordEditor) (candidate : Candidate) (parent : SchemaNode)
    (index occurrence : Nat) (updated : OwnedFieldValue) : Except SemanticError Candidate :=
  match parent with
  | .subrecord info signature payload => do
    let encoded ← editor.encodeNodeAtForRecord payload updated (some index) candidate.record
      candidate.decodedValues
    checkSignature candidate.record index signature info.path signatureMismatch
    let record := candidate.record.setPayload index encoded
    let decoded ← editor.ownedToHandlerValueAtForRecord payload updated (some index) record
      candidate.decodedValues
    .ok ⟨record, candidate.decodedValues.insert (info.path, occurrence) decoded⟩
  | _ => .error (.encode parent.path "containing schema node is not a subrecord")

/-- The set of a nested field, tried on the occurrences of its subrecord in turn. -/
def applyNestedSetIn (editor : RecordEditor) (candidate : Candidate) (parent : SchemaNode)
    (path : String) (occurrence : Nat) (value : OwnedFieldValue) :
    List Nat → Nat → Except SemanticError Candidate
  | [], _ => .error (.missingOccurrence path occurrence)
  | parentOccurrence :: rest, remaining =>
    match candidate.decodedValues.get? (parent.path, parentOccurrence) with
    | none => .error (.missingOccurrence parent.path parentOccurrence)
    | some current => do
      let updated := handlerToOwnedValue current
      let index ← editor.assignedSubrecordIndex candidate.record parent.path parentOccurrence
      let context := valueContext candidate.decodedValues parent updated candidate.record
        (some index)
      let probe ← editor.nestedValueAtWithFields context path parent updated remaining
      let unchanged := match probe with
        | .found existing => ownedValuesEqual existing value
        | .missing _ => false
      -- Counter maintenance must not re-encode unrelated packed values for a no-op.
      if unchanged then .ok candidate
      else do
        let search ← editor.setNestedValueWithFields context parent updated path remaining value
        match search with
        | .missing remaining =>
          applyNestedSetIn editor candidate parent path occurrence value rest remaining
        | .found updated => editor.commitNested candidate parent index parentOccurrence updated

/-- Set a field inside the payload of a subrecord. -/
def applyNestedSet (editor : RecordEditor) (candidate : Candidate) (path : String)
    (occurrence : Nat) (value : OwnedFieldValue) : Except SemanticError Candidate := do
  let parent ← editor.findContainer candidate.record path
  editor.applyNestedSetIn candidate parent path occurrence value
    (decodedOccurrences candidate.decodedValues parent.path) occurrence

/-- The conditional set of a nested field, tried on the occurrences of its subrecord in turn. -/
def applyNestedSetIfEqualIn (editor : RecordEditor) (candidate : Candidate) (parent : SchemaNode)
    (path : String) (occurrence : Nat) (expected value : OwnedFieldValue) :
    List Nat → Nat → Except SemanticError Candidate
  | [], _ => .error (.missingOccurrence path occurrence)
  | parentOccurrence :: rest, remaining =>
    match candidate.decodedValues.get? (parent.path, parentOccurrence) with
    | none => .error (.missingOccurrence parent.path parentOccurrence)
    | some current => do
      let updated := handlerToOwnedValue current
      let index ← editor.assignedSubrecordIndex candidate.record parent.path parentOccurrence
      let context := valueContext candidate.decodedValues parent updated candidate.record
        (some index)
      let probe ← editor.nestedValueAtWithFields context path parent updated remaining
      match probe with
      | .missing remaining =>
        applyNestedSetIfEqualIn editor candidate parent path occurrence expected value rest
          remaining
      | .found current =>
        if !ownedValuesEqual current expected then .ok candidate
        else do
          let search ← editor.setNestedValueWithFields context parent updated path remaining value
          match search with
          | .missing _ => .error (.missingOccurrence path occurrence)
          | .found updated => editor.commitNested candidate parent index parentOccurrence updated

/-- Set a field that still has an expected value. -/
def applyNestedSetIfEqual (editor : RecordEditor) (candidate : Candidate) (path : String)
    (occurrence : Nat) (expected value : OwnedFieldValue) : Except SemanticError Candidate := do
  let parent ← editor.findContainer candidate.record path
  editor.applyNestedSetIfEqualIn candidate parent path occurrence expected value
    (decodedOccurrences candidate.decodedValues parent.path) occurrence

/-- Replace an occurrence of a field. -/
def applySet (editor : RecordEditor) (candidate : Candidate) (path : String) (occurrence : Nat)
    (value : OwnedFieldValue) : Except SemanticError Candidate := do
  let node ← editor.findNode path
  match node with
  | .subrecord _ signature payload => do
    let index ← editor.assignedSubrecordIndex candidate.record path occurrence
    let encoded ← editor.encodeNodeAtForRecord payload value (some index) candidate.record
      candidate.decodedValues
    checkSignature candidate.record index signature path signatureMismatch
    let record := candidate.record.setPayload index encoded
    let decoded ← editor.ownedToHandlerValueAtForRecord payload value (some index) record
      candidate.decodedValues
    .ok ⟨record, candidate.decodedValues.insert (path, occurrence) decoded⟩
  | _ => editor.applyNestedSet candidate path occurrence value

/-- Insert a new occurrence behind the existing ones and record its value at an occurrence. -/
def insertAtOccurrence (editor : RecordEditor) (candidate : Candidate) (path message : String)
    (occurrence : Nat) (signature : Signature) (encoded : Bytes) (value : OwnedFieldValue) :
    Except SemanticError Candidate := do
  let (node, _, payload) ← editor.findSubrecord path message
  let index ← editor.schemaInsertionIndex candidate.record node
  let decoded ← editor.ownedToHandlerValueAtIndex payload value none
  .ok ⟨candidate.record.insertSubrecord index ⟨signature, encoded⟩,
    candidate.decodedValues.insert (path, occurrence) decoded⟩

/-- Make a counter match a collection length. -/
def synchronizeCount (editor : RecordEditor) (candidate : Candidate) (path : String)
    (occurrence : Nat) (value : UInt64) (removeWhenZero : Bool) :
    Except SemanticError Candidate := do
  let (_, _, payload) ← editor.findSubrecord path "counter path is not a subrecord"
  let existing ← editor.existingSubrecordIndex candidate.record path occurrence
  if value = 0 && removeWhenZero then
    .ok (match existing with
      | some index => candidate.removeField index path occurrence
      | none => candidate)
  else do
    let (signature, encoded) ← editor.encodePath path (.uint value)
    match existing with
    | some index => do
      checkSignature candidate.record index signature path
        "assigned counter signature does not match schema"
      let decoded ← editor.ownedToHandlerValueAtIndex payload (.uint value) none
      .ok (candidate.setField index path occurrence encoded decoded)
    | none =>
      editor.insertAtOccurrence candidate path "counter path is not a subrecord" occurrence
        signature encoded (.uint value)

/-- Make the presence of an optional field match a condition. -/
def synchronizePresence (editor : RecordEditor) (candidate : Candidate) (path : String)
    (occurrence : Nat) (present : Bool) (value : OwnedFieldValue) :
    Except SemanticError Candidate := do
  let existing ← editor.existingSubrecordIndex candidate.record path occurrence
  match present, existing with
  | true, none => do
    let (signature, encoded) ← editor.encodePath path value
    editor.insertAtOccurrence candidate path "presence path is not a subrecord" occurrence
      signature encoded value
  | false, some index => .ok (candidate.removeField index path occurrence)
  | _, _ => .ok candidate

/-- One mutation, record-wide. -/
def applyMutation (editor : RecordEditor) (candidate : Candidate) (mutation : HandlerMutation) :
    Except SemanticError Candidate :=
  match mutation with
  | .setRecordFlags path flags =>
    if path ≠ candidate.record.signature.display then
      .error (.handler "def.after_load"
        s!"record flag mutation path {path} does not match {candidate.record.signature.display}")
    else .ok { candidate with record := { candidate.record with flags } }
  | .set path occurrence value => editor.applySet candidate path occurrence value
  | .setIfEqual path occurrence expected value =>
    editor.applyNestedSetIfEqual candidate path occurrence expected value
  | .replacePayload path occurrence data => do
    let (_, signature, _) ←
      editor.findSubrecord path "payload replacement path is not a subrecord"
    let index ← editor.assignedSubrecordIndex candidate.record path occurrence
    checkSignature candidate.record index signature path signatureMismatch
    .ok ⟨candidate.record.setPayload index data,
      candidate.decodedValues.erase (path, occurrence)⟩
  | .insertPayload path data => do
    requireUndecoded candidate "payload insertion" path
    let (node, signature, _) ←
      editor.findSubrecord path "payload insertion path is not a subrecord"
    let index ← editor.schemaInsertionIndex candidate.record node
    .ok { candidate with record := candidate.record.insertSubrecord index ⟨signature, data⟩ }
  | .resetToDefault path _ =>
    .error (.handler "edit.reset_sibling_default"
      s!"schema-native default mutation for {path} escaped its value container")
  | .insertDefault path => editor.insertDefault candidate none path
  | .removeContainer path => editor.removeContainerAssignments candidate none path
  | .removeContainerOccurrence path occurrence =>
    editor.removeContainerOccurrence candidate none path occurrence
  | .insert path value => do
    let (signature, encoded) ← editor.encodePath path value
    let occurrence ← editor.assignedOccurrenceCount candidate.record path
    editor.insertAtOccurrence candidate path "handler mutation path is not a subrecord" occurrence
      signature encoded value
  | .remove path occurrence => do
    let (_, signature, _) ←
      editor.findSubrecord path "handler mutation path is not a subrecord"
    let index ← editor.assignedSubrecordIndex candidate.record path occurrence
    checkSignature candidate.record index signature path signatureMismatch
    .ok (candidate.removeField index path occurrence)
  | .removeAll path => do
    let (_, signature, _) ←
      editor.findSubrecord path "handler mutation path is not a subrecord"
    editor.removeAllLoop path signature (candidate.record.subrecords.length + 1) candidate
  | .removeAllBySignature path signature => do
    requireUndecoded candidate "signature removal" path
    .ok { candidate with record := { candidate.record with
      subrecords := candidate.record.subrecords.filter (·.signature ≠ signature) } }
  | .removeFirstBySignature path signature => do
    requireUndecoded candidate "signature removal" path
    .ok { candidate with record := { candidate.record with
      subrecords := candidate.record.subrecords.eraseP (·.signature = signature) } }
  | .synchronizeCount path occurrence value removeWhenZero =>
    editor.synchronizeCount candidate path occurrence value removeWhenZero
  | .synchronizePresence path occurrence present value =>
    editor.synchronizePresence candidate path occurrence present value

/-- Mutations in order, record-wide. -/
def applyMutationsWithValues (editor : RecordEditor) (candidate : Candidate)
    (mutations : List HandlerMutation) : Except SemanticError Candidate :=
  mutations.foldlM editor.applyMutation candidate

/-- A scoped occurrence that must exist. -/
def requireScoped (editor : RecordEditor) (candidate : Candidate) (repeatScope : RepeatScope)
    (path : String) (occurrence : Nat) : Except SemanticError (Nat × Nat) := do
  let selected ← editor.scopedAssignment candidate.record repeatScope path occurrence
  match selected with
  | some found => .ok found
  | none => .error (.missingOccurrence path occurrence)

/-- One mutation within a repeat scope. -/
def applyMutationInScope (editor : RecordEditor) (repeatScope : RepeatScope)
    (candidate : Candidate) (mutation : HandlerMutation) : Except SemanticError Candidate :=
  match mutation with
  | .setRecordFlags _ _ =>
    .error (.handler "def.after_set" "scoped callbacks cannot replace main-record flags")
  | .set path occurrence value => do
    let (_, occurrence) ← editor.requireScoped candidate repeatScope path occurrence
    editor.applyMutation candidate (.set path occurrence value)
  | .setIfEqual path occurrence expected value => do
    let (_, occurrence) ← editor.requireScoped candidate repeatScope path occurrence
    editor.applyMutation candidate (.setIfEqual path occurrence expected value)
  | .replacePayload path occurrence data => do
    let (_, occurrence) ← editor.requireScoped candidate repeatScope path occurrence
    editor.applyMutation candidate (.replacePayload path occurrence data)
  | .insertPayload _ _ =>
    .error (.handler "def.after_set" "scoped callbacks cannot insert raw subrecord payloads")
  | .resetToDefault path occurrence => do
    let (index, occurrence) ← editor.requireScoped candidate repeatScope path occurrence
    editor.resetSubrecordToDefault candidate path index occurrence
  | .insertDefault path => editor.insertDefault candidate (some repeatScope) path
  | .removeContainer path => editor.removeContainerAssignments candidate (some repeatScope) path
  | .removeContainerOccurrence path occurrence =>
    editor.removeContainerOccurrence candidate (some repeatScope) path occurrence
  | .insert path value => editor.insertInScope candidate repeatScope path value
  | .remove path occurrence => do
    let (_, occurrence) ← editor.requireScoped candidate repeatScope path occurrence
    editor.applyMutation candidate (.remove path occurrence)
  | .removeAll path => editor.removeAllInScope candidate repeatScope path
  | .removeAllBySignature _ _ | .removeFirstBySignature _ _ =>
    .error (.handler "def.after_set"
      "scoped callbacks cannot remove raw subrecords by signature")
  | .synchronizeCount path occurrence value removeWhenZero => do
    let existing ← editor.scopedAssignment candidate.record repeatScope path occurrence
    match existing with
    | some (_, occurrence) =>
      editor.applyMutation candidate (.synchronizeCount path occurrence value removeWhenZero)
    | none =>
      if value = 0 && removeWhenZero then .ok candidate
      else editor.insertInScope candidate repeatScope path (.uint value)
  | .synchronizePresence path occurrence present value => do
    let existing ← editor.scopedAssignment candidate.record repeatScope path occurrence
    match existing with
    | some (_, occurrence) =>
      editor.applyMutation candidate (.synchronizePresence path occurrence present value)
    | none =>
      if present then editor.insertInScope candidate repeatScope path value else .ok candidate

/-- The innermost scope of an edited field that contains a path. -/
def enclosingScope (changed : ChangedField) (path : String) : Option RepeatScope :=
  longestScope (changed.repeatScopes.filter fun scope => pathIsWithin path scope.path)

/-- One mutation of a callback of the edited payload, within the innermost scope it shares. -/
def applyLocalMutation (editor : RecordEditor) (changed : ChangedField) (candidate : Candidate)
    (mutation : HandlerMutation) : Except SemanticError Candidate :=
  match enclosingScope changed mutation.path with
  | some repeatScope => editor.applyMutationInScope repeatScope candidate mutation
  | none => editor.applyMutation candidate mutation

/-- The mutations of the callbacks of the edited payload. -/
def applyLocalMutationsWithScope (editor : RecordEditor) (changed : ChangedField)
    (candidate : Candidate) (mutations : List HandlerMutation) : Except SemanticError Candidate :=
  mutations.foldlM (editor.applyLocalMutation changed) candidate

/-- What an after-set callback may look at: the part of the record in its scope, and the changed
subrecord if it is bound to it. -/
def afterSetAccess (editor : RecordEditor) (changed : ChangedField) (binding : CallbackBinding)
    (repeatScope : Option RepeatScope) (sourceRecord : WritableRecord) :
    Except SemanticError HandlerInvocationAccess :=
  if binding.path = changed.path then do
    let localOccurrence := if repeatScope.isSome then 0 else changed.occurrence
    let index ← editor.assignedSubrecordIndex sourceRecord binding.path localOccurrence
    .ok (.writableSubrecordWithScope sourceRecord index none)
  else .ok (.writableWithScope sourceRecord none)

/-- The mutations of an after-set callback, within its scope. -/
def applyCallbackMutations (editor : RecordEditor) (repeatScope : Option RepeatScope)
    (candidate : Candidate) (mutations : List HandlerMutation) : Except SemanticError Candidate :=
  match repeatScope with
  | some scope => mutations.foldlM (editor.applyMutationInScope scope) candidate
  | none => editor.applyMutationsWithValues candidate mutations

/-- One after-set callback of the record or of an enclosing structure. -/
def applyRecordCallback (editor : RecordEditor) (changed : ChangedField) (candidate : Candidate)
    (binding : CallbackBinding) : Except SemanticError Candidate :=
  if !binding.implementation.isExecutable then
    .error (.handler binding.callbackId "record-level after-set callback is not executable")
  else do
    let repeatScope := enclosingScope changed binding.path
    let sourceRecord ← editor.scopedRecord candidate.record repeatScope
    let bound := binding.path = changed.path
    let key := (binding.path, changed.occurrence)
    let access ← editor.afterSetAccess changed binding repeatScope sourceRecord
    let output ← editor.context.handlers.invokeWithRecords binding editor.handlerRecord access
      .afterSet (if bound then candidate.decodedValues.get? key else none)
      (if bound then editor.decodedValues.get? key else none)
    match output with
    | .none => .ok candidate
    | .mutations mutations => editor.applyCallbackMutations repeatScope candidate mutations
    | .groupSortRequested => .error (.handler "edit.sort_info_group"
        "INFO group sorting requires a plugin-level edit transaction")
    | _ => .error (.handler binding.callbackId
        "record-level after-set callback returned an invalid result")

/-- The after-set callbacks that an edit triggers: those of the record, of the changed field and
of the structures around it. -/
def afterSetBindings (editor : RecordEditor) (recordPath : String) (changed : ChangedField) :
    List CallbackBinding :=
  editor.context.registry.package.callbackBindings.filter fun binding =>
    binding.callbackId = "def.after_set" &&
      (binding.path = recordPath || pathIsWithin changed.path binding.path)

/-- Run the after-set callbacks over a candidate. -/
def applyAfterSetCallbacks (editor : RecordEditor) (changed : ChangedField)
    (candidate : Candidate) : Except SemanticError Candidate :=
  (editor.afterSetBindings candidate.record.signature.display changed).foldlM
    (editor.applyRecordCallback changed) candidate

end RecordEditor

end Bethkit
