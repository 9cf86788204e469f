import Bethkit.Semantic.Nested

/-!
# Positions of fields in a record

Where a field stands is decided by running the grammar over the record as it is at that moment.
Occurrences of a path are counted in record order; where a new field goes is decided by the order
of the subrecords in the schema.
-/

namespace Bethkit

open Lib

/-- The subrecord that an edit changed. -/
structure ChangedField where
  /-- Its path. -/
  path : String
  /-- Its occurrence. -/
  occurrence : Nat
  /-- Its repeat stack. -/
  repeatScopes : List RepeatScope

/-- A candidate of an edit: the record and the decoded values, committed together. -/
structure Candidate where
  /-- The record. -/
  record : WritableRecord
  /-- Decoded value of every field. -/
  decodedValues : DecodedValues

mutual

/-- The subrecord nodes of a schema tree in order. -/
def topLevelSubrecords : SchemaNode → List SchemaNode
  | node@(.subrecord _ _ _) => [node]
  | .sequence _ children | .unordered _ children | .choice _ children
  | .selectedChoice _ _ children => topLevelSubrecordsOf children
  | .repeat _ _ _ child => topLevelSubrecords child
  | _ => []

/-- The subrecord nodes of a list of schema trees. -/
def topLevelSubrecordsOf : List SchemaNode → List SchemaNode
  | [] => []
  | child :: children => topLevelSubrecords child ++ topLevelSubrecordsOf children

end

/-- The node is assigned to a path. -/
def isAssignedTo (path : String) (assignment : Option SchemaNode) : Bool :=
  assignment.any (·.path = path)

/-- The scan for an insertion position: behind the existing occurrences of the target, else before
the first node that the schema orders behind it, else at the default. -/
def insertionScan (ordered : List SchemaNode) (target : SchemaNode) (targetOrder default : Nat) :
    List (Option SchemaNode × Nat) → Option Nat → Nat
  | [], afterExisting => afterExisting.getD default
  | (none, _) :: rest, afterExisting =>
    insertionScan ordered target targetOrder default rest afterExisting
  | (some assigned, index) :: rest, afterExisting =>
    if assigned.path = target.path then
      insertionScan ordered target targetOrder default rest (some (index + 1))
    else
      match ordered.findIdx? (·.id = assigned.id) with
      | none => insertionScan ordered target targetOrder default rest afterExisting
      | some order =>
        if targetOrder < order then afterExisting.getD index
        else insertionScan ordered target targetOrder default rest afterExisting

/-- The scope with the longest path; of several the last one. -/
def longestScope (scopes : List RepeatScope) : Option RepeatScope :=
  scopes.foldl (fun best scope =>
    match best with
    | some longest =>
      if longest.path.utf8ByteSize ≤ scope.path.utf8ByteSize then some scope else some longest
    | none => some scope) none

/-- Move a decoded value from one occurrence of a path to another. -/
def moveDecodedOccurrence (path : String) (decodedValues : DecodedValues) (source target : Nat) :
    DecodedValues :=
  match decodedValues.get? (path, source) with
  | some value => (decodedValues.erase (path, source)).insert (path, target) value
  | none => decodedValues

/-- The occurrences of a path that have a decoded value, in ascending order. -/
def decodedOccurrences (decodedValues : DecodedValues) (path : String) : List Nat :=
  (decodedValues.keys.filter (·.1 = path)).map (·.2)

/-- Remove the decoded value of an occurrence; the later ones move down. -/
def removeDecodedOccurrence (decodedValues : DecodedValues) (path : String) (occurrence : Nat) :
    DecodedValues :=
  let decodedValues := decodedValues.erase (path, occurrence)
  let shifted := (decodedOccurrences decodedValues path).filter (occurrence < ·)
  shifted.foldl (fun decodedValues index =>
    moveDecodedOccurrence path decodedValues index (index - 1)) decodedValues

/-- Insert a decoded value at an occurrence; it and the later ones move up. -/
def insertDecodedOccurrence (decodedValues : DecodedValues) (path : String) (occurrence : Nat)
    (value : FieldValue) : DecodedValues :=
  let shifted := ((decodedOccurrences decodedValues path).filter (occurrence ≤ ·)).reverse
  (shifted.foldl (fun decodedValues index =>
    moveDecodedOccurrence path decodedValues index (index + 1)) decodedValues).insert
      (path, occurrence) value

/-- The record with one more subrecord at a position. -/
def WritableRecord.insertSubrecord (record : WritableRecord) (index : Nat)
    (subrecord : WritableSubRecord) : WritableRecord :=
  { record with subrecords := record.subrecords.insertIdx index subrecord }

/-- The record without the subrecord at a position. -/
def WritableRecord.removeSubrecord (record : WritableRecord) (index : Nat) : WritableRecord :=
  { record with subrecords := record.subrecords.eraseIdx index }

/-- The record with other payload bytes at a position. -/
def WritableRecord.setPayload (record : WritableRecord) (index : Nat) (data : Bytes) :
    WritableRecord :=
  { record with subrecords := record.subrecords.modify index fun subrecord =>
      { subrecord with data } }

/-- The signature of the subrecord at a position. -/
def WritableRecord.signatureAt (record : WritableRecord) (index : Nat) : Option Signature :=
  record.subrecords[index]?.map (·.signature)

namespace RecordEditor

/-- The grammar run over a record. -/
def grammarFor (editor : RecordEditor) (record : WritableRecord) :
    Except SemanticError GrammarMatch := do
  let schema ← editor.schemaOf record.signature
  interpretWritable schema.root record.signature record.formVersion record.subrecords

/-- The index of an occurrence of a path. -/
def assignedSubrecordIndex (editor : RecordEditor) (record : WritableRecord) (path : String)
    (occurrence : Nat) : Except SemanticError Nat := do
  let grammar ← editor.grammarFor record
  match (grammar.assignments.zipIdx.filter (isAssignedTo path ·.1))[occurrence]? with
  | some (_, index) => .ok index
  | none => .error (.missingOccurrence path occurrence)

/-- The index of an occurrence of a path, if there is one. -/
def existingSubrecordIndex (editor : RecordEditor) (record : WritableRecord) (path : String)
    (occurrence : Nat) : Except SemanticError (Option Nat) :=
  match editor.assignedSubrecordIndex record path occurrence with
  | .ok index => .ok (some index)
  | .error (.missingOccurrence _ _) => .ok none
  | .error error => .error error

/-- The number of occurrences of a path. -/
def assignedOccurrenceCount (editor : RecordEditor) (record : WritableRecord) (path : String) :
    Except SemanticError Nat := do
  let grammar ← editor.grammarFor record
  .ok (grammar.assignments.countP (isAssignedTo path))

/-- Where a new occurrence of a subrecord node goes. -/
def schemaInsertionIndex (editor : RecordEditor) (record : WritableRecord) (target : SchemaNode) :
    Except SemanticError Nat := do
  let schema ← editor.schemaOf record.signature
  let ordered := topLevelSubrecords schema.root
  match ordered.findIdx? (·.id = target.id) with
  | none => .error (.missingPath target.path)
  | some targetOrder => do
    let grammar ← editor.grammarFor record
    .ok (insertionScan ordered target targetOrder record.subrecords.length
      grammar.assignments.zipIdx none)

/-- The subrecords whose repeat stack holds a scope. -/
def scopedIndices (grammar : GrammarMatch) (scope : RepeatScope) : List Nat :=
  (grammar.repeatScopes.zipIdx.filter (·.1.contains scope)).map (·.2)

/-- The end of the run of subrecords of a scope that begins at an index. -/
def scopeRunEnd (grammar : GrammarMatch) (scope : RepeatScope) (first : Nat) : Nat :=
  first + ((grammar.repeatScopes.drop first).takeWhile (·.contains scope)).length

/-- Where a new occurrence of a subrecord node goes within a repeat scope. -/
def scopedSchemaInsertionIndex (editor : RecordEditor) (record : WritableRecord)
    (target : SchemaNode) (repeatScope : RepeatScope) : Except SemanticError Nat := do
  let schema ← editor.schemaOf record.signature
  match schema.root.findNodeByPath repeatScope.path with
  | none => .error (.missingPath repeatScope.path)
  | some scopeNode =>
    let ordered := topLevelSubrecords scopeNode
    match ordered.findIdx? (·.id = target.id) with
    | none => .error (.missingPath target.path)
    | some targetOrder => do
      let grammar ← editor.grammarFor record
      let indices := scopedIndices grammar repeatScope
      match indices.head? with
      | none => .error (.encode target.path "repeat scope has no assigned subrecords")
      | some first =>
        .ok (insertionScan ordered target targetOrder (scopeRunEnd grammar repeatScope first)
          (indices.map fun index => (grammar.assignments.getD index none, index)) none)

/-- The index and the global occurrence of a local occurrence of a path in a repeat scope. -/
def scopedAssignment (editor : RecordEditor) (record : WritableRecord) (repeatScope : RepeatScope)
    (path : String) (localOccurrence : Nat) : Except SemanticError (Option (Nat × Nat)) := do
  let schema ← editor.schemaOf record.signature
  match findContainingSubrecord schema.root path with
  | none => .error (.missingPath path)
  | some parent => do
    let grammar ← editor.grammarFor record
    let selected := (grammar.assignments.zip grammar.repeatScopes).zipIdx.filter
      fun entry => isAssignedTo parent.path entry.1.1 && entry.1.2.contains repeatScope
    match selected[localOccurrence]? with
    | none => .ok none
    | some (_, index) =>
      .ok (some (index, pathOccurrence grammar.assignments index parent.path))

/-- The part of a record that belongs to a repeat scope. -/
def scopedRecord (editor : RecordEditor) (record : WritableRecord)
    (repeatScope : Option RepeatScope) : Except SemanticError WritableRecord :=
  match repeatScope with
  | none => .ok record
  | some scope => do
    let grammar ← editor.grammarFor record
    .ok { record with subrecords :=
      ((record.subrecords.zip grammar.repeatScopes).filter (·.2.contains scope)).map (·.1) }

/-- What the grammar says of an edited subrecord. -/
def changedFieldAt (editor : RecordEditor) (record : WritableRecord) (index : Nat) :
    Except SemanticError ChangedField := do
  let grammar ← editor.grammarFor record
  match grammar.assignments.getD index none with
  | none => .error (.encode record.signature.display
      s!"edited subrecord at index {index} has no grammar assignment")
  | some node =>
    match grammar.repeatScopes[index]? with
    | none => .error (.encode node.path s!"edited subrecord at index {index} has no repeat scope")
    | some repeatScopes =>
      .ok ⟨node.path, pathOccurrence grammar.assignments index node.path, repeatScopes⟩

end RecordEditor

end Bethkit
