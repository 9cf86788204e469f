import Bethkit.Lib.Ensures
import Bethkit.Spec.Sample

/-!
# An edit keeps the record it edits

Every operation of the editor works on the subrecords of its record, and a callback may also
replace the flags. The signature, the FormID and the schema stay, so an address of the record still
belongs to the record after any edit. Each mutation is shown to keep them from the mutations it
calls.
-/

namespace Bethkit

open Lib

/-- The candidate is a version of a record: its signature and FormID are those of the record. -/
structure Candidate.VersionOf (origin : WritableRecord) (candidate : Candidate) : Prop where
  /-- The signature. -/
  signature : candidate.record.signature = origin.signature
  /-- The FormID. -/
  formId : candidate.record.formId = origin.formId

namespace Candidate.VersionOf

variable {origin : WritableRecord} {candidate : Candidate}

/-- Other decoded values. -/
theorem values (version : candidate.VersionOf origin) (decodedValues : DecodedValues) :
    VersionOf origin ⟨candidate.record, decodedValues⟩ := ⟨version.signature, version.formId⟩

/-- Other payload bytes. -/
theorem setPayload (version : candidate.VersionOf origin) (index : Nat) (data : Bytes)
    (decodedValues : DecodedValues) :
    VersionOf origin ⟨candidate.record.setPayload index data, decodedValues⟩ :=
  ⟨version.signature, version.formId⟩

/-- One more subrecord. -/
theorem insertSubrecord (version : candidate.VersionOf origin) (index : Nat)
    (subrecord : WritableSubRecord) (decodedValues : DecodedValues) :
    VersionOf origin ⟨candidate.record.insertSubrecord index subrecord, decodedValues⟩ :=
  ⟨version.signature, version.formId⟩

/-- One field less. -/
theorem removeField (version : candidate.VersionOf origin) (index : Nat) (path : String)
    (occurrence : Nat) : (candidate.removeField index path occurrence).VersionOf origin :=
  ⟨version.signature, version.formId⟩

/-- Several fields less. -/
theorem removeFields (version : candidate.VersionOf origin) (removals : List Removal) :
    (candidate.removeFields removals).VersionOf origin := by
  unfold Candidate.removeFields
  generalize removals.reverse = order
  induction order generalizing candidate with
  | nil => exact version
  | cons removal order ih => exact ih (version.removeField _ _ _)

end Candidate.VersionOf

namespace RecordEditor

variable {origin : WritableRecord} {candidate : Candidate} (editor : RecordEditor)

/-- `insertInScope` keeps the record. -/
theorem insertInScope_version (version : candidate.VersionOf origin) (repeatScope : RepeatScope)
    (path : String) (value : OwnedFieldValue) :
    Ensures (editor.insertInScope candidate repeatScope path value)
      (Candidate.VersionOf origin) := by
  apply Ensures.bind
  intro found _
  apply Ensures.bind
  intro index _
  apply Ensures.bind
  intro encoded _
  apply Ensures.bind
  intro grammar _
  apply Ensures.bind
  intro decoded _
  exact .ok (version.insertSubrecord _ _ _)

/-- `removeAllInScope` keeps the record. -/
theorem removeAllInScope_version (version : candidate.VersionOf origin) (repeatScope : RepeatScope)
    (path : String) :
    Ensures (editor.removeAllInScope candidate repeatScope path) (Candidate.VersionOf origin) := by
  unfold removeAllInScope
  generalize candidate.record.subrecords.length + 1 = fuel
  induction fuel generalizing candidate with
  | zero => exact .ok version
  | succ fuel ih =>
    rw [removeAllInScopeLoop]
    apply Ensures.bind
    intro selected _
    cases selected with
    | none => exact .ok version
    | some found =>
      apply Ensures.bind
      intro node _
      apply Ensures.bind
      intro _ _
      exact ih (version.removeField _ _ _)

/-- `removeAllLoop` keeps the record. -/
theorem removeAllLoop_version (version : candidate.VersionOf origin) (path : String)
    (signature : Signature) (fuel : Nat) :
    Ensures (editor.removeAllLoop path signature fuel candidate) (Candidate.VersionOf origin) := by
  induction fuel generalizing candidate with
  | zero => exact .ok version
  | succ fuel ih =>
    rw [removeAllLoop]
    apply Ensures.bind
    intro existing _
    cases existing with
    | none => exact .ok version
    | some index =>
      apply Ensures.bind
      intro _ _
      exact ih (version.removeField _ _ _)

/-- `insertDefault` keeps the record. -/
theorem insertDefault_version (version : candidate.VersionOf origin)
    (repeatScope : Option RepeatScope) (path : String) :
    Ensures (editor.insertDefault candidate repeatScope path) (Candidate.VersionOf origin) := by
  apply Ensures.bind
  intro found _
  obtain ⟨node, signature, payload⟩ := found
  cases repeatScope with
  | some scope =>
    apply Ensures.bind
    intro index _
    apply Ensures.bind
    intro value _
    exact insertInScope_version editor version scope path value
  | none =>
    apply Ensures.bind
    intro index _
    apply Ensures.bind
    intro value _
    apply Ensures.bind
    intro encoded _
    apply Ensures.bind
    intro occurrence _
    apply Ensures.bind
    intro decoded _
    exact .ok (version.insertSubrecord _ _ _)

/-- `removeContainerAssignments` keeps the record. -/
theorem removeContainerAssignments_version (version : candidate.VersionOf origin)
    (repeatScope : Option RepeatScope) (path : String) :
    Ensures (editor.removeContainerAssignments candidate repeatScope path)
      (Candidate.VersionOf origin) := by
  apply Ensures.bind
  intro _ _
  apply Ensures.bind
  intro grammar _
  exact .ok (version.removeFields _)

/-- `removeContainerOccurrence` keeps the record. -/
theorem removeContainerOccurrence_version (version : candidate.VersionOf origin)
    (repeatScope : Option RepeatScope) (path : String) (occurrence : Nat) :
    Ensures (editor.removeContainerOccurrence candidate repeatScope path occurrence)
      (Candidate.VersionOf origin) := by
  apply Ensures.bind
  intro node _
  cases node with
  | sequence info children =>
    show Ensures (if 2 ^ 32 ≤ occurrence then _ else _) _
    refine .ite (.error _) (.bind fun grammar _ => ?_)
    exact .ite (.ok (version.removeFields _)) (.error _)
  | _ => exact .error _

/-- `resetSubrecordToDefault` keeps the record. -/
theorem resetSubrecordToDefault_version (version : candidate.VersionOf origin) (path : String)
    (index occurrence : Nat) :
    Ensures (editor.resetSubrecordToDefault candidate path index occurrence)
      (Candidate.VersionOf origin) := by
  apply Ensures.bind
  intro found _
  apply Ensures.bind
  intro _ _
  apply Ensures.bind
  intro value _
  apply Ensures.bind
  intro encoded _
  apply Ensures.bind
  intro decoded _
  exact .ok (version.setPayload _ _ _)

/-- `commitNested` keeps the record. -/
theorem commitNested_version (version : candidate.VersionOf origin) (parent : SchemaNode)
    (index occurrence : Nat) (updated : OwnedFieldValue) :
    Ensures (editor.commitNested candidate parent index occurrence updated)
      (Candidate.VersionOf origin) := by
  cases parent with
  | subrecord info signature payload =>
    apply Ensures.bind
    intro encoded _
    apply Ensures.bind
    intro _ _
    apply Ensures.bind
    intro decoded _
    exact .ok (version.setPayload _ _ _)
  | _ => exact .error _

/-- `applyNestedSetIn` keeps the record. -/
theorem applyNestedSetIn_version (version : candidate.VersionOf origin) (parent : SchemaNode)
    (path : String) (occurrence : Nat) (value : OwnedFieldValue) (occurrences : List Nat)
    (remaining : Nat) :
    Ensures (editor.applyNestedSetIn candidate parent path occurrence value occurrences remaining)
      (Candidate.VersionOf origin) := by
  induction occurrences generalizing remaining with
  | nil => exact .error _
  | cons parentOccurrence rest ih =>
    rw [applyNestedSetIn]
    cases candidate.decodedValues.get? (parent.path, parentOccurrence) with
    | none => exact .error _
    | some current =>
      apply Ensures.bind
      intro index _
      apply Ensures.bind
      intro probe _
      apply Ensures.ite (.ok version)
      apply Ensures.bind
      intro search _
      cases search with
      | missing remaining => exact ih remaining
      | found updated => exact commitNested_version editor version _ _ _ _

/-- `applyNestedSet` keeps the record. -/
theorem applyNestedSet_version (version : candidate.VersionOf origin) (path : String)
    (occurrence : Nat) (value : OwnedFieldValue) :
    Ensures (editor.applyNestedSet candidate path occurrence value)
      (Candidate.VersionOf origin) := by
  apply Ensures.bind
  intro parent _
  exact applyNestedSetIn_version editor version _ _ _ _ _ _

/-- `applyNestedSetIfEqualIn` keeps the record. -/
theorem applyNestedSetIfEqualIn_version (version : candidate.VersionOf origin)
    (parent : SchemaNode) (path : String) (occurrence : Nat) (expected value : OwnedFieldValue)
    (occurrences : List Nat) (remaining : Nat) :
    Ensures (editor.applyNestedSetIfEqualIn candidate parent path occurrence expected value
      occurrences remaining) (Candidate.VersionOf origin) := by
  induction occurrences generalizing remaining with
  | nil => exact .error _
  | cons parentOccurrence rest ih =>
    rw [applyNestedSetIfEqualIn]
    cases candidate.decodedValues.get? (parent.path, parentOccurrence) with
    | none => exact .error _
    | some current =>
      apply Ensures.bind
      intro index _
      apply Ensures.bind
      intro probe _
      cases probe with
      | missing remaining => exact ih remaining
      | found current =>
        show Ensures (if !ownedValuesEqual current expected then _ else _) _
        apply Ensures.ite (.ok version)
        apply Ensures.bind
        intro search _
        cases search with
        | missing remaining => exact .error _
        | found updated => exact commitNested_version editor version _ _ _ _

/-- `applyNestedSetIfEqual` keeps the record. -/
theorem applyNestedSetIfEqual_version (version : candidate.VersionOf origin) (path : String)
    (occurrence : Nat) (expected value : OwnedFieldValue) :
    Ensures (editor.applyNestedSetIfEqual candidate path occurrence expected value)
      (Candidate.VersionOf origin) := by
  apply Ensures.bind
  intro parent _
  exact applyNestedSetIfEqualIn_version editor version _ _ _ _ _ _ _

/-- `applySet` keeps the record. -/
theorem applySet_version (version : candidate.VersionOf origin) (path : String)
    (occurrence : Nat) (value : OwnedFieldValue) :
    Ensures (editor.applySet candidate path occurrence value) (Candidate.VersionOf origin) := by
  apply Ensures.bind
  intro node _
  cases node with
  | subrecord info signature payload =>
    apply Ensures.bind
    intro index _
    apply Ensures.bind
    intro encoded _
    apply Ensures.bind
    intro _ _
    apply Ensures.bind
    intro decoded _
    exact .ok (version.setPayload _ _ _)
  | _ => exact applyNestedSet_version editor version path occurrence value

/-- `insertAtOccurrence` keeps the record. -/
theorem insertAtOccurrence_version (version : candidate.VersionOf origin) (path message : String)
    (occurrence : Nat) (signature : Signature) (encoded : Bytes) (value : OwnedFieldValue) :
    Ensures (editor.insertAtOccurrence candidate path message occurrence signature encoded value)
      (Candidate.VersionOf origin) := by
  apply Ensures.bind
  intro found _
  apply Ensures.bind
  intro index _
  apply Ensures.bind
  intro decoded _
  exact .ok (version.insertSubrecord _ _ _)

/-- `synchronizeCount` keeps the record. -/
theorem synchronizeCount_version (version : candidate.VersionOf origin) (path : String)
    (occurrence : Nat) (value : UInt64) (removeWhenZero : Bool) :
    Ensures (editor.synchronizeCount candidate path occurrence value removeWhenZero)
      (Candidate.VersionOf origin) := by
  apply Ensures.bind
  intro found _
  apply Ensures.bind
  intro existing _
  apply Ensures.ite
  · apply Ensures.ok
    cases existing with
    | some index => exact version.removeField _ _ _
    | none => exact version
  · apply Ensures.bind
    intro encoded _
    cases existing with
    | some index =>
      apply Ensures.bind
      intro _ _
      apply Ensures.bind
      intro decoded _
      exact .ok (version.setPayload _ _ _)
    | none => exact insertAtOccurrence_version editor version _ _ _ _ _ _

/-- `synchronizePresence` keeps the record. -/
theorem synchronizePresence_version (version : candidate.VersionOf origin) (path : String)
    (occurrence : Nat) (present : Bool) (value : OwnedFieldValue) :
    Ensures (editor.synchronizePresence candidate path occurrence present value)
      (Candidate.VersionOf origin) := by
  apply Ensures.bind
  intro existing _
  cases present with
  | true =>
    cases existing with
    | some index => exact .ok version
    | none =>
      apply Ensures.bind
      intro encoded _
      exact insertAtOccurrence_version editor version _ _ _ _ _ _
  | false =>
    cases existing with
    | some index => exact .ok (version.removeField _ _ _)
    | none => exact .ok version

/-- A record-wide mutation keeps the record. -/
theorem applyMutation_version (version : candidate.VersionOf origin)
    (mutation : HandlerMutation) :
    Ensures (editor.applyMutation candidate mutation) (Candidate.VersionOf origin) := by
  cases mutation with
  | setRecordFlags path flags =>
    exact .ite (.error _) (.ok ⟨version.signature, version.formId⟩)
  | set path occurrence value => exact applySet_version editor version _ _ _
  | setIfEqual path occurrence expected value =>
    exact applyNestedSetIfEqual_version editor version _ _ _ _
  | replacePayload path occurrence data =>
    apply Ensures.bind
    intro found _
    apply Ensures.bind
    intro index _
    apply Ensures.bind
    intro _ _
    exact .ok (version.setPayload _ _ _)
  | insertPayload path data =>
    apply Ensures.bind
    intro _ _
    apply Ensures.bind
    intro found _
    apply Ensures.bind
    intro index _
    exact .ok (version.insertSubrecord _ _ _)
  | resetToDefault path occurrence => exact .error _
  | insertDefault path => exact insertDefault_version editor version none path
  | removeContainer path => exact removeContainerAssignments_version editor version _ _
  | removeContainerOccurrence path occurrence =>
    exact removeContainerOccurrence_version editor version _ _ _
  | insert path value =>
    apply Ensures.bind
    intro encoded _
    apply Ensures.bind
    intro occurrence _
    exact insertAtOccurrence_version editor version _ _ _ _ _ _
  | remove path occurrence =>
    apply Ensures.bind
    intro found _
    apply Ensures.bind
    intro index _
    apply Ensures.bind
    intro _ _
    exact .ok (version.removeField _ _ _)
  | removeAll path =>
    apply Ensures.bind
    intro found _
    exact removeAllLoop_version editor version _ _ _
  | removeAllBySignature path signature =>
    apply Ensures.bind
    intro _ _
    exact .ok ⟨version.signature, version.formId⟩
  | removeFirstBySignature path signature =>
    apply Ensures.bind
    intro _ _
    exact .ok ⟨version.signature, version.formId⟩
  | synchronizeCount path occurrence value removeWhenZero =>
    exact synchronizeCount_version editor version _ _ _ _
  | synchronizePresence path occurrence present value =>
    exact synchronizePresence_version editor version _ _ _ _

/-- A mutation within a repeat scope keeps the record. -/
theorem applyMutationInScope_version (version : candidate.VersionOf origin)
    (repeatScope : RepeatScope) (mutation : HandlerMutation) :
    Ensures (editor.applyMutationInScope repeatScope candidate mutation)
      (Candidate.VersionOf origin) := by
  cases mutation with
  | set path occurrence value =>
    apply Ensures.bind
    intro found _
    exact applyMutation_version editor version _
  | setIfEqual path occurrence expected value =>
    apply Ensures.bind
    intro found _
    exact applyMutation_version editor version _
  | replacePayload path occurrence data =>
    apply Ensures.bind
    intro found _
    exact applyMutation_version editor version _
  | resetToDefault path occurrence =>
    apply Ensures.bind
    intro found _
    exact resetSubrecordToDefault_version editor version _ _ _
  | insertDefault path => exact insertDefault_version editor version (some repeatScope) path
  | removeContainer path => exact removeContainerAssignments_version editor version _ _
  | removeContainerOccurrence path occurrence =>
    exact removeContainerOccurrence_version editor version _ _ _
  | insert path value => exact insertInScope_version editor version _ _ _
  | remove path occurrence =>
    apply Ensures.bind
    intro found _
    exact applyMutation_version editor version _
  | removeAll path => exact removeAllInScope_version editor version _ _
  | synchronizeCount path occurrence value removeWhenZero =>
    apply Ensures.bind
    intro existing _
    cases existing with
    | some found => exact applyMutation_version editor version _
    | none => exact .ite (.ok version) (insertInScope_version editor version _ _ _)
  | synchronizePresence path occurrence present value =>
    apply Ensures.bind
    intro existing _
    cases existing with
    | some found => exact applyMutation_version editor version _
    | none => exact .ite (insertInScope_version editor version _ _ _) (.ok version)
  | _ => exact .error _

/-- The mutations of the callbacks of the edited payload keep the record. -/
theorem applyLocalMutationsWithScope_version (version : candidate.VersionOf origin)
    (changed : ChangedField) (mutations : List HandlerMutation) :
    Ensures (editor.applyLocalMutationsWithScope changed candidate mutations)
      (Candidate.VersionOf origin) := by
  refine Ensures.foldlM (fun state kept mutation => ?_) version
  unfold applyLocalMutation
  cases enclosingScope changed mutation.path with
  | some repeatScope => exact applyMutationInScope_version editor kept repeatScope mutation
  | none => exact applyMutation_version editor kept mutation

/-- The mutations of a callback keep the record. -/
theorem applyCallbackMutations_version (version : candidate.VersionOf origin)
    (repeatScope : Option RepeatScope) (mutations : List HandlerMutation) :
    Ensures (editor.applyCallbackMutations repeatScope candidate mutations)
      (Candidate.VersionOf origin) := by
  cases repeatScope with
  | some scope =>
    exact Ensures.foldlM (fun _ kept => applyMutationInScope_version editor kept scope) version
  | none => exact Ensures.foldlM (fun _ kept => applyMutation_version editor kept) version

/-- An after-set callback keeps the record. -/
theorem applyRecordCallback_version (version : candidate.VersionOf origin)
    (changed : ChangedField) (binding : CallbackBinding) :
    Ensures (editor.applyRecordCallback changed candidate binding)
      (Candidate.VersionOf origin) := by
  refine .ite (.error _) (.bind fun sourceRecord _ => ?_)
  apply Ensures.bind
  intro access _
  apply Ensures.bind
  intro output _
  cases output with
  | none => exact .ok version
  | mutations mutations => exact applyCallbackMutations_version editor version _ mutations
  | _ => exact .error _

/-- The mutations and the after-set callbacks of an edit keep the record. -/
theorem applyAfterSetCallbacks_version (version : candidate.VersionOf origin)
    (changed : ChangedField) :
    Ensures (editor.applyAfterSetCallbacks changed candidate) (Candidate.VersionOf origin) :=
  Ensures.foldlM (fun _ kept => applyRecordCallback_version editor kept changed) version

/-- What follows an edited field keeps the record. -/
theorem finishEdit_version (version : candidate.VersionOf origin) (changed : ChangedField)
    (mutations : List HandlerMutation) :
    Ensures (editor.finishEdit changed candidate mutations) (Candidate.VersionOf origin) := by
  apply Ensures.bind
  intro mutated done
  have kept := applyLocalMutationsWithScope_version editor version changed mutations mutated done
  exact applyAfterSetCallbacks_version editor kept changed

/-- The candidate that an operation starts from. -/
theorem candidate_version : editor.candidate.VersionOf editor.record := ⟨rfl, rfl⟩

/-- A written payload keeps the record. -/
theorem payloadCandidate_version (payload : SchemaNode) (path : String) (occurrence index : Nat)
    (value : OwnedFieldValue) (mutations : List HandlerMutation) :
    Ensures (editor.payloadCandidate payload path occurrence index value mutations)
      (Candidate.VersionOf editor.record) := by
  apply Ensures.bind
  intro encoded _
  apply Ensures.bind
  intro decoded _
  apply Ensures.bind
  intro changed _
  exact finishEdit_version editor ((candidate_version editor).setPayload _ _ _) changed mutations

/-- `set` keeps the record. -/
theorem setCandidate_version (path : String) (occurrence : Nat) (value : OwnedFieldValue) :
    Ensures (editor.setCandidate path occurrence value) (Candidate.VersionOf editor.record) := by
  apply Ensures.bind
  intro found _
  apply Ensures.bind
  intro index _
  apply Ensures.bind
  intro normalized _
  apply Ensures.bind
  intro after _
  apply Ensures.bind
  intro _ _
  exact payloadCandidate_version editor _ _ _ _ _ _

/-- The occurrences tried by `set_parsed_value` keep the record. -/
theorem setParsedValueIn_version (parent payload : SchemaNode) (path : String) (occurrence : Nat)
    (normalized : OwnedFieldValue) (mutations : List HandlerMutation) (occurrences : List Nat)
    (remaining : Nat) :
    Ensures (editor.setParsedValueIn parent payload path occurrence normalized mutations
      occurrences remaining) (Candidate.VersionOf editor.record) := by
  induction occurrences generalizing remaining with
  | nil => exact .error _
  | cons parentOccurrence rest ih =>
    rw [setParsedValueIn]
    cases editor.decodedValues.get? (parent.path, parentOccurrence) with
    | none => exact ih remaining
    | some current =>
      apply Ensures.bind
      intro search _
      cases search with
      | missing remaining => exact ih remaining
      | found updated =>
        apply Ensures.bind
        intro index _
        apply Ensures.bind
        intro after _
        exact payloadCandidate_version editor _ _ _ _ _ _

/-- `set_parsed_value` keeps the record. -/
theorem setParsedCandidate_version (path : String) (occurrence : Nat) (parsed : ParsedEditValue) :
    Ensures (editor.setParsedCandidate path occurrence parsed)
      (Candidate.VersionOf editor.record) := by
  apply Ensures.bind
  intro target _
  apply Ensures.bind
  intro parent _
  cases parent with
  | subrecord info signature payload =>
    apply Ensures.bind
    intro normalized _
    apply Ensures.bind
    intro count _
    exact setParsedValueIn_version editor _ _ _ _ _ _ _ _
  | _ => exact .error _

/-- The mutation of an editor-ID callback keeps the record. -/
theorem recordMetadataCandidate_version (mutations : List HandlerMutation) :
    Ensures (editor.recordMetadataCandidate mutations) (Candidate.VersionOf editor.record) := by
  unfold recordMetadataCandidate
  split
  · rename_i path occurrence value
    apply Ensures.bind
    intro parent _
    cases decodedOccurrences editor.decodedValues parent.path with
    | nil => exact .error _
    | cons parentOccurrence others =>
      cases others with
      | cons other others => exact .error _
      | nil =>
        cases stored : editor.decodedValues.get? (parent.path, parentOccurrence) with
        | none =>
          simp only [stored]
          exact .error _
        | some current =>
          simp only [stored]
          apply Ensures.bind
          intro search _
          cases search with
          | missing remaining => exact .error _
          | found updated =>
            apply Ensures.bind
            intro encoded _
            apply Ensures.bind
            intro index _
            apply Ensures.bind
            intro _ _
            apply Ensures.bind
            intro decoded _
            exact .ok ((candidate_version editor).setPayload _ _ _)
  · exact .error _

/-- An editor-ID callback keeps the record. -/
theorem editorIdCandidate_version (editorId : String) :
    Ensures (editor.editorIdCandidate editorId)
      fun candidate => ∀ changed, candidate = some changed → changed.VersionOf editor.record := by
  unfold editorIdCandidate
  split
  · exact .ok fun changed same => by cases same
  · rename_i binding _
    refine .ite (.error _) (.bind fun output _ => ?_)
    cases output with
    | mutations mutations =>
      apply Ensures.map
      intro candidate done changed same
      rw [← Option.some.inj same]
      exact recordMetadataCandidate_version editor mutations candidate done
    | _ => exact .error _
  · exact .error _

/-- `insert` keeps the record. -/
theorem insertCandidate_version (path : String) (value : OwnedFieldValue) :
    Ensures (editor.insertCandidate path value)
      fun inserted => inserted.2.VersionOf editor.record := by
  apply Ensures.bind
  intro found _
  apply Ensures.bind
  intro index _
  apply Ensures.bind
  intro occurrence _
  apply Ensures.bind
  intro normalized _
  apply Ensures.bind
  intro after _
  apply Ensures.bind
  intro encoded _
  apply Ensures.bind
  intro decoded _
  apply Ensures.bind
  intro changed _
  apply Ensures.bind
  intro candidate done
  have version := (candidate_version editor).insertSubrecord index ⟨found.2.1, encoded⟩
    (editor.decodedValues.insert (path, occurrence) decoded)
  exact .ok (finishEdit_version editor version changed _ candidate done)

/-- `remove` keeps the record. -/
theorem removeCandidate_version (path : String) (occurrence : Nat) :
    Ensures (editor.removeCandidate path occurrence)
      fun removed => removed.2.VersionOf editor.record := by
  apply Ensures.bind
  intro _ _
  apply Ensures.bind
  intro index _
  apply Ensures.bind
  intro changed _
  apply Ensures.bind
  intro candidate done
  have version := (candidate_version editor).removeField index path occurrence
  exact .ok (applyAfterSetCallbacks_version editor version changed candidate done)

/-- An insertion before a field keeps the record. -/
theorem insertBeforeCandidate_version (field : Field) (value : OwnedFieldValue) :
    Ensures (editor.insertBeforeCandidate field value) (Candidate.VersionOf editor.record) := by
  apply Ensures.bind
  intro found _
  apply Ensures.bind
  intro normalized _
  apply Ensures.bind
  intro after _
  apply Ensures.bind
  intro encoded _
  apply Ensures.bind
  intro decoded _
  apply Ensures.bind
  intro before _
  apply Ensures.bind
  intro match_ _
  apply Ensures.bind
  intro _ _
  apply Ensures.bind
  intro changed _
  exact finishEdit_version editor ((candidate_version editor).insertSubrecord _ _ _) changed _

/-- Two editors edit the same record of the same schema. -/
structure SameRecord (before after : RecordEditor) : Prop where
  /-- The schema and its handlers. -/
  context : after.context = before.context
  /-- The signature. -/
  signature : after.record.signature = before.record.signature
  /-- The FormID. -/
  formId : after.record.formId = before.record.formId

/-- A committed candidate of the record. -/
theorem SameRecord.commit {before after : RecordEditor} (same : before.SameRecord after)
    {candidate : Candidate} (version : candidate.VersionOf after.record) :
    before.SameRecord (after.commit candidate) :=
  ⟨same.context, version.signature.trans same.signature, version.formId.trans same.formId⟩

/-- The editor that an operation leaves edits the same record. -/
abbrev Stays {α : Type} (before after : RecordEditor) (action : EditorM α) : Prop :=
  LeavesAt before.SameRecord after action

variable {before after : RecordEditor} (same : before.SameRecord after)

include same

/-- What follows a method that only reads the editor. -/
theorem stays_semantic {α β : Type} {result : Except SemanticError α} {next : α → EditorM β}
    (rest : ∀ value, result = .ok value → before.Stays after (next value)) :
    before.Stays after (EditorM.semantic result >>= next) := by
  cases result with
  | ok value => exact rest value rfl
  | error error => exact same

/-- `set` stays with the record. -/
theorem set_stays (path : String) (occurrence : Nat) (value : OwnedFieldValue) :
    before.Stays after (set path occurrence value) := by
  apply LeavesAt.bind_get
  apply stays_semantic same
  intro candidate done
  exact same.commit (setCandidate_version after path occurrence value candidate done)

/-- `set_parsed_value` stays with the record. -/
theorem setParsedValue_stays (path : String) (occurrence : Nat) (parsed : ParsedEditValue) :
    before.Stays after (setParsedValue path occurrence parsed) := by
  apply LeavesAt.bind_get
  apply stays_semantic same
  intro candidate done
  exact same.commit (setParsedCandidate_version after path occurrence parsed candidate done)

/-- `set_record_editor_id` stays with the record. -/
theorem setRecordEditorId_stays (editorId : String) :
    before.Stays after (setRecordEditorId editorId) := by
  apply LeavesAt.bind_get
  apply stays_semantic same
  intro candidate done
  cases candidate with
  | none => exact same
  | some candidate =>
    exact same.commit (editorIdCandidate_version after editorId _ done candidate rfl)

/-- A committed insertion stays with the record. -/
theorem commitInsertion_stays (index : Nat) {candidate : Candidate}
    (version : candidate.VersionOf after.record) :
    before.Stays after (commitInsertion index candidate) := by
  have kept := same.commit version
  apply LeavesAt.bind (LeavesAt.modify kept)
  intro _ committed _ stays
  apply LeavesAt.bind_get
  cases insertSlot committed.inlineStringCodecs index [] with
  | some codecs => exact ⟨stays.context, stays.signature, stays.formId⟩
  | none => exact stays

/-- `insert` stays with the record. -/
theorem insert_stays (path : String) (value : OwnedFieldValue) :
    before.Stays after (insert path value) := by
  apply LeavesAt.bind_get
  apply stays_semantic same
  intro inserted done
  exact commitInsertion_stays same inserted.1 (insertCandidate_version after path value _ done)

/-- `remove` stays with the record. -/
theorem remove_stays (path : String) (occurrence : Nat) :
    before.Stays after (remove path occurrence) := by
  apply LeavesAt.bind_get
  apply stays_semantic same
  intro removed done
  have kept := same.commit (removeCandidate_version after path occurrence _ done)
  exact ⟨kept.context, kept.signature, kept.formId⟩

variable (sha256 : Sha256) (address : FieldAddress)

/-- `set_at` stays with the record. -/
theorem setAt_stays (value : OwnedFieldValue) :
    before.Stays after (setAt sha256 address value) := by
  apply LeavesAt.bind_get
  apply stays_semantic same
  intro target _
  exact set_stays same target.1.path target.1.occurrence target.2

/-- `insert_at` stays with the record. -/
theorem insertAt_stays (value : OwnedFieldValue) :
    before.Stays after (insertAt sha256 address value) := by
  apply LeavesAt.bind_get
  apply stays_semantic same
  intro field _
  apply stays_semantic same
  intro updated _
  cases updated with
  | some updated => exact set_stays same field.path field.occurrence updated
  | none =>
    apply stays_semantic same
    intro candidate done
    exact commitInsertion_stays same field.subrecordIndex
      (insertBeforeCandidate_version after field value _ done)

/-- `remove_at` stays with the record. -/
theorem removeAt_stays : before.Stays after (removeAt sha256 address) := by
  apply LeavesAt.bind_get
  apply stays_semantic same
  intro field _
  cases address.valueSteps.getLast? with
  | none => exact remove_stays same field.path field.occurrence
  | some last =>
    apply stays_semantic same
    intro updated _
    exact set_stays same field.path field.occurrence updated

/-- `set_inline_encoding_at` stays with the record. -/
theorem setInlineEncodingAt_stays (path : String) (encoding : InlineStringEncoding) :
    before.Stays after (setInlineEncodingAt sha256 address path encoding) := by
  apply LeavesAt.bind_get
  apply stays_semantic same
  intro target _
  apply LeavesAt.bind (LeavesAt.modify ⟨same.context, same.signature, same.formId⟩)
  intro _ selected _ stays
  apply LeavesAt.bind_get
  cases selected.verifyInline address path with
  | ok _ => exact stays
  | error error =>
    apply LeavesAt.bind (LeavesAt.modify ⟨stays.context, stays.signature, stays.formId⟩)
    intro _ restored _ again
    exact again

/-- `set_string_at_with_encoding` stays with the record. -/
theorem setStringAtWithEncoding_stays (path : String) (encoding : InlineStringEncoding)
    (text : String) :
    before.Stays after (setStringAtWithEncoding sha256 address path encoding text) := by
  apply LeavesAt.bind_get
  cases after.inlineStringCodecs[address.subrecordIndex]? with
  | none => exact same
  | some previous =>
    apply LeavesAt.bind (setInlineEncodingAt_stays same sha256 address path encoding)
    intro _ selected _ stays
    apply LeavesAt.tryCatch (setAt_stays stays sha256 address _)
    intro failure failed again
    apply LeavesAt.bind (LeavesAt.modify ⟨again.context, again.signature, again.formId⟩)
    intro _ restored _ last
    exact last

end RecordEditor

/-- Every operation, whether it succeeds or not, leaves an editor of the same record. -/
theorem EditorOp.step_sameRecord (sha256 : Sha256) (op : EditorOp) (editor : RecordEditor) :
    editor.SameRecord (op.step sha256 editor).2 := by
  have same : editor.SameRecord editor := ⟨rfl, rfl, rfl⟩
  cases op with
  | set path occurrence value => exact RecordEditor.set_stays same path occurrence value
  | setParsedValue path occurrence parsed =>
    exact RecordEditor.setParsedValue_stays same path occurrence parsed
  | setRecordEditorId editorId =>
    exact LeavesAt.bind (RecordEditor.setRecordEditorId_stays same editorId)
      fun _ _ _ stays => stays
  | insert path value => exact RecordEditor.insert_stays same path value
  | remove path occurrence => exact RecordEditor.remove_stays same path occurrence
  | setAt address value => exact RecordEditor.setAt_stays same sha256 address value
  | insertAt address value => exact RecordEditor.insertAt_stays same sha256 address value
  | removeAt address => exact RecordEditor.removeAt_stays same sha256 address
  | setInlineEncodingAt address path encoding =>
    exact RecordEditor.setInlineEncodingAt_stays same sha256 address path encoding
  | setStringAtWithEncoding address path encoding text =>
    exact RecordEditor.setStringAtWithEncoding_stays same sha256 address path encoding text

end Bethkit
