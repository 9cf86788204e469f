import Bethkit.Semantic.Editor
import Bethkit.Semantic.InfoSort

/-!
# Editing the predecessor of an INFO

An info gets another predecessor, and the group that contains it a plan for its new order. The edit
itself runs without the handler that would ask for the sorting.
-/

namespace Bethkit

open Lib

/-- `find_topic_group_record`. -/
def findTopicGroupRecord (plugin : PluginInput) (formId : FormId) :
    Except SemanticError (Option (Group × Record)) :=
  match (topicGroups plugin).filterMap fun group =>
      (group.records.find? (·.header.formId = formId)).map fun record => (group, record) with
  | [] => .ok none
  | [pair] => .ok (some pair)
  | pairs =>
    let info := formId.display
    let count := pairs.length
    infoSortError s!"INFO {info} resolves {count} topic-child groups"

/-- `info_previous_raw`. -/
def infoPreviousRaw (inflate : Inflate) (record : Record) : Except SemanticError (Option FormId) := do
  match ← previousPayload inflate record with
  | none => .ok none
  | some payload => do
    let raw ← previousWord payload
    .ok (some ⟨raw⟩)

/-- `writable_record`. -/
def writableRecord (inflate : Inflate) (record : Record) : Except SemanticError WritableRecord := do
  let subrecords ← (record.subrecords inflate).mapError SemanticError.core
  .ok {
    signature := record.header.signature
    flags := record.header.flags
    formId := record.header.formId
    formVersion := record.header.formVersion
    subrecords := subrecords.map fun subrecord => ⟨subrecord.signature, subrecord.asBytes⟩ }

/-- `callback_form_id`. -/
def callbackFormId (value : FieldValue) (handler : String) : Except SemanticError FormId :=
  match value with
  | .formId value _ => .ok value
  | value => do
    let number ← callbackInteger value handler
    let raw ← callbackU32 number handler
    .ok ⟨raw⟩

/-- `SortInfoGroupAfterSet`. -/
def sortInfoGroupAfterSet (enabled : Bool) : SemanticHandler where
  id := "edit.sort_info_group"
  version := 1
  invoke invocation :=
    if invocation.phase ≠ .afterSet ∨ !enabled then .ok .none
    else
      match invocation.value with
      | none => infoSortError "INFO group sorting requires the new PNAM value"
      | some value => do
        let newValue ← callbackFormId value "edit.sort_info_group"
        let oldValue ← invocation.oldValue.mapM (callbackFormId · "edit.sort_info_group")
        if oldValue = some newValue then .ok .none else .ok .groupSortRequested

/-- The context in which an info is edited: its package, decoders and handlers without the sorting.
The checks of `new_with_handlers` have passed when the context itself was made. -/
def SemanticContext.withoutSorting (context : SemanticContext) : SemanticContext :=
  let handler := sortInfoGroupAfterSet false
  { context with
    handlers := ⟨context.handlers.handlers.insert handler.id handler⟩
    inlineStringEncoding := none }

/-- The path of the callback that sorts the group of an info. -/
def sortCallbackPath (context : SemanticContext) : Option String :=
  (context.registry.package.callbackBindings.find? fun binding =>
    match binding.implementation with
    | .builtIn operation =>
      binding.callbackId = "def.after_set" && operation.id = "edit.sort_info_group" &&
        (strStripPrefix binding.path "INFO/").isSome
    | _ => false).map (·.path)

/-- The edit of one predecessor value. -/
def setPrevious (path : String) (oldPrevious : Option FormId) (newPrevious : FormId) :
    EditorM Unit :=
  if oldPrevious.isSome then RecordEditor.set path 0 (.formId newPrevious)
  else RecordEditor.insert path (.formId newPrevious)

/-- A record edit and the sort of the group around it. -/
structure InfoPreviousEdit where
  /-- The edited record. -/
  record : WritableRecord
  /-- The sort of its group, if sorting is enabled. -/
  groupSort : Option InfoGroupSortPlan
  /-- Whether the value differs from the one of the source. -/
  changed : Bool

/-- The edit of an info of one of the plugins, with the search for the group of its topic. -/
def editInfoOf (toLowercase : Lowercase) (inflate : Inflate) (context : SemanticContext)
    (order : LoadOrder) (plugins : List PluginInput) (targetPlugin : String)
    (infoFormId newPrevious : FormId) (sortInfo : Bool) (target : PluginInput) :
    Except EditFailure InfoPreviousEdit := do
  let found ← (findTopicGroupRecord target infoFormId).mapError .error
  let info := infoFormId.display
  let (group, record) ← match found with
    | some pair => .ok pair
    | none => (infoSortError s!"INFO {info} has no containing topic-child group").mapError .error
  let dialRaw ← match group.header.label with
    | .formId label => .ok label
    | _ => (infoSortError "topic-child group has a non-FormID label").mapError .error
  let raw := dialRaw.display
  let dial ← match target.resolve toLowercase order dialRaw with
    | some dial => .ok dial
    | none => (infoSortError s!"cannot resolve containing DIAL FormID {raw}").mapError .error
  let path ← match sortCallbackPath context with
    | some path => .ok path
    | none => .error (.error (.missingHandler "edit.sort_info_group"))
  let oldPrevious ← (infoPreviousRaw inflate record).mapError .error
  if oldPrevious = some newPrevious then do
    let record ← (writableRecord inflate record).mapError .error
    .ok ⟨record, none, false⟩
  else do
    let editor ← (RecordEditor.new inflate context.withoutSorting record target.plugin.isLocalized
      none).mapError .error
    let (outcome, editor) := (setPrevious path oldPrevious newPrevious).run.run editor
    outcome
    let edited := editor.intoWritableRecord
    let groupSort ←
      if sortInfo then
        (planInfoGroupSortWithOverride toLowercase inflate order plugins targetPlugin dial
          (some edited)).mapError .error
      else .ok none
    .ok ⟨edited, groupSort, true⟩

/-- `edit_info_previous`. -/
def editInfoPrevious (toLowercase : Lowercase) (inflate : Inflate) (context : SemanticContext)
    (order : LoadOrder) (plugins : List PluginInput) (targetPlugin : String)
    (infoFormId newPrevious : FormId) (sortInfo : Bool) : Except EditFailure InfoPreviousEdit := do
  let (target, _) ← (selectTarget toLowercase plugins targetPlugin).mapError .error
  editInfoOf toLowercase inflate context order plugins targetPlugin infoFormId newPrevious sortInfo
    target

end Bethkit
