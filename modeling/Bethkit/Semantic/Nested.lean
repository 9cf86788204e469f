import Bethkit.Semantic.Encode

/-!
# Values inside a payload

Normalization of an edited value, navigation to the value at a path below a node, schema-native
defaults, and the after-set callbacks of the nodes of a payload. Occurrences of a path are counted
down in traversal order; a search returns what it found or the occurrences left.
-/

namespace Bethkit

open Lib

/-- The outcome of a search for an occurrence of a path. -/
inductive NestedSearch (α : Type) where
  /-- The occurrence was found. -/
  | found (result : α)
  /-- It was not; so many occurrences remain to be passed. -/
  | missing (occurrence : Nat)

/-- Change what was found. -/
def NestedSearch.map {α β : Type} (f : α → β) : NestedSearch α → NestedSearch β
  | .found result => .found (f result)
  | .missing occurrence => .missing occurrence

/-- What the after-set callbacks of a node make of a value, and the mutations they request. -/
abbrev AfterSet : Type := OwnedFieldValue × List HandlerMutation

/-- The after-set processing of one node, given the new and the old value. -/
abbrev AfterSetStep : Type :=
  OwnedFieldValue → Option FieldValue → Except SemanticError AfterSet

/-- The member of a decoded struct at a position. -/
def oldMember (oldValue : Option FieldValue) (index : Nat) : Option FieldValue :=
  match oldValue with
  | some (.struct values) => (values[index]?).map (·.value)
  | _ => none

/-- The element of a decoded array at a position. -/
def oldElement (oldValue : Option FieldValue) (index : Nat) : Option FieldValue :=
  match oldValue with
  | some (.array values) => values[index]?
  | _ => none

/-- Visit the elements of an array until one of them holds what is searched. -/
def editElements (step : OwnedFieldValue → Nat → Nat → Except SemanticError
    (NestedSearch OwnedFieldValue)) :
    List OwnedFieldValue → Nat → Nat → Except SemanticError (NestedSearch (List OwnedFieldValue))
  | [], _, occurrence => .ok (.missing occurrence)
  | value :: values, index, occurrence => do
    let search ← step value index occurrence
    match search with
    | .found updated => .ok (.found (updated :: values))
    | .missing occurrence => do
      let rest ← editElements step values (index + 1) occurrence
      .ok (rest.map (value :: ·))

/-- Visit the elements of an array until one of them holds what is searched. -/
def findInElements (step : OwnedFieldValue → Nat → Except SemanticError
    (NestedSearch OwnedFieldValue)) :
    List OwnedFieldValue → Nat → Except SemanticError (NestedSearch OwnedFieldValue)
  | [], occurrence => .ok (.missing occurrence)
  | value :: values, occurrence => do
    let search ← step value occurrence
    match search with
    | .found found => .ok (.found found)
    | .missing occurrence => findInElements step values occurrence

/-- How a traversal edits the value that it finds. -/
structure NestedEdit where
  /-- The path searched. -/
  targetPath : String
  /-- Nodes that the path is not within are skipped. -/
  prune : Bool
  /-- The new value, from the node found and the positions in the arrays around it. -/
  replacement : SchemaNode → List Nat → Except SemanticError OwnedFieldValue

namespace RecordEditor

mutual

/-- The occurrence of a path below a node, replaced. -/
def editNested (editor : RecordEditor) (context : NestedValueContext) (edit : NestedEdit) :
    SchemaNode → OwnedFieldValue → Nat → List Nat →
      Except SemanticError (NestedSearch OwnedFieldValue)
  | node, value, occurrence, arrayIndices =>
    if edit.prune && !pathIsWithin edit.targetPath node.path then .ok (.missing occurrence)
    else if node.path = edit.targetPath then
      if occurrence = 0 then do
        let replaced ← edit.replacement node arrayIndices
        .ok (.found replaced)
      else .ok (.missing (occurrence - 1))
    else
      match node with
      | .struct _ fields | .optionalStruct _ fields _ =>
        match value with
        | .struct values => do
          let search ← editFields editor context edit fields values occurrence arrayIndices
          .ok (search.map .struct)
        | _ => .ok (.missing occurrence)
      | .array _ element _ =>
        match value with
        | .array values => do
          let search ← editElements (fun value index occurrence =>
            editNested editor context edit element value occurrence (arrayIndices ++ [index]))
            values 0 occurrence
          .ok (search.map .array)
        | _ => .ok (.missing occurrence)
      | .union _ selector variants => do
        let (index, _) ←
          editor.selectUnionVariant context node selector noScope variants 0 none value
        editNestedAt editor context edit variants index value occurrence arrayIndices
      | .subrecord _ _ child | .compressed _ _ child | .terminated _ _ child =>
        editNested editor context edit child value occurrence arrayIndices
      | _ => .ok (.missing occurrence)

/-- The same below the members of a struct. -/
def editFields (editor : RecordEditor) (context : NestedValueContext) (edit : NestedEdit) :
    List SchemaNode → List OwnedFieldValue → Nat → List Nat →
      Except SemanticError (NestedSearch (List OwnedFieldValue))
  | field :: fields, value :: values, occurrence, arrayIndices => do
    let search ← editNested editor context edit field value occurrence arrayIndices
    match search with
    | .found updated => .ok (.found (updated :: values))
    | .missing occurrence => do
      let rest ← editFields editor context edit fields values occurrence arrayIndices
      .ok (rest.map (value :: ·))
  | _, _, occurrence, _ => .ok (.missing occurrence)

/-- The same below the variant at a position. -/
def editNestedAt (editor : RecordEditor) (context : NestedValueContext) (edit : NestedEdit) :
    List SchemaNode → Nat → OwnedFieldValue → Nat → List Nat →
      Except SemanticError (NestedSearch OwnedFieldValue)
  | [], _, _, occurrence, _ => .ok (.missing occurrence)
  | variant :: _, 0, value, occurrence, arrayIndices =>
    editNested editor context edit variant value occurrence arrayIndices
  | _ :: variants, position + 1, value, occurrence, arrayIndices =>
    editNestedAt editor context edit variants position value occurrence arrayIndices

end

mutual

/-- The value at an occurrence of a path below a node. -/
def nestedValueAtWithFields (editor : RecordEditor) (context : NestedValueContext)
    (targetPath : String) :
    SchemaNode → OwnedFieldValue → Nat → Except SemanticError (NestedSearch OwnedFieldValue)
  | node, value, occurrence =>
    if !pathIsWithin targetPath node.path then .ok (.missing occurrence)
    else if node.path = targetPath then
      .ok (if occurrence = 0 then .found value else .missing (occurrence - 1))
    else
      match node with
      | .struct _ fields | .optionalStruct _ fields _ =>
        match value with
        | .struct values => nestedValueInFields editor context targetPath fields values occurrence
        | _ => .ok (.missing occurrence)
      | .array _ element _ =>
        match value with
        | .array values =>
          findInElements (nestedValueAtWithFields editor context targetPath element) values
            occurrence
        | _ => .ok (.missing occurrence)
      | .union _ selector variants => do
        let (index, _) ←
          editor.selectUnionVariant context node selector noScope variants 0 none value
        nestedValueInVariant editor context targetPath variants index value occurrence
      | .subrecord _ _ child | .compressed _ _ child | .terminated _ _ child =>
        nestedValueAtWithFields editor context targetPath child value occurrence
      | _ => .ok (.missing occurrence)

/-- The same below the members of a struct. -/
def nestedValueInFields (editor : RecordEditor) (context : NestedValueContext)
    (targetPath : String) :
    List SchemaNode → List OwnedFieldValue → Nat →
      Except SemanticError (NestedSearch OwnedFieldValue)
  | field :: fields, value :: values, occurrence => do
    let search ← nestedValueAtWithFields editor context targetPath field value occurrence
    match search with
    | .found found => .ok (.found found)
    | .missing occurrence => nestedValueInFields editor context targetPath fields values occurrence
  | _, _, occurrence => .ok (.missing occurrence)

/-- The same below the variant at a position. -/
def nestedValueInVariant (editor : RecordEditor) (context : NestedValueContext)
    (targetPath : String) :
    List SchemaNode → Nat → OwnedFieldValue → Nat →
      Except SemanticError (NestedSearch OwnedFieldValue)
  | [], _, _, occurrence => .ok (.missing occurrence)
  | variant :: _, 0, value, occurrence =>
    nestedValueAtWithFields editor context targetPath variant value occurrence
  | _ :: variants, position + 1, value, occurrence =>
    nestedValueInVariant editor context targetPath variants position value occurrence

end

/-- Replace the value at an occurrence of a path. -/
def setNestedValueWithFields (editor : RecordEditor) (context : NestedValueContext)
    (node : SchemaNode) (value : OwnedFieldValue) (targetPath : String) (occurrence : Nat)
    (replacement : OwnedFieldValue) : Except SemanticError (NestedSearch OwnedFieldValue) :=
  editor.editNested context ⟨targetPath, true, fun _ _ => .ok replacement⟩ node value occurrence []

/-- Replace the value at an occurrence of a path, in the edited record. -/
def setNestedValue (editor : RecordEditor) (node : SchemaNode) (value : OwnedFieldValue)
    (targetPath : String) (occurrence : Nat) (replacement : OwnedFieldValue) :
    Except SemanticError (NestedSearch OwnedFieldValue) :=
  editor.setNestedValueWithFields
    (valueContext editor.decodedValues node value editor.record none) node value targetPath
    occurrence replacement

/-- The value at an occurrence of a path, in the edited record. -/
def nestedValueAt (editor : RecordEditor) (node : SchemaNode) (value : OwnedFieldValue)
    (targetPath : String) (occurrence : Nat) :
    Except SemanticError (NestedSearch OwnedFieldValue) :=
  editor.nestedValueAtWithFields (valueContext editor.decodedValues node value editor.record none)
    targetPath node value occurrence

/-- The default of a primitive. -/
def defaultPrimitiveValue (editor : RecordEditor) : PrimitiveType → OwnedFieldValue
  | .integer integer => if integer.signed then .int 0 else .uint 0
  | .packedUnsigned => .uint 0
  | .float _ _ _ _ => .float 0
  | .string string => if editor.localized && isLocalizedString string then .uint 0 else .string ""
  | .bytes length => .bytes (List.replicate ((length.map (·.toNat)).getD 0) 0)
  | .formId _ => .formId .NULL
  | .enumeration _ _ => .int 0
  | .flags _ _ => .uint 0
  | .unused length => .bytes (List.replicate length.toNat 0)

/-- One default-value callback of a node. -/
def applyDefaultCallback (editor : RecordEditor) (context : NestedValueContext) (node : SchemaNode)
    (arrayIndices : List Nat) (value : OwnedFieldValue) (binding : CallbackBinding) :
    Except SemanticError OwnedFieldValue := do
  let handlerValue ← editor.ownedToHandlerValue context node value
  let access := (HandlerInvocationAccess.writableAt context.sourceRecord
    context.sourceSubrecordIndex none).withArrayIndices arrayIndices
  let output ← editor.context.handlers.invokeWithRecords binding editor.handlerRecord access
    .defaultValue (some handlerValue) none
  match output with
  | .value updated => .ok (handlerToOwnedValue updated)
  | .none => .ok value
  | _ => .error (.handler binding.callbackId "default-value handler returned an invalid result")

/-- The default-value callbacks of a node, in their declaration order. -/
def applyDefaultValueCallbacksAt (editor : RecordEditor) (context : NestedValueContext)
    (node : SchemaNode) (value : OwnedFieldValue) (arrayIndices : List Nat) :
    Except SemanticError OwnedFieldValue :=
  ((editor.context.registry.callbacksAt node.path).filter
    (·.callbackId = "value.set_default")).foldlM
    (editor.applyDefaultCallback context node arrayIndices) value

/-- The variant that the selector of a union yields for an empty payload. -/
def selectDefaultUnionVariant (editor : RecordEditor) (context : NestedValueContext)
    (node : SchemaNode) (selector : UnionSelector) (variants : List SchemaNode) :
    Except SemanticError Nat := do
  let selected ← match selector with
    | .expression expression =>
      let expression := editor.unionExpression node expression 0 context.fieldValues
      match expression.evaluate {
          payload := []
          fieldValues := context.fieldValues
          formVersion := context.sourceRecord.formVersion
          recordSignature := context.sourceRecord.signature } 1024 with
      | .ok (.int selected) => .ok selected
      | .ok (.bool _) =>
        .error (encodeError node.path "default union selector returned a non-integer value")
      | .error error =>
        .error (encodeError node.path s!"default union selector failed: {error.display}")
    | .callback callbackId =>
      match (editor.context.registry.callbacksAt node.path).find?
          (·.callbackId = callbackId) with
      | none => .error (.handler callbackId s!"union node {node.path} has no callback binding")
      | some binding => do
        let output ← editor.context.handlers.invokeWithRecords binding editor.handlerRecord
          (.writableAt context.sourceRecord context.sourceSubrecordIndex none) .unionSelection
          (some (.bytes [])) none
        match output with
        | .integer selected => .ok selected
        | _ => .error (.handler callbackId
            "default union selector returned a non-integer result")
  if selected.toInt < 0 then
    .error (encodeError node.path "default union selector returned a negative")
  else if variants.length ≤ selected.toInt.toNat then
    .error (encodeError node.path "default union selector is out of range")
  else .ok selected.toInt.toNat

mutual

/-- The schema-native default of a node. -/
def defaultValueForNodeAt (editor : RecordEditor) (context : NestedValueContext) :
    SchemaNode → Nat → List Nat → Except SemanticError OwnedFieldValue
  | node, depth, arrayIndices => do
    if 128 ≤ depth then
      .error (encodeError node.path "schema default recursion exceeds 128 nodes")
    else do
      let value ← match node with
        | .primitive _ primitive => .ok (editor.defaultPrimitiveValue primitive)
        | .struct _ fields | .optionalStruct _ fields _ =>
          (defaultValues editor context fields (depth + 1) arrayIndices).map .struct
        | .array _ element count =>
          let count := match count with
            | .fixed count => count.toNat
            | _ => 0
          ((List.range count).mapM fun index =>
            defaultValueForNodeAt editor context element (depth + 1)
              (arrayIndices ++ [index])).map .array
        | .union _ selector variants => do
          let index ← editor.selectDefaultUnionVariant context node selector variants
          defaultValueAt editor context variants index (depth + 1) arrayIndices
        | .subrecord _ _ child | .compressed _ _ child | .terminated _ _ child =>
          defaultValueForNodeAt editor context child (depth + 1) arrayIndices
        | .custom _ decoder _ =>
          .error (.encode node.path s!"custom decoder {decoder} has no schema-native default")
        | _ => .error (.encode node.path "this schema node has no editable default value")
      editor.applyDefaultValueCallbacksAt context node value arrayIndices

/-- The defaults of struct members. -/
def defaultValues (editor : RecordEditor) (context : NestedValueContext) :
    List SchemaNode → Nat → List Nat → Except SemanticError (List OwnedFieldValue)
  | [], _, _ => .ok []
  | field :: fields, depth, arrayIndices => do
    let value ← defaultValueForNodeAt editor context field depth arrayIndices
    let values ← defaultValues editor context fields depth arrayIndices
    .ok (value :: values)

/-- The default of the variant at a position, which is in range. -/
def defaultValueAt (editor : RecordEditor) (context : NestedValueContext) :
    List SchemaNode → Nat → Nat → List Nat → Except SemanticError OwnedFieldValue
  | [], _, _, _ => .ok .absent
  | variant :: _, 0, depth, arrayIndices =>
    defaultValueForNodeAt editor context variant depth arrayIndices
  | _ :: variants, position + 1, depth, arrayIndices =>
    defaultValueAt editor context variants position depth arrayIndices

end

/-- Reset the value at an occurrence of a path to its default, in the edited record. -/
def resetNestedValueWithFields (editor : RecordEditor) (fieldValues : FieldValues)
    (node : SchemaNode) (value : OwnedFieldValue) (targetPath : String) (occurrence : Nat) :
    Except SemanticError (NestedSearch OwnedFieldValue) :=
  let context : NestedValueContext := ⟨fieldValues, editor.record, none⟩
  editor.editNested context ⟨targetPath, false, fun node arrayIndices =>
    editor.defaultValueForNodeAt context node 0 arrayIndices⟩ node value occurrence []

/-- One pending mutation: a default reset within the node changes the value, any other stays. -/
def applyLocalDefaultMutation (editor : RecordEditor) (fieldValues : FieldValues)
    (node : SchemaNode) (state : AfterSet) (mutation : HandlerMutation) :
    Except SemanticError AfterSet :=
  match mutation with
  | .resetToDefault path occurrence =>
    if !pathIsWithin path node.path then .ok (state.1, state.2 ++ [mutation])
    else do
      let search ← editor.resetNestedValueWithFields fieldValues node state.1 path occurrence
      match search with
      | .found updated => .ok (updated, state.2)
      | .missing _ => .error (.missingOccurrence path occurrence)
  | _ => .ok (state.1, state.2 ++ [mutation])

/-- The pending default resets within a node. -/
def applyLocalDefaultMutations (editor : RecordEditor) (fieldValues : FieldValues)
    (node : SchemaNode) (state : AfterSet) : Except SemanticError AfterSet :=
  state.2.foldlM (editor.applyLocalDefaultMutation fieldValues node) (state.1, [])

/-- Replace the value of a pending mutation. -/
def applyLocalReplacement (editor : RecordEditor) (node : SchemaNode) (state : AfterSet)
    (path : String) (occurrence : Nat) (value : OwnedFieldValue) :
    Except SemanticError AfterSet := do
  let search ← editor.setNestedValue node state.1 path occurrence value
  match search with
  | .found updated => .ok (updated, state.2)
  | .missing occurrence => .error (.missingOccurrence path occurrence)

/-- One pending mutation: a set within the node changes the value, any other stays. -/
def applyLocalSetMutation (editor : RecordEditor) (node : SchemaNode) (state : AfterSet)
    (mutation : HandlerMutation) : Except SemanticError AfterSet :=
  match mutation with
  | .set path occurrence value =>
    if !pathIsWithin path node.path then .ok (state.1, state.2 ++ [mutation])
    else editor.applyLocalReplacement node state path occurrence value
  | .setIfEqual path occurrence expected value =>
    if !pathIsWithin path node.path then .ok (state.1, state.2 ++ [mutation])
    else do
      let search ← editor.nestedValueAt node state.1 path occurrence
      match search with
      | .missing _ => .error (.missingOccurrence path occurrence)
      | .found current =>
        if !ownedValuesEqual current expected then .ok state
        else do
          let search ← editor.setNestedValue node state.1 path occurrence value
          match search with
          | .found updated => .ok (updated, state.2)
          | .missing _ => .error (.missingOccurrence path occurrence)
  | _ => .ok (state.1, state.2 ++ [mutation])

/-- The pending sets within a node. -/
def applyLocalSetMutations (editor : RecordEditor) (node : SchemaNode) (state : AfterSet) :
    Except SemanticError AfterSet :=
  state.2.foldlM (editor.applyLocalSetMutation node) (state.1, [])

/-- One value callback of an edited value; a floating-point value that is not finite is kept. -/
def applyEditNormalizer (editor : RecordEditor) (node : SchemaNode) (normalized : OwnedFieldValue)
    (binding : CallbackBinding) : Except SemanticError OwnedFieldValue :=
  if !binding.implementation.isExecutable then .ok normalized
  else do
    let handlerValue ← editor.ownedToHandlerValueAtIndex node normalized none
    if handlerValue.isNonFinite then .ok normalized
    else do
      let output ← editor.context.handlers.invoke binding editor.handlerRecord .decodeNormalize
        (some handlerValue) none
      match output with
      | .value value => .ok (handlerToOwnedValue value)
      | _ => .error (.handler binding.callbackId "normalizer returned a non-value result")

/-- The value of an edit as its payload stores it. -/
def normalizeValue (editor : RecordEditor) (path : String) (value : OwnedFieldValue) :
    Except SemanticError OwnedFieldValue := do
  let node ← editor.findNode path
  let normalized := match node, value with
    | .primitive _ (.float _ _ scale digits), .float number =>
      if number.isFinite then .float (floatToRaw number scale digits) else value
    | _, _ => value
  ((editor.context.registry.callbacksAt path).filter (·.callbackId = "float.normalizer")).foldlM
    (editor.applyEditNormalizer node) normalized

/-- One after-set callback of a node. -/
def applyAfterSetCallback (editor : RecordEditor) (context : NestedValueContext)
    (node : SchemaNode) (oldValue : Option FieldValue) (state : AfterSet)
    (binding : CallbackBinding) : Except SemanticError AfterSet :=
  if !binding.implementation.isExecutable then .ok state
  else do
    let handlerValue ← editor.ownedToHandlerValue context node state.1
    let output ← editor.context.handlers.invokeWithRecords binding editor.handlerRecord
      (.writableAt editor.record context.sourceSubrecordIndex none) .afterSet (some handlerValue)
      oldValue
    match output with
    | .none => .ok state
    | .value value => .ok (handlerToOwnedValue value, state.2)
    | .mutations mutations => .ok (state.1, state.2 ++ mutations)
    | _ => .error (.handler binding.callbackId "after-set handler returned an invalid result")

/-- Local mutations and after-set callbacks of a node whose children are done. The callbacks are
skipped when the value did not change. -/
def finishAfterSet (editor : RecordEditor) (context : NestedValueContext) (node : SchemaNode)
    (oldValue : Option FieldValue) (state : AfterSet) : Except SemanticError AfterSet := do
  let state ← editor.applyLocalDefaultMutations context.fieldValues node state
  let state ← editor.applyLocalSetMutations node state
  let handlerValue ← editor.ownedToHandlerValue context node state.1
  if oldValue.any (handlerValuesEqual handlerValue) then .ok state
  else do
    let state ← ((editor.context.registry.callbacksAt node.path).filter
      (·.callbackId = "def.after_set")).foldlM
      (editor.applyAfterSetCallback context node oldValue) state
    let state ← editor.applyLocalDefaultMutations context.fieldValues node state
    editor.applyLocalSetMutations node state

/-- The members of a struct, each by its own step; a default reset that a member requests acts on
the whole struct before the next member. An index beyond the struct panics in the source. -/
def afterSetFields (editor : RecordEditor) (context : NestedValueContext) (node : SchemaNode)
    (oldValue : Option FieldValue) :
    List AfterSetStep → Nat → List OwnedFieldValue → List HandlerMutation →
      Except SemanticError (List OwnedFieldValue × List HandlerMutation)
  | [], _, updated, mutations => .ok (updated, mutations)
  | step :: steps, index, updated, mutations =>
    match updated[index]? with
    | none => .error (encodeError node.path "index out of bounds")
    | some value => do
      let (value, childMutations) ← step value (oldMember oldValue index)
      let (container, childMutations) ← editor.applyLocalDefaultMutations context.fieldValues node
        (.struct (updated.set index value), childMutations)
      match container with
      | .struct next =>
        afterSetFields editor context node oldValue steps (index + 1) next
          (mutations ++ childMutations)
      | _ => .error (encodeError node.path "default mutation replaced a struct container")

/-- A struct value, each member by its own step. -/
def afterSetStruct (editor : RecordEditor) (context : NestedValueContext) (node : SchemaNode)
    (steps : List AfterSetStep) (values : List OwnedFieldValue) (oldValue : Option FieldValue) :
    Except SemanticError AfterSet :=
  if steps.length ≠ values.length then
    .error (structLengthError node.path steps.length values.length)
  else do
    let (updated, mutations) ←
      editor.afterSetFields context node oldValue steps 0 values []
    .ok (.struct updated, mutations)

/-- A node without children of its own. -/
def afterSetLeaf (editor : RecordEditor) (context : NestedValueContext) (node : SchemaNode) :
    AfterSetStep := fun value oldValue =>
  editor.finishAfterSet context node oldValue (value, [])

mutual

/-- The after-set processing of a node and everything below it. -/
def applyAfterSetTreeWithFields (editor : RecordEditor) (context : NestedValueContext) :
    SchemaNode → AfterSetStep
  | node@(.struct _ fields), value, oldValue =>
    -- The legacy layout has primitive members, which are leaves of the processing.
    let legacy := legacyPayloadNode node context.sourceSubrecordIndex editor.record
    let effective := legacy.getD node
    match value with
    | .struct values => do
      let steps := match legacy with
        | some legacy => legacy.children.map (editor.afterSetLeaf context)
        | none => afterSetSteps editor context fields
      let state ← editor.afterSetStruct context effective steps values oldValue
      editor.finishAfterSet context effective oldValue state
    | _ => editor.afterSetLeaf context effective value oldValue
  | node@(.optionalStruct _ fields _), value, oldValue =>
    match value with
    | .struct values => do
      let state ← editor.afterSetStruct context node (afterSetSteps editor context fields) values
        oldValue
      editor.finishAfterSet context node oldValue state
    | _ => editor.afterSetLeaf context node value oldValue
  | node@(.array _ element _), value, oldValue =>
    match value with
    | .array values => do
      let states ← values.zipIdx.mapM fun (value, index) =>
        applyAfterSetTreeWithFields editor context element value (oldElement oldValue index)
      editor.finishAfterSet context node oldValue
        (.array (states.map Prod.fst), (states.map Prod.snd).flatten)
    | _ => editor.afterSetLeaf context node value oldValue
  | node@(.union _ selector variants), value, oldValue => do
    let (index, _) ← editor.selectUnionVariant ⟨context.fieldValues, editor.record,
      context.sourceSubrecordIndex⟩ node selector noScope variants 0 none value
    let state ← afterSetVariant editor context variants index value oldValue
    editor.finishAfterSet context node oldValue state
  | node@(.subrecord _ _ child), value, oldValue
  | node@(.compressed _ _ child), value, oldValue
  | node@(.terminated _ _ child), value, oldValue => do
    let state ← applyAfterSetTreeWithFields editor context child value oldValue
    editor.finishAfterSet context node oldValue state
  | node, value, oldValue => editor.afterSetLeaf context node value oldValue

/-- The steps of struct members. -/
def afterSetSteps (editor : RecordEditor) (context : NestedValueContext) :
    List SchemaNode → List AfterSetStep
  | [] => []
  | field :: fields =>
    applyAfterSetTreeWithFields editor context field :: afterSetSteps editor context fields

/-- The processing of the variant at a position. -/
def afterSetVariant (editor : RecordEditor) (context : NestedValueContext) :
    List SchemaNode → Nat → AfterSetStep
  | [], _, value, _ => .ok (value, [])
  | variant :: _, 0, value, oldValue =>
    applyAfterSetTreeWithFields editor context variant value oldValue
  | _ :: variants, position + 1, value, oldValue =>
    afterSetVariant editor context variants position value oldValue

end

/-- The after-set processing of an edited payload value. -/
def applyAfterSetTree (editor : RecordEditor) (node : SchemaNode) (value : OwnedFieldValue)
    (oldValue : Option FieldValue) (sourceSubrecordIndex : Option Nat) :
    Except SemanticError AfterSet :=
  editor.applyAfterSetTreeWithFields
    (valueContext editor.decodedValues node value editor.record sourceSubrecordIndex) node value
    oldValue

end RecordEditor

end Bethkit
