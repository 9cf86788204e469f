import Bethkit.Core.Patcher
import Bethkit.Semantic.Analysis
import Bethkit.Semantic.LookupFormatters

/-!
# Sorting INFO groups

The dialogue infos of a topic name their predecessors. The groups of the topic in all plugins up to
the target are walked, every info is placed behind its predecessor, and the infos of the target in
that order are the plan for its group. Only the last version of an info can be a predecessor.

A hash map is an association list.
-/

namespace Bethkit

open Lib

/-- `Display` of a global FormID. -/
def GlobalFormId.display (id : GlobalFormId) : String :=
  id.pluginName ++ ":0x" ++ String.ofList (hexUpper 6 id.objectId.toNat)

/-- The signature of dialogue infos. -/
def infoSignature : Signature := .ofBytes 0x49 0x4E 0x46 0x4F

/-- The signature of the subrecord with the predecessor. -/
def previousSignature : Signature := .ofBytes 0x50 0x4E 0x41 0x4D

/-- An error of the sorting. -/
def infoSortError {α : Type} (message : String) : Except SemanticError α :=
  .error (.handler "edit.sort_info_group" message)

/-- All groups of a plugin that hold the children of topics. -/
def topicGroups (plugin : PluginInput) : List Group :=
  (plugin.plugin.allGroups.map Group.ofNode).filter (·.header.groupType = .topicChildren)

/-- A group with the children of a topic. -/
def isTopicGroup (toLowercase : Lowercase) (order : LoadOrder) (plugin : PluginInput)
    (dial : GlobalFormId) (group : Group) : Bool :=
  match group.header.label with
  | .formId label => plugin.resolve toLowercase order label = some dial
  | _ => false

/-- `find_topic_group`. -/
def findTopicGroup (toLowercase : Lowercase) (order : LoadOrder) (plugin : PluginInput)
    (dial : GlobalFormId) : Except SemanticError (Option Group) :=
  match (topicGroups plugin).filter (isTopicGroup toLowercase order plugin dial) with
  | [] => .ok none
  | [group] => .ok (some group)
  | groups =>
    let count := groups.length
    let topic := dial.display
    let name := plugin.name
    infoSortError s!"DIAL {topic} resolves {count} topic-child groups in {name}"

/-- The first word of a predecessor subrecord. -/
def previousWord (payload : Bytes) : Except SemanticError UInt32 :=
  if 4 ≤ payload.length then .ok (u32FromLeBytes (payload.take 4))
  else
    let size := payload.length
    .error (.decode "INFO/PNAM" s!"PNAM payload has {size} bytes; expected at least four")

/-- Whether there is a predecessor subrecord, and which info it names. -/
def previousIdentity (toLowercase : Lowercase) (order : LoadOrder) (plugin : PluginInput)
    (payload : Option Bytes) : Except SemanticError (Bool × Option GlobalFormId) :=
  match payload with
  | none => .ok (false, none)
  | some payload => do
    let raw ← previousWord payload
    .ok (true, if raw ≠ 0 then plugin.resolve toLowercase order ⟨raw⟩ else none)

/-- The payload of the predecessor subrecord of a record. -/
def previousPayload (inflate : Inflate) (record : Record) : Except SemanticError (Option Bytes) := do
  let subrecords ← (record.subrecords inflate).mapError SemanticError.core
  .ok ((subrecords.find? (·.signature = previousSignature)).map SubRecord.asBytes)

/-- `info_previous`. -/
def infoPrevious (toLowercase : Lowercase) (inflate : Inflate) (order : LoadOrder)
    (plugin : PluginInput) (record : Record) : Except SemanticError (Bool × Option GlobalFormId) := do
  let payload ← previousPayload inflate record
  previousIdentity toLowercase order plugin payload

/-- `info_previous_writable`. -/
def infoPreviousWritable (toLowercase : Lowercase) (order : LoadOrder) (plugin : PluginInput)
    (record : WritableRecord) : Except SemanticError (Bool × Option GlobalFormId) :=
  previousIdentity toLowercase order plugin
    ((record.subrecords.find? (·.signature = previousSignature)).map (·.data))

/-- An info of one plugin. -/
structure InfoNode where
  /-- The position of the plugin. -/
  pluginIndex : Nat
  /-- The FormID in the plugin. -/
  rawFormId : FormId
  /-- The FormID of all versions of the info. -/
  identity : GlobalFormId
  /-- The FormID of the predecessor, if it is known. -/
  previous : Option GlobalFormId
  /-- Whether there is a predecessor subrecord. -/
  hasPreviousField : Bool

/-- A record as a node; an edited record stands for the one of the target with its FormID. -/
def infoNode (toLowercase : Lowercase) (inflate : Inflate) (order : LoadOrder)
    (plugin : PluginInput) (pluginIndex targetIndex : Nat) (edited : Option WritableRecord)
    (record : Record) : Except SemanticError InfoNode :=
  if record.header.signature ≠ infoSignature then
    let signature := record.header.signature.display
    infoSortError s!"topic-child group contains non-INFO record {signature}"
  else
    match plugin.resolve toLowercase order record.header.formId with
    | none =>
      let formId := record.header.formId.display
      let name := plugin.name
      infoSortError s!"cannot resolve INFO FormID {formId} from {name}"
    | some identity => do
      let found ←
        match edited.filter fun edited =>
            pluginIndex = targetIndex ∧ edited.formId = record.header.formId with
        | some edited => infoPreviousWritable toLowercase order plugin edited
        | none => infoPrevious toLowercase inflate order plugin record
      .ok ⟨pluginIndex, record.header.formId, identity, found.2, found.1⟩

/-- The nodes of one plugin. -/
def pluginNodes (toLowercase : Lowercase) (inflate : Inflate) (order : LoadOrder)
    (dial : GlobalFormId) (targetIndex : Nat) (edited : Option WritableRecord)
    (item : PluginInput × Nat) : Except SemanticError (List InfoNode) := do
  match ← findTopicGroup toLowercase order item.1 dial with
  | none => .ok []
  | some group =>
    group.records.mapM (infoNode toLowercase inflate order item.1 item.2 targetIndex edited)

/-- The nodes of all plugins up to the target. -/
def infoNodes (toLowercase : Lowercase) (inflate : Inflate) (order : LoadOrder)
    (plugins : List PluginInput) (dial : GlobalFormId) (targetIndex : Nat)
    (edited : Option WritableRecord) : Except SemanticError (List InfoNode) := do
  let nodes ← (plugins.zipIdx.take (targetIndex + 1)).mapM
    (pluginNodes toLowercase inflate order dial targetIndex edited)
  .ok nodes.flatten

/-- The position of the last version of every info. -/
def latestByIdentity (nodes : List InfoNode) : AList fun _ : GlobalFormId => Nat :=
  nodes.zipIdx.foldl (fun latest item => latest.insert item.1.identity item.2) ∅

/-- How far a node has come. -/
inductive VisitState where
  /-- It has not been reached. -/
  | unvisited
  /-- Its predecessor is being placed. -/
  | visiting
  /-- It has been placed. -/
  | placed
deriving DecidableEq

/-- The states of the nodes, and the positions of those that have been placed, in order. -/
structure InfoOrder where
  /-- The state of every node. -/
  state : List VisitState
  /-- The placed nodes. -/
  ordered : List Nat

namespace InfoOrder

/-- The order with another state of a node. -/
def mark (order : InfoOrder) (index : Nat) (state : VisitState) : InfoOrder :=
  { order with state := order.state.set index state }

/-- The placed nodes without one of them. -/
def without (order : InfoOrder) (index : Nat) : List Nat :=
  match order.ordered.findIdx? (· = index) with
  | some position => order.ordered.eraseIdx position
  | none => order.ordered

/-- Place a node at a position. -/
def place (order : InfoOrder) (index insertion : Nat) : InfoOrder :=
  let others := order.without index
  ⟨order.state.set index .placed, others.insertIdx (min insertion others.length) index⟩

end InfoOrder

/-- `insert_info_node`, with one level for every node that is being visited. -/
def insertInfoNode (nodes : List InfoNode) (latest : AList fun _ : GlobalFormId => Nat) :
    Nat → Nat → InfoOrder → Except SemanticError InfoOrder
  | 0, _, _ => infoSortError "stack overflow"
  | fuel + 1, index, order =>
    match nodes[index]?, order.state[index]? with
    | some node, some .unvisited =>
      let order := order.mark index .visiting
      match node.previous with
      | some previous =>
        match latest.lookup previous with
        | some target => do
          let order ← insertInfoNode nodes latest fuel target order
          let insertion := match order.ordered.findIdx? (· = target) with
            | some position => position + 1
            | none => order.ordered.length
          .ok (order.place index insertion)
        | none => .ok (order.place index 0)
      | none =>
        if node.hasPreviousField then .ok (order.place index 0)
        else .ok (order.place index order.ordered.length)
    | some node, some .visiting =>
      let identity := node.identity.display
      infoSortError s!"cyclic PNAM chain reaches {identity}"
    | some _, some .placed => .ok order
    | _, _ => infoSortError "index out of bounds"

/-- All nodes, placed one after the other. -/
def orderInfoNodes (nodes : List InfoNode) : Except SemanticError (List Nat) := do
  let order ← (List.range nodes.length).foldlM
    (fun order index => insertInfoNode nodes (latestByIdentity nodes) (nodes.length + 1) index order)
    ⟨List.replicate nodes.length .unvisited, []⟩
  .ok order.ordered

/-- Ordered FormIDs for the group of a topic in a target plugin. -/
structure InfoGroupSortPlan where
  /-- The complete order of the records of the group. -/
  formIds : List FormId
  /-- Whether it differs from the order of the group. -/
  changed : Bool

/-- The FormIDs of the nodes of a plugin among some positions. -/
def targetFormIds (nodes : List InfoNode) (targetIndex : Nat) (ordered : List Nat) : List FormId :=
  ordered.filterMap fun index =>
    (nodes[index]?.filter (·.pluginIndex = targetIndex)).map (·.rawFormId)

/-- The plan for the group of a topic, from the nodes of all plugins. -/
def planGroup (nodes : List InfoNode) (targetIndex : Nat) (targetGroup : Group) :
    Except SemanticError (Option InfoGroupSortPlan) := do
  let ordered ← orderInfoNodes nodes
  let formIds := targetFormIds nodes targetIndex ordered
  let current := targetGroup.records.map (·.header.formId)
  if formIds.length ≠ current.length then
    let planned := formIds.length
    let present := current.length
    infoSortError s!"planned {planned} of {present} target INFO records"
  else .ok (some ⟨formIds, formIds ≠ current⟩)

/-- The plan for one of the plugins. -/
def planTarget (toLowercase : Lowercase) (inflate : Inflate) (order : LoadOrder)
    (plugins : List PluginInput) (dial : GlobalFormId) (edited : Option WritableRecord)
    (target : PluginInput × Nat) : Except SemanticError (Option InfoGroupSortPlan) := do
  match ← findTopicGroup toLowercase order target.1 dial with
  | none => .ok none
  | some targetGroup => do
    let nodes ← infoNodes toLowercase inflate order plugins dial target.2 edited
    planGroup nodes target.2 targetGroup

/-- The plugin with a name and its position: both `plan_info_group_sort_with_override` and
`edit_info_previous` begin with this search. -/
def selectTarget (toLowercase : Lowercase) (plugins : List PluginInput) (targetPlugin : String) :
    Except SemanticError (PluginInput × Nat) :=
  let targetName := toLowercase targetPlugin
  match plugins.zipIdx.filter fun item => strEqIgnoreAsciiCase item.1.name targetName with
  | [target] => .ok target
  | targets =>
    let quoted := strDebug targetPlugin
    let count := targets.length
    infoSortError s!"target plugin {quoted} resolves {count} load-order entries"

/-- `plan_info_group_sort_with_override`. -/
def planInfoGroupSortWithOverride (toLowercase : Lowercase) (inflate : Inflate) (order : LoadOrder)
    (plugins : List PluginInput) (targetPlugin : String) (dial : GlobalFormId)
    (edited : Option WritableRecord) : Except SemanticError (Option InfoGroupSortPlan) := do
  let target ← selectTarget toLowercase plugins targetPlugin
  planTarget toLowercase inflate order plugins dial edited target

/-- `plan_info_group_sort`. -/
def planInfoGroupSort (toLowercase : Lowercase) (inflate : Inflate) (order : LoadOrder)
    (plugins : List PluginInput) (targetPlugin : String) (dial : GlobalFormId) :
    Except SemanticError (Option InfoGroupSortPlan) :=
  planInfoGroupSortWithOverride toLowercase inflate order plugins targetPlugin dial none

/-- `InfoGroupSortPlan::apply`. -/
def InfoGroupSortPlan.apply (plan : InfoGroupSortPlan) (patcher : PluginPatcher) (group : Group) :
    Except SemanticError PluginPatcher :=
  if plan.changed then
    (patcher.reorderGroupRecords group plan.formIds).mapError SemanticError.core
  else .ok patcher

end Bethkit
