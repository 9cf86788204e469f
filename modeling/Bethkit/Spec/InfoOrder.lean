import Bethkit.Lib.Placement
import Bethkit.Semantic.InfoSort

/-!
# The order of dialogue infos

The infos of a topic in all plugins up to the target are the nodes of a graph: a node points to the
last version of the info that its predecessor subrecord names. Without cycles the nodes are placed
behind the nodes that they point to.
-/

namespace Bethkit

open Lib

/-- The last node of an info. -/
def IsLatest (nodes : List InfoNode) (identity : GlobalFormId) (index : Nat) : Prop :=
  (∃ node, nodes[index]? = some node ∧ node.identity = identity) ∧
    ∀ later node, index < later → nodes[later]? = some node → node.identity ≠ identity

/-- A node points to the last version of its predecessor. -/
def PointsTo (nodes : List InfoNode) (index target : Nat) : Prop :=
  ∃ node identity, nodes[index]? = some node ∧ node.previous = some identity ∧
    IsLatest nodes identity target

/-- Following the predecessors of some node leads back to it. -/
def HasCycle (nodes : List InfoNode) : Prop :=
  ∃ index, Relation.TransGen (PointsTo nodes) index index

/-- The error of a cycle. -/
def cyclicChain (identity : GlobalFormId) : SemanticError :=
  let reached := identity.display
  .handler "edit.sort_info_group" s!"cyclic PNAM chain reaches {reached}"

/-- The positions of the nodes of a plugin. -/
def nodesOf (nodes : List InfoNode) (pluginIndex : Nat) : List Nat :=
  (List.range nodes.length).filter fun index =>
    (nodes[index]?).any (·.pluginIndex = pluginIndex)

/-- The FormID of a node in its plugin. -/
def formIdAt (nodes : List InfoNode) (index : Nat) : FormId :=
  ((nodes[index]?).map (·.rawFormId)).getD .NULL

/-- No other info, and no other record of the plugin, names the predecessor of a node. -/
def OnlySuccessor (nodes : List InfoNode) (pluginIndex index target : Nat) : Prop :=
  ∀ other, PointsTo nodes other target → other ≠ index →
    ∃ node own, nodes[other]? = some node ∧ nodes[index]? = some own ∧
      node.identity = own.identity ∧ node.pluginIndex ≠ pluginIndex

/-- A plan for the group of a plugin: its records in an order in which every record comes behind its
predecessor, directly if no other one names it. -/
structure InfoGroupSortPlan.Follows (plan : InfoGroupSortPlan) (nodes : List InfoNode)
    (pluginIndex : Nat) (group : Group) (arranged : List Nat) : Prop where
  /-- The plan names the arranged records. -/
  named : plan.formIds = arranged.map (formIdAt nodes)
  /-- They are the records of the plugin. -/
  complete : arranged.Perm (nodesOf nodes pluginIndex)
  /-- Their FormIDs are those of the group. -/
  grouped : plan.formIds.Perm (group.records.map (·.header.formId))
  /-- The plan says whether it changes the group. -/
  changed : plan.changed = true ↔ plan.formIds ≠ group.records.map (·.header.formId)
  /-- A record comes behind its predecessor. -/
  behind : ∀ index ∈ arranged, ∀ target ∈ arranged, PointsTo nodes index target →
    arranged.idxOf target < arranged.idxOf index
  /-- It comes directly behind it if no other info names the predecessor. -/
  directly : ∀ index ∈ arranged, ∀ target ∈ arranged, PointsTo nodes index target →
    OnlySuccessor nodes pluginIndex index target →
      arranged.idxOf index = arranged.idxOf target + 1

/-- The sorting of the group of a plugin. -/
structure SortsInfos (nodes : List InfoNode) (pluginIndex : Nat) (group : Group)
    (result : Except SemanticError (Option InfoGroupSortPlan)) : Prop where
  /-- Exactly a cycle of predecessors is reported. -/
  cyclic : (∃ identity, result = .error (cyclicChain identity)) ↔ HasCycle nodes
  /-- Without a cycle there is a plan. -/
  planned : ¬HasCycle nodes → ∃ plan arranged, result = .ok (some plan) ∧
    plan.Follows nodes pluginIndex group arranged

/-! ## Sorting again -/

/-- A node that is placed before those of the plugin: an earlier plugin has it or leads to it. -/
def ReachedEarlier (nodes : List InfoNode) (pluginIndex index : Nat) : Prop :=
  ∃ start, start < nodes.length ∧ start ∉ nodesOf nodes pluginIndex ∧
    Relation.ReflTransGen (PointsTo nodes) start index

/-- A node goes to the front: its predecessor is null or not among the nodes. -/
def GoesFirst (nodes : List InfoNode) (index : Nat) : Prop :=
  (∀ target, ¬PointsTo nodes index target) ∧
    ∃ node, nodes[index]? = some node ∧ (node.previous.isSome || node.hasPreviousField) = true

/-- Two nodes go behind one predecessor or both to the front. -/
def SharePlace (nodes : List InfoNode) (first second : Nat) : Prop :=
  (∃ target, PointsTo nodes first target ∧ PointsTo nodes second target) ∨
    (GoesFirst nodes first ∧ GoesFirst nodes second)

/-- No two records of the plugin share a place, unless an earlier plugin leads to one of them. -/
def Unforked (nodes : List InfoNode) (pluginIndex : Nat) : Prop :=
  ∀ first ∈ nodesOf nodes pluginIndex, ∀ second ∈ nodesOf nodes pluginIndex, first ≠ second →
    ¬ReachedEarlier nodes pluginIndex first → ¬ReachedEarlier nodes pluginIndex second →
      ¬SharePlace nodes first second

/-- The records of the plugin are different infos. -/
def DistinctInfos (nodes : List InfoNode) (pluginIndex : Nat) : Prop :=
  ∀ first ∈ nodesOf nodes pluginIndex, ∀ second ∈ nodesOf nodes pluginIndex,
    (nodes[first]?).map (·.identity) = (nodes[second]?).map (·.identity) → first = second

/-- A plugin whose group of the topic has the records of another plugin in the planned order. -/
structure Resorted (toLowercase : Lowercase) (inflate : Inflate) (order : LoadOrder)
    (dial : GlobalFormId) (plugin : PluginInput) (group : Group) (plan : InfoGroupSortPlan)
    (again : PluginInput) (sorted : Group) : Prop where
  /-- The name is the same. -/
  name : again.name = plugin.name
  /-- The masters are the same. -/
  masters : again.plugin.masters = plugin.plugin.masters
  /-- It has a group of the topic. -/
  found : findTopicGroup toLowercase order again dial = .ok (some sorted)
  /-- The records have kept their headers and predecessors. -/
  records : ∃ records, records.Perm group.records ∧ List.Forall₂ (fun old new : Record =>
    new.header = old.header ∧ previousPayload inflate new = previousPayload inflate old)
    records sorted.records
  /-- Their order is the planned one. -/
  planned : sorted.records.map (·.header.formId) = plan.formIds

end Bethkit
