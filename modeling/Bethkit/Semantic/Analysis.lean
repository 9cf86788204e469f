import Bethkit.Core.LoadOrder
import Bethkit.Semantic.View

/-!
# Load-order analysis

The reference graph of a list of plugins: every decoded FormID that resolves is an edge from its
record. Records without a schema and records whose own FormID does not resolve are skipped.
-/

namespace Bethkit

open Lib

/-- A named plugin participating in load-order analysis. -/
structure PluginInput where
  /-- Filename used by the load order. -/
  name : String
  /-- Parsed plugin. -/
  plugin : Plugin

/-- `LoadOrder::resolve` with the name and the masters of a plugin. -/
def PluginInput.resolve (toLowercase : Lowercase) (order : LoadOrder) (plugin : PluginInput)
    (formId : FormId) : Option GlobalFormId :=
  order.resolve toLowercase formId plugin.name plugin.plugin.masters

/-- One directed FormID reference discovered through schema decoding. -/
structure ReferenceEdge where
  /-- Referencing record. -/
  source : GlobalFormId
  /-- Referenced record. -/
  target : GlobalFormId
  /-- Stable schema path of the FormID field. -/
  path : String
deriving DecidableEq

/-- The references of a load order, in the order of their discovery. -/
abbrev ReferenceGraph : Type := List ReferenceEdge

/-- `ReferenceGraph::add`. -/
def ReferenceGraph.add (graph : ReferenceGraph) (edge : ReferenceEdge) : ReferenceGraph :=
  graph ++ [edge]

mutual

/-- `collect_references`, with the FormIDs resolved by the plugin of the record. -/
def collectReferences (resolve : FormId → Option GlobalFormId) (source : GlobalFormId) :
    FieldValue → String → ReferenceGraph → ReferenceGraph
  | .formId value _, path, graph =>
    match resolve value with
    | some target => graph.add ⟨source, target, path⟩
    | none => graph
  | .struct values, _, graph => collectMembers resolve source values graph
  | .array values, path, graph => collectItems resolve source path values 0 graph
  | _, _, graph => graph

/-- The references of the members of a struct. -/
def collectMembers (resolve : FormId → Option GlobalFormId) (source : GlobalFormId) :
    List NamedValue → ReferenceGraph → ReferenceGraph
  | [], graph => graph
  | .mk _ path _ _ _ value :: values, graph =>
    collectMembers resolve source values (collectReferences resolve source value path graph)

/-- The references of the items of an array from a position on. -/
def collectItems (resolve : FormId → Option GlobalFormId) (source : GlobalFormId) (path : String) :
    List FieldValue → Nat → ReferenceGraph → ReferenceGraph
  | [], _, graph => graph
  | value :: values, index, graph =>
    collectItems resolve source path values (index + 1)
      (collectReferences resolve source value s!"{path}[{index}]" graph)

end

/-- The fields of a record of a plugin. -/
def decodedFields (inflate : Inflate) (context : SemanticContext) (input : PluginInput)
    (record : Record) : Except SemanticError (List Field) := do
  let view ← Semantic.RecordView.new context record input.plugin.isLocalized
  view.fields inflate

/-- One record of the loop of `build_reference_graph`. -/
def recordReferences (toLowercase : Lowercase) (inflate : Inflate) (context : SemanticContext)
    (order : LoadOrder) (input : PluginInput) (graph : ReferenceGraph) (record : Record) :
    Except SemanticError ReferenceGraph :=
  match context.registry.get record.header.signature with
  | none => .ok graph
  | some _ =>
    match input.resolve toLowercase order record.header.formId with
    | none => .ok graph
    | some source => do
      let fields ← decodedFields inflate context input record
      .ok (fields.foldl (fun graph field =>
        collectReferences (input.resolve toLowercase order) source field.value field.path graph) graph)

/-- `build_reference_graph`. -/
def buildReferenceGraph (toLowercase : Lowercase) (inflate : Inflate) (context : SemanticContext)
    (order : LoadOrder) (plugins : List PluginInput) : Except SemanticError ReferenceGraph :=
  plugins.foldlM (fun graph input => input.plugin.records.foldlM
    (recordReferences toLowercase inflate context order input) graph) []

end Bethkit
