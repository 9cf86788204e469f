import Bethkit.Semantic.Analysis

/-!
# The references of a load order

The FormIDs below a decoded value in decode order, the references of the covered records and the
edges that they stand for. A union holds the value of its selected variant, so its FormIDs are
those of the variant.
-/

namespace Bethkit

open Lib

mutual

/-- The FormIDs of a value at a path, each with its own path, in decode order. -/
def FieldValue.formIdLeaves : FieldValue → String → List (String × FormId)
  | .formId value _, path => [(path, value)]
  | .struct values, _ => memberLeaves values
  | .array values, path => itemLeaves path values 0
  | _, _ => []

/-- The FormIDs of the members of a struct. -/
def memberLeaves : List NamedValue → List (String × FormId)
  | [] => []
  | .mk _ path _ _ _ value :: values => value.formIdLeaves path ++ memberLeaves values

/-- The FormIDs of the items of an array from a position on. -/
def itemLeaves (path : String) : List FieldValue → Nat → List (String × FormId)
  | [], _ => []
  | value :: values, index =>
    value.formIdLeaves s!"{path}[{index}]" ++ itemLeaves path values (index + 1)

end

/-- A FormID in a decoded field of a record. -/
structure Reference where
  /-- The plugin of the record. -/
  input : PluginInput
  /-- The FormID of the record. -/
  owner : FormId
  /-- Path of the FormID. -/
  path : String
  /-- The FormID. -/
  formId : FormId

/-- The edge of a reference whose ends resolve. -/
def Reference.edge (toLowercase : Lowercase) (order : LoadOrder) (reference : Reference) :
    Option ReferenceEdge := do
  let source ← reference.input.resolve toLowercase order reference.owner
  let target ← reference.input.resolve toLowercase order reference.formId
  some ⟨source, target, reference.path⟩

/-- A record with a schema whose own FormID resolves. -/
def CoversRecord (toLowercase : Lowercase) (context : SemanticContext) (order : LoadOrder)
    (input : PluginInput) (record : Record) : Bool :=
  (context.registry.get record.header.signature).isSome &&
    (input.resolve toLowercase order record.header.formId).isSome

/-- The references of the decoded fields of a record. -/
def recordLeaves (inflate : Inflate) (context : SemanticContext) (input : PluginInput)
    (record : Record) : List Reference :=
  ((decodedFields inflate context input record).toOption.getD []).flatMap fun field =>
    (field.value.formIdLeaves field.path).map fun leaf =>
      ⟨input, record.header.formId, leaf.1, leaf.2⟩

/-- The references of every covered record of every plugin. -/
def coveredReferences (toLowercase : Lowercase) (inflate : Inflate) (context : SemanticContext)
    (order : LoadOrder) (plugins : List PluginInput) : List Reference :=
  plugins.flatMap fun input =>
    (input.plugin.records.filter (CoversRecord toLowercase context order input)).flatMap
      (recordLeaves inflate context input)

/-- The edges are exactly those of the references that are not null. -/
def HasExactEdges (toLowercase : Lowercase) (inflate : Inflate) (context : SemanticContext)
    (order : LoadOrder) (plugins : List PluginInput) (graph : ReferenceGraph) : Prop :=
  graph = ((coveredReferences toLowercase inflate context order plugins).filter
    (!·.formId.isNull)).filterMap (Reference.edge toLowercase order)

/-- A decoded union that applies holds the value of one of its variants, as the normalizers of the
union leave it. -/
def UnionsKeepVariants (context : SemanticContext) : Prop :=
  ∀ (view : Semantic.RecordView) (payload : Bytes) (info : NodeInfo) (selector : UnionSelector)
    (variants : List SchemaNode) (current : Bytes) (frame : DecodeFrame)
    (state after : DecodeState) (decoded : Decoded),
    view.context = context → view.retention.materializes = true →
    view.decodeNode payload (.union info selector variants) current frame state =
      .ok (decoded, after) →
    (view.nodeApplies (.union info selector variants) payload state.fieldValues = .ok false ∧
        decoded.value = .absent) ∨
      ∃ variant ∈ variants, ∃ inner reached,
        view.decodeNode payload variant current frame state = .ok (inner, reached) ∧
        context.applyNormalizers info.path view.record inner.value = .ok decoded.value

end Bethkit
