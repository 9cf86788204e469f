import Bethkit.Schema.Package
import Bethkit.Spec.FieldAccess

/-!
# Well-formed packages

What a package must be to be loaded, said about the package as a whole: its nodes, at any depth of any
record schema, are told apart by their identifiers and by their paths, its bindings by their keys and
its record schemas by their signatures, and every text, node and binding is in order by itself.
-/

namespace Bethkit

open Lib

/-- The nodes of a tree in pre-order. -/
def SchemaNode.nodes (root : SchemaNode) : List SchemaNode := root.routed.map Prod.snd

/-- The nodes of all record schemas, one schema after the other. -/
def PackagePayload.nodes (payload : PackagePayload) : List SchemaNode :=
  payload.records.flatMap (·.root.nodes)

/-- The deepest node of a tree, whose root has depth one. -/
def SchemaNode.WithinDepth (root : SchemaNode) (maximumDepth : Nat) : Prop :=
  ∀ routed ∈ root.routed, routed.1.length < maximumDepth

/-- A text that is not too long. -/
def Sized (limits : SchemaLoadLimits) (text : String) : Prop :=
  text.utf8ByteSize ≤ limits.maximumStringBytes

/-- A text that is neither blank nor too long. -/
def Named (limits : SchemaLoadLimits) (text : String) : Prop :=
  trimIsEmpty text = false ∧ Sized limits text

/-- A node that is in order by itself. -/
structure SchemaNode.Admissible (limits : SchemaLoadLimits) (node : SchemaNode) : Prop where
  /-- It has a path. -/
  path : Named limits node.path
  /-- Its name is not too long. -/
  name : Sized limits node.name
  /-- What its kind carries is in order. -/
  kind : validateKind limits node = .ok ()

/-- A condition function that is in order by itself. -/
structure ConditionFunction.Admissible (limits : SchemaLoadLimits) (function : ConditionFunction) :
    Prop where
  /-- Its index is not negative. -/
  index : 0 ≤ function.index
  /-- It has a name. -/
  name : Named limits function.name
  /-- Its description is not too long. -/
  description : Sized limits function.description
  /-- Every aliasable parameter has a variant. -/
  aliasable : function.hasAliasableEmpty = false

/-- A table of condition functions that is in order. -/
structure ConditionFunctionTable.WellFormed (limits : SchemaLoadLimits)
    (table : ConditionFunctionTable) : Prop where
  /-- The two flag variants are declared together. -/
  variants : table.aliasVariant.isSome = table.packdataVariant.isSome
  /-- There are not too many functions. -/
  count : table.functions.length ≤ limits.maximumConditionFunctions
  /-- Their indexes ascend. -/
  ascending : (table.functions.map (·.index)).Pairwise (· < ·)
  /-- Each is in order. -/
  functions : ∀ function ∈ table.functions, function.Admissible limits

/-- What tells a callback binding from the others. -/
def CallbackBinding.key (binding : CallbackBinding) : String × String × Option UInt32 :=
  (binding.path, binding.callbackId, binding.callbackSlot)

/-- A callback binding that is in order by itself. -/
structure CallbackBinding.Admissible (decoders : List DecoderRequirement)
    (handlers : List HandlerRequirement) (limits : SchemaLoadLimits) (binding : CallbackBinding) :
    Prop where
  /-- It has a path. -/
  path : Named limits binding.path
  /-- It has a role. -/
  callbackId : Named limits binding.callbackId
  /-- Its fingerprint is not too long. -/
  fingerprintSized : Sized limits binding.implementationFingerprint
  /-- Its fingerprint is a digest. -/
  fingerprint : isFingerprint binding.implementationFingerprint = true
  /-- Its implementation is declared by the manifest. -/
  implementation : validateImplementation decoders handlers limits binding = .ok ()

/-- A package that may be loaded. -/
structure PackagePayload.WellFormed (payload : PackagePayload) (limits : SchemaLoadLimits) : Prop where
  /-- The format version is the supported one. -/
  formatVersion : payload.manifest.formatVersion = packageFormatVersion
  /-- An approved package covers all bytes. -/
  coverage : ¬(payload.manifest.validationStatus = .approved ∧ payload.manifest.byteCoverage < 1.0)
  /-- All callbacks are classified. -/
  classified : payload.manifest.callbacksClassified = payload.manifest.callbacksTotal
  /-- The manifest counts the bindings. -/
  bindingCount : payload.callbackBindings.length = payload.manifest.callbacksTotal.toNat
  /-- There are not too many record schemas. -/
  recordCount : payload.records.length ≤ limits.maximumRecords
  /-- The table of condition functions is in order. -/
  table : ∀ table, payload.conditionFunctionTable = some table → table.WellFormed limits
  /-- Record schemas have different signatures. -/
  signatures : (payload.records.map (·.signature)).Nodup
  /-- Their names are not too long. -/
  names : ∀ record ∈ payload.records, Sized limits record.name
  /-- Their trees are not too deep. -/
  depth : ∀ record ∈ payload.records, record.root.WithinDepth limits.maximumDepth
  /-- There are not too many nodes. -/
  nodeCount : payload.nodes.length ≤ limits.maximumNodes
  /-- Nodes have different identifiers. -/
  nodeIds : (payload.nodes.map (·.id)).Nodup
  /-- Nodes have different paths. -/
  paths : (payload.nodes.map (·.path)).Nodup
  /-- Every node is in order. -/
  nodes : ∀ node ∈ payload.nodes, node.Admissible limits
  /-- Expressions read fields that come before them. -/
  fieldOrder : ∀ record ∈ payload.records,
    record.root.validateExpressionFieldOrder limits.maximumStringBytes [] = .ok ()
  /-- Required decoders are named. -/
  decoders : ∀ decoder ∈ payload.manifest.requiredDecoders, Named limits decoder.id
  /-- Required handlers are named and have a version. -/
  handlers : ∀ handler ∈ payload.manifest.requiredHandlers,
    Named limits handler.id ∧ handler.minimumVersion ≠ 0
  /-- Bindings have different keys. -/
  bindingKeys : (payload.callbackBindings.map (·.key)).Nodup
  /-- Every binding is in order. -/
  bindings : ∀ binding ∈ payload.callbackBindings, binding.Admissible
    payload.manifest.requiredDecoders payload.manifest.requiredHandlers limits
  /-- Every selector callback is bound to a handler. -/
  selectors : ∀ node ∈ payload.nodes, validateSelectorBinding payload.callbackBindings node = .ok ()

end Bethkit
