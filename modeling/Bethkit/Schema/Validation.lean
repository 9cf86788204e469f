import Bethkit.Schema.Registry
import Bethkit.Schema.Visibility

/-!
# Validation of a schema graph

What a package is checked for when it is loaded: the identifiers, paths and texts of its nodes, the
bindings of its callbacks and the table of condition functions. The sets of identifiers and paths seen
so far are a state that every check takes and returns.
-/

namespace Bethkit

open Lib

/-- Safety limits applied while loading untrusted schema packages. -/
structure SchemaLoadLimits where
  /-- Maximum encoded package size. -/
  maximumPackageBytes : Nat
  /-- Maximum number of records in one package. -/
  maximumRecords : Nat
  /-- Maximum number of condition-function entries in one package. -/
  maximumConditionFunctions : Nat
  /-- Maximum total number of schema nodes. -/
  maximumNodes : Nat
  /-- Maximum schema tree depth. -/
  maximumDepth : Nat
  /-- Maximum UTF-8 byte length of a schema string. -/
  maximumStringBytes : Nat

/-- The default limits. -/
def SchemaLoadLimits.default : SchemaLoadLimits where
  maximumPackageBytes := 64 * 1024 * 1024
  maximumRecords := 4096
  maximumConditionFunctions := 4096
  maximumNodes := 1000000
  maximumDepth := 128
  maximumStringBytes := 64 * 1024

/-- A custom semantic decoder required by a package. -/
structure DecoderRequirement where
  /-- Stable decoder identifier. -/
  id : String
  /-- Minimum compatible decoder implementation version. -/
  minimumVersion : UInt32

/-- A semantic callback handler required by a package. -/
structure HandlerRequirement where
  /-- Stable handler identifier. -/
  id : String
  /-- Minimum compatible handler implementation version. -/
  minimumVersion : UInt32

/-- One xEdit condition function and its schema-union parameter variants. -/
structure ConditionFunction where
  /-- Numeric condition-function identifier. -/
  index : Int32
  /-- The xEdit function name. -/
  name : String
  /-- The optional xEdit function description. -/
  description : String
  /-- Union variant selected for each of the three parameters. -/
  parameterVariants : UInt16 × UInt16 × UInt16
  /-- Whether each parameter participates in alias and packdata overrides. -/
  aliasableParameters : Bool × Bool × Bool

/-- Shared xEdit condition-function semantics for one game mode. -/
structure ConditionFunctionTable where
  /-- Union variant selected by the "use aliases" flag. -/
  aliasVariant : Option UInt16
  /-- Union variant selected by the "use packdata" flag. -/
  packdataVariant : Option UInt16
  /-- All condition functions in numeric identifier order. -/
  functions : List ConditionFunction

/-- `str::trim` leaves nothing. -/
def trimIsEmpty (text : String) : Bool := (strTrim text).isEmpty

/-- `{:?}` of a string whose other characters are printable. -/
def strDebug (text : String) : String :=
  let escaped := text.toList.flatMap fun char =>
    if char = '\x00' then ['\\', '0']
    else if char = '\t' then ['\\', 't']
    else if char = '\n' then ['\\', 'n']
    else if char = '\r' then ['\\', 'r']
    else if char = '"' then ['\\', '"']
    else if char = '\\' then ['\\', '\\']
    else [char]
  String.ofList ('"' :: escaped ++ ['"'])

/-- What the checks of the nodes so far have seen. -/
structure NodeScan where
  /-- Number of nodes. -/
  nodeCount : Nat
  /-- Their identifiers. -/
  nodeIds : List SchemaNodeId
  /-- Their paths. -/
  paths : List String

/-- Nothing is seen yet. -/
def NodeScan.empty : NodeScan := ⟨0, [], []⟩

/-- A limit that is exceeded. -/
def limitExceeded {α : Type} (message : String) : Except SchemaError α :=
  .error (.limitExceeded message)

/-- A graph that is invalid. -/
def invalidGraph {α : Type} (message : String) : Except SchemaError α :=
  .error (.invalidGraph message)

/-- The allowed values of a string from some on, and those before them. -/
def validateAllowedValues (limits : SchemaLoadLimits) (path : String) :
    List String → List String → Except SchemaError Unit
  | [], _ => .ok ()
  | value :: values, seen => do
    validateString limits.maximumStringBytes value
    if value.isEmpty then invalidGraph s!"string enumeration contains an empty value at {path}"
    else if seen.contains value then
      invalidGraph s!"string enumeration contains duplicate value {strDebug value} at {path}"
    else validateAllowedValues limits path values (value :: seen)

/-- The length prefix of a string. -/
def validateLengthPrefix (path : String) (string : StringType) : Except SchemaError Unit :=
  match string.lengthPrefix with
  | none => .ok ()
  | some lengthPrefix =>
    if !(lengthPrefix.width = 1 || lengthPrefix.width = 2 || lengthPrefix.width = 4) then
      invalidGraph s!"string length prefix width must be 1, 2, or 4 at {path}"
    else if lengthPrefix.offset < lengthPrefix.width then
      invalidGraph s!"string length prefix offset precedes its value at {path}"
    else if string.fixedLength.isSome then
      invalidGraph s!"string cannot have both fixed length and a length prefix at {path}"
    else .ok ()

/-- The primitive type of a node. -/
def validatePrimitive (limits : SchemaLoadLimits) (path : String) (primitive : PrimitiveType) :
    Except SchemaError Unit :=
  match primitive with
  | .float _ _ scale digits =>
    if !scale.isFinite || scale == 0.0 then
      invalidGraph s!"float scale must be finite and non-zero at {path}"
    else if digits < 0 ∧ digits ≠ Int32.minValue then
      invalidGraph s!"float digits must be i32::MIN or non-negative at {path}"
    else .ok ()
  | .string string => do
    validateString limits.maximumStringBytes string.encoding
    if string.encoding.isEmpty then invalidGraph s!"string encoding must not be empty at {path}"
    else do
      validateLengthPrefix path string
      validateAllowedValues limits path string.allowedValues []
  | _ => .ok ()

/-- The integer in front of the elements of an array. -/
def validateCountPrefix (path : String) (integer : IntegerType) : Except SchemaError Unit :=
  if integer.signed then invalidGraph s!"array count prefix must be unsigned at {path}"
  else if !(integer.width = 1 || integer.width = 2 || integer.width = 4 || integer.width = 8) then
    invalidGraph s!"array count prefix width must be 1, 2, 4, or 8 at {path}"
  else .ok ()

/-- The identifier of a callback that selects something. -/
def validateCallbackId (limits : SchemaLoadLimits) (path role callbackId : String) :
    Except SchemaError Unit := do
  validateString limits.maximumStringBytes callbackId
  if trimIsEmpty callbackId then
    invalidGraph s!"{role} callback identifier must not be empty at {path}"
  else .ok ()

/-- What is checked of the kind of a node. -/
def validateKind (limits : SchemaLoadLimits) (node : SchemaNode) : Except SchemaError Unit :=
  match node with
  | .primitive info primitive => validatePrimitive limits info.path primitive
  | .array info _ (.prefixed integer _) | .array info _ (.squaredPrefixed integer _) =>
    validateCountPrefix info.path integer
  | .union info (.callback callbackId) _ | .selectedChoice info (.callback callbackId) _ =>
    validateCallbackId limits info.path "variant selector" callbackId
  | .array info _ (.callback callbackId) =>
    validateCallbackId limits info.path "array count" callbackId
  | .optionalStruct info fields optionalFrom =>
    if fields.length < optionalFrom.toNat then
      invalidGraph (s!"optional struct index {optionalFrom.toNat} exceeds {fields.length} fields at " ++
        info.path)
    else .ok ()
  | _ => .ok ()

/-- What is checked of every node before its children. -/
def validateNodeHead (limits : SchemaLoadLimits) (node : SchemaNode) (depth : Nat)
    (scan : NodeScan) : Except SchemaError NodeScan :=
  if limits.maximumDepth < depth then limitExceeded s!"schema depth exceeds {limits.maximumDepth}"
  else if limits.maximumNodes < scan.nodeCount + 1 then
    limitExceeded s!"schema node count exceeds {limits.maximumNodes}"
  else if scan.nodeIds.contains node.id then
    invalidGraph s!"duplicate schema node id {node.id.toNat}"
  else if scan.paths.contains node.path then invalidGraph s!"duplicate schema path {node.path}"
  else if trimIsEmpty node.path then invalidGraph "schema node path must not be empty"
  else do
    validateString limits.maximumStringBytes node.path
    validateString limits.maximumStringBytes node.name
    validateKind limits node
    .ok ⟨scan.nodeCount + 1, node.id :: scan.nodeIds, node.path :: scan.paths⟩

mutual

/-- Check a tree of nodes. -/
def validateNode (limits : SchemaLoadLimits) :
    SchemaNode → Nat → NodeScan → Except SchemaError NodeScan
  | node@(.sequence _ children), depth, scan | node@(.unordered _ children), depth, scan
  | node@(.choice _ children), depth, scan | node@(.selectedChoice _ _ children), depth, scan
  | node@(.struct _ children), depth, scan | node@(.optionalStruct _ children _), depth, scan
  | node@(.union _ _ children), depth, scan => do
    let scan ← validateNodeHead limits node depth scan
    validateNodes limits children (depth + 1) scan
  | node@(.repeat _ _ _ child), depth, scan | node@(.subrecord _ _ child), depth, scan
  | node@(.array _ child _), depth, scan | node@(.compressed _ _ child), depth, scan
  | node@(.terminated _ _ child), depth, scan => do
    let scan ← validateNodeHead limits node depth scan
    validateNode limits child (depth + 1) scan
  | node@(.primitive _ _), depth, scan | node@(.custom _ _ _), depth, scan
  | node@(.reference _ _), depth, scan => validateNodeHead limits node depth scan

/-- Check the children of a node. -/
def validateNodes (limits : SchemaLoadLimits) :
    List SchemaNode → Nat → NodeScan → Except SchemaError NodeScan
  | [], _, scan => .ok scan
  | child :: children, depth, scan => do
    let scan ← validateNode limits child depth scan
    validateNodes limits children depth scan

end

/-- The callback that selects a variant, an alternative or an element count. -/
def SchemaNode.selectorCallback : SchemaNode → Option String
  | .union _ (.callback callbackId) _ | .selectedChoice _ (.callback callbackId) _
  | .array _ _ (.callback callbackId) => some callbackId
  | _ => none

/-- The binding of the callback that selects something at a node. -/
def validateSelectorBinding (bindings : List CallbackBinding) (node : SchemaNode) :
    Except SchemaError Unit :=
  match node.selectorCallback with
  | none => .ok ()
  | some callbackId =>
    match bindings.find? fun binding =>
        binding.path = node.path && binding.callbackId = callbackId with
    | none => invalidGraph s!"schema callback {callbackId} at {node.path} has no binding"
    | some binding =>
      if binding.implementation.isExecutable then .ok ()
      else invalidGraph s!"schema callback {callbackId} at {node.path} is not a semantic handler"

mutual

/-- Check the selector callbacks of a tree of nodes. -/
def validateSemanticSelectorBindings (bindings : List CallbackBinding) :
    SchemaNode → Except SchemaError Unit
  | node@(.sequence _ children) | node@(.unordered _ children) | node@(.choice _ children)
  | node@(.selectedChoice _ _ children) | node@(.struct _ children)
  | node@(.optionalStruct _ children _) | node@(.union _ _ children) => do
    validateSelectorBinding bindings node
    validateAllSelectorBindings bindings children
  | node@(.repeat _ _ _ child) | node@(.subrecord _ _ child) | node@(.array _ child _)
  | node@(.compressed _ _ child) | node@(.terminated _ _ child) => do
    validateSelectorBinding bindings node
    validateSemanticSelectorBindings bindings child
  | node@(.primitive _ _) | node@(.custom _ _ _) | node@(.reference _ _) =>
    validateSelectorBinding bindings node

/-- Check the selector callbacks of the children of a node. -/
def validateAllSelectorBindings (bindings : List CallbackBinding) :
    List SchemaNode → Except SchemaError Unit
  | [] => .ok ()
  | child :: children => do
    validateSemanticSelectorBindings bindings child
    validateAllSelectorBindings bindings children

end

/-- `require_handler`. -/
def requireHandler (handlers : List HandlerRequirement) (handler : String)
    (minimumVersion : UInt32) (path : String) : Except SchemaError Unit :=
  if handlers.any fun requirement =>
      requirement.id = handler && minimumVersion ≤ requirement.minimumVersion then .ok ()
  else invalidGraph s!"callback handler {handler} at {path} is missing from manifest requirements"

/-- A digest in lowercase hexadecimal digits. -/
def isFingerprint (text : String) : Bool :=
  text.utf8ByteSize = 64 && (strAsBytes text).all fun byte =>
    (48 ≤ byte && byte ≤ 57) || (97 ≤ byte && byte ≤ 102)

/-- The implementation of a callback. -/
def validateImplementation (decoders : List DecoderRequirement) (handlers : List HandlerRequirement)
    (limits : SchemaLoadLimits) (binding : CallbackBinding) : Except SchemaError Unit :=
  match binding.implementation with
  | .declarative _ | .userInterfaceOnly => .ok ()
  | .builtIn operation => do
    validateString limits.maximumStringBytes operation.id
    if trimIsEmpty operation.id || operation.minimumVersion = 0 then
      invalidGraph "built-in callback operation must not be empty"
    else requireHandler handlers operation.id operation.minimumVersion binding.path
  | .payloadDecoder decoder minimumVersion => do
    validateString limits.maximumStringBytes decoder
    if trimIsEmpty decoder || minimumVersion = 0 then
      invalidGraph "custom callback decoder and version must be valid"
    else if decoders.any fun requirement =>
        requirement.id = decoder && minimumVersion ≤ requirement.minimumVersion then .ok ()
    else invalidGraph s!"custom callback decoder {decoder} is missing from manifest requirements"
  | .customHandler handler minimumVersion => do
    validateString limits.maximumStringBytes handler
    if trimIsEmpty handler || minimumVersion = 0 then
      invalidGraph "custom callback handler and version must be valid"
    else requireHandler handlers handler minimumVersion binding.path

/-- Check callback bindings from one on; the keys of those before it must not occur again. -/
def validateCallbackBindings (decoders : List DecoderRequirement)
    (handlers : List HandlerRequirement) (limits : SchemaLoadLimits) :
    List CallbackBinding → List (String × String × Option UInt32) → Except SchemaError Unit
  | [], _ => .ok ()
  | binding :: bindings, keys => do
    validateString limits.maximumStringBytes binding.path
    validateString limits.maximumStringBytes binding.callbackId
    validateString limits.maximumStringBytes binding.implementationFingerprint
    let key := (binding.path, binding.callbackId, binding.callbackSlot)
    if trimIsEmpty binding.path || trimIsEmpty binding.callbackId then
      invalidGraph "callback path and identifier must not be empty"
    else if !isFingerprint binding.implementationFingerprint then
      invalidGraph (s!"callback {binding.callbackId} at {binding.path} has an invalid " ++
        "implementation fingerprint")
    else if keys.contains key then
      invalidGraph s!"duplicate callback binding {binding.callbackId} at {binding.path}"
    else do
      validateImplementation decoders handlers limits binding
      validateCallbackBindings decoders handlers limits bindings (key :: keys)

/-- An aliasable parameter without a variant. -/
def ConditionFunction.hasAliasableEmpty (function : ConditionFunction) : Bool :=
  let variants := function.parameterVariants
  let aliasable := function.aliasableParameters
  (aliasable.1 && variants.1 = 0) || (aliasable.2.1 && variants.2.1 = 0) ||
    (aliasable.2.2 && variants.2.2 = 0)

/-- Check condition functions from one on, behind the index of the one before it. -/
def validateConditionFunctions (limits : SchemaLoadLimits) :
    List ConditionFunction → Option Int32 → Except SchemaError Unit
  | [], _ => .ok ()
  | function :: functions, previousIndex =>
    if function.index < 0 then
      invalidGraph s!"condition function {function.name} has a negative index"
    else if previousIndex.any (function.index ≤ ·) then
      invalidGraph "condition functions must have unique ascending indexes"
    else if trimIsEmpty function.name then
      invalidGraph s!"condition function {function.index.toInt} has an empty name"
    else do
      validateString limits.maximumStringBytes function.name
      validateString limits.maximumStringBytes function.description
      if function.hasAliasableEmpty then
        invalidGraph s!"condition function {function.index.toInt} has an aliasable empty parameter"
      else validateConditionFunctions limits functions (some function.index)

/-- Check the table of condition functions. -/
def validateConditionFunctionTable (limits : SchemaLoadLimits)
    (table : Option ConditionFunctionTable) : Except SchemaError Unit :=
  match table with
  | none => .ok ()
  | some table =>
    if table.aliasVariant.isSome ≠ table.packdataVariant.isSome then
      invalidGraph "condition aliases and packdata variants must be declared together"
    else if limits.maximumConditionFunctions < table.functions.length then
      limitExceeded (s!"package has {table.functions.length} condition functions, limit is " ++
        s!"{limits.maximumConditionFunctions}")
    else validateConditionFunctions limits table.functions none

end Bethkit
