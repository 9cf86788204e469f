import Bethkit.Schema.Expression

/-!
# The schema package

A record schema is a tree of nodes: sequences, choices and repeats order the subrecords of a
record, and below a subrecord primitives, structs, arrays and unions lay out its payload. A
node of the source is a struct with a `kind`; here the kind is the constructor and `NodeInfo`
holds the other fields. Of a package and its manifest only the fields that the modelled code
reads are kept.
-/

namespace Bethkit

open Lib

/-- Static xEdit conflict priority assigned to a schema node. -/
inductive ConflictPriority where
  | ignore | benignIfAdded | benign | override | translate | normal | normalIgnoreEmpty
  | critical | formId
deriving DecidableEq

/-- Stable identifier for a schema node inside one package. -/
abbrev SchemaNodeId : Type := UInt32

/-- Game mode represented by a schema package. -/
inductive SchemaGame where
  | skyrimLe | skyrimSe | skyrimVr | fallout3 | falloutNv | fallout4 | fallout4Vr | fallout76
  | oblivion | morrowind | starfield
deriving DecidableEq

/-- A JSON value, as it stands in the configuration of a callback. -/
inductive JsonValue where
  /-- `null`. -/
  | null
  /-- A boolean. -/
  | bool (value : Bool)
  /-- A number, as it is written. -/
  | number (text : String)
  /-- A string. -/
  | string (text : String)
  /-- An array. -/
  | array (values : List JsonValue)
  /-- An object. -/
  | object (members : List (String × JsonValue))

/-- `Value::get` with a member name. -/
def JsonValue.get (value : JsonValue) (member : String) : Option JsonValue :=
  match value with
  | .object members => (members.find? (·.1 = member)).map (·.2)
  | _ => none

/-- `Value::as_str`. -/
def JsonValue.asStr : JsonValue → Option String
  | .string text => some text
  | _ => none

/-- Versioned built-in semantic operation with deterministic configuration. -/
structure BuiltInOperation where
  /-- Stable operation identifier resolved through the semantic handler registry. -/
  id : String
  /-- Minimum compatible handler implementation version. -/
  minimumVersion : UInt32
  /-- Handler-specific deterministic configuration. -/
  configuration : JsonValue

/-- Executable representation of one classified xEdit callback. -/
inductive CallbackImplementation where
  /-- Callback behavior represented by a bounded expression. -/
  | declarative (expression : Expression)
  /-- Callback behavior implemented by a stable built-in operation. -/
  | builtIn (operation : BuiltInOperation)
  /-- Callback is satisfied by the payload decoder attached to the schema node. -/
  | payloadDecoder (decoder : String) (minimumDecoderVersion : UInt32)
  /-- Callback behavior implemented by a registered semantic handler. -/
  | customHandler (handler : String) (minimumHandlerVersion : UInt32)
  /-- Callback affects presentation only and is not executed at runtime. -/
  | userInterfaceOnly

/-- The implementation is run by a semantic handler. -/
def CallbackImplementation.isExecutable : CallbackImplementation → Bool
  | .builtIn _ | .customHandler _ _ => true
  | _ => false

/-- Exact schema-path binding for one classified xEdit callback. -/
structure CallbackBinding where
  /-- Exact stable schema path. -/
  path : String
  /-- Stable exporter callback role. -/
  callbackId : String
  /-- Optional callback slot for arrays of callbacks attached to one definition. -/
  callbackSlot : Option UInt32
  /-- Build-bound implementation fingerprint used for audit traceability. -/
  implementationFingerprint : String
  /-- Executable callback representation. -/
  implementation : CallbackImplementation

/-- Byte order used by a primitive numeric field. -/
inductive ByteOrder where
  /-- Least-significant byte first. -/
  | littleEndian
  /-- Most-significant byte first. -/
  | bigEndian
deriving DecidableEq

/-- Integer representation used by a primitive field. -/
structure IntegerType where
  /-- Integer width in bytes. -/
  width : UInt8
  /-- Whether the integer is signed. -/
  signed : Bool
  /-- Byte order used by the integer. -/
  byteOrder : ByteOrder
deriving DecidableEq

/-- Length prefix stored before a variable-sized string. -/
structure StringLengthPrefix where
  /-- Width of the unsigned little-endian length value in bytes. -/
  width : UInt8
  /-- Byte offset from the start of the field to the first string byte. -/
  offset : UInt8
deriving DecidableEq

/-- String encoding and termination behavior. -/
structure StringType where
  /-- Encoding identifier such as `utf8`, `windows_1252`, or `localized`. -/
  encoding : String
  /-- Whether localized plugins replace the text bytes with a string-table ID. -/
  localized : Bool
  /-- Whether a zero byte terminates the value. -/
  zeroTerminated : Bool
  /-- Fixed byte length when the string is not variable-sized. -/
  fixedLength : Option UInt32
  /-- Optional unsigned little-endian byte-length prefix. -/
  lengthPrefix : Option StringLengthPrefix
  /-- Optional structural terminator byte following the complete string representation. -/
  trailingTerminator : Option UInt8
  /-- Values accepted by an xEdit string-enumeration formatter; empty is unrestricted. -/
  allowedValues : List String
deriving DecidableEq

/-- Primitive field type. -/
inductive PrimitiveType where
  /-- Integer value. -/
  | integer (integer : IntegerType)
  /-- Unsigned xEdit integer using a two-bit encoded byte width. -/
  | packedUnsigned
  /-- IEEE floating-point value with a multiplier and the decimal places that xEdit retains. -/
  | float (width : UInt8) (byteOrder : ByteOrder) (scale : Float) (digits : Int32)
  /-- String value. -/
  | string (string : StringType)
  /-- Raw bytes with an optional fixed length. -/
  | bytes (length : Option UInt32)
  /-- FormID with optional target record signatures. -/
  | formId (targets : List Signature)
  /-- Enumeration with signed integer keys. -/
  | enumeration (integer : IntegerType) (values : List (Int64 × String))
  /-- Named bit flags. -/
  | flags (integer : IntegerType) (bits : List (UInt8 × String))
  /-- Explicitly unused bytes. -/
  | unused (length : UInt32)

/-- Rule used to determine an array's element count. -/
inductive ArrayCount where
  /-- Fixed element count. -/
  | fixed (count : UInt32)
  /-- Element count is stored immediately before the array elements. -/
  | prefixed (integer : IntegerType) (terminator : Option UInt8)
  /-- Element count uses xEdit's packed 6/14/30-bit unsigned encoding. -/
  | packedPrefixed (square : Bool) (terminator : Option UInt8)
  /-- Element count is the square of a fixed-width prefix. -/
  | squaredPrefixed (integer : IntegerType) (terminator : Option UInt8)
  /-- Count is read from an expression. -/
  | expression (expression : Expression)
  /-- Element count is selected by a semantic callback. -/
  | callback (callbackId : String)
  /-- Elements consume the remaining payload. -/
  | remainder

/-- Rule selecting one variant of a union or ordered-choice node. -/
inductive UnionSelector where
  /-- Bounded declarative expression producing the zero-based variant index. -/
  | expression (expression : Expression)
  /-- Semantic callback producing the zero-based variant index. -/
  | callback (callbackId : String)

/-- What every schema node carries beside its kind. -/
structure NodeInfo where
  /-- Stable node identifier. -/
  id : SchemaNodeId
  /-- Stable path within the package. -/
  path : String
  /-- Human-readable name. -/
  name : String
  /-- Whether the node is required. -/
  required : Bool
  /-- Static conflict priority before any semantic callback override. -/
  conflictPriority : ConflictPriority
  /-- Optional inclusion condition. -/
  condition : Option Expression

/-- One node in the ordered schema grammar. -/
inductive SchemaNode where
  /-- Ordered child nodes. -/
  | sequence (info : NodeInfo) (children : List SchemaNode)
  /-- Child nodes whose subrecord groups may appear in any order. -/
  | unordered (info : NodeInfo) (children : List SchemaNode)
  /-- Exactly one matching child alternative. -/
  | choice (info : NodeInfo) (alternatives : List SchemaNode)
  /-- Exactly one ordered child selected before grammar matching. -/
  | selectedChoice (info : NodeInfo) (selector : UnionSelector) (alternatives : List SchemaNode)
  /-- Repeated child node or group. -/
  | repeat (info : NodeInfo) (minimum : UInt32) (maximum : Option UInt32) (child : SchemaNode)
  /-- Subrecord with a typed payload node. -/
  | subrecord (info : NodeInfo) (signature : Signature) (payload : SchemaNode)
  /-- Primitive value. -/
  | primitive (info : NodeInfo) (primitive : PrimitiveType)
  /-- Packed struct. -/
  | struct (info : NodeInfo) (fields : List SchemaNode)
  /-- Packed struct whose trailing fields may be absent. -/
  | optionalStruct (info : NodeInfo) (fields : List SchemaNode) (optionalFrom : UInt32)
  /-- Homogeneous array. -/
  | array (info : NodeInfo) (element : SchemaNode) (count : ArrayCount)
  /-- Union selected by a declarative expression or semantic callback. -/
  | union (info : NodeInfo) (selector : UnionSelector) (variants : List SchemaNode)
  /-- Custom Rust decoder and encoder. -/
  | custom (info : NodeInfo) (decoder : String) (configuration : JsonValue)
  /-- Compressed child payload. -/
  | compressed (info : NodeInfo) (algorithm : String) (child : SchemaNode)
  /-- Child value followed by one structural terminator byte. -/
  | terminated (info : NodeInfo) (terminator : UInt8) (child : SchemaNode)
  /-- Reference to another node by stable path. -/
  | reference (info : NodeInfo) (target : String)

namespace SchemaNode

/-- The fields beside the kind. -/
def info : SchemaNode → NodeInfo
  | sequence info _ | unordered info _ | choice info _ | selectedChoice info _ _
  | «repeat» info _ _ _ | subrecord info _ _ | primitive info _ | struct info _
  | optionalStruct info _ _ | array info _ _ | union info _ _ | custom info _ _
  | compressed info _ _ | terminated info _ _ | reference info _ => info

/-- Stable node identifier. -/
def id (node : SchemaNode) : SchemaNodeId := node.info.id

/-- Stable path within the package. -/
def path (node : SchemaNode) : String := node.info.path

/-- Human-readable name. -/
def name (node : SchemaNode) : String := node.info.name

/-- Whether the node is required. -/
def required (node : SchemaNode) : Bool := node.info.required

/-- Optional inclusion condition. -/
def condition (node : SchemaNode) : Option Expression := node.info.condition

/-- The child nodes, in the order of the source's traversals. -/
def children : SchemaNode → List SchemaNode
  | sequence _ children | unordered _ children | choice _ children
  | selectedChoice _ _ children | struct _ children | optionalStruct _ children _
  | union _ _ children => children
  | «repeat» _ _ _ child | subrecord _ _ child | array _ child _ | compressed _ _ child
  | terminated _ _ child => [child]
  | primitive _ _ | custom _ _ _ | reference _ _ => []

/-- The node is a subrecord. -/
def isSubrecord : SchemaNode → Bool
  | subrecord _ _ _ => true
  | _ => false

mutual

/-- The first node of a tree, in pre-order, with a path. -/
def findNodeByPath (path : String) : SchemaNode → Option SchemaNode
  | node@(sequence _ children) | node@(unordered _ children) | node@(choice _ children)
  | node@(selectedChoice _ _ children) | node@(struct _ children)
  | node@(optionalStruct _ children _) | node@(union _ _ children) =>
    if node.path = path then some node else findInChildren path children
  | node@(«repeat» _ _ _ child) | node@(subrecord _ _ child) | node@(array _ child _)
  | node@(compressed _ _ child) | node@(terminated _ _ child) =>
    if node.path = path then some node else findNodeByPath path child
  | node@(primitive _ _) | node@(custom _ _ _) | node@(reference _ _) =>
    if node.path = path then some node else none

/-- The first node with a path in a list of trees. -/
def findInChildren (path : String) : List SchemaNode → Option SchemaNode
  | [] => none
  | child :: children =>
    match findNodeByPath path child with
    | some found => some found
    | none => findInChildren path children

end

end SchemaNode

end Bethkit
