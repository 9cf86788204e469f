import Bethkit.Semantic.View

/-!
# Spans

Which bytes of a payload a decoded value stands for. The members of a struct stand side by side, from
where the struct starts to where it ends. A value that other code returned keeps its own spans.
-/

namespace Bethkit

open Lib

/-- Other code returns the value of the node: a custom decoder, or a normalizer bound to its path. -/
def SchemaNode.Foreign (registry : SchemaRegistry) : SchemaNode → Prop
  | .custom _ _ _ => True
  | node => ∃ binding ∈ registry.callbacksAt node.path, binding.callbackId = "float.normalizer" ∧
      binding.implementation.isExecutable = true

/-- A node whose value can be absent though it takes bytes: the terminator behind an excluded child is
read, and other code may return anything. -/
inductive AbsentWithBytes (registry : SchemaRegistry) : SchemaNode → Prop where
  /-- Other code returns the value. -/
  | foreign {node : SchemaNode} : node.Foreign registry → AbsentWithBytes registry node
  /-- The terminator is read. -/
  | terminated (info : NodeInfo) (terminator : UInt8) (child : SchemaNode) :
    AbsentWithBytes registry (.terminated info terminator child)
  /-- A variant is such a node. -/
  | union {info : NodeInfo} {selector : UnionSelector} {variants : List SchemaNode}
    {variant : SchemaNode} : variant ∈ variants → AbsentWithBytes registry variant →
    AbsentWithBytes registry (.union info selector variants)

/-- A value of a leaf. -/
def FieldValue.isLeaf : FieldValue → Bool
  | .struct _ | .array _ | .absent => false
  | _ => true

mutual

/-- The value of a node stands for the bytes of the payload between two offsets. -/
inductive CoversBytes (registry : SchemaRegistry) : SchemaNode → FieldValue → Nat → Nat → Prop where
  /-- The node is excluded by its condition. -/
  | excluded (node : SchemaNode) (start : Nat) : CoversBytes registry node .absent start start
  /-- Other code returned the value. -/
  | foreign {node : SchemaNode} {start stop : Nat} (value : FieldValue) : node.Foreign registry →
    start ≤ stop → CoversBytes registry node value start stop
  /-- The value of a primitive. -/
  | leaf {info : NodeInfo} {primitive : PrimitiveType} {value : FieldValue} {start stop : Nat} :
    value.isLeaf = true → start ≤ stop →
    CoversBytes registry (.primitive info primitive) value start stop
  /-- The members of a struct. -/
  | struct {info : NodeInfo} {fields : List SchemaNode} {values : List NamedValue}
    {start stop : Nat} : MembersCover registry fields values start stop →
    CoversBytes registry (.struct info fields) (.struct values) start stop
  /-- The members of a struct with optional ones. -/
  | optionalStruct {info : NodeInfo} {fields : List SchemaNode} {optionalFrom : UInt32}
    {values : List NamedValue} {start stop : Nat} : MembersCover registry fields values start stop →
    CoversBytes registry (.optionalStruct info fields optionalFrom) (.struct values) start stop
  /-- The elements of an array behind its count. -/
  | array {info : NodeInfo} {element : SchemaNode} {count : ArrayCount} {values : List FieldValue}
    {start first stop : Nat} : start ≤ first → ElementsCover registry element values first stop →
    CoversBytes registry (.array info element count) (.array values) start stop
  /-- One variant of a union. -/
  | union {info : NodeInfo} {selector : UnionSelector} {variants : List SchemaNode}
    {variant : SchemaNode} {value : FieldValue} {start stop : Nat} : variant ∈ variants →
    CoversBytes registry variant value start stop →
    CoversBytes registry (.union info selector variants) value start stop
  /-- A value and its terminator. -/
  | terminated {info : NodeInfo} {terminator : UInt8} {child : SchemaNode} {value : FieldValue}
    {start stop : Nat} : CoversBytes registry child value start stop →
    CoversBytes registry (.terminated info terminator child) value start (stop + 1)

/-- The members of a struct stand side by side between two offsets, and an absent one takes no byte. -/
inductive MembersCover (registry : SchemaRegistry) :
    List SchemaNode → List NamedValue → Nat → Nat → Prop where
  /-- No member is left. -/
  | nil (start : Nat) : MembersCover registry [] [] start start
  /-- A member ends where the next one starts. -/
  | cons {field : SchemaNode} {fields : List SchemaNode} {effectivePath : Option String}
    {value : FieldValue} {values : List NamedValue} {start middle stop : Nat} :
    CoversBytes registry field value start middle →
    (value = .absent → ¬AbsentWithBytes registry field → start = middle) →
    MembersCover registry fields values middle stop →
    MembersCover registry (field :: fields)
      (.mk field.id field.path effectivePath field.name ⟨start, middle⟩ value :: values) start stop

/-- The elements of an array stand side by side between two offsets. -/
inductive ElementsCover (registry : SchemaRegistry) :
    SchemaNode → List FieldValue → Nat → Nat → Prop where
  /-- No element is left. -/
  | nil (element : SchemaNode) (start : Nat) : ElementsCover registry element [] start start
  /-- An element ends where the next one starts. -/
  | cons {element : SchemaNode} {value : FieldValue} {values : List FieldValue}
    {start middle stop : Nat} :
    CoversBytes registry element value start middle → ElementsCover registry element values middle stop →
    ElementsCover registry element (value :: values) start stop

end

/-- The payload of a subrecord is decoded without leaving a byte out. A zero byte that legacy strings
carry behind their end is taken before decoding. -/
structure Accounted (view : Semantic.RecordView) (payload : SchemaNode) (data : Bytes)
    (decoded : Decoded) : Prop where
  /-- All bytes are consumed. -/
  consumed : decoded.consumed + (if fixedStringTerminator payload data then 1 else 0) = data.length
  /-- The value stands for the consumed bytes. -/
  covers : view.retention.materializes = true →
    CoversBytes view.context.registry payload decoded.value 0 decoded.consumed

end Bethkit
