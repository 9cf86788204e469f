import Bethkit.Core.Plugin

/-!
# The layout of a plugin file

The abstract content of a plugin file: a header record and a forest of groups over records,
with neither sizes nor offsets. `encode` lays the content out as bytes and computes every size
field; `locate` says at which offsets the parser finds it. A raw record carries the three
conditions under which its bytes are a record at all, so an unreadable record cannot be built.
-/

namespace Bethkit

open Lib

/-- The 24 bytes of a record header. -/
def RecordHeader.encode (header : RecordHeader) : Bytes :=
  header.signature.bytes.val ++ u32ToLeBytes header.dataSize ++ u32ToLeBytes header.flags.bits ++
    u32ToLeBytes header.formId.val ++ u32ToLeBytes header.versionControl ++
    u16ToLeBytes header.formVersion ++ u16ToLeBytes header.unknown

/-- A record header occupies 24 bytes. -/
@[simp]
theorem RecordHeader.length_encode (header : RecordHeader) : header.encode.length = 24 := by
  simp [encode, header.signature.bytes.property]

/-- The 24 bytes of a parsed group header. -/
def GroupHeader.encode (header : GroupHeader) : Bytes :=
  Signature.GRUP.bytes.val ++ u32ToLeBytes header.groupSize ++ header.label.toBytes ++
    i32ToLeBytes header.groupType.toRaw ++ u32ToLeBytes header.versionControl ++
    u32ToLeBytes header.unknown

namespace Layout

/-- The content of a main record. -/
structure RawRecord where
  /-- The record type. -/
  signature : Signature
  /-- Record-level flags. -/
  flags : RecordFlags
  /-- Raw FormID. -/
  formId : FormId
  /-- Version control info. -/
  versionControl : UInt32
  /-- Format version. -/
  formVersion : UInt16
  /-- Reserved field. -/
  unknown : UInt16
  /-- The stored data block. -/
  block : Bytes
  /-- A record is no group. -/
  notGroup : signature ≠ .GRUP
  /-- The size field holds the length of the block. -/
  sized : block.length < 2 ^ 32
  /-- A compressed block starts with its decompressed size. -/
  compressed : flags.contains .COMPRESSED = true → 4 ≤ block.length

namespace RawRecord

/-- The header of the record; the size is that of the block. -/
def header (raw : RawRecord) : RecordHeader where
  signature := raw.signature
  dataSize := UInt32.ofNat raw.block.length
  flags := raw.flags
  formId := raw.formId
  versionControl := raw.versionControl
  formVersion := raw.formVersion
  unknown := raw.unknown

/-- The size field loses nothing. -/
theorem toNat_dataSize (raw : RawRecord) : raw.header.dataSize.toNat = raw.block.length := by
  rw [header, UInt32.toNat_ofNat', Nat.mod_eq_of_lt raw.sized]

/-- The content of a record with a given header and block. -/
def ofParts (header : RecordHeader) (block : Bytes) (sized : block.length = header.dataSize.toNat)
    (notGroup : header.signature ≠ .GRUP)
    (compressed : header.flags.contains .COMPRESSED = true → 4 ≤ block.length) : RawRecord where
  signature := header.signature
  flags := header.flags
  formId := header.formId
  versionControl := header.versionControl
  formVersion := header.formVersion
  unknown := header.unknown
  block := block
  notGroup := notGroup
  sized := sized ▸ header.dataSize.toNat_lt
  compressed := compressed

/-- The parts are those given. -/
theorem header_ofParts (header : RecordHeader) (block : Bytes)
    (sized : block.length = header.dataSize.toNat) (notGroup : header.signature ≠ .GRUP)
    (compressed : header.flags.contains .COMPRESSED = true → 4 ≤ block.length) :
    (ofParts header block sized notGroup compressed).header = header := by
  obtain ⟨signature, dataSize, flags, formId, versionControl, formVersion, unknown⟩ := header
  simp only at sized
  simp [RawRecord.header, ofParts, sized]

/-- The bytes of the record. -/
def encode (raw : RawRecord) : Bytes := raw.header.encode ++ raw.block

/-- A record occupies its header and its block. -/
@[simp]
theorem length_encode (raw : RawRecord) : raw.encode.length = 24 + raw.block.length := by
  simp [encode]

/-- How the parser stores the block. -/
def data (raw : RawRecord) : RecordData :=
  if raw.flags.contains .COMPRESSED then
    .compressed (raw.block.drop 4) (u32FromLeBytes (raw.block.take 4))
  else .raw raw.block

/-- The parsed record, before its position is known. -/
def toRecord (raw : RawRecord) : Record :=
  { header := raw.header, sourceRange := none, data := raw.data, parsed := none }

/-- The parsed record found at an offset. -/
def locate (raw : RawRecord) (start : Nat) : Record :=
  { raw.toRecord with sourceRange := some ⟨start, start + raw.encode.length⟩ }

end RawRecord

/-- The content of a group header. -/
structure GroupHead where
  /-- The label bytes. -/
  label : Fixed 4
  /-- The group type. -/
  groupType : GroupType
  /-- Version control information. -/
  versionControl : UInt32
  /-- Trailing field. -/
  unknown : UInt32

namespace GroupHead

/-- The 24 bytes of a group header with a given total size. -/
def encode (head : GroupHead) (size : Nat) : Bytes :=
  Signature.GRUP.bytes.val ++ u32ToLeBytes (UInt32.ofNat size) ++ head.label.val ++
    i32ToLeBytes head.groupType.toRaw ++ u32ToLeBytes head.versionControl ++
    u32ToLeBytes head.unknown

/-- A group header occupies 24 bytes. -/
@[simp]
theorem length_encode (head : GroupHead) (size : Nat) : (head.encode size).length = 24 := by
  simp [encode, head.label.property, Signature.GRUP]

/-- The parsed group header. -/
def header (head : GroupHead) (size : Nat) : GroupHeader where
  groupSize := UInt32.ofNat size
  label := .fromRaw head.label head.groupType
  groupType := head.groupType
  versionControl := head.versionControl
  unknown := head.unknown

/-- Emitting the parsed header gives back its bytes. -/
@[simp]
theorem encode_header (head : GroupHead) (size : Nat) :
    (head.header size).encode = head.encode size := by
  simp [header, GroupHeader.encode, encode]

end GroupHead

/-- A record or a group with its content. -/
abbrev Node : Type := RoseTree GroupHead RawRecord

/-- The bytes of a node; every group size is computed from the children. -/
def encode : Node → Bytes :=
  RoseTree.fold RawRecord.encode fun head parts =>
    head.encode (24 + parts.flatten.length) ++ parts.flatten

/-- The bytes of consecutive nodes. -/
def encodeAll (nodes : List Node) : Bytes := nodes.flatMap encode

/-- No nodes, no bytes. -/
@[simp]
theorem encodeAll_nil : encodeAll [] = [] := rfl

/-- Consecutive nodes stand one after the other. -/
@[simp]
theorem encodeAll_cons (node : Node) (nodes : List Node) :
    encodeAll (node :: nodes) = encode node ++ encodeAll nodes := rfl

/-- The bytes of a record. -/
@[simp]
theorem encode_leaf (raw : RawRecord) : encode (.leaf raw) = raw.encode := by simp [encode]

/-- A group is its header, with the size of everything it holds, and its children. -/
@[simp]
theorem encode_node (head : GroupHead) (children : List Node) :
    encode (.node head children) =
      head.encode (24 + (encodeAll children).length) ++ encodeAll children := by
  simp [encode, encodeAll, List.flatMap]

/-- Every node occupies at least a header. -/
theorem length_encode_ge (node : Node) : 24 ≤ (encode node).length := by
  cases node with
  | leaf raw => simp
  | node head children => simp

mutual

/-- The parsed child found at an offset. -/
def locate (start : Nat) : Node → GroupChild
  | .leaf raw => .leaf (raw.locate start)
  | .node head children =>
    .node ⟨head.header (24 + (encodeAll children).length),
      some ⟨start, start + (24 + (encodeAll children).length)⟩⟩ (locateAll (start + 24) children)

/-- The parsed children found one after the other from an offset. -/
def locateAll (start : Nat) : List Node → List GroupChild
  | [] => []
  | node :: nodes => locate start node :: locateAll (start + (encode node).length) nodes

end

/-- A node found among located children stands at its own offset. -/
theorem mem_locateAll {nodes : List Node} {before : Bytes} (after : Bytes) {child : GroupChild}
    (found : child ∈ locateAll before.length nodes) :
    ∃ node ∈ nodes, ∃ front back, before ++ (encodeAll nodes ++ after) =
      front ++ (encode node ++ back) ∧ child = locate front.length node := by
  induction nodes generalizing before with
  | nil => exact absurd found List.not_mem_nil
  | cons node nodes ih =>
    rcases List.mem_cons.mp found with rfl | later
    · exact ⟨node, List.mem_cons_self, before, encodeAll nodes ++ after, by simp, rfl⟩
    · rw [← List.length_append] at later
      obtain ⟨other, inside, front, back, split, rfl⟩ := ih later
      exact ⟨other, List.mem_cons_of_mem _ inside, front, back, by simp [← split], rfl⟩

/-- Every group size fits its 32-bit field. -/
def Fits (node : Node) : Prop :=
  ∀ group ∈ node.nodes, 24 + (encodeAll group.2).length < 2 ^ 32

/-- A record has no group size to fit. -/
@[simp]
theorem fits_leaf (raw : RawRecord) : Fits (.leaf raw) := by simp [Fits]

/-- A group fits when its own size does and all its children fit. -/
@[simp]
theorem fits_node (head : GroupHead) (children : List Node) :
    Fits (.node head children) ↔
      24 + (encodeAll children).length < 2 ^ 32 ∧ ∀ child ∈ children, Fits child := by
  simp only [Fits, RoseTree.nodes_node, List.mem_cons, List.mem_flatMap, forall_eq_or_imp,
    forall_exists_index, and_imp]
  exact and_congr_right fun _ => ⟨fun all child found group inside => all group child found inside,
    fun all group child found inside => all child found group inside⟩

/-- A top-level group: its header and its children. -/
structure TopGroup where
  /-- Header content. -/
  head : GroupHead
  /-- Children in file order. -/
  children : List Node

namespace TopGroup

/-- The group as a node. -/
def toNode (group : TopGroup) : Node := .node group.head group.children

/-- The parsed group found at an offset. -/
def locate (group : TopGroup) (start : Nat) : Group where
  header := group.head.header (24 + (encodeAll group.children).length)
  sourceRange := some ⟨start, start + (24 + (encodeAll group.children).length)⟩
  children := locateAll (start + 24) group.children

/-- The parsed groups found one after the other from an offset. -/
def locateAll (start : Nat) : List TopGroup → List Group
  | [] => []
  | group :: groups =>
    group.locate start :: locateAll (start + (encode group.toNode).length) groups

/-- Located groups are located nodes. -/
theorem toChild_locateAll (start : Nat) (groups : List TopGroup) :
    (locateAll start groups).map Group.toChild = Layout.locateAll start (groups.map toNode) := by
  induction groups generalizing start with
  | nil => rfl
  | cons group groups ih =>
    rw [locateAll, List.map_cons, ih, List.map_cons, Layout.locateAll]
    simp [Group.toChild, locate, toNode, Layout.locate]

end TopGroup

/-- The content of a plugin file. -/
structure File where
  /-- The header record. -/
  header : RawRecord
  /-- The top-level groups. -/
  groups : List TopGroup

namespace File

/-- The bytes of the file. -/
def encode (file : File) : Bytes :=
  file.header.encode ++ encodeAll (file.groups.map TopGroup.toNode)

/-- Every group size of the file fits its field. -/
def Fits (file : File) : Prop := ∀ group ∈ file.groups, Layout.Fits group.toNode

/-- The parsed groups of the file. -/
def locateGroups (file : File) : List Group :=
  TopGroup.locateAll file.header.encode.length file.groups

end File

end Layout

end Bethkit
