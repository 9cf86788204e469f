import Bethkit.Verif.Parse
import Bethkit.Verif.ParseBlock

/-!
# The parse tiles the input

The source ranges that the parser records are laid end to end: the header record, the top-level
groups, and inside every group its header and its children. Every byte of an accepted input is
owned by exactly one header or record.
-/

namespace Bethkit

open Lib Layout

/-- The source range of a child of a group. -/
def childRange : GroupChild → Option Range
  | .leaf record => record.sourceRange
  | .node info _ => info.sourceRange

/-- The source range of a group has the size of its header, starts with the header, and its
children cover the rest. -/
def GroupTiled (source : Bytes) (group : GroupInfo × List GroupChild) : Prop :=
  ∃ (range : Range) (ranges : List Range), group.1.sourceRange = some range ∧
    24 ≤ group.1.header.groupSize.toNat ∧
    range.stop = range.start + group.1.header.groupSize.toNat ∧
    source.get range.start (range.start + 24) = some group.1.header.encode ∧
    group.2.map childRange = ranges.map some ∧ Tiles (range.start + 24) range.stop ranges

/-- The source range of a record has the size of its header and data, and starts with the
header. -/
def RecordTiled (source : Bytes) (record : Record) : Prop :=
  ∃ range : Range, record.sourceRange = some range ∧
    range.stop = range.start + (24 + record.header.dataSize.toNat) ∧
    source.get range.start (range.start + 24) = some record.header.encode

/-- The ranges that a child owns by itself: a record all of it, a group its header. -/
def ownedRanges : GroupChild → List Range :=
  RoseTree.fold (fun record => record.sourceRange.toList) fun info parts =>
    (info.sourceRange.map fun range => ⟨range.start, range.start + 24⟩).toList ++ parts.flatten

/-- The ranges owned by the header record, the group headers and the records. -/
def Plugin.ownedRanges (plugin : Plugin) : List Range :=
  plugin.headerRange :: (plugin.groups.map Group.toChild).flatMap Bethkit.ownedRanges

/-- Located siblings stand one after the other. -/
theorem tiles_locateAll (start : Nat) (nodes : List Node) :
    ∃ ranges, (locateAll start nodes).map childRange = ranges.map some ∧
      Tiles start (start + (encodeAll nodes).length) ranges := by
  induction nodes generalizing start with
  | nil => exact ⟨[], rfl, rfl⟩
  | cons node nodes ih =>
    obtain ⟨ranges, located, tiles⟩ := ih (start + (encode node).length)
    refine ⟨⟨start, start + (encode node).length⟩ :: ranges, ?_, rfl, Nat.le_add_right _ _, ?_⟩
    · rw [locateAll, List.map_cons, located, List.map_cons]
      cases node with
      | leaf raw => simp [locate, childRange, RawRecord.locate]
      | node head children => simp [locate, childRange]
    · simpa [Nat.add_assoc] using tiles

/-- The header of a located group or record stands at its start. -/
theorem get_append_left (before front back after : Bytes) (length : front.length = 24) :
    Bytes.get (before ++ ((front ++ back) ++ after)) before.length (before.length + 24) =
      some front := by
  rw [← length, List.append_assoc, Bytes.get_append]

/-- A child of a located group stands at its own offset. -/
theorem mem_children (head : GroupHead) (children : List Node) (before after : Bytes)
    {child : GroupChild} (among : child ∈ locateAll (before.length + 24) children) :
    ∃ node ∈ children, ∃ front back, before ++ (encode (.node head children) ++ after) =
      front ++ (encode node ++ back) ∧ child = locate front.length node := by
  have base : before.length + 24 =
      (before ++ head.encode (24 + (encodeAll children).length)).length := by
    rw [List.length_append, head.length_encode]
  rw [base] at among
  obtain ⟨node, inside, front, back, split, located⟩ := mem_locateAll after among
  refine ⟨node, inside, front, back, ?_, located⟩
  rw [← split, encode_node]
  simp

/-- Every group below a located node is tiled. -/
theorem groupTiled_locate (node : Node) (fit : Fits node) (before after : Bytes) :
    ∀ group ∈ (locate before.length node).nodes,
      GroupTiled (before ++ (encode node ++ after)) group := by
  induction node using RoseTree.ind generalizing before after with
  | leaf raw => simp [locate]
  | node head children ih =>
    obtain ⟨small, fits⟩ := (fits_node head children).mp fit
    have size : (UInt32.ofNat (24 + (encodeAll children).length)).toNat =
        24 + (encodeAll children).length := by
      rw [UInt32.toNat_ofNat', Nat.mod_eq_of_lt small]
    intro group found
    simp only [locate, RoseTree.nodes_node, List.mem_cons, List.mem_flatMap] at found
    rcases found with rfl | ⟨child, among, found⟩
    · obtain ⟨ranges, located, tiles⟩ := tiles_locateAll (before.length + 24) children
      refine ⟨_, ranges, rfl, ?_, ?_, ?_, located, ?_⟩
      · simp only [GroupHead.header, size]
        omega
      · simp only [GroupHead.header, size]
      · rw [encode_node, GroupHead.encode_header]
        exact get_append_left before _ _ after (head.length_encode _)
      · simpa [Nat.add_assoc] using tiles
    · obtain ⟨node, inside, front, back, split, rfl⟩ := mem_children head children _ after among
      rw [split]
      exact ih node inside (fits node inside) front back group found

/-- Every record below a located node is tiled. -/
theorem recordTiled_locate (node : Node) (before after : Bytes) :
    ∀ record ∈ (locate before.length node).leaves,
      RecordTiled (before ++ (encode node ++ after)) record := by
  induction node using RoseTree.ind generalizing before after with
  | leaf raw =>
    intro record found
    obtain rfl : record = raw.locate before.length := by simpa [locate] using found
    refine ⟨_, rfl, ?_, ?_⟩
    · simp [RawRecord.locate, RawRecord.toRecord, raw.toNat_dataSize]
    · rw [encode_leaf]
      exact get_append_left before _ _ after raw.header.length_encode
  | node head children ih =>
    intro record found
    simp only [locate, RoseTree.leaves_node, List.mem_flatMap] at found
    obtain ⟨child, among, found⟩ := found
    obtain ⟨node, inside, front, back, split, rfl⟩ := mem_children head children _ after among
    rw [split]
    exact ih node inside front back record found

/-- What located siblings own covers their bytes when this holds for each of them. -/
theorem tiles_ownedRangesAll (nodes : List Node) (start : Nat)
    (each : ∀ node ∈ nodes, ∀ start, Tiles start (start + (encode node).length)
      (ownedRanges (locate start node))) :
    Tiles start (start + (encodeAll nodes).length)
      ((locateAll start nodes).flatMap ownedRanges) := by
  induction nodes generalizing start with
  | nil => rfl
  | cons node nodes ih =>
    have head := each node List.mem_cons_self start
    have tail := ih (start + (encode node).length)
      fun other found => each other (List.mem_cons_of_mem _ found)
    rw [encodeAll_cons, List.length_append, ← Nat.add_assoc]
    exact head.append tail

/-- What a located node owns covers its bytes. -/
theorem tiles_ownedRanges (node : Node) (start : Nat) :
    Tiles start (start + (encode node).length) (ownedRanges (locate start node)) := by
  induction node using RoseTree.ind generalizing start with
  | leaf raw =>
    simp only [ownedRanges, locate, RoseTree.fold_leaf, RawRecord.locate, Option.toList_some,
      encode_leaf]
    exact ⟨rfl, Nat.le_add_right _ _, rfl⟩
  | node head children ih =>
    have below := tiles_ownedRangesAll children (start + 24) ih
    have unfolded : ownedRanges (locate start (.node head children)) =
        ⟨start, start + 24⟩ :: (locateAll (start + 24) children).flatMap ownedRanges := by
      simp [ownedRanges, locate, List.flatMap]
    rw [unfolded, encode_node, List.length_append, GroupHead.length_encode, ← Nat.add_assoc]
    exact ⟨rfl, Nat.le_add_right _ _, below⟩

/-- The parse tiles every accepted input: the header record, the top-level groups, and in every
group its header and its children follow one another without gap or overlap, each with the
extent that its header declares; so every byte belongs to exactly one header or record. -/
theorem fromBytes_tiles (inflate : Inflate) (data : Bytes) (ctx : GameContext) (plugin : Plugin)
    (accepted : Plugin.fromBytes inflate data ctx = .ok plugin) :
    plugin.headerRange.start = 0 ∧
      plugin.headerRange.stop = 24 + plugin.header.record.header.dataSize.toNat ∧
      (∃ ranges, plugin.groups.map (·.sourceRange) = ranges.map some ∧
        Tiles plugin.headerRange.stop data.length ranges) ∧
      (∀ group ∈ plugin.allGroups, GroupTiled data group) ∧
      (∀ record ∈ plugin.records, RecordTiled data record) ∧
      Tiles 0 data.length plugin.ownedRanges ∧
      ∀ offset < data.length, ∃! index : Fin plugin.ownedRanges.length,
        (plugin.ownedRanges.get index).Contains offset := by
  obtain ⟨file, header, fit, rfl, admitted, rfl⟩ :=
    (fromBytes_eq_ok inflate data ctx plugin).mp accepted
  obtain ⟨_, _, _, rfl⟩ := (PluginHeader.ofRecord_eq_ok inflate ctx _ _).mp admitted
  have trees := TopGroup.toChild_locateAll file.header.encode.length file.groups
  have total : file.encode.length =
      file.header.encode.length + (encodeAll (file.groups.map TopGroup.toNode)).length := by
    rw [File.encode, List.length_append]
  have fits : ∀ node ∈ file.groups.map TopGroup.toNode, Fits node := by
    simpa only [List.forall_mem_map] using! fit
  have below := tiles_ownedRangesAll (file.groups.map TopGroup.toNode) file.header.encode.length
    fun node _ => tiles_ownedRanges node
  rw [← trees, ← total] at below
  have first : Tiles 0 file.header.encode.length [⟨0, file.header.encode.length⟩] :=
    ⟨rfl, Nat.zero_le _, rfl⟩
  have owned := first.append below
  simp only [Plugin.allGroups_eq, Plugin.records_eq, File.locateGroups, trees]
  refine ⟨trivial, ?_, ?_, ?_, ?_, owned, fun offset inside =>
    owned.existsUnique (Nat.zero_le _) inside⟩
  · rw [RawRecord.length_encode, ← RawRecord.toNat_dataSize]
    rfl
  · obtain ⟨ranges, located, tiles⟩ := tiles_locateAll file.header.encode.length
      (file.groups.map TopGroup.toNode)
    rw [← trees, List.map_map] at located
    exact ⟨ranges, located, total ▸ tiles⟩
  · intro group found
    obtain ⟨child, among, found⟩ := List.mem_flatMap.mp found
    obtain ⟨node, inside, front, back, split, rfl⟩ := mem_locateAll [] among
    rw [List.append_nil] at split
    rw [File.encode, split]
    exact groupTiled_locate node (fits node inside) front back group found
  · intro record found
    obtain ⟨child, among, found⟩ := List.mem_flatMap.mp found
    obtain ⟨node, inside, front, back, split, rfl⟩ := mem_locateAll [] among
    rw [List.append_nil] at split
    rw [File.encode, split]
    exact recordTiled_locate node front back record found

/-- A header record that holds a HEDR with two records counted. -/
def sampleHeader : RawRecord where
  signature := .TES4
  flags := .empty
  formId := .NULL
  versionControl := 0
  formVersion := 44
  unknown := 0
  block := [0x48, 0x45, 0x44, 0x52, 12, 0, 0x9A, 0x99, 0xD9, 0x3F, 2, 0, 0, 0, 0, 8, 0, 0]
  notGroup := by decide
  sized := by decide
  compressed := by decide

/-- An empty record with a FormID. -/
def sampleRecord (id : UInt32) : RawRecord where
  signature := .EDID
  flags := .empty
  formId := ⟨id⟩
  versionControl := 0
  formVersion := 44
  unknown := 0
  block := []
  notGroup := by decide
  sized := by decide
  compressed := by decide

/-- A group head whose label starts with a byte. -/
def sampleHead (label : UInt8) (groupType : GroupType) : GroupHead :=
  ⟨⟨[label, 0, 0, 0], rfl⟩, groupType, 0, 0⟩

/-- A file with a record and a nested group inside one group. -/
def sampleFile : File where
  header := sampleHeader
  groups := [⟨sampleHead 0 .normal, [.leaf (sampleRecord 1),
    .node (sampleHead 1 .topicChildren) [.leaf (sampleRecord 2)]]⟩]

/-- The subrecords of the sample header. -/
theorem subrecords_sampleHeader (inflate : Inflate) :
    sampleHeader.toRecord.subrecords inflate =
      .ok [⟨.HEDR, .borrowed sampleHeader.block 6 18⟩] := rfl

/-- The sample file is a plugin. -/
theorem fromBytes_sampleFile (inflate : Inflate) :
    ∃ plugin, Plugin.fromBytes inflate sampleFile.encode .sse = .ok plugin := by
  refine ⟨_, (fromBytes_eq_ok _ _ _ _).mpr ⟨sampleFile, _, ?_, rfl,
    (PluginHeader.ofRecord_eq_ok _ _ _ _).mpr ⟨rfl, _, subrecords_sampleHeader inflate, rfl⟩,
    rfl⟩⟩
  simp [sampleFile, File.Fits, TopGroup.toNode, sampleRecord]

/-- The tiling of the sample file. -/
theorem fromBytes_tiles_sampleFile :
    ∃ plugin, Plugin.fromBytes refuseInflate sampleFile.encode .sse = .ok plugin ∧
      Tiles 0 sampleFile.encode.length plugin.ownedRanges := by
  obtain ⟨plugin, accepted⟩ := fromBytes_sampleFile refuseInflate
  exact ⟨plugin, accepted, (fromBytes_tiles _ _ _ _ accepted).2.2.2.2.2.1⟩

end Bethkit
