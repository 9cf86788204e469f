import Bethkit.Core.Writer
import Bethkit.Verif.HeaderFields

/-!
# What the writer writes is read back

The tree of a writer is turned into the layout that it serialises, level by level: a subrecord
into a frame, a record into a raw record, a group into a node. The parser reads exactly the laid
out files, so the file of the writer is accepted and gives the tree back.
-/

namespace Bethkit

open Lib Layout

/-- What can be compared between a record to write and a record read. -/
structure RecordView where
  /-- The record type. -/
  signature : Signature
  /-- Record-level flags. -/
  flags : RecordFlags
  /-- Raw FormID. -/
  formId : FormId
  /-- Form version. -/
  formVersion : UInt16
  /-- The subrecords, if they can be read. -/
  fields : Option (List (Signature × Bytes))

/-- A record or group as seen on both sides; a group shows its label bytes and raw type. -/
abbrev TreeView : Type := RoseTree (Bytes × Int32) RecordView

/-- The signature and payload of a subrecord to write. -/
def WritableSubRecord.value (subrecord : WritableSubRecord) : Signature × Bytes :=
  (subrecord.signature, subrecord.data)

/-- The view of a record to write. -/
def WritableRecord.view (record : WritableRecord) : RecordView where
  signature := record.signature
  flags := record.flags
  formId := record.formId
  formVersion := record.formVersion
  fields := some (record.subrecords.map WritableSubRecord.value)

/-- The view of a parsed record. -/
def Record.view (inflate : Inflate) (record : Record) : RecordView where
  signature := record.header.signature
  flags := record.header.flags
  formId := record.header.formId
  formVersion := record.header.formVersion
  fields := (record.subrecords inflate).toOption.map subrecordValues

/-- The view of a group to write. -/
def WritableGroupChild.view : WritableGroupChild → TreeView :=
  RoseTree.map (fun head => (head.label.val, head.groupType)) WritableRecord.view

/-- The view of a parsed group. -/
def GroupChild.view (inflate : Inflate) : GroupChild → TreeView :=
  RoseTree.map (fun info => (info.header.label.toBytes, info.header.groupType.toRaw))
    (Record.view inflate)

/-- The conditions under which a record can be read back: it is no group, not marked compressed,
no subrecord is an override, and the size fits its field. -/
structure WritableRecord.WellFormed (record : WritableRecord) : Prop where
  /-- The signature is not that of a group. -/
  notGroup : record.signature ≠ .GRUP
  /-- The data is stored as it is. -/
  plain : record.flags.contains .COMPRESSED = false
  /-- No subrecord is a size override. -/
  notOverride : ∀ subrecord ∈ record.subrecords, subrecord.signature ≠ .XXXX
  /-- The data size fits its field. -/
  sized : record.dataBuf.length < 2 ^ 32

/-- The conditions under which a tree can be read back. -/
structure WritableGroupChild.WellFormed (child : WritableGroupChild) : Prop where
  /-- Every record can be read back. -/
  records : ∀ record ∈ child.leaves, record.WellFormed
  /-- Every group type is one of the known ones. -/
  types : ∀ group ∈ child.nodes, 0 ≤ group.1.groupType.toInt ∧ group.1.groupType.toInt ≤ 10
  /-- Every group size fits its field. -/
  sizes : ∀ group ∈ child.nodes,
    24 + (group.2.flatMap WritableGroupChild.writeTo).length < 2 ^ 32

/-- The conditions under which a plugin can be read back. -/
structure PluginWriter.WellFormed (writer : PluginWriter) : Prop where
  /-- No master name contains NUL. -/
  masters : ∀ master ∈ writer.header.masters, 0 ∉ strAsBytes master
  /-- The data size of the header record fits its field. -/
  sized : (writer.tes4SubRecords.flatMap WritableSubRecord.writeTo).length < 2 ^ 32
  /-- Every group can be read back. -/
  groups : ∀ group ∈ writer.groups, WritableGroupChild.WellFormed group.toChild

/-- The frame that a subrecord is written as. -/
def WritableSubRecord.toFrame (subrecord : WritableSubRecord)
    (notOverride : subrecord.signature ≠ .XXXX) (small : subrecord.data.length < 2 ^ 32) : Frame where
  overrides := if 65535 < subrecord.data.length then [UInt32.ofNat subrecord.data.length] else []
  signature := subrecord.signature
  sizeField :=
    if 65535 < subrecord.data.length then 0 else UInt16.ofNat subrecord.data.length
  payload := subrecord.data
  notOverride := notOverride
  sized := by
    by_cases long : 65535 < subrecord.data.length
    · simp only [long, ↓reduceIte, List.getLast?_singleton, announcedSize, UInt32.toNat_ofNat']
      omega
    · simp only [long, ↓reduceIte, List.getLast?_nil, announcedSize, UInt16.toNat_ofNat']
      omega

/-- The frame has the bytes that are written. -/
theorem WritableSubRecord.encode_toFrame (subrecord : WritableSubRecord)
    (notOverride : subrecord.signature ≠ .XXXX) (small : subrecord.data.length < 2 ^ 32) :
    (subrecord.toFrame notOverride small).encode = subrecord.writeTo := by
  unfold toFrame writeTo Frame.encode Frame.lead
  by_cases long : 65535 < subrecord.data.length
  · simp [long, encodeOverrides, encodeOverride, encodeFieldHeader]
  · simp [long, encodeOverrides, encodeFieldHeader]

/-- Subrecords are written as the block of their frames. -/
theorem exists_block (subrecords : List WritableSubRecord)
    (notOverride : ∀ subrecord ∈ subrecords, subrecord.signature ≠ .XXXX)
    (sized : (subrecords.flatMap WritableSubRecord.writeTo).length < 2 ^ 32) :
    ∃ frames : List Frame, encodeFrames frames = subrecords.flatMap WritableSubRecord.writeTo ∧
      frames.map Frame.value = subrecords.map WritableSubRecord.value := by
  induction subrecords with
  | nil => exact ⟨[], rfl, rfl⟩
  | cons subrecord subrecords ih =>
    rw [List.flatMap_cons, List.length_append] at sized
    have payload : subrecord.data.length ≤ subrecord.writeTo.length := by
      simp [WritableSubRecord.writeTo]
    obtain ⟨frames, encoded, values⟩ := ih
      (fun other found => notOverride other (List.mem_cons_of_mem _ found)) (by omega)
    have head := notOverride subrecord List.mem_cons_self
    refine ⟨subrecord.toFrame head (by omega) :: frames, ?_, ?_⟩
    · rw [encodeFrames_cons, encoded, WritableSubRecord.encode_toFrame, List.flatMap_cons]
    · rw [List.map_cons, values, List.map_cons]
      rfl

/-- The raw record that a record is written as. -/
def WritableRecord.toRaw (record : WritableRecord) (wellFormed : record.WellFormed) : RawRecord where
  signature := record.signature
  flags := record.flags
  formId := record.formId
  versionControl := 0
  formVersion := record.formVersion
  unknown := 0
  block := record.dataBuf
  notGroup := wellFormed.notGroup
  sized := wellFormed.sized
  compressed := by simp [wellFormed.plain]

/-- The raw record has the bytes that are written. -/
theorem WritableRecord.encode_toRaw (record : WritableRecord) (wellFormed : record.WellFormed) :
    (record.toRaw wellFormed).encode = record.writeTo := by
  simp [toRaw, RawRecord.encode, RecordHeader.encode, RawRecord.header, writeTo]

/-- The raw record has the subrecords of the record. -/
theorem WritableRecord.subrecords_toRaw (record : WritableRecord)
    (wellFormed : record.WellFormed) (inflate : Inflate) :
    ∃ subrecords, (record.toRaw wellFormed).toRecord.subrecords inflate = .ok subrecords ∧
      subrecordValues subrecords = record.subrecords.map WritableSubRecord.value := by
  obtain ⟨frames, encoded, values⟩ :=
    exists_block record.subrecords wellFormed.notOverride wellFormed.sized
  have block : (Block.mk frames []).encode = record.dataBuf := by
    rw [Block.encode, encoded]
    exact List.append_nil _
  refine ⟨_, subrecords_toRecord inflate (record.toRaw wellFormed) wellFormed.plain
    ⟨frames, []⟩ block.symm, ?_⟩
  have seen := subrecordValues_locateFrames ⟨frames, []⟩
  rw [block] at seen
  exact seen.trans values

/-- The raw record looks like the record when it is parsed. -/
theorem WritableRecord.view_toRaw (record : WritableRecord) (wellFormed : record.WellFormed)
    (inflate : Inflate) (start : Nat) :
    ((record.toRaw wellFormed).locate start).view inflate = record.view := by
  obtain ⟨subrecords, read, values⟩ := record.subrecords_toRaw wellFormed inflate
  have fields : (((record.toRaw wellFormed).locate start).subrecords inflate).toOption.map
      subrecordValues = some (record.subrecords.map WritableSubRecord.value) := by
    change ((record.toRaw wellFormed).toRecord.subrecords inflate).toOption.map _ = _
    rw [read, Except.toOption, Option.map_some, values]
  simp only [Record.view, view, fields]
  rfl

/-- The children of a well-formed group are well formed. -/
theorem WritableGroupChild.WellFormed.child {head : WritableGroupHead}
    {children : List WritableGroupChild} (wellFormed : WellFormed (.node head children))
    {child : WritableGroupChild} (found : child ∈ children) : WellFormed child where
  records record inside := wellFormed.records record (by
    rw [RoseTree.leaves_node]
    exact List.mem_flatMap.mpr ⟨child, found, inside⟩)
  types group inside := wellFormed.types group (by
    rw [RoseTree.nodes_node]
    exact List.mem_cons_of_mem _ (List.mem_flatMap.mpr ⟨child, found, inside⟩))
  sizes group inside := wellFormed.sizes group (by
    rw [RoseTree.nodes_node]
    exact List.mem_cons_of_mem _ (List.mem_flatMap.mpr ⟨child, found, inside⟩))

/-- A node stands for a tree to write: it has its bytes and looks the same when parsed. -/
def StandsFor (node : Node) (child : WritableGroupChild) : Prop :=
  encode node = child.writeTo ∧ Fits node ∧
    ∀ inflate start, GroupChild.view inflate (locate start node) = child.view

/-- Related values are found list by list. -/
theorem exists_forall₂ {α β : Type} {related : α → β → Prop} (targets : List β)
    (each : ∀ target ∈ targets, ∃ source, related source target) :
    ∃ sources, List.Forall₂ related sources targets := by
  induction targets with
  | nil => exact ⟨[], .nil⟩
  | cons target targets ih =>
    obtain ⟨source, head⟩ := each target List.mem_cons_self
    obtain ⟨sources, tail⟩ := ih fun other found => each other (List.mem_cons_of_mem _ found)
    exact ⟨source :: sources, .cons head tail⟩

/-- Nodes that stand for trees one by one stand for the list. -/
theorem standsFor_all {nodes : List Node} {children : List WritableGroupChild}
    (all : List.Forall₂ StandsFor nodes children) :
    encodeAll nodes = children.flatMap WritableGroupChild.writeTo ∧
      (∀ node ∈ nodes, Fits node) ∧ ∀ inflate start,
        (locateAll start nodes).map (GroupChild.view inflate) =
          children.map WritableGroupChild.view := by
  induction all with
  | nil => exact ⟨rfl, by simp, fun _ _ => rfl⟩
  | cons head _ ih =>
    obtain ⟨encoded, fit, seen⟩ := head
    obtain ⟨encodedAll, fits, seenAll⟩ := ih
    refine ⟨?_, ?_, ?_⟩
    · rw [encodeAll_cons, encoded, encodedAll, List.flatMap_cons]
    · simpa using ⟨fit, fits⟩
    · intro inflate start
      rw [locateAll, List.map_cons, seen, seenAll, List.map_cons]

/-- A well-formed group is written as the bytes of a node that looks the same. -/
theorem exists_node (child : WritableGroupChild) (wellFormed : child.WellFormed) :
    ∃ node, StandsFor node child := by
  induction child using RoseTree.ind with
  | leaf record =>
    have ready := wellFormed.records record (by simp)
    refine ⟨.leaf (record.toRaw ready), by simp [record.encode_toRaw], by simp, ?_⟩
    intro inflate start
    simp [GroupChild.view, WritableGroupChild.view, locate, record.view_toRaw]
  | node head children ih =>
    obtain ⟨low, high⟩ := wellFormed.types (head, children) (by simp)
    have small := wellFormed.sizes (head, children) (by simp)
    obtain ⟨groupType, known⟩ := GroupType.fromRaw_of_range low high
    have raw := GroupType.toRaw_of_fromRaw known
    obtain ⟨nodes, all⟩ := exists_forall₂ children fun child found =>
      ih child found (wellFormed.child found)
    obtain ⟨encoded, fits, seen⟩ := standsFor_all all
    refine ⟨.node ⟨head.label, groupType, 0, 0⟩ nodes, ?_, ?_, ?_⟩
    · simp [GroupHead.encode, encoded, raw, UInt32.ofNat_add]
    · exact (fits_node _ _).mpr ⟨encoded ▸ small, fits⟩
    · intro inflate start
      have below := seen inflate (start + 24)
      simp only [GroupChild.view, WritableGroupChild.view] at below
      simp [GroupChild.view, WritableGroupChild.view, locate, GroupHead.header, raw, below]

/-- A well-formed top-level group is written as the bytes of a top-level group. -/
theorem exists_top (group : WritableGroup)
    (wellFormed : WritableGroupChild.WellFormed group.toChild) :
    ∃ top : TopGroup, StandsFor top.toNode group.toChild := by
  obtain ⟨node, stands⟩ := exists_node group.toChild wellFormed
  cases node with
  | leaf raw =>
    have seen := stands.2.2 (fun _ => .ok []) 0
    simp [GroupChild.view, WritableGroupChild.view, locate, WritableGroup.toChild] at seen
  | node head children => exact ⟨⟨head, children⟩, stands⟩

namespace PluginWriter

/-- The writer never marks the header record as compressed. -/
theorem tes4Flags_contains (writer : PluginWriter) :
    writer.tes4Flags.contains .COMPRESSED = false := by
  unfold tes4Flags GameContext.lightFlag
  cases writer.lightFlagSet <;> cases writer.localized <;> cases writer.ctx.game <;> rfl

/-- The header record of a well-formed writer is well formed. -/
theorem wellFormed_tes4Record (writer : PluginWriter)
    (sized : (writer.tes4SubRecords.flatMap WritableSubRecord.writeTo).length < 2 ^ 32) :
    writer.tes4Record.WellFormed where
  notGroup := writer.ctx.headerSignature_ne_GRUP
  plain := writer.tes4Flags_contains
  notOverride := by
    intro subrecord found
    simp only [tes4Record, tes4SubRecords, masterSubRecords, List.cons_append, List.mem_cons,
      List.mem_append, List.mem_flatMap, Option.mem_toList, Option.map_eq_some_iff,
      List.not_mem_nil, or_false] at found
    rcases found with rfl | ⟨_, _, rfl | rfl⟩ | ⟨_, _, rfl⟩
    all_goals
      dsimp only
      decide
  sized := sized

/-- The values of the subrecords of a master. -/
theorem mastersOf_masterSubRecords (masters : List String)
    (clean : ∀ master ∈ masters, 0 ∉ strAsBytes master) :
    mastersOf ((masters.flatMap masterSubRecords).map WritableSubRecord.value) = masters := by
  induction masters with
  | nil => rfl
  | cons master masters ih =>
    have head : zstringOf (strAsBytes master ++ [0]) = some master :=
      zstringOf_terminated master fun last =>
        clean master List.mem_cons_self (List.mem_of_getLast? last)
    have tail := ih fun other found => clean other (List.mem_cons_of_mem _ found)
    have other : Signature.DATA ≠ .MAST := by decide
    simp only [mastersOf] at tail
    simp [mastersOf, masterSubRecords, WritableSubRecord.value, head, tail, other]

/-- No subrecord of a master is a description. -/
theorem find_masterSubRecords (masters : List String) :
    ((masters.flatMap masterSubRecords).map WritableSubRecord.value).find? (·.1 = .SNAM) =
      none := by
  simp only [List.find?_eq_none, List.mem_map, List.mem_flatMap, masterSubRecords, List.mem_cons,
    List.not_mem_nil, or_false, decide_eq_true_eq]
  rintro _ ⟨_, ⟨_, _, rfl | rfl⟩, rfl⟩
  all_goals
    dsimp only [WritableSubRecord.value]
    decide

/-- The values of the header record of a writer. -/
theorem map_value_tes4SubRecords (writer : PluginWriter) :
    writer.tes4SubRecords.map WritableSubRecord.value = (.HEDR, writer.hedrData) ::
      (writer.header.masters.flatMap masterSubRecords).map WritableSubRecord.value ++
        (writer.header.description.map fun desc => (.SNAM, strAsBytes desc ++ [0])).toList := by
  rw [tes4SubRecords]
  cases writer.header.description <;> simp [WritableSubRecord.value]

/-- The masters of the header record are those of the writer. -/
theorem mastersOf_tes4 (writer : PluginWriter)
    (clean : ∀ master ∈ writer.header.masters, 0 ∉ strAsBytes master) :
    mastersOf (writer.tes4SubRecords.map WritableSubRecord.value) = writer.header.masters := by
  have inner := mastersOf_masterSubRecords writer.header.masters clean
  have first : Signature.HEDR ≠ .MAST := by decide
  have last : Signature.SNAM ≠ .MAST := by decide
  simp only [mastersOf] at inner
  rw [map_value_tes4SubRecords]
  cases writer.header.description <;> simp [mastersOf, first, last, inner]

/-- The description of the header record is that of the writer, as a NUL-terminated string. -/
theorem snamOf_tes4 (writer : PluginWriter) :
    snamOf (writer.tes4SubRecords.map WritableSubRecord.value) =
      (writer.header.description.bind fun desc => zstringOf (strAsBytes desc ++ [0])).filter
        (· ≠ "") := by
  have first : Signature.HEDR ≠ .SNAM := by decide
  rw [snamOf, map_value_tes4SubRecords, List.cons_append, List.find?_cons_of_neg (by simp [first]),
    List.find?_append, find_masterSubRecords, Option.none_or]
  cases writer.header.description <;> simp

/-- The first HEDR of the header record holds the counters of the writer. -/
theorem hedrOf_tes4 (writer : PluginWriter) :
    hedrOf (writer.tes4SubRecords.map WritableSubRecord.value) = some writer.hedrData := by
  simp [hedrOf, map_value_tes4SubRecords]

/-- What a reader finds in the file of a writer: the tree of groups, the masters, and whatever
the NUL-terminated description reads as. -/
theorem fromBytes_of_wellFormed (inflate : Inflate) (writer : PluginWriter)
    (wellFormed : writer.WellFormed) :
    ∃ (file : File) (subrecords : List SubRecord), file.Fits ∧
      writer.writeToVec = .ok file.encode ∧
      file.header.toRecord.subrecords inflate = .ok subrecords ∧
      subrecordValues subrecords = writer.tes4SubRecords.map WritableSubRecord.value ∧
      file.header.header.signature = writer.ctx.headerSignature ∧
      file.header.flags = writer.tes4Flags ∧
      List.Forall₂ StandsFor (file.groups.map TopGroup.toNode)
        (writer.groups.map WritableGroup.toChild) := by
  have ready := writer.wellFormed_tes4Record wellFormed.sized
  obtain ⟨subrecords, read, values⟩ := writer.tes4Record.subrecords_toRaw ready inflate
  obtain ⟨tops, all⟩ := exists_forall₂ writer.groups fun group found =>
    exists_top group (wellFormed.groups group found)
  have stands : List.Forall₂ StandsFor (tops.map TopGroup.toNode)
      (writer.groups.map WritableGroup.toChild) := by
    rw [List.forall₂_map_left_iff, List.forall₂_map_right_iff]
    exact all
  obtain ⟨encoded, fits, _⟩ := standsFor_all stands
  refine ⟨⟨writer.tes4Record.toRaw ready, tops⟩, subrecords, ?_, ?_, read, values, rfl, rfl,
    stands⟩
  · intro top found
    exact fits _ (List.mem_map_of_mem found)
  · rw [writeToVec, writeTes4_eq, File.encode, WritableRecord.encode_toRaw, encoded,
      List.flatMap_map]
    rfl

/-- The counters that a reader finds in a HEDR of the writer. -/
theorem slices_hedrData (writer : PluginWriter) :
    writer.hedrData.length = 12 ∧
      writer.hedrData.slice 4 8 = u32ToLeBytes (UInt32.ofNat (countAllRecords writer.groups)) ∧
      writer.hedrData.slice 8 12 =
        u32ToLeBytes (nextObjectId writer.groups writer.masterCount) := by
  have version := length_u32ToLeBytes writer.header.version
  have count := length_u32ToLeBytes (UInt32.ofNat (countAllRecords writer.groups))
  have next := length_u32ToLeBytes (nextObjectId writer.groups writer.masterCount)
  refine ⟨by simp [hedrData], ?_, ?_⟩
  · have middle := Bytes.slice_append (u32ToLeBytes writer.header.version)
      (u32ToLeBytes (UInt32.ofNat (countAllRecords writer.groups)))
      (u32ToLeBytes (nextObjectId writer.groups writer.masterCount))
    rwa [version, count, ← List.append_assoc] at middle
  · have last := Bytes.slice_append (u32ToLeBytes writer.header.version ++
      u32ToLeBytes (UInt32.ofNat (countAllRecords writer.groups)))
      (u32ToLeBytes (nextObjectId writer.groups writer.masterCount)) []
    rwa [List.length_append, version, count, next, List.append_nil] at last

/-- The plugin that a reader finds in the file of a well-formed writer. -/
theorem exists_plugin (inflate : Inflate) (writer : PluginWriter)
    (wellFormed : writer.WellFormed) :
    ∃ bytes plugin, writer.writeToVec = .ok bytes ∧
      Plugin.fromBytes inflate bytes writer.ctx = .ok plugin ∧
      plugin.groups.map (fun group => GroupChild.view inflate group.toChild) =
        writer.groups.map (fun group => WritableGroupChild.view group.toChild) ∧
      plugin.masters = writer.header.masters ∧
      plugin.header.description = (writer.header.description.bind fun desc =>
        zstringOf (strAsBytes desc ++ [0])).filter (· ≠ "") ∧
      plugin.header.recordCount = UInt32.ofNat (countAllRecords writer.groups) ∧
      plugin.header.nextObjectId = ⟨nextObjectId writer.groups writer.masterCount⟩ ∧
      plugin.header.record.header.flags = writer.tes4Flags := by
  obtain ⟨file, subrecords, fits, written, read, values, signed, flags, stands⟩ :=
    writer.fromBytes_of_wellFormed inflate wellFormed
  obtain ⟨_, _, seen⟩ := standsFor_all stands
  obtain ⟨length, count, next⟩ := writer.slices_hedrData
  have hedr := hedrFields_find writer.ctx subrecords
  rw [values, hedrOf_tes4] at hedr
  simp only [length, Nat.le_refl, ↓reduceIte, count, next, u32FromLeBytes_toLeBytes] at hedr
  refine ⟨file.encode, _, written, (fromBytes_eq_ok inflate _ _ _).mpr ⟨file, _, fits, rfl,
    (PluginHeader.ofRecord_eq_ok inflate _ _ _).mpr ⟨signed, subrecords, read, rfl⟩, rfl⟩, ?_,
    (masterNames_filter subrecords).trans (values ▸ writer.mastersOf_tes4 wellFormed.masters),
    (descriptionOf_find subrecords).trans (values ▸ writer.snamOf_tes4), ?_, ?_, flags⟩
  · have located := seen inflate file.header.encode.length
    rw [← TopGroup.toChild_locateAll, List.map_map, List.map_map] at located
    exact located
  · simp only [PluginHeader.ofSubrecords, hedr]
  · simp only [PluginHeader.ofSubrecords, hedr]

/-- The records of trees that look the same look the same. -/
theorem records_view {inflate : Inflate} {writer : PluginWriter} {plugin : Plugin}
    (tree : plugin.groups.map (fun group => GroupChild.view inflate group.toChild) =
      writer.groups.map (fun group => WritableGroupChild.view group.toChild)) :
    plugin.records.map (Record.view inflate) =
      (writer.groups.flatMap iterWritableRecords).map WritableRecord.view := by
  have views := congrArg (fun trees : List TreeView => trees.flatMap RoseTree.leaves) tree
  simp only [List.flatMap_map, GroupChild.view, WritableGroupChild.view, RoseTree.leaves_map] at views
  rw [Plugin.records_eq, List.map_flatMap, List.map_flatMap, List.flatMap_map]
  refine Eq.trans views (List.flatMap_congr fun group _ => ?_)
  rw [iterWritableRecords, RoseTree.drain_start, WritableGroup.toChild, RoseTree.leaves_node]

end PluginWriter

/-- What the writer writes is accepted and read back: the same groups in the same order, with
the same labels, types, records and subrecords, and the same masters; the description is read
back when it is not empty and does not end in NUL. -/
theorem fromBytes_writeToVec (inflate : Inflate) (writer : PluginWriter)
    (wellFormed : writer.WellFormed) :
    ∃ bytes plugin, writer.writeToVec = .ok bytes ∧
      Plugin.fromBytes inflate bytes writer.ctx = .ok plugin ∧
      plugin.groups.map (fun group => GroupChild.view inflate group.toChild) =
        writer.groups.map (fun group => WritableGroupChild.view group.toChild) ∧
      plugin.masters = writer.header.masters ∧
      ∀ desc, writer.header.description = some desc → desc ≠ "" →
        (strAsBytes desc).getLast? ≠ some 0 → plugin.header.description = some desc := by
  obtain ⟨bytes, plugin, written, accepted, tree, masters, described, _⟩ :=
    writer.exists_plugin inflate wellFormed
  refine ⟨bytes, plugin, written, accepted, tree, masters, ?_⟩
  intro desc given visible unpadded
  rw [described, given, Option.bind_some, zstringOf_terminated desc unpadded]
  simp [visible]

/-- A writer with one master, one record and a given description. -/
def sampleWriter (desc : String) : PluginWriter where
  ctx := .sse
  header := { masters := ["M"], description := some desc, version := 0x3FD9999A }
  groups := [⟨⟨⟨[0x4E, 0x50, 0x43, 0x5F], rfl⟩, 0⟩,
    [.leaf ⟨.EDID, .empty, ⟨0x01000900⟩, 44, [⟨.SNAM, [1, 2, 3]⟩]⟩]⟩]
  lightFlagSet := false
  localized := false

/-- The sample writers can be read back. -/
theorem wellFormed_sampleWriter (desc : String) (short : (strAsBytes desc).length < 100) :
    (sampleWriter desc).WellFormed where
  masters := by
    change ∀ master ∈ ["M"], 0 ∉ strAsBytes master
    decide
  sized := by
    have name : (strAsBytes "M").length = 1 := by decide
    have small : ¬65535 < (strAsBytes desc).length + 1 := by omega
    simp [sampleWriter, PluginWriter.tes4SubRecords, PluginWriter.masterSubRecords,
      WritableSubRecord.writeTo, PluginWriter.hedrData, name, small, Signature.HEDR, Signature.MAST,
      Signature.DATA, Signature.SNAM]
    omega
  groups := by
    intro group found
    obtain rfl : group = _ := List.mem_singleton.mp found
    refine ⟨?_, ?_, ?_⟩
    · intro record inside
      obtain rfl : record = _ := by simpa [WritableGroup.toChild] using inside
      exact ⟨by decide, by decide, by decide, by decide⟩
    · simp [WritableGroup.toChild]
    · intro group inside
      obtain rfl : group = _ := by simpa [WritableGroup.toChild] using inside
      decide

/-- A sample file with a plain description. -/
theorem fromBytes_writeToVec_sampleWriter :
    ∃ bytes plugin, (sampleWriter "a").writeToVec = .ok bytes ∧
      Plugin.fromBytes refuseInflate bytes .sse = .ok plugin ∧ plugin.masters = ["M"] ∧
      plugin.header.description = some "a" := by
  obtain ⟨bytes, plugin, written, accepted, _, masters, described⟩ :=
    fromBytes_writeToVec refuseInflate (sampleWriter "a") (wellFormed_sampleWriter "a" (by decide))
  exact ⟨bytes, plugin, written, accepted, masters, described "a" rfl (by decide) (by decide)⟩

/-- A description that ends in NUL is not read back: the terminator and the NUL before it are
stripped together. -/
theorem description_sampleWriter_nul :
    (sampleWriter "a\x00").WellFormed ∧
      ∃ bytes plugin, (sampleWriter "a\x00").writeToVec = .ok bytes ∧
        Plugin.fromBytes refuseInflate bytes .sse = .ok plugin ∧
        (sampleWriter "a\x00").header.description = some "a\x00" ∧
        plugin.header.description = some "a" := by
  have wellFormed := wellFormed_sampleWriter "a\x00" (by decide)
  obtain ⟨bytes, plugin, written, accepted, _, _, described, _⟩ :=
    PluginWriter.exists_plugin refuseInflate _ wellFormed
  exact ⟨wellFormed, bytes, plugin, written, accepted, rfl, described.trans (by decide)⟩

end Bethkit
