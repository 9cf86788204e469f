import Bethkit.Verif.Counters

/-!
# Records replaced by themselves

The writer counts records, the patcher counts records and groups. A plugin keeps its counters when
one of its records is replaced by its own bytes exactly when they already are those of the
patcher, so no file of the writer that has a record keeps them.
-/

namespace Bethkit

open Lib Layout

/-- Replacing a record by its own bytes succeeds and leaves the counters of the header. -/
def KeepsCounters (inflate : Inflate) (plugin : Plugin) (record : Record) : Prop :=
  ∃ (patch : RecordPatch) (out : Bytes) (header : PluginHeader) (stop : Cursor),
    RecordPatch.fromRecordVerbatim record plugin.source = some patch ∧
    ((PluginPatcher.new plugin).replaceRecord record.header.formId patch).writeTo inflate = .ok out ∧
    PluginHeader.parse inflate plugin.ctx ⟨out, 0⟩ = .ok (header, stop) ∧
    header.recordCount = plugin.header.recordCount ∧
    header.nextObjectId = plugin.header.nextObjectId

/-- The counters of a header are those that the patcher computes. -/
structure CountersStand (plugin : Plugin) : Prop where
  /-- The record count is the number of groups and main records at all depths. -/
  count : plugin.header.recordCount.toNat = plugin.treeSize
  /-- The next object ID is not below the first one for new records. -/
  floor : 0x801 ≤ plugin.header.nextObjectId.val
  /-- It is above the object ID of every record of the plugin itself. -/
  above : ∀ record ∈ plugin.records,
    record.header.formId.fileIndex.toNat = plugin.masters.length →
      record.header.formId.objectId < plugin.header.nextObjectId.val

/-- The computed counters are those of the header exactly when these stand. -/
theorem headerCounters_eq_iff (plugin : Plugin) : headerCounters plugin none =
    .ok ⟨plugin.header.recordCount, plugin.header.nextObjectId.val⟩ ↔ CountersStand plugin := by
  constructor
  · intro counted
    obtain ⟨count, _, floor, above⟩ := headerCounters_spec counted
    exact ⟨count, floor, fun record among owned => above _ (List.mem_map_of_mem among) owned⟩
  · rintro ⟨count, floor, above⟩
    have small := plugin.header.recordCount.toNat_lt
    have top : ownedTop (ownIndex plugin none) (plugin.records.map (·.header.formId)) ≤
        plugin.header.nextObjectId.val.toNat := by
      refine (ownedTop_le_iff _ _ _).mpr fun id among owned => ?_
      obtain ⟨record, found, rfl⟩ := List.mem_map.mp among
      exact UInt32.lt_iff_toNat_lt.mp (above record found owned)
    have start : (max plugin.header.nextObjectId.val 0x801).toNat =
        plugin.header.nextObjectId.val.toNat := by
      rw [toNat_max, Nat.max_eq_left (UInt32.le_iff_toNat_le.mp floor)]
    have zero : (0 : UInt32).toNat + plugin.treeSize = plugin.header.recordCount.toNat := by
      rw [count]
      exact Nat.zero_add _
    rw [headerCounters_eq, HedrCounters.tally]
    simp only [zero, start, small, if_true, Nat.max_eq_left top, UInt32.ofNat_toNat]

/-- A header with a record count has a HEDR with room for the counters. -/
theorem hedrReady_of_count {ctx : GameContext} {record : Record} {block : Block}
    (counted : (PluginHeader.ofSubrecords ctx record
      (locateFrames block.encode 0 block.frames)).recordCount ≠ 0) :
    ∃ frame, block.frames.find? (·.signature = .HEDR) = some frame ∧ 12 ≤ frame.payload.length ∧
      frame.payload.slice 4 8 = u32ToLeBytes (PluginHeader.ofSubrecords ctx record
        (locateFrames block.encode 0 block.frames)).recordCount ∧
      frame.payload.slice 8 12 = u32ToLeBytes (PluginHeader.ofSubrecords ctx record
        (locateFrames block.encode 0 block.frames)).nextObjectId.val := by
  have fields := hedrFields_find ctx (locateFrames block.encode 0 block.frames)
  have first : hedrOf block.values =
      (block.frames.find? (·.signature = .HEDR)).map Frame.payload := by
    rw [hedrOf, Block.values, List.find?_map, Option.map_map]
    rfl
  rw [subrecordValues_locateFrames, first] at fields
  cases found : block.frames.find? (·.signature = .HEDR) with
  | none =>
    rw [found] at fields
    simp only [PluginHeader.ofSubrecords, fields] at counted
    exact absurd rfl counted
  | some frame =>
    rw [found] at fields
    by_cases long : 12 ≤ frame.payload.length
    · simp only [Option.map_some, long, if_true] at fields
      refine ⟨frame, rfl, long, ?_, ?_⟩
      · simp only [PluginHeader.ofSubrecords, fields]
        exact (u32ToLeBytes_fromLeBytes _ (by simp [Bytes.slice]; omega)).symm
      · simp only [PluginHeader.ofSubrecords, fields]
        exact (u32ToLeBytes_fromLeBytes _ (by simp [Bytes.slice]; omega)).symm
    · simp only [Option.map_some, long, if_false] at fields
      simp only [PluginHeader.ofSubrecords, fields] at counted
      exact absurd rfl counted

/-- The counters that a payload already holds change nothing. -/
theorem withCounters_self {counters : HedrCounters} {frame : Frame}
    (long : 12 ≤ frame.payload.length)
    (count : frame.payload.slice 4 8 = u32ToLeBytes counters.recordCount)
    (next : frame.payload.slice 8 12 = u32ToLeBytes counters.nextId) :
    frame.withCounters counters = frame := by
  have payload : frame.payload.take 4 ++ u32ToLeBytes counters.recordCount ++
      u32ToLeBytes counters.nextId ++ frame.payload.drop 12 = frame.payload := by
    have second : frame.payload.drop 8 = frame.payload.slice 8 12 ++ frame.payload.drop 12 := by
      rw [Bytes.slice, ← List.drop_drop (i := 4) (j := 8), List.take_append_drop]
    have first : frame.payload.drop 4 = frame.payload.slice 4 8 ++ frame.payload.drop 8 := by
      rw [Bytes.slice, ← List.drop_drop (i := 4) (j := 4), List.take_append_drop]
    rw [← count, ← next, List.append_assoc, List.append_assoc, ← second, ← first,
      List.take_append_drop]
  rw [Frame.withCounters, dif_pos long]
  obtain ⟨overrides, signature, sizeField, bytes, notOverride, sized⟩ := frame
  simp only at payload
  simp only [payload]

/-- Changing the first part with a signature to itself changes nothing. -/
theorem changeFirst_self {signature : Signature} {change : Part → Part} {parts : List Part}
    (same : ∀ part, parts.find? (·.signature = signature) = some part → change part = part) :
    changeFirst signature change parts = parts := by
  induction parts with
  | nil => rfl
  | cons part parts ih =>
    rw [changeFirst]
    by_cases typed : part.signature = signature
    · rw [if_pos typed, same part (by simp [typed])]
    · rw [if_neg typed, ih fun other found => same other (by simpa [typed] using found)]

/-- A header update with the counters that the header has is written. -/
theorem exists_update_of_stand {inflate : Inflate} {data : Bytes} {ctx : GameContext}
    {plugin : Plugin} (accepted : Plugin.fromBytes inflate data ctx = .ok plugin)
    (stand : CountersStand plugin) (counted : plugin.header.recordCount ≠ 0) :
    ∃ out, writeUpdated inflate plugin none = .ok out := by
  obtain ⟨file, block, _, rfl, _, source, parsed⟩ := exists_headerBlock accepted
  have counters := (headerCounters_eq_iff plugin).mpr stand
  have header : plugin.header = PluginHeader.ofSubrecords ctx file.header.toRecord
      (locateFrames block.encode 0 block.frames) := by rw [parsed]
  rw [header] at counted
  obtain ⟨frame, first, long, count, next⟩ := hedrReady_of_count counted
  rw [← header] at count next
  let edit := patchEdit ⟨plugin.header.recordCount, plugin.header.nextObjectId.val⟩ none
  have unchanged : editedPayload edit block = block.encode := by
    have parts : editParts edit (block.frames.map .kept) = block.frames.map .kept := by
      refine changeFirst_self fun part found => ?_
      rw [List.find?_map] at found
      obtain ⟨_, among, rfl⟩ := Option.map_eq_some_iff.mp found
      obtain rfl := Option.some.inj (first.symm.trans among)
      rw [Part.withCounters, withCounters_self long count next]
    rw [editedPayload, parts, Block.encode, encodeParts, encodeFrames, List.flatMap_map]
    rfl
  have sized : (updatedBlock edit none file.header block).length < 2 ^ 32 := by
    unfold updatedBlock
    split
    · exact file.header.sized
    · rename_i keeps
      have plain : file.header.flags.contains .COMPRESSED = false := by
        by_contra flagged
        rw [Bool.not_eq_false] at flagged
        refine keeps (decide_eq_true ⟨?_, flagged, unchanged⟩)
        simp only [RecordFlags.contains, beq_iff_eq] at flagged
        rw [patchedFlags, flagged]
        decide
      have whole : file.header.block = block.encode := by
        simpa [Record.rawData, RawRecord.toRecord, RawRecord.data, plain] using source
      rw [unchanged, ← whole]
      exact file.header.sized
  exact ⟨_, (writeUpdated_eq_ok file block source none plugin parsed _).mpr
    ⟨_, counters, ⟨frame, first, long⟩, sized, rfl⟩⟩

/-- The header that stands before other bytes is the one that is parsed. -/
theorem parse_header {inflate : Inflate} {ctx : GameContext} {raw : RawRecord}
    {header : PluginHeader} (admitted : PluginHeader.ofRecord inflate ctx raw.toRecord = .ok header)
    (rest : Bytes) : PluginHeader.parse inflate ctx ⟨raw.encode ++ rest, 0⟩ =
      .ok (header, ⟨raw.encode ++ rest, raw.encode.length⟩) := by
  have parsed := (exact_pluginHeader inflate ctx).complete [] _ rest _ ⟨raw, rfl, admitted⟩
  simpa using parsed

/-- A record keeps the counters when it is replaced by itself exactly when the counters are those
of the patcher. -/
theorem keepsCounters_iff {inflate : Inflate} {data : Bytes} {ctx : GameContext} {plugin : Plugin}
    (accepted : Plugin.fromBytes inflate data ctx = .ok plugin) {record : Record}
    (among : record ∈ plugin.records) :
    KeepsCounters inflate plugin record ↔ CountersStand plugin := by
  obtain ⟨source, _, nodes, _, _, _, stands, _⟩ := exists_standing accepted
  have context : plugin.ctx = ctx := by
    obtain ⟨_, _, _, _, _, parsed⟩ := (fromBytes_eq_ok inflate data ctx plugin).mp accepted
    rw [parsed]
  rw [Plugin.records_eq] at among
  obtain ⟨tree, inside, below⟩ := List.mem_flatMap.mp among
  obtain ⟨node, _, standing⟩ := exists_of_mem_right stands inside
  obtain ⟨raw, header, found⟩ := stored_of_standsAt node standing record below
  rw [← source] at found
  have patch : RecordPatch.fromRecordVerbatim record plugin.source = some (.rawBytes raw.encode) := by
    rw [RecordPatch.fromRecordVerbatim, found, Option.map_some]
  have formId : record.header.formId = raw.formId := by rw [header]; rfl
  let patcher := (PluginPatcher.new plugin).replaceRecord record.header.formId
    (.rawBytes raw.encode)
  have run : PatcherRun plugin patcher := by
    have replaced := PatcherRun.replace (.new : PatcherRun plugin _) raw
    rwa [← formId] at replaced
  have rewrites : RewritesHeader patcher := by
    obtain ⟨group, top, rfl⟩ := List.mem_map.mp inside
    refine .inr ⟨group, top, .inl ⟨record, below, ?_⟩⟩
    simp only [patcher, PluginPatcher.replaceRecord, AList.lookup_insert, Option.isSome_some]
  obtain ⟨written, _, _, whole⟩ := run.exists_written accepted
  rw [writeHeader_eq accepted rfl rewrites] at whole
  have strings : StringsFit patcher.headerPatch := show StringsFit none by decide
  constructor
  · rintro ⟨_, out, parsed, stop, given, wrote, read, count, next⟩
    obtain rfl := Option.some.inj (given.symm.trans patch)
    cases updated : writeUpdated inflate plugin patcher.headerPatch with
    | error reason =>
      rw [updated] at whole
      exact absurd (whole.symm.trans wrote) (by simp [bind, Except.bind])
    | ok bytes =>
      obtain ⟨counters, raw', parsed', counted, rfl, admitted, count', next', _⟩ :=
        exists_writtenHeader accepted strings updated
      rw [updated] at whole
      obtain rfl := Except.ok.inj (whole.symm.trans wrote)
      rw [context, parse_header admitted] at read
      obtain ⟨rfl, _⟩ := Prod.mk.inj (Except.ok.inj read)
      rw [← headerCounters_eq_iff, ← count, ← next, count', next']
      exact counted
  · intro stand
    have some : plugin.header.recordCount ≠ 0 := by
      intro zero
      have count := stand.count
      have more : 0 < plugin.records.length := List.length_pos_of_mem (by
        rw [Plugin.records_eq]
        exact among)
      rw [zero, Plugin.treeSize] at count
      change 0 = _ at count
      omega
    obtain ⟨bytes, updated⟩ := exists_update_of_stand accepted stand some
    obtain ⟨counters, raw', parsed', counted, rfl, admitted, count', next', _⟩ :=
      exists_writtenHeader accepted (show StringsFit none by decide) updated
    have same := Except.ok.inj (counted.symm.trans ((headerCounters_eq_iff plugin).mpr stand))
    rw [show patcher.headerPatch = none from rfl, updated] at whole
    refine ⟨_, _, parsed', _, patch, whole, context ▸ parse_header admitted _, ?_, ?_⟩
    · rw [count', same]
    · rw [next', same]

/-- The record count of a file of the writer is the number of its records. -/
theorem PluginWriter.count_records {inflate : Inflate} {writer : PluginWriter}
    (wellFormed : writer.WellFormed) {bytes : Bytes} {plugin : Plugin}
    (written : writer.writeToVec = .ok bytes)
    (accepted : Plugin.fromBytes inflate bytes writer.ctx = .ok plugin) :
    plugin.records.length = countAllRecords writer.groups ∧
      plugin.header.recordCount = UInt32.ofNat (countAllRecords writer.groups) ∧
      plugin.header.nextObjectId = ⟨nextObjectId writer.groups writer.masterCount⟩ := by
  obtain ⟨bytes', plugin', written', accepted', tree, _, _, count, next, _⟩ :=
    writer.exists_plugin inflate wellFormed
  obtain rfl := Except.ok.inj (written.symm.trans written')
  obtain rfl := Except.ok.inj (accepted.symm.trans accepted')
  refine ⟨?_, count, next⟩
  have lengths := congrArg List.length (PluginWriter.records_view tree)
  rwa [List.length_map, List.length_map] at lengths

/-- The counters of the writer are never those of the patcher when there is a record. -/
theorem PluginWriter.not_countersStand {inflate : Inflate} {writer : PluginWriter}
    (wellFormed : writer.WellFormed) {bytes : Bytes} {plugin : Plugin}
    (written : writer.writeToVec = .ok bytes)
    (accepted : Plugin.fromBytes inflate bytes writer.ctx = .ok plugin)
    (some : 0 < countAllRecords writer.groups) : ¬CountersStand plugin := by
  obtain ⟨records, count, _⟩ := writer.count_records wellFormed written accepted
  intro stand
  have whole := stand.count
  rw [count, Plugin.treeSize, UInt32.toNat_ofNat'] at whole
  have groups : 0 < plugin.allGroups.length := by
    rw [← records, Plugin.records_eq] at some
    obtain ⟨record, among⟩ := List.exists_mem_of_length_pos some
    obtain ⟨tree, inside, _⟩ := List.mem_flatMap.mp among
    obtain ⟨group, _, rfl⟩ := List.mem_map.mp inside
    refine List.length_pos_of_mem (show (group.toGroupInfo, group.children) ∈ _ from ?_)
    rw [Plugin.allGroups_eq]
    exact List.mem_flatMap.mpr ⟨_, inside, by simp [Group.toChild]⟩
  have := Nat.mod_le (countAllRecords writer.groups) (2 ^ 32)
  omega

/-- Replacing any record of a written and parsed file by itself keeps the counters exactly when
there is no record or the header already has the counters of the patcher; for a file that can be
read back this means that there is no record. -/
theorem writeToVec_keepsCounters (inflate : Inflate) (writer : PluginWriter) (bytes : Bytes)
    (plugin : Plugin) (written : writer.writeToVec = .ok bytes)
    (accepted : Plugin.fromBytes inflate bytes writer.ctx = .ok plugin) :
    ((∀ record ∈ plugin.records, KeepsCounters inflate plugin record) ↔
        plugin.records = [] ∨ CountersStand plugin) ∧
      (writer.WellFormed → ((∀ record ∈ plugin.records, KeepsCounters inflate plugin record) ↔
        countAllRecords writer.groups = 0)) := by
  have exact : (∀ record ∈ plugin.records, KeepsCounters inflate plugin record) ↔
      plugin.records = [] ∨ CountersStand plugin := by
    constructor
    · intro all
      cases listed : plugin.records with
      | nil => exact .inl rfl
      | cons record records =>
        have among : record ∈ plugin.records := listed ▸ List.mem_cons_self
        exact .inr ((keepsCounters_iff accepted among).mp (all record among))
    · rintro (none | stand) record among
      · exact absurd (none ▸ among) List.not_mem_nil
      · exact (keepsCounters_iff accepted among).mpr stand
  refine ⟨exact, fun wellFormed => exact.trans ⟨?_, ?_⟩⟩
  · intro either
    by_contra some
    rcases either with none | stand
    · have records := (writer.count_records wellFormed written accepted).1
      rw [none] at records
      exact some records.symm
    · exact writer.not_countersStand wellFormed written accepted (Nat.pos_of_ne_zero some) stand
  · intro none
    have records := (writer.count_records wellFormed written accepted).1
    exact .inl (List.length_eq_zero_iff.mp (records.trans none))

/-- A writer without groups. -/
def emptyWriter : PluginWriter := .new .sse 0x3FD9999A

/-- The writer without groups can be read back. -/
theorem wellFormed_emptyWriter : emptyWriter.WellFormed where
  masters := by simp [emptyWriter, PluginWriter.new]
  sized := by decide
  groups := by simp [emptyWriter, PluginWriter.new]

/-- A file without records keeps its counters. -/
theorem writeToVec_keepsCounters_emptyWriter : ∃ bytes plugin,
    emptyWriter.writeToVec = .ok bytes ∧
      Plugin.fromBytes refuseInflate bytes emptyWriter.ctx = .ok plugin ∧
      ∀ record ∈ plugin.records, KeepsCounters refuseInflate plugin record := by
  obtain ⟨bytes, plugin, written, accepted, _⟩ :=
    emptyWriter.exists_plugin refuseInflate wellFormed_emptyWriter
  exact ⟨bytes, plugin, written, accepted,
    ((writeToVec_keepsCounters refuseInflate emptyWriter bytes plugin written accepted).2
      wellFormed_emptyWriter).mpr rfl⟩

/-- Replacing the record of the sample writer by itself changes the record count. -/
theorem exists_counters_changed : ∃ (writer : PluginWriter) (bytes : Bytes) (plugin : Plugin)
    (record : Record), writer.WellFormed ∧ writer.writeToVec = .ok bytes ∧
      Plugin.fromBytes refuseInflate bytes writer.ctx = .ok plugin ∧ record ∈ plugin.records ∧
      ¬KeepsCounters refuseInflate plugin record := by
  have wellFormed := wellFormed_sampleWriter "a" (by decide)
  obtain ⟨bytes, plugin, written, accepted, _⟩ :=
    (sampleWriter "a").exists_plugin refuseInflate wellFormed
  have some : 0 < countAllRecords (sampleWriter "a").groups := by
    rw [countAllRecords]
    simp [sampleWriter, iterWritableRecords, RoseTree.drain_start]
  have records := ((sampleWriter "a").count_records wellFormed written accepted).1
  obtain ⟨record, among⟩ := List.exists_mem_of_length_pos (records ▸ some)
  refine ⟨_, bytes, plugin, record, wellFormed, written, accepted, among, ?_⟩
  rw [keepsCounters_iff accepted among]
  exact (sampleWriter "a").not_countersStand wellFormed written accepted some

end Bethkit
