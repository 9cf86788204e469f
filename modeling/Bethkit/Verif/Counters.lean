import Bethkit.Verif.HedrCounters
import Bethkit.Verif.Written

/-!
# The counters of a patched file

A patcher that rewrites the header computes the counters from the source tree with a worklist,
and the groups are written by another recursion. Both see the same groups and the same FormIDs,
so a reader of the written file finds counters that describe what it finds.
-/

namespace Bethkit

open Lib Layout

/-- The patchers of a plugin after any sequence of calls that all succeed; every replacement is one
record with the FormID that it replaces. -/
inductive PatcherRun (plugin : Plugin) : PluginPatcher → Prop
  /-- No edit yet. -/
  | new : PatcherRun plugin (.new plugin)
  /-- A replacement. -/
  | replace {patcher : PluginPatcher} (run : PatcherRun plugin patcher) (raw : RawRecord) :
      PatcherRun plugin (patcher.replaceRecord raw.formId (.rawBytes raw.encode))
  /-- A header patch. -/
  | header {patcher : PluginPatcher} (run : PatcherRun plugin patcher)
      (patch : PluginHeaderPatch) : PatcherRun plugin (patcher.patchHeader patch)
  /-- One more group of the plugin is reordered. -/
  | reorder {patcher next : PluginPatcher} (run : PatcherRun plugin patcher)
      {group : GroupInfo × List GroupChild} (among : group ∈ plugin.allGroups)
      {formIds : List FormId}
      (done : patcher.reorderGroupRecords (Group.ofNode group) formIds = .ok next) :
      PatcherRun plugin next

/-- After a run every registered order is valid, and every replacement is a record. -/
theorem PatcherRun.registered {plugin : Plugin} {patcher : PluginPatcher}
    (run : PatcherRun plugin patcher) :
    Registered plugin patcher ∧ RecordsReplaced patcher.patches := by
  induction run with
  | new => exact ⟨.new plugin, fun _ _ found => by simp [PluginPatcher.new] at found⟩
  | @replace patcher _ raw ih =>
    refine ⟨⟨ih.1.attached, ih.1.orders⟩, fun formId patch found => ?_⟩
    by_cases same : formId = raw.formId
    · subst same
      have given : (patcher.patches.insert raw.formId (.rawBytes raw.encode)).lookup raw.formId =
          some patch := found
      rw [AList.lookup_insert] at given
      obtain rfl := Option.some.inj given
      exact ⟨raw, rfl, rfl⟩
    · have given : (patcher.patches.insert raw.formId (.rawBytes raw.encode)).lookup formId =
          some patch := found
      rw [AList.lookup_insert_ne same] at given
      exact ih.2 formId patch given
  | header _ _ ih => exact ⟨⟨ih.1.attached, ih.1.orders⟩, ih.2⟩
  | reorder _ among done ih =>
    obtain ⟨valid, records⟩ := ih
    obtain ⟨next, same⟩ := valid.reorder among done
    exact ⟨next, same ▸ records⟩

/-- The patcher has a header patch, or an edit that touches a group. -/
def RewritesHeader (patcher : PluginPatcher) : Prop :=
  patcher.headerPatch.isSome ∨ ∃ group ∈ patcher.plugin.groups,
    HasPatched patcher.patches group.toChild ∨ HasReordered patcher.orderOf group.toChild

/-- Every top-level group with a reordered group is walked. -/
theorem needsWalk_reordered (patcher : PluginPatcher) :
    ∀ group ∈ patcher.plugin.groups, HasReordered patcher.orderOf group.toChild →
      PluginPatcher.needsWalk patcher.touchedGroups group.toGroupInfo = true := by
  unfold PluginPatcher.touchedGroups
  generalize (∅ : Finset Range) = touched
  induction patcher.plugin.groups generalizing touched with
  | nil => simp
  | cons top groups ih =>
    rw [List.foldl_cons]
    intro group among reordered
    rcases List.mem_cons.mp among with rfl | later
    · have reports := (fst_markReordered patcher.groupOrders group.toChild
        (markTouched patcher.patches group.toChild touched).2).mpr reordered
      refine needsWalk_mono (subset_foldl_marks ..) ?_
      rw [Group.toChild, markReordered] at reports ⊢
      dsimp only at reports ⊢
      rw [if_pos reports]
      exact needsWalk_markRange _ _
    · exact ih _ group later reordered

/-- The header of a patcher that touches something is updated. -/
theorem writeHeader_eq {inflate : Inflate} {data : Bytes} {ctx : GameContext} {plugin : Plugin}
    (accepted : Plugin.fromBytes inflate data ctx = .ok plugin) {patcher : PluginPatcher}
    (attached : patcher.plugin = plugin) (rewrites : RewritesHeader patcher) :
    patcher.writeHeader inflate = writeUpdated inflate plugin patcher.headerPatch := by
  subst attached
  obtain ⟨_, _, nodes, _, _, _, stands, _⟩ := exists_standing accepted
  have marked : patcher.headerPatch.isSome ∨ patcher.touchedGroups ≠ ∅ := by
    refine rewrites.imp_right ?_
    rintro ⟨group, among, edited⟩ empty
    have walked : PluginPatcher.needsWalk patcher.touchedGroups group.toGroupInfo = true := by
      rcases edited with patched | reordered
      · exact needsWalk_touchedGroups patcher group.toChild (List.mem_map_of_mem among)
          (group.toGroupInfo, group.children) (by simp [Group.toChild]) patched
      · exact needsWalk_reordered patcher group among reordered
    obtain ⟨node, _, standing⟩ := exists_of_mem_right stands (List.mem_map_of_mem among)
    have ranged := ranged_of_standsAt node standing
    rw [Group.toChild, treeRanges_node] at ranged
    cases placed : group.toGroupInfo.sourceRange with
    | none => exact ranged (placed ▸ List.mem_cons_self)
    | some range => simp [PluginPatcher.needsWalk, placed, empty] at walked
  rw [PluginPatcher.writeHeader, if_pos marked]

/-- The counters in a HEDR payload that was updated. -/
theorem slices_withCounters (counters : HedrCounters) (frame : Frame)
    (long : 12 ≤ frame.payload.length) :
    12 ≤ (frame.withCounters counters).payload.length ∧
      (frame.withCounters counters).payload.slice 4 8 = u32ToLeBytes counters.recordCount ∧
      (frame.withCounters counters).payload.slice 8 12 = u32ToLeBytes counters.nextId := by
  have payload : (frame.withCounters counters).payload = frame.payload.take 4 ++
      (u32ToLeBytes counters.recordCount ++ (u32ToLeBytes counters.nextId ++
        frame.payload.drop 12)) := by
    rw [Frame.withCounters, dif_pos long]
    simp only [List.append_assoc]
  have front : (frame.payload.take 4).length = 4 := by
    rw [List.length_take]
    omega
  have count := length_u32ToLeBytes counters.recordCount
  have next := length_u32ToLeBytes counters.nextId
  rw [payload]
  refine ⟨?_, ?_, ?_⟩
  · simp only [List.length_append, front, count, next, List.length_drop]
    omega
  · have middle := Bytes.slice_append (frame.payload.take 4) (u32ToLeBytes counters.recordCount)
      (u32ToLeBytes counters.nextId ++ frame.payload.drop 12)
    rwa [front, count] at middle
  · have last := Bytes.slice_append (frame.payload.take 4 ++ u32ToLeBytes counters.recordCount)
      (u32ToLeBytes counters.nextId) (frame.payload.drop 12)
    rwa [List.length_append, front, count, next, List.append_assoc] at last

/-- The HEDR of an edited header holds the new counters. -/
theorem hedrFields_editParts (ctx : GameContext) (edit : HeaderEdit) {frames : List Frame}
    (ready : HedrReady frames) {subrecords : List SubRecord}
    (read : subrecordValues subrecords = (editParts edit (frames.map .kept)).map Part.value) :
    (PluginHeader.hedrFields ctx (subrecords.find? (·.signature = .HEDR))).2 =
      (edit.counters.recordCount, ⟨edit.counters.nextId⟩) := by
  obtain ⟨frame, first, long⟩ := ready
  obtain ⟨room, count, next⟩ := slices_withCounters edit.counters frame long
  have kept : (frames.map Part.kept).find? (·.signature = .HEDR) = some (.kept frame) := by
    rw [List.find?_map]
    exact congrArg (Option.map Part.kept) first
  have found : hedrOf ((editParts edit (frames.map .kept)).map Part.value) =
      some (frame.withCounters edit.counters).payload := by
    have parts := find_editParts edit (frames.map .kept)
    rw [kept, Option.map_some] at parts
    rw [hedrOf, List.find?_map]
    simp only [Function.comp_def, Part.fst_value, parts]
    rfl
  rw [hedrFields_find, read, found]
  simp only [room, if_true, count, next, u32FromLeBytes_toLeBytes]

/-- A header update leaves a record that is parsed as a header with the new counters and as many
masters as the owner index says. -/
theorem exists_writtenHeader {inflate : Inflate} {data : Bytes} {ctx : GameContext}
    {plugin : Plugin} (accepted : Plugin.fromBytes inflate data ctx = .ok plugin)
    {patch : Option PluginHeaderPatch} (strings : StringsFit patch) {out : Bytes}
    (wrote : writeUpdated inflate plugin patch = .ok out) :
    ∃ (counters : HedrCounters) (raw : RawRecord) (header : PluginHeader),
      headerCounters plugin patch = .ok counters ∧ out = raw.encode ∧
      PluginHeader.ofRecord inflate ctx raw.toRecord = .ok header ∧
      header.recordCount = counters.recordCount ∧ header.nextObjectId = ⟨counters.nextId⟩ ∧
      header.masters.length = ownIndex plugin patch := by
  obtain ⟨file, block, _, rfl, signed, source, parsed⟩ := exists_headerBlock accepted
  obtain ⟨counters, counted, ready, sized, rfl⟩ :=
    (writeUpdated_eq_ok file block source patch plugin parsed out).mp wrote
  obtain ⟨edited, encoded, values⟩ := exists_editedBlock counters patch file.header block sized
  have admitted := parse_updatedRecord (patchEdit counters patch) patch file.header block signed
    source sized edited encoded
  have read := subrecordValues_locateFrames edited
  rw [values.mpr strings] at read
  have fields := hedrFields_editParts ctx (patchEdit counters patch) ready read
  have names := masterNames_filter (locateFrames edited.encode 0 edited.frames)
  refine ⟨counters, _, _, counted, rfl, admitted, congrArg Prod.fst fields,
    congrArg Prod.snd fields, ?_⟩
  change (PluginHeader.masterNames ((locateFrames edited.encode 0 edited.frames).filter
    (·.signature = .MAST))).length = _
  rw [names, read, ownIndex]
  cases given : patch.bind (·.masters) with
  | some masters => exact length_mastersOf_editParts given _
  | none =>
    have old : (block.frames.map Part.kept).map Part.value = block.values := by
      rw [List.map_map]
      rfl
    have before := masterNames_filter (locateFrames block.encode 0 block.frames)
    rw [subrecordValues_locateFrames] at before
    rw [mastersOf_editParts_none given, old, ← before, parsed]
    rfl

/-- The counters are those of a tally over the plugin. -/
theorem headerCounters_spec {plugin : Plugin} {patch : Option PluginHeaderPatch}
    {counters : HedrCounters} (counted : headerCounters plugin patch = .ok counters) :
    counters.recordCount.toNat = plugin.treeSize ∧
      plugin.header.nextObjectId.val ≤ counters.nextId ∧ 0x801 ≤ counters.nextId ∧
      ∀ id ∈ plugin.records.map (·.header.formId), id.fileIndex.toNat = ownIndex plugin patch →
        id.objectId < counters.nextId := by
  have low := ownedTop_le (ownIndex plugin patch) (plugin.records.map (·.header.formId))
  have top := (ownedTop_le_iff (ownIndex plugin patch) (plugin.records.map (·.header.formId)) _).mp
    (Nat.le_refl _)
  have start := toNat_max plugin.header.nextObjectId.val 0x801
  have word := (max plugin.header.nextObjectId.val 0x801).toNat_lt
  have floor : (0x801 : UInt32).toNat = 0x801 := rfl
  rw [headerCounters_eq, HedrCounters.tally] at counted
  by_cases small : (0 : UInt32).toNat + plugin.treeSize < 2 ^ 32
  · rw [if_pos small] at counted
    obtain rfl := Except.ok.inj counted
    have count : (0 : UInt32).toNat + plugin.treeSize = plugin.treeSize := Nat.zero_add _
    have next : (UInt32.ofNat (max (max plugin.header.nextObjectId.val 0x801).toNat
        (ownedTop (ownIndex plugin patch) (plugin.records.map (·.header.formId))))).toNat =
        max (max plugin.header.nextObjectId.val 0x801).toNat
          (ownedTop (ownIndex plugin patch) (plugin.records.map (·.header.formId))) := by
      rw [UInt32.toNat_ofNat', Nat.mod_eq_of_lt]
      omega
    simp only [UInt32.le_iff_toNat_le, UInt32.lt_iff_toNat_lt, next, floor]
    refine ⟨?_, by omega, by omega, fun id among owned => ?_⟩
    · rw [count] at small ⊢
      rw [UInt32.toNat_ofNat', Nat.mod_eq_of_lt small]
    · have := top id among owned
      omega
  · rw [if_neg small] at counted
    exact absurd counted (by simp)

/-- Nodes that are groups are top-level groups. -/
theorem exists_tops {nodes : List Node} (groups : ∀ node ∈ nodes, node.nodes ≠ []) :
    ∃ tops : List TopGroup, tops.map TopGroup.toNode = nodes := by
  induction nodes with
  | nil => exact ⟨[], rfl⟩
  | cons node nodes ih =>
    obtain ⟨tops, same⟩ := ih fun other among => groups other (List.mem_cons_of_mem _ among)
    cases node with
    | leaf raw => exact absurd (RoseTree.nodes_leaf raw) (groups _ List.mem_cons_self)
    | node head children => exact ⟨⟨head, children⟩ :: tops, by rw [List.map_cons, same]; rfl⟩

/-- The groups are written as nodes, one for each top-level group. -/
theorem PatcherRun.exists_written {inflate : Inflate} {data : Bytes} {ctx : GameContext}
    {plugin : Plugin} (accepted : Plugin.fromBytes inflate data ctx = .ok plugin)
    {patcher : PluginPatcher} (run : PatcherRun plugin patcher) :
    ∃ written, List.Forall₂ (patcher.Writes patcher.touchedGroups)
        (plugin.groups.map Group.toChild) written ∧
      (∀ node ∈ written, node.nodes ≠ []) ∧
      patcher.writeTo inflate = (patcher.writeHeader inflate >>= fun header =>
        .ok (header ++ encodeAll written)) := by
  obtain ⟨registered, replaced⟩ := run.registered
  obtain ⟨source, _, nodes, _, _, fits, stands, different⟩ := exists_standing accepted
  have attached := registered.attached
  have valid := registered.validOrders different
  subst source
  subst attached
  have each : ∀ tree ∈ patcher.plugin.groups.map Group.toChild,
      ∃ written, patcher.Writes patcher.touchedGroups tree written := by
    intro tree among
    obtain ⟨node, found, paired⟩ := exists_of_mem_right stands among
    exact PluginPatcher.exists_writes replaced node (fits node found) paired (valid tree among)
      (needsWalk_touchedGroups patcher tree among)
  obtain ⟨written, paired⟩ := exists_forall₂ (patcher.plugin.groups.map Group.toChild) each
  refine ⟨written, paired.flip, fun node among none => ?_, ?_⟩
  · obtain ⟨tree, inside, emits⟩ := exists_of_mem_right paired.flip among
    obtain ⟨group, _, rfl⟩ := List.mem_map.mp inside
    have groups := emits.groups
    rw [Group.toChild, RoseTree.nodes_node, List.length_cons] at groups
    simp [none] at groups
  · rw [writeTo_eq accepted patcher rfl, (PluginPatcher.writes_all paired.flip).1]
    rfl

end Bethkit
