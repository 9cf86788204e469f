import Bethkit.Core.PatcherHeader

/-!
# Streaming rewrite of plugins with sparse edits

A patcher serialises a parsed plugin back. Groups that contain no edit are written verbatim from
the source; the others are written child by child with a recomputed size. Which groups are
walked is computed before, by two passes that mark source ranges.

A writer over a byte vector never fails, so writing returns the bytes or the error that the
source returns. Hash sets are finite sets, hash maps association lists without duplicate keys.
-/

namespace Bethkit

open Lib

/-- How a single record should be rewritten. -/
inductive RecordPatch where
  /-- The complete new record bytes. -/
  | rawBytes (bytes : Bytes)
deriving DecidableEq

namespace RecordPatch

/-- Serialise a record. -/
def fromWritableRecord (record : WritableRecord) : RecordPatch := .rawBytes record.writeTo

/-- Copy the original bytes of a record. -/
def fromRecordVerbatim (record : Record) (source : Bytes) : Option RecordPatch :=
  (record.sourceBytes source).map .rawBytes

/-- Write the patch. -/
def writeTo : RecordPatch → Bytes
  | .rawBytes bytes => bytes

end RecordPatch

/-- Record patches by FormID. -/
abbrev RecordPatches : Type := AList fun _ : FormId => RecordPatch

/-- Registered record orders by the source range of the group. -/
abbrev GroupOrders : Type := AList fun _ : Range => List FormId

/-- Sparse edits of a parsed plugin. -/
structure PluginPatcher where
  /-- The plugin. -/
  plugin : Plugin
  /-- Record replacements. -/
  patches : RecordPatches
  /-- Record orders. -/
  groupOrders : GroupOrders
  /-- The header patch. -/
  headerPatch : Option PluginHeaderPatch

/-- The FormIDs of the children of a group that holds nothing but records, all different. -/
def expectedIds : List GroupChild → Finset FormId → Except CoreError (Finset FormId)
  | [], expected => .ok expected
  | .node _ _ :: _, _ => .error (.invalidGroupRecordOrder "group contains nested groups")
  | .leaf record :: children, expected =>
    if record.header.formId ∈ expected then
      .error (.invalidGroupRecordOrder
        s!"group contains duplicate FormID {record.header.formId.display}")
    else expectedIds children (insert record.header.formId expected)

/-- The FormIDs of an order, all different and all expected. -/
def suppliedIds (expected : Finset FormId) :
    List FormId → Finset FormId → Except CoreError (Finset FormId)
  | [], supplied => .ok supplied
  | formId :: formIds, supplied =>
    if formId ∈ supplied then
      .error (.invalidGroupRecordOrder s!"order contains duplicate FormID {formId.display}")
    else if formId ∉ expected then
      .error (.invalidGroupRecordOrder s!"order contains unknown FormID {formId.display}")
    else suppliedIds expected formIds (insert formId supplied)

/-- Mark a group whose range is known. -/
def markRange (info : GroupInfo) (touched : Finset Range) : Finset Range :=
  match info.sourceRange with
  | some range => insert range touched
  | none => touched

mutual

/-- Mark every group that contains a patched record, and report whether this one does. -/
def markTouched (patches : RecordPatches) : GroupChild → Finset Range → Bool × Finset Range
  | .leaf record, touched => ((patches.lookup record.header.formId).isSome, touched)
  | .node info children, touched =>
    let (any, touched) := markTouchedAll patches children touched
    (any, if any then markRange info touched else touched)

/-- The loop over the children: all of them are visited. -/
def markTouchedAll (patches : RecordPatches) :
    List GroupChild → Finset Range → Bool × Finset Range
  | [], touched => (false, touched)
  | child :: children, touched =>
    let (first, touched) := markTouched patches child touched
    let (rest, touched) := markTouchedAll patches children touched
    (first || rest, touched)

end

mutual

/-- Mark reordered groups and the groups around them, and report whether this one is marked. -/
def markReordered (groupOrders : GroupOrders) :
    GroupChild → Finset Range → Bool × Finset Range
  | .leaf _, touched => (false, touched)
  | .node info children, touched =>
    let ownReordered := (info.sourceRange.bind groupOrders.lookup).isSome
    let (descendantReordered, touched) := markReorderedAny groupOrders children touched
    let reordered := ownReordered || descendantReordered
    (reordered, if reordered then markRange info touched else touched)

/-- `children().iter().any(..)`: the children after the first reordered one are not visited. -/
def markReorderedAny (groupOrders : GroupOrders) :
    List GroupChild → Finset Range → Bool × Finset Range
  | [], touched => (false, touched)
  | child :: children, touched =>
    let (first, touched) := markReordered groupOrders child touched
    if first then (true, touched) else markReorderedAny groupOrders children touched

end

/-- A group header with a recalculated size; the other fields are those of the parsed group. -/
def writeGroupHeader (header : GroupHeader) (newGroupSize : UInt32) : Bytes :=
  Signature.GRUP.bytes.val ++ u32ToLeBytes newGroupSize ++ header.label.toBytes ++
    i32ToLeBytes header.groupType.toRaw ++ u32ToLeBytes header.versionControl ++
    u32ToLeBytes header.unknown

namespace PluginPatcher

/-- A patcher without edits. -/
def new (plugin : Plugin) : PluginPatcher where
  plugin := plugin
  patches := ∅
  groupOrders := ∅
  headerPatch := none

/-- Register a replacement for the records with a FormID. -/
def replaceRecord (patcher : PluginPatcher) (formId : FormId) (patch : RecordPatch) :
    PluginPatcher :=
  { patcher with patches := patcher.patches.insert formId patch }

/-- Register an order of the records of a group; it must name each of them exactly once. -/
def reorderGroupRecords (patcher : PluginPatcher) (group : Group) (formIds : List FormId) :
    Except CoreError PluginPatcher :=
  match group.sourceRange with
  | none => .error (.unexpectedEof "group source range")
  | some range => do
    let expected ← expectedIds group.children ∅
    let supplied ← suppliedIds expected formIds ∅
    if supplied.card ≠ expected.card then
      .error (.invalidGroupRecordOrder
        s!"order contains {supplied.card} of {expected.card} direct records")
    else .ok { patcher with groupOrders := patcher.groupOrders.insert range formIds }

/-- Register a header patch. -/
def patchHeader (patcher : PluginPatcher) (patch : PluginHeaderPatch) : PluginPatcher :=
  { patcher with headerPatch := some patch }

/-- Write a record: its patch, or its source bytes. -/
def writeRecord (patcher : PluginPatcher) (record : Record) : Except CoreError Bytes :=
  match patcher.patches.lookup record.header.formId with
  | some patch => .ok patch.writeTo
  | none =>
    match record.sourceBytes patcher.plugin.source with
    | some bytes => .ok bytes
    | none => .error (.unexpectedEof "record source range")

/-- Write the records of a group in a registered order. -/
def writeOrdered (patcher : PluginPatcher) (group : Group) : List FormId → Except CoreError Bytes
  | [] => .ok []
  | formId :: formIds =>
    match group.records.find? (·.header.formId = formId) with
    | none => .error (.invalidGroupRecordOrder
        s!"registered FormID {formId.display} is no longer in the group")
    | some record => do
      let bytes ← patcher.writeRecord record
      let rest ← patcher.writeOrdered group formIds
      pure (bytes ++ rest)

/-- The order registered for a group. -/
def orderOf (patcher : PluginPatcher) (info : GroupInfo) : Option (List FormId) :=
  info.sourceRange.bind patcher.groupOrders.lookup

/-- Whether a group is written child by child. -/
def needsWalk (touched : Finset Range) (info : GroupInfo) : Bool :=
  match info.sourceRange with
  | some range => range ∈ touched
  | none => true

mutual

/-- Write a child: a record, an untouched group verbatim, or a group with its children in the
registered or the original order. -/
def writeChild (patcher : PluginPatcher) (touched : Finset Range) :
    GroupChild → Except CoreError Bytes
  | .leaf record => patcher.writeRecord record
  | .node info children =>
    if needsWalk touched info then
      let written := match patcher.orderOf info with
        | some order => patcher.writeOrdered (Group.ofNode (info, children)) order
        | none => writeChildren patcher touched children
      match written with
      | .error reason => .error reason
      | .ok childrenBuf =>
        .ok (writeGroupHeader info.header (UInt32.ofNat (GROUP_HEADER_SIZE + childrenBuf.length)) ++
          childrenBuf)
    else
      match (Group.ofNode (info, children)).sourceBytes patcher.plugin.source with
      | some bytes => .ok bytes
      | none => .error (.unexpectedEof "group source range")

/-- Write children one after the other. -/
def writeChildren (patcher : PluginPatcher) (touched : Finset Range) :
    List GroupChild → Except CoreError Bytes
  | [] => .ok []
  | child :: children =>
    match writeChild patcher touched child with
    | .error reason => .error reason
    | .ok bytes =>
      match writeChildren patcher touched children with
      | .error reason => .error reason
      | .ok rest => .ok (bytes ++ rest)

end

/-- The groups to walk: for every top-level group those with patched records, then the
reordered ones. -/
def touchedGroups (patcher : PluginPatcher) : Finset Range :=
  patcher.plugin.groups.foldl (fun touched group =>
    (markReordered patcher.groupOrders group.toChild
      (markTouched patcher.patches group.toChild touched).2).2) ∅

/-- The header record of the output: updated when it is patched or a group is touched. -/
def writeHeader (inflate : Inflate) (patcher : PluginPatcher) : Except CoreError Bytes :=
  if patcher.headerPatch.isSome ∨ patcher.touchedGroups ≠ ∅ then
    writeUpdated inflate patcher.plugin patcher.headerPatch
  else
    match patcher.plugin.source.get patcher.plugin.headerRange.start
        patcher.plugin.headerRange.stop with
    | some bytes => .ok bytes
    | none => .error (.unexpectedEof "plugin header source range")

/-- Write the patched plugin; without any edit it is copied. -/
def writeTo (inflate : Inflate) (patcher : PluginPatcher) : Except CoreError Bytes :=
  if patcher.patches.keys = [] ∧ patcher.groupOrders.keys = [] ∧ patcher.headerPatch.isNone then
    .ok patcher.plugin.source
  else do
    let header ← patcher.writeHeader inflate
    let groups ← patcher.writeChildren patcher.touchedGroups
      (patcher.plugin.groups.map Group.toChild)
    pure (header ++ groups)

end PluginPatcher

end Bethkit
