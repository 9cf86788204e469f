import Bethkit.Core.Plugin

/-!
# The plugin writer

Serialises records and groups built in memory. Every `write_to` of the source appends to a
buffer; here it returns the bytes appended. `eslify` moves the records owned by the plugin to the
light range in two passes: a table of new FormIDs is collected in iteration order and then
applied to every record header and every 4-byte-aligned word of the subrecord data.

A hash map is an association list without duplicate keys, a record iterator is the list that it
yields, and a `usize` length cast to a machine word is reduced to the width of the word.
-/

namespace Bethkit

open Lib

/-- A subrecord ready to be serialised. -/
structure WritableSubRecord where
  /-- 4-byte signature. -/
  signature : Signature
  /-- Raw data payload. -/
  data : Bytes
deriving DecidableEq

/-- Serialise a subrecord; a payload over 65 535 bytes gets an `XXXX` override. -/
def WritableSubRecord.writeTo (subrecord : WritableSubRecord) : Bytes :=
  let dataLen := subrecord.data.length
  (if 65535 < dataLen then
    Signature.XXXX.bytes.val ++ u16ToLeBytes 4 ++ u32ToLeBytes (UInt32.ofNat dataLen) ++
      subrecord.signature.bytes.val ++ u16ToLeBytes 0
  else subrecord.signature.bytes.val ++ u16ToLeBytes (UInt16.ofNat dataLen)) ++ subrecord.data

/-- A main record ready to be serialised. -/
structure WritableRecord where
  /-- 4-byte record type. -/
  signature : Signature
  /-- Record-level flags. -/
  flags : RecordFlags
  /-- Raw FormID. -/
  formId : FormId
  /-- Form version. -/
  formVersion : UInt16
  /-- Subrecords in declaration order. -/
  subrecords : List WritableSubRecord
deriving DecidableEq

/-- The serialised subrecords of a record. -/
def WritableRecord.dataBuf (record : WritableRecord) : Bytes :=
  record.subrecords.flatMap WritableSubRecord.writeTo

/-- Serialise a record. -/
def WritableRecord.writeTo (record : WritableRecord) : Bytes :=
  record.signature.bytes.val ++ u32ToLeBytes (UInt32.ofNat record.dataBuf.length) ++
    u32ToLeBytes record.flags.bits ++ u32ToLeBytes record.formId.val ++ u32ToLeBytes 0 ++
    u16ToLeBytes record.formVersion ++ u16ToLeBytes 0 ++ record.dataBuf

/-- What a writable group carries beside its children. -/
structure WritableGroupHead where
  /-- 4-byte group label. -/
  label : Fixed 4
  /-- Group type. -/
  groupType : Int32
deriving DecidableEq

/-- A child of a writable group: a record (a leaf) or a nested group (an inner node). -/
abbrev WritableGroupChild : Type := RoseTree WritableGroupHead WritableRecord

/-- A group ready to be serialised. -/
structure WritableGroup extends WritableGroupHead where
  /-- Records and nested groups. -/
  children : List WritableGroupChild

/-- The group as a child of another one. -/
def WritableGroup.toChild (group : WritableGroup) : WritableGroupChild :=
  .node group.toWritableGroupHead group.children

/-- Serialise a child; the children of a group come first, to calculate its size. -/
def WritableGroupChild.writeTo : WritableGroupChild → Bytes :=
  RoseTree.fold WritableRecord.writeTo fun head parts =>
    let childrenBuf := parts.flatten
    let groupSize : UInt32 := 24 + UInt32.ofNat childrenBuf.length
    Signature.GRUP.bytes.val ++ u32ToLeBytes groupSize ++ head.label.val ++
      i32ToLeBytes head.groupType ++ u32ToLeBytes 0 ++ u32ToLeBytes 0 ++ childrenBuf

/-- A record as a child is written as a record. -/
@[simp]
theorem WritableGroupChild.writeTo_leaf (record : WritableRecord) :
    writeTo (.leaf record) = record.writeTo := by simp [writeTo]

/-- A group as a child is its header, with the size of what it holds, and its children. -/
@[simp]
theorem WritableGroupChild.writeTo_node (head : WritableGroupHead)
    (children : List WritableGroupChild) : writeTo (.node head children) =
      Signature.GRUP.bytes.val ++
        u32ToLeBytes (24 + UInt32.ofNat (children.flatMap writeTo).length) ++ head.label.val ++
        i32ToLeBytes head.groupType ++ u32ToLeBytes 0 ++ u32ToLeBytes 0 ++
        children.flatMap writeTo := by
  simp [writeTo, List.flatMap]

/-- Serialise a group. -/
def WritableGroup.writeTo (group : WritableGroup) : Bytes :=
  WritableGroupChild.writeTo group.toChild

/-- Iterate over all records of a group. -/
def iterWritableRecords (group : WritableGroup) : List WritableRecord :=
  RoseTree.drain [(group.children, 0)]

/-- The records of the groups that the plugin owns. -/
def ownedRecords (groups : List WritableGroup) (masterCount : UInt8) : List WritableRecord :=
  (groups.flatMap iterWritableRecords).filter (·.formId.fileIndex = masterCount)

/-- Count the records that belong to the plugin. -/
def countNewRecords (groups : List WritableGroup) (masterCount : UInt8) : Nat :=
  (ownedRecords groups masterCount).length

/-- Count all records across all groups. -/
def countAllRecords (groups : List WritableGroup) : Nat :=
  (groups.flatMap iterWritableRecords).length

/-- The next object ID for new records: the highest one among owned records plus one, or `0x800`
when there are none. -/
def nextObjectId (groups : List WritableGroup) (masterCount : UInt8) : UInt32 :=
  match ((ownedRecords groups masterCount).map (·.formId.objectId)).max? with
  | some id => id + 1
  | none => 0x800

/-- A table of new FormIDs. -/
abbrev FormIdRemap : Type := AList fun _ : UInt32 => UInt32

/-- Replace every aligned little-endian word that is a key of the table. The loop of the source
reads each window of four bytes once and writes only into that window. -/
def remapFormIdsInBytes (remap : FormIdRemap) : Bytes → Bytes
  | a :: b :: c :: d :: rest =>
    (match remap.lookup (u32FromLeBytes [a, b, c, d]) with
      | some newFid => u32ToLeBytes newFid
      | none => [a, b, c, d]) ++ remapFormIdsInBytes remap rest
  | rest => rest

/-- Apply a table to a record header and to its subrecord data. -/
def applyFidRemapInRecord (remap : FormIdRemap) (record : WritableRecord) : WritableRecord :=
  { record with
    formId := match remap.lookup record.formId.val with
      | some newFid => ⟨newFid⟩
      | none => record.formId
    subrecords := record.subrecords.map fun subrecord =>
      { subrecord with data := remapFormIdsInBytes remap subrecord.data } }

/-- Apply a table to every record of a group. -/
def applyFidRemapInGroup (remap : FormIdRemap) (group : WritableGroup) : WritableGroup :=
  { group with children := group.children.map (RoseTree.map id (applyFidRemapInRecord remap)) }

/-- Apply a table to all groups. -/
def applyFidRemap (groups : List WritableGroup) (remap : FormIdRemap) : List WritableGroup :=
  groups.map (applyFidRemapInGroup remap)

/-- The table that gives the FormIDs of a list consecutive light IDs; a FormID that occurs again
takes the later one. -/
def collectRemap (eslMin : UInt32) (oldFids : List UInt32) : FormIdRemap :=
  let fileIndexShifted := (0xFE : UInt32) <<< (24 : UInt32)
  oldFids.zipIdx.foldl (fun remap (oldFid, i) =>
    remap.insert oldFid (fileIndexShifted ||| (eslMin + UInt32.ofNat i))) ∅

/-- The data written into the header record. -/
structure WritableHeader where
  /-- Ordered list of master plugin filenames. -/
  masters : List String
  /-- Optional plugin description. -/
  description : Option String
  /-- HEDR version, as the bits of its `f32`. -/
  version : UInt32
deriving DecidableEq

/-- Builds and serialises a plugin file from scratch. -/
structure PluginWriter where
  /-- The game context. -/
  ctx : GameContext
  /-- Header data. -/
  header : WritableHeader
  /-- Top-level groups. -/
  groups : List WritableGroup
  /-- Whether `eslify` was called; sets the light flag of the header. -/
  lightFlagSet : Bool
  /-- Whether the `LOCALIZED` flag is set on the header. -/
  localized : Bool

namespace PluginWriter

/-- A new writer. -/
def new (ctx : GameContext) (version : UInt32) : PluginWriter where
  ctx := ctx
  header := { masters := [], description := none, version }
  groups := []
  lightFlagSet := false
  localized := false

/-- Append a master plugin filename. -/
def addMaster (writer : PluginWriter) (name : String) : PluginWriter :=
  { writer with header := { writer.header with masters := writer.header.masters ++ [name] } }

/-- Set the plugin description. -/
def setDescription (writer : PluginWriter) (desc : String) : PluginWriter :=
  { writer with header := { writer.header with description := some desc } }

/-- Append a top-level group. -/
def addGroup (writer : PluginWriter) (group : WritableGroup) : PluginWriter :=
  { writer with groups := writer.groups ++ [group] }

/-- Set or clear the `LOCALIZED` flag. -/
def setLocalized (writer : PluginWriter) (localized : Bool) : PluginWriter :=
  { writer with localized }

/-- The master count as the owner byte of a FormID. -/
def masterCount (writer : PluginWriter) : UInt8 := UInt8.ofNat writer.header.masters.length

/-- The table of new FormIDs that `eslify` collects. -/
def eslifyRemap (writer : PluginWriter) : FormIdRemap :=
  collectRemap writer.ctx.lightMinObjectId
    ((ownedRecords writer.groups writer.masterCount).map (·.formId.val))

/-- Move the FormIDs that belong to the plugin to the light range. -/
def eslify (writer : PluginWriter) : Except CoreError PluginWriter :=
  if !writer.ctx.supportsLight then .error (.unsupportedGame writer.ctx.game)
  else
    let newCount := countNewRecords writer.groups writer.masterCount
    let eslMin := writer.ctx.lightMinObjectId
    let eslMax := writer.ctx.lightMaxObjectId
    let eslCapacity := (eslMax - eslMin + 1).toNat
    if eslCapacity < newCount then .error (.eslRecordLimitExceeded newCount)
    else .ok { writer with
      groups := applyFidRemap writer.groups writer.eslifyRemap, lightFlagSet := true }

/-- The `HEDR` payload. -/
def hedrData (writer : PluginWriter) : Bytes :=
  u32ToLeBytes writer.header.version ++
    u32ToLeBytes (UInt32.ofNat (countAllRecords writer.groups)) ++
    u32ToLeBytes (nextObjectId writer.groups writer.masterCount)

/-- The `MAST` and `DATA` subrecords of a master. -/
def masterSubRecords (master : String) : List WritableSubRecord :=
  [⟨.MAST, strAsBytes master ++ [0]⟩, ⟨.DATA, List.replicate 8 0⟩]

/-- The subrecords of the header record. -/
def tes4SubRecords (writer : PluginWriter) : List WritableSubRecord :=
  ⟨.HEDR, writer.hedrData⟩ :: writer.header.masters.flatMap masterSubRecords ++
    (writer.header.description.map fun desc => ⟨.SNAM, strAsBytes desc ++ [0]⟩).toList

/-- The flags of the header record. -/
def tes4Flags (writer : PluginWriter) : RecordFlags :=
  let light := if writer.lightFlagSet then RecordFlags.empty.union ⟨writer.ctx.lightFlag⟩
    else .empty
  if writer.localized then light.union .LOCALIZED else light

/-- Serialise the header record. -/
def writeTes4 (writer : PluginWriter) : Bytes :=
  let tes4Data := writer.tes4SubRecords.flatMap WritableSubRecord.writeTo
  writer.ctx.headerSignature.bytes.val ++ u32ToLeBytes (UInt32.ofNat tes4Data.length) ++
    u32ToLeBytes writer.tes4Flags.bits ++ u32ToLeBytes 0 ++ u32ToLeBytes 0 ++ u16ToLeBytes 0 ++
    u16ToLeBytes 0 ++ tes4Data

/-- The header record. -/
def tes4Record (writer : PluginWriter) : WritableRecord where
  signature := writer.ctx.headerSignature
  flags := writer.tes4Flags
  formId := .NULL
  formVersion := 0
  subrecords := writer.tes4SubRecords

/-- The header record is serialised like any other record. -/
theorem writeTes4_eq (writer : PluginWriter) : writer.writeTes4 = writer.tes4Record.writeTo := rfl

/-- Serialise the plugin. -/
def writeToVec (writer : PluginWriter) : Except CoreError Bytes :=
  .ok (writer.writeTes4 ++ writer.groups.flatMap WritableGroup.writeTo)

end PluginWriter

end Bethkit
