import Bethkit.Core.Writer

/-!
# Targeted plugin header updates

Rewrites the header record of a parsed plugin and keeps the source frames of every subrecord
that is not edited. The HEDR counters are recomputed from the groups by a worklist. Unchanged
compressed payloads are retained verbatim; changed ones become uncompressed.

A writer over a byte vector never fails, so an update returns the bytes written or an error.
-/

namespace Bethkit

open Lib

/-- Modifications of the plugin header; what is `none` is inherited. -/
structure PluginHeaderPatch where
  /-- Replacement master list. -/
  masters : Option (List String)
  /-- Replacement description. -/
  description : Option String
  /-- Flag bits to set on the header record. -/
  flagsSet : Option RecordFlags
  /-- Flag bits to clear on the header record. -/
  flagsClear : Option RecordFlags
deriving DecidableEq

/-- The counters of a HEDR. -/
structure HedrCounters where
  /-- Number of records and groups. -/
  recordCount : UInt32
  /-- Next available object ID. -/
  nextId : UInt32
deriving DecidableEq

namespace HedrCounters

/-- `record_count.checked_add(1)`. -/
def countOne (counters : HedrCounters) : Except CoreError HedrCounters :=
  if counters.recordCount = 0xFFFFFFFF then
    .error (.invalidEncoding "plugin record count exceeds u32")
  else .ok { counters with recordCount := counters.recordCount + 1 }

/-- Count the records of a group; those of the plugin itself raise the next object ID. -/
def countRecords (ownIndex : Nat) : List Record → HedrCounters → Except CoreError HedrCounters
  | [], counters => .ok counters
  | record :: records, counters => do
    let counted ← counters.countOne
    let counted :=
      if record.header.formId.fileIndex.toNat = ownIndex then
        { counted with nextId := max counted.nextId (record.header.formId.objectId + 1) }
      else counted
    countRecords ownIndex records counted

/-- The groups left in the worklist weigh as much as they contain. -/
def worklistWeight (groups : List Group) : Nat := (groups.map fun group => group.toChild.size).sum

/-- The nested groups of a group weigh less than the group. -/
theorem worklistWeight_subgroups (group : Group) (groups : List Group) :
    worklistWeight (group.subgroups.reverse ++ groups) < worklistWeight (group :: groups) := by
  have nested : worklistWeight group.subgroups ≤ (group.children.map RoseTree.size).sum := by
    unfold Group.subgroups
    induction group.children with
    | nil => simp [worklistWeight]
    | cons child children ih =>
      cases child with
      | leaf record =>
        simp only [List.filterMap_cons, List.map_cons, List.sum_cons]
        omega
      | node info below =>
        have same : (Group.ofNode (info, below)).toChild = .node info below := rfl
        simp only [worklistWeight, List.filterMap_cons, List.map_cons, List.sum_cons, same] at ih ⊢
        omega
  simp only [worklistWeight, List.map_append, List.map_reverse, List.sum_append, List.sum_reverse,
    List.map_cons, List.sum_cons, Group.toChild, RoseTree.size_node] at nested ⊢
  omega

/-- Count every group and every record; the head of the list is the end of the source's vector,
so it is popped first, and the nested groups are pushed after it. -/
def countGroups (ownIndex : Nat) : List Group → HedrCounters → Except CoreError HedrCounters
  | [], counters => .ok counters
  | group :: groups, counters =>
    match counters.countOne with
    | .error reason => .error reason
    | .ok counted =>
      match countRecords ownIndex group.records counted with
      | .error reason => .error reason
      | .ok counted => countGroups ownIndex (group.subgroups.reverse ++ groups) counted
termination_by groups => worklistWeight groups
decreasing_by exact worklistWeight_subgroups group groups

end HedrCounters

/-- Append a string subrecord. -/
def appendString (signature : Signature) (value : String) : Bytes :=
  (WritableSubRecord.mk signature (strAsBytes value ++ [0])).writeTo

/-- Append the subrecords of a master list. -/
def appendMasters (masters : List String) : Bytes :=
  masters.flatMap fun master =>
    appendString .MAST master ++ (WritableSubRecord.mk .DATA (List.replicate 8 0)).writeTo

/-- What the pass over the header subrecords carries. -/
structure RewriteState where
  /-- The new payload so far. -/
  output : Bytes
  /-- Where the next source frame starts. -/
  offset : Nat
  /-- The first HEDR was updated. -/
  seenHedr : Bool
  /-- The replacement masters were written. -/
  seenMasters : Bool
  /-- The replacement description was written. -/
  seenDescription : Bool
  /-- The previous subrecord was a MAST. -/
  followsMaster : Bool

/-- The edits of one pass. -/
structure HeaderEdit where
  /-- New HEDR counters. -/
  counters : HedrCounters
  /-- Replacement master list. -/
  masters : Option (List String)
  /-- Replacement description. -/
  description : Option String

/-- A HEDR frame with new counters in bytes 4 to 12 of its payload. -/
def updateHedr (counters : HedrCounters) (frame : Bytes) (payloadOffset : Nat) :
    Except CoreError Bytes :=
  match frame.get (payloadOffset + 4) (payloadOffset + 12) with
  | none => .error (.invalidEncoding "HEDR is shorter than 12 bytes")
  | some _ => .ok (frame.take (payloadOffset + 4) ++ u32ToLeBytes counters.recordCount ++
      u32ToLeBytes counters.nextId ++ frame.drop (payloadOffset + 12))

/-- Copy, replace or drop a frame that ends at `stop`, by the type of its subrecord. -/
def rewriteFrame (edit : HeaderEdit) (state : RewriteState) (signature : Signature)
    (frame : Bytes) (payloadOffset stop : Nat) : Except CoreError RewriteState :=
  let masterData := state.followsMaster && signature = .DATA
  let state := { state with offset := stop, followsMaster := signature = .MAST }
  if signature = .HEDR ∧ !state.seenHedr then
    match updateHedr edit.counters frame payloadOffset with
    | .error reason => .error reason
    | .ok updated => .ok { state with output := state.output ++ updated, seenHedr := true }
  else if state.followsMaster ∧ edit.masters.isSome then
    if state.seenMasters then .ok state
    else .ok { state with
      output := state.output ++ appendMasters (edit.masters.getD []), seenMasters := true }
  else if masterData ∧ edit.masters.isSome then .ok state
  else if signature = .SNAM ∧ edit.description.isSome ∧ !state.seenDescription then
    .ok { state with
      output := state.output ++ appendString .SNAM (edit.description.getD ""),
      seenDescription := true }
  else .ok { state with output := state.output ++ frame }

/-- Find the source frame of one subrecord and rewrite it. -/
def rewriteStep (edit : HeaderEdit) (original : Bytes) (state : RewriteState)
    (subrecord : SubRecord) : Except CoreError RewriteState :=
  match subrecord.data with
  | .owned _ => .error (.invalidEncoding "plugin header subrecord has no original byte range")
  | .borrowed _ start stop =>
    match original.get state.offset stop with
    | none => .error (.unexpectedEof "plugin header subrecord frame")
    | some frame =>
      if start < state.offset then .error (.unexpectedEof "plugin header subrecord payload")
      else rewriteFrame edit state subrecord.signature frame (start - state.offset) stop

/-- The pass over all header subrecords. -/
def rewriteLoop (edit : HeaderEdit) (original : Bytes) :
    List SubRecord → RewriteState → Except CoreError RewriteState
  | [], state => .ok state
  | subrecord :: subrecords, state =>
    match rewriteStep edit original state subrecord with
    | .error reason => .error reason
    | .ok state => rewriteLoop edit original subrecords state

/-- The edits that found no subrecord to replace: they go to the end. -/
def appendMissing (edit : HeaderEdit) (state : RewriteState) : Bytes :=
  (match edit.description with
    | some description => if state.seenDescription then [] else appendString .SNAM description
    | none => []) ++
  (match edit.masters with
    | some masters => if state.seenMasters then [] else appendMasters masters
    | none => [])

/-- The new payload of a header record with known original payload and subrecords. -/
def rewritePayload (edit : HeaderEdit) (original : Bytes) (subrecords : List SubRecord) :
    Except CoreError Bytes :=
  match rewriteLoop edit original subrecords ⟨[], 0, false, false, false, false⟩ with
  | .error reason => .error reason
  | .ok state =>
    if !state.seenHedr then .error (.invalidEncoding "plugin header has no HEDR subrecord")
    else .ok (state.output ++ appendMissing edit state ++ original.drop state.offset)

/-- The index of the plugin itself: the length of the new master list, or of the parsed one. -/
def ownIndex (plugin : Plugin) (patch : Option PluginHeaderPatch) : Nat :=
  ((patch.bind (·.masters)).getD plugin.header.masters).length

/-- The counters of the plugin's groups; the next object ID is never lowered. -/
def headerCounters (plugin : Plugin) (patch : Option PluginHeaderPatch) :
    Except CoreError HedrCounters :=
  HedrCounters.countGroups (ownIndex plugin patch) plugin.groups.reverse
    ⟨0, max plugin.header.nextObjectId.val 0x801⟩

/-- The updated header payload. -/
def updatedPayload (inflate : Inflate) (plugin : Plugin) (patch : Option PluginHeaderPatch) :
    Except CoreError Bytes := do
  let counters ← headerCounters plugin patch
  let original ← plugin.header.record.rawData inflate
  let subrecords ← plugin.header.record.subrecords inflate
  rewritePayload ⟨counters, patch.bind (·.masters), patch.bind (·.description)⟩ original subrecords

/-- The header flags after a patch. -/
def patchedFlags (flags : UInt32) (patch : Option PluginHeaderPatch) : UInt32 :=
  match patch with
  | some patch =>
    (flags ||| (patch.flagsSet.map (·.bits)).getD 0) &&&
      ~~~(patch.flagsClear.map (·.bits)).getD 0
  | none => flags

/-- Whether the stored payload still is the compressed form of the new one. -/
def keepsPayload (inflate : Inflate) (record : Record) (flags : UInt32) (payload : Bytes) :
    Except CoreError Bool :=
  if flags &&& RecordFlags.COMPRESSED.bits ≠ 0 ∧ record.header.flags.contains .COMPRESSED then
    match record.rawData inflate with
    | .error reason => .error reason
    | .ok original => .ok (payload = original)
  else .ok false

/-- The source header with the payload kept or replaced, its size and the new flags; a payload
that is not kept is not marked as compressed. -/
def storeHeader (source : Bytes) (keep : Bool) (flags : UInt32) (payload : Bytes) :
    Except CoreError Bytes :=
  let flags := if keep then flags else flags &&& ~~~RecordFlags.COMPRESSED.bits
  let payload := if keep then source.drop 24 else payload
  if 2 ^ 32 ≤ payload.length then
    .error (.invalidEncoding "plugin header exceeds u32 size")
  else .ok (source.slice 0 4 ++ u32ToLeBytes (UInt32.ofNat payload.length) ++
    u32ToLeBytes flags ++ source.slice 12 24 ++ payload)

/-- The updated header record. -/
def writeUpdated (inflate : Inflate) (plugin : Plugin) (patch : Option PluginHeaderPatch) :
    Except CoreError Bytes :=
  match (plugin.source.get plugin.headerRange.start plugin.headerRange.stop).filter
      (24 ≤ ·.length) with
  | none => .error (.unexpectedEof "plugin header source range")
  | some source => do
    let payload ← updatedPayload inflate plugin patch
    let flags := patchedFlags (u32FromLeBytes (source.slice 8 12)) patch
    let keep ← keepsPayload inflate plugin.header.record flags payload
    storeHeader source keep flags payload

end Bethkit
