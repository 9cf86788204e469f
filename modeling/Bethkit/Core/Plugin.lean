import Bethkit.Core.Group

/-!
# Plugin files

A plugin is a header record followed by top-level groups. The header record's subrecords carry
the HEDR counters, the master list and the description.
-/

namespace Bethkit

open Lib SliceCursor

/-- Parsed contents of the header record. -/
structure PluginHeader where
  /-- The raw header record. -/
  record : Record
  /-- HEDR version, as the bits of its `f32`. -/
  hedrVersion : UInt32
  /-- Number of records declared in HEDR. -/
  recordCount : UInt32
  /-- Next available object ID as stored in HEDR. -/
  nextObjectId : FormId
  /-- Master plugin filenames from the MAST subrecords. -/
  masters : List String
  /-- Plugin description from SNAM. -/
  description : Option String
deriving DecidableEq

namespace PluginHeader

/-- The version, record count and next object ID of a HEDR payload; a missing or short one
counts as the defaults of the game. -/
def hedrFields (ctx : GameContext) (hedr : Option SubRecord) : UInt32 × UInt32 × FormId :=
  match hedr with
  | some subrecord =>
    let data := subrecord.asBytes
    if 12 ≤ data.length then
      (u32FromLeBytes (data.slice 0 4), u32FromLeBytes (data.slice 4 8),
        ⟨u32FromLeBytes (data.slice 8 12)⟩)
    else (ctx.hedrVersion, 0, .NULL)
  | none => (ctx.hedrVersion, 0, .NULL)

/-- The strings of the MAST subrecords; one that is not UTF-8 is skipped. -/
def masterNames (subrecords : List SubRecord) : List String :=
  subrecords.filterMap fun subrecord => subrecord.asZstring.toOption

/-- The first SNAM string, unless it is empty or not UTF-8. -/
def descriptionOf (snam : Option SubRecord) : Option String :=
  (snam.bind fun subrecord => subrecord.asZstring.toOption).filter (· ≠ "")

/-- The fields that `PluginHeader::parse` takes from the header record. -/
def ofRecord (inflate : Inflate) (ctx : GameContext) (record : Record) :
    Except CoreError PluginHeader := do
  let expectedSig := ctx.headerSignature
  if record.header.signature ≠ expectedSig then
    .error (.invalidSignature expectedSig.display record.header.signature.display)
  else do
    let hedr ← record.get inflate .HEDR
    let (hedrVersion, recordCount, nextObjectId) := hedrFields ctx hedr
    let mast ← record.getAll inflate .MAST
    let snam ← record.get inflate .SNAM
    pure { record, hedrVersion, recordCount, nextObjectId, masters := masterNames mast,
           description := descriptionOf snam }

/-- The header of a record whose subrecords are known. -/
def ofSubrecords (ctx : GameContext) (record : Record) (subrecords : List SubRecord) :
    PluginHeader :=
  let (hedrVersion, recordCount, nextObjectId) :=
    hedrFields ctx (subrecords.find? (·.signature = .HEDR))
  { record, hedrVersion, recordCount, nextObjectId,
    masters := masterNames (subrecords.filter (·.signature = .MAST)),
    description := descriptionOf (subrecords.find? (·.signature = .SNAM)) }

/-- A record is a plugin header when it has the signature of the game and its subrecords can be
read; nothing else about them is checked. -/
theorem ofRecord_eq_ok (inflate : Inflate) (ctx : GameContext) (record : Record)
    (header : PluginHeader) :
    ofRecord inflate ctx record = .ok header ↔
      record.header.signature = ctx.headerSignature ∧ ∃ subrecords,
        record.subrecords inflate = .ok subrecords ∧
          header = ofSubrecords ctx record subrecords := by
  unfold ofRecord
  by_cases signed : record.header.signature = ctx.headerSignature
  · simp only [signed, ne_eq, not_true_eq_false, ↓reduceIte, true_and, Record.get, Record.getAll]
    cases record.subrecords inflate with
    | error reason => simp [bind, Except.bind]
    | ok subrecords =>
      simp only [bind, Except.bind, pure, Except.pure, Except.ok.injEq, exists_eq_left',
        ofSubrecords]
      exact eq_comm
  · simp [signed]

/-- Parse the plugin header record. -/
def parse (inflate : Inflate) (ctx : GameContext) : Reader CoreError PluginHeader := do
  let record ← Record.parseHeader ctx
  Reader.lift (ofRecord inflate ctx record)

end PluginHeader

/-- A fully parsed plugin file. -/
structure Plugin where
  /-- The full file bytes. -/
  source : Bytes
  /-- Game context used to parse the plugin. -/
  ctx : GameContext
  /-- Parsed plugin header. -/
  header : PluginHeader
  /-- Where the header record stands in the source. -/
  headerRange : Range
  /-- All top-level groups. -/
  groups : List Group

/-- The group loop of `parse_bytes`: one top-level group after another until the end. -/
def parseGroupsLoop (ctx : GameContext) : Nat → Reader CoreError (List Group)
  | 0 => Reader.fail .outOfFuel
  | fuel + 1 => do
    let done ← Reader.inspect isEmpty
    if done then pure []
    else do
      let start ← Reader.inspect Cursor.pos
      let group ← Group.parse ctx
      let pos ← Reader.inspect Cursor.pos
      let groups ← parseGroupsLoop ctx fuel
      pure ({ group with sourceRange := some ⟨start, pos⟩ } :: groups)

namespace Plugin

/-- The parsing logic shared by all ways of opening a plugin. -/
def parseBytes (inflate : Inflate) (ctx : GameContext) :
    Reader CoreError (PluginHeader × Range × List Group) := do
  let headerStart ← Reader.inspect Cursor.pos
  let header ← PluginHeader.parse inflate ctx
  let headerEnd ← Reader.inspect Cursor.pos
  let length ← Reader.inspect fun cursor => cursor.data.length
  let groups ← parseGroupsLoop ctx (length + 1)
  pure (header, ⟨headerStart, headerEnd⟩, groups)

/-- Parse a plugin from its bytes. -/
def fromBytes (inflate : Inflate) (data : Bytes) (ctx : GameContext) : Except CoreError Plugin :=
  (parseBytes inflate ctx (SliceCursor.new data)).map fun ((header, headerRange, groups), _) =>
    { source := data, ctx, header, headerRange, groups }

/-- The functional type of the plugin. -/
def kind (plugin : Plugin) : PluginKind := plugin.header.record.pluginKind plugin.ctx

/-- Whether the plugin has externalized strings. -/
def isLocalized (plugin : Plugin) : Bool :=
  plugin.header.record.header.flags.contains .LOCALIZED

/-- The ordered list of master plugin filenames. -/
def masters (plugin : Plugin) : List String := plugin.header.masters

/-- The groups at all depths with their children, each before the groups inside it. -/
def allGroups (plugin : Plugin) : List (GroupInfo × List GroupChild) :=
  plugin.groups.flatMap fun group => group.toChild.nodes

/-- All records of the plugin in depth-first order. -/
def records (plugin : Plugin) : List Record := plugin.groups.flatMap Group.recordsRecursive

/-- The groups at all depths are the inner nodes of the top-level trees. -/
theorem allGroups_eq (plugin : Plugin) :
    plugin.allGroups = (plugin.groups.map Group.toChild).flatMap RoseTree.nodes := by
  rw [allGroups, List.flatMap_map]

/-- The records are the leaves of the top-level trees. -/
theorem records_eq (plugin : Plugin) :
    plugin.records = (plugin.groups.map Group.toChild).flatMap RoseTree.leaves := by
  rw [records, List.flatMap_map]
  exact List.flatMap_congr fun group _ => by
    rw [Group.recordsRecursive_eq, Group.toChild, RoseTree.leaves_node]

end Plugin

end Bethkit
