import Bethkit.Core.Record
import Bethkit.Lib.Forest

/-!
# GRUP blocks

A group is a 24-byte header and its children, which are records and nested groups. The label is
interpreted by the group type. Children are parsed until the boundary that the header declares;
a child may run past it, and the boundary is checked afterwards. Source ranges are captured from
the cursor around every child.
-/

namespace Bethkit

open Lib SliceCursor

/-- The type of a group, which determines how its label is interpreted. -/
inductive GroupType where
  | normal | worldChildren | interiorCellBlock | interiorCellSubBlock | exteriorCellBlock
  | exteriorCellSubBlock | cellChildren | topicChildren | cellPersistentChildren
  | cellTemporaryChildren | cellVisibleDistantChildren
deriving DecidableEq

namespace GroupType

/-- The raw `i32` stored in the file. -/
def toRaw : GroupType → Int32
  | .normal => 0
  | .worldChildren => 1
  | .interiorCellBlock => 2
  | .interiorCellSubBlock => 3
  | .exteriorCellBlock => 4
  | .exteriorCellSubBlock => 5
  | .cellChildren => 6
  | .topicChildren => 7
  | .cellPersistentChildren => 8
  | .cellTemporaryChildren => 9
  | .cellVisibleDistantChildren => 10

/-- The group type of a raw value; unknown values are refused. -/
def fromRaw (value : Int32) : Except CoreError GroupType :=
  match value.toInt with
  | 0 => .ok .normal
  | 1 => .ok .worldChildren
  | 2 => .ok .interiorCellBlock
  | 3 => .ok .interiorCellSubBlock
  | 4 => .ok .exteriorCellBlock
  | 5 => .ok .exteriorCellSubBlock
  | 6 => .ok .cellChildren
  | 7 => .ok .topicChildren
  | 8 => .ok .cellPersistentChildren
  | 9 => .ok .cellTemporaryChildren
  | 10 => .ok .cellVisibleDistantChildren
  | _ => .error (.invalidGroupType value)

/-- Every stored group type is read back. -/
@[simp]
theorem fromRaw_toRaw (groupType : GroupType) : fromRaw groupType.toRaw = .ok groupType := by
  cases groupType <;> rfl

/-- An accepted raw value is the stored form of its type. -/
theorem toRaw_of_fromRaw {value : Int32} {groupType : GroupType}
    (accepted : fromRaw value = .ok groupType) : groupType.toRaw = value := by
  apply Int32.toInt_inj.mp
  unfold fromRaw at accepted
  split at accepted
  all_goals first
    | contradiction
    | rename_i known
      obtain rfl := Except.ok.inj accepted
      rw [known]
      rfl

/-- The values from 0 to 10 are the accepted ones. -/
theorem fromRaw_of_range {value : Int32} (low : 0 ≤ value.toInt) (high : value.toInt ≤ 10) :
    ∃ groupType, fromRaw value = .ok groupType := by
  unfold fromRaw
  generalize value.toInt = raw at low high
  interval_cases raw <;> exact ⟨_, rfl⟩

end GroupType

/-- The label of a group header, interpreted according to the group type. -/
inductive GroupLabel where
  /-- A record signature (top-level groups). -/
  | signature (sig : Signature)
  /-- The FormID of the parent record (world, topic and cell children). -/
  | formId (id : FormId)
  /-- An exterior cell grid coordinate. -/
  | gridCell (x y : Int16)
  /-- An interior block number. -/
  | blockNumber (number : Int32)
deriving DecidableEq

namespace GroupLabel

/-- Interpret the raw 4-byte label. The file stores Y before X. -/
def fromRaw (raw : Fixed 4) (groupType : GroupType) : GroupLabel :=
  match groupType with
  | .normal => .signature ⟨raw⟩
  | .worldChildren | .cellChildren | .topicChildren | .cellPersistentChildren
  | .cellTemporaryChildren | .cellVisibleDistantChildren => .formId ⟨u32FromLeBytes raw.val⟩
  | .exteriorCellBlock | .exteriorCellSubBlock =>
    let y := (u16FromLeBytes (raw.val.take 2)).toInt16
    let x := (u16FromLeBytes (raw.val.drop 2)).toInt16
    .gridCell x y
  | .interiorCellBlock | .interiorCellSubBlock => .blockNumber (i32FromLeBytes raw.val)

/-- The label bytes that `write_group_header` emits. -/
def toBytes : GroupLabel → Bytes
  | .signature sig => sig.bytes.val
  | .formId id => u32ToLeBytes id.val
  | .gridCell x y => u16ToLeBytes y.toUInt16 ++ u16ToLeBytes x.toUInt16
  | .blockNumber number => i32ToLeBytes number

/-- A label occupies four bytes. -/
@[simp]
theorem length_toBytes (label : GroupLabel) : label.toBytes.length = 4 := by
  cases label with
  | signature sig => exact sig.bytes.property
  | formId id => simp [toBytes]
  | gridCell x y => simp [toBytes]
  | blockNumber number => simp [toBytes]

/-- Emitting an interpreted label gives back the raw bytes, for every group type. -/
@[simp]
theorem toBytes_fromRaw (raw : Fixed 4) (groupType : GroupType) :
    (fromRaw raw groupType).toBytes = raw.val := by
  have length := raw.property
  have word := u32ToLeBytes_fromLeBytes raw.val length
  have signed := i32ToLeBytes_fromLeBytes raw.val length
  have halves : u16ToLeBytes (u16FromLeBytes (raw.val.take 2)) ++
      u16ToLeBytes (u16FromLeBytes (raw.val.drop 2)) = raw.val := by
    rw [u16ToLeBytes_fromLeBytes _ (by simp [length]), u16ToLeBytes_fromLeBytes _ (by simp [length]),
      List.take_append_drop]
  cases groupType <;> simp [fromRaw, toBytes, word, signed, halves]

end GroupLabel

/-- The 24-byte header of a group. -/
structure GroupHeader where
  /-- Total size in bytes, including the header. -/
  groupSize : UInt32
  /-- Interpreted label. -/
  label : GroupLabel
  /-- The group type. -/
  groupType : GroupType
  /-- Version control information, not interpreted. -/
  versionControl : UInt32
  /-- Trailing field of unknown purpose, preserved verbatim. -/
  unknown : UInt32
deriving DecidableEq

/-- What a group carries beside its children. -/
structure GroupInfo where
  /-- Parsed header. -/
  header : GroupHeader
  /-- Where the group stands in the plugin source, if it was parsed from one. -/
  sourceRange : Option Range
deriving DecidableEq

/-- A child of a group: a record (a leaf) or a nested group (an inner node). -/
abbrev GroupChild : Type := RoseTree GroupInfo Record

/-- A group with its parsed children. -/
structure Group extends GroupInfo where
  /-- Records and nested groups in file order. -/
  children : List GroupChild

namespace Group

/-- The group as a child of another one. -/
def toChild (group : Group) : GroupChild := .node group.toGroupInfo group.children

/-- The group that an inner node stands for. -/
def ofNode (node : GroupInfo × List GroupChild) : Group := { node.1 with children := node.2 }

/-- All direct child records. -/
def records (group : Group) : List Record :=
  group.children.filterMap fun
    | .leaf record => some record
    | .node _ _ => none

/-- All direct child groups. -/
def subgroups (group : Group) : List Group :=
  group.children.filterMap fun
    | .leaf _ => none
    | .node info children => some (ofNode (info, children))

/-- All records in this group and in all nested groups, as `RecordsIter` yields them. -/
def recordsRecursive (group : Group) : List Record := RoseTree.drain [(group.children, 0)]

/-- The iterator yields the records below the group in depth-first order. -/
theorem recordsRecursive_eq (group : Group) :
    group.recordsRecursive = group.children.flatMap RoseTree.leaves := RoseTree.drain_start _

/-- The original bytes of this group, if its range lies in `source`. -/
def sourceBytes (group : Group) (source : Bytes) : Option Bytes := do
  let range ← group.sourceRange
  source.get range.start range.stop

end Group

/-- Size in bytes of a group header. -/
def GROUP_HEADER_SIZE : Nat := 24

/-- The end of `parse_children`: the cursor must stand exactly on the group boundary. -/
def finishChildren (stop : Nat) (loop : Reader CoreError (List GroupChild)) :
    Reader CoreError (List GroupChild) := do
  let children ← loop
  let pos ← Reader.inspect Cursor.pos
  if pos < stop then Reader.fail (.unexpectedEof "group children ended before group boundary")
  else if stop < pos then Reader.fail (.unexpectedEof "group children overshot group boundary")
  else pure children

/-- `Group::parse` over a parser of the children up to an end offset. -/
def Group.parseWith (parseChildren : Nat → Reader CoreError (List GroupChild)) :
    Reader CoreError Group := do
  let groupStart ← Reader.inspect Cursor.pos
  let sigBytes ← io (readArray 4)
  if (⟨sigBytes⟩ : Signature) ≠ .GRUP then
    Reader.fail (.invalidSignature Signature.GRUP.display (Signature.mk sigBytes).display)
  else do
    let groupSize ← io readU32
    let labelRaw ← io (readArray 4)
    let groupTypeRaw ← io readI32
    let versionControl ← io readU32
    let unknown ← io readU32
    let groupType ← Reader.lift (GroupType.fromRaw groupTypeRaw)
    let header : GroupHeader :=
      { groupSize, label := .fromRaw labelRaw groupType, groupType, versionControl, unknown }
    let childrenEnd := groupStart + groupSize.toNat
    let children ← parseChildren childrenEnd
    pure { header, sourceRange := none, children }

/-- One pass of the loop of `parse_children`: the child at the cursor with its source range, or
nothing when no signature is left. -/
def parseChild (ctx : GameContext) (parseGroup : Reader CoreError Group) :
    Reader CoreError (Option GroupChild) := do
  let sigBytes ← Reader.inspect (peekBytes 4)
  let start ← Reader.inspect Cursor.pos
  match sigBytes with
  | none => pure none
  | some bytes =>
    if bytes = Signature.GRUP.bytes.val then do
      let group ← parseGroup
      let pos ← Reader.inspect Cursor.pos
      pure (some { group with sourceRange := some ⟨start, pos⟩ : Group }.toChild)
    else do
      let record ← Record.parseHeader ctx
      let pos ← Reader.inspect Cursor.pos
      pure (some (.leaf { record with sourceRange := some ⟨start, pos⟩ }))

/-- The loop of `parse_children`: one child after another until the cursor reaches `stop`. -/
def parseChildrenLoop (ctx : GameContext) : Nat → Nat → Reader CoreError (List GroupChild)
  | 0, _ => Reader.fail .outOfFuel
  | fuel + 1, stop => do
    let pos ← Reader.inspect Cursor.pos
    if pos < stop then do
      let child ← parseChild ctx <| Group.parseWith fun inner =>
        finishChildren inner (parseChildrenLoop ctx fuel inner)
      match child with
      | none => pure []
      | some child => do
        let children ← parseChildrenLoop ctx fuel stop
        pure (child :: children)
    else pure []

/-- `parse_children`, bounded by one step for every byte of the input. -/
def parseChildren (ctx : GameContext) (stop : Nat) : Reader CoreError (List GroupChild) :=
  fun cursor => finishChildren stop (parseChildrenLoop ctx (cursor.data.length + 1) stop) cursor

/-- `Group::parse`: a group with all nested children. -/
def Group.parse (ctx : GameContext) : Reader CoreError Group := Group.parseWith (parseChildren ctx)

end Bethkit
