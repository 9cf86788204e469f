import Bethkit.Core.PatcherHeader
import Bethkit.Spec.Block
import Bethkit.Spec.Layout

/-!
# The edits of a header

What a header update does, stated on the list of subrecords: the first HEDR gets new counters,
the first SNAM is replaced or one is appended, and the MAST and DATA pairs are replaced where the
first MAST stood. A part is a frame that is kept as it stands, or a subrecord written anew.
-/

namespace Bethkit

namespace Layout

/-- A subrecord of an edited block. -/
inductive Part where
  /-- A source frame. -/
  | kept (frame : Frame)
  /-- A subrecord written anew. -/
  | fresh (subrecord : WritableSubRecord)

namespace Part

/-- The subrecord type. -/
def signature : Part → Signature
  | .kept frame => frame.signature
  | .fresh subrecord => subrecord.signature

/-- The bytes of the part. -/
def encode : Part → Bytes
  | .kept frame => frame.encode
  | .fresh subrecord => subrecord.writeTo

/-- What a reader of subrecords sees of the part. -/
def value : Part → Signature × Bytes
  | .kept frame => frame.value
  | .fresh subrecord => (subrecord.signature, subrecord.data)

end Part

/-- The bytes of consecutive parts. -/
def encodeParts (parts : List Part) : Bytes := parts.flatMap Part.encode

/-- Parts are laid out list by list. -/
@[simp]
theorem encodeParts_append (left right : List Part) :
    encodeParts (left ++ right) = encodeParts left ++ encodeParts right := by
  simp [encodeParts]

/-- New counters in bytes 4 to 12 of a HEDR payload that is long enough. -/
def Frame.withCounters (counters : HedrCounters) (frame : Frame) : Frame :=
  if long : 12 ≤ frame.payload.length then
    { frame with
      payload := frame.payload.take 4 ++ u32ToLeBytes counters.recordCount ++
        u32ToLeBytes counters.nextId ++ frame.payload.drop 12
      sized := by
        rw [← frame.sized]
        simp only [List.length_append, List.length_take, length_u32ToLeBytes, List.length_drop]
        omega }
  else frame

/-- New counters in a part. -/
def Part.withCounters (counters : HedrCounters) : Part → Part
  | .kept frame => .kept (frame.withCounters counters)
  | .fresh subrecord => .fresh subrecord

/-- New counters do not change the subrecord type. -/
@[simp]
theorem Part.signature_withCounters (counters : HedrCounters) (part : Part) :
    (part.withCounters counters).signature = part.signature := by
  cases part with
  | fresh subrecord => rfl
  | kept frame =>
    simp only [withCounters, signature, Frame.withCounters]
    split <;> rfl

/-- Change the first part with a signature. -/
def changeFirst (signature : Signature) (change : Part → Part) : List Part → List Part
  | [] => []
  | part :: parts =>
    if part.signature = signature then change part :: parts
    else part :: changeFirst signature change parts

/-- Replace the first part with a signature, or append the replacement. -/
def replaceOrAppend (signature : Signature) (new : Part) : List Part → List Part
  | [] => [new]
  | part :: parts =>
    if part.signature = signature then new :: parts
    else part :: replaceOrAppend signature new parts

/-- Drop every MAST and every DATA that stands right after a MAST. -/
def withoutMasters : Bool → List Part → List Part
  | _, [] => []
  | follows, part :: parts =>
    if part.signature = .MAST then withoutMasters true parts
    else if follows ∧ part.signature = .DATA then withoutMasters false parts
    else part :: withoutMasters false parts

/-- Put new parts where the first MAST stands, or at the end, and drop the old masters. -/
def spliceMasters (new : List Part) : List Part → List Part
  | [] => new
  | part :: parts =>
    if part.signature = .MAST then new ++ withoutMasters true parts
    else part :: spliceMasters new parts

/-- The parts of a replacement description. -/
def descriptionPart (description : String) : Part :=
  .fresh ⟨.SNAM, strAsBytes description ++ [0]⟩

/-- The parts of a replacement master list. -/
def masterParts (masters : List String) : List Part :=
  (masters.flatMap PluginWriter.masterSubRecords).map .fresh

/-- The edits of a header update. -/
def editParts (edit : HeaderEdit) (parts : List Part) : List Part :=
  let counted := changeFirst .HEDR (Part.withCounters edit.counters) parts
  let described := match edit.description with
    | some description => replaceOrAppend .SNAM (descriptionPart description) counted
    | none => counted
  match edit.masters with
  | some masters => spliceMasters (masterParts masters) described
  | none => described

/-- The first HEDR has room for the counters. -/
def HedrReady (frames : List Frame) : Prop :=
  ∃ frame, frames.find? (·.signature = .HEDR) = some frame ∧ 12 ≤ frame.payload.length

/-- The payload of an edited header: its parts and the overrides that trailed the block. -/
def editedPayload (edit : HeaderEdit) (block : Block) : Bytes :=
  encodeParts (editParts edit (block.frames.map .kept)) ++ encodeOverrides block.trailing

/-- The stored block is kept when the patched flags and the source agree that it is compressed
and the edits changed nothing. -/
def keepsCompressed (edit : HeaderEdit) (patch : Option PluginHeaderPatch) (raw : RawRecord)
    (block : Block) : Bool :=
  patchedFlags raw.flags.bits patch &&& RecordFlags.COMPRESSED.bits ≠ 0 ∧
    raw.flags.contains .COMPRESSED ∧ editedPayload edit block = block.encode

/-- The block stored by a header update. -/
def updatedBlock (edit : HeaderEdit) (patch : Option PluginHeaderPatch) (raw : RawRecord)
    (block : Block) : Bytes :=
  if keepsCompressed edit patch raw block then raw.block else editedPayload edit block

/-- The flags stored by a header update. -/
def updatedFlags (edit : HeaderEdit) (patch : Option PluginHeaderPatch) (raw : RawRecord)
    (block : Block) : RecordFlags :=
  if keepsCompressed edit patch raw block then ⟨patchedFlags raw.flags.bits patch⟩
  else ⟨patchedFlags raw.flags.bits patch &&& ~~~RecordFlags.COMPRESSED.bits⟩

/-- Without its bit a flag word is not compressed. -/
theorem contains_clear (bits : UInt32) :
    (RecordFlags.mk (bits &&& ~~~RecordFlags.COMPRESSED.bits)).contains .COMPRESSED = false := by
  have disjoint : ~~~RecordFlags.COMPRESSED.bits &&& RecordFlags.COMPRESSED.bits = 0 := by decide
  rw [RecordFlags.contains, UInt32.and_assoc, disjoint, UInt32.and_zero]
  rfl

/-- The header record stored by an update whose block fits the size field. -/
def updatedRecord (edit : HeaderEdit) (patch : Option PluginHeaderPatch) (raw : RawRecord)
    (block : Block) (sized : (updatedBlock edit patch raw block).length < 2 ^ 32) : RawRecord :=
  { raw with
    flags := updatedFlags edit patch raw block
    block := updatedBlock edit patch raw block
    sized := sized
    compressed := by
      unfold updatedFlags updatedBlock
      cases keeps : keepsCompressed edit patch raw block with
      | true =>
        simp only [keepsCompressed, decide_eq_true_eq] at keeps
        exact fun _ => raw.compressed keeps.2.1
      | false => simp [contains_clear] }

/-- The strings that a patch writes. -/
def newStrings (patch : Option PluginHeaderPatch) : List String :=
  (patch.bind (·.description)).toList ++ (patch.bind (·.masters)).getD []

/-- Every new string is short enough for a subrecord, with its terminator. -/
def StringsFit (patch : Option PluginHeaderPatch) : Prop :=
  ∀ text ∈ newStrings patch, (strAsBytes text).length + 1 < 2 ^ 32

instance (patch : Option PluginHeaderPatch) : Decidable (StringsFit patch) :=
  inferInstanceAs (Decidable (∀ text ∈ newStrings patch, (strAsBytes text).length + 1 < 2 ^ 32))

/-- The edits of a patch with the counters of its plugin. -/
def patchEdit (counters : HedrCounters) (patch : Option PluginHeaderPatch) : HeaderEdit :=
  ⟨counters, patch.bind (·.masters), patch.bind (·.description)⟩

end Layout

end Bethkit
