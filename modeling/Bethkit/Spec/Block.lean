import Bethkit.Core.Record

/-!
# The layout of a data block

The data block of a record is a list of frames: a subrecord together with the `XXXX` overrides
that stand before it. The last override gives the size of the payload, otherwise the 16-bit size
field does; several overrides, an override for a short payload and overrides after the last
subrecord are all legal. A frame carries the law that relates its payload to its sizes.
-/

namespace Bethkit

open Lib

namespace Layout

/-- The bytes of one size override. -/
def encodeOverride (size : UInt32) : Bytes :=
  Signature.XXXX.bytes.val ++ u16ToLeBytes 4 ++ u32ToLeBytes size

/-- The bytes of consecutive size overrides. -/
def encodeOverrides (sizes : List UInt32) : Bytes := sizes.flatMap encodeOverride

/-- The 6 bytes of a subrecord header. -/
def encodeFieldHeader (signature : Signature) (sizeField : UInt16) : Bytes :=
  signature.bytes.val ++ u16ToLeBytes sizeField

/-- An override occupies ten bytes. -/
@[simp]
theorem length_encodeOverride (size : UInt32) : (encodeOverride size).length = 10 := by
  simp [encodeOverride, Signature.XXXX]

/-- A subrecord header occupies six bytes. -/
@[simp]
theorem length_encodeFieldHeader (signature : Signature) (sizeField : UInt16) :
    (encodeFieldHeader signature sizeField).length = 6 := by
  simp [encodeFieldHeader, signature.bytes.property]

/-- The payload size that overrides and a size field announce. -/
def announcedSize (pending : Option UInt32) (sizeField : UInt16) : Nat :=
  match pending with
  | some real => real.toNat
  | none => sizeField.toNat

/-- A subrecord with the overrides before it. -/
structure Frame where
  /-- The sizes of the `XXXX` subrecords before this one. -/
  overrides : List UInt32
  /-- The subrecord type. -/
  signature : Signature
  /-- The 16-bit size field, ignored after an override. -/
  sizeField : UInt16
  /-- The payload. -/
  payload : Bytes
  /-- An override is no subrecord of its own. -/
  notOverride : signature ≠ .XXXX
  /-- The payload has the announced size. -/
  sized : payload.length = announcedSize overrides.getLast? sizeField

namespace Frame

/-- The bytes before the payload. -/
def lead (frame : Frame) : Bytes :=
  encodeOverrides frame.overrides ++ encodeFieldHeader frame.signature frame.sizeField

/-- The bytes of the frame. -/
def encode (frame : Frame) : Bytes := frame.lead ++ frame.payload

/-- What a reader of subrecords sees of the frame. -/
def value (frame : Frame) : Signature × Bytes := (frame.signature, frame.payload)

/-- The parsed subrecord of a frame that starts at an offset of a block. -/
def locate (frame : Frame) (data : Bytes) (start : Nat) : SubRecord :=
  ⟨frame.signature, .borrowed data (start + frame.lead.length) (start + frame.encode.length)⟩

/-- A frame occupies at least a subrecord header. -/
theorem length_encode_ge (frame : Frame) : 6 ≤ frame.encode.length := by
  simp [encode, lead]
  omega

end Frame

/-- The bytes of consecutive frames. -/
def encodeFrames (frames : List Frame) : Bytes := frames.flatMap Frame.encode

/-- The parsed subrecords of consecutive frames. -/
def locateFrames (data : Bytes) (start : Nat) : List Frame → List SubRecord
  | [] => []
  | frame :: frames =>
    frame.locate data start :: locateFrames data (start + frame.encode.length) frames

/-- The content of a data block. -/
structure Block where
  /-- The subrecords with their overrides. -/
  frames : List Frame
  /-- Overrides after the last subrecord. -/
  trailing : List UInt32

/-- The bytes of a block. -/
def Block.encode (block : Block) : Bytes :=
  encodeFrames block.frames ++ encodeOverrides block.trailing

/-- The subrecords of a block: their signatures and payloads. -/
def Block.values (block : Block) : List (Signature × Bytes) := block.frames.map Frame.value

/-- No frames, no bytes. -/
@[simp]
theorem encodeFrames_nil : encodeFrames [] = [] := rfl

/-- Consecutive frames stand one after the other. -/
@[simp]
theorem encodeFrames_cons (frame : Frame) (frames : List Frame) :
    encodeFrames (frame :: frames) = frame.encode ++ encodeFrames frames := rfl

/-- Frames are laid out list by list. -/
@[simp]
theorem encodeFrames_append (left right : List Frame) :
    encodeFrames (left ++ right) = encodeFrames left ++ encodeFrames right := by
  simp [encodeFrames]

/-- The payload of a located subrecord is the payload of its frame. -/
theorem asBytes_locate (frame : Frame) (before after : Bytes) :
    (frame.locate (before ++ (frame.encode ++ after)) before.length).asBytes = frame.payload := by
  have ends : before.length + frame.encode.length =
      (before ++ frame.lead).length + frame.payload.length := by
    simp [Frame.encode, Nat.add_assoc]
  simp only [Frame.locate, SubRecord.asBytes, SubRecordData.asBytes]
  rw [ends, ← List.length_append, Frame.encode, List.append_assoc, ← List.append_assoc,
    Bytes.slice_append]

/-- The subrecords of a block read as the values of its frames. -/
theorem values_locateFrames (frames : List Frame) (before after : Bytes) :
    (locateFrames (before ++ (encodeFrames frames ++ after)) before.length frames).map
        (fun subrecord => (subrecord.signature, subrecord.asBytes)) = frames.map Frame.value := by
  induction frames generalizing before with
  | nil => rfl
  | cons frame frames ih =>
    have tail := ih (before ++ frame.encode)
    simp only [List.append_assoc, List.length_append] at tail
    have head := asBytes_locate frame before (encodeFrames frames ++ after)
    simp only [locateFrames, encodeFrames_cons, List.append_assoc, List.map_cons, tail, head]
    rfl

end Layout

end Bethkit
