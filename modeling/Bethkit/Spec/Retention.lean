import Bethkit.Lib.Agreement
import Bethkit.Semantic.View

/-!
# Decoding without keeping containers

What it means that a decoder that discards containers runs in step with one that keeps them: they
take the same bytes, make the same selections and fail alike. Numbers are the same whenever an
expression can read them.
-/

namespace Bethkit

open Lib

/-- A value of a container. -/
def FieldValue.isContainer : FieldValue → Bool
  | .array _ | .struct _ => true
  | _ => false

/-- Two decoded values that differ only in a discarded container. -/
def ValuesAgree (discarded kept : FieldValue) : Prop :=
  discarded = kept ∨ discarded = .absent ∧ kept.isContainer

/-- Two decoded nodes that differ only in a discarded container. -/
structure Decoded.Agrees (discarded kept : Decoded) : Prop where
  /-- The values. -/
  value : ValuesAgree discarded.value kept.value
  /-- The bytes. -/
  consumed : discarded.consumed = kept.consumed
  /-- The selected variant. -/
  effectivePath : discarded.effectivePath = kept.effectivePath

/-- Two states that differ only in numbers that are not tracked and in codecs, which the decoder
never reads. -/
structure DecodeState.Agrees (track : Bool) (discarded kept : DecodeState) : Prop where
  /-- The numbers, if they are tracked. -/
  fieldValues : track = true → discarded.fieldValues = kept.fieldValues
  /-- The union selections. -/
  selections : discarded.selections = kept.selections

/-- Two frames that differ only in the values of siblings. -/
structure DecodeFrame.Agrees (discarded kept : DecodeFrame) : Prop where
  /-- The offset. -/
  offset : discarded.offset = kept.offset
  /-- The subrecord. -/
  sourceSubrecordIndex : discarded.sourceSubrecordIndex = kept.sourceSubrecordIndex
  /-- The positions in arrays. -/
  arrayIndices : discarded.arrayIndices = kept.arrayIndices

/-- Two results of a decoded node. -/
def NodesAgree (track : Bool) (discarded kept : Decoded × DecodeState) : Prop :=
  discarded.1.Agrees kept.1 ∧ discarded.2.Agrees track kept.2

/-- The nodes of a payload. -/
inductive SchemaNode.Within (payload : SchemaNode) : SchemaNode → Prop where
  /-- The payload itself. -/
  | here : Within payload payload
  /-- A child of a node. -/
  | child {node child : SchemaNode} : Within payload node → child ∈ node.children →
      Within payload child

namespace Semantic.RecordView

/-- The view that keeps everything. -/
def keeping (view : Semantic.RecordView) : Semantic.RecordView := { view with retention := .full }

/-- The view that discards containers. -/
def discarding (view : Semantic.RecordView) (track : Bool) : Semantic.RecordView :=
  { view with retention := .discard track }

/-- Decoders of an element that agree on agreeing frames and states. -/
def DecodersAgree (track : Bool)
    (decode other : Bytes → DecodeFrame → DecodeState →
      Except SemanticError (Decoded × DecodeState)) : Prop :=
  ∀ bytes frame otherFrame state otherState, frame.Agrees otherFrame →
    DecodeState.Agrees track state otherState →
    Agree (NodesAgree track) (decode bytes frame state) (other bytes otherFrame otherState)

end Semantic.RecordView

end Bethkit
