import Bethkit.Semantic.View

/-!
# What decoding an array costs

An array is decoded by a loop over its elements, and the vector for them is reserved before the
first one. Here are the arrays that the decoder reaches in a payload, the rounds that the loop over
an array begins, and what a payload may cost: no array reserves more elements than bytes remain
behind its prefix, and no loop begins more rounds than that.
-/

namespace Bethkit

open Lib

/-- A call of the decoder on an array. -/
structure ArrayCall where
  /-- The node. -/
  info : NodeInfo
  /-- The node of the elements. -/
  element : SchemaNode
  /-- The source of the count. -/
  count : ArrayCount
  /-- The bytes left. -/
  current : Bytes
  /-- Where the array is decoded. -/
  frame : DecodeFrame
  /-- What was collected before. -/
  state : DecodeState

namespace Semantic.RecordView

variable (view : Semantic.RecordView) (payload : Bytes)

/-- The loop over the elements goes on at a position: another element is wanted, the position is in
the bytes, and no callback stops. -/
structure GoesOn (call : ArrayCall) (elementCount : Option Nat) (decodedCount cursor : Nat) :
    Prop where
  /-- The count is not reached. -/
  wanted : elementCount.any (· ≤ decodedCount) = false
  /-- The bytes are not used up where that ends the loop. -/
  notEnded : ¬(cursor = call.current.length ∧
    (elementCount.isNone ∨ infoFragmentLimit (.array call.info call.element call.count)))
  /-- The position is in the bytes. -/
  inside : cursor ≤ call.current.length
  /-- The element is included. -/
  included : view.shouldIncludeArrayElement (.array call.info call.element call.count)
    (call.current.drop cursor) call.frame = .ok true

/-- Where the element with a number is decoded. -/
def elementFrame (frame : DecodeFrame) (decodedCount cursor : Nat) : DecodeFrame :=
  { frame with
    offset := frame.offset + cursor
    arrayIndices := frame.arrayIndices ++ [decodedCount] }

/-- The loop over the elements is at its head with a number of decoded elements, a position and a
state. -/
inductive AtHead (call : ArrayCall) (prefixSize : Nat) (elementCount : Option Nat) :
    Nat → Nat → DecodeState → Prop where
  /-- Before the first round. -/
  | first : AtHead call prefixSize elementCount 0 prefixSize call.state
  /-- Behind a round. -/
  | next {decodedCount cursor : Nat} {state after : DecodeState} {decoded : Decoded} :
    AtHead call prefixSize elementCount decodedCount cursor state →
    view.GoesOn call elementCount decodedCount cursor →
    decodeNode view payload call.element (call.current.drop cursor)
      (elementFrame call.frame decodedCount cursor) state = .ok (decoded, after) →
    ¬(decoded.consumed = 0 ∧ elementCount.isNone) →
    cursor + decoded.consumed ≤ call.current.length →
    AtHead call prefixSize elementCount (decodedCount + 1) (cursor + decoded.consumed) after

/-- The decoder begins the loop over the elements of an array: it has read the count and the prefix,
and the array is not skipped as a whole. -/
structure Enters (call : ArrayCall) (prefixSize : Nat) (elementCount : Option Nat) : Prop where
  /-- The prefix and the count. -/
  read : view.arrayPrefix (.array call.info call.element call.count) call.count payload
    call.current call.state.fieldValues call.frame = .ok (prefixSize, elementCount)
  /-- The prefix is in the bytes. -/
  inside : prefixSize ≤ call.current.length
  /-- The elements are decoded one by one. -/
  decoded : view.retention.arrayBytes call.element elementCount
    (call.current.length - prefixSize) = none

/-- The elements for which a vector is reserved. -/
def reserved (elementCount : Option Nat) : Nat :=
  if view.retention.materializes then elementCount.getD 0 else 0

mutual

/-- The decoder, decoding a node at the front of the bytes left, reaches an array. -/
inductive Reaches : SchemaNode → Bytes → DecodeFrame → DecodeState → ArrayCall → Prop where
  /-- The node itself. -/
  | array {info : NodeInfo} {element : SchemaNode} {count : ArrayCount} {current : Bytes}
    {frame : DecodeFrame} {state : DecodeState} :
    view.nodeApplies (.array info element count) payload state.fieldValues = .ok true →
    Reaches (.array info element count) current frame state
      ⟨info, element, count, current, frame, state⟩
  /-- An array in an element. -/
  | element {info : NodeInfo} {element : SchemaNode} {count : ArrayCount} {current : Bytes}
    {frame : DecodeFrame} {state before : DecodeState} {prefixSize decodedCount cursor : Nat}
    {elementCount : Option Nat} {call : ArrayCall} :
    view.nodeApplies (.array info element count) payload state.fieldValues = .ok true →
    view.Enters payload ⟨info, element, count, current, frame, state⟩ prefixSize elementCount →
    view.AtHead payload ⟨info, element, count, current, frame, state⟩ prefixSize elementCount
      decodedCount cursor before →
    view.GoesOn ⟨info, element, count, current, frame, state⟩ elementCount decodedCount cursor →
    Reaches element (current.drop cursor) (elementFrame frame decodedCount cursor) before call →
    Reaches (.array info element count) current frame state call
  /-- An array in a struct. -/
  | struct {info : NodeInfo} {fields : List SchemaNode} {current : Bytes} {frame : DecodeFrame}
    {state : DecodeState} {call : ArrayCall} :
    view.nodeApplies (.struct info fields) payload state.fieldValues = .ok true →
    ReachesIn current frame none fields 0 0 false [] state call →
    Reaches (.struct info fields) current frame state call
  /-- An array in a struct with optional fields. -/
  | optionalStruct {info : NodeInfo} {fields : List SchemaNode} {optionalFrom : UInt32}
    {current : Bytes} {frame : DecodeFrame} {state : DecodeState} {call : ArrayCall} :
    view.nodeApplies (.optionalStruct info fields optionalFrom) payload state.fieldValues =
      .ok true →
    ReachesIn current frame (some optionalFrom.toNat) fields 0 0 false [] state call →
    Reaches (.optionalStruct info fields optionalFrom) current frame state call
  /-- An array in the selected variant. -/
  | union {info : NodeInfo} {selector : UnionSelector} {variants : List SchemaNode}
    {variant : SchemaNode} {index : Nat} {current : Bytes} {frame : DecodeFrame}
    {state : DecodeState} {call : ArrayCall} :
    view.nodeApplies (.union info selector variants) payload state.fieldValues = .ok true →
    view.selectUnionIndex (.union info selector variants) selector payload current
      state.fieldValues frame = .ok index →
    variants[index]? = some variant →
    Reaches variant current frame state call →
    Reaches (.union info selector variants) current frame state call
  /-- An array before a terminator. -/
  | terminated {info : NodeInfo} {terminator : UInt8} {child : SchemaNode} {current : Bytes}
    {frame : DecodeFrame} {state : DecodeState} {call : ArrayCall} :
    view.nodeApplies (.terminated info terminator child) payload state.fieldValues = .ok true →
    Reaches child current frame state call →
    Reaches (.terminated info terminator child) current frame state call

/-- The decoder, decoding the fields of a struct from a position on, reaches an array. -/
inductive ReachesIn : Bytes → DecodeFrame → Option Nat → List SchemaNode → Nat → Nat → Bool →
    List NamedValue → DecodeState → ArrayCall → Prop where
  /-- In the first of them. -/
  | here {current : Bytes} {frame : DecodeFrame} {optionalFrom : Option Nat} {field : SchemaNode}
    {fields : List SchemaNode} {index cursor : Nat} {suffixAbsent : Bool}
    {values : List NamedValue} {state : DecodeState} {call : ArrayCall} :
    view.nodeApplies field payload state.fieldValues = .ok true →
    cursor ≤ current.length →
    optionalFieldMissing field (optionalFrom.any (· ≤ index)) suffixAbsent
      (current.drop cursor) = false →
    Reaches field (current.drop cursor)
      { frame with offset := frame.offset + cursor, siblingValues := values } state call →
    ReachesIn current frame optionalFrom (field :: fields) index cursor suffixAbsent values state
      call
  /-- Behind a field that is excluded. -/
  | excluded {current : Bytes} {frame : DecodeFrame} {optionalFrom : Option Nat}
    {field : SchemaNode} {fields : List SchemaNode} {index cursor : Nat} {suffixAbsent : Bool}
    {values : List NamedValue} {state : DecodeState} {call : ArrayCall} :
    view.nodeApplies field payload state.fieldValues = .ok false →
    ReachesIn current frame optionalFrom fields (index + 1) cursor suffixAbsent
      (view.keep values (absentMember field (frame.offset + cursor))) state call →
    ReachesIn current frame optionalFrom (field :: fields) index cursor suffixAbsent values state
      call
  /-- Behind an optional field that is missing. -/
  | missing {current : Bytes} {frame : DecodeFrame} {optionalFrom : Option Nat}
    {field : SchemaNode} {fields : List SchemaNode} {index cursor : Nat} {suffixAbsent : Bool}
    {values : List NamedValue} {state : DecodeState} {call : ArrayCall} :
    view.nodeApplies field payload state.fieldValues = .ok true →
    cursor ≤ current.length →
    optionalFieldMissing field (optionalFrom.any (· ≤ index)) suffixAbsent
      (current.drop cursor) = true →
    ReachesIn current frame optionalFrom fields (index + 1) cursor true
      (view.keep values (absentMember field (frame.offset + cursor))) state call →
    ReachesIn current frame optionalFrom (field :: fields) index cursor suffixAbsent values state
      call
  /-- Behind a decoded field. -/
  | behind {current : Bytes} {frame : DecodeFrame} {optionalFrom : Option Nat}
    {field : SchemaNode} {fields : List SchemaNode} {index cursor : Nat} {suffixAbsent : Bool}
    {values : List NamedValue} {state after : DecodeState} {decoded : Decoded}
    {call : ArrayCall} :
    view.nodeApplies field payload state.fieldValues = .ok true →
    cursor ≤ current.length →
    optionalFieldMissing field (optionalFrom.any (· ≤ index)) suffixAbsent
      (current.drop cursor) = false →
    decodeNode view payload field (current.drop cursor)
      { frame with offset := frame.offset + cursor, siblingValues := values } state =
        .ok (decoded, after) →
    ReachesIn current frame optionalFrom fields (index + 1) (cursor + decoded.consumed)
      suffixAbsent
      (view.keep values (.mk field.id field.path decoded.effectivePath field.name
        ⟨frame.offset + cursor, frame.offset + cursor + decoded.consumed⟩ decoded.value))
      after call →
    ReachesIn current frame optionalFrom (field :: fields) index cursor suffixAbsent values state
      call

end

/-- Decoding an array costs no more than its bytes: what is reserved for the elements, and the
rounds that are begun, are at most the bytes behind the prefix. -/
structure Bounded (call : ArrayCall) : Prop where
  /-- The reserved elements. -/
  reserves : ∀ prefixSize elementCount, view.Enters payload call prefixSize elementCount →
    view.reserved elementCount ≤ call.current.length - prefixSize
  /-- The rounds, counted from zero. -/
  rounds : ∀ prefixSize elementCount decodedCount cursor state,
    view.Enters payload call prefixSize elementCount →
    view.AtHead payload call prefixSize elementCount decodedCount cursor state →
    view.GoesOn call elementCount decodedCount cursor →
    decodedCount < call.current.length - prefixSize

/-- The count of an array is at most the number of bytes behind its prefix. -/
def CountFits (call : ArrayCall) : Prop :=
  ∀ prefixSize count, view.Enters payload call prefixSize (some count) →
    count ≤ call.current.length - prefixSize

end Semantic.RecordView

end Bethkit
