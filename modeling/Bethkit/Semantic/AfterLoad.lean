import Bethkit.Lib.Chunks
import Bethkit.Semantic.Handler
import Bethkit.Semantic.Legacy

/-!
# Migrations after loading

Built-in callbacks bring old records up to date when an editor is opened on them. A path grid of
Oblivion keeps its points in one subrecord and their connections in another, one group of
connections after the other: a point is sixteen bytes and counts its connections in one of them.
Unused connections at the end of a group are dropped. An NPC of Fallout keeps the keys of its morphs
in one subrecord and their values in another; both are brought into the order of the master record.
-/

namespace Bethkit

open Lib

/-- A panic of the source. -/
inductive Panic where
  /-- A slice that ends outside its bytes. -/
  | sliceOutOfRange
  /-- An index outside its bytes. -/
  | indexOutOfRange
  /-- `expect` on a value that is absent. -/
  | expect (message : String)
deriving DecidableEq

namespace Panic

/-- `&bytes[start..stop]`. -/
def slice (bytes : Bytes) (start stop : Nat) : Except Panic Bytes :=
  match bytes.get start stop with
  | some part => .ok part
  | none => .error sliceOutOfRange

/-- `bytes[index] = byte`. -/
def assign (bytes : Bytes) (index : Nat) (byte : UInt8) : Except Panic Bytes :=
  if index < bytes.length then .ok (bytes.set index byte) else .error indexOutOfRange

/-- `u8::try_from(value).expect(message)`. -/
def expectU8 (value : Nat) (message : String) : Except Panic UInt8 :=
  if value < 256 then .ok (UInt8.ofNat value) else .error (expect message)

end Panic

/-- The connections that a point counts. -/
def pointCount (point : Bytes) : Nat := (point.getD 12 0).toNat

/-- The connections that all points count. -/
def expectedConnections (points : Bytes) : Nat := ((asChunks 16 points).map pointCount).sum

/-- The state of the loop over the points. -/
structure NormalizedConnections where
  /-- The points, with new counts so far. -/
  points : Bytes
  /-- The connections that are kept so far. -/
  connections : Bytes
  /-- Where the next group begins. -/
  sourceOffset : Nat
  /-- Whether connections were dropped. -/
  changed : Bool

/-- One round of the loop: the point with its index. -/
def normalizePoint (connections : Bytes) (state : NormalizedConnections) (point : Bytes × Nat) :
    Except Panic NormalizedConnections := do
  let count := pointCount point.1
  let stop := state.sourceOffset + count * 2
  let connectionGroup ← Panic.slice connections state.sourceOffset stop
  let last := rposition (· != [0xFF, 0xFF]) (asChunks 2 connectionGroup)
  let retainedLen := (last.map (· + 1)).getD 0
  let points ←
    if retainedLen ≠ count then do
      let byte ← Panic.expectU8 retainedLen "retained PGRR count fits its source byte"
      Panic.assign state.points (point.2 * 16 + 12) byte
    else .ok state.points
  let retained ← Panic.slice connectionGroup 0 (retainedLen * 2)
  .ok {
    points
    connections := state.connections ++ retained
    sourceOffset := stop
    changed := state.changed || retainedLen ≠ count }

/-- Drop the unused connections at the end of every group. The product saturates in the source, and
a saturated product is the length of no slice. -/
def normalizeOblivionPointConnections (points connections : Bytes) :
    Except Panic (Option (Bytes × Bytes)) :=
  if points.length % 16 ≠ 0 ∨ connections.length % 2 ≠ 0 then .ok none
  else if expectedConnections points * 2 ≠ connections.length then .ok none
  else do
    let state ← (asChunks 16 points).zipIdx.foldlM (normalizePoint connections)
      ⟨points, [], 0, false⟩
    .ok (if state.changed then some (state.points, state.connections) else none)

/-- The payload of the first subrecord with a signature. -/
def WritableRecord.firstPayload (record : WritableRecord) (signature : Signature) : Option Bytes :=
  (record.subrecords.find? (·.signature = signature)).map (·.data)

/-- The signature of morph keys. -/
def morphKeysSignature : Signature := .ofBytes 0x4D 0x53 0x44 0x4B

/-- The signature of morph values. -/
def morphValuesSignature : Signature := .ofBytes 0x4D 0x53 0x44 0x56

/-- The keys in a payload. -/
def morphKeys (data : Bytes) : List UInt32 := (asChunks 4 data).map u32FromLeBytes

/-- The positions of the master keys; nothing when a key is listed twice. -/
def masterPositions (masterKeys : List UInt32) : Option (Std.TreeMap UInt32 Nat) :=
  masterKeys.zipIdx.foldlM (fun positions key =>
    if positions.contains key.1 then none else some (positions.insert key.1 key.2)) ∅

/-- The state of the loop over the keys of a record. -/
structure MorphOrders where
  /-- The orders of the keys so far. -/
  sortOrders : List Nat
  /-- The order of the next key that the master does not have. -/
  nextUnknown : Nat
  /-- Whether a key of the master stands in another place. -/
  needsSort : Bool

/-- One round of the loop: the key with its index. -/
def orderMorph (positions : Std.TreeMap UInt32 Nat) (orders : MorphOrders) (key : UInt32 × Nat) :
    MorphOrders :=
  match positions[key.1]? with
  | some order =>
    { orders with
      sortOrders := orders.sortOrders ++ [order]
      needsSort := orders.needsSort || order ≠ key.2 }
  | none =>
    { orders with
      sortOrders := orders.sortOrders ++ [orders.nextUnknown]
      nextUnknown := orders.nextUnknown + 1 }

/-- The positions of the keys in the order of their orders. -/
def sortedIndices (sortOrders : List Nat) (count : Nat) : List Nat :=
  (List.range count).insertionSort fun first second =>
    sortOrders.getD first 0 ≤ sortOrders.getD second 0

/-- The entries of four bytes at some positions. -/
def reorderEntries (indices : List Nat) (data : Bytes) : Except Panic Bytes := do
  let entries ← indices.mapM fun index => Panic.slice data (index * 4) (index * 4 + 4)
  .ok entries.flatten

/-- Bring the morphs of a record into the order of the master keys. -/
def appendFalloutNpcMorphMutations (mutations : List HandlerMutation) (record : WritableRecord)
    (masterKeys : List UInt32) (keysPath valuesPath : String) :
    Except Panic (List HandlerMutation) :=
  match record.firstPayload morphKeysSignature, record.firstPayload morphValuesSignature with
  | some keys, some values =>
    if keys.length % 4 ≠ 0 ∨ values.length % 4 ≠ 0 ∨ keys.length ≠ values.length ∨
        keys.length / 4 < masterKeys.length then .ok mutations
    else
      match masterPositions masterKeys with
      | none => .ok mutations
      | some positions => do
        let currentKeys := morphKeys keys
        let orders := currentKeys.zipIdx.foldl (orderMorph positions) ⟨[], masterKeys.length, false⟩
        if !orders.needsSort ∨ orders.nextUnknown ≠ currentKeys.length then .ok mutations
        else do
          let indices := sortedIndices orders.sortOrders currentKeys.length
          let newKeys ← reorderEntries indices keys
          let newValues ← reorderEntries indices values
          .ok (mutations ++
            [.replacePayload keysPath 0 newKeys, .replacePayload valuesPath 0 newValues])
  | _, _ => .ok mutations

end Bethkit
