import Bethkit.Semantic.AfterLoad

/-!
# Path grids

What the two subrecords of a path grid say: a list of points, each with the connections that it
counts. Trimming a path grid drops the unused connections at the end of every group and counts what
is left.
-/

namespace Bethkit

open Lib

/-- An unused connection. -/
def unusedConnection : UInt16 := 0xFFFF

/-- A point of a path grid with its connections. -/
structure GridPoint where
  /-- The bytes of the point. -/
  bytes : Bytes
  /-- The connections of the point. -/
  connections : List UInt16
  /-- A point is sixteen bytes. -/
  sized : bytes.length = 16
  /-- A point counts its connections. -/
  counted : pointCount bytes = connections.length

namespace GridPoint

/-- The connections up to the last one that is used. -/
def used (point : GridPoint) : List UInt16 := point.connections.rdropWhile (· == unusedConnection)

/-- The group ends in an unused connection. -/
def EndsUnused (point : GridPoint) : Prop := point.connections.getLast? = some unusedConnection

/-- The bytes of the connections. -/
def connectionBytes (point : GridPoint) : Bytes := point.connections.flatMap u16ToLeBytes

/-- There are no more used connections than connections. -/
theorem length_used_le (point : GridPoint) : point.used.length ≤ point.connections.length :=
  (List.rdropWhile_prefix _ _).length_le

/-- A point has fewer connections than a byte has values. -/
theorem length_connections_lt (point : GridPoint) : point.connections.length < 256 := by
  rw [← point.counted]
  exact UInt8.toNat_lt _

/-- The point with its used connections only. -/
def trimmed (point : GridPoint) : GridPoint where
  bytes := point.bytes.set 12 (UInt8.ofNat point.used.length)
  connections := point.used
  sized := by rw [List.length_set, point.sized]
  counted := by
    have below := point.length_connections_lt
    have fewer := point.length_used_le
    have inside : 12 < point.bytes.length := by
      rw [point.sized]
      decide
    rw [pointCount, List.getD_eq_getElem?_getD, List.getElem?_set_self inside, Option.getD_some,
      UInt8.toNat_ofNat']
    omega

end GridPoint

/-- A path grid: its points in order. -/
abbrev PathGrid : Type := List GridPoint

namespace PathGrid

/-- The bytes of the points. -/
def pointBytes (grid : PathGrid) : Bytes := grid.flatMap (·.bytes)

/-- The bytes of the connections. -/
def connectionBytes (grid : PathGrid) : Bytes := grid.flatMap (·.connectionBytes)

/-- The grid with the used connections only. -/
def trimmed (grid : PathGrid) : PathGrid := grid.map (·.trimmed)

/-- Some group ends in an unused connection. -/
def HasUnused (grid : PathGrid) : Prop := ∃ point ∈ grid, point.EndsUnused

/-- Two subrecords hold a path grid. -/
def Holds (grid : PathGrid) (points connections : Bytes) : Prop :=
  grid.pointBytes = points ∧ grid.connectionBytes = connections

end PathGrid

/-!
## Morphs in the order of their master

A record keeps the keys of its morphs in one subrecord and their values in another. Bringing them
into the order of the master keys puts the master keys first, and moves every value with its key.
-/

/-- The keys with their values. -/
def morphPairs (keys values : Bytes) : List (UInt32 × Bytes) :=
  (morphKeys keys).zip (asChunks 4 values)

/-- The payloads after the morphs were brought into the order of the master keys. -/
structure InMasterOrder (masterKeys : List UInt32) (keys values newKeys newValues : Bytes) :
    Prop where
  /-- The keys start with the master keys in master order. -/
  starts : masterKeys <+: morphKeys newKeys
  /-- The remaining keys, with their values, follow in their original order. -/
  follows : (morphPairs newKeys newValues).drop masterKeys.length =
    (morphPairs keys values).filter fun pair => pair.1 ∉ masterKeys
  /-- Every value has the key that it had. -/
  paired : (morphPairs newKeys newValues).Perm (morphPairs keys values)
  /-- There are as many values as keys. -/
  whole : newKeys.length = keys.length ∧ newValues.length = values.length

namespace WritableRecord

/-- The subrecords with a new payload of the first one with a signature. -/
def replaceFirstIn (signature : Signature) (data : Bytes) :
    List WritableSubRecord → List WritableSubRecord
  | [] => []
  | subrecord :: subrecords =>
    if subrecord.signature = signature then { subrecord with data } :: subrecords
    else subrecord :: replaceFirstIn signature data subrecords

/-- The record with a new payload of the first subrecord with a signature. -/
def replaceFirst (record : WritableRecord) (signature : Signature) (data : Bytes) :
    WritableRecord :=
  { record with subrecords := replaceFirstIn signature data record.subrecords }

/-- The record with new morphs. -/
def withMorphs (record : WritableRecord) (keys values : Bytes) : WritableRecord :=
  (record.replaceFirst morphKeysSignature keys).replaceFirst morphValuesSignature values

end WritableRecord

end Bethkit
