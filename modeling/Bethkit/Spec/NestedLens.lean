import Bethkit.Lib.Addresses
import Bethkit.Semantic.Nested
import Bethkit.Spec.FieldAccess
import Bethkit.Spec.Sample

/-!
# Places inside a payload

A value below a node stands at an address, which gives the positions in the structs and arrays
around it. A path has its occurrences below the node in pre-order, each at its own address. Reading
and replacing an occurrence are to be reading and replacing at its address.
-/

namespace Bethkit

open Lib

namespace OwnedFieldValue

/-- The members of a struct and the elements of an array. -/
def parts : OwnedFieldValue → List OwnedFieldValue
  | .struct values | .array values => values
  | _ => []

/-- The value with other members or elements. -/
def rebuild : OwnedFieldValue → List OwnedFieldValue → OwnedFieldValue
  | .struct _, values => .struct values
  | .array _, values => .array values
  | value, _ => value

/-- Structs and arrays are composed of their members and elements. -/
def composite : Composite OwnedFieldValue where
  parts := parts
  rebuild := rebuild
  parts_rebuild := by
    intro value values count
    cases value with
    | struct | array => rfl
    | _ => exact (List.eq_nil_of_length_eq_zero count).symm
  rebuild_parts := by
    intro value
    cases value with
    | _ => rfl
  rebuild_rebuild := by
    intro value first second
    cases value with
    | _ => rfl

end OwnedFieldValue

namespace SchemaNode

/-- The node is a union. -/
def isUnion : SchemaNode → Bool
  | .union _ _ _ => true
  | _ => false

/-- The tree has no union. -/
def unionFree (node : SchemaNode) : Bool := node.routed.all fun routed => !routed.2.isUnion

end SchemaNode

mutual

/-- The occurrences of a path below a node, each with its address and its value. -/
def placesAt (path : String) : SchemaNode → OwnedFieldValue → List (List Nat × OwnedFieldValue)
  | node, value =>
    if !pathIsWithin path node.path then []
    else if node.path = path then [([], value)]
    else
      match node with
      | .struct _ fields | .optionalStruct _ fields _ =>
        match value with
        | .struct values => placesBelow (placesInFields path fields values)
        | _ => []
      | .array _ element _ =>
        match value with
        | .array values => placesBelow (values.map (placesAt path element))
        | _ => []
      | .subrecord _ _ child | .compressed _ _ child | .terminated _ _ child =>
        placesAt path child value
      | _ => []

/-- The occurrences in each member of a struct. -/
def placesInFields (path : String) :
    List SchemaNode → List OwnedFieldValue → List (List (List Nat × OwnedFieldValue))
  | field :: fields, value :: values => placesAt path field value :: placesInFields path fields values
  | _, _ => []

end

/-- The number of occurrences of a path below a node. -/
def occurrencesAt (path : String) (node : SchemaNode) (value : OwnedFieldValue) : Nat :=
  (placesAt path node value).length

/-- The address of an occurrence of a path below a node. -/
def addressAt (path : String) (node : SchemaNode) (value : OwnedFieldValue) (occurrence : Nat) :
    Option (List Nat) :=
  (placesAt path node value)[occurrence]?.map Prod.fst

/-- An array of arrays of integers. -/
def SchemaNode.rows : SchemaNode :=
  .array (.plain 1 "rows")
    (.array (.plain 2 "rows/row")
      (.primitive (.plain 3 "rows/row/cell") (.integer ⟨4, false, .littleEndian⟩))
      (.prefixed ⟨4, false, .littleEndian⟩ none))
    .remainder

/-- Rows with their cells. -/
def OwnedFieldValue.rows (rows : List (List UInt64)) : OwnedFieldValue :=
  .array (rows.map fun cells => .array (cells.map .uint))

namespace RecordEditor

/-- Reading and replacing the values below a node at the occurrences of paths are a lens. What stands
apart from a replaced value keeps its value. It keeps its occurrence number if it comes first, or if
its path occurs as often as before. -/
structure NestedLens (editor : RecordEditor) (node : SchemaNode) : Prop where
  /-- What is found is the value at the address of the occurrence. -/
  reads : ∀ value path occurrence current,
    editor.nestedValueAt node value path occurrence = .ok (.found current) ↔
      ∃ address, addressAt path node value occurrence = some address ∧
        OwnedFieldValue.composite.read address value = some current
  /-- A value can be set exactly where one is found. -/
  settable : ∀ value path occurrence replacement,
    (∃ updated, editor.setNestedValue node value path occurrence replacement =
        .ok (.found updated)) ↔
      ∃ current, editor.nestedValueAt node value path occurrence = .ok (.found current)
  /-- What was set is found. -/
  putGet : ∀ value path occurrence replacement updated,
    editor.setNestedValue node value path occurrence replacement = .ok (.found updated) →
      editor.nestedValueAt node updated path occurrence = .ok (.found replacement)
  /-- Setting what is found changes nothing. -/
  getPut : ∀ value path occurrence current,
    editor.nestedValueAt node value path occurrence = .ok (.found current) →
      editor.setNestedValue node value path occurrence current = .ok (.found value)
  /-- Every value at an address that is neither inside nor around the target is unchanged. -/
  frame : ∀ value path occurrence replacement updated address,
    editor.setNestedValue node value path occurrence replacement = .ok (.found updated) →
      addressAt path node value occurrence = some address →
      ∀ other, Composite.Apart address other →
        OwnedFieldValue.composite.read other updated = OwnedFieldValue.composite.read other value
  /-- An occurrence apart is unchanged if it comes first or its path occurs as often as before. -/
  unchanged : ∀ value path occurrence replacement updated here otherPath number there,
    editor.setNestedValue node value path occurrence replacement = .ok (.found updated) →
      addressAt path node value occurrence = some here →
      addressAt otherPath node value number = some there → Composite.Apart here there →
      (there < here ∨ occurrencesAt otherPath node updated = occurrencesAt otherPath node value) →
        editor.nestedValueAt node updated otherPath number =
          editor.nestedValueAt node value otherPath number
  /-- Two sets of occurrences apart commute if the one that comes first keeps the number of
  occurrences of the path of the other. -/
  commute : ∀ value path occurrence replacement left here otherPath number other right there,
    editor.setNestedValue node value path occurrence replacement = .ok (.found left) →
      editor.setNestedValue node value otherPath number other = .ok (.found right) →
      addressAt path node value occurrence = some here →
      addressAt otherPath node value number = some there → Composite.Apart here there →
      (there < here ∨ occurrencesAt otherPath node left = occurrencesAt otherPath node value) →
      (here < there ∨ occurrencesAt path node right = occurrencesAt path node value) →
        ∃ both, editor.setNestedValue node left otherPath number other = .ok (.found both) ∧
          editor.setNestedValue node right path occurrence replacement = .ok (.found both)

end RecordEditor

end Bethkit
