import Bethkit.Semantic.View

/-!
# Structural addresses

An address names a subrecord by its grammar assignment and repeat stack, and a value inside it by
steps through struct members and array items. It is valid as long as the structure of the record,
digested by SHA-256, is the one it was issued for. SHA-256 is a third-party function and enters as
a parameter.
-/

namespace Bethkit

open Lib

/-- SHA-256. -/
abbrev Sha256 : Type := Bytes → Fixed 32

/-- One navigation step inside a decoded subrecord payload. -/
inductive ValueStep where
  /-- Select a named packed-struct member with verified schema identity. -/
  | field (index : Nat) (path : String)
  /-- Select one item of an array. -/
  | index (index : Nat)
deriving DecidableEq

/-- An exact address issued by a decoded snapshot. -/
structure FieldAddress where
  /-- SHA-256 of the schema package payload used to interpret this address. -/
  schemaPayloadSha256 : String
  /-- SHA-256 of the decoded record structure used to issue this address. -/
  structureHash : String
  /-- Main-record signature. -/
  recordSignature : Signature
  /-- File-local main-record FormID. -/
  formId : FormId
  /-- Exact subrecord index in the record payload. -/
  subrecordIndex : Nat
  /-- Stable schema path of the containing subrecord. -/
  subrecordPath : String
  /-- Complete outermost-to-innermost grammar repeat stack. -/
  repeatScopes : List RepeatScope
  /-- Navigation inside the containing subrecord; empty selects its whole value. -/
  valueSteps : List ValueStep
deriving DecidableEq

/-- A digest as 64 lowercase hexadecimal characters. -/
def schemaHashHex (digest : Fixed 32) : String :=
  String.ofList (digest.val.flatMap fun byte =>
    [Nat.digitChar (byte.toNat / 16), Nat.digitChar (byte.toNat % 16)])

/-- A number in a digest. -/
def hashUsize (value : Nat) : Bytes := leBytes 8 value

/-- A text in a digest, its length first. -/
def hashText (text : String) : Bytes := hashUsize text.utf8ByteSize ++ strAsBytes text

/-- The tag of a value kind in a digest. -/
def hashKind : FieldValue → UInt8
  | .int _ => 0
  | .uint _ => 1
  | .float _ => 2
  | .string _ => 3
  | .formId _ _ => 4
  | .enumeration _ _ => 5
  | .flags _ _ => 6
  | .bytes _ => 7
  | .struct _ => 8
  | .array _ => 9
  | .absent => 10

mutual

/-- The shape of a value in a digest; scalars contribute their kind only. -/
def hashValue : FieldValue → Bytes
  | .struct fields => 8 :: hashUsize fields.length ++ hashMembers fields
  | .array values => 9 :: hashUsize values.length ++ hashElements values
  | value => [hashKind value]

/-- The shapes of struct members. -/
def hashMembers : List NamedValue → Bytes
  | [] => []
  | .mk nodeId path effectivePath _ _ value :: fields =>
    hashText path ++ u32ToLeBytes nodeId ++ hashText (effectivePath.getD "") ++ hashValue value ++
      hashMembers fields

/-- The shapes of array items. -/
def hashElements : List FieldValue → Bytes
  | [] => []
  | value :: values => hashValue value ++ hashElements values

end

/-- A repeat scope in a digest. -/
def hashScope (scope : RepeatScope) : Bytes := hashText scope.path ++ leBytes 4 scope.occurrence

/-- A union selection in a digest. -/
def hashSelection (selection : ValueSelection) : Bytes :=
  hashText selection.schemaPath ++ hashUsize selection.arrayIndices.length ++
    selection.arrayIndices.flatMap hashUsize ++ hashText selection.effectivePath

/-- A field in a digest. -/
def hashField (field : Field) : Bytes :=
  hashUsize field.subrecordIndex ++ hashText field.path ++
    hashText (field.effectivePath.getD "") ++ u32ToLeBytes field.nodeId ++
    field.subrecordSignature.bytes.val ++ hashUsize field.repeatScopes.length ++
    field.repeatScopes.flatMap hashScope ++ hashUsize field.valueSelections.length ++
    field.valueSelections.flatMap hashSelection ++ hashValue field.value

/-- The digest of grammar assignments, repeat scopes and value-tree shapes. -/
def structureHash (sha256 : Sha256) (fields : List Field) : String :=
  schemaHashHex (sha256 (strAsBytes "bethkit-field-address-v1" ++ hashUsize fields.length ++
    fields.flatMap hashField))

/-- An address that does not fit. -/
def addressError (path message : String) : SemanticError := .encode path message

/-- The decoded value that steps select. -/
def decodedTarget (path : String) : List ValueStep → FieldValue → Except SemanticError FieldValue
  | [], value => .ok value
  | step :: steps, value =>
    let next := match step, value with
      | .field index memberPath, .struct fields =>
        (fields[index]?.filter (·.path = memberPath)).map (·.value)
      | .index index, .array items => items[index]?
      | _, _ => none
    match next with
    | some next => decodedTarget path steps next
    | none => .error (addressError path "address does not select a live value")

/-- An owned value that steps select in parallel to a decoded one, and the whole value as a
function of it. -/
abbrev OwnedTarget : Type := OwnedFieldValue × (OwnedFieldValue → OwnedFieldValue)

/-- The owned value that steps select in parallel to a decoded one. -/
def ownedTarget (context : String) :
    List ValueStep → OwnedFieldValue → FieldValue → Except SemanticError OwnedTarget
  | [], owned, _ => .ok (owned, id)
  | .field index path :: steps, .struct values, .struct fields =>
    match fields[index]?.filter (·.path = path), values[index]? with
    | none, _ =>
      .error (addressError context "struct step does not match decoded schema path")
    | some _, none => .error (addressError context "struct index is out of bounds")
    | some field, some value => do
      let (target, replace) ← ownedTarget context steps value field.value
      .ok (target, fun updated => .struct (values.set index (replace updated)))
  | .index index :: steps, .array values, .array items =>
    match items[index]?, values[index]? with
    | some item, some value => do
      let (target, replace) ← ownedTarget context steps value item
      .ok (target, fun updated => .array (values.set index (replace updated)))
    | _, _ => .error (addressError context "array index is out of bounds")
  | _, _, _ => .error (addressError context "address step does not match decoded value kind")

end Bethkit
