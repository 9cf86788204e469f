import Bethkit.Semantic.Editor

/-!
# The shape of a decoded record

Two decoded field lists have the same shape when they name the same subrecords by the same grammar
assignments, with the same repeat stacks and union selections, and their values are trees of the
same kinds with the same members. What a scalar contains is left out. An effective path that is
missing is read as the empty text, as the digest reads it.
-/

namespace Bethkit

open Lib

mutual

/-- Two values are trees of the same kinds, members and lengths. -/
def FieldValue.SameShape : FieldValue → FieldValue → Prop
  | .int _, .int _ => True
  | .uint _, .uint _ => True
  | .float _, .float _ => True
  | .string _, .string _ => True
  | .formId _ _, .formId _ _ => True
  | .enumeration _ _, .enumeration _ _ => True
  | .flags _ _, .flags _ _ => True
  | .bytes _, .bytes _ => True
  | .struct lefts, .struct rights => NamedValue.SameShapes lefts rights
  | .array lefts, .array rights => FieldValue.SameShapes lefts rights
  | .absent, .absent => True
  | _, _ => False

/-- Two structs have the same members with values of the same shapes. -/
def NamedValue.SameShapes : List NamedValue → List NamedValue → Prop
  | [], [] => True
  | .mk leftId leftPath leftEffective _ _ left :: lefts,
    .mk rightId rightPath rightEffective _ _ right :: rights =>
    leftPath = rightPath ∧ leftId = rightId ∧ leftEffective.getD "" = rightEffective.getD "" ∧
      left.SameShape right ∧ NamedValue.SameShapes lefts rights
  | _, _ => False

/-- Two arrays have as many elements, of the same shapes. -/
def FieldValue.SameShapes : List FieldValue → List FieldValue → Prop
  | [], [] => True
  | left :: lefts, right :: rights => left.SameShape right ∧ FieldValue.SameShapes lefts rights
  | _, _ => False

end

/-- Two fields have the same place in the record and values of the same shape. -/
structure Field.SameShape (left right : Field) : Prop where
  /-- The subrecord. -/
  subrecordIndex : left.subrecordIndex = right.subrecordIndex
  /-- The schema path. -/
  path : left.path = right.path
  /-- The effective path of a dynamic union. -/
  effectivePath : left.effectivePath.getD "" = right.effectivePath.getD ""
  /-- The schema node. -/
  nodeId : left.nodeId = right.nodeId
  /-- The signature. -/
  subrecordSignature : left.subrecordSignature = right.subrecordSignature
  /-- The repeat stack. -/
  repeatScopes : left.repeatScopes = right.repeatScopes
  /-- The union selections. -/
  valueSelections : left.valueSelections = right.valueSelections
  /-- The value tree. -/
  value : left.value.SameShape right.value

/-- Two field lists have fields of the same shapes in the same order. -/
def SameFields (left right : List Field) : Prop := List.Forall₂ Field.SameShape left right

/-- A length or an index that a `usize` can hold. -/
def IsUsize (value : Nat) : Prop := value < 2 ^ 64

instance : DecidablePred IsUsize := fun value => inferInstanceAs (Decidable (value < 2 ^ 64))

mutual

/-- The lengths in a value fit their machine type. -/
def FieldValue.Sized : FieldValue → Prop
  | .struct fields => IsUsize fields.length ∧ NamedValue.AllSized fields
  | .array values => IsUsize values.length ∧ FieldValue.AllSized values
  | _ => True

/-- The lengths in the members of a struct fit their machine type. -/
def NamedValue.AllSized : List NamedValue → Prop
  | [] => True
  | .mk _ path effectivePath _ _ value :: fields =>
    IsUsize path.utf8ByteSize ∧ IsUsize (effectivePath.getD "").utf8ByteSize ∧ value.Sized ∧
      NamedValue.AllSized fields

/-- The lengths in the elements of an array fit their machine type. -/
def FieldValue.AllSized : List FieldValue → Prop
  | [] => True
  | value :: values => value.Sized ∧ FieldValue.AllSized values

end

/-- A repeat scope that the machine types can hold. -/
def RepeatScope.Sized (scope : RepeatScope) : Prop :=
  IsUsize scope.path.utf8ByteSize ∧ scope.occurrence < 2 ^ 32

/-- A union selection that the machine types can hold. -/
structure ValueSelection.Sized (selection : ValueSelection) : Prop where
  /-- The schema path. -/
  schemaPath : IsUsize selection.schemaPath.utf8ByteSize
  /-- The number of enclosing arrays. -/
  depth : IsUsize selection.arrayIndices.length
  /-- The positions in them. -/
  arrayIndices : ∀ index ∈ selection.arrayIndices, IsUsize index
  /-- The effective path. -/
  effectivePath : IsUsize selection.effectivePath.utf8ByteSize

/-- A field that the machine types can hold. -/
structure Field.Sized (field : Field) : Prop where
  /-- The index of the subrecord. -/
  subrecordIndex : IsUsize field.subrecordIndex
  /-- The schema path. -/
  path : IsUsize field.path.utf8ByteSize
  /-- The effective path. -/
  effectivePath : IsUsize (field.effectivePath.getD "").utf8ByteSize
  /-- The depth of the repeat stack. -/
  depth : IsUsize field.repeatScopes.length
  /-- The repeat scopes. -/
  repeatScopes : ∀ scope ∈ field.repeatScopes, scope.Sized
  /-- The number of union selections. -/
  selections : IsUsize field.valueSelections.length
  /-- The union selections. -/
  valueSelections : ∀ selection ∈ field.valueSelections, selection.Sized
  /-- The value. -/
  value : field.value.Sized

/-- A field list that the machine types can hold. -/
structure SizedFields (fields : List Field) : Prop where
  /-- The number of fields. -/
  length : IsUsize fields.length
  /-- Every field. -/
  each : ∀ field ∈ fields, field.Sized

/-- The bytes whose digest is the structure hash of a field list. -/
def hashInput (fields : List Field) : Bytes :=
  strAsBytes "bethkit-field-address-v1" ++ hashUsize fields.length ++ fields.flatMap hashField

/-- An address issued for a value inside a field of a decoded field list. -/
structure FieldAddress.IssuedFor (address : FieldAddress) (sha256 : Sha256) (fields : List Field)
    (field : Field) (value : FieldValue) : Prop where
  /-- The structure is that of the list. -/
  structureHash : address.structureHash = Bethkit.structureHash sha256 fields
  /-- The field is in the list. -/
  listed : field ∈ fields
  /-- The address names its subrecord. -/
  subrecordIndex : address.subrecordIndex = field.subrecordIndex
  /-- The address names its path. -/
  subrecordPath : address.subrecordPath = field.path
  /-- The address names its repeat stack. -/
  repeatScopes : address.repeatScopes = field.repeatScopes
  /-- The steps select the value. -/
  selected : decodedTarget field.path address.valueSteps field.value = .ok value

/-- The steps of an address lead, in the decoded value of a field and in the owned value made of
it, to a value of a given shape. -/
structure FieldAddress.Navigates (address : FieldAddress) (field : Field) (shape : FieldValue) :
    Prop where
  /-- There is a value of that shape behind the steps, and its owned form behind the same steps. -/
  reaches : ∃ value replace, decodedTarget field.path address.valueSteps field.value = .ok value ∧
    ownedTarget field.path address.valueSteps (handlerToOwnedValue field.value) field.value =
      .ok (handlerToOwnedValue value, replace) ∧
    shape.SameShape value

/-- What the structure hash does for two decoded field lists. -/
structure Addressing (sha256 : Sha256) (left right : List Field) : Prop where
  /-- The hashes are equal exactly when the lists have the same shape. -/
  exact : structureHash sha256 left = structureHash sha256 right ↔ SameFields left right
  /-- An address issued for the one list and accepted by an editor with the other selects a field
  of the shape it was issued for, and navigates in it to a value of the shape it was issued for. -/
  navigates : ∀ (editor : RecordEditor) (address : FieldAddress) (issued : Field)
    (value : FieldValue) (field : Field), editor.fields = .ok right →
    address.IssuedFor sha256 left issued value →
    editor.addressedField sha256 address = .ok field →
    issued.SameShape field ∧ address.Navigates field value
  /-- An edit that keeps the shape keeps every address: what was accepted before is accepted after,
  selects a field of the same shape and navigates in it to values of the same shapes. -/
  keeps : ∀ (op : EditorOp) (before after : RecordEditor),
    op.step sha256 before = (.ok (), after) → before.fields = .ok left →
    after.fields = .ok right → SameFields left right → ∀ (address : FieldAddress) (field : Field),
    before.addressedField sha256 address = .ok field →
    ∃ kept, after.addressedField sha256 address = .ok kept ∧ field.SameShape kept ∧
      ∀ value, decodedTarget field.path address.valueSteps field.value = .ok value →
        address.Navigates kept value

end Bethkit
