import Bethkit.Verif.Shape
import Bethkit.Verif.Structures
import Bethkit.Verif.EditorIdentity

/-!
# Addresses follow the shape

The steps of an address lead through two values of one shape in the same way, through the decoded
value and through the owned value made of it. A decoded field list numbers its fields in record
order, so the subrecord index of an address names one position, in the list it was issued for and
in the list it is resolved against.
-/

namespace Bethkit

open Lib

/-- A member of one struct faces a member of every struct of its shape. -/
theorem NamedValue.SameShapes.getElem? {lefts rights : List NamedValue}
    (same : NamedValue.SameShapes lefts rights) {index : Nat} {left : NamedValue}
    (found : lefts[index]? = some left) :
    ∃ right, rights[index]? = some right ∧ left.path = right.path ∧
      left.value.SameShape right.value := by
  induction lefts generalizing rights index with
  | nil => cases found
  | cons first lefts ih =>
    cases rights with
    | nil => cases first; cases same
    | cons other rights =>
      cases first
      cases other
      cases index with
      | zero =>
        cases found
        exact ⟨_, rfl, same.1, same.2.2.2.1⟩
      | succ index => exact ih same.2.2.2.2 found

/-- An element of one array faces an element of every array of its shape. -/
theorem FieldValue.SameShapes.getElem? {lefts rights : List FieldValue}
    (same : FieldValue.SameShapes lefts rights) {index : Nat} {left : FieldValue}
    (found : lefts[index]? = some left) :
    ∃ right, rights[index]? = some right ∧ left.SameShape right := by
  induction lefts generalizing rights index with
  | nil => cases found
  | cons first lefts ih =>
    cases rights with
    | nil => cases same
    | cons other rights =>
      cases index with
      | zero =>
        cases found
        exact ⟨_, rfl, same.1⟩
      | succ index => exact ih same.2 found

/-- The owned member of a decoded one. -/
theorem getElem?_handlerToOwnedFields (values : List NamedValue) (index : Nat) :
    (handlerToOwnedFields values)[index]? =
      values[index]?.map fun value => handlerToOwnedValue value.value := by
  induction values generalizing index with
  | nil => rfl
  | cons value values ih =>
    cases value
    cases index with
    | zero => rfl
    | succ index => exact ih index

/-- The owned element of a decoded one. -/
theorem getElem?_handlerToOwnedValues (values : List FieldValue) (index : Nat) :
    (handlerToOwnedValues values)[index]? = values[index]?.map handlerToOwnedValue := by
  induction values generalizing index with
  | nil => rfl
  | cons value values ih =>
    cases index with
    | zero => rfl
    | succ index => exact ih index

/-- Steps lead to a value of a given shape, in a decoded value and in its owned form. -/
def Leads (path : String) (steps : List ValueStep) (value shape : FieldValue) : Prop :=
  ∃ target replace, decodedTarget path steps value = .ok target ∧
    ownedTarget path steps (handlerToOwnedValue value) value =
      .ok (handlerToOwnedValue target, replace) ∧ shape.SameShape target

/-- A member step leads on from the member. -/
theorem Leads.field {path memberPath : String} {index : Nat} {steps : List ValueStep}
    {members : List NamedValue} {member : NamedValue} {shape : FieldValue}
    (found : members[index]? = some member) (named : member.path = memberPath)
    (leads : Leads path steps member.value shape) :
    Leads path (.field index memberPath :: steps) (.struct members) shape := by
  obtain ⟨target, replace, decoded, owned, same⟩ := leads
  have selected : members[index]?.filter (·.path = memberPath) = some member := by
    simp [found, named]
  refine ⟨target, fun updated => .struct ((handlerToOwnedFields members).set index
    (replace updated)), ?_, ?_, same⟩
  · simp only [decodedTarget, selected, Option.map_some]
    exact decoded
  · have value := getElem?_handlerToOwnedFields members index
    rw [found, Option.map_some] at value
    simp only [handlerToOwnedValue, ownedTarget, selected, value, owned, ok_bind]

/-- An item step leads on from the item. -/
theorem Leads.index {path : String} {index : Nat} {steps : List ValueStep}
    {items : List FieldValue} {item shape : FieldValue} (found : items[index]? = some item)
    (leads : Leads path steps item shape) :
    Leads path (.index index :: steps) (.array items) shape := by
  obtain ⟨target, replace, decoded, owned, same⟩ := leads
  refine ⟨target, fun updated => .array ((handlerToOwnedValues items).set index
    (replace updated)), ?_, ?_, same⟩
  · simp only [decodedTarget, found]
    exact decoded
  · have value := getElem?_handlerToOwnedValues items index
    rw [found, Option.map_some] at value
    simp only [handlerToOwnedValue, ownedTarget, found, value, owned, ok_bind]

/-- Steps that select a value select one of its shape in every value of the same shape. -/
theorem leads_of_sameShape {path other : String} (steps : List ValueStep)
    {left right shape : FieldValue} (same : left.SameShape right)
    (selected : decodedTarget path steps left = .ok shape) : Leads other steps right shape := by
  induction steps generalizing left right with
  | nil =>
    obtain rfl := Except.ok.inj selected
    exact ⟨right, id, rfl, rfl, same⟩
  | cons step steps ih =>
    cases step with
    | field index memberPath =>
      cases left with
      | struct lefts =>
        cases right with
        | struct rights =>
          rw [decodedTarget] at selected
          cases found : lefts[index]? with
          | none => simp [found] at selected
          | some member =>
            by_cases named : member.path = memberPath
            · simp only [found, Option.filter_some, named, decide_true, if_true,
                Option.map_some] at selected
              obtain ⟨facing, faces, samePath, sameValue⟩ := same.getElem? found
              exact (ih sameValue selected).field faces (samePath ▸ named)
            · simp [found, Option.filter_some, named] at selected
        | _ => cases same
      | _ => cases selected
    | index index =>
      cases left with
      | array lefts =>
        cases right with
        | array rights =>
          rw [decodedTarget] at selected
          cases found : lefts[index]? with
          | none => simp [found] at selected
          | some item =>
            simp only [found] at selected
            obtain ⟨facing, faces, sameValue⟩ := same.getElem? found
            exact (ih sameValue selected).index faces
        | _ => cases same
      | _ => cases selected

namespace Semantic.RecordView

/-- A field carries the index of its subrecord. -/
theorem fieldAt_subrecordIndex {view : Semantic.RecordView} {grammar : GrammarMatch}
    {discardUnobserved : Bool} {subrecords : List WritableSubRecord}
    {entry : WritableSubRecord × Nat} {field : Field}
    (done : view.fieldAt grammar discardUnobserved subrecords entry = .ok field) :
    field.subrecordIndex = entry.2 := by
  rw [fieldAt] at done
  split at done
  case h_1 node info signature payload assigned =>
    rw [assignedField, bind_eq_ok] at done
    obtain ⟨_, _, done⟩ := done
    obtain rfl := Except.ok.inj done
    rfl
  case h_2 => cases done
  case h_3 =>
    obtain rfl := Except.ok.inj done
    rfl

/-- A decoded field list numbers its fields in order. -/
theorem subrecordIndex_of_fields {inflate : Inflate} {view : Semantic.RecordView}
    {fields : List Field} (decoded : view.fields inflate = .ok fields) {index : Nat}
    {field : Field} (found : fields[index]? = some field) : field.subrecordIndex = index := by
  rw [RecordView.fields, fieldsImpl, bind_eq_ok] at decoded
  obtain ⟨subrecords, read, decoded⟩ := decoded
  obtain ⟨grammar, matched, decoded⟩ := bind_eq_ok.mp decoded
  have each := mapM_eq_ok.mp decoded
  obtain ⟨inside, rfl⟩ := List.getElem?_eq_some_iff.mp found
  have counted := each.length_eq
  have entry := each.get (counted ▸ inside) inside
  have numbered := fieldAt_subrecordIndex entry
  simpa using numbered

end Semantic.RecordView

/-- The address is one of the record and the schema that an editor edits. -/
structure FieldAddress.BelongsTo (address : FieldAddress) (editor : RecordEditor) : Prop where
  /-- The signature. -/
  recordSignature : address.recordSignature = editor.record.signature
  /-- The FormID. -/
  formId : address.formId = editor.record.formId
  /-- The schema package. -/
  schema : address.schemaPayloadSha256 =
    schemaHashHex editor.context.registry.package.payloadSha256

/-- An address of a record stays one of it. -/
theorem FieldAddress.BelongsTo.of_sameRecord {address : FieldAddress} {before after : RecordEditor}
    (belongs : address.BelongsTo before) (same : before.SameRecord after) :
    address.BelongsTo after := by
  constructor
  · rw [same.signature]
    exact belongs.recordSignature
  · rw [same.formId]
    exact belongs.formId
  · rw [same.context]
    exact belongs.schema

/-- The field has the place that an address names. -/
def FieldAddress.Names (address : FieldAddress) (field : Field) : Bool :=
  field.subrecordIndex = address.subrecordIndex && field.path = address.subrecordPath &&
    field.repeatScopes = address.repeatScopes

/-- An accepted address belongs to the editor, is not stale, and names the field it selects. -/
theorem RecordEditor.addressedField_eq_ok {sha256 : Sha256} {editor : RecordEditor}
    {address : FieldAddress} {field : Field}
    (found : editor.addressedField sha256 address = .ok field) :
    address.BelongsTo editor ∧ ∃ fields, editor.fields = .ok fields ∧
      address.structureHash = structureHash sha256 fields ∧
      fields.find? address.Names = some field := by
  unfold RecordEditor.addressedField at found
  split at found
  · cases found
  · rename_i belongs
    push Not at belongs
    obtain ⟨fields, decoded, found⟩ := bind_eq_ok.mp found
    split at found
    · cases found
    · rename_i current
      split at found
      · rename_i selected search
        obtain rfl := Except.ok.inj found
        exact ⟨⟨belongs.1, belongs.2.1, belongs.2.2⟩, fields, decoded, not_not.mp current, search⟩
      · cases found

/-- An address that belongs to the editor, is not stale and names a field is accepted. -/
theorem RecordEditor.addressedField_of_names {sha256 : Sha256} {editor : RecordEditor}
    {address : FieldAddress} {field : Field} {fields : List Field}
    (belongs : address.BelongsTo editor) (decoded : editor.fields = .ok fields)
    (current : address.structureHash = structureHash sha256 fields)
    (search : fields.find? address.Names = some field) :
    editor.addressedField sha256 address = .ok field := by
  have mine : ¬(address.recordSignature ≠ editor.record.signature ∨
      address.formId ≠ editor.record.formId ∨ address.schemaPayloadSha256 ≠
        schemaHashHex editor.context.registry.package.payloadSha256) := by
    push Not
    exact ⟨belongs.recordSignature, belongs.formId, belongs.schema⟩
  unfold RecordEditor.addressedField
  have listed : (fields.find? fun field => field.subrecordIndex = address.subrecordIndex &&
      field.path = address.subrecordPath && field.repeatScopes = address.repeatScopes) =
      some field := search
  rw [if_neg mine, decoded, ok_bind, if_neg (not_not.mpr current), listed]

/-- Fields of one shape are named by the same addresses. -/
theorem Field.SameShape.names {left right : Field} (same : left.SameShape right)
    (address : FieldAddress) : address.Names left = address.Names right := by
  simp only [FieldAddress.Names, same.subrecordIndex, same.path, same.repeatScopes]

/-- The first field that an address names stands at the same position in every list of the same
shape. -/
theorem SameFields.find? {left right : List Field} (same : SameFields left right)
    {address : FieldAddress} {field : Field} (search : left.find? address.Names = some field) :
    ∃ facing, right.find? address.Names = some facing ∧ field.SameShape facing := by
  induction same with
  | nil => cases search
  | cons first rest ih =>
    rename_i head other lefts rights
    rw [List.find?_cons] at search ⊢
    rw [← first.names address]
    cases named : address.Names head with
    | true =>
      simp only [named] at search ⊢
      obtain rfl := Option.some.inj search
      exact ⟨other, rfl, first⟩
    | false =>
      simp only [named] at search ⊢
      exact ih search

/-- The decoded fields of an editor are numbered in order. -/
theorem RecordEditor.subrecordIndex_of_fields {editor : RecordEditor} {fields : List Field}
    (decoded : editor.fields = .ok fields) {index : Nat} {field : Field}
    (found : fields[index]? = some field) : field.subrecordIndex = index := by
  obtain ⟨view, _, decoded⟩ := bind_eq_ok.mp decoded
  exact Semantic.RecordView.subrecordIndex_of_fields decoded found

/-- Of two lists of one shape, one of them numbered, a field of the one and a field of the other
with the same index have the same shape. -/
theorem SameFields.of_subrecordIndex {left right : List Field} (same : SameFields left right)
    (numbered : ∀ {index : Nat} {field : Field}, right[index]? = some field →
      field.subrecordIndex = index)
    {issued field : Field} (listed : issued ∈ left) (selected : field ∈ right)
    (index : issued.subrecordIndex = field.subrecordIndex) : issued.SameShape field := by
  obtain ⟨position, inside, rfl⟩ := List.getElem_of_mem listed
  obtain ⟨other, within, rfl⟩ := List.getElem_of_mem selected
  have faces : position < right.length := same.length_eq ▸ inside
  have shape : left[position].SameShape right[position] := same.get inside faces
  have here : right[position].subrecordIndex = position :=
    numbered (List.getElem?_eq_getElem faces)
  have there : right[other].subrecordIndex = other := numbered (List.getElem?_eq_getElem within)
  have positions : position = other := by
    rw [← here, ← there, ← index, shape.subrecordIndex]
  subst positions
  exact shape

/-- The structure hash reads the shape, addresses navigate in the shape they were issued for, and
edits that keep the shape keep the addresses. -/
theorem addressing (sha256 : Sha256) (left right : List Field) (leftSized : SizedFields left)
    (rightSized : SizedFields right)
    (collisionFree : sha256 (hashInput left) = sha256 (hashInput right) →
      hashInput left = hashInput right) : Addressing sha256 left right where
  exact := structureHash_eq_iff sha256 leftSized rightSized collisionFree
  navigates := by
    intro editor address issued value field decoded issue accepted
    obtain ⟨_, fields, current, hash, search⟩ := RecordEditor.addressedField_eq_ok accepted
    obtain rfl : right = fields := Except.ok.inj (decoded.symm.trans current)
    have same : SameFields left right :=
      (structureHash_eq_iff sha256 leftSized rightSized collisionFree).mp
        (issue.structureHash.symm.trans hash)
    have names := List.find?_some search
    simp only [FieldAddress.Names, Bool.and_eq_true, decide_eq_true_eq] at names
    have index : issued.subrecordIndex = field.subrecordIndex :=
      issue.subrecordIndex.symm.trans names.1.1.symm
    have shape := same.of_subrecordIndex (RecordEditor.subrecordIndex_of_fields decoded)
      issue.listed (List.mem_of_find?_eq_some search) index
    exact ⟨shape, ⟨leads_of_sameShape address.valueSteps shape.value issue.selected⟩⟩
  keeps := by
    intro op before after ran decodedBefore decodedAfter same address field accepted
    obtain ⟨belongs, fields, current, hash, search⟩ := RecordEditor.addressedField_eq_ok accepted
    obtain rfl : left = fields := Except.ok.inj (decodedBefore.symm.trans current)
    have identity := op.step_sameRecord sha256 before
    rw [ran] at identity
    obtain ⟨kept, found, shape⟩ := same.find? search
    have hashes := (structureHash_eq_iff sha256 leftSized rightSized collisionFree).mpr same
    refine ⟨kept, RecordEditor.addressedField_of_names (belongs.of_sameRecord identity)
      decodedAfter (hash.trans hashes) found, shape, fun value selected => ?_⟩
    exact ⟨leads_of_sameShape address.valueSteps shape.value selected⟩

/-- A decoded text field. -/
def textField (text : String) : Field where
  subrecordIndex := 0
  repeatScopes := []
  nodeId := 1
  path := "DATA/EDID"
  effectivePath := none
  valueSelections := []
  inlineStringCodecs := []
  name := "Editor ID"
  subrecordSignature := .EDID
  occurrence := 0
  span := ⟨0, text.utf8ByteSize⟩
  origin := .schema
  value := .string text

/-- A digest that tells inputs of different lengths apart. -/
def lengthDigest : Sha256 := fun bytes =>
  ⟨List.replicate 32 (UInt8.ofNat bytes.length), List.length_replicate⟩

/-- A text field fits the machine types. -/
theorem textField_sized : SizedFields [textField "Old"] := by
  refine ⟨by decide, fun field listed => ?_⟩
  obtain rfl := List.mem_singleton.mp listed
  constructor
  · decide
  · decide +kernel
  · decide +kernel
  · decide
  · exact List.forall_mem_nil _
  · decide
  · exact List.forall_mem_nil _
  · trivial

/-- The address of a text does not outlive its field. -/
theorem addressing_removedField : Addressing lengthDigest [textField "Old"] [] :=
  addressing lengthDigest [textField "Old"] [] textField_sized ⟨by decide, List.forall_mem_nil _⟩
    fun same => absurd same (by decide +kernel)

end Bethkit
