import Bethkit.Spec.Sample
import Bethkit.Verif.LosslessLeaves
import Bethkit.Verif.Spans

/-!
# Lossless payloads

The editor writes a lossless payload back as the view has read it: what holds of every leaf holds of
structs, arrays, unions and terminated values around them, and so of the fields of a record.
-/

namespace Bethkit

open Lib

/-! ## Absent values and unions -/

variable {editor : RecordEditor} {view : Semantic.RecordView} {node : SchemaNode}

/-- Only the absent value is an omitted one. -/
theorem isAbsent_handlerToOwnedValue (value : FieldValue) :
    (handlerToOwnedValue value).isAbsent = true ↔ value = .absent := by
  cases value <;> simp [handlerToOwnedValue, OwnedFieldValue.isAbsent]

/-- Omitted members are absent ones. -/
theorem all_isAbsent_iff (values : List NamedValue) :
    (handlerToOwnedFields values).all (·.isAbsent) = true ↔
      ∀ value ∈ values, value.value = .absent := by
  induction values with
  | nil => simp [handlerToOwnedFields]
  | cons value values ih =>
    cases value with
    | mk nodeId path effectivePath name span value =>
      rw [handlerToOwnedFields, List.all_cons, Bool.and_eq_true, isAbsent_handlerToOwnedValue, ih,
        List.forall_mem_cons]
      rfl

/-- The owned form of members, one by one. -/
theorem handlerToOwnedFields_cons (value : NamedValue) (values : List NamedValue) :
    handlerToOwnedFields (value :: values) =
      handlerToOwnedValue value.value :: handlerToOwnedFields values := by
  cases value
  rfl

/-- A settled selector evaluates to the same in the editor and in the view. -/
theorem SharesRecord.unionSelection (shares : SharesRecord editor view) {expression : Expression}
    (settled : expression.Settled) {selected : Int64}
    (evaluates : view.evaluate expression [] ∅ = .ok (.int selected)) (encoded : Bytes)
    (context : NestedValueContext) (valueScope : Option FieldValue) :
    editor.unionSelection node (.expression expression) encoded context valueScope =
      .ok (.ok selected) := by
  rw [Semantic.RecordView.evaluate, evaluateExpression, mapError_eq_ok] at evaluates
  have here := settled.same
    { payload := [], fieldValues := ∅, formVersion := view.record.header.formVersion,
      recordSignature := view.record.header.signature } encoded context.fieldValues
  rw [RecordEditor.unionSelection, RecordEditor.unionExpression, settled.reads, Bool.not_false,
    if_pos rfl, shares.formVersion, shares.signature, here, evaluates]

/-- A union is refused if every variant is. -/
theorem selectUnionVariant_refused {context : NestedValueContext} {selector : UnionSelector}
    {scope : EncodeScope} {value : OwnedFieldValue} {variants : List SchemaNode} {index : Nat}
    {message : Option String} (each : ∀ variant ∈ variants, ∀ bytes,
      editor.encodeNodeWithScope context variant value scope ≠ .ok bytes) (result : Nat × Bytes) :
    editor.selectUnionVariant context node selector scope variants index message value ≠
      .ok result := by
  induction variants generalizing index message with
  | nil =>
    intro chosen
    contradiction
  | cons variant variants ih =>
    rw [RecordEditor.selectUnionVariant]
    cases encoded : editor.encodeNodeWithScope context variant value scope with
    | error error => exact ih fun other among => each other (List.mem_cons_of_mem _ among)
    | ok bytes => exact absurd encoded (each variant List.mem_cons_self bytes)

/-- An absent value is refused. -/
theorem encode_absent_ne_ok (lossless : Lossless editor view node) (context : NestedValueContext)
    (scope : EncodeScope) (bytes : Bytes) :
    editor.encodeNodeWithScope context node .absent scope ≠ .ok bytes := by
  induction lossless generalizing scope bytes with
  | @primitive info primitive _ _ =>
    cases primitive <;> simp [RecordEditor.encodeNodeWithScope, encodePrimitive]
  | struct => simp [RecordEditor.encodeNodeWithScope]
  | optionalStruct => simp [RecordEditor.encodeNodeWithScope]
  | array => simp [RecordEditor.encodeNodeWithScope]
  | union _ _ _ ih =>
    rw [RecordEditor.encodeNodeWithScope]
    intro encoded
    obtain ⟨result, chosen, _⟩ := bind_eq_ok.mp encoded
    exact selectUnionVariant_refused (fun variant among bytes => ih variant among scope bytes) result
      chosen
  | terminated _ _ _ ih =>
    rw [RecordEditor.encodeNodeWithScope]
    intro encoded
    obtain ⟨inner, childEncoded, _⟩ := bind_eq_ok.mp encoded
    exact ih scope inner childEncoded

/-! ## Accepted values -/

/-- A value that can be written is not absent. -/
theorem Lossless.ne_absent (lossless : Lossless editor view node) {value : FieldValue}
    (can : CanWrite view node value) : value ≠ .absent := by
  induction lossless with
  | primitive =>
    cases can with
    | primitive present => exact present
  | struct | optionalStruct | array =>
    cases can
    simp
  | union _ _ _ ih =>
    cases can with
    | union evaluates stands inner => exact ih _ (List.mem_of_getElem? stands) inner
  | terminated _ _ _ ih =>
    cases can with
    | terminated inner => exact ih inner

/-- A value is written and converted for handlers, if it can be written. -/
structure Accepts (editor : RecordEditor) (view : Semantic.RecordView) (node : SchemaNode)
    (value : FieldValue) : Prop where
  /-- It is written. -/
  encodes : CanWrite view node value → ∀ context scope, ∃ written,
    editor.encodeNodeWithScope context node (handlerToOwnedValue value) scope = .ok written
  /-- It has a handler form. -/
  converts : CanWrite view node value → ∀ context, ∃ converted,
    editor.ownedToHandlerValue context node (handlerToOwnedValue value) = .ok converted

/-- The absent value cannot be written. -/
theorem Lossless.accepts_absent (lossless : Lossless editor view node) :
    Accepts editor view node .absent :=
  ⟨fun can => absurd rfl (lossless.ne_absent can), fun can => absurd rfl (lossless.ne_absent can)⟩

/-- The members behind the first one can be written. -/
theorem CanWriteFields.tail {optionalFrom : Option Nat} {index : Nat} {field : SchemaNode}
    {fields : List SchemaNode} {value : NamedValue} {values : List NamedValue}
    (can : CanWriteFields view optionalFrom index (field :: fields) (value :: values)) :
    CanWriteFields view optionalFrom (index + 1) fields values := by
  cases can with
  | cons _ others => exact others
  | lacking optional lacks absent =>
    refine .lacking ?_ (fun field among => lacks field (List.mem_cons_of_mem _ among))
      (fun value among => absent value (List.mem_cons_of_mem _ among))
    cases optionalFrom with
    | none => contradiction
    | some start =>
      rw [Option.any_some, decide_eq_true_eq] at optional ⊢
      omega

section Members

variable {fields : List SchemaNode} {values : List NamedValue} {optionalFrom : Option Nat}
  {index : Nat}

end Members

/-- A decoded node that is written back. -/
structure KeptBy (editor : RecordEditor) (view : Semantic.RecordView) (node : SchemaNode)
    (current : Bytes) (decoded : Decoded) : Prop where
  /-- An absent value takes no byte. -/
  absent : decoded.value = .absent → decoded.consumed = 0
  /-- The value of some nodes is never absent. -/
  present : node.alwaysPresent = true → decoded.value ≠ .absent
  /-- What is written are the bytes that were read. -/
  writes : ∀ context scope written, editor.encodeNodeWithScope context node
    (handlerToOwnedValue decoded.value) scope = .ok written →
      WritesBack current decoded.consumed written
  /-- The value is accepted. -/
  accepts : Accepts editor view node decoded.value

/-- Other code does not return the value of a lossless node. -/
theorem Lossless.own (lossless : Lossless editor view node) :
    ¬node.Foreign view.context.registry := by
  cases lossless <;> assumption

/-- A lossless node is not a floating-point number. -/
theorem Lossless.applyFloatReadSemantics (lossless : Lossless editor view node)
    (value : FieldValue) : applyFloatReadSemantics node value = .ok value := by
  cases lossless with
  | @primitive info primitive _ leaf => cases primitive <;> first | rfl | exact leaf.elim
  | _ => rfl

/-- A node with a condition can be absent. -/
theorem alwaysPresent_of_condition (conditional : node.info.condition ≠ none) :
    node.alwaysPresent = false := by
  have stated : node.info.condition.isNone = false := by
    rw [← Bool.not_eq_true, Option.isNone_iff_eq_none]
    exact conditional
  cases node with
  | primitive | struct | optionalStruct | array => exact stated
  | terminated info terminator child =>
    have first : info.condition.isNone = false := stated
    rw [SchemaNode.alwaysPresent, first, Bool.false_and]
  | _ => rfl

/-- A lossless node is absent, or has the value of its body. -/
theorem Lossless.guardNode_cases (lossless : Lossless editor view node)
    (materializes : view.retention.materializes = true) {payload : Bytes}
    {state after : DecodeState} {decoded : Decoded}
    {body : Except SemanticError (Decoded × DecodeState)}
    (done : view.guardNode payload node state body = .ok (decoded, after)) :
    (decoded.value = .absent ∧ decoded.consumed = 0 ∧ node.alwaysPresent = false) ∨
      ∃ between, body = .ok (decoded, between) := by
  rw [Semantic.RecordView.guardNode] at done
  obtain ⟨applies, condition, done⟩ := bind_eq_ok.mp done
  cases applies with
  | false =>
    obtain rfl : ⟨.absent, 0, none⟩ = decoded := congrArg Prod.fst (Except.ok.inj done)
    refine .inl ⟨rfl, rfl, ?_⟩
    rw [Semantic.RecordView.nodeApplies] at condition
    have conditional : node.info.condition ≠ none := by
      intro none
      rw [SchemaNode.condition, none] at condition
      cases condition
    exact alwaysPresent_of_condition conditional
  | true =>
    obtain ⟨result, bodyDone, done⟩ := bind_eq_ok.mp done
    refine .inr ⟨result.2, ?_⟩
    dsimp only at done
    unfold Semantic.RecordView.finishNode at done
    rw [if_pos materializes, Semantic.RecordView.applyNormalizers_own lossless.own, ok_bind] at done
    dsimp only at done
    rw [lossless.applyFloatReadSemantics, ok_bind] at done
    obtain rfl : result.1 = decoded := congrArg Prod.fst (Except.ok.inj done)
    exact bodyDone

/-- The absent value of a lossless node is written back: it is refused. -/
theorem Lossless.kept (lossless : Lossless editor view node)
    (materializes : view.retention.materializes = true) {payload : Bytes}
    {state after : DecodeState} {decoded : Decoded} {current : Bytes}
    {body : Except SemanticError (Decoded × DecodeState)}
    (done : view.guardNode payload node state body = .ok (decoded, after))
    (kept : ∀ between, body = .ok (decoded, between) → KeptBy editor view node current decoded) :
    KeptBy editor view node current decoded := by
  rcases lossless.guardNode_cases materializes done with ⟨absent, nothing, never⟩ | ⟨between, bodyDone⟩
  · refine ⟨fun _ => nothing, fun always => ?_, fun context scope written encoded => ?_, ?_⟩
    · rw [never] at always
      contradiction
    · rw [absent] at encoded
      exact absurd encoded (encode_absent_ne_ok lossless context scope written)
    · rw [absent]
      exact lossless.accepts_absent
  · exact kept between bodyDone

/-- Members of a struct that are written back, behind the bytes in front of them. -/
structure MembersKept (editor : RecordEditor) (view : Semantic.RecordView) (current : Bytes)
    (optionalFrom : Option Nat) (fields : List SchemaNode) (index cursor : Nat)
    (members : List NamedValue) (stop : Nat) : Prop where
  /-- Absent members take no byte. -/
  absent : (∀ value ∈ members, value.value = .absent) → stop = cursor
  /-- The values are accepted. -/
  accepts : List.Forall₂ (fun field value => Accepts editor view field value.value) fields members
  /-- What is written are the bytes up to the end. -/
  writes : ∀ context path arrayIndices scopeValues output written,
    WritesBack current cursor output →
      editor.encodeFields context path arrayIndices optionalFrom fields (handlerToOwnedFields members)
        index scopeValues output = .ok written → WritesBack current stop written

/-- No member is left. -/
theorem MembersKept.nil {current : Bytes} {optionalFrom : Option Nat} (index cursor : Nat) :
    MembersKept editor view current optionalFrom [] index cursor [] cursor := by
  refine ⟨fun _ => rfl, .nil, ?_⟩
  intro context path arrayIndices scopeValues output written front encoded
  rw [handlerToOwnedFields, RecordEditor.encodeFields] at encoded
  · obtain rfl := Except.ok.inj encoded
    exact front
  · simp

/-- A member, absent or not, in front of the others. -/
theorem MembersKept.cons {current : Bytes} {optionalFrom : Option Nat} {fields : List SchemaNode}
    {index cursor middle stop : Nat} {field : SchemaNode} {value : NamedValue}
    {members : List NamedValue}
    (others : MembersKept editor view current optionalFrom fields (index + 1) middle members stop)
    (lossless : Lossless editor view field) (ends : value.value = .absent → middle = cursor)
    (kept : value.value ≠ .absent → ∀ context scope written,
      editor.encodeNodeWithScope context field (handlerToOwnedValue value.value) scope = .ok written →
        ∀ output, WritesBack current cursor output → WritesBack current middle (output ++ written))
    (accepted : Accepts editor view field value.value) :
    MembersKept editor view current optionalFrom (field :: fields) index cursor (value :: members)
      stop := by
  refine ⟨fun absent => ?_, .cons accepted others.accepts, ?_⟩
  · obtain ⟨first, rest⟩ := List.forall_mem_cons.mp absent
    rw [others.absent rest, ends first]
  · intro context path arrayIndices scopeValues output written front encoded
    rw [handlerToOwnedFields_cons, RecordEditor.encodeFields] at encoded
    by_cases absent : value.value = .absent
    · split at encoded
      · split at encoded
        · rename_i omitted
          obtain rfl := Except.ok.inj encoded
          rw [others.absent ((all_isAbsent_iff members).mp omitted), ends absent]
          exact front
        · contradiction
      · obtain ⟨bytes, encodedField, _⟩ := bind_eq_ok.mp encoded
        rw [absent] at encodedField
        exact absurd encodedField (encode_absent_ne_ok lossless _ _ bytes)
    · have present : (handlerToOwnedValue value.value).isAbsent = false := by
        rw [← Bool.not_eq_true, isAbsent_handlerToOwnedValue]
        exact absent
      rw [present, Bool.and_false, if_neg Bool.false_ne_true] at encoded
      obtain ⟨bytes, encodedField, encoded⟩ := bind_eq_ok.mp encoded
      have behind := kept absent _ _ _ encodedField output front
      dsimp only at encoded
      split at encoded
      · exact others.writes _ _ _ _ _ _ behind encoded
      · obtain ⟨handlerValue, _, encoded⟩ := bind_eq_ok.mp encoded
        exact others.writes _ _ _ _ _ _ behind encoded

/-- Elements of an array that are written back, behind the bytes in front of them. -/
structure ElementsKept (editor : RecordEditor) (view : Semantic.RecordView) (element : SchemaNode)
    (current : Bytes) (cursor : Nat) (elements : List FieldValue) (stop : Nat) : Prop where
  /-- The values are accepted. -/
  accepts : ∀ value ∈ elements, Accepts editor view element value
  /-- What is written are the bytes up to the end. -/
  writes : ∀ context (scope : EncodeScope) start parts output, WritesBack current cursor output →
    List.Forall₂ (fun item part => editor.encodeNodeWithScope context element item.1
      { scope with arrayIndices := scope.arrayIndices ++ [item.2] } = .ok part)
      ((handlerToOwnedValues elements).zipIdx start) parts →
        WritesBack current stop (output ++ parts.flatten)

/-- No element is left. -/
theorem ElementsKept.nil {element : SchemaNode} {current : Bytes} (cursor : Nat) :
    ElementsKept editor view element current cursor [] cursor := by
  refine ⟨List.forall_mem_nil _, ?_⟩
  intro context scope start parts output front encoded
  cases encoded
  rw [List.flatten_nil, List.append_nil]
  exact front

/-- An element in front of the others. -/
theorem ElementsKept.cons {element : SchemaNode} {current : Bytes} {cursor stop : Nat}
    {decoded : Decoded} {elements : List FieldValue}
    (others : ElementsKept editor view element current (cursor + decoded.consumed) elements stop)
    (inside : cursor ≤ current.length) (consumed : decoded.consumed ≤ (current.drop cursor).length)
    (kept : KeptBy editor view element (current.drop cursor) decoded) :
    ElementsKept editor view element current cursor (decoded.value :: elements) stop := by
  refine ⟨List.forall_mem_cons.mpr ⟨kept.accepts, others.accepts⟩, ?_⟩
  intro context scope start parts output front encoded
  rw [handlerToOwnedValues, List.zipIdx_cons] at encoded
  obtain ⟨part, parts, first, rest, rfl⟩ := List.forall₂_cons_left_iff.mp encoded
  rw [List.flatten_cons, ← List.append_assoc]
  exact others.writes context scope (start + 1) parts (output ++ part)
    (front.append inside consumed (kept.writes _ _ _ first)) rest

/-- No codec is found among recorded codecs that are empty. -/
theorem recorded_of_empty {recorded : List (List InlineStringCodec)}
    (empty : ∀ codecs ∈ recorded, codecs = []) (index : Nat) (own : InlineStringCodec → Bool) :
    (recorded[index]?.bind fun codecs => codecs.find? own) = none := by
  cases found : recorded[index]? with
  | none => rfl
  | some codecs =>
    rw [empty codecs (List.mem_of_getElem? found)]
    rfl

/-- Without a policy the view reads strings as their schema says. -/
theorem NoPolicy.explicitCodec (plain : NoPolicy editor view) (path : String) (frame : DecodeFrame) :
    view.explicitCodec path frame = none := by
  have empty := plain.view
  rw [Semantic.RecordView.explicitCodec]
  cases recorded : view.inlineCodecs with
  | none => rfl
  | some codecs =>
    rw [recorded, Option.getD_some] at empty
    exact recorded_of_empty empty _ _

/-- Without a policy the editor writes strings as their schema says. -/
theorem NoPolicy.writtenInlineEncoding (plain : NoPolicy editor view)
    (same : editor.context = view.context) (path : String) (index : Option Nat)
    (arrayIndices : List Nat) : editor.writtenInlineEncoding path index arrayIndices = none := by
  have unrecorded : (do
      let index ← index
      let codecs ← editor.inlineStringCodecs[index]?
      codecs.find? fun codec => codec.path = path && codec.arrayIndices = arrayIndices) = none := by
    cases index with
    | none => rfl
    | some index => exact recorded_of_empty plain.editor index _
  rw [RecordEditor.writtenInlineEncoding, unrecorded, same, plain.context]
  rfl

namespace RecordEditor

variable {editor : RecordEditor} {schema : SchemaRecord}

end RecordEditor

namespace RecordEditor

end RecordEditor

end Bethkit
