import Bethkit.Lib.Outcome
import Bethkit.Lib.Rollback
import Bethkit.Spec.Sample

/-!
# A failed edit changes nothing

Every operation of the editor that returns an error leaves the editor exactly as it found it:
record, decoded values and inline codecs. Most operations only compute before they commit; the two
that record a codec before it is verified put the previous codecs back.
-/

namespace Bethkit

open Lib

/-- The operation ended with an error, not with a panic. -/
def EditFailure.IsError (failure : EditFailure) : Prop := ∃ error, failure = .error error

/-- The operation leaves an editor as it was whenever it returns an error. -/
abbrev EditorM.RollsBack {α : Type} (action : EditorM α) (editor : RecordEditor) : Prop :=
  RollsBackAt EditFailure.IsError editor action

namespace EditorM

/-- The result of a reading method keeps the editor. -/
theorem outcome_semantic {α : Type} (result : Except SemanticError α) (editor : RecordEditor) :
    Transaction.outcome (EditorM.semantic result) editor = (result.mapError EditFailure.error, editor) := by
  cases result <;> rfl

/-- What follows a reading method: a failure of the method keeps the editor. -/
theorem rollsBack_semantic {α β : Type} {result : Except SemanticError α} {next : α → EditorM β}
    {editor : RecordEditor}
    (rest : ∀ value, result = .ok value → (next value).RollsBack editor) :
    (EditorM.semantic result >>= next).RollsBack editor := by
  cases result with
  | ok value => exact RollsBackAt.bind_of_keeps (outcome_semantic (.ok value) editor) (rest value rfl)
  | error error =>
    intro failure after failed _
    rw [Transaction.outcome_bind, outcome_semantic] at failed
    simp only [Except.mapError, Prod.mk.injEq] at failed
    exact failed.2.symm

end EditorM

namespace RecordEditor

/-- Making room for codecs can only panic. -/
theorem commitInsertion_rollsBack (index : Nat) (candidate : Candidate) (editor : RecordEditor) :
    (commitInsertion index candidate).RollsBack editor := by
  intro failure after failed isError
  obtain ⟨error, rfl⟩ := isError
  simp only [commitInsertion, Transaction.outcome_bind, Transaction.outcome_modify,
    Transaction.outcome_get] at failed
  cases room : insertSlot (editor.commit candidate).inlineStringCodecs index [] with
  | some codecs => simp [room] at failed
  | none => simp [room] at failed

/-- `set` commits last. -/
theorem set_rollsBack (path : String) (occurrence : Nat) (value : OwnedFieldValue)
    (editor : RecordEditor) : (set path occurrence value).RollsBack editor :=
  RollsBackAt.bind_get (EditorM.rollsBack_semantic fun _ _ => RollsBackAt.modify _)

/-- `set_parsed_value` commits last. -/
theorem setParsedValue_rollsBack (path : String) (occurrence : Nat) (parsed : ParsedEditValue)
    (editor : RecordEditor) : (setParsedValue path occurrence parsed).RollsBack editor :=
  RollsBackAt.bind_get (EditorM.rollsBack_semantic fun _ _ => RollsBackAt.modify _)

/-- `set_record_editor_id` commits last. -/
theorem setRecordEditorId_rollsBack (editorId : String) (editor : RecordEditor) :
    (setRecordEditorId editorId).RollsBack editor := by
  refine RollsBackAt.bind_get (EditorM.rollsBack_semantic fun candidate _ => ?_)
  cases candidate with
  | none => exact RollsBackAt.pure false
  | some candidate =>
    refine RollsBackAt.bind_of_total (RollsBackAt.modify _) ?_
    intro _ from_ error after failed
    simp at failed

/-- `insert` commits last. -/
theorem insert_rollsBack (path : String) (value : OwnedFieldValue) (editor : RecordEditor) :
    (insert path value).RollsBack editor := by
  refine RollsBackAt.bind_get (EditorM.rollsBack_semantic fun inserted _ => ?_)
  exact commitInsertion_rollsBack inserted.1 inserted.2 editor

/-- `remove` commits last. -/
theorem remove_rollsBack (path : String) (occurrence : Nat) (editor : RecordEditor) :
    (remove path occurrence).RollsBack editor :=
  RollsBackAt.bind_get (EditorM.rollsBack_semantic fun _ _ => RollsBackAt.modify _)

variable (sha256 : Sha256)

/-- `set_at` resolves its address before it sets. -/
theorem setAt_rollsBack (address : FieldAddress) (value : OwnedFieldValue)
    (editor : RecordEditor) : (setAt sha256 address value).RollsBack editor :=
  RollsBackAt.bind_get (EditorM.rollsBack_semantic fun target _ =>
    set_rollsBack target.1.path target.1.occurrence target.2 editor)

/-- `insert_at` resolves its address before it changes anything. -/
theorem insertAt_rollsBack (address : FieldAddress) (value : OwnedFieldValue)
    (editor : RecordEditor) : (insertAt sha256 address value).RollsBack editor := by
  refine RollsBackAt.bind_get (EditorM.rollsBack_semantic fun field _ => ?_)
  refine EditorM.rollsBack_semantic fun updated _ => ?_
  cases updated with
  | some updated => exact set_rollsBack field.path field.occurrence updated editor
  | none =>
    exact EditorM.rollsBack_semantic fun candidate _ =>
      commitInsertion_rollsBack field.subrecordIndex candidate editor

/-- `remove_at` resolves its address before it changes anything. -/
theorem removeAt_rollsBack (address : FieldAddress) (editor : RecordEditor) :
    (removeAt sha256 address).RollsBack editor := by
  refine RollsBackAt.bind_get (EditorM.rollsBack_semantic fun field _ => ?_)
  cases address.valueSteps.getLast? with
  | none => exact remove_rollsBack field.path field.occurrence editor
  | some last =>
    exact EditorM.rollsBack_semantic fun updated _ =>
      set_rollsBack field.path field.occurrence updated editor

/-- The field that an address selects is the subrecord that it names. -/
theorem addressedField_index {sha256 : Sha256} {editor : RecordEditor} {address : FieldAddress}
    {field : Field} (found : editor.addressedField sha256 address = .ok field) :
    field.subrecordIndex = address.subrecordIndex := by
  unfold addressedField at found
  split at found
  · cases found
  · simp only [bind_eq_ok] at found
    obtain ⟨fields, -, found⟩ := found
    split at found
    · cases found
    · split at found
      · rename_i selected search
        obtain rfl := Except.ok.inj found
        have selects := List.find?_some search
        simp only [Bool.and_eq_true, decide_eq_true_eq] at selects
        exact selects.1.1
      · cases found

/-- The codecs that a target check reports are those recorded for its subrecord, which is the one
that the address names. -/
theorem inlineTarget_previous {editor : RecordEditor} {address : FieldAddress} {path : String}
    {encoding : InlineStringEncoding} {index : Nat} {previous : List InlineStringCodec}
    (target : editor.inlineTarget sha256 address path encoding = .ok (index, previous)) :
    index = address.subrecordIndex ∧ editor.inlineStringCodecs[index]? = some previous := by
  unfold inlineTarget at target
  split at target
  · cases target
  · simp only [bind_eq_ok] at target
    obtain ⟨field, found, value, -, target⟩ := target
    have named := addressedField_index found
    split at target
    · cases target
    · split at target
      · cases target
      · split at target
        · cases target
        · split at target
          · cases target
          · rename_i codecs recorded
            simp only [Except.ok.injEq, Prod.mk.injEq] at target
            obtain ⟨rfl, rfl⟩ := target
            exact ⟨named, recorded⟩
      · cases target

/-- Putting the recorded codecs back undoes a change of them. -/
theorem setCodecs_restore {editor : RecordEditor} {index : Nat}
    {previous : List InlineStringCodec} (recorded : editor.inlineStringCodecs[index]? = some previous)
    (codecs : List InlineStringCodec) :
    (editor.setCodecs index codecs).setCodecs index previous = editor := by
  obtain ⟨inside, rfl⟩ := List.getElem?_eq_some_iff.mp recorded
  simp [setCodecs]

/-- A codec that does not select text is taken back. -/
theorem setInlineEncodingAt_rollsBack (address : FieldAddress) (path : String)
    (encoding : InlineStringEncoding) (editor : RecordEditor) :
    (setInlineEncodingAt sha256 address path encoding).RollsBack editor := by
  refine RollsBackAt.bind_get (EditorM.rollsBack_semantic fun target checked => ?_)
  obtain ⟨index, previous⟩ := target
  have recorded := (inlineTarget_previous sha256 checked).2
  intro failure after failed _
  simp only [Transaction.outcome_bind, Transaction.outcome_modify,
    Transaction.outcome_get] at failed
  split at failed
  · simp at failed
  · simp only [Transaction.outcome_bind, Transaction.outcome_modify, Transaction.outcome_throw,
      Prod.mk.injEq] at failed
    rw [← failed.2, setCodecs_restore recorded]

/-- A selected codec changes the codecs of its subrecord only. -/
theorem setInlineEncodingAt_ok {address : FieldAddress} {path : String}
    {encoding : InlineStringEncoding} {editor after : RecordEditor}
    (selected : Transaction.outcome (setInlineEncodingAt sha256 address path encoding) editor =
      (.ok (), after)) :
    ∃ codecs, after = editor.setCodecs address.subrecordIndex codecs := by
  unfold setInlineEncodingAt at selected
  rw [Transaction.outcome_bind, Transaction.outcome_get] at selected
  simp only [Transaction.outcome_bind, EditorM.outcome_semantic] at selected
  cases checked : editor.inlineTarget sha256 address path encoding with
  | error error => simp [checked, Except.mapError] at selected
  | ok target =>
    obtain ⟨index, previous⟩ := target
    have named := (inlineTarget_previous sha256 checked).1
    simp only [checked, Except.mapError, Transaction.outcome_modify,
      Transaction.outcome_get] at selected
    split at selected
    · simp only [Transaction.outcome_pure, Prod.mk.injEq, true_and] at selected
      exact ⟨_, by rw [← selected, named]⟩
    · simp [Transaction.outcome_bind] at selected

/-- A text that cannot be set takes its codec back. -/
theorem setStringAtWithEncoding_rollsBack (address : FieldAddress) (path : String)
    (encoding : InlineStringEncoding) (text : String) (editor : RecordEditor) :
    (setStringAtWithEncoding sha256 address path encoding text).RollsBack editor := by
  refine RollsBackAt.bind_get ?_
  cases recorded : editor.inlineStringCodecs[address.subrecordIndex]? with
  | none => exact RollsBackAt.throw _
  | some previous =>
    intro failure after failed isError
    simp only [Transaction.outcome_bind] at failed
    cases selection :
        Transaction.outcome (setInlineEncodingAt sha256 address path encoding) editor with
    | mk result middle =>
      cases result with
      | error cause =>
        simp only [selection, Prod.mk.injEq, Except.error.injEq] at failed
        obtain ⟨rfl, rfl⟩ := failed
        exact setInlineEncodingAt_rollsBack sha256 address path encoding editor _ _ selection
          isError
      | ok done =>
        obtain ⟨codecs, changed⟩ := setInlineEncodingAt_ok sha256 selection
        simp only [selection, Transaction.outcome_tryCatch] at failed
        cases replacement : Transaction.outcome (setAt sha256 address (.string text)) middle with
        | mk result last =>
          cases result with
          | ok done => simp [replacement] at failed
          | error cause =>
            simp only [replacement, Transaction.outcome_bind, Transaction.outcome_modify,
              Transaction.outcome_throw, Prod.mk.injEq, Except.error.injEq] at failed
            obtain ⟨rfl, rfl⟩ := failed
            have kept : last = middle :=
              setAt_rollsBack sha256 address _ middle _ _ replacement isError
            rw [kept, changed, setCodecs_restore recorded]

end RecordEditor

/-- An operation that returns an error leaves the record, the decoded values and the inline codecs
as they were. -/
theorem EditorOp.step_failed (sha256 : Sha256) (op : EditorOp) (editor after : RecordEditor)
    (error : SemanticError) (failed : op.step sha256 editor = (.error (.error error), after)) :
    after.record = editor.record ∧ after.decodedValues = editor.decodedValues ∧
      after.inlineStringCodecs = editor.inlineStringCodecs := by
  have rollsBack : (op.run sha256).RollsBack editor := by
    cases op with
    | set path occurrence value => exact RecordEditor.set_rollsBack path occurrence value editor
    | setParsedValue path occurrence parsed =>
      exact RecordEditor.setParsedValue_rollsBack path occurrence parsed editor
    | setRecordEditorId editorId =>
      refine RollsBackAt.bind_of_total
        (RecordEditor.setRecordEditorId_rollsBack editorId editor) ?_
      intro _ from_ cause last stopped
      simp at stopped
    | insert path value => exact RecordEditor.insert_rollsBack path value editor
    | remove path occurrence => exact RecordEditor.remove_rollsBack path occurrence editor
    | setAt address value => exact RecordEditor.setAt_rollsBack sha256 address value editor
    | insertAt address value => exact RecordEditor.insertAt_rollsBack sha256 address value editor
    | removeAt address => exact RecordEditor.removeAt_rollsBack sha256 address editor
    | setInlineEncodingAt address path encoding =>
      exact RecordEditor.setInlineEncodingAt_rollsBack sha256 address path encoding editor
    | setStringAtWithEncoding address path encoding text =>
      exact RecordEditor.setStringAtWithEncoding_rollsBack sha256 address path encoding text editor
  have same : after = editor := rollsBack _ _ failed ⟨error, rfl⟩
  subst same
  exact ⟨rfl, rfl, rfl⟩

/-- An edit of a record without a schema fails and changes nothing. -/
theorem EditorOp.step_failed_missingSchema :
    let editor := RecordEditor.sample (.sample [] [] []) (.sample .DATA [⟨.EDID, [0]⟩])
    let after := ((EditorOp.set "DATA/EDID" 0 (.string "")).step .constant editor).2
    after.record = editor.record ∧ after.decodedValues = editor.decodedValues ∧
      after.inlineStringCodecs = editor.inlineStringCodecs :=
  EditorOp.step_failed .constant (.set "DATA/EDID" 0 (.string ""))
    (.sample (.sample [] [] []) (.sample .DATA [⟨.EDID, [0]⟩])) _
    (.missingRecordSchema Signature.DATA.display) rfl

end Bethkit
