import Bethkit.Verif.Observation

/-!
# A check decodes as a reading does

A decoder that discards containers runs in step with one that keeps them: where the static
analysis of a payload says that no value can be observed, both take the same bytes, make the same
selections and fail alike. So the check of a record fails exactly where its reading does.
-/

namespace Bethkit

open Lib

/-- A discarded container has no number, like a kept one. -/
theorem ValuesAgree.number_eq {discarded kept : FieldValue}
    (agree : ValuesAgree discarded kept) :
    numericFieldValue discarded = numericFieldValue kept := by
  rcases agree with rfl | ⟨rfl, container⟩
  · rfl
  · cases kept with
    | array _ | struct _ => rfl
    | _ => cases container

namespace Semantic.RecordView

variable {view : Semantic.RecordView} {track observed : Bool} {node : SchemaNode}

/-- Finishing a node keeps the agreement. -/
theorem finishNode_agrees (unobserved : Unobserved view.context.registry node observed)
    {discarded kept : Decoded} {state other : DecodeState} (decoded : discarded.Agrees kept)
    (states : state.Agrees track other)
    (plain : discarded.value = kept.value ∨
      ∀ value, applyFloatReadSemantics node value = .ok value) :
    Agree (NodesAgree track) ((view.discarding track).finishNode node discarded state)
      (view.keeping.finishNode node kept other) := by
  have normalized := applyNormalizers_unobserved unobserved view.record kept.value
  rw [finishNode, finishNode]
  show Agree _ (applyFloatReadSemantics node discarded.value >>= _)
    (view.context.applyNormalizers node.path view.record kept.value >>= _)
  rw [normalized, ok_bind]
  show Agree _ _ (applyFloatReadSemantics node kept.value >>= _)
  rcases plain with same | plain
  · rw [same]
    refine Agree.bind_same fun value => .ok ?_
    refine ⟨⟨.inl rfl, decoded.consumed, decoded.effectivePath⟩, ⟨?_, states.selections⟩⟩
    rintro rfl
    simp only [states.fieldValues rfl]
    rfl
  · rw [plain, plain]
    refine .ok ⟨⟨decoded.value, decoded.consumed, decoded.effectivePath⟩, ⟨?_, states.selections⟩⟩
    rintro rfl
    simp only [decoded.value.number_eq, states.fieldValues rfl]
    rfl

/-- Conditions read the same numbers. -/
theorem nodeApplies_agrees (unobserved : Unobserved view.context.registry node observed)
    (tracked : observed = true → track = true) {state other : DecodeState}
    (states : state.Agrees track other) (payload : Bytes) :
    (view.discarding track).nodeApplies node payload state.fieldValues =
      view.keeping.nodeApplies node payload other.fieldValues := by
  rw [nodeApplies.eq_def, nodeApplies.eq_def]
  cases given : node.condition with
  | none => rfl
  | some condition =>
    have same : state.fieldValues = other.fieldValues :=
      states.fieldValues (tracked (unobserved.condition (by rw [given]; rfl)))
    rw [same]
    rfl

/-- A guarded node agrees if its body does. -/
theorem guardNode_agrees (unobserved : Unobserved view.context.registry node observed)
    (tracked : observed = true → track = true) {state other : DecodeState}
    (states : state.Agrees track other) (payload : Bytes)
    {body kept : Except SemanticError (Decoded × DecodeState)}
    (bodies : Agree (fun first second => NodesAgree track first second ∧
      (first.1.value = second.1.value ∨
        ∀ value, applyFloatReadSemantics node value = .ok value)) body kept) :
    Agree (NodesAgree track) ((view.discarding track).guardNode payload node state body)
      (view.keeping.guardNode payload node other kept) := by
  rw [guardNode, guardNode, nodeApplies_agrees unobserved tracked states payload]
  refine Agree.bind_same fun applies => ?_
  cases applies with
  | false =>
    exact .ok ⟨⟨.inl rfl, rfl, rfl⟩, states⟩
  | true =>
    exact bodies.bind fun first second both =>
      finishNode_agrees unobserved both.1.1 both.1.2 both.2

/-- Primitives are decoded alike. -/
theorem decodePrimitiveNode_agrees (path : String) (primitive : PrimitiveType) (current : Bytes)
    {frame otherFrame : DecodeFrame} (frames : frame.Agrees otherFrame)
    {state other : DecodeState} (states : state.Agrees track other) :
    Agree (fun first second => NodesAgree track first second ∧ first.1.value = second.1.value)
      ((view.discarding track).decodePrimitiveNode path primitive current frame state)
      (view.keeping.decodePrimitiveNode path primitive current otherFrame other) := by
  have explicit : (view.discarding track).explicitCodec path frame =
      view.keeping.explicitCodec path otherFrame := by
    rw [explicitCodec, explicitCodec, frames.sourceSubrecordIndex, frames.arrayIndices]
    rfl
  rw [decodePrimitiveNode, decodePrimitiveNode, explicit]
  refine Agree.bind_same fun consumed => ?_
  split
  case isTrue => exact .error _
  case isFalse =>
    refine Agree.bind_same fun result => ?_
    exact .ok ⟨⟨⟨.inl rfl, rfl, rfl⟩, ⟨states.fieldValues, states.selections⟩⟩, rfl⟩

/-- Array prefixes are read alike. -/
theorem arrayPrefix_agrees {count : ArrayCount} (declarative : ∀ callbackId, count ≠ .callback callbackId)
    (tracked : ∀ expression, count = .expression expression → track = true)
    {state other : DecodeState} (states : state.Agrees track other) (payload current : Bytes)
    (frame otherFrame : DecodeFrame) :
    (view.discarding track).arrayPrefix node count payload current state.fieldValues frame =
      view.keeping.arrayPrefix node count payload current other.fieldValues otherFrame := by
  cases count with
  | callback callbackId => exact absurd rfl (declarative callbackId)
  | expression expression =>
    rw [states.fieldValues (tracked expression rfl)]
    rfl
  | fixed | prefixed | packedPrefixed | squaredPrefixed | remainder => rfl

/-- Selectors read the same numbers. -/
theorem selectUnionIndex_agrees {selector : UnionSelector}
    (declarative : ∀ callbackId, selector ≠ .callback callbackId)
    {state other : DecodeState} (same : state.fieldValues = other.fieldValues)
    (payload current : Bytes) (frame otherFrame : DecodeFrame) :
    (view.discarding track).selectUnionIndex node selector payload current state.fieldValues frame =
      view.keeping.selectUnionIndex node selector payload current other.fieldValues otherFrame := by
  cases selector with
  | callback callbackId => exact absurd rfl (declarative callbackId)
  | expression expression =>
    rw [same]
    rfl

/-- The elements of an array are decoded alike. -/
theorem arrayLoop_agrees (unobserved : Unobserved view.context.registry node observed)
    {elementPath : String} {current : Bytes} {elementCount : Option Nat}
    {frame otherFrame : DecodeFrame} (frames : frame.Agrees otherFrame)
    {decode other : Bytes → DecodeFrame → DecodeState →
      Except SemanticError (Decoded × DecodeState)} (elements : DecodersAgree track decode other)
    (fuel decodedCount cursor : Nat) (values otherValues : List FieldValue)
    {state otherState : DecodeState} (states : state.Agrees track otherState) :
    Agree (fun first second => first.2.1 = second.2.1 ∧ first.2.2.Agrees track second.2.2)
      ((view.discarding track).arrayLoop node elementPath current elementCount frame decode fuel
        decodedCount cursor values state)
      (view.keeping.arrayLoop node elementPath current elementCount otherFrame other fuel
        decodedCount cursor otherValues otherState) := by
  induction fuel generalizing decodedCount cursor values otherValues state otherState with
  | zero => exact .ok ⟨rfl, states⟩
  | succ fuel more =>
    rw [arrayLoop, arrayLoop]
    split
    case isTrue => exact .ok ⟨rfl, states⟩
    split
    case isTrue => exact .ok ⟨rfl, states⟩
    split
    case isTrue => exact .error _
    have included : (view.discarding track).shouldIncludeArrayElement node (current.drop cursor)
        frame = .ok true := rfl
    show Agree _ (shouldIncludeArrayElement _ _ (current.drop cursor) _ >>= _)
      (shouldIncludeArrayElement _ _ (current.drop cursor) _ >>= _)
    rw [included, shouldIncludeArrayElement_unobserved unobserved, ok_bind, ok_bind]
    have inner : DecodeFrame.Agrees
        { frame with
          offset := frame.offset + cursor
          arrayIndices := frame.arrayIndices ++ [decodedCount] }
        { otherFrame with
          offset := otherFrame.offset + cursor
          arrayIndices := otherFrame.arrayIndices ++ [decodedCount] } :=
      ⟨by rw [frames.offset], frames.sourceSubrecordIndex, by rw [frames.arrayIndices]⟩
    refine (elements _ _ _ _ _ inner states).bind ?_
    rintro ⟨first, firstState⟩ ⟨second, secondState⟩ ⟨decoded, after⟩
    have consumed : first.consumed = second.consumed := decoded.consumed
    simp only [consumed]
    split
    case isTrue => exact .error _
    split
    case isTrue => exact .error _
    exact more _ _ _ _ after

/-- What a skipped array covers: a number of elements of a fixed size. -/
theorem arrayBytes_discard {element : SchemaNode} {elementCount : Option Nat}
    {available consumed : Nat}
    (skipped : (DecodeRetention.discard track).arrayBytes element elementCount available =
      some consumed) :
    track = false ∧ ∃ size rounds, unconstrainedSize element 0 = some size ∧
      consumed = size * rounds ∧ consumed ≤ available ∧
      (elementCount = some rounds ∨ elementCount = none ∧ 0 < size ∧ available = size * rounds) := by
  rw [DecodeRetention.arrayBytes] at skipped
  split at skipped
  case isTrue => cases skipped
  case isFalse untracked =>
    obtain ⟨size, sized, skipped⟩ := Option.bind_eq_some_iff.mp skipped
    have fits (rounds : Nat)
        (checked : ((usizeChecked (size * rounds)).bind fun consumed =>
          if consumed ≤ available then some consumed else none) = some consumed) :
        consumed = size * rounds ∧ consumed ≤ available := by
      obtain ⟨total, checked, fits⟩ := Option.bind_eq_some_iff.mp checked
      obtain rfl := usizeChecked_eq checked
      split at fits
      case isFalse => cases fits
      case isTrue enough => exact Option.some.inj fits ▸ ⟨rfl, enough⟩
    refine ⟨by simpa [DecodeRetention.materializes, DecodeRetention.tracksNumeric] using untracked,
      size, ?_⟩
    cases elementCount with
    | some count =>
      obtain ⟨same, enough⟩ := fits count skipped
      exact ⟨count, sized, same, enough, .inl rfl⟩
    | none =>
      simp only at skipped
      split at skipped
      case isFalse => cases skipped
      case isTrue whole =>
        obtain ⟨same, enough⟩ := fits (available / size) skipped
        exact ⟨available / size, sized, same, enough, .inr ⟨rfl, Nat.pos_of_ne_zero whole.1,
          (Nat.mul_div_cancel' (Nat.dvd_of_mod_eq_zero whole.2)).symm⟩⟩

/-- Arrays are decoded alike, even where one decoder skips all elements at once. -/
theorem decodeArray_agrees (unobserved : Unobserved view.context.registry node observed)
    {element : SchemaNode} {count : ArrayCount} (declarative : ∀ callbackId, count ≠ .callback callbackId)
    (tracked : ∀ expression, count = .expression expression → track = true)
    (takes : ∀ size, unconstrainedSize element 0 = some size →
      Takes size (decodeNode view.keeping payload element))
    (elements : DecodersAgree track (decodeNode (view.discarding track) payload element)
      (decodeNode view.keeping payload element))
    (current : Bytes) {frame otherFrame : DecodeFrame} (frames : frame.Agrees otherFrame)
    {state other : DecodeState} (states : state.Agrees track other) :
    Agree (NodesAgree track)
      ((view.discarding track).decodeArray node element count payload current frame state
        (decodeNode (view.discarding track) payload element))
      (view.keeping.decodeArray node element count payload current otherFrame other
        (decodeNode view.keeping payload element)) := by
  rw [decodeArray, decodeArray,
    arrayPrefix_agrees declarative tracked states payload current frame otherFrame]
  refine Agree.bind_same fun counted => ?_
  obtain ⟨prefixSize, elementCount⟩ := counted
  simp only
  split
  case isTrue => exact .error _
  case isFalse room =>
  have container (values otherValues : List FieldValue) : ValuesAgree
      (if (view.discarding track).retention.materializes then .array values else .absent)
      (if view.keeping.retention.materializes then .array otherValues else .absent) :=
    .inr ⟨rfl, rfl⟩
  cases skipped : (view.discarding track).retention.arrayBytes element elementCount
      (current.length - prefixSize) with
  | none =>
    refine (arrayLoop_agrees unobserved frames elements _ _ _ _ _ states).bind ?_
    rintro ⟨values, cursor, after⟩ ⟨otherValues, otherCursor, otherAfter⟩ ⟨same, afters⟩
    exact .ok ⟨⟨container values otherValues, same, rfl⟩, afters⟩
  | some consumed =>
    obtain ⟨rfl, size, rounds, sized, rfl, enough, whole⟩ := arrayBytes_discard skipped
    have counted : elementCount = some (0 + rounds) ∧ elementCount.getD (current.length + 1) = rounds ∨
        elementCount = none ∧ 0 < size ∧ rounds < elementCount.getD (current.length + 1) ∧
          current.length = prefixSize + size * rounds := by
      rcases whole with rfl | ⟨rfl, positive, whole⟩
      · exact .inl ⟨by rw [Nat.zero_add], rfl⟩
      · have bounded : rounds ≤ size * rounds := Nat.le_mul_of_pos_left _ positive
        refine .inr ⟨rfl, positive, ?_, by omega⟩
        rw [Option.getD_none]
        omega
    have run : ∃ values after, view.keeping.arrayLoop node element.path current elementCount
        otherFrame (decodeNode view.keeping payload element)
        (elementCount.getD (current.length + 1)) 0 prefixSize [] other =
          .ok (values, prefixSize + size * rounds, after) ∧ after.selections = other.selections :=
      arrayLoop_takes unobserved (takes size sized) _ counted (by omega)
    obtain ⟨values, after, done, kept⟩ := run
    show Agree _ _ (view.keeping.arrayLoop _ _ _ _ _ _ _ _ _ [] other >>= _)
    rw [done]
    exact .ok ⟨⟨.inr ⟨rfl, rfl⟩, rfl, rfl⟩,
      ⟨fun impossible => absurd impossible (by decide), states.selections.trans kept.symm⟩⟩

/-- Terminators are read alike. -/
theorem decodeTerminator_agrees (path : String) (terminator : UInt8) (current : Bytes)
    {discarded kept : Decoded} (decoded : discarded.Agrees kept) :
    Agree Decoded.Agrees (decodeTerminator path terminator current discarded)
      (decodeTerminator path terminator current kept) := by
  rw [decodeTerminator, decodeTerminator, decoded.consumed]
  split
  case h_1 => exact .error _
  case h_2 =>
    split
    case isTrue => exact .error _
    case isFalse =>
      exact .ok ⟨decoded.value, rfl, decoded.effectivePath⟩

mutual

/-- An unobserved node is decoded alike. -/
theorem decodeNode_agrees (payload : Bytes) (node : SchemaNode) {depth : Nat} {observed : Bool}
    (analyzed : analyze view.context.registry node depth = some observed)
    (tracked : observed = true → track = true) :
    DecodersAgree track (decodeNode (view.discarding track) payload node)
      (decodeNode view.keeping payload node) := by
  have unobserved := analyze_unobserved analyzed
  have children := analyze_children analyzed
  intro current frame otherFrame state other frames states
  match node with
  | .primitive info primitive =>
    rw [decodeNode, decodeNode]
    refine guardNode_agrees unobserved tracked states payload ?_
    exact (decodePrimitiveNode_agrees info.path primitive current frames states).mono
      fun both => ⟨both.1, .inl both.2⟩
  | .struct _ fields =>
    rw [decodeNode, decodeNode]
    refine guardNode_agrees unobserved tracked states payload ?_
    refine (decodeFields_agrees payload fields children tracked current frames none 0 0 false
      [] [] states).bind fun first second both => ?_
    exact .ok ⟨⟨⟨.inr ⟨rfl, rfl⟩, both.1, rfl⟩, both.2⟩, .inr fun _ => rfl⟩
  | .optionalStruct _ fields optionalFrom =>
    rw [decodeNode, decodeNode]
    refine guardNode_agrees unobserved tracked states payload ?_
    refine (decodeFields_agrees payload fields children tracked current frames
      (some optionalFrom.toNat) 0 0 false [] [] states).bind fun first second both => ?_
    exact .ok ⟨⟨⟨.inr ⟨rfl, rfl⟩, both.1, rfl⟩, both.2⟩, .inr fun _ => rfl⟩
  | .array info element count =>
    obtain ⟨declarative, numeric⟩ := analyze_count analyzed
    obtain ⟨inner, here, raised⟩ := children element (List.mem_singleton.mpr rfl)
    rw [decodeNode, decodeNode]
    refine guardNode_agrees unobserved tracked states payload ?_
    refine (decodeArray_agrees unobserved declarative
      (fun expression same => tracked (numeric expression same))
      (fun size sized => decodeNode_takes payload element sized here)
      (decodeNode_agrees payload element here (fun same => tracked (raised same)))
      current frames states).mono fun both => ⟨both, .inr fun _ => rfl⟩
  | .union info selector variants =>
    obtain ⟨declarative, numeric⟩ := analyze_selector analyzed
    rw [decodeNode, decodeNode]
    refine guardNode_agrees unobserved tracked states payload ?_
    rw [selectUnionIndex_agrees declarative (states.fieldValues (tracked numeric))
      payload current frame otherFrame]
    refine Agree.bind_same fun index => ?_
    exact (decodeVariantAt_agrees payload info.path index variants children tracked index current
      frames states).mono fun both => ⟨both, .inr fun _ => rfl⟩
  | .terminated info terminator child =>
    obtain ⟨inner, here, raised⟩ := children child (List.mem_singleton.mpr rfl)
    rw [decodeNode, decodeNode]
    refine guardNode_agrees unobserved tracked states payload ?_
    refine (decodeNode_agrees payload child here (fun same => tracked (raised same)) current frame
      otherFrame state other frames states).bind fun first second both => ?_
    refine (decodeTerminator_agrees info.path terminator current both.1).bind
      fun decoded kept same => ?_
    exact .ok ⟨⟨same, both.2⟩, .inr fun _ => rfl⟩
  | .custom _ _ _ | .compressed _ _ _ | .reference _ _ | .sequence _ _ | .unordered _ _
  | .choice _ _ | .selectedChoice _ _ _ | .repeat _ _ _ _ | .subrecord _ _ _ =>
    rw [analyze.eq_def] at analyzed
    simp only [ite_self] at analyzed
    cases analyzed
termination_by structural node

/-- Unobserved fields are decoded alike. -/
theorem decodeFields_agrees (payload : Bytes) (fields : List SchemaNode) {depth : Nat}
    {observed : Bool}
    (analyzed : ∀ field ∈ fields, ChildUnobserved view.context.registry depth observed field)
    (tracked : observed = true → track = true) (current : Bytes) {frame otherFrame : DecodeFrame}
    (frames : frame.Agrees otherFrame) (optionalFrom : Option Nat) (index cursor : Nat)
    (absent : Bool) (values otherValues : List NamedValue) {state other : DecodeState}
    (states : state.Agrees track other) :
    Agree (fun first second => first.2.1 = second.2.1 ∧ first.2.2.Agrees track second.2.2)
      (decodeFields (view.discarding track) payload current frame optionalFrom fields index cursor
        absent values state)
      (decodeFields view.keeping payload current otherFrame optionalFrom fields index cursor
        absent otherValues other) := by
  match fields with
  | [] => exact .ok ⟨rfl, states⟩
  | field :: fields =>
    obtain ⟨inner, here, raised⟩ := analyzed field List.mem_cons_self
    have raised (same : inner = true) : track = true := tracked (raised same)
    have others := fun other member => analyzed other (List.mem_cons_of_mem field member)
    rw [decodeFields, decodeFields,
      nodeApplies_agrees (analyze_unobserved here) raised states payload]
    refine Agree.bind_same fun applies => ?_
    split
    case isTrue =>
      exact decodeFields_agrees payload fields others tracked current frames optionalFrom _ _ _ _ _
        states
    split
    case isTrue => exact .error _
    simp only
    split
    case isTrue =>
      exact decodeFields_agrees payload fields others tracked current frames optionalFrom _ _ _ _ _
        states
    have inner : DecodeFrame.Agrees
        { frame with offset := frame.offset + cursor, siblingValues := values }
        { otherFrame with offset := otherFrame.offset + cursor, siblingValues := otherValues } :=
      ⟨by rw [frames.offset], frames.sourceSubrecordIndex, frames.arrayIndices⟩
    refine (decodeNode_agrees payload field here raised (current.drop cursor) _ _ state other inner
      states).bind fun first second both => ?_
    show Agree _ (decodeFields _ _ _ _ _ _ _ (cursor + first.1.consumed) _ _ _) _
    rw [both.1.consumed]
    exact decodeFields_agrees payload fields others tracked current frames optionalFrom _ _ _ _ _
      both.2
termination_by structural fields

/-- Unobserved variants are decoded alike. -/
theorem decodeVariantAt_agrees (payload : Bytes) (unionPath : String) (selected : Nat)
    (variants : List SchemaNode) {depth : Nat} {observed : Bool}
    (analyzed : ∀ variant ∈ variants, ChildUnobserved view.context.registry depth observed variant)
    (tracked : observed = true → track = true) (position : Nat) (current : Bytes)
    {frame otherFrame : DecodeFrame} (frames : frame.Agrees otherFrame)
    {state other : DecodeState} (states : state.Agrees track other) :
    Agree (NodesAgree track)
      (decodeVariantAt (view.discarding track) payload unionPath selected variants position current
        frame state)
      (decodeVariantAt view.keeping payload unionPath selected variants position current
        otherFrame other) := by
  match variants with
  | [] => exact .error _
  | variant :: variants =>
    cases position with
    | zero =>
      obtain ⟨inner, here, raised⟩ := analyzed variant List.mem_cons_self
      rw [decodeVariantAt, decodeVariantAt]
      refine (decodeNode_agrees payload variant here (fun same => tracked (raised same)) current
        frame otherFrame state other frames states).bind fun first second both => ?_
      refine .ok ⟨⟨both.1.value, both.1.consumed, ?_⟩, ⟨both.2.fieldValues, ?_⟩⟩
      · show some (first.1.effectivePath.getD variant.path) = _
        rw [both.1.effectivePath]
      · show first.2.selections ++ [⟨unionPath, frame.arrayIndices, variant.path⟩] = _
        rw [both.2.selections, frames.arrayIndices]
    | succ position =>
      exact decodeVariantAt_agrees payload unionPath selected variants
        (fun other member => analyzed other (List.mem_cons_of_mem variant member)) tracked position
        current frames states
termination_by structural variants

end

end Semantic.RecordView

end Bethkit
