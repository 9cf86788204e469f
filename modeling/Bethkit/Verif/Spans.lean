import Bethkit.Spec.Spans
import Bethkit.Spec.Sample
import Bethkit.Verif.Retention

/-!
# Decoded values cover their bytes

A node consumes no more bytes than there are, and its value covers the consumed ones. Structs and
arrays go on with the bytes behind those of the last member or element; everything else passes the
bytes of a child on.
-/

namespace Bethkit

open Lib

/-- An absent value takes no byte, unless the node allows it. -/
theorem CoversBytes.start_eq {registry : SchemaRegistry} {node : SchemaNode} {value : FieldValue}
    {start stop : Nat} (covers : CoversBytes registry node value start stop) (absent : value = .absent)
    (empty : ¬AbsentWithBytes registry node) : start = stop := by
  match covers with
  | .excluded _ _ => rfl
  | .foreign _ other _ => exact absurd (.foreign other) empty
  | .leaf kind _ =>
    rw [absent] at kind
    contradiction
  | .struct _ | .optionalStruct _ | .array _ _ => contradiction
  | .union among inner => exact inner.start_eq absent fun allowed => empty (.union among allowed)
  | .terminated _ => exact absurd (.terminated _ _ _) empty

/-- Elements stand in front of further elements. -/
theorem ElementsCover.append {registry : SchemaRegistry} {element : SchemaNode}
    {first : List FieldValue} {start middle stop : Nat} {value : FieldValue}
    (elements : ElementsCover registry element first start middle)
    (last : CoversBytes registry element value middle stop) :
    ElementsCover registry element (first ++ [value]) start stop := by
  match elements with
  | .nil _ _ => exact .cons last (.nil _ _)
  | .cons head rest => exact .cons head (rest.append last)

namespace Semantic.RecordView

variable {view : Semantic.RecordView} {node : SchemaNode} {current : Bytes} {offset : Nat}
  {decoded finished : Decoded} {state after : DecodeState}

/-- A node is decoded within its bytes, and its value covers those that it consumed. -/
structure Spanned (view : Semantic.RecordView) (node : SchemaNode) (current : Bytes) (offset : Nat)
    (decoded : Decoded) : Prop where
  /-- There are as many bytes. -/
  consumed : decoded.consumed ≤ current.length
  /-- The value covers them. -/
  covers : view.retention.materializes = true →
    CoversBytes view.context.registry node decoded.value offset (offset + decoded.consumed)

/-- Normalizers that are not run keep a value. -/
theorem applyNormalizers_own (own : ¬node.Foreign view.context.registry) (record : Record)
    (value : FieldValue) : view.context.applyNormalizers node.path record value = .ok value := by
  have kept : ∀ bindings : List CallbackBinding,
      (∀ binding ∈ bindings, binding.implementation.isExecutable = false) →
        bindings.foldlM (view.context.applyNormalizer record) value = .ok value := by
    intro bindings idle
    induction bindings with
    | nil => rfl
    | cons binding bindings rest =>
      have first := idle binding List.mem_cons_self
      have same : view.context.applyNormalizer record value binding = .ok value := by
        rw [SemanticContext.applyNormalizer, first]
        rfl
      rw [List.foldlM_cons, same, ok_bind]
      exact rest fun other among => idle other (List.mem_cons_of_mem _ among)
  apply kept
  intro binding among
  obtain ⟨bound, normalizes⟩ := List.mem_filter.mp among
  by_contra executable
  apply own
  have foreign : ∃ binding ∈ view.context.registry.callbacksAt node.path,
      binding.callbackId = "float.normalizer" ∧ binding.implementation.isExecutable = true :=
    ⟨binding, bound, of_decide_eq_true normalizes, Bool.eq_true_of_not_eq_false executable⟩
  cases node with
  | custom => trivial
  | _ => exact foreign

/-- A number that is read keeps its place. -/
theorem applyFloatReadSemantics_covers {registry : SchemaRegistry} {value result : FieldValue}
    {start stop : Nat} (covers : CoversBytes registry node value start stop) (ordered : start ≤ stop)
    (read : applyFloatReadSemantics node value = .ok result) :
    CoversBytes registry node result start stop := by
  unfold applyFloatReadSemantics at read
  split at read
  · split at read
    · obtain rfl := Except.ok.inj read
      exact .leaf rfl ordered
    · contradiction
  · obtain rfl := Except.ok.inj read
    exact covers

/-- Finishing a node keeps its bytes. -/
theorem finishNode_spanned (spanned : view.Spanned node current offset decoded)
    (done : view.finishNode node decoded state = .ok (finished, after)) :
    view.Spanned node current offset finished := by
  unfold finishNode at done
  split at done
  case isTrue =>
    obtain ⟨normalized, normalizes, done⟩ := bind_eq_ok.mp done
    obtain ⟨value, read, done⟩ := bind_eq_ok.mp done
    obtain rfl : { decoded with value } = finished := congrArg Prod.fst (Except.ok.inj done)
    refine ⟨spanned.consumed, fun kept => ?_⟩
    have ordered : offset ≤ offset + decoded.consumed := Nat.le_add_right _ _
    by_cases foreign : node.Foreign view.context.registry
    · exact .foreign value foreign ordered
    · obtain rfl := Except.ok.inj ((applyNormalizers_own foreign _ _).symm.trans normalizes)
      exact applyFloatReadSemantics_covers (spanned.covers kept) ordered read
  case isFalse discarded =>
    obtain ⟨normalized, _, done⟩ := bind_eq_ok.mp done
    obtain ⟨value, _, done⟩ := bind_eq_ok.mp done
    obtain rfl : { decoded with value } = finished := congrArg Prod.fst (Except.ok.inj done)
    exact ⟨spanned.consumed, fun kept => absurd kept discarded⟩

/-- A guarded node is absent or finished. -/
theorem guardNode_spanned {payload : Bytes} {body : Except SemanticError (Decoded × DecodeState)}
    (spanned : ∀ decoded after, body = .ok (decoded, after) →
      view.Spanned node current offset decoded)
    (done : view.guardNode payload node state body = .ok (finished, after)) :
    view.Spanned node current offset finished := by
  rw [guardNode] at done
  obtain ⟨applies, _, done⟩ := bind_eq_ok.mp done
  cases applies with
  | false =>
    obtain rfl : ⟨.absent, 0, none⟩ = finished := congrArg Prod.fst (Except.ok.inj done)
    exact ⟨Nat.zero_le _, fun _ => .excluded node offset⟩
  | true =>
    obtain ⟨result, bodyDone, done⟩ := bind_eq_ok.mp done
    exact finishNode_spanned (spanned result.1 result.2 bodyDone) done

end Semantic.RecordView

/-- A floating-point number is a leaf. -/
theorem isLeaf_decodeFloat {width : UInt8} {byteOrder : ByteOrder} {data : Bytes} {path : String}
    {value : FieldValue} (read : decodeFloat width byteOrder data path = .ok value) :
    value.isLeaf = true := by
  rw [decodeFloat.eq_def] at read
  by_cases other : data.length ≠ width.toNat
  · rw [if_pos other] at read
    contradiction
  rw [if_neg other] at read
  dsimp only at read
  by_cases four : width = 4
  · rw [if_pos four] at read
    cases read
    rfl
  rw [if_neg four] at read
  by_cases eight : width = 8
  · rw [if_pos eight] at read
    cases read
    rfl
  · rw [if_neg eight] at read
    contradiction

/-- A string is a leaf. -/
theorem isLeaf_decodeStringSelected {codecs : TextCodecs} {string : StringType} {data : Bytes}
    {localized : Bool} {policy : Option InlineStringEncoding} {path : String}
    {result : FieldValue × Option InlineStringEncoding}
    (read : decodeStringSelected codecs string data localized policy path = .ok result) :
    result.1.isLeaf = true := by
  rw [decodeStringSelected] at read
  split at read
  · split at read
    · contradiction
    · obtain rfl := Except.ok.inj read
      rfl
  · obtain ⟨body, _, read⟩ := bind_eq_ok.mp read
    dsimp only at read
    generalize (if string.zeroTerminated then untilZero body else body) = bytes at read
    split at read
    · obtain rfl := Except.ok.inj read
      rfl
    · split at read
      · obtain rfl := Except.ok.inj read
        rfl
      · split at read
        · obtain rfl := Except.ok.inj read
          rfl
        · contradiction

/-- A primitive is a leaf. -/
theorem isLeaf_decodePrimitive {codecs : TextCodecs} {primitive : PrimitiveType} {data : Bytes}
    {localized : Bool} {policy : Option InlineStringEncoding} {path : String}
    {result : FieldValue × Option InlineStringEncoding}
    (done : decodePrimitive codecs primitive data localized policy path = .ok result) :
    result.1.isLeaf = true := by
  cases primitive with
  | integer integer =>
    obtain ⟨value, read, rfl⟩ := map_eq_ok.mp done
    rw [decodeInteger] at read
    split at read
    all_goals
      obtain ⟨number, _, rfl⟩ := map_eq_ok.mp read
      rfl
  | packedUnsigned =>
    obtain ⟨number, _, done⟩ := bind_eq_ok.mp done
    dsimp only at done
    split at done
    · contradiction
    · obtain rfl := Except.ok.inj done
      rfl
  | float width byteOrder scale digits =>
    obtain ⟨value, read, rfl⟩ := map_eq_ok.mp done
    exact isLeaf_decodeFloat read
  | string string => exact isLeaf_decodeStringSelected done
  | bytes length =>
    cases length with
    | none =>
      obtain rfl := Except.ok.inj done
      rfl
    | some expected =>
      rw [decodePrimitive] at done
      split at done
      · contradiction
      · obtain rfl := Except.ok.inj done
        rfl
  | formId targets | unused length =>
    rw [decodePrimitive] at done
    split at done
    · contradiction
    · obtain rfl := Except.ok.inj done
      rfl
  | enumeration integer values | flags integer bits =>
    obtain ⟨number, _, done⟩ := bind_eq_ok.mp done
    obtain rfl := Except.ok.inj done
    rfl

namespace Semantic.RecordView

variable {view : Semantic.RecordView} {node : SchemaNode} {current : Bytes} {frame : DecodeFrame}
  {decoded finished : Decoded} {state after : DecodeState}

/-- A primitive takes bytes from the front. -/
theorem decodePrimitiveNode_spanned {info : NodeInfo} {primitive : PrimitiveType}
    (done : view.decodePrimitiveNode info.path primitive current frame state = .ok (decoded, after)) :
    view.Spanned (.primitive info primitive) current frame.offset decoded := by
  rw [decodePrimitiveNode] at done
  obtain ⟨consumed, _, done⟩ := bind_eq_ok.mp done
  split at done
  · contradiction
  · rename_i enough
    obtain ⟨result, read, done⟩ := bind_eq_ok.mp done
    obtain rfl : ⟨result.1, consumed, none⟩ = decoded := congrArg Prod.fst (Except.ok.inj done)
    exact ⟨Nat.le_of_not_lt enough,
      fun _ => .leaf (isLeaf_decodePrimitive read) (Nat.le_add_right _ _)⟩

/-- A custom decoder stays within the bytes. -/
theorem decodeCustom_consumed {path decoder : String}
    (done : view.decodeCustom path decoder current = .ok decoded) :
    decoded.consumed ≤ current.length := by
  rw [decodeCustom] at done
  split at done
  · contradiction
  · obtain ⟨result, _, done⟩ := bind_eq_ok.mp done
    dsimp only at done
    split at done
    · contradiction
    · rename_i enough
      exact Except.ok.inj done ▸ Nat.le_of_not_lt enough

/-- A terminator stands behind the bytes of its child. -/
theorem decodeTerminator_spanned {info : NodeInfo} {terminator : UInt8} {child : SchemaNode}
    (spanned : view.Spanned child current frame.offset decoded)
    (done : decodeTerminator info.path terminator current decoded = .ok finished) :
    view.Spanned (.terminated info terminator child) current frame.offset finished := by
  rw [decodeTerminator] at done
  split at done
  · contradiction
  · rename_i actual found
    split at done
    · contradiction
    · obtain rfl := Except.ok.inj done
      obtain ⟨inside, _⟩ := List.getElem?_eq_some_iff.mp found
      exact ⟨inside, fun kept => .terminated (spanned.covers kept)⟩

/-- All that a decoder of a node returns is spanned. -/
def SpansAll (view : Semantic.RecordView) (node : SchemaNode)
    (decode : Bytes → DecodeFrame → DecodeState → Except SemanticError (Decoded × DecodeState)) :
    Prop :=
  ∀ current frame state decoded after, decode current frame state = .ok (decoded, after) →
    view.Spanned node current frame.offset decoded

/-- What the values of a container are kept as. -/
theorem keep_of_materializes {α : Type} (kept : view.retention.materializes = true)
    (values : List α) (value : α) : view.keep values value = values ++ [value] := if_pos kept

/-- The loop over the elements of an array adds elements side by side. -/
theorem arrayLoop_spanned {element : SchemaNode} {elementPath : String} {elementCount : Option Nat}
    {decode : Bytes → DecodeFrame → DecodeState → Except SemanticError (Decoded × DecodeState)}
    (spans : view.SpansAll element decode) {fuel decodedCount first cursor stop : Nat}
    {values results : List FieldValue} (inside : cursor ≤ current.length) (behind : first ≤ cursor)
    (covers : view.retention.materializes = true → ElementsCover view.context.registry element
      values (frame.offset + first) (frame.offset + cursor))
    (done : view.arrayLoop node elementPath current elementCount frame decode fuel decodedCount cursor
      values state = .ok (results, stop, after)) :
    stop ≤ current.length ∧ first ≤ stop ∧ (view.retention.materializes = true →
      ElementsCover view.context.registry element results (frame.offset + first)
        (frame.offset + stop)) := by
  induction fuel generalizing decodedCount cursor values state with
  | zero =>
    obtain ⟨rfl, rest⟩ := Prod.mk.inj (Except.ok.inj done)
    obtain ⟨rfl, _⟩ := Prod.mk.inj rest
    exact ⟨inside, behind, covers⟩
  | succ fuel more =>
    have ended (done : (.ok (values, cursor, state) : Except SemanticError _) =
        .ok (results, stop, after)) : stop ≤ current.length ∧ first ≤ stop ∧
          (view.retention.materializes = true → ElementsCover view.context.registry element results
            (frame.offset + first) (frame.offset + stop)) := by
      obtain ⟨rfl, rest⟩ := Prod.mk.inj (Except.ok.inj done)
      obtain ⟨rfl, _⟩ := Prod.mk.inj rest
      exact ⟨inside, behind, covers⟩
    rw [arrayLoop] at done
    split at done
    case isTrue => exact ended done
    split at done
    case isTrue => exact ended done
    split at done
    case isTrue => contradiction
    obtain ⟨included, _, done⟩ := bind_eq_ok.mp done
    split at done
    case isTrue => exact ended done
    obtain ⟨result, decodes, done⟩ := bind_eq_ok.mp done
    dsimp only at done
    split at done
    case isTrue => contradiction
    split at done
    case isTrue => contradiction
    rename_i fits
    have spanned := spans _ _ _ result.1 result.2 decodes
    refine more (Nat.le_of_not_lt fits) (by omega) (fun kept => ?_) done
    rw [keep_of_materializes kept]
    have last := spanned.covers kept
    dsimp only at last
    rw [Nat.add_assoc] at last
    exact (covers kept).append last

/-- An array covers its count and its elements. -/
theorem decodeArray_spanned {info : NodeInfo} {element : SchemaNode} {count : ArrayCount}
    {payload : Bytes}
    {decode : Bytes → DecodeFrame → DecodeState → Except SemanticError (Decoded × DecodeState)}
    (spans : view.SpansAll element decode)
    (done : view.decodeArray (.array info element count) element count payload current frame state
      decode = .ok (decoded, after)) :
    view.Spanned (.array info element count) current frame.offset decoded := by
  rw [decodeArray] at done
  obtain ⟨counted, _, done⟩ := bind_eq_ok.mp done
  dsimp only at done
  split at done
  · contradiction
  rename_i room
  split at done
  · rename_i consumed skipped
    obtain rfl : ⟨.absent, counted.1 + consumed, none⟩ = decoded :=
      congrArg Prod.fst (Except.ok.inj done)
    cases retention : view.retention with
    | full =>
      rw [retention] at skipped
      contradiction
    | discard track =>
      rw [retention] at skipped
      have enough := (arrayBytes_discard skipped).2
      obtain ⟨_, _, _, _, enough, _⟩ := enough
      refine ⟨?_, fun kept => ?_⟩
      · show counted.1 + consumed ≤ current.length
        omega
      · rw [retention] at kept
        contradiction
  · obtain ⟨result, looped, done⟩ := bind_eq_ok.mp done
    obtain rfl : ⟨if view.retention.materializes then .array result.1 else .absent, result.2.1, none⟩ =
      decoded := congrArg Prod.fst (Except.ok.inj done)
    obtain ⟨inside, behind, covers⟩ := arrayLoop_spanned spans (Nat.le_of_not_lt room)
      (Nat.le_refl _) (fun _ => .nil element _) looped
    refine ⟨inside, fun kept => ?_⟩
    show CoversBytes _ _ (if view.retention.materializes then .array result.1 else .absent) _ _
    rw [if_pos kept]
    exact .array (Nat.le_add_right _ _) (covers kept)

/-- What is known of a node that cannot be decoded. -/
theorem guardNode_error_spanned {payload : Bytes} {error : SemanticError}
    (done : view.guardNode payload node state (.error error) = .ok (decoded, after)) :
    view.Spanned node current frame.offset decoded :=
  guardNode_spanned (fun _ _ refused => absurd refused (by simp)) done

/-- The members that are decoded so far, and the fields that are left. -/
structure Members (view : Semantic.RecordView) (fields : List SchemaNode) (current : Bytes)
    (offset cursor stop : Nat) (values results : List NamedValue) : Prop where
  /-- The struct ends within the bytes. -/
  inside : stop ≤ current.length
  /-- The members left stand behind the ones decoded. -/
  covers : view.retention.materializes = true → ∃ more, results = values ++ more ∧
    MembersCover view.context.registry fields more (offset + cursor) (offset + stop)

/-- One more member in front. -/
theorem Members.cons {field : SchemaNode} {fields : List SchemaNode} {offset cursor middle stop : Nat}
    {values results : List NamedValue} {effectivePath : Option String} {value : FieldValue}
    (members : view.Members fields current offset middle stop (view.keep values
      (.mk field.id field.path effectivePath field.name ⟨offset + cursor, offset + middle⟩ value))
      results)
    (first : view.retention.materializes = true →
      CoversBytes view.context.registry field value (offset + cursor) (offset + middle)) :
    view.Members (field :: fields) current offset cursor stop values results := by
  refine ⟨members.inside, fun kept => ?_⟩
  obtain ⟨more, same, rest⟩ := members.covers kept
  rw [keep_of_materializes kept, List.append_assoc] at same
  exact ⟨_, same, .cons (first kept) (first kept).start_eq rest⟩

mutual

/-- Every node is decoded within its bytes, and its value covers those that it consumed. -/
theorem decodeNode_spans (payload : Bytes) (node : SchemaNode) :
    view.SpansAll node (decodeNode view payload node) := by
  intro current frame state decoded after done
  match node with
  | .primitive info primitive =>
    rw [decodeNode] at done
    exact guardNode_spanned (fun _ _ body => decodePrimitiveNode_spanned body) done
  | .struct info fields =>
    rw [decodeNode] at done
    refine guardNode_spanned (fun decoded after body => ?_) done
    obtain ⟨result, members, body⟩ := bind_eq_ok.mp body
    obtain rfl : ⟨if view.retention.materializes then .struct result.1 else .absent, result.2.1,
      none⟩ = decoded := congrArg Prod.fst (Except.ok.inj body)
    have members := decodeFields_spans payload fields current frame none 0 0 false [] state
      result.1 result.2.1 result.2.2 (Nat.zero_le _) members
    refine ⟨members.inside, fun kept => ?_⟩
    obtain ⟨more, same, covers⟩ := members.covers kept
    show CoversBytes _ _ (if view.retention.materializes then .struct result.1 else .absent) _ _
    rw [if_pos kept, same]
    exact .struct covers
  | .optionalStruct info fields optionalFrom =>
    rw [decodeNode] at done
    refine guardNode_spanned (fun decoded after body => ?_) done
    obtain ⟨result, members, body⟩ := bind_eq_ok.mp body
    obtain rfl : ⟨if view.retention.materializes then .struct result.1 else .absent, result.2.1,
      none⟩ = decoded := congrArg Prod.fst (Except.ok.inj body)
    have members := decodeFields_spans payload fields current frame (some optionalFrom.toNat) 0 0
      false [] state result.1 result.2.1 result.2.2 (Nat.zero_le _) members
    refine ⟨members.inside, fun kept => ?_⟩
    obtain ⟨more, same, covers⟩ := members.covers kept
    show CoversBytes _ _ (if view.retention.materializes then .struct result.1 else .absent) _ _
    rw [if_pos kept, same]
    exact .optionalStruct covers
  | .array info element count =>
    rw [decodeNode] at done
    exact guardNode_spanned (fun _ _ body =>
      decodeArray_spanned (decodeNode_spans payload element) body) done
  | .union info selector variants =>
    rw [decodeNode] at done
    refine guardNode_spanned (fun decoded after body => ?_) done
    obtain ⟨index, _, body⟩ := bind_eq_ok.mp body
    obtain ⟨variant, among, spanned⟩ := decodeVariantAt_spans payload info.path index variants
      index current frame state decoded after body
    exact ⟨spanned.consumed, fun kept => .union among (spanned.covers kept)⟩
  | .custom info decoder configuration =>
    rw [decodeNode] at done
    refine guardNode_spanned (fun decoded after body => ?_) done
    obtain ⟨result, custom, body⟩ := bind_eq_ok.mp body
    obtain rfl : result = decoded := congrArg Prod.fst (Except.ok.inj body)
    exact ⟨decodeCustom_consumed custom, fun _ => .foreign _ trivial (Nat.le_add_right _ _)⟩
  | .terminated info terminator child =>
    rw [decodeNode] at done
    refine guardNode_spanned (fun decoded after body => ?_) done
    obtain ⟨result, inner, body⟩ := bind_eq_ok.mp body
    obtain ⟨finished, terminated, body⟩ := bind_eq_ok.mp body
    obtain rfl : finished = decoded := congrArg Prod.fst (Except.ok.inj body)
    exact decodeTerminator_spanned
      (decodeNode_spans payload child current frame state result.1 result.2 inner) terminated
  | .compressed _ _ _ | .reference _ _ | .sequence _ _ | .unordered _ _ | .choice _ _
  | .selectedChoice _ _ _ | .repeat _ _ _ _ | .subrecord _ _ _ =>
    exact guardNode_error_spanned done
termination_by structural node

/-- The fields of a struct are decoded side by side. -/
theorem decodeFields_spans (payload : Bytes) (fields : List SchemaNode) (current : Bytes)
    (frame : DecodeFrame) (optionalFrom : Option Nat) (index cursor : Nat) (suffixAbsent : Bool)
    (values : List NamedValue) (state : DecodeState) (results : List NamedValue) (stop : Nat)
    (after : DecodeState) (inside : cursor ≤ current.length)
    (done : decodeFields view payload current frame optionalFrom fields index cursor suffixAbsent
      values state = .ok (results, stop, after)) :
    view.Members fields current frame.offset cursor stop values results := by
  match fields with
  | [] =>
    rw [decodeFields] at done
    obtain ⟨rfl, rest⟩ := Prod.mk.inj (Except.ok.inj done)
    obtain ⟨rfl, _⟩ := Prod.mk.inj rest
    exact ⟨inside, fun _ => ⟨[], (List.append_nil _).symm, .nil _⟩⟩
  | field :: fields =>
    rw [decodeFields] at done
    obtain ⟨applies, _, done⟩ := bind_eq_ok.mp done
    split at done
    case isTrue =>
      exact (decodeFields_spans payload fields current frame optionalFrom _ cursor _ _ state results
        stop after inside done).cons fun _ => .excluded field _
    split at done
    case isTrue => contradiction
    dsimp only at done
    split at done
    case isTrue =>
      exact (decodeFields_spans payload fields current frame optionalFrom _ cursor _ _ state results
        stop after inside done).cons fun _ => .excluded field _
    obtain ⟨result, first, done⟩ := bind_eq_ok.mp done
    have spanned := decodeNode_spans payload field _ _ _ result.1 result.2 first
    have fits := spanned.consumed
    rw [List.length_drop] at fits
    have middle : cursor + result.1.consumed ≤ current.length := by omega
    rw [Nat.add_assoc] at done
    refine (decodeFields_spans payload fields current frame optionalFrom _ _ _ _ _ results stop after
      middle done).cons fun kept => ?_
    have covers := spanned.covers kept
    dsimp only at covers
    rwa [Nat.add_assoc] at covers
termination_by structural fields

/-- The variant at the index is one of them. -/
theorem decodeVariantAt_spans (payload : Bytes) (unionPath : String) (index : Nat)
    (variants : List SchemaNode) (position : Nat) (current : Bytes) (frame : DecodeFrame)
    (state : DecodeState) (decoded : Decoded) (after : DecodeState)
    (done : decodeVariantAt view payload unionPath index variants position current frame state =
      .ok (decoded, after)) :
    ∃ variant ∈ variants, view.Spanned variant current frame.offset decoded := by
  match variants, position with
  | [], _ =>
    rw [decodeVariantAt] at done
    contradiction
  | variant :: _, 0 =>
    rw [decodeVariantAt] at done
    obtain ⟨result, inner, done⟩ := bind_eq_ok.mp done
    obtain rfl : { result.1 with
      effectivePath := some (result.1.effectivePath.getD variant.path) } = decoded :=
        congrArg Prod.fst (Except.ok.inj done)
    have spanned := decodeNode_spans payload variant current frame state result.1 result.2 inner
    exact ⟨variant, List.mem_cons_self, spanned.consumed, spanned.covers⟩
  | _ :: variants, position + 1 =>
    rw [decodeVariantAt] at done
    obtain ⟨variant, among, spanned⟩ := decodeVariantAt_spans payload unionPath index variants
      position current frame state decoded after done
    exact ⟨variant, List.mem_cons_of_mem _ among, spanned⟩
termination_by structural variants

end

/-- A string with a terminator behind its end is not empty. -/
theorem length_pos_of_fixedStringTerminator {payload : SchemaNode} {data : Bytes}
    (terminated : fixedStringTerminator payload data = true) : 0 < data.length := by
  unfold fixedStringTerminator at terminated
  split at terminated
  · simp only [Bool.and_eq_true, decide_eq_true_eq] at terminated
    exact List.length_pos_of_ne_nil fun empty => by simp [empty] at terminated
  · contradiction

/-- The bytes of a payload in front of a legacy terminator. -/
def decodeData (payload : SchemaNode) (data : Bytes) : Bytes :=
  if fixedStringTerminator payload data then data.dropLast else data

/-- All bytes are accounted for if as many are consumed as there are. -/
theorem Spanned.accounted {payload : SchemaNode} {data : Bytes}
    (spanned : view.Spanned payload (decodeData payload data) 0 decoded)
    (whole : ¬(if (fixedStringTerminator payload data &&
        decide (decoded.consumed = (decodeData payload data).length)) = true then
      decoded.consumed + 1 else decoded.consumed) ≠ data.length) :
    Accounted view payload data decoded := by
  have covers := spanned.covers
  have inside := spanned.consumed
  rw [Nat.zero_add] at covers
  refine ⟨?_, covers⟩
  unfold decodeData at whole inside
  cases terminated : fixedStringTerminator payload data with
  | false =>
    rw [terminated] at whole
    simpa using whole
  | true =>
    have positive := length_pos_of_fixedStringTerminator terminated
    rw [terminated, if_pos rfl, List.length_dropLast] at inside
    simp only [terminated, ↓reduceIte, Bool.true_and, List.length_dropLast, decide_eq_true_eq,
      ne_eq, not_not] at whole
    rw [if_pos rfl]
    split at whole <;> omega

/-- The payload of a subrecord is decoded without leaving a byte out, and structs at any depth stand for
the bytes of their members. -/
theorem decodePayload_accounted {definition payload : SchemaNode} {subrecord : WritableSubRecord}
    {index : Nat}
    (done : view.decodePayload definition payload subrecord index = .ok (decoded, after)) :
    Accounted view payload subrecord.data decoded := by
  unfold decodePayload at done
  dsimp only at done
  by_cases empty : (subrecord.data.isEmpty && (view.isModelInfoPayload definition payload ||
      emptyUnusedFormId view.record.header.signature subrecord.signature payload)) = true
  · rw [if_pos empty, ok_bind] at done
    obtain ⟨whole, same⟩ := ite_error_eq_ok.mp done
    obtain rfl : ⟨.absent, 0, none⟩ = decoded := congrArg Prod.fst same
    exact Spanned.accounted ⟨Nat.zero_le _, fun _ => .excluded payload 0⟩ whole
  · rw [if_neg empty] at done
    obtain ⟨result, first, done⟩ := bind_eq_ok.mp done
    obtain ⟨whole, same⟩ := ite_error_eq_ok.mp done
    obtain rfl : result.1 = decoded := congrArg Prod.fst same
    exact (decodeNode_spans _ payload _ ⟨0, index, [], []⟩ _ result.1 result.2 first).accounted whole

/-- A struct of one member: bytes that are always excluded, and their terminator. -/
def excludedBody : SchemaNode :=
  .struct (.plain 2 "data") [.terminated (.plain 3 "data/body") 0
    (.primitive { NodeInfo.plain 4 "data/body/bytes" with condition := some (.bool false) }
      (.bytes none))]

/-- A record whose `DATA` is a terminator alone. -/
def terminatorOnly : Semantic.RecordView :=
  .sample (.subrecord (.plain 1 "DATA") .DATA excludedBody)
    (.sample .HEDR [0x44, 0x41, 0x54, 0x41, 1, 0, 0])

/-- The terminator of the excluded member is accounted for. -/
theorem accounted_terminatorOnly : ∃ decoded state,
    terminatorOnly.decodePayload (.plainSubrecord 1 "DATA" .DATA) excludedBody ⟨.DATA, [0]⟩ 0 =
      .ok (decoded, state) ∧ Accounted terminatorOnly excludedBody [0] decoded := by
  obtain ⟨decoded, state, done⟩ : ∃ decoded state, terminatorOnly.decodePayload
      (.plainSubrecord 1 "DATA" .DATA) excludedBody ⟨.DATA, [0]⟩ 0 = .ok (decoded, state) :=
    ⟨_, _, rfl⟩
  exact ⟨decoded, state, done, decodePayload_accounted done⟩

/-- A member is absent and takes a byte. -/
theorem absent_terminatorOnly : ∃ field, terminatorOnly.fields refuseInflate = .ok [field] ∧
    field.value = .struct [.mk 3 "data/body" none "data/body" ⟨0, 1⟩ .absent] :=
  ⟨_, rfl, rfl⟩

end Semantic.RecordView

end Bethkit
