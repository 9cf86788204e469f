import Bethkit.Lib.Outcome
import Bethkit.Spec.Retention

/-!
# Payloads that nobody observes

What the static analysis of a payload says about each of its nodes, and how many bytes a node takes
of which every byte pattern is valid.
-/

namespace Bethkit

open Lib

section Analysis

variable {registry : SchemaRegistry}

/-- What the analysis of a node says about the node itself. -/
structure Unobserved (registry : SchemaRegistry) (node : SchemaNode) (observed : Bool) : Prop where
  /-- A condition reads numbers. -/
  condition : node.condition.isSome → observed = true
  /-- No callback sees its value. -/
  callbacks : ∀ binding ∈ registry.callbacksAt node.path,
    binding.callbackId ≠ "float.normalizer" ∧ binding.callbackId ≠ "array.should_include"

/-- Every node of a list is unobserved, and reads numbers only if they are tracked. -/
theorem analyzeAll_mem {nodes : List SchemaNode} {depth : Nat} {numeric observed : Bool}
    (analyzed : analyzeAll registry nodes depth numeric = some observed) :
    (numeric = true → observed = true) ∧ ∀ node ∈ nodes, ∃ inner,
      analyze registry node depth = some inner ∧ (inner = true → observed = true) := by
  induction nodes generalizing numeric with
  | nil =>
    obtain rfl := Option.some.inj analyzed
    exact ⟨id, fun _ member => nomatch member⟩
  | cons node nodes rest =>
    rw [analyzeAll] at analyzed
    obtain ⟨inner, here, analyzed⟩ := Option.bind_eq_some_iff.mp analyzed
    obtain ⟨first, others⟩ := rest analyzed
    refine ⟨fun same => first (by simp [same]), fun other member => ?_⟩
    rcases List.mem_cons.mp member with rfl | later
    · exact ⟨inner, here, fun same => first (by simp [same])⟩
    · exact others other later

/-- The analysis of a node covers the node itself. -/
theorem analyze_unobserved {node : SchemaNode} {depth : Nat} {observed : Bool}
    (analyzed : analyze registry node depth = some observed) :
    Unobserved registry node observed := by
  rw [analyze.eq_def] at analyzed
  simp only at analyzed
  split at analyzed
  case isTrue => cases analyzed
  case isFalse none_ =>
    refine ⟨fun conditional => ?_, fun binding member => ?_⟩
    · rw [conditional] at analyzed
      split at analyzed
      case h_1 => exact (Option.some.inj analyzed).symm
      case h_2 | h_3 | h_8 => exact (analyzeAll_mem analyzed).1 rfl
      case h_4 | h_7 | h_10 => cases analyzed
      case h_5 | h_6 | h_9 =>
        obtain ⟨_, _, rfl⟩ := Option.map_eq_some_iff.mp analyzed
        rfl
    · rw [not_or, not_lt, List.any_eq_true, not_exists] at none_
      have other := none_.2 binding
      simp only [member, true_and, decide_eq_true_eq, List.mem_cons, List.not_mem_nil, or_false,
        not_or] at other
      exact other

/-- What the analysis of a container says about a child: it is unobserved, and reads numbers only
if they are observed. -/
def ChildUnobserved (registry : SchemaRegistry) (depth : Nat) (observed : Bool)
    (child : SchemaNode) : Prop :=
  ∃ inner, analyze registry child depth = some inner ∧ (inner = true → observed = true)

/-- The analysis of a container covers its children. -/
theorem analyze_children {node : SchemaNode} {depth : Nat} {observed : Bool}
    (analyzed : analyze registry node depth = some observed) :
    ∀ child ∈ node.children, ChildUnobserved registry (depth + 1) observed child := by
  rw [analyze.eq_def] at analyzed
  simp only at analyzed
  split at analyzed
  case isTrue => cases analyzed
  case isFalse =>
    split at analyzed
    case h_1 => exact fun _ member => nomatch member
    case h_2 | h_3 | h_8 => exact (analyzeAll_mem analyzed).2
    case h_4 | h_7 | h_10 => cases analyzed
    case h_5 =>
      obtain ⟨inner, here, rfl⟩ := Option.map_eq_some_iff.mp analyzed
      intro child member
      rw [List.mem_singleton.mp member]
      exact ⟨inner, here, fun _ => rfl⟩
    case h_6 | h_9 =>
      obtain ⟨inner, here, rfl⟩ := Option.map_eq_some_iff.mp analyzed
      intro child member
      rw [List.mem_singleton.mp member]
      exact ⟨inner, here, fun same => by simp [same]⟩

/-- The element count of an unobserved array is no callback, and reads numbers only if they are
observed. -/
theorem analyze_count {info : NodeInfo} {element : SchemaNode} {count : ArrayCount}
    {depth : Nat} {observed : Bool}
    (analyzed : analyze registry (.array info element count) depth = some observed) :
    (∀ callbackId, count ≠ .callback callbackId) ∧
      ∀ expression, count = .expression expression → observed = true := by
  rw [analyze.eq_def] at analyzed
  simp only at analyzed
  split at analyzed
  case isTrue => cases analyzed
  case isFalse =>
    cases count with
    | callback => cases analyzed
    | expression =>
      obtain ⟨_, _, rfl⟩ := Option.map_eq_some_iff.mp analyzed
      exact ⟨nofun, fun _ _ => rfl⟩
    | fixed | prefixed | packedPrefixed | squaredPrefixed | remainder => exact ⟨nofun, nofun⟩

/-- The selector of an unobserved union is an expression over observed numbers. -/
theorem analyze_selector {info : NodeInfo} {selector : UnionSelector} {variants : List SchemaNode}
    {depth : Nat} {observed : Bool}
    (analyzed : analyze registry (.union info selector variants) depth = some observed) :
    (∀ callbackId, selector ≠ .callback callbackId) ∧ observed = true := by
  rw [analyze.eq_def] at analyzed
  simp only at analyzed
  split at analyzed
  case isTrue => cases analyzed
  case isFalse =>
    cases selector with
    | callback => cases analyzed
    | expression => exact ⟨nofun, (analyzeAll_mem analyzed).1 rfl⟩

end Analysis

namespace Semantic.RecordView

variable {view : Semantic.RecordView} {track observed : Bool} {node : SchemaNode}

/-- No normalizer changes an unobserved value. -/
theorem applyNormalizers_unobserved (unobserved : Unobserved view.context.registry node observed)
    (record : Record) (value : FieldValue) :
    view.context.applyNormalizers node.path record value = .ok value := by
  have none_ : (view.context.registry.callbacksAt node.path).filter
      (·.callbackId = "float.normalizer") = [] := by
    rw [List.filter_eq_nil_iff]
    intro binding member
    simpa using (unobserved.callbacks binding member).1
  rw [SemanticContext.applyNormalizers, none_]
  rfl

/-- Every element of an unobserved array is included. -/
theorem shouldIncludeArrayElement_unobserved
    (unobserved : Unobserved view.context.registry node observed) (remaining : Bytes)
    (frame : DecodeFrame) :
    view.keeping.shouldIncludeArrayElement node remaining frame = .ok true := by
  have none_ : (view.keeping.context.registry.callbacksAt node.path).find?
      (·.callbackId = "array.should_include") = none := by
    rw [List.find?_eq_none]
    intro binding member
    simpa using (unobserved.callbacks binding member).2
  rw [shouldIncludeArrayElement, none_]
  rfl

/-- A decoder that takes a number of bytes whatever they are, and selects nothing. -/
def Takes (size : Nat) (decode : Bytes → DecodeFrame → DecodeState →
    Except SemanticError (Decoded × DecodeState)) : Prop :=
  ∀ bytes frame state, size ≤ bytes.length → ∃ value after,
    decode bytes frame state = .ok (⟨value, size, none⟩, after) ∧
      after.selections = state.selections

/-- A guarded node without a condition takes what its body takes. -/
theorem guardNode_takes (unobserved : Unobserved view.context.registry node observed)
    (unconditional : node.condition = none)
    (plain : ∀ value, applyFloatReadSemantics node value = .ok value) {payload : Bytes}
    {state middle : DecodeState} {value : FieldValue} {size : Nat}
    {body : Except SemanticError (Decoded × DecodeState)}
    (done : body = .ok (⟨value, size, none⟩, middle))
    (kept : middle.selections = state.selections) :
    ∃ value after, view.keeping.guardNode payload node state body =
      .ok (⟨value, size, none⟩, after) ∧ after.selections = state.selections := by
  have applies : view.keeping.nodeApplies node payload state.fieldValues = .ok true := by
    rw [nodeApplies.eq_def, unconditional]
  have normalized := applyNormalizers_unobserved unobserved view.record value
  rw [guardNode, applies, ok_bind, done]
  show ∃ _ _, (view.context.applyNormalizers node.path view.record value >>= _) = _ ∧ _
  rw [normalized, ok_bind]
  show ∃ _ _, (applyFloatReadSemantics node value >>= _) = _ ∧ _
  rw [plain, ok_bind]
  exact ⟨_, _, rfl, kept⟩

/-- Counted elements that take a number of bytes each. -/
theorem arrayLoop_takes (unobserved : Unobserved view.context.registry node observed)
    {elementPath : String} {current : Bytes} {frame : DecodeFrame}
    {decode : Bytes → DecodeFrame → DecodeState → Except SemanticError (Decoded × DecodeState)}
    {size : Nat} (takes : Takes size decode) {elementCount : Option Nat} (fuel : Nat)
    {rounds decodedCount cursor : Nat} {values : List FieldValue} {state : DecodeState}
    (counted : elementCount = some (decodedCount + rounds) ∧ fuel = rounds ∨
      elementCount = none ∧ 0 < size ∧ rounds < fuel ∧ current.length = cursor + size * rounds)
    (room : cursor + size * rounds ≤ current.length) :
    ∃ result after, view.keeping.arrayLoop node elementPath current elementCount frame decode fuel
        decodedCount cursor values state = .ok (result, cursor + size * rounds, after) ∧
      after.selections = state.selections := by
  induction fuel generalizing rounds decodedCount cursor values state with
  | zero =>
    rcases counted with ⟨_, rfl⟩ | ⟨_, _, impossible, _⟩
    · exact ⟨values, state, rfl, rfl⟩
    · omega
  | succ fuel more =>
    have open_ : ¬elementCount.any (· ≤ decodedCount) := by
      rcases counted with ⟨rfl, rfl⟩ | ⟨rfl, _⟩
      · simp only [Option.any_some, decide_eq_true_eq]
        omega
      · exact Bool.false_ne_true
    rw [arrayLoop, if_neg open_]
    by_cases finished : cursor = current.length ∧ (elementCount.isNone ∨ infoFragmentLimit node)
    · have nothing : size * rounds = 0 := by omega
      rw [if_pos finished, nothing]
      exact ⟨values, state, rfl, rfl⟩
    obtain ⟨left, rfl⟩ : ∃ left, rounds = left + 1 := by
      rcases counted with ⟨_, same⟩ | ⟨none_, _, _, whole⟩
      · exact ⟨fuel, same.symm⟩
      · cases rounds with
        | zero => exact absurd ⟨whole.symm, .inl (by rw [none_]; rfl)⟩ finished
        | succ left => exact ⟨left, rfl⟩
    have grow : size * (left + 1) = size + size * left := by rw [Nat.mul_succ, Nat.add_comm]
    rw [grow] at room counted
    have enough : size ≤ (current.drop cursor).length := by
      rw [List.length_drop]
      omega
    rw [if_neg finished, if_neg (show ¬current.length < cursor by omega)]
    show ∃ _ _, (shouldIncludeArrayElement _ _ (current.drop cursor) _ >>= _) = _ ∧ _
    rw [shouldIncludeArrayElement_unobserved unobserved, ok_bind]
    obtain ⟨value, middle, decoded, kept⟩ := takes (current.drop cursor) { frame with
      offset := frame.offset + cursor
      arrayIndices := frame.arrayIndices ++ [decodedCount] } state enough
    have progress : ¬(size = 0 ∧ elementCount.isNone) := by
      rintro ⟨rfl, none_⟩
      rcases counted with ⟨rfl, _⟩ | ⟨_, positive, _⟩
      · cases none_
      · omega
    show ∃ _ _, (if !true then _ else decode (current.drop cursor) _ state >>= _) = _ ∧ _
    rw [if_neg (by decide), decoded, ok_bind]
    simp only [if_neg progress, if_neg (show ¬current.length < cursor + size by omega)]
    have others : elementCount = some (decodedCount + 1 + left) ∧ fuel = left ∨
        elementCount = none ∧ 0 < size ∧ left < fuel ∧
          current.length = cursor + size + size * left := by
      rcases counted with ⟨rfl, same⟩ | ⟨none_, positive, less, whole⟩
      · exact .inl ⟨by rw [Nat.add_assoc, Nat.add_comm 1], Nat.succ.inj same⟩
      · exact .inr ⟨none_, positive, Nat.lt_of_succ_lt_succ less, by rw [whole, Nat.add_assoc]⟩
    have rest : cursor + size + size * left ≤ current.length := by rw [Nat.add_assoc]; exact room
    obtain ⟨result, after, done, same⟩ := more others rest
    refine ⟨result, after, ?_, same.trans kept⟩
    rw [grow, ← Nat.add_assoc]
    exact done

/-- A primitive that every byte string of a size is a value of. -/
theorem decodePrimitiveNode_takes {path : String} {primitive : PrimitiveType} {size : Nat}
    (sized : ∀ data localized, nodeDataSize primitive data localized path = .ok size)
    (readable : ∀ codecs data localized encoding, data.length = size → ∃ value,
      decodePrimitive codecs primitive data localized encoding path = .ok (value, none))
    {bytes : Bytes} (frame : DecodeFrame) (state : DecodeState) (enough : size ≤ bytes.length) :
    ∃ value middle, view.keeping.decodePrimitiveNode path primitive bytes frame state =
      .ok (⟨value, size, none⟩, middle) ∧ middle.selections = state.selections := by
  have whole : (bytes.take size).length = size := List.length_take_of_le enough
  rw [decodePrimitiveNode, sized, ok_bind, if_neg (Nat.not_lt.mpr enough)]
  cases view.keeping.explicitCodec path frame with
  | none =>
    obtain ⟨value, read⟩ := readable view.context.codecs (bytes.take size) view.localized
      view.context.inlineStringEncoding whole
    exact ⟨value, _, congrArg (· >>= _) read, rfl⟩
  | some codec =>
    obtain ⟨value, read⟩ := readable view.context.codecs (bytes.take size) view.localized
      (some codec.encoding) whole
    exact ⟨value, _, congrArg (· >>= _) read, rfl⟩

/-- A checked size is the size. -/
theorem usizeChecked_eq {value size : Nat} (checked : usizeChecked value = some size) :
    size = value := by
  rw [usizeChecked] at checked
  split at checked
  case isTrue => exact (Option.some.inj checked).symm
  case isFalse => cases checked

/-- A condition that is not there. -/
theorem unconditional {info : NodeInfo} {depth : Nat}
    (plain : ¬(info.condition.isSome ∨ 128 < depth)) : info.condition = none := by
  rw [not_or, Bool.not_eq_true, Option.isSome_eq_false_iff, Option.isNone_iff_eq_none] at plain
  exact plain.1

/-- A node of which every byte pattern is valid has no condition. -/
theorem unconstrainedSize_condition {node : SchemaNode} {depth size : Nat}
    (sized : unconstrainedSize node depth = some size) : node.condition = none := by
  rw [unconstrainedSize.eq_def] at sized
  split at sized
  case h_1 | h_2 | h_3 | h_4 =>
    split at sized
    case isTrue => cases sized
    case isFalse plain => exact unconditional plain
  case h_5 => cases sized

/-- An integer of a supported width is read from any bytes. -/
theorem decodeInteger_readable {integer : IntegerType} {data : Bytes} (path : String)
    (width : integer.width = 1 ∨ integer.width = 2 ∨ integer.width = 4 ∨ integer.width = 8)
    (whole : data.length = integer.width.toNat) :
    ∃ value, decodeInteger integer data path = .ok value := by
  have unsigned : ∃ value, integerAsU64 integer data path = .ok value := by
    rw [integerAsU64, if_neg (not_not.mpr whole), if_pos width]
    cases integer.byteOrder with
    | littleEndian | bigEndian => exact ⟨_, rfl⟩
  obtain ⟨value, read⟩ := unsigned
  rw [decodeInteger]
  split
  case isTrue signed =>
    rw [integerAsI64, signed, if_neg (by decide), read]
    exact ⟨_, rfl⟩
  case isFalse =>
    rw [read]
    exact ⟨_, rfl⟩

mutual

/-- A node of which every byte pattern is valid takes its size. -/
theorem decodeNode_takes (payload : Bytes) (node : SchemaNode) {depth level size : Nat}
    {observed : Bool} (sized : unconstrainedSize node depth = some size)
    (analyzed : analyze view.context.registry node level = some observed) :
    Takes size (decodeNode view.keeping payload node) := by
  have unobserved := analyze_unobserved analyzed
  have children := analyze_children analyzed
  intro bytes frame state enough
  match node with
  | .primitive info (.integer integer) =>
    rw [unconstrainedSize] at sized
    split at sized
    case isTrue => cases sized
    case isFalse plain =>
    split at sized
    case isFalse => cases sized
    case isTrue width =>
    obtain rfl := Option.some.inj sized
    have readable (codecs : TextCodecs) (data : Bytes) (localized : Bool)
        (encoding : Option InlineStringEncoding) (whole : data.length = integer.width.toNat) :
        ∃ value, decodePrimitive codecs (.integer integer) data localized encoding info.path =
          .ok (value, none) := by
      obtain ⟨value, read⟩ := decodeInteger_readable info.path width whole
      exact ⟨value, by rw [decodePrimitive, read]; rfl⟩
    obtain ⟨value, middle, done, kept⟩ :=
      decodePrimitiveNode_takes (fun _ _ => rfl) readable frame state enough
    rw [decodeNode]
    exact guardNode_takes unobserved (unconditional plain) (fun _ => rfl) done kept
  | .primitive info (.bytes (some length)) =>
    rw [unconstrainedSize] at sized
    split at sized
    case isTrue => cases sized
    case isFalse plain =>
    obtain rfl := Option.some.inj sized
    have readable (codecs : TextCodecs) (data : Bytes) (localized : Bool)
        (encoding : Option InlineStringEncoding) (whole : data.length = length.toNat) :
        ∃ value, decodePrimitive codecs (.bytes (some length)) data localized encoding info.path =
          .ok (value, none) :=
      ⟨.bytes data, by rw [decodePrimitive]; exact if_neg (not_not.mpr whole)⟩
    obtain ⟨value, middle, done, kept⟩ :=
      decodePrimitiveNode_takes (fun _ _ => rfl) readable frame state enough
    rw [decodeNode]
    exact guardNode_takes unobserved (unconditional plain) (fun _ => rfl) done kept
  | .struct info fields =>
    rw [unconstrainedSize] at sized
    split at sized
    case isTrue => cases sized
    case isFalse plain =>
    obtain ⟨rest, rfl, run⟩ := decodeFields_takes payload fields sized children
    rw [Nat.zero_add] at enough ⊢
    obtain ⟨values, after, done, kept⟩ := run bytes frame 0 0 false [] state
      (by rw [Nat.zero_add]; exact enough)
    rw [decodeNode, done, ok_bind, Nat.zero_add]
    exact guardNode_takes unobserved (unconditional plain) (fun _ => rfl) rfl kept
  | .array info element (.fixed count) =>
    rw [unconstrainedSize] at sized
    split at sized
    case isTrue => cases sized
    case isFalse plain =>
    obtain ⟨elementSize, here, sized⟩ := Option.bind_eq_some_iff.mp sized
    obtain rfl := usizeChecked_eq sized
    obtain ⟨inner, analyzed, _⟩ := children element (List.mem_singleton.mpr rfl)
    have takes := decodeNode_takes payload element here analyzed
    have run : ∃ values after, view.keeping.arrayLoop (.array info element (.fixed count))
        element.path bytes (some (0 + count.toNat)) frame (decodeNode view.keeping payload element)
          count.toNat 0 0 [] state = .ok (values, 0 + elementSize * count.toNat, after) ∧
        after.selections = state.selections :=
      arrayLoop_takes unobserved takes count.toNat (.inl ⟨rfl, rfl⟩)
        (by rw [Nat.zero_add]; exact enough)
    obtain ⟨values, after, done, kept⟩ := run
    rw [Nat.zero_add, Nat.zero_add] at done
    have body : view.keeping.decodeArray (.array info element (.fixed count)) element
        (.fixed count) payload bytes frame state (decodeNode view.keeping payload element) =
          .ok (⟨.array values, elementSize * count.toNat, none⟩, after) := by
      show (view.keeping.arrayLoop _ _ _ _ _ _ count.toNat 0 0 [] state >>= _) = _
      rw [done]
      rfl
    rw [decodeNode, body]
    exact guardNode_takes unobserved (unconditional plain) (fun _ => rfl) rfl kept
  | .primitive _ .packedUnsigned | .primitive _ (.float _ _ _ _) | .primitive _ (.string _)
  | .primitive _ (.bytes none) | .primitive _ (.formId _) | .primitive _ (.enumeration _ _)
  | .primitive _ (.flags _ _) | .primitive _ (.unused _) | .sequence _ _ | .unordered _ _
  | .choice _ _ | .selectedChoice _ _ _ | .repeat _ _ _ _ | .subrecord _ _ _
  | .optionalStruct _ _ _ | .array _ _ (.prefixed _ _) | .array _ _ (.packedPrefixed _ _)
  | .array _ _ (.squaredPrefixed _ _) | .array _ _ .remainder | .array _ _ (.expression _)
  | .array _ _ (.callback _) | .union _ _ _ | .custom _ _ _ | .compressed _ _ _
  | .terminated _ _ _ | .reference _ _ =>
    exact nomatch sized
termination_by structural node

/-- Fields of which every byte pattern is valid take their sizes. -/
theorem decodeFields_takes (payload : Bytes) (fields : List SchemaNode) {depth level start total : Nat}
    {observed : Bool} (sized : unconstrainedSizes fields depth start = some total)
    (analyzed : ∀ field ∈ fields, ChildUnobserved view.context.registry level observed field) :
    ∃ rest, total = start + rest ∧ ∀ (current : Bytes) (frame : DecodeFrame)
      (index cursor : Nat) (absent : Bool) (values : List NamedValue) (state : DecodeState),
      cursor + rest ≤ current.length → ∃ result after,
        decodeFields view.keeping payload current frame none fields index cursor absent values
          state = .ok (result, cursor + rest, after) ∧ after.selections = state.selections := by
  match fields with
  | [] =>
    obtain rfl := Option.some.inj sized
    exact ⟨0, rfl, fun _ _ _ _ _ values state _ => ⟨values, state, by rw [decodeFields]; rfl, rfl⟩⟩
  | field :: fields =>
    rw [unconstrainedSizes] at sized
    obtain ⟨size, here, sized⟩ := Option.bind_eq_some_iff.mp sized
    obtain ⟨next, checked, sized⟩ := Option.bind_eq_some_iff.mp sized
    obtain rfl := usizeChecked_eq checked
    obtain ⟨inner, analysis, _⟩ := analyzed field List.mem_cons_self
    have takes := decodeNode_takes payload field here analysis
    obtain ⟨rest, rfl, run⟩ := decodeFields_takes payload fields sized
      fun other member => analyzed other (List.mem_cons_of_mem _ member)
    refine ⟨size + rest, Nat.add_assoc _ _ _, fun current frame index cursor absent values state
      room => ?_⟩
    have applies : view.keeping.nodeApplies field payload state.fieldValues = .ok true := by
      rw [nodeApplies.eq_def, unconstrainedSize_condition here]
    have enough : size ≤ (current.drop cursor).length := by
      rw [List.length_drop]
      omega
    obtain ⟨value, middle, decoded, kept⟩ := takes (current.drop cursor) { frame with
      offset := frame.offset + cursor
      siblingValues := values } state enough
    obtain ⟨result, after, done, same⟩ := run current frame (index + 1) (cursor + size) absent
      (view.keeping.keep values (.mk field.id field.path none field.name
        ⟨frame.offset + cursor, frame.offset + cursor + size⟩ value)) middle (by omega)
    refine ⟨result, after, ?_, same.trans kept⟩
    rw [decodeFields, applies, ok_bind]
    show (if current.length < cursor then _ else decodeNode view.keeping payload field
      (current.drop cursor) _ state >>= _) = _
    rw [if_neg (show ¬current.length < cursor by omega), decoded, ok_bind, ← Nat.add_assoc]
    exact done
termination_by structural fields

end

end Semantic.RecordView

end Bethkit
