import Bethkit.Semantic.Handler

/-!
# Ordered matching of record subrecords against the schema grammar

The grammar runs once over the subrecords of a record, greedily and without backtracking beyond
the alternatives of one choice: a subrecord node takes the subrecord at the cursor if it has its
signature, and passes over signatures that the schema does not declare. A repeat numbers its
occurrences from zero and puts the number on the stack of the subrecords below it.

The source keeps the assignments of all branches in one vector and links the entries of a branch;
here each branch holds its own list, newest first. Subrecord indices and occurrence counters are
natural numbers.
-/

namespace Bethkit

open Lib

/-- One locally numbered repetition of a grammar child. -/
structure RepeatScope where
  /-- Stable path of the repeated child, not its enclosing repeat node. -/
  path : String
  /-- Zero-based occurrence within its complete parent repeat stack. -/
  occurrence : Nat
deriving DecidableEq

/-- A repeat that matched fewer occurrences than it requires. -/
structure GrammarViolation where
  /-- Path of the repeat node. -/
  path : String
  /-- Required occurrences. -/
  minimum : UInt32
  /-- Matched occurrences. -/
  actual : Nat
deriving DecidableEq

/-- A subrecord and the node that took it. -/
structure MatchedAssignment where
  /-- Subrecord index. -/
  index : Nat
  /-- Assigned node. -/
  node : SchemaNode
  /-- Repeat stack, outermost first. -/
  repeatScopes : List RepeatScope

/-- The state of one branch of the match. -/
structure MatchState where
  /-- Index of the next subrecord. -/
  cursor : Nat
  /-- Assignments of this branch, newest first. -/
  history : List MatchedAssignment
  /-- Repeat stack at the current node. -/
  activeRepeatScopes : List RepeatScope
  /-- Number of assignments. -/
  assigned : Nat
  /-- Violations found. -/
  violations : List GrammarViolation

/-- The result of a match. -/
structure GrammarMatch where
  /-- The node of every subrecord. -/
  assignments : List (Option SchemaNode)
  /-- The repeat stack of every subrecord. -/
  repeatScopes : List (List RepeatScope)
  /-- The signatures of the schema. -/
  declaredSignatures : List Signature
  /-- Violations found. -/
  violations : List GrammarViolation

/-- The record that a match runs over. -/
structure GrammarInput where
  /-- Record signature. -/
  recordSignature : Signature
  /-- Record form version. -/
  formVersion : UInt16
  /-- Subrecords. -/
  subrecords : List WritableSubRecord
  /-- Signatures that the schema declares. -/
  declared : List Signature

/-- The payload at an index, empty behind the last subrecord. -/
def GrammarInput.payloadAt (input : GrammarInput) (index : Nat) : Bytes :=
  (input.subrecords[index]?.map WritableSubRecord.data).getD []

/-- An expression evaluated with the fixed budget; its errors are schema errors. -/
def evaluateExpression (expression : Expression) (context : EvalContext) :
    Except SemanticError EvalValue :=
  (expression.evaluate context 1024).mapError .schema

mutual

/-- The signatures of a schema tree. -/
def collectSignatures : SchemaNode → List Signature
  | .sequence _ children | .unordered _ children | .choice _ children
  | .selectedChoice _ _ children | .struct _ children | .optionalStruct _ children _
  | .union _ _ children => collectAllSignatures children
  | .repeat _ _ _ child | .compressed _ _ child | .terminated _ _ child | .array _ child _ =>
    collectSignatures child
  | .subrecord _ signature _ => [signature]
  | .primitive _ _ | .custom _ _ _ | .reference _ _ => []

/-- The signatures of a list of schema trees. -/
def collectAllSignatures : List SchemaNode → List Signature
  | [] => []
  | child :: children => collectSignatures child ++ collectAllSignatures children

end

/-- The fixed size of a primitive, as far as the grammar needs it. -/
def primitiveFixedSize : PrimitiveType → Option Nat
  | .integer integer | .enumeration integer _ | .flags integer _ => some integer.width.toNat
  | .float width _ _ _ => some width.toNat
  | .formId _ => some 4
  | .string string => string.fixedLength.map (·.toNat)
  | .bytes length => length.map (·.toNat)
  | .unused length => some length.toNat
  | .packedUnsigned => none

/-- The integer layout of an integer, enumeration or flag set. -/
def integerLayout : SchemaNode → Option IntegerType
  | .primitive _ (.integer integer) | .primitive _ (.enumeration integer _)
  | .primitive _ (.flags integer _) => some integer
  | _ => none

/-- A selector integer of at most eight bytes. -/
def decodeSelectorInteger (bytes : Bytes) (integer : IntegerType) : Int64 :=
  let unsigned : UInt64 := match integer.byteOrder with
    | .littleEndian => bytes.zipIdx.foldl (fun value (byte, index) =>
        value ||| (byte.toUInt64 <<< UInt64.ofNat (index * 8))) 0
    | .bigEndian => bytes.foldl (fun value byte => (value <<< 8) ||| byte.toUInt64) 0
  if !integer.signed then unsigned.toInt64
  else
    let shift := UInt64.ofNat (64 - integer.width.toNat * 8)
    (unsigned <<< shift).toInt64 >>> shift.toInt64

/-- The integer of a numeric node at an offset; nothing for other nodes. -/
def numericPayloadValue (node : SchemaNode) (payload : Bytes) (offset : Nat) :
    Except SemanticError (Option Int64) :=
  match integerLayout node with
  | none => .ok none
  | some integer =>
    let width := integer.width.toNat
    match payload.get offset (offset + width) with
    | none => .error (.decode node.path
        s!"selector field needs {width} bytes at offset {offset}, payload has {payload.length}")
    | some bytes => .ok (some (decodeSelectorInteger bytes integer))

mutual

/-- Record the numeric fields of a payload as far as its layout is fixed; the size of the node
if it is known. -/
def collectNumericPayloadFields (payload : Bytes) :
    SchemaNode → Nat → FieldValues → Except SemanticError (Option Nat × FieldValues)
  | node@(.struct _ fields), offset, values | node@(.optionalStruct _ fields _), offset, values => do
    let value ← numericPayloadValue node payload offset
    let values := match value with
      | some value => values.insert node.path value
      | none => values
    let (stop, values) ← collectNumericFields payload fields offset values
    .ok (stop.map (· - offset), values)
  | node, offset, values => do
    let value ← numericPayloadValue node payload offset
    let values := match value with
      | some value => values.insert node.path value
      | none => values
    .ok (match node with
      | .primitive _ primitive => primitiveFixedSize primitive
      | _ => none, values)

/-- Record the numeric fields of consecutive fields; the offset behind the last one. -/
def collectNumericFields (payload : Bytes) :
    List SchemaNode → Nat → FieldValues → Except SemanticError (Option Nat × FieldValues)
  | [], cursor, values => .ok (some cursor, values)
  | field :: fields, cursor, values => do
    let (consumed, values) ← collectNumericPayloadFields payload field cursor values
    match consumed with
    | none => .ok (none, values)
    | some consumed => collectNumericFields payload fields (cursor + consumed) values

end

/-- The numeric fields of one assigned subrecord. -/
def collectAssignedFields (input : GrammarInput) (values : FieldValues)
    (entry : MatchedAssignment) : Except SemanticError FieldValues :=
  match entry.node with
  | .subrecord info _ payload => do
    let bytes := input.payloadAt entry.index
    let (_, values) ← collectNumericPayloadFields bytes payload 0 values
    let value ← numericPayloadValue payload bytes 0
    .ok (match value with
      | some value => values.insert info.path value
      | none => values)
  | _ => .ok values

/-- The numeric fields of the subrecords assigned so far; later occurrences overwrite earlier
ones. -/
def assignedNumericFields (input : GrammarInput) (state : MatchState) :
    Except SemanticError FieldValues :=
  state.history.reverse.foldlM (collectAssignedFields input) ∅

/-- Whether the condition of a node holds at the cursor. -/
def conditionApplies (input : GrammarInput) (node : SchemaNode) (state : MatchState) :
    Except SemanticError Bool :=
  match node.condition with
  | none => .ok true
  | some condition => do
    let value ← evaluateExpression condition {
      payload := input.payloadAt state.cursor
      fieldValues := ∅
      formVersion := input.formVersion
      recordSignature := input.recordSignature }
    match value with
    | .bool value => .ok value
    | .int _ => .error (.decode node.path "grammar condition did not return a boolean")

/-- Move the cursor over signatures that the schema does not declare. -/
def skipUnknown (input : GrammarInput) (state : MatchState) : MatchState :=
  { state with cursor := state.cursor + ((input.subrecords.drop state.cursor).takeWhile
      fun subrecord => !input.declared.contains subrecord.signature).length }

/-- Whether a repeated structure can begin at the cursor: its required opening field matches. -/
def repeatAnchorMatches (input : GrammarInput) (child : SchemaNode) (state : MatchState) : Bool :=
  match child with
  | .sequence _ (.subrecord info signature _ :: _) =>
    if !info.required || info.condition.isSome then true
    else match (input.subrecords.drop state.cursor).find? fun subrecord =>
        input.declared.contains subrecord.signature with
      | some subrecord => subrecord.signature = signature
      | none => false
  | _ => true

/-- Whether a candidate got further than the best branch so far. -/
def MatchState.improves (candidate best : MatchState) : Bool :=
  best.assigned < candidate.assigned ||
    (candidate.assigned = best.assigned && best.cursor < candidate.cursor)

/-- The index that the selector of an ordered choice yields. -/
def selectAlternativeIndex (input : GrammarInput) (node : SchemaNode) (selector : UnionSelector)
    (state : MatchState) : Except SemanticError Nat := do
  let fieldValues ← assignedNumericFields input state
  let index ← match selector with
    | .expression expression => do
      let value ← evaluateExpression expression {
        payload := input.payloadAt state.cursor
        fieldValues
        formVersion := input.formVersion
        recordSignature := input.recordSignature }
      match value with
      | .int value => .ok value
      | .bool _ => .error (.decode node.path "ordered choice selector returned a boolean")
    | .callback callbackId => .error (.handler callbackId
        s!"ordered choice {node.path} retained a non-declarative selector")
  if index.toInt < 0 then
    .error (.decode node.path s!"ordered choice selected negative alternative {index.toInt}")
  else .ok index.toInt.toNat

/-- The loop of a repeat: `step` matches one more occurrence. Every occurrence takes a subrecord,
so the first argument bounds the rounds. -/
def repeatLoop (maximum : Option UInt32) (anchor : MatchState → Bool)
    (step : Nat → MatchState → Except SemanticError MatchState) :
    Nat → Nat → MatchState → Except SemanticError (Nat × MatchState)
  | 0, count, current => .ok (count, current)
  | fuel + 1, count, current =>
    if maximum.any (·.toNat ≤ count) then .ok (count, current)
    else if !anchor current then .ok (count, current)
    else do
      let candidate ← step count current
      if candidate.assigned = current.assigned then .ok (count, current)
      else
        repeatLoop maximum anchor step fuel (count + 1)
          { candidate with activeRepeatScopes := candidate.activeRepeatScopes.dropLast }

/-- The loop of an unordered group: `round` finds the best child that did not match yet. Every
round takes another child, so the first argument bounds the rounds. -/
def unorderedLoop (round : List Nat → MatchState → Except SemanticError (Option (Nat × MatchState))) :
    Nat → List Nat → MatchState → Except SemanticError MatchState
  | 0, _, current => .ok current
  | fuel + 1, matched, current => do
    let best ← round matched current
    match best with
    | none => .ok current
    | some (index, candidate) => unorderedLoop round fuel (index :: matched) candidate

/-- Take the subrecord at the cursor if it has the signature of a node. -/
def matchSubrecord (input : GrammarInput) (node : SchemaNode) (signature : Signature)
    (state : MatchState) : MatchState :=
  let current := skipUnknown input state
  match input.subrecords[current.cursor]? with
  | none => current
  | some subrecord =>
    if subrecord.signature ≠ signature then current
    else { current with
      history := ⟨current.cursor, node, current.activeRepeatScopes⟩ :: current.history
      cursor := current.cursor + 1
      assigned := current.assigned + 1 }

/-- The end of a repeat: too few occurrences are a violation. -/
def closeRepeat (path : String) (minimum : UInt32) (count : Nat) (current : MatchState) :
    MatchState :=
  if count < minimum.toNat then
    { current with violations := current.violations ++ [⟨path, minimum, count⟩] }
  else current

mutual

/-- Match a node at the cursor. A node whose condition fails leaves the state alone. -/
def matchNode (input : GrammarInput) :
    SchemaNode → MatchState → Except SemanticError MatchState
  | node@(.sequence _ children), state => do
    let applies ← conditionApplies input node state
    if applies then matchChildren input children state else .ok state
  | node@(.unordered _ children), state => do
    let applies ← conditionApplies input node state
    if applies then
      unorderedLoop (fun matched current => matchCandidates input children 0 matched current none)
        (children.length + 1) [] state
    else .ok state
  | node@(.choice _ alternatives), state => do
    let applies ← conditionApplies input node state
    if applies then matchAlternatives input alternatives state state else .ok state
  | node@(.selectedChoice _ selector alternatives), state => do
    let applies ← conditionApplies input node state
    if applies then do
      let index ← selectAlternativeIndex input node selector state
      matchAlternativeAt input node.path index alternatives index state
    else .ok state
  | node@(.repeat _ minimum maximum child), state => do
    let applies ← conditionApplies input node state
    if applies then do
      let (count, current) ← repeatLoop maximum (repeatAnchorMatches input child)
        (fun count current => matchNode input child { current with
          activeRepeatScopes := current.activeRepeatScopes ++ [⟨child.path, count⟩] })
        (input.subrecords.length + 1) 0 state
      .ok (closeRepeat node.path minimum count current)
    else .ok state
  | node@(.subrecord _ signature _), state => do
    let applies ← conditionApplies input node state
    .ok (if applies then matchSubrecord input node signature state else state)
  | node, state => do
    let _ ← conditionApplies input node state
    .ok state

/-- Match the children of a sequence in order. -/
def matchChildren (input : GrammarInput) :
    List SchemaNode → MatchState → Except SemanticError MatchState
  | [], state => .ok state
  | child :: children, state => do
    let state ← matchNode input child state
    matchChildren input children state

/-- One round of an unordered group: the best of the children that did not match yet. -/
def matchCandidates (input : GrammarInput) :
    List SchemaNode → Nat → List Nat → MatchState → Option (Nat × MatchState) →
      Except SemanticError (Option (Nat × MatchState))
  | [], _, _, _, best => .ok best
  | child :: children, index, matched, current, best =>
    if index ∈ matched then matchCandidates input children (index + 1) matched current best
    else do
      let candidate ← matchNode input child current
      let best := if candidate.assigned = current.assigned then best
        else if best.all (candidate.improves ·.2) then some (index, candidate)
        else best
      matchCandidates input children (index + 1) matched current best

/-- The best of the alternatives of a choice. -/
def matchAlternatives (input : GrammarInput) :
    List SchemaNode → MatchState → MatchState → Except SemanticError MatchState
  | [], _, best => .ok best
  | alternative :: alternatives, state, best => do
    let candidate ← matchNode input alternative state
    matchAlternatives input alternatives state (if candidate.improves best then candidate else best)

/-- Match the alternative at a position. -/
def matchAlternativeAt (input : GrammarInput) (path : String) (index : Nat) :
    List SchemaNode → Nat → MatchState → Except SemanticError MatchState
  | [], _, _ => .error (.decode path s!"ordered choice alternative {index} does not exist")
  | alternative :: _, 0, state => matchNode input alternative state
  | _ :: alternatives, position + 1, state =>
    matchAlternativeAt input path index alternatives position state

end

/-- The state in which a match begins. -/
def MatchState.initial : MatchState := ⟨0, [], [], 0, []⟩

/-- The tables of a finished match over a number of subrecords. -/
def MatchState.toMatch (state : MatchState) (declared : List Signature) (length : Nat) :
    GrammarMatch where
  assignments := state.history.foldl (fun assignments entry =>
    assignments.set entry.index (some entry.node)) (List.replicate length none)
  repeatScopes := state.history.foldl (fun scopes entry =>
    scopes.set entry.index entry.repeatScopes) (List.replicate length [])
  declaredSignatures := declared
  violations := state.violations

/-- Match the subrecords of a record against the grammar. -/
def interpretInputs (root : SchemaNode) (recordSignature : Signature) (formVersion : UInt16)
    (subrecords : List WritableSubRecord) : Except SemanticError GrammarMatch := do
  let declared := collectSignatures root
  let state ← matchNode { recordSignature, formVersion, subrecords, declared } root .initial
  .ok (state.toMatch declared subrecords.length)

/-- Match the subrecords of a parsed record. -/
def interpret (root : SchemaNode) (recordSignature : Signature) (formVersion : UInt16)
    (subrecords : List SubRecord) : Except SemanticError GrammarMatch :=
  interpretInputs root recordSignature formVersion
    (subrecords.map fun subrecord => ⟨subrecord.signature, subrecord.asBytes⟩)

/-- Match the subrecords of a writable record. -/
def interpretWritable (root : SchemaNode) (recordSignature : Signature) (formVersion : UInt16)
    (subrecords : List WritableSubRecord) : Except SemanticError GrammarMatch :=
  interpretInputs root recordSignature formVersion subrecords

end Bethkit
