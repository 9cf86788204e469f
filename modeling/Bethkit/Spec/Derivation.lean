import Bethkit.Semantic.Grammar

/-!
# Derivations of the record grammar

What a match of a record against the schema grammar means, without cursors that try and fail. A
derivation places subrecords of the record at the leaves of the schema tree: sequences in order,
unordered groups with every child at most once, choices with one alternative, repeats with
numbered occurrences. Every subrecord node is optional, and between two placed subrecords the
record may only hold signatures that the schema does not declare.
-/

namespace Bethkit

open Lib

/-- A record whose declared signatures are those of a schema root. -/
def GrammarInput.of (root : SchemaNode) (recordSignature : Signature) (formVersion : UInt16)
    (subrecords : List WritableSubRecord) : GrammarInput where
  recordSignature
  formVersion
  subrecords
  declared := collectSignatures root

/-- Whether the schema declares the signature of a subrecord. -/
def GrammarInput.declares (input : GrammarInput) (subrecord : WritableSubRecord) : Bool :=
  input.declared.contains subrecord.signature

/-- The subrecords from one position to another have signatures that the schema does not
declare. -/
structure GrammarInput.Unknown (input : GrammarInput) (start stop : Nat) : Prop where
  /-- The positions are in order. -/
  ordered : start ≤ stop
  /-- Every position between them holds an undeclared signature. -/
  undeclared : ∀ index, start ≤ index → index < stop →
    ∃ subrecord, input.subrecords[index]? = some subrecord ∧
      subrecord.signature ∉ input.declared

/-- The condition of a node holds at a position of the record. -/
def GrammarInput.Holds (input : GrammarInput) (node : SchemaNode) (position : Nat) : Prop :=
  conditionApplies input node { MatchState.initial with cursor := position } = .ok true

/-- What is derived: a node, or a number of nodes that share the rule of their parent. -/
inductive GrammarGoal where
  /-- One node. -/
  | one (node : SchemaNode)
  /-- The children of a sequence. -/
  | inOrder (children : List SchemaNode)
  /-- Some children of an unordered group, at the given different positions. -/
  | anyOrder (children : List SchemaNode) (used : List Nat)
  /-- A number of occurrences of the child of a repeat. -/
  | occurrences (child : SchemaNode) (count : Nat)

/-- The derivations of a goal under a repeat stack, from one position of the record to another,
with the subrecords that they place. -/
inductive Derives (input : GrammarInput) :
    GrammarGoal → List RepeatScope → Nat → List MatchedAssignment → Nat → Prop where
  /-- Every node may be absent. -/
  | absent {node stack start stop} : input.Unknown start stop →
      Derives input (.one node) stack start [] stop
  /-- A subrecord node takes a subrecord of its signature, which the schema declares. -/
  | subrecord {info signature payload stack start index subrecord} :
      input.Holds (.subrecord info signature payload) start → input.Unknown start index →
      input.subrecords[index]? = some subrecord → subrecord.signature = signature →
      signature ∈ input.declared →
      Derives input (.one (.subrecord info signature payload)) stack start
        [⟨index, .subrecord info signature payload, stack⟩] (index + 1)
  /-- A sequence takes its children in order. -/
  | sequence {info children stack start trace stop} :
      input.Holds (.sequence info children) start →
      Derives input (.inOrder children) stack start trace stop →
      Derives input (.one (.sequence info children)) stack start trace stop
  /-- An unordered group takes some of its children, each at most once. -/
  | unordered {info children used stack start trace stop} :
      input.Holds (.unordered info children) start →
      Derives input (.anyOrder children used) stack start trace stop →
      Derives input (.one (.unordered info children)) stack start trace stop
  /-- A choice takes one alternative. -/
  | choice {info alternatives alternative stack start trace stop} :
      input.Holds (.choice info alternatives) start → alternative ∈ alternatives →
      Derives input (.one alternative) stack start trace stop →
      Derives input (.one (.choice info alternatives)) stack start trace stop
  /-- An ordered choice takes one alternative. -/
  | selectedChoice {info selector alternatives alternative stack start trace stop} :
      input.Holds (.selectedChoice info selector alternatives) start →
      alternative ∈ alternatives →
      Derives input (.one alternative) stack start trace stop →
      Derives input (.one (.selectedChoice info selector alternatives)) stack start trace stop
  /-- A repeat takes occurrences of its child up to its maximum. -/
  | repeat {info minimum maximum child count stack start trace stop} :
      input.Holds (.repeat info minimum maximum child) start →
      (∀ limit, maximum = some limit → count ≤ limit.toNat) →
      Derives input (.occurrences child count) stack start trace stop →
      Derives input (.one (.repeat info minimum maximum child)) stack start trace stop
  /-- No children are left. -/
  | inOrderNil {stack start} : Derives input (.inOrder []) stack start [] start
  /-- The first child and then the others. -/
  | inOrderCons {child children stack start first middle rest stop} :
      Derives input (.one child) stack start first middle →
      Derives input (.inOrder children) stack middle rest stop →
      Derives input (.inOrder (child :: children)) stack start (first ++ rest) stop
  /-- No child of an unordered group was used yet. -/
  | anyOrderNil {children stack start} :
      Derives input (.anyOrder children []) stack start [] start
  /-- One more child of an unordered group that was not used before. -/
  | anyOrderSnoc {children used index child stack start first middle rest stop} :
      Derives input (.anyOrder children used) stack start first middle →
      index ∉ used → children[index]? = some child →
      Derives input (.one child) stack middle rest stop →
      Derives input (.anyOrder children (index :: used)) stack start (first ++ rest) stop
  /-- No occurrence. -/
  | occurrencesZero {child stack start} :
      Derives input (.occurrences child 0) stack start [] start
  /-- One more occurrence, which takes a subrecord and has the next number on its stack. -/
  | occurrencesSucc {child count stack start first middle rest stop} :
      Derives input (.occurrences child count) stack start first middle →
      Derives input (.one child) (stack ++ [⟨child.path, count⟩]) middle rest stop →
      rest ≠ [] →
      Derives input (.occurrences child (count + 1)) stack start (first ++ rest) stop

/-- How the placed subrecords of a derivation lie between its positions. -/
structure Covers (input : GrammarInput) (start : Nat) (trace : List MatchedAssignment)
    (stop : Nat) : Prop where
  /-- There is room for the placed subrecords. -/
  room : start + trace.length ≤ stop
  /-- The positions exist. -/
  exist : stop = start ∨ stop ≤ input.subrecords.length
  /-- They are placed in record order, each once. -/
  increasing : trace.Pairwise fun first second => first.index < second.index
  /-- They lie between the positions. -/
  within : ∀ entry ∈ trace, start ≤ entry.index ∧ entry.index < stop
  /-- Declared signatures between the positions are placed. -/
  complete : ∀ index subrecord, start ≤ index → index < stop →
    input.subrecords[index]? = some subrecord → subrecord.signature ∈ input.declared →
    ∃ entry ∈ trace, entry.index = index
  /-- Every entry places a subrecord at a node of its signature. -/
  typed : ∀ entry ∈ trace, ∃ info signature payload subrecord,
    entry.node = .subrecord info signature payload ∧
    input.subrecords[entry.index]? = some subrecord ∧ subrecord.signature = signature ∧
    signature ∈ input.declared

/-- Undeclared signatures need no places. -/
theorem GrammarInput.Unknown.covers {input : GrammarInput} {start stop : Nat}
    (unknown : input.Unknown start stop) : Covers input start [] stop where
  room := by simpa using unknown.ordered
  exist := by
    by_cases same : stop = start
    · exact .inl same
    · have ordered := unknown.ordered
      obtain ⟨_, found, _⟩ := unknown.undeclared (stop - 1) (by omega) (by omega)
      have bound := (List.getElem?_eq_some_iff.mp found).1
      exact .inr (by omega)
  increasing := List.Pairwise.nil
  within := by simp
  complete := by
    intro index subrecord after before found declared
    obtain ⟨other, same, undeclared⟩ := unknown.undeclared index after before
    rw [found, Option.some.injEq] at same
    exact absurd (same ▸ declared) undeclared
  typed := by simp

/-- Two stretches that meet. -/
theorem Covers.append {input : GrammarInput} {start middle stop : Nat}
    {first rest : List MatchedAssignment} (left : Covers input start first middle)
    (right : Covers input middle rest stop) : Covers input start (first ++ rest) stop where
  room := by
    have leftRoom := left.room
    have rightRoom := right.room
    rw [List.length_append]
    omega
  exist := by
    rcases right.exist with same | bound
    · rw [same]
      exact left.exist
    · exact .inr bound
  increasing := by
    rw [List.pairwise_append]
    refine ⟨left.increasing, right.increasing, fun early before late after => ?_⟩
    exact lt_of_lt_of_le (left.within early before).2 (right.within late after).1
  within := by
    have leftRoom := left.room
    have rightRoom := right.room
    intro entry member
    rcases List.mem_append.mp member with before | after
    · have bounds := left.within entry before
      omega
    · have bounds := right.within entry after
      omega
  complete := by
    intro index subrecord after before found declared
    by_cases early : index < middle
    · obtain ⟨entry, member, same⟩ := left.complete index subrecord after early found declared
      exact ⟨entry, List.mem_append_left _ member, same⟩
    · obtain ⟨entry, member, same⟩ :=
        right.complete index subrecord (Nat.le_of_not_lt early) before found declared
      exact ⟨entry, List.mem_append_right _ member, same⟩
  typed := by
    intro entry member
    rcases List.mem_append.mp member with before | after
    · exact left.typed entry before
    · exact right.typed entry after

/-- One subrecord behind undeclared ones. -/
theorem Covers.single {input : GrammarInput} {start index : Nat}
    {info : NodeInfo} {signature : Signature} {payload : SchemaNode} {stack : List RepeatScope}
    {subrecord : WritableSubRecord} (unknown : input.Unknown start index)
    (found : input.subrecords[index]? = some subrecord)
    (same : subrecord.signature = signature) (declared : signature ∈ input.declared) :
    Covers input start [⟨index, .subrecord info signature payload, stack⟩] (index + 1) := by
  have bound : index < input.subrecords.length := (List.getElem?_eq_some_iff.mp found).1
  refine @Covers.append input start index (index + 1) [] [_] unknown.covers ⟨?_, .inr bound, List.pairwise_singleton _ _,
    ?_, ?_, ?_⟩
  · exact Nat.le_refl _
  · intro entry member
    rw [List.mem_singleton] at member
    subst member
    exact ⟨Nat.le_refl _, Nat.lt_succ_self _⟩
  · intro other _ after before _ _
    have same : index = other := by omega
    exact ⟨_, List.mem_singleton_self _, same⟩
  · intro entry member
    rw [List.mem_singleton] at member
    subst member
    exact ⟨info, signature, payload, subrecord, rfl, found, same, declared⟩

/-- Nothing between a position and itself. -/
theorem Covers.empty (input : GrammarInput) (start : Nat) : Covers input start [] start :=
  GrammarInput.Unknown.covers ⟨Nat.le_refl _, fun _ _ _ => by omega⟩

/-- The placed subrecords of a derivation cover its part of the record. -/
theorem Derives.covers {input : GrammarInput} {goal : GrammarGoal} {stack : List RepeatScope}
    {start stop : Nat} {trace : List MatchedAssignment}
    (derived : Derives input goal stack start trace stop) : Covers input start trace stop := by
  induction derived with
  | absent unknown => exact unknown.covers
  | subrecord _ unknown found same declared => exact Covers.single unknown found same declared
  | sequence _ _ inner | unordered _ _ inner | choice _ _ _ inner
  | selectedChoice _ _ _ inner | «repeat» _ _ _ inner => exact inner
  | inOrderNil | anyOrderNil | occurrencesZero => exact Covers.empty input _
  | inOrderCons _ _ first rest | anyOrderSnoc _ _ _ _ first rest
  | occurrencesSucc _ _ _ first rest => exact first.append rest

/-- The tables of a match hold the entries of a trace and nothing else. -/
structure GrammarMatch.Describes (result : GrammarMatch) (input : GrammarInput)
    (trace : List MatchedAssignment) : Prop where
  /-- Every subrecord has a place in the table of nodes. -/
  assignments_length : result.assignments.length = input.subrecords.length
  /-- Every subrecord has a place in the table of repeat stacks. -/
  repeatScopes_length : result.repeatScopes.length = input.subrecords.length
  /-- The node and the repeat stack of a placed subrecord. -/
  placed : ∀ entry ∈ trace, result.assignments[entry.index]? = some (some entry.node) ∧
    result.repeatScopes[entry.index]? = some entry.repeatScopes
  /-- No other subrecord has a node. -/
  unplaced : ∀ index < input.subrecords.length, (∀ entry ∈ trace, entry.index ≠ index) →
    result.assignments[index]? = some none ∧ result.repeatScopes[index]? = some []

/-- The states that a match passes through: the cursor is in the record. -/
structure MatchState.Fits (state : MatchState) (input : GrammarInput) : Prop where
  /-- The cursor is at a subrecord or behind the last one. -/
  cursor : state.cursor ≤ input.subrecords.length

/-- The runs of the loop of a repeat, without a bound on its rounds. -/
inductive RepeatRun (maximum : Option UInt32) (anchor : MatchState → Bool)
    (step : Nat → MatchState → Except SemanticError MatchState) :
    Nat → MatchState → Except SemanticError (Nat × MatchState) → Prop where
  /-- The maximum is reached. -/
  | full {count current} : maximum.any (·.toNat ≤ count) →
      RepeatRun maximum anchor step count current (.ok (count, current))
  /-- No further occurrence can begin. -/
  | unanchored {count current} : ¬maximum.any (·.toNat ≤ count) → anchor current = false →
      RepeatRun maximum anchor step count current (.ok (count, current))
  /-- An occurrence fails. -/
  | failed {count current error} : ¬maximum.any (·.toNat ≤ count) → anchor current = true →
      step count current = .error error →
      RepeatRun maximum anchor step count current (.error error)
  /-- An occurrence takes nothing. -/
  | stalled {count current candidate} : ¬maximum.any (·.toNat ≤ count) → anchor current = true →
      step count current = .ok candidate → candidate.assigned = current.assigned →
      RepeatRun maximum anchor step count current (.ok (count, current))
  /-- One more occurrence. -/
  | again {count current candidate result} : ¬maximum.any (·.toNat ≤ count) →
      anchor current = true → step count current = .ok candidate →
      candidate.assigned ≠ current.assigned →
      RepeatRun maximum anchor step (count + 1)
        { candidate with activeRepeatScopes := candidate.activeRepeatScopes.dropLast } result →
      RepeatRun maximum anchor step count current result

/-- The runs of the loop of an unordered group, without a bound on its rounds. -/
inductive UnorderedRun
    (round : List Nat → MatchState → Except SemanticError (Option (Nat × MatchState))) :
    List Nat → MatchState → Except SemanticError MatchState → Prop where
  /-- A child fails. -/
  | failed {matched current error} : round matched current = .error error →
      UnorderedRun round matched current (.error error)
  /-- No child matches any more. -/
  | finished {matched current} : round matched current = .ok none →
      UnorderedRun round matched current (.ok current)
  /-- One more child. -/
  | again {matched current index candidate result} :
      round matched current = .ok (some (index, candidate)) →
      UnorderedRun round (index :: matched) candidate result →
      UnorderedRun round matched current result

/-- The loop that a node runs from a state ends, with the result that the match goes on with. -/
def SchemaNode.LoopEnds (input : GrammarInput) (node : SchemaNode) (state : MatchState) : Prop :=
  match node with
  | .unordered _ children =>
    let round := fun matched current => matchCandidates input children 0 matched current none
    UnorderedRun round [] state (unorderedLoop round (children.length + 1) [] state)
  | .repeat _ _ maximum child =>
    let step := fun count current => matchNode input child { current with
      activeRepeatScopes := current.activeRepeatScopes ++ [⟨child.path, count⟩] }
    RepeatRun maximum (repeatAnchorMatches input child) step 0 state
      (repeatLoop maximum (repeatAnchorMatches input child) step (input.subrecords.length + 1) 0
        state)
  | _ => True

end Bethkit
