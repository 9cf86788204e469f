import Bethkit.Spec.Decision
import Bethkit.Verif.GrammarDerivation

/-!
# Undeclared subrecords and the match

A match over a record runs in step with a match over its declared subrecords alone, as long as no
decision comes out differently when the undeclared subrecords at the cursor are skipped first. So
two records with the same declared subrecords are matched alike.
-/

namespace Bethkit

open Lib

/-- The record without its undeclared subrecords. -/
def GrammarInput.compact (input : GrammarInput) : GrammarInput :=
  { input with subrecords := input.subrecords.filter input.declares }

/-- The number of declared subrecords before a position. -/
def GrammarInput.rank (input : GrammarInput) (index : Nat) : Nat :=
  Lib.rank input.declares input.subrecords index

/-- An entry of the history among the declared subrecords. -/
def MatchedAssignment.compact (input : GrammarInput) (entry : MatchedAssignment) :
    MatchedAssignment :=
  { entry with index := input.rank entry.index }

/-- A state among the declared subrecords. -/
def MatchState.compact (input : GrammarInput) (state : MatchState) : MatchState :=
  { state with
    cursor := input.rank state.cursor
    history := state.history.map (MatchedAssignment.compact input) }

/-- The states that a match of a record passes through, with entries for declared subrecords. -/
structure MatchState.Declared (state : MatchState) (input : GrammarInput) : Prop where
  /-- The state lies in the record. -/
  fits : state.Fits input
  /-- The entries are those of declared subrecords. -/
  entries : ∀ entry ∈ state.history, ∃ subrecord,
    input.subrecords[entry.index]? = some subrecord ∧ input.declares subrecord

variable {input : GrammarInput}

/-- A match goes through such states only. -/
theorem MatchState.Advances.declared {goal : GrammarGoal} {state next : MatchState}
    (step : Advances input goal state next) (before : state.Declared input) :
    next.Declared input := by
  refine ⟨step.fits before.fits, fun entry member => ?_⟩
  obtain ⟨trace, derived⟩ := step
  rw [derived.history, List.mem_append, List.mem_reverse] at member
  rcases member with new | old
  · obtain ⟨_, signature, _, subrecord, _, found, same, declared⟩ :=
      derived.covers.typed entry new
    exact ⟨subrecord, found, by simpa [GrammarInput.declares, same] using declared⟩
  · exact before.entries entry old

/-- The payload of a declared subrecord. -/
theorem payloadAt_compact {index : Nat} {subrecord : WritableSubRecord}
    (found : input.subrecords[index]? = some subrecord) (declared : input.declares subrecord) :
    input.compact.payloadAt (input.rank index) = input.payloadAt index := by
  have same : input.compact.subrecords[input.rank index]? = some subrecord :=
    getElem?_rank found declared
  rw [GrammarInput.payloadAt, GrammarInput.payloadAt, same, found]

/-- The payload at the next declared subrecord. -/
theorem payloadAt_skipUnknown (state : MatchState) :
    input.payloadAt (skipUnknown input state).cursor =
      input.compact.payloadAt (input.rank state.cursor) := by
  have same := @getElem?_nextKept _ input.declares input.subrecords state.cursor
  exact congrArg (fun found => (Option.map WritableSubRecord.data found).getD []) same

/-- Behind undeclared subrecords the state is the same among the declared ones. -/
@[simp]
theorem compact_skipUnknown (state : MatchState) :
    (skipUnknown input state).compact input = state.compact input := by
  have same : input.rank (skipUnknown input state).cursor = input.rank state.cursor :=
    rank_nextKept input.subrecords state.cursor
  rw [MatchState.compact, same]
  rfl

/-- Nothing is skipped among the declared subrecords. -/
theorem skipUnknown_compact (state : MatchState) :
    skipUnknown input.compact state = state := by
  have none_ : (input.compact.subrecords.drop state.cursor).takeWhile
      (fun subrecord => !input.compact.declared.contains subrecord.signature) = [] := by
    rw [List.takeWhile_eq_nil_iff]
    intro nonempty
    have member : (input.compact.subrecords.drop state.cursor)[0] ∈ input.compact.subrecords :=
      List.mem_of_mem_drop (List.getElem_mem nonempty)
    have declared : input.compact.declares (input.compact.subrecords.drop state.cursor)[0] :=
      (List.mem_filter.mp member).2
    simpa [GrammarInput.declares] using declared
  rw [skipUnknown, none_]
  rfl

/-- A condition that passes undeclared subrecords comes out alike among the declared ones. -/
theorem conditionApplies_compact {node : SchemaNode} {state : MatchState}
    (passes : (Decision.condition node state).PassesUndeclared input) :
    conditionApplies input.compact node (state.compact input) =
      conditionApplies input node state := by
  rw [Decision.PassesUndeclared] at passes
  rw [passes, conditionApplies, conditionApplies, payloadAt_skipUnknown]
  rfl

/-- The fields of an entry are the same among the declared subrecords. -/
theorem collectAssignedFields_compact {entry : MatchedAssignment} {subrecord : WritableSubRecord}
    (found : input.subrecords[entry.index]? = some subrecord)
    (declared : input.declares subrecord) (values : FieldValues) :
    collectAssignedFields input.compact values (entry.compact input) =
      collectAssignedFields input values entry := by
  rw [collectAssignedFields, collectAssignedFields, MatchedAssignment.compact,
    payloadAt_compact found declared]

/-- The fields of a state are the same among the declared subrecords. -/
theorem assignedNumericFields_compact {state : MatchState} (declared : state.Declared input) :
    assignedNumericFields input.compact (state.compact input) =
      assignedNumericFields input state := by
  rw [assignedNumericFields, assignedNumericFields, MatchState.compact, ← List.map_reverse,
    List.foldlM_map]
  refine foldlM_congr_mem fun values entry member => ?_
  obtain ⟨subrecord, found, keeps⟩ := declared.entries entry (List.mem_reverse.mp member)
  exact collectAssignedFields_compact found keeps values

/-- A selector that passes undeclared subrecords comes out alike among the declared ones. -/
theorem selectAlternativeIndex_compact {node : SchemaNode} {selector : UnionSelector}
    {state : MatchState} (declared : state.Declared input)
    (passes : (Decision.selection node selector state).PassesUndeclared input) :
    selectAlternativeIndex input.compact node selector (state.compact input) =
      selectAlternativeIndex input node selector state := by
  have fields : assignedNumericFields input (skipUnknown input state) =
      assignedNumericFields input state := rfl
  rw [Decision.PassesUndeclared] at passes
  rw [passes, selectAlternativeIndex, selectAlternativeIndex,
    assignedNumericFields_compact declared, payloadAt_skipUnknown, fields]
  rfl

/-- A comparison that passes undeclared subrecords comes out alike among the declared ones. -/
theorem improves_compact {candidate best : MatchState} (left : candidate.Fits input)
    (right : best.Fits input)
    (passes : (Decision.comparison candidate best).PassesUndeclared input) :
    (candidate.compact input).improves (best.compact input) = candidate.improves best := by
  have order := @nextKept_lt_iff _ input.declares _ _ _ right.cursor left.cursor
  have same : ((skipUnknown input best).cursor < (skipUnknown input candidate).cursor) =
      (input.rank best.cursor < input.rank candidate.cursor) := propext order
  rw [Decision.PassesUndeclared] at passes
  rw [passes, MatchState.improves, MatchState.improves]
  simp only [same]
  rfl

/-- A repeated structure begins alike among the declared subrecords. -/
theorem repeatAnchorMatches_compact (child : SchemaNode) (state : MatchState) :
    repeatAnchorMatches input.compact child (state.compact input) =
      repeatAnchorMatches input child state := by
  have first : (input.compact.subrecords.drop (state.compact input).cursor).find?
      (fun subrecord => input.compact.declared.contains subrecord.signature) =
      (input.subrecords.drop state.cursor).find?
        fun subrecord => input.declared.contains subrecord.signature := by
    exact (find?_drop_filter input.subrecords _).trans
      (@find?_drop _ input.declares input.subrecords state.cursor).symm
  rw [repeatAnchorMatches.eq_def, repeatAnchorMatches.eq_def]
  split
  case h_1 info signature payload rest =>
    split
    case isTrue => rfl
    case isFalse => rw [first]
  case h_2 => rfl

/-- A subrecord node takes the same subrecord among the declared ones. -/
theorem matchSubrecord_compact (node : SchemaNode) (signature : Signature) (state : MatchState) :
    matchSubrecord input.compact node signature (state.compact input) =
      (matchSubrecord input node signature state).compact input := by
  have same : input.compact.subrecords[(state.compact input).cursor]? =
      input.subrecords[(skipUnknown input state).cursor]? :=
    (@getElem?_nextKept _ input.declares input.subrecords state.cursor).symm
  rw [matchSubrecord, matchSubrecord, skipUnknown_compact, same]
  cases found : input.subrecords[(skipUnknown input state).cursor]? with
  | none => rw [compact_skipUnknown]
  | some subrecord =>
    simp only
    split
    case isTrue => rw [compact_skipUnknown]
    case isFalse =>
      have keeps : input.declares subrecord := keeps_of_nextKept found
      have next : input.rank ((skipUnknown input state).cursor + 1) =
          input.rank (skipUnknown input state).cursor + 1 := rank_succ found keeps
      have here : input.rank (skipUnknown input state).cursor = input.rank state.cursor :=
        rank_nextKept input.subrecords state.cursor
      simp only [MatchState.compact, MatchedAssignment.compact, List.map_cons, next, here]
      rfl

/-- A chosen child among the declared subrecords. -/
def compactChoice (input : GrammarInput) (choice : Option (Nat × MatchState)) :
    Option (Nat × MatchState) :=
  choice.map (Prod.map id (MatchState.compact input))

/-- The rounds of an unordered group run alike among the declared subrecords. -/
theorem unorderedLoop_compact {children : List SchemaNode}
    {round other : List Nat → MatchState → Except SemanticError (Option (Nat × MatchState))}
    {every : List Nat → MatchState → Prop}
    (chosen : ∀ {matched current index candidate},
      round matched current = .ok (some (index, candidate)) →
      Candidate.Fresh input children matched current index candidate)
    (alike : ∀ {matched current}, current.Declared input → every matched current →
      other matched (current.compact input) =
        (round matched current).map (compactChoice input))
    {fuel : Nat} {matched : List Nat} {current : MatchState} (declared : current.Declared input)
    (good : unorderedLoopEvery round every fuel matched current) :
    unorderedLoop other fuel matched (current.compact input) =
      (unorderedLoop round fuel matched current).map (MatchState.compact input) := by
  induction fuel generalizing matched current with
  | zero => rfl
  | succ fuel more =>
    rw [unorderedLoop, unorderedLoop, alike declared good.1]
    refine map_bind_map fun best picked => ?_
    cases best with
    | none => rfl
    | some choice =>
      obtain ⟨index, candidate⟩ := choice
      obtain ⟨_, _, _, advances⟩ := chosen picked
      exact more (advances.declared declared) (good.2 index candidate picked)

/-- The rounds of a repeat run alike among the declared subrecords. -/
theorem repeatLoop_compact {child : SchemaNode} {maximum : Option UInt32}
    {anchor otherAnchor : MatchState → Bool}
    {step other : Nat → MatchState → Except SemanticError MatchState}
    {every : Nat → MatchState → Prop}
    (occurs : ∀ {count current candidate}, step count current = .ok candidate →
      MatchState.Advances input (.one child) { current with
        activeRepeatScopes := current.activeRepeatScopes ++ [⟨child.path, count⟩] } candidate)
    (sameAnchor : ∀ current, otherAnchor (current.compact input) = anchor current)
    (alike : ∀ {count current}, current.Declared input → every count current →
      other count (current.compact input) = (step count current).map (MatchState.compact input))
    {fuel count : Nat} {current : MatchState} (declared : current.Declared input)
    (good : repeatLoopEvery maximum anchor step every fuel count current) :
    repeatLoop maximum otherAnchor other fuel count (current.compact input) =
      (repeatLoop maximum anchor step fuel count current).map
        (Prod.map id (MatchState.compact input)) := by
  induction fuel generalizing count current with
  | zero => rfl
  | succ fuel more =>
    rw [repeatLoop, repeatLoop, sameAnchor]
    split
    case isTrue => rfl
    case isFalse open_ =>
      split
      case isTrue => rfl
      case isFalse anchored =>
        obtain ⟨first, rest⟩ := good open_ (by simpa using anchored)
        rw [alike declared first]
        refine map_bind_map fun candidate matched => ?_
        have advances := occurs matched
        have inside : candidate.Declared input := advances.declared
          ⟨⟨declared.fits.cursor⟩, declared.entries⟩
        show (if candidate.assigned = current.assigned then _ else _) =
          Except.map _ (if candidate.assigned = current.assigned then _ else _)
        split
        case isTrue => rfl
        case isFalse moved =>
          have popped : MatchState.Declared { candidate with
              activeRepeatScopes := candidate.activeRepeatScopes.dropLast } input :=
            ⟨⟨inside.fits.cursor⟩, inside.entries⟩
          exact more popped (rest candidate matched moved)

/-- The end of a repeat among the declared subrecords. -/
theorem closeRepeat_compact (path : String) (minimum : UInt32) (count : Nat) (state : MatchState) :
    closeRepeat path minimum count (state.compact input) =
      (closeRepeat path minimum count state).compact input := by
  rw [closeRepeat, closeRepeat]
  split <;> rfl

mutual

/-- A match of a node runs alike among the declared subrecords. -/
theorem matchNode_compact (input : GrammarInput) (node : SchemaNode) {state : MatchState}
    (declared : state.Declared input)
    (good : EveryDecision input (·.PassesUndeclared input) node state) :
    matchNode input.compact node (state.compact input) =
      (matchNode input node state).map (MatchState.compact input) := by
  match node with
  | .sequence info children =>
    rw [EveryDecision] at good
    rw [matchNode, matchNode, conditionApplies_compact good.1]
    cases applies : conditionApplies input (.sequence info children) state with
    | error error => rfl
    | ok holds =>
      cases holds with
      | false => rfl
      | true => exact matchChildren_compact input children declared (good.2 applies)
  | .unordered info children =>
    rw [EveryDecision] at good
    rw [matchNode, matchNode, conditionApplies_compact good.1]
    cases applies : conditionApplies input (.unordered info children) state with
    | error error => rfl
    | ok holds =>
      cases holds with
      | false => rfl
      | true =>
        have looped : unorderedLoop (fun matched current =>
            matchCandidates input.compact children 0 matched current none) (children.length + 1) []
            (state.compact input) = _ :=
          unorderedLoop_compact matchCandidates_chosen
            (fun inside every => matchCandidates_compact input children inside (by simp) every)
            declared (good.2 applies)
        exact looped
  | .choice info alternatives =>
    rw [EveryDecision] at good
    rw [matchNode, matchNode, conditionApplies_compact good.1]
    cases applies : conditionApplies input (.choice info alternatives) state with
    | error error => rfl
    | ok holds =>
      cases holds with
      | false => rfl
      | true =>
        exact matchAlternatives_compact input alternatives declared declared (good.2 applies)
  | .selectedChoice info selector alternatives =>
    rw [EveryDecision] at good
    rw [matchNode, matchNode, conditionApplies_compact good.1]
    cases applies : conditionApplies input (.selectedChoice info selector alternatives) state with
    | error error => rfl
    | ok holds =>
      cases holds with
      | false => rfl
      | true =>
        obtain ⟨selects, every⟩ := good.2 applies
        have same := selectAlternativeIndex_compact declared selects
        simp only [ok_bind, if_true, same]
        cases selected : selectAlternativeIndex input (.selectedChoice info selector alternatives)
          selector state with
        | error error => rfl
        | ok index => exact matchAlternativeAt_compact input alternatives declared (every _ selected)
  | .repeat info minimum maximum child =>
    rw [EveryDecision] at good
    rw [matchNode, matchNode, conditionApplies_compact good.1]
    cases applies : conditionApplies input (.repeat info minimum maximum child) state with
    | error error => rfl
    | ok holds =>
      cases holds with
      | false => rfl
      | true =>
        have alike (count : Nat) (current : MatchState) (inside : current.Declared input)
            (every : EveryDecision input (·.PassesUndeclared input) child { current with
              activeRepeatScopes := current.activeRepeatScopes ++ [⟨child.path, count⟩] }) :
            matchNode input.compact child { current.compact input with
              activeRepeatScopes := current.activeRepeatScopes ++ [⟨child.path, count⟩] } =
            (matchNode input child { current with
              activeRepeatScopes := current.activeRepeatScopes ++ [⟨child.path, count⟩] }).map
              (MatchState.compact input) := by
          have pushed : MatchState.Declared { current with
              activeRepeatScopes := current.activeRepeatScopes ++ [⟨child.path, count⟩] } input :=
            ⟨⟨inside.fits.cursor⟩, inside.entries⟩
          exact matchNode_compact input child pushed every
        have looped : repeatLoop maximum (repeatAnchorMatches input.compact child)
            (fun count current => matchNode input.compact child { current with
              activeRepeatScopes := current.activeRepeatScopes ++ [⟨child.path, count⟩] })
            (input.subrecords.length + 1) 0 (state.compact input) = _ :=
          repeatLoop_compact (fun matched => matchNode_advances input child matched)
            (repeatAnchorMatches_compact child) (alike _ _) declared (good.2 applies)
        have fewer : input.compact.subrecords.length ≤ input.subrecords.length :=
          List.length_filter_le _ _
        have fits : (state.compact input).Fits input.compact := ⟨rank_le _ _⟩
        rw [repeatLoop_fuel (fun matched => matchNode_advances input.compact child matched) 0 fits
          (Nat.lt_succ_self _) (Nat.succ_le_succ fewer)] at looped
        simp only [ok_bind, if_true, looped]
        exact map_bind_map fun result _ => congrArg Except.ok (closeRepeat_compact _ _ _ _)
  | .subrecord info signature payload =>
    rw [EveryDecision] at good
    · rw [matchNode, matchNode, conditionApplies_compact good]
      cases applies : conditionApplies input (.subrecord info signature payload) state with
      | error error => rfl
      | ok holds =>
        cases holds with
        | false => rfl
        | true =>
          exact congrArg Except.ok (matchSubrecord_compact _ signature state)
    all_goals simp
  | .primitive _ _ | .struct _ _ | .optionalStruct _ _ _ | .array _ _ _ | .union _ _ _
  | .custom _ _ _ | .compressed _ _ _ | .terminated _ _ _ | .reference _ _ =>
    rw [EveryDecision] at good
    · rw [matchNode, matchNode, conditionApplies_compact good]
      · cases conditionApplies input _ state <;> rfl
      all_goals simp
    all_goals simp
termination_by structural node

/-- A match of the children of a sequence runs alike among the declared subrecords. -/
theorem matchChildren_compact (input : GrammarInput) (children : List SchemaNode)
    {state : MatchState} (declared : state.Declared input)
    (good : EveryInOrder input (·.PassesUndeclared input) children state) :
    matchChildren input.compact children (state.compact input) =
      (matchChildren input children state).map (MatchState.compact input) := by
  match children with
  | [] => rfl
  | child :: children =>
    rw [EveryInOrder] at good
    rw [matchChildren, matchChildren, matchNode_compact input child declared good.1]
    refine map_bind_map fun next matched => ?_
    have advances := matchNode_advances input child matched
    exact matchChildren_compact input children (advances.declared declared) (good.2 next matched)
termination_by structural children

/-- A round of an unordered group runs alike among the declared subrecords. -/
theorem matchCandidates_compact (input : GrammarInput) (children : List SchemaNode) {index : Nat}
    {matched : List Nat} {current : MatchState} {best : Option (Nat × MatchState)}
    (declared : current.Declared input) (inside : ∀ old ∈ best, old.2.Fits input)
    (good : EveryCandidate input (·.PassesUndeclared input) children index matched current best) :
    matchCandidates input.compact children index matched (current.compact input)
        (compactChoice input best) =
      (matchCandidates input children index matched current best).map (compactChoice input) := by
  match children with
  | [] => rfl
  | child :: children =>
    rw [EveryCandidate] at good
    rw [matchCandidates, matchCandidates]
    split at good
    case isTrue member =>
      rw [if_pos member, if_pos member]
      exact matchCandidates_compact input children declared inside good
    case isFalse unused =>
      rw [if_neg unused, if_neg unused, matchNode_compact input child declared good.1]
      refine map_bind_map fun candidate matched => ?_
      have advances := matchNode_advances input child matched
      have fits := (advances.declared declared).fits
      obtain ⟨compares, rest⟩ := good.2 candidate matched
      have chosen : (if (candidate.compact input).assigned = (current.compact input).assigned then
            compactChoice input best
          else if (compactChoice input best).all ((candidate.compact input).improves ·.2) then
            some (index, candidate.compact input)
          else compactChoice input best) =
          compactChoice input (if candidate.assigned = current.assigned then best
            else if best.all (candidate.improves ·.2) then some (index, candidate) else best) := by
        show (if candidate.assigned = current.assigned then _ else _) = _
        split
        case isTrue => rfl
        case isFalse moved =>
          match best with
          | none => rfl
          | some old =>
            have same := improves_compact fits (inside old rfl) (compares moved old rfl)
            simp only [compactChoice, Option.map_some, Option.all_some, Prod.map_snd, same]
            split <;> rfl
      have better : ∀ old ∈ (if candidate.assigned = current.assigned then best
          else if best.all (candidate.improves ·.2) then some (index, candidate) else best),
          old.2.Fits input := by
        intro old member
        split at member
        case isTrue => exact inside old member
        case isFalse =>
          split at member
          case isTrue => exact (Option.some.inj member) ▸ fits
          case isFalse => exact inside old member
      simp only [chosen]
      exact matchCandidates_compact input children declared better rest
termination_by structural children

/-- A match of the alternatives of a choice runs alike among the declared subrecords. -/
theorem matchAlternatives_compact (input : GrammarInput) (alternatives : List SchemaNode)
    {state best : MatchState} (declared : state.Declared input) (inside : best.Declared input)
    (good : EveryAlternative input (·.PassesUndeclared input) alternatives state best) :
    matchAlternatives input.compact alternatives (state.compact input) (best.compact input) =
      (matchAlternatives input alternatives state best).map (MatchState.compact input) := by
  match alternatives with
  | [] => rfl
  | alternative :: alternatives =>
    rw [EveryAlternative] at good
    rw [matchAlternatives, matchAlternatives, matchNode_compact input alternative declared good.1]
    refine map_bind_map fun candidate matched => ?_
    have reached := (matchNode_advances input alternative matched).declared declared
    obtain ⟨compares, rest⟩ := good.2 candidate matched
    have same := improves_compact reached.fits inside.fits compares
    have chosen : (if (candidate.compact input).improves (best.compact input) then
        candidate.compact input else best.compact input) =
        (if candidate.improves best then candidate else best).compact input := by
      rw [same]
      split <;> rfl
    have better : (if candidate.improves best then candidate else best).Declared input := by
      split
      · exact reached
      · exact inside
    rw [chosen]
    exact matchAlternatives_compact input alternatives declared better rest
termination_by structural alternatives

/-- A match of the alternative at a position runs alike among the declared subrecords. -/
theorem matchAlternativeAt_compact (input : GrammarInput) (alternatives : List SchemaNode)
    {path : String} {index position : Nat} {state : MatchState} (declared : state.Declared input)
    (good : EveryAlternativeAt input (·.PassesUndeclared input) alternatives position state) :
    matchAlternativeAt input.compact path index alternatives position (state.compact input) =
      (matchAlternativeAt input path index alternatives position state).map
        (MatchState.compact input) := by
  match alternatives, position with
  | [], _ => rfl
  | alternative :: _, 0 =>
    rw [EveryAlternativeAt] at good
    rw [matchAlternativeAt, matchAlternativeAt]
    exact matchNode_compact input alternative declared good
  | _ :: alternatives, position + 1 =>
    rw [EveryAlternativeAt] at good
    rw [matchAlternativeAt, matchAlternativeAt]
    exact matchAlternativeAt_compact input alternatives declared good
termination_by structural alternatives

end

/-- The tables of a match, compacted, are those of the match of the declared subrecords. -/
theorem toMatch_compact {state : MatchState} (declared : state.Declared input) :
    let result := state.toMatch input.declared input.subrecords.length
    let compacted := (state.compact input).toMatch input.declared input.compact.subrecords.length
    result.declaredAssignments input = compacted.declaredAssignments input.compact ∧
      result.declaredScopes input = compacted.declaredScopes input.compact := by
  have all : ∀ subrecord ∈ input.compact.subrecords, input.compact.declares subrecord :=
    fun subrecord member => (List.mem_filter.mp member).2
  have assignments := compactTable_foldl_set declared.entries (fun entry => some entry.node)
    (List.replicate input.subrecords.length none)
  have scopes := compactTable_foldl_set declared.entries MatchedAssignment.repeatScopes
    (List.replicate input.subrecords.length [])
  rw [compactTable_replicate] at assignments scopes
  refine ⟨?_, ?_⟩
  · rw [GrammarMatch.declaredAssignments, GrammarMatch.declaredAssignments, MatchState.toMatch,
      MatchState.toMatch, compactTable_all all (by simp), assignments, MatchState.compact]
    simp only [List.foldl_map]
    rfl
  · rw [GrammarMatch.declaredScopes, GrammarMatch.declaredScopes, MatchState.toMatch,
      MatchState.toMatch, compactTable_all all (by simp), scopes, MatchState.compact]
    simp only [List.foldl_map]
    rfl

/-- What a final state says about the declared subrecords. -/
def MatchState.declaredResult (input : GrammarInput) (state : MatchState) :
    List (Option SchemaNode) × List (List RepeatScope) × List GrammarViolation :=
  let result := state.toMatch input.declared input.subrecords.length
  (result.declaredAssignments input, result.declaredScopes input, result.violations)

/-- The outcome for the declared subrecords is that of the final state. -/
theorem declaredOutcome_eq (root : SchemaNode) (recordSignature : Signature)
    (formVersion : UInt16) (subrecords : List WritableSubRecord) :
    declaredOutcome root recordSignature formVersion subrecords =
      (matchNode (.of root recordSignature formVersion subrecords) root .initial).map
        (MatchState.declaredResult (.of root recordSignature formVersion subrecords)) := by
  have whole : interpretInputs root recordSignature formVersion subrecords =
      (matchNode (.of root recordSignature formVersion subrecords) root .initial >>= fun state =>
        .ok (state.toMatch (collectSignatures root) subrecords.length)) := rfl
  rw [declaredOutcome, whole]
  cases matchNode (.of root recordSignature formVersion subrecords) root .initial <;> rfl

/-- A record is matched like its declared subrecords alone if no decision depends on undeclared
subrecords at the cursor. -/
theorem declaredOutcome_filter (root : SchemaNode) (recordSignature : Signature)
    (formVersion : UInt16) (subrecords : List WritableSubRecord)
    (passes : EveryMatchDecision (.of root recordSignature formVersion subrecords) root
      (·.PassesUndeclared (.of root recordSignature formVersion subrecords))) :
    declaredOutcome root recordSignature formVersion subrecords =
      declaredOutcome root recordSignature formVersion
        (subrecords.filter fun subrecord =>
          (collectSignatures root).contains subrecord.signature) := by
  set input := GrammarInput.of root recordSignature formVersion subrecords with record
  have start : MatchState.initial.Declared input := ⟨⟨Nat.zero_le _⟩, by simp [MatchState.initial]⟩
  have same : matchNode input.compact root .initial =
      (matchNode input root .initial).map (MatchState.compact input) :=
    matchNode_compact input root start passes
  have compacted : GrammarInput.of root recordSignature formVersion
      (subrecords.filter fun subrecord => (collectSignatures root).contains subrecord.signature) =
      input.compact := rfl
  rw [declaredOutcome_eq, declaredOutcome_eq, compacted, same, ← record]
  cases matched : matchNode input root .initial with
  | error error => rfl
  | ok state =>
    have declared := (matchNode_advances input root matched).declared start
    obtain ⟨assignments, scopes⟩ := toMatch_compact declared
    refine congrArg Except.ok ?_
    rw [MatchState.declaredResult, MatchState.declaredResult, assignments, scopes]
    rfl

/-- Two records with the same declared subrecords are matched alike if no decision depends on
undeclared subrecords at the cursor. -/
theorem declaredOutcome_congr (root : SchemaNode) (recordSignature : Signature)
    (formVersion : UInt16) (first second : List WritableSubRecord)
    (same : first.filter (fun subrecord => subrecord.signature ∈ collectSignatures root) =
      second.filter (fun subrecord => subrecord.signature ∈ collectSignatures root))
    (firstPasses : EveryMatchDecision (.of root recordSignature formVersion first) root
      (·.PassesUndeclared (.of root recordSignature formVersion first)))
    (secondPasses : EveryMatchDecision (.of root recordSignature formVersion second) root
      (·.PassesUndeclared (.of root recordSignature formVersion second))) :
    declaredOutcome root recordSignature formVersion first =
      declaredOutcome root recordSignature formVersion second := by
  have same : (first.filter fun subrecord =>
      (collectSignatures root).contains subrecord.signature) =
      second.filter fun subrecord => (collectSignatures root).contains subrecord.signature := by
    simpa only [List.contains_eq_mem] using same
  rw [declaredOutcome_filter root recordSignature formVersion first firstPasses, same,
    ← declaredOutcome_filter root recordSignature formVersion second secondPasses]

/-- An `EDID` that is only read if the payload at the cursor has one byte. -/
def oneByteEdid : SchemaNode :=
  .subrecord { NodeInfo.plain 1 "EDID" with condition := some (.equal .payloadLength (.int 1)) }
    .EDID (.primitive (.plain 2 "EDID/payload") (.bytes none))

/-- A choice between an `EDID` and an `EDID` with a `DATA` behind it. -/
def edidChoice : SchemaNode :=
  .choice (.plain 1 "choice") [.plainSubrecord 2 "single" .EDID, .sequence (.plain 3 "pair")
    [.plainSubrecord 4 "first" .EDID, .plainSubrecord 5 "second" .DATA]]

/-- An undeclared subrecord before an `EDID` hides it from its condition, and one behind it
decides a choice between two alternatives that take the same subrecord. -/
theorem declaredOutcome_differs :
    declaredOutcome oneByteEdid .HEDR 44 [⟨.SNAM, []⟩, ⟨.EDID, [0]⟩] ≠
      declaredOutcome oneByteEdid .HEDR 44 [⟨.EDID, [0]⟩] ∧
    declaredOutcome edidChoice .HEDR 44 [⟨.EDID, [0]⟩, ⟨.SNAM, []⟩] ≠
      declaredOutcome edidChoice .HEDR 44 [⟨.EDID, [0]⟩] := by
  constructor
  · intro same
    have assigned := congrArg (fun outcome => outcome.toOption.map fun result =>
      result.1.map Option.isSome) same
    exact absurd assigned (by decide)
  · intro same
    have paths := congrArg (fun outcome => outcome.toOption.map fun result =>
      result.1.map (Option.map SchemaNode.path)) same
    exact absurd paths (by decide)

/-- Undeclared subrecords around the fields of a sequence without conditions do not matter. -/
theorem declaredOutcome_congr_sequence :
    let root : SchemaNode := .sequence (.plain 1 "record")
      [.plainSubrecord 2 "EDID" .EDID, .plainSubrecord 3 "DATA" .DATA]
    declaredOutcome root .HEDR 44 [⟨.SNAM, [1]⟩, ⟨.EDID, [0]⟩, ⟨.SNAM, []⟩, ⟨.DATA, []⟩] =
      declaredOutcome root .HEDR 44 [⟨.EDID, [0]⟩, ⟨.DATA, []⟩] := by
  refine declaredOutcome_congr _ _ _ _ _ rfl ?_ ?_
  · exact ⟨rfl, fun _ => ⟨rfl, fun _ _ => ⟨rfl, fun _ _ => trivial⟩⟩⟩
  · exact ⟨rfl, fun _ => ⟨rfl, fun _ _ => ⟨rfl, fun _ _ => trivial⟩⟩⟩

end Bethkit
