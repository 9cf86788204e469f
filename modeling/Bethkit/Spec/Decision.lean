import Bethkit.Lib.Compaction
import Bethkit.Spec.Derivation

/-!
# The decisions of a match

A match of a record decides by the conditions of the nodes, by the selectors of ordered choices
and by comparing the candidates of choices and unordered groups. A property of decisions is
required of every decision that a match makes; the recursion follows the match itself.
-/

namespace Bethkit

open Lib

/-- What a match decides. -/
inductive Decision where
  /-- Whether a node applies in a state. -/
  | condition (node : SchemaNode) (state : MatchState)
  /-- Which alternative an ordered choice takes in a state. -/
  | selection (node : SchemaNode) (selector : UnionSelector) (state : MatchState)
  /-- Whether a candidate got further than another one. -/
  | comparison (candidate best : MatchState)

/-- A property of every round that the loop of an unordered group makes. -/
def unorderedLoopEvery
    (round : List Nat → MatchState → Except SemanticError (Option (Nat × MatchState)))
    (every : List Nat → MatchState → Prop) : Nat → List Nat → MatchState → Prop
  | 0, _, _ => True
  | fuel + 1, matched, current =>
    every matched current ∧ ∀ index candidate,
      round matched current = .ok (some (index, candidate)) →
      unorderedLoopEvery round every fuel (index :: matched) candidate

/-- A property of every round that the loop of a repeat makes. -/
def repeatLoopEvery (maximum : Option UInt32) (anchor : MatchState → Bool)
    (step : Nat → MatchState → Except SemanticError MatchState)
    (every : Nat → MatchState → Prop) : Nat → Nat → MatchState → Prop
  | 0, _, _ => True
  | fuel + 1, count, current =>
    ¬maximum.any (·.toNat ≤ count) → anchor current = true →
      every count current ∧ ∀ candidate, step count current = .ok candidate →
        candidate.assigned ≠ current.assigned →
        repeatLoopEvery maximum anchor step every fuel (count + 1)
          { candidate with activeRepeatScopes := candidate.activeRepeatScopes.dropLast }

mutual

/-- A property of every decision in a match of a node. -/
def EveryDecision (input : GrammarInput) (good : Decision → Prop) :
    SchemaNode → MatchState → Prop
  | node@(.sequence _ children), state =>
    good (.condition node state) ∧
      (input.Holds node state.cursor → EveryInOrder input good children state)
  | node@(.unordered _ children), state =>
    good (.condition node state) ∧ (input.Holds node state.cursor →
      unorderedLoopEvery
        (fun matched current => matchCandidates input children 0 matched current none)
        (fun matched current => EveryCandidate input good children 0 matched current none)
        (children.length + 1) [] state)
  | node@(.choice _ alternatives), state =>
    good (.condition node state) ∧
      (input.Holds node state.cursor → EveryAlternative input good alternatives state state)
  | node@(.selectedChoice _ selector alternatives), state =>
    good (.condition node state) ∧ (input.Holds node state.cursor →
      good (.selection node selector state) ∧ ∀ index,
        selectAlternativeIndex input node selector state = .ok index →
        EveryAlternativeAt input good alternatives index state)
  | node@(.repeat _ _ maximum child), state =>
    good (.condition node state) ∧ (input.Holds node state.cursor →
      repeatLoopEvery maximum (repeatAnchorMatches input child)
        (fun count current => matchNode input child { current with
          activeRepeatScopes := current.activeRepeatScopes ++ [⟨child.path, count⟩] })
        (fun count current => EveryDecision input good child { current with
          activeRepeatScopes := current.activeRepeatScopes ++ [⟨child.path, count⟩] })
        (input.subrecords.length + 1) 0 state)
  | node, state => good (.condition node state)

/-- A property of every decision in a match of the children of a sequence. -/
def EveryInOrder (input : GrammarInput) (good : Decision → Prop) :
    List SchemaNode → MatchState → Prop
  | [], _ => True
  | child :: children, state =>
    EveryDecision input good child state ∧ ∀ next, matchNode input child state = .ok next →
      EveryInOrder input good children next

/-- A property of every decision in one round of an unordered group. -/
def EveryCandidate (input : GrammarInput) (good : Decision → Prop) :
    List SchemaNode → Nat → List Nat → MatchState → Option (Nat × MatchState) → Prop
  | [], _, _, _, _ => True
  | child :: children, index, matched, current, best =>
    if index ∈ matched then EveryCandidate input good children (index + 1) matched current best
    else EveryDecision input good child current ∧
      ∀ candidate, matchNode input child current = .ok candidate →
        (candidate.assigned ≠ current.assigned →
          ∀ old ∈ best, good (.comparison candidate old.2)) ∧
        EveryCandidate input good children (index + 1) matched current
          (if candidate.assigned = current.assigned then best
            else if best.all (candidate.improves ·.2) then some (index, candidate)
            else best)

/-- A property of every decision in a match of the alternatives of a choice. -/
def EveryAlternative (input : GrammarInput) (good : Decision → Prop) :
    List SchemaNode → MatchState → MatchState → Prop
  | [], _, _ => True
  | alternative :: alternatives, state, best =>
    EveryDecision input good alternative state ∧
      ∀ candidate, matchNode input alternative state = .ok candidate →
        good (.comparison candidate best) ∧
        EveryAlternative input good alternatives state
          (if candidate.improves best then candidate else best)

/-- A property of every decision in a match of the alternative at a position. -/
def EveryAlternativeAt (input : GrammarInput) (good : Decision → Prop) :
    List SchemaNode → Nat → MatchState → Prop
  | [], _, _ => True
  | alternative :: _, 0, state => EveryDecision input good alternative state
  | _ :: alternatives, position + 1, state =>
    EveryAlternativeAt input good alternatives position state

end

/-- A property of every decision in a match of a record. -/
def EveryMatchDecision (input : GrammarInput) (root : SchemaNode) (good : Decision → Prop) :
    Prop :=
  EveryDecision input good root .initial

/-- A decision comes out as if the undeclared subrecords at the cursor were not there. -/
def Decision.PassesUndeclared (input : GrammarInput) : Decision → Prop
  | .condition node state =>
    conditionApplies input node state = conditionApplies input node (skipUnknown input state)
  | .selection node selector state =>
    selectAlternativeIndex input node selector state =
      selectAlternativeIndex input node selector (skipUnknown input state)
  | .comparison candidate best =>
    candidate.improves best = (skipUnknown input candidate).improves (skipUnknown input best)

/-- The nodes of the declared subrecords. -/
def GrammarMatch.declaredAssignments (result : GrammarMatch) (input : GrammarInput) :
    List (Option SchemaNode) :=
  compactTable input.declares input.subrecords result.assignments

/-- The repeat stacks of the declared subrecords. -/
def GrammarMatch.declaredScopes (result : GrammarMatch) (input : GrammarInput) :
    List (List RepeatScope) :=
  compactTable input.declares input.subrecords result.repeatScopes

/-- What a match yields for the declared subrecords of a record: the nodes, the repeat stacks and
the violations, or the error. -/
def declaredOutcome (root : SchemaNode) (recordSignature : Signature) (formVersion : UInt16)
    (subrecords : List WritableSubRecord) :
    Except SemanticError (List (Option SchemaNode) × List (List RepeatScope) ×
      List GrammarViolation) :=
  let input := GrammarInput.of root recordSignature formVersion subrecords
  (interpretInputs root recordSignature formVersion subrecords).map fun result =>
    (result.declaredAssignments input, result.declaredScopes input, result.violations)

end Bethkit
