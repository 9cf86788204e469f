import Bethkit.Lib.Compaction
import Bethkit.Lib.Outcome
import Bethkit.Spec.Derivation

/-!
# A match is a derivation

Whatever branch the grammar match takes, the entries that it adds to the history are those of a
derivation of the node from the cursor before to the cursor behind it, and the repeat stack is
the same as before. A branch that loses leaves nothing behind because every branch starts from
the state of its parent.
-/

namespace Bethkit

open Lib

/-- How a match of a goal changes the state: the new entries of the history are those of a
derivation. -/
structure MatchState.Derived (input : GrammarInput) (goal : GrammarGoal)
    (state next : MatchState) (trace : List MatchedAssignment) : Prop where
  /-- The new entries are derived from the goal. -/
  derives : Derives input goal state.activeRepeatScopes state.cursor trace next.cursor
  /-- The history is newest first. -/
  history : next.history = trace.reverse ++ state.history
  /-- The repeat stack is back where it was. -/
  scopes : next.activeRepeatScopes = state.activeRepeatScopes
  /-- The entries are counted. -/
  assigned : next.assigned = state.assigned + trace.length

/-- A match of a goal goes from one state to another. -/
def MatchState.Advances (input : GrammarInput) (goal : GrammarGoal)
    (state next : MatchState) : Prop :=
  ∃ trace, MatchState.Derived input goal state next trace

namespace MatchState.Advances

variable {input : GrammarInput} {state middle next : MatchState}

/-- A node that takes nothing. -/
theorem refl (node : SchemaNode) : Advances input (.one node) state state :=
  ⟨[], .absent ⟨Nat.le_refl _, fun _ _ _ => by omega⟩, rfl, rfl, rfl⟩

/-- Another goal with the same derivations. -/
theorem weaken {goal other : GrammarGoal} (step : Advances input goal state next)
    (derives : ∀ {trace}, Derives input goal state.activeRepeatScopes state.cursor trace
      next.cursor → Derives input other state.activeRepeatScopes state.cursor trace next.cursor) :
    Advances input other state next := by
  obtain ⟨trace, derived⟩ := step
  exact ⟨trace, derives derived.derives, derived.history, derived.scopes, derived.assigned⟩

/-- The first goal and then the other. -/
theorem trans {goal later whole : GrammarGoal} (step : Advances input goal state middle)
    (more : Advances input later middle next)
    (derives : ∀ {first rest}, next.assigned = middle.assigned + rest.length →
      Derives input goal state.activeRepeatScopes state.cursor first middle.cursor →
      Derives input later middle.activeRepeatScopes middle.cursor rest next.cursor →
      Derives input whole state.activeRepeatScopes state.cursor (first ++ rest) next.cursor) :
    Advances input whole state next := by
  obtain ⟨first, before⟩ := step
  obtain ⟨rest, after⟩ := more
  refine ⟨first ++ rest, derives after.assigned before.derives after.derives, ?_, ?_, ?_⟩
  · rw [after.history, before.history, List.reverse_append, List.append_assoc]
  · rw [after.scopes, before.scopes]
  · rw [after.assigned, before.assigned, List.length_append, Nat.add_assoc]

/-- One more occurrence of a repeat; its number comes off the stack behind it. -/
theorem occurrence {child : SchemaNode} {count : Nat}
    (before : Advances input (.occurrences child count) state middle)
    (step : Advances input (.one child) { middle with
      activeRepeatScopes := middle.activeRepeatScopes ++ [⟨child.path, count⟩] } next)
    (moved : next.assigned ≠ middle.assigned) :
    Advances input (.occurrences child (count + 1)) state
      { next with activeRepeatScopes := next.activeRepeatScopes.dropLast } := by
  obtain ⟨first, earlier⟩ := before
  obtain ⟨rest, derived⟩ := step
  have taken : rest ≠ [] := by
    rintro rfl
    exact moved derived.assigned
  refine ⟨first ++ rest, ?_, ?_, ?_, ?_⟩
  · refine .occurrencesSucc earlier.derives ?_ taken
    rw [← earlier.scopes]
    exact derived.derives
  · rw [List.reverse_append, List.append_assoc, ← earlier.history]
    exact derived.history
  · show next.activeRepeatScopes.dropLast = state.activeRepeatScopes
    rw [derived.scopes, List.dropLast_concat, earlier.scopes]
  · rw [List.length_append, ← Nat.add_assoc, ← earlier.assigned]
    exact derived.assigned

/-- A violation at the end of a repeat changes nothing else. -/
theorem closeRepeat {goal : GrammarGoal} (step : Advances input goal state next) (path : String)
    (minimum : UInt32) (count : Nat) :
    Advances input goal state (Bethkit.closeRepeat path minimum count next) := by
  obtain ⟨trace, derived⟩ := step
  rw [Bethkit.closeRepeat]
  split
  case isTrue => exact ⟨trace, derived.derives, derived.history, derived.scopes, derived.assigned⟩
  case isFalse => exact ⟨trace, derived⟩

end MatchState.Advances

/-- A condition depends on the state only through the cursor. -/
theorem conditionApplies_cursor (input : GrammarInput) (node : SchemaNode) (state : MatchState) :
    conditionApplies input node state = .ok true ↔ input.Holds node state.cursor := Iff.rfl

/-- The cursor passes undeclared signatures only. -/
theorem skipUnknown_unknown (input : GrammarInput) (state : MatchState) :
    input.Unknown state.cursor (skipUnknown input state).cursor where
  ordered := Nat.le_add_right _ _
  undeclared := by
    intro index after before
    set passed := (input.subrecords.drop state.cursor).takeWhile
      fun subrecord => !input.declared.contains subrecord.signature with taken
    have bound : index - state.cursor < passed.length := by
      have shape : (skipUnknown input state).cursor = state.cursor + passed.length := rfl
      omega
    have inside : passed[index - state.cursor]? = some passed[index - state.cursor] :=
      List.getElem?_eq_getElem bound
    have undeclared : passed[index - state.cursor].signature ∉ input.declared := by
      have member : passed[index - state.cursor] ∈ passed := List.getElem_mem bound
      have holds := List.mem_takeWhile_imp member
      simpa using holds
    refine ⟨passed[index - state.cursor], ?_, undeclared⟩
    obtain ⟨rest, whole⟩ := List.takeWhile_prefix (l := input.subrecords.drop state.cursor)
      fun subrecord : WritableSubRecord => !input.declared.contains subrecord.signature
    have same : (input.subrecords.drop state.cursor)[index - state.cursor]? =
        passed[index - state.cursor]? := by
      rw [← whole, List.getElem?_append_left bound]
    rw [List.getElem?_drop, Nat.add_sub_cancel' after] at same
    rw [same, inside]

/-- The cursor stops at a declared signature. -/
theorem skipUnknown_declared {input : GrammarInput} {state : MatchState}
    {subrecord : WritableSubRecord}
    (found : input.subrecords[(skipUnknown input state).cursor]? = some subrecord) :
    subrecord.signature ∈ input.declared := by
  have keeps : input.declares subrecord := keeps_of_nextKept found
  simpa [GrammarInput.declares] using keeps

/-- A subrecord node takes the next declared subrecord or nothing. -/
theorem matchSubrecord_advances (input : GrammarInput) (info : NodeInfo) (signature : Signature)
    (payload : SchemaNode) (state : MatchState)
    (applies : conditionApplies input (.subrecord info signature payload) state = .ok true) :
    MatchState.Advances input (.one (.subrecord info signature payload)) state
      (matchSubrecord input (.subrecord info signature payload) signature state) := by
  have unknown := skipUnknown_unknown input state
  rw [matchSubrecord]
  split
  case h_1 missing => exact ⟨[], .absent unknown, rfl, rfl, rfl⟩
  case h_2 subrecord found =>
    split
    case isTrue other => exact ⟨[], .absent unknown, rfl, rfl, rfl⟩
    case isFalse other =>
      have same := not_not.mp other
      have declared := skipUnknown_declared found
      exact ⟨[_], .subrecord applies unknown found same (same ▸ declared), rfl, rfl, rfl⟩

/-- A child that an unordered group may take next. -/
structure Candidate.Fresh (input : GrammarInput) (children : List SchemaNode)
    (matched : List Nat) (current : MatchState) (index : Nat) (candidate : MatchState) :
    Prop where
  /-- The child did not match yet. -/
  unused : index ∉ matched
  /-- The child matched from the current state. -/
  advances : ∃ child, children[index]? = some child ∧
    MatchState.Advances input (.one child) current candidate

/-- The rounds of an unordered group take different children. -/
theorem unorderedLoop_advances {input : GrammarInput} {children : List SchemaNode}
    {round : List Nat → MatchState → Except SemanticError (Option (Nat × MatchState))}
    (chosen : ∀ {matched current index candidate},
      round matched current = .ok (some (index, candidate)) →
      Candidate.Fresh input children matched current index candidate)
    {start : MatchState} {fuel : Nat} {matched : List Nat} {current next : MatchState}
    (before : MatchState.Advances input (.anyOrder children matched) start current)
    (done : unorderedLoop round fuel matched current = .ok next) :
    ∃ used, MatchState.Advances input (.anyOrder children used) start next := by
  induction fuel generalizing matched current with
  | zero =>
    obtain rfl := Except.ok.inj done
    exact ⟨matched, before⟩
  | succ fuel more =>
    rw [unorderedLoop, bind_eq_ok] at done
    obtain ⟨best, picked, done⟩ := done
    match best with
    | none =>
      obtain rfl := Except.ok.inj done
      exact ⟨matched, before⟩
    | some (index, candidate) =>
      obtain ⟨unused, child, found, advances⟩ := chosen picked
      refine more (before.trans advances fun _ first rest => ?_) done
      have scopes := before.choose_spec.scopes
      exact .anyOrderSnoc first unused found (scopes ▸ rest)

/-- The rounds of a repeat take numbered occurrences, at most the maximum. -/
theorem repeatLoop_advances {input : GrammarInput} {child : SchemaNode}
    {maximum : Option UInt32} {anchor : MatchState → Bool}
    {step : Nat → MatchState → Except SemanticError MatchState}
    (occurs : ∀ {count current candidate}, step count current = .ok candidate →
      MatchState.Advances input (.one child) { current with
        activeRepeatScopes := current.activeRepeatScopes ++ [⟨child.path, count⟩] } candidate)
    {start : MatchState} {fuel count final : Nat} {current next : MatchState}
    (limited : ∀ limit, maximum = some limit → count ≤ limit.toNat)
    (before : MatchState.Advances input (.occurrences child count) start current)
    (done : repeatLoop maximum anchor step fuel count current = .ok (final, next)) :
    (∀ limit, maximum = some limit → final ≤ limit.toNat) ∧
      MatchState.Advances input (.occurrences child final) start next := by
  induction fuel generalizing count current with
  | zero =>
    obtain ⟨rfl, rfl⟩ := Prod.mk.inj (Except.ok.inj done)
    exact ⟨limited, before⟩
  | succ fuel more =>
    rw [repeatLoop] at done
    split at done
    case isTrue full =>
      obtain ⟨rfl, rfl⟩ := Prod.mk.inj (Except.ok.inj done)
      exact ⟨limited, before⟩
    case isFalse open_ =>
      split at done
      case isTrue unanchored =>
        obtain ⟨rfl, rfl⟩ := Prod.mk.inj (Except.ok.inj done)
        exact ⟨limited, before⟩
      case isFalse anchored =>
        rw [bind_eq_ok] at done
        obtain ⟨candidate, matched, done⟩ := done
        split at done
        case isTrue stalled =>
          obtain ⟨rfl, rfl⟩ := Prod.mk.inj (Except.ok.inj done)
          exact ⟨limited, before⟩
        case isFalse moved =>
          have step := occurs matched
          refine more ?_ ?_ done
          · intro limit bound
            rw [bound] at open_
            simp only [Option.any_some, decide_eq_true_eq] at open_
            omega
          · exact before.occurrence step moved

mutual

/-- A match of a node is a derivation of it. -/
theorem matchNode_advances (input : GrammarInput) (node : SchemaNode) {state next : MatchState}
    (done : matchNode input node state = .ok next) :
    MatchState.Advances input (.one node) state next := by
  match node with
  | .sequence info children =>
    rw [matchNode, bind_eq_ok] at done
    obtain ⟨applies, condition, done⟩ := done
    cases applies with
    | false =>
      obtain rfl := Except.ok.inj done
      exact .refl _
    | true =>
      exact (matchChildren_advances input children done).weaken (.sequence condition ·)
  | .unordered info children =>
    rw [matchNode, bind_eq_ok] at done
    obtain ⟨applies, condition, done⟩ := done
    cases applies with
    | false =>
      obtain rfl := Except.ok.inj done
      exact .refl _
    | true =>
      have chosen {matched : List Nat} {current candidate : MatchState} {index : Nat} (picked :
          matchCandidates input children 0 matched current none = .ok (some (index, candidate))) :
          Candidate.Fresh input children matched current index candidate :=
        matchCandidates_fresh input children rfl (by simp) picked _ _ rfl
      have before : MatchState.Advances input (.anyOrder children []) state state :=
        ⟨[], .anyOrderNil, rfl, rfl, rfl⟩
      obtain ⟨used, advances⟩ := unorderedLoop_advances chosen before done
      exact advances.weaken (.unordered condition ·)
  | .choice info alternatives =>
    rw [matchNode, bind_eq_ok] at done
    obtain ⟨applies, condition, done⟩ := done
    cases applies with
    | false =>
      obtain rfl := Except.ok.inj done
      exact .refl _
    | true =>
      rcases matchAlternatives_advances input alternatives done with rfl | ⟨_, member, advances⟩
      · exact .refl _
      · exact advances.weaken (.choice condition member ·)
  | .selectedChoice info selector alternatives =>
    rw [matchNode, bind_eq_ok] at done
    obtain ⟨applies, condition, done⟩ := done
    cases applies with
    | false =>
      obtain rfl := Except.ok.inj done
      exact .refl _
    | true =>
      obtain ⟨index, _, done⟩ := bind_eq_ok.mp done
      obtain ⟨_, member, advances⟩ := matchAlternativeAt_advances input alternatives done
      exact advances.weaken (.selectedChoice condition member ·)
  | .repeat info minimum maximum child =>
    rw [matchNode, bind_eq_ok] at done
    obtain ⟨applies, condition, done⟩ := done
    cases applies with
    | false =>
      obtain rfl := Except.ok.inj done
      exact .refl _
    | true =>
      obtain ⟨⟨count, current⟩, looped, done⟩ := bind_eq_ok.mp done
      obtain rfl := Except.ok.inj done
      have before : MatchState.Advances input (.occurrences child 0) state state :=
        ⟨[], .occurrencesZero, rfl, rfl, rfl⟩
      obtain ⟨limited, advances⟩ := repeatLoop_advances
        (fun matched => matchNode_advances input child matched) (fun _ _ => Nat.zero_le _) before
        looped
      exact (advances.weaken (.repeat condition limited ·)).closeRepeat _ _ _
  | .subrecord info signature payload =>
    rw [matchNode, bind_eq_ok] at done
    obtain ⟨applies, condition, done⟩ := done
    cases applies with
    | false =>
      obtain rfl := Except.ok.inj done
      exact .refl _
    | true =>
      obtain rfl := Except.ok.inj done
      exact matchSubrecord_advances input info signature payload state condition
  | .primitive _ _ | .struct _ _ | .optionalStruct _ _ _ | .array _ _ _ | .union _ _ _
  | .custom _ _ _ | .compressed _ _ _ | .terminated _ _ _ | .reference _ _ =>
    rw [matchNode, bind_eq_ok] at done
    · obtain ⟨_, _, done⟩ := done
      obtain rfl := Except.ok.inj done
      exact .refl _
    all_goals simp
termination_by structural node

/-- A match of the children of a sequence is a derivation of them. -/
theorem matchChildren_advances (input : GrammarInput) (children : List SchemaNode)
    {state next : MatchState} (done : matchChildren input children state = .ok next) :
    MatchState.Advances input (.inOrder children) state next := by
  match children with
  | [] =>
    rw [matchChildren] at done
    obtain rfl := Except.ok.inj done
    exact ⟨[], .inOrderNil, rfl, rfl, rfl⟩
  | child :: children =>
    rw [matchChildren, bind_eq_ok] at done
    obtain ⟨middle, matched, done⟩ := done
    have first := matchNode_advances input child matched
    refine first.trans (matchChildren_advances input children done) fun _ head tail => ?_
    obtain ⟨_, derived⟩ := first
    exact .inOrderCons head (derived.scopes ▸ tail)
termination_by structural children

/-- The best candidate of a round is a child that did not match yet. -/
theorem matchCandidates_fresh (input : GrammarInput) (children : List SchemaNode)
    {all : List SchemaNode} {offset : Nat} {matched : List Nat} {current : MatchState}
    {best result : Option (Nat × MatchState)} (suffix : children = all.drop offset)
    (earlier : ∀ index candidate, best = some (index, candidate) →
      Candidate.Fresh input all matched current index candidate)
    (done : matchCandidates input children offset matched current best = .ok result) :
    ∀ index candidate, result = some (index, candidate) →
      Candidate.Fresh input all matched current index candidate := by
  match children with
  | [] =>
    rw [matchCandidates] at done
    obtain rfl := Except.ok.inj done
    exact earlier
  | child :: children =>
    have here : all[offset]? = some child := by
      rw [← List.head?_drop, ← suffix, List.head?_cons]
    have behind : children = all.drop (offset + 1) := by
      rw [← List.tail_drop, ← suffix, List.tail_cons]
    rw [matchCandidates] at done
    split at done
    case isTrue => exact matchCandidates_fresh input children behind earlier done
    case isFalse unused =>
      rw [bind_eq_ok] at done
      obtain ⟨candidate, advanced, done⟩ := done
      have advances := matchNode_advances input child advanced
      refine matchCandidates_fresh input children behind ?_ done
      intro index other picked
      split at picked
      case isTrue => exact earlier index other picked
      case isFalse =>
        split at picked
        case isTrue =>
          obtain ⟨rfl, rfl⟩ := Prod.mk.inj (Option.some.inj picked)
          exact ⟨unused, child, here, advances⟩
        case isFalse => exact earlier index other picked
termination_by structural children

/-- The best of the alternatives is one of them, or the state before the choice. -/
theorem matchAlternatives_advances (input : GrammarInput) (alternatives : List SchemaNode)
    {state best next : MatchState}
    (done : matchAlternatives input alternatives state best = .ok next) :
    next = best ∨ ∃ alternative ∈ alternatives,
      MatchState.Advances input (.one alternative) state next := by
  match alternatives with
  | [] =>
    rw [matchAlternatives] at done
    exact .inl (Except.ok.inj done).symm
  | alternative :: alternatives =>
    rw [matchAlternatives, bind_eq_ok] at done
    obtain ⟨candidate, matched, done⟩ := done
    have advances := matchNode_advances input alternative matched
    rcases matchAlternatives_advances input alternatives done with same | ⟨other, member, step⟩
    · split at same
      case isTrue =>
        rw [same]
        exact .inr ⟨alternative, List.mem_cons_self, advances⟩
      case isFalse => exact .inl same
    · exact .inr ⟨other, List.mem_cons_of_mem _ member, step⟩
termination_by structural alternatives

/-- The alternative at a position is one of them. -/
theorem matchAlternativeAt_advances (input : GrammarInput) (alternatives : List SchemaNode)
    {path : String} {index position : Nat} {state next : MatchState}
    (done : matchAlternativeAt input path index alternatives position state = .ok next) :
    ∃ alternative ∈ alternatives, MatchState.Advances input (.one alternative) state next := by
  match alternatives, position with
  | [], _ =>
    rw [matchAlternativeAt] at done
    cases done
  | alternative :: _, 0 =>
    rw [matchAlternativeAt] at done
    exact ⟨alternative, List.mem_cons_self, matchNode_advances input alternative done⟩
  | _ :: alternatives, position + 1 =>
    rw [matchAlternativeAt] at done
    obtain ⟨other, member, step⟩ := matchAlternativeAt_advances input alternatives done
    exact ⟨other, List.mem_cons_of_mem _ member, step⟩
termination_by structural alternatives

end

/-- What a round of an unordered group picks is a child that did not match yet. -/
theorem matchCandidates_chosen {input : GrammarInput} {children : List SchemaNode}
    {matched : List Nat} {current candidate : MatchState} {index : Nat}
    (picked : matchCandidates input children 0 matched current none =
      .ok (some (index, candidate))) :
    Candidate.Fresh input children matched current index candidate :=
  matchCandidates_fresh input children rfl (by simp) picked _ _ rfl

end Bethkit
