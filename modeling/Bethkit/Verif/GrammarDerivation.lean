import Bethkit.Lib.Filling
import Bethkit.Spec.Sample
import Bethkit.Verif.GrammarSteps

/-!
# What the grammar assigns

The tables of a successful match are those of a derivation of the schema root that covers the
record up to the final cursor. The loops of the source have no budget; the rounds that the model
allows them are always enough.
-/

namespace Bethkit

open Lib

namespace MatchState

variable {input : GrammarInput} {goal : GrammarGoal} {state next : MatchState}

/-- A match of a goal covers its part of the record. -/
theorem Derived.covers {trace : List MatchedAssignment}
    (derived : Derived input goal state next trace) :
    Covers input state.cursor trace next.cursor := derived.derives.covers

/-- The states of a match stay in the record. -/
theorem Advances.fits (step : Advances input goal state next) (fits : state.Fits input) :
    next.Fits input := by
  obtain ⟨trace, derived⟩ := step
  rcases derived.covers.exist with same | bound
  · exact ⟨same ▸ fits.cursor⟩
  · exact ⟨bound⟩

/-- A match that takes a subrecord moves the cursor. -/
theorem Advances.cursor_lt (step : Advances input goal state next)
    (moved : next.assigned ≠ state.assigned) : state.cursor < next.cursor := by
  obtain ⟨trace, derived⟩ := step
  have room := derived.covers.room
  have assigned := derived.assigned
  omega

end MatchState

/-- A repeat takes a subrecord in every round, so there are no more rounds than subrecords. -/
theorem repeatLoop_run {input : GrammarInput} {child : SchemaNode} {maximum : Option UInt32}
    {anchor : MatchState → Bool} {step : Nat → MatchState → Except SemanticError MatchState}
    (occurs : ∀ {count current candidate}, step count current = .ok candidate →
      MatchState.Advances input (.one child) { current with
        activeRepeatScopes := current.activeRepeatScopes ++ [⟨child.path, count⟩] } candidate)
    (fuel count : Nat) (current : MatchState) (fits : current.Fits input)
    (enough : input.subrecords.length < current.cursor + fuel) :
    RepeatRun maximum anchor step count current
      (repeatLoop maximum anchor step fuel count current) := by
  induction fuel generalizing count current with
  | zero =>
    have cursor := fits.cursor
    omega
  | succ fuel more =>
    rw [repeatLoop]
    split
    case isTrue full => exact .full full
    case isFalse open_ =>
      split
      case isTrue unanchored => exact .unanchored open_ (by simpa using unanchored)
      case isFalse anchored =>
        have anchored : anchor current = true := by simpa using anchored
        cases matched : step count current with
        | error error => exact .failed open_ anchored matched
        | ok candidate =>
          rw [ok_bind]
          split
          case isTrue stalled => exact .stalled open_ anchored matched stalled
          case isFalse moved =>
            have advances := occurs matched
            have grown : current.cursor < candidate.cursor := advances.cursor_lt moved
            have inside : candidate.Fits input := advances.fits ⟨fits.cursor⟩
            refine .again open_ anchored matched moved (more _ _ ⟨inside.cursor⟩ ?_)
            show input.subrecords.length < candidate.cursor + fuel
            omega

/-- The loop of a repeat has one result. -/
theorem RepeatRun.unique {maximum : Option UInt32} {anchor : MatchState → Bool}
    {step : Nat → MatchState → Except SemanticError MatchState} {count : Nat}
    {current : MatchState} {first second : Except SemanticError (Nat × MatchState)}
    (run : RepeatRun maximum anchor step count current first)
    (other : RepeatRun maximum anchor step count current second) : first = second := by
  induction run with
  | full bound => cases other <;> first | rfl | contradiction
  | unanchored bound none_ => cases other <;> simp_all
  | failed bound anchored matched => cases other <;> simp_all
  | stalled bound anchored matched same => cases other <;> simp_all
  | again bound anchored matched moved _ more =>
    cases other with
    | full | unanchored | failed | stalled => simp_all
    | again _ _ matched' _ rest =>
      rw [matched, Except.ok.injEq] at matched'
      subst matched'
      exact more rest

/-- Rounds that are not needed do not change the loop of a repeat. -/
theorem repeatLoop_fuel {input : GrammarInput} {child : SchemaNode} {maximum : Option UInt32}
    {anchor : MatchState → Bool} {step : Nat → MatchState → Except SemanticError MatchState}
    (occurs : ∀ {count current candidate}, step count current = .ok candidate →
      MatchState.Advances input (.one child) { current with
        activeRepeatScopes := current.activeRepeatScopes ++ [⟨child.path, count⟩] } candidate)
    {fuel more : Nat} (count : Nat) {current : MatchState} (fits : current.Fits input)
    (enough : input.subrecords.length < fuel) (extra : fuel ≤ more) :
    repeatLoop maximum anchor step more count current =
      repeatLoop maximum anchor step fuel count current :=
  (repeatLoop_run occurs more count current fits (by omega)).unique
    (repeatLoop_run occurs fuel count current fits (by omega))

/-- An unordered group takes another child in every round, so there are no more rounds than
children. -/
theorem unorderedLoop_run {input : GrammarInput} {children : List SchemaNode}
    {round : List Nat → MatchState → Except SemanticError (Option (Nat × MatchState))}
    (chosen : ∀ {matched current index candidate},
      round matched current = .ok (some (index, candidate)) →
      Candidate.Fresh input children matched current index candidate)
    (fuel : Nat) (matched : List Nat) (current : MatchState) (different : matched.Nodup)
    (among : ∀ index ∈ matched, index < children.length)
    (enough : children.length < matched.length + fuel) :
    UnorderedRun round matched current (unorderedLoop round fuel matched current) := by
  induction fuel generalizing matched current with
  | zero =>
    have bound : matched.length ≤ children.length := by
      have inside : matched ⊆ List.range children.length := fun index member =>
        List.mem_range.mpr (among index member)
      simpa using (List.subperm_of_subset different inside).length_le
    omega
  | succ fuel more =>
    rw [unorderedLoop]
    cases picked : round matched current with
    | error error => exact .failed picked
    | ok best =>
      rw [ok_bind]
      cases best with
      | none => exact .finished picked
      | some choice =>
        obtain ⟨index, candidate⟩ := choice
        obtain ⟨unused, child, found, _⟩ := chosen picked
        have bound := (List.getElem?_eq_some_iff.mp found).1
        refine .again picked (more _ _ (List.nodup_cons.mpr ⟨unused, different⟩) ?_ ?_)
        · intro other member
          rcases List.mem_cons.mp member with rfl | before
          · exact bound
          · exact among other before
        · rw [List.length_cons]
          omega

/-- Every loop of a match ends. -/
theorem SchemaNode.loopEnds (input : GrammarInput) (node : SchemaNode) (state : MatchState)
    (fits : state.Fits input) : node.LoopEnds input state := by
  match node with
  | .unordered info children =>
    exact unorderedLoop_run matchCandidates_chosen _ _ _ List.nodup_nil (by simp) (by simp)
  | .repeat info minimum maximum child =>
    exact repeatLoop_run (fun matched => matchNode_advances input child matched) _ _ _ fits
      (by omega)
  | .sequence _ _ | .choice _ _ | .selectedChoice _ _ _ | .subrecord _ _ _ | .primitive _ _
  | .struct _ _ | .optionalStruct _ _ _ | .array _ _ _ | .union _ _ _ | .custom _ _ _
  | .compressed _ _ _ | .terminated _ _ _ | .reference _ _ => trivial

/-- The tables of a finished match describe its history. -/
theorem MatchState.toMatch_describes {input : GrammarInput} {state : MatchState}
    {trace : List MatchedAssignment} {stop : Nat} (covers : Covers input 0 trace stop)
    (history : state.history = trace.reverse) :
    (state.toMatch input.declared input.subrecords.length).Describes input trace where
  assignments_length := by rw [toMatch, length_foldl_set, List.length_replicate]
  repeatScopes_length := by rw [toMatch, length_foldl_set, List.length_replicate]
  placed := by
    intro entry member
    have recorded : entry ∈ state.history := by rwa [history, List.mem_reverse]
    have different : state.history.Pairwise fun first second => first.index ≠ second.index := by
      rw [history, List.pairwise_reverse]
      exact covers.increasing.imp fun before => (Nat.ne_of_lt before).symm
    obtain ⟨_, _, _, subrecord, _, found, _, _⟩ := covers.typed entry member
    have bound := (List.getElem?_eq_some_iff.mp found).1
    exact ⟨getElem?_foldl_set_of_mem recorded different (by rwa [List.length_replicate]),
      getElem?_foldl_set_of_mem recorded different (by rwa [List.length_replicate])⟩
  unplaced := by
    intro index bound absent
    have unrecorded : ∀ entry ∈ state.history, entry.index ≠ index := by
      intro entry member
      exact absent entry (by rwa [history, List.mem_reverse] at member)
    rw [toMatch, getElem?_foldl_set_of_absent unrecorded, getElem?_foldl_set_of_absent unrecorded,
      List.getElem?_replicate_of_lt bound, List.getElem?_replicate_of_lt bound]
    exact ⟨rfl, rfl⟩

/-- A successful match of a record is a derivation of the schema root: the subrecords are placed
in record order, at nodes of their signature whose conditions hold, under the stack of the
numbered occurrences around them, and no declared signature before the final cursor is left
out. Every loop of the match ends. -/
theorem interpretInputs_derives (root : SchemaNode) (recordSignature : Signature)
    (formVersion : UInt16) (subrecords : List WritableSubRecord) :
    (∀ result, interpretInputs root recordSignature formVersion subrecords = .ok result →
      ∃ trace stop,
        Derives (.of root recordSignature formVersion subrecords) (.one root) [] 0 trace stop ∧
        Covers (.of root recordSignature formVersion subrecords) 0 trace stop ∧
        result.Describes (.of root recordSignature formVersion subrecords) trace) ∧
    ∀ (node : SchemaNode) (state : MatchState),
      state.Fits (.of root recordSignature formVersion subrecords) →
      node.LoopEnds (.of root recordSignature formVersion subrecords) state := by
  refine ⟨fun result done => ?_, fun node state => SchemaNode.loopEnds _ node state⟩
  rw [interpretInputs, bind_eq_ok] at done
  obtain ⟨state, matched, done⟩ := done
  obtain rfl := Except.ok.inj done
  obtain ⟨trace, derived⟩ := matchNode_advances _ root matched
  have history : state.history = trace.reverse := by
    rw [derived.history]
    exact List.append_nil _
  exact ⟨trace, state.cursor, derived.derives, derived.covers,
    MatchState.toMatch_describes derived.covers history⟩

/-- A repeat of one subrecord places both subrecords of a record. -/
theorem interpretInputs_derives_repeat :
    let root : SchemaNode := .repeat (.plain 1 "repeat") 0 none (.plainSubrecord 2 "EDID" .EDID)
    let subrecords : List WritableSubRecord := [⟨.EDID, []⟩, ⟨.EDID, [0]⟩]
    ∃ result, interpretInputs root .DATA 44 subrecords = .ok result ∧ ∃ trace stop,
      Derives (.of root .DATA 44 subrecords) (.one root) [] 0 trace stop ∧
        Covers (.of root .DATA 44 subrecords) 0 trace stop ∧
        result.Describes (.of root .DATA 44 subrecords) trace := by
  refine ⟨_, rfl, ?_⟩
  exact (interpretInputs_derives (.repeat (.plain 1 "repeat") 0 none
    (.plainSubrecord 2 "EDID" .EDID)) .DATA 44 [⟨.EDID, []⟩, ⟨.EDID, [0]⟩]).1 _ rfl

end Bethkit
