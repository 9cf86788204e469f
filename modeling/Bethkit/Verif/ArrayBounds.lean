import Bethkit.Lib.Outcome
import Bethkit.Spec.ArrayBounds
import Bethkit.Spec.Sample

/-!
# Counts drive the loop unchecked

Without a count every round of the loop consumes a byte, and the decoder checks that it does. With a
count the loop begins at most that many rounds, whether or not they consume anything, and the vector
for the elements is reserved for the count before the first round. So a count that exceeds the bytes
behind its prefix is what an array may cost too much by, and nothing else is.
-/

namespace Bethkit

open Lib

namespace Semantic.RecordView

variable {view : Semantic.RecordView} {payload : Bytes} {call : ArrayCall}
  {prefixSize decodedCount cursor : Nat} {elementCount : Option Nat} {state : DecodeState}

/-- The loop over an array, as the decoder runs it. -/
def loop (view : Semantic.RecordView) (payload : Bytes) (call : ArrayCall)
    (elementCount : Option Nat) : Nat → Nat → Nat → List FieldValue → DecodeState →
      Except SemanticError (List FieldValue × Nat × DecodeState) :=
  view.arrayLoop (.array call.info call.element call.count) call.element.path call.current
    elementCount call.frame (decodeNode view payload call.element)

/-- One round of the loop. -/
theorem loop_succ {fuel : Nat} {values : List FieldValue} {decoded : Decoded}
    {after : DecodeState} (goes : view.GoesOn call elementCount decodedCount cursor)
    (round : decodeNode view payload call.element (call.current.drop cursor)
      (elementFrame call.frame decodedCount cursor) state = .ok (decoded, after))
    (progress : ¬(decoded.consumed = 0 ∧ elementCount.isNone))
    (inside : cursor + decoded.consumed ≤ call.current.length) :
    view.loop payload call elementCount (fuel + 1) decodedCount cursor values state =
      view.loop payload call elementCount fuel (decodedCount + 1) (cursor + decoded.consumed)
        (view.keep values decoded.value) after := by
  have notReached : ¬elementCount.any (· ≤ decodedCount) = true := by
    rw [goes.wanted]
    decide
  rw [loop, arrayLoop, if_neg notReached, if_neg goes.notEnded, if_neg (Nat.not_lt.mpr goes.inside)]
  simp only [goes.included, ok_bind, Bool.not_true, Bool.false_eq_true, if_false]
  rw [elementFrame] at round
  rw [round, ok_bind]
  show (if decoded.consumed = 0 ∧ elementCount.isNone then _ else
    if call.current.length < cursor + decoded.consumed then _ else _) = _
  rw [if_neg progress, if_neg (Nat.not_lt.mpr inside)]

/-- The loop comes to its heads: run from the beginning, it runs on from there. -/
theorem loop_of_atHead (head : view.AtHead payload call prefixSize elementCount decodedCount cursor
    state) (fuel : Nat) :
    ∃ values, view.loop payload call elementCount (fuel + decodedCount) 0 prefixSize []
        call.state =
      view.loop payload call elementCount fuel decodedCount cursor values state := by
  induction head generalizing fuel with
  | first => exact ⟨[], rfl⟩
  | next before goes round progress inside ih =>
    rename_i count _ _ _ decoded
    obtain ⟨values, same⟩ := ih (fuel + 1)
    rw [loop_succ goes round progress inside] at same
    have rounds : fuel + (count + 1) = fuel + 1 + count := by omega
    rw [rounds]
    exact ⟨view.keep values decoded.value, same⟩

/-- Without a count every round consumes a byte. -/
theorem cursor_of_atHead
    (head : view.AtHead payload call prefixSize none decodedCount cursor state) :
    prefixSize + decodedCount ≤ cursor := by
  induction head with
  | first => exact Nat.le_refl _
  | next before goes round progress inside ih =>
    rename_i decoded
    have consumes : decoded.consumed ≠ 0 := fun none => progress ⟨none, rfl⟩
    omega

/-- A round that is begun without a count has a number below the bytes behind the prefix. -/
theorem round_lt_of_none
    (head : view.AtHead payload call prefixSize none decodedCount cursor state)
    (goes : view.GoesOn call none decodedCount cursor) :
    decodedCount < call.current.length - prefixSize := by
  have behind := cursor_of_atHead head
  have inside := goes.inside
  have notEnd : cursor ≠ call.current.length := fun ended => goes.notEnded ⟨ended, .inl rfl⟩
  omega

/-- A round that is begun with a count has a number below it. -/
theorem round_lt_of_some {count : Nat}
    (goes : view.GoesOn call (some count) decodedCount cursor) : decodedCount < count := by
  have wanted := goes.wanted
  rw [Option.any_some] at wanted
  exact Nat.not_le.mp (of_decide_eq_false wanted)

/-- The rounds that bound the loop in the model are never used up while it goes on. -/
theorem round_lt_fuel
    (head : view.AtHead payload call prefixSize elementCount decodedCount cursor state)
    (goes : view.GoesOn call elementCount decodedCount cursor) :
    decodedCount < elementCount.getD (call.current.length + 1) := by
  cases elementCount with
  | none =>
    have below := round_lt_of_none head goes
    show decodedCount < call.current.length + 1
    omega
  | some count => exact round_lt_of_some goes

/-- An array whose count fits costs no more than its bytes. -/
theorem CountFits.bounded (fits : view.CountFits payload call) : view.Bounded payload call := by
  constructor
  · intro prefixSize elementCount enters
    unfold reserved
    by_cases keeps : view.retention.materializes = true
    · rw [if_pos keeps]
      cases elementCount with
      | none => exact Nat.zero_le _
      | some count => exact fits prefixSize count enters
    · rw [if_neg keeps]
      exact Nat.zero_le _
  · intro prefixSize elementCount decodedCount cursor state enters head goes
    cases elementCount with
    | none => exact round_lt_of_none head goes
    | some count => exact (round_lt_of_some goes).trans_le (fits prefixSize count enters)

end Semantic.RecordView

end Bethkit
