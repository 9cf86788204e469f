import Bethkit.Lib.LittleEndian

/-!
# Prefix codes

A flat concatenation of encodings can be read back only if no encoding is confused with the front
of another. `PrefixCode left right same` says this of the encodings of two values: whatever follows
them, the two inputs are equal exactly when the values are the same in the sense of `same` and the
rests are equal. The statement is about two encodings, not about an encoder, so that codes compose
by concatenation alone: a later part may rely on what the earlier parts have already decided. A
count in front of a list is the case of this that repeats.
-/

namespace Bethkit.Lib

variable {α β γ : Type}

/-- Two encodings agree in front of some rests exactly when what they encode is the same and the
rests agree. -/
def PrefixCode (left right : List α) (same : Prop) : Prop :=
  ∀ leftRest rightRest, left ++ leftRest = right ++ rightRest ↔ same ∧ leftRest = rightRest

namespace PrefixCode

/-- Encodings that are read from the front are equal exactly when what they encode is the same. -/
theorem eq_iff {left right : List α} {same : Prop} (code : PrefixCode left right same) :
    left = right ↔ same := by
  have whole := code [] []
  simpa using whole

/-- What is the same may be stated in other words. -/
theorem congr {left right : List α} {same equal : Prop} (code : PrefixCode left right same)
    (agree : same ↔ equal) : PrefixCode left right equal := by
  intro leftRest rightRest
  rw [code leftRest rightRest, agree]

/-- Nothing is encoded by nothing. -/
theorem nil : PrefixCode ([] : List α) [] True := by
  intro leftRest rightRest
  simp

/-- Encodings of one length are read by position. -/
theorem of_length {left right : List α} (length : left.length = right.length) :
    PrefixCode left right (left = right) := by
  intro leftRest rightRest
  constructor
  · intro whole
    exact List.append_inj whole length
  · intro both
    rw [both.1, both.2]

/-- The second parts are read after the first ones, and only when these are the same. -/
theorem append {left right leftNext rightNext : List α} {same next : Prop}
    (first : PrefixCode left right same)
    (second : same → PrefixCode leftNext rightNext next) :
    PrefixCode (left ++ leftNext) (right ++ rightNext) (same ∧ next) := by
  intro leftRest rightRest
  rw [List.append_assoc, List.append_assoc, first]
  constructor
  · intro both
    have rest := (second both.1 leftRest rightRest).mp both.2
    exact ⟨⟨both.1, rest.1⟩, rest.2⟩
  · intro both
    exact ⟨both.1.1, (second both.1.1 leftRest rightRest).mpr ⟨both.1.2, both.2⟩⟩

/-- Lists of one length are read element by element. -/
theorem flatMap {encodeLeft : β → List α} {encodeRight : γ → List α} {same : β → γ → Prop}
    (lefts : List β) (rights : List γ) (length : lefts.length = rights.length)
    (each : ∀ left ∈ lefts, ∀ right ∈ rights,
      PrefixCode (encodeLeft left) (encodeRight right) (same left right)) :
    PrefixCode (lefts.flatMap encodeLeft) (rights.flatMap encodeRight)
      (List.Forall₂ same lefts rights) := by
  induction lefts generalizing rights with
  | nil =>
    have empty : rights = [] := List.eq_nil_of_length_eq_zero length.symm
    rw [empty]
    exact nil.congr (by simp)
  | cons left lefts ih =>
    cases rights with
    | nil => cases length
    | cons right rights =>
      have head := each left List.mem_cons_self right List.mem_cons_self
      have tail := ih rights (Nat.succ.inj length) fun left inLefts right inRights =>
        each left (List.mem_cons_of_mem _ inLefts) right (List.mem_cons_of_mem _ inRights)
      rw [List.flatMap_cons, List.flatMap_cons]
      exact (head.append fun _ => tail).congr List.forall₂_cons.symm

/-- Numbers that fit a fixed width. -/
theorem leBytes {width left right : Nat} (leftFits : left < 256 ^ width)
    (rightFits : right < 256 ^ width) :
    PrefixCode (Lib.leBytes width left) (Lib.leBytes width right) (left = right) := by
  have length : (Lib.leBytes width left).length = (Lib.leBytes width right).length := by
    rw [length_leBytes, length_leBytes]
  apply (of_length length).congr
  constructor
  · intro same
    have values := congrArg leValue same
    rwa [leValue_leBytes, leValue_leBytes, Nat.mod_eq_of_lt leftFits,
      Nat.mod_eq_of_lt rightFits] at values
  · intro same
    rw [same]

/-- A list behind its count is read element by element. -/
theorem counted {width : Nat} {encodeLeft : β → List UInt8} {encodeRight : γ → List UInt8}
    {same : β → γ → Prop} {lefts : List β} {rights : List γ}
    (leftFits : lefts.length < 256 ^ width) (rightFits : rights.length < 256 ^ width)
    (each : ∀ left ∈ lefts, ∀ right ∈ rights,
      PrefixCode (encodeLeft left) (encodeRight right) (same left right)) :
    PrefixCode (Lib.leBytes width lefts.length ++ lefts.flatMap encodeLeft)
      (Lib.leBytes width rights.length ++ rights.flatMap encodeRight)
      (List.Forall₂ same lefts rights) := by
  have count := leBytes leftFits rightFits
  have both := count.append fun length => flatMap lefts rights length each
  apply both.congr
  constructor
  · exact And.right
  · intro all
    exact ⟨all.length_eq, all⟩

/-- Bytes behind their count. -/
theorem framed {width : Nat} {left right : List UInt8} (leftFits : left.length < 256 ^ width)
    (rightFits : right.length < 256 ^ width) :
    PrefixCode (Lib.leBytes width left.length ++ left) (Lib.leBytes width right.length ++ right)
      (left = right) := by
  have count := leBytes leftFits rightFits
  apply (count.append fun length => of_length length).congr
  constructor
  · exact And.right
  · intro same
    exact ⟨by rw [same], same⟩

end PrefixCode

end Bethkit.Lib
