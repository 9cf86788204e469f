import Mathlib

/-!
# Numerals in a radix

The digits of a numeral are read from the left, and a value at or above a limit is an overflow. The
numeral that is printed for a number is read back, with leading zeros and in either case of its
letters.
-/

namespace Bethkit.Lib

/-- Why a numeral is not read. -/
inductive NumeralError where
  /-- There is no digit. -/
  | empty
  /-- A character is not a digit. -/
  | invalidDigit
  /-- The value is too large. -/
  | posOverflow
  /-- The value is too small. -/
  | negOverflow
deriving DecidableEq

/-- The value of a decimal digit or of a letter. -/
def charValue (char : Char) : Option Nat :=
  let code := char.toNat
  if 48 ≤ code ∧ code ≤ 57 then some (code - 48)
  else if 97 ≤ code ∧ code ≤ 122 then some (code - 87)
  else if 65 ≤ code ∧ code ≤ 90 then some (code - 55)
  else none

/-- The value of a digit in a radix. -/
def charToDigit (radix : Nat) (char : Char) : Option Nat := (charValue char).filter (· < radix)

/-- Read digits behind a value, below a limit. -/
def foldDigits (radix limit : Nat) : Nat → List Char → Except NumeralError Nat
  | value, [] => .ok value
  | value, char :: chars =>
    match charToDigit radix char with
    | none => .error .invalidDigit
    | some digit =>
      if value * radix + digit < limit then foldDigits radix limit (value * radix + digit) chars
      else .error .posOverflow

/-- The value of digits behind a value. -/
def digitsValue (radix value : Nat) (digits : List Nat) : Nat :=
  digits.foldl (fun value digit => value * radix + digit) value

/-- Characters are the digits of a list of values. -/
def AreDigits (radix : Nat) (chars : List Char) (digits : List Nat) : Prop :=
  List.Forall₂ (fun char digit => charToDigit radix char = some digit) chars digits

/-- Characters denote a value. -/
def Denotes (radix : Nat) (chars : List Char) (value : Nat) : Prop :=
  ∃ digits, AreDigits radix chars digits ∧ digitsValue radix 0 digits = value

/-- Characters denote a value, perhaps behind a plus sign. -/
def DenotesSigned (radix : Nat) (chars : List Char) (value : Nat) : Prop :=
  Denotes radix chars value ∨
    ∃ digits, chars = '+' :: digits ∧ digits ≠ [] ∧ Denotes radix digits value

variable {radix limit value : Nat} {chars : List Char} {digits : List Nat}

/-- A value is the front of the value of more digits. -/
theorem le_digitsValue (positive : 0 < radix) (value : Nat) (digits : List Nat) :
    value ≤ digitsValue radix value digits := by
  induction digits generalizing value with
  | nil => exact Nat.le_refl _
  | cons digit digits ih =>
    calc
      value ≤ value * radix := Nat.le_mul_of_pos_right _ positive
      _ ≤ value * radix + digit := Nat.le_add_right _ _
      _ ≤ digitsValue radix value (digit :: digits) := ih _

/-- Digits are read exactly when all characters are digits and their value is below the limit. -/
theorem foldDigits_eq_ok (positive : 0 < radix) (small : value < limit) {result : Nat} :
    foldDigits radix limit value chars = .ok result ↔
      ∃ digits, AreDigits radix chars digits ∧ digitsValue radix value digits = result ∧
        result < limit := by
  induction chars generalizing value with
  | nil =>
    constructor
    · intro read
      have same : value = result := Except.ok.inj read
      exact ⟨[], .nil, same, same ▸ small⟩
    · intro written
      obtain ⟨digits, are, same, -⟩ := written
      cases are
      exact congrArg Except.ok same
  | cons char chars ih =>
    rw [foldDigits]
    cases digit : charToDigit radix char with
    | none =>
      constructor
      · exact fun read => by cases read
      · intro written
        obtain ⟨digits, are, -⟩ := written
        cases are with
        | cons here _ =>
          rw [digit] at here
          cases here
    | some first =>
      dsimp only
      by_cases fits : value * radix + first < limit
      · rw [if_pos fits, ih fits]
        constructor
        · intro written
          obtain ⟨digits, are, same, below⟩ := written
          exact ⟨first :: digits, .cons digit are, same, below⟩
        · intro written
          obtain ⟨digits, are, same, below⟩ := written
          cases are with
          | cons here later =>
            rw [digit] at here
            cases here
            exact ⟨_, later, same, below⟩
      · rw [if_neg fits]
        constructor
        · exact fun read => by cases read
        · intro written
          obtain ⟨digits, are, same, below⟩ := written
          cases are with
          | @cons _ _ _ rest here later =>
            rw [digit] at here
            cases here
            have front := le_digitsValue positive (value * radix + first) rest
            rw [show digitsValue radix (value * radix + first) rest = result from same] at front
            omega

/-- A digit is below the radix. -/
theorem lt_of_charToDigit {char : Char} {digit : Nat} (read : charToDigit radix char = some digit) :
    digit < radix := by
  have kept := Option.filter_eq_some_iff.mp read
  exact of_decide_eq_true kept.2

/-- The value of digits is below the power of their number. -/
theorem digitsValue_lt (are : AreDigits radix chars digits) (value : Nat) :
    digitsValue radix value digits < (value + 1) * radix ^ chars.length := by
  induction are generalizing value with
  | nil =>
    show value < (value + 1) * 1
    omega
  | @cons char digit chars digits here _ ih =>
    have below := lt_of_charToDigit here
    calc
      digitsValue radix value (digit :: digits)
        = digitsValue radix (value * radix + digit) digits := rfl
      _ < (value * radix + digit + 1) * radix ^ chars.length := ih _
      _ ≤ ((value + 1) * radix) * radix ^ chars.length := by
        apply Nat.mul_le_mul_right
        rw [Nat.succ_mul]
        omega
      _ = (value + 1) * radix ^ (char :: chars).length := by
        rw [List.length_cons, Nat.pow_succ]
        ring

/-- A denoted value is below the power of the number of characters. -/
theorem Denotes.lt (denotes : Denotes radix chars value) : value < radix ^ chars.length := by
  obtain ⟨digits, are, same⟩ := denotes
  have below := digitsValue_lt are 0
  rwa [same, Nat.zero_add, Nat.one_mul] at below

/-- A value denoted behind a sign is below the power of the number of characters. -/
theorem DenotesSigned.lt (positive : 0 < radix) (denotes : DenotesSigned radix chars value) :
    value < radix ^ chars.length := by
  rcases denotes with plain | signed
  · exact plain.lt
  · obtain ⟨digits, same, _, plain⟩ := signed
    rw [same, List.length_cons]
    exact Nat.lt_of_lt_of_le plain.lt (Nat.pow_le_pow_right positive (Nat.le_succ _))

/-- The characters of a numeral are digits. -/
theorem Denotes.isDigit (denotes : Denotes radix chars value) {char : Char} (found : char ∈ chars) :
    (charToDigit radix char).isSome := by
  obtain ⟨digits, are, -⟩ := denotes
  induction are with
  | nil => cases found
  | cons here _ ih =>
    rcases List.mem_cons.mp found with first | later
    · rw [first, here]
      rfl
    · exact ih later

/-- The characters of a numeral behind a sign are digits or the sign. -/
theorem DenotesSigned.isDigit (denotes : DenotesSigned radix chars value) {char : Char}
    (found : char ∈ chars) : char = '+' ∨ (charToDigit radix char).isSome := by
  rcases denotes with plain | signed
  · exact .inr (plain.isDigit found)
  · obtain ⟨digits, same, _, plain⟩ := signed
    rw [same] at found
    rcases List.mem_cons.mp found with first | later
    · exact .inl first
    · exact .inr (plain.isDigit later)

/-- A numeral without a sign denotes its value plainly. -/
theorem DenotesSigned.plain (denotes : DenotesSigned radix chars value) (unsigned : '+' ∉ chars) :
    Denotes radix chars value := by
  rcases denotes with plain | signed
  · exact plain
  · obtain ⟨digits, same, _⟩ := signed
    exact absurd (same ▸ List.mem_cons_self) unsigned

/-- The value of digits in two parts. -/
theorem digitsValue_append (front back : List Nat) :
    digitsValue radix value (front ++ back) =
      digitsValue radix (digitsValue radix value front) back :=
  List.foldl_append

/-- The printed digit has its value. -/
theorem charValue_digitChar : ∀ digit < 16, charValue (Nat.digitChar digit) = some digit := by
  decide

/-- The printed digit has its value in upper case. -/
theorem charValue_toUpper_digitChar :
    ∀ digit < 16, charValue (Nat.digitChar digit).toUpper = some digit := by
  decide

/-- The printed numeral consists of digits of the number. -/
theorem exists_digits_toDigits (atLeast : 1 < radix) (change : Char → Char)
    (keeps : ∀ digit < radix, charToDigit radix (change (Nat.digitChar digit)) = some digit)
    (number : Nat) :
    ∃ digits, AreDigits radix ((Nat.toDigits radix number).map change) digits ∧
      digitsValue radix 0 digits = number := by
  induction number using Nat.strongRecOn with
  | ind number ih =>
    rw [Nat.toDigits_eq_if atLeast]
    by_cases single : number < radix
    · rw [if_pos single]
      refine ⟨[number], .cons (keeps number single) .nil, ?_⟩
      show 0 * radix + number = number
      omega
    · rw [if_neg single, List.map_append]
      have smaller : number / radix < number := Nat.div_lt_self (by omega) atLeast
      obtain ⟨digits, are, same⟩ := ih _ smaller
      have last := keeps (number % radix) (Nat.mod_lt _ (by omega))
      refine ⟨digits ++ [number % radix], List.rel_append are (.cons last .nil), ?_⟩
      rw [digitsValue_append, same]
      exact Nat.div_add_mod' number radix

/-- Leading zeros do not change the value. -/
theorem areDigits_zeros (positive : 0 < radix) (count : Nat)
    (are : AreDigits radix chars digits) :
    AreDigits radix (List.replicate count '0' ++ chars) (List.replicate count 0 ++ digits) := by
  have zero : charToDigit radix '0' = some 0 := by
    show Option.filter (· < radix) (some 0) = some 0
    simp [Option.filter, positive]
  induction count with
  | zero => exact are
  | succ count ih => exact .cons zero ih

/-- Leading zeros do not change the value. -/
theorem digitsValue_zeros (count : Nat) (digits : List Nat) :
    digitsValue radix 0 (List.replicate count 0 ++ digits) = digitsValue radix 0 digits := by
  induction count with
  | zero => rfl
  | succ count ih =>
    show digitsValue radix (0 * radix + 0) (List.replicate count 0 ++ digits) = _
    rw [Nat.zero_mul, Nat.zero_add, ih]

end Bethkit.Lib
