import Bethkit.Lib.Outcome
import Bethkit.Semantic.Numerals

/-!
# Printed integers are parsed again

The decimal digits of an integer are neither blanks nor signs nor part of a radix prefix. So nothing
is trimmed or stripped from the text of an integer but its own minus sign, and the digits are read
below the limit of the word.
-/

namespace Bethkit

open Lib

/-- A decimal digit. -/
structure IsDecimal (char : Char) : Prop where
  /-- At least the digit zero. -/
  lower : 48 ≤ char.toNat
  /-- At most the digit nine. -/
  upper : char.toNat ≤ 57

/-- The characters of a printed number are decimal digits. -/
theorem isDecimal_of_mem_toDigits {char : Char} {number : Nat}
    (found : char ∈ Nat.toDigits 10 number) : IsDecimal char := by
  have digit := Nat.isDigit_of_mem_toDigits (by decide) (by decide) found
  rw [Char.isDigit, Bool.and_eq_true, decide_eq_true_eq, decide_eq_true_eq] at digit
  exact ⟨digit.1, digit.2⟩

namespace IsDecimal

variable {char : Char}

/-- A digit is not a blank. -/
theorem not_isWhitespace (decimal : IsDecimal char) : charIsWhitespace char = false := by
  have lower := decimal.lower
  have upper := decimal.upper
  simp only [charIsWhitespace, Bool.or_eq_false_iff, Bool.and_eq_false_iff, decide_eq_false_iff_not]
  omega

/-- A digit differs from every other character. -/
theorem ne (decimal : IsDecimal char) {other : Char} (outside : ¬IsDecimal other) :
    char ≠ other := fun same => outside (same ▸ decimal)

end IsDecimal

/-- A character outside the range of the digits is not a digit. -/
theorem not_isDecimal {char : Char} (outside : char.toNat < 48 ∨ 57 < char.toNat) :
    ¬IsDecimal char := fun decimal => by
  have lower := decimal.lower
  have upper := decimal.upper
  omega

/-- Visible characters at the front are not trimmed. -/
theorem strTrim_append {front : List Char} (rest : List Char) (nonempty : front ≠ [])
    (visible : ∀ char ∈ front, charIsWhitespace char = false) :
    strTrim (String.ofList (front ++ rest)) =
      String.ofList (front ++ rest.rdropWhile charIsWhitespace) := by
  have leading : (front ++ rest).dropWhile charIsWhitespace = front ++ rest := by
    cases front with
    | nil => contradiction
    | cons first front =>
      rw [List.cons_append, List.dropWhile_cons_of_neg]
      rw [visible first List.mem_cons_self]
      exact Bool.false_ne_true
  have trailing : (front ++ rest).rdropWhile charIsWhitespace =
      front ++ rest.rdropWhile charIsWhitespace := by
    clear leading
    induction rest using List.reverseRecOn with
    | nil =>
      rw [List.append_nil, List.rdropWhile_nil, List.append_nil, List.rdropWhile_eq_self_iff]
      intro last
      rw [visible _ (List.getLast_mem last)]
      exact Bool.false_ne_true
    | append_singleton rest last ih =>
      rw [← List.append_assoc, List.rdropWhile_concat, List.rdropWhile_concat]
      by_cases blank : charIsWhitespace last = true
      · rw [if_pos blank, if_pos blank, ih]
      · rw [if_neg blank, if_neg blank, List.append_assoc]
  rw [strTrim, String.toList_ofList, leading, trailing]

/-- Text of visible characters is not trimmed. -/
theorem strTrim_of_visible {chars : List Char} (nonempty : chars ≠ [])
    (visible : ∀ char ∈ chars, charIsWhitespace char = false) :
    strTrim (String.ofList chars) = String.ofList chars := by
  have kept := strTrim_append [] nonempty visible
  rwa [List.append_nil, List.rdropWhile_nil, List.append_nil] at kept

/-- A prefix of one character is stripped. -/
theorem strStripPrefix_cons (char : Char) (chars : List Char) :
    strStripPrefix (String.ofList (char :: chars)) (String.ofList [char]) =
      some (String.ofList chars) := by
  simp [strStripPrefix]

/-- Text that does not start as the prefix does is left alone. -/
theorem strStripPrefix_of_ne {chars : List Char} {first : Char} {head : List Char}
    (apart : chars.head? ≠ some first) :
    strStripPrefix (String.ofList chars) (String.ofList (first :: head)) = none := by
  rw [strStripPrefix, String.toList_ofList, String.toList_ofList, if_neg]
  intro starts
  obtain ⟨rest, same⟩ := List.isPrefixOf_iff_prefix.mp starts
  rw [← same] at apart
  exact apart rfl

/-- Text that goes on otherwise than the prefix is left alone. -/
theorem strStripPrefix_of_second_ne {chars : List Char} {first second : Char} {head : List Char}
    (apart : chars.tail.head? ≠ some second) :
    strStripPrefix (String.ofList chars) (String.ofList (first :: second :: head)) = none := by
  rw [strStripPrefix, String.toList_ofList, String.toList_ofList, if_neg]
  intro starts
  obtain ⟨rest, same⟩ := List.isPrefixOf_iff_prefix.mp starts
  rw [← same] at apart
  exact apart rfl

/-- Digits without a sign are read by their values. -/
theorem fromStrRadix_of_areDigits {radix limit : Nat} {chars : List Char} {digits : List Nat}
    (positive : 0 < radix) (nonempty : chars ≠ []) (are : AreDigits radix chars digits)
    (unsigned : chars.head? ≠ some '+') (below : digitsValue radix 0 digits < limit) :
    fromStrRadix limit radix (String.ofList chars) = .ok (digitsValue radix 0 digits) := by
  have read : foldDigits radix limit 0 chars = .ok (digitsValue radix 0 digits) :=
    (foldDigits_eq_ok positive (by omega)).mpr ⟨digits, are, rfl, below⟩
  have noSign : charToDigit radix '-' = none := rfl
  rw [fromStrRadix, String.toList_ofList]
  split
  · contradiction
  · exact absurd rfl unsigned
  · cases are with
    | cons here _ =>
      rw [noSign] at here
      cases here
  · exact absurd rfl unsigned
  · exact read

/-- A numeral is read exactly when its characters denote the value, and the value is below the
limit. -/
theorem fromStrRadix_eq_ok {radix limit value : Nat} {chars : List Char} (positive : 0 < radix)
    (room : 0 < limit) :
    fromStrRadix limit radix (String.ofList chars) = .ok value ↔
      chars ≠ [] ∧ DenotesSigned radix chars value ∧ value < limit := by
  have read (digits : List Char) : foldDigits radix limit 0 digits = .ok value ↔
      Denotes radix digits value ∧ value < limit := by
    rw [foldDigits_eq_ok positive room]
    constructor
    · intro written
      obtain ⟨digits, are, same, below⟩ := written
      exact ⟨⟨digits, are, same⟩, below⟩
    · intro written
      obtain ⟨⟨digits, are, same⟩, below⟩ := written
      exact ⟨digits, are, same, below⟩
  have noPlus {digits : List Char} : ¬Denotes radix ('+' :: digits) value := fun denotes => by
    have digit := denotes.isDigit List.mem_cons_self
    cases digit
  have noMinus {digits : List Char} : ¬Denotes radix ('-' :: digits) value := fun denotes => by
    have digit := denotes.isDigit List.mem_cons_self
    cases digit
  rw [fromStrRadix, String.toList_ofList]
  split
  · simp
  · simp [DenotesSigned, noPlus]
  · simp [DenotesSigned, noMinus]
  · rename_i digits several
    have nonempty : digits ≠ [] := fun none => several (none ▸ rfl)
    rw [read]
    simp [DenotesSigned, noPlus, nonempty]
  · rename_i nonempty _ _ unsigned
    rw [read]
    have plain : ¬∃ digits, chars = '+' :: digits ∧ digits ≠ [] ∧ Denotes radix digits value :=
      fun signed => by
        obtain ⟨digits, same, _⟩ := signed
        exact unsigned digits same
    simp only [DenotesSigned, plain, or_false]
    exact ⟨fun denotes => ⟨nonempty, denotes⟩, fun denotes => denotes.2⟩

/-- The digits of a number are read in any radix up to sixteen, in either case. -/
theorem charToDigit_digitChar {radix : Nat} (small : radix ≤ 16) :
    ∀ digit < radix, charToDigit radix (id (Nat.digitChar digit)) = some digit := by
  intro digit below
  rw [charToDigit, id, charValue_digitChar digit (by omega)]
  simp [Option.filter, below]

/-- The digits of a number in upper case are read in any radix up to sixteen. -/
theorem charToDigit_toUpper_digitChar {radix : Nat} (small : radix ≤ 16) :
    ∀ digit < radix, charToDigit radix (Nat.digitChar digit).toUpper = some digit := by
  intro digit below
  rw [charToDigit, charValue_toUpper_digitChar digit (by omega)]
  simp [Option.filter, below]

/-- A printed number is read below the limit. -/
theorem foldDigits_toDigits {number limit : Nat} (below : number < limit) :
    foldDigits 10 limit 0 (Nat.toDigits 10 number) = .ok number := by
  obtain ⟨digits, are, same⟩ := exists_digits_toDigits (by decide : 1 < 10) id
    (charToDigit_digitChar (by decide)) number
  rw [List.map_id] at are
  exact (foldDigits_eq_ok (by decide) (by omega)).mpr ⟨digits, are, same, below⟩

/-- A printed number is not empty and starts with a digit. -/
theorem head?_toDigits (number : Nat) :
    ∃ first rest, Nat.toDigits 10 number = first :: rest ∧ IsDecimal first ∧
      ∀ char ∈ rest, IsDecimal char := by
  cases printed : Nat.toDigits 10 number with
  | nil => exact absurd printed Nat.toDigits_ne_nil
  | cons first rest =>
    have decimal : ∀ char ∈ first :: rest, IsDecimal char :=
      fun char found => isDecimal_of_mem_toDigits (printed ▸ found)
    exact ⟨first, rest, rfl, decimal first List.mem_cons_self,
      fun char found => decimal char (List.mem_cons_of_mem _ found)⟩

/-- A printed number is read from its text. -/
theorem fromStrRadix_toDigits {number limit : Nat} (below : number < limit) :
    fromStrRadix limit 10 (String.ofList (Nat.toDigits 10 number)) = .ok number := by
  obtain ⟨first, rest, printed, decimal, _⟩ := head?_toDigits number
  obtain ⟨digits, are, same⟩ := exists_digits_toDigits (by decide : 1 < 10) id
    (charToDigit_digitChar (by decide)) number
  rw [List.map_id] at are
  have unsigned : (Nat.toDigits 10 number).head? ≠ some '+' := by
    rw [printed, List.head?_cons]
    exact fun plus => decimal.ne (not_isDecimal (by decide)) (Option.some.inj plus)
  have read := fromStrRadix_of_areDigits (by decide) Nat.toDigits_ne_nil are unsigned
    (same ▸ below)
  rw [read, same]

/-- The characters of a printed integer are visible. -/
theorem visible_decimalChars (value : Int) :
    decimalChars value ≠ [] ∧ ∀ char ∈ decimalChars value, charIsWhitespace char = false := by
  rw [decimalChars]
  by_cases negative : value < 0
  · rw [if_pos negative]
    refine ⟨List.cons_ne_nil _ _, fun char found => ?_⟩
    rcases List.mem_cons.mp found with sign | digit
    · rw [sign]
      rfl
    · exact (isDecimal_of_mem_toDigits digit).not_isWhitespace
  · rw [if_neg negative]
    exact ⟨Nat.toDigits_ne_nil, fun char found =>
      (isDecimal_of_mem_toDigits found).not_isWhitespace⟩

/-- Digits have no radix prefix. -/
theorem delphiRadix_toDigits (number : Nat) :
    delphiRadix (String.ofList (Nat.toDigits 10 number)) =
      (10, String.ofList (Nat.toDigits 10 number)) := by
  obtain ⟨first, rest, printed, decimal, others⟩ := head?_toDigits number
  have dollar : strStripPrefix (String.ofList (Nat.toDigits 10 number)) "$" = none := by
    apply strStripPrefix_of_ne
    rw [printed, List.head?_cons]
    exact fun same => decimal.ne (not_isDecimal (by decide)) (Option.some.inj same)
  have second {letter : Char} (outside : ¬IsDecimal letter) :
      (Nat.toDigits 10 number).tail.head? ≠ some letter := by
    rw [printed, List.tail_cons]
    intro same
    exact outside (others letter (List.mem_of_mem_head? same))
  have lower : strStripPrefix (String.ofList (Nat.toDigits 10 number)) "0x" = none :=
    strStripPrefix_of_second_ne (second (not_isDecimal (by decide)))
  have upper : strStripPrefix (String.ofList (Nat.toDigits 10 number)) "0X" = none :=
    strStripPrefix_of_second_ne (second (not_isDecimal (by decide)))
  rw [delphiRadix, dollar, lower, upper]
  rfl

/-- The sign of a printed integer is found. -/
theorem delphiSign_decimalChars (value : Int) :
    delphiSign (String.ofList (decimalChars value)) =
      (decide (value < 0), String.ofList (Nat.toDigits 10 value.natAbs)) := by
  obtain ⟨first, rest, printed, decimal, _⟩ := head?_toDigits value.natAbs
  rw [decimalChars]
  by_cases negative : value < 0
  · have minus : strStripPrefix (String.ofList ('-' :: Nat.toDigits 10 value.natAbs)) "-" =
        some (String.ofList (Nat.toDigits 10 value.natAbs)) := strStripPrefix_cons _ _
    rw [if_pos negative, delphiSign, minus, decide_eq_true negative]
  · have absent {sign : Char} (outside : ¬IsDecimal sign) :
        (Nat.toDigits 10 value.natAbs).head? ≠ some sign := by
      rw [printed, List.head?_cons]
      exact fun same => decimal.ne outside (Option.some.inj same)
    have minus : strStripPrefix (String.ofList (Nat.toDigits 10 value.natAbs)) "-" = none :=
      strStripPrefix_of_ne (absent (not_isDecimal (by decide)))
    have plus : strStripPrefix (String.ofList (Nat.toDigits 10 value.natAbs)) "+" = none :=
      strStripPrefix_of_ne (absent (not_isDecimal (by decide)))
    rw [if_neg negative, delphiSign, minus, plus, decide_eq_false negative]
    rfl

/-- The sign and the magnitude of an integer give it back. -/
theorem delphiValue_natAbs (handler text : String) (value : Int64) :
    delphiValue handler (decide (value.toInt < 0)) text value.toInt.natAbs = .ok value := by
  have low := value.le_toInt
  have high := value.toInt_lt
  unfold delphiValue
  by_cases negative : value.toInt < 0
  · rw [decide_eq_true negative, if_pos rfl, if_neg (by omega)]
    by_cases least : value.toInt.natAbs = 2 ^ 63
    · rw [if_pos least]
      congr 1
      apply Int64.toInt_inj.mp
      rw [Int64.toInt_minValue]
      omega
    · rw [if_neg least]
      congr 1
      have same : -(value.toInt.natAbs : Int) = value.toInt := by omega
      rw [same, Int64.ofInt_toInt]
  · rw [decide_eq_false negative, if_neg Bool.false_ne_true, if_pos (by omega)]
    congr 1
    have same : (value.toInt.natAbs : Int) = value.toInt := by omega
    rw [← Int64.ofInt_eq_ofNat, same, Int64.ofInt_toInt]

/-- A printed integer is parsed again. -/
theorem parseDelphiInteger_i64ToString (value : Int64) (handler : String) :
    parseDelphiInteger (i64ToString value) handler = .ok value := by
  obtain ⟨nonempty, visible⟩ := visible_decimalChars value.toInt
  have low := value.le_toInt
  have high := value.toInt_lt
  have small : value.toInt.natAbs < 2 ^ 64 := by omega
  unfold parseDelphiInteger
  rw [i64ToString, strTrim_of_visible nonempty visible, delphiSign_decimalChars]
  dsimp only
  rw [delphiRadix_toDigits]
  dsimp only
  rw [fromStrRadix_toDigits small]
  exact (ok_bind _ _).trans (delphiValue_natAbs handler _ value)

/-- Digits are parsed as a positive number. -/
theorem parseI32_of_areDigits {chars : List Char} {digits : List Nat} (nonempty : chars ≠ [])
    (are : AreDigits 10 chars digits) (decimal : ∀ char ∈ chars, IsDecimal char)
    (below : digitsValue 10 0 digits < 2 ^ 31) :
    parseI32 (String.ofList chars) = .ok (digitsValue 10 0 digits) := by
  have read : foldDigits 10 (2 ^ 31) 0 chars = .ok (digitsValue 10 0 digits) :=
    (foldDigits_eq_ok (by decide) (by decide)).mpr ⟨digits, are, rfl, below⟩
  have plus : ¬IsDecimal '+' := not_isDecimal (by decide)
  have minus : ¬IsDecimal '-' := not_isDecimal (by decide)
  rw [parseI32, String.toList_ofList]
  split
  · contradiction
  · exact absurd (decimal _ List.mem_cons_self) plus
  · exact absurd (decimal _ List.mem_cons_self) minus
  · exact absurd (decimal _ List.mem_cons_self) plus
  · exact absurd (decimal _ List.mem_cons_self) minus
  · rw [read]
    rfl

/-- Digits behind a minus sign are parsed as a negative number. -/
theorem parseI32_minus {number : Nat} (below : number ≤ 2 ^ 31) :
    parseI32 (String.ofList ('-' :: Nat.toDigits 10 number)) = .ok (-number) := by
  have limit : number < 2 ^ 31 + 1 := Nat.lt_succ_of_le below
  have read := foldDigits_toDigits limit
  rw [parseI32, String.toList_ofList]
  split
  · contradiction
  · rename_i same
    cases same
  · rename_i same
    exact absurd (List.cons.inj same).2 Nat.toDigits_ne_nil
  · rename_i same
    cases same
  · rename_i same
    rw [← (List.cons.inj same).2, read]
  · rename_i other
    exact (other _ rfl).elim

end Bethkit
