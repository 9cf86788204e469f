import Bethkit.Lib.Numerals
import Bethkit.Schema.Validation
import Bethkit.Semantic.Legacy

/-!
# Integers as text

Integers are printed and parsed by the standard library; an edit text may also be a Delphi literal,
with a sign, blanks around it, and a radix prefix. An `i128` is an integer here.
-/

namespace Bethkit

open Lib

/-- The text of a `ParseIntError`. -/
def parseIntErrorText : NumeralError → String
  | .empty => "cannot parse integer from empty string"
  | .invalidDigit => "invalid digit found in string"
  | .posOverflow => "number too large to fit in target type"
  | .negOverflow => "number too small to fit in target type"

/-- The decimal digits of an integer behind its sign. -/
def decimalChars (value : Int) : List Char :=
  if value < 0 then '-' :: Nat.toDigits 10 value.natAbs else Nat.toDigits 10 value.natAbs

/-- `i64::to_string`. -/
def i64ToString (value : Int64) : String := String.ofList (decimalChars value.toInt)

/-- The digits of `{:0width$X}`. -/
def hexUpper (width value : Nat) : List Char :=
  List.leftpad width '0' ((Nat.toDigits 16 value).map Char.toUpper)

/-- `from_str_radix` of an unsigned word with a number of values. -/
def fromStrRadix (limit radix : Nat) (text : String) : Except NumeralError Nat :=
  match text.toList with
  | [] => .error .empty
  | ['+'] => .error .invalidDigit
  | ['-'] => .error .invalidDigit
  | '+' :: digits => foldDigits radix limit 0 digits
  | digits => foldDigits radix limit 0 digits

/-- `str::parse::<i32>`. -/
def parseI32 (text : String) : Except NumeralError Int :=
  match text.toList with
  | [] => .error .empty
  | ['+'] => .error .invalidDigit
  | ['-'] => .error .invalidDigit
  | '+' :: digits => (foldDigits 10 (2 ^ 31) 0 digits).map Int.ofNat
  | '-' :: digits =>
    match foldDigits 10 (2 ^ 31 + 1) 0 digits with
    | .ok magnitude => .ok (-magnitude)
    | .error .posOverflow => .error .negOverflow
    | .error error => .error error
  | digits => (foldDigits 10 (2 ^ 31) 0 digits).map Int.ofNat

/-- `str::parse::<u32>`. -/
def parseU32 (text : String) : Except NumeralError Nat := fromStrRadix (2 ^ 32) 10 text

/-- The sign of a Delphi literal, and the literal without it. -/
def delphiSign (value : String) : Bool × String :=
  match strStripPrefix value "-" with
  | some rest => (true, rest)
  | none => (false, (strStripPrefix value "+").getD value)

/-- The radix and the digits of a Delphi literal without its sign. -/
def delphiRadix (value : String) : Nat × String :=
  match strStripPrefix value "$" with
  | some digits => (16, digits)
  | none =>
    match (strStripPrefix value "0x").or (strStripPrefix value "0X") with
    | some digits => (16, digits)
    | none => (10, value)

/-- The value of a Delphi literal from its sign, its text and its magnitude. -/
def delphiValue (handler : String) (negative : Bool) (value : String) (magnitude : Nat) :
    Except SemanticError Int64 :=
  if negative then
    if 2 ^ 63 < magnitude then .error (.handler handler s!"integer edit value -{value} is below i64")
    else if magnitude = 2 ^ 63 then .ok Int64.minValue
    else .ok (Int64.ofInt (-magnitude))
  else if magnitude < 2 ^ 63 then .ok (Int64.ofNat magnitude)
  else .error (.handler handler s!"integer edit value {value} exceeds i64")

/-- `parse_delphi_integer`. -/
def parseDelphiInteger (value handler : String) : Except SemanticError Int64 := do
  let (negative, value) := delphiSign (strTrim value)
  let (radix, digits) := delphiRadix value
  let magnitude ← match fromStrRadix (2 ^ 64) radix digits with
    | .ok magnitude => .ok magnitude
    | .error error =>
      let quoted := strDebug value
      let reason := parseIntErrorText error
      .error (.handler handler s!"invalid integer edit value {quoted}: {reason}")
  delphiValue handler negative value magnitude

/-- The integer of a decoded value. -/
def callbackInteger (value : FieldValue) (handler : String) : Except SemanticError Int :=
  match value with
  | .int value => .ok value.toInt
  | .uint value | .flags value _ => .ok value.toNat
  | .enumeration value _ => .ok value.toInt
  | _ => .error (.handler handler "callback requires an integer value")

/-- The 32 bits of an integer. -/
def callbackU32 (value : Int) (handler : String) : Except SemanticError UInt32 :=
  if 0 ≤ value ∧ value < 2 ^ 32 then .ok (UInt32.ofNat value.toNat)
  else if -2 ^ 31 ≤ value ∧ value < 0 then .ok (UInt32.ofInt value)
  else .error (.handler handler "callback value exceeds 32 bits")

end Bethkit
