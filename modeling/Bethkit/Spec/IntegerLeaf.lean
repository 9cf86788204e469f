import Bethkit.Semantic.Encode

/-!
# Integer leaves

Integers, enumerations and flags hold a number of a width and a signedness. What is expected of them:
that exactly the numbers of the type can be written, and that a written number is read again.
-/

namespace Bethkit

open Lib

/-- The number that a value stands for. -/
def OwnedFieldValue.number : OwnedFieldValue → Option Int
  | .int value => some value.toInt
  | .uint value => some value.toNat
  | _ => none

/-- The number that a decoded value stands for. -/
def FieldValue.number : FieldValue → Option Int
  | .int value | .enumeration value _ => some value.toInt
  | .uint value | .flags value _ => some value.toNat
  | _ => none

/-- A leaf of an integer type takes values of some kind. -/
inductive TakesNumber (integer : IntegerType) : PrimitiveType → OwnedFieldValue → Prop where
  /-- A signed number for an integer. -/
  | int (value : Int64) : TakesNumber integer (.integer integer) (.int value)
  /-- An unsigned number for an integer. -/
  | uint (value : UInt64) : TakesNumber integer (.integer integer) (.uint value)
  /-- A signed number for an enumeration. -/
  | enumeration (names : List (Int64 × String)) (value : Int64) :
    TakesNumber integer (.enumeration integer names) (.int value)
  /-- An unsigned number for flags. -/
  | flags (bits : List (UInt8 × String)) (value : UInt64) :
    TakesNumber integer (.flags integer bits) (.uint value)

namespace IntegerType

/-- The widths that exist. -/
def HasWidth (integer : IntegerType) : Prop :=
  integer.width = 1 ∨ integer.width = 2 ∨ integer.width = 4 ∨ integer.width = 8

instance (integer : IntegerType) : Decidable integer.HasWidth :=
  inferInstanceAs (Decidable (_ ∨ _))

/-- The number of bits. -/
def bits (integer : IntegerType) : Nat := 8 * integer.width.toNat

/-- The lowest number of the type. -/
def lowest (integer : IntegerType) : Int := if integer.signed then -2 ^ (integer.bits - 1) else 0

/-- The first number behind those of the type. -/
def limit (integer : IntegerType) : Int :=
  if integer.signed then 2 ^ (integer.bits - 1) else 2 ^ integer.bits

/-- A number of the type. -/
def Represents (integer : IntegerType) (number : Int) : Prop :=
  integer.lowest ≤ number ∧ number < integer.limit

instance (integer : IntegerType) (number : Int) : Decidable (integer.Represents number) :=
  inferInstanceAs (Decidable (_ ∧ _))

/-- A number that is treated as its type asks for. A signed type takes negative numbers only if it has
eight bytes, and otherwise all numbers that fit its bytes; an unsigned type of eight bytes takes negative
numbers. -/
def Regular (integer : IntegerType) (number : Int) : Prop :=
  if integer.signed then
    (number < 0 → integer.width = 8 ∨ number < integer.lowest) ∧
      (0 ≤ number → number < integer.limit ∨ 2 ^ integer.bits ≤ number)
  else 0 ≤ number ∨ integer.width ≠ 8

end IntegerType

/-- Exactly the numbers of the type are written, and read again. -/
structure WritesNumber (codecs : TextCodecs) (integer : IntegerType) (primitive : PrimitiveType)
    (value : OwnedFieldValue) (localized : Bool) (inlineEncoding : Option InlineStringEncoding)
    (path : String) : Prop where
  /-- A number of the type is written, and no other. -/
  encodes : (∃ bytes, encodePrimitive codecs primitive value localized inlineEncoding path = .ok bytes) ↔
    ∃ number, value.number = some number ∧ integer.Represents number
  /-- A written number is read. -/
  decodes : ∀ bytes, encodePrimitive codecs primitive value localized inlineEncoding path = .ok bytes →
    ∃ decoded, decodePrimitive codecs primitive bytes localized inlineEncoding path = .ok decoded ∧
      decoded.1.number = value.number

/-!
## Counts in front of arrays

What the square root of a matrix length, the packed integers and the count prefixes of arrays are
to be: the root is exact, a packed integer is read back, and a written count stands for the length
of its array.
-/

/-- The bisection of a length in a number of rounds. -/
def rootAfter (length : UInt64) (rounds : Nat) : Nat :=
  squareRootLoop length.toNat rounds 0 (min length.toNat (2 ^ 32 - 1) + 1)

/-- The count of a matrix is the exact square root of its length. -/
structure IsSquareRootCount (length : UInt64) (path : String) : Prop where
  /-- The loop has ended after 64 rounds. -/
  terminates : ∀ rounds, 64 ≤ rounds → rootAfter length rounds = rootAfter length 64
  /-- A count is returned exactly when its square is the length. -/
  root : ∀ count : UInt64, arrayPrefixCount length.toNat true path = .ok count ↔
    count.toNat * count.toNat = length.toNat
  /-- A length that is no square is refused. -/
  refused : (∀ count : Nat, count * count ≠ length.toNat) →
    arrayPrefixCount length.toNat true path =
      .error (encodeError path "matrix array length is not a perfect square")

/-- A packed integer is read back in front of any bytes, and those beyond 30 bits are refused. -/
structure IsPackedInverse (value : UInt64) (path : String) : Prop where
  /-- Values of 30 bits are written and read back. -/
  readBack : value.toNat < 2 ^ 30 → ∃ bytes, encodePackedUnsigned value path = .ok bytes ∧
    ∀ rest, decodePackedUnsigned (bytes ++ rest) path = .ok (value, bytes.length)
  /-- Greater values are not written. -/
  rejected : 2 ^ 30 ≤ value.toNat →
    encodePackedUnsigned value path = .error (encodeError path "packed integer exceeds 30 bits")

/-- The count prefixes of an array of a length are read back as the length, in front of any
bytes. -/
structure CountsReadBack (length : UInt64) (terminator : Option UInt8) (path : String) : Prop where
  /-- Packed counts. -/
  packed : ∀ square bytes,
    encodeArrayPrefix path (.packedPrefixed square terminator) length.toNat = .ok bytes →
      ∀ rest, ∃ count width,
        decodePackedUnsigned (bytes ++ rest) path = .ok (count, width) ∧
        arrayCountValue count square path = .ok length.toNat ∧
        arrayPrefixSize width terminator (bytes ++ rest) path = .ok bytes.length
  /-- Squared counts of a plain integer type. -/
  squared : ∀ integer bytes,
    encodeArrayPrefix path (.squaredPrefixed integer terminator) length.toNat = .ok bytes →
      ∀ rest, ∃ count,
        decodeUnsignedInteger integer (bytes ++ rest) path = .ok count ∧
        arrayCountValue count true path = .ok length.toNat ∧
        arrayPrefixSize integer.width.toNat terminator (bytes ++ rest) path = .ok bytes.length

end Bethkit
