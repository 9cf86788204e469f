import Mathlib

/-!
# Little-endian words

A word of a fixed width is written as base-256 digits, low digit first. Both directions are
stated over natural numbers, so that one pair of laws serves every machine width: writing
reduces modulo the width, and reading a digit list of the right length loses nothing.
-/

namespace Bethkit.Lib

/-- The low `width` base-256 digits of a natural number, low digit first. -/
def leBytes : Nat → Nat → List UInt8
  | 0, _ => []
  | width + 1, value => UInt8.ofNat value :: leBytes width (value / 256)

/-- The natural number that a digit list denotes. -/
def leValue : List UInt8 → Nat
  | [] => 0
  | digit :: digits => digit.toNat + 256 * leValue digits

/-- A word occupies exactly its width. -/
@[simp]
theorem length_leBytes (width value : Nat) : (leBytes width value).length = width := by
  induction width generalizing value with
  | zero => rfl
  | succ width ih => simp [leBytes, ih]

/-- Reading back a written word gives the value reduced to the width. -/
theorem leValue_leBytes (width value : Nat) :
    leValue (leBytes width value) = value % 256 ^ width := by
  induction width generalizing value with
  | zero => simp [leBytes, leValue, Nat.mod_one]
  | succ width ih =>
    have low : (UInt8.ofNat value).toNat = value % 256 := UInt8.toNat_ofNat'
    rw [leBytes, leValue, ih, low, Nat.pow_succ', Nat.mod_mul]

/-- A digit list is the word of its own value, at its own width. -/
theorem leBytes_leValue (digits : List UInt8) : leBytes digits.length (leValue digits) = digits := by
  induction digits with
  | nil => rfl
  | cons digit digits ih =>
    have small := digit.toNat_lt
    have low : UInt8.ofNat (digit.toNat + 256 * leValue digits) = digit := by
      apply UInt8.toNat_inj.mp
      rw [UInt8.toNat_ofNat']
      omega
    have high : (digit.toNat + 256 * leValue digits) / 256 = leValue digits := by omega
    simp only [List.length_cons, leValue, leBytes, low, high, ih]

/-- The value of a digit list is below the power of its length. -/
theorem leValue_lt (digits : List UInt8) : leValue digits < 256 ^ digits.length := by
  induction digits with
  | nil => simp [leValue]
  | cons digit digits ih =>
    have small := digit.toNat_lt
    simp only [leValue, List.length_cons, Nat.pow_succ']
    omega

end Bethkit.Lib
