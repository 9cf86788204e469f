import Bethkit.Lib.Bisection
import Bethkit.Spec.IntegerLeaf
import Bethkit.Verif.IntegerLeaf

/-!
# Counts in front of arrays are read back

The division of the loop compares a square with the length, so the loop is a bisection that ends at
the integer square root. The selector of a packed integer is the remainder of its number by four,
which the lowest byte keeps.
-/

namespace Bethkit

open Lib

/-- The loop bisects the numbers whose square is at most the length. -/
theorem squareRootLoop_eq_bisect (length fuel low high : Nat) :
    squareRootLoop length fuel low high = bisect (fun root => root * root ≤ length) fuel low high := by
  induction fuel generalizing low high with
  | zero => rfl
  | succ fuel rest =>
    have divides (middle : Nat) : middle ≤ length / max middle 1 ↔ middle * middle ≤ length := by
      rw [Nat.le_div_iff_mul_le (by omega)]
      by_cases zero : middle = 0
      · simp [zero]
      · rw [Nat.max_eq_left (by omega)]
    unfold squareRootLoop bisect
    simp only [divides, rest]

/-- Enough rounds find the integer square root. -/
theorem rootAfter_eq_sqrt (length : UInt64) {rounds : Nat} (enough : 64 ≤ rounds) :
    rootAfter length rounds = Nat.sqrt length.toNat := by
  have bound : length.toNat < 2 ^ 64 := length.toNat_lt
  have power : 2 ^ 64 ≤ 2 ^ rounds := Nat.pow_le_pow_right (by decide) enough
  have beyond : ¬(min length.toNat (2 ^ 32 - 1) + 1) * (min length.toNat (2 ^ 32 - 1) + 1) ≤
      length.toNat := by
    by_cases small : length.toNat ≤ 2 ^ 32 - 1
    · rw [Nat.min_eq_left small]
      have grows : length.toNat + 1 ≤ (length.toNat + 1) * (length.toNat + 1) := Nat.le_mul_self _
      omega
    · rw [Nat.min_eq_right (by omega)]
      omega
  have boundary : rootAfter length rounds * rootAfter length rounds ≤ length.toNat ∧
      ¬(rootAfter length rounds + 1) * (rootAfter length rounds + 1) ≤ length.toNat := by
    rw [rootAfter, squareRootLoop_eq_bisect]
    apply @bisect_boundary (fun root => root * root ≤ length.toNat)
    · omega
    · exact Nat.zero_le _
    · exact beyond
    · omega
  exact Nat.eq_sqrt.mpr ⟨boundary.1, by omega⟩

/-- A length has a count exactly when the count is its square root and exact. -/
theorem isSquareRootCount (length : UInt64) (path : String) : IsSquareRootCount length path := by
  have found : squareRootLoop length.toNat 64 0 (min length.toNat (2 ^ 32 - 1) + 1) =
      Nat.sqrt length.toNat := rootAfter_eq_sqrt length (Nat.le_refl 64)
  have bound : length.toNat < 2 ^ 64 := length.toNat_lt
  have below : Nat.sqrt length.toNat ≤ length.toNat := Nat.sqrt_le_self _
  have count_eq : arrayPrefixCount length.toNat true path =
      if Nat.sqrt length.toNat * Nat.sqrt length.toNat ≠ length.toNat then
        .error (encodeError path "matrix array length is not a perfect square")
      else .ok (UInt64.ofNat (Nat.sqrt length.toNat)) := by
    rw [arrayPrefixCount, found]
    rfl
  constructor
  · intro rounds enough
    rw [rootAfter_eq_sqrt length enough, rootAfter_eq_sqrt length (Nat.le_refl 64)]
  · intro count
    rw [count_eq]
    constructor
    · intro counted
      by_cases square : Nat.sqrt length.toNat * Nat.sqrt length.toNat = length.toNat
      · rw [if_neg (not_not.mpr square)] at counted
        have fits : Nat.sqrt length.toNat < UInt64.size := Nat.lt_of_le_of_lt below bound
        rw [← Except.ok.inj counted, UInt64.toNat_ofNat_of_lt' fits]
        exact square
      · rw [if_pos square] at counted
        cases counted
    · intro square
      have root : Nat.sqrt length.toNat = count.toNat := by
        rw [← square, Nat.sqrt_eq]
      rw [root, if_neg (not_not.mpr square), UInt64.ofNat_toNat]
  · intro never
    rw [count_eq, if_pos (never _)]

/-- The lowest byte of a packed integer holds its selector. -/
theorem packedWidth_ofNat (value selector : Nat) (small : selector < 4) :
    packedWidth (UInt8.ofNat (4 * value + selector)) =
      if selector = 1 then 2 else if selector = 2 then 4 else 1 := by
  have lowest : (UInt8.ofNat (4 * value + selector)).toNat % 4 = selector := by
    rw [UInt8.toNat_ofNat']
    omega
  rw [packedWidth, lowest]

/-- A number of some bytes with its selector is read back in front of any bytes. -/
theorem decodePackedUnsigned_leBytes {value : UInt64} {width selector : Nat} (path : String)
    (rest : Bytes) (small : selector < 4) (fits : 4 * value.toNat + selector < 256 ^ (width + 1))
    (selects : (if selector = 1 then 2 else if selector = 2 then 4 else 1) = width + 1) :
    decodePackedUnsigned (leBytes (width + 1) (4 * value.toNat + selector) ++ rest) path =
      .ok (value, width + 1) := by
  have selected := packedWidth_ofNat value.toNat selector small
  rw [selects] at selected
  have front : (leBytes (width + 1) (4 * value.toNat + selector) ++ rest).take (width + 1) =
      leBytes (width + 1) (4 * value.toNat + selector) :=
    List.take_left' (length_leBytes _ _)
  have read : leValue (leBytes (width + 1) (4 * value.toNat + selector)) / 4 = value.toNat := by
    rw [leValue_leBytes, Nat.mod_eq_of_lt fits]
    omega
  have long : ¬(leBytes (width + 1) (4 * value.toNat + selector) ++ rest).length < width + 1 := by
    rw [List.length_append, length_leBytes]
    omega
  have decoded : decodePackedUnsigned (leBytes (width + 1) (4 * value.toNat + selector) ++ rest) path =
      if (leBytes (width + 1) (4 * value.toNat + selector) ++ rest).length <
          packedWidth (UInt8.ofNat (4 * value.toNat + selector)) then
        .error (decodeLengthError path (packedWidth (UInt8.ofNat (4 * value.toNat + selector)))
          (leBytes (width + 1) (4 * value.toNat + selector) ++ rest).length)
      else .ok (UInt64.ofNat (leValue ((leBytes (width + 1) (4 * value.toNat + selector) ++ rest).take
          (packedWidth (UInt8.ofNat (4 * value.toNat + selector)))) / 4),
        packedWidth (UInt8.ofNat (4 * value.toNat + selector))) := rfl
  rw [decoded, selected, if_neg long, front, read, UInt64.ofNat_toNat]

/-- Packed integers of 30 bits are read back, and greater ones are refused. -/
theorem isPackedInverse (value : UInt64) (path : String) : IsPackedInverse value path := by
  constructor
  · intro small
    rw [encodePackedUnsigned]
    by_cases one : value.toNat ≤ 0x3f
    · refine ⟨_, if_pos one, fun rest => ?_⟩
      exact @decodePackedUnsigned_leBytes value 0 0 path rest (by omega) (by omega) rfl
    · rw [if_neg one]
      by_cases two : value.toNat ≤ 0x3fff
      · refine ⟨_, if_pos two, fun rest => ?_⟩
        exact @decodePackedUnsigned_leBytes value 1 1 path rest (by omega) (by omega) rfl
      · rw [if_neg two]
        refine ⟨_, if_pos (by omega), fun rest => ?_⟩
        exact @decodePackedUnsigned_leBytes value 3 2 path rest (by omega) (by omega) rfl
  · intro large
    rw [encodePackedUnsigned, if_neg (by omega), if_neg (by omega), if_neg (by omega)]

/-- A count stands for the length that it was made of. -/
theorem arrayCountValue_arrayPrefixCount {length count : UInt64} {square : Bool} {path : String}
    (counted : arrayPrefixCount length.toNat square path = .ok count) :
    arrayCountValue count square path = .ok length.toNat := by
  cases square with
  | false =>
    have same : UInt64.ofNat length.toNat = count := Except.ok.inj counted
    rw [← same, UInt64.ofNat_toNat]
    rfl
  | true =>
    have square := ((isSquareRootCount length path).root count).mp counted
    have bound : length.toNat < 2 ^ 64 := length.toNat_lt
    unfold arrayCountValue
    rw [if_pos rfl, square, if_pos bound]

/-- The terminator behind a written prefix is found. -/
theorem arrayPrefixSize_written (bytes rest : Bytes) (terminator : Option UInt8) (path : String) :
    arrayPrefixSize bytes.length terminator (bytes ++ terminator.toList ++ rest) path =
      .ok (bytes ++ terminator.toList).length := by
  cases terminator with
  | none => simp [arrayPrefixSize]
  | some byte =>
    have found : (bytes ++ [byte] ++ rest)[bytes.length]? = some byte := by simp
    rw [arrayPrefixSize, Option.toList_some, found]
    simp

/-- A packed integer that is written is read back in front of any bytes. -/
theorem decodePackedUnsigned_written {value : UInt64} {bytes : Bytes} {path : String}
    (written : encodePackedUnsigned value path = .ok bytes) (rest : Bytes) :
    decodePackedUnsigned (bytes ++ rest) path = .ok (value, bytes.length) := by
  by_cases small : value.toNat < 2 ^ 30
  · obtain ⟨known, same, reads⟩ := (isPackedInverse value path).readBack small
    obtain rfl : known = bytes := Except.ok.inj (same.symm.trans written)
    exact reads rest
  · have refused := (isPackedInverse value path).rejected (Nat.le_of_not_lt small)
    rw [refused] at written
    cases written

/-- The bytes of an unsigned integer are read in front of any bytes. -/
theorem decodeUnsignedInteger_written {integer : IntegerType} {value : UInt64} {bytes : Bytes}
    {path : String} (unsigned : integer.signed = false)
    (written : encodeInteger integer value path = .ok bytes) (rest : Bytes) :
    bytes.length = integer.width.toNat ∧
      decodeUnsignedInteger integer (bytes ++ rest) path = .ok value := by
  have read := integerAsU64_encodeInteger written
  have sized : bytes.length = integer.width.toNat := by
    rw [integerAsU64] at read
    by_cases other : bytes.length ≠ integer.width.toNat
    · rw [if_pos other] at read
      cases read
    · exact not_not.mp other
  have long : ¬(bytes ++ rest).length < integer.width.toNat := by
    rw [List.length_append]
    omega
  refine ⟨sized, ?_⟩
  unfold decodeUnsignedInteger
  rw [unsigned, if_neg Bool.false_ne_true]
  simp only [if_neg long, List.take_left' sized, read]

/-- The count prefixes that the encoder writes are read back as the length of the array. -/
theorem countsReadBack (length : UInt64) (terminator : Option UInt8) (path : String) :
    CountsReadBack length terminator path := by
  constructor
  · intro square bytes written rest
    obtain ⟨count, counted, written⟩ := bind_eq_ok.mp written
    obtain ⟨encoded, packs, written⟩ := bind_eq_ok.mp written
    obtain rfl : encoded ++ terminator.toList = bytes := Except.ok.inj written
    refine ⟨count, encoded.length, ?_, arrayCountValue_arrayPrefixCount counted,
      arrayPrefixSize_written encoded rest terminator path⟩
    rw [List.append_assoc]
    exact decodePackedUnsigned_written packs _
  · intro integer bytes written rest
    rw [encodeArrayPrefix] at written
    by_cases signed : integer.signed = true
    · rw [if_pos signed] at written
      cases written
    · rw [if_neg signed] at written
      obtain ⟨count, counted, written⟩ := bind_eq_ok.mp written
      obtain ⟨encoded, writes, written⟩ := bind_eq_ok.mp written
      obtain rfl : encoded ++ terminator.toList = bytes := Except.ok.inj written
      have unsigned : integer.signed = false := Bool.eq_false_of_not_eq_true signed
      have reads := decodeUnsignedInteger_written unsigned writes (terminator.toList ++ rest)
      refine ⟨count, ?_, arrayCountValue_arrayPrefixCount counted, ?_⟩
      · rw [List.append_assoc]
        exact reads.2
      · rw [← reads.1]
        exact arrayPrefixSize_written encoded rest terminator path

/-- Square roots are exact, packed integers are read back or refused, and every count prefix stands
for the length of its array. -/
theorem packedCounts_readBack :
    (∀ length path, IsSquareRootCount length path) ∧ (∀ value path, IsPackedInverse value path) ∧
      ∀ length terminator path, CountsReadBack length terminator path :=
  ⟨isSquareRootCount, isPackedInverse, countsReadBack⟩

end Bethkit
