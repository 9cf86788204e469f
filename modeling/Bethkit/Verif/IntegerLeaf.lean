import Bethkit.Lib.Outcome
import Bethkit.Spec.IntegerLeaf
import Bethkit.Spec.Sample

/-!
# Integers that are written and read

The encoder takes the bits of a number for an unsigned number. The bytes are those of this number, so
the decoder finds the same bits, and the sign of a number decides whether they stand for it.
-/

namespace Bethkit

open Lib

namespace IntegerType

variable {integer : IntegerType}

/-- The bits of the widths that exist. -/
theorem bits_cases (wide : integer.HasWidth) :
    (integer.width = 8 ∧ integer.bits = 64) ∨ (integer.width ≠ 8 ∧
      (integer.bits = 8 ∨ integer.bits = 16 ∨ integer.bits = 32)) := by
  rw [HasWidth] at wide
  rw [bits]
  rcases wide with one | two | four | eight
  · exact .inr ⟨by rw [one]; decide, .inl (by rw [one]; rfl)⟩
  · exact .inr ⟨by rw [two]; decide, .inr (.inl (by rw [two]; rfl))⟩
  · exact .inr ⟨by rw [four]; decide, .inr (.inr (by rw [four]; rfl))⟩
  · exact .inl ⟨eight, by rw [eight]; rfl⟩

/-- What a width in bytes means for its bits. -/
theorem pow_width (integer : IntegerType) : 256 ^ integer.width.toNat = 2 ^ integer.bits := by
  rw [bits, pow_mul]
  norm_num

end IntegerType

variable {integer : IntegerType} {path : String}

/-- A number is encoded if it fits the bytes. -/
theorem exists_encodeInteger (wide : integer.HasWidth) (value : UInt64) :
    (∃ bytes, encodeInteger integer value path = .ok bytes) ↔ value.toNat < 2 ^ integer.bits := by
  rw [encodeInteger, integer.pow_width]
  by_cases fits : value.toNat < 2 ^ integer.bits
  · rw [if_pos ⟨wide, fits⟩]
    refine iff_of_true ?_ fits
    cases integer.byteOrder with
    | littleEndian => exact ⟨_, rfl⟩
    | bigEndian => exact ⟨_, rfl⟩
  · rw [if_neg fun both => fits both.2]
    refine iff_of_false ?_ fits
    rintro ⟨bytes, encoded⟩
    contradiction

/-- The bytes of an encoded number hold it. -/
theorem integerAsU64_encodeInteger {value : UInt64} {bytes : Bytes}
    (encoded : encodeInteger integer value path = .ok bytes) :
    integerAsU64 integer bytes path = .ok value := by
  rw [encodeInteger] at encoded
  split at encoded
  · rename_i fits
    have read : leValue (leBytes integer.width.toNat value.toNat) = value.toNat := by
      rw [leValue_leBytes, Nat.mod_eq_of_lt fits.2]
    rw [integerAsU64]
    cases order : integer.byteOrder with
    | littleEndian =>
      rw [order] at encoded
      obtain rfl := Except.ok.inj encoded
      rw [length_leBytes, if_neg (not_not.mpr rfl), if_pos fits.1, read, UInt64.ofNat_toNat]
    | bigEndian =>
      rw [order] at encoded
      obtain rfl := Except.ok.inj encoded
      rw [List.length_reverse, length_leBytes, if_neg (not_not.mpr rfl), if_pos fits.1]
      dsimp only
      rw [List.reverse_reverse, read, UInt64.ofNat_toNat]
  · contradiction

/-- The bits of a number: those of an unsigned number, or the two's complement. -/
def IsBits (bits : UInt64) (number : Int) : Prop :=
  -2 ^ 63 ≤ number ∧ (bits.toNat : Int) = if number < 0 then number + 2 ^ 64 else number

/-- The bits of a signed number. -/
theorem isBits_toUInt64 (value : Int64) : IsBits value.toUInt64 value.toInt := by
  have split := BitVec.toInt_eq_toNat_cond value.toBitVec
  have small := value.toUInt64.toNat_lt
  change value.toInt = if 2 * value.toUInt64.toNat < 2 ^ 64 then (value.toUInt64.toNat : Int)
    else (value.toUInt64.toNat : Int) - (2 ^ 64 : Nat) at split
  refine ⟨value.le_toInt, ?_⟩
  split at split <;> split <;> omega

/-- The bits of an unsigned number. -/
theorem isBits_uint (value : UInt64) : IsBits value value.toNat :=
  ⟨by omega, (if_neg (by omega)).symm⟩

variable {bits : UInt64} {number : Int}

/-- A number is regular if its bits fit exactly when it is one of its type. -/
theorem regular_iff (wide : integer.HasWidth) (same : IsBits bits number) :
    integer.Regular number ↔ (bits.toNat < 2 ^ integer.bits ↔ integer.Represents number) := by
  have small := bits.toNat_lt
  obtain ⟨low, same⟩ := same
  unfold IntegerType.Regular IntegerType.Represents IntegerType.lowest IntegerType.limit
  rcases integer.bits_cases wide with ⟨eight, width⟩ | ⟨narrow, width | width | width⟩
  · rw [width]
    cases integer.signed <;> simp only [eight, Bool.false_eq_true, ↓reduceIte, ne_eq, not_true_eq_false, or_false,
      true_or, implies_true, true_and] <;>
      split at same <;> omega
  all_goals
    rw [width]
    cases integer.signed <;> simp only [narrow, Bool.false_eq_true, ↓reduceIte, ne_eq, not_false_eq_true,
      or_true, false_or, true_iff] <;>
      split at same <;> omega

/-- The bits of a number of a type stand for it. -/
theorem integerAsI64_of_represents (wide : integer.HasWidth) (same : IsBits bits number)
    (represents : integer.Represents number) (below : number < 2 ^ 63)
    (fits : bits.toNat < 2 ^ integer.bits) {bytes : Bytes}
    (read : integerAsU64 integer bytes path = .ok bits) :
    ∃ value, integerAsI64 integer bytes path = .ok value ∧ value.toInt = number := by
  have small := bits.toNat_lt
  have low := same.1
  have same := same.2
  unfold IntegerType.Represents IntegerType.lowest IntegerType.limit at represents
  rw [integerAsI64]
  cases sign : integer.signed with
  | false =>
    rw [sign] at represents
    have positive : ¬number < 0 := Int.not_lt.mpr represents.1
    rw [if_neg positive] at same
    have range : -2 ^ 63 ≤ (bits.toNat : Int) ∧ (bits.toNat : Int) < 2 ^ 63 := by omega
    refine ⟨Int64.ofInt bits.toNat, ?_, ?_⟩
    · rw [Bool.not_false, if_pos rfl, read, ok_bind, i64TryFrom, if_pos range]
    · rw [Int64.toInt_ofInt_of_le range.1 range.2, same]
  | true =>
    rw [sign] at represents
    refine ⟨Int64.ofInt (signExtend integer.bits bits.toNat), ?_, ?_⟩
    · rw [Bool.not_true, if_neg Bool.false_ne_true, read, ok_bind]
      rfl
    · have extended : signExtend integer.bits bits.toNat = number := by
        simp only [↓reduceIte] at represents
        rw [signExtend]
        rcases integer.bits_cases wide with ⟨_, width⟩ | ⟨_, width | width | width⟩ <;>
          rw [width] at represents fits ⊢ <;> split at same <;> split <;> omega
      rw [extended, Int64.toInt_ofInt_of_le low below]

/-- Signed types end at the largest signed number. -/
theorem limit_le (wide : integer.HasWidth) (sign : integer.signed = true) :
    integer.limit ≤ 2 ^ 63 := by
  rw [IntegerType.limit, if_pos sign]
  rcases integer.bits_cases wide with ⟨_, width⟩ | ⟨_, width | width | width⟩ <;>
    rw [width] <;> norm_num

/-- A leaf encodes the bits of its number. -/
theorem exists_bits {primitive : PrimitiveType} {value : OwnedFieldValue}
    (takes : TakesNumber integer primitive value) : ∃ bits number, value.number = some number ∧
      IsBits bits number ∧ ∀ codecs localized inlineEncoding path,
        encodePrimitive codecs primitive value localized inlineEncoding path =
          encodeInteger integer bits path := by
  cases takes with
  | int value | enumeration names value =>
    exact ⟨value.toUInt64, value.toInt, rfl, isBits_toUInt64 value, fun _ _ _ _ => rfl⟩
  | uint value | flags bits value =>
    exact ⟨value, value.toNat, rfl, isBits_uint value, fun _ _ _ _ => rfl⟩

/-- A written number of the type of its leaf is read again. -/
theorem decodePrimitive_number {codecs : TextCodecs} {primitive : PrimitiveType}
    {value : OwnedFieldValue} {localized : Bool} {inlineEncoding : Option InlineStringEncoding}
    (takes : TakesNumber integer primitive value) (wide : integer.HasWidth)
    (stands : value.number = some number) (represents : integer.Represents number) {bytes : Bytes}
    (encoded : encodePrimitive codecs primitive value localized inlineEncoding path = .ok bytes) :
    ∃ decoded, decodePrimitive codecs primitive bytes localized inlineEncoding path = .ok decoded ∧
      decoded.1.number = value.number := by
  obtain ⟨bits, other, known, same, encodes⟩ := exists_bits takes
  obtain rfl := Option.some.inj (stands.symm.trans known)
  rw [encodes] at encoded
  have read := integerAsU64_encodeInteger encoded
  have fits := (exists_encodeInteger wide bits).mp ⟨bytes, encoded⟩
  have signed (below : number < 2 ^ 63) :=
    integerAsI64_of_represents wide same represents below fits read
  have unsigned (positive : ¬number < 0) : (bits.toNat : Int) = number := by
    have bits := same.2
    rwa [if_neg positive] at bits
  rw [stands]
  have integerCase : ∃ decoded, decodePrimitive codecs (.integer integer) bytes localized
      inlineEncoding path = .ok decoded ∧ decoded.1.number = some number := by
    show ∃ decoded, (decodeInteger integer _ path).map (·, none) = .ok decoded ∧ _
    rw [decodeInteger]
    cases sign : integer.signed with
    | true =>
      have below : number < 2 ^ 63 := represents.2.trans_le (limit_le wide sign)
      obtain ⟨decoded, found, number⟩ := signed below
      rw [if_pos rfl, found]
      exact ⟨_, rfl, congrArg some number⟩
    | false =>
      have positive : ¬number < 0 := by
        have low := represents.1
        rw [IntegerType.lowest, sign] at low
        exact Int.not_lt.mpr low
      rw [if_neg Bool.false_ne_true, read]
      exact ⟨_, rfl, congrArg some (unsigned positive)⟩
  cases takes with
  | int value => exact integerCase
  | uint value => exact integerCase
  | enumeration names value =>
    have below : number < 2 ^ 63 := Option.some.inj stands ▸ value.toInt_lt
    obtain ⟨decoded, found, number⟩ := signed below
    refine ⟨(.enumeration decoded ((names.find? (·.1 = decoded)).map (·.2)), none), ?_,
      congrArg some number⟩
    rw [decodePrimitive, found]
    rfl
  | flags names value =>
    have positive : ¬number < 0 := by
      rw [← Option.some.inj stands]
      exact Int.not_lt.mpr (Int.natCast_nonneg _)
    have stood : some (bits.toNat : Int) = some number := congrArg some (unsigned positive)
    rw [decodePrimitive, read]
    exact ⟨_, rfl, stood⟩

/-- A leaf of an integer type writes exactly the numbers of its type and reads them again exactly for
the numbers that it treats as its type asks for. -/
theorem writesNumber_iff {codecs : TextCodecs} {primitive : PrimitiveType} {value : OwnedFieldValue}
    {localized : Bool} {inlineEncoding : Option InlineStringEncoding} {path : String}
    (takes : TakesNumber integer primitive value) (wide : integer.HasWidth) :
    WritesNumber codecs integer primitive value localized inlineEncoding path ↔
      ∃ number, value.number = some number ∧ integer.Regular number := by
  obtain ⟨bits, number, known, same, encodes⟩ := exists_bits takes
  have written : (∃ bytes, encodePrimitive codecs primitive value localized inlineEncoding path =
      .ok bytes) ↔ bits.toNat < 2 ^ integer.bits := by
    rw [encodes]
    exact exists_encodeInteger wide bits
  have represented : (∃ number, value.number = some number ∧ integer.Represents number) ↔
      integer.Represents number := by
    simp only [known, Option.some.injEq, exists_eq_left']
  have regular : (∃ number, value.number = some number ∧ integer.Regular number) ↔
      integer.Regular number := by
    simp only [known, Option.some.injEq, exists_eq_left']
  rw [regular, regular_iff wide same]
  constructor
  · intro writes
    have encodes := writes.encodes
    rwa [written, represented] at encodes
  · intro fits
    refine ⟨by rw [written, represented, fits], fun bytes encoded => ?_⟩
    have represents : integer.Represents number := fits.mp (written.mp ⟨bytes, encoded⟩)
    exact decodePrimitive_number takes wide known represents encoded

/-- A signed integer of two bytes. -/
def signedShort : IntegerType := ⟨2, true, .littleEndian⟩

/-- A small number is written in two bytes. -/
theorem writesNumber_short :
    WritesNumber .byteCodes signedShort (.integer signedShort) (.int 300) false none "" :=
  (writesNumber_iff (.int 300) (.inr (.inl rfl))).mpr ⟨300, rfl, by decide, by decide⟩

/-- The number -1 is not written in two bytes, and 40000 is. -/
theorem not_writesNumber_short :
    ¬WritesNumber .byteCodes signedShort (.integer signedShort) (.int (-1)) false none "" ∧
      encodePrimitive .byteCodes (.integer signedShort) (.int 40000) false none "" = .ok [64, 156] ∧
      ¬WritesNumber .byteCodes signedShort (.integer signedShort) (.int 40000) false none "" := by
  refine ⟨fun writes => ?_, rfl, fun writes => ?_⟩
  · obtain ⟨bytes, encoded⟩ := writes.encodes.mpr ⟨-1, rfl, by decide⟩
    exact absurd encoded (by rintro ⟨⟩)
  · obtain ⟨number, known, represents⟩ := writes.encodes.mp ⟨_, rfl⟩
    rw [← Option.some.inj known] at represents
    exact absurd represents (by decide)

end Bethkit
