import Mathlib

/-!
# Cyclic redundancy checks

The reflected shift register of a polynomial, fed with one bit after the other, lowest bit first. A
shift is linear in exclusive or, so several bits can be taken at once: those that are shifted out
select an entry of a table, the others move down.
-/

namespace Bethkit.Lib.Crc

variable {width : Nat} (polynomial : BitVec width)

/-- A shift of the register; a bit that falls out feeds the polynomial back. -/
def shift (register : BitVec width) : BitVec width :=
  if register.getLsbD 0 then polynomial ^^^ (register >>> 1) else register >>> 1

/-- A shift that takes in a bit: it is added to the one that falls out. -/
def shiftIn (register : BitVec width) (bit : Bool) : BitVec width :=
  if register.getLsbD 0 ^^ bit then polynomial ^^^ (register >>> 1) else register >>> 1

/-- The register after some bits. -/
def serial (register : BitVec width) (bits : List Bool) : BitVec width :=
  bits.foldl (shiftIn polynomial) register

/-- A shift is linear. -/
theorem shift_xor (first second : BitVec width) :
    shift polynomial (first ^^^ second) = shift polynomial first ^^^ shift polynomial second := by
  unfold shift
  simp only [BitVec.getLsbD_xor, BitVec.ushiftRight_xor_distrib]
  have cancel : polynomial ^^^ (first >>> 1) ^^^ (polynomial ^^^ (second >>> 1)) =
      (first >>> 1) ^^^ (second >>> 1) := by
    rw [BitVec.xor_comm polynomial (first >>> 1), BitVec.xor_assoc,
      ← BitVec.xor_assoc polynomial polynomial, BitVec.xor_self, BitVec.zero_xor]
  cases first.getLsbD 0 with
  | false =>
    cases second.getLsbD 0 with
    | false => rfl
    | true =>
      show polynomial ^^^ ((first >>> 1) ^^^ (second >>> 1)) =
        (first >>> 1) ^^^ (polynomial ^^^ (second >>> 1))
      rw [← BitVec.xor_assoc, BitVec.xor_comm polynomial, BitVec.xor_assoc]
  | true =>
    cases second.getLsbD 0 with
    | false => exact (BitVec.xor_assoc _ _ _).symm
    | true => exact cancel.symm

/-- Several shifts are linear. -/
theorem iterate_shift_xor (count : Nat) (first second : BitVec width) :
    (shift polynomial)^[count] (first ^^^ second) =
      (shift polynomial)^[count] first ^^^ (shift polynomial)^[count] second := by
  induction count generalizing first second with
  | zero => rfl
  | succ count rest =>
    rw [Function.iterate_succ_apply, Function.iterate_succ_apply, Function.iterate_succ_apply,
      shift_xor, rest]

/-- A register whose lowest bits are clear only moves down. -/
theorem iterate_shift_of_clear (count : Nat) (register : BitVec width)
    (clear : ∀ index < count, register.getLsbD index = false) :
    (shift polynomial)^[count] register = register >>> count := by
  induction count generalizing register with
  | zero => exact (BitVec.ushiftRight_zero register).symm
  | succ count rest =>
    have lowest := clear 0 (Nat.succ_pos count)
    have moved : shift polynomial register = register >>> 1 := by
      rw [shift, lowest, if_neg Bool.false_ne_true]
    have above : ∀ index < count, (register >>> 1).getLsbD index = false := by
      intro index less
      rw [BitVec.getLsbD_ushiftRight]
      exact clear (1 + index) (by omega)
    rw [Function.iterate_succ_apply, moved, rest _ above, ← BitVec.shiftRight_add, Nat.add_comm]

/-- Several shifts at once: the lowest bits select what is added to the others. -/
theorem iterate_shift_split (count : Nat) (register low : BitVec width)
    (same : ∀ index < count, low.getLsbD index = register.getLsbD index)
    (clear : ∀ index, count ≤ index → low.getLsbD index = false) :
    (shift polynomial)^[count] register =
      (register >>> count) ^^^ (shift polynomial)^[count] low := by
  have split : register = (low ^^^ register) ^^^ low := by
    rw [BitVec.xor_comm low register, BitVec.xor_assoc, BitVec.xor_self, BitVec.xor_zero]
  have high : ∀ index < count, (low ^^^ register).getLsbD index = false := by
    intro index less
    rw [BitVec.getLsbD_xor, same index less, Bool.xor_self]
  have gone : low >>> count = BitVec.ofNat width 0 := by
    apply BitVec.eq_of_getLsbD_eq
    intro index _
    rw [BitVec.getLsbD_ushiftRight, clear _ (Nat.le_add_right count index), BitVec.getLsbD_zero]
  calc (shift polynomial)^[count] register
      = (shift polynomial)^[count] ((low ^^^ register) ^^^ low) := by rw [← split]
    _ = (shift polynomial)^[count] (low ^^^ register) ^^^ (shift polynomial)^[count] low :=
        iterate_shift_xor polynomial count _ _
    _ = ((low ^^^ register) >>> count) ^^^ (shift polynomial)^[count] low := by
        rw [iterate_shift_of_clear polynomial count _ high]
    _ = (register >>> count) ^^^ (shift polynomial)^[count] low := by
        rw [BitVec.ushiftRight_xor_distrib, gone, BitVec.zero_xor]

/-- The bits of a word can be added to the register before the shifts. -/
theorem serial_bits (count : Nat) (register word : BitVec width)
    (clear : ∀ index, count ≤ index → word.getLsbD index = false) :
    serial polynomial register ((List.range count).map word.getLsbD) =
      (shift polynomial)^[count] (register ^^^ word) := by
  induction count generalizing register word with
  | zero =>
    have zero : word = BitVec.ofNat width 0 := by
      apply BitVec.eq_of_getLsbD_eq
      intro index _
      rw [clear index (Nat.zero_le index), BitVec.getLsbD_zero]
    rw [zero, BitVec.xor_zero]
    rfl
  | succ count rest =>
    have bits : (List.range (count + 1)).map word.getLsbD =
        word.getLsbD 0 :: (List.range count).map (word >>> 1).getLsbD := by
      rw [List.range_succ_eq_map, List.map_cons, List.map_map]
      congr 1
      apply List.map_congr_left
      intro index _
      rw [BitVec.getLsbD_ushiftRight, Nat.add_comm]
      rfl
    have above : ∀ index, count ≤ index → (word >>> 1).getLsbD index = false := by
      intro index beyond
      rw [BitVec.getLsbD_ushiftRight]
      exact clear (1 + index) (by omega)
    have first : shiftIn polynomial register (word.getLsbD 0) ^^^ (word >>> 1) =
        shift polynomial (register ^^^ word) := by
      rw [shiftIn, shift, BitVec.getLsbD_xor, BitVec.ushiftRight_xor_distrib]
      by_cases feedback : (register.getLsbD 0 ^^ word.getLsbD 0) = true
      · rw [if_pos feedback, if_pos feedback, BitVec.xor_assoc]
      · rw [if_neg feedback, if_neg feedback]
    rw [bits, serial, List.foldl_cons, ← serial, rest _ _ above, first, Function.iterate_succ_apply]

end Bethkit.Lib.Crc
