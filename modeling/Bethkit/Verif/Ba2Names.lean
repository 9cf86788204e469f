import Bethkit.Lib.Outcome
import Bethkit.Spec.Ba2Bounds

/-!
# The name tables of BA2 archives

From an offset that fits, a name table is read or refused as its bytes say. The data of a file is
read from an offset that fits, and refused behind the end of the file.
-/

namespace Bethkit

open Lib

/-- A slice of a slice. -/
theorem Bytes.slice_slice (bytes : Bytes) {start stop : Nat} (from_ : Nat) {to_ : Nat}
    (inside : start + to_ ≤ stop) :
    Bytes.slice (Bytes.slice bytes start stop) from_ to_ =
      Bytes.slice bytes (start + from_) (start + to_) := by
  unfold Bytes.slice
  rw [List.drop_take, List.drop_drop, List.take_take]
  congr 1
  omega

/-- A byte of a slice. -/
theorem Bytes.getD_slice (bytes : Bytes) {start stop index : Nat} (inside : start + index < stop) :
    (Bytes.slice bytes start stop).getD index 0 = bytes.getD (start + index) 0 := by
  unfold Bytes.slice
  rw [List.getD_eq_getElem?_getD, List.getD_eq_getElem?_getD, List.getElem?_take_of_lt (by omega),
    List.getElem?_drop]

/-- A sum that fits. -/
theorem addUsize_eq {left right : Nat} (fits : left + right < 2 ^ 64) :
    addUsize left right = .ok (left + right) := if_pos fits

/-- A sum that does not fit. -/
theorem addUsize_overflow {left right : Nat} (large : 2 ^ 64 ≤ left + right) :
    addUsize left right = .error .overflow := if_neg (Nat.not_lt.mpr large)

/-- A slice that is in range. -/
theorem indexRange_eq {bytes : Bytes} {start stop : Nat} (ordered : start ≤ stop)
    (inside : stop ≤ bytes.length) :
    indexRange bytes start stop = .ok (Bytes.slice bytes start stop) := if_pos ⟨ordered, inside⟩

namespace Ba2

variable {errors : NameTableErrors} {bytes : Bytes}

/-- From an offset that fits, the names are those that are stored, or the table is refused. -/
theorem parseNameTableLoop_spec (short : bytes.length < 2 ^ 63) (count i : Nat) {pos : Nat}
    (fits : count ≠ 0 → pos + 2 < 2 ^ 64) :
    (∃ names, storedNames count (bytes.drop pos) = some names ∧
      parseNameTableLoop errors bytes count i pos = .ok names) ∨
    (storedNames count (bytes.drop pos) = none ∧
      ∃ message, parseNameTableLoop errors bytes count i pos = .error (.corrupt message)) := by
  induction count generalizing i pos with
  | zero => exact .inl ⟨[], rfl, rfl⟩
  | succ count ih =>
    have start := addUsize_eq (fits (Nat.succ_ne_zero count))
    by_cases outside : bytes.length < pos + 2
    · refine .inr ⟨?_, errors.length i pos, ?_⟩
      · have few : ¬2 ≤ (bytes.drop pos).length := by
          rw [List.length_drop]
          omega
        rw [storedNames]
        exact if_neg fun all => few all.2.1
      · simp only [parseNameTableLoop, start, ok_bind, if_pos outside]
    · have field := indexRange_eq (Nat.le_add_right pos 2) (Nat.le_of_not_lt outside)
      have word : Bytes.slice bytes pos (pos + 2) = (bytes.drop pos).take 2 := by
        rw [Bytes.slice, Nat.add_sub_cancel_left]
      have small := (u16FromLeBytes ((bytes.drop pos).take 2)).toNat_lt
      have stop := @addUsize_eq (pos + 2) (u16FromLeBytes ((bytes.drop pos).take 2)).toNat (by omega)
      have length : (bytes.drop pos).length = bytes.length - pos := List.length_drop
      by_cases beyond :
          bytes.length < pos + 2 + (u16FromLeBytes ((bytes.drop pos).take 2)).toNat
      · refine .inr ⟨?_, errors.string i, ?_⟩
        · rw [storedNames]
          exact if_neg fun all => by omega
        · simp only [parseNameTableLoop, start, ok_bind, if_neg outside, field, word, stop,
            if_pos beyond]
      · have raw := indexRange_eq (Nat.le_add_right (pos + 2) _) (Nat.le_of_not_lt beyond)
        have name : Bytes.slice bytes (pos + 2)
            (pos + 2 + (u16FromLeBytes ((bytes.drop pos).take 2)).toNat) =
            ((bytes.drop pos).drop 2).take (u16FromLeBytes ((bytes.drop pos).take 2)).toNat := by
          rw [Bytes.slice, Nat.add_sub_cancel_left, List.drop_drop]
        cases text : (strFromUtf8 (((bytes.drop pos).drop 2).take
            (u16FromLeBytes ((bytes.drop pos).take 2)).toNat)).isSome with
        | false =>
          refine .inr ⟨?_, errors.utf8 i, ?_⟩
          · rw [storedNames]
            exact if_neg fun all => Bool.false_ne_true (text.symm.trans all.2.2)
          · simp only [parseNameTableLoop, start, ok_bind, if_neg outside, field, word, stop,
              if_neg beyond, raw, name, strFromUtf8Or, text, Bool.false_eq_true, ↓reduceIte,
              error_bind]
        | true =>
          have all : 2 + (u16FromLeBytes ((bytes.drop pos).take 2)).toNat ≤ (bytes.drop pos).length ∧
              2 ≤ (bytes.drop pos).length ∧ (strFromUtf8 (((bytes.drop pos).drop 2).take
                (u16FromLeBytes ((bytes.drop pos).take 2)).toNat)).isSome = true :=
            ⟨by omega, by omega, text⟩
          have behind : (bytes.drop pos).drop (2 + (u16FromLeBytes ((bytes.drop pos).take 2)).toNat) =
              bytes.drop (pos + 2 + (u16FromLeBytes ((bytes.drop pos).take 2)).toNat) := by
            rw [List.drop_drop, Nat.add_assoc]
          have room : count ≠ 0 →
              pos + 2 + (u16FromLeBytes ((bytes.drop pos).take 2)).toNat + 2 < 2 ^ 64 :=
            fun _ => by omega
          have further := ih (i + 1) room
          have step : parseNameTableLoop errors bytes (count + 1) i pos = (do
              let names ← parseNameTableLoop errors bytes count (i + 1)
                (pos + 2 + (u16FromLeBytes ((bytes.drop pos).take 2)).toNat)
              pure (((bytes.drop pos).drop 2).take
                (u16FromLeBytes ((bytes.drop pos).take 2)).toNat :: names)) := by
            simp only [parseNameTableLoop, start, ok_bind, if_neg outside, field, word, stop,
              if_neg beyond, raw, name, strFromUtf8Or, text, ↓reduceIte]
          rw [step, storedNames, if_pos all, behind]
          rcases further with ⟨names, stored, parsed⟩ | ⟨stored, message, parsed⟩
          · exact .inl ⟨_, by rw [stored]; rfl, by rw [parsed]; rfl⟩
          · exact .inr ⟨by rw [stored]; rfl, message, by rw [parsed]; rfl⟩

/-- The name table is read where it fits, or refused. -/
theorem parseNameTable_spec (short : bytes.length < 2 ^ 63) {start count : Nat}
    (fits : count ≠ 0 → start + 2 < 2 ^ 64) :
    (∃ names, storedNames count (bytes.drop start) = some names ∧
      parseNameTable errors bytes start count = .ok names) ∨
    (storedNames count (bytes.drop start) = none ∧
      ∃ message, parseNameTable errors bytes start count = .error (.corrupt message)) :=
  parseNameTableLoop_spec short count 0 fits

/-- A name table whose offset does not fit overflows. -/
theorem parseNameTable_overflow {start count : Nat} (some : count ≠ 0) (large : 2 ^ 64 ≤ start + 2) :
    parseNameTable errors bytes start count = .error .overflow := by
  obtain ⟨rest, rfl⟩ := Nat.exists_eq_succ_of_ne_zero some
  simp only [parseNameTable, parseNameTableLoop, addUsize_overflow large, error_bind]

/-- As many names are stored as are asked for. -/
theorem length_storedNames {count : Nat} {names : List Bytes}
    (stored : storedNames count bytes = some names) : names.length = count := by
  induction count generalizing bytes names with
  | zero =>
    obtain rfl : [] = names := Option.some.inj stored
    rfl
  | succ count ih =>
    unfold storedNames at stored
    dsimp only at stored
    split at stored
    · obtain ⟨rest, found, rfl⟩ := Option.map_eq_some_iff.mp stored
      rw [List.length_cons, ih found]
    · contradiction

variable {codecs : ArchiveCodecs} {offset : UInt64} {packedSize size : UInt32}
  {packedError plainError : Nat → Nat → String}

/-- Data at an offset that fits is read or refused, as it stands in the file and can be inflated. -/
theorem readStored_spec (fits : offset.toNat + storedSize packedSize size < 2 ^ 64) :
    (offset.toNat + storedSize packedSize size ≤ bytes.length ∧
      readStored codecs bytes offset packedSize size packedError plainError =
        if packedSize ≠ 0 then
          (codecs.decompressZlib (Bytes.slice bytes offset.toNat
            (offset.toNat + storedSize packedSize size)) size.toNat).mapError .io
        else .ok (Bytes.slice bytes offset.toNat (offset.toNat + storedSize packedSize size))) ∨
    (bytes.length < offset.toNat + storedSize packedSize size ∧ ∃ message,
      readStored codecs bytes offset packedSize size packedError plainError =
        .error (.corrupt message)) := by
  by_cases packed : packedSize ≠ 0
  · have length : storedSize packedSize size = packedSize.toNat := if_pos packed
    rw [length] at fits ⊢
    by_cases outside : bytes.length < offset.toNat + packedSize.toNat
    · refine .inr ⟨outside, packedError offset.toNat (offset.toNat + packedSize.toNat), ?_⟩
      simp only [readStored, if_pos packed, addUsize_eq fits, ok_bind, if_pos outside]
    · refine .inl ⟨Nat.le_of_not_lt outside, ?_⟩
      simp only [readStored, if_pos packed, addUsize_eq fits, ok_bind, if_neg outside,
        indexRange_eq (Nat.le_add_right offset.toNat _) (Nat.le_of_not_lt outside)]
  · have length : storedSize packedSize size = size.toNat := if_neg packed
    rw [length] at fits ⊢
    by_cases outside : bytes.length < offset.toNat + size.toNat
    · refine .inr ⟨outside, plainError offset.toNat (offset.toNat + size.toNat), ?_⟩
      simp only [readStored, if_neg packed, addUsize_eq fits, ok_bind, if_pos outside]
    · refine .inl ⟨Nat.le_of_not_lt outside, ?_⟩
      simp only [readStored, if_neg packed, addUsize_eq fits, ok_bind, if_neg outside,
        indexRange_eq (Nat.le_add_right offset.toNat _) (Nat.le_of_not_lt outside)]

/-- Data at an offset that fits is never a fault. -/
theorem isFault_readStored (fits : offset.toNat + storedSize packedSize size < 2 ^ 64)
    {error : BsaError} (failed :
      readStored codecs bytes offset packedSize size packedError plainError = .error error) :
    error.isFault = false := by
  rcases readStored_spec fits with ⟨_, result⟩ | ⟨_, message, result⟩
  · rw [failed] at result
    split at result
    · obtain ⟨cause, _, rfl⟩ := mapError_eq_error.mp result.symm
      rfl
    · contradiction
  · rw [failed] at result
    obtain rfl := Except.error.inj result
    rfl

/-- Data at an offset that does not fit overflows. -/
theorem readStored_overflow (large : 2 ^ 64 ≤ offset.toNat + storedSize packedSize size) :
    readStored codecs bytes offset packedSize size packedError plainError = .error .overflow := by
  by_cases packed : packedSize ≠ 0
  · rw [storedSize, if_pos packed] at large
    simp only [readStored, if_pos packed, addUsize_overflow large, error_bind]
  · rw [storedSize, if_neg packed] at large
    simp only [readStored, if_neg packed, addUsize_overflow large, error_bind]

end Ba2

end Bethkit
