import Bethkit.Lib.LittleEndian
import Bethkit.Lib.Reader

/-!
# Bytes and machine words

Byte vectors and slices are lists of bytes, a fixed-size array carries its length, and the
integers of the file format are Lean's machine words with the little-endian conversions of the
source (`to_le_bytes`, `from_le_bytes`). A `usize` offset is a natural number: slices are
shorter than `2^63` bytes, so no offset sum of the modelled code reaches the word size.
-/

namespace Bethkit

open Lib

/-- A byte vector or a byte slice. -/
abbrev Bytes : Type := List UInt8

/-- `u16::to_le_bytes`. -/
def u16ToLeBytes (word : UInt16) : Bytes := leBytes 2 word.toNat

/-- `u32::to_le_bytes`. -/
def u32ToLeBytes (word : UInt32) : Bytes := leBytes 4 word.toNat

/-- `i32::to_le_bytes`: the bytes of the two's complement word. -/
def i32ToLeBytes (word : Int32) : Bytes := u32ToLeBytes word.toUInt32

/-- `u16::from_le_bytes`. -/
def u16FromLeBytes (bytes : Bytes) : UInt16 := UInt16.ofNat (leValue bytes)

/-- `u32::from_le_bytes`. -/
def u32FromLeBytes (bytes : Bytes) : UInt32 := UInt32.ofNat (leValue bytes)

/-- `i32::from_le_bytes`. -/
def i32FromLeBytes (bytes : Bytes) : Int32 := (u32FromLeBytes bytes).toInt32

/-- A 16-bit word occupies two bytes. -/
@[simp]
theorem length_u16ToLeBytes (word : UInt16) : (u16ToLeBytes word).length = 2 := by
  simp [u16ToLeBytes]

/-- A 32-bit word occupies four bytes. -/
@[simp]
theorem length_u32ToLeBytes (word : UInt32) : (u32ToLeBytes word).length = 4 := by
  simp [u32ToLeBytes]

/-- A signed 32-bit word occupies four bytes. -/
@[simp]
theorem length_i32ToLeBytes (word : Int32) : (i32ToLeBytes word).length = 4 := by
  simp [i32ToLeBytes]

/-- A written 16-bit word is read back. -/
@[simp]
theorem u16FromLeBytes_toLeBytes (word : UInt16) : u16FromLeBytes (u16ToLeBytes word) = word := by
  apply UInt16.toNat_inj.mp
  have small := word.toNat_lt
  simp only [u16FromLeBytes, u16ToLeBytes, leValue_leBytes, UInt16.toNat_ofNat']
  omega

/-- A written 32-bit word is read back. -/
@[simp]
theorem u32FromLeBytes_toLeBytes (word : UInt32) : u32FromLeBytes (u32ToLeBytes word) = word := by
  apply UInt32.toNat_inj.mp
  have small := word.toNat_lt
  simp only [u32FromLeBytes, u32ToLeBytes, leValue_leBytes, UInt32.toNat_ofNat']
  omega

/-- A written signed 32-bit word is read back. -/
@[simp]
theorem i32FromLeBytes_toLeBytes (word : Int32) : i32FromLeBytes (i32ToLeBytes word) = word := by
  simp [i32FromLeBytes, i32ToLeBytes]

/-- Two bytes are the encoding of the word read from them. -/
theorem u16ToLeBytes_fromLeBytes (bytes : Bytes) (length : bytes.length = 2) :
    u16ToLeBytes (u16FromLeBytes bytes) = bytes := by
  have small := leValue_lt bytes
  rw [length] at small
  have word : (u16FromLeBytes bytes).toNat = leValue bytes := by
    rw [u16FromLeBytes, UInt16.toNat_ofNat']
    omega
  rw [u16ToLeBytes, word, ← length, leBytes_leValue]

/-- Four bytes are the encoding of the word read from them. -/
theorem u32ToLeBytes_fromLeBytes (bytes : Bytes) (length : bytes.length = 4) :
    u32ToLeBytes (u32FromLeBytes bytes) = bytes := by
  have small := leValue_lt bytes
  rw [length] at small
  have word : (u32FromLeBytes bytes).toNat = leValue bytes := by
    rw [u32FromLeBytes, UInt32.toNat_ofNat']
    omega
  rw [u32ToLeBytes, word, ← length, leBytes_leValue]

/-- Four bytes are the encoding of the signed word read from them. -/
theorem i32ToLeBytes_fromLeBytes (bytes : Bytes) (length : bytes.length = 4) :
    i32ToLeBytes (i32FromLeBytes bytes) = bytes := by
  simp [i32FromLeBytes, i32ToLeBytes, u32ToLeBytes_fromLeBytes bytes length]

/-- `str::as_bytes`. -/
def strAsBytes (text : String) : Bytes := text.toUTF8.data.toList

/-- `str::from_utf8`. -/
def strFromUtf8 (bytes : Bytes) : Option String := String.fromUTF8? ⟨bytes.toArray⟩

/-- The bytes of a string are valid UTF-8 and denote that string. -/
@[simp]
theorem strFromUtf8_asBytes (text : String) : strFromUtf8 (strAsBytes text) = some text := by
  simp only [strFromUtf8, strAsBytes, Array.toArray_toList, String.toUTF8_eq_toByteArray]
  exact dif_pos text.isValidUTF8

/-- Strings with the same bytes are the same. -/
theorem strAsBytes_injective : Function.Injective strAsBytes := by
  intro left right same
  have both := strFromUtf8_asBytes left
  rw [same, strFromUtf8_asBytes] at both
  exact (Option.some.inj both).symm

/-- An ASCII character is encoded as one byte. -/
theorem utf8EncodeChar_ascii : ∀ code < 128,
    String.utf8EncodeChar (Char.ofNat code) = [UInt8.ofNat code] := by decide

/-- Only NUL is encoded with a last byte of zero. -/
theorem getLast_utf8EncodeChar {char : Char} (visible : char ≠ '\x00') :
    (String.utf8EncodeChar char).getLast? ≠ some 0 := by
  have positive : char.val.toNat ≠ 0 := fun zero =>
    visible (Char.ext (UInt32.toNat_inj.mp zero))
  have tail (value : Nat) : UInt8.ofNat (value % 64 + 128) ≠ 0 := by
    intro zero
    have same := congrArg UInt8.toNat zero
    rw [UInt8.toNat_ofNat'] at same
    change (value % 64 + 128) % 256 = 0 at same
    omega
  unfold String.utf8EncodeChar
  dsimp only
  split
  · rename_i small
    rw [List.getLast?_singleton]
    intro zero
    have same := congrArg UInt8.toNat (Option.some.inj zero)
    rw [UInt8.toNat_ofNat'] at same
    change char.val.toNat % 256 = 0 at same
    omega
  · split
    · simpa using tail _
    · split
      · simpa using tail _
      · simpa using tail _

/-- What is left of a string without the zeros at its end is a string. -/
theorem exists_text_rdropWhile (text : String) :
    ∃ shown, (strAsBytes text).rdropWhile (· == 0) = strAsBytes shown := by
  have bytes (chars : List Char) : strAsBytes (String.ofList chars) =
      chars.flatMap String.utf8EncodeChar := by
    simp [strAsBytes, List.utf8Encode]
  have each (chars : List Char) : ∃ shown,
      (chars.flatMap String.utf8EncodeChar).rdropWhile (· == 0) = strAsBytes shown := by
    induction chars using List.reverseRecOn with
    | nil => exact ⟨"", by simp [strAsBytes]⟩
    | append_singleton chars char ih =>
      by_cases visible : char = '\x00'
      · have zero : String.utf8EncodeChar char = [0] := by
          rw [visible]
          decide
        rw [List.flatMap_append, List.flatMap_singleton, zero, List.rdropWhile_concat_pos _ _ _ rfl]
        exact ih
      · refine ⟨String.ofList (chars ++ [char]), ?_⟩
        rw [bytes, List.rdropWhile_eq_self_iff]
        intro nonempty last
        have shown := getLast_utf8EncodeChar visible
        have ended : ((chars ++ [char]).flatMap String.utf8EncodeChar).getLast? = some 0 := by
          rw [List.getLast?_eq_some_getLast nonempty]
          exact congrArg some (by simpa using last)
        rw [List.flatMap_append, List.flatMap_singleton, List.getLast?_append] at ended
        cases inner : (String.utf8EncodeChar char).getLast? with
        | none => exact String.utf8EncodeChar_ne_nil (List.getLast?_eq_none_iff.mp inner)
        | some byte =>
          rw [inner, Option.some_or] at ended
          exact shown (inner.trans ended)
  obtain ⟨shown, same⟩ := each text.toList
  exact ⟨shown, by rw [← same, ← bytes, String.ofList_toList]⟩

/-- ASCII bytes are the bytes of a string. -/
theorem exists_text_of_ascii (bytes : Bytes) (ascii : ∀ byte ∈ bytes, byte.toNat < 128) :
    ∃ text, strAsBytes text = bytes := by
  have chars : bytes.flatMap (fun byte => String.utf8EncodeChar (Char.ofNat byte.toNat)) = bytes := by
    induction bytes with
    | nil => rfl
    | cons byte bytes ih =>
      rw [List.flatMap_cons, ih fun other found => ascii other (List.mem_cons_of_mem _ found),
        utf8EncodeChar_ascii _ (ascii byte List.mem_cons_self), UInt8.ofNat_toNat]
      rfl
  refine ⟨String.ofList (bytes.map fun byte => Char.ofNat byte.toNat), ?_⟩
  simp [strAsBytes, List.utf8Encode, List.flatMap_map, chars]

/-- `data[start..stop]` for a range inside the slice. -/
def Bytes.slice (data : Bytes) (start stop : Nat) : Bytes := (data.drop start).take (stop - start)

/-- `data.get(start..stop)`: nothing when the range is reversed or ends outside the slice. -/
def Bytes.get (data : Bytes) (start stop : Nat) : Option Bytes :=
  if start ≤ stop ∧ stop ≤ data.length then some (data.slice start stop) else none

/-- The middle of a byte string is the slice between its ends. -/
theorem Bytes.slice_append (before middle after : Bytes) :
    Bytes.slice (before ++ (middle ++ after)) before.length (before.length + middle.length) =
      middle := by
  simp [Bytes.slice]

/-- The middle of a byte string is found at the range between its ends. -/
theorem Bytes.get_append (before middle after : Bytes) :
    Bytes.get (before ++ (middle ++ after)) before.length (before.length + middle.length) =
      some middle := by
  have inside : before.length ≤ before.length + middle.length ∧
      before.length + middle.length ≤ (before ++ (middle ++ after)).length := by
    simp only [List.length_append]
    omega
  simp only [Bytes.get, inside, and_self, ↓reduceIte, Bytes.slice_append]

/-- `char::is_whitespace`. -/
def charIsWhitespace (char : Char) : Bool :=
  let code := char.toNat
  (9 ≤ code && code ≤ 13) || code = 32 || code = 0x85 || code = 0xA0 || code = 0x1680 ||
    (0x2000 ≤ code && code ≤ 0x200A) || code = 0x2028 || code = 0x2029 || code = 0x202F ||
    code = 0x205F || code = 0x3000

/-- `str::trim`. -/
def strTrim (text : String) : String :=
  String.ofList ((text.toList.dropWhile charIsWhitespace).rdropWhile charIsWhitespace)

end Bethkit
