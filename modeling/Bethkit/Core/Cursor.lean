import Bethkit.Core.Types

/-!
# The slice cursor

`SliceCursor` is the primitive of every parser. All reads are little-endian and bounds-checked.
Each read comes with the grammar it accepts exactly.
-/

namespace Bethkit

open Lib

/-- A position-tracking cursor over a byte slice. -/
abbrev SliceCursor : Type := Cursor

namespace SliceCursor

/-- A cursor at the start of `data`. -/
def new (data : Bytes) : SliceCursor := ⟨data, 0⟩

/-- Whether no bytes remain. -/
def isEmpty (cursor : SliceCursor) : Bool := decide (cursor.data.length ≤ cursor.pos)

/-- The next `count` bytes, if there are that many. -/
def peekBytes (count : Nat) (cursor : SliceCursor) : Option Bytes :=
  Bytes.get cursor.data cursor.pos (cursor.pos + count)

/-- Read exactly `count` bytes into an array. -/
def readArray (count : Nat) : Reader IoError (Fixed count) := Reader.take count .unexpectedEof

/-- Read a sub-slice of `length` bytes. -/
def readSlice (length : Nat) : Reader IoError Bytes := Subtype.val <$> readArray length

/-- Read a little-endian `u16`. -/
def readU16 : Reader IoError UInt16 := (fun bytes => u16FromLeBytes bytes.val) <$> readArray 2

/-- Read a little-endian `u32`. -/
def readU32 : Reader IoError UInt32 := (fun bytes => u32FromLeBytes bytes.val) <$> readArray 4

/-- Read a little-endian `i32`. -/
def readI32 : Reader IoError Int32 := (fun bytes => i32FromLeBytes bytes.val) <$> readArray 4

/-- An array is read as its bytes. -/
theorem exact_readArray (count : Nat) :
    (readArray count).Exact (fun _ bytes found => bytes = found.val) :=
  Reader.exact_take count _

/-- A slice is read as itself when it has the requested length. -/
theorem exact_readSlice (length : Nat) :
    (readSlice length).Exact (fun _ bytes found => bytes = found ∧ found.length = length) := by
  refine (exact_readArray length).map Subtype.val |>.congr ?_
  intro start bytes found
  constructor
  · rintro ⟨value, rfl, rfl⟩
    exact ⟨rfl, value.property⟩
  · rintro ⟨rfl, sized⟩
    exact ⟨⟨bytes, sized⟩, rfl, rfl⟩

/-- A word is read from its little-endian bytes. -/
theorem exact_readU16 : readU16.Exact (fun _ bytes found => bytes = u16ToLeBytes found) := by
  refine (exact_readArray 2).map _ |>.congr ?_
  intro start bytes found
  constructor
  · rintro ⟨value, rfl, rfl⟩
    exact (u16ToLeBytes_fromLeBytes value.val value.property).symm
  · rintro rfl
    exact ⟨⟨u16ToLeBytes found, by simp⟩, rfl, by simp⟩

/-- A word is read from its little-endian bytes. -/
theorem exact_readU32 : readU32.Exact (fun _ bytes found => bytes = u32ToLeBytes found) := by
  refine (exact_readArray 4).map _ |>.congr ?_
  intro start bytes found
  constructor
  · rintro ⟨value, rfl, rfl⟩
    exact (u32ToLeBytes_fromLeBytes value.val value.property).symm
  · rintro rfl
    exact ⟨⟨u32ToLeBytes found, by simp⟩, rfl, by simp⟩

/-- A signed word is read from its little-endian bytes. -/
theorem exact_readI32 : readI32.Exact (fun _ bytes found => bytes = i32ToLeBytes found) := by
  refine (exact_readArray 4).map _ |>.congr ?_
  intro start bytes found
  constructor
  · rintro ⟨value, rfl, rfl⟩
    exact (i32ToLeBytes_fromLeBytes value.val value.property).symm
  · rintro rfl
    exact ⟨⟨i32ToLeBytes found, by simp⟩, rfl, by simp⟩

/-- Looking ahead sees the first bytes after the cursor. -/
theorem peekBytes_append (count : Nat) (before rest : Bytes) :
    peekBytes count ⟨before ++ rest, before.length⟩ =
      if count ≤ rest.length then some (rest.take count) else none := by
  simp [peekBytes, Bytes.get, Bytes.slice]

/-- A cursor inside its input is empty exactly when nothing follows it. -/
theorem isEmpty_append (before rest : Bytes) :
    isEmpty ⟨before ++ rest, before.length⟩ = rest.isEmpty := by
  cases rest <;> simp [isEmpty]

end SliceCursor

/-- `?` on a cursor operation: an I/O error becomes a core error. -/
def io {α : Type} (reader : Reader IoError α) : Reader CoreError α := reader.mapError .io

/-- The conversion of errors does not change what is read. -/
theorem exact_io {α : Type} {reader : Reader IoError α} {grammar : Grammar α}
    (exact : reader.Exact grammar) : (io reader).Exact grammar := exact.mapError CoreError.io

end Bethkit
