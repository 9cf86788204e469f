import Bethkit.Core.Cursor
import Bethkit.Lib.Reader

/-!
# Archive entries

What all archive formats share: errors, normalised paths, entries and the compression libraries. A
Rust string of this crate is its UTF-8 bytes, because the code takes all paths apart byte by byte.
-/

namespace Bethkit

open Lib

/-- Errors of `bethkit-bsa`. -/
inductive BsaError where
  /-- An error of the I/O or decompression layer. -/
  | io (error : IoError)
  /-- An unknown magic number. -/
  | invalidMagic (got : Bytes)
  /-- An unsupported version. -/
  | unsupportedVersion (version : UInt32)
  /-- An unsupported kind of texture or file archive. -/
  | unsupportedSubType (subType : Bytes)
  /-- An inconsistent header or data structure. -/
  | corrupt (message : String)
  /-- An archive without files cannot be written. -/
  | emptyArchive
  /-- A texture that is malformed or has an unknown pixel format. -/
  | invalidDds (message : String)
  /-- A texture with a DXGI format that cannot be written. -/
  | unsupportedDxgiFormat (format : UInt8)
  /-- An error of a compression library. -/
  | writeIo (message : String)
  /-- No error of the source: a slice or an index out of range, where the source panics. -/
  | outOfRange
  /-- No error of the source: an addition that does not fit its type. -/
  | overflow

/-- A 64-bit word in its little-endian bytes. -/
def u64ToLeBytes (word : UInt64) : Bytes := leBytes 8 word.toNat

/-- `u64::from_le_bytes`, and the bits of `i64::from_le_bytes`. -/
def u64FromLeBytes (bytes : Bytes) : UInt64 := UInt64.ofNat (leValue bytes)

/-- `usize` addition of an offset and a length of the file. -/
def addUsize (left right : Nat) : Except BsaError Nat :=
  if left + right < 2 ^ 64 then .ok (left + right) else .error .overflow

/-- `bytes[start..stop]`. -/
def indexRange (bytes : Bytes) (start stop : Nat) : Except BsaError Bytes :=
  if start ≤ stop ∧ stop ≤ bytes.length then .ok (Bytes.slice bytes start stop)
  else .error .outOfRange

/-- `to_ascii_lowercase` of a byte. -/
def byteToAsciiLowercase (byte : UInt8) : UInt8 :=
  if 65 ≤ byte ∧ byte ≤ 90 then byte + 32 else byte

/-- The UTF-8 bytes of `char::from` of a byte. -/
def charFromByte (byte : UInt8) : Bytes :=
  if byte < 128 then [byte]
  else [(0xC0 : UInt8) ||| (byte >>> 6), (0x80 : UInt8) ||| (byte &&& 0x3F)]

/-- A path in lower case with forward slashes. -/
def normalisePath (path : Bytes) : Bytes :=
  path.flatMap fun byte => charFromByte (if byte = 92 then 47 else byteToAsciiLowercase byte)

/-- `rsplit_once` at a byte: what stands before and behind its last occurrence. -/
def strRsplitOnce (byte : UInt8) : Bytes → Option (Bytes × Bytes)
  | [] => none
  | first :: rest =>
    match strRsplitOnce byte rest with
    | some (before, behind) => some (first :: before, behind)
    | none => if first = byte then some ([], rest) else none

/-- `str::from_utf8`, with an error of the archive. -/
def strFromUtf8Or (message : String) (bytes : Bytes) : Except BsaError Bytes :=
  if (strFromUtf8 bytes).isSome then .ok bytes else .error (.corrupt message)

/-- Metadata of one file of an archive. -/
structure ArchiveEntry where
  /-- Normalised path. -/
  path : Bytes
  /-- Uncompressed size. -/
  uncompressedSize : UInt32
  /-- Stored size, if the file is compressed. -/
  compressedSize : Option UInt32

/-- The index of an archive: the last entry with a path is the one that is found. -/
def indexEntries (entries : List ArchiveEntry) : Std.HashMap Bytes Nat :=
  entries.zipIdx.foldl (fun index entry => index.insert entry.1.path entry.2) ∅

/-- The compression libraries. -/
structure ArchiveCodecs where
  /-- zlib compression at the default level. -/
  compressZlib : Bytes → Except BsaError Bytes
  /-- LZ4 frame compression. -/
  compressLz4Frame : Bytes → Except BsaError Bytes
  /-- zlib decompression; the expected size is only a hint. -/
  decompressZlib : Bytes → Nat → Except IoError Bytes
  /-- LZ4 frame decompression; the expected size is only a hint. -/
  decompressLz4Frame : Bytes → Nat → Except IoError Bytes

/-- Read one byte. -/
def readU8 : Reader IoError UInt8 := (fun bytes => bytes.val.headD 0) <$> SliceCursor.readArray 1

/-- `?` on a cursor operation: an I/O error becomes an archive error. -/
def archiveIo {α : Type} (reader : Reader IoError α) : Reader BsaError α := reader.mapError .io

end Bethkit
