import Bethkit.Archive.Types

/-!
# Morrowind archives

A flat list of files that are never compressed.
-/

namespace Bethkit

open Lib

namespace Tes3

/-- The first bytes of a Morrowind archive. -/
def magic : Bytes := [0x00, 0x01, 0x00, 0x00]

/-- Where the data of one file stands. -/
structure Tes3Record where
  /-- Offset from the start of the file data. -/
  dataOffset : UInt32
  /-- Size of the file data. -/
  size : UInt32

/-- A parsed Morrowind archive. -/
structure Tes3Archive where
  /-- The bytes of the file. -/
  source : Bytes
  /-- The listed files. -/
  entries : List ArchiveEntry
  /-- Where their data stands. -/
  records : List Tes3Record
  /-- Entries by path. -/
  index : Std.HashMap Bytes Nat
  /-- Where the file data begins. -/
  dataStart : Nat

/-- Read the size and the offset of a file. -/
def readSizeAndOffset : Reader IoError (UInt32 × UInt32) := do
  let size ← SliceCursor.readU32
  let offset ← SliceCursor.readU32
  pure (size, offset)

/-- Read a name with its NUL. Without one, the name ends before the last byte of the file; at the
end of the file, the source takes a slice that ends before it starts. -/
def readName : Reader BsaError Bytes := fun cursor =>
  let rest := cursor.data.drop cursor.pos
  let name := rest.takeWhile (· ≠ 0)
  if rest.isEmpty then .error .outOfRange
  else
    let raw := if name.length < rest.length then name else rest.dropLast
    let next := min (cursor.pos + name.length + 1) cursor.data.length
    (strFromUtf8Or "non-UTF-8 file name" raw).map fun name => (normalisePath name, ⟨cursor.data, next⟩)

/-- What a Morrowind archive says about its files. -/
structure Listing where
  /-- Where the hashes stand. -/
  hashOffset : UInt32
  /-- Number of files. -/
  fileCount : UInt32
  /-- Sizes and offsets of the files. -/
  sizes : List (UInt32 × UInt32)
  /-- Names of the files. -/
  names : List Bytes

/-- Read the header, the sizes, the offsets and the names. -/
def readListing : Reader BsaError Listing := do
  let _ ← archiveIo (SliceCursor.readArray 4)
  let hashOffset ← archiveIo SliceCursor.readU32
  let fileCount ← archiveIo SliceCursor.readU32
  let sizes ← archiveIo (readSizeAndOffset.times fileCount.toNat)
  -- the name offsets are present but not needed
  let _ ← archiveIo (SliceCursor.readU32.times fileCount.toNat)
  let names ← readName.times fileCount.toNat
  pure ⟨hashOffset, fileCount, sizes, names⟩

/-- Parse a Morrowind archive. -/
def Tes3Archive.parse (source : Bytes) : Except BsaError Tes3Archive := do
  let parsed ← readListing (SliceCursor.new source)
  let listing := parsed.1
  let entries := (listing.sizes.zip listing.names).map fun file =>
    { path := file.2, uncompressedSize := file.1.1, compressedSize := none }
  pure {
    source := source
    entries := entries
    records := listing.sizes.map fun file => ⟨file.2, file.1⟩
    index := indexEntries entries
    dataStart := 8 + listing.hashOffset.toNat + 8 * listing.fileCount.toNat }

/-- The bytes of the file at an index. -/
def Tes3Archive.extractByIndex (archive : Tes3Archive) (idx : Nat) : Except BsaError Bytes :=
  match archive.records[idx]? with
  | none => .error .outOfRange
  | some record =>
    let start := archive.dataStart + record.dataOffset.toNat
    let stop := start + record.size.toNat
    if archive.source.length < stop then
      .error (.corrupt s!"TES3 file data out of bounds at offset {start}")
    else .ok (Bytes.slice archive.source start stop)

/-- The index of a path. -/
def Tes3Archive.find (archive : Tes3Archive) (path : Bytes) : Option Nat :=
  archive.index[normalisePath path]?

end Tes3

end Bethkit
