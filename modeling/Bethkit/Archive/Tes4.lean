import Bethkit.Archive.Types

/-!
# Oblivion, Fallout and Skyrim archives

The three versions share one layout: a header, folder records, one block of file records for each
folder, a table of file names and the file data. The reader follows the layout from front to back
and ignores the offsets of the folder records.
-/

namespace Bethkit

open Lib

/-- Archive flag: files are compressed by default. -/
def archiveFlagCompress : UInt32 := 0x0004

/-- Archive flag: a file name stands before the data of each file. -/
def archiveFlagEmbedname : UInt32 := 0x0100

/-- `ArchiveFlags::from_bits_truncate`. -/
def archiveFlagsFromBitsTruncate (bits : UInt32) : UInt32 := bits &&& 0x03FF

/-- The bit of a size that inverts the default of the archive. -/
def fileCompressBit : UInt32 := 0x40000000

namespace Tes4

/-- The first bytes of an archive of this family. -/
def magic : Bytes := [0x42, 0x53, 0x41, 0x00]

/-- Which version is stored. -/
inductive BsaVersion where
  /-- Oblivion. -/
  | tes4
  /-- Fallout 3, New Vegas and Skyrim LE. -/
  | fo3
  /-- Skyrim SE and AE: LZ4 compression and 64-bit folder offsets. -/
  | sse
  deriving DecidableEq

/-- All that is needed to extract one file. -/
structure Tes4Record where
  /-- Offset of the file data. -/
  offset : UInt32
  /-- Stored size, without the bit for compression. -/
  rawSize : UInt32
  /-- Whether the file is compressed. -/
  isCompressed : Bool
  /-- Whether a file name stands before the data. -/
  hasEmbedName : Bool

/-- A parsed archive. -/
structure Tes4Archive where
  /-- The bytes of the file. -/
  source : Bytes
  /-- The version. -/
  bsaVersion : BsaVersion
  /-- The listed files. -/
  entries : List ArchiveEntry
  /-- Where their data stands. -/
  records : List Tes4Record
  /-- Entries by path. -/
  index : Std.HashMap Bytes Nat

/-- Read a folder record: only its file count is used. -/
def readFolderRecord (version : BsaVersion) : Reader IoError UInt32 := do
  let _ ← SliceCursor.readArray 8
  let fileCount ← SliceCursor.readU32
  if version = .sse then
    let _ ← SliceCursor.readU32
    let _ ← SliceCursor.readArray 8
    pure fileCount
  else
    let _ ← SliceCursor.readU32
    pure fileCount

/-- What a file record holds beside its hash, with the name of its folder. -/
structure RawEntry where
  /-- Name of the folder. -/
  folder : Bytes
  /-- Size with the bit for compression. -/
  rawSize : UInt32
  /-- Offset of the file data. -/
  rawOffset : UInt32

/-- Read a file record. -/
def readFileRecord (folder : Bytes) : Reader IoError RawEntry := do
  let _ ← SliceCursor.readArray 8
  let rawSize ← SliceCursor.readU32
  let rawOffset ← SliceCursor.readU32
  pure ⟨folder, rawSize, rawOffset⟩

/-- The name of a folder: one NUL at its end is not part of it. -/
def trimFolderName (nameBytes : Bytes) : Bytes :=
  if nameBytes.getLast? = some 0 then nameBytes.dropLast else nameBytes

/-- Read the block of a folder. -/
def readFolder (fileCount : UInt32) : Reader BsaError (List RawEntry) := do
  let nameLen ← archiveIo readU8
  let nameBytes ← archiveIo (SliceCursor.readSlice nameLen.toNat)
  let name ← Reader.lift (strFromUtf8Or "non-UTF-8 folder name" (trimFolderName nameBytes))
  archiveIo ((readFileRecord (normalisePath name)).times fileCount.toNat)

/-- Read the blocks of all folders. -/
def readFolders : List UInt32 → Reader BsaError (List RawEntry)
  | [] => pure []
  | fileCount :: fileCounts => do
    let first ← readFolder fileCount
    let rest ← readFolders fileCounts
    pure (first ++ rest)

/-- Read names from the name table. Behind the end of the file the source takes a slice that
starts out of range. -/
def readFileNames (bytes : Bytes) : Nat → Nat → Except BsaError (List Bytes)
  | 0, _ => .ok []
  | count + 1, pos =>
    if bytes.length < pos then .error .outOfRange
    else do
      let nameBytes := (bytes.drop pos).takeWhile (· ≠ 0)
      let name ← strFromUtf8Or "non-UTF-8 file name" nameBytes
      let names ← readFileNames bytes count (pos + nameBytes.length + 1)
      pure (normalisePath name :: names)

/-- What the header says. -/
structure Header where
  /-- Where the folder records start. -/
  foldersOffset : Nat
  /-- Archive flags. -/
  archiveFlags : UInt32
  /-- Number of folders. -/
  folderCount : Nat

/-- Read the header. -/
def readHeader : Reader IoError Header := do
  let _ ← SliceCursor.readArray 4
  let _ ← SliceCursor.readU32
  let foldersOffset ← SliceCursor.readU32
  let archiveFlags ← SliceCursor.readU32
  let folderCount ← SliceCursor.readU32
  let _fileCount ← SliceCursor.readU32
  let _folderNamesLen ← SliceCursor.readU32
  let _fileNamesLen ← SliceCursor.readU32
  let _contentFlags ← SliceCursor.readU32
  pure ⟨foldersOffset.toNat, archiveFlagsFromBitsTruncate archiveFlags, folderCount.toNat⟩

/-- Read the folder records and the blocks of the folders. -/
def readDirectory (version : BsaVersion) (folderCount : Nat) : Reader BsaError (List RawEntry) := do
  let fileCounts ← archiveIo ((readFolderRecord version).times folderCount)
  readFolders fileCounts

/-- The path of a file. -/
def joinPath (folder fileName : Bytes) : Bytes :=
  if folder.isEmpty then fileName else folder ++ 47 :: fileName

/-- Whether a file is compressed: its bit inverts the default of the archive. -/
def RawEntry.isCompressed (raw : RawEntry) (archiveCompress : Bool) : Bool :=
  archiveCompress ^^ decide (raw.rawSize &&& fileCompressBit ≠ 0)

/-- The listed metadata of a file. -/
def RawEntry.entry (raw : RawEntry) (archiveCompress : Bool) (fileName : Bytes) : ArchiveEntry :=
  let actualSize := raw.rawSize &&& ~~~fileCompressBit
  { path := joinPath raw.folder fileName
    uncompressedSize := actualSize
    compressedSize := if raw.isCompressed archiveCompress then some actualSize else none }

/-- The record for the extraction of a file. -/
def RawEntry.record (raw : RawEntry) (archiveCompress embedNames : Bool) : Tes4Record :=
  { offset := raw.rawOffset
    rawSize := raw.rawSize &&& ~~~fileCompressBit
    isCompressed := raw.isCompressed archiveCompress
    hasEmbedName := embedNames }

/-- The version for a raw version number. -/
def versionOf (rawVersion : UInt32) : Except BsaError BsaVersion :=
  if rawVersion = 0x67 then .ok .tes4
  else if rawVersion = 0x68 then .ok .fo3
  else if rawVersion = 0x69 then .ok .sse
  else .error (.unsupportedVersion rawVersion)

/-- Read an archive behind its header. -/
def Tes4Archive.read (source : Bytes) (version : BsaVersion) (header : Header) :
    Except BsaError Tes4Archive :=
  let archiveCompress := decide (header.archiveFlags &&& archiveFlagCompress ≠ 0)
  let embedNames := decide (header.archiveFlags &&& archiveFlagEmbedname ≠ 0 ∧ version ≠ .tes4)
  if source.length < header.foldersOffset then .error (.corrupt "folders_offset out of bounds")
  else do
    let directory ← readDirectory version header.folderCount
      (SliceCursor.new (source.drop header.foldersOffset))
    let rawEntries := directory.1
    -- the cursor is relative to the folder records
    let namesStart := header.foldersOffset + directory.2.pos
    let fileNames ← readFileNames source rawEntries.length namesStart
    let entries := (rawEntries.zip fileNames).map fun file => file.1.entry archiveCompress file.2
    pure {
      source := source
      bsaVersion := version
      entries := entries
      records := (rawEntries.zip fileNames).map fun file =>
        file.1.record archiveCompress embedNames
      index := indexEntries entries }

/-- Parse an archive. -/
def Tes4Archive.parse (source : Bytes) (rawVersion : UInt32) : Except BsaError Tes4Archive := do
  let version ← versionOf rawVersion
  let header ← archiveIo readHeader (SliceCursor.new source)
  Tes4Archive.read source version header.1

/-- The compressed or raw data of a file behind its embedded name: offset and length. -/
def skipEmbedName (bytes : Bytes) (record : Tes4Record) : Except BsaError (Nat × Nat) :=
  let offset := record.offset.toNat
  let remaining := record.rawSize.toNat
  if record.hasEmbedName then
    match bytes[offset]? with
    | none => .error (.corrupt "embed name out of bounds")
    | some nameLen =>
      let skip := 1 + nameLen.toNat
      if remaining < skip then .error (.corrupt "embed name larger than file data")
      else .ok (offset + skip, remaining - skip)
  else .ok (offset, remaining)

/-- The data of a compressed file. -/
def inflate (codecs : ArchiveCodecs) (version : BsaVersion) (bytes : Bytes)
    (offset remaining : Nat) : Except BsaError Bytes :=
  if remaining < 4 then .error (.corrupt "compressed file too small")
  else
    match Bytes.get bytes offset (offset + 4) with
    | none => .error (.corrupt "uncompressed size read out of bounds")
    | some uncBytes =>
      match Bytes.get bytes (offset + 4) (offset + 4 + (remaining - 4)) with
      | none => .error (.corrupt "compressed data out of bounds")
      | some compressedData =>
        let uncompressedSize := (u32FromLeBytes uncBytes).toNat
        let decompressed :=
          if version = .sse then codecs.decompressLz4Frame compressedData uncompressedSize
          else codecs.decompressZlib compressedData uncompressedSize
        decompressed.mapError .io

/-- The bytes of the file at an index. -/
def Tes4Archive.extractByIndex (codecs : ArchiveCodecs) (archive : Tes4Archive) (idx : Nat) :
    Except BsaError Bytes :=
  match archive.records[idx]? with
  | none => .error .outOfRange
  | some record =>
    let bytes := archive.source
    let start := record.offset.toNat
    if bytes.length ≤ start then .error (.corrupt s!"file data offset {start} out of bounds")
    else do
      let (offset, remaining) ← skipEmbedName bytes record
      if record.isCompressed then inflate codecs archive.bsaVersion bytes offset remaining
      else
        let stop := offset + remaining
        if bytes.length < stop then
          .error (.corrupt s!"file data [{offset}..{stop}] out of bounds")
        else .ok (Bytes.slice bytes offset stop)

/-- The index of a path. -/
def Tes4Archive.find (archive : Tes4Archive) (path : Bytes) : Option Nat :=
  archive.index[normalisePath path]?

end Tes4

end Bethkit
