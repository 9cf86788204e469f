import Bethkit.Archive.Dds
import Bethkit.Archive.Types

/-!
# BA2 archives

What the readers of both kinds of BA2 archives share: a 24-byte header, a table of file names at
an offset that the header gives, and a mark at the end of the records.
-/

namespace Bethkit

open Lib

namespace Ba2

/-- The first bytes of a BA2 archive. -/
def magic : Bytes := [0x42, 0x54, 0x44, 0x58]

/-- The kind of an archive of general files. -/
def subGnrl : Bytes := [0x47, 0x4E, 0x52, 0x4C]

/-- The kind of an archive of textures. -/
def subDx10 : Bytes := [0x44, 0x58, 0x31, 0x30]

/-- The mark at the end of a record. -/
def BAADF00D : UInt32 := 0xBAADF00D

/-- The versions that are read. -/
def supportedVersions : List UInt32 := [0x01, 0x07, 0x08]

/-- The texts of the errors of a name table, by the number of the entry. -/
structure NameTableErrors where
  /-- The length is out of bounds at an offset. -/
  length : Nat → Nat → String
  /-- The name is out of bounds. -/
  string : Nat → String
  /-- The name is not UTF-8. -/
  utf8 : Nat → String

/-- The loop of `parse_name_table`: each name has a 16-bit length and no NUL. -/
def parseNameTableLoop (errors : NameTableErrors) (bytes : Bytes) :
    Nat → Nat → Nat → Except BsaError (List Bytes)
  | 0, _, _ => .ok []
  | count + 1, i, pos => do
    let start ← addUsize pos 2
    if bytes.length < start then .error (.corrupt (errors.length i pos))
    else do
      let field ← indexRange bytes pos start
      let stop ← addUsize start (u16FromLeBytes field).toNat
      if bytes.length < stop then .error (.corrupt (errors.string i))
      else do
        let raw ← indexRange bytes start stop
        let name ← strFromUtf8Or (errors.utf8 i) raw
        let names ← parseNameTableLoop errors bytes count (i + 1) stop
        pure (name :: names)

/-- `parse_name_table`. -/
def parseNameTable (errors : NameTableErrors) (bytes : Bytes) (start count : Nat) :
    Except BsaError (List Bytes) :=
  parseNameTableLoop errors bytes count 0 start

/-- The data of a file or a chunk: a zlib stream of the packed size, or the plain bytes if the packed
size is zero. -/
def readStored (codecs : ArchiveCodecs) (bytes : Bytes) (offset : UInt64)
    (packedSize size : UInt32) (packedError plainError : Nat → Nat → String) :
    Except BsaError Bytes := do
  if packedSize ≠ 0 then do
    let stop ← addUsize offset.toNat packedSize.toNat
    if bytes.length < stop then .error (.corrupt (packedError offset.toNat stop))
    else do
      let stream ← indexRange bytes offset.toNat stop
      (codecs.decompressZlib stream size.toNat).mapError .io
  else do
    let stop ← addUsize offset.toNat size.toNat
    if bytes.length < stop then .error (.corrupt (plainError offset.toNat stop))
    else indexRange bytes offset.toNat stop

end Ba2

/-!
## BA2 archives of general files

A table of records of 36 bytes follows the header. A file with a packed size of zero is stored as it
is.
-/

namespace Gnrl

/-- Where the data of one file stands. -/
structure GnrlRecord where
  /-- Offset in the archive. -/
  offset : UInt64
  /-- Stored size, or zero if the file is stored verbatim. -/
  packedSize : UInt32
  /-- Uncompressed size. -/
  size : UInt32

/-- A parsed archive of general files. -/
structure GnrlArchive where
  /-- The bytes of the file. -/
  source : Bytes
  /-- The listed files. -/
  entries : List ArchiveEntry
  /-- Where their data stands. -/
  records : List GnrlRecord
  /-- Entries by path. -/
  index : Std.HashMap Bytes Nat

/-- Where the records begin. -/
def recordsStart : Nat := 24

/-- The width of a record. -/
def recordSize : Nat := 36

/-- The errors of the name table. -/
def nameTableErrors : Ba2.NameTableErrors where
  length i pos := s!"name table entry {i} length out of bounds at {pos}"
  string i := s!"name table entry {i} string out of bounds"
  utf8 i := s!"name table entry {i} non-UTF-8"

/-- Read a record: three hashes that are not used, the offset, the sizes and the mark. The numbers in
the message are decimal here. -/
def readRecord (source : Bytes) (i : Nat) : Except BsaError GnrlRecord := do
  let base := recordsStart + i * recordSize
  let recBytes ← indexRange source base (base + recordSize)
  let tail := u32FromLeBytes (Bytes.slice recBytes 28 32)
  if tail ≠ Ba2.BAADF00D then
    .error (.corrupt s!"GNRL record {i}: expected tail {Ba2.BAADF00D}, got {tail}")
  else
    .ok {
      offset := u64FromLeBytes (Bytes.slice recBytes 12 20)
      packedSize := u32FromLeBytes (Bytes.slice recBytes 20 24)
      size := u32FromLeBytes (Bytes.slice recBytes 24 28) }

/-- The entry of a record. -/
def entryOf (name : Bytes) (record : GnrlRecord) : ArchiveEntry where
  path := normalisePath name
  uncompressedSize := record.size
  compressedSize := if record.packedSize ≠ 0 then some record.packedSize else none

/-- Read the records of the names, the first of which has this number. -/
def readRecords (source : Bytes) : List Bytes → Nat → Except BsaError (List (Bytes × GnrlRecord))
  | [], _ => .ok []
  | name :: names, i => do
    let record ← readRecord source i
    let records ← readRecords source names (i + 1)
    pure ((name, record) :: records)

/-- Parse an archive of general files. -/
def GnrlArchive.parse (source : Bytes) (fileCount : UInt32) (tableOffset : UInt64) :
    Except BsaError GnrlArchive := do
  if source.length < recordsStart + fileCount.toNat * recordSize then
    .error (.corrupt "GNRL file records out of bounds")
  else do
    let names ← Ba2.parseNameTable nameTableErrors source tableOffset.toNat fileCount.toNat
    let files ← readRecords source names 0
    let entries := files.map fun file => entryOf file.1 file.2
    pure { source, entries, records := files.map Prod.snd, index := indexEntries entries }

/-- The bytes of the file at an index. -/
def GnrlArchive.extractByIndex (codecs : ArchiveCodecs) (archive : GnrlArchive) (idx : Nat) :
    Except BsaError Bytes :=
  match archive.records[idx]? with
  | none => .error .outOfRange
  | some record =>
    Ba2.readStored codecs archive.source record.offset record.packedSize record.size
      (fun offset stop => s!"GNRL compressed data [{offset}..{stop}] out of bounds")
      (fun offset stop => s!"GNRL file data [{offset}..{stop}] out of bounds")

/-- The index of a path. -/
def GnrlArchive.find (archive : GnrlArchive) (path : Bytes) : Option Nat :=
  archive.index[normalisePath path]?

end Gnrl

/-!
## BA2 archives of textures

A texture is a record of 24 bytes and a record of 24 bytes for each of its chunks. It is put
together from a new DDS header and its chunks.
-/

namespace Dx10

/-- One chunk of mip levels. -/
structure Dx10Chunk where
  /-- Offset in the archive. -/
  offset : UInt64
  /-- Stored size, or zero if the chunk is stored verbatim. -/
  packedSize : UInt32
  /-- Uncompressed size. -/
  size : UInt32
  /-- First mip level; not used. -/
  startMip : UInt16
  /-- Last mip level; not used. -/
  endMip : UInt16

/-- One texture. -/
structure Dx10Record where
  /-- Width in pixels. -/
  width : UInt16
  /-- Height in pixels. -/
  height : UInt16
  /-- Number of mip levels. -/
  numMips : UInt8
  /-- Raw DXGI format. -/
  dxgiFormat : UInt8
  /-- 2049 for a cube map. -/
  cubeMaps : UInt16
  /-- Where the data stands. -/
  chunks : List Dx10Chunk

/-- A parsed archive of textures. -/
structure Dx10Archive where
  /-- The bytes of the file. -/
  source : Bytes
  /-- The listed textures. -/
  entries : List ArchiveEntry
  /-- Their records. -/
  records : List Dx10Record
  /-- Entries by path. -/
  index : Std.HashMap Bytes Nat

/-- The errors of the name table. -/
def nameTableErrors : Ba2.NameTableErrors where
  length i pos := s!"DX10 name table entry {i} out of bounds at {pos}"
  string i := s!"DX10 name table entry {i} string out of bounds"
  utf8 i := s!"DX10 name table entry {i} non-UTF-8"

/-- Read a chunk record. -/
def readChunk (source : Bytes) (i j pos : Nat) : Except BsaError Dx10Chunk := do
  if source.length < pos + 24 then .error (.corrupt s!"DX10 record {i} chunk {j} out of bounds")
  else do
    let bytes ← indexRange source pos (pos + 24)
    let tail := u32FromLeBytes (Bytes.slice bytes 20 24)
    if tail ≠ Ba2.BAADF00D then .error (.corrupt s!"DX10 record {i} chunk {j}: bad tail {tail}")
    else
      .ok {
        offset := u64FromLeBytes (Bytes.slice bytes 0 8)
        packedSize := u32FromLeBytes (Bytes.slice bytes 8 12)
        size := u32FromLeBytes (Bytes.slice bytes 12 16)
        startMip := u16FromLeBytes (Bytes.slice bytes 16 18)
        endMip := u16FromLeBytes (Bytes.slice bytes 18 20) }

/-- Read the chunk records from a position on. -/
def readChunks (source : Bytes) (i : Nat) : Nat → Nat → Nat → Except BsaError (List Dx10Chunk)
  | 0, _, _ => .ok []
  | count + 1, j, pos => do
    let chunk ← readChunk source i j pos
    let chunks ← readChunks source i count (j + 1) (pos + 24)
    pure (chunk :: chunks)

/-- Read a texture record with its chunks. -/
def readRecord (source : Bytes) (i pos : Nat) : Except BsaError Dx10Record := do
  if source.length < pos + 24 then
    .error (.corrupt s!"DX10 record {i} header out of bounds at {pos}")
  else do
    let bytes ← indexRange source pos (pos + 24)
    let chunks ← readChunks source i (bytes.getD 13 0).toNat 0 (pos + 24)
    pure {
      height := u16FromLeBytes (Bytes.slice bytes 16 18)
      width := u16FromLeBytes (Bytes.slice bytes 18 20)
      numMips := bytes.getD 20 0
      dxgiFormat := bytes.getD 21 0
      cubeMaps := u16FromLeBytes (Bytes.slice bytes 22 24)
      chunks }

/-- Where the record behind a texture record begins. -/
def Dx10Record.stop (record : Dx10Record) (pos : Nat) : Nat := pos + 24 + 24 * record.chunks.length

/-- The DDS header of a texture. -/
def Dx10Record.header (record : Dx10Record) : Bytes :=
  Dds.buildDdsHeader record.width record.height record.numMips record.dxgiFormat record.cubeMaps

/-- The sizes of all chunks and the header. -/
def Dx10Record.totalSize (record : Dx10Record) : Nat :=
  (record.chunks.map fun chunk => chunk.size.toNat).sum + record.header.length

/-- The `u32` sum of the chunk sizes and the header. -/
def Dx10Record.uncompressedSize (record : Dx10Record) : Except BsaError UInt32 :=
  if record.totalSize < 2 ^ 32 then .ok (UInt32.ofNat record.totalSize) else .error .overflow

/-- Read the textures of the names, the first of which has this number and stands here. -/
def readRecords (source : Bytes) :
    List Bytes → Nat → Nat → Except BsaError (List (ArchiveEntry × Dx10Record))
  | [], _, _ => .ok []
  | name :: names, i, pos => do
    let record ← readRecord source i pos
    let uncompressedSize ← record.uncompressedSize
    let records ← readRecords source names (i + 1) (record.stop pos)
    pure (({ path := normalisePath name, uncompressedSize, compressedSize := none }, record) ::
      records)

/-- Parse an archive of textures. -/
def Dx10Archive.parse (source : Bytes) (fileCount : UInt32) (tableOffset : UInt64) :
    Except BsaError Dx10Archive := do
  let names ← Ba2.parseNameTable nameTableErrors source tableOffset.toNat fileCount.toNat
  let files ← readRecords source names 0 24
  let entries := files.map Prod.fst
  pure { source, entries, records := files.map Prod.snd, index := indexEntries entries }

/-- The bytes of the chunks, the first of which has this number. -/
def extractChunks (codecs : ArchiveCodecs) (source : Bytes) :
    List Dx10Chunk → Nat → Except BsaError Bytes
  | [], _ => .ok []
  | chunk :: chunks, j => do
    let data ← Ba2.readStored codecs source chunk.offset chunk.packedSize chunk.size
      (fun _ _ => s!"DX10 chunk {j} compressed data out of bounds")
      (fun _ _ => s!"DX10 chunk {j} data out of bounds")
    let rest ← extractChunks codecs source chunks (j + 1)
    pure (data ++ rest)

/-- The texture at an index. -/
def Dx10Archive.extractByIndex (codecs : ArchiveCodecs) (archive : Dx10Archive) (idx : Nat) :
    Except BsaError Bytes :=
  match archive.records[idx]? with
  | none => .error .outOfRange
  | some record =>
    (extractChunks codecs archive.source record.chunks 0).map fun data => record.header ++ data

/-- The index of a path. -/
def Dx10Archive.find (archive : Dx10Archive) (path : Bytes) : Option Nat :=
  archive.index[normalisePath path]?

end Dx10

/-!
## BA2 archives of both kinds

The header says which kind an archive is, how many files it has and where their names are.
-/

/-- A BA2 archive. -/
inductive Ba2Archive where
  /-- General files. -/
  | gnrl (archive : Gnrl.GnrlArchive)
  /-- Textures. -/
  | dx10 (archive : Dx10.Dx10Archive)

namespace Ba2Archive

/-- The file count of the header. -/
def fileCount (bytes : Bytes) : UInt32 := u32FromLeBytes (Bytes.slice bytes 12 16)

/-- The offset of the name table in the header; the source reads it as a signed number. -/
def tableOffset (bytes : Bytes) : UInt64 := u64FromLeBytes (Bytes.slice bytes 16 24)

/-- Parse the bytes of a BA2 file. -/
def fromMmap (source : Bytes) : Except BsaError Ba2Archive :=
  if source.length < 24 then .error (.corrupt "file too small to be a BA2")
  else
    let magic := Bytes.slice source 0 4
    if magic ≠ Ba2.magic then .error (.invalidMagic magic)
    else
      let rawVersion := u32FromLeBytes (Bytes.slice source 4 8)
      if rawVersion ∉ Ba2.supportedVersions then .error (.unsupportedVersion rawVersion)
      else
        let subType := Bytes.slice source 8 12
        if subType = Ba2.subGnrl then
          (Gnrl.GnrlArchive.parse source (fileCount source) (tableOffset source)).map .gnrl
        else if subType = Ba2.subDx10 then
          (Dx10.Dx10Archive.parse source (fileCount source) (tableOffset source)).map .dx10
        else .error (.unsupportedSubType subType)

/-- The listed files. -/
def entries : Ba2Archive → List ArchiveEntry
  | gnrl archive => archive.entries
  | dx10 archive => archive.entries

/-- The index of a path. -/
def find : Ba2Archive → Bytes → Option Nat
  | gnrl archive, path => archive.find path
  | dx10 archive, path => archive.find path

/-- The bytes of the file at an index. -/
def extractByIndex (codecs : ArchiveCodecs) : Ba2Archive → Nat → Except BsaError Bytes
  | gnrl archive, idx => archive.extractByIndex codecs idx
  | dx10 archive, idx => archive.extractByIndex codecs idx

/-- The bytes of the file with a path. -/
def extract (codecs : ArchiveCodecs) (archive : Ba2Archive) (path : Bytes) :
    Option (Except BsaError Bytes) :=
  (archive.find path).map (archive.extractByIndex codecs)

end Ba2Archive

end Bethkit
