import Bethkit.Archive.Ba2
import Bethkit.Archive.Builder
import Bethkit.Archive.DdsParse

/-!
# Writing BA2 archives

What the writers of both kinds of BA2 archives share: the header, the hashes of a path, the stored
form of some data, where it is placed, and the names behind the data.
-/

namespace Bethkit

open Lib

namespace Write

/-- The folder and the file name of a normalised path. -/
def splitDirFilename (path : Bytes) : Bytes × Bytes := (strRsplitOnce 47 path).getD ([], path)

/-- The stem and the extension of a file name; the extension has the dot. -/
def splitStemExt (name : Bytes) : Bytes × Bytes :=
  ((strRsplitOnce 46 name).map fun parts => (parts.1, 46 :: parts.2)).getD (name, [])

/-- The hashes of the stem, the extension and the folder of a path. -/
def pathHashes (path : Bytes) : Bytes :=
  let parts := splitDirFilename path
  let name := splitStemExt parts.2
  u32ToLeBytes (hashFo4 name.1) ++ (u32ToLeBytes (hashFo4 name.2) ++ u32ToLeBytes (hashFo4 parts.1))

/-- Data as it is stored in an archive. -/
structure StoredChunk where
  /-- The stored bytes. -/
  stored : Bytes
  /-- Uncompressed size. -/
  size : UInt32
  /-- Size of the stored bytes, or zero if they are not compressed. -/
  packedSize : UInt32

/-- Compress data, or store it as it is. -/
def storeChunk (codecs : ArchiveCodecs) (compress : Bool) (data : Bytes) :
    Except BsaError StoredChunk :=
  if compress then do
    let compressed ← codecs.compressZlib data
    pure ⟨compressed, UInt32.ofNat data.length, UInt32.ofNat compressed.length⟩
  else .ok ⟨data, UInt32.ofNat data.length, 0⟩

/-- The offsets of data that is stored from a position on, and the position behind it. -/
def placeChunks : List StoredChunk → Nat → Except BsaError (List Nat × Nat)
  | [], running => .ok ([], running)
  | chunk :: chunks, running => do
    let next ← addUsize running chunk.stored.length
    let placed ← placeChunks chunks next
    pure (running :: placed.1, placed.2)

/-- The 24 bytes of the header. -/
def ba2Header (version : Ba2Version) (subType : Bytes) (fileCount : UInt32) (tableOffset : Nat) :
    Bytes :=
  Bethkit.Ba2.magic ++ (u32ToLeBytes version.asU32 ++ (subType ++ (u32ToLeBytes fileCount ++
    u64ToLeBytes (UInt64.ofNat tableOffset))))

/-- A name with its 16-bit length. -/
def ba2Name (path : Bytes) : Bytes := u16ToLeBytes (UInt16.ofNat path.length) ++ path

end Write

/-!
## The writer of BA2 archives of general files

Records, data and names follow each other in the order in which the files were added.
-/

namespace Write

/-- A builder of archives of general files. -/
structure Ba2GnrlWriter where
  /-- The version. -/
  version : Ba2Version
  /-- Whether files are compressed. -/
  compress : Bool
  /-- The added files. -/
  entries : List BuilderEntry

namespace Ba2GnrlWriter

/-- An empty writer. -/
def new (version : Ba2Version) : Ba2GnrlWriter := ⟨version, false, []⟩

/-- Set the compression. -/
def withCompress (writer : Ba2GnrlWriter) (compress : Bool) : Ba2GnrlWriter :=
  { writer with compress := compress }

/-- Add a file. -/
def add (writer : Ba2GnrlWriter) (path data : Bytes) : Ba2GnrlWriter :=
  { writer with entries := writer.entries ++ [⟨normalisePath path, data, none⟩] }

end Ba2GnrlWriter

/-- A file with its stored form. -/
structure GnrlFile where
  /-- Normalised path. -/
  path : Bytes
  /-- What is stored. -/
  chunk : StoredChunk

namespace Ba2Gnrl

/-- Prepare a file: its own compression comes before that of the archive. -/
def prepare (codecs : ArchiveCodecs) (compress : Bool) (entry : BuilderEntry) :
    Except BsaError GnrlFile :=
  (storeChunk codecs (entry.compressOverride.getD compress) entry.data).map fun chunk =>
    ⟨entry.path, chunk⟩

/-- The 36 bytes of a record; the last four are padding. -/
def record (file : GnrlFile) (offset : Nat) : Bytes :=
  pathHashes file.path ++ (u64ToLeBytes (UInt64.ofNat offset) ++
    (u32ToLeBytes file.chunk.packedSize ++ (u32ToLeBytes file.chunk.size ++
      (u32ToLeBytes Bethkit.Ba2.BAADF00D ++ u32ToLeBytes 0))))

/-- Write an archive of general files. -/
def write (codecs : ArchiveCodecs) (version : Ba2Version) (compress : Bool)
    (entries : List BuilderEntry) : Except BsaError Bytes :=
  if entries.isEmpty then .error .emptyArchive
  else do
    let fileCount := UInt32.ofNat entries.length
    let files ← entries.mapM (prepare codecs compress)
    let placed ← placeChunks (files.map GnrlFile.chunk) (24 + fileCount.toNat * 36)
    .ok (ba2Header version Bethkit.Ba2.subGnrl fileCount placed.2 ++
      ((files.zip placed.1).flatMap (fun file => record file.1 file.2) ++
        (files.flatMap (fun file => file.chunk.stored) ++
          files.flatMap fun file => ba2Name file.path)))

end Ba2Gnrl

/-- Write the archive. -/
def Ba2GnrlWriter.writeTo (codecs : ArchiveCodecs) (writer : Ba2GnrlWriter) : Except BsaError Bytes :=
  Ba2Gnrl.write codecs writer.version writer.compress writer.entries

end Write

/-!
## The writer of BA2 archives of textures

A texture is parsed when it is added, and all its mip levels are stored as one chunk.
-/

namespace Write

open DdsParse

/-- A texture that waits to be written. -/
structure Dx10Entry where
  /-- Normalised path. -/
  path : Bytes
  /-- The parsed texture. -/
  info : DdsInfo

/-- A builder of archives of textures. -/
structure Ba2Dx10Writer where
  /-- The version. -/
  version : Ba2Version
  /-- Whether chunks are compressed. -/
  compress : Bool
  /-- The added textures. -/
  entries : List Dx10Entry

namespace Ba2Dx10Writer

/-- An empty writer. -/
def new (version : Ba2Version) : Ba2Dx10Writer := ⟨version, false, []⟩

/-- Set the compression. -/
def withCompress (writer : Ba2Dx10Writer) (compress : Bool) : Ba2Dx10Writer :=
  { writer with compress := compress }

/-- Parse a texture and add it. Overflows are checked, as in the reader. -/
def add (writer : Ba2Dx10Writer) (path ddsData : Bytes) : Except BsaError Ba2Dx10Writer := do
  let info ← DdsParse.parse true ddsData
  pure { writer with entries := writer.entries ++ [⟨normalisePath path, info⟩] }

end Ba2Dx10Writer

/-- A texture with its stored form. -/
structure TexRecord where
  /-- The texture. -/
  entry : Dx10Entry
  /-- What is stored of its mip levels. -/
  chunk : StoredChunk

namespace Ba2Dx10

/-- Prepare a texture. -/
def prepare (codecs : ArchiveCodecs) (compress : Bool) (entry : Dx10Entry) :
    Except BsaError TexRecord :=
  (storeChunk codecs compress entry.info.mipData).map fun chunk => ⟨entry, chunk⟩

/-- The 24 bytes of a texture: the hashes, no kind, one chunk, the width of its record, and the fields
of the texture. -/
def textureHeader (entry : Dx10Entry) : Bytes :=
  pathHashes entry.path ++ ([0, 1] ++ (u16ToLeBytes 24 ++ (u16ToLeBytes entry.info.height ++
    (u16ToLeBytes entry.info.width ++ ([entry.info.numMips, entry.info.dxgiFormat] ++
      u16ToLeBytes entry.info.cubeMaps)))))

/-- The 24 bytes of the chunk of all mip levels. -/
def chunkRecord (rec_ : TexRecord) (offset : Nat) : Bytes :=
  u64ToLeBytes (UInt64.ofNat offset) ++ (u32ToLeBytes rec_.chunk.packedSize ++
    (u32ToLeBytes rec_.chunk.size ++ (u16ToLeBytes 0 ++
      (u16ToLeBytes (UInt16.ofNat (rec_.entry.info.numMips.toNat - 1)) ++
        u32ToLeBytes Bethkit.Ba2.BAADF00D))))

/-- Write an archive of textures. -/
def write (codecs : ArchiveCodecs) (version : Ba2Version) (compress : Bool)
    (entries : List Dx10Entry) : Except BsaError Bytes :=
  if entries.isEmpty then .error .emptyArchive
  else do
    let fileCount := UInt32.ofNat entries.length
    let records ← entries.mapM (prepare codecs compress)
    let placed ← placeChunks (records.map TexRecord.chunk) (24 + fileCount.toNat * 48)
    .ok (ba2Header version Bethkit.Ba2.subDx10 fileCount placed.2 ++
      ((records.zip placed.1).flatMap (fun file =>
          textureHeader file.1.entry ++ chunkRecord file.1 file.2) ++
        (records.flatMap (fun file => file.chunk.stored) ++
          records.flatMap fun file => ba2Name file.entry.path)))

end Ba2Dx10

/-- Write the archive. -/
def Ba2Dx10Writer.writeTo (codecs : ArchiveCodecs) (writer : Ba2Dx10Writer) : Except BsaError Bytes :=
  Ba2Dx10.write codecs writer.version writer.compress writer.entries

end Write

end Bethkit
