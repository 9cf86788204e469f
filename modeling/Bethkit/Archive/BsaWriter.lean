import Bethkit.Archive.Builder
import Bethkit.Archive.Tes3
import Bethkit.Archive.Tes4

/-!
# Writing Morrowind archives

Files are written in the order of their hashes.
-/

namespace Bethkit

open Lib

namespace Write.Tes3

/-- What stands behind the last slash of a path. -/
def fileName (path : Bytes) : Bytes := ((strRsplitOnce 47 path).map Prod.snd).getD path

/-- The offsets of names in the name block. -/
def nameOffsets : List Bytes → Nat → List UInt32
  | [], _ => []
  | path :: paths, position =>
    UInt32.ofNat position :: nameOffsets paths (position + path.length + 1)

/-- The offsets of the file data. -/
def dataOffsets : List BuilderEntry → UInt32 → Except BsaError (List UInt32)
  | [], _ => .ok []
  | entry :: entries, running => do
    let size := UInt32.ofNat entry.data.length
    if 2 ^ 32 ≤ running.toNat + size.toNat then
      throw (.corrupt "TES3 archive data exceeds 4 GiB")
    let offsets ← dataOffsets entries (running + size)
    pure (running :: offsets)

/-- Write a Morrowind archive. -/
def write (entries : List BuilderEntry) : Except BsaError Bytes :=
  if entries.isEmpty then .error .emptyArchive
  else do
    let hashed := entries.map fun entry => (hashTes3 (fileName entry.path), entry)
    let sorted := hashed.insertionSort fun first second => first.1 ≤ second.1
    let n := sorted.length
    let nameBlock := sorted.flatMap fun file => file.2.path ++ [0]
    let hashOffset := UInt32.ofNat (4 + 8 * n + 4 * n + nameBlock.length)
    let offsets ← dataOffsets (sorted.map Prod.snd) 0
    pure (Bethkit.Tes3.magic ++ (u32ToLeBytes hashOffset ++ (u32ToLeBytes (UInt32.ofNat n) ++
      ((sorted.zip offsets).flatMap (fun file =>
        u32ToLeBytes (UInt32.ofNat file.1.2.data.length) ++ u32ToLeBytes file.2) ++
      ((nameOffsets (sorted.map fun file => file.2.path) 0).flatMap u32ToLeBytes ++
      (nameBlock ++ (sorted.flatMap (fun file => u64ToLeBytes file.1) ++
      sorted.flatMap fun file => file.2.data)))))))

end Write.Tes3

/-!
## Writing Oblivion, Fallout and Skyrim archives

Files are sorted by the hashes of their folder and of their name, grouped into folders by the hash
of the folder, and written in three passes: file records, names and data.
-/

namespace Write.Tes4

/-- A file that is ready to be written. -/
structure FileEntry where
  /-- Path of the folder. -/
  folderName : Bytes
  /-- Name in the folder. -/
  fileName : Bytes
  /-- Hash of the folder. -/
  folderHash : UInt64
  /-- Hash of the name. -/
  fileHash : UInt64
  /-- The bytes of the data section. -/
  stored : Bytes
  /-- Whether they are compressed. -/
  isCompressed : Bool

/-- The folder and the file name of a path. -/
def splitFolder (path : Bytes) : Bytes × Bytes := (strRsplitOnce 47 path).getD ([], path)

/-- The stem and the extension of a file name; the extension has the dot. -/
def splitStemExt (name : Bytes) : Bytes × Bytes :=
  ((strRsplitOnce 46 name).map fun parts => (parts.1, 46 :: parts.2)).getD (name, [])

/-- The name that stands before the data of a file. -/
def embedPrefix (fileName : Bytes) : Bytes :=
  let nameLen := min fileName.length 255
  UInt8.ofNat nameLen :: fileName.take nameLen

/-- Compress the data of a file. -/
def compressData (codecs : ArchiveCodecs) (data : Bytes) (isSse : Bool) : Except BsaError Bytes :=
  if isSse then codecs.compressLz4Frame data else codecs.compressZlib data

/-- The payload of a file: compressed data has its uncompressed size in front. -/
def payload (codecs : ArchiveCodecs) (isSse isCompressed : Bool) (data : Bytes) :
    Except BsaError Bytes :=
  if isCompressed then
    (compressData codecs data isSse).map fun compressed =>
      u32ToLeBytes (UInt32.ofNat data.length) ++ compressed
  else .ok data

/-- Hash and compress a file. -/
def prepare (codecs : ArchiveCodecs) (isSse doEmbed compress : Bool) (entry : BuilderEntry) :
    Except BsaError FileEntry :=
  let parts := splitFolder entry.path
  let name := splitStemExt parts.2
  let isCompressed := entry.compressOverride.getD compress
  (payload codecs isSse isCompressed entry.data).map fun payload =>
    { folderName := parts.1
      fileName := parts.2
      folderHash := hashTes4Dir (parts.1.map fun byte => if byte = 47 then 92 else byte)
      fileHash := hashTes4File name.1 name.2
      stored := (if doEmbed then embedPrefix parts.2 else []) ++ payload
      isCompressed := isCompressed }

/-- The order of the files: by folder hash, then by file hash. -/
def FileEntry.Before (first second : FileEntry) : Prop :=
  first.folderHash < second.folderHash ∨
    first.folderHash = second.folderHash ∧ first.fileHash ≤ second.fileHash

instance : DecidableRel FileEntry.Before := fun _ _ => inferInstanceAs (Decidable (_ ∨ _))

/-- The content flag of an extension with its dot. -/
def contentFlagForExt (ext : Bytes) : UInt32 :=
  let known (names : List String) : Bool := names.any fun name => strAsBytes name == ext
  if known [".nif", ".kf", ".btr", ".bto"] then 0x0001
  else if known [".dds"] then 0x0002
  else if known [".swf", ".gfx", ".xml"] then 0x0004
  else if known [".wav", ".xwm", ".mp3"] then 0x0008
  else if known [".fuz", ".lip"] then 0x0010
  else if known [".hlsl", ".fx"] then 0x0020
  else if known [".spt", ".lst"] then 0x0040
  else if known [".fnt", ".otf", ".ttf"] then 0x0080
  else 0x0100

/-- The content flags of all files. -/
def contentFlags (entries : List FileEntry) : UInt32 :=
  entries.foldl (fun flags entry =>
    match strRsplitOnce 46 entry.fileName with
    | some parts => flags ||| contentFlagForExt (46 :: parts.2)
    | none => flags) 0

/-- A folder: its name and the indices of its files. -/
abbrev Folder : Type := Bytes × List Nat

/-- Put a file into the folder of its hash. The first file of a folder gives it its name. -/
def addToFolder (folders : Std.TreeMap UInt64 Folder) (file : FileEntry × Nat) :
    Std.TreeMap UInt64 Folder :=
  let slot := folders[file.1.folderHash]?.getD (file.1.folderName, [])
  folders.insert file.1.folderHash (slot.1, slot.2 ++ [file.2])

/-- Group the files into folders, in the order of their hashes. -/
def groupFolders (entries : List FileEntry) : List (UInt64 × Folder) :=
  (entries.zipIdx.foldl addToFolder ∅).toList

/-- The archive flags: names are stored, and the settings of the writer. -/
def archiveFlags (compress doEmbed : Bool) : UInt32 :=
  0x0003 ||| (if compress then archiveFlagCompress else 0) |||
    (if doEmbed then archiveFlagEmbedname else 0)

/-- The size of the block of a folder. -/
def blockSize (folder : UInt64 × Folder) : Nat :=
  1 + folder.2.1.length + 1 + folder.2.2.length * 16

/-- Where the blocks of the folders start. -/
def folderDataOffsets : List (UInt64 × Folder) → Nat → List Nat
  | [], _ => []
  | folder :: folders, pos => pos :: folderDataOffsets folders (pos + blockSize folder)

/-- Where the data of the files starts. -/
def fileDataOffsets : List FileEntry → Nat → Except BsaError (List UInt32)
  | [], _ => .ok []
  | entry :: entries, running =>
    if 2 ^ 32 ≤ running then
      .error (.corrupt "BSA file data offset exceeds 4 GiB (u32 limit)")
    else (fileDataOffsets entries (running + entry.stored.length)).map (UInt32.ofNat running :: ·)

/-- The size field of a file: its bit inverts the default of the archive. -/
def rawSize (compress : Bool) (entry : FileEntry) : UInt32 :=
  UInt32.ofNat entry.stored.length ||| if entry.isCompressed ≠ compress then fileCompressBit else 0

/-- The record of a folder. -/
def folderRecord (isSse : Bool) (folder : UInt64 × Folder) (offset : Nat) :
    Except BsaError Bytes :=
  let front := u64ToLeBytes folder.1 ++ u32ToLeBytes (UInt32.ofNat folder.2.2.length)
  if isSse then .ok (front ++ (u32ToLeBytes 0 ++ u64ToLeBytes (UInt64.ofNat offset)))
  else if 2 ^ 32 ≤ offset then .error (.corrupt "BSA folder data offset exceeds 4 GiB")
  else .ok (front ++ u32ToLeBytes (UInt32.ofNat offset))

/-- The records of all folders. -/
def folderRecords (isSse : Bool) :
    List (UInt64 × Folder) → List Nat → Except BsaError Bytes
  | folder :: folders, offset :: offsets => do
    let first ← folderRecord isSse folder offset
    let rest ← folderRecords isSse folders offsets
    pure (first ++ rest)
  | _, _ => .ok []

/-- The record of a file: hash, size and offset. -/
def fileRecord (hash : UInt64) (size offset : UInt32) : Bytes :=
  u64ToLeBytes hash ++ (u32ToLeBytes size ++ u32ToLeBytes offset)

/-- The blocks of the folders. Offsets are taken from the list one after the other, while hash and
size are looked up by the index of the file. -/
def folderBlocks (compress : Bool) (entries : List FileEntry) (offsets : List UInt32) :
    List (UInt64 × Folder) → Nat → Bytes
  | [], _ => []
  | folder :: folders, globalFileIdx =>
    let name := folder.2.1
    let records := (folder.2.2.zipIdx globalFileIdx).flatMap fun file =>
      fileRecord ((entries.map FileEntry.fileHash).getD file.1 0)
        ((entries.map (rawSize compress)).getD file.1 0) (offsets.getD file.2 0)
    (UInt8.ofNat name.length + 1) :: (name ++ 0 :: records) ++
      folderBlocks compress entries offsets folders (globalFileIdx + folder.2.2.length)

/-- The version number of a version. -/
def rawVersion : BsaVersion → Except BsaError UInt32
  | .tes4 => .ok 0x67
  | .fo3 => .ok 0x68
  | .sse => .ok 0x69
  | .tes3 => .error (.corrupt "TES3 BSA cannot be written by the TES4/FO3/SSE writer")

/-- Write an archive. -/
def write (codecs : ArchiveCodecs) (version : BsaVersion) (compress embedNames : Bool)
    (entries : List BuilderEntry) : Except BsaError Bytes :=
  if entries.isEmpty then .error .emptyArchive
  else do
    let number ← rawVersion version
    let isSse := version = .sse
    let doEmbed := embedNames && (version = .fo3 || version = .sse)
    let prepared ← entries.mapM (prepare codecs isSse doEmbed compress)
    let fileEntries := prepared.insertionSort FileEntry.Before
    let folders := groupFolders fileEntries
    let folderCount := UInt32.ofNat folders.length
    let fileCount := UInt32.ofNat fileEntries.length
    let folderNamesLen := (folders.map fun folder => 1 + UInt32.ofNat folder.2.1.length + 1).sum
    let fileNamesLen := (fileEntries.map fun entry => UInt32.ofNat entry.fileName.length + 1).sum
    let folderRecordsEnd := 36 + folderCount.toNat * if isSse then 24 else 16
    let nameTableStart := folderRecordsEnd + (folders.map blockSize).sum
    let fileDataStart := nameTableStart + fileNamesLen.toNat
    let offsets ← fileDataOffsets fileEntries fileDataStart
    let records ← folderRecords isSse folders (folderDataOffsets folders folderRecordsEnd)
    let header := Bethkit.Tes4.magic ++ (u32ToLeBytes number ++ (u32ToLeBytes 36 ++
      (u32ToLeBytes (archiveFlags compress doEmbed) ++ (u32ToLeBytes folderCount ++
      (u32ToLeBytes fileCount ++ (u32ToLeBytes folderNamesLen ++ (u32ToLeBytes fileNamesLen ++
      u32ToLeBytes (contentFlags fileEntries))))))))
    pure (header ++ (records ++ (folderBlocks compress fileEntries offsets folders 0 ++
      (fileEntries.flatMap (fun entry => entry.fileName ++ [0]) ++
      fileEntries.flatMap FileEntry.stored))))

end Write.Tes4

end Bethkit

/-!
## The archive writer

Files are added one after the other, and the archive is written at the end.
-/

namespace Bethkit

namespace Write

/-- A builder of archives of all versions. -/
structure BsaWriter where
  /-- The version. -/
  version : BsaVersion
  /-- Default compression of the archive. -/
  compress : Bool
  /-- Whether file names are written before the file data. -/
  embedNames : Bool
  /-- The added files. -/
  entries : List BuilderEntry

namespace BsaWriter

/-- An empty writer. -/
def new (version : BsaVersion) : BsaWriter :=
  { version := version
    compress := false
    embedNames := version = .fo3 || version = .sse
    entries := [] }

/-- Set the default compression. -/
def withCompress (writer : BsaWriter) (compress : Bool) : BsaWriter :=
  { writer with compress := compress }

/-- Enable or disable embedded file names. -/
def withEmbedNames (writer : BsaWriter) (embed : Bool) : BsaWriter :=
  { writer with embedNames := embed }

/-- Add a file. -/
def add (writer : BsaWriter) (path data : Bytes) : BsaWriter :=
  { writer with entries := writer.entries ++ [⟨normalisePath path, data, none⟩] }

/-- Write the archive. -/
def writeTo (codecs : ArchiveCodecs) (writer : BsaWriter) : Except BsaError Bytes :=
  match writer.version with
  | .tes3 => Tes3.write writer.entries
  | version => Tes4.write codecs version writer.compress writer.embedNames writer.entries

end BsaWriter

end Write

end Bethkit
