import Bethkit.Archive.Tes3
import Bethkit.Archive.Tes4

/-!
# Archives of all versions

The format of an archive is found from its first bytes.
-/

namespace Bethkit

open Lib

/-- An archive of any version. -/
inductive BsaArchive where
  /-- Morrowind. -/
  | tes3 (archive : Tes3.Tes3Archive)
  /-- Oblivion and later. -/
  | tes4 (archive : Tes4.Tes4Archive)

namespace BsaArchive

/-- Parse the bytes of an archive file. -/
def fromMmap (source : Bytes) : Except BsaError BsaArchive :=
  if source.length < 8 then .error (.corrupt "file too small to be a BSA")
  else
    let magic := source.take 4
    if magic = Tes3.magic then (Tes3.Tes3Archive.parse source).map .tes3
    else if magic = Tes4.magic then
      (Tes4.Tes4Archive.parse source (u32FromLeBytes (Bytes.slice source 4 8))).map .tes4
    else .error (.invalidMagic magic)

/-- The listed files. -/
def entries : BsaArchive → List ArchiveEntry
  | tes3 archive => archive.entries
  | tes4 archive => archive.entries

/-- The bytes of the file at an index. -/
def extractByIndex (codecs : ArchiveCodecs) : BsaArchive → Nat → Except BsaError Bytes
  | tes3 archive, idx => archive.extractByIndex idx
  | tes4 archive, idx => archive.extractByIndex codecs idx

/-- The bytes of the file with a path. -/
def extract (codecs : ArchiveCodecs) (archive : BsaArchive) (path : Bytes) :
    Option (Except BsaError Bytes) :=
  match archive with
  | tes3 found => (found.find path).map found.extractByIndex
  | tes4 found => (found.find path).map (found.extractByIndex codecs)

end BsaArchive

end Bethkit
