import Bethkit.Archive.Bsa
import Bethkit.Lib.Widths

/-!
# Name tables

The readers take file names one after the other from a table of strings that end in NUL, as many as
a count elsewhere in the file says. Where the table starts and how many names it has can be seen
from the positions of the fields alone.
-/

namespace Bethkit

open Lib

/-- A table has as many names as are read from it, or one that is refused. -/
def NamesSuffice (stored : List Bytes) (count : Nat) : Prop :=
  count ≤ stored.length ∨ ∃ name ∈ stored, strFromUtf8 name = none

namespace Tes3

/-- The names of a table: the last one may lack its NUL, and then lacks its last byte. -/
def storedNames (table : Bytes) : List Bytes :=
  let pieces := table.splitOn 0
  let last := pieces.getLast?.getD []
  pieces.dropLast ++ if last = [] then [] else [last.dropLast]

end Tes3

namespace Tes4

/-- The width of a folder record. -/
def folderWidth (version : BsaVersion) : Nat := if version = .sse then 24 else 16

/-- The file count of a folder record. -/
def folderCount (record : Bytes) : UInt32 := u32FromLeBytes (Bytes.slice record 8 12)

/-- Where the blocks of the folders end, if they are inside the file and their names are UTF-8. -/
def blocksEnd (directory : Bytes) : List UInt32 → Nat → Option Nat
  | [], pos => some pos
  | fileCount :: fileCounts, pos =>
    match directory[pos]? with
    | none => none
    | some nameLen =>
      let name := pos + 1 + nameLen.toNat
      let next := name + fileCount.toNat * 16
      if next ≤ directory.length ∧
          (strFromUtf8 (trimFolderName (Bytes.slice directory (pos + 1) name))).isSome then
        blocksEnd directory fileCounts next
      else none

/-- The number of names and the table that they are read from, if the directory before it is
accepted. -/
def nameTable (version : BsaVersion) (source : Bytes) : Option (Nat × Bytes) :=
  let directory := source.drop (u32FromLeBytes (Bytes.slice source 8 12)).toNat
  let folders := (u32FromLeBytes (Bytes.slice source 16 20)).toNat
  let width := folderWidth version
  if 36 ≤ source.length ∧ (u32FromLeBytes (Bytes.slice source 8 12)).toNat ≤ source.length ∧
      folders * width ≤ directory.length then
    let fileCounts := Reader.decodeTable width folderCount folders directory
    (blocksEnd directory fileCounts (folders * width)).map fun pos =>
      ((fileCounts.map UInt32.toNat).sum, directory.drop pos)
  else none

end Tes4

namespace BsaArchive

/-- Opening an archive and extracting from it takes no slice out of range. -/
structure InRange (codecs : ArchiveCodecs) (source : Bytes) : Prop where
  /-- Opening it. -/
  opening : fromMmap source ≠ .error .outOfRange
  /-- Extracting any of its files. -/
  extracting : ∀ archive, fromMmap source = .ok archive → ∀ path,
    archive.extract codecs path ≠ some (.error .outOfRange)

end BsaArchive

end Bethkit
