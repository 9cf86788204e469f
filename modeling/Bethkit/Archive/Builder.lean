import Bethkit.Archive.Hash

/-!
# What is packed into an archive

The versions of archives that can be written, and the files that wait to be written.
-/

namespace Bethkit

open Lib

namespace Write

/-- The version of an archive that is written. -/
inductive BsaVersion where
  /-- Morrowind. -/
  | tes3
  /-- Oblivion. -/
  | tes4
  /-- Fallout 3, New Vegas and Skyrim LE. -/
  | fo3
  /-- Skyrim SE and AE. -/
  | sse
  deriving DecidableEq

/-- The version of a BA2 archive that is written. -/
inductive Ba2Version where
  /-- Fallout 4. -/
  | v1
  /-- Fallout 4 NG. -/
  | v7
  /-- Fallout 4 NG, alternate. -/
  | v8
  deriving DecidableEq

/-- The version number of the header. -/
def Ba2Version.asU32 : Ba2Version → UInt32
  | v1 => 1
  | v7 => 7
  | v8 => 8

/-- A file that waits to be written. -/
structure BuilderEntry where
  /-- Normalised path. -/
  path : Bytes
  /-- Uncompressed content. -/
  data : Bytes
  /-- Compression of this file, if it is not the default of the archive. -/
  compressOverride : Option Bool

end Write

end Bethkit
