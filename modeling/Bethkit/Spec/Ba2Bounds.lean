import Bethkit.Archive.Ba2

/-!
# Offsets that fit

The fields of a BA2 file can ask for additions that do not fit their types. Which ones are reached
can be seen from the positions of the fields.
-/

namespace Bethkit

open Lib

/-- A panic of the source, or an addition that does not fit its type. -/
def BsaError.isFault : BsaError → Bool
  | .outOfRange | .overflow => true
  | _ => false

/-- The bytes of a file in memory, which are fewer than the address space has. -/
structure MappedFile where
  /-- The bytes. -/
  bytes : Bytes
  /-- A slice is at most `isize::MAX` bytes long. -/
  short : bytes.length < 2 ^ 63

namespace Ba2

/-- The names of a table, if all of them are in the file and UTF-8. -/
def storedNames : Nat → Bytes → Option (List Bytes)
  | 0, _ => some []
  | count + 1, bytes =>
    let length := (u16FromLeBytes (bytes.take 2)).toNat
    let name := (bytes.drop 2).take length
    if 2 + length ≤ bytes.length ∧ 2 ≤ bytes.length ∧ (strFromUtf8 name).isSome then
      (storedNames count (bytes.drop (2 + length))).map (name :: ·)
    else none

/-- An index is the last one whose name has its normal form. -/
def IsLastName (names : List Bytes) (idx : Nat) : Prop :=
  ∀ later, idx < later → (names.map normalisePath)[later]? ≠ (names.map normalisePath)[idx]?

/-- The bytes that a file or a chunk takes in the archive. -/
def storedSize (packedSize size : UInt32) : Nat :=
  if packedSize ≠ 0 then packedSize.toNat else size.toNat

end Ba2

namespace Gnrl

/-- The field of a record at its position in the file. -/
def fieldAt (source : Bytes) (i start stop : Nat) : Bytes :=
  Bytes.slice source (recordsStart + i * recordSize + start) (recordsStart + i * recordSize + stop)

/-- The record of a number. -/
def recordAt (source : Bytes) (i : Nat) : GnrlRecord where
  offset := u64FromLeBytes (fieldAt source i 12 20)
  packedSize := u32FromLeBytes (fieldAt source i 20 24)
  size := u32FromLeBytes (fieldAt source i 24 28)

/-- A record ends with the mark. -/
def Marked (source : Bytes) (i : Nat) : Prop :=
  u32FromLeBytes (fieldAt source i 28 32) = Ba2.BAADF00D

/-- The offsets of an archive of general files fit. -/
structure Fits (source : Bytes) (count table : Nat) : Prop where
  /-- That of the name table. -/
  names : count ≠ 0 → table + 2 < 2 ^ 64
  /-- Those of the files that can be found, if the archive opens. -/
  data : ∀ names, Ba2.storedNames count (source.drop table) = some names →
    (∀ i < count, Marked source i) → ∀ i < count, Ba2.IsLastName names i →
      (recordAt source i).offset.toNat +
        Ba2.storedSize (recordAt source i).packedSize (recordAt source i).size < 2 ^ 64

end Gnrl

namespace Dx10

/-- The textures from a position on, up to the first that is refused. -/
def storedRecords (source : Bytes) : Nat → Nat → Nat → List Dx10Record
  | 0, _, _ => []
  | count + 1, i, pos =>
    match readRecord source i pos with
    | .ok record => record :: storedRecords source count (i + 1) (record.stop pos)
    | .error _ => []

/-- A chunk is in the file, and its stream can be inflated. -/
def Readable (codecs : ArchiveCodecs) (source : Bytes) (chunk : Dx10Chunk) : Prop :=
  let stop := chunk.offset.toNat + Ba2.storedSize chunk.packedSize chunk.size
  stop ≤ source.length ∧ (chunk.packedSize ≠ 0 → ∃ data,
    codecs.decompressZlib (Bytes.slice source chunk.offset.toNat stop) chunk.size.toNat = .ok data)

/-- The offsets and sizes of an archive of textures fit. -/
structure Fits (codecs : ArchiveCodecs) (source : Bytes) (count table : Nat) : Prop where
  /-- The offset of the name table. -/
  names : count ≠ 0 → table + 2 < 2 ^ 64
  /-- The sizes of the textures that are read. -/
  sizes : (Ba2.storedNames count (source.drop table)).isSome →
    ∀ record ∈ storedRecords source count 0 24, record.totalSize < 2 ^ 32
  /-- The chunks that are reached in the textures that can be found, if the archive opens. -/
  data : ∀ names, Ba2.storedNames count (source.drop table) = some names →
    (storedRecords source count 0 24).length = count →
    ∀ i record, (storedRecords source count 0 24)[i]? = some record → Ba2.IsLastName names i →
    ∀ before chunk after, record.chunks = before ++ chunk :: after →
      (∀ earlier ∈ before, Readable codecs source earlier) →
      chunk.offset.toNat + Ba2.storedSize chunk.packedSize chunk.size < 2 ^ 64

end Dx10

namespace Ba2Archive

/-- The offsets and sizes of a BA2 file fit, unless its header is refused. -/
def Fits (codecs : ArchiveCodecs) (source : Bytes) : Prop :=
  24 ≤ source.length → Bytes.slice source 0 4 = Ba2.magic →
  u32FromLeBytes (Bytes.slice source 4 8) ∈ Ba2.supportedVersions →
  (Bytes.slice source 8 12 = Ba2.subGnrl → 24 + (fileCount source).toNat * 36 ≤ source.length →
    Gnrl.Fits source (fileCount source).toNat (tableOffset source).toNat) ∧
  (Bytes.slice source 8 12 = Ba2.subDx10 →
    Dx10.Fits codecs source (fileCount source).toNat (tableOffset source).toNat)

/-- Opening a BA2 file and extracting from it succeeds or fails with an error of the archive. -/
structure InRange (codecs : ArchiveCodecs) (source : Bytes) : Prop where
  /-- Opening it. -/
  opening : ∀ error, fromMmap source = .error error → error.isFault = false
  /-- Extracting any of its files. -/
  extracting : ∀ archive, fromMmap source = .ok archive → ∀ path error,
    archive.extract codecs path = some (.error error) → error.isFault = false

end Ba2Archive

end Bethkit
