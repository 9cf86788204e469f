import Bethkit.Archive.Ba2Writer
import Bethkit.Lib.Crc
import Bethkit.Spec.Ba2Bounds

/-!
# Packing files into BA2 archives

What is expected of a BA2 archive: that each entry gives back what was added. The sizes and the
lengths of the names have to fit their fields for that.
-/

namespace Bethkit

open Lib

/-- What is known of zlib streams. -/
structure ZlibStreams (codecs : ArchiveCodecs) : Prop where
  /-- Decompression undoes compression; the expected size is only a hint. -/
  inflates : ∀ data stream, codecs.compressZlib data = .ok stream →
    ∀ expected, codecs.decompressZlib stream expected = .ok data
  /-- A stream has a header. -/
  nonempty : ∀ data stream, codecs.compressZlib data = .ok stream → stream ≠ []
  /-- A stream that breaks off does not give the data. -/
  truncated : ∀ data stream, codecs.compressZlib data = .ok stream →
    ∀ length < stream.length, ∀ expected,
      codecs.decompressZlib (stream.take length) expected ≠ .ok data

/-- A compression library that only puts a byte behind the data. -/
def sealingCodecs : ArchiveCodecs where
  compressZlib data := .ok (data ++ [0])
  compressLz4Frame data := .ok data
  decompressZlib stream _ := if stream.isEmpty then .error (.unexpectedEof 0) else .ok stream.dropLast
  decompressLz4Frame stream _ := .ok stream

namespace Write

/-- The sizes of some data fit their fields. A stream whose packed size wraps around to zero is read
as plain data, which is only right if the stream begins with the data. -/
def ChunkFits (codecs : ArchiveCodecs) (compress : Bool) (data : Bytes) : Prop :=
  if compress then ∀ stream, codecs.compressZlib data = .ok stream →
    stream.length < 2 ^ 32 ∨
      (stream.length % 2 ^ 32 = 0 ∧ data.length < 2 ^ 32 ∧ data.IsPrefix stream)
  else data.length < 2 ^ 32

/-- A writer to which files were added: their paths and contents. -/
def Ba2GnrlWriter.packing (version : Ba2Version) (compress : Bool) (files : List (Bytes × Bytes)) :
    Ba2GnrlWriter :=
  files.foldl (fun writer file => writer.add file.1 file.2)
    ((Ba2GnrlWriter.new version).withCompress compress)

/-- An archive opens and, entry by entry, has the normalised path and the content of a file. -/
def Unpacks (codecs : ArchiveCodecs) (bytes : Bytes) (files : List (Bytes × Bytes)) : Prop :=
  ∃ archive, Ba2Archive.fromMmap bytes = .ok archive ∧
    archive.entries.map ArchiveEntry.path = files.map (fun file => normalisePath file.1) ∧
    ∀ idx (inside : idx < files.length), archive.extractByIndex codecs idx = .ok files[idx].2

/-- A writer to which textures were added: their paths and DDS files. -/
def Ba2Dx10Writer.packing (version : Ba2Version) (compress : Bool) (files : List (Bytes × Bytes)) :
    Except BsaError Ba2Dx10Writer :=
  files.foldlM (fun writer file => writer.add file.1 file.2)
    ((Ba2Dx10Writer.new version).withCompress compress)

/-- An archive opens and, entry by entry, gives a DDS file that is parsed like the added one. -/
def UnpacksTextures (codecs : ArchiveCodecs) (bytes : Bytes) (files : List (Bytes × Bytes)) : Prop :=
  ∃ archive, Ba2Archive.fromMmap bytes = .ok archive ∧
    ∀ idx (inside : idx < files.length), ∃ dds, archive.extractByIndex codecs idx = .ok dds ∧
      ∃ info, DdsParse.parse true files[idx].2 = .ok info ∧ DdsParse.parse true dds = .ok info

/-- The length of the header that is built for a raw format. -/
def headerLength (dxgiRaw : UInt8) : Nat :=
  if Dds.DxgiFormat.ofU8 dxgiRaw ∈ [.bc7Unorm, .r8Snorm, .r8Uint, .unknown] then 148 else 128

/-- The sizes of a texture fit their fields, also together with the new header. -/
def TextureFits (codecs : ArchiveCodecs) (compress : Bool) (info : DdsParse.DdsInfo) : Prop :=
  ChunkFits codecs compress info.mipData ∧
    info.mipData.length % 2 ^ 32 + headerLength info.dxgiFormat < 2 ^ 32

end Write

/-!
## Hashes of paths in BA2 archives

The checksum that the hash of a path is to be, bit by bit, and the hashes of the parts of a path as
its caller spelled it, in any case and with either separator.
-/

/-- The bits of a byte, lowest first. -/
def byteBits (byte : UInt8) : List Bool := (List.range 8).map byte.toBitVec.getLsbD

/-- The reflected CRC-32 with the polynomial `0xEDB88320`, bit by bit, from zero and without a final
inversion. -/
def serialCrc32 (bytes : Bytes) : UInt32 :=
  UInt32.ofBitVec (Crc.serial 0xEDB88320 0 (bytes.flatMap byteBits))

/-- The ASCII bytes of a path in lower case, with backslashes. -/
def foldedAscii (path : Bytes) : Bytes :=
  (path.filter (· < 128)).map fun byte => if byte = 47 then 92 else byteToAsciiLowercase byte

/-- What stands before and behind the last byte that separates. -/
def splitLast (separates : UInt8 → Bool) : Bytes → Option (Bytes × Bytes)
  | [] => none
  | first :: rest =>
    match splitLast separates rest with
    | some parts => some (first :: parts.1, parts.2)
    | none => if separates first then some ([], rest) else none

/-- The folder and the file name of a path with slashes of either kind. -/
def spelledParts (path : Bytes) : Bytes × Bytes :=
  (splitLast (fun byte => byte = 47 ∨ byte = 92) path).getD ([], path)

/-- The hashes of the stem, the extension and the folder of a path as it is spelled. -/
def spelledHashes (path : Bytes) : Bytes :=
  let parts := spelledParts path
  let name := Write.splitStemExt parts.2
  u32ToLeBytes (hashFo4 name.1) ++ (u32ToLeBytes (hashFo4 name.2) ++ u32ToLeBytes (hashFo4 parts.1))

/-- The hash of a path is the checksum of its folded bytes, whatever its spelling. -/
structure HashesFolded (path : Bytes) : Prop where
  /-- The table gives what the bits give. -/
  serial : hashFo4 path = serialCrc32 (foldedAscii path)
  /-- Normalising a path first changes nothing. -/
  normalised : hashFo4 (normalisePath path) = hashFo4 path
  /-- A record has the hashes of the path as it was spelled. -/
  record : Write.pathHashes (normalisePath path) = spelledHashes path

end Bethkit
