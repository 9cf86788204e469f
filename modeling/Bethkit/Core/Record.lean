import Bethkit.Core.Cursor
import Bethkit.Lib.Tiling

/-!
# Records and subrecords

A main record is a 24-byte header and a data block. The block is a list of subrecords, each a
4-byte signature, a 16-bit size and a payload. A preceding `XXXX` subrecord carries the size of
a payload that does not fit 16 bits; the size field after it is ignored. The block of a
compressed record is its decompressed size followed by a zlib stream.

The decompressor is a third-party library and enters as the parameter `inflate`. The lazy
caches of the source are invisible: the model recomputes the value that they would hold.
-/

namespace Bethkit

open Lib SliceCursor

/-- A zlib decoder: the decompressed bytes, or a message. -/
abbrev Inflate : Type := Bytes → Except String Bytes

/-- A decoder that refuses every stream; enough to read files without compressed records. -/
def refuseInflate : Inflate := fun _ => .error "corrupt deflate stream"

/-- `decompress_zlib`; the expected size only pre-allocates the output. -/
def decompressZlib (inflate : Inflate) (input : Bytes) (_expectedSize : Nat) :
    Except IoError Bytes :=
  (inflate input).mapError .decompress

/-- The payload of a subrecord. -/
inductive SubRecordData where
  /-- A view into the data block of the parent record. -/
  | borrowed (data : Bytes) (start stop : Nat)
  /-- Data that does not come from a parsed block. -/
  | owned (data : Bytes)
deriving DecidableEq

/-- The payload bytes regardless of the variant. -/
def SubRecordData.asBytes : SubRecordData → Bytes
  | .borrowed data start stop => data.slice start stop
  | .owned data => data

/-- A single subrecord of a record's data block. -/
structure SubRecord where
  /-- The subrecord type. -/
  signature : Signature
  /-- The payload. -/
  data : SubRecordData
deriving DecidableEq

namespace SubRecord

/-- The raw payload bytes. -/
def asBytes (subrecord : SubRecord) : Bytes := subrecord.data.asBytes

/-- Interpret the payload as NUL-terminated UTF-8; all trailing NUL bytes are stripped. The
position that the source appends to the message of an invalid string is left out. -/
def asZstring (subrecord : SubRecord) : Except CoreError String :=
  match strFromUtf8 (subrecord.asBytes.rdropWhile (· == 0)) with
  | some text => .ok text
  | none => .error (.invalidEncoding s!"invalid UTF-8 in {subrecord.signature.display} subrecord")

end SubRecord

/-- The loop of `parse_subrecords`: `pending` is the size announced by the last `XXXX`. -/
def parseSubrecordsLoop (data : Bytes) :
    Nat → Option UInt32 → Reader CoreError (List SubRecord)
  | 0, _ => Reader.fail .outOfFuel
  | fuel + 1, pending => do
    let done ← Reader.inspect isEmpty
    if done then pure []
    else do
      let sigBytes ← io (readArray 4)
      let rawSize ← io readU16
      if (⟨sigBytes⟩ : Signature) = .XXXX then
        if rawSize ≠ 4 then
          Reader.fail (.invalidEncoding
            s!"XXXX subrecord has unexpected size {rawSize.toNat}, expected 4")
        else do
          -- The sub-cursor of the source holds exactly the four bytes of the word.
          let realSize ← io readU32
          parseSubrecordsLoop data fuel (some realSize)
      else do
        let dataSize := match pending with
          | some real => real.toNat
          | none => rawSize.toNat
        let start ← Reader.inspect Cursor.pos
        let _ ← io (readSlice dataSize)
        let stop ← Reader.inspect Cursor.pos
        let subrecords ← parseSubrecordsLoop data fuel none
        pure (⟨⟨sigBytes⟩, .borrowed data start stop⟩ :: subrecords)

/-- Parse all subrecords of a record's data block. -/
def parseSubrecords (data : Bytes) : Except CoreError (List SubRecord) :=
  (parseSubrecordsLoop data (data.length + 1) none (SliceCursor.new data)).map Prod.fst

/-- The 24-byte header that precedes every main record. -/
structure RecordHeader where
  /-- The record type. -/
  signature : Signature
  /-- Size in bytes of the data block. -/
  dataSize : UInt32
  /-- Record-level flags. -/
  flags : RecordFlags
  /-- Raw FormID. -/
  formId : FormId
  /-- Version control info, not interpreted. -/
  versionControl : UInt32
  /-- Format version of this record. -/
  formVersion : UInt16
  /-- Reserved field. -/
  unknown : UInt16
deriving DecidableEq

/-- Parse a 24-byte record header. -/
def RecordHeader.parse : Reader CoreError RecordHeader := do
  let sigBytes ← io (readArray 4)
  let dataSize ← io readU32
  let flagsRaw ← io readU32
  let formIdRaw ← io readU32
  let versionControl ← io readU32
  let formVersion ← io readU16
  let unknown ← io readU16
  pure { signature := ⟨sigBytes⟩, dataSize, flags := ⟨flagsRaw⟩, formId := ⟨formIdRaw⟩,
         versionControl, formVersion, unknown }

/-- How the data block is stored inside a record. -/
inductive RecordData where
  /-- Uncompressed data. -/
  | raw (data : Bytes)
  /-- A zlib stream with the size expected after decompression. -/
  | compressed (data : Bytes) (decompressedSize : UInt32)
deriving DecidableEq

/-- A main record: any block that is not a group. -/
structure Record where
  /-- Parsed header. -/
  header : RecordHeader
  /-- Where the record stands in the plugin source, if it was parsed from one. -/
  sourceRange : Option Range
  /-- The data block. -/
  data : RecordData
  /-- Subrecords of a snapshot that was not parsed from bytes. -/
  parsed : Option (List SubRecord)
deriving DecidableEq

namespace Record

/-- Parse the record header and store the data block. -/
def parseHeader (_ctx : GameContext) : Reader CoreError Record := do
  let header ← RecordHeader.parse
  if header.signature = .GRUP then
    Reader.fail (.invalidSignature "non-GRUP" header.signature.display)
  else do
    let rawData ← io (readSlice header.dataSize.toNat)
    if header.flags.contains .COMPRESSED then
      if rawData.length < 4 then
        Reader.fail (.unexpectedEof "compressed record decompressed_size field")
      else
        pure { header, sourceRange := none, parsed := none,
               data := .compressed (rawData.drop 4) (u32FromLeBytes (rawData.take 4)) }
    else pure { header, sourceRange := none, parsed := none, data := .raw rawData }

/-- The uncompressed payload size, without decompressing. -/
def uncompressedDataSize (record : Record) : Nat :=
  match record.data with
  | .raw data => data.length
  | .compressed _ decompressedSize => decompressedSize.toNat

/-- The uncompressed data block. -/
def rawData (inflate : Inflate) (record : Record) : Except CoreError Bytes :=
  match record.data with
  | .raw data => .ok data
  | .compressed data size => (decompressZlib inflate data size.toNat).mapError .io

/-- The parsed subrecord list. -/
def subrecords (inflate : Inflate) (record : Record) : Except CoreError (List SubRecord) :=
  match record.parsed with
  | some cached => .ok cached
  | none => do
    let data ← record.rawData inflate
    parseSubrecords data

/-- The first subrecord with a signature. -/
def get (inflate : Inflate) (record : Record) (sig : Signature) :
    Except CoreError (Option SubRecord) := do
  let found ← record.subrecords inflate
  pure (found.find? (·.signature = sig))

/-- All subrecords with a signature. -/
def getAll (inflate : Inflate) (record : Record) (sig : Signature) :
    Except CoreError (List SubRecord) := do
  let found ← record.subrecords inflate
  pure (found.filter (·.signature = sig))

/-- The plugin kind that the record's flags denote. -/
def pluginKind (record : Record) (ctx : GameContext) : PluginKind :=
  ctx.pluginKindFromFlags record.header.flags

/-- The original bytes of this record, if its range lies in `source`. -/
def sourceBytes (record : Record) (source : Bytes) : Option Bytes := do
  let range ← record.sourceRange
  source.get range.start range.stop

end Record

end Bethkit
