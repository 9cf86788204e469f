import Bethkit.Archive.Dds

/-!
# Reading DDS files

The writer of texture archives takes DDS files apart: the size, the mip maps and the DXGI format come
from the header, which describes the pixels in one of several ways.
-/

namespace Bethkit

open Lib

namespace DdsParse

open Dds

/-- What is known of a texture. -/
structure DdsInfo where
  /-- Width in pixels. -/
  width : UInt16
  /-- Height in pixels. -/
  height : UInt16
  /-- Number of mip levels. -/
  numMips : UInt8
  /-- Raw DXGI format. -/
  dxgiFormat : UInt8
  /-- 2049 for a cube map. -/
  cubeMaps : UInt16
  /-- All mip levels. -/
  mipData : Bytes
  /-- Offset and size of each mip level. -/
  mipRanges : List (Nat × Nat)
deriving DecidableEq

/-- A number as `{:#010x}` shows it. -/
def hexadecimal (word : UInt32) : String :=
  "0x" ++ String.ofList ((List.range 8).map fun i => Nat.digitChar (word.toNat / 16 ^ (7 - i) % 16))

/-- The format of a FourCC code. -/
def fourccToDxgi (fourCc : Bytes) : Option DxgiFormat :=
  if fourCc = FOURCC_DXT1 then some .bc1Unorm
  else if fourCc = FOURCC_DXT3 then some .bc2Unorm
  else if fourCc = FOURCC_DXT5 then some .bc3Unorm
  -- `ATI1` or `BC4U`
  else if fourCc = FOURCC_BC4U ∨ fourCc = [0x42, 0x43, 0x34, 0x55] then some .bc4Unorm
  else if fourCc = FOURCC_BC4S then some .bc4Snorm
  -- `ATI2` or `BC5U`
  else if fourCc = FOURCC_BC5U ∨ fourCc = [0x42, 0x43, 0x35, 0x55] then some .bc5Unorm
  else if fourCc = FOURCC_BC5S then some .bc5Snorm
  else none

/-- The format of uncompressed colors. -/
def uncompressedToDxgi (pfFlags bitCount rMask aMask : UInt32) : Except BsaError DxgiFormat :=
  let hasAlpha : Bool := pfFlags &&& PF_ALPHAPIXELS ≠ 0
  if bitCount = 32 ∧ rMask = 0x000000FF ∧ hasAlpha then .ok .r8g8b8a8Unorm
  else if bitCount = 32 ∧ rMask = 0x00FF0000 ∧ hasAlpha ∧ aMask = 0xFF000000 then .ok .b8g8r8a8Unorm
  else if bitCount = 32 ∧ rMask = 0x00FF0000 ∧ ¬hasAlpha then .ok .b8g8r8x8Unorm
  else if bitCount = 16 ∧ rMask = 0x0000F800 then .ok .b5g6r5Unorm
  else if bitCount = 16 ∧ rMask = 0x00007C00 then .ok .b5g5r5a1Unorm
  else if bitCount = 16 ∧ rMask = 0x000000FF then .ok .r8g8Unorm
  else .error (.invalidDds
    s!"unrecognised uncompressed format: {bitCount} bpp, r_mask={hexadecimal rMask}")

/-- The format of luminance values. -/
def luminanceToDxgi (bitCount aMask : UInt32) : Except BsaError DxgiFormat :=
  if bitCount = 8 ∧ aMask = 0 then .ok .r8Unorm
  else if bitCount = 16 ∧ aMask = 0xFF00 then .ok .r8g8Unorm
  else .error (.invalidDds
    s!"unrecognised luminance format: {bitCount} bpp, a_mask={hexadecimal aMask}")

/-- The raw format of a texture and the length of its header. -/
def recogniseFormat (dds : Bytes) : Except BsaError (UInt8 × Nat) :=
  let pfFlags := u32FromLeBytes (Bytes.slice dds 80 84)
  let fourCc := Bytes.slice dds 84 88
  let rgbBitCount := u32FromLeBytes (Bytes.slice dds 88 92)
  let rMask := u32FromLeBytes (Bytes.slice dds 92 96)
  let aMask := u32FromLeBytes (Bytes.slice dds 104 108)
  if pfFlags &&& PF_FOURCC ≠ 0 ∧ fourCc = FOURCC_DX10 then
    if dds.length < 148 then .error (.invalidDds "DDS too short for DX10 extension")
    else .ok ((u32FromLeBytes (Bytes.slice dds 128 132)).toUInt8, 148)
  else if pfFlags &&& PF_FOURCC ≠ 0 then
    match fourccToDxgi fourCc with
    | some format => .ok (format.toU8, 128)
    | none => .error (.invalidDds s!"unknown FourCC {fourCc}")
  else if pfFlags &&& PF_RGB ≠ 0 then
    (uncompressedToDxgi pfFlags rgbBitCount rMask aMask).map fun format => (format.toU8, 128)
  else if pfFlags &&& PF_LUMINANCE ≠ 0 then
    (luminanceToDxgi rgbBitCount aMask).map fun format => (format.toU8, 128)
  else if pfFlags &&& PF_ALPHA ≠ 0 then .ok (DxgiFormat.a8Unorm.toU8, 128)
  else .error (.invalidDds "cannot determine pixel format")

/-- Refuse a format that cannot be written. -/
def validateDxgiForWrite (dxgiFormat : UInt8) : Except BsaError Unit :=
  if DxgiFormat.ofU8 dxgiFormat = .unknown then .error (.unsupportedDxgiFormat dxgiFormat)
  else .ok ()

/-- `u32` multiplication: a build with overflow checks panics where others wrap around. -/
def mulU32 (overflowChecks : Bool) (left right : Nat) : Except BsaError Nat :=
  if left * right < 2 ^ 32 then .ok (left * right)
  else if overflowChecks then .error .overflow
  else .ok (left * right % 2 ^ 32)

/-- The size of a mip level of blocks of four by four pixels. -/
def blockSize (overflowChecks : Bool) (w h bytes : Nat) : Except BsaError Nat := do
  let blocks ← mulU32 overflowChecks ((max w 1 + 3) / 4) ((max h 1 + 3) / 4)
  mulU32 overflowChecks blocks bytes

/-- The size of a mip level of pixels. -/
def pixelSize (overflowChecks : Bool) (w h bytes : Nat) : Except BsaError Nat := do
  let pixels ← mulU32 overflowChecks (max w 1) (max h 1)
  mulU32 overflowChecks pixels bytes

/-- The size of a mip level. -/
def mipByteSize (overflowChecks : Bool) (w h : Nat) (fmt : UInt8) : Except BsaError Nat :=
  match DxgiFormat.ofU8 fmt with
  | .bc1Unorm | .bc4Unorm | .bc4Snorm => blockSize overflowChecks w h 8
  | .bc2Unorm | .bc3Unorm | .bc5Unorm | .bc5Snorm | .bc7Unorm => blockSize overflowChecks w h 16
  | .r8g8b8a8Unorm | .b8g8r8a8Unorm | .b8g8r8x8Unorm => pixelSize overflowChecks w h 4
  | .r8g8Unorm | .b5g6r5Unorm | .b5g5r5a1Unorm => pixelSize overflowChecks w h 2
  | .a8Unorm | .r8Unorm | .r8Snorm | .r8Uint => mulU32 overflowChecks (max w 1) (max h 1)
  | .unknown => .error (.unsupportedDxgiFormat fmt)

/-- The mip levels from an offset on, the first of which has this width and height. -/
def mipRangesFrom (overflowChecks : Bool) (dxgiFormat : UInt8) (mipData : Bytes) :
    Nat → Nat → Nat → Nat → Except BsaError (List (Nat × Nat))
  | 0, _, _, _ => .ok []
  | count + 1, offset, w, h => do
    let size ← mipByteSize overflowChecks w h dxgiFormat
    if mipData.length < offset + size then
      .error (.invalidDds
        s!"DDS mip data too short: need {size} bytes at offset {offset}, have {mipData.length}")
    else do
      let ranges ← mipRangesFrom overflowChecks dxgiFormat mipData count (offset + size)
        (max (w / 2) 1) (max (h / 2) 1)
      pure ((offset, size) :: ranges)

/-- The offset and the size of each mip level. -/
def computeMipRanges (overflowChecks : Bool) (width height : UInt32) (numMips dxgiFormat : UInt8)
    (mipData : Bytes) : Except BsaError (List (Nat × Nat)) :=
  mipRangesFrom overflowChecks dxgiFormat mipData numMips.toNat 0 width.toNat height.toNat

/-- `u16::try_from`, with an error that names the field. -/
def u16TryFrom (field : String) (value : UInt32) : Except BsaError UInt16 :=
  if value < 65536 then .ok value.toUInt16
  else .error (.invalidDds s!"{field} {value} exceeds u16")

/-- Parse a DDS file. -/
def parse (overflowChecks : Bool) (dds : Bytes) : Except BsaError DdsInfo :=
  if dds.length < 128 then .error (.invalidDds "DDS too short for header")
  else if Bytes.slice dds 0 4 ≠ DDS_MAGIC then .error (.invalidDds "not a DDS file")
  else
    let dwSize := u32FromLeBytes (Bytes.slice dds 4 8)
    if dwSize ≠ 124 then .error (.invalidDds s!"DDS_HEADER.dwSize expected 124, got {dwSize}")
    else do
      let height := u32FromLeBytes (Bytes.slice dds 12 16)
      let width := u32FromLeBytes (Bytes.slice dds 16 20)
      let mipCountRaw := u32FromLeBytes (Bytes.slice dds 28 32)
      -- no mip maps means one level
      let numMips := UInt8.ofNat (min (max mipCountRaw.toNat 1) 255)
      let caps2 := u32FromLeBytes (Bytes.slice dds 112 116)
      let cubeMaps : UInt16 := if caps2 &&& 0x00000200 ≠ 0 then 2049 else 0
      let format ← recogniseFormat dds
      validateDxgiForWrite format.1
      let mipData := dds.drop format.2
      let mipRanges ← computeMipRanges overflowChecks width height numMips format.1 mipData
      let width16 ← u16TryFrom "width" width
      let height16 ← u16TryFrom "height" height
      pure {
        width := width16
        height := height16
        numMips := numMips
        dxgiFormat := format.1
        cubeMaps := cubeMaps
        mipData := mipData
        mipRanges := mipRanges }

end DdsParse

end Bethkit
