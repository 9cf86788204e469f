import Bethkit.Archive.Types

/-!
# DDS headers

A texture archive stores no DDS headers. The header is built again from the fields of the record
when a texture is extracted, with one pixel format for every DXGI format.
-/

namespace Bethkit

open Lib

namespace Dds

/-- The first bytes of a DDS file. -/
def DDS_MAGIC : Bytes := [0x44, 0x44, 0x53, 0x20]

/-- Header flag: the capabilities field is present. -/
def FLAG_CAPS : UInt32 := 0x00000001

/-- Header flag: the height field is present. -/
def FLAG_HEIGHT : UInt32 := 0x00000002

/-- Header flag: the width field is present. -/
def FLAG_WIDTH : UInt32 := 0x00000004

/-- Header flag: the pitch is a row pitch. -/
def FLAG_PITCH : UInt32 := 0x00000008

/-- Header flag: the pixel format is present. -/
def FLAG_PIXELFORMAT : UInt32 := 0x00001000

/-- Header flag: the mip-map count is present. -/
def FLAG_MIPMAPCOUNT : UInt32 := 0x00020000

/-- Header flag: the pitch is a linear size. -/
def FLAG_LINEARSIZE : UInt32 := 0x00080000

/-- Capability: not a simple texture. -/
def CAPS_COMPLEX : UInt32 := 0x00000008

/-- Capability: a texture. -/
def CAPS_TEXTURE : UInt32 := 0x00001000

/-- Capability: mip maps. -/
def CAPS_MIPMAP : UInt32 := 0x00400000

/-- Capability: a cube map. -/
def CAPS2_CUBEMAP : UInt32 := 0x00000200

/-- Capability: the six faces of a cube map. -/
def CAPS2_FACES : UInt32 := 0x00000400 ||| 0x00000800 ||| 0x00001000 ||| 0x00002000 |||
  0x00004000 ||| 0x00008000

/-- Pixel format: an alpha channel. -/
def PF_ALPHAPIXELS : UInt32 := 0x00000001

/-- Pixel format: nothing but alpha. -/
def PF_ALPHA : UInt32 := 0x00000002

/-- Pixel format: a FourCC code. -/
def PF_FOURCC : UInt32 := 0x00000004

/-- Pixel format: uncompressed colors. -/
def PF_RGB : UInt32 := 0x00000040

/-- Pixel format: luminance. -/
def PF_LUMINANCE : UInt32 := 0x00020000

/-- `resourceDimension` of a 2D texture. -/
def DDS_DIMENSION_TEXTURE2D : UInt32 := 3

/-- `miscFlags` of a cube map. -/
def DDS_RESOURCE_MISC_TEXTURECUBE : UInt32 := 4

/-- FourCC code of BC1. -/
def FOURCC_DXT1 : Bytes := [0x44, 0x58, 0x54, 0x31]

/-- FourCC code of BC2. -/
def FOURCC_DXT3 : Bytes := [0x44, 0x58, 0x54, 0x33]

/-- FourCC code of BC3. -/
def FOURCC_DXT5 : Bytes := [0x44, 0x58, 0x54, 0x35]

/-- FourCC code of unsigned BC4. -/
def FOURCC_BC4U : Bytes := [0x41, 0x54, 0x49, 0x31]

/-- FourCC code of signed BC4. -/
def FOURCC_BC4S : Bytes := [0x42, 0x43, 0x34, 0x53]

/-- FourCC code of unsigned BC5. -/
def FOURCC_BC5U : Bytes := [0x41, 0x54, 0x49, 0x32]

/-- FourCC code of signed BC5. -/
def FOURCC_BC5S : Bytes := [0x42, 0x43, 0x35, 0x53]

/-- FourCC code of a header with a DX10 extension. -/
def FOURCC_DX10 : Bytes := [0x44, 0x58, 0x31, 0x30]

/-- DXGI formats of textures. -/
inductive DxgiFormat where
  | bc1Unorm | bc2Unorm | bc3Unorm | bc4Unorm | bc4Snorm | bc5Unorm | bc5Snorm | bc7Unorm
  | r8g8b8a8Unorm | b8g8r8a8Unorm | b8g8r8x8Unorm | b5g6r5Unorm | b5g5r5a1Unorm | r8g8Unorm
  | a8Unorm | r8Unorm | r8Snorm | r8Uint
  /-- Not handled. -/
  | unknown
deriving DecidableEq

namespace DxgiFormat

/-- The discriminant of a format. -/
def toU8 : DxgiFormat → UInt8
  | bc1Unorm => 71
  | bc2Unorm => 74
  | bc3Unorm => 77
  | bc4Unorm => 80
  | bc4Snorm => 81
  | bc5Unorm => 83
  | bc5Snorm => 84
  | bc7Unorm => 98
  | r8g8b8a8Unorm => 28
  | b8g8r8a8Unorm => 87
  | b8g8r8x8Unorm => 88
  | b5g6r5Unorm => 85
  | b5g5r5a1Unorm => 86
  | r8g8Unorm => 49
  | a8Unorm => 65
  | r8Unorm => 61
  | r8Snorm => 63
  | r8Uint => 62
  | unknown => 0

/-- The format of a raw value. -/
def ofU8 (value : UInt8) : DxgiFormat :=
  match value.toNat with
  | 71 => bc1Unorm
  | 74 => bc2Unorm
  | 77 => bc3Unorm
  | 80 => bc4Unorm
  | 81 => bc4Snorm
  | 83 => bc5Unorm
  | 84 => bc5Snorm
  | 98 => bc7Unorm
  | 28 => r8g8b8a8Unorm
  | 87 => b8g8r8a8Unorm
  | 88 => b8g8r8x8Unorm
  | 85 => b5g6r5Unorm
  | 86 => b5g5r5a1Unorm
  | 49 => r8g8Unorm
  | 65 => a8Unorm
  | 61 => r8Unorm
  | 63 => r8Snorm
  | 62 => r8Uint
  | _ => unknown

/-- Every format is read back from its discriminant. -/
@[simp]
theorem ofU8_toU8 (format : DxgiFormat) : ofU8 format.toU8 = format := by
  cases format <;> rfl

/-- A raw value of a known format is its discriminant. -/
theorem toU8_ofU8 {value : UInt8} (known : ofU8 value ≠ unknown) : (ofU8 value).toU8 = value := by
  have all : ∀ code < 256, ofU8 (UInt8.ofNat code) ≠ unknown →
      (ofU8 (UInt8.ofNat code)).toU8 = UInt8.ofNat code := by decide +kernel
  have here := all value.toNat value.toNat_lt
  rw [UInt8.ofNat_toNat] at here
  exact here known

end DxgiFormat

/-- How the pixels of a texture are described in its header. -/
inductive PixelFmt where
  /-- A FourCC code. -/
  | fourCC (code : Bytes)
  /-- The DX10 extension. -/
  | dx10
  /-- Color masks. -/
  | rgb (flags bitCount r g b a : UInt32)
  /-- A luminance mask and an alpha mask. -/
  | luminance (flags bitCount r a : UInt32)
  /-- An alpha mask. -/
  | alpha (bitCount a : UInt32)

/-- The extra header flag, the pitch or linear size and the pixel format. -/
def describe (width height : UInt16) (format : DxgiFormat) : UInt32 × UInt32 × PixelFmt :=
  let area := width.toUInt32 * height.toUInt32
  match format with
  | .bc1Unorm => (FLAG_LINEARSIZE, max (area / 2) 8, .fourCC FOURCC_DXT1)
  | .bc2Unorm => (FLAG_LINEARSIZE, max area 16, .fourCC FOURCC_DXT3)
  | .bc3Unorm => (FLAG_LINEARSIZE, max area 16, .fourCC FOURCC_DXT5)
  | .bc4Unorm => (FLAG_LINEARSIZE, max (area / 2) 8, .fourCC FOURCC_BC4U)
  | .bc4Snorm => (FLAG_LINEARSIZE, max (area / 2) 8, .fourCC FOURCC_BC4S)
  | .bc5Unorm => (FLAG_LINEARSIZE, max area 16, .fourCC FOURCC_BC5U)
  | .bc5Snorm => (FLAG_LINEARSIZE, max area 16, .fourCC FOURCC_BC5S)
  | .bc7Unorm => (FLAG_LINEARSIZE, max area 16, .dx10)
  | .r8g8b8a8Unorm => (FLAG_PITCH, width.toUInt32 * 4,
      .rgb (PF_RGB ||| PF_ALPHAPIXELS) 32 0x000000FF 0x0000FF00 0x00FF0000 0xFF000000)
  | .b8g8r8a8Unorm => (FLAG_PITCH, width.toUInt32 * 4,
      .rgb (PF_RGB ||| PF_ALPHAPIXELS) 32 0x00FF0000 0x0000FF00 0x000000FF 0xFF000000)
  | .b8g8r8x8Unorm => (FLAG_PITCH, width.toUInt32 * 4,
      .rgb PF_RGB 32 0x00FF0000 0x0000FF00 0x000000FF 0)
  | .b5g6r5Unorm => (FLAG_PITCH, width.toUInt32 * 2,
      .rgb PF_RGB 16 0x0000F800 0x000007E0 0x0000001F 0)
  | .b5g5r5a1Unorm => (FLAG_PITCH, width.toUInt32 * 2,
      .rgb (PF_RGB ||| PF_ALPHAPIXELS) 16 0x00007C00 0x000003E0 0x0000001F 0x00008000)
  | .r8g8Unorm => (FLAG_PITCH, width.toUInt32 * 2,
      .luminance (PF_LUMINANCE ||| PF_ALPHAPIXELS) 16 0x000000FF 0x0000FF00)
  | .a8Unorm => (FLAG_PITCH, width.toUInt32, .alpha 8 0x000000FF)
  | .r8Unorm => (FLAG_PITCH, width.toUInt32, .luminance PF_LUMINANCE 8 0x000000FF 0)
  | .r8Snorm | .r8Uint => (FLAG_PITCH, width.toUInt32, .dx10)
  | .unknown => (FLAG_LINEARSIZE, 0, .dx10)

/-- The pixel format block without its size: flags, FourCC code, bit count and masks. -/
def pixelFormatBlock : PixelFmt → Bytes
  | .fourCC code => u32ToLeBytes PF_FOURCC ++ (code ++ (u32ToLeBytes 0 ++ (u32ToLeBytes 0 ++
      (u32ToLeBytes 0 ++ (u32ToLeBytes 0 ++ u32ToLeBytes 0)))))
  | .dx10 => u32ToLeBytes PF_FOURCC ++ (FOURCC_DX10 ++ (u32ToLeBytes 0 ++ (u32ToLeBytes 0 ++
      (u32ToLeBytes 0 ++ (u32ToLeBytes 0 ++ u32ToLeBytes 0)))))
  | .rgb flags bitCount r g b a => u32ToLeBytes flags ++ ([0, 0, 0, 0] ++ (u32ToLeBytes bitCount ++
      (u32ToLeBytes r ++ (u32ToLeBytes g ++ (u32ToLeBytes b ++ u32ToLeBytes a)))))
  | .luminance flags bitCount r a => u32ToLeBytes flags ++ ([0, 0, 0, 0] ++
      (u32ToLeBytes bitCount ++ (u32ToLeBytes r ++ (u32ToLeBytes 0 ++ (u32ToLeBytes 0 ++
        u32ToLeBytes a)))))
  | .alpha bitCount a => u32ToLeBytes PF_ALPHA ++ ([0, 0, 0, 0] ++ (u32ToLeBytes bitCount ++
      (u32ToLeBytes 0 ++ (u32ToLeBytes 0 ++ (u32ToLeBytes 0 ++ u32ToLeBytes a)))))

/-- The two capability fields. -/
def capabilities (isCube : Bool) (numMips : UInt8) : UInt32 × UInt32 :=
  if isCube then (CAPS_TEXTURE ||| CAPS_COMPLEX, CAPS2_CUBEMAP ||| CAPS2_FACES)
  else if 1 < numMips then (CAPS_TEXTURE ||| CAPS_MIPMAP ||| CAPS_COMPLEX, 0)
  else (CAPS_TEXTURE, 0)

/-- The header flags; the mip-map count is not announced if it is zero. -/
def headerFlags (extra : UInt32) (numMips : UInt8) : UInt32 :=
  let flags := FLAG_CAPS ||| FLAG_PIXELFORMAT ||| FLAG_WIDTH ||| FLAG_HEIGHT |||
    FLAG_MIPMAPCOUNT ||| extra
  if numMips = 0 then flags &&& ~~~FLAG_MIPMAPCOUNT else flags

/-- The 20 bytes of the DX10 extension. -/
def dx10Extension (dxgiRaw : UInt8) (isCube : Bool) : Bytes :=
  u32ToLeBytes dxgiRaw.toUInt32 ++ (u32ToLeBytes DDS_DIMENSION_TEXTURE2D ++
    (u32ToLeBytes (if isCube then DDS_RESOURCE_MISC_TEXTURECUBE else 0) ++
      (u32ToLeBytes 1 ++ u32ToLeBytes 0)))

/-- Whether a pixel format needs the DX10 extension. -/
def PixelFmt.needsDx10 : PixelFmt → Bool
  | .dx10 => true
  | _ => false

/-- `build_dds_header`: 128 bytes, or 148 with the DX10 extension. -/
def buildDdsHeader (width height : UInt16) (numMips dxgiRaw : UInt8) (cubeMaps : UInt16) : Bytes :=
  let (ddsdExtra, pitchOrLinear, pixelFmt) := describe width height (DxgiFormat.ofU8 dxgiRaw)
  let isCube : Bool := cubeMaps = 2049
  let (dwcaps, dwcaps2) := capabilities isCube numMips
  DDS_MAGIC ++ (u32ToLeBytes 124 ++ (u32ToLeBytes (headerFlags ddsdExtra numMips) ++
    (u32ToLeBytes height.toUInt32 ++ (u32ToLeBytes width.toUInt32 ++ (u32ToLeBytes pitchOrLinear ++
    (u32ToLeBytes 1 ++ (u32ToLeBytes numMips.toUInt32 ++ (List.replicate 44 0 ++
    (u32ToLeBytes 32 ++ (pixelFormatBlock pixelFmt ++
    (u32ToLeBytes dwcaps ++ (u32ToLeBytes dwcaps2 ++ (u32ToLeBytes 0 ++ (u32ToLeBytes 0 ++
    (u32ToLeBytes 0 ++ if pixelFmt.needsDx10 then dx10Extension dxgiRaw isCube else []
    )))))))))))))))

end Dds

end Bethkit
