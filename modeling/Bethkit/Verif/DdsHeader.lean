import Bethkit.Lib.Outcome
import Bethkit.Spec.Ba2Packing
import Bethkit.Verif.Ba2Names

/-!
# Headers that are recognised again

The header that is built for a texture is parsed as the same texture: each DXGI format is described in
a way that the parser takes for this format.
-/

namespace Bethkit

open Lib

namespace DdsParse

open Dds

/-- The format that the pixel format block, the length of the file and the field of the DX10 extension
say. -/
def recogniseBlock (block : Bytes) (short : Bool) (extension : UInt32) :
    Except BsaError (UInt8 × Nat) :=
  let pfFlags := u32FromLeBytes (Bytes.slice block 0 4)
  let fourCc := Bytes.slice block 4 8
  let rgbBitCount := u32FromLeBytes (Bytes.slice block 8 12)
  let rMask := u32FromLeBytes (Bytes.slice block 12 16)
  let aMask := u32FromLeBytes (Bytes.slice block 24 28)
  if pfFlags &&& PF_FOURCC ≠ 0 ∧ fourCc = FOURCC_DX10 then
    if short then .error (.invalidDds "DDS too short for DX10 extension")
    else .ok (extension.toUInt8, 148)
  else if pfFlags &&& PF_FOURCC ≠ 0 then
    match fourccToDxgi fourCc with
    | some format => .ok (format.toU8, 128)
    | none => .error (.invalidDds s!"unknown FourCC {fourCc}")
  else if pfFlags &&& PF_RGB ≠ 0 then
    (uncompressedToDxgi pfFlags rgbBitCount rMask aMask).map fun format => (format.toU8, 128)
  else if pfFlags &&& PF_LUMINANCE ≠ 0 then
    (luminanceToDxgi rgbBitCount aMask).map fun format => (format.toU8, 128)
  else if pfFlags &&& PF_ALPHA ≠ 0 then .ok (DxgiFormat.a8Unorm.toU8, 128)
  else .error (.invalidDds "cannot determine pixel format")

/-- A format is recognised by its block and its extension. -/
theorem recogniseFormat_eq (dds : Bytes) : recogniseFormat dds =
    recogniseBlock (Bytes.slice dds 80 108) (dds.length < 148)
      (u32FromLeBytes (Bytes.slice dds 128 132)) := by
  have field (start : Nat) {stop : Nat} (inside : 80 + stop ≤ 108) :
      Bytes.slice (Bytes.slice dds 80 108) start stop = Bytes.slice dds (80 + start) (80 + stop) :=
    Bytes.slice_slice dds start inside
  rw [recogniseBlock, @field 0 4 (by decide), @field 4 8 (by decide), @field 8 12 (by decide),
    @field 12 16 (by decide), @field 24 28 (by decide)]
  simp only [decide_eq_true_eq]
  rfl

/-- How a format is described does not depend on the size of the texture. -/
theorem describe_format (width height : UInt16) (format : DxgiFormat) :
    (describe width height format).2.2 = (describe 0 0 format).2.2 := by
  cases format <;> rfl

/-- Each format is recognised by the block that describes it, and by its extension if it has one. -/
theorem recogniseBlock_describe {format : DxgiFormat} (known : format ≠ .unknown) {short : Bool}
    {extension : UInt32} (extended : Write.headerLength format.toU8 = 148 →
      short = false ∧ extension = format.toU8.toUInt32) :
    recogniseBlock (pixelFormatBlock (describe 0 0 format).2.2) short extension =
      .ok (format.toU8, Write.headerLength format.toU8) := by
  cases format with
  | unknown => exact absurd rfl known
  | bc7Unorm | r8Snorm | r8Uint =>
    obtain ⟨rfl, rfl⟩ := extended rfl
    rfl
  | _ => rfl

variable {width height : UInt16} {numMips dxgiRaw : UInt8} {cubeMaps : UInt16}

/-- The length of a header. -/
theorem length_buildDdsHeader : (buildDdsHeader width height numMips dxgiRaw cubeMaps).length =
    Write.headerLength dxgiRaw := by
  unfold buildDdsHeader Write.headerLength
  cases DxgiFormat.ofU8 dxgiRaw <;> rfl

/-- The pixel format block of a header. -/
theorem slice_pixelFormat (data : Bytes) :
    Bytes.slice (buildDdsHeader width height numMips dxgiRaw cubeMaps ++ data) 80 108 =
      pixelFormatBlock (describe 0 0 (DxgiFormat.ofU8 dxgiRaw)).2.2 := by
  unfold buildDdsHeader
  cases DxgiFormat.ofU8 dxgiRaw <;> rfl

/-- The extension of a header that has one. -/
theorem slice_extension (extended : Write.headerLength dxgiRaw = 148) (data : Bytes) :
    Bytes.slice (buildDdsHeader width height numMips dxgiRaw cubeMaps ++ data) 128 132 =
      u32ToLeBytes dxgiRaw.toUInt32 := by
  unfold Write.headerLength at extended
  unfold buildDdsHeader
  cases format : DxgiFormat.ofU8 dxgiRaw <;> first | rfl | (rw [format] at extended; contradiction)

/-- The second field of capabilities of a header. -/
theorem slice_caps2 (data : Bytes) :
    Bytes.slice (buildDdsHeader width height numMips dxgiRaw cubeMaps ++ data) 112 116 =
      u32ToLeBytes (capabilities (cubeMaps = 2049) numMips).2 := by
  unfold buildDdsHeader
  cases DxgiFormat.ofU8 dxgiRaw <;> rfl

/-- The format of a header is recognised. -/
theorem recogniseFormat_buildDdsHeader (known : DxgiFormat.ofU8 dxgiRaw ≠ .unknown) (data : Bytes) :
    recogniseFormat (buildDdsHeader width height numMips dxgiRaw cubeMaps ++ data) =
      .ok (dxgiRaw, Write.headerLength dxgiRaw) := by
  have raw := DxgiFormat.toU8_ofU8 known
  have read := @recogniseBlock_describe _ known
    ((buildDdsHeader width height numMips dxgiRaw cubeMaps ++ data).length < 148)
    (u32FromLeBytes (Bytes.slice (buildDdsHeader width height numMips dxgiRaw cubeMaps ++ data)
      128 132)) (by
    rw [raw]
    intro extended
    rw [slice_extension extended, u32FromLeBytes_toLeBytes, List.length_append,
      length_buildDdsHeader, extended]
    exact ⟨decide_eq_false (Nat.not_lt.mpr (Nat.le_add_right _ _)), rfl⟩)
  rw [raw] at read
  rw [recogniseFormat_eq, slice_pixelFormat]
  exact read

/-- What the parser makes sure of. -/
structure WellFormed (overflowChecks : Bool) (info : DdsInfo) : Prop where
  /-- There is a mip level. -/
  levels : info.numMips ≠ 0
  /-- The format is known. -/
  known : DxgiFormat.ofU8 info.dxgiFormat ≠ .unknown
  /-- The texture is a cube map or not. -/
  cube : info.cubeMaps = 0 ∨ info.cubeMaps = 2049
  /-- The mip levels are in the data. -/
  ranges : computeMipRanges overflowChecks info.width.toUInt32 info.height.toUInt32 info.numMips info.dxgiFormat
    info.mipData = .ok info.mipRanges

/-- A number of mip levels that is brought into range. -/
theorem clamp_ne_zero (raw : Nat) : UInt8.ofNat (min (max raw 1) 255) ≠ 0 := by
  intro zero
  have value := congrArg UInt8.toNat zero
  rw [UInt8.toNat_ofNat'] at value
  change min (max raw 1) 255 % 256 = 0 at value
  omega

/-- A value that fits is not changed. -/
theorem u16TryFrom_eq_ok {field : String} {value : UInt32} {result : UInt16}
    (fits : u16TryFrom field value = .ok result) : value = result.toUInt32 := by
  rw [u16TryFrom] at fits
  split at fits
  · rename_i small
    rw [← Except.ok.inj fits, ← UInt32.toNat_inj]
    have bound : value.toNat < 65536 := small
    simp [Nat.mod_eq_of_lt bound]
  · contradiction

/-- Every 16-bit value fits. -/
theorem u16TryFrom_toUInt32 (field : String) (value : UInt16) :
    u16TryFrom field value.toUInt32 = .ok value := by
  have small : value.toUInt32 < 65536 := value.toNat_lt
  rw [u16TryFrom, if_pos small, UInt16.toUInt16_toUInt32]

/-- What is parsed is well formed. -/
theorem parse_wellFormed {dds : Bytes} {info : DdsInfo} {overflowChecks : Bool} (parsed : parse overflowChecks dds = .ok info) :
    WellFormed overflowChecks info := by
  rw [parse] at parsed
  split at parsed
  · contradiction
  split at parsed
  · contradiction
  dsimp only at parsed
  split at parsed
  · contradiction
  obtain ⟨format, _, parsed⟩ := bind_eq_ok.mp parsed
  obtain ⟨_, valid, parsed⟩ := bind_eq_ok.mp parsed
  obtain ⟨ranges, computed, parsed⟩ := bind_eq_ok.mp parsed
  obtain ⟨width, wide, parsed⟩ := bind_eq_ok.mp parsed
  obtain ⟨height, high, parsed⟩ := bind_eq_ok.mp parsed
  rw [u16TryFrom_eq_ok wide, u16TryFrom_eq_ok high] at computed
  rw [← Except.ok.inj parsed]
  refine ⟨clamp_ne_zero _, fun unknown => ?_, ?_, computed⟩
  · rw [validateDxgiForWrite, if_pos unknown] at valid
    contradiction
  · dsimp only
    split
    · exact .inr rfl
    · exact .inl rfl

/-- The header that is built for a texture. -/
def DdsInfo.header (info : DdsInfo) : Bytes :=
  buildDdsHeader info.width info.height info.numMips info.dxgiFormat info.cubeMaps

/-- A new header and the mip levels are parsed as the texture that they were taken from. -/
theorem parse_header {info : DdsInfo} {overflowChecks : Bool} (formed : WellFormed overflowChecks info) :
    parse overflowChecks (info.header ++ info.mipData) = .ok info := by
  have long : ¬(info.header ++ info.mipData).length < 128 := by
    rw [List.length_append, DdsInfo.header, length_buildDdsHeader, Write.headerLength]
    split <;> omega
  have magic : Bytes.slice (info.header ++ info.mipData) 0 4 = DDS_MAGIC := rfl
  have size : Bytes.slice (info.header ++ info.mipData) 4 8 = u32ToLeBytes 124 := rfl
  have height : Bytes.slice (info.header ++ info.mipData) 12 16 =
      u32ToLeBytes info.height.toUInt32 := rfl
  have width : Bytes.slice (info.header ++ info.mipData) 16 20 =
      u32ToLeBytes info.width.toUInt32 := rfl
  have mips : Bytes.slice (info.header ++ info.mipData) 28 32 =
      u32ToLeBytes info.numMips.toUInt32 := rfl
  have caps2 : Bytes.slice (info.header ++ info.mipData) 112 116 =
      u32ToLeBytes (capabilities (info.cubeMaps = 2049) info.numMips).2 := slice_caps2 info.mipData
  have format : recogniseFormat (info.header ++ info.mipData) =
      .ok (info.dxgiFormat, Write.headerLength info.dxgiFormat) :=
    recogniseFormat_buildDdsHeader formed.known info.mipData
  have valid : validateDxgiForWrite info.dxgiFormat = .ok () := if_neg formed.known
  have data : (info.header ++ info.mipData).drop (Write.headerLength info.dxgiFormat) =
      info.mipData := List.drop_left' length_buildDdsHeader
  have levels : UInt8.ofNat (min (max info.numMips.toUInt32.toNat 1) 255) = info.numMips := by
    have some : info.numMips.toNat ≠ 0 := fun zero => formed.levels (UInt8.toNat_inj.mp zero)
    have bound := info.numMips.toNat_lt
    have same : min (max info.numMips.toUInt32.toNat 1) 255 = info.numMips.toNat := by
      rw [UInt8.toNat_toUInt32]
      omega
    rw [same, UInt8.ofNat_toNat]
  have cube : (if (capabilities (info.cubeMaps = 2049) info.numMips).2 &&& 0x00000200 ≠ 0 then
      (2049 : UInt16) else 0) = info.cubeMaps := by
    rcases formed.cube with plain | cube
    · have none : (capabilities (info.cubeMaps = 2049) info.numMips).2 = 0 := by
        rw [plain, capabilities]
        split <;> first | contradiction | (split <;> rfl)
      rw [none, plain]
      rfl
    · have all : (capabilities (info.cubeMaps = 2049) info.numMips).2 =
          CAPS2_CUBEMAP ||| CAPS2_FACES := by
        rw [cube]
        rfl
      rw [all, cube]
      rfl
  rw [parse, if_neg long, magic, if_neg (not_not.mpr rfl)]
  dsimp only
  rw [size, u32FromLeBytes_toLeBytes, if_neg (not_not.mpr rfl), format, ok_bind, valid, ok_bind,
    width, height, mips, caps2, u32FromLeBytes_toLeBytes, u32FromLeBytes_toLeBytes,
    u32FromLeBytes_toLeBytes, u32FromLeBytes_toLeBytes, levels, data, formed.ranges, ok_bind,
    u16TryFrom_toUInt32, ok_bind, u16TryFrom_toUInt32, ok_bind, cube]
  rfl

/-- Whatever stands behind a new header is taken for the mip levels. -/
theorem mipData_of_parse_header {info parsed : DdsInfo} {overflowChecks : Bool} (formed : WellFormed overflowChecks info) {data : Bytes}
    (read : parse overflowChecks (info.header ++ data) = .ok parsed) : parsed.mipData = data := by
  rw [parse] at read
  split at read
  · contradiction
  split at read
  · contradiction
  dsimp only at read
  split at read
  · contradiction
  have format : recogniseFormat (info.header ++ data) =
      .ok (info.dxgiFormat, Write.headerLength info.dxgiFormat) :=
    recogniseFormat_buildDdsHeader formed.known data
  rw [format, ok_bind] at read
  obtain ⟨_, _, read⟩ := bind_eq_ok.mp read
  obtain ⟨_, _, read⟩ := bind_eq_ok.mp read
  obtain ⟨_, _, read⟩ := bind_eq_ok.mp read
  obtain ⟨_, _, read⟩ := bind_eq_ok.mp read
  rw [← Except.ok.inj read]
  exact List.drop_left' length_buildDdsHeader

end DdsParse

end Bethkit
