import Bethkit.Archive.DdsParse
import Bethkit.Verif.DdsHeader

/-!
# Mip levels

How many bytes a mip level takes in a format, without any bound on the numbers, and what the format
field of a DDS file says before it is cut to a byte.
-/

namespace Bethkit

open Lib

namespace Dds

/-- The side of a block of pixels and the bytes of a block. -/
def blockLayout : DxgiFormat → Nat × Nat
  | .bc1Unorm | .bc4Unorm | .bc4Snorm => (4, 8)
  | .bc2Unorm | .bc3Unorm | .bc5Unorm | .bc5Snorm | .bc7Unorm => (4, 16)
  | .r8g8b8a8Unorm | .b8g8r8a8Unorm | .b8g8r8x8Unorm => (1, 4)
  | .r8g8Unorm | .b5g6r5Unorm | .b5g5r5a1Unorm => (1, 2)
  | .a8Unorm | .r8Unorm | .r8Snorm | .r8Uint => (1, 1)
  | .unknown => (1, 0)

/-- The number of bytes of an image: that of its blocks. -/
def imageSize (format : DxgiFormat) (width height : Nat) : Nat :=
  let side := (blockLayout format).1
  ((width + (side - 1)) / side) * ((height + (side - 1)) / side) * (blockLayout format).2

/-- The number of bytes of a mip level of an image. -/
def levelSize (format : DxgiFormat) (width height level : Nat) : Nat :=
  imageSize format (max (width / 2 ^ level) 1) (max (height / 2 ^ level) 1)

end Dds

namespace DdsParse

open Dds

/-- The 32-bit format of a file with a DX10 extension. -/
def extensionFormat (dds : Bytes) : Option UInt32 :=
  if u32FromLeBytes (Bytes.slice dds 80 84) &&& PF_FOURCC ≠ 0 ∧ Bytes.slice dds 84 88 = FOURCC_DX10
  then some (u32FromLeBytes (Bytes.slice dds 128 132)) else none

/-- The format and the mip levels of a parsed file are right. -/
structure Exact (dds : Bytes) (info : DdsInfo) : Prop where
  /-- The recorded format is the format of the file. -/
  format : ∀ full, extensionFormat dds = some full → info.dxgiFormat.toUInt32 = full
  /-- There is a range for each level. -/
  count : info.mipRanges.length = info.numMips.toNat
  /-- A range begins where the ranges before it end. -/
  consecutive : ∀ level (inside : level < info.mipRanges.length),
    info.mipRanges[level].1 = ((info.mipRanges.take level).map Prod.snd).sum
  /-- The ranges lie inside the data. -/
  within : ∀ range ∈ info.mipRanges, range.1 + range.2 ≤ info.mipData.length
  /-- A range has the size of its level. -/
  sizes : ∀ level (inside : level < info.mipRanges.length), info.mipRanges[level].2 =
    levelSize (DxgiFormat.ofU8 info.dxgiFormat) info.width.toNat info.height.toNat level

end DdsParse

/-!
## The sizes of mip levels

The ranges of a parsed texture are consecutive and lie inside its data. Their sizes are those of the
levels exactly when the largest level takes less than 4 GiB, and the format is the one of the file
exactly when it fits a byte.
-/

namespace DdsParse

open Dds

variable {overflowChecks : Bool}

/-- A product is kept modulo the word size. -/
theorem mulU32_eq_ok {left right product : Nat} (made : mulU32 overflowChecks left right = .ok product) :
    product = left * right % 2 ^ 32 := by
  rw [mulU32] at made
  split at made
  · rename_i small
    rw [← Except.ok.inj made, Nat.mod_eq_of_lt small]
  · split at made
    · contradiction
    · exact (Except.ok.inj made).symm

/-- Two products are kept modulo the word size. -/
theorem mulU32_mulU32_eq_ok {left right factor product : Nat}
    (made : (mulU32 overflowChecks left right >>= fun first =>
      mulU32 overflowChecks first factor) = .ok product) :
    product = left * right * factor % 2 ^ 32 := by
  obtain ⟨first, inner, outer⟩ := bind_eq_ok.mp made
  rw [mulU32_eq_ok outer, mulU32_eq_ok inner, Nat.mod_mul_mod]

/-- The size that is computed for a level is kept modulo the word size. -/
theorem mipByteSize_eq_ok {w h size : Nat} {fmt : UInt8}
    (made : mipByteSize overflowChecks w h fmt = .ok size) :
    size = imageSize (DxgiFormat.ofU8 fmt) (max w 1) (max h 1) % 2 ^ 32 := by
  rw [mipByteSize] at made
  rw [imageSize]
  cases format : DxgiFormat.ofU8 fmt with
  | unknown =>
    rw [format] at made
    contradiction
  | bc1Unorm | bc4Unorm | bc4Snorm | bc2Unorm | bc3Unorm | bc5Unorm | bc5Snorm | bc7Unorm =>
    rw [format] at made
    exact mulU32_mulU32_eq_ok made
  | r8g8b8a8Unorm | b8g8r8a8Unorm | b8g8r8x8Unorm | r8g8Unorm | b5g6r5Unorm | b5g5r5a1Unorm =>
    rw [format] at made
    have size := mulU32_mulU32_eq_ok made
    simpa [blockLayout] using size
  | a8Unorm | r8Unorm | r8Snorm | r8Uint =>
    rw [format] at made
    have size := mulU32_eq_ok made
    simpa [blockLayout] using size

/-- Smaller images take fewer bytes. -/
theorem imageSize_mono (format : DxgiFormat) {width wider height higher : Nat} (wide : width ≤ wider)
    (high : height ≤ higher) : imageSize format width height ≤ imageSize format wider higher := by
  rw [imageSize, imageSize]
  gcongr

/-- The first level is the largest. -/
theorem levelSize_le (format : DxgiFormat) (width height level : Nat) :
    levelSize format width height level ≤ levelSize format width height 0 := by
  rw [levelSize, levelSize, pow_zero, Nat.div_one, Nat.div_one]
  apply imageSize_mono
  · exact max_le_max_right 1 (Nat.div_le_self _ _)
  · exact max_le_max_right 1 (Nat.div_le_self _ _)

/-- A level of the halved image is the next level. -/
theorem levelSize_half (format : DxgiFormat) (width height level : Nat) :
    levelSize format (max (width / 2) 1) (max (height / 2) 1) level =
      levelSize format width height (level + 1) := by
  have half (side : Nat) : max (max (side / 2) 1 / 2 ^ level) 1 = max (side / 2 ^ (level + 1)) 1 := by
    rw [pow_succ', ← Nat.div_div_eq_div_mul]
    have one : 1 / 2 ^ level ≤ 1 := Nat.div_le_self 1 _
    rcases Nat.eq_zero_or_pos (side / 2) with zero | some
    · rw [zero, Nat.zero_div, Nat.zero_max, Nat.max_eq_right one]
    · rw [Nat.max_eq_left some]
  rw [levelSize, levelSize, half, half]

/-- What is computed for the levels from one on. -/
theorem mipRangesFrom_eq_ok {format : UInt8} {mipData : Bytes} {count offset w h : Nat}
    {ranges : List (Nat × Nat)}
    (made : mipRangesFrom overflowChecks format mipData count offset w h = .ok ranges) :
    ranges.length = count ∧
    (∀ level (inside : level < ranges.length),
      ranges[level].1 = offset + ((ranges.take level).map Prod.snd).sum) ∧
    (∀ range ∈ ranges, range.1 + range.2 ≤ mipData.length) ∧
    ∀ level (inside : level < ranges.length), ranges[level].2 =
      levelSize (DxgiFormat.ofU8 format) w h level % 2 ^ 32 := by
  induction count generalizing offset w h ranges with
  | zero =>
    obtain rfl := Except.ok.inj made
    exact ⟨rfl, fun _ none => absurd none (Nat.not_lt_zero _), fun _ none => absurd none
      List.not_mem_nil, fun _ none => absurd none (Nat.not_lt_zero _)⟩
  | succ count rest =>
    obtain ⟨size, here, made⟩ := bind_eq_ok.mp made
    split at made
    · contradiction
    · rename_i fits
      obtain ⟨others, further, same⟩ := bind_eq_ok.mp made
      obtain rfl := Except.ok.inj same
      obtain ⟨length, starts, inside, sizes⟩ := rest further
      refine ⟨congrArg (· + 1) length, fun level small => ?_, ?_, fun level small => ?_⟩
      · cases level with
        | zero => rfl
        | succ level =>
          have start := starts level (Nat.lt_of_succ_lt_succ small)
          rw [List.getElem_cons_succ, start, List.take_succ_cons, List.map_cons, List.sum_cons,
            Nat.add_assoc]
      · exact List.forall_mem_cons.mpr ⟨Nat.le_of_not_lt fits, inside⟩
      · cases level with
        | zero =>
          rw [levelSize, pow_zero, Nat.div_one, Nat.div_one]
          exact mipByteSize_eq_ok here
        | succ level =>
          have size := sizes level (Nat.lt_of_succ_lt_succ small)
          rwa [levelSize_half] at size

/-- A file with an extension has the format of the extension, cut to a byte. -/
theorem recogniseFormat_extension {dds : Bytes} {format : UInt8 × Nat} {full : UInt32}
    (recognised : recogniseFormat dds = .ok format) (extended : extensionFormat dds = some full) :
    format.1 = full.toUInt8 := by
  rw [extensionFormat] at extended
  split at extended
  · rename_i dx10
    rw [recogniseFormat, if_pos dx10] at recognised
    split at recognised
    · contradiction
    · rw [← Except.ok.inj recognised, Option.some.inj extended]
  · contradiction

/-- What is known of a parsed file. -/
theorem of_parse_eq_ok {dds : Bytes} {info : DdsInfo} (parsed : parse overflowChecks dds = .ok info) :
    (∀ full, extensionFormat dds = some full → info.dxgiFormat = full.toUInt8) ∧
      mipRangesFrom overflowChecks info.dxgiFormat info.mipData info.numMips.toNat 0 info.width.toNat
        info.height.toNat = .ok info.mipRanges := by
  refine ⟨?_, ?_⟩
  · rw [parse] at parsed
    split at parsed
    · contradiction
    split at parsed
    · contradiction
    dsimp only at parsed
    split at parsed
    · contradiction
    obtain ⟨format, recognised, parsed⟩ := bind_eq_ok.mp parsed
    obtain ⟨_, _, parsed⟩ := bind_eq_ok.mp parsed
    obtain ⟨_, _, parsed⟩ := bind_eq_ok.mp parsed
    obtain ⟨_, _, parsed⟩ := bind_eq_ok.mp parsed
    obtain ⟨_, _, parsed⟩ := bind_eq_ok.mp parsed
    rw [← Except.ok.inj parsed]
    exact fun full => recogniseFormat_extension recognised
  · have ranges := (parse_wellFormed parsed).ranges
    rwa [computeMipRanges, UInt16.toNat_toUInt32, UInt16.toNat_toUInt32] at ranges

/-- A word is kept in a byte exactly when it fits. -/
theorem toUInt32_toUInt8 {word : UInt32} : word.toUInt8.toUInt32 = word ↔ word.toNat < 256 := by
  rw [← UInt32.toNat_inj, UInt8.toNat_toUInt32, UInt32.toNat_toUInt8]
  exact ⟨fun same => by omega, fun small => Nat.mod_eq_of_lt small⟩

/-- The format and the mip levels of an accepted file are right exactly when a format in an extension
fits a byte and the first level takes less than 4 GiB. -/
theorem exact_iff {dds : Bytes} {info : DdsInfo} (parsed : parse overflowChecks dds = .ok info) :
    Exact dds info ↔ (∀ full, extensionFormat dds = some full → full.toNat < 256) ∧
      levelSize (DxgiFormat.ofU8 info.dxgiFormat) info.width.toNat info.height.toNat 0 < 2 ^ 32 := by
  obtain ⟨format, made⟩ := of_parse_eq_ok parsed
  obtain ⟨length, starts, inside, sizes⟩ := mipRangesFrom_eq_ok made
  constructor
  · intro exact_
    refine ⟨fun full extended => ?_, ?_⟩
    · rw [← toUInt32_toUInt8, ← format full extended]
      exact exact_.format full extended
    · have first : 0 < info.mipRanges.length := by
        rw [length]
        exact Nat.pos_of_ne_zero fun zero =>
          (parse_wellFormed parsed).levels (UInt8.toNat_inj.mp zero)
      rw [← exact_.sizes 0 first, sizes 0 first]
      exact Nat.mod_lt _ (by decide)
  · rintro ⟨narrow, small⟩
    refine ⟨fun full extended => ?_, length, fun level below => ?_, inside, fun level below => ?_⟩
    · rw [format full extended]
      exact toUInt32_toUInt8.mpr (narrow full extended)
    · rw [starts level below, Nat.zero_add]
    · rw [sizes level below]
      exact Nat.mod_eq_of_lt ((levelSize_le _ _ _ level).trans_lt small)

/-- The file of a texture of one pixel. -/
def pixelFile : Bytes := buildDdsHeader 1 1 1 65 0 ++ [7]

/-- What is read of a texture of one pixel is right. -/
theorem exact_pixelFile : Exact pixelFile ⟨1, 1, 1, 65, 0, [7], [(0, 1)]⟩ := by
  refine (@exact_iff true pixelFile ⟨1, 1, 1, 65, 0, [7], [(0, 1)]⟩
    (eq_ok_of_toOption (by decide +kernel))).mpr ⟨?_, by decide⟩
  have none : extensionFormat pixelFile = none := by decide +kernel
  intro full extended
  rw [none] at extended
  contradiction

/-- A header of a square of 32768 pixels of four bytes each, with no data. -/
def emptySquare : Bytes := buildDdsHeader 32768 32768 1 28 0

/-- A header whose extension asks for the format 327, with the data of a block of BC1. -/
def cutFormat : Bytes :=
  (buildDdsHeader 4 4 1 98 0).take 128 ++ (u32ToLeBytes 327 ++ List.replicate 24 0)

/-- A file without the data of its level is accepted where products wrap around, and a file of an
unknown format is accepted as BC1. -/
theorem not_exact_emptySquare :
    (∃ info, parse false emptySquare = .ok info ∧ info.mipRanges = [(0, 0)] ∧
      ¬Exact emptySquare info) ∧
    ∃ info, parse true cutFormat = .ok info ∧ info.dxgiFormat = 71 ∧ ¬Exact cutFormat info := by
  refine ⟨⟨⟨32768, 32768, 1, 28, 0, [], [(0, 0)]⟩, eq_ok_of_toOption (by decide +kernel), rfl,
    fun exact_ => ?_⟩, ⟨4, 4, 1, 71, 0, List.replicate 8 0, [(0, 8)]⟩,
    eq_ok_of_toOption (by decide +kernel), rfl, fun exact_ => ?_⟩
  · exact absurd (exact_.sizes 0 (by decide)) (by decide)
  · exact absurd (exact_.format 327 (by decide +kernel)) (by decide)

end DdsParse

end Bethkit
