import Bethkit.Core.Bytes

/-!
# Core domain types

Signatures, FormIDs, record flags, plugin kinds and the game context. The words are game
agnostic; the flag positions, FormID ranges and header signatures that depend on the game are
functions of `GameContext`.
-/

namespace Bethkit

open Lib

/-- A 4-byte record or subrecord signature. -/
structure Signature where
  /-- The bytes in file order. -/
  bytes : Fixed 4
deriving DecidableEq

namespace Signature

/-- Plugin header record (`b"TES4"`). -/
def TES4 : Signature := ⟨⟨[0x54, 0x45, 0x53, 0x34], rfl⟩⟩
/-- Morrowind plugin header record (`b"TES3"`). -/
def TES3 : Signature := ⟨⟨[0x54, 0x45, 0x53, 0x33], rfl⟩⟩
/-- Group record (`b"GRUP"`). -/
def GRUP : Signature := ⟨⟨[0x47, 0x52, 0x55, 0x50], rfl⟩⟩
/-- Editor ID subrecord (`b"EDID"`). -/
def EDID : Signature := ⟨⟨[0x45, 0x44, 0x49, 0x44], rfl⟩⟩
/-- Master file subrecord (`b"MAST"`). -/
def MAST : Signature := ⟨⟨[0x4D, 0x41, 0x53, 0x54], rfl⟩⟩
/-- Plugin header data subrecord (`b"HEDR"`). -/
def HEDR : Signature := ⟨⟨[0x48, 0x45, 0x44, 0x52], rfl⟩⟩
/-- Large-field size override subrecord (`b"XXXX"`). -/
def XXXX : Signature := ⟨⟨[0x58, 0x58, 0x58, 0x58], rfl⟩⟩
/-- Description subrecord (`b"SNAM"`). -/
def SNAM : Signature := ⟨⟨[0x53, 0x4E, 0x41, 0x4D], rfl⟩⟩
/-- Data subrecord (`b"DATA"`). -/
def DATA : Signature := ⟨⟨[0x44, 0x41, 0x54, 0x41], rfl⟩⟩

/-- The subrecords that the header code looks for have different signatures. -/
theorem header_ne : HEDR ≠ MAST ∧ HEDR ≠ DATA ∧ HEDR ≠ SNAM ∧ MAST ≠ HEDR ∧ MAST ≠ DATA ∧
    MAST ≠ SNAM ∧ DATA ≠ HEDR ∧ DATA ≠ MAST ∧ DATA ≠ SNAM ∧ SNAM ≠ HEDR ∧ SNAM ≠ MAST ∧
    SNAM ≠ DATA := by decide

/-- None of them is a size override. -/
theorem header_ne_XXXX : HEDR ≠ XXXX ∧ MAST ≠ XXXX ∧ DATA ≠ XXXX ∧ SNAM ≠ XXXX := by decide

/-- One upper-case hexadecimal digit. -/
def hexDigit (digit : Nat) : Char := (Nat.digitChar digit).toUpper

/-- `Display`: printable bytes as characters, the others as hexadecimal escapes. -/
def display (signature : Signature) : String :=
  String.join (signature.bytes.val.map fun byte =>
    if 0x20 ≤ byte.toNat ∧ byte.toNat ≤ 0x7E then String.singleton (Char.ofNat byte.toNat)
    else "\\x" ++ String.ofList [hexDigit (byte.toNat / 16), hexDigit (byte.toNat % 16)])

end Signature

/-- A raw FormID as stored in a plugin file. -/
structure FormId where
  /-- The stored word: owner index in the top byte, object ID below. -/
  val : UInt32
deriving DecidableEq

namespace FormId

/-- The null FormID, meaning "no reference". -/
def NULL : FormId := ⟨0⟩

/-- The load-order file index, the top byte. -/
def fileIndex (id : FormId) : UInt8 := (id.val >>> 24).toUInt8

/-- The object ID within the owning plugin, the lower three bytes. -/
def objectId (id : FormId) : UInt32 := id.val &&& 0x00FFFFFF

/-- Whether this is the null FormID. -/
def isNull (id : FormId) : Bool := id.val == 0

/-- The ESL slot index, bits 12 to 23; meaningful when the file index is `0xFE`. -/
def eslSlot (id : FormId) : UInt16 := ((id.val >>> 12) &&& 0xFFF).toUInt16

/-- The object ID within the ESL slot, bits 0 to 11. -/
def eslObject (id : FormId) : UInt16 := (id.val &&& 0xFFF).toUInt16

/-- `Display`: `{:#010X}`, eight upper-case hexadecimal digits after the radix mark. -/
def display (id : FormId) : String :=
  "0x" ++ String.ofList ((List.range 8).map fun place =>
    Signature.hexDigit (id.val.toNat / 16 ^ (7 - place) % 16))

/-- The file index is the quotient by `2^24`. -/
theorem toNat_fileIndex (id : FormId) : id.fileIndex.toNat = id.val.toNat / 2 ^ 24 := by
  have small := id.val.toNat_lt
  rw [fileIndex, UInt32.toNat_toUInt8, UInt32.toNat_shiftRight, Nat.shiftRight_eq_div_pow]
  simp only [UInt32.reduceToNat, Nat.reduceMod]
  omega

/-- The object ID is the remainder by `2^24`. -/
theorem toNat_objectId (id : FormId) : id.objectId.toNat = id.val.toNat % 2 ^ 24 := by
  rw [objectId, UInt32.toNat_and]
  exact Nat.and_two_pow_sub_one_eq_mod _ 24

/-- The ESL slot is the middle 12 bits. -/
theorem toNat_eslSlot (id : FormId) : id.eslSlot.toNat = id.val.toNat / 2 ^ 12 % 2 ^ 12 := by
  have mask : (0xFFF : UInt32).toNat = 2 ^ 12 - 1 := rfl
  rw [eslSlot, UInt32.toNat_toUInt16, UInt32.toNat_and, UInt32.toNat_shiftRight, mask,
    Nat.and_two_pow_sub_one_eq_mod, Nat.shiftRight_eq_div_pow]
  simp only [UInt32.reduceToNat, Nat.reduceMod]
  omega

/-- The ESL object ID is the remainder by `2^12`. -/
theorem toNat_eslObject (id : FormId) : id.eslObject.toNat = id.val.toNat % 2 ^ 12 := by
  have mask : (0xFFF : UInt32).toNat = 2 ^ 12 - 1 := rfl
  rw [eslObject, UInt32.toNat_toUInt16, UInt32.toNat_and, mask, Nat.and_two_pow_sub_one_eq_mod]
  omega

/-- An object ID leaves room for its successor. -/
theorem objectId_lt (id : FormId) : id.objectId.toNat < 2 ^ 24 := by
  rw [toNat_objectId]
  exact Nat.mod_lt _ (by decide)

end FormId

/-- The flag word of a record header. -/
structure RecordFlags where
  /-- All 32 bits, known and unknown. -/
  bits : UInt32
deriving DecidableEq

namespace RecordFlags

/-- Plugin is a master file. -/
def ESM : RecordFlags := ⟨0x00000001⟩
/-- Plugin has externalized strings. -/
def LOCALIZED : RecordFlags := ⟨0x00000080⟩
/-- Record data is zlib-compressed. -/
def COMPRESSED : RecordFlags := ⟨0x00040000⟩

/-- No flag set. -/
def empty : RecordFlags := ⟨0⟩

/-- Every bit of `other` is set. -/
def contains (flags other : RecordFlags) : Bool := flags.bits &&& other.bits == other.bits

/-- The union of two flag sets. -/
def union (flags other : RecordFlags) : RecordFlags := ⟨flags.bits ||| other.bits⟩

end RecordFlags

/-- The functional type of a plugin. -/
inductive PluginKind where
  /-- A regular `.esp`. -/
  | plugin
  /-- ESM flag set. -/
  | master
  /-- LIGHT flag set. -/
  | light
  /-- MEDIUM flag set (Starfield only). -/
  | medium
  /-- UPDATE flag set. -/
  | update
deriving DecidableEq

/-- A supported Bethesda game. -/
inductive Game where
  | skyrimSE | skyrimLE | skyrimVR | fallout4 | fallout4VR | fallout76 | starfield
  | oblivion | fallout3 | falloutNV | morrowind
deriving DecidableEq

/-- Runtime configuration that drives the game-specific format differences. -/
structure GameContext where
  /-- The target game. -/
  game : Game
deriving DecidableEq

namespace GameContext

/-- The context of Skyrim Special Edition. -/
def sse : GameContext := ⟨.skyrimSE⟩

/-- The context of Fallout 4. -/
def fallout4 : GameContext := ⟨.fallout4⟩

/-- The mask of the light plugin flag; Starfield moved it to bit 8. -/
def lightFlag (ctx : GameContext) : UInt32 :=
  match ctx.game with
  | .starfield => 0x00000100
  | _ => 0x00000200

/-- The mask of the medium plugin flag. -/
def mediumFlag (_ : GameContext) : UInt32 := 0x00000400

/-- The mask of the update plugin flag. -/
def updateFlag (ctx : GameContext) : UInt32 :=
  match ctx.game with
  | .starfield => 0x00000200
  | _ => 0x00100000

/-- Whether the game supports light plugins. -/
def supportsLight (ctx : GameContext) : Bool :=
  match ctx.game with
  | .skyrimSE | .skyrimVR | .fallout4 | .fallout4VR | .fallout76 | .starfield => true
  | _ => false

/-- Whether the game supports medium plugins. -/
def supportsMedium (ctx : GameContext) : Bool :=
  match ctx.game with
  | .starfield => true
  | _ => false

/-- Whether the game supports update plugins. -/
def supportsUpdate (ctx : GameContext) : Bool :=
  match ctx.game with
  | .starfield | .skyrimVR => true
  | _ => false

/-- The maximum object ID for a new record in a light plugin. -/
def lightMaxObjectId (_ : GameContext) : UInt32 := 0xFFF

/-- The minimum object ID for a new record in a light plugin. -/
def lightMinObjectId (ctx : GameContext) : UInt32 :=
  match ctx.game with
  | .skyrimSE => 1
  | _ => 0x800

/-- The plugin header signature of the game. -/
def headerSignature (ctx : GameContext) : Signature :=
  match ctx.game with
  | .morrowind => .TES3
  | _ => .TES4

/-- The HEDR version of the game, as the bits of its `f32`. -/
def hedrVersion (ctx : GameContext) : UInt32 :=
  match ctx.game with
  | .morrowind => 0x3FA66666
  | .oblivion => 0x3F800000
  | .fallout3 | .falloutNV | .skyrimLE => 0x3F70A3D7
  | .skyrimSE | .skyrimVR => 0x3FD9999A
  | .fallout4 | .fallout4VR => 0x3F733333
  | .fallout76 => 0x42880000
  | .starfield => 0x3F75C28F

/-- The plugin kind of a header's flags: medium, update, light, master, plugin, in this order. -/
def pluginKindFromFlags (ctx : GameContext) (flags : RecordFlags) : PluginKind :=
  let raw := flags.bits
  if ctx.supportsMedium && raw &&& ctx.mediumFlag != 0 then .medium
  else if ctx.supportsUpdate && raw &&& ctx.updateFlag != 0 then .update
  else if ctx.supportsLight && raw &&& ctx.lightFlag != 0 then .light
  else if raw &&& RecordFlags.ESM.bits != 0 then .master
  else .plugin

/-- A plugin header is never a group. -/
theorem headerSignature_ne_GRUP (ctx : GameContext) : ctx.headerSignature ≠ .GRUP := by
  obtain ⟨game⟩ := ctx
  cases game <;> decide

end GameContext

/-- Errors of `bethkit-io`. -/
inductive IoError where
  /-- The cursor reached the end of the data before the read could complete. -/
  | unexpectedEof (offset : Nat)
  /-- A decompression operation failed. -/
  | decompress (message : String)
deriving DecidableEq

/-- Errors of `bethkit-core`. -/
inductive CoreError where
  /-- An error of the underlying I/O layer. -/
  | io (error : IoError)
  /-- The record or group header contained an unexpected signature. -/
  | invalidSignature (expected got : String)
  /-- A GRUP header contained an unknown group type value. -/
  | invalidGroupType (value : Int32)
  /-- A requested record order does not exactly match a group's children. -/
  | invalidGroupRecordOrder (message : String)
  /-- The parser ran out of data while reading a named structure. -/
  | unexpectedEof (context : String)
  /-- The load order has no more file-index slots for regular plugins. -/
  | loadOrderIndexFull
  /-- The load order has no more ESL slots for light plugins. -/
  | lightSlotOverflow
  /-- Attempting to eslify a plugin that has too many records. -/
  | eslRecordLimitExceeded (count : Nat)
  /-- An operation is not supported for the given game. -/
  | unsupportedGame (game : Game)
  /-- A field could not be decoded or encoded. -/
  | invalidEncoding (message : String)
  /-- A string table is malformed or has no free identifier. -/
  | invalidStringTable (message : String)
  /-- No error of the source: the step bound of an embedded loop. Every caller allows one step more
  than there are bytes to read. -/
  | outOfFuel
deriving DecidableEq

end Bethkit
