import Bethkit.Verif.Parse
import Bethkit.Verif.ParseBlock

/-!
# What a reader of subrecords sees

A subrecord is a view into a block, but everything that the plugin header takes from it depends
on its signature and its payload only. The fields of a header are restated over these values.
-/

namespace Bethkit

open Lib Layout

/-- The signatures and payloads of parsed subrecords. -/
def subrecordValues (subrecords : List SubRecord) : List (Signature × Bytes) :=
  subrecords.map fun subrecord => (subrecord.signature, subrecord.asBytes)

/-- The string of a NUL-terminated payload, if it is valid UTF-8. -/
def zstringOf (payload : Bytes) : Option String := strFromUtf8 (payload.rdropWhile (· == 0))

/-- The strings of the MAST payloads. -/
def mastersOf (values : List (Signature × Bytes)) : List String :=
  (values.filter (·.1 = .MAST)).filterMap fun value => zstringOf value.2

/-- The string of the first SNAM payload, unless it is empty. -/
def snamOf (values : List (Signature × Bytes)) : Option String :=
  ((values.find? (·.1 = .SNAM)).bind fun value => zstringOf value.2).filter (· ≠ "")

/-- The payload of the first HEDR. -/
def hedrOf (values : List (Signature × Bytes)) : Option Bytes :=
  (values.find? (·.1 = .HEDR)).map (·.2)

/-- A payload that is read as a string is read by `zstringOf`. -/
theorem toOption_asZstring (subrecord : SubRecord) :
    subrecord.asZstring.toOption = zstringOf subrecord.asBytes := by
  unfold SubRecord.asZstring zstringOf
  cases strFromUtf8 (subrecord.asBytes.rdropWhile (· == 0)) <;> rfl

/-- The master list depends on the values only. -/
theorem masterNames_filter (subrecords : List SubRecord) :
    PluginHeader.masterNames (subrecords.filter (·.signature = .MAST)) =
      mastersOf (subrecordValues subrecords) := by
  simp only [PluginHeader.masterNames, mastersOf, subrecordValues, List.filter_map,
    List.filterMap_map, toOption_asZstring]
  rfl

/-- The first value with a signature is that of the first subrecord with it. -/
theorem find_subrecordValues (sig : Signature) (subrecords : List SubRecord) :
    (subrecordValues subrecords).find? (·.1 = sig) =
      (subrecords.find? (·.signature = sig)).map
        fun subrecord => (subrecord.signature, subrecord.asBytes) := by
  simp only [subrecordValues, List.find?_map]
  rfl

/-- The description depends on the values only. -/
theorem descriptionOf_find (subrecords : List SubRecord) :
    PluginHeader.descriptionOf (subrecords.find? (·.signature = .SNAM)) =
      snamOf (subrecordValues subrecords) := by
  rw [snamOf, find_subrecordValues, PluginHeader.descriptionOf]
  cases subrecords.find? (·.signature = .SNAM) with
  | none => rfl
  | some subrecord => simp [toOption_asZstring]

/-- The HEDR fields depend on the values only. -/
theorem hedrFields_find (ctx : GameContext) (subrecords : List SubRecord) :
    PluginHeader.hedrFields ctx (subrecords.find? (·.signature = .HEDR)) =
      match hedrOf (subrecordValues subrecords) with
      | some data =>
        if 12 ≤ data.length then
          (u32FromLeBytes (data.slice 0 4), u32FromLeBytes (data.slice 4 8),
            ⟨u32FromLeBytes (data.slice 8 12)⟩)
        else (ctx.hedrVersion, 0, .NULL)
      | none => (ctx.hedrVersion, 0, .NULL) := by
  rw [hedrOf, find_subrecordValues]
  cases subrecords.find? (·.signature = .HEDR) <;> rfl

/-- A string without trailing NUL is read back from its terminated bytes. -/
theorem zstringOf_terminated (text : String) (unpadded : (strAsBytes text).getLast? ≠ some 0) :
    zstringOf (strAsBytes text ++ [0]) = some text := by
  have kept : (strAsBytes text).rdropWhile (· == 0) = strAsBytes text := by
    rw [List.rdropWhile_eq_self_iff]
    intro some last
    rw [List.getLast?_eq_some_getLast some] at unpadded
    exact unpadded (congrArg Option.some (by simpa using last))
  rw [zstringOf, List.rdropWhile_concat_pos _ _ _ (by rfl), kept, strFromUtf8_asBytes]

/-- The terminated bytes of any string are read back as a string. -/
theorem exists_zstringOf_terminated (text : String) :
    ∃ shown, zstringOf (strAsBytes text ++ [0]) = some shown := by
  obtain ⟨shown, same⟩ := exists_text_rdropWhile text
  exact ⟨shown, by
    rw [zstringOf, List.rdropWhile_concat_pos _ _ _ (by rfl), same, strFromUtf8_asBytes]⟩

/-- A parsed record has the subrecords of the block that its data is. -/
theorem subrecords_eq_ok (inflate : Inflate) (record : Record) (unparsed : record.parsed = none)
    (subrecords : List SubRecord) :
    record.subrecords inflate = .ok subrecords ↔ ∃ block : Block,
      record.rawData inflate = .ok block.encode ∧
        subrecords = locateFrames block.encode 0 block.frames := by
  rw [Record.subrecords, unparsed]
  cases record.rawData inflate with
  | error reason => simp [bind, Except.bind]
  | ok data =>
    simp only [bind, Except.bind, parseSubrecords_eq_ok, Except.ok.injEq]
    refine exists_congr fun block => and_congr_right fun same => ?_
    rw [same]

/-- An uncompressed record has the subrecords of its block. -/
theorem subrecords_toRecord (inflate : Inflate) (raw : RawRecord)
    (plain : raw.flags.contains .COMPRESSED = false) (block : Block)
    (holds : raw.block = block.encode) :
    raw.toRecord.subrecords inflate = .ok (locateFrames raw.block 0 block.frames) := by
  refine (subrecords_eq_ok inflate raw.toRecord rfl _).mpr ⟨block, ?_, by rw [holds]⟩
  simp [Record.rawData, RawRecord.toRecord, RawRecord.data, plain, holds]

/-- The values read from a block are those of its frames. -/
theorem subrecordValues_locateFrames (block : Block) :
    subrecordValues (locateFrames block.encode 0 block.frames) = block.values :=
  values_locateFrames block.frames [] (encodeOverrides block.trailing)

end Bethkit
