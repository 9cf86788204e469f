import Bethkit.Verif.HeaderUpdate
import Bethkit.Verif.Tiling

/-!
# The header that an update leaves

A written header is parsed again. Its payload is the edited payload, byte for byte; whether its
subrecords are the edited ones depends on the new strings alone, because a subrecord announces
its length in 32 bits and the length of an oversized string is cut off.
-/

namespace Bethkit

open Lib Layout

/-- The parsed header of a written one: a record with the edited payload, the edited flags and
the other header fields of the source, whose subrecords are the edited ones. -/
structure HeaderEdited (inflate : Inflate) (ctx : GameContext) (raw : RawRecord) (block : Block)
    (edit : HeaderEdit) (patch : Option PluginHeaderPatch) (out : Bytes)
    (header : PluginHeader) : Prop where
  /-- The written bytes are parsed, whatever follows them. -/
  parsed : ∀ rest, PluginHeader.parse inflate ctx ⟨out ++ rest, 0⟩ =
    .ok (header, ⟨out ++ rest, out.length⟩)
  /-- Only the size and the flags of the record header change. -/
  fields : header.record.header = { raw.header with
    dataSize := UInt32.ofNat (updatedBlock edit patch raw block).length
    flags := updatedFlags edit patch raw block }
  /-- The stored block is the source block or the edited payload. -/
  stored : out.drop 24 = updatedBlock edit patch raw block
  /-- The payload holds the edited parts and the overrides that trailed the source block. -/
  payload : header.record.rawData inflate = .ok (editedPayload edit block)
  /-- The subrecords are the edited parts. -/
  subrecords : (header.record.subrecords inflate).toOption.map subrecordValues =
    some ((editParts edit (block.frames.map .kept)).map Part.value)
  /-- The masters are the new ones. -/
  masters : ∀ masters, edit.masters = some masters →
    (∀ master ∈ masters, 0 ∉ strAsBytes master) → header.masters = masters

/-- A flag word that meets the compression bit has the flag. -/
theorem contains_compressed {bits : UInt32} (found : bits &&& RecordFlags.COMPRESSED.bits ≠ 0) :
    (RecordFlags.mk bits).contains .COMPRESSED = true := by
  have word : RecordFlags.COMPRESSED.bits.toNat = 2 ^ 18 := rfl
  have mask : (bits &&& RecordFlags.COMPRESSED.bits).toNat =
      (bits.toNat.testBit 18).toNat * 2 ^ 18 := by
    rw [UInt32.toNat_and, word, Nat.and_two_pow]
  cases bit : bits.toNat.testBit 18 with
  | false =>
    rw [bit, Bool.toNat_false, Nat.zero_mul] at mask
    exact absurd (UInt32.toNat_inj.mp mask) found
  | true =>
    rw [bit, Bool.toNat_true, Nat.one_mul, ← word] at mask
    simp [RecordFlags.contains, UInt32.toNat_inj.mp mask]

/-- The payload of an updated record is the edited payload. -/
theorem rawData_updatedRecord {inflate : Inflate} (edit : HeaderEdit)
    (patch : Option PluginHeaderPatch) (raw : RawRecord) (block : Block)
    (source : raw.toRecord.rawData inflate = .ok block.encode)
    (sized : (updatedBlock edit patch raw block).length < 2 ^ 32) :
    (updatedRecord edit patch raw block sized).toRecord.rawData inflate =
      .ok (editedPayload edit block) := by
  cases keeps : keepsCompressed edit patch raw block with
  | true =>
    have kept := keeps
    simp only [keepsCompressed, decide_eq_true_eq] at kept
    obtain ⟨patched, compressed, same⟩ := kept
    have data : (updatedRecord edit patch raw block sized).toRecord.data = raw.toRecord.data := by
      simp only [RawRecord.toRecord, RawRecord.data, updatedRecord, updatedFlags, updatedBlock, keeps,
        if_true, contains_compressed patched, compressed]
    rw [Record.rawData, data, same]
    exact source
  | false =>
    have data : (updatedRecord edit patch raw block sized).toRecord.data =
        .raw (editedPayload edit block) := by
      simp only [RawRecord.toRecord, RawRecord.data, updatedRecord, updatedFlags, updatedBlock, keeps,
        Bool.false_eq_true, if_false, contains_clear]
    rw [Record.rawData, data]

/-- The edited payload is the payload of a block; its subrecords are the edited parts exactly when
the new strings fit. -/
theorem exists_editedBlock (counters : HedrCounters) (patch : Option PluginHeaderPatch)
    (raw : RawRecord) (block : Block)
    (sized : (updatedBlock (patchEdit counters patch) patch raw block).length < 2 ^ 32) :
    ∃ edited : Block, edited.encode = editedPayload (patchEdit counters patch) block ∧
      (edited.values = (editParts (patchEdit counters patch) (block.frames.map .kept)).map
        Part.value ↔ StringsFit patch) := by
  by_cases fit : StringsFit patch
  · obtain ⟨frames, encoded, values⟩ :=
      exists_frames _ ((partFits_editParts counters patch block.frames).mpr fit)
    refine ⟨⟨frames, block.trailing⟩, ?_, iff_of_true values fit⟩
    rw [Block.encode, encoded, editedPayload]
  · cases keeps : keepsCompressed (patchEdit counters patch) patch raw block with
    | false =>
      rw [updatedBlock, keeps] at sized
      exact absurd (stringsFit_of_length counters patch block sized) fit
    | true =>
      simp only [keepsCompressed, decide_eq_true_eq] at keeps
      refine ⟨block, keeps.2.2.symm, ?_⟩
      exact iff_of_false (fun same => fit ((partFits_editParts counters patch block.frames).mp
        (partFits_of_values same))) fit

/-- What the parser makes of a written header. -/
theorem parse_updatedRecord {inflate : Inflate} {ctx : GameContext} (edit : HeaderEdit)
    (patch : Option PluginHeaderPatch) (raw : RawRecord) (block : Block)
    (signed : raw.signature = ctx.headerSignature)
    (source : raw.toRecord.rawData inflate = .ok block.encode)
    (sized : (updatedBlock edit patch raw block).length < 2 ^ 32) (edited : Block)
    (encoded : edited.encode = editedPayload edit block) :
    PluginHeader.ofRecord inflate ctx (updatedRecord edit patch raw block sized).toRecord =
      .ok (PluginHeader.ofSubrecords ctx (updatedRecord edit patch raw block sized).toRecord
        (locateFrames edited.encode 0 edited.frames)) := by
  have payload := rawData_updatedRecord edit patch raw block source sized
  rw [← encoded] at payload
  exact (PluginHeader.ofRecord_eq_ok inflate ctx _ _).mpr
    ⟨signed, _, (subrecords_eq_ok inflate _ rfl _).mpr ⟨edited, payload, rfl⟩, rfl⟩

/-- A written header is the edited one exactly when the new strings fit. -/
theorem headerEdited_iff {inflate : Inflate} {ctx : GameContext} (counters : HedrCounters)
    (patch : Option PluginHeaderPatch) (raw : RawRecord) (block : Block)
    (signed : raw.signature = ctx.headerSignature)
    (source : raw.toRecord.rawData inflate = .ok block.encode)
    (sized : (updatedBlock (patchEdit counters patch) patch raw block).length < 2 ^ 32) :
    (∃ header, HeaderEdited inflate ctx raw block (patchEdit counters patch) patch
      (updatedRecord (patchEdit counters patch) patch raw block sized).encode header) ↔
      StringsFit patch := by
  obtain ⟨edited, encoded, values⟩ := exists_editedBlock counters patch raw block sized
  have admitted := parse_updatedRecord (patchEdit counters patch) patch raw block signed source
    sized edited encoded
  have payload := rawData_updatedRecord (patchEdit counters patch) patch raw block source sized
  have parsed (rest : Bytes) := (exact_pluginHeader inflate ctx).complete [] _ rest _
    ⟨updatedRecord (patchEdit counters patch) patch raw block sized, rfl, admitted⟩
  simp only [List.nil_append, List.length_nil, Nat.zero_add] at parsed
  have read := (subrecords_eq_ok inflate
    (updatedRecord (patchEdit counters patch) patch raw block sized).toRecord rfl _).mpr
    ⟨edited, encoded ▸ payload, rfl⟩
  have seen := subrecordValues_locateFrames edited
  rw [← values]
  constructor
  · rintro ⟨header, same⟩
    have found := (parsed []).symm.trans (same.parsed [])
    simp only [Except.ok.injEq, Prod.mk.injEq] at found
    have listed := same.subrecords
    rw [← found.1] at listed
    simp only [PluginHeader.ofSubrecords, read, Except.toOption, Option.map_some, seen,
      Option.some.injEq] at listed
    exact listed
  · intro same
    refine ⟨_, parsed, rfl, ?_, payload, ?_, ?_⟩
    · exact (slices_encode _).2.2.2
    · simp only [PluginHeader.ofSubrecords, read, Except.toOption, Option.map_some, seen, same]
    · intro masters given clean
      have named := mastersOf_editParts given clean (block.frames.map Part.kept)
      rw [← same, ← seen, ← masterNames_filter] at named
      exact named

/-- The block of the sample header. -/
def sampleBlock : Block where
  frames := [⟨[], .HEDR, 12, [0x9A, 0x99, 0xD9, 0x3F, 2, 0, 0, 0, 0, 8, 0, 0], by decide, rfl⟩]
  trailing := []

/-- A plugin with the sample header. -/
def samplePlugin (groups : List TopGroup) : Plugin where
  source := File.encode ⟨sampleHeader, groups⟩
  ctx := .sse
  header := PluginHeader.ofSubrecords .sse sampleHeader.toRecord
    (locateFrames sampleBlock.encode 0 sampleBlock.frames)
  headerRange := ⟨0, sampleHeader.encode.length⟩
  groups := File.locateGroups ⟨sampleHeader, groups⟩

/-- Sample plugins are accepted. -/
theorem fromBytes_samplePlugin (groups : List TopGroup) (fit : File.Fits ⟨sampleHeader, groups⟩) :
    Plugin.fromBytes refuseInflate (File.encode ⟨sampleHeader, groups⟩) .sse =
      .ok (samplePlugin groups) :=
  (fromBytes_eq_ok _ _ _ _).mpr ⟨⟨sampleHeader, groups⟩, _, fit, rfl,
    (PluginHeader.ofRecord_eq_ok _ _ _ _).mpr ⟨rfl, _, subrecords_sampleHeader _, rfl⟩, rfl⟩

/-- The header of a sample plugin is rewritten when its groups can be counted. -/
theorem writeUpdated_samplePlugin (groups : List TopGroup) {counters : HedrCounters}
    (counted : headerCounters (samplePlugin groups) none = .ok counters) :
    ∃ out, writeUpdated refuseInflate (samplePlugin groups) none = .ok out := by
  have sized : (updatedBlock (patchEdit counters none) none sampleHeader sampleBlock).length <
      2 ^ 32 := by
    have plain : sampleHeader.flags = .empty := rfl
    simp [updatedBlock, keepsCompressed, plain, RecordFlags.empty, patchedFlags, editedPayload,
      editParts, patchEdit, sampleBlock, changeFirst, Part.signature, encodeParts, Part.encode,
      Part.withCounters, Frame.withCounters, Frame.encode, Frame.lead, encodeOverrides]
  have bytes : sampleBlock.encode = sampleHeader.block := by decide
  have stored : sampleHeader.toRecord.rawData refuseInflate = .ok sampleBlock.encode := by
    rw [bytes]
    rfl
  exact ⟨_, (writeUpdated_eq_ok ⟨sampleHeader, groups⟩ sampleBlock stored none _ rfl _).mpr
    ⟨counters, counted, ⟨_, rfl, by decide⟩, sized, rfl⟩⟩

/-- A MAST subrecord of zeros with its size in an override. -/
def zeroMaster (size : UInt32) : Frame where
  overrides := [size]
  signature := .MAST
  sizeField := 0
  payload := List.replicate size.toNat 0
  notOverride := by decide
  sized := List.length_replicate

/-- The bytes of a MAST of zeros. -/
theorem encode_zeroMaster (size : UInt32) : (zeroMaster size).encode =
    (encodeOverride size ++ encodeFieldHeader .MAST 0) ++ List.replicate size.toNat 0 := by
  simp [Frame.encode, Frame.lead, zeroMaster, encodeOverrides]

/-- The length of consecutive masters of zeros. -/
theorem length_zeroMasters (sizes : List UInt32) :
    (encodeFrames (sizes.map zeroMaster)).length = (sizes.map fun size => 16 + size.toNat).sum := by
  induction sizes with
  | nil => rfl
  | cons size sizes ih =>
    simp only [List.map_cons, encodeFrames_cons, List.length_append, ih, encode_zeroMaster,
      length_encodeOverride, length_encodeFieldHeader, List.length_replicate, List.sum_cons]

/-- Masters of zeros whose sizes are ASCII words are the bytes of a string and its terminator. -/
theorem exists_text_zeroMasters (sizes : List UInt32) (last : UInt32) (positive : 0 < last.toNat)
    (ascii : (sizes ++ [last]).all fun size =>
      (encodeOverride size ++ encodeFieldHeader .MAST 0).all fun byte => byte.toNat < 128) :
    ∃ text, strAsBytes text ++ [0] = encodeFrames ((sizes ++ [last]).map zeroMaster) := by
  have every : ∀ byte ∈ encodeFrames ((sizes ++ [last]).map zeroMaster), byte.toNat < 128 := by
    simp only [List.all_eq_true, decide_eq_true_eq] at ascii
    intro byte found
    simp only [encodeFrames, List.flatMap_map, List.mem_flatMap, encode_zeroMaster] at found
    obtain ⟨size, among, found⟩ := found
    rcases List.mem_append.mp found with lead | zero
    · exact ascii size among byte lead
    · rw [List.eq_of_mem_replicate zero]
      decide
  obtain ⟨count, one⟩ := Nat.exists_eq_add_of_lt positive
  have ended : encodeFrames ((sizes ++ [last]).map zeroMaster) =
      (encodeFrames (sizes.map zeroMaster) ++ (encodeOverride last ++ encodeFieldHeader .MAST 0) ++
        List.replicate count 0) ++ [0] := by
    have zeros : List.replicate last.toNat (0 : UInt8) = List.replicate count 0 ++ [0] := by
      rw [one, Nat.zero_add, List.replicate_succ']
    simp only [List.map_append, List.map_cons, List.map_nil, encodeFrames_append, encodeFrames_cons,
      encodeFrames_nil, encode_zeroMaster, zeros, List.append_assoc, List.append_nil]
  obtain ⟨text, same⟩ := exists_text_of_ascii _ fun byte found =>
    every byte (ended ▸ List.mem_append_left [0] found)
  exact ⟨text, by rw [same, ended]⟩

/-- Sizes of masters that together occupy `2^32` bytes. -/
def wrapSizes : List UInt32 := [0x55555540, 0x55555540] ++ [0x55555550]

/-- A HEDR with the counters of a plugin without records. -/
def emptyHedr : Frame := ⟨[], .HEDR, 12, [0, 0, 0, 0, 0, 0, 0, 0, 1, 8, 0, 0], by decide, rfl⟩

/-- A MAST without payload after a size override. -/
def emptyMaster : Frame := ⟨[0], .MAST, 0, [], by decide, rfl⟩

/-- The DATA that goes with a master. -/
def masterData : Frame := ⟨[], .DATA, 8, List.replicate 8 0, by decide, rfl⟩

/-- A header block whose masters occupy `2^32` bytes, after an empty one. -/
def wrapBlock : Block where
  frames := [emptyHedr, emptyMaster] ++ wrapSizes.map zeroMaster ++ [masterData]
  trailing := []

/-- A replacement master list of one name. -/
def oneMaster (name : String) : PluginHeaderPatch where
  masters := some [name]
  description := none
  flagsSet := none
  flagsClear := none

/-- A name that occupies `2^32` bytes with its terminator is written with the size 0. -/
theorem writeTo_wrapped (name : String) (wraps : (strAsBytes name ++ [0]).length = 2 ^ 32) :
    (WritableSubRecord.mk .MAST (strAsBytes name ++ [0])).writeTo =
      encodeOverride 0 ++ encodeFieldHeader .MAST 0 ++ (strAsBytes name ++ [0]) := by
  have long : 65535 < (strAsBytes name ++ [0]).length := by
    rw [wraps]
    decide
  have zero : UInt32.ofNat (strAsBytes name ++ [0]).length = 0 := by
    rw [wraps]
    rfl
  simp only [WritableSubRecord.writeTo, long, if_true, zero, encodeOverride, encodeFieldHeader,
    List.append_assoc]

/-- A new master takes the place of all old ones. -/
theorem editParts_masters (counters : HedrCounters) (name : String) (sizes : List UInt32)
    (hedr empty data : Frame) (counted : hedr.signature = .HEDR) (first : empty.signature = .MAST)
    (last : data.signature = .DATA) :
    editParts ⟨counters, some [name], none⟩
        (([hedr, empty] ++ sizes.map zeroMaster ++ [data]).map .kept) =
      .kept (hedr.withCounters counters) :: masterParts [name] := by
  have dropped : withoutMasters true (sizes.map (Part.kept ∘ zeroMaster) ++ [.kept data]) = [] := by
    induction sizes with
    | nil => simp [withoutMasters, Part.signature, last, Signature.header_ne]
    | cons size sizes ih => exact ih
  have same := Part.signature_withCounters counters (.kept hedr)
  simp only [Part.withCounters, Part.signature, counted] at same
  simp [editParts, changeFirst, spliceMasters, Part.signature, Part.withCounters, counted, same,
    first, Signature.header_ne, dropped]

/-- Replacing the masters of that block by one name with the same bytes changes nothing. -/
theorem editedPayload_wrapBlock (name : String)
    (bytes : strAsBytes name ++ [0] = encodeFrames (wrapSizes.map zeroMaster)) :
    editedPayload (patchEdit ⟨0, 0x801⟩ (some (oneMaster name))) wrapBlock = wrapBlock.encode := by
  have wraps : (strAsBytes name ++ [0]).length = 2 ^ 32 := by
    rw [bytes, length_zeroMasters]
    decide
  have parts := editParts_masters ⟨0, 0x801⟩ name wrapSizes emptyHedr emptyMaster masterData
    rfl rfl rfl
  have split : masterParts [name] = [.fresh ⟨.MAST, strAsBytes name ++ [0]⟩,
    .fresh ⟨.DATA, List.replicate 8 0⟩] := rfl
  have edit : patchEdit ⟨0, 0x801⟩ (some (oneMaster name)) = ⟨⟨0, 0x801⟩, some [name], none⟩ := rfl
  have counted : (emptyHedr.withCounters ⟨0, 0x801⟩).encode = emptyHedr.encode := by decide
  have data : (WritableSubRecord.mk .DATA (List.replicate 8 0)).writeTo = masterData.encode := by
    decide
  have empty : emptyMaster.encode = encodeOverride 0 ++ encodeFieldHeader .MAST 0 := by decide
  have whole : encodeParts [.kept (emptyHedr.withCounters ⟨0, 0x801⟩),
      .fresh ⟨.MAST, strAsBytes name ++ [0]⟩, .fresh ⟨.DATA, List.replicate 8 0⟩] =
      emptyHedr.encode ++ (emptyMaster.encode ++ (encodeFrames (wrapSizes.map zeroMaster) ++
        masterData.encode)) := by
    simp only [encodeParts, List.flatMap_cons, List.flatMap_nil, Part.encode, counted, data,
      writeTo_wrapped name wraps]
    rw [bytes, empty, List.append_nil, List.append_assoc]
  rw [editedPayload, edit, wrapBlock, parts, split, whole, Block.encode, encodeFrames_append,
    encodeFrames_append]
  simp only [encodeFrames_cons, encodeFrames_nil, List.append_nil, List.append_assoc]

/-- A header with a compressed payload. -/
def wrapHeader (stream : Bytes) (small : (u32ToLeBytes 0 ++ stream).length < 2 ^ 32) : RawRecord where
  signature := .TES4
  flags := .COMPRESSED
  formId := .NULL
  versionControl := 0
  formVersion := 44
  unknown := 0
  block := u32ToLeBytes 0 ++ stream
  notGroup := GameContext.headerSignature_ne_GRUP .sse
  sized := small
  compressed := fun _ => by simp

/-- Whatever stream the block is compressed to, its header is kept although the new master is not
the one that a reader finds. -/
theorem writeUpdated_wraps (inflate : Inflate) (stream : Bytes)
    (small : (u32ToLeBytes 0 ++ stream).length < 2 ^ 32)
    (expands : inflate stream = .ok wrapBlock.encode) :
    ∃ plugin name out, Plugin.fromBytes inflate (File.encode ⟨wrapHeader stream small, []⟩) .sse =
        .ok plugin ∧ plugin.header.record = (wrapHeader stream small).toRecord ∧
      (wrapHeader stream small).toRecord.rawData inflate = .ok wrapBlock.encode ∧
      HedrReady wrapBlock.frames ∧
      headerCounters plugin (some (oneMaster name)) = .ok ⟨0, 0x801⟩ ∧
      writeUpdated inflate plugin (some (oneMaster name)) = .ok out ∧
      ¬∃ header, HeaderEdited inflate .sse (wrapHeader stream small) wrapBlock
        (patchEdit ⟨0, 0x801⟩ (some (oneMaster name))) (some (oneMaster name)) out header := by
  have source : (wrapHeader stream small).toRecord.rawData inflate = .ok wrapBlock.encode := by
    have body : (wrapHeader stream small).block.drop 4 = stream :=
      List.drop_left' (length_u32ToLeBytes 0)
    have flagged : (wrapHeader stream small).flags.contains .COMPRESSED = true := by
      change RecordFlags.COMPRESSED.contains .COMPRESSED = true
      decide
    simp [Record.rawData, RawRecord.toRecord, RawRecord.data, flagged, body, decompressZlib, expands,
      Except.mapError]
  have read := (subrecords_eq_ok inflate (wrapHeader stream small).toRecord rfl _).mpr
    ⟨wrapBlock, source, rfl⟩
  obtain ⟨name, bytes⟩ := exists_text_zeroMasters [0x55555540, 0x55555540] 0x55555550 (by decide)
    (by decide)
  have wraps : (strAsBytes name ++ [0]).length = 2 ^ 32 := by
    rw [bytes, length_zeroMasters]
    decide
  have keeps : keepsCompressed (patchEdit ⟨0, 0x801⟩ (some (oneMaster name))) (some (oneMaster name))
      (wrapHeader stream small) wrapBlock = true := by
    have flagged : patchedFlags RecordFlags.COMPRESSED.bits (some (oneMaster name)) =
        RecordFlags.COMPRESSED.bits := by
      simp only [patchedFlags, oneMaster, Option.map_none, Option.getD_none]
      decide
    have flags : (wrapHeader stream small).flags = .COMPRESSED := rfl
    simp only [keepsCompressed, editedPayload_wrapBlock name bytes, and_true, decide_eq_true_eq, flags,
      flagged]
    decide
  have sized : (updatedBlock (patchEdit ⟨0, 0x801⟩ (some (oneMaster name))) (some (oneMaster name))
      (wrapHeader stream small) wrapBlock).length < 2 ^ 32 := by
    rw [updatedBlock, keeps]
    exact small
  have ready : HedrReady wrapBlock.frames := ⟨emptyHedr, rfl, by decide⟩
  have next := hedrFields_find .sse (locateFrames wrapBlock.encode 0 wrapBlock.frames)
  rw [subrecordValues_locateFrames] at next
  have counted : headerCounters ⟨File.encode ⟨wrapHeader stream small, []⟩, .sse,
      PluginHeader.ofSubrecords .sse (wrapHeader stream small).toRecord
        (locateFrames wrapBlock.encode 0 wrapBlock.frames),
      ⟨0, (wrapHeader stream small).encode.length⟩, []⟩ (some (oneMaster name)) =
        .ok ⟨0, 0x801⟩ := by
    have first : hedrOf wrapBlock.values = some emptyHedr.payload := rfl
    have fields : PluginHeader.hedrFields .sse ((locateFrames wrapBlock.encode 0
        wrapBlock.frames).find? (·.signature = .HEDR)) = (0, 0, ⟨0x801⟩) := by
      rw [next, first]
      decide
    simp only [headerCounters, PluginHeader.ofSubrecords, fields, List.reverse_nil,
      HedrCounters.countGroups]
    rfl
  refine ⟨_, name, _, (fromBytes_eq_ok inflate _ _ _).mpr ⟨⟨wrapHeader stream small, []⟩, _,
    by simp [File.Fits], rfl, (PluginHeader.ofRecord_eq_ok inflate _ _ _).mpr ⟨rfl, _, read, rfl⟩,
    rfl⟩, rfl, source, ready, counted, (writeUpdated_eq_ok ⟨wrapHeader stream small, []⟩ wrapBlock source
    _ _ rfl _).mpr ⟨_, counted, ready, sized, rfl⟩, ?_⟩
  rw [headerEdited_iff _ _ _ _ rfl source sized]
  intro fit
  have short := fit name (by simp [newStrings, oneMaster])
  rw [List.length_append, List.length_singleton] at wraps
  omega

/-- A header update of an accepted plugin is written exactly when the counters can be computed,
the first HEDR has 12 bytes and the block to store fits its size field; what is written is the
edited header exactly when every new string, with its terminator, is shorter than `2^32` bytes. -/
theorem writeUpdated_edits (inflate : Inflate) (data : Bytes) (ctx : GameContext) (plugin : Plugin)
    (accepted : Plugin.fromBytes inflate data ctx = .ok plugin) :
    ∃ (raw : RawRecord) (block : Block), plugin.header.record = raw.toRecord ∧
      raw.toRecord.rawData inflate = .ok block.encode ∧
      ∀ patch : Option PluginHeaderPatch,
        ((∃ out, writeUpdated inflate plugin patch = .ok out) ↔ ∃ counters,
          headerCounters plugin patch = .ok counters ∧ HedrReady block.frames ∧
          (updatedBlock (patchEdit counters patch) patch raw block).length < 2 ^ 32) ∧
        ∀ out, writeUpdated inflate plugin patch = .ok out → ∃ counters,
          headerCounters plugin patch = .ok counters ∧
          ((∃ header, HeaderEdited inflate ctx raw block (patchEdit counters patch) patch out
            header) ↔ StringsFit patch) := by
  obtain ⟨file, block, _, rfl, signed, source, parsed⟩ := exists_headerBlock accepted
  have written := fun patch => writeUpdated_eq_ok file block source patch plugin parsed
  refine ⟨file.header, block, by rw [parsed]; rfl, source, fun patch => ⟨⟨?_, ?_⟩, ?_⟩⟩
  · rintro ⟨out, wrote⟩
    obtain ⟨counters, counted, ready, sized, _⟩ := (written patch out).mp wrote
    exact ⟨counters, counted, ready, sized⟩
  · rintro ⟨counters, counted, ready, sized⟩
    exact ⟨_, (written patch _).mpr ⟨counters, counted, ready, sized, rfl⟩⟩
  · intro out wrote
    obtain ⟨counters, counted, _, sized, rfl⟩ := (written patch out).mp wrote
    exact ⟨counters, counted, headerEdited_iff counters patch file.header block signed source sized⟩

/-- The edits of the sample file's header. -/
theorem writeUpdated_edits_sampleFile : ∃ (plugin : Plugin) (raw : RawRecord) (block : Block),
    Plugin.fromBytes refuseInflate sampleFile.encode .sse = .ok plugin ∧
      plugin.header.record = raw.toRecord ∧
      ∀ out, writeUpdated refuseInflate plugin (some (oneMaster "M")) = .ok out →
        ∃ counters header, HeaderEdited refuseInflate .sse raw block
          (patchEdit counters (some (oneMaster "M"))) (some (oneMaster "M")) out header := by
  obtain ⟨plugin, accepted⟩ := fromBytes_sampleFile refuseInflate
  obtain ⟨raw, block, same, _, update⟩ := writeUpdated_edits _ _ _ _ accepted
  refine ⟨plugin, raw, block, accepted, same, fun out wrote => ?_⟩
  obtain ⟨counters, _, edited⟩ := (update _).2 out wrote
  have fit : StringsFit (some (oneMaster "M")) := by decide
  exact ⟨counters, edited.mpr fit⟩

/-- A header update that is written and does not leave the new master. -/
theorem exists_master_lost : ∃ (inflate : Inflate) (data : Bytes) (plugin : Plugin) (raw : RawRecord)
    (block : Block) (patch : Option PluginHeaderPatch) (counters : HedrCounters) (out : Bytes),
    Plugin.fromBytes inflate data .sse = .ok plugin ∧ plugin.header.record = raw.toRecord ∧
      raw.toRecord.rawData inflate = .ok block.encode ∧ HedrReady block.frames ∧
      headerCounters plugin patch = .ok counters ∧ writeUpdated inflate plugin patch = .ok out ∧
      ¬∃ header, HeaderEdited inflate .sse raw block (patchEdit counters patch) patch out header := by
  obtain ⟨plugin, name, out, found⟩ := writeUpdated_wraps (fun _ => .ok wrapBlock.encode) []
    (by decide) rfl
  exact ⟨_, _, plugin, _, wrapBlock, some (oneMaster name), _, out, found⟩

end Bethkit
