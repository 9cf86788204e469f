import Bethkit.Verif.HeaderEdit
import Bethkit.Verif.HeaderParts

/-!
# What a header update writes

The bytes written are those of a record whose block is the edited block, or the compressed source
block when nothing was edited. That record is read back by the parser, and its subrecords are the
edited ones.
-/

namespace Bethkit

open Lib Layout

/-- The header record of an accepted plugin and its block. -/
theorem exists_headerBlock {inflate : Inflate} {data : Bytes} {ctx : GameContext}
    {plugin : Plugin} (accepted : Plugin.fromBytes inflate data ctx = .ok plugin) :
    ∃ (file : File) (block : Block), file.Fits ∧ data = file.encode ∧
      file.header.signature = ctx.headerSignature ∧
      file.header.toRecord.rawData inflate = .ok block.encode ∧
      plugin = ⟨data, ctx, PluginHeader.ofSubrecords ctx file.header.toRecord
        (locateFrames block.encode 0 block.frames), ⟨0, file.header.encode.length⟩,
        file.locateGroups⟩ := by
  obtain ⟨file, header, fit, written, admitted, rfl⟩ :=
    (fromBytes_eq_ok inflate data ctx plugin).mp accepted
  obtain ⟨signed, subrecords, read, rfl⟩ := (PluginHeader.ofRecord_eq_ok inflate ctx _ _).mp admitted
  obtain ⟨block, stored, rfl⟩ := (subrecords_eq_ok inflate _ rfl _).mp read
  exact ⟨file, block, fit, written, signed, stored, rfl⟩

/-- The fields of a record header inside the bytes of the record. -/
theorem slices_encode (raw : RawRecord) :
    raw.encode.slice 0 4 = raw.signature.bytes.val ∧
      raw.encode.slice 8 12 = u32ToLeBytes raw.flags.bits ∧
      raw.encode.slice 12 24 = u32ToLeBytes raw.formId.val ++ u32ToLeBytes raw.versionControl ++
        u16ToLeBytes raw.formVersion ++ u16ToLeBytes raw.unknown ∧
      raw.encode.drop 24 = raw.block := by
  have signature := raw.signature.bytes.property
  have first := Bytes.slice_append [] raw.signature.bytes.val
    (u32ToLeBytes raw.header.dataSize ++ (u32ToLeBytes raw.flags.bits ++
      (u32ToLeBytes raw.formId.val ++ u32ToLeBytes raw.versionControl ++
        u16ToLeBytes raw.formVersion ++ u16ToLeBytes raw.unknown ++ raw.block)))
  have second := Bytes.slice_append (raw.signature.bytes.val ++ u32ToLeBytes raw.header.dataSize)
    (u32ToLeBytes raw.flags.bits) (u32ToLeBytes raw.formId.val ++
      u32ToLeBytes raw.versionControl ++ u16ToLeBytes raw.formVersion ++ u16ToLeBytes raw.unknown ++
      raw.block)
  have third := Bytes.slice_append (raw.signature.bytes.val ++ u32ToLeBytes raw.header.dataSize ++
    u32ToLeBytes raw.flags.bits) (u32ToLeBytes raw.formId.val ++ u32ToLeBytes raw.versionControl ++
      u16ToLeBytes raw.formVersion ++ u16ToLeBytes raw.unknown) raw.block
  simp only [List.length_append, List.length_nil, signature, length_u32ToLeBytes,
    length_u16ToLeBytes, Nat.reduceAdd, List.append_assoc, List.nil_append] at first second third
  have whole : raw.encode = raw.header.encode ++ raw.block := rfl
  refine ⟨?_, ?_, ?_, ?_⟩
  · simpa [whole, RecordHeader.encode, RawRecord.header] using first
  · simpa [whole, RecordHeader.encode, RawRecord.header] using second
  · simpa [whole, RecordHeader.encode, RawRecord.header] using third
  · rw [whole, List.drop_left' raw.header.length_encode]

/-- The bytes of an updated record: its source header with a new size and new flags. -/
theorem encode_updatedRecord (edit : HeaderEdit) (patch : Option PluginHeaderPatch)
    (raw : RawRecord) (block : Block)
    (sized : (updatedBlock edit patch raw block).length < 2 ^ 32) :
    (updatedRecord edit patch raw block sized).encode =
      raw.encode.slice 0 4 ++ u32ToLeBytes (UInt32.ofNat (updatedBlock edit patch raw block).length) ++
        u32ToLeBytes (updatedFlags edit patch raw block).bits ++ raw.encode.slice 12 24 ++
        updatedBlock edit patch raw block := by
  obtain ⟨first, _, third, _⟩ := slices_encode raw
  rw [first, third]
  simp [updatedRecord, RawRecord.encode, RecordHeader.encode, RawRecord.header]

/-- The update compares the edited payload with the source payload. -/
theorem keepsPayload_eq {inflate : Inflate} (raw : RawRecord) (block : Block)
    (stored : raw.toRecord.rawData inflate = .ok block.encode) (edit : HeaderEdit)
    (patch : Option PluginHeaderPatch) :
    keepsPayload inflate raw.toRecord (patchedFlags raw.flags.bits patch)
        (editedPayload edit block) = .ok (keepsCompressed edit patch raw block) := by
  have flags : raw.toRecord.header.flags = raw.flags := rfl
  unfold keepsPayload keepsCompressed
  rw [stored, flags]
  by_cases both : patchedFlags raw.flags.bits patch &&& RecordFlags.COMPRESSED.bits ≠ 0 ∧
      raw.flags.contains .COMPRESSED
  · simp [both]
  · rw [if_neg both]
    exact congrArg Except.ok (decide_eq_false fun all => both ⟨all.1, all.2.1⟩).symm

/-- Storing the edited payload gives the updated record, if its block fits. -/
theorem storeHeader_eq_ok (edit : HeaderEdit) (patch : Option PluginHeaderPatch) (raw : RawRecord)
    (block : Block) (out : Bytes) :
    storeHeader raw.encode (keepsCompressed edit patch raw block)
        (patchedFlags raw.flags.bits patch) (editedPayload edit block) = .ok out ↔
      ∃ sized, out = (updatedRecord edit patch raw block sized).encode := by
  have bytes := encode_updatedRecord edit patch raw block
  obtain ⟨_, _, _, body⟩ := slices_encode raw
  have stored : storeHeader raw.encode (keepsCompressed edit patch raw block)
      (patchedFlags raw.flags.bits patch) (editedPayload edit block) =
        if 2 ^ 32 ≤ (updatedBlock edit patch raw block).length then
          .error (.invalidEncoding "plugin header exceeds u32 size")
        else .ok (raw.encode.slice 0 4 ++
          u32ToLeBytes (UInt32.ofNat (updatedBlock edit patch raw block).length) ++
          u32ToLeBytes (updatedFlags edit patch raw block).bits ++ raw.encode.slice 12 24 ++
          updatedBlock edit patch raw block) := by
    unfold storeHeader updatedBlock updatedFlags
    rw [body]
    cases keepsCompressed edit patch raw block <;> rfl
  rw [stored]
  by_cases fits : (updatedBlock edit patch raw block).length < 2 ^ 32
  · simp only [if_neg (Nat.not_le.mpr fits), Except.ok.injEq, bytes, fits, exists_true_left]
    exact eq_comm
  · simp only [if_pos (Nat.le_of_not_lt fits), fits, IsEmpty.exists_iff, reduceCtorEq]

/-- The update succeeds exactly when the counters fit, the first HEDR has room for them and the
stored block fits its size field; it writes the updated record. -/
theorem writeUpdated_eq_ok {inflate : Inflate} {ctx : GameContext} (file : File) (block : Block)
    (stored : file.header.toRecord.rawData inflate = .ok block.encode)
    (patch : Option PluginHeaderPatch) (plugin : Plugin)
    (parsed : plugin = ⟨file.encode, ctx, PluginHeader.ofSubrecords ctx file.header.toRecord
      (locateFrames block.encode 0 block.frames), ⟨0, file.header.encode.length⟩,
      file.locateGroups⟩) (out : Bytes) :
    writeUpdated inflate plugin patch = .ok out ↔ ∃ counters,
      headerCounters plugin patch = .ok counters ∧ HedrReady block.frames ∧
      ∃ sized, out = (updatedRecord (patchEdit counters patch) patch file.header block
        sized).encode := by
  have range : (plugin.source.get plugin.headerRange.start plugin.headerRange.stop).filter
      (24 ≤ ·.length) = some file.header.encode := by
    have front := Bytes.get_append [] file.header.encode
      (encodeAll (file.groups.map TopGroup.toNode))
    simp only [List.nil_append, List.length_nil, Nat.zero_add] at front
    simp only [parsed, File.encode, front]
    simp
  have record : plugin.header.record = file.header.toRecord := by rw [parsed]; rfl
  have read := (subrecords_eq_ok inflate file.header.toRecord rfl _).mpr ⟨block, stored, rfl⟩
  obtain ⟨_, flags, _, _⟩ := slices_encode file.header
  unfold writeUpdated
  rw [range]
  simp only [updatedPayload, record, stored, read, flags, u32FromLeBytes_toLeBytes]
  cases counted : headerCounters plugin patch with
  | error reason => simp [bind, Except.bind]
  | ok counters =>
    by_cases ready : HedrReady block.frames
    · have payload := rewritePayload_block (patchEdit counters patch) block ready
      simp only [patchEdit] at payload
      have keeps := keepsPayload_eq file.header block stored (patchEdit counters patch) patch
      have written := storeHeader_eq_ok (patchEdit counters patch) patch file.header block out
      simp only [patchEdit, editedPayload] at keeps written
      simp only [bind, Except.bind, payload, keeps, Except.ok.injEq, exists_eq_left', ready,
        true_and]
      exact written
    · obtain ⟨reason, refused⟩ := rewritePayload_error (patchEdit counters patch) block ready
      simp only [patchEdit] at refused
      simp [bind, Except.bind, refused, ready]

end Bethkit
