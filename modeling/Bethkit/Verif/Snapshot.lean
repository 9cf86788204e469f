import Bethkit.Semantic.Handler
import Bethkit.Verif.RoundTrip

/-!
# Snapshots of writable records

A snapshot is taken of a record that was never bytes. Its header, with the data size computed from
the payloads alone, and its subrecords are those that the bytes would give; its data block is
empty, whatever the subrecords are.
-/

namespace Bethkit

open Lib Layout

/-- What a caller can tell two records apart by. -/
structure Record.SameAs (inflate : Inflate) (left right : Record) : Prop where
  /-- Every header field, the data size included. -/
  header : left.header = right.header
  /-- The signatures and payloads of the subrecords. -/
  fields : (left.subrecords inflate).map subrecordValues =
    (right.subrecords inflate).map subrecordValues
  /-- The uncompressed data block. -/
  rawData : left.rawData inflate = right.rawData inflate
  /-- The size of the uncompressed data block. -/
  size : left.uncompressedDataSize = right.uncompressedDataSize

/-- The snapshot of a record is the one that its bytes give. -/
def WritableRecord.SnapshotFaithful (inflate : Inflate) (ctx : GameContext)
    (record : WritableRecord) : Prop :=
  ∃ parsed rest, Record.parseHeader ctx (SliceCursor.new record.writeTo) = .ok (parsed, rest) ∧
    (Record.fromWritable record).SameAs inflate parsed

/-- A subrecord is written with six bytes of framing, or sixteen when it is long. -/
theorem WritableSubRecord.length_writeTo (subrecord : WritableSubRecord) :
    subrecord.writeTo.length =
      (if 65535 < subrecord.data.length then 16 else 6) + subrecord.data.length := by
  have own := subrecord.signature.bytes.property
  have override : Signature.XXXX.bytes.val.length = 4 := rfl
  unfold WritableSubRecord.writeTo
  by_cases long : 65535 < subrecord.data.length
  · simp only [long, ↓reduceIte, List.length_append, own, override, length_u16ToLeBytes,
      length_u32ToLeBytes]
  · simp only [long, ↓reduceIte, List.length_append, own, length_u16ToLeBytes]

/-- The data size of a snapshot is the length of the block, as long as that fits. -/
theorem foldl_dataSize (subrecords : List WritableSubRecord) (size : UInt32)
    (fits : size.toNat + (subrecords.flatMap WritableSubRecord.writeTo).length < 2 ^ 32) :
    subrecords.foldl (fun size subrecord =>
      let headerSize := if 65535 < subrecord.data.length then 16 else 6
      UInt32.ofNat (min (size.toNat + min (headerSize + subrecord.data.length) (2 ^ 32 - 1))
        (2 ^ 32 - 1))) size =
      UInt32.ofNat (size.toNat + (subrecords.flatMap WritableSubRecord.writeTo).length) := by
  induction subrecords generalizing size with
  | nil => rw [List.foldl_nil, List.flatMap_nil, List.length_nil, Nat.add_zero, UInt32.ofNat_toNat]
  | cons subrecord subrecords ih =>
    have framed := subrecord.length_writeTo
    rw [List.flatMap_cons, List.length_append] at fits ⊢
    have step : (UInt32.ofNat (min (size.toNat +
        min ((if 65535 < subrecord.data.length then 16 else 6) + subrecord.data.length)
          (2 ^ 32 - 1)) (2 ^ 32 - 1))).toNat = size.toNat + subrecord.writeTo.length := by
      rw [← framed, UInt32.toNat_ofNat']
      omega
    rw [List.foldl_cons, ih _ (by rw [step]; omega), step, Nat.add_assoc]

namespace WritableRecord

variable {record : WritableRecord}

/-- A record is written as its header and its block. -/
theorem length_writeTo (record : WritableRecord) :
    record.writeTo.length = 24 + record.dataBuf.length := by
  simp only [writeTo, List.length_append, record.signature.bytes.property, length_u16ToLeBytes,
    length_u32ToLeBytes]

/-- Only a record without subrecords has an empty block. -/
theorem dataBuf_eq_nil : record.dataBuf = [] ↔ record.subrecords = [] := by
  constructor
  · intro empty
    cases same : record.subrecords with
    | nil => rfl
    | cons subrecord subrecords =>
      have framed := subrecord.length_writeTo
      have whole := congrArg List.length empty
      rw [dataBuf, same, List.flatMap_cons, List.length_append, List.length_nil] at whole
      split at framed <;> omega
  · intro empty
    rw [dataBuf, empty, List.flatMap_nil]

/-- The data size of a snapshot is the length of the block. -/
theorem dataSize_fromWritable (sized : record.dataBuf.length < 2 ^ 32) :
    (Record.fromWritable record).header.dataSize = UInt32.ofNat record.dataBuf.length := by
  have size := foldl_dataSize record.subrecords 0
    (by rw [UInt32.toNat_zero, Nat.zero_add]; exact sized)
  rw [UInt32.toNat_zero, Nat.zero_add] at size
  exact size

/-- The snapshot of a record has the header that its bytes have. -/
theorem header_fromWritable (wellFormed : record.WellFormed) :
    (Record.fromWritable record).header = (record.toRaw wellFormed).header := by
  have size := dataSize_fromWritable wellFormed.sized
  have fields : (Record.fromWritable record).header =
      { (record.toRaw wellFormed).header with
        dataSize := (Record.fromWritable record).header.dataSize } := rfl
  rw [fields, size]
  rfl

/-- The snapshot of a record has the subrecords that its bytes have. -/
theorem fields_fromWritable (wellFormed : record.WellFormed) (inflate : Inflate) :
    ((Record.fromWritable record).subrecords inflate).map subrecordValues =
      ((record.toRaw wellFormed).toRecord.subrecords inflate).map subrecordValues := by
  obtain ⟨subrecords, read, values⟩ := record.subrecords_toRaw wellFormed inflate
  have own : (Record.fromWritable record).subrecords inflate = .ok (record.subrecords.map
    fun subrecord => ⟨subrecord.signature, .owned subrecord.data⟩) := rfl
  rw [read, own, Except.map, Except.map, values, subrecordValues, List.map_map]
  rfl

/-- The bytes of a record that can be read back are read as its raw record. -/
theorem parseHeader_writeTo (wellFormed : record.WellFormed) (ctx : GameContext) :
    ∃ rest, Record.parseHeader ctx (SliceCursor.new record.writeTo) =
      .ok ((record.toRaw wellFormed).toRecord, rest) := by
  have read := (exact_record ctx).complete [] record.writeTo [] _
    ⟨record.toRaw wellFormed, (record.encode_toRaw wellFormed).symm, rfl⟩
  rw [List.nil_append, List.append_nil] at read
  exact ⟨_, read⟩

/-- Whatever the payload sizes are, the snapshot has the header and the subrecords of the record
that its bytes give; the data blocks are the empty one and the written one. -/
theorem exists_parsed (wellFormed : record.WellFormed) (inflate : Inflate) (ctx : GameContext) :
    ∃ parsed rest, Record.parseHeader ctx (SliceCursor.new record.writeTo) = .ok (parsed, rest) ∧
      (Record.fromWritable record).header = parsed.header ∧
      ((Record.fromWritable record).subrecords inflate).map subrecordValues =
        (parsed.subrecords inflate).map subrecordValues ∧
      (Record.fromWritable record).data = .raw [] ∧ parsed.data = .raw record.dataBuf := by
  obtain ⟨rest, read⟩ := parseHeader_writeTo wellFormed ctx
  refine ⟨_, rest, read, header_fromWritable wellFormed, fields_fromWritable wellFormed inflate,
    rfl, if_neg ?_⟩
  show ¬record.flags.contains .COMPRESSED = true
  rw [wellFormed.plain]
  exact Bool.false_ne_true

/-- The snapshot of a record without the flag for compressed data and of fitting size is the
record that its bytes give exactly when it has no subrecords and no group signature. -/
theorem snapshotFaithful_iff {inflate : Inflate} {ctx : GameContext}
    (plain : record.flags.contains .COMPRESSED = false) (sized : record.writeTo.length < 2 ^ 32) :
    record.SnapshotFaithful inflate ctx ↔ record.subrecords = [] ∧ record.signature ≠ .GRUP := by
  rw [record.length_writeTo] at sized
  constructor
  · rintro ⟨parsed, rest, read, same⟩
    obtain ⟨bytes, after, whole, _, raw, encoded, stored⟩ :=
      (exact_record ctx).sound [] record.writeTo parsed rest read
    rw [stored] at same
    have signature : record.signature = raw.signature := congrArg RecordHeader.signature same.header
    have flags : record.flags = raw.flags := congrArg RecordHeader.flags same.header
    have size : (Record.fromWritable record).header.dataSize = raw.header.dataSize :=
      congrArg RecordHeader.dataSize same.header
    have block : raw.toRecord.data = .raw raw.block := by
      apply if_neg
      rw [← flags, plain]
      exact Bool.false_ne_true
    have length : raw.block.length = record.dataBuf.length := by
      rw [← raw.toNat_dataSize, ← size, dataSize_fromWritable (by omega), UInt32.toNat_ofNat']
      exact Nat.mod_eq_of_lt (by omega)
    have empty : 0 = raw.block.length := by
      have sizes := same.size
      rw [Record.uncompressedDataSize, Record.uncompressedDataSize, block] at sizes
      exact sizes
    refine ⟨dataBuf_eq_nil.mp (List.length_eq_zero_iff.mp (length.symm.trans empty.symm)), ?_⟩
    rw [signature]
    exact raw.notGroup
  · rintro ⟨empty, notGroup⟩
    have wellFormed : record.WellFormed :=
      ⟨notGroup, plain, by rw [empty]; exact fun _ among => absurd among List.not_mem_nil, by omega⟩
    obtain ⟨parsed, rest, read, header, fields, own, stored⟩ := exists_parsed wellFormed inflate ctx
    rw [dataBuf_eq_nil.mpr empty] at stored
    refine ⟨parsed, rest, read, header, fields, ?_, ?_⟩
    · rw [Record.rawData, Record.rawData, own, stored]
    · rw [Record.uncompressedDataSize, Record.uncompressedDataSize, own, stored]

/-- A record without subrecords. -/
def bare : WritableRecord := ⟨.EDID, .empty, .NULL, 44, []⟩

/-- A record with one subrecord. -/
def named : WritableRecord := ⟨.EDID, .empty, .NULL, 44, [⟨.EDID, [0x61, 0]⟩]⟩

/-- The snapshot of a record without subrecords. -/
theorem snapshotFaithful_bare : bare.SnapshotFaithful refuseInflate .sse :=
  (snapshotFaithful_iff (by decide) (by decide)).mpr ⟨rfl, by decide⟩

/-- The snapshot of a record with a subrecord has no data block. -/
theorem not_snapshotFaithful_named :
    named.flags.contains .COMPRESSED = false ∧ named.writeTo.length < 2 ^ 32 ∧
      ∃ parsed rest, Record.parseHeader .sse (SliceCursor.new named.writeTo) = .ok (parsed, rest) ∧
      parsed.rawData refuseInflate = .ok [0x45, 0x44, 0x49, 0x44, 2, 0, 0x61, 0] ∧
      (Record.fromWritable named).rawData refuseInflate = .ok [] ∧
      ¬named.SnapshotFaithful refuseInflate .sse := by
  refine ⟨by decide, by decide, _, _, rfl, rfl, rfl, fun faithful => ?_⟩
  obtain ⟨parsed, rest, read, same⟩ := faithful
  have fixed : Record.parseHeader .sse (SliceCursor.new named.writeTo) = .ok (_, _) := rfl
  obtain ⟨rfl, _⟩ := Prod.mk.inj (Except.ok.inj (fixed.symm.trans read))
  exact absurd same.size (by decide)

end WritableRecord

end Bethkit
