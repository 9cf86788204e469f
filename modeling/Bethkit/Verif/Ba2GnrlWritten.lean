import Bethkit.Verif.ArchiveListing
import Bethkit.Verif.Ba2Bounds
import Bethkit.Verif.Ba2Written

/-!
# Written archives of general files

The records of a written archive say where the data of the files stands. An archive gives back what
was added exactly when the number of files, the lengths of the names and the sizes fit their fields.
-/

namespace Bethkit

open Lib

namespace Write.Ba2Gnrl

open Bethkit.Gnrl (GnrlRecord GnrlArchive fieldAt recordAt Marked)

/-- A record has 36 bytes. -/
theorem length_record (file : GnrlFile) (offset : Nat) : (record file offset).length = 36 := rfl

/-- How files are written. -/
def kind : Ba2Kind GnrlFile where
  subType := Bethkit.Ba2.subGnrl
  width := 36
  record := record
  chunk := GnrlFile.chunk
  path := GnrlFile.path
  four := rfl
  sized := length_record

/-- What is written is a written archive of the prepared files. -/
theorem exists_written {codecs : ArchiveCodecs} {version : Ba2Version} {compress : Bool}
    {entries : List BuilderEntry} {bytes : Bytes}
    (made : write codecs version compress entries = .ok bytes) : ∃ items offsets,
      List.Forall₂ (fun entry file => prepare codecs compress entry = .ok file) entries items ∧
        kind.Written version items offsets bytes := by
  rw [write] at made
  split at made
  · contradiction
  · obtain ⟨items, all, further⟩ := bind_eq_ok.mp made
    obtain ⟨⟨offsets, stop⟩, placed, same⟩ := bind_eq_ok.mp further
    have prepared := mapM_eq_ok.mp all
    rw [prepared.length_eq] at placed same
    refine ⟨items, offsets, prepared, ?_⟩
    rw [← Except.ok.inj same]
    exact Ba2Kind.written_of_placeChunks placed

variable {codecs : ArchiveCodecs} {version : Ba2Version} {compress : Bool} {items : List GnrlFile}
  {offsets : List Nat} {bytes : Bytes}

/-- The fields of a record. -/
theorem fields_record (written : kind.Written version items offsets bytes) {idx : Nat}
    (inside : idx < items.length) :
    recordAt bytes idx = ⟨UInt64.ofNat (offsets.getD idx 0), items[idx].chunk.packedSize,
      items[idx].chunk.size⟩ ∧ Marked bytes idx := by
  have field (start : Nat) {stop : Nat} (narrow : stop ≤ 36) : fieldAt bytes idx start stop =
      Bytes.slice (record items[idx] (offsets.getD idx 0)) start stop := by
    have whole : Bytes.slice bytes (24 + idx * 36) (24 + idx * 36 + 36) =
        record items[idx] (offsets.getD idx 0) := written.slice_record inside
    rw [← whole, Bytes.slice_slice bytes start (Nat.add_le_add_left narrow (24 + idx * 36))]
    rfl
  have offset : fieldAt bytes idx 12 20 =
      u64ToLeBytes (UInt64.ofNat (offsets.getD idx 0)) := field 12 (by decide)
  have packedSize : fieldAt bytes idx 20 24 =
      u32ToLeBytes items[idx].chunk.packedSize := field 20 (by decide)
  have size : fieldAt bytes idx 24 28 =
      u32ToLeBytes items[idx].chunk.size := field 24 (by decide)
  have mark : fieldAt bytes idx 28 32 = u32ToLeBytes Bethkit.Ba2.BAADF00D := field 28 (by decide)
  rw [recordAt, Marked, offset, packedSize, size, mark, u64FromLeBytes_toLeBytes,
    u32FromLeBytes_toLeBytes, u32FromLeBytes_toLeBytes, u32FromLeBytes_toLeBytes]
  exact ⟨rfl, rfl⟩

/-- A written archive is opened by the reader of general files. -/
theorem fromMmap_eq (written : kind.Written version items offsets bytes)
    (short : bytes.length < 2 ^ 63) : Ba2Archive.fromMmap bytes =
      (GnrlArchive.parse bytes (UInt32.ofNat items.length) (Ba2Archive.tableOffset bytes)).map
        .gnrl := by
  have inside := written.tableStart_le
  have opened := fromMmap_gnrl version (UInt32.ofNat items.length) (kind.recordBlock items offsets ++
    (kind.dataBlock items ++ kind.nameBlock items))
      (show kind.tableStart items < 2 ^ 64 by omega)
  have layout : bytes = ba2Header version Bethkit.Ba2.subGnrl (UInt32.ofNat items.length)
    (kind.tableStart items) ++ (kind.recordBlock items offsets ++
      (kind.dataBlock items ++ kind.nameBlock items)) := written.layout
  rwa [← layout] at opened

variable {files : List (Bytes × Bytes)}

/-- A file is prepared from what was added. -/
theorem prepared_at (prepared : List.Forall₂ (fun entry file =>
      prepare codecs compress entry = .ok file) (files.map builderEntry) items) :
    items.length = files.length ∧
    items.map GnrlFile.path = files.map (fun file => normalisePath file.1) ∧
    ∀ idx (added : idx < files.length) (inside : idx < items.length),
      storeChunk codecs compress files[idx].2 = .ok items[idx].chunk := by
  obtain ⟨length, each⟩ := List.forall₂_iff_get.mp prepared
  rw [List.length_map] at length
  have made (idx : Nat) (added : idx < files.length) (inside : idx < items.length) :
      storeChunk codecs compress files[idx].2 = .ok items[idx].chunk ∧
        items[idx].path = normalisePath files[idx].1 := by
    have here := each idx (by rw [List.length_map]; exact added) inside
    rw [List.get_eq_getElem, List.get_eq_getElem, List.getElem_map] at here
    obtain ⟨chunk, stored, same⟩ := map_eq_ok.mp here
    rw [← same]
    exact ⟨stored, rfl⟩
  refine ⟨length.symm, ?_, fun idx added inside => (made idx added inside).1⟩
  apply List.ext_getElem
  · rw [List.length_map, List.length_map, length]
  · intro idx left right
    rw [List.length_map] at left right
    rw [List.getElem_map, List.getElem_map]
    exact (made idx right left).2

/-- What is extracted at an index is what was added exactly when its sizes fit. -/
theorem extractByIndex_iff
    (prepared : List.Forall₂ (fun entry file => prepare codecs compress entry = .ok file)
      (files.map builderEntry) items) (written : kind.Written version items offsets bytes)
    (zlib : ZlibStreams codecs) (short : bytes.length < 2 ^ 63)
    (few : files.length < 2 ^ 32) {opened : GnrlArchive} (source : opened.source = bytes)
    {idx : Nat} (inside : idx < files.length)
    (record : opened.records[idx]? = some (recordAt bytes idx)) :
    opened.extractByIndex codecs idx = .ok files[idx].2 ↔ ChunkFits codecs compress files[idx].2 := by
  obtain ⟨length, _, made⟩ := prepared_at prepared
  have there : idx < items.length := length ▸ inside
  obtain ⟨before, after, whole, start⟩ := written.split_bytes there (length ▸ few)
  rw [GnrlArchive.extractByIndex, record, (fields_record written there).1, start, source]
  dsimp only
  have read := fun packedError plainError => @readStored_iff codecs files[idx].2 before after _
    packedError plainError zlib compress (made idx inside there) (whole ▸ short)
  have chunk : (kind.chunk items[idx]).stored = items[idx].chunk.stored := rfl
  rw [← chunk, ← whole] at read
  exact read _ _

/-- An archive gives back what was added exactly when the number of files, the names and the sizes
fit. -/
theorem unpacks_iff
    (prepared : List.Forall₂ (fun entry file => prepare codecs compress entry = .ok file)
      (files.map builderEntry) items) (written : kind.Written version items offsets bytes)
    (zlib : ZlibStreams codecs) (short : bytes.length < 2 ^ 63)
    (ascii : ∀ file ∈ files, ∀ byte ∈ file.1, byte < 128) :
    Unpacks codecs bytes files ↔ files.length < 2 ^ 32 ∧
      ∀ file ∈ files, file.1.length < 65536 ∧ ChunkFits codecs compress file.2 := by
  obtain ⟨length, paths, made⟩ := prepared_at prepared
  have place := written.tableOffset_eq short
  rw [Unpacks, fromMmap_eq written short]
  have inside := written.tableStart_le
  have count : (UInt32.ofNat items.length).toNat = files.length % 2 ^ 32 := by
    rw [toNat_ofNat32, length]
  have parsed := @Gnrl.parse_spec bytes (UInt32.ofNat items.length) (Ba2Archive.tableOffset bytes)
    short
    (fun _ => by omega)
  rw [count] at parsed
  by_cases few : files.length < 2 ^ 32
  swap
  · -- the number of files is cut
    refine iff_of_false (fun unpacks => ?_) (fun all => few all.1)
    obtain ⟨other, isOpen, listed, _⟩ := unpacks
    obtain ⟨opened, again, rfl⟩ := map_eq_ok.mp isOpen
    rcases parsed with ⟨same, names, found, stored, _, _, _, _, entries, _⟩ | ⟨_, _, refused⟩
    · obtain rfl := Except.ok.inj (again.symm.trans found)
      have lengths := congrArg List.length (entries.symm.trans listed)
      rw [List.length_map, List.length_map, Bethkit.Ba2.length_storedNames stored] at lengths
      omega
    · rw [again] at refused
      contradiction
  have whole : files.length % 2 ^ 32 = files.length := Nat.mod_eq_of_lt few
  have block : kind.nameBlock items =
      (files.map fun file => normalisePath file.1).flatMap ba2Name := by
    rw [← paths, List.flatMap_map]
    rfl
  have behind : bytes.drop (Ba2Archive.tableOffset bytes).toNat =
      (files.map fun file => normalisePath file.1).flatMap ba2Name := by
    rw [place, written.drop_names (length ▸ few), block]
  have normal : ∀ path ∈ files.map (fun file => normalisePath file.1), ∀ byte ∈ path, byte < 128 := by
    intro path among
    obtain ⟨file, added, rfl⟩ := List.mem_map.mp among
    exact ascii_normalisePath (ascii file added)
  have marked : ∀ i < files.length, Marked bytes i :=
    fun i small => (fields_record written (length ▸ small)).2
  rw [whole, behind] at parsed
  constructor
  · rintro ⟨other, isOpen, listed, extracted⟩
    obtain ⟨opened, again, rfl⟩ := map_eq_ok.mp isOpen
    rcases parsed with ⟨same, names, found, stored, _, _, source, _, entries, records⟩ |
      ⟨_, _, refused⟩
    · obtain rfl := Except.ok.inj (again.symm.trans found)
      have same : files.length = (files.map fun file => normalisePath file.1).length :=
        List.length_map _ |>.symm
      rw [same] at stored
      have small := length_lt_of_storedNames normal stored (entries.symm.trans listed)
      refine ⟨few, fun file among => ⟨?_, ?_⟩⟩
      · have here := small _ (List.mem_map_of_mem among)
        rwa [length_normalisePath (ascii file among)] at here
      · obtain ⟨idx, inside, rfl⟩ := List.mem_iff_getElem.mp among
        exact (extractByIndex_iff prepared written zlib short few source inside (records idx inside)).mp
          (extracted idx inside)
    · rw [again] at refused
      contradiction
  · rintro ⟨-, fits⟩
    have stored : Bethkit.Ba2.storedNames files.length
        ((files.map fun file => normalisePath file.1).flatMap ba2Name) =
          some (files.map fun file => normalisePath file.1) := by
      have names := @storedNames_names (files.map fun file => normalisePath file.1) (by
        intro path among
        obtain ⟨file, added, rfl⟩ := List.mem_map.mp among
        rw [length_normalisePath (ascii file added)]
        exact (fits file added).1) (by
        intro path among
        obtain ⟨file, _, rfl⟩ := List.mem_map.mp among
        exact strFromUtf8_normalisePath file.1)
      rwa [List.length_map] at names
    rcases parsed with ⟨opened, names, found, again, _, _, source, _, entries, records⟩ |
      ⟨unreadable, _, _⟩
    · obtain rfl := Option.some.inj (stored.symm.trans again)
      refine ⟨.gnrl opened, by rw [found]; rfl, ?_, fun idx inside => ?_⟩
      · show opened.entries.map ArchiveEntry.path = _
        rw [entries, List.map_map]
        exact List.map_congr_left fun file added => normalisePath_idem (ascii file added)
      · exact (extractByIndex_iff prepared written zlib short few source inside (records idx inside)).mpr
          (fits _ (List.getElem_mem inside)).2
    · rcases unreadable with unmarked | outside
      · exact absurd marked (unmarked _ stored)
      · have long := written.length_bytes
        have width : kind.width = 36 := rfl
        rw [length, width] at long
        omega

end Write.Ba2Gnrl

namespace Write

/-- A writer packs the normalised files. -/
theorem Ba2GnrlWriter.packing_eq (version : Ba2Version) (compress : Bool)
    (files : List (Bytes × Bytes)) :
    Ba2GnrlWriter.packing version compress files =
      ⟨version, compress, files.map builderEntry⟩ := by
  have added (writer : Ba2GnrlWriter) :
      files.foldl (fun writer file => writer.add file.1 file.2) writer =
        { writer with entries := writer.entries ++ files.map builderEntry } := by
    induction files generalizing writer with
    | nil => simp
    | cons file files rest =>
      rw [List.foldl_cons, rest]
      simp [Ba2GnrlWriter.add, builderEntry]
  rw [packing, added]
  rfl

/-- A written archive of general files opens and, entry by entry, gives back what was added exactly
when there are less than 2³² files, paths are shorter than 64 KiB and the sizes fit. -/
theorem gnrl_unpacks_iff {codecs : ArchiveCodecs} (zlib : ZlibStreams codecs)
    {version : Ba2Version} {compress : Bool} {files : List (Bytes × Bytes)}
    (ascii : ∀ file ∈ files, ∀ byte ∈ file.1, byte < 128) (mapped : MappedFile)
    (written : (Ba2GnrlWriter.packing version compress files).writeTo codecs = .ok mapped.bytes) :
    Unpacks codecs mapped.bytes files ↔ files.length < 2 ^ 32 ∧
      ∀ file ∈ files, file.1.length < 65536 ∧ ChunkFits codecs compress file.2 := by
  rw [Ba2GnrlWriter.packing_eq] at written
  obtain ⟨items, offsets, prepared, layout⟩ := Ba2Gnrl.exists_written written
  exact Ba2Gnrl.unpacks_iff prepared layout zlib mapped.short ascii

/-- The archive of a file with one byte of content. -/
def oneByteArchive (path : Bytes) : Bytes :=
  ba2Header .v1 Bethkit.Ba2.subGnrl 1 61 ++ (Ba2Gnrl.record ⟨path, ⟨[1], 1, 0⟩⟩ 60 ++
    ([1] ++ ba2Name path))

/-- A file with one byte of content is written. -/
theorem writeTo_oneByte (codecs : ArchiveCodecs) (path : Bytes) :
    (Ba2GnrlWriter.packing .v1 false [(path, [1])]).writeTo codecs =
      .ok (oneByteArchive (normalisePath path)) := by
  have raw : (Ba2GnrlWriter.packing .v1 false [(path, [1])]).writeTo codecs =
      .ok (ba2Header .v1 Bethkit.Ba2.subGnrl 1 61 ++
        ((Ba2Gnrl.record ⟨normalisePath path, ⟨[1], 1, 0⟩⟩ 60 ++ []) ++
          ([1] ++ (ba2Name (normalisePath path) ++ [])))) := rfl
  rw [raw, oneByteArchive, List.append_nil, List.append_nil]

/-- The length of the archive of a file with one byte. -/
theorem length_oneByteArchive (path : Bytes) :
    (oneByteArchive path).length = 63 + path.length := by
  rw [oneByteArchive, List.length_append, length_ba2Header _ rfl, List.length_append,
    Ba2Gnrl.length_record, List.length_append, ba2Name, List.length_append, length_u16ToLeBytes,
    List.length_singleton]
  omega

/-- The archive of a file with a short name. -/
def shortNamed : MappedFile where
  bytes := oneByteArchive (normalisePath (strAsBytes "a.nif"))
  short := by
    rw [length_oneByteArchive]
    decide +kernel

/-- A file with a short name is given back. -/
theorem gnrl_unpacks_shortNamed : Unpacks sealingCodecs shortNamed.bytes [(strAsBytes "a.nif", [1])] :=
  (@gnrl_unpacks_iff sealingCodecs zlibStreams_sealingCodecs .v1 false _
    (by decide +kernel) shortNamed (writeTo_oneByte _ _)).mpr
      ⟨by decide, fun file among => by
        rw [List.mem_singleton.mp among]
        exact ⟨by decide +kernel, by show 1 < 2 ^ 32; decide⟩⟩

/-- A path whose length does not fit 16 bits. -/
def longPath : Bytes := List.replicate 65536 97

/-- An archive of a file with a long name is written but does not give the name back. -/
theorem not_gnrl_unpacks_longPath : ∃ mapped : MappedFile,
    (Ba2GnrlWriter.packing .v1 false [(longPath, [1])]).writeTo sealingCodecs = .ok mapped.bytes ∧
      ¬Unpacks sealingCodecs mapped.bytes [(longPath, [1])] := by
  have ascii : ∀ byte ∈ longPath, byte < 128 := by
    intro byte among
    rw [(List.mem_replicate.mp among).2]
    decide
  have length : longPath.length = 65536 := List.length_replicate
  have written := writeTo_oneByte sealingCodecs longPath
  have short : (oneByteArchive (normalisePath longPath)).length < 2 ^ 63 := by
    rw [length_oneByteArchive, length_normalisePath ascii, length]
    decide
  refine ⟨⟨_, short⟩, written, fun unpacks => ?_⟩
  obtain ⟨items, offsets, prepared, layout⟩ := Ba2Gnrl.exists_written written
  have fits := ((Ba2Gnrl.unpacks_iff prepared layout zlibStreams_sealingCodecs short
    (by simpa using ascii)).mp unpacks).2 _ List.mem_cons_self
  rw [length] at fits
  exact absurd fits.1 (by decide)

end Write

end Bethkit
