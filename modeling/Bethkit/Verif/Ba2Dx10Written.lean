import Bethkit.Verif.Ba2Bounds
import Bethkit.Verif.Ba2Written
import Bethkit.Verif.DdsHeader

/-!
# Written archives of textures

The records of a written archive hold the fields of the textures and say where their mip levels stand.
The extracted textures are parsed like those that were added exactly when the number of textures and
their sizes fit, and the names can be read.
-/

namespace Bethkit

open Lib

/-- What is known of an archive of textures that was opened. -/
theorem Dx10.of_parse_eq_ok {source : Bytes} {fileCount : UInt32} {tableOffset : UInt64}
    (short : source.length < 2 ^ 63) (fits : tableOffset.toNat + 2 < 2 ^ 64) {archive : Dx10Archive}
    (opened : Dx10Archive.parse source fileCount tableOffset = .ok archive) :
    (Ba2.storedNames fileCount.toNat (source.drop tableOffset.toNat)).isSome ∧
      (∀ record ∈ storedRecords source fileCount.toNat 0 24, record.totalSize < 2 ^ 32) ∧
      archive.source = source ∧ archive.records = storedRecords source fileCount.toNat 0 24 := by
  obtain ⟨names, parsed, opened⟩ := bind_eq_ok.mp opened
  obtain ⟨files, read, same⟩ := bind_eq_ok.mp opened
  rw [← Except.ok.inj same]
  rcases @Ba2.parseNameTable_spec nameTableErrors source short tableOffset.toNat fileCount.toNat
    (fun _ => fits) with ⟨others, stored, again⟩ | ⟨_, _, refused⟩
  · obtain rfl := Except.ok.inj (parsed.symm.trans again)
    have count := Ba2.length_storedNames stored
    rcases @readRecords_spec source names 0 24 with
      ⟨small, ⟨_, found, all, _, records⟩ | ⟨_, _, failed, _⟩⟩ | ⟨_, failed⟩
    · obtain rfl := Except.ok.inj (read.symm.trans all)
      rw [count] at small records
      exact ⟨by rw [stored]; rfl, small, rfl, records⟩
    · rw [read] at failed
      contradiction
    · rw [read] at failed
      contradiction
  · rw [parsed] at refused
    contradiction

/-- No more records are stored than are asked for. -/
theorem Dx10.length_storedRecords_le (source : Bytes) (count i pos : Nat) :
    (storedRecords source count i pos).length ≤ count := by
  induction count generalizing i pos with
  | zero => exact Nat.le_refl 0
  | succ count ih =>
    rw [storedRecords]
    split
    · exact Nat.succ_le_succ (ih _ _)
    · exact Nat.zero_le _

namespace Write.Ba2Dx10

open Bethkit.Dx10 (Dx10Record Dx10Archive readRecord readChunks readChunk storedRecords)
open DdsParse (DdsInfo WellFormed)

/-- A record with its chunk has 48 bytes. -/
theorem length_record (rec_ : TexRecord) (offset : Nat) :
    (textureHeader rec_.entry ++ chunkRecord rec_ offset).length = 48 := rfl

/-- How textures are written. -/
def kind : Ba2Kind TexRecord where
  subType := Bethkit.Ba2.subDx10
  width := 48
  record rec_ offset := textureHeader rec_.entry ++ chunkRecord rec_ offset
  chunk := TexRecord.chunk
  path rec_ := rec_.entry.path
  four := rfl
  sized := length_record

/-- What is written is a written archive of the prepared textures. -/
theorem exists_written {codecs : ArchiveCodecs} {version : Ba2Version} {compress : Bool}
    {entries : List Dx10Entry} {bytes : Bytes}
    (made : write codecs version compress entries = .ok bytes) : ∃ items offsets,
      List.Forall₂ (fun entry file => prepare codecs compress entry = .ok file) entries items ∧
        kind.Written version items offsets bytes := by
  rw [write] at made
  split at made
  · contradiction
  · obtain ⟨items, all, further⟩ := bind_eq_ok.mp made
    obtain ⟨⟨offsets, stop⟩, placed, same⟩ := bind_eq_ok.mp further
    have prepared := mapM_eq_ok.mp all
    rw [prepared.length_eq] at placed same
    refine ⟨items, offsets, prepared, ?_⟩
    rw [← Except.ok.inj same]
    exact Ba2Kind.written_of_placeChunks placed

/-- The record that is read for a texture. -/
def readBack (rec_ : TexRecord) (offset : Nat) : Dx10Record where
  width := rec_.entry.info.width
  height := rec_.entry.info.height
  numMips := rec_.entry.info.numMips
  dxgiFormat := rec_.entry.info.dxgiFormat
  cubeMaps := rec_.entry.info.cubeMaps
  chunks := [⟨UInt64.ofNat offset, rec_.chunk.packedSize, rec_.chunk.size, 0,
    UInt16.ofNat (rec_.entry.info.numMips.toNat - 1)⟩]

/-- A record is read where it stands. -/
theorem readRecord_eq {source : Bytes} {rec_ : TexRecord} {i pos offset : Nat}
    (inside : pos + 48 ≤ source.length)
    (here : Bytes.slice source pos (pos + 48) = textureHeader rec_.entry ++ chunkRecord rec_ offset) :
    readRecord source i pos = .ok (readBack rec_ offset) := by
  have first : Bytes.slice source pos (pos + 24) = textureHeader rec_.entry := by
    have slice := Bytes.slice_slice source 0 (show pos + 24 ≤ pos + 48 by omega)
    rw [here] at slice
    exact slice.symm
  have second : Bytes.slice source (pos + 24) (pos + 24 + 24) = chunkRecord rec_ offset := by
    have slice := Bytes.slice_slice source 24 (show pos + 48 ≤ pos + 48 by omega)
    rw [here] at slice
    exact slice.symm
  have header := indexRange_eq (Nat.le_add_right pos 24) (show pos + 24 ≤ source.length by omega)
  have chunk := indexRange_eq (Nat.le_add_right (pos + 24) 24)
    (show pos + 24 + 24 ≤ source.length by omega)
  have mark : Bytes.slice (chunkRecord rec_ offset) 20 24 = u32ToLeBytes Bethkit.Ba2.BAADF00D := rfl
  have place : Bytes.slice (chunkRecord rec_ offset) 0 8 =
      u64ToLeBytes (UInt64.ofNat offset) := rfl
  have packedSize : Bytes.slice (chunkRecord rec_ offset) 8 12 =
      u32ToLeBytes rec_.chunk.packedSize := rfl
  have size : Bytes.slice (chunkRecord rec_ offset) 12 16 = u32ToLeBytes rec_.chunk.size := rfl
  have startMip : Bytes.slice (chunkRecord rec_ offset) 16 18 = u16ToLeBytes 0 := rfl
  have endMip : Bytes.slice (chunkRecord rec_ offset) 18 20 =
      u16ToLeBytes (UInt16.ofNat (rec_.entry.info.numMips.toNat - 1)) := rfl
  have only : readChunk source i 0 (pos + 24) = .ok ⟨UInt64.ofNat offset, rec_.chunk.packedSize,
      rec_.chunk.size, 0, UInt16.ofNat (rec_.entry.info.numMips.toNat - 1)⟩ := by
    rw [readChunk, if_neg (by omega), chunk, ok_bind, second, mark, u32FromLeBytes_toLeBytes,
      if_neg (not_not.mpr rfl), place, packedSize, size, startMip, endMip, u64FromLeBytes_toLeBytes,
      u32FromLeBytes_toLeBytes, u32FromLeBytes_toLeBytes, u16FromLeBytes_toLeBytes,
      u16FromLeBytes_toLeBytes]
  have count : ((textureHeader rec_.entry).getD 13 0).toNat = 1 := rfl
  have height : Bytes.slice (textureHeader rec_.entry) 16 18 =
      u16ToLeBytes rec_.entry.info.height := rfl
  have width : Bytes.slice (textureHeader rec_.entry) 18 20 =
      u16ToLeBytes rec_.entry.info.width := rfl
  have cube : Bytes.slice (textureHeader rec_.entry) 22 24 =
      u16ToLeBytes rec_.entry.info.cubeMaps := rfl
  rw [readRecord, if_neg (by omega), header, ok_bind, first, count]
  rw [readChunks, only, ok_bind, readChunks, ok_bind, height, width, cube, u16FromLeBytes_toLeBytes,
    u16FromLeBytes_toLeBytes, u16FromLeBytes_toLeBytes]
  rfl

/-- Records of one chunk that stand one behind the other are read. -/
theorem storedRecords_eq {source : Bytes} {list : List Dx10Record} {i : Nat}
    (single : ∀ record ∈ list, record.chunks.length = 1)
    (each : ∀ k (inside : k < list.length),
      readRecord source (i + k) (24 + (i + k) * 48) = .ok list[k]) :
    storedRecords source list.length i (24 + i * 48) = list := by
  induction list generalizing i with
  | nil => rfl
  | cons record list rest =>
    have first : readRecord source i (24 + i * 48) = .ok record := each 0 (Nat.succ_pos _)
    have stop : record.stop (24 + i * 48) = 24 + (i + 1) * 48 := by
      rw [Dx10Record.stop, single record List.mem_cons_self]
      omega
    have others := @rest (i + 1) (fun other among => single other (List.mem_cons_of_mem _ among))
      fun k inside => by
        have here := each (k + 1) (Nat.succ_lt_succ inside)
        rw [show i + (k + 1) = i + 1 + k by omega] at here
        exact here
    rw [List.length_cons, storedRecords, first]
    dsimp only
    rw [stop, others]

variable {codecs : ArchiveCodecs} {version : Ba2Version} {compress : Bool} {items : List TexRecord}
  {offsets : List Nat} {bytes : Bytes}

/-- The records that are read from a written archive. -/
theorem storedRecords_written (written : kind.Written version items offsets bytes) :
    storedRecords bytes items.length 0 24 =
      (items.zip offsets).map fun item => readBack item.1 item.2 := by
  have length : ((items.zip offsets).map fun item => readBack item.1 item.2).length =
      items.length := by
    rw [List.length_map, List.length_zip, written.placed, Nat.min_self]
  have long := written.length_bytes
  have width : kind.width = 48 := rfl
  rw [width] at long
  have read := @storedRecords_eq bytes ((items.zip offsets).map fun item => readBack item.1 item.2) 0
    (fun record among => by
      obtain ⟨item, _, rfl⟩ := List.mem_map.mp among
      rfl)
    (fun k inside => by
      have there : k < items.length := length ▸ inside
      have placed : k < offsets.length := written.placed ▸ there
      have here : Bytes.slice bytes (24 + k * 48) (24 + k * 48 + 48) =
          textureHeader items[k].entry ++ chunkRecord items[k] (offsets.getD k 0) :=
        written.slice_record there
      have room : 24 + k * 48 + 48 ≤ bytes.length := by omega
      rw [Nat.zero_add, readRecord_eq room here, List.getElem_map, List.getElem_zip,
        List.getD_eq_getElem _ _ placed])
  rwa [length] at read

/-- A written archive is opened by the reader of textures. -/
theorem fromMmap_eq (written : kind.Written version items offsets bytes)
    (short : bytes.length < 2 ^ 63) : Ba2Archive.fromMmap bytes =
      (Dx10Archive.parse bytes (UInt32.ofNat items.length) (Ba2Archive.tableOffset bytes)).map
        .dx10 := by
  have inside := written.tableStart_le
  have opened := fromMmap_dx10 version (UInt32.ofNat items.length) (kind.recordBlock items offsets ++
    (kind.dataBlock items ++ kind.nameBlock items))
      (show kind.tableStart items < 2 ^ 64 by omega)
  have layout : bytes = ba2Header version Bethkit.Ba2.subDx10 (UInt32.ofNat items.length)
    (kind.tableStart items) ++ (kind.recordBlock items offsets ++
      (kind.dataBlock items ++ kind.nameBlock items)) := written.layout
  rwa [← layout] at opened

variable {files : List (Bytes × Bytes)} {entries : List Dx10Entry}

/-- A texture is prepared from what was added. -/
theorem prepared_at (prepared : List.Forall₂ (fun entry file =>
      prepare codecs compress entry = .ok file) entries items) :
    items.length = entries.length ∧ items.map TexRecord.entry = entries ∧
      ∀ idx (added : idx < entries.length) (inside : idx < items.length),
        items[idx].entry = entries[idx] ∧
          storeChunk codecs compress entries[idx].info.mipData = .ok items[idx].chunk := by
  obtain ⟨length, each⟩ := List.forall₂_iff_get.mp prepared
  have made (idx : Nat) (added : idx < entries.length) (inside : idx < items.length) :
      items[idx].entry = entries[idx] ∧
        storeChunk codecs compress entries[idx].info.mipData = .ok items[idx].chunk := by
    have here := each idx added inside
    rw [List.get_eq_getElem, List.get_eq_getElem] at here
    obtain ⟨chunk, stored, same⟩ := map_eq_ok.mp here
    rw [← same]
    exact ⟨rfl, stored⟩
  refine ⟨length.symm, ?_, made⟩
  apply List.ext_getElem
  · rw [List.length_map, length]
  · intro idx left right
    rw [List.length_map] at left
    rw [List.getElem_map]
    exact (made idx right left).1

/-- The size of a texture is added up from the low bits of the length of its mip levels and the length
of its header. -/
theorem totalSize_readBack {rec_ : TexRecord}
    (stored : storeChunk codecs compress rec_.entry.info.mipData = .ok rec_.chunk) (offset : Nat) :
    (readBack rec_ offset).totalSize =
      rec_.entry.info.mipData.length % 2 ^ 32 + headerLength rec_.entry.info.dxgiFormat := by
  have size : rec_.chunk.size = UInt32.ofNat rec_.entry.info.mipData.length := by
    rcases storeChunk_eq_ok stored with ⟨_, stream, _, same⟩ | ⟨_, same⟩
    · rw [same]
    · rw [same]
  have header : (readBack rec_ offset).header.length = headerLength rec_.entry.info.dxgiFormat :=
    DdsParse.length_buildDdsHeader
  have sum : ((readBack rec_ offset).chunks.map fun chunk => chunk.size.toNat).sum =
      rec_.chunk.size.toNat := Nat.add_zero _
  rw [Dx10Record.totalSize, header, sum, size, toNat_ofNat32]

/-- What is extracted at an index is parsed like the texture that was added exactly when its sizes
fit. -/
theorem extracted_iff (zlib : ZlibStreams codecs) (written : kind.Written version items offsets bytes)
    (short : bytes.length < 2 ^ 63) (few : items.length < 2 ^ 32) {opened : Dx10Archive}
    (source : opened.source = bytes) {idx : Nat} (inside : idx < items.length)
    (record : opened.records[idx]? = some (readBack items[idx] (offsets.getD idx 0)))
    (stored : storeChunk codecs compress items[idx].entry.info.mipData = .ok items[idx].chunk)
    (formed : WellFormed true items[idx].entry.info) :
    (∃ dds, opened.extractByIndex codecs idx = .ok dds ∧
        DdsParse.parse true dds = .ok items[idx].entry.info) ↔
      ChunkFits codecs compress items[idx].entry.info.mipData := by
  obtain ⟨before, after, whole, start⟩ := written.split_bytes inside few
  have chunk : (kind.chunk items[idx]).stored = items[idx].chunk.stored := rfl
  rw [chunk] at whole
  have read := @readStored_iff codecs items[idx].entry.info.mipData before after _
    (fun _ _ => s!"DX10 chunk {0} compressed data out of bounds")
    (fun _ _ => s!"DX10 chunk {0} data out of bounds") zlib compress stored (whole ▸ short)
  rw [← whole, ← start] at read
  rw [← read]
  have extract : opened.extractByIndex codecs idx =
      (Bethkit.Ba2.readStored codecs bytes (UInt64.ofNat (offsets.getD idx 0))
        items[idx].chunk.packedSize items[idx].chunk.size
        (fun _ _ => s!"DX10 chunk {0} compressed data out of bounds")
        (fun _ _ => s!"DX10 chunk {0} data out of bounds")).map
          fun data => items[idx].entry.info.header ++ data := by
    rw [Dx10Archive.extractByIndex, record, source]
    dsimp only
    rw [readBack, Bethkit.Dx10.extractChunks]
    cases Bethkit.Ba2.readStored codecs bytes (UInt64.ofNat (offsets.getD idx 0))
        items[idx].chunk.packedSize items[idx].chunk.size
        (fun _ _ => s!"DX10 chunk {0} compressed data out of bounds")
        (fun _ _ => s!"DX10 chunk {0} data out of bounds") with
    | error error => rfl
    | ok data =>
      show Except.ok (_ ++ (data ++ [])) = _
      rw [List.append_nil]
      rfl
  rw [extract]
  constructor
  · rintro ⟨dds, found, parsed⟩
    obtain ⟨data, back, rfl⟩ := map_eq_ok.mp found
    have same := DdsParse.mipData_of_parse_header formed parsed
    rw [same]
    exact back
  · intro back
    refine ⟨_, by rw [back]; rfl, DdsParse.parse_header formed⟩

/-- The paths of added textures. -/
theorem map_path_of_added (added : List.Forall₂ (fun file entry =>
      DdsParse.parse true file.2 = .ok entry.info ∧ entry.path = normalisePath file.1) files entries) :
    files.map (fun file => normalisePath file.1) = entries.map Dx10Entry.path := by
  induction added with
  | nil => rfl
  | cons here _ rest => rw [List.map_cons, List.map_cons, here.2, rest]

/-- The textures of an archive are given back exactly when the number of textures, their names and
their sizes fit. -/
theorem unpacks_iff (prepared : List.Forall₂ (fun entry file =>
      prepare codecs compress entry = .ok file) entries items)
    (written : kind.Written version items offsets bytes) (zlib : ZlibStreams codecs)
    (short : bytes.length < 2 ^ 63)
    (added : List.Forall₂ (fun file entry => DdsParse.parse true file.2 = .ok entry.info ∧
      entry.path = normalisePath file.1) files entries) :
    UnpacksTextures codecs bytes files ↔ files.length < 2 ^ 32 ∧
      (Bethkit.Ba2.storedNames files.length
        ((files.map fun file => normalisePath file.1).flatMap ba2Name)).isSome ∧
      ∀ file ∈ files, ∀ info, DdsParse.parse true file.2 = .ok info →
        TextureFits codecs compress info := by
  obtain ⟨length, sources, made⟩ := prepared_at prepared
  have same := added.length_eq
  have place := written.tableOffset_eq short
  have inside := written.tableStart_le
  have small : (Ba2Archive.tableOffset bytes).toNat + 2 < 2 ^ 64 := by omega
  have count : (UInt32.ofNat items.length).toNat = files.length % 2 ^ 32 := by
    rw [toNat_ofNat32, length, same]
  have known := fun opened again =>
    @Dx10.of_parse_eq_ok bytes (UInt32.ofNat items.length) _ short small opened again
  rw [UnpacksTextures, fromMmap_eq written short]
  by_cases few : files.length < 2 ^ 32
  swap
  · -- the number of textures is cut
    refine iff_of_false (fun unpacks => ?_) (fun all => few all.1)
    obtain ⟨other, isOpen, extracted⟩ := unpacks
    obtain ⟨opened, again, rfl⟩ := map_eq_ok.mp isOpen
    obtain ⟨_, _, _, records⟩ := known opened again
    obtain ⟨dds, found, _⟩ := extracted (files.length - 1) (by omega)
    have kept : opened.records.length ≤ files.length % 2 ^ 32 := by
      rw [records, ← count]
      exact Dx10.length_storedRecords_le _ _ _ _
    have none : opened.records[files.length - 1]? = none := List.getElem?_eq_none (by omega)
    have lost : opened.extractByIndex codecs (files.length - 1) = .error .outOfRange := by
      rw [Dx10Archive.extractByIndex, none]
    have back : opened.extractByIndex codecs (files.length - 1) = .ok dds := found
    rw [lost] at back
    contradiction
  have whole : files.length % 2 ^ 32 = files.length := Nat.mod_eq_of_lt few
  have listed := storedRecords_written written
  have behind : bytes.drop (Ba2Archive.tableOffset bytes).toNat =
      (files.map fun file => normalisePath file.1).flatMap ba2Name := by
    have paths : (items.map TexRecord.entry).map Dx10Entry.path =
        files.map fun file => normalisePath file.1 := by
      rw [sources]
      exact (map_path_of_added added).symm
    rw [place, written.drop_names (by omega), ← paths, List.flatMap_map, List.flatMap_map]
    rfl
  have info (idx : Nat) (inFiles : idx < files.length) (inItems : idx < items.length) :
      DdsParse.parse true files[idx].2 = .ok items[idx].entry.info ∧
        storeChunk codecs compress items[idx].entry.info.mipData = .ok items[idx].chunk := by
    obtain ⟨entry, stored⟩ := made idx (by omega) inItems
    have here := (List.forall₂_iff_get.mp added).2 idx inFiles (by omega)
    rw [List.get_eq_getElem, List.get_eq_getElem] at here
    rw [entry]
    exact ⟨here.1, stored⟩
  have record {opened : Dx10Archive} (records : opened.records = storedRecords bytes items.length 0 24)
      {idx : Nat} (inItems : idx < items.length) :
      opened.records[idx]? = .some (readBack items[idx] (offsets.getD idx 0)) := by
    have placed : idx < offsets.length := written.placed ▸ inItems
    rw [records, listed, List.getElem?_map, List.getElem?_eq_getElem
      (by rw [List.length_zip, written.placed, Nat.min_self]; exact inItems), List.getElem_zip,
      List.getD_eq_getElem _ _ placed]
    rfl
  have formed (idx : Nat) (inFiles : idx < files.length) (inItems : idx < items.length) :
      WellFormed true items[idx].entry.info := DdsParse.parse_wellFormed (info idx inFiles inItems).1
  have size (idx : Nat) (inFiles : idx < files.length) (inItems : idx < items.length) :
      (readBack items[idx] (offsets.getD idx 0)).totalSize =
        items[idx].entry.info.mipData.length % 2 ^ 32 +
          headerLength items[idx].entry.info.dxgiFormat :=
    totalSize_readBack (info idx inFiles inItems).2 _
  rw [count, whole, behind] at known
  constructor
  · rintro ⟨other, isOpen, extracted⟩
    obtain ⟨opened, again, rfl⟩ := map_eq_ok.mp isOpen
    obtain ⟨readable, sizes, source, records⟩ := known opened again
    refine ⟨few, readable, fun file among parsed parse => ?_⟩
    obtain ⟨idx, inFiles, rfl⟩ := List.mem_iff_getElem.mp among
    have inItems : idx < items.length := by omega
    obtain rfl := Except.ok.inj ((info idx inFiles inItems).1.symm.trans parse)
    have here := record (records.trans (by rw [length, same])) inItems
    refine ⟨?_, ?_⟩
    · apply (extracted_iff zlib written short (by omega) source inItems here
        (info idx inFiles inItems).2 (formed idx inFiles inItems)).mp
      obtain ⟨dds, found, result, first, second⟩ := extracted idx inFiles
      rw [Except.ok.inj (first.symm.trans parse)] at second
      exact ⟨dds, found, second⟩
    · rw [← size idx inFiles inItems]
      apply sizes
      rw [← records]
      exact List.mem_of_getElem? here
  · rintro ⟨-, readable, fits⟩
    have sizes : ∀ record ∈ storedRecords bytes files.length 0 24, record.totalSize < 2 ^ 32 := by
      intro stored among
      have all : storedRecords bytes files.length 0 24 = storedRecords bytes items.length 0 24 := by
        rw [length, same]
      rw [all, listed] at among
      obtain ⟨idx, inList, rfl⟩ := List.mem_iff_getElem.mp among
      rw [List.length_map, List.length_zip, written.placed, Nat.min_self] at inList
      have inFiles : idx < files.length := by omega
      have placed : idx < offsets.length := written.placed ▸ inList
      rw [List.getElem_map, List.getElem_zip, ← List.getD_eq_getElem _ 0 placed,
        size idx inFiles inList]
      exact (fits _ (List.getElem_mem inFiles) _ (info idx inFiles inList).1).2
    have opens := @Bethkit.Dx10.parse_spec bytes (UInt32.ofNat items.length) _ short
      (fun _ => small)
    rw [count, whole, behind] at opens
    rcases opens (fun _ => sizes) with ⟨opened, names, found, _, _, source, _, _, records⟩ |
      ⟨refused, _⟩
    · refine ⟨.dx10 opened, by rw [found]; rfl, fun idx inFiles => ?_⟩
      have inItems : idx < items.length := by omega
      have here := record (records.trans (by rw [length, same])) inItems
      have parsed := (info idx inFiles inItems).1
      obtain ⟨dds, extract, again⟩ := (extracted_iff zlib written short (by omega) source inItems here
        (info idx inFiles inItems).2 (formed idx inFiles inItems)).mpr
          (fits _ (List.getElem_mem inFiles) _ parsed).1
      exact ⟨dds, extract, _, parsed, again⟩
    · rcases refused with none | short
      · rw [none] at readable
        contradiction
      · have all : storedRecords bytes files.length 0 24 = storedRecords bytes items.length 0 24 := by
          rw [length, same]
        rw [all, listed, List.length_map, List.length_zip, written.placed, Nat.min_self] at short
        omega

end Write.Ba2Dx10

namespace Write

open DdsParse (DdsInfo WellFormed)

/-- A writer holds what was parsed from the added textures. -/
theorem Ba2Dx10Writer.packing_eq_ok {version : Ba2Version} {compress : Bool}
    {files : List (Bytes × Bytes)} {writer : Ba2Dx10Writer}
    (added : Ba2Dx10Writer.packing version compress files = .ok writer) :
    writer.version = version ∧ writer.compress = compress ∧
      List.Forall₂ (fun file entry => DdsParse.parse true file.2 = .ok entry.info ∧
        entry.path = normalisePath file.1) files writer.entries := by
  have all (files : List (Bytes × Bytes)) (start : Ba2Dx10Writer)
      (added : files.foldlM (fun writer file => writer.add file.1 file.2) start = .ok writer) :
      writer.version = start.version ∧ writer.compress = start.compress ∧
        ∃ more, writer.entries = start.entries ++ more ∧
          List.Forall₂ (fun file entry => DdsParse.parse true file.2 = .ok entry.info ∧
            entry.path = normalisePath file.1) files more := by
    induction files generalizing start with
    | nil =>
      obtain rfl := Except.ok.inj added
      exact ⟨rfl, rfl, [], (List.append_nil _).symm, .nil⟩
    | cons file files rest =>
      rw [List.foldlM_cons] at added
      obtain ⟨next, first, others⟩ := bind_eq_ok.mp added
      obtain ⟨info, parsed, same⟩ := bind_eq_ok.mp first
      obtain rfl := Except.ok.inj same
      obtain ⟨version, compress, more, entries, each⟩ := rest _ others
      refine ⟨version, compress, ⟨normalisePath file.1, info⟩ :: more, ?_, .cons ⟨parsed, rfl⟩ each⟩
      rw [entries, List.append_assoc]
      rfl
  obtain ⟨version, compress, more, entries, each⟩ := all files _ added
  rw [entries]
  exact ⟨version, compress, each⟩

/-- Every texture of a written archive is given back as the same texture exactly when there are less
than 2³² of them, the names can be read and the sizes fit. -/
theorem dx10_unpacks_iff {codecs : ArchiveCodecs} (zlib : ZlibStreams codecs)
    {version : Ba2Version} {compress : Bool} {files : List (Bytes × Bytes)} {writer : Ba2Dx10Writer}
    (added : Ba2Dx10Writer.packing version compress files = .ok writer) (mapped : MappedFile)
    (written : writer.writeTo codecs = .ok mapped.bytes) :
    UnpacksTextures codecs mapped.bytes files ↔ files.length < 2 ^ 32 ∧
      (Bethkit.Ba2.storedNames files.length
        ((files.map fun file => normalisePath file.1).flatMap ba2Name)).isSome ∧
      ∀ file ∈ files, ∀ info, DdsParse.parse true file.2 = .ok info →
        TextureFits codecs compress info := by
  obtain ⟨sameVersion, sameCompress, entries⟩ := Ba2Dx10Writer.packing_eq_ok added
  rw [Ba2Dx10Writer.writeTo, sameVersion, sameCompress] at written
  obtain ⟨items, offsets, prepared, layout⟩ := Ba2Dx10.exists_written written
  exact Ba2Dx10.unpacks_iff prepared layout zlib mapped.short entries

/-- A texture of one pixel in front of other bytes. -/
def onePixel (mipData : Bytes) : DdsInfo := ⟨1, 1, 1, 65, 0, mipData, [(0, 1)]⟩

/-- A texture of one pixel is well formed. -/
theorem wellFormed_onePixel {mipData : Bytes} (some : 1 ≤ mipData.length) :
    WellFormed true (onePixel mipData) where
  levels := show (1 : UInt8) ≠ 0 by decide
  known := show Dds.DxgiFormat.ofU8 65 ≠ .unknown by decide
  cube := .inl rfl
  ranges := by
    have size : DdsParse.mipByteSize true 1 1 65 = .ok 1 := rfl
    have raw : DdsParse.computeMipRanges true 1 1 1 65 mipData =
        (DdsParse.mipByteSize true 1 1 65 >>= fun size =>
          if mipData.length < 0 + size then .error (.invalidDds
            s!"DDS mip data too short: need {size} bytes at offset {0}, have {mipData.length}")
          else .ok [(0, size)]) := rfl
    have fits : ¬mipData.length < 0 + 1 := by omega
    show DdsParse.computeMipRanges true 1 1 1 65 mipData = _
    rw [raw, size, ok_bind, if_neg fits]
    rfl

/-- The DDS file of a texture of one pixel. -/
def onePixelFile (mipData : Bytes) : List (Bytes × Bytes) :=
  [(strAsBytes "a.dds", (onePixel mipData).header ++ mipData)]

/-- The archive of a texture of one pixel. -/
def onePixelArchive (mipData : Bytes) : Bytes :=
  ba2Header .v1 Bethkit.Ba2.subDx10 1 (72 + mipData.length) ++
    ((Ba2Dx10.textureHeader ⟨normalisePath (strAsBytes "a.dds"), onePixel mipData⟩ ++
      Ba2Dx10.chunkRecord ⟨⟨normalisePath (strAsBytes "a.dds"), onePixel mipData⟩,
        ⟨mipData, UInt32.ofNat mipData.length, 0⟩⟩ 72) ++
      (mipData ++ ba2Name (normalisePath (strAsBytes "a.dds"))))

/-- The writer of a texture of one pixel. -/
def onePixelWriter (mipData : Bytes) : Ba2Dx10Writer :=
  ⟨.v1, false, [⟨normalisePath (strAsBytes "a.dds"), onePixel mipData⟩]⟩

/-- A texture of one pixel is added. -/
theorem packing_onePixel {mipData : Bytes} (some : 1 ≤ mipData.length) :
    Ba2Dx10Writer.packing .v1 false (onePixelFile mipData) = .ok (onePixelWriter mipData) := by
  have parsed : DdsParse.parse true ((onePixel mipData).header ++ mipData) = .ok (onePixel mipData) :=
    DdsParse.parse_header (wellFormed_onePixel some)
  rw [Ba2Dx10Writer.packing, onePixelFile, List.foldlM_cons, Ba2Dx10Writer.add]
  dsimp only
  rw [parsed]
  rfl

/-- A texture of one pixel is written. -/
theorem writeTo_onePixel (codecs : ArchiveCodecs) {mipData : Bytes}
    (short : mipData.length < 2 ^ 63) :
    (onePixelWriter mipData).writeTo codecs = .ok (onePixelArchive mipData) := by
  have fits : addUsize 72 mipData.length = .ok (72 + mipData.length) := if_pos (by omega)
  have prepared : (onePixelWriter mipData).entries.mapM (Ba2Dx10.prepare codecs false) =
      .ok [⟨⟨normalisePath (strAsBytes "a.dds"), onePixel mipData⟩,
        ⟨mipData, UInt32.ofNat mipData.length, 0⟩⟩] := rfl
  have placed : placeChunks [⟨mipData, UInt32.ofNat mipData.length, 0⟩] 72 =
      .ok ([72], 72 + mipData.length) := by
    rw [placeChunks]
    dsimp only
    rw [fits]
    rfl
  have raw : (onePixelWriter mipData).writeTo codecs =
      ((onePixelWriter mipData).entries.mapM (Ba2Dx10.prepare codecs false) >>= fun records =>
        placeChunks (records.map TexRecord.chunk) 72 >>= fun placed =>
          .ok (ba2Header .v1 Bethkit.Ba2.subDx10 1 placed.2 ++
            ((records.zip placed.1).flatMap (fun file =>
                Ba2Dx10.textureHeader file.1.entry ++ Ba2Dx10.chunkRecord file.1 file.2) ++
              (records.flatMap (fun file => file.chunk.stored) ++
                records.flatMap fun file => ba2Name file.entry.path)))) := rfl
  rw [raw, prepared, ok_bind, List.map_singleton, placed, ok_bind, List.zip_cons_cons,
    List.zip_nil_left, List.flatMap_singleton, List.flatMap_singleton, List.flatMap_singleton]
  rfl

/-- The length of the archive of a texture of one pixel. -/
theorem length_onePixelArchive (mipData : Bytes) :
    (onePixelArchive mipData).length = 79 + mipData.length := by
  have name : (ba2Name (normalisePath (strAsBytes "a.dds"))).length = 7 := by decide +kernel
  rw [onePixelArchive, List.length_append, length_ba2Header _ rfl, List.length_append,
    Ba2Dx10.length_record ⟨⟨normalisePath (strAsBytes "a.dds"), onePixel mipData⟩,
      ⟨mipData, UInt32.ofNat mipData.length, 0⟩⟩, List.length_append, name]
  omega

/-- A mapped archive of a texture of one pixel. -/
def onePixelMapped : MappedFile where
  bytes := onePixelArchive [7]
  short := by
    rw [length_onePixelArchive]
    decide

/-- A texture of one pixel is given back. -/
theorem dx10_unpacks_onePixel :
    UnpacksTextures sealingCodecs onePixelMapped.bytes (onePixelFile [7]) := by
  refine (@dx10_unpacks_iff sealingCodecs zlibStreams_sealingCodecs .v1 false _ _
    (packing_onePixel (by decide)) onePixelMapped (writeTo_onePixel _ (by decide))).mpr
      ⟨by decide, by decide +kernel, fun file among info parsed => ?_⟩
  rw [List.mem_singleton.mp among] at parsed
  have again : DdsParse.parse true ((onePixel [7]).header ++ [7]) = .ok (onePixel [7]) :=
    DdsParse.parse_header (wellFormed_onePixel (by decide))
  rw [← Except.ok.inj (again.symm.trans parsed)]
  exact ⟨show 1 < 2 ^ 32 by decide, show 1 % 2 ^ 32 + 128 < 2 ^ 32 by decide⟩

/-- The bytes of a texture that is followed by 4 GiB. -/
def hugeData : Bytes := List.replicate (2 ^ 32) 7

/-- A texture of 4 GiB is written but not given back. -/
theorem not_dx10_unpacks_hugeData : ∃ writer mapped,
    Ba2Dx10Writer.packing .v1 false (onePixelFile hugeData) = .ok writer ∧
      writer.writeTo sealingCodecs = .ok (MappedFile.bytes mapped) ∧
      ¬UnpacksTextures sealingCodecs mapped.bytes (onePixelFile hugeData) := by
  have length : hugeData.length = 2 ^ 32 := List.length_replicate
  have short : (onePixelArchive hugeData).length < 2 ^ 63 := by
    rw [length_onePixelArchive, length]
    decide
  have some : 1 ≤ hugeData.length := by
    rw [length]
    decide
  have written := writeTo_onePixel sealingCodecs (show hugeData.length < 2 ^ 63 by
    rw [length]
    decide)
  refine ⟨onePixelWriter hugeData, ⟨_, short⟩, packing_onePixel some, written, fun unpacks => ?_⟩
  obtain ⟨_, _, entries⟩ := Ba2Dx10Writer.packing_eq_ok (packing_onePixel some)
  obtain ⟨items, offsets, prepared, layout⟩ := Ba2Dx10.exists_written written
  have fits := ((Ba2Dx10.unpacks_iff prepared layout zlibStreams_sealingCodecs short
    entries).mp unpacks).2.2 _ List.mem_cons_self _
      (DdsParse.parse_header (wellFormed_onePixel some))
  have small : hugeData.length < 2 ^ 32 := fits.1
  omega

end Write

end Bethkit
