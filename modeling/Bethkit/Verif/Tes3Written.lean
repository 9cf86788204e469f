import Bethkit.Lib.Chunks
import Bethkit.Verif.ArchiveIndex
import Bethkit.Verif.ArchiveListing

/-!
# Written Morrowind archives

The tables of a Morrowind archive follow one order of the files, so what is read at an index belongs
to one file. The data begins where the reader looks for it as long as the tables fit 32 bits.
-/

namespace Bethkit

open Lib

namespace Write.Tes3

open Bethkit.Tes3

/-- The data of a file stands behind the data of the files before it. -/
theorem exists_dataOffsets {entries : List BuilderEntry} {running : UInt32}
    (fits : running.toNat + (entries.flatMap BuilderEntry.data).length < 2 ^ 32) :
    ∃ offsets, dataOffsets entries running = .ok offsets ∧ offsets.length = entries.length ∧
      ∀ index < entries.length, (offsets.getD index 0).toNat =
        running.toNat + ((entries.take index).flatMap BuilderEntry.data).length := by
  induction entries generalizing running with
  | nil => exact ⟨[], rfl, rfl, fun _ none => absurd none (Nat.not_lt_zero _)⟩
  | cons entry entries rest =>
    rw [List.flatMap_cons, List.length_append] at fits
    have size : (UInt32.ofNat entry.data.length).toNat = entry.data.length := by
      rw [UInt32.toNat_ofNat']
      exact Nat.mod_eq_of_lt (by omega)
    have next : (running + UInt32.ofNat entry.data.length).toNat =
        running.toNat + entry.data.length := by
      rw [UInt32.toNat_add, size]
      exact Nat.mod_eq_of_lt (by omega)
    have left : (running + UInt32.ofNat entry.data.length).toNat +
        (entries.flatMap BuilderEntry.data).length < 2 ^ 32 := by
      rw [next]
      omega
    obtain ⟨offsets, placed, sized, each⟩ := rest left
    have small : ¬2 ^ 32 ≤ running.toNat + (UInt32.ofNat entry.data.length).toNat := by omega
    refine ⟨running :: offsets, ?_, congrArg (· + 1) sized, fun index inside => ?_⟩
    · rw [dataOffsets]
      dsimp only
      rw [if_neg small, placed]
      rfl
    · cases index with
      | zero => rfl
      | succ index =>
        have further := each index (Nat.lt_of_succ_lt_succ inside)
        rw [List.take_succ_cons, List.flatMap_cons, List.length_append, ← Nat.add_assoc, ← next]
        exact further

/-- The size and the offset of a file are read. -/
theorem reads_readSizeAndOffset (size offset : UInt32) :
    readSizeAndOffset.Reads (u32ToLeBytes size ++ u32ToLeBytes offset) (size, offset) :=
  (reads_readU32 size).bind ((reads_readU32 offset).bind_nil (.pure _))

/-- A name with its NUL is read. -/
theorem reads_readName {name : Bytes} (plain : 0 ∉ name) (text : (strFromUtf8 name).isSome) :
    readName.Reads (name ++ [0]) (normalisePath name) := by
  intro before after
  have rest : (before ++ (name ++ [0] ++ after)).drop before.length = name ++ 0 :: after := by
    rw [List.drop_left, List.append_assoc]
    rfl
  have read : (name ++ 0 :: after).takeWhile (· ≠ 0) = name := by
    rw [List.takeWhile_append_of_pos, List.takeWhile_cons_of_neg (by simp), List.append_nil]
    intro byte among
    exact decide_eq_true fun zero => plain (zero ▸ among)
  have longer : name.length < (name ++ 0 :: after).length := by simp
  have some : (name ++ 0 :: after).isEmpty = false := by
    rw [List.isEmpty_eq_false_iff]
    simp
  have next : min (before.length + name.length + 1) (before ++ (name ++ [0] ++ after)).length =
      before.length + (name ++ [0]).length := by
    simp only [List.length_append, List.length_singleton]
    omega
  have utf8 : strFromUtf8Or "non-UTF-8 file name" name = .ok name := if_pos text
  unfold readName
  dsimp only
  rw [rest, read, some, if_neg Bool.false_ne_true, if_pos longer, next, utf8]
  rfl

/-- The files in the order of an archive. -/
def sorted (entries : List BuilderEntry) : List (UInt64 × BuilderEntry) :=
  (entries.map fun entry => (hashTes3 (fileName entry.path), entry)).insertionSort
    fun first second => first.1 ≤ second.1

/-- The entries in the order of an archive. -/
def stored (entries : List BuilderEntry) : List BuilderEntry := (sorted entries).map Prod.snd

/-- The names of the files, each with its NUL. -/
def nameBlock (entries : List BuilderEntry) : Bytes := entries.flatMap fun entry => entry.path ++ [0]

/-- The tables of an archive up to its names. -/
def tables (entries : List BuilderEntry) (offsets : List UInt32) : Bytes :=
  Bethkit.Tes3.magic ++ (u32ToLeBytes (UInt32.ofNat (4 + 12 * entries.length +
    (nameBlock entries).length)) ++ (u32ToLeBytes (UInt32.ofNat entries.length) ++
      ((entries.zip offsets).flatMap (fun file =>
        u32ToLeBytes (UInt32.ofNat file.1.data.length) ++ u32ToLeBytes file.2) ++
      ((nameOffsets (entries.map BuilderEntry.path) 0).flatMap u32ToLeBytes ++
        nameBlock entries))))

/-- The entries of an archive are those of the writer. -/
theorem perm_stored (entries : List BuilderEntry) : (stored entries).Perm entries := by
  have sources : (entries.map fun entry => (hashTes3 (fileName entry.path), entry)).map Prod.snd =
      entries := by
    rw [List.map_map]
    exact List.map_id _
  have moved := (List.perm_insertionSort (fun first second : UInt64 × BuilderEntry =>
    first.1 ≤ second.1) (entries.map fun entry => (hashTes3 (fileName entry.path), entry))).map
      Prod.snd
  rwa [sources] at moved

/-- An archive with less than 4 GiB of data is its tables, its hashes and its data. -/
theorem exists_write {entries : List BuilderEntry} (some : entries ≠ [])
    (content : (entries.flatMap BuilderEntry.data).length < 2 ^ 32) :
    ∃ offsets, write entries = .ok (tables (stored entries) offsets ++
        ((sorted entries).flatMap (fun file => u64ToLeBytes file.1) ++
          (stored entries).flatMap BuilderEntry.data)) ∧
      offsets.length = (stored entries).length ∧
      ∀ index < (stored entries).length, (offsets.getD index 0).toNat =
        (((stored entries).take index).flatMap BuilderEntry.data).length := by
  have same := ((perm_stored entries).flatMap_right BuilderEntry.data).length_eq
  have zero : (0 : UInt32).toNat = 0 := rfl
  obtain ⟨offsets, placed, sized, each⟩ := @exists_dataOffsets (stored entries) 0
    (by rw [zero, Nat.zero_add, same]; exact content)
  refine ⟨offsets, ?_, sized, fun index inside => ?_⟩
  · have nonempty : entries.isEmpty = false := List.isEmpty_eq_false_iff.mpr some
    have names : (sorted entries).flatMap (fun file => file.2.path ++ [0]) =
        nameBlock (stored entries) := by
      rw [nameBlock, stored, List.flatMap_map]
    have paths : (sorted entries).map (fun file => file.2.path) =
        (stored entries).map BuilderEntry.path := by
      rw [stored, List.map_map]
      rfl
    have sizes : ((sorted entries).zip offsets).flatMap (fun file =>
        u32ToLeBytes (UInt32.ofNat file.1.2.data.length) ++ u32ToLeBytes file.2) =
          ((stored entries).zip offsets).flatMap fun file =>
            u32ToLeBytes (UInt32.ofNat file.1.data.length) ++ u32ToLeBytes file.2 := by
      rw [stored, List.zip_map_left, List.flatMap_map]
      rfl
    have data : (sorted entries).flatMap (fun file => file.2.data) =
        (stored entries).flatMap BuilderEntry.data := by
      rw [stored, List.flatMap_map]
    have count : (sorted entries).length = (stored entries).length := by
      rw [stored, List.length_map]
    have front : 4 + 8 * (stored entries).length + 4 * (stored entries).length +
        (nameBlock (stored entries)).length =
          4 + 12 * (stored entries).length + (nameBlock (stored entries)).length := by omega
    have body : write entries = (dataOffsets (stored entries) 0).bind fun offsets => .ok
        (Bethkit.Tes3.magic ++ (u32ToLeBytes (UInt32.ofNat (4 + 8 * (sorted entries).length +
          4 * (sorted entries).length +
            ((sorted entries).flatMap fun file => file.2.path ++ [0]).length)) ++
          (u32ToLeBytes (UInt32.ofNat (sorted entries).length) ++
          (((sorted entries).zip offsets).flatMap (fun file =>
            u32ToLeBytes (UInt32.ofNat file.1.2.data.length) ++ u32ToLeBytes file.2) ++
          ((nameOffsets ((sorted entries).map fun file => file.2.path) 0).flatMap u32ToLeBytes ++
          ((sorted entries).flatMap (fun file => file.2.path ++ [0]) ++
          ((sorted entries).flatMap (fun file => u64ToLeBytes file.1) ++
            (sorted entries).flatMap fun file => file.2.data))))))) := by
      rw [write, nonempty]
      rfl
    rw [body, placed, names, paths, data, count, front]
    dsimp only [Except.bind]
    rw [sizes, tables]
    simp only [List.append_assoc]
  · rw [each index inside, zero, Nat.zero_add]

/-- Every name has an offset. -/
theorem length_nameOffsets (paths : List Bytes) (position : Nat) :
    (nameOffsets paths position).length = paths.length := by
  induction paths generalizing position with
  | nil => rfl
  | cons path paths rest => exact congrArg (· + 1) (rest _)

/-- What is listed for the files of an archive. -/
def listing (entries : List BuilderEntry) (offsets : List UInt32) : Listing where
  hashOffset := UInt32.ofNat (4 + 12 * entries.length + (nameBlock entries).length)
  fileCount := UInt32.ofNat entries.length
  sizes := (entries.zip offsets).map fun file => (UInt32.ofNat file.1.data.length, file.2)
  names := entries.map fun entry => normalisePath entry.path

/-- The tables of an archive are read. -/
theorem reads_readListing {entries : List BuilderEntry} {offsets : List UInt32}
    (placed : offsets.length = entries.length) (few : entries.length < 2 ^ 32)
    (plain : ∀ entry ∈ entries, 0 ∉ entry.path ∧ (strFromUtf8 entry.path).isSome) :
    readListing.Reads (tables entries offsets) (listing entries offsets) := by
  have count : (UInt32.ofNat entries.length).toNat = entries.length := by
    rw [UInt32.toNat_ofNat']
    exact Nat.mod_eq_of_lt few
  have zipped : (entries.zip offsets).length = entries.length := by
    rw [List.length_zip, placed, Nat.min_self]
  have sizes := Reader.Reads.table fun (file : BuilderEntry × UInt32)
    (_ : file ∈ entries.zip offsets) =>
      reads_readSizeAndOffset (UInt32.ofNat file.1.data.length) file.2
  rw [zipped, ← count] at sizes
  have positions := Reader.Reads.table fun (offset : UInt32)
    (_ : offset ∈ nameOffsets (entries.map BuilderEntry.path) 0) => reads_readU32 offset
  rw [length_nameOffsets, List.length_map, ← count] at positions
  have names := Reader.Reads.table fun (entry : BuilderEntry) (among : entry ∈ entries) =>
    reads_readName (plain entry among).1 (plain entry among).2
  rw [← count] at names
  have magic := reads_readArray (show Bethkit.Tes3.magic.length = 4 from rfl)
  exact (magic.mapError BsaError.io).bind <| ((reads_readU32 _).mapError BsaError.io).bind <|
    ((reads_readU32 _).mapError BsaError.io).bind <| (sizes.mapError BsaError.io).bind <|
    (positions.mapError BsaError.io).bind <| names.bind_nil (.pure _)

/-- The tables have their fields and the names. -/
theorem length_tables {entries : List BuilderEntry} {offsets : List UInt32}
    (placed : offsets.length = entries.length) :
    (tables entries offsets).length = 12 + 12 * entries.length + (nameBlock entries).length := by
  have sizes := length_flatMap_of_width (fun file : BuilderEntry × UInt32 =>
    show (u32ToLeBytes (UInt32.ofNat file.1.data.length) ++ u32ToLeBytes file.2).length = 8 by
      rw [List.length_append, length_u32ToLeBytes, length_u32ToLeBytes]) (entries.zip offsets)
  have positions := length_flatMap_of_width (fun offset => length_u32ToLeBytes offset)
    (nameOffsets (entries.map BuilderEntry.path) 0)
  rw [List.length_zip, placed, Nat.min_self] at sizes
  rw [length_nameOffsets, List.length_map] at positions
  have magic : Bethkit.Tes3.magic.length = 4 := rfl
  simp only [tables, List.length_append, sizes, positions, magic, length_u32ToLeBytes]
  omega

/-- The archive that is read from the tables of an archive. -/
def archive (entries : List BuilderEntry) (offsets : List UInt32) (source : Bytes) :
    Tes3Archive where
  source := source
  entries := ((listing entries offsets).sizes.zip (listing entries offsets).names).map fun file =>
    { path := file.2, uncompressedSize := file.1.1, compressedSize := none }
  records := (listing entries offsets).sizes.map fun file => ⟨file.2, file.1⟩
  index := indexEntries (((listing entries offsets).sizes.zip (listing entries offsets).names).map
    fun file => { path := file.2, uncompressedSize := file.1.1, compressedSize := none })
  dataStart := 8 + (listing entries offsets).hashOffset.toNat +
    8 * (listing entries offsets).fileCount.toNat

variable {entries : List BuilderEntry} {offsets : List UInt32}

/-- An archive is parsed. -/
theorem parse_tables (placed : offsets.length = entries.length) (few : entries.length < 2 ^ 32)
    (plain : ∀ entry ∈ entries, 0 ∉ entry.path ∧ (strFromUtf8 entry.path).isSome) (rest : Bytes) :
    Tes3Archive.parse (tables entries offsets ++ rest) =
      .ok (archive entries offsets (tables entries offsets ++ rest)) := by
  have read := reads_readListing placed few plain [] rest
  rw [List.nil_append] at read
  unfold Tes3Archive.parse SliceCursor.new
  rw [show (⟨tables entries offsets ++ rest, 0⟩ : Cursor) =
    ⟨tables entries offsets ++ rest, ([] : Bytes).length⟩ from rfl, read]
  rfl

/-- The listed paths are those of the files. -/
theorem map_path_archive (placed : offsets.length = entries.length) (source : Bytes) :
    (archive entries offsets source).entries.map ArchiveEntry.path =
      entries.map fun entry => normalisePath entry.path := by
  have paths : (archive entries offsets source).entries.map ArchiveEntry.path =
      ((listing entries offsets).sizes.zip (listing entries offsets).names).map Prod.snd := by
    rw [archive, List.map_map]
    rfl
  rw [paths, List.map_snd_zip]
  · rfl
  · rw [listing, List.length_map, List.length_map, List.length_zip, placed, Nat.min_self]

/-- The record of a file has its offset and its size. -/
theorem records_archive (placed : offsets.length = entries.length) (source : Bytes) {index : Nat}
    (inside : index < entries.length) :
    (archive entries offsets source).records[index]? =
      some ⟨offsets.getD index 0, UInt32.ofNat entries[index].data.length⟩ := by
  have offset : offsets[index]? = some (offsets.getD index 0) := by
    rw [List.getD_eq_getElem?_getD, List.getElem?_eq_getElem (placed ▸ inside), Option.getD_some]
  have zipped : (entries.zip offsets)[index]? = some (entries[index], offsets.getD index 0) :=
    List.getElem?_zip_eq_some.mpr ⟨List.getElem?_eq_getElem inside, offset⟩
  rw [archive, listing, List.map_map, List.getElem?_map, zipped]
  rfl

/-- Where the reader looks for the data. -/
theorem dataStart_archive (few : entries.length < 2 ^ 32) (source : Bytes) :
    (archive entries offsets source).dataStart =
      8 + (4 + 12 * entries.length + (nameBlock entries).length) % 2 ^ 32 + 8 * entries.length := by
  rw [archive, listing, UInt32.toNat_ofNat', UInt32.toNat_ofNat', Nat.mod_eq_of_lt few]

/-- The file at an index is extracted from where the reader looks for the data. -/
theorem extractByIndex_archive (placed : offsets.length = entries.length) {source : Bytes}
    {index : Nat} (inside : index < entries.length) {before after : Bytes}
    (small : entries[index].data.length < 2 ^ 32)
    (around : source = before ++ (entries[index].data ++ after))
    (start : (archive entries offsets source).dataStart + (offsets.getD index 0).toNat =
      before.length) :
    (archive entries offsets source).extractByIndex index = .ok entries[index].data := by
  have size : (UInt32.ofNat entries[index].data.length).toNat = entries[index].data.length := by
    rw [UInt32.toNat_ofNat']
    exact Nat.mod_eq_of_lt small
  have whole : (archive entries offsets source).source = before ++ (entries[index].data ++ after) :=
    around
  rw [Tes3Archive.extractByIndex, records_archive placed source inside]
  dsimp only
  rw [start, size, whole, if_neg (by simp only [List.length_append]; omega),
    Bytes.slice_append]

/-- A Morrowind archive is known by its first bytes. -/
theorem fromMmap_tables (rest : Bytes) :
    BsaArchive.fromMmap (tables entries offsets ++ rest) =
      (Tes3Archive.parse (tables entries offsets ++ rest)).map .tes3 := by
  have magic : (tables entries offsets ++ rest).take 4 = Bethkit.Tes3.magic := rfl
  have long : ¬(tables entries offsets ++ rest).length < 8 := by
    simp [tables, Bethkit.Tes3.magic]
  rw [BsaArchive.fromMmap, if_neg long]
  dsimp only
  rw [magic, if_pos rfl]

/-- An archive of normal paths opens; what is listed and extracted at an index belongs to one file,
as long as the tables fit 32 bits. -/
theorem exists_opened (some : entries ≠ []) (normal : ∀ entry ∈ entries, IsNormal entry.path)
    (content : (entries.flatMap BuilderEntry.data).length < 2 ^ 32)
    (names : 4 + 12 * entries.length + (nameBlock entries).length < 2 ^ 32) :
    ∃ bytes opened, write entries = .ok bytes ∧ BsaArchive.fromMmap bytes = .ok (.tes3 opened) ∧
      opened.entries.map ArchiveEntry.path = (stored entries).map BuilderEntry.path ∧
      opened.index = indexEntries opened.entries ∧
      ∀ index (inside : index < (stored entries).length),
        opened.extractByIndex index = .ok (stored entries)[index].data := by
  obtain ⟨offsets, written, placed, starts⟩ := exists_write some content
  have perm := perm_stored entries
  have count := perm.length_eq
  have block : (nameBlock (stored entries)).length = (nameBlock entries).length :=
    (perm.flatMap_right _).length_eq
  have data : ((stored entries).flatMap BuilderEntry.data).length =
    (entries.flatMap BuilderEntry.data).length := (perm.flatMap_right _).length_eq
  have stands : ∀ entry ∈ stored entries, IsNormal entry.path :=
    fun entry among => normal entry (perm.mem_iff.mp among)
  have few : (stored entries).length < 2 ^ 32 := by omega
  have hashes := length_flatMap_of_width (fun file : UInt64 × BuilderEntry =>
    length_u64ToLeBytes file.1) (sorted entries)
  have sized : (sorted entries).length = (stored entries).length := by rw [stored, List.length_map]
  have parsed := parse_tables placed few (fun entry among =>
    ⟨fun zero => (stands entry among 0 zero).1 rfl, (stands entry among).text⟩)
    ((sorted entries).flatMap (fun file => u64ToLeBytes file.1) ++
      (stored entries).flatMap BuilderEntry.data)
  refine ⟨_, archive (stored entries) offsets (tables (stored entries) offsets ++
    ((sorted entries).flatMap (fun file => u64ToLeBytes file.1) ++
      (stored entries).flatMap BuilderEntry.data)), written, ?_,
    (map_path_archive placed _).trans ?_, rfl, fun index inside => ?_⟩
  · rw [fromMmap_tables, parsed]
    rfl
  · exact List.map_congr_left fun entry among => (stands entry among).normalisePath
  · have split := flatMap_split BuilderEntry.data inside
    have here := congrArg List.length split
    rw [List.length_append, List.length_append] at here
    refine @extractByIndex_archive (stored entries) offsets placed _ index inside
      (tables (stored entries) offsets ++
        ((sorted entries).flatMap (fun file => u64ToLeBytes file.1) ++
          ((stored entries).take index).flatMap BuilderEntry.data))
      (((stored entries).drop (index + 1)).flatMap BuilderEntry.data) (by omega) ?_ ?_
    · rw [split]
      simp only [List.append_assoc]
    · rw [dataStart_archive few, starts index inside, List.length_append, List.length_append,
        hashes, length_tables placed, Nat.mod_eq_of_lt (by omega)]
      omega

end Write.Tes3

namespace Write

open Write.Tes3
open Bethkit.Tes3 (Tes3Archive)

/-- The name block of ASCII paths is as long as the paths with their NULs. -/
theorem length_nameBlock {files : List (Bytes × Bytes)}
    (ascii : ∀ file ∈ files, IsAsciiPath file.1) :
    (nameBlock (files.map builderEntry)).length =
      (files.map fun file => file.1.length + 1).sum := by
  induction files with
  | nil => rfl
  | cons file files rest =>
    have same : (normalisePath file.1).length = file.1.length := by
      rw [(ascii file List.mem_cons_self).normalisePath_eq, List.length_map]
    have tail := rest fun other among => ascii other (List.mem_cons_of_mem _ among)
    rw [nameBlock] at tail
    rw [nameBlock, List.map_cons, List.flatMap_cons, List.length_append, tail, List.map_cons,
      List.sum_cons, List.length_append, builderEntry, same]
    rfl

/-- What is added for the files has their contents. -/
theorem flatMap_builderEntry (files : List (Bytes × Bytes)) :
    (files.map builderEntry).flatMap BuilderEntry.data = files.flatMap Prod.snd := by
  rw [List.flatMap_map]
  rfl

/-- A Morrowind archive of files whose paths are different in normal form opens, lists these paths
and gives every file its content, as long as the contents and the tables stay below 4 GiB. -/
theorem tes3_roundTrip {codecs : ArchiveCodecs} {compress embed : Bool}
    {files : List (Bytes × Bytes)} (nonempty : files ≠ [])
    (ascii : ∀ file ∈ files, IsAsciiPath file.1)
    (distinct : (files.map fun file => normalisePath file.1).Nodup)
    (content : (files.flatMap Prod.snd).length < 2 ^ 32)
    (names : 4 + 12 * files.length + (files.map fun file => file.1.length + 1).sum < 2 ^ 32) :
    ∃ bytes archive, (BsaWriter.packing .tes3 compress embed files).writeTo codecs = .ok bytes ∧
      BsaArchive.fromMmap bytes = .ok archive ∧
      (archive.entries.map ArchiveEntry.path).Perm (files.map fun file => normalisePath file.1) ∧
      ∀ file ∈ files, archive.extract codecs file.1 = some (.ok file.2) := by
  have paths : (files.map builderEntry).map BuilderEntry.path =
      files.map fun file => normalisePath file.1 := by
    rw [List.map_map]
    rfl
  have normal : ∀ entry ∈ files.map builderEntry, IsNormal entry.path := by
    intro entry among
    obtain ⟨file, added, rfl⟩ := List.mem_map.mp among
    exact (ascii file added).normal
  obtain ⟨bytes, opened, written, read, listed, index, extracted⟩ := @exists_opened
    (files.map builderEntry) (by simpa using nonempty) normal (by rw [flatMap_builderEntry]; exact content)
    (by rw [length_nameBlock ascii, List.length_map]; exact names)
  have perm := (perm_stored (files.map builderEntry)).map BuilderEntry.path
  rw [paths] at perm
  have apart : ((stored (files.map builderEntry)).map BuilderEntry.path).Nodup :=
    perm.nodup_iff.mpr distinct
  refine ⟨bytes, .tes3 opened, ?_, read, ?_, fun file among => ?_⟩
  · rw [BsaWriter.packing_eq]
    exact written
  · show (opened.entries.map ArchiveEntry.path).Perm _
    rw [listed]
    exact perm
  · have member : builderEntry file ∈ stored (files.map builderEntry) :=
      (perm_stored _).mem_iff.mpr (List.mem_map_of_mem among)
    obtain ⟨place, inside, here⟩ := List.mem_iff_getElem.mp member
    have path : ((stored (files.map builderEntry)).map BuilderEntry.path)[place]? =
        some (normalisePath file.1) := by
      rw [List.getElem?_map, List.getElem?_eq_getElem inside, here]
      rfl
    have found : (indexEntries opened.entries)[normalisePath file.1]? = some place := by
      apply getElem?_indexEntries.mpr
      rw [IsLastWith, listed]
      refine ⟨path, fun later after same => ?_⟩
      have equal := (List.getElem?_inj (by rw [List.length_map]; exact inside) apart).mp
        (path.trans same.symm)
      omega
    show (opened.find file.1).map opened.extractByIndex = _
    rw [Tes3.Tes3Archive.find, index, found, Option.map_some, extracted place inside, here]
    rfl

/-- Two files in different folders. -/
def twoFiles : List (Bytes × Bytes) :=
  [(strAsBytes "Meshes\\A.nif", [1, 2]), (strAsBytes "b.nif", [])]

/-- The round trip of two files. -/
theorem tes3_roundTrip_twoFiles : ∃ bytes archive,
    (BsaWriter.packing .tes3 false false twoFiles).writeTo storingCodecs = .ok bytes ∧
      BsaArchive.fromMmap bytes = .ok archive ∧
      archive.extract storingCodecs (strAsBytes "Meshes\\A.nif") = some (.ok [1, 2]) := by
  obtain ⟨bytes, archive, written, read, _, extracted⟩ :=
    @tes3_roundTrip storingCodecs false false twoFiles (by decide) (by decide +kernel)
      (by decide +kernel) (by decide) (by decide +kernel)
  exact ⟨bytes, archive, written, read, extracted _ List.mem_cons_self⟩

/-- Two files whose paths differ only in case. -/
def caseFiles : List (Bytes × Bytes) := [(strAsBytes "A", [1]), (strAsBytes "a", [2])]

/-- A file whose name is so long that the offset of the hashes wraps around. -/
def longNamed : List (Bytes × Bytes) := [(List.replicate (2 ^ 32) 97, [1])]

/-- The data of a file with a long name is looked for inside the name. -/
theorem extractByIndex_longName {codecs : ArchiveCodecs} {path : Bytes}
    (long : path.length = 2 ^ 32) (same : ∀ byte ∈ path, byte = 97) :
    ∃ bytes archive, (BsaWriter.packing .tes3 false false [(path, [1])]).writeTo codecs =
        .ok bytes ∧
      BsaArchive.fromMmap bytes = .ok archive ∧
      archive.extractByIndex codecs 0 = .ok [97] := by
  have normal : IsNormal path := fun byte among => by rw [same byte among]; decide
  have name : builderEntry (path, [1]) = ⟨path, [1], none⟩ := by
    rw [builderEntry, normal.normalisePath]
  have order : stored [⟨path, [1], none⟩] = [⟨path, [1], none⟩] := rfl
  obtain ⟨offsets, written, placed, starts⟩ := @exists_write [⟨path, [1], none⟩]
    (List.cons_ne_nil _ _) (by show 1 < 2 ^ 32; decide)
  rw [order] at written placed starts
  have first : (offsets.getD 0 0).toNat = 0 := starts 0 Nat.zero_lt_one
  have parsed := fun rest => @parse_tables [⟨path, [1], none⟩] offsets placed
    (by show 1 < 2 ^ 32; decide) (fun entry among => by
      rw [List.mem_singleton.mp among]
      exact ⟨fun zero => (normal 0 zero).1 rfl, normal.text⟩) rest
  have block : nameBlock [⟨path, [1], none⟩] = path ++ [0] := List.append_nil _
  have start (source : Bytes) :
      (archive [⟨path, [1], none⟩] offsets source).dataStart = 33 := by
    rw [dataStart_archive (by show 1 < 2 ^ 32; decide), block, List.length_append, long,
      List.length_singleton, List.length_singleton]
    omega
  have front : ∃ fields : Bytes, fields.length = 24 ∧
      tables [⟨path, [1], none⟩] offsets = fields ++ (path ++ [0]) := by
    have total := length_tables placed
    refine ⟨_, ?_, by rw [tables, block]; simp only [← List.append_assoc]; rfl⟩
    rw [tables, block] at total
    simp only [List.length_append, List.length_singleton] at total ⊢
    omega
  obtain ⟨fields, sized, whole⟩ := front
  have inner : path = path.take 9 ++ (97 :: path.drop 10) := by
    have inside : 9 < path.length := by omega
    have here : path[9] = 97 := same _ (List.getElem_mem inside)
    rw [← here, List.getElem_cons_drop, List.take_append_drop]
  have packed : (BsaWriter.packing .tes3 false false [(path, [1])]).writeTo codecs =
      Tes3.write [⟨path, [1], none⟩] := by
    rw [BsaWriter.packing_eq]
    show Tes3.write [builderEntry (path, [1])] = _
    rw [name]
  refine ⟨_, _, packed.trans written, (fromMmap_tables _).trans (congrArg _ (parsed _)), ?_⟩
  show (archive [⟨path, [1], none⟩] offsets _).extractByIndex 0 = _
  have record (source : Bytes) : (archive [⟨path, [1], none⟩] offsets source).records[0]? =
      some ⟨offsets.getD 0 0, 1⟩ := records_archive placed source Nat.zero_lt_one
  have one : (1 : UInt32).toNat = 1 := rfl
  rw [Tes3Archive.extractByIndex, record]
  dsimp only
  have source (rest : Bytes) : (archive [⟨path, [1], none⟩] offsets
      (tables [⟨path, [1], none⟩] offsets ++ rest)).source =
        (fields ++ path.take 9) ++ ([97] ++ (path.drop 10 ++ ([0] ++ rest))) := by
    show tables [⟨path, [1], none⟩] offsets ++ rest = _
    conv_lhs => rw [whole, inner]
    simp only [List.append_assoc, List.cons_append, List.nil_append]
  have before : (fields ++ path.take 9).length = 33 := by
    rw [List.length_append, List.length_take, sized, long]
    rfl
  have middle (after : Bytes) : Bytes.slice ((fields ++ path.take 9) ++ ([97] ++ after)) 33 34 =
      [97] := by
    have slice := Bytes.slice_append (fields ++ path.take 9) [97] after
    rwa [before] at slice
  rw [start, first, one, source, middle, if_neg]
  rw [List.length_append, before, List.length_append, List.length_singleton]
  omega

/-- Of two files whose paths differ only in case, the later one is found under both; and the data
of a file with a long name is taken from its name. -/
theorem not_tes3_roundTrip :
    (caseFiles.map Prod.fst).Nodup ∧ (∀ file ∈ caseFiles, IsAsciiPath file.1) ∧
    (∃ bytes archive, (BsaWriter.packing .tes3 false false caseFiles).writeTo storingCodecs =
        .ok bytes ∧
      BsaArchive.fromMmap bytes = .ok archive ∧
      archive.extract storingCodecs (strAsBytes "A") = some (.ok [2])) ∧
    ∃ bytes archive, (BsaWriter.packing .tes3 false false longNamed).writeTo storingCodecs =
        .ok bytes ∧
      BsaArchive.fromMmap bytes = .ok archive ∧
      archive.extractByIndex storingCodecs 0 = .ok [97] := by
  refine ⟨by decide +kernel, by decide +kernel, ?_, extractByIndex_longName List.length_replicate
    fun byte among => (List.mem_replicate.mp among).2⟩
  have order : stored (caseFiles.map builderEntry) = caseFiles.map builderEntry := rfl
  have ascii : ∀ file ∈ caseFiles, IsAsciiPath file.1 := by decide +kernel
  have normal : ∀ entry ∈ caseFiles.map builderEntry, IsNormal entry.path := by
    intro entry among
    obtain ⟨file, added, rfl⟩ := List.mem_map.mp among
    exact (ascii file added).normal
  obtain ⟨bytes, opened, written, read, listed, index, extracted⟩ := @exists_opened
    (caseFiles.map builderEntry) (by simp [caseFiles]) normal (by decide +kernel) (by decide +kernel)
  rw [order] at listed
  have found : (indexEntries opened.entries)[normalisePath (strAsBytes "A")]? = some 1 := by
    apply getElem?_indexEntries.mpr
    rw [IsLastWith, listed]
    refine ⟨by decide +kernel, fun later after => ?_⟩
    rw [List.getElem?_eq_none]
    · exact (Option.some_ne_none _).symm
    · rw [List.length_map, List.length_map]
      exact after
  have last : (stored (caseFiles.map builderEntry))[1]? =
      some ⟨normalisePath (strAsBytes "a"), [2], none⟩ := by
    rw [order]
    rfl
  obtain ⟨inside, same⟩ := List.getElem?_eq_some_iff.mp last
  refine ⟨bytes, .tes3 opened, ?_, read, ?_⟩
  · rw [BsaWriter.packing_eq]
    exact written
  · show (opened.find (strAsBytes "A")).map opened.extractByIndex = _
    rw [Tes3.Tes3Archive.find, index, found, Option.map_some, extracted 1 inside, same]

end Write

end Bethkit
