import Bethkit.Lib.Sorting
import Bethkit.Verif.ArchiveListing

/-!
# What is extracted from a written archive

Sizes, offsets and prefixes are computed by the writer and undone by the reader. Every record is
extracted to the content of its file, except for an empty file at the very end of the archive,
whose offset is the end of the file.
-/

namespace Bethkit

open Lib

/-- Names are read from a table of text, whatever characters the names have. -/
theorem Tes4.exists_readFileNames {count : Nat} {table : Bytes} (enough : count ≤ table.count 0)
    (before after : Bytes) :
    ∃ names, readFileNames (before ++ (latin table ++ after)) count before.length = .ok names ∧
      names.length = count := by
  induction count generalizing table before with
  | zero => exact ⟨[], rfl, rfl⟩
  | succ count rest =>
    have member : 0 ∈ table := List.count_pos_iff.mp (by omega)
    obtain ⟨piece, others, rfl, plain⟩ := List.eq_append_cons_of_mem member
    have more : count ≤ others.count 0 := by
      rw [List.count_append, List.count_eq_zero.mpr plain, List.count_cons_self] at enough
      omega
    have first : latin (piece ++ 0 :: others) ++ after =
        latin piece ++ 0 :: (latin others ++ after) := by
      rw [latin, List.flatMap_append, List.flatMap_cons, charFromByte_of_ascii (by decide),
        List.append_assoc, List.append_assoc]
      rfl
    have hidden : 0 ∉ latin piece := fun zero => plain ((mem_latin (by decide)).mp zero)
    obtain ⟨names, read, counted⟩ := rest more (before ++ (latin piece ++ [0]))
    refine ⟨normalisePath (latin piece) :: names, ?_, congrArg (· + 1) counted⟩
    rw [first, readFileNames_cons hidden (strFromUtf8_latin piece), read]
    rfl

namespace Tes4

open Write.Tes4 (embedPrefix payload compressData)

/-- An embedded name has its length in front. -/
theorem embedPrefix_eq (fileName : Bytes) : ∃ nameLen : UInt8, ∃ name : Bytes,
    embedPrefix fileName = nameLen :: name ∧ nameLen.toNat = name.length := by
  refine ⟨_, _, rfl, ?_⟩
  rw [UInt8.toNat_ofNat', List.length_take]
  show min fileName.length 255 % 256 = _
  omega

/-- The payload of a file stands behind its embedded name. -/
theorem skipEmbedName_eq {record : Tes4Record} {before after data fileName : Bytes}
    (placed : record.offset.toNat = before.length)
    (sized : record.rawSize.toNat =
      ((if record.hasEmbedName then embedPrefix fileName else []) ++ data).length) :
    skipEmbedName (before ++ ((if record.hasEmbedName then embedPrefix fileName else []) ++
      (data ++ after))) record =
        .ok ((before ++ (if record.hasEmbedName then embedPrefix fileName else [])).length,
          data.length) := by
  rw [skipEmbedName]
  cases embedded : record.hasEmbedName with
  | false =>
    rw [embedded] at sized
    simp only [Bool.false_eq_true, if_false, List.nil_append, List.append_nil] at sized ⊢
    rw [placed, sized]
  | true =>
    obtain ⟨nameLen, name, same, counted⟩ := embedPrefix_eq fileName
    rw [embedded] at sized
    simp only [if_true, same] at sized ⊢
    have first : (before ++ (nameLen :: name ++ (data ++ after)))[before.length]? =
        some nameLen := by
      rw [List.getElem?_append_right (Nat.le_refl _), Nat.sub_self]
      rfl
    rw [List.length_append, List.length_cons] at sized
    have enough : ¬record.rawSize.toNat < 1 + nameLen.toNat := by omega
    rw [placed, first]
    simp only [if_neg enough, List.length_append, List.length_cons]
    rw [show record.rawSize.toNat - (1 + nameLen.toNat) = data.length by omega,
      show before.length + (1 + nameLen.toNat) = before.length + (name.length + 1) by omega]

/-- A compressed payload is decompressed to the data it was made from. -/
theorem inflate_eq {codecs : ArchiveCodecs} (inverts : Write.Inverts codecs) {version : BsaVersion}
    {data packed : Bytes} (written : payload codecs (version = .sse) true data = .ok packed)
    (before after : Bytes) :
    inflate codecs version (before ++ (packed ++ after)) before.length packed.length = .ok data := by
  rw [payload, if_pos rfl] at written
  obtain ⟨compressed, packs, rfl⟩ := map_eq_ok.mp written
  have long : ¬(u32ToLeBytes (UInt32.ofNat data.length) ++ compressed).length < 4 := by
    rw [List.length_append, length_u32ToLeBytes]
    omega
  have size : Bytes.get (before ++ (u32ToLeBytes (UInt32.ofNat data.length) ++ compressed ++ after))
      before.length (before.length + 4) = some (u32ToLeBytes (UInt32.ofNat data.length)) := by
    have found := Bytes.get_append before (u32ToLeBytes (UInt32.ofNat data.length))
      (compressed ++ after)
    simpa only [length_u32ToLeBytes, List.append_assoc] using found
  have rest : Bytes.get (before ++ (u32ToLeBytes (UInt32.ofNat data.length) ++ compressed ++ after))
      (before.length + 4) (before.length + 4 +
        ((u32ToLeBytes (UInt32.ofNat data.length) ++ compressed).length - 4)) = some compressed := by
    have found := Bytes.get_append (before ++ u32ToLeBytes (UInt32.ofNat data.length)) compressed
      after
    rw [List.length_append, length_u32ToLeBytes] at found
    rw [List.length_append, length_u32ToLeBytes, Nat.add_sub_cancel_left]
    simpa only [List.append_assoc] using found
  rw [inflate, if_neg long, size]
  simp only [rest]
  rw [compressData] at packs
  by_cases sse : version = .sse
  · rw [if_pos (decide_eq_true sse)] at packs
    rw [if_pos sse, inverts.lz4Frame _ _ packs]
    rfl
  · rw [if_neg (by simpa using sse)] at packs
    rw [if_neg sse, inverts.zlib _ _ packs]
    rfl

/-- The extraction of a record gives the data of its file, unless the record starts at the end of
the archive. -/
theorem extractByIndex_eq {codecs : ArchiveCodecs} (inverts : Write.Inverts codecs)
    {archive : Tes4Archive} {idx : Nat} {record : Tes4Record}
    {before after data packed fileName : Bytes}
    (found : archive.records[idx]? = some record)
    (placed : record.offset.toNat = before.length)
    (sized : record.rawSize.toNat =
      ((if record.hasEmbedName then embedPrefix fileName else []) ++ packed).length)
    (written : payload codecs (archive.bsaVersion = .sse) record.isCompressed data = .ok packed)
    (source : archive.source = before ++ ((if record.hasEmbedName then embedPrefix fileName else []) ++
      (packed ++ after)))
    (inside : before.length < archive.source.length) :
    archive.extractByIndex codecs idx = .ok data := by
  rw [Tes4Archive.extractByIndex, found]
  simp only [placed]
  rw [if_neg (Nat.not_le.mpr inside), source, skipEmbedName_eq placed sized, ok_bind]
  cases compressed : record.isCompressed with
  | true =>
    rw [compressed] at written
    rw [if_pos rfl, ← List.append_assoc]
    exact inflate_eq inverts written _ after
  | false =>
    rw [compressed] at written
    obtain rfl : data = packed := Except.ok.inj written
    have fits : ¬(before ++ ((if record.hasEmbedName then embedPrefix fileName else []) ++
        (data ++ after))).length <
          (before ++ (if record.hasEmbedName then embedPrefix fileName else [])).length +
            data.length := by
      simp only [List.length_append]
      omega
    rw [if_neg Bool.false_ne_true]
    dsimp only
    rw [if_neg fits, ← List.append_assoc]
    exact congrArg Except.ok (Bytes.slice_append _ data after)

/-- A record that starts at the end of the archive is not extracted. -/
theorem extractByIndex_end {codecs : ArchiveCodecs} {archive : Tes4Archive} {idx : Nat}
    {record : Tes4Record} (found : archive.records[idx]? = some record)
    (outside : archive.source.length ≤ record.offset.toNat) (data : Bytes) :
    archive.extractByIndex codecs idx ≠ .ok data := by
  rw [Tes4Archive.extractByIndex, found]
  simp only [if_pos outside]
  intro impossible
  cases impossible

end Tes4

namespace Write.Tes4

open Bethkit.Tes4 (Tes4Record extractByIndex_eq extractByIndex_end)

/-- The data of a file stands behind the data of the files before it. -/
theorem fileDataOffsets_getElem? {files : List FileEntry} {start : Nat} {offsets : List UInt32}
    (placed : fileDataOffsets files start = .ok offsets) {index : Nat}
    (inside : index < files.length) :
    start + ((files.take index).flatMap FileEntry.stored).length < 2 ^ 32 ∧
      offsets[index]? =
        some (UInt32.ofNat (start + ((files.take index).flatMap FileEntry.stored).length)) := by
  induction files generalizing start offsets index with
  | nil => cases inside
  | cons file files rest =>
    rw [fileDataOffsets] at placed
    split at placed
    · cases placed
    · rename_i small
      obtain ⟨others, more, rfl⟩ := map_eq_ok.mp placed
      cases index with
      | zero => exact ⟨by simpa using small, rfl⟩
      | succ index =>
        have further := rest more (Nat.lt_of_succ_lt_succ inside)
        rw [List.take_succ_cons, List.flatMap_cons, List.length_append, List.getElem?_cons_succ,
          ← Nat.add_assoc]
        exact further

/-- The length of a folder record. -/
theorem length_folderRecords {isSse : Bool} {folders : List (UInt64 × Folder)}
    {offsets : List Nat} {bytes : Bytes}
    (written : folderRecords isSse folders offsets = .ok bytes)
    (placed : offsets.length = folders.length) :
    bytes.length = folders.length * if isSse then 24 else 16 := by
  induction folders generalizing offsets bytes with
  | nil =>
    rw [List.length_eq_zero_iff.mp placed] at written
    obtain rfl := Except.ok.inj written
    rw [List.length_nil, List.length_nil, Nat.zero_mul]
  | cons folder folders rest =>
    cases offsets with
    | nil => cases placed
    | cons offset offsets =>
      obtain ⟨first, one, written⟩ := bind_eq_ok.mp written
      obtain ⟨others, more, written⟩ := bind_eq_ok.mp written
      obtain rfl := Except.ok.inj written
      have sized : first.length = if isSse then 24 else 16 := by
        rw [folderRecord] at one
        cases isSse with
        | true =>
          obtain rfl := Except.ok.inj one
          simp
        | false =>
          rw [if_neg Bool.false_ne_true] at one
          split at one
          · cases one
          · obtain rfl := Except.ok.inj one
            simp
      rw [List.length_append, sized, rest more (Nat.succ.inj placed), List.length_cons,
        Nat.succ_mul, Nat.add_comm]

/-- The block of a folder has its size. -/
theorem length_folderBlock (compress : Bool) (files : List FileEntry) (offsets : List UInt32)
    (folder : UInt64 × Folder) :
    (Bethkit.Tes4.folderBlock folder.2.1
      (folder.2.2.map (recordAt compress files offsets))).length = blockSize folder := by
  have each (index : Nat) : (recordAt compress files offsets index).length = 16 := by
    simp [recordAt, fileRecord]
  rw [Bethkit.Tes4.folderBlock, blockSize, List.length_cons, List.length_append, List.length_cons,
    List.length_flatten, List.map_map]
  have records : (folder.2.2.map (List.length ∘ recordAt compress files offsets)).sum =
      folder.2.2.length * 16 := by
    have same : folder.2.2.map (List.length ∘ recordAt compress files offsets) =
        folder.2.2.map fun _ => 16 := List.map_congr_left fun index _ => each index
    rw [same, List.map_const', List.sum_replicate, smul_eq_mul]
  omega

/-- The length of the names is counted in 32 bits. -/
theorem toNat_sum_fileNames (files : List FileEntry) :
    (files.map fun file => UInt32.ofNat file.fileName.length + 1).sum.toNat =
      (nameTable files).length % 2 ^ 32 := by
  induction files with
  | nil => rfl
  | cons file files rest =>
    have names : (nameTable (file :: files)).length =
        file.fileName.length + 1 + (nameTable files).length := by
      rw [nameTable, List.flatMap_cons, List.length_append, List.length_append]
      rfl
    rw [List.map_cons, List.sum_cons, UInt32.toNat_add, rest, UInt32.toNat_add,
      UInt32.toNat_ofNat', names]
    show ((_ % 2 ^ 32 + 1) % 2 ^ 32 + _) % 2 ^ 32 = _
    omega

namespace WrittenArchive

variable {codecs : ArchiveCodecs} {version : BsaVersion} {compress embedNames : Bool}
variable {entries : List BuilderEntry} {bytes : Bytes}
variable (archive : WrittenArchive codecs version compress embedNames entries bytes)

/-- Where the directory ends. -/
theorem length_directory : 36 + archive.directory.length =
    folderRecordsEnd version archive.files + ((groupFolders archive.files).map blockSize).sum := by
  have blocks : (folderBlocks compress archive.files archive.offsets
      (groupFolders archive.files) 0).length =
        ((groupFolders archive.files).map blockSize).sum := by
    rw [folderBlocks_eq _ (flatMap_groupFolders_indices archive.sorted), List.length_flatMap]
    exact congrArg List.sum (List.map_congr_left fun folder _ => length_folderBlock _ _ _ folder)
  rw [directory, List.length_append, blocks,
    length_folderRecords archive.records_eq (length_folderDataOffsets _ _), folderRecordsEnd,
    archive.toNat_folderCount]
  by_cases sse : version = .sse
  · simp [sse, Nat.add_assoc]
  · simp [sse, Nat.add_assoc]

/-- If the names fit into 32 bits, the data starts behind the name table. -/
theorem fileDataStart_eq (names : (nameTable archive.files).length < 2 ^ 32) :
    fileDataStart version archive.files =
      36 + archive.directory.length + (nameTable archive.files).length := by
  rw [fileDataStart, toNat_sum_fileNames, Nat.mod_eq_of_lt names, archive.length_directory]

/-- Where the data of a file stands. -/
theorem offset_eq (names : (nameTable archive.files).length < 2 ^ 32) {index : Nat}
    (inside : index < archive.files.length) :
    (archive.offsets.getD index 0).toNat = 36 + archive.directory.length +
      (nameTable archive.files).length +
        ((archive.files.take index).flatMap FileEntry.stored).length := by
  have placed := fileDataOffsets_getElem? archive.offsets_eq inside
  have start := archive.fileDataStart_eq names
  rw [start] at placed
  rw [List.getD_eq_getElem?_getD, placed.2, Option.getD_some, UInt32.toNat_ofNat']
  exact Nat.mod_eq_of_lt placed.1

/-- The bytes around the data of a file. -/
theorem bytes_around {index : Nat} (inside : index < archive.files.length) :
    ∃ before, bytes = before ++ (archive.files[index].stored ++
        (archive.files.drop (index + 1)).flatMap FileEntry.stored) ∧
      before.length = 36 + archive.directory.length + (nameTable archive.files).length +
        ((archive.files.take index).flatMap FileEntry.stored).length := by
  refine ⟨header archive.number compress (embedsNames version embedNames) archive.files ++
    (archive.directory ++ (nameTable archive.files ++
      (archive.files.take index).flatMap FileEntry.stored)), ?_, ?_⟩
  · have split : archive.files.flatMap FileEntry.stored =
        (archive.files.take index).flatMap FileEntry.stored ++ (archive.files[index].stored ++
          (archive.files.drop (index + 1)).flatMap FileEntry.stored) := by
      rw [← List.flatMap_cons, List.getElem_cons_drop, ← List.flatMap_append,
        List.take_append_drop]
    have parts := archive.bytes_parts
    rw [tail, split] at parts
    simpa only [List.append_assoc] using parts
  · simp only [List.length_append, archive.length_header]
    omega

/-- What is read for a file. -/
theorem raws_getElem? {index : Nat} (inside : index < archive.files.length) :
    archive.raws[index]? = some ⟨
      normalisePath (listedFolder archive.files archive.files[index].folderHash),
      rawSize compress archive.files[index], archive.offsets.getD index 0⟩ := by
  rw [raws, List.getElem?_map, List.getElem?_zipIdx, List.getElem?_eq_getElem inside]
  simp only [Option.map_some, rawAt, Nat.zero_add, List.getD_eq_getElem?_getD, List.getElem?_map,
    List.getElem?_eq_getElem inside, Option.getD_some]

/-- Both parts of the path of a file are text. -/
theorem latin_parts (text : ∀ entry ∈ entries, ∃ raw, entry.path = latin raw) :
    ∀ file ∈ archive.files, (∃ raw, file.folderName = latin raw) ∧
      ∃ raw, file.fileName = latin raw := by
  intro file member
  obtain ⟨entry, added, readied⟩ := archive.exists_entry member
  obtain ⟨named, called, _⟩ := prepare_path readied
  obtain ⟨raw, same⟩ := text entry added
  rw [named, called, folderOf, splitFolder, same, strRsplitOnce_latin (by decide)]
  cases strRsplitOnce 47 raw with
  | none => exact ⟨⟨[], rfl⟩, raw, rfl⟩
  | some parts => exact ⟨⟨parts.1, rfl⟩, parts.2, rfl⟩

/-- The name table is text with a NUL for every file. -/
theorem exists_latin_nameTable {files : List FileEntry}
    (text : ∀ file ∈ files, ∃ raw, file.fileName = latin raw) :
    ∃ table, nameTable files = latin table ∧ files.length ≤ table.count 0 := by
  induction files with
  | nil => exact ⟨[], rfl, Nat.le_refl 0⟩
  | cons file files rest =>
    obtain ⟨table, same, enough⟩ := rest fun other member => text other (List.mem_cons_of_mem _ member)
    obtain ⟨raw, named⟩ := text file List.mem_cons_self
    refine ⟨raw ++ [0] ++ table, ?_, ?_⟩
    · rw [nameTable, List.flatMap_cons, ← nameTable, same, named, latin, latin, latin,
        List.flatMap_append, List.flatMap_append]
      rfl
    · rw [List.count_append, List.count_append, List.count_singleton_self, List.length_cons]
      omega

/-- A written archive with short folder names opens, with a record for every file. -/
theorem exists_opened (text : ∀ entry ∈ entries, ∃ raw, entry.path = latin raw)
    (short : ∀ entry ∈ entries, (folderOf entry.path).length ≤ 254) :
    ∃ opened : Bethkit.Tes4.Tes4Archive, BsaArchive.fromMmap bytes = .ok (.tes4 opened) ∧
      opened.source = bytes ∧ opened.bsaVersion = archive.readVersion ∧
      opened.records = archive.raws.map fun raw =>
        raw.record compress (embedsNames version embedNames) := by
  have parts := archive.latin_parts text
  obtain ⟨table, same, enough⟩ := exists_latin_nameTable fun file member => (parts file member).2
  obtain ⟨names, named, counted⟩ := Bethkit.Tes4.exists_readFileNames enough
    (header archive.number compress (embedsNames version embedNames) archive.files ++
      archive.directory) (archive.files.flatMap FileEntry.stored)
  rw [← same, List.length_append, archive.length_header, List.append_assoc] at named
  have table : Bethkit.Tes4.readFileNames bytes archive.files.length
      (36 + archive.directory.length) = .ok names :=
    (congrArg (Bethkit.Tes4.readFileNames · _ _) archive.bytes_parts).trans named
  have parsed := archive.parse_eq
    (fun file member => by
      obtain ⟨entry, added, readied⟩ := archive.exists_entry member
      rw [(prepare_path readied).1]
      exact short entry added)
    (fun file member => by
      obtain ⟨raw, folder⟩ := (parts file member).1
      rw [folder]
      exact strFromUtf8_latin raw) table
  refine ⟨_, by rw [archive.fromMmap_eq, parsed]; rfl, rfl, rfl, ?_⟩
  have firsts : (archive.raws.zip names).map Prod.fst = archive.raws :=
    List.map_fst_zip (by rw [archive.length_raws, counted])
  conv_rhs => rw [← firsts, List.map_map]
  rfl

end WrittenArchive

/-- A word without the bits of a mask is not changed by removing them. -/
theorem uInt32_and_not {word mask : UInt32} (clear : word &&& mask = 0) :
    word &&& ~~~mask = word := by
  apply UInt32.toBitVec_inj.mp
  have bits : word.toBitVec &&& mask.toBitVec = 0 := by
    rw [← UInt32.toBitVec_and, clear]
    rfl
  rw [UInt32.toBitVec_and, UInt32.toBitVec_not]
  apply BitVec.eq_of_getLsbD_eq
  intro position inside
  have bit : (word.toBitVec.getLsbD position && mask.toBitVec.getLsbD position) = false := by
    rw [← BitVec.getLsbD_and, bits]
    exact BitVec.getLsbD_zero
  rw [BitVec.getLsbD_and, BitVec.getLsbD_not, decide_eq_true inside, Bool.true_and]
  revert bit
  cases word.toBitVec.getLsbD position <;> cases mask.toBitVec.getLsbD position <;> decide

/-- The size field of a file with the default compression holds its size. -/
theorem rawSize_eq {compress : Bool} {file : FileEntry} (default : file.isCompressed = compress)
    (fits : FitsSizeField file.stored.length) :
    rawSize compress file &&& fileCompressBit = 0 ∧
      (rawSize compress file &&& ~~~fileCompressBit).toNat = file.stored.length := by
  have size : rawSize compress file = UInt32.ofNat file.stored.length := by
    rw [rawSize, if_neg (not_not.mpr default), UInt32.or_zero]
  have number : (UInt32.ofNat file.stored.length).toNat = file.stored.length := by
    rw [UInt32.toNat_ofNat']
    exact Nat.mod_eq_of_lt fits.1
  have clear : UInt32.ofNat file.stored.length &&& fileCompressBit = 0 := by
    apply UInt32.toNat_inj.mp
    have bit := Nat.and_two_pow file.stored.length 30
    rw [fits.2] at bit
    rw [UInt32.toNat_and, number]
    exact bit
  rw [size]
  exact ⟨clear, by rw [uInt32_and_not clear, number]⟩

/-- What a prepared file has from the content of its entry. -/
theorem prepare_stored {codecs : ArchiveCodecs} {isSse embed compress : Bool} {entry : BuilderEntry}
    {file : FileEntry} (readied : prepare codecs isSse embed compress entry = .ok file) :
    file.isCompressed = entry.compressOverride.getD compress ∧
      ∃ packed, payload codecs isSse file.isCompressed entry.data = .ok packed ∧
        file.stored = (if embed then embedPrefix file.fileName else []) ++ packed := by
  rw [prepare] at readied
  obtain ⟨packed, packs, rfl⟩ := map_eq_ok.mp readied
  exact ⟨rfl, packed, packs, rfl⟩

/-- The hash of a prepared file. -/
theorem prepare_fileHash {codecs : ArchiveCodecs} {isSse embed compress : Bool}
    {entry : BuilderEntry} {file : FileEntry}
    (readied : prepare codecs isSse embed compress entry = .ok file) :
    file.fileHash = fileHashOf entry.path := by
  rw [prepare] at readied
  obtain ⟨packed, packs, rfl⟩ := map_eq_ok.mp readied
  rfl

/-- Nothing is stored exactly for an empty file without compression and embedded name. -/
theorem stored_eq_nil {codecs : ArchiveCodecs} {isSse embed compress : Bool} {entry : BuilderEntry}
    {file : FileEntry} (readied : prepare codecs isSse embed compress entry = .ok file) :
    file.stored = [] ↔ file.isCompressed = false ∧ embed = false ∧ entry.data = [] := by
  obtain ⟨_, packed, packs, stored⟩ := prepare_stored readied
  rw [stored, List.append_eq_nil_iff]
  have framed : packed = [] ↔ file.isCompressed = false ∧ entry.data = [] := by
    rw [payload] at packs
    cases compressed : file.isCompressed with
    | false =>
      rw [compressed, if_neg Bool.false_ne_true] at packs
      obtain rfl := Except.ok.inj packs
      simp
    | true =>
      rw [compressed, if_pos rfl] at packs
      obtain ⟨bytes, _, rfl⟩ := map_eq_ok.mp packs
      have sized := length_u32ToLeBytes (UInt32.ofNat entry.data.length)
      constructor
      · intro empty
        rw [(List.append_eq_nil_iff.mp empty).1] at sized
        cases sized
      · rintro ⟨impossible, _⟩
        cases impossible
  rw [framed]
  cases embed with
  | false => simp
  | true => simp [embedPrefix]

namespace WrittenArchive

variable {codecs : ArchiveCodecs} {version : BsaVersion} {compress embedNames : Bool}
variable {entries : List BuilderEntry} {bytes : Bytes}
variable (archive : WrittenArchive codecs version compress embedNames entries bytes)

/-- A file is extracted from its record exactly if something is stored for it or behind it. -/
theorem extractByIndex_iff (inverts : Inverts codecs) {opened : Bethkit.Tes4.Tes4Archive}
    (source : opened.source = bytes) (known : opened.bsaVersion = archive.readVersion)
    (records : opened.records = archive.raws.map fun raw =>
      raw.record compress (embedsNames version embedNames))
    (names : (nameTable archive.files).length < 2 ^ 32) {index : Nat}
    (inside : index < archive.files.length) {entry : BuilderEntry}
    (readied : prepare codecs (version = .sse) (embedsNames version embedNames) compress entry =
      .ok archive.files[index])
    (default : entry.compressOverride = none)
    (fits : FitsSizeField archive.files[index].stored.length) :
    opened.extractByIndex codecs index = .ok entry.data ↔
      (archive.files.drop index).flatMap FileEntry.stored ≠ [] := by
  obtain ⟨compressed, packed, packs, stored⟩ := prepare_stored readied
  rw [default, Option.getD_none] at compressed
  rw [compressed] at packs
  obtain ⟨clear, sized⟩ := rawSize_eq compressed fits
  have placed := archive.offset_eq names inside
  obtain ⟨before, around, starts⟩ := archive.bytes_around inside
  have found : opened.records[index]? = some
      { offset := archive.offsets.getD index 0
        rawSize := rawSize compress archive.files[index] &&& ~~~fileCompressBit
        isCompressed := compress
        hasEmbedName := embedsNames version embedNames } := by
    rw [records, List.getElem?_map, archive.raws_getElem? inside, Option.map_some,
      Bethkit.Tes4.RawEntry.record, Bethkit.Tes4.RawEntry.isCompressed]
    simp only [clear, ne_eq, not_true_eq_false, decide_false, Bool.xor_false]
  have behind : (archive.files.drop index).flatMap FileEntry.stored =
      archive.files[index].stored ++ (archive.files.drop (index + 1)).flatMap FileEntry.stored := by
    rw [← List.flatMap_cons, List.getElem_cons_drop]
  have total : opened.source.length =
      before.length + ((archive.files.drop index).flatMap FileEntry.stored).length := by
    rw [source, behind, ← List.length_append]
    exact congrArg List.length around
  constructor
  · intro extracted empty
    refine extractByIndex_end found ?_ entry.data extracted
    rw [total, empty, List.length_nil, Nat.add_zero, starts]
    exact Nat.le_of_eq placed.symm
  · intro filled
    refine @extractByIndex_eq codecs inverts opened index _ before
      ((archive.files.drop (index + 1)).flatMap FileEntry.stored) entry.data packed
      archive.files[index].fileName found (placed.trans starts.symm)
      (sized.trans (congrArg List.length stored)) ?_ ?_ ?_
    · rw [known, decide_eq_decide.mpr archive.isSse_iff]
      exact packs
    · exact source.trans (around.trans (by rw [stored, List.append_assoc]))
    · have positive := List.length_pos_iff.mpr filled
      omega

end WrittenArchive

end Write.Tes4

namespace Write

open Write.Tes4

variable {codecs : ArchiveCodecs} {version : BsaVersion} {compress embed : Bool}
variable {files : List (Bytes × Bytes)} {bytes : Bytes}

/-- The stored files are prepared from the added ones in the order in which they are stored. -/
theorem prepared_storedOrder
    (archive : WrittenArchive codecs version compress embed (files.map builderEntry) bytes) :
    List.Forall₂ (fun file stored => prepare codecs (version = .sse) (embedsNames version embed)
      compress (builderEntry file) = .ok stored) (storedOrder files) archive.files := by
  have each := mapM_eq_ok.mp archive.prepared_eq
  rw [List.forall₂_map_left_iff] at each
  refine forall₂_insertionSort (fun first second file other one another => ?_) each
  rw [StoredBefore, FileEntry.Before, (prepare_path one).2.2, (prepare_path another).2.2,
    prepare_fileHash one, prepare_fileHash another]
  exact Iff.rfl

/-- The name table has the names of the added files. -/
theorem length_nameTable
    (archive : WrittenArchive codecs version compress embed (files.map builderEntry) bytes) :
    (nameTable archive.files).length =
      (files.map fun file => (splitFolder (normalisePath file.1)).2.length + 1).sum := by
  have sources : archive.prepared.map (fun file => file.fileName.length + 1) =
      files.map fun file => (splitFolder (normalisePath file.1)).2.length + 1 := by
    have each := mapM_eq_ok.mp archive.prepared_eq
    rw [List.forall₂_map_left_iff] at each
    rw [← List.forall₂_eq_eq_eq, List.forall₂_map_left_iff, List.forall₂_map_right_iff]
    refine each.flip.imp fun stored file readied => ?_
    rw [(prepare_path readied).2.1]
    rfl
  rw [nameTable, List.length_flatMap, ← sources]
  simp only [List.length_append, List.length_singleton]
  exact ((List.perm_insertionSort _ _).map _).sum_eq

/-- What is stored for a file. -/
theorem storedBytes_eq {file : Bytes × Bytes} {stored : FileEntry}
    (readied : prepare codecs (version = .sse) (embedsNames version embed) compress
      (builderEntry file) = .ok stored) :
    storedBytes codecs version compress embed file = .ok stored.stored := by
  obtain ⟨compressed, packed, packs, same⟩ := prepare_stored readied
  rw [compressed] at packs
  rw [same, (prepare_path readied).2.1]
  exact map_eq_ok.mpr ⟨packed, packs, rfl⟩

/-- Something is stored for the last file if it is compressed, has its name embedded or is not
empty. -/
theorem stored_last
    (archive : WrittenArchive codecs version compress embed (files.map builderEntry) bytes)
    (last : files.length - 1 < archive.files.length) :
    archive.files[files.length - 1].stored ≠ [] ↔ compress = true ∨ embedsNames version embed = true ∨
      ∀ last ∈ (storedOrder files).getLast?, last.2 ≠ [] := by
  have each := prepared_storedOrder archive
  have sized : (storedOrder files).length = files.length := List.length_insertionSort _ _
  have inside : files.length - 1 < (storedOrder files).length := each.length_eq ▸ last
  have readied : prepare codecs (version = .sse) (embedsNames version embed) compress
      (builderEntry (storedOrder files)[files.length - 1]) =
        .ok archive.files[files.length - 1] := each.get inside last
  have found : (storedOrder files).getLast? = some (storedOrder files)[files.length - 1] := by
    rw [List.getLast?_eq_getElem?, sized, List.getElem?_eq_getElem inside]
  rw [ne_eq, stored_eq_nil readied, (prepare_stored readied).1, found]
  show ¬(compress = false ∧ embedsNames version embed = false ∧ _ = []) ↔ _
  simp only [Option.mem_some_iff, forall_eq', not_and_or, Bool.not_eq_false, ne_eq]
  exact Iff.rfl

/-- An archive whose folder names, file names and sizes fit into their fields extracts to the
contents of its files exactly if something is stored for the last of them. -/
theorem extracts_iff_last (inverts : Inverts codecs)
    (archive : WrittenArchive codecs version compress embed (files.map builderEntry) bytes)
    (short : ∀ file ∈ files, (folderOf (normalisePath file.1)).length ≤ 254)
    (names : (files.map fun file => (splitFolder (normalisePath file.1)).2.length + 1).sum < 2 ^ 32)
    (sizes : ∀ file ∈ files, ∀ stored, storedBytes codecs version compress embed file = .ok stored →
      FitsSizeField stored.length) :
    Extracts codecs bytes files ↔ compress = true ∨ embedsNames version embed = true ∨
      ∀ last ∈ (storedOrder files).getLast?, last.2 ≠ [] := by
  have text : ∀ entry ∈ files.map builderEntry, ∃ raw, entry.path = latin raw :=
    List.forall_mem_map.mpr fun file _ => ⟨_, normalisePath_eq file.1⟩
  obtain ⟨opened, reads, source, known, records⟩ := archive.exists_opened text
    (List.forall_mem_map.mpr short)
  have each := prepared_storedOrder archive
  rw [← length_nameTable archive] at names
  have single {index : Nat} (inside : index < (storedOrder files).length) :
      opened.extractByIndex codecs index = .ok (storedOrder files)[index].2 ↔
        (archive.files.drop index).flatMap FileEntry.stored ≠ [] := by
    have bound : index < archive.files.length := each.length_eq ▸ inside
    have readied := each.get inside bound
    have added : (storedOrder files)[index] ∈ files :=
      (List.mem_insertionSort _).mp (List.getElem_mem inside)
    exact archive.extractByIndex_iff inverts source known records names bound readied rfl
      (sizes _ added _ (storedBytes_eq readied))
  have sized : (storedOrder files).length = files.length := List.length_insertionSort _ _
  have extracts : Extracts codecs bytes files ↔
      ∀ index, index < files.length → (archive.files.drop index).flatMap FileEntry.stored ≠ [] := by
    rw [← sized]
    constructor
    · rintro ⟨other, again, extracted⟩ index inside
      obtain rfl := Except.ok.inj (reads.symm.trans again)
      exact (single inside).mp (extracted index inside)
    · intro filled
      exact ⟨.tes4 opened, reads, fun index inside => (single inside).mpr (filled index inside)⟩
  have stored : archive.files.length = files.length := each.length_eq.symm.trans sized
  rw [extracts]
  cases count : files.length with
  | zero =>
    have none : (storedOrder files).getLast? = none := by
      rw [List.getLast?_eq_none_iff, ← List.length_eq_zero_iff, sized, count]
    rw [none]
    exact ⟨fun _ => .inr (.inr fun last impossible => by cases impossible),
      fun _ index impossible => absurd impossible (Nat.not_lt_zero index)⟩
  | succ others =>
    have last : files.length - 1 < archive.files.length := by omega
    rw [← stored_last archive last]
    have finish : (archive.files.drop (files.length - 1)).flatMap FileEntry.stored =
        archive.files[files.length - 1].stored := by
      rw [List.drop_eq_getElem_cons last, List.flatMap_cons, List.drop_eq_nil_of_le (by omega),
        List.flatMap_nil, List.append_nil]
    rw [← finish]
    constructor
    · exact fun filled => filled _ (by omega)
    · intro filled index inside empty
      refine filled ?_
      have behind : index ≤ files.length - 1 := by omega
      rw [← Nat.add_sub_cancel' behind, ← List.drop_drop]
      rw [List.flatMap_eq_nil_iff] at empty ⊢
      exact fun file member => empty file (List.mem_of_mem_drop member)

/-- A written archive whose folder names, file names and sizes fit into their fields extracts to
the contents of its files exactly if something is stored for the last of them. -/
theorem extracts_iff (inverts : Inverts codecs) (family : version ≠ .tes3)
    (written : (BsaWriter.packing version compress embed files).writeTo codecs = .ok bytes)
    (short : ∀ file ∈ files, (folderOf (normalisePath file.1)).length ≤ 254)
    (names : (files.map fun file => (splitFolder (normalisePath file.1)).2.length + 1).sum < 2 ^ 32)
    (sizes : ∀ file ∈ files, ∀ stored, storedBytes codecs version compress embed file = .ok stored →
      FitsSizeField stored.length) :
    Extracts codecs bytes files ↔ compress = true ∨ embedsNames version embed = true ∨
      ∀ last ∈ (storedOrder files).getLast?, last.2 ≠ [] := by
  obtain ⟨archive⟩ := BsaWriter.nonempty_writtenArchive family written
  exact extracts_iff_last inverts archive short names sizes

/-- Storing data as it is can be undone. -/
theorem inverts_storingCodecs : Inverts storingCodecs where
  zlib _ _ packs _ := by
    obtain rfl := Except.ok.inj packs
    rfl
  lz4Frame _ _ packs _ := by
    obtain rfl := Except.ok.inj packs
    rfl

/-- The plain files are small. -/
theorem fits_plainFiles : ∀ file ∈ plainFiles, ∀ stored,
    storedBytes storingCodecs .sse false true file = .ok stored → FitsSizeField stored.length := by
  intro file member stored same
  simp only [plainFiles, List.mem_cons, List.not_mem_nil, or_false] at member
  rcases member with rfl | rfl | rfl
  all_goals
    obtain rfl := Except.ok.inj same
    decide +kernel

/-- The contents of the plain files are extracted. -/
theorem extracts_plainFiles : ∃ bytes,
    (BsaWriter.packing .sse false true plainFiles).writeTo storingCodecs = .ok bytes ∧
      Extracts storingCodecs bytes plainFiles := by
  obtain ⟨bytes, written⟩ := @exists_written storingCodecs
    (BsaWriter.packing .sse false true plainFiles) (by decide +kernel)
  exact ⟨bytes, written, (extracts_iff inverts_storingCodecs (by decide) written
    (by decide +kernel) (by decide +kernel) fits_plainFiles).mpr (.inr (.inl rfl))⟩

/-- One empty file. -/
def emptyFile : List (Bytes × Bytes) := [(strAsBytes "a", [])]

/-- An empty file at the end of an archive is not extracted. -/
theorem not_extracts_emptyFile : ∃ bytes,
    (BsaWriter.packing .tes4 false false emptyFile).writeTo storingCodecs = .ok bytes ∧
      ¬Extracts storingCodecs bytes emptyFile := by
  obtain ⟨bytes, written⟩ := @exists_written storingCodecs
    (BsaWriter.packing .tes4 false false emptyFile) (by decide +kernel)
  obtain ⟨archive⟩ := BsaWriter.nonempty_writtenArchive (by decide) written
  refine ⟨bytes, written, fun extracts => ?_⟩
  have small : ∀ file ∈ emptyFile, ∀ stored,
      storedBytes storingCodecs .tes4 false false file = .ok stored →
        FitsSizeField stored.length := by
    intro file member stored same
    obtain rfl := List.mem_singleton.mp member
    obtain rfl := Except.ok.inj same
    decide +kernel
  rw [extracts_iff_last inverts_storingCodecs archive (by decide +kernel) (by decide +kernel) small]
    at extracts
  rcases extracts with impossible | impossible | filled
  · cases impossible
  · cases impossible
  · exact filled (strAsBytes "a", []) rfl rfl

end Write

end Bethkit
