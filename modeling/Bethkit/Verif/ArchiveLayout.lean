import Bethkit.Verif.ArchiveGroups

/-!
# The layout of a written archive

A written archive is taken apart into its header, the records and blocks of its folders, its name
table and its data, and the reader reads the parts one after the other.
-/

namespace Bethkit

open Lib

namespace Write.Tes4

open Bethkit.Tes4 (RawEntry Tes4Archive readHeader readDirectory readFileNames versionOf)

/-- Where the records of the folders end. -/
def folderRecordsEnd (version : BsaVersion) (files : List FileEntry) : Nat :=
  36 + (UInt32.ofNat (groupFolders files).length).toNat * if version = .sse then 24 else 16

/-- Where the data of the files starts: the length of the names is a 32-bit sum. -/
def fileDataStart (version : BsaVersion) (files : List FileEntry) : Nat :=
  folderRecordsEnd version files + ((groupFolders files).map blockSize).sum +
    (files.map fun file => UInt32.ofNat file.fileName.length + 1).sum.toNat

/-- The header of an archive. -/
def header (number : UInt32) (compress embed : Bool) (files : List FileEntry) : Bytes :=
  Bethkit.Tes4.magic ++ (u32ToLeBytes number ++ (u32ToLeBytes 36 ++
    (u32ToLeBytes (archiveFlags compress embed) ++
    (u32ToLeBytes (UInt32.ofNat (groupFolders files).length) ++
    (u32ToLeBytes (UInt32.ofNat files.length) ++
    (u32ToLeBytes ((groupFolders files).map fun folder =>
      1 + UInt32.ofNat folder.2.1.length + 1).sum ++
    (u32ToLeBytes (files.map fun file => UInt32.ofNat file.fileName.length + 1).sum ++
    u32ToLeBytes (contentFlags files))))))))

/-- The terminated names of the files. -/
def nameTable (files : List FileEntry) : Bytes := files.flatMap fun file => file.fileName ++ [0]

/-- A written archive, taken apart. -/
structure WrittenArchive (codecs : ArchiveCodecs) (version : BsaVersion)
    (compress embedNames : Bool) (entries : List BuilderEntry) (bytes : Bytes) where
  /-- The version number. -/
  number : UInt32
  /-- The version that the reader finds. -/
  readVersion : Bethkit.Tes4.BsaVersion
  /-- The prepared files, in the order in which they were added. -/
  prepared : List FileEntry
  /-- Where the data of the files starts. -/
  offsets : List UInt32
  /-- The records of the folders. -/
  records : Bytes
  /-- The version number is known. -/
  versionOf_eq : versionOf number = .ok readVersion
  /-- Both sides agree on the layout of the folder records. -/
  isSse_iff : readVersion = .sse ↔ version = .sse
  /-- Names are only embedded where the reader expects them. -/
  embeds : embedsNames version embedNames → readVersion ≠ .tes4
  /-- The files are prepared one by one. -/
  prepared_eq : entries.mapM
    (prepare codecs (version = .sse) (embedsNames version embedNames) compress) = .ok prepared
  /-- All data starts below the 32-bit limit. -/
  offsets_eq : fileDataOffsets (prepared.insertionSort FileEntry.Before)
    (fileDataStart version (prepared.insertionSort FileEntry.Before)) = .ok offsets
  /-- The folder records are written. -/
  records_eq : folderRecords (version = .sse)
    (groupFolders (prepared.insertionSort FileEntry.Before))
    (folderDataOffsets (groupFolders (prepared.insertionSort FileEntry.Before))
      (folderRecordsEnd version (prepared.insertionSort FileEntry.Before))) = .ok records
  /-- The parts follow each other. -/
  bytes_eq : bytes =
    header number compress (embedsNames version embedNames)
      (prepared.insertionSort FileEntry.Before) ++
    (records ++ (folderBlocks compress (prepared.insertionSort FileEntry.Before) offsets
      (groupFolders (prepared.insertionSort FileEntry.Before)) 0 ++
    (nameTable (prepared.insertionSort FileEntry.Before) ++
    (prepared.insertionSort FileEntry.Before).flatMap FileEntry.stored)))

variable {codecs : ArchiveCodecs} {version : BsaVersion} {compress embedNames : Bool}
variable {entries : List BuilderEntry} {bytes : Bytes}

/-- What is written can be taken apart. -/
theorem nonempty_writtenArchive
    (written : write codecs version compress embedNames entries = .ok bytes) :
    Nonempty (WrittenArchive codecs version compress embedNames entries bytes) := by
  rw [write] at written
  split at written
  · cases written
  · obtain ⟨number, known, written⟩ := bind_eq_ok.mp written
    obtain ⟨prepared, readied, written⟩ := bind_eq_ok.mp written
    obtain ⟨offsets, placed, written⟩ := bind_eq_ok.mp written
    obtain ⟨records, recorded, written⟩ := bind_eq_ok.mp written
    obtain rfl := Except.ok.inj written
    cases version with
    | tes3 => cases known
    | tes4 =>
      obtain rfl := Except.ok.inj known
      exact ⟨⟨_, .tes4, prepared, offsets, records, rfl, by decide, by simp [embedsNames], readied,
        placed, recorded, rfl⟩⟩
    | fo3 =>
      obtain rfl := Except.ok.inj known
      exact ⟨⟨_, .fo3, prepared, offsets, records, rfl, by decide, by simp, readied, placed,
        recorded, rfl⟩⟩
    | sse =>
      obtain rfl := Except.ok.inj known
      exact ⟨⟨_, .sse, prepared, offsets, records, rfl, by decide, by simp, readied, placed,
        recorded, rfl⟩⟩

/-- Every folder has an offset. -/
theorem length_folderDataOffsets (folders : List (UInt64 × Folder)) (start : Nat) :
    (folderDataOffsets folders start).length = folders.length := by
  induction folders generalizing start with
  | nil => rfl
  | cons folder folders rest => exact congrArg (· + 1) (rest _)

namespace WrittenArchive

variable (archive : WrittenArchive codecs version compress embedNames entries bytes)

/-- The files in the order in which they are stored. -/
abbrev files : List FileEntry := archive.prepared.insertionSort FileEntry.Before

/-- The records and the blocks of the folders. -/
def directory : Bytes :=
  archive.records ++ folderBlocks compress archive.files archive.offsets
    (groupFolders archive.files) 0

/-- What is read from the directory: a record for every file, below the name of its folder. -/
def raws : List RawEntry :=
  archive.files.zipIdx.map fun file => rawAt compress archive.files archive.offsets
    (listedFolder archive.files file.1.folderHash) file.2

/-- Any two files can be put in order. -/
theorem before_total (first second : FileEntry) : first.Before second ∨ second.Before first := by
  rcases Nat.lt_trichotomy first.folderHash.toNat second.folderHash.toNat with less | same | less
  · exact .inl (.inl (UInt64.lt_iff_toNat_lt.mpr less))
  · have equal := UInt64.toNat_inj.mp same
    rcases Nat.le_total first.fileHash.toNat second.fileHash.toNat with least | least
    · exact .inl (.inr ⟨equal, UInt64.le_iff_toNat_le.mpr least⟩)
    · exact .inr (.inr ⟨equal.symm, UInt64.le_iff_toNat_le.mpr least⟩)
  · exact .inr (.inl (UInt64.lt_iff_toNat_lt.mpr less))

/-- The files are sorted. -/
theorem sorted : archive.files.Pairwise FileEntry.Before := by
  have total : Std.Total FileEntry.Before := ⟨before_total⟩
  have trans : IsTrans FileEntry FileEntry.Before := by
    refine ⟨fun first second third early late => ?_⟩
    rw [FileEntry.Before, UInt64.lt_iff_toNat_lt, UInt64.le_iff_toNat_le, ← UInt64.toNat_inj] at *
    omega
  exact List.pairwise_insertionSort _ _

/-- Every added file is stored. -/
theorem length_files : archive.files.length = entries.length := by
  rw [List.length_insertionSort, (mapM_eq_ok.mp archive.prepared_eq).length_eq]

/-- The blocks have room for the records of all files. -/
theorem le_sum_blockSize (folders : List (UInt64 × Folder)) :
    16 * (folders.flatMap fun folder => folder.2.2).length ≤ (folders.map blockSize).sum := by
  induction folders with
  | nil => exact Nat.le_refl 0
  | cons folder folders rest =>
    rw [List.flatMap_cons, List.length_append, List.map_cons, List.sum_cons, blockSize]
    omega

/-- There are few files, because their records stand before the data. -/
theorem length_files_lt : archive.files.length < 2 ^ 28 := by
  have placed : fileDataOffsets archive.files (fileDataStart version archive.files) =
      .ok archive.offsets := archive.offsets_eq
  have room := le_sum_blockSize (groupFolders archive.files)
  rw [flatMap_groupFolders_indices archive.sorted, List.length_range'] at room
  cases same : archive.files with
  | nil => exact Nat.two_pow_pos 28
  | cons file files =>
    have start : fileDataStart version archive.files < 2 ^ 32 := by
      by_contra large
      rw [same, fileDataOffsets, if_pos (by rw [← same]; omega)] at placed
      cases placed
    rw [fileDataStart] at start
    rw [← same]
    omega

/-- A folder has some of the files. -/
theorem length_folder_le {folder : UInt64 × Folder} (member : folder ∈ groupFolders archive.files) :
    folder.2.2.length ≤ archive.files.length := by
  rw [(mem_groupFolders member).2, List.length_map]
  exact (List.length_filter_le _ _).trans (by rw [List.length_zipIdx])

/-- There are at most as many folders as files. -/
theorem length_groupFolders_le : (groupFolders archive.files).length ≤ archive.files.length := by
  have each : ∀ folder ∈ groupFolders archive.files, 1 ≤ folder.2.2.length := by
    intro folder member
    rw [groupFolders_eq, mem_collect] at member
    obtain ⟨first, found, same⟩ := Option.map_eq_some_iff.mp member
    have filled := List.length_pos_of_mem (List.mem_of_head? found)
    rw [← same, List.length_map]
    exact filled
  have all := congrArg List.length (flatMap_groupFolders_indices archive.sorted)
  rw [List.length_range', List.length_flatMap] at all
  have least := List.card_nsmul_le_sum ((groupFolders archive.files).map fun folder =>
    folder.2.2.length) 1 fun count member => by
      obtain ⟨folder, among, rfl⟩ := List.mem_map.mp member
      exact each folder among
  rw [List.length_map, smul_eq_mul, Nat.mul_one] at least
  omega

/-- The folders are counted in 32 bits. -/
theorem toNat_folderCount : (UInt32.ofNat (groupFolders archive.files).length).toNat =
    (groupFolders archive.files).length := by
  have few := archive.length_files_lt
  have less := archive.length_groupFolders_le
  rw [UInt32.toNat_ofNat']
  exact Nat.mod_eq_of_lt (by omega)

/-- The header is read. -/
theorem reads_readHeader : readHeader.Reads
    (header archive.number compress (embedsNames version embedNames) archive.files)
    ⟨36, archiveFlagsFromBitsTruncate (archiveFlags compress (embedsNames version embedNames)),
      (groupFolders archive.files).length⟩ := by
  rw [header, readHeader]
  refine (@reads_readArray 4 Bethkit.Tes4.magic rfl).bind <| (reads_readU32 _).bind <|
    (reads_readU32 _).bind <| (reads_readU32 _).bind <| (reads_readU32 _).bind <|
    (reads_readU32 _).bind <| (reads_readU32 _).bind <| (reads_readU32 _).bind <|
    (reads_readU32 _).bind_nil ?_
  rw [archive.toNat_folderCount]
  exact .pure _

/-- The header takes 36 bytes. -/
theorem length_header :
    (header archive.number compress (embedsNames version embedNames) archive.files).length = 36 := by
  simp [header, Bethkit.Tes4.magic]

/-- What the files are listed under is valid UTF-8 if the names of their folders are. -/
theorem forall_groupFolders {holds : Bytes → Prop}
    (each : ∀ file ∈ archive.files, holds file.folderName) :
    ∀ folder ∈ groupFolders archive.files, holds folder.2.1 := by
  intro folder member
  rw [groupFolders_eq, mem_collect] at member
  obtain ⟨first, found, same⟩ := Option.map_eq_some_iff.mp member
  have among := (List.mem_filter.mp (List.mem_of_head? found)).1
  rw [← same]
  refine each first.1 ?_
  rw [← List.zipIdx_map_fst 0 archive.files]
  exact List.mem_map_of_mem among

/-- If the names of the folders are short, the directory is read. -/
theorem reads_readDirectory (short : ∀ file ∈ archive.files, file.folderName.length ≤ 254)
    (text : ∀ file ∈ archive.files, (strFromUtf8 file.folderName).isSome) :
    (readDirectory archive.readVersion (groupFolders archive.files).length).Reads
      archive.directory archive.raws := by
  have few := archive.length_files_lt
  have records : folderRecords (archive.readVersion = .sse) (groupFolders archive.files)
      (folderDataOffsets (groupFolders archive.files)
        (folderRecordsEnd version archive.files)) = .ok archive.records := by
    rw [decide_eq_decide.mpr archive.isSse_iff]
    exact archive.records_eq
  rw [directory, folderBlocks_eq _ (flatMap_groupFolders_indices archive.sorted), raws,
    ← flatMap_groupFolders archive.sorted (rawAt compress archive.files archive.offsets)]
  exact ((Bethkit.Tes4.reads_folderRecords records
    (length_folderDataOffsets _ _)).mapError BsaError.io).bind <|
    reads_readFolders
      (@forall_groupFolders _ _ _ _ _ _ archive (fun name => name.length ≤ 254) short)
      (@forall_groupFolders _ _ _ _ _ _ archive (fun name => (strFromUtf8 name).isSome) text)
      fun folder member => (archive.length_folder_le member).trans_lt (by omega)

/-- The name table and the data. -/
def tail : Bytes := nameTable archive.files ++ archive.files.flatMap FileEntry.stored

/-- An archive is its header, its directory, its name table and its data. -/
theorem bytes_parts : bytes =
    header archive.number compress (embedsNames version embedNames) archive.files ++
      (archive.directory ++ archive.tail) := by
  rw [directory, tail, List.append_assoc]
  exact archive.bytes_eq

/-- One record is read for every file. -/
theorem length_raws : archive.raws.length = archive.files.length := by
  rw [raws, List.length_map, List.length_zipIdx]

/-- The settings of the writer are found in the header. -/
theorem archiveFlags_compress (compress embed : Bool) :
    decide (archiveFlagsFromBitsTruncate (archiveFlags compress embed) &&& archiveFlagCompress ≠ 0) =
      compress := by
  cases compress <;> cases embed <;> decide

/-- The settings of the writer are found in the header. -/
theorem archiveFlags_embed (compress embed : Bool) :
    decide (archiveFlagsFromBitsTruncate (archiveFlags compress embed) &&& archiveFlagEmbedname ≠ 0) =
      embed := by
  cases compress <;> cases embed <;> decide

/-- If the names of the folders are short, and names are read from the name table, then the archive
is parsed. -/
theorem parse_eq (short : ∀ file ∈ archive.files, file.folderName.length ≤ 254)
    (text : ∀ file ∈ archive.files, (strFromUtf8 file.folderName).isSome) {names : List Bytes}
    (named : readFileNames bytes archive.files.length (36 + archive.directory.length) =
      .ok names) :
    Tes4Archive.parse bytes archive.number = .ok {
      source := bytes
      bsaVersion := archive.readVersion
      entries := (archive.raws.zip names).map fun file => file.1.entry compress file.2
      records := (archive.raws.zip names).map fun file =>
        file.1.record compress (embedsNames version embedNames)
      index := indexEntries ((archive.raws.zip names).map fun file =>
        file.1.entry compress file.2) } := by
  have opened := (archive.reads_readHeader.mapError BsaError.io) []
    (archive.directory ++ archive.tail)
  rw [List.nil_append, ← archive.bytes_parts] at opened
  have listed := archive.reads_readDirectory short text [] archive.tail
  have behind : bytes.drop 36 = archive.directory ++ archive.tail := by
    conv_lhs => rw [archive.bytes_parts]
    rw [← archive.length_header, List.drop_left]
  rw [List.nil_append, ← behind] at listed
  have inside : ¬bytes.length < 36 := by
    rw [archive.bytes_parts, List.length_append, archive.length_header]
    omega
  have embedded : decide (archiveFlagsFromBitsTruncate
      (archiveFlags compress (embedsNames version embedNames)) &&& archiveFlagEmbedname ≠ 0 ∧
        archive.readVersion ≠ .tes4) = embedsNames version embedNames := by
    rw [Bool.decide_and, archiveFlags_embed]
    cases embeds : embedsNames version embedNames with
    | false => rfl
    | true => simpa using archive.embeds embeds
  have header : archiveIo readHeader (SliceCursor.new bytes) = _ := opened
  rw [Tes4Archive.parse, archive.versionOf_eq, ok_bind, header, ok_bind, Tes4Archive.read,
    if_neg inside, archiveFlags_compress, embedded]
  have directory : readDirectory archive.readVersion (groupFolders archive.files).length
      (SliceCursor.new (bytes.drop 36)) = _ := listed
  have starts : 36 + (0 + archive.directory.length) = 36 + archive.directory.length := by omega
  rw [directory, ok_bind]
  dsimp only [List.length_nil]
  rw [archive.length_raws, starts, named, ok_bind]
  rfl

end WrittenArchive

end Write.Tes4

end Bethkit
