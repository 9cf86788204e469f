import Bethkit.Verif.ArchiveLayout

/-!
# What a written archive lists

A file is listed under the name of the first folder with the hash of its own. So an archive lists
the files that were packed into it exactly if their folders have different hashes, and no file
stands below a root without a name.
-/

namespace Bethkit

open Lib

/-- A terminated name is read, and the reader continues behind its NUL. -/
theorem Tes4.readFileNames_cons {name : Bytes} (visible : 0 ∉ name)
    (text : (strFromUtf8 name).isSome) (count : Nat) (before rest : Bytes) :
    readFileNames (before ++ (name ++ 0 :: rest)) (count + 1) before.length =
      (readFileNames (before ++ (name ++ [0]) ++ rest) count (before ++ (name ++ [0])).length).map
        (normalisePath name :: ·) := by
  have inside : ¬(before ++ (name ++ 0 :: rest)).length < before.length := by
    rw [List.length_append]
    omega
  have read : ((before ++ (name ++ 0 :: rest)).drop before.length).takeWhile (· ≠ 0) = name := by
    rw [List.drop_left, List.takeWhile_append_of_pos fun byte member => ?_,
      List.takeWhile_cons_of_neg (by simp), List.append_nil]
    simpa using fun zero : byte = 0 => visible (zero ▸ member)
  have same : before ++ (name ++ [0]) ++ rest = before ++ (name ++ 0 :: rest) := by simp
  have next : (before ++ (name ++ [0])).length = before.length + name.length + 1 := by
    simp only [List.length_append, List.length_singleton]
    omega
  rw [same, next, readFileNames, if_neg inside]
  simp only [read]
  rw [strFromUtf8Or, if_pos text, ok_bind]
  rfl

/-- Visible names are read from a name table. -/
theorem Tes4.readFileNames_names {names : List Bytes} (visible : ∀ name ∈ names, 0 ∉ name)
    (text : ∀ name ∈ names, (strFromUtf8 name).isSome) (before after : Bytes) :
    readFileNames (before ++ (names.flatMap (fun name => name ++ [0]) ++ after)) names.length
      before.length = .ok (names.map normalisePath) := by
  induction names generalizing before with
  | nil => rfl
  | cons name names rest =>
    have first : (name :: names).flatMap (fun name => name ++ [0]) ++ after =
        name ++ 0 :: (names.flatMap (fun name => name ++ [0]) ++ after) := by
      simp
    rw [first, List.length_cons, readFileNames_cons (visible name List.mem_cons_self)
      (text name List.mem_cons_self),
      rest (fun other member => visible other (List.mem_cons_of_mem _ member))
        fun other member => text other (List.mem_cons_of_mem _ member)]
    rfl

/-- A path whose bytes are visible ASCII characters in normal form. -/
def IsNormal (path : Bytes) : Prop := ∀ byte ∈ path, byte ≠ 0 ∧ byte < 128 ∧ normaliseByte byte = byte

/-- A normal path is not changed. -/
theorem IsNormal.normalisePath {path : Bytes} (normal : IsNormal path) :
    normalisePath path = path := by
  have ascii : IsAsciiPath path := fun byte member => ⟨(normal byte member).1, (normal byte member).2.1⟩
  rw [ascii.normalisePath_eq]
  exact (List.map_congr_left fun byte member => (normal byte member).2.2).trans (List.map_id _)

/-- A normal path is valid UTF-8. -/
theorem IsNormal.text {path : Bytes} (normal : IsNormal path) : (strFromUtf8 path).isSome := by
  have same := strFromUtf8_latin path
  rwa [latin_of_ascii fun byte member => (normal byte member).2.1] at same

/-- A normalised ASCII path is normal. -/
theorem IsAsciiPath.normal {path : Bytes} (ascii : IsAsciiPath path) :
    IsNormal (normalisePath path) := by
  intro byte member
  refine ⟨(ascii.normalise byte member).1, (ascii.normalise byte member).2, ?_⟩
  rw [ascii.normalisePath_eq] at member
  obtain ⟨source, _, rfl⟩ := List.mem_map.mp member
  exact normaliseByte_idem source

namespace Write

open Bethkit.Tes4 (joinPath)
open Write.Tes4

/-- The name of a file in its folder has no slash. -/
theorem slash_notMem_fileName (path : Bytes) : 47 ∉ (splitFolder path).2 := by
  rw [splitFolder]
  cases found : strRsplitOnce 47 path with
  | none => exact strRsplitOnce_eq_none.mp found
  | some parts => exact (strRsplitOnce_eq_some.mp found).2

/-- A file without a folder is listed by its name. -/
theorem joinPath_nil (fileName : Bytes) : joinPath [] fileName = fileName := rfl

/-- A joined path is taken apart again. -/
theorem splitFolder_joinPath {folder fileName : Bytes} (simple : 47 ∉ fileName) :
    splitFolder (joinPath folder fileName) = (folder, fileName) := by
  cases folder with
  | nil =>
    rw [joinPath_nil, splitFolder, strRsplitOnce_eq_none.mpr simple]
    rfl
  | cons first folder =>
    rw [splitFolder, joinPath, if_neg (by simp), strRsplitOnce_append _ simple]
    rfl

/-- No joined path stands below a root without a name. -/
theorem not_isRooted_joinPath {folder fileName : Bytes} (simple : 47 ∉ fileName) :
    ¬IsRooted (joinPath folder fileName) := by
  rintro ⟨name, plain, same⟩
  have parts : splitFolder (joinPath folder fileName) = (folder, fileName) :=
    splitFolder_joinPath simple
  rw [same, splitFolder] at parts
  have rooted : strRsplitOnce 47 (47 :: name) = some ([], name) := strRsplitOnce_append [] plain
  rw [rooted] at parts
  obtain ⟨rfl, rfl⟩ := Prod.mk.inj parts
  rw [joinPath_nil] at same
  exact simple (same ▸ List.mem_cons_self)

/-- Every other path is joined from its parts. -/
theorem joinPath_splitFolder {path : Bytes} (plain : ¬IsRooted path) :
    joinPath (folderOf path) (splitFolder path).2 = path := by
  rw [folderOf, splitFolder]
  cases found : strRsplitOnce 47 path with
  | none => exact if_pos rfl
  | some parts =>
    obtain ⟨same, simple⟩ := strRsplitOnce_eq_some.mp found
    cases named : parts.1 with
    | nil =>
      rw [named] at same
      exact absurd ⟨parts.2, simple, same⟩ plain
    | cons first folder =>
      show joinPath parts.1 parts.2 = path
      rw [joinPath, if_neg (by rw [named]; simp), ← same]

/-- Both parts of a normal path are normal. -/
theorem isNormal_parts {path : Bytes} (normal : IsNormal path) :
    IsNormal (folderOf path) ∧ IsNormal (splitFolder path).2 := by
  rw [folderOf, splitFolder]
  cases found : strRsplitOnce 47 path with
  | none => exact ⟨fun _ member => absurd member List.not_mem_nil, normal⟩
  | some parts =>
    obtain ⟨same, _⟩ := strRsplitOnce_eq_some.mp found
    exact ⟨fun byte member => normal byte (same ▸ List.mem_append_left _ member),
      fun byte member => normal byte
        (same ▸ List.mem_append_right _ (List.mem_cons_of_mem _ member))⟩

namespace Tes4

variable {codecs : ArchiveCodecs} {version : BsaVersion} {compress embedNames : Bool}
variable {entries : List BuilderEntry} {bytes : Bytes}

/-- What a prepared file has from the path of its entry. -/
theorem prepare_path {isSse embed : Bool} {entry : BuilderEntry} {file : FileEntry}
    (readied : prepare codecs isSse embed compress entry = .ok file) :
    file.folderName = folderOf entry.path ∧ file.fileName = (splitFolder entry.path).2 ∧
      file.folderHash = folderHashOf entry.path := by
  rw [prepare] at readied
  obtain ⟨payload, _, rfl⟩ := map_eq_ok.mp readied
  exact ⟨rfl, rfl, rfl⟩

/-- Behind the first bytes of the family stands the version number. -/
theorem fromMmap_of_front {number : UInt32} {rest : Bytes}
    (same : bytes = Bethkit.Tes4.magic ++ (u32ToLeBytes number ++ rest)) :
    BsaArchive.fromMmap bytes = (Bethkit.Tes4.Tes4Archive.parse bytes number).map .tes4 := by
  have magic : bytes.take 4 = Bethkit.Tes4.magic := by
    rw [same]
    rfl
  have word : Bytes.slice bytes 4 8 = u32ToLeBytes number := by
    rw [same]
    have middle := Bytes.slice_append Bethkit.Tes4.magic (u32ToLeBytes number) rest
    rwa [length_u32ToLeBytes] at middle
  have long : ¬bytes.length < 8 := by
    rw [same]
    simp [Bethkit.Tes4.magic]
  rw [BsaArchive.fromMmap, if_neg long]
  dsimp only
  rw [magic, if_neg (by decide), if_pos rfl, word, u32FromLeBytes_toLeBytes]

namespace WrittenArchive

variable (archive : WrittenArchive codecs version compress embedNames entries bytes)

/-- Every stored file was prepared from an added one. -/
theorem exists_entry {file : FileEntry} (member : file ∈ archive.files) :
    ∃ entry ∈ entries, prepare codecs (version = .sse) (embedsNames version embedNames) compress entry =
      .ok file := by
  rw [List.mem_insertionSort] at member
  obtain ⟨index, inside, rfl⟩ := List.mem_iff_getElem.mp member
  have each := mapM_eq_ok.mp archive.prepared_eq
  have bound : index < entries.length := each.length_eq ▸ inside
  exact ⟨entries[index], List.getElem_mem bound, each.get bound inside⟩

/-- Every added file is stored. -/
theorem exists_file {entry : BuilderEntry} (member : entry ∈ entries) :
    ∃ file ∈ archive.files,
      prepare codecs (version = .sse) (embedsNames version embedNames) compress entry = .ok file := by
  obtain ⟨index, inside, rfl⟩ := List.mem_iff_getElem.mp member
  have each := mapM_eq_ok.mp archive.prepared_eq
  have bound : index < archive.prepared.length := each.length_eq ▸ inside
  exact ⟨archive.prepared[index], (List.mem_insertionSort _).mpr (List.getElem_mem bound),
    each.get inside bound⟩

/-- The path under which a file is listed. -/
def listedAs (path : Bytes) : Bytes :=
  joinPath (listedFolder archive.files (folderHashOf path)) (splitFolder path).2

/-- The folder that is listed for a file is the folder of some file with the same hash. -/
theorem exists_listedFolder {entry : BuilderEntry} (member : entry ∈ entries) :
    ∃ first ∈ entries, folderHashOf first.path = folderHashOf entry.path ∧
      folderOf first.path = listedFolder archive.files (folderHashOf entry.path) := by
  obtain ⟨file, among, readied⟩ := archive.exists_file member
  have hash := (prepare_path readied).2.2
  have own : file ∈ archive.files.filter fun other =>
      decide (other.folderHash = folderHashOf entry.path) :=
    List.mem_filter.mpr ⟨among, decide_eq_true hash⟩
  obtain ⟨first, rest, found⟩ := List.exists_cons_of_ne_nil (List.ne_nil_of_mem own)
  have leading := List.mem_filter.mp (found ▸ List.mem_cons_self : first ∈ _)
  obtain ⟨source, added, prepared⟩ := archive.exists_entry leading.1
  obtain ⟨named, _, hashed⟩ := prepare_path prepared
  refine ⟨source, added, hashed ▸ of_decide_eq_true leading.2, ?_⟩
  rw [listedFolder, found, ← named]
  rfl

/-- The files are listed as they were added exactly if no two folders share a hash and no file
stands below a root without a name. -/
theorem perm_listedAs :
    (entries.map fun entry => archive.listedAs entry.path).Perm (entries.map BuilderEntry.path) ↔
      (∀ entry ∈ entries, ¬IsRooted entry.path) ∧ ∀ first ∈ entries, ∀ second ∈ entries,
        folderHashOf first.path = folderHashOf second.path →
          folderOf first.path = folderOf second.path := by
  constructor
  · intro perm
    have listed {entry : BuilderEntry} (member : entry ∈ entries) :
        ∃ other ∈ entries, archive.listedAs other.path = entry.path :=
      List.mem_map.mp (perm.mem_iff.mpr (List.mem_map_of_mem member))
    have own {entry : BuilderEntry} (member : entry ∈ entries) :
        folderOf entry.path = listedFolder archive.files (folderHashOf entry.path) := by
      obtain ⟨other, among, same⟩ := listed member
      obtain ⟨first, added, hashed, named⟩ := archive.exists_listedFolder among
      have folder : folderOf entry.path =
          listedFolder archive.files (folderHashOf other.path) := by
        rw [← same, listedAs, folderOf, splitFolder_joinPath (slash_notMem_fileName _)]
      have hash : folderHashOf entry.path = folderHashOf other.path := by
        rw [← hashed, folderHashOf, folderHashOf, folder, named]
      rw [hash, folder]
    refine ⟨fun entry member => ?_, fun first early second late same => ?_⟩
    · obtain ⟨other, _, same⟩ := listed member
      rw [← same]
      exact not_isRooted_joinPath (slash_notMem_fileName _)
    · rw [own early, own late, same]
  · rintro ⟨plain, apart⟩
    refine List.Perm.of_eq (List.map_congr_left fun entry member => ?_)
    obtain ⟨first, added, hashed, named⟩ := archive.exists_listedFolder member
    rw [listedAs, ← named, apart first added entry member hashed]
    exact joinPath_splitFolder (plain entry member)

/-- A written archive is opened by the reader of its family. -/
theorem fromMmap_eq : BsaArchive.fromMmap bytes =
    (Bethkit.Tes4.Tes4Archive.parse bytes archive.number).map .tes4 := by
  have front : ∃ rest, bytes = Bethkit.Tes4.magic ++ (u32ToLeBytes archive.number ++ rest) := by
    have behind : ∃ rest, header archive.number compress (embedsNames version embedNames)
        archive.files = Bethkit.Tes4.magic ++ (u32ToLeBytes archive.number ++ rest) := ⟨_, rfl⟩
    obtain ⟨rest, same⟩ := behind
    refine ⟨rest ++ (archive.directory ++ archive.tail), archive.bytes_parts.trans ?_⟩
    rw [same, List.append_assoc, List.append_assoc]
  obtain ⟨rest, same⟩ := front
  exact fromMmap_of_front same

/-- The paths that a written archive lists. -/
theorem fromMmap_entries (normal : ∀ entry ∈ entries, IsNormal entry.path)
    (short : ∀ entry ∈ entries, (folderOf entry.path).length ≤ 254) :
    ∃ opened, BsaArchive.fromMmap bytes = .ok opened ∧
      (opened.entries.map ArchiveEntry.path).Perm
        (entries.map fun entry => archive.listedAs entry.path) := by
  have parts : ∀ file ∈ archive.files, IsNormal file.folderName ∧ IsNormal file.fileName ∧
      file.folderName.length ≤ 254 := by
    intro file member
    obtain ⟨entry, added, readied⟩ := archive.exists_entry member
    obtain ⟨named, called, _⟩ := prepare_path readied
    rw [named, called]
    exact ⟨(isNormal_parts (normal entry added)).1, (isNormal_parts (normal entry added)).2, short entry added⟩
  have named : Bethkit.Tes4.readFileNames bytes archive.files.length
      (36 + archive.directory.length) =
        .ok ((archive.files.map FileEntry.fileName).map normalisePath) := by
    have read := @Bethkit.Tes4.readFileNames_names (archive.files.map FileEntry.fileName)
      (fun name member zero => by
        obtain ⟨file, among, rfl⟩ := List.mem_map.mp member
        exact ((parts file among).2.1 0 zero).1 rfl)
      (fun name member => by
        obtain ⟨file, among, rfl⟩ := List.mem_map.mp member
        exact (parts file among).2.1.text)
      (header archive.number compress (embedsNames version embedNames) archive.files ++
        archive.directory) (archive.files.flatMap FileEntry.stored)
    rw [List.length_append, archive.length_header, List.length_map, List.flatMap_map,
      List.append_assoc] at read
    rw [← read]
    exact congrArg (Bethkit.Tes4.readFileNames · _ _) archive.bytes_parts
  have parsed := archive.parse_eq (fun file member => (parts file member).2.2)
    (fun file member => (parts file member).1.text) named
  refine ⟨_, by rw [archive.fromMmap_eq, parsed]; rfl, ?_⟩
  have listed : ∀ file ∈ archive.files, joinPath
      (normalisePath (listedFolder archive.files file.folderHash)) (normalisePath file.fileName) =
        joinPath (listedFolder archive.files file.folderHash) file.fileName := by
    intro file member
    obtain ⟨entry, added, readied⟩ := archive.exists_entry member
    obtain ⟨first, among, _, folder⟩ := archive.exists_listedFolder added
    rw [(parts file member).2.1.normalisePath, (prepare_path readied).2.2, ← folder,
      (isNormal_parts (normal first among)).1.normalisePath]
  have paths : (((archive.raws.zip ((archive.files.map FileEntry.fileName).map normalisePath)).map
      fun file => file.1.entry compress file.2).map ArchiveEntry.path) =
        archive.files.map fun file =>
          joinPath (listedFolder archive.files file.folderHash) file.fileName := by
    have numbered {β : Type} (read : FileEntry → β) :
        archive.files.map read = archive.files.zipIdx.map fun file => read file.1 := by
      conv_lhs => rw [← List.zipIdx_map_fst 0 archive.files]
      exact List.map_map
    rw [← List.map_congr_left listed, List.map_map, List.map_map, numbered, numbered, raws,
      List.zip_map', List.map_map]
    rfl
  have sources : (archive.prepared.map fun file =>
      joinPath (listedFolder archive.files file.folderHash) file.fileName) =
        entries.map fun entry => archive.listedAs entry.path := by
    rw [← List.forall₂_eq_eq_eq, List.forall₂_map_left_iff, List.forall₂_map_right_iff]
    refine (mapM_eq_ok.mp archive.prepared_eq).flip.imp fun file entry readied => ?_
    obtain ⟨_, called, hashed⟩ := prepare_path readied
    rw [called, hashed]
    rfl
  show (((archive.raws.zip _).map _).map ArchiveEntry.path).Perm _
  rw [paths, ← sources]
  exact (List.perm_insertionSort _ _).map _

end WrittenArchive

end Tes4

/-- What is added to a writer for a file. -/
def builderEntry (file : Bytes × Bytes) : BuilderEntry := ⟨normalisePath file.1, file.2, none⟩

/-- A writer packs the normalised files. -/
theorem BsaWriter.packing_eq (version : BsaVersion) (compress embed : Bool)
    (files : List (Bytes × Bytes)) :
    BsaWriter.packing version compress embed files =
      ⟨version, compress, embed, files.map builderEntry⟩ := by
  have added (writer : BsaWriter) : files.foldl (fun writer file => writer.add file.1 file.2) writer =
      { writer with entries := writer.entries ++ files.map builderEntry } := by
    induction files generalizing writer with
    | nil => simp
    | cons file files rest =>
      rw [List.foldl_cons, rest]
      simp [BsaWriter.add, builderEntry]
  rw [packing, added]
  rfl

/-- Every version but the first is written by one writer. -/
theorem BsaWriter.nonempty_writtenArchive {codecs : ArchiveCodecs} {version : BsaVersion}
    (family : version ≠ .tes3) {compress embed : Bool} {files : List (Bytes × Bytes)}
    {bytes : Bytes}
    (written : (BsaWriter.packing version compress embed files).writeTo codecs = .ok bytes) :
    Nonempty (WrittenArchive codecs version compress embed (files.map builderEntry) bytes) := by
  rw [BsaWriter.packing_eq] at written
  cases version with
  | tes3 => exact absurd rfl family
  | tes4 | fo3 | sse => exact Tes4.nonempty_writtenArchive written

/-- What an archive with short folder names lists. -/
theorem lists_iff_perm {codecs : ArchiveCodecs} {version : BsaVersion} {compress embed : Bool}
    {files : List (Bytes × Bytes)} {bytes : Bytes}
    (archive : WrittenArchive codecs version compress embed (files.map builderEntry) bytes)
    (ascii : ∀ file ∈ files, IsAsciiPath file.1)
    (short : ∀ file ∈ files, (folderOf (normalisePath file.1)).length ≤ 254) :
    Lists bytes files ↔ ((files.map builderEntry).map fun entry => archive.listedAs entry.path).Perm
      ((files.map builderEntry).map BuilderEntry.path) := by
  obtain ⟨opened, reads, listed⟩ := archive.fromMmap_entries
    (List.forall_mem_map.mpr fun file member => (ascii file member).normal)
    (List.forall_mem_map.mpr short)
  have paths : (files.map builderEntry).map BuilderEntry.path =
      files.map fun file => normalisePath file.1 := List.map_map
  rw [paths]
  constructor
  · rintro ⟨other, again, same⟩
    obtain rfl := Except.ok.inj (reads.symm.trans again)
    exact listed.symm.trans same
  · intro same
    exact ⟨opened, reads, listed.trans same⟩

/-- A written archive with short folder names lists the files that were packed into it exactly if
no two folders share a hash and no file stands below a root without a name. -/
theorem lists_iff {codecs : ArchiveCodecs} {version : BsaVersion} (family : version ≠ .tes3)
    {compress embed : Bool} {files : List (Bytes × Bytes)} {bytes : Bytes}
    (ascii : ∀ file ∈ files, IsAsciiPath file.1)
    (short : ∀ file ∈ files, (folderOf (normalisePath file.1)).length ≤ 254)
    (written : (BsaWriter.packing version compress embed files).writeTo codecs = .ok bytes) :
    Lists bytes files ↔ (∀ file ∈ files, ¬IsRooted (normalisePath file.1)) ∧
      ∀ first ∈ files, ∀ second ∈ files,
        folderHashOf (normalisePath first.1) = folderHashOf (normalisePath second.1) →
          folderOf (normalisePath first.1) = folderOf (normalisePath second.1) := by
  obtain ⟨archive⟩ := BsaWriter.nonempty_writtenArchive family written
  rw [lists_iff_perm archive ascii short, archive.perm_listedAs]
  simp only [List.forall_mem_map]
  exact Iff.rfl

/-- A writer that succeeds has written something. -/
theorem exists_written {codecs : ArchiveCodecs} {writer : BsaWriter}
    (success : (writer.writeTo codecs).isOk) : ∃ bytes, writer.writeTo codecs = .ok bytes := by
  cases written : writer.writeTo codecs with
  | error error =>
    rw [written] at success
    cases success
  | ok bytes => exact ⟨bytes, rfl⟩

/-- Two files in one folder and one in none. -/
def plainFiles : List (Bytes × Bytes) :=
  [(strAsBytes "Meshes\\a.nif", [1]), (strAsBytes "readme", []), (strAsBytes "meshes/b", [2])]

/-- An archive lists its plain files. -/
theorem lists_plainFiles : ∃ bytes,
    (BsaWriter.packing .sse false true plainFiles).writeTo storingCodecs = .ok bytes ∧
      Lists bytes plainFiles := by
  obtain ⟨bytes, written⟩ := @exists_written storingCodecs
    (BsaWriter.packing .sse false true plainFiles) (by decide +kernel)
  exact ⟨bytes, written, (lists_iff (by decide) (by decide +kernel) (by decide +kernel) written).mpr
    (by decide +kernel)⟩

/-- Two files in folders with one hash. -/
def collidingFiles : List (Bytes × Bytes) :=
  [(strAsBytes "matvvlves/a", [1]), (strAsBytes "mzeutsfes/b", [2])]

/-- One of two files in folders with one hash is listed under the folder of the other. -/
theorem not_lists_collidingFiles : ∃ bytes,
    (BsaWriter.packing .tes4 false false collidingFiles).writeTo storingCodecs = .ok bytes ∧
      ¬Lists bytes collidingFiles := by
  obtain ⟨bytes, written⟩ := @exists_written storingCodecs
    (BsaWriter.packing .tes4 false false collidingFiles) (by decide +kernel)
  obtain ⟨archive⟩ := BsaWriter.nonempty_writtenArchive (by decide) written
  refine ⟨bytes, written, fun lists => ?_⟩
  rw [lists_iff_perm archive (by decide +kernel) (by decide +kernel), archive.perm_listedAs] at lists
  have same := lists.2 (builderEntry (strAsBytes "matvvlves/a", [1])) List.mem_cons_self
    (builderEntry (strAsBytes "mzeutsfes/b", [2])) (List.mem_cons_of_mem _ List.mem_cons_self)
    (by decide +kernel)
  exact absurd same (by decide +kernel)

end Write

end Bethkit
