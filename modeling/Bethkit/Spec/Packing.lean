import Bethkit.Archive.Bsa
import Bethkit.Archive.BsaWriter

/-!
# Packing files into an archive

What is expected of an archive: that it lists the files that were packed into it. Which paths the
archives can keep apart depends on the folders and on their hashes.
-/

namespace Bethkit

open Lib

/-- A path of visible ASCII characters. -/
def IsAsciiPath (path : Bytes) : Prop := ∀ byte ∈ path, byte ≠ 0 ∧ byte < 128

instance (path : Bytes) : Decidable (IsAsciiPath path) :=
  inferInstanceAs (Decidable (∀ byte ∈ path, byte ≠ 0 ∧ byte < 128))

/-- A file below a root without a name. -/
def IsRooted (path : Bytes) : Prop := ∃ name, 47 ∉ name ∧ path = 47 :: name

/-- A file below a root without a name has one slash, in front. -/
theorem isRooted_iff {path : Bytes} : IsRooted path ↔ path.head? = some 47 ∧ 47 ∉ path.tail := by
  cases path with
  | nil => simp [IsRooted]
  | cons first rest =>
    constructor
    · rintro ⟨name, plain, same⟩
      obtain ⟨rfl, rfl⟩ := List.cons.inj same
      exact ⟨rfl, plain⟩
    · rintro ⟨slash, plain⟩
      obtain rfl := Option.some.inj slash
      exact ⟨rest, plain, rfl⟩

instance (path : Bytes) : Decidable (IsRooted path) := decidable_of_iff' _ isRooted_iff

/-- A compression library that stores all data as it is. -/
def storingCodecs : ArchiveCodecs where
  compressZlib data := .ok data
  compressLz4Frame data := .ok data
  decompressZlib data _ := .ok data
  decompressLz4Frame data _ := .ok data

namespace Write

/-- The folder of a path. -/
def folderOf (path : Bytes) : Bytes := (Tes4.splitFolder path).1

/-- The hash of the folder of a path. -/
def folderHashOf (path : Bytes) : UInt64 :=
  hashTes4Dir ((folderOf path).map fun byte => if byte = 47 then 92 else byte)

/-- The hash of the name of a file. -/
def fileHashOf (path : Bytes) : UInt64 :=
  let name := Tes4.splitStemExt (Tes4.splitFolder path).2
  hashTes4File name.1 name.2

/-- A writer to which files were added: their paths and contents. -/
def BsaWriter.packing (version : BsaVersion) (compress embed : Bool) (files : List (Bytes × Bytes)) :
    BsaWriter :=
  files.foldl (fun writer file => writer.add file.1 file.2)
    (((BsaWriter.new version).withCompress compress).withEmbedNames embed)

/-- An archive file opens and lists the normalised paths of the files. -/
def Lists (bytes : Bytes) (files : List (Bytes × Bytes)) : Prop :=
  ∃ archive, BsaArchive.fromMmap bytes = .ok archive ∧
    (archive.entries.map ArchiveEntry.path).Perm (files.map fun file => normalisePath file.1)

/-- The order in which files are stored: by the hash of the folder, then by the hash of the name. -/
def StoredBefore (first second : Bytes × Bytes) : Prop :=
  folderHashOf (normalisePath first.1) < folderHashOf (normalisePath second.1) ∨
    folderHashOf (normalisePath first.1) = folderHashOf (normalisePath second.1) ∧
      fileHashOf (normalisePath first.1) ≤ fileHashOf (normalisePath second.1)

instance : DecidableRel StoredBefore := fun _ _ => inferInstanceAs (Decidable (_ ∨ _))

/-- The files in the order in which they are stored. -/
def storedOrder (files : List (Bytes × Bytes)) : List (Bytes × Bytes) :=
  files.insertionSort StoredBefore

/-- An archive file opens and every stored record extracts to the content of its file. -/
def Extracts (codecs : ArchiveCodecs) (bytes : Bytes) (files : List (Bytes × Bytes)) : Prop :=
  ∃ archive, BsaArchive.fromMmap bytes = .ok archive ∧
    ∀ idx (inside : idx < (storedOrder files).length),
      archive.extractByIndex codecs idx = .ok (storedOrder files)[idx].2

/-- Decompression undoes compression; the expected size is only a hint. -/
structure Inverts (codecs : ArchiveCodecs) : Prop where
  /-- zlib. -/
  zlib : ∀ data compressed, codecs.compressZlib data = .ok compressed →
    ∀ expected, codecs.decompressZlib compressed expected = .ok data
  /-- LZ4 frames. -/
  lz4Frame : ∀ data compressed, codecs.compressLz4Frame data = .ok compressed →
    ∀ expected, codecs.decompressLz4Frame compressed expected = .ok data

/-- Whether file names are embedded: only where the version has them. -/
def embedsNames (version : BsaVersion) (embed : Bool) : Bool :=
  embed && (version = .fo3 || version = .sse)

/-- What is stored for a file. -/
def storedBytes (codecs : ArchiveCodecs) (version : BsaVersion) (compress embed : Bool)
    (file : Bytes × Bytes) : Except BsaError Bytes :=
  let fileName := (Tes4.splitFolder (normalisePath file.1)).2
  (Tes4.payload codecs (version = .sse) compress file.2).map fun payload =>
    (if embedsNames version embed then Tes4.embedPrefix fileName else []) ++ payload

/-- A length that the size field of a record can hold: below 4 GiB, and without the bit that
inverts the compression. -/
def FitsSizeField (length : Nat) : Prop := length < 2 ^ 32 ∧ length.testBit 30 = false

instance (length : Nat) : Decidable (FitsSizeField length) :=
  inferInstanceAs (Decidable (_ ∧ _))

end Write

end Bethkit
