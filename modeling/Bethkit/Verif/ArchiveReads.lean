import Bethkit.Lib.Outcome
import Bethkit.Lib.Reader
import Bethkit.Verif.ArchivePaths

/-!
# What the archive reader reads

Every run of bytes that the writer emits for a folder record, a file record or the block of a
folder is read back as what it was written for.
-/

namespace Bethkit

open Lib

/-- A 64-bit word occupies eight bytes. -/
@[simp]
theorem length_u64ToLeBytes (word : UInt64) : (u64ToLeBytes word).length = 8 := by
  simp [u64ToLeBytes]

/-- Bytes of a fixed number are read. -/
theorem reads_readArray {count : Nat} {bytes : Bytes} (sized : bytes.length = count) :
    (SliceCursor.readArray count).Reads bytes ⟨bytes, sized⟩ :=
  .of_exact (SliceCursor.exact_readArray count) rfl

/-- A slice is read. -/
theorem reads_readSlice (bytes : Bytes) : (SliceCursor.readSlice bytes.length).Reads bytes bytes :=
  .of_exact (SliceCursor.exact_readSlice bytes.length) ⟨rfl, rfl⟩

/-- A word is read. -/
theorem reads_readU32 (word : UInt32) : SliceCursor.readU32.Reads (u32ToLeBytes word) word :=
  .of_exact SliceCursor.exact_readU32 rfl

/-- A byte is read. -/
theorem reads_readU8 (byte : UInt8) : readU8.Reads [byte] byte :=
  (@reads_readArray 1 [byte] rfl).bind_nil (.pure byte)

namespace Tes4

open Write.Tes4

/-- The size and the offset of a file are read from its record. -/
theorem reads_readFileRecord (folder : Bytes) (hash : UInt64) (size offset : UInt32) :
    (readFileRecord folder).Reads (fileRecord hash size offset) ⟨folder, size, offset⟩ :=
  (reads_readArray (length_u64ToLeBytes hash)).bind <|
    (reads_readU32 size).bind <| (reads_readU32 offset).bind_nil (.pure _)

/-- The file count of a folder is read from its record. -/
theorem reads_readFolderRecord {version : BsaVersion} {folder : UInt64 × Folder} {offset : Nat}
    {bytes : Bytes} (written : folderRecord (version = .sse) folder offset = .ok bytes) :
    (readFolderRecord version).Reads bytes (UInt32.ofNat folder.2.2.length) := by
  have front (back : Bytes) : u64ToLeBytes folder.1 ++
      u32ToLeBytes (UInt32.ofNat folder.2.2.length) ++ back =
        u64ToLeBytes folder.1 ++ (u32ToLeBytes (UInt32.ofNat folder.2.2.length) ++ back) :=
    List.append_assoc _ _ _
  rw [folderRecord] at written
  by_cases sse : version = .sse
  · rw [if_pos (decide_eq_true sse)] at written
    obtain rfl := Except.ok.inj written
    rw [front, readFolderRecord]
    refine (reads_readArray (length_u64ToLeBytes _)).bind ((reads_readU32 _).bind ?_)
    rw [if_pos sse]
    exact (reads_readU32 0).bind <| (reads_readArray (length_u64ToLeBytes _)).bind_nil (.pure _)
  · rw [if_neg (by simpa using sse)] at written
    split at written
    · cases written
    · obtain rfl := Except.ok.inj written
      rw [front, readFolderRecord]
      refine (reads_readArray (length_u64ToLeBytes _)).bind ((reads_readU32 _).bind ?_)
      rw [if_neg sse]
      exact (reads_readU32 _).bind_nil (.pure _)

/-- The file counts of all folders are read from their records. -/
theorem reads_folderRecords {version : BsaVersion} {folders : List (UInt64 × Folder)}
    {offsets : List Nat} {bytes : Bytes}
    (written : folderRecords (version = .sse) folders offsets = .ok bytes)
    (placed : offsets.length = folders.length) :
    ((readFolderRecord version).times folders.length).Reads bytes
      (folders.map fun folder => UInt32.ofNat folder.2.2.length) := by
  induction folders generalizing offsets bytes with
  | nil =>
    rw [List.length_eq_zero_iff.mp placed] at written
    obtain rfl := Except.ok.inj written
    exact .pure []
  | cons folder folders rest =>
    cases offsets with
    | nil => cases placed
    | cons offset offsets =>
      obtain ⟨first, one, written⟩ := bind_eq_ok.mp written
      obtain ⟨others, more, written⟩ := bind_eq_ok.mp written
      obtain rfl := Except.ok.inj written
      exact (reads_readFolderRecord one).bind <|
        (rest more (Nat.succ.inj placed)).bind_nil (.pure _)

/-- A terminated folder name is read without its NUL. -/
theorem trimFolderName_concat (name : Bytes) : trimFolderName (name ++ [0]) = name := by
  rw [trimFolderName, List.getLast?_concat, if_pos rfl, List.dropLast_concat]

/-- The block of a folder, from its name and the runs of its records. -/
def folderBlock (name : Bytes) (records : List Bytes) : Bytes :=
  (UInt8.ofNat name.length + 1) :: (name ++ 0 :: records.flatten)

/-- The block of a folder with a short name is read. -/
theorem reads_readFolder {name : Bytes} {records : List Bytes} {raws : List RawEntry}
    (short : name.length ≤ 254) (text : (strFromUtf8 name).isSome)
    (few : records.length < 2 ^ 32)
    (each : List.Forall₂ (readFileRecord (normalisePath name)).Reads records raws) :
    (readFolder (UInt32.ofNat records.length)).Reads (folderBlock name records) raws := by
  have sized : (UInt8.ofNat name.length + 1).toNat = (name ++ [0]).length := by
    rw [UInt8.toNat_add, UInt8.toNat_ofNat', List.length_append, List.length_singleton]
    show (name.length % 256 + 1) % 256 = name.length + 1
    omega
  have counted : (UInt32.ofNat records.length).toNat = raws.length := by
    rw [UInt32.toNat_ofNat', ← each.length_eq]
    exact Nat.mod_eq_of_lt few
  have block : folderBlock name records =
      [UInt8.ofNat name.length + 1] ++ ((name ++ [0]) ++ ([] ++ records.flatten)) := by
    simp [folderBlock]
  have named : strFromUtf8Or "non-UTF-8 folder name" (trimFolderName (name ++ [0])) = .ok name := by
    rw [trimFolderName_concat]
    exact if_pos text
  rw [block, readFolder]
  refine ((reads_readU8 _).mapError BsaError.io).bind ?_
  rw [sized]
  refine ((reads_readSlice _).mapError BsaError.io).bind ?_
  rw [named]
  refine (Reader.Reads.lift name).bind ?_
  rw [counted]
  exact (Reader.Reads.times each).mapError BsaError.io

end Tes4

end Bethkit
