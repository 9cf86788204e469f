import Bethkit.Lib.Grouping
import Bethkit.Verif.ArchiveReads

/-!
# Folders of a written archive

The files are sorted by the hash of their folder, so the folders taken one after the other hold all
files in their order: hashes, sizes, offsets, names and data stand in the same order everywhere. A
folder has the name that its first file asks for.
-/

namespace Bethkit

open Lib

namespace Write.Tes4

open Bethkit.Tes4 (RawEntry readFolders readFolder folderBlock reads_readFolder
  reads_readFileRecord)

variable {files : List FileEntry}

/-- The folder under which the files with a folder hash are listed. -/
def listedFolder (files : List FileEntry) (hash : UInt64) : Bytes :=
  ((files.filter fun file => file.folderHash = hash).head?.map FileEntry.folderName).getD []

/-- The folders are the groups of the numbered files. -/
theorem groupFolders_eq (files : List FileEntry) : groupFolders files =
    collect (fun file : FileEntry × Nat => file.1.folderHash) (fun file => file.1.folderName)
      Prod.snd files.zipIdx := rfl

/-- A numbered list is filtered like the list. -/
theorem map_fst_filter_zipIdx (holds : FileEntry → Bool) (files : List FileEntry) (start : Nat) :
    ((files.zipIdx start).filter fun file => holds file.1).map Prod.fst = files.filter holds := by
  have numbered := List.filter_map (p := holds) (f := Prod.fst) (l := files.zipIdx start)
  rw [List.zipIdx_map_fst] at numbered
  exact numbered.symm

/-- The name and the files of a folder. -/
theorem mem_groupFolders {folder : UInt64 × Folder} (member : folder ∈ groupFolders files) :
    folder.2.1 = listedFolder files folder.1 ∧
      folder.2.2 =
        (files.zipIdx.filter fun file => decide (file.1.folderHash = folder.1)).map Prod.snd := by
  rw [groupFolders_eq, mem_collect] at member
  obtain ⟨first, found, same⟩ := Option.map_eq_some_iff.mp member
  have head := congrArg (Option.map Prod.fst) found
  rw [← List.head?_map, map_fst_filter_zipIdx fun file => decide (file.folderHash = folder.1)]
    at head
  rw [listedFolder, head, ← same]
  exact ⟨rfl, rfl⟩

/-- In sorted files no folder hash decreases. -/
theorem folderHash_sorted (sorted : files.Pairwise FileEntry.Before) :
    files.zipIdx.Pairwise fun first second =>
      compare second.1.folderHash first.1.folderHash ≠ .lt := by
  rw [← List.zipIdx_map_fst 0 files, List.pairwise_map] at sorted
  refine sorted.imp fun ordered less => ?_
  rw [Std.compare_eq_lt, UInt64.lt_iff_toNat_lt] at less
  rcases ordered with less' | ⟨same, _⟩
  · rw [UInt64.lt_iff_toNat_lt] at less'
    omega
  · rw [same] at less
    omega

/-- The folders taken one after the other hold all files in their order. -/
theorem flatMap_groupFolders {δ : Type} (sorted : files.Pairwise FileEntry.Before)
    (entry : Bytes → Nat → δ) :
    ((groupFolders files).flatMap fun folder => folder.2.2.map (entry folder.2.1)) =
      files.zipIdx.map fun file => entry (listedFolder files file.1.folderHash) file.2 := by
  have all : ((groupFolders files).flatMap fun folder =>
      files.zipIdx.filter fun file => decide (file.1.folderHash = folder.1)) = files.zipIdx := by
    rw [groupFolders_eq]
    exact flatMap_collect (folderHash_sorted sorted)
  conv_rhs => rw [← all, List.map_flatMap]
  refine List.flatMap_congr fun folder member => ?_
  obtain ⟨named, numbered⟩ := mem_groupFolders member
  rw [named, numbered, List.map_map]
  refine List.map_congr_left fun file own => ?_
  rw [of_decide_eq_true (List.mem_filter.mp own).2]
  rfl

/-- The folders number the files one after the other. -/
theorem flatMap_groupFolders_indices (sorted : files.Pairwise FileEntry.Before) :
    ((groupFolders files).flatMap fun folder => folder.2.2) = List.range' 0 files.length := by
  have all := flatMap_groupFolders sorted fun _ index => index
  simp only [List.map_id'] at all
  rw [all, ← List.zipIdx_map_snd 0 files]

/-- The record of the file with an index. -/
def recordAt (compress : Bool) (files : List FileEntry) (offsets : List UInt32) (index : Nat) :
    Bytes :=
  fileRecord ((files.map FileEntry.fileHash).getD index 0)
    ((files.map (rawSize compress)).getD index 0) (offsets.getD index 0)

/-- What is read from the record of a file, below the name of a folder. -/
def rawAt (compress : Bool) (files : List FileEntry) (offsets : List UInt32) (name : Bytes)
    (index : Nat) : RawEntry :=
  ⟨normalisePath name, (files.map (rawSize compress)).getD index 0, offsets.getD index 0⟩

variable {compress : Bool} {offsets : List UInt32}

/-- Consecutive numbers are paired with themselves. -/
theorem zipIdx_range' (start count : Nat) :
    (List.range' start count).zipIdx start = (List.range' start count).map fun index =>
      (index, index) := by
  induction count generalizing start with
  | zero => rfl
  | succ count rest => rw [List.range'_succ, List.zipIdx_cons, rest, List.map_cons]

/-- Where the folders number the files one after the other, both numbers of a file agree. -/
theorem folderBlocks_eq (folders : List (UInt64 × Folder)) {start count : Nat}
    (numbered : (folders.flatMap fun folder => folder.2.2) = List.range' start count) :
    folderBlocks compress files offsets folders start =
      folders.flatMap fun folder =>
        folderBlock folder.2.1 (folder.2.2.map (recordAt compress files offsets)) := by
  induction folders generalizing start count with
  | nil => rfl
  | cons folder folders rest =>
    rw [List.flatMap_cons] at numbered
    have long : folder.2.2.length ≤ count := by
      have lengths := congrArg List.length numbered
      rw [List.length_append, List.length_range'] at lengths
      omega
    have split : List.range' start count = List.range' start folder.2.2.length ++
        List.range' (start + folder.2.2.length) (count - folder.2.2.length) := by
      rw [List.range'_append_1, Nat.add_sub_cancel' long]
    rw [split] at numbered
    obtain ⟨own, later⟩ := List.append_inj numbered (by rw [List.length_range'])
    have paired : folder.2.2.zipIdx start = folder.2.2.map fun index => (index, index) := by
      have same := zipIdx_range' start folder.2.2.length
      rwa [← own] at same
    rw [folderBlocks, List.flatMap_cons, rest later, paired, List.flatMap_map]
    rfl

/-- The blocks of folders with short names are read. -/
theorem reads_readFolders {folders : List (UInt64 × Folder)}
    (short : ∀ folder ∈ folders, folder.2.1.length ≤ 254)
    (text : ∀ folder ∈ folders, (strFromUtf8 folder.2.1).isSome)
    (few : ∀ folder ∈ folders, folder.2.2.length < 2 ^ 32) :
    (readFolders (folders.map fun folder => UInt32.ofNat folder.2.2.length)).Reads
      (folders.flatMap fun folder =>
        folderBlock folder.2.1 (folder.2.2.map (recordAt compress files offsets)))
      (folders.flatMap fun folder =>
        folder.2.2.map (rawAt compress files offsets folder.2.1)) := by
  induction folders with
  | nil => exact .pure []
  | cons folder folders rest =>
    have member : folder ∈ folder :: folders := List.mem_cons_self
    have each : List.Forall₂ (Bethkit.Tes4.readFileRecord (normalisePath folder.2.1)).Reads
        (folder.2.2.map (recordAt compress files offsets))
        (folder.2.2.map (rawAt compress files offsets folder.2.1)) := by
      rw [List.forall₂_map_left_iff, List.forall₂_map_right_iff, List.forall₂_same]
      exact fun index _ => reads_readFileRecord _ _ _ _
    have first := reads_readFolder (short folder member) (text folder member)
      (by rw [List.length_map]; exact few folder member) each
    rw [List.length_map] at first
    have others := rest (fun other among => short other (List.mem_cons_of_mem _ among))
      (fun other among => text other (List.mem_cons_of_mem _ among))
      (fun other among => few other (List.mem_cons_of_mem _ among))
    exact first.bind (others.bind_nil (.pure _))

end Write.Tes4

end Bethkit
