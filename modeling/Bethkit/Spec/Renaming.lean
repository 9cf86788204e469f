import Bethkit.Core.Writer

/-!
# Renaming FormIDs

A renaming is a function of FormIDs that is applied to every place where the writer looks for
one: the record headers and the 4-byte-aligned words of the subrecords. Everything else stays as
it is, so two renamings have the same effect exactly when they agree on the values that occur.
-/

namespace Bethkit

open Lib

/-- The little-endian words at the 4-byte-aligned places of a payload. -/
def alignedWords : Bytes → List UInt32
  | a :: b :: c :: d :: rest => u32FromLeBytes [a, b, c, d] :: alignedWords rest
  | _ => []

/-- Rename the aligned words of a payload; the bytes behind them stay. -/
def renameWords (rename : UInt32 → UInt32) : Bytes → Bytes
  | a :: b :: c :: d :: rest =>
    u32ToLeBytes (rename (u32FromLeBytes [a, b, c, d])) ++ renameWords rename rest
  | rest => rest

/-- A payload is a sequence of words and at most three bytes behind them. -/
theorem wordInduction {holds : Bytes → Prop}
    (word : ∀ a b c d rest, holds rest → holds (a :: b :: c :: d :: rest))
    (short : ∀ data : Bytes, data.length < 4 → holds data) (data : Bytes) : holds data := by
  match data with
  | a :: b :: c :: d :: rest => exact word a b c d rest (wordInduction word short rest)
  | [] | [_] | [_, _] | [_, _, _] => exact short _ (by simp)

/-- Fewer than four bytes hold no word. -/
theorem alignedWords_short {data : Bytes} (short : data.length < 4) : alignedWords data = [] := by
  match data with
  | [] | [_] | [_, _] | [_, _, _] => rfl
  | _ :: _ :: _ :: _ :: _ =>
    simp only [List.length_cons] at short
    omega

/-- Fewer than four bytes are not renamed. -/
theorem renameWords_short (rename : UInt32 → UInt32) {data : Bytes} (short : data.length < 4) :
    renameWords rename data = data := by
  match data with
  | [] | [_] | [_, _] | [_, _, _] => rfl
  | _ :: _ :: _ :: _ :: _ =>
    simp only [List.length_cons] at short
    omega

/-- Rename the FormIDs of a record. -/
def renameRecord (rename : UInt32 → UInt32) (record : WritableRecord) : WritableRecord :=
  { record with
    formId := ⟨rename record.formId.val⟩
    subrecords := record.subrecords.map fun subrecord =>
      { subrecord with data := renameWords rename subrecord.data } }

/-- Rename the FormIDs of a group. -/
def renameGroup (rename : UInt32 → UInt32) (group : WritableGroup) : WritableGroup :=
  { group with children := group.children.map (RoseTree.map id (renameRecord rename)) }

/-- The values at which a renaming acts on a record. -/
def WritableRecord.formIdWords (record : WritableRecord) : List UInt32 :=
  record.formId.val :: record.subrecords.flatMap fun subrecord => alignedWords subrecord.data

/-- The words of a renamed payload are the renamed words. -/
theorem alignedWords_renameWords (rename : UInt32 → UInt32) (data : Bytes) :
    alignedWords (renameWords rename data) = (alignedWords data).map rename := by
  have read (word : UInt32) (rest : Bytes) :
      alignedWords (u32ToLeBytes word ++ rest) = word :: alignedWords rest := by
    obtain ⟨a, b, c, d, bytes⟩ : ∃ a b c d, u32ToLeBytes word = [a, b, c, d] := ⟨_, _, _, _, rfl⟩
    have back := u32FromLeBytes_toLeBytes word
    rw [bytes] at back
    simp only [bytes, List.cons_append, List.nil_append, alignedWords, back]
  induction data using wordInduction with
  | word a b c d rest ih => rw [renameWords, alignedWords, read, ih, List.map_cons]
  | short data short =>
    rw [renameWords_short rename short, alignedWords_short short, List.map_nil]

/-- A payload is renamed alike by two renamings exactly when they agree on its words. -/
theorem renameWords_inj (left right : UInt32 → UInt32) (data : Bytes) :
    renameWords left data = renameWords right data ↔
      ∀ word ∈ alignedWords data, left word = right word := by
  constructor
  · intro same
    have words := congrArg alignedWords same
    rwa [alignedWords_renameWords, alignedWords_renameWords, List.map_inj_left] at words
  · intro same
    induction data using wordInduction with
    | word a b c d rest ih =>
      rw [alignedWords] at same
      rw [renameWords, renameWords, same _ List.mem_cons_self,
        ih fun word found => same word (List.mem_cons_of_mem _ found)]
    | short data short => rw [renameWords_short left short, renameWords_short right short]

/-- A record is renamed alike by two renamings exactly when they agree on its words. -/
theorem renameRecord_inj (left right : UInt32 → UInt32) (record : WritableRecord) :
    renameRecord left record = renameRecord right record ↔
      ∀ word ∈ record.formIdWords, left word = right word := by
  have payloads : (record.subrecords.map fun subrecord : WritableSubRecord =>
      { subrecord with data := renameWords left subrecord.data }) =
      (record.subrecords.map fun subrecord : WritableSubRecord =>
        { subrecord with data := renameWords right subrecord.data }) ↔
      ∀ subrecord ∈ record.subrecords, ∀ word ∈ alignedWords subrecord.data,
        left word = right word := by
    rw [List.map_inj_left]
    refine forall₂_congr fun subrecord _ => ?_
    rw [← renameWords_inj, WritableSubRecord.mk.injEq, eq_self_iff_true, true_and]
  rw [renameRecord, renameRecord, WritableRecord.mk.injEq, payloads, FormId.mk.injEq,
    WritableRecord.formIdWords, List.forall_mem_cons]
  simp only [true_and, List.mem_flatMap, forall_exists_index, and_imp]
  constructor
  · rintro ⟨own, inner⟩
    exact ⟨own, fun word subrecord among found => inner subrecord among word found⟩
  · rintro ⟨own, inner⟩
    exact ⟨own, fun subrecord among word found => inner word subrecord among found⟩

/-- The records of a renamed group are the renamed records. -/
theorem iterWritableRecords_renameGroup (rename : UInt32 → UInt32) (group : WritableGroup) :
    iterWritableRecords (renameGroup rename group) =
      (iterWritableRecords group).map (renameRecord rename) := by
  rw [iterWritableRecords, iterWritableRecords, RoseTree.drain_start, RoseTree.drain_start,
    renameGroup, List.map_flatMap, List.flatMap_map]
  exact List.flatMap_congr fun child _ => RoseTree.leaves_map id (renameRecord rename) child

namespace PluginWriter

/-- The records of all groups. -/
def records (writer : PluginWriter) : List WritableRecord := writer.groups.flatMap iterWritableRecords

/-- The writer after a renaming that makes its plugin light. -/
def renamed (writer : PluginWriter) (rename : UInt32 → UInt32) : PluginWriter :=
  { writer with groups := writer.groups.map (renameGroup rename), lightFlagSet := true }

/-- A value stands in a record header or at an aligned place of a subrecord. -/
def Occurs (writer : PluginWriter) (word : UInt32) : Prop :=
  ∃ record ∈ writer.records, word ∈ record.formIdWords

/-- The records of a renamed writer are the renamed records. -/
theorem records_renamed (writer : PluginWriter) (rename : UInt32 → UInt32) :
    (writer.renamed rename).records = writer.records.map (renameRecord rename) := by
  rw [records, records, renamed, List.flatMap_map, List.map_flatMap]
  exact List.flatMap_congr fun group _ => iterWritableRecords_renameGroup rename group

/-- Renamings with the same effect agree on the values that occur. -/
theorem eq_of_renamed_eq {writer : PluginWriter} {left right : UInt32 → UInt32}
    (same : writer.renamed left = writer.renamed right) {word : UInt32}
    (occurs : writer.Occurs word) : left word = right word := by
  have records := congrArg PluginWriter.records same
  rw [records_renamed, records_renamed, List.map_inj_left] at records
  obtain ⟨record, among, found⟩ := occurs
  exact (renameRecord_inj left right record).mp (records record among) word found

end PluginWriter

end Bethkit
