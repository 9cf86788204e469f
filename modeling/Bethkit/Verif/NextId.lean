import Bethkit.Verif.Eslify
import Bethkit.Verif.HedrCounters

/-!
# The next object ID of a written file

The writer computes the next object ID from the records whose file index is the master count.
After `eslify` the plugin's records have light FormIDs instead, so the computed value need not
be above them. When it is depends on the records that still have the file index.
-/

namespace Bethkit

open Lib

/-- The object ID as the game reads it: 12 bits of a light FormID, 24 bits of another one. -/
def FormId.gameObjectId (id : FormId) : UInt32 :=
  if id.fileIndex = 0xFE then id.eslObject.toUInt32 else id.objectId

/-- The next object ID in the bytes of a file of the writer: the HEDR is the first subrecord. -/
def hedrNextObjectId (bytes : Bytes) : UInt32 := u32FromLeBytes (bytes.slice 38 42)

namespace PluginWriter

/-- A FormID of the plugin itself: its file index is the number of masters, or the plugin is light
and it is a light FormID of the slot that `eslify` writes. -/
def Owns (writer : PluginWriter) (id : FormId) : Prop :=
  id.fileIndex.toNat = writer.header.masters.length ∨
    writer.lightFlagSet = true ∧ id.fileIndex = 0xFE ∧ id.eslSlot = 0

/-- Every light FormID of the plugin is at most the highest object ID among the records with the
file index of the plugin, or below `0x800` when there is no such record. -/
def LightBelow (writer : PluginWriter) : Prop :=
  writer.lightFlagSet = true → ∀ record ∈ writer.records,
    record.formId.fileIndex = 0xFE → record.formId.eslSlot = 0 →
      (∃ other ∈ writer.records, other.formId.fileIndex = writer.masterCount ∧
          record.formId.eslObject.toNat ≤ other.formId.objectId.toNat) ∨
        (∀ other ∈ writer.records, other.formId.fileIndex ≠ writer.masterCount) ∧
          record.formId.eslObject.toNat < 0x800

/-- The next object ID stands at a fixed place of a written file. -/
theorem hedrNextObjectId_eq {writer : PluginWriter} {bytes : Bytes}
    (written : writer.writeToVec = .ok bytes) :
    hedrNextObjectId bytes = nextObjectId writer.groups writer.masterCount := by
  obtain rfl := Except.ok.inj written
  have hedr : (WritableSubRecord.mk .HEDR writer.hedrData).writeTo =
      Signature.HEDR.bytes.val ++ u16ToLeBytes 12 ++ writer.hedrData := by
    have length : writer.hedrData.length = 12 := by simp [hedrData]
    simp [WritableSubRecord.writeTo, length]
  have first : writer.tes4SubRecords =
      ⟨.HEDR, writer.hedrData⟩ :: writer.tes4SubRecords.tail := rfl
  have split : ∃ front back : Bytes, front.length = 38 ∧
      writer.writeTes4 ++ writer.groups.flatMap WritableGroup.writeTo =
        front ++ (u32ToLeBytes (nextObjectId writer.groups writer.masterCount) ++ back) := by
    refine ⟨writer.ctx.headerSignature.bytes.val ++ u32ToLeBytes (UInt32.ofNat
      (writer.tes4SubRecords.flatMap WritableSubRecord.writeTo).length) ++
      u32ToLeBytes writer.tes4Flags.bits ++ u32ToLeBytes 0 ++ u32ToLeBytes 0 ++ u16ToLeBytes 0 ++
      u16ToLeBytes 0 ++ Signature.HEDR.bytes.val ++ u16ToLeBytes 12 ++
      u32ToLeBytes writer.header.version ++
      u32ToLeBytes (UInt32.ofNat (countAllRecords writer.groups)),
      writer.tes4SubRecords.tail.flatMap WritableSubRecord.writeTo ++
        writer.groups.flatMap WritableGroup.writeTo, ?_, ?_⟩
    · simp [writer.ctx.headerSignature.bytes.property, Signature.HEDR.bytes.property]
    · have data : writer.tes4SubRecords.flatMap WritableSubRecord.writeTo =
          Signature.HEDR.bytes.val ++ u16ToLeBytes 12 ++ writer.hedrData ++
            writer.tes4SubRecords.tail.flatMap WritableSubRecord.writeTo := by
        rw [first, List.flatMap_cons, hedr, List.tail_cons]
      unfold writeTes4
      dsimp only
      generalize (writer.tes4SubRecords.flatMap WritableSubRecord.writeTo).length = size
      rw [data, hedrData]
      simp only [List.append_assoc]
  obtain ⟨front, back, length, whole⟩ := split
  have slice := Bytes.slice_append front
    (u32ToLeBytes (nextObjectId writer.groups writer.masterCount)) back
  rw [length, length_u32ToLeBytes] at slice
  rw [hedrNextObjectId, whole, slice, u32FromLeBytes_toLeBytes]

/-- The maximum of machine words is one of them and not below any of them. -/
theorem max?_spec {words : List UInt32} {top : UInt32} (highest : words.max? = some top) :
    top ∈ words ∧ ∀ word ∈ words, word.toNat ≤ top.toNat := by
  cases words with
  | nil => simp at highest
  | cons first words =>
    rw [List.max?_cons', Option.some_inj] at highest
    subst highest
    induction words generalizing first with
    | nil => simp
    | cons second words ih =>
      obtain ⟨among, above⟩ := ih (max first second)
      have larger := above _ List.mem_cons_self
      rw [toNat_max] at larger
      have either : max first second = first ∨ max first second = second := by
        by_cases below : first ≤ second
        · exact .inr (if_pos below)
        · exact .inl (if_neg below)
      rw [List.foldl_cons]
      refine ⟨?_, fun word found => ?_⟩
      · rcases List.mem_cons.mp among with same | later
        · rcases either with left | right
          · exact List.mem_cons.mpr (.inl (same.trans left))
          · exact List.mem_cons.mpr (.inr (List.mem_cons.mpr (.inl (same.trans right))))
        · exact List.mem_cons_of_mem _ (List.mem_cons_of_mem _ later)
      · rcases List.mem_cons.mp found with rfl | found
        · omega
        · rcases List.mem_cons.mp found with rfl | later
          · omega
          · exact above word (List.mem_cons_of_mem _ later)

/-- A number is below the next object ID when it is at most an owned object ID, or below the first
one when there are none. -/
theorem lt_nextObjectId_iff (writer : PluginWriter) (number : Nat) :
    number < (nextObjectId writer.groups writer.masterCount).toNat ↔
      (∃ other ∈ writer.records, other.formId.fileIndex = writer.masterCount ∧
          number ≤ other.formId.objectId.toNat) ∨
        (∀ other ∈ writer.records, other.formId.fileIndex ≠ writer.masterCount) ∧
          number < 0x800 := by
  have owned (record : WritableRecord) : record ∈ ownedRecords writer.groups writer.masterCount ↔
      record ∈ writer.records ∧ record.formId.fileIndex = writer.masterCount := by
    rw [ownedRecords, List.mem_filter, decide_eq_true_eq]
    rfl
  unfold nextObjectId
  cases top : ((ownedRecords writer.groups writer.masterCount).map (·.formId.objectId)).max? with
  | none =>
    have empty : ownedRecords writer.groups writer.masterCount = [] := by
      simpa using List.max?_eq_none_iff.mp top
    have absent : ∀ other ∈ writer.records, other.formId.fileIndex ≠ writer.masterCount := by
      intro other among own
      have found := (owned other).mpr ⟨among, own⟩
      rw [empty] at found
      exact List.not_mem_nil found
    constructor
    · exact fun below => .inr ⟨absent, below⟩
    · rintro (⟨other, among, own, _⟩ | ⟨_, below⟩)
      · exact absurd own (absent other among)
      · exact below
  | some id =>
    obtain ⟨found, highest⟩ := max?_spec top
    obtain ⟨record, among, rfl⟩ := List.mem_map.mp found
    obtain ⟨inside, own⟩ := (owned record).mp among
    have low := record.formId.objectId_lt
    have one : (1 : UInt32).toNat = 1 := rfl
    have successor : (record.formId.objectId + 1).toNat = record.formId.objectId.toNat + 1 := by
      rw [UInt32.toNat_add, one]
      omega
    dsimp only
    rw [successor, Nat.lt_succ_iff]
    constructor
    · exact fun below => .inl ⟨record, inside, own, below⟩
    · rintro (⟨other, inside', own', below⟩ | ⟨absent, _⟩)
      · have higher := highest _ (List.mem_map_of_mem ((owned other).mpr ⟨inside', own'⟩))
        exact Nat.le_trans below higher
      · exact absurd own (absent record inside)

/-- The light object ID is part of the object ID. -/
theorem eslObject_le (id : FormId) : id.eslObject.toNat ≤ id.objectId.toNat := by
  rw [id.toNat_eslObject, id.toNat_objectId]
  omega

/-- A FormID whose file index is the number of masters has the index that the writer looks for. -/
theorem fileIndex_eq_masterCount {writer : PluginWriter} {id : FormId}
    (own : id.fileIndex.toNat = writer.header.masters.length) :
    id.fileIndex = writer.masterCount := by
  rw [masterCount, ← own, UInt8.ofNat_toNat]

/-- In every state of the writer the written next object ID is above the object ID of every record
of the plugin exactly when the light FormIDs of the plugin are low. -/
theorem hedrNextObjectId_above (writer : PluginWriter) (bytes : Bytes)
    (written : writer.writeToVec = .ok bytes) :
    (∀ record ∈ writer.records, writer.Owns record.formId →
      record.formId.gameObjectId < hedrNextObjectId bytes) ↔ writer.LightBelow := by
  rw [hedrNextObjectId_eq written]
  have light (id : FormId) (index : id.fileIndex = 0xFE) :
      id.gameObjectId.toNat = id.eslObject.toNat := by
    rw [FormId.gameObjectId, if_pos index]
    rfl
  constructor
  · intro above flagged record among index slot
    have below := above record among (.inr ⟨flagged, index, slot⟩)
    rw [UInt32.lt_iff_toNat_lt, light _ index] at below
    exact (lt_nextObjectId_iff writer _).mp below
  · intro low record among owns
    rw [UInt32.lt_iff_toNat_lt]
    rcases owns with own | ⟨flagged, index, slot⟩
    · refine (lt_nextObjectId_iff writer _).mpr
        (.inl ⟨record, among, fileIndex_eq_masterCount own, ?_⟩)
      by_cases index : record.formId.fileIndex = 0xFE
      · rw [light _ index]
        exact eslObject_le record.formId
      · rw [FormId.gameObjectId, if_neg index]
    · rw [light _ index]
      exact (lt_nextObjectId_iff writer _).mpr (low flagged record among index slot)

end PluginWriter

/-- The writers that are built by adding masters and groups and by successful `eslify` calls. -/
inductive WriterRun (ctx : GameContext) (version : UInt32) : PluginWriter → Prop
  /-- A new writer. -/
  | new : WriterRun ctx version (.new ctx version)
  /-- One more master. -/
  | addMaster {writer : PluginWriter} (run : WriterRun ctx version writer) (name : String) :
      WriterRun ctx version (writer.addMaster name)
  /-- One more group. -/
  | addGroup {writer : PluginWriter} (run : WriterRun ctx version writer) (group : WritableGroup) :
      WriterRun ctx version (writer.addGroup group)
  /-- The plugin becomes light. -/
  | eslify {writer next : PluginWriter} (run : WriterRun ctx version writer)
      (done : writer.eslify = .ok next) : WriterRun ctx version next

/-- A file of a writer that has not become light. -/
theorem hedrNextObjectId_above_oneRecordWriter :
    ∃ bytes, (oneRecordWriter 0x800).writeToVec = .ok bytes ∧
      ∀ record ∈ (oneRecordWriter 0x800).records, (oneRecordWriter 0x800).Owns record.formId →
        record.formId.gameObjectId < hedrNextObjectId bytes := by
  refine ⟨_, rfl, (PluginWriter.hedrNextObjectId_above (oneRecordWriter 0x800) _ rfl).mpr ?_⟩
  exact fun flagged => absurd flagged (by decide)

/-- After `eslify` the only record has the object ID that is written as the next one. -/
theorem exists_nextObjectId_used : ∃ (writer : PluginWriter) (bytes : Bytes),
    WriterRun .fallout4 0x3F733333 writer ∧ writer.writeToVec = .ok bytes ∧
      ¬∀ record ∈ writer.records, writer.Owns record.formId →
        record.formId.gameObjectId < hedrNextObjectId bytes := by
  have done := eslify_oneRecordWriter 0x800
  have last : IsLast (oneRecordWriter 0x800).indexedIds 0x800 0 := by
    have only : (oneRecordWriter 0x800).indexedIds = [0x800] := by
      rw [PluginWriter.indexedIds, ownedRecords]
      change ((oneRecordWriter 0x800).records.filter _).map _ = _
      rw [records_oneRecordWriter]
      rfl
    rw [only]
    exact .snoc_self [] 0x800
  have records : ((oneRecordWriter 0x800).renamed (oneRecordWriter 0x800).eslified).records =
      [⟨.EDID, .empty, ⟨0xFE000800⟩, 44, []⟩] := by
    rw [PluginWriter.records_renamed, records_oneRecordWriter, List.map_singleton, renameRecord,
      PluginWriter.eslified_isLast last]
    rfl
  refine ⟨_, _, .eslify (.addGroup .new _) done, rfl, fun above => ?_⟩
  rw [PluginWriter.hedrNextObjectId_eq rfl, records] at above
  have below := above _ (List.mem_singleton_self _) (.inr ⟨rfl, by decide, by decide⟩)
  rw [UInt32.lt_iff_toNat_lt, PluginWriter.lt_nextObjectId_iff, records] at below
  rcases below with ⟨other, among, own, -⟩ | ⟨-, low⟩
  · rw [List.mem_singleton.mp among] at own
    exact absurd own (by decide)
  · exact absurd low (by decide)

end Bethkit
