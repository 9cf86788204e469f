import Bethkit.Spec.Renaming
import Bethkit.Lib.Filling

/-!
# The renaming of `eslify`

`eslify` gives the FormIDs with the file index of the plugin consecutive light FormIDs. It is a
renaming of the writer; whether the renaming keeps references apart and leaves everything else
alone depends on a few values that the writer does not look at.
-/

namespace Bethkit

open Lib

/-- The light FormID of the record at a place of the iteration order. -/
def lightFid (eslMin : UInt32) (place : Nat) : UInt32 := 0xFE000000 ||| (eslMin + UInt32.ofNat place)

/-- A light FormID is a word above `0xFE000000` as long as the object ID has 12 bits. -/
theorem toNat_lightFid {eslMin : UInt32} {place : Nat} (fits : eslMin.toNat + place < 2 ^ 12) :
    (lightFid eslMin place).toNat = 0xFE * 2 ^ 24 + (eslMin.toNat + place) := by
  have object : (eslMin + UInt32.ofNat place).toNat = eslMin.toNat + place := by
    rw [UInt32.toNat_add, UInt32.toNat_ofNat']
    omega
  have index : (0xFE000000 : UInt32).toNat = 0xFE <<< 24 := rfl
  rw [lightFid, UInt32.toNat_or, index, object, ← Nat.shiftLeft_add_eq_or_of_lt, Nat.shiftLeft_eq]
  omega

/-- The table of new FormIDs numbers the old ones. -/
theorem collectRemap_eq (eslMin : UInt32) (oldFids : List UInt32) :
    collectRemap eslMin oldFids = numbered (lightFid eslMin) oldFids := rfl

/-- Replacing the words of a table is renaming by the table. -/
theorem remapFormIdsInBytes_eq (remap : FormIdRemap) (data : Bytes) :
    remapFormIdsInBytes remap data = renameWords (fun word => (remap.lookup word).getD word) data := by
  fun_induction remapFormIdsInBytes remap data with
  | case1 a b c d rest ih =>
    rw [renameWords, ih]
    cases remap.lookup (u32FromLeBytes [a, b, c, d]) with
    | none => rw [Option.getD_none, u32ToLeBytes_fromLeBytes [a, b, c, d] rfl]
    | some newFid => rfl
  | case2 data short =>
    rw [renameWords]
    exact short

/-- Applying a table to a group is renaming by the table. -/
theorem applyFidRemapInGroup_eq (remap : FormIdRemap) (group : WritableGroup) :
    applyFidRemapInGroup remap group =
      renameGroup (fun word => (remap.lookup word).getD word) group := by
  have record : applyFidRemapInRecord remap =
      renameRecord fun word => (remap.lookup word).getD word := by
    funext record
    rw [applyFidRemapInRecord, renameRecord, WritableRecord.mk.injEq]
    refine ⟨rfl, rfl, ?_, rfl, ?_⟩
    · cases remap.lookup record.formId.val <;> rfl
    · simp only [remapFormIdsInBytes_eq]
  rw [applyFidRemapInGroup, renameGroup, record]

/-- The number of light object IDs of a game. -/
theorem lightCapacity (ctx : GameContext) :
    (ctx.lightMaxObjectId - ctx.lightMinObjectId + 1).toNat + ctx.lightMinObjectId.toNat =
      ctx.lightMaxObjectId.toNat + 1 := by
  obtain ⟨game⟩ := ctx
  cases game <;> rfl

namespace PluginWriter

/-- The FormIDs with the file index that `eslify` looks for, in iteration order. -/
def indexedIds (writer : PluginWriter) : List UInt32 :=
  (ownedRecords writer.groups writer.masterCount).map (·.formId.val)

/-- A record of the plugin: its file index is the number of masters and its FormID is not null. -/
def OwnsRecord (writer : PluginWriter) (record : WritableRecord) : Prop :=
  record.formId.fileIndex.toNat = writer.header.masters.length ∧ record.formId ≠ .NULL

/-- The new value of a word. -/
def eslified (writer : PluginWriter) (word : UInt32) : UInt32 :=
  (writer.eslifyRemap.lookup word).getD word

/-- A value is the FormID of a record with the file index of the plugin. -/
theorem mem_indexedIds {writer : PluginWriter} {word : UInt32} :
    word ∈ writer.indexedIds ↔ ∃ record ∈ writer.records,
      record.formId.fileIndex = writer.masterCount ∧ record.formId.val = word := by
  simp only [indexedIds, ownedRecords, records, List.mem_map, List.mem_filter, decide_eq_true_eq,
    and_assoc]

/-- The FormIDs of records occur. -/
theorem Occurs.formId {writer : PluginWriter} {record : WritableRecord}
    (among : record ∈ writer.records) : writer.Occurs record.formId.val :=
  ⟨record, among, List.mem_cons_self⟩

/-- The last record with a FormID decides its new value. -/
theorem eslified_isLast {writer : PluginWriter} {word : UInt32} {place : Nat}
    (last : IsLast writer.indexedIds word place) :
    writer.eslified word = lightFid writer.ctx.lightMinObjectId place := by
  rw [eslified, eslifyRemap, collectRemap_eq, ← indexedIds, lookup_numbered_isLast _ last,
    Option.getD_some]

/-- Every other value stays. -/
theorem eslified_of_notMem {writer : PluginWriter} {word : UInt32}
    (absent : word ∉ writer.indexedIds) : writer.eslified word = word := by
  rw [eslified, eslifyRemap, collectRemap_eq, ← indexedIds, lookup_numbered_of_notMem _ absent,
    Option.getD_none]

/-- `eslify` succeeds when the game has light plugins and the records fit, and then it is a
renaming. -/
theorem eslify_eq_ok {writer next : PluginWriter} :
    writer.eslify = .ok next ↔ writer.ctx.supportsLight = true ∧
      writer.indexedIds.length ≤
        (writer.ctx.lightMaxObjectId - writer.ctx.lightMinObjectId + 1).toNat ∧
      next = writer.renamed writer.eslified := by
  have groups : applyFidRemap writer.groups writer.eslifyRemap =
      writer.groups.map (renameGroup writer.eslified) :=
    List.map_congr_left fun group _ => applyFidRemapInGroup_eq writer.eslifyRemap group
  have count : countNewRecords writer.groups writer.masterCount = writer.indexedIds.length := by
    rw [indexedIds, List.length_map, countNewRecords]
  unfold eslify
  dsimp only
  rw [count, groups]
  by_cases light : writer.ctx.supportsLight
  · rw [light, Bool.not_true, if_neg Bool.false_ne_true]
    by_cases room : writer.indexedIds.length ≤
        (writer.ctx.lightMaxObjectId - writer.ctx.lightMinObjectId + 1).toNat
    · rw [if_neg (Nat.not_lt.mpr room), Except.ok.injEq]
      exact ⟨fun same => ⟨rfl, room, same.symm⟩, fun same => same.2.2.symm⟩
    · rw [if_pos (Nat.lt_of_not_le room)]
      exact ⟨fun same => absurd same (by simp), fun same => absurd same.2.1 room⟩
  · rw [Bool.eq_false_iff.mpr light, Bool.not_false, if_pos rfl]
    exact ⟨fun same => absurd same (by simp), fun same => absurd same.1 (by simp)⟩

/-- A place of the list has an object ID in the range of the game. -/
theorem place_le {writer next : PluginWriter} (done : writer.eslify = .ok next) {place : Nat}
    (inside : place < writer.indexedIds.length) :
    writer.ctx.lightMinObjectId.toNat + place ≤ writer.ctx.lightMaxObjectId.toNat := by
  have room := (eslify_eq_ok.mp done).2.1
  have capacity := lightCapacity writer.ctx
  omega

/-- The new FormID of an assigned place as a number. -/
theorem toNat_lightFid_place {writer next : PluginWriter} (done : writer.eslify = .ok next)
    {place : Nat} (inside : place < writer.indexedIds.length) :
    (lightFid writer.ctx.lightMinObjectId place).toNat =
      0xFE * 2 ^ 24 + (writer.ctx.lightMinObjectId.toNat + place) := by
  have low := place_le done inside
  have top : writer.ctx.lightMaxObjectId.toNat = 0xFFF := rfl
  exact toNat_lightFid (by omega)

/-- Assigned places have different FormIDs. -/
theorem lightFid_inj {writer next : PluginWriter} (done : writer.eslify = .ok next)
    {left right : Nat} (inside : left < writer.indexedIds.length)
    (inside' : right < writer.indexedIds.length)
    (same : lightFid writer.ctx.lightMinObjectId left =
      lightFid writer.ctx.lightMinObjectId right) : left = right := by
  have words := congrArg UInt32.toNat same
  rw [toNat_lightFid_place done inside, toNat_lightFid_place done inside'] at words
  omega

end PluginWriter

/-- A FormID of the light object range of a game, in the slot that `eslify` writes. -/
def FormId.InLightRange (ctx : GameContext) (id : FormId) : Prop :=
  id.fileIndex = 0xFE ∧ id.eslSlot = 0 ∧
    ctx.lightMinObjectId.toNat ≤ id.eslObject.toNat ∧
    id.eslObject.toNat ≤ ctx.lightMaxObjectId.toNat

namespace PluginWriter

/-- The new FormIDs are in the light object range. -/
theorem inLightRange_lightFid {writer next : PluginWriter} (done : writer.eslify = .ok next)
    {place : Nat} (inside : place < writer.indexedIds.length) :
    (⟨lightFid writer.ctx.lightMinObjectId place⟩ : FormId).InLightRange writer.ctx := by
  have word := toNat_lightFid_place done inside
  have low := place_le done inside
  have top : writer.ctx.lightMaxObjectId.toNat = 0xFFF := rfl
  refine ⟨?_, ?_, ?_, ?_⟩
  · rw [← UInt8.toNat_inj, FormId.toNat_fileIndex, word]
    change _ = 0xFE
    omega
  · rw [← UInt16.toNat_inj, FormId.toNat_eslSlot, word]
    change _ = 0
    omega
  · rw [FormId.toNat_eslObject, word]
    omega
  · rw [FormId.toNat_eslObject, word]
    omega

/-- What a rewrite of FormIDs has to do: keep equal and different values equal and different, give
the records of the plugin light FormIDs, and leave every other value alone. -/
structure KeepsReferences (writer : PluginWriter) (rename : UInt32 → UInt32) : Prop where
  /-- Values are equal after the rewrite exactly when they were before. -/
  apart : ∀ left right, writer.Occurs left → writer.Occurs right →
    (rename left = rename right ↔ left = right)
  /-- A record of the plugin gets a FormID of the light object range. -/
  owned : ∀ record ∈ writer.records, writer.OwnsRecord record →
    (⟨rename record.formId.val⟩ : FormId).InLightRange writer.ctx
  /-- Every value that is not the FormID of a record of the plugin is unchanged. -/
  others : ∀ word, writer.Occurs word →
    (∀ record ∈ writer.records, writer.OwnsRecord record → record.formId.val ≠ word) →
    rename word = word

/-- The values that `eslify` cannot tell apart are absent. -/
structure Separated (writer : PluginWriter) : Prop where
  /-- Without masters no record has the null FormID. -/
  null : writer.header.masters = [] → 0 ∉ writer.indexedIds
  /-- With more masters than a byte counts, every record with the wrapped index has already the
  FormID that it would get. -/
  wrapped : 256 ≤ writer.header.masters.length → ∀ word place,
    IsLast writer.indexedIds word place → word = lightFid writer.ctx.lightMinObjectId place
  /-- No value that stays is a FormID that another one gets. -/
  fresh : ∀ word, writer.Occurs word → word ∉ writer.indexedIds → ∀ key place,
    IsLast writer.indexedIds key place → word ≠ lightFid writer.ctx.lightMinObjectId place

/-- Only the values that occur matter. -/
theorem KeepsReferences.congr {writer : PluginWriter} {left right : UInt32 → UInt32}
    (keeps : writer.KeepsReferences left)
    (same : ∀ word, writer.Occurs word → left word = right word) :
    writer.KeepsReferences right where
  apart first second occurs occurs' := by
    rw [← same first occurs, ← same second occurs']
    exact keeps.apart first second occurs occurs'
  owned record among own := by
    rw [← same _ (.formId among)]
    exact keeps.owned record among own
  others word occurs strange := by
    rw [← same word occurs]
    exact keeps.others word occurs strange

/-- A FormID with the index that `eslify` looks for belongs to the plugin, is null, or there are
too many masters. -/
theorem owned_or {writer : PluginWriter} {record : WritableRecord}
    (index : record.formId.fileIndex = writer.masterCount) :
    writer.OwnsRecord record ∨ (writer.header.masters = [] ∧ record.formId = .NULL) ∨
      256 ≤ writer.header.masters.length := by
  by_cases wide : 256 ≤ writer.header.masters.length
  · exact .inr (.inr wide)
  · have count : record.formId.fileIndex.toNat = writer.header.masters.length := by
      rw [index, masterCount, UInt8.toNat_ofNat']
      omega
    by_cases null : record.formId = .NULL
    · refine .inr (.inl ⟨List.eq_nil_of_length_eq_zero ?_, null⟩)
      rw [← count, null]
      rfl
    · exact .inl ⟨count, null⟩

/-- The FormID of a record of the plugin is one of those that are rewritten. -/
theorem mem_indexedIds_of_ownsRecord {writer : PluginWriter} {record : WritableRecord}
    (among : record ∈ writer.records) (own : writer.OwnsRecord record) :
    record.formId.val ∈ writer.indexedIds := by
  refine mem_indexedIds.mpr ⟨record, among, ?_, rfl⟩
  rw [masterCount, ← own.1, UInt8.ofNat_toNat]

/-- Where the rewrite keeps references, the values that `eslify` confuses are absent. -/
theorem separated_of_keepsReferences {writer next : PluginWriter}
    (done : writer.eslify = .ok next) (keeps : writer.KeepsReferences writer.eslified) :
    writer.Separated where
  null none among := by
    obtain ⟨place, last⟩ := exists_isLast among
    obtain ⟨record, found, _, zero⟩ := mem_indexedIds.mp among
    have occurs : writer.Occurs 0 := zero ▸ Occurs.formId found
    have stays := keeps.others 0 occurs fun other _ own same =>
      own.2 (show other.formId = ⟨0⟩ by rw [← same])
    rw [eslified_isLast last] at stays
    have word := toNat_lightFid_place done last.lt_length
    rw [stays] at word
    have zero : (0 : UInt32).toNat = 0 := rfl
    omega
  wrapped wide word place last := by
    obtain ⟨record, found, _, same⟩ := mem_indexedIds.mp last.mem
    have stays := keeps.others word (same ▸ Occurs.formId found) fun other _ own _ => by
      have small := other.formId.fileIndex.toNat_lt
      have count := own.1
      omega
    rw [← stays, eslified_isLast last]
  fresh word occurs absent key place last same := by
    obtain ⟨record, found, _, own⟩ := mem_indexedIds.mp last.mem
    have equal := (keeps.apart word key occurs (own ▸ Occurs.formId found)).mp (by
      rw [eslified_of_notMem absent, eslified_isLast last, same])
    exact absent (equal ▸ last.mem)

/-- Where the confused values are absent, the rewrite keeps references. -/
theorem keepsReferences_of_separated {writer next : PluginWriter}
    (done : writer.eslify = .ok next) (separated : writer.Separated) :
    writer.KeepsReferences writer.eslified where
  apart left right occurs occurs' := by
    refine ⟨fun same => ?_, congrArg _⟩
    by_cases among : left ∈ writer.indexedIds
    · obtain ⟨place, last⟩ := exists_isLast among
      rw [eslified_isLast last] at same
      by_cases among' : right ∈ writer.indexedIds
      · obtain ⟨place', last'⟩ := exists_isLast among'
        rw [eslified_isLast last'] at same
        obtain rfl := lightFid_inj done last.lt_length last'.lt_length same
        exact last.key_unique last'
      · rw [eslified_of_notMem among'] at same
        exact absurd same.symm (separated.fresh right occurs' among' left place last)
    · rw [eslified_of_notMem among] at same
      by_cases among' : right ∈ writer.indexedIds
      · obtain ⟨place', last'⟩ := exists_isLast among'
        rw [eslified_isLast last'] at same
        exact absurd same (separated.fresh left occurs among right place' last')
      · rwa [eslified_of_notMem among'] at same
  owned record among own := by
    obtain ⟨place, last⟩ := exists_isLast (mem_indexedIds_of_ownsRecord among own)
    rw [eslified_isLast last]
    exact inLightRange_lightFid done last.lt_length
  others word occurs strange := by
    by_cases among : word ∈ writer.indexedIds
    · obtain ⟨record, found, index, same⟩ := mem_indexedIds.mp among
      obtain ⟨place, last⟩ := exists_isLast among
      rcases owned_or index with own | ⟨none, null⟩ | wide
      · exact absurd same (strange record found own)
      · have zero : word = 0 := by rw [← same, null, FormId.NULL]
        exact absurd (zero ▸ among) (separated.null none)
      · rw [eslified_isLast last, ← separated.wrapped wide word place last]
    · exact eslified_of_notMem among

/-- A successful `eslify` rewrites the FormIDs and nothing else, and the rewrite keeps the
references exactly when the values that it confuses are absent. -/
theorem eslify_keepsReferences (writer next : PluginWriter) (done : writer.eslify = .ok next) :
    (∃ rename, next = writer.renamed rename ∧ writer.KeepsReferences rename) ↔
      writer.Separated := by
  obtain ⟨-, -, whole⟩ := eslify_eq_ok.mp done
  constructor
  · rintro ⟨rename, same, keeps⟩
    refine separated_of_keepsReferences done (keeps.congr fun word occurs => ?_)
    exact eq_of_renamed_eq (same.symm.trans whole) occurs
  · intro separated
    exact ⟨writer.eslified, whole, keepsReferences_of_separated done separated⟩

end PluginWriter

/-- A Fallout 4 writer with one record and no masters. -/
def oneRecordWriter (id : UInt32) : PluginWriter :=
  (PluginWriter.new .fallout4 0x3F733333).addGroup
    ⟨⟨Signature.EDID.bytes, 0⟩, [.leaf ⟨.EDID, .empty, ⟨id⟩, 44, []⟩]⟩

/-- Its record. -/
theorem records_oneRecordWriter (id : UInt32) :
    (oneRecordWriter id).records = [⟨.EDID, .empty, ⟨id⟩, 44, []⟩] := by
  simp [PluginWriter.records, oneRecordWriter, PluginWriter.addGroup, PluginWriter.new,
    iterWritableRecords, RoseTree.drain_start]

/-- One record fits into the light object range. -/
theorem eslify_oneRecordWriter (id : UInt32) : (oneRecordWriter id).eslify =
    .ok ((oneRecordWriter id).renamed (oneRecordWriter id).eslified) := by
  have count : (oneRecordWriter id).indexedIds.length ≤ 1 := by
    have all := List.length_filter_le (fun record : WritableRecord =>
      decide (record.formId.fileIndex = (oneRecordWriter id).masterCount))
      (oneRecordWriter id).records
    rw [records_oneRecordWriter, List.length_singleton, ← records_oneRecordWriter] at all
    rwa [PluginWriter.indexedIds, List.length_map]
  have capacity := lightCapacity (oneRecordWriter id).ctx
  have low : (oneRecordWriter id).ctx.lightMinObjectId.toNat = 0x800 := rfl
  have top : (oneRecordWriter id).ctx.lightMaxObjectId.toNat = 0xFFF := rfl
  exact PluginWriter.eslify_eq_ok.mpr ⟨rfl, by omega, rfl⟩

/-- A record with the file index 0 is taken for one of the plugin. -/
theorem mem_indexedIds_oneRecordWriter {id : UInt32} (index : (⟨id⟩ : FormId).fileIndex = 0) :
    id ∈ (oneRecordWriter id).indexedIds := by
  have among : (⟨.EDID, .empty, ⟨id⟩, 44, []⟩ : WritableRecord) ∈ (oneRecordWriter id).records := by
    rw [records_oneRecordWriter]
    exact List.mem_singleton_self _
  have count : (oneRecordWriter id).masterCount = 0 := rfl
  exact PluginWriter.mem_indexedIds.mpr ⟨_, among, by rw [count, ← index], rfl⟩

/-- A record that refers to nothing keeps its references. -/
theorem eslify_keepsReferences_oneRecordWriter : ∃ next,
    (oneRecordWriter 0x800).eslify = .ok next ∧
      ∃ rename, next = (oneRecordWriter 0x800).renamed rename ∧
        (oneRecordWriter 0x800).KeepsReferences rename := by
  refine ⟨_, eslify_oneRecordWriter 0x800,
    (PluginWriter.eslify_keepsReferences _ _ (eslify_oneRecordWriter 0x800)).mpr ⟨?_, ?_, ?_⟩⟩
  · intro _ among
    obtain ⟨record, found, -, zero⟩ := PluginWriter.mem_indexedIds.mp among
    rw [records_oneRecordWriter] at found
    rw [List.mem_singleton.mp found] at zero
    exact absurd zero (by decide)
  · intro wide
    have none : (oneRecordWriter 0x800).header.masters.length = 0 := rfl
    omega
  · intro word occurs absent
    obtain ⟨record, found, inside⟩ := occurs
    rw [records_oneRecordWriter] at found
    rw [List.mem_singleton.mp found] at inside
    rw [List.mem_singleton.mp inside] at absent
    exact absurd (mem_indexedIds_oneRecordWriter (by decide)) absent

/-- Without masters the null FormID is rewritten. -/
theorem exists_null_rewritten : ∃ writer next, PluginWriter.eslify writer = .ok next ∧
    ¬∃ rename, next = writer.renamed rename ∧ writer.KeepsReferences rename := by
  have done := eslify_oneRecordWriter 0
  obtain ⟨-, -, whole⟩ := PluginWriter.eslify_eq_ok.mp done
  refine ⟨_, _, done, ?_⟩
  rintro ⟨rename, same, keeps⟩
  have original := keeps.congr fun word occurs =>
    PluginWriter.eq_of_renamed_eq (same.symm.trans whole) occurs
  have separated := PluginWriter.separated_of_keepsReferences done original
  exact separated.null rfl (mem_indexedIds_oneRecordWriter (by decide))

end Bethkit
