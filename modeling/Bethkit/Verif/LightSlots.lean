import Bethkit.Verif.CacheRun
import Bethkit.Verif.Eslify
import Bethkit.Verif.RoundTrip

/-!
# Written plugins in a load order

`eslify` writes FormIDs of slot 0, whatever slot the plugin will have, and a load order takes the
file index `0xFE` for a slot, whether or not the plugin is light. So the FormIDs of written
plugins resolve to their own plugins only in some load orders.
-/

namespace Bethkit

open Lib

/-- A plugin that was written, with `eslify` applied or not, and read again. -/
structure MadePlugin (inflate : Inflate) where
  /-- The filename of the plugin. -/
  name : String
  /-- The writer before `eslify`. -/
  writer : PluginWriter
  /-- Whether `eslify` was applied. -/
  light : Bool
  /-- The writer that wrote the file. -/
  final : PluginWriter
  /-- The plugin that was read. -/
  plugin : Plugin
  /-- Nothing was eslified before. -/
  fresh : writer.lightFlagSet = false
  /-- The final writer is the eslified one or the writer itself. -/
  made : light = true ∧ writer.eslify = .ok final ∨ light = false ∧ final = writer
  /-- The file can be read back. -/
  wellFormed : final.WellFormed
  /-- The plugin is what the file reads as. -/
  accepted : ∃ bytes, final.writeToVec = .ok bytes ∧
    Plugin.fromBytes inflate bytes final.ctx = .ok plugin

/-- The FormIDs, masters and kind of a plugin that was read from the file of a writer. -/
theorem PluginWriter.read_back {inflate : Inflate} {writer : PluginWriter}
    (wellFormed : writer.WellFormed) {bytes : Bytes} {plugin : Plugin}
    (written : writer.writeToVec = .ok bytes)
    (accepted : Plugin.fromBytes inflate bytes writer.ctx = .ok plugin) :
    plugin.records.map (·.header.formId) = writer.records.map (·.formId) ∧
      plugin.masters = writer.header.masters ∧
      plugin.kind = writer.ctx.pluginKindFromFlags writer.tes4Flags := by
  obtain ⟨bytes', plugin', written', accepted', tree, masters, -, -, -, flags⟩ :=
    writer.exists_plugin inflate wellFormed
  obtain rfl := Except.ok.inj (written.symm.trans written')
  obtain rfl := Except.ok.inj (accepted.symm.trans accepted')
  refine ⟨?_, masters, ?_⟩
  · have ids := congrArg (List.map RecordView.formId) (PluginWriter.records_view tree)
    rw [List.map_map, List.map_map] at ids
    exact ids
  · have ctx : plugin.ctx = writer.ctx := by
      unfold Plugin.fromBytes at accepted
      cases parsed : Plugin.parseBytes inflate writer.ctx (SliceCursor.new bytes) with
      | error reason =>
        rw [parsed] at accepted
        exact absurd accepted (by simp [Except.map])
      | ok result =>
        rw [parsed] at accepted
        rw [← Except.ok.inj accepted]
    rw [Plugin.kind, Record.pluginKind, flags, ctx]

namespace MadePlugin

variable {inflate : Inflate} (made : MadePlugin inflate)

/-- The plugin with its name. -/
def named : String × Plugin := (made.name, made.plugin)

/-- A record of the plugin that belonged to it before `eslify`. -/
def Owned (record : Record) : Prop :=
  ∃ (place : Nat) (old : WritableRecord), made.writer.records[place]? = some old ∧
    old.formId.fileIndex.toNat = made.writer.header.masters.length ∧
    made.plugin.records[place]? = some record

/-- Some record of the writer belongs to the plugin. -/
def HasOwned : Prop := ∃ record ∈ made.writer.records,
  record.formId.fileIndex.toNat = made.writer.header.masters.length

/-- The masters of the plugin are those of the writer. -/
theorem masters_eq : made.plugin.masters = made.writer.header.masters := by
  obtain ⟨bytes, written, accepted⟩ := made.accepted
  obtain ⟨-, masters, -⟩ := PluginWriter.read_back made.wellFormed written accepted
  rw [masters]
  rcases made.made with ⟨-, done⟩ | ⟨-, same⟩
  · rw [(PluginWriter.eslify_eq_ok.mp done).2.2]
    rfl
  · rw [same]

/-- The plugin is light exactly when `eslify` was applied. -/
theorem kind_eq : made.plugin.kind = if made.light then .light else .plugin := by
  obtain ⟨bytes, written, accepted⟩ := made.accepted
  obtain ⟨-, -, kind⟩ := PluginWriter.read_back made.wellFormed written accepted
  rw [kind]
  have flags (ctx : GameContext) (localized : Bool) :
      ctx.pluginKindFromFlags (if localized then RecordFlags.empty.union .LOCALIZED
        else .empty) = .plugin ∧
      (ctx.supportsLight = true → ctx.pluginKindFromFlags (if localized then
        (RecordFlags.empty.union ⟨ctx.lightFlag⟩).union .LOCALIZED
        else RecordFlags.empty.union ⟨ctx.lightFlag⟩) = .light) := by
    obtain ⟨game⟩ := ctx
    cases localized <;> cases game <;> decide
  rcases made.made with ⟨light, done⟩ | ⟨plain, same⟩
  · obtain ⟨supported, -, whole⟩ := PluginWriter.eslify_eq_ok.mp done
    rw [whole, if_pos light]
    exact (flags made.writer.ctx made.writer.localized).2 supported
  · rw [same, plain, if_neg Bool.false_ne_true, PluginWriter.tes4Flags, made.fresh]
    exact (flags made.writer.ctx made.writer.localized).1

/-- The FormIDs of the plugin are those of the writer, rewritten if `eslify` was applied. -/
theorem formId_eq {place : Nat} {old : WritableRecord} {record : Record}
    (before : made.writer.records[place]? = some old)
    (after : made.plugin.records[place]? = some record) :
    record.header.formId =
      if made.light then ⟨made.writer.eslified old.formId.val⟩ else old.formId := by
  obtain ⟨bytes, written, accepted⟩ := made.accepted
  obtain ⟨ids, -, -⟩ := PluginWriter.read_back made.wellFormed written accepted
  have same := congrArg (·[place]?) ids
  simp only [List.getElem?_map, after, Option.map_some] at same
  rcases made.made with ⟨light, done⟩ | ⟨plain, equal⟩
  · rw [(PluginWriter.eslify_eq_ok.mp done).2.2, PluginWriter.records_renamed,
      List.getElem?_map, before] at same
    rw [if_pos light]
    exact Option.some.inj same
  · rw [equal, before] at same
    rw [plain, if_neg Bool.false_ne_true]
    exact Option.some.inj same

/-- An owned record of an eslified plugin has a light FormID of slot 0. -/
theorem Owned.light {made : MadePlugin inflate} {record : Record} (owned : made.Owned record)
    (light : made.light = true) :
    record.header.formId.fileIndex = 0xFE ∧ record.header.formId.eslSlot = 0 := by
  obtain ⟨place, old, before, index, after⟩ := owned
  rcases made.made with ⟨-, done⟩ | ⟨plain, -⟩
  · have among : old ∈ made.writer.records := List.mem_of_getElem? before
    have found : old.formId.val ∈ made.writer.indexedIds :=
      PluginWriter.mem_indexedIds.mpr ⟨old, among, by
        rw [PluginWriter.masterCount, ← index, UInt8.ofNat_toNat], rfl⟩
    obtain ⟨number, last⟩ := exists_isLast found
    rw [made.formId_eq before after, if_pos light, PluginWriter.eslified_isLast last]
    obtain ⟨marked, slot, -⟩ := PluginWriter.inLightRange_lightFid done last.lt_length
    exact ⟨marked, slot⟩
  · exact absurd (light.symm.trans plain) (by decide)

/-- An owned record of another plugin has the index of the plugin itself. -/
theorem Owned.plain {made : MadePlugin inflate} {record : Record} (owned : made.Owned record)
    (plain : made.light = false) :
    record.header.formId.fileIndex.toNat = made.plugin.masters.length := by
  obtain ⟨place, old, before, index, after⟩ := owned
  rw [made.formId_eq before after, plain, if_neg Bool.false_ne_true, index, made.masters_eq]

/-- The plugin has as many records as the writer. -/
theorem length_records : made.plugin.records.length = made.writer.records.length := by
  obtain ⟨bytes, written, accepted⟩ := made.accepted
  obtain ⟨ids, -, -⟩ := PluginWriter.read_back made.wellFormed written accepted
  have size := congrArg List.length ids
  rw [List.length_map, List.length_map] at size
  rcases made.made with ⟨-, done⟩ | ⟨-, same⟩
  · rw [size, (PluginWriter.eslify_eq_ok.mp done).2.2, PluginWriter.records_renamed,
      List.length_map]
  · rw [size, same]

/-- A writer with an owned record leads to a plugin with one. -/
theorem exists_owned {made : MadePlugin inflate} (present : made.HasOwned) :
    ∃ record, made.Owned record := by
  obtain ⟨old, among, index⟩ := present
  obtain ⟨place, before⟩ := List.mem_iff_getElem?.mp among
  have inside := (List.getElem?_eq_some_iff.mp before).1
  rw [← made.length_records] at inside
  exact ⟨made.plugin.records[place], place, old, before, index, List.getElem?_eq_getElem inside⟩

/-- Only a writer with an owned record leads to a plugin with one. -/
theorem Owned.hasOwned {made : MadePlugin inflate} {record : Record} (owned : made.Owned record) :
    made.HasOwned := by
  obtain ⟨place, old, before, index, -⟩ := owned
  exact ⟨old, List.mem_of_getElem? before, index⟩

/-- What the FormID of a record of a made plugin resolves to in a load order. -/
def resolve (toLowercase : Lowercase) (order : LoadOrder) (record : Record) :
    Option GlobalFormId :=
  order.resolve toLowercase record.header.formId (toLowercase made.name) made.plugin.masters

end MadePlugin

section Runs

variable {inflate : Inflate} (toLowercase : Lowercase)

/-- The caches that adding made plugins in order leads to. -/
abbrev MadeRun (plugins : List (MadePlugin inflate)) : PluginCache → Prop :=
  CacheRun toLowercase (plugins.map MadePlugin.named)

/-- Every plugin is resolved, when it is added, as the owner of its records, and no two plugins
have a record in common. -/
structure ResolvesOwn (plugins : List (MadePlugin inflate)) : Prop where
  /-- An owned record resolves to its own plugin. -/
  own : ∀ before made after cache record, plugins = before ++ made :: after →
    MadeRun toLowercase (before ++ [made]) cache → made.Owned record →
    ∃ objectId, made.resolve toLowercase cache.loadOrder record =
      some ⟨toLowercase made.name, objectId⟩
  /-- Owned records of two plugins have different global FormIDs. -/
  apart : ∀ before first between second after cache cache' record record',
    plugins = before ++ first :: between ++ second :: after →
    MadeRun toLowercase (before ++ [first]) cache →
    MadeRun toLowercase (before ++ first :: between ++ [second]) cache' →
    first.Owned record → second.Owned record' →
    first.resolve toLowercase cache.loadOrder record ≠
      second.resolve toLowercase cache'.loadOrder record'

/-- At most the first light plugin has owned records, and no other plugin owns records with the
index of the light ones. -/
structure SlotsFit (plugins : List (MadePlugin inflate)) : Prop where
  /-- An eslified plugin with owned records comes before all other eslified ones. -/
  first : ∀ before made after, plugins = before ++ made :: after → made.light = true →
    made.HasOwned → ∀ other ∈ before, other.light = false
  /-- A plugin with 254 masters that is not eslified owns no records. -/
  index : ∀ made ∈ plugins, made.light = false → made.writer.header.masters.length = 254 →
    ¬made.HasOwned

variable {toLowercase} {plugins : List (MadePlugin inflate)} {cache : PluginCache}

/-- The first plugins of a run are a run. -/
theorem CacheRun.exists_before {before after : List (String × Plugin)} {cache : PluginCache}
    (run : CacheRun toLowercase (before ++ after) cache) :
    ∃ cache, CacheRun toLowercase before cache := by
  induction after using List.reverseRecOn generalizing cache with
  | nil => exact ⟨cache, by simpa using run⟩
  | append_singleton after last ih =>
    rw [← List.append_assoc] at run
    generalize whole : before ++ after ++ [last] = plugins at run
    cases run with
    | new => exact absurd whole (by simp)
    | add run name plugin done =>
      obtain ⟨rfl, -⟩ := List.append_inj' whole rfl
      exact ih run

/-- The light plugins of a run are the eslified ones. -/
theorem mem_lightPlaces {place : Nat} :
    place ∈ lightPlaces ((plugins.map MadePlugin.named).map fun plugin =>
      (plugin.1, plugin.2.kind)) ↔ ∃ made, plugins[place]? = some made ∧ made.light = true := by
  rw [lightPlaces, List.mem_findIdxs_iff_exists_getElem_pos]
  simp only [List.length_map, List.getElem_map, decide_eq_true_eq, MadePlugin.named,
    MadePlugin.kind_eq]
  constructor
  · rintro ⟨inside, light⟩
    refine ⟨plugins[place], List.getElem?_eq_getElem inside, ?_⟩
    by_contra plain
    rw [if_neg plain] at light
    exact absurd light (by decide)
  · rintro ⟨made, found, light⟩
    obtain ⟨inside, rfl⟩ := List.getElem?_eq_some_iff.mp found
    exact ⟨inside, by rw [if_pos light]⟩

/-- A record with a light FormID resolves, if at all, to an eslified plugin, and in slot 0 to the
first one. -/
theorem resolve_slot (run : MadeRun toLowercase plugins cache) (made : MadePlugin inflate)
    {record : Record} (index : record.header.formId.fileIndex = 0xFE) {gfid : GlobalFormId}
    (found : made.resolve toLowercase cache.loadOrder record = some gfid) :
    ∃ (place : Nat) (owner : MadePlugin inflate), plugins[place]? = some owner ∧
      owner.light = true ∧ gfid.pluginName = toLowercase owner.name ∧
      (record.header.formId.eslSlot = 0 → ∀ earlier other, plugins[earlier]? = some other →
        other.light = true → place ≤ earlier) := by
  rw [MadePlugin.resolve, run.registers.resolve_light index] at found
  obtain ⟨plugin, present, rfl⟩ := Option.map_eq_some_iff.mp found
  obtain ⟨place, slot, stands⟩ := Option.bind_eq_some_iff.mp present
  obtain ⟨owner, there, light⟩ := mem_lightPlaces.mp (List.mem_of_getElem? slot)
  rw [List.getElem?_map, List.getElem?_map, there, Option.map_some, Option.map_some,
    Option.some_inj] at stands
  refine ⟨place, owner, there, light, by rw [← stands]; rfl, fun zero earlier other at' light' => ?_⟩
  have among := mem_lightPlaces.mpr ⟨other, at', light'⟩
  obtain ⟨number, standing⟩ := List.mem_iff_getElem?.mp among
  have zero : record.header.formId.eslSlot.toNat = 0 := by rw [zero]; rfl
  rw [zero] at slot
  rcases Nat.eq_zero_or_pos number with rfl | positive
  · exact Nat.le_of_eq (Option.some.inj (slot.symm.trans standing))
  · obtain ⟨first, rfl⟩ := List.getElem?_eq_some_iff.mp slot
    obtain ⟨later, rfl⟩ := List.getElem?_eq_some_iff.mp standing
    exact Nat.le_of_lt (List.pairwise_iff_getElem.mp List.pairwise_findIdxs 0 number first later
      positive)

/-- Slot 0 resolves once there is an eslified plugin. -/
theorem exists_resolve_slot_zero (run : MadeRun toLowercase plugins cache)
    (made : MadePlugin inflate) {record : Record} (index : record.header.formId.fileIndex = 0xFE)
    (slot : record.header.formId.eslSlot = 0) {other : MadePlugin inflate}
    (among : other ∈ plugins) (light : other.light = true) :
    ∃ gfid, made.resolve toLowercase cache.loadOrder record = some gfid := by
  obtain ⟨place, there⟩ := List.mem_iff_getElem?.mp among
  have positive := List.length_pos_of_mem (mem_lightPlaces.mpr ⟨other, there, light⟩)
  obtain ⟨owner, stands, -⟩ := mem_lightPlaces.mp (List.getElem_mem positive)
  refine ⟨⟨toLowercase owner.name, record.header.formId.eslObject.toUInt32⟩, ?_⟩
  have zero : record.header.formId.eslSlot.toNat = 0 := by rw [slot]; rfl
  rw [MadePlugin.resolve, run.registers.resolve_light index, zero,
    List.getElem?_eq_getElem positive, Option.bind_some, List.getElem?_map, List.getElem?_map,
    stands]
  rfl

/-- Plugins with different names are told apart by their positions. -/
theorem place_unique (distinct : (plugins.map fun made => toLowercase made.name).Nodup)
    {left right : Nat} {made other : MadePlugin inflate} (here : plugins[left]? = some made)
    (there : plugins[right]? = some other)
    (same : toLowercase made.name = toLowercase other.name) : left = right := by
  have inside : left < (plugins.map fun made => toLowercase made.name).length := by
    rw [List.length_map]
    exact (List.getElem?_eq_some_iff.mp here).1
  refine (List.getElem?_inj inside distinct).mp ?_
  rw [List.getElem?_map, List.getElem?_map, here, there, Option.map_some, Option.map_some, same]

/-- Where the slots fit, an owned record resolves to its own plugin. -/
theorem SlotsFit.resolve (fits : SlotsFit plugins)
    (idempotent : ∀ name, toLowercase (toLowercase name) = toLowercase name)
    {before after : List (MadePlugin inflate)} {made : MadePlugin inflate}
    (whole : plugins = before ++ made :: after) (run : MadeRun toLowercase (before ++ [made]) cache)
    {record : Record} (owned : made.Owned record) :
    ∃ objectId, made.resolve toLowercase cache.loadOrder record =
      some ⟨toLowercase made.name, objectId⟩ := by
  by_cases light : made.light = true
  · obtain ⟨index, slot⟩ := owned.light light
    obtain ⟨gfid, found⟩ := exists_resolve_slot_zero run made index slot
      (List.mem_append_right before (List.mem_singleton_self made)) light
    obtain ⟨place, owner, there, bright, name, lowest⟩ := resolve_slot run made index found
    have last := lowest slot before.length made (List.getElem?_concat_length) light
    rcases Nat.lt_or_eq_of_le last with earlier | rfl
    · rw [List.getElem?_append_left earlier] at there
      have dark := fits.first before made after whole light owned.hasOwned owner
        (List.mem_of_getElem? there)
      exact absurd (bright.symm.trans dark) (by decide)
    · rw [List.getElem?_concat_length, Option.some_inj] at there
      exact ⟨gfid.objectId, found.trans (by rw [there, ← name])⟩
  · have plain : made.light = false := Bool.eq_false_iff.mpr light
    have own := owned.plain plain
    have regular : record.header.formId.fileIndex ≠ 0xFE := by
      intro marked
      have count : made.writer.header.masters.length = 254 := by
        rw [← made.masters_eq, ← own, marked]
        rfl
      have among : made ∈ plugins := by
        rw [whole]
        exact List.mem_append_right before List.mem_cons_self
      exact fits.index made among plain count owned.hasOwned
    exact ⟨_, by rw [MadePlugin.resolve, LoadOrder.resolve_own regular own, idempotent]⟩

/-- In every load order of plugins with different names, the owned records resolve to their own
plugins exactly when the slots fit. -/
theorem madeRun_resolvesOwn (inflate : Inflate) (toLowercase : Lowercase)
    (plugins : List (MadePlugin inflate)) (cache : PluginCache)
    (run : MadeRun toLowercase plugins cache)
    (distinct : (plugins.map fun made => toLowercase made.name).Nodup)
    (idempotent : ∀ name, toLowercase (toLowercase name) = toLowercase name) :
    ResolvesOwn toLowercase plugins ↔ SlotsFit plugins := by
  constructor
  · intro resolves
    -- Both clauses follow from the plugin that slot 0, or any other slot, resolves to.
    have owner {before after : List (MadePlugin inflate)} {made : MadePlugin inflate}
        (whole : plugins = before ++ made :: after) {record : Record} (owned : made.Owned record)
        (index : record.header.formId.fileIndex = 0xFE) : made.light = true ∧
          (record.header.formId.eslSlot = 0 → ∀ other ∈ before, other.light = false) := by
      have split : plugins.map MadePlugin.named = (before ++ [made]).map MadePlugin.named ++
          after.map MadePlugin.named := by
        rw [whole, ← List.map_append, List.append_assoc, List.singleton_append]
      rw [MadeRun, split] at run
      obtain ⟨early, front⟩ := CacheRun.exists_before run
      obtain ⟨objectId, found⟩ := resolves.own before made after early record whole front owned
      obtain ⟨place, other, there, light, name, lowest⟩ := resolve_slot front made index found
      have here : (before ++ [made])[before.length]? = some made := List.getElem?_concat_length
      have different : ((before ++ [made]).map fun made => toLowercase made.name).Nodup := by
        rw [whole, List.append_cons, List.map_append] at distinct
        exact List.Nodup.of_append_left distinct
      obtain rfl := place_unique different there here name.symm
      obtain rfl := Option.some.inj (here.symm.trans there)
      refine ⟨light, fun slot other among => Bool.eq_false_iff.mpr fun bright => ?_⟩
      obtain ⟨earlier, inside, rfl⟩ := List.mem_iff_getElem.mp among
      have below := lowest slot earlier before[earlier]
        (by rw [List.getElem?_append_left inside, List.getElem?_eq_getElem inside]) bright
      omega
    refine ⟨fun before made after whole light present => ?_, fun made among plain count present => ?_⟩
    · obtain ⟨record, owned⟩ := MadePlugin.exists_owned present
      obtain ⟨index, slot⟩ := owned.light light
      exact (owner whole owned index).2 slot
    · obtain ⟨record, owned⟩ := MadePlugin.exists_owned present
      obtain ⟨before, after, whole⟩ := List.append_of_mem among
      have own := owned.plain plain
      rw [made.masters_eq, count] at own
      have light := (owner whole owned (UInt8.toNat_inj.mp own)).1
      exact absurd (light.symm.trans plain) (by decide)
  · intro fits
    refine ⟨fun before made after cache record whole front owned =>
      fits.resolve idempotent whole front owned, ?_⟩
    intro before first between second after cache cache' record record' whole front front' owned
      owned' same
    have whole' : plugins = before ++ first :: (between ++ second :: after) := by
      rw [whole, List.append_assoc, List.cons_append]
    obtain ⟨objectId, found⟩ := fits.resolve idempotent whole' front owned
    obtain ⟨objectId', found'⟩ := fits.resolve idempotent whole front' owned'
    rw [found, found', Option.some_inj, GlobalFormId.mk.injEq] at same
    have here : plugins[before.length]? = some first := by
      rw [whole', List.getElem?_append_right (Nat.le_refl _), Nat.sub_self]
      rfl
    have there : plugins[(before ++ first :: between).length]? = some second := by
      rw [whole, List.getElem?_append_right (Nat.le_refl _), Nat.sub_self]
      rfl
    have equal := place_unique distinct here there same.1
    rw [List.length_append, List.length_cons] at equal
    omega

end Runs

/-- The ASCII part of the lower-case mapping, which is all that plain filenames need. -/
theorem toLower_idempotent (name : String) : name.toLower.toLower = name.toLower := by
  rw [String.toLower, String.toLower, String.map_map]
  congr 1
  exact funext Char.toLower_toLower_eq_toLower

/-- Renaming a writer with one record gives another one. -/
theorem renamed_oneRecordWriter (id : UInt32) (rename : UInt32 → UInt32) :
    (oneRecordWriter id).renamed rename =
      { oneRecordWriter (rename id) with lightFlagSet := true } := by
  simp [oneRecordWriter, PluginWriter.addGroup, PluginWriter.new, PluginWriter.renamed,
    renameGroup, renameRecord]

/-- A writer with one record can be read back. -/
theorem wellFormed_oneRecordWriter (id : UInt32) (light : Bool) :
    { oneRecordWriter id with lightFlagSet := light : PluginWriter }.WellFormed where
  masters _ found := absurd found List.not_mem_nil
  sized := by
    simp [oneRecordWriter, PluginWriter.addGroup, PluginWriter.new, PluginWriter.tes4SubRecords,
      WritableSubRecord.writeTo, PluginWriter.hedrData, Signature.HEDR]
  groups := by
    intro group found
    obtain rfl : group = _ := List.mem_singleton.mp found
    refine ⟨?_, ?_, ?_⟩
    · intro record inside
      obtain rfl : record = _ := by simpa [WritableGroup.toChild] using inside
      have typed : Signature.EDID ≠ .GRUP := by decide
      have plain : RecordFlags.empty.contains .COMPRESSED = false := by decide
      exact ⟨typed, plain, by simp, by simp [WritableRecord.dataBuf]⟩
    · simp [WritableGroup.toChild]
    · intro group inside
      obtain rfl : group = _ := by simpa [WritableGroup.toChild] using inside
      simp [WritableRecord.writeTo, WritableRecord.dataBuf, Signature.EDID]

/-- A light plugin with one record of its own. -/
theorem exists_lightPlugin (name : String) : ∃ made : MadePlugin refuseInflate,
    made.name = name ∧ made.light = true ∧ made.HasOwned ∧ made.plugin.records.length = 1 := by
  have done := eslify_oneRecordWriter 0x800
  have wellFormed : ((oneRecordWriter 0x800).renamed (oneRecordWriter 0x800).eslified).WellFormed := by
    rw [renamed_oneRecordWriter]
    exact wellFormed_oneRecordWriter _ true
  obtain ⟨bytes, plugin, written, accepted, -⟩ :=
    PluginWriter.exists_plugin refuseInflate _ wellFormed
  refine ⟨⟨name, oneRecordWriter 0x800, true, _, plugin, rfl, .inl ⟨rfl, done⟩, wellFormed,
    bytes, written, accepted⟩, rfl, rfl, ⟨⟨.EDID, .empty, ⟨0x800⟩, 44, []⟩, ?_, ?_⟩, ?_⟩
  · rw [records_oneRecordWriter]
    exact List.mem_singleton_self _
  · have own : (⟨0x800⟩ : FormId).fileIndex.toNat = 0 := by decide
    exact own
  · rw [MadePlugin.length_records, records_oneRecordWriter]
    rfl

/-- A light plugin can be added as long as there are slots. -/
theorem CacheRun.exists_addLight {toLowercase : Lowercase} {plugins : List (String × Plugin)}
    {cache : PluginCache} (run : CacheRun toLowercase plugins cache) (few : plugins.length < 0x1000)
    (name : String) {plugin : Plugin} (light : plugin.kind = .light) :
    ∃ next, CacheRun toLowercase (plugins ++ [(name, plugin)]) next := by
  have registers := run.registers
  have counter := registers.counter
  have most : (lightPlaces (plugins.map fun plugin => (plugin.1, plugin.2.kind))).length ≤
      plugins.length := by
    rw [lightPlaces, List.length_findIdxs]
    exact List.countP_le_length.trans (Nat.le_of_eq (List.length_map _))
  have room : ¬0xFFF < cache.loadOrder.lightSlotCounter := by
    have last : (0xFFF : UInt16).toNat = 0xFFF := rfl
    rw [UInt16.lt_iff_toNat_lt, last]
    omega
  obtain ⟨order, pushed⟩ : ∃ order,
      cache.loadOrder.push toLowercase name plugin.kind = .ok order := by
    rw [LoadOrder.push, if_pos light]
    exact ⟨_, if_neg room⟩
  exact ⟨_, .add run name plugin (PluginCache.add_eq_ok.mpr ⟨order, pushed, rfl⟩)⟩

/-- The only plugin of a load order. -/
theorem madeRun_resolvesOwn_alone : ∃ (made : MadePlugin refuseInflate) (cache : PluginCache),
    made.light = true ∧ made.HasOwned ∧ MadeRun String.toLower [made] cache ∧
      ResolvesOwn String.toLower [made] := by
  obtain ⟨made, -, light, present, -⟩ := exists_lightPlugin "a.esp"
  obtain ⟨cache, run⟩ := CacheRun.new.exists_addLight (by decide) made.name
    (made.kind_eq.trans (if_pos light))
  refine ⟨made, cache, light, present, run, (madeRun_resolvesOwn refuseInflate String.toLower [made]
    cache run (List.nodup_singleton _) toLower_idempotent).mpr ⟨?_, ?_⟩⟩
  · intro before other after whole _ _
    have size : 1 = (before ++ other :: after).length := congrArg List.length whole
    rw [List.length_append, List.length_cons] at size
    obtain rfl : before = [] := List.eq_nil_of_length_eq_zero (by omega)
    simp
  · intro other among plain _
    rw [List.mem_singleton.mp among] at plain
    exact absurd (light.symm.trans plain) (by decide)

/-- The second of two light plugins resolves as an override of the first one. -/
theorem exists_overridden : ∃ (plugins : List (MadePlugin refuseInflate)) (cache : PluginCache),
    MadeRun String.toLower plugins cache ∧
      (plugins.map fun made => made.name.toLower).Nodup ∧ ¬ResolvesOwn String.toLower plugins := by
  obtain ⟨first, named, light, -⟩ := exists_lightPlugin "a.esp"
  obtain ⟨second, named', light', present, -⟩ := exists_lightPlugin "b.esp"
  obtain ⟨early, run⟩ := CacheRun.new.exists_addLight (by decide) first.name
    (first.kind_eq.trans (if_pos light))
  obtain ⟨cache, run⟩ := run.exists_addLight (by simp) second.name
    (second.kind_eq.trans (if_pos light'))
  have different : ("a.esp".toLower) ≠ "b.esp".toLower := by
    intro same
    have letters := congrArg String.toList same
    rw [String.toLower, String.toLower, String.toList_map, String.toList_map] at letters
    exact absurd letters (by decide)
  refine ⟨[first, second], cache, run, by simp [named, named', different], fun resolves => ?_⟩
  obtain ⟨record, owned⟩ := MadePlugin.exists_owned present
  obtain ⟨objectId, found⟩ := resolves.own [first] second [] cache record rfl run owned
  obtain ⟨index, slot⟩ := owned.light light'
  obtain ⟨place, owner, there, -, name, lowest⟩ := resolve_slot
    (show MadeRun String.toLower [first, second] cache from run) second index found
  have zero := lowest slot 0 first rfl light
  obtain rfl : place = 0 := by omega
  obtain rfl : first = owner := Option.some.inj there
  rw [named, named'] at name
  exact different name.symm

end Bethkit
