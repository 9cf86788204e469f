import Bethkit.Lib.Buckets
import Bethkit.Lib.Filling
import Bethkit.Verif.CacheRun
import Bethkit.Verif.RoundTrip

/-!
# The indices of the plugin cache

Every run keeps the main index and the index by type in agreement, and the main index stores for
every global FormID the last record of the last plugin that defines it. The record that is found
again by the raw FormID is the first one of that plugin, which can have another type.
-/

namespace Bethkit

open Lib

namespace PluginCache

variable {toLowercase : Lowercase} {cache next : PluginCache}

/-- The two indices describe the same records. -/
def Indexed (cache : PluginCache) : Prop :=
  Classified IndexEntry.signature cache.byGlobalId cache.bySignature

/-- Indexing a record replaces its entry and moves it to the bucket of its type. -/
theorem indexRecord_eq (place : Nat) (cache : PluginCache) (gfid : GlobalFormId) (rawFid : FormId)
    (sig : Signature) : indexRecord place cache (gfid, rawFid, sig) = { cache with
      byGlobalId := cache.byGlobalId.insert gfid ⟨place, rawFid, sig⟩
      bySignature := rebucket IndexEntry.signature cache.byGlobalId cache.bySignature gfid
        ⟨place, rawFid, sig⟩ } := by
  unfold indexRecord rebucket withoutKey bucket
  dsimp only
  cases cache.byGlobalId.lookup gfid with
  | none => rfl
  | some old =>
    dsimp only
    cases cache.bySignature.lookup old.signature with
    | none => rfl
    | some sigList => rfl

/-- Indexing records keeps the indices in agreement. -/
theorem Indexed.foldl (indexed : cache.Indexed) (place : Nat)
    (found : List (GlobalFormId × FormId × Signature)) :
    (found.foldl (indexRecord place) cache).Indexed := by
  induction found generalizing cache with
  | nil => exact indexed
  | cons triple found ih =>
    obtain ⟨gfid, rawFid, sig⟩ := triple
    have step : (indexRecord place cache (gfid, rawFid, sig)).Indexed := by
      rw [indexRecord_eq]
      exact Classified.rebucket indexed gfid ⟨place, rawFid, sig⟩
    exact ih step

/-- A global FormID that is not among the records keeps its entry. -/
theorem lookup_foldl_of_absent (place : Nat) (cache : PluginCache) {gfid : GlobalFormId}
    {found : List (GlobalFormId × FormId × Signature)} (absent : ∀ triple ∈ found, triple.1 ≠ gfid) :
    (found.foldl (indexRecord place) cache).byGlobalId.lookup gfid =
      cache.byGlobalId.lookup gfid := by
  induction found generalizing cache with
  | nil => rfl
  | cons triple found ih =>
    obtain ⟨head, tail⟩ := List.forall_mem_cons.mp absent
    obtain ⟨other, rawFid, sig⟩ := triple
    rw [List.foldl_cons, ih _ tail, indexRecord_eq]
    exact AList.lookup_insert_ne (Ne.symm head)

/-- The last record of a global FormID has the entry. -/
theorem lookup_foldl_last (place : Nat) (cache : PluginCache) {gfid : GlobalFormId}
    (before after : List (GlobalFormId × FormId × Signature)) (rawFid : FormId) (sig : Signature)
    (last : ∀ triple ∈ after, triple.1 ≠ gfid) :
    ((before ++ (gfid, rawFid, sig) :: after).foldl (indexRecord place) cache).byGlobalId.lookup
      gfid = some ⟨place, rawFid, sig⟩ := by
  rw [List.foldl_append, List.foldl_cons, lookup_foldl_of_absent place _ last, indexRecord_eq]
  exact AList.lookup_insert _

/-- The records that `add` indexes are those of the plugin that are not null and resolve. -/
theorem mem_triples {order : LoadOrder} {name : String} {plugin : Plugin} {gfid : GlobalFormId}
    {rawFid : FormId} {sig : Signature} :
    (gfid, rawFid, sig) ∈ triples toLowercase order name plugin ↔ ∃ record ∈ plugin.records,
      record.header.formId.isNull = false ∧ record.header.formId = rawFid ∧
      record.header.signature = sig ∧
      order.resolve toLowercase rawFid name plugin.masters = some gfid := by
  simp only [triples, List.mem_filterMap, List.mem_filter, Bool.not_eq_true', Option.map_eq_some_iff,
    Prod.mk.injEq]
  constructor
  · rintro ⟨record, ⟨among, visible⟩, found, resolved, rfl, rfl, rfl⟩
    exact ⟨record, among, visible, rfl, rfl, resolved⟩
  · rintro ⟨record, among, visible, rfl, rfl, resolved⟩
    exact ⟨record, ⟨among, visible⟩, gfid, resolved, rfl, rfl, rfl⟩

/-- A raw FormID of a record finds a record with that FormID. -/
theorem exists_findRecord {plugin : Plugin} {record : Record} (among : record ∈ plugin.records) :
    ∃ first, plugin.findRecord record.header.formId = some first ∧ first ∈ plugin.records ∧
      first.header.formId = record.header.formId := by
  cases found : plugin.findRecord record.header.formId with
  | none =>
    have absent := List.find?_eq_none.mp found record among
    exact absurd (decide_eq_true rfl) absent
  | some first =>
    have same := List.find?_some found
    exact ⟨first, rfl, List.mem_of_find?_eq_some found, of_decide_eq_true same⟩

end PluginCache

namespace CacheRun

variable {toLowercase : Lowercase} {plugins : List (String × Plugin)} {cache : PluginCache}

/-- A sequence of plugins leads to one cache. -/
theorem unique {other : PluginCache} (run : CacheRun toLowercase plugins cache)
    (same : CacheRun toLowercase plugins other) : cache = other := by
  induction run generalizing other with
  | new =>
    generalize empty : ([] : List (String × Plugin)) = plugins at same
    cases same with
    | new => rfl
    | add run name plugin done => exact absurd empty (by simp)
  | add run name plugin done ih =>
    generalize whole : _ ++ [(name, plugin)] = plugins at same
    cases same with
    | new => exact absurd whole (by simp)
    | add run' name' plugin' done' =>
      obtain ⟨rfl, last⟩ := List.append_inj' whole rfl
      obtain ⟨rfl, rfl⟩ := Prod.mk.inj (List.singleton_inj.mp last)
      obtain rfl := ih run'
      exact Except.ok.inj (done.symm.trans done')

/-- In every cache the two indices describe the same records. -/
theorem indexed (run : CacheRun toLowercase plugins cache) : cache.Indexed := by
  induction run with
  | new => exact Classified.empty
  | add run name plugin done ih =>
    obtain ⟨order, -, rfl⟩ := PluginCache.add_eq_ok.mp done
    exact PluginCache.Indexed.foldl (show PluginCache.Indexed (PluginCache.register _ _ _ _) from ih)
      _ _

end CacheRun

section Winners

variable (toLowercase : Lowercase) (plugins : List (String × Plugin))

/-- The plugin at a place, with the cache that it was added to last. -/
def AddedAt (place : Nat) (name : String) (plugin : Plugin) (cache : PluginCache) : Prop :=
  plugins[place]? = some (name, plugin) ∧ CacheRun toLowercase (plugins.take (place + 1)) cache

/-- The plugin at a place has, when it is added, a record that resolves to a global FormID. -/
def Defines (place : Nat) (gfid : GlobalFormId) : Prop :=
  ∃ name plugin cache, AddedAt toLowercase plugins place name plugin cache ∧
    ∃ triple ∈ PluginCache.triples toLowercase cache.loadOrder (toLowercase name) plugin,
      triple.1 = gfid

/-- An entry is the last record of the last plugin that defines a global FormID. -/
def Wins (gfid : GlobalFormId) (entry : IndexEntry) : Prop :=
  (∃ name plugin cache before after,
    AddedAt toLowercase plugins entry.entryIndex name plugin cache ∧
    PluginCache.triples toLowercase cache.loadOrder (toLowercase name) plugin =
      before ++ (gfid, entry.rawFid, entry.signature) :: after ∧
    ∀ later ∈ after, later.1 ≠ gfid) ∧
  ∀ later, entry.entryIndex < later → ¬Defines toLowercase plugins later gfid

variable {toLowercase plugins}

/-- One more plugin leaves what is known of the earlier ones. -/
theorem addedAt_snoc_of_lt {last : String × Plugin} {place : Nat} (inside : place < plugins.length)
    {name : String} {plugin : Plugin} {cache : PluginCache} :
    AddedAt toLowercase (plugins ++ [last]) place name plugin cache ↔
      AddedAt toLowercase plugins place name plugin cache := by
  rw [AddedAt, AddedAt, List.getElem?_append_left inside,
    List.take_append_of_le_length (Nat.succ_le_of_lt inside)]

/-- The last plugin was added to the cache of the run. -/
theorem addedAt_snoc_self {name other : String} {plugin added : Plugin} {cache next : PluginCache}
    (run : CacheRun toLowercase (plugins ++ [(name, plugin)]) next) :
    AddedAt toLowercase (plugins ++ [(name, plugin)]) plugins.length other added cache ↔
      other = name ∧ added = plugin ∧ cache = next := by
  have whole : (plugins ++ [(name, plugin)]).take (plugins.length + 1) =
      plugins ++ [(name, plugin)] := List.take_of_length_le (by simp)
  rw [AddedAt, List.getElem?_concat_length, Option.some_inj, Prod.mk.injEq, whole]
  constructor
  · rintro ⟨⟨rfl, rfl⟩, run'⟩
    exact ⟨rfl, rfl, run'.unique run⟩
  · rintro ⟨rfl, rfl, rfl⟩
    exact ⟨⟨rfl, rfl⟩, run⟩

/-- One more plugin leaves what the earlier ones define. -/
theorem defines_snoc_of_lt {last : String × Plugin} {place : Nat} (inside : place < plugins.length)
    {gfid : GlobalFormId} : Defines toLowercase (plugins ++ [last]) place gfid ↔
      Defines toLowercase plugins place gfid := by
  simp only [Defines, addedAt_snoc_of_lt inside]

/-- Only the plugins of the list define anything. -/
theorem Defines.lt_length {place : Nat} {gfid : GlobalFormId}
    (defines : Defines toLowercase plugins place gfid) : place < plugins.length := by
  obtain ⟨name, plugin, cache, ⟨stands, -⟩, -⟩ := defines
  exact (List.getElem?_eq_some_iff.mp stands).1

/-- Every entry of the main index wins, and a global FormID without entry is not defined. -/
theorem CacheRun.wins {cache : PluginCache} (run : CacheRun toLowercase plugins cache) :
    (∀ gfid entry, cache.byGlobalId.lookup gfid = some entry → Wins toLowercase plugins gfid entry) ∧
      ∀ gfid, cache.byGlobalId.lookup gfid = none → ∀ place,
        ¬Defines toLowercase plugins place gfid := by
  induction run with
  | new =>
    refine ⟨fun gfid entry found => absurd found (by simp [PluginCache.new]), ?_⟩
    exact fun gfid _ place defines => absurd defines.lt_length (Nat.not_lt_zero place)
  | @add plugins cache next run name plugin done ih =>
    have whole := CacheRun.add run name plugin done
    obtain ⟨order, pushed, rfl⟩ := PluginCache.add_eq_ok.mp done
    obtain ⟨winning, undefined⟩ := ih
    have size : cache.entries.length = plugins.length := by rw [run.entries, List.length_map]
    have final := (PluginCache.foldl_indexRecord_frame cache.entries.length
      (cache.register order (toLowercase name) plugin)
      (PluginCache.triples toLowercase order (toLowercase name) plugin)).2
    -- Of the last plugin, the order that its records were resolved in is the final one.
    have lastDefines (gfid : GlobalFormId) :
        Defines toLowercase (plugins ++ [(name, plugin)]) plugins.length gfid ↔ ∃ triple ∈
          PluginCache.triples toLowercase order (toLowercase name) plugin, triple.1 = gfid := by
      constructor
      · rintro ⟨other, added, at', stands, found⟩
        obtain ⟨rfl, rfl, rfl⟩ := (addedAt_snoc_self whole).mp stands
        dsimp only at found
        rw [final] at found
        exact found
      · intro found
        refine ⟨name, plugin, _, (addedAt_snoc_self whole).mpr ⟨rfl, rfl, rfl⟩, ?_⟩
        dsimp only
        rw [final]
        exact found
    have beyond (gfid : GlobalFormId) (later : Nat) (behind : plugins.length < later) :
        ¬Defines toLowercase (plugins ++ [(name, plugin)]) later gfid := by
      intro defines
      have inside := defines.lt_length
      rw [List.length_append, List.length_singleton] at inside
      omega
    have each (gfid : GlobalFormId) := forall_or_exists_last
      (fun triple : GlobalFormId × FormId × Signature => triple.1 = gfid)
      (PluginCache.triples toLowercase order (toLowercase name) plugin)
    refine ⟨fun gfid entry found => ?_, fun gfid missing place defines => ?_⟩
    · rcases each gfid with absent | ⟨before, ⟨_, rawFid, sig⟩, after, split, rfl, last⟩
      · dsimp only at found
        rw [PluginCache.lookup_foldl_of_absent _ _ absent] at found
        obtain ⟨⟨owner, added, at', before, after, stands, split, last⟩, unbeaten⟩ :=
          winning gfid entry found
        have inside := (List.getElem?_eq_some_iff.mp stands.1).1
        refine ⟨⟨owner, added, at', before, after, (addedAt_snoc_of_lt inside).mpr stands, split,
          last⟩, fun later behind => ?_⟩
        rcases Nat.lt_trichotomy later plugins.length with early | rfl | late
        · rw [defines_snoc_of_lt early]
          exact unbeaten later behind
        · rw [lastDefines]
          rintro ⟨triple, among, same⟩
          exact absent triple among same
        · exact beyond gfid later late
      · dsimp only at found
        rw [split, PluginCache.lookup_foldl_last _ _ _ _ _ _ last] at found
        obtain rfl := Option.some.inj found
        rw [size]
        refine ⟨⟨name, plugin, _, before, after, (addedAt_snoc_self whole).mpr ⟨rfl, rfl, rfl⟩, ?_,
          last⟩, beyond _⟩
        dsimp only
        rw [final]
        exact split
    · rcases each gfid with absent | ⟨before, ⟨_, rawFid, sig⟩, after, split, rfl, last⟩
      · dsimp only at missing
        rw [PluginCache.lookup_foldl_of_absent _ _ absent] at missing
        rcases Nat.lt_trichotomy place plugins.length with early | rfl | late
        · rw [defines_snoc_of_lt early] at defines
          exact undefined gfid missing place defines
        · obtain ⟨triple, among, same⟩ := (lastDefines gfid).mp defines
          exact absent triple among same
        · exact beyond gfid place late defines
      · dsimp only at missing
        rw [split, PluginCache.lookup_foldl_last _ _ _ _ _ _ last] at missing
        exact absurd missing (by simp)

/-- The winning record of a global FormID is found by its raw FormID. -/
theorem CacheRun.resolveRecord_eq {cache at' : PluginCache} (run : CacheRun toLowercase plugins cache)
    {gfid : GlobalFormId} {entry : IndexEntry} {name : String} {plugin : Plugin}
    (stored : cache.byGlobalId.lookup gfid = some entry)
    (stands : AddedAt toLowercase plugins entry.entryIndex name plugin at') :
    cache.resolveRecord gfid = plugin.findRecord entry.rawFid := by
  have owner : cache.entries[entry.entryIndex]? = some ⟨toLowercase name, plugin⟩ := by
    rw [run.entries, List.getElem?_map, stands.1, Option.map_some]
  simp [PluginCache.resolveRecord, stored, owner]

/-- Every winning record can be found. -/
theorem CacheRun.exists_resolveRecord {cache : PluginCache}
    (run : CacheRun toLowercase plugins cache) {gfid : GlobalFormId} {entry : IndexEntry}
    (stored : cache.byGlobalId.lookup gfid = some entry) :
    ∃ name plugin at' record, AddedAt toLowercase plugins entry.entryIndex name plugin at' ∧
      Defines toLowercase plugins entry.entryIndex gfid ∧
      cache.resolveRecord gfid = some record ∧ plugin.findRecord entry.rawFid = some record ∧
      record ∈ plugin.records := by
  obtain ⟨⟨name, plugin, at', before, after, stands, split, last⟩, -⟩ := run.wins.1 gfid entry stored
  have among : (gfid, entry.rawFid, entry.signature) ∈
      PluginCache.triples toLowercase at'.loadOrder (toLowercase name) plugin := by
    rw [split]
    exact List.mem_append_right before List.mem_cons_self
  obtain ⟨record, inside, -, same, -⟩ := PluginCache.mem_triples.mp among
  obtain ⟨first, found, belongs, -⟩ := PluginCache.exists_findRecord inside
  rw [same] at found
  exact ⟨name, plugin, at', first, stands, ⟨name, plugin, at', stands, _, among, rfl⟩,
    (run.resolveRecord_eq stored stands).trans found, found, belongs⟩

variable (toLowercase plugins)

/-- What the indices of a cache promise. -/
structure CacheConsistent (cache : PluginCache) : Prop where
  /-- The main index and the buckets describe the same set, and every global FormID stands once,
  in the bucket of its stored type. -/
  indexed : cache.Indexed
  /-- A found record belongs to the last plugin that defines its global FormID. -/
  last : ∀ gfid record, cache.resolveRecord gfid = some record → ∃ place name plugin,
    plugins[place]? = some (name, plugin) ∧ record ∈ plugin.records ∧
    Defines toLowercase plugins place gfid ∧
    ∀ later, place < later → ¬Defines toLowercase plugins later gfid
  /-- A record is found for every global FormID that a plugin defines. -/
  found : ∀ place gfid, Defines toLowercase plugins place gfid →
    ∃ record, cache.resolveRecord gfid = some record
  /-- The records of a type have that type. -/
  typed : ∀ sig gfid record, (gfid, record) ∈ cache.recordsOfType sig →
    record.header.signature = sig
  /-- The records of a type are those of the winning global FormIDs of that type, each once. -/
  once : ∀ sig, ((cache.recordsOfType sig).map Prod.fst).Nodup ∧
    ∀ gfid, gfid ∈ (cache.recordsOfType sig).map Prod.fst ↔
      ∃ entry, cache.byGlobalId.lookup gfid = some entry ∧ entry.signature = sig

/-- The last record of a plugin with a global FormID has the type of the first one with the same
raw FormID. -/
def FirstTyped (order : LoadOrder) (canonical : String) (plugin : Plugin) : Prop :=
  ∀ before gfid rawFid sig after,
    PluginCache.triples toLowercase order canonical plugin =
      before ++ (gfid, rawFid, sig) :: after → (∀ later ∈ after, later.1 ≠ gfid) →
    ∀ first, plugin.findRecord rawFid = some first → first.header.signature = sig

variable {toLowercase plugins}

/-- The records of a type are the found records of its bucket. -/
theorem PluginCache.mem_recordsOfType {cache : PluginCache} {sig : Signature}
    {gfid : GlobalFormId} {record : Record} : (gfid, record) ∈ cache.recordsOfType sig ↔
      gfid ∈ bucket cache.bySignature sig ∧ cache.resolveRecord gfid = some record := by
  simp only [recordsOfType, List.mem_filterMap, Option.map_eq_some_iff, Prod.mk.injEq]
  constructor
  · rintro ⟨other, among, found, resolved, rfl, rfl⟩
    exact ⟨among, resolved⟩
  · rintro ⟨among, resolved⟩
    exact ⟨gfid, among, record, resolved, rfl, rfl⟩

/-- When all records of a bucket are found, its records are those of its global FormIDs. -/
theorem PluginCache.map_fst_recordsOfType {cache : PluginCache} {sig : Signature}
    (all : ∀ gfid ∈ bucket cache.bySignature sig, ∃ record, cache.resolveRecord gfid = some record) :
    (cache.recordsOfType sig).map Prod.fst = bucket cache.bySignature sig := by
  rw [recordsOfType, List.map_filterMap, ← bucket]
  have each : ∀ gfids : List GlobalFormId,
      (∀ gfid ∈ gfids, ∃ record, cache.resolveRecord gfid = some record) →
      gfids.filterMap (fun gfid => ((cache.resolveRecord gfid).map
        fun record => (gfid, record)).map Prod.fst) = gfids := by
    intro gfids present
    induction gfids with
    | nil => rfl
    | cons gfid gfids ih =>
      obtain ⟨⟨record, resolved⟩, rest⟩ := List.forall_mem_cons.mp present
      rw [List.filterMap_cons, resolved, Option.map_some, Option.map_some]
      exact congrArg (gfid :: ·) (ih rest)
  exact each _ all

/-- A cache is consistent when the records of its types have these types. -/
theorem CacheRun.consistent {cache : PluginCache} (run : CacheRun toLowercase plugins cache)
    (typed : ∀ place name plugin at', AddedAt toLowercase plugins place name plugin at' →
      FirstTyped toLowercase at'.loadOrder (toLowercase name) plugin) :
    CacheConsistent toLowercase plugins cache := by
  have indexed := run.indexed
  have listed (sig : Signature) (gfid : GlobalFormId)
      (among : gfid ∈ bucket cache.bySignature sig) :
      ∃ record, cache.resolveRecord gfid = some record := by
    obtain ⟨entry, stored, -⟩ := (indexed.mem sig gfid).mp among
    obtain ⟨-, -, -, record, -, -, resolved, -⟩ := run.exists_resolveRecord stored
    exact ⟨record, resolved⟩
  refine ⟨indexed, fun gfid record resolved => ?_, fun place gfid defines => ?_,
    fun sig gfid record among => ?_, fun sig => ?_⟩
  · cases stored : cache.byGlobalId.lookup gfid with
    | none => simp [PluginCache.resolveRecord, stored] at resolved
    | some entry =>
      obtain ⟨name, plugin, at', first, stands, defines, found, -, belongs⟩ :=
        run.exists_resolveRecord stored
      obtain rfl := Option.some.inj (resolved.symm.trans found)
      exact ⟨entry.entryIndex, name, plugin, stands.1, belongs, defines,
        (run.wins.1 gfid entry stored).2⟩
  · cases stored : cache.byGlobalId.lookup gfid with
    | none => exact absurd defines (run.wins.2 gfid stored place)
    | some entry =>
      obtain ⟨-, -, -, record, -, -, resolved, -⟩ := run.exists_resolveRecord stored
      exact ⟨record, resolved⟩
  · obtain ⟨inside, resolved⟩ := PluginCache.mem_recordsOfType.mp among
    obtain ⟨entry, stored, rfl⟩ := (indexed.mem sig gfid).mp inside
    obtain ⟨⟨name, plugin, at', before, after, stands, split, last⟩, -⟩ :=
      run.wins.1 gfid entry stored
    rw [run.resolveRecord_eq stored stands] at resolved
    exact typed _ name plugin at' stands before gfid _ _ after split last record resolved
  · rw [PluginCache.map_fst_recordsOfType (listed sig)]
    exact ⟨indexed.nodup sig, indexed.mem sig⟩

/-- The plugins of the first part of a run were added to the same caches. -/
theorem AddedAt.of_take {count place : Nat} {name : String} {plugin : Plugin} {cache : PluginCache}
    (stands : AddedAt toLowercase (plugins.take count) place name plugin cache) :
    AddedAt toLowercase plugins place name plugin cache := by
  obtain ⟨found, run⟩ := stands
  obtain ⟨inside, -⟩ := List.getElem?_eq_some_iff.mp found
  rw [List.length_take] at inside
  rw [List.take_take, Nat.min_eq_left (by omega)] at run
  rw [List.getElem?_take_of_lt (by omega)] at found
  exact ⟨found, run⟩

/-- A cache that a plugin was added to last stores the last record of every global FormID. -/
theorem AddedAt.lookup_last {place : Nat} {name : String} {plugin : Plugin} {cache : PluginCache}
    (stands : AddedAt toLowercase plugins place name plugin cache)
    {before after : List (GlobalFormId × FormId × Signature)} {gfid : GlobalFormId}
    {rawFid : FormId} {sig : Signature}
    (split : PluginCache.triples toLowercase cache.loadOrder (toLowercase name) plugin =
      before ++ (gfid, rawFid, sig) :: after) (last : ∀ later ∈ after, later.1 ≠ gfid) :
    cache.byGlobalId.lookup gfid = some ⟨place, rawFid, sig⟩ := by
  obtain ⟨found, run⟩ := stands
  obtain ⟨inside, same⟩ := List.getElem?_eq_some_iff.mp found
  rw [List.take_succ_eq_append_getElem inside, same] at run
  generalize whole : plugins.take place ++ [(name, plugin)] = all at run
  cases run with
  | new => exact absurd whole (by simp)
  | @add earlier cache' next run' name' plugin' done =>
    obtain ⟨rfl, tail⟩ := List.append_inj' whole rfl
    obtain ⟨rfl, rfl⟩ := Prod.mk.inj (List.singleton_inj.mp tail)
    obtain ⟨order, -, rfl⟩ := PluginCache.add_eq_ok.mp done
    have size : cache'.entries.length = place := by
      rw [run'.entries, List.length_map, List.length_take]
      omega
    dsimp only at split ⊢
    rw [(PluginCache.foldl_indexRecord_frame _ _ _).2] at split
    change PluginCache.triples toLowercase order (toLowercase name) plugin = _ at split
    rw [split, PluginCache.lookup_foldl_last _ _ _ _ _ _ last, size]

/-- In every state of a run the cache is consistent, exactly when in every plugin that is added
the last record of a global FormID has the type of the first record with its raw FormID. -/
theorem cacheRun_consistent (toLowercase : Lowercase) (plugins : List (String × Plugin)) :
    (∀ count cache, CacheRun toLowercase (plugins.take count) cache →
      CacheConsistent toLowercase (plugins.take count) cache) ↔
    ∀ place name plugin cache, AddedAt toLowercase plugins place name plugin cache →
      FirstTyped toLowercase cache.loadOrder (toLowercase name) plugin := by
  constructor
  · intro consistent place name plugin cache stands before gfid rawFid sig after split last first found
    have state := consistent (place + 1) cache stands.2
    have stored := stands.lookup_last split last
    have here : AddedAt toLowercase (plugins.take (place + 1)) place name plugin cache := by
      refine ⟨?_, ?_⟩
      · rw [List.getElem?_take_of_lt (Nat.lt_succ_self place)]
        exact stands.1
      · rw [List.take_take, Nat.min_self]
        exact stands.2
    have resolved := (stands.2.resolveRecord_eq stored here).trans found
    exact state.typed sig gfid first (PluginCache.mem_recordsOfType.mpr
      ⟨(state.indexed.mem sig gfid).mpr ⟨_, stored, rfl⟩, resolved⟩)
  · intro typed count cache run
    exact run.consistent fun place name plugin at' stands =>
      typed place name plugin at' stands.of_take

end Winners

/-- A record with an editor ID of one letter. -/
def lettered (signature : Signature) (letter : UInt8) : WritableRecord :=
  ⟨signature, .empty, ⟨0x800⟩, 44, [⟨.EDID, [letter, 0]⟩]⟩

/-- A writer whose two records have the same FormID and different types and editor IDs. -/
def repeatingWriter : PluginWriter :=
  (PluginWriter.new .fallout4 0x3F733333).addGroup ⟨⟨Signature.DATA.bytes, 0⟩,
    [.leaf (lettered .DATA 0x61), .leaf (lettered .SNAM 0x62)]⟩

/-- It can be read back. -/
theorem wellFormed_repeatingWriter : repeatingWriter.WellFormed where
  masters _ found := absurd found List.not_mem_nil
  sized := by
    simp [repeatingWriter, PluginWriter.addGroup, PluginWriter.new, PluginWriter.tes4SubRecords,
      WritableSubRecord.writeTo, PluginWriter.hedrData, Signature.HEDR]
  groups := by
    have ready (signature : Signature) (letter : UInt8) (typed : signature ≠ .GRUP) :
        (lettered signature letter).WellFormed := by
      have plain : RecordFlags.empty.contains .COMPRESSED = false := by decide
      have other : Signature.EDID ≠ .XXXX := by decide
      exact ⟨typed, plain, by simp [lettered, other],
        by simp [lettered, WritableRecord.dataBuf, WritableSubRecord.writeTo, Signature.EDID]⟩
    intro group found
    obtain rfl : group = _ := List.mem_singleton.mp found
    refine ⟨?_, ?_, ?_⟩
    · intro record inside
      have either : record = lettered .DATA 0x61 ∨ record = lettered .SNAM 0x62 := by
        simpa [WritableGroup.toChild] using inside
      rcases either with rfl | rfl
      · exact ready _ _ (by decide)
      · exact ready _ _ (by decide)
    · simp [WritableGroup.toChild]
    · intro group inside
      obtain rfl : group = _ := by simpa [WritableGroup.toChild] using inside
      simp [lettered, WritableRecord.writeTo, WritableRecord.dataBuf, WritableSubRecord.writeTo,
        Signature.EDID, Signature.DATA, Signature.SNAM]

/-- A cache with the plugin of a repeated FormID: the last record is indexed and the first one is
found. -/
theorem exists_repeatingCache (toLowercase : Lowercase) :
    ∃ bytes plugin first second cache gfid, repeatingWriter.writeToVec = .ok bytes ∧
      Plugin.fromBytes refuseInflate bytes .fallout4 = .ok plugin ∧
      plugin.records = [first, second] ∧
      first.view refuseInflate = (lettered .DATA 0x61).view ∧
      second.view refuseInflate = (lettered .SNAM 0x62).view ∧
      CacheRun toLowercase [("a.esp", plugin)] cache ∧
      cache.byGlobalId.lookup gfid = some ⟨0, ⟨0x800⟩, .SNAM⟩ ∧
      cache.resolveRecord gfid = some first := by
  obtain ⟨bytes, plugin, written, accepted, tree, masters, -⟩ :=
    PluginWriter.exists_plugin refuseInflate _ wellFormed_repeatingWriter
  have views := PluginWriter.records_view tree
  have records : repeatingWriter.groups.flatMap iterWritableRecords =
      [lettered .DATA 0x61, lettered .SNAM 0x62] := by
    simp [repeatingWriter, PluginWriter.addGroup, PluginWriter.new, iterWritableRecords,
      RoseTree.drain_start]
  rw [records, List.map_cons, List.map_singleton] at views
  obtain ⟨first, rest, all, head, last⟩ := List.map_eq_cons_iff.mp views
  obtain ⟨second, rfl, tail⟩ := List.map_eq_singleton_iff.mp last
  obtain ⟨order, pushed⟩ : ∃ order,
      LoadOrder.new.push toLowercase "a.esp" plugin.kind = .ok order := by
    unfold LoadOrder.push
    by_cases light : plugin.kind = .light
    · rw [if_pos light]
      exact ⟨_, rfl⟩
    · rw [if_neg light]
      exact ⟨_, rfl⟩
  have run := CacheRun.add .new "a.esp" plugin (PluginCache.add_eq_ok.mpr ⟨order, pushed, rfl⟩)
  generalize PluginCache.mk _ _ _ _ _ = cache at run
  have id : first.header.formId = ⟨0x800⟩ := congrArg RecordView.formId head
  have id' : second.header.formId = ⟨0x800⟩ := congrArg RecordView.formId tail
  have typed : first.header.signature = .DATA := congrArg RecordView.signature head
  have typed' : second.header.signature = .SNAM := congrArg RecordView.signature tail
  have own : cache.loadOrder.resolve toLowercase ⟨0x800⟩ (toLowercase "a.esp") plugin.masters =
      some ⟨toLowercase (toLowercase "a.esp"), FormId.objectId ⟨0x800⟩⟩ := by
    have index : (⟨0x800⟩ : FormId).fileIndex ≠ 0xFE := by decide
    have none : plugin.masters.length = 0 := by rw [masters]; rfl
    have zero : (⟨0x800⟩ : FormId).fileIndex.toNat = 0 := by decide
    exact LoadOrder.resolve_own index (zero.trans none.symm)
  generalize (⟨toLowercase (toLowercase "a.esp"), FormId.objectId ⟨0x800⟩⟩ : GlobalFormId) =
    gfid at own
  have split : PluginCache.triples toLowercase cache.loadOrder (toLowercase "a.esp") plugin =
      [(gfid, ⟨0x800⟩, .DATA)] ++ (gfid, ⟨0x800⟩, .SNAM) :: [] := by
    have visible : FormId.isNull ⟨0x800⟩ = false := by decide
    rw [PluginCache.triples, all]
    simp [id, id', typed, typed', own, visible]
  have stands : AddedAt toLowercase [("a.esp", plugin)] 0 "a.esp" plugin cache := ⟨rfl, run⟩
  have stored := stands.lookup_last split (by simp)
  have found : plugin.findRecord ⟨0x800⟩ = some first := by
    rw [Plugin.findRecord, all, List.find?_cons_of_pos (by rw [id]; exact decide_eq_true rfl)]
  exact ⟨bytes, plugin, first, second, cache, gfid, written, accepted, all, head, tail, run, stored,
    (run.resolveRecord_eq stored stands).trans found⟩

/-- A cache of one plugin yields a record of another type than the wanted one. -/
theorem exists_mistyped : ∃ bytes plugin cache, repeatingWriter.writeToVec = .ok bytes ∧
    Plugin.fromBytes refuseInflate bytes .fallout4 = .ok plugin ∧
    CacheRun String.toLower [("a.esp", plugin)] cache ∧
    ¬CacheConsistent String.toLower [("a.esp", plugin)] cache := by
  obtain ⟨bytes, plugin, first, -, cache, gfid, written, accepted, -, view, -, run, stored, found⟩ :=
    exists_repeatingCache String.toLower
  refine ⟨bytes, plugin, cache, written, accepted, run, fun consistent => ?_⟩
  have typed : first.header.signature = .SNAM :=
    consistent.typed .SNAM gfid first (PluginCache.mem_recordsOfType.mpr
      ⟨(consistent.indexed.mem .SNAM gfid).mpr ⟨_, stored, rfl⟩, found⟩)
  have other : first.header.signature = .DATA := congrArg RecordView.signature view
  exact absurd (other.symm.trans typed) (by decide)

end Bethkit
