import Bethkit.Verif.CacheIndex
import Bethkit.Verif.LightSlots

/-!
# The index by editor ID

The index is built from every record that has the raw FormID of a winning record, also when the
winning record is another one with the same FormID. A lookup is right exactly when, for every
editor ID, the last such record shares its editor ID with the first record of its FormID.
-/

namespace Bethkit

open Lib

/-- The caches that adding plugins and looking up editor IDs in any order leads to. -/
inductive EditorRun (toLowercase : Lowercase) (inflate : Inflate) :
    List (String × Plugin) → PluginCache → Prop
  /-- An empty cache. -/
  | new : EditorRun toLowercase inflate [] .new
  /-- One more plugin. -/
  | add {plugins : List (String × Plugin)} {cache next : PluginCache}
      (run : EditorRun toLowercase inflate plugins cache) (name : String) (plugin : Plugin)
      (done : cache.add toLowercase name plugin = .ok next) :
      EditorRun toLowercase inflate (plugins ++ [(name, plugin)]) next
  /-- One more lookup. -/
  | find {plugins : List (String × Plugin)} {cache : PluginCache}
      (run : EditorRun toLowercase inflate plugins cache)
      (iteration : List (Sigma fun _ : GlobalFormId => IndexEntry))
      (traversal : iteration.Perm cache.byGlobalId.entries) (edid : String) :
      EditorRun toLowercase inflate plugins (cache.findByEditorId inflate iteration edid).2

namespace PluginCache

variable {toLowercase : Lowercase} {inflate : Inflate} {cache : PluginCache}

/-- The records of all plugins in the order in which the index is built. -/
def visited (cache : PluginCache) : List (Nat × Record) :=
  cache.entries.zipIdx.flatMap fun entry => entry.1.plugin.records.map fun record => (entry.2, record)

/-- A record has the raw FormID of the winning record of a global FormID. -/
def Stored (cache : PluginCache) (gfid : GlobalFormId) (visit : Nat × Record) : Prop :=
  ∃ entry, cache.byGlobalId.lookup gfid = some entry ∧ entry.entryIndex = visit.1 ∧
    entry.rawFid = visit.2.header.formId

/-- A record has an editor ID and the raw FormID of a winning record. -/
def Carries (inflate : Inflate) (cache : PluginCache) (edid : String) (visit : Nat × Record) : Prop :=
  (∃ gfid, cache.Stored gfid visit) ∧ visit.2.editorId inflate = .ok (some edid)

/-- No two winning records have the same plugin and raw FormID. -/
def Unambiguous (cache : PluginCache) : Prop := ∀ gfid other entry entry',
  cache.byGlobalId.lookup gfid = some entry → cache.byGlobalId.lookup other = some entry' →
  entry.entryIndex = entry'.entryIndex → entry.rawFid = entry'.rawFid → gfid = other

/-- The winning records by plugin and raw FormID, whatever the order of the traversal. -/
theorem lookup_winningByEntry {iteration : List (Sigma fun _ : GlobalFormId => IndexEntry)}
    (single : ∀ indexed ∈ iteration, ∀ other ∈ iteration,
      indexed.2.entryIndex = other.2.entryIndex → indexed.2.rawFid = other.2.rawFid →
      indexed.1 = other.1) (place : Nat) (rawFid : FormId) (gfid : GlobalFormId) :
    (((winningByEntry iteration).lookup place).bind fun winning => winning.lookup rawFid) = some gfid ↔
      ∃ indexed ∈ iteration, indexed.1 = gfid ∧ indexed.2.entryIndex = place ∧
        indexed.2.rawFid = rawFid := by
  induction iteration using List.reverseRecOn with
  | nil => simp [winningByEntry]
  | append_singleton iteration last ih =>
    have rest := ih fun indexed among other among' =>
      single indexed (List.mem_append_left _ among) other (List.mem_append_left _ among')
    rw [winningByEntry, List.foldl_append, ← winningByEntry, List.foldl_cons, List.foldl_nil]
    constructor
    · intro found
      by_cases same : place = last.2.entryIndex
      · subst same
        rw [AList.lookup_insert, Option.bind_some] at found
        by_cases equal : rawFid = last.2.rawFid
        · subst equal
          rw [AList.lookup_insert, Option.some_inj] at found
          exact ⟨last, List.mem_append_right _ (List.mem_singleton_self last), found, rfl, rfl⟩
        · rw [AList.lookup_insert_ne equal] at found
          have earlier : ((winningByEntry iteration).lookup last.2.entryIndex).bind
              (fun winning => winning.lookup rawFid) = some gfid := by
            cases stored : (winningByEntry iteration).lookup last.2.entryIndex with
            | none => simp [stored] at found
            | some winning =>
              rw [stored] at found
              exact found
          obtain ⟨indexed, among, facts⟩ := rest.mp earlier
          exact ⟨indexed, List.mem_append_left _ among, facts⟩
      · rw [AList.lookup_insert_ne same] at found
        obtain ⟨indexed, among, facts⟩ := rest.mp found
        exact ⟨indexed, List.mem_append_left _ among, facts⟩
    · rintro ⟨indexed, among, rfl, rfl, rfl⟩
      by_cases same : indexed.2.entryIndex = last.2.entryIndex
      · rw [same, AList.lookup_insert, Option.bind_some]
        by_cases equal : indexed.2.rawFid = last.2.rawFid
        · rw [equal, AList.lookup_insert, Option.some_inj]
          exact (single indexed among last (List.mem_append_right _ (List.mem_singleton_self last))
            same equal).symm
        · rw [AList.lookup_insert_ne equal]
          rcases List.mem_append.mp among with earlier | here
          · have found := rest.mpr ⟨indexed, earlier, rfl, rfl, rfl⟩
            rw [same] at found
            obtain ⟨winning, stored, inside⟩ := Option.bind_eq_some_iff.mp found
            rw [stored, Option.getD_some]
            exact inside
          · exact absurd (by rw [List.mem_singleton.mp here]) equal
      · rw [AList.lookup_insert_ne same]
        rcases List.mem_append.mp among with earlier | here
        · exact rest.mpr ⟨indexed, earlier, rfl, rfl, rfl⟩
        · exact absurd (by rw [List.mem_singleton.mp here]) same

/-- What a record writes into the index. -/
def editorEntry (inflate : Inflate) (winning : AList fun _ : Nat => AList fun _ : FormId => GlobalFormId)
    (visit : Nat × Record) : Option (String × GlobalFormId) :=
  ((winning.lookup visit.1).bind fun inner => inner.lookup visit.2.header.formId).bind fun gfid =>
    ((visit.2.editorId inflate).toOption.join).map fun edid => (edid, gfid)

/-- The pass over one plugin fills the index with its records. -/
theorem foldl_collectEditorIds (iteration : List (Sigma fun _ : GlobalFormId => IndexEntry))
    (place : Nat) {winning : AList fun _ : FormId => GlobalFormId}
    (stored : (winningByEntry iteration).lookup place = some winning) (records : List Record)
    (map : AList fun _ : String => GlobalFormId) :
    records.foldl (collectEditorIds inflate winning) map =
      fill (editorEntry inflate (winningByEntry iteration)) (records.map fun record => (place, record))
        map := by
  induction records generalizing map with
  | nil => rfl
  | cons record records ih =>
    rw [List.foldl_cons, ih, List.map_cons, fill, fill, List.foldl_cons]
    congr 1
    rw [collectEditorIds, editorEntry, stored, Option.bind_some]
    cases winning.lookup record.header.formId with
    | none => rfl
    | some gfid =>
      dsimp only
      cases record.editorId inflate with
      | error reason => rfl
      | ok text => cases text <;> rfl

/-- A plugin without winning records writes nothing. -/
theorem fill_of_lookup_none (iteration : List (Sigma fun _ : GlobalFormId => IndexEntry))
    (place : Nat) (none : (winningByEntry iteration).lookup place = none) (records : List Record)
    (map : AList fun _ : String => GlobalFormId) :
    fill (editorEntry inflate (winningByEntry iteration)) (records.map fun record => (place, record))
      map = map := by
  induction records generalizing map with
  | nil => rfl
  | cons record records ih =>
    rw [List.map_cons, fill, List.foldl_cons, ← fill, ih, editorEntry, none]
    rfl

/-- The index is filled by the records of all plugins in order. -/
theorem editorIndex_eq (iteration : List (Sigma fun _ : GlobalFormId => IndexEntry)) :
    cache.editorIndex inflate iteration =
      fill (editorEntry inflate (winningByEntry iteration)) cache.visited ∅ := by
  rw [editorIndex, visited]
  generalize cache.entries.zipIdx = entries
  generalize (∅ : AList fun _ : String => GlobalFormId) = map
  induction entries generalizing map with
  | nil => rfl
  | cons entry entries ih =>
    have step : fill (editorEntry inflate (winningByEntry iteration))
        ((entry :: entries).flatMap fun entry =>
          entry.1.plugin.records.map fun record => (entry.2, record)) map =
        fill (editorEntry inflate (winningByEntry iteration))
          (entries.flatMap fun entry => entry.1.plugin.records.map fun record => (entry.2, record))
          (fill (editorEntry inflate (winningByEntry iteration))
            (entry.1.plugin.records.map fun record => (entry.2, record)) map) := by
      rw [List.flatMap_cons, fill, List.foldl_append]
      rfl
    rw [step, ← ih, List.foldl_cons]
    congr 1
    cases stored : (winningByEntry iteration).lookup entry.2 with
    | none => exact (fill_of_lookup_none iteration entry.2 stored _ map).symm
    | some winning => exact foldl_collectEditorIds iteration entry.2 stored _ map

/-- What a record writes is its editor ID and the global FormID whose winning record has its raw
FormID. -/
theorem editorEntry_eq_some {iteration : List (Sigma fun _ : GlobalFormId => IndexEntry)}
    (traversal : iteration.Perm cache.byGlobalId.entries) (unambiguous : cache.Unambiguous)
    {visit : Nat × Record} {edid : String} {gfid : GlobalFormId} :
    editorEntry inflate (winningByEntry iteration) visit = some (edid, gfid) ↔
      cache.Stored gfid visit ∧ visit.2.editorId inflate = .ok (some edid) := by
  have among (indexed : Sigma fun _ : GlobalFormId => IndexEntry) :
      indexed ∈ iteration ↔ cache.byGlobalId.lookup indexed.1 = some indexed.2 := by
    rw [traversal.mem_iff]
    exact AList.mem_lookup_iff.symm
  have winning := lookup_winningByEntry (fun indexed inside other inside' =>
    unambiguous indexed.1 other.1 indexed.2 other.2 ((among indexed).mp inside)
      ((among other).mp inside')) visit.1 visit.2.header.formId gfid
  have text : (visit.2.editorId inflate).toOption.join = some edid ↔
      visit.2.editorId inflate = .ok (some edid) := by
    cases visit.2.editorId inflate with
    | error reason => simp [Except.toOption]
    | ok found => simp [Except.toOption]
  have stored : cache.Stored gfid visit ↔ ∃ indexed ∈ iteration, indexed.1 = gfid ∧
      indexed.2.entryIndex = visit.1 ∧ indexed.2.rawFid = visit.2.header.formId := by
    constructor
    · rintro ⟨entry, found, place, raw⟩
      exact ⟨⟨gfid, entry⟩, (among _).mpr found, rfl, place, raw⟩
    · rintro ⟨⟨_, entry⟩, inside, rfl, place, raw⟩
      exact ⟨entry, (among _).mp inside, place, raw⟩
  rw [stored, ← winning, ← text, editorEntry]
  simp only [Option.bind_eq_some_iff, Option.map_eq_some_iff, Prod.mk.injEq]
  constructor
  · rintro ⟨other, ⟨inner, found, present⟩, other', written, rfl, rfl⟩
    exact ⟨⟨inner, found, present⟩, written⟩
  · rintro ⟨⟨inner, found, present⟩, written⟩
    exact ⟨gfid, ⟨inner, found, present⟩, edid, written, rfl, rfl⟩

/-- An editor ID leads to the global FormID of the last record that carries it. -/
theorem lookup_editorIndex {iteration : List (Sigma fun _ : GlobalFormId => IndexEntry)}
    (traversal : iteration.Perm cache.byGlobalId.entries) (unambiguous : cache.Unambiguous)
    {edid : String} {gfid : GlobalFormId} :
    (cache.editorIndex inflate iteration).lookup edid = some gfid ↔ ∃ before visit after,
      cache.visited = before ++ visit :: after ∧ cache.Stored gfid visit ∧
      visit.2.editorId inflate = .ok (some edid) ∧
      ∀ later ∈ after, ¬cache.Carries inflate edid later := by
  have writes (visit : Nat × Record) :
      WritesKey (editorEntry inflate (winningByEntry iteration)) edid visit ↔
        cache.Carries inflate edid visit := by
    simp only [WritesKey, editorEntry_eq_some traversal unambiguous, Carries, exists_and_right]
  rw [editorIndex_eq, lookup_fill_empty]
  simp only [editorEntry_eq_some traversal unambiguous, writes, and_assoc]

end PluginCache

section Runs

variable {toLowercase : Lowercase} {inflate : Inflate} {plugins : List (String × Plugin)}
  {cache : PluginCache}

/-- Two winning records of one plugin have different raw FormIDs. -/
theorem CacheRun.unambiguous (run : CacheRun toLowercase plugins cache) : cache.Unambiguous := by
  intro gfid other entry entry' stored stored' place raw
  obtain ⟨⟨name, plugin, at', before, after, stands, split, -⟩, -⟩ := run.wins.1 gfid entry stored
  obtain ⟨⟨name', plugin', at'', before', after', stands', split', -⟩, -⟩ :=
    run.wins.1 other entry' stored'
  rw [← place] at stands'
  obtain ⟨rfl, rfl⟩ := Prod.mk.inj (Option.some.inj (stands.1.symm.trans stands'.1))
  obtain rfl := stands.2.unique stands'.2
  have among : (gfid, entry.rawFid, entry.signature) ∈
      PluginCache.triples toLowercase at'.loadOrder (toLowercase name) plugin := by
    rw [split]
    exact List.mem_append_right _ List.mem_cons_self
  have among' : (other, entry'.rawFid, entry'.signature) ∈
      PluginCache.triples toLowercase at'.loadOrder (toLowercase name) plugin := by
    rw [split']
    exact List.mem_append_right _ List.mem_cons_self
  obtain ⟨-, -, -, -, -, resolved⟩ := PluginCache.mem_triples.mp among
  obtain ⟨-, -, -, -, -, resolved'⟩ := PluginCache.mem_triples.mp among'
  rw [← raw] at resolved'
  exact Option.some.inj (resolved.symm.trans resolved')

/-- The cache with another index by editor ID. -/
def PluginCache.withEditorIndex (cache : PluginCache)
    (index : Option (AList fun _ : String => GlobalFormId)) : PluginCache :=
  { cache with byEditorId := index }

/-- Indexing records does not look at the index by editor ID. -/
theorem PluginCache.foldl_withEditorIndex (place : Nat) (cache : PluginCache)
    (index : Option (AList fun _ : String => GlobalFormId))
    (found : List (GlobalFormId × FormId × Signature)) :
    found.foldl (indexRecord place) (cache.withEditorIndex index) =
      (found.foldl (indexRecord place) cache).withEditorIndex index := by
  induction found generalizing cache with
  | nil => rfl
  | cons triple found ih =>
    have step : indexRecord place (cache.withEditorIndex index) triple =
        (indexRecord place cache triple).withEditorIndex index := rfl
    rw [List.foldl_cons, step, ih, List.foldl_cons]

/-- `add` does not look at the index by editor ID. -/
theorem PluginCache.add_withEditorIndex {cache next : PluginCache}
    {index : Option (AList fun _ : String => GlobalFormId)} {name : String} {plugin : Plugin}
    (done : (cache.withEditorIndex index).add toLowercase name plugin = .ok next) :
    cache.add toLowercase name plugin = .ok next ∧ next.byEditorId = none := by
  obtain ⟨order, pushed, rfl⟩ := PluginCache.add_eq_ok.mp done
  refine ⟨PluginCache.add_eq_ok.mpr ⟨order, pushed, ?_⟩, rfl⟩
  have frame : (cache.withEditorIndex index).register order (toLowercase name) plugin =
      (cache.register order (toLowercase name) plugin).withEditorIndex index := rfl
  rw [frame, PluginCache.foldl_withEditorIndex]
  rfl

/-- Lookups leave the cache that the plugins were added to, and an index that is there is what
would be built now. -/
theorem EditorRun.exists_base (run : EditorRun toLowercase inflate plugins cache) :
    ∃ base index, CacheRun toLowercase plugins base ∧ cache = base.withEditorIndex index ∧
      ∀ built, index = some built → ∃ iteration, iteration.Perm base.byGlobalId.entries ∧
        built = base.editorIndex inflate iteration := by
  induction run with
  | new => exact ⟨.new, none, .new, rfl, fun built missing => absurd missing (by simp)⟩
  | @add plugins cache next run name plugin done ih =>
    obtain ⟨base, index, original, rfl, -⟩ := ih
    obtain ⟨done, unset⟩ := PluginCache.add_withEditorIndex done
    refine ⟨next, none, original.add name plugin done, ?_, fun built missing => absurd missing (by simp)⟩
    rw [PluginCache.withEditorIndex, ← unset]
  | find run iteration traversal edid ih =>
    obtain ⟨base, index, original, rfl, fresh⟩ := ih
    refine ⟨base, _, original, rfl, fun built found => ?_⟩
    cases index with
    | none => exact ⟨iteration, traversal, (Option.some.inj found).symm⟩
    | some stored =>
      obtain ⟨earlier, traversal', rfl⟩ := fresh stored rfl
      exact ⟨earlier, traversal', (Option.some.inj found).symm⟩

/-- A lookup by editor ID gives a winning record with it, or there is none. -/
structure FindsEditorIds (inflate : Inflate) (cache : PluginCache) : Prop where
  /-- What is found is a winning record with the editor ID. -/
  found : ∀ iteration, iteration.Perm cache.byGlobalId.entries → ∀ edid gfid record,
    (cache.findByEditorId inflate iteration edid).1 = some (gfid, record) →
    cache.resolveRecord gfid = some record ∧ record.editorId inflate = .ok (some edid)
  /-- Where nothing is found, no winning record has the editor ID. -/
  missing : ∀ iteration, iteration.Perm cache.byGlobalId.entries → ∀ edid,
    (cache.findByEditorId inflate iteration edid).1 = none → ∀ gfid record,
    cache.resolveRecord gfid = some record → record.editorId inflate ≠ .ok (some edid)

/-- For every editor ID, the last record that carries it and the first record of its plugin with
the same FormID have the same editor ID. -/
def LastCarrierFirst (inflate : Inflate) (cache : PluginCache) : Prop :=
  ∀ edid before visit after, cache.visited = before ++ visit :: after →
    cache.Carries inflate edid visit → (∀ later ∈ after, ¬cache.Carries inflate edid later) →
    ∀ entry first, cache.entries[visit.1]? = some entry →
      entry.plugin.findRecord visit.2.header.formId = some first →
      first.editorId inflate = .ok (some edid)

/-- A record of an entry is visited. -/
theorem PluginCache.mem_visited {cache : PluginCache} {place : Nat} {record : Record} :
    (place, record) ∈ cache.visited ↔
      ∃ entry, cache.entries[place]? = some entry ∧ record ∈ entry.plugin.records := by
  simp only [visited, List.mem_flatMap, List.mem_map, Prod.mk.injEq]
  constructor
  · rintro ⟨⟨entry, place⟩, among, record, inside, rfl, rfl⟩
    exact ⟨entry, List.mem_zipIdx_iff_getElem?.mp among, inside⟩
  · rintro ⟨entry, stands, inside⟩
    exact ⟨(entry, place), List.mem_zipIdx_iff_getElem?.mpr stands, record, inside, rfl, rfl⟩

/-- The winning record of a stored global FormID is the first one with its raw FormID. -/
theorem CacheRun.resolveRecord_stored (run : CacheRun toLowercase plugins cache)
    {gfid : GlobalFormId} {visit : Nat × Record} (stored : cache.Stored gfid visit) :
    ∃ entry first, cache.entries[visit.1]? = some entry ∧
      entry.plugin.findRecord visit.2.header.formId = some first ∧
      cache.resolveRecord gfid = some first := by
  obtain ⟨indexed, found, place, raw⟩ := stored
  obtain ⟨name, plugin, at', record, stands, -, resolved, first, -⟩ :=
    run.exists_resolveRecord found
  rw [place] at stands
  rw [raw] at first
  refine ⟨⟨toLowercase name, plugin⟩, record, ?_, first, resolved⟩
  rw [run.entries, List.getElem?_map, stands.1, Option.map_some]

/-- A winning record is visited and stored. -/
theorem CacheRun.exists_stored (run : CacheRun toLowercase plugins cache) {gfid : GlobalFormId}
    {record : Record} (resolved : cache.resolveRecord gfid = some record) :
    ∃ place, (place, record) ∈ cache.visited ∧ cache.Stored gfid (place, record) := by
  cases stored : cache.byGlobalId.lookup gfid with
  | none => simp [PluginCache.resolveRecord, stored] at resolved
  | some entry =>
    obtain ⟨name, plugin, at', first, stands, -, found, raw, belongs⟩ :=
      run.exists_resolveRecord stored
    obtain rfl := Option.some.inj (resolved.symm.trans found)
    have owner : cache.entries[entry.entryIndex]? = some ⟨toLowercase name, plugin⟩ := by
      rw [run.entries, List.getElem?_map, stands.1, Option.map_some]
    have same := List.find?_some raw
    exact ⟨entry.entryIndex, PluginCache.mem_visited.mpr ⟨_, owner, belongs⟩, entry, stored, rfl,
      (of_decide_eq_true same).symm⟩

/-- Whatever the history of lookups, a lookup in a reachable cache uses the index that would be
built now. -/
theorem EditorRun.find_eq (run : EditorRun toLowercase inflate plugins cache)
    {iteration : List (Sigma fun _ : GlobalFormId => IndexEntry)}
    (traversal : iteration.Perm cache.byGlobalId.entries) :
    ∃ built, built.Perm cache.byGlobalId.entries ∧ ∀ edid,
      (cache.findByEditorId inflate iteration edid).1 =
        ((cache.editorIndex inflate built).lookup edid).bind fun gfid =>
          (cache.resolveRecord gfid).map fun record => (gfid, record) := by
  obtain ⟨base, index, original, rfl, fresh⟩ := run.exists_base
  cases index with
  | none => exact ⟨iteration, traversal, fun edid => rfl⟩
  | some stored =>
    obtain ⟨earlier, traversal', rfl⟩ := fresh stored rfl
    exact ⟨earlier, traversal', fun edid => rfl⟩

/-- After any interleaving of additions and lookups, the lookups are right exactly when for every
editor ID the last record that carries it agrees with the first one of its FormID. -/
theorem editorRun_findsEditorIds (toLowercase : Lowercase) (inflate : Inflate)
    (plugins : List (String × Plugin)) (cache : PluginCache)
    (run : EditorRun toLowercase inflate plugins cache) :
    FindsEditorIds inflate cache ↔ LastCarrierFirst inflate cache := by
  obtain ⟨base, index, original, rfl, -⟩ := run.exists_base
  have unambiguous : (base.withEditorIndex index).Unambiguous := original.unambiguous
  constructor
  · rintro ⟨found, -⟩ edid before visit after split ⟨⟨gfid, stored⟩, text⟩ last entry first stands same
    obtain ⟨built, traversal, lookup⟩ := run.find_eq (List.Perm.refl _)
    obtain ⟨entry', first', stands', same', resolved⟩ := original.resolveRecord_stored stored
    obtain rfl := Option.some.inj (stands.symm.trans stands')
    obtain rfl := Option.some.inj (same.symm.trans same')
    have leads := (PluginCache.lookup_editorIndex traversal unambiguous).mpr
      ⟨before, visit, after, split, stored, text, last⟩
    have result := lookup edid
    rw [leads, Option.bind_some] at result
    refine (found _ (List.Perm.refl _) edid gfid first (result.trans ?_)).2
    exact congrArg (Option.map fun record => (gfid, record)) resolved
  · intro agrees
    refine ⟨fun iteration traversal edid gfid record result => ?_,
      fun iteration traversal edid result gfid record resolved text => ?_⟩
    · obtain ⟨built, traversal', lookup⟩ := run.find_eq traversal
      rw [lookup edid] at result
      obtain ⟨other, leads, pair⟩ := Option.bind_eq_some_iff.mp result
      obtain ⟨record', resolved, same⟩ := Option.map_eq_some_iff.mp pair
      obtain ⟨rfl, rfl⟩ := Prod.mk.inj same
      obtain ⟨before, visit, after, split, stored, text, last⟩ :=
        (PluginCache.lookup_editorIndex traversal' unambiguous).mp leads
      obtain ⟨entry, first, stands, found, resolved'⟩ := original.resolveRecord_stored stored
      obtain rfl := Option.some.inj (resolved'.symm.trans resolved)
      exact ⟨resolved, agrees edid before visit after split ⟨⟨_, stored⟩, text⟩ last entry first
        stands found⟩
    · obtain ⟨built, traversal', lookup⟩ := run.find_eq traversal
      obtain ⟨place, visited, stored⟩ := original.exists_stored resolved
      rcases forall_or_exists_last ((base.withEditorIndex index).Carries inflate edid)
        (base.withEditorIndex index).visited with absent | ⟨before, visit, after, split, carries, last⟩
      · exact absent (place, record) visited ⟨⟨gfid, stored⟩, text⟩
      · obtain ⟨⟨other, stored'⟩, text'⟩ := carries
        have leads := (PluginCache.lookup_editorIndex traversal' unambiguous).mpr
          ⟨before, visit, after, split, stored', text', last⟩
        obtain ⟨-, first, -, -, resolved'⟩ := original.resolveRecord_stored stored'
        have same : (base.withEditorIndex index).resolveRecord other = some first := resolved'
        rw [lookup edid, leads, Option.bind_some, same] at result
        exact absurd result (by simp)

/-- Where records with one FormID have one editor ID, every lookup is right. -/
theorem CacheRun.lastCarrierFirst (run : CacheRun toLowercase plugins cache)
    (agree : ∀ named ∈ plugins, ∀ record ∈ named.2.records, ∀ first edid,
      named.2.findRecord record.header.formId = some first →
      record.editorId inflate = .ok (some edid) → first.editorId inflate = .ok (some edid)) :
    LastCarrierFirst inflate cache := by
  intro edid before visit after split carries _ entry first stands found
  have visited : (visit.1, visit.2) ∈ cache.visited := by
    rw [split]
    exact List.mem_append_right before List.mem_cons_self
  obtain ⟨entry', stands', belongs⟩ := PluginCache.mem_visited.mp visited
  obtain rfl := Option.some.inj (stands.symm.trans stands')
  rw [run.entries, List.getElem?_map] at stands
  obtain ⟨named, there, rfl⟩ := Option.map_eq_some_iff.mp stands
  exact agree named (List.mem_of_getElem? there) visit.2 belongs first edid found carries.2

end Runs

/-- The editor ID of a record is the string of its first EDID payload. -/
theorem Record.editorId_of_view {inflate : Inflate} {record : Record} {values : List (Signature × Bytes)}
    (fields : (record.view inflate).fields = some values) {value : Signature × Bytes}
    (first : values.find? (·.1 = .EDID) = some value) {text : String}
    (decoded : zstringOf value.2 = some text) :
    record.editorId inflate = .ok (some text) := by
  cases read : record.subrecords inflate with
  | error reason => simp [Record.view, read, Except.toOption] at fields
  | ok subrecords =>
    simp only [Record.view, read, Except.toOption, Option.map_some, Option.some_inj] at fields
    rw [← fields, find_subrecordValues] at first
    obtain ⟨subrecord, found, rfl⟩ := Option.map_eq_some_iff.mp first
    have string : subrecord.asZstring = .ok text := by
      rw [← toOption_asZstring] at decoded
      cases parsed : subrecord.asZstring with
      | error reason => simp [parsed, Except.toOption] at decoded
      | ok other =>
        rw [parsed] at decoded
        rw [Option.some.inj decoded]
    simp [Record.editorId, Record.get, read, found, string, bind, Except.bind, pure, Except.pure]

/-- A cache without lookups is one of the runs. -/
theorem CacheRun.editorRun {toLowercase : Lowercase} {plugins : List (String × Plugin)}
    {cache : PluginCache} (inflate : Inflate) (run : CacheRun toLowercase plugins cache) :
    EditorRun toLowercase inflate plugins cache := by
  induction run with
  | new => exact .new
  | add run name plugin done ih => exact .add ih name plugin done

/-- A cache of one plugin with one record, after one lookup. -/
theorem editorRun_findsEditorIds_alone : ∃ (plugin : Plugin) (cache : PluginCache),
    plugin.records.length = 1 ∧
      EditorRun String.toLower refuseInflate [("a.esp", plugin)] cache ∧
      FindsEditorIds refuseInflate cache := by
  obtain ⟨made, -, light, -, single⟩ := exists_lightPlugin "a.esp"
  have none : CacheRun String.toLower [] .new := .new
  obtain ⟨added, original⟩ := none.exists_addLight (by decide) "a.esp"
    (made.kind_eq.trans (if_pos light))
  have run := (original.editorRun refuseInflate).find _ (List.Perm.refl _) "a"
  refine ⟨made.plugin, _, single, run,
    (editorRun_findsEditorIds String.toLower refuseInflate _ _ run).mpr ?_⟩
  have right : LastCarrierFirst refuseInflate added := by
    refine original.lastCarrierFirst fun named among record inside first edid found text => ?_
    rw [List.nil_append, List.mem_singleton] at among
    rw [among] at inside found
    obtain ⟨only, alone⟩ := List.length_eq_one_iff.mp single
    have belongs := List.mem_of_find?_eq_some found
    rw [alone, List.mem_singleton] at inside belongs
    rwa [belongs, ← inside]
  exact right

/-- The editor ID of a later record with the same FormID finds the first one. -/
theorem exists_wrong_editorId : ∃ bytes plugin cache, repeatingWriter.writeToVec = .ok bytes ∧
    Plugin.fromBytes refuseInflate bytes .fallout4 = .ok plugin ∧
    EditorRun String.toLower refuseInflate [("a.esp", plugin)] cache ∧
    ¬FindsEditorIds refuseInflate cache := by
  obtain ⟨bytes, plugin, first, second, cache, gfid, written, accepted, all, view, view', run, stored,
    resolved⟩ := exists_repeatingCache String.toLower
  refine ⟨bytes, plugin, cache, written, accepted, run.editorRun refuseInflate, fun finds => ?_⟩
  have name : first.editorId refuseInflate = .ok (some "a") :=
    Record.editorId_of_view (congrArg RecordView.fields view) rfl (by decide)
  have name' : second.editorId refuseInflate = .ok (some "b") :=
    Record.editorId_of_view (congrArg RecordView.fields view') rfl (by decide)
  have id : second.header.formId = ⟨0x800⟩ := congrArg RecordView.formId view'
  have visited : cache.visited = [(0, first)] ++ (0, second) :: [] := by
    simp [PluginCache.visited, run.entries, all]
  obtain ⟨built, traversal, lookup⟩ := (run.editorRun refuseInflate).find_eq (List.Perm.refl _)
  have leads := (PluginCache.lookup_editorIndex traversal run.unambiguous).mpr
    ⟨_, _, _, visited, ⟨_, stored, rfl, id.symm⟩, name', by simp⟩
  have result := lookup "b"
  rw [leads, Option.bind_some, resolved, Option.map_some] at result
  have wrong := (finds.found _ (List.Perm.refl _) "b" gfid first result).2
  rw [name] at wrong
  exact absurd wrong (by decide)

end Bethkit
