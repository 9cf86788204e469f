import Bethkit.Core.LoadOrder

/-!
# The plugin cache

The records of several plugins are indexed by their global FormIDs; the plugin added last wins.
Beside the main index there is one by record signature, which is kept up to date by every `add`,
and one by editor ID, which is built on demand and dropped by every `add`. The record behind an
index entry is found again by its raw FormID.

A hash map is an association list. Where the source iterates over one, the order is a parameter.
-/

namespace Bethkit

open Lib

/-- The editor ID of a record, if it has one. -/
def Record.editorId (inflate : Inflate) (record : Record) : Except CoreError (Option String) := do
  match ← record.get inflate .EDID with
  | some subrecord => do
    let text ← subrecord.asZstring
    pure (some text)
  | none => pure none

/-- The first record with a raw FormID. -/
def Plugin.findRecord (plugin : Plugin) (formId : FormId) : Option Record :=
  plugin.records.find? fun record => record.header.formId = formId

/-- A plugin of the cache. -/
structure CacheEntry where
  /-- Plugin filename in lower case. -/
  name : String
  /-- The parsed plugin. -/
  plugin : Plugin

/-- What the main index stores: the plugin, the raw FormID there and the record type. -/
structure IndexEntry where
  /-- The position of the plugin in the cache. -/
  entryIndex : Nat
  /-- The FormID as the plugin stores it. -/
  rawFid : FormId
  /-- The type of the record. -/
  signature : Signature
deriving DecidableEq

/-- A record cache of several plugins. -/
structure PluginCache where
  /-- The plugins, earliest first. -/
  entries : List CacheEntry
  /-- Their load order. -/
  loadOrder : LoadOrder
  /-- The winning record of every global FormID. -/
  byGlobalId : AList fun _ : GlobalFormId => IndexEntry
  /-- The global FormIDs of every record type. -/
  bySignature : AList fun _ : Signature => List GlobalFormId
  /-- A global FormID for every editor ID, once it is built. -/
  byEditorId : Option (AList fun _ : String => GlobalFormId)

namespace PluginCache

/-- An empty cache. -/
def new : PluginCache := ⟨[], .new, ∅, ∅, none⟩

/-- The global FormID, raw FormID and type of every record of a plugin that is not null and can be
resolved. -/
def triples (toLowercase : Lowercase) (order : LoadOrder) (canonical : String) (plugin : Plugin) :
    List (GlobalFormId × FormId × Signature) :=
  (plugin.records.filter fun record => !record.header.formId.isNull).filterMap fun record =>
    (order.resolve toLowercase record.header.formId canonical plugin.masters).map fun gfid =>
      (gfid, record.header.formId, record.header.signature)

/-- One pass of the loop of `add`: take the global FormID out of the bucket of its old type, put
it into the bucket of its new one, and store the new record. -/
def indexRecord (entryIndex : Nat) (cache : PluginCache)
    (triple : GlobalFormId × FormId × Signature) : PluginCache :=
  let (gfid, rawFid, sig) := triple
  let cleaned := match cache.byGlobalId.lookup gfid with
    | some old =>
      match cache.bySignature.lookup old.signature with
      | some sigList => cache.bySignature.insert old.signature (sigList.filter (· ≠ gfid))
      | none => cache.bySignature
    | none => cache.bySignature
  { cache with
    bySignature := cleaned.insert sig ((cleaned.lookup sig).getD [] ++ [gfid])
    byGlobalId := cache.byGlobalId.insert gfid ⟨entryIndex, rawFid, sig⟩ }

/-- Add a plugin to the cache. -/
def add (toLowercase : Lowercase) (cache : PluginCache) (name : String) (plugin : Plugin) :
    Except CoreError PluginCache := do
  let canonical := toLowercase name
  let entryIndex := cache.entries.length
  let loadOrder ← cache.loadOrder.push toLowercase name plugin.kind
  let found := triples toLowercase loadOrder canonical plugin
  let cache := { cache with loadOrder, entries := cache.entries ++ [⟨canonical, plugin⟩] }
  let cache := found.foldl (indexRecord entryIndex) cache
  pure { cache with byEditorId := none }

/-- The winning record of a global FormID. -/
def resolveRecord (cache : PluginCache) (gfid : GlobalFormId) : Option Record := do
  let indexed ← cache.byGlobalId.lookup gfid
  let entry ← cache.entries[indexed.entryIndex]?
  entry.plugin.findRecord indexed.rawFid

/-- All winning records of a type, with their global FormIDs. -/
def recordsOfType (cache : PluginCache) (sig : Signature) : List (GlobalFormId × Record) :=
  ((cache.bySignature.lookup sig).getD []).filterMap fun gfid =>
    (cache.resolveRecord gfid).map fun record => (gfid, record)

/-- The global FormIDs of the winning records of every plugin, by raw FormID. The iteration is the
order in which the main index is traversed. -/
def winningByEntry (iteration : List (Sigma fun _ : GlobalFormId => IndexEntry)) :
    AList fun _ : Nat => AList fun _ : FormId => GlobalFormId :=
  iteration.foldl (fun winning indexed => winning.insert indexed.2.entryIndex
    (((winning.lookup indexed.2.entryIndex).getD ∅).insert indexed.2.rawFid indexed.1)) ∅

/-- The pass over the records of one plugin: the editor ID of every record whose raw FormID is
winning is taken for the global FormID. -/
def collectEditorIds (inflate : Inflate) (winning : AList fun _ : FormId => GlobalFormId)
    (map : AList fun _ : String => GlobalFormId) (record : Record) :
    AList fun _ : String => GlobalFormId :=
  match winning.lookup record.header.formId with
  | some gfid =>
    match record.editorId inflate with
    | .ok (some eid) => map.insert eid gfid
    | _ => map
  | none => map

/-- The index by editor ID. -/
def editorIndex (inflate : Inflate) (cache : PluginCache)
    (iteration : List (Sigma fun _ : GlobalFormId => IndexEntry)) :
    AList fun _ : String => GlobalFormId :=
  cache.entries.zipIdx.foldl (fun map entry =>
    match (winningByEntry iteration).lookup entry.2 with
    | some winning => entry.1.plugin.records.foldl (collectEditorIds inflate winning) map
    | none => map) ∅

/-- The winning record with an editor ID, and the cache with the index that is now built. -/
def findByEditorId (inflate : Inflate) (cache : PluginCache)
    (iteration : List (Sigma fun _ : GlobalFormId => IndexEntry)) (edid : String) :
    Option (GlobalFormId × Record) × PluginCache :=
  let index := cache.byEditorId.getD (cache.editorIndex inflate iteration)
  ((index.lookup edid).bind fun gfid => (cache.resolveRecord gfid).map fun record => (gfid, record),
    { cache with byEditorId := some index })

end PluginCache

end Bethkit
