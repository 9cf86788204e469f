import Bethkit.Core.Cache
import Bethkit.Verif.LoadOrder

/-!
# Runs of the plugin cache

A cache is what a sequence of successful `add` calls leaves. Its entries and its load order are
those of the plugins that were added.
-/

namespace Bethkit

/-- The caches that adding named plugins one after another leads to. -/
inductive CacheRun (toLowercase : Lowercase) : List (String × Plugin) → PluginCache → Prop
  /-- An empty cache. -/
  | new : CacheRun toLowercase [] .new
  /-- One more plugin. -/
  | add {plugins : List (String × Plugin)} {cache next : PluginCache}
      (run : CacheRun toLowercase plugins cache) (name : String) (plugin : Plugin)
      (done : cache.add toLowercase name plugin = .ok next) :
      CacheRun toLowercase (plugins ++ [(name, plugin)]) next

namespace PluginCache

variable {toLowercase : Lowercase} {cache next : PluginCache}

/-- The cache with one more plugin whose records are not indexed yet. -/
def register (cache : PluginCache) (order : LoadOrder) (canonical : String) (plugin : Plugin) :
    PluginCache :=
  { cache with loadOrder := order, entries := cache.entries ++ [⟨canonical, plugin⟩] }

/-- Indexing a record leaves the plugins and the load order. -/
theorem indexRecord_frame (place : Nat) (cache : PluginCache)
    (triple : GlobalFormId × FormId × Signature) :
    (indexRecord place cache triple).entries = cache.entries ∧
      (indexRecord place cache triple).loadOrder = cache.loadOrder := ⟨rfl, rfl⟩

/-- Indexing the records of a plugin leaves the plugins and the load order. -/
theorem foldl_indexRecord_frame (place : Nat) (cache : PluginCache)
    (triples : List (GlobalFormId × FormId × Signature)) :
    (triples.foldl (indexRecord place) cache).entries = cache.entries ∧
      (triples.foldl (indexRecord place) cache).loadOrder = cache.loadOrder := by
  induction triples generalizing cache with
  | nil => exact ⟨rfl, rfl⟩
  | cons triple triples ih =>
    obtain ⟨entries, order⟩ := ih (indexRecord place cache triple)
    exact ⟨entries, order⟩

/-- `add` succeeds exactly when the load order has room, and then indexes the records. -/
theorem add_eq_ok {name : String} {plugin : Plugin} :
    cache.add toLowercase name plugin = .ok next ↔ ∃ order,
      cache.loadOrder.push toLowercase name plugin.kind = .ok order ∧
      next = { (triples toLowercase order (toLowercase name) plugin).foldl
        (indexRecord cache.entries.length) (cache.register order (toLowercase name) plugin) with
        byEditorId := none } := by
  unfold add
  cases cache.loadOrder.push toLowercase name plugin.kind with
  | error reason => simp [bind, Except.bind]
  | ok order =>
    simp only [bind, Except.bind, pure, Except.pure, Except.ok.injEq, exists_eq_left']
    exact eq_comm

end PluginCache

namespace CacheRun

variable {toLowercase : Lowercase} {plugins : List (String × Plugin)} {cache : PluginCache}

/-- The entries of a cache are the plugins that were added. -/
theorem entries (run : CacheRun toLowercase plugins cache) :
    cache.entries = plugins.map fun plugin => ⟨toLowercase plugin.1, plugin.2⟩ := by
  induction run with
  | new => rfl
  | add run name plugin done ih =>
    obtain ⟨order, -, rfl⟩ := PluginCache.add_eq_ok.mp done
    rw [(PluginCache.foldl_indexRecord_frame _ _ _).1, PluginCache.register, ih, List.map_append,
      List.map_singleton]

/-- The load order of a cache has the plugins that were added. -/
theorem registers (run : CacheRun toLowercase plugins cache) :
    cache.loadOrder.Registers toLowercase (plugins.map fun plugin => (plugin.1, plugin.2.kind)) := by
  induction run with
  | new => exact .new
  | add run name plugin done ih =>
    obtain ⟨order, pushed, rfl⟩ := PluginCache.add_eq_ok.mp done
    rw [(PluginCache.foldl_indexRecord_frame _ _ _).2, PluginCache.register, List.map_append,
      List.map_singleton]
    exact ih.push pushed

end CacheRun

end Bethkit
