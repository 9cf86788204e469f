import Bethkit.Ffi.RecordIndex
import Bethkit.Lib.Filling

/-!
# The record index finds what the linear search finds

Both walk the groups depth first, and both keep the first record with a FormID. A route is the place
of its record among all of the plugin, so it tells equal records apart.
-/

namespace Bethkit

open Lib

/-- The records of a plugin with their places, in the order of the linear search. -/
def Plugin.placedRecords (plugin : Plugin) : List (List Nat × Record) :=
  RoseTree.places (plugin.groups.map Group.toChild)

/-- The record that the linear search finds, with its place. -/
def Plugin.findPlaced (plugin : Plugin) (formId : FormId) : Option (List Nat × Record) :=
  plugin.placedRecords.find? fun placed => placed.2.header.formId = formId

/-- The record that an index finds, with the place that its route leads to. -/
def RecordIndex.getPlaced (index : RecordIndex) (plugin : Plugin) (formId : FormId) :
    Option (List Nat × Record) :=
  (index.routes.lookup formId).bind fun place => (index.get plugin formId).map (place, ·)

/-- The entries of the index for placed records below a route. -/
def routeEntries (route : List Nat) (placed : List (List Nat × Record)) :
    List (FormId × List Nat) :=
  placed.map fun placed => (placed.2.header.formId, route ++ placed.1)

/-- The records of a tree and those behind it are entered one list after the other. -/
theorem routeEntries_append (route : List Nat) (first second : List (List Nat × Record)) :
    routeEntries route (first ++ second) = routeEntries route first ++ routeEntries route second :=
  List.map_append

/-- A position of a place may be part of the route. -/
theorem routeEntries_cons (route : List Nat) (index : Nat) (placed : List (List Nat × Record)) :
    routeEntries route (placed.map (Prod.map (index :: ·) id)) =
      routeEntries (route ++ [index]) placed := by
  rw [routeEntries, List.map_map]
  apply List.map_congr_left
  intro item _
  simp

/-- What is collected from trees is what is collected from each of them. -/
theorem collectFrom_eq_of_each {children : List GroupChild}
    (each : ∀ child ∈ children, ∀ route routes, collectChild route routes child =
      fillMissing (routeEntries route child.placesBelow) routes)
    (route : List Nat) (index : Nat) (routes : Routes) :
    collectFrom route index routes children =
      fillMissing (routeEntries route (RoseTree.placesFrom index children)) routes := by
  induction children generalizing index routes with
  | nil =>
    rw [collectFrom, RoseTree.placesFrom_nil]
    rfl
  | cons child children ih =>
    obtain ⟨first, later⟩ := List.forall_mem_cons.mp each
    rw [collectFrom, first, ih later, RoseTree.placesFrom_cons, routeEntries_append,
      routeEntries_cons, fillMissing_append]

/-- Every record of a tree is entered unless its FormID has an entry. -/
theorem collectChild_eq (child : GroupChild) : ∀ route routes, collectChild route routes child =
    fillMissing (routeEntries route child.placesBelow) routes := by
  induction child using RoseTree.ind with
  | leaf record =>
    intro route routes
    rw [collectChild, RoseTree.placesBelow_leaf]
    simp [routeEntries, fillMissing, Routes.orInsert]
  | node info children ih =>
    intro route routes
    rw [collectChild, RoseTree.placesBelow_node]
    exact collectFrom_eq_of_each ih route 0 routes

/-- The index has an entry for every FormID, made by the first record with it. -/
theorem RecordIndex.routes_new (plugin : Plugin) :
    (RecordIndex.new plugin).routes = fillMissing (routeEntries [] plugin.placedRecords) ∅ := by
  have loop (groups : List Group) (index : Nat) (routes : Routes) :
      (groups.zipIdx index).foldl (fun routes item => Routes.collect item.1.children [item.2] routes) routes =
        collectFrom [] index routes (groups.map Group.toChild) := by
    induction groups generalizing index routes with
    | nil => rw [List.zipIdx_nil, List.foldl_nil, List.map_nil, collectFrom]
    | cons group groups ih =>
      rw [List.zipIdx_cons, List.foldl_cons, ih, List.map_cons, collectFrom, Group.toChild,
        collectChild]
      rfl
  rw [RecordIndex.new, loop]
  exact collectFrom_eq_of_each (fun child _ => collectChild_eq child) [] 0 ∅

/-- The route of a FormID is the place of the record that the linear search finds. -/
theorem RecordIndex.lookup_routes_new (plugin : Plugin) (formId : FormId) :
    (RecordIndex.new plugin).routes.lookup formId = (plugin.findPlaced formId).map Prod.fst := by
  have empty : (∅ : Routes).lookup formId = none := by simp
  rw [RecordIndex.routes_new, lookup_fillMissing, empty, Option.none_or, routeEntries,
    List.find?_map, Option.map_map, Plugin.findPlaced]
  rfl

/-- The linear search finds the first of the placed records. -/
theorem Plugin.findRecord_eq (plugin : Plugin) (formId : FormId) :
    plugin.findRecord formId = (plugin.findPlaced formId).map Prod.snd := by
  rw [Plugin.findRecord, Plugin.records_eq, ← RoseTree.map_snd_places, List.find?_map]
  rfl

/-- The index follows the route of a FormID through the groups. -/
theorem RecordIndex.get_eq (index : RecordIndex) (plugin : Plugin) (formId : FormId) :
    index.get plugin formId = (index.routes.lookup formId).bind
      fun place => RoseTree.leafAt (plugin.groups.map Group.toChild) place := by
  unfold RecordIndex.get
  cases index.routes.lookup formId with
  | none => rfl
  | some place =>
    cases place with
    | nil => rfl
    | cons root route =>
      rw [Option.bind_some, RoseTree.leafAt, List.getElem?_map]
      dsimp only
      cases plugin.groups[root]? with
      | none => rfl
      | some group => rfl

/-- For every FormID the index finds the record that the linear search finds, at the place where
that one finds it, or nothing if that one finds nothing. -/
theorem recordIndex_get_eq_findRecord (plugin : Plugin) (formId : FormId) :
    (RecordIndex.new plugin).get plugin formId = plugin.findRecord formId ∧
      (RecordIndex.new plugin).getPlaced plugin formId = plugin.findPlaced formId ∧
      plugin.placedRecords.map Prod.snd = plugin.records ∧
      (plugin.placedRecords.map Prod.fst).Nodup := by
  have records : plugin.placedRecords.map Prod.snd = plugin.records := by
    rw [Plugin.placedRecords, RoseTree.map_snd_places, Plugin.records_eq]
  have found : (RecordIndex.new plugin).get plugin formId = plugin.findRecord formId := by
    rw [RecordIndex.get_eq, RecordIndex.lookup_routes_new, Plugin.findRecord_eq]
    cases search : plugin.findPlaced formId with
    | none => rfl
    | some placed => exact RoseTree.leafAt_of_mem (List.mem_of_find?_eq_some search)
  refine ⟨found, ?_, records, RoseTree.nodup_places _⟩
  rw [RecordIndex.getPlaced, found, RecordIndex.lookup_routes_new, Plugin.findRecord_eq]
  cases plugin.findPlaced formId with
  | none => rfl
  | some placed => rfl

end Bethkit
