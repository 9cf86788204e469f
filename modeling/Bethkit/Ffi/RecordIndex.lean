import Bethkit.Core.Cache
import Bethkit.Lib.Forest

/-!
# The record index of a plugin handle

A handle may keep no references into its plugin, so its index keeps the positions that lead to the
first record with a FormID, and follows them for every lookup. A hash map is an association list.
-/

namespace Bethkit

open Lib

/-- Where the first record with a FormID stands, for every FormID. -/
abbrev Routes : Type := AList fun _ : FormId => List Nat

/-- `entry(..).or_insert_with(..)`. -/
def Routes.orInsert (routes : Routes) (formId : FormId) (route : List Nat) : Routes :=
  if formId ∈ routes then routes else routes.insert formId route

mutual

/-- One child of the loop of `collect`, with the route that leads to it. -/
def collectChild (route : List Nat) (routes : Routes) : GroupChild → Routes
  | .leaf record => routes.orInsert record.header.formId route
  | .node _ children => collectFrom route 0 routes children

/-- The loop of `collect` from a position on. -/
def collectFrom (route : List Nat) (index : Nat) (routes : Routes) : List GroupChild → Routes
  | [] => routes
  | child :: children =>
    collectFrom route (index + 1) (collectChild (route ++ [index]) routes child) children

end

/-- `collect`. -/
def Routes.collect (children : List GroupChild) (route : List Nat) (routes : Routes) : Routes :=
  collectFrom route 0 routes children

/-- First-match group routes. -/
structure RecordIndex where
  /-- The route of the first record with a FormID. -/
  routes : Routes

namespace RecordIndex

/-- `RecordIndex::new`. -/
def new (plugin : Plugin) : RecordIndex where
  routes := plugin.groups.zipIdx.foldl
    (fun routes item => Routes.collect item.1.children [item.2] routes) ∅

/-- `RecordIndex::get`: the record that the route of a FormID leads to. -/
def get (index : RecordIndex) (plugin : Plugin) (formId : FormId) : Option Record :=
  match index.routes.lookup formId with
  | none => none
  | some [] => none
  | some (root :: route) =>
    match plugin.groups[root]? with
    | none => none
    | some group => RoseTree.leafAt group.children route

end RecordIndex

end Bethkit
