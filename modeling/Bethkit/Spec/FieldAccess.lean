import Bethkit.Schema.Registry
import Bethkit.Schema.Visibility
import Bethkit.Spec.Decision
import Bethkit.Spec.Retention

/-!
# Fields that a decision reads

The expression of a condition or selector mentions field paths. A path has been matched when a
subrecord whose schema tree contains it was placed; its value is the one of the newest such
subrecord.
-/

namespace Bethkit

open Lib

/-- The error of a read that finds no value. -/
def missingField (path : String) : SchemaError :=
  .expression s!"field {path} is unavailable at this grammar position"

namespace Decision

/-- The state in which a decision is made. -/
def state : Decision → MatchState
  | .condition _ state | .selection _ _ state => state
  | .comparison candidate _ => candidate

end Decision

/-- A decision ends the match with a schema error. -/
def Decision.Fails (input : GrammarInput) (error : SchemaError) : Decision → Prop
  | .condition node state => conditionApplies input node state = .error (.schema error)
  | .selection node selector state =>
    selectAlternativeIndex input node selector state = .error (.schema error)
  | .comparison _ _ => False

/-!
## The nodes of a schema tree

All nodes in pre-order, each with the route of child positions that leads to it, and what the index
of a tree is to find: the node that a pre-order search finds, which is the one at the first route
with the path.
-/

mutual

/-- The nodes of a tree in pre-order with their routes. -/
def SchemaNode.routed : SchemaNode → List (List Nat × SchemaNode)
  | node@(.sequence _ children) | node@(.unordered _ children) | node@(.choice _ children)
  | node@(.selectedChoice _ _ children) | node@(.struct _ children)
  | node@(.optionalStruct _ children _) | node@(.union _ _ children) =>
    ([], node) :: routedFrom 0 children
  | node@(.repeat _ _ _ child) | node@(.subrecord _ _ child) | node@(.array _ child _)
  | node@(.compressed _ _ child) | node@(.terminated _ _ child) =>
    ([], node) :: child.routed.map (Prod.map (0 :: ·) id)
  | node@(.primitive _ _) | node@(.custom _ _ _) | node@(.reference _ _) => [([], node)]

/-- The nodes of the children from a position on. -/
def routedFrom (index : Nat) : List SchemaNode → List (List Nat × SchemaNode)
  | [] => []
  | child :: children =>
    child.routed.map (Prod.map (index :: ·) id) ++ routedFrom (index + 1) children

end

/-- The first node of a tree with a path, in pre-order. -/
def SchemaNode.firstRouted (root : SchemaNode) (path : String) : Option (List Nat × SchemaNode) :=
  root.routed.find? fun routed => routed.2.path = path

/-- The index of a tree finds what the search finds, at the route of the first node with the
path. -/
structure NodeIndex.Refines (root : SchemaNode) (path : String) : Prop where
  /-- The search of the editor finds the same node. -/
  search : (NodeIndex.new root).get root path = root.findNodeByPath path
  /-- The node is the first in pre-order. -/
  first : (NodeIndex.new root).get root path = (root.firstRouted path).map Prod.snd
  /-- The route is its own. -/
  route : (NodeIndex.new root).routes.get? path = (root.firstRouted path).map Prod.fst
  /-- Nothing is found exactly when no node has the path. -/
  missing : (NodeIndex.new root).get root path = none ↔
    ∀ node, SchemaNode.Within root node → node.path ≠ path

end Bethkit
