import Bethkit.Spec.FieldAccess

/-!
# The index of a schema tree finds the first node

Collector, search and routes treat every kind of node alike: the node itself and then its children
in order. The collector therefore fills the index with the routes in pre-order, of which the first
one with a path stays.
-/

namespace Bethkit

open Lib

namespace SchemaNode

/-- What holds of a node whenever it holds of its children holds of every node. -/
theorem ofChildren {holds : SchemaNode → Prop}
    (step : ∀ node, (∀ child ∈ node.children, holds child) → holds node) (node : SchemaNode) :
    holds node := by
  have single {child : SchemaNode} (known : holds child) : ∀ other ∈ [child], holds other := by
    intro other among
    rw [List.mem_singleton.mp among]
    exact known
  induction node using SchemaNode.rec (motive_2 := fun children => ∀ child ∈ children, holds child)
  case nil other among => exact absurd among List.not_mem_nil
  case cons child children first rest other among =>
    rcases List.mem_cons.mp among with rfl | among
    · exact first
    · exact rest other among
  case «repeat» known => exact step _ (single known)
  case subrecord known => exact step _ (single known)
  case array known => exact step _ (single known)
  case compressed known => exact step _ (single known)
  case terminated known => exact step _ (single known)
  case primitive => exact step _ fun _ among => absurd among List.not_mem_nil
  case custom => exact step _ fun _ among => absurd among List.not_mem_nil
  case reference => exact step _ fun _ among => absurd among List.not_mem_nil
  all_goals
    rename_i known
    exact step _ known

/-- The nodes of a tree are its root and those of its children. -/
theorem routed_eq (node : SchemaNode) : node.routed = ([], node) :: routedFrom 0 node.children := by
  cases node with
  | «repeat» | subrecord | array | compressed | terminated =>
    rw [routed, children, routedFrom, routedFrom, List.append_nil]
  | primitive | custom | reference => rw [routed, children, routedFrom]
  | _ => rw [routed, children]

/-- A search looks at a node and then at its children. -/
theorem findNodeByPath_eq (path : String) (node : SchemaNode) : node.findNodeByPath path =
    if node.path = path then some node else findInChildren path node.children := by
  have single (child : SchemaNode) : findInChildren path [child] = child.findNodeByPath path := by
    rw [findInChildren, findInChildren]
    cases child.findNodeByPath path with
    | none => rfl
    | some found => rfl
  cases node with
  | «repeat» | subrecord | array | compressed | terminated =>
    rw [findNodeByPath, children, single]
  | primitive | custom | reference => rw [findNodeByPath, children, findInChildren]
  | _ => rw [findNodeByPath, children]

/-- The nodes below the children from a position on. -/
theorem mem_routedFrom {children : List SchemaNode} {index : Nat} {routed : List Nat × SchemaNode} :
    routed ∈ routedFrom index children ↔ ∃ position child below, children[position]? = some child ∧
      below ∈ child.routed ∧ routed = ((index + position) :: below.1, below.2) := by
  induction children generalizing index with
  | nil => simp [routedFrom]
  | cons child children rest =>
    rw [routedFrom, List.mem_append, List.mem_map, rest]
    constructor
    · rintro (⟨below, among, rfl⟩ | ⟨position, other, below, found, among, rfl⟩)
      · exact ⟨0, child, below, rfl, among, rfl⟩
      · refine ⟨position + 1, other, below, found, among, ?_⟩
        rw [Nat.add_assoc, Nat.add_comm 1 position]
    · rintro ⟨position, other, below, found, among, rfl⟩
      cases position with
      | zero =>
        obtain rfl : child = other := Option.some.inj found
        exact .inl ⟨below, among, rfl⟩
      | succ position =>
        refine .inr ⟨position, other, below, found, among, ?_⟩
        rw [Nat.add_assoc, Nat.add_comm 1 position]

/-- A route leads to its node. -/
theorem follow_routed (node : SchemaNode) :
    ∀ routed ∈ node.routed, NodeIndex.follow routed.1 node = some routed.2 := by
  induction node using ofChildren with
  | step node below =>
    intro routed among
    rw [routed_eq, List.mem_cons, mem_routedFrom] at among
    rcases among with rfl | ⟨position, child, inner, found, among, rfl⟩
    · rfl
    · have leads := below child (List.mem_of_getElem? found) inner among
      rw [Nat.zero_add, NodeIndex.follow, found]
      exact leads

/-- A child of a routed node is routed. -/
theorem exists_routed_child (node : SchemaNode) : ∀ routed ∈ node.routed,
    ∀ child ∈ routed.2.children, ∃ route, (route, child) ∈ node.routed := by
  induction node using ofChildren with
  | step node below =>
    intro routed among child member
    rw [routed_eq, List.mem_cons, mem_routedFrom] at among
    rcases among with rfl | ⟨position, parent, inner, found, among, rfl⟩
    · obtain ⟨position, found⟩ := List.mem_iff_getElem?.mp member
      have own : ([], child) ∈ child.routed := by
        rw [routed_eq]
        exact List.mem_cons_self
      refine ⟨[0 + position], ?_⟩
      rw [routed_eq]
      exact List.mem_cons_of_mem _ (mem_routedFrom.mpr ⟨position, child, _, found, own, rfl⟩)
    · obtain ⟨route, reached⟩ := below parent (List.mem_of_getElem? found) inner among child member
      refine ⟨(0 + position) :: route, ?_⟩
      rw [routed_eq node]
      exact List.mem_cons_of_mem _ (mem_routedFrom.mpr ⟨position, parent, _, found, reached, rfl⟩)

/-- The routed nodes are the nodes within a tree. -/
theorem exists_routed_iff (root node : SchemaNode) :
    (∃ route, (route, node) ∈ root.routed) ↔ Within root node := by
  constructor
  · have all : ∀ tree, Within root tree → ∀ routed ∈ tree.routed, Within root routed.2 := by
      intro tree
      induction tree using ofChildren with
      | step tree below =>
        intro within routed among
        rw [routed_eq, List.mem_cons, mem_routedFrom] at among
        rcases among with rfl | ⟨position, child, inner, found, among, rfl⟩
        · exact within
        · have member := List.mem_of_getElem? found
          exact below child member (within.child member) inner among
    rintro ⟨route, among⟩
    exact all root .here _ among
  · intro within
    induction within with
    | here => exact ⟨[], by rw [routed_eq]; exact List.mem_cons_self⟩
    | child _ member known =>
      obtain ⟨route, among⟩ := known
      exact exists_routed_child root _ among _ member

end SchemaNode

namespace NodeIndex

/-- The collector enters a node and then its children. -/
theorem collect_eq (node : SchemaNode) (route : List Nat) (routes : Std.TreeMap String (List Nat)) :
    collect node route routes =
      collectChildren node.children 0 route (routes.insertIfNew node.path route) := by
  cases node with
  | «repeat» | subrecord | array | compressed | terminated =>
    rw [collect, SchemaNode.children, collectChildren, collectChildren]
  | primitive | custom | reference => rw [collect, SchemaNode.children, collectChildren]
  | _ => rw [collect, SchemaNode.children]

/-- Enter routes one after the other; a path that has one keeps it. -/
def enter (route : List Nat) (routes : Std.TreeMap String (List Nat))
    (nodes : List (List Nat × SchemaNode)) : Std.TreeMap String (List Nat) :=
  nodes.foldl (fun routes routed => routes.insertIfNew routed.2.path (route ++ routed.1)) routes

/-- A path keeps its route, or else has the route of the first node with it. -/
theorem get?_enter (route : List Nat) (routes : Std.TreeMap String (List Nat))
    (nodes : List (List Nat × SchemaNode)) (path : String) :
    (enter route routes nodes).get? path = (routes.get? path).or
      ((nodes.find? fun routed => routed.2.path = path).map fun routed => route ++ routed.1) := by
  induction nodes generalizing routes with
  | nil => exact (Option.or_none).symm
  | cons routed nodes rest =>
    have first : (routes.insertIfNew routed.2.path (route ++ routed.1)).get? path =
        (routes.get? path).or
          (if routed.2.path = path then some (route ++ routed.1) else none) := by
      show (routes.insertIfNew routed.2.path (route ++ routed.1))[path]? = routes[path]?.or _
      rw [Std.TreeMap.getElem?_insertIfNew]
      by_cases here : routed.2.path = path
      · rw [← here, if_pos rfl]
        have known : routed.2.path ∈ routes ↔ routes[routed.2.path]?.isSome = true :=
          Std.TreeMap.mem_iff_isSome_getElem?
        cases entry : routes[routed.2.path]? with
        | none =>
          rw [entry] at known
          have absent : routed.2.path ∉ routes := fun member => Bool.false_ne_true (known.mp member)
          simp [absent]
        | some place =>
          rw [entry] at known
          have present : routed.2.path ∈ routes := known.mpr rfl
          simp [present]
      · simp [here]
    rw [enter, List.foldl_cons, ← enter, rest, first, List.find?_cons]
    by_cases here : routed.2.path = path
    · simp [here]
    · simp [here]

/-- The collector enters the routed nodes. -/
theorem collect_eq_enter (node : SchemaNode) : ∀ route routes,
    collect node route routes = enter route routes node.routed := by
  induction node using SchemaNode.ofChildren with
  | step node below =>
    have children : ∀ (children : List SchemaNode), (∀ child ∈ children, child ∈ node.children) →
        ∀ index route routes, collectChildren children index route routes =
          enter route routes (routedFrom index children) := by
      intro children
      induction children with
      | nil =>
        intro _ index route routes
        rw [collectChildren, routedFrom]
        rfl
      | cons child children rest =>
        intro member index route routes
        have head := below child (member child List.mem_cons_self)
        have tail := rest fun other among => member other (List.mem_cons_of_mem _ among)
        rw [collectChildren, head, tail, routedFrom, enter, enter, enter, List.foldl_append,
          List.foldl_map]
        simp only [Prod.map, id, List.append_assoc, List.singleton_append]
    intro route routes
    rw [collect_eq, children node.children fun _ among => among, SchemaNode.routed_eq, enter, enter,
      List.foldl_cons, List.append_nil]

/-- The search finds the first routed node with the path. -/
theorem findNodeByPath_eq_firstRouted (path : String) (node : SchemaNode) :
    node.findNodeByPath path = (node.firstRouted path).map Prod.snd := by
  induction node using SchemaNode.ofChildren with
  | step node below =>
    have children : ∀ (children : List SchemaNode), (∀ child ∈ children, child ∈ node.children) →
        ∀ index, SchemaNode.findInChildren path children =
          ((routedFrom index children).find? fun routed => routed.2.path = path).map Prod.snd := by
      intro children
      induction children with
      | nil =>
        intro _ index
        rw [SchemaNode.findInChildren, routedFrom]
        rfl
      | cons child children rest =>
        intro member index
        have head := below child (member child List.mem_cons_self)
        have tail := rest fun other among => member other (List.mem_cons_of_mem _ among)
        rw [SchemaNode.findInChildren, head, tail (index + 1), routedFrom, List.find?_append,
          List.find?_map, SchemaNode.firstRouted]
        show _ = (((child.routed.find? fun routed => routed.2.path = path).map
          (Prod.map (index :: ·) id)).or _).map Prod.snd
        cases child.routed.find? fun routed => routed.2.path = path with
        | none => rfl
        | some found => rfl
    rw [SchemaNode.findNodeByPath_eq, children node.children (fun _ among => among) 0,
      SchemaNode.firstRouted, SchemaNode.routed_eq, List.find?_cons]
    by_cases here : node.path = path
    · simp [here]
    · simp [here]

/-- The index finds what the search finds, for every tree and path. -/
theorem nodeIndex_refines_search (root : SchemaNode) (path : String) : NodeIndex.Refines root path := by
  have route : (NodeIndex.new root).routes.get? path = (root.firstRouted path).map Prod.fst := by
    rw [NodeIndex.new, collect_eq_enter, get?_enter]
    rfl
  have first : (NodeIndex.new root).get root path = (root.firstRouted path).map Prod.snd := by
    rw [NodeIndex.get, route]
    cases found : root.firstRouted path with
    | none => rfl
    | some routed => exact SchemaNode.follow_routed root routed (List.mem_of_find?_eq_some found)
  refine ⟨first.trans (findNodeByPath_eq_firstRouted path root).symm, first, route, ?_⟩
  rw [first, Option.map_eq_none_iff, SchemaNode.firstRouted, List.find?_eq_none]
  constructor
  · intro absent node within
    obtain ⟨place, among⟩ := (SchemaNode.exists_routed_iff root node).mpr within
    simpa using absent _ among
  · intro absent routed among
    have within := (SchemaNode.exists_routed_iff root routed.2).mp ⟨routed.1, among⟩
    simpa using absent routed.2 within

end NodeIndex

end Bethkit
