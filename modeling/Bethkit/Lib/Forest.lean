import Mathlib

/-!
# Labelled trees and their traversals

A tree has values at its leaves and labels at its inner nodes; a forest is a list of trees.
Every traversal of the development is one `RoseTree.fold`, so its equations are two lines, and
proofs follow the one induction principle `RoseTree.ind`. The depth-first iterator that keeps an
explicit stack of slices and positions is shown to enumerate the leaves in order.
-/

namespace Bethkit.Lib

/-- Leaves carry values, inner nodes carry a label and any number of children. -/
inductive RoseTree (γ ρ : Type) where
  /-- A leaf. -/
  | leaf (value : ρ)
  /-- An inner node. -/
  | node (label : γ) (children : List (RoseTree γ ρ))

namespace RoseTree

variable {γ ρ γ' ρ' β : Type}

/-- Induction with the hypothesis available at every child of an inner node. -/
@[elab_as_elim, induction_eliminator]
theorem ind {motive : RoseTree γ ρ → Prop} (leaf : ∀ value, motive (.leaf value))
    (node : ∀ label children, (∀ child ∈ children, motive child) → motive (.node label children))
    (tree : RoseTree γ ρ) : motive tree :=
  RoseTree.rec (motive_1 := motive) (motive_2 := fun children => ∀ child ∈ children, motive child)
    leaf node (fun _ none => absurd none List.not_mem_nil)
    (fun _ _ head tail _ found => by
      rcases List.mem_cons.mp found with rfl | later
      · exact head
      · exact tail _ later) tree

mutual

/-- Replace every constructor, from the leaves upwards. -/
def fold (leaf : ρ → β) (node : γ → List β → β) : RoseTree γ ρ → β
  | .leaf value => leaf value
  | .node label children => node label (foldList leaf node children)

/-- The folds of a list of trees. -/
def foldList (leaf : ρ → β) (node : γ → List β → β) : List (RoseTree γ ρ) → List β
  | [] => []
  | child :: children => fold leaf node child :: foldList leaf node children

end

/-- Folding a list of trees is folding each of them. -/
theorem foldList_eq_map (leaf : ρ → β) (node : γ → List β → β) (children : List (RoseTree γ ρ)) :
    foldList leaf node children = children.map (fold leaf node) := by
  induction children with
  | nil => rfl
  | cons child children ih => rw [foldList, ih, List.map_cons]

/-- The fold of a leaf. -/
@[simp]
theorem fold_leaf (leaf : ρ → β) (node : γ → List β → β) (value : ρ) :
    fold leaf node (.leaf value) = leaf value := by rw [fold]

/-- The fold of an inner node. -/
@[simp]
theorem fold_node (leaf : ρ → β) (node : γ → List β → β) (label : γ)
    (children : List (RoseTree γ ρ)) :
    fold leaf node (.node label children) = node label (children.map (fold leaf node)) := by
  rw [fold, foldList_eq_map]

/-- The leaf values in depth-first order. -/
def leaves : RoseTree γ ρ → List ρ := fold (fun value => [value]) (fun _ parts => parts.flatten)

/-- The leaves of a leaf. -/
@[simp]
theorem leaves_leaf (value : ρ) : (RoseTree.leaf value : RoseTree γ ρ).leaves = [value] := by
  simp [leaves]

/-- The leaves of an inner node. -/
@[simp]
theorem leaves_node (label : γ) (children : List (RoseTree γ ρ)) :
    (RoseTree.node label children).leaves = children.flatMap leaves := by
  simp [leaves, List.flatMap]

/-- The number of inner nodes and leaves together. -/
def size : RoseTree γ ρ → Nat := fold (fun _ => 1) (fun _ parts => parts.sum + 1)

/-- The size of a leaf. -/
@[simp]
theorem size_leaf (value : ρ) : (RoseTree.leaf value : RoseTree γ ρ).size = 1 := by simp [size]

/-- The size of an inner node. -/
@[simp]
theorem size_node (label : γ) (children : List (RoseTree γ ρ)) :
    (RoseTree.node label children).size = (children.map size).sum + 1 := by simp [size]

/-- Every tree has a root. -/
theorem size_pos (tree : RoseTree γ ρ) : 0 < tree.size := by
  cases tree <;> simp

mutual

/-- All inner nodes with their children, each before the nodes below it. -/
def nodes : RoseTree γ ρ → List (γ × List (RoseTree γ ρ))
  | .leaf _ => []
  | .node label children => (label, children) :: nodesList children

/-- The inner nodes of a list of trees. -/
def nodesList : List (RoseTree γ ρ) → List (γ × List (RoseTree γ ρ))
  | [] => []
  | child :: children => nodes child ++ nodesList children

end

/-- The inner nodes of a list are those of its trees, in order. -/
theorem nodesList_eq_flatMap (children : List (RoseTree γ ρ)) :
    nodesList children = children.flatMap nodes := by
  induction children with
  | nil => rfl
  | cons child children ih => rw [nodesList, ih, List.flatMap_cons]

/-- A leaf has no inner nodes. -/
@[simp]
theorem nodes_leaf (value : ρ) : (RoseTree.leaf value : RoseTree γ ρ).nodes = [] := by rw [nodes]

/-- An inner node comes before the nodes below it. -/
@[simp]
theorem nodes_node (label : γ) (children : List (RoseTree γ ρ)) :
    (RoseTree.node label children).nodes = (label, children) :: children.flatMap nodes := by
  rw [nodes, nodesList_eq_flatMap]

/-- The size counts each inner node and each leaf once. -/
theorem size_eq (tree : RoseTree γ ρ) : tree.size = tree.nodes.length + tree.leaves.length := by
  induction tree with
  | leaf value => simp
  | node label children ih =>
    have sum : (children.map size).sum =
        (children.flatMap nodes).length + (children.flatMap leaves).length := by
      induction children with
      | nil => rfl
      | cons child children inner =>
        have head := ih child List.mem_cons_self
        have tail := inner (fun other found => ih other (List.mem_cons_of_mem _ found))
        simp only [List.map_cons, List.sum_cons, List.flatMap_cons, List.length_append]
        omega
    simp only [size_node, nodes_node, leaves_node, List.length_cons, sum]
    omega

/-- Relabel the inner nodes and rewrite the leaf values. -/
def map (onLabel : γ → γ') (onLeaf : ρ → ρ') : RoseTree γ ρ → RoseTree γ' ρ' :=
  fold (fun value => .leaf (onLeaf value)) (fun label parts => .node (onLabel label) parts)

/-- Mapping a leaf. -/
@[simp]
theorem map_leaf (onLabel : γ → γ') (onLeaf : ρ → ρ') (value : ρ) :
    (RoseTree.leaf value).map onLabel onLeaf = .leaf (onLeaf value) := by simp [map]

/-- Mapping an inner node. -/
@[simp]
theorem map_node (onLabel : γ → γ') (onLeaf : ρ → ρ') (label : γ) (children : List (RoseTree γ ρ)) :
    (RoseTree.node label children).map onLabel onLeaf =
      .node (onLabel label) (children.map (map onLabel onLeaf)) := by simp [map]

/-- Mapping keeps the shape, so the leaves of the image are the images of the leaves. -/
theorem leaves_map (onLabel : γ → γ') (onLeaf : ρ → ρ') (tree : RoseTree γ ρ) :
    (tree.map onLabel onLeaf).leaves = tree.leaves.map onLeaf := by
  induction tree with
  | leaf value => simp
  | node label children ih =>
    rw [map_node, leaves_node, leaves_node, List.flatMap_map, List.map_flatMap]
    exact List.flatMap_congr ih

/-! ## The reach of a forest

A recursive walk that treats the children of a tree and its later siblings as two subproblems
needs one level for every step of the longest path through first children and next siblings. -/

mutual

/-- The reach of what is below a tree. -/
def reachBelow : RoseTree γ ρ → Nat
  | .leaf _ => 0
  | .node _ children => reach children

/-- The number of levels that a walk of the forest needs. -/
def reach : List (RoseTree γ ρ) → Nat
  | [] => 0
  | child :: children => max (reachBelow child) (reach children) + 1

end

/-- Nothing is reached from a leaf. -/
@[simp]
theorem reachBelow_leaf (value : ρ) : (RoseTree.leaf value : RoseTree γ ρ).reachBelow = 0 := by
  rw [reachBelow]

/-- The children are reached from an inner node. -/
@[simp]
theorem reachBelow_node (label : γ) (children : List (RoseTree γ ρ)) :
    (RoseTree.node label children).reachBelow = reach children := by rw [reachBelow]

/-- Nothing is reached in an empty forest. -/
@[simp]
theorem reach_nil : reach ([] : List (RoseTree γ ρ)) = 0 := by rw [reach]

/-- The first tree and the later ones are reached one level down. -/
@[simp]
theorem reach_cons (child : RoseTree γ ρ) (children : List (RoseTree γ ρ)) :
    reach (child :: children) = max child.reachBelow (reach children) + 1 := by rw [reach]

/-- A measure that pays one for every tree bounds the reach of a forest. -/
theorem reach_le_of_weight (weight : RoseTree γ ρ → Nat) (leaf : ∀ value, 0 < weight (.leaf value))
    (node : ∀ label children, (children.map weight).sum < weight (.node label children))
    (forest : List (RoseTree γ ρ)) : reach forest ≤ (forest.map weight).sum := by
  have below : ∀ tree : RoseTree γ ρ, tree.reachBelow < weight tree := by
    intro tree
    induction tree with
    | leaf value => simpa using leaf value
    | node label children ih =>
      have inner : reach children ≤ (children.map weight).sum := by
        clear node
        induction children with
        | nil => simp
        | cons child children later =>
          have head := ih child List.mem_cons_self
          have tail := later fun other found => ih other (List.mem_cons_of_mem _ found)
          simp only [reach_cons, List.map_cons, List.sum_cons]
          omega
      rw [reachBelow_node]
      exact Nat.lt_of_le_of_lt inner (node label children)
  induction forest with
  | nil => simp
  | cons tree forest ih =>
    have head := below tree
    simp only [reach_cons, List.map_cons, List.sum_cons]
    omega

/-! ## The depth-first iterator

A frame is a slice of children with the position of the next one; the first frame of a state is
the innermost. Every step pops an exhausted frame, yields a leaf, or enters an inner node. -/

/-- The weight of a frame: what is left of its slice, counted twice, and the frame itself. -/
def frameWeight (frame : List (RoseTree γ ρ) × Nat) : Nat :=
  2 * ((frame.1.drop frame.2).map size).sum + 1

/-- What is left of a slice is the tree at the position and what comes after it. -/
theorem frameWeight_of_lt (children : List (RoseTree γ ρ)) (index : Nat)
    (inside : index < children.length) :
    frameWeight (children, index) =
      2 * children[index].size + frameWeight (children, index + 1) := by
  simp only [frameWeight, List.drop_eq_getElem_cons inside, List.map_cons, List.sum_cons]
  omega

/-- Run the iterator until its stack is empty, collecting the leaves it yields. -/
def drain : List (List (RoseTree γ ρ) × Nat) → List ρ
  | [] => []
  | (children, index) :: stack =>
    if inside : index < children.length then
      match found : children[index] with
      | .leaf value => value :: drain ((children, index + 1) :: stack)
      | .node _ below => drain ((below, 0) :: (children, index + 1) :: stack)
    else drain stack
termination_by stack => (stack.map frameWeight).sum
decreasing_by
  · simp only [List.map_cons, List.sum_cons, frameWeight_of_lt children index inside]
    have := size_pos children[index]
    omega
  · simp only [List.map_cons, List.sum_cons, frameWeight_of_lt children index inside, found,
      size_node]
    simp only [frameWeight, List.drop_zero]
    omega
  · simp only [List.map_cons, List.sum_cons, frameWeight]
    omega

/-- The iterator yields exactly the leaves that its frames still hold, in order. -/
theorem drain_eq (stack : List (List (RoseTree γ ρ) × Nat)) :
    drain stack = stack.flatMap (fun frame => (frame.1.drop frame.2).flatMap leaves) := by
  fun_induction drain stack with
  | case1 => rfl
  | case2 stack children index inside value found ih =>
    rw [ih]
    simp [List.drop_eq_getElem_cons inside, found]
  | case3 stack children index inside label below found ih =>
    rw [ih]
    simp [List.drop_eq_getElem_cons inside, found]
  | case4 stack children index outside ih =>
    rw [ih]
    simp [List.drop_eq_nil_of_le (Nat.le_of_not_lt outside)]

/-- Started on the children of a node, the iterator enumerates the leaves below it. -/
theorem drain_start (children : List (RoseTree γ ρ)) :
    drain [(children, 0)] = children.flatMap leaves := by
  simp [drain_eq]

end RoseTree

end Bethkit.Lib

/-!
## Places in a forest

A leaf of a forest stands at the place that the positions of its ancestors and its own position
give, outermost first. No two leaves share a place, even where they are equal.
-/

namespace Bethkit.Lib.RoseTree

variable {γ ρ : Type}

/-- The leaf that the positions of a place lead to. -/
def leafAt : List (RoseTree γ ρ) → List Nat → Option ρ
  | _, [] => none
  | children, index :: place =>
    match children[index]? with
    | none => none
    | some (.leaf value) => if place = [] then some value else none
    | some (.node _ below) => leafAt below place

mutual

/-- The leaves of a tree with their places below its root. -/
def placesBelow : RoseTree γ ρ → List (List Nat × ρ)
  | .leaf value => [([], value)]
  | .node _ children => placesFrom 0 children

/-- The leaves of trees that stand at a position and behind it, with their places. -/
def placesFrom (index : Nat) : List (RoseTree γ ρ) → List (List Nat × ρ)
  | [] => []
  | child :: children =>
    (placesBelow child).map (Prod.map (index :: ·) id) ++ placesFrom (index + 1) children

end

/-- The leaves of a forest with their places, in depth-first order. -/
def places (forest : List (RoseTree γ ρ)) : List (List Nat × ρ) := placesFrom 0 forest

/-- A leaf stands at its own root. -/
@[simp]
theorem placesBelow_leaf (value : ρ) :
    (RoseTree.leaf value : RoseTree γ ρ).placesBelow = [([], value)] := by rw [placesBelow]

/-- The leaves of an inner node are those of its children. -/
@[simp]
theorem placesBelow_node (label : γ) (children : List (RoseTree γ ρ)) :
    (RoseTree.node label children).placesBelow = placesFrom 0 children := by rw [placesBelow]

/-- There is no leaf without trees. -/
@[simp]
theorem placesFrom_nil (index : Nat) : placesFrom index ([] : List (RoseTree γ ρ)) = [] := by
  rw [placesFrom]

/-- The leaves of the first tree stand at its position, the others behind it. -/
@[simp]
theorem placesFrom_cons (index : Nat) (child : RoseTree γ ρ) (children : List (RoseTree γ ρ)) :
    placesFrom index (child :: children) =
      child.placesBelow.map (Prod.map (index :: ·) id) ++ placesFrom (index + 1) children := by
  rw [placesFrom]

/-- A property of all trees below a root that their leaves have at every position. -/
theorem forall_placesFrom {holds : List Nat × ρ → Prop} {forest : List (RoseTree γ ρ)} {index : Nat}
    (each : ∀ offset tree, forest[offset]? = some tree → ∀ placed ∈ tree.placesBelow,
      holds ((index + offset) :: placed.1, placed.2)) :
    ∀ placed ∈ placesFrom index forest, holds placed := by
  induction forest generalizing index with
  | nil => simp
  | cons child children ih =>
    intro placed found
    rw [placesFrom_cons] at found
    rcases List.mem_append.mp found with first | later
    · obtain ⟨below, listed, same⟩ := List.mem_map.mp first
      rw [← same]
      exact each 0 child rfl below listed
    · refine ih (fun offset tree stands below listed => ?_) placed later
      have behind : index + 1 + offset = index + (offset + 1) := by omega
      rw [behind]
      exact each (offset + 1) tree stands below listed

/-- The leaves with their places are the leaves of the traversal, in its order. -/
theorem map_snd_placesBelow (tree : RoseTree γ ρ) :
    tree.placesBelow.map Prod.snd = tree.leaves := by
  induction tree with
  | leaf value => simp
  | node label children ih =>
    have from_ (index : Nat) : (placesFrom index children).map Prod.snd = children.flatMap leaves := by
      clear label
      induction children generalizing index with
      | nil => rw [placesFrom_nil, List.map_nil, List.flatMap_nil]
      | cons child children rest =>
        have first := ih child List.mem_cons_self
        have later := rest (fun other found => ih other (List.mem_cons_of_mem _ found)) (index + 1)
        rw [placesFrom_cons, List.map_append, later, List.map_map, List.flatMap_cons, ← first]
        rfl
    rw [placesBelow_node, from_, leaves_node]

/-- The leaves of a forest with their places are those of the traversal, in its order. -/
theorem map_snd_places (forest : List (RoseTree γ ρ)) :
    (places forest).map Prod.snd = forest.flatMap leaves := by
  rw [places]
  generalize 0 = index
  induction forest generalizing index with
  | nil => rw [placesFrom_nil, List.map_nil, List.flatMap_nil]
  | cons tree forest ih =>
    rw [placesFrom_cons, List.map_append, ih, List.map_map, List.flatMap_cons, ← map_snd_placesBelow]
    rfl

/-- A place leads to its leaf. -/
theorem leafAt_of_mem {forest : List (RoseTree γ ρ)} {placed : List Nat × ρ}
    (found : placed ∈ places forest) : leafAt forest placed.1 = some placed.2 := by
  have below (tree : RoseTree γ ρ) : ∀ placed ∈ tree.placesBelow,
      ∀ (forest : List (RoseTree γ ρ)) (index : Nat), forest[index]? = some tree →
        leafAt forest (index :: placed.1) = some placed.2 := by
    induction tree with
    | leaf value =>
      intro placed found forest index stands
      rw [placesBelow_leaf, List.mem_singleton] at found
      simp [found, leafAt, stands]
    | node label children ih =>
      intro placed found forest index stands
      rw [placesBelow_node] at found
      simp only [leafAt, stands]
      have all : ∀ placed ∈ placesFrom 0 children, leafAt children placed.1 = some placed.2 := by
        apply forall_placesFrom
        intro offset tree stands below listed
        rw [Nat.zero_add]
        exact ih tree (List.mem_of_getElem? stands) below listed children offset stands
      exact all placed found
  have all : ∀ placed ∈ placesFrom 0 forest, leafAt forest placed.1 = some placed.2 := by
    apply forall_placesFrom
    intro offset tree stands placed listed
    rw [Nat.zero_add]
    exact below tree placed listed forest offset stands
  exact all placed found

/-- The places of trees that stand apart are apart, if those within each tree are. -/
theorem nodup_placesFrom {forest : List (RoseTree γ ρ)}
    (each : ∀ tree ∈ forest, (tree.placesBelow.map Prod.fst).Nodup) (index : Nat) :
    ((placesFrom index forest).map Prod.fst).Nodup := by
  induction forest generalizing index with
  | nil => simp
  | cons tree forest ih =>
    obtain ⟨first, later⟩ := List.forall_mem_cons.mp each
    have inside : (tree.placesBelow.map (Prod.map (index :: ·) id)).map Prod.fst =
        (tree.placesBelow.map Prod.fst).map (index :: ·) := by
      rw [List.map_map, List.map_map]
      rfl
    have behind : ∀ placed ∈ placesFrom (index + 1) forest, placed.1.head? ≠ some index := by
      apply forall_placesFrom
      intro offset tree _ placed _ same
      have equal : index + 1 + offset = index := Option.some.inj same
      omega
    rw [placesFrom_cons, List.map_append, inside, List.nodup_append]
    refine ⟨first.map fun left right same => (List.cons.inj same).2, ih later (index + 1), ?_⟩
    intro place front other back same
    obtain ⟨below, _, rfl⟩ := List.mem_map.mp front
    obtain ⟨placed, listed, rfl⟩ := List.mem_map.mp back
    exact behind placed listed (by rw [← same, List.head?_cons])

/-- No two leaves share a place. -/
theorem nodup_places (forest : List (RoseTree γ ρ)) : ((places forest).map Prod.fst).Nodup := by
  have each (tree : RoseTree γ ρ) : (tree.placesBelow.map Prod.fst).Nodup := by
    induction tree with
    | leaf value => simp
    | node label children ih =>
      rw [placesBelow_node]
      exact nodup_placesFrom ih 0
  exact nodup_placesFrom (fun tree _ => each tree) 0

end Bethkit.Lib.RoseTree
