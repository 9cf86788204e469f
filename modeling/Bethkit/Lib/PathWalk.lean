import Bethkit.Lib.Forest

/-!
# Walks that resume from a path

A depth-first walk that may hold no reference between two calls keeps only its position in each
slice, outermost first, and finds the slices again from the root. A position is one past the child
that was taken last, so every position but the innermost stands behind the node that was entered.
Such a path stands for a stack of the iterator, which tells what the walk still has ahead.
-/

namespace Bethkit.Lib.RoseTree

variable {γ ρ : Type}

/-- The slice that a path leads to. -/
def descend : List (RoseTree γ ρ) → List Nat → Option (List (RoseTree γ ρ))
  | children, [] => some children
  | _, 0 :: _ => none
  | children, (position + 1) :: path =>
    match children[position]? with
    | some (.node _ below) => descend below path
    | _ => none

/-- The stack of the iterator that a path stands for. -/
def frames : List (RoseTree γ ρ) → List Nat → List (List (RoseTree γ ρ) × Nat)
  | _, [] => []
  | children, 0 :: _ => [(children, 0)]
  | children, (position + 1) :: path =>
    match children[position]? with
    | some (.node _ below) => frames below path ++ [(children, position + 1)]
    | _ => [(children, position + 1)]

/-- The leaves that a stack still holds. -/
def ahead (stack : List (List (RoseTree γ ρ) × Nat)) : List ρ :=
  stack.flatMap fun frame => (frame.1.drop frame.2).flatMap leaves

/-- The steps that a stack still takes. -/
def stackWeight (stack : List (List (RoseTree γ ρ) × Nat)) : Nat := (stack.map frameWeight).sum

/-- A step of a path enters the node before its position. -/
theorem descend_cons {children inner : List (RoseTree γ ρ)} {position : Nat} {path : List Nat}
    (found : descend children (position :: path) = some inner) :
    ∃ index label below, position = index + 1 ∧ children[index]? = some (.node label below) ∧
      descend below path = some inner := by
  unfold descend at found
  split at found
  · contradiction
  · contradiction
  · rename_i index rest same
    obtain ⟨rfl, rfl⟩ := List.cons.inj same
    split at found
    · rename_i label below child
      exact ⟨index, label, below, rfl, child, found⟩
    · contradiction

/-- A path that goes on behind another one continues its stack. -/
theorem frames_append {children inner : List (RoseTree γ ρ)} {path : List Nat}
    (found : descend children path = some inner) (rest : List Nat) :
    frames children (path ++ rest) = frames inner rest ++ frames children path := by
  induction path generalizing children with
  | nil =>
    have same : children = inner := Option.some.inj found
    simp [frames, same]
  | cons position path ih =>
    obtain ⟨index, label, below, rfl, child, onward⟩ := descend_cons found
    simp only [List.cons_append, frames, child, ih onward, List.append_assoc]

/-- A path behind another one leads on from its slice. -/
theorem descend_append {children inner : List (RoseTree γ ρ)} {path : List Nat}
    (found : descend children path = some inner) (rest : List Nat) :
    descend children (path ++ rest) = descend inner rest := by
  induction path generalizing children with
  | nil =>
    have same : children = inner := Option.some.inj found
    rw [List.nil_append, same]
  | cons position path ih =>
    obtain ⟨index, label, below, rfl, child, onward⟩ := descend_cons found
    simp only [List.cons_append, descend, child, ih onward]

/-- The start of a path leads somewhere when the path does. -/
theorem descend_of_append {children inner : List (RoseTree γ ρ)} {path rest : List Nat}
    (found : descend children (path ++ rest) = some inner) :
    ∃ outer, descend children path = some outer := by
  induction path generalizing children with
  | nil => exact ⟨children, rfl⟩
  | cons position path ih =>
    obtain ⟨index, label, below, rfl, child, onward⟩ := descend_cons found
    simp only [descend, child]
    exact ih onward

variable {children inner : List (RoseTree γ ρ)} {path : List Nat} {position : Nat}

/-- The innermost frame of a path. -/
theorem frames_concat (found : descend children path = some inner) (position : Nat) :
    frames children (path ++ [position]) = (inner, position) :: frames children path := by
  have last : frames inner [position] = [(inner, position)] := by
    cases position with
    | zero => rfl
    | succ position =>
      unfold frames
      split <;> simp [frames]
  rw [frames_append found, last, List.singleton_append]

/-- What is ahead of two stacks, one behind the other. -/
theorem ahead_append (stack rest : List (List (RoseTree γ ρ) × Nat)) :
    ahead (stack ++ rest) = ahead stack ++ ahead rest := List.flatMap_append

/-- The steps of two stacks, one behind the other. -/
theorem stackWeight_append (stack rest : List (List (RoseTree γ ρ) × Nat)) :
    stackWeight (stack ++ rest) = stackWeight stack + stackWeight rest := by
  simp [stackWeight]

/-- Behind a leaf, the leaf is no longer ahead. -/
theorem ahead_leaf {value : ρ} (found : descend children path = some inner)
    (child : inner[position]? = some (.leaf value)) :
    ahead (frames children (path ++ [position])) =
      value :: ahead (frames children (path ++ [position + 1])) := by
  obtain ⟨inside, at_⟩ := List.getElem?_eq_some_iff.mp child
  simp [ahead, frames_concat found, List.drop_eq_getElem_cons inside, at_]

/-- Behind an inner node, the path leads into it. -/
theorem descend_node {label : γ} {below : List (RoseTree γ ρ)}
    (found : descend children path = some inner)
    (child : inner[position]? = some (.node label below)) :
    descend children (path ++ [position + 1]) = some below := by
  rw [descend_append found]
  simp [descend, child]

/-- Entering an inner node leaves the same leaves ahead. -/
theorem ahead_node {label : γ} {below : List (RoseTree γ ρ)}
    (found : descend children path = some inner)
    (child : inner[position]? = some (.node label below)) :
    ahead (frames children (path ++ [position])) =
      ahead (frames children (path ++ [position + 1] ++ [0])) := by
  obtain ⟨inside, at_⟩ := List.getElem?_eq_some_iff.mp child
  rw [frames_concat (descend_node found child), frames_concat found, frames_concat found]
  simp [ahead, List.drop_eq_getElem_cons inside, at_]

/-- Entering an inner node is a step. -/
theorem stackWeight_node {label : γ} {below : List (RoseTree γ ρ)}
    (found : descend children path = some inner)
    (child : inner[position]? = some (.node label below)) :
    stackWeight (frames children (path ++ [position + 1] ++ [0])) <
      stackWeight (frames children (path ++ [position])) := by
  obtain ⟨inside, at_⟩ := List.getElem?_eq_some_iff.mp child
  rw [frames_concat (descend_node found child), frames_concat found, frames_concat found]
  simp only [stackWeight, List.map_cons, List.sum_cons, frameWeight_of_lt inner position inside,
    at_, size_node]
  simp only [frameWeight, List.drop_zero]
  omega

/-- Past the end of a slice, what is ahead is ahead of the path around it. -/
theorem ahead_none (found : descend children path = some inner)
    (outside : inner[position]? = none) :
    ahead (frames children (path ++ [position])) = ahead (frames children path) := by
  rw [frames_concat found]
  simp [ahead, List.drop_eq_nil_of_le (List.getElem?_eq_none_iff.mp outside)]

/-- Leaving a slice is a step. -/
theorem stackWeight_none (position : Nat) (found : descend children path = some inner) :
    stackWeight (frames children path) < stackWeight (frames children (path ++ [position])) := by
  rw [frames_concat found]
  simp only [stackWeight, List.map_cons, List.sum_cons, frameWeight]
  omega

end Bethkit.Lib.RoseTree
