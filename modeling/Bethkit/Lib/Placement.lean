import Mathlib

/-!
# Lists built by placing elements behind others

Elements are placed one after the other: behind their parent, or, where there is none, at the front
or at the end. Whatever the order of the placements, as long as parents come first, an element stands
behind its parent with nothing between them but descendants of other children of the parent.
-/

namespace Bethkit.Lib

/-- Where the elements of a list are placed. -/
structure Placement (α : Type) where
  /-- The element that an element is placed behind. -/
  parent : α → Option α
  /-- An element without a parent is placed at the front. -/
  front : α → Bool

section

variable {α : Type} [DecidableEq α]

/-- A list with an element behind another one. -/
def insertBehind (target new : α) : List α → List α
  | [] => []
  | first :: rest =>
    if first = target then first :: new :: rest else first :: insertBehind target new rest

/-- In the second part of a list. -/
theorem insertBehind_append_right {target new : α} {first : List α} (absent : target ∉ first)
    (second : List α) :
    insertBehind target new (first ++ second) = first ++ insertBehind target new second := by
  induction first with
  | nil => rfl
  | cons head first rest =>
    rw [List.mem_cons, not_or] at absent
    rw [List.cons_append, insertBehind, if_neg (Ne.symm absent.1), rest absent.2, List.cons_append]

/-- In the first part of a list. -/
theorem insertBehind_append_left {target new : α} {first : List α} (present : target ∈ first)
    (second : List α) :
    insertBehind target new (first ++ second) = insertBehind target new first ++ second := by
  induction first with
  | nil => cases present
  | cons head first rest =>
    rw [List.cons_append, insertBehind, insertBehind]
    by_cases here : head = target
    · rw [if_pos here, if_pos here]
      rfl
    · rw [if_neg here, if_neg here, List.cons_append]
      have later : target ∈ first := by
        rcases List.mem_cons.mp present with same | later
        · exact absurd same.symm here
        · exact later
      rw [rest later]

/-- Directly behind the target. -/
theorem insertBehind_self (target new : α) (rest : List α) :
    insertBehind target new (target :: rest) = target :: new :: rest :=
  if_pos rfl

/-- Behind an element that is not the target. -/
theorem insertBehind_cons_of_ne {target new head : α} (differ : head ≠ target) (rest : List α) :
    insertBehind target new (head :: rest) = head :: insertBehind target new rest :=
  if_neg differ

/-- The elements with the new one. -/
theorem insertBehind_perm {target new : α} {list : List α} (present : target ∈ list) :
    (insertBehind target new list).Perm (new :: list) := by
  induction list with
  | nil => cases present
  | cons head list rest =>
    by_cases here : head = target
    · rw [here, insertBehind_self]
      exact .swap ..
    · rw [insertBehind_cons_of_ne here]
      have later : target ∈ list := by
        rcases List.mem_cons.mp present with same | later
        · exact absurd same.symm here
        · exact later
      exact ((rest later).cons head).trans (.swap ..)

/-- Placing behind the position of the target. -/
theorem insertIdx_eq_insertBehind {target : α} {list : List α} {position : Nat}
    (found : list.findIdx? (· = target) = some position) (new : α) :
    list.insertIdx (position + 1) new = insertBehind target new list := by
  induction list generalizing position with
  | nil => cases found
  | cons head list rest =>
    rw [List.findIdx?_cons] at found
    by_cases here : head = target
    · rw [if_pos (decide_eq_true here)] at found
      cases found
      rw [here, insertBehind_self]
      rfl
    · rw [if_neg (by simpa using here)] at found
      obtain ⟨later, stands, rfl⟩ := Option.map_eq_some_iff.mp found
      rw [insertBehind_cons_of_ne here, ← rest stands]
      rfl

namespace Placement

variable (placement : Placement α)

/-- A list with one more element placed. -/
def attach (ordered : List α) (new : α) : List α :=
  match placement.parent new with
  | some parent => insertBehind parent new ordered
  | none => if placement.front new then new :: ordered else ordered ++ [new]

/-- An element can be placed: it is new and its parent has been placed. -/
def Ready (ordered : List α) (new : α) : Prop :=
  new ∉ ordered ∧ ∀ parent, placement.parent new = some parent → parent ∈ ordered

/-- The steps from an element to its ancestors. -/
def Climbs (child parent : α) : Prop := placement.parent child = some parent

/-- An element is placed among the others. -/
theorem attach_perm {ordered : List α} {new : α} (ready : placement.Ready ordered new) :
    (placement.attach ordered new).Perm (new :: ordered) := by
  unfold attach
  cases above : placement.parent new with
  | some parent => exact insertBehind_perm (ready.2 parent above)
  | none =>
    show (if placement.front new = true then _ else _ : List α).Perm _
    by_cases front : placement.front new = true
    · rw [if_pos front]
    · rw [if_neg front]
      exact List.perm_append_singleton new ordered

/-- An element stands behind its parent, and between them stand descendants of other children of the
parent only. -/
def Follows (ordered : List α) (element parent : α) : Prop :=
  ∃ before between after, ordered = before ++ parent :: (between ++ element :: after) ∧
    ∀ other ∈ between, ∃ sibling, sibling ≠ element ∧ placement.parent sibling = some parent ∧
      Relation.ReflTransGen placement.Climbs other sibling

/-- A list in which every element follows its parent. -/
structure Arranged (ordered : List α) : Prop where
  /-- No element is placed twice. -/
  nodup : ordered.Nodup
  /-- Every element follows its parent. -/
  follows : ∀ element ∈ ordered, ∀ parent, placement.parent element = some parent →
    placement.Follows ordered element parent

omit [DecidableEq α] in
/-- Nothing has been placed. -/
theorem Arranged.nil : placement.Arranged [] :=
  ⟨List.nodup_nil, fun _ among => absurd among List.not_mem_nil⟩

variable {placement}

/-- One more element behind its parent keeps what follows. -/
theorem Follows.insertBehind {ordered : List α} {element parent target new : α}
    (follows : placement.Follows ordered element parent)
    (fresh : new ∉ ordered) (above : placement.parent new = some target) :
    placement.Follows (insertBehind target new ordered) element parent := by
  obtain ⟨before, between, after, rfl, inside⟩ := follows
  have notElement : new ≠ element := by
    intro same
    apply fresh
    rw [same]
    simp
  by_cases early : target ∈ before
  · rw [insertBehind_append_left early]
    exact ⟨_, between, after, rfl, inside⟩
  · rw [insertBehind_append_right early]
    by_cases here : parent = target
    · subst here
      rw [insertBehind_self]
      refine ⟨before, new :: between, after, rfl, ?_⟩
      intro other among
      rcases List.mem_cons.mp among with rfl | among
      · exact ⟨other, notElement, above, .refl⟩
      · exact inside other among
    · rw [insertBehind_cons_of_ne here]
      by_cases within : target ∈ between
      · rw [insertBehind_append_left within]
        refine ⟨before, Lib.insertBehind target new between, after, rfl, ?_⟩
        intro other among
        rcases List.mem_cons.mp ((insertBehind_perm within).mem_iff.mp among) with rfl | among
        · obtain ⟨sibling, differs, hangs, climbs⟩ := inside target within
          exact ⟨sibling, differs, hangs, .head above climbs⟩
        · exact inside other among
      · rw [insertBehind_append_right within]
        by_cases last : element = target
        · rw [last, insertBehind_self]
          rw [last] at inside
          exact ⟨before, between, new :: after, rfl, inside⟩
        · rw [insertBehind_cons_of_ne last]
          exact ⟨before, between, Lib.insertBehind target new after, rfl, inside⟩

/-- An element that was placed behind its parent follows it. -/
theorem follows_insertBehind {ordered : List α} {parent new : α} (present : parent ∈ ordered)
    (nodup : ordered.Nodup) : placement.Follows (insertBehind parent new ordered) new parent := by
  obtain ⟨before, after, rfl⟩ := List.append_of_mem present
  have early : parent ∉ before := by
    intro among
    have apart := (List.nodup_append.mp nodup).2.2 parent among parent List.mem_cons_self
    exact apart rfl
  rw [insertBehind_append_right early, insertBehind_self]
  exact ⟨before, [], after, rfl, fun _ among => absurd among List.not_mem_nil⟩

/-- A placement of an element that is ready keeps the arrangement. -/
theorem Arranged.attach {ordered : List α} {new : α} (arranged : placement.Arranged ordered)
    (ready : placement.Ready ordered new) : placement.Arranged (placement.attach ordered new) := by
  have elements := placement.attach_perm ready
  have distinct : (new :: ordered).Nodup := List.nodup_cons.mpr ⟨ready.1, arranged.nodup⟩
  refine ⟨elements.nodup_iff.mpr distinct, ?_⟩
  intro element among parent above
  have standing := List.mem_cons.mp (elements.mem_iff.mp among)
  unfold Placement.attach
  cases target : placement.parent new with
  | some target' =>
    show placement.Follows (Lib.insertBehind target' new ordered) element parent
    rcases standing with rfl | standing
    · have same : target' = parent := Option.some.inj (target.symm.trans above)
      subst same
      exact follows_insertBehind (ready.2 target' target) arranged.nodup
    · exact (arranged.follows element standing parent above).insertBehind ready.1 target
  | none =>
    have old : element ∈ ordered := by
      rcases standing with rfl | standing
      · rw [target] at above
        cases above
      · exact standing
    obtain ⟨before, between, after, same, inside⟩ := arranged.follows element old parent above
    show placement.Follows (if placement.front new = true then _ else _) element parent
    by_cases front : placement.front new = true
    · rw [if_pos front, same]
      exact ⟨new :: before, between, after, rfl, inside⟩
    · rw [if_neg front, same]
      refine ⟨before, between, after ++ [new], ?_, inside⟩
      simp

/-- The distance of two elements is the number of elements between them, and one. -/
theorem idxOf_eq_of_split {before between after : List α} {first second : α}
    (nodup : (before ++ first :: (between ++ second :: after)).Nodup) :
    (before ++ first :: (between ++ second :: after)).idxOf second =
      (before ++ first :: (between ++ second :: after)).idxOf first + between.length + 1 := by
  have early : first ∉ before := by
    intro among
    exact (List.nodup_append.mp nodup).2.2 first among first List.mem_cons_self rfl
  have split : before ++ first :: (between ++ second :: after) =
      (before ++ first :: between) ++ second :: after := by simp
  have apart : second ∉ before ++ first :: between := by
    rw [split] at nodup
    intro among
    exact (List.nodup_append.mp nodup).2.2 second among second List.mem_cons_self rfl
  have position : (before ++ first :: (between ++ second :: after)).idxOf first = before.length := by
    rw [List.idxOf_append_of_notMem early, List.idxOf_cons_self, Nat.add_zero]
  rw [position, split, List.idxOf_append_of_notMem apart, List.idxOf_cons_self, List.length_append,
    List.length_cons]
  omega

omit [DecidableEq α] in
/-- What follows in a list follows in the part that is kept, and what is kept between has been
between. -/
theorem Follows.filter {ordered : List α} {element parent : α}
    (follows : placement.Follows ordered element parent) {keep : α → Bool}
    (keepsElement : keep element = true) (keepsParent : keep parent = true) :
    ∃ before between after,
      ordered.filter keep = before ++ parent :: (between ++ element :: after) ∧
        ∀ other ∈ between, keep other = true ∧ ∃ sibling, sibling ≠ element ∧
          placement.parent sibling = some parent ∧
          Relation.ReflTransGen placement.Climbs other sibling := by
  obtain ⟨before, between, after, rfl, inside⟩ := follows
  refine ⟨before.filter keep, between.filter keep, after.filter keep, ?_, ?_⟩
  · rw [List.filter_append, List.filter_cons_of_pos keepsParent, List.filter_append,
      List.filter_cons_of_pos keepsElement]
  · intro other among
    obtain ⟨member, kept⟩ := List.mem_filter.mp among
    exact ⟨kept, inside other member⟩

/-- An element comes later than its parent. -/
theorem Arranged.idxOf_lt {ordered : List α} (arranged : placement.Arranged ordered)
    {element parent : α} (among : element ∈ ordered)
    (above : placement.parent element = some parent) :
    parent ∈ ordered ∧ ordered.idxOf parent < ordered.idxOf element := by
  obtain ⟨before, between, after, rfl, _⟩ := arranged.follows element among parent above
  refine ⟨by simp, ?_⟩
  have distance := idxOf_eq_of_split arranged.nodup
  omega

/-- The ancestors of an element come before it. -/
theorem Arranged.idxOf_lt_of_climbs {ordered : List α} (arranged : placement.Arranged ordered)
    {element ancestor : α} (among : element ∈ ordered)
    (climbs : Relation.TransGen placement.Climbs element ancestor) :
    ancestor ∈ ordered ∧ ordered.idxOf ancestor < ordered.idxOf element := by
  induction climbs with
  | single above => exact arranged.idxOf_lt among above
  | tail _ above known =>
    obtain ⟨member, earlier⟩ := known
    obtain ⟨inside, first⟩ := arranged.idxOf_lt member above
    exact ⟨inside, first.trans earlier⟩

/-- No element of an arrangement is its own ancestor. -/
theorem Arranged.acyclic {ordered : List α} (arranged : placement.Arranged ordered) {element : α}
    (among : element ∈ ordered) : ¬Relation.TransGen placement.Climbs element element :=
  fun climbs => Nat.lt_irrefl _ (arranged.idxOf_lt_of_climbs among climbs).2

/-! ## Placing a sequence -/

variable (placement)

/-- The elements of a sequence, placed one after the other. -/
def attachAll (ordered : List α) (sequence : List α) : List α :=
  sequence.foldl placement.attach ordered

/-- Every element of a sequence is ready when it is placed. -/
def Orderly : List α → List α → Prop
  | _, [] => True
  | ordered, new :: sequence =>
    placement.Ready ordered new ∧ Orderly (placement.attach ordered new) sequence

variable {placement}

/-- One sequence after the other. -/
theorem orderly_append {ordered first second : List α} :
    placement.Orderly ordered (first ++ second) ↔
      placement.Orderly ordered first ∧
        placement.Orderly (placement.attachAll ordered first) second := by
  induction first generalizing ordered with
  | nil =>
    rw [List.nil_append, Orderly, true_and]
    rfl
  | cons new first rest =>
    rw [List.cons_append, Orderly, Orderly, rest, and_assoc]
    rfl

/-- The placed elements are those of the list and of the sequence. -/
theorem attachAll_perm {ordered sequence : List α} (orderly : placement.Orderly ordered sequence) :
    (placement.attachAll ordered sequence).Perm (ordered ++ sequence) := by
  induction sequence generalizing ordered with
  | nil =>
    rw [List.append_nil]
    exact .refl _
  | cons new sequence rest =>
    have first := placement.attach_perm orderly.1
    have all : (placement.attach ordered new ++ sequence).Perm ((new :: ordered) ++ sequence) :=
      first.append_right sequence
    exact ((rest orderly.2).trans all).trans List.perm_middle.symm

/-- An orderly sequence of placements keeps the arrangement. -/
theorem Arranged.attachAll {ordered sequence : List α} (arranged : placement.Arranged ordered)
    (orderly : placement.Orderly ordered sequence) :
    placement.Arranged (placement.attachAll ordered sequence) := by
  induction sequence generalizing ordered with
  | nil => exact arranged
  | cons new sequence rest => exact rest (arranged.attach orderly.1) orderly.2

variable (placement)

/-- The sequence of placements after an element has been visited: its ancestors come first. -/
def visit : Nat → List α → α → List α
  | 0, placed, _ => placed
  | fuel + 1, placed, element =>
    if element ∈ placed then placed
    else
      match placement.parent element with
      | some parent => visit fuel placed parent ++ [element]
      | none => placed ++ [element]

/-- A visit goes on from what has been placed. -/
theorem prefix_visit (fuel : Nat) (placed : List α) (element : α) :
    placed <+: placement.visit fuel placed element := by
  induction fuel generalizing element with
  | zero => exact List.prefix_rfl
  | succ fuel rest =>
    unfold visit
    by_cases among : element ∈ placed
    · rw [if_pos among]
    · rw [if_neg among]
      cases placement.parent element with
      | some parent => exact (rest parent).trans (List.prefix_append _ _)
      | none => exact List.prefix_append _ _

/-- Visits go on from what has been placed. -/
theorem prefix_visitAll (fuel : Nat) (placed elements : List α) :
    placed <+: elements.foldl (placement.visit fuel) placed := by
  induction elements generalizing placed with
  | nil => exact List.prefix_rfl
  | cons element elements rest =>
    exact (placement.prefix_visit fuel placed element).trans (rest _)

end Placement

end

end Bethkit.Lib
