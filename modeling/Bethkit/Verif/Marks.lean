import Bethkit.Verif.Emission

/-!
# Which groups are marked

The pass over the tree marks a group when it is reordered or when one of its children reports
that it contains a reordered group; the children after the first such child are not visited. A
tree is covered by the marks exactly when nothing changes behind the first reordered child.
-/

namespace Bethkit

open Lib

/-- The order that a table of orders holds for a group. -/
def registeredOrder (groupOrders : GroupOrders) : OrderOf :=
  fun info => info.sourceRange.bind groupOrders.lookup

/-- Children of which all later ones keep their orders once one has reordered groups. -/
def FirstOnlyAll (orderOf : OrderOf) (children : List GroupChild) : Prop :=
  (children.Pairwise fun earlier later => HasReordered orderOf earlier → OrdersKeep orderOf later) ∧
    ∀ child ∈ children, FirstOnly orderOf child

/-- The condition on a group is the condition on its children. -/
theorem firstOnly_node (orderOf : OrderOf) (info : GroupInfo) (children : List GroupChild) :
    FirstOnly orderOf (.node info children) ↔ FirstOnlyAll orderOf children := by
  simp only [FirstOnly, FirstOnlyAll, RoseTree.nodes_node, List.mem_cons, List.mem_flatMap,
    forall_eq_or_imp]
  refine and_congr_right fun _ => ⟨?_, ?_⟩
  · intro all child among group found
    exact all group ⟨child, among, found⟩
  · rintro all group ⟨child, among, found⟩
    exact all child among group found

/-- A tree that keeps its orders meets the condition. -/
theorem OrdersKeep.firstOnly {orderOf : OrderOf} {tree : GroupChild}
    (keeps : OrdersKeep orderOf tree) : FirstOnly orderOf tree := by
  induction tree using RoseTree.ind with
  | leaf record => simp [FirstOnly]
  | node info children ih =>
    obtain ⟨_, below⟩ := (ordersKeep_node ..).mp keeps
    refine (firstOnly_node ..).mpr ⟨?_, fun child among => ih child among (below child among)⟩
    exact List.pairwise_of_forall_mem_list fun _ _ later among _ => below later among

/-- Children that keep their orders meet the condition. -/
theorem firstOnlyAll_of_keeps {orderOf : OrderOf} {children : List GroupChild}
    (keeps : ∀ child ∈ children, OrdersKeep orderOf child) : FirstOnlyAll orderOf children :=
  ⟨List.pairwise_of_forall_mem_list fun _ _ later among _ => keeps later among,
    fun child among => (keeps child among).firstOnly⟩

mutual

/-- A pass reports whether the tree contains a reordered group. -/
theorem fst_markReordered (groupOrders : GroupOrders) (tree : GroupChild) (touched : Finset Range) :
    (markReordered groupOrders tree touched).1 = true ↔
      HasReordered (registeredOrder groupOrders) tree := by
  cases tree with
  | leaf record => simp [markReordered, HasReordered]
  | node info children =>
    rw [markReordered, hasReordered_node, ← fst_markReorderedAny groupOrders children touched,
      Bool.or_eq_true]
    rfl

/-- The pass over children reports whether one of them contains a reordered group. -/
theorem fst_markReorderedAny (groupOrders : GroupOrders) (children : List GroupChild)
    (touched : Finset Range) : (markReorderedAny groupOrders children touched).1 = true ↔
      ∃ child ∈ children, HasReordered (registeredOrder groupOrders) child := by
  cases children with
  | nil => simp [markReorderedAny]
  | cons child children =>
    have head := fst_markReordered groupOrders child touched
    have tail := fst_markReorderedAny groupOrders children
      (markReordered groupOrders child touched).2
    rw [markReorderedAny, List.exists_mem_cons_iff]
    by_cases first : (markReordered groupOrders child touched).1 = true
    · simp only [first, if_true]
      exact iff_of_true trivial (.inl (head.mp first))
    · simp only [first, Bool.false_eq_true, if_false]
      rw [tail]
      exact (or_iff_right fun reordered => first (head.mpr reordered)).symm

end

mutual

/-- A pass adds ranges of the tree only. -/
theorem mem_markReordered (groupOrders : GroupOrders) (tree : GroupChild) (touched : Finset Range)
    (range : Range) : (range ∈ touched → range ∈ (markReordered groupOrders tree touched).2) ∧
      (range ∈ (markReordered groupOrders tree touched).2 →
        range ∈ touched ∨ some range ∈ treeRanges tree) := by
  cases tree with
  | leaf record => exact ⟨id, .inl⟩
  | node info children =>
    obtain ⟨keeps, adds⟩ := mem_markReorderedAny groupOrders children touched range
    rw [markReordered, treeRanges_node, List.mem_cons]
    simp only [markRange]
    split
    · cases placed : info.sourceRange with
      | none => exact ⟨keeps, fun found => (adds found).imp_right .inr⟩
      | some own =>
        refine ⟨fun found => Finset.mem_insert_of_mem (keeps found), fun found => ?_⟩
        rcases Finset.mem_insert.mp found with rfl | before
        · exact .inr (.inl rfl)
        · exact (adds before).imp_right .inr
    · exact ⟨keeps, fun found => (adds found).imp_right .inr⟩

/-- The pass over children adds ranges of the children only. -/
theorem mem_markReorderedAny (groupOrders : GroupOrders) (children : List GroupChild)
    (touched : Finset Range) (range : Range) :
    (range ∈ touched → range ∈ (markReorderedAny groupOrders children touched).2) ∧
      (range ∈ (markReorderedAny groupOrders children touched).2 →
        range ∈ touched ∨ some range ∈ children.flatMap treeRanges) := by
  cases children with
  | nil => exact ⟨id, .inl⟩
  | cons child children =>
    obtain ⟨keeps, adds⟩ := mem_markReordered groupOrders child touched range
    obtain ⟨keepsAll, addsAll⟩ := mem_markReorderedAny groupOrders children
      (markReordered groupOrders child touched).2 range
    rw [markReorderedAny, List.flatMap_cons, List.mem_append]
    by_cases first : (markReordered groupOrders child touched).1 = true
    · simp only [first, if_true]
      exact ⟨keeps, fun found => (adds found).imp_right .inl⟩
    · simp only [first, Bool.false_eq_true, if_false]
      refine ⟨fun found => keepsAll (keeps found), fun found => ?_⟩
      rcases addsAll found with before | later
      · exact (adds before).imp_right .inl
      · exact .inr (.inr later)

end

/-- A tree without marks is covered when its orders keep. -/
theorem covered_of_unmarked {orderOf : OrderOf} {final : Finset Range} {tree : GroupChild}
    (ranged : none ∉ treeRanges tree) (unmarked : ∀ range, some range ∈ treeRanges tree → range ∉ final) :
    (Covered orderOf final tree ↔ OrdersKeep orderOf tree) ∧
      ∀ group ∈ tree.nodes, PluginPatcher.needsWalk final group.1 = false := by
  have copied : ∀ group ∈ tree.nodes, PluginPatcher.needsWalk final group.1 = false := by
    intro group found
    have listed : group.1.sourceRange ∈ treeRanges tree := List.mem_map_of_mem found
    cases placed : group.1.sourceRange with
    | none => exact absurd (placed ▸ listed) ranged
    | some range =>
      rw [placed] at listed
      simp [PluginPatcher.needsWalk, placed, unmarked range listed]
  refine ⟨?_, copied⟩
  cases tree with
  | leaf record => exact iff_of_true (by rw [Covered]; trivial) (ordersKeep_leaf orderOf record)
  | node info children =>
    rw [Covered, if_neg (by simp [copied (info, children) (by simp)])]

mutual

/-- The marks of a pass cover the tree exactly when nothing changes behind a first reordered
child, and they mark only groups that contain reordered ones. -/
theorem covered_markReordered (groupOrders : GroupOrders) (tree : GroupChild)
    (touched final : Finset Range) (ranged : none ∉ treeRanges tree)
    (different : (treeRanges tree).Nodup) (fresh : ∀ range ∈ touched, some range ∉ treeRanges tree)
    (agree : ∀ range, some range ∈ treeRanges tree →
      (range ∈ final ↔ range ∈ (markReordered groupOrders tree touched).2)) :
    (Covered (registeredOrder groupOrders) final tree ↔
        FirstOnly (registeredOrder groupOrders) tree) ∧
      ∀ group ∈ tree.nodes, PluginPatcher.needsWalk final group.1 = true →
        HasReordered (registeredOrder groupOrders) (.node group.1 group.2) := by
  cases tree with
  | leaf record =>
    refine ⟨iff_of_true (by rw [Covered]; trivial) (by simp [FirstOnly]), by simp⟩
  | node info children =>
    rw [treeRanges_node] at ranged different fresh agree
    obtain ⟨apart, differentAll⟩ := List.nodup_cons.mp different
    have reports := fst_markReordered groupOrders (.node info children) touched
    cases placed : info.sourceRange with
    | none => exact absurd (placed ▸ List.mem_cons_self) ranged
    | some own =>
      rw [placed] at apart fresh agree
      have unmarked : own ∉ (markReorderedAny groupOrders children touched).2 := by
        intro found
        rcases (mem_markReorderedAny groupOrders children touched own).2 found with before | below
        · exact fresh own before List.mem_cons_self
        · exact apart below
      have marks : (markReordered groupOrders (.node info children) touched).2 =
          if (markReordered groupOrders (.node info children) touched).1 then
            insert own (markReorderedAny groupOrders children touched).2
          else (markReorderedAny groupOrders children touched).2 := by
        simp only [markReordered, markRange, placed]
      have walk : PluginPatcher.needsWalk final info = true ↔
          HasReordered (registeredOrder groupOrders) (.node info children) := by
        simp only [PluginPatcher.needsWalk, placed, decide_eq_true_eq]
        rw [agree own List.mem_cons_self, marks, ← reports]
        split
        · rename_i reported
          exact iff_of_true (Finset.mem_insert_self _ _) reported
        · rename_i reported
          exact iff_of_false unmarked reported
      obtain ⟨covered, walks⟩ := covered_markReorderedAny groupOrders children touched final
        (fun absent => ranged (List.mem_cons_of_mem _ absent)) differentAll
        (fun range found below => fresh range found (List.mem_cons_of_mem _ below))
        (fun range below => by
          have other : range ≠ own := fun same => apart (same ▸ below)
          rw [agree range (List.mem_cons_of_mem _ below), marks]
          split
          · rw [Finset.mem_insert, or_iff_right other]
          · rfl)
      constructor
      · rw [Covered]
        by_cases touchedHere : HasReordered (registeredOrder groupOrders) (.node info children)
        · rw [if_pos (walk.mpr touchedHere), covered, firstOnly_node]
        · rw [if_neg fun walked => touchedHere (walk.mp walked)]
          have keeps := ordersKeep_of_not touchedHere
          exact iff_of_true keeps keeps.firstOnly
      · intro group found walked
        rw [RoseTree.nodes_node] at found
        rcases List.mem_cons.mp found with rfl | below
        · exact walk.mp walked
        · obtain ⟨child, among, inside⟩ := List.mem_flatMap.mp below
          exact walks child among group inside walked

/-- The same for children of which only those up to the first reordered one are visited. -/
theorem covered_markReorderedAny (groupOrders : GroupOrders) (children : List GroupChild)
    (touched final : Finset Range) (ranged : none ∉ children.flatMap treeRanges)
    (different : (children.flatMap treeRanges).Nodup)
    (fresh : ∀ range ∈ touched, some range ∉ children.flatMap treeRanges)
    (agree : ∀ range, some range ∈ children.flatMap treeRanges →
      (range ∈ final ↔ range ∈ (markReorderedAny groupOrders children touched).2)) :
    (CoveredAll (registeredOrder groupOrders) final children ↔
        FirstOnlyAll (registeredOrder groupOrders) children) ∧
      ∀ child ∈ children, ∀ group ∈ child.nodes,
        PluginPatcher.needsWalk final group.1 = true →
          HasReordered (registeredOrder groupOrders) (.node group.1 group.2) := by
  cases children with
  | nil => simp [CoveredAll, FirstOnlyAll]
  | cons child children =>
    simp only [List.flatMap_cons, List.mem_append, not_or] at ranged fresh agree
    rw [List.flatMap_cons, List.nodup_append] at different
    obtain ⟨differentHead, differentTail, apart⟩ := different
    have reports := fst_markReordered groupOrders child touched
    have later : ∀ range ∈ (markReordered groupOrders child touched).2,
        some range ∉ children.flatMap treeRanges := by
      intro range found below
      rcases (mem_markReordered groupOrders child touched range).2 found with before | inside
      · exact (fresh range before).2 below
      · exact apart _ inside _ below rfl
    have all : FirstOnlyAll (registeredOrder groupOrders) (child :: children) ↔
        (HasReordered (registeredOrder groupOrders) child →
          ∀ other ∈ children, OrdersKeep (registeredOrder groupOrders) other) ∧
        FirstOnly (registeredOrder groupOrders) child ∧
        FirstOnlyAll (registeredOrder groupOrders) children := by
      simp only [FirstOnlyAll, List.pairwise_cons, List.forall_mem_cons]
      exact ⟨fun ⟨⟨behind, rest⟩, head, tail⟩ => ⟨fun found other among => behind other among found,
        head, rest, tail⟩, fun ⟨behind, head, rest, tail⟩ => ⟨⟨fun other among found =>
        behind found other among, rest⟩, head, tail⟩⟩
    by_cases first : (markReordered groupOrders child touched).1 = true
    · have marks : (markReorderedAny groupOrders (child :: children) touched).2 =
          (markReordered groupOrders child touched).2 := by simp [markReorderedAny, first]
      rw [marks] at agree
      obtain ⟨covered, walks⟩ := covered_markReordered groupOrders child touched final ranged.1
        differentHead (fun range found => (fresh range found).1)
        (fun range inside => agree range (.inl inside))
      have copied : ∀ other ∈ children,
          (Covered (registeredOrder groupOrders) final other ↔
            OrdersKeep (registeredOrder groupOrders) other) ∧
          ∀ group ∈ other.nodes, PluginPatcher.needsWalk final group.1 = false := by
        intro other among
        have within : ∀ range ∈ treeRanges other, range ∈ children.flatMap treeRanges :=
          fun range inside => List.mem_flatMap.mpr ⟨other, among, inside⟩
        refine covered_of_unmarked (fun absent => ranged.2 (within _ absent))
          fun range inside found => ?_
        exact later range ((agree range (.inr (within _ inside))).mp found) (within _ inside)
      constructor
      · rw [CoveredAll, coveredAll_iff, covered, all]
        have each : (∀ other ∈ children, Covered (registeredOrder groupOrders) final other) ↔
            ∀ other ∈ children, OrdersKeep (registeredOrder groupOrders) other :=
          forall₂_congr fun other among => (copied other among).1
        rw [each]
        constructor
        · rintro ⟨head, keeps⟩
          exact ⟨fun _ => keeps, head, firstOnlyAll_of_keeps keeps⟩
        · rintro ⟨behind, head, _⟩
          exact ⟨head, behind (reports.mp first)⟩
      · intro other among group found walked
        rcases List.mem_cons.mp among with rfl | below
        · exact walks group found walked
        · exact absurd walked (by simp [(copied other below).2 group found])
    · have marks : (markReorderedAny groupOrders (child :: children) touched).2 =
          (markReorderedAny groupOrders children
            (markReordered groupOrders child touched).2).2 := by simp [markReorderedAny, first]
      rw [marks] at agree
      have none : ¬HasReordered (registeredOrder groupOrders) child :=
        fun reordered => first (reports.mpr reordered)
      obtain ⟨covered, walks⟩ := covered_markReordered groupOrders child touched final ranged.1
        differentHead (fun range found => (fresh range found).1) (fun range inside => by
          rw [agree range (.inl inside)]
          refine ⟨fun found => ?_, (mem_markReorderedAny groupOrders children _ range).1⟩
          rcases (mem_markReorderedAny groupOrders children _ range).2 found with before | below
          · exact before
          · exact absurd rfl (apart _ inside _ below))
      obtain ⟨coveredAll, walksAll⟩ := covered_markReorderedAny groupOrders children
        (markReordered groupOrders child touched).2 final ranged.2 differentTail later
        (fun range inside => agree range (.inr inside))
      constructor
      · rw [CoveredAll, covered, coveredAll, all]
        exact ⟨fun ⟨head, tail⟩ => ⟨fun found => absurd found none, head, tail⟩,
          fun ⟨_, head, tail⟩ => ⟨head, tail⟩⟩
      · intro other among
        rcases List.mem_cons.mp among with rfl | below
        · exact walks
        · exact walksAll other below

end

/-- The passes over the top-level trees add ranges of these trees only. -/
theorem mem_foldl_markReordered (groupOrders : GroupOrders) (trees : List GroupChild)
    (touched : Finset Range) (range : Range) :
    (range ∈ touched →
        range ∈ trees.foldl (fun touched tree => (markReordered groupOrders tree touched).2) touched) ∧
      (range ∈ trees.foldl (fun touched tree => (markReordered groupOrders tree touched).2) touched →
        range ∈ touched ∨ some range ∈ trees.flatMap treeRanges) := by
  induction trees generalizing touched with
  | nil => exact ⟨id, .inl⟩
  | cons tree trees ih =>
    obtain ⟨keeps, adds⟩ := mem_markReordered groupOrders tree touched range
    obtain ⟨keepsAll, addsAll⟩ := ih (markReordered groupOrders tree touched).2
    rw [List.foldl_cons, List.flatMap_cons, List.mem_append]
    refine ⟨fun found => keepsAll (keeps found), fun found => ?_⟩
    rcases addsAll found with before | later
    · exact (adds before).imp_right .inl
    · exact .inr (.inr later)

/-- All top-level trees are visited. -/
theorem covered_foldl (groupOrders : GroupOrders) (trees : List GroupChild)
    (touched final : Finset Range) (ranged : none ∉ trees.flatMap treeRanges)
    (different : (trees.flatMap treeRanges).Nodup)
    (fresh : ∀ range ∈ touched, some range ∉ trees.flatMap treeRanges)
    (agree : ∀ range, some range ∈ trees.flatMap treeRanges → (range ∈ final ↔
      range ∈ trees.foldl (fun touched tree => (markReordered groupOrders tree touched).2) touched)) :
    ∀ tree ∈ trees, (Covered (registeredOrder groupOrders) final tree ↔
        FirstOnly (registeredOrder groupOrders) tree) ∧
      ∀ group ∈ tree.nodes, PluginPatcher.needsWalk final group.1 = true →
        HasReordered (registeredOrder groupOrders) (.node group.1 group.2) := by
  induction trees generalizing touched with
  | nil => exact fun _ among => absurd among List.not_mem_nil
  | cons tree trees ih =>
    simp only [List.flatMap_cons, List.mem_append, not_or, List.foldl_cons] at ranged fresh agree
    rw [List.flatMap_cons, List.nodup_append] at different
    obtain ⟨differentHead, differentTail, apart⟩ := different
    intro other among
    rcases List.mem_cons.mp among with rfl | later
    · refine covered_markReordered groupOrders other touched final ranged.1 differentHead
        (fun range found => (fresh range found).1) fun range inside => ?_
      rw [agree range (.inl inside)]
      refine ⟨fun found => ?_, (mem_foldl_markReordered groupOrders trees _ range).1⟩
      rcases (mem_foldl_markReordered groupOrders trees _ range).2 found with before | below
      · exact before
      · exact absurd rfl (apart _ inside _ below)
    · refine ih (markReordered groupOrders tree touched).2 ranged.2 differentTail
        (fun range found below => ?_) (fun range inside => agree range (.inr inside)) other later
      rcases (mem_markReordered groupOrders tree touched range).2 found with before | inside
      · exact (fresh range before).2 below
      · exact apart _ inside _ below rfl

mutual

/-- Without orders nothing is marked. -/
theorem markReordered_none {groupOrders : GroupOrders}
    (none : ∀ range, groupOrders.lookup range = none) (tree : GroupChild) (touched : Finset Range) :
    markReordered groupOrders tree touched = (false, touched) := by
  cases tree with
  | leaf record => rfl
  | node info children =>
    have own : (info.sourceRange.bind groupOrders.lookup).isSome = false := by
      cases info.sourceRange <;> simp [none]
    rw [markReordered, markReorderedAny_none none children touched]
    simp [own]

/-- Without orders nothing is marked among children. -/
theorem markReorderedAny_none {groupOrders : GroupOrders}
    (none : ∀ range, groupOrders.lookup range = none) (children : List GroupChild)
    (touched : Finset Range) : markReorderedAny groupOrders children touched = (false, touched) := by
  cases children with
  | nil => rfl
  | cons child children =>
    rw [markReorderedAny, markReordered_none none child touched]
    simpa using markReorderedAny_none none children touched

end

mutual

/-- Without replacements nothing is marked. -/
theorem markTouched_none {patches : RecordPatches} (none : ∀ formId, patches.lookup formId = none)
    (tree : GroupChild) (touched : Finset Range) :
    markTouched patches tree touched = (false, touched) := by
  cases tree with
  | leaf record => simp [markTouched, none]
  | node info children =>
    rw [markTouched, markTouchedAll_none none children touched]
    rfl

/-- Without replacements nothing is marked among children. -/
theorem markTouchedAll_none {patches : RecordPatches}
    (none : ∀ formId, patches.lookup formId = none) (children : List GroupChild)
    (touched : Finset Range) : markTouchedAll patches children touched = (false, touched) := by
  cases children with
  | nil => rfl
  | cons child children =>
    rw [markTouchedAll, markTouched_none none child touched]
    simp [markTouchedAll_none none children touched]

end

end Bethkit
