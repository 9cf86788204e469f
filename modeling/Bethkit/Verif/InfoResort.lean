import Bethkit.Lib.PlacementOrder
import Bethkit.Verif.InfoOrder

/-!
# Sorting a sorted group again

After the records of the target have been put into the planned order, the nodes are the old ones
under other positions. They are placed as before, the records that no earlier plugin leads to in the
planned order, and this makes a difference exactly for records that share a place.
-/

namespace Bethkit

open Lib

/-- Without a version of an info the table has no entry for it. -/
theorem lookup_latestByIdentity_eq_none {nodes : List InfoNode} {identity : GlobalFormId} :
    (latestByIdentity nodes).lookup identity = none ↔ ∀ node ∈ nodes, node.identity ≠ identity := by
  induction nodes using List.reverseRecOn with
  | nil =>
    constructor
    · intro _ node among
      cases among
    · intro _
      rfl
  | append_singleton nodes last rest =>
    have table : latestByIdentity (nodes ++ [last]) =
        (latestByIdentity nodes).insert last.identity nodes.length := by
      unfold latestByIdentity
      rw [List.zipIdx_append, List.foldl_append, Nat.zero_add]
      rfl
    rw [table]
    by_cases same : identity = last.identity
    · subst same
      rw [AList.lookup_insert]
      constructor
      · intro absent
        cases absent
      · intro none
        exact absurd rfl (none last (by simp))
    · rw [AList.lookup_insert_ne same, rest]
      constructor
      · intro none node among
        rcases List.mem_append.mp among with among | among
        · exact none node among
        · rw [List.mem_singleton.mp among]
          exact Ne.symm same
      · intro none node among
        exact none node (List.mem_append_left _ among)

/-- The old position of a node when those from a position on have been arranged. -/
def oldPosition (start : Nat) (arranged : List Nat) (index : Nat) : Nat :=
  if index < start then index else (arranged[index - start]?).getD index

/-- Nodes of which those from a position on have been arranged. -/
structure Rearranged (nodes again : List InfoNode) (start : Nat) (arranged : List Nat) : Prop where
  /-- The later positions are arranged. -/
  complete : arranged.Perm (List.range' start (nodes.length - start))
  /-- There are so many nodes. -/
  bound : start ≤ nodes.length
  /-- There are as many nodes. -/
  length : again.length = nodes.length
  /-- The nodes are those at the old positions. -/
  same : ∀ index : Nat, again[index]? = nodes[oldPosition start arranged index]?
  /-- The arranged nodes are different infos. -/
  distinct : ∀ first second : Nat, start ≤ first → start ≤ second → first < nodes.length →
    second < nodes.length →
    (nodes[first]?).map (·.identity) = (nodes[second]?).map (·.identity) → first = second

namespace Rearranged

variable {nodes again : List InfoNode} {start : Nat} {arranged : List Nat}

/-- As many positions are arranged as there are. -/
theorem length_arranged (rearranged : Rearranged nodes again start arranged) :
    arranged.length = nodes.length - start := by
  rw [rearranged.complete.length_eq, List.length_range']

/-- An early position is kept. -/
theorem oldPosition_early {index : Nat} (early : index < start) :
    oldPosition start arranged index = index :=
  if_pos early

/-- A later position is one of those arranged. -/
theorem oldPosition_late (rearranged : Rearranged nodes again start arranged) {index : Nat}
    (late : start ≤ index) (inside : index < nodes.length) :
    arranged[index - start]? = some (oldPosition start arranged index) ∧
      start ≤ oldPosition start arranged index ∧
      oldPosition start arranged index < nodes.length := by
  have bound : index - start < arranged.length := by
    rw [rearranged.length_arranged]
    omega
  have position : oldPosition start arranged index = arranged[index - start] := by
    unfold oldPosition
    rw [if_neg (by omega), List.getElem?_eq_getElem bound]
    rfl
  have among := rearranged.complete.mem_iff.mp (List.getElem_mem bound)
  rw [List.mem_range'_1] at among
  rw [position, List.getElem?_eq_getElem bound]
  have limit := rearranged.bound
  refine ⟨rfl, among.1, ?_⟩
  omega

/-- A position beyond the nodes is kept. -/
theorem oldPosition_beyond (rearranged : Rearranged nodes again start arranged) {index : Nat}
    (beyond : nodes.length ≤ index) : oldPosition start arranged index = index := by
  have limit := rearranged.bound
  unfold oldPosition
  rw [if_neg (by omega), List.getElem?_eq_none (by rw [rearranged.length_arranged]; omega)]
  rfl

/-- The ranges of positions are kept. -/
theorem oldPosition_lt_iff (rearranged : Rearranged nodes again start arranged) (index : Nat) :
    (oldPosition start arranged index < start ↔ index < start) ∧
      (oldPosition start arranged index < nodes.length ↔ index < nodes.length) := by
  have limit := rearranged.bound
  by_cases early : index < start
  · rw [oldPosition_early early]
    exact ⟨Iff.rfl, Iff.rfl⟩
  · by_cases inside : index < nodes.length
    · have late := rearranged.oldPosition_late (by omega) inside
      omega
    · rw [rearranged.oldPosition_beyond (by omega)]
      exact ⟨Iff.rfl, Iff.rfl⟩

/-- Different positions have been different. -/
theorem injective (rearranged : Rearranged nodes again start arranged) :
    Function.Injective (oldPosition start arranged) := by
  intro first second same
  have one := rearranged.oldPosition_lt_iff first
  have other := rearranged.oldPosition_lt_iff second
  rw [same] at one
  by_cases early : first < start
  · have alsoEarly : second < start := other.1.mp (one.1.mpr early)
    rw [oldPosition_early early, oldPosition_early alsoEarly] at same
    exact same
  · have late : ¬second < start := fun less => early (one.1.mp (other.1.mpr less))
    by_cases inside : first < nodes.length
    · have alsoInside : second < nodes.length := other.2.mp (one.2.mpr inside)
      have firstStands := (rearranged.oldPosition_late (by omega) inside).1
      have secondStands := (rearranged.oldPosition_late (by omega) alsoInside).1
      rw [same, ← secondStands] at firstStands
      have nodup : arranged.Nodup :=
        rearranged.complete.nodup_iff.mpr (List.nodup_range')
      have bound : first - start < arranged.length := by
        rw [rearranged.length_arranged]
        omega
      have equal := (List.nodup_iff_getElem?_ne_getElem?.mp nodup)
      by_contra differ
      rcases Nat.lt_or_gt_of_ne (show first - start ≠ second - start by omega) with less | more
      · have limit : second - start < arranged.length := by
          rw [rearranged.length_arranged]
          omega
        exact equal _ _ less limit firstStands
      · exact equal _ _ more bound firstStands.symm
    · have beyond : ¬second < nodes.length := fun less => inside (one.2.mp (other.2.mpr less))
      rw [rearranged.oldPosition_beyond (by omega), rearranged.oldPosition_beyond (by omega)] at same
      exact same

/-- The nodes are the same. -/
theorem mem_iff (rearranged : Rearranged nodes again start arranged) (node : InfoNode) :
    node ∈ again ↔ node ∈ nodes := by
  rw [List.mem_iff_getElem?, List.mem_iff_getElem?]
  constructor
  · intro found
    obtain ⟨index, stands⟩ := found
    exact ⟨_, (rearranged.same index).symm.trans stands⟩
  · intro found
    obtain ⟨index, stands⟩ := found
    have inside := (List.getElem?_eq_some_iff.mp stands).1
    by_cases early : index < start
    · refine ⟨index, ?_⟩
      rw [rearranged.same, oldPosition_early early]
      exact stands
    · have among : index ∈ arranged := by
        rw [rearranged.complete.mem_iff, List.mem_range'_1]
        omega
      obtain ⟨place, held⟩ := List.mem_iff_getElem?.mp among
      have bound := (List.getElem?_eq_some_iff.mp held).1
      rw [rearranged.length_arranged] at bound
      have moved := (rearranged.oldPosition_late (Nat.le_add_right start place) (by omega)).1
      rw [Nat.add_sub_cancel_left, held, Option.some.injEq] at moved
      refine ⟨start + place, ?_⟩
      rw [rearranged.same, ← moved]
      exact stands

/-- The last version of an info is the same. -/
theorem lookup (rearranged : Rearranged nodes again start arranged) (identity : GlobalFormId) :
    (latestByIdentity nodes).lookup identity =
      ((latestByIdentity again).lookup identity).map (oldPosition start arranged) := by
  cases found : (latestByIdentity again).lookup identity with
  | none =>
    apply lookup_latestByIdentity_eq_none.mpr
    intro node among
    exact lookup_latestByIdentity_eq_none.mp found node ((rearranged.mem_iff node).mpr among)
  | some index =>
    apply lookup_latestByIdentity.mpr
    obtain ⟨⟨node, stands, named⟩, final⟩ := lookup_latestByIdentity.mp found
    rw [rearranged.same] at stands
    refine ⟨⟨node, stands, named⟩, ?_⟩
    intro later other behind held sameInfo
    have inside := (List.getElem?_eq_some_iff.mp held).1
    have bounds := rearranged.oldPosition_lt_iff index
    by_cases early : index < start
    · rw [oldPosition_early early] at behind
      by_cases alsoEarly : later < start
      · have known : again[later]? = some other := by
          rw [rearranged.same, oldPosition_early alsoEarly]
          exact held
        exact final later other behind known sameInfo
      · -- An arranged version stands behind all earlier ones.
        have among : later ∈ arranged := by
          rw [rearranged.complete.mem_iff, List.mem_range'_1]
          omega
        obtain ⟨place, position⟩ := List.mem_iff_getElem?.mp among
        have bound := (List.getElem?_eq_some_iff.mp position).1
        rw [rearranged.length_arranged] at bound
        have moved := (rearranged.oldPosition_late (Nat.le_add_right start place) (by omega)).1
        rw [Nat.add_sub_cancel_left, position, Option.some.injEq] at moved
        have known : again[start + place]? = some other := by
          rw [rearranged.same, ← moved]
          exact held
        exact final (start + place) other (by omega) known sameInfo
    · have late : start ≤ oldPosition start arranged index := by
        by_contra less
        exact early (bounds.1.mp (by omega))
      have equal : (nodes[later]?).map (·.identity) =
          (nodes[oldPosition start arranged index]?).map (·.identity) := by
        rw [held, stands]
        exact congrArg some (sameInfo.trans named.symm)
      have same := rearranged.distinct later _ (by omega) late inside
        (List.getElem?_eq_some_iff.mp stands).1 equal
      omega

/-- The nodes are placed as before, under other positions. -/
theorem renames (rearranged : Rearranged nodes again start arranged) :
    (infoPlacement again).Renames (infoPlacement nodes) (oldPosition start arranged) where
  injective := rearranged.injective
  parent index := by
    show (nodes[oldPosition start arranged index]?.bind (·.previous)).bind
        (latestByIdentity nodes).lookup =
      ((again[index]?.bind (·.previous)).bind (latestByIdentity again).lookup).map _
    rw [rearranged.same index]
    cases nodes[oldPosition start arranged index]?.bind (·.previous) with
    | none => rfl
    | some identity => exact rearranged.lookup identity
  front index := by
    show nodes[oldPosition start arranged index]?.any _ = again[index]?.any _
    rw [rearranged.same index]

/-- The positions, one after the other, have been those before the arranged ones and then these. -/
theorem map_range (rearranged : Rearranged nodes again start arranged) :
    (List.range again.length).map (oldPosition start arranged) = List.range start ++ arranged := by
  have limit := rearranged.bound
  apply List.ext_getElem?
  intro index
  rw [List.getElem?_map, rearranged.length]
  by_cases inside : index < nodes.length
  · rw [List.getElem?_range inside]
    by_cases early : index < start
    · rw [List.getElem?_append_left (by rw [List.length_range]; exact early),
        List.getElem?_range early]
      exact congrArg some (oldPosition_early early)
    · rw [List.getElem?_append_right (by rw [List.length_range]; omega), List.length_range,
        (rearranged.oldPosition_late (by omega) inside).1]
      rfl
  · rw [List.getElem?_eq_none (by rw [List.length_range]; omega),
      List.getElem?_eq_none (by
        rw [List.length_append, List.length_range, rearranged.length_arranged]
        omega)]
    rfl

/-- The second run places the old nodes, those before the arranged ones and then these. -/
theorem attachAll_again (rearranged : Rearranged nodes again start arranged) :
    ((infoPlacement again).attachAll []
        (placedSequence again (List.range again.length))).map (oldPosition start arranged) =
      (infoPlacement nodes).attachAll [] (placedSequence nodes (List.range start ++ arranged)) := by
  unfold placedSequence
  rw [rearranged.renames.attachAll, rearranged.renames.visitAll, rearranged.map_range,
    rearranged.length]
  rfl

end Rearranged

/-! ## What is placed before the target -/

/-- Without cycles, visits of some nodes place them, parents first. -/
theorem placedSequence_orderly {nodes : List InfoNode} (acyclic : ¬HasCycle nodes)
    {indices : List Nat} (inside : ∀ index ∈ indices, index < nodes.length) :
    (infoPlacement nodes).Orderly [] (placedSequence nodes indices) ∧
      ∀ index ∈ indices, index ∈ placedSequence nodes indices := by
  rcases foldlM_insertInfoNode inside (simulates_start nodes) (idle_start nodes.length) with
    ⟨_, _, cycle⟩ | ⟨_, _, ends, all⟩
  · exact absurd cycle acyclic
  · exact ⟨ends.orderly, all⟩

/-- A visit places ancestors of the visited node only. -/
theorem mem_visit {nodes : List InfoNode} {fuel element other : Nat} {placed : List Nat}
    (among : other ∈ (infoPlacement nodes).visit fuel placed element) :
    other ∈ placed ∨ Relation.ReflTransGen (PointsTo nodes) element other := by
  induction fuel generalizing element with
  | zero => exact Or.inl among
  | succ fuel rest =>
    unfold Placement.visit at among
    by_cases known : element ∈ placed
    · rw [if_pos known] at among
      exact Or.inl among
    · rw [if_neg known] at among
      cases above : (infoPlacement nodes).parent element with
      | none =>
        rw [above] at among
        rcases List.mem_append.mp among with among | among
        · exact Or.inl among
        · rw [List.mem_singleton.mp among]
          exact Or.inr .refl
      | some parent =>
        rw [above] at among
        rcases List.mem_append.mp among with among | among
        · rcases rest among with old | climbs
          · exact Or.inl old
          · exact Or.inr (.head (infoPlacement_parent.mp above) climbs)
        · rw [List.mem_singleton.mp among]
          exact Or.inr .refl

/-- Visits place the visited nodes and their ancestors only. -/
theorem mem_placedSequence {nodes : List InfoNode} {indices : List Nat} {other : Nat}
    (among : other ∈ placedSequence nodes indices) :
    ∃ index ∈ indices, Relation.ReflTransGen (PointsTo nodes) index other := by
  have all : ∀ (indices placed : List Nat),
      other ∈ indices.foldl ((infoPlacement nodes).visit (nodes.length + 1)) placed →
        other ∈ placed ∨ ∃ index ∈ indices, Relation.ReflTransGen (PointsTo nodes) index other := by
    intro indices
    induction indices with
    | nil => exact fun placed among => Or.inl among
    | cons index indices rest =>
      intro placed among
      rcases rest _ among with known | later
      · rcases mem_visit known with old | climbs
        · exact Or.inl old
        · exact Or.inr ⟨index, List.mem_cons_self, climbs⟩
      · obtain ⟨position, member, climbs⟩ := later
        exact Or.inr ⟨position, List.mem_cons_of_mem _ member, climbs⟩
  rcases all indices [] among with none | found
  · cases none
  · exact found

/-- Rivals are nodes that share a place. -/
theorem rivals_iff {nodes : List InfoNode} {first second : Nat} :
    (infoPlacement nodes).Rivals first second ↔ SharePlace nodes first second := by
  have goesFirst : ∀ index, ((infoPlacement nodes).parent index = none ∧
      (infoPlacement nodes).front index = true) ↔ GoesFirst nodes index := by
    intro index
    apply and_congr
    · constructor
      · intro none target points
        rw [infoPlacement_parent.mpr points] at none
        cases none
      · intro root
        cases above : (infoPlacement nodes).parent index with
        | none => rfl
        | some target => exact absurd (infoPlacement_parent.mp above) (root target)
    · show nodes[index]?.any _ = true ↔ _
      cases nodes[index]? with
      | none => simp
      | some node => simp
  unfold Placement.Rivals SharePlace
  rw [← goesFirst first, ← goesFirst second]
  simp only [infoPlacement_parent]
  apply or_congr_right
  constructor
  · intro both
    exact ⟨⟨both.1, both.2.2.1⟩, both.2.1, both.2.2.2⟩
  · intro both
    exact ⟨both.1.1, both.2.1, both.1.2, both.2.2⟩

/-- The positions of the target are the last ones. -/
theorem belongsTo_append_iff {earlier own : List InfoNode} {pluginIndex : Nat}
    (foreign : ∀ node ∈ earlier, node.pluginIndex ≠ pluginIndex)
    (belong : ∀ node ∈ own, node.pluginIndex = pluginIndex) (index : Nat) :
    belongsTo (earlier ++ own) pluginIndex index = true ↔
      earlier.length ≤ index ∧ index < (earlier ++ own).length := by
  unfold belongsTo
  rw [List.length_append]
  by_cases early : index < earlier.length
  · rw [List.getElem?_append_left early, List.getElem?_eq_getElem early]
    have not := foreign _ (List.getElem_mem early)
    constructor
    · intro same
      exact absurd (of_decide_eq_true same) not
    · intro bounds
      omega
  · rw [List.getElem?_append_right (by omega)]
    by_cases inside : index - earlier.length < own.length
    · rw [List.getElem?_eq_getElem inside]
      have same := belong _ (List.getElem_mem inside)
      constructor
      · intro _
        omega
      · intro _
        exact decide_eq_true same
    · rw [List.getElem?_eq_none (by omega)]
      constructor
      · intro same
        cases same
      · intro bounds
        omega

/-- The nodes of a plugin, by their positions. -/
theorem mem_nodesOf_iff {nodes : List InfoNode} {pluginIndex index : Nat} :
    index ∈ nodesOf nodes pluginIndex ↔ belongsTo nodes pluginIndex index = true := by
  unfold nodesOf
  rw [List.mem_filter, List.mem_range]
  constructor
  · exact fun both => both.2
  · intro belongs
    refine ⟨?_, belongs⟩
    by_contra outside
    unfold belongsTo at belongs
    rw [List.getElem?_eq_none (by omega)] at belongs
    cases belongs

/-- A node leads to nodes only. -/
theorem lt_of_reaches {nodes : List InfoNode} {index other : Nat} (inside : index < nodes.length)
    (reaches : Relation.ReflTransGen (PointsTo nodes) index other) : other < nodes.length := by
  rcases Relation.ReflTransGen.cases_tail reaches with same | found
  · rw [same]
    exact inside
  · obtain ⟨_, _, last⟩ := found
    exact last.lt.2

/-- The nodes placed before those of the target are those that earlier plugins lead to. -/
theorem mem_placedSequence_early_iff {nodes : List InfoNode} {pluginIndex start : Nat}
    (acyclic : ¬HasCycle nodes) (bound : start ≤ nodes.length)
    (positions : ∀ index, belongsTo nodes pluginIndex index = true ↔
      start ≤ index ∧ index < nodes.length) (index : Nat) :
    index ∈ placedSequence nodes (List.range start) ↔ ReachedEarlier nodes pluginIndex index := by
  have inside : ∀ index ∈ List.range start, index < nodes.length := by
    intro index among
    have less := List.mem_range.mp among
    omega
  obtain ⟨orderly, all⟩ := placedSequence_orderly acyclic inside
  constructor
  · intro among
    obtain ⟨first, member, reaches⟩ := mem_placedSequence among
    have less := List.mem_range.mp member
    refine ⟨first, by omega, ?_, reaches⟩
    rw [mem_nodesOf_iff, positions]
    omega
  · intro reached
    obtain ⟨first, known, foreign, reaches⟩ := reached
    have early : first ∈ placedSequence nodes (List.range start) := by
      apply all
      rw [mem_nodesOf_iff, positions] at foreign
      exact List.mem_range.mpr (by omega)
    induction reaches with
    | refl => exact early
    | tail _ points member =>
      obtain ⟨before, after, split⟩ := List.append_of_mem member
      have parents := (Placement.orderly_iff.mp orderly before _ after split).2.2 _
        (infoPlacement_parent.mpr points)
      rcases parents with none | among
      · cases none
      · rw [split]
        exact List.mem_append_left _ among

/-- The placed nodes of the target, sorted again, stand as before if and only if no two of them share a
place. -/
theorem filter_attachAll_again_iff {nodes : List InfoNode} {pluginIndex start : Nat}
    (acyclic : ¬HasCycle nodes) (bound : start ≤ nodes.length)
    (positions : ∀ index, belongsTo nodes pluginIndex index = true ↔
      start ≤ index ∧ index < nodes.length)
    {ordered arranged : List Nat}
    (isOrdered : ordered = (infoPlacement nodes).attachAll []
      (placedSequence nodes (List.range nodes.length)))
    (isArranged : arranged = ordered.filter (belongsTo nodes pluginIndex)) :
    ((infoPlacement nodes).attachAll []
        (placedSequence nodes (List.range start ++ arranged))).filter (belongsTo nodes pluginIndex) =
        arranged ↔ Unforked nodes pluginIndex := by
  let early := placedSequence nodes (List.range start)
  let first := (infoPlacement nodes).attachAll [] early
  have inside : ∀ index ∈ List.range nodes.length, index < nodes.length := fun index among =>
    List.mem_range.mp among
  obtain ⟨orderly, all⟩ := placedSequence_orderly acyclic inside
  have reachedEarly := mem_placedSequence_early_iff acyclic bound positions
  -- The nodes placed after those that earlier plugins lead to.
  have ranges : List.range nodes.length =
      List.range start ++ List.range' start (nodes.length - start) := by
    have joined : List.range' 0 start ++ List.range' (0 + start) (nodes.length - start) =
        List.range' 0 (start + (nodes.length - start)) := List.range'_append_1
    rw [Nat.zero_add, Nat.add_sub_of_le bound] at joined
    rw [List.range_eq_range', List.range_eq_range']
    exact joined.symm
  obtain ⟨own, split⟩ : ∃ own, early ++ own = placedSequence nodes (List.range nodes.length) := by
    have goesOn := (infoPlacement nodes).prefix_visitAll (nodes.length + 1) early
      (List.range' start (nodes.length - start))
    rw [ranges]
    unfold placedSequence
    rw [List.foldl_append]
    exact goesOn
  rw [← split] at orderly all isOrdered
  have distinct := orderly.nodup.1
  obtain ⟨orderlyEarly, orderlyOwn⟩ := Placement.orderly_append.mp orderly
  have arrangedFirst : (infoPlacement nodes).Arranged first :=
    Placement.Arranged.attachAll (.nil _) orderlyEarly
  have isWhole : ordered = (infoPlacement nodes).attachAll first own := by
    rw [isOrdered, Placement.attachAll_append]
  have arrangedAll : (infoPlacement nodes).Arranged ordered := by
    rw [isWhole]
    exact arrangedFirst.attachAll orderlyOwn
  have inOrdered : ∀ index, index ∈ ordered ↔ index ∈ early ∨ index ∈ own := by
    intro index
    rw [isOrdered, (Placement.attachAll_perm orderly).mem_iff, List.nil_append, List.mem_append]
  have bounded : ∀ index ∈ ordered, index < nodes.length := by
    intro index among
    have placed : index ∈ placedSequence nodes (List.range nodes.length) := by
      rw [← split, List.mem_append]
      exact (inOrdered index).mp among
    obtain ⟨source, member, reaches⟩ := mem_placedSequence placed
    exact lt_of_reaches (List.mem_range.mp member) reaches
  have notEarly : ∀ index ∈ own, index ∉ early := fun index among known =>
    (List.nodup_append.mp distinct).2.2 index known index among rfl
  have ownBelongs : ∀ index ∈ own, belongsTo nodes pluginIndex index = true := by
    intro index among
    rw [positions]
    refine ⟨?_, bounded index ((inOrdered index).mpr (Or.inr among))⟩
    by_contra less
    apply notEarly index among
    rw [reachedEarly]
    refine ⟨index, by omega, ?_, .refl⟩
    rw [mem_nodesOf_iff, positions]
    omega
  have resorted : arranged.filter (· ∉ early) = (infoPlacement nodes).resorted first own := by
    unfold Placement.resorted
    rw [isArranged, ← isWhole, List.filter_filter]
    apply List.filter_congr
    intro index among
    rcases (inOrdered index).mp among with known | known
    · have absent : index ∉ own := fun other => notEarly index other known
      simp [known, absent]
    · simp [known, notEarly index known, ownBelongs index known]
  have visits : placedSequence nodes (List.range start ++ arranged) =
      early ++ (infoPlacement nodes).resorted first own := by
    unfold placedSequence
    rw [List.foldl_append, ← resorted]
    apply Placement.visitAll_of_placed
    intro before index after cut
    have nodup : arranged.Nodup := by
      rw [isArranged]
      exact arrangedAll.nodup.filter _
    have among : index ∈ arranged := by
      rw [cut]
      exact List.mem_append_right _ List.mem_cons_self
    rw [isArranged] at among
    obtain ⟨member, belongs⟩ := List.mem_filter.mp among
    rw [cut] at nodup
    refine ⟨?_, ?_⟩
    · intro again
      exact (List.nodup_append.mp nodup).2.2 index again index List.mem_cons_self rfl
    · intro parent above
      obtain ⟨front, between, back, same, _⟩ := arrangedAll.follows index member parent above
      have present : parent ∈ ordered := by
        rw [same]
        simp
      rcases (inOrdered parent).mp present with known | known
      · exact Or.inl known
      · have pair : [parent, index].Sublist ordered := by
          rw [same]
          have rest : [index].Sublist (between ++ index :: back) :=
            List.singleton_sublist.mpr (by simp)
          exact (rest.cons_cons parent).trans (List.sublist_append_right front _)
        have both : [parent, index].filter (belongsTo nodes pluginIndex) = [parent, index] := by
          simp [ownBelongs parent known, belongs]
        have kept := pair.filter (belongsTo nodes pluginIndex)
        rw [both, ← isArranged, cut] at kept
        exact Or.inr (Placement.mem_of_pair_sublist nodup kept)
  have whole : arranged =
      ((infoPlacement nodes).attachAll first own).filter (belongsTo nodes pluginIndex) := by
    rw [isArranged, isWhole]
  rw [visits, Placement.attachAll_append, whole,
    Placement.attachAll_resorted_iff arrangedFirst orderlyOwn ownBelongs]
  have inOwn : ∀ index, index ∈ nodesOf nodes pluginIndex →
      (¬ReachedEarlier nodes pluginIndex index ↔ index ∈ own) := by
    intro index belongs
    rw [← reachedEarly]
    constructor
    · intro late
      rw [mem_nodesOf_iff, positions] at belongs
      have placed := all index (List.mem_range.mpr belongs.2)
      exact (List.mem_append.mp placed).resolve_left late
    · exact notEarly index
  constructor
  · intro apart one oneBelongs other otherBelongs differ oneLate otherLate
    rw [← rivals_iff]
    exact apart one ((inOwn one oneBelongs).mp oneLate) other
      ((inOwn other otherBelongs).mp otherLate) differ
  · intro unforked one amongOne other amongOther differ
    have oneBelongs := mem_nodesOf_iff.mpr (ownBelongs one amongOne)
    have otherBelongs := mem_nodesOf_iff.mpr (ownBelongs other amongOther)
    rw [rivals_iff]
    exact unforked one oneBelongs other otherBelongs differ
      ((inOwn one oneBelongs).mpr amongOne) ((inOwn other otherBelongs).mpr amongOther)

/-! ## The second plan -/

/-- A record that kept its header and its predecessor is the same node. -/
theorem infoNode_congr {toLowercase : Lowercase} {inflate : Inflate} {order : LoadOrder}
    {plugin again : PluginInput} {pluginIndex targetIndex : Nat} {record kept : Record}
    (name : again.name = plugin.name) (masters : again.plugin.masters = plugin.plugin.masters)
    (header : kept.header = record.header)
    (payload : previousPayload inflate kept = previousPayload inflate record) :
    infoNode toLowercase inflate order again pluginIndex targetIndex none kept =
      infoNode toLowercase inflate order plugin pluginIndex targetIndex none record := by
  have resolves : ∀ formId, again.resolve toLowercase order formId =
      plugin.resolve toLowercase order formId := by
    intro formId
    unfold PluginInput.resolve
    rw [name, masters]
  unfold infoNode infoPrevious previousIdentity
  simp only [header, payload, name, resolves, Option.filter_none]

/-- Records that kept their headers and predecessors are the same nodes. -/
theorem mapM_infoNode_congr {toLowercase : Lowercase} {inflate : Inflate} {order : LoadOrder}
    {plugin again : PluginInput} {pluginIndex targetIndex : Nat} {records kept : List Record}
    (name : again.name = plugin.name) (masters : again.plugin.masters = plugin.plugin.masters)
    (same : List.Forall₂ (fun old new : Record => new.header = old.header ∧
      previousPayload inflate new = previousPayload inflate old) records kept) :
    kept.mapM (infoNode toLowercase inflate order again pluginIndex targetIndex none) =
      records.mapM (infoNode toLowercase inflate order plugin pluginIndex targetIndex none) := by
  induction same with
  | nil => rfl
  | cons own _ rest =>
    rw [List.mapM_cons, List.mapM_cons, infoNode_congr name masters own.1 own.2, rest]

/-- The FormID of a node determines the info. -/
theorem infoNode_identity {toLowercase : Lowercase} {inflate : Inflate} {order : LoadOrder}
    {plugin : PluginInput} {pluginIndex targetIndex : Nat} {edited : Option WritableRecord}
    {record : Record} {node : InfoNode}
    (known : infoNode toLowercase inflate order plugin pluginIndex targetIndex edited record =
      .ok node) : plugin.resolve toLowercase order node.rawFormId = some node.identity := by
  unfold infoNode at known
  by_cases foreign : record.header.signature ≠ infoSignature
  · rw [if_pos foreign] at known
    cases known
  · rw [if_neg foreign] at known
    cases resolved : plugin.resolve toLowercase order record.header.formId with
    | none =>
      rw [resolved] at known
      cases known
    | some identity =>
      rw [resolved] at known
      dsimp only at known
      generalize Option.filter (fun edited => decide (pluginIndex = targetIndex ∧
        edited.formId = record.header.formId)) edited = chosen at known
      cases chosen with
      | none | some =>
        obtain ⟨found, _, same⟩ := bind_eq_ok.mp known
        cases same
        exact resolved

/-- The plugin in the place of the target is selected in its place. -/
theorem selectTarget_set {toLowercase : Lowercase} {plugins : List PluginInput}
    {targetPlugin : String} {target : PluginInput × Nat} {again : PluginInput}
    (name : again.name = target.1.name)
    (selected : selectTarget toLowercase plugins targetPlugin = .ok target) :
    selectTarget toLowercase (plugins.set target.2 again) targetPlugin = .ok (again, target.2) := by
  obtain ⟨front, back, split, length, changed⟩ :=
    split_of_getElem? (getElem?_of_selectTarget selected) again
  let named : PluginInput × Nat → Bool := fun item =>
    strEqIgnoreAsciiCase item.1.name (toLowercase targetPlugin)
  have matching : plugins.zipIdx.filter named = [target] := selectTarget_eq_ok.mp selected
  have chosen : ∀ position, named (target.1, position) = true := by
    have member : target ∈ plugins.zipIdx.filter named := by
      rw [matching]
      exact List.mem_singleton.mpr rfl
    exact fun _ => (List.mem_filter.mp member).2
  have alsoChosen : ∀ position, named (again, position) = true := by
    intro position
    show strEqIgnoreAsciiCase again.name _ = true
    rw [name]
    exact chosen position
  apply selectTarget_eq_ok.mpr
  show (plugins.set target.2 again).zipIdx.filter named = [(again, target.2)]
  rw [split, List.zipIdx_append, List.zipIdx_cons, List.filter_append,
    List.filter_cons_of_pos (chosen _)] at matching
  rw [changed, List.zipIdx_append, List.zipIdx_cons, List.filter_append,
    List.filter_cons_of_pos (alsoChosen _)]
  have lengths := congrArg List.length matching
  rw [List.length_append, List.length_cons, List.length_singleton] at lengths
  have noneBefore := List.eq_nil_of_length_eq_zero
    (show ((front.zipIdx).filter named).length = 0 by omega)
  have noneBehind := List.eq_nil_of_length_eq_zero
    (show ((back.zipIdx (0 + front.length + 1)).filter named).length = 0 by omega)
  rw [noneBefore, noneBehind, length, Nat.zero_add]
  rfl

/-- Nodes of the target in the planned order are the old ones, arranged. -/
theorem rearranged_of_planned {earlier own ended : List InfoNode} {pluginIndex : Nat}
    {arranged : List Nat}
    (foreign : ∀ node ∈ earlier, node.pluginIndex ≠ pluginIndex)
    (belong : ∀ node ∈ own, node.pluginIndex = pluginIndex)
    (distinct : DistinctInfos (earlier ++ own) pluginIndex)
    (determined : ∀ first ∈ own, ∀ second ∈ own, first.rawFormId = second.rawFormId →
      first.identity = second.identity)
    (elements : ended.Perm own)
    (complete : arranged.Perm (nodesOf (earlier ++ own) pluginIndex))
    (planned : ended.map (·.rawFormId) = arranged.map (formIdAt (earlier ++ own))) :
    Rearranged (earlier ++ own) (earlier ++ ended) earlier.length arranged := by
  have positions : ∀ index, index ∈ nodesOf (earlier ++ own) pluginIndex ↔
      earlier.length ≤ index ∧ index < (earlier ++ own).length := by
    intro index
    rw [mem_nodesOf_iff]
    exact belongsTo_append_iff foreign belong index
  have lengths : arranged.length = ended.length := by
    have same := congrArg List.length planned
    rw [List.length_map, List.length_map] at same
    exact same.symm
  refine ⟨?_, by rw [List.length_append]; omega, ?_, ?_, ?_⟩
  · apply complete.trans
    have nodup : (nodesOf (earlier ++ own) pluginIndex).Nodup := List.nodup_range.filter _
    apply (List.perm_ext_iff_of_nodup nodup (List.nodup_range')).mpr
    intro index
    rw [positions, List.mem_range'_1, List.length_append]
    omega
  · rw [List.length_append, List.length_append, elements.length_eq]
  · intro index
    by_cases early : index < earlier.length
    · rw [Rearranged.oldPosition_early early, List.getElem?_append_left early,
        List.getElem?_append_left early]
    · rw [List.getElem?_append_right (by omega)]
      cases chosen : arranged[index - earlier.length]? with
      | none =>
        have beyond := List.getElem?_eq_none_iff.mp chosen
        have kept : oldPosition earlier.length arranged index = index := by
          unfold oldPosition
          rw [if_neg early, chosen]
          rfl
        have bound := elements.length_eq
        rw [kept, List.getElem?_eq_none (by omega),
          List.getElem?_eq_none (by rw [List.length_append]; omega)]
      | some position =>
        have moved : oldPosition earlier.length arranged index = position := by
          unfold oldPosition
          rw [if_neg early, chosen]
          rfl
        have within := (List.getElem?_eq_some_iff.mp chosen).1
        have inside : index - earlier.length < ended.length := by omega
        have named := congrArg (·[index - earlier.length]?) planned
        rw [List.getElem?_map, List.getElem?_map, chosen, List.getElem?_eq_getElem inside,
          Option.map_some, Option.map_some, Option.some.injEq] at named
        have target := complete.mem_iff.mp (List.mem_of_getElem? chosen)
        have bounds := (positions position).mp target
        -- The planned record and the arranged one have the same FormID.
        have held : (earlier ++ own)[position]? = some (earlier ++ own)[position] :=
          List.getElem?_eq_getElem bounds.2
        have ownHeld : (earlier ++ own)[position] ∈ own := by
          rw [List.getElem_append_right bounds.1]
          exact List.getElem_mem _
        have member : ended[index - earlier.length] ∈ own :=
          elements.mem_iff.mp (List.getElem_mem inside)
        unfold formIdAt at named
        rw [held] at named
        have sameInfo := determined _ member _ ownHeld named
        obtain ⟨place, stands⟩ := List.mem_iff_getElem?.mp member
        have placeInside := (List.getElem?_eq_some_iff.mp stands).1
        have standsWhole : (earlier ++ own)[earlier.length + place]? =
            some ended[index - earlier.length] := by
          rw [List.getElem?_append_right (Nat.le_add_right _ _), Nat.add_sub_cancel_left]
          exact stands
        have samePlace := distinct (earlier.length + place)
          ((positions _).mpr ⟨Nat.le_add_right _ _, by rw [List.length_append]; omega⟩) position
          target (by rw [standsWhole, held]; exact congrArg some sameInfo)
        rw [moved, ← samePlace, standsWhole, List.getElem?_eq_getElem inside]
  · intro first second lateFirst lateSecond insideFirst insideSecond same
    exact distinct first ((positions first).mpr ⟨lateFirst, insideFirst⟩) second
      ((positions second).mpr ⟨lateSecond, insideSecond⟩) same

/-- The arranged nodes have no cycle either. -/
theorem Rearranged.acyclic {nodes again : List InfoNode} {start : Nat} {arranged : List Nat}
    (rearranged : Rearranged nodes again start arranged) (acyclic : ¬HasCycle nodes) :
    ¬HasCycle again := by
  intro cycle
  obtain ⟨index, leads⟩ := cycle
  apply acyclic
  refine ⟨oldPosition start arranged index, ?_⟩
  refine Relation.TransGen.lift (oldPosition start arranged) ?_ index index leads
  intro first second points
  apply infoPlacement_parent.mp
  rw [rearranged.renames.parent, infoPlacement_parent.mpr points]
  rfl

/-- The second plan names the old nodes in their new order. -/
theorem Rearranged.targetFormIds {nodes again : List InfoNode} {start pluginIndex : Nat}
    {arranged : List Nat} (rearranged : Rearranged nodes again start arranged)
    (ordered : List Nat) : targetFormIds again pluginIndex ordered =
      ((ordered.map (oldPosition start arranged)).filter (belongsTo nodes pluginIndex)).map
        (formIdAt nodes) := by
  rw [targetFormIds_eq, List.filter_map, List.map_map]
  have belongs : belongsTo again pluginIndex =
      belongsTo nodes pluginIndex ∘ oldPosition start arranged := by
    funext index
    show again[index]?.any _ = nodes[_]?.any _
    rw [rearranged.same]
  have formIds : formIdAt again = formIdAt nodes ∘ oldPosition start arranged := by
    funext index
    show (again[index]?.map _).getD _ = (nodes[_]?.map _).getD _
    rw [rearranged.same]
  rw [belongs, formIds]

/-- Lists with the same images are the same where different elements have different images. -/
theorem eq_of_map_eq {α β : Type} {change : α → β} {first second : List α}
    (injective : ∀ x ∈ first, ∀ y ∈ second, change x = change y → x = y)
    (same : first.map change = second.map change) : first = second := by
  induction first generalizing second with
  | nil => exact (List.map_eq_nil_iff.mp same.symm).symm
  | cons x first rest =>
    cases second with
    | nil => cases same
    | cons y second =>
      rw [List.map_cons, List.map_cons, List.cons.injEq] at same
      rw [injective x List.mem_cons_self y List.mem_cons_self same.1,
        rest (fun x amongX y amongY => injective x (List.mem_cons_of_mem _ amongX) y
          (List.mem_cons_of_mem _ amongY)) same.2]

/-- Planning the sorted nodes again changes nothing if and only if no two of them share a place. -/
theorem planGroup_again_iff {nodes again : List InfoNode} {pluginIndex start : Nat}
    {sorted : Group} {arranged ordered : List Nat} (acyclic : ¬HasCycle nodes) (bound : start ≤ nodes.length)
    (positions : ∀ index, belongsTo nodes pluginIndex index = true ↔
      start ≤ index ∧ index < nodes.length)
    (isOrdered : ordered = (infoPlacement nodes).attachAll []
      (placedSequence nodes (List.range nodes.length)))
    (isArranged : arranged = ordered.filter (belongsTo nodes pluginIndex))
    (rearranged : Rearranged nodes again start arranged)
    (ends : EndsWith again pluginIndex sorted)
    (injective : ∀ first ∈ nodesOf nodes pluginIndex, ∀ second ∈ nodesOf nodes pluginIndex,
      formIdAt nodes first = formIdAt nodes second → first = second)
    (planned : sorted.records.map (·.header.formId) = arranged.map (formIdAt nodes)) :
    ∃ next, planGroup again pluginIndex sorted = .ok (some next) ∧
      (next.changed = false ↔ Unforked nodes pluginIndex) := by
  rcases orderInfoNodes_cases again with ⟨_, _, cycle⟩ | ⟨orderedAgain, succeeded, same, _, complete⟩
  · exact absurd cycle (rearranged.acyclic acyclic)
  · have formIds : targetFormIds again pluginIndex orderedAgain =
        (((infoPlacement nodes).attachAll []
          (placedSequence nodes (List.range start ++ arranged))).filter
            (belongsTo nodes pluginIndex)).map (formIdAt nodes) := by
      rw [rearranged.targetFormIds, same, rearranged.attachAll_again]
    have grouped : (targetFormIds again pluginIndex orderedAgain).Perm
        (sorted.records.map (·.header.formId)) := by
      rw [← targetFormIds_range ends, targetFormIds_eq, targetFormIds_eq]
      exact (complete.filter _).map _
    have lengths : ¬(targetFormIds again pluginIndex orderedAgain).length ≠
        (sorted.records.map (·.header.formId)).length := by
      rw [not_not]
      exact grouped.length_eq
    unfold planGroup
    rw [succeeded, ok_bind]
    dsimp only
    rw [if_neg lengths]
    refine ⟨_, rfl, ?_⟩
    rw [← filter_attachAll_again_iff acyclic bound positions isOrdered isArranged]
    show decide (targetFormIds again pluginIndex orderedAgain ≠ _) = false ↔ _
    rw [decide_eq_false_iff_not, not_not, formIds, planned]
    constructor
    · intro equal
      apply eq_of_map_eq ?_ equal
      intro first amongFirst second amongSecond
      rw [isArranged] at amongSecond
      exact injective first (mem_nodesOf_iff.mpr (List.mem_filter.mp amongFirst).2) second
        (mem_nodesOf_iff.mpr (List.mem_filter.mp amongSecond).2)
    · intro equal
      rw [equal]

/-- The plan of a sorted group is unchanged if and only if no two of its records share a place, apart
from those that an earlier plugin leads to. -/
theorem planInfoGroupSort_again_iff (toLowercase : Lowercase) (inflate : Inflate) (order : LoadOrder)
    (plugins : List PluginInput) (targetPlugin : String) (dial : GlobalFormId)
    (target : PluginInput × Nat) (group : Group) (nodes : List InfoNode) (plan : InfoGroupSortPlan)
    (again : PluginInput) (sorted : Group)
    (selected : selectTarget toLowercase plugins targetPlugin = .ok target)
    (found : findTopicGroup toLowercase order target.1 dial = .ok (some group))
    (resolved : infoNodes toLowercase inflate order plugins dial target.2 none = .ok nodes)
    (planned : planInfoGroupSort toLowercase inflate order plugins targetPlugin dial =
      .ok (some plan))
    (resorted : Resorted toLowercase inflate order dial target.1 group plan again sorted)
    (distinct : DistinctInfos nodes target.2) :
    ∃ next, planInfoGroupSort toLowercase inflate order (plugins.set target.2 again) targetPlugin
        dial = .ok (some next) ∧ (next.changed = false ↔ Unforked nodes target.2) := by
  have stands := getElem?_of_selectTarget selected
  obtain ⟨front, back, split, length, changed⟩ := split_of_getElem? stands again
  have walk := resolved
  rw [split, ← length] at walk
  obtain ⟨before, own, walked, ownNodes, isNodes⟩ := (infoNodes_eq_ok found).mp walk
  -- The nodes of the sorted records are the old ones in another order.
  obtain ⟨records, elements, kept⟩ := resorted.records
  obtain ⟨ended, mapped, endedPerm⟩ := mapM_perm elements.symm ownNodes
  have mappedAgain : sorted.records.mapM (infoNode toLowercase inflate order again front.length
      front.length none) = .ok ended := by
    rw [← mapped]
    exact mapM_infoNode_congr resorted.name resorted.masters kept
  have resolvedAgain : infoNodes toLowercase inflate order (plugins.set target.2 again) dial
      target.2 none = .ok (before.flatten ++ ended) := by
    rw [changed, ← length]
    exact (infoNodes_eq_ok resorted.found).mpr ⟨before, ended, walked, mappedAgain, rfl⟩
  have selectedAgain := selectTarget_set resorted.name selected
  have standsAgain := getElem?_of_selectTarget selectedAgain
  have endsAgain := infoNodes_endsWith standsAgain resorted.found resolvedAgain
  rw [planInfoGroupSort_eq selectedAgain resorted.found resolvedAgain]
  rw [planInfoGroupSort_eq selected found resolved] at planned
  subst isNodes
  have foreign : ∀ node ∈ before.flatten, node.pluginIndex ≠ target.2 := by
    rw [← length]
    exact pluginIndex_ne_of_before walked
  have belong : ∀ node ∈ own, node.pluginIndex = target.2 := by
    intro node among
    obtain ⟨record, _, made⟩ := mem_of_mapM_eq_ok ownNodes among
    rw [← length]
    exact (infoNode_eq_ok made).1
  have positions := belongsTo_append_iff foreign belong
  have determined : ∀ first ∈ own, ∀ second ∈ own, first.rawFormId = second.rawFormId →
      first.identity = second.identity := by
    intro first amongFirst second amongSecond same
    obtain ⟨_, _, madeFirst⟩ := mem_of_mapM_eq_ok ownNodes amongFirst
    obtain ⟨_, _, madeSecond⟩ := mem_of_mapM_eq_ok ownNodes amongSecond
    have resolvesFirst := infoNode_identity madeFirst
    rw [same] at resolvesFirst
    exact Option.some.inj (resolvesFirst.symm.trans (infoNode_identity madeSecond))
  have injective : ∀ first ∈ nodesOf (before.flatten ++ own) target.2,
      ∀ second ∈ nodesOf (before.flatten ++ own) target.2,
        formIdAt (before.flatten ++ own) first = formIdAt (before.flatten ++ own) second →
          first = second := by
    have held : ∀ index ∈ nodesOf (before.flatten ++ own) target.2, ∃ node ∈ own,
        (before.flatten ++ own)[index]? = some node := by
      intro index among
      have bounds := (positions index).mp (mem_nodesOf_iff.mp among)
      have inside : index < (before.flatten ++ own).length := bounds.2
      refine ⟨(before.flatten ++ own)[index], ?_, List.getElem?_eq_getElem inside⟩
      rw [List.getElem_append_right bounds.1]
      exact List.getElem_mem _
    intro first amongFirst second amongSecond same
    obtain ⟨one, memberOne, standsOne⟩ := held first amongFirst
    obtain ⟨other, memberOther, standsOther⟩ := held second amongSecond
    unfold formIdAt at same
    rw [standsOne, standsOther] at same
    have sameInfo := determined one memberOne other memberOther same
    exact distinct first amongFirst second amongSecond
      (by rw [standsOne, standsOther]; exact congrArg some sameInfo)
  rcases orderInfoNodes_cases (before.flatten ++ own) with ⟨_, failed, _⟩ |
    ⟨ordered, succeeded, isOrdered, orderly, complete⟩
  · unfold planGroup at planned
    rw [failed] at planned
    cases planned
  · have acyclic : ¬HasCycle (before.flatten ++ own) := by
      apply not_hasCycle_of_arranged ?_ complete
      rw [isOrdered]
      exact Placement.Arranged.attachAll (.nil _) orderly
    have planIs : plan.formIds = (ordered.filter (belongsTo (before.flatten ++ own) target.2)).map
        (formIdAt (before.flatten ++ own)) := by
      unfold planGroup at planned
      rw [succeeded, ok_bind] at planned
      dsimp only at planned
      by_cases lengths : (targetFormIds (before.flatten ++ own) target.2 ordered).length ≠
          (group.records.map (·.header.formId)).length
      · rw [if_pos lengths] at planned
        cases planned
      · rw [if_neg lengths] at planned
        cases planned
        exact targetFormIds_eq _ _ _
    have sortedIds : sorted.records.map (·.header.formId) =
        (ordered.filter (belongsTo (before.flatten ++ own) target.2)).map
          (formIdAt (before.flatten ++ own)) := resorted.planned.trans planIs
    have endedIds : ended.map (·.rawFormId) = sorted.records.map (·.header.formId) := by
      rw [← List.forall₂_eq_eq_eq, List.forall₂_map_left_iff, List.forall₂_map_right_iff]
      exact (mapM_eq_ok.mp mappedAgain).flip.imp fun _ _ made => (infoNode_eq_ok made).2
    have rearranged := rearranged_of_planned foreign belong distinct determined endedPerm
      (complete.filter _) (endedIds.trans sortedIds)
    exact planGroup_again_iff acyclic (by rw [List.length_append]; omega) positions isOrdered rfl
      rearranged endsAgain injective sortedIds

/-- Two infos that were in the wrong order, sorted and planned again. -/
theorem planInfoGroupSort_again_chain : ∃ next,
    planInfoGroupSort id refuseInflate .new
        ([topicInput [(2, some 1), (1, none)]].set 0 (topicInput [(1, none), (2, some 1)]))
        "own.esp" sampleTopic = .ok (some next) ∧
      (next.changed = false ↔ Unforked
        [⟨0, ⟨2⟩, ⟨"own.esp", 2⟩, some ⟨"own.esp", 1⟩, true⟩, ⟨0, ⟨1⟩, ⟨"own.esp", 1⟩, none, false⟩]
        0) := by
  refine planInfoGroupSort_again_iff id refuseInflate .new _ "own.esp" sampleTopic
    (topicInput [(2, some 1), (1, none)], 0) _ _ ⟨[⟨1⟩, ⟨2⟩], true⟩ _ _
    (selectTarget_topicInput _) (findTopicGroup_topicInput _) ?_ ?_
    ⟨rfl, rfl, findTopicGroup_topicInput _, ?_, rfl⟩ ?_
  · rw [infoNodes_topicInput]
    exact eq_ok_of_toOption (by decide +kernel)
  · rw [plan_topicInput]
    exact eq_ok_of_toOption (by decide +kernel)
  · exact ⟨_, (List.Perm.swap _ _ []).symm, .cons ⟨rfl, rfl⟩ (.cons ⟨rfl, rfl⟩ .nil)⟩
  · unfold DistinctInfos
    decide +kernel

/-- Sorting is not idempotent. Two infos behind one change places with every run; and of two records
of one info another one is the last version after the first run. -/
theorem not_planInfoGroupSort_idempotent :
    (planInfoGroupSort id refuseInflate .new [topicInput [(1, none), (2, some 1), (3, some 1)]]
        "own.esp" sampleTopic = .ok (some ⟨[⟨1⟩, ⟨3⟩, ⟨2⟩], true⟩) ∧
      planInfoGroupSort id refuseInflate .new [topicInput [(1, none), (3, some 1), (2, some 1)]]
        "own.esp" sampleTopic = .ok (some ⟨[⟨1⟩, ⟨2⟩, ⟨3⟩], true⟩)) ∧
    planInfoGroupSort id refuseInflate .new [topicInput [(2, some 1), (1, none), (1, none)]]
        "own.esp" sampleTopic = .ok (some ⟨[⟨1⟩, ⟨2⟩, ⟨1⟩], true⟩) ∧
      planInfoGroupSort id refuseInflate .new [topicInput [(1, none), (2, some 1), (1, none)]]
        "own.esp" sampleTopic = .ok (some ⟨[⟨1⟩, ⟨1⟩, ⟨2⟩], true⟩) := by
  refine ⟨⟨?_, ?_⟩, ?_, ?_⟩
  all_goals
    rw [plan_topicInput]
    exact eq_ok_of_toOption (by decide +kernel)

end Bethkit
