import Bethkit.Lib.Pick
import Bethkit.Verif.Parse

/-!
# Parsed trees and the bytes behind them

A parsed child stands for a node when the source holds the node's bytes where the child was
found. Everything a patcher reads back from the source follows from this: the bytes of records
and groups, child by child. Source ranges identify groups, because no two groups start at the
same offset.
-/

namespace Bethkit

open Lib Layout

/-- The source holds the bytes of a node where the parsed tree was found. -/
def StandsAt (source : Bytes) (node : Node) (tree : GroupChild) : Prop :=
  ∃ before after, source = before ++ (encode node ++ after) ∧ tree = locate before.length node

/-- Siblings found one after the other stand for their nodes. -/
theorem standsAt_locateAll (source before after : Bytes) (nodes : List Node)
    (holds : source = before ++ (encodeAll nodes ++ after)) :
    List.Forall₂ (StandsAt source) nodes (locateAll before.length nodes) := by
  induction nodes generalizing before with
  | nil => exact .nil
  | cons node nodes ih =>
    rw [locateAll]
    rw [encodeAll_cons, List.append_assoc] at holds
    refine .cons ⟨before, encodeAll nodes ++ after, holds, rfl⟩ ?_
    rw [← List.length_append]
    exact ih (before ++ encode node) (by simp [holds])

/-- The bytes between two offsets where they are known to stand. -/
theorem get_of_eq {source before middle after : Bytes} (holds : source = before ++ (middle ++ after))
    {stop : Nat} (ends : stop = before.length + middle.length) :
    source.get before.length stop = some middle := by
  rw [holds, ends, Bytes.get_append]

/-- A tree that stands for a record is that record, with its bytes in the source. -/
theorem standsAt_leaf {source : Bytes} {raw : RawRecord} {tree : GroupChild}
    (stands : StandsAt source (.leaf raw) tree) :
    ∃ start, tree = .leaf (raw.locate start) ∧
      (raw.locate start).sourceBytes source = some raw.encode := by
  obtain ⟨before, after, holds, rfl⟩ := stands
  rw [encode_leaf] at holds
  exact ⟨before.length, by rw [locate], get_of_eq holds rfl⟩

/-- A tree that stands for a group is that group, with its bytes in the source; its children
stand for the children. -/
theorem standsAt_node {source : Bytes} {head : GroupHead} {children : List Node}
    {tree : GroupChild} (stands : StandsAt source (.node head children) tree) :
    ∃ (range : Range) (trees : List GroupChild),
      tree = .node ⟨head.header (24 + (encodeAll children).length), some range⟩ trees ∧
      source.get range.start range.stop = some (encode (.node head children)) ∧
      source.get range.start (range.start + 24) =
        some (head.encode (24 + (encodeAll children).length)) ∧
      List.Forall₂ (StandsAt source) children trees := by
  obtain ⟨before, after, holds, rfl⟩ := stands
  have whole := holds
  rw [encode_node, List.append_assoc] at holds
  refine ⟨⟨before.length, before.length + (24 + (encodeAll children).length)⟩, _, by rw [locate],
    get_of_eq whole (by simp), get_of_eq holds (by simp), ?_⟩
  have base : before.length + 24 =
      (before ++ head.encode (24 + (encodeAll children).length)).length := by simp
  rw [base]
  exact standsAt_locateAll source _ after children (by simp [holds])

/-- A record with its bytes in the source. -/
def Stored (source : Bytes) (record : Record) : Prop :=
  ∃ raw : RawRecord, record.header = raw.header ∧
    record.sourceBytes source = some raw.encode

/-- The records below a standing tree are stored. -/
theorem stored_of_standsAt {source : Bytes} (node : Node) {tree : GroupChild}
    (stands : StandsAt source node tree) : ∀ record ∈ tree.leaves, Stored source record := by
  induction node using RoseTree.ind generalizing tree with
  | leaf raw =>
    obtain ⟨start, rfl, found⟩ := standsAt_leaf stands
    intro record among
    obtain rfl : record = raw.locate start := by simpa using among
    exact ⟨raw, rfl, found⟩
  | node head children ih =>
    obtain ⟨range, trees, rfl, _, _, below⟩ := standsAt_node stands
    intro record among
    simp only [RoseTree.leaves_node, List.mem_flatMap] at among
    obtain ⟨child, inside, among⟩ := among
    obtain ⟨node, found, paired⟩ := exists_of_mem_right below inside
    exact ih node found paired record among

/-- The source ranges of all groups of a tree. -/
def treeRanges (tree : GroupChild) : List (Option Range) :=
  tree.nodes.map fun group => group.1.sourceRange

/-- A record has no group range. -/
@[simp]
theorem treeRanges_leaf (record : Record) : treeRanges (.leaf record) = [] := by simp [treeRanges]

/-- The range of a group comes before those of its children. -/
@[simp]
theorem treeRanges_node (info : GroupInfo) (children : List GroupChild) :
    treeRanges (.node info children) = info.sourceRange :: children.flatMap treeRanges := by
  simp only [treeRanges, RoseTree.nodes_node, List.map_cons, List.map_flatMap]
  rfl

/-- Where the groups of a tree start. -/
def treeStarts (tree : GroupChild) : List Nat :=
  tree.nodes.map fun group => (group.1.sourceRange.map Range.start).getD 0

/-- The groups of located siblings start one after the other inside the bytes of the siblings,
when this holds for each of them. -/
theorem treeStarts_locateAll (nodes : List Node) (start : Nat)
    (each : ∀ node ∈ nodes, ∀ start,
      (∀ offset ∈ treeStarts (locate start node), start ≤ offset ∧
        offset < start + (encode node).length) ∧
      (treeStarts (locate start node)).Pairwise (· < ·)) :
    (∀ offset ∈ (locateAll start nodes).flatMap treeStarts, start ≤ offset ∧
        offset < start + (encodeAll nodes).length) ∧
      ((locateAll start nodes).flatMap treeStarts).Pairwise (· < ·) := by
  induction nodes generalizing start with
  | nil => exact ⟨by simp [locateAll], by simp [locateAll]⟩
  | cons node nodes ih =>
    obtain ⟨bounds, ordered⟩ := each node List.mem_cons_self start
    obtain ⟨later, rest⟩ := ih (start + (encode node).length)
      fun other found => each other (List.mem_cons_of_mem _ found)
    simp only [locateAll, List.flatMap_cons, encodeAll_cons, List.length_append]
    constructor
    · intro offset found
      rcases List.mem_append.mp found with head | tail
      · have := bounds offset head
        omega
      · have := later offset tail
        omega
    · refine List.pairwise_append.mpr ⟨ordered, rest, fun first head second tail => ?_⟩
      have := bounds first head
      have := later second tail
      omega

/-- The groups of a located tree start one after the other inside its bytes. -/
theorem treeStarts_locate (node : Node) (start : Nat) :
    (∀ offset ∈ treeStarts (locate start node), start ≤ offset ∧
        offset < start + (encode node).length) ∧
      (treeStarts (locate start node)).Pairwise (· < ·) := by
  induction node using RoseTree.ind generalizing start with
  | leaf raw => simp [locate, treeStarts]
  | node head children ih =>
    obtain ⟨bounds, ordered⟩ := treeStarts_locateAll children (start + 24) ih
    have starts : treeStarts (locate start (.node head children)) =
        start :: (locateAll (start + 24) children).flatMap treeStarts := by
      simp only [treeStarts, locate, RoseTree.nodes_node, List.map_cons, List.map_flatMap,
        Option.map_some, Option.getD_some]
      rfl
    rw [starts, encode_node, List.length_append, GroupHead.length_encode]
    constructor
    · intro offset found
      rcases List.mem_cons.mp found with rfl | later
      · omega
      · have := bounds offset later
        omega
    · refine List.pairwise_cons.mpr ⟨fun offset later => ?_, ordered⟩
      have := bounds offset later
      omega

/-- Every group of a standing tree has a range. -/
theorem ranged_of_standsAt {source : Bytes} (node : Node) {tree : GroupChild}
    (stands : StandsAt source node tree) : none ∉ treeRanges tree := by
  induction node using RoseTree.ind generalizing tree with
  | leaf raw =>
    obtain ⟨start, rfl, _⟩ := standsAt_leaf stands
    simp
  | node head children ih =>
    obtain ⟨range, trees, rfl, _, _, below⟩ := standsAt_node stands
    simp only [treeRanges_node, List.mem_cons, reduceCtorEq, false_or, List.mem_flatMap, not_exists,
      not_and]
    intro child among absent
    obtain ⟨node, found, paired⟩ := exists_of_mem_right below among
    exact ih node found paired absent

/-- What the parser found, as trees that stand in the source after the header record. -/
theorem exists_standing {inflate : Inflate} {data : Bytes} {ctx : GameContext} {plugin : Plugin}
    (accepted : Plugin.fromBytes inflate data ctx = .ok plugin) :
    plugin.source = data ∧ ∃ (header : Bytes) (nodes : List Node),
      data = header ++ encodeAll nodes ∧
      data.get plugin.headerRange.start plugin.headerRange.stop = some header ∧
      (∀ node ∈ nodes, Fits node) ∧
      List.Forall₂ (StandsAt data) nodes (plugin.groups.map Group.toChild) ∧
      ((plugin.groups.map Group.toChild).flatMap treeRanges).Nodup := by
  obtain ⟨file, header, fit, written, _, rfl⟩ := (fromBytes_eq_ok inflate data ctx plugin).mp accepted
  have trees := TopGroup.toChild_locateAll file.header.encode.length file.groups
  have stands := standsAt_locateAll data file.header.encode [] (file.groups.map TopGroup.toNode)
    (by simp [written, File.encode])
  have ordered := (treeStarts_locateAll (file.groups.map TopGroup.toNode) file.header.encode.length
    fun node _ start => treeStarts_locate node start).2
  have front := Bytes.get_append [] file.header.encode (encodeAll (file.groups.map TopGroup.toNode))
  simp only [List.nil_append, List.length_nil, Nat.zero_add] at front
  refine ⟨rfl, file.header.encode, file.groups.map TopGroup.toNode, written,
    by rw [written]; exact front, ?_, ?_, ?_⟩
  · intro node found
    obtain ⟨group, among, rfl⟩ := List.mem_map.mp found
    exact fit group among
  · simp only [File.locateGroups, trees]
    exact stands
  · simp only [File.locateGroups, trees]
    refine List.Nodup.of_map (fun range => (range.map Range.start).getD 0) ?_
    have starts : (((locateAll file.header.encode.length (file.groups.map
        TopGroup.toNode)).flatMap treeRanges).map fun range => (range.map Range.start).getD 0) =
        (locateAll file.header.encode.length (file.groups.map TopGroup.toNode)).flatMap
          treeStarts := by
      simp only [treeRanges, List.map_flatMap, List.map_map]
      rfl
    rw [starts]
    exact ordered.imp Nat.ne_of_lt

end Bethkit
