import Bethkit.Verif.Replace

/-!
# The tree that a patcher writes

Whatever is replaced and reordered, the groups that a patcher writes are the bytes of a tree: it
has as many groups as the source tree and the same FormIDs, in some order. This holds for groups
that are copied although an order is registered in them, and for sizes that are cut off; the
sizes only decide whether the tree can be read back.
-/

namespace Bethkit

open Lib Layout

/-- The FormIDs of the records of a node. -/
def nodeIds (node : Node) : List FormId := node.leaves.map (·.formId)

/-- The FormIDs of the records of a parsed tree. -/
def treeIds (tree : GroupChild) : List FormId := tree.leaves.map (·.header.formId)

/-- The FormIDs below a group are those below its children. -/
@[simp]
theorem nodeIds_node (head : GroupHead) (children : List Node) :
    nodeIds (.node head children) = children.flatMap nodeIds := by
  simp only [nodeIds, RoseTree.leaves_node, List.map_flatMap]
  rfl

/-- The FormIDs below a parsed group are those below its children. -/
@[simp]
theorem treeIds_node (info : GroupInfo) (children : List GroupChild) :
    treeIds (.node info children) = children.flatMap treeIds := by
  simp only [treeIds, RoseTree.leaves_node, List.map_flatMap]
  rfl

/-- Every replacement is one record with the FormID that it replaces. -/
def RecordsReplaced (patches : RecordPatches) : Prop :=
  ∀ formId patch, patches.lookup formId = some patch →
    ∃ raw : RawRecord, patch.writeTo = raw.encode ∧ raw.formId = formId

/-- A parsed tree has as many groups as a node, and its FormIDs. -/
def SameShape (node : Node) (tree : GroupChild) : Prop :=
  node.nodes.length = tree.nodes.length ∧ nodeIds node = treeIds tree

/-- Siblings of the same shapes have the same number of groups and the same FormIDs. -/
theorem sameShape_all {nodes : List Node} {trees : List GroupChild}
    (each : List.Forall₂ SameShape nodes trees) :
    (nodes.flatMap RoseTree.nodes).length = (trees.flatMap RoseTree.nodes).length ∧
      nodes.flatMap nodeIds = trees.flatMap treeIds := by
  induction each with
  | nil => exact ⟨rfl, rfl⟩
  | cons head _ ih =>
    obtain ⟨groups, ids⟩ := head
    obtain ⟨groupsAll, idsAll⟩ := ih
    exact ⟨by simp [groups, groupsAll], by simp [ids, idsAll]⟩

/-- A parsed tree has the groups and FormIDs of the node that it stands for. -/
theorem sameShape_of_standsAt {source : Bytes} (node : Node) {tree : GroupChild}
    (stands : StandsAt source node tree) : SameShape node tree := by
  induction node using RoseTree.ind generalizing tree with
  | leaf raw =>
    obtain ⟨start, rfl, _⟩ := standsAt_leaf stands
    exact ⟨by simp, by simp [nodeIds, treeIds, RawRecord.locate, RawRecord.toRecord,
      RawRecord.header]⟩
  | node head children ih =>
    obtain ⟨range, trees, rfl, _, _, below⟩ := standsAt_node stands
    obtain ⟨groups, ids⟩ := sameShape_all (forall₂_imp_mem below
      fun node inside tree _ standing => ih node inside standing)
    exact ⟨by simp [RoseTree.nodes_node, groups], by rw [nodeIds_node, treeIds_node, ids]⟩

namespace PluginPatcher

/-- A record is written as one record with its FormID. -/
theorem exists_newRecord {patcher : PluginPatcher} (replaced : RecordsReplaced patcher.patches)
    {record : Record} (stored : Stored patcher.plugin.source record) :
    ∃ raw : RawRecord, patcher.newBytes record = raw.encode ∧ raw.formId = record.header.formId ∧
      raw.encode.length = emittedSize patcher.replacement (.leaf record) := by
  unfold newBytes
  rw [emittedSize_leaf, replacement]
  cases given : patcher.patches.lookup record.header.formId with
  | some patch =>
    obtain ⟨raw, bytes, same⟩ := replaced _ _ given
    exact ⟨raw, bytes, same, by simp [bytes]⟩
  | none =>
    obtain ⟨raw, header, found⟩ := stored
    have size := raw.toNat_dataSize
    refine ⟨raw, by simp [bytesOf, found], by rw [header]; rfl, ?_⟩
    rw [RawRecord.length_encode, header, size]
    rfl

/-- What a patcher makes of a tree. -/
structure Writes (patcher : PluginPatcher) (touched : Finset Range) (tree : GroupChild)
    (written : Node) : Prop where
  /-- The bytes are those of a node. -/
  done : patcher.writeChild touched tree = .ok (encode written)
  /-- No group is lost or added. -/
  groups : written.nodes.length = tree.nodes.length
  /-- The records keep their FormIDs, in some order. -/
  ids : (nodeIds written).Perm (treeIds tree)
  /-- The size depends on the replacements only. -/
  length : (encode written).length = emittedSize patcher.replacement tree
  /-- The node can be read back when all sizes fit. -/
  fits : EmittedFits patcher.replacement tree → Fits written

/-- What a patcher makes of siblings. -/
theorem writes_all {patcher : PluginPatcher} {touched : Finset Range} {trees : List GroupChild}
    {written : List Node} (each : List.Forall₂ (patcher.Writes touched) trees written) :
    patcher.writeChildren touched trees = .ok (encodeAll written) ∧
      (written.flatMap RoseTree.nodes).length = (trees.flatMap RoseTree.nodes).length ∧
      (written.flatMap nodeIds).Perm (trees.flatMap treeIds) ∧
      (encodeAll written).length = (trees.map (emittedSize patcher.replacement)).sum ∧
      ((∀ tree ∈ trees, EmittedFits patcher.replacement tree) → ∀ node ∈ written, Fits node) := by
  induction each with
  | nil => exact ⟨rfl, rfl, .nil, rfl, by simp⟩
  | cons head _ ih =>
    obtain ⟨done, groups, ids, length, fits⟩ := ih
    refine ⟨?_, ?_, ?_, ?_, ?_⟩
    · rw [writeChildren, head.done, done]
      rfl
    · simp [head.groups, groups]
    · simpa using head.ids.append ids
    · simp [head.length, length]
    · intro all
      rw [List.forall_mem_cons] at all ⊢
      exact ⟨head.fits all.1, fits all.2⟩

/-- Records that are written one after the other are the records of a group. -/
theorem exists_newRecords {patcher : PluginPatcher} (replaced : RecordsReplaced patcher.patches)
    {records : List Record} (stored : ∀ record ∈ records, Stored patcher.plugin.source record) :
    ∃ raws : List RawRecord, encodeAll (raws.map .leaf) = records.flatMap patcher.newBytes ∧
      raws.map (·.formId) = records.map (·.header.formId) ∧
      (records.flatMap patcher.newBytes).length =
        (records.map fun record => emittedSize patcher.replacement (.leaf record)).sum := by
  induction records with
  | nil => exact ⟨[], rfl, rfl, rfl⟩
  | cons record records ih =>
    obtain ⟨raw, bytes, same, size⟩ := exists_newRecord replaced (stored record List.mem_cons_self)
    obtain ⟨raws, bytesAll, sameAll, sizeAll⟩ :=
      ih fun other among => stored other (List.mem_cons_of_mem _ among)
    refine ⟨raw :: raws, ?_, by rw [List.map_cons, same, sameAll, List.map_cons], ?_⟩
    · rw [List.map_cons, encodeAll_cons, encode_leaf, bytesAll, List.flatMap_cons, bytes]
    · rw [List.flatMap_cons, List.length_append, bytes, size, sizeAll, List.map_cons, List.sum_cons]

/-- A group that is written in a registered order. -/
theorem writes_ordered {patcher : PluginPatcher} (replaced : RecordsReplaced patcher.patches)
    {touched : Finset Range} {head : GroupHead} {children : List Node} {size : Nat}
    {range : Option Range} {trees : List GroupChild} {order : List FormId}
    (walk : needsWalk touched ⟨head.header size, range⟩ = true)
    (own : patcher.orderOf ⟨head.header size, range⟩ = some order)
    (ordered : OrderedGroup patcher.plugin.source children (⟨head.header size, range⟩, trees) order) :
    ∃ written, patcher.Writes touched (.node ⟨head.header size, range⟩ trees) written := by
  have leaves : trees = _ := ordered.leaves
  have shuffled := ordered.picked
  have stored := fun record found => ordered.stored record (shuffled.mem_iff.mp found)
  have written := writeChild_ordered walk own
    (writeOrdered_eq ordered.stored ordered.different ordered.known)
  generalize (Group.ofNode (⟨head.header size, range⟩, trees)).records = records at *
  generalize pick (·.header.formId) order records = picked at *
  obtain ⟨raws, bytes, ids, length⟩ := exists_newRecords replaced stored
  have sum : (trees.map (emittedSize patcher.replacement)).sum =
      (encodeAll (raws.map .leaf)).length := by
    have moved := shuffled.map fun record => emittedSize patcher.replacement (.leaf record)
    rw [bytes, length, leaves, List.map_map]
    exact moved.sum_eq.symm
  refine ⟨.node head (raws.map .leaf), ?_, ?_, ?_, ?_, ?_⟩
  · rw [written, ← bytes, encode_node]
  · rw [RoseTree.nodes_node, RoseTree.nodes_node, leaves]
    simp [List.flatMap_map]
  · have flat : (raws.map RoseTree.leaf).flatMap nodeIds = raws.map (·.formId) := by
      rw [List.flatMap_map, List.map_eq_flatMap]
      simp [nodeIds]
    have flat' : (records.map RoseTree.leaf).flatMap treeIds = records.map (·.header.formId) := by
      rw [List.flatMap_map, List.map_eq_flatMap]
      simp [treeIds]
    rw [nodeIds_node, treeIds_node, flat, ids, leaves, flat']
    exact shuffled.map _
  · rw [encode_node, emittedSize_node, sum]
    simp
  · intro all
    refine (fits_node _ _).mpr ⟨?_, by simp⟩
    rw [← sum]
    exact ((emittedFits_node ..).mp all).1

/-- Every standing tree is written as a node, when the groups with replaced records are walked. -/
theorem exists_writes {patcher : PluginPatcher} (replaced : RecordsReplaced patcher.patches)
    {touched : Finset Range} (node : Node) (fit : Fits node) {tree : GroupChild}
    (stands : StandsAt patcher.plugin.source node tree) (valid : ValidOrders patcher.orderOf tree)
    (walks : ∀ group ∈ tree.nodes, HasPatched patcher.patches (.node group.1 group.2) →
      needsWalk touched group.1 = true) : ∃ written, patcher.Writes touched tree written := by
  induction node using RoseTree.ind generalizing tree with
  | leaf raw =>
    obtain ⟨start, rfl, found⟩ := standsAt_leaf stands
    have stored : Stored patcher.plugin.source (raw.locate start) := ⟨raw, rfl, found⟩
    obtain ⟨new, bytes, same, size⟩ := exists_newRecord replaced stored
    refine ⟨.leaf new, ?_, by simp, ?_, by rw [encode_leaf, size], by simp⟩
    · rw [writeChild, writeRecord_eq stored, bytes, encode_leaf]
    · simp [nodeIds, treeIds, same]
  | node head children ih =>
    obtain ⟨_, fits⟩ := (fits_node head children).mp fit
    have standing := stands
    obtain ⟨range, trees, rfl, whole, front, below⟩ := standsAt_node stands
    cases walk : needsWalk touched
        ⟨head.header (24 + (encodeAll children).length), some range⟩ with
    | false =>
      have unpatched : ∀ record ∈ (RoseTree.node
          ⟨head.header (24 + (encodeAll children).length), some range⟩ trees).leaves,
          patcher.replacement record.header.formId = none := by
        intro record found
        cases given : patcher.patches.lookup record.header.formId with
        | none => rw [replacement, given, Option.map_none]
        | some patch =>
          have walked := walks (_, trees) (by simp) ⟨record, found, by rw [given]; rfl⟩
          exact absurd (walk.symm.trans walked) (by simp)
      obtain ⟨_, size, _⟩ := replaced_unpatched _ fit standing unpatched
      obtain ⟨groups, ids⟩ := sameShape_of_standsAt _ standing
      exact ⟨_, writeChild_copied walk whole, groups, .of_eq ids, size.symm, fun _ => fit⟩
    | true =>
      cases own : patcher.orderOf ⟨head.header (24 + (encodeAll children).length), some range⟩ with
      | some order =>
        exact writes_ordered replaced walk own (OrderedGroup.of_valid below valid own)
      | none =>
        have each : ∀ tree ∈ trees, ∃ written, patcher.Writes touched tree written := by
          intro tree among
          obtain ⟨node, found, paired⟩ := exists_of_mem_right below among
          refine ih node found (fits node found) paired (valid.child among)
            fun group inside => walks group ?_
          rw [RoseTree.nodes_node]
          exact List.mem_cons_of_mem _ (List.mem_flatMap.mpr ⟨tree, among, inside⟩)
        obtain ⟨written, paired⟩ := exists_forall₂ trees fun tree among => each tree among
        obtain ⟨done, groups, ids, length, fits'⟩ := writes_all paired.flip
        have size := emittedSize_node patcher.replacement
          ⟨head.header (24 + (encodeAll children).length), some range⟩ trees
        refine ⟨.node head written, ?_, ?_, ?_, ?_, ?_⟩
        · rw [writeChild_walked walk own done, encode_node]
        · simp only [RoseTree.nodes_node, List.length_cons, groups]
        · rw [nodeIds_node, treeIds_node]
          exact ids
        · rw [encode_node, size, ← length]
          simp
        · intro all
          obtain ⟨small, inner⟩ := (emittedFits_node ..).mp all
          exact (fits_node _ _).mpr ⟨by rw [length]; exact small, fits' inner⟩

end PluginPatcher

end Bethkit
