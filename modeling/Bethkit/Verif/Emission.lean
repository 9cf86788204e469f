import Bethkit.Verif.Reorder

/-!
# What a patcher emits without replacements

A group that is walked is emitted again from its children or its registered order, another one
is copied. The output is the reordered tree exactly when every group whose order changes is
reached by the walk.
-/

namespace Bethkit

open Lib Layout

mutual

/-- Every group of the tree whose order changes is reached through walked groups. -/
def Covered (orderOf : OrderOf) (touched : Finset Range) : GroupChild → Prop
  | .leaf _ => True
  | .node info children =>
    if PluginPatcher.needsWalk touched info then CoveredAll orderOf touched children
    else OrdersKeep orderOf (.node info children)

/-- Every child is covered. -/
def CoveredAll (orderOf : OrderOf) (touched : Finset Range) : List GroupChild → Prop
  | [] => True
  | child :: children => Covered orderOf touched child ∧ CoveredAll orderOf touched children

end

/-- Children are covered one by one. -/
theorem coveredAll_iff (orderOf : OrderOf) (touched : Finset Range) (children : List GroupChild) :
    CoveredAll orderOf touched children ↔ ∀ child ∈ children, Covered orderOf touched child := by
  induction children with
  | nil => simp [CoveredAll]
  | cons child children ih => rw [CoveredAll, ih, List.forall_mem_cons]

namespace PluginPatcher

/-- The bytes that a record is written as. -/
def newBytes (patcher : PluginPatcher) (record : Record) : Bytes :=
  match patcher.patches.lookup record.header.formId with
  | some patch => patch.writeTo
  | none => bytesOf patcher.plugin.source record

/-- Writing a stored record succeeds. -/
theorem writeRecord_eq {patcher : PluginPatcher} {record : Record}
    (stored : Stored patcher.plugin.source record) :
    patcher.writeRecord record = .ok (patcher.newBytes record) := by
  obtain ⟨raw, _, found⟩ := stored
  unfold writeRecord newBytes bytesOf
  cases patcher.patches.lookup record.header.formId <;> simp [found]

/-- Records are written in the registered order. -/
theorem writeOrdered_eq {patcher : PluginPatcher} {group : Group} {order : List FormId}
    (stored : ∀ record ∈ group.records, Stored patcher.plugin.source record)
    (different : (group.records.map (·.header.formId)).Nodup)
    (known : ∀ formId ∈ order, formId ∈ group.records.map (·.header.formId)) :
    patcher.writeOrdered group order =
      .ok ((pick (·.header.formId) order group.records).flatMap patcher.newBytes) := by
  induction order with
  | nil => rfl
  | cons formId order ih =>
    obtain ⟨record, among, rfl⟩ := List.mem_map.mp (known formId List.mem_cons_self)
    have hit := find_key (fun record : Record => record.header.formId) different among
    have rest := ih fun other found => known other (List.mem_cons_of_mem _ found)
    rw [pick_cons _ hit, writeOrdered, hit]
    simp only [writeRecord_eq (stored record among), rest, bind, Except.bind, pure, Except.pure,
      List.flatMap_cons]

/-- A walked group with an order is its header and its records in that order. -/
theorem writeChild_ordered {patcher : PluginPatcher} {touched : Finset Range} {head : GroupHead}
    {size : Nat} {range : Option Range} {children : List GroupChild} {order : List FormId}
    {written : Bytes} (walked : needsWalk touched ⟨head.header size, range⟩ = true)
    (own : patcher.orderOf ⟨head.header size, range⟩ = some order)
    (done : patcher.writeOrdered (Group.ofNode (⟨head.header size, range⟩, children)) order =
      .ok written) :
    patcher.writeChild touched (.node ⟨head.header size, range⟩ children) =
      .ok (head.encode (24 + written.length) ++ written) := by
  rw [writeChild, if_pos walked]
  simp only [own, done, writeGroupHeader_header, GROUP_HEADER_SIZE]

/-- A walked group without an order is its header and its children. -/
theorem writeChild_walked {patcher : PluginPatcher} {touched : Finset Range} {head : GroupHead}
    {size : Nat} {range : Option Range} {children : List GroupChild} {written : Bytes}
    (walked : needsWalk touched ⟨head.header size, range⟩ = true)
    (own : patcher.orderOf ⟨head.header size, range⟩ = none)
    (done : patcher.writeChildren touched children = .ok written) :
    patcher.writeChild touched (.node ⟨head.header size, range⟩ children) =
      .ok (head.encode (24 + written.length) ++ written) := by
  rw [writeChild, if_pos walked]
  simp only [own, done, writeGroupHeader_header, GROUP_HEADER_SIZE]

/-- A group that is not walked is its source bytes. -/
theorem writeChild_copied {patcher : PluginPatcher} {touched : Finset Range} {info : GroupInfo}
    {children : List GroupChild} {bytes : Bytes} (copied : needsWalk touched info = false)
    (found : (Group.ofNode (info, children)).sourceBytes patcher.plugin.source = some bytes) :
    patcher.writeChild touched (.node info children) = .ok bytes := by
  rw [writeChild, if_neg (by simp [copied])]
  simp only [found]

/-- Children that are written one by one are written together. -/
theorem writeChildren_eq {patcher : PluginPatcher} {touched : Finset Range}
    {children : List GroupChild} {parts : List Bytes}
    (each : List.Forall₂ (fun child part => patcher.writeChild touched child = .ok part)
      children parts) : patcher.writeChildren touched children = .ok parts.flatten := by
  induction each with
  | nil => rfl
  | cons head _ ih =>
    rw [writeChildren, head, ih]
    rfl

/-- Without marks and replacements the source bytes are copied. -/
theorem writeChildren_unmarked {patcher : PluginPatcher}
    (plain : ∀ formId, patcher.patches.lookup formId = none) {nodes : List Node}
    {trees : List GroupChild} (stands : List.Forall₂ (StandsAt patcher.plugin.source) nodes trees) :
    patcher.writeChildren ∅ trees = .ok (encodeAll nodes) := by
  induction stands with
  | nil => rfl
  | @cons node tree nodes trees head _ ih =>
    have copied : patcher.writeChild ∅ tree = .ok (encode node) := by
      cases node with
      | leaf raw =>
        obtain ⟨start, rfl, found⟩ := standsAt_leaf head
        rw [writeChild, writeRecord_eq ⟨raw, rfl, found⟩, newBytes, plain, bytesOf, found,
          encode_leaf, Option.getD_some]
      | node head children =>
        obtain ⟨range, trees, rfl, whole, _, _⟩ := standsAt_node head
        exact writeChild_copied (by simp [needsWalk]) whole
    rw [writeChildren, copied, ih]
    rfl

/-- What a patcher without replacements makes of a tree. -/
structure Emits (patcher : PluginPatcher) (touched : Finset Range) (node : Node)
    (tree : GroupChild) (emitted : Bytes) : Prop where
  /-- Writing succeeds. -/
  written : patcher.writeChild touched tree = .ok emitted
  /-- The length does not change. -/
  length : emitted.length = (encode node).length
  /-- The tree is reordered exactly when it is covered. -/
  reordered : Reordered patcher.plugin.source patcher.orderOf tree emitted ↔
    Covered patcher.orderOf touched tree

/-- What a patcher without replacements makes of siblings. -/
theorem emits_all {patcher : PluginPatcher} {touched : Finset Range} {nodes : List Node}
    {trees : List GroupChild}
    (each : List.Forall₂ (fun node tree => ∃ emitted, patcher.Emits touched node tree emitted)
      nodes trees) :
    ∃ parts : List Bytes, patcher.writeChildren touched trees = .ok parts.flatten ∧
      parts.map List.length = nodes.map (fun node => (encode node).length) ∧
      (List.Forall₂ (Reordered patcher.plugin.source patcher.orderOf) trees parts ↔
        CoveredAll patcher.orderOf touched trees) := by
  induction each with
  | nil => exact ⟨[], rfl, rfl, by simp [CoveredAll]⟩
  | cons head _ ih =>
    obtain ⟨emitted, written, length, reordered⟩ := head
    obtain ⟨parts, writtenAll, lengths, reorderedAll⟩ := ih
    refine ⟨emitted :: parts, ?_, by simp [length, lengths], ?_⟩
    · rw [writeChildren, written, writtenAll]
      rfl
    · rw [List.forall₂_cons, reordered, reorderedAll, CoveredAll]

/-- Every standing tree is emitted; a walked group without an order of its own is reordered
exactly when its children are. -/
theorem exists_emits {patcher : PluginPatcher} {touched : Finset Range}
    (plain : ∀ formId, patcher.patches.lookup formId = none) (node : Node) (fit : Fits node)
    {tree : GroupChild} (stands : StandsAt patcher.plugin.source node tree)
    (valid : ValidOrders patcher.orderOf tree)
    (walks : ∀ group ∈ tree.nodes, needsWalk touched group.1 = true →
      HasReordered patcher.orderOf (.node group.1 group.2)) :
    ∃ emitted, patcher.Emits touched node tree emitted := by
  have unpatched (record : Record) : patcher.newBytes record =
      bytesOf patcher.plugin.source record := by rw [newBytes, plain]
  induction node using RoseTree.ind generalizing tree with
  | leaf raw =>
    obtain ⟨start, rfl, found⟩ := standsAt_leaf stands
    refine ⟨raw.encode, ?_, by simp, iff_of_true (.record found) (by simp [Covered])⟩
    rw [writeChild, writeRecord_eq ⟨raw, rfl, found⟩, unpatched, bytesOf, found, Option.getD_some]
  | node head children ih =>
    obtain ⟨expected, only, length, keeps⟩ := exists_reorderedTo _ fit stands valid
    obtain ⟨small, fits⟩ := (fits_node head children).mp fit
    obtain ⟨range, trees, rfl, whole, front, below⟩ := standsAt_node stands
    cases walk : needsWalk touched
        ⟨head.header (24 + (encodeAll children).length), some range⟩ with
    | false =>
      refine ⟨_, writeChild_copied walk whole, rfl, ?_⟩
      rw [Covered, if_neg (by simp [walk]), only, ← keeps]
      exact eq_comm
    | true =>
      cases own : patcher.orderOf ⟨head.header (24 + (encodeAll children).length), some range⟩ with
      | some order =>
        have ordered := OrderedGroup.of_valid below valid own
        have written := writeOrdered_eq ordered.stored ordered.different ordered.known
        rw [funext unpatched, List.flatMap_def] at written
        have done := writeChild_ordered walk own written
        rw [ordered.length] at done
        refine ⟨_, done, by simp [ordered.length], iff_of_true ?_ ?_⟩
        · refine .reordered own rfl front
            ((orderedParts_iff ordered.stored ordered.different ordered.known _).mpr rfl) ?_
          rw [ordered.length]
          exact (resized_iff _ _ _ _).mpr ⟨small, rfl⟩
        · rw [Covered, if_pos walk, coveredAll_iff]
          intro child among
          rw [show trees = _ from ordered.leaves] at among
          obtain ⟨record, _, rfl⟩ := List.mem_map.mp among
          rw [Covered]
          trivial
      | none =>
        have around : ∃ child ∈ trees, HasReordered patcher.orderOf child := by
          have marked := walks (_, trees) (by simp) walk
          rw [hasReordered_node, own] at marked
          simpa using marked
        have inner : ∀ tree ∈ trees, ∀ group ∈ tree.nodes, needsWalk touched group.1 = true →
            HasReordered patcher.orderOf (.node group.1 group.2) := by
          intro tree among group found
          refine walks group ?_
          rw [RoseTree.nodes_node]
          exact List.mem_cons_of_mem _ (List.mem_flatMap.mpr ⟨tree, among, found⟩)
        obtain ⟨parts, written, lengths, covered⟩ := emits_all (forall₂_imp_mem below
          fun child inside tree among stands => ih child inside (fits child inside) stands
            (valid.child among) (inner tree among))
        have size : parts.flatten.length = (encodeAll children).length := by
          rw [List.length_flatten, lengths, encodeAll, List.length_flatMap]
        have done := writeChild_walked walk own written
        rw [size] at done
        refine ⟨_, done, by simp [size], ?_⟩
        rw [Covered, if_pos walk, ← covered]
        constructor
        · intro reordered
          rcases reordered_node_cases reordered with ⟨absent, _⟩ |
              ⟨_, _, header, parts', placed, front', resized, same, other | ⟨_, _, each⟩⟩
          · exact absurd ((hasReordered_node ..).mpr (.inr around)) absent
          · obtain ⟨order, registered, _⟩ := other
            exact absurd (own.symm.trans registered) (by simp)
          · have flat := (List.append_inj same (by rw [resized.length, head.length_encode])).2
            have lengths' := lengths_of_reordered fits below (fun _ among => valid.child among) each
            rwa [eq_of_flatten_eq (lengths.trans lengths'.symm) flat]
        · intro each
          refine .ancestor own around rfl front each ?_
          rw [size]
          exact (resized_iff _ _ _ _).mpr ⟨small, rfl⟩

end PluginPatcher

end Bethkit
