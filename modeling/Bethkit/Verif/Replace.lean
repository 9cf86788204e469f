import Bethkit.Verif.ReorderRun

/-!
# Replaced records

Without reorderings a patcher writes the plain rewrite of the source tree: the groups it copies
are what emitting them again would give. The size of a group is stored in 32 bits, and the
rewrite is the one described exactly when every emitted size fits.
-/

namespace Bethkit

open Lib Layout

/-- The replacement bytes that a patcher has for a FormID. -/
def PluginPatcher.replacement (patcher : PluginPatcher) (formId : FormId) : Option Bytes :=
  (patcher.patches.lookup formId).map RecordPatch.writeTo

/-- The size of a tree after replacements. -/
def emittedSize (replacement : FormId → Option Bytes) : GroupChild → Nat :=
  RoseTree.fold
    (fun record => ((replacement record.header.formId).map List.length).getD
      (24 + record.header.dataSize.toNat))
    fun _ parts => 24 + parts.sum

/-- The size of a record after replacements. -/
@[simp]
theorem emittedSize_leaf (replacement : FormId → Option Bytes) (record : Record) :
    emittedSize replacement (.leaf record) =
      ((replacement record.header.formId).map List.length).getD
        (24 + record.header.dataSize.toNat) := by simp [emittedSize]

/-- The size of a group after replacements. -/
@[simp]
theorem emittedSize_node (replacement : FormId → Option Bytes) (info : GroupInfo)
    (children : List GroupChild) : emittedSize replacement (.node info children) =
      24 + (children.map (emittedSize replacement)).sum := by simp [emittedSize]

/-- Every group size fits 32 bits after replacements. -/
def EmittedFits (replacement : FormId → Option Bytes) (tree : GroupChild) : Prop :=
  ∀ group ∈ tree.nodes, 24 + (group.2.map (emittedSize replacement)).sum < 2 ^ 32

/-- A group fits when its size does and its children fit. -/
theorem emittedFits_node (replacement : FormId → Option Bytes) (info : GroupInfo)
    (children : List GroupChild) : EmittedFits replacement (.node info children) ↔
      24 + (children.map (emittedSize replacement)).sum < 2 ^ 32 ∧
        ∀ child ∈ children, EmittedFits replacement child := by
  simp only [EmittedFits, RoseTree.nodes_node, List.mem_cons, List.mem_flatMap, forall_eq_or_imp]
  refine and_congr_right fun _ => ⟨?_, ?_⟩
  · intro all child among group found
    exact all group ⟨child, among, found⟩
  · rintro all group ⟨child, among, found⟩
    exact all child among group found

/-- A record of the tree has a replacement. -/
def HasPatched (patches : RecordPatches) (tree : GroupChild) : Prop :=
  ∃ record ∈ tree.leaves, (patches.lookup record.header.formId).isSome

/-- A group has replaced records when a child has. -/
theorem hasPatched_node (patches : RecordPatches) (info : GroupInfo)
    (children : List GroupChild) : HasPatched patches (.node info children) ↔
      ∃ child ∈ children, HasPatched patches child := by
  simp only [HasPatched, RoseTree.leaves_node, List.mem_flatMap]
  constructor
  · rintro ⟨record, ⟨child, among, found⟩, given⟩
    exact ⟨child, among, record, found, given⟩
  · rintro ⟨child, among, record, found, given⟩
    exact ⟨record, ⟨child, among, found⟩, given⟩

/-- More marks make more groups walked. -/
theorem needsWalk_mono {fewer more : Finset Range} (inside : fewer ⊆ more) {info : GroupInfo}
    (walked : PluginPatcher.needsWalk fewer info = true) :
    PluginPatcher.needsWalk more info = true := by
  unfold PluginPatcher.needsWalk at walked ⊢
  cases placed : info.sourceRange with
  | none => rfl
  | some range =>
    simp only [placed, decide_eq_true_eq] at walked ⊢
    exact inside walked

/-- Marking adds marks. -/
theorem subset_markRange (info : GroupInfo) (touched : Finset Range) :
    touched ⊆ markRange info touched := by
  unfold markRange
  split
  · exact Finset.subset_insert _ _
  · exact Finset.Subset.refl _

/-- A marked group is walked. -/
theorem needsWalk_markRange (info : GroupInfo) (touched : Finset Range) :
    PluginPatcher.needsWalk (markRange info touched) info = true := by
  unfold PluginPatcher.needsWalk markRange
  cases info.sourceRange with
  | none => rfl
  | some range => simp

mutual

/-- The pass for replacements reports whether the tree has some, keeps old marks and marks every
group with a replaced record. -/
theorem markTouched_spec (patches : RecordPatches) (tree : GroupChild) (touched : Finset Range) :
    ((markTouched patches tree touched).1 = true ↔ HasPatched patches tree) ∧
      touched ⊆ (markTouched patches tree touched).2 ∧
      ∀ group ∈ tree.nodes, HasPatched patches (.node group.1 group.2) →
        PluginPatcher.needsWalk (markTouched patches tree touched).2 group.1 = true := by
  cases tree with
  | leaf record => simp [markTouched, HasPatched]
  | node info children =>
    obtain ⟨reports, keeps, marks⟩ := markTouchedAll_spec patches children touched
    rw [hasPatched_node, ← reports, markTouched]
    dsimp only
    have more : (markTouchedAll patches children touched).2 ⊆
        if (markTouchedAll patches children touched).1 then
          markRange info (markTouchedAll patches children touched).2
        else (markTouchedAll patches children touched).2 := by
      split
      · exact subset_markRange _ _
      · exact Finset.Subset.refl _
    refine ⟨Iff.rfl, keeps.trans more, fun group found patched => ?_⟩
    rw [RoseTree.nodes_node] at found
    rcases List.mem_cons.mp found with rfl | below
    · rw [if_pos (reports.mpr ((hasPatched_node ..).mp patched))]
      exact needsWalk_markRange _ _
    · obtain ⟨child, among, inside⟩ := List.mem_flatMap.mp below
      exact needsWalk_mono more (marks child among group inside patched)

/-- The same for children, all of which are visited. -/
theorem markTouchedAll_spec (patches : RecordPatches) (children : List GroupChild)
    (touched : Finset Range) :
    ((markTouchedAll patches children touched).1 = true ↔
        ∃ child ∈ children, HasPatched patches child) ∧
      touched ⊆ (markTouchedAll patches children touched).2 ∧
      ∀ child ∈ children, ∀ group ∈ child.nodes, HasPatched patches (.node group.1 group.2) →
        PluginPatcher.needsWalk (markTouchedAll patches children touched).2 group.1 = true := by
  cases children with
  | nil => simp [markTouchedAll]
  | cons child children =>
    obtain ⟨reports, keeps, marks⟩ := markTouched_spec patches child touched
    obtain ⟨reportsAll, keepsAll, marksAll⟩ :=
      markTouchedAll_spec patches children (markTouched patches child touched).2
    rw [List.exists_mem_cons_iff, ← reports, ← reportsAll, markTouchedAll, ← Bool.or_eq_true]
    refine ⟨Iff.rfl, keeps.trans keepsAll, fun other among group found patched => ?_⟩
    rcases List.mem_cons.mp among with rfl | later
    · exact needsWalk_mono keepsAll (marks group found patched)
    · exact marksAll other later group found patched

end

/-- The pass for reorderings keeps old marks. -/
theorem subset_markReordered (groupOrders : GroupOrders) (tree : GroupChild)
    (touched : Finset Range) : touched ⊆ (markReordered groupOrders tree touched).2 :=
  fun range => (mem_markReordered groupOrders tree touched range).1

/-- Both passes over the top-level groups keep old marks. -/
theorem subset_foldl_marks (patches : RecordPatches) (groupOrders : GroupOrders)
    (groups : List Group) (touched : Finset Range) :
    touched ⊆ groups.foldl (fun touched group =>
      (markReordered groupOrders group.toChild (markTouched patches group.toChild touched).2).2)
        touched := by
  induction groups generalizing touched with
  | nil => exact Finset.Subset.refl _
  | cons top groups ih =>
    obtain ⟨_, keeps, _⟩ := markTouched_spec patches top.toChild touched
    exact (keeps.trans (subset_markReordered groupOrders top.toChild _)).trans (ih _)

/-- Every group with a replaced record is walked. -/
theorem needsWalk_touchedGroups (patcher : PluginPatcher) :
    ∀ tree ∈ patcher.plugin.groups.map Group.toChild, ∀ group ∈ tree.nodes,
      HasPatched patcher.patches (.node group.1 group.2) →
        PluginPatcher.needsWalk patcher.touchedGroups group.1 = true := by
  unfold PluginPatcher.touchedGroups
  generalize (∅ : Finset Range) = touched
  induction patcher.plugin.groups generalizing touched with
  | nil => simp
  | cons top groups ih =>
    obtain ⟨_, _, marks⟩ := markTouched_spec patcher.patches top.toChild touched
    rw [List.map_cons, List.foldl_cons]
    intro tree among group found patched
    rcases List.mem_cons.mp among with rfl | later
    · exact needsWalk_mono ((subset_markReordered ..).trans (subset_foldl_marks ..))
        (marks group found patched)
    · exact ih _ tree later group found patched

/-- What a patcher without reorderings makes of a tree. -/
structure Rewrites (patcher : PluginPatcher) (touched : Finset Range) (tree : GroupChild)
    (emitted : Bytes) : Prop where
  /-- Writing succeeds. -/
  written : patcher.writeChild touched tree = .ok emitted
  /-- The size depends on the replacements only. -/
  length : emitted.length = emittedSize patcher.replacement tree
  /-- A described rewrite is what is written. -/
  only : ∀ bytes, Replaced patcher.plugin.source patcher.replacement tree bytes → bytes = emitted
  /-- It is the described rewrite when all sizes fit. -/
  replaced : Replaced patcher.plugin.source patcher.replacement tree emitted ↔
    EmittedFits patcher.replacement tree

/-- What a patcher without reorderings makes of siblings. -/
theorem rewrites_all {patcher : PluginPatcher} {touched : Finset Range} {trees : List GroupChild}
    (each : ∀ tree ∈ trees, ∃ emitted, Rewrites patcher touched tree emitted) :
    ∃ parts : List Bytes, patcher.writeChildren touched trees = .ok parts.flatten ∧
      parts.flatten.length = (trees.map (emittedSize patcher.replacement)).sum ∧
      (∀ parts', List.Forall₂ (Replaced patcher.plugin.source patcher.replacement) trees parts' →
        parts' = parts) ∧
      (List.Forall₂ (Replaced patcher.plugin.source patcher.replacement) trees parts ↔
        ∀ tree ∈ trees, EmittedFits patcher.replacement tree) := by
  induction trees with
  | nil => exact ⟨[], rfl, rfl, by simp, by simp⟩
  | cons tree trees ih =>
    obtain ⟨emitted, written, length, only, replaced⟩ := each tree List.mem_cons_self
    obtain ⟨parts, writtenAll, lengths, onlyAll, replacedAll⟩ :=
      ih fun other among => each other (List.mem_cons_of_mem _ among)
    refine ⟨emitted :: parts, ?_, ?_, ?_, ?_⟩
    · rw [PluginPatcher.writeChildren, written, writtenAll]
      rfl
    · rw [List.flatten_cons, List.length_append, length, lengths, List.map_cons, List.sum_cons]
    · intro parts' described
      obtain ⟨part, rest, head, tail, rfl⟩ := List.forall₂_cons_left_iff.mp described
      rw [only part head, onlyAll rest tail]
    · rw [List.forall₂_cons, replaced, replacedAll, List.forall_mem_cons]

/-- A described rewrite of a group has the resized header and described rewrites of the
children. -/
theorem replaced_node_iff {source : Bytes} {replacement : FormId → Option Bytes}
    {head : GroupHead} {size : Nat} {range : Range} {children : List GroupChild}
    (front : source.get range.start (range.start + 24) = some (head.encode size)) (bytes : Bytes) :
    Replaced source replacement (.node ⟨head.header size, some range⟩ children) bytes ↔
      ∃ parts, List.Forall₂ (Replaced source replacement) children parts ∧
        24 + parts.flatten.length < 2 ^ 32 ∧
        bytes = head.encode (24 + parts.flatten.length) ++ parts.flatten := by
  constructor
  · rintro (_ | _ | ⟨placed, found, emitted, resized⟩)
    obtain rfl := Option.some.inj placed
    obtain rfl := Option.some.inj (front.symm.trans found)
    obtain ⟨small, rfl⟩ := (resized_iff _ _ _ _).mp resized
    exact ⟨_, emitted, small, rfl⟩
  · rintro ⟨parts, emitted, small, rfl⟩
    exact .group rfl front emitted ((resized_iff _ _ _ _).mpr ⟨small, rfl⟩)

/-- A standing tree without replaced records is its own rewrite. -/
theorem replaced_unpatched {source : Bytes} {replacement : FormId → Option Bytes} (node : Node)
    (fit : Fits node) {tree : GroupChild} (stands : StandsAt source node tree)
    (unpatched : ∀ record ∈ tree.leaves, replacement record.header.formId = none) :
    (∀ bytes, Replaced source replacement tree bytes ↔ bytes = encode node) ∧
      emittedSize replacement tree = (encode node).length ∧ EmittedFits replacement tree := by
  induction node using RoseTree.ind generalizing tree with
  | leaf raw =>
    obtain ⟨start, rfl, found⟩ := standsAt_leaf stands
    have none := unpatched (raw.locate start) (by simp)
    have size : (raw.locate start).header.dataSize.toNat = raw.block.length := raw.toNat_dataSize
    refine ⟨fun bytes => ⟨?_, ?_⟩, by simp [none, size], by simp [EmittedFits]⟩
    · rintro (given | ⟨_, found'⟩)
      · rw [none] at given
        exact absurd given (by simp)
      · rw [encode_leaf]
        exact Option.some.inj (found'.symm.trans found)
    · rintro rfl
      exact .kept none (by rw [encode_leaf]; exact found)
  | node head children ih =>
    obtain ⟨small, fits⟩ := (fits_node head children).mp fit
    obtain ⟨range, trees, rfl, whole, front, below⟩ := standsAt_node stands
    have all : (∀ parts, List.Forall₂ (Replaced source replacement) trees parts ↔
        parts = children.map encode) ∧
        (trees.map (emittedSize replacement)).sum = (encodeAll children).length ∧
        ∀ tree ∈ trees, EmittedFits replacement tree := by
      clear whole front stands fit small
      induction below with
      | nil => simp
      | @cons node tree nodes trees stands below later =>
        obtain ⟨only, size, emittedFits⟩ := ih node List.mem_cons_self
          (fits node List.mem_cons_self) stands
          (fun record found => unpatched record (by simp [Or.inl found]))
        obtain ⟨onlyAll, sizes, emittedFitsAll⟩ := later
          (fun other among => ih other (List.mem_cons_of_mem _ among))
          (fun other among => fits other (List.mem_cons_of_mem _ among))
          (fun record found => unpatched record (by
            rw [RoseTree.leaves_node] at found
            simp [Or.inr (List.mem_flatMap.mp found)]))
        refine ⟨fun parts => ?_, ?_, ?_⟩
        · rw [List.forall₂_cons_left_iff]
          constructor
          · rintro ⟨part, rest, first, others, rfl⟩
            rw [(only part).mp first, (onlyAll rest).mp others, List.map_cons]
          · rintro rfl
            exact ⟨_, _, (only _).mpr rfl, (onlyAll _).mpr rfl, List.map_cons⟩
        · rw [List.map_cons, List.sum_cons, size, sizes, encodeAll_cons, List.length_append]
        · exact List.forall_mem_cons.mpr ⟨emittedFits, emittedFitsAll⟩
    obtain ⟨only, sizes, emittedFits⟩ := all
    refine ⟨fun bytes => ?_, by rw [emittedSize_node, sizes, encode_node]; simp,
      (emittedFits_node ..).mpr ⟨by rw [sizes]; exact small, emittedFits⟩⟩
    simp only [replaced_node_iff front, only, exists_eq_left, ← List.flatMap_def]
    rw [encode_node]
    exact and_iff_right small

/-- Every standing tree whose groups with replaced records are walked is rewritten. -/
theorem exists_rewrites {patcher : PluginPatcher} {touched : Finset Range}
    (unordered : ∀ range, patcher.groupOrders.lookup range = none) (node : Node) (fit : Fits node)
    {tree : GroupChild} (stands : StandsAt patcher.plugin.source node tree)
    (walks : ∀ group ∈ tree.nodes, HasPatched patcher.patches (.node group.1 group.2) →
      PluginPatcher.needsWalk touched group.1 = true) :
    ∃ emitted, Rewrites patcher touched tree emitted := by
  induction node using RoseTree.ind generalizing tree with
  | leaf raw =>
    obtain ⟨start, rfl, found⟩ := standsAt_leaf stands
    have size : (raw.locate start).header.dataSize.toNat = raw.block.length := raw.toNat_dataSize
    have trivially : EmittedFits patcher.replacement (.leaf (raw.locate start)) := by
      simp [EmittedFits]
    cases given : patcher.patches.lookup (raw.locate start).header.formId with
    | some patch =>
      have known : patcher.replacement (raw.locate start).header.formId = some patch.writeTo := by
        rw [PluginPatcher.replacement, given, Option.map_some]
      refine ⟨patch.writeTo, ?_, by simp [known], ?_, iff_of_true (.replaced known) trivially⟩
      · rw [PluginPatcher.writeChild, PluginPatcher.writeRecord, given]
      · rintro bytes (given' | ⟨absent, _⟩)
        · exact Option.some.inj (given'.symm.trans known)
        · exact absurd (known.symm.trans absent) (by simp)
    | none =>
      have unknown : patcher.replacement (raw.locate start).header.formId = none := by
        rw [PluginPatcher.replacement, given, Option.map_none]
      refine ⟨raw.encode, ?_, by simp [unknown, size], ?_,
        iff_of_true (.kept unknown found) trivially⟩
      · rw [PluginPatcher.writeChild, PluginPatcher.writeRecord, given]
        simp only [found]
      · rintro bytes (given' | ⟨_, found'⟩)
        · exact absurd (unknown.symm.trans given') (by simp)
        · exact Option.some.inj (found'.symm.trans found)
  | node head children ih =>
    obtain ⟨small, fits⟩ := (fits_node head children).mp fit
    have standing := stands
    obtain ⟨range, trees, rfl, whole, front, below⟩ := standsAt_node stands
    cases walk : PluginPatcher.needsWalk touched
        ⟨head.header (24 + (encodeAll children).length), some range⟩ with
    | true =>
      have own : patcher.orderOf ⟨head.header (24 + (encodeAll children).length), some range⟩ =
          none := unordered range
      have each : ∀ tree ∈ trees, ∃ emitted, Rewrites patcher touched tree emitted := by
        intro tree among
        obtain ⟨node, found, paired⟩ := exists_of_mem_right below among
        refine ih node found (fits node found) paired fun group inside => walks group ?_
        rw [RoseTree.nodes_node]
        exact List.mem_cons_of_mem _ (List.mem_flatMap.mpr ⟨tree, among, inside⟩)
      obtain ⟨parts, written, lengths, only, replaced⟩ := rewrites_all each
      have size := emittedSize_node patcher.replacement
        ⟨head.header (24 + (encodeAll children).length), some range⟩ trees
      refine ⟨_, PluginPatcher.writeChild_walked walk own written, ?_, ?_, ?_⟩
      · rw [List.length_append, GroupHead.length_encode, lengths, size]
      · intro bytes described
        obtain ⟨parts', each, _, rfl⟩ := (replaced_node_iff front bytes).mp described
        rw [only parts' each]
      · rw [replaced_node_iff front, emittedFits_node, ← replaced, ← lengths]
        constructor
        · rintro ⟨parts', each, fits', _⟩
          obtain rfl := only parts' each
          exact ⟨fits', each⟩
        · rintro ⟨fits', each⟩
          exact ⟨parts, each, fits', rfl⟩
    | false =>
      have unpatched : ∀ record ∈ (RoseTree.node
          ⟨head.header (24 + (encodeAll children).length), some range⟩ trees).leaves,
          patcher.replacement record.header.formId = none := by
        intro record found
        cases given : patcher.patches.lookup record.header.formId with
        | none => rw [PluginPatcher.replacement, given, Option.map_none]
        | some patch =>
          have walked := walks (_, trees) (by simp) ⟨record, found, by rw [given]; rfl⟩
          exact absurd (walk.symm.trans walked) (by simp)
      obtain ⟨only, size, emittedFits⟩ := replaced_unpatched _ fit standing unpatched
      exact ⟨_, PluginPatcher.writeChild_copied walk whole, size.symm, fun bytes => (only bytes).mp,
        iff_of_true ((only _).mpr rfl) emittedFits⟩

/-- The groups that a patcher without reorderings writes: no other bytes are the described rewrite,
and they are exactly when every size fits. -/
theorem exists_rewritten {inflate : Inflate} {data : Bytes} {ctx : GameContext} {plugin : Plugin}
    (accepted : Plugin.fromBytes inflate data ctx = .ok plugin) {patcher : PluginPatcher}
    (attached : patcher.plugin = plugin) (unordered : patcher.groupOrders = ∅) :
    ∃ parts : List Bytes,
      patcher.writeTo inflate = (patcher.writeHeader inflate >>= fun header =>
        .ok (header ++ parts.flatten)) ∧
      (∀ parts', List.Forall₂ (Replaced data patcher.replacement)
        (plugin.groups.map Group.toChild) parts' → parts' = parts) ∧
      (List.Forall₂ (Replaced data patcher.replacement) (plugin.groups.map Group.toChild) parts ↔
        ∀ group ∈ plugin.allGroups,
          24 + (group.2.map (emittedSize patcher.replacement)).sum < 2 ^ 32) := by
  obtain ⟨source, _, nodes, _, _, fits, stands, _⟩ := exists_standing accepted
  subst source
  subst attached
  have none : ∀ range, patcher.groupOrders.lookup range = none := by
    intro range
    rw [unordered]
    rfl
  have each : ∀ tree ∈ patcher.plugin.groups.map Group.toChild,
      ∃ emitted, Rewrites patcher patcher.touchedGroups tree emitted := by
    intro tree among
    obtain ⟨node, found, paired⟩ := exists_of_mem_right stands among
    exact exists_rewrites none node (fits node found) paired (needsWalk_touchedGroups patcher tree among)
  obtain ⟨parts, written, _, only, replaced⟩ := rewrites_all each
  refine ⟨parts, ?_, only, replaced.trans ?_⟩
  · rw [writeTo_eq accepted patcher rfl, written]
    rfl
  · rw [Plugin.allGroups_eq]
    constructor
    · intro all group found
      obtain ⟨tree, among, inside⟩ := List.mem_flatMap.mp found
      exact all tree among group inside
    · intro all tree among group inside
      exact all group (List.mem_flatMap.mpr ⟨tree, among, inside⟩)

/-- A patcher without reorderings writes its header part and the plain rewrite of the groups,
whenever the header part can be written, exactly when every emitted group size fits 32 bits. -/
theorem writeTo_replaced (inflate : Inflate) (data : Bytes) (ctx : GameContext) (plugin : Plugin)
    (accepted : Plugin.fromBytes inflate data ctx = .ok plugin) (patcher : PluginPatcher)
    (attached : patcher.plugin = plugin) (unordered : patcher.groupOrders = ∅) :
    ((∃ out, patcher.writeTo inflate = .ok out) ↔ ∃ header, patcher.writeHeader inflate = .ok header) ∧
      ∀ out, patcher.writeTo inflate = .ok out →
        ((∃ header parts, patcher.writeHeader inflate = .ok header ∧
            List.Forall₂ (Replaced data patcher.replacement) (plugin.groups.map Group.toChild) parts ∧
            out = header ++ parts.flatten) ↔
          ∀ group ∈ plugin.allGroups,
            24 + (group.2.map (emittedSize patcher.replacement)).sum < 2 ^ 32) := by
  obtain ⟨parts, whole, only, fits⟩ := exists_rewritten accepted attached unordered
  exact output_iff whole (fun parts' each _ => only parts' each) fits

/-- The groups of the sample file are a sample plugin. -/
theorem fits_sampleFile : File.Fits ⟨sampleHeader, sampleFile.groups⟩ := by
  simp [sampleFile, File.Fits, TopGroup.toNode, sampleRecord]

/-- The first record of the sample file is replaced. -/
def replacePatcher (bytes : Bytes) : PluginPatcher :=
  (PluginPatcher.new (samplePlugin sampleFile.groups)).replaceRecord ⟨1⟩ (.rawBytes bytes)

/-- The header of the sample can be written. -/
theorem exists_header_replacePatcher (bytes : Bytes) :
    ∃ header, (replacePatcher bytes).writeHeader refuseInflate = .ok header := by
  have small : (samplePlugin sampleFile.groups).treeSize < 2 ^ 32 := by
    rw [Plugin.treeSize, Plugin.records_eq]
    decide
  exact exists_header_samplePlugin fits_sampleFile small _ rfl rfl

/-- The groups of the sample. -/
theorem trees_sampleFile : (samplePlugin sampleFile.groups).groups.map Group.toChild =
    [.node ⟨(sampleHead 0 .normal).header 96, some ⟨42, 138⟩⟩
      [.leaf ((sampleRecord 1).locate 66),
        .node ⟨(sampleHead 1 .topicChildren).header 48, some ⟨90, 138⟩⟩
          [.leaf ((sampleRecord 2).locate 114)]]] := by
  have header : sampleHeader.encode.length = 42 := by decide
  rw [samplePlugin, File.locateGroups, TopGroup.toChild_locateAll, header]
  simp [sampleFile, TopGroup.toNode, locateAll, locate, sampleRecord]

/-- The groups of the sample fit with the replacement when its length does. -/
theorem fits_replacePatcher (bytes : Bytes) :
    (∀ group ∈ (samplePlugin sampleFile.groups).allGroups,
      24 + (group.2.map (emittedSize (replacePatcher bytes).replacement)).sum < 2 ^ 32) ↔
        bytes.length + 72 < 2 ^ 32 := by
  have first : (replacePatcher bytes).replacement ⟨1⟩ = some bytes := by
    simp only [PluginPatcher.replacement, replacePatcher, PluginPatcher.replaceRecord,
      AList.lookup_insert, Option.map_some, RecordPatch.writeTo]
  have second : (replacePatcher bytes).replacement ⟨2⟩ = none := by
    simp only [PluginPatcher.replacement, replacePatcher, PluginPatcher.replaceRecord,
      AList.lookup_insert_ne (show (⟨2⟩ : FormId) ≠ ⟨1⟩ by decide)]
    rfl
  have one : ((sampleRecord 1).locate 66).header.formId = ⟨1⟩ := rfl
  have two : ((sampleRecord 2).locate 114).header.formId = ⟨2⟩ := rfl
  have size : ((sampleRecord 2).locate 114).header.dataSize = 0 := rfl
  rw [Plugin.allGroups_eq, trees_sampleFile]
  simp [first, second, one, two, size]
  omega

/-- A short replacement in the sample. -/
theorem writeTo_replaced_replacePatcher : ∃ out header parts,
    (replacePatcher [1, 2, 3]).writeTo refuseInflate = .ok out ∧
      List.Forall₂ (Replaced (File.encode ⟨sampleHeader, sampleFile.groups⟩)
        (replacePatcher [1, 2, 3]).replacement)
        ((samplePlugin sampleFile.groups).groups.map Group.toChild) parts ∧
      out = header ++ parts.flatten := by
  obtain ⟨writes, replaced⟩ := writeTo_replaced refuseInflate _ .sse _
    (fromBytes_samplePlugin sampleFile.groups fits_sampleFile) (replacePatcher [1, 2, 3]) rfl rfl
  obtain ⟨out, wrote⟩ := writes.mpr (exists_header_replacePatcher _)
  obtain ⟨header, parts, _, each, whole⟩ :=
    (replaced out wrote).mpr ((fits_replacePatcher _).mpr (by decide))
  exact ⟨out, header, parts, wrote, each, whole⟩

/-- A replacement of `2^32` bytes in the sample makes the size of its group wrap. -/
theorem exists_size_wrapped : ∃ (plugin : Plugin) (patcher : PluginPatcher) (data out : Bytes),
    Plugin.fromBytes refuseInflate data .sse = .ok plugin ∧ patcher.plugin = plugin ∧
      patcher.groupOrders = ∅ ∧ patcher.writeTo refuseInflate = .ok out ∧
      ¬∃ header parts, patcher.writeHeader refuseInflate = .ok header ∧
        List.Forall₂ (Replaced data patcher.replacement) (plugin.groups.map Group.toChild) parts ∧
        out = header ++ parts.flatten := by
  have accepted := fromBytes_samplePlugin sampleFile.groups fits_sampleFile
  have long : (List.replicate (2 ^ 32) (0 : UInt8)).length = 2 ^ 32 := List.length_replicate
  generalize List.replicate (2 ^ 32) (0 : UInt8) = bytes at long
  obtain ⟨header, made⟩ := exists_header_replacePatcher bytes
  have attached : (replacePatcher bytes).plugin = samplePlugin sampleFile.groups := rfl
  obtain ⟨parts, whole, only, fits⟩ := exists_rewritten accepted attached rfl
  rw [made] at whole
  refine ⟨_, replacePatcher bytes, _, _, accepted, rfl, rfl, whole, ?_⟩
  rintro ⟨_, parts', _, each, _⟩
  obtain rfl := only parts' each
  have small := (fits_replacePatcher bytes).mp (fits.mp each)
  omega

end Bethkit
