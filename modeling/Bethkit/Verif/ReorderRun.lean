import Bethkit.Verif.HeaderPatch
import Bethkit.Verif.Marks

/-!
# Runs of a patcher that reorder groups

Every accepted order permutes the records of its group, and ranges identify groups, so the
orders registered after any sequence of calls are valid. The written file is the header part
and the reordered groups exactly when no order changes behind a first reordered sibling.
-/

namespace Bethkit

open Lib Layout

/-- The records of a group that holds nothing else. -/
@[simp]
theorem records_leaves (info : GroupInfo) (records : List Record) :
    (Group.ofNode (info, records.map .leaf)).records = records := by
  induction records with
  | nil => rfl
  | cons record records ih =>
    simp only [Group.ofNode, Group.records, List.map_cons, List.filterMap_cons] at ih ⊢
    rw [ih]

/-- The FormIDs of a group are collected exactly when it holds records with different FormIDs. -/
theorem expectedIds_eq_ok (children : List GroupChild) (seen found : Finset FormId) :
    expectedIds children seen = .ok found ↔ ∃ records : List Record,
      children = records.map .leaf ∧ (records.map (·.header.formId)).Nodup ∧
      (∀ formId ∈ records.map (·.header.formId), formId ∉ seen) ∧
      found = seen ∪ (records.map (·.header.formId)).toFinset := by
  induction children generalizing seen with
  | nil =>
    simp only [expectedIds, Except.ok.injEq, List.nil_eq, List.map_eq_nil_iff, exists_eq_left]
    simp [eq_comm]
  | cons child children ih =>
    cases child with
    | node info below =>
      simp only [expectedIds, reduceCtorEq, false_iff, not_exists, not_and]
      intro records same
      cases records <;> simp at same
    | leaf record =>
      rw [expectedIds]
      constructor
      · intro collected
        split at collected
        · exact absurd collected (by simp)
        · rename_i new
          obtain ⟨records, rfl, different, apart, rfl⟩ := (ih _).mp collected
          refine ⟨record :: records, rfl, List.nodup_cons.mpr ⟨fun again => ?_, different⟩, ?_, ?_⟩
          · exact apart _ again (Finset.mem_insert_self _ _)
          · rw [List.map_cons, List.forall_mem_cons]
            exact ⟨new, fun formId among old => apart formId among (Finset.mem_insert_of_mem old)⟩
          · rw [List.map_cons, List.toFinset_cons, Finset.insert_union, Finset.union_insert]
      · rintro ⟨records, same, different, apart, rfl⟩
        cases records with
        | nil => simp at same
        | cons other records =>
          simp only [List.map_cons, List.cons.injEq, RoseTree.leaf.injEq] at same
          obtain ⟨rfl, rfl⟩ := same
          rw [List.map_cons, List.nodup_cons] at different
          rw [List.map_cons, List.forall_mem_cons] at apart
          rw [if_neg apart.1]
          refine (ih _).mpr ⟨records, rfl, different.2, fun formId among => ?_, ?_⟩
          · rw [Finset.mem_insert, not_or]
            exact ⟨fun same => different.1 (same ▸ among), apart.2 formId among⟩
          · rw [List.map_cons, List.toFinset_cons, Finset.insert_union, Finset.union_insert]

/-- An order is accepted exactly when its FormIDs are different and expected. -/
theorem suppliedIds_eq_ok (expected : Finset FormId) (formIds : List FormId)
    (seen found : Finset FormId) :
    suppliedIds expected formIds seen = .ok found ↔ formIds.Nodup ∧
      (∀ formId ∈ formIds, formId ∉ seen ∧ formId ∈ expected) ∧ found = seen ∪ formIds.toFinset := by
  induction formIds generalizing seen with
  | nil =>
    simp [suppliedIds, eq_comm]
  | cons formId formIds ih =>
    rw [suppliedIds]
    by_cases again : formId ∈ seen
    · simp [again]
    · by_cases unknown : formId ∉ expected
      · simp [again, unknown]
      · rw [if_neg again, if_neg unknown, ih]
        rw [not_not] at unknown
        have joined : insert formId seen ∪ formIds.toFinset = seen ∪ (formId :: formIds).toFinset := by
          rw [List.toFinset_cons, Finset.insert_union, Finset.union_insert]
        rw [List.nodup_cons, List.forall_mem_cons, joined]
        constructor
        · rintro ⟨different, each, rfl⟩
          refine ⟨⟨fun later => ?_, different⟩, ⟨⟨again, unknown⟩, fun other among => ?_⟩, rfl⟩
          · exact (each formId later).1 (Finset.mem_insert_self _ _)
          · exact ⟨fun old => (each other among).1 (Finset.mem_insert_of_mem old), (each other among).2⟩
        · rintro ⟨⟨apart, different⟩, ⟨_, each⟩, rfl⟩
          refine ⟨different, fun other among => ⟨?_, (each other among).2⟩, rfl⟩
          rw [Finset.mem_insert, not_or]
          exact ⟨fun same => apart (same ▸ among), (each other among).1⟩

/-- A reordering is accepted exactly when the group stands in a source, holds nothing but records
with different FormIDs, and the order permutes them. -/
theorem reorderGroupRecords_eq_ok (patcher next : PluginPatcher) (group : Group)
    (formIds : List FormId) : patcher.reorderGroupRecords group formIds = .ok next ↔
      ∃ (range : Range) (records : List Record), group.sourceRange = some range ∧
        group.children = records.map .leaf ∧ (records.map (·.header.formId)).Nodup ∧
        formIds.Perm (records.map (·.header.formId)) ∧
        next = { patcher with groupOrders := patcher.groupOrders.insert range formIds } := by
  unfold PluginPatcher.reorderGroupRecords
  cases group.sourceRange with
  | none => simp
  | some range =>
    constructor
    · intro done
      cases collected : expectedIds group.children ∅ with
      | error reason => simp [collected, bind, Except.bind] at done
      | ok expected =>
        obtain ⟨records, leaves, different, _, whole⟩ := (expectedIds_eq_ok _ _ _).mp collected
        rw [Finset.empty_union] at whole
        subst whole
        cases listed : suppliedIds (records.map (·.header.formId)).toFinset formIds ∅ with
        | error reason => simp [collected, listed, bind, Except.bind] at done
        | ok supplied =>
          obtain ⟨once, known, whole⟩ := (suppliedIds_eq_ok _ _ _ _).mp listed
          rw [Finset.empty_union] at whole
          subst whole
          simp only [collected, listed, bind, Except.bind] at done
          by_cases count : formIds.toFinset.card = (records.map (·.header.formId)).toFinset.card
          · rw [if_neg (not_not.mpr count)] at done
            have inside : formIds.toFinset ⊆ (records.map (·.header.formId)).toFinset := by
              intro formId among
              exact (known formId (List.mem_toFinset.mp among)).2
            have same := Finset.eq_of_subset_of_card_le inside (Nat.le_of_eq count.symm)
            exact ⟨range, records, rfl, leaves, different,
              List.perm_of_nodup_nodup_toFinset_eq once different same, (Except.ok.inj done).symm⟩
          · rw [if_pos count] at done
            exact absurd done (by simp)
    · rintro ⟨range', records, placed, leaves, different, shuffled, rfl⟩
      obtain rfl := Option.some.inj placed
      have collected := (expectedIds_eq_ok group.children ∅ _).mpr
        ⟨records, leaves, different, by simp, rfl⟩
      have listed := (suppliedIds_eq_ok (records.map (·.header.formId)).toFinset formIds ∅
        _).mpr ⟨shuffled.nodup_iff.mpr different, fun formId among =>
          ⟨by simp, List.mem_toFinset.mpr (shuffled.mem_iff.mp among)⟩, rfl⟩
      rw [Finset.empty_union] at collected listed
      have count := congrArg Finset.card (List.toFinset_eq_of_perm _ _ shuffled)
      simp only [collected, listed, bind, Except.bind]
      rw [if_neg (not_not.mpr count)]

/-- Every registered order permutes the records of a group of the plugin, which holds nothing
else. -/
structure Registered (plugin : Plugin) (patcher : PluginPatcher) : Prop where
  /-- The patcher edits the plugin. -/
  attached : patcher.plugin = plugin
  /-- The orders are valid. -/
  orders : ∀ range order, patcher.groupOrders.lookup range = some order →
    ∃ group ∈ plugin.allGroups, group.1.sourceRange = some range ∧
      group.2 = (Group.ofNode group).records.map .leaf ∧ (directIds group).Nodup ∧
      order.Perm (directIds group)

namespace Registered

/-- Without edits no order is registered. -/
theorem new (plugin : Plugin) : Registered plugin (.new plugin) :=
  ⟨rfl, fun _ _ found => by simp [PluginPatcher.new] at found⟩

/-- One more accepted order is valid. -/
theorem reorder {plugin : Plugin} {patcher next : PluginPatcher} (valid : Registered plugin patcher)
    {group : GroupInfo × List GroupChild} (among : group ∈ plugin.allGroups) {formIds : List FormId}
    (done : patcher.reorderGroupRecords (Group.ofNode group) formIds = .ok next) :
    Registered plugin next ∧ next.patches = patcher.patches := by
  obtain ⟨own, records, placed, leaves, different, shuffled, rfl⟩ :=
    (reorderGroupRecords_eq_ok _ _ _ _).mp done
  refine ⟨⟨valid.attached, fun range order found => ?_⟩, rfl⟩
  by_cases same : range = own
  · subst same
    rw [AList.lookup_insert] at found
    obtain rfl := Option.some.inj found
    obtain ⟨info, children⟩ := group
    obtain rfl : children = records.map .leaf := leaves
    refine ⟨_, among, placed, ?_, ?_, ?_⟩
    · rw [records_leaves]
    · rwa [directIds, records_leaves]
    · rwa [directIds, records_leaves]
  · rw [AList.lookup_insert_ne same] at found
    exact valid.orders range order found

/-- Registered orders are valid in every top-level tree. -/
theorem validOrders {plugin : Plugin} {patcher : PluginPatcher}
    (valid : Registered plugin patcher)
    (different : ((plugin.groups.map Group.toChild).flatMap treeRanges).Nodup) :
    ∀ tree ∈ plugin.groups.map Group.toChild, ValidOrders patcher.orderOf tree := by
  obtain ⟨rfl, orders⟩ := valid
  intro tree among group found order registered
  have inside : group ∈ patcher.plugin.allGroups := by
    rw [Plugin.allGroups_eq]
    exact List.mem_flatMap.mpr ⟨tree, among, found⟩
  cases placed : group.1.sourceRange with
  | none => simp [PluginPatcher.orderOf, placed] at registered
  | some range =>
    simp only [PluginPatcher.orderOf, placed, Option.bind_some] at registered
    obtain ⟨other, inside', placed', valid⟩ := orders range order registered
    have ranges : (patcher.plugin.allGroups.map fun group => group.1.sourceRange).Nodup := by
      rw [Plugin.allGroups_eq, List.map_flatMap]
      exact different
    obtain rfl := List.inj_on_of_nodup_map ranges inside inside' (placed.trans placed'.symm)
    exact valid

end Registered

/-- The patchers that reorder groups of a plugin and nothing else, by any sequence of calls that
all succeed, with or without a header patch. -/
inductive ReorderRun (plugin : Plugin) : PluginPatcher → Prop
  /-- No edit yet. -/
  | new : ReorderRun plugin (.new plugin)
  /-- A header patch. -/
  | header {patcher : PluginPatcher} (run : ReorderRun plugin patcher)
      (patch : PluginHeaderPatch) : ReorderRun plugin (patcher.patchHeader patch)
  /-- One more group of the plugin is reordered. -/
  | reorder {patcher next : PluginPatcher} (run : ReorderRun plugin patcher)
      {group : GroupInfo × List GroupChild} (among : group ∈ plugin.allGroups)
      {formIds : List FormId}
      (done : patcher.reorderGroupRecords (Group.ofNode group) formIds = .ok next) :
      ReorderRun plugin next

/-- After a run every registered order is valid, and nothing is replaced. -/
theorem ReorderRun.registered {plugin : Plugin} {patcher : PluginPatcher}
    (run : ReorderRun plugin patcher) :
    Registered plugin patcher ∧ ∀ formId, patcher.patches.lookup formId = none := by
  induction run with
  | new => exact ⟨.new plugin, fun _ => rfl⟩
  | header _ _ ih => exact ⟨⟨ih.1.attached, ih.1.orders⟩, ih.2⟩
  | reorder _ among done ih =>
    obtain ⟨valid, plain⟩ := ih
    obtain ⟨next, same⟩ := valid.reorder among done
    exact ⟨next, fun formId => by rw [same, plain]⟩

/-- A map without keys holds nothing. -/
theorem lookup_of_keys_nil {κ : Type} [DecidableEq κ] {β : Type} {map : AList fun _ : κ => β}
    (empty : map.keys = []) (key : κ) : map.lookup key = none := by
  rw [AList.lookup_eq_none, AList.mem_keys, empty]
  exact List.not_mem_nil

/-- Without edits nothing is marked. -/
theorem touchedGroups_none {patcher : PluginPatcher}
    (plain : ∀ formId, patcher.patches.lookup formId = none)
    (unordered : ∀ range, patcher.groupOrders.lookup range = none) : patcher.touchedGroups = ∅ := by
  unfold PluginPatcher.touchedGroups
  induction patcher.plugin.groups with
  | nil => rfl
  | cons group groups ih =>
    rw [List.foldl_cons, markTouched_none plain, markReordered_none unordered]
    exact ih

/-- Without replacements the marks are those of the reordered groups. -/
theorem touchedGroups_plain {patcher : PluginPatcher}
    (plain : ∀ formId, patcher.patches.lookup formId = none) : patcher.touchedGroups =
      (patcher.plugin.groups.map Group.toChild).foldl
        (fun touched tree => (markReordered patcher.groupOrders tree touched).2) ∅ := by
  rw [PluginPatcher.touchedGroups, List.foldl_map]
  simp only [markTouched_none plain]

/-- The bytes that a patcher writes are its header part and the groups; without edits this is the
source, which is copied. -/
theorem writeTo_eq {inflate : Inflate} {data : Bytes} {ctx : GameContext} {plugin : Plugin}
    (accepted : Plugin.fromBytes inflate data ctx = .ok plugin) (patcher : PluginPatcher)
    (attached : patcher.plugin = plugin) : patcher.writeTo inflate = (do
      let header ← patcher.writeHeader inflate
      let groups ← patcher.writeChildren patcher.touchedGroups
        (plugin.groups.map Group.toChild)
      pure (header ++ groups)) := by
  subst attached
  unfold PluginPatcher.writeTo
  split
  · rename_i untouched
    obtain ⟨patches, orders, header⟩ := untouched
    have plain := lookup_of_keys_nil patches
    have none := touchedGroups_none plain (lookup_of_keys_nil orders)
    obtain ⟨source, front, nodes, split, found, _, stands, _⟩ := exists_standing accepted
    subst source
    rw [none, PluginPatcher.writeHeader, none, found,
      if_neg (by simp [Option.isNone_iff_eq_none.mp header]),
      PluginPatcher.writeChildren_unmarked plain stands]
    simp only [bind, Except.bind, pure, Except.pure]
    rw [← split]
  · rfl

/-- The groups that a patcher without replacements writes: they are the reordered ones exactly when
nothing changes behind a first reordered sibling. -/
theorem ReorderRun.exists_parts {inflate : Inflate} {data : Bytes} {ctx : GameContext}
    {plugin : Plugin} (accepted : Plugin.fromBytes inflate data ctx = .ok plugin)
    {patcher : PluginPatcher} (run : ReorderRun plugin patcher) :
    ∃ parts : List Bytes,
      patcher.writeTo inflate = (patcher.writeHeader inflate >>= fun header =>
        .ok (header ++ parts.flatten)) ∧
      (∀ parts', List.Forall₂ (Reordered data patcher.orderOf) (plugin.groups.map Group.toChild)
        parts' → parts'.flatten = parts.flatten → parts' = parts) ∧
      (List.Forall₂ (Reordered data patcher.orderOf) (plugin.groups.map Group.toChild) parts ↔
        ∀ group ∈ plugin.allGroups, group.2.Pairwise fun earlier later =>
          HasReordered patcher.orderOf earlier → OrdersKeep patcher.orderOf later) := by
  obtain ⟨registered, plain⟩ := run.registered
  have attached := registered.attached
  obtain ⟨source, _, nodes, _, _, fits, stands, different⟩ := exists_standing accepted
  have valid := registered.validOrders different
  subst source
  subst attached
  have ranged : none ∉ (patcher.plugin.groups.map Group.toChild).flatMap treeRanges := by
    intro absent
    obtain ⟨tree, among, inside⟩ := List.mem_flatMap.mp absent
    obtain ⟨node, _, standing⟩ := exists_of_mem_right stands among
    exact ranged_of_standsAt node standing inside
  have covered := covered_foldl patcher.groupOrders (patcher.plugin.groups.map Group.toChild) ∅
    patcher.touchedGroups ranged different (by simp)
    fun range _ => by rw [touchedGroups_plain plain]
  obtain ⟨parts, written, lengths, reordered⟩ := PluginPatcher.emits_all (forall₂_imp_mem stands
    fun node inside tree among standing => PluginPatcher.exists_emits plain node (fits node inside)
      standing (valid tree among) (covered tree among).2)
  have condition : CoveredAll patcher.orderOf patcher.touchedGroups
      (patcher.plugin.groups.map Group.toChild) ↔
      ∀ group ∈ patcher.plugin.allGroups, group.2.Pairwise fun earlier later =>
        HasReordered patcher.orderOf earlier → OrdersKeep patcher.orderOf later := by
    rw [coveredAll_iff, Plugin.allGroups_eq]
    have each := forall₂_congr fun tree among => (covered tree among).1
    rw [show registeredOrder patcher.groupOrders = patcher.orderOf from rfl] at each
    rw [each]
    constructor
    · intro all group found
      obtain ⟨tree, among, inside⟩ := List.mem_flatMap.mp found
      exact all tree among group inside
    · intro all tree among group inside
      exact all group (List.mem_flatMap.mpr ⟨tree, among, inside⟩)
  refine ⟨parts, ?_, ?_, reordered.trans condition⟩
  · rw [writeTo_eq accepted patcher rfl, written]
    rfl
  · intro parts' each same
    exact eq_of_flatten_eq ((lengths_of_reordered fits stands valid each).trans lengths.symm) same

/-- An output of a header part and parts meets a description of the parts exactly when the parts
do, if no other described parts have the same bytes. -/
theorem output_iff {output headerPart : Except CoreError Bytes} {parts : List Bytes}
    {described : List Bytes → Prop} {condition : Prop}
    (whole : output = (headerPart >>= fun header => .ok (header ++ parts.flatten)))
    (unique : ∀ parts', described parts' → parts'.flatten = parts.flatten → parts' = parts)
    (meets : described parts ↔ condition) :
    ((∃ out, output = .ok out) ↔ ∃ header, headerPart = .ok header) ∧
      ∀ out, output = .ok out → ((∃ header parts', headerPart = .ok header ∧ described parts' ∧
        out = header ++ parts'.flatten) ↔ condition) := by
  cases headerPart with
  | error reason => simp [whole, bind, Except.bind]
  | ok header =>
    simp only [whole, bind, Except.bind, Except.ok.injEq, exists_eq', true_and]
    rintro _ rfl
    rw [← meets]
    constructor
    · rintro ⟨_, parts', rfl, each, same⟩
      rwa [← unique parts' each (List.append_cancel_left same).symm]
    · exact fun each => ⟨header, parts, rfl, each, rfl⟩

/-- A patcher that reordered groups writes its header part and the reordered groups, in every run
and whenever the header part can be written, exactly when nothing changes behind a first reordered
sibling: of the children of a group, every one after the first that contains reordered groups has
only orders that its groups already had. -/
theorem writeTo_reordered (inflate : Inflate) (data : Bytes) (ctx : GameContext) (plugin : Plugin)
    (accepted : Plugin.fromBytes inflate data ctx = .ok plugin) (patcher : PluginPatcher)
    (run : ReorderRun plugin patcher) :
    ((∃ out, patcher.writeTo inflate = .ok out) ↔ ∃ header, patcher.writeHeader inflate = .ok header) ∧
      ∀ out, patcher.writeTo inflate = .ok out →
        ((∃ header parts, patcher.writeHeader inflate = .ok header ∧
            List.Forall₂ (Reordered data patcher.orderOf) (plugin.groups.map Group.toChild) parts ∧
            out = header ++ parts.flatten) ↔
          ∀ group ∈ plugin.allGroups, group.2.Pairwise fun earlier later =>
            HasReordered patcher.orderOf earlier → OrdersKeep patcher.orderOf later) := by
  obtain ⟨parts, whole, unique, condition⟩ := run.exists_parts accepted
  exact output_iff whole unique condition

/-- The header part of a patcher of a sample plugin can be written. -/
theorem exists_header_samplePlugin {groups : List TopGroup} (fit : File.Fits ⟨sampleHeader, groups⟩)
    (small : (samplePlugin groups).treeSize < 2 ^ 32) (patcher : PluginPatcher)
    (attached : patcher.plugin = samplePlugin groups) (unpatched : patcher.headerPatch = none) :
    ∃ header, patcher.writeHeader refuseInflate = .ok header := by
  obtain ⟨_, counted⟩ := exists_headerCounters small none
  obtain ⟨source, header, _, _, found, _⟩ := exists_standing (fromBytes_samplePlugin groups fit)
  rw [PluginPatcher.writeHeader, attached, unpatched]
  split
  · exact writeUpdated_samplePlugin groups counted
  · rw [source, found]
    exact ⟨header, rfl⟩

/-- Two nested groups of two records each, inside one group. -/
def siblingGroups : List TopGroup :=
  [⟨sampleHead 0 .normal,
    [.node (sampleHead 1 .topicChildren)
        [.leaf (sampleRecord 1), .leaf (sampleRecord 2)],
      .node (sampleHead 2 .topicChildren)
        [.leaf (sampleRecord 3), .leaf (sampleRecord 4)]]⟩]

/-- The sibling groups fit their size fields. -/
theorem fits_siblingGroups : File.Fits ⟨sampleHeader, siblingGroups⟩ := by
  simp [siblingGroups, File.Fits, TopGroup.toNode, sampleRecord]

/-- The orders of the two nested groups. -/
def siblingOrders (second : List FormId) : GroupOrders :=
  AList.insert (⟨138, 210⟩ : Range) second (AList.insert (⟨66, 138⟩ : Range) [⟨2⟩, ⟨1⟩] ∅)

/-- The first nested group of the sample in reverse order, the second in a given one. -/
def siblingPatcher (second : List FormId) : PluginPatcher :=
  { PluginPatcher.new (samplePlugin siblingGroups) with groupOrders := siblingOrders second }

/-- The reorderings of the sample are accepted. -/
theorem reorderRun_siblingPatcher (second : List FormId) (shuffled : second.Perm [⟨3⟩, ⟨4⟩]) :
    ReorderRun (samplePlugin siblingGroups) (siblingPatcher second) := by
  have first : ReorderRun (samplePlugin siblingGroups)
      { PluginPatcher.new (samplePlugin siblingGroups) with
        groupOrders := AList.insert (⟨66, 138⟩ : Range) [⟨2⟩, ⟨1⟩] ∅ } :=
    .reorder .new (List.getElem_mem (show 1 < (samplePlugin siblingGroups).allGroups.length by decide))
      ((reorderGroupRecords_eq_ok _ _ _ _).mpr ⟨⟨66, 138⟩,
        (Group.ofNode (samplePlugin siblingGroups).allGroups[1]).records, rfl, rfl, by decide,
        by decide, rfl⟩)
  exact .reorder first
    (List.getElem_mem (show 2 < (samplePlugin siblingGroups).allGroups.length by decide))
    ((reorderGroupRecords_eq_ok _ _ _ _).mpr ⟨⟨138, 210⟩,
      (Group.ofNode (samplePlugin siblingGroups).allGroups[2]).records, rfl, rfl, by decide,
      shuffled, rfl⟩)

/-- The header of the sample can be written. -/
theorem exists_header_siblingPatcher (second : List FormId) :
    ∃ header, (siblingPatcher second).writeHeader refuseInflate = .ok header := by
  have small : (samplePlugin siblingGroups).treeSize < 2 ^ 32 := by
    rw [Plugin.treeSize, Plugin.records_eq]
    decide
  exact exists_header_samplePlugin fits_siblingGroups small _ rfl rfl

/-- A nested group of the sample where it is found. -/
def siblingGroup (label : UInt8) (first second : UInt32) (start : Nat) : GroupChild :=
  .node ⟨(sampleHead label .topicChildren).header 72,
      some ⟨start, start + 72⟩⟩
    [.leaf ((sampleRecord first).locate (start + 24)),
      .leaf ((sampleRecord second).locate (start + 48))]

/-- The groups of the sample. -/
theorem trees_siblingGroups : (samplePlugin siblingGroups).groups.map Group.toChild =
    [.node ⟨(sampleHead 0 .normal).header 168, some ⟨42, 210⟩⟩
      [siblingGroup 1 1 2 66, siblingGroup 2 3 4 138]] := by
  have header : sampleHeader.encode.length = 42 := by decide
  rw [samplePlugin, File.locateGroups, TopGroup.toChild_locateAll, header]
  simp [siblingGroups, TopGroup.toNode, locateAll, locate, siblingGroup, sampleRecord]

/-- The sample meets the condition exactly when the second order is the one the group had. -/
theorem firstOnly_siblingPatcher (second : List FormId) :
    (∀ group ∈ (samplePlugin siblingGroups).allGroups, group.2.Pairwise fun earlier later =>
      HasReordered (siblingPatcher second).orderOf earlier →
        OrdersKeep (siblingPatcher second).orderOf later) ↔ second = [⟨3⟩, ⟨4⟩] := by
  have first : (siblingOrders second).lookup ⟨66, 138⟩ = some [⟨2⟩, ⟨1⟩] := by
    rw [siblingOrders, AList.lookup_insert_ne (by decide), AList.lookup_insert]
  have last : (siblingOrders second).lookup ⟨138, 210⟩ = some second := AList.lookup_insert _
  rw [Plugin.allGroups_eq, trees_siblingGroups]
  simp [HasReordered, OrdersKeep, siblingGroup, PluginPatcher.orderOf, siblingPatcher,
    first, last, directIds, Group.ofNode, Group.records, RawRecord.locate, RawRecord.toRecord,
    RawRecord.header, sampleRecord]

/-- The groups of the sample are reordered when the second order is the one they had. -/
theorem writeTo_reordered_siblingPatcher : ∃ out header parts,
    (siblingPatcher [⟨3⟩, ⟨4⟩]).writeTo refuseInflate = .ok out ∧
      List.Forall₂ (Reordered (File.encode ⟨sampleHeader, siblingGroups⟩)
        (siblingPatcher [⟨3⟩, ⟨4⟩]).orderOf)
        ((samplePlugin siblingGroups).groups.map Group.toChild) parts ∧
      out = header ++ parts.flatten := by
  obtain ⟨writes, reordered⟩ := writeTo_reordered refuseInflate _ .sse _
    (fromBytes_samplePlugin siblingGroups fits_siblingGroups) (siblingPatcher [⟨3⟩, ⟨4⟩])
    (reorderRun_siblingPatcher _ (by decide))
  obtain ⟨out, wrote⟩ := writes.mpr (exists_header_siblingPatcher _)
  obtain ⟨header, parts, _, each, whole⟩ :=
    (reordered out wrote).mpr ((firstOnly_siblingPatcher _).mpr rfl)
  exact ⟨out, header, parts, wrote, each, whole⟩

/-- Reversing the records of both nested groups of the sample loses the second order. -/
theorem exists_order_lost : ∃ (plugin : Plugin) (patcher : PluginPatcher) (data out : Bytes),
    Plugin.fromBytes refuseInflate data .sse = .ok plugin ∧ ReorderRun plugin patcher ∧
      patcher.writeTo refuseInflate = .ok out ∧
      ¬∃ header parts, patcher.writeHeader refuseInflate = .ok header ∧
        List.Forall₂ (Reordered data patcher.orderOf) (plugin.groups.map Group.toChild) parts ∧
        out = header ++ parts.flatten := by
  have accepted := fromBytes_samplePlugin siblingGroups fits_siblingGroups
  have run := reorderRun_siblingPatcher [⟨4⟩, ⟨3⟩] (by decide)
  obtain ⟨header, made⟩ := exists_header_siblingPatcher [⟨4⟩, ⟨3⟩]
  obtain ⟨parts, whole, unique, condition⟩ := run.exists_parts accepted
  rw [made] at whole
  refine ⟨_, _, _, _, accepted, run, whole, ?_⟩
  rintro ⟨header', parts', made', each, same⟩
  obtain rfl := Except.ok.inj (made.symm.trans made')
  obtain rfl := unique parts' each (List.append_cancel_left same).symm
  exact absurd ((firstOnly_siblingPatcher _).mp (condition.mp each)) (by decide)

end Bethkit
