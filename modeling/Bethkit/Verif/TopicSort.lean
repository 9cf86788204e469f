import Bethkit.Verif.Counters
import Bethkit.Verif.InfoOrder
import Bethkit.Verif.ReorderRun

/-!
# Sorted topics in written files

A plan for the group of a topic goes through the patcher into a file, and the file is read again.
The reader finds every group of the source in its place, with the header and the records it had, and
the group of the topic with its records in the planned order.
-/

namespace Bethkit

open Lib Layout

section Trees

variable {orderOf : OrderOf} {source : Bytes}

/-- A record that was found at another place. -/
def Record.Moved (old new : Record) : Prop := new = { old with sourceRange := new.sourceRange }

/-- A tree that was found again in a file with registered orders. -/
inductive FoundAgain (orderOf : OrderOf) : GroupChild → GroupChild → Prop
  /-- A record. -/
  | record {old new : Record} (moved : old.Moved new) : FoundAgain orderOf (.leaf old) (.leaf new)
  /-- A group without an order. -/
  | kept {info other : GroupInfo} {children others : List GroupChild} (own : orderOf info = none)
      (header : other.header = info.header)
      (each : List.Forall₂ (FoundAgain orderOf) children others) :
      FoundAgain orderOf (.node info children) (.node other others)
  /-- A group with an order. -/
  | reordered {info other : GroupInfo} {order : List FormId} {records others : List Record}
      (own : orderOf info = some order) (header : other.header = info.header)
      (each : List.Forall₂ Record.Moved (pick (·.header.formId) order records) others) :
      FoundAgain orderOf (.node info (records.map .leaf)) (.node other (others.map .leaf))

/-- Two places of one record. -/
theorem moved_locate (raw : RawRecord) (start other : Nat) :
    (raw.locate start).Moved (raw.locate other) := rfl

/-- Siblings that contain no reordered group are found again wherever they stand. -/
theorem foundAgain_siblings {nodes : List Node} {trees : List GroupChild}
    (stands : List.Forall₂ (StandsAt source) nodes trees)
    (each : ∀ node ∈ nodes, ∀ tree ∈ trees, StandsAt source node tree → ∀ start,
      FoundAgain orderOf tree (locate start node)) (start : Nat) :
    List.Forall₂ (FoundAgain orderOf) trees (locateAll start nodes) := by
  induction stands generalizing start with
  | nil => exact .nil
  | cons head _ ih =>
    rw [locateAll]
    refine .cons (each _ List.mem_cons_self _ List.mem_cons_self head start) ?_
    exact ih (fun node inside tree among => each node (List.mem_cons_of_mem _ inside) tree
      (List.mem_cons_of_mem _ among)) _

/-- A tree that contains no reordered group is found again wherever it stands. -/
theorem foundAgain_untouched (node : Node) {tree : GroupChild} (stands : StandsAt source node tree)
    (absent : ¬HasReordered orderOf tree) (start : Nat) :
    FoundAgain orderOf tree (locate start node) := by
  induction node using RoseTree.ind generalizing tree start with
  | leaf raw =>
    obtain ⟨other, rfl, _⟩ := standsAt_leaf stands
    rw [locate]
    exact .record (moved_locate raw other start)
  | node head children ih =>
    obtain ⟨range, trees, rfl, _, _, below⟩ := standsAt_node stands
    rw [hasReordered_node, not_or, not_exists] at absent
    rw [locate]
    refine .kept (Option.not_isSome_iff_eq_none.mp absent.1) rfl ?_
    refine foundAgain_siblings below (fun node inside tree among standing start => ?_) _
    exact ih node inside standing (fun touched => absent.2 tree ⟨among, touched⟩) start

/-- A record that stands for its content. -/
def Record.StandsFor (source : Bytes) (raw : RawRecord) (record : Record) : Prop :=
  (∃ start, record = raw.locate start) ∧ record.sourceBytes source = some raw.encode

/-- The content of records that stand one after the other. -/
theorem exists_raws {nodes : List Node} {records : List Record}
    (stands : List.Forall₂ (StandsAt source) nodes (records.map .leaf)) :
    ∃ raws : List RawRecord, nodes = raws.map .leaf ∧
      List.Forall₂ (Record.StandsFor source) raws records := by
  induction records generalizing nodes with
  | nil =>
    cases stands
    exact ⟨[], rfl, .nil⟩
  | cons record records ih =>
    obtain ⟨node, rest, head, tail, rfl⟩ := List.forall₂_cons_right_iff.mp stands
    obtain ⟨raws, rfl, each⟩ := ih tail
    cases node with
    | leaf raw =>
      obtain ⟨start, same, found⟩ := standsAt_leaf head
      obtain rfl : record = raw.locate start := by simpa using same
      exact ⟨raw :: raws, rfl, .cons ⟨⟨start, rfl⟩, found⟩ each⟩
    | node group children =>
      obtain ⟨_, _, same, _⟩ := standsAt_node head
      exact absurd same (by simp)

/-- The bytes of records are those of their content. -/
theorem encodeAll_raws {raws : List RawRecord} {records : List Record}
    (each : List.Forall₂ (Record.StandsFor source) raws records) :
    encodeAll (raws.map .leaf) = (records.map (bytesOf source)).flatten := by
  induction each with
  | nil => rfl
  | cons head _ ih =>
    rw [List.map_cons, encodeAll_cons, encode_leaf, ih, List.map_cons, List.flatten_cons, bytesOf,
      head.2, Option.getD_some]

/-- Records found again at another place. -/
theorem exists_moved {raws : List RawRecord} {records : List Record}
    (each : List.Forall₂ (Record.StandsFor source) raws records) (start : Nat) :
    ∃ others : List Record, locateAll start (raws.map .leaf) = others.map .leaf ∧
      List.Forall₂ Record.Moved records others := by
  induction each generalizing start with
  | nil => exact ⟨[], rfl, .nil⟩
  | @cons raw record raws records head _ ih =>
    obtain ⟨⟨own, rfl⟩, _⟩ := head
    obtain ⟨others, same, moved⟩ := ih (start + (encode (.leaf raw)).length)
    refine ⟨raw.locate start :: others, ?_, .cons (moved_locate raw own start) moved⟩
    rw [List.map_cons, locateAll, same, locate]
    rfl

/-- A node that has been written for another one. -/
structure WrittenFor (orderOf : OrderOf) (node : Node) (tree : GroupChild) (bytes : Bytes)
    (written : Node) : Prop where
  /-- It has the written bytes. -/
  bytes : encode written = bytes
  /-- They are as many as those of the other. -/
  length : (encode written).length = (encode node).length
  /-- All group sizes fit their fields. -/
  fits : Fits written
  /-- The tree is found again where it stands. -/
  again : ∀ start, FoundAgain orderOf tree (locate start written)

/-- Siblings that have been written for others. -/
structure AllWrittenFor (orderOf : OrderOf) (nodes : List Node) (trees : List GroupChild)
    (bytes : Bytes) (written : List Node) : Prop where
  /-- They have the written bytes. -/
  bytes : encodeAll written = bytes
  /-- They are as many as those of the others. -/
  length : (encodeAll written).length = (encodeAll nodes).length
  /-- All group sizes fit their fields. -/
  fits : ∀ node ∈ written, Fits node
  /-- The trees are found again where they stand. -/
  again : ∀ start, List.Forall₂ (FoundAgain orderOf) trees (locateAll start written)

/-- Siblings are written one after the other. -/
theorem exists_allWrittenFor {nodes : List Node} {trees : List GroupChild} {parts : List Bytes}
    (stands : List.Forall₂ (StandsAt source) nodes trees)
    (each : ∀ node ∈ nodes, ∀ tree ∈ trees, StandsAt source node tree → ∀ bytes,
      Reordered source orderOf tree bytes → ∃ written, WrittenFor orderOf node tree bytes written)
    (emitted : List.Forall₂ (Reordered source orderOf) trees parts) :
    ∃ written, AllWrittenFor orderOf nodes trees parts.flatten written := by
  induction stands generalizing parts with
  | nil =>
    cases emitted
    exact ⟨[], rfl, rfl, by simp, fun _ => .nil⟩
  | @cons node tree nodes trees head _ ih =>
    obtain ⟨bytes, parts, one, others, rfl⟩ := List.forall₂_cons_left_iff.mp emitted
    obtain ⟨first, written⟩ := each node List.mem_cons_self tree List.mem_cons_self head bytes one
    obtain ⟨rest, all⟩ := ih (fun node inside tree among => each node
      (List.mem_cons_of_mem _ inside) tree (List.mem_cons_of_mem _ among)) others
    refine ⟨first :: rest, ?_, ?_, List.forall_mem_cons.mpr ⟨written.fits, all.fits⟩, fun start => ?_⟩
    · rw [encodeAll_cons, written.bytes, all.bytes, List.flatten_cons]
    · rw [encodeAll_cons, encodeAll_cons, List.length_append, List.length_append, written.length,
        all.length]
    · rw [locateAll]
      exact .cons (written.again start) (all.again _)

/-- A group with a registered order is written with its records in that order. -/
theorem writtenFor_ordered {head : GroupHead} {children : List Node} {range : Range}
    {trees : List GroupChild} {order : List FormId} {header : Bytes} {parts : List Bytes}
    (fit : Fits (.node head children)) (below : List.Forall₂ (StandsAt source) children trees)
    (own : orderOf ⟨head.header (24 + (encodeAll children).length), some range⟩ = some order)
    (ordered : OrderedGroup source children
      (⟨head.header (24 + (encodeAll children).length), some range⟩, trees) order)
    (emitted : List.Forall₂ (fun formId part => ∃ record ∈ (Group.ofNode
      (⟨head.header (24 + (encodeAll children).length), some range⟩, trees)).records,
      record.header.formId = formId ∧ record.sourceBytes source = some part) order parts)
    (resized : Resized (head.encode (24 + (encodeAll children).length))
      (24 + parts.flatten.length) header) :
    ∃ written, WrittenFor orderOf (.node head children)
      (.node ⟨head.header (24 + (encodeAll children).length), some range⟩ trees)
      (header ++ parts.flatten) written := by
  have same := (orderedParts_iff ordered.stored ordered.different ordered.known parts).mp emitted
  have leaves : trees = _ := ordered.leaves
  generalize records_eq : (Group.ofNode
    (⟨head.header (24 + (encodeAll children).length), some range⟩, trees)).records = records
    at same leaves
  subst leaves
  obtain ⟨raws, isRaws, each⟩ := exists_raws below
  have keyed : ∀ raw ∈ raws, ∀ record ∈ records, Record.StandsFor source raw record →
      raw.formId = record.header.formId := by
    intro raw _ record _ stands
    obtain ⟨⟨start, rfl⟩, _⟩ := stands
    rfl
  have picked := pick_rel (·.formId) each keyed order
  have bytes : encodeAll ((pick (·.formId) order raws).map .leaf) = parts.flatten := by
    rw [encodeAll_raws picked, same]
  have length : parts.flatten.length = (encodeAll children).length := by
    have total := ordered.length
    rw [records_eq, ← same] at total
    exact total
  have front := ((resized_iff ..).mp resized).2
  refine ⟨.node head ((pick (·.formId) order raws).map .leaf), ?_, ?_, ?_, fun start => ?_⟩
  · rw [encode_node, bytes, front]
  · rw [encode_node, encode_node, bytes, List.length_append, List.length_append, length,
      GroupHead.length_encode]
  · refine (fits_node _ _).mpr ⟨?_, ?_⟩
    · rw [bytes, length]
      exact ((fits_node _ _).mp fit).1
    · intro child among
      obtain ⟨raw, _, rfl⟩ := List.mem_map.mp among
      exact fits_leaf raw
  · obtain ⟨others, located, moved⟩ := exists_moved picked (start + 24)
    rw [locate, located]
    refine .reordered own ?_ moved
    rw [bytes, length]

/-- What is written for a tree with valid orders. -/
theorem exists_writtenFor (node : Node) (fit : Fits node) {tree : GroupChild}
    (stands : StandsAt source node tree) (valid : ValidOrders orderOf tree) {bytes : Bytes}
    (reordered : Reordered source orderOf tree bytes) :
    ∃ written, WrittenFor orderOf node tree bytes written := by
  induction node using RoseTree.ind generalizing tree bytes with
  | leaf raw =>
    obtain ⟨own, rfl, found⟩ := standsAt_leaf stands
    obtain found' | _ | _ | _ := reordered
    obtain rfl := Option.some.inj (found.symm.trans found')
    refine ⟨.leaf raw, encode_leaf raw, rfl, fits_leaf raw, fun start => ?_⟩
    rw [locate]
    exact .record (moved_locate raw own start)
  | node head children ih =>
    have standing := stands
    obtain ⟨range, trees, rfl, whole, front, below⟩ := standsAt_node stands
    rcases reordered_node_cases reordered with ⟨absent, found⟩ |
        ⟨range', original, header, parts, placed, front', resized, rfl, chosen | around⟩
    · obtain rfl : encode (.node head children) = bytes := Option.some.inj (whole.symm.trans found)
      exact ⟨_, rfl, rfl, fit, foundAgain_untouched _ standing absent⟩
    · obtain rfl : range = range' := Option.some.inj placed
      obtain rfl := Option.some.inj (front.symm.trans front')
      obtain ⟨order, own, emitted⟩ := chosen
      exact writtenFor_ordered fit below own (.of_valid below valid own) emitted resized
    · obtain rfl : range = range' := Option.some.inj placed
      obtain rfl := Option.some.inj (front.symm.trans front')
      obtain ⟨own, _, emitted⟩ := around
      obtain ⟨small, fits⟩ := (fits_node head children).mp fit
      obtain ⟨written, all⟩ := exists_allWrittenFor below (fun node inside tree among standing bytes =>
        ih node inside (fits node inside) standing (valid.child among)) emitted
      have header_eq := ((resized_iff ..).mp resized).2
      have length : parts.flatten.length = (encodeAll children).length := by
        rw [← all.bytes, all.length]
      refine ⟨.node head written, ?_, ?_, ?_, fun start => ?_⟩
      · rw [encode_node, all.bytes, header_eq]
      · rw [encode_node, encode_node, List.length_append, List.length_append, all.length]
      · exact (fits_node _ _).mpr ⟨by rw [all.length]; exact small, all.fits⟩
      · rw [locate]
        refine .kept own ?_ (all.again _)
        rw [all.length]

end Trees

section Groups

variable {orderOf : OrderOf}

/-- The records of a group in the order registered for it. -/
def Group.recordsIn (orderOf : OrderOf) (group : Group) : List Record :=
  ((orderOf group.toGroupInfo).map fun order =>
    pick (·.header.formId) order group.records).getD group.records

/-- A group that was found again, with its records in their order. -/
structure Group.Again (orderOf : OrderOf) (old new : Group) : Prop where
  /-- The header is the same. -/
  header : new.header = old.header
  /-- The records are the same, in the order registered for the group. -/
  records : List.Forall₂ Record.Moved (old.recordsIn orderOf) new.records

/-- The direct records of siblings that were found again. -/
theorem records_foundAgain {info other : GroupInfo} {children others : List GroupChild}
    (each : List.Forall₂ (FoundAgain orderOf) children others) :
    List.Forall₂ Record.Moved (Group.ofNode (info, children)).records
      (Group.ofNode (other, others)).records := by
  induction each with
  | nil => exact .nil
  | cons head _ ih =>
    cases head with
    | record moved => exact .cons moved ih
    | kept => exact ih
    | reordered => exact ih

/-- Records contain no groups. -/
theorem nodes_leaves (records : List Record) :
    (records.map RoseTree.leaf : List GroupChild).flatMap RoseTree.nodes = [] := by
  rw [List.flatMap_map]
  exact List.flatMap_eq_nil_iff.mpr fun record _ => RoseTree.nodes_leaf record

/-- The groups of a tree that was found again are the groups of the tree. -/
theorem again_nodes (tree : GroupChild) {other : GroupChild} (found : FoundAgain orderOf tree other) :
    List.Forall₂ (fun old new => (Group.ofNode old).Again orderOf (Group.ofNode new)) tree.nodes
      other.nodes := by
  induction tree using RoseTree.ind generalizing other with
  | leaf record =>
    cases found with
    | record moved =>
      rw [RoseTree.nodes_leaf, RoseTree.nodes_leaf]
      exact .nil
  | node info children ih =>
    cases found with
    | @kept _ other _ others own header each =>
      rw [RoseTree.nodes_node, RoseTree.nodes_node]
      refine .cons ⟨header, ?_⟩ ?_
      · have plain : (Group.ofNode (info, children)).recordsIn orderOf =
            (Group.ofNode (info, children)).records := by
          have none : orderOf (Group.ofNode (info, children)).toGroupInfo = none := own
          rw [Group.recordsIn, none]
          rfl
        rw [plain]
        exact records_foundAgain each
      · clear own header
        induction each with
        | nil => exact .nil
        | cons head _ below =>
          rw [List.flatMap_cons, List.flatMap_cons]
          exact List.rel_append (ih _ List.mem_cons_self head)
            (below fun child among => ih child (List.mem_cons_of_mem _ among))
    | @reordered _ other order records others own header each =>
      rw [RoseTree.nodes_node, RoseTree.nodes_node, nodes_leaves, nodes_leaves]
      refine .cons ⟨header, ?_⟩ .nil
      have chosen : (Group.ofNode (info, records.map .leaf)).recordsIn orderOf =
          pick (·.header.formId) order records := by
        have some : orderOf (Group.ofNode (info, records.map .leaf)).toGroupInfo = some order := own
        rw [Group.recordsIn, some, records_leaves]
        rfl
      rw [chosen, records_leaves]
      exact each

/-- The groups of siblings that were found again. -/
theorem again_flatMap {trees others : List GroupChild}
    (each : List.Forall₂ (FoundAgain orderOf) trees others) :
    List.Forall₂ (fun old new => (Group.ofNode old).Again orderOf (Group.ofNode new))
      (trees.flatMap RoseTree.nodes) (others.flatMap RoseTree.nodes) := by
  induction each with
  | nil => exact .nil
  | cons head _ ih =>
    rw [List.flatMap_cons, List.flatMap_cons]
    exact List.rel_append (again_nodes _ head) ih

/-- A record that was moved has the same predecessor. -/
theorem previousPayload_moved (inflate : Inflate) {old new : Record} (moved : old.Moved new) :
    previousPayload inflate new = previousPayload inflate old := by
  rw [moved]
  rfl

/-- A record that was moved has the same header. -/
theorem header_moved {old new : Record} (moved : old.Moved new) : new.header = old.header := by
  rw [moved]

/-- The group of a topic is found again. -/
theorem findTopicGroup_again {toLowercase : Lowercase} {order : LoadOrder} {plugin again : PluginInput}
    {dial : GlobalFormId} {group : Group} (name : again.name = plugin.name)
    (masters : again.plugin.masters = plugin.plugin.masters)
    (groups : List.Forall₂ (fun old new => (Group.ofNode old).Again orderOf (Group.ofNode new))
      plugin.plugin.allGroups again.plugin.allGroups)
    (found : findTopicGroup toLowercase order plugin dial = .ok (some group)) :
    ∃ sorted, findTopicGroup toLowercase order again dial = .ok (some sorted) ∧
      group.Again orderOf sorted := by
  have mapped : List.Forall₂ (Group.Again orderOf) (plugin.plugin.allGroups.map Group.ofNode)
      (again.plugin.allGroups.map Group.ofNode) := by
    rw [List.forall₂_map_left_iff, List.forall₂_map_right_iff]
    exact groups
  have topics : List.Forall₂ (Group.Again orderOf) (topicGroups plugin) (topicGroups again) := by
    refine List.rel_filter (fun old new same => ?_) mapped
    dsimp only
    rw [same.header]
  have resolves (formId : FormId) : again.resolve toLowercase order formId =
      plugin.resolve toLowercase order formId := by
    rw [PluginInput.resolve, PluginInput.resolve, name, masters]
  have chosen : List.Forall₂ (Group.Again orderOf)
      ((topicGroups plugin).filter (isTopicGroup toLowercase order plugin dial))
      ((topicGroups again).filter (isTopicGroup toLowercase order again dial)) := by
    refine List.rel_filter (fun old new same => ?_) topics
    have topic : isTopicGroup toLowercase order again dial new =
        isTopicGroup toLowercase order plugin dial old := by
      unfold isTopicGroup
      rw [same.header]
      simp only [resolves]
    dsimp only
    rw [topic]
  unfold findTopicGroup at found ⊢
  generalize (topicGroups plugin).filter (isTopicGroup toLowercase order plugin dial) = olds
    at found chosen
  generalize (topicGroups again).filter (isTopicGroup toLowercase order again dial) = news at chosen ⊢
  cases chosen with
  | nil => cases found
  | cons head rest =>
    cases rest with
    | nil =>
      obtain rfl := Option.some.inj (Except.ok.inj found)
      exact ⟨_, rfl, head⟩
    | cons => cases found

end Groups

section Files

variable {inflate : Inflate} {data : Bytes} {ctx : GameContext} {plugin : Plugin}

/-- The ranges below a group are different if those of the tree are. -/
theorem nodup_below (tree : GroupChild) (different : (treeRanges tree).Nodup)
    {group : GroupInfo × List GroupChild} (among : group ∈ tree.nodes) :
    (group.2.flatMap treeRanges).Nodup := by
  induction tree using RoseTree.ind with
  | leaf record =>
    rw [RoseTree.nodes_leaf] at among
    cases among
  | node info children ih =>
    rw [treeRanges_node, List.nodup_cons] at different
    rw [RoseTree.nodes_node] at among
    rcases List.mem_cons.mp among with rfl | later
    · exact different.2
    · obtain ⟨child, inside, among⟩ := List.mem_flatMap.mp later
      exact ih child inside ((List.nodup_flatMap.mp different.2).1 child inside) among

/-- A single order has no other one behind it. -/
theorem firstOnly_of_single {orderOf : OrderOf} {range : Range}
    (different : ((plugin.groups.map Group.toChild).flatMap treeRanges).Nodup)
    (single : ∀ info order, orderOf info = some order → info.sourceRange = some range) :
    ∀ group ∈ plugin.allGroups, group.2.Pairwise fun earlier later =>
      HasReordered orderOf earlier → OrdersKeep orderOf later := by
  intro group among
  rw [Plugin.allGroups_eq] at among
  obtain ⟨tree, inside, among⟩ := List.mem_flatMap.mp among
  have below := nodup_below tree ((List.nodup_flatMap.mp different).1 tree inside) among
  refine (List.nodup_flatMap.mp below).2.imp ?_
  intro earlier later apart touched other found order registered
  obtain ⟨first, standing, some⟩ := touched
  obtain ⟨chosen, own⟩ := Option.isSome_iff_exists.mp some
  have here : Option.some range ∈ treeRanges earlier := by
    rw [← single first.1 chosen own]
    exact List.mem_map_of_mem standing
  have there : Option.some range ∈ treeRanges later := by
    rw [← single other.1 order registered]
    exact List.mem_map_of_mem found
  exact absurd there (apart here)

/-- The groups that a patcher writes are found again. -/
theorem ReorderRun.exists_written (accepted : Plugin.fromBytes inflate data ctx = .ok plugin)
    {patcher : PluginPatcher} (run : ReorderRun plugin patcher)
    (firstOnly : ∀ group ∈ plugin.allGroups, group.2.Pairwise fun earlier later =>
      HasReordered patcher.orderOf earlier → OrdersKeep patcher.orderOf later)
    {out : Bytes} (wrote : patcher.writeTo inflate = .ok out) :
    ∃ (header : Bytes) (written : List Node), patcher.writeHeader inflate = .ok header ∧
      out = header ++ encodeAll written ∧ (∀ node ∈ written, Fits node) ∧
      ∀ start, List.Forall₂ (FoundAgain patcher.orderOf) (plugin.groups.map Group.toChild)
        (locateAll start written) := by
  obtain ⟨parts, whole, _, condition⟩ := run.exists_parts accepted
  obtain ⟨source, _, nodes, _, _, fits, stands, different⟩ := exists_standing accepted
  have valid := run.registered.1.validOrders different
  obtain ⟨written, all⟩ := exists_allWrittenFor stands (fun node inside tree among standing bytes =>
    exists_writtenFor node (fits node inside) standing (valid tree among)) (condition.mpr firstOnly)
  rw [whole] at wrote
  obtain ⟨header, made, same⟩ := bind_eq_ok.mp wrote
  refine ⟨header, written, made, ?_, all.fits, all.again⟩
  rw [all.bytes]
  exact (Except.ok.inj same).symm

/-- A header that is rewritten without a patch is read with the masters it had. -/
theorem masters_writeUpdated (accepted : Plugin.fromBytes inflate data ctx = .ok plugin)
    {out : Bytes} (wrote : writeUpdated inflate plugin none = .ok out) :
    ∃ (raw : RawRecord) (header : PluginHeader), out = raw.encode ∧
      PluginHeader.ofRecord inflate ctx raw.toRecord = .ok header ∧
      header.masters = plugin.header.masters := by
  obtain ⟨file, block, _, rfl, signed, source, parsed⟩ := exists_headerBlock accepted
  obtain ⟨counters, _, _, sized, rfl⟩ :=
    (writeUpdated_eq_ok file block source none plugin parsed out).mp wrote
  obtain ⟨edited, encoded, values⟩ := exists_editedBlock counters none file.header block sized
  have admitted := parse_updatedRecord (patchEdit counters none) none file.header block signed
    source sized edited encoded
  have strings : StringsFit none := by decide
  have read := subrecordValues_locateFrames edited
  rw [values.mpr strings] at read
  refine ⟨_, _, rfl, admitted, ?_⟩
  have names := masterNames_filter (locateFrames edited.encode 0 edited.frames)
  have old : (block.frames.map Part.kept).map Part.value = block.values := by
    rw [List.map_map]
    rfl
  have before := masterNames_filter (locateFrames block.encode 0 block.frames)
  rw [subrecordValues_locateFrames] at before
  have kept := @mastersOf_editParts_none (patchEdit counters none) rfl (block.frames.map .kept)
  rw [old, ← before] at kept
  rw [read, kept] at names
  rw [parsed]
  exact names

/-- Only a record is found again as a record. -/
theorem FoundAgain.not_leaf {orderOf : OrderOf} {info : GroupInfo} {children : List GroupChild}
    {other : GroupChild} (found : FoundAgain orderOf (.node info children) other) (record : Record) :
    other ≠ .leaf record := by
  cases found <;> simp

/-- A tree that was found again for a group is a group. -/
theorem nodes_ne_nil {orderOf : OrderOf} {nodes : List Node} {groups : List Group} {start : Nat}
    (each : List.Forall₂ (FoundAgain orderOf) (groups.map Group.toChild) (locateAll start nodes)) :
    ∀ node ∈ nodes, node.nodes ≠ [] := by
  induction nodes generalizing groups start with
  | nil => simp
  | cons node nodes ih =>
    rw [locateAll] at each
    obtain ⟨tree, trees, head, tail, same⟩ := List.forall₂_cons_right_iff.mp each
    cases groups with
    | nil => cases same
    | cons group groups =>
      obtain ⟨rfl, rfl⟩ := List.cons.inj same
      refine List.forall_mem_cons.mpr ⟨?_, ih tail⟩
      cases node with
      | leaf raw =>
        exact absurd (locate.eq_def start (.leaf raw)) (FoundAgain.not_leaf head _)
      | node info children =>
        rw [RoseTree.nodes_node]
        exact List.cons_ne_nil _ _

/-- A file that a patcher without a header patch writes is read with the groups found again. -/
theorem ReorderRun.fromBytes_written (accepted : Plugin.fromBytes inflate data ctx = .ok plugin)
    {patcher : PluginPatcher} (run : ReorderRun plugin patcher)
    (firstOnly : ∀ group ∈ plugin.allGroups, group.2.Pairwise fun earlier later =>
      HasReordered patcher.orderOf earlier → OrdersKeep patcher.orderOf later)
    (rewrites : RewritesHeader patcher) (unpatched : patcher.headerPatch = none) {out : Bytes}
    (wrote : patcher.writeTo inflate = .ok out) :
    ∃ again : Plugin, Plugin.fromBytes inflate out ctx = .ok again ∧
      again.masters = plugin.masters ∧
      List.Forall₂ (fun old new => (Group.ofNode old).Again patcher.orderOf (Group.ofNode new))
        plugin.allGroups again.allGroups := by
  obtain ⟨bytes, written, made, rfl, fits, found⟩ := run.exists_written accepted firstOnly wrote
  rw [writeHeader_eq accepted run.registered.1.attached rewrites, unpatched] at made
  obtain ⟨raw, header, rfl, admitted, masters⟩ := masters_writeUpdated accepted made
  have each := found raw.encode.length
  obtain ⟨tops, rfl⟩ := exists_tops (nodes_ne_nil each)
  have fit : File.Fits ⟨raw, tops⟩ := fun top among => fits _ (List.mem_map_of_mem among)
  refine ⟨_, (fromBytes_eq_ok inflate _ ctx _).mpr ⟨⟨raw, tops⟩, header, fit, rfl, admitted, rfl⟩,
    masters, ?_⟩
  rw [Plugin.allGroups_eq, Plugin.allGroups_eq]
  refine again_flatMap ?_
  rw [← TopGroup.toChild_locateAll] at each
  exact each

end Files

section Topics

variable {inflate : Inflate} {data : Bytes} {ctx : GameContext} {toLowercase : Lowercase}
  {order : LoadOrder} {plugins : List PluginInput} {targetPlugin : String} {dial : GlobalFormId}
  {target : PluginInput × Nat} {group : Group} {plan : InfoGroupSortPlan}

/-- The group of a topic is a group of the plugin. -/
theorem exists_of_findTopicGroup {plugin : PluginInput}
    (found : findTopicGroup toLowercase order plugin dial = .ok (some group)) :
    ∃ node ∈ plugin.plugin.allGroups, group = Group.ofNode node := by
  have among : group ∈ (topicGroups plugin).filter
      (isTopicGroup toLowercase order plugin dial) := by
    unfold findTopicGroup at found
    generalize (topicGroups plugin).filter (isTopicGroup toLowercase order plugin dial) = groups
      at found ⊢
    rcases groups with _ | ⟨only, _ | ⟨second, others⟩⟩
    · cases found
    · cases found
      exact List.mem_singleton.mpr rfl
    · cases found
  obtain ⟨node, inside, same⟩ := List.mem_map.mp (List.mem_filter.mp (List.mem_filter.mp among).1).1
  exact ⟨node, inside, same.symm⟩

/-- A plan permutes the records of the group, and says whether it moves one. -/
theorem perm_of_planned (selected : selectTarget toLowercase plugins targetPlugin = .ok target)
    (found : findTopicGroup toLowercase order target.1 dial = .ok (some group))
    (planned : planInfoGroupSort toLowercase inflate order plugins targetPlugin dial =
      .ok (some plan)) : plan.formIds.Perm (group.records.map (·.header.formId)) ∧
      (plan.changed = true ↔ plan.formIds ≠ group.records.map (·.header.formId)) := by
  have steps := planned
  unfold planInfoGroupSort planInfoGroupSortWithOverride planTarget at steps
  rw [selected, ok_bind, found, ok_bind] at steps
  obtain ⟨nodes, resolved, _⟩ := bind_eq_ok.mp steps
  have sorts := planGroup_sorts
    (infoNodes_endsWith (getElem?_of_selectTarget selected) found resolved)
  rw [← planInfoGroupSort_eq selected found resolved, planned] at sorts
  by_cases cyclic : HasCycle nodes
  · obtain ⟨identity, failed⟩ := sorts.cyclic.mpr cyclic
    cases failed
  · obtain ⟨other, arranged, same, follows⟩ := sorts.planned cyclic
    cases same
    exact ⟨follows.grouped, follows.changed⟩

/-- A group of an accepted plugin stands in its source. -/
theorem exists_range {plugin : Plugin} (accepted : Plugin.fromBytes inflate data ctx = .ok plugin)
    {node : GroupInfo × List GroupChild} (among : node ∈ plugin.allGroups) :
    ∃ range, node.1.sourceRange = some range := by
  rw [Plugin.allGroups_eq] at among
  obtain ⟨tree, inside, below⟩ := List.mem_flatMap.mp among
  obtain ⟨_, _, _, _, _, _, stands, _⟩ := exists_standing accepted
  obtain ⟨top, _, standing⟩ := exists_of_mem_right stands inside
  refine Option.ne_none_iff_exists'.mp fun absent => ranged_of_standsAt top standing ?_
  rw [← absent]
  exact List.mem_map_of_mem below

/-- A group with different records and nothing else. -/
def Group.Sortable (group : Group) : Prop :=
  group.children = group.records.map .leaf ∧ (group.records.map (·.header.formId)).Nodup

/-- A plan that moves a record registers one order, and is refused for other groups. -/
theorem apply_changed {plugin : Plugin} {node : GroupInfo × List GroupChild}
    (changed : plan.changed = true) (patcher : PluginPatcher) :
    plan.apply (.new plugin) (Group.ofNode node) = .ok patcher ↔
      ∃ range, node.1.sourceRange = some range ∧ (Group.ofNode node).Sortable ∧
        plan.formIds.Perm ((Group.ofNode node).records.map (·.header.formId)) ∧
        patcher = { PluginPatcher.new plugin with
          groupOrders := AList.insert range plan.formIds ∅ } := by
  rw [InfoGroupSortPlan.apply, if_pos changed, mapError_eq_ok, reorderGroupRecords_eq_ok]
  constructor
  · intro parts
    obtain ⟨range, records, placed, leaves, different, shuffled, same⟩ := parts
    have own : (Group.ofNode node).records = records := by
      have direct := records_leaves node.1 records
      rwa [← leaves] at direct
    subst own
    exact ⟨range, placed, ⟨leaves, different⟩, shuffled, same⟩
  · intro parts
    obtain ⟨range, placed, sortable, shuffled, same⟩ := parts
    exact ⟨range, _, placed, sortable.1, sortable.2, shuffled, same⟩

/-- Applying a plan that moves a record is a run of the patcher. -/
theorem reorderRun_apply {plugin : Plugin} {node : GroupInfo × List GroupChild}
    (among : node ∈ plugin.allGroups) (changed : plan.changed = true) {patcher : PluginPatcher}
    (applied : plan.apply (.new plugin) (Group.ofNode node) = .ok patcher) :
    ReorderRun plugin patcher := by
  rw [InfoGroupSortPlan.apply, if_pos changed, mapError_eq_ok] at applied
  exact .reorder .new among applied

/-- The group of the topic that was found again is sorted as planned. -/
theorem Group.Again.resorted {orderOf : OrderOf} {sorted : Group} {plugin again : PluginInput}
    (same : group.Again orderOf sorted) (name : again.name = plugin.name)
    (masters : again.plugin.masters = plugin.plugin.masters)
    (found : findTopicGroup toLowercase order again dial = .ok (some sorted))
    (complete : (group.recordsIn orderOf).Perm group.records)
    (planned : (group.recordsIn orderOf).map (·.header.formId) = plan.formIds) :
    Resorted toLowercase inflate order dial plugin group plan again sorted where
  name := name
  masters := masters
  found := found
  records := by
    refine ⟨_, complete, same.records.imp fun old new moved => ?_⟩
    exact ⟨header_moved moved, previousPayload_moved inflate moved⟩
  planned := by
    rw [← planned, ← List.forall₂_eq_eq_eq, List.forall₂_map_left_iff, List.forall₂_map_right_iff]
    exact same.records.flip.imp fun new old moved => by rw [header_moved moved]

/-- A written file in which the group of the topic is sorted and every other group is kept. -/
def SortedIn (toLowercase : Lowercase) (inflate : Inflate) (ctx : GameContext) (order : LoadOrder)
    (dial : GlobalFormId) (plugin : PluginInput) (group : Group) (plan : InfoGroupSortPlan)
    (patcher : PluginPatcher) (out : Bytes) : Prop :=
  ∃ (again : Plugin) (sorted : Group), Plugin.fromBytes inflate out ctx = .ok again ∧
    Resorted toLowercase inflate order dial plugin group plan ⟨plugin.name, again⟩ sorted ∧
    List.Forall₂ (fun old new => (Group.ofNode old).Again patcher.orderOf (Group.ofNode new))
      plugin.plugin.allGroups again.allGroups

/-- A plan that moves a record is written. -/
theorem sortedIn_changed {plugin : PluginInput}
    (accepted : Plugin.fromBytes inflate data ctx = .ok plugin.plugin)
    (found : findTopicGroup toLowercase order plugin dial = .ok (some group))
    (changed : plan.changed = true) {patcher : PluginPatcher}
    (applied : plan.apply (.new plugin.plugin) group = .ok patcher) {out : Bytes}
    (wrote : patcher.writeTo inflate = .ok out) :
    SortedIn toLowercase inflate ctx order dial plugin group plan patcher out := by
  obtain ⟨node, among, isNode⟩ := exists_of_findTopicGroup found
  rw [isNode] at applied
  have run := reorderRun_apply among changed applied
  obtain ⟨range, placed, sortable, shuffled, same⟩ := (apply_changed changed patcher).mp applied
  have orders : patcher.groupOrders = AList.insert range plan.formIds ∅ := by rw [same]
  have own : patcher.orderOf node.1 = some plan.formIds := by
    rw [PluginPatcher.orderOf, placed, Option.bind_some, orders, AList.lookup_insert]
  have single : ∀ info formIds, patcher.orderOf info = some formIds →
      info.sourceRange = some range := by
    intro info formIds registered
    obtain ⟨other, known, inserted⟩ := Option.bind_eq_some_iff.mp registered
    by_cases equal : other = range
    · rw [known, equal]
    · rw [orders, AList.lookup_insert_ne equal] at inserted
      cases inserted
  obtain ⟨_, _, _, _, _, _, _, different⟩ := exists_standing accepted
  have attached : patcher.plugin = plugin.plugin := by rw [same]; rfl
  have rewrites : RewritesHeader patcher := by
    rw [Plugin.allGroups_eq] at among
    obtain ⟨tree, inside, below⟩ := List.mem_flatMap.mp among
    obtain ⟨top, isTop, rfl⟩ := List.mem_map.mp inside
    refine .inr ⟨top, by rw [attached]; exact isTop, .inr ⟨node, below, ?_⟩⟩
    rw [own, Option.isSome_some]
  have unpatched : patcher.headerPatch = none := by rw [same]; rfl
  obtain ⟨again, read, masters, groups⟩ := run.fromBytes_written accepted
    (firstOnly_of_single different single) rewrites unpatched wrote
  let next : PluginInput := ⟨plugin.name, again⟩
  obtain ⟨sorted, foundAgain, isAgain⟩ := findTopicGroup_again (show next.name = plugin.name from rfl)
    (show next.plugin.masters = plugin.plugin.masters from masters) groups found
  have chosen : group.recordsIn patcher.orderOf = pick (·.header.formId) plan.formIds
      group.records := by
    rw [isNode, Group.recordsIn, show (Group.ofNode node).toGroupInfo = node.1 from rfl, own]
    rfl
  rw [← isNode] at sortable shuffled
  refine ⟨again, sorted, read, isAgain.resorted rfl masters foundAgain ?_ ?_, groups⟩
  · rw [chosen]
    exact pick_perm _ sortable.2 shuffled
  · rw [chosen]
    exact map_key_pick _ fun formId inside => shuffled.mem_iff.mp inside

/-- Without an order every group is found again as it is. -/
theorem Group.again_refl {orderOf : OrderOf} (group : Group)
    (plain : orderOf group.toGroupInfo = none) : group.Again orderOf group := by
  refine ⟨rfl, ?_⟩
  rw [Group.recordsIn, plain]
  exact List.forall₂_same.mpr fun record _ => show record = { record with } from rfl

/-- A plan that moves no record leaves the file as it is. -/
theorem sortedIn_unchanged {plugin : PluginInput}
    (accepted : Plugin.fromBytes inflate data ctx = .ok plugin.plugin)
    (found : findTopicGroup toLowercase order plugin dial = .ok (some group))
    (planned : plan.formIds = group.records.map (·.header.formId)) (changed : plan.changed = false)
    {patcher : PluginPatcher} (applied : plan.apply (.new plugin.plugin) group = .ok patcher)
    {out : Bytes} (wrote : patcher.writeTo inflate = .ok out) :
    SortedIn toLowercase inflate ctx order dial plugin group plan patcher out := by
  rw [InfoGroupSortPlan.apply, if_neg (by rw [changed]; exact Bool.false_ne_true)] at applied
  obtain rfl := Except.ok.inj applied
  have copied : plugin.plugin.source = out := Except.ok.inj wrote
  obtain ⟨source, _⟩ := exists_standing accepted
  have plain (info : GroupInfo) : (PluginPatcher.new plugin.plugin).orderOf info = none := by
    cases placed : info.sourceRange <;> simp [PluginPatcher.orderOf, PluginPatcher.new, placed]
  refine ⟨plugin.plugin, group, ?_, (group.again_refl (plain _)).resorted rfl rfl found ?_ ?_, ?_⟩
  · rw [← copied, source]
    exact accepted
  · rw [Group.recordsIn, plain]
    rfl
  · rw [Group.recordsIn, plain, planned]
    rfl
  · exact List.forall₂_same.mpr fun node _ => (Group.ofNode node).again_refl (plain _)

/-- A plan can be applied if it moves no record or the group holds nothing but records with different
FormIDs, and every file that the patcher then writes is read with the group of the topic in the
planned order, and with all groups, headers and records that the plugin had. -/
theorem sortPlan_written (inflate : Inflate) (data : Bytes) (ctx : GameContext)
    (toLowercase : Lowercase) (order : LoadOrder) (plugins : List PluginInput)
    (targetPlugin : String) (dial : GlobalFormId) (target : PluginInput × Nat) (group : Group)
    (plan : InfoGroupSortPlan)
    (accepted : Plugin.fromBytes inflate data ctx = .ok target.1.plugin)
    (selected : selectTarget toLowercase plugins targetPlugin = .ok target)
    (found : findTopicGroup toLowercase order target.1 dial = .ok (some group))
    (planned : planInfoGroupSort toLowercase inflate order plugins targetPlugin dial =
      .ok (some plan)) :
    ((∃ patcher, plan.apply (.new target.1.plugin) group = .ok patcher) ↔
      (plan.formIds ≠ group.records.map (·.header.formId) → group.Sortable)) ∧
    ∀ patcher out, plan.apply (.new target.1.plugin) group = .ok patcher →
      patcher.writeTo inflate = .ok out →
        SortedIn toLowercase inflate ctx order dial target.1 group plan patcher out := by
  obtain ⟨shuffled, moves⟩ := perm_of_planned selected found planned
  by_cases changed : plan.changed = true
  · refine ⟨?_, fun _ _ applied wrote => sortedIn_changed accepted found changed applied wrote⟩
    obtain ⟨node, among, rfl⟩ := exists_of_findTopicGroup found
    obtain ⟨range, placed⟩ := exists_range accepted among
    constructor
    · intro applies _
      obtain ⟨patcher, applied⟩ := applies
      obtain ⟨_, _, sortable, _⟩ := (apply_changed changed patcher).mp applied
      exact sortable
    · intro sortable
      exact ⟨_, (apply_changed changed _).mpr
        ⟨range, placed, sortable (moves.mp changed), shuffled, rfl⟩⟩
  · have same : plan.formIds = group.records.map (·.header.formId) :=
      not_not.mp fun differ => changed (moves.mpr differ)
    refine ⟨iff_of_true ⟨_, if_neg changed⟩ fun differ => absurd same differ, ?_⟩
    intro patcher out applied wrote
    exact sortedIn_unchanged accepted found same (Bool.eq_false_iff.mpr changed) applied wrote

end Topics

/-- Two infos in the wrong order. -/
def chainInfos : List (UInt8 × Option UInt8) := [(2, some 1), (1, none)]

/-- The groups fit their size fields. -/
theorem fits_chainInfos : File.Fits ⟨sampleHeader, [topicGroup chainInfos]⟩ := by
  simp [topicGroup, chainInfos, File.Fits, TopGroup.toNode, topicRecord, topicBlock]

/-- Two infos in the wrong order, planned, written and read again. -/
theorem sortPlan_written_chain : ∃ patcher out,
    InfoGroupSortPlan.apply ⟨[⟨1⟩, ⟨2⟩], true⟩ (.new (topicInput chainInfos).plugin)
        ((topicGroup chainInfos).locate 42) = .ok patcher ∧
      patcher.writeTo refuseInflate = .ok out ∧
      SortedIn id refuseInflate .sse .new sampleTopic (topicInput chainInfos)
        ((topicGroup chainInfos).locate 42) ⟨[⟨1⟩, ⟨2⟩], true⟩ patcher out := by
  have accepted := fromBytes_samplePlugin [topicGroup chainInfos] fits_chainInfos
  have found := findTopicGroup_topicInput chainInfos
  have planned : planInfoGroupSort id refuseInflate .new [topicInput chainInfos] "own.esp"
      sampleTopic = .ok (some ⟨[⟨1⟩, ⟨2⟩], true⟩) := by
    rw [plan_topicInput]
    exact eq_ok_of_toOption (by decide +kernel)
  have facts := sortPlan_written refuseInflate _ .sse id .new [topicInput chainInfos] "own.esp"
    sampleTopic (topicInput chainInfos, 0) _ _ accepted (selectTarget_topicInput chainInfos) found
    planned
  obtain ⟨patcher, applied⟩ := facts.1.mpr fun _ => ⟨rfl, by decide⟩
  obtain ⟨node, among, isNode⟩ := exists_of_findTopicGroup found
  have run : ReorderRun (samplePlugin [topicGroup chainInfos]) patcher := by
    rw [isNode] at applied
    exact reorderRun_apply among rfl applied
  have small : (samplePlugin [topicGroup chainInfos]).treeSize < 2 ^ 32 := by
    rw [Plugin.treeSize, Plugin.records_eq]
    decide
  have changed : InfoGroupSortPlan.changed ⟨[⟨1⟩, ⟨2⟩], true⟩ = true := rfl
  obtain ⟨range, _, _, _, same⟩ := (apply_changed changed patcher).mp (isNode ▸ applied)
  obtain ⟨header, made⟩ := exists_header_samplePlugin fits_chainInfos small patcher
    run.registered.1.attached (by rw [same]; rfl)
  obtain ⟨parts, whole, _⟩ := run.exists_parts accepted
  rw [made, ok_bind] at whole
  exact ⟨patcher, _, applied, whole, facts.2 patcher _ applied whole⟩

end Bethkit
