import Bethkit.Spec.References
import Bethkit.Spec.Sample
import Bethkit.Verif.HeaderPatch
import Bethkit.Verif.Spans

/-!
# The edges of a reference graph

The collection of a value appends the edges of its FormIDs, that of a record those of its decoded
fields, and a run those of every covered record. The null FormID names object zero of the first
file, which always resolves: every null FormID is an edge.
-/

namespace Bethkit

open Lib Layout

/-- The edge of a FormID from a record, resolved by a plugin. -/
def leafEdge (resolve : FormId → Option GlobalFormId) (source : GlobalFormId)
    (leaf : String × FormId) : Option ReferenceEdge :=
  (resolve leaf.2).map fun target => ⟨source, target, leaf.1⟩

section Collection

variable (resolve : FormId → Option GlobalFormId) (source : GlobalFormId)

mutual

/-- Collecting a value appends the edges of its FormIDs. -/
theorem collectReferences_eq (value : FieldValue) (path : String) (graph : ReferenceGraph) :
    collectReferences resolve source value path graph =
      graph ++ (value.formIdLeaves path).filterMap (leafEdge resolve source) := by
  cases value with
  | formId value _ =>
    unfold collectReferences FieldValue.formIdLeaves
    rw [List.filterMap_cons, leafEdge]
    cases resolve value with
    | none => simp
    | some target => rfl
  | struct values =>
    unfold collectReferences FieldValue.formIdLeaves
    exact collectMembers_eq values graph
  | array values =>
    unfold collectReferences FieldValue.formIdLeaves
    exact collectItems_eq path values 0 graph
  | _ => exact (List.append_nil graph).symm

/-- Collecting the members of a struct appends the edges of their FormIDs. -/
theorem collectMembers_eq (values : List NamedValue) (graph : ReferenceGraph) :
    collectMembers resolve source values graph =
      graph ++ (memberLeaves values).filterMap (leafEdge resolve source) := by
  match values with
  | [] => exact (List.append_nil graph).symm
  | .mk _ path _ _ _ value :: values =>
    unfold collectMembers memberLeaves
    rw [collectReferences_eq value path graph, collectMembers_eq values, List.filterMap_append,
      List.append_assoc]

/-- Collecting the items of an array appends the edges of their FormIDs. -/
theorem collectItems_eq (path : String) (values : List FieldValue) (index : Nat)
    (graph : ReferenceGraph) :
    collectItems resolve source path values index graph =
      graph ++ (itemLeaves path values index).filterMap (leafEdge resolve source) := by
  match values with
  | [] => exact (List.append_nil graph).symm
  | value :: values =>
    unfold collectItems itemLeaves
    rw [collectReferences_eq value _ graph, collectItems_eq path values, List.filterMap_append,
      List.append_assoc]

end

/-- Collecting the fields of a record appends the edges of their FormIDs. -/
theorem foldl_collectReferences (fields : List Field) (graph : ReferenceGraph) :
    fields.foldl (fun graph field =>
        collectReferences resolve source field.value field.path graph) graph =
      graph ++ (fields.flatMap fun field => field.value.formIdLeaves field.path).filterMap
        (leafEdge resolve source) := by
  induction fields generalizing graph with
  | nil => exact (List.append_nil graph).symm
  | cons field fields rest =>
    rw [List.foldl_cons, rest, collectReferences_eq, List.flatMap_cons, List.filterMap_append,
      List.append_assoc]

end Collection

section Runs

variable {toLowercase : Lowercase} {inflate : Inflate} {context : SemanticContext}
  {order : LoadOrder} {input : PluginInput} {graph extended : ReferenceGraph}

/-- A reference of a record whose own FormID resolves stands for the edge of its FormID. -/
theorem edge_eq_leafEdge {record : Record} {source : GlobalFormId} (leaf : String × FormId)
    (resolves : input.resolve toLowercase order record.header.formId = some source) :
    Reference.edge toLowercase order ⟨input, record.header.formId, leaf.1, leaf.2⟩ =
      leafEdge (input.resolve toLowercase order) source leaf := by
  rw [Reference.edge, resolves, leafEdge]
  cases input.resolve toLowercase order leaf.2 with
  | none => rfl
  | some target => rfl

/-- The references of a record stand for the edges of its FormIDs. -/
theorem filterMap_recordLeaves {record : Record} {source : GlobalFormId} {fields : List Field}
    (resolves : input.resolve toLowercase order record.header.formId = some source)
    (decodes : decodedFields inflate context input record = .ok fields) :
    (recordLeaves inflate context input record).filterMap (Reference.edge toLowercase order) =
      (fields.flatMap fun field => field.value.formIdLeaves field.path).filterMap
        (leafEdge (input.resolve toLowercase order) source) := by
  have edges : ∀ leaf : String × FormId,
      Reference.edge toLowercase order ⟨input, record.header.formId, leaf.1, leaf.2⟩ =
        leafEdge (input.resolve toLowercase order) source leaf :=
    fun leaf => edge_eq_leafEdge leaf resolves
  rw [recordLeaves, decodes]
  show (fields.flatMap fun field => _).filterMap _ = _
  rw [List.filterMap_flatMap, List.filterMap_flatMap]
  apply List.flatMap_congr
  intro field _
  rw [List.filterMap_map]
  exact List.filterMap_congr fun leaf _ => edges leaf

/-- A record appends the edges of its references if it is covered, and nothing otherwise. -/
theorem recordReferences_eq {record : Record}
    (collected : recordReferences toLowercase inflate context order input graph record =
      .ok extended) :
    extended = graph ++ (([record].filter (CoversRecord toLowercase context order input)).flatMap
      (recordLeaves inflate context input)).filterMap (Reference.edge toLowercase order) := by
  have skipped : CoversRecord toLowercase context order input record = false →
      graph = graph ++ (([record].filter (CoversRecord toLowercase context order input)).flatMap
        (recordLeaves inflate context input)).filterMap (Reference.edge toLowercase order) := by
    intro uncovered
    rw [List.filter_singleton, uncovered]
    exact (List.append_nil graph).symm
  unfold recordReferences at collected
  cases known : context.registry.get record.header.signature with
  | none =>
    rw [known] at collected
    have uncovered : CoversRecord toLowercase context order input record = false := by
      rw [CoversRecord, known]
      rfl
    exact (Except.ok.inj collected).symm.trans (skipped uncovered)
  | some schema =>
    rw [known] at collected
    cases resolves : input.resolve toLowercase order record.header.formId with
    | none =>
      rw [resolves] at collected
      have uncovered : CoversRecord toLowercase context order input record = false := by
        rw [CoversRecord, known, resolves]
        rfl
      exact (Except.ok.inj collected).symm.trans (skipped uncovered)
    | some source =>
      rw [resolves] at collected
      obtain ⟨fields, decodes, collected⟩ := bind_eq_ok.mp collected
      have covered : CoversRecord toLowercase context order input record = true := by
        rw [CoversRecord, known, resolves]
        rfl
      have appended := foldl_collectReferences (input.resolve toLowercase order) source fields graph
      rw [← Except.ok.inj collected, appended, List.filter_singleton, covered,
        ← filterMap_recordLeaves resolves decodes]
      exact congrArg (fun leaves => graph ++ List.filterMap _ leaves) (List.append_nil _).symm

/-- The records of a plugin append the edges of the references of the covered ones. -/
theorem foldlM_recordReferences {records : List Record}
    (collected : records.foldlM (recordReferences toLowercase inflate context order input) graph =
      .ok extended) :
    extended = graph ++ ((records.filter (CoversRecord toLowercase context order input)).flatMap
      (recordLeaves inflate context input)).filterMap (Reference.edge toLowercase order) := by
  induction records generalizing graph with
  | nil => exact (Except.ok.inj collected).symm.trans (List.append_nil graph).symm
  | cons record records rest =>
    rw [List.foldlM_cons] at collected
    obtain ⟨reached, first, collected⟩ := bind_eq_ok.mp collected
    have split : (record :: records).filter (CoversRecord toLowercase context order input) =
        [record].filter (CoversRecord toLowercase context order input) ++
          records.filter (CoversRecord toLowercase context order input) :=
      List.filter_append [record] records
    rw [rest collected, recordReferences_eq first, split, List.flatMap_append,
      List.filterMap_append, List.append_assoc]

/-- The edges of a graph are those of every reference of its covered records. -/
theorem buildReferenceGraph_eq {plugins : List PluginInput}
    (built : buildReferenceGraph toLowercase inflate context order plugins = .ok graph) :
    graph = (coveredReferences toLowercase inflate context order plugins).filterMap
      (Reference.edge toLowercase order) := by
  have run : ∀ (plugins : List PluginInput) (first last : ReferenceGraph),
      plugins.foldlM (fun graph input => input.plugin.records.foldlM
          (recordReferences toLowercase inflate context order input) graph) first = .ok last →
        last = first ++ (coveredReferences toLowercase inflate context order plugins).filterMap
          (Reference.edge toLowercase order) := by
    intro plugins
    induction plugins with
    | nil =>
      intro first last collected
      exact (Except.ok.inj collected).symm.trans (List.append_nil first).symm
    | cons plugin plugins rest =>
      intro first last collected
      rw [List.foldlM_cons] at collected
      obtain ⟨reached, head, collected⟩ := bind_eq_ok.mp collected
      rw [rest reached last collected, foldlM_recordReferences head, coveredReferences,
        coveredReferences, List.flatMap_cons, List.filterMap_append, List.append_assoc]
  exact run plugins [] graph built

/-- The null FormID resolves in every plugin: to the first master or to the plugin itself. -/
theorem exists_resolve_null {formId : FormId} (null : formId.isNull = true) :
    ∃ target, input.resolve toLowercase order formId = some target := by
  obtain rfl : formId = ⟨0⟩ := congrArg FormId.mk (eq_of_beq null)
  have light : ¬FormId.fileIndex ⟨0⟩ = 0xFE := by decide
  have first : (FormId.fileIndex ⟨0⟩).toNat = 0 := by decide
  rw [PluginInput.resolve, LoadOrder.resolve, if_neg light]
  by_cases inside : (FormId.fileIndex ⟨0⟩).toNat < input.plugin.masters.length
  · exact ⟨_, dif_pos inside⟩
  · have own : (FormId.fileIndex ⟨0⟩).toNat = input.plugin.masters.length := by omega
    exact ⟨_, (dif_neg inside).trans (if_pos own)⟩

/-- A null FormID of a covered record is an edge. -/
theorem exists_edge_null {plugins : List PluginInput} {reference : Reference}
    (covered : reference ∈ coveredReferences toLowercase inflate context order plugins)
    (null : reference.formId.isNull = true) :
    ∃ edge, reference.edge toLowercase order = some edge := by
  rw [coveredReferences, List.mem_flatMap] at covered
  obtain ⟨input, _, covered⟩ := covered
  obtain ⟨record, among, covered⟩ := List.mem_flatMap.mp covered
  have resolves := (Bool.and_eq_true _ _ ▸ (List.mem_filter.mp among).2).2
  obtain ⟨source, resolves⟩ := Option.isSome_iff_exists.mp resolves
  obtain ⟨field, _, held⟩ := List.mem_flatMap.mp covered
  obtain ⟨leaf, _, rfl⟩ := List.mem_map.mp held
  have resolved : ∃ target, input.resolve toLowercase order leaf.2 = some target :=
    exists_resolve_null null
  obtain ⟨target, found⟩ := resolved
  refine ⟨⟨source, target, leaf.1⟩, ?_⟩
  rw [edge_eq_leafEdge leaf resolves, leafEdge, found]
  rfl

end Runs

namespace Semantic.RecordView

variable {view : Semantic.RecordView} {payload current : Bytes} {frame : DecodeFrame}
  {state after : DecodeState} {decoded : Decoded}

/-- A decoded variant is one of the variants, and the union holds its value. -/
theorem exists_variant_of_decodeVariantAt {unionPath : String} {index position : Nat}
    {variants : List SchemaNode}
    (decodes : decodeVariantAt view payload unionPath index variants position current frame state =
      .ok (decoded, after)) :
    ∃ variant ∈ variants, ∃ inner reached,
      view.decodeNode payload variant current frame state = .ok (inner, reached) ∧
        inner.value = decoded.value := by
  induction variants generalizing position with
  | nil =>
    unfold decodeVariantAt at decodes
    cases decodes
  | cons variant variants rest =>
    cases position with
    | zero =>
      unfold decodeVariantAt at decodes
      obtain ⟨reached, inner, same⟩ := bind_eq_ok.mp decodes
      have value := congrArg (fun result => result.1.value) (Except.ok.inj same)
      exact ⟨variant, List.mem_cons_self, reached.1, reached.2, inner, value⟩
    | succ position =>
      unfold decodeVariantAt at decodes
      obtain ⟨selected, among, found⟩ := rest decodes
      exact ⟨selected, List.mem_cons_of_mem _ among, found⟩

/-- A finished union holds what the normalizers leave of the value of its body. -/
theorem applyNormalizers_of_finishNode {info : NodeInfo} {selector : UnionSelector}
    {variants : List SchemaNode} {inner : Decoded} {reached : DecodeState}
    (kept : view.retention.materializes = true)
    (finishes : view.finishNode (.union info selector variants) inner reached =
      .ok (decoded, after)) :
    view.context.applyNormalizers info.path view.record inner.value = .ok decoded.value := by
  unfold finishNode at finishes
  rw [kept] at finishes
  obtain ⟨normalized, normalizes, finishes⟩ := bind_eq_ok.mp finishes
  have value := congrArg (fun result => result.1.value) (Except.ok.inj finishes)
  exact normalizes.trans (congrArg Except.ok value)

/-- A decoded union that applies holds the normalized value of one of its variants. -/
theorem union_keepsVariant (info : NodeInfo) (selector : UnionSelector) (variants : List SchemaNode)
    (kept : view.retention.materializes = true)
    (decodes : view.decodeNode payload (.union info selector variants) current frame state =
      .ok (decoded, after)) :
    (view.nodeApplies (.union info selector variants) payload state.fieldValues = .ok false ∧
        decoded.value = .absent) ∨
      ∃ variant ∈ variants, ∃ inner reached,
        view.decodeNode payload variant current frame state = .ok (inner, reached) ∧
        view.context.applyNormalizers info.path view.record inner.value = .ok decoded.value := by
  unfold decodeNode guardNode at decodes
  obtain ⟨applies, condition, decodes⟩ := bind_eq_ok.mp decodes
  cases applies with
  | false =>
    have value := congrArg (fun result => result.1.value) (Except.ok.inj decodes)
    exact .inl ⟨condition, value.symm⟩
  | true =>
    obtain ⟨body, selects, finishes⟩ := bind_eq_ok.mp decodes
    obtain ⟨index, _, selects⟩ := bind_eq_ok.mp selects
    obtain ⟨variant, among, inner, reached, found, same⟩ :=
      exists_variant_of_decodeVariantAt selects
    have normalizes := applyNormalizers_of_finishNode kept finishes
    rw [← same] at normalizes
    exact .inr ⟨variant, among, inner, reached, found, normalizes⟩

end Semantic.RecordView

/-- Filtering before a partial map loses nothing exactly when what is filtered out maps to
nothing. -/
theorem filterMap_filter_eq_iff {α β : Type} (keep : α → Bool) (f : α → Option β) (items : List α) :
    items.filterMap f = (items.filter keep).filterMap f ↔
      ∀ item ∈ items, keep item = false → f item = none := by
  induction items with
  | nil => simp
  | cons item items rest =>
    rw [List.forall_mem_cons, ← rest]
    by_cases kept : keep item = true
    · rw [List.filter_cons_of_pos kept, List.filterMap_cons, List.filterMap_cons, kept]
      cases f item with
      | none => simp
      | some value => simp
    · rw [List.filter_cons_of_neg kept, List.filterMap_cons]
      have dropped : keep item = false := Bool.eq_false_of_not_eq_true kept
      cases f item with
      | none => simp
      | some value =>
        have shorter : ((items.filter keep).filterMap f).length ≤ (items.filterMap f).length :=
          ((List.filter_sublist).filterMap f).length_le
        constructor
        · intro same
          have lengths := congrArg List.length same
          rw [List.length_cons] at lengths
          omega
        · intro absent
          exact absurd (absent.1 dropped) (Option.some_ne_none value)

/-- The edges of a graph are exactly those of the non-null references, and unions lose nothing, if
and only if no decoded field of a covered record holds a null FormID. -/
theorem referenceGraph_exact_iff (toLowercase : Lowercase) (inflate : Inflate)
    (context : SemanticContext) (order : LoadOrder) (plugins : List PluginInput)
    (graph : ReferenceGraph)
    (built : buildReferenceGraph toLowercase inflate context order plugins = .ok graph) :
    (HasExactEdges toLowercase inflate context order plugins graph ∧ UnionsKeepVariants context) ↔
      ∀ reference ∈ coveredReferences toLowercase inflate context order plugins,
        reference.formId.isNull = false := by
  have unions : UnionsKeepVariants context := by
    intro view payload info selector variants current frame state after decoded of kept decodes
    rw [← of]
    exact view.union_keepsVariant info selector variants kept decodes
  rw [HasExactEdges, buildReferenceGraph_eq built, filterMap_filter_eq_iff]
  constructor
  · intro exact_ reference covered
    by_contra null
    have null : reference.formId.isNull = true := Bool.eq_true_of_not_eq_false null
    obtain ⟨edge, found⟩ := exists_edge_null covered null
    have lost := exact_.1 reference covered (by rw [null]; rfl)
    exact absurd (lost.symm.trans found) (Option.some_ne_none edge).symm
  · intro visible
    refine ⟨fun reference covered null => ?_, unions⟩
    rw [visible reference covered] at null
    cases null

/-- A subrecord with one FormID of the first file. -/
def referenceBlock (target : UInt8) : Bytes := [0x44, 0x41, 0x54, 0x41, 4, 0, target, 0, 0, 0]

/-- The subrecord fits the data of a record. -/
theorem length_referenceBlock_lt (target : UInt8) : (referenceBlock target).length < 2 ^ 32 :=
  show 10 < 2 ^ 32 by omega

/-- The subrecord could carry the size of a compressed block. -/
theorem le_length_referenceBlock (target : UInt8) : 4 ≤ (referenceBlock target).length :=
  show 4 ≤ 10 by omega

/-- A record with the subrecord. -/
def referenceRecord (target : UInt8) : RawRecord :=
  { sampleRecord 1 with
    block := referenceBlock target
    sized := length_referenceBlock_lt target
    compressed := fun _ => le_length_referenceBlock target }

/-- The group of the record. -/
def referenceGroups (target : UInt8) : List TopGroup :=
  [⟨sampleHead 0 .normal, [.leaf (referenceRecord target)]⟩]

/-- A package with a FormID in its records. -/
def referenceContext : SemanticContext :=
  .sample [⟨.EDID, "sample", .sequence (.plain 0 "EDID") [.subrecord (.plain 1 "EDID/DATA") .DATA
    (.primitive (.plain 2 "EDID/DATA/value") (.formId []))]⟩] [] []

/-- A plugin with the record. -/
def referenceInput (target : UInt8) : PluginInput :=
  ⟨"own.esp", samplePlugin (referenceGroups target)⟩

/-- The plugin is the parsed file of the group. -/
theorem fromBytes_referencePlugin (target : UInt8) :
    Plugin.fromBytes refuseInflate (File.encode ⟨sampleHeader, referenceGroups target⟩) .sse =
      .ok (referenceInput target).plugin := by
  apply fromBytes_samplePlugin
  simp [referenceGroups, File.Fits, TopGroup.toNode, referenceRecord, referenceBlock]

/-- The record of the plugin. -/
theorem records_referencePlugin (target : UInt8) :
    (referenceInput target).plugin.records = [(referenceRecord target).locate 66] := by
  have header : sampleHeader.encode.length = 42 := by decide
  rw [Plugin.records_eq, referenceInput, samplePlugin, File.locateGroups,
    TopGroup.toChild_locateAll, header]
  rfl

/-- The references of the plugin. -/
theorem coveredReferences_referencePlugin (target : UInt8) :
    (coveredReferences id refuseInflate referenceContext .new [referenceInput target]) =
      ([(referenceRecord target).locate 66].filter
        (CoversRecord id referenceContext .new (referenceInput target))).flatMap
          (recordLeaves refuseInflate referenceContext (referenceInput target)) := by
  rw [coveredReferences, List.flatMap_singleton, records_referencePlugin]

/-- The graph of a record that refers to itself is exact. -/
theorem referenceGraph_exact_self :
    (HasExactEdges id refuseInflate referenceContext .new [referenceInput 1]
        [⟨⟨"own.esp", 1⟩, ⟨"own.esp", 1⟩, "EDID/DATA"⟩] ∧
      UnionsKeepVariants referenceContext) ↔
        ∀ reference ∈ coveredReferences id refuseInflate referenceContext .new [referenceInput 1],
          reference.formId.isNull = false := by
  apply referenceGraph_exact_iff
  rw [buildReferenceGraph, List.foldlM_cons, records_referencePlugin]
  exact eq_ok_of_toOption (by decide +kernel)

/-- A plugin whose record holds a null FormID: the graph has an edge to object zero of the plugin
itself, and its edges are not those of the references that are not null. -/
theorem not_exactEdges_nullReference :
    Plugin.fromBytes refuseInflate (File.encode ⟨sampleHeader, referenceGroups 0⟩) .sse =
        .ok (referenceInput 0).plugin ∧
      buildReferenceGraph id refuseInflate referenceContext .new [referenceInput 0] =
        .ok [⟨⟨"own.esp", 1⟩, ⟨"own.esp", 0⟩, "EDID/DATA"⟩] ∧
      ¬HasExactEdges id refuseInflate referenceContext .new [referenceInput 0]
        [⟨⟨"own.esp", 1⟩, ⟨"own.esp", 0⟩, "EDID/DATA"⟩] := by
  refine ⟨fromBytes_referencePlugin 0, ?_, ?_⟩
  · rw [buildReferenceGraph, List.foldlM_cons, records_referencePlugin]
    exact eq_ok_of_toOption (by decide +kernel)
  · rw [HasExactEdges, coveredReferences_referencePlugin]
    decide +kernel

end Bethkit
