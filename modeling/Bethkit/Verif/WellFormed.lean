import Bethkit.Lib.Outcome
import Bethkit.Spec.WellFormed
import Bethkit.Verif.NodeIndex

/-!
# Loading accepts exactly the well-formed packages

The checks of a tree of nodes are the checks of its nodes one after the other, in pre-order and with
their depth; what they have seen is then a list, and that no node is seen twice is that the list has no
duplicates. The other checks run over lists in the same way.
-/

namespace Bethkit

open Lib

section Texts

variable {limits : SchemaLoadLimits}

/-- A text is accepted if it is not too long. -/
theorem validateString_eq_ok {text : String} :
    validateString limits.maximumStringBytes text = .ok () ↔ Sized limits text := by
  rw [validateString, Sized, ite_error_eq_ok, not_lt]
  exact and_iff_left rfl

/-- A text is checked before the rest. -/
theorem validateString_bind_eq_ok {α : Type} {text : String} {rest : Except SchemaError α}
    {value : α} :
    (validateString limits.maximumStringBytes text >>= fun _ => rest) = .ok value ↔
      Sized limits text ∧ rest = .ok value := by
  rw [bind_eq_ok]
  exact ⟨fun known => known.elim fun _ both => ⟨validateString_eq_ok.mp both.1, both.2⟩,
    fun both => ⟨(), validateString_eq_ok.mpr both.1, both.2⟩⟩

end Texts

namespace SchemaNode

/-- The nodes of a tree are its root and those of its children. -/
theorem nodes_eq (node : SchemaNode) : node.nodes = node :: (routedFrom 0 node.children).map Prod.snd := by
  rw [nodes, routed_eq, List.map_cons]

/-- A tree has a node. -/
theorem nodes_ne_nil (node : SchemaNode) : node.nodes ≠ [] := by
  rw [nodes_eq]
  exact List.cons_ne_nil _ _

/-- The nodes of a tree are those within it. -/
theorem mem_nodes {root node : SchemaNode} : node ∈ root.nodes ↔ Within root node := by
  rw [← exists_routed_iff, nodes, List.mem_map]
  constructor
  · rintro ⟨routed, among, rfl⟩
    exact ⟨routed.1, among⟩
  · rintro ⟨route, among⟩
    exact ⟨(route, node), among, rfl⟩

end SchemaNode

section Nodes

variable {limits : SchemaLoadLimits}

/-- Check nodes one after the other. -/
def scanNodes (limits : SchemaLoadLimits) (depth : Nat) (scan : NodeScan)
    (routed : List (List Nat × SchemaNode)) : Except SchemaError NodeScan :=
  routed.foldlM (fun scan entry => validateNodeHead limits entry.2 (depth + entry.1.length) scan) scan

/-- Nodes below a child are one level deeper. -/
theorem scanNodes_below (depth index : Nat) (scan : NodeScan) (routed : List (List Nat × SchemaNode)) :
    scanNodes limits depth scan (routed.map (Prod.map (index :: ·) id)) =
      scanNodes limits (depth + 1) scan routed := by
  rw [scanNodes, List.foldlM_map, scanNodes]
  congr 1
  funext scan entry
  simp only [Prod.map, List.length_cons, id_eq]
  congr 1
  omega

/-- The nodes of children are checked child by child. -/
theorem scanNodes_children {children : List SchemaNode} {depth : Nat}
    (each : ∀ child ∈ children, ∀ scan,
      validateNode limits child (depth + 1) scan = scanNodes limits (depth + 1) scan child.routed)
    (index : Nat) (scan : NodeScan) :
    validateNodes limits children (depth + 1) scan =
      scanNodes limits depth scan (routedFrom index children) := by
  induction children generalizing index scan with
  | nil => rfl
  | cons child children ih =>
    rw [List.forall_mem_cons] at each
    rw [validateNodes, routedFrom, scanNodes, List.foldlM_append, ← scanNodes, scanNodes_below,
      each.1]
    congr 1
    funext scan
    exact ih each.2 (index + 1) scan

/-- A tree is checked by checking its nodes in pre-order. -/
theorem validateNode_eq_scanNodes (node : SchemaNode) : ∀ depth scan,
    validateNode limits node depth scan = scanNodes limits depth scan node.routed := by
  induction node using SchemaNode.ofChildren with
  | step node below =>
    intro depth scan
    have children := scanNodes_children (fun child among => below child among (depth + 1)) 0
    have head : scanNodes limits depth scan node.routed = (do
        let scan ← validateNodeHead limits node depth scan
        scanNodes limits depth scan (routedFrom 0 node.children)) := by
      rw [SchemaNode.routed_eq]
      rfl
    rw [head]
    cases node with
    | «repeat» | subrecord | array | compressed | terminated =>
      rw [validateNode]
      congr 1
      funext scan
      rw [← children]
      exact (bind_pure _).symm
    | primitive | custom | reference =>
      rw [validateNode]
      simp only [SchemaNode.children, routedFrom, scanNodes, List.foldlM_nil, bind_pure]
    | _ =>
      rw [validateNode]
      congr 1
      funext scan
      exact children scan

/-- What the checks have seen after some more nodes. -/
def NodeScan.extend (scan : NodeScan) (nodes : List SchemaNode) : NodeScan where
  nodeCount := scan.nodeCount + nodes.length
  nodeIds := (nodes.map (·.id)).reverse ++ scan.nodeIds
  paths := (nodes.map (·.path)).reverse ++ scan.paths

/-- Nodes that pass the checks behind others. -/
structure Scanned (limits : SchemaLoadLimits) (depth : Nat) (scan : NodeScan)
    (routed : List (List Nat × SchemaNode)) : Prop where
  /-- They are not too deep. -/
  depth : ∀ entry ∈ routed, depth + entry.1.length ≤ limits.maximumDepth
  /-- They are not too many. -/
  count : routed ≠ [] → scan.nodeCount + routed.length ≤ limits.maximumNodes
  /-- Their identifiers are different from each other and from those seen. -/
  nodeIds : (routed.map (·.2.id)).Nodup ∧ ∀ entry ∈ routed, entry.2.id ∉ scan.nodeIds
  /-- Their paths are different from each other and from those seen. -/
  paths : (routed.map (·.2.path)).Nodup ∧ ∀ entry ∈ routed, entry.2.path ∉ scan.paths
  /-- Each is in order. -/
  admissible : ∀ entry ∈ routed, entry.2.Admissible limits

/-- One node passes the checks. -/
theorem validateNodeHead_eq_ok {node : SchemaNode} {depth : Nat} {scan after : NodeScan} :
    validateNodeHead limits node depth scan = .ok after ↔
      depth ≤ limits.maximumDepth ∧ scan.nodeCount + 1 ≤ limits.maximumNodes ∧
        node.id ∉ scan.nodeIds ∧ node.path ∉ scan.paths ∧ node.Admissible limits ∧
        after = scan.extend [node] := by
  rw [validateNodeHead]
  by_cases deep : limits.maximumDepth < depth
  · simp [deep, limitExceeded]
  by_cases many : limits.maximumNodes < scan.nodeCount + 1
  · simp only [deep, many, limitExceeded, ↓reduceIte, reduceCtorEq, false_iff]
    rintro ⟨_, room, _⟩
    omega
  by_cases known : node.id ∈ scan.nodeIds
  · simp [deep, many, known, invalidGraph]
  by_cases used : node.path ∈ scan.paths
  · simp [deep, many, known, used, invalidGraph]
  by_cases blank : trimIsEmpty node.path = true
  · have unnamed : ¬node.Admissible limits := fun admissible => by
      rw [admissible.path.1] at blank
      cases blank
    simp [deep, many, known, used, blank, invalidGraph, unnamed]
  · have filled : trimIsEmpty node.path = false := by simpa using blank
    simp only [deep, many, known, used, filled, List.contains_eq_mem, decide_false, Bool.false_eq_true,
      ↓reduceIte, validateString_bind_eq_ok]
    constructor
    · rintro ⟨path, name, rest⟩
      obtain ⟨_, kind, same⟩ := bind_eq_ok.mp rest
      exact ⟨not_lt.mp deep, not_lt.mp many, not_false, not_false, ⟨⟨filled, path⟩, name, kind⟩,
        (Except.ok.inj same).symm⟩
    · rintro ⟨_, _, _, _, admissible, rfl⟩
      exact ⟨admissible.path.2, admissible.name, bind_eq_ok.mpr ⟨(), admissible.kind, rfl⟩⟩

/-- Nodes pass the checks one after the other. -/
theorem scanNodes_eq_ok {depth : Nat} {scan after : NodeScan}
    {routed : List (List Nat × SchemaNode)} :
    scanNodes limits depth scan routed = .ok after ↔
      Scanned limits depth scan routed ∧ after = scan.extend (routed.map Prod.snd) := by
  induction routed generalizing scan with
  | nil =>
    have same : scan.extend [] = scan := rfl
    constructor
    · intro done
      obtain rfl := Except.ok.inj done
      exact ⟨⟨by simp, by simp, by simp, by simp, by simp⟩, rfl⟩
    · rintro ⟨_, rfl⟩
      rfl
  | cons entry routed ih =>
    have step : scanNodes limits depth scan (entry :: routed) = .ok after ↔
        ∃ middle, validateNodeHead limits entry.2 (depth + entry.1.length) scan = .ok middle ∧
          scanNodes limits depth middle routed = .ok after := by
      rw [scanNodes, List.foldlM_cons, bind_eq_ok]
      rfl
    have merged : (scan.extend [entry.2]).extend (routed.map Prod.snd) =
        scan.extend ((entry :: routed).map Prod.snd) := by
      simp only [NodeScan.extend, List.map_cons, List.map_nil, List.length_cons, List.length_nil,
        List.reverse_cons, List.append_assoc]
      congr 1
      omega
    rw [step]
    constructor
    · rintro ⟨middle, first, rest⟩
      obtain ⟨shallow, room, newId, newPath, admissible, rfl⟩ := validateNodeHead_eq_ok.mp first
      obtain ⟨scanned, rfl⟩ := ih.mp rest
      have idsApart : ∀ other ∈ routed, other.2.id ≠ entry.2.id ∧ other.2.id ∉ scan.nodeIds := by
        intro other among
        have apart := scanned.nodeIds.2 other among
        simpa [NodeScan.extend] using apart
      have pathsApart : ∀ other ∈ routed, other.2.path ≠ entry.2.path ∧
          other.2.path ∉ scan.paths := by
        intro other among
        have apart := scanned.paths.2 other among
        simpa [NodeScan.extend] using apart
      refine ⟨⟨List.forall_mem_cons.mpr ⟨shallow, scanned.depth⟩, fun _ => ?_, ⟨?_, ?_⟩, ⟨?_, ?_⟩,
        List.forall_mem_cons.mpr ⟨admissible, scanned.admissible⟩⟩, merged⟩
      · by_cases last : routed = []
        · rw [last]
          exact room
        · have count := scanned.count last
          simp only [NodeScan.extend, List.length_singleton] at count
          rw [List.length_cons]
          omega
      · rw [List.map_cons, List.nodup_cons]
        refine ⟨fun again => ?_, scanned.nodeIds.1⟩
        obtain ⟨other, among, same⟩ := List.mem_map.mp again
        exact (idsApart other among).1 same
      · exact List.forall_mem_cons.mpr ⟨newId, fun other among => (idsApart other among).2⟩
      · rw [List.map_cons, List.nodup_cons]
        refine ⟨fun again => ?_, scanned.paths.1⟩
        obtain ⟨other, among, same⟩ := List.mem_map.mp again
        exact (pathsApart other among).1 same
      · exact List.forall_mem_cons.mpr ⟨newPath, fun other among => (pathsApart other among).2⟩
    · rintro ⟨scanned, rfl⟩
      have depths := List.forall_mem_cons.mp scanned.depth
      have count := scanned.count (List.cons_ne_nil _ _)
      have ids := List.nodup_cons.mp scanned.nodeIds.1
      have paths := List.nodup_cons.mp scanned.paths.1
      have newIds := List.forall_mem_cons.mp scanned.nodeIds.2
      have newPaths := List.forall_mem_cons.mp scanned.paths.2
      have admissible := List.forall_mem_cons.mp scanned.admissible
      rw [List.length_cons] at count
      refine ⟨scan.extend [entry.2], validateNodeHead_eq_ok.mpr
        ⟨depths.1, by omega, newIds.1, newPaths.1, admissible.1, rfl⟩, ih.mpr
        ⟨⟨depths.2, fun _ => ?_, ⟨ids.2, ?_⟩, ⟨paths.2, ?_⟩, admissible.2⟩, merged.symm⟩⟩
      · simp only [NodeScan.extend, List.length_singleton]
        omega
      · intro other among seen
        simp only [NodeScan.extend, List.map_cons, List.map_nil, List.reverse_singleton,
          List.singleton_append, List.mem_cons] at seen
        rcases seen with same | old
        · exact ids.1 (List.mem_map.mpr ⟨other, among, same⟩)
        · exact newIds.2 other among old
      · intro other among seen
        simp only [NodeScan.extend, List.map_cons, List.map_nil, List.reverse_singleton,
          List.singleton_append, List.mem_cons] at seen
        rcases seen with same | old
        · exact paths.1 (List.mem_map.mpr ⟨other, among, same⟩)
        · exact newPaths.2 other among old

end Nodes

section Lists

variable {limits : SchemaLoadLimits}

/-- One condition function passes its checks behind another. -/
theorem validateConditionFunctions_cons {function : ConditionFunction}
    {functions : List ConditionFunction} {previousIndex : Option Int32} :
    validateConditionFunctions limits (function :: functions) previousIndex = .ok () ↔
      (∀ previous, previousIndex = some previous → previous < function.index) ∧
        function.Admissible limits ∧
        validateConditionFunctions limits functions (some function.index) = .ok () := by
  rw [validateConditionFunctions]
  by_cases negative : function.index < 0
  · have refused : ¬function.Admissible limits := fun admissible =>
      absurd admissible.index (Int32.not_le.mpr negative)
    simp [negative, refused, invalidGraph]
  by_cases behind : previousIndex.any (function.index ≤ ·) = true
  · have refused : ¬∀ previous, previousIndex = some previous → previous < function.index := by
      obtain ⟨previous, same, late⟩ := (Option.any_eq_true _ _).mp behind
      exact fun all => absurd (all previous same) (Int32.not_lt.mpr (of_decide_eq_true late))
    simp [negative, behind, refused, invalidGraph]
  by_cases blank : trimIsEmpty function.name = true
  · have refused : ¬function.Admissible limits := fun admissible => by
      rw [admissible.name.1] at blank
      cases blank
    simp [negative, behind, blank, refused, invalidGraph]
  have ahead : ∀ previous, previousIndex = some previous → previous < function.index := by
    intro previous same
    rw [same] at behind
    exact Int32.not_le.mp (by simpa using behind)
  have filled : trimIsEmpty function.name = false := by simpa using blank
  simp only [negative, behind, filled, Bool.false_eq_true, ↓reduceIte, validateString_bind_eq_ok]
  constructor
  · rintro ⟨name, description, rest⟩
    split at rest
    · cases rest
    · rename_i aliasable
      exact ⟨ahead, ⟨Int32.not_lt.mp negative, ⟨filled, name⟩, description,
        by simpa using aliasable⟩, rest⟩
  · rintro ⟨_, admissible, rest⟩
    refine ⟨admissible.name.2, admissible.description, ?_⟩
    rw [admissible.aliasable]
    exact rest

/-- Condition functions are accepted if their indexes ascend and each is in order. -/
theorem validateConditionFunctions_eq_ok {functions : List ConditionFunction}
    {previousIndex : Option Int32} :
    validateConditionFunctions limits functions previousIndex = .ok () ↔
      (∀ previous, previousIndex = some previous → ∀ function ∈ functions,
        previous < function.index) ∧
      (functions.map (·.index)).Pairwise (· < ·) ∧
      ∀ function ∈ functions, function.Admissible limits := by
  induction functions generalizing previousIndex with
  | nil => simp [validateConditionFunctions]
  | cons function functions ih =>
    rw [validateConditionFunctions_cons, ih, List.map_cons, List.pairwise_cons, List.forall_mem_cons]
    constructor
    · rintro ⟨ahead, admissible, behind, ascending, others⟩
      have first := behind function.index rfl
      refine ⟨fun previous same other among => ?_, ⟨?_, ascending⟩, admissible, others⟩
      · rcases List.mem_cons.mp among with rfl | later
        · exact ahead previous same
        · exact Int32.lt_trans (ahead previous same) (first other later)
      · intro index among
        obtain ⟨other, later, rfl⟩ := List.mem_map.mp among
        exact first other later
    · rintro ⟨ahead, ⟨first, ascending⟩, admissible, others⟩
      refine ⟨fun previous same => ahead previous same function List.mem_cons_self, admissible,
        fun previous same other later => ?_, ascending, others⟩
      obtain rfl := Option.some.inj same
      exact first other.index (List.mem_map.mpr ⟨other, later, rfl⟩)

/-- A table of condition functions is accepted if it is well formed. -/
theorem validateConditionFunctionTable_eq_ok {table : Option ConditionFunctionTable} :
    validateConditionFunctionTable limits table = .ok () ↔
      ∀ known, table = some known → known.WellFormed limits := by
  cases table with
  | none => simp [validateConditionFunctionTable]
  | some table =>
    have only : (∀ known, some table = some known → known.WellFormed limits) ↔
        table.WellFormed limits :=
      ⟨fun all => all table rfl, fun known _ same => Option.some.inj same ▸ known⟩
    rw [only, validateConditionFunctionTable]
    by_cases apart : table.aliasVariant.isSome ≠ table.packdataVariant.isSome
    · have refused : ¬table.WellFormed limits := fun known => apart known.variants
      simp [apart, refused, invalidGraph]
    by_cases many : limits.maximumConditionFunctions < table.functions.length
    · have refused : ¬table.WellFormed limits := fun known =>
        absurd known.count (not_le.mpr many)
      simp only [apart, many, refused, limitExceeded, ↓reduceIte, reduceCtorEq]
    rw [if_neg apart, if_neg many, validateConditionFunctions_eq_ok]
    constructor
    · rintro ⟨_, ascending, functions⟩
      exact ⟨not_not.mp apart, not_lt.mp many, ascending, functions⟩
    · intro known
      exact ⟨by simp, known.ascending, known.functions⟩

/-- Required decoders are accepted if they are named. -/
theorem validateRequiredDecoders_eq_ok {decoders : List DecoderRequirement} :
    SchemaPackage.validateRequiredDecoders limits decoders = .ok () ↔
      ∀ decoder ∈ decoders, Named limits decoder.id := by
  induction decoders with
  | nil => simp [SchemaPackage.validateRequiredDecoders]
  | cons decoder decoders ih =>
    rw [List.forall_mem_cons, ← ih, SchemaPackage.validateRequiredDecoders, Named]
    cases blank : trimIsEmpty decoder.id with
    | true => simp [invalidGraph]
    | false =>
      simp only [Bool.false_eq_true, ↓reduceIte, validateString_bind_eq_ok, true_and]

/-- Required handlers are accepted if they are named and have a version. -/
theorem validateRequiredHandlers_eq_ok {handlers : List HandlerRequirement} :
    SchemaPackage.validateRequiredHandlers limits handlers = .ok () ↔
      ∀ handler ∈ handlers, Named limits handler.id ∧ handler.minimumVersion ≠ 0 := by
  induction handlers with
  | nil => simp [SchemaPackage.validateRequiredHandlers]
  | cons handler handlers ih =>
    rw [List.forall_mem_cons, ← ih, SchemaPackage.validateRequiredHandlers, Named]
    cases blank : trimIsEmpty handler.id with
    | true => simp [invalidGraph]
    | false =>
      by_cases zero : handler.minimumVersion = 0
      · simp [zero, invalidGraph]
      · simp only [zero, Bool.false_eq_true, decide_false, Bool.or_self, ↓reduceIte,
          validateString_bind_eq_ok, true_and, ne_eq, not_false_eq_true, and_true]

/-- Callback bindings are accepted if their keys are different and each is in order. -/
theorem validateCallbackBindings_eq_ok {decoders : List DecoderRequirement}
    {handlers : List HandlerRequirement} {bindings : List CallbackBinding}
    {keys : List (String × String × Option UInt32)} :
    validateCallbackBindings decoders handlers limits bindings keys = .ok () ↔
      (bindings.map (·.key)).Nodup ∧ (∀ binding ∈ bindings, binding.key ∉ keys) ∧
        ∀ binding ∈ bindings, binding.Admissible decoders handlers limits := by
  induction bindings generalizing keys with
  | nil => simp [validateCallbackBindings]
  | cons binding bindings ih =>
    have step : validateCallbackBindings decoders handlers limits (binding :: bindings) keys =
        .ok () ↔ binding.Admissible decoders handlers limits ∧ binding.key ∉ keys ∧
          validateCallbackBindings decoders handlers limits bindings (binding.key :: keys) =
            .ok () := by
      rw [validateCallbackBindings]
      simp only [validateString_bind_eq_ok]
      by_cases blank : (trimIsEmpty binding.path || trimIsEmpty binding.callbackId) = true
      · have refused : ¬binding.Admissible decoders handlers limits := fun admissible => by
          rw [admissible.path.1, admissible.callbackId.1] at blank
          cases blank
        simp [blank, refused, invalidGraph]
      by_cases digest : isFingerprint binding.implementationFingerprint = true
      · by_cases known : (keys.contains (binding.path, binding.callbackId, binding.callbackSlot)) = true
        · have again : binding.key ∈ keys := by simpa [CallbackBinding.key] using known
          simp only [blank, digest, known, again, invalidGraph, Bool.not_true, Bool.false_eq_true,
            ↓reduceIte, reduceCtorEq, and_false, not_true_eq_false, false_and]
        · have fresh : binding.key ∉ keys := by simpa [CallbackBinding.key] using known
          have filled : trimIsEmpty binding.path = false ∧ trimIsEmpty binding.callbackId = false := by
            simpa using blank
          rw [if_neg blank, digest, if_neg (by simp), if_neg known]
          constructor
          · rintro ⟨path, callbackId, sized, rest⟩
            obtain ⟨_, implementation, rest⟩ := bind_eq_ok.mp rest
            exact ⟨⟨⟨filled.1, path⟩, ⟨filled.2, callbackId⟩, sized, digest, implementation⟩, fresh,
              rest⟩
          · rintro ⟨admissible, _, rest⟩
            exact ⟨admissible.path.2, admissible.callbackId.2, admissible.fingerprintSized,
              bind_eq_ok.mpr ⟨(), admissible.implementation, rest⟩⟩
      · have refused : ¬binding.Admissible decoders handlers limits :=
          fun admissible => digest admissible.fingerprint
        simp [blank, digest, refused, invalidGraph]
    rw [step, ih, List.map_cons, List.nodup_cons, List.forall_mem_cons, List.forall_mem_cons]
    constructor
    · rintro ⟨admissible, fresh, distinct, unused, others⟩
      refine ⟨⟨fun again => ?_, distinct⟩, ⟨fresh, fun other among seen =>
        unused other among (List.mem_cons_of_mem _ seen)⟩, admissible, others⟩
      obtain ⟨other, among, same⟩ := List.mem_map.mp again
      exact unused other among (same ▸ List.mem_cons_self)
    · rintro ⟨⟨apart, distinct⟩, ⟨fresh, unused⟩, admissible, others⟩
      refine ⟨admissible, fresh, distinct, fun other among seen => ?_, others⟩
      rcases List.mem_cons.mp seen with same | old
      · exact apart (List.mem_map.mpr ⟨other, among, same⟩)
      · exact unused other among old

/-- Lists of trees pass the selector checks if their nodes do. -/
theorem validateAllSelectorBindings_eq_ok {bindings : List CallbackBinding}
    {children : List SchemaNode}
    (each : ∀ child ∈ children, validateSemanticSelectorBindings bindings child = .ok () ↔
      ∀ node ∈ child.nodes, validateSelectorBinding bindings node = .ok ()) :
    validateAllSelectorBindings bindings children = .ok () ↔
      ∀ node ∈ children.flatMap SchemaNode.nodes, validateSelectorBinding bindings node = .ok () := by
  induction children with
  | nil => simp [validateAllSelectorBindings]
  | cons child children ih =>
    rw [List.forall_mem_cons] at each
    rw [validateAllSelectorBindings, bind_eq_ok, List.flatMap_cons, List.forall_mem_append, ← each.1,
      ← ih each.2]
    exact ⟨fun known => known.elim fun _ both => both, fun both => ⟨(), both⟩⟩

/-- The nodes of children, child by child. -/
theorem map_routedFrom (index : Nat) (children : List SchemaNode) :
    (routedFrom index children).map Prod.snd = children.flatMap SchemaNode.nodes := by
  induction children generalizing index with
  | nil => rfl
  | cons child children ih =>
    rw [routedFrom, List.map_append, ih, List.flatMap_cons, List.map_map, SchemaNode.nodes]
    rfl

/-- A tree passes the selector checks if its nodes do. -/
theorem validateSemanticSelectorBindings_eq_ok {bindings : List CallbackBinding} (node : SchemaNode) :
    validateSemanticSelectorBindings bindings node = .ok () ↔
      ∀ below ∈ node.nodes, validateSelectorBinding bindings below = .ok () := by
  induction node using SchemaNode.ofChildren with
  | step node below =>
    have children := validateAllSelectorBindings_eq_ok below
    rw [SchemaNode.nodes_eq, List.forall_mem_cons, map_routedFrom, ← children]
    cases node with
    | «repeat» | subrecord | array | compressed | terminated =>
      rw [validateSemanticSelectorBindings, bind_eq_ok]
      simp only [SchemaNode.children, validateAllSelectorBindings, bind_eq_ok]
      exact ⟨fun known => known.elim fun _ both => ⟨both.1, (), both.2, trivial⟩,
        fun both => ⟨(), both.1, both.2.elim fun _ rest => rest.1⟩⟩
    | primitive | custom | reference =>
      rw [validateSemanticSelectorBindings]
      simp only [SchemaNode.children, validateAllSelectorBindings, and_true]
    | _ =>
      rw [validateSemanticSelectorBindings, bind_eq_ok]
      exact ⟨fun known => known.elim fun _ both => both, fun both => ⟨(), both⟩⟩

/-- Record schemas are accepted if their signatures are different, their names and expressions are in
order and their nodes pass the checks one after the other. -/
theorem validateRecords_eq_ok {records : List SchemaRecord} {signatures : List Signature}
    {scan : NodeScan} :
    SchemaPackage.validateRecords limits records signatures scan = .ok () ↔
      (records.map (·.signature)).Nodup ∧ (∀ record ∈ records, record.signature ∉ signatures) ∧
        (∀ record ∈ records, Sized limits record.name ∧
          record.root.validateExpressionFieldOrder limits.maximumStringBytes [] = .ok ()) ∧
        Scanned limits 1 scan (records.flatMap (·.root.routed)) := by
  induction records generalizing signatures scan with
  | nil =>
    simp only [SchemaPackage.validateRecords, List.map_nil, List.nodup_nil, List.not_mem_nil,
      false_implies, implies_true, List.flatMap_nil, true_and, true_iff]
    have scanned : scanNodes limits 1 scan [] = .ok (scan.extend []) := rfl
    exact (scanNodes_eq_ok.mp scanned).1
  | cons record records ih =>
    have split : Scanned limits 1 scan ((record :: records).flatMap (·.root.routed)) ↔
        Scanned limits 1 scan record.root.routed ∧
          Scanned limits 1 (scan.extend record.root.nodes) (records.flatMap (·.root.routed)) := by
      have both {routed : List (List Nat × SchemaNode)} {from' : NodeScan} :
          Scanned limits 1 from' routed ↔ ∃ after, scanNodes limits 1 from' routed = .ok after :=
        ⟨fun known => ⟨_, scanNodes_eq_ok.mpr ⟨known, rfl⟩⟩,
          fun known => known.elim fun _ done => (scanNodes_eq_ok.mp done).1⟩
      rw [both, List.flatMap_cons, scanNodes, List.foldlM_append]
      constructor
      · rintro ⟨after, done⟩
        obtain ⟨middle, first, rest⟩ := bind_eq_ok.mp done
        obtain ⟨scanned, rfl⟩ := scanNodes_eq_ok.mp first
        exact ⟨scanned, both.mpr ⟨after, rest⟩⟩
      · rintro ⟨first, rest⟩
        obtain ⟨after, done⟩ := both.mp rest
        exact ⟨after, bind_eq_ok.mpr ⟨_, scanNodes_eq_ok.mpr ⟨first, rfl⟩, done⟩⟩
    have step : SchemaPackage.validateRecords limits (record :: records) signatures scan = .ok () ↔
        record.signature ∉ signatures ∧ Sized limits record.name ∧
          Scanned limits 1 scan record.root.routed ∧
          record.root.validateExpressionFieldOrder limits.maximumStringBytes [] = .ok () ∧
          SchemaPackage.validateRecords limits records (record.signature :: signatures)
            (scan.extend record.root.nodes) = .ok () := by
      rw [SchemaPackage.validateRecords]
      by_cases known : record.signature ∈ signatures
      · simp [known, invalidGraph]
      · simp only [known, List.contains_eq_mem, decide_false, Bool.false_eq_true, ↓reduceIte,
          validateString_bind_eq_ok, not_false_eq_true, true_and]
        constructor
        · rintro ⟨name, rest⟩
          obtain ⟨middle, nodes, rest⟩ := bind_eq_ok.mp rest
          rw [validateNode_eq_scanNodes] at nodes
          obtain ⟨scanned, rfl⟩ := scanNodes_eq_ok.mp nodes
          obtain ⟨_, order, rest⟩ := bind_eq_ok.mp rest
          exact ⟨name, scanned, order, rest⟩
        · rintro ⟨name, scanned, order, rest⟩
          refine ⟨name, bind_eq_ok.mpr ⟨scan.extend record.root.nodes, ?_,
            bind_eq_ok.mpr ⟨(), order, rest⟩⟩⟩
          rw [validateNode_eq_scanNodes]
          exact scanNodes_eq_ok.mpr ⟨scanned, rfl⟩
    rw [step, ih, split, List.map_cons, List.nodup_cons, List.forall_mem_cons, List.forall_mem_cons]
    constructor
    · rintro ⟨fresh, name, scanned, order, distinct, unused, others, rest⟩
      refine ⟨⟨fun again => ?_, distinct⟩, ⟨fresh, fun other among seen =>
        unused other among (List.mem_cons_of_mem _ seen)⟩, ⟨⟨name, order⟩, others⟩, scanned, rest⟩
      obtain ⟨other, among, same⟩ := List.mem_map.mp again
      exact unused other among (same ▸ List.mem_cons_self)
    · rintro ⟨⟨apart, distinct⟩, ⟨fresh, unused⟩, ⟨⟨name, order⟩, others⟩, scanned, rest⟩
      refine ⟨fresh, name, scanned, order, distinct, fun other among seen => ?_, others, rest⟩
      rcases List.mem_cons.mp seen with same | old
      · exact apart (List.mem_map.mpr ⟨other, among, same⟩)
      · exact unused other among old

end Lists

section Packages

variable {limits : SchemaLoadLimits} {payload : PackagePayload}

/-- The nodes of a package with the routes within their trees. -/
def PackagePayload.routed (payload : PackagePayload) : List (List Nat × SchemaNode) :=
  payload.records.flatMap (·.root.routed)

/-- The nodes of a package without their routes. -/
theorem PackagePayload.map_routed (payload : PackagePayload) :
    payload.routed.map Prod.snd = payload.nodes := by
  rw [routed, nodes, List.map_flatMap]
  rfl

/-- The nodes of a package pass the checks if the package is well formed in its nodes. -/
theorem scanned_empty_iff :
    Scanned limits 1 .empty payload.routed ↔
      (∀ record ∈ payload.records, record.root.WithinDepth limits.maximumDepth) ∧
        payload.nodes.length ≤ limits.maximumNodes ∧ (payload.nodes.map (·.id)).Nodup ∧
        (payload.nodes.map (·.path)).Nodup ∧ ∀ node ∈ payload.nodes, node.Admissible limits := by
  have ids : payload.routed.map (·.2.id) = payload.nodes.map (·.id) := by
    rw [← payload.map_routed, List.map_map]
    rfl
  have paths : payload.routed.map (·.2.path) = payload.nodes.map (·.path) := by
    rw [← payload.map_routed, List.map_map]
    rfl
  have count : payload.routed.length = payload.nodes.length := by
    rw [← payload.map_routed, List.length_map]
  have start : NodeScan.empty.nodeCount = 0 := rfl
  have each : (∀ entry ∈ payload.routed, entry.2.Admissible limits) ↔
      ∀ node ∈ payload.nodes, node.Admissible limits := by
    rw [← payload.map_routed, List.forall_mem_map]
  have depths : (∀ entry ∈ payload.routed, 1 + entry.1.length ≤ limits.maximumDepth) ↔
      ∀ record ∈ payload.records, record.root.WithinDepth limits.maximumDepth := by
    simp only [PackagePayload.routed, List.mem_flatMap, SchemaNode.WithinDepth]
    exact ⟨fun all record among entry found => by
        have deep := all entry ⟨record, among, found⟩
        omega,
      fun all entry known => known.elim fun record found => by
        have deep := all record found.1 entry found.2
        omega⟩
  constructor
  · intro scanned
    refine ⟨depths.mp scanned.depth, ?_, ids ▸ scanned.nodeIds.1, paths ▸ scanned.paths.1,
      each.mp scanned.admissible⟩
    by_cases none : payload.routed = []
    · rw [← count, none]
      exact Nat.zero_le _
    · have room := scanned.count none
      rwa [count, start, Nat.zero_add] at room
  · rintro ⟨deep, room, differentIds, differentPaths, admissible⟩
    refine ⟨depths.mpr deep, fun _ => ?_, ⟨ids ▸ differentIds, ?_⟩, ⟨paths ▸ differentPaths, ?_⟩,
      each.mpr admissible⟩
    · rwa [count, start, Nat.zero_add]
    · exact fun _ _ => List.not_mem_nil
    · exact fun _ _ => List.not_mem_nil

/-- What is left to check of a package behind the checks of its manifest. -/
def restOfChecks (payload : PackagePayload) (limits : SchemaLoadLimits) : Except SchemaError Unit := do
  validateConditionFunctionTable limits payload.conditionFunctionTable
  SchemaPackage.validateRecords limits payload.records [] .empty
  SchemaPackage.validateRequiredDecoders limits payload.manifest.requiredDecoders
  SchemaPackage.validateRequiredHandlers limits payload.manifest.requiredHandlers
  validateCallbackBindings payload.manifest.requiredDecoders payload.manifest.requiredHandlers limits
    payload.callbackBindings []
  validateAllSelectorBindings payload.callbackBindings (payload.records.map (·.root))

/-- The checks of the manifest come before the others. -/
theorem validate_eq_ok :
    SchemaPackage.validate payload limits = .ok () ↔
      payload.manifest.formatVersion = packageFormatVersion ∧
        ¬(payload.manifest.validationStatus = .approved ∧ payload.manifest.byteCoverage < 1.0) ∧
        payload.manifest.callbacksClassified = payload.manifest.callbacksTotal ∧
        payload.callbackBindings.length = payload.manifest.callbacksTotal.toNat ∧
        payload.records.length ≤ limits.maximumRecords ∧ restOfChecks payload limits = .ok () := by
  simp only [SchemaPackage.validate]
  by_cases version : payload.manifest.formatVersion ≠ packageFormatVersion
  · simp [version]
  by_cases uncovered : payload.manifest.validationStatus = .approved ∧
      payload.manifest.byteCoverage < 1.0
  · rw [if_neg version, if_pos uncovered]
    simp only [uncovered, invalidGraph, Except.mapError, reduceCtorEq, and_self, not_true_eq_false,
      false_and, and_false]
  by_cases unclassified : payload.manifest.callbacksClassified ≠ payload.manifest.callbacksTotal
  · rw [if_neg version, if_neg uncovered, if_pos unclassified]
    simp [unclassified, invalidGraph, Except.mapError]
  by_cases miscounted :
      payload.callbackBindings.length ≠ payload.manifest.callbacksTotal.toNat
  · rw [if_neg version, if_neg uncovered, if_neg unclassified, if_pos miscounted]
    simp [miscounted, invalidGraph, Except.mapError]
  by_cases many : limits.maximumRecords < payload.records.length
  · rw [if_neg version, if_neg uncovered, if_neg unclassified, if_neg miscounted, if_pos many]
    simp [not_le.mpr many, limitExceeded, Except.mapError]
  rw [if_neg version, if_neg uncovered, if_neg unclassified, if_neg miscounted, if_neg many,
    mapError_eq_ok]
  exact ⟨fun rest => ⟨not_not.mp version, uncovered, not_not.mp unclassified, not_not.mp miscounted,
    not_lt.mp many, rest⟩, fun known => known.2.2.2.2.2⟩

/-- The selector callbacks of a package are checked node by node. -/
theorem selectors_iff :
    validateAllSelectorBindings payload.callbackBindings (payload.records.map (·.root)) = .ok () ↔
      ∀ node ∈ payload.nodes,
        validateSelectorBinding payload.callbackBindings node = .ok () := by
  have roots : payload.nodes = (payload.records.map (·.root)).flatMap SchemaNode.nodes := by
    rw [PackagePayload.nodes, List.flatMap_map]
  rw [roots]
  exact validateAllSelectorBindings_eq_ok fun child _ => validateSemanticSelectorBindings_eq_ok child

/-- The record schemas of a package are checked schema by schema and node by node. -/
theorem records_iff :
    SchemaPackage.validateRecords limits payload.records [] .empty = .ok () ↔
      (payload.records.map (·.signature)).Nodup ∧
        (∀ record ∈ payload.records, Sized limits record.name ∧
          record.root.validateExpressionFieldOrder limits.maximumStringBytes [] = .ok ()) ∧
        Scanned limits 1 .empty payload.routed := by
  rw [validateRecords_eq_ok]
  exact ⟨fun known => ⟨known.1, known.2.2⟩,
    fun known => ⟨known.1, fun _ _ => List.not_mem_nil, known.2⟩⟩

/-- A package that passes the checks is well formed. -/
theorem wellFormed_of_validate (valid : SchemaPackage.validate payload limits = .ok ()) :
    payload.WellFormed limits := by
  obtain ⟨version, coverage, classified, counted, few, done⟩ := validate_eq_ok.mp valid
  obtain ⟨_, table, done⟩ := bind_eq_ok.mp done
  obtain ⟨_, schemas, done⟩ := bind_eq_ok.mp done
  obtain ⟨_, decoders, done⟩ := bind_eq_ok.mp done
  obtain ⟨_, handlers, done⟩ := bind_eq_ok.mp done
  obtain ⟨_, bindings, selectors⟩ := bind_eq_ok.mp done
  obtain ⟨signatures, each, scanned⟩ := records_iff.mp schemas
  obtain ⟨depth, count, ids, paths, nodes⟩ := scanned_empty_iff.mp scanned
  obtain ⟨keys, _, admissible⟩ := validateCallbackBindings_eq_ok.mp bindings
  exact {
    formatVersion := version
    coverage := coverage
    classified := classified
    bindingCount := counted
    recordCount := few
    table := validateConditionFunctionTable_eq_ok.mp table
    signatures := signatures
    names := fun record among => (each record among).1
    depth := depth
    nodeCount := count
    nodeIds := ids
    paths := paths
    nodes := nodes
    fieldOrder := fun record among => (each record among).2
    decoders := validateRequiredDecoders_eq_ok.mp decoders
    handlers := validateRequiredHandlers_eq_ok.mp handlers
    bindingKeys := keys
    bindings := admissible
    selectors := selectors_iff.mp selectors }

/-- A well-formed package passes the checks. -/
theorem validate_of_wellFormed (known : payload.WellFormed limits) :
    SchemaPackage.validate payload limits = .ok () := by
  have schemas := records_iff.mpr ⟨known.signatures,
    fun record among => ⟨known.names record among, known.fieldOrder record among⟩,
    scanned_empty_iff.mpr
      ⟨known.depth, known.nodeCount, known.nodeIds, known.paths, known.nodes⟩⟩
  have bindings := validateCallbackBindings_eq_ok.mpr
    ⟨known.bindingKeys, fun _ _ => List.not_mem_nil, known.bindings⟩
  exact validate_eq_ok.mpr ⟨known.formatVersion, known.coverage, known.classified,
    known.bindingCount, known.recordCount,
    bind_eq_ok.mpr ⟨(), validateConditionFunctionTable_eq_ok.mpr known.table,
    bind_eq_ok.mpr ⟨(), schemas,
    bind_eq_ok.mpr ⟨(), validateRequiredDecoders_eq_ok.mpr known.decoders,
    bind_eq_ok.mpr ⟨(), validateRequiredHandlers_eq_ok.mpr known.handlers,
    bind_eq_ok.mpr ⟨(), bindings, selectors_iff.mpr known.selectors⟩⟩⟩⟩⟩⟩

/-- A package passes the checks of loading if and only if it is well formed. -/
theorem validate_iff_wellFormed :
    SchemaPackage.validate payload limits = .ok () ↔ payload.WellFormed limits :=
  ⟨wellFormed_of_validate, validate_of_wellFormed⟩

end Packages

end Bethkit
