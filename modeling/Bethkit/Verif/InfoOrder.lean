import Bethkit.Lib.Outcome
import Bethkit.Spec.InfoOrder
import Bethkit.Verif.HeaderPatch

/-!
# Infos are placed behind their predecessors

The recursion of the sorting places a node behind the last version of its predecessor once this one
has been placed. It fails only when it comes back to a node that it is about to place, which is a
cycle; otherwise the placed nodes are an arrangement, in which every node follows its predecessor.
-/

namespace Bethkit

open Lib Layout

/-- The table of last versions holds the last node of every info. -/
theorem lookup_latestByIdentity {nodes : List InfoNode} {identity : GlobalFormId} {index : Nat} :
    (latestByIdentity nodes).lookup identity = some index ↔ IsLatest nodes identity index := by
  induction nodes using List.reverseRecOn generalizing index with
  | nil =>
    constructor
    · intro found
      cases found
    · intro latest
      obtain ⟨node, stands, _⟩ := latest.1
      cases stands
  | append_singleton nodes last rest =>
    have table : latestByIdentity (nodes ++ [last]) =
        (latestByIdentity nodes).insert last.identity nodes.length := by
      unfold latestByIdentity
      rw [List.zipIdx_append, List.foldl_append, Nat.zero_add]
      rfl
    have lastStands : (nodes ++ [last])[nodes.length]? = some last := by
      rw [List.getElem?_append_right (Nat.le_refl _), Nat.sub_self]
      rfl
    rw [table]
    by_cases same : identity = last.identity
    · subst same
      rw [AList.lookup_insert, Option.some.injEq]
      constructor
      · intro isLast
        subst isLast
        refine ⟨⟨last, lastStands, rfl⟩, ?_⟩
        intro later node behind stands
        rw [List.getElem?_eq_none (by rw [List.length_append, List.length_singleton]; omega)]
          at stands
        cases stands
      · intro latest
        obtain ⟨⟨node, stands, _⟩, final⟩ := latest
        have bound := (List.getElem?_eq_some_iff.mp stands).1
        rw [List.length_append, List.length_singleton] at bound
        by_cases early : index < nodes.length
        · exact absurd rfl (final nodes.length last early lastStands)
        · omega
    · rw [AList.lookup_insert_ne same, rest]
      constructor
      · intro latest
        obtain ⟨⟨node, stands, known⟩, final⟩ := latest
        have bound := (List.getElem?_eq_some_iff.mp stands).1
        refine ⟨⟨node, by rw [List.getElem?_append_left bound]; exact stands, known⟩, ?_⟩
        intro later other behind found
        by_cases early : later < nodes.length
        · rw [List.getElem?_append_left early] at found
          exact final later other behind found
        · have bounded := (List.getElem?_eq_some_iff.mp found).1
          rw [List.length_append, List.length_singleton] at bounded
          have isLast : later = nodes.length := by omega
          rw [isLast, lastStands] at found
          cases found
          exact Ne.symm same
      · intro latest
        obtain ⟨⟨node, stands, known⟩, final⟩ := latest
        have early : index < nodes.length := by
          have bound := (List.getElem?_eq_some_iff.mp stands).1
          rw [List.length_append, List.length_singleton] at bound
          by_cases isLast : index = nodes.length
          · rw [isLast, lastStands] at stands
            cases stands
            exact absurd known.symm same
          · omega
        rw [List.getElem?_append_left early] at stands
        refine ⟨⟨node, stands, known⟩, ?_⟩
        intro later other behind found
        have bound := (List.getElem?_eq_some_iff.mp found).1
        exact final later other behind (by rw [List.getElem?_append_left bound]; exact found)

/-- Where the sorting places nodes. -/
def infoPlacement (nodes : List InfoNode) : Placement Nat where
  parent index := (nodes[index]?.bind (·.previous)).bind (latestByIdentity nodes).lookup
  front index := nodes[index]?.any fun node => node.previous.isSome || node.hasPreviousField

/-- The parents are the nodes pointed to. -/
theorem infoPlacement_parent {nodes : List InfoNode} {index target : Nat} :
    (infoPlacement nodes).parent index = some target ↔ PointsTo nodes index target := by
  show (nodes[index]?.bind (·.previous)).bind (latestByIdentity nodes).lookup = some target ↔ _
  rw [Option.bind_eq_some_iff]
  constructor
  · intro found
    obtain ⟨identity, named, latest⟩ := found
    obtain ⟨node, stands, named⟩ := Option.bind_eq_some_iff.mp named
    exact ⟨node, identity, stands, named, lookup_latestByIdentity.mp latest⟩
  · intro points
    obtain ⟨node, identity, stands, named, latest⟩ := points
    exact ⟨identity, Option.bind_eq_some_iff.mpr ⟨node, stands, named⟩,
      lookup_latestByIdentity.mpr latest⟩

/-- A node that is pointed to is in range. -/
theorem PointsTo.lt {nodes : List InfoNode} {index target : Nat} (points : PointsTo nodes index target) :
    index < nodes.length ∧ target < nodes.length := by
  obtain ⟨node, identity, stands, _, ⟨latest, held, _⟩, _⟩ := points
  exact ⟨(List.getElem?_eq_some_iff.mp stands).1, (List.getElem?_eq_some_iff.mp held).1⟩

/-- The state of the recursion is that of a sequence of placements. -/
structure InfoOrder.Simulates (order : InfoOrder) (nodes : List InfoNode) (placed : List Nat) :
    Prop where
  /-- The placed nodes are those of the sequence. -/
  ordered : order.ordered = (infoPlacement nodes).attachAll [] placed
  /-- They are marked. -/
  marked : ∀ index, order.state[index]? = some .placed ↔ index ∈ placed
  /-- Every node has a state. -/
  length : order.state.length = nodes.length
  /-- Predecessors come first. -/
  orderly : (infoPlacement nodes).Orderly [] placed

namespace InfoOrder.Simulates

variable {nodes : List InfoNode} {order : InfoOrder} {placed : List Nat}

/-- The placed nodes, in order. -/
theorem perm (simulates : order.Simulates nodes placed) : order.ordered.Perm placed := by
  rw [simulates.ordered]
  exact Placement.attachAll_perm simulates.orderly

/-- They are an arrangement. -/
theorem arranged (simulates : order.Simulates nodes placed) :
    (infoPlacement nodes).Arranged order.ordered := by
  rw [simulates.ordered]
  exact Placement.Arranged.attachAll (.nil _) simulates.orderly

/-- A node that has not been reached is marked as being visited. -/
theorem mark (simulates : order.Simulates nodes placed) {index : Nat}
    (fresh : order.state[index]? = some .unvisited) :
    (order.mark index .visiting).Simulates nodes placed where
  ordered := simulates.ordered
  marked position := by
    show (order.state.set index .visiting)[position]? = some .placed ↔ _
    rw [← simulates.marked position, List.getElem?_set]
    by_cases here : index = position
    · subst here
      rw [if_pos rfl, fresh]
      by_cases inside : index < order.state.length
      · rw [if_pos inside]
        simp
      · rw [if_neg inside]
        simp
    · rw [if_neg here]
  length := by
    show (order.state.set index .visiting).length = _
    rw [List.length_set, simulates.length]
  orderly := simulates.orderly

/-- A node that is ready is placed. -/
theorem place (simulates : order.Simulates nodes placed) {index insertion : Nat}
    (inside : index < nodes.length) (fresh : index ∉ placed)
    (ready : ∀ target, PointsTo nodes index target → target ∈ placed)
    (inserted : order.ordered.insertIdx (min insertion order.ordered.length) index =
      (infoPlacement nodes).attach order.ordered index) :
    (order.place index insertion).Simulates nodes (placed ++ [index]) where
  ordered := by
    have absent : order.without index = order.ordered := by
      have none : order.ordered.findIdx? (· = index) = none := by
        rw [List.findIdx?_eq_none_iff]
        intro other among
        have differs : other ≠ index := by
          intro same
          exact fresh (same ▸ simulates.perm.mem_iff.mp among)
        simpa using differs
      unfold without
      rw [none]
    show (order.without index).insertIdx (min insertion (order.without index).length) index = _
    rw [absent, inserted, simulates.ordered]
    unfold Placement.attachAll
    rw [List.foldl_append]
    rfl
  marked position := by
    show (order.state.set index .placed)[position]? = some .placed ↔ _
    rw [List.getElem?_set, List.mem_append, List.mem_singleton]
    by_cases here : index = position
    · subst here
      rw [if_pos rfl, if_pos (simulates.length ▸ inside)]
      simp
    · rw [if_neg here, simulates.marked position]
      have apart : position ≠ index := Ne.symm here
      simp [apart]
  length := by
    show (order.state.set index .placed).length = _
    rw [List.length_set, simulates.length]
  orderly := by
    refine Placement.orderly_append.mpr ⟨simulates.orderly, ?_, trivial⟩
    have elements : ∀ element, element ∈ (infoPlacement nodes).attachAll [] placed ↔
        element ∈ placed := fun element =>
      (Placement.attachAll_perm simulates.orderly).mem_iff
    refine ⟨fun among => fresh ((elements index).mp among), ?_⟩
    intro target above
    exact (elements target).mpr (ready target (infoPlacement_parent.mp above))

end InfoOrder.Simulates

/-- How many nodes have not been reached. -/
def InfoOrder.unreached (order : InfoOrder) : Nat := order.state.count .unvisited

/-- A node that is being visited has been reached. -/
theorem InfoOrder.unreached_mark {order : InfoOrder} {index : Nat}
    (fresh : order.state[index]? = some .unvisited) :
    (order.mark index .visiting).unreached + 1 = order.unreached := by
  obtain ⟨inside, stands⟩ := List.getElem?_eq_some_iff.mp fresh
  have positive : 0 < order.state.count .unvisited :=
    List.count_pos_iff.mpr (List.mem_of_getElem? fresh)
  show (order.state.set index .visiting).count .unvisited + 1 = order.state.count .unvisited
  rw [List.count_set inside, stands]
  simp
  omega

/-- What a visit of a node leads to: the placements of the abstract visit, or the report of a
cycle. -/
inductive Visits (nodes : List InfoNode) (order : InfoOrder) (index : Nat) (placed : List Nat) :
    Except SemanticError InfoOrder → Prop where
  /-- The node and its predecessors have been placed. -/
  | placed (next : InfoOrder) (simulates : next.Simulates nodes placed) (among : index ∈ placed)
      (visiting : ∀ other : Nat, next.state[other]? = some VisitState.visiting ↔
        order.state[other]? = some VisitState.visiting) : Visits nodes order index placed (.ok next)
  /-- A cycle has been found. -/
  | cyclic (identity : GlobalFormId) (cycle : HasCycle nodes) :
      Visits nodes order index placed (.error (cyclicChain identity))

/-- A visit of a node that all nodes being visited lead to. -/
theorem insertInfoNode_visits {nodes : List InfoNode} {fuel index : Nat} {order : InfoOrder}
    {placed : List Nat} (simulates : order.Simulates nodes placed) (inside : index < nodes.length)
    (enough : order.unreached < fuel)
    (leads : ∀ other : Nat, order.state[other]? = some .visiting →
      Relation.TransGen (PointsTo nodes) other index) :
    Visits nodes order index ((infoPlacement nodes).visit fuel placed index)
      (insertInfoNode nodes (latestByIdentity nodes) fuel index order) := by
  induction fuel generalizing index order placed with
  | zero => omega
  | succ fuel rest =>
    have node : nodes[index]? = some nodes[index] := List.getElem?_eq_getElem inside
    have stateInside : index < order.state.length := by
      rw [simulates.length]
      exact inside
    have state : order.state[index]? = some order.state[index] :=
      List.getElem?_eq_getElem stateInside
    unfold insertInfoNode Placement.visit
    rw [node, state]
    cases reached : order.state[index] with
    | placed =>
      have among : index ∈ placed := (simulates.marked index).mp (by rw [state, reached])
      rw [if_pos among]
      exact .placed order simulates among fun _ => Iff.rfl
    | visiting =>
      exact .cyclic _ ⟨index, leads index (by rw [state, reached])⟩
    | unvisited =>
      rw [reached] at state
      have fresh : index ∉ placed := by
        intro among
        rw [(simulates.marked index).mpr among] at state
        cases state
      rw [if_neg fresh]
      have marked := simulates.mark state
      have counted := InfoOrder.unreached_mark state
      -- Placing the node takes it from the visited ones, to which it had been added.
      have settled : ∀ (next : InfoOrder) (insertion : Nat),
          (∀ other : Nat, next.state[other]? = some VisitState.visiting ↔
            (order.mark index .visiting).state[other]? = some VisitState.visiting) →
          ∀ other : Nat, (next.place index insertion).state[other]? = some VisitState.visiting ↔
            order.state[other]? = some VisitState.visiting := by
        intro next insertion visiting other
        show (next.state.set index .placed)[other]? = _ ↔ _
        rw [List.getElem?_set]
        by_cases here : index = other
        · rw [← here, if_pos rfl, state]
          by_cases bounded : index < next.state.length
          · rw [if_pos bounded]
            simp
          · rw [if_neg bounded]
            simp
        · rw [if_neg here, visiting other]
          show (order.state.set index .visiting)[other]? = _ ↔ _
          rw [List.getElem?_set_ne here]
      cases above : (infoPlacement nodes).parent index with
      | some target =>
        have points := infoPlacement_parent.mp above
        obtain ⟨own, identity, stands, named, latest⟩ := points
        rw [node] at stands
        cases stands
        have towards : ∀ other : Nat, (order.mark index .visiting).state[other]? = some .visiting →
            Relation.TransGen (PointsTo nodes) other target := by
          intro other visiting
          have step := infoPlacement_parent.mp above
          by_cases here : index = other
          · rw [← here]
            exact .single step
          · have before : order.state[other]? = some .visiting := by
              rw [← visiting]
              exact (List.getElem?_set_ne here).symm
            exact (leads other before).tail step
        have inner := rest marked (infoPlacement_parent.mp above).lt.2 (by omega) towards
        show Visits nodes order index ((infoPlacement nodes).visit fuel placed target ++ [index]) _
        dsimp only
        rw [named]
        dsimp only
        rw [lookup_latestByIdentity.mpr latest]
        dsimp only
        generalize insertInfoNode nodes (latestByIdentity nodes) fuel target
          (order.mark index .visiting) = outcome at inner ⊢
        cases inner with
        | cyclic identity cycle => exact .cyclic identity cycle
        | placed next simulated among visiting =>
          have stillVisiting : next.state[index]? = some .visiting := by
            rw [visiting index]
            exact List.getElem?_set_self stateInside
          have later : index ∉ (infoPlacement nodes).visit fuel placed target := by
            intro member
            rw [(simulated.marked index).mpr member] at stillVisiting
            cases stillVisiting
          rw [ok_bind]
          have present : target ∈ next.ordered := simulated.perm.mem_iff.mpr among
          cases found : next.ordered.findIdx? (· = target) with
          | none =>
            have absent := List.findIdx?_eq_none_iff.mp found target present
            simp at absent
          | some position =>
            have bound : position < next.ordered.length :=
              (List.findIdx?_eq_some_iff_findIdx_eq.mp found).1
            have least : min (position + 1) next.ordered.length = position + 1 := by omega
            refine .placed _ (simulated.place inside later ?_ ?_) ?_ (settled next _ visiting)
            · intro other points
              have same := infoPlacement_parent.mpr points
              rw [above] at same
              cases same
              exact among
            · rw [least, insertIdx_eq_insertBehind found]
              unfold Placement.attach
              rw [above]
            · exact List.mem_append_right _ (List.mem_singleton.mpr rfl)
      | none =>
        have root : ∀ target, ¬PointsTo nodes index target := by
          intro target points
          rw [infoPlacement_parent.mpr points] at above
          cases above
        have placing : ∀ insertion,
            (order.mark index .visiting).ordered.insertIdx
                (min insertion (order.mark index .visiting).ordered.length) index =
              (infoPlacement nodes).attach order.ordered index →
            Visits nodes order index (placed ++ [index])
              (.ok ((order.mark index .visiting).place index insertion)) := by
          intro insertion inserted
          exact .placed _ (marked.place inside fresh (fun target points => absurd points (root target))
            inserted) (List.mem_append_right _ (List.mem_singleton.mpr rfl))
            (settled _ _ fun _ => Iff.rfl)
        have attached : (infoPlacement nodes).attach order.ordered index =
            if nodes[index].previous.isSome || nodes[index].hasPreviousField then
              index :: order.ordered else order.ordered ++ [index] := by
          unfold Placement.attach
          rw [above]
          show (if nodes[index]?.any _ = true then _ else _) = _
          rw [node]
          rfl
        have first : (order.mark index .visiting).ordered.insertIdx
            (min 0 (order.mark index .visiting).ordered.length) index = index :: order.ordered := by
          rw [Nat.zero_min]
          rfl
        have final : (order.mark index .visiting).ordered.insertIdx
            (min (order.mark index .visiting).ordered.length
              (order.mark index .visiting).ordered.length) index = order.ordered ++ [index] := by
          rw [Nat.min_self]
          exact List.insertIdx_length_self
        dsimp only
        cases named : nodes[index].previous with
        | some identity =>
          have unknown : (latestByIdentity nodes).lookup identity = none := by
            cases latest : (latestByIdentity nodes).lookup identity with
            | none => rfl
            | some target =>
              exact absurd ⟨_, identity, node, named, lookup_latestByIdentity.mp latest⟩ (root target)
          dsimp only
          rw [unknown]
          apply placing
          rw [first, attached, named]
          rfl
        | none =>
          dsimp only
          cases field : nodes[index].hasPreviousField with
          | true =>
            apply placing
            rw [first, attached, named, field]
            rfl
          | false =>
            apply placing
            rw [final, attached, named, field]
            rfl

/-- The sequence in which the nodes are placed. -/
def placedSequence (nodes : List InfoNode) (indices : List Nat) : List Nat :=
  indices.foldl ((infoPlacement nodes).visit (nodes.length + 1)) []

/-- What the visits of some nodes lead to. -/
theorem foldlM_insertInfoNode {nodes : List InfoNode} {indices : List Nat} {order : InfoOrder}
    {placed : List Nat} (inside : ∀ index ∈ indices, index < nodes.length)
    (simulates : order.Simulates nodes placed)
    (idle : ∀ other : Nat, order.state[other]? ≠ some .visiting) :
    (∃ identity, indices.foldlM (fun order index => insertInfoNode nodes (latestByIdentity nodes)
        (nodes.length + 1) index order) order = .error (cyclicChain identity) ∧ HasCycle nodes) ∨
      ∃ next, indices.foldlM (fun order index => insertInfoNode nodes (latestByIdentity nodes)
          (nodes.length + 1) index order) order = .ok next ∧
        next.Simulates nodes (indices.foldl ((infoPlacement nodes).visit (nodes.length + 1)) placed) ∧
        ∀ index ∈ indices,
          index ∈ indices.foldl ((infoPlacement nodes).visit (nodes.length + 1)) placed := by
  induction indices generalizing order placed with
  | nil => exact Or.inr ⟨order, rfl, simulates, fun _ among => absurd among List.not_mem_nil⟩
  | cons index indices rest =>
    have bounded : order.unreached < nodes.length + 1 := by
      have atMost := List.count_le_length (a := VisitState.unvisited) (l := order.state)
      rw [simulates.length] at atMost
      exact Nat.lt_succ_of_le atMost
    have first := insertInfoNode_visits simulates (inside index List.mem_cons_self) bounded
      fun other visiting => absurd visiting (idle other)
    rw [List.foldlM_cons, List.foldl_cons]
    generalize insertInfoNode nodes (latestByIdentity nodes) (nodes.length + 1) index order =
      outcome at first ⊢
    cases first with
    | cyclic identity cycle => exact Or.inl ⟨identity, rfl, cycle⟩
    | placed next simulated among visiting =>
      have calm : ∀ other : Nat, next.state[other]? ≠ some .visiting := fun other found =>
        idle other ((visiting other).mp found)
      have later := rest (fun other member => inside other (List.mem_cons_of_mem _ member))
        simulated calm
      rw [ok_bind]
      rcases later with cycle | ⟨last, outcome, ends, all⟩
      · exact Or.inl cycle
      · refine Or.inr ⟨last, outcome, ends, ?_⟩
        intro other member
        rcases List.mem_cons.mp member with rfl | member
        · exact ((infoPlacement nodes).prefix_visitAll _ _ indices).subset among
        · exact all other member

/-- Before the first visit nothing has been placed. -/
theorem simulates_start (nodes : List InfoNode) :
    InfoOrder.Simulates ⟨List.replicate nodes.length .unvisited, []⟩ nodes [] where
  ordered := rfl
  marked index := by
    have absent : (List.replicate nodes.length VisitState.unvisited)[index]? ≠ some .placed := by
      intro found
      have same := List.eq_of_mem_replicate (List.mem_of_getElem? found)
      cases same
    simp [absent]
  length := List.length_replicate
  orderly := trivial

/-- Before the first visit no node is being visited. -/
theorem idle_start (count other : Nat) :
    (List.replicate count VisitState.unvisited)[other]? ≠ some .visiting := by
  intro found
  have same := List.eq_of_mem_replicate (List.mem_of_getElem? found)
  cases same

/-- Either a cycle is found, or all nodes are arranged in the sequence of their visits. -/
theorem orderInfoNodes_cases (nodes : List InfoNode) :
    (∃ identity, orderInfoNodes nodes = .error (cyclicChain identity) ∧ HasCycle nodes) ∨
      ∃ ordered, orderInfoNodes nodes = .ok ordered ∧
        ordered = (infoPlacement nodes).attachAll []
          (placedSequence nodes (List.range nodes.length)) ∧
        (infoPlacement nodes).Orderly [] (placedSequence nodes (List.range nodes.length)) ∧
        ordered.Perm (List.range nodes.length) := by
  have bounds : ∀ index ∈ List.range nodes.length, index < nodes.length := fun index among =>
    List.mem_range.mp among
  unfold orderInfoNodes
  rcases foldlM_insertInfoNode bounds (simulates_start nodes) (idle_start nodes.length) with
    ⟨identity, failed, cycle⟩ | ⟨last, outcome, ends, all⟩
  · rw [failed]
    exact Or.inl ⟨identity, rfl, cycle⟩
  · rw [outcome]
    refine Or.inr ⟨last.ordered, rfl, ends.ordered, ends.orderly, ?_⟩
    apply (List.perm_ext_iff_of_nodup ends.arranged.nodup List.nodup_range).mpr
    intro index
    rw [ends.perm.mem_iff]
    constructor
    · intro among
      have stands := (ends.marked index).mpr among
      have bound := (List.getElem?_eq_some_iff.mp stands).1
      rw [ends.length] at bound
      exact List.mem_range.mpr bound
    · exact all index

/-- Arranged nodes have no cycle. -/
theorem not_hasCycle_of_arranged {nodes : List InfoNode} {ordered : List Nat}
    (arranged : (infoPlacement nodes).Arranged ordered)
    (complete : ordered.Perm (List.range nodes.length)) : ¬HasCycle nodes := by
  rintro ⟨index, cycle⟩
  have climbs : Relation.TransGen (infoPlacement nodes).Climbs index index :=
    Relation.TransGen.mono (fun _ _ points => infoPlacement_parent.mpr points) index index cycle
  have inside : index < nodes.length := by
    obtain ⟨next, first, _⟩ := Relation.TransGen.head'_iff.mp cycle
    exact first.lt.1
  exact arranged.acyclic (complete.mem_iff.mpr (List.mem_range.mpr inside)) climbs

/-! ## The records of the target -/

/-- The nodes of the walk: those of earlier plugins, then one for every record of the target. -/
structure EndsWith (nodes : List InfoNode) (pluginIndex : Nat) (group : Group) : Prop where
  /-- The nodes in two parts. -/
  split : ∃ earlier own, nodes = earlier ++ own ∧
    (∀ node ∈ earlier, node.pluginIndex ≠ pluginIndex) ∧
    (∀ node ∈ own, node.pluginIndex = pluginIndex) ∧
    own.map (·.rawFormId) = group.records.map (·.header.formId)

/-- A node carries the plugin and the FormID of its record. -/
theorem infoNode_eq_ok {toLowercase : Lowercase} {inflate : Inflate} {order : LoadOrder}
    {plugin : PluginInput} {pluginIndex targetIndex : Nat} {edited : Option WritableRecord}
    {record : Record} {node : InfoNode}
    (known : infoNode toLowercase inflate order plugin pluginIndex targetIndex edited record =
      .ok node) : node.pluginIndex = pluginIndex ∧ node.rawFormId = record.header.formId := by
  unfold infoNode at known
  by_cases foreign : record.header.signature ≠ infoSignature
  · rw [if_pos foreign] at known
    cases known
  · rw [if_neg foreign] at known
    cases resolved : plugin.resolve toLowercase order record.header.formId with
    | none =>
      rw [resolved] at known
      cases known
    | some identity =>
      rw [resolved] at known
      dsimp only at known
      generalize Option.filter (fun edited => decide (pluginIndex = targetIndex ∧
        edited.formId = record.header.formId)) edited = chosen at known
      cases chosen with
      | none | some =>
        obtain ⟨found, _, same⟩ := bind_eq_ok.mp known
        cases same
        exact ⟨rfl, rfl⟩

/-- The nodes of a plugin carry its position. -/
theorem pluginNodes_eq_ok {toLowercase : Lowercase} {inflate : Inflate} {order : LoadOrder}
    {dial : GlobalFormId} {targetIndex : Nat} {edited : Option WritableRecord}
    {item : PluginInput × Nat} {nodes : List InfoNode}
    (known : pluginNodes toLowercase inflate order dial targetIndex edited item = .ok nodes) :
    ∀ node ∈ nodes, node.pluginIndex = item.2 := by
  obtain ⟨found, _, known⟩ := bind_eq_ok.mp known
  cases found with
  | none =>
    cases known
    exact fun _ among => absurd among List.not_mem_nil
  | some group =>
    intro node among
    obtain ⟨record, _, own⟩ := mem_of_mapM_eq_ok known among
    exact (infoNode_eq_ok own).1

/-- A list around one of its elements, and with another one in its place. -/
theorem split_of_getElem? {α : Type} {list : List α} {index : Nat} {element : α}
    (stands : list[index]? = some element) (other : α) : ∃ front back,
      list = front ++ element :: back ∧ front.length = index ∧
        list.set index other = front ++ other :: back := by
  obtain ⟨inside, same⟩ := List.getElem?_eq_some_iff.mp stands
  refine ⟨list.take index, list.drop (index + 1), ?_, ?_, ?_⟩
  · rw [← same, List.getElem_cons_drop, List.take_append_drop]
  · rw [List.length_take]
    omega
  · rw [List.set_eq_take_append_cons_drop, if_pos inside]

/-- The nodes of the walk are those of the plugins before the target and those of its records. -/
theorem infoNodes_eq_ok {toLowercase : Lowercase} {inflate : Inflate} {order : LoadOrder}
    {front back : List PluginInput} {dial : GlobalFormId} {plugin : PluginInput}
    {edited : Option WritableRecord} {group : Group} {nodes : List InfoNode}
    (found : findTopicGroup toLowercase order plugin dial = .ok (some group)) :
    infoNodes toLowercase inflate order (front ++ plugin :: back) dial front.length edited =
        .ok nodes ↔
      ∃ before own, (front.zipIdx).mapM
          (pluginNodes toLowercase inflate order dial front.length edited) = .ok before ∧
        group.records.mapM (infoNode toLowercase inflate order plugin front.length front.length
          edited) = .ok own ∧ nodes = before.flatten ++ own := by
  have taken : (front ++ plugin :: back).zipIdx.take (front.length + 1) =
      front.zipIdx ++ [(plugin, front.length)] := by
    rw [List.zipIdx_append, List.zipIdx_cons, Nat.zero_add, List.take_append,
      List.length_zipIdx, Nat.add_sub_cancel_left, List.take_succ_cons, List.take_zero,
      List.take_of_length_le (by rw [List.length_zipIdx]; omega)]
  have own : pluginNodes toLowercase inflate order dial front.length edited
      (plugin, front.length) = group.records.mapM
        (infoNode toLowercase inflate order plugin front.length front.length edited) := by
    unfold pluginNodes
    rw [found, ok_bind]
  constructor
  · intro known
    obtain ⟨each, walked, same⟩ := bind_eq_ok.mp known
    cases same
    rw [taken, List.mapM_append] at walked
    obtain ⟨before, walkedBefore, walked⟩ := bind_eq_ok.mp walked
    obtain ⟨last, walkedLast, same⟩ := bind_eq_ok.mp walked
    cases same
    rw [List.mapM_cons, own] at walkedLast
    obtain ⟨nodes, ownNodes, walkedLast⟩ := bind_eq_ok.mp walkedLast
    rw [List.mapM_nil] at walkedLast
    cases walkedLast
    exact ⟨before, nodes, walkedBefore, ownNodes, by simp⟩
  · intro parts
    obtain ⟨before, nodes, walked, ownNodes, rfl⟩ := parts
    unfold infoNodes
    rw [taken, List.mapM_append, walked, ok_bind, List.mapM_cons, own, ownNodes, ok_bind,
      List.mapM_nil]
    show Except.ok (before ++ [nodes]).flatten = _
    simp

/-- The nodes of the plugins before the target are not of the target. -/
theorem pluginIndex_ne_of_before {toLowercase : Lowercase} {inflate : Inflate} {order : LoadOrder}
    {front : List PluginInput} {dial : GlobalFormId} {edited : Option WritableRecord}
    {before : List (List InfoNode)}
    (walked : (front.zipIdx).mapM
      (pluginNodes toLowercase inflate order dial front.length edited) = .ok before) :
    ∀ node ∈ before.flatten, node.pluginIndex ≠ front.length := by
  intro node among
  obtain ⟨nodes, member, inner⟩ := List.mem_flatten.mp among
  obtain ⟨item, taken, made⟩ := mem_of_mapM_eq_ok walked member
  rw [pluginNodes_eq_ok made node inner]
  have bound := (List.getElem?_eq_some_iff.mp (List.mem_zipIdx_iff_getElem?.mp taken)).1
  omega

/-- The nodes of the walk end with those of the target. -/
theorem infoNodes_endsWith {toLowercase : Lowercase} {inflate : Inflate} {order : LoadOrder}
    {plugins : List PluginInput} {dial : GlobalFormId} {target : PluginInput × Nat}
    {edited : Option WritableRecord} {group : Group} {nodes : List InfoNode}
    (stands : plugins[target.2]? = some target.1)
    (found : findTopicGroup toLowercase order target.1 dial = .ok (some group))
    (known : infoNodes toLowercase inflate order plugins dial target.2 edited = .ok nodes) :
    EndsWith nodes target.2 group := by
  obtain ⟨front, back, split, length, _⟩ := split_of_getElem? stands target.1
  rw [split, ← length] at known
  obtain ⟨before, own, walked, ownNodes, rfl⟩ := (infoNodes_eq_ok found).mp known
  have each := mapM_eq_ok.mp ownNodes
  refine ⟨before.flatten, own, rfl, ?_, ?_, ?_⟩
  · rw [← length]
    exact pluginIndex_ne_of_before walked
  · intro node among
    obtain ⟨record, _, made⟩ := mem_of_mapM_eq_ok ownNodes among
    rw [← length]
    exact (infoNode_eq_ok made).1
  · rw [← List.forall₂_eq_eq_eq, List.forall₂_map_left_iff, List.forall₂_map_right_iff]
    exact each.flip.imp fun _ _ made => (infoNode_eq_ok made).2

/-- A node belongs to a plugin. -/
def belongsTo (nodes : List InfoNode) (pluginIndex index : Nat) : Bool :=
  (nodes[index]?).any (·.pluginIndex = pluginIndex)

/-- The planned FormIDs are those of the nodes of the target, in order. -/
theorem targetFormIds_eq (nodes : List InfoNode) (pluginIndex : Nat) (ordered : List Nat) :
    targetFormIds nodes pluginIndex ordered =
      (ordered.filter (belongsTo nodes pluginIndex)).map (formIdAt nodes) := by
  unfold targetFormIds
  induction ordered with
  | nil => rfl
  | cons index ordered rest =>
    have chosen : ((nodes[index]?.filter (·.pluginIndex = pluginIndex)).map (·.rawFormId)) =
        if belongsTo nodes pluginIndex index then some (formIdAt nodes index) else none := by
      unfold belongsTo formIdAt
      cases nodes[index]? with
      | none => rfl
      | some node =>
        by_cases own : node.pluginIndex = pluginIndex
        · simp [own]
        · simp [own]
    rw [List.filterMap_cons, rest, chosen]
    cases own : belongsTo nodes pluginIndex index with
    | true => rw [List.filter_cons_of_pos own, List.map_cons, if_pos rfl]
    | false =>
      have foreign : ¬belongsTo nodes pluginIndex index = true := by simp [own]
      rw [List.filter_cons_of_neg foreign]
      rfl

/-- All nodes of the target are the records of its group. -/
theorem targetFormIds_range {nodes : List InfoNode} {pluginIndex : Nat} {group : Group}
    (ends : EndsWith nodes pluginIndex group) :
    targetFormIds nodes pluginIndex (List.range nodes.length) =
      group.records.map (·.header.formId) := by
  have all : (List.range nodes.length).map (nodes[·]?) = nodes.map some := by
    apply List.ext_getElem?
    intro position
    rw [List.getElem?_map, List.getElem?_map]
    by_cases inside : position < nodes.length
    · rw [List.getElem?_range inside, List.getElem?_eq_getElem inside]
      exact congrArg some (List.getElem?_eq_getElem inside)
    · rw [List.getElem?_eq_none (by rw [List.length_range]; omega),
        List.getElem?_eq_none (by omega)]
      rfl
  obtain ⟨earlier, own, same, foreign, belong, grouped⟩ := ends.split
  have chosen : targetFormIds nodes pluginIndex (List.range nodes.length) =
      nodes.filterMap fun node =>
        if node.pluginIndex = pluginIndex then some node.rawFormId else none := by
    have through := congrArg (List.filterMap fun found : Option InfoNode =>
      (found.filter (·.pluginIndex = pluginIndex)).map (·.rawFormId)) all
    rw [List.filterMap_map, List.filterMap_map] at through
    refine through.trans (List.filterMap_congr ?_)
    intro node _
    by_cases own : node.pluginIndex = pluginIndex
    · simp [own]
    · simp [own]
  rw [chosen, same, List.filterMap_append, ← grouped]
  have none : earlier.filterMap (fun node =>
      if node.pluginIndex = pluginIndex then some node.rawFormId else none) = [] := by
    apply List.filterMap_eq_nil_iff.mpr
    intro node among
    rw [if_neg (foreign node among)]
  have each : own.filterMap (fun node =>
      if node.pluginIndex = pluginIndex then some node.rawFormId else Option.none) =
        own.map (·.rawFormId) := by
    rw [← List.filterMap_eq_map]
    apply List.filterMap_congr
    intro node among
    rw [if_pos (belong node among)]
    rfl
  rw [none, each, List.nil_append]

/-- A node behind one of the target is one of the target. -/
theorem EndsWith.belongs {nodes : List InfoNode} {pluginIndex : Nat} {group : Group}
    (ends : EndsWith nodes pluginIndex group) {first later : Nat} {node : InfoNode}
    (own : belongsTo nodes pluginIndex first = true) (behind : first < later)
    (stands : nodes[later]? = some node) : node.pluginIndex = pluginIndex := by
  obtain ⟨earlier, last, rfl, foreign, belong, _⟩ := ends.split
  have late : earlier.length ≤ first := by
    by_contra early
    unfold belongsTo at own
    rw [List.getElem?_append_left (by omega)] at own
    cases found : earlier[first]? with
    | none =>
      rw [found] at own
      cases own
    | some node =>
      rw [found] at own
      exact foreign node (List.mem_of_getElem? found) (of_decide_eq_true own)
  rw [List.getElem?_append_right (by omega)] at stands
  exact belong node (List.mem_of_getElem? stands)

/-- Between a record of the target and its predecessor in the group stands nothing if no other info
names the predecessor. -/
theorem between_eq_nil {nodes : List InfoNode} {pluginIndex : Nat} {group : Group}
    (ends : EndsWith nodes pluginIndex group) {index target : Nat} {between : List Nat}
    (own : belongsTo nodes pluginIndex index = true)
    (only : OnlySuccessor nodes pluginIndex index target)
    (inside : ∀ other ∈ between, belongsTo nodes pluginIndex other = true ∧
      ∃ sibling, sibling ≠ index ∧ (infoPlacement nodes).parent sibling = some target ∧
        Relation.ReflTransGen (infoPlacement nodes).Climbs other sibling) : between = [] := by
  apply List.eq_nil_iff_forall_not_mem.mpr
  intro other among
  obtain ⟨kept, sibling, differs, above, climbs⟩ := inside other among
  obtain ⟨node, self, held, selfHeld, same, foreign⟩ :=
    only sibling (infoPlacement_parent.mp above) differs
  rcases Relation.ReflTransGen.cases_tail climbs with rfl | ⟨child, _, last⟩
  · unfold belongsTo at kept
    rw [held] at kept
    exact foreign (of_decide_eq_true kept)
  · -- Only the last version of an info has successors, and this one is in the target.
    obtain ⟨_, identity, _, _, ⟨latest, found, isNamed⟩, final⟩ := infoPlacement_parent.mp last
    rw [held] at found
    cases found
    by_cases behind : index < sibling
    · exact foreign (ends.belongs own behind held)
    · have before : sibling < index := by omega
      exact final index self before selfHeld (same.symm.trans isNamed)

/-- The sorting plans the order in which infos follow their predecessors. -/
theorem planGroup_sorts {nodes : List InfoNode} {pluginIndex : Nat} {group : Group}
    (ends : EndsWith nodes pluginIndex group) :
    SortsInfos nodes pluginIndex group (planGroup nodes pluginIndex group) := by
  unfold planGroup
  rcases orderInfoNodes_cases nodes with ⟨identity, failed, cycle⟩ |
    ⟨ordered, succeeded, same, orderly, complete⟩
  · rw [failed]
    exact ⟨⟨fun _ => cycle, fun _ => ⟨identity, rfl⟩⟩, fun acyclic => absurd cycle acyclic⟩
  · have arranged : (infoPlacement nodes).Arranged ordered := by
      rw [same]
      exact Placement.Arranged.attachAll (.nil _) orderly
    have acyclic := not_hasCycle_of_arranged arranged complete
    let kept := ordered.filter (belongsTo nodes pluginIndex)
    have formIds : targetFormIds nodes pluginIndex ordered = kept.map (formIdAt nodes) :=
      targetFormIds_eq nodes pluginIndex ordered
    have keeps : kept.Perm (nodesOf nodes pluginIndex) := complete.filter _
    have grouped : (kept.map (formIdAt nodes)).Perm (group.records.map (·.header.formId)) := by
      rw [← targetFormIds_range ends, targetFormIds_eq]
      exact keeps.map _
    have lengths : ¬(targetFormIds nodes pluginIndex ordered).length ≠
        (group.records.map (·.header.formId)).length := by
      rw [formIds, not_not]
      exact grouped.length_eq
    rw [succeeded, ok_bind]
    dsimp only
    rw [if_neg lengths]
    have nodup : kept.Nodup := arranged.nodup.filter _
    have splits : ∀ index ∈ kept, ∀ target ∈ kept, PointsTo nodes index target →
        ∃ before between after, kept = before ++ target :: (between ++ index :: after) ∧
          ∀ other ∈ between, belongsTo nodes pluginIndex other = true ∧
            ∃ sibling, sibling ≠ index ∧ (infoPlacement nodes).parent sibling = some target ∧
              Relation.ReflTransGen (infoPlacement nodes).Climbs other sibling := by
      intro index among target present points
      obtain ⟨member, own⟩ := List.mem_filter.mp among
      have follows := arranged.follows index member target (infoPlacement_parent.mpr points)
      exact follows.filter own (List.mem_filter.mp present).2
    refine ⟨⟨?_, fun cycle => absurd cycle acyclic⟩, fun _ => ⟨_, kept, rfl, ?_⟩⟩
    · intro failed
      obtain ⟨identity, failed⟩ := failed
      cases failed
    · refine ⟨formIds, keeps, ?_, ?_, ?_, ?_⟩
      · show (targetFormIds nodes pluginIndex ordered).Perm _
        rw [formIds]
        exact grouped
      · exact decide_eq_true_iff
      · intro index among target present points
        obtain ⟨before, between, after, split, _⟩ := splits index among target present points
        rw [split] at nodup ⊢
        have distance := Placement.idxOf_eq_of_split nodup
        omega
      · intro index among target present points only
        obtain ⟨before, between, after, split, inside⟩ := splits index among target present points
        have nothing := between_eq_nil ends (List.mem_filter.mp among).2 only inside
        rw [split] at nodup ⊢
        have distance := Placement.idxOf_eq_of_split nodup
        rw [nothing, List.length_nil, Nat.add_zero] at distance
        rw [nothing]
        exact distance

/-- The target is the only plugin with the name. -/
theorem selectTarget_eq_ok {toLowercase : Lowercase} {plugins : List PluginInput}
    {targetPlugin : String} {target : PluginInput × Nat} :
    selectTarget toLowercase plugins targetPlugin = .ok target ↔
      (plugins.zipIdx.filter fun item =>
        strEqIgnoreAsciiCase item.1.name (toLowercase targetPlugin)) = [target] := by
  unfold selectTarget
  dsimp only
  generalize (plugins.zipIdx.filter fun item =>
    strEqIgnoreAsciiCase item.1.name (toLowercase targetPlugin)) = matching
  cases matching with
  | nil => simp [infoSortError]
  | cons first others =>
    cases others with
    | nil => simp
    | cons second others => simp [infoSortError]

/-- The selected target stands at its position. -/
theorem getElem?_of_selectTarget {toLowercase : Lowercase} {plugins : List PluginInput}
    {targetPlugin : String} {target : PluginInput × Nat}
    (selected : selectTarget toLowercase plugins targetPlugin = .ok target) :
    plugins[target.2]? = some target.1 := by
  have matching := selectTarget_eq_ok.mp selected
  have among : target ∈ plugins.zipIdx := by
    have member : target ∈ plugins.zipIdx.filter fun item =>
        strEqIgnoreAsciiCase item.1.name (toLowercase targetPlugin) := by
      rw [matching]
      exact List.mem_singleton.mpr rfl
    exact (List.mem_filter.mp member).1
  exact List.mem_zipIdx_iff_getElem?.mp among

/-- The plan of a selected target is made from the nodes of the walk. -/
theorem planInfoGroupSort_eq {toLowercase : Lowercase} {inflate : Inflate} {order : LoadOrder}
    {plugins : List PluginInput} {targetPlugin : String} {dial : GlobalFormId}
    {target : PluginInput × Nat} {group : Group} {nodes : List InfoNode}
    (selected : selectTarget toLowercase plugins targetPlugin = .ok target)
    (found : findTopicGroup toLowercase order target.1 dial = .ok (some group))
    (resolved : infoNodes toLowercase inflate order plugins dial target.2 none = .ok nodes) :
    planInfoGroupSort toLowercase inflate order plugins targetPlugin dial =
      planGroup nodes target.2 group := by
  unfold planInfoGroupSort planInfoGroupSortWithOverride planTarget
  rw [selected, ok_bind, found, ok_bind]
  show (infoNodes toLowercase inflate order plugins dial target.2 none >>= fun nodes =>
    planGroup nodes target.2 group) = _
  rw [resolved, ok_bind]

/-- The sorting reports exactly a cycle of predecessors, and otherwise plans the records of the
group of the target in an order in which they follow their predecessors. -/
theorem planInfoGroupSort_sorts (toLowercase : Lowercase) (inflate : Inflate) (order : LoadOrder)
    (plugins : List PluginInput) (targetPlugin : String) (dial : GlobalFormId)
    (target : PluginInput × Nat) (group : Group) (nodes : List InfoNode)
    (selected : selectTarget toLowercase plugins targetPlugin = .ok target)
    (found : findTopicGroup toLowercase order target.1 dial = .ok (some group))
    (resolved : infoNodes toLowercase inflate order plugins dial target.2 none = .ok nodes) :
    SortsInfos nodes target.2 group
      (planInfoGroupSort toLowercase inflate order plugins targetPlugin dial) := by
  rw [planInfoGroupSort_eq selected found resolved]
  exact planGroup_sorts (infoNodes_endsWith (getElem?_of_selectTarget selected) found resolved)

/-! ## A small topic -/

deriving instance DecidableEq for InfoNode, InfoGroupSortPlan

/-- The block of an info with a predecessor. -/
def topicBlock (previous : Option UInt8) : Bytes :=
  (previous.map fun target => [0x50, 0x4E, 0x41, 0x4D, 4, 0, target, 0, 0, 0]).getD []

/-- The block fits a record. -/
theorem length_topicBlock_lt (previous : Option UInt8) : (topicBlock previous).length < 2 ^ 32 := by
  cases previous with
  | none => decide
  | some target => exact show 10 < 2 ^ 32 by omega

/-- An info. -/
def topicRecord (info : UInt8 × Option UInt8) : RawRecord where
  signature := infoSignature
  flags := .empty
  formId := ⟨info.1.toUInt32⟩
  versionControl := 0
  formVersion := 44
  unknown := 0
  block := topicBlock info.2
  notGroup := by decide
  sized := length_topicBlock_lt info.2
  compressed := fun set => absurd set (by decide)

/-- The group of a topic. -/
def topicGroup (infos : List (UInt8 × Option UInt8)) : TopGroup :=
  ⟨sampleHead 9 .topicChildren, infos.map fun info => .leaf (topicRecord info)⟩

/-- A plugin with the infos of a topic. -/
def topicInput (infos : List (UInt8 × Option UInt8)) : PluginInput :=
  ⟨"own.esp", samplePlugin [topicGroup infos]⟩

/-- Infos have no groups below them. -/
theorem nodes_locateAll_infos (start : Nat) (infos : List (UInt8 × Option UInt8)) :
    (Layout.locateAll start (infos.map fun info => .leaf (topicRecord info))).flatMap
      RoseTree.nodes = [] := by
  induction infos generalizing start with
  | nil => rfl
  | cons info infos rest =>
    rw [List.map_cons, Layout.locateAll, List.flatMap_cons, rest]
    rfl

/-- The plugin has one group of a topic. -/
theorem topicGroups_topicInput (infos : List (UInt8 × Option UInt8)) :
    topicGroups (topicInput infos) = [(topicGroup infos).locate 42] := by
  have header : sampleHeader.encode.length = 42 := by decide
  rw [topicGroups, Plugin.allGroups_eq, topicInput, samplePlugin, File.locateGroups,
    TopGroup.toChild_locateAll, header]
  simp [Layout.locateAll, TopGroup.toNode, topicGroup, Layout.locate, TopGroup.locate,
    nodes_locateAll_infos]
  rfl

/-- The topic of the infos. -/
def sampleTopic : GlobalFormId := ⟨"own.esp", 9⟩

/-- It is the group of the topic. -/
theorem findTopicGroup_topicInput (infos : List (UInt8 × Option UInt8)) :
    findTopicGroup id .new (topicInput infos) sampleTopic =
      .ok (some ((topicGroup infos).locate 42)) := by
  have own : isTopicGroup id .new (topicInput infos) sampleTopic ((topicGroup infos).locate 42) =
      true := by
    show decide ((topicInput []).resolve id .new ⟨9⟩ = some sampleTopic) = true
    decide +kernel
  unfold findTopicGroup
  rw [topicGroups_topicInput, List.filter_cons_of_pos own]
  rfl

/-- The plugin is selected by its name. -/
theorem selectTarget_topicInput (infos : List (UInt8 × Option UInt8)) :
    selectTarget id [topicInput infos] "own.esp" = .ok (topicInput infos, 0) := by
  have named : strEqIgnoreAsciiCase "own.esp" "own.esp" = true := by decide +kernel
  have matching : (([topicInput infos].zipIdx).filter fun item =>
      strEqIgnoreAsciiCase item.1.name "own.esp") = [(topicInput infos, 0)] :=
    List.filter_cons_of_pos named
  unfold selectTarget
  dsimp only [id]
  rw [matching]

/-- The nodes are those of the infos. -/
theorem infoNodes_topicInput (infos : List (UInt8 × Option UInt8)) :
    infoNodes id refuseInflate .new [topicInput infos] sampleTopic 0 none =
      ((topicGroup infos).locate 42).records.mapM
        (infoNode id refuseInflate .new (topicInput infos) 0 0 none) := by
  unfold infoNodes
  rw [List.zipIdx_singleton]
  show ([(topicInput infos, 0)].mapM _ >>= _) = _
  rw [List.mapM_cons, List.mapM_nil, pluginNodes, findTopicGroup_topicInput, ok_bind]
  dsimp only
  cases ((topicGroup infos).locate 42).records.mapM
        (infoNode id refuseInflate .new (topicInput infos) 0 0 none) with
  | error => rfl
  | ok nodes => exact congrArg Except.ok (List.append_nil nodes)

/-- The plan is made from the nodes of the infos. -/
theorem plan_topicInput (infos : List (UInt8 × Option UInt8)) :
    planInfoGroupSort id refuseInflate .new [topicInput infos] "own.esp" sampleTopic =
      ((topicGroup infos).locate 42).records.mapM
        (infoNode id refuseInflate .new (topicInput infos) 0 0 none) >>= fun nodes =>
          planGroup nodes 0 ((topicGroup infos).locate 42) := by
  unfold planInfoGroupSort planInfoGroupSortWithOverride planTarget
  rw [selectTarget_topicInput, ok_bind, findTopicGroup_topicInput, ok_bind]
  show (infoNodes id refuseInflate .new [topicInput infos] sampleTopic 0 none >>= _) = _
  rw [infoNodes_topicInput]

/-- Two infos behind one, planned and sorted. -/
theorem planInfoGroupSort_sorts_siblings :
    SortsInfos
      [⟨0, ⟨1⟩, ⟨"own.esp", 1⟩, none, false⟩, ⟨0, ⟨2⟩, ⟨"own.esp", 2⟩, some ⟨"own.esp", 1⟩, true⟩]
      0 ((topicGroup [(1, none), (2, some 1)]).locate 42)
      (planInfoGroupSort id refuseInflate .new [topicInput [(1, none), (2, some 1)]] "own.esp"
        sampleTopic) := by
  refine planInfoGroupSort_sorts _ _ _ _ _ _ (topicInput [(1, none), (2, some 1)], 0) _ _
    (selectTarget_topicInput _) (findTopicGroup_topicInput _) ?_
  rw [infoNodes_topicInput]
  exact eq_ok_of_toOption (by decide +kernel)

end Bethkit
