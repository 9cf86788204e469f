import Bethkit.Spec.Layout

/-!
# The parser reads exactly the laid out files

Every parser of the plugin format accepts exactly the byte runs that `Layout.encode` writes and
returns what `Layout.locate` says. The recursion of the parser is bounded by a step count; a
forest needs one step for every node on a path through first children and next siblings, and
never more steps than it has bytes, so the bound given to the parser is never reached.
-/

namespace Bethkit

open Lib SliceCursor Layout

/-- A record header is read exactly from its 24 bytes. -/
theorem exact_recordHeader :
    RecordHeader.parse.Exact fun _ bytes header => bytes = header.encode := by
  have word := exact_io exact_readU32
  have half := exact_io exact_readU16
  refine ((exact_io (exact_readArray 4)).bind fun sig => word.bind fun size =>
    word.bind fun flags => word.bind fun id => word.bind fun control => half.bind fun version =>
    half.bind fun unknown => Reader.exact_pure _).congr ?_
  intro start bytes header
  constructor
  · rintro ⟨_, _, sig, rfl, rfl, _, _, size, rfl, rfl, _, _, flags, rfl, rfl, _, _, id, rfl, rfl,
      _, _, control, rfl, rfl, _, _, version, rfl, rfl, _, _, unknown, rfl, rfl, rfl, rfl⟩
    simp [RecordHeader.encode]
  · rintro rfl
    exact ⟨_, _, header.signature.bytes, by simp only [RecordHeader.encode, List.append_assoc], rfl,
      _, _, header.dataSize, rfl, rfl, _, _, header.flags.bits, rfl, rfl,
      _, _, header.formId.val, rfl, rfl, _, _, header.versionControl, rfl, rfl,
      _, _, header.formVersion, rfl, rfl, _, [], header.unknown, (List.append_nil _).symm, rfl,
      rfl, rfl⟩

/-- A record is read exactly from the bytes of its content. -/
theorem exact_record (ctx : GameContext) :
    (Record.parseHeader ctx).Exact fun _ bytes record =>
      ∃ raw : RawRecord, bytes = raw.encode ∧ record = raw.toRecord := by
  unfold Record.parseHeader
  refine (exact_recordHeader.bind fun header =>
    Reader.Exact.ite (fun _ => Reader.exact_fail _) (fun _ =>
      (exact_io (exact_readSlice header.dataSize.toNat)).bind fun block =>
        Reader.Exact.ite (fun _ => Reader.Exact.ite (fun _ => Reader.exact_fail _)
          (fun _ => Reader.exact_pure _)) (fun _ => Reader.exact_pure _))).congr ?_
  intro start bytes record
  constructor
  · rintro ⟨_, _, header, rfl, rfl, body⟩
    split at body
    · exact body.elim
    · rename_i notGroup
      obtain ⟨block, _, _, rfl, ⟨rfl, sized⟩, stored⟩ := body
      by_cases compressed : header.flags.contains .COMPRESSED = true
      · rw [if_pos compressed] at stored
        by_cases short : block.length < 4
        · rw [if_pos short] at stored
          exact stored.elim
        · rw [if_neg short] at stored
          obtain ⟨rfl, rfl⟩ := stored
          have same := RawRecord.header_ofParts header block sized notGroup
            (fun _ => Nat.le_of_not_lt short)
          exact ⟨_, by rw [RawRecord.encode, same]; simp [RawRecord.ofParts],
            by simp only [RawRecord.toRecord, same]; simp [RawRecord.data, RawRecord.ofParts,
              compressed]⟩
      · rw [if_neg compressed] at stored
        obtain ⟨rfl, rfl⟩ := stored
        have same := RawRecord.header_ofParts header block sized notGroup
          (fun is => absurd is compressed)
        exact ⟨_, by rw [RawRecord.encode, same]; simp [RawRecord.ofParts],
          by simp only [RawRecord.toRecord, same]; simp [RawRecord.data, RawRecord.ofParts,
            compressed]⟩
  · rintro ⟨raw, rfl, rfl⟩
    have notGroup : ¬raw.header.signature = .GRUP := raw.notGroup
    have flags : raw.header.flags = raw.flags := rfl
    refine ⟨raw.header.encode, raw.block, raw.header, rfl, rfl, ?_⟩
    rw [if_neg notGroup]
    refine ⟨raw.block, [], raw.block, (List.append_nil _).symm,
      ⟨rfl, raw.toNat_dataSize.symm⟩, ?_⟩
    rw [flags]
    by_cases compressed : raw.flags.contains .COMPRESSED = true
    · rw [if_pos compressed, if_neg (Nat.not_lt.mpr (raw.compressed compressed))]
      exact ⟨rfl, by simp [RawRecord.toRecord, RawRecord.data, compressed]⟩
    · rw [if_neg compressed]
      exact ⟨rfl, by simp [RawRecord.toRecord, RawRecord.data, compressed]⟩

/-- A forest has at most as many levels as it has bytes. -/
theorem reach_le_length (nodes : List Node) : RoseTree.reach nodes ≤ (encodeAll nodes).length := by
  have sum : ∀ forest : List Node,
      (forest.map fun node => (encode node).length).sum = (encodeAll forest).length := by
    intro forest
    rw [encodeAll, List.length_flatMap]
  rw [← sum]
  refine RoseTree.reach_le_of_weight (fun node => (encode node).length) ?_ ?_ nodes
  · intro raw
    simp
  · intro head children
    rw [sum]
    simp

/-- What a loop over children reads: a forest whose levels stay below a bound. -/
structure LoopReads (loop : Nat → Reader CoreError (List GroupChild)) (bound : Nat) : Prop where
  /-- The children found are those of a forest that stands in the input. -/
  sound : ∀ (stop : Nat) (before rest : Bytes) (children : List GroupChild) (next : Cursor),
    loop stop ⟨before ++ rest, before.length⟩ = .ok (children, next) →
      ∃ nodes after, RoseTree.reach nodes < bound ∧ (∀ node ∈ nodes, Fits node) ∧
        rest = encodeAll nodes ++ after ∧
        next = ⟨before ++ rest, before.length + (encodeAll nodes).length⟩ ∧
        children = locateAll before.length nodes
  /-- A forest that ends at the boundary is read. -/
  complete : ∀ (before : Bytes) (nodes : List Node) (after : Bytes), RoseTree.reach nodes < bound →
    (∀ node ∈ nodes, Fits node) →
      loop (before.length + (encodeAll nodes).length)
          ⟨before ++ (encodeAll nodes ++ after), before.length⟩ =
        .ok (locateAll before.length nodes,
          ⟨before ++ (encodeAll nodes ++ after), before.length + (encodeAll nodes).length⟩)

/-- The children of a group up to its boundary, among the forests allowed. -/
def childrenGrammar (allowed : List Node → Prop) (stop : Nat) : Grammar (List GroupChild) :=
  fun start bytes children => start + bytes.length = stop ∧ ∃ nodes, allowed nodes ∧
    (∀ node ∈ nodes, Fits node) ∧ bytes = encodeAll nodes ∧ children = locateAll start nodes

/-- The forests of fewer than `bound` levels. -/
abbrev Shallow (bound : Nat) (nodes : List Node) : Prop := RoseTree.reach nodes < bound

/-- The boundary check leaves exactly the forests that end on the boundary. -/
theorem exact_finishChildren {loop : Nat → Reader CoreError (List GroupChild)} {bound : Nat}
    (reads : LoopReads loop bound) (stop : Nat) :
    (finishChildren stop (loop stop)).Exact (childrenGrammar (Shallow bound) stop) where
  sound before rest children next accepted := by
    obtain ⟨found, middle, looped, checked⟩ := Reader.bind_eq_ok.mp accepted
    obtain ⟨nodes, after, bounded, fit, rfl, rfl, rfl⟩ := reads.sound stop before rest _ _ looped
    simp only [Reader.bind_apply, Reader.inspect] at checked
    split at checked
    · simp [Reader.fail] at checked
    · split at checked
      · simp [Reader.fail] at checked
      · simp only [Reader.pure_apply, Except.ok.injEq, Prod.mk.injEq] at checked
        obtain ⟨rfl, rfl⟩ := checked
        exact ⟨encodeAll nodes, after, rfl, rfl, by omega, nodes, bounded, fit, rfl, rfl⟩
  complete before bytes after children described := by
    obtain ⟨rfl, nodes, bounded, fit, rfl, rfl⟩ := described
    simp [finishChildren, Reader.bind_apply, reads.complete before nodes after bounded fit,
      Reader.inspect]

/-- A group found at an offset, before its range is recorded. -/
def groupGrammar (allowed : List Node → Prop) : Grammar Group := fun start bytes group =>
  ∃ top : TopGroup, allowed top.children ∧ Fits top.toNode ∧
    bytes = encode top.toNode ∧ group = { top.locate start with sourceRange := none }

/-- A group is read exactly from its header and the children up to its boundary. -/
theorem exact_groupParseWith {children : Nat → Reader CoreError (List GroupChild)}
    {allowed : List Node → Prop}
    (exact : ∀ stop, (children stop).Exact (childrenGrammar allowed stop)) :
    (Group.parseWith children).Exact (groupGrammar allowed) := by
  have word := exact_io exact_readU32
  have array := exact_io (exact_readArray 4)
  unfold Group.parseWith
  refine (Reader.exact_position.bind fun groupStart => array.bind fun sig =>
    Reader.Exact.ite (fun _ => Reader.exact_fail _) fun _ => word.bind fun size =>
    array.bind fun label => (exact_io exact_readI32).bind fun raw =>
    word.bind fun control => word.bind fun unknown => (Reader.exact_lift _).bind fun groupType =>
    (exact _).bind fun found => Reader.exact_pure _).congr ?_
  intro start bytes group
  constructor
  · rintro ⟨_, _, _, rfl, ⟨rfl, rfl⟩, _, _, sig, rfl, rfl, body⟩
    split at body
    · exact body.elim
    · rename_i isGroup
      obtain ⟨_, _, size, rfl, rfl, _, _, label, rfl, rfl, _, _, raw, rfl, rfl, _, _, control, rfl,
        rfl, _, _, unknown, rfl, rfl, _, _, groupType, rfl, ⟨rfl, known⟩, _, _, children, rfl,
        ⟨boundary, nodes, bounded, fit, rfl, rfl⟩, rfl, rfl⟩ := body
      simp only [ne_eq, not_not] at isGroup
      have header : sig.val = Signature.GRUP.bytes.val := by rw [← isGroup]
      have length : sig.val.length = 4 := sig.property
      have total : size.toNat = 24 + (encodeAll nodes).length := by
        simp only [List.length_nil, length, length_u32ToLeBytes, label.property,
          length_i32ToLeBytes] at boundary
        omega
      have field : UInt32.ofNat (24 + (encodeAll nodes).length) = size := by
        rw [← total]
        exact UInt32.ofNat_toNat
      have small := size.toNat_lt
      refine ⟨⟨⟨label, groupType, control, unknown⟩, nodes⟩, bounded, ?_, ?_, ?_⟩
      · rw [TopGroup.toNode, fits_node]
        exact ⟨by rw [← total]; exact small, fit⟩
      · simp [TopGroup.toNode, GroupHead.encode, field, header, GroupType.toRaw_of_fromRaw known]
      · simp only [TopGroup.locate, GroupHead.header, field]
        simp [length, label.property, Nat.add_assoc]
  · rintro ⟨⟨head, nodes⟩, bounded, fit, rfl, rfl⟩
    rw [TopGroup.toNode, fits_node] at fit
    have total : (UInt32.ofNat (24 + (encodeAll nodes).length)).toNat =
        24 + (encodeAll nodes).length := by
      rw [UInt32.toNat_ofNat', Nat.mod_eq_of_lt fit.1]
    have fields : encode (TopGroup.toNode ⟨head, nodes⟩) = [] ++ (Signature.GRUP.bytes.val ++
        (u32ToLeBytes (UInt32.ofNat (24 + (encodeAll nodes).length)) ++ (head.label.val ++
        (i32ToLeBytes head.groupType.toRaw ++ (u32ToLeBytes head.versionControl ++
        (u32ToLeBytes head.unknown ++ ([] ++ (encodeAll nodes ++ [])))))))) := by
      simp [TopGroup.toNode, GroupHead.encode]
    rw [fields]
    refine ⟨_, _, start, rfl, ⟨rfl, rfl⟩, _, _, Signature.GRUP.bytes, rfl, rfl, ?_⟩
    rw [if_neg (by simp)]
    refine ⟨_, _, UInt32.ofNat (24 + (encodeAll nodes).length), rfl, rfl, _, _, head.label, rfl,
      rfl, _, _, head.groupType.toRaw, rfl, rfl, _, _, head.versionControl, rfl, rfl, _, _,
      head.unknown, rfl, rfl, _, _, head.groupType, rfl, ⟨rfl, GroupType.fromRaw_toRaw _⟩,
      _, _, _, rfl, ⟨?_, nodes, bounded, fit.2, rfl, rfl⟩, rfl, ?_⟩
    · rw [total]
      simp [head.label.property, Signature.GRUP]
      omega
    · simp [TopGroup.locate, GroupHead.header, head.label.property, Signature.GRUP, Nat.add_assoc]

/-- The signature that stands at the start of a node. -/
theorem take_encode (node : Node) : (encode node).take 4 =
    match node with
    | .leaf raw => raw.signature.bytes.val
    | .node _ _ => Signature.GRUP.bytes.val := by
  cases node with
  | leaf raw =>
    simp [RawRecord.encode, RecordHeader.encode, RawRecord.header, raw.signature.bytes.property]
  | node head children => simp [GroupHead.encode, Signature.GRUP]

/-- A child found at the cursor is a node that stands there. -/
theorem parseChild_sound {ctx : GameContext} {parseGroup : Reader CoreError Group} {bound : Nat}
    (exact : parseGroup.Exact (groupGrammar (Shallow bound))) {before rest : Bytes} {child : GroupChild}
    {next : Cursor}
    (parsed : parseChild ctx parseGroup ⟨before ++ rest, before.length⟩ = .ok (some child, next)) :
    ∃ node after, (node.reachBelow < bound ∨ node.reachBelow = 0) ∧ Fits node ∧
      rest = encode node ++ after ∧
      next = ⟨before ++ rest, before.length + (encode node).length⟩ ∧
      child = locate before.length node := by
  unfold parseChild at parsed
  obtain ⟨_, _, peeked, parsed⟩ := Reader.bind_eq_ok.mp parsed
  obtain ⟨_, _, positioned, parsed⟩ := Reader.bind_eq_ok.mp parsed
  cases peeked
  cases positioned
  rw [peekBytes_append] at parsed
  by_cases long : 4 ≤ rest.length
  · simp only [if_pos long] at parsed
    by_cases isGroup : rest.take 4 = Signature.GRUP.bytes.val
    · rw [if_pos isGroup] at parsed
      obtain ⟨group, _, grouped, parsed⟩ := Reader.bind_eq_ok.mp parsed
      obtain ⟨_, _, positioned, parsed⟩ := Reader.bind_eq_ok.mp parsed
      obtain ⟨_, after, rfl, rfl, top, bounded, fit, rfl, rfl⟩ := exact.sound _ _ _ _ grouped
      cases positioned
      simp only [Reader.pure_apply, Except.ok.injEq, Prod.mk.injEq, Option.some.injEq] at parsed
      obtain ⟨rfl, rfl⟩ := parsed
      refine ⟨top.toNode, after, .inl (by simpa [TopGroup.toNode] using bounded), fit, rfl, rfl, ?_⟩
      simp [TopGroup.toNode, locate, TopGroup.locate, Group.toChild]
    · rw [if_neg isGroup] at parsed
      obtain ⟨record, _, recorded, parsed⟩ := Reader.bind_eq_ok.mp parsed
      obtain ⟨_, _, positioned, parsed⟩ := Reader.bind_eq_ok.mp parsed
      obtain ⟨_, after, rfl, rfl, raw, rfl, rfl⟩ := (exact_record ctx).sound _ _ _ _ recorded
      cases positioned
      simp only [Reader.pure_apply, Except.ok.injEq, Prod.mk.injEq, Option.some.injEq] at parsed
      obtain ⟨rfl, rfl⟩ := parsed
      exact ⟨.leaf raw, after, .inr (by simp), by simp, by simp, by simp,
        by simp [locate, RawRecord.locate]⟩
  · simp [if_neg long] at parsed

/-- Where no signature is left the cursor stays. -/
theorem parseChild_none {ctx : GameContext} {parseGroup : Reader CoreError Group}
    {cursor next : Cursor} (parsed : parseChild ctx parseGroup cursor = .ok (none, next)) :
    next = cursor := by
  unfold parseChild at parsed
  obtain ⟨found, _, peeked, parsed⟩ := Reader.bind_eq_ok.mp parsed
  obtain ⟨_, _, positioned, parsed⟩ := Reader.bind_eq_ok.mp parsed
  cases peeked
  cases positioned
  generalize peekBytes 4 cursor = found at parsed
  cases found with
  | none => simpa using parsed.symm
  | some bytes =>
    by_cases isGroup : bytes = Signature.GRUP.bytes.val
    · simp only [if_pos isGroup] at parsed
      obtain ⟨_, _, _, parsed⟩ := Reader.bind_eq_ok.mp parsed
      obtain ⟨_, _, _, parsed⟩ := Reader.bind_eq_ok.mp parsed
      simp at parsed
    · simp only [if_neg isGroup] at parsed
      obtain ⟨_, _, _, parsed⟩ := Reader.bind_eq_ok.mp parsed
      obtain ⟨_, _, _, parsed⟩ := Reader.bind_eq_ok.mp parsed
      simp at parsed

/-- A node at the cursor is found. -/
theorem parseChild_complete (ctx : GameContext) {parseGroup : Reader CoreError Group}
    {bound : Nat} (exact : parseGroup.Exact (groupGrammar (Shallow bound))) (before : Bytes) (node : Node) (after : Bytes)
    (bounded : node.reachBelow < bound) (fit : Fits node) :
    parseChild ctx parseGroup ⟨before ++ (encode node ++ after), before.length⟩ =
      .ok (some (locate before.length node),
        ⟨before ++ (encode node ++ after), before.length + (encode node).length⟩) := by
  have long := length_encode_ge node
  have peeked : peekBytes 4 ⟨before ++ (encode node ++ after), before.length⟩ =
      some ((encode node).take 4) := by
    rw [peekBytes_append, if_pos (by rw [List.length_append]; omega),
      List.take_append_of_le_length (by omega)]
  cases node with
  | leaf raw =>
    have recorded := (exact_record ctx).complete before raw.encode after raw.toRecord ⟨raw, rfl, rfl⟩
    have other : raw.signature.bytes.val ≠ Signature.GRUP.bytes.val := fun same =>
      raw.notGroup (by cases h : raw.signature; rw [h] at same; exact congrArg _ (Subtype.ext same))
    rw [take_encode] at peeked
    simp only [encode_leaf] at peeked ⊢
    simp [parseChild, Reader.bind_apply, Reader.inspect, peeked, other, recorded, locate,
      RawRecord.locate]
  | node head children =>
    rw [take_encode] at peeked
    have grouped := exact.complete before (encode (.node head children)) after
      { (TopGroup.mk head children).locate before.length with sourceRange := none }
      ⟨⟨head, children⟩, by simpa using bounded, fit, rfl, rfl⟩
    simp only [parseChild, Reader.bind_apply, Reader.inspect, peeked, ↓reduceIte, grouped,
      Reader.pure_apply]
    simp [locate, TopGroup.locate, Group.toChild]

/-- One more step of the loop reads one more level of the forest. -/
theorem loopReads_succ (ctx : GameContext) (fuel : Nat)
    (reads : LoopReads (parseChildrenLoop ctx fuel) fuel) :
    LoopReads (parseChildrenLoop ctx (fuel + 1)) (fuel + 1) where
  sound stop before rest children next looped := by
    have group := exact_groupParseWith (exact_finishChildren reads)
    simp only [parseChildrenLoop, Reader.bind_apply, Reader.inspect] at looped
    by_cases inside : before.length < stop
    · rw [if_pos inside] at looped
      obtain ⟨found, middle, parsed, looped⟩ := Reader.bind_eq_ok.mp looped
      cases found with
      | none =>
        obtain rfl := parseChild_none parsed
        simp only [Reader.pure_apply, Except.ok.injEq, Prod.mk.injEq] at looped
        obtain ⟨rfl, rfl⟩ := looped
        exact ⟨[], rest, by simp, by simp, by simp, by simp, by simp [locateAll]⟩
      | some child =>
        obtain ⟨node, after, level, fit, rfl, rfl, rfl⟩ := parseChild_sound group parsed
        obtain ⟨later, last, continued, looped⟩ := Reader.bind_eq_ok.mp looped
        rw [← List.append_assoc, ← List.length_append] at continued
        obtain ⟨nodes, after, bounded, fits, rfl, rfl, rfl⟩ := reads.sound _ _ _ _ _ continued
        simp only [Reader.pure_apply, Except.ok.injEq, Prod.mk.injEq] at looped
        obtain ⟨rfl, rfl⟩ := looped
        refine ⟨node :: nodes, after, ?_, ?_, ?_, ?_, ?_⟩
        · rw [RoseTree.reach_cons]
          omega
        · simpa using ⟨fit, fits⟩
        · simp
        · simp [Nat.add_assoc]
        · simp [locateAll]
    · rw [if_neg inside] at looped
      simp only [Reader.pure_apply, Except.ok.injEq, Prod.mk.injEq] at looped
      obtain ⟨rfl, rfl⟩ := looped
      exact ⟨[], rest, by simp, by simp, by simp, by simp, by simp [locateAll]⟩
  complete before nodes after bounded fit := by
    have group := exact_groupParseWith (exact_finishChildren reads)
    cases nodes with
    | nil => simp [parseChildrenLoop, Reader.bind_apply, Reader.inspect, locateAll]
    | cons node nodes =>
      rw [RoseTree.reach_cons] at bounded
      have long := length_encode_ge node
      have head := parseChild_complete ctx group before node (encodeAll nodes ++ after) (by omega)
        (fit node List.mem_cons_self)
      have tail := reads.complete (before ++ encode node) nodes after (by omega)
        fun other found => fit other (List.mem_cons_of_mem _ found)
      have inside : before.length < before.length + (encodeAll (node :: nodes)).length := by
        rw [encodeAll_cons, List.length_append]
        omega
      simp only [parseChildrenLoop, Reader.bind_apply, Reader.inspect, if_pos inside]
      simp only [List.append_assoc, List.length_append, Nat.add_assoc] at head tail
      simp [head, tail, Reader.bind_apply, locateAll]

/-- With `fuel` steps the loop reads the forests of at most `fuel` levels. -/
theorem loopReads (ctx : GameContext) (fuel : Nat) :
    LoopReads (parseChildrenLoop ctx fuel) fuel := by
  induction fuel with
  | zero =>
    constructor
    · intro stop before rest children next looped
      simp [parseChildrenLoop, Reader.fail] at looped
    · intro before nodes after bounded
      omega
  | succ fuel ih => exact loopReads_succ ctx fuel ih

/-- The children of a group are read exactly, without a bound. -/
theorem exact_parseChildren (ctx : GameContext) (stop : Nat) :
    (parseChildren ctx stop).Exact (childrenGrammar (fun _ => True) stop) where
  sound before rest children next accepted := by
    have reads := loopReads ctx ((before ++ rest).length + 1)
    obtain ⟨bytes, after, split, moved, boundary, nodes, _, fit, written⟩ :=
      (exact_finishChildren reads stop).sound before rest children next accepted
    exact ⟨bytes, after, split, moved, boundary, nodes, trivial, fit, written⟩
  complete before bytes after children described := by
    obtain ⟨boundary, nodes, _, fit, rfl, rfl⟩ := described
    have reads := loopReads ctx ((before ++ (encodeAll nodes ++ after)).length + 1)
    have levels := reach_le_length nodes
    refine (exact_finishChildren reads stop).complete before (encodeAll nodes) after _
      ⟨boundary, nodes, ?_, fit, rfl, rfl⟩
    simp only [Shallow, List.length_append]
    omega

/-- A group is read exactly from the bytes of its content. -/
theorem exact_group (ctx : GameContext) :
    (Group.parse ctx).Exact (groupGrammar fun _ => True) :=
  exact_groupParseWith (exact_parseChildren ctx)

/-- The group loop reads every list of groups that stands at the end of the input. -/
theorem parseGroupsLoop_eq_ok (ctx : GameContext) (fuel : Nat) (before rest : Bytes)
    (groups : List Group) (next : Cursor) (enough : rest.length < fuel) :
    parseGroupsLoop ctx fuel ⟨before ++ rest, before.length⟩ = .ok (groups, next) ↔
      ∃ tops : List TopGroup, (∀ top ∈ tops, Fits top.toNode) ∧
        rest = encodeAll (tops.map TopGroup.toNode) ∧
        next = ⟨before ++ rest, before.length + rest.length⟩ ∧
        groups = TopGroup.locateAll before.length tops := by
  induction fuel generalizing before rest groups next with
  | zero => omega
  | succ fuel ih =>
    simp only [parseGroupsLoop, Reader.bind_apply, Reader.inspect, isEmpty_append]
    cases rest with
    | nil =>
      simp only [List.isEmpty_nil, ↓reduceIte, Reader.pure_apply, Except.ok.injEq, Prod.mk.injEq]
      constructor
      · rintro ⟨rfl, rfl⟩
        exact ⟨[], by simp, by simp, by simp, by simp [TopGroup.locateAll]⟩
      · rintro ⟨tops, _, written, rfl, rfl⟩
        cases tops with
        | nil => simp [TopGroup.locateAll]
        | cons top tops =>
          have long := length_encode_ge top.toNode
          have short := congrArg List.length written
          simp only [List.map_cons, encodeAll_cons, List.length_append, List.length_nil] at short
          omega
    | cons byte rest =>
      simp only [List.isEmpty_cons, Bool.false_eq_true, ↓reduceIte]
      constructor
      · intro accepted
        obtain ⟨_, _, positioned, accepted⟩ := Reader.bind_eq_ok.mp accepted
        cases positioned
        obtain ⟨group, _, grouped, accepted⟩ := Reader.bind_eq_ok.mp accepted
        obtain ⟨_, after, shape, rfl, top, _, fit, rfl, rfl⟩ :=
          (exact_group ctx).sound before (byte :: rest) group _ grouped
        obtain ⟨_, _, moved, accepted⟩ := Reader.bind_eq_ok.mp accepted
        cases moved
        obtain ⟨later, last, continued, accepted⟩ := Reader.bind_eq_ok.mp accepted
        have long := length_encode_ge top.toNode
        have total := congrArg List.length shape
        rw [List.length_append] at total
        rw [shape, ← List.append_assoc, ← List.length_append] at continued
        obtain ⟨tops, fits, rfl, rfl, rfl⟩ := (ih _ _ _ _ (by omega)).mp continued
        simp only [Reader.pure_apply, Except.ok.injEq, Prod.mk.injEq] at accepted
        obtain ⟨rfl, rfl⟩ := accepted
        refine ⟨top :: tops, by simpa using ⟨fit, fits⟩, by simp [shape], ?_, ?_⟩
        · simp only [shape, List.append_assoc, List.length_append, Nat.add_assoc]
        · simp [TopGroup.locateAll, TopGroup.locate, TopGroup.toNode]
      · rintro ⟨tops, fits, written, rfl, rfl⟩
        cases tops with
        | nil => simp at written
        | cons top tops =>
          have long := length_encode_ge top.toNode
          have total := congrArg List.length written
          simp only [List.map_cons, encodeAll_cons, List.length_append] at total
          have grouped := (exact_group ctx).complete before (encode top.toNode)
            (encodeAll (tops.map TopGroup.toNode)) { top.locate before.length with sourceRange := none }
            ⟨top, trivial, fits top List.mem_cons_self, rfl, rfl⟩
          have continued := (ih (before ++ encode top.toNode) (encodeAll (tops.map TopGroup.toNode)) _ _
            (by omega)).mpr ⟨tops, fun other found => fits other (List.mem_cons_of_mem _ found), rfl,
              rfl, rfl⟩
          simp only [List.append_assoc, List.length_append] at continued
          rw [written]
          simp only [List.map_cons, encodeAll_cons, Reader.bind_apply, Reader.inspect, grouped,
            continued, Reader.pure_apply]
          simp [TopGroup.locateAll, TopGroup.locate, TopGroup.toNode, Nat.add_assoc]

/-- A plugin header is read exactly from the bytes of a record that is one. -/
theorem exact_pluginHeader (inflate : Inflate) (ctx : GameContext) :
    (PluginHeader.parse inflate ctx).Exact fun _ bytes header => ∃ raw : RawRecord,
      bytes = raw.encode ∧ PluginHeader.ofRecord inflate ctx raw.toRecord = .ok header := by
  refine ((exact_record ctx).bind fun record =>
    Reader.exact_lift (PluginHeader.ofRecord inflate ctx record)).congr ?_
  intro start bytes header
  constructor
  · rintro ⟨_, _, _, rfl, ⟨raw, rfl, rfl⟩, rfl, admitted⟩
    exact ⟨raw, List.append_nil _, admitted⟩
  · rintro ⟨raw, rfl, admitted⟩
    exact ⟨raw.encode, [], raw.toRecord, (List.append_nil _).symm, ⟨raw, rfl, rfl⟩, rfl, admitted⟩

/-- A plugin is accepted exactly when its bytes are those of a fitting file whose header record
is a plugin header, and the groups are found where the layout puts them. -/
theorem fromBytes_eq_ok (inflate : Inflate) (data : Bytes) (ctx : GameContext) (plugin : Plugin) :
    Plugin.fromBytes inflate data ctx = .ok plugin ↔
      ∃ (file : File) (header : PluginHeader), file.Fits ∧ data = file.encode ∧
        PluginHeader.ofRecord inflate ctx file.header.toRecord = .ok header ∧
        plugin = ⟨data, ctx, header, ⟨0, file.header.encode.length⟩, file.locateGroups⟩ := by
  constructor
  · intro accepted
    unfold Plugin.fromBytes at accepted
    cases parsed : Plugin.parseBytes inflate ctx ⟨data, 0⟩ with
    | error reason => simp [parsed, SliceCursor.new, Except.map] at accepted
    | ok found =>
      obtain ⟨⟨header, range, groups⟩, next⟩ := found
      simp only [SliceCursor.new, parsed, Except.map, Except.ok.injEq] at accepted
      unfold Plugin.parseBytes at parsed
      obtain ⟨_, _, started, parsed⟩ := Reader.bind_eq_ok.mp parsed
      cases started
      obtain ⟨header', _, headed, parsed⟩ := Reader.bind_eq_ok.mp parsed
      obtain ⟨_, after, rfl, rfl, raw, rfl, admitted⟩ :=
        (exact_pluginHeader inflate ctx).sound [] data header' _ headed
      obtain ⟨_, _, ended, parsed⟩ := Reader.bind_eq_ok.mp parsed
      cases ended
      obtain ⟨_, _, measured, parsed⟩ := Reader.bind_eq_ok.mp parsed
      cases measured
      obtain ⟨_, _, grouped, parsed⟩ := Reader.bind_eq_ok.mp parsed
      simp only [List.nil_append, List.length_nil, Nat.zero_add] at grouped parsed
      obtain ⟨tops, fits, rfl, rfl, rfl⟩ := (parseGroupsLoop_eq_ok ctx _ raw.encode after _ _
        (by rw [List.length_append]; omega)).mp grouped
      simp only [Reader.pure_apply, Except.ok.injEq, Prod.mk.injEq] at parsed
      obtain ⟨⟨rfl, rfl, rfl⟩, rfl⟩ := parsed
      exact ⟨⟨raw, tops⟩, header', fits, rfl, admitted, accepted.symm⟩
  · rintro ⟨file, header, fit, rfl, admitted, rfl⟩
    have headed := (exact_pluginHeader inflate ctx).complete [] file.header.encode
      (encodeAll (file.groups.map TopGroup.toNode)) header ⟨file.header, rfl, admitted⟩
    have grouped := (parseGroupsLoop_eq_ok ctx
      ((file.header.encode ++ encodeAll (file.groups.map TopGroup.toNode)).length + 1)
      file.header.encode (encodeAll (file.groups.map TopGroup.toNode)) file.locateGroups _
      (by rw [List.length_append]; omega)).mpr ⟨file.groups, fit, rfl, rfl, rfl⟩
    simp only [List.nil_append, List.length_nil, Nat.zero_add] at headed
    simp only [Plugin.fromBytes, Plugin.parseBytes, SliceCursor.new, File.encode, Reader.bind_apply,
      Reader.inspect, headed, grouped, Reader.pure_apply, Except.map]

end Bethkit
