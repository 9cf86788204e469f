import Bethkit.Lib.Pick
import Bethkit.Spec.Rewrite
import Bethkit.Verif.Standing

/-!
# Reordered trees

What a tree with registered orders should be written as is determined by the source. It has the
length of the source tree, and it is the source tree exactly when every registered order is the
one that the group already has: the bytes of records determine their FormIDs.
-/

namespace Bethkit

open Lib Layout

/-- An emitted group header is the header of the group with the emitted size. -/
@[simp]
theorem writeGroupHeader_header (head : GroupHead) (old size : Nat) :
    writeGroupHeader (head.header old) (UInt32.ofNat size) = head.encode size := by
  simp [writeGroupHeader, GroupHead.header, GroupHead.encode]

/-- The resized header of a group is its header with the new size, which fits its field. -/
theorem resized_iff (head : GroupHead) (old size : Nat) (header : Bytes) :
    Resized (head.encode old) size header ↔ size < 2 ^ 32 ∧ header = head.encode size := by
  have split (size : Nat) : head.encode size = Signature.GRUP.bytes.val ++
      (u32ToLeBytes (UInt32.ofNat size) ++ (head.label.val ++ i32ToLeBytes head.groupType.toRaw ++
        u32ToLeBytes head.versionControl ++ u32ToLeBytes head.unknown)) := by
    simp [GroupHead.encode]
  have front (size : Nat) : (head.encode size).take 4 = Signature.GRUP.bytes.val := by
    rw [split, List.take_left' (Signature.GRUP.bytes.property)]
  have middle (size : Nat) : (head.encode size).slice 4 8 = u32ToLeBytes (UInt32.ofNat size) := by
    rw [split]
    exact Bytes.slice_append Signature.GRUP.bytes.val (u32ToLeBytes (UInt32.ofNat size)) _
  have back (size : Nat) : (head.encode size).drop 8 = head.label.val ++
      i32ToLeBytes head.groupType.toRaw ++ u32ToLeBytes head.versionControl ++
        u32ToLeBytes head.unknown := by
    rw [split, ← List.append_assoc, List.drop_left' (by
      rw [List.length_append, length_u32ToLeBytes, Signature.GRUP.bytes.property])]
  constructor
  · rintro ⟨length, signature, sized, rest⟩
    have whole : header = header.take 4 ++ (header.slice 4 8 ++ header.drop 8) := by
      have later : header.drop 8 = (header.drop 4).drop 4 := by rw [List.drop_drop]
      rw [Bytes.slice, later, List.take_append_drop, List.take_append_drop]
    have four : (header.slice 4 8).length = 4 := by
      simp [Bytes.slice, length]
    have word := leValue_lt (header.slice 4 8)
    rw [four, sized] at word
    have field : header.slice 4 8 = u32ToLeBytes (UInt32.ofNat size) := by
      rw [← u32ToLeBytes_fromLeBytes _ four, u32FromLeBytes, sized]
    exact ⟨word, by rw [whole, signature, rest, field, front, back, split]⟩
  · rintro ⟨small, rfl⟩
    refine ⟨head.length_encode size, by rw [front, front], ?_, by rw [back, back]⟩
    rw [middle, u32ToLeBytes, leValue_leBytes, UInt32.toNat_ofNat']
    omega

/-- The source bytes of a record, if it has any. -/
def bytesOf (source : Bytes) (record : Record) : Bytes := (record.sourceBytes source).getD []

/-- Stored records with the same bytes have the same FormIDs. -/
theorem ids_of_flatMap_eq {source : Bytes} {left right : List Record}
    (leftStored : ∀ record ∈ left, Stored source record)
    (rightStored : ∀ record ∈ right, Stored source record)
    (same : left.flatMap (bytesOf source) = right.flatMap (bytesOf source)) :
    left.map (·.header.formId) = right.map (·.header.formId) := by
  have nonempty {record : Record} (stored : Stored source record) : bytesOf source record ≠ [] := by
    obtain ⟨raw, _, found⟩ := stored
    rw [bytesOf, found]
    exact fun empty => by simpa using congrArg List.length empty
  induction left generalizing right with
  | nil =>
    cases right with
    | nil => rfl
    | cons record right =>
      refine absurd (List.append_eq_nil_iff.mp same.symm).1 ?_
      exact nonempty (rightStored record List.mem_cons_self)
  | cons record left ih =>
    cases right with
    | nil =>
      exact absurd (List.append_eq_nil_iff.mp same).1
        (nonempty (leftStored record List.mem_cons_self))
    | cons other right =>
      obtain ⟨raw, header, found⟩ := leftStored record List.mem_cons_self
      obtain ⟨raw', header', found'⟩ := rightStored other List.mem_cons_self
      simp only [List.flatMap_cons, bytesOf, found, found', Option.getD_some] at same
      obtain ⟨equal, _, rest⟩ := (exact_record .sse).unique ⟨raw, rfl, rfl⟩ ⟨raw', rfl, rfl⟩ same
      have ids : raw.header.formId = raw'.header.formId := congrArg (·.header.formId) equal
      rw [List.map_cons, List.map_cons, header, header', ids,
        ih (fun item among => leftStored item (List.mem_cons_of_mem _ among))
          (fun item among => rightStored item (List.mem_cons_of_mem _ among)) rest]

/-- The registered orders of a tree are those that the patcher accepts: the group holds records
only, with different FormIDs, and the order is a permutation of them. -/
def ValidOrders (orderOf : OrderOf) (tree : GroupChild) : Prop :=
  ∀ group ∈ tree.nodes, ∀ order, orderOf group.1 = some order →
    group.2 = (Group.ofNode group).records.map .leaf ∧ (directIds group).Nodup ∧
      order.Perm (directIds group)

/-- Valid orders are valid below every child. -/
theorem ValidOrders.child {orderOf : OrderOf} {info : GroupInfo} {children : List GroupChild}
    (valid : ValidOrders orderOf (.node info children)) {child : GroupChild}
    (among : child ∈ children) : ValidOrders orderOf child := by
  intro group found
  refine valid group ?_
  rw [RoseTree.nodes_node]
  exact List.mem_cons_of_mem _ (List.mem_flatMap.mpr ⟨child, among, found⟩)

/-- A group has reordered groups when it is one or a child has some. -/
theorem hasReordered_node (orderOf : OrderOf) (info : GroupInfo) (children : List GroupChild) :
    HasReordered orderOf (.node info children) ↔
      (orderOf info).isSome ∨ ∃ child ∈ children, HasReordered orderOf child := by
  simp only [HasReordered, RoseTree.nodes_node, List.mem_cons, List.mem_flatMap, exists_eq_or_imp]
  refine or_congr_right ⟨?_, ?_⟩
  · rintro ⟨group, ⟨child, among, found⟩, registered⟩
    exact ⟨child, among, group, found, registered⟩
  · rintro ⟨child, among, group, found, registered⟩
    exact ⟨group, ⟨child, among, found⟩, registered⟩

/-- Orders are kept in a group when its own is and those of the children are. -/
theorem ordersKeep_node (orderOf : OrderOf) (info : GroupInfo) (children : List GroupChild) :
    OrdersKeep orderOf (.node info children) ↔
      (∀ order, orderOf info = some order → order = directIds (info, children)) ∧
        ∀ child ∈ children, OrdersKeep orderOf child := by
  simp only [OrdersKeep, RoseTree.nodes_node, List.mem_cons, List.mem_flatMap, forall_eq_or_imp]
  refine and_congr_right fun _ => ⟨?_, ?_⟩
  · intro all child among group found
    exact all group ⟨child, among, found⟩
  · rintro all group ⟨child, among, found⟩
    exact all child among group found

/-- Without reordered groups all orders are kept. -/
theorem ordersKeep_of_not {orderOf : OrderOf} {tree : GroupChild}
    (absent : ¬HasReordered orderOf tree) : OrdersKeep orderOf tree := by
  intro group found order registered
  exact absurd ⟨group, found, by rw [registered]; rfl⟩ absent

/-- The bytes of nodes that stand for records are the source bytes of the records. -/
theorem encodeAll_records {source : Bytes} {children : List Node} {records : List Record}
    (stands : List.Forall₂ (StandsAt source) children (records.map .leaf)) :
    encodeAll children = records.flatMap (bytesOf source) := by
  induction records generalizing children with
  | nil =>
    cases stands
    rfl
  | cons record records ih =>
    obtain ⟨node, nodes, head, tail, rfl⟩ := List.forall₂_cons_right_iff.mp stands
    have bytes : encode node = bytesOf source record := by
      cases node with
      | leaf raw =>
        obtain ⟨start, same, found⟩ := standsAt_leaf head
        obtain rfl : record = raw.locate start := by simpa using same
        rw [bytesOf, found, encode_leaf, Option.getD_some]
      | node head' children' =>
        obtain ⟨_, _, same, _⟩ := standsAt_node head
        exact absurd same (by simp)
    rw [encodeAll_cons, bytes, ih tail, List.flatMap_cons]

/-- The records of a standing group of records are stored. -/
theorem stored_records {source : Bytes} {children : List Node} {records : List Record}
    (stands : List.Forall₂ (StandsAt source) children (records.map .leaf)) :
    ∀ record ∈ records, Stored source record := by
  induction records generalizing children with
  | nil => exact fun _ found => absurd found List.not_mem_nil
  | cons record records ih =>
    obtain ⟨node, nodes, head, tail, rfl⟩ := List.forall₂_cons_right_iff.mp stands
    intro item found
    rcases List.mem_cons.mp found with rfl | later
    · exact stored_of_standsAt node head item (by simp)
    · exact ih tail item later

/-- The parts of a reordered group are the source bytes of the records picked by the order. -/
theorem orderedParts_iff {source : Bytes} {records : List Record} {order : List FormId}
    (stored : ∀ record ∈ records, Stored source record)
    (different : (records.map (·.header.formId)).Nodup)
    (known : ∀ formId ∈ order, formId ∈ records.map (·.header.formId)) (parts : List Bytes) :
    List.Forall₂ (fun formId part => ∃ record ∈ records, record.header.formId = formId ∧
        record.sourceBytes source = some part) order parts ↔
      parts = (pick (·.header.formId) order records).map (bytesOf source) := by
  induction order generalizing parts with
  | nil => simp [pick]
  | cons formId order ih =>
    obtain ⟨record, among, rfl⟩ := List.mem_map.mp (known formId List.mem_cons_self)
    obtain ⟨raw, _, bytes⟩ := stored record among
    have own : bytesOf source record = raw.encode := by rw [bytesOf, bytes, Option.getD_some]
    have tail := ih fun other found => known other (List.mem_cons_of_mem _ found)
    rw [List.forall₂_cons_left_iff, pick_cons _ (find_key (fun record : Record =>
      record.header.formId) different among), List.map_cons, own]
    constructor
    · rintro ⟨part, rest, ⟨other, inside, same, found⟩, below, rfl⟩
      have found' := find_key (fun record : Record => record.header.formId) different inside
      simp only [same, find_key (fun record : Record => record.header.formId) different among,
        Option.some.injEq] at found'
      rw [← found', bytes, Option.some.injEq] at found
      rw [← found, (tail rest).mp below]
    · rintro rfl
      exact ⟨raw.encode, _, ⟨record, among, rfl, bytes⟩, (tail _).mpr rfl, rfl⟩

/-- What a tree should be written as. -/
structure ReorderedTo (source : Bytes) (orderOf : OrderOf) (node : Node) (tree : GroupChild)
    (expected : Bytes) : Prop where
  /-- Nothing else will do. -/
  only : ∀ bytes, Reordered source orderOf tree bytes ↔ bytes = expected
  /-- The length does not change. -/
  length : expected.length = (encode node).length
  /-- The bytes change when an order does. -/
  keeps : expected = encode node ↔ OrdersKeep orderOf tree

/-- What siblings should be written as. -/
theorem reorderedTo_all {source : Bytes} {orderOf : OrderOf} {nodes : List Node}
    {trees : List GroupChild} (each : List.Forall₂
      (fun node tree => ∃ expected, ReorderedTo source orderOf node tree expected) nodes trees) :
    ∃ parts : List Bytes,
      (∀ bytes, List.Forall₂ (Reordered source orderOf) trees bytes ↔ bytes = parts) ∧
      parts.map List.length = nodes.map (fun node => (encode node).length) ∧
      (parts = nodes.map encode ↔ ∀ tree ∈ trees, OrdersKeep orderOf tree) := by
  induction each with
  | nil => exact ⟨[], by simp, rfl, by simp⟩
  | cons head _ ih =>
    obtain ⟨expected, only, length, keeps⟩ := head
    obtain ⟨parts, onlyAll, lengths, keepsAll⟩ := ih
    refine ⟨expected :: parts, fun bytes => ?_, by simp [length, lengths], ?_⟩
    · rw [List.forall₂_cons_left_iff]
      constructor
      · rintro ⟨first, rest, one, others, rfl⟩
        rw [(only first).mp one, (onlyAll rest).mp others]
      · rintro rfl
        exact ⟨expected, parts, (only _).mpr rfl, (onlyAll _).mpr rfl, rfl⟩
    · rw [List.map_cons, List.cons.injEq, keeps, keepsAll, List.forall_mem_cons]

/-- The bytes of a group around others are not those of an unchanged group, and conversely. -/
theorem reordered_node_cases {source : Bytes} {orderOf : OrderOf} {info : GroupInfo}
    {children : List GroupChild} {bytes : Bytes}
    (written : Reordered source orderOf (.node info children) bytes) :
    (¬HasReordered orderOf (.node info children) ∧
        (Group.ofNode (info, children)).sourceBytes source = some bytes) ∨
      ∃ (range : Range) (original header : Bytes) (parts : List Bytes),
        info.sourceRange = some range ∧
        source.get range.start (range.start + 24) = some original ∧
        Resized original (24 + parts.flatten.length) header ∧ bytes = header ++ parts.flatten ∧
        ((∃ order, orderOf info = some order ∧ List.Forall₂ (fun formId part =>
            ∃ record ∈ (Group.ofNode (info, children)).records, record.header.formId = formId ∧
              record.sourceBytes source = some part) order parts) ∨
          (orderOf info = none ∧ (∃ child ∈ children, HasReordered orderOf child) ∧
            List.Forall₂ (Reordered source orderOf) children parts)) := by
  cases written with
  | untouched absent found => exact .inl ⟨absent, found⟩
  | reordered registered placed found emitted resized =>
    exact .inr ⟨_, _, _, _, placed, found, resized, rfl, .inl ⟨_, registered, emitted⟩⟩
  | ancestor own below placed found emitted resized =>
    exact .inr ⟨_, _, _, _, placed, found, resized, rfl, .inr ⟨own, below, emitted⟩⟩

/-- Nothing below a record keeps or changes an order. -/
theorem ordersKeep_leaf (orderOf : OrderOf) (record : Record) :
    OrdersKeep orderOf (.leaf record) := by simp [OrdersKeep]

/-- The records of a group that an order was registered for. -/
structure OrderedGroup (source : Bytes) (children : List Node)
    (group : GroupInfo × List GroupChild) (order : List FormId) : Prop where
  /-- The group holds nothing else. -/
  leaves : group.2 = (Group.ofNode group).records.map .leaf
  /-- Their bytes are in the source. -/
  stored : ∀ record ∈ (Group.ofNode group).records, Stored source record
  /-- Their bytes are those of the group. -/
  bytes : encodeAll children = (Group.ofNode group).records.flatMap (bytesOf source)
  /-- No two of them have the same FormID. -/
  different : (directIds group).Nodup
  /-- The order permutes their FormIDs. -/
  shuffled : order.Perm (directIds group)

namespace OrderedGroup

/-- A standing group with a valid order. -/
theorem of_valid {source : Bytes} {orderOf : OrderOf} {children : List Node} {info : GroupInfo}
    {trees : List GroupChild} (below : List.Forall₂ (StandsAt source) children trees)
    (valid : ValidOrders orderOf (.node info trees)) {order : List FormId}
    (registered : orderOf info = some order) :
    OrderedGroup source children (info, trees) order := by
  obtain ⟨leaves, different, shuffled⟩ := valid (info, trees) (by simp) order registered
  dsimp only at leaves
  rw [leaves] at below
  exact ⟨leaves, stored_records below, encodeAll_records below, different, shuffled⟩

variable {source : Bytes} {children : List Node} {group : GroupInfo × List GroupChild}
  {order : List FormId}

/-- Every FormID of the order is one of the group. -/
theorem known (ordered : OrderedGroup source children group order) :
    ∀ formId ∈ order, formId ∈ directIds group :=
  fun _ found => ordered.shuffled.mem_iff.mp found

/-- The records in the registered order are the same records. -/
theorem picked (ordered : OrderedGroup source children group order) :
    (pick (·.header.formId) order (Group.ofNode group).records).Perm (Group.ofNode group).records :=
  pick_perm _ ordered.different ordered.shuffled

/-- The records in the registered order are as long as the group. -/
theorem length (ordered : OrderedGroup source children group order) :
    ((pick (·.header.formId) order (Group.ofNode group).records).map
      (bytesOf source)).flatten.length = (encodeAll children).length := by
  rw [ordered.bytes, ← List.flatMap_def]
  exact (ordered.picked.flatMap_right _).length_eq

/-- The records in the registered order have the bytes of the group when the order is its own. -/
theorem flatten_eq_iff (ordered : OrderedGroup source children group order) :
    ((pick (·.header.formId) order (Group.ofNode group).records).map (bytesOf source)).flatten =
      encodeAll children ↔ order = directIds group := by
  have ids := map_key_pick (fun record : Record => record.header.formId) ordered.known
  rw [ordered.bytes, ← List.flatMap_def]
  constructor
  · intro same
    exact ids.symm.trans (ids_of_flatMap_eq
      (fun record found => ordered.stored record (mem_of_mem_pick _ found)) ordered.stored same)
  · rintro rfl
    rw [directIds, pick_self _ ordered.different]

end OrderedGroup

/-- A reordered group should be written with its records in the registered order. -/
theorem exists_reorderedTo_own {source : Bytes} {orderOf : OrderOf} {head : GroupHead}
    {children : List Node} {range : Range} {trees : List GroupChild} {info : GroupInfo}
    (placed : info.sourceRange = some range) (small : 24 + (encodeAll children).length < 2 ^ 32)
    (front : source.get range.start (range.start + 24) =
      some (head.encode (24 + (encodeAll children).length))) {order : List FormId}
    (registered : orderOf info = some order)
    (ordered : OrderedGroup source children (info, trees) order) :
    ∃ expected, ReorderedTo source orderOf (.node head children) (.node info trees) expected := by
  have touched : HasReordered orderOf (.node info trees) :=
    (hasReordered_node ..).mpr (.inl (by rw [registered]; rfl))
  have parts_iff := orderedParts_iff ordered.stored ordered.different ordered.known
  refine ⟨head.encode (24 + (encodeAll children).length) ++ ((pick (·.header.formId) order
    (Group.ofNode (info, trees)).records).map (bytesOf source)).flatten, fun out => ⟨?_, ?_⟩, ?_, ?_⟩
  · intro written
    rcases reordered_node_cases written with ⟨absent, _⟩ |
        ⟨range', original, header, parts, placed', front', resized, rfl, ⟨order', own, emitted⟩ | other⟩
    · exact absurd touched absent
    · obtain rfl : range = range' := Option.some.inj (placed.symm.trans placed')
      obtain rfl := Option.some.inj (front.symm.trans front')
      obtain rfl : order = order' := Option.some.inj (registered.symm.trans own)
      obtain rfl := (parts_iff parts).mp emitted
      rw [((resized_iff _ _ _ _).mp resized).2, ordered.length]
    · exact absurd (registered.symm.trans other.1) (by simp)
  · rintro rfl
    refine .reordered registered placed front ((parts_iff _).mpr rfl) ?_
    rw [ordered.length]
    exact (resized_iff _ _ _ _).mpr ⟨small, rfl⟩
  · rw [encode_node, List.length_append, List.length_append, ordered.length]
  · have leaves : ∀ child ∈ trees, OrdersKeep orderOf child := by
      have plain := ordered.leaves
      dsimp only at plain
      rw [plain]
      intro child among
      obtain ⟨record, _, rfl⟩ := List.mem_map.mp among
      exact ordersKeep_leaf orderOf record
    rw [ordersKeep_node, encode_node, List.append_cancel_left_eq, ordered.flatten_eq_iff]
    constructor
    · rintro rfl
      exact ⟨fun order own => Option.some.inj (own.symm.trans registered), leaves⟩
    · rintro ⟨keeps, _⟩
      exact keeps order registered

/-- A group around reordered ones should be written as its children should be. -/
theorem exists_reorderedTo_ancestor {source : Bytes} {orderOf : OrderOf} {head : GroupHead}
    {children : List Node} {range : Range} {trees : List GroupChild} {info : GroupInfo}
    (placed : info.sourceRange = some range) (small : 24 + (encodeAll children).length < 2 ^ 32)
    (front : source.get range.start (range.start + 24) =
      some (head.encode (24 + (encodeAll children).length)))
    (each : List.Forall₂ (fun node tree => ∃ expected,
      ReorderedTo source orderOf node tree expected) children trees)
    (own : orderOf info = none) (around : ∃ child ∈ trees, HasReordered orderOf child) :
    ∃ expected, ReorderedTo source orderOf (.node head children) (.node info trees) expected := by
  obtain ⟨parts, only, lengths, keeps⟩ := reorderedTo_all each
  have touched : HasReordered orderOf (.node info trees) := (hasReordered_node ..).mpr (.inr around)
  have length : parts.flatten.length = (encodeAll children).length := by
    rw [List.length_flatten, lengths, encodeAll, List.length_flatMap]
  refine ⟨head.encode (24 + (encodeAll children).length) ++ parts.flatten,
    fun out => ⟨?_, ?_⟩, ?_, ?_⟩
  · intro written
    rcases reordered_node_cases written with ⟨absent, _⟩ |
        ⟨range', original, header, parts', placed', front', resized, rfl, other | ⟨_, _, emitted⟩⟩
    · exact absurd touched absent
    · obtain ⟨order, registered, _⟩ := other
      exact absurd (own.symm.trans registered) (by simp)
    · obtain rfl : range = range' := Option.some.inj (placed.symm.trans placed')
      obtain rfl := Option.some.inj (front.symm.trans front')
      obtain rfl := (only parts').mp emitted
      rw [((resized_iff _ _ _ _).mp resized).2, length]
  · rintro rfl
    refine .ancestor own around placed front ((only _).mpr rfl) ?_
    rw [length]
    exact (resized_iff _ _ _ _).mpr ⟨small, rfl⟩
  · rw [encode_node, List.length_append, List.length_append, length]
  · have ordered : (∀ order, orderOf info = some order → order = directIds (info, trees)) := by
      simp [own]
    rw [ordersKeep_node, ← keeps, encode_node, List.append_cancel_left_eq]
    constructor
    · intro same
      refine ⟨ordered, eq_of_flatten_eq ?_ (same.trans (List.flatMap_def ..))⟩
      rw [lengths, List.map_map]
      rfl
    · rintro ⟨_, rfl⟩
      exact (List.flatMap_def ..).symm

/-- A standing tree with valid orders should be written in one way. -/
theorem exists_reorderedTo {source : Bytes} {orderOf : OrderOf} (node : Node) (fit : Fits node)
    {tree : GroupChild} (stands : StandsAt source node tree) (valid : ValidOrders orderOf tree) :
    ∃ expected, ReorderedTo source orderOf node tree expected := by
  induction node using RoseTree.ind generalizing tree with
  | leaf raw =>
    obtain ⟨start, rfl, found⟩ := standsAt_leaf stands
    refine ⟨raw.encode, fun bytes => ⟨?_, ?_⟩, by simp, by simp [OrdersKeep]⟩
    · rintro (found' | _ | _ | _)
      exact (Option.some.inj (found.symm.trans found')).symm
    · rintro rfl
      exact .record found
  | node head children ih =>
    obtain ⟨small, fits⟩ := (fits_node head children).mp fit
    obtain ⟨range, trees, rfl, whole, front, below⟩ := standsAt_node stands
    have sourced : (Group.ofNode (⟨head.header (24 + (encodeAll children).length), some range⟩,
        trees)).sourceBytes source = some (encode (.node head children)) := whole
    by_cases touched : HasReordered orderOf
        (.node ⟨head.header (24 + (encodeAll children).length), some range⟩ trees)
    · cases own : orderOf ⟨head.header (24 + (encodeAll children).length), some range⟩ with
      | some order => exact exists_reorderedTo_own rfl small front own (.of_valid below valid own)
      | none =>
        rcases (hasReordered_node ..).mp touched with registered | around
        · rw [own] at registered
          exact absurd registered (by simp)
        · exact exists_reorderedTo_ancestor rfl small front (forall₂_imp_mem below
            fun child inside tree among stands => ih child inside (fits child inside) stands
              (valid.child among)) own around
    · refine ⟨_, fun bytes => ⟨fun written => ?_, ?_⟩, rfl,
        iff_of_true rfl (ordersKeep_of_not touched)⟩
      · rcases reordered_node_cases written with ⟨_, found⟩ | ⟨_, _, _, _, _, _, _, _, own | around⟩
        · exact Option.some.inj (found.symm.trans sourced)
        · obtain ⟨order, registered, _⟩ := own
          exact absurd ((hasReordered_node ..).mpr (.inl (by rw [registered]; rfl))) touched
        · exact absurd ((hasReordered_node ..).mpr (.inr around.2.1)) touched
      · rintro rfl
        exact .untouched touched sourced

/-- The bytes that siblings should be written as have the lengths of the siblings. -/
theorem lengths_of_reordered {source : Bytes} {orderOf : OrderOf} {nodes : List Node}
    {trees : List GroupChild} {parts : List Bytes} (fits : ∀ node ∈ nodes, Fits node)
    (stands : List.Forall₂ (StandsAt source) nodes trees)
    (valid : ∀ tree ∈ trees, ValidOrders orderOf tree)
    (reordered : List.Forall₂ (Reordered source orderOf) trees parts) :
    parts.map List.length = nodes.map fun node => (encode node).length := by
  obtain ⟨expected, only, lengths, _⟩ := reorderedTo_all (forall₂_imp_mem stands
    fun node inside tree among stands =>
      exists_reorderedTo node (fits node inside) stands (valid tree among))
  rw [(only parts).mp reordered, lengths]

end Bethkit
