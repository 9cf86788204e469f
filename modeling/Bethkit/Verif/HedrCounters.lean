import Bethkit.Core.PatcherHeader

/-!
# The counters of the header

The patcher counts groups and records by a worklist, the output is produced by a recursion. Both
see the same tree: the worklist adds one for every group and record, and raises the next object
ID past every object ID that the plugin owns, whatever the order of the visits.
-/

namespace Bethkit

open Lib

/-- One more than the highest object ID among the FormIDs of an owner, or zero. -/
def ownedTop (owner : Nat) (ids : List FormId) : Nat :=
  (ids.filter (·.fileIndex.toNat = owner)).foldr (fun id top => max (id.objectId.toNat + 1) top) 0

/-- The top is the least bound on the successors of the owned object IDs. -/
theorem ownedTop_le_iff (owner : Nat) (ids : List FormId) (bound : Nat) :
    ownedTop owner ids ≤ bound ↔
      ∀ id ∈ ids, id.fileIndex.toNat = owner → id.objectId.toNat < bound := by
  unfold ownedTop
  induction ids with
  | nil => simp
  | cons id ids ih =>
    by_cases owned : id.fileIndex.toNat = owner
    · simp [owned, ih]
    · simp [owned, ih]

/-- The top depends only on which FormIDs occur. -/
theorem ownedTop_congr {owner : Nat} {left right : List FormId}
    (same : ∀ id, id ∈ left ↔ id ∈ right) : ownedTop owner left = ownedTop owner right :=
  eq_of_forall_ge_iff fun bound => by simp only [ownedTop_le_iff, same]

/-- The top of two lists is the higher one. -/
theorem ownedTop_append (owner : Nat) (left right : List FormId) :
    ownedTop owner (left ++ right) = max (ownedTop owner left) (ownedTop owner right) :=
  eq_of_forall_ge_iff fun bound => by
    simp only [Nat.max_le, ownedTop_le_iff, List.mem_append, or_imp, forall_and]

/-- The top stays within 24 bits and one. -/
theorem ownedTop_le (owner : Nat) (ids : List FormId) : ownedTop owner ids ≤ 2 ^ 24 :=
  (ownedTop_le_iff owner ids _).mpr fun id _ _ => id.objectId_lt

/-- The larger word denotes the larger number. -/
theorem toNat_max (left right : UInt32) : (max left right).toNat = max left.toNat right.toNat := by
  change (if left ≤ right then right else left).toNat = _
  by_cases le : left ≤ right
  · rw [if_pos le, Nat.max_eq_right (UInt32.le_iff_toNat_le.mp le)]
  · rw [if_neg le, Nat.max_eq_left]
    have := UInt32.le_iff_toNat_le.not.mp le
    omega

namespace HedrCounters

/-- Add a number of records and groups, and raise the next object ID to a bound. -/
def tally (counters : HedrCounters) (count top : Nat) : Except CoreError HedrCounters :=
  if counters.recordCount.toNat + count < 2 ^ 32 then
    .ok ⟨UInt32.ofNat (counters.recordCount.toNat + count),
      UInt32.ofNat (max counters.nextId.toNat top)⟩
  else .error (.invalidEncoding "plugin record count exceeds u32")

/-- Nothing is added at the end of a list. -/
theorem tally_zero (counters : HedrCounters) : counters.tally 0 0 = .ok counters := by
  have small := counters.recordCount.toNat_lt
  simp [tally, small]

/-- Tallies add up. -/
theorem tally_tally (counters : HedrCounters) (count more top further : Nat)
    (low : top ≤ 2 ^ 24) :
    (counters.tally count top >>= fun next => next.tally more further) =
      counters.tally (count + more) (max top further) := by
  have small := counters.nextId.toNat_lt
  unfold tally
  by_cases first : counters.recordCount.toNat + count < 2 ^ 32
  · simp only [first, ↓reduceIte, bind, Except.bind]
    rw [UInt32.toNat_ofNat', UInt32.toNat_ofNat', Nat.mod_eq_of_lt first, Nat.mod_eq_of_lt,
      Nat.add_assoc, Nat.max_assoc]
    omega
  · simp only [first, ↓reduceIte, bind, Except.bind]
    rw [if_neg (by omega)]

/-- Counting one adds one. -/
theorem countOne_eq (counters : HedrCounters) : counters.countOne = counters.tally 1 0 := by
  have small := counters.recordCount.toNat_lt
  unfold countOne tally
  by_cases full : counters.recordCount = 0xFFFFFFFF
  · simp [full]
  · have room : counters.recordCount.toNat + 1 < 2 ^ 32 := by
      have distinct : counters.recordCount.toNat ≠ (0xFFFFFFFF : UInt32).toNat := fun same =>
        full (UInt32.toNat_inj.mp same)
      have value : (0xFFFFFFFF : UInt32).toNat = 2 ^ 32 - 1 := rfl
      omega
    rw [if_neg full, if_pos room, Nat.max_zero, UInt32.ofNat_add, UInt32.ofNat_toNat,
      UInt32.ofNat_toNat]
    rfl

/-- A record of the plugin raises the next object ID past its own; another one changes
nothing. -/
theorem raise_eq (owner : Nat) (id : FormId) (counters : HedrCounters) :
    (.ok (if id.fileIndex.toNat = owner then
        { counters with nextId := max counters.nextId (id.objectId + 1) }
      else counters) : Except CoreError HedrCounters) = counters.tally 0 (ownedTop owner [id]) := by
  have small := counters.recordCount.toNat_lt
  by_cases owned : id.fileIndex.toNat = owner
  · have low := id.objectId_lt
    have successor : (id.objectId + 1).toNat = id.objectId.toNat + 1 := by
      rw [UInt32.toNat_add, Nat.mod_eq_of_lt] <;> simp
      omega
    have raised : max counters.nextId (id.objectId + 1) =
        UInt32.ofNat (max counters.nextId.toNat (id.objectId.toNat + 1)) := by
      rw [← successor, ← toNat_max, UInt32.ofNat_toNat]
    simp [tally, small, ownedTop, owned, raised]
  · simp [tally, small, ownedTop, owned]

/-- Counting records adds their number and raises the next object ID past the owned ones. -/
theorem countRecords_eq (owner : Nat) (records : List Record) (counters : HedrCounters) :
    countRecords owner records counters =
      counters.tally records.length (ownedTop owner (records.map (·.header.formId))) := by
  induction records generalizing counters with
  | nil => exact (tally_zero counters).symm
  | cons record records ih =>
    calc countRecords owner (record :: records) counters
        = (counters.tally 1 0 >>= fun counted => counted.tally 0 (ownedTop owner
            [record.header.formId]) >>= fun raised => raised.tally records.length
            (ownedTop owner (records.map (·.header.formId)))) := by
          simp only [countRecords, countOne_eq, ih, ← raise_eq]
          rfl
      _ = counters.tally (1 + (0 + records.length)) (max 0 (max (ownedTop owner
            [record.header.formId]) (ownedTop owner (records.map (·.header.formId))))) := by
          simp only [tally_tally _ _ _ _ _ (ownedTop_le owner _), tally_tally _ _ _ _ _ (Nat.zero_le _)]
      _ = _ := by
          rw [Nat.zero_max, ← ownedTop_append, Nat.zero_add, Nat.add_comm]
          rfl

/-- A group weighs one, its records and its nested groups. -/
theorem worklistWeight_cons (group : Group) (groups : List Group) :
    worklistWeight (group :: groups) =
      1 + group.records.length + worklistWeight (group.subgroups.reverse ++ groups) := by
  have split : (group.children.map RoseTree.size).sum =
      group.records.length + worklistWeight group.subgroups := by
    unfold Group.records Group.subgroups
    induction group.children with
    | nil => rfl
    | cons child children ih =>
      cases child with
      | leaf record =>
        simp only [List.map_cons, List.sum_cons, RoseTree.size_leaf, ih, List.filterMap_cons,
          List.length_cons]
        omega
      | node info below =>
        have same : (Group.ofNode (info, below)).toChild = .node info below := rfl
        simp only [List.map_cons, List.sum_cons, ih, List.filterMap_cons, worklistWeight, same]
        omega
  simp only [worklistWeight, List.map_append, List.map_reverse, List.sum_append, List.sum_reverse,
    List.map_cons, List.sum_cons, Group.toChild, RoseTree.size_node] at split ⊢
  omega

/-- The records below a group are its own and those below its nested groups. -/
theorem mem_leaves_toChild (group : Group) (record : Record) :
    record ∈ group.toChild.leaves ↔
      record ∈ group.records ∨ ∃ nested ∈ group.subgroups, record ∈ nested.toChild.leaves := by
  rw [Group.toChild, RoseTree.leaves_node, Group.records, Group.subgroups]
  induction group.children with
  | nil => simp
  | cons child children ih =>
    cases child with
    | leaf other => simp [ih, or_assoc]
    | node info below =>
      have same : (Group.ofNode (info, below)).toChild = .node info below := rfl
      simp [ih, same, or_left_comm]

/-- One pass of the worklist counts a group and its records. -/
theorem countGroups_cons (owner : Nat) (group : Group) (groups : List Group)
    (counters : HedrCounters) :
    countGroups owner (group :: groups) counters =
      (counters.countOne >>= fun counted => countRecords owner group.records counted >>=
        fun counted => countGroups owner (group.subgroups.reverse ++ groups) counted) := by
  rw [countGroups]
  cases counters.countOne with
  | error reason => rfl
  | ok counted =>
    simp only [bind, Except.bind]
    cases countRecords owner group.records counted <;> rfl

/-- The worklist adds one for every group and record below it, and raises the next object ID
past the owned records. -/
theorem countGroups_eq (owner : Nat) (groups : List Group) (counters : HedrCounters) :
    countGroups owner groups counters =
      counters.tally (worklistWeight groups) (ownedTop owner
        ((groups.flatMap fun group => group.toChild.leaves).map (·.header.formId))) := by
  induction weight : worklistWeight groups using Nat.strong_induction_on
    generalizing groups counters with
  | _ total ih =>
    subst weight
    cases groups with
    | nil =>
      rw [countGroups]
      exact (tally_zero counters).symm
    | cons group groups =>
      have smaller := worklistWeight_subgroups group groups
      have below := fun counted => ih _ smaller (group.subgroups.reverse ++ groups) counted rfl
      have same : ownedTop owner ((group.records ++ ((group.subgroups.reverse ++ groups).flatMap
          fun nested => nested.toChild.leaves)).map (·.header.formId)) =
          ownedTop owner (((group :: groups).flatMap fun group => group.toChild.leaves).map
            (·.header.formId)) := by
        refine ownedTop_congr fun id => ?_
        simp only [List.mem_map, List.mem_append, List.mem_flatMap, List.mem_reverse,
          List.flatMap_cons, mem_leaves_toChild group]
        refine exists_congr fun record => and_congr_left fun _ => ?_
        simp only [or_and_right, exists_or, or_assoc]
      calc countGroups owner (group :: groups) counters
          = (counters.tally 1 0 >>= fun counted => counted.tally group.records.length (ownedTop
              owner (group.records.map (·.header.formId))) >>= fun counted => counted.tally
              (worklistWeight (group.subgroups.reverse ++ groups)) (ownedTop owner
              (((group.subgroups.reverse ++ groups).flatMap fun nested =>
                nested.toChild.leaves).map (·.header.formId)))) := by
            simp only [countGroups_cons, countOne_eq, countRecords_eq, below]
        _ = counters.tally (1 + (group.records.length + worklistWeight
              (group.subgroups.reverse ++ groups))) (ownedTop owner ((group.records ++
              ((group.subgroups.reverse ++ groups).flatMap fun nested =>
                nested.toChild.leaves)).map (·.header.formId))) := by
            simp only [tally_tally _ _ _ _ _ (ownedTop_le owner _),
              tally_tally _ _ _ _ _ (Nat.zero_le _), Nat.zero_max, ← ownedTop_append,
              List.map_append]
        _ = _ := by rw [same, worklistWeight_cons, Nat.add_assoc]

end HedrCounters

/-- The number of groups and main records of a plugin, at all depths. -/
def Plugin.treeSize (plugin : Plugin) : Nat := plugin.allGroups.length + plugin.records.length

/-- The worklist starts with everything the plugin contains. -/
theorem worklistWeight_groups (plugin : Plugin) :
    HedrCounters.worklistWeight plugin.groups.reverse = plugin.treeSize := by
  rw [Plugin.treeSize, Plugin.allGroups_eq, Plugin.records_eq, HedrCounters.worklistWeight,
    List.map_reverse, List.sum_reverse]
  induction plugin.groups with
  | nil => rfl
  | cons group groups ih =>
    rw [List.map_cons, List.sum_cons, ih, RoseTree.size_eq]
    simp only [List.map_cons, List.flatMap_cons, List.length_append]
    omega

/-- The new counters: the number of groups and records, and a next object ID that is not below
the old one, not below `0x801` and above every object ID of the plugin's own records. -/
theorem headerCounters_eq (plugin : Plugin) (patch : Option PluginHeaderPatch) :
    headerCounters plugin patch =
      HedrCounters.tally ⟨0, max plugin.header.nextObjectId.val 0x801⟩ plugin.treeSize
        (ownedTop (ownIndex plugin patch) (plugin.records.map (·.header.formId))) := by
  rw [headerCounters, HedrCounters.countGroups_eq, worklistWeight_groups]
  congr 1
  refine ownedTop_congr fun id => ?_
  simp only [Plugin.records_eq, List.mem_map, List.mem_flatMap, List.mem_reverse,
    exists_exists_and_eq_and]

/-- The counters can be computed when the number of groups and records fits 32 bits. -/
theorem exists_headerCounters {plugin : Plugin} (small : plugin.treeSize < 2 ^ 32)
    (patch : Option PluginHeaderPatch) : ∃ counters, headerCounters plugin patch = .ok counters := by
  rw [headerCounters_eq, HedrCounters.tally, if_pos (by simpa using small)]
  exact ⟨_, rfl⟩

end Bethkit
