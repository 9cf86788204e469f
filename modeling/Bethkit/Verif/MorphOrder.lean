import Bethkit.Lib.Outcome
import Bethkit.Lib.Sorting
import Bethkit.Spec.AfterLoad

/-!
# Sorting morphs by the master

The keys of the master get their positions as orders, and the others count on from the number of
master keys. So the sorted morphs are, for each master key in turn, the morphs with that key, and
behind them the other morphs. That starts with the master keys exactly when each of them occurs
once. The code tests only that there are as many morphs with a master key as master keys.
-/

namespace Bethkit

open Lib

/-- The map has the positions of the master keys. -/
def HasPositions (positions : Std.TreeMap UInt32 Nat) (masterKeys : List UInt32) : Prop :=
  ∀ (key : UInt32) (index : Nat), positions[key]? = some index ↔ masterKeys[index]? = some key

/-- The map that the code builds has the positions of the master keys. -/
theorem hasPositions_masterPositions {masterKeys : List UInt32}
    {positions : Std.TreeMap UInt32 Nat} (built : masterPositions masterKeys = some positions) :
    HasPositions positions masterKeys := by
  induction masterKeys using List.reverseRecOn generalizing positions with
  | nil =>
    intro key index
    have empty : positions = ∅ := (Option.some.inj built).symm
    rw [empty]
    simp
  | append_singleton masterKeys last ih =>
    rw [masterPositions, List.zipIdx_append, List.foldlM_append] at built
    obtain ⟨before, earlier, added⟩ := Option.bind_eq_some_iff.mp built
    have located := ih earlier
    rw [List.zipIdx_singleton, List.foldlM_cons, Nat.zero_add] at added
    by_cases listed : before.contains last = true
    · rw [if_pos listed] at added
      cases added
    · rw [if_neg listed] at added
      have inserted : positions = before.insert last masterKeys.length :=
        (Option.some.inj added).symm
      have fresh : before[last]? = none :=
        Std.TreeMap.getElem?_eq_none fun member => listed (Std.TreeMap.contains_iff_mem.mpr member)
      intro key index
      rw [inserted, Std.TreeMap.getElem?_insert]
      by_cases same : compare last key = .eq
      · have equal : last = key := Std.LawfulEqOrd.eq_of_compare same
        rw [if_pos same, ← equal]
        constructor
        · intro here
          rw [← Option.some.inj here, List.getElem?_concat_length]
        · intro here
          by_cases inside : index < masterKeys.length
          · rw [List.getElem?_append_left inside] at here
            rw [(located last index).mpr here] at fresh
            cases fresh
          · have place := (List.getElem?_eq_some_iff.mp here).1
            rw [List.length_append, List.length_singleton] at place
            congr 1
            omega
      · rw [if_neg same, located]
        have other : last ≠ key := fun equal => same (equal ▸ Std.ReflOrd.compare_self)
        by_cases inside : index < masterKeys.length
        · rw [List.getElem?_append_left inside]
        · rw [List.getElem?_append_right (Nat.not_lt.mp inside),
            List.getElem?_eq_none (Nat.not_lt.mp inside)]
          constructor
          · exact fun none => by cases none
          · intro here
            have place := (List.getElem?_eq_some_iff.mp here).2
            have member : key ∈ [last] := place ▸ List.getElem_mem _
            exact absurd (List.mem_singleton.mp member).symm other

namespace HasPositions

variable {positions : Std.TreeMap UInt32 Nat} {masterKeys : List UInt32} {key : UInt32}
  {index next : Nat}

/-- Only keys of the master have a position. -/
theorem eq_none_iff (located : HasPositions positions masterKeys) :
    positions[key]? = none ↔ key ∉ masterKeys := by
  rw [List.mem_iff_getElem?, Option.eq_none_iff_forall_ne_some, not_exists]
  exact forall_congr' fun index => not_congr (located key index)

/-- A position is one of the master keys. -/
theorem lt (located : HasPositions positions masterKeys) (found : positions[key]? = some index) :
    index < masterKeys.length :=
  (List.getElem?_eq_some_iff.mp ((located key index).mp found)).1

end HasPositions

/-- The orders of keys, where the next one that the master does not have gets this order. -/
def morphOrders (positions : Std.TreeMap UInt32 Nat) : Nat → List UInt32 → List Nat
  | _, [] => []
  | next, key :: keys =>
    match positions[key]? with
    | some order => order :: morphOrders positions next keys
    | none => next :: morphOrders positions (next + 1) keys

section Orders

variable {positions : Std.TreeMap UInt32 Nat} {masterKeys : List UInt32} {next : Nat}

/-- A key of the master gets its position. -/
theorem morphOrders_known {key : UInt32} {order : Nat} (found : positions[key]? = some order)
    (keys : List UInt32) :
    morphOrders positions next (key :: keys) = order :: morphOrders positions next keys := by
  rw [morphOrders, found]

/-- Another key gets the next order. -/
theorem morphOrders_unknown {key : UInt32} (absent : positions[key]? = none)
    (keys : List UInt32) :
    morphOrders positions next (key :: keys) = next :: morphOrders positions (next + 1) keys := by
  rw [morphOrders, absent]

/-- Every key gets an order. -/
@[simp]
theorem length_morphOrders (keys : List UInt32) :
    (morphOrders positions next keys).length = keys.length := by
  induction keys generalizing next with
  | nil => rfl
  | cons key keys ih =>
    cases found : positions[key]? with
    | some order => rw [morphOrders_known found, List.length_cons, List.length_cons, ih]
    | none => rw [morphOrders_unknown found, List.length_cons, List.length_cons, ih]

/-- The loop gives the orders, counts the other keys, and looks for master keys out of place. -/
theorem foldl_orderMorph (keys : List UInt32) (start : Nat) (orders : MorphOrders) :
    (keys.zipIdx start).foldl (orderMorph positions) orders =
      ⟨orders.sortOrders ++ morphOrders positions orders.nextUnknown keys,
        orders.nextUnknown + keys.countP fun key => positions[key]? = none,
        orders.needsSort ||
          (keys.zipIdx start).any fun key => positions[key.1]?.any (· ≠ key.2)⟩ := by
  induction keys generalizing start orders with
  | nil => simp [morphOrders]
  | cons key keys ih =>
    rw [List.zipIdx_cons, List.foldl_cons, ih, List.any_cons, orderMorph]
    cases found : positions[key]? with
    | some order =>
      rw [morphOrders_known found, List.countP_cons_of_neg (by simp [found])]
      simp [Bool.or_assoc]
    | none =>
      rw [morphOrders_unknown found, List.countP_cons_of_pos (by simp [found])]
      simp [Nat.add_assoc, Nat.add_comm]

/-- The entries with the order of a master key are those with that key. -/
theorem filter_zip_of_lt (located : HasPositions positions masterKeys)
    (entries : List (UInt32 × Bytes)) {level : Nat} (below : level < masterKeys.length)
    (behind : masterKeys.length ≤ next) :
    (((morphOrders positions next (entries.map Prod.fst)).zip entries).filter
        (·.1 = level)).map Prod.snd =
      entries.filter fun entry => entry.1 = masterKeys[level] := by
  induction entries generalizing next with
  | nil => rfl
  | cons entry entries ih =>
    have here := located entry.1 level
    rw [List.getElem?_eq_getElem below, Option.some.injEq] at here
    rw [List.map_cons]
    cases found : positions[entry.1]? with
    | some order =>
      rw [morphOrders_known found, List.zip_cons_cons]
      rw [found, Option.some.injEq] at here
      by_cases same : order = level
      · rw [List.filter_cons_of_pos (by simp [same]), List.map_cons, ih behind,
          List.filter_cons_of_pos (by simp [here.mp same])]
      · rw [List.filter_cons_of_neg (by simp [same]), ih behind,
          List.filter_cons_of_neg (by simpa using fun equal => same (here.mpr equal.symm))]
    | none =>
      have apart : next ≠ level := by omega
      have other : entry.1 ≠ masterKeys[level] := fun equal => by
        have placed := here.mpr equal.symm
        rw [found] at placed
        cases placed
      rw [morphOrders_unknown found, List.zip_cons_cons,
        List.filter_cons_of_neg (by simp [apart]), ih (by omega),
        List.filter_cons_of_neg (by simpa using other)]

/-- The entries with orders behind the master keys are the other entries, in their order. -/
theorem filter_zip_of_ge (located : HasPositions positions masterKeys)
    (entries : List (UInt32 × Bytes)) (behind : masterKeys.length ≤ next) :
    (∀ level, masterKeys.length ≤ level → level < next →
      (((morphOrders positions next (entries.map Prod.fst)).zip entries).filter
        (·.1 = level)).map Prod.snd = []) ∧
    ((List.range' next (entries.countP (·.1 ∉ masterKeys))).flatMap fun level =>
      (((morphOrders positions next (entries.map Prod.fst)).zip entries).filter
        (·.1 = level)).map Prod.snd) =
      entries.filter (·.1 ∉ masterKeys) := by
  induction entries generalizing next with
  | nil => exact ⟨fun level _ _ => rfl, rfl⟩
  | cons entry entries ih =>
    rw [List.map_cons]
    cases found : positions[entry.1]? with
    | some order =>
      have known : ¬entry.1 ∉ masterKeys := fun absent => by
        rw [located.eq_none_iff.mpr absent] at found
        cases found
      have small := located.lt found
      obtain ⟨earlier, later⟩ := ih behind
      have skip (level : Nat) (high : masterKeys.length ≤ level) :
          ((morphOrders positions next (entry.1 :: entries.map Prod.fst)).zip
            (entry :: entries)).filter (·.1 = level) =
          ((morphOrders positions next (entries.map Prod.fst)).zip entries).filter
            (·.1 = level) := by
        have apart : order ≠ level := by omega
        rw [morphOrders_known found, List.zip_cons_cons, List.filter_cons_of_neg (by simp [apart])]
      rw [List.countP_cons_of_neg (by simpa using known), List.filter_cons_of_neg (by simpa using known),
        ← later]
      constructor
      · intro level high low
        rw [skip level high, earlier level high low]
      · apply List.flatMap_congr
        intro level among
        rw [skip level (behind.trans (List.mem_range'_1.mp among).1)]
    | none =>
      have unknown := located.eq_none_iff.mp found
      have more : masterKeys.length ≤ next + 1 := by omega
      obtain ⟨earlier, later⟩ := ih more
      rw [List.countP_cons_of_pos (by simpa using unknown),
        List.filter_cons_of_pos (by simpa using unknown), ← later, List.range'_succ,
        List.flatMap_cons, morphOrders_unknown found, List.zip_cons_cons]
      constructor
      · intro level high low
        rw [List.filter_cons_of_neg (by simp; omega), earlier level high (by omega)]
      · rw [List.filter_cons_of_pos (by simp), List.map_cons, earlier next behind (by omega),
          List.singleton_append]
        congr 1
        apply List.flatMap_congr
        intro level among
        have above := (List.mem_range'_1.mp among).1
        rw [List.filter_cons_of_neg (by simp; omega)]

end Orders

/-- The entries with each master key in turn, and behind them the other entries. -/
def groupedByMaster (masterKeys : List UInt32) (entries : List (UInt32 × Bytes)) :
    List (UInt32 × Bytes) :=
  masterKeys.flatMap (fun key => entries.filter (·.1 = key)) ++
    entries.filter (·.1 ∉ masterKeys)

/-- The items of a list by their indices. -/
theorem map_getD_range {α : Type} (items : List α) (fallback : α) :
    (List.range items.length).map (fun index => items.getD index fallback) = items := by
  apply List.ext_getElem (by simp)
  intro index inside _
  rw [List.getElem_map, List.getElem_range]
  exact List.getD_eq_getElem _ _ (by simpa using inside)

section Sorted

variable {positions : Std.TreeMap UInt32 Nat} {masterKeys : List UInt32}
  (located : HasPositions positions masterKeys) (entries : List (UInt32 × Bytes))
  (full : masterKeys.length + entries.countP (·.1 ∉ masterKeys) = entries.length)

/-- The orders of the entries. -/
abbrev ordersOf (positions : Std.TreeMap UInt32 Nat) (masterKeys : List UInt32)
    (entries : List (UInt32 × Bytes)) : List Nat :=
  morphOrders positions masterKeys.length (entries.map Prod.fst)

include located full in
/-- The orders are below the number of entries, if there are as many entries with a master key as
master keys. -/
theorem lt_of_mem_ordersOf {order : Nat} (found : order ∈ ordersOf positions masterKeys entries) :
    order < entries.length := by
  have bound (next : Nat) (keys : List UInt32) (low : masterKeys.length ≤ next)
      (found : order ∈ morphOrders positions next keys) :
      order < next + keys.countP (· ∉ masterKeys) := by
    induction keys generalizing next with
    | nil => exact absurd found List.not_mem_nil
    | cons key keys ih =>
      cases place : positions[key]? with
      | some known =>
        rw [morphOrders_known place, List.mem_cons] at found
        have small := located.lt place
        have more := List.countP_le_length (p := (· ∉ masterKeys)) (l := [key])
        rw [List.countP_cons]
        rcases found with same | later
        · omega
        · have rest := ih next low later
          omega
      | none =>
        have unknown := located.eq_none_iff.mp place
        rw [morphOrders_unknown place, List.mem_cons] at found
        rw [List.countP_cons_of_pos (by simpa using unknown)]
        rcases found with same | later
        · omega
        · have rest := ih (next + 1) (by omega) later
          omega
  have below := bound _ _ (Nat.le_refl _) found
  rw [List.countP_map] at below
  exact below.trans_le full.le

include located full in
/-- The sorted entries are grouped by the master. -/
theorem sorted_eq_grouped :
    (sortedIndices (ordersOf positions masterKeys entries) entries.length).map
        (fun index => entries.getD index (0, [])) =
      groupedByMaster masterKeys entries := by
  have count : (ordersOf positions masterKeys entries).length = entries.length := by
    rw [length_morphOrders, List.length_map]
  have ranked : (sortedIndices (ordersOf positions masterKeys entries) entries.length).map
      (fun index => ((ordersOf positions masterKeys entries).getD index 0,
        entries.getD index (0, []))) =
      ((ordersOf positions masterKeys entries).zip entries).insertionSort
        fun first second => first.1 ≤ second.1 := by
    have pulled := List.map_insertionSort
      (fun first second : Nat => (ordersOf positions masterKeys entries).getD first 0 ≤
        (ordersOf positions masterKeys entries).getD second 0)
      (fun first second : Nat × UInt32 × Bytes => first.1 ≤ second.1)
      (fun index => ((ordersOf positions masterKeys entries).getD index 0,
        entries.getD index (0, []))) (List.range entries.length) (fun _ _ _ _ => Iff.rfl)
    rw [sortedIndices, pulled, ← List.zip_map', map_getD_range entries, ← count, map_getD_range]
  have small : ∀ item ∈ (ordersOf positions masterKeys entries).zip entries,
      item.1 < entries.length :=
    fun item found => lt_of_mem_ordersOf located entries full (List.of_mem_zip found).1
  have entryOf : (sortedIndices (ordersOf positions masterKeys entries) entries.length).map
      (fun index => entries.getD index (0, [])) =
      ((sortedIndices (ordersOf positions masterKeys entries) entries.length).map
        (fun index => ((ordersOf positions masterKeys entries).getD index 0,
          entries.getD index (0, [])))).map Prod.snd := by
    rw [List.map_map]
    rfl
  rw [entryOf, ranked, insertionSort_eq_flatMap small, List.map_flatMap, ← full, List.range_add,
    List.flatMap_append, ← List.range'_eq_map_range, groupedByMaster]
  congr 1
  · conv_rhs => rw [← map_getD_range masterKeys 0, List.flatMap_map]
    apply List.flatMap_congr
    intro level among
    have below := List.mem_range.mp among
    rw [filter_zip_of_lt located entries below (Nat.le_refl _), List.getD_eq_getElem _ _ below]
  · exact (filter_zip_of_ge located entries (Nat.le_refl _)).2

end Sorted

section Grouped

variable {masterKeys : List UInt32} {entries : List (UInt32 × Bytes)}

/-- Where every master key occurs, there are as many entries with a master key as master keys only
if each occurs once. -/
theorem keys_of_occurs (occurs : ∀ key ∈ masterKeys, key ∈ entries.map Prod.fst) :
    masterKeys.length ≤ (masterKeys.flatMap fun key => entries.filter (·.1 = key)).length ∧
    ((masterKeys.flatMap fun key => entries.filter (·.1 = key)).length = masterKeys.length →
      (masterKeys.flatMap fun key => entries.filter (·.1 = key)).map Prod.fst = masterKeys) := by
  induction masterKeys with
  | nil => exact ⟨Nat.le_refl _, fun _ => rfl⟩
  | cons key masterKeys ih =>
    obtain ⟨more, each⟩ := ih fun other found => occurs other (List.mem_cons_of_mem _ found)
    obtain ⟨entry, among, same⟩ := List.mem_map.mp (occurs key List.mem_cons_self)
    have member : entry ∈ entries.filter (·.1 = key) :=
      List.mem_filter.mpr ⟨among, decide_eq_true same⟩
    have positive := List.length_pos_of_mem member
    rw [List.flatMap_cons, List.length_append, List.length_cons]
    refine ⟨by omega, fun total => ?_⟩
    have one : (entries.filter (·.1 = key)).length = 1 := by omega
    obtain ⟨only, single⟩ := List.length_eq_one_iff.mp one
    rw [single, List.mem_singleton] at member
    rw [List.map_append, single, each (by omega), List.map_singleton, ← member, same]
    rfl

/-- The keys of the grouped entries start with the master keys if each of them occurs. -/
theorem grouped_of_occurs
    (total : (groupedByMaster masterKeys entries).length = entries.length)
    (full : masterKeys.length + entries.countP (·.1 ∉ masterKeys) = entries.length)
    (occurs : ∀ key ∈ masterKeys, key ∈ entries.map Prod.fst) :
    ∃ front : List (UInt32 × Bytes), front.map Prod.fst = masterKeys ∧
      groupedByMaster masterKeys entries = front ++ entries.filter (·.1 ∉ masterKeys) := by
  refine ⟨_, (keys_of_occurs occurs).2 ?_, rfl⟩
  rw [groupedByMaster, List.length_append, ← List.countP_eq_length_filter] at total
  omega

end Grouped

section Payloads

variable {keys values : Bytes} {indices : List Nat}

/-- The entries of four bytes at some positions, one after the other. -/
def entriesAt (indices : List Nat) (data : Bytes) : Bytes :=
  (indices.map fun index => (asChunks 4 data).getD index []).flatten

/-- An entry inside a payload of whole entries has four bytes. -/
theorem length_entry {data : Bytes} {index : Nat} (whole : data.length % 4 = 0)
    (inside : index < data.length / 4) : ((asChunks 4 data).getD index []).length = 4 := by
  have bound : index < (asChunks 4 data).length := by rwa [length_asChunks]
  rw [List.getD_eq_getElem _ _ bound]
  exact (flatten_asChunks (by decide) whole).2 _ (List.getElem_mem bound)

/-- Entries inside a payload are read within its slices. -/
theorem reorderEntries_eq {data : Bytes} (inside : ∀ index ∈ indices, index < data.length / 4) :
    reorderEntries indices data = .ok (entriesAt indices data) := by
  have read : indices.mapM (fun index => Panic.slice data (index * 4) (index * 4 + 4)) =
      .ok (indices.map fun index => (asChunks 4 data).getD index []) := by
    rw [mapM_eq_ok, List.forall₂_map_right_iff, List.forall₂_same]
    intro index found
    have bound := inside index found
    have within : index * 4 ≤ index * 4 + 4 ∧ index * 4 + 4 ≤ data.length := by omega
    have chunk : (asChunks 4 data).getD index [] = (data.drop (index * 4)).take 4 := by
      rw [List.getD_eq_getElem _ _ (by rwa [length_asChunks])]
      simp [asChunks]
    rw [Panic.slice, Bytes.get, if_pos within, Bytes.slice, Nat.add_sub_cancel_left, chunk]
  rw [reorderEntries, read, ok_bind, entriesAt]

/-- The entries are read back. -/
theorem asChunks_entriesAt {data : Bytes} (whole : data.length % 4 = 0)
    (inside : ∀ index ∈ indices, index < data.length / 4) :
    asChunks 4 (entriesAt indices data) =
      indices.map fun index => (asChunks 4 data).getD index [] := by
  apply asChunks_flatten (by decide)
  intro piece found
  obtain ⟨index, among, same⟩ := List.mem_map.mp found
  rw [← same, length_entry whole (inside index among)]

/-- There are as many pairs as keys. -/
theorem length_morphPairs (same : keys.length = values.length) :
    (morphPairs keys values).length = keys.length / 4 := by
  simp [morphPairs, morphKeys, same]

/-- The keys of the pairs. -/
theorem map_fst_morphPairs (same : keys.length = values.length) :
    (morphPairs keys values).map Prod.fst = morphKeys keys :=
  List.map_fst_zip (by simp [morphKeys, same])

/-- The pairs at some positions are in the payloads of the entries at these positions. -/
theorem morphPairs_entriesAt (wholeKeys : keys.length % 4 = 0) (same : keys.length = values.length)
    (inside : ∀ index ∈ indices, index < keys.length / 4) :
    morphPairs (entriesAt indices keys) (entriesAt indices values) =
      indices.map fun index => (morphPairs keys values).getD index (0, []) := by
  have wholeValues : values.length % 4 = 0 := same ▸ wholeKeys
  have insideValues : ∀ index ∈ indices, index < values.length / 4 := same ▸ inside
  rw [morphPairs, morphKeys, asChunks_entriesAt wholeKeys inside,
    asChunks_entriesAt wholeValues insideValues, List.map_map, List.zip_map']
  apply List.map_congr_left
  intro index among
  have bound := inside index among
  have boundPairs : index < (morphPairs keys values).length := by rwa [length_morphPairs same]
  have boundKeys : index < (asChunks 4 keys).length := by rwa [length_asChunks]
  have boundValues : index < (asChunks 4 values).length := by rwa [length_asChunks, ← same]
  rw [List.getD_eq_getElem _ _ boundPairs, Function.comp, List.getD_eq_getElem _ _ boundKeys,
    List.getD_eq_getElem _ _ boundValues]
  simp [morphPairs, morphKeys]

/-- Entries at a permutation of all positions take as many bytes. -/
theorem length_entriesAt {data : Bytes} (whole : data.length % 4 = 0)
    (all : indices.Perm (List.range (data.length / 4))) :
    (entriesAt indices data).length = data.length := by
  have sized : ∀ index ∈ indices, ((asChunks 4 data).getD index []).length = 4 :=
    fun index found => length_entry whole (List.mem_range.mp (all.mem_iff.mp found))
  rw [entriesAt, List.length_flatten, List.map_map]
  show (indices.map fun index => ((asChunks 4 data).getD index []).length).sum = data.length
  rw [List.map_congr_left sized, List.map_const', List.sum_replicate, all.length_eq,
    List.length_range, smul_eq_mul]
  omega

end Payloads

namespace WritableRecord

variable {signature other : Signature} {data : Bytes}

/-- The first payload with the signature is the new one. -/
theorem firstPayload_replaceFirst (record : WritableRecord) :
    (record.replaceFirst signature data).firstPayload signature =
      (record.firstPayload signature).map fun _ => data := by
  have each (subrecords : List WritableSubRecord) :
      ((replaceFirstIn signature data subrecords).find? (·.signature = signature)).map
          WritableSubRecord.data =
        ((subrecords.find? (·.signature = signature)).map WritableSubRecord.data).map
          fun _ => data := by
    induction subrecords with
    | nil => rfl
    | cons subrecord subrecords ih =>
      by_cases same : subrecord.signature = signature
      · rw [replaceFirstIn, if_pos same, List.find?_cons_of_pos (by simpa using same),
          List.find?_cons_of_pos (by simpa using same)]
        rfl
      · rw [replaceFirstIn, if_neg same, List.find?_cons_of_neg (by simpa using same),
          List.find?_cons_of_neg (by simpa using same), ih]
  exact each record.subrecords

/-- The first payload with another signature stays. -/
theorem firstPayload_replaceFirst_of_ne (apart : signature ≠ other) (record : WritableRecord) :
    (record.replaceFirst signature data).firstPayload other = record.firstPayload other := by
  have each (subrecords : List WritableSubRecord) :
      ((replaceFirstIn signature data subrecords).find? (·.signature = other)).map
          WritableSubRecord.data =
        (subrecords.find? (·.signature = other)).map WritableSubRecord.data := by
    induction subrecords with
    | nil => rfl
    | cons subrecord subrecords ih =>
      by_cases same : subrecord.signature = signature
      · have differs : subrecord.signature ≠ other := same ▸ apart
        rw [replaceFirstIn, if_pos same, List.find?_cons_of_neg (by simpa using differs),
          List.find?_cons_of_neg (by simpa using differs)]
      · by_cases found : subrecord.signature = other
        · rw [replaceFirstIn, if_neg same, List.find?_cons_of_pos (by simpa using found),
            List.find?_cons_of_pos (by simpa using found)]
        · rw [replaceFirstIn, if_neg same, List.find?_cons_of_neg (by simpa using found),
            List.find?_cons_of_neg (by simpa using found), ih]
  exact each record.subrecords

/-- The keys of a record with new morphs. -/
theorem firstPayload_withMorphs {record : WritableRecord} {keys : Bytes}
    (found : record.firstPayload morphKeysSignature = some keys) (newKeys newValues : Bytes) :
    (record.withMorphs newKeys newValues).firstPayload morphKeysSignature = some newKeys := by
  have apart : morphValuesSignature ≠ morphKeysSignature := by decide
  rw [withMorphs, firstPayload_replaceFirst_of_ne apart, firstPayload_replaceFirst, found]
  rfl

end WritableRecord

section Emission

variable {mutations : List HandlerMutation} {record : WritableRecord} {masterKeys : List UInt32}
  {keysPath valuesPath : String}

/-- What the code does when it emits: the morphs of a record, its keys and values, are sorted. -/
structure SortsMorphs (record : WritableRecord) (masterKeys : List UInt32) (keys values : Bytes)
    (positions : Std.TreeMap UInt32 Nat) : Prop where
  /-- The payload of the keys. -/
  keysFound : record.firstPayload morphKeysSignature = some keys
  /-- The payload of the values. -/
  valuesFound : record.firstPayload morphValuesSignature = some values
  /-- The entries are whole. -/
  whole : keys.length % 4 = 0
  /-- There are as many values as keys. -/
  same : keys.length = values.length
  /-- The positions of the master keys. -/
  located : HasPositions positions masterKeys
  /-- There are as many morphs with a master key as master keys. -/
  full : masterKeys.length + (morphPairs keys values).countP (·.1 ∉ masterKeys) =
    (morphPairs keys values).length

/-- The indices of the morphs, sorted. -/
def morphIndices (masterKeys : List UInt32) (keys values : Bytes)
    (positions : Std.TreeMap UInt32 Nat) : List Nat :=
  sortedIndices (ordersOf positions masterKeys (morphPairs keys values)) (morphPairs keys values).length

/-- The sorted indices are all indices. -/
theorem perm_morphIndices {keys values : Bytes} (masterKeys : List UInt32)
    (positions : Std.TreeMap UInt32 Nat) (same : keys.length = values.length) :
    (morphIndices masterKeys keys values positions).Perm (List.range (keys.length / 4)) := by
  rw [morphIndices, length_morphPairs same]
  exact List.perm_insertionSort _ _

/-- The code emits nothing, or it sorts the morphs. -/
theorem append_cases (mutations : List HandlerMutation) (record : WritableRecord)
    (masterKeys : List UInt32) (keysPath valuesPath : String) :
    appendFalloutNpcMorphMutations mutations record masterKeys keysPath valuesPath =
      .ok mutations ∨
    ∃ keys values positions, SortsMorphs record masterKeys keys values positions ∧
      appendFalloutNpcMorphMutations mutations record masterKeys keysPath valuesPath =
        .ok (mutations ++
          [.replacePayload keysPath 0
            (entriesAt (morphIndices masterKeys keys values positions) keys),
          .replacePayload valuesPath 0
            (entriesAt (morphIndices masterKeys keys values positions) values)]) := by
  unfold appendFalloutNpcMorphMutations
  cases keysFound : record.firstPayload morphKeysSignature with
  | none => exact .inl rfl
  | some keys =>
    cases valuesFound : record.firstPayload morphValuesSignature with
    | none => exact .inl rfl
    | some values =>
      dsimp only
      by_cases uneven : keys.length % 4 ≠ 0 ∨ values.length % 4 ≠ 0 ∨
          keys.length ≠ values.length ∨ keys.length / 4 < masterKeys.length
      · rw [if_pos uneven]
        exact .inl rfl
      · rw [if_neg uneven]
        cases built : masterPositions masterKeys with
        | none => exact .inl rfl
        | some positions =>
          dsimp only
          have located := hasPositions_masterPositions built
          have whole : keys.length % 4 = 0 := by omega
          have same : keys.length = values.length := by omega
          have pairKeys := map_fst_morphPairs same
          have count : (morphPairs keys values).length = (morphKeys keys).length := by
            rw [← pairKeys, List.length_map]
          rw [foldl_orderMorph, List.nil_append, Bool.false_or]
          by_cases idle : (!(morphKeys keys).zipIdx.any fun key =>
              positions[key.1]?.any (· ≠ key.2)) = true ∨
              masterKeys.length + ((morphKeys keys).countP fun key => positions[key]? = none) ≠
                (morphKeys keys).length
          · rw [if_pos idle]
            exact .inl rfl
          · rw [if_neg idle]
            have unknown : (morphKeys keys).countP (fun key => positions[key]? = none) =
                (morphPairs keys values).countP (·.1 ∉ masterKeys) := by
              rw [← pairKeys, List.countP_map]
              apply List.countP_congr
              intro pair _
              simpa using located.eq_none_iff
            have full := not_not.mp (not_or.mp idle).2
            rw [unknown, ← count] at full
            have indices : sortedIndices (morphOrders positions masterKeys.length (morphKeys keys))
                (morphKeys keys).length = morphIndices masterKeys keys values positions := by
              rw [morphIndices, ordersOf, pairKeys, count]
            have all := perm_morphIndices masterKeys positions same
            have inside : ∀ index ∈ morphIndices masterKeys keys values positions,
                index < keys.length / 4 :=
              fun index found => List.mem_range.mp (all.mem_iff.mp found)
            rw [indices, reorderEntries_eq inside, ok_bind,
              reorderEntries_eq fun index found => same ▸ inside index found, ok_bind]
            exact .inr ⟨keys, values, positions,
              ⟨keysFound, valuesFound, whole, same, located, full⟩, rfl⟩

/-- The sorted pairs are grouped by the master. -/
theorem SortsMorphs.grouped {keys values : Bytes} {positions : Std.TreeMap UInt32 Nat}
    (sorts : SortsMorphs record masterKeys keys values positions) :
    morphPairs (entriesAt (morphIndices masterKeys keys values positions) keys)
        (entriesAt (morphIndices masterKeys keys values positions) values) =
      groupedByMaster masterKeys (morphPairs keys values) := by
  have all := perm_morphIndices masterKeys positions sorts.same
  rw [morphPairs_entriesAt sorts.whole sorts.same
    fun index found => List.mem_range.mp (all.mem_iff.mp found)]
  exact sorted_eq_grouped sorts.located _ sorts.full

/-- The sorted pairs are the pairs. -/
theorem SortsMorphs.perm {keys values : Bytes} {positions : Std.TreeMap UInt32 Nat}
    (sorts : SortsMorphs record masterKeys keys values positions) :
    (groupedByMaster masterKeys (morphPairs keys values)).Perm (morphPairs keys values) := by
  rw [← sorted_eq_grouped sorts.located _ sorts.full]
  conv_rhs => rw [← map_getD_range (morphPairs keys values) (0, [])]
  exact (List.perm_insertionSort _ _).map _

/-- A record whose keys start with the master keys, and have them nowhere else, is left alone. -/
theorem append_of_starts {keys : Bytes} {rest : List UInt32}
    (found : record.firstPayload morphKeysSignature = some keys)
    (starts : morphKeys keys = masterKeys ++ rest) (others : ∀ key ∈ rest, key ∉ masterKeys) :
    appendFalloutNpcMorphMutations mutations record masterKeys keysPath valuesPath =
      .ok mutations := by
  unfold appendFalloutNpcMorphMutations
  rw [found]
  cases record.firstPayload morphValuesSignature with
  | none => rfl
  | some values =>
    dsimp only
    by_cases uneven : keys.length % 4 ≠ 0 ∨ values.length % 4 ≠ 0 ∨
        keys.length ≠ values.length ∨ keys.length / 4 < masterKeys.length
    · rw [if_pos uneven]
    · rw [if_neg uneven]
      cases built : masterPositions masterKeys with
      | none => rfl
      | some positions =>
        dsimp only
        have located := hasPositions_masterPositions built
        have placed : ((morphKeys keys).zipIdx.any fun key =>
            positions[key.1]?.any (· ≠ key.2)) = false := by
          rw [List.any_eq_false]
          intro key among
          rw [starts, List.zipIdx_append, List.mem_append] at among
          rcases among with first | later
          · have place := List.mk_mem_zipIdx_iff_getElem?.mp first
            rw [(located key.1 key.2).mpr place]
            simp
          · have other := others key.1 (List.fst_mem_of_mem_zipIdx later)
            rw [located.eq_none_iff.mpr other]
            simp
        rw [foldl_orderMorph, Bool.false_or, placed, if_pos (.inl rfl)]

end Emission

/-- Sorting the morphs of a record brings them into the order of the master, and a second run leaves
them alone, exactly when every master key occurs among its keys. -/
theorem falloutNpcMorphs_inMasterOrder_iff (mutations emitted : List HandlerMutation)
    (record : WritableRecord) (masterKeys : List UInt32) (keysPath valuesPath : String)
    (emits : appendFalloutNpcMorphMutations mutations record masterKeys keysPath valuesPath =
      .ok (mutations ++ emitted)) (some : emitted ≠ []) :
    ∃ keys values newKeys newValues,
      record.firstPayload morphKeysSignature = Option.some keys ∧
      record.firstPayload morphValuesSignature = Option.some values ∧
      emitted = [.replacePayload keysPath 0 newKeys, .replacePayload valuesPath 0 newValues] ∧
      ((InMasterOrder masterKeys keys values newKeys newValues ∧
        ∀ more, appendFalloutNpcMorphMutations more (record.withMorphs newKeys newValues)
          masterKeys keysPath valuesPath = .ok more) ↔
        ∀ key ∈ masterKeys, key ∈ morphKeys keys) := by
  rcases append_cases mutations record masterKeys keysPath valuesPath with idle | sorted
  · rw [idle] at emits
    exact absurd (List.append_right_eq_self.mp (Except.ok.inj emits).symm) some
  · obtain ⟨keys, values, positions, sorts, done⟩ := sorted
    rw [done] at emits
    have emission := List.append_cancel_left (Except.ok.inj emits)
    have pairKeys := map_fst_morphPairs sorts.same
    have all := perm_morphIndices masterKeys positions sorts.same
    have newLengths : (entriesAt (morphIndices masterKeys keys values positions) keys).length =
        keys.length ∧ (entriesAt (morphIndices masterKeys keys values positions) values).length =
          values.length :=
      ⟨length_entriesAt sorts.whole all,
        length_entriesAt (sorts.same ▸ sorts.whole) (sorts.same ▸ all)⟩
    have newSame : (entriesAt (morphIndices masterKeys keys values positions) keys).length =
        (entriesAt (morphIndices masterKeys keys values positions) values).length := by
      rw [newLengths.1, newLengths.2, sorts.same]
    have newKeys : morphKeys (entriesAt (morphIndices masterKeys keys values positions) keys) =
        (groupedByMaster masterKeys (morphPairs keys values)).map Prod.fst := by
      rw [← map_fst_morphPairs newSame, sorts.grouped]
    refine ⟨keys, values, _, _, sorts.keysFound, sorts.valuesFound, emission.symm, ?_, ?_⟩
    · intro ordered key listed
      have among := ordered.1.starts.subset listed
      rw [newKeys] at among
      rw [← pairKeys]
      exact (sorts.perm.map Prod.fst).mem_iff.mp among
    · intro occurs
      rw [← pairKeys] at occurs
      obtain ⟨front, frontKeys, split⟩ := grouped_of_occurs sorts.perm.length_eq sorts.full occurs
      have starts : morphKeys (entriesAt (morphIndices masterKeys keys values positions) keys) =
          masterKeys ++ ((morphPairs keys values).filter (·.1 ∉ masterKeys)).map Prod.fst := by
        rw [newKeys, split, List.map_append, frontKeys]
      have length : front.length = masterKeys.length := by rw [← frontKeys, List.length_map]
      refine ⟨⟨⟨_, starts.symm⟩, ?_, ?_, newLengths⟩, fun more => ?_⟩
      · rw [sorts.grouped, split, ← length, List.drop_left]
      · rw [sorts.grouped]
        exact sorts.perm
      · apply append_of_starts (WritableRecord.firstPayload_withMorphs sorts.keysFound _ _) starts
        intro key among
        obtain ⟨pair, kept, same⟩ := List.mem_map.mp among
        rw [← same]
        exact of_decide_eq_true (List.mem_filter.mp kept).2

/-- An NPC with two morphs. -/
def npcWithMorphs (first second : UInt32) : WritableRecord where
  signature := .ofBytes 0x4E 0x50 0x43 0x5F
  flags := .empty
  formId := ⟨1⟩
  formVersion := 131
  subrecords := [
    ⟨morphKeysSignature, u32ToLeBytes first ++ u32ToLeBytes second⟩,
    ⟨morphValuesSignature, [10, 0, 0, 0, 20, 0, 0, 0]⟩]

/-- Two morphs in the wrong order, and their values, are swapped. -/
theorem append_swappedMorphs :
    appendFalloutNpcMorphMutations [] (npcWithMorphs 2 1) [1, 2] "NPC_/65:Morph Keys"
        "NPC_/66:Morph Values" =
      .ok ([] ++ [.replacePayload "NPC_/65:Morph Keys" 0 [1, 0, 0, 0, 2, 0, 0, 0],
        .replacePayload "NPC_/66:Morph Values" 0 [20, 0, 0, 0, 10, 0, 0, 0]]) := rfl

/-- Two morphs in the wrong order are put into the order of the master. -/
theorem falloutNpcMorphs_inMasterOrder_swapped :
    ∃ keys values newKeys newValues,
      (npcWithMorphs 2 1).firstPayload morphKeysSignature = some keys ∧
      (npcWithMorphs 2 1).firstPayload morphValuesSignature = some values ∧
      [.replacePayload "NPC_/65:Morph Keys" 0 [1, 0, 0, 0, 2, 0, 0, 0],
        .replacePayload "NPC_/66:Morph Values" 0 [20, 0, 0, 0, 10, 0, 0, 0]] =
        [HandlerMutation.replacePayload "NPC_/65:Morph Keys" 0 newKeys,
          .replacePayload "NPC_/66:Morph Values" 0 newValues] ∧
      ((InMasterOrder [1, 2] keys values newKeys newValues ∧
        ∀ more, appendFalloutNpcMorphMutations more
          ((npcWithMorphs 2 1).withMorphs newKeys newValues) [1, 2] "NPC_/65:Morph Keys"
            "NPC_/66:Morph Values" = .ok more) ↔
        ∀ key ∈ ([1, 2] : List UInt32), key ∈ morphKeys keys) :=
  falloutNpcMorphs_inMasterOrder_iff [] _ _ _ _ _ append_swappedMorphs (List.cons_ne_nil _ _)

/-- A morph that occurs twice makes up for a master key that is missing: the keys do not start with
the master keys, and a second run sorts again. -/
theorem not_inMasterOrder_repeatedMorph :
    ∃ newKeys newValues,
      appendFalloutNpcMorphMutations [] (npcWithMorphs 2 2) [1, 2] "NPC_/65:Morph Keys"
          "NPC_/66:Morph Values" =
        .ok [.replacePayload "NPC_/65:Morph Keys" 0 newKeys,
          .replacePayload "NPC_/66:Morph Values" 0 newValues] ∧
      ¬[1, 2] <+: morphKeys newKeys ∧
      appendFalloutNpcMorphMutations [] ((npcWithMorphs 2 2).withMorphs newKeys newValues) [1, 2]
          "NPC_/65:Morph Keys" "NPC_/66:Morph Values" ≠ .ok [] := by
  refine ⟨[2, 0, 0, 0, 2, 0, 0, 0], [10, 0, 0, 0, 20, 0, 0, 0], rfl, by decide, ?_⟩
  intro idle
  have again : appendFalloutNpcMorphMutations []
      ((npcWithMorphs 2 2).withMorphs [2, 0, 0, 0, 2, 0, 0, 0] [10, 0, 0, 0, 20, 0, 0, 0]) [1, 2]
      "NPC_/65:Morph Keys" "NPC_/66:Morph Values" =
    .ok [.replacePayload "NPC_/65:Morph Keys" 0 [2, 0, 0, 0, 2, 0, 0, 0],
      .replacePayload "NPC_/66:Morph Values" 0 [10, 0, 0, 0, 20, 0, 0, 0]] := rfl
  rw [again] at idle
  exact List.cons_ne_nil _ _ (Except.ok.inj idle)

end Bethkit
