import Mathlib

/-!
# Filling a table

A table is filled from a list of items, each of which may write one entry. What a key has in the
end was written by the last item that writes it.
-/

namespace Bethkit.Lib

/-- Either no item has a property, or there is a last one that has it. -/
theorem forall_or_exists_last {α : Type} (holds : α → Prop) (items : List α) :
    (∀ item ∈ items, ¬holds item) ∨ ∃ before item after, items = before ++ item :: after ∧
      holds item ∧ ∀ later ∈ after, ¬holds later := by
  induction items with
  | nil => exact .inl fun _ among => absurd among List.not_mem_nil
  | cons head items ih =>
    rcases ih with none | ⟨before, item, after, rfl, found, last⟩
    · by_cases first : holds head
      · exact .inr ⟨[], head, items, rfl, first, none⟩
      · exact .inl (List.forall_mem_cons.mpr ⟨first, none⟩)
    · exact .inr ⟨head :: before, item, after, rfl, found, last⟩

variable {α κ β : Type} [DecidableEq κ]

/-- Write the entries of a list of items into a table. -/
def fill (entry : α → Option (κ × β)) (items : List α) (table : AList fun _ : κ => β) :
    AList fun _ : κ => β :=
  items.foldl (fun table item => (entry item).elim table fun pair => table.insert pair.1 pair.2)
    table

/-- An item writes a key. -/
def WritesKey (entry : α → Option (κ × β)) (key : κ) (item : α) : Prop :=
  ∃ value, entry item = some (key, value)

variable {entry : α → Option (κ × β)} {items : List α} {table : AList fun _ : κ => β} {key : κ}

/-- Items that do not write a key leave what it has. -/
theorem lookup_fill_of_absent (absent : ∀ item ∈ items, ¬WritesKey entry key item) :
    (fill entry items table).lookup key = table.lookup key := by
  induction items generalizing table with
  | nil => rfl
  | cons item items ih =>
    obtain ⟨head, tail⟩ := List.forall_mem_cons.mp absent
    rw [fill, List.foldl_cons, ← fill, ih tail]
    cases written : entry item with
    | none => rfl
    | some pair =>
      exact AList.lookup_insert_ne fun same => head ⟨pair.2, by rw [written, same]⟩

/-- The last item that writes a key decides what it has. -/
theorem lookup_fill_last {before after : List α} {item : α} {value : β}
    (written : entry item = some (key, value)) (last : ∀ later ∈ after, ¬WritesKey entry key later) :
    (fill entry (before ++ item :: after) table).lookup key = some value := by
  have behind : (fill entry after ((fill entry before table).insert key value)).lookup key =
      some value := by rw [lookup_fill_of_absent last, AList.lookup_insert]
  rw [← behind, fill, List.foldl_append, List.foldl_cons, written]
  rfl

/-- In a table that was filled from the beginning a key has exactly what its last item wrote. -/
theorem lookup_fill_empty {value : β} : (fill entry items ∅).lookup key = some value ↔
    ∃ before item after, items = before ++ item :: after ∧ entry item = some (key, value) ∧
      ∀ later ∈ after, ¬WritesKey entry key later := by
  constructor
  · intro found
    rcases forall_or_exists_last (WritesKey entry key) items with
      absent | ⟨before, item, after, split, ⟨other, written⟩, last⟩
    · rw [lookup_fill_of_absent absent] at found
      exact absurd found (by simp)
    · rw [split, lookup_fill_last written last] at found
      obtain rfl := Option.some.inj found
      exact ⟨before, item, after, split, written, last⟩
  · rintro ⟨before, item, after, rfl, written, last⟩
    exact lookup_fill_last written last

/-- Write pairs into a table, where a key that has an entry keeps it. -/
def fillMissing (pairs : List (κ × β)) (table : AList fun _ : κ => β) : AList fun _ : κ => β :=
  pairs.foldl (fun table pair => if pair.1 ∈ table then table else table.insert pair.1 pair.2) table

/-- Pairs of two lists are written one list after the other. -/
theorem fillMissing_append (first second : List (κ × β)) (table : AList fun _ : κ => β) :
    fillMissing (first ++ second) table = fillMissing second (fillMissing first table) :=
  List.foldl_append

/-- A key keeps its entry, or else has the value of its first pair. -/
theorem lookup_fillMissing (pairs : List (κ × β)) (table : AList fun _ : κ => β) (key : κ) :
    (fillMissing pairs table).lookup key =
      (table.lookup key).or ((pairs.find? fun pair => pair.1 = key).map Prod.snd) := by
  induction pairs generalizing table with
  | nil => simp [fillMissing]
  | cons pair pairs ih =>
    rw [fillMissing, List.foldl_cons, ← fillMissing, ih, List.find?_cons]
    by_cases here : pair.1 = key
    · rw [decide_eq_true here]
      by_cases kept : pair.1 ∈ table
      · rw [if_pos kept]
        have present := AList.lookup_isSome.mpr (here ▸ kept)
        obtain ⟨value, found⟩ := Option.isSome_iff_exists.mp present
        rw [found, Option.some_or, Option.some_or]
      · have absent : table.lookup key = none := AList.lookup_eq_none.mpr (here ▸ kept)
        rw [if_neg kept, here, AList.lookup_insert, absent]
        rfl
    · rw [decide_eq_false here]
      by_cases kept : pair.1 ∈ table
      · rw [if_pos kept]
      · rw [if_neg kept, AList.lookup_insert_ne (Ne.symm here)]

end Bethkit.Lib

/-!
## Writing entries into a table

A table is filled by setting the place of every entry of a list in turn. Entries with different
places do not overwrite each other.
-/

namespace Bethkit.Lib

variable {α β : Type} {place : α → Nat} {value : α → β}

/-- Filling a table keeps its length. -/
@[simp]
theorem length_foldl_set (items : List α) (table : List β) :
    (items.foldl (fun table item => table.set (place item) (value item)) table).length =
      table.length := by
  induction items generalizing table with
  | nil => rfl
  | cons item items rest => rw [List.foldl_cons, rest, List.length_set]

/-- A place that no entry names keeps its value. -/
theorem getElem?_foldl_set_of_absent {items : List α} {index : Nat}
    (absent : ∀ item ∈ items, place item ≠ index) (table : List β) :
    (items.foldl (fun table item => table.set (place item) (value item)) table)[index]? =
      table[index]? := by
  induction items generalizing table with
  | nil => rfl
  | cons item items rest =>
    rw [List.foldl_cons, rest fun other member => absent other (List.mem_cons_of_mem _ member),
      List.getElem?_set_ne (absent item List.mem_cons_self)]

/-- The place of an entry holds its value if no other entry has the same place. -/
theorem getElem?_foldl_set_of_mem {items : List α} {item : α} (member : item ∈ items)
    (different : items.Pairwise fun first second => place first ≠ place second)
    {table : List β} (bound : place item < table.length) :
    (items.foldl (fun table item => table.set (place item) (value item)) table)[place item]? =
      some (value item) := by
  induction items generalizing table with
  | nil => cases member
  | cons first items rest =>
    rw [List.pairwise_cons] at different
    rw [List.foldl_cons]
    rcases List.mem_cons.mp member with rfl | later
    · rw [getElem?_foldl_set_of_absent fun other after => (different.1 other after).symm]
      exact List.getElem?_set_self bound
    · exact rest later different.2 (by rwa [List.length_set])

end Bethkit.Lib

/-!
## Writing pairs into an ordered map

Pairs are inserted one by one, so the last pair of a key decides. What was in the map before
shows through at the keys that no pair has.
-/

namespace Bethkit.Lib

variable {κ α : Type} [Ord κ] [Std.TransOrd κ]

/-- A map after a list of insertions. -/
def overwrite (pairs : List (κ × α)) (map : Std.TreeMap κ α) : Std.TreeMap κ α :=
  pairs.foldl (fun map pair => map.insert pair.1 pair.2) map

omit [Std.TransOrd κ] in
/-- The pairs of two lists are inserted one list after the other. -/
theorem overwrite_append (first second : List (κ × α)) (map : Std.TreeMap κ α) :
    overwrite (first ++ second) map = overwrite second (overwrite first map) :=
  List.foldl_append

/-- Nothing is found at a key that no pair has. -/
theorem getElem?_overwrite_empty [Std.LawfulEqOrd κ] {pairs : List (κ × α)} {key : κ}
    (absent : key ∉ pairs.map Prod.fst) : (overwrite pairs ∅)[key]? = none := by
  induction pairs using List.reverseRecOn with
  | nil => simp [overwrite]
  | append_singleton pairs pair rest =>
    rw [List.map_append, List.mem_append, not_or] at absent
    have apart : compare pair.1 key ≠ .eq := by
      intro same
      exact absent.2 (by simp [Std.LawfulEqOrd.eq_of_compare same])
    rw [overwrite_append]
    show ((overwrite pairs ∅).insert pair.1 pair.2)[key]? = none
    rw [Std.TreeMap.getElem?_insert, if_neg apart, rest absent.1]

/-- Pairs of different keys are all found. -/
theorem getElem?_overwrite_eq_some [Std.LawfulEqOrd κ] {pairs : List (κ × α)}
    (different : (pairs.map Prod.fst).Nodup) {key : κ} {value : α} :
    (overwrite pairs ∅)[key]? = some value ↔ (key, value) ∈ pairs := by
  induction pairs using List.reverseRecOn with
  | nil => simp [overwrite]
  | append_singleton pairs pair rest =>
    rw [List.map_append, List.nodup_append] at different
    obtain ⟨earlier, _, apart⟩ := different
    rw [overwrite_append, List.mem_append, List.mem_singleton, ← rest earlier]
    show ((overwrite pairs ∅).insert pair.1 pair.2)[key]? = some value ↔ _
    rw [Std.TreeMap.getElem?_insert]
    split
    case isTrue same =>
      obtain rfl := Std.LawfulEqOrd.eq_of_compare same
      have absent : pair.1 ∉ pairs.map Prod.fst := fun member =>
        apart _ member pair.1 (by simp) rfl
      rw [getElem?_overwrite_empty absent, Option.some.injEq]
      constructor
      · rintro rfl
        exact .inr rfl
      · rintro (impossible | same)
        · cases impossible
        · exact (congrArg Prod.snd same).symm
    case isFalse other =>
      refine ⟨.inl, fun found => found.resolve_right fun same => other ?_⟩
      rw [← same]
      exact Std.ReflCmp.compare_self

/-- The pairs of a map rebuild it. -/
theorem getElem?_overwrite_toList [Std.LawfulEqOrd κ] (map : Std.TreeMap κ α) (key : κ) :
    (overwrite map.toList ∅)[key]? = map[key]? := by
  have different : (map.toList.map Prod.fst).Nodup := by
    rw [Std.TreeMap.map_fst_toList_eq_keys]
    exact Std.TreeMap.nodup_keys
  refine Option.ext fun value => ?_
  rw [getElem?_overwrite_eq_some different, Std.TreeMap.mem_toList_iff_getElem?_eq_some]

/-- Pairs in ascending order are what their map lists. -/
theorem toList_overwrite [Std.LawfulEqOrd κ] {pairs : List (κ × α)}
    (ascending : pairs.Pairwise fun first second => compare first.1 second.1 = .lt) :
    (overwrite pairs ∅).toList = pairs := by
  have apart {first second : κ × α} (lower : compare first.1 second.1 = .lt) :
      first.1 ≠ second.1 := by
    intro same
    have equal : compare first.1 second.1 = .eq := same ▸ Std.ReflCmp.compare_self
    rw [equal] at lower
    cases lower
  have different : (pairs.map Prod.fst).Nodup :=
    List.pairwise_map.mpr (ascending.imp apart)
  have listed : (overwrite pairs ∅).toList.Pairwise fun first second =>
      compare first.1 second.1 = .lt := Std.TreeMap.ordered_keys_toList
  have mem (pair : κ × α) : pair ∈ (overwrite pairs ∅).toList ↔ pair ∈ pairs := by
    rw [← Prod.eta pair, Std.TreeMap.mem_toList_iff_getElem?_eq_some,
      getElem?_overwrite_eq_some different]
  refine List.Perm.eq_of_pairwise (fun first second _ _ lower higher => ?_) listed ascending
    ((List.perm_ext_iff_of_nodup (listed.imp fun lower same => apart lower (congrArg _ same))
      different.of_map).mpr mem)
  exact absurd rfl (apart (Std.TransCmp.lt_trans lower higher))

end Bethkit.Lib

/-!
## Numbering the keys of a list

A table is filled with a value for every place of a list of keys, in order. A key that stands at
several places keeps the value of the last one.
-/

namespace Bethkit.Lib

variable {κ β : Type}

/-- The last place where a key stands. -/
def IsLast (keys : List κ) (key : κ) (place : Nat) : Prop :=
  keys[place]? = some key ∧ ∀ later, place < later → keys[later]? ≠ some key

namespace IsLast

variable {keys : List κ} {key : κ} {place : Nat}

/-- The last place is inside the list. -/
theorem lt_length (last : IsLast keys key place) : place < keys.length :=
  (List.getElem?_eq_some_iff.mp last.1).1

/-- A key with a last place is among the keys. -/
theorem mem (last : IsLast keys key place) : key ∈ keys := List.mem_of_getElem? last.1

/-- A place is the last one of at most one key. -/
theorem key_unique {other : κ} (last : IsLast keys key place) (same : IsLast keys other place) :
    key = other := Option.some.inj (last.1.symm.trans same.1)

/-- A key has at most one last place. -/
theorem unique {other : Nat} (last : IsLast keys key place) (same : IsLast keys key other) :
    place = other := by
  rcases Nat.lt_trichotomy place other with before | equal | behind
  · exact absurd same.1 (last.2 other before)
  · exact equal
  · exact absurd last.1 (same.2 place behind)

/-- The key at the end of a list stands there for the last time. -/
theorem snoc_self (keys : List κ) (key : κ) : IsLast (keys ++ [key]) key keys.length := by
  refine ⟨List.getElem?_concat_length, fun later behind => ?_⟩
  have outside : (keys ++ [key]).length ≤ later := by
    rw [List.length_append, List.length_singleton]
    omega
  simp [List.getElem?_eq_none outside]

/-- One more key behind the list leaves the last places of the other keys. -/
theorem snoc_iff {other : κ} (apart : other ≠ key) :
    IsLast (keys ++ [key]) other place ↔ IsLast keys other place := by
  have same (place : Nat) : (keys ++ [key])[place]? = some other ↔ keys[place]? = some other := by
    rcases Nat.lt_trichotomy place keys.length with inside | rfl | outside
    · rw [List.getElem?_append_left inside]
    · simp [apart.symm]
    · rw [List.getElem?_append_right (Nat.le_of_lt outside), List.getElem?_eq_none,
        List.getElem?_eq_none (Nat.le_of_lt outside)]
      rw [List.length_singleton]
      omega
  simp only [IsLast, same, ne_eq]

end IsLast

/-- Every key has a last place. -/
theorem exists_isLast {keys : List κ} {key : κ} (among : key ∈ keys) :
    ∃ place, IsLast keys key place := by
  classical
  induction keys using List.reverseRecOn with
  | nil => exact absurd among List.not_mem_nil
  | append_singleton keys last ih =>
    by_cases same : key = last
    · subst same
      exact ⟨_, .snoc_self keys key⟩
    · obtain ⟨place, found⟩ := ih (by simpa [same] using among)
      exact ⟨place, (IsLast.snoc_iff same).mpr found⟩

section Table

variable [DecidableEq κ] (value : Nat → β)

/-- The table that has for every key the value of its place. -/
def numbered (keys : List κ) : AList fun _ : κ => β :=
  keys.zipIdx.foldl (fun table entry => table.insert entry.1 (value entry.2)) ∅

/-- One more key adds one more entry. -/
theorem numbered_snoc (keys : List κ) (key : κ) :
    numbered value (keys ++ [key]) = (numbered value keys).insert key (value keys.length) := by
  simp [numbered, List.zipIdx_append]

/-- A key has the value of its last place. -/
theorem lookup_numbered_isLast {keys : List κ} {key : κ} {place : Nat}
    (last : IsLast keys key place) : (numbered value keys).lookup key = some (value place) := by
  induction keys using List.reverseRecOn with
  | nil => exact absurd last.mem List.not_mem_nil
  | append_singleton keys other ih =>
    rw [numbered_snoc]
    by_cases same : key = other
    · subst same
      rw [AList.lookup_insert, last.unique (.snoc_self keys key)]
    · rw [AList.lookup_insert_ne same, ih ((IsLast.snoc_iff same).mp last)]

/-- A key that is not among the keys of the list is not in the table. -/
theorem lookup_numbered_of_notMem {keys : List κ} {key : κ} (absent : key ∉ keys) :
    (numbered value keys).lookup key = none := by
  induction keys using List.reverseRecOn with
  | nil => rfl
  | append_singleton keys other ih =>
    obtain ⟨earlier, apart⟩ : key ∉ keys ∧ key ≠ other := by simpa using absent
    rw [numbered_snoc, AList.lookup_insert_ne apart, ih earlier]

end Table

end Bethkit.Lib
