import Mathlib

/-!
# Grouping items by a key

Items that are pushed one by one onto the list of their key, in a map ordered by the keys. The
lists of the map are the classes of the items with one key, each in the order of the items. Keys
that are mapped to other keys keep the classes exactly when no two of them become one.
-/

namespace Bethkit.Lib

variable {κ τ α : Type}

/-- The items pushed onto the lists of their keys. -/
def gather [Ord κ] (items : List (κ × α)) : Std.TreeMap κ (List α) :=
  items.foldl (fun groups item => groups.insert item.1 (groups.getD item.1 [] ++ [item.2])) ∅

/-- The items of one key, in their order. -/
def classOf [DecidableEq κ] (items : List (κ × α)) (key : κ) : List α :=
  (items.filter fun item => item.1 = key).map Prod.snd

/-- The items of each key that occurs. -/
def classes [DecidableEq κ] (items : List (κ × α)) : List (List α) :=
  (items.map Prod.fst).dedup.map (classOf items)

section Gather

variable [Ord κ] [Std.TransOrd κ] [Std.LawfulEqOrd κ] [DecidableEq κ]

/-- A key of a grown map holds what it held before and the new items. -/
theorem getElem?_foldl_insert (items : List (κ × α)) (groups : Std.TreeMap κ (List α))
    (key : κ) :
    (items.foldl (fun groups item => groups.insert item.1 (groups.getD item.1 [] ++ [item.2]))
      groups)[key]? =
      if key ∈ items.map Prod.fst then some (groups.getD key [] ++ classOf items key)
      else groups[key]? := by
  induction items generalizing groups with
  | nil => simp
  | cons item items rest =>
    rw [List.foldl_cons, rest]
    by_cases same : item.1 = key
    · subst same
      by_cases later : item.1 ∈ items.map Prod.fst
      · simp [later, classOf]
      · have none_ : classOf items item.1 = [] := by
          rw [classOf, List.map_eq_nil_iff, List.filter_eq_nil_iff]
          intro other member equal
          exact later (List.mem_map.mpr ⟨other, member, by simpa using equal⟩)
        have mine : classOf (item :: items) item.1 = [item.2] := by
          rw [classOf, List.filter_cons_of_pos (by simp), List.map_cons]
          exact congrArg _ none_
        rw [if_neg later, if_pos (by simp), mine, Std.TreeMap.getElem?_insert_self]
    · have others : classOf (item :: items) key = classOf items key := by
        rw [classOf, List.filter_cons_of_neg (by simpa using same), classOf]
      have apart : compare item.1 key ≠ .eq := by
        simpa using same
      have kept : (key ∈ (item :: items).map Prod.fst) ↔ key ∈ items.map Prod.fst := by
        rw [List.map_cons, List.mem_cons]
        simp [Ne.symm same]
      simp only [kept, others, Std.TreeMap.getD_insert, Std.TreeMap.getElem?_insert, if_neg apart]

/-- The list of a key is its class. -/
theorem getElem?_gather (items : List (κ × α)) (key : κ) :
    (gather items)[key]? =
      if key ∈ items.map Prod.fst then some (classOf items key) else none := by
  rw [gather, getElem?_foldl_insert]
  simp

/-- The map holds every key that occurs, with its class. -/
theorem toList_gather_perm (items : List (κ × α)) :
    (gather items).toList.Perm
      ((items.map Prod.fst).dedup.map fun key => (key, classOf items key)) := by
  have left : (gather items).toList.Nodup :=
    (Std.TreeMap.distinct_keys_toList (t := gather items)).imp fun apart => by
      rintro rfl
      simp at apart
  have right : ((items.map Prod.fst).dedup.map fun key => (key, classOf items key)).Nodup :=
    (List.nodup_dedup _).map fun _ _ same => (Prod.mk.inj same).1
  rw [List.perm_ext_iff_of_nodup left right]
  rintro ⟨key, group⟩
  rw [Std.TreeMap.mem_toList_iff_getElem?_eq_some, getElem?_gather]
  constructor
  · intro held
    split at held
    case isTrue member =>
      exact List.mem_map.mpr ⟨key, List.mem_dedup.mpr member, by rw [Option.some.inj held]⟩
    case isFalse => cases held
  · intro listed
    obtain ⟨other, member, same⟩ := List.mem_map.mp listed
    obtain ⟨rfl, rfl⟩ := Prod.mk.inj same
    simp only [List.mem_dedup.mp member, if_true]

/-- The lists of the map are the classes. -/
theorem values_gather_perm (items : List (κ × α)) :
    ((gather items).toList.map Prod.snd).Perm (classes items) := by
  have perm := (toList_gather_perm items).map Prod.snd
  rwa [List.map_map] at perm

end Gather

section Coarser

variable [DecidableEq κ] [DecidableEq τ]

/-- There is one class for every key that occurs. -/
theorem length_classes (items : List (κ × α)) :
    (classes items).length = (items.map Prod.fst).toFinset.card := by
  rw [classes, List.length_map, List.card_toFinset]

/-- A key that no other key is mapped to keeps its class. -/
theorem classOf_map (coarse : κ → τ) (items : List (κ × α)) {key : κ}
    (only : ∀ other ∈ items.map Prod.fst, coarse other = coarse key → other = key) :
    classOf (items.map (Prod.map coarse id)) (coarse key) = classOf items key := by
  rw [classOf, classOf, List.filter_map, List.map_map]
  congr 1
  refine List.filter_congr fun item member => ?_
  have mine := only item.1 (List.mem_map_of_mem member)
  simp only [Function.comp_apply, Prod.map_fst, decide_eq_decide]
  exact ⟨mine, congrArg coarse⟩

/-- Mapping the keys keeps the classes, up to their order, exactly when different keys stay
different. -/
theorem classes_map_perm_iff (coarse : κ → τ) (items : List (κ × α)) :
    (classes (items.map (Prod.map coarse id))).Perm (classes items) ↔
      ∀ first ∈ items.map Prod.fst, ∀ second ∈ items.map Prod.fst,
        coarse first = coarse second → first = second := by
  have keys : (items.map (Prod.map coarse id)).map Prod.fst =
      (items.map Prod.fst).map coarse := by
    rw [List.map_map, List.map_map]
    rfl
  constructor
  · intro perm
    have counts := perm.length_eq
    have image : ((items.map Prod.fst).map coarse).toFinset =
        (items.map Prod.fst).toFinset.image coarse := by
      ext key
      simp only [List.mem_toFinset, Finset.mem_image, List.mem_map]
    rw [length_classes, length_classes, keys, image, Finset.card_image_iff] at counts
    intro first left second right same
    exact counts (List.mem_toFinset.mpr left) (List.mem_toFinset.mpr right) same
  · intro injective
    have distinct : ((items.map Prod.fst).dedup.map coarse).Nodup :=
      (List.nodup_dedup _).map_on fun first left second right =>
        injective first (List.mem_dedup.mp left) second (List.mem_dedup.mp right)
    have perm : ((items.map Prod.fst).map coarse).dedup.Perm
        ((items.map Prod.fst).dedup.map coarse) := by
      rw [List.perm_ext_iff_of_nodup (List.nodup_dedup _) distinct]
      intro key
      simp only [List.mem_dedup, List.mem_map]
    rw [classes, classes, keys]
    refine (perm.map _).trans (List.Perm.of_eq ?_)
    rw [List.map_map]
    refine List.map_congr_left fun key member => ?_
    exact classOf_map coarse items fun other found =>
      injective other found key (List.mem_dedup.mp member)

end Coarser

end Bethkit.Lib

/-!
## Collecting labelled groups

Items are collected in an ordered map under their keys. The first item of a key labels its group,
and every item adds a value to it. If the list is sorted by the keys, the groups taken one after
the other are the list again.
-/

namespace Bethkit.Lib

variable {α β γ κ : Type}

section Groups

variable [DecidableEq κ] {key : α → κ}

/-- A list in which a property only holds up to some place is split by it. -/
theorem filter_append_filter_not {holds : α → Bool} {items : List α}
    (initial : items.Pairwise fun first second => holds second → holds first) :
    items.filter holds ++ items.filter (fun item => !holds item) = items := by
  induction items with
  | nil => rfl
  | cons item items rest =>
    obtain ⟨first, later⟩ := List.pairwise_cons.mp initial
    by_cases here : holds item
    · rw [List.filter_cons_of_pos here, List.filter_cons_of_neg (by simp [here]), List.cons_append,
        rest later]
    · have none_ : items.filter holds = [] := by
        rw [List.filter_eq_nil_iff]
        exact fun other member found => here (first other member found)
      rw [List.filter_cons_of_neg here, List.filter_cons_of_pos (by simp [here]), none_,
        List.nil_append]
      have all := rest later
      rw [none_, List.nil_append] at all
      rw [all]

/-- The groups of a sorted list, one after the other, are the list. -/
theorem flatMap_filter_keys {less : κ → κ → Prop} (irreflexive : ∀ first, ¬less first first)
    {keys : List κ} (ascending : keys.Pairwise less) {items : List α}
    (sorted : items.Pairwise fun first second => ¬less (key second) (key first))
    (known : ∀ item ∈ items, key item ∈ keys) :
    (keys.flatMap fun found => items.filter fun item => decide (key item = found)) = items := by
  induction keys generalizing items with
  | nil =>
    cases items with
    | nil => rfl
    | cons item items => exact absurd (known item List.mem_cons_self) List.not_mem_nil
  | cons first keys rest =>
    obtain ⟨least, ascending⟩ := List.pairwise_cons.mp ascending
    have initial : items.Pairwise fun before item =>
        decide (key item = first) = true → decide (key before = first) = true := by
      refine sorted.imp_of_mem fun member _ ordered found => ?_
      rw [decide_eq_true_eq] at found ⊢
      rcases List.mem_cons.mp (known _ member) with same | later
      · exact same
      · exact absurd (found ▸ least _ later) ordered
    have others : (keys.flatMap fun found => items.filter fun item => decide (key item = found)) =
        items.filter fun item => !decide (key item = first) := by
      rw [← rest ascending (sorted.filter fun item => !decide (key item = first)) ?_]
      · refine List.flatMap_congr fun found member => ?_
        rw [List.filter_filter]
        refine List.filter_congr fun item _ => ?_
        by_cases same : key item = found
        · have apart : key item ≠ first := by
            intro equal
            have smaller := least found member
            rw [same.symm.trans equal] at smaller
            exact irreflexive first smaller
          simp [same, same ▸ apart]
        · simp [same]
      · intro item member
        obtain ⟨member, other⟩ := List.mem_filter.mp member
        have apart : key item ≠ first := by simpa using other
        exact (List.mem_cons.mp (known item member)).resolve_left apart
    rw [List.flatMap_cons, others]
    exact filter_append_filter_not initial

end Groups

section Collecting

variable [Ord κ] [Std.TransOrd κ] [Std.LawfulEqOrd κ] [DecidableEq κ]
variable (key : α → κ) (label : α → β) (value : α → γ)

/-- Add an item to the group of its key. -/
def addToGroup (groups : Std.TreeMap κ (β × List γ)) (item : α) : Std.TreeMap κ (β × List γ) :=
  let slot := groups[key item]?.getD (label item, [])
  groups.insert (key item) (slot.1, slot.2 ++ [value item])

/-- The group of a key: the label of its first item, and the values of all. -/
theorem getElem?_foldl_addToGroup (items : List α) (found : κ) :
    (items.foldl (addToGroup key label value) ∅)[found]? =
      (items.filter fun item => decide (key item = found)).head?.map fun first =>
        (label first, (items.filter fun item => decide (key item = found)).map value) := by
  induction items using List.reverseRecOn with
  | nil => simp
  | append_singleton items item rest =>
    rw [List.foldl_concat, addToGroup, Std.TreeMap.getElem?_insert, List.filter_append]
    by_cases same : key item = found
    · subst same
      rw [if_pos Std.ReflCmp.compare_self, rest, List.filter_cons_of_pos (by simp)]
      cases items.filter fun other => decide (key other = key item) <;> simp
    · have apart : ¬compare (key item) found = .eq := fun equal =>
        same (Std.LawfulEqOrd.eq_of_compare equal)
      rw [if_neg apart, rest, List.filter_cons_of_neg (by simp [same]), List.filter_nil,
        List.append_nil]

/-- All groups, in the order of their keys. -/
def collect (items : List α) : List (κ × β × List γ) :=
  (items.foldl (addToGroup key label value) ∅).toList

variable {key label value} {items : List α}

omit [Std.LawfulEqOrd κ] [DecidableEq κ] in
/-- The keys of the groups ascend. -/
theorem collect_ascending : ((collect key label value items).map Prod.fst).Pairwise
    fun first second => compare first second = .lt := by
  rw [collect, Std.TreeMap.map_fst_toList_eq_keys]
  exact Std.TreeMap.ordered_keys

/-- A group has the items of its key, and the label of the first of them. -/
theorem mem_collect {found : κ × β × List γ} : found ∈ collect key label value items ↔
    ((items.filter fun item => decide (key item = found.1)).head?.map fun first =>
      (label first, (items.filter fun item => decide (key item = found.1)).map value)) =
        some found.2 := by
  rw [← getElem?_foldl_addToGroup, collect]
  exact Std.TreeMap.mem_toList_iff_getElem?_eq_some

/-- Every item has a group. -/
theorem mem_keys_collect {item : α} (member : item ∈ items) :
    key item ∈ (collect key label value items).map Prod.fst := by
  have own : item ∈ items.filter fun other => decide (key other = key item) :=
    List.mem_filter.mpr ⟨member, by simp⟩
  obtain ⟨first, rest, found⟩ := List.exists_cons_of_ne_nil (List.ne_nil_of_mem own)
  refine List.mem_map.mpr ⟨(key item, label first,
    (items.filter fun other => decide (key other = key item)).map value), mem_collect.mpr ?_, rfl⟩
  rw [found]
  rfl

/-- The groups of a sorted list, one after the other, are the list. -/
theorem flatMap_collect (sorted : items.Pairwise fun first second =>
    compare (key second) (key first) ≠ .lt) :
    ((collect key label value items).flatMap fun group =>
      items.filter fun item => decide (key item = group.1)) = items := by
  have irreflexive (first : κ) : ¬compare first first = .lt := by
    have same : compare first first = .eq := Std.ReflCmp.compare_self
    rw [same]
    decide
  have ascending : ((collect key label value items).map Prod.fst).Pairwise
      fun first second => compare first second = .lt := collect_ascending
  have all := flatMap_filter_keys irreflexive ascending sorted fun _ => mem_keys_collect
  rwa [List.flatMap_map] at all

end Collecting

end Bethkit.Lib
