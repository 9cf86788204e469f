import Bethkit.Lib.Outcome
import Bethkit.Spec.NestedLens
import Bethkit.Verif.NodeIndex

/-!
# Reading and replacing values inside a payload are a lens

Below a node without unions the search and the replacement both count down the occurrences of a path
in one list of places. The search returns the value of the place, the replacement writes at its
address; a replacement changes this list around the address only.
-/

namespace Bethkit

open Lib

namespace NestedSearch

variable {α β : Type}

/-- The search for an occurrence in a list. -/
def nth : List α → Nat → NestedSearch α
  | [], occurrence => .missing occurrence
  | first :: _, 0 => .found first
  | _ :: rest, occurrence + 1 => nth rest occurrence

/-- What is found stands in the list. -/
theorem nth_eq_found {list : List α} {occurrence : Nat} {result : α} :
    nth list occurrence = .found result ↔ list[occurrence]? = some result := by
  induction list generalizing occurrence with
  | nil => simp [nth]
  | cons first list rest =>
    cases occurrence with
    | zero => simp [nth]
    | succ occurrence => simp [nth, rest]

/-- A search in a changed list. -/
theorem nth_map (f : α → β) (list : List α) (occurrence : Nat) :
    nth (list.map f) occurrence = (nth list occurrence).map f := by
  induction list generalizing occurrence with
  | nil => rfl
  | cons first list rest =>
    cases occurrence with
    | zero => rfl
    | succ occurrence => exact rest occurrence

/-- A search ends in the first list if it finds the occurrence there. -/
theorem nth_append_of_found {first : List α} {occurrence : Nat} {result : α}
    (found : nth first occurrence = .found result) (second : List α) :
    nth (first ++ second) occurrence = .found result := by
  rw [nth_eq_found] at found ⊢
  obtain ⟨inside, _⟩ := List.getElem?_eq_some_iff.mp found
  rw [List.getElem?_append_left inside]
  exact found

/-- A search goes on in the second list with the occurrences left. -/
theorem nth_append_of_missing {first : List α} {occurrence left : Nat}
    (absent : nth first occurrence = .missing left) (second : List α) :
    nth (first ++ second) occurrence = nth second left := by
  induction first generalizing occurrence with
  | nil =>
    cases absent
    rfl
  | cons head first rest =>
    cases occurrence with
    | zero => cases absent
    | succ occurrence => exact rest absent

/-- Changes of what was found compose. -/
theorem map_map {γ : Type} (f : α → β) (g : β → γ) (search : NestedSearch α) :
    (search.map f).map g = search.map (g ∘ f) := by
  cases search with
  | _ => rfl

/-- Two changes that agree on a list agree on what is found in it. -/
theorem map_nth_congr {f g : α → β} {list : List α} (same : ∀ entry ∈ list, f entry = g entry)
    (occurrence : Nat) : (nth list occurrence).map f = (nth list occurrence).map g := by
  rw [← nth_map, ← nth_map, List.map_congr_left same]

/-- A search over the parts ends in the first part if it finds the occurrence there. -/
theorem nth_placesBelow_of_found {first : List (List Nat × α)} {occurrence : Nat}
    {place : List Nat × α} (found : nth first occurrence = .found place)
    (rest : List (List (List Nat × α))) :
    nth (placesBelow (first :: rest)) occurrence = .found (0 :: place.1, place.2) := by
  apply nth_append_of_found
  rw [nth_map, found]
  rfl

/-- A search over the parts goes on behind a part without the occurrence. -/
theorem nth_placesBelow_of_missing {first : List (List Nat × α)} {occurrence left : Nat}
    (absent : nth first occurrence = .missing left) (rest : List (List (List Nat × α))) :
    nth (placesBelow (first :: rest)) occurrence =
      (nth (placesBelow rest) left).map fun place => (shiftPart place.1, place.2) := by
  have entered : nth (first.map fun place => (0 :: place.1, place.2)) occurrence =
      .missing left := by
    rw [nth_map, absent]
    rfl
  rw [placesBelow, nth_append_of_missing entered, nth_map]

end NestedSearch

namespace SchemaNode

/-- No child of a tree without unions has one. -/
theorem unionFree_child {node child : SchemaNode} (free : node.unionFree = true)
    (member : child ∈ node.children) : child.unionFree = true := by
  obtain ⟨position, stands⟩ := List.mem_iff_getElem?.mp member
  apply List.all_eq_true.mpr
  intro routed among
  apply List.all_eq_true.mp free (position :: routed.1, routed.2)
  rw [routed_eq, List.mem_cons, mem_routedFrom]
  exact Or.inr ⟨position, child, routed, stands, among, by rw [Nat.zero_add]⟩

/-- A tree without unions is none. -/
theorem isUnion_of_unionFree {node : SchemaNode} (free : node.unionFree = true) :
    node.isUnion = false := by
  have own := List.all_eq_true.mp free ([], node) (by rw [routed_eq]; exact List.mem_cons_self)
  simpa using own

end SchemaNode

namespace OwnedFieldValue

/-- The parts of a value with another value at an address inside them. -/
def writeParts (address : List Nat) (replacement : OwnedFieldValue)
    (values : List OwnedFieldValue) : List OwnedFieldValue :=
  match address with
  | [] => values
  | index :: address => values.modify index (composite.write address replacement)

/-- A value at an address behind the first part. -/
theorem writeParts_shift (address : List Nat) (replacement value : OwnedFieldValue)
    (values : List OwnedFieldValue) :
    writeParts (shiftPart address) replacement (value :: values) =
      value :: writeParts address replacement values := by
  cases address with
  | _ => rfl

end OwnedFieldValue

open OwnedFieldValue (composite writeParts)

/-! ## The places of a path -/

/-- The places in the members of a struct are those of its fields with their values. -/
theorem placesInFields_eq (path : String) (fields : List SchemaNode)
    (values : List OwnedFieldValue) :
    placesInFields path fields values = List.zipWith (placesAt path) fields values := by
  induction fields generalizing values with
  | nil => rfl
  | cons field fields rest =>
    cases values with
    | nil => rfl
    | cons value values => rw [placesInFields, rest, List.zipWith_cons_cons]

/-- A change of one value changes the places of its field. -/
theorem zipWith_modify {α β γ : Type} (places : α → β → γ) {fields : List α} {values : List β}
    {index : Nat} {field : α} {value : β} (described : fields[index]? = some field)
    (stands : values[index]? = some value) (change : β → β) :
    List.zipWith places fields (values.modify index change) =
      (List.zipWith places fields values).set index (places field (change value)) := by
  induction fields generalizing values index with
  | nil => cases described
  | cons first fields rest =>
    cases values with
    | nil => cases stands
    | cons head values =>
      cases index with
      | zero =>
        cases described
        cases stands
        rfl
      | succ index =>
        rw [List.modify_succ_cons, List.zipWith_cons_cons, List.zipWith_cons_cons,
          List.set_cons_succ, rest described stands]

/-- A change of one element changes its places. -/
theorem map_modify_eq_set {β γ : Type} (places : β → γ) {values : List β} {index : Nat} {value : β}
    (stands : values[index]? = some value) (change : β → β) :
    (values.modify index change).map places =
      (values.map places).set index (places (change value)) := by
  induction values generalizing index with
  | nil => cases stands
  | cons head values rest =>
    cases index with
    | zero =>
      cases stands
      rfl
    | succ index =>
      rw [List.modify_succ_cons, List.map_cons, List.map_cons, List.set_cons_succ, rest stands]

/-- At the address of a place stands its value. -/
theorem read_of_mem_placesAt (path : String) (node : SchemaNode) : ∀ value,
    ∀ place ∈ placesAt path node value, composite.read place.1 value = some place.2 := by
  induction node using SchemaNode.ofChildren with
  | step node below =>
    intro value place among
    unfold placesAt at among
    by_cases pruned : (!pathIsWithin path node.path) = true
    · rw [if_pos pruned] at among
      cases among
    · rw [if_neg pruned] at among
      by_cases hit : node.path = path
      · rw [if_pos hit] at among
        rw [List.mem_singleton.mp among]
        rfl
      · rw [if_neg hit] at among
        cases node with
        | struct info fields | optionalStruct info fields optionalFrom =>
          cases value with
          | struct values =>
            obtain ⟨index, inner, part, stands, member, rfl⟩ := mem_placesBelow.mp among
            rw [placesInFields_eq, List.getElem?_zipWith_eq_some] at stands
            obtain ⟨field, value, described, found, rfl⟩ := stands
            have known := below field (List.mem_of_getElem? described) value inner member
            show (values[index]?).bind (composite.read inner.1) = some inner.2
            rw [found]
            exact known
          | _ => cases among
        | array info element count =>
          cases value with
          | array values =>
            obtain ⟨index, inner, part, stands, member, rfl⟩ := mem_placesBelow.mp among
            rw [List.getElem?_map] at stands
            obtain ⟨value, found, rfl⟩ := Option.map_eq_some_iff.mp stands
            have known := below element List.mem_cons_self value inner member
            show (values[index]?).bind (composite.read inner.1) = some inner.2
            rw [found]
            exact known
          | _ => cases among
        | subrecord info signature child | compressed info algorithm child
        | terminated info terminator child =>
          exact below child List.mem_cons_self value place among
        | _ => cases among

/-- A write at a place of a path changes the value of this place among the places of the path. -/
theorem placesAt_write_self (path : String) (replacement : OwnedFieldValue) (node : SchemaNode) :
    ∀ value number place, (placesAt path node value)[number]? = some place →
      placesAt path node (composite.write place.1 replacement value) =
        (placesAt path node value).set number (place.1, replacement) := by
  induction node using SchemaNode.ofChildren with
  | step node below =>
    intro value number place stands
    unfold placesAt at stands ⊢
    by_cases pruned : (!pathIsWithin path node.path) = true
    · rw [if_pos pruned] at stands
      cases stands
    · rw [if_neg pruned] at stands ⊢
      rw [if_neg pruned]
      by_cases hit : node.path = path
      · rw [if_pos hit] at stands ⊢
        rw [if_pos hit]
        cases number with
        | zero =>
          cases stands
          rfl
        | succ number => cases stands
      · rw [if_neg hit] at stands ⊢
        rw [if_neg hit]
        cases node with
        | struct info fields | optionalStruct info fields optionalFrom =>
          cases value with
          | struct values =>
            obtain ⟨index, inner, part, own, inPart, held, rfl, changes⟩ :=
              getElem?_placesBelow stands
            rw [placesInFields_eq, List.getElem?_zipWith_eq_some] at inPart
            obtain ⟨field, value, described, found, rfl⟩ := inPart
            have known := below field (List.mem_of_getElem? described) value own inner held
            show placesBelow (placesInFields path fields
              (values.modify index (composite.write inner.1 replacement))) = _
            rw [placesInFields_eq, zipWith_modify _ described found, known, ← placesInFields_eq]
            exact changes replacement
          | _ => cases stands
        | array info element count =>
          cases value with
          | array values =>
            obtain ⟨index, inner, part, own, inPart, held, rfl, changes⟩ :=
              getElem?_placesBelow stands
            rw [List.getElem?_map] at inPart
            obtain ⟨value, found, rfl⟩ := Option.map_eq_some_iff.mp inPart
            have known := below element List.mem_cons_self value own inner held
            show placesBelow ((values.modify index
              (composite.write inner.1 replacement)).map (placesAt path element)) = _
            rw [map_modify_eq_set _ found, known]
            exact changes replacement
          | _ => cases stands
        | subrecord info signature child | compressed info algorithm child
        | terminated info terminator child =>
          exact below child List.mem_cons_self value number place stands
        | _ => cases stands

/-- A write at a place of one path changes the places of another one around its address only. -/
theorem placesAt_write (path other : String) (replacement : OwnedFieldValue) (node : SchemaNode) :
    ∀ value, ∀ place ∈ placesAt path node value, SameApart place.1 (placesAt other node value)
      (placesAt other node (composite.write place.1 replacement value)) := by
  induction node using SchemaNode.ofChildren with
  | step node below =>
    intro value place among
    unfold placesAt at among
    by_cases pruned : (!pathIsWithin path node.path) = true
    · rw [if_pos pruned] at among
      cases among
    · rw [if_neg pruned] at among
      by_cases hit : node.path = path
      · rw [if_pos hit] at among
        rw [List.mem_singleton.mp among]
        exact .whole _ _
      · rw [if_neg hit] at among
        unfold placesAt
        by_cases outside : (!pathIsWithin other node.path) = true
        · rw [if_pos outside, if_pos outside]
          exact .empty _
        · rw [if_neg outside, if_neg outside]
          by_cases here : node.path = other
          · rw [if_pos here, if_pos here]
            exact .single _ _ _
          · rw [if_neg here, if_neg here]
            cases node with
            | struct info fields | optionalStruct info fields optionalFrom =>
              cases value with
              | struct values =>
                obtain ⟨index, inner, part, stands, member, rfl⟩ := mem_placesBelow.mp among
                rw [placesInFields_eq, List.getElem?_zipWith_eq_some] at stands
                obtain ⟨field, value, described, found, rfl⟩ := stands
                have known := below field (List.mem_of_getElem? described) value inner member
                have stood : (List.zipWith (placesAt other) fields values)[index]? =
                    some (placesAt other field value) :=
                  List.getElem?_zipWith_eq_some.mpr ⟨field, value, described, found, rfl⟩
                show SameApart (index :: inner.1) (placesBelow (placesInFields other fields values))
                  (placesBelow (placesInFields other fields
                    (values.modify index (composite.write inner.1 replacement))))
                rw [placesInFields_eq, placesInFields_eq, zipWith_modify _ described found]
                exact known.placesBelow stood
              | _ => cases among
            | array info element count =>
              cases value with
              | array values =>
                obtain ⟨index, inner, part, stands, member, rfl⟩ := mem_placesBelow.mp among
                rw [List.getElem?_map] at stands
                obtain ⟨value, found, rfl⟩ := Option.map_eq_some_iff.mp stands
                have known := below element List.mem_cons_self value inner member
                have stood : (values.map (placesAt other element))[index]? =
                    some (placesAt other element value) := by
                  rw [List.getElem?_map, found]
                  rfl
                show SameApart (index :: inner.1)
                  (placesBelow (values.map (placesAt other element)))
                  (placesBelow ((values.modify index
                    (composite.write inner.1 replacement)).map (placesAt other element)))
                rw [map_modify_eq_set _ found]
                exact known.placesBelow stood
              | _ => cases among
            | subrecord info signature child | compressed info algorithm child
            | terminated info terminator child =>
              exact below child List.mem_cons_self value place among
            | _ => cases among

namespace RecordEditor

variable (editor : RecordEditor) (context : NestedValueContext) (path : String)

/-- What a search for an occurrence returns. -/
def Finds (node : SchemaNode) : Prop := ∀ value occurrence,
  editor.nestedValueAtWithFields context path node value occurrence =
    .ok ((NestedSearch.nth (placesAt path node value) occurrence).map Prod.snd)

/-- What a replacement of an occurrence returns. -/
def Replaces (replacement : OwnedFieldValue) (node : SchemaNode) : Prop :=
  ∀ value occurrence arrayIndices,
    editor.editNested context ⟨path, true, fun _ _ => .ok replacement⟩ node value occurrence
        arrayIndices =
      .ok ((NestedSearch.nth (placesAt path node value) occurrence).map fun place =>
        composite.write place.1 replacement value)

variable {editor context path}

/-- The search in the members of a struct. -/
theorem nestedValueInFields_eq {fields : List SchemaNode}
    (finds : ∀ field ∈ fields, editor.Finds context path field) (values : List OwnedFieldValue)
    (occurrence : Nat) :
    editor.nestedValueInFields context path fields values occurrence =
      .ok ((NestedSearch.nth (placesBelow (placesInFields path fields values))
        occurrence).map Prod.snd) := by
  induction fields generalizing values occurrence with
  | nil => rfl
  | cons field fields rest =>
    cases values with
    | nil => rfl
    | cons value values =>
      rw [nestedValueInFields, finds field List.mem_cons_self, ok_bind, placesInFields]
      cases first : NestedSearch.nth (placesAt path field value) occurrence with
      | found place =>
        rw [NestedSearch.nth_placesBelow_of_found first]
        rfl
      | missing left =>
        rw [NestedSearch.nth_placesBelow_of_missing first, NestedSearch.map_map]
        exact rest (fun field member => finds field (List.mem_cons_of_mem _ member)) values left

/-- The search in the elements of an array. -/
theorem findInElements_eq {element : SchemaNode} (finds : editor.Finds context path element)
    (values : List OwnedFieldValue) (occurrence : Nat) :
    findInElements (editor.nestedValueAtWithFields context path element) values occurrence =
      .ok ((NestedSearch.nth (placesBelow (values.map (placesAt path element)))
        occurrence).map Prod.snd) := by
  induction values generalizing occurrence with
  | nil => rfl
  | cons value values rest =>
    rw [findInElements, finds, ok_bind, List.map_cons]
    cases first : NestedSearch.nth (placesAt path element value) occurrence with
    | found place =>
      rw [NestedSearch.nth_placesBelow_of_found first]
      rfl
    | missing left =>
      rw [NestedSearch.nth_placesBelow_of_missing first, NestedSearch.map_map]
      exact rest left

/-- The search below a node without unions goes through its places. -/
theorem finds_of_unionFree (node : SchemaNode) (free : node.unionFree = true) :
    editor.Finds context path node := by
  induction node using SchemaNode.ofChildren with
  | step node below =>
    intro value occurrence
    unfold nestedValueAtWithFields placesAt
    by_cases pruned : (!pathIsWithin path node.path) = true
    · rw [if_pos pruned, if_pos pruned]
      rfl
    · rw [if_neg pruned, if_neg pruned]
      by_cases hit : node.path = path
      · rw [if_pos hit, if_pos hit]
        cases occurrence with
        | zero => rfl
        | succ occurrence => rfl
      · rw [if_neg hit, if_neg hit]
        have children : ∀ child ∈ node.children, editor.Finds context path child :=
          fun child member => below child member (SchemaNode.unionFree_child free member)
        cases node with
        | struct info fields | optionalStruct info fields optionalFrom =>
          cases value with
          | struct values => exact nestedValueInFields_eq children values occurrence
          | _ => rfl
        | array info element count =>
          cases value with
          | array values =>
            exact findInElements_eq (children element List.mem_cons_self) values occurrence
          | _ => rfl
        | union info selector variants =>
          exact absurd (SchemaNode.isUnion_of_unionFree free) Bool.noConfusion
        | subrecord info signature child | compressed info algorithm child
        | terminated info terminator child =>
          exact children child List.mem_cons_self value occurrence
        | _ => rfl

/-- A replacement in the first part. -/
theorem replaced_of_found {first : List (List Nat × OwnedFieldValue)} {occurrence : Nat}
    {place : List Nat × OwnedFieldValue} (found : NestedSearch.nth first occurrence = .found place)
    (rest : List (List (List Nat × OwnedFieldValue))) (replacement value : OwnedFieldValue)
    (values : List OwnedFieldValue) :
    ((NestedSearch.nth (placesBelow (first :: rest)) occurrence).map fun place =>
        writeParts place.1 replacement (value :: values)) =
      .found (composite.write place.1 replacement value :: values) := by
  rw [NestedSearch.nth_placesBelow_of_found found]
  rfl

/-- A replacement behind the first part. -/
theorem replaced_of_missing {first : List (List Nat × OwnedFieldValue)} {occurrence left : Nat}
    (absent : NestedSearch.nth first occurrence = .missing left)
    (rest : List (List (List Nat × OwnedFieldValue))) (replacement value : OwnedFieldValue)
    (values : List OwnedFieldValue) :
    ((NestedSearch.nth (placesBelow (first :: rest)) occurrence).map fun place =>
        writeParts place.1 replacement (value :: values)) =
      (((NestedSearch.nth (placesBelow rest) left).map fun place =>
        writeParts place.1 replacement values).map (value :: ·)) := by
  rw [NestedSearch.nth_placesBelow_of_missing absent, NestedSearch.map_map, NestedSearch.map_map]
  apply NestedSearch.map_nth_congr
  intro place _
  exact OwnedFieldValue.writeParts_shift place.1 replacement value values

/-- The replacement in the members of a struct. -/
theorem editFields_eq {replacement : OwnedFieldValue} {fields : List SchemaNode}
    (replaces : ∀ field ∈ fields, editor.Replaces context path replacement field)
    (values : List OwnedFieldValue) (occurrence : Nat) (arrayIndices : List Nat) :
    editor.editFields context ⟨path, true, fun _ _ => .ok replacement⟩ fields values occurrence
        arrayIndices =
      .ok ((NestedSearch.nth (placesBelow (placesInFields path fields values)) occurrence).map
        fun place => writeParts place.1 replacement values) := by
  induction fields generalizing values occurrence with
  | nil => rfl
  | cons field fields rest =>
    cases values with
    | nil => rfl
    | cons value values =>
      rw [editFields, replaces field List.mem_cons_self, ok_bind, placesInFields]
      cases first : NestedSearch.nth (placesAt path field value) occurrence with
      | found place =>
        rw [replaced_of_found first]
        rfl
      | missing left =>
        have later := rest (fun field member => replaces field (List.mem_cons_of_mem _ member))
          values left
        rw [replaced_of_missing first]
        show (do
          let rest ← editor.editFields context ⟨path, true, fun _ _ => .ok replacement⟩ fields
            values left arrayIndices
          .ok (rest.map (value :: ·))) = _
        rw [later, ok_bind]

/-- The replacement in the elements of an array. -/
theorem editElements_eq {replacement : OwnedFieldValue} {element : SchemaNode}
    (replaces : editor.Replaces context path replacement element)
    (values : List OwnedFieldValue) (index occurrence : Nat) (arrayIndices : List Nat) :
    editElements (fun value index occurrence => editor.editNested context
        ⟨path, true, fun _ _ => .ok replacement⟩ element value occurrence (arrayIndices ++ [index]))
        values index occurrence =
      .ok ((NestedSearch.nth (placesBelow (values.map (placesAt path element))) occurrence).map
        fun place => writeParts place.1 replacement values) := by
  induction values generalizing index occurrence with
  | nil => rfl
  | cons value values rest =>
    rw [editElements, replaces, ok_bind, List.map_cons]
    cases first : NestedSearch.nth (placesAt path element value) occurrence with
    | found place =>
      rw [replaced_of_found first]
      rfl
    | missing left =>
      rw [replaced_of_missing first]
      show (do
        let rest ← editElements _ values (index + 1) left
        .ok (rest.map (value :: ·))) = _
      rw [rest (index + 1) left, ok_bind]

/-- A write inside a value is a write in its parts. -/
theorem replaced_in_parts {parts : List (List (List Nat × OwnedFieldValue))}
    {values : List OwnedFieldValue} {value replacement : OwnedFieldValue}
    (composed : value.parts = values) (occurrence : Nat) :
    (((NestedSearch.nth (placesBelow parts) occurrence).map fun place =>
        writeParts place.1 replacement values).map value.rebuild) =
      (NestedSearch.nth (placesBelow parts) occurrence).map fun place =>
        composite.write place.1 replacement value := by
  subst composed
  rw [NestedSearch.map_map]
  apply NestedSearch.map_nth_congr
  intro place among
  obtain ⟨index, inner, part, _, _, rfl⟩ := mem_placesBelow.mp among
  rfl

/-- The replacement below a node without unions goes through its places. -/
theorem replaces_of_unionFree (replacement : OwnedFieldValue) (node : SchemaNode)
    (free : node.unionFree = true) : editor.Replaces context path replacement node := by
  induction node using SchemaNode.ofChildren with
  | step node below =>
    intro value occurrence arrayIndices
    unfold editNested placesAt
    rw [Bool.true_and]
    by_cases pruned : (!pathIsWithin path node.path) = true
    · rw [if_pos pruned, if_pos pruned]
      rfl
    · rw [if_neg pruned, if_neg pruned]
      by_cases hit : node.path = path
      · rw [if_pos hit, if_pos hit]
        cases occurrence with
        | zero => rfl
        | succ occurrence => rfl
      · rw [if_neg hit, if_neg hit]
        have children : ∀ child ∈ node.children,
            editor.Replaces context path replacement child :=
          fun child member => below child member (SchemaNode.unionFree_child free member)
        cases node with
        | struct info fields | optionalStruct info fields optionalFrom =>
          cases value with
          | struct values =>
            have composed : (OwnedFieldValue.struct values).parts = values := rfl
            rw [← replaced_in_parts composed]
            show (do
              let search ← editor.editFields context _ fields values occurrence arrayIndices
              .ok (search.map OwnedFieldValue.struct)) = _
            have edited := editFields_eq children values occurrence arrayIndices
            rw [SchemaNode.children] at edited
            rw [edited, ok_bind]
            rfl
          | _ => rfl
        | array info element count =>
          cases value with
          | array values =>
            have composed : (OwnedFieldValue.array values).parts = values := rfl
            rw [← replaced_in_parts composed]
            show (do
              let search ← editElements _ values 0 occurrence
              .ok (search.map OwnedFieldValue.array)) = _
            rw [editElements_eq (children element List.mem_cons_self), ok_bind]
            rfl
          | _ => rfl
        | union info selector variants =>
          exact absurd (SchemaNode.isUnion_of_unionFree free) Bool.noConfusion
        | subrecord info signature child | compressed info algorithm child
        | terminated info terminator child =>
          exact children child List.mem_cons_self value occurrence arrayIndices
        | _ => rfl

/-- The value that a search finds is the value of the place. -/
theorem nestedValueAt_found_iff {node : SchemaNode} (free : node.unionFree = true)
    (value : OwnedFieldValue) (occurrence : Nat) (current : OwnedFieldValue) :
    editor.nestedValueAt node value path occurrence = .ok (.found current) ↔
      ∃ address, (placesAt path node value)[occurrence]? = some (address, current) := by
  unfold nestedValueAt
  rw [finds_of_unionFree node free, Except.ok.injEq]
  cases search : NestedSearch.nth (placesAt path node value) occurrence with
  | found place =>
    rw [NestedSearch.nth_eq_found.mp search]
    show NestedSearch.found place.2 = .found current ↔ _
    constructor
    · intro same
      cases same
      exact ⟨place.1, rfl⟩
    · intro same
      obtain ⟨address, same⟩ := same
      cases same
      rfl
  | missing left =>
    constructor
    · intro same
      cases same
    · intro stands
      obtain ⟨address, stands⟩ := stands
      rw [NestedSearch.nth_eq_found.mpr stands] at search
      cases search

/-- A replacement writes at the address of the place. -/
theorem setNestedValue_found_iff {node : SchemaNode} (free : node.unionFree = true)
    (value : OwnedFieldValue) (occurrence : Nat) (replacement updated : OwnedFieldValue) :
    editor.setNestedValue node value path occurrence replacement = .ok (.found updated) ↔
      ∃ place, (placesAt path node value)[occurrence]? = some place ∧
        updated = composite.write place.1 replacement value := by
  unfold setNestedValue setNestedValueWithFields
  rw [replaces_of_unionFree replacement node free, Except.ok.injEq]
  cases search : NestedSearch.nth (placesAt path node value) occurrence with
  | found place =>
    rw [NestedSearch.nth_eq_found.mp search]
    show NestedSearch.found (composite.write place.1 replacement value) = .found updated ↔ _
    constructor
    · intro same
      cases same
      exact ⟨place, rfl, rfl⟩
    · intro same
      obtain ⟨other, same, isWritten⟩ := same
      cases same
      rw [isWritten]
  | missing left =>
    constructor
    · intro same
      cases same
    · intro stands
      obtain ⟨place, stands, _⟩ := stands
      rw [NestedSearch.nth_eq_found.mpr stands] at search
      cases search

/-- The place of an occurrence with an address. -/
theorem addressAt_eq_some {node : SchemaNode} {value : OwnedFieldValue} {occurrence : Nat}
    {address : List Nat} : addressAt path node value occurrence = some address ↔
      ∃ current, (placesAt path node value)[occurrence]? = some (address, current) := by
  unfold addressAt
  rw [Option.map_eq_some_iff]
  constructor
  · intro known
    obtain ⟨place, stands, same⟩ := known
    exact ⟨place.2, by rw [stands, ← same]⟩
  · intro known
    obtain ⟨current, stands⟩ := known
    exact ⟨(address, current), stands, rfl⟩

/-- Below a node without unions, reading and replacing the values at the occurrences of paths are a
lens. -/
theorem nestedLens (editor : RecordEditor) (node : SchemaNode) (free : node.unionFree = true) :
    editor.NestedLens node where
  reads value path occurrence current := by
    rw [nestedValueAt_found_iff free]
    constructor
    · intro found
      obtain ⟨address, stands⟩ := found
      have reads := read_of_mem_placesAt path node value _ (List.mem_of_getElem? stands)
      exact ⟨address, addressAt_eq_some.mpr ⟨current, stands⟩, reads⟩
    · intro found
      obtain ⟨address, addressed, reads⟩ := found
      obtain ⟨other, stands⟩ := addressAt_eq_some.mp addressed
      have own := read_of_mem_placesAt path node value _ (List.mem_of_getElem? stands)
      have same : other = current := Option.some.inj (own.symm.trans reads)
      exact ⟨address, same ▸ stands⟩
  settable value path occurrence replacement := by
    constructor
    · intro set
      obtain ⟨updated, set⟩ := set
      obtain ⟨place, stands, _⟩ := (setNestedValue_found_iff free ..).mp set
      exact ⟨place.2, (nestedValueAt_found_iff free ..).mpr ⟨place.1, stands⟩⟩
    · intro found
      obtain ⟨current, found⟩ := found
      obtain ⟨address, stands⟩ := (nestedValueAt_found_iff free ..).mp found
      exact ⟨_, (setNestedValue_found_iff free ..).mpr ⟨_, stands, rfl⟩⟩
  putGet value path occurrence replacement updated set := by
    obtain ⟨place, stands, rfl⟩ := (setNestedValue_found_iff free ..).mp set
    apply (nestedValueAt_found_iff free ..).mpr
    have inside := (List.getElem?_eq_some_iff.mp stands).1
    rw [placesAt_write_self path replacement node value occurrence place stands]
    exact ⟨place.1, List.getElem?_set_self inside⟩
  getPut value path occurrence current found := by
    obtain ⟨address, stands⟩ := (nestedValueAt_found_iff free ..).mp found
    apply (setNestedValue_found_iff free ..).mpr
    have reads := read_of_mem_placesAt path node value _ (List.mem_of_getElem? stands)
    exact ⟨_, stands, (composite.write_read reads).symm⟩
  frame value path occurrence replacement updated address set addressed other apart := by
    obtain ⟨place, stands, rfl⟩ := (setNestedValue_found_iff free ..).mp set
    obtain ⟨current, known⟩ := addressAt_eq_some.mp addressed
    rw [known] at stands
    cases stands
    exact composite.read_write_apart apart replacement value
  unchanged value path occurrence replacement updated here otherPath number there set hereStands
      thereStands apart keeps := by
    obtain ⟨place, stands, rfl⟩ := (setNestedValue_found_iff free ..).mp set
    obtain ⟨current, known⟩ := addressAt_eq_some.mp hereStands
    rw [known] at stands
    cases stands
    obtain ⟨held, standing⟩ := addressAt_eq_some.mp thereStands
    have around := placesAt_write path otherPath replacement node value _
      (List.mem_of_getElem? known)
    have stays := around.getElem?_eq standing apart keeps
    rw [(nestedValueAt_found_iff free value number held).mpr ⟨there, standing⟩]
    exact (nestedValueAt_found_iff free ..).mpr ⟨there, stays⟩
  commute value path occurrence replacement left here otherPath number other right there setLeft
      setRight hereStands thereStands apart keepsOther keepsOwn := by
    obtain ⟨place, stands, rfl⟩ := (setNestedValue_found_iff free ..).mp setLeft
    obtain ⟨current, known⟩ := addressAt_eq_some.mp hereStands
    rw [known] at stands
    cases stands
    obtain ⟨place, stands, rfl⟩ := (setNestedValue_found_iff free ..).mp setRight
    obtain ⟨held, standing⟩ := addressAt_eq_some.mp thereStands
    rw [standing] at stands
    cases stands
    have apartBack : Composite.Apart there here := ⟨apart.2, apart.1⟩
    have afterLeft := (placesAt_write path otherPath replacement node value _
      (List.mem_of_getElem? known)).getElem?_eq standing apart keepsOther
    have afterRight := (placesAt_write otherPath path other node value _
      (List.mem_of_getElem? standing)).getElem?_eq known apartBack keepsOwn
    refine ⟨_, (setNestedValue_found_iff free ..).mpr ⟨_, afterLeft, rfl⟩,
      (setNestedValue_found_iff free ..).mpr ⟨_, afterRight, ?_⟩⟩
    exact composite.write_comm apartBack other replacement value

/-- The lens of an array of arrays. -/
theorem nestedLens_rows : (RecordEditor.sample (.sample [] [] []) (.sample .DATA [])).NestedLens
    SchemaNode.rows :=
  nestedLens _ _ (by decide)

/-- The paths of rows and cells are within those above them. -/
theorem pathIsWithin_rows : pathIsWithin "rows/row" "rows" = true ∧
    pathIsWithin "rows/row" "rows/row" = true ∧ pathIsWithin "rows/row/cell" "rows" = true ∧
    pathIsWithin "rows/row/cell" "rows/row" = true ∧
    pathIsWithin "rows/row/cell" "rows/row/cell" = true := by
  decide +kernel

/-- The places of the rows. -/
theorem placesAt_row (rows : List (List UInt64)) : placesAt "rows/row" .rows (.rows rows) =
    placesBelow (rows.map fun cells => [([], .array (cells.map .uint))]) := by
  simp [placesAt, SchemaNode.rows, OwnedFieldValue.rows, SchemaNode.path, SchemaNode.info,
    NodeInfo.plain, pathIsWithin_rows, Function.comp_def]

/-- The places of the cells. -/
theorem placesAt_cell (rows : List (List UInt64)) : placesAt "rows/row/cell" .rows (.rows rows) =
    placesBelow (rows.map fun cells => placesBelow (cells.map fun cell => [([], .uint cell)])) := by
  simp [placesAt, SchemaNode.rows, OwnedFieldValue.rows, SchemaNode.path, SchemaNode.info,
    NodeInfo.plain, pathIsWithin_rows, Function.comp_def]

/-- A longer row in front renumbers the cells behind it: the second cell, which is in another row,
has another value afterwards, and a set of it does not commute with the one of the row. -/
theorem not_nestedPlaces_independent :
    let editor := RecordEditor.sample (.sample [] [] []) (.sample .DATA [])
    let old := OwnedFieldValue.rows [[1], [2]]
    let row := OwnedFieldValue.array [.uint 1, .uint 3]
    SchemaNode.rows.unionFree = true ∧
      addressAt "rows/row" .rows old 0 = some [0] ∧
      addressAt "rows/row/cell" .rows old 1 = some [1, 0] ∧ Composite.Apart [0] [1, 0] ∧
      editor.setNestedValue .rows old "rows/row" 0 row = .ok (.found (.rows [[1, 3], [2]])) ∧
      editor.nestedValueAt .rows old "rows/row/cell" 1 = .ok (.found (.uint 2)) ∧
      editor.nestedValueAt .rows (.rows [[1, 3], [2]]) "rows/row/cell" 1 =
        .ok (.found (.uint 3)) ∧
      editor.setNestedValue .rows (.rows [[1, 3], [2]]) "rows/row/cell" 1 (.uint 9) =
        .ok (.found (.rows [[1, 9], [2]])) ∧
      editor.setNestedValue .rows old "rows/row/cell" 1 (.uint 9) =
        .ok (.found (.rows [[1], [9]])) ∧
      editor.setNestedValue .rows (.rows [[1], [9]]) "rows/row" 0 row =
        .ok (.found (.rows [[1, 3], [9]])) := by
  have free : SchemaNode.rows.unionFree = true := by decide
  refine ⟨free, ?_, ?_, .of_ne (by decide) _ _, ?_, ?_, ?_, ?_, ?_, ?_⟩
  · rw [addressAt, placesAt_row]
    rfl
  · rw [addressAt, placesAt_cell]
    rfl
  · apply (setNestedValue_found_iff free ..).mpr
    rw [placesAt_row]
    exact ⟨_, rfl, rfl⟩
  · apply (nestedValueAt_found_iff free ..).mpr
    rw [placesAt_cell]
    exact ⟨_, rfl⟩
  · apply (nestedValueAt_found_iff free ..).mpr
    rw [placesAt_cell]
    exact ⟨_, rfl⟩
  · apply (setNestedValue_found_iff free ..).mpr
    rw [placesAt_cell]
    exact ⟨_, rfl, rfl⟩
  · apply (setNestedValue_found_iff free ..).mpr
    rw [placesAt_cell]
    exact ⟨_, rfl, rfl⟩
  · apply (setNestedValue_found_iff free ..).mpr
    rw [placesAt_row]
    exact ⟨_, rfl, rfl⟩

end RecordEditor

end Bethkit
