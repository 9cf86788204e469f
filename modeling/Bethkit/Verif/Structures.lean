import Bethkit.Lib.Outcome
import Bethkit.Spec.Occurrence
import Bethkit.Spec.Sample
import Bethkit.Verif.GrammarDerivation

/-!
# The structures of a repeat

The view groups the fields of a record by local occurrence counters, which restart inside every
enclosing occurrence. The groups are the occurrences exactly when no two occurrences of a node
have the same counter.
-/

namespace Bethkit

open Lib

/-- A match has a repeat stack for every subrecord. -/
theorem interpretInputs_length {root : SchemaNode} {recordSignature : Signature}
    {formVersion : UInt16} {subrecords : List WritableSubRecord} {result : GrammarMatch}
    (done : interpretInputs root recordSignature formVersion subrecords = .ok result) :
    result.repeatScopes.length = subrecords.length := by
  rw [interpretInputs, bind_eq_ok] at done
  obtain ⟨state, _, done⟩ := done
  obtain rfl := Except.ok.inj done
  rw [MatchState.toMatch, length_foldl_set, List.length_replicate]

namespace Semantic.RecordView

/-- A field carries the repeat stack of its subrecord. -/
theorem fieldAt_repeatScopes {view : Semantic.RecordView} {grammar : GrammarMatch}
    {discardUnobserved : Bool} {subrecords : List WritableSubRecord}
    {entry : WritableSubRecord × Nat} {field : Field}
    (done : view.fieldAt grammar discardUnobserved subrecords entry = .ok field) :
    field.repeatScopes = grammar.repeatScopes.getD entry.2 [] := by
  rw [fieldAt] at done
  split at done
  case h_1 node info signature payload assigned =>
    rw [assignedField, bind_eq_ok] at done
    obtain ⟨_, _, done⟩ := done
    obtain rfl := Except.ok.inj done
    rfl
  case h_2 => cases done
  case h_3 =>
    obtain rfl := Except.ok.inj done
    rfl

/-- Every decoded field stands beside its own repeat stack. -/
theorem fieldsWithScopes_of_fields {inflate : Inflate} {view : Semantic.RecordView}
    {fields : List Field} (decoded : view.fields inflate = .ok fields) :
    view.fieldsWithScopes inflate = .ok (fields.map fun field => (field, field.repeatScopes)) := by
  have whole := decoded
  rw [RecordView.fields, fieldsImpl, bind_eq_ok] at decoded
  obtain ⟨subrecords, read, decoded⟩ := decoded
  obtain ⟨grammar, matched, decoded⟩ := bind_eq_ok.mp decoded
  have each := mapM_eq_ok.mp decoded
  have count := interpretInputs_length matched
  have length := each.length_eq
  rw [List.length_zipIdx, ← count] at length
  have beside : ∀ entry ∈ fields.zipIdx,
      (grammar.repeatScopes[entry.2]?.map fun scopes => (entry.1, scopes)) =
        some (entry.1, entry.1.repeatScopes) := by
    rintro ⟨field, index⟩ member
    have found := List.mem_zipIdx_iff_getElem?.mp member
    obtain ⟨bound, same⟩ := List.getElem?_eq_some_iff.mp found
    have inside : index < grammar.repeatScopes.length := by omega
    have made := each.get (i := index) (by rw [List.length_zipIdx]; omega) bound
    have stack := fieldAt_repeatScopes made
    simp only [List.get_eq_getElem, List.getElem_zipIdx, Nat.zero_add] at stack
    rw [same, List.getD_eq_getElem?_getD, List.getElem?_eq_getElem inside, Option.getD_some]
      at stack
    rw [List.getElem?_eq_getElem inside, Option.map_some, stack]
  rw [fieldsWithScopes, read, ok_bind, interpret, matched, ok_bind, whole, ok_bind,
    List.filterMap_congr beside, ← Function.comp_def, List.filterMap_eq_map]
  refine congrArg Except.ok ?_
  conv_rhs => rw [← List.zipIdx_map_fst 0 fields, List.map_map]
  rfl

/-- The members of the occurrences of a path, as the view pushes them. -/
theorem repeatedStructures_of_fields {inflate : Inflate} {view : Semantic.RecordView}
    {fields : List Field} (decoded : view.fields inflate = .ok fields) (path : String) :
    view.repeatedStructures inflate path =
      .ok ((gather ((outermostOccurrences (repeatsStructure path) fields).map
        (Prod.map localCounter id))).toList.map fun group => .struct group.2) := by
  rw [repeatedStructures, fieldsWithScopes_of_fields decoded, ok_bind]
  have pushed : (fields.map fun field => (field, field.repeatScopes)).filterMap
      (fun entry => (entry.2.find? (repeatsStructure path)).map fun scope =>
        (scope.occurrence, namedFromField entry.1)) =
      (outermostOccurrences (repeatsStructure path) fields).map (Prod.map localCounter id) := by
    rw [outermostOccurrences, List.map_filterMap, List.filterMap_map]
    refine List.filterMap_congr fun field _ => ?_
    have head := localCounter_head_occurrencesOn (repeatsStructure path) field.repeatScopes
    have tagged := congrArg (Option.map fun counter => (counter, namedFromField field)) head
    rw [Option.map_map, Option.map_map] at tagged
    rw [Option.map_map]
    exact tagged.symm
  rw [← pushed]

/-- The members of all occurrences of every path, as the view pushes them. -/
def pushedScopes (fields : List Field) : List (String × Nat × NamedValue) :=
  fields.flatMap fun field =>
    field.repeatScopes.map fun scope => (scope.path, scope.occurrence, namedFromField field)

/-- The callback scope of a record. -/
theorem structuralCallbackScope_of_fields {inflate : Inflate} {view : Semantic.RecordView}
    {fields : List Field} (decoded : view.fields inflate = .ok fields) :
    view.structuralCallbackScope inflate = .ok (.struct
      (((gather (pushedScopes fields)).toList.map fun (path, pushed) => scopeArray path pushed) ++
        fields.map namedFromField)) := by
  rw [structuralCallbackScope, fieldsWithScopes_of_fields decoded, ok_bind, decoded, ok_bind,
    List.flatMap_map]
  rfl

/-- The members of one path are those of its occurrences. -/
theorem classOf_pushedScopes (fields : List Field) (path : String) :
    classOf (pushedScopes fields) path =
      (allOccurrences (·.path = path) fields).map (Prod.map localCounter id) := by
  rw [classOf, pushedScopes, allOccurrences, List.filter_flatMap, List.map_flatMap,
    List.map_flatMap]
  refine List.flatMap_congr fun field _ => ?_
  rw [List.filter_map, List.map_map, List.map_map]
  have counters := map_localCounter_occurrencesOn (·.path = path) field.repeatScopes
  have tagged := congrArg (List.map fun counter => (counter, namedFromField field)) counters
  rw [List.map_map, List.map_map] at tagged
  exact tagged.symm

end Semantic.RecordView

/-- The structures of a grouping by local counters are those of the occurrences exactly when the
counters tell the occurrences apart. -/
theorem isStructurePerOccurrence_iff (members : List (List RepeatScope × NamedValue)) :
    IsStructurePerOccurrence
        ((gather (members.map (Prod.map localCounter id))).toList.map
          fun (_, fields) => FieldValue.struct fields) members ↔
      CountersTellApart members := by
  have grouped := (values_gather_perm (members.map (Prod.map localCounter id))).map
    FieldValue.struct
  rw [List.map_map] at grouped
  have injective : Function.Injective FieldValue.struct := fun _ _ same =>
    FieldValue.struct.inj same
  rw [IsStructurePerOccurrence, CountersTellApart, ← classes_map_perm_iff localCounter members]
  constructor
  · intro perm
    exact (List.map_perm_map_iff injective).mp (grouped.symm.trans perm)
  · intro perm
    exact grouped.trans (perm.map _)

/-- The structures of a repeated path, and the arrays of the callback scope, are one structure
for every occurrence exactly when no two occurrences of the path have the same local counter. -/
theorem repeatedStructures_iff (inflate : Inflate) (view : Semantic.RecordView)
    (fields : List Field) (decoded : view.fields inflate = .ok fields) :
    (∀ path, ∃ structures, view.repeatedStructures inflate path = .ok structures ∧
      (IsStructurePerOccurrence structures (outermostOccurrences (repeatsStructure path) fields) ↔
        CountersTellApart (outermostOccurrences (repeatsStructure path) fields))) ∧
    ∃ arrays : List (String × List FieldValue),
      view.structuralCallbackScope inflate = .ok (.struct (
        (arrays.map fun (path, structures) => .mk 0xFFFFFFFF path none
          "Repeated structural scope" ⟨0, 0⟩ (.array structures)) ++
        fields.map namedFromField)) ∧
      (arrays.map Prod.fst).Nodup ∧
      (∀ path, path ∈ arrays.map Prod.fst ↔
        ∃ field ∈ fields, ∃ scope ∈ field.repeatScopes, scope.path = path) ∧
      ∀ path structures, (path, structures) ∈ arrays →
        (IsStructurePerOccurrence structures (allOccurrences (·.path = path) fields) ↔
          CountersTellApart (allOccurrences (·.path = path) fields)) := by
  refine ⟨fun path => ⟨_, Semantic.RecordView.repeatedStructures_of_fields decoded path,
    isStructurePerOccurrence_iff _⟩, ?_⟩
  have groups := toList_gather_perm (Semantic.RecordView.pushedScopes fields)
  refine ⟨(gather (Semantic.RecordView.pushedScopes fields)).toList.map fun (path, pushed) =>
    (path, (gather pushed).toList.map fun (_, fields) => .struct fields), ?_, ?_, ?_, ?_⟩
  · rw [Semantic.RecordView.structuralCallbackScope_of_fields decoded, List.map_map]
    rfl
  · rw [List.map_map]
    have keys := groups.map Prod.fst
    rw [List.map_map] at keys
    exact keys.nodup_iff.mpr ((List.map_id _).symm ▸ List.nodup_dedup _)
  · intro path
    have keys := (groups.map Prod.fst).mem_iff (a := path)
    rw [List.map_map] at keys ⊢
    refine keys.trans ?_
    simp only [Semantic.RecordView.pushedScopes, List.mem_map, List.mem_dedup, List.mem_flatMap,
      Function.comp_apply]
    constructor
    · rintro ⟨_, ⟨_, ⟨field, member, scope, inside, rfl⟩, rfl⟩, rfl⟩
      exact ⟨field, member, scope, inside, rfl⟩
    · rintro ⟨field, member, scope, inside, rfl⟩
      exact ⟨_, ⟨_, ⟨field, member, scope, inside, rfl⟩, rfl⟩, rfl⟩
  · intro path structures member
    obtain ⟨⟨other, pushed⟩, held, same⟩ := List.mem_map.mp member
    obtain ⟨rfl, rfl⟩ := Prod.mk.inj same
    obtain ⟨key, _, equal⟩ := List.mem_map.mp (groups.mem_iff.mp held)
    obtain ⟨rfl, rfl⟩ := Prod.mk.inj equal
    rw [Semantic.RecordView.classOf_pushedScopes]
    exact isStructurePerOccurrence_iff _

/-- A repeat inside a repeat: groups of an `EDID` and any number of `DATA`. -/
def nestedRepeat : SchemaNode :=
  .repeat (.plain 1 "outer") 0 none (.sequence (.plain 2 "group")
    [.plainSubrecord 3 "EDID" .EDID, .repeat (.plain 4 "inner") 0 none
      (.plainSubrecord 5 "DATA" .DATA)])

/-- Two groups with one `DATA` each. -/
def twoGroups : Record :=
  .sample .HEDR [0x45, 0x44, 0x49, 0x44, 0, 0, 0x44, 0x41, 0x54, 0x41, 1, 0, 1,
    0x45, 0x44, 0x49, 0x44, 0, 0, 0x44, 0x41, 0x54, 0x41, 1, 0, 2]

/-- Both groups are decoded. -/
theorem twoGroups_decodes :
    ((Semantic.RecordView.sample nestedRepeat twoGroups).fields refuseInflate).isOk = true := by
  decide +kernel

/-- The `DATA` of two groups become one structure. -/
theorem repeatedStructures_merges :
    ∃ fields structures,
      (Semantic.RecordView.sample nestedRepeat twoGroups).fields refuseInflate = .ok fields ∧
      (Semantic.RecordView.sample nestedRepeat twoGroups).repeatedStructures refuseInflate "DATA" =
        .ok structures ∧
      ¬IsStructurePerOccurrence structures
        (outermostOccurrences (repeatsStructure "DATA") fields) := by
  have decoded := eq_ok_of_isOk twoGroups_decodes []
  refine ⟨_, _, decoded, Semantic.RecordView.repeatedStructures_of_fields decoded "DATA", ?_⟩
  intro perm
  have counts := perm.length_eq
  exact absurd counts (by decide +kernel)

/-- The structures of the outer repeat are the two groups. -/
theorem repeatedStructures_iff_groups :
    ∃ fields structures,
      (Semantic.RecordView.sample nestedRepeat twoGroups).fields refuseInflate = .ok fields ∧
      (Semantic.RecordView.sample nestedRepeat twoGroups).repeatedStructures refuseInflate "group" =
        .ok structures ∧
      IsStructurePerOccurrence structures
        (outermostOccurrences (repeatsStructure "group") fields) := by
  have decoded := eq_ok_of_isOk twoGroups_decodes []
  obtain ⟨structures, done, complete⟩ := (repeatedStructures_iff refuseInflate
    (Semantic.RecordView.sample nestedRepeat twoGroups) _ decoded).1 "group"
  exact ⟨_, structures, decoded, done, complete.mpr (by decide +kernel)⟩

end Bethkit
