import Bethkit.Lib.Filling
import Bethkit.Verif.MissingField

/-!
# The field values of a match

What the grammar records of a placed subrecord is a list of paths with values, read at fixed
offsets. The values of a state are written one subrecord after the other, so that the newest
subrecord that contains a path decides.
-/

namespace Bethkit

open Lib

/-- The entry of a numeric node at an offset. -/
def numericEntry (payload : Bytes) (node : SchemaNode) (offset : Nat) :
    Except SemanticError (List (String × Int64)) :=
  (numericPayloadValue node payload offset).map fun value =>
    (value.map fun value => (node.path, value)).toList

mutual

/-- The entries that the grammar records of a payload node. -/
def numericEntries (payload : Bytes) :
    SchemaNode → Nat → Except SemanticError (Option Nat × List (String × Int64))
  | .struct _ fields, offset | .optionalStruct _ fields _, offset => do
    let (stop, entries) ← fieldEntries payload fields offset
    .ok (stop.map (· - offset), entries)
  | node, offset => do
    let entries ← numericEntry payload node offset
    .ok (match node with
      | .primitive _ primitive => primitiveFixedSize primitive
      | _ => none, entries)

/-- The entries that the grammar records of consecutive fields. -/
def fieldEntries (payload : Bytes) :
    List SchemaNode → Nat → Except SemanticError (Option Nat × List (String × Int64))
  | [], cursor => .ok (some cursor, [])
  | field :: fields, cursor => do
    let (consumed, entries) ← numericEntries payload field cursor
    match consumed with
    | none => .ok (none, entries)
    | some consumed => do
      let (stop, more) ← fieldEntries payload fields (cursor + consumed)
      .ok (stop, entries ++ more)

end

/-- An optional value is one insertion or none. -/
theorem overwrite_toList (path : String) (value : Option Int64) (values : FieldValues) :
    overwrite (value.map fun value => (path, value)).toList values =
      match value with
      | some value => values.insert path value
      | none => values := by
  cases value <;> rfl

/-- A numeric node is one insertion or none. -/
theorem collectNumericPayloadFields_leaf {payload : Bytes} {node : SchemaNode} {offset : Nat}
    {values : FieldValues} {size : Option Nat} :
    (do
      let value ← numericPayloadValue node payload offset
      let values := match value with
        | some value => values.insert node.path value
        | none => values
      Except.ok (size, values)) =
    (numericEntry payload node offset >>= fun entries => .ok (size, entries)).map
      (Prod.map id (overwrite · values)) := by
  rw [numericEntry]
  cases numericPayloadValue node payload offset with
  | error error => rfl
  | ok value => cases value <;> rfl

mutual

/-- The grammar writes the entries of a payload node over the values before. -/
theorem collectNumericPayloadFields_eq (payload : Bytes) (node : SchemaNode) (offset : Nat)
    (values : FieldValues) :
    collectNumericPayloadFields payload node offset values =
      (numericEntries payload node offset).map (Prod.map id (overwrite · values)) := by
  match node with
  | .struct info fields | .optionalStruct info fields optionalFrom =>
    rw [collectNumericPayloadFields, numericEntries]
    show (do
      let (stop, values) ← collectNumericFields payload fields offset values
      Except.ok (stop.map (· - offset), values)) = _
    rw [collectNumericFields_eq payload fields offset values]
    exact map_bind_map fun _ _ => rfl
  | .primitive _ _ | .sequence _ _ | .unordered _ _ | .choice _ _ | .selectedChoice _ _ _
  | .repeat _ _ _ _ | .subrecord _ _ _ | .array _ _ _ | .union _ _ _ | .custom _ _ _
  | .compressed _ _ _ | .terminated _ _ _ | .reference _ _ =>
    rw [collectNumericPayloadFields, numericEntries]
    · exact collectNumericPayloadFields_leaf
    all_goals simp
termination_by structural node

/-- The grammar writes the entries of consecutive fields over the values before. -/
theorem collectNumericFields_eq (payload : Bytes) (fields : List SchemaNode) (cursor : Nat)
    (values : FieldValues) :
    collectNumericFields payload fields cursor values =
      (fieldEntries payload fields cursor).map (Prod.map id (overwrite · values)) := by
  match fields with
  | [] => rfl
  | field :: fields =>
    rw [collectNumericFields, fieldEntries, collectNumericPayloadFields_eq payload field]
    refine map_bind_map fun first _ => ?_
    obtain ⟨consumed, entries⟩ := first
    cases consumed with
    | none => rfl
    | some consumed =>
      show collectNumericFields payload fields (cursor + consumed) (overwrite entries values) = _
      rw [collectNumericFields_eq payload fields]
      cases rest : fieldEntries payload fields (cursor + consumed) with
      | error error => simp only [rest]; rfl
      | ok result =>
        simp only [rest, ok_bind]
        exact congrArg (fun values => Except.ok (result.1, values))
          (overwrite_append entries result.2 values).symm
termination_by structural fields

end

/-- A numeric node records its own path. -/
theorem numericEntry_paths {payload : Bytes} {node : SchemaNode} {offset : Nat}
    {entries : List (String × Int64)} (collected : numericEntry payload node offset = .ok entries) :
    ∀ pair ∈ entries, pair.1 = node.path := by
  rw [numericEntry, map_eq_ok] at collected
  obtain ⟨value, _, rfl⟩ := collected
  intro pair member
  cases value with
  | none => cases member
  | some value => rw [List.mem_singleton.mp member]

/-- Every tree contains the path of its root. -/
theorem SchemaNode.path_mem_fieldPaths (node : SchemaNode) : node.path ∈ node.fieldPaths := by
  cases node <;> exact List.mem_cons_self

mutual

/-- The grammar records paths of the payload node only. -/
theorem numericEntries_paths (payload : Bytes) (node : SchemaNode) {offset : Nat}
    {size : Option Nat} {entries : List (String × Int64)}
    (collected : numericEntries payload node offset = .ok (size, entries)) :
    ∀ pair ∈ entries, pair.1 ∈ node.fieldPaths := by
  match node with
  | .struct info fields | .optionalStruct info fields optionalFrom =>
    rw [numericEntries, bind_eq_ok] at collected
    obtain ⟨⟨stop, found⟩, inner, same⟩ := collected
    obtain ⟨_, rfl⟩ := Prod.mk.inj (Except.ok.inj same)
    exact fun pair member =>
      List.mem_cons_of_mem _ (fieldEntries_paths payload fields inner pair member)
  | .primitive _ _ | .sequence _ _ | .unordered _ _ | .choice _ _ | .selectedChoice _ _ _
  | .repeat _ _ _ _ | .subrecord _ _ _ | .array _ _ _ | .union _ _ _ | .custom _ _ _
  | .compressed _ _ _ | .terminated _ _ _ | .reference _ _ =>
    rw [numericEntries, bind_eq_ok] at collected
    · obtain ⟨found, own, same⟩ := collected
      obtain ⟨_, rfl⟩ := Prod.mk.inj (Except.ok.inj same)
      exact fun pair member =>
        numericEntry_paths own pair member ▸ SchemaNode.path_mem_fieldPaths _
    all_goals simp
termination_by structural node

/-- The grammar records paths of the fields only. -/
theorem fieldEntries_paths (payload : Bytes) (fields : List SchemaNode) {cursor : Nat}
    {stop : Option Nat} {entries : List (String × Int64)}
    (collected : fieldEntries payload fields cursor = .ok (stop, entries)) :
    ∀ pair ∈ entries, pair.1 ∈ SchemaNode.allFieldPaths fields := by
  match fields with
  | [] =>
    obtain ⟨_, rfl⟩ := Prod.mk.inj (Except.ok.inj collected)
    exact fun _ member => nomatch member
  | field :: fields =>
    rw [fieldEntries, bind_eq_ok] at collected
    obtain ⟨⟨consumed, first⟩, head, collected⟩ := collected
    have here := numericEntries_paths payload field head
    cases consumed with
    | none =>
      obtain ⟨_, rfl⟩ := Prod.mk.inj (Except.ok.inj collected)
      exact fun pair member => List.mem_append_left _ (here pair member)
    | some consumed =>
      obtain ⟨⟨_, more⟩, tail, same⟩ := bind_eq_ok.mp collected
      obtain ⟨_, rfl⟩ := Prod.mk.inj (Except.ok.inj same)
      intro pair member
      rcases List.mem_append.mp member with before | after
      · exact List.mem_append_left _ (here pair before)
      · exact List.mem_append_right _ (fieldEntries_paths payload fields tail pair after)
termination_by structural fields

end

end Bethkit
