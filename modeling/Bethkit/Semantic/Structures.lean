import Bethkit.Lib.Grouping
import Bethkit.Semantic.View

/-!
# Repeated structures of a record

The decoded fields of a record, grouped by the occurrences of a repeated schema node. The source
groups in ordered maps whose keys are the occurrence counters of the repeat scopes.
-/

namespace Bethkit

open Lib

/-- A top-level field as the member of a structure. -/
def namedFromField (field : Field) : NamedValue :=
  .mk field.nodeId field.path none field.name field.span field.value

/-- Whether a scope repeats the structure at a path, or the structure whose payload is there. -/
def repeatsStructure (path : String) (scope : RepeatScope) : Bool :=
  scope.path = path || strStripSuffix path "/payload" = some scope.path

namespace Semantic.RecordView

/-- The fields of a record beside the repeat stacks of its subrecords. -/
def fieldsWithScopes (inflate : Inflate) (view : Semantic.RecordView) :
    Except SemanticError (List (Field × List RepeatScope)) := do
  let subrecords ← (view.record.subrecords inflate).mapError SemanticError.core
  let grammar ← interpret view.schema.root view.record.header.signature
    view.record.header.formVersion subrecords
  let fields ← view.fields inflate
  .ok (fields.zipIdx.filterMap fun (field, index) =>
    grammar.repeatScopes[index]?.map fun scopes => (field, scopes))

/-- Each occurrence of a repeated structural schema node, as the structure of the subrecords
assigned to it. -/
def repeatedStructures (inflate : Inflate) (view : Semantic.RecordView) (path : String) :
    Except SemanticError (List FieldValue) := do
  let entries ← view.fieldsWithScopes inflate
  let occurrences := gather (entries.filterMap fun (field, scopes) =>
    (scopes.find? (repeatsStructure path)).map fun scope =>
      (scope.occurrence, namedFromField field))
  .ok (occurrences.toList.map fun (_, fields) => .struct fields)

/-- The array of the occurrences of one repeated path. -/
def scopeArray (path : String) (pushed : List (Nat × NamedValue)) : NamedValue :=
  .mk 0xFFFFFFFF path none "Repeated structural scope" ⟨0, 0⟩
    (.array ((gather pushed).toList.map fun (_, fields) => .struct fields))

/-- The structure over which callbacks run: an array for every repeated path and then every
field. -/
def structuralCallbackScope (inflate : Inflate) (view : Semantic.RecordView) :
    Except SemanticError FieldValue := do
  let entries ← view.fieldsWithScopes inflate
  let fields ← view.fields inflate
  let repeated := gather (entries.flatMap fun (field, scopes) =>
    scopes.map fun scope => (scope.path, scope.occurrence, namedFromField field))
  .ok (.struct ((repeated.toList.map fun (path, pushed) => scopeArray path pushed) ++
    fields.map namedFromField))

end Semantic.RecordView

end Bethkit
