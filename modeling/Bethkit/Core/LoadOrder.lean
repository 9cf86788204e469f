import Bethkit.Core.Plugin

/-!
# The load order

Plugins are registered in order. A regular plugin gets the next file index, a light one the next
slot of the shared index `0xFE`. A raw FormID of a plugin is resolved to the plugin that owns it
and the object ID there: the index counts the masters of the plugin, except for `0xFE`, which
always names a slot of the load order.

A hash map is an association list. The Unicode lower-case mapping of strings is a parameter.
-/

namespace Bethkit

/-- `str::to_lowercase`. -/
abbrev Lowercase : Type := String → String

/-- A FormID that does not depend on the load order. -/
structure GlobalFormId where
  /-- Filename of the plugin that owns the record, in lower case. -/
  pluginName : String
  /-- Object ID within that plugin. -/
  objectId : UInt32
deriving DecidableEq

/-- A single entry of the load order. -/
structure LoadOrderEntry where
  /-- Plugin filename in lower case. -/
  name : String
  /-- Load-order index. -/
  index : UInt8
  /-- The functional type of the plugin. -/
  kind : PluginKind
  /-- The slot of a light plugin. -/
  lightSlot : Option UInt16
deriving DecidableEq

/-- Plugin filenames with their load-order indices. -/
structure LoadOrder where
  /-- The plugins in the order of their registration. -/
  entries : List LoadOrderEntry
  /-- The position of a plugin by its name. -/
  byName : AList fun _ : String => Nat
  /-- The next file index of a regular plugin. -/
  regularIndex : UInt8
  /-- The next slot of a light plugin. -/
  lightSlotCounter : UInt16
  /-- The position of a light plugin by its slot. -/
  byLightSlot : AList fun _ : UInt16 => Nat

namespace LoadOrder

/-- An empty load order. -/
def new : LoadOrder := ⟨[], ∅, 0, 0, ∅⟩

/-- Append a plugin; the entry that the source returns is the last one. -/
def push (toLowercase : Lowercase) (order : LoadOrder) (name : String) (kind : PluginKind) :
    Except CoreError LoadOrder :=
  let canonical := toLowercase name
  let entryIndex := order.entries.length
  if kind = .light then
    if 0xFFF < order.lightSlotCounter then .error .lightSlotOverflow
    else
      let slot := order.lightSlotCounter
      .ok { order with
        entries := order.entries ++ [⟨canonical, 0xFE, kind, some slot⟩]
        byName := order.byName.insert canonical entryIndex
        lightSlotCounter := slot + 1
        byLightSlot := order.byLightSlot.insert slot entryIndex }
  else
    if 0xFE ≤ order.regularIndex then .error .loadOrderIndexFull
    else
      let index := order.regularIndex
      .ok { order with
        entries := order.entries ++ [⟨canonical, index, kind, none⟩]
        byName := order.byName.insert canonical entryIndex
        regularIndex := index + 1 }

/-- Resolve a raw FormID of a plugin with the given masters. A slot always names an entry
(`LoadOrder.Registers.slots`), so looking up the entry does not fail where the source indexes. -/
def resolve (toLowercase : Lowercase) (order : LoadOrder) (formId : FormId)
    (sourcePlugin : String) (masters : List String) : Option GlobalFormId :=
  if formId.fileIndex = 0xFE then do
    let entryIndex ← order.byLightSlot.lookup formId.eslSlot
    let owner ← order.entries[entryIndex]?
    pure ⟨owner.name, formId.eslObject.toUInt32⟩
  else
    let fileIndex := formId.fileIndex.toNat
    if inside : fileIndex < masters.length then
      some ⟨toLowercase masters[fileIndex], formId.objectId⟩
    else if fileIndex = masters.length then some ⟨toLowercase sourcePlugin, formId.objectId⟩
    else none

end LoadOrder

end Bethkit
