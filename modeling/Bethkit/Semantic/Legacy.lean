import Bethkit.Semantic.Primitive

/-!
# Payload representations of existing mods and decode retention

Narrow, lossless readers for representations that existing mods keep although the schema no
longer declares them, and the analysis that lets a decode-only check discard container values.
-/

namespace Bethkit

open Lib

/-- A signature of four bytes. -/
def Signature.ofBytes (first second third fourth : UInt8) : Signature :=
  ⟨⟨[first, second, third, fourth], rfl⟩⟩

/-- `str::strip_prefix`. -/
def strStripPrefix (text head : String) : Option String :=
  if head.toList.isPrefixOf text.toList then
    some (String.ofList (text.toList.drop head.toList.length))
  else none

/-- `str::strip_suffix`. -/
def strStripSuffix (text tail : String) : Option String :=
  if tail.toList.isSuffixOf text.toList then
    some (String.ofList (text.toList.take (text.toList.length - tail.toList.length)))
  else none

/-- `path_is_within`: the path itself or a path below it. -/
def pathIsWithin (path parent : String) : Bool :=
  path = parent || (strStripPrefix path parent).any (·.toList.head? = some '/')

/-- A string with a two-byte length prefix directly before its text. -/
def isShortPrefixedString : SchemaNode → Bool
  | .primitive _ (.string string) => string.lengthPrefix = some ⟨2, 2⟩
  | _ => false

/-- The flag-derived upper bound for an INFO fragment tail: complete fragments may end at the
payload boundary before the flag limit. -/
def infoFragmentLimit (node : SchemaNode) : Bool :=
  match node with
  | .array info (.struct _ [flags, script, fragment]) (.expression (.bitCount (.readField path))) =>
    (strStripPrefix info.path "INFO/").isSome &&
      (strStripSuffix info.path "/3:Script Fragments/3:Fragments").isSome &&
      strStripSuffix path "/1:Flags" = strStripSuffix info.path "/3:Fragments" &&
      (match flags with
        | .primitive _ (.integer integer) => integer.width = 1
        | _ => false) &&
      isShortPrefixedString script && isShortPrefixedString fragment
  | _ => false

/-- An explicitly ignored legacy icon slot, whose empty payload represents absence. -/
def emptyUnusedFormId (record subrecord : Signature) (node : SchemaNode) : Bool :=
  record = .ofBytes 0x4D 0x45 0x53 0x47 && subrecord = .ofBytes 0x49 0x4E 0x41 0x4D &&
    node.info.conflictPriority = .ignore &&
    match node with
    | .primitive _ (.formId targets) => targets.all (· = .ofBytes 0x4E 0x55 0x4C 0x4C)
    | _ => false

/-- One optional zero byte after a complete fixed-width string. -/
def fixedStringTerminator (node : SchemaNode) (data : Bytes) : Bool :=
  match node with
  | .primitive _ (.string string) =>
    !string.localized && !string.zeroTerminated && string.lengthPrefix.isNone &&
      string.trailingTerminator.isNone && string.fixedLength.any (·.toNat + 1 = data.length) &&
      data.getLast? = some 0
  | _ => false

/-- The legacy critical-data layout: three padding bytes before the effect and none at the
end. -/
def weaponCriticalData (record subrecord : Signature) (node : SchemaNode) (length : Nat) :
    Option SchemaNode :=
  if record = .ofBytes 0x57 0x45 0x41 0x50 ∧ subrecord = .ofBytes 0x43 0x52 0x44 0x54 ∧
      length = 16 then
    match node with
    | .struct info [damage@(.primitive _ (.integer damageType)),
        unused@(.primitive _ (.bytes (some 2))), multiplier@(.primitive _ (.float 4 _ _ _)),
        flags@(.primitive _ flagsType), .primitive padding (.bytes (some 7)),
        effect@(.primitive _ (.formId _)), .primitive _ (.bytes (some 4))] =>
      let flagsWidth := match flagsType with
        | .integer integer | .flags integer _ => some integer.width
        | _ => none
      if damageType.width = 2 ∧ flagsWidth = some 1 then
        some (.struct info [damage, unused, multiplier, flags,
          .primitive padding (.bytes (some 3)), effect])
      else none
    | _ => none
  else none

/-- Whether a decoder's container values or numeric selector state can be observed. -/
inductive DecodeRetention where
  /-- Ordinary views and payloads with callbacks retain their complete trees. -/
  | full
  /-- Decode-only payloads may release unobserved values; expressions may still observe numbers. -/
  | discard (trackNumeric : Bool)
deriving DecidableEq

/-- A sum or product that fits a machine word. -/
def usizeChecked (value : Nat) : Option Nat := if value < 2 ^ 64 then some value else none

mutual

/-- The size of a node of which every byte pattern is valid. -/
def unconstrainedSize : SchemaNode → Nat → Option Nat
  | .primitive info (.integer integer), depth =>
    if info.condition.isSome ∨ 128 < depth then none
    else if integer.width = 1 ∨ integer.width = 2 ∨ integer.width = 4 ∨ integer.width = 8 then
      some integer.width.toNat
    else none
  | .primitive info (.bytes (some length)), depth =>
    if info.condition.isSome ∨ 128 < depth then none else some length.toNat
  | .struct info fields, depth =>
    if info.condition.isSome ∨ 128 < depth then none else unconstrainedSizes fields (depth + 1) 0
  | .array info element (.fixed count), depth =>
    if info.condition.isSome ∨ 128 < depth then none
    else do
      let size ← unconstrainedSize element (depth + 1)
      usizeChecked (size * count.toNat)
  | _, _ => none

/-- The size of consecutive fields. -/
def unconstrainedSizes : List SchemaNode → Nat → Nat → Option Nat
  | [], _, size => some size
  | field :: fields, depth, size => do
    let fieldSize ← unconstrainedSize field depth
    let size ← usizeChecked (size + fieldSize)
    unconstrainedSizes fields depth size

end

mutual

/-- Whether no value of a payload can be observed, and then whether its numbers can. -/
def analyze (registry : SchemaRegistry) : SchemaNode → Nat → Option Bool
  | node, depth =>
    if 128 < depth ∨ (registry.callbacksAt node.path).any fun binding =>
        binding.callbackId ∈ ["float.normalizer", "array.should_include"] then none
    else
      let numeric := node.condition.isSome
      match node with
      | .primitive _ _ => some numeric
      | .struct _ fields | .optionalStruct _ fields _ => analyzeAll registry fields (depth + 1) numeric
      | .array _ _ (.callback _) => none
      | .array _ element (.expression _) => (analyze registry element (depth + 1)).map fun _ => true
      | .array _ element _ => (analyze registry element (depth + 1)).map (numeric || ·)
      | .union _ (.callback _) _ => none
      | .union _ (.expression _) variants => analyzeAll registry variants (depth + 1) true
      | .terminated _ _ child => (analyze registry child (depth + 1)).map (numeric || ·)
      | _ => none

/-- The analysis of several children. -/
def analyzeAll (registry : SchemaRegistry) : List SchemaNode → Nat → Bool → Option Bool
  | [], _, numeric => some numeric
  | child :: children, depth, numeric => do
    let observed ← analyze registry child depth
    analyzeAll registry children depth (numeric || observed)

end

namespace DecodeRetention

/-- The retention that suffices for a payload. -/
def forPayload (registry : SchemaRegistry) (node : SchemaNode) : DecodeRetention :=
  match analyze registry node 0 with
  | some trackNumeric => discard trackNumeric
  | none => full

/-- Container values can be observed by the caller or a callback. -/
def materializes : DecodeRetention → Bool
  | full => true
  | discard _ => false

/-- Numeric values can be observed by expressions. -/
def tracksNumeric : DecodeRetention → Bool
  | full => true
  | discard trackNumeric => trackNumeric

/-- The size of a complete array whose every byte pattern is valid and unobserved. -/
def arrayBytes (retention : DecodeRetention) (element : SchemaNode) (count : Option Nat)
    (available : Nat) : Option Nat :=
  if retention.materializes || retention.tracksNumeric then none
  else do
    let size ← unconstrainedSize element 0
    let count ← match count with
      | some count => some count
      | none => if size ≠ 0 ∧ available % size = 0 then some (available / size) else none
    let consumed ← usizeChecked (size * count)
    if consumed ≤ available then some consumed else none

end DecodeRetention

end Bethkit
