import Bethkit.Lib.Chunks
import Bethkit.Semantic.Handler
import Bethkit.Semantic.Numerals

/-!
# Wwise GUIDs

A GUID of a sound object is shown in braces, behind the name of the object and before its path where
they are known. It is parsed from the first braces of a text, or from the whole text.
-/

namespace Bethkit

open Lib

/-- A GUID. -/
abbrev Guid : Type := Fixed 16

/-- The GUID of zeros. -/
def Guid.zero : Guid := ⟨List.replicate 16 0, rfl⟩

/-- Wwise object metadata. -/
structure WwiseGuidInfo where
  /-- The Wwise object name. -/
  name : String
  /-- The Wwise object path. -/
  objectPath : String

/-- `WwiseGuidResolver`. -/
abbrev WwiseGuidResolver : Type := Guid → Option WwiseGuidInfo

/-- `wwise_guid_error`. -/
def wwiseGuidError {α : Type} (message : String) : Except SemanticError α :=
  .error (.handler "format.wwise_guid" message)

/-- `format_wwise_guid`. -/
def formatWwiseGuid (guid : Guid) : String :=
  let data1 := u32FromLeBytes (Bytes.slice guid.val 0 4)
  let data2 := u16FromLeBytes (Bytes.slice guid.val 4 6)
  let data3 := u16FromLeBytes (Bytes.slice guid.val 6 8)
  String.ofList ('{' :: (hexUpper 8 data1.toNat ++ '-' :: (hexUpper 4 data2.toNat ++
    '-' :: (hexUpper 4 data3.toNat ++
    '-' :: ((Bytes.slice guid.val 8 10).flatMap (fun byte => hexUpper 2 byte.toNat) ++
    '-' :: ((Bytes.slice guid.val 10 16).flatMap (fun byte => hexUpper 2 byte.toNat) ++ ['}']))))))

/-- `parse_guid_hex_u32`, `parse_guid_hex_u16` and the same for a byte, by the number of values. -/
def parseGuidHex (limit : Nat) (text : String) : Except SemanticError Nat :=
  match fromStrRadix limit 16 text with
  | .ok value => .ok value
  | .error _ => wwiseGuidError "Wwise GUID contains invalid hexadecimal digits"

/-- One byte of the tail from its two digits. -/
def parseGuidByte (chunk : Bytes) : Except SemanticError UInt8 := do
  let text ← match strFromUtf8 chunk with
    | some text => .ok text
    | none => wwiseGuidError "Wwise GUID contains invalid text"
  let value ← parseGuidHex 256 text
  .ok (UInt8.ofNat value)

/-- The GUID in a text without braces. -/
def parseGuidBody (body : String) : Except SemanticError Bytes :=
  match (body.toList.splitOn '-').map String.ofList with
  | [first, second, third, fourth, fifth] =>
    if first.utf8ByteSize ≠ 8 ∨ second.utf8ByteSize ≠ 4 ∨ third.utf8ByteSize ≠ 4 ∨
        fourth.utf8ByteSize ≠ 4 ∨ fifth.utf8ByteSize ≠ 12 then
      wwiseGuidError "Wwise GUID has an invalid shape"
    else do
      let data1 ← parseGuidHex (2 ^ 32) first
      let data2 ← parseGuidHex (2 ^ 16) second
      let data3 ← parseGuidHex (2 ^ 16) third
      let tail ← (asChunks 2 (strAsBytes (fourth ++ fifth))).mapM parseGuidByte
      .ok (u32ToLeBytes (UInt32.ofNat data1) ++ u16ToLeBytes (UInt16.ofNat data2) ++
        u16ToLeBytes (UInt16.ofNat data3) ++ tail)
  | _ => wwiseGuidError "Wwise GUID has an invalid shape"

/-- The first braces of a text with what they enclose, or the whole text if it has none. -/
def canonicalGuidText (value : String) : Except SemanticError String :=
  if '{' ∈ value.toList then
    let remainder := value.toList.dropWhile (· ≠ '{')
    if '}' ∈ remainder then .ok (String.ofList (remainder.takeWhile (· ≠ '}') ++ ['}']))
    else wwiseGuidError "Wwise GUID is missing a closing brace"
  else .ok value

/-- `parse_wwise_guid`. -/
def parseWwiseGuid (value : String) : Except SemanticError Bytes :=
  let value := strTrim value
  if value = "" then .ok (List.replicate 16 0)
  else do
    let canonical ← canonicalGuidText value
    let body := ((strStripPrefix canonical "\x7b").bind (strStripSuffix · "\x7d")).getD canonical
    parseGuidBody body

/-- `truncate_wwise_object_path`. -/
def truncateWwiseObjectPath (value : String) : String :=
  if value.toList.length ≤ 64 then value
  else String.ofList (value.toList.take 61 ++ ['.', '.', '.'])

/-- `wwise_guid_bytes`. -/
def wwiseGuidBytes (value : FieldValue) : Except SemanticError Guid :=
  let exact (bytes : Bytes) : Except SemanticError Guid :=
    if sized : bytes.length = 16 then .ok ⟨bytes, sized⟩
    else wwiseGuidError "Wwise GUID requires exactly 16 bytes"
  match value with
  | .bytes value => exact value
  | .string value => do
    let bytes ← parseWwiseGuid value
    exact bytes
  | _ => wwiseGuidError "Wwise GUID formatting requires bytes or canonical text"

/-- The text of a GUID with what a resolver knows of it. -/
def resolvedGuidText (phase : HandlerPhase) (guid : Guid) (info : WwiseGuidInfo) : String :=
  let canonical := formatWwiseGuid guid
  if phase = .summary ∧ info.name ≠ "" then info.name
  else
    let formatted := if info.name = "" then canonical else info.name ++ " " ++ canonical
    if info.objectPath = "" then formatted
    else
      let objectPath := if phase = .editValue then truncateWwiseObjectPath info.objectPath
        else info.objectPath
      formatted ++ " \"" ++ objectPath ++ "\""

/-- The text of a GUID in a phase, if there is one. -/
def wwiseGuidText (resolver : Option WwiseGuidResolver) (phase : HandlerPhase) (guid : Guid) :
    Option String :=
  match phase with
  | .sortKey | .nativeValue => some (formatWwiseGuid guid)
  | .display | .summary | .editValue =>
    match resolver with
    | none => some (formatWwiseGuid guid)
    | some resolve =>
      if guid = Guid.zero then some ""
      else
        match resolve guid with
        | none => some (formatWwiseGuid guid)
        | some info => some (resolvedGuidText phase guid info)
  | _ => none

namespace WwiseGuidFormatter

/-- The handler. -/
def invoke (resolver : Option WwiseGuidResolver) (invocation : HandlerInvocation) :
    Except SemanticError HandlerOutput :=
  if invocation.phase = .parseEditValue then
    match invocation.value with
    | some (.string value) => do
      let bytes ← parseWwiseGuid value
      .ok (.value (.bytes bytes))
    | _ => wwiseGuidError "Wwise GUID edit parsing requires a string value"
  else
    match invocation.value with
    | none => wwiseGuidError "Wwise GUID formatting requires a value"
    | some value => do
      let guid ← wwiseGuidBytes value
      match wwiseGuidText resolver invocation.phase guid with
      | some text => .ok (.text text)
      | none => .ok .none

end WwiseGuidFormatter

end Bethkit
