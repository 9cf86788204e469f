import Bethkit.Semantic.Editor

/-!
# Small packages

Builders for packages, contexts, records and editors of a few nodes, on which statements about the
semantic layer are evaluated.
-/

namespace Bethkit

open Lib

/-- A node without a condition that carries its path as its name. -/
def NodeInfo.plain (id : UInt32) (path : String) : NodeInfo where
  id := id
  path := path
  name := path
  required := false
  conflictPriority := .normal
  condition := none

/-- A subrecord node with a payload of bytes. -/
def SchemaNode.plainSubrecord (id : UInt32) (path : String) (signature : Signature) : SchemaNode :=
  .subrecord (.plain id path) signature
    (.primitive (.plain (id + 100) (path ++ "/payload")) (.bytes none))

/-- A codec that reads every byte as the character of its code. -/
def TextEncoding.byteCodes (name : String) : TextEncoding where
  name := name
  decode bytes := (String.ofList (bytes.map fun byte => Char.ofNat byte.toNat), false)
  encode text :=
    (text.toList.map fun char => UInt8.ofNat char.toNat, text.toList.any (256 ≤ ·.toNat))

/-- Codecs that know no label. -/
def TextCodecs.byteCodes : TextCodecs where
  forLabel _ := none
  windows1252 := .byteCodes "windows-1252"

/-- A context over a package, with handlers and no custom decoders. -/
def SemanticContext.sample (records : List SchemaRecord) (bindings : List CallbackBinding)
    (handlers : List SemanticHandler) : SemanticContext where
  registry := ⟨{
    game := .skyrimSe
    records
    callbackBindings := bindings
    payloadSha256 := ⟨List.replicate 32 0, rfl⟩ }⟩
  decoders := ⟨∅⟩
  handlers := ⟨handlers.foldl (fun handlers handler => handlers.insert handler.id handler) ∅⟩
  inlineStringEncoding := none
  codecs := .byteCodes

/-- A record snapshot with subrecords and no flags. -/
def WritableRecord.sample (signature : Signature) (subrecords : List WritableSubRecord) :
    WritableRecord where
  signature
  flags := .empty
  formId := ⟨1⟩
  formVersion := 44
  subrecords

/-- An editor of a record that was not decoded. -/
def RecordEditor.sample (context : SemanticContext) (record : WritableRecord) : RecordEditor where
  context
  record
  localized := false
  inlineStringCodecs := record.subrecords.map fun _ => []
  afterLoadMigrations := 0
  decodedValues := ∅

/-- A parsed record with a data block that is not compressed. -/
def Record.sample (signature : Signature) (data : Bytes) : Record where
  header := {
    signature
    dataSize := UInt32.ofNat data.length
    flags := .empty
    formId := ⟨1⟩
    versionControl := 0
    formVersion := 44
    unknown := 0 }
  sourceRange := none
  data := .raw data
  parsed := none

/-- A view of a parsed record under a package that holds only its schema. -/
def Semantic.RecordView.sample (root : SchemaNode) (record : Record) : Semantic.RecordView where
  context := .sample [⟨record.header.signature, "sample", root⟩] [] []
  record
  schema := ⟨record.header.signature, "sample", root⟩
  localized := false
  inlineCodecs := none
  retention := .full

/-- A digest of nothing. -/
def Sha256.constant : Sha256 := fun _ => ⟨List.replicate 32 0, rfl⟩

end Bethkit
