import Bethkit.Schema.Validation

/-!
# Schema packages

Loading of one `.bkschema` package: header, digest, payload and validation. SHA-256 and the CBOR
decoder are third-party code and enter as parameters.
-/

namespace Bethkit

open Lib

/-- Release validation state of a package. -/
inductive ValidationStatus where
  /-- Generated but not validated against a corpus. -/
  | candidate
  /-- Passed structural and corpus validation. -/
  | validated
  /-- Passed all release gates. -/
  | approved
  /-- Must not be used for new builds. -/
  | deprecated
  /-- Failed validation. -/
  | rejected
deriving DecidableEq

/-- Provenance and compatibility metadata, as far as loading reads it. -/
structure SchemaManifest where
  /-- Schema format version encoded in this package. -/
  formatVersion : UInt16
  /-- Game mode represented by this package. -/
  game : SchemaGame
  /-- Release validation state. -/
  validationStatus : ValidationStatus
  /-- Byte coverage measured by the release pipeline. -/
  byteCoverage : Float
  /-- Total number of callbacks reported by the exporter. -/
  callbacksTotal : UInt64
  /-- Number of callbacks classified by conversion rules. -/
  callbacksClassified : UInt64
  /-- Custom decoders required by this package. -/
  requiredDecoders : List DecoderRequirement
  /-- Semantic callback handlers required by this package. -/
  requiredHandlers : List HandlerRequirement

/-- The encoded payload of a package. -/
structure PackagePayload where
  /-- Provenance and compatibility metadata. -/
  manifest : SchemaManifest
  /-- Record schemas. -/
  records : List SchemaRecord
  /-- Callback bindings. -/
  callbackBindings : List CallbackBinding
  /-- The condition-function table. -/
  conditionFunctionTable : Option ConditionFunctionTable

/-- Errors of loading a package. -/
inductive PackageError where
  /-- The magic header is invalid. -/
  | invalidMagic
  /-- The package format is not supported by this runtime. -/
  | unsupportedVersion (version : UInt16)
  /-- The package digest does not match its payload. -/
  | hashMismatch
  /-- CBOR input could not be decoded. -/
  | cborDecode (message : String)
  /-- A limit is exceeded or the graph is invalid. -/
  | schema (error : SchemaError)
deriving DecidableEq

/-- Magic bytes at the beginning of one `.bkschema` package. -/
def packageMagic : Bytes := [0x42, 0x4B, 0x53, 0x43]

/-- Current binary package format version. -/
def packageFormatVersion : UInt16 := 3

/-- Length of the header of a package. -/
def packageHeaderLength : Nat := 48

namespace SchemaPackage

/-- Check record schemas from one on, with the signatures of those before it. -/
def validateRecords (limits : SchemaLoadLimits) :
    List SchemaRecord → List Signature → NodeScan → Except SchemaError Unit
  | [], _, _ => .ok ()
  | record :: records, signatures, scan =>
    let codes := record.signature.bytes.val.map UInt8.toNat
    if signatures.contains record.signature then
      invalidGraph s!"duplicate record signature {codes}"
    else do
      validateString limits.maximumStringBytes record.name
      let scan ← validateNode limits record.root 1 scan
      record.root.validateExpressionFieldOrder limits.maximumStringBytes []
      validateRecords limits records (record.signature :: signatures) scan

/-- Check the required decoders. -/
def validateRequiredDecoders (limits : SchemaLoadLimits) :
    List DecoderRequirement → Except SchemaError Unit
  | [] => .ok ()
  | decoder :: decoders =>
    if trimIsEmpty decoder.id then invalidGraph "decoder identifier must not be empty"
    else do
      validateString limits.maximumStringBytes decoder.id
      validateRequiredDecoders limits decoders

/-- Check the required handlers. -/
def validateRequiredHandlers (limits : SchemaLoadLimits) :
    List HandlerRequirement → Except SchemaError Unit
  | [] => .ok ()
  | handler :: handlers =>
    if trimIsEmpty handler.id || handler.minimumVersion = 0 then
      invalidGraph "handler identifier and version must be valid"
    else do
      validateString limits.maximumStringBytes handler.id
      validateRequiredHandlers limits handlers

/-- Check the payload of a package. -/
def validate (payload : PackagePayload) (limits : SchemaLoadLimits) : Except PackageError Unit :=
  let manifest := payload.manifest
  if manifest.formatVersion ≠ packageFormatVersion then
    .error (.unsupportedVersion manifest.formatVersion)
  else if manifest.validationStatus = .approved ∧ manifest.byteCoverage < 1.0 then
    (invalidGraph "approved packages require complete byte coverage").mapError .schema
  else if manifest.callbacksClassified ≠ manifest.callbacksTotal then
    (invalidGraph "all exported callbacks must be classified").mapError .schema
  else if payload.callbackBindings.length ≠ manifest.callbacksTotal.toNat then
    (invalidGraph (s!"package has {payload.callbackBindings.length} callback bindings but " ++
      s!"manifest declares {manifest.callbacksTotal.toNat}")).mapError .schema
  else if limits.maximumRecords < payload.records.length then
    (limitExceeded (s!"package has {payload.records.length} records, limit is " ++
      s!"{limits.maximumRecords}")).mapError .schema
  else Except.mapError .schema do
    validateConditionFunctionTable limits payload.conditionFunctionTable
    validateRecords limits payload.records [] .empty
    validateRequiredDecoders limits manifest.requiredDecoders
    validateRequiredHandlers limits manifest.requiredHandlers
    validateCallbackBindings manifest.requiredDecoders manifest.requiredHandlers limits
      payload.callbackBindings []
    validateAllSelectorBindings payload.callbackBindings (payload.records.map (·.root))

/-- Decode a package with caller-provided safety limits. -/
def fromBytesWithLimits (sha256 : Bytes → Fixed 32) (fromCbor : Bytes → Except String PackagePayload)
    (bytes : Bytes) (limits : SchemaLoadLimits) : Except PackageError SchemaPackage :=
  if limits.maximumPackageBytes < bytes.length then
    (limitExceeded (s!"package is {bytes.length} bytes, limit is " ++
      s!"{limits.maximumPackageBytes}")).mapError .schema
  else if bytes.length < packageHeaderLength ∨ bytes.take 4 ≠ packageMagic then
    .error .invalidMagic
  else
    let version := UInt16.ofNat (leValue (bytes.slice 4 6))
    let payloadLength := leValue (bytes.slice 8 16)
    if version ≠ packageFormatVersion then .error (.unsupportedVersion version)
    else if packageHeaderLength + payloadLength ≠ bytes.length then
      (invalidGraph (s!"header declares {payloadLength} payload bytes, actual length is " ++
        s!"{bytes.length - packageHeaderLength}")).mapError .schema
    else
      let payloadBytes := bytes.drop packageHeaderLength
      let digest := sha256 payloadBytes
      if bytes.slice 16 48 ≠ digest.val then .error .hashMismatch
      else
        match fromCbor payloadBytes with
        | .error message => .error (.cborDecode message)
        | .ok payload => do
          validate payload limits
          .ok {
            game := payload.manifest.game
            records := payload.records
            callbackBindings := payload.callbackBindings
            payloadSha256 := digest }

/-- Decode a package with default safety limits. -/
def fromBytes (sha256 : Bytes → Fixed 32) (fromCbor : Bytes → Except String PackagePayload)
    (bytes : Bytes) : Except PackageError SchemaPackage :=
  fromBytesWithLimits sha256 fromCbor bytes .default

end SchemaPackage

end Bethkit
