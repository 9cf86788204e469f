import Bethkit.Schema.Package

/-!
# Catalogs of schema packages

The encoded form of a package, the bundle that packs the packages of several games behind their
lengths, and the catalog that is loaded from it. A package is kept here with the manifest and the
condition-function table that its encoding needs.
-/

namespace Bethkit

open Lib

/-- SHA-256 and the CBOR codec, which are third-party code. -/
structure PackageCodec where
  /-- `Sha256::digest`. -/
  sha256 : Bytes → Fixed 32
  /-- `ciborium::ser::into_writer`. -/
  toCbor : PackagePayload → Except String Bytes
  /-- `ciborium::de::from_reader`. -/
  fromCbor : Bytes → Except String PackagePayload

/-- Errors of encoding packages and of catalogs. -/
inductive CatalogError where
  /-- An error of validating or loading a package. -/
  | package (error : PackageError)
  /-- CBOR output could not be encoded. -/
  | cborEncode (message : String)
  /-- The catalog has no package for a game. -/
  | missingGame (slug : String)
deriving DecidableEq

/-- A limit of a bundle that is exceeded. -/
def catalogLimit {α : Type} (message : String) : Except CatalogError α :=
  .error (.package (.schema (.limitExceeded message)))

/-- A bundle or a catalog that is invalid. -/
def catalogGraph {α : Type} (message : String) : Except CatalogError α :=
  .error (.package (.schema (.invalidGraph message)))

/-- `SchemaGame::slug`. -/
def SchemaGame.slug : SchemaGame → String
  | .skyrimLe => "skyrim_le"
  | .skyrimSe => "skyrim_se"
  | .skyrimVr => "skyrim_vr"
  | .fallout3 => "fallout_3"
  | .falloutNv => "fallout_nv"
  | .fallout4 => "fallout_4"
  | .fallout4Vr => "fallout_4_vr"
  | .fallout76 => "fallout_76"
  | .oblivion => "oblivion"
  | .morrowind => "morrowind"
  | .starfield => "starfield"

/-- The position of a game in the derived order. -/
def SchemaGame.rank : SchemaGame → Nat
  | .skyrimLe => 0
  | .skyrimSe => 1
  | .skyrimVr => 2
  | .fallout3 => 3
  | .falloutNv => 4
  | .fallout4 => 5
  | .fallout4Vr => 6
  | .fallout76 => 7
  | .oblivion => 8
  | .morrowind => 9
  | .starfield => 10

/-- The derived order of games. -/
instance : Ord SchemaGame where
  compare := compareOn SchemaGame.rank

instance : Std.TransOrd SchemaGame := inferInstanceAs (Std.TransCmp (compareOn SchemaGame.rank))

/-- Games of one rank are one game. -/
theorem SchemaGame.rank_injective : Function.Injective SchemaGame.rank := by
  intro game other same
  cases game <;> cases other <;> first | rfl | exact absurd same (by decide)

instance : Std.LawfulEqOrd SchemaGame where
  eq_of_compare same := SchemaGame.rank_injective (Std.LawfulEqOrd.eq_of_compare same)

/-- A validated, owned schema package with everything that its encoding needs. -/
structure OwnedPackage where
  /-- The encoded payload. -/
  payload : PackagePayload
  /-- Digest of the encoded payload. -/
  payloadSha256 : Fixed 32

namespace OwnedPackage

variable (codec : PackageCodec)

/-- The game of a package. -/
def game (package : OwnedPackage) : SchemaGame := package.payload.manifest.game

/-- What registries read of a package. -/
def toSchemaPackage (package : OwnedPackage) : SchemaPackage where
  game := package.game
  records := package.payload.records
  callbackBindings := package.payload.callbackBindings
  payloadSha256 := package.payloadSha256

/-- `SchemaPackage::encode_payload`. -/
def encodePayload (payload : PackagePayload) : Except CatalogError Bytes :=
  (codec.toCbor payload).mapError .cborEncode

/-- `SchemaPackage::new_with_semantics`: create and validate a package. -/
def newWithSemantics (manifest : SchemaManifest) (records : List SchemaRecord)
    (callbackBindings : List CallbackBinding)
    (conditionFunctionTable : Option ConditionFunctionTable) : Except CatalogError OwnedPackage := do
  let payload : PackagePayload := ⟨manifest, records, callbackBindings, conditionFunctionTable⟩
  (SchemaPackage.validate payload .default).mapError .package
  let encoded ← encodePayload codec payload
  .ok ⟨payload, codec.sha256 encoded⟩

/-- `SchemaPackage::to_bytes`: encode a package. -/
def toBytes (package : OwnedPackage) : Except CatalogError Bytes := do
  (SchemaPackage.validate package.payload .default).mapError .package
  let payload ← encodePayload codec package.payload
  if 2 ^ 64 ≤ payload.length then catalogLimit "payload length exceeds u64"
  else
    .ok (packageMagic ++ u16ToLeBytes packageFormatVersion ++ u16ToLeBytes 0 ++
      leBytes 8 payload.length ++ (codec.sha256 payload).val ++ payload)

/-- `SchemaPackage::from_bytes_with_limits`: decode a package. -/
def fromBytesWithLimits (bytes : Bytes) (limits : SchemaLoadLimits) :
    Except PackageError OwnedPackage :=
  if limits.maximumPackageBytes < bytes.length then
    (limitExceeded (s!"package is {bytes.length} bytes, limit is " ++
      s!"{limits.maximumPackageBytes}")).mapError .schema
  else if bytes.length < packageHeaderLength ∨ bytes.take 4 ≠ packageMagic then
    .error .invalidMagic
  else
    let version := UInt16.ofNat (leValue (bytes.slice 4 6))
    let payloadLength := leValue (bytes.slice 8 16)
    if version ≠ packageFormatVersion then .error (.unsupportedVersion version)
    else if 2 ^ 64 ≤ packageHeaderLength + payloadLength then
      (limitExceeded "payload length overflowed").mapError .schema
    else if packageHeaderLength + payloadLength ≠ bytes.length then
      (invalidGraph (s!"header declares {payloadLength} payload bytes, actual length is " ++
        s!"{bytes.length - packageHeaderLength}")).mapError .schema
    else
      let payloadBytes := bytes.drop packageHeaderLength
      let digest := codec.sha256 payloadBytes
      if bytes.slice 16 48 ≠ digest.val then .error .hashMismatch
      else
        match codec.fromCbor payloadBytes with
        | .error message => .error (.cborDecode message)
        | .ok payload => do
          SchemaPackage.validate payload limits
          .ok ⟨payload, digest⟩

end OwnedPackage

/-- Magic bytes at the beginning of one schema catalog bundle. -/
def bundleMagic : Bytes := [0x42, 0x4B, 0x43, 0x54]

/-- Length of the header of a bundle. -/
def bundleHeaderLength : Nat := 12

/-- Encode packages that stand in game order, behind those of other games. -/
def encodePackages (codec : PackageCodec) :
    List OwnedPackage → List SchemaGame → Except CatalogError (List Bytes)
  | [], _ => .ok []
  | package :: packages, games =>
    if games.contains package.game then
      catalogGraph s!"duplicate game package {package.game.slug}"
    else do
      let encoded ← package.toBytes codec
      let others ← encodePackages codec packages (package.game :: games)
      .ok (encoded :: others)

/-- Encoded packages behind their lengths. -/
def bundleEntries : List Bytes → Except CatalogError Bytes
  | [] => .ok []
  | package :: packages =>
    if 2 ^ 64 ≤ package.length then catalogLimit "encoded package length exceeds u64"
    else do
      let entries ← bundleEntries packages
      .ok (leBytes 8 package.length ++ package ++ entries)

/-- Encode packages into one catalog bundle. -/
def encodeBundle (codec : PackageCodec) (packages : List OwnedPackage) :
    Except CatalogError Bytes := do
  let ordered := packages.insertionSort fun first second => first.game.rank ≤ second.game.rank
  let encodedPackages ← encodePackages codec ordered []
  if 2 ^ 32 ≤ encodedPackages.length then catalogLimit "too many package entries"
  else
    let entries ← bundleEntries encodedPackages
    .ok (bundleMagic ++ u16ToLeBytes packageFormatVersion ++ u16ToLeBytes 0 ++
      leBytes 4 encodedPackages.length ++ entries)

/-- Decode some entries of a bundle from an offset on; the second component is where they end. -/
def decodeEntries (codec : PackageCodec) (limits : SchemaLoadLimits) (bytes : Bytes) :
    Nat → Nat → Except PackageError (List OwnedPackage × Nat)
  | 0, offset => .ok ([], offset)
  | count + 1, offset =>
    let lengthEnd := offset + 8
    if 2 ^ 64 ≤ lengthEnd then .error (.schema (.invalidGraph "bundle offset overflowed"))
    else
      match bytes.get offset lengthEnd with
      | none => .error (.schema (.invalidGraph "bundle ended before package length"))
      | some lengthBytes =>
        let packageEnd := lengthEnd + leValue lengthBytes
        if 2 ^ 64 ≤ packageEnd then .error (.schema (.invalidGraph "bundle entry overflowed"))
        else
          match bytes.get lengthEnd packageEnd with
          | none => .error (.schema (.invalidGraph "bundle ended inside package entry"))
          | some packageBytes => do
            let package ← OwnedPackage.fromBytesWithLimits codec packageBytes limits
            let (packages, stop) ← decodeEntries codec limits bytes count packageEnd
            .ok (package :: packages, stop)

/-- Decode the packages of a bundle. -/
def decodeBundle (codec : PackageCodec) (bytes : Bytes) (limits : SchemaLoadLimits) :
    Except PackageError (List OwnedPackage) :=
  if bytes.length < bundleHeaderLength ∨ bytes.take 4 ≠ bundleMagic then .error .invalidMagic
  else
    let version := UInt16.ofNat (leValue (bytes.slice 4 6))
    if version ≠ packageFormatVersion then .error (.unsupportedVersion version)
    else do
      let count := leValue (bytes.slice 8 12)
      let (packages, offset) ← decodeEntries codec limits bytes count bundleHeaderLength
      if offset ≠ bytes.length then .error (.schema (.invalidGraph "bundle has trailing bytes"))
      else .ok packages

/-- Packages by their game. -/
structure SchemaCatalog where
  /-- The package of every game that has one. -/
  packages : Std.TreeMap SchemaGame OwnedPackage

namespace SchemaCatalog

/-- A catalog without packages. -/
def new : SchemaCatalog := ⟨∅⟩

/-- Insert a package. -/
def insert (catalog : SchemaCatalog) (package : OwnedPackage) : Except CatalogError SchemaCatalog :=
  if catalog.packages.contains package.game then
    catalogGraph s!"catalog already contains {package.game.slug}"
  else .ok ⟨catalog.packages.insert package.game package⟩

/-- Load a catalog bundle with default safety limits. -/
def fromBundleBytes (codec : PackageCodec) (bytes : Bytes) : Except CatalogError SchemaCatalog := do
  let packages ← (decodeBundle codec bytes .default).mapError .package
  packages.foldlM insert new

/-- The package of a game. -/
def get (catalog : SchemaCatalog) (game : SchemaGame) : Option OwnedPackage :=
  catalog.packages[game]?

/-- The package of a game that must have one. -/
def require (catalog : SchemaCatalog) (game : SchemaGame) : Except CatalogError OwnedPackage :=
  match catalog.get game with
  | some package => .ok package
  | none => .error (.missingGame game.slug)

/-- Number of game packages. -/
def len (catalog : SchemaCatalog) : Nat := catalog.packages.size

end SchemaCatalog

end Bethkit
