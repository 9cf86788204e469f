import Bethkit.Semantic.Text

/-!
# Primitive values

Decoding and encoding of one primitive: fixed-width integers, packed integers, strings of every
framing, raw bytes and FormIDs. The decoder first takes the bytes of the primitive from the front
of the payload and then reads exactly these.
-/

namespace Bethkit

open Lib

/-- `{:02X}`. -/
def hexByte (byte : UInt8) : String :=
  String.ofList [Signature.hexDigit (byte.toNat / 16), Signature.hexDigit (byte.toNat % 16)]

/-- A payload of the wrong length. -/
def decodeLengthError (path : String) (expected actual : Nat) : SemanticError :=
  .decode path s!"expected {expected} bytes, got {actual}"

/-- A value that cannot be encoded. -/
def encodeError (path message : String) : SemanticError := .encode path message

/-- A string that localized plugins keep in a table. -/
def isLocalizedString (string : StringType) : Bool :=
  string.localized || string.encoding = "localized"

/-- The encoding of the text bytes of a string. -/
def textEncoding (string : StringType) : String :=
  if string.encoding = "localized" then "windows_1252" else string.encoding

/-- The unsigned integer in exactly the bytes of its type. -/
def integerAsU64 (integer : IntegerType) (data : Bytes) (path : String) :
    Except SemanticError UInt64 :=
  if data.length ≠ integer.width.toNat then
    .error (decodeLengthError path integer.width.toNat data.length)
  else if integer.width = 1 ∨ integer.width = 2 ∨ integer.width = 4 ∨ integer.width = 8 then
    match integer.byteOrder with
    | .littleEndian => .ok (UInt64.ofNat (leValue data))
    | .bigEndian => .ok (UInt64.ofNat (leValue data.reverse))
  else .error (.decode path s!"unsupported integer width {integer.width.toNat}")

/-- Two's complement reading of a natural number below `2 ^ bits`. -/
def signExtend (bits value : Nat) : Int :=
  if value < 2 ^ (bits - 1) then value else (value : Int) - 2 ^ bits

/-- The signed integer in exactly the bytes of its type. -/
def integerAsI64 (integer : IntegerType) (data : Bytes) (path : String) :
    Except SemanticError Int64 :=
  if !integer.signed then do
    let value ← integerAsU64 integer data path
    match i64TryFrom value.toNat with
    | some value => .ok value
    | none => .error (.decode path "unsigned integer exceeds i64")
  else do
    let value ← integerAsU64 integer data path
    .ok (Int64.ofInt (signExtend (8 * integer.width.toNat) value.toNat))

/-- An integer as the value of its signedness. -/
def decodeInteger (integer : IntegerType) (data : Bytes) (path : String) :
    Except SemanticError FieldValue :=
  if integer.signed then (integerAsI64 integer data path).map .int
  else (integerAsU64 integer data path).map .uint

/-- The unsigned integer at the front of a payload. -/
def decodeUnsignedInteger (integer : IntegerType) (data : Bytes) (path : String) :
    Except SemanticError UInt64 :=
  if integer.signed then .error (.decode path "array count prefix must be unsigned")
  else
    let width := integer.width.toNat
    if data.length < width then .error (decodeLengthError path width data.length)
    else integerAsU64 integer (data.take width) path

/-- The width that the two low bits of a packed integer select. -/
def packedWidth (first : UInt8) : Nat :=
  if first.toNat % 4 = 1 then 2 else if first.toNat % 4 = 2 then 4 else 1

/-- The packed integer at the front of a payload and its width. -/
def decodePackedUnsigned (data : Bytes) (path : String) : Except SemanticError (UInt64 × Nat) :=
  match data with
  | [] => .error (decodeLengthError path 1 0)
  | first :: _ =>
    let width := packedWidth first
    if data.length < width then .error (decodeLengthError path width data.length)
    else .ok (UInt64.ofNat (leValue (data.take width) / 4), width)

/-- An element count, squared for a matrix. -/
def arrayCountValue (value : UInt64) (square : Bool) (path : String) : Except SemanticError Nat :=
  if square then
    if value.toNat * value.toNat < 2 ^ 64 then .ok (value.toNat * value.toNat)
    else .error (.decode path "matrix element count overflowed")
  else .ok value.toNat

/-- The size of a count prefix with its optional structural byte. -/
def arrayPrefixSize (integerSize : Nat) (terminator : Option UInt8) (data : Bytes)
    (path : String) : Except SemanticError Nat :=
  match terminator with
  | none => .ok integerSize
  | some expected =>
    match data[integerSize]? with
    | none => .error (.decode path "array count prefix is missing its terminator")
    | some actual =>
      if actual ≠ expected then .error (.decode path
        s!"expected array prefix terminator 0x{hexByte expected}, got 0x{hexByte actual}")
      else .ok (integerSize + 1)

/-- The floating-point number in exactly the bytes of its width. -/
def decodeFloat (width : UInt8) (byteOrder : ByteOrder) (data : Bytes) (path : String) :
    Except SemanticError FieldValue :=
  if data.length ≠ width.toNat then .error (decodeLengthError path width.toNat data.length)
  else
    let bits := match byteOrder with
      | .littleEndian => leValue data
      | .bigEndian => leValue data.reverse
    if width = 4 then .ok (.float (Float32.ofBits (UInt32.ofNat bits)).toFloat)
    else if width = 8 then .ok (.float (Float.ofBits (UInt64.ofNat bits)))
    else .error (.decode path s!"unsupported float width {width.toNat}")

/-- The length that a string prefix holds. -/
def readStringLength (width : UInt8) (data : Bytes) (path : String) : Except SemanticError Nat :=
  if width = 1 ∨ width = 2 ∨ width = 4 then
    if width.toNat ≤ data.length then .ok (leValue (data.take width.toNat))
    else .error (decodeLengthError path width.toNat data.length)
  else .error (.decode path s!"unsupported string length prefix width {width.toNat}")

/-- A string without its trailing structural terminator. -/
def stringRepresentation (string : StringType) (data : Bytes) (path : String) :
    Except SemanticError Bytes :=
  match string.trailingTerminator with
  | none => .ok data
  | some terminator =>
    match data.getLast? with
    | none => .error (.decode path "string is missing its structural terminator")
    | some actual =>
      if actual ≠ terminator then .error (.decode path
        s!"expected structural terminator 0x{hexByte terminator}, got 0x{hexByte actual}")
      else .ok data.dropLast

/-- The text bytes of a string, its framing taken off. -/
def stringBody (string : StringType) (data : Bytes) (path : String) :
    Except SemanticError Bytes := do
  let representation ← stringRepresentation string data path
  match string.lengthPrefix with
  | some lengthPrefix =>
    let offset := lengthPrefix.offset.toNat
    if representation.length < offset then
      .error (decodeLengthError path offset representation.length)
    else do
      let length ← readStringLength lengthPrefix.width representation path
      if offset + length ≠ representation.length then
        .error (decodeLengthError path (offset + length) representation.length)
      else .ok (representation.drop offset)
  | none =>
    match string.fixedLength with
    | some length =>
      if representation.length ≠ length.toNat then
        .error (decodeLengthError path length.toNat representation.length)
      else .ok representation
    | none => .ok representation

/-- The bytes before the first zero. -/
def untilZero (bytes : Bytes) : Bytes := bytes.takeWhile (· != 0)

/-- The text of a byte string in an encoding named by its schema label. -/
def decodeText (codecs : TextCodecs) (encoding : String) (bytes : Bytes) (path : String) :
    Except SemanticError String :=
  if encoding = "utf8" then
    match strFromUtf8 bytes with
    | some text => .ok text
    | none => .error (.decode path "invalid utf-8 sequence")
  else if encoding = "windows_1252" then
    let (text, hadErrors) := codecs.windows1252.decode bytes
    if hadErrors then .error (.decode path "invalid Windows-1252 byte sequence") else .ok text
  else
    match codecs.forLabel encoding with
    | none => .error (.decode path s!"string encoding {encoding} requires a custom decoder")
    | some codec =>
      let (text, hadErrors) := codec.decode bytes
      if hadErrors then .error (.decode path s!"invalid {encoding} byte sequence") else .ok text

/-- The encoding of the bytes of a string under a policy, and the codec to record when it differs
from the schema's. -/
def selectTextEncoding (codecs : TextCodecs) (string : StringType) (bytes : Bytes)
    (inlineEncoding : Option InlineStringEncoding) : String × Option InlineStringEncoding :=
  match inlineEncoding.filter fun _ => isLocalizedString string with
  | none => (textEncoding string, none)
  | some policy =>
    if policy.prefersUtf8 then
      if (strFromUtf8 bytes).isSome then
        ("utf8", if bytes.any (128 ≤ ·.toNat) && textEncoding string ≠ "utf8" then some .utf8
          else none)
      else
        let fallback := policy.fallbackEncoding codecs
        let encoding := match fallback with
          | none => textEncoding string
          | some codec => codec.schemaName
        (encoding, if encoding ≠ textEncoding string then fallback else none)
    else
      (policy.schemaName, if policy.schemaName ≠ textEncoding string then some policy else none)

/-- The policies that keep undecodable text as raw bytes. -/
def retainsInvalidText : Option InlineStringEncoding → Bool
  | some (.preserveUtf8WithFallback _ _) | some (.preserveExplicit _) => true
  | _ => false

/-- A string value, and the codec that a policy selected for it. The position that the source
puts into the message of invalid UTF-8 is left out. -/
def decodeStringSelected (codecs : TextCodecs) (string : StringType) (data : Bytes)
    (localized : Bool) (inlineEncoding : Option InlineStringEncoding) (path : String) :
    Except SemanticError (FieldValue × Option InlineStringEncoding) :=
  if isLocalizedString string && localized then
    if data.length ≠ 4 then .error (decodeLengthError path 4 data.length)
    else .ok (.uint (UInt64.ofNat (leValue data)), none)
  else do
    let body ← stringBody string data path
    let bytes := if string.zeroTerminated then untilZero body else body
    if isLocalizedString string && preserve bytes inlineEncoding then .ok (.bytes bytes, none)
    else
      let (encoding, selected) := selectTextEncoding codecs string bytes inlineEncoding
      match decodeText codecs encoding bytes path with
      | .ok text => .ok (.string text, selected)
      | .error error =>
        if retainsInvalidText inlineEncoding then .ok (.bytes bytes, selected) else .error error

/-- A primitive value in exactly the bytes given, and the codec selected for a string. -/
def decodePrimitive (codecs : TextCodecs) (primitive : PrimitiveType) (data : Bytes)
    (localized : Bool) (inlineEncoding : Option InlineStringEncoding) (path : String) :
    Except SemanticError (FieldValue × Option InlineStringEncoding) :=
  match primitive with
  | .integer integer => (decodeInteger integer data path).map (·, none)
  | .packedUnsigned => do
    let (value, width) ← decodePackedUnsigned data path
    if width ≠ data.length then .error (decodeLengthError path width data.length)
    else .ok (.uint value, none)
  | .float width byteOrder _ _ => (decodeFloat width byteOrder data path).map (·, none)
  | .string string => decodeStringSelected codecs string data localized inlineEncoding path
  | .bytes length =>
    match length with
    | some expected =>
      if data.length ≠ expected.toNat then
        .error (decodeLengthError path expected.toNat data.length)
      else .ok (.bytes data, none)
    | none => .ok (.bytes data, none)
  | .formId targets =>
    if data.length ≠ 4 then .error (decodeLengthError path 4 data.length)
    else .ok (.formId ⟨u32FromLeBytes data⟩ targets, none)
  | .enumeration integer values => do
    let raw ← integerAsI64 integer data path
    .ok (.enumeration raw ((values.find? (·.1 = raw)).map (·.2)), none)
  | .flags integer bits => do
    let raw ← integerAsU64 integer data path
    let active := bits.filter fun (bit, _) => bit.toNat < 64 && raw.toNat.testBit bit.toNat
    .ok (.flags raw (active.map (·.2)), none)
  | .unused length =>
    if data.length ≠ length.toNat then .error (decodeLengthError path length.toNat data.length)
    else .ok (.bytes data, none)

/-- The size of a string at the front of a payload. -/
def stringDataSize (string : StringType) (data : Bytes) (localized : Bool) (path : String) :
    Except SemanticError Nat :=
  if isLocalizedString string && localized then .ok 4
  else
    let trailing := if string.trailingTerminator.isSome then 1 else 0
    match string.lengthPrefix with
    | some lengthPrefix => do
      let length ← readStringLength lengthPrefix.width data path
      .ok (lengthPrefix.offset.toNat + length + trailing)
    | none =>
      match string.fixedLength with
      | some length => .ok (length.toNat + trailing)
      | none =>
        if string.zeroTerminated then
          let bodyLength := if 0 ∈ data then (untilZero data).length + 1 else data.length
          .ok (bodyLength + trailing)
        else .ok data.length

/-- The fixed size of a primitive, if its schema gives one. -/
def fixedPrimitiveSize : PrimitiveType → Option Nat
  | .integer integer => some integer.width.toNat
  | .packedUnsigned => none
  | .float width _ _ _ => some width.toNat
  | .string string =>
    if isLocalizedString string then none
    else string.fixedLength.map fun length =>
      length.toNat + if string.trailingTerminator.isSome then 1 else 0
  | .bytes length => length.map (·.toNat)
  | .formId _ => some 4
  | .enumeration integer _ => some integer.width.toNat
  | .flags integer _ => some integer.width.toNat
  | .unused length => some length.toNat

/-- The size of a primitive at the front of a payload. The source's function also measures structs
and arrays, but the decoder calls it for primitives only. -/
def nodeDataSize (primitive : PrimitiveType) (data : Bytes) (localized : Bool) (path : String) :
    Except SemanticError Nat :=
  match primitive with
  | .string string => stringDataSize string data localized path
  | _ => .ok ((fixedPrimitiveSize primitive).getD data.length)

/-- The bytes of an integer; a value that needs more than the width is refused. -/
def encodeInteger (integer : IntegerType) (value : UInt64) (path : String) :
    Except SemanticError Bytes :=
  let width := integer.width.toNat
  if (integer.width = 1 ∨ integer.width = 2 ∨ integer.width = 4 ∨ integer.width = 8) ∧
      value.toNat < 256 ^ width then
    match integer.byteOrder with
    | .littleEndian => .ok (leBytes width value.toNat)
    | .bigEndian => .ok (leBytes width value.toNat).reverse
  else .error (encodeError path "integer does not fit schema width")

/-- The bytes of a packed integer, as few as its value needs. -/
def encodePackedUnsigned (value : UInt64) (path : String) : Except SemanticError Bytes :=
  if value.toNat ≤ 0x3f then .ok (leBytes 1 (4 * value.toNat))
  else if value.toNat ≤ 0x3fff then .ok (leBytes 2 (4 * value.toNat + 1))
  else if value.toNat ≤ 0x3fffffff then .ok (leBytes 4 (4 * value.toNat + 2))
  else .error (encodeError path "packed integer exceeds 30 bits")

/-- The bisection of `array_prefix_count`: the interval `[low, high)` halves in every round. -/
def squareRootLoop (length : Nat) : Nat → Nat → Nat → Nat
  | 0, low, _ => low
  | fuel + 1, low, high =>
    if low + 1 < high then
      let middle := low + (high - low) / 2
      if middle ≤ length / max middle 1 then squareRootLoop length fuel middle high
      else squareRootLoop length fuel low middle
    else low

/-- The count prefix of an array of a length; a matrix has a square length. -/
def arrayPrefixCount (length : Nat) (square : Bool) (path : String) :
    Except SemanticError UInt64 :=
  if !square then .ok (UInt64.ofNat length)
  else
    let low := squareRootLoop length 64 0 (min length (2 ^ 32 - 1) + 1)
    if low * low ≠ length then
      .error (encodeError path "matrix array length is not a perfect square")
    else .ok (UInt64.ofNat low)

/-- The length prefix of a string: the length in the first bytes, zeros up to the offset. -/
def encodeLengthPrefix (lengthPrefix : StringLengthPrefix) (length : Nat) (path : String) :
    Except SemanticError Bytes :=
  let width := lengthPrefix.width.toNat
  if lengthPrefix.width = 1 ∨ lengthPrefix.width = 2 ∨ lengthPrefix.width = 4 then
    if length < 256 ^ width then
      .ok (leBytes width length ++ List.replicate (lengthPrefix.offset.toNat - width) 0)
    else .error (encodeError path "string exceeds length prefix width")
  else .error (encodeError path s!"unsupported string length prefix width {width}")

/-- The framing of the text bytes of a string. -/
def finishStringEncoding (string : StringType) (body : Bytes) (path : String) :
    Except SemanticError Bytes := do
  let body := if string.zeroTerminated then body ++ [0] else body
  let body ← match string.fixedLength with
    | some length =>
      if length.toNat < body.length then .error (encodeError path "string exceeds fixed length")
      else .ok (body ++ List.replicate (length.toNat - body.length) 0)
    | none => .ok body
  let output ← match string.lengthPrefix with
    | some lengthPrefix => do
      let head ← encodeLengthPrefix lengthPrefix body.length path
      .ok (head ++ body)
    | none => .ok body
  .ok (output ++ string.trailingTerminator.toList)

/-- The bytes of a text in an encoding named by its schema label. -/
def encodeText (codecs : TextCodecs) (encoding text path : String) : Except SemanticError Bytes :=
  if encoding = "utf8" then .ok (strAsBytes text)
  else if encoding = "windows_1252" then
    let (bytes, hadErrors) := codecs.windows1252.encode text
    if hadErrors then .error (encodeError path
      "string contains characters that Windows-1252 cannot represent")
    else .ok bytes
  else
    match codecs.forLabel encoding with
    | none => .error (encodeError path s!"unsupported string encoding {encoding}")
    | some codec =>
      let (bytes, hadErrors) := codec.encode text
      if hadErrors then .error (encodeError path
        s!"string contains characters that {encoding} cannot represent")
      else .ok bytes

/-- The encoding in which the text of a string is written. -/
def writtenTextEncoding (string : StringType) (inlineEncoding : Option InlineStringEncoding) :
    String :=
  match inlineEncoding.filter fun _ => isLocalizedString string with
  | some encoding => encoding.schemaName
  | none => textEncoding string

/-- The bytes of a primitive value. -/
def encodePrimitive (codecs : TextCodecs) (primitive : PrimitiveType) (value : OwnedFieldValue)
    (localized : Bool) (inlineEncoding : Option InlineStringEncoding) (path : String) :
    Except SemanticError Bytes :=
  match primitive, value with
  | .integer integer, .int value => encodeInteger integer value.toUInt64 path
  | .integer integer, .uint value => encodeInteger integer value path
  | .packedUnsigned, .uint value => encodePackedUnsigned value path
  | .float width byteOrder _ _, .float value =>
    if width = 4 ∨ width = 8 then
      let bits := if width = 4 then value.toFloat32.toBits.toNat else value.toBits.toNat
      match byteOrder with
      | .littleEndian => .ok (leBytes width.toNat bits)
      | .bigEndian => .ok (leBytes width.toNat bits).reverse
    else .error (encodeError path "value type does not match schema type")
  | .string string, .uint value =>
    if isLocalizedString string && localized then
      if value.toNat < 2 ^ 32 then .ok (leBytes 4 value.toNat)
      else .error (encodeError path "localized string ID exceeds u32")
    else .error (encodeError path "value type does not match schema type")
  | .string string, .string value =>
    if isLocalizedString string && localized then
      .error (encodeError path "localized plugin string requires a string-table ID")
    else do
      let bytes ← encodeText codecs (writtenTextEncoding string inlineEncoding) value path
      finishStringEncoding string bytes path
  | .bytes length, .bytes value =>
    if length.any (value.length ≠ ·.toNat) then
      .error (encodeError path "byte array has incorrect length")
    else .ok value
  | .unused length, .bytes value =>
    if value.length ≠ length.toNat then
      .error (encodeError path "unused bytes have incorrect length")
    else .ok value
  | .formId _, .formId value => .ok (u32ToLeBytes value.val)
  | .enumeration integer _, .int value => encodeInteger integer value.toUInt64 path
  | .flags integer _, .uint value => encodeInteger integer value path
  | _, _ => .error (encodeError path "value type does not match schema type")

end Bethkit
