import Bethkit.Semantic.Value

/-!
# Encodings of strings embedded in plugin records

The codecs of `encoding_rs` are a third-party library and enter as the parameter `TextCodecs`; an
encoding is identified by its canonical name. The selection policies, the label resolution and
the detection of uncertain byte text are the source's own.
-/

namespace Bethkit

open Lib

/-- A codec of `encoding_rs`. -/
structure TextEncoding where
  /-- Canonical name. -/
  name : String
  /-- `decode_without_bom_handling`: the text, and whether there were errors. -/
  decode : Bytes → String × Bool
  /-- `encode`: the bytes, and whether there were unmappable characters. -/
  encode : String → Bytes × Bool

/-- The codecs of `encoding_rs`. -/
structure TextCodecs where
  /-- `Encoding::for_label`. -/
  forLabel : String → Option TextEncoding
  /-- `WINDOWS_1252`. -/
  windows1252 : TextEncoding

/-- `str::to_ascii_lowercase`. -/
def strToAsciiLowercase (text : String) : String := String.ofList (text.toList.map Char.toLower)

/-- `str::parse::<u16>`: digits after an optional plus sign, within the word. -/
def strParseU16 (text : String) : Option Nat :=
  let digits := match text.toList with
    | '+' :: rest => rest
    | chars => chars
  if digits.isEmpty || digits.any (!·.isDigit) then none
  else
    let value := digits.foldl (fun value digit => 10 * value + (digit.toNat - 48)) 0
    if value < 65536 then some value else none

/-- Encoding used for schema-localizable inline text instead of the schema default. -/
inductive InlineStringEncoding where
  /-- UTF-8. -/
  | utf8
  /-- Windows-1252, the legacy Latin-script schema default. -/
  | windows1252
  /-- Prefer UTF-8 for each inline string, falling back to its schema encoding. -/
  | preferUtf8
  /-- Prefer UTF-8 per string, with one detected legacy fallback for other bytes. -/
  | preferUtf8WithFallback (encoding : String)
  /-- Preserve suspicious or weakly evidenced legacy text as undecoded bytes. -/
  | preserveUtf8WithFallback (encoding : String) (uncertainLegacy : Bool)
  /-- A supported legacy codec selected by detection or an explicit override. -/
  | legacy (encoding : String)
  /-- Use an authoritative codec, retaining invalid text as raw bytes instead of failing. -/
  | preserveExplicit (encoding : String)
deriving DecidableEq

namespace InlineStringEncoding

/-- The stable schema-compatible name of an encoding or policy. -/
def schemaName : InlineStringEncoding → String
  | utf8 => "utf8"
  | windows1252 => "windows_1252"
  | preferUtf8 | preferUtf8WithFallback _ | preserveUtf8WithFallback _ _ => "prefer_utf8"
  | legacy encoding | preserveExplicit encoding => encoding

/-- Whether a policy makes a heuristic choice for each string. -/
def prefersUtf8 : InlineStringEncoding → Bool
  | preferUtf8 | preferUtf8WithFallback _ | preserveUtf8WithFallback _ _ => true
  | _ => false

/-- The codec label of a spelling or a Windows codepage number. -/
def normalizedLabel (label : String) : String :=
  if label = "utf8" ∨ label = "65001" then "utf-8"
  else if label = "windows_1252" ∨ label = "1252" then "windows-1252"
  else if label = "1250" then "windows-1250"
  else if label = "1251" then "windows-1251"
  else if label = "1253" then "windows-1253"
  else if label = "1254" then "windows-1254"
  else if label = "1255" then "windows-1255"
  else if label = "1256" then "windows-1256"
  else if label = "1257" then "windows-1257"
  else if label = "1258" then "windows-1258"
  else if label = "874" then "windows-874"
  else if label = "932" then "shift_jis"
  else if label = "936" then "gbk"
  else if label = "949" then "euc-kr"
  else if label = "950" then "big5"
  else if label = "866" then "ibm866"
  else label

/-- The codec of a label or of a supported Windows codepage number; nothing for unknown labels,
UTF-16 and the stateful ISO-2022-JP. -/
def fromLabel (codecs : TextCodecs) (label : String) : Option InlineStringEncoding := do
  let label := strToAsciiLowercase (strTrim label)
  let label := match strParseU16 label with
    | some number => toString number
    | none => label
  let encoding ← codecs.forLabel (normalizedLabel label)
  if encoding.name = "UTF-8" then some utf8
  else if encoding.name = "windows-1252" then some windows1252
  else if encoding.name ∈ ["UTF-16LE", "UTF-16BE", "ISO-2022-JP", "replacement"] then none
  else some (legacy encoding.name)

/-- The concrete codec behind a policy, if it names one. -/
def fallbackEncoding (codecs : TextCodecs) : InlineStringEncoding → Option InlineStringEncoding
  | preferUtf8 => none
  | preferUtf8WithFallback codec => fromLabel codecs codec
  | preserveUtf8WithFallback encoding _ => fromLabel codecs encoding
  | concrete => some concrete

end InlineStringEncoding

/-- A byte between two bounds. -/
def byteIn (low high : Nat) (byte : UInt8) : Bool := low ≤ byte.toNat && byte.toNat ≤ high

/-- The continuation bytes of a character whose first byte was read: each must lie in its range.
A missing byte is an unexpected end, a wrong one an error as long as what precedes it. -/
def utf8Continue : List (Nat × Nat) → Nat → Bytes → Option (Option Nat)
  | [], _, _ => none
  | _ :: _, _, [] => some none
  | (low, high) :: ranges, done, byte :: rest =>
    if byteIn low high byte then utf8Continue ranges (done + 1) rest else some (some done)

/-- The ranges of the continuation bytes after a first byte; nothing for a byte that starts no
character. -/
def utf8Ranges (first : UInt8) : Option (List (Nat × Nat)) :=
  let code := first.toNat
  if code < 0x80 then some []
  else if 0xC2 ≤ code ∧ code ≤ 0xDF then some [(0x80, 0xBF)]
  else if code = 0xE0 then some [(0xA0, 0xBF), (0x80, 0xBF)]
  else if code = 0xED then some [(0x80, 0x9F), (0x80, 0xBF)]
  else if 0xE1 ≤ code ∧ code ≤ 0xEF then some [(0x80, 0xBF), (0x80, 0xBF)]
  else if code = 0xF0 then some [(0x90, 0xBF), (0x80, 0xBF), (0x80, 0xBF)]
  else if 0xF1 ≤ code ∧ code ≤ 0xF3 then some [(0x80, 0xBF), (0x80, 0xBF), (0x80, 0xBF)]
  else if code = 0xF4 then some [(0x80, 0x8F), (0x80, 0xBF), (0x80, 0xBF)]
  else none

/-- `Utf8Error` of a byte string: `valid_up_to` and `error_len`; nothing for valid UTF-8. The
first argument bounds the characters left. -/
def utf8ErrorFrom : Nat → Nat → Bytes → Option (Nat × Option Nat)
  | 0, _, _ => none
  | _ + 1, _, [] => none
  | fuel + 1, position, first :: rest =>
    match utf8Ranges first with
    | none => some (position, some 1)
    | some ranges =>
      match utf8Continue ranges 1 rest with
      | some errorLen => some (position, errorLen)
      | none => utf8ErrorFrom fuel (position + 1 + ranges.length) (rest.drop ranges.length)

/-- `str::from_utf8(bytes).err()`. -/
def utf8Error (bytes : Bytes) : Option (Nat × Option Nat) :=
  utf8ErrorFrom (bytes.length + 1) 0 bytes

/-- The non-ASCII bytes of a byte string. -/
def countNonAscii (bytes : Bytes) : Nat := (bytes.filter fun byte => 128 ≤ byte.toNat).length

/-- The loop of `preserve`: the non-ASCII bytes of the valid stretches. Every round skips at
least the invalid byte, so the length of the text bounds the rounds. -/
def validNonAscii : Nat → Bytes → Nat
  | 0, _ => 0
  | fuel + 1, remaining =>
    match utf8Error remaining with
    | none => countNonAscii remaining
    | some (validUpTo, errorLen) =>
      let skip := validUpTo + errorLen.getD (remaining.length - validUpTo)
      countNonAscii (remaining.take validUpTo) + validNonAscii fuel (remaining.drop skip)

/-- Whether an invalid UTF-8 body should remain raw under the preservation policy. -/
def preserve (bytes : Bytes) (policy : Option InlineStringEncoding) : Bool :=
  match policy with
  | some (.preserveUtf8WithFallback _ uncertainLegacy) =>
    if (strFromUtf8 bytes).isSome then false
    else if uncertainLegacy || bytes.any (· ∈ [0x81, 0x8d, 0x8f, 0x90, 0x9d]) then true
    else
      let valid := validNonAscii (bytes.length + 1) bytes
      6 ≤ valid && countNonAscii bytes ≤ valid * 2
  | _ => false

end Bethkit
