import Bethkit.Core.Plugin
import Bethkit.Lib.PathWalk
import Bethkit.Semantic.Value

/-!
# The string cursor

The foreign interface hands out the translatable strings of a plugin in batches of records. The
cursor keeps positions instead of references, and an error that comes up behind strings of the same
batch waits for the next call. What the semantic layer makes of one record is a parameter.
-/

namespace Bethkit

open Lib

/-- Errors of the foreign interface that the cursor can report. -/
inductive FfiError where
  /-- An argument failed validation before the requested operation began. -/
  | invalidArgument (context message : String)
  /-- A schema-guided operation failed. -/
  | semantic (error : SemanticError)
  /-- A core library error. -/
  | core (error : CoreError)
  /-- A panic, which the foreign interface catches. -/
  | panic
  /-- No error of the source: the step bound of the walk. -/
  | outOfFuel
deriving DecidableEq

/-- What the semantic context and the snapshot module do with one record. -/
structure StringDecoder (row : Type) where
  /-- The signatures that `can_contain_strings` denies for the schemas of the package. -/
  textFree : List Signature
  /-- `view` and `check_decodable`, for a localized plugin or not. -/
  checkDecodable : Record → Bool → Except FfiError Unit
  /-- `view`, `fields` and the rows of the translatable scalars in them. -/
  rows : Record → Bool → Except FfiError (List row)
  /-- The text of an error. -/
  display : FfiError → String

/-- `snapshot::string_rows`: a record that is only decoded has no rows. -/
def StringDecoder.stringRows {row : Type} (decoder : StringDecoder row) (record : Record)
    (localized decodeOnly : Bool) : Except FfiError (List row) :=
  if decodeOnly then (decoder.checkDecodable record localized).map fun _ => []
  else decoder.rows record localized

/-- A record without text that could not be decoded. -/
structure StringDiagnostic where
  /-- Its signature. -/
  recordSignature : String
  /-- Its FormID. -/
  formId : FormId
  /-- The size in its header. -/
  sourceSize : UInt32
  /-- The text of the error. -/
  message : String
deriving DecidableEq

/-- The document of one call. -/
structure StringBatch (row : Type) where
  /-- The translatable scalars of the records of the batch. -/
  values : List row
  /-- Whether the records are exhausted. -/
  done : Bool
  /-- The records that are kept as opaque source. -/
  diagnostics : List StringDiagnostic
deriving DecidableEq

/-- Cursor over the records of a plugin. -/
structure StringCursor where
  /-- Index of the top-level group. -/
  root : Nat
  /-- Positions in the slices of children, outermost first. -/
  positions : List Nat
  /-- Whether a call failed. -/
  failed : Bool
  /-- The error that the next call reports. -/
  pendingError : Option FfiError
  /-- Signatures without text. -/
  textFree : List Signature
  /-- Whether records without text are decoded too. -/
  validateNontext : Bool
  /-- Whether a record without text may fail to decode. -/
  preserveOpaqueNontext : Bool

namespace StringCursor

variable {row : Type}

/-- `bethkit_string_cursor_new`. -/
def new (decoder : StringDecoder row) (validateNontext : Bool) : StringCursor :=
  { root := 0, positions := [], failed := false, pendingError := none,
    textFree := decoder.textFree, validateNontext, preserveOpaqueNontext := false }

/-- `bethkit_string_cursor_new_preserving_nontext`. -/
def newPreservingNontext (decoder : StringDecoder row) : StringCursor :=
  { new decoder true with preserveOpaqueNontext := true }

/-- The positions with the one that `next_record` pushes on an empty stack. -/
def initialized (cursor : StringCursor) : List Nat :=
  if cursor.positions = [] then [0] else cursor.positions

/-- The loop of `next_record`: one pass moves the innermost position. -/
def nextRecordLoop (plugin : Plugin) : Nat → StringCursor →
    Except FfiError (Option Record) × StringCursor
  | 0, cursor => (.error .outOfFuel, cursor)
  | fuel + 1, cursor =>
    match plugin.groups[cursor.root]? with
    | none => (.ok none, cursor)
    | some group =>
      let outer := cursor.initialized.dropLast
      match RoseTree.descend group.children outer, cursor.initialized.getLast? with
      | some children, some position =>
        let advanced := { cursor with positions := outer ++ [position + 1] }
        match children[position]? with
        | some (.leaf record) => (.ok (some record), advanced)
        | some (.node _ _) =>
          nextRecordLoop plugin fuel { advanced with positions := advanced.positions ++ [0] }
        | none =>
          if outer = [] then
            nextRecordLoop plugin fuel { cursor with positions := [], root := cursor.root + 1 }
          else nextRecordLoop plugin fuel { cursor with positions := outer }
      | _, _ => (.error .panic, cursor)

/-- The stack that the cursor stands for: the slices of the current group, then the later groups. -/
def stack (plugin : Plugin) (cursor : StringCursor) : List (List GroupChild × Nat) :=
  let current := match plugin.groups[cursor.root]? with
    | none => []
    | some group => RoseTree.frames group.children cursor.initialized
  current ++ (plugin.groups.drop (cursor.root + 1)).map fun group => (group.children, 0)

/-- `next_record`, bounded by the steps that are ahead. -/
def nextRecord (plugin : Plugin) (cursor : StringCursor) :
    Except FfiError (Option Record) × StringCursor :=
  nextRecordLoop plugin (RoseTree.stackWeight (cursor.stack plugin) + 1) cursor

/-- The soft limit on the source payload of a batch. -/
def BYTE_LIMIT : Nat := 2 * 1024 * 1024

/-- The soft limit on the strings of a batch. -/
def STRING_LIMIT : Nat := 4096

/-- The diagnostic of a record that could not be decoded. -/
def diagnosticOf (decoder : StringDecoder row) (record : Record) (error : FfiError) :
    StringDiagnostic :=
  { recordSignature := record.header.signature.display, formId := record.header.formId,
    sourceSize := record.header.dataSize, message := decoder.display error }

/-- The `for` of `next_json` with the values, diagnostics and bytes collected so far. -/
def fill (decoder : StringDecoder row) (plugin : Plugin) :
    Nat → List row → List StringDiagnostic → Nat → StringCursor →
      Except FfiError (StringBatch row) × StringCursor
  | 0, values, diagnostics, _, cursor => (.ok { values, done := false, diagnostics }, cursor)
  | limit + 1, values, diagnostics, bytes, cursor =>
    match cursor.nextRecord plugin with
    | (.error error, cursor) => (.error error, cursor)
    | (.ok none, cursor) => (.ok { values, done := true, diagnostics }, cursor)
    | (.ok (some record), cursor) =>
      let textFree := cursor.textFree.contains record.header.signature
      if textFree && !cursor.validateNontext then
        fill decoder plugin limit values diagnostics bytes cursor
      else
        match decoder.stringRows record plugin.isLocalized textFree with
        | .error error =>
          if textFree && cursor.preserveOpaqueNontext then
            fill decoder plugin limit values (diagnostics ++ [diagnosticOf decoder record error])
              bytes cursor
          else if values.isEmpty then (.error error, cursor)
          else
            (.ok { values, done := false, diagnostics },
              { cursor with pendingError := some error })
        | .ok rows =>
          let bytes := bytes + record.uncompressedDataSize
          let values := values ++ rows
          if BYTE_LIMIT ≤ bytes ∨ STRING_LIMIT ≤ values.length then
            (.ok { values, done := false, diagnostics }, cursor)
          else fill decoder plugin limit values diagnostics bytes cursor

/-- The error of a call that the cursor refuses. -/
def refused : FfiError :=
  .invalidArgument "string cursor/next" "invalid record limit or cursor previously failed"

/-- `bethkit_string_cursor_next_json`; a call that fails leaves the cursor failed. -/
def nextJson (decoder : StringDecoder row) (plugin : Plugin) (cursor : StringCursor)
    (recordLimit : Nat) : Except FfiError (StringBatch row) × StringCursor :=
  match cursor.pendingError with
  | some error => (.error error, { cursor with pendingError := none })
  | none =>
    if ¬ (1 ≤ recordLimit ∧ recordLimit ≤ 256) ∨ cursor.failed then (.error refused, cursor)
    else
      match fill decoder plugin recordLimit [] [] 0 { cursor with failed := true } with
      | (.error error, cursor) => (.error error, cursor)
      | (.ok batch, cursor) => (.ok batch, { cursor with failed := cursor.pendingError.isSome })

/-- The results of consecutive calls with the given record limits. -/
def calls (decoder : StringDecoder row) (plugin : Plugin) :
    List Nat → StringCursor → List (Except FfiError (StringBatch row))
  | [], _ => []
  | limit :: limits, cursor =>
    (cursor.nextJson decoder plugin limit).1 ::
      calls decoder plugin limits (cursor.nextJson decoder plugin limit).2

end StringCursor

end Bethkit
