import Bethkit.Ffi.StringCursor

/-!
# Extraction record by record

What the strings of a plugin are does not depend on batches: every record is visited once, in the
order of the record iterator, and the first record that may not fail ends the extraction. The
results of the calls are compared with this.
-/

namespace Bethkit

open Lib

/-- What becomes of one record. -/
inductive Visit (row : Type) where
  /-- It has no text and is not decoded. -/
  | skipped
  /-- It is decoded; its payload counts for the byte limit. -/
  | decoded (rows : List row) (size : Nat)
  /-- It has no text and is kept as opaque source. -/
  | kept (diagnostic : StringDiagnostic)
  /-- The extraction ends here. -/
  | fatal (error : FfiError)

namespace Visit

variable {row : Type}

/-- The values of a record. -/
def values : Visit row → List row
  | decoded rows _ => rows
  | _ => []

/-- The diagnostics of a record. -/
def diagnostics : Visit row → List StringDiagnostic
  | kept diagnostic => [diagnostic]
  | _ => []

/-- The bytes that a record adds to its batch. -/
def bytes : Visit row → Nat
  | decoded _ size => size
  | _ => 0

/-- The error of a record that ends the extraction. -/
def error : Visit row → Option FfiError
  | fatal error => some error
  | _ => none

end Visit

/-- The strings of a list of records. -/
structure Extraction (row : Type) where
  /-- The values up to the first fatal record. -/
  values : List row
  /-- The diagnostics up to there. -/
  diagnostics : List StringDiagnostic
  /-- The error of the first fatal record. -/
  error : Option FfiError

/-- Visit one record after another up to the first fatal one. -/
def Extraction.of {row : Type} (visit : Record → Visit row) : List Record → Extraction row
  | [] => ⟨[], [], none⟩
  | record :: records =>
    match (visit record).error with
    | some error => ⟨[], [], some error⟩
    | none =>
      let rest := Extraction.of visit records
      ⟨(visit record).values ++ rest.values, (visit record).diagnostics ++ rest.diagnostics,
        rest.error⟩

namespace StringCursor

variable {row : Type}

/-- What a cursor with the flags of this one makes of a record. -/
def visit (decoder : StringDecoder row) (plugin : Plugin) (cursor : StringCursor)
    (record : Record) : Visit row :=
  let textFree := cursor.textFree.contains record.header.signature
  if textFree && !cursor.validateNontext then .skipped
  else
    match decoder.stringRows record plugin.isLocalized textFree with
    | .ok rows => .decoded rows record.uncompressedDataSize
    | .error error =>
      if textFree && cursor.preserveOpaqueNontext then .kept (diagnosticOf decoder record error)
      else .fatal error

/-- The two ways of creating a cursor. -/
inductive Opening where
  /-- With or without decoding the records that have no text. -/
  | plain (validateNontext : Bool)
  /-- Keeping records without text that cannot be decoded. -/
  | preserving

/-- The cursor that is created. -/
def Opening.cursor (decoder : StringDecoder row) : Opening → StringCursor
  | .plain validateNontext => new decoder validateNontext
  | .preserving => newPreservingNontext decoder

/-- The records are cut into consecutive blocks. Every batch has the strings of its block, an error
comes from the record behind everything delivered, and all calls after it are refused. -/
inductive Delivery (visit : Record → Visit row) :
    List Record → List (Except FfiError (StringBatch row)) → Prop where
  /-- No more calls. -/
  | stopped (records : List Record) : Delivery visit records []
  /-- A batch, the last one being done. -/
  | batch {block rest : List Record} {batch : StringBatch row}
      {results : List (Except FfiError (StringBatch row))}
      (harmless : ∀ record ∈ block, (visit record).error = none)
      (values : batch.values = block.flatMap fun record => (visit record).values)
      (diagnostics : batch.diagnostics = block.flatMap fun record => (visit record).diagnostics)
      (done : batch.done → rest = []) (later : Delivery visit rest results) :
      Delivery visit (block ++ rest) (.ok batch :: results)
  /-- The error of the first fatal record, with nothing left to deliver before it. -/
  | failed {block rest : List Record} {record : Record} {error : FfiError}
      {results : List (Except FfiError (StringBatch row))}
      (harmless : ∀ record ∈ block, (visit record).error = none)
      (values : (block.flatMap fun record => (visit record).values) = [])
      (diagnostics : (block.flatMap fun record => (visit record).diagnostics) = [])
      (fatal : (visit record).error = some error)
      (later : ∀ result ∈ results, result = .error refused) :
      Delivery visit (block ++ record :: rest) (.error error :: results)

/-- The values of all batches. -/
def valuesOf (results : List (Except FfiError (StringBatch row))) : List row :=
  results.flatMap fun result => (result.toOption.map StringBatch.values).getD []

/-- The diagnostics of all batches. -/
def diagnosticsOf (results : List (Except FfiError (StringBatch row))) : List StringDiagnostic :=
  results.flatMap fun result => (result.toOption.map StringBatch.diagnostics).getD []

/-- The first error. -/
def errorOf (results : List (Except FfiError (StringBatch row))) : Option FfiError :=
  results.findSome? fun
    | .error error => some error
    | .ok _ => none

/-- Some call reported that it is done, or an error. -/
def Ended (results : List (Except FfiError (StringBatch row))) : Prop :=
  ∃ result ∈ results, ∀ batch, result = .ok batch → batch.done

/-- The calls hand out what the extraction record by record gives. -/
structure Faithful (decoder : StringDecoder row) (plugin : Plugin) (cursor : StringCursor)
    (limits : List Nat) : Prop where
  /-- No record is skipped or visited twice, and the error comes once and last. -/
  delivery : Delivery (cursor.visit decoder plugin) plugin.records
    (cursor.calls decoder plugin limits)
  /-- Once the calls ended, the values are those of the extraction. -/
  values : Ended (cursor.calls decoder plugin limits) →
    valuesOf (cursor.calls decoder plugin limits) =
      (Extraction.of (cursor.visit decoder plugin) plugin.records).values
  /-- And so are the diagnostics. -/
  diagnostics : Ended (cursor.calls decoder plugin limits) →
    diagnosticsOf (cursor.calls decoder plugin limits) =
      (Extraction.of (cursor.visit decoder plugin) plugin.records).diagnostics
  /-- And so is the error. -/
  error : Ended (cursor.calls decoder plugin limits) →
    errorOf (cursor.calls decoder plugin limits) =
      (Extraction.of (cursor.visit decoder plugin) plugin.records).error
  /-- One call more than there are records is enough. -/
  ends : plugin.records.length < limits.length → Ended (cursor.calls decoder plugin limits)

/-- The records that a cursor has ahead. -/
def remaining (plugin : Plugin) (cursor : StringCursor) : List Record :=
  RoseTree.ahead (cursor.stack plugin)

/-- A batch of at most so many records reaches a fatal one behind records without values, one of
which is kept as opaque source. -/
def LosesDiagnostic (visit : Record → Visit row) (records : List Record) (limit : Nat) : Prop :=
  ∃ block fatalRecord after, records = block ++ fatalRecord :: after ∧
    (∀ record ∈ block, (visit record).error = none ∧ (visit record).values = []) ∧
    (∃ record ∈ block, (visit record).diagnostics ≠ []) ∧ (visit fatalRecord).error ≠ none ∧
    block.length < limit ∧ (block.map fun record => (visit record).bytes).sum < BYTE_LIMIT

/-- No call of the run loses a diagnostic; a failed cursor has none to lose. -/
def SafeRun (decoder : StringDecoder row) (plugin : Plugin) : List Nat → StringCursor → Prop
  | [], _ => True
  | limit :: limits, cursor =>
    (cursor.failed = false →
      ¬ LosesDiagnostic (cursor.visit decoder plugin) (cursor.remaining plugin) limit) ∧
    SafeRun decoder plugin limits (cursor.nextJson decoder plugin limit).2

/-- No batch that starts at a record before the first fatal one loses a diagnostic. -/
def KeepsDiagnostics (visit : Record → Visit row) (records : List Record) : Prop :=
  ∀ before rest, records = before ++ rest → (∀ record ∈ before, (visit record).error = none) →
    ¬ LosesDiagnostic visit rest 256

end StringCursor

end Bethkit
