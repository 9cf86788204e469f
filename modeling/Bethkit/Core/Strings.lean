import Bethkit.Core.Cursor
import Bethkit.Lib.Reader

/-!
# Localisation string tables

Reader, editor and writer of `.STRINGS`, `.DLSTRINGS` and `.ILSTRINGS` files. A payload that the
source borrows from a mapped file and a payload that it owns are both their bytes. Editing
operations take a table and return the one that they leave behind.
-/

namespace Bethkit

open Lib

/-- The largest 32-bit identifier. -/
def u32Max : UInt32 := 0xFFFFFFFF

/-- `saturating_add(1)` on an identifier. -/
def u32SaturatingSucc (id : UInt32) : UInt32 := if id = u32Max then u32Max else id + 1

/-- Which of the three string-table formats applies. -/
inductive StringFileKind where
  /-- Payloads are NUL-terminated. -/
  | strings
  /-- Payloads are length-prefixed, the length including the NUL. -/
  | dlStrings
  /-- The layout of `dlStrings`, for voiced dialogue. -/
  | ilStrings
deriving DecidableEq

/-- Whether payloads are length-prefixed. -/
def StringFileKind.isLengthPrefixed : StringFileKind → Bool
  | .dlStrings | .ilStrings => true
  | .strings => false

/-- A parsed string table. -/
structure StringTable where
  /-- The format. -/
  kind : StringFileKind
  /-- Payloads by identifier, without the trailing NUL. -/
  entries : Std.TreeMap UInt32 Bytes
  /-- Where the allocation of identifiers goes on. -/
  nextId : UInt32

/-- One identifier and offset of a directory. -/
def readDirectoryEntry : Reader IoError (UInt32 × UInt32) := do
  let id ← SliceCursor.readU32
  let offset ← SliceCursor.readU32
  pure (id, offset)

/-- The identifiers and offsets at the front of a file. -/
def parseDirectory (bytes : Bytes) : Except CoreError (List (UInt32 × UInt32)) :=
  if bytes.length < 8 then .error (.invalidStringTable "file shorter than 8-byte header")
  else do
    let (count, cursor) ← io SliceCursor.readU32 (SliceCursor.new bytes)
    let (_, cursor) ← io SliceCursor.readU32 cursor
    if bytes.length < 8 + count.toNat * 8 then
      .error (.invalidStringTable "directory exceeds file size")
    else do
      let (directory, _) ← io (readDirectoryEntry.times count.toNat) cursor
      .ok directory

/-- One payload, without its trailing NUL. -/
def readPayload (bytes : Bytes) (start : Nat) (kind : StringFileKind) : Except CoreError Bytes :=
  if bytes.length ≤ start then .error (.invalidStringTable "payload offset out of range")
  else if kind.isLengthPrefixed then
    if bytes.length < start + 4 then .error (.invalidStringTable "truncated length prefix")
    else
      let length := u32FromLeBytes (bytes.slice start (start + 4))
      if length = 0 then .ok []
      else if bytes.length < start + 4 + length.toNat then
        .error (.invalidStringTable "payload exceeds file")
      else .ok (bytes.slice (start + 4) (start + 4 + length.toNat - 1))
  else
    let payload := (bytes.drop start).takeWhile (· != 0)
    if bytes.length ≤ start + payload.length then .error (.invalidStringTable "zstring missing NUL")
    else .ok payload

namespace StringTable

/-- An empty table. -/
def new (kind : StringFileKind) : StringTable := ⟨kind, ∅, 1⟩

/-- Insert or replace an entry. -/
def insert (table : StringTable) (id : UInt32) (payload : Bytes) : StringTable :=
  { table with
    entries := table.entries.insert id payload
    nextId := if table.nextId < u32SaturatingSucc id then u32SaturatingSucc id else table.nextId }

/-- Parse a table. -/
def fromBytes (bytes : Bytes) (kind : StringFileKind) : Except CoreError StringTable := do
  let directory ← parseDirectory bytes
  let blobStart := 8 + directory.length * 8
  directory.foldlM (fun table entry => do
    let payload ← readPayload bytes (blobStart + entry.2.toNat) kind
    .ok (table.insert entry.1 payload)) (new kind)

/-- The search for the lowest unused identifier from `id` on, over the keys in ascending order. -/
def lowestUnused : List UInt32 → UInt32 → Except CoreError UInt32
  | [], id => .ok id
  | existing :: keys, id =>
    if existing < id then lowestUnused keys id
    else if id < existing then .ok id
    else if id = u32Max then .error (.invalidStringTable "string identifier space exhausted")
    else lowestUnused keys (id + 1)

/-- Insert a payload under a fresh nonzero identifier. -/
def tryInsertNew (table : StringTable) (payload : Bytes) :
    Except CoreError UInt32 × StringTable :=
  let id := max table.nextId 1
  let found := if table.entries.contains id then lowestUnused table.entries.keys 1 else .ok id
  match found with
  | .ok id => (.ok id, table.insert id payload)
  | .error error => (.error error, table)

/-- Remove an entry; its payload if it existed. -/
def remove (table : StringTable) (id : UInt32) : Option Bytes × StringTable :=
  (table.entries[id]?, { table with entries := table.entries.erase id })

/-- A payload as the blob holds it. -/
def framePayload (kind : StringFileKind) (payload : Bytes) : Bytes :=
  (if kind.isLengthPrefixed then u32ToLeBytes (UInt32.ofNat payload.length + 1) else []) ++
    payload ++ [0]

/-- Serialise a table. The directory and the blob grow together, entry by entry. -/
def writeTo (table : StringTable) : Bytes :=
  let written := table.entries.toList.foldl (fun written entry =>
    (written.1 ++ u32ToLeBytes entry.1 ++ u32ToLeBytes (UInt32.ofNat written.2.length),
      written.2 ++ framePayload table.kind entry.2)) ([], [])
  u32ToLeBytes (UInt32.ofNat table.entries.size) ++
    u32ToLeBytes (UInt32.ofNat written.2.length) ++ written.1 ++ written.2

end StringTable

end Bethkit
