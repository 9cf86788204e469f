import Bethkit.Core.Strings
import Bethkit.Lib.Outcome

/-!
# Editing a string table

Runs of editing operations on a table that was created or loaded, and what such a run does to the
identifiers and payloads.
-/

namespace Bethkit

/-- An editing operation of a string table. -/
inductive StringOp where
  /-- Insert or replace an entry. -/
  | insert (id : UInt32) (payload : Bytes)
  /-- Insert a payload under a fresh identifier. -/
  | tryInsertNew (payload : Bytes)
  /-- Remove an entry. -/
  | remove (id : UInt32)

/-- The payload that an operation stores. -/
def StringOp.payload : StringOp → Option Bytes
  | insert _ payload | tryInsertNew payload => some payload
  | remove _ => none

namespace StringTable

/-- A table before any edit: a new one, or one that a file holds. -/
def Initial (table : StringTable) : Prop :=
  (∃ kind, table = new kind) ∨ ∃ bytes kind, fromBytes bytes kind = .ok table

/-- The table that an operation leaves behind. -/
def apply (table : StringTable) : StringOp → StringTable
  | .insert id payload => table.insert id payload
  | .tryInsertNew payload => (table.tryInsertNew payload).2
  | .remove id => (table.remove id).2

/-- The table that a run of operations leaves behind. -/
def run (table : StringTable) (ops : List StringOp) : StringTable := ops.foldl apply table

/-- An identifier that was present at some time of a run. -/
def EverPresent (table : StringTable) (ops : List StringOp) (id : UInt32) : Prop :=
  ∃ before, before <+: ops ∧ id ∈ (table.run before).entries

/-- A payload that the format can hold: a NUL ends a NUL-terminated one. -/
def Storable (kind : StringFileKind) (payload : Bytes) : Prop :=
  kind.isLengthPrefixed = false → 0 ∉ payload

/-- The payloads of a table as they stand in its file, one behind the other. -/
def blob (table : StringTable) : Bytes :=
  table.entries.toList.flatMap fun entry => framePayload table.kind entry.2

end StringTable

end Bethkit

/-!
## Identifiers of string tables

The allocation of identifiers: the search for the lowest gap, and the high-water mark that every
run of edits keeps above all identifiers that were ever present.
-/

namespace Bethkit

open Lib

/-- Every identifier is at most the largest one. -/
theorem le_u32Max (id : UInt32) : id ≤ u32Max := by
  rw [UInt32.le_iff_toNat_le]
  exact Nat.le_of_lt_succ id.toNat_lt

/-- The successor of an identifier below the largest one. -/
theorem toNat_succ {id : UInt32} (below : id ≠ u32Max) : (id + 1).toNat = id.toNat + 1 := by
  have bound : id.toNat ≠ 4294967295 := fun same => below (UInt32.toNat_inj.mp same)
  have small := id.toNat_lt
  rw [UInt32.toNat_add]
  exact Nat.mod_eq_of_lt (by show id.toNat + 1 < 4294967296; omega)

namespace StringTable

/-- The search yields the lowest identifier from a start on that is not among the keys. -/
theorem lowestUnused_ok {keys : List UInt32} (ascending : keys.Pairwise (· < ·)) {id found : UInt32}
    (search : lowestUnused keys id = .ok found) :
    id ≤ found ∧ found ∉ keys ∧ ∀ other, id ≤ other → other < found → other ∈ keys := by
  induction keys generalizing id with
  | nil =>
    obtain rfl := Except.ok.inj search
    exact ⟨UInt32.le_refl _, List.not_mem_nil, fun other from_ below =>
      absurd (UInt32.lt_of_lt_of_le below from_) (UInt32.lt_irrefl _)⟩
  | cons existing keys rest =>
    obtain ⟨first, later⟩ := List.pairwise_cons.mp ascending
    rw [lowestUnused] at search
    split at search
    case isTrue low =>
      obtain ⟨from_, unused, gaps⟩ := rest later search
      refine ⟨from_, ?_, fun other above below => .tail _ (gaps other above below)⟩
      rw [List.mem_cons, not_or]
      exact ⟨fun same => UInt32.lt_irrefl _ (UInt32.lt_of_lt_of_le (same ▸ low) from_), unused⟩
    split at search
    case isTrue high =>
      obtain rfl := Except.ok.inj search
      refine ⟨UInt32.le_refl _, ?_, fun other from_ below =>
        absurd (UInt32.lt_of_lt_of_le below from_) (UInt32.lt_irrefl _)⟩
      rw [List.mem_cons, not_or]
      exact ⟨fun same => UInt32.lt_irrefl _ (same ▸ high), fun member =>
        UInt32.lt_irrefl _ (UInt32.lt_trans high (first _ member))⟩
    case isFalse notLow notHigh =>
      obtain rfl : existing = id :=
        UInt32.le_antisymm (UInt32.not_lt.mp notHigh) (UInt32.not_lt.mp notLow)
      split at search
      case isTrue => cases search
      case isFalse below =>
        have next := toNat_succ below
        obtain ⟨from_, unused, gaps⟩ := rest later search
        rw [UInt32.le_iff_toNat_le, next] at from_
        refine ⟨by rw [UInt32.le_iff_toNat_le]; omega, ?_, fun other above under => ?_⟩
        · rw [List.mem_cons, not_or]
          refine ⟨fun same => ?_, unused⟩
          rw [same] at from_
          omega
        · by_cases same : other = existing
          · exact same ▸ List.mem_cons_self
          · have apart : other.toNat ≠ existing.toNat := fun equal => same (UInt32.toNat_inj.mp equal)
            rw [UInt32.le_iff_toNat_le] at above
            exact .tail _ (gaps other (by rw [UInt32.le_iff_toNat_le, next]; omega) under)

/-- The search fails only if every identifier from its start on is a key. -/
theorem lowestUnused_error {keys : List UInt32} {id : UInt32} {error : CoreError}
    (search : lowestUnused keys id = .error error) : ∀ other, id ≤ other → other ∈ keys := by
  induction keys generalizing id with
  | nil => cases search
  | cons existing keys rest =>
    intro other above
    rw [lowestUnused] at search
    split at search
    case isTrue => exact .tail _ (rest search other above)
    split at search
    case isTrue => cases search
    case isFalse notLow notHigh =>
      obtain rfl : existing = id :=
        UInt32.le_antisymm (UInt32.not_lt.mp notHigh) (UInt32.not_lt.mp notLow)
      by_cases same : other = existing
      · exact same ▸ List.mem_cons_self
      · have apart : other.toNat ≠ existing.toNat := fun equal => same (UInt32.toNat_inj.mp equal)
        rw [UInt32.le_iff_toNat_le] at above
        split at search
        case isTrue last =>
          have bound := le_u32Max other
          rw [UInt32.le_iff_toNat_le, ← last] at bound
          omega
        case isFalse below =>
          have next := toNat_succ below
          exact .tail _ (rest search other (by rw [UInt32.le_iff_toNat_le, next]; omega))

/-- An inserted entry is the only one that changes. -/
theorem getElem?_insert (table : StringTable) (id other : UInt32) (payload : Bytes) :
    (table.insert id payload).entries[other]? =
      if id = other then some payload else table.entries[other]? := by
  show (table.entries.insert id payload)[other]? = _
  rw [Std.TreeMap.getElem?_insert]
  simp only [Std.LawfulEqOrd.compare_eq_iff_eq]

/-- The keys of a table are in ascending order. -/
theorem keys_ascending (table : StringTable) : table.entries.keys.Pairwise (· < ·) :=
  Std.TreeMap.ordered_keys.imp Std.compare_eq_lt.mp

/-- An identifier is at most zero only if it is zero. -/
theorem one_le_of_ne_zero {id : UInt32} (nonzero : id ≠ 0) : 1 ≤ id := by
  have positive : id.toNat ≠ 0 := fun same => nonzero (UInt32.toNat_inj.mp same)
  rw [UInt32.le_iff_toNat_le]
  exact Nat.one_le_iff_ne_zero.mpr positive

/-- The larger of two identifiers. -/
theorem le_max_left_right (left right : UInt32) : left ≤ max left right ∧ right ≤ max left right := by
  show left ≤ (if left ≤ right then right else left) ∧ right ≤ if left ≤ right then right else left
  split
  case isTrue lower => exact ⟨lower, UInt32.le_refl _⟩
  case isFalse higher => exact ⟨UInt32.le_refl _, UInt32.le_of_lt (UInt32.not_le.mp higher)⟩

/-- What an allocation does when it succeeds. -/
theorem tryInsertNew_ok {table after : StringTable} {payload : Bytes} {id : UInt32}
    (allocated : table.tryInsertNew payload = (.ok id, after)) :
    after = table.insert id payload ∧ 1 ≤ id ∧ id ∉ table.entries ∧
      (table.nextId ∉ table.entries → table.nextId ≤ id) := by
  rw [tryInsertNew] at allocated
  split at allocated
  case h_2 => cases (Prod.mk.inj allocated).1
  case h_1 found search =>
    obtain ⟨same, rfl⟩ := Prod.mk.inj allocated
    obtain rfl := Except.ok.inj same
    refine ⟨rfl, ?_⟩
    split at search
    case isTrue occupied =>
      obtain ⟨positive, unused, _⟩ := lowestUnused_ok table.keys_ascending search
      refine ⟨positive, fun present => unused (Std.TreeMap.mem_keys.mpr present), fun free => ?_⟩
      have low : table.nextId ≤ 1 := by
        by_contra high
        have same : max table.nextId 1 = table.nextId := if_neg high
        rw [same] at occupied
        exact free (Std.TreeMap.contains_iff_mem.mp occupied)
      exact UInt32.le_trans low positive
    case isFalse free =>
      obtain rfl := Except.ok.inj search
      exact ⟨(le_max_left_right _ _).2, fun present =>
        free (Std.TreeMap.contains_iff_mem.mpr present), fun _ => (le_max_left_right _ _).1⟩

/-- What an allocation does when it fails. -/
theorem tryInsertNew_error {table after : StringTable} {payload : Bytes} {error : CoreError}
    (failed : table.tryInsertNew payload = (.error error, after)) :
    after = table ∧ ∀ id, id ≠ 0 → id ∈ table.entries := by
  rw [tryInsertNew] at failed
  split at failed
  case h_1 => cases (Prod.mk.inj failed).1
  case h_2 cause search =>
    obtain ⟨_, rfl⟩ := Prod.mk.inj failed
    refine ⟨rfl, fun id nonzero => ?_⟩
    split at search
    case isTrue =>
      exact Std.TreeMap.mem_keys.mp (lowestUnused_error search id (one_le_of_ne_zero nonzero))
    case isFalse => cases search

/-- The high-water mark of a table lies above an identifier, or at its limit. -/
def Marks (table : StringTable) (id : UInt32) : Prop := table.nextId = u32Max ∨ id < table.nextId

/-- A higher mark marks the same identifiers. -/
theorem Marks.mono {table later : StringTable} {id : UInt32} (marks : table.Marks id)
    (higher : table.nextId ≤ later.nextId) : later.Marks id := by
  rcases marks with limit | below
  · exact .inl (UInt32.le_antisymm (le_u32Max _) (limit ▸ higher))
  · exact .inr (UInt32.lt_of_lt_of_le below higher)

/-- An insertion raises the mark. -/
theorem nextId_le_insert (table : StringTable) (id : UInt32) (payload : Bytes) :
    table.nextId ≤ (table.insert id payload).nextId := by
  show _ ≤ if table.nextId < u32SaturatingSucc id then u32SaturatingSucc id else table.nextId
  split
  case isTrue lower => exact UInt32.le_of_lt lower
  case isFalse => exact UInt32.le_refl _

/-- An inserted identifier is marked. -/
theorem marks_insert (table : StringTable) (id : UInt32) (payload : Bytes) :
    (table.insert id payload).Marks id := by
  have above : u32SaturatingSucc id ≤ (table.insert id payload).nextId := by
    show _ ≤ if table.nextId < u32SaturatingSucc id then u32SaturatingSucc id else table.nextId
    split
    case isTrue => exact UInt32.le_refl _
    case isFalse notLower => exact UInt32.not_lt.mp notLower
  by_cases last : id = u32Max
  · rw [u32SaturatingSucc, if_pos last] at above
    exact .inl (UInt32.le_antisymm (le_u32Max _) above)
  · rw [u32SaturatingSucc, if_neg last, UInt32.le_iff_toNat_le, toNat_succ last] at above
    exact .inr (by rw [UInt32.lt_iff_toNat_lt]; omega)

/-- Every identifier of a table is marked. -/
def Marked (table : StringTable) : Prop := ∀ id ∈ table.entries, table.Marks id

/-- An insertion marks its identifier. -/
theorem Marked.insert {table : StringTable} (marked : table.Marked) (id : UInt32)
    (payload : Bytes) : (table.insert id payload).Marked := by
  intro other present
  by_cases same : id = other
  · exact same ▸ marks_insert table id payload
  · rw [Std.TreeMap.mem_iff_isSome_getElem?, getElem?_insert, if_neg same,
      ← Std.TreeMap.mem_iff_isSome_getElem?] at present
    exact (marked other present).mono (nextId_le_insert table id payload)

/-- One operation keeps all identifiers marked, and never lowers the mark. -/
theorem Marked.apply {table : StringTable} (marked : table.Marked) (op : StringOp) :
    (table.apply op).Marked ∧ table.nextId ≤ (table.apply op).nextId := by
  cases op with
  | insert id payload => exact ⟨marked.insert id payload, nextId_le_insert table id payload⟩
  | tryInsertNew payload =>
    cases allocated : table.tryInsertNew payload with
    | mk outcome after =>
      have same : table.apply (.tryInsertNew payload) = after := congrArg Prod.snd allocated
      rw [same]
      cases outcome with
      | ok id =>
        obtain ⟨rfl, _⟩ := tryInsertNew_ok allocated
        exact ⟨marked.insert id payload, nextId_le_insert table id payload⟩
      | error error =>
        obtain ⟨rfl, _⟩ := tryInsertNew_error allocated
        exact ⟨marked, UInt32.le_refl _⟩
  | remove id =>
    refine ⟨fun other present => ?_, UInt32.le_refl _⟩
    exact marked other (Std.TreeMap.mem_of_mem_erase present)

/-- A run keeps all identifiers marked, and never lowers the mark. -/
theorem Marked.run {table : StringTable} (marked : table.Marked) (ops : List StringOp) :
    (table.run ops).Marked ∧ table.nextId ≤ (table.run ops).nextId := by
  induction ops generalizing table with
  | nil => exact ⟨marked, UInt32.le_refl _⟩
  | cons op ops more =>
    obtain ⟨kept, higher⟩ := marked.apply op
    obtain ⟨all, highest⟩ := more kept
    exact ⟨all, UInt32.le_trans higher highest⟩

/-- A table that was created or loaded has all its identifiers marked. -/
theorem Initial.marked {table : StringTable} (initial : table.Initial) : table.Marked := by
  rcases initial with ⟨kind, rfl⟩ | ⟨bytes, kind, parsed⟩
  · exact fun id present => absurd present Std.TreeMap.not_mem_emptyc
  · rw [fromBytes, bind_eq_ok] at parsed
    obtain ⟨directory, _, parsed⟩ := parsed
    have start : (new kind).Marked := fun id present => absurd present Std.TreeMap.not_mem_emptyc
    have step {before after : StringTable} {entry : UInt32 × UInt32} (inserted :
        (readPayload bytes (8 + directory.length * 8 + entry.2.toNat) kind >>= fun payload =>
          (.ok (before.insert entry.1 payload) : Except CoreError StringTable)) = .ok after)
        (marked : before.Marked) : after.Marked := by
      obtain ⟨payload, _, inserted⟩ := bind_eq_ok.mp inserted
      obtain rfl := Except.ok.inj inserted
      exact marked.insert entry.1 payload
    exact @foldlM_preserves _ _ _ _ (fun before after => before.Marked → after.Marked)
      (fun _ => id) (fun first second start => second (first start)) _ _ _
      (fun _ _ _ _ inserted => step inserted) parsed start

/-- Every identifier that was ever present stays marked. -/
theorem EverPresent.marks {table : StringTable} {ops : List StringOp} {id : UInt32}
    (present : table.EverPresent ops id) (initial : table.Initial) : (table.run ops).Marks id := by
  obtain ⟨before, ⟨after, rfl⟩, present⟩ := present
  have early := (initial.marked.run before).1
  have late := early.run after
  rw [run, List.foldl_append]
  exact (early id present).mono late.2

/-- In any run of edits, an allocation yields a fresh nonzero identifier, above all that were ever
present unless the counter is at its limit; it fails only if there is none. -/
theorem tryInsertNew_fresh (start : StringTable) (initial : start.Initial) (ops : List StringOp)
    (payload : Bytes) :
    (∀ id after, (start.run ops).tryInsertNew payload = (.ok id, after) →
      id ≠ 0 ∧ id ∉ (start.run ops).entries ∧ after.entries[id]? = some payload ∧
      (∀ other, other ≠ id → after.entries[other]? = (start.run ops).entries[other]?) ∧
      ((start.run ops).nextId ≠ u32Max → ∀ old, start.EverPresent ops old → old < id)) ∧
    ∀ error after, (start.run ops).tryInsertNew payload = (.error error, after) →
      after = start.run ops ∧ ∀ id, id ≠ 0 → id ∈ (start.run ops).entries := by
  refine ⟨fun id after allocated => ?_, fun error after failed => tryInsertNew_error failed⟩
  obtain ⟨rfl, positive, unused, above⟩ := tryInsertNew_ok allocated
  refine ⟨?_, unused, ?_, fun other apart => ?_, fun notLimit old present => ?_⟩
  · rintro rfl
    exact absurd positive (by decide)
  · rw [getElem?_insert, if_pos rfl]
  · rw [getElem?_insert, if_neg (Ne.symm apart)]
  · have below := (present.marks initial).resolve_left notLimit
    have free : (start.run ops).nextId ∉ (start.run ops).entries := fun occupied =>
      UInt32.lt_irrefl _ ((((initial.marked.run ops).1 _ occupied)).resolve_left notLimit)
    exact UInt32.lt_of_lt_of_le below (above free)

/-- With the largest identifier taken, the allocation falls back to the lowest gap. -/
theorem tryInsertNew_fresh_gap :
    let table := (new .strings).run [.insert 1 [65], .insert u32Max [66]]
    ∃ after, table.tryInsertNew [67] = (.ok 2, after) ∧ (2 : UInt32) ∉ table.entries ∧
      after.entries[(2 : UInt32)]? = some [67] := by
  have found := tryInsertNew_fresh (new .strings) (.inl ⟨.strings, rfl⟩)
    [.insert 1 [65], .insert u32Max [66]] [67]
  obtain ⟨_, unused, stored, _⟩ := found.1 2 _ rfl
  exact ⟨_, rfl, unused, stored⟩

end StringTable

end Bethkit
