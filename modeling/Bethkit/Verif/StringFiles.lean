import Bethkit.Lib.Filling
import Bethkit.Verif.StringIds

/-!
# String table files

What a string table writes, and what is read back from it. The directory and the blob of a written
file are those of the entries in ascending order; every payload is read back from the place where
it was written, provided that the place can be stored in 32 bits.
-/

namespace Bethkit

open Lib

/-- One identifier and offset in their bytes. -/
def directoryEntryBytes (entry : UInt32 × UInt32) : Bytes :=
  u32ToLeBytes entry.1 ++ u32ToLeBytes entry.2

/-- A directory entry is read from exactly its bytes. -/
theorem exact_readDirectoryEntry :
    readDirectoryEntry.Exact fun _ bytes entry => bytes = directoryEntryBytes entry := by
  refine (SliceCursor.exact_readU32.bind fun id => SliceCursor.exact_readU32.bind fun offset =>
    Reader.exact_pure (id, offset)).congr fun start bytes entry => ?_
  constructor
  · rintro ⟨_, _, id, rfl, rfl, _, _, offset, rfl, rfl, rfl, rfl⟩
    simp [directoryEntryBytes]
  · rintro rfl
    exact ⟨_, _, entry.1, rfl, rfl, _, [], entry.2, by simp, rfl, rfl, rfl⟩

/-- A directory entry takes eight bytes. -/
theorem length_flatMap_directoryEntryBytes (directory : List (UInt32 × UInt32)) :
    (directory.flatMap directoryEntryBytes).length = directory.length * 8 := by
  induction directory with
  | nil => rfl
  | cons entry directory rest =>
    rw [List.flatMap_cons, List.length_append, rest, List.length_cons, directoryEntryBytes,
      List.length_append, length_u32ToLeBytes, length_u32ToLeBytes]
    omega

/-- A string table file with a directory and a blob. -/
def stringFile (size : UInt32) (directory : List (UInt32 × UInt32)) (blob : Bytes) : Bytes :=
  u32ToLeBytes (UInt32.ofNat directory.length) ++ u32ToLeBytes size ++
    directory.flatMap directoryEntryBytes ++ blob

/-- The bytes before the blob. -/
theorem length_stringFile_header (size : UInt32) (directory : List (UInt32 × UInt32)) :
    (u32ToLeBytes (UInt32.ofNat directory.length) ++ u32ToLeBytes size ++
      directory.flatMap directoryEntryBytes).length = 8 + directory.length * 8 := by
  rw [List.length_append, List.length_append, length_u32ToLeBytes, length_u32ToLeBytes,
    length_flatMap_directoryEntryBytes]

/-- The directory of a file is read back. -/
theorem parseDirectory_stringFile (size : UInt32) {directory : List (UInt32 × UInt32)}
    (bounded : directory.length < 2 ^ 32) (blob : Bytes) :
    parseDirectory (stringFile size directory blob) = .ok directory := by
  have long : (stringFile size directory blob).length =
      8 + directory.length * 8 + blob.length := by
    rw [stringFile, List.length_append, length_stringFile_header]
  have counted : (UInt32.ofNat directory.length).toNat = directory.length := by
    rw [UInt32.toNat_ofNat']
    exact Nat.mod_eq_of_lt bounded
  have first := (exact_io SliceCursor.exact_readU32).complete []
    (u32ToLeBytes (UInt32.ofNat directory.length))
    (u32ToLeBytes size ++ (directory.flatMap directoryEntryBytes ++ blob)) _ rfl
  have second := (exact_io SliceCursor.exact_readU32).complete
    (u32ToLeBytes (UInt32.ofNat directory.length)) (u32ToLeBytes size)
    (directory.flatMap directoryEntryBytes ++ blob) _ rfl
  have third := (exact_io (exact_readDirectoryEntry.times directory.length)).complete
    (u32ToLeBytes (UInt32.ofNat directory.length) ++ u32ToLeBytes size)
    (directory.flatMap directoryEntryBytes) blob directory ⟨rfl, rfl⟩
  rw [parseDirectory, if_neg (by omega)]
  simp only [stringFile, SliceCursor.new, List.append_assoc, List.length_append,
    length_u32ToLeBytes, List.nil_append, List.length_nil, Nat.zero_add] at first second third long ⊢
  rw [first, ok_bind]
  simp only
  rw [second, ok_bind]
  simp only
  rw [counted, if_neg (by omega), third]
  rfl

/-- A framed payload is read back from where it stands. -/
theorem readPayload_framePayload {kind : StringFileKind} {payload : Bytes}
    (storable : StringTable.Storable kind payload) (short : payload.length + 1 < 2 ^ 32)
    (before after : Bytes) :
    readPayload (before ++ (StringTable.framePayload kind payload ++ after)) before.length kind =
      .ok payload := by
  rw [StringTable.framePayload]
  cases prefixed : kind.isLengthPrefixed with
  | true =>
    have word : UInt32.ofNat payload.length + 1 = UInt32.ofNat (payload.length + 1) := by
      rw [UInt32.ofNat_add]
      rfl
    have length : (UInt32.ofNat (payload.length + 1)).toNat = payload.length + 1 := by
      rw [UInt32.toNat_ofNat']
      exact Nat.mod_eq_of_lt short
    have first : Bytes.slice (before ++ (u32ToLeBytes (UInt32.ofNat payload.length + 1) ++
        (payload ++ (0 :: after)))) before.length (before.length + 4) =
          u32ToLeBytes (UInt32.ofNat payload.length + 1) := by
      have sliced := Bytes.slice_append before (u32ToLeBytes (UInt32.ofNat payload.length + 1))
        (payload ++ (0 :: after))
      rwa [length_u32ToLeBytes] at sliced
    have inner : Bytes.slice (before ++ (u32ToLeBytes (UInt32.ofNat payload.length + 1) ++
        (payload ++ (0 :: after)))) (before.length + 4)
          (before.length + 4 + (payload.length + 1) - 1) = payload := by
      have sliced := Bytes.slice_append
        (before ++ u32ToLeBytes (UInt32.ofNat payload.length + 1)) payload (0 :: after)
      rw [List.append_assoc, List.length_append, length_u32ToLeBytes] at sliced
      rwa [← Nat.add_assoc, Nat.add_sub_cancel]
    have nonzero : UInt32.ofNat (payload.length + 1) ≠ 0 := by
      intro zero
      rw [zero] at length
      cases length
    rw [if_pos rfl]
    simp only [List.append_assoc, List.singleton_append]
    rw [readPayload, if_neg (by simp), prefixed, if_pos rfl, if_neg (by simp), first]
    simp only [u32FromLeBytes_toLeBytes, word, if_neg nonzero, length]
    rw [word] at inner
    rw [if_neg (by simp; omega), inner]
  | false =>
    have visible := storable prefixed
    have taken : (payload ++ (0 :: after)).takeWhile (· != 0) = payload := by
      have nonzero (byte : UInt8) (member : byte ∈ payload) : (byte != 0) = true :=
        bne_iff_ne.mpr fun zero => visible (zero ▸ member)
      rw [List.takeWhile_append_of_pos nonzero]
      simp
    rw [if_neg Bool.false_ne_true]
    simp only [List.nil_append, List.append_assoc, List.singleton_append]
    rw [readPayload, if_neg (by simp), prefixed, if_neg Bool.false_ne_true]
    simp only [List.drop_left, taken]
    rw [if_neg (by simp)]

/-- A payload is read back from its place in the blob of a file. -/
theorem readPayload_stringFile (size : UInt32) (directory : List (UInt32 × UInt32))
    {kind : StringFileKind} {payload : Bytes} (storable : StringTable.Storable kind payload)
    (short : payload.length + 1 < 2 ^ 32) (front after : Bytes) :
    readPayload (stringFile size directory
      (front ++ (StringTable.framePayload kind payload ++ after)))
        (8 + directory.length * 8 + front.length) kind = .ok payload := by
  have read := readPayload_framePayload storable short
    (u32ToLeBytes (UInt32.ofNat directory.length) ++ u32ToLeBytes size ++
      directory.flatMap directoryEntryBytes ++ front) after
  rwa [List.length_append, length_stringFile_header, List.append_assoc] at read

namespace StringTable

/-- A table after the insertion of a list of entries. -/
def insertAll (table : StringTable) (entries : List (UInt32 × Bytes)) : StringTable :=
  entries.foldl (fun table entry => table.insert entry.1 entry.2) table

/-- The entries after the insertion of a list of entries. -/
theorem insertAll_entries (table : StringTable) (entries : List (UInt32 × Bytes)) :
    (table.insertAll entries).kind = table.kind ∧
      (table.insertAll entries).entries = overwrite entries table.entries := by
  induction entries generalizing table with
  | nil => exact ⟨rfl, rfl⟩
  | cons entry entries more => exact more (table.insert entry.1 entry.2)

/-- A file whose payloads can all be read is a table of these payloads. -/
theorem fromBytes_stringFile (size : UInt32) {kind : StringFileKind} {blob : Bytes}
    {directory : List (UInt32 × UInt32)} {payloads : List Bytes}
    (bounded : directory.length < 2 ^ 32)
    (read : List.Forall₂ (fun entry payload => readPayload (stringFile size directory blob)
      (8 + directory.length * 8 + entry.2.toNat) kind = .ok payload) directory payloads) :
    fromBytes (stringFile size directory blob) kind =
      .ok ((new kind).insertAll ((directory.map Prod.fst).zip payloads)) := by
  rw [fromBytes, parseDirectory_stringFile size bounded, ok_bind]
  simp only
  generalize stringFile size directory blob = file at read ⊢
  generalize 8 + directory.length * 8 = start at read ⊢
  generalize new kind = table
  clear bounded
  induction read generalizing table with
  | nil => rfl
  | cons here _ rest =>
    rw [List.foldlM_cons, here, ok_bind]
    exact rest _

/-- Where the payloads of a list of entries stand in a blob, as the directory stores it. -/
def placed (kind : StringFileKind) : List (UInt32 × Bytes) → Nat → List (UInt32 × UInt32)
  | [], _ => []
  | entry :: entries, place =>
    (entry.1, UInt32.ofNat place) ::
      placed kind entries (place + (framePayload kind entry.2).length)

/-- Every entry is placed. -/
theorem placed_fst (kind : StringFileKind) (entries : List (UInt32 × Bytes)) (place : Nat) :
    (placed kind entries place).map Prod.fst = entries.map Prod.fst := by
  induction entries generalizing place with
  | nil => rfl
  | cons entry entries rest => rw [placed, List.map_cons, List.map_cons, rest]

/-- Every entry is placed once. -/
theorem length_placed (kind : StringFileKind) (entries : List (UInt32 × Bytes)) (place : Nat) :
    (placed kind entries place).length = entries.length := by
  have same := congrArg List.length (placed_fst kind entries place)
  rwa [List.length_map, List.length_map] at same

/-- The directory and the blob of a list of entries grow together. -/
theorem written_eq (kind : StringFileKind) (entries : List (UInt32 × Bytes))
    (directory blob : Bytes) :
    entries.foldl (fun written entry =>
      (written.1 ++ u32ToLeBytes entry.1 ++ u32ToLeBytes (UInt32.ofNat written.2.length),
        written.2 ++ framePayload kind entry.2)) (directory, blob) =
      (directory ++ (placed kind entries blob.length).flatMap directoryEntryBytes,
        blob ++ entries.flatMap fun entry => framePayload kind entry.2) := by
  induction entries generalizing directory blob with
  | nil => simp [placed]
  | cons entry entries rest =>
    rw [List.foldl_cons, rest, placed, List.flatMap_cons, List.flatMap_cons, directoryEntryBytes,
      List.length_append]
    simp only [List.append_assoc]

/-- What a table writes: its entries in ascending order. -/
theorem writeTo_eq (table : StringTable) :
    table.writeTo = stringFile (UInt32.ofNat table.blob.length)
      (placed table.kind table.entries.toList 0) table.blob := by
  rw [writeTo, written_eq]
  show _ ++ u32ToLeBytes (UInt32.ofNat table.blob.length) ++ _ ++ table.blob = _
  rw [stringFile, length_placed, Std.TreeMap.length_toList]
  rfl

/-- Every payload of a blob below the 32-bit limit is read back from its place. -/
theorem read_placed {kind : StringFileKind} {header : Bytes} {entries : List (UInt32 × Bytes)}
    (storable : ∀ entry ∈ entries, Storable kind entry.2) {blob : Bytes}
    (short : (blob ++ entries.flatMap fun entry => framePayload kind entry.2).length < 2 ^ 32) :
    List.Forall₂ (fun entry payload => readPayload
      (header ++ (blob ++ entries.flatMap fun entry => framePayload kind entry.2))
        (header.length + entry.2.toNat) kind = .ok payload)
      (placed kind entries blob.length) (entries.map Prod.snd) := by
  induction entries generalizing blob with
  | nil => exact .nil
  | cons entry entries rest =>
    rw [List.flatMap_cons] at short ⊢
    rw [placed, List.map_cons]
    have size : (UInt32.ofNat blob.length).toNat = blob.length := by
      rw [UInt32.toNat_ofNat']
      refine Nat.mod_eq_of_lt (Nat.lt_of_le_of_lt ?_ short)
      simp
    have framed : entry.2.length + 1 ≤ (framePayload kind entry.2).length := by
      simp [framePayload]
    refine .cons ?_ ?_
    · have read := readPayload_framePayload (storable entry List.mem_cons_self)
        (by simp only [List.length_append] at short; omega) (header ++ blob)
        (entries.flatMap fun entry => framePayload kind entry.2)
      rw [List.length_append, List.append_assoc] at read
      rwa [size]
    · have others := rest (fun other member => storable other (List.mem_cons_of_mem _ member))
        (by rwa [List.append_assoc] : ((blob ++ framePayload kind entry.2) ++
          entries.flatMap fun entry => framePayload kind entry.2).length < 2 ^ 32)
      rwa [List.append_assoc, List.length_append] at others

/-- Every entry has a terminator, so there are at most as many entries as bytes. -/
theorem length_le_blob (kind : StringFileKind) (entries : List (UInt32 × Bytes)) :
    entries.length ≤ (entries.flatMap fun entry => framePayload kind entry.2).length := by
  induction entries with
  | nil => exact Nat.le_refl _
  | cons entry entries rest =>
    rw [List.flatMap_cons, List.length_append, List.length_cons, framePayload, List.length_append]
    simp only [List.length_singleton]
    omega

/-- Two tables of the same kind with the same payload at every identifier. -/
def SameAs (table other : StringTable) : Prop :=
  table.kind = other.kind ∧ ∀ id : UInt32, table.entries[id]? = other.entries[id]?

/-- A table whose blob stays below the 32-bit limit is read back. -/
theorem fromBytes_writeTo {table : StringTable}
    (storable : ∀ (id : UInt32) payload, table.entries[id]? = some payload →
      Storable table.kind payload)
    (short : table.blob.length < 2 ^ 32) :
    ∃ again, fromBytes table.writeTo table.kind = .ok again ∧ again.SameAs table := by
  have counted : (placed table.kind table.entries.toList 0).length < 2 ^ 32 := by
    rw [length_placed]
    exact Nat.lt_of_le_of_lt (length_le_blob table.kind _) short
  have read := @read_placed table.kind
    (u32ToLeBytes (UInt32.ofNat (placed table.kind table.entries.toList 0).length) ++
      u32ToLeBytes (UInt32.ofNat table.blob.length) ++
        (placed table.kind table.entries.toList 0).flatMap directoryEntryBytes)
    table.entries.toList (fun entry member =>
      storable entry.1 entry.2 (Std.TreeMap.mem_toList_iff_getElem?_eq_some.mp member)) [] short
  rw [length_stringFile_header] at read
  have parsed := fromBytes_stringFile _ counted read
  rw [placed_fst, List.zip_map', List.map_id'] at parsed
  obtain ⟨kind, entries⟩ := insertAll_entries (new table.kind) table.entries.toList
  refine ⟨_, (congrArg (fromBytes · table.kind) table.writeTo_eq).trans parsed, kind, fun id => ?_⟩
  rw [entries]
  exact getElem?_overwrite_toList table.entries id

/-- Every payload of a table can be held by its format. -/
def AllStorable (table : StringTable) : Prop :=
  ∀ (id : UInt32) payload, table.entries[id]? = some payload → Storable table.kind payload

/-- An insertion keeps the payloads storable. -/
theorem AllStorable.insert {table : StringTable} (all : table.AllStorable) (id : UInt32)
    {payload : Bytes} (storable : Storable table.kind payload) :
    (table.insert id payload).AllStorable := by
  intro other stored found
  rw [getElem?_insert] at found
  split at found
  case isTrue => exact Option.some.inj found ▸ storable
  case isFalse => exact all other stored found

/-- One operation keeps the format and the payloads storable. -/
theorem AllStorable.apply {table : StringTable} (all : table.AllStorable) {op : StringOp}
    (storable : ∀ payload, op.payload = some payload → Storable table.kind payload) :
    (table.apply op).kind = table.kind ∧ (table.apply op).AllStorable := by
  cases op with
  | insert id payload => exact ⟨rfl, all.insert id (storable payload rfl)⟩
  | tryInsertNew payload =>
    cases allocated : table.tryInsertNew payload with
    | mk outcome after =>
      have same : table.apply (.tryInsertNew payload) = after := congrArg Prod.snd allocated
      rw [same]
      cases outcome with
      | ok id =>
        obtain ⟨rfl, _⟩ := tryInsertNew_ok allocated
        exact ⟨rfl, all.insert id (storable payload rfl)⟩
      | error error =>
        obtain ⟨rfl, _⟩ := tryInsertNew_error allocated
        exact ⟨rfl, all⟩
  | remove id =>
    refine ⟨rfl, fun other payload found => all other payload ?_⟩
    have erased : (table.entries.erase id)[other]? = some payload := found
    rw [Std.TreeMap.getElem?_erase] at erased
    split at erased
    case isTrue => cases erased
    case isFalse => exact erased

/-- A run of operations keeps the format and the payloads storable. -/
theorem AllStorable.run {table : StringTable} (all : table.AllStorable) {ops : List StringOp}
    (storable : ∀ op ∈ ops, ∀ payload, op.payload = some payload → Storable table.kind payload) :
    (table.run ops).kind = table.kind ∧ (table.run ops).AllStorable := by
  induction ops generalizing table with
  | nil => exact ⟨rfl, all⟩
  | cons op ops more =>
    obtain ⟨kind, kept⟩ := all.apply (storable op List.mem_cons_self)
    obtain ⟨last, holds⟩ := more kept fun other member => by
      rw [kind]
      exact storable other (List.mem_cons_of_mem _ member)
    exact ⟨last.trans kind, holds⟩

/-- What is read as a payload can be held by the format. -/
theorem storable_of_readPayload {bytes payload : Bytes} {start : Nat} {kind : StringFileKind}
    (read : readPayload bytes start kind = .ok payload) : Storable kind payload := by
  intro terminated zero
  rw [readPayload, terminated] at read
  split at read
  case isTrue => cases read
  rw [if_neg Bool.false_ne_true] at read
  simp only at read
  split at read
  case isTrue => cases read
  case isFalse =>
    obtain rfl := Except.ok.inj read
    exact absurd (List.mem_takeWhile_imp zero) (by decide)

/-- A table that was created or loaded has storable payloads. -/
theorem Initial.allStorable {table : StringTable} (initial : table.Initial) :
    table.AllStorable := by
  have none_ (kind : StringFileKind) : (new kind).AllStorable := by
    intro id payload found
    have absent : (∅ : Std.TreeMap UInt32 Bytes)[id]? = some payload := found
    rw [Std.TreeMap.getElem?_emptyc] at absent
    cases absent
  rcases initial with ⟨kind, rfl⟩ | ⟨bytes, kind, parsed⟩
  · exact none_ kind
  · rw [fromBytes, bind_eq_ok] at parsed
    obtain ⟨directory, _, parsed⟩ := parsed
    have step {before after : StringTable} {entry : UInt32 × UInt32} (inserted :
        (readPayload bytes (8 + directory.length * 8 + entry.2.toNat) kind >>= fun payload =>
          (.ok (before.insert entry.1 payload) : Except CoreError StringTable)) = .ok after)
        (holds : before.kind = kind ∧ before.AllStorable) :
        after.kind = kind ∧ after.AllStorable := by
      obtain ⟨payload, read, inserted⟩ := bind_eq_ok.mp inserted
      obtain rfl := Except.ok.inj inserted
      refine ⟨holds.1, holds.2.insert entry.1 ?_⟩
      rw [holds.1]
      exact storable_of_readPayload read
    have loaded := @foldlM_preserves _ _ StringTable _
      (fun before after => before.kind = kind ∧ before.AllStorable →
        after.kind = kind ∧ after.AllStorable)
      (fun _ => id) (fun first second start => second (first start)) _ _ _
      (fun _ _ _ _ inserted => step inserted) parsed
    exact (loaded ⟨rfl, none_ kind⟩).2

/-- A table that was created or loaded and then edited is read back from the file that it writes,
if the payloads with their framing stay below the 32-bit limit. -/
theorem writeTo_roundTrip (start : StringTable) (initial : start.Initial) (ops : List StringOp)
    (storable : ∀ op ∈ ops, ∀ payload, op.payload = some payload → Storable start.kind payload)
    (short : (start.run ops).blob.length < 2 ^ 32) :
    ∃ again, fromBytes (start.run ops).writeTo (start.run ops).kind = .ok again ∧
      again.SameAs (start.run ops) :=
  fromBytes_writeTo (initial.allStorable.run storable).2 short

/-- An edited table is read back. -/
theorem writeTo_roundTrip_edited :
    let table := (new .dlStrings).run [.insert 7 [65], .tryInsertNew []]
    ∃ again, fromBytes table.writeTo table.kind = .ok again ∧ again.SameAs table :=
  writeTo_roundTrip (new .dlStrings) (.inl ⟨.dlStrings, rfl⟩) [.insert 7 [65], .tryInsertNew []]
    (fun _ _ _ _ terminated => nomatch terminated) (by decide)

/-- What the last entry of a directory reads is what its identifier has. -/
theorem fromBytes_last {size : UInt32} {directory : List (UInt32 × UInt32)}
    {last : UInt32 × UInt32} {blob : Bytes} {kind : StringFileKind} {table : StringTable}
    (bounded : (directory ++ [last]).length < 2 ^ 32)
    (parsed : fromBytes (stringFile size (directory ++ [last]) blob) kind = .ok table) :
    ∃ payload, readPayload (stringFile size (directory ++ [last]) blob)
      (8 + (directory ++ [last]).length * 8 + last.2.toNat) kind = .ok payload ∧
        table.entries[last.1]? = some payload := by
  rw [fromBytes, parseDirectory_stringFile size bounded, ok_bind] at parsed
  simp only [List.foldlM_append, List.foldlM_cons, List.foldlM_nil] at parsed
  obtain ⟨before, _, parsed⟩ := bind_eq_ok.mp parsed
  obtain ⟨after, inserted, parsed⟩ := bind_eq_ok.mp parsed
  obtain ⟨payload, read, inserted⟩ := bind_eq_ok.mp inserted
  obtain rfl := Except.ok.inj inserted
  obtain rfl := Except.ok.inj parsed
  exact ⟨payload, read, by rw [getElem?_insert, if_pos rfl]⟩

/-- Entries that share one payload, and one more with an empty payload. -/
def sharedEntries (copies length : Nat) : List (UInt32 × Bytes) :=
  ((List.range copies).map fun id => (UInt32.ofNat id, List.replicate length 65)) ++
    [(UInt32.ofNat copies, [])]

/-- A directory in which they share the bytes of the payload: the last one points at its NUL. -/
def sharedDirectory (copies length : Nat) : List (UInt32 × UInt32) :=
  ((List.range copies).map fun id => (UInt32.ofNat id, 0)) ++
    [(UInt32.ofNat copies, UInt32.ofNat length)]

/-- The file with the shared payload. -/
def sharedFile (copies length : Nat) : Bytes :=
  stringFile (UInt32.ofNat (length + 1)) (sharedDirectory copies length)
    (List.replicate length 65 ++ [0])

variable {copies length : Nat}

/-- The identifiers of the entries ascend. -/
theorem sharedEntries_ascending (few : copies < 2 ^ 32) :
    (sharedEntries copies length).Pairwise fun first second =>
      compare first.1 second.1 = .lt := by
  have lower {first second : Nat} (less : first < second) (bound : second < 2 ^ 32) :
      compare (UInt32.ofNat first) (UInt32.ofNat second) = .lt := by
    rw [Std.compare_eq_lt, UInt32.lt_iff_toNat_lt, UInt32.toNat_ofNat', UInt32.toNat_ofNat']
    omega
  rw [sharedEntries, List.pairwise_append, List.pairwise_map]
  refine ⟨List.pairwise_lt_range.imp_of_mem fun _ member less => lower less ?_,
    List.pairwise_singleton _ _, fun first among second other => ?_⟩
  · exact (List.mem_range.mp member).trans few
  · obtain ⟨id, member, rfl⟩ := List.mem_map.mp among
    rw [List.mem_singleton.mp other]
    exact lower (List.mem_range.mp member) few

/-- The file holds the entries. -/
theorem fromBytes_sharedFile (few : copies + 1 < 2 ^ 32) (short : length + 1 < 2 ^ 32) :
    fromBytes (sharedFile copies length) .strings =
      .ok ((new .strings).insertAll (sharedEntries copies length)) := by
  have visible : Storable .strings (List.replicate length (65 : UInt8)) := fun _ zero =>
    absurd (List.eq_of_mem_replicate zero) (by decide)
  have offset : (UInt32.ofNat length).toNat = length := by
    rw [UInt32.toNat_ofNat']
    exact Nat.mod_eq_of_lt (by omega)
  have counted : (sharedDirectory copies length).length = copies + 1 := by simp [sharedDirectory]
  have shared : readPayload (sharedFile copies length)
      (8 + (sharedDirectory copies length).length * 8) .strings =
        .ok (List.replicate length 65) := by
    have read := readPayload_stringFile (UInt32.ofNat (length + 1)) (sharedDirectory copies length)
      visible (by rw [List.length_replicate]; exact short) [] []
    rw [List.append_nil] at read
    exact read
  have empty : readPayload (sharedFile copies length)
      (8 + (sharedDirectory copies length).length * 8 + length) .strings = .ok [] := by
    have read := @readPayload_stringFile (UInt32.ofNat (length + 1)) (sharedDirectory copies length)
      .strings [] (fun _ => List.not_mem_nil) (by decide) (List.replicate length 65) []
    rwa [List.length_replicate] at read
  have parsed := @fromBytes_stringFile (UInt32.ofNat (length + 1)) .strings
    (List.replicate length 65 ++ [0]) (sharedDirectory copies length)
    (((List.range copies).map fun _ => List.replicate length 65) ++ [[]]) (by omega) ?_
  · have entries : ((sharedDirectory copies length).map Prod.fst).zip
        (((List.range copies).map fun _ => List.replicate length 65) ++ [[]]) =
          sharedEntries copies length := by
      rw [sharedDirectory, List.map_append, List.map_map, List.zip_append (by simp),
        List.zip_map', sharedEntries]
      rfl
    rw [entries] at parsed
    exact parsed
  · refine List.rel_append ?_ (.cons ?_ .nil)
    · rw [List.forall₂_map_left_iff, List.forall₂_map_right_iff, List.forall₂_same]
      exact fun _ _ => shared
    · show readPayload _ (_ + (UInt32.ofNat length).toNat) _ = _
      rw [offset]
      exact empty

/-- Where the entry behind a list of entries stands. -/
theorem placed_append (kind : StringFileKind) (first rest : List (UInt32 × Bytes)) (place : Nat) :
    placed kind (first ++ rest) place = placed kind first place ++
      placed kind rest (place + (first.flatMap fun entry => framePayload kind entry.2).length) := by
  induction first generalizing place with
  | nil => rfl
  | cons entry first more =>
    rw [List.cons_append, placed, placed, more, List.flatMap_cons, List.length_append,
      List.cons_append, Nat.add_assoc]

/-- The bytes that a shared payload takes when every entry gets its own. -/
theorem length_sharedBlob (copies length : Nat) :
    (((List.range copies).map fun id => (UInt32.ofNat id, List.replicate length (65 : UInt8))).flatMap
      fun entry => framePayload .strings entry.2).length = copies * (length + 1) := by
  have each (id : Nat) : (framePayload .strings (List.replicate length 65)).length = length + 1 := by
    simp [framePayload, StringFileKind.isLengthPrefixed]
  rw [List.flatMap_map, List.length_flatMap, List.map_congr_left fun id _ => each id]
  simp

/-- If the shared payloads reach the 32-bit limit, their table is not read back: the offset of the
last entry wraps to the first payload. -/
theorem not_fromBytes_writeTo {table : StringTable} (kind : table.kind = .strings)
    (listed : table.entries.toList = sharedEntries copies length) (few : copies + 1 < 2 ^ 32)
    (long : 0 < length) (short : length + 1 < 2 ^ 32) (limit : copies * (length + 1) = 2 ^ 32) :
    ¬∃ again, fromBytes table.writeTo table.kind = .ok again ∧ again.SameAs table := by
  rintro ⟨again, parsed, same⟩
  have visible : Storable .strings (List.replicate length (65 : UInt8)) := fun _ zero =>
    absurd (List.eq_of_mem_replicate zero) (by decide)
  have blob : ∃ rest, table.blob = framePayload .strings (List.replicate length 65) ++ rest := by
    obtain ⟨others, rfl⟩ : ∃ others, copies = others + 1 :=
      Nat.exists_eq_succ_of_ne_zero (by rintro rfl; simp at limit)
    rw [StringTable.blob, listed, kind, sharedEntries, List.range_succ_eq_map]
    exact ⟨_, List.flatMap_cons⟩
  obtain ⟨rest, blob⟩ := blob
  rw [writeTo_eq, kind, listed, sharedEntries, placed_append, length_sharedBlob, limit, blob]
    at parsed
  obtain ⟨payload, read, stored⟩ := fromBytes_last (by simpa [length_placed] using few) parsed
  have wrapped : (UInt32.ofNat (0 + 2 ^ 32)).toNat = 0 := by decide
  simp only [wrapped] at read
  have first (size : UInt32) (directory : List (UInt32 × UInt32)) :=
    readPayload_stringFile size directory visible (by rw [List.length_replicate]; exact short) []
      rest
  obtain rfl : List.replicate length 65 = payload := Except.ok.inj ((first _ _).symm.trans read)
  have last : table.entries[UInt32.ofNat copies]? = some [] := by
    rw [← Std.TreeMap.mem_toList_iff_getElem?_eq_some, listed, sharedEntries]
    exact List.mem_append_right _ (List.mem_singleton.mpr rfl)
  have lengths := congrArg (Option.map List.length) ((stored.symm.trans (same.2 _)).trans last)
  rw [Option.map_some, Option.map_some, List.length_replicate] at lengths
  exact absurd (Option.some.inj lengths) (Nat.ne_of_gt long)

/-- A file of half a megabyte whose table is not read back from the file that it writes. -/
theorem writeTo_wraps :
    ∃ table, fromBytes (sharedFile 65536 65535) .strings = .ok table ∧
      ¬∃ again, fromBytes table.writeTo table.kind = .ok again ∧ again.SameAs table := by
  obtain ⟨kind, entries⟩ := insertAll_entries (new .strings) (sharedEntries 65536 65535)
  have listed : ((new .strings).insertAll (sharedEntries 65536 65535)).entries.toList =
      sharedEntries 65536 65535 := by
    rw [entries]
    exact toList_overwrite (sharedEntries_ascending (by decide))
  exact ⟨_, fromBytes_sharedFile (by decide) (by decide),
    not_fromBytes_writeTo kind listed (by decide) (by decide) (by decide) (by decide)⟩

end StringTable

end Bethkit
