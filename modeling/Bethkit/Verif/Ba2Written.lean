import Bethkit.Lib.Chunks
import Bethkit.Spec.Ba2Packing
import Bethkit.Verif.ArchivePaths
import Bethkit.Verif.ArchiveReads
import Bethkit.Verif.Ba2Names

/-!
# Written BA2 archives

The header of a written archive leads its reader to the records and to the names. The names are read
back as long as their lengths fit 16 bits, and stored data as long as its sizes fit 32 bits.
-/

namespace Bethkit

open Lib

/-- A 64-bit word is read back from its bytes. -/
@[simp]
theorem u64FromLeBytes_toLeBytes (word : UInt64) : u64FromLeBytes (u64ToLeBytes word) = word := by
  have small : word.toNat < 256 ^ 8 := word.toNat_lt
  rw [u64FromLeBytes, u64ToLeBytes, leValue_leBytes, Nat.mod_eq_of_lt small, UInt64.ofNat_toNat]

/-- A slice of the middle of a byte string. -/
theorem Bytes.slice_middle (before middle after : Bytes) {from_ to_ : Nat}
    (inside : to_ ≤ middle.length) :
    Bytes.slice (before ++ (middle ++ after)) (before.length + from_) (before.length + to_) =
      Bytes.slice middle from_ to_ := by
  rw [← Bytes.slice_slice _ from_ (Nat.add_le_add_left inside _), Bytes.slice_append]

/-- An ASCII path is normalised byte by byte. -/
theorem normalisePath_of_ascii {path : Bytes} (ascii : ∀ byte ∈ path, byte < 128) :
    normalisePath path = path.map normaliseByte := by
  rw [normalisePath_eq]
  refine latin_of_ascii fun byte member => ?_
  obtain ⟨source, among, rfl⟩ := List.mem_map.mp member
  exact normaliseByte_lt _ (ascii source among)

/-- A normalised ASCII path is ASCII. -/
theorem ascii_normalisePath {path : Bytes} (ascii : ∀ byte ∈ path, byte < 128) :
    ∀ byte ∈ normalisePath path, byte < 128 := by
  rw [normalisePath_of_ascii ascii]
  intro byte member
  obtain ⟨source, among, rfl⟩ := List.mem_map.mp member
  exact normaliseByte_lt _ (ascii source among)

/-- A normalised ASCII path stays as it is. -/
theorem normalisePath_idem {path : Bytes} (ascii : ∀ byte ∈ path, byte < 128) :
    normalisePath (normalisePath path) = normalisePath path := by
  rw [normalisePath_of_ascii (ascii_normalisePath ascii), normalisePath_of_ascii ascii,
    List.map_map]
  exact List.map_congr_left fun byte _ => normaliseByte_idem byte

/-- A normalised path is valid UTF-8. -/
theorem strFromUtf8_normalisePath (path : Bytes) : (strFromUtf8 (normalisePath path)).isSome := by
  rw [normalisePath_eq]
  exact strFromUtf8_latin _

/-- An ASCII path keeps its length. -/
theorem length_normalisePath {path : Bytes} (ascii : ∀ byte ∈ path, byte < 128) :
    (normalisePath path).length = path.length := by
  rw [normalisePath_of_ascii ascii, List.length_map]

/-- Zlib streams need nothing but a byte behind the data. -/
theorem zlibStreams_sealingCodecs : ZlibStreams sealingCodecs where
  inflates := by
    intro data stream packed expected
    obtain rfl := Except.ok.inj packed
    show (if (data ++ [0]).isEmpty then _ else Except.ok (data ++ [0]).dropLast) = _
    rw [List.dropLast_concat, if_neg (by simp)]
  nonempty := by
    intro data stream packed
    obtain rfl := Except.ok.inj packed
    exact List.concat_ne_nil _ _
  truncated := by
    intro data stream packed length shorter expected read
    obtain rfl := Except.ok.inj packed
    rw [List.length_append, List.length_singleton] at shorter
    have cut : ((data ++ [0]).take length).length = length := by
      rw [List.length_take, List.length_append, List.length_singleton]
      omega
    change (if ((data ++ [0]).take length).isEmpty then _
      else Except.ok ((data ++ [0]).take length).dropLast) = _ at read
    split at read
    · contradiction
    · rename_i some
      have same := congrArg List.length (Except.ok.inj read)
      rw [List.length_dropLast, cut] at same
      rw [List.isEmpty_iff_length_eq_zero, cut] at some
      omega

namespace Write

/-- Data is placed one behind the other. -/
theorem placeChunks_eq_ok {chunks : List StoredChunk} {running stop : Nat} {offsets : List Nat}
    (placed : placeChunks chunks running = .ok (offsets, stop)) :
    stop = running + (chunks.flatMap StoredChunk.stored).length ∧ offsets.length = chunks.length ∧
      ∀ idx < chunks.length, offsets.getD idx 0 =
        running + ((chunks.take idx).flatMap StoredChunk.stored).length := by
  induction chunks generalizing running stop offsets with
  | nil =>
    obtain ⟨rfl, rfl⟩ := Prod.mk.inj (Except.ok.inj placed)
    exact ⟨rfl, rfl, fun _ none => absurd none (Nat.not_lt_zero _)⟩
  | cons chunk chunks rest =>
    obtain ⟨next, sum, further⟩ := bind_eq_ok.mp placed
    obtain ⟨behind, others, same⟩ := bind_eq_ok.mp further
    obtain ⟨rfl, rfl⟩ := Prod.mk.inj (Except.ok.inj same)
    obtain ⟨total, count, each⟩ := rest others
    have start : next = running + chunk.stored.length := by
      rw [addUsize] at sum
      split at sum
      · exact (Except.ok.inj sum).symm
      · contradiction
    refine ⟨?_, congrArg (· + 1) count, fun idx inside => ?_⟩
    · rw [total, start, List.flatMap_cons, List.length_append, Nat.add_assoc]
    · cases idx with
      | zero => rfl
      | succ idx =>
        have here := each idx (Nat.lt_of_succ_lt_succ inside)
        rw [start] at here
        rw [List.take_succ_cons, List.flatMap_cons, List.length_append, ← Nat.add_assoc]
        exact here

/-- The header has 24 bytes. -/
theorem length_ba2Header (version : Ba2Version) {subType : Bytes} (four : subType.length = 4)
    (fileCount : UInt32) (tableOffset : Nat) :
    (ba2Header version subType fileCount tableOffset).length = 24 := by
  have magic : Bethkit.Ba2.magic.length = 4 := rfl
  simp only [ba2Header, List.length_append, four, magic, length_u32ToLeBytes, length_u64ToLeBytes]

/-- A written archive has at least a header. -/
theorem le_length_ba2Header (version : Ba2Version) {subType : Bytes} (four : subType.length = 4)
    (fileCount : UInt32) (tableOffset : Nat) (rest : Bytes) :
    24 ≤ (ba2Header version subType fileCount tableOffset ++ rest).length := by
  rw [List.length_append, length_ba2Header version four]
  exact Nat.le_add_right _ _

/-- The fields of a header are read back. -/
theorem fields_ba2Header (version : Ba2Version) {subType : Bytes} (four : subType.length = 4)
    (fileCount : UInt32) {tableOffset : Nat} (rest : Bytes) (fits : tableOffset < 2 ^ 64) :
    let bytes := ba2Header version subType fileCount tableOffset ++ rest
    Bytes.slice bytes 0 4 = Bethkit.Ba2.magic ∧
      u32FromLeBytes (Bytes.slice bytes 4 8) ∈ Bethkit.Ba2.supportedVersions ∧
      Bytes.slice bytes 8 12 = subType ∧ Ba2Archive.fileCount bytes = fileCount ∧
      (Ba2Archive.tableOffset bytes).toNat = tableOffset := by
  obtain ⟨a, b, c, d, rfl⟩ := List.length_eq_four.mp four
  have number : u32FromLeBytes (u32ToLeBytes version.asU32) ∈ Bethkit.Ba2.supportedVersions := by
    rw [u32FromLeBytes_toLeBytes]
    cases version <;> decide
  have table : (u64FromLeBytes (u64ToLeBytes (UInt64.ofNat tableOffset))).toNat = tableOffset := by
    rw [u64FromLeBytes_toLeBytes, UInt64.toNat_ofNat']
    exact Nat.mod_eq_of_lt fits
  exact ⟨rfl, number, rfl, u32FromLeBytes_toLeBytes fileCount, table⟩

/-- The header leads to the reader of general files. -/
theorem fromMmap_gnrl (version : Ba2Version) (fileCount : UInt32) {tableOffset : Nat} (rest : Bytes)
    (fits : tableOffset < 2 ^ 64) :
    let bytes := ba2Header version Bethkit.Ba2.subGnrl fileCount tableOffset ++ rest
    Ba2Archive.fromMmap bytes = (Gnrl.GnrlArchive.parse bytes fileCount
      (Ba2Archive.tableOffset bytes)).map .gnrl := by
  dsimp only
  obtain ⟨magic, number, kind, count, _⟩ := @fields_ba2Header version
    Bethkit.Ba2.subGnrl rfl fileCount tableOffset rest fits
  have long := Nat.not_lt.mpr (@le_length_ba2Header version Bethkit.Ba2.subGnrl rfl fileCount
    tableOffset rest)
  rw [Ba2Archive.fromMmap, if_neg long]
  dsimp only
  rw [magic, if_neg (not_not.mpr rfl), if_neg (not_not.mpr number), kind, if_pos rfl, count]

/-- The header leads to the reader of textures. -/
theorem fromMmap_dx10 (version : Ba2Version) (fileCount : UInt32) {tableOffset : Nat} (rest : Bytes)
    (fits : tableOffset < 2 ^ 64) :
    let bytes := ba2Header version Bethkit.Ba2.subDx10 fileCount tableOffset ++ rest
    Ba2Archive.fromMmap bytes = (Dx10.Dx10Archive.parse bytes fileCount
      (Ba2Archive.tableOffset bytes)).map .dx10 := by
  dsimp only
  obtain ⟨magic, number, kind, count, _⟩ := @fields_ba2Header version
    Bethkit.Ba2.subDx10 rfl fileCount tableOffset rest fits
  have long := Nat.not_lt.mpr (@le_length_ba2Header version Bethkit.Ba2.subDx10 rfl fileCount
    tableOffset rest)
  have other : Bethkit.Ba2.subDx10 ≠ Bethkit.Ba2.subGnrl := by decide
  rw [Ba2Archive.fromMmap, if_neg long]
  dsimp only
  rw [magic, if_neg (not_not.mpr rfl), if_neg (not_not.mpr number), kind, if_neg other, if_pos rfl,
    count]

/-- The name that is read behind a length. -/
theorem storedNames_succ (count : Nat) (path rest : Bytes) :
    Bethkit.Ba2.storedNames (count + 1) (ba2Name path ++ rest) =
      if path.length % 65536 ≤ (path ++ rest).length ∧
          (strFromUtf8 ((path ++ rest).take (path.length % 65536))).isSome then
        (Bethkit.Ba2.storedNames count ((path ++ rest).drop (path.length % 65536))).map
          ((path ++ rest).take (path.length % 65536) :: ·)
      else none := by
  have front : ba2Name path ++ rest = u16ToLeBytes (UInt16.ofNat path.length) ++ (path ++ rest) :=
    List.append_assoc _ _ _
  have two := length_u16ToLeBytes (UInt16.ofNat path.length)
  have field : (ba2Name path ++ rest).take 2 = u16ToLeBytes (UInt16.ofNat path.length) := by
    rw [front, ← two, List.take_left]
  have behind : (ba2Name path ++ rest).drop 2 = path ++ rest := by
    rw [front, ← two, List.drop_left]
  have length : (ba2Name path ++ rest).length = 2 + (path ++ rest).length := by
    rw [front, List.length_append, two]
  have number : (u16FromLeBytes (u16ToLeBytes (UInt16.ofNat path.length))).toNat =
      path.length % 65536 := by
    rw [u16FromLeBytes_toLeBytes, UInt16.toNat_ofNat']
  have further : (ba2Name path ++ rest).drop (2 + path.length % 65536) =
      (path ++ rest).drop (path.length % 65536) := by
    rw [← List.drop_drop, behind]
  rw [Bethkit.Ba2.storedNames, field, behind, length, number, further]
  refine if_congr ⟨fun all => ⟨by omega, all.2.2⟩, fun all => ⟨by omega, by omega, all.2⟩⟩ rfl rfl

/-- Names whose lengths fit 16 bits are read back. -/
theorem storedNames_names {paths : List Bytes} (short : ∀ path ∈ paths, path.length < 65536)
    (text : ∀ path ∈ paths, (strFromUtf8 path).isSome) :
    Bethkit.Ba2.storedNames paths.length (paths.flatMap ba2Name) = some paths := by
  induction paths with
  | nil => rfl
  | cons path paths rest =>
    have whole : path.length % 65536 = path.length :=
      Nat.mod_eq_of_lt (short path List.mem_cons_self)
    have others := rest (fun other among => short other (List.mem_cons_of_mem _ among))
      fun other among => text other (List.mem_cons_of_mem _ among)
    rw [List.flatMap_cons, List.length_cons, storedNames_succ, whole, List.take_left,
      List.drop_left, others, List.length_append]
    exact if_pos ⟨Nat.le_add_right _ _, text path List.mem_cons_self⟩

/-- Names in normal form are read back only if their lengths fit 16 bits. -/
theorem length_lt_of_storedNames {paths names : List Bytes}
    (ascii : ∀ path ∈ paths, ∀ byte ∈ path, byte < 128)
    (stored : Bethkit.Ba2.storedNames paths.length (paths.flatMap ba2Name) = some names)
    (same : names.map normalisePath = paths) : ∀ path ∈ paths, path.length < 65536 := by
  induction paths generalizing names with
  | nil => exact fun _ none => absurd none List.not_mem_nil
  | cons path paths rest =>
    rw [List.flatMap_cons, List.length_cons, storedNames_succ] at stored
    split at stored
    · obtain ⟨others, found, rfl⟩ := Option.map_eq_some_iff.mp stored
      obtain ⟨first, tail⟩ := List.cons.inj same
      have cut : (path ++ paths.flatMap ba2Name).take (path.length % 65536) =
          path.take (path.length % 65536) := List.take_append_of_le_length (Nat.mod_le _ _)
      have plain : ∀ byte ∈ path.take (path.length % 65536), byte < 128 := fun byte among =>
        ascii path List.mem_cons_self byte (List.mem_of_mem_take among)
      have small : path.length < 65536 := by
        have lengths := congrArg List.length first
        rw [cut, length_normalisePath plain, List.length_take] at lengths
        have bound := Nat.mod_lt path.length (show 0 < 65536 by decide)
        omega
      rw [Nat.mod_eq_of_lt small, List.drop_left] at found
      have further := rest (fun other among => ascii other (List.mem_cons_of_mem _ among)) found tail
      intro other among
      rcases List.mem_cons.mp among with rfl | among
      · exact small
      · exact further other among
    · contradiction

variable {codecs : ArchiveCodecs} {data before after : Bytes} {chunk : StoredChunk}
  {packedError plainError : Nat → Nat → String}

/-- What is stored for data: a stream or the data itself. -/
theorem storeChunk_eq_ok {compress : Bool} (made : storeChunk codecs compress data = .ok chunk) :
    (compress = true ∧ ∃ stream, codecs.compressZlib data = .ok stream ∧
      chunk = ⟨stream, UInt32.ofNat data.length, UInt32.ofNat stream.length⟩) ∨
    (compress = false ∧ chunk = ⟨data, UInt32.ofNat data.length, 0⟩) := by
  cases compress with
  | false => exact .inr ⟨rfl, (Except.ok.inj made).symm⟩
  | true =>
    obtain ⟨stream, packed, same⟩ := bind_eq_ok.mp made
    exact .inl ⟨rfl, stream, packed, (Except.ok.inj same).symm⟩

/-- The number of bytes that a 32-bit field keeps. -/
theorem toNat_ofNat32 (length : Nat) : (UInt32.ofNat length).toNat = length % 2 ^ 32 :=
  UInt32.toNat_ofNat'

/-- A packed size is zero if the low bits of the length are. -/
theorem ofNat32_eq_zero {length : Nat} : UInt32.ofNat length = 0 ↔ length % 2 ^ 32 = 0 := by
  rw [← UInt32.toNat_inj, toNat_ofNat32]
  rfl

/-- Plain data takes the low bits of its length. -/
theorem storedSize_zero (length : Nat) :
    Bethkit.Ba2.storedSize 0 (UInt32.ofNat length) = length % 2 ^ 32 :=
  (if_neg (not_not.mpr rfl)).trans (toNat_ofNat32 length)

/-- What is read from the place of a chunk: as many bytes of it as its sizes say. -/
theorem readStored_written {stored : Bytes} {packedSize size : UInt32} {offset length : Nat}
    (place : offset = before.length)
    (kept : Bethkit.Ba2.storedSize packedSize size = length) (inside : length ≤ stored.length)
    (short : (before ++ (stored ++ after)).length < 2 ^ 63) :
    Bethkit.Ba2.readStored codecs (before ++ (stored ++ after)) (UInt64.ofNat offset)
        packedSize size packedError plainError =
      if packedSize ≠ 0 then
        (codecs.decompressZlib (stored.take length) size.toNat).mapError .io
      else .ok (stored.take length) := by
  have whole : (before ++ (stored ++ after)).length =
      before.length + (stored.length + after.length) := by
    rw [List.length_append, List.length_append]
  have start : (UInt64.ofNat offset).toNat = before.length := by
    rw [UInt64.toNat_ofNat', place]
    exact Nat.mod_eq_of_lt (by omega)
  have piece : Bytes.slice (before ++ (stored ++ after)) before.length (before.length + length) =
      stored.take length := by
    rw [Bytes.slice, Nat.add_sub_cancel_left, List.drop_left, List.take_append_of_le_length inside]
  have fits : (UInt64.ofNat offset).toNat + Bethkit.Ba2.storedSize packedSize size < 2 ^ 64 := by
    rw [start, kept]
    omega
  rcases @Bethkit.Ba2.readStored_spec (before ++ (stored ++ after)) codecs _ _ _ packedError
    plainError fits with ⟨_, read⟩ | ⟨outside, _⟩
  · rw [read, start, kept, piece]
  · rw [start, kept] at outside
    omega

/-- Data that is stored as it is is read back exactly when its size fits. -/
theorem readPlain_iff (short : (before ++ (data ++ after)).length < 2 ^ 63) :
    Bethkit.Ba2.readStored codecs (before ++ (data ++ after)) (UInt64.ofNat before.length)
        0 (UInt32.ofNat data.length) packedError plainError = .ok data ↔ data.length < 2 ^ 32 := by
  have kept := Nat.mod_le data.length (2 ^ 32)
  have whole : data.take (data.length % 2 ^ 32) = data ↔ data.length < 2 ^ 32 := by
    rw [List.take_eq_self_iff]
    omega
  rw [readStored_written rfl (storedSize_zero _) kept short, if_neg (not_not.mpr rfl)]
  exact ⟨fun read => whole.mp (Except.ok.inj read), fun small => congrArg _ (whole.mpr small)⟩

/-- A stream is inflated exactly when its sizes fit. -/
theorem readPacked_iff (zlib : ZlibStreams codecs) {stream : Bytes}
    (packed : codecs.compressZlib data = .ok stream)
    (short : (before ++ (stream ++ after)).length < 2 ^ 63) :
    Bethkit.Ba2.readStored codecs (before ++ (stream ++ after)) (UInt64.ofNat before.length)
        (UInt32.ofNat stream.length) (UInt32.ofNat data.length) packedError plainError = .ok data ↔
      stream.length < 2 ^ 32 ∨
        (stream.length % 2 ^ 32 = 0 ∧ data.length < 2 ^ 32 ∧ data.IsPrefix stream) := by
  have some : 0 < stream.length := List.length_pos_iff.mpr (zlib.nonempty data stream packed)
  by_cases none : stream.length % 2 ^ 32 = 0
  · -- the stream is taken for plain data
    have zero := ofNat32_eq_zero.mpr none
    have large : ¬stream.length < 2 ^ 32 := by omega
    have kept : data.length % 2 ^ 32 ≤ stream.length := by omega
    rw [zero, readStored_written rfl (storedSize_zero _) kept short, if_neg (not_not.mpr rfl)]
    constructor
    · intro read
      have same := Except.ok.inj read
      have length := congrArg List.length same
      rw [List.length_take, Nat.min_eq_left kept] at length
      exact .inr ⟨none, by omega, same ▸ List.take_prefix _ _⟩
    · rintro (small | ⟨-, small, front⟩)
      · exact absurd small large
      · rw [Nat.mod_eq_of_lt small, ← List.prefix_iff_eq_take.mp front]
  · have packedSize : UInt32.ofNat stream.length ≠ 0 := fun zero => none (ofNat32_eq_zero.mp zero)
    have size : Bethkit.Ba2.storedSize (UInt32.ofNat stream.length) (UInt32.ofNat data.length) =
        stream.length % 2 ^ 32 := (if_pos packedSize).trans (toNat_ofNat32 _)
    rw [readStored_written rfl size (Nat.mod_le _ _) short, if_pos packedSize]
    by_cases small : stream.length < 2 ^ 32
    · rw [Nat.mod_eq_of_lt small, List.take_length, zlib.inflates data stream packed]
      exact iff_of_true rfl (.inl small)
    · refine iff_of_false (fun read => ?_) (fun fits => ?_)
      · exact zlib.truncated data stream packed _ (by omega) _ (mapError_eq_ok.mp read)
      · rcases fits with fits | ⟨zero, -⟩
        · exact small fits
        · exact none zero

/-- Stored data is read back exactly when its sizes fit. -/
theorem readStored_iff (zlib : ZlibStreams codecs) {compress : Bool}
    (made : storeChunk codecs compress data = .ok chunk)
    (short : (before ++ (chunk.stored ++ after)).length < 2 ^ 63) :
    Bethkit.Ba2.readStored codecs (before ++ (chunk.stored ++ after)) (UInt64.ofNat before.length)
        chunk.packedSize chunk.size packedError plainError = .ok data ↔
      ChunkFits codecs compress data := by
  rcases storeChunk_eq_ok made with ⟨rfl, stream, packed, rfl⟩ | ⟨rfl, rfl⟩
  · rw [readPacked_iff zlib packed short, ChunkFits, if_pos rfl, packed]
    exact ⟨fun fits other same => Except.ok.inj same ▸ fits, fun all => all stream rfl⟩
  · exact readPlain_iff short

/-- What the records of a kind of archive hold, and how they are written. -/
structure Ba2Kind (α : Type) where
  /-- The mark of the kind in the header. -/
  subType : Bytes
  /-- The width of a record. -/
  width : Nat
  /-- The record of an item whose data is placed at an offset. -/
  record : α → Nat → Bytes
  /-- What is stored of an item. -/
  chunk : α → StoredChunk
  /-- The path of an item. -/
  path : α → Bytes
  /-- A mark has four bytes. -/
  four : subType.length = 4
  /-- Records have one width. -/
  sized : ∀ item offset, (record item offset).length = width

namespace Ba2Kind

variable {α : Type} (kind : Ba2Kind α)

/-- The records of items. -/
def recordBlock (items : List α) (offsets : List Nat) : Bytes :=
  (items.zip offsets).flatMap fun item => kind.record item.1 item.2

/-- The stored data of items. -/
def dataBlock (items : List α) : Bytes := items.flatMap fun item => (kind.chunk item).stored

/-- The names of items. -/
def nameBlock (items : List α) : Bytes := items.flatMap fun item => ba2Name (kind.path item)

/-- Where the data ends and the names begin. -/
def tableStart (items : List α) : Nat :=
  24 + (items.length % 2 ^ 32) * kind.width + (kind.dataBlock items).length

/-- The bytes of a written archive. -/
structure Written (version : Ba2Version) (items : List α) (offsets : List Nat) (bytes : Bytes) :
    Prop where
  /-- Every item has an offset. -/
  placed : offsets.length = items.length
  /-- The data of an item stands behind the data of the items before it. -/
  starts : ∀ idx < items.length, offsets.getD idx 0 =
    24 + (items.length % 2 ^ 32) * kind.width + (kind.dataBlock (items.take idx)).length
  /-- The header is followed by records, data and names. -/
  layout : bytes = ba2Header version kind.subType (UInt32.ofNat items.length)
      (kind.tableStart items) ++
    (kind.recordBlock items offsets ++ (kind.dataBlock items ++ kind.nameBlock items))

variable {kind} {version : Ba2Version} {items : List α} {offsets : List Nat} {bytes : Bytes}

/-- Placed data makes a written archive. -/
theorem written_of_placeChunks {stop : Nat} (placed : placeChunks (items.map kind.chunk)
    (24 + (UInt32.ofNat items.length).toNat * kind.width) = .ok (offsets, stop)) :
    kind.Written version items offsets (ba2Header version kind.subType
      (UInt32.ofNat items.length) stop ++ (kind.recordBlock items offsets ++
        (kind.dataBlock items ++ kind.nameBlock items))) := by
  have data (some : List α) :
      (some.map kind.chunk).flatMap StoredChunk.stored = kind.dataBlock some := by
    rw [List.flatMap_map]
    rfl
  obtain ⟨total, count, each⟩ := placeChunks_eq_ok placed
  rw [List.length_map] at count each
  rw [toNat_ofNat32] at total each
  rw [data] at total
  refine ⟨count, fun idx inside => ?_, ?_⟩
  · rw [each idx inside, ← List.map_take, data]
  · rw [total]
    rfl

namespace Written

/-- The length of the records. -/
theorem length_recordBlock (written : kind.Written version items offsets bytes) :
    (kind.recordBlock items offsets).length = items.length * kind.width := by
  have runs := @length_flatMap_of_width _ _ (fun item : α × Nat => kind.record item.1 item.2)
    kind.width (fun item => kind.sized item.1 item.2) (items.zip offsets)
  rwa [List.length_zip, written.placed, Nat.min_self, Nat.mul_comm] at runs

/-- The length of an archive. -/
theorem length_bytes (written : kind.Written version items offsets bytes) :
    bytes.length = 24 + items.length * kind.width + (kind.dataBlock items).length +
      (kind.nameBlock items).length := by
  rw [written.layout, List.length_append, length_ba2Header _ kind.four, List.length_append,
    written.length_recordBlock, List.length_append]
  omega

/-- The names begin inside the archive. -/
theorem tableStart_le (written : kind.Written version items offsets bytes) :
    kind.tableStart items ≤ bytes.length := by
  have small := Nat.mul_le_mul_right kind.width (Nat.mod_le items.length (2 ^ 32))
  rw [written.length_bytes, tableStart]
  omega

/-- The bytes of a record. -/
theorem slice_record (written : kind.Written version items offsets bytes) {idx : Nat}
    (inside : idx < items.length) :
    Bytes.slice bytes (24 + idx * kind.width) (24 + idx * kind.width + kind.width) =
      kind.record items[idx] (offsets.getD idx 0) := by
  have placed : idx < offsets.length := written.placed ▸ inside
  have zipped : idx < (items.zip offsets).length := by
    rw [List.length_zip, written.placed, Nat.min_self]
    exact inside
  have run := @take_drop_flatMap _ _ (fun item : α × Nat => kind.record item.1 item.2)
    kind.width (fun item => kind.sized item.1 item.2) _ _ zipped
    (kind.dataBlock items ++ kind.nameBlock items)
  rw [List.getElem_zip] at run
  rw [List.getD_eq_getElem _ _ placed, ← run, written.layout, Bytes.slice, Nat.add_sub_cancel_left,
    ← List.drop_drop, List.drop_left' (length_ba2Header version kind.four _ _), Nat.mul_comm]
  rfl

/-- The data of an item among all bytes. -/
theorem split_bytes (written : kind.Written version items offsets bytes) {idx : Nat}
    (inside : idx < items.length) (few : items.length < 2 ^ 32) : ∃ before after,
      bytes = before ++ ((kind.chunk items[idx]).stored ++ after) ∧
        offsets.getD idx 0 = before.length := by
  have split := flatMap_split (fun item => (kind.chunk item).stored) inside
  refine ⟨ba2Header version kind.subType (UInt32.ofNat items.length) (kind.tableStart items) ++
      (kind.recordBlock items offsets ++ kind.dataBlock (items.take idx)),
    kind.dataBlock (items.drop (idx + 1)) ++ kind.nameBlock items, ?_, ?_⟩
  · rw [written.layout, show kind.dataBlock items = _ from split]
    simp only [List.append_assoc]
    rfl
  · rw [written.starts idx inside, List.length_append, length_ba2Header _ kind.four,
      List.length_append, written.length_recordBlock, Nat.mod_eq_of_lt few, Nat.add_assoc]

/-- The names stand behind the data. -/
theorem drop_names (written : kind.Written version items offsets bytes)
    (few : items.length < 2 ^ 32) :
    bytes.drop (kind.tableStart items) = kind.nameBlock items := by
  have front : (ba2Header version kind.subType (UInt32.ofNat items.length) (kind.tableStart items) ++
      (kind.recordBlock items offsets ++ kind.dataBlock items)).length = kind.tableStart items := by
    rw [List.length_append, length_ba2Header _ kind.four, List.length_append,
      written.length_recordBlock, tableStart, Nat.mod_eq_of_lt few, Nat.add_assoc]
  have split : bytes = (ba2Header version kind.subType (UInt32.ofNat items.length)
      (kind.tableStart items) ++ (kind.recordBlock items offsets ++ kind.dataBlock items)) ++
        kind.nameBlock items := by
    rw [written.layout]
    simp only [List.append_assoc]
  exact (congrArg (List.drop _) split).trans (List.drop_left' front)

/-- The header leads to the number of items and to the names. -/
theorem tableOffset_eq (written : kind.Written version items offsets bytes)
    (short : bytes.length < 2 ^ 63) :
    (Ba2Archive.tableOffset bytes).toNat = kind.tableStart items := by
  have inside := written.tableStart_le
  have fits : kind.tableStart items < 2 ^ 64 := by omega
  have fields := (@fields_ba2Header version kind.subType kind.four (UInt32.ofNat items.length) _
    (kind.recordBlock items offsets ++ (kind.dataBlock items ++ kind.nameBlock items)) fits).2.2.2.2
  rwa [← written.layout] at fields

end Written

end Ba2Kind

end Write

end Bethkit
