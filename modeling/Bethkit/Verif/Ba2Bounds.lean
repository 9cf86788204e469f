import Bethkit.Verif.ArchiveIndex
import Bethkit.Verif.Ba2Names

/-!
# BA2 archives that stay in range

A BA2 file is opened and extracted without a fault exactly when the offsets and sizes that are
reached fit their types. The tables of both kinds are read record by record, and what can be
extracted is the last record with a name.
-/

namespace Bethkit

open Lib

/-- A path leads to an entry if it is the last one whose name has its normal form. -/
theorem getElem?_indexEntries_names {entries : List ArchiveEntry} {names : List Bytes}
    (paths : entries.map ArchiveEntry.path = names.map normalisePath) {path : Bytes} {idx : Nat} :
    (indexEntries entries)[path]? = some idx ↔
      (names.map normalisePath)[idx]? = some path ∧ Ba2.IsLastName names idx := by
  rw [getElem?_indexEntries, IsLastWith, paths, Ba2.IsLastName]
  constructor
  · rintro ⟨found, final⟩
    refine ⟨found, fun later behind => ?_⟩
    rw [found]
    exact final later behind
  · rintro ⟨found, final⟩
    refine ⟨found, fun later behind => ?_⟩
    rw [← found]
    exact final later behind

namespace Gnrl

variable {source : Bytes}

/-- A record inside the file is read, or refused for its mark. -/
theorem readRecord_spec {i : Nat}
    (inside : recordsStart + (i + 1) * recordSize ≤ source.length) :
    (Marked source i ∧ readRecord source i = .ok (recordAt source i)) ∨
      (¬Marked source i ∧ ∃ message, readRecord source i = .error (.corrupt message)) := by
  have stop : recordsStart + i * recordSize + recordSize = recordsStart + (i + 1) * recordSize := by
    rw [Nat.succ_mul, Nat.add_assoc]
  have bytes := indexRange_eq (Nat.le_add_right (recordsStart + i * recordSize) recordSize)
    (stop.le.trans inside)
  have field {start stop : Nat} (short : stop ≤ recordSize) :
      Bytes.slice (Bytes.slice source (recordsStart + i * recordSize)
        (recordsStart + i * recordSize + recordSize)) start stop = fieldAt source i start stop :=
    Bytes.slice_slice source start (Nat.add_le_add_left short _)
  unfold readRecord
  dsimp only
  rw [bytes, ok_bind]
  rw [@field 28 32 (by decide), @field 12 20 (by decide), @field 20 24 (by decide),
    @field 24 28 (by decide)]
  by_cases marked : Marked source i
  · exact .inl ⟨marked, if_neg (not_not.mpr marked)⟩
  · exact .inr ⟨marked, _, if_pos marked⟩

/-- The records of the names are read, if all of them have the mark. -/
theorem readRecords_spec (names : List Bytes) {i : Nat}
    (inside : recordsStart + (i + names.length) * recordSize ≤ source.length) :
    ((∀ k < names.length, Marked source (i + k)) ∧ ∃ files,
      readRecords source names i = .ok files ∧ files.map Prod.fst = names ∧
        ∀ k < names.length, (files.map Prod.snd)[k]? = some (recordAt source (i + k))) ∨
    ((∃ k < names.length, ¬Marked source (i + k)) ∧
      ∃ message, readRecords source names i = .error (.corrupt message)) := by
  induction names generalizing i with
  | nil => exact .inl ⟨fun _ none => absurd none (Nat.not_lt_zero _), [], rfl, rfl,
      fun _ none => absurd none (Nat.not_lt_zero _)⟩
  | cons name names ih =>
    rw [List.length_cons] at inside
    have here : recordsStart + (i + 1) * recordSize ≤ source.length := by
      have grows : (i + 1) * recordSize ≤ (i + (names.length + 1)) * recordSize :=
        Nat.mul_le_mul_right _ (by omega)
      omega
    have further : recordsStart + (i + 1 + names.length) * recordSize ≤ source.length := by
      rwa [Nat.add_assoc, Nat.add_comm 1]
    rcases readRecord_spec here with ⟨marked, read⟩ | ⟨unmarked, message, refused⟩
    · rcases ih further with ⟨others, files, all, firsts, seconds⟩ | ⟨⟨k, small, bad⟩, message, refused⟩
      · refine .inl ⟨fun k small => ?_, (name, recordAt source i) :: files, ?_, ?_, fun k small => ?_⟩
        · cases k with
          | zero => exact marked
          | succ k =>
            have found := others k (Nat.lt_of_succ_lt_succ small)
            rwa [Nat.add_assoc, Nat.add_comm 1] at found
        · simp only [readRecords, read, ok_bind, all]
          rfl
        · rw [List.map_cons, firsts]
        · cases k with
          | zero => rfl
          | succ k =>
            have found := seconds k (Nat.lt_of_succ_lt_succ small)
            rw [Nat.add_assoc, Nat.add_comm 1] at found
            exact found
      · refine .inr ⟨⟨k + 1, Nat.succ_lt_succ small, ?_⟩, message, ?_⟩
        · rwa [Nat.add_assoc, Nat.add_comm 1] at bad
        · simp only [readRecords, read, ok_bind, refused, error_bind]
    · refine .inr ⟨⟨0, Nat.succ_pos _, unmarked⟩, message, ?_⟩
      simp only [readRecords, refused, error_bind]

/-- The archive of the names and records that were read. -/
def archiveOf (source : Bytes) (files : List (Bytes × GnrlRecord)) : GnrlArchive where
  source := source
  entries := files.map fun file => entryOf file.1 file.2
  records := files.map Prod.snd
  index := indexEntries (files.map fun file => entryOf file.1 file.2)

/-- The listed paths are the normal forms of the names. -/
theorem map_path_archiveOf (source : Bytes) (files : List (Bytes × GnrlRecord)) :
    (archiveOf source files).entries.map ArchiveEntry.path =
      (files.map Prod.fst).map normalisePath := by
  rw [archiveOf, List.map_map, List.map_map]
  rfl

variable {fileCount : UInt32} {tableOffset : UInt64}

/-- Where the name table fits, an archive of general files opens or is refused without a fault. -/
theorem parse_spec (short : source.length < 2 ^ 63)
    (fits : fileCount.toNat ≠ 0 → tableOffset.toNat + 2 < 2 ^ 64) :
    (∃ archive names, GnrlArchive.parse source fileCount tableOffset = .ok archive ∧
      Ba2.storedNames fileCount.toNat (source.drop tableOffset.toNat) = some names ∧
      24 + fileCount.toNat * 36 ≤ source.length ∧ (∀ i < fileCount.toNat, Marked source i) ∧
      archive.source = source ∧ archive.index = indexEntries archive.entries ∧
      archive.entries.map ArchiveEntry.path = names.map normalisePath ∧
      ∀ i < fileCount.toNat, archive.records[i]? = some (recordAt source i)) ∨
    ((∀ names, Ba2.storedNames fileCount.toNat (source.drop tableOffset.toNat) = some names →
        ¬∀ i < fileCount.toNat, Marked source i) ∨
      source.length < 24 + fileCount.toNat * 36) ∧
      ∃ message, GnrlArchive.parse source fileCount tableOffset = .error (.corrupt message) := by
  by_cases outside : source.length < recordsStart + fileCount.toNat * recordSize
  · exact .inr ⟨.inr outside, _, if_pos outside⟩
  · have inside : recordsStart + fileCount.toNat * recordSize ≤ source.length :=
      Nat.le_of_not_lt outside
    rcases @Ba2.parseNameTable_spec nameTableErrors source short tableOffset.toNat fileCount.toNat fits
      with ⟨names, stored, parsed⟩ | ⟨stored, message, refused⟩
    · have count := Ba2.length_storedNames stored
      have table : recordsStart + (0 + names.length) * recordSize ≤ source.length := by
        rwa [count, Nat.zero_add]
      rcases readRecords_spec names table with ⟨marked, files, read, firsts, seconds⟩ |
        ⟨⟨k, small, bad⟩, message, refused⟩
      · rw [count] at marked seconds
        simp only [Nat.zero_add] at marked seconds
        refine .inl ⟨archiveOf source files, names, ?_, stored, inside, marked, rfl, rfl, ?_, seconds⟩
        · simp only [GnrlArchive.parse, if_neg outside, parsed, ok_bind, read]
          rfl
        · rw [map_path_archiveOf, firsts]
      · refine .inr ⟨.inl fun other found marked => ?_, message, ?_⟩
        · rw [count] at small
          exact bad ((Nat.zero_add k).symm ▸ marked k small)
        · simp only [GnrlArchive.parse, if_neg outside, parsed, ok_bind, refused, error_bind]
    · refine .inr ⟨.inl fun other found => ?_, message, ?_⟩
      · rw [stored] at found
        contradiction
      · simp only [GnrlArchive.parse, if_neg outside, refused, error_bind]

/-- An archive of general files is opened and extracted without a fault exactly when its offsets
fit. -/
theorem harmless_iff (codecs : ArchiveCodecs) (short : source.length < 2 ^ 63) :
    ((∀ error, GnrlArchive.parse source fileCount tableOffset = .error error →
        error.isFault = false) ∧
      ∀ archive, GnrlArchive.parse source fileCount tableOffset = .ok archive → ∀ path error,
        (archive.find path).map (archive.extractByIndex codecs) = some (.error error) →
          error.isFault = false) ↔
      (24 + fileCount.toNat * 36 ≤ source.length →
        Fits source fileCount.toNat tableOffset.toNat) := by
  by_cases fits : fileCount.toNat ≠ 0 → tableOffset.toNat + 2 < 2 ^ 64
  · rcases @parse_spec source fileCount tableOffset short fits with
      ⟨archive, names, opened, stored, inside, marked, whole, index, paths, records⟩ |
      ⟨refused, message, failed⟩
    · have count := Ba2.length_storedNames stored
      have extracted {path : Bytes} {idx : Nat} (found : archive.find path = some idx) :
          idx < fileCount.toNat ∧ Ba2.IsLastName names idx := by
        rw [GnrlArchive.find, index, getElem?_indexEntries_names paths] at found
        obtain ⟨bound, _⟩ := List.getElem?_eq_some_iff.mp found.1
        rw [List.length_map, count] at bound
        exact ⟨bound, found.2⟩
      constructor
      · intro inRange _
        refine ⟨fits, fun others again _ i small last => ?_⟩
        obtain rfl : names = others := Option.some.inj (stored.symm.trans again)
        have listed : (names.map normalisePath)[i]? = some (normalisePath (names.get ⟨i, count ▸ small⟩)) := by
          rw [List.getElem?_map, List.getElem?_eq_getElem (count ▸ small)]
          rfl
        have found : archive.find (names.get ⟨i, count ▸ small⟩) = some i := by
          rw [GnrlArchive.find, index]
          exact (getElem?_indexEntries_names paths).mpr ⟨listed, last⟩
        by_contra large
        have fault := inRange.2 archive opened (names.get ⟨i, count ▸ small⟩) .overflow (by
          rw [found, Option.map_some, GnrlArchive.extractByIndex, records i small]
          exact congrArg some (Ba2.readStored_overflow (Nat.le_of_not_lt large)))
        exact absurd fault (by decide)
      · intro all
        refine ⟨fun error failed => ?_, fun other again path error failed => ?_⟩
        · rw [opened] at failed
          contradiction
        · obtain rfl := Except.ok.inj (opened.symm.trans again)
          obtain ⟨idx, found, failed⟩ := Option.map_eq_some_iff.mp failed
          obtain ⟨small, last⟩ := extracted found
          rw [GnrlArchive.extractByIndex, records idx small] at failed
          exact Ba2.isFault_readStored ((all inside).data names stored marked idx small last) failed
    · constructor
      · intro _ inside
        refine ⟨fits, fun names stored marked => ?_⟩
        rcases refused with bad | outside
        · exact absurd marked (bad names stored)
        · omega
      · intro _
        refine ⟨fun error found => ?_, fun archive opened => ?_⟩
        · obtain rfl := Except.error.inj (failed.symm.trans found)
          rfl
        · rw [failed] at opened
          contradiction
  · by_cases outside : source.length < recordsStart + fileCount.toNat * recordSize
    · have failed : GnrlArchive.parse source fileCount tableOffset =
          .error (.corrupt "GNRL file records out of bounds") := if_pos outside
      refine ⟨fun _ inside => absurd inside (Nat.not_le.mpr outside), fun _ => ⟨?_, ?_⟩⟩
      · intro error found
        obtain rfl := Except.error.inj (failed.symm.trans found)
        rfl
      · intro archive opened
        rw [failed] at opened
        contradiction
    · obtain ⟨some, large⟩ := Classical.not_imp.mp fits
      have failed : GnrlArchive.parse source fileCount tableOffset = .error .overflow := by
        simp only [GnrlArchive.parse, if_neg outside,
          Ba2.parseNameTable_overflow some (Nat.le_of_not_lt large), error_bind]
      constructor
      · intro inRange
        exact absurd (inRange.1 _ failed) (by decide)
      · intro all
        exact absurd ((all (Nat.le_of_not_lt outside)).names some) large

end Gnrl

namespace Dx10

variable {source : Bytes}

/-- A chunk record is read or refused without a fault. -/
theorem isFault_readChunk {i j pos : Nat} {error : BsaError}
    (failed : readChunk source i j pos = .error error) : error.isFault = false := by
  unfold readChunk at failed
  by_cases outside : source.length < pos + 24
  · rw [if_pos outside] at failed
    obtain rfl := Except.error.inj failed
    rfl
  · rw [if_neg outside, indexRange_eq (Nat.le_add_right pos 24) (Nat.le_of_not_lt outside), ok_bind]
      at failed
    dsimp only at failed
    split at failed
    · obtain rfl := Except.error.inj failed
      rfl
    · contradiction

/-- The chunk records are read or refused without a fault. -/
theorem isFault_readChunks {i count j pos : Nat} {error : BsaError}
    (failed : readChunks source i count j pos = .error error) : error.isFault = false := by
  induction count generalizing j pos with
  | zero => contradiction
  | succ count ih =>
    rcases bind_eq_error.mp failed with first | ⟨chunk, _, later⟩
    · exact isFault_readChunk first
    · rcases bind_eq_error.mp later with rest | ⟨chunks, _, none⟩
      · exact ih rest
      · contradiction

/-- A texture record is read or refused without a fault. -/
theorem isFault_readRecord {i pos : Nat} {error : BsaError}
    (failed : readRecord source i pos = .error error) : error.isFault = false := by
  unfold readRecord at failed
  by_cases outside : source.length < pos + 24
  · rw [if_pos outside] at failed
    obtain rfl := Except.error.inj failed
    rfl
  · rw [if_neg outside, indexRange_eq (Nat.le_add_right pos 24) (Nat.le_of_not_lt outside), ok_bind]
      at failed
    rcases bind_eq_error.mp failed with chunks | ⟨chunks, _, none⟩
    · exact isFault_readChunks chunks
    · contradiction

/-- The textures of the names are read, refused, or too large to be added up. -/
theorem readRecords_spec (names : List Bytes) {i pos : Nat} :
    ((∀ record ∈ storedRecords source names.length i pos, record.totalSize < 2 ^ 32) ∧
      (((storedRecords source names.length i pos).length = names.length ∧ ∃ files,
        readRecords source names i pos = .ok files ∧
          files.map (fun file => file.1.path) = names.map normalisePath ∧
          files.map Prod.snd = storedRecords source names.length i pos) ∨
        ((storedRecords source names.length i pos).length ≠ names.length ∧ ∃ error,
          readRecords source names i pos = .error error ∧ error.isFault = false))) ∨
    ((∃ record ∈ storedRecords source names.length i pos, 2 ^ 32 ≤ record.totalSize) ∧
      readRecords source names i pos = .error .overflow) := by
  induction names generalizing i pos with
  | nil => exact .inl ⟨by simp [storedRecords], .inl ⟨rfl, [], rfl, rfl, rfl⟩⟩
  | cons name names ih =>
    cases read : readRecord source i pos with
    | error error =>
      have none : storedRecords source (name :: names).length i pos = [] := by
        simp only [List.length_cons, storedRecords, read]
      rw [none]
      refine .inl ⟨by simp, .inr ⟨by simp, error, ?_, isFault_readRecord read⟩⟩
      simp only [readRecords, read, error_bind]
    | ok record =>
      have stored : storedRecords source (name :: names).length i pos =
          record :: storedRecords source names.length (i + 1) (record.stop pos) := by
        simp only [List.length_cons, storedRecords, read]
      rw [stored]
      by_cases small : record.totalSize < 2 ^ 32
      · have size : record.uncompressedSize = .ok (UInt32.ofNat record.totalSize) := if_pos small
        rcases @ih (i + 1) (record.stop pos) with
          ⟨fits, ⟨count, files, all, paths, records⟩ | ⟨count, error, failed, harmless⟩⟩ |
          ⟨⟨other, among, large⟩, failed⟩
        · have entry : readRecords source (name :: names) i pos = .ok
              (({ path := normalisePath name, uncompressedSize := UInt32.ofNat record.totalSize,
                  compressedSize := none }, record) :: files) := by
            simp only [readRecords, read, ok_bind, size, all]
            rfl
          refine .inl ⟨List.forall_mem_cons.mpr ⟨small, fits⟩,
            .inl ⟨by simp [count], _, entry, ?_, ?_⟩⟩
          · rw [List.map_cons, List.map_cons, paths]
          · rw [List.map_cons, records]
        · refine .inl ⟨List.forall_mem_cons.mpr ⟨small, fits⟩, .inr ⟨by simpa using count, error, ?_,
            harmless⟩⟩
          simp only [readRecords, read, ok_bind, size, failed, error_bind]
        · refine .inr ⟨⟨other, List.mem_cons_of_mem _ among, large⟩, ?_⟩
          simp only [readRecords, read, ok_bind, size, failed, error_bind]
      · have size : record.uncompressedSize = .error .overflow := if_neg small
        refine .inr ⟨⟨record, List.mem_cons_self, Nat.le_of_not_lt small⟩, ?_⟩
        simp only [readRecords, read, ok_bind, size, error_bind]

/-- The chunks of a texture are read without a fault exactly when the offsets of those that are
reached fit. -/
theorem isFault_extractChunks_iff (codecs : ArchiveCodecs) (chunks : List Dx10Chunk) {j : Nat} :
    (∀ error, extractChunks codecs source chunks j = .error error → error.isFault = false) ↔
      ∀ before chunk after, chunks = before ++ chunk :: after →
        (∀ earlier ∈ before, Readable codecs source earlier) →
        chunk.offset.toNat + Ba2.storedSize chunk.packedSize chunk.size < 2 ^ 64 := by
  induction chunks generalizing j with
  | nil => simp [extractChunks]
  | cons first chunks ih =>
    -- The first chunk is reached; the others are if it can be read.
    have split : (∀ before chunk after, first :: chunks = before ++ chunk :: after →
        (∀ earlier ∈ before, Readable codecs source earlier) →
        chunk.offset.toNat + Ba2.storedSize chunk.packedSize chunk.size < 2 ^ 64) ↔
        first.offset.toNat + Ba2.storedSize first.packedSize first.size < 2 ^ 64 ∧
        (Readable codecs source first → ∀ before chunk after, chunks = before ++ chunk :: after →
          (∀ earlier ∈ before, Readable codecs source earlier) →
          chunk.offset.toNat + Ba2.storedSize chunk.packedSize chunk.size < 2 ^ 64) := by
      constructor
      · intro all
        refine ⟨all [] first chunks rfl (by simp), fun readable before chunk after whole others => ?_⟩
        exact all (first :: before) chunk after (by rw [whole, List.cons_append])
          (List.forall_mem_cons.mpr ⟨readable, others⟩)
      · rintro ⟨fits, others⟩ before chunk after whole readable
        cases before with
        | nil =>
          obtain ⟨rfl, rfl⟩ := List.cons.inj whole
          exact fits
        | cons earlier before =>
          obtain ⟨rfl, rest⟩ := List.cons.inj whole
          obtain ⟨head, tail⟩ := List.forall_mem_cons.mp readable
          exact others head before chunk after rest tail
    rw [split]
    by_cases fits : first.offset.toNat + Ba2.storedSize first.packedSize first.size < 2 ^ 64
    · have stored := @Ba2.readStored_spec source codecs first.offset first.packedSize first.size
        (fun _ _ => s!"DX10 chunk {j} compressed data out of bounds")
        (fun _ _ => s!"DX10 chunk {j} data out of bounds") fits
      by_cases readable : Readable codecs source first
      · obtain ⟨data, read⟩ : ∃ data, Ba2.readStored codecs source first.offset first.packedSize
            first.size (fun _ _ => s!"DX10 chunk {j} compressed data out of bounds")
            (fun _ _ => s!"DX10 chunk {j} data out of bounds") = .ok data := by
          rcases stored with ⟨_, result⟩ | ⟨outside, _⟩
          · rw [result]
            by_cases packed : first.packedSize ≠ 0
            · obtain ⟨data, inflated⟩ := readable.2 packed
              exact ⟨data, by rw [if_pos packed, inflated]; rfl⟩
            · exact ⟨_, if_neg packed⟩
          · exact absurd readable.1 (Nat.not_le.mpr outside)
        have step : extractChunks codecs source (first :: chunks) j =
            (extractChunks codecs source chunks (j + 1)).map (data ++ ·) := by
          rw [extractChunks, read]
          cases extractChunks codecs source chunks (j + 1) <;> rfl
        rw [step]
        simp only [map_eq_error, fits, readable, true_and, forall_const]
        exact ih
      · have failed : ∃ error, Ba2.readStored codecs source first.offset first.packedSize
            first.size (fun _ _ => s!"DX10 chunk {j} compressed data out of bounds")
            (fun _ _ => s!"DX10 chunk {j} data out of bounds") = .error error := by
          rcases stored with ⟨inside, result⟩ | ⟨_, message, result⟩
          · rw [result]
            by_cases packed : first.packedSize ≠ 0
            · rw [if_pos packed]
              cases inflated : codecs.decompressZlib (Bytes.slice source first.offset.toNat
                  (first.offset.toNat + Ba2.storedSize first.packedSize first.size))
                  first.size.toNat with
              | error cause => exact ⟨_, rfl⟩
              | ok data => exact absurd ⟨inside, fun _ => ⟨data, inflated⟩⟩ readable
            · exact absurd ⟨inside, fun some => absurd some packed⟩ readable
          · exact ⟨_, result⟩
        obtain ⟨error, failed⟩ := failed
        have step : extractChunks codecs source (first :: chunks) j = .error error := by
          rw [extractChunks, failed]
          rfl
        refine ⟨fun _ => ⟨fits, fun readable' => absurd readable' readable⟩, fun _ other found => ?_⟩
        obtain rfl := Except.error.inj (step.symm.trans found)
        exact Ba2.isFault_readStored fits failed
    · have step : extractChunks codecs source (first :: chunks) j = .error .overflow := by
        rw [extractChunks, Ba2.readStored_overflow (Nat.le_of_not_lt fits)]
        rfl
      refine ⟨fun harmless => absurd (harmless _ step) (by decide), fun all => absurd all.1 fits⟩

variable {fileCount : UInt32} {tableOffset : UInt64}

/-- Where the name table and the sizes fit, an archive of textures opens or is refused without a
fault. -/
theorem parse_spec (short : source.length < 2 ^ 63)
    (fits : fileCount.toNat ≠ 0 → tableOffset.toNat + 2 < 2 ^ 64)
    (sizes : (Ba2.storedNames fileCount.toNat (source.drop tableOffset.toNat)).isSome →
      ∀ record ∈ storedRecords source fileCount.toNat 0 24, record.totalSize < 2 ^ 32) :
    (∃ archive names, Dx10Archive.parse source fileCount tableOffset = .ok archive ∧
      Ba2.storedNames fileCount.toNat (source.drop tableOffset.toNat) = some names ∧
      (storedRecords source fileCount.toNat 0 24).length = fileCount.toNat ∧
      archive.source = source ∧ archive.index = indexEntries archive.entries ∧
      archive.entries.map ArchiveEntry.path = names.map normalisePath ∧
      archive.records = storedRecords source fileCount.toNat 0 24) ∨
    ((Ba2.storedNames fileCount.toNat (source.drop tableOffset.toNat) = none ∨
        (storedRecords source fileCount.toNat 0 24).length ≠ fileCount.toNat) ∧
      ∃ error, Dx10Archive.parse source fileCount tableOffset = .error error ∧
        error.isFault = false) := by
  rcases @Ba2.parseNameTable_spec nameTableErrors source short tableOffset.toNat fileCount.toNat fits
    with ⟨names, stored, parsed⟩ | ⟨stored, message, refused⟩
  · have count := Ba2.length_storedNames stored
    have small := sizes (by rw [stored]; rfl)
    rcases @readRecords_spec source names 0 24 with
      ⟨_, ⟨all, files, read, paths, records⟩ | ⟨some, error, failed, harmless⟩⟩ |
      ⟨⟨record, among, large⟩, _⟩
    · rw [count] at all records
      refine .inl ⟨⟨source, files.map Prod.fst, files.map Prod.snd,
        indexEntries (files.map Prod.fst)⟩, names, ?_, stored, all, rfl, rfl, ?_, records⟩
      · simp only [Dx10Archive.parse, parsed, ok_bind, read]
        rfl
      · rw [← paths, List.map_map]
        rfl
    · rw [count] at some
      refine .inr ⟨.inr some, error, ?_, harmless⟩
      simp only [Dx10Archive.parse, parsed, ok_bind, failed, error_bind]
    · rw [count] at among
      exact absurd (small record among) (Nat.not_lt.mpr large)
  · refine .inr ⟨.inl stored, .corrupt message, ?_, rfl⟩
    simp only [Dx10Archive.parse, refused, error_bind]

/-- An archive of textures is opened and extracted without a fault exactly when its offsets and
sizes fit. -/
theorem harmless_iff (codecs : ArchiveCodecs) (short : source.length < 2 ^ 63) :
    ((∀ error, Dx10Archive.parse source fileCount tableOffset = .error error →
        error.isFault = false) ∧
      ∀ archive, Dx10Archive.parse source fileCount tableOffset = .ok archive → ∀ path error,
        (archive.find path).map (archive.extractByIndex codecs) = some (.error error) →
          error.isFault = false) ↔
      Fits codecs source fileCount.toNat tableOffset.toNat := by
  by_cases fits : fileCount.toNat ≠ 0 → tableOffset.toNat + 2 < 2 ^ 64
  · by_cases sizes : (Ba2.storedNames fileCount.toNat (source.drop tableOffset.toNat)).isSome →
        ∀ record ∈ storedRecords source fileCount.toNat 0 24, record.totalSize < 2 ^ 32
    · rcases @parse_spec source fileCount tableOffset short fits sizes with
        ⟨archive, names, opened, stored, all, whole, index, paths, records⟩ |
        ⟨refused, error, failed, harmless⟩
      · have extract {i : Nat} {record : Dx10Record} (here : archive.records[i]? = some record) :
            archive.extractByIndex codecs i = (extractChunks codecs source record.chunks 0).map
              fun data => record.header ++ data := by
          rw [Dx10Archive.extractByIndex, here, whole]
        have found {i : Nat} {path : Bytes} : archive.find path = some i ↔
            (names.map normalisePath)[i]? = some (normalisePath path) ∧ Ba2.IsLastName names i := by
          rw [Dx10Archive.find, index]
          exact getElem?_indexEntries_names paths
        constructor
        · intro inRange
          refine ⟨fits, sizes, fun others again _ i record here last => ?_⟩
          obtain rfl : names = others := Option.some.inj (stored.symm.trans again)
          rw [← records] at here
          apply (isFault_extractChunks_iff codecs record.chunks).mp
          intro error failed
          have small : i < names.length := by
            rw [Ba2.length_storedNames stored, ← all, ← records]
            exact (List.getElem?_eq_some_iff.mp here).1
          have listed : (names.map normalisePath)[i]? = some (normalisePath names[i]) := by
            rw [List.getElem?_map, List.getElem?_eq_getElem small]
            rfl
          apply inRange.2 archive opened names[i] error
          rw [found.mpr ⟨listed, last⟩, Option.map_some, extract here, failed]
          rfl
        · intro inFits
          refine ⟨fun error failed => ?_, fun other again path error failed => ?_⟩
          · rw [opened] at failed
            contradiction
          · obtain rfl := Except.ok.inj (opened.symm.trans again)
            obtain ⟨i, here, failed⟩ := Option.map_eq_some_iff.mp failed
            obtain ⟨listed, last⟩ := found.mp here
            obtain ⟨small, _⟩ := List.getElem?_eq_some_iff.mp listed
            rw [List.length_map, Ba2.length_storedNames stored, ← all, ← records] at small
            have record := List.getElem?_eq_getElem small
            rw [extract record] at failed
            apply (isFault_extractChunks_iff codecs archive.records[i].chunks).mpr
            · exact inFits.data names stored all i _ (records ▸ record) last
            · exact map_eq_error.mp failed
      · constructor
        · intro _
          refine ⟨fits, sizes, fun names stored all => ?_⟩
          rcases refused with none | some
          · rw [none] at stored
            contradiction
          · exact absurd all some
        · intro _
          refine ⟨fun other found => ?_, fun archive opened => ?_⟩
          · obtain rfl := Except.error.inj (failed.symm.trans found)
            exact harmless
          · rw [failed] at opened
            contradiction
    · refine ⟨fun inRange => ?_, fun inFits => absurd inFits.sizes sizes⟩
      obtain ⟨stored, large⟩ := Classical.not_imp.mp sizes
      obtain ⟨names, stored⟩ := Option.isSome_iff_exists.mp stored
      rcases @Ba2.parseNameTable_spec nameTableErrors source short tableOffset.toNat
        fileCount.toNat fits with ⟨others, again, parsed⟩ | ⟨none, _⟩
      · obtain rfl : names = others := Option.some.inj (stored.symm.trans again)
        rcases @readRecords_spec source names 0 24 with ⟨small, _⟩ | ⟨_, failed⟩
        · rw [Ba2.length_storedNames stored] at small
          exact absurd small large
        · have overflow : Dx10Archive.parse source fileCount tableOffset = .error .overflow := by
            simp only [Dx10Archive.parse, parsed, ok_bind, failed, error_bind]
          exact absurd (inRange.1 _ overflow) (by decide)
      · rw [stored] at none
        contradiction
  · obtain ⟨some, large⟩ := Classical.not_imp.mp fits
    have failed : Dx10Archive.parse source fileCount tableOffset = .error .overflow := by
      simp only [Dx10Archive.parse, Ba2.parseNameTable_overflow some (Nat.le_of_not_lt large),
        error_bind]
    exact ⟨fun inRange => absurd (inRange.1 _ failed) (by decide),
      fun inFits => absurd (inFits.names some) large⟩

end Dx10

namespace Ba2Archive

/-- A BA2 file is opened and extracted without a panic or an overflow exactly when its offsets and
sizes fit. -/
theorem inRange_iff_fits (codecs : ArchiveCodecs) (file : MappedFile) :
    InRange codecs file.bytes ↔ Fits codecs file.bytes := by
  have split : InRange codecs file.bytes ↔
      (∀ error, fromMmap file.bytes = .error error → error.isFault = false) ∧
        ∀ archive, fromMmap file.bytes = .ok archive → ∀ path error,
          archive.extract codecs path = some (.error error) → error.isFault = false :=
    ⟨fun inRange => ⟨inRange.opening, inRange.extracting⟩, fun all => ⟨all.1, all.2⟩⟩
  have refused {error : BsaError} (failed : fromMmap file.bytes = .error error)
      (harmless : error.isFault = false) : InRange codecs file.bytes := by
    refine ⟨fun other found => ?_, fun archive opened => ?_⟩
    · obtain rfl := Except.error.inj (failed.symm.trans found)
      exact harmless
    · rw [failed] at opened
      contradiction
  unfold Fits
  by_cases small : file.bytes.length < 24
  · have failed : fromMmap file.bytes = .error (.corrupt "file too small to be a BA2") :=
      if_pos small
    exact iff_of_true (refused failed rfl) fun long => absurd long (Nat.not_le.mpr small)
  by_cases magic : Bytes.slice file.bytes 0 4 = Ba2.magic
  swap
  · have failed : fromMmap file.bytes = .error (.invalidMagic (Bytes.slice file.bytes 0 4)) := by
      simp only [fromMmap, if_neg small, ne_eq, magic, not_false_eq_true, ↓reduceIte]
    exact iff_of_true (refused failed rfl) fun _ same => absurd same magic
  by_cases version : u32FromLeBytes (Bytes.slice file.bytes 4 8) ∈ Ba2.supportedVersions
  swap
  · have failed : fromMmap file.bytes =
        .error (.unsupportedVersion (u32FromLeBytes (Bytes.slice file.bytes 4 8))) := by
      simp only [fromMmap, if_neg small, ne_eq, magic, not_true_eq_false, version,
        not_false_eq_true, ↓reduceIte]
    exact iff_of_true (refused failed rfl) fun _ _ member => absurd member version
  have long := Nat.le_of_not_lt small
  simp only [long, magic, version, forall_const]
  by_cases general : Bytes.slice file.bytes 8 12 = Ba2.subGnrl
  · have other : Ba2.subGnrl ≠ Ba2.subDx10 := by decide
    have opened : fromMmap file.bytes = (Gnrl.GnrlArchive.parse file.bytes (fileCount file.bytes)
        (tableOffset file.bytes)).map .gnrl := by
      simp only [fromMmap, if_neg small, ne_eq, magic, not_true_eq_false, version, general,
        ↓reduceIte]
    rw [split, opened, general]
    simp only [true_implies, other, false_implies, and_true]
    rw [← Gnrl.harmless_iff codecs file.short]
    simp only [map_eq_error, map_eq_ok, forall_exists_index, and_imp, forall_apply_eq_imp_iff₂]
    rfl
  by_cases texture : Bytes.slice file.bytes 8 12 = Ba2.subDx10
  · have other : Ba2.subDx10 ≠ Ba2.subGnrl := by decide
    have opened : fromMmap file.bytes = (Dx10.Dx10Archive.parse file.bytes (fileCount file.bytes)
        (tableOffset file.bytes)).map .dx10 := by
      simp only [fromMmap, if_neg small, ne_eq, magic, not_true_eq_false, version, texture, other,
        ↓reduceIte]
    rw [split, opened, texture]
    simp only [other, true_implies, false_implies, true_and]
    rw [← Dx10.harmless_iff codecs file.short]
    simp only [map_eq_error, map_eq_ok, forall_exists_index, and_imp, forall_apply_eq_imp_iff₂]
    rfl
  · have failed : fromMmap file.bytes =
        .error (.unsupportedSubType (Bytes.slice file.bytes 8 12)) := by
      simp only [fromMmap, if_neg small, ne_eq, magic, not_true_eq_false, version, general, texture,
        ↓reduceIte]
    exact iff_of_true (refused failed rfl)
      ⟨fun same => absurd same general, fun same => absurd same texture⟩

/-- An archive of one general file with a name table at the offset -1. -/
def negativeTable : MappedFile where
  bytes := Ba2.magic ++ ([1, 0, 0, 0] ++ (Ba2.subGnrl ++ ([1, 0, 0, 0] ++
    (List.replicate 8 255 ++ List.replicate 36 0))))
  short := by decide

/-- Opening an archive with a negative table offset overflows. -/
theorem not_inRange_negativeTable :
    fromMmap negativeTable.bytes = .error .overflow ∧
      ∀ codecs, ¬InRange codecs negativeTable.bytes := by
  have failed : fromMmap negativeTable.bytes = .error .overflow := rfl
  exact ⟨failed, fun _ inRange => absurd (inRange.opening _ failed) (by decide)⟩

end Ba2Archive

end Bethkit
