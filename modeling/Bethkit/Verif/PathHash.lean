import Bethkit.Spec.Ba2Packing
import Bethkit.Verif.ArchivePaths

/-!
# The hash of a path is a checksum of its folded bytes

Eight shifts at once are the table step of the source. The hash folds case and separators of every
byte and drops what is not ASCII, and so does the normalisation, whose UTF-8 of the other bytes has no
ASCII in it.
-/

namespace Bethkit

open Lib

/-- A step of the table is a shift of the register. -/
theorem toBitVec_crc32Step (register : UInt32) :
    (crc32Step register).toBitVec = Crc.shift 0xEDB88320 register.toBitVec := by
  have lowest : (register &&& 1 ≠ 0) ↔ register.toBitVec.getLsbD 0 = true := by
    rw [Ne, ← UInt32.toBitVec_inj, UInt32.toBitVec_and]
    show ¬(register.toBitVec &&& 1#32 = 0#32) ↔ _
    rw [BitVec.and_one_eq_setWidth_ofBool_getLsbD]
    cases register.toBitVec.getLsbD 0 with
    | false => decide
    | true => decide
  rw [crc32Step, Crc.shift]
  by_cases fed : register &&& 1 ≠ 0
  · rw [if_pos fed, if_pos (lowest.mp fed)]
    rfl
  · rw [if_neg fed, if_neg fun bit => fed (lowest.mpr bit)]
    rfl

/-- An entry of the table is eight shifts. -/
theorem toBitVec_crc32Table (index : UInt32) :
    (crc32Table index).toBitVec = (Crc.shift 0xEDB88320)^[8] index.toBitVec := by
  have steps : Function.Semiconj UInt32.toBitVec crc32Step (Crc.shift 0xEDB88320) :=
    toBitVec_crc32Step
  exact steps.iterate_right 8 index

/-- The step of the hash on the folded byte. -/
def foldByte (result : UInt32) (c : UInt8) : UInt32 :=
  (result >>> 8) ^^^ crc32Table ((result ^^^ c.toUInt32) &&& 0xFF)

/-- A bit of the mask of a byte. -/
theorem getLsbD_byteMask (index : Nat) : (0xFF#32).getLsbD index = decide (index < 8) := by
  have mask : (0xFF : Nat) = 2 ^ 8 - 1 := rfl
  rw [BitVec.getLsbD_ofNat, mask, Nat.testBit_two_pow_sub_one]
  by_cases low : index < 8
  · have within : index < 32 := by omega
    rw [decide_eq_true low, decide_eq_true within]
    rfl
  · rw [decide_eq_false low, Bool.and_false]

/-- A byte of the table-driven hash is its eight bits. -/
theorem toBitVec_foldByte (result : UInt32) (c : UInt8) :
    (foldByte result c).toBitVec = Crc.serial 0xEDB88320 result.toBitVec (byteBits c) := by
  let word : BitVec 32 := c.toBitVec.setWidth 32
  have clear : ∀ index, 8 ≤ index → word.getLsbD index = false := by
    intro index beyond
    rw [BitVec.getLsbD_setWidth, BitVec.getLsbD_of_ge c.toBitVec index beyond, Bool.and_false]
  have bits : byteBits c = (List.range 8).map word.getLsbD := by
    apply List.map_congr_left
    intro index less
    have within : index < 32 := by
      have bound := List.mem_range.mp less
      omega
    rw [BitVec.getLsbD_setWidth, decide_eq_true within, Bool.true_and]
  have gone : word >>> 8 = 0#32 := by
    apply BitVec.eq_of_getLsbD_eq
    intro index _
    rw [BitVec.getLsbD_ushiftRight, clear _ (Nat.le_add_right 8 index), BitVec.getLsbD_zero]
  have low : ∀ index < 8, ((result.toBitVec ^^^ word) &&& 0xFF#32).getLsbD index =
      (result.toBitVec ^^^ word).getLsbD index := by
    intro index less
    rw [BitVec.getLsbD_and, getLsbD_byteMask, decide_eq_true less, Bool.and_true]
  have high : ∀ index, 8 ≤ index →
      ((result.toBitVec ^^^ word) &&& 0xFF#32).getLsbD index = false := by
    intro index beyond
    rw [BitVec.getLsbD_and, getLsbD_byteMask, decide_eq_false (by omega), Bool.and_false]
  have step : (foldByte result c).toBitVec = (result.toBitVec >>> 8) ^^^
      (Crc.shift 0xEDB88320)^[8] ((result.toBitVec ^^^ word) &&& 0xFF#32) := by
    rw [foldByte, UInt32.toBitVec_xor, toBitVec_crc32Table]
    rfl
  rw [step, bits, Crc.serial_bits 0xEDB88320 8 result.toBitVec word clear,
    Crc.iterate_shift_split 0xEDB88320 8 _ _ low high, BitVec.ushiftRight_xor_distrib, gone,
    BitVec.xor_zero]

/-- An ASCII byte is folded. -/
theorem foldedAscii_cons_of_ascii {byte : UInt8} (ascii : byte < 128) (path : Bytes) :
    foldedAscii (byte :: path) =
      (if byte = 47 then 92 else byteToAsciiLowercase byte) :: foldedAscii path := by
  simp [foldedAscii, ascii]

/-- Another byte is dropped. -/
theorem foldedAscii_cons_of_not_ascii {byte : UInt8} (other : ¬byte < 128) (path : Bytes) :
    foldedAscii (byte :: path) = foldedAscii path := by
  simp [foldedAscii, other]

/-- Parts of a path are folded on their own. -/
theorem foldedAscii_append (first second : Bytes) :
    foldedAscii (first ++ second) = foldedAscii first ++ foldedAscii second := by
  rw [foldedAscii, List.filter_append, List.map_append]
  rfl

/-- The test of the source for ASCII. -/
theorem not_lt_iff_ascii (byte : UInt8) : ¬127 < byte ↔ byte < 128 := by
  rw [UInt8.lt_iff_toNat_lt, UInt8.lt_iff_toNat_lt]
  have bound : (128 : UInt8).toNat = 128 := rfl
  have last : (127 : UInt8).toNat = 127 := rfl
  omega

/-- The hash folds the bytes that are ASCII. -/
theorem hashFo4_eq_foldl (path : Bytes) : hashFo4 path = (foldedAscii path).foldl foldByte 0 := by
  have all : ∀ result : UInt32, path.foldl (fun (result : UInt32) byte =>
      if 127 < byte then result
      else
        let c := if byte = 47 then 92 else byteToAsciiLowercase byte
        (result >>> 8) ^^^ crc32Table ((result ^^^ c.toUInt32) &&& 0xFF)) result =
      (foldedAscii path).foldl foldByte result := by
    induction path with
    | nil => exact fun _ => rfl
    | cons byte path rest =>
      intro result
      rw [List.foldl_cons, rest]
      by_cases ascii : byte < 128
      · rw [if_neg ((not_lt_iff_ascii byte).mpr ascii), foldedAscii_cons_of_ascii ascii]
        rfl
      · rw [if_pos (not_not.mp fun low => ascii ((not_lt_iff_ascii byte).mp low)),
          foldedAscii_cons_of_not_ascii ascii]
  exact all 0

/-- The hash is the checksum of the folded bytes. -/
theorem hashFo4_eq_serialCrc32 (path : Bytes) : hashFo4 path = serialCrc32 (foldedAscii path) := by
  have run : ∀ (bytes : Bytes) (result : UInt32), (bytes.foldl foldByte result).toBitVec =
      Crc.serial 0xEDB88320 result.toBitVec (bytes.flatMap byteBits) := by
    intro bytes
    induction bytes with
    | nil => exact fun _ => rfl
    | cons byte bytes rest =>
      intro result
      rw [List.foldl_cons, rest, toBitVec_foldByte, List.flatMap_cons, Crc.serial, Crc.serial,
        Crc.serial, List.foldl_append]
  rw [hashFo4_eq_foldl, serialCrc32]
  exact UInt32.toBitVec_inj.mp (run (foldedAscii path) 0)

/-- The folded byte is the same after the normalisation. -/
theorem fold_normaliseByte : ∀ byte : UInt8, byte < 128 →
    (if normaliseByte byte = 47 then 92 else byteToAsciiLowercase (normaliseByte byte)) =
      if byte = 47 then 92 else byteToAsciiLowercase byte :=
  forall_byte (by decide +kernel)

/-- What is not ASCII stays so. -/
theorem normaliseByte_not_ascii : ∀ byte : UInt8, ¬byte < 128 → ¬normaliseByte byte < 128 :=
  forall_byte (by decide +kernel)

/-- A character outside ASCII is dropped. -/
theorem foldedAscii_charFromByte {byte : UInt8} (other : ¬byte < 128) :
    foldedAscii (charFromByte byte) = [] := by
  rw [foldedAscii, List.map_eq_nil_iff, List.filter_eq_nil_iff]
  intro part member
  rw [decide_eq_true_iff]
  exact not_ascii_of_mem_charFromByte other member

/-- A normalised path is folded like the path. -/
theorem foldedAscii_normalisePath (path : Bytes) :
    foldedAscii (normalisePath path) = foldedAscii path := by
  rw [normalisePath_eq, latin]
  induction path with
  | nil => rfl
  | cons byte path rest =>
    rw [List.map_cons, List.flatMap_cons, foldedAscii_append, rest]
    by_cases ascii : byte < 128
    · rw [charFromByte_of_ascii (normaliseByte_lt byte ascii),
        foldedAscii_cons_of_ascii (normaliseByte_lt byte ascii), fold_normaliseByte byte ascii,
        foldedAscii_cons_of_ascii ascii]
      rfl
    · rw [foldedAscii_charFromByte (normaliseByte_not_ascii byte ascii),
        foldedAscii_cons_of_not_ascii ascii]
      rfl

/-- The hash of a normalised path is that of the path. -/
theorem hashFo4_normalisePath (path : Bytes) : hashFo4 (normalisePath path) = hashFo4 path := by
  rw [hashFo4_eq_serialCrc32, foldedAscii_normalisePath, ← hashFo4_eq_serialCrc32]

/-- A split at one byte is a split at what becomes this byte. -/
theorem strRsplitOnce_map (separates : UInt8 → Bool) (change : UInt8 → UInt8) (target : UInt8)
    (same : ∀ byte, change byte = target ↔ separates byte = true) (path : Bytes) :
    strRsplitOnce target (path.map change) =
      (splitLast separates path).map fun parts => (parts.1.map change, parts.2.map change) := by
  induction path with
  | nil => rfl
  | cons byte path rest =>
    rw [List.map_cons, strRsplitOnce, splitLast, rest]
    cases splitLast separates path with
    | some parts => rfl
    | none =>
      by_cases separator : separates byte = true
      · simp [separator, (same byte).mpr separator]
      · have other : change byte ≠ target := fun equal => separator ((same byte).mp equal)
        simp [separator, other]

/-- A normalised path is split where the path is. -/
theorem strRsplitOnce_normalisePath (separates : UInt8 → Bool) {target : UInt8}
    (ascii : target < 128) (same : ∀ byte, normaliseByte byte = target ↔ separates byte = true)
    (path : Bytes) :
    strRsplitOnce target (normalisePath path) = (splitLast separates path).map fun parts =>
      (normalisePath parts.1, normalisePath parts.2) := by
  rw [normalisePath_eq, strRsplitOnce_latin ascii,
    strRsplitOnce_map separates normaliseByte target same, Option.map_map]
  cases splitLast separates path with
  | none => rfl
  | some parts => simp [normalisePath_eq]

/-- A split at one byte. -/
theorem splitLast_eq (target : UInt8) (path : Bytes) :
    splitLast (fun byte => byte = target) path = strRsplitOnce target path := by
  have mapped := strRsplitOnce_map (fun byte => byte = target) id target (by simp) path
  rw [List.map_id] at mapped
  rw [mapped]
  simp

/-- What becomes a slash. -/
theorem normaliseByte_eq_slash : ∀ byte : UInt8,
    normaliseByte byte = 47 ↔ decide (byte = 47 ∨ byte = 92) = true :=
  forall_byte (by decide +kernel)

/-- What becomes a dot. -/
theorem normaliseByte_eq_dot : ∀ byte : UInt8,
    normaliseByte byte = 46 ↔ decide (byte = 46) = true :=
  forall_byte (by decide +kernel)

/-- The parts of a normalised path are the normalised parts. -/
theorem splitDirFilename_normalisePath (path : Bytes) :
    Write.splitDirFilename (normalisePath path) =
      (normalisePath (spelledParts path).1, normalisePath (spelledParts path).2) := by
  rw [Write.splitDirFilename, spelledParts,
    strRsplitOnce_normalisePath _ (by decide) normaliseByte_eq_slash]
  cases splitLast (fun byte => byte = 47 ∨ byte = 92) path with
  | none => rfl
  | some parts => rfl

/-- The stem and the extension of a normalised name are the normalised ones. -/
theorem splitStemExt_normalisePath (name : Bytes) : Write.splitStemExt (normalisePath name) =
    (normalisePath (Write.splitStemExt name).1, normalisePath (Write.splitStemExt name).2) := by
  rw [Write.splitStemExt, Write.splitStemExt,
    strRsplitOnce_normalisePath _ (by decide) normaliseByte_eq_dot, splitLast_eq]
  cases strRsplitOnce 46 name with
  | none => rfl
  | some parts => rfl

/-- A hash is the checksum of the folded bytes, and the hashes of a record are those of the path as
it was spelled. -/
theorem hashFo4_folded (path : Bytes) : HashesFolded path := by
  refine ⟨hashFo4_eq_serialCrc32 path, hashFo4_normalisePath path, ?_⟩
  rw [Write.pathHashes, spelledHashes, splitDirFilename_normalisePath]
  simp only [splitStemExt_normalisePath, hashFo4_normalisePath]

end Bethkit
