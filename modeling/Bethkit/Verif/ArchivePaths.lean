import Bethkit.Spec.Packing

/-!
# Archive paths

Normalisation writes a path as the UTF-8 of its bytes taken as characters. Such text is taken apart
at ASCII bytes like the bytes themselves, and an ASCII path is only changed byte by byte.
-/

namespace Bethkit

open Lib

/-- The UTF-8 of bytes taken as characters. -/
def latin (raw : Bytes) : Bytes := raw.flatMap charFromByte

/-- A byte of a normalised path. -/
def normaliseByte (byte : UInt8) : UInt8 := if byte = 92 then 47 else byteToAsciiLowercase byte

/-- A normalised path is the UTF-8 of its normalised bytes. -/
theorem normalisePath_eq (path : Bytes) : normalisePath path = latin (path.map normaliseByte) := by
  rw [normalisePath, latin, List.flatMap_map]
  rfl

/-- What holds of 256 codes holds of every byte. -/
theorem forall_byte {holds : UInt8 → Prop} (all : ∀ code < 256, holds (UInt8.ofNat code))
    (byte : UInt8) : holds byte := by
  have here := all byte.toNat byte.toNat_lt
  rwa [UInt8.ofNat_toNat] at here

/-- A byte is written as the UTF-8 of its character. -/
theorem charFromByte_eq : ∀ byte : UInt8,
    charFromByte byte = String.utf8EncodeChar (Char.ofNat byte.toNat) :=
  forall_byte (by decide +kernel)

/-- A normalised path is valid UTF-8. -/
theorem strFromUtf8_latin (raw : Bytes) : (strFromUtf8 (latin raw)).isSome := by
  have text : strAsBytes (String.ofList (raw.map fun byte => Char.ofNat byte.toNat)) =
      latin raw := by
    simp [strAsBytes, List.utf8Encode, latin, List.flatMap_map, ← charFromByte_eq]
  rw [← text, strFromUtf8_asBytes]
  rfl

/-- A normalised path passes the check of the reader. -/
theorem strFromUtf8Or_latin (message : String) (raw : Bytes) :
    strFromUtf8Or message (latin raw) = .ok (latin raw) :=
  if_pos (strFromUtf8_latin raw)

/-- An ASCII byte is its own UTF-8. -/
theorem charFromByte_of_ascii {byte : UInt8} (ascii : byte < 128) : charFromByte byte = [byte] :=
  if_pos ascii

/-- ASCII bytes are their own UTF-8. -/
theorem latin_of_ascii {raw : Bytes} (ascii : ∀ byte ∈ raw, byte < 128) : latin raw = raw := by
  induction raw with
  | nil => rfl
  | cons byte raw rest =>
    rw [latin, List.flatMap_cons, charFromByte_of_ascii (ascii byte List.mem_cons_self)]
    exact congrArg (byte :: ·) (rest fun other member => ascii other (List.mem_cons_of_mem _ member))

/-- Normalisation keeps ASCII. -/
theorem normaliseByte_lt : ∀ byte : UInt8, byte < 128 → normaliseByte byte < 128 :=
  forall_byte (by decide +kernel)

/-- Only NUL is normalised to NUL. -/
theorem normaliseByte_ne_zero : ∀ byte : UInt8, byte ≠ 0 → normaliseByte byte ≠ 0 :=
  forall_byte (by decide +kernel)

/-- A normalised byte stays as it is. -/
theorem normaliseByte_idem : ∀ byte : UInt8,
    normaliseByte (normaliseByte byte) = normaliseByte byte :=
  forall_byte (by decide +kernel)

/-- A normalised ASCII path is normalised byte by byte. -/
theorem IsAsciiPath.normalisePath_eq {path : Bytes} (ascii : IsAsciiPath path) :
    normalisePath path = path.map normaliseByte := by
  rw [Bethkit.normalisePath_eq]
  refine latin_of_ascii fun byte member => ?_
  obtain ⟨source, among, rfl⟩ := List.mem_map.mp member
  exact normaliseByte_lt _ (ascii source among).2

/-- A normalised ASCII path is an ASCII path. -/
theorem IsAsciiPath.normalise {path : Bytes} (ascii : IsAsciiPath path) :
    IsAsciiPath (normalisePath path) := by
  rw [ascii.normalisePath_eq]
  intro byte member
  obtain ⟨source, among, rfl⟩ := List.mem_map.mp member
  exact ⟨normaliseByte_ne_zero _ (ascii source among).1, normaliseByte_lt _ (ascii source among).2⟩

/-- The separators of a path are found from the right. -/
theorem strRsplitOnce_eq_none {byte : UInt8} {bytes : Bytes} :
    strRsplitOnce byte bytes = none ↔ byte ∉ bytes := by
  induction bytes with
  | nil => simp [strRsplitOnce]
  | cons first rest ih =>
    rw [strRsplitOnce]
    cases found : strRsplitOnce byte rest with
    | some parts =>
      have member : byte ∈ rest := by
        by_contra absent
        rw [ih.mpr absent] at found
        cases found
      simp [member]
    | none =>
      have absent := ih.mp found
      by_cases same : first = byte
      · simp [same]
      · simp [same, absent, Ne.symm same]

/-- A path is split at its last separator. -/
theorem strRsplitOnce_append {byte : UInt8} (before : Bytes) {behind : Bytes}
    (last : byte ∉ behind) :
    strRsplitOnce byte (before ++ byte :: behind) = some (before, behind) := by
  induction before with
  | nil =>
    rw [List.nil_append, strRsplitOnce, strRsplitOnce_eq_none.mpr last]
    exact if_pos rfl
  | cons first before rest =>
    rw [List.cons_append, strRsplitOnce, rest]

/-- What stands around the last separator. -/
theorem strRsplitOnce_eq_some {byte : UInt8} {bytes before behind : Bytes} :
    strRsplitOnce byte bytes = some (before, behind) ↔
      bytes = before ++ byte :: behind ∧ byte ∉ behind := by
  constructor
  · intro found
    induction bytes generalizing before with
    | nil => cases found
    | cons first rest ih =>
      rw [strRsplitOnce] at found
      cases inner : strRsplitOnce byte rest with
      | some parts =>
        rw [inner] at found
        obtain ⟨rfl, rfl⟩ := Prod.mk.inj (Option.some.inj found)
        obtain ⟨rebuilt, last⟩ := ih inner
        exact ⟨by rw [List.cons_append, ← rebuilt], last⟩
      | none =>
        rw [inner] at found
        by_cases same : first = byte
        · simp only [same, if_true, Option.some.injEq, Prod.mk.injEq] at found
          obtain ⟨rfl, rfl⟩ := found
          exact ⟨by rw [same, List.nil_append], strRsplitOnce_eq_none.mp inner⟩
        · simp [same] at found
  · rintro ⟨rfl, last⟩
    exact strRsplitOnce_append before last

/-- A byte with its highest bits set is no ASCII byte. -/
theorem not_ascii_or {high low : UInt8} (large : 128 ≤ high.toNat) : ¬(high ||| low) < 128 := by
  rw [UInt8.lt_iff_toNat_lt, UInt8.toNat_or]
  have within : high.toNat ≤ high.toNat ||| low.toNat := Nat.left_le_or
  have bound : (128 : UInt8).toNat = 128 := rfl
  omega

/-- UTF-8 of a character outside ASCII has no ASCII bytes. -/
theorem not_ascii_of_mem_charFromByte {byte source : UInt8} (outside : ¬source < 128)
    (member : byte ∈ charFromByte source) : ¬byte < 128 := by
  rw [charFromByte, if_neg outside, List.mem_cons, List.mem_singleton] at member
  rcases member with leading | continuing
  · exact leading ▸ not_ascii_or (by decide)
  · exact continuing ▸ not_ascii_or (by decide)

/-- UTF-8 has an ASCII byte only where the text has its character. -/
theorem mem_latin {byte : UInt8} (ascii : byte < 128) {raw : Bytes} :
    byte ∈ latin raw ↔ byte ∈ raw := by
  have each (source : UInt8) : byte ∈ charFromByte source ↔ byte = source := by
    by_cases inside : source < 128
    · rw [charFromByte_of_ascii inside, List.mem_singleton]
    · constructor
      · intro member
        exact absurd ascii (not_ascii_of_mem_charFromByte inside member)
      · intro same
        exact absurd (same ▸ ascii) inside
  simp [latin, List.mem_flatMap, each]

/-- UTF-8 is split at ASCII bytes like the text. -/
theorem strRsplitOnce_latin {byte : UInt8} (ascii : byte < 128) (raw : Bytes) :
    strRsplitOnce byte (latin raw) =
      (strRsplitOnce byte raw).map fun parts => (latin parts.1, latin parts.2) := by
  cases found : strRsplitOnce byte raw with
  | none => exact strRsplitOnce_eq_none.mpr fun member =>
      strRsplitOnce_eq_none.mp found ((mem_latin ascii).mp member)
  | some parts =>
    obtain ⟨rfl, last⟩ := strRsplitOnce_eq_some.mp found
    refine strRsplitOnce_eq_some.mpr ⟨?_, fun member => last ((mem_latin ascii).mp member)⟩
    rw [latin, List.flatMap_append, List.flatMap_cons, charFromByte_of_ascii ascii]
    rfl

end Bethkit
