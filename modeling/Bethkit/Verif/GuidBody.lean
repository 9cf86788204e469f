import Bethkit.Lib.Outcome
import Bethkit.Spec.EditText
import Bethkit.Verif.Numerals

/-!
# Groups of digits that spell a GUID

The parser takes each group of digits as a numeral that may have a plus sign. A text is read as a GUID
exactly when its groups spell the parts of the GUID in such numerals, two characters for each byte.
-/

namespace Bethkit

open Lib

/-- The characters of a hexadecimal numeral, with or without a sign. -/
structure IsHexText (char : Char) : Prop where
  /-- A sign or a digit. -/
  listed : char = '+' ∨ (charToDigit 16 char).isSome

/-- The characters of a numeral are those of hexadecimal numerals. -/
theorem IsHexText.of_denotes {chars : List Char} {value : Nat}
    (denotes : DenotesSigned 16 chars value) {char : Char} (found : char ∈ chars) :
    IsHexText char :=
  ⟨denotes.isDigit found⟩

namespace IsHexText

variable {char : Char}

/-- They are ASCII. -/
theorem ascii (hex : IsHexText char) : char.toNat < 128 := by
  rcases hex.listed with plus | digit
  · rw [plus]
    decide
  · rw [charToDigit, charValue] at digit
    by_contra outside
    have noDigit : ¬(48 ≤ char.toNat ∧ char.toNat ≤ 57) := by omega
    have noLower : ¬(97 ≤ char.toNat ∧ char.toNat ≤ 122) := by omega
    have noUpper : ¬(65 ≤ char.toNat ∧ char.toNat ≤ 90) := by omega
    rw [if_neg noDigit, if_neg noLower, if_neg noUpper] at digit
    cases digit

/-- They differ from every character that is neither a sign nor a digit. -/
theorem ne (hex : IsHexText char) {other : Char} (noSign : other ≠ '+')
    (noDigit : charToDigit 16 other = none) : char ≠ other := by
  intro same
  rcases hex.listed with plus | digit
  · exact noSign (same ▸ plus)
  · rw [same, noDigit] at digit
    cases digit

end IsHexText

/-- ASCII characters are bytes. -/
theorem strAsBytes_of_ascii {chars : List Char} (ascii : ∀ char ∈ chars, char.toNat < 128) :
    strAsBytes (String.ofList chars) = chars.map fun char => UInt8.ofNat char.toNat := by
  have each : chars.flatMap String.utf8EncodeChar = chars.map fun char => UInt8.ofNat char.toNat := by
    induction chars with
    | nil => rfl
    | cons char chars ih =>
      have encoded := utf8EncodeChar_ascii char.toNat (ascii char List.mem_cons_self)
      rw [Char.ofNat_toNat] at encoded
      rw [List.flatMap_cons, encoded, ih fun other found => ascii other (List.mem_cons_of_mem _ found)]
      rfl
  rw [← each]
  simp [strAsBytes, List.utf8Encode]

/-- The size of a string is the number of its bytes. -/
theorem utf8ByteSize_eq (text : String) : text.utf8ByteSize = (strAsBytes text).length := by
  rw [strAsBytes, String.toUTF8_eq_toByteArray, Array.length_toList]
  rfl

/-- The size of ASCII text is the number of its characters. -/
theorem utf8ByteSize_of_ascii {chars : List Char} (ascii : ∀ char ∈ chars, char.toNat < 128) :
    (String.ofList chars).utf8ByteSize = chars.length := by
  rw [utf8ByteSize_eq, strAsBytes_of_ascii ascii, List.length_map]

/-- Bytes that are valid UTF-8 are those of their text. -/
theorem strAsBytes_of_strFromUtf8 {bytes : Bytes} {text : String}
    (valid : strFromUtf8 bytes = some text) : strAsBytes text = bytes := by
  unfold strFromUtf8 String.fromUTF8? at valid
  split at valid
  · cases valid
    rfl
  · cases valid

/-- Digits are read as a value exactly when they denote it. -/
theorem parseGuidHex_eq_ok {limit value : Nat} {chars : List Char} (room : 0 < limit) :
    parseGuidHex limit (String.ofList chars) = .ok value ↔
      chars ≠ [] ∧ DenotesSigned 16 chars value ∧ value < limit := by
  have same : parseGuidHex limit (String.ofList chars) = .ok value ↔
      fromStrRadix limit 16 (String.ofList chars) = .ok value := by
    rw [parseGuidHex]
    cases fromStrRadix limit 16 (String.ofList chars) with
    | ok number =>
      constructor
      · exact fun same => congrArg Except.ok (Except.ok.inj same)
      · exact fun same => congrArg Except.ok (Except.ok.inj same)
    | error error =>
      constructor
      · exact fun read => by cases read
      · exact fun read => by cases read
  rw [same, fromStrRadix_eq_ok (by decide) room]

/-- A group of digits is read as a word exactly when it denotes the word. -/
theorem parseGuidHex_group {limit value : Nat} {chars : List Char} (nonempty : chars ≠ [])
    (fits : 16 ^ chars.length = limit) :
    parseGuidHex limit (String.ofList chars) = .ok value ↔ DenotesSigned 16 chars value := by
  have room : 0 < limit := fits ▸ Nat.pow_pos (by decide)
  rw [parseGuidHex_eq_ok room]
  constructor
  · exact fun read => read.2.1
  · exact fun denotes => ⟨nonempty, denotes, fits ▸ denotes.lt (by decide)⟩

/-- Two bytes are read as a byte exactly when they are two characters that denote it. -/
theorem parseGuidByte_eq_ok {chunk : Bytes} (sized : chunk.length = 2) {byte : UInt8} :
    parseGuidByte chunk = .ok byte ↔
      ∃ pair : List Char, chunk = strAsBytes (String.ofList pair) ∧ pair.length = 2 ∧
        DenotesSigned 16 pair byte.toNat := by
  constructor
  · intro read
    unfold parseGuidByte at read
    cases valid : strFromUtf8 chunk with
    | none =>
      rw [valid] at read
      cases read
    | some text =>
      rw [valid] at read
      have steps : ∃ value, parseGuidHex 256 text = .ok value ∧
          (.ok (UInt8.ofNat value) : Except SemanticError UInt8) = .ok byte := bind_eq_ok.mp read
      obtain ⟨value, parsed, same⟩ := steps
      have encoded := strAsBytes_of_strFromUtf8 valid
      rw [← text.ofList_toList] at encoded parsed
      have denotes := (parseGuidHex_eq_ok (by decide)).mp parsed
      have size := strAsBytes_of_ascii fun char found => (IsHexText.of_denotes denotes.2.1 found).ascii
      refine ⟨text.toList, encoded.symm, ?_, ?_⟩
      · rw [← sized, ← encoded, size, List.length_map]
      · rw [← Except.ok.inj same, UInt8.toNat_ofNat_of_lt' denotes.2.2]
        exact denotes.2.1
  · intro written
    obtain ⟨pair, encoded, length, denotes⟩ := written
    have nonempty : pair ≠ [] := List.ne_nil_of_length_pos (by omega)
    have fits : 16 ^ pair.length = 256 := congrArg (16 ^ ·) length
    have parsed := (parseGuidHex_group nonempty fits).mpr denotes
    rw [parseGuidByte, encoded, strFromUtf8_asBytes]
    show (parseGuidHex 256 (String.ofList pair) >>= fun value => .ok (UInt8.ofNat value)) = _
    rw [parsed, ok_bind, UInt8.ofNat_toNat]

/-- The bytes of a text in two parts. -/
theorem strAsBytes_append (front back : List Char) :
    strAsBytes (String.ofList (front ++ back)) =
      strAsBytes (String.ofList front) ++ strAsBytes (String.ofList back) := by
  simp [strAsBytes, List.utf8Encode]

/-- Pairs of characters that denote bytes. -/
structure SpellsBytes (pairs : List (List Char)) (tail : Bytes) : Prop where
  /-- Each has two characters. -/
  sized : ∀ pair ∈ pairs, pair.length = 2
  /-- Each denotes a byte. -/
  denotes : List.Forall₂ (fun pair byte => DenotesSigned 16 pair (UInt8.toNat byte)) pairs tail

/-- What holds of the characters of numerals holds of those of pairs that denote bytes. -/
theorem forall_mem_pairs {numeral : List Char → Nat → Prop} {holds : Char → Prop}
    (each : ∀ part value, numeral part value → ∀ char ∈ part, holds char)
    {pairs : List (List Char)} {tail : Bytes}
    (denotes : List.Forall₂ (fun pair byte => numeral pair (UInt8.toNat byte)) pairs tail) :
    ∀ pair ∈ pairs, ∀ char ∈ pair, holds char := by
  induction denotes with
  | nil => exact fun pair found => absurd found List.not_mem_nil
  | cons here _ ih => exact List.forall_mem_cons.mpr ⟨each _ _ here, ih⟩

/-- The characters of the pairs are those of numerals. -/
theorem SpellsBytes.isHexText {pairs : List (List Char)} {tail : Bytes}
    (spelled : SpellsBytes pairs tail) : ∀ pair ∈ pairs, ∀ char ∈ pair, IsHexText char :=
  forall_mem_pairs (fun _ _ denotes _ found => .of_denotes denotes found) spelled.denotes

/-- Chunks that are read as bytes are the bytes of pairs that denote these. -/
theorem exists_pairs {chunks : List Bytes} {tail : Bytes}
    (read : List.Forall₂ (fun chunk byte => parseGuidByte chunk = .ok byte) chunks tail)
    (sized : ∀ chunk ∈ chunks, chunk.length = 2) :
    ∃ pairs, SpellsBytes pairs tail ∧
      chunks.flatten = strAsBytes (String.ofList pairs.flatten) := by
  induction read with
  | nil => exact ⟨[], ⟨by simp, .nil⟩, by simp [strAsBytes]⟩
  | @cons chunk byte chunks tail here _ ih =>
    obtain ⟨pairs, spelled, joined⟩ := ih fun other found => sized other (List.mem_cons_of_mem _ found)
    obtain ⟨pair, encoded, length, denotes⟩ :=
      (parseGuidByte_eq_ok (sized chunk List.mem_cons_self)).mp here
    refine ⟨pair :: pairs, ⟨?_, .cons denotes spelled.denotes⟩, ?_⟩
    · exact List.forall_mem_cons.mpr ⟨length, spelled.sized⟩
    · rw [List.flatten_cons, List.flatten_cons, strAsBytes_append, joined, encoded]

/-- Pairs that denote bytes are read as these. -/
theorem SpellsBytes.read {pairs : List (List Char)} {tail : Bytes} (spelled : SpellsBytes pairs tail) :
    (asChunks 2 (strAsBytes (String.ofList pairs.flatten))).mapM parseGuidByte = .ok tail := by
  have hex := spelled.isHexText
  obtain ⟨sized, denotes⟩ := spelled
  have chunks : asChunks 2 (strAsBytes (String.ofList pairs.flatten)) =
      pairs.map fun pair => strAsBytes (String.ofList pair) := by
    have joined : strAsBytes (String.ofList pairs.flatten) =
        (pairs.map fun pair => strAsBytes (String.ofList pair)).flatten := by
      clear sized denotes hex
      induction pairs with
      | nil => simp [strAsBytes]
      | cons pair pairs ih =>
        rw [List.flatten_cons, strAsBytes_append, ih, List.map_cons, List.flatten_cons]
    rw [joined]
    refine asChunks_flatten (by decide) fun chunk found => ?_
    obtain ⟨pair, listed, same⟩ := List.mem_map.mp found
    rw [← same, strAsBytes_of_ascii fun char inside => (hex pair listed char inside).ascii,
      List.length_map, sized pair listed]
  rw [chunks, mapM_eq_ok, List.forall₂_map_left_iff]
  clear chunks hex
  induction denotes with
  | nil => exact .nil
  | cons here _ ih =>
    obtain ⟨length, sized⟩ := List.forall_mem_cons.mp sized
    refine .cons ?_ (ih sized)
    have ascii := strAsBytes_of_ascii fun char inside => (IsHexText.of_denotes here inside).ascii
    exact (parseGuidByte_eq_ok (by rw [ascii, List.length_map, length])).mpr ⟨_, rfl, length, here⟩

/-- The bytes of the tail are read exactly when each pair of its characters denotes one. -/
theorem mapM_parseGuidByte_eq_ok {chars : List Char} {tail : Bytes}
    (sized : (String.ofList chars).utf8ByteSize % 2 = 0) :
    (asChunks 2 (strAsBytes (String.ofList chars))).mapM parseGuidByte = .ok tail ↔
      ∃ pairs, pairs.flatten = chars ∧ SpellsBytes pairs tail := by
  rw [utf8ByteSize_eq] at sized
  obtain ⟨joined, chunkSize⟩ := flatten_asChunks (by decide) sized
  constructor
  · intro read
    obtain ⟨pairs, spelled, same⟩ := exists_pairs (mapM_eq_ok.mp read) chunkSize
    have equal := strAsBytes_injective (joined.symm.trans same)
    exact ⟨pairs, (String.ofList_injective equal).symm, spelled⟩
  · intro written
    obtain ⟨pairs, same, spelled⟩ := written
    rw [← same]
    exact spelled.read

/-- The bytes of a GUID from its parts. -/
def guidBytes (data1 : UInt32) (data2 data3 : UInt16) (tail : Bytes) : Bytes :=
  u32ToLeBytes data1 ++ u16ToLeBytes data2 ++ u16ToLeBytes data3 ++ tail

/-- The parts are found again in the bytes of a GUID. -/
theorem slices_guidBytes (data1 : UInt32) (data2 data3 : UInt16) {tail : Bytes}
    (length : tail.length = 8) :
    Bytes.slice (guidBytes data1 data2 data3 tail) 0 4 = u32ToLeBytes data1 ∧
      Bytes.slice (guidBytes data1 data2 data3 tail) 4 6 = u16ToLeBytes data2 ∧
      Bytes.slice (guidBytes data1 data2 data3 tail) 6 8 = u16ToLeBytes data3 ∧
      Bytes.slice (guidBytes data1 data2 data3 tail) 8 16 = tail := by
  have whole : List.take 8 tail = tail := by rw [← length, List.take_length]
  simp [guidBytes, Bytes.slice, List.drop_append, whole, List.drop_eq_nil_of_le]

/-- Adjacent slices are put together. -/
theorem slice_append_slice (data : Bytes) {start middle stop : Nat} (first : start ≤ middle)
    (second : middle ≤ stop) :
    Bytes.slice data start middle ++ Bytes.slice data middle stop = Bytes.slice data start stop := by
  have size : stop - start = middle - start + (stop - middle) := by omega
  have behind : start + (middle - start) = middle := by omega
  rw [Bytes.slice, Bytes.slice, Bytes.slice, size, List.take_add, List.drop_drop, behind]

/-- The length of a slice of a GUID. -/
theorem length_slice_guid (guid : Guid) {start stop : Nat} (inside : stop ≤ 16) :
    (Bytes.slice guid.val start stop).length = stop - start := by
  rw [Bytes.slice, List.length_take, List.length_drop, guid.property]
  omega

/-- A GUID consists of its parts. -/
theorem guidBytes_slices (guid : Guid) :
    guidBytes (u32FromLeBytes (Bytes.slice guid.val 0 4)) (u16FromLeBytes (Bytes.slice guid.val 4 6))
      (u16FromLeBytes (Bytes.slice guid.val 6 8)) (Bytes.slice guid.val 8 16) = guid.val := by
  have size := guid.property
  rw [guidBytes, u32ToLeBytes_fromLeBytes _ (length_slice_guid guid (by decide)),
    u16ToLeBytes_fromLeBytes _ (length_slice_guid guid (by decide)),
    u16ToLeBytes_fromLeBytes _ (length_slice_guid guid (by decide)),
    slice_append_slice _ (by decide) (by decide), slice_append_slice _ (by decide) (by decide),
    slice_append_slice _ (by decide) (by decide)]
  exact List.take_of_length_le (Nat.le_of_eq size)

/-- A group that is read as a word denotes it, and has a character for each of its bytes. -/
theorem group_of_parseGuidHex {limit value : Nat} {group : String} (room : 0 < limit)
    (read : parseGuidHex limit group = .ok value) :
    DenotesSigned 16 group.toList value ∧ value < limit ∧
      group.toList.length = group.utf8ByteSize := by
  rw [← group.ofList_toList] at read
  obtain ⟨_, denotes, below⟩ := (parseGuidHex_eq_ok room).mp read
  have size := utf8ByteSize_of_ascii fun char found => (IsHexText.of_denotes denotes found).ascii
  rw [group.ofList_toList] at size
  exact ⟨denotes, below, size.symm⟩

/-- Groups that are read as bytes denote them, and have a character for each of their own bytes. -/
theorem groups_of_mapM_parseGuidByte {fourth fifth : String} {tail : Bytes}
    (size4 : fourth.utf8ByteSize = 4) (size5 : fifth.utf8ByteSize = 12)
    (read : (asChunks 2 (strAsBytes (fourth ++ fifth))).mapM parseGuidByte = .ok tail) :
    fourth.toList.length = 4 ∧ fifth.toList.length = 12 ∧ tail.length = 8 ∧
      List.Forall₂ (fun pair byte => DenotesSigned 16 pair (UInt8.toNat byte))
        (asChunks 2 (fourth.toList ++ fifth.toList)) tail := by
  have joins : fourth ++ fifth = String.ofList (fourth.toList ++ fifth.toList) := by
    rw [String.ofList_append, String.ofList_toList, String.ofList_toList]
  have even : (fourth ++ fifth).utf8ByteSize % 2 = 0 := by
    rw [String.utf8ByteSize_append, size4, size5]
  rw [joins] at read even
  obtain ⟨pairs, joined, spelled⟩ := (mapM_parseGuidByte_eq_ok even).mp read
  have hex : ∀ char ∈ fourth.toList ++ fifth.toList, IsHexText char := by
    rw [← joined]
    intro char found
    obtain ⟨pair, listed, inside⟩ := List.mem_flatten.mp found
    exact spelled.isHexText pair listed char inside
  have length4 := utf8ByteSize_of_ascii fun char found => (hex char (List.mem_append_left _ found)).ascii
  have length5 := utf8ByteSize_of_ascii fun char found => (hex char (List.mem_append_right _ found)).ascii
  rw [String.ofList_toList, size4] at length4
  rw [String.ofList_toList, size5] at length5
  have chunks : asChunks 2 (fourth.toList ++ fifth.toList) = pairs := by
    rw [← joined, asChunks_flatten (by decide) spelled.sized]
  have count := spelled.denotes.length_eq
  rw [← chunks, length_asChunks, List.length_append, ← length4, ← length5] at count
  rw [chunks]
  exact ⟨length4.symm, length5.symm, count.symm, spelled.denotes⟩

/-- Groups of characters that are given as texts. -/
theorem splitOn_of_texts {groups : List (List Char)} {first second third fourth fifth : String}
    (texts : groups.map String.ofList = [first, second, third, fourth, fifth]) :
    groups = [first.toList, second.toList, third.toList, fourth.toList, fifth.toList] := by
  have same := congrArg (List.map String.toList) texts
  rw [List.map_map] at same
  simpa [Function.comp_def] using same

/-- A text that is read as a GUID spells it. -/
theorem spells_of_parseGuidBody {body : List Char} {bytes : Bytes}
    (read : parseGuidBody (String.ofList body) = .ok bytes) :
    ∃ guid : Guid, guid.val = bytes ∧ Spells (DenotesSigned 16) body guid := by
  unfold parseGuidBody at read
  rw [String.toList_ofList] at read
  split at read
  · rename_i first second third fourth fifth texts
    split at read
    · cases read
    · rename_i shape
      push Not at shape
      obtain ⟨size1, size2, size3, size4, size5⟩ := shape
      obtain ⟨data1, parsed1, read⟩ := bind_eq_ok.mp read
      obtain ⟨data2, parsed2, read⟩ := bind_eq_ok.mp read
      obtain ⟨data3, parsed3, read⟩ := bind_eq_ok.mp read
      obtain ⟨tail, parsed4, same⟩ := bind_eq_ok.mp read
      obtain ⟨denotes1, below1, length1⟩ := group_of_parseGuidHex (by decide) parsed1
      obtain ⟨denotes2, below2, length2⟩ := group_of_parseGuidHex (by decide) parsed2
      obtain ⟨denotes3, below3, length3⟩ := group_of_parseGuidHex (by decide) parsed3
      obtain ⟨length4, length5, count, denotes4⟩ := groups_of_mapM_parseGuidByte size4 size5 parsed4
      obtain ⟨slice1, slice2, slice3, slice4⟩ :=
        slices_guidBytes (UInt32.ofNat data1) (UInt16.ofNat data2) (UInt16.ofNat data3) count
      have joined : ['-'].intercalate (body.splitOn '-') = body := List.intercalate_splitOn '-'
      rw [splitOn_of_texts texts] at joined
      have whole : guidBytes (UInt32.ofNat data1) (UInt16.ofNat data2) (UInt16.ofNat data3) tail =
          bytes := Except.ok.inj same
      rw [whole] at slice1 slice2 slice3 slice4
      have sized : bytes.length = 16 := by
        rw [← whole]
        simp [guidBytes, count]
      refine ⟨⟨bytes, sized⟩, rfl, ⟨first.toList, second.toList, third.toList, fourth.toList,
        fifth.toList, by omega, by omega, by omega, length4, length5⟩, ?_, ?_⟩
      · rw [← joined]
        simp [GuidGroups.text, List.intercalate]
      · constructor
        · rwa [slice1, u32FromLeBytes_toLeBytes, UInt32.toNat_ofNat_of_lt' below1]
        · rwa [slice2, u16FromLeBytes_toLeBytes, UInt16.toNat_ofNat_of_lt' below2]
        · rwa [slice3, u16FromLeBytes_toLeBytes, UInt16.toNat_ofNat_of_lt' below3]
        · rwa [slice4]
  · cases read

/-- The last two groups consist of their pairs. -/
theorem GuidGroups.flatten_pairs (groups : GuidGroups) :
    (asChunks 2 (groups.fourth ++ groups.fifth)).flatten = groups.fourth ++ groups.fifth ∧
      ∀ pair ∈ asChunks 2 (groups.fourth ++ groups.fifth), pair.length = 2 := by
  have even : (groups.fourth ++ groups.fifth).length % 2 = 0 := by
    rw [List.length_append, groups.fourthLength, groups.fifthLength]
  exact flatten_asChunks (by decide) even

/-- What holds of the characters of numerals holds of those of the groups that spell a GUID. -/
theorem GuidGroups.Spell.forall_mem {numeral : List Char → Nat → Prop} {holds : Char → Prop}
    (each : ∀ part value, numeral part value → ∀ char ∈ part, holds char)
    {groups : GuidGroups} {guid : Guid} (spelled : groups.Spell numeral guid) :
    (∀ char ∈ groups.first, holds char) ∧ (∀ char ∈ groups.second, holds char) ∧
      (∀ char ∈ groups.third, holds char) ∧ ∀ char ∈ groups.fourth ++ groups.fifth, holds char := by
  refine ⟨each _ _ spelled.data1, each _ _ spelled.data2, each _ _ spelled.data3,
    fun char found => ?_⟩
  rw [← groups.flatten_pairs.1] at found
  obtain ⟨pair, listed, inside⟩ := List.mem_flatten.mp found
  exact forall_mem_pairs each spelled.data4 pair listed char inside

/-- A text that spells a GUID is read as the GUID. -/
theorem parseGuidBody_of_spells {body : List Char} {guid : Guid}
    (spells : Spells (DenotesSigned 16) body guid) :
    parseGuidBody (String.ofList body) = .ok guid.val := by
  obtain ⟨groups, rfl, spelled⟩ := spells
  obtain ⟨hex1, hex2, hex3, hex4⟩ :=
    spelled.forall_mem fun _ _ denotes _ found => IsHexText.of_denotes denotes found
  have noHyphen {group : List Char} (hex : ∀ char ∈ group, IsHexText char) : '-' ∉ group :=
    fun found => (hex _ found).ne (by decide) rfl rfl
  have hexFourth : ∀ char ∈ groups.fourth, IsHexText char :=
    fun char found => hex4 char (List.mem_append_left _ found)
  have hexFifth : ∀ char ∈ groups.fifth, IsHexText char :=
    fun char found => hex4 char (List.mem_append_right _ found)
  have split : groups.text.splitOn '-' =
      [groups.first, groups.second, groups.third, groups.fourth, groups.fifth] := by
    rw [GuidGroups.text, List.splitOn_append_cons_self_of_not_mem (noHyphen hex1),
      List.splitOn_append_cons_self_of_not_mem (noHyphen hex2),
      List.splitOn_append_cons_self_of_not_mem (noHyphen hex3),
      List.splitOn_append_cons_self_of_not_mem (noHyphen hexFourth),
      List.splitOn_eq_singleton (noHyphen hexFifth)]
  have size {group : List Char} (hex : ∀ char ∈ group, IsHexText char) :
      (String.ofList group).utf8ByteSize = group.length :=
    utf8ByteSize_of_ascii fun char found => (hex char found).ascii
  have shape : ¬((String.ofList groups.first).utf8ByteSize ≠ 8 ∨
      (String.ofList groups.second).utf8ByteSize ≠ 4 ∨
      (String.ofList groups.third).utf8ByteSize ≠ 4 ∨
      (String.ofList groups.fourth).utf8ByteSize ≠ 4 ∨
      (String.ofList groups.fifth).utf8ByteSize ≠ 12) := by
    rw [size hex1, size hex2, size hex3, size hexFourth, size hexFifth, groups.firstLength,
      groups.secondLength, groups.thirdLength, groups.fourthLength, groups.fifthLength]
    decide
  have word {group : List Char} {count limit value : Nat} (length : group.length = count + 1)
      (fits : 16 ^ (count + 1) = limit) (denotes : DenotesSigned 16 group value) :
      parseGuidHex limit (String.ofList group) = .ok value :=
    (parseGuidHex_group (List.ne_nil_of_length_pos (by omega)) (length ▸ fits)).mpr denotes
  have parsed1 : parseGuidHex (2 ^ 32) (String.ofList groups.first) = .ok _ :=
    word groups.firstLength rfl spelled.data1
  have parsed2 : parseGuidHex (2 ^ 16) (String.ofList groups.second) = .ok _ :=
    word groups.secondLength rfl spelled.data2
  have parsed3 : parseGuidHex (2 ^ 16) (String.ofList groups.third) = .ok _ :=
    word groups.thirdLength rfl spelled.data3
  have parsed4 : (asChunks 2 (strAsBytes (String.ofList groups.fourth ++
      String.ofList groups.fifth))).mapM parseGuidByte = .ok (Bytes.slice guid.val 8 16) := by
    obtain ⟨joined, sized⟩ := groups.flatten_pairs
    have read := SpellsBytes.read ⟨sized, spelled.data4⟩
    rwa [joined, String.ofList_append] at read
  unfold parseGuidBody
  rw [String.toList_ofList, split]
  simp only [List.map_cons, List.map_nil]
  rw [if_neg shape, parsed1, ok_bind, parsed2, ok_bind, parsed3, ok_bind, parsed4, ok_bind,
    UInt32.ofNat_toNat, UInt16.ofNat_toNat, UInt16.ofNat_toNat]
  exact congrArg Except.ok (guidBytes_slices guid)

/-- A text is read as a GUID exactly when it spells it. -/
theorem parseGuidBody_eq_ok {body : List Char} {bytes : Bytes} :
    parseGuidBody (String.ofList body) = .ok bytes ↔
      ∃ guid : Guid, guid.val = bytes ∧ Spells (DenotesSigned 16) body guid := by
  constructor
  · exact spells_of_parseGuidBody
  · intro spelled
    obtain ⟨guid, same, spells⟩ := spelled
    rw [parseGuidBody_of_spells spells, same]

/-- What holds of the characters of numerals and of hyphens holds of those of a spelled GUID. -/
theorem forall_mem_of_spells {numeral : List Char → Nat → Prop} {holds : Char → Prop}
    (each : ∀ part value, numeral part value → ∀ char ∈ part, holds char) (hyphen : holds '-')
    {body : List Char} {guid : Guid} (spells : Spells numeral body guid) :
    ∀ char ∈ body, holds char := by
  obtain ⟨groups, rfl, spelled⟩ := spells
  obtain ⟨first, second, third, last⟩ := spelled.forall_mem each
  obtain ⟨fourth, fifth⟩ := List.forall_mem_append.mp last
  unfold GuidGroups.text
  simp only [List.forall_mem_append, List.forall_mem_cons]
  exact ⟨first, hyphen, second, hyphen, third, hyphen, fourth, hyphen, fifth⟩

/-- A spelled GUID has no other characters. -/
theorem not_mem_of_spells {body : List Char} {guid : Guid}
    (spells : Spells (DenotesSigned 16) body guid) {other : Char} (noHyphen : other ≠ '-')
    (noSign : other ≠ '+') (noDigit : charToDigit 16 other = none) : other ∉ body := by
  intro found
  exact forall_mem_of_spells (fun _ _ denotes _ inside => (IsHexText.of_denotes denotes inside).ne
    noSign noDigit) noHyphen.symm spells other found rfl

/-- A spelled GUID is not empty. -/
theorem ne_nil_of_spells {numeral : List Char → Nat → Prop} {body : List Char} {guid : Guid}
    (spells : Spells numeral body guid) : body ≠ [] := by
  obtain ⟨groups, rfl, _⟩ := spells
  have length := groups.firstLength
  intro empty
  rw [GuidGroups.text, List.append_eq_nil_iff] at empty
  rw [empty.1] at length
  cases length

/-- Numerals of one kind are of another kind, if their characters allow it. -/
theorem Spells.mono {weak strong : List Char → Nat → Prop} {body : List Char} {guid : Guid}
    (implies : ∀ part value, (∀ char ∈ part, char ∈ body) → strong part value → weak part value)
    (spells : Spells strong body guid) : Spells weak body guid := by
  obtain ⟨groups, rfl, spelled⟩ := spells
  have pairs {pairs : List (List Char)} {tail : Bytes}
      (inside : ∀ pair ∈ pairs, ∀ char ∈ pair, char ∈ groups.text)
      (denotes : List.Forall₂ (fun pair byte => strong pair (UInt8.toNat byte)) pairs tail) :
      List.Forall₂ (fun pair byte => weak pair (UInt8.toNat byte)) pairs tail := by
    induction denotes with
    | nil => exact .nil
    | cons here _ ih =>
      obtain ⟨first, rest⟩ := List.forall_mem_cons.mp inside
      exact .cons (implies _ _ first here) (ih rest)
  refine ⟨groups, rfl, ⟨?_, ?_, ?_, pairs ?_ spelled.data4⟩⟩
  · exact implies _ _ (fun char found => by simp [GuidGroups.text, found]) spelled.data1
  · exact implies _ _ (fun char found => by simp [GuidGroups.text, found]) spelled.data2
  · exact implies _ _ (fun char found => by simp [GuidGroups.text, found]) spelled.data3
  · intro pair listed char found
    have member : char ∈ groups.fourth ++ groups.fifth := by
      rw [← groups.flatten_pairs.1]
      exact List.mem_flatten.mpr ⟨pair, listed, found⟩
    rcases List.mem_append.mp member with first | second
    · simp [GuidGroups.text, first]
    · simp [GuidGroups.text, second]

/-- A plain spelling is one that may have signs. -/
theorem Spells.signed {body : List Char} {guid : Guid} (spells : Spells (Denotes 16) body guid) :
    Spells (DenotesSigned 16) body guid :=
  .mono (fun _ _ _ denotes => .inl denotes) spells

/-- A spelling without signs is plain. -/
theorem Spells.plain {body : List Char} {guid : Guid} (spells : Spells (DenotesSigned 16) body guid)
    (unsigned : '+' ∉ body) : Spells (Denotes 16) body guid :=
  .mono (fun _ _ inside denotes => denotes.plain fun found => unsigned (inside _ found)) spells

/-- A plain spelling has no sign. -/
theorem Spells.unsigned {body : List Char} {guid : Guid} (spells : Spells (Denotes 16) body guid) :
    '+' ∉ body := by
  intro found
  have digits (part : List Char) (value : Nat) (denotes : Denotes 16 part value) (char : Char)
      (inside : char ∈ part) : char ≠ '+' := fun same => by
    have digit := denotes.isDigit inside
    rw [same] at digit
    cases digit
  exact forall_mem_of_spells digits (by decide) spells '+' found rfl

end Bethkit
