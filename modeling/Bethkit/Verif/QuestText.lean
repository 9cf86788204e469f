import Bethkit.Lib.Outcome
import Bethkit.Spec.EditText
import Bethkit.Verif.Numerals

/-!
# Numbers of quests are scanned from their texts

An edit text begins with a number, and a blank and a label may follow. The number is scanned and
parsed again, unless zeros were put before its minus sign. That happens to the listed numbers of one
digit behind a minus sign.
-/

namespace Bethkit

open Lib

/-- A text begins with some characters, and a blank follows if anything does. -/
def BeginsWith (text : String) (chars : List Char) : Prop :=
  ∃ rest, text = String.ofList (chars ++ rest) ∧ (rest = [] ∨ rest.head? = some ' ')

/-- A scan stops behind the characters that a text begins with. -/
theorem scannedText_of_beginsWith {kind : Char → Bool} {text : String} {chars : List Char}
    (begins : BeginsWith text chars) (nonempty : chars ≠ [])
    (visible : ∀ char ∈ chars, charIsWhitespace char = false)
    (all : ∀ char ∈ chars, kind char = true) (blank : kind ' ' = false) :
    scannedText kind text = String.ofList chars := by
  obtain ⟨rest, same, stops⟩ := begins
  have behind : (rest.rdropWhile charIsWhitespace).takeWhile kind = [] := by
    obtain ⟨tail, whole⟩ := List.rdropWhile_prefix charIsWhitespace rest
    cases shown : rest.rdropWhile charIsWhitespace with
    | nil => rfl
    | cons first more =>
      rw [shown] at whole
      rcases stops with none | space
      · rw [none] at whole
        cases whole
      · rw [← whole, List.cons_append, List.head?_cons] at space
        rw [List.takeWhile_cons_of_neg]
        rw [Option.some.inj space, blank]
        exact Bool.false_ne_true
  rw [scannedText, same, strTrim_append rest nonempty visible, String.toList_ofList,
    List.takeWhile_append_of_pos all, behind, List.append_nil]

/-- A numeral is a text that begins with itself. -/
theorem beginsWith_i64ToString (number : Int64) :
    BeginsWith (i64ToString number) (decimalChars number.toInt) :=
  ⟨[], by rw [List.append_nil, i64ToString], .inl rfl⟩

/-- A label follows behind a blank. -/
theorem beginsWith_append (chars : List Char) (label : String) :
    BeginsWith (String.ofList chars ++ " " ++ label) chars := by
  refine ⟨' ' :: label.toList, ?_, .inr rfl⟩
  apply String.toList_injective
  simp

/-- A text of characters alone. -/
theorem beginsWith_self (chars : List Char) : BeginsWith (String.ofList chars) chars :=
  ⟨[], by rw [List.append_nil], .inl rfl⟩

/-- A label of a stage or an objective begins with the padded number. -/
theorem beginsWith_formatIndexedLabel (index : Int64) (label : String) :
    BeginsWith (formatIndexedLabel index label) (paddedChars index) := by
  unfold formatIndexedLabel
  by_cases empty : strTrim label = ""
  · rw [if_pos empty]
    exact beginsWith_self _
  · rw [if_neg empty]
    exact beginsWith_append _ _

/-- A label of an alias begins with the padded number. -/
theorem beginsWith_formatVmadAliasLabel (questAlias : QuestAliasInfo) :
    BeginsWith (formatVmadAliasLabel questAlias) (paddedChars questAlias.index) := by
  unfold formatVmadAliasLabel
  by_cases empty : questAlias.editorId = ""
  · rw [if_pos empty]
    exact beginsWith_self _
  · rw [if_neg empty]
    exact beginsWith_append _ _

section Characters

variable {char : Char} {number : Int64}

/-- A digit is a digit for the scan. -/
theorem IsDecimal.isDigit (decimal : IsDecimal char) : char.isDigit = true := by
  rw [Char.isDigit, Bool.and_eq_true, decide_eq_true_eq, decide_eq_true_eq]
  exact ⟨decimal.lower, decimal.upper⟩

/-- The digit zero is a digit. -/
theorem isDecimal_zero : IsDecimal '0' := ⟨by decide, by decide⟩

/-- The characters of a numeral are a sign or digits, and digits if the number is not negative. -/
theorem mem_decimalChars {value : Int} (found : char ∈ decimalChars value) :
    (char = '-' ∧ value < 0) ∨ IsDecimal char := by
  rw [decimalChars] at found
  by_cases negative : value < 0
  · rw [if_pos negative] at found
    rcases List.mem_cons.mp found with sign | digit
    · exact .inl ⟨sign, negative⟩
    · exact .inr (isDecimal_of_mem_toDigits digit)
  · rw [if_neg negative] at found
    exact .inr (isDecimal_of_mem_toDigits found)

/-- Padding adds digits only. -/
theorem mem_paddedChars (found : char ∈ paddedChars number) :
    (char = '-' ∧ number.toInt < 0) ∨ IsDecimal char := by
  rcases List.mem_append.mp found with zero | digit
  · rw [List.eq_of_mem_replicate zero]
    exact .inr isDecimal_zero
  · exact mem_decimalChars digit

/-- A padded numeral is not empty. -/
theorem paddedChars_ne_nil (number : Int64) : paddedChars number ≠ [] :=
  List.append_ne_nil_of_right_ne_nil _ (visible_decimalChars _).1

/-- A sign or a digit is scanned for a signed number. -/
theorem isSignOrDigit_of {value : Int} (kinds : (char = '-' ∧ value < 0) ∨ IsDecimal char) :
    isSignOrDigit char = true := by
  rw [isSignOrDigit, Bool.or_eq_true, decide_eq_true_eq]
  exact kinds.imp And.left IsDecimal.isDigit

/-- A sign or a digit is visible. -/
theorem visible_of {value : Int} (kinds : (char = '-' ∧ value < 0) ∨ IsDecimal char) :
    charIsWhitespace char = false := by
  rcases kinds with sign | decimal
  · rw [sign.1]
    rfl
  · exact decimal.not_isWhitespace

end Characters

section Parsing

variable {number : Int64}

/-- Digits with leading zeros are parsed. -/
theorem parse_padded_toDigits (width magnitude : Nat) :
    ∃ digits, AreDigits 10 (List.leftpad width '0' (Nat.toDigits 10 magnitude)) digits ∧
      digitsValue 10 0 digits = magnitude := by
  obtain ⟨digits, are, same⟩ := exists_digits_toDigits (by decide : 1 < 10) id
    (charToDigit_digitChar (by decide)) magnitude
  rw [List.map_id] at are
  exact ⟨_, areDigits_zeros (by decide) _ are, (digitsValue_zeros _ _).trans same⟩

/-- A number that is not negative is written by its digits. -/
theorem decimalChars_of_nonneg (positive : 0 ≤ number.toInt) :
    decimalChars number.toInt = Nat.toDigits 10 number.toInt.natAbs := by
  rw [decimalChars, if_neg (Int.not_lt.mpr positive)]

/-- A padded number that is not negative is parsed. -/
theorem parseI32_padded_of_nonneg (positive : 0 ≤ number.toInt) (below : number.toInt < 2 ^ 31) :
    parseI32 (String.ofList (paddedChars number)) = .ok number.toInt := by
  obtain ⟨digits, are, same⟩ := parse_padded_toDigits 3 number.toInt.natAbs
  rw [← decimalChars_of_nonneg positive] at are
  have decimal : ∀ char ∈ paddedChars number, IsDecimal char := fun char found =>
    (mem_paddedChars found).resolve_left fun sign => by omega
  have read := parseI32_of_areDigits (paddedChars_ne_nil number) are decimal (by omega)
  have value : (digitsValue 10 0 digits : Int) = number.toInt := by omega
  rw [← value]
  exact read

/-- A number of at least two digits behind a minus sign is not padded. -/
theorem paddedChars_of_lt (small : number.toInt < -9) :
    paddedChars number = '-' :: Nat.toDigits 10 number.toInt.natAbs := by
  have long : 2 ≤ (Nat.toDigits 10 number.toInt.natAbs).length := by
    by_contra short
    have least : (Nat.toDigits 10 number.toInt.natAbs).length ≤ 1 := by omega
    rw [Nat.length_toDigits_le_iff (by decide) (by decide)] at least
    omega
  have none : 3 - (decimalChars number.toInt).length = 0 := by
    rw [decimalChars, if_pos (by omega), List.length_cons]
    omega
  rw [paddedChars, List.leftpad, none, List.replicate_zero, List.nil_append, decimalChars,
    if_pos (by omega)]

/-- A padded number is parsed, unless it is a negative number of one digit. -/
theorem parseI32_padded (small : ¬IsSmallNegative number) (low : -2 ^ 31 ≤ number.toInt)
    (high : number.toInt < 2 ^ 31) :
    parseI32 (String.ofList (paddedChars number)) = .ok number.toInt := by
  by_cases positive : 0 ≤ number.toInt
  · exact parseI32_padded_of_nonneg positive high
  · have far : number.toInt < -9 := by
      by_contra near
      exact small ⟨by omega, by omega⟩
    have same : -(number.toInt.natAbs : Int) = number.toInt := by omega
    rw [paddedChars_of_lt far, parseI32_minus (by omega), same]

/-- A negative number of one digit is not parsed behind a zero. -/
theorem parseI32_smallNegative (small : IsSmallNegative number) :
    parseI32 (String.ofList (paddedChars number)) = .error .invalidDigit := by
  obtain ⟨low, high⟩ := small
  unfold paddedChars
  generalize number.toInt = value at low high
  interval_cases value <;> decide

/-- A numeral is parsed. -/
theorem parseI32_decimal (low : -2 ^ 31 ≤ number.toInt) (high : number.toInt < 2 ^ 31) :
    parseI32 (String.ofList (decimalChars number.toInt)) = .ok number.toInt := by
  by_cases negative : number.toInt < 0
  · have same : -(number.toInt.natAbs : Int) = number.toInt := by omega
    rw [decimalChars, if_pos negative, parseI32_minus (by omega), same]
  · obtain ⟨digits, are, value⟩ := parse_padded_toDigits 0 number.toInt.natAbs
    have decimal : ∀ char ∈ decimalChars number.toInt, IsDecimal char := fun char found =>
      (mem_decimalChars found).resolve_left fun sign => by omega
    have bare : AreDigits 10 (decimalChars number.toInt) digits := by
      rw [decimalChars_of_nonneg (Int.not_lt.mp negative)]
      simpa [List.leftpad] using are
    have read := parseI32_of_areDigits (visible_decimalChars _).1 bare decimal (by omega)
    have same : (digitsValue 10 0 digits : Int) = number.toInt := by omega
    rw [← same]
    rw [← same] at read
    exact read

/-- A scan for a signed number finds the numeral that a text begins with. -/
theorem scan_decimal {text : String} (begins : BeginsWith text (decimalChars number.toInt)) :
    scannedText isSignOrDigit text = String.ofList (decimalChars number.toInt) :=
  scannedText_of_beginsWith begins (visible_decimalChars _).1 (visible_decimalChars _).2
    (fun _ found => isSignOrDigit_of (mem_decimalChars found)) (by decide)

/-- A scan for a signed number finds the padded numeral that a text begins with. -/
theorem scan_padded {text : String} (begins : BeginsWith text (paddedChars number)) :
    scannedText isSignOrDigit text = String.ofList (paddedChars number) :=
  scannedText_of_beginsWith begins (paddedChars_ne_nil number)
    (fun _ found => visible_of (mem_paddedChars found))
    (fun _ found => isSignOrDigit_of (mem_paddedChars found)) (by decide)

/-- A number of 32 bits. -/
structure IsI32 (number : Int64) : Prop where
  /-- From the least one. -/
  low : -2 ^ 31 ≤ number.toInt
  /-- Up to the greatest one. -/
  high : number.toInt < 2 ^ 31

/-- A word of 32 bits is one. -/
theorem isI32_toInt64 (number : Int32) : IsI32 number.toInt64 := by
  refine ⟨?_, ?_⟩ <;> rw [Int32.toInt_toInt64]
  · exact number.le_toInt
  · exact number.toInt_lt

/-- The result of a scan in a text, with or without a message of failure. -/
def Scans (text : String) (result : Except NumeralError Int) : Prop :=
  parseI32 (scannedText isSignOrDigit text) = result

/-- A text that begins with a numeral is scanned for it. -/
theorem scans_decimal {text : String} (bits : IsI32 number)
    (begins : BeginsWith text (decimalChars number.toInt)) : Scans text (.ok number.toInt) := by
  rw [Scans, scan_decimal begins, parseI32_decimal bits.low bits.high]

/-- A text that begins with a padded numeral is scanned for it exactly when no zero was put before
a minus sign. -/
theorem scans_padded {text : String} (bits : IsI32 number)
    (begins : BeginsWith text (paddedChars number)) :
    (¬IsSmallNegative number → Scans text (.ok number.toInt)) ∧
      (IsSmallNegative number → Scans text (.error .invalidDigit)) := by
  rw [Scans, Scans, scan_padded begins]
  exact ⟨fun large => parseI32_padded large bits.low bits.high, parseI32_smallNegative⟩

/-- A scanned number is parsed behind every name that is not the text. -/
theorem Scans.parseLeadingI32 {text : String} (scans : Scans text (.ok number.toInt)) :
    parseLeadingI32 text = number := by
  rw [Bethkit.parseLeadingI32, scans]
  exact Int64.ofInt_toInt number

/-- Where no number is scanned, the number is minus one. -/
theorem Scans.parseLeadingI32_error {text : String} {error : NumeralError}
    (scans : Scans text (.error error)) : Bethkit.parseLeadingI32 text = -1 := by
  rw [Bethkit.parseLeadingI32, scans]

/-- A scanned number is parsed. -/
theorem Scans.parsePrefixedI32 {text : String} (scans : Scans text (.ok number.toInt))
    (handler : String) : parsePrefixedI32 text handler = .ok number := by
  rw [Bethkit.parsePrefixedI32, scans]
  exact congrArg Except.ok (Int64.ofInt_toInt number)

/-- Where no number is scanned, parsing fails. -/
theorem Scans.parsePrefixedI32_error {text : String} {error : NumeralError}
    (scans : Scans text (.error error)) (handler : String) :
    Bethkit.parsePrefixedI32 text handler ≠ .ok number := by
  rw [Bethkit.parsePrefixedI32, scans]
  exact fun same => by cases same

end Parsing

section Sentinels

variable {game : SchemaGame} {number : Int64} {text : String} {chars : List Char}

/-- A text that begins as a number does is none of the names. -/
theorem not_sentinel_of_beginsWith (begins : BeginsWith text chars) (nonempty : chars ≠ [])
    (signs : ∀ char ∈ chars, isSignOrDigit char = true) (name : String)
    (other : name.toList.head?.any isSignOrDigit = false) : text ≠ name := by
  intro same
  obtain ⟨rest, whole, -⟩ := begins
  rw [← same, whole, String.toList_ofList] at other
  cases chars with
  | nil => contradiction
  | cons first chars =>
    rw [List.cons_append, List.head?_cons, Option.any_some, signs first List.mem_cons_self] at other
    cases other

/-- The names of aliases do not begin as numbers do. -/
theorem head_questAliasSentinels (game : SchemaGame) :
    ∀ entry ∈ questAliasSentinels game, entry.2.toList.head?.any isSignOrDigit = false := by
  cases game <;> decide +kernel

/-- Every name of an alias is found by itself. -/
theorem find_questAliasSentinels (game : SchemaGame) :
    ∀ entry ∈ questAliasSentinels game,
      (questAliasSentinels game).find? (·.2 = entry.2) = some entry := by
  cases game <;> decide +kernel

/-- A text that begins as a number does is scanned. -/
theorem parseQuestAlias_of_beginsWith (begins : BeginsWith text chars) (nonempty : chars ≠ [])
    (signs : ∀ char ∈ chars, isSignOrDigit char = true) :
    parseQuestAlias text game = parseLeadingI32 text := by
  have none : (questAliasSentinels game).find? (·.2 = text) = none := by
    rw [List.find?_eq_none]
    intro entry found same
    exact not_sentinel_of_beginsWith begins nonempty signs entry.2
      (head_questAliasSentinels game entry found) (of_decide_eq_true same).symm
  rw [parseQuestAlias, none]

/-- A text that begins as a number does is scanned. -/
theorem parseVmadAlias_of_beginsWith (begins : BeginsWith text chars) (nonempty : chars ≠ [])
    (signs : ∀ char ∈ chars, isSignOrDigit char = true) :
    parseVmadAlias text game = parseLeadingI32 text := by
  have noNone := not_sentinel_of_beginsWith begins nonempty signs "None" (by decide +kernel)
  have noPlayer := not_sentinel_of_beginsWith begins nonempty signs "Player" (by decide +kernel)
  rw [parseVmadAlias, if_neg noNone, if_neg fun player => noPlayer player.1]

/-- A name of an alias is parsed as its number. -/
theorem parseQuestAlias_sentinel {name : String} (named : questAliasSentinel number game = some name) :
    parseQuestAlias name game = number := by
  obtain ⟨entry, found, same⟩ := Option.map_eq_some_iff.mp named
  have valued := List.find?_some found
  rw [decide_eq_true_eq] at valued
  have read := find_questAliasSentinels game entry (List.mem_of_find?_eq_some found)
  rw [same] at read
  rw [parseQuestAlias, read]
  exact valued

/-- Minus one is an alias with a name in every game. -/
theorem isSome_questAliasSentinel_none (game : SchemaGame) :
    (questAliasSentinel (-1) game).isSome = true := by
  cases game <;> decide +kernel

end Sentinels

section Formats

variable {game : SchemaGame} {quest : Option FormLinkInfo} {number : Int64} {sourceName : String}
  {allowNone includeObjectives : Bool}

/-- A text that is a numeral or begins with a padded numeral, by whether the number is listed. -/
structure ShowsNumber (text : String) (number : Int64) (listed : Prop) : Prop where
  /-- A listed number is padded. -/
  padded : listed → BeginsWith text (paddedChars number)
  /-- Another number stands alone. -/
  plain : ¬listed → text = i64ToString number

/-- A text that is a numeral or begins with a padded numeral is scanned for it exactly when no zero
was put before a minus sign. -/
theorem ShowsNumber.scans {text : String} {listed : Prop} (shows : ShowsNumber text number listed)
    (bits : IsI32 number) :
    (¬(IsSmallNegative number ∧ listed) → Scans text (.ok number.toInt)) ∧
      (IsSmallNegative number ∧ listed → Scans text (.error .invalidDigit)) := by
  constructor
  · intro good
    by_cases member : listed
    · exact (scans_padded bits (shows.padded member)).1 fun small => good ⟨small, member⟩
    · exact scans_decimal bits (shows.plain member ▸ beginsWith_i64ToString number)
  · intro bad
    exact (scans_padded bits (shows.padded bad.2)).2 bad.1

/-- Such a text begins as a number does. -/
theorem ShowsNumber.begins {text : String} {listed : Prop}
    (shows : ShowsNumber text number listed) :
    ∃ chars, BeginsWith text chars ∧ chars ≠ [] ∧ ∀ char ∈ chars, isSignOrDigit char = true := by
  by_cases member : listed
  · exact ⟨_, shows.padded member, paddedChars_ne_nil number, fun _ found =>
      isSignOrDigit_of (mem_paddedChars found)⟩
  · exact ⟨_, shows.plain member ▸ beginsWith_i64ToString number, (visible_decimalChars _).1,
      fun _ found => isSignOrDigit_of (mem_decimalChars found)⟩

/-- A number of no quest is not listed. -/
theorem not_listsAlias_none : ¬ListsAlias none number := by
  intro lists
  obtain ⟨link, aliases, same, -⟩ := lists
  cases same

/-- A link that is no quest lists no alias. -/
theorem not_listsAlias {link : FormLinkInfo} (absent : link.questAliases = none) :
    ¬ListsAlias (some link) number := by
  intro lists
  obtain ⟨_, aliases, same, present, -⟩ := lists
  rw [← Option.some.inj same, absent] at present
  cases present

/-- The aliases that a quest lists. -/
theorem listsAlias_iff {link : FormLinkInfo} {aliases : List QuestAliasInfo}
    (present : link.questAliases = some aliases) :
    ListsAlias (some link) number ↔ ∃ found ∈ aliases, found.index = number := by
  constructor
  · intro lists
    obtain ⟨_, others, same, listed, found⟩ := lists
    rw [← Option.some.inj same, present] at listed
    rw [Option.some.inj listed]
    exact found
  · exact fun found => ⟨link, aliases, rfl, present, found⟩

/-- The first entry with a number has it; where there is none, no entry has it. -/
theorem find?_index {α : Type} (index : α → Int64) (entries : List α) :
    (∃ found, entries.find? (index · = number) = some found ∧ index found = number ∧
      ∃ found ∈ entries, index found = number) ∨
    (entries.find? (index · = number) = none ∧ ¬∃ found ∈ entries, index found = number) := by
  cases first : entries.find? (index · = number) with
  | some found =>
    have same := List.find?_some first
    rw [decide_eq_true_eq] at same
    exact .inl ⟨found, rfl, same, found, List.mem_of_find?_eq_some first, same⟩
  | none =>
    refine .inr ⟨rfl, fun listed => ?_⟩
    obtain ⟨found, member, same⟩ := listed
    exact List.find?_eq_none.mp first found member (decide_eq_true same)

/-- An alias without a name is shown by its number. -/
theorem formatQuestAlias_shows (unnamed : questAliasSentinel number game = none) :
    ShowsNumber (formatQuestAlias number .editValue game quest) number
      (ListsAlias quest number) := by
  unfold formatQuestAlias
  rw [unnamed]
  cases quest with
  | none => exact ⟨fun lists => absurd lists not_listsAlias_none, fun _ => rfl⟩
  | some link =>
    cases present : link.questAliases with
    | none =>
      simp only [present]
      exact ⟨fun lists => absurd lists (not_listsAlias present), fun _ => rfl⟩
    | some aliases =>
      rw [listsAlias_iff present]
      simp only [present]
      rcases find?_index QuestAliasInfo.index aliases with listed | absent
      · obtain ⟨found, first, same, member⟩ := listed
        rw [first]
        exact ⟨fun _ => same ▸ beginsWith_formatVmadAliasLabel found,
          fun other => absurd member other⟩
      · rw [absent.1]
        exact ⟨fun member => absurd member absent.2, fun _ => rfl⟩

/-- An alias of a script without a name is shown by its number. -/
theorem formatResolvedQuestAlias_shows (unnamed : vmadAliasIsSentinel number game = false) :
    ShowsNumber (formatResolvedQuestAlias number .editValue game quest) number
      (ListsAlias quest number) := by
  have notMinusOne : number ≠ -1 := by
    intro same
    rw [same] at unnamed
    simp [vmadAliasIsSentinel] at unnamed
  have fallback : unresolvedVmadAlias number .editValue game = i64ToString number := by
    unfold unresolvedVmadAlias
    exact if_neg notMinusOne
  unfold formatResolvedQuestAlias
  rw [fallback, if_neg (by simp [unnamed])]
  cases quest with
  | none => exact ⟨fun lists => absurd lists not_listsAlias_none, fun _ => rfl⟩
  | some link =>
    cases present : link.questAliases with
    | none =>
      simp only [present]
      exact ⟨fun lists => absurd lists (not_listsAlias present), fun _ => rfl⟩
    | some aliases =>
      rw [listsAlias_iff present]
      simp only [present]
      rcases find?_index QuestAliasInfo.index aliases with listed | absent
      · obtain ⟨found, first, same, member⟩ := listed
        rw [first]
        exact ⟨fun _ => same ▸ beginsWith_formatVmadAliasLabel found,
          fun other => absurd member other⟩
      · rw [absent.1]
        exact ⟨fun member => absurd member absent.2, fun _ => rfl⟩

/-- A number of no quest is not listed. -/
theorem not_listsStage_none : ¬ListsStage none includeObjectives number := by
  intro lists
  obtain ⟨link, stages, same, -⟩ := lists
  cases same

/-- A link that is no quest lists no stage. -/
theorem not_listsStage {link : FormLinkInfo} (absent : link.questStages = none) :
    ¬ListsStage (some link) includeObjectives number := by
  intro lists
  obtain ⟨_, stages, same, present, -⟩ := lists
  rw [← Option.some.inj same, absent] at present
  cases present

/-- The stages that a quest lists. -/
theorem listsStage_iff {link : FormLinkInfo} {stages : List QuestStageInfo}
    (present : link.questStages = some stages) :
    ListsStage (some link) includeObjectives number ↔
      ((∃ found ∈ stages, found.index = number) ∨
        includeObjectives = true ∧ ∃ objectives, link.questObjectives = some objectives ∧
          ∃ found ∈ objectives, found.index = number) := by
  constructor
  · intro lists
    obtain ⟨_, others, same, listed, found⟩ := lists
    rw [← Option.some.inj same] at listed found
    rw [present] at listed
    rw [Option.some.inj listed]
    exact found
  · exact fun found => ⟨link, stages, rfl, present, found⟩

/-- The objective that a linked stage stands for. -/
theorem linkedObjective_cases (link : FormLinkInfo) (number : Int64) (includeObjectives : Bool) :
    (∃ found, linkedObjective number link includeObjectives = some found ∧ found.index = number ∧
      (includeObjectives = true ∧ ∃ objectives, link.questObjectives = some objectives ∧
        ∃ found ∈ objectives, found.index = number)) ∨
    (linkedObjective number link includeObjectives = none ∧
      ¬(includeObjectives = true ∧ ∃ objectives, link.questObjectives = some objectives ∧
        ∃ found ∈ objectives, found.index = number)) := by
  unfold linkedObjective
  cases includeObjectives with
  | false => exact .inr ⟨rfl, fun wrong => Bool.false_ne_true wrong.1⟩
  | true =>
    rw [if_pos rfl]
    cases present : link.questObjectives with
    | none =>
      refine .inr ⟨rfl, fun wrong => ?_⟩
      obtain ⟨-, objectives, same, -⟩ := wrong
      cases same
    | some objectives =>
      rw [Option.bind_some]
      rcases find?_index QuestObjectiveInfo.index objectives with listed | absent
      · obtain ⟨found, first, same, member⟩ := listed
        exact .inl ⟨found, first, same, rfl, objectives, rfl, member⟩
      · refine .inr ⟨absent.1, fun wrong => ?_⟩
        obtain ⟨-, others, same, member⟩ := wrong
        rw [← Option.some.inj same] at member
        exact absent.2 member

/-- A linked stage that may not stand for none is shown by its number. -/
theorem formatLinkedQuestStage_shows (shown : ¬(allowNone = true ∧ number.toInt < 0)) :
    ShowsNumber (formatLinkedQuestStage number .editValue quest sourceName allowNone
      includeObjectives) number (ListsStage quest includeObjectives number) := by
  have notSorting : ¬HandlerPhase.editValue = .sortKey := by decide
  unfold formatLinkedQuestStage
  rw [if_neg notSorting, if_neg shown]
  cases quest with
  | none => exact ⟨fun lists => absurd lists not_listsStage_none, fun _ => rfl⟩
  | some link =>
    cases present : link.questStages with
    | none =>
      simp only [present]
      exact ⟨fun lists => absurd lists (not_listsStage present), fun _ => rfl⟩
    | some stages =>
      rw [listsStage_iff present]
      simp only [present]
      rcases find?_index QuestStageInfo.index stages with listed | absent
      · obtain ⟨found, first, same, member⟩ := listed
        rw [first]
        exact ⟨fun _ => same ▸ beginsWith_formatIndexedLabel found.index found.logEntry,
          fun other => absurd (.inl member) other⟩
      · rw [absent.1]
        rcases linkedObjective_cases link number includeObjectives with linked | unlinked
        · obtain ⟨found, objective, same, member⟩ := linked
          simp only [objective]
          exact ⟨fun _ => same ▸ beginsWith_formatIndexedLabel found.index found.displayText,
            fun other => absurd (.inr member) other⟩
        · simp only [unlinked.1]
          exact ⟨fun member => absurd member (not_or.mpr ⟨absent.2, unlinked.2⟩), fun _ => rfl⟩

/-- A text of a number: it begins with the numeral, padded or not. -/
def ShowsSome (text : String) (number : Int64) : Prop :=
  BeginsWith text (paddedChars number) ∨ BeginsWith text (decimalChars number.toInt)

/-- A stage of a condition that is not negative is shown by its number. -/
theorem formatCtdaQuestStage_shows (positive : 0 ≤ number.toInt) :
    ShowsSome (formatCtdaQuestStage number .editValue quest) number := by
  have notSorting : ¬HandlerPhase.editValue = .sortKey := by decide
  unfold formatCtdaQuestStage
  rw [if_neg notSorting, if_neg (Int.not_lt.mpr positive)]
  cases quest with
  | none => exact .inr (beginsWith_i64ToString number)
  | some link =>
    cases present : link.questStages with
    | none =>
      simp only [present]
      exact .inr (beginsWith_i64ToString number)
    | some stages =>
      simp only [present]
      rcases find?_index QuestStageInfo.index stages with listed | absent
      · obtain ⟨found, first, same, -⟩ := listed
        rw [first]
        exact .inl (same ▸ beginsWith_formatIndexedLabel found.index found.logEntry)
      · rw [absent.1]
        exact .inr (beginsWith_i64ToString number)

/-- An objective of a condition is shown by its number. -/
theorem formatCtdaQuestObjective_shows (number : Int64) (quest : Option FormLinkInfo) :
    ShowsSome (formatCtdaQuestObjective number .editValue quest) number := by
  unfold formatCtdaQuestObjective
  cases quest with
  | none => exact .inr (beginsWith_i64ToString number)
  | some link =>
    cases present : link.questObjectives with
    | none =>
      simp only [present]
      exact .inr (beginsWith_i64ToString number)
    | some objectives =>
      simp only [present]
      rcases find?_index QuestObjectiveInfo.index objectives with listed | absent
      · obtain ⟨found, first, same, -⟩ := listed
        rw [first]
        exact .inl (same ▸ beginsWith_formatIndexedLabel found.index found.displayText)
      · rw [absent.1]
        exact .inr (beginsWith_i64ToString number)

/-- A stage of the quest around a condition is shown by its number. -/
theorem formatCtdaContextQuestStage_shows (number : Int64) (quest : Option FormLinkInfo) :
    ShowsSome (formatCtdaContextQuestStage number .editValue quest) number := by
  have notSorting : ¬HandlerPhase.editValue = .sortKey := by decide
  unfold formatCtdaContextQuestStage
  rw [if_neg notSorting]
  cases quest with
  | none => exact .inr (beginsWith_i64ToString number)
  | some link =>
    cases present : link.questStages with
    | none =>
      simp only [present]
      exact .inr (beginsWith_i64ToString number)
    | some stages =>
      simp only [present]
      rcases find?_index QuestStageInfo.index stages with listed | absent
      · obtain ⟨found, first, same, -⟩ := listed
        rw [first]
        exact .inl (same ▸ beginsWith_formatIndexedLabel found.index found.logEntry)
      · rw [absent.1]
        exact .inr (beginsWith_i64ToString number)

/-- A text of a number that is not negative is scanned for it. -/
theorem ShowsSome.scans {text : String} (shows : ShowsSome text number)
    (positive : 0 ≤ number.toInt) (bits : IsI32 number) : Scans text (.ok number.toInt) := by
  rcases shows with padded | plain
  · exact (scans_padded bits padded).1 fun small => absurd small.2 (Int.not_lt.mpr positive)
  · exact scans_decimal bits plain

/-- A stage of a condition is read back. -/
theorem parse_formatCtdaQuestStage (bits : IsI32 number) (quest : Option FormLinkInfo)
    (handler : String) :
    parsePrefixedI32 (formatCtdaQuestStage number .editValue quest) handler = .ok number := by
  by_cases negative : number.toInt < 0
  · have notSorting : ¬HandlerPhase.editValue = .sortKey := by decide
    have text : formatCtdaQuestStage number .editValue quest = i64ToString number := by
      unfold formatCtdaQuestStage
      rw [if_neg notSorting, if_pos negative]
      rfl
    rw [text]
    exact (scans_decimal bits (beginsWith_i64ToString number)).parsePrefixedI32 handler
  · have positive := Int.not_lt.mp negative
    exact ((formatCtdaQuestStage_shows positive).scans positive bits).parsePrefixedI32 handler

/-- A linked stage is read back exactly when it is not a listed negative number of one digit, or
stands for none. -/
theorem parse_formatLinkedQuestStage_iff (bits : IsI32 number) (handler : String) :
    parsePrefixedI32 (formatLinkedQuestStage number .editValue quest sourceName allowNone
        includeObjectives) handler = .ok number ↔
      (IsSmallNegative number → ListsStage quest includeObjectives number → allowNone = true) := by
  by_cases hidden : allowNone = true ∧ number.toInt < 0
  · have notSorting : ¬HandlerPhase.editValue = .sortKey := by decide
    have text : formatLinkedQuestStage number .editValue quest sourceName allowNone
        includeObjectives = i64ToString number := by
      unfold formatLinkedQuestStage
      rw [if_neg notSorting, if_pos hidden]
      rfl
    rw [text]
    exact ⟨fun _ _ _ => hidden.1, fun _ =>
      (scans_decimal bits (beginsWith_i64ToString number)).parsePrefixedI32 handler⟩
  · have shows : ShowsNumber (formatLinkedQuestStage number .editValue quest sourceName allowNone
        includeObjectives) number (ListsStage quest includeObjectives number) :=
      formatLinkedQuestStage_shows hidden
    obtain ⟨good, bad⟩ := shows.scans bits
    constructor
    · intro read small lists
      exact absurd read ((bad ⟨small, lists⟩).parsePrefixedI32_error handler)
    · intro unlisted
      refine (good fun wrong => ?_).parsePrefixedI32 handler
      exact hidden ⟨unlisted wrong.1 wrong.2, wrong.1.2⟩

/-- The alias of a quest is read back exactly when it is not a listed negative number of one digit,
or has a name. -/
theorem parse_formatQuestAlias_iff (bits : IsI32 number) :
    parseQuestAlias (formatQuestAlias number .editValue game quest) game = number ↔
      (IsSmallNegative number → ListsAlias quest number →
        (questAliasSentinel number game).isSome = true) := by
  cases named : questAliasSentinel number game with
  | some name =>
    have text : formatQuestAlias number .editValue game quest = name := by
      unfold formatQuestAlias
      rw [named]
      rfl
    rw [text]
    exact ⟨fun _ _ _ => rfl, fun _ => parseQuestAlias_sentinel named⟩
  | none =>
    have shows : ShowsNumber (formatQuestAlias number .editValue game quest) number
        (ListsAlias quest number) := formatQuestAlias_shows named
    obtain ⟨chars, begins, nonempty, signs⟩ := shows.begins
    obtain ⟨good, bad⟩ := shows.scans bits
    rw [parseQuestAlias_of_beginsWith begins nonempty signs]
    constructor
    · intro read small lists
      rw [(bad ⟨small, lists⟩).parseLeadingI32_error] at read
      have minusOne := isSome_questAliasSentinel_none game
      rw [read, named] at minusOne
      cases minusOne
    · intro unlisted
      exact (good fun wrong => by cases unlisted wrong.1 wrong.2).parseLeadingI32

/-- The alias of a script is read back exactly when it is not a listed negative number of one digit,
or has a name. -/
theorem parse_formatResolvedQuestAlias_iff (bits : IsI32 number) :
    parseVmadAlias (formatResolvedQuestAlias number .editValue game quest) game = number ↔
      (IsSmallNegative number → ListsAlias quest number →
        vmadAliasIsSentinel number game = true) := by
  cases named : vmadAliasIsSentinel number game with
  | true =>
    have phases : vmadAliasIsSentinel number game = true ∧
        HandlerPhase.editValue ≠ .nativeValue ∧ HandlerPhase.editValue ≠ .parseEditValue :=
      ⟨named, by decide, by decide⟩
    have text : formatResolvedQuestAlias number .editValue game quest =
        unresolvedVmadAlias number .editValue game := by
      unfold formatResolvedQuestAlias
      exact if_pos phases
    refine ⟨fun _ _ _ => rfl, fun _ => ?_⟩
    rw [text, unresolvedVmadAlias]
    by_cases minusOne : number = -1
    · rw [if_pos minusOne, parseVmadAlias, if_pos rfl, minusOne]
    · obtain ⟨begins, nonempty⟩ :=
        And.intro (beginsWith_i64ToString number) (visible_decimalChars number.toInt).1
      rw [if_neg minusOne, parseVmadAlias_of_beginsWith begins nonempty fun _ found =>
        isSignOrDigit_of (mem_decimalChars found)]
      exact (scans_decimal bits begins).parseLeadingI32
  | false =>
    have shows : ShowsNumber (formatResolvedQuestAlias number .editValue game quest) number
        (ListsAlias quest number) := formatResolvedQuestAlias_shows named
    obtain ⟨chars, begins, nonempty, signs⟩ := shows.begins
    obtain ⟨good, bad⟩ := shows.scans bits
    rw [parseVmadAlias_of_beginsWith begins nonempty signs]
    constructor
    · intro read small lists
      rw [(bad ⟨small, lists⟩).parseLeadingI32_error] at read
      rw [← read] at named
      simp [vmadAliasIsSentinel] at named
    · intro unlisted
      exact (good fun wrong => by cases unlisted wrong.1 wrong.2).parseLeadingI32

/-- A text of an unsigned number is scanned and parsed. -/
theorem ShowsSome.parsePrefixedU32 {text : String} {unsigned : UInt32}
    (shows : ShowsSome text (i64FromU32 unsigned)) (handler : String) :
    parsePrefixedU32 text handler = .ok unsigned := by
  have bound := unsigned.toNat_lt
  have value : (i64FromU32 unsigned).toInt = unsigned.toNat :=
    Int64.toInt_ofNat_of_lt (by omega)
  have positive : 0 ≤ (i64FromU32 unsigned).toInt := by omega
  have magnitude : (i64FromU32 unsigned).toInt.natAbs = unsigned.toNat := by omega
  have parsed {chars : List Char} (begins : BeginsWith text chars) (nonempty : chars ≠ [])
      (decimal : ∀ char ∈ chars, IsDecimal char) {digits : List Nat}
      (are : AreDigits 10 chars digits) (same : digitsValue 10 0 digits = unsigned.toNat) :
      Bethkit.parsePrefixedU32 text handler = .ok unsigned := by
    have scanned := scannedText_of_beginsWith begins nonempty
      (fun char found => (decimal char found).not_isWhitespace)
      (fun char found => (decimal char found).isDigit) (by decide)
    have noSign : chars.head? ≠ some '+' := by
      intro plus
      exact not_isDecimal (by decide) (decimal '+' (List.mem_of_mem_head? plus))
    have read := fromStrRadix_of_areDigits (by decide) nonempty are noSign (same ▸ bound)
    rw [Bethkit.parsePrefixedU32, scanned, parseU32, read, same]
    exact congrArg Except.ok (UInt32.ofNat_toNat)
  rcases shows with padded | plain
  · obtain ⟨digits, are, same⟩ := parse_padded_toDigits 3 unsigned.toNat
    rw [← magnitude, ← decimalChars_of_nonneg positive] at are
    refine parsed padded (paddedChars_ne_nil _) (fun char found => ?_) are same
    exact (mem_paddedChars found).resolve_left fun sign => by omega
  · obtain ⟨digits, are, same⟩ := parse_padded_toDigits 0 unsigned.toNat
    rw [← magnitude, ← decimalChars_of_nonneg positive] at are
    refine parsed plain (visible_decimalChars _).1 (fun char found => ?_)
      (by simpa [List.leftpad] using are) same
    exact (mem_decimalChars found).resolve_left fun sign => by omega

end Formats

/-- The edit texts of quest aliases, stages and objectives are parsed to the numbers that they show
exactly when no listed number has a zero put before its minus sign. -/
theorem questTexts_readBack_iff (game : SchemaGame) (quest : Option FormLinkInfo)
    (sourceName : String) (allowNone includeObjectives : Bool) (signed : Int32)
    (unsigned : UInt32) :
    QuestTextsReadBack game quest sourceName allowNone includeObjectives signed unsigned ↔
      NoPaddedMinus game quest allowNone includeObjectives signed.toInt64 := by
  have bits := isI32_toInt64 signed
  constructor
  · intro reads
    constructor
    · intro small lists
      exact ⟨(parse_formatQuestAlias_iff bits).mp reads.questAlias small lists,
        (parse_formatResolvedQuestAlias_iff bits).mp reads.vmadAlias small lists⟩
    · exact (parse_formatLinkedQuestStage_iff bits "").mp (reads.linkedStage "")
  · intro plain
    constructor
    · exact (parse_formatQuestAlias_iff bits).mpr fun small lists => (plain.aliases small lists).1
    · exact (parse_formatResolvedQuestAlias_iff bits).mpr fun small lists =>
        (plain.aliases small lists).2
    · exact parse_formatCtdaQuestStage bits quest
    · exact fun handler => (parse_formatLinkedQuestStage_iff bits handler).mpr plain.stages
    · exact (formatCtdaQuestObjective_shows _ quest).parsePrefixedU32
    · exact (formatCtdaContextQuestStage_shows _ quest).parsePrefixedU32

/-- A quest of Skyrim with an alias of the number minus two. -/
def questWithNegativeAlias : FormLinkInfo where
  value := "MQ101"
  shortName := "MQ101"
  questAliases := some [⟨-2, "PlayerFollower"⟩]
  questStages := some []
  questObjectives := some []

/-- The alias minus two is shown with a zero before its sign, and parsed as minus one. -/
theorem not_readBack_negativeAlias :
    formatQuestAlias (Int32.toInt64 (-2)) .editValue .skyrimSe (some questWithNegativeAlias) =
      "0-2 PlayerFollower" ∧
    parseQuestAlias "0-2 PlayerFollower" .skyrimSe = -1 ∧
    ¬QuestTextsReadBack .skyrimSe (some questWithNegativeAlias) "" false false (-2) 0 := by
  have shown : formatQuestAlias (Int32.toInt64 (-2)) .editValue .skyrimSe
      (some questWithNegativeAlias) = "0-2 PlayerFollower" := by decide +kernel
  have parsed : parseQuestAlias "0-2 PlayerFollower" .skyrimSe = -1 := by decide +kernel
  refine ⟨shown, parsed, fun reads => ?_⟩
  have back := reads.questAlias
  rw [shown, parsed] at back
  exact absurd back (by decide)

end Bethkit
