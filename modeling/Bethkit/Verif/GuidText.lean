import Bethkit.Verif.GuidBody

/-!
# GUIDs are read back from their texts

The digits of a canonical text have no plus signs, though the parser would take them. Around the
braces that it finds first, everything is ignored, so the edit text is parsed as the GUID unless the
name in front of it has braces of its own.
-/

namespace Bethkit

open Lib

/-- The first braces of a text are found. -/
theorem canonicalGuidText_braces {before inner after : List Char} (first : '{' ∉ before)
    (closed : '}' ∉ inner) :
    canonicalGuidText (String.ofList (before ++ '{' :: (inner ++ '}' :: after))) =
      .ok (String.ofList ('{' :: (inner ++ ['}']))) := by
  have opened : '{' ∈ before ++ '{' :: (inner ++ '}' :: after) :=
    List.mem_append_right _ List.mem_cons_self
  have remainder : (before ++ '{' :: (inner ++ '}' :: after)).dropWhile (· ≠ '{') =
      '{' :: (inner ++ '}' :: after) := by
    rw [List.dropWhile_append_of_pos, List.dropWhile_cons_of_neg (by simp)]
    intro char found
    exact decide_eq_true fun same => first (same ▸ found)
  have ends : '}' ∈ '{' :: (inner ++ '}' :: after) := by simp
  have enclosed : ('{' :: (inner ++ '}' :: after)).takeWhile (· ≠ '}') = '{' :: inner := by
    rw [List.takeWhile_cons_of_pos (by decide), List.takeWhile_append_of_pos,
      List.takeWhile_cons_of_neg (by simp), List.append_nil]
    intro char found
    exact decide_eq_true fun same => closed (same ▸ found)
  unfold canonicalGuidText
  rw [String.toList_ofList, if_pos opened]
  dsimp only
  rw [remainder, if_pos ends, enclosed]
  rfl

/-- A text with braces is parsed as what the first ones enclose. -/
theorem parseWwiseGuid_braces {text : String} {before inner after : List Char}
    (trimmed : strTrim text = String.ofList (before ++ '{' :: (inner ++ '}' :: after)))
    (first : '{' ∉ before) (closed : '}' ∉ inner) :
    parseWwiseGuid text = parseGuidBody (String.ofList inner) := by
  have nonempty : String.ofList (before ++ '{' :: (inner ++ '}' :: after)) ≠ "" := by
    rw [Ne, String.ofList_eq_empty_iff]
    simp
  have stripped : strStripPrefix (String.ofList ('{' :: (inner ++ ['}']))) "\x7b" =
      some (String.ofList (inner ++ ['}'])) := strStripPrefix_cons '{' _
  have bare : strStripSuffix (String.ofList (inner ++ ['}'])) "\x7d" = some (String.ofList inner) := by
    have tail : "\x7d".toList = ['}'] := rfl
    have ends : List.isSuffixOf ['}'] (inner ++ ['}']) = true :=
      List.isSuffixOf_iff_suffix.mpr (List.suffix_append _ _)
    rw [strStripSuffix, tail, String.toList_ofList, if_pos ends]
    simp
  unfold parseWwiseGuid
  rw [trimmed]
  dsimp only
  rw [if_neg nonempty, canonicalGuidText_braces first closed, ok_bind, stripped, Option.bind_some,
    bare, Option.getD_some]

/-- A text without braces is parsed as it is. -/
theorem parseWwiseGuid_plain {text : String} (plain : '{' ∉ (strTrim text).toList)
    (visible : strTrim text ≠ "") : parseWwiseGuid text = parseGuidBody (strTrim text) := by
  have bare : strStripPrefix (strTrim text) "\x7b" = none := by
    have none := @strStripPrefix_of_ne (strTrim text).toList '{' [] fun head =>
      plain (List.mem_of_mem_head? head)
    rwa [String.ofList_toList] at none
  unfold parseWwiseGuid canonicalGuidText
  dsimp only
  rw [if_neg visible, if_neg plain, ok_bind, bare]
  rfl

/-- A blank text is parsed as the GUID of zeros. -/
theorem parseWwiseGuid_blank {text : String} (blank : strTrim text = "") :
    parseWwiseGuid text = .ok Guid.zero.val := by
  unfold parseWwiseGuid
  dsimp only
  rw [if_pos blank]
  rfl

/-- The digits of a number that fits have the width. -/
theorem length_hexUpper {width value : Nat} (positive : 0 < width) (fits : value < 16 ^ width) :
    (hexUpper width value).length = width := by
  have short := (Nat.length_toDigits_le_iff (by decide) positive).mpr fits
  rw [hexUpper, List.length_leftpad, List.length_map]
  omega

/-- The digits of a number denote it. -/
theorem denotes_hexUpper (width value : Nat) : Denotes 16 (hexUpper width value) value := by
  obtain ⟨digits, are, same⟩ := exists_digits_toDigits (by decide : 1 < 16) Char.toUpper
    (charToDigit_toUpper_digitChar (Nat.le_refl 16)) value
  rw [hexUpper, List.leftpad]
  exact ⟨_, areDigits_zeros (by decide) _ are, (digitsValue_zeros _ _).trans same⟩

/-- The digits of bytes are the pairs of their digits. -/
theorem asChunks_flatMap_hexUpper (bytes : Bytes) :
    asChunks 2 (bytes.flatMap fun byte => hexUpper 2 byte.toNat) =
      bytes.map fun byte => hexUpper 2 byte.toNat := by
  rw [List.flatMap_def, asChunks_flatten (by decide)]
  intro pair found
  obtain ⟨byte, _, same⟩ := List.mem_map.mp found
  rw [← same, length_hexUpper (by decide) byte.toNat_lt]

/-- The length of the digits of bytes. -/
theorem length_flatMap_hexUpper (bytes : Bytes) :
    (bytes.flatMap fun byte => hexUpper 2 byte.toNat).length = 2 * bytes.length := by
  induction bytes with
  | nil => rfl
  | cons byte bytes ih =>
    rw [List.flatMap_cons, List.length_append, ih, length_hexUpper (by decide) byte.toNat_lt,
      List.length_cons]
    omega

/-- The groups that are shown for a GUID. -/
def Guid.groups (guid : Guid) : GuidGroups where
  first := hexUpper 8 (u32FromLeBytes (Bytes.slice guid.val 0 4)).toNat
  second := hexUpper 4 (u16FromLeBytes (Bytes.slice guid.val 4 6)).toNat
  third := hexUpper 4 (u16FromLeBytes (Bytes.slice guid.val 6 8)).toNat
  fourth := (Bytes.slice guid.val 8 10).flatMap fun byte => hexUpper 2 byte.toNat
  fifth := (Bytes.slice guid.val 10 16).flatMap fun byte => hexUpper 2 byte.toNat
  firstLength := length_hexUpper (by decide) (UInt32.toNat_lt _)
  secondLength := length_hexUpper (by decide) (UInt16.toNat_lt _)
  thirdLength := length_hexUpper (by decide) (UInt16.toNat_lt _)
  fourthLength := by rw [length_flatMap_hexUpper, length_slice_guid guid (by decide)]
  fifthLength := by rw [length_flatMap_hexUpper, length_slice_guid guid (by decide)]

/-- The text of a GUID encloses its groups in braces. -/
theorem formatWwiseGuid_eq (guid : Guid) :
    formatWwiseGuid guid = String.ofList ('{' :: (guid.groups.text ++ ['}'])) := by
  simp [formatWwiseGuid, GuidGroups.text, Guid.groups]

/-- The groups that are shown for a GUID spell it. -/
theorem spells_groups (guid : Guid) : Spells (Denotes 16) guid.groups.text guid := by
  refine ⟨guid.groups, rfl, ⟨denotes_hexUpper _ _, denotes_hexUpper _ _, denotes_hexUpper _ _, ?_⟩⟩
  have bytes : guid.groups.fourth ++ guid.groups.fifth =
      (Bytes.slice guid.val 8 16).flatMap fun byte => hexUpper 2 byte.toNat := by
    rw [← slice_append_slice guid.val (by decide : 8 ≤ 10) (by decide : 10 ≤ 16),
      List.flatMap_append]
    rfl
  rw [bytes, asChunks_flatMap_hexUpper, List.forall₂_map_left_iff, List.forall₂_same]
  exact fun byte _ => denotes_hexUpper 2 byte.toNat

/-- Blanks in front of a text with a brace are trimmed, and nothing else if it ends visibly. -/
theorem strTrim_brace {front rest : List Char} {last : Char} (ends : rest.getLast? = some last)
    (visible : charIsWhitespace last = false) :
    strTrim (String.ofList (front ++ '{' :: rest)) =
      String.ofList (front.dropWhile charIsWhitespace ++ '{' :: rest) := by
  have brace : charIsWhitespace '{' = false := rfl
  have leading : (front ++ '{' :: rest).dropWhile charIsWhitespace =
      front.dropWhile charIsWhitespace ++ '{' :: rest := by
    rw [List.dropWhile_append]
    split
    · rename_i blank
      rw [List.isEmpty_iff.mp blank, List.nil_append, List.dropWhile_cons_of_neg (by simp [brace])]
    · rfl
  have trailing : (front.dropWhile charIsWhitespace ++ '{' :: rest).rdropWhile charIsWhitespace =
      front.dropWhile charIsWhitespace ++ '{' :: rest := by
    rw [List.rdropWhile_eq_self_iff]
    intro nonempty blank
    have same : (front.dropWhile charIsWhitespace ++ '{' :: rest).getLast? = some last := by
      rw [List.getLast?_append, List.getLast?_cons, ends]
      rfl
    rw [List.getLast?_eq_some_getLast nonempty, Option.some.injEq] at same
    rw [same, visible] at blank
    exact Bool.false_ne_true blank
  rw [strTrim, String.toList_ofList, leading, trailing]

/-- What is shown in front of a GUID: its name and a blank, if it has a name. -/
def guidFront (name : String) : List Char := if name = "" then [] else name.toList ++ [' ']

/-- What is shown behind a GUID: its path in quotation marks, if it has a path. -/
def guidBack (objectPath : String) : List Char :=
  if objectPath = "" then []
  else ' ' :: '"' :: ((truncateWwiseObjectPath objectPath).toList ++ ['"'])

/-- The edit text of a GUID with a name and a path. -/
theorem resolvedGuidText_eq (guid : Guid) (info : WwiseGuidInfo) :
    resolvedGuidText .editValue guid info = String.ofList (guidFront info.name ++
      '{' :: (guid.groups.text ++ '}' :: guidBack info.objectPath)) := by
  have noSummary : ¬(HandlerPhase.editValue = .summary ∧ info.name ≠ "") := fun both => by
    cases both.1
  unfold resolvedGuidText guidFront guidBack
  dsimp only
  rw [if_neg noSummary, formatWwiseGuid_eq]
  apply String.toList_injective
  by_cases unnamed : info.name = ""
  · by_cases pathless : info.objectPath = ""
    · simp [unnamed, pathless]
    · simp [unnamed, pathless]
  · by_cases pathless : info.objectPath = ""
    · simp [unnamed, pathless]
    · simp [unnamed, pathless]

/-- What is shown behind the opening brace ends visibly. -/
theorem guidBack_visible (objectPath : String) (inner : List Char) :
    ∃ last, (inner ++ '}' :: guidBack objectPath).getLast? = some last ∧
      charIsWhitespace last = false := by
  unfold guidBack
  by_cases pathless : objectPath = ""
  · rw [if_pos pathless]
    exact ⟨'}', by simp, rfl⟩
  · rw [if_neg pathless]
    exact ⟨'"', by simp [List.getLast?_append, List.getLast?_cons], rfl⟩

/-- Only the brace in front of the GUID may be left of a name when blanks are dropped. -/
theorem not_mem_dropWhile {char : Char} {chars : List Char} (absent : char ∉ chars)
    (drops : Char → Bool) : char ∉ chars.dropWhile drops :=
  fun found => absent ((List.dropWhile_sublist drops).subset found)

/-- The edit text of a GUID is parsed as what the first braces behind its blanks enclose. -/
theorem parse_resolvedGuidText {guid : Guid} {info : WwiseGuidInfo}
    {before inner after : List Char} (shown : guidFront info.name ++
      '{' :: (guid.groups.text ++ '}' :: guidBack info.objectPath) =
        before ++ '{' :: (inner ++ '}' :: after))
    (first : '{' ∉ before) (closed : '}' ∉ inner) :
    parseWwiseGuid (resolvedGuidText .editValue guid info) = parseGuidBody (String.ofList inner) := by
  obtain ⟨last, ends, visible⟩ := guidBack_visible info.objectPath guid.groups.text
  have ending : ∃ last, (inner ++ '}' :: after).getLast? = some last ∧
      charIsWhitespace last = false := by
    have same := congrArg List.getLast? shown
    rw [List.getLast?_append, List.getLast?_cons, ends, List.getLast?_append, List.getLast?_cons] at same
    cases tail : (inner ++ '}' :: after).getLast? with
    | none => simp at tail
    | some other =>
      rw [tail] at same
      have equal : last = other := by simpa using same
      exact ⟨other, rfl, equal ▸ visible⟩
  obtain ⟨last, ends, visible⟩ := ending
  apply parseWwiseGuid_braces
  · rw [resolvedGuidText_eq, shown, strTrim_brace ends visible]
  · exact not_mem_dropWhile first _
  · exact closed

/-- A text that is parsed as a GUID spells it. -/
theorem spells_of_parse {inner : List Char} {guid : Guid}
    (read : parseGuidBody (String.ofList inner) = .ok guid.val) :
    Spells (DenotesSigned 16) inner guid := by
  obtain ⟨other, same, spells⟩ := spells_of_parseGuidBody read
  exact Subtype.ext same ▸ spells

/-- What is shown in front of a GUID with a name. -/
theorem guidFront_of_split {name : String} {before rest : List Char}
    (split : name.toList = before ++ '{' :: rest) :
    guidFront name = before ++ '{' :: (rest ++ [' ']) := by
  have named : name ≠ "" := fun empty => by
    rw [empty] at split
    cases before with
    | nil => cases split
    | cons char before => cases split
  rw [guidFront, if_neg named, split, List.append_assoc, List.cons_append]

/-- The edit text of a GUID is parsed as the GUID exactly when its name keeps it. -/
theorem parse_resolvedGuidText_iff (guid : Guid) (info : WwiseGuidInfo) :
    parseWwiseGuid (resolvedGuidText .editValue guid info) = .ok guid.val ↔
      KeepsGuid info.name guid := by
  have spelled := (spells_groups guid).signed
  have noClose : '}' ∉ guid.groups.text := not_mem_of_spells spelled (by decide) (by decide) rfl
  constructor
  · intro read
    by_cases braced : '{' ∈ info.name.toList
    · obtain ⟨before, rest, split, first⟩ := List.eq_append_cons_of_mem braced
      by_cases closed : '}' ∈ rest
      · obtain ⟨inner, after, enclosed, unclosed⟩ := List.eq_append_cons_of_mem closed
        rw [enclosed] at split
        have shown : guidFront info.name ++
            '{' :: (guid.groups.text ++ '}' :: guidBack info.objectPath) =
              before ++ '{' :: (inner ++ '}' :: (after ++ ' ' :: '{' ::
                (guid.groups.text ++ '}' :: guidBack info.objectPath))) := by
          rw [guidFront_of_split split]
          simp
        rw [parse_resolvedGuidText shown first unclosed] at read
        exact .inr ⟨before, inner, after, split, first, unclosed, spells_of_parse read⟩
      · -- The name opens braces that only the GUID closes, so they enclose another brace.
        have shown : guidFront info.name ++
            '{' :: (guid.groups.text ++ '}' :: guidBack info.objectPath) =
              before ++ '{' :: ((rest ++ ' ' :: '{' :: guid.groups.text) ++
                '}' :: guidBack info.objectPath) := by
          rw [guidFront_of_split split]
          simp
        have unclosed : '}' ∉ rest ++ ' ' :: '{' :: guid.groups.text := by
          simp [closed, noClose]
        rw [parse_resolvedGuidText shown first unclosed] at read
        have opened : '{' ∈ rest ++ ' ' :: '{' :: guid.groups.text := by simp
        exact absurd opened
          (not_mem_of_spells (spells_of_parse read) (by decide) (by decide) rfl)
    · exact .inl braced
  · intro keeps
    rcases keeps with plain | own
    · have first : '{' ∉ guidFront info.name := by
        unfold guidFront
        split
        · simp
        · simp [plain]
      rw [parse_resolvedGuidText rfl first noClose, parseGuidBody_of_spells spelled]
    · obtain ⟨before, inner, after, split, first, unclosed, spells⟩ := own
      have shown : guidFront info.name ++
          '{' :: (guid.groups.text ++ '}' :: guidBack info.objectPath) =
            before ++ '{' :: (inner ++ '}' :: (after ++ ' ' :: '{' ::
              (guid.groups.text ++ '}' :: guidBack info.objectPath))) := by
        rw [guidFront_of_split split]
        simp
      rw [parse_resolvedGuidText shown first unclosed, parseGuidBody_of_spells spells]

/-- The text of a GUID that stands alone is parsed as the GUID. -/
theorem parse_formatWwiseGuid (guid : Guid) :
    parseWwiseGuid (formatWwiseGuid guid) = .ok guid.val := by
  have unnamed : resolvedGuidText .editValue guid ⟨"", ""⟩ = formatWwiseGuid guid := rfl
  rw [← unnamed]
  exact (parse_resolvedGuidText_iff guid ⟨"", ""⟩).mpr (.inl List.not_mem_nil)

/-- What a GUID is shown as and parsed from when it is edited. -/
theorem readsBack_guid_iff {resolver : Option WwiseGuidResolver} {invocation : HandlerInvocation}
    {value : FieldValue} {guid : Guid} (bytes : wwiseGuidBytes value = .ok guid) :
    ReadsBack (WwiseGuidFormatter.invoke resolver) invocation value (.bytes guid.val) ↔
      ∃ text, wwiseGuidText resolver .editValue guid = some text ∧
        parseWwiseGuid text = .ok guid.val := by
  have notParsing : ¬HandlerPhase.editValue = .parseEditValue := by decide
  have shows (text : String) : ShowsText (WwiseGuidFormatter.invoke resolver) invocation value text ↔
      wwiseGuidText resolver .editValue guid = some text := by
    unfold ShowsText WwiseGuidFormatter.invoke
    rw [HandlerInvocation.with, if_neg notParsing]
    dsimp only
    rw [bytes, ok_bind]
    cases wwiseGuidText resolver .editValue guid with
    | none =>
      constructor
      · exact fun same => by cases same
      · exact fun same => by cases same
    | some other =>
      constructor
      · intro same
        cases same
        rfl
      · intro same
        cases same
        rfl
  have parses (text : String) : WwiseGuidFormatter.invoke resolver
      (invocation.with .parseEditValue (.string text)) = .ok (.value (.bytes guid.val)) ↔
        parseWwiseGuid text = .ok guid.val := by
    unfold WwiseGuidFormatter.invoke
    rw [HandlerInvocation.with, if_pos rfl]
    dsimp only
    rw [bind_eq_ok]
    constructor
    · intro read
      obtain ⟨parsed, done, same⟩ := read
      cases same
      exact done
    · exact fun read => ⟨_, read, rfl⟩
  simp only [ReadsBack, shows, parses]

/-- The bytes of a GUID are its value. -/
theorem wwiseGuidBytes_bytes (guid : Guid) : wwiseGuidBytes (.bytes guid.val) = .ok guid :=
  dif_pos guid.property

/-- The edit text of a GUID is parsed as the GUID exactly when every name it is shown with keeps
it. -/
theorem editsGuid_iff (resolver : Option WwiseGuidResolver) (invocation : HandlerInvocation)
    (guid : Guid) :
    EditsGuid resolver invocation guid ↔
      ∀ name, ShowsName resolver guid name → KeepsGuid name guid := by
  have bytes := wwiseGuidBytes_bytes guid
  have edits : EditsGuid resolver invocation guid ↔
      ∃ text, wwiseGuidText resolver .editValue guid = some text ∧
        parseWwiseGuid text = .ok guid.val := by
    constructor
    · exact fun edits => (readsBack_guid_iff bytes).mp (edits _ bytes)
    · exact fun reads value bytes => (readsBack_guid_iff bytes).mpr reads
  rw [edits]
  have alone (unnamed : ∀ name, ¬ShowsName resolver guid name) {text : String}
      (shown : wwiseGuidText resolver .editValue guid = some text)
      (read : parseWwiseGuid text = .ok guid.val) :
      (∃ text, wwiseGuidText resolver .editValue guid = some text ∧
        parseWwiseGuid text = .ok guid.val) ↔
        ∀ name, ShowsName resolver guid name → KeepsGuid name guid :=
    ⟨fun _ name shows => absurd shows (unnamed name), fun _ => ⟨text, shown, read⟩⟩
  cases resolver with
  | none =>
    refine alone (fun name shows => ?_) rfl (parse_formatWwiseGuid guid)
    obtain ⟨resolve, info, same, _⟩ := shows
    cases same
  | some resolve =>
    by_cases zero : guid = Guid.zero
    · have shown : wwiseGuidText (some resolve) .editValue guid = some "" := if_pos zero
      refine alone (fun name shows => ?_) shown ?_
      · obtain ⟨_, _, _, nonzero, _⟩ := shows
        exact nonzero zero
      · rw [zero]
        exact parseWwiseGuid_blank rfl
    · have shown : wwiseGuidText (some resolve) .editValue guid =
          some ((resolve guid).elim (formatWwiseGuid guid) (resolvedGuidText .editValue guid)) := by
        unfold wwiseGuidText
        dsimp only
        rw [if_neg zero]
        cases resolve guid with
        | none => rfl
        | some info => rfl
      cases found : resolve guid with
      | none =>
        rw [found] at shown
        refine alone (fun name shows => ?_) shown (parse_formatWwiseGuid guid)
        obtain ⟨other, info, same, _, resolved, _⟩ := shows
        cases same
        rw [found] at resolved
        cases resolved
      | some info =>
        rw [found] at shown
        constructor
        · intro reads name shows
          obtain ⟨text, same, read⟩ := reads
          rw [shown] at same
          obtain ⟨other, known, sameResolver, _, resolved, rfl⟩ := shows
          cases sameResolver
          rw [found] at resolved
          cases resolved
          cases same
          exact (parse_resolvedGuidText_iff guid info).mp read
        · intro keeps
          exact ⟨_, shown, (parse_resolvedGuidText_iff guid info).mpr
            (keeps _ ⟨resolve, info, rfl, zero, found, rfl⟩)⟩

/-- What is not dropped is left. -/
theorem mem_dropWhile {char : Char} {chars : List Char} {drops : Char → Bool}
    (kept : drops char = false) (found : char ∈ chars) : char ∈ chars.dropWhile drops := by
  rw [← List.takeWhile_append_dropWhile (p := drops) (l := chars)] at found
  rcases List.mem_append.mp found with dropped | left
  · rw [List.mem_takeWhile_imp dropped] at kept
    cases kept
  · exact left

/-- Visible characters are left when blanks are trimmed. -/
theorem mem_strTrim {char : Char} (visible : charIsWhitespace char = false) {text : String}
    (found : char ∈ text.toList) : char ∈ (strTrim text).toList := by
  rw [strTrim, String.toList_ofList, List.rdropWhile, List.mem_reverse]
  exact mem_dropWhile visible (List.mem_reverse.mpr (mem_dropWhile visible found))

/-- Nothing comes to a text when blanks are trimmed. -/
theorem mem_of_mem_strTrim {char : Char} {text : String} (found : char ∈ (strTrim text).toList) :
    char ∈ text.toList := by
  rw [strTrim, String.toList_ofList] at found
  exact (List.dropWhile_sublist _).subset ((List.rdropWhile_prefix _ _).subset found)

/-- A text is parsed canonically exactly when it does not spell a GUID with a plus sign. -/
theorem parsesCanonically_iff (text : String) : ParsesCanonically text ↔ ¬SpellsWithPlus text := by
  have visible {spelled : List Char} {guid : Guid} {numeral : List Char → Nat → Prop}
      (same : spelled = (strTrim text).toList) (spells : Spells numeral spelled guid) :
      strTrim text ≠ "" := fun blank => by
    rw [blank] at same
    exact ne_nil_of_spells spells same
  constructor
  · intro parses spelled
    obtain ⟨plus, guid, spells⟩ := spelled
    have absent {brace : Char} (noHyphen : brace ≠ '-') (noSign : brace ≠ '+')
        (noDigit : charToDigit 16 brace = none) (shown : charIsWhitespace brace = false) :
        brace ∉ text.toList :=
      fun found => not_mem_of_spells spells noHyphen noSign noDigit (mem_strTrim shown found)
    have noOpen : '{' ∉ text.toList := absent (by decide) (by decide) rfl rfl
    have noClose : '}' ∉ text.toList := absent (by decide) (by decide) rfl rfl
    have read : parseWwiseGuid text = .ok guid.val := by
      rw [parseWwiseGuid_plain (fun found => noOpen (mem_of_mem_strTrim found)) (visible rfl spells),
        ← (strTrim text).ofList_toList, parseGuidBody_of_spells spells]
    obtain ⟨other, _, denotes⟩ := (parses noOpen noClose guid.val).mp read
    rcases denotes with blank | plain
    · exact visible rfl spells blank.1
    · exact plain.unsigned plus
  · intro unsigned noOpen noClose bytes
    by_cases blank : strTrim text = ""
    · rw [parseWwiseGuid_blank blank]
      constructor
      · exact fun same => ⟨Guid.zero, Except.ok.inj same, .inl ⟨blank, rfl⟩⟩
      · intro denotes
        obtain ⟨guid, same, zero | spells⟩ := denotes
        · rw [← same, zero.2]
        · exact absurd blank (visible rfl spells)
    · rw [parseWwiseGuid_plain (fun found => noOpen (mem_of_mem_strTrim found)) blank,
        ← (strTrim text).ofList_toList, parseGuidBody_eq_ok]
      constructor
      · intro spelled
        obtain ⟨guid, same, spells⟩ := spelled
        exact ⟨guid, same, .inr (spells.plain fun plus => unsigned ⟨plus, guid, spells⟩)⟩
      · intro denotes
        obtain ⟨guid, same, zero | spells⟩ := denotes
        · exact absurd zero.1 blank
        · exact ⟨guid, same, spells.signed⟩

/-- The edit text of a GUID is parsed as the GUID exactly when the name that it is shown with has
no braces but around the GUID itself, and a text without braces is parsed as the GUID it denotes
exactly when it has no plus sign for a digit. -/
theorem wwiseGuidTexts_readBack_iff (resolver : Option WwiseGuidResolver)
    (invocation : HandlerInvocation) (guid : Guid) (text : String) :
    (EditsGuid resolver invocation guid ↔
      ∀ name, ShowsName resolver guid name → KeepsGuid name guid) ∧
      (ParsesCanonically text ↔ ¬SpellsWithPlus text) :=
  ⟨editsGuid_iff resolver invocation guid, parsesCanonically_iff text⟩

/-- A resolver that gives every GUID a name in braces. -/
def bracedName : WwiseGuidResolver := fun _ => some ⟨"\x7bPlay\x7d", ""⟩

/-- A GUID of ones. -/
def onesGuid : Guid := ⟨List.replicate 16 1, List.length_replicate⟩

/-- The edit text of a GUID with a name in braces is not parsed, and a text with a plus sign for a
digit is. -/
theorem not_readBack_bracedName :
    wwiseGuidText (some bracedName) .editValue onesGuid =
        some "\x7bPlay\x7d \x7b01010101-0101-0101-0101-010101010101\x7d" ∧
      (parseWwiseGuid "\x7bPlay\x7d \x7b01010101-0101-0101-0101-010101010101\x7d").isOk = false ∧
      (∀ invocation, ¬EditsGuid (some bracedName) invocation onesGuid) ∧
      parseWwiseGuid "+0000000-0000-0000-0000-000000000000" = .ok Guid.zero.val ∧
      ¬ParsesCanonically "+0000000-0000-0000-0000-000000000000" := by
  have shown : wwiseGuidText (some bracedName) .editValue onesGuid =
      some "\x7bPlay\x7d \x7b01010101-0101-0101-0101-010101010101\x7d" := by decide +kernel
  have refused : (parseWwiseGuid
      "\x7bPlay\x7d \x7b01010101-0101-0101-0101-010101010101\x7d").isOk = false := by
    decide +kernel
  have accepted : parseWwiseGuid "+0000000-0000-0000-0000-000000000000" = .ok Guid.zero.val :=
    eq_ok_of_toOption (by decide +kernel)
  refine ⟨shown, refused, fun invocation edits => ?_, accepted, fun parses => ?_⟩
  · have bytes := wwiseGuidBytes_bytes onesGuid
    obtain ⟨text, same, read⟩ := (readsBack_guid_iff bytes).mp (edits _ bytes)
    rw [shown] at same
    rw [← Option.some.inj same] at read
    rw [read] at refused
    cases refused
  · obtain ⟨guid, _, denotes⟩ := (parses (by decide +kernel) (by decide +kernel) _).mp accepted
    have trimmed : strTrim "+0000000-0000-0000-0000-000000000000" =
        "+0000000-0000-0000-0000-000000000000" := by decide +kernel
    rw [DenotesGuid, trimmed] at denotes
    rcases denotes with blank | plain
    · exact absurd blank.1 (by decide)
    · exact plain.unsigned (by decide +kernel)

end Bethkit
