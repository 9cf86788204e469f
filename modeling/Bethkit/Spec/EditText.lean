import Bethkit.Semantic.LookupFormatters
import Bethkit.Semantic.QuestFormatters
import Bethkit.Semantic.WwiseGuid

/-!
# Faithful edit texts

An editor shows a text for a value and parses the text when the user has edited it. The text is
faithful if parsing it as it is shown gives the value back; then no two values share a text.
-/

namespace Bethkit

open Lib

/-- The invocation in a phase with a value. -/
def HandlerInvocation.with (invocation : HandlerInvocation) (phase : HandlerPhase)
    (value : FieldValue) : HandlerInvocation :=
  { invocation with
    phase
    value := some value }

/-- The text that a handler shows for a value when it is edited. -/
def ShowsText (invoke : HandlerInvocation → Except SemanticError HandlerOutput)
    (invocation : HandlerInvocation) (value : FieldValue) (text : String) : Prop :=
  invoke (invocation.with .editValue value) = .ok (.text text)

/-- The text that a handler shows for a value is parsed to a result. -/
def ReadsBack (invoke : HandlerInvocation → Except SemanticError HandlerOutput)
    (invocation : HandlerInvocation) (value result : FieldValue) : Prop :=
  ∃ text, ShowsText invoke invocation value text ∧
    invoke (invocation.with .parseEditValue (.string text)) = .ok (.value result)

/-- The edit texts of integers are faithful. -/
structure EditsIntegers (invoke : HandlerInvocation → Except SemanticError HandlerOutput)
    (invocation : HandlerInvocation) (handler : String) : Prop where
  /-- The text of an integer is parsed to the integer. -/
  readsBack : ∀ value (number : Int64), callbackInteger value handler = .ok number.toInt →
    ReadsBack invoke invocation value (.int number)
  /-- No two integers share a text. -/
  distinct : ∀ first second (left right : Int64) text,
    callbackInteger first handler = .ok left.toInt →
    callbackInteger second handler = .ok right.toInt →
    ShowsText invoke invocation first text → ShowsText invoke invocation second text → left = right

/-- Names tell integers apart: no two names differ in the case of ASCII letters only, and a name
that is the numeral of an integer is in the table together with that integer. -/
structure TellsApart (values : NamedIntegers) : Prop where
  /-- The names differ in more than case. -/
  names : values.Pairwise fun first second => strEqIgnoreAsciiCase first.2 second.2 = false
  /-- The integer of a numeral has a name. -/
  numerals : ∀ number : Int64, i64ToString number ∈ values.map (·.2) → number ∈ values.map (·.1)

/-!
## Edit texts of quest aliases, stages and objectives

What the edit texts of the six formatters promise, and the numbers that a quest lists. A listed
number of one digit behind a minus sign is shown with a zero before the sign.
-/

/-- The quest lists an alias with a number. -/
def ListsAlias (quest : Option FormLinkInfo) (number : Int64) : Prop :=
  ∃ link aliases, quest = some link ∧ link.questAliases = some aliases ∧
    ∃ found ∈ aliases, found.index = number

/-- The quest lists a stage with a number, or an objective that may stand for one. -/
def ListsStage (quest : Option FormLinkInfo) (includeObjectives : Bool) (number : Int64) : Prop :=
  ∃ link stages, quest = some link ∧ link.questStages = some stages ∧
    ((∃ found ∈ stages, found.index = number) ∨
      includeObjectives = true ∧ ∃ objectives, link.questObjectives = some objectives ∧
        ∃ found ∈ objectives, found.index = number)

/-- A negative number of one digit. -/
def IsSmallNegative (number : Int64) : Prop := -9 ≤ number.toInt ∧ number.toInt < 0

/-- A number of 32 bits as an `i64`. -/
def i64FromU32 (number : UInt32) : Int64 := Int64.ofNat number.toNat

/-- The six parsers undo their formatters in the edited text. -/
structure QuestTextsReadBack (game : SchemaGame) (quest : Option FormLinkInfo)
    (sourceName : String) (allowNone includeObjectives : Bool) (signed : Int32)
    (unsigned : UInt32) : Prop where
  /-- The alias of a quest. -/
  questAlias : parseQuestAlias (formatQuestAlias signed.toInt64 .editValue game quest) game =
    signed.toInt64
  /-- The alias of an object in a script or a condition. -/
  vmadAlias : parseVmadAlias (formatResolvedQuestAlias signed.toInt64 .editValue game quest) game =
    signed.toInt64
  /-- The stage of a condition. -/
  ctdaStage : ∀ handler, parsePrefixedI32 (formatCtdaQuestStage signed.toInt64 .editValue quest)
    handler = .ok signed.toInt64
  /-- The stage of a linked quest. -/
  linkedStage : ∀ handler, parsePrefixedI32 (formatLinkedQuestStage signed.toInt64 .editValue quest
    sourceName allowNone includeObjectives) handler = .ok signed.toInt64
  /-- The objective of a condition. -/
  objective : ∀ handler, parsePrefixedU32 (formatCtdaQuestObjective (i64FromU32 unsigned)
    .editValue quest) handler = .ok unsigned
  /-- The stage of the quest around a condition. -/
  contextStage : ∀ handler, parsePrefixedU32 (formatCtdaContextQuestStage (i64FromU32 unsigned)
    .editValue quest) handler = .ok unsigned

/-- No listed number is a negative number of one digit, but for the aliases with names of their own
and the stages that stand for none. -/
structure NoPaddedMinus (game : SchemaGame) (quest : Option FormLinkInfo)
    (allowNone includeObjectives : Bool) (number : Int64) : Prop where
  /-- A listed alias has a name of its own. -/
  aliases : IsSmallNegative number → ListsAlias quest number →
    (questAliasSentinel number game).isSome = true ∧ vmadAliasIsSentinel number game = true
  /-- A listed stage stands for none. -/
  stages : IsSmallNegative number → ListsStage quest includeObjectives number → allowNone = true

/-!
## Texts of GUIDs

A canonical text has five groups of hexadecimal digits, of which the first three spell words and the
last two the bytes behind them. The edit text of a GUID should be parsed as the GUID, and a text
without braces as the GUID its digits denote, and only as that.
-/

/-- The groups of a canonical text. -/
structure GuidGroups where
  /-- The group of the first word. -/
  first : List Char
  /-- The group of the second word. -/
  second : List Char
  /-- The group of the third word. -/
  third : List Char
  /-- The group of the first two bytes. -/
  fourth : List Char
  /-- The group of the last six bytes. -/
  fifth : List Char
  /-- Two characters for each byte of the first word. -/
  firstLength : first.length = 8
  /-- Two characters for each byte of the second word. -/
  secondLength : second.length = 4
  /-- Two characters for each byte of the third word. -/
  thirdLength : third.length = 4
  /-- Two characters for each of two bytes. -/
  fourthLength : fourth.length = 4
  /-- Two characters for each of six bytes. -/
  fifthLength : fifth.length = 12

namespace GuidGroups

/-- The groups with hyphens between them. -/
def text (groups : GuidGroups) : List Char :=
  groups.first ++ '-' :: (groups.second ++ '-' :: (groups.third ++
    '-' :: (groups.fourth ++ '-' :: groups.fifth)))

/-- The groups spell the parts of a GUID in some kind of numerals. -/
structure Spell (numeral : List Char → Nat → Prop) (groups : GuidGroups) (guid : Guid) : Prop where
  /-- The first word. -/
  data1 : numeral groups.first (u32FromLeBytes (Bytes.slice guid.val 0 4)).toNat
  /-- The second word. -/
  data2 : numeral groups.second (u16FromLeBytes (Bytes.slice guid.val 4 6)).toNat
  /-- The third word. -/
  data3 : numeral groups.third (u16FromLeBytes (Bytes.slice guid.val 6 8)).toNat
  /-- The bytes behind the words, by pairs of characters. -/
  data4 : List.Forall₂ (fun pair byte => numeral pair byte.toNat)
    (asChunks 2 (groups.fourth ++ groups.fifth)) (Bytes.slice guid.val 8 16)

end GuidGroups

/-- Characters spell a GUID in some kind of numerals. -/
def Spells (numeral : List Char → Nat → Prop) (chars : List Char) (guid : Guid) : Prop :=
  ∃ groups : GuidGroups, groups.text = chars ∧ groups.Spell numeral guid

/-- The GUID that a text without braces denotes. -/
def DenotesGuid (text : String) (guid : Guid) : Prop :=
  (strTrim text = "" ∧ guid = Guid.zero) ∨ Spells (Denotes 16) (strTrim text).toList guid

/-- A text without braces is parsed as the GUID it denotes, and not at all if it denotes none. -/
def ParsesCanonically (text : String) : Prop :=
  '{' ∉ text.toList → '}' ∉ text.toList →
    ∀ bytes, parseWwiseGuid text = .ok bytes ↔ ∃ guid : Guid, guid.val = bytes ∧ DenotesGuid text guid

/-- The edit text of a GUID is parsed as the GUID. -/
def EditsGuid (resolver : Option WwiseGuidResolver) (invocation : HandlerInvocation) (guid : Guid) :
    Prop :=
  ∀ value, wwiseGuidBytes value = .ok guid →
    ReadsBack (WwiseGuidFormatter.invoke resolver) invocation value (.bytes guid.val)

/-- A resolver gives a GUID a name. -/
def ShowsName (resolver : Option WwiseGuidResolver) (guid : Guid) (name : String) : Prop :=
  ∃ resolve info, resolver = some resolve ∧ guid ≠ Guid.zero ∧ resolve guid = some info ∧
    info.name = name

/-- The first braces of a name, if it has an opening one, enclose the GUID itself. -/
def KeepsGuid (name : String) (guid : Guid) : Prop :=
  '{' ∉ name.toList ∨ ∃ before inner after, name.toList = before ++ '{' :: (inner ++ '}' :: after) ∧
    '{' ∉ before ∧ '}' ∉ inner ∧ Spells (DenotesSigned 16) inner guid

/-- A text spells a GUID, but with a plus sign for a digit. -/
def SpellsWithPlus (text : String) : Prop :=
  '+' ∈ (strTrim text).toList ∧ ∃ guid, Spells (DenotesSigned 16) (strTrim text).toList guid

end Bethkit
