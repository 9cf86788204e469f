import Bethkit.Semantic.Handler
import Bethkit.Semantic.Numerals

/-!
# Formatters of quest aliases, stages and objectives

An alias, a stage or an objective of a quest is shown by its number, and by its label where the
quest is found and lists it. Some numbers of an alias have names of their own. The text is parsed by
the number that it starts with.
-/

namespace Bethkit

open Lib

/-- An alias of a quest. -/
structure QuestAliasInfo where
  /-- The numeric alias identifier. -/
  index : Int64
  /-- The alias editor ID, which may be empty. -/
  editorId : String

/-- A stage of a quest. -/
structure QuestStageInfo where
  /-- The numeric stage index. -/
  index : Int64
  /-- The first log-entry text. -/
  logEntry : String

/-- An objective of a quest. -/
structure QuestObjectiveInfo where
  /-- The numeric objective index. -/
  index : Int64
  /-- The objective display text. -/
  displayText : String

/-- Presentation metadata of a resolved link, as far as quests have any. -/
structure FormLinkInfo where
  /-- The text of the link. -/
  value : String
  /-- The short name. -/
  shortName : String
  /-- The aliases of a quest. -/
  questAliases : Option (List QuestAliasInfo)
  /-- The stages of a quest. -/
  questStages : Option (List QuestStageInfo)
  /-- The objectives of a quest. -/
  questObjectives : Option (List QuestObjectiveInfo)

/-- `{:08X}` of the bits of a number. -/
def sortKeyText (number : Int64) : String := String.ofList (hexUpper 8 number.toUInt64.toNat)

/-- A number and a warning about it, by the phase. -/
def warnedText (phase : HandlerPhase) (number : Int64) (warning : String) : String :=
  match phase with
  | .display => i64ToString number ++ " <Warning: " ++ warning ++ ">"
  | .summary | .editValue => i64ToString number
  | .validation => "<Warning: " ++ warning ++ ">"
  | _ => ""

/-- A label, in the phases that show one. -/
def labelText (phase : HandlerPhase) (label : String) : String :=
  match phase with
  | .display | .summary | .editValue => label
  | _ => ""

/-- A negative number that stands for no stage, by the phase. -/
def noneText (phase : HandlerPhase) (number : Int64) : String :=
  match phase with
  | .display | .summary => i64ToString number ++ " NONE"
  | .editValue => i64ToString number
  | _ => ""

/-- The warning that a link is no quest. -/
def notQuestWarning (quest : FormLinkInfo) : String :=
  "\"" ++ quest.shortName ++ "\" is not a Quest record"

/-- The warning that a quest lacks something. -/
def notFoundWarning (kind : String) (quest : FormLinkInfo) : String :=
  kind ++ " not found in \"" ++ quest.value ++ "\""

/-- A number in at least three characters. -/
def paddedChars (number : Int64) : List Char := List.leftpad 3 '0' (decimalChars number.toInt)

/-- `format_indexed_label`. -/
def formatIndexedLabel (index : Int64) (label : String) : String :=
  let text := String.ofList (paddedChars index)
  let label := strTrim label
  if label = "" then text else text ++ " " ++ label

/-- `format_quest_stage_label`. -/
def formatQuestStageLabel (stage : QuestStageInfo) : String :=
  formatIndexedLabel stage.index stage.logEntry

/-- `format_vmad_alias_label`. -/
def formatVmadAliasLabel (questAlias : QuestAliasInfo) : String :=
  let text := String.ofList (paddedChars questAlias.index)
  if questAlias.editorId = "" then text else text ++ " " ++ questAlias.editorId

/-- `format_ctda_quest_stage`. -/
def formatCtdaQuestStage (stage : Int64) (phase : HandlerPhase) (quest : Option FormLinkInfo) :
    String :=
  if phase = .sortKey then sortKeyText stage
  else if stage.toInt < 0 then noneText phase stage
  else
    match quest with
    | none => warnedText phase stage "Could not resolve Quest in Parameter #1"
    | some quest =>
      match quest.questStages with
      | none => warnedText phase stage (notQuestWarning quest)
      | some stages =>
        match stages.find? (·.index = stage) with
        | some found => labelText phase (formatQuestStageLabel found)
        | none => warnedText phase stage (notFoundWarning "Quest Stage" quest)

/-- The objective of a quest that a linked stage may stand for. -/
def linkedObjective (stage : Int64) (quest : FormLinkInfo) (includeObjectives : Bool) :
    Option QuestObjectiveInfo :=
  if includeObjectives then
    quest.questObjectives.bind fun objectives => objectives.find? (·.index = stage)
  else none

/-- `format_linked_quest_stage`. -/
def formatLinkedQuestStage (stage : Int64) (phase : HandlerPhase) (quest : Option FormLinkInfo)
    (sourceName : String) (allowNone includeObjectives : Bool) : String :=
  if phase = .sortKey then sortKeyText stage
  else if allowNone ∧ stage.toInt < 0 then noneText phase stage
  else
    match quest with
    | none => warnedText phase stage ("Could not resolve " ++ sourceName)
    | some quest =>
      match quest.questStages with
      | none => warnedText phase stage (notQuestWarning quest)
      | some stages =>
        match stages.find? (·.index = stage) with
        | some found => labelText phase (formatQuestStageLabel found)
        | none =>
          match linkedObjective stage quest includeObjectives with
          | some found => labelText phase (formatIndexedLabel found.index found.displayText)
          | none =>
            let kind := if includeObjectives then "Quest Stage/Objective" else "Quest Stage"
            warnedText phase stage (notFoundWarning kind quest)

/-- `format_ctda_quest_objective`. -/
def formatCtdaQuestObjective (value : Int64) (phase : HandlerPhase)
    (quest : Option FormLinkInfo) : String :=
  match quest with
  | none => warnedText phase value "Could not resolve Parameter 1"
  | some quest =>
    match quest.questObjectives with
    | none => warnedText phase value (notQuestWarning quest)
    | some objectives =>
      match objectives.find? (·.index = value) with
      | some objective =>
        labelText phase (formatIndexedLabel objective.index objective.displayText)
      | none => warnedText phase value (notFoundWarning "Quest Objective" quest)

/-- `format_ctda_context_quest_stage`. -/
def formatCtdaContextQuestStage (stage : Int64) (phase : HandlerPhase)
    (quest : Option FormLinkInfo) : String :=
  if phase = .sortKey then sortKeyText stage
  else
    match quest with
    | none => warnedText phase stage "Could not resolve Quest"
    | some quest =>
      match quest.questStages with
      | none => warnedText phase stage "Could not resolve Quest"
      | some stages =>
        match stages.find? (·.index = stage) with
        | some found => labelText phase (formatQuestStageLabel found)
        | none => warnedText phase stage (notFoundWarning "Quest Stage/Objective" quest)

/-- `quest_alias_sentinels`. -/
def questAliasSentinels (game : SchemaGame) : List (Int64 × String) :=
  match game with
  | .fallout3 | .falloutNv | .fallout4 | .fallout4Vr | .fallout76 => [(-1, "None"), (-2, "Player")]
  | .starfield => [(-1, "None"), (-2, "Player"), (-3, "Non-Actor Track"),
      (-4, "Play Audio At Player(Voice Note)"), (-5, "Dialogue For Scene")]
  | _ => [(-1, "None")]

/-- `quest_alias_sentinel`. -/
def questAliasSentinel (raw : Int64) (game : SchemaGame) : Option String :=
  ((questAliasSentinels game).find? (·.1 = raw)).map (·.2)

/-- `format_quest_alias`. -/
def formatQuestAlias (raw : Int64) (phase : HandlerPhase) (game : SchemaGame)
    (quest : Option FormLinkInfo) : String :=
  match questAliasSentinel raw game with
  | some sentinel => labelText phase sentinel
  | none =>
    match quest with
    | none =>
      match phase with
      | .display => i64ToString raw ++ " <Warning: Could not resolve alias>"
      | .summary | .editValue => i64ToString raw
      | .validation => "<Warning: Could not resolve alias [" ++ i64ToString raw ++ "]>"
      | _ => ""
    | some quest =>
      match quest.questAliases with
      | none => warnedText phase raw (notQuestWarning quest)
      | some aliases =>
        match aliases.find? (·.index = raw) with
        | some found => labelText phase (formatVmadAliasLabel found)
        | none =>
          warnedText phase raw (notFoundWarning ("Quest Alias [" ++ i64ToString raw ++ "]") quest)

/-- The games whose player alias has a name in scripts. -/
def hasPlayerSentinel : SchemaGame → Bool
  | .fallout4 | .fallout4Vr | .fallout76 | .starfield => true
  | _ => false

/-- The games of Skyrim. -/
def isSkyrim : SchemaGame → Bool
  | .skyrimLe | .skyrimSe | .skyrimVr => true
  | _ => false

/-- `unresolved_vmad_alias`. -/
def unresolvedVmadAlias (raw : Int64) (phase : HandlerPhase) (game : SchemaGame) : String :=
  let isPlayer := raw = -2 ∧ hasPlayerSentinel game
  match phase with
  | .display =>
    if raw = -1 then "None"
    else if isPlayer then "Player"
    else i64ToString raw ++ " <Warning: Could not resolve alias>"
  | .summary =>
    if raw = -1 then
      if isSkyrim game ∨ game = .starfield then "" else "None"
    else if isPlayer then "Player"
    else i64ToString raw
  | .editValue => if raw = -1 then "None" else i64ToString raw
  | .validation =>
    if raw = -1 ∨ isPlayer then "" else "<Warning: Could not resolve alias>"
  | _ => ""

/-- `vmad_alias_is_sentinel`. -/
def vmadAliasIsSentinel (raw : Int64) (game : SchemaGame) : Bool :=
  raw = -1 || (raw = -2 && hasPlayerSentinel game)

/-- `format_resolved_quest_alias`. -/
def formatResolvedQuestAlias (raw : Int64) (phase : HandlerPhase) (game : SchemaGame)
    (link : Option FormLinkInfo) : String :=
  let result := unresolvedVmadAlias raw phase game
  if vmadAliasIsSentinel raw game ∧ phase ≠ .nativeValue ∧ phase ≠ .parseEditValue then result
  else
    match link with
    | none => result
    | some link =>
      match link.questAliases with
      | none =>
        match phase with
        | .display => i64ToString raw ++ " <Warning: " ++ notQuestWarning link ++ ">"
        | .summary => i64ToString raw
        | .validation => "<Warning: " ++ notQuestWarning link ++ ">"
        | _ => result
      | some aliases =>
        match aliases.find? (·.index = raw) with
        | some found =>
          if phase = .validation then ""
          else if phase = .summary ∧ isSkyrim game then found.editorId
          else formatVmadAliasLabel found
        | none =>
          match phase with
          | .display =>
            i64ToString raw ++ " <Warning: " ++ notFoundWarning "Quest Alias" link ++ ">"
          | .summary => i64ToString raw
          | .validation => "<Warning: " ++ notFoundWarning "Quest Alias" link ++ ">"
          | _ => result

/-- A minus sign or a digit. -/
def isSignOrDigit (char : Char) : Bool := char = '-' || char.isDigit

/-- The characters of one kind at the front of a trimmed text. -/
def scannedText (kind : Char → Bool) (text : String) : String :=
  String.ofList ((strTrim text).toList.takeWhile kind)

/-- The number at the front of a text, or the number that stands for none. -/
def parseLeadingI32 (text : String) : Int64 :=
  match parseI32 (scannedText isSignOrDigit text) with
  | .ok number => Int64.ofInt number
  | .error _ => -1

/-- `parse_quest_alias`. -/
def parseQuestAlias (text : String) (game : SchemaGame) : Int64 :=
  match (questAliasSentinels game).find? (·.2 = text) with
  | some (sentinel, _) => sentinel
  | none => parseLeadingI32 text

/-- `parse_vmad_alias`. -/
def parseVmadAlias (text : String) (game : SchemaGame) : Int64 :=
  if text = "None" then -1
  else if text = "Player" ∧ hasPlayerSentinel game then -2
  else parseLeadingI32 text

/-- `parse_prefixed_i32`. -/
def parsePrefixedI32 (text handler : String) : Except SemanticError Int64 :=
  match parseI32 (scannedText isSignOrDigit text) with
  | .ok number => .ok (Int64.ofInt number)
  | .error error => .error (.handler handler ("invalid quest stage: " ++ parseIntErrorText error))

/-- `parse_prefixed_u32`. -/
def parsePrefixedU32 (text handler : String) : Except SemanticError UInt32 :=
  match parseU32 (scannedText Char.isDigit text) with
  | .ok number => .ok (UInt32.ofNat number)
  | .error error => .error (.handler handler ("invalid quest stage: " ++ parseIntErrorText error))

end Bethkit
