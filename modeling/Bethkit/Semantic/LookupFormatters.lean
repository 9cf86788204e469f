import Bethkit.Semantic.Handler
import Bethkit.Semantic.Numerals

/-!
# Formatters of named integers

A table of names in the configuration of a callback gives integers their texts. The text that an
editor shows for a value is parsed when it is edited: a name stands for its value, and anything else
is a number. An event is packed from a function and a member, each of which has a table of its own.
-/

namespace Bethkit

open Lib

namespace JsonValue

/-- `Value::as_array`. -/
def asArray : JsonValue → Option (List JsonValue)
  | .array values => some values
  | _ => none

/-- `Value::as_u64`: an integer without a sign. -/
def asU64 : JsonValue → Option UInt64
  | .number text =>
    match foldDigits 10 (2 ^ 64) 0 text.toList with
    | .ok value => some (UInt64.ofNat value)
    | .error _ => none
  | _ => none

/-- `Value::as_i64`: an integer; zero with a minus sign is a float. -/
def asI64 : JsonValue → Option Int64
  | .number text =>
    match text.toList with
    | '-' :: digits =>
      match foldDigits 10 (2 ^ 63 + 1) 0 digits with
      | .ok value => if value = 0 then none else some (Int64.ofInt (-value))
      | .error _ => none
    | digits =>
      match foldDigits 10 (2 ^ 63) 0 digits with
      | .ok value => some (Int64.ofNat value)
      | .error _ => none
  | _ => none

end JsonValue

/-- `str::eq_ignore_ascii_case`. -/
def strEqIgnoreAsciiCase (left right : String) : Bool :=
  strToAsciiLowercase left = strToAsciiLowercase right

/-- `str::split_once` at a character. -/
def strSplitOnce (text : String) (separator : Char) : Option (String × String) :=
  let front := text.toList.takeWhile (· ≠ separator)
  if front.length < text.toList.length then
    some (String.ofList front, String.ofList (text.toList.drop (front.length + 1)))
  else none

/-- Values with their names. -/
abbrev NamedIntegers : Type := List (Int64 × String)

/-- The name of a value. -/
def nameOf (value : Int64) (values : NamedIntegers) : Option String :=
  (values.find? (·.1 = value)).map (·.2)

/-- The value of the first name that an input spells. -/
def valueOf (input : String) (values : NamedIntegers) : Option Int64 :=
  (values.find? fun entry => strEqIgnoreAsciiCase entry.2 input).map (·.1)

/-- A name stands for its value, and anything else is a number. -/
def parseNamedInteger (input : String) (values : NamedIntegers) (handler : String) :
    Except SemanticError Int64 :=
  match valueOf input values with
  | some value => .ok value
  | none => parseDelphiInteger input handler

/-- The text of an edited value. -/
def editedText (value : Option FieldValue) (handler message : String) :
    Except SemanticError String :=
  match value with
  | some (.string input) => .ok input
  | _ => .error (.handler handler message)

/-- The value to be formatted. -/
def formattedValue (value : Option FieldValue) (handler message : String) :
    Except SemanticError FieldValue :=
  match value with
  | some value => .ok value
  | none => .error (.handler handler message)

/-- `configuration_string`. -/
def configurationString (configuration : JsonValue) (key handler : String) :
    Except SemanticError String :=
  match (configuration.get key).bind JsonValue.asStr with
  | some text => .ok text
  | none => .error (.handler handler s!"integer lookup requires {key}")

/-- One entry of an integer lookup. -/
def integerLookupEntry (handler : String) (output : NamedIntegers) (entry : JsonValue) :
    Except SemanticError NamedIntegers :=
  match (entry.get "value").bind JsonValue.asI64 with
  | none => .error (.handler handler "integer lookup value must be an i64")
  | some value =>
    match ((entry.get "name").bind JsonValue.asStr).filter (· ≠ "") with
    | none => .error (.handler handler "integer lookup name must not be empty")
    | some name =>
      if output.any fun existing => existing.1 = value || existing.2 = name then
        .error (.handler handler "integer lookup contains duplicate values or names")
      else .ok (output ++ [(value, name)])

/-- `integer_lookup_values`. -/
def integerLookupValues (configuration : JsonValue) (handler : String) :
    Except SemanticError NamedIntegers :=
  match (configuration.get "values").bind JsonValue.asArray with
  | none => .error (.handler handler "integer lookup requires a values array")
  | some values => do
    let output ← values.foldlM (integerLookupEntry handler) []
    if output.isEmpty then .error (.handler handler "integer lookup values must not be empty")
    else .ok output

namespace IntegerLookupFormatter

/-- `format.integer_lookup`. -/
def id : String := "format.integer_lookup"

/-- The text of a value that is not known. -/
def unknown (value : Int64) : String :=
  let number := i64ToString value
  s!"<Unknown: {number}>"

/-- The text of a value that is not known, under a configured policy. -/
def unknownText (configuration : JsonValue) (key kind : String)
    (policies : List (String × String)) : Except SemanticError String := do
  let policy ← configurationString configuration key id
  match policies.find? (·.1 = policy) with
  | some (_, text) => .ok text
  | none =>
    let quoted := strDebug policy
    .error (.handler id s!"unsupported unknown {kind} policy {quoted}")

/-- The text of a value in a phase, if there is one. -/
def text (configuration : JsonValue) (phase : HandlerPhase) (value : Int64)
    (name : Option String) : Except SemanticError (Option String) :=
  match phase with
  | .display =>
    match name with
    | some name => .ok (some name)
    | none => some <$>
      unknownText configuration "unknown_display" "display" [("angle", unknown value)]
  | .summary =>
    match name with
    | some name => .ok (some name)
    | none => some <$> unknownText configuration "unknown_summary" "summary"
        [("decimal", i64ToString value), ("angle", unknown value)]
  | .editValue => .ok (some (name.getD (i64ToString value)))
  | .sortKey =>
    match (configuration.get "sort_hex_width").bind JsonValue.asU64 with
    | some width => .ok (some (String.ofList (hexUpper width.toNat value.toUInt64.toNat)))
    | none => .error (.handler id "integer lookup requires sort_hex_width")
  | .nativeValue => .ok (some "")
  | .validation =>
    match name with
    | some _ => .ok (some "")
    | none => some <$> unknownText configuration "unknown_validation" "validation"
        [("angle", unknown value), ("none", "")]
  | _ => .ok none

/-- The handler. -/
def invoke (invocation : HandlerInvocation) : Except SemanticError HandlerOutput := do
  let values ← integerLookupValues invocation.configuration id
  if invocation.phase = .parseEditValue then do
    let input ← editedText invocation.value id "integer lookup edit parsing requires text"
    let value ← parseNamedInteger input values id
    .ok (.value (.int value))
  else do
    let value ← formattedValue invocation.value id
      "integer lookup formatting requires an integer value"
    let wide ← callbackInteger value id
    if -2 ^ 63 ≤ wide ∧ wide < 2 ^ 63 then do
      let value := Int64.ofInt wide
      let text ← text invocation.configuration invocation.phase value (nameOf value values)
      match text with
      | some text => .ok (.text text)
      | none => .ok .none
    else .error (.handler id "integer lookup value exceeds i64")

end IntegerLookupFormatter

/-- Name a component of an event, unless it has no name or a numeral for one. -/
def insertEventComponent (values : NamedIntegers) (value : Int64) (name handler : String) :
    Except SemanticError NamedIntegers :=
  if name = "" ∨ (parseDelphiInteger name handler).isOk then .ok values
  else
    match values.find? (·.1 = value) with
    | some (_, existingName) =>
      if existingName ≠ name then
        let number := i64ToString value
        let first := strDebug existingName
        let second := strDebug name
        .error (.handler handler
          s!"event component {number} has conflicting names {first} and {second}")
      else .ok values
    | none =>
      match values.find? fun entry => strEqIgnoreAsciiCase entry.2 name with
      | some (existingValue, _) =>
        if existingValue ≠ value then
          let quoted := strDebug name
          let first := i64ToString existingValue
          let second := i64ToString value
          .error (.handler handler
            s!"event component {quoted} has conflicting values {first} and {second}")
        else .ok values
      | none => .ok (values ++ [(value, name)])

/-- The names of the functions and of the members of events. -/
structure EventFunctionMemberValues where
  /-- The functions. -/
  functions : NamedIntegers
  /-- The members. -/
  members : NamedIntegers
deriving DecidableEq

/-- The function of an event. -/
def eventFunction (packed : UInt32) : Int64 := Int64.ofNat (packed &&& 0xFFFF).toNat

/-- The member of an event. -/
def eventMember (packed : UInt32) : Int64 := Int64.ofNat (packed >>> 16).toNat

/-- One entry of the table of events. -/
def eventFunctionMemberEntry (handler : String) (tables : EventFunctionMemberValues)
    (entry : JsonValue) : Except SemanticError EventFunctionMemberValues :=
  match (entry.get "value").bind JsonValue.asI64 with
  | none => .error (.handler handler "event function/member value must be an i64")
  | some value =>
    if value.toInt < -2 ^ 31 ∨ 2 ^ 32 ≤ value.toInt then
      .error (.handler handler "event function/member value exceeds 32 bits")
    else
      match (entry.get "name").bind JsonValue.asStr with
      | none => .error (.handler handler "event function/member name must be text")
      | some name =>
        match strSplitOnce name ':' with
        | none =>
          let quoted := strDebug name
          .error (.handler handler s!"event function/member name {quoted} has no separator")
        | some (functionName, memberName) => do
          let packed := value.toUInt64.toUInt32
          let functions ← insertEventComponent tables.functions (eventFunction packed)
            functionName handler
          let members ← insertEventComponent tables.members (eventMember packed) memberName handler
          .ok ⟨functions, members⟩

/-- `event_function_member_values`. -/
def eventFunctionMemberValues (configuration : JsonValue) (handler : String) :
    Except SemanticError EventFunctionMemberValues :=
  match (configuration.get "values").bind JsonValue.asArray with
  | none => .error (.handler handler "event function/member formatter requires a values array")
  | some values => do
    let tables ← values.foldlM (eventFunctionMemberEntry handler) ⟨[], []⟩
    if tables.functions.isEmpty || tables.members.isEmpty then
      .error (.handler handler "event function/member values must not be empty")
    else .ok tables

namespace EventFunctionMemberFormatter

/-- `format.event_function_member`. -/
def id : String := "format.event_function_member"

/-- The text of a component. -/
def componentText (value : Int64) (values : NamedIntegers) : String :=
  (nameOf value values).getD (i64ToString value)

/-- The parsed event. -/
def parse (tables : EventFunctionMemberValues) (input : String) :
    Except SemanticError FieldValue :=
  match strSplitOnce input ':' with
  | none => .ok (.uint 0)
  | some (function, member) => do
    let function ← parseNamedInteger function tables.functions id
    let member ← parseNamedInteger member tables.members id
    let packed := (member <<< 16).toInt + function.toInt
    if -2 ^ 63 ≤ packed ∧ packed < 2 ^ 63 then
      if packed < 0 then .ok (.int (Int64.ofInt packed))
      else .ok (.uint (UInt64.ofNat packed.toNat))
    else .error (.handler id "event function/member edit value overflowed i64")

/-- The complaint about a component that is not known. -/
def componentError (kind : String) (value : Int64) (values : NamedIntegers) : String :=
  match nameOf value values with
  | some _ => ""
  | none =>
    let number := i64ToString value
    s!"{kind}<Unknown: {number}>"

/-- The text of an event in a phase, if there is one. -/
def text (tables : EventFunctionMemberValues) (phase : HandlerPhase) (packed : UInt32) :
    Option String :=
  let function := eventFunction packed
  let member := eventMember packed
  match phase with
  | .display | .summary | .editValue =>
    some (componentText function tables.functions ++ ":" ++ componentText member tables.members)
  | .sortKey => some (String.ofList (hexUpper 8 packed.toNat))
  | .nativeValue => some ""
  | .validation =>
    let functionError := componentError "EventFunction" function tables.functions
    let memberError := componentError "EventMember" member tables.members
    if functionError = "" ∧ memberError = "" then some ""
    else some (functionError ++ ":" ++ memberError)
  | _ => none

/-- The handler. -/
def invoke (invocation : HandlerInvocation) : Except SemanticError HandlerOutput := do
  let tables ← eventFunctionMemberValues invocation.configuration id
  if invocation.phase = .parseEditValue then do
    let input ← editedText invocation.value id "event function/member parsing requires text"
    let value ← parse tables input
    .ok (.value value)
  else do
    let value ← formattedValue invocation.value id
      "event function/member formatting requires an integer"
    let raw ← callbackInteger value id
    let packed ← callbackU32 raw id
    match text tables invocation.phase packed with
    | some text => .ok (.text text)
    | none => .ok .none

end EventFunctionMemberFormatter

end Bethkit
