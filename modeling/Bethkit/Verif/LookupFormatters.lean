import Bethkit.Lib.Ensures
import Bethkit.Spec.EditText
import Bethkit.Verif.Numerals

/-!
# Named integers and their edit texts

A name is looked up exactly when a value is shown, and without regard to case when the text is
parsed. So the text of a named value is parsed to the first value whose name differs in case only,
and the numeral of another value is parsed as a number unless it is a name itself.
-/

namespace Bethkit

open Lib

/-- A character that is lower-cased to something outside the lower-case letters is that already. -/
theorem toLower_eq_self {char : Char} (outside : char.toLower.toNat < 97) : char.toLower = char := by
  rw [Char.toLower] at outside ⊢
  split at outside
  · rename_i upper
    have low : 65 ≤ char.val.toNat := upper.1
    have high : char.val.toNat ≤ 90 := upper.2
    exfalso
    change (char.val + 32).toNat < 97 at outside
    rw [UInt32.toNat_add] at outside
    change (char.val.toNat + 32) % 2 ^ 32 < 97 at outside
    omega
  · rename_i other
    rw [dif_neg other]

/-- A character below the upper-case letters is not changed. -/
theorem toLower_of_lt {char : Char} (below : char.toNat < 65) : char.toLower = char := by
  rw [Char.toLower, dif_neg]
  intro upper
  exact absurd upper.1 (Nat.not_le.mpr below)

/-- The characters of a numeral are below the letters. -/
theorem toNat_lt_of_mem_decimalChars {value : Int} {char : Char}
    (found : char ∈ decimalChars value) : char.toNat < 65 := by
  have digit {number : Nat} (among : char ∈ Nat.toDigits 10 number) : char.toNat < 65 :=
    (isDecimal_of_mem_toDigits among).upper.trans_lt (by decide)
  rw [decimalChars] at found
  by_cases negative : value < 0
  · rw [if_pos negative] at found
    rcases List.mem_cons.mp found with sign | among
    · rw [sign]
      decide
    · exact digit among
  · rw [if_neg negative] at found
    exact digit found

/-- Two spellings agree but for case exactly when they have the same lower-case characters. -/
theorem strEqIgnoreAsciiCase_iff {left right : String} :
    strEqIgnoreAsciiCase left right = true ↔
      left.toList.map Char.toLower = right.toList.map Char.toLower := by
  rw [strEqIgnoreAsciiCase, decide_eq_true_eq, strToAsciiLowercase, strToAsciiLowercase]
  exact String.ofList_inj

/-- A text agrees with itself. -/
theorem strEqIgnoreAsciiCase_self (text : String) : strEqIgnoreAsciiCase text text = true :=
  strEqIgnoreAsciiCase_iff.mpr rfl

/-- A spelling of a numeral in another case is the numeral. -/
theorem strEqIgnoreAsciiCase_i64ToString {name : String} {number : Int64} :
    strEqIgnoreAsciiCase name (i64ToString number) = true ↔ name = i64ToString number := by
  constructor
  · intro agrees
    have numeral : (decimalChars number.toInt).map Char.toLower = decimalChars number.toInt := by
      conv_rhs => rw [← List.map_id (decimalChars number.toInt)]
      exact List.map_congr_left fun char found =>
        toLower_of_lt (toNat_lt_of_mem_decimalChars found)
    rw [strEqIgnoreAsciiCase_iff, i64ToString, String.toList_ofList, numeral] at agrees
    have same : name.toList.map Char.toLower = name.toList := by
      conv_rhs => rw [← List.map_id name.toList]
      apply List.map_congr_left
      intro char found
      have lowered : char.toLower ∈ decimalChars number.toInt :=
        agrees ▸ List.mem_map_of_mem found
      exact toLower_eq_self ((toNat_lt_of_mem_decimalChars lowered).trans (by decide))
    rw [i64ToString, ← agrees, same, String.ofList_toList]
  · intro same
    rw [same]
    exact strEqIgnoreAsciiCase_self _

section NamedIntegers

variable {values : NamedIntegers} {number : Int64} {name : String}

/-- A named value has its name, where no two values are the same. -/
theorem nameOf_eq_some (distinct : (values.map (·.1)).Nodup) :
    nameOf number values = some name ↔ (number, name) ∈ values := by
  rw [nameOf, Option.map_eq_some_iff]
  constructor
  · intro found
    obtain ⟨entry, first, named⟩ := found
    have valued := List.find?_some first
    rw [decide_eq_true_eq] at valued
    rw [← valued, ← named]
    exact List.mem_of_find?_eq_some first
  · intro among
    refine ⟨(number, name), ?_, rfl⟩
    cases first : values.find? (·.1 = number) with
    | none => exact absurd (List.find?_eq_none.mp first _ among) (by simp)
    | some entry =>
      have valued := List.find?_some first
      rw [decide_eq_true_eq] at valued
      exact congrArg some (List.inj_on_of_nodup_map distinct (List.mem_of_find?_eq_some first)
        among valued)

/-- A value without an entry has no name. -/
theorem nameOf_eq_none : nameOf number values = none ↔ number ∉ values.map (·.1) := by
  rw [nameOf, Option.map_eq_none_iff, List.find?_eq_none, List.mem_map, not_exists]
  simp only [decide_eq_true_eq, not_and]

/-- The names tell the values apart exactly when each name gives its value. -/
theorem pairwise_names_iff (distinct : (values.map (·.1)).Nodup) :
    (values.Pairwise fun first second => strEqIgnoreAsciiCase first.2 second.2 = false) ↔
      ∀ entry ∈ values, valueOf entry.2 values = some entry.1 := by
  rw [List.pairwise_iff_getElem]
  constructor
  · intro apart entry among
    obtain ⟨index, inside, same⟩ := List.getElem_of_mem among
    rw [valueOf, Option.map_eq_some_iff]
    cases first : values.find? fun other => strEqIgnoreAsciiCase other.2 entry.2 with
    | none => exact absurd (strEqIgnoreAsciiCase_self _) (List.find?_eq_none.mp first _ among)
    | some found =>
      obtain ⟨agrees, place, bound, here, before⟩ := List.find?_eq_some_iff_getElem.mp first
      rcases Nat.lt_trichotomy place index with earlier | equal | later
      · have differs := apart place index bound inside earlier
        rw [here, same, agrees] at differs
        cases differs
      · subst equal
        exact ⟨entry, congrArg some (here.symm.trans same), rfl⟩
      · have differs := before index later
        rw [same, strEqIgnoreAsciiCase_self] at differs
        cases differs
  · intro reads left right leftInside rightInside order
    by_contra agrees
    rw [Bool.not_eq_false] at agrees
    have read := reads values[right] (List.getElem_mem rightInside)
    rw [valueOf, Option.map_eq_some_iff] at read
    obtain ⟨found, first, valued⟩ := read
    obtain ⟨-, place, bound, here, before⟩ := List.find?_eq_some_iff_getElem.mp first
    have earlier : place ≤ left := by
      by_contra later
      have differs := before left (Nat.not_le.mp later)
      rw [agrees] at differs
      cases differs
    have placeBound : place < (values.map (·.1)).length := by rwa [List.length_map]
    have rightBound : right < (values.map (·.1)).length := by rwa [List.length_map]
    have placed : (values.map (·.1))[place] = (values.map (·.1))[right] := by
      rw [List.getElem_map, List.getElem_map, here, valued]
    have same := (List.Nodup.getElem_inj_iff distinct).mp placed
    omega

/-- A name stands for some value. -/
theorem valueOf_ne_none (among : name ∈ values.map (·.2)) : valueOf name values ≠ none := by
  obtain ⟨entry, found, same⟩ := List.mem_map.mp among
  rw [valueOf, ne_eq, Option.map_eq_none_iff, List.find?_eq_none, not_forall]
  refine ⟨entry, fun other => other found ?_⟩
  rw [same]
  exact strEqIgnoreAsciiCase_self name

/-- What an input spells is a value in the table. -/
theorem mem_of_valueOf (spelled : valueOf name values = some number) :
    number ∈ values.map (·.1) := by
  obtain ⟨entry, first, same⟩ := Option.map_eq_some_iff.mp spelled
  exact List.mem_map.mpr ⟨entry, List.mem_of_find?_eq_some first, same⟩

/-- A numeral spells a value only if it is a name. -/
theorem valueOf_i64ToString (absent : i64ToString number ∉ values.map (·.2)) :
    valueOf (i64ToString number) values = none := by
  rw [valueOf, Option.map_eq_none_iff, List.find?_eq_none]
  intro entry among agrees
  rw [strEqIgnoreAsciiCase_i64ToString] at agrees
  exact absent (List.mem_map.mpr ⟨entry, among, agrees⟩)

/-- A numeral that is no name is parsed as the number. -/
theorem parseNamedInteger_i64ToString (absent : i64ToString number ∉ values.map (·.2))
    (handler : String) :
    parseNamedInteger (i64ToString number) values handler = .ok number := by
  rw [parseNamedInteger, valueOf_i64ToString absent]
  exact parseDelphiInteger_i64ToString number handler

/-- An input that spells a value is parsed as it. -/
theorem parseNamedInteger_of_valueOf (spelled : valueOf name values = some number)
    (handler : String) : parseNamedInteger name values handler = .ok number := by
  rw [parseNamedInteger, spelled]

end NamedIntegers

/-- The values of an accepted table are different. -/
theorem integerLookupValues_nodup (configuration : JsonValue) (handler : String) :
    Ensures (integerLookupValues configuration handler) fun values =>
      (values.map (·.1)).Nodup := by
  unfold integerLookupValues
  cases (configuration.get "values").bind JsonValue.asArray with
  | none => exact .error _
  | some entries =>
    refine .bind fun values collected => .ite (.error _) (.ok ?_)
    have each : ∀ output : NamedIntegers, (output.map (·.1)).Nodup → ∀ entry,
        Ensures (integerLookupEntry handler output entry) fun values =>
          (values.map (·.1)).Nodup := by
      intro output distinct entry
      unfold integerLookupEntry
      cases (entry.get "value").bind JsonValue.asI64 with
      | none => exact .error _
      | some value =>
        dsimp only
        cases ((entry.get "name").bind JsonValue.asStr).filter (· ≠ "") with
        | none => exact .error _
        | some name =>
          dsimp only
          by_cases repeated : (output.any fun existing =>
              existing.1 = value || existing.2 = name) = true
          · rw [if_pos repeated]
            exact .error _
          · rw [if_neg repeated]
            refine .ok ?_
            rw [List.map_append, List.map_singleton]
            apply distinct.append (List.nodup_singleton value)
            intro number old new
            obtain ⟨existing, among, same⟩ := List.mem_map.mp old
            apply repeated
            rw [List.any_eq_true]
            exact ⟨existing, among, by simp [same, List.mem_singleton.mp new]⟩
    have empty : (([] : NamedIntegers).map (·.1)).Nodup := List.nodup_nil
    exact Ensures.foldlM each empty values collected

namespace IntegerLookupFormatter

variable {invocation : HandlerInvocation} {values : NamedIntegers}

/-- The edit text of an integer is its name or its numeral. -/
theorem showsText_iff (accepted : integerLookupValues invocation.configuration id = .ok values)
    {value : FieldValue} {number : Int64}
    (integer : callbackInteger value id = .ok number.toInt) {shown : String} :
    ShowsText invoke invocation value shown ↔
      (nameOf number values).getD (i64ToString number) = shown := by
  have low := number.le_toInt
  have high := number.toInt_lt
  have notParsing : ¬HandlerPhase.editValue = .parseEditValue := by decide
  have inside : -2 ^ 63 ≤ number.toInt ∧ number.toInt < 2 ^ 63 := ⟨low, high⟩
  have shows : invoke (invocation.with .editValue value) =
      .ok (.text ((nameOf number values).getD (i64ToString number))) := by
    unfold invoke
    show (integerLookupValues invocation.configuration id >>= _) = _
    rw [accepted, ok_bind]
    show (if HandlerPhase.editValue = .parseEditValue then _ else _) = _
    rw [if_neg notParsing]
    show (callbackInteger value id >>= _) = _
    rw [integer, ok_bind]
    dsimp only
    rw [if_pos inside, Int64.ofInt_toInt]
    rfl
  rw [ShowsText, shows]
  constructor
  · intro same
    exact HandlerOutput.text.inj (Except.ok.inj same)
  · intro same
    rw [same]

/-- An edited text is parsed as a name or a number. -/
theorem invoke_parseEditValue
    (accepted : integerLookupValues invocation.configuration id = .ok values) (shown : String) :
    invoke (invocation.with .parseEditValue (.string shown)) =
      parseNamedInteger shown values id >>= fun number => .ok (.value (.int number)) := by
  unfold invoke
  show (integerLookupValues invocation.configuration id >>= _) = _
  rw [accepted, ok_bind]
  show (if HandlerPhase.parseEditValue = .parseEditValue then _ else _) = _
  rw [if_pos rfl]
  rfl

/-- The text of an integer is parsed to it exactly when the text stands for it. -/
theorem readsBack_iff (accepted : integerLookupValues invocation.configuration id = .ok values)
    {value : FieldValue} {number : Int64}
    (integer : callbackInteger value id = .ok number.toInt) :
    ReadsBack invoke invocation value (.int number) ↔
      parseNamedInteger ((nameOf number values).getD (i64ToString number)) values id =
        .ok number := by
  constructor
  · intro reads
    obtain ⟨shown, shows, parsed⟩ := reads
    rw [showsText_iff accepted integer] at shows
    rw [invoke_parseEditValue accepted, ← shows, bind_eq_ok] at parsed
    obtain ⟨other, read, same⟩ := parsed
    rw [read, FieldValue.int.inj (HandlerOutput.value.inj (Except.ok.inj same))]
  · intro reads
    refine ⟨_, (showsText_iff accepted integer).mpr rfl, ?_⟩
    rw [invoke_parseEditValue accepted, reads]
    rfl

/-- A table that tells integers apart gives every integer back. -/
theorem parse_of_tellsApart (distinct : (values.map (·.1)).Nodup) (apart : TellsApart values)
    (number : Int64) :
    parseNamedInteger ((nameOf number values).getD (i64ToString number)) values id =
      .ok number := by
  cases named : nameOf number values with
  | some name =>
    have among := (nameOf_eq_some distinct).mp named
    exact parseNamedInteger_of_valueOf
      ((pairwise_names_iff distinct).mp apart.names (number, name) among) id
  | none =>
    have absent := nameOf_eq_none.mp named
    exact parseNamedInteger_i64ToString (fun numeral => absent (apart.numerals number numeral)) id

/-- A table that gives every integer back tells integers apart. -/
theorem tellsApart_of_parse (distinct : (values.map (·.1)).Nodup)
    (reads : ∀ number, parseNamedInteger ((nameOf number values).getD (i64ToString number)) values
      id = .ok number) : TellsApart values := by
  have stands {name : String} {number : Int64} (listed : name ∈ values.map (·.2))
      (read : parseNamedInteger name values id = .ok number) : valueOf name values = some number := by
    cases spelled : valueOf name values with
    | none => exact absurd spelled (valueOf_ne_none listed)
    | some other =>
      rw [parseNamedInteger_of_valueOf spelled] at read
      rw [Except.ok.inj read]
  refine ⟨(pairwise_names_iff distinct).mpr fun entry among => ?_, fun number listed => ?_⟩
  · have read := reads entry.1
    rw [(nameOf_eq_some distinct).mpr among] at read
    exact stands (List.mem_map_of_mem among) read
  · by_contra absent
    have read := reads number
    rw [nameOf_eq_none.mpr absent] at read
    exact absent (mem_of_valueOf (stands listed read))

end IntegerLookupFormatter

/-- The edit texts of an integer lookup are faithful exactly when its names tell integers apart. -/
theorem integerLookup_editsIntegers_iff (invocation : HandlerInvocation) (values : NamedIntegers)
    (accepted : integerLookupValues invocation.configuration IntegerLookupFormatter.id =
      .ok values) :
    EditsIntegers IntegerLookupFormatter.invoke invocation IntegerLookupFormatter.id ↔
      TellsApart values := by
  have distinct := integerLookupValues_nodup _ _ values accepted
  constructor
  · intro faithful
    apply IntegerLookupFormatter.tellsApart_of_parse distinct
    intro number
    have integer : callbackInteger (.int number) IntegerLookupFormatter.id = .ok number.toInt := rfl
    exact (IntegerLookupFormatter.readsBack_iff accepted integer).mp
      (faithful.readsBack _ number integer)
  · intro apart
    have reads := IntegerLookupFormatter.parse_of_tellsApart distinct apart
    constructor
    · intro value number integer
      exact (IntegerLookupFormatter.readsBack_iff accepted integer).mpr (reads number)
    · intro first second left right shown leftIs rightIs leftShown rightShown
      rw [IntegerLookupFormatter.showsText_iff accepted leftIs] at leftShown
      rw [IntegerLookupFormatter.showsText_iff accepted rightIs] at rightShown
      have leftRead := reads left
      have rightRead := reads right
      rw [leftShown] at leftRead
      rw [rightShown, leftRead] at rightRead
      exact Except.ok.inj rightRead

/-- The configuration of a lookup of two names. -/
def twoNames (first second : String) : JsonValue :=
  .object [("values", .array [
    .object [("value", .number "0"), ("name", .string first)],
    .object [("value", .number "1"), ("name", .string second)]])]

/-- A display of a callback with a configuration. -/
def displayInvocation (operation : String) (configuration : JsonValue) : HandlerInvocation where
  binding := {
    path := "WEAP/DATA/0:Type"
    callbackId := "int.formatter"
    callbackSlot := none
    implementationFingerprint := ""
    implementation := .builtIn ⟨operation, 1, configuration⟩ }
  record := ⟨.ofBytes 0x57 0x45 0x41 0x50, ⟨1⟩, 131, .fallout4, false⟩
  configuration
  phase := .display
  value := none
  oldValue := none
  valueScope := none
  sourceRecord := none
  sourceWritableRecord := none
  sourceSubrecordIndex := none
  arrayIndices := []

/-- The lookup of two names. -/
def twoNamesLookup (first second : String) : HandlerInvocation :=
  displayInvocation IntegerLookupFormatter.id (twoNames first second)

/-- The edit texts of a lookup are faithful exactly when its two names tell zero and one apart. -/
theorem integerLookup_editsIntegers_onOff :
    EditsIntegers IntegerLookupFormatter.invoke (twoNamesLookup "Off" "On")
        IntegerLookupFormatter.id ↔
      TellsApart [(0, "Off"), (1, "On")] :=
  integerLookup_editsIntegers_iff (twoNamesLookup "Off" "On") [(0, "Off"), (1, "On")]
    (eq_ok_of_toOption (by decide +kernel))

/-- Two names that differ in case only are both parsed as the first value. -/
theorem not_editsIntegers_case :
    integerLookupValues (twoNames "On" "ON") IntegerLookupFormatter.id =
      .ok [(0, "On"), (1, "ON")] ∧
    ¬EditsIntegers IntegerLookupFormatter.invoke (twoNamesLookup "On" "ON")
      IntegerLookupFormatter.id := by
  have accepted : integerLookupValues (twoNames "On" "ON") IntegerLookupFormatter.id =
      .ok [(0, "On"), (1, "ON")] := eq_ok_of_toOption (by decide +kernel)
  refine ⟨accepted, fun faithful => ?_⟩
  have integer : callbackInteger (.int 1) IntegerLookupFormatter.id = .ok (1 : Int64).toInt := rfl
  have back := (IntegerLookupFormatter.readsBack_iff accepted integer).mp
    (faithful.readsBack _ 1 integer)
  have first : parseNamedInteger ((nameOf 1 [(0, "On"), (1, "ON")]).getD (i64ToString 1))
      [(0, "On"), (1, "ON")] IntegerLookupFormatter.id = .ok 0 :=
    eq_ok_of_toOption (by decide +kernel)
  rw [first] at back
  exact absurd (Except.ok.inj back) (by decide)

end Bethkit
