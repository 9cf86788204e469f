import Bethkit.Verif.LookupFormatters

/-!
# Events are packed again from their edit texts

The tables of functions and members are filled name by name. No two entries have the same value or
names that differ in case only, no name is a numeral, and no function has a colon in its name. So
each half of an edit text stands for its component alone, and the first colon divides the halves.
-/

namespace Bethkit

open Lib

/-- A table of components: every name and every numeral stands for one value. -/
structure ComponentTable (handler : String) (values : NamedIntegers) : Prop where
  /-- The values are different. -/
  distinct : (values.map (·.1)).Nodup
  /-- The names differ in more than case. -/
  names : values.Pairwise fun first second => strEqIgnoreAsciiCase first.2 second.2 = false
  /-- No name is a numeral. -/
  numerals : ∀ entry ∈ values, (parseDelphiInteger entry.2 handler).isOk = false

namespace ComponentTable

variable {handler : String} {values : NamedIntegers}

/-- An empty table. -/
theorem nil (handler : String) : ComponentTable handler [] where
  distinct := List.nodup_nil
  names := List.Pairwise.nil
  numerals _ found := absurd found List.not_mem_nil

/-- Naming a component keeps the table, and adds no other name. -/
theorem insert (table : ComponentTable handler values) (value : Int64) (name : String) :
    Ensures (insertEventComponent values value name handler) fun after =>
      ComponentTable handler after ∧ ∀ entry ∈ after, entry ∈ values ∨ entry.2 = name := by
  unfold insertEventComponent
  by_cases skipped : name = "" ∨ (parseDelphiInteger name handler).isOk = true
  · rw [if_pos skipped]
    exact .ok ⟨table, fun entry found => .inl found⟩
  · rw [if_neg skipped]
    cases valued : values.find? (·.1 = value) with
    | some entry => exact .ite (.error _) (.ok ⟨table, fun entry found => .inl found⟩)
    | none =>
      cases named : values.find? fun entry => strEqIgnoreAsciiCase entry.2 name with
      | some entry => exact .ite (.error _) (.ok ⟨table, fun entry found => .inl found⟩)
      | none =>
        rw [List.find?_eq_none] at valued named
        refine .ok ⟨⟨?_, ?_, ?_⟩, ?_⟩
        · rw [List.map_append, List.map_singleton]
          apply table.distinct.append (List.nodup_singleton value)
          intro number old new
          obtain ⟨entry, found, same⟩ := List.mem_map.mp old
          exact valued entry found (decide_eq_true (same.trans (List.mem_singleton.mp new)))
        · rw [List.pairwise_append]
          refine ⟨table.names, List.pairwise_singleton _ _, fun old found new last => ?_⟩
          rw [List.mem_singleton.mp last]
          exact Bool.eq_false_iff.mpr (named old found)
        · intro entry found
          rcases List.mem_append.mp found with old | new
          · exact table.numerals entry old
          · rw [List.mem_singleton.mp new]
            exact Bool.eq_false_iff.mpr fun numeral => skipped (.inr numeral)
        · intro entry found
          rcases List.mem_append.mp found with old | new
          · exact .inl old
          · exact .inr (by rw [List.mem_singleton.mp new])

/-- The text of a component stands for it. -/
theorem parse_componentText (table : ComponentTable EventFunctionMemberFormatter.id values)
    (value : Int64) :
    parseNamedInteger (EventFunctionMemberFormatter.componentText value values) values
      EventFunctionMemberFormatter.id = .ok value := by
  unfold EventFunctionMemberFormatter.componentText
  cases named : nameOf value values with
  | some name =>
    have among := (nameOf_eq_some table.distinct).mp named
    exact parseNamedInteger_of_valueOf
      ((pairwise_names_iff table.distinct).mp table.names (value, name) among) _
  | none =>
    refine parseNamedInteger_i64ToString (fun listed => ?_) _
    obtain ⟨entry, found, same⟩ := List.mem_map.mp listed
    have refused := table.numerals entry found
    rw [same, parseDelphiInteger_i64ToString] at refused
    cases refused

end ComponentTable

/-- The text before the first separator has none. -/
theorem not_mem_of_strSplitOnce {text front back : String} {separator : Char}
    (split : strSplitOnce text separator = some (front, back)) : separator ∉ front.toList := by
  unfold strSplitOnce at split
  dsimp only at split
  split at split
  · cases split
    rw [String.toList_ofList]
    intro found
    exact absurd (List.mem_takeWhile_imp found) (by simp)
  · cases split

/-- A text without the separator is split off again. -/
theorem strSplitOnce_append {text front back : String} {separator : Char}
    (chars : text.toList = front.toList ++ separator :: back.toList)
    (plain : separator ∉ front.toList) : strSplitOnce text separator = some (front, back) := by
  have before : (front.toList ++ separator :: back.toList).takeWhile (· ≠ separator) =
      front.toList := by
    rw [List.takeWhile_append_of_pos, List.takeWhile_cons_of_neg (by simp), List.append_nil]
    intro char found
    exact decide_eq_true fun same => plain (same ▸ found)
  have longer : front.toList.length < (front.toList ++ separator :: back.toList).length := by simp
  unfold strSplitOnce
  dsimp only
  rw [chars, before, if_pos longer, List.drop_append, List.drop_eq_nil_of_le (Nat.le_succ _)]
  simp

/-- The tables that a configuration gives. -/
structure EventTables (tables : EventFunctionMemberValues) : Prop where
  /-- The functions. -/
  functions : ComponentTable EventFunctionMemberFormatter.id tables.functions
  /-- The members. -/
  members : ComponentTable EventFunctionMemberFormatter.id tables.members
  /-- No function has a colon in its name. -/
  plain : ∀ entry ∈ tables.functions, ':' ∉ entry.2.toList

/-- One more entry keeps the tables. -/
theorem EventTables.entry {tables : EventFunctionMemberValues} (kept : EventTables tables)
    (entry : JsonValue) :
    Ensures (eventFunctionMemberEntry EventFunctionMemberFormatter.id tables entry)
      EventTables := by
  unfold eventFunctionMemberEntry
  cases (entry.get "value").bind JsonValue.asI64 with
  | none => exact .error _
  | some value =>
    refine .ite (.error _) ?_
    cases (entry.get "name").bind JsonValue.asStr with
    | none => exact .error _
    | some name =>
      dsimp only
      cases split : strSplitOnce name ':' with
      | none => exact .error _
      | some halves =>
        refine .bind fun functions function => .bind fun members member => .ok ?_
        obtain ⟨functionTable, added⟩ := kept.functions.insert _ _ functions function
        obtain ⟨memberTable, _⟩ := kept.members.insert _ _ members member
        refine ⟨functionTable, memberTable, fun entry found => ?_⟩
        rcases added entry found with old | new
        · exact kept.plain entry old
        · rw [new]
          exact not_mem_of_strSplitOnce split

/-- An accepted configuration gives such tables. -/
theorem eventTables_of_accepted (configuration : JsonValue) :
    Ensures (eventFunctionMemberValues configuration EventFunctionMemberFormatter.id)
      EventTables := by
  unfold eventFunctionMemberValues
  cases (configuration.get "values").bind JsonValue.asArray with
  | none => exact .error _
  | some entries =>
    refine .bind fun tables collected => .ite (.error _) (.ok ?_)
    have empty : EventTables ⟨[], []⟩ :=
      ⟨.nil _, .nil _, fun entry found => absurd found List.not_mem_nil⟩
    exact Ensures.foldlM (fun _ kept entry => kept.entry entry) empty tables collected

/-- The text of a function has no colon. -/
theorem EventTables.componentText_plain {tables : EventFunctionMemberValues}
    (kept : EventTables tables) (function : Int64) :
    ':' ∉ (EventFunctionMemberFormatter.componentText function tables.functions).toList := by
  unfold EventFunctionMemberFormatter.componentText
  cases named : nameOf function tables.functions with
  | some name =>
    exact kept.plain _ ((nameOf_eq_some kept.functions.distinct).mp named)
  | none =>
    rw [Option.getD_none, i64ToString, String.toList_ofList, decimalChars]
    have digits {number : Nat} : ':' ∉ Nat.toDigits 10 number := fun found =>
      not_isDecimal (by decide) (isDecimal_of_mem_toDigits found)
    by_cases negative : function.toInt < 0
    · rw [if_pos negative]
      exact fun found => (List.mem_cons.mp found).elim (by decide) digits
    · rw [if_neg negative]
      exact digits

/-- The components of an event are packed again. -/
theorem pack_components (packed : UInt32) :
    (eventMember packed <<< 16).toInt + (eventFunction packed).toInt = packed.toNat := by
  have bound := packed.toNat_lt
  have low : (packed &&& 0xFFFF).toNat = packed.toNat % 65536 := by
    rw [UInt32.toNat_and]
    exact Nat.and_two_pow_sub_one_eq_mod _ 16
  have high : (packed >>> 16).toNat = packed.toNat / 65536 := by
    rw [UInt32.toNat_shiftRight]
    exact Nat.shiftRight_eq_div_pow _ 16
  have shifted : Int64.ofNat (packed.toNat / 65536) <<< 16 =
      Int64.ofNat (packed.toNat / 65536 * 65536) := by
    apply Int64.toBitVec_inj.mp
    apply BitVec.eq_of_toNat_eq
    simp [Nat.shiftLeft_eq]
  rw [eventMember, eventFunction, low, high, shifted, Int64.toInt_ofNat_of_lt (by omega),
    Int64.toInt_ofNat_of_lt (by omega)]
  omega

namespace EventFunctionMemberFormatter

/-- The text of an event is parsed to it. -/
theorem parse_text {tables : EventFunctionMemberValues} (kept : EventTables tables)
    (packed : UInt32) :
    parse tables (componentText (eventFunction packed) tables.functions ++ ":" ++
      componentText (eventMember packed) tables.members) = .ok (.uint packed.toUInt64) := by
  have bound := packed.toNat_lt
  have chars : (componentText (eventFunction packed) tables.functions ++ ":" ++
      componentText (eventMember packed) tables.members).toList =
      (componentText (eventFunction packed) tables.functions).toList ++
        ':' :: (componentText (eventMember packed) tables.members).toList := by simp
  have inside : -2 ^ 63 ≤ (packed.toNat : Int) ∧ (packed.toNat : Int) < 2 ^ 63 := by omega
  have positive : ¬(packed.toNat : Int) < 0 := by omega
  unfold parse
  rw [strSplitOnce_append chars (kept.componentText_plain (eventFunction packed))]
  dsimp only
  rw [kept.functions.parse_componentText, ok_bind, kept.members.parse_componentText, ok_bind,
    pack_components, if_pos inside, if_neg positive, Int.toNat_natCast]
  congr 2
  apply UInt64.toNat_inj.mp
  rw [UInt64.toNat_ofNat', UInt32.toNat_toUInt64]
  omega

end EventFunctionMemberFormatter

/-- The edit text of a packed event is parsed to exactly that event, whatever names the
configuration has for its halves. -/
theorem eventFunctionMember_readsBack (invocation : HandlerInvocation)
    (tables : EventFunctionMemberValues)
    (accepted : eventFunctionMemberValues invocation.configuration
      EventFunctionMemberFormatter.id = .ok tables)
    (value : FieldValue) (raw : Int) (packed : UInt32)
    (integer : callbackInteger value EventFunctionMemberFormatter.id = .ok raw)
    (bits : callbackU32 raw EventFunctionMemberFormatter.id = .ok packed) :
    ReadsBack EventFunctionMemberFormatter.invoke invocation value (.uint packed.toUInt64) := by
  have kept := eventTables_of_accepted _ tables accepted
  have notParsing : ¬HandlerPhase.editValue = .parseEditValue := by decide
  refine ⟨EventFunctionMemberFormatter.componentText (eventFunction packed) tables.functions ++
    ":" ++ EventFunctionMemberFormatter.componentText (eventMember packed) tables.members, ?_, ?_⟩
  · unfold ShowsText EventFunctionMemberFormatter.invoke
    show (eventFunctionMemberValues invocation.configuration EventFunctionMemberFormatter.id >>=
      _) = _
    rw [accepted, ok_bind]
    show (if HandlerPhase.editValue = .parseEditValue then _ else _) = _
    rw [if_neg notParsing]
    show (callbackInteger value EventFunctionMemberFormatter.id >>= _) = _
    rw [integer, ok_bind, bits]
    rfl
  · unfold EventFunctionMemberFormatter.invoke
    show (eventFunctionMemberValues invocation.configuration EventFunctionMemberFormatter.id >>=
      _) = _
    rw [accepted, ok_bind]
    show (if HandlerPhase.parseEditValue = .parseEditValue then _ else _) = _
    rw [if_pos rfl]
    show (EventFunctionMemberFormatter.parse tables _ >>= _) = _
    rw [EventFunctionMemberFormatter.parse_text kept]
    rfl

/-- A configuration of one event with a colon in the name of its member. -/
def oneEvent : JsonValue :=
  .object [("values", .array [
    .object [("value", .number "65538"), ("name", .string "OnHit:Target: other")]])]

/-- An event with a colon in the name of its member is packed again. -/
theorem eventFunctionMember_readsBack_colon :
    ReadsBack EventFunctionMemberFormatter.invoke
      (displayInvocation EventFunctionMemberFormatter.id oneEvent) (.uint 65538)
      (.uint (UInt32.toUInt64 65538)) :=
  eventFunctionMember_readsBack _ ⟨[(2, "OnHit")], [(1, "Target: other")]⟩
    (eq_ok_of_toOption (by decide +kernel))
    (.uint 65538) 65538 65538 rfl rfl

end Bethkit
