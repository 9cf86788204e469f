import Mathlib

/-!
# Reading and writing inside composite values

A composite value has parts, which are values again, and can be rebuilt from as many parts. An
address names a part of a part by positions, outermost first. Reading and writing at an address are a
lens, and addresses of which neither continues the other do not interfere.
-/

namespace Bethkit.Lib

/-- Values with parts that can be replaced. -/
structure Composite (α : Type) where
  /-- The parts in order. -/
  parts : α → List α
  /-- The value with other parts. -/
  rebuild : α → List α → α
  /-- As many parts can be put in. -/
  parts_rebuild : ∀ value values, values.length = (parts value).length →
    parts (rebuild value values) = values
  /-- The own parts change nothing. -/
  rebuild_parts : ∀ value, rebuild value (parts value) = value
  /-- Only the last parts count. -/
  rebuild_rebuild : ∀ value first second, rebuild (rebuild value first) second = rebuild value second

namespace Composite

variable {α : Type} (composite : Composite α)

/-- The value at an address. -/
def read : List Nat → α → Option α
  | [], value => some value
  | index :: address, value => (composite.parts value)[index]?.bind (read address)

/-- A value with another one at an address. -/
def write : List Nat → α → α → α
  | [], new, _ => new
  | index :: address, new, value =>
    composite.rebuild value ((composite.parts value).modify index (write address new))

/-- Neither address continues the other. -/
def Apart (first second : List Nat) : Prop := ¬first <+: second ∧ ¬second <+: first

/-- The parts after a change of one of them. -/
theorem parts_write_cons (index : Nat) (address : List Nat) (new value : α) :
    composite.parts (composite.write (index :: address) new value) =
      (composite.parts value).modify index (composite.write address new) :=
  composite.parts_rebuild value _ (List.length_modify _ _ _)

/-- What was written is read. -/
theorem read_write {address : List Nat} {new value : α}
    (found : (composite.read address value).isSome = true) :
    composite.read address (composite.write address new value) = some new := by
  induction address generalizing value with
  | nil => rfl
  | cons index address rest =>
    rw [read, parts_write_cons, List.getElem?_modify_eq]
    rw [read] at found
    cases part : (composite.parts value)[index]? with
    | none =>
      rw [part] at found
      cases found
    | some inner =>
      rw [part] at found
      exact rest found

/-- Writing what is there changes nothing. -/
theorem write_read {address : List Nat} {value current : α}
    (found : composite.read address value = some current) :
    composite.write address current value = value := by
  induction address generalizing value with
  | nil => exact (Option.some.inj found).symm
  | cons index address rest =>
    rw [read] at found
    obtain ⟨part, stands, inner⟩ := Option.bind_eq_some_iff.mp found
    have same : (composite.parts value).modify index (composite.write address current) =
        composite.parts value := by
      apply List.ext_getElem?
      intro position
      by_cases here : index = position
      · rw [← here, List.getElem?_modify_eq, stands]
        exact congrArg some (rest inner)
      · rw [List.getElem?_modify_ne _ _ here]
    rw [write, same, composite.rebuild_parts]

/-- Addresses with one beginning are apart behind it. -/
theorem Apart.of_cons {index : Nat} {first second : List Nat}
    (apart : Apart (index :: first) (index :: second)) : Apart first second :=
  ⟨fun continues => apart.1 (List.cons_prefix_cons.mpr ⟨rfl, continues⟩),
    fun continues => apart.2 (List.cons_prefix_cons.mpr ⟨rfl, continues⟩)⟩

/-- What stands apart is not changed. -/
theorem read_write_apart {first second : List Nat} (apart : Apart first second) (new value : α) :
    composite.read second (composite.write first new value) = composite.read second value := by
  induction first generalizing second value with
  | nil => exact absurd List.nil_prefix apart.1
  | cons index first rest =>
    cases second with
    | nil => exact absurd List.nil_prefix apart.2
    | cons other second =>
      rw [read, read, parts_write_cons]
      by_cases same : index = other
      · subst same
        rw [List.getElem?_modify_eq]
        cases (composite.parts value)[index]? with
        | none => rfl
        | some part => exact rest apart.of_cons part
      · rw [List.getElem?_modify_ne _ _ same]

/-- Changes at places apart commute. -/
theorem write_comm {first second : List Nat} (apart : Apart first second) (new other value : α) :
    composite.write first new (composite.write second other value) =
      composite.write second other (composite.write first new value) := by
  induction first generalizing second value with
  | nil => exact absurd List.nil_prefix apart.1
  | cons index first rest =>
    cases second with
    | nil => exact absurd List.nil_prefix apart.2
    | cons position second =>
      have both : ∀ (front back : Nat) (inner outer : List Nat) (x y : α),
          composite.write (front :: inner) x (composite.write (back :: outer) y value) =
            composite.rebuild value (((composite.parts value).modify back
              (composite.write outer y)).modify front (composite.write inner x)) := by
        intro front back inner outer x y
        rw [write, parts_write_cons, write, composite.rebuild_rebuild]
      rw [both, both]
      apply congrArg (composite.rebuild value)
      apply List.ext_getElem?
      intro place
      by_cases same : index = position
      · subst same
        by_cases here : index = place
        · subst here
          rw [List.getElem?_modify_eq, List.getElem?_modify_eq, List.getElem?_modify_eq,
            List.getElem?_modify_eq]
          cases (composite.parts value)[index]? with
          | none => rfl
          | some part => exact congrArg some (rest apart.of_cons part)
        · simp only [List.getElem?_modify_ne _ _ here]
      · by_cases here : index = place
        · subst here
          have away : position ≠ index := Ne.symm same
          simp only [List.getElem?_modify_eq, List.getElem?_modify_ne _ _ away]
        · by_cases there : position = place
          · subst there
            simp only [List.getElem?_modify_eq, List.getElem?_modify_ne _ _ here]
          · simp only [List.getElem?_modify_ne _ _ here, List.getElem?_modify_ne _ _ there]

end Composite

/-! ## Places below parts -/

section Places

variable {α : Type}

/-- The address of the same place after one more part in front. -/
def shiftPart : List Nat → List Nat
  | [] => []
  | index :: address => (index + 1) :: address

/-- The places of all parts, from the places in each part. -/
def placesBelow : List (List (List Nat × α)) → List (List Nat × α)
  | [] => []
  | first :: rest =>
    first.map (fun place => (0 :: place.1, place.2)) ++
      (placesBelow rest).map fun place => (shiftPart place.1, place.2)

/-- A place of all parts is a place in one of them. -/
theorem mem_placesBelow {parts : List (List (List Nat × α))} {place : List Nat × α} :
    place ∈ placesBelow parts ↔ ∃ index inner part, parts[index]? = some part ∧
      inner ∈ part ∧ place = (index :: inner.1, inner.2) := by
  induction parts generalizing place with
  | nil => simp [placesBelow]
  | cons first parts rest =>
    rw [placesBelow, List.mem_append, List.mem_map, List.mem_map]
    constructor
    · rintro (⟨inner, among, rfl⟩ | ⟨later, among, rfl⟩)
      · exact ⟨0, inner, first, rfl, among, rfl⟩
      · obtain ⟨index, inner, part, stands, member, rfl⟩ := rest.mp among
        exact ⟨index + 1, inner, part, stands, member, rfl⟩
    · rintro ⟨index, inner, part, stands, member, rfl⟩
      cases index with
      | zero =>
        cases stands
        exact Or.inl ⟨inner, member, rfl⟩
      | succ index =>
        exact Or.inr ⟨(index :: inner.1, inner.2), rest.mpr ⟨index, inner, part, stands, member, rfl⟩,
          rfl⟩

/-- Addresses in different parts are apart. -/
theorem Composite.Apart.of_ne {first second : Nat} (differ : first ≠ second)
    (inner outer : List Nat) : Composite.Apart (first :: inner) (second :: outer) := by
  unfold Composite.Apart
  simp [List.cons_prefix_cons, differ, Ne.symm differ]

/-- One more part in front keeps addresses apart. -/
theorem Composite.apart_cons_iff (index : Nat) (first second : List Nat) :
    Composite.Apart (index :: first) (index :: second) ↔ Composite.Apart first second := by
  unfold Composite.Apart
  simp [List.cons_prefix_cons]

/-- A place of all parts with its number is one in a part with its own number, and to change it
there is to change it among all. -/
theorem getElem?_placesBelow {parts : List (List (List Nat × α))} {number : Nat}
    {place : List Nat × α} (stands : (placesBelow parts)[number]? = some place) :
    ∃ index inner part own, parts[index]? = some part ∧ part[own]? = some inner ∧
      place = (index :: inner.1, inner.2) ∧
      ∀ value, placesBelow (parts.set index (part.set own (inner.1, value))) =
        (placesBelow parts).set number (index :: inner.1, value) := by
  induction parts generalizing number place with
  | nil => cases stands
  | cons first parts rest =>
    rw [placesBelow] at stands
    by_cases within : number < first.length
    · rw [List.getElem?_append_left (by rw [List.length_map]; exact within),
        List.getElem?_map] at stands
      obtain ⟨inner, found, rfl⟩ := Option.map_eq_some_iff.mp stands
      refine ⟨0, inner, first, number, rfl, found, rfl, ?_⟩
      intro value
      rw [List.set_cons_zero, placesBelow, placesBelow, List.map_set,
        List.set_append_left _ _ (by rw [List.length_map]; exact within)]
    · have behind : (first.map fun place => (0 :: place.1, place.2)).length ≤ number := by
        rw [List.length_map]
        omega
      rw [List.getElem?_append_right behind, List.getElem?_map] at stands
      obtain ⟨later, found, rfl⟩ := Option.map_eq_some_iff.mp stands
      obtain ⟨index, inner, part, own, described, held, rfl, changes⟩ := rest found
      refine ⟨index + 1, inner, part, own, described, held, rfl, ?_⟩
      intro value
      rw [List.set_cons_succ, placesBelow, changes, placesBelow, List.map_set,
        List.set_append_right _ _ behind]
      rfl

/-- Two lists of places that differ around an address only: the places before and behind it are the
same. -/
def SameApart (address : List Nat) (old new : List (List Nat × α)) : Prop :=
  ∃ before middle replaced after, old = before ++ (middle ++ after) ∧
    new = before ++ (replaced ++ after) ∧
    (∀ place ∈ before, place.1 < address ∧ Composite.Apart address place.1) ∧
    (∀ place ∈ after, address < place.1 ∧ Composite.Apart address place.1) ∧
    ∀ place ∈ middle ++ replaced, ¬Composite.Apart address place.1

/-- Where no place is apart, nothing has to be the same. -/
theorem SameApart.of_around {address : List Nat} {old new : List (List Nat × α)}
    (around : ∀ place ∈ old ++ new, ¬Composite.Apart address place.1) :
    SameApart address old new := by
  refine ⟨[], old, new, [], ?_, ?_, ?_, ?_, around⟩
  · rw [List.nil_append, List.append_nil]
  · rw [List.nil_append, List.append_nil]
  · exact fun _ among => absurd among List.not_mem_nil
  · exact fun _ among => absurd among List.not_mem_nil

/-- Nothing is apart from the whole value. -/
theorem SameApart.whole (old new : List (List Nat × α)) : SameApart [] old new :=
  .of_around fun _ _ apart => apart.1 List.nil_prefix

/-- The only place is the whole value. -/
theorem SameApart.single (address : List Nat) (old new : α) :
    SameApart address [([], old)] [([], new)] := by
  apply SameApart.of_around
  intro place among apart
  have root : place.1 = [] := by
    rcases List.mem_append.mp among with among | among
    · rw [List.mem_singleton.mp among]
    · rw [List.mem_singleton.mp among]
  rw [root] at apart
  exact apart.2 List.nil_prefix

/-- There are no places. -/
theorem SameApart.empty (address : List Nat) : @SameApart α address [] [] :=
  .of_around fun _ among => absurd among List.not_mem_nil

/-- Places that differ in one part differ around an address in this part. -/
theorem SameApart.placesBelow {parts : List (List (List Nat × α))} {index : Nat}
    {address : List Nat} {old new : List (List Nat × α)} (stands : parts[index]? = some old)
    (inner : SameApart address old new) :
    SameApart (index :: address) (placesBelow parts) (placesBelow (parts.set index new)) := by
  let enter : List Nat × α → List Nat × α := fun place => (0 :: place.1, place.2)
  let shift : List Nat × α → List Nat × α := fun place => (shiftPart place.1, place.2)
  induction parts generalizing index with
  | nil => cases stands
  | cons first parts rest =>
    cases index with
    | zero =>
      cases stands
      obtain ⟨before, middle, replaced, after, isOld, isNew, early, late, inside⟩ := inner
      subst isOld isNew
      have entered : ∀ {places : List (List Nat × α)} {place}, place ∈ places.map enter →
          ∃ own ∈ places, place = (0 :: own.1, own.2) := by
        intro places place among
        obtain ⟨own, member, same⟩ := List.mem_map.mp among
        exact ⟨own, member, same.symm⟩
      refine ⟨before.map enter, middle.map enter, replaced.map enter,
        after.map enter ++ (Lib.placesBelow parts).map shift, ?_, ?_, ?_, ?_, ?_⟩
      · show List.map enter _ ++ List.map shift _ = _
        simp only [List.map_append, List.append_assoc]
      · show List.map enter _ ++ List.map shift _ = _
        simp only [List.map_append, List.append_assoc]
      · intro place among
        obtain ⟨own, member, rfl⟩ := entered among
        exact ⟨List.cons_lt_cons_self.mpr (early own member).1,
          (Composite.apart_cons_iff 0 _ _).mpr (early own member).2⟩
      · intro place among
        rcases List.mem_append.mp among with among | among
        · obtain ⟨own, member, rfl⟩ := entered among
          exact ⟨List.cons_lt_cons_self.mpr (late own member).1,
            (Composite.apart_cons_iff 0 _ _).mpr (late own member).2⟩
        · obtain ⟨own, member, rfl⟩ := List.mem_map.mp among
          obtain ⟨position, place, _, _, _, rfl⟩ := mem_placesBelow.mp member
          exact ⟨List.Lex.rel (Nat.succ_pos position),
            Composite.Apart.of_ne (Nat.succ_ne_zero position).symm _ _⟩
      · intro place among
        rw [← List.map_append] at among
        obtain ⟨own, member, rfl⟩ := entered among
        exact fun apart => inside own member ((Composite.apart_cons_iff 0 _ _).mp apart)
    | succ index =>
      -- Places of later parts keep their order and distance behind one more part.
      have shifted : ∀ (list : List (List (List Nat × α))), ∀ place ∈ Lib.placesBelow list,
          (Composite.Apart ((index + 1) :: address) (shiftPart place.1) ↔
            Composite.Apart (index :: address) place.1) ∧
          (shiftPart place.1 < (index + 1) :: address ↔ place.1 < index :: address) ∧
          ((index + 1) :: address < shiftPart place.1 ↔ index :: address < place.1) := by
        intro list place member
        obtain ⟨other, own, _, _, _, rfl⟩ := mem_placesBelow.mp member
        unfold Composite.Apart
        simp [shiftPart, List.cons_prefix_cons, List.cons_lt_cons_iff]
      obtain ⟨before, middle, replaced, after, isOld, isNew, early, late, inside⟩ := rest stands
      have stood : ∀ place ∈ before ++ (middle ++ after), place ∈ Lib.placesBelow parts := by
        rw [isOld]
        exact fun _ member => member
      have stays : ∀ place ∈ before ++ (replaced ++ after),
          place ∈ Lib.placesBelow (parts.set index new) := by
        rw [isNew]
        exact fun _ member => member
      refine ⟨first.map enter ++ before.map shift, middle.map shift, replaced.map shift,
        after.map shift, ?_, ?_, ?_, ?_, ?_⟩
      · show List.map enter first ++ (Lib.placesBelow parts).map shift = _
        rw [isOld]
        simp only [List.map_append, List.append_assoc]
      · show List.map enter first ++ (Lib.placesBelow (parts.set index new)).map shift = _
        rw [isNew]
        simp only [List.map_append, List.append_assoc]
      · intro place member
        rcases List.mem_append.mp member with member | member
        · obtain ⟨own, _, rfl⟩ := List.mem_map.mp member
          exact ⟨List.Lex.rel (Nat.succ_pos index),
            Composite.Apart.of_ne (Nat.succ_ne_zero index) _ _⟩
        · obtain ⟨own, known, rfl⟩ := List.mem_map.mp member
          have laws := shifted parts own (stood own (List.mem_append_left _ known))
          exact ⟨laws.2.1.mpr (early own known).1, laws.1.mpr (early own known).2⟩
      · intro place member
        obtain ⟨own, known, rfl⟩ := List.mem_map.mp member
        have laws := shifted parts own
          (stood own (List.mem_append_right _ (List.mem_append_right _ known)))
        exact ⟨laws.2.2.mpr (late own known).1, laws.1.mpr (late own known).2⟩
      · intro place member apart
        rw [← List.map_append] at member
        obtain ⟨own, known, rfl⟩ := List.mem_map.mp member
        rcases List.mem_append.mp known with among | among
        · have laws := shifted parts own
            (stood own (List.mem_append_right _ (List.mem_append_left _ among)))
          exact inside own known (laws.1.mp apart)
        · have laws := shifted _ own
            (stays own (List.mem_append_right _ (List.mem_append_left _ among)))
          exact inside own known (laws.1.mp apart)

/-- A place apart keeps its number and value if it comes first or as many places stand before and
after the change. -/
theorem SameApart.getElem?_eq {address : List Nat} {old new : List (List Nat × α)}
    (same : SameApart address old new) {number : Nat} {place : List Nat × α}
    (stands : old[number]? = some place) (apart : Composite.Apart address place.1)
    (keeps : place.1 < address ∨ new.length = old.length) : new[number]? = some place := by
  obtain ⟨before, middle, replaced, after, rfl, rfl, early, late, inside⟩ := same
  by_cases first : number < before.length
  · rw [List.getElem?_append_left first] at stands ⊢
    exact stands
  · have behind : before.length ≤ number := by omega
    rw [List.getElem?_append_right behind] at stands ⊢
    by_cases within : number - before.length < middle.length
    · rw [List.getElem?_append_left within] at stands
      have member := List.mem_append_left replaced (List.mem_of_getElem? stands)
      exact absurd apart (inside place member)
    · have last : middle.length ≤ number - before.length := by omega
      rw [List.getElem?_append_right last] at stands
      have later := (late place (List.mem_of_getElem? stands)).1
      have lengths : replaced.length = middle.length := by
        rcases keeps with precedes | count
        · exact absurd precedes (List.lt_asymm later)
        · simp only [List.length_append] at count
          omega
      rw [List.getElem?_append_right (by omega), lengths]
      exact stands

end Places

end Bethkit.Lib
