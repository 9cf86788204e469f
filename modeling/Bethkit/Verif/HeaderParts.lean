import Bethkit.Spec.HeaderEdit
import Bethkit.Verif.RoundTrip

/-!
# Edited parts

What the edits of a header leave among its parts: where the new strings end up, which masters a
reader sees, and which HEDR comes first. The parts fit a parser exactly when the new strings do,
because source frames always fit.
-/

namespace Bethkit

open Lib

namespace Layout

/-- A part that a reader finds as one subrecord. -/
def PartFits : Part → Prop
  | .kept _ => True
  | .fresh subrecord => subrecord.signature ≠ .XXXX ∧ subrecord.data.length < 2 ^ 32

/-- Fitting parts have the bytes of frames with the same values. -/
theorem exists_frames (parts : List Part) (fit : ∀ part ∈ parts, PartFits part) :
    ∃ frames : List Frame, encodeFrames frames = encodeParts parts ∧
      frames.map Frame.value = parts.map Part.value := by
  induction parts with
  | nil => exact ⟨[], rfl, rfl⟩
  | cons part parts ih =>
    obtain ⟨frames, encoded, values⟩ := ih fun other found => fit other (List.mem_cons_of_mem _ found)
    have split : encodeParts (part :: parts) = part.encode ++ encodeParts parts := rfl
    cases part with
    | kept frame =>
      exact ⟨frame :: frames, by rw [encodeFrames_cons, encoded, split]; rfl,
        by rw [List.map_cons, values, List.map_cons]; rfl⟩
    | fresh subrecord =>
      obtain ⟨notOverride, small⟩ := fit _ List.mem_cons_self
      exact ⟨subrecord.toFrame notOverride small :: frames,
        by rw [encodeFrames_cons, encoded, split, WritableSubRecord.encode_toFrame]; rfl,
        by rw [List.map_cons, values, List.map_cons]; rfl⟩

/-- A payload is never longer than a size field can say. -/
theorem Frame.payload_lt (frame : Frame) : frame.payload.length < 2 ^ 32 := by
  rw [frame.sized]
  unfold announcedSize
  split
  · rename_i real _
    exact real.toNat_lt
  · have word := frame.sizeField.toNat_lt
    omega

/-- Changing the first part with a signature changes no other part. -/
theorem mem_changeFirst {signature : Signature} {change : Part → Part} {parts : List Part}
    {part : Part} (found : part ∈ changeFirst signature change parts) :
    part ∈ parts ∨ ∃ other ∈ parts, part = change other := by
  induction parts with
  | nil => exact absurd found List.not_mem_nil
  | cons head parts ih =>
    rw [changeFirst] at found
    split at found
    · rcases List.mem_cons.mp found with rfl | later
      · exact .inr ⟨head, List.mem_cons_self, rfl⟩
      · exact .inl (List.mem_cons_of_mem _ later)
    · rcases List.mem_cons.mp found with rfl | later
      · exact .inl List.mem_cons_self
      · rcases ih later with same | ⟨other, among, rfl⟩
        · exact .inl (List.mem_cons_of_mem _ same)
        · exact .inr ⟨other, List.mem_cons_of_mem _ among, rfl⟩

/-- A replaced or appended part joins the others. -/
theorem mem_replaceOrAppend {signature : Signature} {new : Part} {parts : List Part} {part : Part}
    (found : part ∈ replaceOrAppend signature new parts) : part = new ∨ part ∈ parts := by
  induction parts with
  | nil => exact .inl (List.mem_singleton.mp found)
  | cons head parts ih =>
    rw [replaceOrAppend] at found
    split at found
    · exact (List.mem_cons.mp found).imp_right (List.mem_cons_of_mem _)
    · rcases List.mem_cons.mp found with rfl | later
      · exact .inr List.mem_cons_self
      · exact (ih later).imp_right (List.mem_cons_of_mem _)

/-- The replacement is always there. -/
theorem new_mem_replaceOrAppend (signature : Signature) (new : Part) (parts : List Part) :
    new ∈ replaceOrAppend signature new parts := by
  induction parts with
  | nil => exact List.mem_singleton_self new
  | cons head parts ih =>
    rw [replaceOrAppend]
    split
    · exact List.mem_cons_self
    · exact List.mem_cons_of_mem _ ih

/-- Dropping masters keeps a sublist. -/
theorem sublist_withoutMasters (follows : Bool) (parts : List Part) :
    (withoutMasters follows parts).Sublist parts := by
  induction parts generalizing follows with
  | nil => exact .slnil
  | cons head parts ih =>
    rw [withoutMasters]
    split
    · exact (ih true).cons head
    · split
      · exact (ih false).cons head
      · exact (ih false).cons_cons head

/-- The new masters join what is not dropped. -/
theorem mem_spliceMasters {new parts : List Part} {part : Part}
    (found : part ∈ spliceMasters new parts) : part ∈ new ∨ part ∈ parts := by
  induction parts with
  | nil => exact .inl found
  | cons head parts ih =>
    rw [spliceMasters] at found
    split at found
    · exact (List.mem_append.mp found).imp_right fun later =>
        List.mem_cons_of_mem _ ((sublist_withoutMasters true parts).subset later)
    · rcases List.mem_cons.mp found with rfl | later
      · exact .inr List.mem_cons_self
      · exact (ih later).imp_right (List.mem_cons_of_mem _)

/-- The new masters are always there. -/
theorem new_subset_spliceMasters (new parts : List Part) : new ⊆ spliceMasters new parts := by
  induction parts with
  | nil => exact fun _ found => found
  | cons head parts ih =>
    rw [spliceMasters]
    split
    · exact List.subset_append_left _ _
    · exact List.subset_cons_of_subset _ ih

/-- A part that is neither MAST nor DATA is not dropped with the masters. -/
theorem mem_withoutMasters_of_ne {follows : Bool} {parts : List Part} {part : Part}
    (found : part ∈ parts) (notMaster : part.signature ≠ .MAST)
    (notData : part.signature ≠ .DATA) : part ∈ withoutMasters follows parts := by
  induction parts generalizing follows with
  | nil => exact absurd found List.not_mem_nil
  | cons head parts ih =>
    rw [withoutMasters]
    rcases List.mem_cons.mp found with rfl | later
    · rw [if_neg notMaster, if_neg fun both => notData both.2]
      exact List.mem_cons_self
    · split
      · exact ih later
      · split
        · exact ih later
        · exact List.mem_cons_of_mem _ (ih later)

/-- A part that is neither MAST nor DATA stays when masters are replaced. -/
theorem mem_spliceMasters_of_ne {new parts : List Part} {part : Part} (found : part ∈ parts)
    (notMaster : part.signature ≠ .MAST) (notData : part.signature ≠ .DATA) :
    part ∈ spliceMasters new parts := by
  induction parts with
  | nil => exact absurd found List.not_mem_nil
  | cons head parts ih =>
    rw [spliceMasters]
    rcases List.mem_cons.mp found with rfl | later
    · rw [if_neg notMaster]
      exact List.mem_cons_self
    · split
      · exact List.mem_append_right _ (mem_withoutMasters_of_ne later notMaster notData)
      · exact List.mem_cons_of_mem _ (ih later)

/-- A new description stays among the edited parts. -/
theorem descriptionPart_mem_editParts {edit : HeaderEdit} {description : String}
    (given : edit.description = some description) (parts : List Part) :
    descriptionPart description ∈ editParts edit parts := by
  obtain ⟨_, _, _, _, _, _, _, _, _, _, notMaster, notData⟩ := Signature.header_ne
  have placed := new_mem_replaceOrAppend .SNAM (descriptionPart description)
    (changeFirst .HEDR (Part.withCounters edit.counters) parts)
  simp only [editParts, given]
  cases edit.masters with
  | none => exact placed
  | some masters => exact mem_spliceMasters_of_ne placed notMaster notData

/-- New masters stay among the edited parts. -/
theorem masterParts_subset_editParts {edit : HeaderEdit} {masters : List String}
    (given : edit.masters = some masters) (parts : List Part) :
    masterParts masters ⊆ editParts edit parts := by
  simp only [editParts, given]
  exact new_subset_spliceMasters _ _

/-- An edited part is a source frame or comes from the edits. -/
theorem mem_editParts {edit : HeaderEdit} {frames : List Frame} {part : Part}
    (found : part ∈ editParts edit (frames.map .kept)) :
    (∃ frame, part = .kept frame) ∨
      (∃ description, edit.description = some description ∧ part = descriptionPart description) ∨
      ∃ masters, edit.masters = some masters ∧ part ∈ masterParts masters := by
  have counted : part ∈ changeFirst .HEDR (Part.withCounters edit.counters) (frames.map .kept) →
      ∃ frame, part = .kept frame := by
    intro among
    rcases mem_changeFirst among with same | ⟨other, same, rfl⟩
    all_goals obtain ⟨frame, _, rfl⟩ := List.mem_map.mp same
    · exact ⟨frame, rfl⟩
    · exact ⟨frame.withCounters edit.counters, rfl⟩
  have described (description : String) :
      part ∈ replaceOrAppend .SNAM (descriptionPart description)
        (changeFirst .HEDR (Part.withCounters edit.counters) (frames.map .kept)) →
      part = descriptionPart description ∨ ∃ frame, part = .kept frame :=
    fun among => (mem_replaceOrAppend among).imp_right counted
  simp only [editParts] at found
  cases named : edit.masters with
  | none =>
    cases given : edit.description with
    | none =>
      simp only [named, given] at found
      exact .inl (counted found)
    | some description =>
      simp only [named, given] at found
      rcases described description found with rfl | kept
      · exact .inr (.inl ⟨description, rfl, rfl⟩)
      · exact .inl kept
  | some masters =>
    cases given : edit.description with
    | none =>
      simp only [named, given] at found
      rcases mem_spliceMasters found with new | later
      · exact .inr (.inr ⟨masters, rfl, new⟩)
      · exact .inl (counted later)
    | some description =>
      simp only [named, given] at found
      rcases mem_spliceMasters found with new | later
      · exact .inr (.inr ⟨masters, rfl, new⟩)
      · rcases described description later with rfl | kept
        · exact .inr (.inl ⟨description, rfl, rfl⟩)
        · exact .inl kept

/-- Every new string is the payload of an edited part. -/
theorem exists_mem_editParts (counters : HedrCounters) (patch : Option PluginHeaderPatch)
    (parts : List Part) {text : String} (new : text ∈ newStrings patch) : ∃ signature,
      .fresh ⟨signature, strAsBytes text ++ [0]⟩ ∈ editParts (patchEdit counters patch) parts := by
  rcases List.mem_append.mp new with described | named
  · have given : (patchEdit counters patch).description = some text := Option.mem_toList.mp described
    exact ⟨.SNAM, descriptionPart_mem_editParts given parts⟩
  · cases given : patch.bind (·.masters) with
    | none => simp [given] at named
    | some masters =>
      rw [given, Option.getD_some] at named
      refine ⟨.MAST, masterParts_subset_editParts given parts (List.mem_map_of_mem ?_)⟩
      exact List.mem_flatMap.mpr ⟨text, named, List.mem_cons_self⟩

/-- The edited parts of a header fit exactly when the new strings do. -/
theorem partFits_editParts (counters : HedrCounters) (patch : Option PluginHeaderPatch)
    (frames : List Frame) :
    (∀ part ∈ editParts (patchEdit counters patch) (frames.map .kept), PartFits part) ↔
      StringsFit patch := by
  obtain ⟨_, notMaster, notData, notOverride⟩ := Signature.header_ne_XXXX
  constructor
  · intro fit text new
    obtain ⟨signature, placed⟩ := exists_mem_editParts counters patch (frames.map .kept) new
    simpa using (fit _ placed).2
  · intro fit part found
    rcases mem_editParts found with ⟨frame, rfl⟩ | ⟨description, given, rfl⟩ | ⟨masters, given, among⟩
    · trivial
    · refine ⟨notOverride, ?_⟩
      simpa using fit description (List.mem_append_left _ (Option.mem_toList.mpr given))
    · simp only [masterParts, List.mem_map, List.mem_flatMap, PluginWriter.masterSubRecords] at among
      obtain ⟨subrecord, ⟨master, named, among⟩, rfl⟩ := among
      have same : patch.bind (·.masters) = some masters := given
      have short := fit master (List.mem_append_right _ (by rwa [same, Option.getD_some]))
      rcases List.mem_cons.mp among with rfl | last
      · exact ⟨notMaster, by simpa using short⟩
      · obtain rfl := List.mem_singleton.mp last
        exact ⟨notData, by simp⟩

/-- Strings that stand in a payload of less than `2^32` bytes fit. -/
theorem stringsFit_of_length (counters : HedrCounters) (patch : Option PluginHeaderPatch)
    (block : Block) (small : (editedPayload (patchEdit counters patch) block).length < 2 ^ 32) :
    StringsFit patch := by
  intro text new
  obtain ⟨signature, placed⟩ := exists_mem_editParts counters patch (block.frames.map .kept) new
  obtain ⟨front, back, split⟩ := List.append_of_mem placed
  simp only [editedPayload, split, encodeParts, List.flatMap_append, List.flatMap_cons, Part.encode,
    WritableSubRecord.writeTo, List.length_append, List.length_cons, List.length_nil] at small
  omega

/-- Parts with the values of frames fit. -/
theorem partFits_of_values {frames : List Frame} {parts : List Part}
    (same : frames.map Frame.value = parts.map Part.value) : ∀ part ∈ parts, PartFits part := by
  intro part found
  cases part with
  | kept frame => trivial
  | fresh subrecord =>
    have seen : (Part.fresh subrecord).value ∈ frames.map Frame.value :=
      same ▸ List.mem_map_of_mem found
    obtain ⟨frame, _, equal⟩ := List.mem_map.mp seen
    obtain ⟨signature, payload⟩ := Prod.mk.inj equal
    exact ⟨signature ▸ frame.notOverride, payload ▸ frame.payload_lt⟩

/-- The type in the value of a part is its own. -/
@[simp]
theorem Part.fst_value (part : Part) : part.value.1 = part.signature := by
  cases part <;> rfl

/-- No MAST is left without the masters. -/
theorem filter_withoutMasters (follows : Bool) (parts : List Part) :
    (withoutMasters follows parts).filter (·.signature = .MAST) = [] := by
  induction parts generalizing follows with
  | nil => rfl
  | cons part parts ih =>
    rw [withoutMasters]
    split
    · exact ih true
    · rename_i other
      split
      · exact ih false
      · rw [List.filter_cons_of_neg (by simpa using other), ih]

/-- After a replacement the MAST parts are the new ones. -/
theorem filter_spliceMasters (new parts : List Part) :
    (spliceMasters new parts).filter (·.signature = .MAST) =
      new.filter (·.signature = .MAST) := by
  induction parts with
  | nil => rfl
  | cons part parts ih =>
    rw [spliceMasters]
    split
    · rw [List.filter_append, filter_withoutMasters, List.append_nil]
    · rename_i other
      rw [List.filter_cons_of_neg (by simpa using other), ih]

/-- The masters of parts are the strings of the MAST parts. -/
theorem mastersOf_parts (parts : List Part) : mastersOf (parts.map Part.value) =
    (parts.filter (·.signature = .MAST)).filterMap fun part => zstringOf part.value.2 := by
  simp only [mastersOf, List.filter_map, List.filterMap_map, Function.comp_def, Part.fst_value]

/-- The masters of an edited header are the new ones. -/
theorem mastersOf_editParts {edit : HeaderEdit} {masters : List String}
    (given : edit.masters = some masters) (clean : ∀ master ∈ masters, 0 ∉ strAsBytes master)
    (parts : List Part) : mastersOf ((editParts edit parts).map Part.value) = masters := by
  have values : (masterParts masters).map Part.value =
      (masters.flatMap PluginWriter.masterSubRecords).map WritableSubRecord.value := by
    rw [masterParts, List.map_map]
    rfl
  have written := PluginWriter.mastersOf_masterSubRecords masters clean
  rw [← values, mastersOf_parts] at written
  simp only [editParts, given, mastersOf_parts, filter_spliceMasters, written]

/-- Changing a part of one type does not change the parts of another. -/
theorem filter_changeFirst {signature other : Signature} (differ : signature ≠ other)
    (change : Part → Part) (keeps : ∀ part, (change part).signature = part.signature)
    (parts : List Part) : (changeFirst signature change parts).filter (·.signature = other) =
      parts.filter (·.signature = other) := by
  induction parts with
  | nil => rfl
  | cons part parts ih =>
    rw [changeFirst]
    by_cases same : part.signature = signature
    · simp [same, keeps, differ]
    · simp [same, List.filter_cons, ih]

/-- Replacing a part of one type does not change the parts of another. -/
theorem filter_replaceOrAppend {signature other : Signature} (differ : signature ≠ other)
    (new : Part) (typed : new.signature = signature) (parts : List Part) :
    (replaceOrAppend signature new parts).filter (·.signature = other) =
      parts.filter (·.signature = other) := by
  induction parts with
  | nil => simp [replaceOrAppend, typed, differ]
  | cons part parts ih =>
    rw [replaceOrAppend]
    by_cases same : part.signature = signature
    · simp [same, typed, differ]
    · simp [same, List.filter_cons, ih]

/-- Without new masters the masters of an edited header are the old ones. -/
theorem mastersOf_editParts_none {edit : HeaderEdit} (given : edit.masters = none)
    (parts : List Part) :
    mastersOf ((editParts edit parts).map Part.value) = mastersOf (parts.map Part.value) := by
  obtain ⟨hedrMast, _, _, _, _, _, _, _, _, _, snamMast, _⟩ := Signature.header_ne
  have counted := filter_changeFirst hedrMast (Part.withCounters edit.counters)
    (Part.signature_withCounters edit.counters) parts
  simp only [editParts, given, mastersOf_parts]
  cases edit.description with
  | none => rw [counted]
  | some description =>
    dsimp only
    rw [filter_replaceOrAppend snamMast _ rfl, counted]

/-- New masters are all found, whatever their names are. -/
theorem length_mastersOf_editParts {edit : HeaderEdit} {masters : List String}
    (given : edit.masters = some masters) (parts : List Part) :
    (mastersOf ((editParts edit parts).map Part.value)).length = masters.length := by
  simp only [editParts, given, mastersOf_parts, filter_spliceMasters]
  clear given
  induction masters with
  | nil => rfl
  | cons master masters ih =>
    obtain ⟨shown, read⟩ := exists_zstringOf_terminated master
    have split : masterParts (master :: masters) = .fresh ⟨.MAST, strAsBytes master ++ [0]⟩ ::
        .fresh ⟨.DATA, List.replicate 8 0⟩ :: masterParts masters := rfl
    have value : zstringOf (Part.fresh ⟨.MAST, strAsBytes master ++ [0]⟩).value.2 = some shown :=
      read
    rw [split, List.filter_cons_of_pos (by rfl), List.filter_cons_of_neg (by decide),
      List.filterMap_cons, value, List.length_cons, ih, List.length_cons]

/-- Changing the first part with a signature changes what is found. -/
theorem find_changeFirst (signature : Signature) (change : Part → Part)
    (keeps : ∀ part, (change part).signature = part.signature) (parts : List Part) :
    (changeFirst signature change parts).find? (·.signature = signature) =
      (parts.find? (·.signature = signature)).map change := by
  induction parts with
  | nil => rfl
  | cons part parts ih =>
    rw [changeFirst]
    by_cases same : part.signature = signature
    · simp [same, keeps]
    · simp [same, ih]

/-- Replacing a part of one type does not change what is found of another type. -/
theorem find_replaceOrAppend {signature other : Signature} (differ : signature ≠ other) (new : Part)
    (typed : new.signature = signature) (parts : List Part) :
    (replaceOrAppend signature new parts).find? (·.signature = other) =
      parts.find? (·.signature = other) := by
  induction parts with
  | nil => simp [replaceOrAppend, typed, differ]
  | cons part parts ih =>
    rw [replaceOrAppend]
    split
    · rename_i same
      simp [typed, same, differ]
    · rw [List.find?_cons, List.find?_cons, ih]

/-- Dropping masters does not change what is found of other types. -/
theorem find_withoutMasters {other : Signature} (notMaster : other ≠ .MAST) (notData : other ≠ .DATA)
    (follows : Bool) (parts : List Part) :
    (withoutMasters follows parts).find? (·.signature = other) =
      parts.find? (·.signature = other) := by
  induction parts generalizing follows with
  | nil => rfl
  | cons part parts ih =>
    rw [withoutMasters, List.find?_cons]
    split
    · rename_i master
      simp [ih, master, notMaster.symm]
    · split
      · rename_i dropped
        simp [ih, dropped.2, notData.symm]
      · rw [List.find?_cons, ih]

/-- New masters do not change what is found of other types. -/
theorem find_spliceMasters {other : Signature} (notMaster : other ≠ .MAST) (notData : other ≠ .DATA)
    (new parts : List Part) (absent : ∀ part ∈ new, part.signature ≠ other) :
    (spliceMasters new parts).find? (·.signature = other) =
      parts.find? (·.signature = other) := by
  have none : new.find? (·.signature = other) = none :=
    List.find?_eq_none.mpr fun part found => by simpa using absent part found
  induction parts with
  | nil => exact none
  | cons part parts ih =>
    rw [spliceMasters]
    split
    · rename_i master
      rw [List.find?_append, none, Option.none_or, find_withoutMasters notMaster notData]
      simp [master, notMaster.symm]
    · rw [List.find?_cons, List.find?_cons, ih]

/-- The first HEDR of an edited header is that of the source with new counters. -/
theorem find_editParts (edit : HeaderEdit) (parts : List Part) :
    (editParts edit parts).find? (·.signature = .HEDR) =
      (parts.find? (·.signature = .HEDR)).map (Part.withCounters edit.counters) := by
  obtain ⟨hedrMast, hedrData, hedrSnam, _, _, _, _, _, _, snamHedr, _⟩ := Signature.header_ne
  have counted := find_changeFirst .HEDR (Part.withCounters edit.counters)
    (Part.signature_withCounters edit.counters) parts
  have absent (masters : List String) : ∀ part ∈ masterParts masters, part.signature ≠ .HEDR := by
    simp only [masterParts, List.mem_map, List.mem_flatMap, PluginWriter.masterSubRecords,
      List.mem_cons, List.not_mem_nil, or_false]
    rintro _ ⟨_, ⟨_, _, rfl | rfl⟩, rfl⟩
    · exact hedrMast.symm
    · exact hedrData.symm
  have described (description : String) :=
    find_replaceOrAppend snamHedr (descriptionPart description) rfl
      (changeFirst .HEDR (Part.withCounters edit.counters) parts)
  have spliced (masters : List String) (others : List Part) :=
    find_spliceMasters hedrMast hedrData (masterParts masters) others (absent masters)
  rw [← counted]
  simp only [editParts]
  cases edit.description with
  | none =>
    cases edit.masters with
    | none => rfl
    | some masters => exact spliced masters _
  | some description =>
    cases edit.masters with
    | none => exact described description
    | some masters => exact (spliced masters _).trans (described description)

end Layout

end Bethkit
