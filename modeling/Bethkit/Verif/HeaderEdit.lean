import Bethkit.Spec.HeaderEdit
import Bethkit.Verif.HedrCounters
import Bethkit.Verif.HeaderFields

/-!
# The header update performs exactly its edits

The single pass of the patcher carries an offset and four flags. The flags say which edits are
still to be done on the subrecords that remain, so the pass is related to the edits of the list
by an induction over the frames for every state of the flags.
-/

namespace Bethkit

open Lib Layout

namespace Layout

/-- The counter edit that remains. -/
def countFrom (counters : HedrCounters) (seen : Bool) (parts : List Part) : List Part :=
  if seen then parts else changeFirst .HEDR (Part.withCounters counters) parts

/-- The counter edit of one part. -/
def countPart (counters : HedrCounters) (seen : Bool) (part : Part) : Part :=
  if part.signature = .HEDR ∧ !seen then part.withCounters counters else part

/-- The description edit that remains. -/
def describeFrom (description : Option String) (seen : Bool) (parts : List Part) : List Part :=
  match description with
  | some description =>
    if seen then parts else replaceOrAppend .SNAM (descriptionPart description) parts
  | none => parts

/-- The description edit of one part. -/
def describePart (description : Option String) (seen : Bool) (part : Part) : Part :=
  if part.signature = .SNAM ∧ description.isSome ∧ !seen then
    descriptionPart (description.getD "")
  else part

/-- The master edit that remains. -/
def mastersFrom (masters : Option (List String)) (seen follows : Bool) (parts : List Part) :
    List Part :=
  match masters with
  | some masters =>
    if seen then withoutMasters follows parts else spliceMasters (masterParts masters) parts
  | none => parts

/-- The master edit of one part. -/
def mastersPart (masters : Option (List String)) (seen follows : Bool) (part : Part) : List Part :=
  if part.signature = .MAST ∧ masters.isSome then
    if seen then [] else masterParts (masters.getD [])
  else if (follows ∧ part.signature = .DATA) ∧ masters.isSome then []
  else [part]

/-- The edits that remain in a state of the pass. -/
def editFrom (edit : HeaderEdit) (state : RewriteState) (parts : List Part) : List Part :=
  mastersFrom edit.masters state.seenMasters state.followsMaster
    (describeFrom edit.description state.seenDescription
      (countFrom edit.counters state.seenHedr parts))

/-- What one step of the pass emits for a part. -/
def emitted (edit : HeaderEdit) (state : RewriteState) (part : Part) : List Part :=
  mastersPart edit.masters state.seenMasters state.followsMaster
    (describePart edit.description state.seenDescription
      (countPart edit.counters state.seenHedr part))

/-- The counter edit does not change the subrecord type. -/
@[simp]
theorem signature_countPart (counters : HedrCounters) (seen : Bool) (part : Part) :
    (countPart counters seen part).signature = part.signature := by
  unfold countPart
  split <;> simp

/-- The description edit does not change the subrecord type. -/
@[simp]
theorem signature_describePart (description : Option String) (seen : Bool) (part : Part) :
    (describePart description seen part).signature = part.signature := by
  unfold describePart
  split
  · rename_i isSnam
    exact isSnam.1.symm
  · rfl

/-- The edit of a part is the first of the pass that applies to its subrecord type. -/
theorem emitted_eq (edit : HeaderEdit) (state : RewriteState) (part : Part) :
    emitted edit state part =
      if part.signature = .HEDR ∧ !state.seenHedr then [part.withCounters edit.counters]
      else if part.signature = .MAST ∧ edit.masters.isSome then
        if state.seenMasters then [] else masterParts (edit.masters.getD [])
      else if (state.followsMaster ∧ part.signature = .DATA) ∧ edit.masters.isSome then []
      else if part.signature = .SNAM ∧ edit.description.isSome ∧ !state.seenDescription then
        [descriptionPart (edit.description.getD "")]
      else [part] := by
  have distinct := Signature.header_ne
  unfold emitted mastersPart
  rw [signature_describePart, signature_countPart]
  by_cases hedr : part.signature = .HEDR ∧ !state.seenHedr
  · simp [describePart, countPart, hedr, distinct]
  · have counted : countPart edit.counters state.seenHedr part = part := if_neg hedr
    rw [if_neg hedr, counted]
    refine if_congr Iff.rfl rfl (if_congr Iff.rfl rfl ?_)
    unfold describePart
    split <;> rfl

/-- The state after one step of the pass. -/
def advance (edit : HeaderEdit) (state : RewriteState) (signature : Signature)
    (parts : List Part) (stop : Nat) : RewriteState where
  output := state.output ++ encodeParts parts
  offset := stop
  seenHedr := state.seenHedr || signature = .HEDR
  seenMasters := state.seenMasters || (signature = .MAST ∧ edit.masters.isSome)
  seenDescription := state.seenDescription || (signature = .SNAM ∧ edit.description.isSome)
  followsMaster := signature = .MAST

/-- Until masters were written, no MAST was passed. -/
def FlagsAgree (edit : HeaderEdit) (state : RewriteState) : Prop :=
  edit.masters.isSome → state.seenMasters = false → state.followsMaster = false

/-- A step keeps the flags in agreement. -/
theorem flagsAgree_advance (edit : HeaderEdit) (state : RewriteState) (signature : Signature)
    (parts : List Part) (stop : Nat) : FlagsAgree edit (advance edit state signature parts stop) := by
  intro given unseen
  simp only [advance, Bool.or_eq_false_iff, decide_eq_false_iff_not, not_and] at unseen ⊢
  exact fun isMaster => unseen.2 isMaster given

/-- The counter edit treats one part and goes on. -/
theorem countFrom_cons (counters : HedrCounters) (seen : Bool) (part : Part) (parts : List Part) :
    countFrom counters seen (part :: parts) = countPart counters seen part ::
      countFrom counters (seen || part.signature = .HEDR) parts := by
  cases seen with
  | true => simp [countFrom, countPart]
  | false =>
    by_cases isHedr : part.signature = .HEDR <;>
      simp [countFrom, countPart, changeFirst, isHedr]

/-- The description edit treats one part and goes on. -/
theorem describeFrom_cons (description : Option String) (seen : Bool) (part : Part)
    (parts : List Part) : describeFrom description seen (part :: parts) =
      describePart description seen part ::
        describeFrom description (seen || (part.signature = .SNAM ∧ description.isSome))
          parts := by
  cases description with
  | none => simp [describeFrom, describePart]
  | some text =>
    cases seen with
    | true => simp [describeFrom, describePart]
    | false =>
      by_cases isSnam : part.signature = .SNAM <;>
        simp [describeFrom, describePart, replaceOrAppend, isSnam]

/-- The master edit treats one part and goes on. -/
theorem mastersFrom_cons (masters : Option (List String)) (seen follows : Bool) (part : Part)
    (parts : List Part) (agree : masters.isSome → seen = false → follows = false) :
    mastersFrom masters seen follows (part :: parts) = mastersPart masters seen follows part ++
      mastersFrom masters (seen || (part.signature = .MAST ∧ masters.isSome))
        (part.signature = .MAST) parts := by
  have distinct := Signature.header_ne
  cases masters with
  | none => simp [mastersFrom, mastersPart]
  | some names =>
    cases seen with
    | true =>
      by_cases isMaster : part.signature = .MAST
      · simp [mastersFrom, mastersPart, withoutMasters, isMaster]
      · by_cases isData : follows ∧ part.signature = .DATA <;>
          simp [mastersFrom, mastersPart, withoutMasters, isMaster, isData, distinct]
    | false =>
      have first := agree rfl rfl
      by_cases isMaster : part.signature = .MAST <;>
        simp [mastersFrom, mastersPart, spliceMasters, isMaster, first]

/-- The remaining edits emit what the step emits, then go on from the advanced state. -/
theorem editFrom_cons (edit : HeaderEdit) (state : RewriteState) (part : Part) (stop : Nat)
    (parts : List Part) (agree : FlagsAgree edit state) :
    editFrom edit state (part :: parts) =
      emitted edit state part ++
        editFrom edit (advance edit state part.signature (emitted edit state part) stop) parts := by
  simp only [editFrom, countFrom_cons, describeFrom_cons, mastersFrom_cons _ _ _ _ _ agree,
    signature_countPart, signature_describePart, emitted, advance]

/-- The parts of a master list have the bytes that are appended. -/
theorem encodeParts_masterParts (masters : List String) :
    encodeParts (masterParts masters) = appendMasters masters := by
  rw [encodeParts, masterParts, List.flatMap_map, List.flatMap_assoc, appendMasters]
  refine List.flatMap_congr fun master _ => ?_
  simp [PluginWriter.masterSubRecords, Part.encode, appendString]

/-- At the end only the missing edits are left. -/
theorem encodeParts_editFrom_nil (edit : HeaderEdit) (state : RewriteState) :
    encodeParts (editFrom edit state []) = appendMissing edit state := by
  have counted : countFrom edit.counters state.seenHedr [] = [] := by
    cases state.seenHedr <;> rfl
  have distinct := Signature.header_ne
  have snam : ∀ text, (descriptionPart text).signature = .SNAM := fun _ => rfl
  have written : ∀ text, (descriptionPart text).encode = appendString .SNAM text := fun _ => rfl
  have masters := encodeParts_masterParts
  simp only [encodeParts] at masters ⊢
  rw [editFrom, counted, appendMissing]
  cases edit.description <;> cases edit.masters <;> cases state.seenDescription <;>
    cases state.seenMasters <;>
    simp [mastersFrom, describeFrom, replaceOrAppend, spliceMasters, withoutMasters, snam, distinct,
      written, masters]

end Layout

/-- The bytes of a HEDR frame with new counters. -/
theorem updateHedr_encode (counters : HedrCounters) (frame : Frame) :
    updateHedr counters frame.encode frame.lead.length =
      if 12 ≤ frame.payload.length then .ok (frame.withCounters counters).encode
      else .error (.invalidEncoding "HEDR is shorter than 12 bytes") := by
  unfold updateHedr Bytes.get
  by_cases long : 12 ≤ frame.payload.length
  · have inside : frame.lead.length + 4 ≤ frame.lead.length + 12 ∧
        frame.lead.length + 12 ≤ frame.encode.length := by
      rw [Frame.encode, List.length_append]
      omega
    have lead : (frame.withCounters counters).lead = frame.lead := by
      simp [Frame.withCounters, long, Frame.lead]
    rw [if_pos inside, if_pos long]
    simp only [Except.ok.injEq]
    rw [Frame.encode, Frame.encode, lead, List.take_length_add_append,
      List.drop_length_add_append]
    simp [Frame.withCounters, long]
  · have outside : ¬(frame.lead.length + 4 ≤ frame.lead.length + 12 ∧
        frame.lead.length + 12 ≤ frame.encode.length) := by
      rw [Frame.encode, List.length_append]
      omega
    rw [if_neg outside, if_neg long]

/-- A frame is copied, edited or dropped by the type of its subrecord. -/
theorem rewriteFrame_encode (edit : HeaderEdit) (state : RewriteState) (frame : Frame)
    (stop : Nat) :
    rewriteFrame edit state frame.signature frame.encode frame.lead.length stop =
      if frame.signature = .HEDR ∧ !state.seenHedr ∧ frame.payload.length < 12 then
        .error (.invalidEncoding "HEDR is shorter than 12 bytes")
      else .ok (advance edit state frame.signature (emitted edit state (.kept frame)) stop) := by
  have distinct := Signature.header_ne
  have next : emitted edit state (.kept frame) =
      if frame.signature = .HEDR ∧ !state.seenHedr then [.kept (frame.withCounters edit.counters)]
      else if frame.signature = .MAST ∧ edit.masters.isSome then
        if state.seenMasters then [] else masterParts (edit.masters.getD [])
      else if (state.followsMaster ∧ frame.signature = .DATA) ∧ edit.masters.isSome then []
      else if frame.signature = .SNAM ∧ edit.description.isSome ∧ !state.seenDescription then
        [descriptionPart (edit.description.getD "")]
      else [.kept frame] := emitted_eq edit state (.kept frame)
  simp only [rewriteFrame, updateHedr_encode, decide_eq_true_eq, Bool.and_eq_true]
  by_cases hedr : frame.signature = .HEDR ∧ !state.seenHedr
  · obtain ⟨isHedr, first⟩ := hedr
    simp only [isHedr, first, and_self, ↓reduceIte, true_and] at next ⊢
    by_cases long : 12 ≤ frame.payload.length
    · simp [long, Nat.not_lt.mpr long, advance, next, distinct, encodeParts, Part.encode]
    · simp [long, Nat.lt_of_not_le long]
  · have fine : ¬(frame.signature = .HEDR ∧ !state.seenHedr ∧ frame.payload.length < 12) :=
      fun short => hedr ⟨short.1, short.2.1⟩
    have counted : (state.seenHedr || decide (frame.signature = .HEDR)) = state.seenHedr := by
      cases seen : state.seenHedr with
      | true => rfl
      | false => simpa [seen] using hedr
    rw [if_neg hedr] at next
    rw [if_neg hedr, if_neg fine, advance, next, counted]
    by_cases isMaster : frame.signature = .MAST ∧ edit.masters.isSome
    · cases seen : state.seenMasters <;>
        simp [isMaster, encodeParts, distinct, ← encodeParts_masterParts]
    · have mastered : (state.seenMasters ||
          decide (frame.signature = .MAST ∧ edit.masters.isSome)) = state.seenMasters := by
        rw [decide_eq_false isMaster, Bool.or_false]
      rw [if_neg isMaster, if_neg isMaster, mastered]
      by_cases isData : (state.followsMaster ∧ frame.signature = .DATA) ∧ edit.masters.isSome
      · simp [isData, distinct, encodeParts]
      · rw [if_neg isData, if_neg isData]
        by_cases isSnam : frame.signature = .SNAM ∧ edit.description.isSome ∧
            !state.seenDescription
        · simp [isSnam, distinct, encodeParts, descriptionPart, Part.encode, appendString]
        · have described : (state.seenDescription ||
              decide (frame.signature = .SNAM ∧ edit.description.isSome)) =
                state.seenDescription := by
            cases seen : state.seenDescription with
            | true => rfl
            | false => simpa [seen] using isSnam
          rw [if_neg isSnam, if_neg isSnam, described]
          simp [encodeParts, Part.encode]

/-- One step of the pass rewrites one frame. -/
theorem rewriteStep_locate (edit : HeaderEdit) (state : RewriteState) (frame : Frame)
    (before after : Bytes) (here : state.offset = before.length) :
    rewriteStep edit (before ++ (frame.encode ++ after)) state
        (frame.locate (before ++ (frame.encode ++ after)) before.length) =
      rewriteFrame edit state frame.signature frame.encode frame.lead.length
        (before.length + frame.encode.length) := by
  have forward : ¬before.length + frame.lead.length < before.length := by omega
  simp only [rewriteStep, Frame.locate, here, Bytes.get_append, if_neg forward,
    Nat.add_sub_cancel_left]

/-- The pass over the frames of a block leaves the bytes of the edited block, up to what is
missing at the end. -/
theorem rewriteLoop_locateFrames (edit : HeaderEdit) (frames : List Frame) (state : RewriteState)
    (before after : Bytes) (here : state.offset = before.length)
    (agree : FlagsAgree edit state)
    (ready : state.seenHedr = false → ∀ frame, frames.find? (·.signature = .HEDR) = some frame →
      12 ≤ frame.payload.length) :
    ∃ final, rewriteLoop edit (before ++ (encodeFrames frames ++ after))
        (locateFrames (before ++ (encodeFrames frames ++ after)) before.length frames) state =
          .ok final ∧
      final.output ++ appendMissing edit final =
        state.output ++ encodeParts (editFrom edit state (frames.map .kept)) ∧
      final.offset = before.length + (encodeFrames frames).length ∧
      final.seenHedr = (state.seenHedr || frames.any (·.signature = .HEDR)) := by
  induction frames generalizing state before with
  | nil =>
    refine ⟨state, rfl, ?_, by simp [here], by simp⟩
    rw [List.map_nil, encodeParts_editFrom_nil]
  | cons frame frames ih =>
    have step := rewriteStep_locate edit state frame before (encodeFrames frames ++ after) here
    have fine : ¬(frame.signature = .HEDR ∧ !state.seenHedr ∧ frame.payload.length < 12) := by
      rintro ⟨isHedr, first, short⟩
      have long := ready (by simpa using first) frame (by simp [isHedr])
      omega
    rw [rewriteFrame_encode, if_neg fine] at step
    obtain ⟨final, looped, written, stands, seen⟩ := ih
      (advance edit state frame.signature (emitted edit state (.kept frame))
        (before.length + frame.encode.length)) (before ++ frame.encode) (by simp [advance])
      (flagsAgree_advance edit state _ _ _) (by
        intro unseen other found
        simp only [advance, Bool.or_eq_false_iff, decide_eq_false_iff_not] at unseen
        exact ready unseen.1 other (by simpa [unseen.2] using found))
    have whole : (before ++ frame.encode) ++ (encodeFrames frames ++ after) =
        before ++ (encodeFrames (frame :: frames) ++ after) := by simp
    have data : before ++ (frame.encode ++ (encodeFrames frames ++ after)) =
        before ++ (encodeFrames (frame :: frames) ++ after) := by simp
    rw [whole, List.length_append] at looped
    rw [data] at step
    refine ⟨final, ?_, ?_, ?_, ?_⟩
    · rw [locateFrames, rewriteLoop, step]
      exact looped
    · rw [written, List.map_cons, editFrom_cons edit state (.kept frame)
        (before.length + frame.encode.length) _ agree, encodeParts_append, ← List.append_assoc]
      rfl
    · rw [stands]
      simp [Nat.add_assoc]
    · rw [seen]
      simp [advance, Bool.or_assoc]

/-- The pass stops at a first HEDR that is too short. -/
theorem rewriteLoop_short (edit : HeaderEdit) (frames : List Frame) (state : RewriteState)
    (before after : Bytes) (here : state.offset = before.length) (unseen : state.seenHedr = false)
    {first : Frame} (found : frames.find? (·.signature = .HEDR) = some first)
    (short : first.payload.length < 12) :
    rewriteLoop edit (before ++ (encodeFrames frames ++ after))
        (locateFrames (before ++ (encodeFrames frames ++ after)) before.length frames) state =
      .error (.invalidEncoding "HEDR is shorter than 12 bytes") := by
  induction frames generalizing state before with
  | nil => simp at found
  | cons frame frames ih =>
    have step := rewriteStep_locate edit state frame before (encodeFrames frames ++ after) here
    have data : before ++ (frame.encode ++ (encodeFrames frames ++ after)) =
        before ++ (encodeFrames (frame :: frames) ++ after) := by simp
    rw [rewriteFrame_encode, data] at step
    rw [locateFrames, rewriteLoop, step]
    by_cases isHedr : frame.signature = .HEDR
    · obtain rfl : frame = first := by simpa [isHedr] using found
      rw [if_pos ⟨isHedr, by simp [unseen], short⟩]
    · rw [if_neg fun is => isHedr is.1]
      have later := ih (advance edit state frame.signature (emitted edit state (.kept frame))
        (before.length + frame.encode.length)) (before ++ frame.encode) (by simp [advance])
        (by simp [advance, unseen, isHedr]) (by simpa [isHedr] using found)
      have whole : (before ++ frame.encode) ++ (encodeFrames frames ++ after) =
          before ++ (encodeFrames (frame :: frames) ++ after) := by simp
      rw [whole, List.length_append] at later
      exact later

/-- The new payload of a header whose first HEDR has room for the counters: the edited frames
and the overrides that trailed the block. -/
theorem rewritePayload_block (edit : HeaderEdit) (block : Block) (ready : HedrReady block.frames) :
    rewritePayload edit block.encode (locateFrames block.encode 0 block.frames) =
      .ok (encodeParts (editParts edit (block.frames.map .kept)) ++
        encodeOverrides block.trailing) := by
  obtain ⟨first, found, long⟩ := ready
  obtain ⟨final, looped, written, stands, seen⟩ := rewriteLoop_locateFrames edit block.frames
    ⟨[], 0, false, false, false, false⟩ [] (encodeOverrides block.trailing) rfl
    (fun _ _ => rfl) (fun _ frame other => by rw [found] at other; cases other; exact long)
  have some : block.frames.any (·.signature = .HEDR) = true := by
    have isHedr := List.find?_some found
    exact List.any_eq_true.mpr ⟨first, List.mem_of_find?_eq_some found, isHedr⟩
  have whole : editFrom edit ⟨[], 0, false, false, false, false⟩ (block.frames.map .kept) =
      editParts edit (block.frames.map .kept) := by
    simp only [editFrom, editParts, countFrom, describeFrom, mastersFrom]
    rfl
  rw [whole, List.nil_append] at written
  simp only [some, Bool.false_or] at seen
  simp only [List.nil_append, List.length_nil, Nat.zero_add] at looped stands
  rw [rewritePayload, Block.encode, looped]
  simp only [seen, written, stands, List.drop_left]
  rfl

/-- Without a first HEDR that has room for the counters there is no new payload. -/
theorem rewritePayload_error (edit : HeaderEdit) (block : Block)
    (unready : ¬HedrReady block.frames) :
    ∃ reason, rewritePayload edit block.encode (locateFrames block.encode 0 block.frames) =
      .error reason := by
  cases found : block.frames.find? (·.signature = .HEDR) with
  | some first =>
    have short : first.payload.length < 12 := Nat.lt_of_not_le fun long =>
      unready ⟨first, found, long⟩
    have looped := rewriteLoop_short edit block.frames ⟨[], 0, false, false, false, false⟩ []
      (encodeOverrides block.trailing) rfl rfl found short
    simp only [List.nil_append, List.length_nil] at looped
    exact ⟨_, by rw [rewritePayload, Block.encode, looped]⟩
  | none =>
    obtain ⟨final, looped, _, _, seen⟩ := rewriteLoop_locateFrames edit block.frames
      ⟨[], 0, false, false, false, false⟩ [] (encodeOverrides block.trailing) rfl
      (fun _ _ => rfl) (fun _ frame other => by rw [found] at other; cases other)
    have absent : block.frames.any (·.signature = .HEDR) = false := by
      rw [List.any_eq_false]
      exact fun frame among => by simpa using List.find?_eq_none.mp found frame among
    simp only [absent, Bool.or_self] at seen
    simp only [List.nil_append, List.length_nil] at looped
    exact ⟨_, by rw [rewritePayload, Block.encode, looped]; simp only [seen]; rfl⟩

end Bethkit
