import Bethkit.Lib.Outcome
import Bethkit.Verif.HeaderFields
import Bethkit.Verif.LoadOrder
import Bethkit.Verif.Tiling

/-!
# The master list as a key

The file index of a FormID counts the MAST subrecords of the plugin header. The master list skips
a MAST subrecord that is not UTF-8, so an index is right when the subrecords up to it are; and
the index `0xFE` never counts masters, since it names the slots of the light plugins.
-/

namespace Bethkit

open Lib Layout

/-- The MAST subrecords that an index can count are all UTF-8. -/
def DecodesUpTo (masts : List SubRecord) (index : Nat) : Prop :=
  ∀ mast ∈ masts.take (index + 1), ∃ text, mast.asZstring = .ok text

/-- The masters up to an index stand at the positions of their subrecords. -/
theorem getElem?_masterNames {masts : List SubRecord} {index : Nat}
    (decodes : DecodesUpTo masts index) :
    (PluginHeader.masterNames masts)[index]? =
      masts[index]?.bind fun mast => mast.asZstring.toOption := by
  induction masts generalizing index with
  | nil => rfl
  | cons mast masts ih =>
    have first : ∃ text, mast.asZstring = .ok text := decodes mast (by simp)
    obtain ⟨text, decoded⟩ := first
    have named : PluginHeader.masterNames (mast :: masts) =
        text :: PluginHeader.masterNames masts := by
      rw [PluginHeader.masterNames, List.filterMap_cons, decoded]
      rfl
    rw [named]
    cases index with
    | zero =>
      rw [List.getElem?_cons_zero, List.getElem?_cons_zero, Option.bind_some, decoded]
      rfl
    | succ index =>
      rw [List.getElem?_cons_succ, List.getElem?_cons_succ]
      apply ih
      intro other among
      exact decodes other (by rw [List.take_succ_cons]; exact List.mem_cons_of_mem _ among)

/-- When every MAST subrecord is UTF-8, there are as many masters. -/
theorem length_masterNames {masts : List SubRecord} (decodes : DecodesUpTo masts masts.length) :
    (PluginHeader.masterNames masts).length = masts.length := by
  have all : ∀ mast ∈ masts, ∃ text, mast.asZstring = .ok text := by
    intro mast among
    apply decodes mast
    rw [List.take_of_length_le (Nat.le_succ _)]
    exact among
  rw [PluginHeader.masterNames, List.filterMap_length_eq_length]
  intro mast among
  obtain ⟨text, decoded⟩ := all mast among
  rw [decoded]
  rfl

namespace LoadOrder

variable {toLowercase : Lowercase} {order : LoadOrder}

/-- A FormID with the index of a master resolves to the master. -/
theorem resolve_master {id : FormId} {source master : String} {masters : List String}
    (index : id.fileIndex ≠ 0xFE) (among : masters[id.fileIndex.toNat]? = some master) :
    order.resolve toLowercase id source masters = some ⟨toLowercase master, id.objectId⟩ := by
  obtain ⟨inside, same⟩ := List.getElem?_eq_some_iff.mp among
  rw [LoadOrder.resolve, if_neg index]
  dsimp only
  rw [dif_pos inside, same]

end LoadOrder

/-- The masters of a plugin are the names of its MAST subrecords. -/
theorem Plugin.masters_eq {inflate : Inflate} {data : Bytes} {ctx : GameContext} {plugin : Plugin}
    (accepted : Plugin.fromBytes inflate data ctx = .ok plugin) :
    ∃ masts, plugin.header.record.getAll inflate .MAST = .ok masts ∧
      plugin.masters = PluginHeader.masterNames masts := by
  obtain ⟨file, header, _, _, admitted, same⟩ := (fromBytes_eq_ok inflate data ctx plugin).mp accepted
  obtain ⟨_, subrecords, read, known⟩ := (PluginHeader.ofRecord_eq_ok inflate ctx _ _).mp admitted
  refine ⟨subrecords.filter (·.signature = .MAST), ?_, ?_⟩
  · rw [same, known]
    show file.header.toRecord.getAll inflate .MAST = _
    rw [Record.getAll, read]
    rfl
  · rw [same, known]
    rfl

/-- A FormID of an accepted plugin whose index is not the one of the light plugins names the MAST
subrecord with that number, or the plugin itself when the index is the number of MAST subrecords,
as long as the MAST subrecords up to the index are UTF-8. -/
theorem resolve_masters {inflate : Inflate} {data : Bytes} {ctx : GameContext} {plugin : Plugin}
    (accepted : Plugin.fromBytes inflate data ctx = .ok plugin) :
    ∃ masts, plugin.header.record.getAll inflate .MAST = .ok masts ∧
      ∀ (toLowercase : Lowercase) (order : LoadOrder) (name : String) (id : FormId),
        id.fileIndex ≠ 0xFE → DecodesUpTo masts id.fileIndex.toNat →
        (∀ mast, masts[id.fileIndex.toNat]? = some mast → ∃ master,
          mast.asZstring = .ok master ∧ order.resolve toLowercase id name plugin.masters =
            some ⟨toLowercase master, id.objectId⟩) ∧
        (id.fileIndex.toNat = masts.length → order.resolve toLowercase id name plugin.masters =
          some ⟨toLowercase name, id.objectId⟩) := by
  obtain ⟨masts, read, masters⟩ := Plugin.masters_eq accepted
  refine ⟨masts, read, fun toLowercase order name id regular decodes => ⟨?_, ?_⟩⟩
  · intro mast among
    have taken : mast ∈ masts.take (id.fileIndex.toNat + 1) :=
      List.mem_of_getElem? ((List.getElem?_take_of_lt (Nat.lt_succ_self _)).trans among)
    obtain ⟨master, decoded⟩ := decodes mast taken
    refine ⟨master, decoded, LoadOrder.resolve_master regular ?_⟩
    rw [masters, getElem?_masterNames decodes, among, Option.bind_some, decoded]
    rfl
  · intro own
    apply LoadOrder.resolve_own regular
    rw [masters, length_masterNames (own ▸ decodes), own]

/-- A file header is no group. -/
theorem TES4_ne_GRUP : Signature.TES4 ≠ .GRUP := by decide

/-- A master is no size override. -/
theorem MAST_ne_XXXX : Signature.MAST ≠ .XXXX := by decide

/-- A record without flags is not compressed. -/
theorem empty_not_compressed : RecordFlags.empty.contains .COMPRESSED = false := by decide

/-- A file without groups whose header record has the given frames. -/
def headerOnly (frames : List Frame) (sized : (encodeFrames frames).length < 2 ^ 32) : File where
  header :=
    { signature := .TES4
      flags := .empty
      formId := .NULL
      versionControl := 0
      formVersion := 44
      unknown := 0
      block := encodeFrames frames
      notGroup := TES4_ne_GRUP
      sized := sized
      compressed := fun compressed =>
        absurd (empty_not_compressed.symm.trans compressed) Bool.false_ne_true }
  groups := []

/-- A file without groups is accepted, and its MAST subrecords are those of its frames. -/
theorem exists_headerOnly (frames : List Frame) (sized : (encodeFrames frames).length < 2 ^ 32) :
    ∃ plugin, Plugin.fromBytes refuseInflate (headerOnly frames sized).encode .sse = .ok plugin ∧
      plugin.header.record.getAll refuseInflate .MAST =
        .ok ((locateFrames (encodeFrames frames) 0 frames).filter (·.signature = .MAST)) := by
  have read : (headerOnly frames sized).header.toRecord.subrecords refuseInflate =
      .ok (locateFrames (encodeFrames frames) 0 frames) := by
    apply (subrecords_eq_ok refuseInflate _ rfl _).mpr
    have whole : (⟨frames, []⟩ : Block).encode = encodeFrames frames := List.append_nil _
    refine ⟨⟨frames, []⟩, ?_, ?_⟩
    · have plain : (headerOnly frames sized).header.toRecord.data = .raw (encodeFrames frames) :=
        if_neg (show ¬RecordFlags.empty.contains .COMPRESSED = true by decide)
      rw [whole, Record.rawData, plain]
    · rw [whole]
  refine ⟨_, (fromBytes_eq_ok _ _ _ _).mpr ⟨headerOnly frames sized, _, ?_, rfl,
    (PluginHeader.ofRecord_eq_ok _ _ _ _).mpr ⟨rfl, _, read, rfl⟩, rfl⟩, ?_⟩
  · simp [headerOnly, File.Fits]
  · show (headerOnly frames sized).header.toRecord.getAll refuseInflate .MAST = _
    rw [Record.getAll, read]
    rfl

/-- A MAST subrecord with a payload. -/
def mastFrame (payload : Bytes) (short : payload.length < 2 ^ 16) : Frame where
  overrides := []
  signature := .MAST
  sizeField := UInt16.ofNat payload.length
  payload := payload
  notOverride := MAST_ne_XXXX
  sized := (Nat.mod_eq_of_lt short).symm

/-- The masters `m` and `n`. -/
def twoMasters : List Frame :=
  [mastFrame [0x6D, 0] (by decide), mastFrame [0x6E, 0] (by decide)]

/-- The first of two MAST subrecords. -/
def firstMaster (frames : List Frame) : SubRecord :=
  ⟨.MAST, .borrowed (encodeFrames frames) 6 8⟩

/-- The second of two MAST subrecords. -/
def secondMaster (frames : List Frame) : SubRecord :=
  ⟨.MAST, .borrowed (encodeFrames frames) 14 16⟩

/-- The index 1 of a plugin with two masters names the second one. -/
theorem resolve_masters_twoMasters : ∃ plugin,
    Plugin.fromBytes refuseInflate (headerOnly twoMasters (by decide)).encode .sse = .ok plugin ∧
      LoadOrder.new.resolve id ⟨0x01000800⟩ "own" plugin.masters = some ⟨"n", 0x800⟩ := by
  obtain ⟨plugin, accepted, found⟩ := exists_headerOnly twoMasters (by decide)
  obtain ⟨masts, read, resolves⟩ := resolve_masters accepted
  have both : masts = [firstMaster twoMasters, secondMaster twoMasters] :=
    Except.ok.inj (read.symm.trans found)
  have first : (firstMaster twoMasters).asZstring = .ok "m" := by decide +kernel
  have second : (secondMaster twoMasters).asZstring = .ok "n" := by decide +kernel
  have decodes : DecodesUpTo masts 1 := by
    intro mast among
    rw [both] at among
    rcases List.mem_pair.mp among with same | same
    · exact ⟨"m", same ▸ first⟩
    · exact ⟨"n", same ▸ second⟩
  obtain ⟨named, _⟩ := resolves id .new "own" ⟨0x01000800⟩ (by decide) decodes
  obtain ⟨master, decoded, resolved⟩ := named (secondMaster twoMasters) (by rw [both]; rfl)
  obtain rfl := Except.ok.inj (second.symm.trans decoded)
  exact ⟨plugin, accepted, resolved⟩

/-- A MAST subrecord that is not UTF-8, and the master `n`. -/
def brokenMaster : List Frame :=
  [mastFrame [0xFF, 0] (by decide), mastFrame [0x6E, 0] (by decide)]

/-- As many masters as a FormID has indices below the last. -/
def manyMasters : List Frame := List.replicate 255 (mastFrame [] (by decide))

/-- The masters fit a record. -/
theorem sized_manyMasters : (encodeFrames manyMasters).length < 2 ^ 32 := by
  have one : (mastFrame [] (by decide)).encode.length = 6 := rfl
  have total : (encodeFrames manyMasters).length = 255 * 6 := by
    rw [encodeFrames, manyMasters, List.length_flatMap, List.map_replicate, List.sum_replicate, one]
    rfl
  omega

/-- A plugin has as many MAST subrecords as frames that are ones. -/
theorem length_mastFrames (frames : List Frame) (masts : ∀ frame ∈ frames, frame.signature = .MAST) :
    ((locateFrames (encodeFrames frames) 0 frames).filter (·.signature = .MAST)).length =
      frames.length := by
  have values := values_locateFrames frames [] []
  rw [List.nil_append, List.append_nil, List.length_nil] at values
  have signatures : (locateFrames (encodeFrames frames) 0 frames).map (·.signature) =
      frames.map (·.signature) := by
    have first := congrArg (List.map Prod.fst) values
    rw [List.map_map, List.map_map] at first
    exact first
  have all : ∀ subrecord ∈ locateFrames (encodeFrames frames) 0 frames,
      decide (subrecord.signature = .MAST) = true := by
    intro subrecord among
    have named := List.mem_map_of_mem (f := (·.signature)) among
    rw [signatures] at named
    obtain ⟨frame, inside, same⟩ := List.mem_map.mp named
    exact decide_eq_true (same ▸ masts frame inside)
  rw [List.filter_eq_self.mpr all, ← List.length_map (·.signature), signatures, List.length_map]

/-- After a MAST subrecord that is not UTF-8 the index of the next master names the plugin itself,
and with 255 masters the index `0xFE` names none of them. -/
theorem not_resolve_masters :
    (∃ plugin, Plugin.fromBytes refuseInflate (headerOnly brokenMaster (by decide)).encode .sse =
        .ok plugin ∧
      plugin.header.record.getAll refuseInflate .MAST =
        .ok [firstMaster brokenMaster, secondMaster brokenMaster] ∧
      (secondMaster brokenMaster).asZstring = .ok "n" ∧
      LoadOrder.new.resolve id ⟨0x01000800⟩ "own" plugin.masters = some ⟨"own", 0x800⟩) ∧
    ∃ plugin masts, Plugin.fromBytes refuseInflate (headerOnly manyMasters sized_manyMasters).encode .sse =
        .ok plugin ∧
      plugin.header.record.getAll refuseInflate .MAST = .ok masts ∧
      (FormId.mk 0xFE000800).fileIndex.toNat < masts.length ∧
      LoadOrder.new.resolve id ⟨0xFE000800⟩ "own" plugin.masters = none := by
  constructor
  · obtain ⟨plugin, accepted, found⟩ := exists_headerOnly brokenMaster (by decide)
    have second : (secondMaster brokenMaster).asZstring = .ok "n" := by decide +kernel
    refine ⟨plugin, accepted, found, second, ?_⟩
    obtain ⟨masts, read, masters⟩ := Plugin.masters_eq accepted
    have both : masts = [firstMaster brokenMaster, secondMaster brokenMaster] :=
      Except.ok.inj (read.symm.trans found)
    have names : PluginHeader.masterNames masts = ["n"] := by
      rw [both]
      decide +kernel
    rw [masters, names]
    decide +kernel
  · obtain ⟨plugin, accepted, found⟩ := exists_headerOnly manyMasters sized_manyMasters
    refine ⟨plugin, _, accepted, found, ?_, rfl⟩
    rw [length_mastFrames manyMasters]
    · rw [manyMasters, List.length_replicate]
      decide
    · intro frame among
      rw [(List.mem_replicate.mp among).2]
      rfl

end Bethkit
