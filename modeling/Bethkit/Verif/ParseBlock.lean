import Bethkit.Spec.Block

/-!
# The subrecord parser reads exactly the laid out blocks

The loop of the parser handles one piece of the block at a time, an override or a subrecord, and
carries the last override as its state. Pieces are regrouped into frames afterwards, so that the
blocks accepted are exactly the encodings of `Layout.Block`.
-/

namespace Bethkit

open Lib SliceCursor Layout

namespace Layout

/-- What one pass of the parser's loop handles. -/
inductive Piece where
  /-- A size override. -/
  | override (size : UInt32)
  /-- A subrecord without its overrides. -/
  | field (signature : Signature) (sizeField : UInt16) (payload : Bytes)

/-- The bytes of a piece. -/
def Piece.encode : Piece → Bytes
  | .override size => encodeOverride size
  | .field signature sizeField payload => encodeFieldHeader signature sizeField ++ payload

/-- A piece occupies at least a subrecord header. -/
theorem Piece.length_encode_ge (piece : Piece) : 6 ≤ piece.encode.length := by
  cases piece <;> simp [encode]

/-- Pieces whose payloads have the sizes announced, given the override seen last. -/
def ValidPieces : Option UInt32 → List Piece → Prop
  | _, [] => True
  | _, .override size :: pieces => ValidPieces (some size) pieces
  | pending, .field signature sizeField payload :: pieces =>
    signature ≠ .XXXX ∧ payload.length = announcedSize pending sizeField ∧ ValidPieces none pieces

/-- The parsed subrecords of consecutive pieces. -/
def locatePieces (data : Bytes) (start : Nat) : List Piece → List SubRecord
  | [] => []
  | .override size :: pieces => locatePieces data (start + (encodeOverride size).length) pieces
  | .field signature sizeField payload :: pieces =>
    let first := start + (encodeFieldHeader signature sizeField).length
    ⟨signature, .borrowed data first (first + payload.length)⟩ ::
      locatePieces data (first + payload.length) pieces

/-- The pieces of a frame. -/
def Frame.pieces (frame : Frame) : List Piece :=
  frame.overrides.map .override ++ [.field frame.signature frame.sizeField frame.payload]

/-- The pieces of a block. -/
def Block.pieces (block : Block) : List Piece :=
  block.frames.flatMap Frame.pieces ++ block.trailing.map .override

/-- Valid pieces are the pieces of a block; the overrides seen so far open its first frame. -/
theorem exists_block_of_valid (pieces : List Piece) (seen : List UInt32)
    (valid : ValidPieces seen.getLast? pieces) :
    ∃ block : Block, seen.map .override ++ pieces = block.pieces := by
  induction pieces generalizing seen with
  | nil => exact ⟨⟨[], seen⟩, by simp [Block.pieces]⟩
  | cons piece pieces ih =>
    cases piece with
    | override size =>
      obtain ⟨block, same⟩ := ih (seen ++ [size]) (by simpa [ValidPieces] using valid)
      exact ⟨block, by rw [← same]; simp⟩
    | field signature sizeField payload =>
      obtain ⟨notOverride, sized, valid⟩ := valid
      obtain ⟨block, same⟩ := ih [] valid
      refine ⟨⟨⟨seen, signature, sizeField, payload, notOverride, sized⟩ :: block.frames,
        block.trailing⟩, ?_⟩
      simp only [List.map_nil, List.nil_append] at same
      simp [same, Block.pieces, Frame.pieces]

/-- Overrides change only what is pending. -/
theorem validPieces_overrides (sizes : List UInt32) (pending : Option UInt32)
    (pieces : List Piece) : ValidPieces pending (sizes.map .override ++ pieces) ↔
      ValidPieces (sizes.getLast?.or pending) pieces := by
  induction sizes generalizing pending with
  | nil => simp
  | cons size sizes ih =>
    rw [List.map_cons, List.cons_append, ValidPieces, ih, List.getLast?_cons]
    cases sizes with
    | nil => simp
    | cons next sizes => simp [List.getLast?_cons]

/-- The pieces of a block are valid. -/
theorem validPieces_block (block : Block) : ValidPieces none block.pieces := by
  obtain ⟨frames, trailing⟩ := block
  induction frames with
  | nil =>
    have := (validPieces_overrides trailing none []).mpr (by simp [ValidPieces])
    simpa [Block.pieces] using this
  | cons frame frames ih =>
    simp only [Block.pieces, List.flatMap_cons, Frame.pieces, List.append_assoc] at ih ⊢
    rw [validPieces_overrides]
    refine ⟨frame.notOverride, ?_, ih⟩
    rw [Option.or_none]
    exact frame.sized

/-- Pieces of overrides and of one subrecord are located as a frame. -/
theorem locatePieces_frame (data : Bytes) (start : Nat) (frame : Frame) (pieces : List Piece) :
    locatePieces data start (frame.pieces ++ pieces) =
      frame.locate data start :: locatePieces data (start + frame.encode.length) pieces := by
  obtain ⟨overrides, signature, sizeField, payload, notOverride, sized⟩ := frame
  have skip : ∀ (sizes : List UInt32) (start : Nat) (rest : List Piece),
      locatePieces data start (sizes.map .override ++ rest) =
        locatePieces data (start + (encodeOverrides sizes).length) rest := by
    intro sizes
    induction sizes with
    | nil => simp [encodeOverrides]
    | cons size sizes ih =>
      intro start rest
      simp [locatePieces, ih, encodeOverrides, Nat.add_assoc]
  simp [Frame.pieces, skip, locatePieces, Frame.locate, Frame.lead, Frame.encode, Nat.add_assoc]

/-- The pieces of a block are located as its frames. -/
theorem locatePieces_block (data : Bytes) (start : Nat) (block : Block) :
    locatePieces data start block.pieces = locateFrames data start block.frames := by
  obtain ⟨frames, trailing⟩ := block
  induction frames generalizing start with
  | nil =>
    simp only [Block.pieces, List.flatMap_nil, List.nil_append, locateFrames]
    induction trailing generalizing start with
    | nil => rfl
    | cons size trailing ih => exact ih _
  | cons frame frames ih =>
    have tail := ih (start + frame.encode.length)
    simp only [Block.pieces, List.flatMap_cons, List.append_assoc, locatePieces_frame,
      locateFrames] at tail ⊢
    rw [tail]

/-- The pieces of a block have the bytes of the block. -/
theorem encode_pieces (block : Block) : block.pieces.flatMap Piece.encode = block.encode := by
  have overrides : ∀ sizes : List UInt32,
      (sizes.map Piece.override).flatMap Piece.encode = encodeOverrides sizes := by
    intro sizes
    rw [List.flatMap_map]
    rfl
  simp only [Block.pieces, List.flatMap_append, overrides, Block.encode, encodeFrames,
    List.flatMap_assoc]
  congr 1
  refine List.flatMap_congr fun frame _ => ?_
  simp [Frame.pieces, overrides, Frame.encode, Frame.lead, Piece.encode]

end Layout

/-- The loop reads the valid pieces that stand at the end of its input. -/
theorem parseSubrecordsLoop_eq_ok (data : Bytes) (fuel : Nat) (pending : Option UInt32)
    (before rest : Bytes) (subrecords : List SubRecord) (next : Cursor)
    (enough : rest.length < fuel) :
    parseSubrecordsLoop data fuel pending ⟨before ++ rest, before.length⟩ =
        .ok (subrecords, next) ↔
      ∃ pieces : List Piece, ValidPieces pending pieces ∧ rest = pieces.flatMap Piece.encode ∧
        next = ⟨before ++ rest, before.length + rest.length⟩ ∧
        subrecords = locatePieces data before.length pieces := by
  induction fuel generalizing before rest pending subrecords next with
  | zero => omega
  | succ fuel ih =>
    simp only [parseSubrecordsLoop, Reader.bind_apply, Reader.inspect, isEmpty_append]
    by_cases done : rest = []
    · subst done
      simp only [List.isEmpty_nil, ↓reduceIte, Reader.pure_apply, Except.ok.injEq, Prod.mk.injEq]
      constructor
      · rintro ⟨rfl, rfl⟩
        exact ⟨[], trivial, rfl, by simp, rfl⟩
      · rintro ⟨pieces, _, written, rfl, rfl⟩
        cases pieces with
        | nil => simp [locatePieces]
        | cons piece pieces =>
          have long := piece.length_encode_ge
          have short := congrArg List.length written
          rw [List.flatMap_cons, List.length_append, List.length_nil] at short
          omega
    · rw [if_neg (by simpa using done), (exact_io (exact_readArray 4)).bind_eq_ok_iff]
      simp only [(exact_io exact_readU16).bind_eq_ok_iff]
      constructor
      · rintro ⟨_, _, sig, rfl, rfl, _, after, size, rfl, rfl, accepted⟩
        have length := sig.property
        by_cases override : (⟨sig⟩ : Signature) = .XXXX
        · have known : sig.val = Signature.XXXX.bytes.val := congrArg (·.bytes.val) override
          rw [if_pos override] at accepted
          by_cases four : size = 4
          · rw [if_neg (not_not_intro four), (exact_io exact_readU32).bind_eq_ok_iff] at accepted
            obtain ⟨_, after, realSize, rfl, rfl, accepted⟩ := accepted
            simp only [List.length_append, length_u32ToLeBytes] at enough
            obtain ⟨pieces, valid, rfl, rfl, rfl⟩ := (ih _ _ _ _ _ (by omega)).mp accepted
            refine ⟨.override realSize :: pieces, valid, ?_, ?_, ?_⟩
            · simp [Piece.encode, encodeOverride, four, known]
            · simp only [List.append_assoc, List.length_append, length_u32ToLeBytes, Nat.add_assoc]
            · simp [locatePieces, length]
          · rw [if_pos four] at accepted
            simp [Reader.fail] at accepted
        · rw [if_neg override] at accepted
          simp only [Reader.bind_apply (Reader.inspect _), Reader.inspect,
            (exact_io (exact_readSlice _)).bind_eq_ok_iff] at accepted
          obtain ⟨payload, after, _, rfl, ⟨rfl, sized⟩, accepted⟩ := accepted
          obtain ⟨later, last, continued, accepted⟩ := Reader.bind_eq_ok.mp accepted
          simp only [List.length_append] at enough
          obtain ⟨pieces, valid, rfl, rfl, rfl⟩ := (ih _ _ _ _ _ (by omega)).mp continued
          simp only [Reader.pure_apply, Except.ok.injEq, Prod.mk.injEq] at accepted
          obtain ⟨rfl, rfl⟩ := accepted
          refine ⟨.field ⟨sig⟩ size payload :: pieces, ⟨override, sized, valid⟩, ?_, ?_, ?_⟩
          · simp [Piece.encode, encodeFieldHeader]
          · simp [Nat.add_assoc]
          · simp only [locatePieces, List.length_append, length_u16ToLeBytes, length,
              length_encodeFieldHeader, Nat.add_assoc, Nat.reduceAdd]
      · rintro ⟨pieces, valid, rfl, rfl, rfl⟩
        cases pieces with
        | nil => simp at done
        | cons piece pieces =>
          rw [List.flatMap_cons, List.length_append] at enough
          have long := piece.length_encode_ge
          cases piece with
          | override realSize =>
            have tail := (ih (some realSize) (before ++ Signature.XXXX.bytes.val ++
              u16ToLeBytes 4 ++ u32ToLeBytes realSize) (pieces.flatMap Piece.encode) _ _
              (by omega)).mpr ⟨pieces, valid, rfl, rfl, rfl⟩
            refine ⟨_, u16ToLeBytes 4 ++ (u32ToLeBytes realSize ++ pieces.flatMap Piece.encode),
              Signature.XXXX.bytes, by simp [Piece.encode, encodeOverride], rfl, _, _, 4, rfl,
              rfl, ?_⟩
            rw [if_pos rfl, if_neg (not_not_intro rfl), (exact_io exact_readU32).bind_eq_ok_iff]
            refine ⟨_, _, realSize, rfl, rfl, tail.trans ?_⟩
            simp only [locatePieces, List.flatMap_cons, Piece.encode, encodeOverride,
              List.append_assoc, List.length_append, Nat.add_assoc]
          | field signature sizeField payload =>
            obtain ⟨notOverride, sized, valid⟩ := valid
            have tail := (ih none (before ++ signature.bytes.val ++ u16ToLeBytes sizeField ++
              payload) (pieces.flatMap Piece.encode) _ _ (by omega)).mpr
                ⟨pieces, valid, rfl, rfl, rfl⟩
            refine ⟨_, u16ToLeBytes sizeField ++ (payload ++ pieces.flatMap Piece.encode),
              signature.bytes, by simp [Piece.encode, encodeFieldHeader], rfl, _, _, sizeField,
              rfl, rfl, ?_⟩
            rw [if_neg notOverride]
            simp only [Reader.bind_apply (Reader.inspect _), Reader.inspect,
              (exact_io (exact_readSlice _)).bind_eq_ok_iff]
            refine ⟨payload, _, payload, rfl, ⟨rfl, sized⟩, ?_⟩
            refine Reader.bind_eq_ok.mpr ⟨_, _, tail, ?_⟩
            simp only [Reader.pure_apply, locatePieces, List.flatMap_cons, Piece.encode,
              encodeFieldHeader, List.append_assoc, List.length_append, Nat.add_assoc]

/-- A block is parsed exactly from the bytes of its frames. -/
theorem parseSubrecords_eq_ok (data : Bytes) (subrecords : List SubRecord) :
    parseSubrecords data = .ok subrecords ↔
      ∃ block : Block, data = block.encode ∧ subrecords = locateFrames data 0 block.frames := by
  have loop := parseSubrecordsLoop_eq_ok data (data.length + 1) none [] data
  constructor
  · intro accepted
    unfold parseSubrecords at accepted
    cases looped : parseSubrecordsLoop data (data.length + 1) none ⟨data, 0⟩ with
    | error reason => simp [SliceCursor.new, looped, Except.map] at accepted
    | ok found =>
      obtain ⟨located, next⟩ := found
      simp only [SliceCursor.new, looped, Except.map, Except.ok.injEq] at accepted
      obtain ⟨pieces, valid, written, _, rfl⟩ := (loop located next (by omega)).mp looped
      obtain ⟨block, same⟩ := exists_block_of_valid pieces [] valid
      simp only [List.map_nil, List.nil_append] at same
      subst same
      exact ⟨block, written.trans (encode_pieces block), by
        rw [← accepted, List.length_nil, locatePieces_block]⟩
  · rintro ⟨block, written, rfl⟩
    have looped := (loop _ _ (by omega)).mpr ⟨block.pieces, validPieces_block block,
      written.trans (encode_pieces block).symm, rfl, rfl⟩
    simp only [List.nil_append, List.length_nil] at looped
    simp only [parseSubrecords, SliceCursor.new, looped, Except.map, locatePieces_block]

end Bethkit
