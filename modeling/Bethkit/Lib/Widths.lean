import Bethkit.Lib.Reader

/-!
# Readers of a fixed width

A reader of a fixed width succeeds whenever enough bytes are left, fails otherwise, and computes its
value from the bytes it takes. Where a format has a fixed part in front, its readers say by their
widths alone which inputs get past it.
-/

namespace Bethkit.Lib.Reader

variable {ε α β : Type}

/-- A reader takes a number of bytes and computes its value from them. -/
structure Takes (reader : Reader ε α) (width : Nat) (decode : List UInt8 → α) : Prop where
  /-- With enough bytes it succeeds. -/
  enough : ∀ cursor : Cursor, cursor.pos + width ≤ cursor.data.length →
    reader cursor = .ok (decode ((cursor.data.drop cursor.pos).take width),
      ⟨cursor.data, cursor.pos + width⟩)
  /-- With fewer bytes it fails. -/
  short : ∀ cursor : Cursor, cursor.pos ≤ cursor.data.length →
    cursor.data.length < cursor.pos + width → ∃ reason, reader cursor = .error reason

/-- The entries of a table of entries of one width. -/
def decodeTable (width : Nat) (decode : List UInt8 → α) : Nat → List UInt8 → List α
  | 0, _ => []
  | count + 1, bytes =>
    decode (bytes.take width) :: decodeTable width decode count (bytes.drop width)

namespace Takes

/-- A fixed number of bytes. -/
theorem take (width : Nat) (short : Nat → ε) {decode : List UInt8 → α}
    {convert : { bytes : List UInt8 // bytes.length = width } → α}
    (same : ∀ bytes, convert bytes = decode bytes.val) :
    Takes (convert <$> Reader.take width short) width decode where
  enough cursor inside := by
    show (Reader.take width short >>= fun bytes => pure (convert bytes)) cursor = _
    rw [bind_apply, Reader.take, dif_pos inside]
    dsimp only
    rw [pure_apply, same]
  short cursor _ outside := by
    refine ⟨short cursor.pos, ?_⟩
    show (Reader.take width short >>= fun bytes => pure (convert bytes)) cursor = _
    rw [bind_apply, Reader.take, dif_neg (by omega)]

/-- Nothing is taken for a returned value. -/
theorem pure (value : α) : Takes (Pure.pure value : Reader ε α) 0 fun _ => value where
  enough _ _ := rfl
  short cursor inside outside := absurd inside (by omega)

/-- A sequence takes the bytes of its parts. -/
theorem bind {first : Reader ε α} {next : α → Reader ε β} {front back : Nat}
    {decode : List UInt8 → α} {follow : α → List UInt8 → β} (head : Takes first front decode)
    (tail : ∀ value, Takes (next value) back (follow value)) :
    Takes (first >>= next) (front + back) fun bytes =>
      follow (decode (bytes.take front)) (bytes.drop front) where
  enough cursor inside := by
    have here := head.enough cursor (by omega)
    have rest := (tail (decode ((cursor.data.drop cursor.pos).take front))).enough
      ⟨cursor.data, cursor.pos + front⟩ (by dsimp only; omega)
    have kept : ((cursor.data.drop cursor.pos).take (front + back)).take front =
        (cursor.data.drop cursor.pos).take front := by
      rw [List.take_take, Nat.min_eq_left (Nat.le_add_right _ _)]
    have left : ((cursor.data.drop cursor.pos).take (front + back)).drop front =
        (cursor.data.drop (cursor.pos + front)).take back := by
      rw [List.drop_take, Nat.add_sub_cancel_left, List.drop_drop]
    rw [bind_apply, here]
    dsimp only
    rw [rest, kept, left, Nat.add_assoc]
  short cursor inside outside := by
    rw [bind_apply]
    by_cases fits : cursor.pos + front ≤ cursor.data.length
    · rw [head.enough cursor fits]
      exact (tail _).short ⟨cursor.data, cursor.pos + front⟩ fits (by dsimp only; omega)
    · obtain ⟨reason, failed⟩ := head.short cursor inside (by omega)
      exact ⟨reason, by rw [failed]⟩

/-- An array of bytes. -/
theorem array (width : Nat) (short : Nat → ε) :
    ∃ decode, Takes (Reader.take width short) width decode := by
  refine ⟨fun bytes => if sized : bytes.length = width then ⟨bytes, sized⟩
    else ⟨List.replicate width 0, List.length_replicate⟩, fun cursor inside => ?_,
    fun cursor _ outside => ⟨short cursor.pos, ?_⟩⟩
  · have sized : ((cursor.data.drop cursor.pos).take width).length = width := by
      rw [List.length_take, List.length_drop]
      omega
    rw [Reader.take, dif_pos inside, dif_pos sized]
  · rw [Reader.take, dif_neg (by omega)]

/-- Another way to compute the value. -/
theorem congr {reader : Reader ε α} {width other : Nat} {decode convert : List UInt8 → α}
    (takes : Takes reader width decode) (widths : width = other)
    (same : ∀ bytes, bytes.length = width → decode bytes = convert bytes) :
    Takes reader other convert where
  enough cursor inside := by
    rw [← widths] at inside ⊢
    rw [takes.enough cursor inside, same _ (by rw [List.length_take, List.length_drop]; omega)]
  short cursor inside outside := takes.short cursor inside (widths ▸ outside)

/-- A table of entries of one width. -/
theorem times {reader : Reader ε α} {width : Nat} {decode : List UInt8 → α}
    (takes : Takes reader width decode) (count : Nat) :
    Takes (reader.times count) (count * width) (decodeTable width decode count) := by
  induction count with
  | zero => exact (pure []).congr (Nat.zero_mul _).symm fun _ _ => rfl
  | succ count ih =>
    apply (takes.bind fun value => ih.bind fun values => pure (value :: values)).congr
    · rw [Nat.succ_mul]
      omega
    · intro bytes sized
      have rest : (bytes.drop width).take (count * width) = bytes.drop width := by
        apply List.take_of_length_le
        rw [List.length_drop]
        omega
      rw [rest, decodeTable]

/-- Errors of another kind. -/
theorem mapError {ε' : Type} {reader : Reader ε α} {width : Nat} {decode : List UInt8 → α}
    (takes : Takes reader width decode) (convert : ε → ε') :
    Takes (reader.mapError convert) width decode where
  enough cursor inside := by rw [Reader.mapError, takes.enough cursor inside]
  short cursor inside outside := by
    obtain ⟨reason, failed⟩ := takes.short cursor inside outside
    exact ⟨convert reason, by rw [Reader.mapError, failed]⟩

/-- A sequence fails with a reason that its first part never gives where enough bytes are left for
the first part and the rest fails. -/
theorem bind_eq_error {reader : Reader ε α} {next : α → Reader ε β} {width : Nat}
    {decode : List UInt8 → α} (takes : Takes reader width decode) {reason : ε}
    (never : ∀ cursor, reader cursor ≠ .error reason) {data : List UInt8} {pos : Nat}
    (inside : pos ≤ data.length) :
    (reader >>= next) ⟨data, pos⟩ = .error reason ↔ pos + width ≤ data.length ∧
      next (decode ((data.drop pos).take width)) ⟨data, pos + width⟩ = .error reason := by
  rw [bind_apply]
  by_cases fits : pos + width ≤ data.length
  · rw [takes.enough ⟨data, pos⟩ fits]
    exact ⟨fun failed => ⟨fits, failed⟩, fun failed => failed.2⟩
  · obtain ⟨other, failed⟩ := takes.short ⟨data, pos⟩ inside (by dsimp only; omega)
    have apart : other ≠ reason := fun same => never ⟨data, pos⟩ (failed.trans (by rw [same]))
    rw [failed]
    constructor
    · exact fun same => absurd (Except.error.inj same) apart
    · exact fun rest => absurd rest.1 fits

end Takes

/-- A sequence fails where one of its parts does. -/
theorem bind_eq_error {first : Reader ε α} {next : α → Reader ε β} {cursor : Cursor} {reason : ε} :
    (first >>= next) cursor = .error reason ↔ first cursor = .error reason ∨
      ∃ value rest, first cursor = .ok (value, rest) ∧ next value rest = .error reason := by
  rw [bind_apply]
  cases first cursor with
  | error other => simp
  | ok found =>
    obtain ⟨value, rest⟩ := found
    simp

end Bethkit.Lib.Reader
