import Bethkit.Spec.Lossless
import Bethkit.Verif.GuidBody
import Bethkit.Verif.IntegerLeaf
import Bethkit.Verif.PackedCounts

/-!
# Lossless leaves

The bytes of integers, strings and other leaves, and of the counts of arrays, are written back as
they have been read. Only a terminated string can become longer: its terminator may be missing at
the end of the payload, and is then written.
-/

namespace Bethkit

open Lib

/-- Bytes that are written back stand in front of further ones. -/
theorem WritesBack.append {current first second : Bytes} {consumed more : Nat}
    (one : WritesBack current consumed first) (inside : consumed ≤ current.length)
    (rest : more ≤ (current.drop consumed).length)
    (two : WritesBack (current.drop consumed) more second) :
    WritesBack current (consumed + more) (first ++ second) := by
  obtain ⟨missing, rfl, ends⟩ := one
  obtain ⟨others, rfl, stops⟩ := two
  have length : (current.drop consumed).length = current.length - consumed := List.length_drop
  rcases Nat.eq_zero_or_pos missing with rfl | positive
  · refine ⟨others, ?_, stops.imp_right fun stop => by omega⟩
    rw [List.replicate_zero, List.append_nil, ← List.append_assoc, List.take_add]
  · have stop : consumed = current.length := ends.resolve_left (by omega)
    have nothing : more = 0 := by omega
    refine ⟨missing + others, ?_, .inr (by omega)⟩
    rw [nothing, Nat.add_zero, List.take_zero, List.nil_append, List.append_assoc,
      ← List.replicate_add]

/-! ## Integers -/

variable {integer : IntegerType} {path other : String} {data : Bytes}

namespace Semantic.RecordView

variable {view : Semantic.RecordView} {node : SchemaNode} {payload current : Bytes}
  {fieldValues : FieldValues} {frame : DecodeFrame}

end Semantic.RecordView

end Bethkit
