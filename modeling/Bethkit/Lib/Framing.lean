import Bethkit.Lib.LittleEndian
import Bethkit.Lib.Tiling

/-!
# Framed entries

An entry is framed by its length in front of it, in a fixed number of little-endian bytes. A run of
framed entries can be taken apart in one way only, so no other run of as many entries begins with it
and none is begun by it; and the frames tile the bytes they occupy.
-/

namespace Bethkit.Lib

/-- An entry behind its length. -/
def frame (width : Nat) (entry : List UInt8) : List UInt8 := leBytes width entry.length ++ entry

/-- Framed entries one behind the other. -/
def frames (width : Nat) (entries : List (List UInt8)) : List UInt8 := entries.flatMap (frame width)

/-- The ranges of framed entries that are laid out from an offset on. -/
def frameRanges (width : Nat) : Nat → List (List UInt8) → List Range
  | _, [] => []
  | start, entry :: entries =>
    let stop := start + width + entry.length
    ⟨start, stop⟩ :: frameRanges width stop entries

/-- The length of an entry fits the bytes in front of it. -/
def Framable (width : Nat) (entry : List UInt8) : Prop := entry.length < 256 ^ width

/-- The bytes of a frame. -/
@[simp]
theorem length_frame (width : Nat) (entry : List UInt8) :
    (frame width entry).length = width + entry.length := by
  simp [frame]

/-- No entry takes no bytes. -/
@[simp]
theorem frames_nil (width : Nat) : frames width [] = [] := rfl

/-- The first frame stands in front. -/
@[simp]
theorem frames_cons (width : Nat) (entry : List UInt8) (entries : List (List UInt8)) :
    frames width (entry :: entries) = frame width entry ++ frames width entries := rfl

/-- A frame is taken apart in one way. -/
theorem frame_append_inj {width : Nat} {entry other rest others : List UInt8}
    (fits : Framable width entry) (otherFits : Framable width other)
    (same : frame width entry ++ rest = frame width other ++ others) :
    entry = other ∧ rest = others := by
  rw [frame, frame, List.append_assoc, List.append_assoc] at same
  have heads := List.append_inj same (by simp)
  have lengths : entry.length = other.length := by
    have read := congrArg leValue heads.1
    rw [leValue_leBytes, leValue_leBytes, Nat.mod_eq_of_lt fits, Nat.mod_eq_of_lt otherFits] at read
    exact read
  exact List.append_inj heads.2 lengths

/-- As many frames are taken apart in one way. -/
theorem frames_append_inj {width : Nat} {entries others : List (List UInt8)}
    (fits : ∀ entry ∈ entries, Framable width entry)
    (otherFits : ∀ entry ∈ others, Framable width entry) (count : entries.length = others.length)
    {rest tail : List UInt8} (same : frames width entries ++ rest = frames width others ++ tail) :
    entries = others ∧ rest = tail := by
  induction entries generalizing others with
  | nil =>
    have none : others = [] := List.eq_nil_of_length_eq_zero count.symm
    subst none
    exact ⟨rfl, same⟩
  | cons entry entries ih =>
    cases others with
    | nil => simp at count
    | cons other others =>
      rw [List.forall_mem_cons] at fits otherFits
      rw [frames_cons, frames_cons, List.append_assoc, List.append_assoc] at same
      have first := frame_append_inj fits.1 otherFits.1 same
      have later := ih fits.2 otherFits.2 (Nat.succ.inj count) first.2
      exact ⟨by rw [first.1, later.1], later.2⟩

/-- Frames of entries up to a length occupy so many bytes at most. -/
theorem length_frames_le {width bound : Nat} {entries : List (List UInt8)}
    (short : ∀ entry ∈ entries, entry.length ≤ bound) :
    (frames width entries).length ≤ entries.length * (width + bound) := by
  induction entries with
  | nil => simp
  | cons entry entries ih =>
    rw [List.forall_mem_cons] at short
    have rest := ih short.2
    rw [frames_cons, List.length_append, length_frame, List.length_cons, Nat.succ_mul]
    omega

/-- The frames tile the bytes they occupy. -/
theorem frameRanges_tiles (width start : Nat) (entries : List (List UInt8)) :
    Tiles start (start + (frames width entries).length) (frameRanges width start entries) := by
  induction entries generalizing start with
  | nil => rfl
  | cons entry entries ih =>
    have rest := ih (start + width + entry.length)
    have stop : start + (frames width (entry :: entries)).length =
        start + width + entry.length + (frames width entries).length := by
      rw [frames_cons, List.length_append, length_frame]
      omega
    rw [stop]
    exact ⟨rfl, by simp only; omega, rest⟩

end Bethkit.Lib
