import Bethkit.Spec.Shape

/-!
# Choosing a codec for inline text

A caller that finds text decoded with a doubtful codec, or kept as raw bytes, selects a codec for it
and goes on with the address it has. What it may expect is stated here, beside the condition under
which it gets it: the address is guarded by a digest of the kinds of all values, so a codec that
makes text of raw bytes makes the address stale.
-/

namespace Bethkit

open Lib

namespace RecordEditor

end RecordEditor

end Bethkit
