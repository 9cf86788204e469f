import Bethkit.Spec.InlineCodec
import Bethkit.Verif.Addressing
import Bethkit.Verif.EditorRollback

/-!
# A selected codec and the address

`set_inline_encoding_at` records the codec, decodes the record again and checks that the address
selects text in its subrecord. It does not check that the address is still valid: the digest in the
address covers the kinds of all values, and text that was kept as raw bytes changes its kind.
-/

namespace Bethkit

open Lib

namespace RecordEditor

variable {sha256 : Sha256} {editor after : RecordEditor} {address : FieldAddress} {path : String}
  {encoding : InlineStringEncoding}

end RecordEditor

open RecordEditor

end Bethkit
