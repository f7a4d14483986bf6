import Mathlib.Tactic.Common

/-!
# Text predicates

The Unicode predicates on characters that validators of names and addresses
use.  Lengths of texts are UTF-8 byte counts (`String.utf8ByteSize`).
-/

namespace Keldra.Foundation

/-- General category `Cc`. -/
def isControl (c : Char) : Bool :=
  decide (c.toNat ≤ 0x1f) || (decide (0x7f ≤ c.toNat) && decide (c.toNat ≤ 0x9f))

/-- The Unicode `White_Space` property. -/
def isWhitespace (c : Char) : Bool :=
  (decide (0x09 ≤ c.toNat) && decide (c.toNat ≤ 0x0d)) ||
    (decide (0x2000 ≤ c.toNat) && decide (c.toNat ≤ 0x200a)) ||
    [0x20, 0x85, 0xa0, 0x1680, 0x2028, 0x2029, 0x202f, 0x205f, 0x3000].contains c.toNat

end Keldra.Foundation
