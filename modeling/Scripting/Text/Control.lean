import Scripting.Text.Printable
import Scripting.Text.Rune

/-!
The characters that have no glyph of their own: control and format characters,
those for private use, and those that stand for nothing yet.
-/

namespace Scripting.Text

def separatorRanges : List (Nat × Nat) := [
  (0x20, 0x20), (0xA0, 0xA0), (0x1680, 0x1680), (0x2000, 0x200A), (0x2028, 0x2029),
  (0x202F, 0x202F), (0x205F, 0x205F), (0x3000, 0x3000)]

def isSeparator (code : Nat) : Bool :=
  separatorRanges.any fun (low, high) => low ≤ code && code ≤ high

/-- Whether a text holds a character that is neither printed nor a separator. A
byte that is no part of a character does not count. -/
def hasControl (t : Text) : Bool :=
  t.runes.any fun r => r.code.any fun code => !isPrintable code && !isSeparator code

end Scripting.Text
