import Scripting.Text.Rune

/-!
White space, as the Unicode standard defines it, and the words it separates.
-/

namespace Scripting.Text

def isBlankCode (code : Nat) : Bool :=
  (0x09 ≤ code && code ≤ 0x0D) || code == 0x20 || code == 0x85 || code == 0xA0 ||
  code == 0x1680 || (0x2000 ≤ code && code ≤ 0x200A) || code == 0x2028 || code == 0x2029 ||
  code == 0x202F || code == 0x205F || code == 0x3000

/-- A stray byte is never white space. -/
def Rune.isBlank (r : Rune) : Bool := r.code.any isBlankCode

/-- The words of a run of characters, where `word` holds the bytes of a word
already begun. -/
def wordsFrom (word : Text) : List Rune → List Text
  | [] => if word.isEmpty then [] else [word]
  | r :: rest =>
    if r.isBlank then
      if word.isEmpty then wordsFrom [] rest else word :: wordsFrom [] rest
    else wordsFrom (word ++ r.bytes) rest

def words (t : Text) : List Text := wordsFrom [] t.runes

def trim (t : Text) : Text :=
  let inner := (t.runes.dropWhile Rune.isBlank).reverse.dropWhile Rune.isBlank
  inner.reverse.flatMap Rune.bytes

end Scripting.Text
