import Scripting.Text.Rune
import Scripting.Text.Printable

/-!
Texts in quotes. A printable character stands for itself; a quote, a backslash
and all else is escaped, so the quoted form is one line of printable characters
and no quote inside it is unescaped.
-/

namespace Scripting.Text

def hexDigit (n : Nat) : UInt8 := UInt8.ofNat (if n < 10 then 48 + n else 87 + n)

/-- The last `width` hexadecimal digits of a number. -/
def hex : (width : Nat) → Nat → Text
  | 0, _ => []
  | width + 1, n => hex width (n / 16) ++ [hexDigit (n % 16)]

def shortEscape? : Nat → Option Text
  | 0x07 => some (utf8 "\\a")
  | 0x08 => some (utf8 "\\b")
  | 0x09 => some (utf8 "\\t")
  | 0x0A => some (utf8 "\\n")
  | 0x0B => some (utf8 "\\v")
  | 0x0C => some (utf8 "\\f")
  | 0x0D => some (utf8 "\\r")
  | _ => none

def escapeCode (code : Nat) (bytes : Text) : Text :=
  if code = 0x22 then utf8 "\\\""
  else if code = 0x5C then utf8 "\\\\"
  else if isPrintable code then bytes
  else match shortEscape? code with
    | some escape => escape
    | none =>
      if code < 0x20 ∨ code = 0x7F then utf8 "\\x" ++ hex 2 code
      else if code < 0x10000 then utf8 "\\u" ++ hex 4 code
      else utf8 "\\U" ++ hex 8 code

def Rune.escape (r : Rune) : Text :=
  match r.code with
  | some code => escapeCode code r.bytes
  | none => r.bytes.flatMap fun b => utf8 "\\x" ++ hex 2 b.toNat

def quote (t : Text) : Text := inQuotes (t.runes.flatMap Rune.escape)

end Scripting.Text
