import Scripting.Text

/-!
The characters of a text. A text that is not UTF-8 throughout has stray bytes
between its characters; each stands for itself.
-/

namespace Scripting.Text

def ofCode (code : Nat) : Text := String.utf8EncodeChar (Char.ofNat code)

def replacement : Nat := 0xFFFD

/-- One character with its bytes, or one stray byte, which has no code. -/
structure Rune where
  bytes : Text
  code : Option Nat

def isTail (b : UInt8) : Bool := 0x80 ≤ b && b ≤ 0xBF

def isSecondOfThree (a b : UInt8) : Bool :=
  0xE0 ≤ a && a ≤ 0xEF && isTail b && (a != 0xE0 || 0xA0 ≤ b) && (a != 0xED || b ≤ 0x9F)

def isSecondOfFour (a b : UInt8) : Bool :=
  0xF0 ≤ a && a ≤ 0xF4 && isTail b && (a != 0xF0 || 0x90 ≤ b) && (a != 0xF4 || b ≤ 0x8F)

def tailBits (b : UInt8) : Nat := b.toNat % 64

def firstRune (a : UInt8) (rest : Text) : Rune :=
  if a < 0x80 then ⟨[a], some a.toNat⟩
  else match rest with
    | b :: c :: d :: _ =>
      if 0xC2 ≤ a && a ≤ 0xDF && isTail b then two a b
      else if isSecondOfThree a b && isTail c then three a b c
      else if isSecondOfFour a b && isTail c && isTail d then
        ⟨[a, b, c, d],
          some (a.toNat % 8 * 262144 + tailBits b * 4096 + tailBits c * 64 + tailBits d)⟩
      else ⟨[a], none⟩
    | [b, c] =>
      if 0xC2 ≤ a && a ≤ 0xDF && isTail b then two a b
      else if isSecondOfThree a b && isTail c then three a b c
      else ⟨[a], none⟩
    | [b] => if 0xC2 ≤ a && a ≤ 0xDF && isTail b then two a b else ⟨[a], none⟩
    | [] => ⟨[a], none⟩
where
  two (a b : UInt8) : Rune := ⟨[a, b], some (a.toNat % 32 * 64 + tailBits b)⟩
  three (a b c : UInt8) : Rune :=
    ⟨[a, b, c], some (a.toNat % 16 * 4096 + tailBits b * 64 + tailBits c)⟩

def runes : Text → List Rune
  | [] => []
  | a :: rest =>
    let r := firstRune a rest
    r :: runes (rest.drop (r.bytes.length - 1))
termination_by t => t.length
decreasing_by simp only [List.length_drop, List.length_cons]; omega

def isUtf8 (t : Text) : Bool := t.runes.all fun r => r.code.isSome

end Scripting.Text
