import Scripting.Text

/-!
Numbers are binary floating-point values of 64 bits, held as their bit pattern.
Every finite value is a whole number of units of `2 ^ -1074`, so reading a
decimal, printing one and taking a remainder are exact arithmetic on naturals.
-/

namespace Scripting

/-- A floating-point number by its sign, exponent and fraction bits. -/
structure Number where
  bits : UInt64
  deriving DecidableEq

namespace Number

/-- The magnitude of infinity. Finite magnitudes are below it and those that are
not a number above. -/
def infinity : Nat := 0x7FF0000000000000

/-- The bit pattern without the sign. Magnitudes are ordered as the values are. -/
def magnitude (x : Number) : Nat := x.bits.toNat % Nat.pow 2 63

def isNegative (x : Number) : Bool := Nat.pow 2 63 ≤ x.bits.toNat

def isNaN (x : Number) : Bool := infinity < x.magnitude

def isFinite (x : Number) : Bool := x.magnitude < infinity

def ofMagnitude (negative : Bool) (magnitude : Nat) : Number :=
  ⟨UInt64.ofNat (magnitude + if negative then Nat.pow 2 63 else 0)⟩

def nan : Number := ⟨0x7FF8000000000000⟩

/-- A finite magnitude in units of `2 ^ -1074`. -/
def units (magnitude : Nat) : Nat :=
  let exponent := magnitude / Nat.pow 2 52
  let fraction := magnitude % Nat.pow 2 52
  if exponent = 0 then fraction else (fraction + Nat.pow 2 52) * Nat.pow 2 (exponent - 1)

/-- How many units make one. -/
def one : Nat := Nat.pow 2 1074

/-- The whole number nearest to a quotient; a half goes to the even neighbour. -/
def roundQuotient (numerator denominator : Nat) : Nat :=
  let whole := numerator / denominator
  let rest := 2 * (numerator % denominator)
  if rest < denominator then whole
  else if denominator < rest then whole + 1
  else whole + whole % 2

/-- The magnitude nearest to a quotient, or infinity if that is out of range. A
significand has at most 53 bits, so the `shift` low bits of the units are
rounded away; a carry into the exponent is addition of bit patterns. -/
def nearest (numerator denominator : Nat) : Nat :=
  let scaled := numerator * one
  let shift := (scaled / denominator).log2 - 52
  min infinity (roundQuotient scaled (denominator * Nat.pow 2 shift) + shift * Nat.pow 2 52)

def digitsValue (t : Text) : Nat := t.foldl (fun n c => 10 * n + (c.toNat - 48)) 0

def isDigit (c : UInt8) : Bool := 48 ≤ c && c ≤ 57

/-- The number nearest to a literal: digits, or digits, a point and digits. -/
def ofLiteral (t : Text) : Number :=
  let whole := t.takeWhile isDigit
  let fraction := (t.dropWhile isDigit).drop 1
  ofMagnitude false (nearest (digitsValue (whole ++ fraction)) (Nat.pow 10 fraction.length))

def ofNat (n : Nat) : Number := ofMagnitude false (nearest n 1)

/-- The whole part, toward zero. What does not fit a signed word of 64 bits is
the least such word. -/
def truncate (x : Number) : Int :=
  let whole := units x.magnitude / one
  if x.isFinite && whole < Nat.pow 2 63 then
    if x.isNegative then -(whole : Int) else whole
  else -9223372036854775808

end Number

end Scripting
