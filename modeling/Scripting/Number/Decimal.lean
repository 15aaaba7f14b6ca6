import Scripting.Number

/-!
Decimal texts of numbers. A finite number is written with the fewest digits
that read back as it, and of those the nearest; reading back is `Number.nearest`,
so the digits that are printed are the digits that were tested.
-/

namespace Scripting

/-- The value `digits * 10 ^ exponent`. -/
structure Decimal where
  digits : Nat
  exponent : Int
  deriving DecidableEq

namespace Decimal

/-- The magnitude nearest to a decimal. -/
def nearest (d : Decimal) : Nat :=
  match d.exponent with
  | .ofNat e => Number.nearest (d.digits * Nat.pow 10 e) 1
  | .negSucc e => Number.nearest d.digits (Nat.pow 10 (e + 1))

/-- The decimal that is exactly the given number of units. -/
def exact (units : Nat) : Decimal := ⟨units * Nat.pow 5 1074, -1074⟩

/-- How many zeros follow the point in a value below one, up to `limit`. -/
def zerosAfterPoint : Nat → Nat → Nat
  | 0, _ => 0
  | limit + 1, units =>
    if Number.one ≤ 10 * units then 0 else zerosAfterPoint limit (10 * units) + 1

/-- The least `k` with the given number of units below `10 ^ k`. The smallest
number has 323 zeros after the point. -/
def scale (units : Nat) : Int :=
  if Number.one ≤ units then (Nat.toDigits 10 (units / Number.one)).length
  else -(zerosAfterPoint 323 units : Int)

/-- Units over a power of ten: the quotient, the remainder and the divisor. -/
def quotient (units : Nat) (exponent : Int) : Nat × Nat × Nat :=
  let (numerator, denominator) : Nat × Nat := match exponent with
    | .ofNat e => (units, Number.one * Nat.pow 10 e)
    | .negSucc e => (units * Nat.pow 10 (e + 1), Number.one)
  (numerator / denominator, numerator % denominator, denominator)

/-- The two decimals with a given exponent around a number of units, the nearer
one first. Halfway that is the even one. -/
def around (units : Nat) (exponent : Int) : List Decimal :=
  let (low, rest, divisor) := quotient units exponent
  let below : Decimal := ⟨low, exponent⟩
  let above : Decimal := ⟨low + 1, exponent⟩
  if 2 * rest < divisor || (2 * rest = divisor && low % 2 = 0) then [below, above]
  else [above, below]

/-- The shortest decimal that reads back as a finite magnitude: the first one
among those of 1 to 17 digits. -/
def shortest (magnitude : Nat) : Decimal :=
  let units := Number.units magnitude
  let size := scale units
  let readsBack (count : Nat) : Option Decimal :=
    (around units (size - count)).find? fun d => d.nearest = magnitude
  ((List.range' 1 17).findSome? readsBack).getD (exact units)

/-- The same value with no zero as last digit. -/
def trim (d : Decimal) : Decimal :=
  if h : d.digits ≠ 0 ∧ d.digits % 10 = 0 then
    trim ⟨d.digits / 10, d.exponent + 1⟩
  else d
termination_by d.digits
decreasing_by exact Nat.div_lt_self (Nat.pos_of_ne_zero h.1) (by decide)

def zeros (n : Nat) : Text := List.replicate n 0x30

/-- All digits, with a point where it falls and no exponent. -/
def positional (d : Decimal) : Text :=
  let digits := Text.ofNat d.digits
  match d.exponent with
  | .ofNat e => digits ++ zeros e
  | .negSucc e =>
    let places := e + 1
    if places < digits.length then
      digits.take (digits.length - places) ++ Text.utf8 "." ++ digits.drop (digits.length - places)
    else Text.utf8 "0." ++ zeros (places - digits.length) ++ digits

/-- One digit, the others after a point, and the power of ten with its sign and
at least two digits. -/
def scientific (d : Decimal) : Text :=
  let digits := Text.ofNat d.digits
  let power := d.exponent + digits.length - 1
  let size := Text.ofNat power.natAbs
  digits.take 1 ++ (if digits.length = 1 then [] else Text.utf8 "." ++ digits.drop 1) ++
    Text.utf8 (if power < 0 then "e-" else "e+") ++ zeros (2 - size.length) ++ size

end Decimal

namespace Number

def signed (x : Number) (t : Text) : Text :=
  if x.isNegative then Text.utf8 "-" ++ t else t

/-- The shortest digits of a finite number without an exponent. -/
def positional (x : Number) : Text :=
  x.signed (if x.magnitude = 0 then Text.utf8 "0"
    else (Decimal.shortest x.magnitude).trim.positional)

/-- The magnitudes written with an exponent: from `10 ^ 21` on, and below
`10 ^ -6` apart from zero. -/
def hasExponent (magnitude : Nat) : Bool :=
  nearest (Nat.pow 10 21) 1 ≤ magnitude || (magnitude != 0 && magnitude < nearest 1 (Nat.pow 10 6))

def display (x : Number) : Text :=
  if x.isNaN then Text.utf8 "NaN"
  else if !x.isFinite then x.signed (Text.utf8 "Infinity")
  else if hasExponent x.magnitude then x.signed (Decimal.shortest x.magnitude).trim.scientific
  else x.positional

end Number

end Scripting
