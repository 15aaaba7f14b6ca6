import Scripting.Number

/-!
The five operators on numbers. Sum, difference, product and quotient are the
rounded ones of the floating-point format; the remainder is exact.
-/

namespace Scripting

inductive Operator where
  | add | sub | mul | div | rem
  deriving DecidableEq

namespace Operator

def symbol : Operator → Text
  | add => [0x2B]
  | sub => [0x2D]
  | mul => [0x2A]
  | div => [0x2F]
  | rem => [0x25]

def ofSymbol? : Text → Option Operator
  | [0x2B] => some add
  | [0x2D] => some sub
  | [0x2A] => some mul
  | [0x2F] => some div
  | [0x25] => some rem
  | _ => none

theorem ofSymbol?_symbol (op : Operator) : ofSymbol? op.symbol = some op := by
  cases op <;> rfl

theorem symbol_of_ofSymbol? {t : Text} {op : Operator} (h : ofSymbol? t = some op) :
    t = op.symbol := by
  unfold ofSymbol? at h
  split at h
  all_goals cases h; try rfl

/-- Sum and difference bind weaker than the other operators. -/
def isAdditive : Operator → Bool
  | add | sub => true
  | _ => false

end Operator

namespace Number

def toFloat (x : Number) : Float := Float.ofBits x.bits

def ofFloat (x : Float) : Number := ⟨x.toBits⟩

/-- The remainder of a division whose quotient is cut toward zero. It has the
sign of the dividend. -/
def remainder (x y : Number) : Number :=
  if x.isFinite && !y.isNaN && y.magnitude != 0 then
    if y.isFinite then
      ofMagnitude x.isNegative (nearest (units x.magnitude % units y.magnitude) one)
    else x
  else nan

end Number

def Operator.apply (op : Operator) (x y : Number) : Number :=
  match op with
  | .add => .ofFloat (x.toFloat + y.toFloat)
  | .sub => .ofFloat (x.toFloat - y.toFloat)
  | .mul => .ofFloat (x.toFloat * y.toFloat)
  | .div => .ofFloat (x.toFloat / y.toFloat)
  | .rem => x.remainder y

end Scripting
