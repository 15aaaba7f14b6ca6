import Scripting.Value

/-!
What can go wrong while a program runs, and how it is told.
-/

namespace Scripting

inductive BindingError where
  | duplicate (name : Text)
  | unresolved (name : Text)
  | constant (name : Text)
  deriving DecidableEq

namespace BindingError

def name : BindingError → Text
  | duplicate name | unresolved name | constant name => name

def text : BindingError → Text
  | duplicate _ => Text.utf8 "Cannot redeclare variable in the same scope"
  | unresolved _ => Text.utf8 "Cannot resolve name as it does not exist"
  | constant _ => Text.utf8 "Cannot reassign variable declared constant"

/-- The rule that was broken, and the name. -/
def message (e : BindingError) : Text :=
  e.text ++ Text.utf8 ": '" ++ e.name ++ Text.utf8 "'"

end BindingError

inductive RuntimeError.Cause where
  | binding (error : BindingError)
  | arity (function : Text) (expected given : Nat)
  | gateInput (function : Text) (kind : Value.Kind)
  | unhandledNode
  | undefinedOperator
  | notCallable
  | operandKind
  | conditionKind
  | invalidTarget
  | invalidMember
  | invalidKey
  | printerClosed
  | host (text : Text)
  deriving DecidableEq

namespace RuntimeError.Cause

def text : Cause → Text
  | binding error => error.text
  | arity .. => Text.utf8 "Invalid number of arguments"
  | gateInput .. => Text.utf8 "Cannot use a non boolean value in a logic gate"
  | unhandledNode => Text.utf8 "AST node has not been set up for interpretation"
  | undefinedOperator => Text.utf8 "Undefined operator"
  | notCallable => Text.utf8 "Can only call functions"
  | operandKind => Text.utf8 "Operands must be numbers"
  | conditionKind => Text.utf8 "Condition must be a boolean"
  | invalidTarget => Text.utf8 "Invalid assignment target"
  | invalidMember => Text.utf8 "Member access requires an object"
  | invalidKey => Text.utf8 "Object keys must be strings or numbers"
  | printerClosed => Text.utf8 "printer closed"
  | host text => text

/-- The rule that was broken, with what broke it where the cause knows it. -/
def message : Cause → Text
  | binding error => error.message
  | c@(arity function expected given) =>
    c.text ++ Text.utf8 ": " ++ function ++ Text.utf8 " expects " ++ Text.ofNat expected ++
      Text.utf8 ", got " ++ Text.ofNat given
  | c@(gateInput function kind) =>
    c.text ++ Text.utf8 ": " ++ function ++ Text.utf8 " got " ++ kind.name
  | c => c.text

end RuntimeError.Cause

/-- An error of a run: the line it is told at, its cause, and a detail or none. -/
structure RuntimeError where
  line : Int
  cause : RuntimeError.Cause
  detail : Text := []
  deriving DecidableEq

/-- The message of an error. A line that is not positive is not told. -/
def RuntimeError.message (e : RuntimeError) : Text :=
  (if 0 < e.line then Text.utf8 "Runtime error on line " ++ Text.ofInt e.line ++ Text.utf8 ": "
    else Text.utf8 "Runtime error: ") ++
    e.cause.message ++ if e.detail.isEmpty then [] else Text.utf8 ": " ++ e.detail

def Operator.applySymbol (symbol : Text) (x y : Number) : Except RuntimeError.Cause Number :=
  match Operator.ofSymbol? symbol with
  | some op => .ok (op.apply x y)
  | none => .error .undefinedOperator

end Scripting
