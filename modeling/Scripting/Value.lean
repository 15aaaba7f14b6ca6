import Scripting.Number.Decimal
import Scripting.Program
import Scripting.Table

/-!
The values of programs. Objects are known by their number in a store; a function
carries the number of the scope it was made in.
-/

namespace Scripting

inductive Gate where
  | not | or | nor | and | nand | xor | xnor
  deriving DecidableEq

/-- A function that is not written in the language: a built-in one, or one that
the host adds under a name. -/
inductive Native where
  | print
  | time
  | gate (gate : Gate)
  | host (name : Text)
  deriving DecidableEq

structure Function where
  name : Name
  parameters : List Name
  body : List Stmt

inductive Value where
  | null
  | bool (value : Bool)
  | number (value : Number)
  | text (value : Text)
  | object (id : Nat)
  | native (function : Native)
  | func (function : Function) (scope : Nat)

/-- The kinds of value that programs can tell apart. -/
inductive Value.Kind where
  | null | boolean | number | string | object | nativeFunction | function
  deriving DecidableEq

namespace Value

def Kind.name : Kind → Text
  | null => Text.utf8 "null"
  | boolean => Text.utf8 "boolean"
  | number => Text.utf8 "number"
  | string => Text.utf8 "string"
  | object => Text.utf8 "object"
  | nativeFunction => Text.utf8 "native-func"
  | function => Text.utf8 "func"

def kind : Value → Kind
  | null => .null
  | bool _ => .boolean
  | number _ => .number
  | text _ => .string
  | object _ => .object
  | native _ => .nativeFunction
  | func _ _ => .function

end Value

end Scripting
