import Scripting.Store

/-!
The names that every program starts with. All are constants.
-/

namespace Scripting

namespace Gate

def name : Gate → Text
  | not => Text.utf8 "not"
  | or => Text.utf8 "or"
  | nor => Text.utf8 "nor"
  | and => Text.utf8 "and"
  | nand => Text.utf8 "nand"
  | xor => Text.utf8 "xor"
  | xnor => Text.utf8 "xnor"

def arity : Gate → Nat
  | not => 1
  | _ => 2

def output : Gate → List Bool → Bool
  | not, [a] => !a
  | or, [a, b] => a || b
  | nor, [a, b] => !(a || b)
  | and, [a, b] => a && b
  | nand, [a, b] => !(a && b)
  | xor, [a, b] => a != b
  | xnor, [a, b] => a == b
  | _, _ => false

/-- The booleans among arguments, or the cause that one of them is not. -/
def inputs (gate : Gate) : List Value → Except RuntimeError.Cause (List Bool)
  | [] => .ok []
  | .bool b :: rest => (gate.inputs rest).map (b :: ·)
  | other :: _ => .error (.gateInput gate.name other.kind)

/-- A gate takes exactly as many booleans as it has inputs. -/
def apply (gate : Gate) (arguments : List Value) : Except RuntimeError.Cause Value :=
  if arguments.length = gate.arity then
    (gate.inputs arguments).map fun bs => .bool (gate.output bs)
  else .error (.arity gate.name gate.arity arguments.length)

end Gate

namespace Builtin

def all : List (Text × Value) :=
  [(Text.utf8 "true", .bool true), (Text.utf8 "false", .bool false), (Text.utf8 "null", .null),
    (Text.utf8 "print", .native .print), (Text.utf8 "time", .native .time)] ++
  [.not, .or, .nor, .and, .nand, .xor, .xnor].map fun gate : Gate =>
    (gate.name, .native (.gate gate))

def install (scope : Nat) (s : Store) : Store :=
  all.foldl (fun s (name, value) => s.bind scope name ⟨value, true⟩) s

end Builtin

end Scripting
