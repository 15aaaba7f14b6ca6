import Scripting.RuntimeError

/-!
What surrounds a run. A host can add functions of its own; such a function
reaches the scopes of the program only by looking names up and declaring them,
and the values only by their texts.
-/

namespace Scripting

inductive HostAction where
  /-- Returns a value, or none, which programs see as null. -/
  | done (value : Option Value)
  /-- Fails at the call. -/
  | fail (cause : RuntimeError.Cause)
  /-- Fails with an error of its own making. -/
  | raise (error : RuntimeError)
  /-- Looks a name up in the scope of the call. -/
  | lookup (name : Text) (next : Except BindingError Value → HostAction)
  /-- Declares a name in the scope of the call. -/
  | declare (name : Text) (value : Value) (constant : Bool)
      (next : Except BindingError Value → HostAction)
  /-- Asks for the text of a value. -/
  | display (value : Value) (next : Text → HostAction)

/-- The surroundings of a run: the functions that the host adds, how many lines
its printer takes, the time at each reading of the clock, and whether events are
logged. -/
structure Host where
  functions : Table (List Value → HostAction) := .empty
  printLimit : Option Nat := none
  clock : Nat → Number := fun _ => Number.ofNat 0
  tracing : Bool := false

end Scripting
