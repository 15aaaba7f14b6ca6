import Scripting.FileError
import Scripting.Repl

/-!
What a command does, step by step, without doing it. Whoever runs an action
provides the files and the lines of the input.
-/

namespace Scripting.Command

inductive Action where
  /-- Ends with an exit code. -/
  | exit (code : Nat)
  | write (written : Transcript) (next : Action)
  /-- Asks for the contents of a file. -/
  | readFile (path : Text) (next : Except FileError Text → Action)
  /-- Makes a file with some contents, or replaces what it held. -/
  | writeFile (path contents : Text) (next : Except FileError Unit → Action)
  /-- Runs an interactive loop on the input. -/
  | converse (repl : Repl) (next : Repl → Action)

namespace Action

def fail (code : Nat) (message : Text) : Action := .write (.message message) (.exit code)

end Action

end Scripting.Command
