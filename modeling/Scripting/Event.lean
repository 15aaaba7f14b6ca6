import Scripting.ParseError
import Scripting.RuntimeError

/-!
The events of a run that its log can tell.
-/

namespace Scripting

inductive Event where
  /-- A source could not be parsed. -/
  | parseFailed (error : ParseError)
  /-- A source was parsed; the end of the source counts as a token. -/
  | parsed (tokens statements : Nat) (outline : Text)
  /-- A function of the program was called. -/
  | called (function : Text) (arguments : Nat)
  /-- A source was evaluated to a value of a kind. -/
  | evaluated (kind : Value.Kind)
  /-- The evaluation of a source failed. -/
  | evaluationFailed (error : RuntimeError)
  deriving DecidableEq

end Scripting
