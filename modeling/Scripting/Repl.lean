import Scripting.History
import Scripting.Text.Blank
import Scripting.Text.Control
import Scripting.Transcript

/-!
The interactive loop. It collects lines until they form an entry that does not
stop short at its end, runs the entry, and shows its value unless that is null.
-/

namespace Scripting

structure Repl where
  prompt : Text
  host : Host
  logger : Logger
  session : Session
  history : History
  /-- The lines of an entry that is not complete. -/
  pending : Text := []
  /-- Whether the user has left the loop. -/
  finished : Bool := false

namespace Repl

def continuationPrompt : Text := Text.utf8 "... "

/-- The prompt for the next line. None can be shown if it holds a control
character. -/
def ask? (r : Repl) : Option Text :=
  let prompt := if r.pending.isEmpty then r.prompt else continuationPrompt
  if prompt.hasControl then none else some prompt

def extend (r : Repl) (line : Text) : Text :=
  if r.pending.isEmpty then line else r.pending ++ [Text.lineFeed] ++ line

def enter (r : Repl) (entry : Text) : Transcript × Repl :=
  let (result, written, session) := r.session.runLogged r.host r.logger entry
  let next := { r with session, history := r.history.add entry, pending := [] }
  match result with
  | .ok .null => (written, next)
  | .ok value => (written ++ .line (session.state.store.display value), next)
  | .error e =>
    let record : Log.Record :=
      ⟨.warning, Text.utf8 "entry failed", [(Text.utf8 "error", .text e.message)]⟩
    (written ++ .record r.logger record ++ .message e.message, next)

def feed (r : Repl) (line : Text) : Transcript × Repl :=
  let entry := r.extend line
  if Program.isIncomplete entry then ({}, { r with pending := entry })
  else if entry.trim.isEmpty then ({}, { r with pending := [] })
  else if entry.trim = Text.utf8 "exit" then ({}, { r with pending := [], finished := true })
  else r.enter entry

/-- Runs the loop on the lines that there are. The end of the input, and a prompt
that cannot be shown, break the line. -/
def converse (r : Repl) : List Text → Transcript × Repl
  | [] => ({ output := r.ask?.getD [] ++ Text.utf8 "\n" }, r)
  | line :: lines =>
    match r.ask? with
    | none => (.line [], r)
    | some prompt =>
      let (written, next) := r.feed line
      let asked : Transcript := { output := prompt }
      if next.finished then (asked ++ written, next)
      else
        let (rest, last) := next.converse lines
        (asked ++ written ++ rest, last)

end Repl

end Scripting
