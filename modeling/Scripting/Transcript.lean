import Scripting.Log
import Scripting.Session

/-!
What a run writes: output, and beside it messages and log records.
-/

namespace Scripting

structure Transcript where
  output : Text := []
  messages : Text := []

namespace Transcript

def append (a b : Transcript) : Transcript := ⟨a.output ++ b.output, a.messages ++ b.messages⟩

instance : Append Transcript := ⟨append⟩

def line (t : Text) : Transcript := { output := t ++ Text.utf8 "\n" }

def message (t : Text) : Transcript := { messages := t ++ Text.utf8 "\n" }

def record (logger : Logger) (r : Log.Record) : Transcript := { messages := logger.write r }

end Transcript

/-- Runs one source in a session, with what it prints and logs. -/
def Session.runLogged (host : Host) (logger : Logger) (source : Text) (session : Session) :
    Except RunError Value × Transcript × Session :=
  let host := { host with tracing := logger.level.shows .debug }
  let (result, next) := session.run host Session.depth source
  let events := next.state.log.toList.drop session.state.log.size
  (result,
    { output := next.printedSince session.state.printed.size
      messages := events.flatMap logger.writeEvent },
    next)

end Scripting
