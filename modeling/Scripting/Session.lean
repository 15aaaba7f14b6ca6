import Scripting.Eval
import Scripting.Program.Outline
import Scripting.Program.Parse

/-!
Sessions: sources run one after the other on one state. What one of them binds at
the top the later ones see, also after an error.
-/

namespace Scripting

inductive RunError where
  | parse (error : ParseError)
  | runtime (error : RuntimeError)
  | exhausted

def RunError.message : RunError → Text
  | parse error => error.message
  | runtime error => error.message
  | exhausted => Text.utf8 "Evaluation is too deep"

/-- A session is the state that its sources share. -/
structure Session where
  state : State

namespace Session

def root : Nat := 0

def depth : Nat := 1000000

def initialStore : Store := Builtin.install root (Store.empty.newScope none).2

/-- A new session. The functions of the host are constants at the top. -/
def start (host : Host) : Session :=
  ⟨{ store := host.functions.keys.foldl
      (fun s name => s.bind root name ⟨.native (.host name), true⟩) initialStore }⟩

def evaluate (host : Host) (fuel : Nat) (p : Program) (session : Session) :
    Except RunError Value × Session :=
  match p.evaluate host fuel root session.state with
  | (.ok value, s) => (.ok value, ⟨s.trace host (.evaluated value.kind)⟩)
  | (.error e, s) => (.error (.runtime e), ⟨s.trace host (.evaluationFailed e)⟩)
  | (.exhausted, s) => (.error .exhausted, ⟨s⟩)

def run (host : Host) (fuel : Nat) (source : Text) (session : Session) :
    Except RunError Value × Session :=
  let scan := Scan.ofSource source
  match Program.ofScan scan with
  | .error e => (.error (.parse e), ⟨session.state.trace host (.parseFailed e)⟩)
  | .ok p =>
    let parsed := Event.parsed scan.withEnd.length p.length p.outline
    evaluate host fuel p ⟨session.state.trace host parsed⟩

/-- The lines printed since there were `start` of them, each with a line break. -/
def printedSince (session : Session) (start : Nat) : Text :=
  (session.state.printed.toList.drop start).flatMap (· ++ Text.utf8 "\n")

end Session

def Store.listing (s : Store) (scope : Nat) : List (Text × Binding) :=
  match s.scopes[scope]? with
  | none => []
  | some c => c.bindings.entries.mergeSort fun a b => a.1.le b.1

/-- Runs one source in a session of its own, and gives what it wrote: the lines it
printed and the message of its error, told with the path of the source if it has
one. -/
def runSource (host : Host) (fuel : Nat) (path source : Text) : Bool × Text :=
  let (result, session) := Session.run host fuel source (Session.start host)
  let printed := session.printedSince 0
  match result with
  | .ok _ => (true, printed)
  | .error e =>
    let origin := if path.isEmpty then [] else path ++ Text.utf8 ": "
    (false, printed ++ origin ++ e.message ++ Text.utf8 "\n")

end Scripting
