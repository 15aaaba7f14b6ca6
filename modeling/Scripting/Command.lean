import Scripting.Command.Action
import Scripting.Command.Flag
import Scripting.Config
import Scripting.Program.Format
import Scripting.Schema

/-!
The command line: running a file, showing its syntax tree or its formatted
source, and the interactive loop.
-/

namespace Scripting.Command

structure Surroundings where
  /-- The working directory. -/
  directory : Text
  home : Text
  /-- The configuration file that the environment names. -/
  configPath : Text
  /-- The name of the session in the log. -/
  session : Text
  /-- The time of log records. -/
  time : Text
  clock : Nat → Number := fun _ => Number.ofNat 0

def exitParse : Nat := 1

def exitRuntime : Nat := 2

def exitUsage : Nat := 64

def commandName : Text := Text.utf8 "petal"

def usage : Text :=
  Text.utf8 "Usage:\n" ++
  Text.utf8 "  petal run [flags] <file>          Run a source file\n" ++
  Text.utf8 "  petal repl [flags]                Start the interactive loop\n" ++
  Text.utf8 "  petal ast [flags] [-source] <file> Print the syntax tree of a file\n\n" ++
  Text.utf8 "Flags:\n" ++
  Text.utf8 "  -config path      YAML config file (default $PETAL_CONFIG)\n" ++
  Text.utf8 "  -log-level level  Override log.level\n" ++
  Text.utf8 "  -log-format fmt   Override log.format (text, json)\n"

def configFlag : Flag := ⟨Text.utf8 "config", Text.utf8 "YAML config file", false⟩

def formatFlag : Flag := ⟨Text.utf8 "log-format", Text.utf8 "log format (text, json)", false⟩

def levelFlag : Flag := ⟨Text.utf8 "log-level", Text.utf8 "log level", false⟩

def sourceFlag : Flag :=
  ⟨Text.utf8 "source", Text.utf8 "print re-serialized source instead of the tree", true⟩

def commonFlags : List Flag := [configFlag, formatFlag, levelFlag]

def withFlags (command : Text) (flags : List Flag) (arguments : List Text)
    (next : Flag.Given → Action) : Action :=
  match Flag.read flags arguments with
  | .ok given => next given
  | .error fault =>
    let said := match fault.message? with
      | some message => Transcript.message message
      | none => {}
    .write (said ++ { messages := Flag.usage command flags }) (.exit exitUsage)

def override (given : Flag.Given) (c : Config) : Config :=
  let level := given.value levelFlag.name
  let format := given.value formatFlag.name
  { c with
    level := if level.isEmpty then c.level else level
    format := if format.isEmpty then c.format else format }

def withLogger (s : Surroundings) (c : Config) (next : Config → Logger → Action) : Action :=
  match c.validate with
  | .error fault => .fail exitUsage fault.message
  | .ok _ =>
    match c.logger s.time s.session with
    | .error message => .fail exitUsage message
    | .ok logger => next c logger

def withConfig (s : Surroundings) (given : Flag.Given) (next : Config → Logger → Action) :
    Action :=
  match Config.path? (given.value configFlag.name) s.configPath with
  | none => withLogger s (override given {}) next
  | some path => .readFile path fun contents =>
    match Config.load path contents with
    | .error e => .fail exitUsage e.message
    | .ok c => withLogger s (override given c) next

def withSource (s : Surroundings) (path : Text) (next : Text → Text → Action) : Action :=
  let path := Path.absolute s.directory path
  .readFile path fun
    | .error e => .fail exitUsage e.message
    | .ok source => next path source

def about (path message : Text) : Transcript := .message (path ++ Text.utf8 ": " ++ message)

def exitCode : RunError → Nat
  | .parse _ => exitParse
  | .runtime _ | .exhausted => exitRuntime

def run (s : Surroundings) (arguments : List Text) : Action :=
  withFlags (Text.utf8 "run") commonFlags arguments fun given =>
    match given.arguments with
    | [file] => withConfig s given fun _ logger => withSource s file fun path source =>
      let record : Log.Record :=
        ⟨.debug, Text.utf8 "running", [(Text.utf8 "file", .text path)]⟩
      let host : Host := { clock := s.clock }
      let (result, written, _) := (Session.start host).runLogged host logger source
      let written := .record logger record ++ written
      match result with
      | .ok _ => .write written (.exit 0)
      | .error e => .write (written ++ about path e.message) (.exit (exitCode e))
    | _ => .fail exitUsage (Text.utf8 "usage: petal run [flags] <file>")

/-- Shows the syntax tree of a file, or its source as it is formatted. -/
def tree (s : Surroundings) (arguments : List Text) : Action :=
  let flags := commonFlags ++ [sourceFlag]
  withFlags (Text.utf8 "ast") flags arguments fun given =>
    match given.arguments with
    | [file] => withConfig s given fun _ _ => withSource s file fun path source =>
      match Program.ofSource source with
      | .error e => .write (about path e.message) (.exit exitParse)
      | .ok p =>
        let output := if given.isOn sourceFlag.name then p.format else p.outline
        .write { output } (.exit 0)
    | _ => .fail exitUsage (Text.utf8 "usage: petal ast [flags] [-source] <file>")

/-- Runs the interactive loop, and keeps its entries for later ones. -/
def interact (s : Surroundings) (arguments : List Text) : Action :=
  withFlags (Text.utf8 "repl") commonFlags arguments fun given =>
    withConfig s given fun config logger =>
      let path := config.historyPath s.home
      .readFile path fun contents =>
        let history := match contents with
          | .ok text => History.ofText text
          | .error _ => {}
        let host : Host := { clock := s.clock }
        let repl : Repl :=
          { prompt := config.prompt, host, logger, session := Session.start host, history }
        .converse repl fun last => .writeFile path last.history.text fun
          | .ok _ => .exit 0
          | .error e =>
            let record : Log.Record :=
              ⟨.warning, Text.utf8 "cannot save history", [(Text.utf8 "error", .text e.message)]⟩
            .write (.record last.logger record) (.exit 0)

def action (s : Surroundings) : List Text → Action
  | [] => .write { output := usage } (.exit exitUsage)
  | command :: arguments =>
    if command = Text.utf8 "run" then run s arguments
    else if command = Text.utf8 "repl" then interact s arguments
    else if command = Text.utf8 "ast" then tree s arguments
    else if ["-h", "--help", "help"].any fun h => command = Text.utf8 h then
      .write { output := usage } (.exit 0)
    else
      let message := commandName ++ Text.utf8 ": unknown command " ++ command.quote
      .write (.message message ++ { output := usage }) (.exit exitUsage)

def generator : List Text → Action
  | [base] =>
    match Schema.ofBase? base with
    | some source => .write { output := source } (.exit 0)
    | none => .fail 1 (Text.utf8 "Unknown base type " ++ base)
  | _ => .fail 1 (Text.utf8 "Usage: ast Stmt|Expr")

end Scripting.Command
