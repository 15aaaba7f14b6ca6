import Scripting.FileError
import Scripting.Log
import Scripting.Path
import Scripting.Yaml

/-!
The configuration of the command: what is logged and how the interactive loop
looks. A file changes some of the defaults; the settings that have fixed choices
are checked afterwards.
-/

namespace Scripting

structure Config where
  /-- The level of the log, by name. -/
  level : Text := Text.utf8 "warn"
  /-- The form of the log: `text` or `json`. -/
  format : Text := Text.utf8 "text"
  /-- What the interactive loop shows before it reads an entry. -/
  prompt : Text := Text.utf8 ">>> "
  /-- The file that keeps the entries of earlier loops. -/
  history : Text := Text.utf8 "~/.petal_history"
  /-- When output is colored: `auto`, `always` or `never`. -/
  color : Text := Text.utf8 "auto"

namespace Config

/-- A setting that is none of its choices. -/
inductive Invalid where
  | level (name : Text)
  | format (name : Text)
  | color (mode : Text)

def Invalid.message : Invalid → Text
  | level name => Text.utf8 "log.level: " ++ Log.unknownLevel name
  | format name => Text.utf8 "log.format: unknown format " ++ name.quote
  | color mode => Text.utf8 "repl.color: unknown mode " ++ mode.quote

def formats : List Text := [Text.utf8 "text", Text.utf8 "json"]

def colorModes : List Text := [Text.utf8 "auto", Text.utf8 "always", Text.utf8 "never"]

/-- Checks the settings with fixed choices; the first fault counts. -/
def validate (c : Config) : Except Invalid Unit :=
  if (Log.Level.ofName? c.level).isNone then .error (.level c.level)
  else if !(formats.contains c.format) then .error (.format c.format)
  else if !(colorModes.contains c.color) then .error (.color c.color)
  else .ok ()

/-- Changes one setting by name; other names have no meaning. -/
def set (c : Config) (key value : Text) : Config :=
  if key = Text.utf8 "log.level" then { c with level := value }
  else if key = Text.utf8 "log.format" then { c with format := value }
  else if key = Text.utf8 "repl.prompt" then { c with prompt := value }
  else if key = Text.utf8 "repl.history" then { c with history := value }
  else if key = Text.utf8 "repl.color" then { c with color := value }
  else c

def settings (c : Config) : List (Text × Text) :=
  [(Text.utf8 "log.level", c.level), (Text.utf8 "log.format", c.format),
    (Text.utf8 "repl.prompt", c.prompt), (Text.utf8 "repl.history", c.history),
    (Text.utf8 "repl.color", c.color)]

def colored (c : Config) (terminal : Bool) : Bool :=
  if c.color = Text.utf8 "always" then true
  else if c.color = Text.utf8 "never" then false
  else terminal

/-- The history file. A leading `~/` is the home directory, if there is one. -/
def historyPath (c : Config) (home : Text) : Text :=
  let inHome := Text.utf8 "~/"
  if inHome.isPrefixOf c.history && !home.isEmpty then
    Path.join home (c.history.drop inHome.length)
  else c.history

def groups : List (Text × List Text) :=
  [(Text.utf8 "log", [Text.utf8 "level", Text.utf8 "format"]),
    (Text.utf8 "repl", [Text.utf8 "prompt", Text.utf8 "history", Text.utf8 "color"])]

/-- Takes the settings of one group over. Null leaves a setting as it is, and names
without a meaning are passed over. -/
def takeOverGroup? (d : Yaml.Document) (group : Text) (names : List Text) (c : Config)
    (n : Yaml.Node) : Option Config := do
  (← d.fields? names n).foldlM (fun c (name, value) => do
    match ← d.text? value with
    | some text => return c.set (group ++ Text.utf8 "." ++ name) text
    | none => return c) c

def takeOver? (d : Yaml.Document) (c : Config) : Option Config :=
  match d.root with
  | none => some c
  | some n => do
    (← d.fields? (groups.map Prod.fst) n).foldlM (fun c (group, value) =>
      takeOverGroup? d group ((groups.lookup group).getD []) c value) c

inductive LoadError where
  | unreadable (error : FileError)
  | malformed (path : Text)
  | invalid (path : Text) (fault : Invalid)

def LoadError.message : LoadError → Text
  | unreadable error => Text.utf8 "reading config: " ++ error.message
  | malformed path => Text.utf8 "parsing " ++ path
  | invalid path fault => Text.utf8 "invalid config " ++ path ++ Text.utf8 ": " ++ fault.message

def load (path : Text) : Except FileError Text → Except LoadError Config
  | .error e => .error (.unreadable e)
  | .ok contents =>
    match (Yaml.Document.ofText? contents).bind (takeOver? · {}) with
    | none => .error (.malformed path)
    | some c =>
      match c.validate with
      | .ok _ => .ok c
      | .error fault => .error (.invalid path fault)

/-- The path of the configuration file: the one asked for, else that of the
environment, else none. -/
def path? (asked fromEnvironment : Text) : Option Text :=
  if !asked.isEmpty then some asked
  else if !fromEnvironment.isEmpty then some fromEnvironment
  else none

end Config

def Config.logger (c : Config) (time session : Text) : Except Text Logger :=
  match Log.Level.ofName? c.level with
  | some level => .ok { level, json := c.format = Text.utf8 "json", time, session }
  | none => .error (Log.unknownLevel c.level)

end Scripting
