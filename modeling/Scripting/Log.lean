import Scripting.Event
import Scripting.Text.Case
import Scripting.Text.Quoted

/-!
Log records and their two written forms. In the text form a value that is not
made of plain characters is quoted; the JSON form has its members sorted by name.
-/

namespace Scripting

namespace Log

/-- Levels of importance, from the highest down. -/
inductive Level where
  | panic | fatal | error | warning | info | debug | trace
  deriving DecidableEq

namespace Level

def name : Level → Text
  | panic => Text.utf8 "panic"
  | fatal => Text.utf8 "fatal"
  | error => Text.utf8 "error"
  | warning => Text.utf8 "warning"
  | info => Text.utf8 "info"
  | debug => Text.utf8 "debug"
  | trace => Text.utf8 "trace"

def rank : Level → Nat
  | panic => 0
  | fatal => 1
  | error => 2
  | warning => 3
  | info => 4
  | debug => 5
  | trace => 6

/-- The level of a name in any letter case; `warn` is another name of one. -/
def ofName? (name : Text) : Option Level :=
  let lower := name.lower
  if lower = Text.utf8 "warn" then some warning
  else [panic, fatal, error, warning, info, debug, trace].find? fun level => level.name = lower

/-- Whether a logger at a level writes records of another. -/
def shows (level record : Level) : Bool := record.rank ≤ level.rank

end Level

def unknownLevel (name : Text) : Text := Text.utf8 "not a valid logrus Level: " ++ name.quote

inductive Field where
  | text (value : Text)
  | number (value : Nat)

def Field.plain : Field → Text
  | text value => value
  | number value => Text.ofNat value

structure Record where
  level : Level
  message : Text
  fields : List (Text × Field)

def ofEvent (event : Event) : Record :=
  let record (message : Text) (fields : List (Text × Field)) : Record :=
    ⟨.debug, message, (Text.utf8 "component", .text (Text.utf8 "interpreter")) :: fields⟩
  match event with
  | .parseFailed error =>
    record (Text.utf8 "parse failed") [(Text.utf8 "error", .text error.message)]
  | .parsed tokens statements outline =>
    record (Text.utf8 "parsed\n" ++ outline)
      [(Text.utf8 "tokens", .number tokens), (Text.utf8 "statements", .number statements)]
  | .called function arguments =>
    record (Text.utf8 "call")
      [(Text.utf8 "function", .text function), (Text.utf8 "arguments", .number arguments)]
  | .evaluated kind => record (Text.utf8 "evaluated") [(Text.utf8 "result", .text kind.name)]
  | .evaluationFailed error =>
    record (Text.utf8 "evaluation failed") [(Text.utf8 "error", .text error.message)]

def isPlain (c : UInt8) : Bool :=
  (0x61 ≤ c && c ≤ 0x7A) || (0x41 ≤ c && c ≤ 0x5A) || (0x30 ≤ c && c ≤ 0x39) ||
  (Text.utf8 "-._/@^+").contains c

def textMember (key value : Text) : Text :=
  key ++ Text.utf8 "=" ++ if value.all isPlain then value else value.quote

/-- A character in a JSON string. What could start or end markup is escaped too. -/
def jsonCharacter (r : Text.Rune) : Text :=
  match r.code with
  | none => Text.utf8 "\\ufffd"
  | some code =>
    if code = 0x22 then Text.utf8 "\\\""
    else if code = 0x5C then Text.utf8 "\\\\"
    else if code = 0x08 then Text.utf8 "\\b"
    else if code = 0x0C then Text.utf8 "\\f"
    else if code = 0x0A then Text.utf8 "\\n"
    else if code = 0x0D then Text.utf8 "\\r"
    else if code = 0x09 then Text.utf8 "\\t"
    else if code < 0x20 || [0x3C, 0x3E, 0x26, 0x2028, 0x2029].contains code then
      Text.utf8 "\\u" ++ Text.hex 4 code
    else r.bytes

def jsonString (t : Text) : Text := Text.inQuotes (t.runes.flatMap jsonCharacter)

def Field.json : Field → Text
  | text value => jsonString value
  | number value => Text.ofNat value

def sorted (fields : List (Text × Field)) : List (Text × Field) :=
  fields.mergeSort fun a b => a.1.le b.1

/-- A record on one line: level and message, then the members by name. -/
def Record.text (r : Record) : Text :=
  let first := textMember (Text.utf8 "level") r.level.name ::
    if r.message.isEmpty then [] else [textMember (Text.utf8 "msg") r.message]
  Text.join (Text.utf8 " ")
    (first ++ (sorted r.fields).map fun (key, value) => textMember key value.plain)

def Record.json (time : Text) (r : Record) : Text :=
  let members := sorted ([(Text.utf8 "level", .text r.level.name),
    (Text.utf8 "msg", .text r.message), (Text.utf8 "time", .text time)] ++ r.fields)
  Text.utf8 "\x7b" ++ Text.join (Text.utf8 ",")
    (members.map fun (key, value) => jsonString key ++ Text.utf8 ":" ++ value.json) ++
    Text.utf8 "\x7d"

end Log

/-- How records are written: from which level on, in which form, at what time, and
for which session. -/
structure Logger where
  level : Log.Level
  json : Bool
  time : Text := []
  session : Text := []

namespace Logger

/-- The line of a record, or nothing if the level hides it. -/
def write (logger : Logger) (r : Log.Record) : Text :=
  if logger.level.shows r.level then
    (if logger.json then r.json logger.time else r.text) ++ Text.utf8 "\n"
  else []

/-- The line of an event, told with the session that it belongs to. -/
def writeEvent (logger : Logger) (event : Event) : Text :=
  let r := Log.ofEvent event
  logger.write { r with fields := (Text.utf8 "session", .text logger.session) :: r.fields }

end Logger

end Scripting
