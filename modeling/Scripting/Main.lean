import Std.Time
import Scripting.Command

/-!
The command as a program. Under the name `ast` it is the generator of node types.
-/

namespace Scripting.Command

def bytesOf (s : String) : Text := s.toUTF8.toList

def pathOf (t : Text) : String := String.fromUTF8? ⟨t.toArray⟩ |>.getD ""

/-- The milliseconds since 1970. -/
def readClock : IO Nat := do
  return (← Std.Time.Timestamp.now).toNanosecondsSinceUnixEpoch.val.toNat / 1000000

/-- A number with leading zeros. -/
def padded (width n : Nat) : Text :=
  let digits := Text.ofNat n
  List.replicate (width - digits.length) 0x30 ++ digits

/-- The time in UTC as date and time of day. A year starts in March here, so that
a leap day is its last one. -/
def timeText (milliseconds : Nat) : Text :=
  let seconds := milliseconds / 1000
  let days := seconds / 86400 + 719468
  let era := days / 146097
  let dayOfEra := days % 146097
  let year := (dayOfEra - dayOfEra / 1460 + dayOfEra / 36524 - dayOfEra / 146096) / 365
  let dayOfYear := dayOfEra - (365 * year + year / 4 - year / 100)
  let shifted := (5 * dayOfYear + 2) / 153
  let day := dayOfYear - (153 * shifted + 2) / 5 + 1
  let month := if shifted < 10 then shifted + 3 else shifted - 9
  let calendarYear := era * 400 + year + (if month ≤ 2 then 1 else 0)
  padded 4 calendarYear ++ Text.utf8 "-" ++ padded 2 month ++ Text.utf8 "-" ++ padded 2 day ++
    Text.utf8 "T" ++ padded 2 (seconds / 3600 % 24) ++ Text.utf8 ":" ++
    padded 2 (seconds / 60 % 60) ++ Text.utf8 ":" ++ padded 2 (seconds % 60) ++ Text.utf8 "Z"

def randomIdentifier : IO Text := do
  let bytes := (← IO.getRandomBytes 16).toList
  let marked := (bytes.zip (List.range 16)).map fun (b, i) =>
    if i = 6 then (b &&& 0x0F) ||| 0x40 else if i = 8 then (b &&& 0x3F) ||| 0x80 else b
  let digits := marked.flatMap fun b => Text.hex 2 b.toNat
  return Text.join (Text.utf8 "-") [digits.take 8, (digits.drop 8).take 4,
    (digits.drop 12).take 4, (digits.drop 16).take 4, digits.drop 20]

/-- Whether a code of the system, with or without its sign, is that of a path that
goes through a file. -/
def isNotDirectory (code : UInt32) : Bool := code = 20 || code = 0 - 20

def reasonOf : IO.Error → FileError.Reason
  | .noFileOrDirectory .. => .notFound
  | .inappropriateType _ code _ => if isNotDirectory code then .notDirectory else .isDirectory
  | .permissionDenied .. => .other (Text.utf8 "permission denied")
  | e => .other (bytesOf (toString e))

/-- The contents of a file. A directory can be opened, but not read. -/
def readFile (path : Text) : IO (Except FileError Text) := do
  try return .ok (← IO.FS.readBinFile (pathOf path)).toList
  catch e =>
    match reasonOf e with
    | .isDirectory => return .error ⟨Text.utf8 "read", path, .isDirectory⟩
    | reason => return .error ⟨Text.utf8 "open", path, reason⟩

def writeFile (path contents : Text) : IO (Except FileError Unit) := do
  try
    IO.FS.writeBinFile (pathOf path) ⟨contents.toArray⟩
    return .ok ()
  catch e => return .error ⟨Text.utf8 "open", path, reasonOf e⟩

def emit (written : Transcript) : IO Unit := do
  let out ← IO.getStdout
  out.write ⟨written.output.toArray⟩
  out.flush
  let err ← IO.getStderr
  err.write ⟨written.messages.toArray⟩
  err.flush

/-- The next line of the input, or none at its end. -/
def nextLine (input : IO.FS.Stream) : IO (Option Text) := do
  let line := bytesOf (← input.getLine)
  if line.isEmpty then return none
  else return some (Text.dropSuffix (Text.dropSuffix line (Text.utf8 "\n")) (Text.utf8 "\r"))

partial def converse (input : IO.FS.Stream) (r : Repl) : IO Repl := do
  match r.ask? with
  | none => emit (.line []); return r
  | some prompt =>
    emit { output := prompt }
    match ← nextLine input with
    | none => emit (.line []); return r
    | some line =>
      let now ← readClock
      let r := { r with
        logger := { r.logger with time := timeText now }
        host := { r.host with clock := fun _ => Number.ofNat now } }
      let (written, next) := r.feed line
      emit written
      if next.finished then return next else converse input next

def perform : Action → IO UInt32
  | .exit code => return code.toUInt32
  | .write written next => do
    emit written
    perform next
  | .readFile path next => do perform (next (← readFile path))
  | .writeFile path contents next => do perform (next (← writeFile path contents))
  | .converse repl next => do perform (next (← converse (← IO.getStdin) repl))

end Scripting.Command

open Scripting Scripting.Command in
def main (arguments : List String) : IO UInt32 := do
  let arguments := arguments.map bytesOf
  if (← IO.appPath).fileName = some "ast" then perform (generator arguments)
  else
    let now ← readClock
    perform (action
      { directory := bytesOf (← IO.currentDir).toString
        home := bytesOf ((← IO.getEnv "HOME").getD "")
        configPath := bytesOf ((← IO.getEnv "PETAL_CONFIG").getD "")
        session := ← randomIdentifier
        time := timeText now
        clock := fun _ => Number.ofNat now } arguments)
