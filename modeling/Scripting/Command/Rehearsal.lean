import Scripting.Command.Action
import Scripting.FileTree

/-!
Actions run on files in memory and on an input that is known in advance.
-/

namespace Scripting.Command

/-- The outcome of an action: its exit code, what it wrote and the files after
it. -/
structure Rehearsal where
  code : Nat
  written : Transcript
  files : FileTree

def Action.rehearse (directory : Text) : Action → List Text → FileTree → Rehearsal
  | .exit code, _, files => { code, written := {}, files }
  | .write written next, input, files =>
    let rest := next.rehearse directory input files
    { rest with written := written ++ rest.written }
  | .readFile path next, input, files =>
    (next (files.read directory path)).rehearse directory input files
  | .writeFile path contents next, input, files =>
    match files.write directory path contents with
    | .ok files => (next (.ok ())).rehearse directory input files
    | .error e => (next (.error e)).rehearse directory input files
  | .converse repl next, input, files =>
    let (written, last) := repl.converse input
    let rest := (next last).rehearse directory [] files
    { rest with written := written ++ rest.written }

end Scripting.Command
