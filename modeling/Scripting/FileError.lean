import Scripting.Text

/-!
Why a file could not be used.
-/

namespace Scripting

inductive FileError.Reason where
  | notFound
  | isDirectory
  | notDirectory
  | other (text : Text)

def FileError.Reason.text : FileError.Reason → Text
  | notFound => Text.utf8 "no such file or directory"
  | isDirectory => Text.utf8 "is a directory"
  | notDirectory => Text.utf8 "not a directory"
  | other text => text

/-- What was tried, on which path, and why it failed. -/
structure FileError where
  operation : Text
  path : Text
  reason : FileError.Reason

def FileError.message (e : FileError) : Text :=
  e.operation ++ Text.utf8 " " ++ e.path ++ Text.utf8 ": " ++ e.reason.text

end Scripting
