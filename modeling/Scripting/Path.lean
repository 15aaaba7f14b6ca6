import Scripting.Text

/-!
Paths of files: parts between slashes. Cleaning drops empty parts and single
dots, and resolves double dots as far as the path itself tells.
-/

namespace Scripting.Path

def slash : UInt8 := 0x2F

def dot : Text := Text.utf8 "."

def dotDot : Text := Text.utf8 ".."

def isAbsolute (path : Text) : Bool := path.head? = some slash

/-- The parts after a further one. Above the root there is only the root. -/
def step (rooted : Bool) (parts : List Text) (part : Text) : List Text :=
  if part.isEmpty || part = dot then parts
  else if part = dotDot then
    match parts.getLast? with
    | none => if rooted then [] else [dotDot]
    | some last => if last = dotDot then parts ++ [dotDot] else parts.dropLast
  else parts ++ [part]

/-- The shortest path that means the same. -/
def clean (path : Text) : Text :=
  let rooted := isAbsolute path
  let parts := (path.splitOn slash).foldl (step rooted) []
  let relative := Text.join [slash] parts
  if rooted then slash :: relative
  else if relative.isEmpty then dot
  else relative

def join (directory path : Text) : Text :=
  if directory.isEmpty && path.isEmpty then []
  else if directory.isEmpty then clean path
  else if path.isEmpty then clean directory
  else clean (directory ++ [slash] ++ path)

def absolute (directory path : Text) : Text :=
  if isAbsolute path then clean path else join directory path

end Scripting.Path
